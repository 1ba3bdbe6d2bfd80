import TensorGrep.Kernel.ExceptList
import TensorGrep.Kernel.PosixPaths
import TensorGrep.Policy.Commands

/-!
# Which executables a policy command may run

The program of a policy command is searched on a path without the working directory and is made
absolute without following links.  It is refused when it lies in the target repository, as it is
spelled or with its directory resolved; both tests compare texts.

`spawned_outside_iff` says when no program of the repository is run: below the root directory, and
for a path with two slashes in front, the texts do not show where the program lies.
-/

namespace TensorGrep
namespace Policy

open Kernel

/-! ## The host -/

/-- A path with one slash in front. -/
abbrev DirPath := PlainPath (chr '/') (chr '.')

/-- What `os.path.abspath` returns. -/
abbrev ExecPath := AbsolutePath (chr '/') (chr '.')

/-- Why a path function raises. -/
inductive PathFault where
  | osError
  | runtimeError
deriving DecidableEq

/-- How a process ends, or does not start. -/
inductive ProcessOutcome where
  | timedOut
  | failedToStart (message : CodePoints)
  | completed (returncode : ℤ) (stdout stderr : CodePoints)

/-- What the host answers: the variable `PATH`, the current directory, `shutil.which`,
`Path.resolve`, also with `strict=True`, `repr` and `subprocess.run`. -/
structure ExecHost where
  path : CodePoints
  getcwd : Except PathFault ExecPath
  which : CodePoints → CodePoints → Option CodePoints
  resolve : CodePoints → Except PathFault DirPath
  resolveStrict : CodePoints → Except PathFault DirPath
  quoted : CodePoints → CodePoints
  run : List CodePoints → CodePoints → ℕ → ProcessOutcome

/-- `_command_result`. -/
structure CommandResult where
  passed : Bool
  detail : CodePoints
  exitCode : Option ℤ
  timedOut : Bool

/-- What a policy command ends with, and the arguments of the process it has started. -/
structure PolicyRun where
  result : CommandResult
  spawned : Option (List CodePoints)

/-- A run that starts no process. -/
def refused (detail : CodePoints) : PolicyRun :=
  ⟨⟨false, detail, none, false⟩, none⟩

/-! ## Paths -/

/-- `_path_is_under`, false where a path cannot be resolved. -/
def pathIsUnder
    (host : ExecHost)
    (path root : CodePoints) : Bool :=
  match host.resolve path, host.resolve root with
  | .ok path, .ok root => decide (root.names <+: path.names)
  | _, _ => false

/-- An entry of `PATH` is kept. -/
def keptEntry
    (host : ExecHost)
    (entry : CodePoints) : Bool :=
  let stripped := stripSymbols some entry
  if stripped = [] ∨ stripped = [chr '.'] then false
  else
    match host.getcwd with
    | .ok cwd => !pathIsUnder host entry cwd.text
    | .error _ => true

/-- `_search_path_without_cwd`. -/
def searchPathWithoutCwd (host : ExecHost) : CodePoints :=
  if host.path = [] then host.path
  else [chr ':'].intercalate ((host.path.splitOn (chr ':')).filter (keptEntry host))

/-- `os.path.abspath`. -/
def abspath
    (host : ExecHost)
    (path : CodePoints) : Except PathFault ExecPath :=
  if [chr '/'] <+: path then .ok (normAbsolute path)
  else host.getcwd.map fun cwd => normAbsolute (joinPath (chr '/') cwd.text path)

/-- `_strip_extended_length_prefix`. -/
def stripExtendedLength (path : CodePoints) : CodePoints :=
  if codePoints "\\\\?\\UNC\\" <+: path then codePoints "\\\\" ++ path.drop 8
  else if codePoints "\\\\?\\" <+: path then path.drop 4
  else path

/-- `_abspath_beneath_or_equal`. -/
def abspathBeneathOrEqual (path root : CodePoints) : Bool :=
  let normalizedPath := normpath (chr '/') (chr '.') (stripExtendedLength path)
  let normalizedRoot := normpath (chr '/') (chr '.') (stripExtendedLength root)
  decide (normalizedPath = normalizedRoot ∨ normalizedRoot ++ [chr '/'] <+: normalizedPath)

/-- `_canonicalize_exec_parent`. -/
def canonicalizeExecParent
    (host : ExecHost)
    (executable : ExecPath) : Option DirPath :=
  (host.resolveStrict executable.parent.text).toOption.map fun parent =>
    parent.withNameOf executable

/-! ## Running a command -/

/-- `_summarize_command_output`. -/
def summarizeCommandOutput
    (name stdout stderr : CodePoints)
    (exitCode : CodePoints) : CodePoints :=
  let summary := if stripSymbols some stderr = [] then stripSymbols some stdout
    else stripSymbols some stderr
  if summary = [] then name ++ codePoints " command failed with exit code " ++ exitCode ++
    codePoints "."
  else summary

/-- The result of a process. -/
def processResult
    (name : CodePoints)
    (timeout : ℕ) : ProcessOutcome → CommandResult
  | .timedOut =>
      ⟨false, codePoints "Command timed out after " ++ codePoints (toString timeout) ++
        codePoints "s.", none, true⟩
  | .failedToStart message =>
      ⟨false, name ++ codePoints " command failed to start: " ++ message, none, false⟩
  | .completed returncode stdout stderr =>
      if returncode = 0 then ⟨true, name ++ codePoints " command succeeded.", some 0, false⟩
      else ⟨false, summarizeCommandOutput name stdout stderr (codePoints (toString returncode)),
        some returncode, false⟩

/-- The root of the untrusted repository: resolved, or as it is given. -/
def untrustedRoot
    (host : ExecHost)
    (cwd : CodePoints) : Except PathFault CodePoints :=
  match host.resolve cwd with
  | .ok root => .ok root.text
  | .error .osError => .ok cwd
  | .error .runtimeError => .error .runtimeError

/-- The guards of `_run_policy_command`, and the start of the process behind them. -/
def confinedRun
    (host : ExecHost)
    (name cwd : CodePoints)
    (timeout : ℕ)
    (program : CodePoints)
    (arguments : List CodePoints)
    (resolvedPath : ExecPath) : Except PathFault PolicyRun :=
  let opening := name ++ codePoints " command executable " ++ host.quoted program
  if codePoints "\\\\" <+: stripExtendedLength resolvedPath.text then
    .ok (refused (opening ++ codePoints ": refusing a UNC/network-share executable path " ++
      resolvedPath.text ++ codePoints " (cannot be confined to the local repo root)."))
  else do
    let root ← untrustedRoot host cwd
    match canonicalizeExecParent host resolvedPath with
    | none => .ok (refused (opening ++ codePoints ": could not canonicalize " ++
        resolvedPath.text ++ codePoints " for the repo-confinement check; refusing to run it."))
    | some canonical =>
        if abspathBeneathOrEqual resolvedPath.text root ||
            abspathBeneathOrEqual canonical.text root then
          .ok (refused (opening ++ codePoints ": refusing a repo-local executable shadow: " ++
            resolvedPath.text ++ codePoints " (resolves inside the untrusted target repository " ++
            root ++ codePoints ")."))
        else
          let argv := resolvedPath.text :: arguments
          .ok ⟨processResult name timeout (host.run argv cwd timeout), some argv⟩

/-- `_run_policy_command`. -/
def runPolicyCommand
    (host : ExecHost)
    (name command cwd : CodePoints)
    (timeout : ℕ) : Except PathFault PolicyRun :=
  match parsePolicyCommand some command with
  | .error e => .ok (refused (name ++ codePoints " command could not be parsed: " ++
      e.message host.quoted ++ codePoints "."))
  | .ok [] => .ok (refused (name ++ codePoints " command executable " ++ host.quoted command ++
      codePoints " was not found on PATH."))
  | .ok (program :: arguments) =>
      match host.which program (searchPathWithoutCwd host) with
      | none => .ok (refused (name ++ codePoints " command executable " ++ host.quoted program ++
          codePoints " was not found on PATH."))
      | some resolvedExecutable => do
          let resolvedPath ← abspath host resolvedExecutable
          confinedRun host name cwd timeout program arguments resolvedPath

/-! ## The tests of texts -/

section Tests

theorem stripExtendedLength_of_rooted
    {path : CodePoints}
    (h : [chr '/'] <+: path) :
    stripExtendedLength path = path := by
  obtain ⟨rest, rfl⟩ := h
  rw [stripExtendedLength, if_neg, if_neg]
  · rintro ⟨rest', hrest⟩
    exact absurd (List.cons.inj hrest).1 (by decide)
  · rintro ⟨rest', hrest⟩
    exact absurd (List.cons.inj hrest).1 (by decide)

/-- Without a name in the root, only the root and paths with two slashes in front are found to be
in it; with a name, the paths within the root that have one slash in front. -/
theorem abspathBeneathOrEqual_iff
    {path : ExecPath}
    {root : DirPath} :
    abspathBeneathOrEqual path.text root.text = true ↔
      if root.names = [] then path.doubled = true ∨ path.path.names = []
      else path.doubled = false ∧ path.path.Within root := by
  have hroot : root.text = (⟨false, root⟩ : ExecPath).text := rfl
  rw [abspathBeneathOrEqual, decide_eq_true_iff, stripExtendedLength_of_rooted (rooted_text path),
    normpath_text, hroot, stripExtendedLength_of_rooted (rooted_text _), normpath_text]
  exact AbsolutePath.eq_or_begins_iff

/-- The test finds nothing that is not within the root. -/
theorem within_of_abspathBeneathOrEqual
    {path : ExecPath}
    {root : DirPath}
    (h : abspathBeneathOrEqual path.text root.text = true) :
    path.path.Within root := by
  rw [abspathBeneathOrEqual_iff] at h
  split_ifs at h with hroot
  · rw [PlainPath.Within, hroot]
    exact List.nil_prefix
  · exact h.2

end Tests

/-! ## What is run -/

/-- A policy command starts a process with these arguments. -/
def Spawns
    (host : ExecHost)
    (name command cwd : CodePoints)
    (timeout : ℕ)
    (argv : List CodePoints) : Prop :=
  ∃ run, runPolicyCommand host name command cwd timeout = .ok run ∧ run.spawned = some argv

/-- The executable of a command, as an absolute path. -/
def FoundExecutable
    (host : ExecHost)
    (command : CodePoints)
    (executable : ExecPath) : Prop :=
  ∃ program arguments resolved, parsePolicyCommand some command = .ok (program :: arguments) ∧
    host.which program (searchPathWithoutCwd host) = some resolved ∧
    abspath host resolved = .ok executable

/-- The program that is run lies outside the root, as it is spelled and with its directory
resolved. -/
def StaysOutside
    (host : ExecHost)
    (root : DirPath)
    (argv : List CodePoints) : Prop :=
  ∃ (executable : ExecPath) (parent : DirPath), argv.head? = some executable.text ∧
    host.resolveStrict executable.parent.text = .ok parent ∧
    ¬ executable.path.Within root ∧ ¬ (parent.withNameOf executable).Within root

/-- The texts show where an executable lies: the root has a name, or the executable has two slashes
in front or is the root; and one that is spelled within a root with a name has one slash in front
or has its resolved directory there. -/
def TextsTell
    (root : DirPath)
    (executable : ExecPath)
    (parent : DirPath) : Prop :=
  if root.names = [] then executable.doubled = true ∨ executable.path.names = []
  else executable.doubled = true → executable.path.Within root →
    (parent.withNameOf executable).Within root

section Runs

variable {host : ExecHost} {name command cwd : CodePoints} {timeout : ℕ}

theorem not_unc_text
    (p : ExecPath) :
    ¬ codePoints "\\\\" <+: stripExtendedLength p.text := by
  rw [stripExtendedLength_of_rooted (rooted_text p)]
  intro h
  obtain ⟨rest, hrest⟩ := rooted_text p
  obtain ⟨rest', hrest'⟩ := h
  exact absurd (List.cons.inj (hrest'.trans hrest.symm)).1 (by decide)

/-- Behind the guards a process is started for an executable whose directory is resolved and which
no test of texts finds in the root. -/
theorem confinedRun_spawned_iff
    {root : DirPath}
    (hroot : host.resolve cwd = .ok root)
    {program : CodePoints}
    {arguments argv : List CodePoints}
    {executable : ExecPath} :
    (∃ run, confinedRun host name cwd timeout program arguments executable = .ok run ∧
        run.spawned = some argv) ↔
      ∃ parent, host.resolveStrict executable.parent.text = .ok parent ∧
        ¬ (abspathBeneathOrEqual executable.text root.text = true ∨
          abspathBeneathOrEqual (parent.withNameOf executable).text root.text = true) ∧
        argv = executable.text :: arguments := by
  have huntrusted : untrustedRoot host cwd = .ok root.text := by
    rw [untrustedRoot, hroot]
  rw [confinedRun, if_neg (not_unc_text executable), huntrusted, canonicalizeExecParent]
  cases hparent : host.resolveStrict executable.parent.text with
  | error e =>
      constructor
      · rintro ⟨run, hrun, hspawned⟩
        obtain rfl := Except.ok.inj hrun
        cases hspawned
      · rintro ⟨parent, h, -⟩
        cases h
  | ok parent =>
      simp only [bind, Except.bind, Except.toOption, Option.map_some, Bool.or_eq_true,
        Except.ok.injEq, exists_eq_left']
      split_ifs with hbeneath
      · refine iff_of_false ?_ fun h => h.1 hbeneath
        rintro ⟨run, hrun, hspawned⟩
        obtain rfl := Except.ok.inj hrun
        cases hspawned
      · rw [and_iff_right hbeneath]
        constructor
        · rintro ⟨run, hrun, hspawned⟩
          obtain rfl := Except.ok.inj hrun
          exact (Option.some.inj hspawned).symm
        · rintro rfl
          exact ⟨_, rfl, rfl⟩

/-- A process is started only for an executable that is found and that passes the guards. -/
theorem runPolicyCommand_spawned_iff
    {argv : List CodePoints} :
    Spawns host name command cwd timeout argv ↔
      ∃ program arguments resolved executable,
        parsePolicyCommand some command = .ok (program :: arguments) ∧
        host.which program (searchPathWithoutCwd host) = some resolved ∧
        abspath host resolved = .ok executable ∧
        ∃ run, confinedRun host name cwd timeout program arguments executable = .ok run ∧
          run.spawned = some argv := by
  rw [Spawns, runPolicyCommand]
  constructor
  · rintro ⟨run, hrun, hspawned⟩
    split at hrun
    · obtain rfl := Except.ok.inj hrun
      cases hspawned
    · obtain rfl := Except.ok.inj hrun
      cases hspawned
    · next program arguments hparse =>
        split at hrun
        · obtain rfl := Except.ok.inj hrun
          cases hspawned
        · next resolved hwhich =>
            obtain ⟨executable, hexecutable, hconfined⟩ := bind_eq_ok_iff.mp hrun
            exact ⟨program, arguments, resolved, executable, hparse, hwhich, hexecutable, run,
              hconfined, hspawned⟩
  · rintro ⟨program, arguments, resolved, executable, hparse, hwhich, hexecutable, run, hconfined,
      hspawned⟩
    refine ⟨run, ?_, hspawned⟩
    rw [hparse]
    simp only [hwhich]
    exact bind_eq_ok_iff.mpr ⟨executable, hexecutable, hconfined⟩

/-- An executable that passes the guards lies outside exactly where the texts tell. -/
theorem outside_of_passed_iff
    {root parent : DirPath}
    {executable : ExecPath} :
    (¬ (abspathBeneathOrEqual executable.text root.text = true ∨
          abspathBeneathOrEqual (parent.withNameOf executable).text root.text = true) →
        ¬ executable.path.Within root ∧ ¬ (parent.withNameOf executable).Within root) ↔
      TextsTell root executable parent := by
  have hcanonical : abspathBeneathOrEqual (parent.withNameOf executable).text root.text = true ↔
      if root.names = [] then (parent.withNameOf executable).names = []
      else (parent.withNameOf executable).Within root := by
    refine (@abspathBeneathOrEqual_iff ⟨false, parent.withNameOf executable⟩ root).trans ?_
    simp only [Bool.false_eq_true, false_or, true_and]
  rw [abspathBeneathOrEqual_iff, hcanonical, TextsTell]
  by_cases hroot : root.names = []
  · have hwithin : ∀ p : DirPath, p.Within root := by
      intro p
      rw [PlainPath.Within, hroot]
      exact List.nil_prefix
    have hname : (parent.withNameOf executable).names = [] → executable.path.names = [] := by
      intro h
      have hlast := (List.append_eq_nil_iff.mp h).2
      cases hnames : executable.path.names.getLast? with
      | none => exact List.getLast?_eq_none_iff.mp hnames
      | some name => simp [hnames] at hlast
    simp only [if_pos hroot, hwithin, not_true_eq_false, and_self, imp_false, not_not]
    exact ⟨fun h => h.elim id fun h => Or.inr (hname h), Or.inl⟩
  · simp only [if_neg hroot]
    cases executable.doubled with
    | false => simp
    | true =>
        simp only [reduceCtorEq, false_and, false_or]
        exact ⟨fun h _ hin => by_contra fun hout => (h hout).1 hin,
          fun h hout => ⟨fun hin => hout (h trivial hin), hout⟩⟩

theorem spawns_iff
    {root : DirPath}
    (hroot : host.resolve cwd = .ok root)
    {argv : List CodePoints} :
    Spawns host name command cwd timeout argv ↔
      ∃ program arguments resolved executable parent,
        parsePolicyCommand some command = .ok (program :: arguments) ∧
        host.which program (searchPathWithoutCwd host) = some resolved ∧
        abspath host resolved = .ok executable ∧
        host.resolveStrict executable.parent.text = .ok parent ∧
        ¬ (abspathBeneathOrEqual executable.text root.text = true ∨
          abspathBeneathOrEqual (parent.withNameOf executable).text root.text = true) ∧
        argv = executable.text :: arguments := by
  rw [runPolicyCommand_spawned_iff]
  simp only [confinedRun_spawned_iff hroot, exists_and_left]

/-- No program of the repository is run if and only if the texts tell where the executable lies that
is found; a program that lies outside, as a directory beside the repository whose name is longer,
is run. -/
theorem spawned_outside_iff
    (host : ExecHost)
    (name command cwd : CodePoints)
    (timeout : ℕ) :
    ((∀ root argv, host.resolve cwd = .ok root → Spawns host name command cwd timeout argv →
        StaysOutside host root argv) ↔
      ∀ root executable parent, host.resolve cwd = .ok root →
        FoundExecutable host command executable →
        host.resolveStrict executable.parent.text = .ok parent →
        TextsTell root executable parent) ∧
    ∀ root executable parent, host.resolve cwd = .ok root →
      FoundExecutable host command executable →
      host.resolveStrict executable.parent.text = .ok parent →
      ¬ executable.path.Within root → ¬ (parent.withNameOf executable).Within root →
      ∃ argv, Spawns host name command cwd timeout argv ∧ argv.head? = some executable.text := by
  refine ⟨⟨fun h root executable parent hroot hfound hparent => ?_, fun h root argv hroot hspawn =>
    ?_⟩, fun root executable parent hroot hfound hparent hout hcanonical => ?_⟩
  · obtain ⟨program, arguments, resolved, hparse, hwhich, hexecutable⟩ := hfound
    refine outside_of_passed_iff.mp fun hpassed => ?_
    obtain ⟨executable', parent', hhead, hparent', houtside⟩ := h root _ hroot
      ((spawns_iff hroot).mpr ⟨program, arguments, resolved, executable, parent, hparse, hwhich,
        hexecutable, hparent, hpassed, rfl⟩)
    obtain rfl := AbsolutePath.text_injective (Option.some.inj hhead)
    obtain rfl := Except.ok.inj (hparent.symm.trans hparent')
    exact houtside
  · obtain ⟨program, arguments, resolved, executable, parent, hparse, hwhich, hexecutable, hparent,
      hpassed, rfl⟩ := (spawns_iff hroot).mp hspawn
    have htell := h root executable parent hroot
      ⟨program, arguments, resolved, hparse, hwhich, hexecutable⟩ hparent
    exact ⟨executable, parent, rfl, hparent, outside_of_passed_iff.mpr htell hpassed⟩
  · obtain ⟨program, arguments, resolved, hparse, hwhich, hexecutable⟩ := hfound
    refine ⟨executable.text :: arguments, (spawns_iff hroot).mpr ⟨program, arguments, resolved,
      executable, parent, hparse, hwhich, hexecutable, hparent, ?_, rfl⟩, rfl⟩
    rintro (h | h)
    · exact hout (within_of_abspathBeneathOrEqual h)
    · exact hcanonical (@within_of_abspathBeneathOrEqual
        ⟨false, parent.withNameOf executable⟩ root h)

end Runs

/-- A host on which the program `t` is in the directory `bin`, whose paths have no links. -/
def plainExecHost : ExecHost where
  path := codePoints "/bin"
  getcwd := .ok (normAbsolute (codePoints "/"))
  which := fun program _ => some (codePoints "/bin/" ++ program)
  resolve := fun path => .ok (normAbsolute path).path
  resolveStrict := fun path => .ok (normAbsolute path).path
  quoted := id
  run := fun _ _ _ => .completed 0 [] []

/-- In the root directory a program below it is run. -/
theorem rootDirectory_not_confined :
    ¬ ∀ root argv, plainExecHost.resolve (codePoints "/") = .ok root →
      Spawns plainExecHost (codePoints "lint") (codePoints "t") (codePoints "/") 60 argv →
      StaysOutside plainExecHost root argv := by
  intro h
  have hroot : plainExecHost.resolve (codePoints "/") =
      .ok (normAbsolute (codePoints "/") : ExecPath).path := rfl
  have hspawn : Spawns plainExecHost (codePoints "lint") (codePoints "t") (codePoints "/") 60
      [codePoints "/bin/t"] :=
    (spawns_iff hroot).mpr
      ⟨codePoints "t", [], codePoints "/bin/t", normAbsolute (codePoints "/bin/t"), _, by decide,
        rfl, rfl, rfl, by decide, by decide⟩
  obtain ⟨executable, parent, -, -, hout, -⟩ := h _ _ hroot hspawn
  have hnames : (normAbsolute (codePoints "/") : ExecPath).path.names = [] := by
    decide
  exact hout (by rw [PlainPath.Within, hnames]; exact List.nil_prefix)

end Policy
end TensorGrep
