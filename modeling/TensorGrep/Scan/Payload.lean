import TensorGrep.Scan.Results

/-!
# The payload of a rule scan

`_run_ast_scan_payload` sends every rule one of three ways: to one project scan for
all rules that `ast-grep` serves, to searches with its own backend, or, for a rule of
the regex engine, over the lines of the candidate files.  A project scan that fails
sends its rules to searches of their own.  What is gathered for a rule (`Gathered`)
becomes a finding.
-/

namespace TensorGrep
namespace Scan

open Kernel AstRules

variable {File : Type}

/-! ## What `ast-grep` answers -/

/-- Why a scan has no payload. -/
inductive ScanError (File : Type) where
  | backend
  | invalidPattern
  | unicodeDecode (file : File)
deriving DecidableEq

/-- What stands on the error output: nothing, only lines about paths that could not be read, or
something else. -/
inductive Stderr where
  | empty
  | pathAccessWarnings
  | other
deriving DecidableEq

/-- A finished run of `ast-grep`.  No items: the output is no JSON list. -/
structure Completed (File : Type) where
  returncode : ℤ
  stderr : Stderr
  stdout : Option (List (AstGrepItem File))

/-- `_raise_for_nonzero`: whether paths were skipped. -/
def raiseForNonzero (completed : Completed File) : Except (ScanError File) Bool :=
  if completed.returncode = 0 then .ok false
  else if completed.stderr = .empty ∧ completed.stdout.isSome then .ok false
  else if completed.stdout.isSome ∧ completed.stderr = .pathAccessWarnings then .ok true
  else .error .backend

/-- The items of a run and whether paths were skipped. -/
def itemsOf (completed : Completed File) :
    Except (ScanError File) (List (AstGrepItem File) × Bool) := do
  let skipped ← raiseForNonzero completed
  match completed.stdout with
  | some items => return (items, skipped)
  | none => .error .backend

/-- `search_many`, of a run that has finished -/
def searchMany
    [DecidableEq File]
    (completed : Completed File) : Except (ScanError File) (SearchResult File) := do
  let (items, skipped) ← itemsOf completed
  return parseResult items none skipped

/-- The items of a rule; an item with a blank id belongs to no rule. -/
def itemsOfRule
    (items : List (AstGrepItem File))
    (id : Text) : List (AstGrepItem File) :=
  items.filter fun item => item.ruleId = some id && !id.all isPythonSpace

/-- The results of a project scan, which has none for a rule without an item. -/
def projectResult
    [DecidableEq File]
    (items : List (AstGrepItem File))
    (skipped : Bool)
    (id : Text) : Option (SearchResult File) :=
  if itemsOfRule items id = [] then none
  else some (parseResult (itemsOfRule items id) none skipped)

/-! ## The world of a scan -/

/-- What a scan finds around it: the candidate files, whether they are filtered, what the backends
answer for languages, patterns and files, what the files have in them (`none`: the file cannot be
read), and the number of matches of a regular expression on a line. -/
structure Host (File : Type) where
  candidateFiles : List File
  scanHasDiscoveryFilter : Bool
  projectScanFastPath : Bool
  selectBackend : RuleSpec → Except (ScanError File) BackendName
  runProject : Except (ScanError File) (Completed File)
  runMany : Text → Text → Except (ScanError File) (Completed File)
  searchFile : Text → Text → File → Except (ScanError File) (List (MatchLine File) × Bool)
  readBytes : File → Option Bytes
  regexRuleTargetsFile : Text → File → Bool
  compile : Text → Except (ScanError File) (Text → ℕ)

/-- The way that a rule goes. -/
inductive Route where
  | project
  | backend (name : BackendName)
  | regex
deriving DecidableEq

/-- The way of a rule in `_run_ast_scan_payload`. -/
def route
    (host : Host File)
    (rule : Rule) : Except (ScanError File) Route :=
  if rule.engine = some "regex".toList then .ok .regex
  else do
    let name ← host.selectBackend rule.toRuleSpec
    if host.projectScanFastPath && !host.scanHasDiscoveryFilter &&
        name = .astGrepWrapperBackend then
      return .project
    else
      return .backend name

/-- The results of the project scan, if a rule needs it and it does not fail. -/
def searchProject
    [DecidableEq File]
    (host : Host File)
    (routed : List (Rule × Route)) : Option (Text → Option (SearchResult File)) :=
  if routed.any fun entry => entry.2 = .project then
    ((host.runProject >>= itemsOf).map fun found =>
      projectResult found.1 found.2).toOption
  else none

/-- The rules in the order in which the scan comes to them. -/
def planned
    (failed : Bool)
    (routed : List (Rule × Route)) : List (Rule × Route) :=
  let project := routed.filter fun entry => entry.2 = .project
  let regex := routed.filter fun entry => entry.2 = .regex
  let other := routed.filter fun entry => entry.2 ≠ .project ∧ entry.2 ≠ .regex
  if failed then
    other ++ project.map (fun entry => (entry.1, .backend .astGrepWrapperBackend)) ++ regex
  else project ++ other ++ regex

/-! ## What is gathered for a rule -/

/-- What is gathered for a rule: the result of the project scan if it has one, the results for the
members, the results for members and files, or the lines of the files (`none`: not read). -/
inductive Gathered (File : Type) where
  | project (result : Option (SearchResult File))
  | many (results : List (SearchResult File))
  | files (results : List (File × SearchResult File))
  | regex (count : Text → ℕ) (files : List (File × Option (List Text)))

/-- `Path.read_text(encoding="utf-8", errors="replace").splitlines()` -/
def lenientLines (bytes : Bytes) : List Text :=
  (splitlines (universalNewlines (decodeReplace bytes))).map lineBody

/-- What a rule gathers on its way. -/
def gatherRule
    [DecidableEq File]
    (host : Host File)
    (entries : Option (Text → Option (SearchResult File)))
    (rule : Rule) :
    Route → Except (ScanError File) (Gathered File)
  | .project => .ok (.project (entries.bind fun results => results rule.id))
  | .backend .astGrepWrapperBackend =>
      if host.scanHasDiscoveryFilter && host.candidateFiles.isEmpty then .ok (.many [])
      else do
        let results ← rule.memberPatterns.mapM fun p => host.runMany rule.language p >>= searchMany
        return .many results
  | .backend .astBackend => do
      let results ← (rule.memberPatterns ×ˢ host.candidateFiles).mapM fun entry =>
        (host.searchFile rule.language entry.1 entry.2).map fun found =>
          (entry.2, nativeResult found.1 found.2)
      return .files results
  | .regex => do
      let count ← host.compile rule.pattern
      let files := host.candidateFiles.filter (host.regexRuleTargetsFile rule.language)
      return .regex count (files.map fun file => (file, (host.readBytes file).map lenientLines))

/-- What is gathered for all rules. -/
def gather
    [DecidableEq File]
    (host : Host File)
    (rules : List Rule) : Except (ScanError File) (List (Rule × Gathered File)) := do
  let routed ← rules.mapM fun rule => (route host rule).map fun way => (rule, way)
  let entries := searchProject host routed
  (planned entries.isNone routed).mapM fun entry =>
    (gatherRule host entries entry.1 entry.2).map fun gathered => (entry.1, gathered)

/-- The lines with a match, with their numbers. -/
def matchedLines
    (count : Text → ℕ)
    (lines : List Text) : List (Text × ℕ) :=
  (lines.zipIdx 1).filter fun line => 0 < count line.1

/-- A file of a regex rule. -/
def foldRegex
    [DecidableEq File]
    (count : Text → ℕ)
    (acc : RuleFold File)
    (entry : File × Option (List Text)) : RuleFold File :=
  match entry.2 with
  | none => acc
  | some lines =>
      let hits := matchedLines count lines
      { acc with
        ruleMatches := acc.ruleMatches + (lines.map count).sum
        matchedFiles := if hits = [] then acc.matchedFiles else insert entry.1 acc.matchedFiles
        matchCountsByFile := acc.matchCountsByFile + Pi.single entry.1 (lines.map count).sum
        occurrences := acc.occurrences ++ hits.map fun line => (entry.1, line.2) }

/-- The fold of what is gathered for a rule. -/
def Gathered.fold
    [DecidableEq File]
    (composite : Bool) : Gathered File → RuleFold File
  | .project result => foldProject (result.getD .empty)
  | .many results => foldAllMany composite results
  | .files results => foldAllFiles composite results
  | .regex count entries => entries.foldl (foldRegex count) .start

/-- The results that are folded for a rule. -/
def Gathered.results : Gathered File → List (SearchResult File)
  | .project result => result.toList
  | .many results => results
  | .files results => results.map Prod.snd
  | .regex _ _ => []

/-- The files that a regex rule could not read. -/
def Gathered.unreadable : Gathered File → List File
  | .regex _ entries => (entries.filter fun entry => entry.2.isNone).map Prod.fst
  | _ => []

/-! ## The payload -/

/-- The payload, where the paths that could not be read are their number and a sample. -/
structure Payload (File Fingerprint : Type) where
  ruleCount : ℕ
  matchedRules : ℕ
  totalMatches : ℕ
  findings : List (Finding File Fingerprint)
  unreadablePaths : Option (ℕ × List File)

/-- `payload["partial"]` -/
def Payload.isPartial
    {Fingerprint : Type}
    (payload : Payload File Fingerprint) : Bool :=
  payload.unreadablePaths.isSome

section Payloads

variable {Fingerprint : Type}
variable [LinearOrder File]
variable (fingerprintOf : Text → Text → List File → Fingerprint)

/-- The finding of a rule. -/
def findingOf (entry : Rule × Gathered File) : Finding File Fingerprint :=
  appendFinding fingerprintOf entry.1.toRuleSpec
    (entry.2.fold (isComposite entry.1.toRuleSpec))

/-- The payload of what is gathered, before the baseline is applied. -/
def payloadOf (gathered : List (Rule × Gathered File)) : Payload File Fingerprint :=
  let findings := gathered.map (findingOf fingerprintOf)
  let unreadable := gathered.flatMap fun entry => entry.2.unreadable
  { ruleCount := gathered.length
    matchedRules := findings.countP fun finding => 0 < finding.matchCount
    totalMatches := (findings.map Finding.matchCount).sum
    findings := findings
    unreadablePaths :=
      if unreadable = [] then none
      else some (unreadable.length, (unreadable.take 5).eraseDups) }

/-- `_run_ast_scan_payload`, up to the baseline -/
def scanPayload
    (host : Host File)
    (rules : List Rule) : Except (ScanError File) (Payload File Fingerprint) :=
  (gather host rules).map (payloadOf fingerprintOf)

end Payloads

end Scan
end TensorGrep
