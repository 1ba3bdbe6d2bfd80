import TensorGrep.Kernel.EntryList
import TensorGrep.Rewrite.Planning

/-!
# Applying a plan under validation

`handle_ast_rewrite_apply` plans, keeps the edits that the selectors name, takes
the bytes of the files before it edits them, applies the edits, runs the lint
and test commands, and writes the bytes back when a command fails.

The bytes are kept under the lossy string form of the path, and written back to
the path that this string spells.
-/

namespace TensorGrep
namespace Rewrite

open Kernel

variable {File : Type} [LinearOrder File]

/-! ## Arguments -/

/-- The arguments of a rewrite that say how it is applied. -/
structure RunArgs where
  hasRewrite : Bool
  hasBatchRewrite : Bool
  apply : Bool
  diff : Bool
  json : Bool
  verify : Bool
  lintCmd : Option Bytes
  testCmd : Option Bytes
  checkpoint : Bool
  hasAuditManifest : Bool
  hasAuditSigningKey : Bool
  applyEditIds : List String
  rejectEditIds : List String
  maxValidationTargets : Nat

/-- `RewriteApplyMode`. -/
inductive RewriteApplyMode where
  | oneShotFastPath
  | planThenApply
deriving DecidableEq

/-- `can_use_one_shot_apply_fast_path`. -/
def canUseOneShotApplyFastPath (args : RunArgs) : Bool :=
  args.hasRewrite && !args.hasBatchRewrite && args.apply && !args.diff && !args.json &&
    !args.verify && args.lintCmd.isNone && args.testCmd.isNone && !args.checkpoint &&
    !args.hasAuditManifest && !args.hasAuditSigningKey && args.applyEditIds.isEmpty &&
    args.rejectEditIds.isEmpty

/-- `select_rewrite_apply_mode`. -/
def selectRewriteApplyMode (args : RunArgs) : RewriteApplyMode :=
  if canUseOneShotApplyFastPath args then .oneShotFastPath else .planThenApply

/-- Why applying a rewrite fails. -/
inductive ApplyError (File : Type) where
  | rewrite (e : RewriteError File)
  | emptyEditId (flagName : String)
  | duplicateEditId (id flagName : String)
  | unknownEditId (id flagName : String)
  | snapshotUnreadable (file : File)
deriving DecidableEq

/-- The text of an error, up to the texts of the causes that the system reports. -/
def ApplyError.message
    (display : File → String) : ApplyError File → String
  | .rewrite e => e.message display
  | .emptyEditId flagName => flagName ++ " requires non-empty edit ids"
  | .duplicateEditId id flagName => "duplicate edit id `" ++ id ++ "` provided via " ++ flagName
  | .unknownEditId id flagName => "unknown edit id `" ++ id ++ "` provided via " ++ flagName
  | .snapshotUnreadable file => "failed to read " ++ display file ++ " for validation rollback"

/-- An error of the rewriter as an error of the command. -/
def liftRewrite
    {α : Type} : Outcome (RewriteError File) α → Outcome (ApplyError File) α
  | .ok a => .ok a
  | .error e => .error (.rewrite e)
  | .panicked => .panicked

/-! ## Selected edits -/

/-- The loop of `validate_edit_id_selector`. -/
def checkEditIds
    (flagName : String) : List String → List String → Except (ApplyError File) Unit
  | _, [] => .ok ()
  | seen, id :: ids =>
      if id.isEmpty then .error (.emptyEditId flagName)
      else if id ∈ seen then .error (.duplicateEditId id flagName)
      else checkEditIds flagName (id :: seen) ids

/-- `validate_edit_id_selector`. -/
def validateEditIdSelector
    (ids : List String)
    (flagName : String) : Except (ApplyError File) Unit :=
  checkEditIds flagName [] ids

/-- Every selected id is the id of an edit. -/
def checkKnownIds
    (edits : List (RewriteEdit File))
    (ids : List String)
    (flagName : String) : Except (ApplyError File) Unit :=
  ids.forM fun id =>
    if id ∈ edits.map RewriteEdit.id then .ok () else .error (.unknownEditId id flagName)

/-- `filter_rewrite_edits`. -/
def filterRewriteEdits
    (edits : List (RewriteEdit File))
    (args : RunArgs) : Except (ApplyError File) (List (RewriteEdit File)) := do
  validateEditIdSelector args.applyEditIds "--apply-edit-ids"
  validateEditIdSelector args.rejectEditIds "--reject-edit-ids"
  checkKnownIds edits args.applyEditIds "--apply-edit-ids"
  checkKnownIds edits args.rejectEditIds "--reject-edit-ids"
  if args.applyEditIds ≠ [] then
    .ok (edits.filter (fun e => e.id ∈ args.applyEditIds))
  else if args.rejectEditIds ≠ [] then
    .ok (edits.filter (fun e => e.id ∉ args.rejectEditIds))
  else .ok edits

/-- `filter_rewrite_plan`. -/
def filterRewritePlan
    (plan : RewritePlan File)
    (args : RunArgs) : Except (ApplyError File) (RewritePlan File) := do
  let edits ← filterRewriteEdits plan.edits args
  .ok { plan with edits := edits }

/-! ## Spelled paths -/

/-- The bytes of a path, and the path that bytes spell. -/
structure PathNames (File : Type) where
  name : File → Bytes
  ofName : Bytes → File
  ofName_name : ∀ file, ofName (name file) = file
  name_ofName : ∀ bytes, name (ofName bytes) = bytes

/-- The path as a string: `to_string_lossy`. -/
def PathNames.lossy
    (names : PathNames File)
    (file : File) : Bytes :=
  toStringLossy (names.name file)

/-- The string form of the path is the path itself: the path is UTF-8. -/
def PathNames.IsUtf8
    (names : PathNames File)
    (file : File) : Prop :=
  names.lossy file = names.name file

instance
    (names : PathNames File)
    (file : File) : Decidable (names.IsUtf8 file) :=
  inferInstanceAs (Decidable (_ = _))

/-! ## Snapshots -/

/-- The bytes of files before they are edited, by the string form of their paths. -/
abbrev Snapshots := List (Bytes × Bytes)

/-- The snapshot of one file. -/
def snapshotFile
    (names : PathNames File)
    (T : SourceTree File)
    (file : File) : Except (ApplyError File) (Bytes × Bytes) :=
  match readBytes (T file) with
  | some bytes => .ok (names.lossy file, bytes)
  | none => .error (.snapshotUnreadable file)

/-- Strings are ordered by their bytes. -/
def stringRank (s : Bytes) : List Nat :=
  s.map UInt8.toNat

/-- `collect_validation_rollback_snapshots`. -/
def collectValidationRollbackSnapshots
    (names : PathNames File)
    (T : SourceTree File)
    (edits : List (RewriteEdit File)) : Except (ApplyError File) Snapshots := do
  let entries ← (sortDedup id (edits.map RewriteEdit.file)).mapM (snapshotFile names T)
  .ok (insertEntries stringRank [] entries)

/-! ## Writing back -/

/-- What the system does with a write: whether an absent path can be created, and whether the
write stops after some bytes, with the text of the error. -/
structure WriteBack (File : Type) where
  creatable : File → Bool
  interrupted : File → Option (Nat × Bytes)

/-- The part of `write_bytes_refuse_symlink` after the file is open and empty. -/
def writeAll
    (interrupted : Option (Nat × Bytes))
    (now : UInt64)
    (bytes : Bytes)
    (n : SourceFile) : Except Bytes Unit × Option SourceFile :=
  let written (content : Bytes) : SourceFile :=
    { n with content := content, modifiedNs := now.toNat, writes := n.writes + 1 }
  match interrupted with
  | some (count, text) => (.error text, some (written (bytes.take count)))
  | none => (.ok (), some (written bytes))

/-- `write_bytes_refuse_symlink`: the path is created when nothing is there, and not followed
when it is a symbolic link. -/
def writeBytesRefuseSymlink
    (names : PathNames File)
    (env : WriteBack File)
    (now : UInt64)
    (file : File)
    (bytes : Bytes)
    (node : Option SourceFile) : Except Bytes Unit × Option SourceFile :=
  let refusal := utf8 "refusing to write through symlink at ".toList ++ names.lossy file
  match node with
  | some n =>
      if n.overwritable then writeAll (env.interrupted file) now bytes n
      else (.error refusal, node)
  | none =>
      if env.creatable file then
        writeAll (env.interrupted file) now bytes ⟨[], now.toNat, true, true, true, 0⟩
      else (.error refusal, node)

/-- `ValidationRollbackSummary`. -/
structure ValidationRollbackSummary where
  triggeredBy : String
  success : Bool
  filesRestored : List Bytes
  errors : List Bytes
deriving DecidableEq

/-- The state of the loop of `restore_validation_rollback_snapshots`. -/
structure RestoreLoop (File : Type) where
  tree : SourceTree File
  filesRestored : List Bytes
  errors : List Bytes

/-- The text for a file that is not restored. -/
def restoreError (file text : Bytes) : Bytes :=
  utf8 "failed to restore ".toList ++ file ++ utf8 ": ".toList ++ text

/-- One round of the loop of `restore_validation_rollback_snapshots`. -/
def RestoreLoop.step
    (names : PathNames File)
    (env : WriteBack File)
    (now : UInt64)
    (l : RestoreLoop File)
    (s : Bytes × Bytes) : RestoreLoop File :=
  let file := names.ofName s.1
  let w := writeBytesRefuseSymlink names env now file s.2 (l.tree file)
  let tree := Function.update l.tree file w.2
  match w.1 with
  | .ok _ => ⟨tree, l.filesRestored ++ [s.1], l.errors⟩
  | .error text => ⟨tree, l.filesRestored, l.errors ++ [restoreError s.1 text]⟩

/-- `restore_validation_rollback_snapshots`. -/
def restoreValidationRollbackSnapshots
    (names : PathNames File)
    (env : WriteBack File)
    (now : UInt64)
    (T : SourceTree File)
    (snapshots : Snapshots) : ValidationRollbackSummary × SourceTree File :=
  let l := snapshots.foldl (RestoreLoop.step names env now) ⟨T, [], []⟩
  (⟨"validation", l.errors.isEmpty, l.filesRestored, l.errors⟩, l.tree)

/-! ## Validation commands -/

/-- What a command ended with. -/
structure CommandOutcome where
  success : Bool
  exitCode : Option Int
  stdout : Bytes
  stderr : Bytes

/-- `ValidationCommandResult`. -/
structure ValidationCommandResult where
  kind : String
  command : Bytes
  outcome : CommandOutcome

/-- `ValidationSummary`. -/
structure ValidationSummary where
  success : Bool
  commands : List ValidationCommandResult
  validationTargetsTruncated : Bool
  validationTargetsTotal : Nat

/-- The programs of the commands.  `run` is `run_validation_command` in the working directory
of the rewrite: from the kind, the template and the file it gets it reports an outcome, and
leaves the files as it likes.  `expand` puts the absolute form of a path into a template. -/
structure CommandHost (File : Type) where
  expand : Bytes → Bytes → Bytes
  absolute : Bytes → Bytes
  run : String → Bytes → Option Bytes → SourceTree File → CommandOutcome × SourceTree File

/-- `validation_command_uses_file_placeholder`. -/
def validationCommandUsesFilePlaceholder (command : Bytes) : Bool :=
  decide (utf8 "$file".toList <:+: command) ||
    decide (utf8 "\x7bfile\x7d".toList <:+: command)

/-- `validation_template_targets_for_command`. -/
def validationTemplateTargetsForCommand
    (names : PathNames File)
    (command path : Bytes)
    (edits : List (RewriteEdit File)) : List Bytes :=
  if !validationCommandUsesFilePlaceholder command then [path]
  else
    let editedFiles := (sortDedup id (edits.map RewriteEdit.file)).map names.lossy
    if editedFiles.isEmpty then [path] else editedFiles

/-- `cap_validation_targets`: `0` disables the cap. -/
def capValidationTargets
    (targets : List Bytes)
    (maxTargets : Nat) : List Bytes × Bool × Nat :=
  if maxTargets = 0 ∨ targets.length ≤ maxTargets then (targets, false, targets.length)
  else (targets.take maxTargets, true, targets.length)

/-- Run a command on its targets, one after the other. -/
def runValidationTargets
    (host : CommandHost File)
    (kind : String)
    (command : Bytes) :
    List Bytes → SourceTree File → List ValidationCommandResult × SourceTree File
  | [], T => ([], T)
  | target :: targets, T =>
      let usesFile := validationCommandUsesFilePlaceholder command
      let r := host.run kind command (if usesFile then some (host.absolute target) else none) T
      let rest := runValidationTargets host kind command targets r.2
      (⟨kind, if usesFile then host.expand command (host.absolute target) else command, r.1⟩ ::
        rest.1, rest.2)

/-- One of the two commands of `run_post_apply_validation`, if it is configured. -/
def runConfiguredCommand
    (names : PathNames File)
    (host : CommandHost File)
    (args : RunArgs)
    (path : Bytes)
    (edits : List (RewriteEdit File))
    (kind : String)
    (command : Option Bytes)
    (T : SourceTree File) :
    (List ValidationCommandResult × Bool × Nat) × SourceTree File :=
  match command with
  | none => (([], false, 0), T)
  | some command =>
      let capped := capValidationTargets
        (validationTemplateTargetsForCommand names command path edits) args.maxValidationTargets
      let r := runValidationTargets host kind command capped.1 T
      ((r.1, capped.2), r.2)

/-- `run_post_apply_validation`. -/
def runPostApplyValidation
    (names : PathNames File)
    (host : CommandHost File)
    (args : RunArgs)
    (path : Bytes)
    (edits : List (RewriteEdit File))
    (T : SourceTree File) : Option ValidationSummary × SourceTree File :=
  let lint := runConfiguredCommand names host args path edits "lint" args.lintCmd T
  let test := runConfiguredCommand names host args path edits "test" args.testCmd lint.2
  let commands := lint.1.1 ++ test.1.1
  (if commands.isEmpty then none
    else some ⟨commands.all (fun c => c.outcome.success), commands,
      lint.1.2.1 || test.1.2.1, max lint.1.2.2 test.1.2.2⟩,
    test.2)

/-! ## The command -/

/-- What is there when the edits have been applied. -/
structure AppliedRewrite (File : Type) where
  plan : RewritePlan File
  snapshots : Option Snapshots
  tree : SourceTree File

/-- The plan of `handle_ast_rewrite_apply`; the one-shot mode has written the files by then. -/
def planForApply
    (now : UInt64)
    (ag : AstGrep)
    (root : SearchRoot File)
    (args : RunArgs)
    (T : SourceTree File)
    (pattern : String)
    (replacement : Text)
    (lang : String) : Outcome (ApplyError File) (RewritePlan File) × SourceTree File :=
  match selectRewriteApplyMode args with
  | .oneShotFastPath =>
      let run := planAndApply now ag root T pattern replacement lang
      (liftRewrite run.1, run.2)
  | .planThenApply =>
      ((liftRewrite (.ofExcept (planRewrites ag root T pattern replacement lang))).bind
        fun plan => .ofExcept (filterRewritePlan plan args), T)

/-- `handle_ast_rewrite_apply` up to the applied edits; nothing when there is nothing to
rewrite. -/
def applyPlanned
    (names : PathNames File)
    (now : UInt64)
    (ag : AstGrep)
    (root : SearchRoot File)
    (args : RunArgs)
    (T : SourceTree File)
    (pattern : String)
    (replacement : Text)
    (lang : String) : Outcome (ApplyError File) (Option (AppliedRewrite File)) :=
  let planned := planForApply now ag root args T pattern replacement lang
  planned.1.bind fun plan =>
    if plan.edits = [] ∧ plan.rejectedOverlaps = [] then .ok none
    else
      (if args.lintCmd.isSome ∨ args.testCmd.isSome then
        (Outcome.ofExcept (collectValidationRollbackSnapshots names planned.2 plan.edits)).bind
          fun snapshots => .ok (some snapshots)
        else .ok none).bind fun snapshots =>
          match selectRewriteApplyMode args with
          | .oneShotFastPath => .ok (some ⟨plan, snapshots, planned.2⟩)
          | .planThenApply =>
              let run := applyRewrites now planned.2 plan
              (liftRewrite run.1).bind fun _ => .ok (some ⟨plan, snapshots, run.2⟩)

/-- A validation and what followed it, with the files between the steps. -/
structure ValidatedRewrite (File : Type) where
  applied : AppliedRewrite File
  validation : Option ValidationSummary
  validated : SourceTree File
  rollback : Option ValidationRollbackSummary
  final : SourceTree File

/-- `handle_ast_rewrite_apply` from the applied edits on. -/
def AppliedRewrite.validate
    (names : PathNames File)
    (host : CommandHost File)
    (env : WriteBack File)
    (later : UInt64)
    (args : RunArgs)
    (path : Bytes)
    (applied : AppliedRewrite File) : ValidatedRewrite File :=
  let run := runPostApplyValidation names host args path applied.plan.edits applied.tree
  match run.1.filter (fun v => !v.success), applied.snapshots with
  | some _, some snapshots =>
      let restored := restoreValidationRollbackSnapshots names env later run.2 snapshots
      ⟨applied, run.1, run.2, some restored.1, restored.2⟩
  | _, _ => ⟨applied, run.1, run.2, none, run.2⟩

/-- `handle_ast_rewrite_apply`. -/
def handleAstRewriteApply
    (names : PathNames File)
    (host : CommandHost File)
    (env : WriteBack File)
    (now later : UInt64)
    (ag : AstGrep)
    (root : SearchRoot File)
    (args : RunArgs)
    (T : SourceTree File)
    (pattern : String)
    (replacement : Text)
    (lang : String)
    (path : Bytes) : Outcome (ApplyError File) (Option (ValidatedRewrite File)) :=
  (applyPlanned names now ag root args T pattern replacement lang).bind fun applied =>
    .ok (applied.map (AppliedRewrite.validate names host env later args path))

end Rewrite
end TensorGrep
