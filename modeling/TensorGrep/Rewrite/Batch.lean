import Mathlib.Data.String.Basic
import TensorGrep.Rewrite.OneShot

/-!
# Batch rewrites

A batch has several rules, each with the name of its language.  The rules are
grouped by that name as it is written.  `plan_batch_rewrites` plans all groups on
one tree and looks for overlaps in the pooled edits of a file;
`plan_and_apply_batch` plans a group, writes its files, and goes on to the next
group.  A batch applies all edits of a file or none.
-/

namespace TensorGrep
namespace Rewrite

open Kernel

variable {File : Type} [LinearOrder File]

/-! ## Rules and groups -/

/-- A rule of a batch. -/
structure BatchRewriteRule where
  pattern : String
  replacement : Text
  lang : String
deriving DecidableEq

/-- A plan for a batch. -/
structure BatchRewritePlan (File : Type) where
  rewrites : List BatchRewriteRule
  totalFilesScanned : Nat
  edits : List (RewriteEdit File)
  rejectedOverlaps : List (OverlapRejection File)

/-- `compile_batch_rewrites_by_lang`: the compiled rules under the name of their language. -/
def compileBatchRewritesByLang
    (ag : AstGrep)
    (rewrites : List BatchRewriteRule) :
    Except (RewriteError File) (List (String × List (CompiledRewrite ag))) := do
  let compiled ← rewrites.mapM fun r => do
    let language ← resolveLanguage ag r.lang
    let pattern ← compilePattern ag r.pattern language
    .ok (r.lang, (⟨pattern, r.replacement⟩ : CompiledRewrite ag))
  .ok ((sortDedup id (compiled.map Prod.fst)).map fun lang =>
    (lang, (compiled.filter (fun c => c.1 = lang)).map Prod.snd))

/-- A group of rules with its language and the files that are collected for it. -/
structure BatchGroup
    (ag : AstGrep)
    (File : Type) where
  language : SupportLang
  rules : List (CompiledRewrite ag)
  files : List File

/-- The language of a group, and its files. -/
def selectBatchGroup
    (ag : AstGrep)
    (root : SearchRoot File)
    (group : String × List (CompiledRewrite ag)) :
    Except (RewriteError File) (BatchGroup ag File) := do
  let language ← resolveLanguage ag group.1
  let files ← collectBatchSourceFiles root language
  .ok ⟨language, group.2, files⟩

/-! ## Overlaps in a batch -/

/-- The rejections for one file: every edit that starts before the one ahead of it ends. -/
def batchRejections
    (display : File → String)
    (file : File)
    (fileEdits : List (RewriteEdit File)) : List (OverlapRejection File) :=
  ((fileEdits.zip fileEdits.tail).filter fun pair =>
      pair.2.byteRange.start < pair.1.byteRange.stop).map fun pair =>
    { file := file
      editA := pair.1.byteRange
      editB := pair.2.byteRange
      reason := "batch rewrite overlap prevents applying edits to " ++ display file }

/-- The edits by file, each file with its edits in the order they have. -/
def batchEditsByFile
    (edits : List (RewriteEdit File)) : List (File × List (RewriteEdit File)) :=
  (sortDedup id (edits.map RewriteEdit.file)).map fun file =>
    (file, edits.filter (fun e => e.file = file))

/-- `validate_batch_no_overlaps`. -/
def validateBatchNoOverlaps
    (display : File → String)
    (edits : List (RewriteEdit File)) :
    List (RewriteEdit File) × List (OverlapRejection File) :=
  let groups := batchEditsByFile edits
  ((groups.filter (fun g => batchRejections display g.1 g.2 = [])).flatMap Prod.snd,
    groups.flatMap (fun g => batchRejections display g.1 g.2))

/-! ## Planning a batch, and applying it -/

/-- The edits of a group in one file of the tree. -/
def BatchGroup.plan
    {ag : AstGrep}
    (g : BatchGroup ag File)
    (file : File)
    (node : Option SourceFile) :
    Except (RewriteError File) (Option (PreparedRewriteFile File)) :=
  planFileBatchRewritesPrepared ag g.rules g.language file node

/-- `collect_prepared_batch_rewrite_files`: how many files are scanned, and what is planned
for them, group by group. -/
def collectPreparedBatchRewriteFiles
    (ag : AstGrep)
    (root : SearchRoot File)
    (T : SourceTree File)
    (compiled : List (String × List (CompiledRewrite ag))) :
    Except (RewriteError File) (Nat × List (PreparedRewriteFile File)) := do
  let groups ← compiled.mapM fun group => do
    let g ← selectBatchGroup ag root group
    let prepared ← g.files.mapM fun file => g.plan file (T file)
    .ok (g.files.length, prepared.flatMap Option.toList)
  .ok ((groups.map Prod.fst).sum, groups.flatMap Prod.snd)

/-- `plan_batch_rewrites`. -/
def planBatchRewrites
    (ag : AstGrep)
    (display : File → String)
    (root : SearchRoot File)
    (T : SourceTree File)
    (rewrites : List BatchRewriteRule) : Except (RewriteError File) (BatchRewritePlan File) :=
  if rewrites = [] then .error .noRules
  else do
    let compiled ← compileBatchRewritesByLang ag rewrites
    let prepared ← collectPreparedBatchRewriteFiles ag root T compiled
    let edits := prepared.2.flatMap PreparedRewriteFile.edits
    let kept := validateBatchNoOverlaps display (assignEditIds root (sortRewriteEdits edits))
    .ok ⟨rewrites, prepared.1, kept.1, kept.2⟩

/-- `apply_batch_rewrites`. -/
def applyBatchRewrites
    (now : UInt64)
    (T : SourceTree File)
    (plan : BatchRewritePlan File) : Outcome (RewriteError File) Nat × SourceTree File :=
  applyEditSet now T plan.edits

/-! ## The one-shot mode -/

/-- `plan_and_apply_single_batch_rewrite`. -/
def planAndApplySingleBatchRewrite
    (now : UInt64)
    (display : File → String)
    {ag : AstGrep}
    (g : BatchGroup ag File)
    (file : File)
    (node : Option SourceFile) :
    Outcome (RewriteError File) (Option (PerFileRewriteOutcome File)) × Option SourceFile :=
  planAndApplySingle now (validateBatchNoOverlaps display) (g.plan file node) node

/-- The loop of `plan_and_apply_batch` over the groups: each is planned on the tree that the
groups before it have written. -/
def runBatchGroups
    (now : UInt64)
    (ag : AstGrep)
    (display : File → String)
    (root : SearchRoot File) :
    SourceTree File → List (String × List (CompiledRewrite ag)) →
      Outcome (RewriteError File) (Nat × List (PerFileRewriteOutcome File)) × SourceTree File
  | T, [] => (.ok (0, []), T)
  | T, group :: groups =>
      match selectBatchGroup ag root group with
      | .error e => (.error e, T)
      | .ok g =>
          let run := runTasks id
            (fun file => planAndApplySingleBatchRewrite now display g file) T g.files
          match joinAll run.1 with
          | .error e => (.error e, run.2)
          | .panicked => (.panicked, run.2)
          | .ok outcomes =>
              let rest := runBatchGroups now ag display root run.2 groups
              (rest.1.bind fun done => .ok
                (g.files.length + done.1, outcomes.flatMap Option.toList ++ done.2), rest.2)

/-- `plan_and_apply_batch`. -/
def planAndApplyBatch
    (now : UInt64)
    (ag : AstGrep)
    (display : File → String)
    (root : SearchRoot File)
    (T : SourceTree File)
    (rewrites : List BatchRewriteRule) :
    Outcome (RewriteError File) (BatchRewritePlan File) × SourceTree File :=
  if rewrites = [] then (.error .noRules, T)
  else
    match (compileBatchRewritesByLang ag rewrites :
        Except (RewriteError File) (List (String × List (CompiledRewrite ag)))) with
    | .error e => (.error e, T)
    | .ok compiled =>
        let run := runBatchGroups now ag display root T compiled
        (run.1.bind fun done => .ok
          ⟨rewrites, done.1,
            assignEditIds root (sortRewriteEdits (done.2.flatMap PerFileRewriteOutcome.edits)),
            sortOverlapRejections (done.2.flatMap PerFileRewriteOutcome.rejectedOverlaps)⟩,
          run.2)

end Rewrite
end TensorGrep
