import TensorGrep.Rewrite.OneShot
import TensorGrep.Rewrite.Validation

/-!
# Rolling back after a failed validation

The write-back restores every edited file, or says which it could not restore,
whatever the validation commands did to the files: exactly when the path of
every edited file is UTF-8.  The bytes of another path are kept under a string
that spells a different path, and that path is the one that is written.
-/

namespace TensorGrep
namespace Rewrite

open Kernel

variable {File : Type} [LinearOrder File]

/-! ## The statement -/

/-- What a rollback owes: `before` are the files before the edits, `validated` those after the
commands, `final` those after the rollback. -/
structure RollsBack
    (names : PathNames File)
    (env : WriteBack File)
    (later : UInt64)
    (before validated final : SourceTree File)
    (edits : List (RewriteEdit File))
    (snapshots : Snapshots)
    (summary : ValidationRollbackSummary) : Prop where
  restored : summary.success = true → ∀ e ∈ edits,
    (final e.file).map SourceFile.content = (before e.file).map SourceFile.content
  nothingNew : summary.success = true → ∀ file, before file = none → validated file = none →
    final file = none
  named : ∀ e ∈ edits,
    (final e.file).map SourceFile.content ≠ (before e.file).map SourceFile.content →
      summary.success = false ∧ ∃ text, restoreError (names.name e.file) text ∈ summary.errors
  failed : ∀ s ∈ snapshots, ∀ text,
    (writeBytesRefuseSymlink names env later (names.ofName s.1) s.2
      (validated (names.ofName s.1))).1 = .error text →
    summary.success = false ∧ restoreError s.1 text ∈ summary.errors

/-- A failed validation is followed by a rollback that does what it owes. -/
def ValidatedRewrite.RollsBackOnFailure
    (names : PathNames File)
    (env : WriteBack File)
    (later : UInt64)
    (before : SourceTree File)
    (run : ValidatedRewrite File) : Prop :=
  ∀ v, run.validation = some v → v.success = false →
    ∃ snapshots summary, run.applied.snapshots = some snapshots ∧
      run.rollback = some summary ∧
      RollsBack names env later before run.validated run.final run.applied.plan.edits
        snapshots summary

/-! ## Writing back -/

section Writing

variable {names : PathNames File} {env : WriteBack File} {now : UInt64}

omit [LinearOrder File] in
/-- A write that succeeds leaves the bytes. -/
theorem content_of_written
    {file : File}
    {bytes : Bytes}
    {node : Option SourceFile}
    (h : (writeBytesRefuseSymlink names env now file bytes node).1 = .ok ()) :
    (writeBytesRefuseSymlink names env now file bytes node).2.map SourceFile.content =
      some bytes := by
  have hall : ∀ n, (writeAll (env.interrupted file) now bytes n).1 = .ok () →
      (writeAll (env.interrupted file) now bytes n).2.map SourceFile.content = some bytes := by
    intro n hn
    cases hstop : env.interrupted file with
    | none => rfl
    | some stop =>
        rw [hstop, writeAll] at hn
        cases hn
  cases node with
  | none =>
      rw [writeBytesRefuseSymlink.eq_def] at h ⊢
      dsimp only at h ⊢
      split_ifs at h ⊢
      exact hall _ h
  | some n =>
      rw [writeBytesRefuseSymlink.eq_def] at h ⊢
      dsimp only at h ⊢
      split_ifs at h ⊢
      exact hall _ h

/-- The errors that writing one snapshot back reports. -/
def writeFailure
    (names : PathNames File)
    (env : WriteBack File)
    (now : UInt64)
    (T : SourceTree File)
    (s : Bytes × Bytes) : List Bytes :=
  match (writeBytesRefuseSymlink names env now (names.ofName s.1) s.2
      (T (names.ofName s.1))).1 with
  | .ok _ => []
  | .error text => [restoreError s.1 text]

omit [LinearOrder File] in
theorem writeFailure_eq_nil_iff
    {T : SourceTree File}
    {s : Bytes × Bytes} :
    writeFailure names env now T s = [] ↔
      (writeBytesRefuseSymlink names env now (names.ofName s.1) s.2
        (T (names.ofName s.1))).1 = .ok () := by
  rw [writeFailure]
  cases (writeBytesRefuseSymlink names env now (names.ofName s.1) s.2
    (T (names.ofName s.1))).1 with
  | ok u => simp
  | error text => simp

theorem step_tree
    (l : RestoreLoop File)
    (s : Bytes × Bytes) :
    (l.step names env now s).tree = Function.update l.tree (names.ofName s.1)
      (writeBytesRefuseSymlink names env now (names.ofName s.1) s.2
        (l.tree (names.ofName s.1))).2 := by
  rw [RestoreLoop.step]
  split <;> rfl

theorem step_errors
    (l : RestoreLoop File)
    (s : Bytes × Bytes) :
    (l.step names env now s).errors = l.errors ++ writeFailure names env now l.tree s := by
  rw [RestoreLoop.step, writeFailure]
  cases (writeBytesRefuseSymlink names env now (names.ofName s.1) s.2
    (l.tree (names.ofName s.1))).1 with
  | ok u => simp
  | error text => rfl

omit [LinearOrder File] in
theorem ofName_inj
    {a b : Bytes}
    (h : names.ofName a = names.ofName b) :
    a = b := by
  rw [← names.name_ofName a, h, names.name_ofName]

/-- A path that no snapshot spells is left alone. -/
theorem restore_of_not_mem
    {ss : Snapshots}
    {l : RestoreLoop File}
    {file : File}
    (hfile : names.name file ∉ ss.map Prod.fst) :
    (ss.foldl (RestoreLoop.step names env now) l).tree file = l.tree file := by
  induction ss generalizing l with
  | nil => rfl
  | cons s ss ih =>
      rw [List.map_cons, List.mem_cons, not_or] at hfile
      have hne : file ≠ names.ofName s.1 := by
        rintro rfl
        exact hfile.1 (names.name_ofName s.1)
      rw [List.foldl_cons, ih hfile.2, step_tree, Function.update_of_ne hne]

section Distinct

variable {ss : Snapshots}

/-- What one round leaves of the paths that the later rounds write. -/
theorem step_tree_of_fresh
    {l : RestoreLoop File}
    {s t : Bytes × Bytes}
    (hfresh : s.1 ∉ ss.map Prod.fst)
    (ht : t ∈ ss) :
    (l.step names env now s).tree (names.ofName t.1) = l.tree (names.ofName t.1) := by
  have hne : names.ofName t.1 ≠ names.ofName s.1 := by
    intro h
    exact hfresh (List.mem_map.mpr ⟨t, ht, ofName_inj h⟩)
  rw [step_tree, Function.update_of_ne hne]

/-- Every snapshot is written over what was there before the loop. -/
theorem restore_tree
    (hnodup : (ss.map Prod.fst).Nodup)
    {l : RestoreLoop File}
    {s : Bytes × Bytes}
    (hs : s ∈ ss) :
    (ss.foldl (RestoreLoop.step names env now) l).tree (names.ofName s.1) =
      (writeBytesRefuseSymlink names env now (names.ofName s.1) s.2
        (l.tree (names.ofName s.1))).2 := by
  induction ss generalizing l with
  | nil => cases hs
  | cons t ss ih =>
      rw [List.map_cons, List.nodup_cons] at hnodup
      rw [List.foldl_cons]
      rcases List.mem_cons.mp hs with rfl | hs
      · rw [restore_of_not_mem (by rw [names.name_ofName]; exact hnodup.1), step_tree,
          Function.update_self]
      · rw [ih hnodup.2 hs, step_tree_of_fresh hnodup.1 hs]

/-- The errors are those of the single writes. -/
theorem restore_errors
    (hnodup : (ss.map Prod.fst).Nodup)
    (l : RestoreLoop File) :
    (ss.foldl (RestoreLoop.step names env now) l).errors =
      l.errors ++ ss.flatMap (writeFailure names env now l.tree) := by
  induction ss generalizing l with
  | nil => simp
  | cons s ss ih =>
      rw [List.map_cons, List.nodup_cons] at hnodup
      have hrest : ss.flatMap (writeFailure names env now (l.step names env now s).tree) =
          ss.flatMap (writeFailure names env now l.tree) := by
        refine List.flatMap_congr fun t ht => ?_
        rw [writeFailure, writeFailure, step_tree_of_fresh hnodup.1 ht]
      rw [List.foldl_cons, ih hnodup.2, hrest, step_errors, List.flatMap_cons,
        List.append_assoc]

/-- The rollback succeeds exactly when every write does. -/
theorem restore_success_iff
    (hnodup : (ss.map Prod.fst).Nodup)
    {T : SourceTree File} :
    (restoreValidationRollbackSnapshots names env now T ss).1.success = true ↔
      ∀ s ∈ ss, (writeBytesRefuseSymlink names env now (names.ofName s.1) s.2
        (T (names.ofName s.1))).1 = .ok () := by
  rw [restoreValidationRollbackSnapshots]
  dsimp only
  rw [restore_errors hnodup, List.isEmpty_iff, List.nil_append, List.flatMap_eq_nil_iff]
  exact forall₂_congr fun s _ => writeFailure_eq_nil_iff

/-- A write that fails is named, and the rollback does not succeed. -/
theorem restore_failed
    (hnodup : (ss.map Prod.fst).Nodup)
    {T : SourceTree File}
    {s : Bytes × Bytes}
    (hs : s ∈ ss)
    {text : Bytes}
    (hfail : (writeBytesRefuseSymlink names env now (names.ofName s.1) s.2
      (T (names.ofName s.1))).1 = .error text) :
    (restoreValidationRollbackSnapshots names env now T ss).1.success = false ∧
      restoreError s.1 text ∈
        (restoreValidationRollbackSnapshots names env now T ss).1.errors := by
  constructor
  · rw [← Bool.not_eq_true, restore_success_iff hnodup]
    intro hall
    rw [hall s hs] at hfail
    cases hfail
  · rw [restoreValidationRollbackSnapshots]
    dsimp only
    rw [restore_errors hnodup, List.nil_append, List.mem_flatMap]
    refine ⟨s, hs, ?_⟩
    rw [writeFailure, hfail]
    exact List.mem_singleton.mpr rfl

end Distinct

end Writing

/-! ## Snapshots -/

section Snapshotting

variable {names : PathNames File} {T : SourceTree File} {edits : List (RewriteEdit File)}
  {ss : Snapshots}

omit [LinearOrder File] in
theorem snapshotFile_eq_ok_iff
    {file : File}
    {s : Bytes × Bytes} :
    snapshotFile names T file = .ok s ↔
      s.1 = names.lossy file ∧ readBytes (T file) = some s.2 := by
  obtain ⟨key, bytes⟩ := s
  rw [snapshotFile]
  cases readBytes (T file) with
  | none => simp
  | some b => simp [eq_comm]

/-- The entries of the snapshots before they are put in a map. -/
theorem exists_entries_of_collect
    (h : collectValidationRollbackSnapshots names T edits = .ok ss) :
    ∃ entries, (sortDedup id (edits.map RewriteEdit.file)).mapM (snapshotFile names T) =
        .ok entries ∧ ss = insertEntries stringRank [] entries := by
  rw [collectValidationRollbackSnapshots, bind_eq_ok_iff] at h
  obtain ⟨entries, hentries, h⟩ := h
  exact ⟨entries, hentries, (Except.ok.inj h).symm⟩

theorem mem_editedFiles
    {file : File} :
    file ∈ sortDedup id (edits.map RewriteEdit.file) ↔ ∃ e ∈ edits, e.file = file := by
  rw [mem_sortDedup Function.injective_id, List.mem_map]

/-- The keys are distinct. -/
theorem nodup_collect
    (h : collectValidationRollbackSnapshots names T edits = .ok ss) :
    (ss.map Prod.fst).Nodup := by
  obtain ⟨entries, -, rfl⟩ := exists_entries_of_collect h
  exact nodup_insertEntries List.nodup_nil

/-- Every snapshot is one of an edited file. -/
theorem exists_edit_of_mem_collect
    (h : collectValidationRollbackSnapshots names T edits = .ok ss)
    {s : Bytes × Bytes}
    (hs : s ∈ ss) :
    ∃ e ∈ edits, s.1 = names.lossy e.file ∧ readBytes (T e.file) = some s.2 := by
  obtain ⟨entries, hentries, rfl⟩ := exists_entries_of_collect h
  rcases mem_of_mem_insertEntries hs with hs | hs
  · cases hs
  · obtain ⟨file, hfile, hsnap⟩ := exists_mem_of_mapM hentries hs
    obtain ⟨e, he, rfl⟩ := mem_editedFiles.mp hfile
    exact ⟨e, he, snapshotFile_eq_ok_iff.mp hsnap⟩

/-- When all paths are UTF-8, every edited file has its own snapshot. -/
theorem exists_snapshot_of_utf8
    (h : collectValidationRollbackSnapshots names T edits = .ok ss)
    (hutf8 : ∀ e ∈ edits, names.IsUtf8 e.file)
    {e : RewriteEdit File}
    (he : e ∈ edits) :
    ∃ bytes, readBytes (T e.file) = some bytes ∧ (names.name e.file, bytes) ∈ ss := by
  obtain ⟨entries, hentries, rfl⟩ := exists_entries_of_collect h
  obtain ⟨s, hs, hsnap⟩ := exists_result_of_mapM hentries (mem_editedFiles.mpr ⟨e, he, rfl⟩)
  have hkeys : entries.map Prod.fst =
      (sortDedup id (edits.map RewriteEdit.file)).map names.name := by
    refine map_eq_of_mapM hentries fun file hfile s hs => ?_
    obtain ⟨e, he, rfl⟩ := mem_editedFiles.mp hfile
    exact (snapshotFile_eq_ok_iff.mp hs).1.trans (hutf8 e he)
  have hnodup : (entries.map Prod.fst).Nodup := by
    rw [hkeys]
    exact (nodup_of_pairwise_key_lt (pairwise_sortDedup id _)).map
      (Function.LeftInverse.injective names.ofName_name)
  obtain ⟨hkey, hread⟩ := snapshotFile_eq_ok_iff.mp hsnap
  refine ⟨s.2, hread, mem_insertEntries_of_nodup hnodup ?_⟩
  rw [← hutf8 e he, ← hkey]
  exact hs

/-- A path that is not UTF-8 is not the key of a snapshot. -/
theorem not_mem_keys_of_not_utf8
    (h : collectValidationRollbackSnapshots names T edits = .ok ss)
    {file : File}
    (hfile : ¬ names.IsUtf8 file) :
    names.name file ∉ ss.map Prod.fst := by
  intro hmem
  obtain ⟨s, hs, hkey⟩ := List.mem_map.mp hmem
  obtain ⟨e, -, hlossy, -⟩ := exists_edit_of_mem_collect h hs
  refine hfile ?_
  rw [PathNames.IsUtf8, PathNames.lossy, ← hkey, hlossy, PathNames.lossy, toStringLossy_idem]

/-- With UTF-8 paths, the rollback does what it owes whatever the commands did. -/
theorem rollsBack_of_utf8
    {env : WriteBack File}
    {later : UInt64}
    (h : collectValidationRollbackSnapshots names T edits = .ok ss)
    (hutf8 : ∀ e ∈ edits, names.IsUtf8 e.file)
    (validated : SourceTree File) :
    RollsBack names env later T validated
      (restoreValidationRollbackSnapshots names env later validated ss).2 edits ss
      (restoreValidationRollbackSnapshots names env later validated ss).1 := by
  have hnodup := nodup_collect h
  -- what is there after the write of an edited file
  have hwritten : ∀ e ∈ edits, ∃ bytes, readBytes (T e.file) = some bytes ∧
      (names.name e.file, bytes) ∈ ss ∧
      (restoreValidationRollbackSnapshots names env later validated ss).2 e.file =
        (writeBytesRefuseSymlink names env later e.file bytes (validated e.file)).2 := by
    intro e he
    obtain ⟨bytes, hread, hmem⟩ := exists_snapshot_of_utf8 h hutf8 he
    have htree := @restore_tree File _ names env later ss hnodup ⟨validated, [], []⟩ _ hmem
    rw [names.ofName_name] at htree
    exact ⟨bytes, hread, hmem, htree⟩
  have hbefore : ∀ e ∈ edits, ∀ bytes, readBytes (T e.file) = some bytes →
      (T e.file).map SourceFile.content = some bytes := by
    intro e _ bytes hread
    rw [readBytes, Option.map_eq_some_iff] at hread
    obtain ⟨n, hn, rfl⟩ := hread
    rw [(Option.filter_eq_some_iff.mp hn).1]
    rfl
  have hnamed : ∀ e ∈ edits,
      ((restoreValidationRollbackSnapshots names env later validated ss).2 e.file).map
          SourceFile.content ≠ (T e.file).map SourceFile.content →
        (restoreValidationRollbackSnapshots names env later validated ss).1.success = false ∧
          ∃ text, restoreError (names.name e.file) text ∈
            (restoreValidationRollbackSnapshots names env later validated ss).1.errors := by
    intro e he hdiff
    obtain ⟨bytes, hread, hmem, htree⟩ := hwritten e he
    cases hwrite : (writeBytesRefuseSymlink names env later e.file bytes
        (validated e.file)).1 with
    | ok u =>
        refine absurd ?_ hdiff
        rw [htree, content_of_written hwrite, hbefore e he bytes hread]
    | error text =>
        rw [← names.ofName_name e.file] at hwrite
        obtain ⟨hfail, herror⟩ := restore_failed hnodup hmem hwrite
        exact ⟨hfail, text, herror⟩
  refine ⟨?_, ?_, hnamed, fun s hs text hfail => restore_failed hnodup hs hfail⟩
  · intro hsuccess e he
    by_contra hdiff
    rw [(hnamed e he hdiff).1] at hsuccess
    cases hsuccess
  · intro _ file habsent hvalidated
    have hkey : names.name file ∉ ss.map Prod.fst := by
      intro hmem
      obtain ⟨s, hs, hname⟩ := List.mem_map.mp hmem
      obtain ⟨e, he, hlossy, hread⟩ := exists_edit_of_mem_collect h hs
      have hfile : e.file = file := by
        rw [← names.ofName_name e.file, ← hutf8 e he, ← hlossy, hname, names.ofName_name]
      rw [hfile, habsent] at hread
      cases hread
    exact (restore_of_not_mem hkey).trans hvalidated

end Snapshotting

/-! ## Commands that change the files -/

section Spoiling

variable {names : PathNames File} {T : SourceTree File}

/-- Every path holds something else than before, and can be written. -/
def spoiled (T : SourceTree File) : SourceTree File := fun file =>
  some ⟨0 :: ((T file).map SourceFile.content).getD [], 0, true, true, true, 0⟩

/-- Commands that fail and leave the files spoiled. -/
def spoilingHost (T : SourceTree File) : CommandHost File where
  expand := fun command _ => command
  absolute := id
  run := fun _ _ _ _ => (⟨false, some 1, [], []⟩, spoiled T)

/-- A system that does every write. -/
def willingSystem : WriteBack File where
  creatable := fun _ => true
  interrupted := fun _ => none

omit [LinearOrder File] in
theorem spoiled_content_ne
    (file : File) :
    (spoiled T file).map SourceFile.content ≠ (T file).map SourceFile.content := by
  rw [spoiled]
  cases T file with
  | none => simp
  | some n => simp

omit [LinearOrder File] in
theorem willing_write
    {later : UInt64}
    (file : File)
    (bytes : Bytes) :
    (writeBytesRefuseSymlink names willingSystem later file bytes (spoiled T file)).1 =
      .ok () := rfl

omit [LinearOrder File] in
/-- Every target fails, and the files are spoiled as soon as there is one. -/
theorem runValidationTargets_spoiling
    {kind : String}
    {command : Bytes}
    (targets : List Bytes)
    (U : SourceTree File) :
    (∀ c ∈ (runValidationTargets (spoilingHost T) kind command targets U).1,
        c.outcome.success = false) ∧
      (targets = [] ∨ (runValidationTargets (spoilingHost T) kind command targets U).1 ≠ [] ∧
        (runValidationTargets (spoilingHost T) kind command targets U).2 = spoiled T) := by
  induction targets generalizing U with
  | nil => simp [runValidationTargets]
  | cons target targets ih =>
      obtain ⟨hall, hrest⟩ := ih (spoiled T)
      rw [runValidationTargets]
      dsimp only [spoilingHost] at hall hrest ⊢
      refine ⟨?_, Or.inr ⟨List.cons_ne_nil _ _, ?_⟩⟩
      · rintro c hc
        rcases List.mem_cons.mp hc with rfl | hc
        · rfl
        · exact hall c hc
      · rcases hrest with rfl | ⟨-, htree⟩
        · rfl
        · exact htree

/-- A command always has a target. -/
theorem targets_ne_nil
    {command path : Bytes}
    {edits : List (RewriteEdit File)} :
    validationTemplateTargetsForCommand names command path edits ≠ [] := by
  rw [validationTemplateTargetsForCommand]
  dsimp only
  split_ifs with h1 h2
  · exact List.cons_ne_nil _ _
  · exact List.cons_ne_nil _ _
  · rwa [List.isEmpty_iff] at h2

omit [LinearOrder File] in
theorem capValidationTargets_ne_nil
    {targets : List Bytes}
    {maxTargets : Nat}
    (h : targets ≠ []) :
    (capValidationTargets targets maxTargets).1 ≠ [] := by
  rw [capValidationTargets]
  split_ifs with hcap
  · exact h
  · intro hnil
    rw [List.take_eq_nil_iff] at hnil
    rcases hnil with h0 | hnil
    · exact hcap (Or.inl h0)
    · exact h hnil

/-- A configured command fails and spoils the files; one that is not configured does
nothing. -/
theorem runConfiguredCommand_spoiling
    {args : RunArgs}
    {path : Bytes}
    {edits : List (RewriteEdit File)}
    {kind : String}
    {command : Option Bytes}
    {U : SourceTree File} :
    (∀ c ∈ (runConfiguredCommand names (spoilingHost T) args path edits kind command U).1.1,
        c.outcome.success = false) ∧
      (if command.isSome then
        (runConfiguredCommand names (spoilingHost T) args path edits kind command U).1.1 ≠ [] ∧
          (runConfiguredCommand names (spoilingHost T) args path edits kind command U).2 =
            spoiled T
      else (runConfiguredCommand names (spoilingHost T) args path edits kind command U).2 =
        U) := by
  cases command with
  | none => simp [runConfiguredCommand]
  | some command =>
      obtain ⟨hall, htargets⟩ := @runValidationTargets_spoiling File T kind command
        (capValidationTargets (validationTemplateTargetsForCommand names command path edits)
          args.maxValidationTargets).1 U
      refine ⟨hall, ?_⟩
      rw [if_pos Option.isSome_some]
      exact htargets.resolve_left (capValidationTargets_ne_nil targets_ne_nil)

/-- When a command is configured, validation reports a failure on spoiled files. -/
theorem runPostApplyValidation_spoiling
    {args : RunArgs}
    {path : Bytes}
    {edits : List (RewriteEdit File)}
    {U : SourceTree File}
    (hcommand : args.lintCmd.isSome ∨ args.testCmd.isSome) :
    ∃ v, runPostApplyValidation names (spoilingHost T) args path edits U =
      (some v, spoiled T) ∧ v.success = false := by
  obtain ⟨hlint, hlintTree⟩ := @runConfiguredCommand_spoiling File _ names T args path edits
    "lint" args.lintCmd U
  obtain ⟨htest, htestTree⟩ := @runConfiguredCommand_spoiling File _ names T args path edits
    "test" args.testCmd
    (runConfiguredCommand names (spoilingHost T) args path edits "lint" args.lintCmd U).2
  rw [runPostApplyValidation]
  set lint := runConfiguredCommand names (spoilingHost T) args path edits "lint"
    args.lintCmd U
  set test := runConfiguredCommand names (spoilingHost T) args path edits "test"
    args.testCmd lint.2
  have hall : ∀ c ∈ lint.1.1 ++ test.1.1, c.outcome.success = false := by
    intro c hc
    rcases List.mem_append.mp hc with hc | hc
    · exact hlint c hc
    · exact htest c hc
  have hne : lint.1.1 ++ test.1.1 ≠ [] := by
    intro hnil
    rw [List.append_eq_nil_iff] at hnil
    rcases hcommand with h | h
    · rw [if_pos h] at hlintTree
      exact hlintTree.1 hnil.1
    · rw [if_pos h] at htestTree
      exact htestTree.1 hnil.2
  have htree : test.2 = spoiled T := by
    by_cases h : args.testCmd.isSome
    · rw [if_pos h] at htestTree
      exact htestTree.2
    · rw [if_neg h] at htestTree
      rw [if_pos (hcommand.resolve_right h)] at hlintTree
      rw [htestTree, hlintTree.2]
  rw [if_neg (by rwa [List.isEmpty_iff]), htree]
  refine ⟨_, rfl, ?_⟩
  obtain ⟨c, hc⟩ := List.exists_mem_of_ne_nil _ hne
  rw [List.all_eq_false]
  exact ⟨c, hc, by simp [hall c hc]⟩

end Spoiling

/-! ## The command -/

section Command

variable {names : PathNames File} {now : UInt64} {ag : AstGrep} {root : SearchRoot File}
  {args : RunArgs} {T : SourceTree File} {pattern lang : String} {replacement : Text}
  {applied : AppliedRewrite File}

omit [LinearOrder File] in
/-- With a command to run, nothing is written before the snapshots are taken. -/
theorem selectRewriteApplyMode_of_command
    (hcommand : args.lintCmd.isSome ∨ args.testCmd.isSome) :
    selectRewriteApplyMode args = .planThenApply := by
  have hslow : canUseOneShotApplyFastPath args = false := by
    rw [canUseOneShotApplyFastPath]
    rcases hcommand with h | h
    · simp [Option.isSome_iff_ne_none.mp h]
    · simp [Option.isSome_iff_ne_none.mp h]
  rw [selectRewriteApplyMode, hslow]
  rfl

/-- With a command to run, the snapshots are those of the files before the edits. -/
theorem applyPlanned_snapshots
    (hcommand : args.lintCmd.isSome ∨ args.testCmd.isSome)
    (h : applyPlanned names now ag root args T pattern replacement lang = .ok (some applied)) :
    ∃ snapshots, applied.snapshots = some snapshots ∧
      collectValidationRollbackSnapshots names T applied.plan.edits = .ok snapshots := by
  rw [applyPlanned, planForApply, selectRewriteApplyMode_of_command hcommand] at h
  dsimp only at h
  rw [Outcome.bind_eq_ok_iff] at h
  obtain ⟨plan, -, h⟩ := h
  by_cases hnothing : plan.edits = [] ∧ plan.rejectedOverlaps = []
  · rw [if_pos hnothing] at h
    cases h
  rw [if_neg hnothing, if_pos hcommand, Outcome.bind_eq_ok_iff] at h
  obtain ⟨kept, hkept, h⟩ := h
  rw [Outcome.bind_eq_ok_iff] at hkept h
  obtain ⟨snapshots, hsnap, hkept⟩ := hkept
  obtain ⟨_, -, h⟩ := h
  rw [Outcome.ofExcept_eq_ok_iff] at hsnap
  cases hkept
  cases h
  exact ⟨snapshots, rfl, hsnap⟩

/-- What a run of the command is, once the edits are applied. -/
theorem handleAstRewriteApply_eq
    {host : CommandHost File}
    {env : WriteBack File}
    {later : UInt64}
    {path : Bytes}
    (h : applyPlanned names now ag root args T pattern replacement lang = .ok (some applied)) :
    handleAstRewriteApply names host env now later ag root args T pattern replacement lang path =
      .ok (some (applied.validate names host env later args path)) := by
  rw [handleAstRewriteApply, h]
  rfl

/-- After a failed validation the rollback is the write-back of the snapshots. -/
theorem validate_eq_of_failure
    {host : CommandHost File}
    {env : WriteBack File}
    {later : UInt64}
    {path : Bytes}
    {snapshots : Snapshots}
    (hsnap : applied.snapshots = some snapshots)
    {v : ValidationSummary}
    (hrun : (runPostApplyValidation names host args path applied.plan.edits applied.tree).1 =
      some v)
    (hfail : v.success = false) :
    applied.validate names host env later args path =
      ⟨applied, some v,
        (runPostApplyValidation names host args path applied.plan.edits applied.tree).2,
        some (restoreValidationRollbackSnapshots names env later
          (runPostApplyValidation names host args path applied.plan.edits applied.tree).2
          snapshots).1,
        (restoreValidationRollbackSnapshots names env later
          (runPostApplyValidation names host args path applied.plan.edits applied.tree).2
          snapshots).2⟩ := by
  have hfilter : (some v).filter (fun v => !v.success) = some v := by
    simp [hfail]
  rw [AppliedRewrite.validate]
  dsimp only
  rw [hrun, hfilter, hsnap]

/-- With UTF-8 paths, a failed validation is followed by a complete rollback. -/
theorem rollsBackOnFailure_of_utf8
    (hcommand : args.lintCmd.isSome ∨ args.testCmd.isSome)
    (h : applyPlanned names now ag root args T pattern replacement lang = .ok (some applied))
    (hutf8 : ∀ e ∈ applied.plan.edits, names.IsUtf8 e.file)
    (host : CommandHost File)
    (env : WriteBack File)
    (later : UInt64)
    (path : Bytes) :
    (applied.validate names host env later args path).RollsBackOnFailure names env later T := by
  obtain ⟨snapshots, hsnap, hcollect⟩ := applyPlanned_snapshots hcommand h
  intro v hv hfail
  have hrun : (runPostApplyValidation names host args path applied.plan.edits
      applied.tree).1 = some v := by
    rw [AppliedRewrite.validate] at hv
    dsimp only at hv
    split at hv <;> exact hv
  rw [validate_eq_of_failure hsnap hrun hfail]
  exact ⟨snapshots, _, hsnap, rfl, rollsBack_of_utf8 hcollect hutf8 _⟩

/-- With an edited path that is not UTF-8, some commands and some system leave that file
spoiled after a rollback that reports success. -/
theorem not_rollsBackOnFailure
    (hcommand : args.lintCmd.isSome ∨ args.testCmd.isSome)
    (h : applyPlanned names now ag root args T pattern replacement lang = .ok (some applied))
    {e : RewriteEdit File}
    (he : e ∈ applied.plan.edits)
    (hbad : ¬ names.IsUtf8 e.file)
    (later : UInt64)
    (path : Bytes) :
    ¬ (applied.validate names (spoilingHost T) willingSystem later args path).RollsBackOnFailure
      names willingSystem later T := by
  obtain ⟨snapshots, hsnap, hcollect⟩ := applyPlanned_snapshots hcommand h
  obtain ⟨v, hrun, hfail⟩ := @runPostApplyValidation_spoiling File _ names T args path
    applied.plan.edits applied.tree hcommand
  have hrun1 := congrArg Prod.fst hrun
  rw [validate_eq_of_failure hsnap hrun1 hfail, hrun]
  intro hrolls
  obtain ⟨ss, summary, hss, hsummary, hback⟩ := hrolls v rfl hfail
  cases hsummary
  have hsuccess : (restoreValidationRollbackSnapshots names willingSystem later (spoiled T)
      snapshots).1.success = true :=
    (restore_success_iff (nodup_collect hcollect)).mpr fun s _ => willing_write _ _
  have hleft : (restoreValidationRollbackSnapshots names willingSystem later (spoiled T)
      snapshots).2 e.file = spoiled T e.file :=
    restore_of_not_mem (not_mem_keys_of_not_utf8 hcollect hbad)
  have hrestored := hback.restored hsuccess e he
  dsimp only at hrestored
  rw [hleft] at hrestored
  exact spoiled_content_ne e.file hrestored

end Command

/-- Whatever the validation commands and the system do, a failed validation is followed by a
rollback that restores every edited file or names what it could not restore: exactly when the
path of every edited file is UTF-8. -/
theorem rollsBack_iff
    {names : PathNames File}
    {now : UInt64}
    {ag : AstGrep}
    {root : SearchRoot File}
    {args : RunArgs}
    {T : SourceTree File}
    {pattern lang : String}
    {replacement : Text}
    {applied : AppliedRewrite File}
    (hcommand : args.lintCmd.isSome ∨ args.testCmd.isSome)
    (h : applyPlanned names now ag root args T pattern replacement lang = .ok (some applied)) :
    (∀ host env later path run,
      handleAstRewriteApply names host env now later ag root args T pattern replacement lang
          path = .ok (some run) →
        run.RollsBackOnFailure names env later T) ↔
      ∀ e ∈ applied.plan.edits, names.IsUtf8 e.file := by
  constructor
  · intro hall e he
    by_contra hbad
    exact not_rollsBackOnFailure hcommand h he hbad 0 []
      (hall (spoilingHost T) willingSystem 0 [] _ (handleAstRewriteApply_eq h))
  · intro hutf8 host env later path run hrun
    rw [handleAstRewriteApply_eq h] at hrun
    cases hrun
    exact rollsBackOnFailure_of_utf8 hcommand h hutf8 host env later path

/-- Paths as lists of bytes. -/
def bytePaths : PathNames (List (Fin 256)) where
  name := List.map UInt8.ofFin
  ofName := List.map UInt8.toFin
  ofName_name := by
    intro file
    rw [List.map_map]
    exact List.map_id file
  name_ofName := by
    intro bytes
    rw [List.map_map]
    exact List.map_id bytes

/-- A search of one file. -/
def oneFile (file : List (Fin 256)) : SearchRoot (List (Fin 256)) where
  present := true
  asFile := some file
  walked := []
  nodup := List.nodup_nil
  extension := fun _ => none
  fileName := fun _ => none

/-- The file says `ab`, and there is no other. -/
def onlyFile (file : List (Fin 256)) : SourceTree (List (Fin 256)) := fun f =>
  if f = file then some (plainSource ['a', 'b']) else none

/-- Apply, then run a linter. -/
def lintArgs : RunArgs :=
  ⟨true, false, true, false, false, false, some (utf8 "ruff".toList), none, false, false, false,
    [], [], 0⟩

/-- Commands that fail and leave the files alone. -/
def failingHost : CommandHost (List (Fin 256)) where
  expand := fun command _ => command
  absolute := id
  run := fun _ _ _ T => (⟨false, some 1, [], []⟩, T)

/-- A rewrite of the file `a` is rolled back. -/
theorem rollsBack_asciiName :
    ∃ applied, applyPlanned bytePaths 5 letterGrep (oneFile [97]) lintArgs (onlyFile [97]) "a"
        ['c'] "py" = .ok (some applied) ∧
      ∀ host env later path run,
        handleAstRewriteApply bytePaths host env 5 later letterGrep (oneFile [97]) lintArgs
            (onlyFile [97]) "a" ['c'] "py" path = .ok (some run) →
          run.RollsBackOnFailure bytePaths env later (onlyFile [97]) := by
  refine ⟨_, rfl, (rollsBack_iff (by decide) rfl).mpr ?_⟩
  decide +kernel

/-- The name of the file is the byte `FF`.  The linter fails, and the rollback reports success;
the file keeps its edit, and its old bytes are in a new file whose name is the replacement
character. -/
theorem latin1Name_not_restored :
    ∃ run, handleAstRewriteApply bytePaths failingHost willingSystem 5 6 letterGrep
        (oneFile [255]) lintArgs (onlyFile [255]) "a" ['c'] "py" [46] = .ok (some run) ∧
      run.validation.map ValidationSummary.success = some false ∧
      run.rollback = some ⟨"validation", true, [[239, 191, 189]], []⟩ ∧
      (onlyFile [255] [255]).map SourceFile.content = some (utf8 ['a', 'b']) ∧
      (run.final [255]).map SourceFile.content = some (utf8 ['c', 'b']) ∧
      onlyFile [255] [239, 191, 189] = none ∧ run.validated [239, 191, 189] = none ∧
      (run.final [239, 191, 189]).map SourceFile.content = some (utf8 ['a', 'b']) := by
  refine ⟨_, rfl, rfl, ?_⟩
  decide +kernel

end Rewrite
end TensorGrep
