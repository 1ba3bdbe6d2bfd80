import TensorGrep.Kernel.ExceptList
import TensorGrep.Kernel.OwnedCells
import TensorGrep.Rewrite.Splicing

/-!
# Applying a plan

`apply_edit_set` groups the edits of a plan by file, refuses the whole plan when
any file has changed since it was planned, and then rewrites the files in
parallel.  A file can be replaced (a temporary file is renamed over it) or
overwritten in place; the two need different permissions.
-/

namespace TensorGrep
namespace Rewrite

open Kernel

variable {File : Type} [LinearOrder File]

/-! ## Files -/

/-- A file as the rewriter meets it.  `replaceable` says that a temporary file can be
created next to the path and renamed over it, `overwritable` that the path can be opened
for writing without following a symbolic link.  `writes` counts the writes to the path, so
that a write shows even when it changes neither the content nor the time. -/
structure SourceFile where
  content : Bytes
  modifiedNs : Int
  readable : Bool
  replaceable : Bool
  overwritable : Bool
  writes : Nat
deriving DecidableEq

/-- What stands at each path. -/
abbrev SourceTree (File : Type) := File → Option SourceFile

/-- `std::fs::read`. -/
def readBytes (node : Option SourceFile) : Option Bytes :=
  (node.filter SourceFile.readable).map SourceFile.content

/-- `std::fs::read_to_string`. -/
def readToString (node : Option SourceFile) : Option Text :=
  (readBytes node).bind fromUtf8

/-- `system_time_to_unix_nanos`. -/
def systemTimeToUnixNanos
    (file : File)
    (ns : Int) : Except (RewriteError File) Nat :=
  if ns < 0 then .error (.mtimeBeforeEpoch file)
  else if 2 ^ 64 ≤ ns then .error (.mtimeTooLarge file)
  else .ok ns.toNat

/-- `file_mtime_ns`. -/
def fileMtimeNs
    (file : File)
    (node : Option SourceFile) : Except (RewriteError File) Nat :=
  match node with
  | none => .error (.noMetadata file)
  | some n => systemTimeToUnixNanos file n.modifiedNs

/-- `atomic_write_file` at the time `now`. -/
def atomicWriteFile
    (now : UInt64)
    (file : File)
    (contents : Bytes)
    (node : Option SourceFile) :
    Outcome (RewriteError File) Unit × Option SourceFile :=
  match node with
  | some n =>
      if n.replaceable then
        (.ok (), some ⟨contents, now.toNat, true, true, true, n.writes + 1⟩)
      else (.error (.notReplaceable file), node)
  | none => (.error (.notReplaceable file), node)

/-- `direct_write_file` at the time `now`. -/
def directWriteFile
    (now : UInt64)
    (file : File)
    (contents : Bytes)
    (node : Option SourceFile) :
    Outcome (RewriteError File) Unit × Option SourceFile :=
  match node with
  | some n =>
      if n.overwritable then
        (.ok (), some
          { n with content := contents, modifiedNs := now.toNat, writes := n.writes + 1 })
      else (.error (.notWritable file), node)
  | none => (.error (.notWritable file), node)

/-! ## Stale files -/

/-- `planned_mtime_ns_for_file`. -/
def plannedMtimeNsForFile
    (file : File)
    (edits : List (RewriteEdit File)) : Except (RewriteError File) Nat :=
  match edits with
  | [] => .error (.noEdits file)
  | first :: _ =>
      if edits.any (fun e => e.plannedMtimeNs ≠ first.plannedMtimeNs) then
        .error (.inconsistentMtime file)
      else .ok first.plannedMtimeNs

/-- `ensure_file_not_stale`. -/
def ensureFileNotStale
    (file : File)
    (edits : List (RewriteEdit File))
    (node : Option SourceFile) : Except (RewriteError File) Unit := do
  let planned ← plannedMtimeNsForFile file edits
  let current ← fileMtimeNs file node
  if current ≠ planned then .error (.stale file planned current) else .ok ()

/-- `group_edits_by_file`. -/
def groupEditsByFile
    (edits : List (RewriteEdit File)) : List (File × List (RewriteEdit File)) :=
  (sortDedup id (edits.map RewriteEdit.file)).map fun file =>
    (file, sortByKey (fun e => e.byteRange.start) (edits.filter (fun e => e.file = file)))

/-- `ensure_files_not_stale`. -/
def ensureFilesNotStale
    (T : SourceTree File)
    (files : List (File × List (RewriteEdit File))) : Except (RewriteError File) Unit :=
  files.forM fun g => ensureFileNotStale g.1 g.2 (T g.1)

/-! ## Writing -/

/-- `apply_edits_to_file_with_writer` with the writer `write`. -/
def applyEditsToFileWithWriter
    (write : File → Bytes → Option SourceFile →
      Outcome (RewriteError File) Unit × Option SourceFile)
    (file : File)
    (edits : List (RewriteEdit File))
    (originalSource : Option Text)
    (node : Option SourceFile) :
    Outcome (RewriteError File) Unit × Option SourceFile :=
  match originalSource.or (readToString node) with
  | none => (.error (.unreadable file), node)
  | some original =>
      match rewriteSourceWithEdits file original edits with
      | .ok rewritten => write file (utf8 rewritten) node
      | .error e => (.error e, node)
      | .panicked => (.panicked, node)

/-- `apply_edit_set`: nothing is written unless every file is as it was planned. -/
def applyEditSet
    (now : UInt64)
    (T : SourceTree File)
    (edits : List (RewriteEdit File)) :
    Outcome (RewriteError File) Nat × SourceTree File :=
  let files := groupEditsByFile edits
  match ensureFilesNotStale T files with
  | .error e => (.error e, T)
  | .ok _ =>
      let run := runTasks Prod.fst
        (fun g => applyEditsToFileWithWriter (atomicWriteFile now) g.1 g.2 none) T files
      ((joinAll run.1).bind fun written => .ok written.length, run.2)

/-! ## Groups -/

theorem nodup_groupEditsByFile
    (edits : List (RewriteEdit File)) :
    ((groupEditsByFile edits).map Prod.fst).Nodup := by
  rw [groupEditsByFile, List.map_map]
  have hid : (sortDedup id (edits.map RewriteEdit.file)).map
      (Prod.fst ∘ fun file => (file, sortByKey (fun e => e.byteRange.start)
        (edits.filter (fun e => e.file = file)))) =
      sortDedup id (edits.map RewriteEdit.file) := List.map_id _
  rw [hid]
  exact nodup_of_pairwise_key_lt (pairwise_sortDedup id _)

/-- The groups are the files that have edits, each with all of its edits. -/
theorem mem_groupEditsByFile
    {edits : List (RewriteEdit File)}
    {g : File × List (RewriteEdit File)} :
    g ∈ groupEditsByFile edits ↔
      (∃ e ∈ edits, e.file = g.1) ∧
        g.2 = sortByKey (fun e => e.byteRange.start) (edits.filter (fun e => e.file = g.1)) := by
  rw [groupEditsByFile, List.mem_map]
  constructor
  · rintro ⟨file, hfile, rfl⟩
    rw [mem_sortDedup Function.injective_id, List.mem_map] at hfile
    exact ⟨hfile, rfl⟩
  · rintro ⟨hfile, hedits⟩
    refine ⟨g.1, ?_, ?_⟩
    · rw [mem_sortDedup Function.injective_id, List.mem_map]
      exact hfile
    · rw [← hedits]

/-- A group that is already in order is the sublist of edits of its file. -/
theorem sortByKey_eq_self
    {α κ : Type*} [LinearOrder κ]
    {key : α → κ}
    {l : List α}
    (h : l.Pairwise (fun a b => key a ≤ key b)) :
    sortByKey key l = l := by
  rw [sortByKey]
  exact List.Pairwise.insertionSort_eq h

/-- The edits of one file, in order, form the only group. -/
theorem groupEditsByFile_of_one_file
    {file : File}
    {edits : List (RewriteEdit File)}
    (hne : edits ≠ [])
    (hfile : ∀ e ∈ edits, e.file = file)
    (hsorted : edits.Pairwise (fun a b => a.byteRange.start ≤ b.byteRange.start)) :
    groupEditsByFile edits = [(file, edits)] := by
  obtain ⟨first, rest, rfl⟩ := List.exists_cons_of_ne_nil hne
  have hfiles : sortDedup id ((first :: rest).map RewriteEdit.file) = [file] := by
    refine eq_of_pairwise_key_lt (pairwise_sortDedup id _) (List.pairwise_singleton _ _) ?_
    intro f
    rw [mem_sortDedup Function.injective_id, List.mem_map, List.mem_singleton]
    constructor
    · rintro ⟨e, he, rfl⟩
      exact hfile e he
    · rintro rfl
      exact ⟨first, List.mem_cons_self, hfile first List.mem_cons_self⟩
  have hall : (first :: rest).filter (fun e => e.file = file) = first :: rest := by
    rw [List.filter_eq_self]
    intro e he
    exact decide_eq_true (hfile e he)
  rw [groupEditsByFile, hfiles, List.map_singleton, hall, sortByKey_eq_self hsorted]

/-! ## Stale plans -/

omit [LinearOrder File] in
/-- A group passes only when every one of its edits was planned for the current time. -/
theorem ensureFileNotStale_eq_ok_iff
    {file : File}
    {edits : List (RewriteEdit File)}
    {node : Option SourceFile} :
    ensureFileNotStale file edits node = .ok () ↔
      edits ≠ [] ∧ ∀ e ∈ edits, fileMtimeNs file node = .ok e.plannedMtimeNs := by
  rw [ensureFileNotStale]
  cases edits with
  | nil => simp [plannedMtimeNsForFile, bind, Except.bind]
  | cons first rest =>
      rw [plannedMtimeNsForFile]
      by_cases hany : (first :: rest).any (fun e => e.plannedMtimeNs ≠ first.plannedMtimeNs)
      · rw [if_pos hany]
        refine iff_of_false (by simp [bind, Except.bind]) ?_
        rintro ⟨-, hall⟩
        obtain ⟨e, he, hdiff⟩ := List.any_eq_true.mp hany
        have hfirst := hall first List.mem_cons_self
        rw [hall e he, Except.ok.injEq] at hfirst
        simp [hfirst] at hdiff
      · rw [if_neg hany]
        have hsame : ∀ e ∈ first :: rest, e.plannedMtimeNs = first.plannedMtimeNs := by
          intro e he
          by_contra hdiff
          exact hany (List.any_eq_true.mpr ⟨e, he, decide_eq_true hdiff⟩)
        cases hcur : fileMtimeNs file node with
        | error err =>
            refine iff_of_false (by simp [bind, Except.bind]) ?_
            rintro ⟨-, hall⟩
            cases hall first List.mem_cons_self
        | ok current =>
            simp only [bind, Except.bind]
            constructor
            · intro h
              refine ⟨List.cons_ne_nil _ _, fun e he => ?_⟩
              rw [hsame e he]
              split_ifs at h with hne
              rw [not_ne_iff.mp hne]
            · rintro ⟨-, hall⟩
              have hfirst := Except.ok.inj (hall first List.mem_cons_self)
              rw [if_neg (not_ne_iff.mpr hfirst)]

/-- A plan with an edit whose file has another time than planned is refused, and nothing is
written. -/
theorem applyEditSet_stale
    {T : SourceTree File}
    {edits : List (RewriteEdit File)}
    {e : RewriteEdit File}
    (now : UInt64)
    (he : e ∈ edits)
    (hstale : fileMtimeNs e.file (T e.file) ≠ .ok e.plannedMtimeNs) :
    ∃ err, applyEditSet now T edits = (.error err, T) := by
  rw [applyEditSet]
  dsimp only
  cases hcheck : ensureFilesNotStale T (groupEditsByFile edits) with
  | error err => exact ⟨err, rfl⟩
  | ok u =>
      exfalso
      have hall := forM_eq_ok_iff.mp hcheck
      have hgroup := hall (e.file, sortByKey (fun e => e.byteRange.start)
        (edits.filter (fun a => a.file = e.file))) (mem_groupEditsByFile.mpr
          ⟨⟨e, he, rfl⟩, rfl⟩)
      refine hstale ((ensureFileNotStale_eq_ok_iff.mp hgroup).2 e ?_)
      rw [mem_sortByKey, List.mem_filter]
      exact ⟨he, decide_eq_true rfl⟩

end Rewrite
end TensorGrep
