import TensorGrep.Index.Build

/-!
# Incremental rebuild

`rebuildIncrementalWithOptions` compares the walked tree with the active
entries by modification time and size, deletes, replaces and appends entries
one at a time, and normalises only the posting lists it touched.

The loops are described row by row, a row being an entry with its trigrams.
`refreshRow` is the effect on one row, `rows_updateLoops` says that the loops
apply it to every row and append the new files.  That description holds for any
number of files; that the posting map follows (`Mirrored`) needs identifiers
that fit in 32 bits.
-/

namespace TensorGrep
namespace Index

open Kernel

/-- Counters reported by an incremental rebuild. -/
structure IncrementalUpdateStats where
  addedFiles : Nat
  modifiedFiles : Nat
  deletedFiles : Nat
  reusedFiles : Nat

/-- The rebuilt index and its counters. -/
structure IncrementalUpdateResult where
  index : TrigramIndex
  stats : IncrementalUpdateStats

/-- The identifier under which a path is active; of several, the last. -/
def activeFileId
    (files : List FileEntry)
    (path : Text) : Option Nat :=
  (files.zipIdx.filter (fun e => !e.1.deleted && e.1.path = path)).getLast?.map
    Prod.snd

/-- Whether the entry stored under `f` has the time and size of `e`. -/
def sameStat
    (files : List FileEntry)
    (f : Nat)
    (e : FileEntry) : Bool :=
  match files[f]? with
  | none => false
  | some existing => existing.mtimeNs = e.mtimeNs && existing.size = e.size

/-- Walked files whose stored entry has another time or size. -/
def modifiedEntries
    (files current : List FileEntry) : List (Nat × FileEntry) :=
  current.filterMap (fun e =>
    (activeFileId files e.path).bind (fun f =>
      if sameStat files f e then none else some (f, e)))

/-- Walked files without an active entry. -/
def addedEntries
    (files current : List FileEntry) : List FileEntry :=
  current.filter (fun e => (activeFileId files e.path).isNone)

/-- Walked files whose stored entry is kept. -/
def reusedEntries
    (files current : List FileEntry) : List FileEntry :=
  current.filter (fun e =>
    (activeFileId files e.path).any (fun f => sameStat files f e))

/-- Identifiers of active entries whose path is no longer walked. -/
def deletedFileIds
    (files current : List FileEntry) : List Nat :=
  (files.zipIdx.filter (fun e =>
    !e.1.deleted && !current.any (fun c => c.path = e.1.path))).map Prod.snd

/-- The parts of the index that the loops edit. -/
structure Work where
  files : List FileEntry
  fileTrigrams : List FileTrigramHits
  postings : Postings
  affected : List Trigram

/-- A deleted entry stays in place, marked. -/
def FileEntry.tombstone (e : FileEntry) : FileEntry :=
  { e with deleted := true }

namespace Work

/-- The trigrams stored for a file. -/
def hitsOf (s : Work) (f : Nat) : FileTrigramHits :=
  (s.fileTrigrams[f]?).getD []

/-- One round of the deletion loop. -/
def deleteFile (s : Work) (f : Nat) : Work :=
  let r := removeFilePostings s.postings (UInt32.ofNat f) (s.hitsOf f) s.affected
  { files := s.files.modify f FileEntry.tombstone
    fileTrigrams := s.fileTrigrams.set f []
    postings := r.1
    affected := r.2 }

/-- One round of the modification loop. -/
def replaceFile (s : Work) (c : Nat × FileEntry × FileTrigramHits) : Work :=
  let r := removeFilePostings s.postings (UInt32.ofNat c.1) (s.hitsOf c.1) s.affected
  let r' := addFilePostings r.1 (UInt32.ofNat c.1) c.2.2 r.2
  { files := s.files.set c.1 c.2.1
    fileTrigrams := s.fileTrigrams.set c.1 c.2.2
    postings := r'.1
    affected := r'.2 }

/-- One round of the insertion loop. -/
def appendFile (s : Work) (c : FileEntry × FileTrigramHits) : Work :=
  let r := addFilePostings s.postings (UInt32.ofNat s.files.length) c.2 s.affected
  { files := s.files ++ [c.1]
    fileTrigrams := s.fileTrigrams ++ [c.2]
    postings := r.1
    affected := r.2 }

end Work

/-- The three loops, one after the other. -/
def runLoops
    (s : Work)
    (deleted : List Nat)
    (changed : List (Nat × FileEntry × FileTrigramHits))
    (added : List (FileEntry × FileTrigramHits)) : Work :=
  added.foldl Work.appendFile
    (changed.foldl Work.replaceFile (deleted.foldl Work.deleteFile s))

/-- The parts of an index, before anything is edited. -/
def TrigramIndex.toWork (idx : TrigramIndex) : Work where
  files := idx.files
  fileTrigrams := idx.fileTrigrams
  postings := idx.postings
  affected := []

/-- The loops as an incremental rebuild runs them. -/
def updateLoops
    (T : Tree)
    (root : Text)
    (idx : TrigramIndex)
    (current : List FileEntry) : Work :=
  runLoops idx.toWork
    (deletedFileIds idx.files current)
    ((modifiedEntries idx.files current).map
      (fun c => (c.1, c.2, pathHits T root c.2.path)))
    ((addedEntries idx.files current).map
      (fun e => (e, pathHits T root e.path)))

/-- `TrigramIndex::rebuild_incremental_with_options`. -/
def rebuildIncrementalWithOptions
    (digest : Bytes → UInt64)
    (idx : TrigramIndex)
    (T : Tree)
    (noIgnore : Bool)
    (w : WalkRun T noIgnore) : Except IndexError IncrementalUpdateResult := do
  let root ← canonicalRootOf T
  let current ← currentEntries T root w.full
  let s := updateLoops T root idx current
  .ok {
    index := {
      root := root
      canonicalRoot := root
      treeFingerprint := computeTreeFingerprint digest T (utf8 root) w.top
      files := s.files
      fileTrigrams := s.fileTrigrams
      postings := normalizeAffectedPostings s.postings s.affected
      noIgnore := noIgnore }
    stats := {
      addedFiles := (addedEntries idx.files current).length
      modifiedFiles := (modifiedEntries idx.files current).length
      deletedFiles := (deletedFileIds idx.files current).length
      reusedFiles := (reusedEntries idx.files current).length } }

/-! ## Paths of active entries -/

/-- A path is active under at most one identifier. -/
def ActiveUnique (files : List FileEntry) : Prop :=
  ∀ (f g : Nat) (e e' : FileEntry), files[f]? = some e → files[g]? = some e' →
    e.deleted = false → e'.deleted = false → e.path = e'.path → f = g

/-- The two ways of saying that active paths are distinct. -/
theorem nodup_activeEntries_iff
    {files : List FileEntry} :
    ((activeEntries files).map FileEntry.path).Nodup ↔ ActiveUnique files := by
  unfold activeEntries List.Nodup
  rw [List.pairwise_map, List.pairwise_filter, List.pairwise_iff_getElem]
  constructor
  · intro h f g e e' he he' hdel hdel' hpath
    obtain ⟨hf, rfl⟩ := List.getElem?_eq_some_iff.mp he
    obtain ⟨hg, rfl⟩ := List.getElem?_eq_some_iff.mp he'
    rcases Nat.lt_trichotomy f g with hlt | heq | hgt
    · exact absurd hpath (h f g hf hg hlt (by simp [hdel]) (by simp [hdel']))
    · exact heq
    · exact absurd hpath.symm (h g f hg hf hgt (by simp [hdel']) (by simp [hdel]))
  · intro h f g hf hg hlt hdel hdel' hpath
    have := h f g files[f] files[g] (List.getElem?_eq_getElem hf)
      (List.getElem?_eq_getElem hg) (by simpa using hdel) (by simpa using hdel') hpath
    omega

/-- With distinct active paths, the identifier of a path is where it is active. -/
theorem activeFileId_eq_some_iff
    {files : List FileEntry}
    (hunique : ActiveUnique files)
    {path : Text}
    {f : Nat} :
    activeFileId files path = some f ↔
      ∃ e, files[f]? = some e ∧ e.deleted = false ∧ e.path = path := by
  have hmem : ∀ x : FileEntry × Nat,
      x ∈ files.zipIdx.filter (fun e => !e.1.deleted && e.1.path = path) ↔
        files[x.2]? = some x.1 ∧ x.1.deleted = false ∧ x.1.path = path := by
    intro x
    rw [List.mem_filter, List.mem_zipIdx_iff_getElem?]
    simp
  unfold activeFileId
  constructor
  · intro h
    obtain ⟨x, hx, rfl⟩ := Option.map_eq_some_iff.mp h
    exact ⟨x.1, (hmem x).mp (List.mem_of_getLast? hx)⟩
  · rintro ⟨e, he, hdel, hpath⟩
    have hin := (hmem (e, f)).mpr ⟨he, hdel, hpath⟩
    cases hlast : (files.zipIdx.filter
        (fun e => !e.1.deleted && e.1.path = path)).getLast? with
    | none =>
        rw [List.getLast?_eq_none_iff.mp hlast] at hin
        cases hin
    | some x =>
        obtain ⟨hx, hxdel, hxpath⟩ := (hmem x).mp (List.mem_of_getLast? hlast)
        rw [Option.map_some, hunique x.2 f x.1 e hx he hxdel hdel (hxpath.trans hpath.symm)]

theorem activeFileId_eq_none_iff
    {files : List FileEntry}
    {path : Text} :
    activeFileId files path = none ↔
      ∀ e ∈ files, e.deleted = false → e.path ≠ path := by
  unfold activeFileId
  rw [Option.map_eq_none_iff, List.getLast?_eq_none_iff, List.filter_eq_nil_iff]
  constructor
  · intro h e he hdel hpath
    obtain ⟨f, hf⟩ := List.getElem?_of_mem he
    exact h (e, f) (List.mk_mem_zipIdx_iff_getElem?.mpr hf) (by simp [hdel, hpath])
  · rintro h ⟨e, f⟩ hx hbad
    have he := List.mem_of_getElem? (List.mk_mem_zipIdx_iff_getElem?.mp hx)
    simp only [Bool.and_eq_true, Bool.not_eq_true', decide_eq_true_eq] at hbad
    exact h e he hbad.1 hbad.2

theorem mem_deletedFileIds
    {files current : List FileEntry}
    {f : Nat} :
    f ∈ deletedFileIds files current ↔
      ∃ e, files[f]? = some e ∧ e.deleted = false ∧
        ∀ c ∈ current, c.path ≠ e.path := by
  unfold deletedFileIds
  rw [List.mem_map]
  constructor
  · rintro ⟨⟨e, g⟩, hx, rfl⟩
    obtain ⟨hzip, hcond⟩ := List.mem_filter.mp hx
    simp only [Bool.and_eq_true, Bool.not_eq_true', List.any_eq_false,
      decide_eq_true_eq] at hcond
    exact ⟨e, List.mk_mem_zipIdx_iff_getElem?.mp hzip, hcond.1, hcond.2⟩
  · rintro ⟨e, he, hdel, hpaths⟩
    refine ⟨(e, f), List.mem_filter.mpr
      ⟨List.mk_mem_zipIdx_iff_getElem?.mpr he, ?_⟩, rfl⟩
    simp only [Bool.and_eq_true, Bool.not_eq_true', List.any_eq_false,
      decide_eq_true_eq]
    exact ⟨hdel, hpaths⟩

theorem mem_modifiedEntries
    {files current : List FileEntry}
    {f : Nat}
    {c : FileEntry} :
    (f, c) ∈ modifiedEntries files current ↔
      c ∈ current ∧ activeFileId files c.path = some f ∧
        sameStat files f c = false := by
  unfold modifiedEntries
  rw [List.mem_filterMap]
  constructor
  · rintro ⟨e, he, h⟩
    obtain ⟨g, hg, h⟩ := Option.bind_eq_some_iff.mp h
    split_ifs at h with hsame
    cases h
    exact ⟨he, hg, by simpa using hsame⟩
  · rintro ⟨hc, hid, hsame⟩
    exact ⟨c, hc, by simp [hid, hsame]⟩

/-! ## Rows -/

/-- An entry with its trigrams. -/
abbrev Row := FileEntry × FileTrigramHits

/-- The rows of an index. -/
def TrigramIndex.rows (idx : TrigramIndex) : List Row :=
  idx.files.zip idx.fileTrigrams

/-- What deletion does to a row. -/
def Row.delete (r : Row) : Row :=
  (r.1.tombstone, [])

/-- What an incremental rebuild does to a row. -/
def refreshRow
    (current : List FileEntry)
    (fresh : Text → FileTrigramHits)
    (r : Row) : Row :=
  if r.1.deleted then r
  else
    match current.find? (fun c => c.path = r.1.path) with
    | none => r.delete
    | some c =>
        if r.1.mtimeNs = c.mtimeNs ∧ r.1.size = c.size then r
        else (c, fresh c.path)

namespace Work

/-- The rows of the edited parts. -/
def rows (s : Work) : List Row :=
  s.files.zip s.fileTrigrams

/-- Every entry has its trigrams. -/
def Aligned (s : Work) : Prop :=
  s.fileTrigrams.length = s.files.length

theorem rows_deleteFile
    (s : Work)
    (f g : Nat) :
    (s.deleteFile f).rows[g]? =
      if g = f then (s.rows[g]?).map Row.delete else s.rows[g]? := by
  unfold rows deleteFile List.zip
  rw [List.getElem?_zipWith, List.getElem?_zipWith]
  simp only [List.getElem?_modify, List.getElem?_set]
  by_cases h : g = f
  · subst h
    cases hf : s.files[g]? with
    | none => simp
    | some e =>
        cases ht : s.fileTrigrams[g]? with
        | none =>
            have := List.getElem?_eq_none_iff.mp ht
            simp [Nat.not_lt.mpr this]
        | some hits =>
            have hlt := (List.getElem?_eq_some_iff.mp ht).1
            simp [hlt, Row.delete]
  · have h' : ¬ f = g := fun e => h e.symm
    simp [h, h']

theorem rows_replaceFile
    (s : Work)
    (c : Nat × FileEntry × FileTrigramHits)
    (g : Nat) :
    (s.replaceFile c).rows[g]? =
      if g = c.1 then (s.rows[g]?).map (fun _ => c.2) else s.rows[g]? := by
  unfold rows replaceFile List.zip
  rw [List.getElem?_zipWith, List.getElem?_zipWith]
  simp only [List.getElem?_set]
  by_cases h : g = c.1
  · subst h
    cases hf : s.files[c.1]? with
    | none =>
        have := List.getElem?_eq_none_iff.mp hf
        simp [Nat.not_lt.mpr this]
    | some e =>
        have hflt := (List.getElem?_eq_some_iff.mp hf).1
        cases ht : s.fileTrigrams[c.1]? with
        | none =>
            have := List.getElem?_eq_none_iff.mp ht
            simp [Nat.not_lt.mpr this]
        | some hits =>
            have hlt := (List.getElem?_eq_some_iff.mp ht).1
            simp [hlt, hflt]
  · have h' : ¬ c.1 = g := fun e => h e.symm
    simp [h, h']

theorem rows_appendFile
    {s : Work}
    (c : Row)
    (h : s.Aligned) :
    (s.appendFile c).rows = s.rows ++ [c] := by
  unfold rows appendFile
  rw [List.zip_append h.symm]
  rfl

theorem aligned_deleteFile
    {s : Work}
    (f : Nat)
    (h : s.Aligned) :
    (s.deleteFile f).Aligned := by
  unfold Aligned deleteFile at *
  simpa using h

theorem aligned_replaceFile
    {s : Work}
    (c : Nat × FileEntry × FileTrigramHits)
    (h : s.Aligned) :
    (s.replaceFile c).Aligned := by
  unfold Aligned replaceFile at *
  simpa using h

theorem aligned_appendFile
    {s : Work}
    (c : Row)
    (h : s.Aligned) :
    (s.appendFile c).Aligned := by
  unfold Aligned appendFile at *
  simp [h]

/-- The deletion loop, row by row. -/
theorem rows_deleteAll
    (s : Work)
    (ids : List Nat)
    (g : Nat) :
    (ids.foldl deleteFile s).rows[g]? =
      if g ∈ ids then (s.rows[g]?).map Row.delete else s.rows[g]? := by
  induction ids generalizing s with
  | nil => simp
  | cons f ids ih =>
      rw [List.foldl_cons, ih, rows_deleteFile]
      by_cases hf : g = f
      · subst hf
        rw [if_pos rfl, if_pos (List.mem_cons_self)]
        split_ifs
        · rw [Option.map_map]
          rfl
        · rfl
      · simp [hf]

/-- The modification loop, row by row. -/
theorem rows_replaceAll
    (s : Work)
    {cs : List (Nat × FileEntry × FileTrigramHits)}
    (hnodup : (cs.map Prod.fst).Nodup)
    (g : Nat) :
    (∀ c ∈ cs, c.1 = g →
      (cs.foldl replaceFile s).rows[g]? = (s.rows[g]?).map (fun _ => c.2)) ∧
    (g ∉ cs.map Prod.fst → (cs.foldl replaceFile s).rows[g]? = s.rows[g]?) := by
  induction cs generalizing s with
  | nil => simp
  | cons d cs ih =>
      rw [List.map_cons, List.nodup_cons] at hnodup
      obtain ⟨hhit, hmiss⟩ := ih (s.replaceFile d) hnodup.2
      rw [List.foldl_cons]
      constructor
      · intro c hc hcg
        rcases List.mem_cons.mp hc with rfl | hc
        · subst hcg
          rw [hmiss hnodup.1, rows_replaceFile, if_pos rfl]
        · have hne : ¬ g = d.1 := by
            rintro rfl
            exact hnodup.1 (List.mem_map.mpr ⟨c, hc, hcg⟩)
          rw [hhit c hc hcg, rows_replaceFile, if_neg hne]
      · intro hg
        rw [List.map_cons, List.mem_cons, not_or] at hg
        rw [hmiss hg.2, rows_replaceFile, if_neg hg.1]

/-- The insertion loop appends its rows. -/
theorem rows_appendAll
    {s : Work}
    (h : s.Aligned)
    (cs : List Row) :
    (cs.foldl appendFile s).rows = s.rows ++ cs := by
  induction cs generalizing s with
  | nil => simp
  | cons c cs ih =>
      rw [List.foldl_cons, ih (aligned_appendFile c h), rows_appendFile c h,
        List.append_assoc, List.singleton_append]

theorem aligned_runLoops
    {s : Work}
    (h : s.Aligned)
    (deleted : List Nat)
    (changed : List (Nat × FileEntry × FileTrigramHits)) :
    (changed.foldl replaceFile (deleted.foldl deleteFile s)).Aligned := by
  have hdel : (deleted.foldl deleteFile s).Aligned := by
    induction deleted generalizing s with
    | nil => exact h
    | cons f ids ih => exact ih (aligned_deleteFile f h)
  generalize deleted.foldl deleteFile s = s' at hdel ⊢
  induction changed generalizing s' with
  | nil => exact hdel
  | cons c cs ih => exact ih _ (aligned_replaceFile c hdel)

end Work

section RowSpec

variable {files current : List FileEntry}

/-- Entries of one walk with the same path are the same entry. -/
theorem eq_of_path_eq
    (hcur : (current.map FileEntry.path).Nodup)
    {c d : FileEntry}
    (hc : c ∈ current)
    (hd : d ∈ current)
    (h : c.path = d.path) :
    c = d :=
  List.inj_on_of_nodup_map hcur hc hd h

theorem nodup_modifiedEntries_fst
    (hunique : ActiveUnique files)
    (hcur : (current.map FileEntry.path).Nodup) :
    ((modifiedEntries files current).map Prod.fst).Nodup := by
  have hpaths : current.Pairwise (fun a b => a.path ≠ b.path) := by
    unfold List.Nodup at hcur
    rwa [List.pairwise_map] at hcur
  unfold modifiedEntries List.Nodup
  rw [List.pairwise_map, List.pairwise_filterMap]
  refine hpaths.imp ?_
  intro a b hab x hx y hy hxy
  obtain ⟨f, hf, hx⟩ := Option.bind_eq_some_iff.mp hx
  obtain ⟨g, hg, hy⟩ := Option.bind_eq_some_iff.mp hy
  split_ifs at hx hy
  cases hx
  cases hy
  simp only at hxy
  subst hxy
  obtain ⟨e, he, -, hea⟩ := (activeFileId_eq_some_iff hunique).mp hf
  obtain ⟨e', he', -, heb⟩ := (activeFileId_eq_some_iff hunique).mp hg
  rw [he] at he'
  cases he'
  exact hab (hea.symm.trans heb)

theorem sameStat_iff
    {f : Nat}
    {e c : FileEntry}
    (he : files[f]? = some e) :
    sameStat files f c = true ↔ e.mtimeNs = c.mtimeNs ∧ e.size = c.size := by
  unfold sameStat
  rw [he]
  simp

/-- A row whose entry is a tombstone is in no work list. -/
theorem not_mem_of_deleted
    (current : List FileEntry)
    (hunique : ActiveUnique files)
    {f : Nat}
    {e : FileEntry}
    (he : files[f]? = some e)
    (hdel : e.deleted = true) :
    f ∉ deletedFileIds files current ∧
      f ∉ (modifiedEntries files current).map Prod.fst := by
  constructor
  · intro h
    obtain ⟨e', he', hdel', -⟩ := mem_deletedFileIds.mp h
    rw [he] at he'
    cases he'
    rw [hdel] at hdel'
    cases hdel'
  · intro h
    obtain ⟨⟨g, c⟩, hc, rfl⟩ := List.mem_map.mp h
    obtain ⟨-, hid, -⟩ := mem_modifiedEntries.mp hc
    obtain ⟨e', he', hdel', -⟩ := (activeFileId_eq_some_iff hunique).mp hid
    rw [he] at he'
    cases he'
    rw [hdel] at hdel'
    cases hdel'

/-- A modified row belongs to the walked entry with its path. -/
theorem mem_modifiedEntries_fst_iff
    (hunique : ActiveUnique files)
    (hcur : (current.map FileEntry.path).Nodup)
    {f : Nat}
    {e c : FileEntry}
    (he : files[f]? = some e)
    (hdel : e.deleted = false)
    (hc : c ∈ current)
    (hpath : c.path = e.path) :
    f ∈ (modifiedEntries files current).map Prod.fst ↔
      sameStat files f c = false := by
  constructor
  · intro h
    obtain ⟨⟨g, d⟩, hd, rfl⟩ := List.mem_map.mp h
    obtain ⟨hdcur, hid, hsame⟩ := mem_modifiedEntries.mp hd
    obtain ⟨e', he', -, hpath'⟩ := (activeFileId_eq_some_iff hunique).mp hid
    rw [he] at he'
    cases he'
    rw [eq_of_path_eq hcur hc hdcur (hpath.trans hpath')]
    exact hsame
  · intro hsame
    refine List.mem_map.mpr ⟨(f, c), mem_modifiedEntries.mpr ⟨hc, ?_, hsame⟩, rfl⟩
    exact (activeFileId_eq_some_iff hunique).mpr ⟨e, he, hdel, hpath.symm⟩

/-- A row whose path is no longer walked is in the deletion list only. -/
theorem mem_lists_of_not_walked
    (hunique : ActiveUnique files)
    {f : Nat}
    {e : FileEntry}
    (he : files[f]? = some e)
    (hdel : e.deleted = false)
    (hgone : ∀ c ∈ current, c.path ≠ e.path) :
    f ∈ deletedFileIds files current ∧
      f ∉ (modifiedEntries files current).map Prod.fst := by
  refine ⟨mem_deletedFileIds.mpr ⟨e, he, hdel, hgone⟩, ?_⟩
  intro h
  obtain ⟨⟨g, d⟩, hd, rfl⟩ := List.mem_map.mp h
  obtain ⟨hdcur, hid, -⟩ := mem_modifiedEntries.mp hd
  obtain ⟨e', he', -, hpath'⟩ := (activeFileId_eq_some_iff hunique).mp hid
  rw [he] at he'
  cases he'
  exact hgone d hdcur hpath'.symm

theorem not_mem_deletedFileIds_of_walked
    {f : Nat}
    {e c : FileEntry}
    (he : files[f]? = some e)
    (hc : c ∈ current)
    (hpath : c.path = e.path) :
    f ∉ deletedFileIds files current := by
  intro h
  obtain ⟨e', he', -, hgone⟩ := mem_deletedFileIds.mp h
  rw [he] at he'
  cases he'
  exact hgone c hc hpath

end RowSpec

/-- The loops of an incremental rebuild refresh every row and append the new files. -/
theorem rows_updateLoops
    {T : Tree}
    {root : Text}
    {idx : TrigramIndex}
    {current : List FileEntry}
    (hlen : idx.fileTrigrams.length = idx.files.length)
    (hunique : ActiveUnique idx.files)
    (hcur : (current.map FileEntry.path).Nodup) :
    (updateLoops T root idx current).rows =
      idx.rows.map (refreshRow current (pathHits T root)) ++
        (addedEntries idx.files current).map (fun e => (e, pathHits T root e.path)) := by
  unfold updateLoops runLoops
  have haligned : idx.toWork.Aligned := hlen
  rw [Work.rows_appendAll (Work.aligned_runLoops haligned _ _)]
  congr 1
  apply List.ext_getElem?
  intro f
  have hnodup : (((modifiedEntries idx.files current).map
      (fun c => (c.1, c.2, pathHits T root c.2.path))).map Prod.fst).Nodup := by
    rw [List.map_map]
    exact nodup_modifiedEntries_fst hunique hcur
  have hids : ((modifiedEntries idx.files current).map
      (fun c => (c.1, c.2, pathHits T root c.2.path))).map Prod.fst =
        (modifiedEntries idx.files current).map Prod.fst := by
    rw [List.map_map]
    rfl
  obtain ⟨hhit, hmiss⟩ := Work.rows_replaceAll
    ((deletedFileIds idx.files current).foldl Work.deleteFile idx.toWork) hnodup f
  rw [hids] at hmiss
  rw [Work.rows_deleteAll] at hhit hmiss
  rw [List.getElem?_map]
  have hrows : idx.toWork.rows = idx.rows := rfl
  rw [hrows] at hhit hmiss
  cases hr : idx.rows[f]? with
  | none =>
      by_cases hmem : f ∈ (modifiedEntries idx.files current).map Prod.fst
      · obtain ⟨c, hc, hcf⟩ := List.mem_map.mp hmem
        rw [hhit _ (List.mem_map.mpr ⟨c, hc, rfl⟩) hcf, hr]
        simp
      · rw [hmiss hmem, hr]
        simp
  | some r =>
      have he : idx.files[f]? = some r.1 := (List.getElem?_zip_eq_some.mp hr).1
      rw [hr] at hhit hmiss
      unfold refreshRow
      by_cases hdel : r.1.deleted = true
      · obtain ⟨hnd, hnm⟩ := not_mem_of_deleted current hunique he hdel
        rw [hmiss hnm, if_neg hnd]
        simp [hdel]
      · have hact : r.1.deleted = false := by simpa using hdel
        cases hfind : current.find? (fun c => c.path = r.1.path) with
        | none =>
            have hgone : ∀ c ∈ current, c.path ≠ r.1.path := by
              simpa using List.find?_eq_none.mp hfind
            obtain ⟨hd, hnm⟩ := mem_lists_of_not_walked hunique he hact hgone
            rw [hmiss hnm, if_pos hd]
            simp [hact, hfind]
        | some c =>
            have hc := List.mem_of_find?_eq_some hfind
            have hpath : c.path = r.1.path := by
              simpa using List.find?_some hfind
            have hnd := not_mem_deletedFileIds_of_walked he hc hpath
            rw [if_neg hnd] at hhit hmiss
            have hmod := mem_modifiedEntries_fst_iff hunique hcur he hact hc hpath
            by_cases hsame : r.1.mtimeNs = c.mtimeNs ∧ r.1.size = c.size
            · have hnm : f ∉ (modifiedEntries idx.files current).map Prod.fst := by
                rw [hmod, Bool.not_eq_false, sameStat_iff he]
                exact hsame
              rw [hmiss hnm]
              simp [hact, hfind, hsame]
            · have hfalse : sameStat idx.files f c = false := by
                rw [← Bool.not_eq_true, sameStat_iff he]
                exact hsame
              have hid := (activeFileId_eq_some_iff hunique).mpr
                ⟨r.1, he, hact, hpath.symm⟩
              have hin := mem_modifiedEntries.mpr ⟨hc, hid, hfalse⟩
              rw [hhit _ (List.mem_map.mpr ⟨(f, c), hin, rfl⟩) rfl]
              simp [hact, hfind, hsame]

/-! ## The posting map through the loops -/

namespace Work

/-- The posting map follows the trigrams, and untouched posting lists are in order. -/
def Mirrored (s : Work) : Prop :=
  Mirrors s.fileTrigrams s.postings ∧ TidyOutside s.affected s.postings

theorem getElem?_fileTrigrams
    {s : Work}
    {f : Nat}
    (h : f < s.fileTrigrams.length) :
    s.fileTrigrams[f]? = some (s.hitsOf f) := by
  unfold hitsOf
  rw [List.getElem?_eq_getElem h]
  rfl

theorem mirrored_deleteFile
    {s : Work}
    {f : Nat}
    (hf : f < 2 ^ 32)
    (hin : f < s.fileTrigrams.length)
    (h : s.Mirrored) :
    (s.deleteFile f).Mirrored :=
  ⟨mirrors_removeFilePostings s.affected hf (getElem?_fileTrigrams hin) h.1,
    tidyOutside_removeFilePostings h.2⟩

theorem mirrored_replaceFile
    {s : Work}
    {c : Nat × FileEntry × FileTrigramHits}
    (hf : c.1 < 2 ^ 32)
    (hin : c.1 < s.fileTrigrams.length)
    (h : s.Mirrored) :
    (s.replaceFile c).Mirrored := by
  obtain ⟨hmirrors, htidy⟩ := mirrored_deleteFile hf hin h
  have hempty : (s.fileTrigrams.set c.1 [])[c.1]? = some [] :=
    List.getElem?_set_self hin
  have hadd := mirrors_addFilePostings c.2.2 (s.deleteFile c.1).affected hf hempty
    hmirrors
  rw [List.set_set] at hadd
  exact ⟨hadd, tidyOutside_addFilePostings htidy⟩

theorem mirrored_appendFile
    {s : Work}
    (c : Row)
    (haligned : s.Aligned)
    (hlen : s.files.length < 2 ^ 32)
    (h : s.Mirrored) :
    (s.appendFile c).Mirrored := by
  refine ⟨?_, tidyOutside_addFilePostings h.2⟩
  have hlen' : s.fileTrigrams.length < 2 ^ 32 := by
    rw [haligned]
    exact hlen
  have happend := mirrors_append c.2 s.affected hlen' h.1
  rw [haligned] at happend
  exact happend

theorem mirrored_deleteAll
    {s : Work}
    {ids : List Nat}
    (hlen : s.fileTrigrams.length ≤ 2 ^ 32)
    (hids : ∀ f ∈ ids, f < s.fileTrigrams.length)
    (h : s.Mirrored) :
    (ids.foldl deleteFile s).Mirrored := by
  induction ids generalizing s with
  | nil => exact h
  | cons f ids ih =>
      have hf := hids f (by simp)
      have hsame : (s.deleteFile f).fileTrigrams.length = s.fileTrigrams.length :=
        List.length_set
      refine ih (hsame ▸ hlen) ?_ (mirrored_deleteFile (by omega) hf h)
      intro g hg
      rw [hsame]
      exact hids g (List.mem_cons_of_mem _ hg)

theorem mirrored_replaceAll
    {s : Work}
    {cs : List (Nat × FileEntry × FileTrigramHits)}
    (hlen : s.fileTrigrams.length ≤ 2 ^ 32)
    (hids : ∀ c ∈ cs, c.1 < s.fileTrigrams.length)
    (h : s.Mirrored) :
    (cs.foldl replaceFile s).Mirrored := by
  induction cs generalizing s with
  | nil => exact h
  | cons c cs ih =>
      have hc := hids c (by simp)
      have hsame : (s.replaceFile c).fileTrigrams.length = s.fileTrigrams.length :=
        List.length_set
      refine ih (hsame ▸ hlen) ?_ (mirrored_replaceFile (by omega) hc h)
      intro d hd
      rw [hsame]
      exact hids d (List.mem_cons_of_mem _ hd)

theorem mirrored_appendAll
    {s : Work}
    (haligned : s.Aligned)
    {cs : List Row}
    (hlen : s.files.length + cs.length ≤ 2 ^ 32)
    (h : s.Mirrored) :
    (cs.foldl appendFile s).Mirrored := by
  induction cs generalizing s with
  | nil => exact h
  | cons c cs ih =>
      rw [List.length_cons] at hlen
      refine ih (aligned_appendFile c haligned) ?_
        (mirrored_appendFile c haligned (by omega) h)
      unfold appendFile
      simp only [List.length_append, List.length_singleton]
      omega

theorem length_deleteAll
    (s : Work)
    (ids : List Nat) :
    (ids.foldl deleteFile s).files.length = s.files.length := by
  induction ids generalizing s with
  | nil => rfl
  | cons f ids ih =>
      rw [List.foldl_cons, ih]
      simp [deleteFile]

theorem length_replaceAll
    (s : Work)
    (cs : List (Nat × FileEntry × FileTrigramHits)) :
    (cs.foldl replaceFile s).files.length = s.files.length := by
  induction cs generalizing s with
  | nil => rfl
  | cons c cs ih =>
      rw [List.foldl_cons, ih]
      simp [replaceFile]

/-- The loops keep the posting map in step, as long as identifiers fit in 32 bits. -/
theorem mirrored_runLoops
    {s : Work}
    (haligned : s.Aligned)
    {deleted : List Nat}
    {changed : List (Nat × FileEntry × FileTrigramHits)}
    {added : List Row}
    (hlen : s.files.length + added.length ≤ 2 ^ 32)
    (hdeleted : ∀ f ∈ deleted, f < s.files.length)
    (hchanged : ∀ c ∈ changed, c.1 < s.files.length)
    (h : s.Mirrored) :
    (runLoops s deleted changed added).Mirrored := by
  unfold runLoops
  have haligned₁ : (deleted.foldl deleteFile s).Aligned :=
    aligned_runLoops haligned deleted []
  have hlen₁ := length_deleteAll s deleted
  have hlen₂ := length_replaceAll (deleted.foldl deleteFile s) changed
  unfold Aligned at haligned haligned₁
  refine mirrored_appendAll (aligned_runLoops haligned deleted changed) (by omega) ?_
  refine mirrored_replaceAll (by omega) (fun c hc => ?_) ?_
  · have := hchanged c hc
    omega
  · refine mirrored_deleteAll (by omega) (fun f hf => ?_) h
    have := hdeleted f hf
    omega

end Work

end Index
end TensorGrep
