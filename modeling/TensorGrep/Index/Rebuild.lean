import TensorGrep.Index.Incremental

/-!
# What an incremental rebuild leaves behind

The results about `rebuildIncrementalWithOptions` as a whole.  For any number
of entries the rebuilt index lists exactly the files of the tree and is ready
for the next rebuild (`FilesInv`).  Up to `2 ^ 32` entries it also keeps the
representation invariant, and `rebuild_posted` says what it posts: the old
postings of the files it reuses and fresh postings for all others.
-/

namespace TensorGrep
namespace Index

open Kernel

/-- Distinct active paths, pair by pair. -/
theorem nodup_activeEntries_iff_pairwise
    {files : List FileEntry} :
    ((activeEntries files).map FileEntry.path).Nodup ↔
      files.Pairwise (fun a b =>
        a.deleted = false → b.deleted = false → a.path ≠ b.path) := by
  unfold activeEntries List.Nodup
  rw [List.pairwise_map, List.pairwise_filter]
  simp

/-- What a refreshed row is, when it is still active. -/
theorem refreshRow_active
    {current : List FileEntry}
    {fresh : Text → FileTrigramHits}
    {r : Row}
    (h : (refreshRow current fresh r).1.deleted = false) :
    r.1.deleted = false ∧
      ∃ c ∈ current, c.path = r.1.path ∧
        refreshRow current fresh r =
          if r.1.mtimeNs = c.mtimeNs ∧ r.1.size = c.size then r
          else (c, fresh c.path) := by
  unfold refreshRow at h ⊢
  by_cases hdel : r.1.deleted = true
  · rw [if_pos hdel, hdel] at h
    cases h
  · rw [if_neg hdel] at h ⊢
    refine ⟨by simpa using hdel, ?_⟩
    cases hfind : current.find? (fun c => c.path = r.1.path) with
    | none =>
        rw [hfind] at h
        cases h
    | some c =>
        refine ⟨c, List.mem_of_find?_eq_some hfind, ?_, rfl⟩
        simpa using List.find?_some hfind

/-- A row whose path is walked is kept or replaced, never deleted. -/
theorem refreshRow_of_walked
    {current : List FileEntry}
    (hcur : (current.map FileEntry.path).Nodup)
    (fresh : Text → FileTrigramHits)
    {r : Row}
    {c : FileEntry}
    (hact : r.1.deleted = false)
    (hc : c ∈ current)
    (hpath : c.path = r.1.path) :
    refreshRow current fresh r =
      if r.1.mtimeNs = c.mtimeNs ∧ r.1.size = c.size then r
      else (c, fresh c.path) := by
  unfold refreshRow
  rw [if_neg (by simp [hact])]
  cases hfind : current.find? (fun c => c.path = r.1.path) with
  | none =>
      have := List.find?_eq_none.mp hfind c hc
      simp [hpath] at this
  | some d =>
      have hd : d.path = r.1.path := by
        simpa using List.find?_some hfind
      rw [eq_of_path_eq hcur (List.mem_of_find?_eq_some hfind) hc
        (hd.trans hpath.symm)]

/-- A refresh never changes the path of a row. -/
theorem refreshRow_path
    (current : List FileEntry)
    (fresh : Text → FileTrigramHits)
    (r : Row) :
    (refreshRow current fresh r).1.path = r.1.path := by
  unfold refreshRow
  by_cases hdel : r.1.deleted = true
  · rw [if_pos hdel]
  · rw [if_neg hdel]
    cases hfind : current.find? (fun c => c.path = r.1.path) with
    | none => rfl
    | some c =>
        have hpath : c.path = r.1.path := by
          simpa using List.find?_some hfind
        simp only
        split_ifs
        · rfl
        · exact hpath

section Rebuild

variable {digest : Bytes → UInt64} {idx : TrigramIndex} {T : Tree} {m : Bool}
  {w : WalkRun T m} {r : IncrementalUpdateResult}

/-- The parts of a successful incremental rebuild. -/
theorem rebuild_eq_ok
    (h : rebuildIncrementalWithOptions digest idx T m w = .ok r) :
    T.canonical = some (utf8 r.index.canonicalRoot) ∧
      r.index.treeFingerprint =
        computeTreeFingerprint digest T (utf8 r.index.canonicalRoot) w.top ∧
      r.index.noIgnore = m ∧
      ∃ current, currentEntries T r.index.canonicalRoot w.full = .ok current ∧
        ∃ s, s = updateLoops T r.index.canonicalRoot idx current ∧
          r.index.files = s.files ∧ r.index.fileTrigrams = s.fileTrigrams ∧
          r.index.postings = normalizeAffectedPostings s.postings s.affected := by
  unfold rebuildIncrementalWithOptions at h
  obtain ⟨root, hroot, h⟩ := bind_eq_ok_iff.mp h
  obtain ⟨current, hcurrent, h⟩ := bind_eq_ok_iff.mp h
  cases h
  exact ⟨canonicalRootOf_eq_ok hroot, rfl, rfl, current, hcurrent, _, rfl, rfl, rfl, rfl⟩

/-- A rebuild succeeds when the entries of the tree can be collected. -/
theorem exists_rebuild
    {root : Text}
    {current : List FileEntry}
    (digest : Bytes → UInt64)
    (idx : TrigramIndex)
    (hroot : T.canonical = some (utf8 root))
    (h : currentEntries T root w.full = .ok current) :
    ∃ r, rebuildIncrementalWithOptions digest idx T m w = .ok r :=
  ⟨_, bind_eq_ok_iff.mpr ⟨root, canonicalRootOf_of_canonical hroot,
    bind_eq_ok_iff.mpr ⟨current, h, rfl⟩⟩⟩

/-- What any index needs for its next rebuild, whatever its size. -/
structure FilesInv (idx : TrigramIndex) : Prop where
  lengths : idx.fileTrigrams.length = idx.files.length
  activeNodup : ((activeEntries idx.files).map FileEntry.path).Nodup

theorem RepInv.filesInv
    (h : RepInv idx) :
    FilesInv idx :=
  ⟨h.lengths, h.activeNodup⟩

/-- The rebuilt rows, and that every entry still has its trigrams. -/
theorem rebuild_rows
    (hidx : FilesInv idx)
    (h : rebuildIncrementalWithOptions digest idx T m w = .ok r) :
    ∃ current, currentEntries T r.index.canonicalRoot w.full = .ok current ∧
      r.index.fileTrigrams.length = r.index.files.length ∧
      r.index.rows =
        idx.rows.map (refreshRow current (pathHits T r.index.canonicalRoot)) ++
          (addedEntries idx.files current).map
            (fun e => (e, pathHits T r.index.canonicalRoot e.path)) := by
  obtain ⟨hroot, -, -, current, hcurrent, s, hs, hfiles, htri, -⟩ := rebuild_eq_ok h
  have haligned : idx.toWork.Aligned := hidx.lengths
  have hloops := Work.aligned_runLoops haligned (deletedFileIds idx.files current)
    ((modifiedEntries idx.files current).map
      (fun c => (c.1, c.2, pathHits T r.index.canonicalRoot c.2.path)))
  refine ⟨current, hcurrent, ?_, ?_⟩
  · rw [htri, hfiles, hs]
    unfold updateLoops runLoops
    generalize (addedEntries idx.files current).map
      (fun e => (e, pathHits T r.index.canonicalRoot e.path)) = cs
    generalize List.foldl Work.replaceFile _ _ = s' at hloops ⊢
    induction cs generalizing s' with
    | nil => exact hloops
    | cons c cs ih => exact ih _ (Work.aligned_appendFile c hloops)
  · unfold TrigramIndex.rows
    rw [htri, hfiles, hs]
    exact rows_updateLoops hidx.lengths
      (nodup_activeEntries_iff.mp hidx.activeNodup)
      (nodup_currentEntries_path hroot hcurrent)

theorem files_eq_map_rows
    (h : idx.fileTrigrams.length = idx.files.length) :
    idx.files = idx.rows.map Prod.fst := by
  unfold TrigramIndex.rows
  rw [List.map_fst_zip (Nat.le_of_eq h.symm)]

theorem mem_rows_iff
    {x : Row} :
    x ∈ idx.rows ↔
      ∃ f : Nat, idx.files[f]? = some x.1 ∧ idx.fileTrigrams[f]? = some x.2 := by
  rw [List.mem_iff_getElem?]
  exact exists_congr (fun f => List.getElem?_zip_eq_some)

theorem mem_active_iff_rows
    (h : idx.fileTrigrams.length = idx.files.length)
    {a : FileStamp} :
    a ∈ idx.catalog.active ↔
      ∃ x ∈ idx.rows, x.1.deleted = false ∧ a = x.1.stamp := by
  simp only [TrigramIndex.catalog, Set.mem_ofPred_eq, mem_activeEntries]
  rw [files_eq_map_rows h]
  constructor
  · rintro ⟨e, ⟨he, hdel⟩, rfl⟩
    obtain ⟨x, hx, rfl⟩ := List.mem_map.mp he
    exact ⟨x, hx, hdel, rfl⟩
  · rintro ⟨x, hx, hdel, rfl⟩
    exact ⟨x.1, ⟨List.mem_map_of_mem hx, hdel⟩, rfl⟩

theorem RepInv.mem_posted_iff_rows
    (h : RepInv idx)
    {t : Trigram}
    {a : Text × UInt32} :
    a ∈ idx.catalog.posted t ↔
      ∃ x ∈ idx.rows, x.1.deleted = false ∧ x.1.path = a.1 ∧ (t, a.2) ∈ x.2 := by
  rw [h.mem_posted]
  constructor
  · rintro ⟨f, e, hits, he, hdel, hhits, hpath, hmem⟩
    exact ⟨(e, hits), mem_rows_iff.mpr ⟨f, he, hhits⟩, hdel, hpath, hmem⟩
  · rintro ⟨x, hx, hdel, hpath, hmem⟩
    obtain ⟨f, he, hhits⟩ := mem_rows_iff.mp hx
    exact ⟨f, x.1, x.2, he, hdel, hhits, hpath, hmem⟩

/-- Active rows with the same path are the same row. -/
theorem FilesInv.row_unique
    (h : FilesInv idx)
    {x y : Row}
    (hx : x ∈ idx.rows)
    (hy : y ∈ idx.rows)
    (hxdel : x.1.deleted = false)
    (hydel : y.1.deleted = false)
    (hpath : x.1.path = y.1.path) :
    x = y := by
  obtain ⟨f, hxf, hxt⟩ := mem_rows_iff.mp hx
  obtain ⟨g, hyf, hyt⟩ := mem_rows_iff.mp hy
  have hfg : f = g :=
    nodup_activeEntries_iff.mp h.activeNodup f g _ _ hxf hyf hxdel hydel hpath
  subst hfg
  rw [hxf] at hyf
  rw [hxt] at hyt
  exact Prod.ext (Option.some.inj hyf) (Option.some.inj hyt)

theorem stamp_eq_iff
    {e c : FileEntry} :
    e.stamp = c.stamp ↔ e.path = c.path ∧ e.mtimeNs = c.mtimeNs ∧ e.size = c.size := by
  simp [FileEntry.stamp]

/-- An active row of the rebuilt index is a kept row or a freshly extracted one. -/
theorem rebuild_active_row
    (hidx : FilesInv idx)
    (h : rebuildIncrementalWithOptions digest idx T m w = .ok r)
    {current : List FileEntry}
    (hcurrent : currentEntries T r.index.canonicalRoot w.full = .ok current)
    {x : Row} :
    (x ∈ r.index.rows ∧ x.1.deleted = false) ↔
      ∃ c ∈ current,
        (x ∈ idx.rows ∧ x.1.deleted = false ∧ x.1.stamp = c.stamp) ∨
        ((∀ y ∈ idx.rows, y.1.deleted = false → y.1.stamp ≠ c.stamp) ∧
          x = (c, pathHits T r.index.canonicalRoot c.path)) := by
  obtain ⟨hroot, -⟩ := rebuild_eq_ok h
  obtain ⟨current', hcurrent', -, hrows⟩ := rebuild_rows hidx h
  rw [hcurrent] at hcurrent'
  cases hcurrent'
  have hcur := nodup_currentEntries_path hroot hcurrent
  have hfiles := files_eq_map_rows hidx.lengths
  rw [hrows, List.mem_append, List.mem_map, List.mem_map]
  constructor
  · rintro ⟨⟨y, hy, rfl⟩ | ⟨e, he, rfl⟩, hdel⟩
    · obtain ⟨hydel, c, hc, hpath, heq⟩ := refreshRow_active hdel
      refine ⟨c, hc, ?_⟩
      by_cases hsame : y.1.mtimeNs = c.mtimeNs ∧ y.1.size = c.size
      · left
        rw [heq, if_pos hsame]
        exact ⟨hy, hydel, stamp_eq_iff.mpr ⟨hpath.symm, hsame⟩⟩
      · right
        rw [heq, if_neg hsame]
        refine ⟨?_, rfl⟩
        intro z hz hzdel hstamp
        obtain ⟨hzpath, hzsame⟩ := stamp_eq_iff.mp hstamp
        have hzy := hidx.row_unique hz hy hzdel hydel (hzpath.trans hpath)
        exact hsame (hzy ▸ hzsame)
    · obtain ⟨hec, hnone⟩ := List.mem_filter.mp he
      rw [Option.isNone_iff_eq_none, activeFileId_eq_none_iff] at hnone
      refine ⟨e, hec, Or.inr ⟨?_, rfl⟩⟩
      intro y hy hydel hstamp
      refine hnone y.1 ?_ hydel (stamp_eq_iff.mp hstamp).1
      rw [hfiles]
      exact List.mem_map_of_mem hy
  · rintro ⟨c, hc, ⟨hx, hdel, hstamp⟩ | ⟨hfresh, rfl⟩⟩
    · obtain ⟨hpath, hsame⟩ := stamp_eq_iff.mp hstamp
      refine ⟨Or.inl ⟨x, hx, ?_⟩, hdel⟩
      rw [refreshRow_of_walked hcur _ hdel hc hpath.symm, if_pos hsame]
    · refine ⟨?_, currentEntries_not_deleted hcurrent hc⟩
      by_cases hold : ∃ y ∈ idx.rows, y.1.deleted = false ∧ y.1.path = c.path
      · obtain ⟨y, hy, hydel, hpath⟩ := hold
        left
        refine ⟨y, hy, ?_⟩
        rw [refreshRow_of_walked hcur _ hydel hc hpath.symm, if_neg]
        intro hsame
        exact hfresh y hy hydel (stamp_eq_iff.mpr ⟨hpath, hsame⟩)
      · right
        refine ⟨c, List.mem_filter.mpr ⟨hc, ?_⟩, rfl⟩
        rw [Option.isNone_iff_eq_none, activeFileId_eq_none_iff]
        intro e he hdel hpath
        rw [hfiles] at he
        obtain ⟨y, hy, rfl⟩ := List.mem_map.mp he
        exact hold ⟨y, hy, hdel, hpath⟩

/-- A rebuild lists exactly the files that the tree prescribes. -/
theorem rebuild_active
    (hidx : FilesInv idx)
    (h : rebuildIncrementalWithOptions digest idx T m w = .ok r) :
    r.index.catalog.active = T.active r.index.canonicalRoot m := by
  obtain ⟨hroot, -⟩ := rebuild_eq_ok h
  obtain ⟨current, hcurrent, hlen, -⟩ := rebuild_rows hidx h
  ext a
  rw [mem_active_iff_rows hlen, ← mem_currentEntries_stamp hroot hcurrent]
  constructor
  · rintro ⟨x, hx, hdel, rfl⟩
    obtain ⟨c, hc, hcase⟩ := (rebuild_active_row hidx h hcurrent).mp ⟨hx, hdel⟩
    rcases hcase with ⟨-, -, hstamp⟩ | ⟨-, rfl⟩
    · exact ⟨c, hc, hstamp⟩
    · exact ⟨c, hc, rfl⟩
  · rintro ⟨c, hc, rfl⟩
    by_cases hold : ∃ y ∈ idx.rows, y.1.deleted = false ∧ y.1.stamp = c.stamp
    · obtain ⟨y, hy, hdel, hstamp⟩ := hold
      obtain ⟨hy', hdel'⟩ := (rebuild_active_row hidx h hcurrent).mpr
        ⟨c, hc, Or.inl ⟨hy, hdel, hstamp⟩⟩
      exact ⟨y, hy', hdel', hstamp.symm⟩
    · push Not at hold
      obtain ⟨hx, hdel⟩ := (rebuild_active_row hidx h hcurrent).mpr
        ⟨c, hc, Or.inr ⟨hold, rfl⟩⟩
      exact ⟨_, hx, hdel, rfl⟩

/-- A rebuild leaves an index ready for the next rebuild. -/
theorem rebuild_filesInv
    (hidx : FilesInv idx)
    (h : rebuildIncrementalWithOptions digest idx T m w = .ok r) :
    FilesInv r.index := by
  obtain ⟨hroot, -⟩ := rebuild_eq_ok h
  obtain ⟨current, hcurrent, hlen, hrows⟩ := rebuild_rows hidx h
  have hcur := nodup_currentEntries_path hroot hcurrent
  refine ⟨hlen, ?_⟩
  have hold := nodup_activeEntries_iff_pairwise.mp hidx.activeNodup
  have hfiles := files_eq_map_rows hidx.lengths
  rw [nodup_activeEntries_iff_pairwise, files_eq_map_rows hlen, hrows, List.map_append,
    List.map_map, List.map_map, List.pairwise_append]
  refine ⟨?_, ?_, ?_⟩
  · rw [hfiles, List.pairwise_map] at hold
    rw [List.pairwise_map]
    refine hold.imp ?_
    intro x y hxy hx hy
    simp only [Function.comp_apply] at hx hy ⊢
    rw [refreshRow_path, refreshRow_path]
    exact hxy (refreshRow_active hx).1 (refreshRow_active hy).1
  · rw [List.pairwise_map]
    have hpaths : current.Pairwise (fun a b => a.path ≠ b.path) := by
      unfold List.Nodup at hcur
      rwa [List.pairwise_map] at hcur
    exact (hpaths.filter _).imp (fun hab _ _ => hab)
  · intro a ha b hb hadel hbdel hpath
    obtain ⟨x, hx, rfl⟩ := List.mem_map.mp ha
    obtain ⟨e, he, rfl⟩ := List.mem_map.mp hb
    simp only [Function.comp_apply] at hadel hpath
    obtain ⟨-, hnone⟩ := List.mem_filter.mp he
    rw [Option.isNone_iff_eq_none, activeFileId_eq_none_iff] at hnone
    refine hnone x.1 ?_ (refreshRow_active hadel).1 ?_
    · rw [hfiles]
      exact List.mem_map_of_mem hx
    · rw [refreshRow_path] at hpath
      exact hpath

/-- Deleted rows of the rebuilt index hold no trigrams. -/
theorem refreshRow_deleted
    {current : List FileEntry}
    {fresh : Text → FileTrigramHits}
    {x : Row}
    (hold : x.1.deleted = true → x.2 = [])
    (hcurrent : ∀ c ∈ current, c.deleted = false)
    (h : (refreshRow current fresh x).1.deleted = true) :
    (refreshRow current fresh x).2 = [] := by
  unfold refreshRow at h ⊢
  by_cases hdel : x.1.deleted = true
  · rw [if_pos hdel]
    exact hold hdel
  · rw [if_neg hdel] at h ⊢
    cases hfind : current.find? (fun c => c.path = x.1.path) with
    | none => rfl
    | some c =>
        rw [hfind] at h
        simp only at h
        split_ifs at h with hsame
        · exact absurd h hdel
        · rw [hcurrent c (List.mem_of_find?_eq_some hfind)] at h
          cases h

/-- A rebuild to at most `2 ^ 32` entries keeps the representation invariant. -/
theorem rebuild_repInv
    (hidx : RepInv idx)
    (h : rebuildIncrementalWithOptions digest idx T m w = .ok r)
    (hbound : r.index.files.length ≤ 2 ^ 32) :
    RepInv r.index := by
  obtain ⟨hroot, -, -, current, hcurrent, s, hs, hfiles, htri, hpost⟩ := rebuild_eq_ok h
  have hinv := rebuild_filesInv hidx.filesInv h
  obtain ⟨current', hcurrent', -, hrows⟩ := rebuild_rows hidx.filesInv h
  rw [hcurrent] at hcurrent'
  cases hcurrent'
  have hlen : idx.files.length + (addedEntries idx.files current).length ≤ 2 ^ 32 := by
    have hcount := congrArg List.length hrows
    rw [List.length_append, List.length_map, List.length_map] at hcount
    have hnew := congrArg List.length (files_eq_map_rows hinv.lengths)
    have hold := congrArg List.length (files_eq_map_rows hidx.lengths)
    rw [List.length_map] at hnew hold
    omega
  have hmirrored : s.Mirrored := by
    rw [hs]
    refine Work.mirrored_runLoops (s := idx.toWork) hidx.lengths ?_ ?_ ?_
      ⟨hidx.mirrors, hidx.tidyOutside⟩
    · rw [List.length_map]
      exact hlen
    · intro f hf
      obtain ⟨e, he, -⟩ := mem_deletedFileIds.mp hf
      exact (List.getElem?_eq_some_iff.mp he).1
    · intro c hc
      obtain ⟨d, hd, rfl⟩ := List.mem_map.mp hc
      obtain ⟨-, hid, -⟩ := mem_modifiedEntries.mp hd
      obtain ⟨e, he, -⟩ := (activeFileId_eq_some_iff
        (nodup_activeEntries_iff.mp hidx.activeNodup)).mp hid
      exact (List.getElem?_eq_some_iff.mp he).1
  refine repInv_of_mirrors hbound hinv.lengths ?_ ?_ ?_ hinv.activeNodup
  · intro t p
    rw [hpost, htri, mem_get_normalizeAffectedPostings]
    exact hmirrored.1 t p
  · rw [hpost]
    exact tidyOutside_normalizeAffectedPostings hmirrored.2
  · intro f e hits he hdel hhits
    have hmem : (e, hits) ∈ r.index.rows := mem_rows_iff.mpr ⟨f, he, hhits⟩
    rw [hrows, List.mem_append, List.mem_map, List.mem_map] at hmem
    rcases hmem with ⟨x, hx, heq⟩ | ⟨c, hc, heq⟩
    · have hx' : x.1.deleted = true → x.2 = [] := by
        intro hxdel
        obtain ⟨g, hg, hgt⟩ := mem_rows_iff.mp hx
        exact hidx.hits_eq_nil_of_deleted hg hxdel hgt
      have hnil := refreshRow_deleted hx'
        (fun c hc => currentEntries_not_deleted hcurrent hc)
        (show (refreshRow current (pathHits T r.index.canonicalRoot) x).1.deleted = true by
          rw [heq]
          exact hdel)
      rw [heq] at hnil
      exact hnil
    · cases heq
      rw [currentEntries_not_deleted hcurrent (List.mem_of_mem_filter hc)] at hdel
      cases hdel

/-- What a rebuild posts: kept postings for files it reuses, fresh ones for the others. -/
theorem rebuild_posted
    (hidx : RepInv idx)
    (h : rebuildIncrementalWithOptions digest idx T m w = .ok r)
    (hbound : r.index.files.length ≤ 2 ^ 32)
    {t : Trigram}
    {a : Text × UInt32} :
    a ∈ r.index.catalog.posted t ↔
      ∃ s ∈ T.active r.index.canonicalRoot m, s.1 = a.1 ∧
        (s ∈ idx.catalog.active ∧ a ∈ idx.catalog.posted t ∨
          s ∉ idx.catalog.active ∧
            (t, a.2) ∈ pathHits T r.index.canonicalRoot a.1) := by
  have hinv := rebuild_repInv hidx h hbound
  obtain ⟨hroot, -⟩ := rebuild_eq_ok h
  obtain ⟨current, hcurrent, -, -⟩ := rebuild_rows hidx.filesInv h
  rw [hinv.mem_posted_iff_rows]
  constructor
  · rintro ⟨x, hx, hdel, hpath, hmem⟩
    obtain ⟨c, hc, hcase⟩ := (rebuild_active_row hidx.filesInv h hcurrent).mp ⟨hx, hdel⟩
    have hstamp : c.stamp ∈ T.active r.index.canonicalRoot m :=
      (mem_currentEntries_stamp hroot hcurrent).mp ⟨c, hc, rfl⟩
    rcases hcase with ⟨hold, hdel', hsame⟩ | ⟨hfresh, rfl⟩
    · refine ⟨c.stamp, hstamp, ?_, Or.inl ⟨?_, ?_⟩⟩
      · rw [← hsame]
        exact hpath
      · rw [mem_active_iff_rows hidx.lengths]
        exact ⟨x, hold, hdel', hsame.symm⟩
      · rw [hidx.mem_posted_iff_rows]
        exact ⟨x, hold, hdel', hpath, hmem⟩
    · refine ⟨c.stamp, hstamp, hpath, Or.inr ⟨?_, ?_⟩⟩
      · rw [mem_active_iff_rows hidx.lengths]
        rintro ⟨y, hy, hydel, heq⟩
        exact hfresh y hy hydel heq.symm
      · rw [← hpath]
        exact hmem
  · rintro ⟨st, hst, hpath, hcase⟩
    obtain ⟨c, hc, rfl⟩ := (mem_currentEntries_stamp hroot hcurrent).mpr hst
    rcases hcase with ⟨hact, hold⟩ | ⟨hnot, hmem⟩
    · rw [mem_active_iff_rows hidx.lengths] at hact
      obtain ⟨y, hy, hydel, hyst⟩ := hact
      rw [hidx.mem_posted_iff_rows] at hold
      obtain ⟨x, hx, hdel, hxpath, hmem⟩ := hold
      have hyx : y = x := by
        refine hidx.filesInv.row_unique hy hx hydel hdel ?_
        rw [hxpath, ← hpath, hyst]
        rfl
      subst hyx
      obtain ⟨hx', hdel'⟩ := (rebuild_active_row hidx.filesInv h hcurrent).mpr
        ⟨c, hc, Or.inl ⟨hx, hdel, hyst.symm⟩⟩
      exact ⟨_, hx', hdel', hxpath, hmem⟩
    · rw [mem_active_iff_rows hidx.lengths] at hnot
      have hfresh : ∀ y ∈ idx.rows, y.1.deleted = false → y.1.stamp ≠ c.stamp :=
        fun y hy hydel heq => hnot ⟨y, hy, hydel, heq.symm⟩
      obtain ⟨hx', hdel'⟩ := (rebuild_active_row hidx.filesInv h hcurrent).mpr
        ⟨c, hc, Or.inr ⟨hfresh, rfl⟩⟩
      refine ⟨_, hx', hdel', hpath, ?_⟩
      have hcp : c.path = a.1 := hpath
      simp only [hcp]
      exact hmem

/-- How many offered files have a path that is not active in the index. -/
def newPathCount
    (idx : TrigramIndex)
    (T : Tree)
    (root : Bytes)
    (m : Bool) : Nat :=
  (T.walk m).countP (fun rel =>
    !(activeEntries idx.files).any (fun e => utf8 e.path = rel) && offered T root rel)

/-- Every new path gets one entry, and no entry is ever removed. -/
theorem rebuild_length
    (hidx : FilesInv idx)
    (h : rebuildIncrementalWithOptions digest idx T m w = .ok r) :
    r.index.files.length =
      idx.files.length + newPathCount idx T (utf8 r.index.canonicalRoot) m := by
  obtain ⟨hroot, -⟩ := rebuild_eq_ok h
  obtain ⟨current, hcurrent, hlen, hrows⟩ := rebuild_rows hidx h
  have hnew := congrArg List.length (files_eq_map_rows hlen)
  have hold := congrArg List.length (files_eq_map_rows hidx.lengths)
  have hcount := congrArg List.length hrows
  rw [List.length_map] at hnew hold
  rw [List.length_append, List.length_map, List.length_map] at hcount
  have hadded : (addedEntries idx.files current).length =
      newPathCount idx T (utf8 r.index.canonicalRoot) m := by
    unfold newPathCount addedEntries
    rw [← List.countP_eq_length_filter, ← w.full_perm.countP_eq, ← List.countP_filter,
      ← map_path_currentEntries hroot hcurrent, List.countP_map]
    apply List.countP_congr
    intro e _
    simp only [Option.isNone_iff_eq_none, activeFileId_eq_none_iff, Function.comp_apply,
      Bool.not_eq_true', List.any_eq_false, decide_eq_true_eq, mem_activeEntries]
    constructor
    · rintro hnone e' ⟨he', hdel⟩ hpath
      exact hnone e' he' hdel (utf8_injective hpath)
    · intro hnone e' he' hdel hpath
      exact hnone e' ⟨he', hdel⟩ (by rw [hpath])
  omega

/-- Entries of the rebuilt index have the path of an old or of a walked file. -/
theorem rebuild_path_mem
    (hidx : FilesInv idx)
    (h : rebuildIncrementalWithOptions digest idx T m w = .ok r)
    {e : FileEntry}
    (he : e ∈ r.index.files) :
    (∃ e' ∈ idx.files, e'.path = e.path) ∨ utf8 e.path ∈ T.walk m := by
  obtain ⟨hroot, -⟩ := rebuild_eq_ok h
  obtain ⟨current, hcurrent, hlen, hrows⟩ := rebuild_rows hidx h
  rw [files_eq_map_rows hlen, hrows] at he
  obtain ⟨x, hx, rfl⟩ := List.mem_map.mp he
  rcases List.mem_append.mp hx with hx | hx
  · obtain ⟨y, hy, rfl⟩ := List.mem_map.mp hx
    refine Or.inl ⟨y.1, ?_, (refreshRow_path _ _ y).symm⟩
    rw [files_eq_map_rows hidx.lengths]
    exact List.mem_map_of_mem hy
  · obtain ⟨c, hc, rfl⟩ := List.mem_map.mp hx
    exact Or.inr (currentEntries_path_mem hroot hcurrent (List.mem_of_mem_filter hc))

end Rebuild

end Index
end TensorGrep
