import TensorGrep.Kernel.ExceptList
import TensorGrep.Index.Fingerprint
import TensorGrep.Index.Postings

/-!
# Building an index from scratch

`buildWithOptions` walks the canonical root, keeps the regular files whose
metadata it can read and whose modification time is not before the Unix epoch,
extracts their trigrams, fills the posting map and normalises it.

`Tree.catalog` says what the tree itself prescribes: the files with their
stamps and, for every trigram, the lines that extraction finds.  A build of a
tree with at most `2 ^ 32` indexed files satisfies the representation
invariant and has exactly the catalog of its tree.
-/

namespace TensorGrep
namespace Index

open Kernel

/-- A walked file with its metadata, before its path is made relative. -/
structure WalkedEntry where
  path : Bytes
  mtimeNs : BitVec 128
  size : UInt64

/-- `collect_file_entries`. -/
def collectFileEntries
    (T : Tree)
    (root : Bytes)
    (walked : List Bytes) : List WalkedEntry :=
  walked.filterMap (fun rel =>
    (T.stat (walkedPath root rel)).bind (fun node =>
      node.modified.sinceEpoch.map (fun ns =>
        { path := walkedPath root rel, mtimeNs := ns, size := node.len })))

/-- `canonical_root_of`. -/
def canonicalRootOf (T : Tree) : Except IndexError Text :=
  match T.canonical with
  | none => .error .rootNotCanonical
  | some root =>
      match fromUtf8 root with
      | none => .error (.rootNotUtf8 root)
      | some t => .ok t

/-- `relativize_entry`. -/
def relativizeEntry (walked root : Bytes) : Except IndexError Text :=
  match stripPrefix walked root with
  | none => .error (.outsideRoot walked root)
  | some rel =>
      match fromUtf8 rel with
      | none => .error (.entryNotUtf8 walked)
      | some t => .ok t

/-- The entry of a walked file. -/
def toFileEntry
    (root : Bytes)
    (w : WalkedEntry) : Except IndexError FileEntry :=
  (relativizeEntry w.path root).map (fun path =>
    { path, mtimeNs := w.mtimeNs, size := w.size, deleted := false })

/-- The entries of a tree, relative to its canonical root. -/
def currentEntries
    (T : Tree)
    (root : Text)
    (walked : List Bytes) : Except IndexError (List FileEntry) :=
  (collectFileEntries T (utf8 root) walked).mapM (toFileEntry (utf8 root))

/-- What extraction finds in the file stored under a relative path. -/
def pathHits
    (T : Tree)
    (root path : Text) : FileTrigramHits :=
  extractOrDefault (T.stat (joinPath (utf8 root) (utf8 path)))

/-- Add one extracted file to the trigrams and the postings built so far. -/
def assemble
    (s : List FileTrigramHits × Postings)
    (f : UInt32 × FileTrigramHits) : List FileTrigramHits × Postings :=
  (s.1.set f.1.toNat f.2, s.2.pushAll (filePostings f.1 f.2))

/-- The extracted files, numbered in 32 bits. -/
def numberHits
    (hits : List FileTrigramHits)
    (first : Nat) : List (UInt32 × FileTrigramHits) :=
  (hits.zipIdx first).map (fun e => (UInt32.ofNat e.2, e.1))

/-- `TrigramIndex::build_with_options`. -/
def buildWithOptions
    (digest : Bytes → UInt64)
    (T : Tree)
    (noIgnore : Bool)
    (w : WalkRun T noIgnore) : Except IndexError TrigramIndex := do
  let root ← canonicalRootOf T
  let entries ← currentEntries T root w.full
  let perFile := numberHits (entries.map (fun e => pathHits T root e.path)) 0
  let s := perFile.foldl assemble (List.replicate entries.length [], ∅)
  .ok {
    root := root
    canonicalRoot := root
    treeFingerprint := computeTreeFingerprint digest T (utf8 root) w.top
    files := entries
    fileTrigrams := s.1
    postings := normalizePostings s.2
    noIgnore := noIgnore }

/-! ## What the tree prescribes -/

/-- Whether a walked file has metadata that the index can store. -/
def offered
    (T : Tree)
    (root rel : Bytes) : Bool :=
  (T.stat (walkedPath root rel)).any (fun node => node.modified.sinceEpoch.isSome)

/-- The stamps of the files that the tree offers to the index. -/
def Tree.active
    (T : Tree)
    (root : Text)
    (noIgnore : Bool) : Set FileStamp :=
  {a | utf8 a.1 ∈ T.walk noIgnore ∧
    ∃ node, T.stat (walkedPath (utf8 root) (utf8 a.1)) = some node ∧
      node.modified.sinceEpoch = some a.2.1 ∧ node.len = a.2.2}

/-- The files of a tree and the lines on which extraction finds each trigram. -/
def Tree.catalog
    (T : Tree)
    (root : Text)
    (noIgnore : Bool) : Catalog where
  active := T.active root noIgnore
  posted t := {a | ∃ s ∈ T.active root noIgnore,
    s.1 = a.1 ∧ (t, a.2) ∈ pathHits T root a.1}

/-! ## The entries of a tree -/

theorem canonicalRootOf_eq_ok
    {T : Tree}
    {root : Text}
    (h : canonicalRootOf T = .ok root) :
    T.canonical = some (utf8 root) := by
  unfold canonicalRootOf at h
  cases hc : T.canonical with
  | none =>
      rw [hc] at h
      cases h
  | some c =>
      rw [hc] at h
      simp only at h
      cases hu : fromUtf8 c with
      | none =>
          rw [hu] at h
          cases h
      | some t =>
          rw [hu] at h
          cases h
          rw [utf8_of_fromUtf8 hu]

theorem canonicalRootOf_of_canonical
    {T : Tree}
    {root : Text}
    (h : T.canonical = some (utf8 root)) :
    canonicalRootOf T = .ok root := by
  unfold canonicalRootOf
  rw [h]
  simp

/-- The canonical root is not the empty path. -/
theorem canonical_ne_nil
    {T : Tree}
    {root : Text}
    (h : T.canonical = some (utf8 root)) :
    utf8 root ≠ [] := by
  intro hnil
  have := T.canonical_absolute _ h
  rw [hnil] at this
  cases this

/-- A walked path is made relative exactly when it is UTF-8. -/
theorem relativizeEntry_walkedPath
    {T : Tree}
    {root : Text}
    {m : Bool}
    {rel : Bytes}
    {path : Text}
    (hroot : T.canonical = some (utf8 root))
    (hrel : rel ∈ T.walk m) :
    relativizeEntry (walkedPath (utf8 root) rel) (utf8 root) = .ok path ↔
      utf8 path = rel := by
  unfold relativizeEntry
  rw [stripPrefix_walkedPath (canonical_ne_nil hroot) (T.walk_relative m rel hrel)]
  simp only
  cases hu : fromUtf8 rel with
  | none =>
      constructor
      · intro h
        cases h
      · rintro rfl
        rw [fromUtf8_utf8] at hu
        cases hu
  | some t =>
      have ht := utf8_of_fromUtf8 hu
      constructor
      · intro h
        cases h
        exact ht
      · intro h
        rw [utf8_injective (h.trans ht.symm)]

theorem toFileEntry_eq_ok
    {root : Bytes}
    {w : WalkedEntry}
    {e : FileEntry} :
    toFileEntry root w = .ok e ↔
      relativizeEntry w.path root = .ok e.path ∧ e.mtimeNs = w.mtimeNs ∧
        e.size = w.size ∧ e.deleted = false := by
  unfold toFileEntry
  cases relativizeEntry w.path root with
  | error err => simp [Except.map]
  | ok p =>
      obtain ⟨path, mtime, size, deleted⟩ := e
      simp only [Except.map, Except.ok.injEq, FileEntry.mk.injEq]
      constructor
      · rintro ⟨rfl, rfl, rfl, rfl⟩
        exact ⟨rfl, rfl, rfl, rfl⟩
      · rintro ⟨rfl, rfl, rfl, rfl⟩
        exact ⟨rfl, rfl, rfl, rfl⟩

theorem mem_collectFileEntries
    {T : Tree}
    {root : Bytes}
    {walked : List Bytes}
    {x : WalkedEntry} :
    x ∈ collectFileEntries T root walked ↔
      ∃ rel ∈ walked, ∃ node, T.stat (walkedPath root rel) = some node ∧
        node.modified.sinceEpoch = some x.mtimeNs ∧
        x.path = walkedPath root rel ∧ x.size = node.len := by
  unfold collectFileEntries
  rw [List.mem_filterMap]
  constructor
  · rintro ⟨rel, hrel, h⟩
    obtain ⟨node, hnode, h⟩ := Option.bind_eq_some_iff.mp h
    obtain ⟨ns, hns, rfl⟩ := Option.map_eq_some_iff.mp h
    exact ⟨rel, hrel, node, hnode, hns, rfl, rfl⟩
  · rintro ⟨rel, hrel, node, hnode, hns, hpath, hsize⟩
    obtain ⟨path, ns, size⟩ := x
    simp only at hns hpath hsize
    subst hpath hsize
    exact ⟨rel, hrel, by simp [hnode, hns]⟩

section Entries

variable {T : Tree} {root : Text} {m : Bool} {w : WalkRun T m}
  {entries : List FileEntry}

/-- The entries of a tree carry exactly the stamps that the tree prescribes. -/
theorem mem_currentEntries_stamp
    (hroot : T.canonical = some (utf8 root))
    (h : currentEntries T root w.full = .ok entries)
    {a : FileStamp} :
    (∃ e ∈ entries, a = e.stamp) ↔ a ∈ T.active root m := by
  unfold currentEntries at h
  constructor
  · rintro ⟨e, he, rfl⟩
    obtain ⟨x, hx, hxe⟩ := exists_mem_of_mapM h he
    obtain ⟨hrel, hmtime, hsize, -⟩ := toFileEntry_eq_ok.mp hxe
    obtain ⟨rel, hwalk, node, hnode, hns, hpath, hlen⟩ :=
      mem_collectFileEntries.mp hx
    rw [w.mem_full] at hwalk
    rw [hpath, relativizeEntry_walkedPath hroot hwalk] at hrel
    refine ⟨?_, node, ?_, ?_, ?_⟩
    · rw [← hrel] at hwalk
      exact hwalk
    · rw [← hrel] at hnode
      exact hnode
    · rw [← hmtime] at hns
      exact hns
    · exact hlen.symm.trans hsize.symm
  · rintro ⟨hwalk, node, hnode, hns, hlen⟩
    have hx : (⟨walkedPath (utf8 root) (utf8 a.1), a.2.1, a.2.2⟩ : WalkedEntry) ∈
        collectFileEntries T (utf8 root) w.full := by
      rw [mem_collectFileEntries]
      exact ⟨utf8 a.1, w.mem_full.mpr hwalk, node, hnode, hns, rfl, hlen.symm⟩
    obtain ⟨e, he, hxe⟩ := exists_result_of_mapM h hx
    obtain ⟨hrel, hmtime, hsize, -⟩ := toFileEntry_eq_ok.mp hxe
    rw [relativizeEntry_walkedPath hroot hwalk] at hrel
    refine ⟨e, he, ?_⟩
    obtain ⟨p, ns, size⟩ := a
    simp only [FileEntry.stamp, Prod.mk.injEq]
    exact ⟨(utf8_injective hrel).symm, hmtime.symm, hsize.symm⟩

theorem currentEntries_not_deleted
    (h : currentEntries T root w.full = .ok entries)
    {e : FileEntry}
    (he : e ∈ entries) :
    e.deleted = false := by
  obtain ⟨x, -, hxe⟩ := exists_mem_of_mapM h he
  exact (toFileEntry_eq_ok.mp hxe).2.2.2

/-- The entries follow the walk, file by file. -/
theorem map_path_currentEntries
    (hroot : T.canonical = some (utf8 root))
    (h : currentEntries T root w.full = .ok entries) :
    entries.map (fun e => utf8 e.path) = w.full.filter (offered T (utf8 root)) := by
  have hwalked : ∀ (walked : List Bytes) (es : List FileEntry),
      (∀ rel ∈ walked, rel ∈ T.walk m) →
      List.Forall₂ (fun x e => toFileEntry (utf8 root) x = .ok e)
        (collectFileEntries T (utf8 root) walked) es →
      es.map (fun e => utf8 e.path) = walked.filter (offered T (utf8 root)) := by
    intro walked
    induction walked with
    | nil =>
        intro es _ hall
        cases hall
        rfl
    | cons rel walked ih =>
        intro es hwalk hall
        have hrest : ∀ r ∈ walked, r ∈ T.walk m :=
          fun r hr => hwalk r (List.mem_cons_of_mem _ hr)
        unfold collectFileEntries at hall
        rw [List.filterMap_cons] at hall
        split at hall
        · next hnone =>
          have hnot : offered T (utf8 root) rel = false := by
            unfold offered
            rw [Option.any_eq_false]
            intro node hnode
            rw [hnode, Option.bind_some, Option.map_eq_none_iff] at hnone
            simp [hnone]
          rw [List.filter_cons_of_neg (by simp [hnot])]
          exact ih es hrest hall
        · next x hx =>
          obtain ⟨node, hnode, hx⟩ := Option.bind_eq_some_iff.mp hx
          obtain ⟨ns, hns, rfl⟩ := Option.map_eq_some_iff.mp hx
          obtain ⟨e, es', he, hes', rfl⟩ := List.forall₂_cons_left_iff.mp hall
          have hrel := (toFileEntry_eq_ok.mp he).1
          rw [relativizeEntry_walkedPath hroot (hwalk rel (by simp))] at hrel
          have hoffered : offered T (utf8 root) rel = true := by
            unfold offered
            rw [hnode]
            simp [hns]
          rw [List.filter_cons_of_pos hoffered, List.map_cons, hrel, ih es' hrest hes']
  exact hwalked w.full entries (fun rel hrel => w.mem_full.mp hrel) (mapM_eq_ok_iff.mp h)

/-- Walked files are listed once. -/
theorem nodup_currentEntries_path
    (hroot : T.canonical = some (utf8 root))
    (h : currentEntries T root w.full = .ok entries) :
    (entries.map FileEntry.path).Nodup := by
  have hnodup : ((entries.map FileEntry.path).map utf8).Nodup := by
    rw [List.map_map]
    change (entries.map (fun e => utf8 e.path)).Nodup
    rw [map_path_currentEntries hroot h]
    exact w.nodup_full.filter _
  exact hnodup.of_map utf8

/-- There are as many entries as files that the tree offers. -/
theorem length_currentEntries
    (hroot : T.canonical = some (utf8 root))
    (h : currentEntries T root w.full = .ok entries) :
    entries.length = (T.walk m).countP (offered T (utf8 root)) := by
  have hlen := congrArg List.length (map_path_currentEntries hroot h)
  rw [List.length_map, ← List.countP_eq_length_filter] at hlen
  rw [hlen, w.full_perm.countP_eq]

/-- Entries are collected in every order of the walk, or in none. -/
theorem exists_currentEntries
    (h : currentEntries T root w.full = .ok entries)
    (w' : WalkRun T m) :
    ∃ entries', currentEntries T root w'.full = .ok entries' := by
  refine exists_mapM (fun x hx => ?_)
  obtain ⟨rel, hrel, hx⟩ := mem_collectFileEntries.mp hx
  have hx' : x ∈ collectFileEntries T (utf8 root) w.full :=
    mem_collectFileEntries.mpr ⟨rel, w.mem_full.mpr (w'.mem_full.mp hrel), hx⟩
  obtain ⟨e, -, he⟩ := exists_result_of_mapM h hx'
  exact ⟨e, he⟩

/-- Entries have paths below the root. -/
theorem currentEntries_path_mem
    (hroot : T.canonical = some (utf8 root))
    (h : currentEntries T root w.full = .ok entries)
    {e : FileEntry}
    (he : e ∈ entries) :
    utf8 e.path ∈ T.walk m := by
  have hmem : utf8 e.path ∈ entries.map (fun e => utf8 e.path) :=
    List.mem_map_of_mem he
  rw [map_path_currentEntries hroot h] at hmem
  exact w.mem_full.mp (List.mem_of_mem_filter hmem)

theorem activeEntries_eq_self
    {files : List FileEntry}
    (h : ∀ e ∈ files, e.deleted = false) :
    activeEntries files = files := by
  unfold activeEntries
  rw [List.filter_eq_self]
  intro e he
  simp [h e he]

end Entries

/-! ## Filling the posting map -/

/-- Numbering the files in order fills the slots one after the other. -/
theorem foldl_assemble
    {rest done : List FileTrigramHits}
    {postings : Postings}
    (hbound : done.length + rest.length ≤ 2 ^ 32)
    (h : Mirrors (done ++ List.replicate rest.length []) postings) :
    ((numberHits rest done.length).foldl assemble
        (done ++ List.replicate rest.length [], postings)).1 = done ++ rest ∧
      Mirrors (done ++ rest)
        ((numberHits rest done.length).foldl assemble
          (done ++ List.replicate rest.length [], postings)).2 := by
  induction rest generalizing done postings with
  | nil =>
      exact ⟨rfl, h⟩
  | cons hits rest ih =>
      simp only [List.length_cons] at hbound
      have hlt : done.length < 2 ^ 32 := by omega
      have hslot : (done ++ List.replicate (hits :: rest).length [])[done.length]? =
          some [] := by
        rw [List.getElem?_append_right le_rfl]
        simp
      have hset : (done ++ List.replicate (hits :: rest).length []).set done.length hits =
          (done ++ [hits]) ++ List.replicate rest.length [] := by
        rw [List.set_append_right _ _ le_rfl]
        simp [List.replicate_succ]
      have hmirrors : Mirrors
          ((done ++ List.replicate (hits :: rest).length []).set done.length hits)
          (addFilePostings postings (UInt32.ofNat done.length) hits []).1 :=
        mirrors_addFilePostings hits [] hlt hslot h
      rw [hset] at hmirrors
      have hlen : (done ++ [hits]).length = done.length + 1 := by simp
      have hrec := ih (by rw [hlen]; omega) hmirrors
      rw [hlen, List.append_assoc, List.singleton_append] at hrec
      have hstep : assemble (done ++ List.replicate (hits :: rest).length [], postings)
          (UInt32.ofNat done.length, hits) =
          (done ++ hits :: List.replicate rest.length [],
            (addFilePostings postings (UInt32.ofNat done.length) hits []).1) := by
        unfold assemble
        rw [fileId_toNat hlt, hset]
        simp [addFilePostings]
      have hnum : numberHits (hits :: rest) done.length =
          (UInt32.ofNat done.length, hits) :: numberHits rest (done.length + 1) := rfl
      rw [hnum, List.foldl_cons, hstep]
      simpa using hrec

/-- The filled map is one long sequence of pushes. -/
theorem foldl_assemble_snd
    (fs : List (UInt32 × FileTrigramHits))
    (s : List FileTrigramHits × Postings) :
    (fs.foldl assemble s).2 =
      s.2.pushAll (fs.flatMap (fun f => filePostings f.1 f.2)) := by
  induction fs generalizing s with
  | nil => rfl
  | cons f fs ih =>
      rw [List.foldl_cons, ih, List.flatMap_cons]
      unfold assemble MultiMap.pushAll
      rw [List.foldl_append]

theorem length_foldl_assemble
    (fs : List (UInt32 × FileTrigramHits))
    (s : List FileTrigramHits × Postings) :
    (fs.foldl assemble s).1.length = s.1.length := by
  induction fs generalizing s with
  | nil => rfl
  | cons f fs ih =>
      rw [List.foldl_cons, ih]
      simp [assemble]

/-! ## The catalog of an index, row by row -/

/-- Under the invariant, an index posts what its per-file trigrams hold. -/
theorem RepInv.mem_posted
    {idx : TrigramIndex}
    (h : RepInv idx)
    {t : Trigram}
    {a : Text × UInt32} :
    a ∈ idx.catalog.posted t ↔
      ∃ (f : Nat) (e : FileEntry) (hits : FileTrigramHits),
        idx.files[f]? = some e ∧ e.deleted = false ∧
        idx.fileTrigrams[f]? = some hits ∧ e.path = a.1 ∧ (t, a.2) ∈ hits := by
  obtain ⟨path, n⟩ := a
  constructor
  · rintro ⟨p, hp, e, he, hdel, heq⟩
    obtain ⟨hits, hhits, hmem⟩ := (h.mirrors t p).mp hp
    obtain ⟨rfl, rfl⟩ := Prod.mk.inj heq
    exact ⟨_, e, hits, he, hdel, hhits, rfl, hmem⟩
  · rintro ⟨f, e, hits, he, hdel, hhits, hpath, hmem⟩
    obtain ⟨p, hp, rfl, rfl⟩ := (h.mirror f hits hhits t n).mp hmem
    exact ⟨p, hp, e, he, hdel, by rw [hpath]⟩

/-! ## The build -/

section Build

variable {digest : Bytes → UInt64} {T : Tree} {m : Bool} {w : WalkRun T m}
  {idx : TrigramIndex}

/-- The parts of a successful build. -/
theorem buildWithOptions_eq_ok
    (h : buildWithOptions digest T m w = .ok idx) :
    T.canonical = some (utf8 idx.canonicalRoot) ∧
      currentEntries T idx.canonicalRoot w.full = .ok idx.files ∧
      idx.treeFingerprint =
        computeTreeFingerprint digest T (utf8 idx.canonicalRoot) w.top ∧
      idx.noIgnore = m ∧
      ∃ s, s = (numberHits
          (idx.files.map (fun e => pathHits T idx.canonicalRoot e.path)) 0).foldl
            assemble (List.replicate idx.files.length [], ∅) ∧
        idx.fileTrigrams = s.1 ∧ idx.postings = normalizePostings s.2 := by
  unfold buildWithOptions at h
  obtain ⟨root, hroot, h⟩ := bind_eq_ok_iff.mp h
  obtain ⟨entries, hentries, h⟩ := bind_eq_ok_iff.mp h
  cases h
  exact ⟨canonicalRootOf_eq_ok hroot, hentries, rfl, rfl, _, rfl, rfl, rfl⟩

/-- A build succeeds when the entries of the tree can be collected. -/
theorem exists_build
    {root : Text}
    {entries : List FileEntry}
    (digest : Bytes → UInt64)
    (hroot : T.canonical = some (utf8 root))
    (h : currentEntries T root w.full = .ok entries) :
    ∃ idx, buildWithOptions digest T m w = .ok idx ∧ idx.canonicalRoot = root :=
  ⟨_, bind_eq_ok_iff.mpr ⟨root, canonicalRootOf_of_canonical hroot,
    bind_eq_ok_iff.mpr ⟨entries, h, rfl⟩⟩, rfl⟩

/-- A build lists exactly the files that the tree prescribes. -/
theorem build_active
    (h : buildWithOptions digest T m w = .ok idx) :
    idx.catalog.active = T.active idx.canonicalRoot m := by
  obtain ⟨hroot, hentries, -⟩ := buildWithOptions_eq_ok h
  ext a
  rw [← mem_currentEntries_stamp hroot hentries]
  simp only [TrigramIndex.catalog, Set.mem_ofPred_eq]
  rw [activeEntries_eq_self (fun e he => currentEntries_not_deleted hentries he)]

theorem build_activeNodup
    (h : buildWithOptions digest T m w = .ok idx) :
    ((activeEntries idx.files).map FileEntry.path).Nodup := by
  obtain ⟨hroot, hentries, -⟩ := buildWithOptions_eq_ok h
  rw [activeEntries_eq_self (fun e he => currentEntries_not_deleted hentries he)]
  exact nodup_currentEntries_path hroot hentries

/-- With at most `2 ^ 32` files, a build keeps the extracted trigrams of each. -/
theorem build_fileTrigrams
    (h : buildWithOptions digest T m w = .ok idx)
    (hbound : idx.files.length ≤ 2 ^ 32) :
    idx.fileTrigrams =
        idx.files.map (fun e => pathHits T idx.canonicalRoot e.path) ∧
      Mirrors idx.fileTrigrams idx.postings := by
  obtain ⟨-, -, -, -, s, hs, htri, hpost⟩ := buildWithOptions_eq_ok h
  have hempty : Mirrors ([] ++ List.replicate
      (idx.files.map (fun e => pathHits T idx.canonicalRoot e.path)).length []) ∅ := by
    intro t p
    rw [MultiMap.get_empty, List.nil_append]
    constructor
    · intro hmem
      cases hmem
    · rintro ⟨hits, hhits, hmem⟩
      rw [List.eq_of_mem_replicate (List.mem_of_getElem? hhits)] at hmem
      cases hmem
  have hlen : ([] : List FileTrigramHits).length +
      (idx.files.map (fun e => pathHits T idx.canonicalRoot e.path)).length ≤ 2 ^ 32 := by
    rw [List.length_nil, List.length_map, Nat.zero_add]
    exact hbound
  have hfold := foldl_assemble hlen hempty
  simp only [List.length_map, List.nil_append, List.length_nil] at hfold
  rw [← hs] at hfold
  rw [htri, hpost]
  refine ⟨hfold.1, ?_⟩
  rw [hfold.1]
  intro t p
  rw [mem_get_normalizePostings]
  exact hfold.2 t p

/-- A build of at most `2 ^ 32` files satisfies the representation invariant. -/
theorem build_repInv
    (h : buildWithOptions digest T m w = .ok idx)
    (hbound : idx.files.length ≤ 2 ^ 32) :
    RepInv idx := by
  obtain ⟨-, hentries, -, -, s, hs, -, hpost⟩ := buildWithOptions_eq_ok h
  obtain ⟨htri, hmirrors⟩ := build_fileTrigrams h hbound
  refine repInv_of_mirrors hbound ?_ hmirrors ?_ ?_ (build_activeNodup h)
  · rw [htri, List.length_map]
  · rw [hpost]
    apply tidyOutside_normalizePostings
    intro t l hl
    rw [hs, foldl_assemble_snd] at hl
    exact MultiMap.ne_nil_of_lookup_pushAll_empty hl
  · intro f e hits he hdel _
    rw [currentEntries_not_deleted hentries (List.mem_of_getElem? he)] at hdel
    cases hdel

/-- A build of at most `2 ^ 32` files has the catalog of its tree. -/
theorem build_catalog
    (h : buildWithOptions digest T m w = .ok idx)
    (hbound : idx.files.length ≤ 2 ^ 32) :
    idx.catalog = T.catalog idx.canonicalRoot m := by
  obtain ⟨hroot, hentries, -⟩ := buildWithOptions_eq_ok h
  have hinv := build_repInv h hbound
  have htri := (build_fileTrigrams h hbound).1
  refine Catalog.ext (build_active h) ?_
  funext t
  ext ⟨path, n⟩
  rw [hinv.mem_posted]
  constructor
  · rintro ⟨f, e, hits, he, -, hhits, rfl, hmem⟩
    rw [htri, List.getElem?_map, he, Option.map_some] at hhits
    cases hhits
    refine ⟨e.stamp, ?_, rfl, hmem⟩
    rw [← mem_currentEntries_stamp hroot hentries]
    exact ⟨e, List.mem_of_getElem? he, rfl⟩
  · rintro ⟨st, hst, hpath, hmem⟩
    rw [← mem_currentEntries_stamp hroot hentries] at hst
    obtain ⟨e, he, rfl⟩ := hst
    obtain ⟨f, hf⟩ := List.getElem?_of_mem he
    refine ⟨f, e, pathHits T idx.canonicalRoot e.path, hf,
      currentEntries_not_deleted hentries he, ?_, hpath, ?_⟩
    · rw [htri, List.getElem?_map, hf, Option.map_some]
    · have hp : e.path = path := hpath
      rw [hp]
      exact hmem

end Build

end Index
end TensorGrep
