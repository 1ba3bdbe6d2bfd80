import TensorGrep.Kernel.StepSystem
import TensorGrep.Index.Rebuild
import TensorGrep.Index.ReaderSafety

/-!
# An index over its lifetime

An index is built once and then maintained: rebuilt incrementally against
later states of the tree, saved and loaded, in any order.  `maintenance` is the
step system of these operations; the tree may change arbitrarily between two
operations, and a guard says which changes a result assumes.

`reachable_refines` is the main result: as long as edits change a file's time
or size and the counts fit in 32 bits, every index that is ever reached
satisfies the representation invariant and has the catalog of its tree, as if
it had just been built.
-/

namespace TensorGrep
namespace Index

open Kernel

/-- An index with the tree and the mode it was last brought up to date with. -/
structure Maintained where
  tree : Tree
  noIgnore : Bool
  index : TrigramIndex

/-- What can be done with an index. -/
inductive MaintenanceOp where
  | build (T : Tree) (noIgnore : Bool) (w : WalkRun T noIgnore)
  | rebuild (T : Tree) (noIgnore : Bool) (w : WalkRun T noIgnore)
  | reload
  | rehash (postings : Postings)

/-- The effect of an operation, when it succeeds. -/
inductive MaintenanceStep (digest : Bytes → UInt64) :
    Option Maintained → MaintenanceOp → Option Maintained → Prop
  /-- The first build. -/
  | build {T : Tree} {m : Bool} {w : WalkRun T m} {idx : TrigramIndex} :
      buildWithOptions digest T m w = .ok idx →
      MaintenanceStep digest none (.build T m w) (some ⟨T, m, idx⟩)
  /-- An incremental rebuild against a later tree. -/
  | rebuild {s : Maintained} {T : Tree} {m : Bool} {w : WalkRun T m}
      {r : IncrementalUpdateResult} :
      rebuildIncrementalWithOptions digest s.index T m w = .ok r →
      MaintenanceStep digest (some s) (.rebuild T m w) (some ⟨T, m, r.index⟩)
  /-- A save followed by a load. -/
  | reload {s : Maintained} {bytes : Bytes} {idx : TrigramIndex} :
      bincodeSerialize s.index = .ok bytes →
      bincodeDeserialize bytes = .ok idx →
      MaintenanceStep digest (some s) .reload (some ⟨s.tree, s.noIgnore, idx⟩)
  /-- The posting map is iterated in no particular order. -/
  | rehash {s : Maintained} {postings : Postings} :
      (∀ t, postings.lookup t = s.index.postings.lookup t) →
      MaintenanceStep digest (some s) (.rehash postings)
        (some ⟨s.tree, s.noIgnore, { s.index with postings := postings }⟩)

/-- The lifetime of an index. -/
def maintenance (digest : Bytes → UInt64) :
    StepSystem (Option Maintained) MaintenanceOp where
  init s := s = none
  step := MaintenanceStep digest

/-- Every regular file that differs between two trees of one root differs in its
time or its size. -/
structure VisibleEdits (T T' : Tree) : Prop where
  sameRoot : T'.canonical = T.canonical
  visible : ∀ path f f', T.stat path = some (.file f) →
    T'.stat path = some (.file f') → f'.modified.ns = f.modified.ns →
    f'.content.length = f.content.length →
    f'.content = f.content ∧ f'.readable = f.readable

/-- The guard of runs whose edits are all visible. -/
def EditsVisible : Option Maintained → MaintenanceOp → Prop
  | some s, .rebuild T _ _ => VisibleEdits s.tree T
  | _, _ => True

/-- The guard of runs whose counts fit in 32 bits: the entries of an index, deleted
ones included, and whatever is saved. -/
def Fits32 : Option Maintained → MaintenanceOp → Prop
  | none, .build T m _ =>
      (T.walk m).countP (offered T (T.canonical.getD [])) ≤ 2 ^ 32
  | some s, .rebuild T m _ =>
      s.index.files.length + newPathCount s.index T (T.canonical.getD []) m ≤ 2 ^ 32
  | some s, .reload => WireBounds s.index
  | _, _ => True

/-- An index is in order and agrees with its tree. -/
structure Refines (s : Maintained) : Prop where
  canonical : s.tree.canonical = some (utf8 s.index.canonicalRoot)
  noIgnore : s.index.noIgnore = s.noIgnore
  collected : ∃ (w : WalkRun s.tree s.noIgnore) (entries : List FileEntry),
    currentEntries s.tree s.index.canonicalRoot w.full = .ok entries
  confined : ∀ e ∈ s.index.files, Confined e.path
  bounded : s.index.files.length ≤ 2 ^ 32
  repInv : RepInv s.index
  catalog : s.index.catalog = s.tree.catalog s.index.canonicalRoot s.noIgnore

/-! ## The steps -/

/-- Paths below the root are confined. -/
theorem confined_of_walked
    {T : Tree}
    {m : Bool}
    {path : Text}
    (h : utf8 path ∈ T.walk m) :
    Confined path := by
  constructor
  · intro hhead
    exact T.walk_relative m _ h
      ((head?_utf8_eq_some_iff (show IsAscii '/' by decide)).mpr hhead)
  · intro hdots
    apply T.walk_confined m _ h
    have hsplit := splitOn_utf8_of_isAscii (show IsAscii '/' by decide) path
    change (utf8 path).splitOn slash = _ at hsplit
    rw [hsplit]
    exact List.mem_map.mpr ⟨['.', '.'], hdots, by decide⟩

/-- The file of a walked path, as extraction opens it, is the one the walk saw. -/
theorem pathHits_eq_of_stamp
    {T T' : Tree}
    {root : Text}
    {m m' : Bool}
    {a : FileStamp}
    (hroot : T.canonical = some (utf8 root))
    (hedit : VisibleEdits T T')
    (h : a ∈ T.active root m)
    (h' : a ∈ T'.active root m') :
    pathHits T' root a.1 = pathHits T root a.1 := by
  have hroot' : T'.canonical = some (utf8 root) := by
    rw [hedit.sameRoot, hroot]
  obtain ⟨hwalk, node, hnode, hns, hlen⟩ := h
  obtain ⟨hwalk', node', hnode', hns', hlen'⟩ := h'
  have hfile := T.walk_isFile _ _ hroot _ hwalk node hnode
  have hfile' := T'.walk_isFile _ _ hroot' _ hwalk' node' hnode'
  cases node with
  | dir => cases hfile
  | file f =>
      cases node' with
      | dir => cases hfile'
      | file f' =>
          unfold pathHits
          by_cases hnil : utf8 a.1 = []
          · unfold walkedPath at hnode hnode'
            rw [if_pos hnil] at hnode hnode'
            rw [hnil, T.stat_file_slash _ f hroot hnode, T'.stat_file_slash _ f' hroot' hnode']
          · unfold walkedPath at hnode hnode'
            rw [if_neg hnil] at hnode hnode'
            have htime := SystemTime.sinceEpoch_inj hns' hns
            have hsize := RegularFile.len_inj (hlen'.trans hlen.symm)
            obtain ⟨hcontent, hreadable⟩ :=
              hedit.visible _ f f' hnode hnode' htime hsize
            rw [hnode, hnode']
            unfold extractOrDefault extractFileTrigrams
            simp [FsNode.read, hcontent, hreadable]

/-- A first build is in order. -/
theorem refines_build
    {digest : Bytes → UInt64}
    {T : Tree}
    {m : Bool}
    {w : WalkRun T m}
    {idx : TrigramIndex}
    (hfits : (T.walk m).countP (offered T (T.canonical.getD [])) ≤ 2 ^ 32)
    (h : buildWithOptions digest T m w = .ok idx) :
    Refines ⟨T, m, idx⟩ := by
  obtain ⟨hroot, hentries, -, hmode, -⟩ := buildWithOptions_eq_ok h
  have hbound : idx.files.length ≤ 2 ^ 32 := by
    rw [length_currentEntries hroot hentries]
    rw [hroot] at hfits
    exact hfits
  exact {
    canonical := hroot
    noIgnore := hmode
    collected := ⟨w, idx.files, hentries⟩
    confined := fun e he => confined_of_walked (currentEntries_path_mem hroot hentries he)
    bounded := hbound
    repInv := build_repInv h hbound
    catalog := build_catalog h hbound }

/-- An incremental rebuild after visible edits is in order. -/
theorem refines_rebuild
    {digest : Bytes → UInt64}
    {s : Maintained}
    {T : Tree}
    {m : Bool}
    {w : WalkRun T m}
    {r : IncrementalUpdateResult}
    (hs : Refines s)
    (hedit : VisibleEdits s.tree T)
    (hfits : s.index.files.length +
      newPathCount s.index T (T.canonical.getD []) m ≤ 2 ^ 32)
    (h : rebuildIncrementalWithOptions digest s.index T m w = .ok r) :
    Refines ⟨T, m, r.index⟩ := by
  obtain ⟨hroot, -, hmode, current, hcurrent, -⟩ := rebuild_eq_ok h
  have hsame : r.index.canonicalRoot = s.index.canonicalRoot := by
    apply utf8_injective
    have := hs.canonical
    rw [← hedit.sameRoot, hroot] at this
    exact Option.some.inj this
  have hbound : r.index.files.length ≤ 2 ^ 32 := by
    rw [rebuild_length hs.repInv.filesInv h]
    rw [hroot] at hfits
    exact hfits
  refine {
    canonical := hroot
    noIgnore := hmode
    collected := ⟨w, current, hcurrent⟩
    confined := ?_
    bounded := hbound
    repInv := rebuild_repInv hs.repInv h hbound
    catalog := Catalog.ext (rebuild_active hs.repInv.filesInv h) ?_ }
  · intro e he
    rcases rebuild_path_mem hs.repInv.filesInv h he with ⟨e', he', hpath⟩ | hwalk
    · rw [← hpath]
      exact hs.confined e' he'
    · exact confined_of_walked hwalk
  · funext t
    ext a
    rw [rebuild_posted hs.repInv h hbound, hs.catalog, hsame]
    constructor
    · rintro ⟨st, hst, hpath, ⟨hold, st', hst', hpath', hmem⟩ | ⟨-, hmem⟩⟩
      · refine ⟨st, hst, hpath, ?_⟩
        have heq := pathHits_eq_of_stamp hs.canonical hedit hold hst
        rw [hpath] at heq
        rw [heq]
        exact hmem
      · exact ⟨st, hst, hpath, hmem⟩
    · rintro ⟨st, hst, hpath, hmem⟩
      refine ⟨st, hst, hpath, ?_⟩
      by_cases hold : st ∈ s.tree.active s.index.canonicalRoot s.noIgnore
      · left
        refine ⟨hold, st, hold, hpath, ?_⟩
        have heq := pathHits_eq_of_stamp hs.canonical hedit hold hst
        rw [hpath] at heq
        rw [← heq]
        exact hmem
      · exact Or.inr ⟨hold, hmem⟩

/-- The part of the invariant that the file format relies on. -/
theorem wireInv_of_repInv
    {idx : TrigramIndex}
    (h : RepInv idx)
    (hconfined : ∀ e ∈ idx.files, Confined e.path) :
    WireInv idx where
  confined := hconfined
  sorted t l hl := (h.sorted t l hl).imp le_of_lt
  inRange := h.inRange
  lengths := h.lengths
  mirror f t n := by
    constructor
    · rintro ⟨hits, hhits, hmem⟩
      exact (h.mirror f hits hhits t n).mp hmem
    · rintro ⟨p, hp, rfl, rfl⟩
      obtain ⟨hits, hhits, hmem⟩ := (h.mirrors t p).mp hp
      exact ⟨hits, hhits, hmem⟩

/-- The invariant does not see how the posting map is stored. -/
theorem repInv_of_sameIndex
    {idx idx' : TrigramIndex}
    (h : RepInv idx)
    (hsame : SameIndex idx idx') :
    RepInv idx' where
  lengths := by rw [hsame.lengths, hsame.files, h.lengths]
  sorted t l hl := h.sorted t l (by rw [← hsame.postings, hl])
  nonempty t l hl := h.nonempty t l (by rw [← hsame.postings, hl])
  inRange t p hp := by
    rw [hsame.files]
    unfold MultiMap.get at hp
    rw [hsame.postings] at hp
    exact h.inRange t p hp
  mirror f hits hhits t n := by
    have hhas : HasHit idx'.fileTrigrams f (t, n) ↔ (t, n) ∈ hits := by
      constructor
      · rintro ⟨hits', hhits', hmem⟩
        rw [hhits] at hhits'
        cases hhits'
        exact hmem
      · intro hmem
        exact ⟨hits, hhits, hmem⟩
    have hwire : HasHit idx.fileTrigrams f (t, n) ↔
        ∃ p ∈ idx.postings.get t, p.fileId.toNat = f ∧ p.line = n := by
      constructor
      · rintro ⟨hits', hhits', hmem⟩
        exact (h.mirror f hits' hhits' t n).mp hmem
      · rintro ⟨p, hp, rfl, rfl⟩
        obtain ⟨hits', hhits', hmem⟩ := (h.mirrors t p).mp hp
        exact ⟨hits', hhits', hmem⟩
    rw [← hhas, hsame.fileTrigrams, hwire]
    unfold MultiMap.get
    rw [hsame.postings]
  tombstones t p hp e he := by
    unfold MultiMap.get at hp
    rw [hsame.postings] at hp
    rw [hsame.files] at he
    exact h.tombstones t p hp e he
  activeNodup := by
    rw [hsame.files]
    exact h.activeNodup

theorem catalog_of_sameIndex
    {idx idx' : TrigramIndex}
    (hsame : SameIndex idx idx') :
    idx'.catalog = idx.catalog := by
  unfold TrigramIndex.catalog MultiMap.get
  simp only [hsame.files, hsame.postings]

theorem refines_of_sameIndex
    {s : Maintained}
    {idx : TrigramIndex}
    (hs : Refines s)
    (hsame : SameIndex s.index idx) :
    Refines ⟨s.tree, s.noIgnore, idx⟩ where
  canonical := by
    simp only
    rw [hsame.canonicalRoot]
    exact hs.canonical
  noIgnore := by
    simp only
    rw [hsame.noIgnore]
    exact hs.noIgnore
  collected := by
    simp only
    rw [hsame.canonicalRoot]
    exact hs.collected
  confined := by
    simp only
    rw [hsame.files]
    exact hs.confined
  bounded := by
    simp only
    rw [hsame.files]
    exact hs.bounded
  repInv := repInv_of_sameIndex hs.repInv hsame
  catalog := by
    simp only
    rw [catalog_of_sameIndex hsame, hsame.canonicalRoot]
    exact hs.catalog

/-- A save and a load within the bounds give the same index. -/
theorem sameIndex_of_reload
    {idx idx' : TrigramIndex}
    {bytes : Bytes}
    (hinv : RepInv idx)
    (hconfined : ∀ e ∈ idx.files, Confined e.path)
    (hbounds : WireBounds idx)
    (hwrite : bincodeSerialize idx = .ok bytes)
    (hread : bincodeDeserialize bytes = .ok idx') :
    SameIndex idx idx' := by
  obtain ⟨bytes', idx'', hwrite', hread', hsame⟩ :=
    roundTrips_of_wireBounds (wireInv_of_repInv hinv hconfined) hbounds
  rw [hwrite] at hwrite'
  cases hwrite'
  rw [hread] at hread'
  cases hread'
  exact hsame

/-- A save and a load within the bounds change nothing that matters. -/
theorem refines_reload
    {s : Maintained}
    {bytes : Bytes}
    {idx : TrigramIndex}
    (hs : Refines s)
    (hbounds : WireBounds s.index)
    (hwrite : bincodeSerialize s.index = .ok bytes)
    (hread : bincodeDeserialize bytes = .ok idx) :
    Refines ⟨s.tree, s.noIgnore, idx⟩ :=
  refines_of_sameIndex hs
    (sameIndex_of_reload hs.repInv hs.confined hbounds hwrite hread)

theorem sameIndex_rehash
    {idx : TrigramIndex}
    {postings : Postings}
    (h : ∀ t, postings.lookup t = idx.postings.lookup t) :
    SameIndex idx { idx with postings := postings } where
  canonicalRoot := rfl
  treeFingerprint := rfl
  noIgnore := rfl
  files := rfl
  postings := h
  lengths := rfl
  fileTrigrams _ _ := Iff.rfl

/-! ## Runs -/

/-- Within 32 bits and under visible edits, every index that is reached is in order. -/
theorem reachable_refines
    {digest : Bytes → UInt64}
    {s : Maintained}
    (h : (maintenance digest).Reachable
      (fun s op => EditsVisible s op ∧ Fits32 s op) (some s)) :
    Refines s := by
  have hinv : ∀ s, (maintenance digest).Reachable
      (fun s op => EditsVisible s op ∧ Fits32 s op) s →
      ∀ x, s = some x → Refines x := by
    intro s hs
    refine StepSystem.Reachable.invariant (P := fun s => ∀ x, s = some x → Refines x)
      ?_ ?_ hs
    · rintro s rfl x hx
      cases hx
    · rintro s op s' ih ⟨hedit, hfits⟩ hstep x rfl
      cases hstep with
      | build hb => exact refines_build hfits hb
      | rebuild hr => exact refines_rebuild (ih _ rfl) hedit hfits hr
      | reload hwrite hread => exact refines_reload (ih _ rfl) hfits hwrite hread
      | rehash hsame => exact refines_of_sameIndex (ih _ rfl) (sameIndex_rehash hsame)
  exact hinv _ h s rfl

/-- An index that is in order agrees with every build of its tree. -/
theorem Refines.eq_build
    {digest : Bytes → UInt64}
    {s : Maintained}
    (h : Refines s)
    (w : WalkRun s.tree s.noIgnore) :
    ∃ b, buildWithOptions digest s.tree s.noIgnore w = .ok b ∧
      s.index.catalog = b.catalog := by
  obtain ⟨w', entries, hentries⟩ := h.collected
  obtain ⟨entries', hentries'⟩ := exists_currentEntries hentries w
  obtain ⟨b, hb, hbroot⟩ := exists_build digest h.canonical hentries'
  refine ⟨b, hb, ?_⟩
  have hbound : b.files.length ≤ 2 ^ 32 := by
    obtain ⟨hroot, hfiles, -⟩ := buildWithOptions_eq_ok hb
    have hsub : b.files.map FileEntry.path ⊆ s.index.files.map FileEntry.path := by
      intro p hp
      obtain ⟨e, he, rfl⟩ := List.mem_map.mp hp
      have hact : e.stamp ∈ s.index.catalog.active := by
        rw [h.catalog]
        change e.stamp ∈ s.tree.active s.index.canonicalRoot s.noIgnore
        rw [← hbroot, ← mem_currentEntries_stamp hroot hfiles]
        exact ⟨e, he, rfl⟩
      obtain ⟨e', he', hstamp⟩ := hact
      exact List.mem_map.mpr ⟨e', (mem_activeEntries.mp he').1,
        (congrArg Prod.fst hstamp).symm⟩
    have hle := (nodup_currentEntries_path hroot hfiles).subperm hsub |>.length_le
    rw [List.length_map, List.length_map] at hle
    exact le_trans hle h.bounded
  rw [h.catalog, build_catalog hb hbound, hbroot]

end Index
end TensorGrep
