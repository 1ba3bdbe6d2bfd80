import TensorGrep.Index.Maintenance
import TensorGrep.Index.FlatTree

/-!
# Staleness of an index

`stalenessReason` decides whether an index still describes its tree: it
compares the mode, looks up every active entry, scans the walk for files
without an entry and compares the fingerprint.  It does not treat metadata as
the build does.  A file whose time lies before the epoch is skipped by the
build, but counts as a file for the scan; a root that is itself a regular file
is stored under the empty path, but looked up with a trailing slash.

`Indexable` is the condition under which the two agree.  An index that has just
been built or rebuilt is not stale exactly when its tree is indexable.
-/

namespace TensorGrep
namespace Index

open Kernel

/-- Why an index is stale. -/
inductive StaleReason where
  | modeChanged (built requested : Bool)
  | fileModified (path : Bytes)
  | fileSizeChanged (path : Bytes)
  | fileDeleted (path : Bytes)
  | newFile (path : Bytes)
  | fingerprintChanged
deriving DecidableEq

/-- A Boolean as it is displayed. -/
def displayBool (b : Bool) : Bytes :=
  utf8 (if b then "true".toList else "false".toList)

/-- The text of a reason; paths are displayed lossily. -/
def StaleReason.message : StaleReason → Bytes
  | modeChanged built requested =>
      utf8 "no_ignore mode changed: index built with no_ignore=".toList ++
        displayBool built ++ utf8 ", query requested no_ignore=".toList ++
        displayBool requested
  | fileModified path => utf8 "file modified: ".toList ++ toStringLossy path
  | fileSizeChanged path => utf8 "file size changed: ".toList ++ toStringLossy path
  | fileDeleted path => utf8 "file deleted: ".toList ++ toStringLossy path
  | newFile path => utf8 "new file: ".toList ++ toStringLossy path
  | fingerprintChanged =>
      utf8 ("tree fingerprint changed (representative top-level identity " ++
        "mismatch)").toList

/-- The check of one active entry. -/
def entryStaleness
    (T : Tree)
    (idx : TrigramIndex)
    (e : FileEntry) : Option StaleReason :=
  match T.stat (idx.derefPath e.path) with
  | none => some (.fileDeleted (idx.derefPath e.path))
  | some node =>
      -- an unusable time counts as the epoch here
      if node.modified.sinceEpoch.getD 0 ≠ e.mtimeNs then
        some (.fileModified (idx.derefPath e.path))
      else if node.len ≠ e.size then
        some (.fileSizeChanged (idx.derefPath e.path))
      else none

/-- The check of one walked file. -/
def newFileStaleness
    (idx : TrigramIndex)
    (file : Bytes) : Option StaleReason :=
  match stripPrefix file (utf8 idx.canonicalRoot) with
  | none => none
  | some rel =>
      if (activeEntries idx.files).any (fun e => utf8 e.path = rel) then none
      else some (.newFile file)

/-- `Path::is_dir`. -/
def isDirAt
    (T : Tree)
    (path : Bytes) : Bool :=
  (T.stat path).any FsNode.isDir

/-- `TrigramIndex::staleness_reason`; past the first check the mode of the index is
the one of the query. -/
def stalenessReason
    (digest : Bytes → UInt64)
    (T : Tree)
    (idx : TrigramIndex)
    (noIgnore : Bool)
    (w : WalkRun T noIgnore) : Option StaleReason :=
  if idx.noIgnore ≠ noIgnore then some (.modeChanged idx.noIgnore noIgnore)
  else
    (((activeEntries idx.files).findSome? (entryStaleness T idx)).or
      (if isDirAt T (utf8 idx.canonicalRoot) then
        (w.full.map (walkedPath (utf8 idx.canonicalRoot))).findSome?
          (newFileStaleness idx)
      else none)).or
      (if idx.treeFingerprint ≠
          computeTreeFingerprint digest T (utf8 idx.canonicalRoot) w.top then
        some .fingerprintChanged
      else none)

/-- `TrigramIndex::is_stale`. -/
def isStale
    (digest : Bytes → UInt64)
    (T : Tree)
    (idx : TrigramIndex)
    (noIgnore : Bool)
    (w : WalkRun T noIgnore) : Bool :=
  (stalenessReason digest T idx noIgnore w).isSome

/-! ## When an index is not stale -/

/-- What is on disk under the path of an entry still has its time and size. -/
theorem entryStaleness_eq_none_iff
    {T : Tree}
    {idx : TrigramIndex}
    {e : FileEntry} :
    entryStaleness T idx e = none ↔
      ∃ node, T.stat (idx.derefPath e.path) = some node ∧
        node.modified.sinceEpoch.getD 0 = e.mtimeNs ∧ node.len = e.size := by
  rw [entryStaleness]
  cases hstat : T.stat (idx.derefPath e.path) with
  | none => simp
  | some node =>
      simp only [ne_eq, ite_not, Option.some.injEq, exists_eq_left']
      split_ifs with htime hsize
      · exact iff_of_true rfl ⟨htime, hsize⟩
      · exact iff_of_false nofun (fun h => hsize h.2)
      · exact iff_of_false nofun (fun h => htime h.1)

section NotStale

variable {digest : Bytes → UInt64} {T : Tree} {idx : TrigramIndex} {m : Bool}
  {w : WalkRun T m}

/-- A walked file is not new when its path is active. -/
theorem newFileStaleness_walkedPath
    (hroot : T.canonical = some (utf8 idx.canonicalRoot))
    {rel : Bytes}
    (hrel : rel ∈ T.walk m) :
    newFileStaleness idx (walkedPath (utf8 idx.canonicalRoot) rel) = none ↔
      ∃ e ∈ activeEntries idx.files, utf8 e.path = rel := by
  rw [newFileStaleness,
    stripPrefix_walkedPath (canonical_ne_nil hroot) (T.walk_relative m rel hrel)]
  simp

/-- The checks that an index passes when it is not stale. -/
theorem stalenessReason_eq_none_iff
    (hroot : T.canonical = some (utf8 idx.canonicalRoot)) :
    stalenessReason digest T idx m w = none ↔
      idx.noIgnore = m ∧
      (∀ e ∈ activeEntries idx.files, entryStaleness T idx e = none) ∧
      (isDirAt T (utf8 idx.canonicalRoot) = true → ∀ rel ∈ T.walk m,
        ∃ e ∈ activeEntries idx.files, utf8 e.path = rel) ∧
      idx.treeFingerprint =
        computeTreeFingerprint digest T (utf8 idx.canonicalRoot) w.top := by
  have hscan : (w.full.map (walkedPath (utf8 idx.canonicalRoot))).findSome?
      (newFileStaleness idx) = none ↔
      ∀ rel ∈ T.walk m, ∃ e ∈ activeEntries idx.files, utf8 e.path = rel := by
    rw [List.findSome?_eq_none_iff, List.forall_mem_map]
    constructor
    · intro h rel hrel
      exact (newFileStaleness_walkedPath hroot hrel).mp (h rel (w.mem_full.mpr hrel))
    · intro h rel hrel
      have hwalk := w.mem_full.mp hrel
      exact (newFileStaleness_walkedPath hroot hwalk).mpr (h rel hwalk)
  rw [stalenessReason]
  by_cases hmode : idx.noIgnore = m
  · rw [if_neg (not_not.mpr hmode), Option.or_eq_none_iff, Option.or_eq_none_iff,
      List.findSome?_eq_none_iff]
    simp only [hmode, true_and, and_assoc, ite_eq_right_iff, ite_eq_left_iff, hscan, ne_eq,
      ite_not, reduceCtorEq, imp_false, not_not]
  · simp [hmode]

/-! ## After a build or a rebuild -/

/-- The trees that the build and the staleness check see alike: below a directory
every walked file can be indexed, and a root that is a regular file is left out. -/
structure Indexable
    (T : Tree)
    (root : Bytes)
    (m : Bool) : Prop where
  below_dir : isDirAt T root = true → ∀ rel ∈ T.walk m, offered T root rel = true
  not_root : isDirAt T root = false → ∀ rel ∈ T.walk m, offered T root rel = false

theorem offered_iff_active
    {root : Text}
    {path : Text}
    (hwalk : utf8 path ∈ T.walk m) :
    offered T (utf8 root) (utf8 path) = true ↔
      ∃ a ∈ T.active root m, a.1 = path := by
  rw [offered, Option.any_eq_true]
  constructor
  · rintro ⟨node, hnode, hsome⟩
    obtain ⟨ns, hns⟩ := Option.isSome_iff_exists.mp hsome
    exact ⟨(path, ns, node.len), ⟨hwalk, node, hnode, hns, rfl⟩, rfl⟩
  · rintro ⟨a, ⟨-, node, hnode, hns, -⟩, rfl⟩
    exact ⟨node, hnode, by rw [hns]; rfl⟩

/-- Where the entries of a tree can be collected, every file it offers has a path. -/
theorem exists_path_of_offered
    {root : Text}
    {current : List FileEntry}
    {w₀ : WalkRun T m}
    (hroot : T.canonical = some (utf8 root))
    (hcurrent : currentEntries T root w₀.full = .ok current)
    {rel : Bytes}
    (hrel : rel ∈ T.walk m)
    (hoff : offered T (utf8 root) rel = true) :
    ∃ path, utf8 path = rel := by
  have hmem : rel ∈ w₀.full.filter (offered T (utf8 root)) :=
    List.mem_filter.mpr ⟨w₀.mem_full.mpr hrel, hoff⟩
  rw [← map_path_currentEntries hroot hcurrent] at hmem
  obtain ⟨e, -, he⟩ := List.mem_map.mp hmem
  exact ⟨e.path, he⟩

/-- An index that lists exactly the files of its tree is not stale exactly when the
tree is indexable. -/
theorem stalenessReason_of_active
    {current : List FileEntry}
    {w₀ : WalkRun T m}
    (hroot : T.canonical = some (utf8 idx.canonicalRoot))
    (hcurrent : currentEntries T idx.canonicalRoot w₀.full = .ok current)
    (hmode : idx.noIgnore = m)
    (hactive : idx.catalog.active = T.active idx.canonicalRoot m)
    (hprint : idx.treeFingerprint =
      computeTreeFingerprint digest T (utf8 idx.canonicalRoot) w.top) :
    stalenessReason digest T idx m w = none ↔
      Indexable T (utf8 idx.canonicalRoot) m := by
  have hstamp : ∀ e ∈ activeEntries idx.files,
      e.stamp ∈ T.active idx.canonicalRoot m := by
    intro e he
    rw [← hactive]
    exact ⟨e, he, rfl⟩
  have hlisted : ∀ rel ∈ T.walk m, offered T (utf8 idx.canonicalRoot) rel = true →
      ∃ e ∈ activeEntries idx.files, utf8 e.path = rel := by
    intro rel hrel hoff
    obtain ⟨path, rfl⟩ := exists_path_of_offered hroot hcurrent hrel hoff
    obtain ⟨a, ha, rfl⟩ := (offered_iff_active hrel).mp hoff
    rw [← hactive] at ha
    obtain ⟨e, he, rfl⟩ := ha
    exact ⟨e, he, rfl⟩
  rw [stalenessReason_eq_none_iff hroot]
  constructor
  · rintro ⟨-, hentries, hnew, -⟩
    refine ⟨?_, ?_⟩
    · intro hdir rel hrel
      obtain ⟨e, he, rfl⟩ := hnew hdir rel hrel
      exact (offered_iff_active hrel).mpr ⟨e.stamp, hstamp e he, rfl⟩
    · intro hdir rel hrel
      by_contra hoff
      rw [Bool.not_eq_false] at hoff
      obtain ⟨e, he, rfl⟩ := hlisted rel hrel hoff
      obtain ⟨node, hnode, -, -⟩ := entryStaleness_eq_none_iff.mp (hentries e he)
      cases hstat : T.stat (utf8 idx.canonicalRoot) with
      | none =>
          rw [T.walk_of_missing _ m hroot hstat] at hrel
          cases hrel
      | some rootNode =>
          cases rootNode with
          | dir t n => simp [isDirAt, hstat, FsNode.isDir] at hdir
          | file f =>
              have hnil := T.walk_of_file _ f m hroot hstat _ hrel
              rw [TrigramIndex.derefPath, hnil, T.stat_file_slash _ f hroot hstat] at hnode
              cases hnode
  · rintro ⟨hdir, hfile⟩
    refine ⟨hmode, ?_, ?_, hprint⟩
    · intro e he
      obtain ⟨hwalk, node, hnode, hns, hlen⟩ := hstamp e he
      change utf8 e.path ∈ T.walk m at hwalk
      have hoff : offered T (utf8 idx.canonicalRoot) (utf8 e.path) = true :=
        (offered_iff_active hwalk).mpr ⟨e.stamp, hstamp e he, rfl⟩
      cases hroot' : isDirAt T (utf8 idx.canonicalRoot) with
      | false =>
          rw [hfile hroot' _ hwalk] at hoff
          cases hoff
      | true =>
          obtain ⟨rootNode, hstat, hisdir⟩ := (Option.any_eq_true _ _).mp hroot'
          cases rootNode with
          | file f => cases hisdir
          | dir t n =>
              have hne : utf8 e.path ≠ [] := by
                intro hnil
                refine T.walk_below_dir _ t n m hroot hstat ?_
                rw [← hnil]
                exact hwalk
              change T.stat (walkedPath (utf8 idx.canonicalRoot) (utf8 e.path)) =
                some node at hnode
              rw [walkedPath, if_neg hne] at hnode
              change node.modified.sinceEpoch = some e.mtimeNs at hns
              exact entryStaleness_eq_none_iff.mpr
                ⟨node, hnode, by rw [hns]; rfl, hlen⟩
    · intro hisdir rel hrel
      exact hlisted rel hrel (hdir hisdir rel hrel)

end NotStale

/-! ## Over the lifetime of an index -/

/-- The guard of runs whose loads read back what was saved. -/
def LoadsFit : Option Maintained → MaintenanceOp → Prop
  | some s, .reload => WireBounds s.index
  | _, _ => True

/-- What an index of any size keeps. -/
structure Listed (idx : TrigramIndex) : Prop where
  filesInv : FilesInv idx
  confined : ∀ e ∈ idx.files, Confined e.path
  repInv : idx.files.length ≤ 2 ^ 32 → RepInv idx

section Lifetime

variable {digest : Bytes → UInt64} {T : Tree} {m : Bool} {w : WalkRun T m}

theorem listed_build
    {idx : TrigramIndex}
    (h : buildWithOptions digest T m w = .ok idx) :
    Listed idx := by
  obtain ⟨hroot, hentries, -, -, s, hs, htri, -⟩ := buildWithOptions_eq_ok h
  refine ⟨⟨?_, build_activeNodup h⟩, ?_, build_repInv h⟩
  · rw [htri, hs, length_foldl_assemble, List.length_replicate]
  · intro e he
    exact confined_of_walked (currentEntries_path_mem hroot hentries he)

theorem listed_rebuild
    {idx : TrigramIndex}
    {r : IncrementalUpdateResult}
    (hidx : Listed idx)
    (h : rebuildIncrementalWithOptions digest idx T m w = .ok r) :
    Listed r.index := by
  refine ⟨rebuild_filesInv hidx.filesInv h, ?_, ?_⟩
  · intro e he
    rcases rebuild_path_mem hidx.filesInv h he with ⟨e', he', hpath⟩ | hwalk
    · rw [← hpath]
      exact hidx.confined e' he'
    · exact confined_of_walked hwalk
  · intro hbound
    have hlen := rebuild_length hidx.filesInv h
    exact rebuild_repInv (hidx.repInv (by omega)) h hbound

theorem listed_of_sameIndex
    {idx idx' : TrigramIndex}
    (h : Listed idx)
    (hsame : SameIndex idx idx') :
    Listed idx' := by
  refine ⟨⟨?_, ?_⟩, ?_, ?_⟩
  · rw [hsame.lengths, hsame.files]
    exact h.filesInv.lengths
  · rw [hsame.files]
    exact h.filesInv.activeNodup
  · rw [hsame.files]
    exact h.confined
  · intro hbound
    rw [hsame.files] at hbound
    exact repInv_of_sameIndex (h.repInv hbound) hsame

/-- Every index of a run is ready for the next rebuild. -/
theorem reachable_listed
    {s : Maintained}
    (h : (maintenance digest).Reachable LoadsFit (some s)) :
    Listed s.index := by
  have hinv : ∀ x, some s = some x → Listed x.index := by
    refine StepSystem.Reachable.invariant
      (P := fun o => ∀ x, o = some x → Listed x.index) ?_ ?_ h
    · intro o ho x hx
      subst hx
      cases ho
    · intro o op o' ih hguard hstep x hx
      subst hx
      cases hstep with
      | build hb => exact listed_build hb
      | rebuild hr => exact listed_rebuild (ih _ rfl) hr
      | reload hwrite hread =>
          have hold := ih _ rfl
          have hrep := hold.repInv (le_of_lt hguard.files)
          exact listed_of_sameIndex hold
            (sameIndex_of_reload hrep hold.confined hguard hwrite hread)
      | rehash hsame => exact listed_of_sameIndex (ih _ rfl) (sameIndex_rehash hsame)
  exact hinv s rfl

/-- An index that has just been built, or rebuilt from any index of a run, is not stale
exactly when its tree is indexable. -/
theorem notStale_iff_indexable :
    (∀ (w w' : WalkRun T m) (idx : TrigramIndex),
      buildWithOptions digest T m w = .ok idx →
        (stalenessReason digest T idx m w' = none ↔
          Indexable T (utf8 idx.canonicalRoot) m)) ∧
    (∀ s : Maintained, (maintenance digest).Reachable LoadsFit (some s) →
      ∀ (w w' : WalkRun T m) (r : IncrementalUpdateResult),
        rebuildIncrementalWithOptions digest s.index T m w = .ok r →
          (stalenessReason digest T r.index m w' = none ↔
            Indexable T (utf8 r.index.canonicalRoot) m)) := by
  constructor
  · intro w w' idx h
    obtain ⟨hroot, hentries, hprint, hmode, -⟩ := buildWithOptions_eq_ok h
    refine stalenessReason_of_active hroot hentries hmode (build_active h) ?_
    rw [hprint]
    exact computeTreeFingerprint_eq digest _ w w'
  · intro s hs w w' r h
    obtain ⟨hroot, hprint, hmode, current, hcurrent, -⟩ := rebuild_eq_ok h
    refine stalenessReason_of_active hroot hcurrent hmode
      (rebuild_active (reachable_listed hs).filesInv h) ?_
    rw [hprint]
    exact computeTreeFingerprint_eq digest _ w w'

end Lifetime

theorem indexable_flatTree
    {files : FlatFiles}
    (hnames : FlatNames (files.map Prod.fst))
    (htime : ∀ f ∈ files, f.2.modified.sinceEpoch.isSome)
    (m : Bool) :
    Indexable (flatTree files hnames) (utf8 flatRoot) m := by
  have hdir : isDirAt (flatTree files hnames) (utf8 flatRoot) = true := by
    change ((flatStat files (utf8 flatRoot)).any FsNode.isDir) = true
    rw [flatStat, if_pos rfl]
    rfl
  refine ⟨?_, ?_⟩
  · intro _ rel hrel
    obtain ⟨f, hf, rfl⟩ := List.mem_map.mp hrel
    rw [offered, walkedPath_flatTree hnames hf]
    exact htime f hf
  · intro hnot
    rw [hdir] at hnot
    cases hnot

/-- The index of `fooTree` is not stale, nor is its rebuild against `grownTree`. -/
theorem notStale_fooTree_grownTree :
    ∃ (idx : TrigramIndex) (r : IncrementalUpdateResult),
      stalenessReason (fun _ => 0) fooTree idx false (fooTree.walkRun false) = none ∧
      stalenessReason (fun _ => 0) grownTree r.index true (grownTree.walkRun true) =
        none := by
  obtain ⟨idx, hbuild, hroot, -⟩ :=
    exists_build_flatTree flatNames_fooFiles (fun _ => 0) false
  obtain ⟨r, hrebuild⟩ := exists_rebuild (w := grownTree.walkRun true) (fun _ => 0) idx rfl
    (currentEntries_flatTree flatNames_grownFiles)
  have hreach : (maintenance (fun _ => 0)).Reachable LoadsFit
      (some ⟨fooTree, false, idx⟩) :=
    .next (.start rfl) trivial (.build hbuild)
  have hroot' : utf8 r.index.canonicalRoot = utf8 flatRoot :=
    Option.some.inj (rebuild_eq_ok hrebuild).1.symm
  refine ⟨idx, r, ?_, ?_⟩
  · refine (notStale_iff_indexable.1 _ _ idx hbuild).mpr ?_
    rw [hroot]
    exact indexable_flatTree flatNames_fooFiles (by decide) false
  · refine (notStale_iff_indexable.2 _ hreach _ _ r hrebuild).mpr ?_
    rw [hroot']
    exact indexable_flatTree flatNames_grownFiles (by decide) true

/-- A file last changed one nanosecond before the epoch. -/
def ancientFile : RegularFile where
  modified := { ns := -1, lower := by decide, upper := by decide }
  content := [111, 108, 100, 10]
  readable := true
  bounded := by decide

/-- The index of the directory of `ancientFile` is stale as soon as it is built. -/
theorem ancientFile_isStale :
    ∃ idx, buildWithOptions (fun _ => 0) (oneFileTree ancientFile) false
        ((oneFileTree ancientFile).walkRun false) = .ok idx ∧
      isStale (fun _ => 0) (oneFileTree ancientFile) idx false
        ((oneFileTree ancientFile).walkRun false) = true := by
  obtain ⟨idx, hbuild, hroot, hfiles⟩ :=
    exists_build_flatTree (flatNames_oneFile ancientFile) (fun _ => 0) false
  refine ⟨idx, hbuild, ?_⟩
  have hcanonical : (oneFileTree ancientFile).canonical = some (utf8 idx.canonicalRoot) := by
    rw [hroot]
    rfl
  have hnone : activeEntries idx.files = [] := by
    rw [hfiles]
    rfl
  rw [isStale, Option.isSome_iff_ne_none]
  intro h
  obtain ⟨-, -, hnew, -⟩ := (stalenessReason_eq_none_iff hcanonical).mp h
  obtain ⟨e, he, -⟩ := hnew (by rw [hroot]; decide) (utf8 ['a']) (by simp [oneFileTree, flatTree])
  rw [hnone] at he
  cases he

end Index
end TensorGrep
