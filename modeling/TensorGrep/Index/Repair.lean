import TensorGrep.Index.Staleness

/-!
# Detection and repair

The staleness check reads the content of the sampled top-level files through
the fingerprint; the incremental rebuild decides by time and size alone and
then stores the new fingerprint.  The two agree as long as a rebuild never
reuses a sampled file whose content is no longer the one it was indexed for
(`ReusesExactly`).

`repair_exact` says so over whole runs: a rebuild of an indexable tree is not
stale and posts the current content of every sampled file, and an index that
is not stale posts the current content of every sampled file, unless two
different samples have the same fingerprint.
-/

namespace TensorGrep
namespace Index

open Kernel

/-- The top-level files whose content the fingerprint covers. -/
def sampled
    (T : Tree)
    (m : Bool) : List Bytes :=
  sampledEntries ((T.walk m).filter isTopLevel)

/-- The postings of a path are the trigrams of what lies behind it. -/
def PostsExactly
    (idx : TrigramIndex)
    (T : Tree)
    (path : Text) : Prop :=
  ∀ t n, (path, n) ∈ idx.catalog.posted t ↔
    (t, n) ∈ pathHits T idx.canonicalRoot path

/-- The postings of every sampled file are the trigrams of its content. -/
def SampledPosted
    (T : Tree)
    (idx : TrigramIndex)
    (m : Bool) : Prop :=
  ∀ path, utf8 path ∈ sampled T m → PostsExactly idx T path

/-- A sampled file that a rebuild reuses has the content it was indexed for. -/
def ReusesExactly
    (idx : TrigramIndex)
    (T : Tree)
    (m : Bool) : Prop :=
  ∀ root, T.canonical = some (utf8 root) → ∀ a ∈ T.active root m,
    utf8 a.1 ∈ sampled T m → a ∈ idx.catalog.active →
      ∀ t n, (a.1, n) ∈ idx.catalog.posted t ↔ (t, n) ∈ pathHits T root a.1

/-- What the fingerprint covers of a file. -/
structure FileView where
  len : UInt64
  mtimeNs : Option (BitVec 128)
  bytes : Bytes

/-- The view of a regular file. -/
def FsNode.view (node : FsNode) : Option FileView :=
  if node.isFile then
    some ⟨node.len, node.modified.sinceEpoch, node.read.getD []⟩
  else none

/-- The sampled names with what the fingerprint covers of each. -/
def sampleViews
    (T : Tree)
    (root : Bytes)
    (m : Bool) : List (Bytes × Option FileView) :=
  (sampled T m).map (fun name => (name, (T.stat (joinPath root name)).bind FsNode.view))

/-- Two different samples with one fingerprint. -/
def FingerprintsCollide
    (digest : Bytes → UInt64)
    (T T' : Tree)
    (root : Bytes)
    (m : Bool) : Prop :=
  computeTreeFingerprint digest T root (T.walkRun m).top =
      computeTreeFingerprint digest T' root (T'.walkRun m).top ∧
    sampleViews T root m ≠ sampleViews T' root m

/-! ## What the sample determines -/

section Views

variable {T T' : Tree} {m : Bool}

theorem mem_walk_of_mem_sampled
    {name : Bytes}
    (h : name ∈ sampled T m) :
    name ∈ T.walk m ∧ name ≠ [] := by
  obtain ⟨hwalk, htop⟩ := List.mem_filter.mp (mem_of_mem_sampledEntries h)
  rw [isTopLevel, decide_eq_true_eq] at htop
  exact ⟨hwalk, htop.1⟩

/-- Extraction depends on no more than the view. -/
theorem extractOrDefault_eq_view
    (node : Option FsNode) :
    extractOrDefault node =
      extractContent (((node.bind FsNode.view).map FileView.bytes).getD []) := by
  cases node with
  | none => rfl
  | some node =>
      cases node with
      | dir t n => rfl
      | file f =>
          cases hread : f.readable with
          | true => simp [extractOrDefault, extractFileTrigrams, FsNode.view, FsNode.read,
              FsNode.isFile, hread]
          | false => simp [extractOrDefault, extractFileTrigrams, FsNode.view, FsNode.read,
              FsNode.isFile, hread, extractContent]

theorem pathHits_eq_of_sampleViews
    {root path : Text}
    (hviews : sampleViews T (utf8 root) m = sampleViews T' (utf8 root) m)
    (h : utf8 path ∈ sampled T' m) :
    utf8 path ∈ sampled T m ∧ pathHits T root path = pathHits T' root path := by
  have hmem : (utf8 path,
      (T'.stat (joinPath (utf8 root) (utf8 path))).bind FsNode.view) ∈
      sampleViews T (utf8 root) m := by
    rw [hviews]
    exact List.mem_map.mpr ⟨utf8 path, h, rfl⟩
  obtain ⟨name, hname, heq⟩ := List.mem_map.mp hmem
  obtain ⟨rfl, hview⟩ := Prod.mk.inj heq
  refine ⟨hname, ?_⟩
  rw [pathHits, pathHits, extractOrDefault_eq_view, extractOrDefault_eq_view, hview]

/-- The stamp of a path is determined by the tree. -/
theorem Tree.active_unique
    {root : Text}
    {a b : FileStamp}
    (ha : a ∈ T.active root m)
    (hb : b ∈ T.active root m)
    (h : a.1 = b.1) :
    a = b := by
  obtain ⟨-, node, hnode, hns, hlen⟩ := ha
  obtain ⟨-, node', hnode', hns', hlen'⟩ := hb
  rw [h, hnode'] at hnode
  cases hnode
  rw [hns'] at hns
  exact Prod.ext h (Prod.ext (Option.some.inj hns).symm (hlen.symm.trans hlen'))

/-- Only a directory has sampled files. -/
theorem isDirAt_of_sampled
    {root name : Bytes}
    (hroot : T.canonical = some root)
    (h : name ∈ sampled T m) :
    isDirAt T root = true := by
  obtain ⟨hwalk, hne⟩ := mem_walk_of_mem_sampled h
  cases hstat : T.stat root with
  | none =>
      rw [T.walk_of_missing _ m hroot hstat] at hwalk
      cases hwalk
  | some node =>
      cases node with
      | dir t n => simp [isDirAt, hstat, FsNode.isDir]
      | file f => exact absurd (T.walk_of_file _ f m hroot hstat _ hwalk) hne

/-- The sampled files of an indexable tree are files it offers. -/
theorem exists_stamp_of_sampled
    {root path : Text}
    (hroot : T.canonical = some (utf8 root))
    (hindexable : Indexable T (utf8 root) m)
    (h : utf8 path ∈ sampled T m) :
    ∃ a ∈ T.active root m, a.1 = path := by
  have hwalk := (mem_walk_of_mem_sampled h).1
  exact (offered_iff_active hwalk).mp
    (hindexable.below_dir (isDirAt_of_sampled hroot h) _ hwalk)

end Views

/-! ## A directory with one file -/

section OneFile

variable {digest : Bytes → UInt64} {f f' : RegularFile} {ns : BitVec 128}

/-- The one entry of the directory. -/
theorem currentEntries_oneFileTree
    (htime : f.modified.sinceEpoch = some ns) :
    currentEntries (oneFileTree f) flatRoot ((oneFileTree f).walkRun false).full =
      .ok [⟨['a'], ns, (FsNode.file f).len, false⟩] := by
  refine (currentEntries_flatTree (flatNames_oneFile f)).trans ?_
  simp [flatEntry, htime]

theorem active_oneFileTree
    (htime : f.modified.sinceEpoch = some ns)
    {a : FileStamp} :
    a ∈ (oneFileTree f).active flatRoot false ↔
      a = (['a'], ns, (FsNode.file f).len) := by
  rw [← mem_currentEntries_stamp (w := (oneFileTree f).walkRun false) rfl
    (currentEntries_oneFileTree htime)]
  simp [FileEntry.stamp]

theorem sampled_oneFileTree :
    sampled (oneFileTree f) false = [utf8 ['a']] := by
  have hlossy : toStringLossy [97] = [97] := by
    simp [toStringLossy, continuationRanges, matchedContinuation]
  have howned : isTgIndexOwnedEntry [97] = false := by
    rw [isTgIndexOwnedEntry, hlossy]
    decide
  have hsort : sortByKey nameKey [[97]] = [[97]] := by decide
  have hname : utf8 ['a'] = [97] := by decide
  have htop : ((oneFileTree f).walk false).filter isTopLevel = [[97]] := by
    change [utf8 ['a']].filter isTopLevel = _
    rw [hname]
    decide
  rw [sampled, htop, hname, sampledEntries, hsort,
    List.filter_cons_of_pos (by rw [howned]; rfl)]
  rfl

/-- What is behind the path of the entry. -/
theorem stat_oneFileTree
    (f : RegularFile) :
    (oneFileTree f).stat (joinPath (utf8 flatRoot) (utf8 ['a'])) = some (.file f) :=
  flatStat_of_mem (f := (['a'], f)) (flatNames_oneFile f) (by simp)

/-- The content of the file is at the end of what is hashed. -/
theorem computeTreeFingerprint_oneFileTree
    (htime : f.modified.sinceEpoch = some ns)
    (hread : f.readable = true) :
    ∃ before, computeTreeFingerprint digest (oneFileTree f) (utf8 flatRoot)
        ((oneFileTree f).walkRun false).top = digest (before ++ f.content) := by
  have hstream : fingerprintStream (oneFileTree f) (utf8 flatRoot)
      ((oneFileTree f).walkRun false).top =
        entryStream (oneFileTree f) (utf8 flatRoot) (utf8 ['a']) := by
    have hsampled := sampled_oneFileTree (f := f)
    rw [sampled] at hsampled
    rw [fingerprintStream, Tree.walkRun, hsampled, List.flatMap_singleton]
  refine ⟨toStringLossy (utf8 ['a']) ++ (leBytes 8 (FsNode.file f).len.toNat ++
    leBytes 16 ns.toNat), ?_⟩
  rw [computeTreeFingerprint, hstream, entryStream, stat_oneFileTree]
  simp [nodeStream, FsNode.isFile, FsNode.read, FsNode.modified, hread, htime]

/-- An index that lists the file with its time and size follows the directory as far as
the staleness check can see. -/
theorem stalenessReason_oneFileTree
    {idx : TrigramIndex}
    (htime : f.modified.sinceEpoch = some ns)
    (hroot : idx.canonicalRoot = flatRoot)
    (hmode : idx.noIgnore = false)
    (hactive : idx.catalog.active = (oneFileTree f).active flatRoot false) :
    stalenessReason digest (oneFileTree f) idx false ((oneFileTree f).walkRun false) = none ↔
      idx.treeFingerprint = computeTreeFingerprint digest (oneFileTree f) (utf8 flatRoot)
        ((oneFileTree f).walkRun false).top := by
  have hcanonical : (oneFileTree f).canonical = some (utf8 idx.canonicalRoot) := by
    rw [hroot]
    rfl
  rw [← hroot] at hactive ⊢
  constructor
  · intro h
    exact ((stalenessReason_eq_none_iff hcanonical).mp h).2.2.2
  · intro hprint
    have hentries := currentEntries_oneFileTree htime
    rw [← hroot] at hentries
    refine (stalenessReason_of_active hcanonical hentries hmode hactive hprint).mpr ?_
    rw [hroot]
    refine indexable_flatTree (flatNames_oneFile f) ?_ false
    intro g hg
    rw [List.mem_singleton] at hg
    subst hg
    simp [htime]

/-- The directory can be indexed, and an index of it can be rebuilt. -/
theorem exists_build_oneFileTree
    (digest : Bytes → UInt64)
    (htime : f.modified.sinceEpoch = some ns) :
    ∃ idx, buildWithOptions digest (oneFileTree f) false ((oneFileTree f).walkRun false) =
        .ok idx ∧
      idx.canonicalRoot = flatRoot ∧ idx.noIgnore = false ∧
      idx.files = [⟨['a'], ns, (FsNode.file f).len, false⟩] := by
  obtain ⟨idx, hbuild, hroot⟩ :=
    exists_build digest rfl (currentEntries_oneFileTree htime)
  obtain ⟨-, hentries, -, hmode, -⟩ := buildWithOptions_eq_ok hbuild
  rw [hroot, currentEntries_oneFileTree htime] at hentries
  exact ⟨idx, hbuild, hroot, hmode, (Except.ok.inj hentries).symm⟩

end OneFile

/-! ## Runs -/

/-- The guard of runs that stay within 32 bits and reuse sampled files exactly. -/
def RepairsExactly : Option Maintained → MaintenanceOp → Prop
  | some s, .rebuild T m w =>
      Fits32 (some s) (.rebuild T m w) ∧ ReusesExactly s.index T m
  | s, op => Fits32 s op

/-- An index follows its tree: it lists the files of the tree, carries its fingerprint
and posts the content of the sampled files. -/
structure Follows
    (digest : Bytes → UInt64)
    (s : Maintained) : Prop where
  canonical : s.tree.canonical = some (utf8 s.index.canonicalRoot)
  noIgnore : s.index.noIgnore = s.noIgnore
  confined : ∀ e ∈ s.index.files, Confined e.path
  repInv : RepInv s.index
  active : s.index.catalog.active = s.tree.active s.index.canonicalRoot s.noIgnore
  fingerprint : s.index.treeFingerprint =
    computeTreeFingerprint digest s.tree (utf8 s.index.canonicalRoot)
      (s.tree.walkRun s.noIgnore).top
  posted : ∀ a ∈ s.tree.active s.index.canonicalRoot s.noIgnore,
    utf8 a.1 ∈ sampled s.tree s.noIgnore → PostsExactly s.index s.tree a.1

section Runs

variable {digest : Bytes → UInt64} {T : Tree} {m : Bool} {w : WalkRun T m}

theorem follows_build
    {idx : TrigramIndex}
    (hfits : (T.walk m).countP (offered T (T.canonical.getD [])) ≤ 2 ^ 32)
    (h : buildWithOptions digest T m w = .ok idx) :
    Follows digest ⟨T, m, idx⟩ := by
  have hrefines := refines_build hfits h
  obtain ⟨hroot, -, hprint, hmode, -⟩ := buildWithOptions_eq_ok h
  refine ⟨hroot, hmode, hrefines.confined, hrefines.repInv, build_active h, ?_, ?_⟩
  · rw [hprint]
    exact computeTreeFingerprint_eq digest _ w _
  · intro a ha _ t n
    rw [hrefines.catalog]
    constructor
    · rintro ⟨b, -, hb, hmem⟩
      exact hmem
    · intro hmem
      exact ⟨a, ha, rfl, hmem⟩

/-- What a rebuild posts for a file that the tree offers. -/
theorem postsExactly_rebuild
    {idx : TrigramIndex}
    {r : IncrementalUpdateResult}
    (hidx : RepInv idx)
    (h : rebuildIncrementalWithOptions digest idx T m w = .ok r)
    (hbound : r.index.files.length ≤ 2 ^ 32)
    {a : FileStamp}
    (ha : a ∈ T.active r.index.canonicalRoot m)
    (hreuse : a ∈ idx.catalog.active → ∀ t n,
      (a.1, n) ∈ idx.catalog.posted t ↔
        (t, n) ∈ pathHits T r.index.canonicalRoot a.1) :
    PostsExactly r.index T a.1 := by
  intro t n
  rw [rebuild_posted hidx h hbound]
  constructor
  · rintro ⟨b, hb, hpath, ⟨hold, hposted⟩ | ⟨-, hmem⟩⟩
    · rw [Tree.active_unique hb ha hpath] at hold
      exact (hreuse hold t n).mp hposted
    · exact hmem
  · intro hmem
    refine ⟨a, ha, rfl, ?_⟩
    by_cases hold : a ∈ idx.catalog.active
    · exact Or.inl ⟨hold, (hreuse hold t n).mpr hmem⟩
    · exact Or.inr ⟨hold, hmem⟩

theorem follows_rebuild
    {s : Maintained}
    {r : IncrementalUpdateResult}
    (hs : Follows digest s)
    (hfits : s.index.files.length +
      newPathCount s.index T (T.canonical.getD []) m ≤ 2 ^ 32)
    (hreuse : ReusesExactly s.index T m)
    (h : rebuildIncrementalWithOptions digest s.index T m w = .ok r) :
    Follows digest ⟨T, m, r.index⟩ := by
  obtain ⟨hroot, hprint, hmode, -⟩ := rebuild_eq_ok h
  have hbound : r.index.files.length ≤ 2 ^ 32 := by
    rw [rebuild_length hs.repInv.filesInv h]
    rw [hroot] at hfits
    exact hfits
  have hlisted : Listed r.index :=
    listed_rebuild ⟨hs.repInv.filesInv, hs.confined, fun _ => hs.repInv⟩ h
  refine ⟨hroot, hmode, hlisted.confined, hlisted.repInv hbound,
    rebuild_active hs.repInv.filesInv h, ?_, ?_⟩
  · rw [hprint]
    exact computeTreeFingerprint_eq digest _ w _
  · intro a ha hsampled
    exact postsExactly_rebuild hs.repInv h hbound ha
      (hreuse _ hroot a ha hsampled)

theorem follows_of_sameIndex
    {s : Maintained}
    {idx : TrigramIndex}
    (hs : Follows digest s)
    (hsame : SameIndex s.index idx) :
    Follows digest ⟨s.tree, s.noIgnore, idx⟩ := by
  obtain ⟨tree, noIgnore, idx₀⟩ := s
  have hcatalog := catalog_of_sameIndex hsame
  constructor
  · rw [hsame.canonicalRoot]
    exact hs.canonical
  · rw [hsame.noIgnore]
    exact hs.noIgnore
  · rw [hsame.files]
    exact hs.confined
  · exact repInv_of_sameIndex hs.repInv hsame
  · rw [hcatalog, hsame.canonicalRoot]
    exact hs.active
  · rw [hsame.treeFingerprint, hsame.canonicalRoot]
    exact hs.fingerprint
  · intro a ha hsampled t n
    rw [hsame.canonicalRoot] at ha
    rw [hcatalog, hsame.canonicalRoot]
    exact hs.posted a ha hsampled t n

/-- Every index of a guarded run follows its tree. -/
theorem reachable_follows
    {s : Maintained}
    (h : (maintenance digest).Reachable RepairsExactly (some s)) :
    Follows digest s := by
  have hinv : ∀ x, some s = some x → Follows digest x := by
    refine StepSystem.Reachable.invariant
      (P := fun o => ∀ x, o = some x → Follows digest x) ?_ ?_ h
    · intro o ho x hx
      subst hx
      cases ho
    · intro o op o' ih hguard hstep x hx
      subst hx
      cases hstep with
      | build hb => exact follows_build hguard hb
      | rebuild hr => exact follows_rebuild (ih _ rfl) hguard.1 hguard.2 hr
      | reload hwrite hread =>
          have hold := ih _ rfl
          exact follows_of_sameIndex hold
            (sameIndex_of_reload hold.repInv hold.confined hguard hwrite hread)
      | rehash hsame => exact follows_of_sameIndex (ih _ rfl) (sameIndex_rehash hsame)
  exact hinv s rfl

/-- What the fingerprint accepts has the content for which it was indexed. -/
theorem Follows.sampledPosted
    {s : Maintained}
    {T : Tree}
    {w : WalkRun T m}
    (hs : Follows digest s)
    (hroot : T.canonical = some (utf8 s.index.canonicalRoot))
    (hfresh : stalenessReason digest T s.index m w = none)
    (hcollide : ¬ FingerprintsCollide digest s.tree T (utf8 s.index.canonicalRoot) m) :
    SampledPosted T s.index m := by
  obtain ⟨hmode, -, hnew, hprint⟩ := (stalenessReason_eq_none_iff hroot).mp hfresh
  have hmode' : s.noIgnore = m := by
    rw [← hs.noIgnore, hmode]
  have hsame : sampleViews s.tree (utf8 s.index.canonicalRoot) m =
      sampleViews T (utf8 s.index.canonicalRoot) m := by
    by_contra hne
    refine hcollide ⟨?_, hne⟩
    have hstored := hs.fingerprint
    rw [hmode'] at hstored
    rw [← hstored, hprint]
    exact computeTreeFingerprint_eq digest _ w _
  intro path hpath
  obtain ⟨hsampled, hhits⟩ := pathHits_eq_of_sampleViews hsame hpath
  obtain ⟨e, he, hepath⟩ :=
    hnew (isDirAt_of_sampled hroot hpath) _ (mem_walk_of_mem_sampled hpath).1
  have hactive : e.stamp ∈ s.tree.active s.index.canonicalRoot s.noIgnore := by
    rw [← hs.active]
    exact ⟨e, he, rfl⟩
  have hname : e.stamp.1 = path := utf8_injective hepath
  rw [← hmode', ← hname] at hsampled
  have hposted := hs.posted _ hactive hsampled
  rw [hname] at hposted
  intro t n
  rw [hposted t n, hhits]

/-- Along a guarded run, a rebuild of an indexable tree repairs the index, and an index
that is not stale posts the content of every sampled file. -/
theorem repair_exact
    {s : Maintained}
    (h : (maintenance digest).Reachable RepairsExactly (some s)) :
    (∀ (w w' : WalkRun T m) (r : IncrementalUpdateResult),
      RepairsExactly (some s) (.rebuild T m w) →
      Indexable T (T.canonical.getD []) m →
      rebuildIncrementalWithOptions digest s.index T m w = .ok r →
        stalenessReason digest T r.index m w' = none ∧ SampledPosted T r.index m) ∧
    (∀ w : WalkRun T m,
      T.canonical = some (utf8 s.index.canonicalRoot) →
      ¬ FingerprintsCollide digest s.tree T (utf8 s.index.canonicalRoot) m →
      stalenessReason digest T s.index m w = none →
        SampledPosted T s.index m) := by
  have hs := reachable_follows h
  refine ⟨?_, fun w hroot hcollide hfresh => hs.sampledPosted hroot hfresh hcollide⟩
  rintro w w' r ⟨hfits, hreuse⟩ hindexable hrebuild
  obtain ⟨hroot, -, -, current, hcurrent, -⟩ := rebuild_eq_ok hrebuild
  rw [hroot, Option.getD_some] at hindexable
  have hnext := follows_rebuild hs hfits hreuse hrebuild
  refine ⟨?_, ?_⟩
  · refine (stalenessReason_of_active hroot hcurrent hnext.noIgnore hnext.active ?_).mpr
      hindexable
    rw [hnext.fingerprint]
    exact computeTreeFingerprint_eq digest _ _ _
  · intro path hpath
    obtain ⟨a, ha, rfl⟩ := exists_stamp_of_sampled hroot hindexable hpath
    exact hnext.posted a ha hpath

end Runs

/-- The file `a` says `foo`. -/
def draftFile : RegularFile :=
  plainFile [102, 111, 111] (by decide)

/-- The file `a` says `bar`, with the same size and time. -/
def editedFile : RegularFile :=
  plainFile [98, 97, 114] (by decide)

/-- A digest that keeps the last byte. -/
def lastByte (b : Bytes) : UInt64 :=
  UInt64.ofNat (b.getLast?.getD 0).toNat

/-- The file `a` says `food`. -/
def longerFile : RegularFile :=
  plainFile [102, 111, 111, 100] (by decide)

/-- An index of a directory before and after a rebuild that notices the edit. -/
theorem repair_exact_longerFile :
    ∃ (idx : TrigramIndex) (r : IncrementalUpdateResult),
      SampledPosted (oneFileTree draftFile) idx false ∧
      stalenessReason lastByte (oneFileTree longerFile) r.index false
        ((oneFileTree longerFile).walkRun false) = none ∧
      SampledPosted (oneFileTree longerFile) r.index false := by
  have htime : draftFile.modified.sinceEpoch = some 0 := rfl
  have htime' : longerFile.modified.sinceEpoch = some 0 := rfl
  obtain ⟨idx, hbuild, hroot, hmode, hfiles⟩ := exists_build_oneFileTree lastByte htime
  have hlen : idx.files.length = 1 := by
    rw [hfiles]
    rfl
  obtain ⟨r, hrebuild⟩ := exists_rebuild (w := (oneFileTree longerFile).walkRun false)
    lastByte idx rfl (currentEntries_oneFileTree htime')
  have hreach : (maintenance lastByte).Reachable RepairsExactly
      (some ⟨oneFileTree draftFile, false, idx⟩) :=
    .next (.start rfl) (le_trans List.countP_le_length (by decide)) (.build hbuild)
  have hactive := build_active hbuild
  rw [hroot] at hactive
  have hguard : RepairsExactly (some ⟨oneFileTree draftFile, false, idx⟩)
      (.rebuild (oneFileTree longerFile) false ((oneFileTree longerFile).walkRun false)) := by
    refine ⟨le_trans (Nat.add_le_add (Nat.le_of_eq hlen) List.countP_le_length)
      (by decide), ?_⟩
    intro root hcanonical a ha _ hold
    rw [← utf8_injective (Option.some.inj hcanonical)] at ha
    change a ∈ idx.catalog.active at hold
    rw [hactive, active_oneFileTree htime] at hold
    rw [active_oneFileTree htime', hold] at ha
    exact absurd (congrArg (fun a : FileStamp => a.2.2) ha) (by decide)
  have hindexable : Indexable (oneFileTree longerFile) (utf8 flatRoot) false :=
    indexable_flatTree (flatNames_oneFile longerFile) (by
      intro g hg
      rw [List.mem_singleton] at hg
      subst hg
      rfl) false
  have hfresh : stalenessReason lastByte (oneFileTree draftFile) idx false
      ((oneFileTree draftFile).walkRun false) = none := by
    refine (stalenessReason_oneFileTree htime hroot hmode hactive).mpr ?_
    rw [(buildWithOptions_eq_ok hbuild).2.2.1, hroot]
  obtain ⟨hstale, hposted⟩ := (repair_exact hreach).1 _ _ r hguard hindexable hrebuild
  refine ⟨idx, r, ?_, hstale, hposted⟩
  refine (repair_exact hreach).2 ((oneFileTree draftFile).walkRun false) ?_ ?_ hfresh
  · change some (utf8 flatRoot) = some (utf8 idx.canonicalRoot)
    rw [hroot]
  · rintro ⟨-, hne⟩
    exact hne rfl

/-- After the edit the index is stale; the rebuild makes it pass as fresh, but it still
posts the old content. -/
theorem editedFile_not_repaired :
    ∃ (idx : TrigramIndex) (r : IncrementalUpdateResult),
      buildWithOptions lastByte (oneFileTree draftFile) false
        ((oneFileTree draftFile).walkRun false) = .ok idx ∧
      isStale lastByte (oneFileTree editedFile) idx false
        ((oneFileTree editedFile).walkRun false) = true ∧
      rebuildIncrementalWithOptions lastByte idx (oneFileTree editedFile) false
        ((oneFileTree editedFile).walkRun false) = .ok r ∧
      stalenessReason lastByte (oneFileTree editedFile) r.index false
        ((oneFileTree editedFile).walkRun false) = none ∧
      ¬ SampledPosted (oneFileTree editedFile) r.index false := by
  have htime : draftFile.modified.sinceEpoch = some 0 := rfl
  have htime' : editedFile.modified.sinceEpoch = some 0 := rfl
  obtain ⟨idx, hbuild, hroot, hmode, hfiles⟩ := exists_build_oneFileTree lastByte htime
  have hlen : idx.files.length = 1 := by
    rw [hfiles]
    rfl
  obtain ⟨-, -, hprint, -⟩ := buildWithOptions_eq_ok hbuild
  obtain ⟨r, hrebuild⟩ := exists_rebuild (w := (oneFileTree editedFile).walkRun false)
    lastByte idx rfl (currentEntries_oneFileTree htime')
  obtain ⟨hroot', hprint', hmode', -⟩ := rebuild_eq_ok hrebuild
  have hcanonical : r.index.canonicalRoot = flatRoot :=
    utf8_injective (Option.some.inj hroot').symm
  have hsame : (oneFileTree editedFile).active flatRoot false =
      (oneFileTree draftFile).active flatRoot false := by
    ext a
    rw [active_oneFileTree htime, active_oneFileTree htime']
    rfl
  have hbound : idx.files.length ≤ 2 ^ 32 := by
    rw [hlen]
    norm_num
  have hactive := build_active hbuild
  have hrep := build_repInv hbuild hbound
  have hactive' := rebuild_active hrep.filesInv hrebuild
  rw [hroot] at hactive hprint
  rw [hcanonical] at hactive' hprint'
  refine ⟨idx, r, hbuild, ?_, hrebuild, ?_, ?_⟩
  · rw [isStale, Option.isSome_iff_ne_none]
    intro h
    have heq := (stalenessReason_oneFileTree htime' hroot hmode
      (hactive.trans hsame.symm)).mp h
    obtain ⟨b, hb⟩ := computeTreeFingerprint_oneFileTree htime rfl
    obtain ⟨b', hb'⟩ := computeTreeFingerprint_oneFileTree htime' rfl
    rw [hprint, hb, hb'] at heq
    simp [lastByte, draftFile, editedFile, plainFile] at heq
  · exact (stalenessReason_oneFileTree htime' hcanonical hmode' hactive').mpr hprint'
  · intro h
    have hposts := h ['a'] (by rw [sampled_oneFileTree]; simp) (102, 111, 111) 1
    have hone : r.index.files.length ≤ 2 ^ 32 := by
      rw [rebuild_length hrep.filesInv hrebuild, hlen, newPathCount]
      have := List.countP_le_length (l := (oneFileTree editedFile).walk false)
        (p := fun rel => !(activeEntries idx.files).any (fun e => utf8 e.path = rel) &&
          offered (oneFileTree editedFile) (utf8 r.index.canonicalRoot) rel)
      have hwalk : ((oneFileTree editedFile).walk false).length = 1 := rfl
      omega
    have hstamp : ((['a'], 0, 3) : FileStamp) ∈
        (oneFileTree editedFile).active flatRoot false :=
      (active_oneFileTree htime').mpr rfl
    have hold : ((['a'], 1) : Text × UInt32) ∈ idx.catalog.posted (102, 111, 111) := by
      rw [build_catalog hbuild hbound, hroot]
      refine ⟨(['a'], 0, 3), (active_oneFileTree htime).mpr rfl, rfl, ?_⟩
      change _ ∈ pathHits (oneFileTree draftFile) flatRoot ['a']
      rw [oneFileTree, pathHits_flatTree (f := (['a'], draftFile)) _ (by simp) rfl]
      decide
    have hkept : ((['a'], 1) : Text × UInt32) ∈
        r.index.catalog.posted (102, 111, 111) := by
      rw [rebuild_posted hrep hrebuild hone, hcanonical]
      refine ⟨(['a'], 0, 3), hstamp, rfl, Or.inl ⟨?_, hold⟩⟩
      rw [hactive, ← hsame]
      exact hstamp
    have hnew := hposts.mp hkept
    rw [hcanonical, oneFileTree,
      pathHits_flatTree (f := (['a'], editedFile)) _ (by simp) rfl] at hnew
    revert hnew
    decide

end Index
end TensorGrep
