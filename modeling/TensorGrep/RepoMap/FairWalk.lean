import TensorGrep.RepoMap.WalkOrder

/-!
# The walk with a limit is a fair beginning of the walk

The walk without a limit visits every file of a tree once, and the order of the
bucket walk has the same files.  What a limit leaves of this order takes the
groups by priority, and no bucket of a group runs ahead of another one that has
files left.
-/

namespace TensorGrep
namespace RepoMap

open Kernel

/-! ## Every file once -/

section Once

variable {root : RepoRoot} {load : MatcherLoader}

/-- The files of some entries. -/
def scannedFiles (scanned : List ScannedEntry) : List RepoPath :=
  scanned.flatMap ScannedEntry.files

theorem walkedFiles_append
    (items items' : List WalkItem) :
    walkedFiles (items ++ items') = walkedFiles items ++ walkedFiles items' :=
  List.filterMap_append

theorem walkedFiles_flatMap
    {α : Type}
    (f : α → List WalkItem)
    (l : List α) :
    walkedFiles (l.flatMap f) = l.flatMap (fun a => walkedFiles (f a)) := by
  induction l with
  | nil => rfl
  | cons a l ih => rw [List.flatMap_cons, walkedFiles_append, ih, List.flatMap_cons]

/-- Directories and files apart. -/
theorem perm_scannedFiles
    (scanned : List ScannedEntry) :
    (scannedFiles scanned).Perm
      ((scanned.filterMap ScannedEntry.directory?).flatMap (fun d => walkedFiles d.2) ++
        (scanned.filterMap ScannedEntry.file?).map Prod.snd) := by
  induction scanned with
  | nil => exact List.Perm.refl _
  | cons entry scanned ih =>
      have ih' := ih.append_left entry.files
      rw [scannedFiles, List.flatMap_cons, ← scannedFiles]
      rw [List.filterMap_cons, List.filterMap_cons]
      cases entry with
      | file name path =>
          dsimp only [ScannedEntry.directory?, ScannedEntry.file?]
          rw [List.map_cons]
          refine ih'.trans ?_
          rw [ScannedEntry.files, List.singleton_append]
          exact List.perm_middle.symm
      | directory name items =>
          dsimp only [ScannedEntry.directory?, ScannedEntry.file?]
          rw [List.flatMap_cons, List.append_assoc]
          exact ih'
      | failing path => exact ih'

/-- Arranging only changes the order of the files. -/
theorem perm_walkedFiles_arrange
    (scanned : List ScannedEntry) :
    (walkedFiles (arrange root scanned)).Perm (scannedFiles scanned) := by
  refine List.Perm.trans ?_ (perm_scannedFiles scanned).symm
  have hfailing : ∀ paths : List RepoPath, walkedFiles (paths.map .unreadable) = [] := by
    intro paths
    induction paths with
    | nil => rfl
    | cons path paths ih => exact ih
  have hfiles : ∀ l : List (FileName × RepoPath),
      walkedFiles (l.map fun f => WalkItem.file f.2) = l.map Prod.snd := by
    intro l
    induction l with
    | nil => rfl
    | cons f l ih => rw [List.map_cons, walkedFiles_file_cons, ih, List.map_cons]
  rw [arrange]
  simp only [walkedFiles_append, hfailing, hfiles, walkedFiles_flatMap, List.nil_append]
  have hdirs := perm_sortByKey (fun d => repoWalkDirSortKey root d.1)
    (scanned.filterMap ScannedEntry.directory?)
  generalize sortByKey (fun d => repoWalkDirSortKey root d.1)
    (scanned.filterMap ScannedEntry.directory?) = dirs at hdirs ⊢
  have hfilesPerm := (perm_sortByKey (fun f => repoWalkFileSortKey root f.1)
    (scanned.filterMap ScannedEntry.file?)).map Prod.snd
  have hsplit : (dirs.filter (fun d => decide ((ofLex (repoWalkDirSortKey root d.1)).1 ≤ 1)) ++
      dirs.filter (fun d => !decide ((ofLex (repoWalkDirSortKey root d.1)).1 ≤ 1))).Perm dirs :=
    List.filter_append_perm _ dirs
  have hflat := (hsplit.trans hdirs).flatMap_right (fun d => walkedFiles d.2)
  rw [List.flatMap_append] at hflat
  refine List.Perm.trans ?_ (hflat.append hfilesPerm)
  rw [List.append_assoc, List.append_assoc]
  exact List.perm_append_comm.append_left _

/-- The loop over the entries keeps an entry or leaves it out. -/
theorem scanEntries_cons
    (stack : List GitignoreMatcher)
    (path : RepoPath)
    (name : FileName)
    (node : RepoNode)
    (rest : List (FileName × RepoNode)) :
    scanEntries root load stack path ((name, node) :: rest) =
        scanEntries root load stack path rest ∨
      scanEntries root load stack path ((name, node) :: rest) =
        scannedEntry root load stack path name node :: scanEntries root load stack path rest := by
  cases node with
  | file contents mtimeNs =>
      rw [scanEntries]
      split
      · exact Or.inl rfl
      · exact Or.inr rfl
  | link target => exact Or.inl (by rw [scanEntries])
  | failing => exact Or.inr (by rw [scanEntries, scannedEntry])
  | dir entries =>
      rw [scanEntries]
      split
      · exact Or.inl rfl
      · split
        · exact Or.inl rfl
        · exact Or.inr rfl

/-- What is below an entry begins with its name. -/
theorem exists_rest_of_mem_files
    {stack : List GitignoreMatcher}
    {path p : RepoPath}
    {name : FileName}
    {node : RepoNode}
    (hdistinct : nodeDistinct node)
    (hp : p ∈ (scannedEntry root load stack path name node).files) :
    ∃ rest, p = path ++ name :: rest ∧ (nodeFile node rest).isSome = true := by
  cases node with
  | file contents mtimeNs => exact ⟨[], List.mem_singleton.mp hp, rfl⟩
  | failing => cases hp
  | link target =>
      rw [scannedEntry, ScannedEntry.files, walkedFiles_of_not_dir (by simp)] at hp
      · cases hp
      all_goals simp
  | dir entries =>
      obtain ⟨rest, heq, hsome⟩ := fileAt_of_mem_bucketFiles (.dir entries) hdistinct hp
      exact ⟨rest, by rw [heq, List.append_assoc, List.singleton_append], hsome⟩

/-- Two nodes of a directory have different names, so nothing is below both. -/
theorem not_mem_scannedFiles_of_fresh
    {stack : List GitignoreMatcher}
    {path rest : RepoPath}
    {name : FileName}
    {entries : List (FileName × RepoNode)}
    (hfresh : name ∉ entries.map Prod.fst)
    (hdistinct : entriesDistinct entries) :
    path ++ name :: rest ∉ scannedFiles (scanEntries root load stack path entries) := by
  intro hmem
  obtain ⟨entry, hentry, hp⟩ := List.mem_flatMap.mp hmem
  obtain ⟨name', node', rest', hnode', heq, -⟩ :=
    fileAt_of_mem_scanEntries entries hdistinct hentry hp
  obtain ⟨rfl, -⟩ := List.cons.inj (List.append_cancel_left heq)
  exact hfresh (List.mem_map_of_mem hnode')

mutual

/-- The walk below a node yields no file twice. -/
theorem nodup_walkedFiles
    {stack : List GitignoreMatcher}
    {path : RepoPath} :
    ∀ node : RepoNode, nodeDistinct node →
      (walkedFiles (iterRepoBucketFiles root load stack path node)).Nodup
  | .dir (some entries), hdistinct => by
      rw [nodeDistinct] at hdistinct
      rw [iterRepoBucketFiles, (perm_walkedFiles_arrange _).nodup_iff]
      exact nodup_scannedFiles entries hdistinct.1 hdistinct.2
  | .dir none, _ => by
      rw [iterRepoBucketFiles]
      exact List.nodup_nil
  | .file _ _, _ => by
      rw [walkedFiles_of_not_dir (by simp)]
      exact List.nodup_nil
  | .link _, _ => by
      rw [walkedFiles_of_not_dir (by simp)]
      exact List.nodup_nil
  | .failing, _ => by
      rw [walkedFiles_of_not_dir (by simp)]
      exact List.nodup_nil

theorem nodup_scannedFiles
    {stack : List GitignoreMatcher}
    {path : RepoPath} :
    ∀ entries : List (FileName × RepoNode), (entries.map Prod.fst).Nodup →
      entriesDistinct entries →
      (scannedFiles (scanEntries root load stack path entries)).Nodup
  | [], _, _ => by
      rw [scanEntries]
      exact List.nodup_nil
  | (name, node) :: rest, hnames, hdistinct => by
      rw [List.map_cons, List.nodup_cons] at hnames
      rw [entriesDistinct] at hdistinct
      have hrest : (scannedFiles (scanEntries root load stack path rest)).Nodup :=
        nodup_scannedFiles rest hnames.2 hdistinct.2
      have hnode : (walkedFiles
          (iterRepoBucketFiles root load stack (path ++ [name]) node)).Nodup :=
        nodup_walkedFiles node hdistinct.1
      rcases scanEntries_cons stack path name node rest with heq | heq
      · rw [heq]
        exact hrest
      · rw [heq, scannedFiles, List.flatMap_cons, ← scannedFiles]
        refine List.Nodup.append ?_ hrest ?_
        · cases node with
          | file contents mtimeNs => exact List.nodup_singleton _
          | failing => exact List.nodup_nil
          | link target => exact hnode
          | dir entries => exact hnode
        · intro p hp hp'
          obtain ⟨below, rfl, -⟩ := exists_rest_of_mem_files hdistinct.1 hp
          exact not_mem_scannedFiles_of_fresh hnames.1 hdistinct.2 hp'

end

end Once

/-! ## The order of the bucket walk has the same files -/

section SameFiles

variable {root : RepoRoot} {tree : RepoTree} {entries : RepoEntries}

/-- The entries of the root that are not left out. -/
def rootScan
    (root : RepoRoot)
    (entries : RepoEntries) : List ScannedEntry :=
  scanEntries root loadGitignoreMatcher [loadGitignoreMatcher [] entries] [] entries

/-- The buckets of the root. -/
def rootBuckets
    (root : RepoRoot)
    (entries : RepoEntries) : List Bucket :=
  (rootScan root entries).filterMap (bucketOf root)

/-- The priority groups of the root. -/
def rootGroups
    (root : RepoRoot)
    (entries : RepoEntries) : List ℕ :=
  sortDedup id ((rootBuckets root entries).map fun bucket => (ofLex bucket.key).1)

theorem entriesOrder_eq :
    entriesOrder root entries =
      groupsOrder (rootBuckets root entries) (rootGroups root entries) :=
  rfl

/-- The buckets have the files of the entries. -/
theorem flatten_bucketFiles
    (scanned : List ScannedEntry) :
    (bucketFiles (scanned.filterMap (bucketOf root))).flatten = scannedFiles scanned := by
  induction scanned with
  | nil => rfl
  | cons entry scanned ih =>
      rw [scannedFiles, List.flatMap_cons, ← scannedFiles, ← ih, List.filterMap_cons]
      cases entry with
      | file name path => rfl
      | directory name items => rfl
      | failing path => rfl

/-- The groups only change the order of the files. -/
theorem perm_groupsOrder
    {buckets : List Bucket}
    {groups : List ℕ}
    (hnodup : groups.Nodup)
    (hgroups : ∀ bucket ∈ buckets, (ofLex bucket.key).1 ∈ groups) :
    (groupsOrder buckets groups).Perm (bucketFiles buckets).flatten := by
  have hgroup : ∀ g, (columns (bucketFiles (groupBuckets buckets g))).Perm
      (bucketFiles (buckets.filter fun bucket => (ofLex bucket.key).1 = g)).flatten := by
    intro g
    refine (perm_columns _).trans (List.Perm.flatten ?_)
    exact (perm_sortByKey Bucket.key _).map _
  refine (List.Perm.flatMap_left groups (fun g _ => hgroup g)).trans ?_
  have hflatten : (groups.flatMap fun g =>
      (bucketFiles (buckets.filter fun bucket => (ofLex bucket.key).1 = g)).flatten) =
      (bucketFiles (groups.flatMap fun g =>
        buckets.filter fun bucket => (ofLex bucket.key).1 = g)).flatten := by
    simp only [bucketFiles, ← List.flatMap_def]
    exact List.flatMap_assoc.symm
  rw [hflatten]
  exact ((perm_flatMap_filter_key hnodup hgroups).map _).flatten

/-- The order of the bucket walk has every file of the walk without a limit, as often. -/
theorem perm_walkOrder :
    (walkOrder root tree).Perm (iterRepoFiles root none tree).files := by
  match tree with
  | .single name _ _ => exact List.Perm.refl _
  | .directory none =>
      rw [iterRepoFiles, iterRepoFilesWith, iterRepoBucketFiles]
      exact List.Perm.refl _
  | .directory (some entries) =>
      have halike := decideAlike_pushMatcher [] (loadGitignoreMatcher [] entries)
      have hwalked := (perm_sortByKey (repoWalkPathSortKey root) (walkedFiles
        (iterRepoBucketFiles root loadGitignoreMatcher [] [] (.dir (some entries)))))
      rw [iterRepoBucketFiles, scanEntries_congr halike] at hwalked
      have hfull : (iterRepoFiles root none (.directory (some entries))).files.Perm
          (scannedFiles (rootScan root entries)) := by
        rw [iterRepoFiles, iterRepoFilesWith, iterRepoBucketFiles, scanEntries_congr halike]
        exact hwalked.trans (perm_walkedFiles_arrange _)
      refine List.Perm.trans ?_ hfull.symm
      rw [← @flatten_bucketFiles root]
      refine perm_groupsOrder (nodup_of_pairwise_key_lt (pairwise_sortDedup id _)) ?_
      intro bucket hbucket
      rw [mem_sortDedup Function.injective_id]
      exact List.mem_map_of_mem hbucket

/-- The order of the bucket walk has no file twice. -/
theorem nodup_walkOrder
    (hdistinct : tree.DistinctNames) :
    (walkOrder root tree).Nodup := by
  rw [perm_walkOrder.nodup_iff]
  match tree, hdistinct with
  | .single name _ _, _ => exact List.nodup_singleton _
  | .directory entries, hdistinct =>
      rw [iterRepoFiles, iterRepoFilesWith, (perm_sortByKey _ _).nodup_iff]
      exact nodup_walkedFiles (.dir entries) hdistinct

end SameFiles

/-! ## Buckets and their groups -/

section Buckets

variable {root : RepoRoot} {load : MatcherLoader} {entries : RepoEntries} {p q : RepoPath}

/-- The priority group of the top-level entry that a path belongs to. -/
def bucketGroup
    (root : RepoRoot)
    (path : RepoPath) : ℕ :=
  repoWalkGroup root (path.take 1) (1 < path.length)

/-- A scanned entry is that of a node. -/
theorem exists_node_of_mem_scanEntries
    {stack : List GitignoreMatcher}
    {path : RepoPath}
    {entry : ScannedEntry} :
    ∀ entries : List (FileName × RepoNode), entry ∈ scanEntries root load stack path entries →
      ∃ name node, (name, node) ∈ entries ∧ entry = scannedEntry root load stack path name node
  | [], hentry => by
      rw [scanEntries] at hentry
      cases hentry
  | (name, node) :: rest, hentry => by
      rcases mem_scanEntries_cons hentry with rfl | hlater
      · exact ⟨name, node, List.mem_cons_self, rfl⟩
      · obtain ⟨name', node', hnode, heq⟩ := exists_node_of_mem_scanEntries rest hlater
        exact ⟨name', node', List.mem_cons_of_mem _ hnode, heq⟩

/-- The bucket of an entry with files has the group of its files. -/
theorem exists_bucket_of_mem_files
    {stack : List GitignoreMatcher}
    {name : FileName}
    {node : RepoNode}
    (hdistinct : nodeDistinct node)
    (hp : p ∈ (scannedEntry root load stack [] name node).files) :
    p.head? = some name ∧
      ∃ bucket, bucketOf root (scannedEntry root load stack [] name node) = some bucket ∧
        walkedFiles bucket.items = (scannedEntry root load stack [] name node).files ∧
        (ofLex bucket.key).1 = bucketGroup root p := by
  obtain ⟨rest, rfl, hsome⟩ := exists_rest_of_mem_files hdistinct hp
  refine ⟨rfl, ?_⟩
  cases node with
  | file contents mtimeNs =>
      have hrest : rest = [] := (List.cons.inj (List.mem_singleton.mp hp)).2
      subst hrest
      exact ⟨_, rfl, rfl, rfl⟩
  | failing => cases hp
  | link target =>
      rw [scannedEntry, ScannedEntry.files, walkedFiles_of_not_dir (by simp)] at hp
      · cases hp
      all_goals simp
  | dir entries =>
      cases rest with
      | nil => cases entries <;> cases hsome
      | cons second rest =>
          refine ⟨_, rfl, rfl, ?_⟩
          rw [bucketGroup, repoWalkBucketSortKey]
          simp

/-- The files of a top-level entry are one list of the buckets of its group. -/
theorem exists_bucket
    (hnames : (entries.map Prod.fst).Nodup)
    (hdistinct : entriesDistinct entries)
    (hp : p ∈ entriesOrder root entries) :
    ∃ l ∈ bucketFiles (groupBuckets (rootBuckets root entries) (bucketGroup root p)),
      bucketGroup root p ∈ rootGroups root entries ∧
      ∀ q, q ∈ l ↔ q ∈ entriesOrder root entries ∧ q.head? = p.head? := by
  have hmem : ∀ q, q ∈ entriesOrder root entries ↔
      ∃ entry ∈ rootScan root entries, q ∈ entry.files := by
    intro q
    rw [entriesOrder_eq, rootGroups, mem_groupsOrder_iff, rootBuckets, mem_bucketFiles_iff]
  obtain ⟨entry, hentry, hpe⟩ := (hmem p).mp hp
  obtain ⟨name, node, hnode, rfl⟩ := exists_node_of_mem_scanEntries entries hentry
  obtain ⟨hhead, bucket, hbucket, hfiles, hgroup⟩ :=
    exists_bucket_of_mem_files (nodeDistinct_of_mem hdistinct hnode) hpe
  have hroot : bucket ∈ rootBuckets root entries := List.mem_filterMap.mpr ⟨_, hentry, hbucket⟩
  refine ⟨walkedFiles bucket.items, ?_, ?_, ?_⟩
  · refine List.mem_map_of_mem (mem_sortByKey.mpr (List.mem_filter.mpr ⟨hroot, ?_⟩))
    exact decide_eq_true hgroup
  · rw [rootGroups, mem_sortDedup Function.injective_id, ← hgroup]
    exact List.mem_map_of_mem hroot
  · intro q
    rw [hfiles, hhead]
    constructor
    · intro hq
      exact ⟨(hmem q).mpr ⟨_, hentry, hq⟩,
        (exists_bucket_of_mem_files (nodeDistinct_of_mem hdistinct hnode) hq).1⟩
    · rintro ⟨hq, hqname⟩
      obtain ⟨entry', hentry', hqe⟩ := (hmem q).mp hq
      obtain ⟨name', node', hnode', rfl⟩ := exists_node_of_mem_scanEntries entries hentry'
      have hqhead := (exists_bucket_of_mem_files (nodeDistinct_of_mem hdistinct hnode') hqe).1
      rw [hqname, Option.some_inj] at hqhead
      subst hqhead
      -- names are distinct, so both are entries of the same node
      have hsame : node' = node := by
        by_contra hne
        have hpair := List.inj_on_of_nodup_map hnames hnode' hnode rfl
        exact hne (Prod.ext_iff.mp hpair).2
      rw [hsame] at hqe
      exact hqe

end Buckets

/-! ## The walk with a limit -/

/-- How many of some paths belong to a top-level entry. -/
def returnedFrom
    (paths : List RepoPath)
    (name : Option FileName) : ℕ :=
  (paths.filter fun path => path.head? = name).length

/-- Some paths are a fair beginning of others. -/
structure FairBeginning
    (root : RepoRoot)
    (n : ℕ)
    (full capped : List RepoPath) : Prop where
  fullOnce : full.Nodup
  once : capped.Nodup
  count : capped.length = min n full.length
  subset : ∀ p ∈ capped, p ∈ full
  complete : full.length ≤ n → ∀ p, p ∈ capped ↔ p ∈ full
  byPriority : ∀ p ∈ capped, ∀ q ∈ full, q ∉ capped → bucketGroup root p ≤ bucketGroup root q
  fair : ∀ p ∈ full, ∀ q ∈ full, q ∉ capped → bucketGroup root p = bucketGroup root q →
    returnedFrom capped p.head? ≤ returnedFrom capped q.head? + 1

section Fair

variable {root : RepoRoot} {entries : RepoEntries} {p q : RepoPath} {n : ℕ}

/-- What has priority comes first. -/
theorem precedes_of_group_lt
    (hnames : (entries.map Prod.fst).Nodup)
    (hdistinct : entriesDistinct entries)
    (hp : p ∈ entriesOrder root entries)
    (hq : q ∈ entriesOrder root entries)
    (hlt : bucketGroup root q < bucketGroup root p) :
    Precedes (entriesOrder root entries) q p := by
  obtain ⟨l, hl, hpgroup, hlp⟩ := exists_bucket hnames hdistinct hp
  obtain ⟨l', hl', hqgroup, hlq⟩ := exists_bucket hnames hdistinct hq
  have hgroups : Precedes (rootGroups root entries) (bucketGroup root q) (bucketGroup root p) :=
    (precedes_iff_of_pairwise (pairwise_sortDedup id _)).mpr ⟨hqgroup, hpgroup, hlt⟩
  rw [entriesOrder_eq]
  exact hgroups.flatMap (mem_columns_iff.mpr ⟨l', hl', (hlq q).mpr ⟨hq, rfl⟩⟩)
    (mem_columns_iff.mpr ⟨l, hl, (hlp p).mpr ⟨hp, rfl⟩⟩)

/-- The walk has as many files of a top-level entry as its bucket has. -/
theorem returnedFrom_take
    (hnodup : (entriesOrder root entries).Nodup)
    {l : List RepoPath}
    (hlnodup : l.Nodup)
    (hl : ∀ q, q ∈ l ↔ q ∈ entriesOrder root entries ∧ q.head? = p.head?) :
    returnedFrom ((entriesOrder root entries).take n) p.head? =
      (l.filter (fun q => ((entriesOrder root entries).take n).contains q)).length := by
  refine List.Perm.length_eq ?_
  rw [List.perm_ext_iff_of_nodup ((hnodup.sublist (List.take_sublist n _)).filter _)
    (hlnodup.filter _)]
  intro q
  rw [List.mem_filter, List.mem_filter, hl, decide_eq_true_eq, List.contains_iff_mem]
  constructor
  · rintro ⟨hq, hhead⟩
    exact ⟨⟨List.mem_of_mem_take hq, hhead⟩, hq⟩
  · rintro ⟨⟨-, hhead⟩, hq⟩
    exact ⟨hq, hhead⟩

/-- No bucket of a group runs ahead of another one that has files left. -/
theorem returnedFrom_le
    (hnames : (entries.map Prod.fst).Nodup)
    (hdistinct : entriesDistinct entries)
    (hnodup : (entriesOrder root entries).Nodup)
    (hp : p ∈ entriesOrder root entries)
    (hq : q ∈ entriesOrder root entries)
    (hleft : q ∉ (entriesOrder root entries).take n)
    (hgroup : bucketGroup root p = bucketGroup root q) :
    returnedFrom ((entriesOrder root entries).take n) p.head? ≤
      returnedFrom ((entriesOrder root entries).take n) q.head? + 1 := by
  obtain ⟨l, hl, hpgroup, hlp⟩ := exists_bucket hnames hdistinct hp
  obtain ⟨l', hl', -, hlq⟩ := exists_bucket hnames hdistinct hq
  rw [hgroup] at hl hpgroup
  have hcolumns : (columns (bucketFiles (groupBuckets (rootBuckets root entries)
      (bucketGroup root q)))).Sublist (entriesOrder root entries) := by
    rw [entriesOrder_eq, groupsOrder, List.flatMap_def]
    exact List.sublist_flatten_of_mem (List.mem_map_of_mem hpgroup)
  have hflat := (perm_columns _).nodup_iff.mp (hnodup.sublist hcolumns)
  have hlnodup := hflat.sublist (List.sublist_flatten_of_mem hl)
  have hlnodup' := hflat.sublist (List.sublist_flatten_of_mem hl')
  rw [returnedFrom_take hnodup hlnodup hlp, returnedFrom_take hnodup hlnodup' hlq]
  generalize htaken : (fun q => ((entriesOrder root entries).take n).contains q) = taken
  have htaken' : ∀ a, taken a = true ↔ a ∈ (entriesOrder root entries).take n := by
    intro a
    rw [← htaken]
    exact List.contains_iff_mem
  -- what comes before a file that is returned is returned
  have hbefore : ∀ a b, Precedes (entriesOrder root entries) a b → taken b = true →
      taken a = true := by
    intro a b hab hb
    exact (htaken' a).mpr (hab.mem_take hnodup ((htaken' b).mp hb))
  have hclosed : ∀ l ∈ bucketFiles (groupBuckets (rootBuckets root entries)
      (bucketGroup root q)), ∀ a b, Precedes l a b → taken b = true → taken a = true := by
    intro l hl a b hab hb
    obtain ⟨i, j, hij, ha, hb'⟩ := hab.exists_getElem
    exact hbefore a b ((precedes_columns hl hl hij ha hb').of_sublist hcolumns) hb
  have hqleft : ¬ taken q = true := fun h => hleft ((htaken' q).mp h)
  by_contra hahead
  rw [not_le] at hahead
  have hshort : (l'.filter taken).length < l'.length :=
    List.length_filter_lt_length_iff_exists.mpr ⟨q, (hlq q).mpr ⟨hq, rfl⟩, hqleft⟩
  have hlong := List.length_filter_le taken l
  have hnext := List.getElem?_eq_getElem hshort
  have hfar : (l'.filter taken).length + 1 < l.length := by omega
  have hreturned := (getElem_iff_lt_length_filter (hclosed l hl)
    (List.getElem?_eq_getElem hfar)).mpr hahead
  have hnotyet := (getElem_iff_lt_length_filter (hclosed l' hl') hnext).not.mpr (lt_irrefl _)
  exact hnotyet (hbefore _ _ ((precedes_columns hl' hl (Nat.lt_succ_self _) hnext
    (List.getElem?_eq_getElem hfar)).of_sublist hcolumns) hreturned)

end Fair

/-- The walk with a limit ends, and what it returns is a fair beginning of the walk without. -/
theorem iterRepoFiles_fairBeginning
    (root : RepoRoot)
    (tree : RepoTree)
    (n : ℕ)
    (hn : 1 ≤ n)
    (hdistinct : tree.DistinctNames) :
    FairBeginning root n (iterRepoFiles root none tree).files
      (iterRepoFiles root (some n) tree).files := by
  have hperm := @perm_walkOrder root tree
  have hnodup : (walkOrder root tree).Nodup := nodup_walkOrder hdistinct
  have hcapped : (iterRepoFiles root (some n) tree).files = (walkOrder root tree).take n := by
    rw [iterRepoFiles_some, max_eq_right hn]
  rw [hcapped]
  refine ⟨hperm.nodup_iff.mp hnodup, hnodup.sublist (List.take_sublist n _), ?_, ?_, ?_, ?_, ?_⟩
  · rw [List.length_take, hperm.length_eq]
  · intro p hp
    exact hperm.mem_iff.mp (List.mem_of_mem_take hp)
  · intro hle p
    rw [List.take_of_length_le (by rw [hperm.length_eq]; exact hle)]
    exact hperm.mem_iff
  · intro p hp q hq hleft
    rw [← hperm.mem_iff] at hq
    match tree, hdistinct with
    | .single name _ _, _ =>
        have hall : ([[name]] : List RepoPath).take n = [[name]] := List.take_of_length_le hn
        exact absurd (hall.symm ▸ hq) hleft
    | .directory none, _ => cases hq
    | .directory (some entries), hdistinct =>
        by_contra hlt
        exact hleft ((precedes_of_group_lt hdistinct.1 hdistinct.2 (List.mem_of_mem_take hp) hq
          (not_le.mp hlt)).mem_take hnodup hp)
  · intro p hp q hq hleft hgroup
    rw [← hperm.mem_iff] at hp hq
    match tree, hdistinct with
    | .single name _ _, _ =>
        have hall : ([[name]] : List RepoPath).take n = [[name]] := List.take_of_length_le hn
        exact absurd (hall.symm ▸ hq) hleft
    | .directory none, _ => cases hq
    | .directory (some entries), hdistinct =>
        exact returnedFrom_le hdistinct.1 hdistinct.2 hnodup hp hq hleft hgroup

/-- The files `a` and `b`. -/
def twoFilesTree : RepoTree :=
  .directory (some
    [(⟨['a'], List.cons_ne_nil _ _, List.not_mem_cons_of_ne_of_not_mem (by decide)
        List.not_mem_nil⟩, .file [] 0),
      (⟨['b'], List.cons_ne_nil _ _, List.not_mem_cons_of_ne_of_not_mem (by decide)
        List.not_mem_nil⟩, .file [] 0)])

/-- A walk over two files with a limit of one. -/
theorem iterRepoFiles_fairBeginning_twoFiles :
    twoFilesTree.DistinctNames ∧
      FairBeginning ⟨[['/']], id⟩ 1 (iterRepoFiles ⟨[['/']], id⟩ none twoFilesTree).files
        (iterRepoFiles ⟨[['/']], id⟩ (some 1) twoFilesTree).files := by
  have hdistinct : twoFilesTree.DistinctNames := by
    simp [twoFilesTree, RepoTree.DistinctNames, nodeDistinct, entriesDistinct]
  exact ⟨hdistinct, iterRepoFiles_fairBeginning _ twoFilesTree 1 (le_refl 1) hdistinct⟩

end RepoMap
end TensorGrep
