import TensorGrep.Kernel.Columns
import TensorGrep.RepoMap.Walk

/-!
# The order of the walk

Without its limit the bucket walk visits the files of the groups in turn, and in
each group one file from each bucket in turn.  With a limit it is the beginning of
this order (`iterCappedFiles_files`).  Over the whole tree it has the files that
the walk without buckets has (`mem_walkOrder_iff`).
-/

namespace TensorGrep
namespace RepoMap

open Kernel

/-! ## One bucket and one round -/

@[simp] theorem walkedFiles_nil :
    walkedFiles [] = [] :=
  rfl

@[simp] theorem walkedFiles_file_cons
    (path : RepoPath)
    (items : List WalkItem) :
    walkedFiles (.file path :: items) = path :: walkedFiles items :=
  rfl

@[simp] theorem walkedFiles_unreadable_cons
    (path : RepoPath)
    (items : List WalkItem) :
    walkedFiles (.unreadable path :: items) = walkedFiles items :=
  rfl

theorem walkedFiles_of_nextFile_none
    {items : List WalkItem}
    {unreadable : List RepoPath}
    (h : nextFile items = (unreadable, none)) :
    walkedFiles items = [] := by
  induction items generalizing unreadable with
  | nil => rfl
  | cons item items ih =>
      cases item with
      | file path => cases h
      | unreadable path =>
          rw [nextFile, Prod.mk.injEq] at h
          exact ih (Prod.ext rfl h.2)

theorem walkedFiles_of_nextFile_some
    {items rest : List WalkItem}
    {unreadable : List RepoPath}
    {file : RepoPath}
    (h : nextFile items = (unreadable, some (file, rest))) :
    walkedFiles items = file :: walkedFiles rest := by
  induction items generalizing unreadable with
  | nil => cases h
  | cons item items ih =>
      cases item with
      | file path =>
          cases h
          rfl
      | unreadable path =>
          rw [nextFile, Prod.mk.injEq] at h
          exact ih (Prod.ext rfl h.2)

/-- The files of buckets. -/
def bucketFiles (buckets : List Bucket) : List (List RepoPath) :=
  buckets.map fun bucket => walkedFiles bucket.items

@[simp] theorem bucketFiles_cons
    (bucket : Bucket)
    (buckets : List Bucket) :
    bucketFiles (bucket :: buckets) = walkedFiles bucket.items :: bucketFiles buckets :=
  rfl

@[simp] theorem files_record
    (result : WalkResult)
    (unreadable : List RepoPath)
    (file : Option RepoPath) :
    (result.record unreadable file).files = result.files ++ file.toList :=
  rfl

/-- A round adds the first file of each bucket, up to the limit. -/
theorem drainRound_files
    {limit : ℕ}
    (buckets : List Bucket)
    {result : WalkResult}
    (hroom : result.files.length < limit) :
    (drainRound limit buckets result).1.files =
      (result.files ++ columnAt (bucketFiles buckets) 0).take limit := by
  induction buckets generalizing result with
  | nil =>
      rw [drainRound]
      simp [bucketFiles, columnAt, List.take_of_length_le hroom.le]
  | cons bucket buckets ih =>
      rw [drainRound]
      split
      case h_1 unreadable hnext =>
          rw [ih (by simpa using hroom), bucketFiles_cons, walkedFiles_of_nextFile_none hnext]
          simp
      case h_2 unreadable file rest hnext =>
          dsimp only
          rw [bucketFiles_cons, walkedFiles_of_nextFile_some hnext]
          split
          case isTrue hfull =>
              rw [files_record, List.length_append] at hfull
              simp only [files_record, columnAt_cons, List.getElem?_cons_zero, Option.toList_some]
              rw [← List.append_assoc, List.take_append_of_le_length, List.take_of_length_le]
              · simp only [List.length_append, List.length_singleton]
                omega
              · simpa using hfull
          case isFalse hfree =>
              rw [ih (not_le.mp hfree)]
              simp

/-- The buckets that stay active have what is left. -/
theorem drainRound_active
    {limit : ℕ}
    (buckets : List Bucket)
    {result : WalkResult}
    (hroom : result.files.length + (columnAt (bucketFiles buckets) 0).length < limit) :
    bucketFiles (drainRound limit buckets result).2 = remainders (bucketFiles buckets) := by
  induction buckets generalizing result with
  | nil => rfl
  | cons bucket buckets ih =>
      rw [drainRound]
      split
      case h_1 unreadable hnext =>
          rw [bucketFiles_cons, walkedFiles_of_nextFile_none hnext] at hroom ⊢
          rw [remainders_cons_nil]
          exact ih (by simpa using hroom)
      case h_2 unreadable file rest hnext =>
          rw [bucketFiles_cons, walkedFiles_of_nextFile_some hnext] at hroom ⊢
          simp only [columnAt_cons, List.getElem?_cons_zero, Option.toList_some,
            List.length_append, List.length_singleton] at hroom
          have hlength : (result.record unreadable (some file)).files.length =
              result.files.length + 1 := by simp
          dsimp only
          rw [if_neg (by omega), remainders_cons_cons, bucketFiles_cons]
          rw [ih (by omega)]

/-! ## Groups -/

/-- A round that reaches the limit is the last one. -/
theorem drainGroup_eq_of_full
    {limit : ℕ}
    {active : List Bucket}
    {result : WalkResult}
    (hne : active ≠ [])
    (hroom : result.files.length < limit)
    (hfull : limit ≤ (drainRound limit active result).1.files.length) :
    drainGroup limit active result = (drainRound limit active result).1 := by
  rw [drainGroup, dif_pos ⟨hne, hroom⟩, drainGroup, dif_neg]
  exact fun h => absurd h.2 (not_lt.mpr hfull)

/-- A group is visited by columns. -/
theorem drainGroup_files
    {limit : ℕ}
    (active : List Bucket)
    (result : WalkResult)
    (hroom : result.files.length ≤ limit) :
    (drainGroup limit active result).files =
      (result.files ++ columns (bucketFiles active)).take limit := by
  induction active, result using drainGroup.induct limit with
  | case1 active result h hlt ih =>
      have hfiles := drainRound_files active h.2
      rw [drainGroup, dif_pos h, ih (by rw [hfiles]; exact List.length_take_le _ _), hfiles,
        columns_eq (bucketFiles active), ← List.append_assoc]
      by_cases hfree : result.files.length + (columnAt (bucketFiles active) 0).length < limit
      · have hshort : (result.files ++ columnAt (bucketFiles active) 0).length ≤ limit := by
          rw [List.length_append]
          exact hfree.le
        rw [drainRound_active active hfree,
          List.take_of_length_le (l := result.files ++ columnAt (bucketFiles active) 0) hshort]
      · have hlong : limit ≤ (result.files ++ columnAt (bucketFiles active) 0).length := by
          rw [List.length_append]
          exact not_lt.mp hfree
        rw [List.take_append_of_le_length hlong, List.take_append_of_le_length, List.take_take,
          min_self]
        rw [List.length_take, min_eq_left hlong]
  | case2 active result h =>
      rw [drainGroup, dif_neg h]
      rcases Classical.not_and_iff_not_or_not.mp h with hnil | hfull
      · rw [not_not.mp hnil, show bucketFiles [] = [] from rfl, columns_nil, List.append_nil,
          List.take_of_length_le hroom]
      · rw [List.take_append_of_le_length (not_lt.mp hfull), List.take_of_length_le hroom]

/-- The active buckets of a group. -/
def groupBuckets
    (buckets : List Bucket)
    (group : ℕ) : List Bucket :=
  sortByKey Bucket.key (buckets.filter fun bucket => (ofLex bucket.key).1 = group)

/-- The files of the groups in the order of the walk. -/
def groupsOrder
    (buckets : List Bucket)
    (groups : List ℕ) : List RepoPath :=
  groups.flatMap fun group => columns (bucketFiles (groupBuckets buckets group))

theorem drainGroups_files
    {limit : ℕ}
    (buckets : List Bucket)
    (groups : List ℕ)
    (result : WalkResult)
    (hroom : result.files.length ≤ limit) :
    (drainGroups limit buckets groups result).files =
      (result.files ++ groupsOrder buckets groups).take limit := by
  induction groups generalizing result with
  | nil =>
      rw [drainGroups, groupsOrder, List.flatMap_nil, List.append_nil,
        List.take_of_length_le hroom]
  | cons group groups ih =>
      have hfiles := drainGroup_files (groupBuckets buckets group) result hroom
      rw [groupsOrder, List.flatMap_cons, ← List.append_assoc]
      change (if limit ≤ (drainGroup limit (groupBuckets buckets group) result).files.length then
          drainGroup limit (groupBuckets buckets group) result
        else drainGroups limit buckets groups
          (drainGroup limit (groupBuckets buckets group) result)).files = _
      split
      case isTrue hfull =>
          rw [hfiles, List.length_take] at hfull
          rw [hfiles, List.take_append_of_le_length (le_trans hfull (min_le_right _ _))]
      case isFalse hfree =>
          have hshort := not_le.mp hfree
          rw [hfiles, List.length_take] at hshort
          have hall := List.take_of_length_le (i := limit)
            (l := result.files ++ columns (bucketFiles (groupBuckets buckets group))) (by omega)
          rw [ih _ (not_le.mp hfree).le, hfiles, hall]
          rfl

/-! ## Stacks that decide alike -/

/-- The stacks ignore the same paths. -/
def DecideAlike (stack stack' : List GitignoreMatcher) : Prop :=
  ∀ path isDir, stackIgnored stack path isDir = stackIgnored stack' path isDir

theorem decideAlike_pushMatcher
    (stack : List GitignoreMatcher)
    (own : GitignoreMatcher) :
    DecideAlike (pushMatcher stack own) (stack ++ [own]) := by
  intro path isDir
  rw [pushMatcher]
  split
  case isTrue hnone =>
      rw [stackIgnored_append, check_of_no_rules hnone]
      rfl
  case isFalse => rfl

theorem DecideAlike.push
    {stack stack' : List GitignoreMatcher}
    (h : DecideAlike stack stack')
    (own : GitignoreMatcher) :
    DecideAlike (pushMatcher stack own) (pushMatcher stack' own) := by
  intro path isDir
  rw [decideAlike_pushMatcher, decideAlike_pushMatcher, stackIgnored_append, stackIgnored_append,
    h path isDir]

section Congruence

variable {root : RepoRoot} {load : MatcherLoader}

mutual

/-- The walk depends on a stack through its decisions only. -/
theorem iterRepoBucketFiles_congr
    {stack stack' : List GitignoreMatcher}
    (h : DecideAlike stack stack')
    (path : RepoPath) :
    ∀ node : RepoNode,
      iterRepoBucketFiles root load stack path node = iterRepoBucketFiles root load stack' path node
  | .dir (some entries) => by
      rw [iterRepoBucketFiles, iterRepoBucketFiles,
        scanEntries_congr (h.push (load path entries)) path entries]
  | .dir none => rfl
  | .file _ _ => rfl
  | .link _ => rfl
  | .failing => rfl

theorem scanEntries_congr
    {stack stack' : List GitignoreMatcher}
    (h : DecideAlike stack stack')
    (path : RepoPath) :
    ∀ entries : List (FileName × RepoNode),
      scanEntries root load stack path entries = scanEntries root load stack' path entries
  | [] => rfl
  | (name, .dir entries) :: rest => by
      rw [scanEntries, scanEntries, h, scanEntries_congr h path rest,
        iterRepoBucketFiles_congr h (path ++ [name]) (.dir entries)]
  | (name, .file contents mtimeNs) :: rest => by
      rw [scanEntries, scanEntries, h, scanEntries_congr h path rest]
  | (name, .failing) :: rest => by
      rw [scanEntries, scanEntries, scanEntries_congr h path rest]
  | (name, .link target) :: rest => by
      rw [scanEntries, scanEntries, scanEntries_congr h path rest]

end

end Congruence

/-! ## The whole tree -/

/-- The files of an entry. -/
def ScannedEntry.files : ScannedEntry → List RepoPath
  | .file _ path => [path]
  | .directory _ items => walkedFiles items
  | .failing _ => []

theorem mem_walkedFiles_iff
    {items : List WalkItem}
    {path : RepoPath} :
    path ∈ walkedFiles items ↔ .file path ∈ items := by
  rw [walkedFiles, List.mem_filterMap]
  constructor
  · rintro ⟨item, hitem, heq⟩
    cases item with
    | file path' =>
        cases heq
        exact hitem
    | unreadable path' => cases heq
  · intro hitem
    exact ⟨_, hitem, rfl⟩

/-- Arranging loses no file. -/
theorem mem_walkedFiles_arrange_iff
    {root : RepoRoot}
    {scanned : List ScannedEntry}
    {path : RepoPath} :
    path ∈ walkedFiles (arrange root scanned) ↔ ∃ entry ∈ scanned, path ∈ entry.files := by
  rw [mem_walkedFiles_iff, arrange]
  simp only [List.mem_append, List.mem_map, List.mem_flatMap, List.mem_filter, mem_sortByKey,
    List.mem_filterMap]
  constructor
  · rintro (((⟨_, -, heq⟩ | ⟨d, ⟨⟨entry, hentry, hd⟩, -⟩, hpath⟩) | ⟨f, ⟨entry, hentry, hf⟩, heq⟩) |
      ⟨d, ⟨⟨entry, hentry, hd⟩, -⟩, hpath⟩)
    · cases heq
    · cases entry <;> cases hd
      exact ⟨_, hentry, mem_walkedFiles_iff.mpr hpath⟩
    · cases entry <;> cases hf
      cases heq
      exact ⟨_, hentry, List.mem_singleton_self _⟩
    · cases entry <;> cases hd
      exact ⟨_, hentry, mem_walkedFiles_iff.mpr hpath⟩
  · rintro ⟨entry, hentry, hpath⟩
    cases entry with
    | file name path' =>
        rw [List.mem_singleton.mp hpath]
        exact Or.inl (Or.inr ⟨(name, path'), ⟨_, hentry, rfl⟩, rfl⟩)
    | directory name items =>
        have hitem := mem_walkedFiles_iff.mp hpath
        by_cases hsource : (ofLex (repoWalkDirSortKey root name)).1 ≤ 1
        · exact Or.inl (Or.inl (Or.inr ⟨(name, items), ⟨⟨_, hentry, rfl⟩, by simpa using hsource⟩,
            hitem⟩))
        · exact Or.inr ⟨(name, items), ⟨⟨_, hentry, rfl⟩, by simpa using hsource⟩, hitem⟩
    | failing path' => cases hpath

theorem mem_bucketFiles_iff
    {root : RepoRoot}
    {scanned : List ScannedEntry}
    {path : RepoPath} :
    (∃ bucket ∈ scanned.filterMap (bucketOf root), path ∈ walkedFiles bucket.items) ↔
      ∃ entry ∈ scanned, path ∈ entry.files := by
  simp only [List.mem_filterMap]
  constructor
  · rintro ⟨bucket, ⟨entry, hentry, hbucket⟩, hpath⟩
    refine ⟨entry, hentry, ?_⟩
    cases entry <;> cases hbucket <;> exact hpath
  · rintro ⟨entry, hentry, hpath⟩
    cases entry with
    | file name path' => exact ⟨_, ⟨_, hentry, rfl⟩, hpath⟩
    | directory name items => exact ⟨_, ⟨_, hentry, rfl⟩, hpath⟩
    | failing path' => cases hpath

/-- The groups have the files of all buckets. -/
theorem mem_groupsOrder_iff
    {buckets : List Bucket}
    {path : RepoPath} :
    path ∈ groupsOrder buckets (sortDedup id (buckets.map fun bucket => (ofLex bucket.key).1)) ↔
      ∃ bucket ∈ buckets, path ∈ walkedFiles bucket.items := by
  simp only [groupsOrder, List.mem_flatMap, mem_sortDedup Function.injective_id, List.mem_map,
    mem_columns_iff, bucketFiles, groupBuckets, mem_sortByKey, List.mem_filter]
  constructor
  · rintro ⟨group, -, l, ⟨bucket, ⟨hbucket, -⟩, rfl⟩, hpath⟩
    exact ⟨bucket, hbucket, hpath⟩
  · rintro ⟨bucket, hbucket, hpath⟩
    exact ⟨_, ⟨bucket, hbucket, rfl⟩, _, ⟨bucket, ⟨hbucket, decide_eq_true rfl⟩, rfl⟩, hpath⟩

section Order

variable (root : RepoRoot)

/-- The order of the bucket walk over the entries of the root. -/
def entriesOrder (entries : RepoEntries) : List RepoPath :=
  let buckets := (scanEntries root loadGitignoreMatcher [loadGitignoreMatcher [] entries] [] entries).filterMap
    (bucketOf root)
  groupsOrder buckets (sortDedup id (buckets.map fun bucket => (ofLex bucket.key).1))

/-- The order of the bucket walk. -/
def walkOrder : RepoTree → List RepoPath
  | .single name _ _ => [[name]]
  | .directory none => []
  | .directory (some entries) => entriesOrder root entries

variable {root}

/-- A walk with a limit takes the first files of the order. -/
theorem iterRepoFiles_some
    (maxFiles : ℕ)
    (tree : RepoTree) :
    (iterRepoFiles root (some maxFiles) tree).files =
      (walkOrder root tree).take (max 1 maxFiles) := by
  match tree with
  | .single name _ _ =>
      exact (List.take_of_length_le (le_max_left 1 maxFiles)).symm
  | .directory none => exact (List.take_nil).symm
  | .directory (some entries) =>
      rw [iterRepoFiles, iterRepoFilesWith, iterCappedFiles, drainGroups_files _ _ _ (Nat.zero_le _)]
      rfl

/-- The order has the files of the walk without a limit. -/
theorem mem_walkOrder_iff
    {tree : RepoTree}
    {path : RepoPath} :
    path ∈ walkOrder root tree ↔ path ∈ (iterRepoFiles root none tree).files := by
  match tree with
  | .single name _ _ => exact Iff.rfl
  | .directory none =>
      rw [iterRepoFiles, iterRepoFilesWith, iterRepoBucketFiles]
      simp [walkOrder, mem_sortByKey]
  | .directory (some entries) =>
      have halike := decideAlike_pushMatcher [] (loadGitignoreMatcher [] entries)
      rw [iterRepoFiles, iterRepoFilesWith, mem_sortByKey, iterRepoBucketFiles,
        mem_walkedFiles_arrange_iff, scanEntries_congr halike, walkOrder, entriesOrder, mem_groupsOrder_iff,
        mem_bucketFiles_iff]
      rfl

end Order

/-! ## Walked files are files of the tree -/

section Files

variable {root : RepoRoot} {load : MatcherLoader}

/-- The nodes of distinct entries are distinct below. -/
theorem nodeDistinct_of_mem
    {entries : List (FileName × RepoNode)}
    {name : FileName}
    {node : RepoNode}
    (hdistinct : entriesDistinct entries)
    (h : (name, node) ∈ entries) :
    nodeDistinct node := by
  induction entries with
  | nil => exact absurd h List.not_mem_nil
  | cons first rest ih =>
      rw [entriesDistinct] at hdistinct
      rcases List.mem_cons.mp h with rfl | h
      · exact hdistinct.1
      · exact ih hdistinct.2 h

theorem entriesFile_of_mem
    {entries : List (FileName × RepoNode)}
    {name : FileName}
    {node : RepoNode}
    (hnodup : (entries.map Prod.fst).Nodup)
    (h : (name, node) ∈ entries)
    (rest : RepoPath) :
    entriesFile entries name rest = nodeFile node rest := by
  induction entries with
  | nil => cases h
  | cons entry entries ih =>
      obtain ⟨name', node'⟩ := entry
      rw [List.map_cons, List.nodup_cons] at hnodup
      rw [entriesFile]
      rcases List.mem_cons.mp h with heq | hmem
      · cases heq
        rw [if_pos rfl]
      · rw [if_neg, ih hnodup.2 hmem]
        rintro rfl
        exact hnodup.1 (List.mem_map.mpr ⟨_, hmem, rfl⟩)

/-- The entry for a node that is not left out. -/
def scannedEntry
    (root : RepoRoot)
    (load : MatcherLoader)
    (stack : List GitignoreMatcher)
    (path : RepoPath)
    (name : FileName) : RepoNode → ScannedEntry
  | .file _ _ => .file name (path ++ [name])
  | .failing => .failing (path ++ [name])
  | node => .directory name (iterRepoBucketFiles root load stack (path ++ [name]) node)

/-- A scanned entry is that of the first node or a later one. -/
theorem mem_scanEntries_cons
    {stack : List GitignoreMatcher}
    {path : RepoPath}
    {name : FileName}
    {node : RepoNode}
    {rest : List (FileName × RepoNode)}
    {entry : ScannedEntry}
    (h : entry ∈ scanEntries root load stack path ((name, node) :: rest)) :
    entry = scannedEntry root load stack path name node ∨
      entry ∈ scanEntries root load stack path rest := by
  cases node with
  | file contents mtimeNs =>
      rw [scanEntries] at h
      split at h
      · exact Or.inr h
      · exact List.mem_cons.mp h
  | link target =>
      rw [scanEntries] at h
      exact Or.inr h
  | failing =>
      rw [scanEntries] at h
      exact List.mem_cons.mp h
  | dir entries =>
      rw [scanEntries] at h
      split at h
      · exact Or.inr h
      · split at h
        · exact Or.inr h
        · exact List.mem_cons.mp h

theorem walkedFiles_of_not_dir
    {stack : List GitignoreMatcher}
    {path : RepoPath}
    {node : RepoNode}
    (h : ∀ entries, node ≠ .dir entries) :
    walkedFiles (iterRepoBucketFiles root load stack path node) = [] := by
  cases node with
  | dir entries => exact absurd rfl (h entries)
  | file contents mtimeNs => rfl
  | link target => rfl
  | failing => rfl

mutual

/-- The walk below a node yields files that are there. -/
theorem fileAt_of_mem_bucketFiles
    {stack : List GitignoreMatcher}
    {path p : RepoPath} :
    ∀ node : RepoNode, nodeDistinct node →
      p ∈ walkedFiles (iterRepoBucketFiles root load stack path node) →
      ∃ rest, p = path ++ rest ∧ (nodeFile node rest).isSome = true
  | .dir (some entries), hdistinct, hmem => by
      rw [nodeDistinct] at hdistinct
      rw [iterRepoBucketFiles, mem_walkedFiles_arrange_iff] at hmem
      obtain ⟨entry, hentry, hp⟩ := hmem
      obtain ⟨name, node, rest, hnode, rfl, hsome⟩ :=
        fileAt_of_mem_scanEntries entries hdistinct.2 hentry hp
      refine ⟨name :: rest, rfl, ?_⟩
      rw [nodeFile, entriesFile_of_mem hdistinct.1 hnode]
      exact hsome
  | .dir none, _, hmem => by
      rw [iterRepoBucketFiles] at hmem
      cases hmem
  | .file _ _, _, hmem => by
      rw [walkedFiles_of_not_dir (by simp)] at hmem
      cases hmem
  | .link _, _, hmem => by
      rw [walkedFiles_of_not_dir (by simp)] at hmem
      cases hmem
  | .failing, _, hmem => by
      rw [walkedFiles_of_not_dir (by simp)] at hmem
      cases hmem

theorem fileAt_of_mem_scanEntries
    {stack : List GitignoreMatcher}
    {path p : RepoPath}
    {entry : ScannedEntry} :
    ∀ entries : List (FileName × RepoNode), entriesDistinct entries →
      entry ∈ scanEntries root load stack path entries → p ∈ entry.files →
      ∃ name node rest, (name, node) ∈ entries ∧ p = path ++ name :: rest ∧
        (nodeFile node rest).isSome = true
  | [], _, hentry, _ => by
      rw [scanEntries] at hentry
      cases hentry
  | (name, node) :: later, hdistinct, hentry, hp => by
      rw [entriesDistinct] at hdistinct
      rcases mem_scanEntries_cons hentry with rfl | hlater
      · cases node with
        | file contents mtimeNs =>
            exact ⟨name, _, [], List.mem_cons_self, List.mem_singleton.mp hp, rfl⟩
        | failing => cases hp
        | link target =>
            rw [scannedEntry, ScannedEntry.files, walkedFiles_of_not_dir (by simp)] at hp
            · cases hp
            all_goals simp
        | dir entries =>
            obtain ⟨rest, heq, hsome⟩ := fileAt_of_mem_bucketFiles (.dir entries) hdistinct.1 hp
            refine ⟨name, _, rest, List.mem_cons_self, ?_, hsome⟩
            rw [heq, List.append_assoc]
            rfl
      · obtain ⟨name', node', rest, hnode, heq, hsome⟩ :=
          fileAt_of_mem_scanEntries later hdistinct.2 hlater hp
        exact ⟨name', node', rest, List.mem_cons_of_mem _ hnode, heq, hsome⟩

end

/-- Every file of a walk is a file of the tree. -/
theorem fileAt_of_mem_iterRepoFiles
    {tree : RepoTree}
    (hdistinct : tree.DistinctNames)
    {maxFiles : Option ℕ}
    {path : RepoPath}
    (h : path ∈ (iterRepoFiles root maxFiles tree).files) :
    (tree.fileAt path).isSome = true := by
  have hfull : path ∈ (iterRepoFiles root none tree).files := by
    cases maxFiles with
    | none => exact h
    | some n =>
        rw [iterRepoFiles_some] at h
        exact mem_walkOrder_iff.mp (List.mem_of_mem_take h)
  match tree, hdistinct, hfull with
  | .single name contents mtimeNs, _, hmem =>
      rw [RepoTree.fileAt, if_pos (List.mem_singleton.mp hmem)]
      rfl
  | .directory entries, hdistinct, hmem =>
      rw [iterRepoFiles, iterRepoFilesWith, mem_sortByKey] at hmem
      obtain ⟨rest, rfl, hsome⟩ := fileAt_of_mem_bucketFiles (.dir entries) hdistinct hmem
      exact hsome

end Files

end RepoMap
end TensorGrep
