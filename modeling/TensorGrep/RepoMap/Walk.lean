import TensorGrep.RepoMap.Gitignore

/-!
# The walk over the files of a repository

`_iter_repo_bucket_files` yields the files below a directory: source directories
and tests first, then the directory's own files, then the other directories.
Without a limit the files of the whole tree are sorted.  With a limit each entry of
the root is a bucket; the buckets are grouped by priority, and the walk takes one
file from each bucket of a group in turn until it has as many as it may.

The iterators are lazy: what cannot be read is recorded when an iterator comes to
it, and an iterator that is not asked again never does.
-/

namespace TensorGrep
namespace RepoMap

open Kernel

/-! ## The tree -/

/-- What there is in a directory.  A link is neither a file nor a directory; `target` is what reading
through it gives.  An entry fails if it cannot be asked for its type, and a directory without
entries cannot be listed. -/
inductive RepoNode where
  | file (contents : Bytes) (mtimeNs : Int)
  | link (target : Option Bytes)
  | failing
  | dir (entries : Option (List (FileName × RepoNode)))

/-- Named nodes. -/
abbrev RepoEntries := List (FileName × RepoNode)

/-- A root is a file or a directory. -/
inductive RepoTree where
  | single (name : FileName) (contents : Bytes) (mtimeNs : Int)
  | directory (entries : Option RepoEntries)

mutual

/-- The contents and the modification time of a file below a node. -/
def nodeFile : RepoNode → RepoPath → Option (Bytes × ℤ)
  | .file contents mtimeNs, [] => some (contents, mtimeNs)
  | .dir (some entries), name :: rest => entriesFile entries name rest
  | _, _ => none

/-- The contents and the modification time of a file below an entry. -/
def entriesFile : List (FileName × RepoNode) → FileName → RepoPath → Option (Bytes × ℤ)
  | [], _, _ => none
  | (name', node) :: entries, name, rest =>
      if name' = name then nodeFile node rest else entriesFile entries name rest

end

/-- The contents and the modification time of a file. -/
def RepoTree.fileAt
    (tree : RepoTree)
    (path : RepoPath) : Option (Bytes × ℤ) :=
  match tree with
  | .single name contents mtimeNs => if path = [name] then some (contents, mtimeNs) else none
  | .directory entries => nodeFile (.dir entries) path

mutual

/-- No directory below a node has a name twice. -/
def nodeDistinct : RepoNode → Prop
  | .dir (some entries) => (entries.map Prod.fst).Nodup ∧ entriesDistinct entries
  | _ => True

/-- No directory below an entry has a name twice. -/
def entriesDistinct : List (FileName × RepoNode) → Prop
  | [] => True
  | (_, node) :: entries => nodeDistinct node ∧ entriesDistinct entries

end

/-- No directory has a name twice. -/
def RepoTree.DistinctNames : RepoTree → Prop
  | .single _ _ _ => True
  | .directory entries => nodeDistinct (.dir entries)

/-- The parts of the resolved path of the root directory, or of the directory of a root file, and
`str.lower`. -/
structure RepoRoot where
  parts : List Text
  lower : Text → Text

/-! ## Names -/

/-- `Path.suffix`. -/
def pathSuffix (name : Text) : Text :=
  let tail := name.reverse.takeWhile (· ≠ '.')
  if tail ≠ [] ∧ tail.length + 1 < name.length then '.' :: tail.reverse else []

/-- The text is one of the words. -/
def isWord
    (words : List String)
    (t : Text) : Bool :=
  words.any fun word => word.toList = t

theorem isWord_iff
    {words : List String}
    {t : Text} :
    isWord words t ↔ String.ofList t ∈ words := by
  rw [isWord, List.any_eq_true]
  constructor
  · rintro ⟨word, hword, hsame⟩
    rwa [← of_decide_eq_true hsame, String.ofList_toList]
  · intro hword
    exact ⟨_, hword, decide_eq_true String.toList_ofList⟩

def skipDirNames : List String :=
  [".tensor-grep", "_tg_refs", ".tg_semantic_index", "external_repos", ".git", ".hg", ".svn",
    ".venv", ".mypy_cache", ".next", ".nyc_output", ".parcel-cache", ".pytest_cache",
    ".ruff_cache", ".tmp", ".venv_cuda", ".tox", ".turbo", ".vite", ".vitest", "__pycache__",
    "artifacts", "bench_data", "build", "coverage", "dist", "gpu_bench_data",
    "group2_many_files", "htmlcov", "many_files", "node_modules", "out", "site", "target", "temp",
    "tmp", "tmp_agent_probe", "venv", ".cache", ".nox", "site-packages", "vendor", "pods", "gems",
    ".bundle", ".gradle", ".cargo", "bower_components"]

def vendorCacheDirComponents : List String :=
  skipDirNames ++ ["site_packages"]

def sourceFirstDirNames : List String :=
  [".claude", "app", "apps", "bin", "cmd", "crates", "lib", "packages", "rust_core", "scripts",
    "src", "tools"]

def testDirNames : List String :=
  ["__tests__", "spec", "specs", "test", "tests"]

def sourceFirstSuffixes : List String :=
  [".c", ".cc", ".cjs", ".cpp", ".cs", ".css", ".cxx", ".go", ".h", ".hh", ".hpp", ".hxx", ".java",
    ".js", ".jsx", ".kt", ".lua", ".mjs", ".php", ".py", ".rs", ".swift", ".tsx", ".ts"]

def codeContextSuffixes : List String :=
  sourceFirstSuffixes ++ [".js", ".jsx", ".ts", ".tsx", ".mjs", ".cjs", ".rs", ".py"]

def fallbackSourceSuffixes : List String :=
  [".adoc", ".cfg", ".ini", ".json", ".md", ".markdown", ".rst", ".toml", ".txt", ".yaml", ".yml"]

def contextFileSuffixes : List String :=
  codeContextSuffixes ++ fallbackSourceSuffixes

def nonCodeHiddenSuffixes : List String :=
  [".bak", ".bin", ".cache", ".db", ".log", ".pid", ".sqlite", ".tmp"]

section Names

variable (root : RepoRoot)

/-- The name of the directory at a path. -/
def dirName (path : RepoPath) : Text :=
  (path.getLast?.map FileName.text).getD (root.parts.getLast?.getD [])

/-- `_should_skip_repo_dir` for an entry of the directory at `path`. -/
def shouldSkipRepoDir
    (path : RepoPath)
    (name : FileName) : Bool :=
  let lowered := root.lower name.text
  isWord skipDirNames lowered ||
    (lowered = "context".toList && root.lower (dirName root path) = ".claude".toList) ||
    [".tmp_", ".tmp-", "tg-agent-gpu-probe", "tg-doctor-gpu-probe"].any fun start =>
      start.toList <+: lowered

/-- `_repo_walk_dir_sort_key`. -/
def repoWalkDirSortKey (name : FileName) : ℕ ×ₗ Text :=
  let normalized := root.lower name.text
  if isWord sourceFirstDirNames normalized then toLex (0, normalized)
  else if isWord testDirNames normalized then toLex (1, normalized)
  else toLex (2, normalized)

/-- `_repo_walk_file_sort_key`. -/
def repoWalkFileSortKey (name : FileName) : ℕ ×ₗ Text :=
  if isWord sourceFirstSuffixes (root.lower (pathSuffix name.text)) then
    toLex (0, root.lower name.text)
  else toLex (1, root.lower name.text)

/-- The name at the end of a path. -/
def lastName (path : RepoPath) : Text :=
  (path.getLast?.map FileName.text).getD []

/-- The first component of `_repo_walk_path_sort_key`. -/
def repoWalkGroup
    (path : RepoPath)
    (isDir : Bool) : ℕ :=
  let groupParts := (if isDir then path else path.dropLast).map fun name => root.lower name.text
  if groupParts.any (isWord sourceFirstDirNames) then 0
  else if groupParts.any (isWord testDirNames) then 1
  else if path.length = 1 && !isDir then 2
  else 3

/-- `_repo_walk_path_sort_key` of a file. -/
def repoWalkPathSortKey (path : RepoPath) : ℕ ×ₗ ℕ ×ₗ ℕ ×ₗ Text :=
  let suffix := root.lower (pathSuffix (lastName path))
  toLex (repoWalkGroup root path false,
    toLex (if isWord sourceFirstSuffixes suffix then 0 else 1,
      toLex (path.length, root.lower (asPosix path))))

/-- `_repo_walk_bucket_sort_key` of an entry of the root. -/
def repoWalkBucketSortKey
    (name : FileName)
    (isDir : Bool) : ℕ ×ₗ Text :=
  toLex (repoWalkGroup root [name] isDir, root.lower name.text)

/-- `_path_has_vendor_component`. -/
def pathHasVendorComponent (path : RepoPath) : Bool :=
  path.dropLast.any fun name =>
    let part := root.lower name.text
    isWord vendorCacheDirComponents part || ".tmp_".toList <+: part || ".tmp-".toList <+: part

/-- `_is_hidden_non_code_file`. -/
def isHiddenNonCodeFile (path : RepoPath) : Bool :=
  let hidden := path.dropLast.any fun name =>
    name.text.head? = some '.' && root.lower name.text ≠ ".github".toList
  (hidden || (lastName path).head? = some '.') &&
    !isWord codeContextSuffixes (root.lower (pathSuffix (lastName path)))

/-- `_is_repo_context_file`. -/
def isRepoContextFile (path : RepoPath) : Bool :=
  let suffix := root.lower (pathSuffix (lastName path))
  isWord contextFileSuffixes suffix && !isWord nonCodeHiddenSuffixes suffix &&
    !isHiddenNonCodeFile root path

/-- `_is_test_file`. -/
def isTestFile (path : RepoPath) : Bool :=
  let name := lastName path
  let parts := root.parts ++ path.map FileName.text
  "test_".toList <+: name ||
    ["_test.py", ".test.ts", ".test.js", ".spec.ts", ".spec.js"].any (fun ending =>
      ending.toList <:+ name) ||
    "tests".toList ∈ parts || "__tests__".toList ∈ parts

end Names

/-! ## `.gitignore` files -/

/-- The name `.gitignore`. -/
def gitignoreName : FileName :=
  ⟨".gitignore".toList, by decide, by decide⟩

/-- The node with a name. -/
def RepoEntries.find?
    (name : FileName)
    (entries : RepoEntries) : Option RepoNode :=
  (List.find? (fun entry => entry.1 = name) entries).map Prod.snd

/-- `gitignore_path.read_text(encoding="utf-8").splitlines()`, where `is_file` and reading
succeed. -/
def gitignoreLines (entries : RepoEntries) : List Text :=
  let contents :=
    match entries.find? gitignoreName with
    | some (.file contents _) => some contents
    | some (.link target) => target
    | _ => none
  match contents.bind fromUtf8 with
  | none => []
  | some text => (splitlines (universalNewlines text)).map fun line =>
      line.rdropWhile (· ∈ lineBoundaries)

/-- `_load_gitignore_matcher`. -/
def loadGitignoreMatcher
    (path : RepoPath)
    (entries : RepoEntries) : GitignoreMatcher :=
  gitignoreMatcher path (gitignoreLines entries)

/-- What loads the matcher of a directory, for its path and its entries. -/
abbrev MatcherLoader := RepoPath → RepoEntries → GitignoreMatcher

/-! ## Buckets -/

/-- What an iterator comes to. -/
inductive WalkItem where
  | file (path : RepoPath)
  | unreadable (path : RepoPath)
deriving DecidableEq

/-- The entries of a directory that are not left out.  A directory has the items of its iterator. -/
inductive ScannedEntry where
  | file (name : FileName) (path : RepoPath)
  | directory (name : FileName) (items : List WalkItem)
  | failing (path : RepoPath)

namespace ScannedEntry

/-- A file. -/
def file? : ScannedEntry → Option (FileName × RepoPath)
  | file name path => some (name, path)
  | _ => none

/-- A directory. -/
def directory? : ScannedEntry → Option (FileName × List WalkItem)
  | directory name items => some (name, items)
  | _ => none

/-- An entry that fails. -/
def failing? : ScannedEntry → Option RepoPath
  | failing path => some path
  | _ => none

end ScannedEntry

/-- The order of `_iter_repo_bucket_files`. -/
def arrange
    (root : RepoRoot)
    (scanned : List ScannedEntry) : List WalkItem :=
  let dirs := sortByKey (fun d => repoWalkDirSortKey root d.1)
    (scanned.filterMap ScannedEntry.directory?)
  let files := sortByKey (fun f => repoWalkFileSortKey root f.1)
    (scanned.filterMap ScannedEntry.file?)
  let isSource := fun d : FileName × List WalkItem => (ofLex (repoWalkDirSortKey root d.1)).1 ≤ 1
  (scanned.filterMap ScannedEntry.failing?).map .unreadable ++
    (dirs.filter isSource).flatMap Prod.snd ++ files.map (fun f => .file f.2) ++
    (dirs.filter fun d => !isSource d).flatMap Prod.snd

/-- The stack of matchers in a directory. -/
def pushMatcher
    (stack : List GitignoreMatcher)
    (own : GitignoreMatcher) : List GitignoreMatcher :=
  if own.rules = [] then stack else stack ++ [own]

section Buckets

variable (root : RepoRoot) (load : MatcherLoader)

mutual

/-- `_iter_repo_bucket_files`. -/
def iterRepoBucketFiles
    (stack : List GitignoreMatcher)
    (path : RepoPath) : RepoNode → List WalkItem
  | .dir (some entries) =>
      arrange root (scanEntries (pushMatcher stack (load path entries)) path entries)
  | .dir none => [.unreadable path]
  | _ => []

/-- The loop over the entries of a directory. -/
def scanEntries
    (stack : List GitignoreMatcher)
    (path : RepoPath) : List (FileName × RepoNode) → List ScannedEntry
  | [] => []
  | (name, node) :: rest =>
      match node with
      | .dir _ =>
          if shouldSkipRepoDir root path name then scanEntries stack path rest
          else if stackIgnored stack (path ++ [name]) true then scanEntries stack path rest
          else
            .directory name (iterRepoBucketFiles stack (path ++ [name]) node) ::
              scanEntries stack path rest
      | .file _ _ =>
          if stackIgnored stack (path ++ [name]) false then scanEntries stack path rest
          else .file name (path ++ [name]) :: scanEntries stack path rest
      | .failing => .failing (path ++ [name]) :: scanEntries stack path rest
      | .link _ => scanEntries stack path rest

end

end Buckets

/-! ## The walk with a limit -/

/-- What a walk has selected, and what it could not read. -/
structure WalkResult where
  files : List RepoPath
  unreadable : List RepoPath
deriving DecidableEq

/-- An entry of the root with its iterator. -/
structure Bucket where
  key : ℕ ×ₗ Text
  items : List WalkItem

/-- `next`: what is recorded on the way, and the next file with what comes after it. -/
def nextFile : List WalkItem → List RepoPath × Option (RepoPath × List WalkItem)
  | [] => ([], none)
  | .file path :: rest => ([], some (path, rest))
  | .unreadable path :: rest => (path :: (nextFile rest).1, (nextFile rest).2)

/-- The result with one more file and more unreadable paths. -/
def WalkResult.record
    (result : WalkResult)
    (unreadable : List RepoPath)
    (file : Option RepoPath) : WalkResult :=
  ⟨result.files ++ file.toList, result.unreadable ++ unreadable⟩

/-- One file from each active bucket, and the buckets that stay active. -/
def drainRound (limit : ℕ) : List Bucket → WalkResult → WalkResult × List Bucket
  | [], result => (result, [])
  | bucket :: buckets, result =>
      match nextFile bucket.items with
      | (unreadable, none) => drainRound limit buckets (result.record unreadable none)
      | (unreadable, some (file, rest)) =>
          let result := result.record unreadable (some file)
          if limit ≤ result.files.length then (result, [])
          else
            let (result, active) := drainRound limit buckets result
            (result, ⟨bucket.key, rest⟩ :: active)

/-- How much there is in buckets. -/
def bucketsSize (buckets : List Bucket) : ℕ :=
  (buckets.map fun bucket => bucket.items.length + 1).sum

theorem length_le_of_nextFile
    {items rest : List WalkItem}
    {unreadable : List RepoPath}
    {file : RepoPath}
    (h : nextFile items = (unreadable, some (file, rest))) :
    rest.length < items.length := by
  induction items generalizing unreadable with
  | nil => cases h
  | cons item items ih =>
      cases item with
      | file path =>
          cases h
          exact Nat.lt_succ_self _
      | unreadable path =>
          rw [nextFile, Prod.mk.injEq] at h
          exact lt_trans (ih (Prod.ext rfl h.2)) (Nat.lt_succ_self _)

theorem bucketsSize_drainRound_le
    (limit : ℕ)
    (buckets : List Bucket)
    (result : WalkResult) :
    bucketsSize (drainRound limit buckets result).2 + buckets.length ≤ bucketsSize buckets := by
  induction buckets generalizing result with
  | nil => exact le_refl _
  | cons bucket buckets ih =>
      rw [drainRound]
      have hsize : bucketsSize (bucket :: buckets) =
          bucket.items.length + 1 + bucketsSize buckets := by
        simp [bucketsSize]
      rw [List.length_cons, hsize]
      split
      case h_1 unreadable hnext =>
          have := ih (result.record unreadable none)
          omega
      case h_2 unreadable file rest hnext =>
          have hlt := length_le_of_nextFile hnext
          dsimp only
          split
          · have := ih result
            rw [show bucketsSize [] = 0 from rfl]
            omega
          · have := ih (result.record unreadable (some file))
            have hcons : ∀ active, bucketsSize (⟨bucket.key, rest⟩ :: active) =
                rest.length + 1 + bucketsSize active := by
              simp [bucketsSize]
            rw [hcons]
            omega

/-- Rounds over the buckets of one group. -/
def drainGroup
    (limit : ℕ)
    (active : List Bucket)
    (result : WalkResult) : WalkResult :=
  if h : active ≠ [] ∧ result.files.length < limit then
    have hlt : bucketsSize (drainRound limit active result).2 < bucketsSize active := by
      have hsize := bucketsSize_drainRound_le limit active result
      have hpos := List.length_pos_of_ne_nil h.1
      omega
    drainGroup limit (drainRound limit active result).2 (drainRound limit active result).1
  else result
termination_by bucketsSize active

/-- The groups one after the other. -/
def drainGroups
    (limit : ℕ)
    (buckets : List Bucket) : List ℕ → WalkResult → WalkResult
  | [], result => result
  | group :: groups, result =>
      let active := sortByKey Bucket.key
        (buckets.filter fun bucket => (ofLex bucket.key).1 = group)
      let result := drainGroup limit active result
      if limit ≤ result.files.length then result else drainGroups limit buckets groups result

section IterRepoFiles

variable (root : RepoRoot) (load : MatcherLoader)

/-- The bucket of an entry of the root. -/
def bucketOf : ScannedEntry → Option Bucket
  | .file name path => some ⟨repoWalkBucketSortKey root name false, [.file path]⟩
  | .directory name items => some ⟨repoWalkBucketSortKey root name true, items⟩
  | .failing _ => none

/-- The files that are walked over, and what cannot be read. -/
def walkedFiles (items : List WalkItem) : List RepoPath :=
  items.filterMap fun item =>
    match item with
    | .file path => some path
    | .unreadable _ => none

def walkedUnreadable (items : List WalkItem) : List RepoPath :=
  items.filterMap fun item =>
    match item with
    | .file _ => none
    | .unreadable path => some path

/-- `_iter_repo_files` with a limit, for the entries of the root.  The matcher of the root is the
only one in the stack, with or without rules. -/
def iterCappedFiles
    (maxFiles : ℕ)
    (entries : RepoEntries) : WalkResult :=
  let scanned := scanEntries root load [load [] entries] [] entries
  let buckets := scanned.filterMap (bucketOf root)
  let groups := sortDedup id (buckets.map fun bucket => (ofLex bucket.key).1)
  drainGroups (max 1 maxFiles) buckets groups ⟨[], scanned.filterMap ScannedEntry.failing?⟩

/-- `_iter_repo_files`, with the matchers that are loaded. -/
def iterRepoFilesWith
    (maxFiles : Option ℕ) : RepoTree → WalkResult
  | .single name _ _ => ⟨[[name]], []⟩
  | .directory entries =>
      match maxFiles, entries with
      | some _, none => ⟨[], [[]]⟩
      | some maxFiles, some entries => iterCappedFiles root load maxFiles entries
      | none, entries =>
          let items := iterRepoBucketFiles root load [] [] (.dir entries)
          ⟨sortByKey (repoWalkPathSortKey root) (walkedFiles items), walkedUnreadable items⟩

/-- `_iter_repo_files` in a process that has loaded no matcher yet. -/
def iterRepoFiles
    (maxFiles : Option ℕ)
    (tree : RepoTree) : WalkResult :=
  iterRepoFilesWith root loadGitignoreMatcher maxFiles tree

end IterRepoFiles

end RepoMap
end TensorGrep
