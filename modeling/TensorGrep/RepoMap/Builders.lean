import TensorGrep.RepoMap.Walk

/-!
# The two builders of a repository map

`build_repo_map` walks the tree and parses every context file.
`build_repo_map_incremental` walks the tree as well, but parses only files that a
changeset names or that the previous map does not list, and takes the imports and
symbols of the others from the previous map.

A deadline is the number of files after which it has passed.
-/

namespace TensorGrep
namespace RepoMap

open Kernel

/-! ## Maps -/

/-- A symbol; `details` are the fields that nothing here looks at. -/
structure RepoSymbol (δ : Type) where
  file : RepoPath
  line : ℕ
  kind : Text
  name : Text
  details : δ
deriving DecidableEq

/-- `_imports_and_symbols_for_path`, as a function of the contents of a file, and
`_symbol_navigation_provenance_for_path`.  The symbols of a file name the file. -/
structure SourceParser (δ : Type) where
  imports : RepoPath → Bytes → List Text
  symbols : RepoPath → Bytes → List (RepoSymbol δ)
  provenance : RepoPath → Text
  file_of_mem : ∀ path contents, ∀ symbol ∈ symbols path contents, symbol.file = path

/-- The imports of a file. -/
structure ImportsEntry where
  file : RepoPath
  imports : List Text
  provenance : Text
deriving DecidableEq

/-- `scan_limit` with its `scan_remediation`. -/
structure ScanLimit where
  maxRepoFiles : ℕ
  scannedFiles : ℕ
  possiblyTruncated : Bool
  truncationCause : Option String
  budgetRemediable : Option Bool
deriving DecidableEq

/-- `deadline_limit`. -/
structure DeadlineLimit where
  filesScanned : ℕ
  filesTotal : ℕ
deriving DecidableEq

/-- `unreadable_paths`. -/
structure UnreadablePaths where
  count : ℕ
  sample : List RepoPath
deriving DecidableEq

/-- The payload of a builder.  It is partial if it has a deadline limit. -/
structure RepoMapPayload (δ : Type) where
  files : List RepoPath
  tests : List RepoPath
  symbols : List (RepoSymbol δ)
  imports : List ImportsEntry
  relatedPaths : List RepoPath
  scanLimit : Option ScanLimit
  deadlineLimit : Option DeadlineLimit
  unreadablePaths : Option UnreadablePaths
deriving DecidableEq

/-! ## Parts of the builders -/

/-- `path.read_bytes()`, with nothing in a file that cannot be read. -/
def readFile
    (tree : RepoTree)
    (path : RepoPath) : Bytes :=
  ((tree.fileAt path).map Prod.fst).getD []

/-- `budget_remediable`. -/
def budgetRemediable (cause : String) : Bool :=
  cause ∈ ["project-files", "max-scan-entries", "scan_limit", "deadline", "timeout"]

section Parts

variable {δ : Type} (root : RepoRoot)

/-- `_scan_limit_cause`. -/
def scanLimitCause
    (files : List RepoPath)
    (cappedFileCount maxFiles : ℕ) : String :=
  if cappedFileCount < maxFiles then "project-files"
  else if files.any fun file => !pathHasVendorComponent root file then "project-files"
  else "vendor-cache"

/-- The `scan_limit` that both builders make of the files of a walk and of a count. -/
def scanLimitOf
    (files : List RepoPath)
    (cappedFileCount maxFiles : ℕ) : ScanLimit :=
  let capped := maxFiles ≤ cappedFileCount
  let cause := scanLimitCause root files cappedFileCount maxFiles
  { maxRepoFiles := maxFiles
    scannedFiles := cappedFileCount
    possiblyTruncated := capped && cause = "project-files"
    truncationCause := if capped then some cause else none
    budgetRemediable := if capped then some (budgetRemediable cause) else none }

/-- `unreadable_paths` of a walk. -/
def unreadablePathsOf (unreadable : List RepoPath) : Option UnreadablePaths :=
  if unreadable = [] then none else some ⟨unreadable.length, unreadable.take 5⟩

/-- `sorted(dict.fromkeys(...))` of paths. -/
def relatedPathsOf (paths : List RepoPath) : List RepoPath :=
  sortDedup asPosix paths

/-- The entry of a file with imports. -/
def importsEntryOf
    (parser : SourceParser δ)
    (path : RepoPath)
    (imports : List Text) : Option ImportsEntry :=
  if imports = [] then none else some ⟨path, imports, parser.provenance path⟩

/-- Whether a deadline passes before as many files are looked at. -/
def deadlineHit
    (deadline : Option ℕ)
    (total : ℕ) : Bool :=
  deadline.any (· < total)

/-- The files that are looked at before the deadline. -/
def beforeDeadline
    (deadline : Option ℕ)
    (paths : List RepoPath) : List RepoPath :=
  deadline.elim paths paths.take

end Parts

/-! ## The builders -/

section Builders

variable {δ : Type} (root : RepoRoot) (parser : SourceParser δ)

/-- `max(1, int(max_repo_files))`. -/
def normalizedMaxRepoFiles (maxRepoFiles : Option ℕ) : Option ℕ :=
  maxRepoFiles.map (max 1)

/-- What `build_repo_map` makes of its walk. -/
def mapOfWalk
    (tree : RepoTree)
    (walk : WalkResult)
    (maxFiles : Option ℕ)
    (deadline : Option ℕ) : RepoMapPayload δ :=
  let contextFiles := walk.files.filter (isRepoContextFile root)
  let tests := contextFiles.filter (isTestFile root)
  let nonTestSourceFiles := contextFiles.filter fun path => !isTestFile root path
  let sourceFiles := if nonTestSourceFiles = [] then tests else nonTestSourceFiles
  let parsed := beforeDeadline deadline contextFiles
  { files := sourceFiles
    tests := tests
    symbols := parsed.flatMap fun path => parser.symbols path (readFile tree path)
    imports := parsed.filterMap fun path =>
      importsEntryOf parser path (parser.imports path (readFile tree path))
    relatedPaths := relatedPathsOf (sourceFiles ++ tests)
    scanLimit := maxFiles.map (scanLimitOf root walk.files walk.files.length)
    deadlineLimit :=
      if deadlineHit deadline contextFiles.length then some ⟨parsed.length, contextFiles.length⟩
      else none
    unreadablePaths := unreadablePathsOf walk.unreadable }

/-- `build_repo_map`. -/
def buildRepoMap
    (tree : RepoTree)
    (maxRepoFiles : Option ℕ)
    (deadline : Option ℕ) : RepoMapPayload δ :=
  let maxFiles := normalizedMaxRepoFiles maxRepoFiles
  mapOfWalk root parser tree (iterRepoFiles root maxFiles tree) maxFiles deadline

/-- The paths that a previous map lists. -/
def previousPaths (previous : RepoMapPayload δ) : List RepoPath :=
  if previous.relatedPaths = [] then previous.files ++ previous.tests else previous.relatedPaths

/-- The imports of a file in a previous map; the last entry counts. -/
def previousImports
    (previous : RepoMapPayload δ)
    (path : RepoPath) : List Text :=
  ((previous.imports.reverse.find? fun entry => entry.file = path).map
    ImportsEntry.imports).getD []

/-- The key by which `_group_symbols_by_file` sorts. -/
def symbolKey (symbol : RepoSymbol δ) : Text ×ₗ ℕ ×ₗ Text ×ₗ Text :=
  toLex (asPosix symbol.file, toLex (symbol.line, toLex (symbol.kind, symbol.name)))

/-- The symbols of a file in a previous map, by `_group_symbols_by_file`. -/
def previousSymbols
    (previous : RepoMapPayload δ)
    (path : RepoPath) : List (RepoSymbol δ) :=
  sortByKey symbolKey (previous.symbols.filter fun symbol => symbol.file = path)

/-- A changeset with normalized paths. -/
structure Changeset where
  added : List RepoPath
  modified : List RepoPath
  removed : List RepoPath
deriving DecidableEq

/-- `build_repo_map_incremental`. -/
def buildRepoMapIncremental
    (tree : RepoTree)
    (previous : RepoMapPayload δ)
    (changeset : Changeset)
    (maxRepoFiles : Option ℕ)
    (deadline : Option ℕ) : RepoMapPayload δ :=
  let maxFiles := normalizedMaxRepoFiles maxRepoFiles
  let walk := iterRepoFiles root maxFiles tree
  let allFiles := walk.files.filter (isRepoContextFile root)
  let changedFiles := changeset.added ++ changeset.modified
  let newFiles := allFiles.filter fun path => path ∉ previousPaths previous
  let changedToParse := sortDedup asPosix (changedFiles ++ newFiles)
  let reached := beforeDeadline deadline changedToParse
  let parsed := reached.filter fun path => path ∈ allFiles
  let importsOf := fun path =>
    if path ∈ parsed then parser.imports path (readFile tree path)
    else previousImports previous path
  let symbolsOf := fun path =>
    if path ∈ parsed then parser.symbols path (readFile tree path)
    else previousSymbols previous path
  let tests := allFiles.filter (isTestFile root)
  let sourceFiles := allFiles.filter fun path => !isTestFile root path
  { files := sourceFiles
    tests := tests
    symbols := allFiles.flatMap symbolsOf
    imports := allFiles.filterMap fun path => importsEntryOf parser path (importsOf path)
    relatedPaths := relatedPathsOf (sourceFiles ++ tests)
    scanLimit := maxFiles.map (scanLimitOf root allFiles allFiles.length)
    deadlineLimit :=
      if deadlineHit deadline changedToParse.length then
        some ⟨parsed.length, changedToParse.length⟩
      else none
    unreadablePaths := unreadablePathsOf walk.unreadable }

end Builders

/-- A parser that finds nothing. -/
def emptyParser : SourceParser Unit where
  imports := fun _ _ => []
  symbols := fun _ _ => []
  provenance := fun _ => []
  file_of_mem := fun _ _ _ hmem => nomatch hmem

/-- The name `main.py`. -/
def mainName : FileName :=
  ⟨"main.py".toList, by decide, by decide⟩

/-- A repository under `/r`, with names that are lower-case already. -/
def plainRoot : RepoRoot where
  parts := [['/'], ['r']]
  lower := id

/-! ## Files of a map -/

section Files

variable {root : RepoRoot} {δ : Type} {parser : SourceParser δ} {tree : RepoTree}

/-- A full map has the context files of its walk. -/
theorem mem_buildRepoMap_iff
    {maxRepoFiles deadline : Option ℕ}
    {path : RepoPath} :
    path ∈ (buildRepoMap root parser tree maxRepoFiles deadline).files ∨
        path ∈ (buildRepoMap root parser tree maxRepoFiles deadline).tests ↔
      path ∈ (iterRepoFiles root (normalizedMaxRepoFiles maxRepoFiles) tree).files ∧
        isRepoContextFile root path = true := by
  rw [buildRepoMap, mapOfWalk]
  dsimp only
  rw [← List.mem_filter]
  generalize (iterRepoFiles root (normalizedMaxRepoFiles maxRepoFiles) tree).files.filter
    (isRepoContextFile root) = contextFiles
  split
  case isTrue hnone =>
      rw [or_self, List.mem_filter, and_iff_left_iff_imp]
      intro hpath
      have hall := List.filter_eq_nil_iff.mp hnone path hpath
      simpa using hall
  case isFalse =>
      rw [List.mem_filter, List.mem_filter, ← and_or_left, and_iff_left_iff_imp]
      intro _
      cases isTestFile root path <;> simp

/-- So has an incremental one. -/
theorem mem_buildRepoMapIncremental_iff
    {previous : RepoMapPayload δ}
    {changeset : Changeset}
    {maxRepoFiles deadline : Option ℕ}
    {path : RepoPath} :
    path ∈ (buildRepoMapIncremental root parser tree previous changeset maxRepoFiles
          deadline).files ∨
        path ∈ (buildRepoMapIncremental root parser tree previous changeset maxRepoFiles
          deadline).tests ↔
      path ∈ (iterRepoFiles root (normalizedMaxRepoFiles maxRepoFiles) tree).files ∧
        isRepoContextFile root path = true := by
  rw [buildRepoMapIncremental]
  dsimp only
  rw [← List.mem_filter, List.mem_filter (p := fun path => !isTestFile root path),
    List.mem_filter (p := isTestFile root), ← and_or_left, and_iff_left_iff_imp]
  intro _
  cases isTestFile root path <;> simp

end Files

end RepoMap
end TensorGrep
