import Mathlib.Data.Char
import TensorGrep.Kernel.Folds
import TensorGrep.Kernel.InsertionMaps
import TensorGrep.Kernel.RelativePaths
import TensorGrep.Kernel.SortedKeys
import TensorGrep.Kernel.Utf8Text

/-!
# The pages of a code map

`build_codemap` groups the mapped files by folder and writes a page for each
folder, then an index and a coverage file.  The name of a page is a slug of the
path of its folder, in which every run of characters that are not letters, digits,
`_`, `.` or `-` is one `_`, and so is every `/`; nothing checks that two slugs differ, or
that a slug is not the name of the index.

The files are those of the repository, given by their paths in it.  What is written
is kept by place: a path with the links of its directory followed.
-/

namespace TensorGrep
namespace CodeMap

open Kernel

universe u

/-- A path from the root of the file system. -/
abbrev AbsPath := List Text

/-- The name of the directory above. -/
def parentName : Text :=
  ['.', '.']

/-! ## Names of pages -/

/-- A character that `_SLUG_UNSAFE_RE` leaves alone. -/
def isSlugSafe (c : Char) : Bool :=
  c.isAlphanum || c = '_' || c = '.' || c = '-'

/-- `_SLUG_UNSAFE_RE.sub("_", ·)`: every run of other characters becomes one underscore.  The flag
says whether the character before belongs to the run. -/
def substituteUnsafe : Bool → Text → Text
  | _, [] => []
  | inRun, c :: rest =>
      if isSlugSafe c then c :: substituteUnsafe false rest
      else if inRun then substituteUnsafe true rest
      else '_' :: substituteUnsafe true rest

/-- `_folder_slug`. -/
def folderSlug (folder : Text) : Text :=
  if folder = [] ∨ folder = ['.'] then "_root".toList
  else substituteUnsafe false (folder.map fun c => if c = '/' then '_' else c)

/-- The path of the page of a folder. -/
def pagePath
    (out : AbsPath)
    (folder : Text) : AbsPath :=
  out ++ [folderSlug folder ++ ".md".toList]

/-- The path of the coverage file. -/
def coveragePath (out : AbsPath) : AbsPath :=
  out ++ ["_coverage.json".toList]

/-! ## Grouping by folder -/

/-- `Path.parent` of a relative path. -/
def parentPosix (file : Text) : Text :=
  match ((file.reverse.dropWhile (· ≠ '/')).drop 1).reverse with
  | [] => ['.']
  | parent => parent

/-- `Path.name`. -/
def baseName (file : Text) : Text :=
  (file.reverse.takeWhile (· ≠ '/')).reverse

/-- `_folder_for_file`. -/
def folderForFile (file : Text) : Text :=
  if parentPosix file = ['.'] then [] else parentPosix file

/-- The loop of `_self_verify_universe_coverage`. -/
def accountFiles
    (accounted : List Text) : List Text → Option (List Text)
  | [] => some accounted
  | file :: files =>
      if accounted.contains file then none else accountFiles (file :: accounted) files

/-- `_self_verify_universe_coverage`. -/
def selfVerifyUniverseCoverage
    (mapped : List Text)
    (folders : List (Text × List Text)) : Bool :=
  match accountFiles [] (folders.flatMap Prod.snd) with
  | none => false
  | some accounted => accounted.all mapped.contains && mapped.all accounted.contains

/-! ## Documents -/

/-- What a page says about a file: its symbols as far as they are shown, and how many more there
are. -/
structure FileSection (σ : Type u) where
  basename : Text
  relPath : Text
  language : Text
  purpose : Text
  shown : List σ
  overflow : ℕ

/-- The page of a folder. -/
structure FolderPage (σ : Type u) where
  displayPath : Text
  stampLine : Text
  blurb : Text
  backToIndex : List Text
  sections : List (FileSection σ)

/-- Why a map is not complete. -/
inductive PartialReason where
  | unreadablePath
  | scanLimit
  | deadline
  | selfVerify
  deriving DecidableEq

/-- The coverage as `_coverage.json` and `build_codemap` report it.  Of the token estimates a later
one for the same path replaces an earlier one. -/
structure Coverage where
  out : AbsPath
  index : AbsPath
  filesTotal : ℕ
  foldersTotal : ℕ
  symbolsTotal : ℕ
  isPartial : Bool
  partialReason : Option PartialReason
  remediation : Option String
  maxRepoFiles : ℤ
  foldersWithNoMappedFiles : ℕ
  perPageTokenEstimates : List (AbsPath × ℕ)

/-- A row of the table of folders. -/
structure IndexRow where
  displayPath : Text
  role : Text
  stem : Text
  link : List Text
  files : ℕ
  symbols : ℕ
  tokens : ℕ

/-- The index. -/
structure IndexPage where
  root : AbsPath
  stampLine : Text
  coverage : Coverage
  centralFiles : List (Text × Text)
  rows : List IndexRow

/-- What is written. -/
inductive Document (σ : Type u) where
  | page (content : FolderPage σ)
  | index (content : IndexPage)
  | coverage (content : Coverage)

/-- What has been written, by place. -/
abbrev Disk (σ : Type u) := AbsPath → Option (Document σ)

/-! ## Inputs -/

/-- What the machine does: how links are followed, which writes fail, when the deadline has passed,
and the texts and numbers that are read off the files. -/
structure Host (σ : Type u) where
  resolve : AbsPath → AbsPath
  refuses : Disk σ → AbsPath → Document σ → Bool
  deadlinePassed : ℕ → Bool
  estimateTokens : Document σ → ℕ
  language : Text → Text
  purpose : Text → Text
  blurb : Text → Text
  rstrip : Text → Text

/-- The `--index` option. -/
inductive IndexOption where
  | absolute (path : AbsPath)
  | relative (names : List Text)

/-- The options of a run; the output directory is resolved. -/
structure Options where
  root : AbsPath
  out : AbsPath
  index : Option IndexOption
  maxRepoFiles : ℤ
  maxSymbolsPerFile : ℕ
  out_plain : parentName ∉ out

/-- What the scan has found, after the filters. -/
structure Scan (σ : Type u) where
  files : List Text
  tests : List Text
  symbols : List (Text × σ)
  centralFiles : List (Text × Text)
  stampLine : Text
  possiblyTruncated : Bool
  deadlineHit : Bool
  unreadableCount : ℕ
  unreadableSample : List String

/-- What the steps after the scan report: the paths they could not read, and the number of folders
with whether the census was cut off, unless it failed. -/
structure PostWalk where
  unreadableCount : ℕ
  unreadableSample : List String
  census : Option (ℕ × Bool)

/-- `_resolve_index_path`. -/
def resolveIndexPath
    (out : AbsPath) : Option IndexOption → AbsPath
  | none => out ++ ["index.md".toList]
  | some (.absolute path) => path
  | some (.relative names) => out ++ names

variable {σ : Type u}

/-- The path of the index. -/
def Options.indexPath
    (options : Options)
    (host : Host σ) : AbsPath :=
  host.resolve (resolveIndexPath options.out options.index)

/-- The place of a path. -/
def Host.place
    (host : Host σ)
    (path : AbsPath) : AbsPath :=
  host.resolve path.dropLast ++ path.getLast?.toList

/-- The files that are mapped. -/
def Scan.mapped (scan : Scan σ) : List Text :=
  sortDedup id (scan.files ++ scan.tests)

/-- `_group_by_folder`. -/
def Scan.folders (scan : Scan σ) : List (Text × List Text) :=
  groupsBy folderForFile scan.mapped

/-- `symbols_by_file`. -/
def Scan.symbolsOf
    (scan : Scan σ)
    (file : Text) : List σ :=
  (scan.symbols.filter fun symbol => symbol.1 = file).map Prod.snd

/-! ## Rendering -/

/-- `_truncate_ascii`. -/
def truncateAscii
    (host : Host σ)
    (text : Text)
    (limit : ℕ) : Text :=
  if text.length ≤ limit then text else host.rstrip (text.take (limit - 3)) ++ "...".toList

/-- `_escape_cell`. -/
def escapeCell (text : Text) : Text :=
  text.flatMap fun c =>
    if c = '|' then ['\\', '|'] else if c = '\r' ∨ c = '\n' then [' '] else [c]

/-- How a folder is shown. -/
def displayPath (folder : Text) : Text :=
  if folder = [] ∨ folder = ['.'] then ['.'] else folder

/-- The part of a page about a file. -/
def fileSection
    (host : Host σ)
    (options : Options)
    (scan : Scan σ)
    (file : Text) : FileSection σ where
  basename := baseName file
  relPath := file
  language := host.language file
  purpose := escapeCell (host.purpose file)
  shown := (scan.symbolsOf file).take options.maxSymbolsPerFile
  overflow := (scan.symbolsOf file).length - options.maxSymbolsPerFile

/-- `_render_folder_page`. -/
def renderFolderPage
    (host : Host σ)
    (options : Options)
    (scan : Scan σ)
    (group : Text × List Text) : FolderPage σ where
  displayPath := displayPath group.1
  stampLine := scan.stampLine
  blurb := host.blurb group.1
  backToIndex := relativeTo parentName (options.indexPath host)
    (pagePath options.out group.1).dropLast
  sections := group.2.map (fileSection host options scan)

/-- `per_page_tokens.get(path, 0)`. -/
def tokensAt
    (tokens : List (AbsPath × ℕ))
    (path : AbsPath) : ℕ :=
  (tokens.reverse.lookup path).getD 0

/-- A row of `_render_index`. -/
def indexRow
    (host : Host σ)
    (options : Options)
    (scan : Scan σ)
    (tokens : List (AbsPath × ℕ))
    (group : Text × List Text) : IndexRow where
  displayPath := escapeCell (displayPath group.1)
  role := escapeCell (truncateAscii host (host.blurb group.1) 100)
  stem := folderSlug group.1
  link := relativeTo parentName (pagePath options.out group.1) (options.indexPath host).dropLast
  files := group.2.length
  symbols := (group.2.map fun file => (scan.symbolsOf file).length).sum
  tokens := tokensAt tokens (pagePath options.out group.1)

/-- `_render_index`; the rows are in the order of the folders' names. -/
def renderIndex
    (host : Host σ)
    (options : Options)
    (scan : Scan σ)
    (coverage : Coverage)
    (tokens : List (AbsPath × ℕ))
    (rendered : List (Text × List Text)) : IndexPage where
  root := options.root
  stampLine := scan.stampLine
  coverage := coverage
  centralFiles := scan.centralFiles
  rows := (sortByKey Prod.fst rendered).map (indexRow host options scan tokens)

/-! ## Coverage -/

/-- What the sample of unreadable paths is shown as. -/
def sampleText (sample : List String) : String :=
  if sample = [] then "an unreadable path" else ", ".intercalate sample

/-- The coverage as the scan leaves it. -/
def scanCoverage
    (host : Host σ)
    (options : Options)
    (scan : Scan σ) : Coverage :=
  let verified := selfVerifyUniverseCoverage scan.mapped scan.folders
  let unreadable := decide (0 < scan.unreadableCount)
  let sample := sampleText scan.unreadableSample
  let count := toString scan.unreadableCount
  let budget := if scan.possiblyTruncated then "--max-repo-files" else "--deadline"
  let reason : Option (PartialReason × String) :=
    if unreadable then
      some (.unreadablePath,
        s!"The scan skipped {count} unreadable path(s) (e.g. {sample}), so the map " ++
        "is missing whatever they contain. More budget will NOT fix this: the path(s) need to " ++
        "become readable, or scope PATH away from them." ++
        if scan.possiblyTruncated || scan.deadlineHit then
          s!" The scan ALSO hit {budget}; raising it will widen coverage but will not " ++
          "recover the unreadable path(s)."
        else "")
    else if scan.possiblyTruncated then
      some (.scanLimit,
        "The scan hit --max-repo-files before covering the whole tree. Re-run with a higher " ++
        "--max-repo-files, or scope PATH to a subdirectory.")
    else if scan.deadlineHit then
      some (.deadline,
        "The scan hit --deadline before covering the whole tree. Re-run with a higher " ++
        "--deadline, or scope PATH to a subdirectory.")
    else if !verified then
      some (.selfVerify,
        "Internal consistency check failed (a mapped file was not accounted for in exactly one " ++
        "folder page). Please file a tensor-grep bug with the repository shape that triggered it.")
    else none
  { out := options.out
    index := options.indexPath host
    filesTotal := scan.mapped.length
    foldersTotal := scan.folders.length
    symbolsTotal := scan.symbols.length
    isPartial := scan.possiblyTruncated || scan.deadlineHit || unreadable || !verified
    partialReason := reason.map Prod.fst
    remediation := reason.map Prod.snd
    maxRepoFiles := options.maxRepoFiles
    foldersWithNoMappedFiles := 0
    perPageTokenEstimates := [] }

/-- The census of the folders. -/
def countFolders
    (postWalk : PostWalk)
    (coverage : Coverage) : Coverage :=
  { coverage with
    foldersWithNoMappedFiles := match postWalk.census with
      | some (count, _) => count - coverage.foldersTotal
      | none => 0 }

/-- The paths that could not be read after the walk. -/
def foldPostWalk
    (postWalk : PostWalk)
    (coverage : Coverage) : Coverage :=
  if 0 < postWalk.unreadableCount then
    let sample := sampleText postWalk.unreadableSample
    let count := toString postWalk.unreadableCount
    let budget :=
      if coverage.partialReason = some .scanLimit then "--max-repo-files" else "--deadline"
    { coverage with
      isPartial := true
      partialReason := some .unreadablePath
      remediation := some (
        s!"{count} path(s) the walk reached could not be re-read while " ++
        s!"building the map (e.g. {sample}), so files they cover may be missing from the " ++
        "inventory. More budget will NOT fix this: the path(s) need to become readable, or " ++
        "scope PATH away from them." ++
        if coverage.partialReason = some .scanLimit ∨ coverage.partialReason = some .deadline then
          s!" The scan ALSO hit {budget}; raising it will widen coverage but will not " ++
          "recover the unreadable path(s)."
        else "") }
  else coverage

/-- The deadline in the loops after the scan. -/
def foldTailDeadline
    (tailDeadlineHit : Bool)
    (coverage : Coverage) : Coverage :=
  if tailDeadlineHit && !coverage.isPartial then
    { coverage with
      isPartial := true
      partialReason := some .deadline
      remediation := some (
        "The scan hit --deadline before covering the whole tree. Re-run with a higher " ++
        "--deadline, or scope PATH to a subdirectory.") }
  else coverage

/-! ## Writing -/

/-- The loop that renders the pages stops at the deadline; the flag says whether it did. -/
def renderedFolders
    (passed : ℕ → Bool) : ℕ → List (Text × List Text) → List (Text × List Text) × Bool
  | _, [] => ([], false)
  | i, group :: groups =>
      if passed i then ([], true)
      else
        let rest := renderedFolders passed (i + 1) groups
        (group :: rest.1, rest.2)

/-- The documents in the order in which they are written, with their paths. -/
def documents
    (host : Host σ)
    (options : Options)
    (scan : Scan σ)
    (postWalk : PostWalk) : Coverage × List (AbsPath × Document σ) :=
  let rendered := renderedFolders host.deadlinePassed 0 scan.folders
  let tailDeadlineHit := rendered.2 || (match postWalk.census with
    | some (_, hit) => hit
    | none => false)
  let coverage := foldTailDeadline tailDeadlineHit
    (foldPostWalk postWalk (countFolders postWalk (scanCoverage host options scan)))
  let pages := rendered.1.map fun group =>
    (pagePath options.out group.1, Document.page (renderFolderPage host options scan group))
  let tokens := pages.map fun page => (page.1, host.estimateTokens page.2)
  let index := Document.index (renderIndex host options scan coverage tokens rendered.1)
  let coverage := { coverage with
    perPageTokenEstimates := tokens ++ [(options.indexPath host, host.estimateTokens index)] }
  (coverage, pages ++ [(options.indexPath host, index),
    (coveragePath options.out, Document.coverage coverage)])

/-- `_atomic_write_text` for one document after the other; none if one of them fails. -/
def writeAll
    (host : Host σ) : List (AbsPath × Document σ) → Disk σ → Option (Disk σ)
  | [], disk => some disk
  | write :: writes, disk =>
      if host.refuses disk write.1 write.2 then none
      else writeAll host writes (Function.update disk (host.place write.1) (some write.2))

/-- What `build_codemap` returns and leaves behind. -/
structure BuildResult (σ : Type u) where
  coverage : Coverage
  writtenFiles : List AbsPath
  disk : Disk σ

/-- `build_codemap`; none if it raises. -/
def buildCodemap
    (host : Host σ)
    (options : Options)
    (scan : Scan σ)
    (postWalk : PostWalk)
    (disk : Disk σ) : Option (BuildResult σ) :=
  let written := documents host options scan postWalk
  (writeAll host written.2 disk).map fun disk =>
    { coverage := written.1, writtenFiles := written.2.map Prod.fst, disk := disk }

end CodeMap
end TensorGrep
