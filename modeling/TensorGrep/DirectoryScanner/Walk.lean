import TensorGrep.RepoMap.Walk

/-!
# The walk over the files of a search

`DirectoryScanner.walk` goes through a directory tree from the top.  It enters a
directory unless a filter keeps it out, and yields the files that the filters let
through.  A directory that cannot be listed, a tree with more entries than allowed
and a `.gitignore` that is too long are recorded in the signals of the scanner.

The ignore rules of `pathspec` and `str.lower` are parameters.
-/

namespace TensorGrep
namespace DirectoryScanner

open Kernel
open RepoMap (FileName RepoPath asPosix pathSuffix isWord gitignoreName lastName)

/-! ## The tree -/

/-- What a link leads to. -/
inductive LinkTarget where
  | dangling
  | file (contents : Option Bytes)
  | directory
  | special

/-- What there is in a directory.  A file that cannot be opened has no contents; a special entry,
such as a socket, is none of the others and cannot be opened either. -/
inductive ScanNode where
  | file (contents : Option Bytes)
  | special
  | link (target : LinkTarget)
  | dir (listable : Bool) (entries : List (FileName × ScanNode))

/-- The entries of a directory. -/
abbrev ScanEntries := List (FileName × ScanNode)

/-- What a path names. -/
inductive ScanRoot where
  | missing
  | file
  | directory (listable : Bool) (entries : ScanEntries)

/-- `os.walk` lists the entry among the directories. -/
def ScanNode.isDir : ScanNode → Bool
  | .dir _ _ => true
  | .link .directory => true
  | _ => false

/-- `Path.is_symlink`. -/
def ScanNode.isSymlink : ScanNode → Bool
  | .link _ => true
  | _ => false

/-- The entry with a name. -/
def findEntry
    (name : FileName)
    (entries : ScanEntries) : Option ScanNode :=
  (entries.find? fun entry => entry.1 = name).map Prod.snd

/-! ## The scanner -/

/-- The fields of `SearchConfig` that the walk reads. -/
structure SearchConfig where
  noIgnore : Bool
  noIgnoreVcs : Bool
  noIgnoreFiles : Bool
  hidden : Bool
  maxDepth : Option ℤ
  glob : List Text
  globCaseInsensitive : Bool
  fileType : List Text
  typeNot : List Text

/-- A scanner, without its signals. -/
structure Scanner where
  config : SearchConfig
  maxScanEntries : ℤ
  gitignoreMaxBytes : ℕ

/-- `scan_truncation_cause`. -/
inductive TruncationCause where
  | unreadablePath
  | maxScanEntries

/-- What a scanner records while it walks; a scanner that walks again keeps its signals. -/
structure Signals where
  scanTruncated : Bool
  scanTruncationCause : Option TruncationCause
  gitignoreTruncated : Bool
  unreadablePathCount : ℕ
  unreadablePathSample : List Text

/-- `str.lower`, and the opinion of `GitIgnoreSpec.from_lines(text.splitlines())` on a relative
path: to ignore it, to include it again, or none. -/
structure Host where
  lower : Text → Text
  checkFile : Text → Text → Option Bool

/-- The path that `walk` is given: `str(base_path)` and `base_path.name`. -/
structure BasePath where
  text : Text
  name : Text

/-- `str(base_path / path)`. -/
def BasePath.join
    (base : BasePath)
    (path : RepoPath) : Text :=
  if path.isEmpty then base.text
  else if base.text = ['.'] then asPosix path
  else if ['/'] <:+ base.text then base.text ++ asPosix path
  else base.text ++ '/' :: asPosix path

/-! ## Glob patterns -/

/-- A place of a pattern of `fnmatch`: a star, or the characters that may stand there. -/
inductive GlobItem where
  | star
  | one (accepts : Char → Bool)

/-- A text up to its first closing bracket, and what follows the bracket. -/
def closeSet : Text → Option (Text × Text)
  | [] => none
  | c :: rest =>
      if c = ']' then some ([], rest)
      else (closeSet rest).map fun found => (c :: found.1, found.2)

/-- The text of a set after its opening bracket; a closing bracket at its beginning is one of its
characters. -/
def readSet (pattern : Text) : Option (Bool × Text × Text) :=
  let negated := ['!'].isPrefixOf pattern
  let body := if negated then pattern.drop 1 else pattern
  match body with
  | ']' :: rest => (closeSet rest).map fun found => (negated, ']' :: found.1, found.2)
  | _ => (closeSet body).map fun found => (negated, found.1, found.2)

/-- The ranges of a set. -/
def setRanges : Text → List (Char × Char)
  | low :: '-' :: high :: rest => (low, high) :: setRanges rest
  | c :: rest => (c, c) :: setRanges rest
  | [] => []

/-- The items of a pattern; a bracket that opens no set is a character.  The fuel bounds the
number of items. -/
def globItems : ℕ → Text → List GlobItem
  | 0, _ => []
  | _ + 1, [] => []
  | fuel + 1, c :: rest =>
      if c = '*' then .star :: globItems fuel rest
      else if c = '?' then .one (fun _ => true) :: globItems fuel rest
      else if c = '[' then
        match readSet rest with
        | some (negated, inside, rest') =>
            .one (fun x => negated != (setRanges inside).any fun range =>
              range.1 ≤ x && x ≤ range.2) :: globItems fuel rest'
        | none => .one (fun x => x = c) :: globItems fuel rest
      else .one (fun x => x = c) :: globItems fuel rest

/-- The items match a whole text. -/
def globMatch : List GlobItem → Text → Bool
  | [], t => t.isEmpty
  | .star :: items, t => t.tails.any (globMatch items)
  | .one _ :: _, [] => false
  | .one accepts :: items, c :: t => accepts c && globMatch items t

/-- `fnmatch.fnmatch`. -/
def fnmatch
    (name pattern : Text) : Bool :=
  globMatch (globItems pattern.length pattern) name

/-! ## The filters -/

/-- `_GENERATED_DIR_NAMES`. -/
def generatedDirNames : List String :=
  ["__pycache__", ".mypy_cache", ".pytest_cache", ".ruff_cache", ".tox", ".venv", "build",
    "coverage", "dist", "node_modules", "target", "venv"]

/-- `_GENERATED_RELATIVE_DIRS`. -/
def generatedRelativeDirs : List String :=
  [".claude/context"]

/-- The loop of `_should_include_file` over the globs. -/
def matchGlobs
    (accepts : Text → Bool) : List Text → Bool → Bool
  | [], matched => matched
  | g :: globs, matched =>
      let isExclude := ['!'].isPrefixOf g
      if accepts (if isExclude then g.drop 1 else g) then
        if isExclude then false else matchGlobs accepts globs true
      else matchGlobs accepts globs matched

section Filters

variable (host : Host) (config : SearchConfig) (base : BasePath)

/-- `_should_include_file` for a file with a name, a full path and a relative path. -/
def shouldIncludeFile
    (name full relative : Text) : Bool :=
  let candidates := [name, full, full, relative]
  let fold := fun text => if config.globCaseInsensitive then host.lower text else text
  let accepts := fun pattern =>
    candidates.any fun candidate => fnmatch (fold candidate) (fold pattern)
  let ext := (pathSuffix name).dropWhile (· = '.')
  (config.glob.isEmpty || matchGlobs accepts config.glob false) &&
    (config.fileType.isEmpty || config.fileType.any fun t => ext = t) &&
    !config.typeNot.any fun t => ext = t

/-- `_should_descend_dir` for the directory at a path. -/
def shouldDescendDir (dir : RepoPath) : Bool :=
  if config.noIgnore || config.noIgnoreFiles then true
  else
    let relative := host.lower (asPosix dir)
    !isWord generatedDirNames (host.lower (lastName dir)) &&
      !isWord generatedRelativeDirs relative &&
      !isWord generatedRelativeDirs (host.lower base.name ++ '/' :: relative)

/-- The name does not keep the entry out as hidden. -/
def isVisible (name : FileName) : Bool :=
  config.hidden || !(['.'].isPrefixOf name.text)

/-- The directory at a path is at the depth limit. -/
def tooDeep (path : RepoPath) : Bool :=
  match config.maxDepth with
  | none => false
  | some depth => depth ≤ path.length

/-- The opinion of the `.gitignore` of a directory on a path. -/
def specOpinion
    (dir : RepoPath)
    (text : Text)
    (path : RepoPath)
    (isDir : Bool) : Option Bool :=
  if dir.isPrefixOf path then
    let rel := asPosix (path.drop dir.length)
    if rel.isEmpty || rel = ['.'] then none
    else host.checkFile text (if isDir then rel ++ ['/'] else rel)
  else none

/-- `_path_ignored_by_stack`: the last opinion counts. -/
def pathIgnoredByStack
    (path : RepoPath)
    (isDir : Bool)
    (stack : List (RepoPath × Text)) : Bool :=
  (stack.foldl (fun decision spec => (specOpinion host spec.1 spec.2 path isDir).or decision)
    none).getD false

end Filters

/-! ## `.gitignore` files -/

/-- What opening a `.gitignore` gives. -/
inductive IgnoreFile where
  | absent
  | refused
  | contents (raw : Bytes)

/-- The `.gitignore` of a directory; opening goes through a link. -/
def ignoreFile (entries : ScanEntries) : IgnoreFile :=
  match findEntry gitignoreName entries with
  | none => .absent
  | some (.link .dangling) => .absent
  | some (.file (some raw)) => .contents raw
  | some (.link (.file (some raw))) => .contents raw
  | some _ => .refused

/-- The bytes before the last line break, if there is one. -/
def cutAtLine (raw : Bytes) : Bytes :=
  if raw.contains 10 then ((raw.reverse.dropWhile (· ≠ 10)).drop 1).reverse else raw

/-- Ignore files are not read. -/
def SearchConfig.ignoresNothing (config : SearchConfig) : Bool :=
  config.noIgnore || config.noIgnoreVcs || config.noIgnoreFiles

/-- `_load_ignore_spec`: the text of the patterns, or nothing if opening the file raises. -/
def loadIgnoreSpec
    (scanner : Scanner)
    (entries : ScanEntries)
    (signals : Signals) : Option (Option Text × Signals) :=
  if scanner.config.ignoresNothing then some (none, signals)
  else
    match ignoreFile entries with
    | .absent => some (none, signals)
    | .refused => none
    | .contents raw =>
        if scanner.gitignoreMaxBytes < raw.length then
          some (some (decodeReplace (cutAtLine (raw.take scanner.gitignoreMaxBytes))),
            { signals with gitignoreTruncated := true })
        else some (some (decodeReplace raw), signals)

/-! ## The walk -/

/-- The state of a walk: what it has yielded so far, first things first. -/
structure WalkState where
  signals : Signals
  entriesVisited : ℕ
  yielded : List RepoPath

/-- How a part of a walk ends: it goes on, the entry budget has stopped it, or an exception has. -/
inductive Progress where
  | going (state : WalkState)
  | stopped (state : WalkState)
  | raised

/-- What follows a part of a walk. -/
def Progress.andThen : Progress → (WalkState → Progress) → Progress
  | .going state, next => next state
  | .stopped state, _ => .stopped state
  | .raised, _ => .raised

/-- The state at the end of a walk that does not raise. -/
def Progress.final? : Progress → Option WalkState
  | .going state => some state
  | .stopped state => some state
  | .raised => none

/-- `_on_walk_error`. -/
def onWalkError
    (filename : Text)
    (signals : Signals) : Signals :=
  { signals with
    scanTruncated := true
    scanTruncationCause := some (signals.scanTruncationCause.getD .unreadablePath)
    unreadablePathCount := signals.unreadablePathCount + 1
    unreadablePathSample :=
      if signals.unreadablePathSample.length < 5 then signals.unreadablePathSample ++ [filename]
      else signals.unreadablePathSample }

/-- The entry budget is used up. -/
def outOfEntries (signals : Signals) : Signals :=
  { signals with scanTruncated := true, scanTruncationCause := some .maxScanEntries }

section Walk

variable (host : Host) (scanner : Scanner) (base : BasePath)

/-- `os.walk` enters the entry of a directory after the body of the loop has filtered it. -/
def descends
    (path : RepoPath)
    (stack : List (RepoPath × Text))
    (name : FileName)
    (node : ScanNode) : Bool :=
  node.isDir && !node.isSymlink && isVisible scanner.config name &&
    shouldDescendDir host scanner.config base (path ++ [name]) &&
    !(!stack.isEmpty && pathIgnoredByStack host (path ++ [name]) true stack)

/-- The body of the loop over the files of a directory yields the entry. -/
def selects
    (path : RepoPath)
    (stack : List (RepoPath × Text))
    (name : FileName)
    (node : ScanNode) : Bool :=
  !node.isDir && isVisible scanner.config name && !node.isSymlink &&
    !(!stack.isEmpty && pathIgnoredByStack host (path ++ [name]) false stack) &&
    shouldIncludeFile host scanner.config name.text (base.join (path ++ [name]))
      (asPosix (path ++ [name]))

/-- The paths that a directory yields. -/
def yields
    (path : RepoPath)
    (stack : List (RepoPath × Text))
    (entries : ScanEntries) : List RepoPath :=
  (entries.filter fun entry => selects host scanner base path stack entry.1 entry.2).map
    fun entry => path ++ [entry.1]

/-- The specs from the base down to a directory, its own included. -/
def pushSpec
    (path : RepoPath)
    (spec : Option Text)
    (stack : List (RepoPath × Text)) : List (RepoPath × Text) :=
  stack ++ (spec.map fun text => (path, text)).toList

mutual

/-- The walk below a directory.  `known` is its spec if `dir_specs` has it already, which is so for
the base only; the stack holds the specs of the directories above, all of which `os.walk` has
passed. -/
def walkDir
    (path : RepoPath)
    (stack : List (RepoPath × Text))
    (known : Option (Option Text)) : ScanNode → WalkState → Progress
  | .dir listable entries, state =>
      if !listable then
        .going { state with signals := onWalkError (base.join path) state.signals }
      else
        let visited := state.entriesVisited + 1 + entries.length
        if scanner.maxScanEntries < visited then
          .stopped { state with signals := outOfEntries state.signals, entriesVisited := visited }
        else if tooDeep scanner.config path then .going { state with entriesVisited := visited }
        else
          let loaded :=
            match known with
            | some spec => some (spec, state.signals)
            | none => loadIgnoreSpec scanner entries state.signals
          match loaded with
          | none => .raised
          | some (spec, signals) =>
              walkEntries path (pushSpec path spec stack) entries {
                signals := signals
                entriesVisited := visited
                yielded := state.yielded ++
                  yields host scanner base path (pushSpec path spec stack) entries }
  | _, state => .going state

/-- The walk below those entries of a directory that it enters, one after the other. -/
def walkEntries
    (path : RepoPath)
    (stack : List (RepoPath × Text)) : List (FileName × ScanNode) → WalkState → Progress
  | [], state => .going state
  | (name, node) :: entries, state =>
      (if descends host scanner base path stack name node then
        walkDir (path ++ [name]) stack none node state
      else .going state).andThen (walkEntries path stack entries)

end

/-- `walk`: the paths below the base and the signals, or nothing if it raises. -/
def walk
    (root : ScanRoot)
    (signals : Signals) : Option (List RepoPath × Signals) :=
  match root with
  | .missing => some ([], signals)
  | .file =>
      some (if shouldIncludeFile host scanner.config base.name base.text base.name then [[]]
        else [], signals)
  | .directory listable entries =>
      (loadIgnoreSpec scanner entries signals).bind fun loaded =>
        ((walkDir host scanner base [] [] (some loaded.1) (.dir listable entries)
          ⟨loaded.2, 0, []⟩).final?).map fun state => (state.yielded, state.signals)

end Walk

end DirectoryScanner
end TensorGrep
