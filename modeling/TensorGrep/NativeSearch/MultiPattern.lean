import TensorGrep.CpuBackend.LineScan
import TensorGrep.Kernel.SortedKeys

/-!
# Searching for several fixed strings

For several fixed strings without any option that changes what a line is or how it
matches, the native engine looks through every file once with one automaton
(`runNativeFixedMultiPatternSearch`).  Everything else is searched once for each
pattern with the single-pattern engine, and the matches are put one after another
(`collectByPattern`).

The automaton, the line searcher of the single-pattern engine and the walk are
libraries: `AhoCorasick`, `LineEngine` and `SearchTree` hold what they are asked and
what they are documented to answer.
-/

namespace TensorGrep
namespace NativeSearch

open Kernel
open CpuBackend (memchrIter scanLoop)

/-! ## Configuration and inputs -/

/-- The fields of `NativeSearchConfig` that decide how several files are searched. -/
structure TreeSearchConfig (Path : Type) extends NativeSearchConfig where
  fixedStrings : Bool
  ignoreCase : Bool
  smartCase : Bool
  wordBoundary : Bool
  invertMatch : Bool
  crlf : Bool
  replace : Option Bytes
  paths : List Path
  pathWasImplicit : Bool

/-- Why a search gives no answer. -/
inductive SearchError (Path : Type) where
  | jsonAndNdjson
  | emptyPattern
  | pathDoesNotExist (path : Path)
  | unboundedImplicitWalk
  | globOverride
  | matcherBuild
  | openPath (path : Path)
  | searchPath (path : Path)
deriving DecidableEq

/-- The file system, and the walk of it under the hidden, depth, ignore and glob options of the
configuration.  The walk lists the files as its threads come to them; a walk for a later pattern
comes to the same ones in an order of its own. -/
structure SearchTree (Path : Type) where
  pathExists : Path → Bool
  isFile : Path → Bool
  contents : Path → Option Bytes
  exceedsCeiling : List Path → Bool
  globsBuild : Bool
  walk : List Path → List Path
  walkAgain : ℕ → List Path → List Path
  perm_walkAgain : ∀ i roots, (walkAgain i roots).Perm (walk roots)

/-- `SearchInputs`. -/
structure SearchInputs (Path : Type) where
  files : List Path
  roots : List Path

/-- A part of a search that is left out where there is nothing to look at. -/
def unlessEmpty
    {Path α : Type}
    (paths : List Path)
    (search : List Path → Except (SearchError Path) (List α)) : Except (SearchError Path) (List α) :=
  if paths.isEmpty then .ok [] else search paths

section Inputs

variable {Path : Type} [LinearOrder Path] (tree : SearchTree Path)
  (config : TreeSearchConfig Path)

/-- `split_search_inputs`. -/
def splitSearchInputs : Except (SearchError Path) (SearchInputs Path) :=
  match config.paths.find? fun path => !tree.pathExists path with
  | some path => .error (.pathDoesNotExist path)
  | none =>
      .ok ⟨sortDedup id (config.paths.filter tree.isFile),
        config.paths.filter fun path => !tree.isFile path⟩

/-- `check_native_implicit_walk_ceiling` and `build_walk_builder`, which come before every
walk. -/
def prepareWalk (roots : List Path) : Except (SearchError Path) Unit :=
  if config.pathWasImplicit && tree.exceedsCeiling roots then .error .unboundedImplicitWalk
  else if !tree.globsBuild then .error .globOverride
  else .ok ()

/-- `collect_walked_files`. -/
def collectWalkedFiles (roots : List Path) : Except (SearchError Path) (List Path) := do
  prepareWalk tree config roots
  return sortDedup id (tree.walk roots)

end Inputs

/-! ## One automaton -/

/-- The automaton that is built for patterns: whether one of them stands in a text, and the
patterns of the overlapping occurrences in it, in the order in which they end. -/
structure AhoCorasick (patterns : List Bytes) where
  isMatch : Bytes → Bool
  findOverlappingIter : Bytes → List ℕ
  isMatch_iff : ∀ text,
    isMatch text = true ↔ ∃ pattern ∈ patterns, pattern <:+: text
  mem_findOverlappingIter : ∀ text i,
    i ∈ findOverlappingIter text ↔
      ∃ pattern, patterns[i]? = some pattern ∧ pattern <:+: text

/-- `NativeMultiPatternMatch`, and what `SearchMatchJson` takes over of it. -/
structure NativeMultiPatternMatch (Path : Type) where
  path : Path
  lineNumber : ℕ
  raw : Bytes
  patternId : ℕ
  patternText : Bytes
deriving DecidableEq

section FastPath

variable {Path : Type} (config : TreeSearchConfig Path) (patterns : List Bytes)

/-- `supports_native_fixed_multi_pattern_search`. -/
def supportsNativeFixedMultiPatternSearch : Bool :=
  1 < patterns.length && config.fixedStrings && !patterns.any List.isEmpty &&
    !config.ignoreCase && !config.smartCase && !config.wordBoundary && !config.invertMatch &&
    config.beforeContext = 0 && config.afterContext = 0 && config.maxCount.isNone &&
    !config.quiet && !config.onlyMatching && !config.nullData && !config.crlf &&
    config.replace.isNone

variable {patterns} (matcher : AhoCorasick patterns)

/-- `collect_fixed_multi_pattern_line_matches`, where the set of pattern ids is read in
ascending order. -/
def collectFixedMultiPatternLineMatches
    (path : Path)
    (line : ℕ × Bytes) : List (NativeMultiPatternMatch Path) :=
  (sortDedup id (matcher.findOverlappingIter line.2)).map fun patternId =>
    ⟨path, line.1, line.2, patternId, patterns.getD patternId []⟩

/-- `collect_fixed_multi_pattern_file_matches`: the loop over the line feeds takes every line. -/
def collectFixedMultiPatternFileMatches
    (path : Path)
    (contents : Bytes) : List (NativeMultiPatternMatch Path) :=
  (scanLoop (fun _ => true) contents 0 1 (memchrIter 10 0 contents)).flatMap
    (collectFixedMultiPatternLineMatches matcher path)

/-- The order of the reported matches. -/
def matchKey (found : NativeMultiPatternMatch Path) : Path ×ₗ ℕ ×ₗ ℕ ×ₗ List ℕ :=
  toLex (found.path, toLex (found.lineNumber, toLex (found.patternId,
    found.raw.map UInt8.toNat)))

variable [LinearOrder Path] (tree : SearchTree Path)

/-- The loop over the files; a file with a NUL byte ends it without an answer. -/
def scanFiles
    (found : List (NativeMultiPatternMatch Path)) :
    List Path → Except (SearchError Path) (Option (List (NativeMultiPatternMatch Path)))
  | [] => .ok (some found)
  | path :: rest =>
      match tree.contents path with
      | none => .error (.openPath path)
      | some contents =>
          if !config.text && (nulOffset contents).isSome then .ok none
          else if matcher.isMatch contents then
            scanFiles (found ++ collectFixedMultiPatternFileMatches matcher path contents) rest
          else scanFiles found rest

variable (patterns) in
/-- `run_native_fixed_multi_pattern_search`, where no automaton means that its building failed. -/
def runNativeFixedMultiPatternSearch
    (automaton : Option (AhoCorasick patterns)) :
    Except (SearchError Path) (Option (List (NativeMultiPatternMatch Path))) := do
  if !supportsNativeFixedMultiPatternSearch config patterns then
    return none
  let inputs ← splitSearchInputs tree config
  let walked ← unlessEmpty inputs.roots (collectWalkedFiles tree config)
  let files := sortDedup id (inputs.files ++ walked)
  match automaton with
  | none => .error .matcherBuild
  | some matcher =>
      let found ← scanFiles config matcher tree [] files
      return found.map (sortByKey matchKey)

end FastPath

/-! ## One search for each pattern -/

/-- A configuration in which a pattern is searched for as it stands, in lines that end at line
feeds. -/
def TreeSearchConfig.literal
    {Path : Type}
    (config : TreeSearchConfig Path) : Bool :=
  config.fixedStrings && !config.ignoreCase && !config.smartCase && !config.wordBoundary &&
    !config.invertMatch && !config.nullData && !config.crlf

/-- The single-pattern engine: the line searcher for a pattern, its matcher on a whole text, the
rendering of a line with a replacement, and the transcoding of a text with a UTF-16 byte order
mark. -/
structure LineEngine (Path : Type) where
  searcher : TreeSearchConfig Path → Bytes → LineSearcher
  isMatch : TreeSearchConfig Path → Bytes → Bytes → Bool
  renderReplaced : Bytes → Bytes → Bytes
  transcode : Bytes → Bytes
  selects_iff : ∀ config pattern line, config.literal = true →
    ((searcher config pattern).selects line = true ↔
      pattern <:+: stripNativeLineTerminator line)
  transcode_nul : ∀ contents, 0 ∉ contents → 0 ∉ transcode contents

/-- A byte order mark that the line searcher takes notice of. -/
inductive ByteOrderMark where
  | utf8
  | utf16
deriving DecidableEq

/-- The UTF-8 byte order mark. -/
def utf8Mark : Bytes := [0xEF, 0xBB, 0xBF]

/-- The byte order mark at the start of a text. -/
def byteOrderMark (contents : Bytes) : Option ByteOrderMark :=
  if utf8Mark.isPrefixOf contents then some .utf8
  else if [0xFF, 0xFE].isPrefixOf contents || [0xFE, 0xFF].isPrefixOf contents then some .utf16
  else none

section SlowPath

variable {Path : Type} (engine : LineEngine Path) (config : TreeSearchConfig Path)

/-- What the line searcher reads of a file: it leaves a UTF-8 byte order mark out. -/
def readBySearcher (contents : Bytes) : Bytes :=
  match byteOrderMark contents with
  | none => contents
  | some .utf8 => contents.drop utf8Mark.length
  | some .utf16 => engine.transcode contents

/-- `render_matched_line_bytes`. -/
def renderMatchedLineBytes (raw : Bytes) : Bytes :=
  match config.replace with
  | none => raw
  | some replacement => engine.renderReplaced replacement raw

/-- `search_file_streaming_plain_sequential`, and `search_plain_streaming` of the parallel walk;
the output goes to a buffer, so that the matches are kept. -/
def searchFileStreamingPlain
    (pattern contents : Bytes) : FileSearchResult :=
  let search := searchSlice (!config.text) (engine.searcher config pattern)
    (readBySearcher engine contents)
  let found := if search.binaryAt.isSome then []
    else search.reported.map (toMatch (renderMatchedLineBytes engine config))
  ⟨found, found.length, search.binaryAt.isSome,
    binaryFileMatchesPattern (engine.isMatch config pattern) contents search.binaryAt.isSome,
    search.binaryAt⟩

/-- The matches of a file that are kept: none of a binary one. -/
def keptMatches
    (pattern : Bytes)
    (path : Path)
    (contents : Bytes) : List (Path × NativeSearchMatch) :=
  let result := searchFileStreamingPlain engine config pattern contents
  if result.binaryDetected then [] else result.found.map fun found => (path, found)

variable (tree : SearchTree Path)

/-- `run_native_search_files`. -/
def runNativeSearchFiles
    (pattern : Bytes) : List Path → Except (SearchError Path) (List (Path × NativeSearchMatch))
  | [] => .ok []
  | path :: rest =>
      match tree.contents path with
      | none => .error (.searchPath path)
      | some contents => do
          let found ← runNativeSearchFiles pattern rest
          return keptMatches engine config pattern path contents ++ found

/-- What the workers of a walk find in a file; one that cannot be read is passed over. -/
def workerMatches
    (pattern : Bytes)
    (path : Path) : List (Path × NativeSearchMatch) :=
  match tree.contents path with
  | none => []
  | some contents => keptMatches engine config pattern path contents

variable [LinearOrder Path]

/-- `sort_search_matches`. -/
def sortSearchMatches
    (found : List (Path × NativeSearchMatch)) : List (Path × NativeSearchMatch) :=
  sortByKey (fun entry => (toLex (entry.1, toLex (entry.2.lineNumber,
    entry.2.raw.map UInt8.toNat)) : Path ×ₗ ℕ ×ₗ List ℕ)) found

/-- `search_walk_roots_parallel`, in the search for one of the patterns. -/
def searchWalkRootsParallel
    (patternId : ℕ)
    (pattern : Bytes)
    (roots : List Path) : Except (SearchError Path) (List (Path × NativeSearchMatch)) := do
  prepareWalk tree config roots
  return sortSearchMatches
    ((tree.walkAgain patternId roots).flatMap (workerMatches engine config tree pattern))

/-- `run_native_search` for plain output without context, which walks its roots in parallel. -/
def runNativeSearch
    (patternId : ℕ)
    (pattern : Bytes) : Except (SearchError Path) (List (Path × NativeSearchMatch)) := do
  if config.json && config.ndjson then
    throw .jsonAndNdjson
  if pattern.isEmpty then
    throw .emptyPattern
  let inputs ← splitSearchInputs tree config
  let named ← unlessEmpty inputs.files (runNativeSearchFiles engine config tree pattern)
  let walked ← unlessEmpty inputs.roots
    (searchWalkRootsParallel engine config tree patternId pattern)
  return sortSearchMatches (named ++ walked)

/-- A match of the search for one pattern, with this pattern. -/
def withPattern
    (pattern : Bytes × ℕ)
    (found : Path × NativeSearchMatch) : NativeMultiPatternMatch Path :=
  ⟨found.1, found.2.lineNumber, found.2.raw, pattern.2, pattern.1⟩

/-- The configuration of the searches for one pattern. -/
def TreeSearchConfig.forOnePattern
    (config : TreeSearchConfig Path) : TreeSearchConfig Path :=
  { config with json := false, ndjson := false, count := false }

/-- The loop over patterns with their ids. -/
def collectPatterns :
    List (Bytes × ℕ) → Except (SearchError Path) (List (NativeMultiPatternMatch Path))
  | [] => .ok []
  | pattern :: rest => do
      let found ← runNativeSearch engine config tree pattern.2 pattern.1
      let more ← collectPatterns rest
      return found.map (withPattern pattern) ++ more

/-- `collect_native_multi_pattern_matches` where the fast path has no answer: one search for each
pattern. -/
def collectByPattern
    (patterns : List Bytes) : Except (SearchError Path) (List (NativeMultiPatternMatch Path)) :=
  collectPatterns engine config.forOnePattern tree patterns.zipIdx

end SlowPath

end NativeSearch
end TensorGrep
