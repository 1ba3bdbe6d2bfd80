import TensorGrep.CpuSearch.Prefilter

/-!
# Searching a file on the CPU

`CPUBackend.search` gives the file to the native engine first.  If that reports
nothing and the file is not UTF-8, or if there is no native engine, the Python
line loop searches it.  A plain search for a regular expression indexes the lines
by trigrams and lets the loop look only at the candidates.

Requests with context, `-w`, `-x` or `--ltl` are handed to other methods before.
-/

namespace TensorGrep
namespace CpuSearch

open Kernel
open NativeSearch (LineSearcher selectedLines)
open Result

/-! ## What the search is made of -/

/-- The fields of `SearchConfig` that decide how a file is searched. -/
structure SearchConfig where
  ignoreCase : Bool
  smartCase : Bool
  fixedStrings : Bool
  invertMatch : Bool
  pcre2 : Bool
  text : Bool
  binary : Bool
  maxCount : Option Nat

/-- What comes of the call of the native engine. -/
inductive NativeOutcome where
  | absent
  | typeError (exc : String)
  | failed (invalidRegex : Bool) (kind exc : String)
  | found (results : List (Nat × Text))

/-- Python's text functions and regular expressions, and the native engine.  A pattern is compiled
for ignoring case or not and as a fixed string or not; the native engine is in addition told
whether to invert the search. -/
structure Host where
  isLower : Text → Bool
  lower : Text → Text
  compile : Text → Bool → Bool → Except String Regexes
  native : Text → Bool → Bool → Bool → Bytes → NativeOutcome

/-- The exceptions that a search raises. -/
inductive SearchError where
  | invalidRegexError (message : String)
  | backendExecutionError (message : String)
  | cacheError (exc : String)
deriving DecidableEq

/-- `SearchResult`. -/
structure SearchResult where
  found : List MatchLine
  totalFiles : Nat
  totalMatches : Nat
  routingReason : String
deriving DecidableEq

/-- The result of matches. -/
def resultOf
    (found : List MatchLine)
    (routingReason : String) : SearchResult :=
  ⟨found, if found = [] then 0 else 1, found.length, routingReason⟩

/-- A NUL byte is among the first bytes. -/
def isBinaryFile (contents : Bytes) : Bool :=
  (contents.take 4096).any (· = 0)

section Messages

variable (kind exc : String)

def invalidRegexMessage : String :=
  "invalid regex pattern: " ++ exc

def needsPcre2Message : String :=
  "pattern needs backreference/look-around syntax the linear-time engine rejects; pass --pcre2 " ++
    "to opt into the backtracking engine explicitly (" ++ exc ++ ")"

def decodeMismatchMessage : String :=
  "cannot safely evaluate this non-fixed-strings pattern through CPUBackend's non-UTF-8-file " ++
    "Python fallback (_RustUtf8DecodeMismatch: Rust backend UTF-8 decode mismatch, using Python " ++
    "fallback); its backtracking engine has no linear-time guarantee for an arbitrary pattern; " ++
    "use ripgrep (a genuine byte-safe engine) or pass --fixed-strings"

def nativeTypeErrorMessage : String :=
  "cannot safely evaluate this pattern through CPUBackend: a TypeError reached the " ++
    "native-search adapter (" ++ exc ++ "). Retrying without invert_match is not safe -- on a " ++
    "stale extension it returns the MATCHING set instead of the inverted set when -v is set. " ++
    "Install ripgrep, or rebuild rust_core so its search() signature matches this adapter"

def pcre2Message : String :=
  "cannot safely evaluate this pattern through CPUBackend's --pcre2 approximation (" ++ kind ++
    ": " ++ exc ++ "); use ripgrep for real PCRE2 support or drop --pcre2"

def runtimeFailureMessage : String :=
  "cannot safely evaluate this non-fixed-strings pattern through CPUBackend after a " ++
    "native-engine runtime failure (" ++ kind ++ ": " ++ exc ++ "); its backtracking engine has " ++
    "no linear-time guarantee for an arbitrary pattern; use ripgrep or pass --fixed-strings"

end Messages

/-! ## The search -/

section Search

variable (host : Host) (config : SearchConfig) (file : String) (pattern : Text)

/-- Case is ignored. -/
def ignoresCase : Bool :=
  config.ignoreCase || (config.smartCase && host.isLower pattern)

/-- The literal by which the lines are filtered. -/
def prefilterLiteral : Option Text :=
  if config.fixedStrings || config.invertMatch then none else extractRequiredLiteral pattern

/-- The lines that are read for the index. -/
def readSourceLines (contents : Bytes) : List Text :=
  splitSourceLines (decodeReplace contents)

/-- The index of the lines. -/
def indexSourceLines
    (ignoreCase : Bool)
    (lines : List Text) : TrigramIndex :=
  buildLineTrigramIndex (if ignoreCase then lines.map host.lower else lines)

/-- A source line as the loop reads it. -/
def encodeSourceLine (line : Text) : Bytes :=
  utf8 (line ++ ['\n'])

/-- The candidates among the indexed lines. -/
def candidatesFor
    (index : TrigramIndex)
    (literal : Text) : List Int :=
  candidateLineIndexes index (if ignoresCase host config pattern then host.lower literal else literal)

/-- The lines and the index by which a search is filtered: those in the cache, or new ones. -/
def prefilterIndex
    (contents : Bytes)
    (cached : Option (List Text × TrigramIndex)) : List Text × TrigramIndex :=
  cached.getD
    (readSourceLines contents,
      indexSourceLines host (ignoresCase host config pattern) (readSourceLines contents))

/-- The part of `search` that follows the native attempt.  `cached` is what
`_load_literal_index` gives. -/
def pythonSearch
    (contents : Bytes)
    (cached : Except String (Option (List Text × TrigramIndex))) :
    Except SearchError SearchResult :=
  match host.compile pattern (ignoresCase host config pattern) config.fixedStrings with
  | .error exc => .error (.invalidRegexError (invalidRegexMessage exc))
  | .ok re =>
      match prefilterLiteral config pattern with
      | none =>
          .ok (resultOf
            (lineLoop file re config.invertMatch config.maxCount none 1 0 (linesOf 10 contents))
            "cpu_python_regex")
      | some literal =>
          match cached with
          | .error exc => .error (.cacheError exc)
          | .ok cached =>
              let (lines, index) := prefilterIndex host config pattern contents cached
              .ok (resultOf
                (lineLoop file re config.invertMatch config.maxCount
                  (some (candidatesFor host config pattern index literal)) 1 0
                  (lines.map encodeSourceLine))
                (if cached.isSome then "cpu_python_regex_prefilter_cache"
                  else "cpu_python_regex_prefilter"))

/-- The results of the native engine. -/
def nativeResult (results : List (Nat × Text)) : SearchResult :=
  let results := (config.maxCount.map results.take).getD results
  resultOf (results.map fun r => ⟨r.1, stripLineTerminator r.2, file⟩) "cpu_rust_regex"

/-- `CPUBackend.search`, where `contents` is what is in the file if there is one. -/
def search
    (contents : Option Bytes)
    (cached : Except String (Option (List Text × TrigramIndex))) :
    Except SearchError SearchResult :=
  if config.maxCount = some 0 then .ok (resultOf [] "cpu_max_count_zero")
  else
    match contents with
    | none => .ok (resultOf [] "cpu_missing_file")
    | some contents =>
        if !(config.text || config.binary) && isBinaryFile contents then
          .ok (resultOf [] "cpu_binary_skipped")
        else
          match host.native pattern (ignoresCase host config pattern) config.fixedStrings
            config.invertMatch contents with
          | .found results =>
              if results = [] ∧ fromUtf8 contents = none then
                if config.fixedStrings then
                  pythonSearch host config file pattern contents cached
                else .error (.backendExecutionError decodeMismatchMessage)
              else .ok (nativeResult config file results)
          | .absent => pythonSearch host config file pattern contents cached
          | .typeError exc => .error (.backendExecutionError (nativeTypeErrorMessage exc))
          | .failed invalidRegex kind exc =>
              if invalidRegex && !config.pcre2 then
                .error (.invalidRegexError (needsPcre2Message exc))
              else if config.pcre2 then
                .error (.backendExecutionError (pcre2Message kind exc))
              else if config.fixedStrings then
                pythonSearch host config file pattern contents cached
              else .error (.backendExecutionError (runtimeFailureMessage kind exc))

end Search

/-! ## The loop without and with a prefilter -/

section Loop

variable {host : Host} {config : SearchConfig} {file : String} {pattern : Text} {contents : Bytes}
  {re : Regexes}

theorem pythonSearch_of_none
    (hcompile : host.compile pattern (ignoresCase host config pattern) config.fixedStrings =
      .ok re)
    (hliteral : prefilterLiteral config pattern = none)
    (cached : Except String (Option (List Text × TrigramIndex))) :
    pythonSearch host config file pattern contents cached =
      .ok (resultOf
        (lineLoop file re config.invertMatch config.maxCount none 1 0 (linesOf 10 contents))
        "cpu_python_regex") := by
  rw [pythonSearch, hcompile]
  dsimp only
  rw [hliteral]

theorem pythonSearch_of_some
    (hcompile : host.compile pattern (ignoresCase host config pattern) config.fixedStrings =
      .ok re)
    {literal : Text}
    (hliteral : prefilterLiteral config pattern = some literal)
    (cached : Option (List Text × TrigramIndex)) :
    pythonSearch host config file pattern contents (.ok cached) =
      .ok (resultOf
        (lineLoop file re config.invertMatch config.maxCount
          (some (candidatesFor host config pattern
            (prefilterIndex host config pattern contents cached).2 literal)) 1 0
          ((prefilterIndex host config pattern contents cached).1.map encodeSourceLine))
        (if cached.isSome then "cpu_python_regex_prefilter_cache"
          else "cpu_python_regex_prefilter")) := by
  rw [pythonSearch, hcompile]
  dsimp only
  rw [hliteral]

end Loop

end CpuSearch
end TensorGrep
