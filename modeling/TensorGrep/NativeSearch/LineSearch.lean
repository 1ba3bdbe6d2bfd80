import TensorGrep.Kernel.Lines
import TensorGrep.Kernel.Utf8Text

/-!
# Searching one file serially

The native engine searches a file line by line.  Lines end at line feeds, are
numbered from 1 and keep what stands before the line feed.  Unless the input is
to be taken as text, a NUL byte stops the search: one in the first 64 KiB before
anything is reported, another one as soon as its line is visited.

The matcher and the line searcher are libraries; `LineSearcher` is what they
decide about a line.
-/

namespace TensorGrep
namespace NativeSearch

open Kernel

/-! ## Configuration -/

/-- The fields of `NativeSearchConfig` that decide how one file is searched. -/
structure NativeSearchConfig where
  text : Bool
  count : Bool
  json : Bool
  ndjson : Bool
  quiet : Bool
  onlyMatching : Bool
  nullData : Bool
  mmap : Bool
  beforeContext : Nat
  afterContext : Nat
  maxCount : Option Nat
  parallelLargeFiles : Bool
  largeFileChunkThresholdBytes : Nat
  chunkParallelismThreads : Option Nat

/-- The region in which a NUL byte is always detected. -/
def binaryDetectionPrefixBytes : Nat := 64 * 1024

/-- What the libraries decide about a line: whether it is reported, and whether its bytes are
looked at for a NUL.  Lines that are reported are looked at. -/
structure LineSearcher where
  selects : Bytes → Bool
  visits : Bytes → Bool
  visits_of_selects : ∀ line, selects line = true → visits line = true

/-- `memchr` for a NUL byte. -/
def nulOffset (bytes : Bytes) : Option Nat :=
  bytes.findIdx? (fun b => b = 0)

/-! ## The searcher -/

/-- What a search reports: the selected lines with their numbers, and the offset of the NUL byte
that stopped it. -/
structure SliceSearch where
  reported : List (Nat × Bytes)
  binaryAt : Option Nat

section Searcher

variable (quit : Bool) (S : LineSearcher)

/-- The line stops the search: it is visited and has a NUL byte. -/
def stopsAt (line : Bytes) : Option Nat :=
  if quit && S.visits line then nulOffset line else none

/-- The search of lines, from a line number and a byte offset on. -/
@[grind] def searchLines
    (lineNumber offset : Nat) : List Bytes → SliceSearch
  | [] => ⟨[], none⟩
  | line :: rest =>
      match stopsAt quit S line with
      | some i => ⟨[], some (offset + i)⟩
      | none =>
          let found := searchLines (lineNumber + 1) (offset + line.length) rest
          if S.selects line then ⟨(lineNumber, line) :: found.reported, found.binaryAt⟩
          else found

/-- `search_slice`, and `search_path` on the contents of a file. -/
@[grind] def searchSlice (contents : Bytes) : SliceSearch :=
  match if quit then nulOffset (contents.take binaryDetectionPrefixBytes) else none with
  | some i => ⟨[], some i⟩
  | none => searchLines quit S 1 0 (linesOf 10 contents)

end Searcher

/-! ## The serial search -/

/-- `NativeSearchMatch` in the file that is searched. -/
structure NativeSearchMatch where
  lineNumber : Nat
  raw : Bytes
deriving DecidableEq

/-- `FileSearchResult`. -/
structure FileSearchResult where
  found : List NativeSearchMatch
  matchCount : Nat
  binaryDetected : Bool
  binaryMatchDetected : Bool
  binaryByteOffset : Option Nat
deriving DecidableEq

/-- `strip_native_line_terminator`. -/
def stripNativeLineTerminator (line : Bytes) : Bytes :=
  if line.getLast? = some 10 then line.dropLast else line

/-- The largest region of a binary file that is probed. -/
def maxBinaryProbeBytes : Nat := 64 * 1024 * 1024

section Serial

variable (config : NativeSearchConfig) (S : LineSearcher) (isMatch : Bytes → Bool)
  (render : Bytes → Bytes)

/-- `binary_file_matches_pattern`, where `isMatch` is the matcher on a whole text. -/
def binaryFileMatchesPattern
    (contents : Bytes)
    (binaryDetected : Bool) : Bool :=
  binaryDetected && isMatch (contents.take maxBinaryProbeBytes)

/-- A reported line as a match, where `render` is `render_matched_line_bytes`. -/
def toMatch (reported : Nat × Bytes) : NativeSearchMatch :=
  ⟨reported.1, render (stripNativeLineTerminator reported.2)⟩

/-- `search_file_collect_matches_with_searcher`, which `search_file_json` and `search_file` call. -/
def searchFileCollectMatches (contents : Bytes) : FileSearchResult :=
  let search := searchSlice (!config.text) S contents
  let found := if search.binaryAt.isSome then [] else search.reported.map (toMatch render)
  ⟨found, found.length, search.binaryAt.isSome,
    binaryFileMatchesPattern isMatch contents search.binaryAt.isSome, search.binaryAt⟩

/-- `search_file_count_with_searcher`. -/
def searchFileCountWithSearcher (contents : Bytes) : FileSearchResult :=
  let search := searchSlice (!config.text) S contents
  ⟨[], if search.binaryAt.isSome then 0 else search.reported.length, search.binaryAt.isSome,
    binaryFileMatchesPattern isMatch contents search.binaryAt.isSome, search.binaryAt⟩

/-- The serial search of a file: for JSON output its matches, else their number if only that is
asked for. -/
def searchFileSerial (contents : Bytes) : FileSearchResult :=
  if config.json || !config.count then searchFileCollectMatches config S isMatch render contents
  else searchFileCountWithSearcher config S isMatch contents

end Serial

/-! ## Reported lines -/

section Reported

variable {quit : Bool} {S : LineSearcher}

/-- The selected ones of numbered lines. -/
@[grind] def selectedLines
    (S : LineSearcher)
    (lineNumber : Nat) : List Bytes → List (Nat × Bytes)
  | [] => []
  | line :: rest =>
      if S.selects line then (lineNumber, line) :: selectedLines S (lineNumber + 1) rest
      else selectedLines S (lineNumber + 1) rest

theorem selectedLines_append
    (n : Nat)
    (ls ls' : List Bytes) :
    selectedLines S n (ls ++ ls') = selectedLines S n ls ++ selectedLines S (n + ls.length) ls' := by
  induction ls generalizing n with
  | nil => rfl
  | cons line rest ih =>
      have hnext : n + (line :: rest).length = n + 1 + rest.length := by
        rw [List.length_cons, Nat.add_right_comm, Nat.add_assoc]
      rw [List.cons_append, selectedLines, selectedLines, ih, hnext]
      split <;> rfl

/-- Numbering from another number on. -/
theorem selectedLines_shift
    (n k : Nat)
    (ls : List Bytes) :
    selectedLines S (n + k) ls = (selectedLines S n ls).map fun r => (r.1 + k, r.2) := by
  induction ls generalizing n with
  | nil => rfl
  | cons line rest ih =>
      rw [selectedLines, selectedLines, Nat.add_right_comm, ih]
      split <;> rfl

theorem selectedLines_eq_nil_iff
    {n : Nat}
    {ls : List Bytes} :
    selectedLines S n ls = [] ↔ ∀ line ∈ ls, S.selects line = false := by
  induction ls generalizing n with
  | nil => simp [selectedLines]
  | cons line rest ih =>
      rw [selectedLines, List.forall_mem_cons]
      cases hsel : S.selects line with
      | true => simp
      | false => simp [ih]

/-- Reported are the selected lines before the first one that stops the search. -/
theorem reported_searchLines
    (n offset : Nat)
    (ls : List Bytes) :
    (searchLines quit S n offset ls).reported =
      selectedLines S n (ls.takeWhile fun line => (stopsAt quit S line).isNone) := by
  induction ls generalizing n offset with
  | nil => rfl
  | cons line rest ih =>
      rw [searchLines, List.takeWhile_cons]
      cases hstop : stopsAt quit S line with
      | some i => rfl
      | none =>
          simp only [Option.isNone_none, if_true, selectedLines]
          split
          · rw [ih]
          · exact ih _ _

/-- A search of lines is stopped exactly when one of them stops it. -/
theorem binaryAt_searchLines
    (n offset : Nat)
    (ls : List Bytes) :
    (searchLines quit S n offset ls).binaryAt = none ↔
      ∀ line ∈ ls, stopsAt quit S line = none := by
  induction ls generalizing n offset with
  | nil => simp [searchLines]
  | cons line rest ih =>
      rw [searchLines, List.forall_mem_cons]
      cases hstop : stopsAt quit S line with
      | some i => simp
      | none =>
          simp only [true_and]
          rw [← ih (n + 1) (offset + line.length)]
          split <;> rfl

end Reported

end NativeSearch
end TensorGrep
