import Mathlib.Data.List.TakeWhile
import TensorGrep.NativeSearch.LineSearch

/-!
# Searching one file in chunks

A large file is cut at line feeds into chunks that are searched independently.
Line numbers go on from chunk to chunk.  A NUL byte in the first 64 KiB of the
file makes it binary as in the serial search, but each chunk is searched with the
same detection again, and where that stops the search of a chunk, only this chunk
is cut short.

`searchFile_iff` says exactly when the search in chunks finds what the serial
search finds.
-/

namespace TensorGrep
namespace NativeSearch

open Kernel

/-! ## The plan -/

/-- `FileChunkPlan`. -/
structure FileChunkPlan where
  byteStart : Nat
  byteEnd : Nat
  firstLineNumber : Nat
deriving DecidableEq

/-- The bytes of a range. -/
def sliceOf
    (contents : Bytes)
    (range : Nat × Nat) : Bytes :=
  (contents.take range.2).drop range.1

/-- `align_chunk_end_to_newline`. -/
def alignChunkEndToNewline
    (contents : Bytes)
    (minimumEnd : Nat) : Nat :=
  if minimumEnd = 0 ∨ contents.length ≤ minimumEnd then contents.length
  else if contents[minimumEnd - 1]? = some 10 then minimumEnd
  else
    match (contents.drop minimumEnd).findIdx? (fun b => b = 10) with
    | some relativeOffset => minimumEnd + relativeOffset + 1
    | none => contents.length

/-- `count_lines`. -/
def countLines (contents : Bytes) : Nat :=
  if contents = [] then 0
  else if contents.getLast? = some 10 then contents.count 10
  else contents.count 10 + 1

/-- The loop that cuts the ranges, for at most `fuel` ranges. -/
def chunkRanges
    (contents : Bytes)
    (targetChunkSize : Nat) : Nat → Nat → List (Nat × Nat)
  | 0, _ => []
  | fuel + 1, byteStart =>
      if byteStart < contents.length then
        let minimumEnd := min (byteStart + targetChunkSize) contents.length
        let byteEnd :=
          if contents.length ≤ minimumEnd then contents.length
          else alignChunkEndToNewline contents minimumEnd
        if byteEnd ≤ byteStart then []
        else (byteStart, byteEnd) :: chunkRanges contents targetChunkSize fuel byteEnd
      else []

/-- The loop that numbers the chunks. -/
def numberChunks
    (contents : Bytes)
    (countOnly : Bool) : Nat → List (Nat × Nat) → List FileChunkPlan
  | _, [] => []
  | firstLineNumber, range :: ranges =>
      ⟨range.1, range.2, firstLineNumber⟩ ::
        numberChunks contents countOnly
          (if countOnly then firstLineNumber
            else firstLineNumber + countLines (sliceOf contents range)) ranges

/-- `plan_file_chunks`. -/
def planFileChunks
    (contents : Bytes)
    (requestedChunkCount : Nat)
    (countOnly : Bool) : List FileChunkPlan :=
  if contents = [] ∨ requestedChunkCount = 0 then []
  else
    let targetChunkSize := (contents.length + requestedChunkCount - 1) / requestedChunkCount
    numberChunks contents countOnly 1 (chunkRanges contents targetChunkSize contents.length 0)

/-! ## The search -/

section Search

variable (config : NativeSearchConfig) (S : LineSearcher) (isMatch : Bytes → Bool)
  (render : Bytes → Bytes)

/-- `configured_chunk_parallelism_threads`. -/
def configuredChunkParallelismThreads (availableParallelism : Nat) : Nat :=
  config.chunkParallelismThreads.getD availableParallelism

/-- `should_use_chunk_parallel_search` for a file of a length. -/
def shouldUseChunkParallelSearch (availableParallelism fileLen : Nat) : Bool :=
  config.parallelLargeFiles && config.mmap && !config.nullData && !config.ndjson &&
    (config.json || config.count || config.quiet) && !config.onlyMatching &&
    config.beforeContext = 0 && config.afterContext = 0 && config.maxCount.isNone &&
    2 ≤ configuredChunkParallelismThreads config availableParallelism &&
    config.largeFileChunkThresholdBytes ≤ fileLen

/-- `detect_binary_prefix`. -/
def detectBinaryPrefix (contents : Bytes) : Option Nat :=
  if config.text then none
  else nulOffset (contents.take (min contents.length binaryDetectionPrefixBytes))

/-- `search_chunk`. -/
def searchChunk
    (contents : Bytes)
    (firstLineNumber : Nat) : List NativeSearchMatch :=
  (searchSlice (!config.text) S contents).reported.map fun reported =>
    toMatch render (firstLineNumber + reported.1 - 1, reported.2)

/-- `search_chunk_count`. -/
def searchChunkCount (contents : Bytes) : Nat :=
  (searchSlice (!config.text) S contents).reported.length

/-- The bytes of a chunk. -/
def FileChunkPlan.slice
    (chunk : FileChunkPlan)
    (contents : Bytes) : Bytes :=
  sliceOf contents (chunk.byteStart, chunk.byteEnd)

/-- `search_file_chunk_parallel`. -/
def searchFileChunkParallel
    (availableParallelism : Nat)
    (contents : Bytes) : FileSearchResult :=
  let chunkPlan := planFileChunks contents
    (configuredChunkParallelismThreads config availableParallelism) config.count
  if chunkPlan.length ≤ 1 then
    if config.count then searchFileCountWithSearcher config S isMatch contents
    else searchFileCollectMatches config S isMatch render contents
  else
    match detectBinaryPrefix config contents with
    | some offset => ⟨[], 0, true, binaryFileMatchesPattern isMatch contents true, some offset⟩
    | none =>
        if config.count then
          ⟨[], (chunkPlan.map fun chunk =>
            searchChunkCount config S (chunk.slice contents)).sum, false, false, none⟩
        else
          let found := chunkPlan.flatMap fun chunk =>
            searchChunk config S render (chunk.slice contents) chunk.firstLineNumber
          ⟨found, found.length, false, false, none⟩

/-- `search_file` or `search_file_count`, whichever is called for the configuration. -/
def searchFile
    (availableParallelism : Nat)
    (contents : Bytes) : FileSearchResult :=
  if shouldUseChunkParallelSearch config availableParallelism contents.length then
    searchFileChunkParallel config S isMatch render availableParallelism contents
  else searchFileSerial config S isMatch render contents

end Search

/-! ## The plan covers the lines -/

section Plan

variable {contents : Bytes}

theorem countLines_eq
    (bytes : Bytes) :
    countLines bytes = (linesOf 10 bytes).length := by
  obtain ⟨hend, hopen⟩ := @length_linesOf _ _ (10 : UInt8) bytes
  rw [countLines]
  split
  case isTrue hnil => rw [hend (Or.inl hnil), hnil, List.count_nil]
  case isFalse hne =>
      split
      case isTrue hlast => exact (hend (Or.inr hlast)).symm
      case isFalse hlast =>
          refine (hopen ?_).symm
          rintro (hnil | hlast')
          · exact hne hnil
          · exact hlast hlast'

/-- An aligned end is past the minimum, not past the contents, and at a line end. -/
theorem alignChunkEndToNewline_spec
    {minimumEnd : Nat}
    (hpos : 0 < minimumEnd)
    (hlt : minimumEnd < contents.length) :
    minimumEnd ≤ alignChunkEndToNewline contents minimumEnd ∧
      alignChunkEndToNewline contents minimumEnd ≤ contents.length ∧
      (alignChunkEndToNewline contents minimumEnd = contents.length ∨
        contents[alignChunkEndToNewline contents minimumEnd - 1]? = some 10) := by
  rw [alignChunkEndToNewline, if_neg (by omega)]
  split
  case isTrue hnewline => exact ⟨le_refl _, hlt.le, Or.inr hnewline⟩
  case isFalse =>
      split
      next offset hfound =>
          obtain ⟨hbound, hbyte, -⟩ := List.findIdx?_eq_some_iff_getElem.mp hfound
          rw [List.length_drop] at hbound
          refine ⟨by omega, by omega, Or.inr ?_⟩
          rw [Nat.add_sub_cancel, List.getElem?_eq_getElem (by omega)]
          rw [List.getElem_drop] at hbyte
          exact congrArg some (of_decide_eq_true hbyte)
      next hnone => exact ⟨hlt.le, le_refl _, Or.inl rfl⟩

/-- The end that the loop cuts at. -/
theorem byteEnd_spec
    {target byteStart byteEnd : Nat}
    (htarget : 0 < target)
    (hlt : byteStart < contents.length)
    (hend : byteEnd =
      if contents.length ≤ min (byteStart + target) contents.length then contents.length
      else alignChunkEndToNewline contents (min (byteStart + target) contents.length)) :
    byteStart < byteEnd ∧ byteEnd ≤ contents.length ∧
      (byteEnd = contents.length ∨ contents[byteEnd - 1]? = some 10) := by
  split at hend
  case isTrue hle =>
      subst hend
      exact ⟨hlt, le_refl _, Or.inl rfl⟩
  case isFalse hnot =>
      obtain ⟨hmin, hle, hcut⟩ := @alignChunkEndToNewline_spec contents
        (min (byteStart + target) contents.length) (by omega) (by omega)
      subst hend
      exact ⟨by omega, hle, hcut⟩

/-- One turn of the loop. -/
theorem chunkRanges_succ
    {target fuel byteStart byteEnd : Nat}
    (hlt : byteStart < contents.length)
    (hend : byteEnd =
      if contents.length ≤ min (byteStart + target) contents.length then contents.length
      else alignChunkEndToNewline contents (min (byteStart + target) contents.length))
    (hgrows : byteStart < byteEnd) :
    chunkRanges contents target (fuel + 1) byteStart =
      (byteStart, byteEnd) :: chunkRanges contents target fuel byteEnd := by
  rw [chunkRanges, if_pos hlt]
  dsimp only
  rw [← hend, if_neg (Nat.not_le.mpr hgrows)]

/-- A range that ends at a line end. -/
theorem linesOf_sliceOf
    {byteStart byteEnd : Nat}
    (hlt : byteStart < byteEnd)
    (hle : byteEnd ≤ contents.length)
    (hcut : byteEnd = contents.length ∨ contents[byteEnd - 1]? = some 10) :
    linesOf 10 (sliceOf contents (byteStart, byteEnd)) ++ linesOf 10 (contents.drop byteEnd) =
      linesOf 10 (contents.drop byteStart) := by
  have hsplit : sliceOf contents (byteStart, byteEnd) ++ contents.drop byteEnd =
      contents.drop byteStart := by
    rw [sliceOf, ← List.drop_append_of_le_length (by rw [List.length_take]; omega),
      List.take_append_drop]
  rcases hcut with rfl | hnewline
  · rw [List.drop_length, linesOf_nil, List.append_nil]
    rw [List.drop_length, List.append_nil] at hsplit
    rw [hsplit]
  · rw [← hsplit, linesOf_append]
    refine Or.inr ?_
    rw [sliceOf, List.getLast?_drop, List.length_take, if_neg (by omega), List.getLast?_take,
      if_neg (by omega), hnewline]
    rfl

/-- The ranges have all lines from where the loop starts. -/
theorem linesOf_chunkRanges
    {target : Nat}
    (htarget : 0 < target)
    (fuel byteStart : Nat)
    (hfuel : contents.length ≤ byteStart + fuel) :
    (chunkRanges contents target fuel byteStart).flatMap
        (fun range => linesOf 10 (sliceOf contents range)) =
      linesOf 10 (contents.drop byteStart) := by
  induction fuel generalizing byteStart with
  | zero =>
      rw [List.drop_eq_nil_of_le (by omega)]
      rfl
  | succ fuel ih =>
      by_cases hlt : byteStart < contents.length
      · obtain ⟨hgrows, hle, hcut⟩ := byteEnd_spec htarget hlt rfl
        rw [chunkRanges_succ hlt rfl hgrows, List.flatMap_cons, ih _ (by omega)]
        exact linesOf_sliceOf hgrows hle hcut
      · rw [chunkRanges, if_neg hlt, List.drop_eq_nil_of_le (by omega)]
        rfl

theorem map_slice_numberChunks
    (countOnly : Bool)
    (n : Nat)
    (ranges : List (Nat × Nat)) :
    (numberChunks contents countOnly n ranges).map (fun chunk => chunk.slice contents) =
      ranges.map (sliceOf contents) := by
  induction ranges generalizing n with
  | nil => rfl
  | cons range ranges ih =>
      rw [numberChunks, List.map_cons, ih]
      rfl

/-- The chunks of a plan have all lines of the file. -/
theorem linesOf_planFileChunks
    {requested : Nat}
    (hrequested : requested ≠ 0)
    (countOnly : Bool) :
    (planFileChunks contents requested countOnly).flatMap
        (fun chunk => linesOf 10 (chunk.slice contents)) = linesOf 10 contents := by
  rw [planFileChunks]
  split
  case isTrue hnil =>
      rw [hnil.resolve_right hrequested]
      rfl
  case isFalse hne =>
      have hlength : 0 < contents.length :=
        List.length_pos_iff.mpr fun hnil => hne (Or.inl hnil)
      have htarget : 0 < (contents.length + requested - 1) / requested :=
        Nat.div_pos (by omega) (by omega)
      have hlines := linesOf_chunkRanges htarget contents.length 0
        (Nat.le_add_left contents.length 0)
      rw [List.drop_zero, ← List.flatMap_map] at hlines
      rw [← List.flatMap_map, map_slice_numberChunks]
      exact hlines

/-- The numbers of the chunks go on where the lines before them end. -/
theorem selectedLines_numberChunks
    {S : LineSearcher}
    (n : Nat)
    (ranges : List (Nat × Nat)) :
    (numberChunks contents false n ranges).flatMap
        (fun chunk => selectedLines S chunk.firstLineNumber (linesOf 10 (chunk.slice contents))) =
      selectedLines S n ((numberChunks contents false n ranges).flatMap
        fun chunk => linesOf 10 (chunk.slice contents)) := by
  induction ranges generalizing n with
  | nil => rfl
  | cons range ranges ih =>
      rw [numberChunks, List.flatMap_cons, List.flatMap_cons, selectedLines_append, ih,
        if_neg Bool.false_ne_true, countLines_eq]
      rfl

theorem one_le_firstLineNumber
    {countOnly : Bool}
    {n : Nat}
    (hn : 1 ≤ n)
    {ranges : List (Nat × Nat)}
    {chunk : FileChunkPlan}
    (h : chunk ∈ numberChunks contents countOnly n ranges) :
    1 ≤ chunk.firstLineNumber := by
  induction ranges generalizing n with
  | nil => cases h
  | cons range ranges ih =>
      rcases List.mem_cons.mp h with rfl | h
      · exact hn
      · refine ih ?_ h
        split
        · exact hn
        · omega

end Plan

/-! ## Agreement with the serial search -/

section Agreement

variable {config : NativeSearchConfig} {S : LineSearcher} {isMatch : Bytes → Bool}
  {render : Bytes → Bytes} {availableParallelism : Nat} {contents : Bytes}

/-- The first 64 KiB have a NUL byte, and the input is not taken as text. -/
def StopsAtOnce
    (config : NativeSearchConfig)
    (contents : Bytes) : Prop :=
  detectBinaryPrefix config contents ≠ none

/-- The line stops a search that comes to it. -/
def StopsAtLine
    (config : NativeSearchConfig)
    (S : LineSearcher)
    (line : Bytes) : Prop :=
  stopsAt (!config.text) S line ≠ none

/-- The lines that a search gets to, if nothing stops it at once. -/
def linesBeforeStop
    (config : NativeSearchConfig)
    (S : LineSearcher)
    (contents : Bytes) : List Bytes :=
  (linesOf 10 contents).takeWhile fun line => (stopsAt (!config.text) S line).isNone

/-- The plan of a configuration. -/
def chunkPlan
    (config : NativeSearchConfig)
    (availableParallelism : Nat)
    (contents : Bytes) : List FileChunkPlan :=
  planFileChunks contents (configuredChunkParallelismThreads config availableParallelism)
    config.count

/-- Where the file has no NUL byte that the serial search sees, no chunk with a selected line
starts with one; where it has one, no chunk has a selected line before its own first NUL byte
that is seen. -/
def ChunksAgree
    (config : NativeSearchConfig)
    (S : LineSearcher)
    (availableParallelism : Nat)
    (contents : Bytes) : Prop :=
  (chunkPlan config availableParallelism contents).length ≤ 1 ∨
    StopsAtOnce config contents ∨
    (∀ line ∈ linesOf 10 contents, ¬ StopsAtLine config S line) ∧
      (∀ chunk ∈ chunkPlan config availableParallelism contents,
        StopsAtOnce config (chunk.slice contents) →
          ∀ line ∈ linesOf 10 (chunk.slice contents), S.selects line = false) ∨
    (∃ line ∈ linesOf 10 contents, StopsAtLine config S line) ∧
      ∀ chunk ∈ chunkPlan config availableParallelism contents,
        StopsAtOnce config (chunk.slice contents) ∨
          ∀ line ∈ linesBeforeStop config S (chunk.slice contents), S.selects line = false

/-- The serial search of the file reports nothing. -/
def ReportsNothing
    (config : NativeSearchConfig)
    (S : LineSearcher)
    (contents : Bytes) : Prop :=
  StopsAtOnce config contents ∨
    (∃ line ∈ linesOf 10 contents, StopsAtLine config S line) ∨
    ∀ line ∈ linesOf 10 contents, S.selects line = false

/-- Two results have the same matches, in the same order, and the same count. -/
def SameMatches (r r' : FileSearchResult) : Prop :=
  r.found = r'.found ∧ r.matchCount = r'.matchCount

/-- The searcher detects a NUL byte at once where `detectBinaryPrefix` does. -/
theorem searchSlice_eq
    (bytes : Bytes) :
    searchSlice (!config.text) S bytes =
      match detectBinaryPrefix config bytes with
      | some offset => ⟨[], some offset⟩
      | none => searchLines (!config.text) S 1 0 (linesOf 10 bytes) := by
  have htake : bytes.take (min bytes.length binaryDetectionPrefixBytes) =
      bytes.take binaryDetectionPrefixBytes := by
    rcases Nat.le_total bytes.length binaryDetectionPrefixBytes with hle | hle
    · rw [Nat.min_eq_left hle, List.take_length, List.take_of_length_le hle]
    · rw [Nat.min_eq_right hle]
  rw [searchSlice, detectBinaryPrefix, htake]
  cases config.text <;> rfl

/-- What a search of a slice reports. -/
theorem reported_searchSlice
    (bytes : Bytes) :
    (searchSlice (!config.text) S bytes).reported =
      if (detectBinaryPrefix config bytes).isSome then []
      else selectedLines S 1 (linesBeforeStop config S bytes) := by
  rw [searchSlice_eq]
  cases detectBinaryPrefix config bytes with
  | some offset => rfl
  | none => exact reported_searchLines 1 0 _

/-- Where no line stops a search, it gets to all lines. -/
theorem linesBeforeStop_eq
    {bytes : Bytes}
    (h : ∀ line ∈ linesOf 10 bytes, ¬ StopsAtLine config S line) :
    linesBeforeStop config S bytes = linesOf 10 bytes :=
  List.takeWhile_eq_self_iff.mpr fun line hline =>
    Option.isNone_iff_eq_none.mpr (not_not.mp (h line hline))

theorem length_selectedLines
    (n : Nat)
    (ls : List Bytes) :
    (selectedLines S n ls).length = ls.countP S.selects := by
  induction ls generalizing n with
  | nil => rfl
  | cons line rest ih =>
      rw [selectedLines, List.countP_cons]
      split
      · rw [List.length_cons, ih]
      · rw [ih, Nat.add_zero]

/-- A search of a slice reports nothing exactly when it stops before a selected line. -/
theorem reported_eq_nil_iff
    {bytes : Bytes} :
    (searchSlice (!config.text) S bytes).reported = [] ↔
      StopsAtOnce config bytes ∨
        ∀ line ∈ linesBeforeStop config S bytes, S.selects line = false := by
  rw [reported_searchSlice]
  split
  case isTrue hstop =>
      exact iff_of_true rfl (Or.inl (Option.isSome_iff_ne_none.mp hstop))
  case isFalse hgo =>
      rw [selectedLines_eq_nil_iff]
      exact (or_iff_right (mt Option.isSome_iff_ne_none.mpr hgo)).symm

/-- A search of a slice reports no more than the selected lines. -/
theorem length_reported_le
    (bytes : Bytes) :
    (searchSlice (!config.text) S bytes).reported.length ≤ (linesOf 10 bytes).countP S.selects := by
  rw [reported_searchSlice]
  split
  · exact Nat.zero_le _
  · rw [length_selectedLines]
    exact (List.takeWhile_sublist _).countP_le

/-- Terms that are at most others have the same sum only if they are the same. -/
theorem sum_map_eq_iff
    {α : Type}
    {f g : α → Nat}
    (hle : ∀ a, f a ≤ g a)
    (l : List α) :
    (l.map f).sum = (l.map g).sum ↔ ∀ a ∈ l, f a = g a := by
  induction l with
  | nil => simp
  | cons a l ih =>
      have hsum : (l.map f).sum ≤ (l.map g).sum :=
        List.sum_le_sum fun b _ => hle b
      have ha := hle a
      rw [List.map_cons, List.map_cons, List.sum_cons, List.sum_cons, List.forall_mem_cons, ← ih]
      omega

/-- With more than one chunk and nothing in the first 64 KiB, the chunks are searched. -/
theorem searchFileChunkParallel_eq
    (hchunks : ¬ (chunkPlan config availableParallelism contents).length ≤ 1)
    (hquiet : ¬ StopsAtOnce config contents) :
    searchFileChunkParallel config S isMatch render availableParallelism contents =
      if config.count then
        ⟨[], ((chunkPlan config availableParallelism contents).map fun chunk =>
          searchChunkCount config S (chunk.slice contents)).sum, false, false, none⟩
      else
        let found := (chunkPlan config availableParallelism contents).flatMap fun chunk =>
          searchChunk config S render (chunk.slice contents) chunk.firstLineNumber
        ⟨found, found.length, false, false, none⟩ := by
  rw [searchFileChunkParallel]
  change (if (chunkPlan config availableParallelism contents).length ≤ 1 then _ else _) = _
  rw [if_neg hchunks, not_not.mp hquiet]
  rfl

/-- The count of the chunks is the number of lines that they report. -/
theorem matchCount_parallel
    (hchunks : ¬ (chunkPlan config availableParallelism contents).length ≤ 1)
    (hquiet : ¬ StopsAtOnce config contents) :
    (searchFileChunkParallel config S isMatch render availableParallelism contents).matchCount =
      ((chunkPlan config availableParallelism contents).map fun chunk =>
        (searchSlice (!config.text) S (chunk.slice contents)).reported.length).sum := by
  rw [searchFileChunkParallel_eq hchunks hquiet]
  split
  · rfl
  · dsimp only
    rw [List.length_flatMap]
    refine congrArg List.sum (List.map_congr_left ?_)
    intro chunk _
    exact List.length_map _

/-- What the serial search reports. -/
theorem searchFileSerial_eq
    (contents : Bytes) :
    (searchFileSerial config S isMatch render contents).matchCount =
        (if (searchSlice (!config.text) S contents).binaryAt.isSome then 0
          else (searchSlice (!config.text) S contents).reported.length) ∧
      (searchFileSerial config S isMatch render contents).found =
        if (config.json || !config.count) ∧
            (searchSlice (!config.text) S contents).binaryAt.isSome = false then
          (searchSlice (!config.text) S contents).reported.map (toMatch render)
        else [] := by
  rw [searchFileSerial]
  cases config.json || !config.count with
  | false => exact ⟨rfl, rfl⟩
  | true =>
      cases hbinary : (searchSlice (!config.text) S contents).binaryAt.isSome with
      | true => simp [searchFileCollectMatches, hbinary]
      | false => simp [searchFileCollectMatches, hbinary]

/-- A search that nothing stops at once is stopped exactly by a line. -/
theorem binaryAt_searchSlice
    (hquiet : ¬ StopsAtOnce config contents) :
    (searchSlice (!config.text) S contents).binaryAt.isSome = true ↔
      ∃ line ∈ linesOf 10 contents, StopsAtLine config S line := by
  rw [searchSlice_eq, not_not.mp hquiet, Option.isSome_iff_ne_none, ne_eq, binaryAt_searchLines]
  simp only [StopsAtLine, not_forall, exists_prop]

/-- The lines of a chunk are lines of the file, as far as lines are selected or stop a search. -/
theorem linesOf_chunkPlan
    (hchunks : ¬ (chunkPlan config availableParallelism contents).length ≤ 1) :
    (chunkPlan config availableParallelism contents).flatMap
        (fun chunk => linesOf 10 (chunk.slice contents)) = linesOf 10 contents := by
  refine linesOf_planFileChunks ?_ config.count
  intro hzero
  refine hchunks ?_
  rw [chunkPlan, planFileChunks, if_pos (Or.inr hzero)]
  exact Nat.zero_le 1

/-- A chunk that reports all of its selected lines reports them with the numbers of the file. -/
theorem searchChunk_eq
    {chunk : FileChunkPlan}
    (hfirst : 1 ≤ chunk.firstLineNumber)
    (hall : (searchSlice (!config.text) S (chunk.slice contents)).reported =
      selectedLines S 1 (linesOf 10 (chunk.slice contents))) :
    searchChunk config S render (chunk.slice contents) chunk.firstLineNumber =
      (selectedLines S chunk.firstLineNumber (linesOf 10 (chunk.slice contents))).map
        (toMatch render) := by
  have hshift := selectedLines_shift (S := S) 1 (chunk.firstLineNumber - 1)
    (linesOf 10 (chunk.slice contents))
  rw [Nat.add_sub_cancel' hfirst] at hshift
  rw [searchChunk, hall, hshift, List.map_map]
  refine List.map_congr_left ?_
  intro reported _
  have hnumber : chunk.firstLineNumber + reported.1 - 1 =
      reported.1 + (chunk.firstLineNumber - 1) := by
    omega
  rw [Function.comp_apply, hnumber]

/-- A file that is stopped by a line: the counts are the same exactly when no chunk reports a
line. -/
theorem matchCount_iff_of_stopsAtLine
    (hchunks : ¬ (chunkPlan config availableParallelism contents).length ≤ 1)
    (hquiet : ¬ StopsAtOnce config contents)
    (hstop : ∃ line ∈ linesOf 10 contents, StopsAtLine config S line) :
    (searchFileChunkParallel config S isMatch render availableParallelism contents).matchCount =
        (searchFileSerial config S isMatch render contents).matchCount ↔
      ∀ chunk ∈ chunkPlan config availableParallelism contents,
        (searchSlice (!config.text) S (chunk.slice contents)).reported = [] := by
  rw [matchCount_parallel hchunks hquiet, (searchFileSerial_eq contents).1,
    if_pos ((binaryAt_searchSlice hquiet).mpr hstop), List.sum_eq_zero_iff, List.forall_mem_map]
  exact forall₂_congr fun _ _ => List.length_eq_zero_iff

/-- In a file that no line stops, the lines of a chunk do not stop its search. -/
theorem linesBeforeStop_chunk
    (hchunks : ¬ (chunkPlan config availableParallelism contents).length ≤ 1)
    (hgo : ∀ line ∈ linesOf 10 contents, ¬ StopsAtLine config S line)
    {chunk : FileChunkPlan}
    (hchunk : chunk ∈ chunkPlan config availableParallelism contents) :
    linesBeforeStop config S (chunk.slice contents) = linesOf 10 (chunk.slice contents) := by
  refine linesBeforeStop_eq fun line hline => hgo line ?_
  rw [← linesOf_chunkPlan hchunks]
  exact List.mem_flatMap.mpr ⟨chunk, hchunk, hline⟩

/-- In a file that no line stops, a chunk reports all of its selected lines, unless it is stopped
at once and has some. -/
theorem reported_eq_selectedLines_iff
    (hchunks : ¬ (chunkPlan config availableParallelism contents).length ≤ 1)
    (hgo : ∀ line ∈ linesOf 10 contents, ¬ StopsAtLine config S line)
    {chunk : FileChunkPlan}
    (hchunk : chunk ∈ chunkPlan config availableParallelism contents) :
    (searchSlice (!config.text) S (chunk.slice contents)).reported =
        selectedLines S 1 (linesOf 10 (chunk.slice contents)) ↔
      (StopsAtOnce config (chunk.slice contents) →
        ∀ line ∈ linesOf 10 (chunk.slice contents), S.selects line = false) := by
  rw [reported_searchSlice, linesBeforeStop_chunk hchunks hgo hchunk]
  split
  case isTrue hstop =>
      have honce : StopsAtOnce config (chunk.slice contents) :=
        Option.isSome_iff_ne_none.mp hstop
      rw [eq_comm, selectedLines_eq_nil_iff]
      exact ⟨fun hnone _ => hnone, fun hnone => hnone honce⟩
  case isFalse hgoes =>
      exact iff_of_true rfl fun hstop => absurd (Option.isSome_iff_ne_none.mpr hstop) hgoes

/-- A file that no line stops: the counts are the same exactly when every chunk reports all of its
selected lines. -/
theorem matchCount_iff_of_not_stopsAtLine
    (hchunks : ¬ (chunkPlan config availableParallelism contents).length ≤ 1)
    (hquiet : ¬ StopsAtOnce config contents)
    (hgo : ∀ line ∈ linesOf 10 contents, ¬ StopsAtLine config S line) :
    (searchFileChunkParallel config S isMatch render availableParallelism contents).matchCount =
        (searchFileSerial config S isMatch render contents).matchCount ↔
      ∀ chunk ∈ chunkPlan config availableParallelism contents,
        (searchSlice (!config.text) S (chunk.slice contents)).reported =
          selectedLines S 1 (linesOf 10 (chunk.slice contents)) := by
  have hnot : ¬ (searchSlice (!config.text) S contents).binaryAt.isSome = true := by
    rw [binaryAt_searchSlice hquiet]
    rintro ⟨line, hline, hstop⟩
    exact hgo line hline hstop
  have hserial : (searchSlice (!config.text) S contents).reported.length =
      ((chunkPlan config availableParallelism contents).map fun chunk =>
        (linesOf 10 (chunk.slice contents)).countP S.selects).sum := by
    rw [reported_searchSlice, if_neg (mt Option.isSome_iff_ne_none.mp hquiet),
      linesBeforeStop_eq hgo, length_selectedLines, ← linesOf_chunkPlan hchunks,
      List.countP_flatMap]
    rfl
  rw [matchCount_parallel hchunks hquiet, (searchFileSerial_eq contents).1, if_neg hnot, hserial,
    sum_map_eq_iff fun chunk : FileChunkPlan =>
      @length_reported_le config S (chunk.slice contents)]
  refine forall₂_congr fun chunk hchunk => ?_
  constructor
  · intro hlength
    rw [reported_eq_selectedLines_iff hchunks hgo hchunk]
    intro hstop line hline
    rw [reported_searchSlice, if_pos (Option.isSome_iff_ne_none.mpr hstop)] at hlength
    exact Bool.eq_false_iff.mpr (List.countP_eq_zero.mp hlength.symm line hline)
  · intro hall
    rw [hall, length_selectedLines]

/-- Chunks that report all of their selected lines report what the serial search reports. -/
theorem found_eq_of_reported
    (hchunks : ¬ (chunkPlan config availableParallelism contents).length ≤ 1)
    (hquiet : ¬ StopsAtOnce config contents)
    (hgo : ∀ line ∈ linesOf 10 contents, ¬ StopsAtLine config S line)
    (hcount : config.count = false)
    (hall : ∀ chunk ∈ chunkPlan config availableParallelism contents,
      (searchSlice (!config.text) S (chunk.slice contents)).reported =
        selectedLines S 1 (linesOf 10 (chunk.slice contents))) :
    (searchFileChunkParallel config S isMatch render availableParallelism contents).found =
      (searchFileSerial config S isMatch render contents).found := by
  have hbinary : (searchSlice (!config.text) S contents).binaryAt.isSome = false := by
    rw [← Bool.not_eq_true, binaryAt_searchSlice hquiet]
    rintro ⟨line, hline, hstop⟩
    exact hgo line hline hstop
  have hplan : chunkPlan config availableParallelism contents =
      numberChunks contents false 1 (chunkRanges contents
        ((contents.length + configuredChunkParallelismThreads config availableParallelism - 1) /
          configuredChunkParallelismThreads config availableParallelism) contents.length 0) := by
    have hnonempty : ¬ (contents = [] ∨
        configuredChunkParallelismThreads config availableParallelism = 0) := by
      intro hnil
      rw [chunkPlan, planFileChunks, if_pos hnil] at hchunks
      exact hchunks (Nat.zero_le 1)
    rw [chunkPlan, planFileChunks, if_neg hnonempty, hcount]
  have hfirst : ∀ chunk ∈ chunkPlan config availableParallelism contents,
      1 ≤ chunk.firstLineNumber := by
    intro chunk hchunk
    rw [hplan] at hchunk
    exact one_le_firstLineNumber (le_refl 1) hchunk
  have hnumbers : (chunkPlan config availableParallelism contents).flatMap (fun chunk =>
      selectedLines S chunk.firstLineNumber (linesOf 10 (chunk.slice contents))) =
        selectedLines S 1 (linesOf 10 contents) := by
    rw [← linesOf_chunkPlan hchunks, hplan, selectedLines_numberChunks]
  rw [searchFileChunkParallel_eq hchunks hquiet, (searchFileSerial_eq contents).2, hcount,
    if_neg Bool.false_ne_true, if_pos ⟨Bool.or_true _, hbinary⟩, reported_searchSlice,
    if_neg (mt Option.isSome_iff_ne_none.mp hquiet), linesBeforeStop_eq hgo, ← hnumbers,
    List.map_flatMap]
  exact List.flatMap_congr fun chunk hchunk => searchChunk_eq (hfirst chunk hchunk)
    (hall chunk hchunk)

/-- With one chunk the search is the serial one. -/
theorem searchFileChunkParallel_of_short
    (hchunks : (chunkPlan config availableParallelism contents).length ≤ 1) :
    searchFileChunkParallel config S isMatch render availableParallelism contents =
      if config.count then searchFileCountWithSearcher config S isMatch contents
      else searchFileCollectMatches config S isMatch render contents := by
  rw [searchFileChunkParallel]
  change (if (chunkPlan config availableParallelism contents).length ≤ 1 then _ else _) = _
  rw [if_pos hchunks]

/-- A file that is stopped at once has no matches in either search. -/
theorem nothing_of_stopsAtOnce
    (hchunks : ¬ (chunkPlan config availableParallelism contents).length ≤ 1)
    (hstop : StopsAtOnce config contents) :
    ((searchFileChunkParallel config S isMatch render availableParallelism contents).found = [] ∧
        (searchFileChunkParallel config S isMatch render availableParallelism
          contents).matchCount = 0) ∧
      (searchFileSerial config S isMatch render contents).found = [] ∧
      (searchFileSerial config S isMatch render contents).matchCount = 0 := by
  obtain ⟨offset, hoffset⟩ := Option.ne_none_iff_exists'.mp hstop
  refine ⟨?_, ?_⟩
  · rw [searchFileChunkParallel]
    change FileSearchResult.found
      (if (chunkPlan config availableParallelism contents).length ≤ 1 then _ else _) = _ ∧
        FileSearchResult.matchCount
          (if (chunkPlan config availableParallelism contents).length ≤ 1 then _ else _) = _
    rw [if_neg hchunks, hoffset]
    exact ⟨rfl, rfl⟩
  · have hsearch : (searchSlice (!config.text) S contents).binaryAt.isSome = true := by
      rw [searchSlice_eq, hoffset]
      rfl
    rw [(searchFileSerial_eq contents).1, (searchFileSerial_eq contents).2, hsearch]
    simp

/-- The counts are the same exactly where no NUL byte tells the chunks from the file. -/
theorem matchCount_iff :
    (searchFileChunkParallel config S isMatch render availableParallelism contents).matchCount =
        (searchFileSerial config S isMatch render contents).matchCount ↔
      ChunksAgree config S availableParallelism contents := by
  rw [ChunksAgree]
  by_cases hchunks : (chunkPlan config availableParallelism contents).length ≤ 1
  · refine iff_of_true ?_ (Or.inl hchunks)
    rw [searchFileChunkParallel_of_short hchunks, (searchFileSerial_eq contents).1]
    split
    · rfl
    · rw [searchFileCollectMatches]
      cases (searchSlice (!config.text) S contents).binaryAt.isSome <;> simp
  rw [or_iff_right hchunks]
  by_cases hquiet : StopsAtOnce config contents
  · obtain ⟨⟨-, hparallel⟩, -, hserial⟩ :=
      @nothing_of_stopsAtOnce config S isMatch render _ _ hchunks hquiet
    exact iff_of_true (hparallel.trans hserial.symm) (Or.inl hquiet)
  rw [or_iff_right hquiet]
  by_cases hstop : ∃ line ∈ linesOf 10 contents, StopsAtLine config S line
  · rw [matchCount_iff_of_stopsAtLine hchunks hquiet hstop, or_iff_right, and_iff_right hstop]
    · exact forall₂_congr fun _ _ => reported_eq_nil_iff
    · rintro ⟨hgo, -⟩
      obtain ⟨line, hline, hstops⟩ := hstop
      exact hgo line hline hstops
  · have hgo : ∀ line ∈ linesOf 10 contents, ¬ StopsAtLine config S line := by
      intro line hline hstops
      exact hstop ⟨line, hline, hstops⟩
    rw [matchCount_iff_of_not_stopsAtLine hchunks hquiet hgo, or_iff_left, and_iff_right hgo]
    · exact forall₂_congr fun _ hchunk => reported_eq_selectedLines_iff hchunks hgo hchunk
    · exact fun h => hstop h.1

/-- Where the counts are the same, so are the matches, unless only the count was asked for. -/
theorem found_eq
    (hcount : config.count = false)
    (hagree : ChunksAgree config S availableParallelism contents) :
    (searchFileChunkParallel config S isMatch render availableParallelism contents).found =
      (searchFileSerial config S isMatch render contents).found := by
  by_cases hchunks : (chunkPlan config availableParallelism contents).length ≤ 1
  · rw [searchFileChunkParallel_of_short hchunks, searchFileSerial, hcount, Bool.not_false,
      Bool.or_true]
    rfl
  by_cases hquiet : StopsAtOnce config contents
  · obtain ⟨⟨hparallel, -⟩, hserial, -⟩ :=
      @nothing_of_stopsAtOnce config S isMatch render _ _ hchunks hquiet
    exact hparallel.trans hserial.symm
  rcases (hagree.resolve_left hchunks).resolve_left hquiet with ⟨hgo, hcomplete⟩ |
    ⟨hstop, hsilent⟩
  · exact found_eq_of_reported hchunks hquiet hgo hcount fun chunk hchunk =>
      (reported_eq_selectedLines_iff hchunks hgo hchunk).mpr (hcomplete chunk hchunk)
  · rw [searchFileChunkParallel_eq hchunks hquiet, (searchFileSerial_eq contents).2, hcount,
      if_neg Bool.false_ne_true, if_neg]
    · refine List.flatMap_eq_nil_iff.mpr fun chunk hchunk => ?_
      rw [searchChunk, reported_eq_nil_iff.mpr (hsilent chunk hchunk)]
      rfl
    · rintro ⟨-, hbinary⟩
      rw [(binaryAt_searchSlice hquiet).mpr hstop] at hbinary
      cases hbinary

/-- When only the count was asked for, the chunks give no matches. -/
theorem found_eq_nil
    (hcount : config.count = true) :
    (searchFileChunkParallel config S isMatch render availableParallelism contents).found =
      [] := by
  by_cases hchunks : (chunkPlan config availableParallelism contents).length ≤ 1
  · rw [searchFileChunkParallel_of_short hchunks, if_pos hcount]
    rfl
  by_cases hquiet : StopsAtOnce config contents
  · exact (@nothing_of_stopsAtOnce config S isMatch render _ _ hchunks hquiet).1.1
  · rw [searchFileChunkParallel_eq hchunks hquiet, if_pos hcount]

/-- The serial search gives no matches when it reports nothing, or when only the count was asked
for. -/
theorem found_serial_eq_nil_iff
    (hcount : config.count = true) :
    (searchFileSerial config S isMatch render contents).found = [] ↔
      (config.json = true → ReportsNothing config S contents) := by
  rw [(searchFileSerial_eq contents).2, hcount, Bool.not_true, Bool.or_false]
  cases config.json with
  | false => simp
  | true =>
      rw [forall_prop_of_true rfl, ReportsNothing]
      by_cases hquiet : StopsAtOnce config contents
      · obtain ⟨offset, hoffset⟩ := Option.ne_none_iff_exists'.mp hquiet
        refine iff_of_true ?_ (Or.inl hquiet)
        rw [searchSlice_eq, hoffset]
        simp
      rw [or_iff_right hquiet]
      by_cases hstop : ∃ line ∈ linesOf 10 contents, StopsAtLine config S line
      · refine iff_of_true ?_ (Or.inl hstop)
        rw [(binaryAt_searchSlice hquiet).mpr hstop]
        simp
      · rw [or_iff_right hstop]
        have hgo : ∀ line ∈ linesOf 10 contents, ¬ StopsAtLine config S line := by
          intro line hline hstops
          exact hstop ⟨line, hline, hstops⟩
        rw [if_pos ⟨rfl, Bool.eq_false_iff.mpr (mt (binaryAt_searchSlice hquiet).mp hstop)⟩,
          List.map_eq_nil_iff, reported_searchSlice,
          if_neg (mt Option.isSome_iff_ne_none.mp hquiet), linesBeforeStop_eq hgo,
          selectedLines_eq_nil_iff]

/-- A file that is large enough is found to have the same matches as by the serial search exactly
where no NUL byte tells its chunks from it, and, if JSON output and the count are asked for
together, where there are no matches. -/
theorem searchFile_iff :
    SameMatches (searchFile config S isMatch render availableParallelism contents)
        (searchFileSerial config S isMatch render contents) ↔
      shouldUseChunkParallelSearch config availableParallelism contents.length = false ∨
        ChunksAgree config S availableParallelism contents ∧
          (config.json = true → config.count = true → ReportsNothing config S contents) := by
  rw [searchFile]
  cases shouldUseChunkParallelSearch config availableParallelism contents.length with
  | false => exact iff_of_true ⟨rfl, rfl⟩ (Or.inl rfl)
  | true =>
      rw [if_pos rfl, SameMatches, matchCount_iff, or_iff_right (by decide), and_comm]
      refine and_congr_right fun hagree => ?_
      cases hcount : config.count with
      | false => exact iff_of_true (found_eq hcount hagree) fun _ hfalse => by cases hfalse
      | true =>
          rw [found_eq_nil hcount, eq_comm, found_serial_eq_nil_iff hcount]
          exact ⟨fun h hjson _ => h hjson, fun h hjson => h hjson rfl⟩

end Agreement

/-! ## A match that a chunk drops -/

/-- JSON output with two threads, for files of any length. -/
def twoThreads : NativeSearchConfig where
  text := false
  count := false
  json := true
  ndjson := false
  quiet := false
  onlyMatching := false
  nullData := false
  mmap := true
  beforeContext := 0
  afterContext := 0
  maxCount := none
  parallelLargeFiles := true
  largeFileChunkThresholdBytes := 0
  chunkParallelismThreads := some 2

/-- The search for the letter b, which looks at the lines that it reports. -/
def letterSearcher : LineSearcher where
  selects line := decide (0x62 ∈ line)
  visits line := decide (0x62 ∈ line)
  visits_of_selects _ h := h

/-- A long line, a line with a NUL byte and a line with the letter b. -/
def nulFile (n : Nat) : Bytes :=
  (List.replicate n 0x61 ++ [10]) ++ [0, 10, 0x62, 10]

section NulFile

variable {n : Nat}

theorem length_nulFile : (nulFile n).length = n + 5 := by
  simp [nulFile]

theorem linesOf_replicate :
    linesOf 10 (List.replicate n 0x61 ++ [(10 : UInt8)]) = [List.replicate n 0x61 ++ [10]] := by
  induction n with
  | zero => rfl
  | succ n ih =>
      rw [List.replicate_succ, List.cons_append, linesOf, if_neg (by decide), ih]

theorem linesOf_nulFile :
    linesOf 10 (nulFile n) = [List.replicate n 0x61 ++ [10], [0, 10], [0x62, 10]] := by
  have hend : AtLineEnd 10 (List.replicate n 0x61 ++ [(10 : UInt8)]) :=
    Or.inr List.getLast?_concat
  rw [nulFile, linesOf_append hend, linesOf_replicate]
  rfl

/-- The first line feed comes after the long line. -/
theorem findIdx?_replicate
    (rest : Bytes) :
    (List.replicate n 0x61 ++ 10 :: rest).findIdx? (fun b => b = 10) = some n := by
  induction n with
  | zero => rfl
  | succ n ih =>
      rw [List.replicate_succ, List.cons_append, List.findIdx?_cons, if_neg (by decide), ih]
      rfl

theorem alignChunkEndToNewline_nulFile
    {minimumEnd : Nat}
    (hpos : 0 < minimumEnd)
    (hle : minimumEnd ≤ n) :
    alignChunkEndToNewline (nulFile n) minimumEnd = n + 1 := by
  have hbyte : (nulFile n)[minimumEnd - 1]? = some 0x61 := by
    rw [nulFile, List.append_assoc, List.getElem?_append_left (by rw [List.length_replicate]; omega),
      List.getElem?_replicate, if_pos (by omega)]
  have hdrop : (nulFile n).drop minimumEnd =
      List.replicate (n - minimumEnd) 0x61 ++ 10 :: [0, 10, 0x62, 10] := by
    rw [nulFile, List.append_assoc, List.drop_append_of_le_length (by rwa [List.length_replicate]),
      List.drop_replicate]
    rfl
  rw [alignChunkEndToNewline, length_nulFile, if_neg (by omega), hbyte, if_neg (by decide), hdrop,
    findIdx?_replicate]
  change minimumEnd + (n - minimumEnd) + 1 = n + 1
  omega

/-- The ranges of the file: the long line, and the rest. -/
theorem chunkRanges_nulFile
    (h : 8 ≤ n) :
    chunkRanges (nulFile n) ((n + 6) / 2) (n + 5) 0 = [(0, n + 1), (n + 1, n + 5)] := by
  have hfirst : min (0 + (n + 6) / 2) (n + 5) = (n + 6) / 2 := by omega
  have hsecond : min (n + 1 + (n + 6) / 2) (n + 5) = n + 5 := by omega
  have hlength := @length_nulFile n
  have hlong := @chunkRanges_succ (nulFile n) ((n + 6) / 2) (n + 4) 0 (n + 1) (by omega)
    (by rw [hlength, hfirst, if_neg (by omega),
      alignChunkEndToNewline_nulFile (by omega) (by omega)]) (by omega)
  have hrest := @chunkRanges_succ (nulFile n) ((n + 6) / 2) (n + 3) (n + 1) (n + 5) (by omega)
    (by rw [hlength, hsecond, if_pos (le_refl _)]) (by omega)
  have hend : chunkRanges (nulFile n) ((n + 6) / 2) (n + 3) (n + 5) = [] := by
    rw [chunkRanges, if_neg (by omega)]
  rw [hlong, hrest, hend]

theorem sliceOf_nulFile :
    sliceOf (nulFile n) (0, n + 1) = List.replicate n 0x61 ++ [10] ∧
      sliceOf (nulFile n) (n + 1, n + 5) = [0, 10, 0x62, 10] := by
  have hlength : (List.replicate n (0x61 : UInt8) ++ [10]).length = n + 1 := by simp
  constructor
  · exact List.take_left' hlength
  · rw [sliceOf, ← length_nulFile, List.take_length]
    exact List.drop_left' hlength

/-- The first chunk ends with the long line. -/
theorem chunkPlan_nulFile
    (h : 8 ≤ n) :
    chunkPlan twoThreads 1 (nulFile n) = [⟨0, n + 1, 1⟩, ⟨n + 1, n + 5, 2⟩] := by
  have hnonempty : ¬ (nulFile n = [] ∨ 2 = 0) := by
    rintro (hnil | hzero)
    · have := @length_nulFile n
      rw [hnil] at this
      cases this
    · cases hzero
  have hcount : countLines (sliceOf (nulFile n) (0, n + 1)) = 1 := by
    rw [countLines_eq, sliceOf_nulFile.1, linesOf_replicate]
    rfl
  change planFileChunks (nulFile n) 2 false = _
  rw [planFileChunks, if_neg hnonempty, length_nulFile]
  change numberChunks (nulFile n) false 1 (chunkRanges (nulFile n) ((n + 6) / 2) (n + 5) 0) = _
  rw [chunkRanges_nulFile h, numberChunks, numberChunks, numberChunks, hcount]
  rfl

/-- The long line fills the region in which a NUL byte is always detected. -/
theorem not_stopsAtOnce_nulFile
    (h : binaryDetectionPrefixBytes ≤ n) :
    ¬ StopsAtOnce twoThreads (nulFile n) := by
  refine not_not.mpr ?_
  rw [detectBinaryPrefix, if_neg (by decide), length_nulFile, Nat.min_eq_right (by omega), nulFile,
    List.append_assoc, List.take_append_of_le_length (by rwa [List.length_replicate]),
    List.take_replicate, nulOffset, List.findIdx?_eq_none_iff]
  intro b hb
  rw [(List.mem_replicate.mp hb).2]
  rfl

/-- No line of the file stops the search. -/
theorem not_stopsAtLine_nulFile
    {line : Bytes}
    (h : line ∈ linesOf 10 (nulFile n)) :
    ¬ StopsAtLine twoThreads letterSearcher line := by
  rw [linesOf_nulFile] at h
  have hnot : 0x62 ∉ List.replicate n (0x61 : UInt8) ++ [10] := by
    intro hmem
    rcases List.mem_append.mp hmem with hmem | hmem
    · cases (List.mem_replicate.mp hmem).2
    · cases List.mem_singleton.mp hmem
  refine not_not.mpr ?_
  simp only [List.mem_cons, List.not_mem_nil, or_false] at h
  rcases h with rfl | rfl | rfl
  · have hvisits : letterSearcher.visits (List.replicate n 0x61 ++ [10]) = false :=
      decide_eq_false hnot
    rw [stopsAt, hvisits]
    rfl
  · decide
  · decide

end NulFile

/-- The second chunk starts with a NUL byte, which the serial search does not look at: the match
after it is lost. -/
theorem chunk_drops_match :
    shouldUseChunkParallelSearch twoThreads 1 (nulFile 65536).length = true ∧
      ¬ ∃ isMatch render, SameMatches
        (searchFile twoThreads letterSearcher isMatch render 1 (nulFile 65536))
        (searchFileSerial twoThreads letterSearcher isMatch render (nulFile 65536)) := by
  have huse : shouldUseChunkParallelSearch twoThreads 1 (nulFile 65536).length = true := by
    rw [length_nulFile]
    decide
  refine ⟨huse, ?_⟩
  rintro ⟨isMatch, render, -, hsame⟩
  rw [searchFile, if_pos huse, matchCount_iff, ChunksAgree, chunkPlan_nulFile (by decide)] at hsame
  rcases hsame with hshort | hstop | ⟨-, hcomplete⟩ | ⟨⟨line, hline, hstop⟩, -⟩
  · exact absurd hshort (by decide)
  · exact not_stopsAtOnce_nulFile (le_refl _) hstop
  · have hnone := hcomplete ⟨65537, 65541, 2⟩ (by simp)
    have hstops : StopsAtOnce twoThreads [0, 10, 0x62, 10] := by
      rw [StopsAtOnce]
      decide
    rw [FileChunkPlan.slice, sliceOf_nulFile.2] at hnone
    exact absurd (hnone hstops [0x62, 10] (by decide)) (by decide)
  · exact not_stopsAtLine_nulFile hline hstop

end NativeSearch
end TensorGrep
