import TensorGrep.NativeSearch.Chunks

/-!
# Line scans of the CPU backend

The backend scans the lines of a file for a fixed string or a regex, in one pass
or, for a large file, in line-aligned chunks whose results are put together in
order; and it counts matching lines with a separately written split of the file.

`Tiles` says what the plan of the chunks is for.  `pickLines` over the lines of the
file is what every one of the scans computes.
-/

namespace TensorGrep
namespace CpuBackend

open Kernel
open NativeSearch (sliceOf stripNativeLineTerminator linesOf_sliceOf alignChunkEndToNewline_spec)

/-! ## Chunks -/

/-- `LineAlignedChunk` -/
structure LineAlignedChunk where
  start : ℕ
  stop : ℕ
  firstLine : ℕ
deriving DecidableEq

/-- `align_chunk_end_to_newline`, which is the same as in the native search. -/
def alignChunkEndToNewline
    (contents : Bytes)
    (tentativeEnd : ℕ) : ℕ :=
  NativeSearch.alignChunkEndToNewline contents tentativeEnd

/-- `count_newlines` -/
def countNewlines (contents : Bytes) : ℕ :=
  contents.count 10

/-- The bytes of a chunk. -/
def LineAlignedChunk.slice
    (chunk : LineAlignedChunk)
    (contents : Bytes) : Bytes :=
  sliceOf contents (chunk.start, chunk.stop)

/-- The loop of `plan_line_aligned_chunks`. -/
def chunkLoop
    (contents : Bytes)
    (targetChunkSize start firstLine : ℕ) : List LineAlignedChunk :=
  if start < contents.length then
    let stop := alignChunkEndToNewline contents (min (start + targetChunkSize) contents.length)
    if stop ≤ start then []
    else
      ⟨start, stop, firstLine⟩ ::
        chunkLoop contents targetChunkSize stop
          (firstLine + countNewlines (sliceOf contents (start, stop)))
  else []
termination_by contents.length - start

/-- `plan_line_aligned_chunks` -/
def planLineAlignedChunks
    (contents : Bytes)
    (requestedChunks : ℕ) : List LineAlignedChunk :=
  if contents = [] ∨ requestedChunks ≤ 1 then []
  else chunkLoop contents ((contents.length + requestedChunks - 1) / requestedChunks) 0 1

/-! ## Scans -/

/-- `memchr_iter` -/
def memchrIter
    (needle : UInt8)
    (offset : ℕ) : Bytes → List ℕ
  | [] => []
  | b :: rest =>
      if b = needle then offset :: memchrIter needle (offset + 1) rest
      else memchrIter needle (offset + 1) rest

section Scan

variable (shouldInclude : Bytes → Bool)

/-- A line that is pushed to the results or not. -/
def pick
    (lineNum : ℕ)
    (line : Bytes) : List (ℕ × Bytes) :=
  if shouldInclude line then [(lineNum, line)] else []

/-- The loop over the line feeds, and the line after the last one. -/
def scanLoop (contents : Bytes) : ℕ → ℕ → List ℕ → List (ℕ × Bytes)
  | start, lineNum, [] =>
      if start < contents.length then pick shouldInclude lineNum (contents.drop start) else []
  | start, lineNum, i :: rest =>
      pick shouldInclude lineNum (sliceOf contents (start, i)) ++
        scanLoop contents (i + 1) (lineNum + 1) rest

end Scan

/-- `should_include` -/
def included
    (isMatch : Bytes → Bool)
    (invertMatch : Bool)
    (line : Bytes) : Bool :=
  if invertMatch then !isMatch line else isMatch line

/-- `scan_lines_memmem` and `scan_lines_regex`, before the bytes of a line are decoded. -/
def scanLines
    (isMatch : Bytes → Bool)
    (invertMatch : Bool)
    (firstLineNumber : ℕ)
    (contents : Bytes) : List (ℕ × Bytes) :=
  scanLoop (included isMatch invertMatch) contents 0 firstLineNumber (memchrIter 10 0 contents)

/-- `CpuMatch` -/
structure CpuMatch (File : Type) where
  file : File
  line : ℕ
  text : Bytes

/-- A match of a line. -/
def toCpuMatch
    {File : Type}
    (file : File)
    (found : ℕ × Bytes) : CpuMatch File :=
  ⟨file, found.1, toStringLossy found.2⟩

/-- `LARGE_FILE_PARALLEL_THRESHOLD_BYTES` -/
def largeFileParallelThresholdBytes : ℕ :=
  50 * 1024 * 1024

/-- `search_contents_memmem_maybe_parallel` and `search_contents_regex_maybe_parallel`, for a
number of cores. -/
def searchContentsMaybeParallel
    {File : Type}
    (file : File)
    (cores : ℕ)
    (isMatch : Bytes → Bool)
    (invertMatch : Bool)
    (contents : Bytes) : List (CpuMatch File) :=
  let chunks := planLineAlignedChunks contents cores
  if largeFileParallelThresholdBytes ≤ contents.length ∧ 1 < chunks.length then
    chunks.flatMap fun chunk =>
      (scanLines isMatch invertMatch chunk.firstLine (chunk.slice contents)).map (toCpuMatch file)
  else (scanLines isMatch invertMatch 1 contents).map (toCpuMatch file)

/-- `count_file_memmem` and `count_file_regex` -/
def countFile
    (isMatch : Bytes → Bool)
    (invertMatch : Bool)
    (contents : Bytes) : ℕ :=
  if contents = [] then 0
  else
    let content := if contents.getLast? = some 10 then contents.dropLast else contents
    ((content.splitOn 10).filter (included isMatch invertMatch)).length

/-! ## Both modes -/

/-- `memmem::find(line, pattern).is_some()` -/
def memmemFinds
    (pattern line : Bytes) : Bool :=
  decide (pattern <:+: line)

/-- The third-party regex builder: a pattern and whether case is ignored give a matcher of bytes,
unless the pattern is rejected; and `regex::escape`. -/
structure ByteRegexes where
  build : Text → Bool → Option (Bytes → Bool)
  escape : Text → Text

/-- The matcher of a line that `search_with_paths` and `count_matches` both choose. -/
def lineMatcher
    (R : ByteRegexes)
    (pattern : Text)
    (ignoreCase fixedStrings : Bool) : Option (Bytes → Bool) :=
  if fixedStrings && !ignoreCase then some (memmemFinds (utf8 pattern))
  else if fixedStrings then R.build (R.escape pattern) ignoreCase
  else R.build pattern ignoreCase

/-- `search_with_paths` of one file. -/
def searchWithPaths
    {File : Type}
    (R : ByteRegexes)
    (cores : ℕ)
    (pattern : Text)
    (file : File)
    (ignoreCase fixedStrings invertMatch : Bool)
    (contents : Bytes) : Option (List (CpuMatch File)) :=
  (lineMatcher R pattern ignoreCase fixedStrings).map fun isMatch =>
    searchContentsMaybeParallel file cores isMatch invertMatch contents

/-- `count_matches` of one file. -/
def countMatches
    (R : ByteRegexes)
    (pattern : Text)
    (ignoreCase fixedStrings invertMatch : Bool)
    (contents : Bytes) : Option ℕ :=
  (lineMatcher R pattern ignoreCase fixedStrings).map fun isMatch =>
    countFile isMatch invertMatch contents

/-! ## Scans as choices of lines -/

section Lines

variable {shouldInclude : Bytes → Bool} {contents : Bytes}

/-- The lines that are chosen, with their numbers and without their ends. -/
def pickLines (shouldInclude : Bytes → Bool) : ℕ → List Bytes → List (ℕ × Bytes)
  | _, [] => []
  | lineNum, line :: rest =>
      pick shouldInclude lineNum (stripNativeLineTerminator line) ++
        pickLines shouldInclude (lineNum + 1) rest

theorem pickLines_append
    (lineNum : ℕ)
    (lines lines' : List Bytes) :
    pickLines shouldInclude lineNum (lines ++ lines') =
      pickLines shouldInclude lineNum lines ++
        pickLines shouldInclude (lineNum + lines.length) lines' := by
  induction lines generalizing lineNum with
  | nil => rfl
  | cons line rest ih =>
      have hnext : lineNum + (line :: rest).length = lineNum + 1 + rest.length := by
        rw [List.length_cons]
        omega
      rw [List.cons_append, pickLines, pickLines, ih, hnext, List.append_assoc]

/-- As many lines are chosen as there are lines to choose. -/
theorem length_pickLines
    (lineNum : ℕ)
    (lines : List Bytes) :
    (pickLines shouldInclude lineNum lines).length =
      ((lines.map stripNativeLineTerminator).filter shouldInclude).length := by
  induction lines generalizing lineNum with
  | nil => rfl
  | cons line rest ih =>
      rw [pickLines, List.length_append, ih, List.map_cons, List.filter_cons, pick]
      split
      · rw [List.length_singleton, List.length_cons, Nat.add_comm]
      · rw [List.length_nil, Nat.zero_add]

theorem stripNativeLineTerminator_of_not_mem
    {line : Bytes}
    (h : 10 ∉ line) :
    stripNativeLineTerminator line = line := by
  rw [stripNativeLineTerminator, if_neg]
  exact fun hlast => h (List.mem_of_getLast? hlast)

theorem stripNativeLineTerminator_concat
    (line : Bytes) :
    stripNativeLineTerminator (line ++ [10]) = line := by
  simp [stripNativeLineTerminator]

theorem stripNativeLineTerminator_cons
    {b : UInt8}
    {line : Bytes}
    (h : line ≠ []) :
    stripNativeLineTerminator (b :: line) = b :: stripNativeLineTerminator line := by
  rw [stripNativeLineTerminator, stripNativeLineTerminator, List.getLast?_cons_of_ne_nil h,
    List.dropLast_cons_of_ne_nil h]
  split <;> rfl

/-- The loop, with `cur` read since the last line feed and `rest` before it. -/
theorem scanLoop_eq
    (pre cur rest : Bytes)
    (hcontents : contents = pre ++ cur ++ rest)
    (hcur : 10 ∉ cur)
    (lineNum : ℕ) :
    scanLoop shouldInclude contents pre.length lineNum
        (memchrIter 10 (pre.length + cur.length) rest) =
      pickLines shouldInclude lineNum (linesOf 10 (cur ++ rest)) := by
  induction rest generalizing pre cur lineNum with
  | nil =>
      rw [List.append_nil] at hcontents
      rw [memchrIter, scanLoop, List.append_nil, linesOf_of_not_mem hcur, hcontents,
        List.drop_left]
      by_cases hnil : cur = []
      · subst hnil
        rw [if_neg (by simp), if_pos rfl]
        rfl
      · have hpos := List.length_pos_iff.mpr hnil
        rw [if_pos (by rw [List.length_append]; omega), if_neg hnil, pickLines, pickLines,
          List.append_nil, stripNativeLineTerminator_of_not_mem hcur]
  | cons b rest ih =>
      rw [memchrIter]
      by_cases hb : b = 10
      · subst hb
        have hline : sliceOf contents (pre.length, pre.length + cur.length) = cur := by
          rw [sliceOf, hcontents, ← List.length_append, List.append_assoc pre cur,
            ← List.append_assoc, List.take_left, List.drop_left]
        have hlines : linesOf 10 (cur ++ 10 :: rest) = (cur ++ [10]) :: linesOf 10 rest := by
          rw [List.append_cons, linesOf_append (Or.inr (by simp)), linesOf_concat_of_not_mem hcur,
            List.singleton_append]
        have hrest := ih (pre ++ cur ++ [10]) [] (by simp [hcontents])
          List.not_mem_nil (lineNum + 1)
        simp only [List.length_append, List.length_singleton, List.length_nil, Nat.add_zero,
          List.nil_append] at hrest
        rw [if_pos rfl, scanLoop, hline, hlines, pickLines, stripNativeLineTerminator_concat, hrest]
      · have hrest := ih pre (cur ++ [b]) (by simp [hcontents])
          (by simp [hcur, Ne.symm hb]) lineNum
        rw [List.length_append, List.length_singleton, ← Nat.add_assoc] at hrest
        rw [if_neg hb, hrest, List.append_assoc, List.singleton_append]

/-- A scan chooses among the lines of the contents. -/
theorem scanLines_eq
    (isMatch : Bytes → Bool)
    (invertMatch : Bool)
    (firstLineNumber : ℕ)
    (contents : Bytes) :
    scanLines isMatch invertMatch firstLineNumber contents =
      pickLines (included isMatch invertMatch) firstLineNumber (linesOf 10 contents) :=
  scanLoop_eq [] [] contents rfl List.not_mem_nil firstLineNumber

/-- The split of the count has the lines of the contents. -/
theorem splitOn_strip_eq
    (h : contents ≠ []) :
    (stripNativeLineTerminator contents).splitOn 10 =
      (linesOf 10 contents).map stripNativeLineTerminator := by
  induction contents with
  | nil => exact absurd rfl h
  | cons b rest ih =>
      by_cases hrest : rest = []
      · subst hrest
        by_cases hb : b = 10
        · subst hb
          rfl
        · have hnot : (10 : UInt8) ∉ [b] := by simpa using Ne.symm hb
          rw [stripNativeLineTerminator_of_not_mem hnot, linesOf_of_not_mem hnot,
            if_neg (List.cons_ne_nil b []), List.map_singleton,
            stripNativeLineTerminator_of_not_mem hnot, List.splitOn_cons_eq_if_modifyHead]
          simp [hb]
      · rw [stripNativeLineTerminator_cons hrest, List.splitOn_cons_eq_if_modifyHead, ih hrest,
          linesOf]
        by_cases hb : b = 10
        · subst hb
          simp [stripNativeLineTerminator]
        · rw [if_neg hb]
          cases hlines : linesOf 10 rest with
          | nil => exact absurd (linesOf_eq_nil_iff.mp hlines) hrest
          | cons line lines =>
              have hline : line ≠ [] := ne_nil_of_mem_linesOf (hlines ▸ List.mem_cons_self)
              simp [hb, stripNativeLineTerminator_cons hline]

/-- The count is the number of lines that a scan of the contents finds. -/
theorem countFile_eq
    (isMatch : Bytes → Bool)
    (invertMatch : Bool)
    (contents : Bytes) :
    countFile isMatch invertMatch contents = (scanLines isMatch invertMatch 1 contents).length := by
  rw [scanLines_eq, length_pickLines, countFile]
  split
  case isTrue hnil => simp [hnil]
  case isFalse hne =>
      rw [← splitOn_strip_eq hne]
      rfl

end Lines

/-! ## The chunks tile the contents -/

/-- From `start` on, which is where line `line` begins, the chunks follow one another to the end of
the contents, each ending at a line feed or at the end. -/
def Tiles
    (contents : Bytes) : ℕ → ℕ → List LineAlignedChunk → Prop
  | start, _, [] => start = contents.length
  | start, line, chunk :: rest =>
      chunk.start = start ∧ chunk.firstLine = line ∧ chunk.start < chunk.stop ∧
        chunk.stop ≤ contents.length ∧
          (chunk.stop = contents.length ∨ contents[chunk.stop - 1]? = some 10) ∧
            Tiles contents chunk.stop (line + countNewlines (chunk.slice contents)) rest

section Tiling

variable {contents : Bytes}

theorem tiles_chunkLoop
    {targetChunkSize : ℕ}
    (htarget : 0 < targetChunkSize)
    (start firstLine : ℕ)
    (hstart : start ≤ contents.length) :
    Tiles contents start firstLine (chunkLoop contents targetChunkSize start firstLine) := by
  induction start, firstLine using chunkLoop.induct contents targetChunkSize with
  | case1 start firstLine hlt stop hstop =>
      -- an aligned end is past the start
      exfalso
      by_cases hshort : min (start + targetChunkSize) contents.length < contents.length
      · have hspec := @alignChunkEndToNewline_spec contents
          (min (start + targetChunkSize) contents.length) (by omega) hshort
        have hmin := hspec.1
        change min (start + targetChunkSize) contents.length ≤ stop at hmin
        omega
      · have hend : stop = contents.length := by
          change NativeSearch.alignChunkEndToNewline _ _ = _
          rw [NativeSearch.alignChunkEndToNewline, if_pos (Or.inr (by omega))]
        omega
  | case2 start firstLine hlt stop hstop ih =>
      have hspec : stop ≤ contents.length ∧
          (stop = contents.length ∨ contents[stop - 1]? = some 10) := by
        by_cases hshort : min (start + targetChunkSize) contents.length < contents.length
        · exact (@alignChunkEndToNewline_spec contents
            (min (start + targetChunkSize) contents.length) (by omega) hshort).2
        · have hend : stop = contents.length := by
            change NativeSearch.alignChunkEndToNewline _ _ = _
            rw [NativeSearch.alignChunkEndToNewline, if_pos (Or.inr (by omega))]
          exact ⟨hend.le, Or.inl hend⟩
      rw [chunkLoop, if_pos hlt]
      dsimp only
      rw [if_neg hstop]
      exact ⟨rfl, rfl, by dsimp only; omega, hspec.1, hspec.2, ih hspec.1⟩
  | case3 start firstLine hge =>
      rw [chunkLoop, if_neg hge]
      exact le_antisymm hstart (not_lt.mp hge)

/-- A plan is empty, or its chunks tile the contents. -/
theorem tiles_planLineAlignedChunks
    (contents : Bytes)
    (requestedChunks : ℕ) :
    planLineAlignedChunks contents requestedChunks = [] ∨
      Tiles contents 0 1 (planLineAlignedChunks contents requestedChunks) := by
  rw [planLineAlignedChunks]
  split
  case isTrue => exact Or.inl rfl
  case isFalse hne =>
      rw [not_or] at hne
      have hlength := List.length_pos_iff.mpr hne.1
      exact Or.inr (tiles_chunkLoop (Nat.div_pos (by omega) (by omega)) 0 1 (Nat.zero_le _))

/-- Lines are numbered on from a chunk that ends at a line feed. -/
theorem length_linesOf_slice
    {chunk : LineAlignedChunk}
    (hlt : chunk.start < chunk.stop)
    (hle : chunk.stop ≤ contents.length)
    (hcut : contents[chunk.stop - 1]? = some 10) :
    (linesOf 10 (chunk.slice contents)).length = countNewlines (chunk.slice contents) := by
  refine (length_linesOf _).1 (Or.inr ?_)
  rw [LineAlignedChunk.slice, sliceOf, List.getLast?_drop, List.length_take, if_neg (by omega),
    List.getLast?_take, if_neg (by omega), hcut]
  rfl

/-- The chunks have the lines from where they start, with their numbers. -/
theorem pickLines_of_tiles
    {shouldInclude : Bytes → Bool}
    {chunks : List LineAlignedChunk}
    {start line : ℕ}
    (h : Tiles contents start line chunks) :
    chunks.flatMap (fun chunk =>
        pickLines shouldInclude chunk.firstLine (linesOf 10 (chunk.slice contents))) =
      pickLines shouldInclude line (linesOf 10 (contents.drop start)) := by
  induction chunks generalizing start line with
  | nil =>
      rw [Tiles] at h
      rw [h, List.drop_length]
      rfl
  | cons chunk rest ih =>
      obtain ⟨rfl, rfl, hlt, hle, hcut, hrest⟩ := h
      rw [List.flatMap_cons, ih hrest, ← linesOf_sliceOf hlt hle hcut, pickLines_append]
      rcases hcut with hend | hnewline
      · rw [show contents.drop chunk.stop = [] by rw [hend, List.drop_length]]
        rfl
      · rw [← length_linesOf_slice hlt hle hnewline]
        rfl

end Tiling

/-! ## The scans agree -/

end CpuBackend
end TensorGrep
