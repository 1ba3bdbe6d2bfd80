import TensorGrep.Kernel.SlidingWindows
import TensorGrep.Kernel.SortedKeys
import TensorGrep.Result.SourceLines

/-!
# Ranking matches by chunks

A file is read in text mode and cut into chunks of lines, where `str.splitlines`
says what a line is.  A match has the number of its line between line feeds.  It
is ranked by the best score of the chunks whose range of line numbers contains
that number.
-/

namespace TensorGrep
namespace Ranking

open Kernel
open Result

/-- `MAX_CHUNKS`. -/
def maxChunks : Nat := 100000

/-- `Chunk`: a window of a file, with its first and its last line. -/
structure Chunk where
  filePath : String
  startLine : Nat
  endLine : Nat
  text : Text
deriving DecidableEq

/-- The error that a file makes too many chunks. -/
inductive ChunkError where
  | maxChunksExceeded (filePath : String)
deriving DecidableEq

section Chunker

variable (filePath : String) (lines : List Text) (chunkSize : Nat)

/-- The chunk of a window. -/
def chunkOfWindow (window : Nat × Nat) : Chunk where
  filePath := filePath
  startLine := window.1 + 1
  endLine := window.2
  text := ((lines.drop window.1).take (window.2 - window.1)).flatten

/-- How far one chunk starts behind the one before. -/
def chunkStep
    (chunkSize : Nat)
    (overlap : Int) : ℕ+ :=
  ⟨(max 1 ((chunkSize : Int) - overlap)).toNat, by omega⟩

/-- The loop of the chunker, when it has made some chunks and comes to a line. -/
def chunkLoop
    (step : ℕ+)
    (made start : Nat) : Except ChunkError (List Chunk) :=
  if start < lines.length then
    let stop := min (start + chunkSize) lines.length
    if maxChunks < made + 1 then .error (.maxChunksExceeded filePath)
    else if stop = lines.length then .ok [chunkOfWindow filePath lines (start, stop)]
    else
      (chunkLoop step (made + 1) (start + step)).map
        (chunkOfWindow filePath lines (start, stop) :: ·)
  else .ok []
termination_by lines.length - start
decreasing_by
  have hstep := step.pos
  omega

/-- `_chunk_file_line_windows`, where `contents` is the text of the file if it can be read. -/
def chunkFileLineWindows
    (contents : Option Text)
    (overlap : Int) : Except ChunkError (List Chunk) :=
  match contents with
  | none => .ok []
  | some raw =>
      chunkLoop filePath (splitlines (universalNewlines raw)) chunkSize
        (chunkStep chunkSize overlap) 0 0

end Chunker

/-! ## Scores -/

section Scores

variable {S : Type} [LinearOrder S] [Zero S]

/-- The chunks of the index that `match_score` looks at, by their places in the index. -/
def selectedChunks
    (chunks : List Chunk)
    (found : MatchLine) : List Nat :=
  (chunks.zipIdx.filter fun c =>
    c.1.filePath = found.file ∧ c.1.startLine ≤ found.lineNumber ∧
      found.lineNumber ≤ c.1.endLine).map Prod.snd

/-- `match_score`, where `chunkScores` are the scores of the query. -/
def matchScore
    (chunks : List Chunk)
    (chunkScores : Nat → Option S)
    (found : MatchLine) : S :=
  (selectedChunks chunks found).foldl (fun best i => max best ((chunkScores i).getD 0)) 0

/-- `rerank_by_bm25` of the matches. -/
def rerankByBm25
    (chunks : List Chunk)
    (chunkScores : Nat → Option S)
    (found : List MatchLine) : List MatchLine :=
  sortByKey (fun m => OrderDual.toDual (matchScore chunks chunkScores m)) found

end Scores

theorem mem_selectedChunks_iff
    {chunks : List Chunk}
    {found : MatchLine}
    {i : Nat} :
    i ∈ selectedChunks chunks found ↔
      ∃ c, chunks[i]? = some c ∧ c.filePath = found.file ∧
        c.startLine ≤ found.lineNumber ∧ found.lineNumber ≤ c.endLine := by
  simp only [selectedChunks, List.mem_map, List.mem_filter, decide_eq_true_eq]
  constructor
  · rintro ⟨⟨c, j⟩, ⟨hc, hselected⟩, rfl⟩
    exact ⟨c, List.mem_zipIdx_iff_getElem?.mp hc, hselected⟩
  · rintro ⟨c, hc, hselected⟩
    exact ⟨(c, i), ⟨List.mem_zipIdx_iff_getElem?.mpr hc, hselected⟩, rfl⟩

/-! ## The loop makes the windows -/

section Loop

variable {filePath : String} {lines : List Text} {chunkSize : Nat} {step : ℕ+}

/-- The loop makes the chunks of the windows, or fails if they are too many. -/
theorem chunkLoop_eq
    (made start : Nat) :
    chunkLoop filePath lines chunkSize step made start =
      if made + (slidingWindows chunkSize step lines.length start).length ≤ maxChunks ∨
          lines.length ≤ start then
        .ok ((slidingWindows chunkSize step lines.length start).map (chunkOfWindow filePath lines))
      else .error (.maxChunksExceeded filePath) := by
  induction start using slidingWindows.induct step lines.length generalizing made with
  | case1 start h ih =>
      rw [chunkLoop, if_pos h, slidingWindows_of_lt h, List.length_cons]
      by_cases hmany : maxChunks < made + 1
      · rw [if_pos hmany, if_neg]
        omega
      · by_cases hstop : min (start + chunkSize) lines.length = lines.length
        · simp only [if_neg hmany, if_pos hstop, List.length_nil, List.map_cons, List.map_nil]
          rw [if_pos (Or.inl (by omega))]
        · simp only [if_neg hmany, if_neg hstop, ih, List.map_cons]
          have hcount : made + 1 + (slidingWindows chunkSize step lines.length
                (start + step)).length ≤ maxChunks ∨ lines.length ≤ start + step ↔
              made + ((slidingWindows chunkSize step lines.length
                (start + step)).length + 1) ≤ maxChunks ∨ lines.length ≤ start := by
            constructor
            · rintro (hfew | hend)
              · exact Or.inl (by omega)
              · rw [slidingWindows_of_le hend, List.length_nil]
                exact Or.inl (by omega)
            · rintro (hfew | hend)
              · exact Or.inl (by omega)
              · omega
          by_cases hfew : made + 1 + (slidingWindows chunkSize step lines.length
              (start + step)).length ≤ maxChunks ∨ lines.length ≤ start + step
          · rw [if_pos hfew, if_pos (hcount.mp hfew)]
            rfl
          · rw [if_neg hfew, if_neg fun h => hfew (hcount.mpr h)]
            rfl
  | case2 start h =>
      rw [chunkLoop, if_neg h, if_pos (Or.inr (by omega)), slidingWindows_of_le (by omega)]
      rfl

end Loop

/-- The windows that a file is cut into. -/
def fileWindows
    (contents : Text)
    (chunkSize : Nat)
    (overlap : Int) : List (Nat × Nat) :=
  slidingWindows chunkSize (chunkStep chunkSize overlap)
    (splitlines (universalNewlines contents)).length 0

/-- The chunks of a file are those of its windows, if there are not too many. -/
theorem chunkFileLineWindows_eq_ok_iff
    {filePath : String}
    {chunkSize : Nat}
    {contents : Text}
    {overlap : Int}
    {chunks : List Chunk} :
    chunkFileLineWindows filePath chunkSize (some contents) overlap = .ok chunks ↔
      (fileWindows contents chunkSize overlap).length ≤ maxChunks ∧
        (fileWindows contents chunkSize overlap).map
          (chunkOfWindow filePath (splitlines (universalNewlines contents))) = chunks := by
  rw [chunkFileLineWindows, chunkLoop_eq, Nat.zero_add, ← fileWindows]
  split
  case isTrue hfew =>
      rw [Except.ok.injEq, and_iff_right]
      rcases hfew with hfew | hempty
      · exact hfew
      · rw [fileWindows, slidingWindows_of_le hempty]
        exact Nat.zero_le _
  case isFalse hmany =>
      refine iff_of_false (fun h => nomatch h) ?_
      rintro ⟨hfew, -⟩
      exact hmany (Or.inl hfew)

/-- The text of a chunk has each of its lines. -/
theorem isInfix_chunkOfWindow
    {filePath : String}
    {lines : List Text}
    {window : Nat × Nat}
    {k : Nat}
    {own : Text}
    (hstart : window.1 ≤ k)
    (hend : k < window.2)
    (hown : lines[k]? = some own) :
    own <:+: (chunkOfWindow filePath lines window).text := by
  have hmem : own ∈ (lines.drop window.1).take (window.2 - window.1) := by
    refine List.mem_of_getElem? (i := k - window.1) ?_
    rw [List.getElem?_take_of_lt (by omega), List.getElem?_drop, ← hown]
    congr 1
    omega
  obtain ⟨before, after, hsplit⟩ := List.append_of_mem hmem
  rw [chunkOfWindow, hsplit, List.flatten_append, List.flatten_cons]
  exact ⟨before.flatten, after.flatten, by rw [List.append_assoc]⟩

/-! ## Matches and chunks agree about lines -/

/-- The chunks contain the lines of the matches: whatever other files are indexed, the line of a
match lies in some chunk, and every chunk by which the match is scored has its text. -/
def ScoredByOwnLines
    (filePath : String)
    (contents : Text)
    (chunkSize : Nat)
    (overlap : Int) : Prop :=
  ∃ chunks, chunkFileLineWindows filePath chunkSize (some contents) overlap = .ok chunks ∧
    ∀ before after, (∀ c ∈ before ++ after, c.filePath ≠ filePath) →
      ∀ (found : MatchLine) (n : Nat) (line : Text), found.file = filePath → found.lineNumber = n + 1 →
        (splitSourceLines contents)[n]? = some line →
          (∃ c ∈ chunks, c.startLine ≤ found.lineNumber ∧ found.lineNumber ≤ c.endLine) ∧
            ∀ i ∈ selectedChunks (before ++ chunks ++ after) found,
              ∀ c, (before ++ chunks ++ after)[i]? = some c →
                withoutCr line <:+: withoutCr c.text

/-- A line between line feeds is part of the line that `str.splitlines` gives its number. -/
def NumberedAlike (contents : Text) : Prop :=
  ∀ (n : Nat) (line : Text), (splitSourceLines contents)[n]? = some line →
    ∃ own, (splitlines (universalNewlines contents))[n]? = some own ∧
      withoutCr line <:+: withoutCr own

/-- A chunk that is selected for a file is one of its chunks. -/
theorem mem_of_mem_selectedChunks
    {filePath : String}
    {before chunks after : List Chunk}
    (hothers : ∀ c ∈ before ++ after, c.filePath ≠ filePath)
    {found : MatchLine}
    (hfile : found.file = filePath)
    {i : Nat}
    (hi : i ∈ selectedChunks (before ++ chunks ++ after) found)
    {c : Chunk}
    (hc : (before ++ chunks ++ after)[i]? = some c) :
    c ∈ chunks ∧ c.startLine ≤ found.lineNumber ∧ found.lineNumber ≤ c.endLine := by
  obtain ⟨c', hc', hpath, hrange⟩ := mem_selectedChunks_iff.mp hi
  rw [hc] at hc'
  cases hc'
  refine ⟨?_, hrange⟩
  rw [hfile] at hpath
  rcases List.mem_append.mp (List.mem_of_getElem? hc) with hmem | hmem
  · rcases List.mem_append.mp hmem with hbefore | hmem
    · exact absurd hpath (hothers c (List.mem_append_left _ hbefore))
    · exact hmem
  · exact absurd hpath (hothers c (List.mem_append_right _ hmem))

section Agreement

variable {filePath : String} {contents : Text} {chunkSize : Nat} {overlap : Int}

theorem chunkStep_le
    (hsize : 1 ≤ chunkSize)
    (hoverlap : 0 ≤ overlap) :
    (chunkStep chunkSize overlap : Nat) ≤ chunkSize := by
  rw [chunkStep, PNat.mk_coe]
  omega

/-- Larger chunks are not closer to each other. -/
theorem chunkStep_one_le
    (hsize : 1 ≤ chunkSize) :
    (chunkStep 1 overlap : Nat) ≤ chunkStep chunkSize overlap := by
  rw [chunkStep, chunkStep, PNat.mk_coe, PNat.mk_coe]
  omega

/-- If the two splitters number the lines alike, and no line falls between two chunks, then the
chunks contain the lines of the matches. -/
theorem scoredByOwnLines_of_numberedAlike
    (hsize : 1 ≤ chunkSize)
    (hnumbers : NumberedAlike contents)
    (hoverlap : 0 ≤ overlap ∨ (splitSourceLines contents).length ≤ 1)
    (hfew : (splitlines (universalNewlines contents)).length ≤
      maxChunks * chunkStep 1 overlap) :
    ScoredByOwnLines filePath contents chunkSize overlap := by
  have hcount : (fileWindows contents chunkSize overlap).length ≤ maxChunks := by
    refine length_slidingWindows_le ?_
    rw [Nat.zero_add]
    exact hfew.trans (Nat.mul_le_mul_left _ (chunkStep_one_le hsize))
  refine ⟨_, chunkFileLineWindows_eq_ok_iff.mpr ⟨hcount, rfl⟩, ?_⟩
  intro before after hothers found n line hfile hnumber hline
  obtain ⟨own, hown, hinfix⟩ := hnumbers n line hline
  have hn : n < (splitlines (universalNewlines contents)).length :=
    (List.getElem?_eq_some_iff.mp hown).1
  rw [hnumber]
  constructor
  · have hcover : ∃ w ∈ fileWindows contents chunkSize overlap, w.1 ≤ n ∧ n < w.2 := by
      rcases hoverlap with hoverlap | hone
      · exact exists_mem_slidingWindows (chunkStep_le hsize hoverlap) (Nat.zero_le n) hn
      · have hfirst : n < (splitSourceLines contents).length :=
          (List.getElem?_eq_some_iff.mp hline).1
        refine ⟨_, head_mem_slidingWindows (by omega), Nat.zero_le n, ?_⟩
        simp only
        omega
    obtain ⟨w, hw, hstart, hend⟩ := hcover
    exact ⟨_, List.mem_map_of_mem hw, Nat.succ_le_succ hstart, hend⟩
  · intro i hi c hc
    obtain ⟨hmem, hrange⟩ := mem_of_mem_selectedChunks hothers hfile hi hc
    obtain ⟨w, -, rfl⟩ := List.mem_map.mp hmem
    rw [hnumber] at hrange
    have hstart : w.1 ≤ n := Nat.le_of_succ_le_succ hrange.1
    exact hinfix.trans (withoutCr_isInfix (isInfix_chunkOfWindow hstart hrange.2 hown))

/-- What the chunks of one line show about a line of a match. -/
theorem window_of_scoredByOwnLines_one
    (h : ScoredByOwnLines filePath contents 1 overlap)
    {n : Nat}
    {line : Text}
    (hline : (splitSourceLines contents)[n]? = some line) :
    (n, n + 1) ∈ fileWindows contents 1 overlap ∧
      ∃ own, (splitlines (universalNewlines contents))[n]? = some own ∧
        withoutCr line <:+: withoutCr own := by
  obtain ⟨chunks, hchunks, hscored⟩ := h
  obtain ⟨-, rfl⟩ := chunkFileLineWindows_eq_ok_iff.mp hchunks
  obtain ⟨⟨c, hc, hrange⟩, hselected⟩ :=
    hscored [] [] (fun _ hmem => nomatch hmem) ⟨n + 1, line, filePath⟩ n line rfl rfl hline
  rw [List.nil_append, List.append_nil] at hselected
  obtain ⟨i, hi⟩ := List.getElem?_of_mem hc
  obtain ⟨w, hw, rfl⟩ := List.mem_map.mp hc
  have hinfix := hselected i (mem_selectedChunks_iff.mpr ⟨_, hi, rfl, hrange⟩) _ hi
  -- a window of one line that contains the line is that line
  obtain ⟨-, htotal, hend, -⟩ := of_mem_slidingWindows hw
  have hstart : w.1 = n := by
    have h1 : w.1 + 1 ≤ n + 1 := hrange.1
    have h2 : n + 1 ≤ w.2 := hrange.2
    omega
  obtain ⟨a, b⟩ := w
  obtain rfl : a = n := hstart
  obtain rfl : b = a + 1 := by
    have hb : b = min (a + 1) _ := hend
    omega
  refine ⟨hw, (splitlines (universalNewlines contents))[a], List.getElem?_eq_getElem htotal, ?_⟩
  have htext : (chunkOfWindow filePath (splitlines (universalNewlines contents))
      (a, a + 1)).text = (splitlines (universalNewlines contents))[a] := by
    rw [chunkOfWindow]
    simp only [Nat.add_sub_cancel_left]
    rw [List.drop_eq_getElem_cons htotal, List.take_succ_cons, List.take_zero,
      List.flatten_singleton]
  rwa [htext] at hinfix

end Agreement

end Ranking
end TensorGrep
