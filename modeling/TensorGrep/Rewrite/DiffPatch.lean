import Mathlib.Data.List.TakeWhile
import TensorGrep.Rewrite.UnifiedDiff

/-!
# The printed diff is a patch

The loop that collects a hunk keeps the lines of both sides in step: what has been
collected for a file is a stretch of it, and both lists have the same lines of
context, so that putting them together neither stops nor loses a line.  Between two
hunks there are at least as many equal lines as the context asks for, so that the
next hunk begins behind the last one and with the same lines on both sides.
-/

namespace TensorGrep
namespace Rewrite

open Kernel

/-! ## Patches -/

/-- The lines of a hunk that are in the old file. -/
def Hunk.oldLines (hunk : Hunk) : List Text :=
  (hunk.lines.filter fun line => line.1 ≠ .addition).map Prod.snd

/-- The lines of a hunk that are in the new file. -/
def Hunk.newLines (hunk : Hunk) : List Text :=
  (hunk.lines.filter fun line => line.1 ≠ .deletion).map Prod.snd

/-- The block of the old file that a hunk replaces, and the lines that it puts there. -/
def Hunk.piece (hunk : Hunk) : Piece Text where
  start := hunk.oldStart - 1
  stop := hunk.oldStart - 1 + hunk.oldLines.length
  text := hunk.newLines

/-- The tag of a line in the inverse patch. -/
def LineTag.inverse : LineTag → LineTag
  | .context => .context
  | .deletion => .addition
  | .addition => .deletion

/-- A hunk of the inverse patch. -/
def Hunk.inverse (hunk : Hunk) : Hunk where
  oldStart := hunk.newStart
  oldCount := hunk.newCount
  newStart := hunk.oldStart
  newCount := hunk.oldCount
  lines := hunk.lines.map fun line => (line.1.inverse, line.2)

/-- The hunks stand in order and apart in the old file, each where its header says and with as many
lines, and replacing their blocks gives the new file. -/
structure IsPatch
    (old new : List Text)
    (hunks : List Hunk) : Prop where
  inOrder : Chained old.length 0 (hunks.map Hunk.piece)
  numbered : ∀ hunk ∈ hunks, 1 ≤ hunk.oldStart
  counts : ∀ hunk ∈ hunks, hunk.oldCount = hunk.oldLines.length
  blocks : ∀ hunk ∈ hunks,
    (old.drop (hunk.oldStart - 1)).take hunk.oldLines.length = hunk.oldLines
  result : spliced old (hunks.map Hunk.piece) = new

/-! ## Stretches of lines -/

variable {old new : List Text}

theorem lineRange_add
    (lines : List Text)
    (i n : ℕ) :
    lineRange lines i (i + n) = (lines.drop i).take n := by
  rw [lineRange, List.drop_take, Nat.add_sub_cancel_left]

@[simp] theorem lineRange_self
    (lines : List Text)
    (i : ℕ) :
    lineRange lines i i = [] :=
  List.drop_eq_nil_of_le (List.length_take_le _ _)

theorem drop_lineRange
    (lines : List Text)
    (a b m : ℕ) :
    (lineRange lines a b).drop m = lineRange lines (a + m) b :=
  List.drop_drop

theorem lineRange_append
    (lines : List Text)
    {a b c : ℕ}
    (hab : a ≤ b)
    (hbc : b ≤ c) :
    lineRange lines a b ++ lineRange lines b c = lineRange lines a c := by
  obtain ⟨m, rfl⟩ := Nat.exists_eq_add_of_le hab
  obtain ⟨n, rfl⟩ := Nat.exists_eq_add_of_le hbc
  rw [lineRange_add, lineRange_add, Nat.add_assoc, lineRange_add, ← List.drop_drop, ← List.take_add]

theorem lineRange_append_drop
    (lines : List Text)
    {a b : ℕ}
    (hab : a ≤ b) :
    lineRange lines a b ++ lines.drop b = lines.drop a := by
  obtain ⟨m, rfl⟩ := Nat.exists_eq_add_of_le hab
  rw [lineRange_add, ← List.drop_drop, List.take_append_drop]

theorem lineRange_succ
    {lines : List Text}
    {i : ℕ}
    {line : Text}
    (h : lines[i]? = some line) :
    lineRange lines i (i + 1) = [line] := by
  obtain ⟨hi, rfl⟩ := List.getElem?_eq_some_iff.mp h
  rw [lineRange_add, List.drop_eq_getElem_cons hi]
  rfl

theorem length_lineRange
    {lines : List Text}
    {a b : ℕ}
    (hb : b ≤ lines.length) :
    (lineRange lines a b).length = b - a := by
  rw [lineRange, List.length_drop, List.length_take, Nat.min_eq_left hb]

/-- A run of equal lines, as far as it goes. -/
theorem commonRun_spec
    (old new : List Text) :
    old.take (commonRun old new) = new.take (commonRun old new) ∧
      commonRun old new ≤ old.length ∧ commonRun old new ≤ new.length := by
  induction old generalizing new with
  | nil => simp [commonRun]
  | cons line old ih =>
      cases new with
      | nil => simp [commonRun]
      | cons line' new =>
          rw [commonRun]
          split
          case isTrue heq =>
              obtain ⟨htake, hold, hnew⟩ := ih new
              subst heq
              rw [List.take_succ_cons, List.take_succ_cons, htake]
              exact ⟨rfl, Nat.succ_le_succ hold, Nat.succ_le_succ hnew⟩
          case isFalse => simp

/-! ## Collecting a hunk -/

/-- The lines of context in a list. -/
def contextTexts (lines : List TaggedLine) : List Text :=
  (lines.filter fun line => line.1 = .context).map Prod.snd

@[simp] theorem map_snd_contextLines (lines : List Text) :
    (contextLines lines).map Prod.snd = lines := by
  simp [contextLines]

@[simp] theorem contextTexts_contextLines (lines : List Text) :
    contextTexts (contextLines lines) = lines := by
  induction lines with
  | nil => rfl
  | cons line lines ih => simpa [contextTexts, contextLines] using ih

@[simp] theorem contextTexts_append (lines lines' : List TaggedLine) :
    contextTexts (lines ++ lines') = contextTexts lines ++ contextTexts lines' := by
  simp [contextTexts]

/-- What has been collected for a file is a stretch of it, and both sides have the same context. -/
structure Collected
    (old new : List Text)
    (startI startJ : ℕ)
    (s : HunkScan) : Prop where
  start_i : startI ≤ s.i
  start_j : startJ ≤ s.j
  le_i : s.i ≤ old.length
  le_j : s.j ≤ new.length
  old_lines : s.hunkOld.map Prod.snd = lineRange old startI s.i
  new_lines : s.hunkNew.map Prod.snd = lineRange new startJ s.j
  old_tags : ∀ line ∈ s.hunkOld, line.1 ≠ .addition
  new_tags : ∀ line ∈ s.hunkNew, line.1 ≠ .deletion
  context : contextTexts s.hunkOld = contextTexts s.hunkNew

theorem Collected.deleteLine
    {startI startJ : ℕ}
    {s : HunkScan}
    (h : Collected old new startI startJ s) :
    Collected old new startI startJ (deleteLine old new s) := by
  rcases deleteLine_cases old new s with heq | ⟨line, hline, heq⟩
  · rwa [heq]
  · rw [heq]
    exact {
      start_i := h.start_i.trans (Nat.le_succ _)
      start_j := h.start_j
      le_i := (List.getElem?_eq_some_iff.mp hline).1
      le_j := h.le_j
      old_lines := by
        rw [List.map_append, h.old_lines, ← lineRange_append old h.start_i (Nat.le_succ s.i),
          lineRange_succ hline]
        rfl
      new_lines := h.new_lines
      old_tags := by
        simp only [List.mem_append, List.mem_singleton]
        rintro _ (hmem | rfl)
        · exact h.old_tags _ hmem
        · exact LineTag.noConfusion
      new_tags := h.new_tags
      context := by
        rw [contextTexts_append, h.context]
        simp [contextTexts] }

theorem Collected.addLine
    {startI startJ : ℕ}
    {s : HunkScan}
    (h : Collected old new startI startJ s) :
    Collected old new startI startJ (addLine old new s) := by
  rcases addLine_cases old new s with heq | ⟨line, hline, heq⟩
  · rwa [heq]
  · rw [heq]
    exact {
      start_i := h.start_i
      start_j := h.start_j.trans (Nat.le_succ _)
      le_i := h.le_i
      le_j := (List.getElem?_eq_some_iff.mp hline).1
      old_lines := h.old_lines
      new_lines := by
        rw [List.map_append, h.new_lines, ← lineRange_append new h.start_j (Nat.le_succ s.j),
          lineRange_succ hline]
        rfl
      old_tags := h.old_tags
      new_tags := by
        simp only [List.mem_append, List.mem_singleton]
        rintro _ (hmem | rfl)
        · exact h.new_tags _ hmem
        · exact LineTag.noConfusion
      context := by
        rw [contextTexts_append, h.context]
        simp [contextTexts] }

/-- Equal lines are collected on both sides. -/
theorem Collected.common
    {startI startJ n : ℕ}
    {s : HunkScan}
    (h : Collected old new startI startJ s)
    (hi : s.i + n ≤ old.length)
    (hj : s.j + n ≤ new.length)
    (heq : lineRange old s.i (s.i + n) = lineRange new s.j (s.j + n)) :
    Collected old new startI startJ
      { i := s.i + n
        j := s.j + n
        hunkOld := s.hunkOld ++ contextLines (lineRange old s.i (s.i + n))
        hunkNew := s.hunkNew ++ contextLines (lineRange new s.j (s.j + n)) } where
  start_i := h.start_i.trans (Nat.le_add_right _ _)
  start_j := h.start_j.trans (Nat.le_add_right _ _)
  le_i := hi
  le_j := hj
  old_lines := by
    rw [List.map_append, h.old_lines, map_snd_contextLines,
      lineRange_append old h.start_i (Nat.le_add_right _ _)]
  new_lines := by
    rw [List.map_append, h.new_lines, map_snd_contextLines,
      lineRange_append new h.start_j (Nat.le_add_right _ _)]
  old_tags := by
    simp only [List.mem_append, contextLines, List.mem_map]
    rintro _ (hmem | ⟨line, -, rfl⟩)
    · exact h.old_tags _ hmem
    · exact LineTag.noConfusion
  new_tags := by
    simp only [List.mem_append, contextLines, List.mem_map]
    rintro _ (hmem | ⟨line, -, rfl⟩)
    · exact h.new_tags _ hmem
    · exact LineTag.noConfusion
  context := by
    rw [contextTexts_append, contextTexts_append, contextTexts_contextLines,
      contextTexts_contextLines, h.context, heq]

/-- Where a hunk ends: behind it are equal lines up to the cursors, enough for the context of the
next hunk unless both files are at their ends. -/
structure HunkEnd
    (old new : List Text)
    (context startI startJ : ℕ)
    (s : HunkScan)
    (n : ℕ) : Prop where
  collected : ∃ i j, s.i = i + n ∧ s.j = j + n ∧
    Collected old new startI startJ { s with i := i, j := j } ∧
      lineRange old i s.i = lineRange new j s.j
  le_i : s.i ≤ old.length
  le_j : s.j ≤ new.length
  enough : context ≤ n ∨ old.length ≤ s.i ∧ new.length ≤ s.j

/-- A run of equal lines at the cursors. -/
theorem lineRange_run
    {i j n : ℕ}
    (hn : n ≤ commonRun (old.drop i) (new.drop j)) :
    lineRange old i (i + n) = lineRange new j (j + n) := by
  have hrun := congrArg (List.take n) (commonRun_spec (old.drop i) (new.drop j)).1
  rw [List.take_take, List.take_take, Nat.min_eq_left hn] at hrun
  rw [lineRange_add, lineRange_add, hrun]

theorem run_le
    {i j : ℕ}
    (hi : i ≤ old.length)
    (hj : j ≤ new.length) :
    i + commonRun (old.drop i) (new.drop j) ≤ old.length ∧
      j + commonRun (old.drop i) (new.drop j) ≤ new.length := by
  obtain ⟨-, hold, hnew⟩ := commonRun_spec (old.drop i) (new.drop j)
  rw [List.length_drop] at hold hnew
  omega

/-- The loop collects a hunk. -/
theorem hunkEnd_collectHunk
    {context startI startJ : ℕ}
    {s : HunkScan}
    (h : Collected old new startI startJ s) :
    ∃ n, HunkEnd old new context startI startJ (collectHunk old new context s) n := by
  induction s using collectHunk.induct old new context with
  | case1 s hlines hsame trailing hbreak =>
      obtain ⟨hi, hj⟩ := run_le h.le_i h.le_j
      rw [collectHunk, dif_pos hlines, dif_pos hsame]
      dsimp only
      rw [if_pos hbreak]
      have hcollected := h.common (n := min trailing context) (by omega) (by omega)
        (lineRange_run (Nat.min_le_left _ _))
      have hrest : lineRange old (s.i + min trailing context) (s.i + trailing) =
          lineRange new (s.j + min trailing context) (s.j + trailing) := by
        rw [← drop_lineRange, ← drop_lineRange, lineRange_run (le_refl trailing)]
      refine ⟨trailing - min trailing context, ⟨_, _, ?_, ?_, hcollected, hrest⟩, hi, hj, ?_⟩
      · dsimp only
        omega
      · dsimp only
        omega
      · dsimp only
        omega
  | case2 s hlines hsame trailing hgo ih =>
      obtain ⟨hi, hj⟩ := run_le h.le_i h.le_j
      rw [collectHunk, dif_pos hlines, dif_pos hsame]
      dsimp only
      rw [if_neg hgo]
      exact ih (h.common hi hj (lineRange_run (le_refl _)))
  | case3 s hlines hdiffer ih =>
      rw [collectHunk, dif_pos hlines, dif_neg hdiffer]
      exact ih h.deleteLine.addLine
  | case4 s hlines =>
      rw [collectHunk, dif_neg hlines]
      exact ⟨0, ⟨s.i, s.j, rfl, rfl, h, by rw [lineRange_self, lineRange_self]⟩, h.le_i, h.le_j,
        Or.inr (by omega)⟩

/-! ## Putting a hunk together -/

theorem leading_append_drop
    (tag : LineTag)
    (lines : List TaggedLine) :
    leading tag lines ++ lines.drop (leading tag lines).length = lines :=
  List.prefix_iff_eq_append.mp (List.takeWhile_prefix _)

theorem tag_of_mem_leading
    {tag : LineTag}
    {lines : List TaggedLine}
    {line : TaggedLine}
    (h : line ∈ leading tag lines) :
    line.1 = tag := by
  have htag := List.mem_takeWhile_imp h
  exact of_decide_eq_true htag

/-- Lines with another tag are dropped by a filter that drops that tag only. -/
theorem filter_leading_of_ne
    {tag other : LineTag}
    (hne : tag ≠ other)
    (lines : List TaggedLine) :
    (leading tag lines).filter (fun line => line.1 ≠ other) = leading tag lines :=
  List.filter_eq_self.mpr fun _ hline => decide_eq_true (tag_of_mem_leading hline ▸ hne)

theorem filter_leading_self
    (tag : LineTag)
    (lines : List TaggedLine) :
    (leading tag lines).filter (fun line => line.1 ≠ tag) = [] := by
  refine List.filter_eq_nil_iff.mpr fun line hline => ?_
  simp [tag_of_mem_leading hline]

/-- There is no context before the rest of a list. -/
theorem contextTexts_drop_leading
    {tag : LineTag}
    (hne : tag ≠ .context)
    (lines : List TaggedLine) :
    contextTexts (lines.drop (leading tag lines).length) = contextTexts lines := by
  have hnone : contextTexts (leading tag lines) = [] := by
    rw [contextTexts, List.map_eq_nil_iff]
    refine List.filter_eq_nil_iff.mpr fun line hline => ?_
    simp [tag_of_mem_leading hline, hne]
  conv_rhs => rw [← leading_append_drop tag lines, contextTexts_append, hnone, List.nil_append]

/-- A list with nothing to flush is empty or begins with a line of context. -/
theorem begins_with_context
    {tag : LineTag}
    {lines : List TaggedLine}
    (htags : ∀ line ∈ lines, line.1 = .context ∨ line.1 = tag)
    (h : leading tag lines = []) :
    lines = [] ∨ ∃ text rest, lines = (.context, text) :: rest := by
  cases lines with
  | nil => exact Or.inl rfl
  | cons line rest =>
      obtain ⟨tag', text⟩ := line
      rcases htags _ List.mem_cons_self with htag | htag
      · dsimp only at htag
        subst htag
        exact Or.inr ⟨text, rest, rfl⟩
      · dsimp only at htag
        subst htag
        simp [leading] at h

/-- Lists with the same context are put together, and neither loses a line. -/
theorem exists_interleave
    {hunkOld hunkNew : List TaggedLine}
    (hold : ∀ line ∈ hunkOld, line.1 ≠ .addition)
    (hnew : ∀ line ∈ hunkNew, line.1 ≠ .deletion)
    (hcontext : contextTexts hunkOld = contextTexts hunkNew) :
    ∃ lines, interleave hunkOld hunkNew = some lines ∧
      lines.filter (fun line => line.1 ≠ .addition) = hunkOld ∧
        lines.filter (fun line => line.1 ≠ .deletion) = hunkNew := by
  induction hunkOld, hunkNew using interleave.induct with
  | case1 hunkOld hunkNew hempty =>
      obtain ⟨rfl, rfl⟩ := hempty
      rw [interleave, if_pos ⟨rfl, rfl⟩]
      exact ⟨[], rfl, rfl, rfl⟩
  | case2 hunkOld hunkNew hempty hsame ih =>
      rw [interleave, if_neg hempty, dif_pos hsame]
      obtain ⟨line, os, ns, rfl, rfl⟩ := sameContext_eq_true_iff.mp hsame
      have hrest : contextTexts os = contextTexts ns := by
        simpa [contextTexts] using hcontext
      obtain ⟨lines, hlines, rfl, rfl⟩ := ih (fun l hl => hold l (List.mem_cons_of_mem _ hl))
        (fun l hl => hnew l (List.mem_cons_of_mem _ hl)) hrest
      rw [hlines]
      exact ⟨_, rfl, rfl, rfl⟩
  | case3 hunkOld hunkNew hempty hsame hstuck =>
      -- Both lists would begin with the same line of context.
      have htags : ∀ line ∈ hunkOld, line.1 = .context ∨ line.1 = .deletion := by
        rintro ⟨tag, text⟩ hline
        have htag := hold _ hline
        cases tag <;> simp_all
      have htags' : ∀ line ∈ hunkNew, line.1 = .context ∨ line.1 = .addition := by
        rintro ⟨tag, text⟩ hline
        have htag := hnew _ hline
        cases tag <;> simp_all
      rcases begins_with_context htags hstuck.1 with rfl | ⟨text, rest, rfl⟩
      · rcases begins_with_context htags' hstuck.2 with rfl | ⟨text', rest', rfl⟩
        · exact absurd ⟨rfl, rfl⟩ hempty
        · simp [contextTexts] at hcontext
      · rcases begins_with_context htags' hstuck.2 with rfl | ⟨text', rest', rfl⟩
        · simp [contextTexts] at hcontext
        · have htext : text = text' := by
            simp only [contextTexts, List.filter_cons, decide_true, if_true, List.map_cons,
              List.cons.injEq] at hcontext
            exact hcontext.1
          exact absurd (sameContext_eq_true_iff.mpr ⟨text, rest, rest', rfl, by rw [htext]⟩) hsame
  | case4 hunkOld hunkNew hempty hsame hstuck ih =>
      rw [interleave, if_neg hempty, dif_neg hsame, dif_neg hstuck]
      have hrest : contextTexts (hunkOld.drop (leading .deletion hunkOld).length) =
          contextTexts (hunkNew.drop (leading .addition hunkNew).length) := by
        rw [contextTexts_drop_leading LineTag.noConfusion,
          contextTexts_drop_leading LineTag.noConfusion, hcontext]
      obtain ⟨lines, hlines, hlinesOld, hlinesNew⟩ :=
        ih (fun l hl => hold l (List.mem_of_mem_drop hl))
          (fun l hl => hnew l (List.mem_of_mem_drop hl)) hrest
      rw [hlines]
      refine ⟨_, rfl, ?_, ?_⟩
      · rw [List.filter_append, List.filter_append, filter_leading_of_ne LineTag.noConfusion,
          filter_leading_self, List.append_nil, hlinesOld, leading_append_drop]
      · rw [List.filter_append, List.filter_append, filter_leading_self,
          filter_leading_of_ne LineTag.noConfusion, List.nil_append, hlinesNew, leading_append_drop]

/-! ## Hunks one after another -/

/-- A hunk stands in both files where its header says, with as many lines. -/
structure Hunk.Fits
    (hunk : Hunk)
    (old new : List Text) : Prop where
  old_numbered : 1 ≤ hunk.oldStart
  new_numbered : 1 ≤ hunk.newStart
  old_count : hunk.oldCount = hunk.oldLines.length
  new_count : hunk.newCount = hunk.newLines.length
  old_lines : lineRange old (hunk.oldStart - 1) (hunk.oldStart - 1 + hunk.oldCount) = hunk.oldLines
  new_lines : lineRange new (hunk.newStart - 1) (hunk.newStart - 1 + hunk.newCount) = hunk.newLines

/-- From places in both files on, the files are equal up to the first hunk, between the hunks and
behind the last one. -/
def Patches
    (old new : List Text) : ℕ → ℕ → List Hunk → Prop
  | p, q, [] => p ≤ old.length ∧ q ≤ new.length ∧ old.drop p = new.drop q
  | p, q, hunk :: hunks =>
      p ≤ hunk.oldStart - 1 ∧ q ≤ hunk.newStart - 1 ∧
        lineRange old p (hunk.oldStart - 1) = lineRange new q (hunk.newStart - 1) ∧
          hunk.Fits old new ∧
            Patches old new (hunk.oldStart - 1 + hunk.oldCount) (hunk.newStart - 1 + hunk.newCount)
              hunks

/-- The equal lines behind a hunk, up to the cursors of the outer loop. -/
structure Gap
    (old new : List Text)
    (context p q i j n : ℕ) : Prop where
  i_eq : i = p + n
  j_eq : j = q + n
  le_i : i ≤ old.length
  le_j : j ≤ new.length
  lines : lineRange old p i = lineRange new q j
  enough : context ≤ n ∨ p = 0 ∧ q = 0 ∨ old.length ≤ i ∧ new.length ≤ j

/-- A line that is the same on both sides makes the gap longer. -/
theorem Gap.next
    {context p q i j n : ℕ}
    (h : Gap old new context p q i j n)
    (hsame : sameLine old new i j = true) :
    Gap old new context p q (i + 1) (j + 1) (n + 1) := by
  obtain ⟨line, hold, hnew⟩ := sameLine_eq_true_iff.mp hsame
  have hi := (List.getElem?_eq_some_iff.mp hold).1
  have hj := (List.getElem?_eq_some_iff.mp hnew).1
  have hpi := h.i_eq
  have hqj := h.j_eq
  have henough := h.enough
  refine ⟨by omega, by omega, hi, hj, ?_, by omega⟩
  rw [← lineRange_append old (show p ≤ i by omega) (Nat.le_succ i),
    ← lineRange_append new (show q ≤ j by omega) (Nat.le_succ j), h.lines, lineRange_succ hold,
    lineRange_succ hnew]

/-- The next hunk begins behind the last one, with the same lines on both sides. -/
theorem Gap.begin
    {context p q i j n : ℕ}
    (h : Gap old new context p q i j n)
    (hlines : i < old.length ∨ j < new.length) :
    p ≤ i - context ∧ q ≤ j - context ∧
      lineRange old p (i - context) = lineRange new q (j - context) ∧
        lineRange old (i - context) i = lineRange new (j - context) j := by
  have hpi := h.i_eq
  have hqj := h.j_eq
  have hle_i := h.le_i
  have hle_j := h.le_j
  have henough := h.enough
  have hi : i - context = p + (n - context) := by omega
  have hj : j - context = q + (n - context) := by omega
  have happend : lineRange old p (i - context) ++ lineRange old (i - context) i =
      lineRange new q (j - context) ++ lineRange new (j - context) j := by
    rw [lineRange_append old (by omega) (Nat.sub_le _ _),
      lineRange_append new (by omega) (Nat.sub_le _ _), h.lines]
  have hlength : (lineRange old p (i - context)).length =
      (lineRange new q (j - context)).length := by
    rw [length_lineRange (by omega), length_lineRange (by omega)]
    omega
  obtain ⟨hbefore, hcontext⟩ := List.append_inj happend hlength
  exact ⟨by omega, by omega, hbefore, hcontext⟩

/-- What is collected when a hunk begins. -/
theorem collected_beginHunk
    {context i j : ℕ}
    (hi : i ≤ old.length)
    (hj : j ≤ new.length)
    (hcontext : lineRange old (i - context) i = lineRange new (j - context) j) :
    Collected old new (i - context) (j - context) (beginHunk old new context i j) where
  start_i := Nat.sub_le _ _
  start_j := Nat.sub_le _ _
  le_i := hi
  le_j := hj
  old_lines := map_snd_contextLines _
  new_lines := map_snd_contextLines _
  old_tags := by
    simp only [beginHunk, contextLines, List.mem_map]
    rintro _ ⟨line, -, rfl⟩
    exact LineTag.noConfusion
  new_tags := by
    simp only [beginHunk, contextLines, List.mem_map]
    rintro _ ⟨line, -, rfl⟩
    exact LineTag.noConfusion
  context := by
    rw [beginHunk, contextTexts_contextLines, contextTexts_contextLines, hcontext]

/-- The outer loop ends, and its hunks make one file of the other. -/
theorem exists_emitFrom
    {context p q i j n : ℕ}
    (h : Gap old new context p q i j n) :
    ∃ hunks, emitFrom old new context i j = some hunks ∧ Patches old new p q hunks := by
  induction i, j using emitFrom.induct old new context generalizing p q n with
  | case1 i j hlines hsame ih =>
      rw [emitFrom, dif_pos hlines, dif_pos hsame]
      exact ih (h.next hsame)
  | case2 i j hlines hsame s =>
      rename_i ih
      obtain ⟨hp, hq, hbefore, hcontext⟩ := h.begin hlines
      obtain ⟨m, hend⟩ := hunkEnd_collectHunk
        (@collected_beginHunk old new context i j h.le_i h.le_j hcontext)
      obtain ⟨endI, endJ, hi, hj, hcollected, hgap⟩ := hend.collected
      obtain ⟨lines, hlines', hold, hnew⟩ :=
        exists_interleave hcollected.old_tags hcollected.new_tags hcollected.context
      have henough : context ≤ m ∨ endI = 0 ∧ endJ = 0 ∨
          old.length ≤ s.i ∧ new.length ≤ s.j := by
        rcases hend.enough with henough | henough
        · exact Or.inl henough
        · exact Or.inr (Or.inr henough)
      obtain ⟨hunks, hhunks, hpatches⟩ :=
        ih (p := endI) (q := endJ) (n := m) ⟨hi, hj, hend.le_i, hend.le_j, hgap, henough⟩
      have hold_lines : s.hunkOld.map Prod.snd = lineRange old (i - context) endI :=
        hcollected.old_lines
      have hnew_lines : s.hunkNew.map Prod.snd = lineRange new (j - context) endJ :=
        hcollected.new_lines
      have hold_stop : i - context + s.hunkOld.length = endI := by
        rw [← List.length_map Prod.snd, hold_lines, length_lineRange hcollected.le_i]
        exact Nat.add_sub_cancel' hcollected.start_i
      have hnew_stop : j - context + s.hunkNew.length = endJ := by
        rw [← List.length_map Prod.snd, hnew_lines, length_lineRange hcollected.le_j]
        exact Nat.add_sub_cancel' hcollected.start_j
      have hemit : emitFrom old new context i j =
          some ({ oldStart := i - context + 1
                  oldCount := s.hunkOld.length
                  newStart := j - context + 1
                  newCount := s.hunkNew.length
                  lines := lines } :: hunks) := by
        rw [emitFrom, dif_pos hlines, dif_neg hsame]
        change (interleave s.hunkOld s.hunkNew).bind _ = _
        rw [show interleave s.hunkOld s.hunkNew = some lines from hlines', Option.bind_some]
        change (emitFrom old new context s.i s.j).map _ = _
        rw [hhunks, Option.map_some]
      refine ⟨_, hemit, hp, hq, hbefore, ?_, ?_⟩
      · constructor
        · exact Nat.succ_pos _
        · exact Nat.succ_pos _
        · rw [Hunk.oldLines, hold, List.length_map]
        · rw [Hunk.newLines, hnew, List.length_map]
        · rw [Hunk.oldLines, hold]
          dsimp only
          rw [Nat.add_sub_cancel, hold_stop, hold_lines]
        · rw [Hunk.newLines, hnew]
          dsimp only
          rw [Nat.add_sub_cancel, hnew_stop, hnew_lines]
      · dsimp only
        rwa [Nat.add_sub_cancel, Nat.add_sub_cancel, hold_stop, hnew_stop]
  | case3 i j hlines =>
      rw [emitFrom, dif_neg hlines]
      have hpi := h.i_eq
      have hqj := h.j_eq
      have hle_i := h.le_i
      have hle_j := h.le_j
      refine ⟨[], rfl, by omega, by omega, ?_⟩
      rw [← lineRange_append_drop old (show p ≤ i by omega),
        ← lineRange_append_drop new (show q ≤ j by omega), h.lines,
        List.drop_eq_nil_of_le (by omega), List.drop_eq_nil_of_le (by omega)]

/-! ## The hunks are a patch -/

theorem chained_of_patches
    {p q : ℕ}
    {hunks : List Hunk}
    (h : Patches old new p q hunks) :
    Chained old.length p (hunks.map Hunk.piece) := by
  induction hunks generalizing p q with
  | nil => exact h.1
  | cons hunk hunks ih =>
      obtain ⟨hp, -, -, hfits, hrest⟩ := h
      rw [hfits.old_count] at hrest
      exact ⟨hp, Nat.le_add_right _ _, ih hrest⟩

/-- Replacing the blocks gives the rest of the new file. -/
theorem spliceFrom_of_patches
    {p q : ℕ}
    {hunks : List Hunk}
    (h : Patches old new p q hunks) :
    spliceFrom old p (hunks.map Hunk.piece) = new.drop q := by
  induction hunks generalizing p q with
  | nil => exact h.2.2
  | cons hunk hunks ih =>
      obtain ⟨-, hq, hbefore, hfits, hrest⟩ := h
      have hold := hfits.old_count
      rw [hold] at hrest
      rw [List.map_cons, spliceFrom]
      dsimp only [Hunk.piece]
      rw [ih hrest, ← hfits.new_lines, List.append_assoc,
        lineRange_append_drop new (Nat.le_add_right _ _)]
      exact (congrArg (· ++ _) hbefore).trans (lineRange_append_drop new hq)

theorem fits_of_patches
    {p q : ℕ}
    {hunks : List Hunk}
    (h : Patches old new p q hunks) :
    ∀ hunk ∈ hunks, hunk.Fits old new := by
  induction hunks generalizing p q with
  | nil =>
      intro hunk hmem
      cases hmem
  | cons hunk hunks ih =>
      obtain ⟨-, -, -, hfits, hrest⟩ := h
      intro hunk' hmem
      rcases List.mem_cons.mp hmem with rfl | hmem
      · exact hfits
      · exact ih hrest hunk' hmem

theorem isPatch_of_patches
    {hunks : List Hunk}
    (h : Patches old new 0 0 hunks) :
    IsPatch old new hunks where
  inOrder := chained_of_patches h
  numbered := fun hunk hmem => (fits_of_patches h hunk hmem).old_numbered
  counts := fun hunk hmem => (fits_of_patches h hunk hmem).old_count
  blocks := by
    intro hunk hmem
    have hfits := fits_of_patches h hunk hmem
    rw [← lineRange_add, ← hfits.old_count, hfits.old_lines]
  result := by
    rw [← spliceFrom_eq_spliced (chained_of_patches h), spliceFrom_of_patches h, List.drop_zero]

@[simp] theorem oldLines_inverse (hunk : Hunk) :
    hunk.inverse.oldLines = hunk.newLines := by
  rw [Hunk.oldLines, Hunk.inverse, Hunk.newLines, List.filter_map, List.map_map]
  refine congrArg (List.map Prod.snd) (List.filter_congr ?_)
  rintro ⟨tag, text⟩ -
  cases tag <;> rfl

@[simp] theorem newLines_inverse (hunk : Hunk) :
    hunk.inverse.newLines = hunk.oldLines := by
  rw [Hunk.newLines, Hunk.inverse, Hunk.oldLines, List.filter_map, List.map_map]
  refine congrArg (List.map Prod.snd) (List.filter_congr ?_)
  rintro ⟨tag, text⟩ -
  cases tag <;> rfl

/-- The inverse hunks lead back. -/
theorem patches_inverse
    {p q : ℕ}
    {hunks : List Hunk}
    (h : Patches old new p q hunks) :
    Patches new old q p (hunks.map Hunk.inverse) := by
  induction hunks generalizing p q with
  | nil => exact ⟨h.2.1, h.1, h.2.2.symm⟩
  | cons hunk hunks ih =>
      obtain ⟨hp, hq, hbefore, hfits, hrest⟩ := h
      refine ⟨hq, hp, hbefore.symm, ?_, ih hrest⟩
      exact {
        old_numbered := hfits.new_numbered
        new_numbered := hfits.old_numbered
        old_count := by rw [oldLines_inverse]; exact hfits.new_count
        new_count := by rw [newLines_inverse]; exact hfits.old_count
        old_lines := by rw [oldLines_inverse]; exact hfits.new_lines
        new_lines := by rw [newLines_inverse]; exact hfits.old_lines }

theorem exists_hunks
    (old new : List Text)
    (context : ℕ) :
    ∃ hunks, emitUnifiedHunks old new context = some hunks ∧ Patches old new 0 0 hunks :=
  exists_emitFrom (n := 0)
    ⟨rfl, rfl, Nat.zero_le _, Nat.zero_le _, by simp, Or.inr (Or.inl ⟨rfl, rfl⟩)⟩

/-- For any two lists of lines and any context the hunks are a patch from the one to the other, and
their inverses one back. -/
theorem unified_hunks_are_a_patch
    (old new : List Text)
    (context : ℕ) :
    ∃ hunks, emitUnifiedHunks old new context = some hunks ∧
      IsPatch old new hunks ∧ IsPatch new old (hunks.map Hunk.inverse) := by
  obtain ⟨hunks, hhunks, hpatches⟩ := exists_hunks old new context
  exact ⟨hunks, hhunks, isPatch_of_patches hpatches,
    isPatch_of_patches (patches_inverse hpatches)⟩

end Rewrite
end TensorGrep
