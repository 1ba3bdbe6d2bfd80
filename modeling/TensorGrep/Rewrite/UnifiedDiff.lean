import TensorGrep.Kernel.Splice
import TensorGrep.Kernel.Utf8Text

/-!
# The diff of a rewrite

`emit_unified_hunks` walks over the lines of a file before and after a rewrite with
two cursors.  Where the lines differ a hunk begins, with some lines of context; it
ends at a run of equal lines that is longer than twice the context, or that goes to
the end of both files.  The lines of a hunk are collected for both sides and then
put together in one list.

The hunks are a patch: in either file they stand in order and apart, and replacing
the lines of one side by those of the other makes one file of the other.
-/

namespace TensorGrep
namespace Rewrite

open Kernel

/-! ## The code -/

/-- What a line of a hunk is marked with. -/
inductive LineTag where
  | context
  | deletion
  | addition
  deriving DecidableEq

/-- The mark. -/
def LineTag.mark : LineTag → Char
  | .context => ' '
  | .deletion => '-'
  | .addition => '+'

/-- A line of a hunk. -/
abbrev TaggedLine := LineTag × Text

/-- A hunk with the numbers of its header. -/
structure Hunk where
  oldStart : ℕ
  oldCount : ℕ
  newStart : ℕ
  newCount : ℕ
  lines : List TaggedLine

/-- The cursors of the scan and the lines collected for a hunk. -/
structure HunkScan where
  i : ℕ
  j : ℕ
  hunkOld : List TaggedLine
  hunkNew : List TaggedLine

/-- Lines from one place to another. -/
def lineRange
    (lines : List Text)
    (start stop : ℕ) : List Text :=
  (lines.take stop).drop start

/-- Lines as context. -/
def contextLines (lines : List Text) : List TaggedLine :=
  lines.map fun line => (.context, line)

/-- Both cursors are at a line, and it is the same. -/
def sameLine
    (old new : List Text)
    (i j : ℕ) : Bool :=
  match old[i]?, new[j]? with
  | some line, some line' => line = line'
  | _, _ => false

/-- The number of equal lines from the beginning of two lists. -/
def commonRun : List Text → List Text → ℕ
  | line :: old, line' :: new => if line = line' then commonRun old new + 1 else 0
  | _, _ => 0

/-- A line of the old file that is not the next of the new one is deleted. -/
def deleteLine
    (old new : List Text)
    (s : HunkScan) : HunkScan :=
  match old[s.i]? with
  | some line =>
      if new.length ≤ s.j ∨ line ≠ new[s.j]?.getD [] then
        { s with i := s.i + 1, hunkOld := s.hunkOld ++ [(.deletion, line)] }
      else s
  | none => s

/-- A line of the new file that is not the next of the old one is added. -/
def addLine
    (old new : List Text)
    (s : HunkScan) : HunkScan :=
  match new[s.j]? with
  | some line =>
      if old.length ≤ s.i ∨ line ≠ old[s.i]?.getD [] then
        { s with j := s.j + 1, hunkNew := s.hunkNew ++ [(.addition, line)] }
      else s
  | none => s

/-- The number of lines after the cursors. -/
def HunkScan.remaining
    (old new : List Text)
    (s : HunkScan) : ℕ :=
  (old.length - s.i) + (new.length - s.j)

theorem sameLine_eq_true_iff
    {old new : List Text}
    {i j : ℕ} :
    sameLine old new i j = true ↔ ∃ line, old[i]? = some line ∧ new[j]? = some line := by
  rw [sameLine]
  cases old[i]? <;> cases new[j]? <;> simp [eq_comm]

/-- Where lines are the same a run begins. -/
theorem commonRun_pos
    {old new : List Text}
    {i j : ℕ}
    (h : sameLine old new i j = true) :
    0 < commonRun (old.drop i) (new.drop j) := by
  obtain ⟨line, hold, hnew⟩ := sameLine_eq_true_iff.mp h
  obtain ⟨hi, hline⟩ := List.getElem?_eq_some_iff.mp hold
  obtain ⟨hj, hline'⟩ := List.getElem?_eq_some_iff.mp hnew
  rw [List.drop_eq_getElem_cons hi, List.drop_eq_getElem_cons hj, hline, hline', commonRun,
    if_pos rfl]
  exact Nat.succ_pos _

/-- A line is deleted, or nothing happens. -/
theorem deleteLine_cases
    (old new : List Text)
    (s : HunkScan) :
    deleteLine old new s = s ∨
      ∃ line, old[s.i]? = some line ∧ deleteLine old new s =
        { s with i := s.i + 1, hunkOld := s.hunkOld ++ [(.deletion, line)] } := by
  rw [deleteLine]
  cases hline : old[s.i]? with
  | none => exact Or.inl rfl
  | some line =>
      dsimp only
      split
      case isTrue => exact Or.inr ⟨line, rfl, rfl⟩
      case isFalse => exact Or.inl rfl

/-- A line is added, or nothing happens. -/
theorem addLine_cases
    (old new : List Text)
    (s : HunkScan) :
    addLine old new s = s ∨
      ∃ line, new[s.j]? = some line ∧ addLine old new s =
        { s with j := s.j + 1, hunkNew := s.hunkNew ++ [(.addition, line)] } := by
  rw [addLine]
  cases hline : new[s.j]? with
  | none => exact Or.inl rfl
  | some line =>
      dsimp only
      split
      case isTrue => exact Or.inr ⟨line, rfl, rfl⟩
      case isFalse => exact Or.inl rfl

theorem remaining_addLine_le
    (old new : List Text)
    (s : HunkScan) :
    (addLine old new s).remaining old new ≤ s.remaining old new := by
  rcases addLine_cases old new s with h | ⟨line, -, h⟩
  · rw [h]
  · rw [h, HunkScan.remaining, HunkScan.remaining]
    dsimp only
    omega

/-- Where they are not, a line is deleted or added. -/
theorem remaining_step_lt
    {old new : List Text}
    {s : HunkScan}
    (hlines : s.i < old.length ∨ s.j < new.length)
    (h : sameLine old new s.i s.j = false) :
    (addLine old new (deleteLine old new s)).remaining old new < s.remaining old new := by
  cases hold : old[s.i]? with
  | some line =>
      have hi := (List.getElem?_eq_some_iff.mp hold).1
      have hline : new.length ≤ s.j ∨ line ≠ new[s.j]?.getD [] := by
        cases hnew : new[s.j]? with
        | none => exact Or.inl (List.getElem?_eq_none_iff.mp hnew)
        | some line' =>
            refine Or.inr fun heq => ?_
            rw [sameLine, hold, hnew] at h
            exact of_decide_eq_false h heq
      refine (remaining_addLine_le old new _).trans_lt ?_
      rw [deleteLine, hold]
      dsimp only
      rw [if_pos hline, HunkScan.remaining, HunkScan.remaining]
      dsimp only
      omega
  | none =>
      have hi := List.getElem?_eq_none_iff.mp hold
      have hj : s.j < new.length := by omega
      rw [show deleteLine old new s = s by rw [deleteLine, hold], addLine,
        List.getElem?_eq_getElem hj]
      dsimp only
      rw [if_pos (Or.inl hi), HunkScan.remaining, HunkScan.remaining]
      dsimp only
      omega

/-- The loop that collects a hunk. -/
def collectHunk
    (old new : List Text)
    (context : ℕ)
    (s : HunkScan) : HunkScan :=
  if _hlines : s.i < old.length ∨ s.j < new.length then
    if _hsame : sameLine old new s.i s.j = true then
      let trailing := commonRun (old.drop s.i) (new.drop s.j)
      if context * 2 < trailing ∨ old.length ≤ s.i + trailing ∧ new.length ≤ s.j + trailing then
        let take := min trailing context
        { i := s.i + trailing
          j := s.j + trailing
          hunkOld := s.hunkOld ++ contextLines (lineRange old s.i (s.i + take))
          hunkNew := s.hunkNew ++ contextLines (lineRange new s.j (s.j + take)) }
      else
        collectHunk old new context
          { i := s.i + trailing
            j := s.j + trailing
            hunkOld := s.hunkOld ++ contextLines (lineRange old s.i (s.i + trailing))
            hunkNew := s.hunkNew ++ contextLines (lineRange new s.j (s.j + trailing)) }
    else collectHunk old new context (addLine old new (deleteLine old new s))
  else s
termination_by s.remaining old new
decreasing_by
  · have hpos := commonRun_pos _hsame
    simp only [HunkScan.remaining]
    omega
  · exact remaining_step_lt _hlines (Bool.not_eq_true _ ▸ _hsame)

/-- Both lists begin with the same line of context. -/
def sameContext
    (hunkOld hunkNew : List TaggedLine) : Bool :=
  match hunkOld, hunkNew with
  | (.context, line) :: _, (.context, line') :: _ => line = line'
  | _, _ => false

/-- The lines with a tag at the beginning of a list. -/
def leading
    (tag : LineTag)
    (lines : List TaggedLine) : List TaggedLine :=
  lines.takeWhile fun line => line.1 = tag

theorem length_leading_le
    (tag : LineTag)
    (lines : List TaggedLine) :
    (leading tag lines).length ≤ lines.length :=
  (List.takeWhile_prefix _).length_le

theorem sameContext_eq_true_iff
    {hunkOld hunkNew : List TaggedLine} :
    sameContext hunkOld hunkNew = true ↔ ∃ line os ns,
      hunkOld = (.context, line) :: os ∧ hunkNew = (.context, line) :: ns := by
  constructor
  · intro h
    unfold sameContext at h
    split at h
    case h_1 line os line' ns => exact ⟨line, os, ns, rfl, by rw [of_decide_eq_true h]⟩
    case h_2 => cases h
  · rintro ⟨line, os, ns, rfl, rfl⟩
    exact decide_eq_true rfl

/-- The loop that puts the two lists together; none if it comes to a state that it never leaves. -/
def interleave
    (hunkOld hunkNew : List TaggedLine) : Option (List TaggedLine) :=
  if hunkOld = [] ∧ hunkNew = [] then some []
  else if _hsame : sameContext hunkOld hunkNew = true then
    (interleave hunkOld.tail hunkNew.tail).map (hunkOld.head?.toList ++ ·)
  else if _hstuck : leading .deletion hunkOld = [] ∧ leading .addition hunkNew = [] then none
  else
    (interleave (hunkOld.drop (leading .deletion hunkOld).length)
      (hunkNew.drop (leading .addition hunkNew).length)).map
        (leading .deletion hunkOld ++ leading .addition hunkNew ++ ·)
termination_by hunkOld.length + hunkNew.length
decreasing_by
  · obtain ⟨line, os, ns, rfl, rfl⟩ := sameContext_eq_true_iff.mp _hsame
    simp only [List.tail_cons, List.length_cons]
    omega
  · have hdeletions := length_leading_le .deletion hunkOld
    have hadditions := length_leading_le .addition hunkNew
    have hflushed : 0 < (leading .deletion hunkOld).length + (leading .addition hunkNew).length := by
      by_contra hnone
      refine _hstuck ⟨List.length_eq_zero_iff.mp ?_, List.length_eq_zero_iff.mp ?_⟩ <;> omega
    rw [List.length_drop, List.length_drop]
    omega

/-- The loop that collects a hunk does not go back. -/
theorem remaining_collectHunk_le
    (old new : List Text)
    (context : ℕ)
    (s : HunkScan) :
    (collectHunk old new context s).remaining old new ≤ s.remaining old new := by
  induction s using collectHunk.induct old new context with
  | case1 s hlines hsame trailing hbreak =>
      rw [collectHunk, dif_pos hlines, dif_pos hsame]
      simp only [HunkScan.remaining]
      rw [if_pos hbreak]
      dsimp only
      omega
  | case2 s hlines hsame trailing hgo ih =>
      rw [collectHunk, dif_pos hlines, dif_pos hsame]
      dsimp only
      rw [if_neg hgo]
      refine ih.trans ?_
      simp only [HunkScan.remaining]
      omega
  | case3 s hlines hdiffer ih =>
      rw [collectHunk, dif_pos hlines, dif_neg hdiffer]
      exact ih.trans (remaining_step_lt hlines (Bool.not_eq_true _ ▸ hdiffer)).le
  | case4 s hlines =>
      rw [collectHunk, dif_neg hlines]

/-- A hunk begins at a line that differs, and leaves it behind. -/
theorem remaining_collectHunk_lt
    {old new : List Text}
    (context : ℕ)
    {s : HunkScan}
    (hlines : s.i < old.length ∨ s.j < new.length)
    (h : sameLine old new s.i s.j = false) :
    (collectHunk old new context s).remaining old new < s.remaining old new := by
  rw [collectHunk, dif_pos hlines, dif_neg (by simp [h])]
  exact (remaining_collectHunk_le old new context _).trans_lt (remaining_step_lt hlines h)

/-- The scan where a hunk begins. -/
def beginHunk
    (old new : List Text)
    (context i j : ℕ) : HunkScan where
  i := i
  j := j
  hunkOld := contextLines (lineRange old (i - context) i)
  hunkNew := contextLines (lineRange new (j - context) j)

/-- The outer loop of `emit_unified_hunks`; none if the inner loop that puts a hunk together does not
end. -/
def emitFrom
    (old new : List Text)
    (context i j : ℕ) : Option (List Hunk) :=
  if _hlines : i < old.length ∨ j < new.length then
    if _hsame : sameLine old new i j = true then emitFrom old new context (i + 1) (j + 1)
    else
      let s := collectHunk old new context (beginHunk old new context i j)
      (interleave s.hunkOld s.hunkNew).bind fun lines =>
        (emitFrom old new context s.i s.j).map fun hunks =>
          { oldStart := i - context + 1
            oldCount := s.hunkOld.length
            newStart := j - context + 1
            newCount := s.hunkNew.length
            lines := lines } :: hunks
  else some []
termination_by (old.length - i) + (new.length - j)
decreasing_by
  · omega
  · exact remaining_collectHunk_lt context (s := beginHunk old new context i j) _hlines
      (Bool.not_eq_true _ ▸ _hsame)

/-- `emit_unified_hunks`. -/
def emitUnifiedHunks
    (old new : List Text)
    (context : ℕ) : Option (List Hunk) :=
  emitFrom old new context 0 0

/-- A hunk as it is printed. -/
def Hunk.text (hunk : Hunk) : Text :=
  s!"@@ -{hunk.oldStart},{hunk.oldCount} +{hunk.newStart},{hunk.newCount} @@\n".toList ++
    hunk.lines.flatMap fun line => line.1.mark :: line.2 ++ ['\n']

/-- What `generate_diff_for_edits` prints about a file. -/
def fileDiff
    (displayPath original rewritten : Text) : Option Text :=
  (emitUnifiedHunks (strLines original) (strLines rewritten) 3).map fun hunks =>
    "--- a/".toList ++ displayPath ++ "\n+++ b/".toList ++ displayPath ++ ['\n'] ++
      hunks.flatMap Hunk.text

end Rewrite
end TensorGrep
