import Mathlib.Tactic

/-!
# Replacing every occurrence of a text

`replaceAll` replaces the occurrences of a pattern from left to right, none of
them overlapping the one before.  A text that is a row of blocks is replaced
block by block, when every block is the pattern itself or no occurrence begins
in it.
-/

namespace TensorGrep
namespace Kernel

universe u v

variable {α : Type u} [DecidableEq α]

/-- The loop of `replaceAll`; so many symbols still belong to the last occurrence. -/
@[grind] def replaceFrom
    (pat new : List α) : Nat → List α → List α
  | _, [] => []
  | n + 1, _ :: s => replaceFrom pat new n s
  | 0, c :: s =>
      if pat <+: c :: s then new ++ replaceFrom pat new (pat.length - 1) s
      else c :: replaceFrom pat new 0 s

/-- `str.replace` with a pattern that is not empty. -/
def replaceAll (pat new s : List α) : List α :=
  replaceFrom pat new 0 s

variable {pat new : List α}

theorem replaceFrom_append
    (w s : List α) :
    replaceFrom pat new w.length (w ++ s) = replaceAll pat new s := by
  induction w with
  | nil => rfl
  | cons c w ih => rw [List.length_cons, List.cons_append, replaceFrom, ih]

/-- An occurrence is replaced. -/
theorem replaceAll_pat
    (hpat : pat ≠ [])
    (s : List α) :
    replaceAll pat new (pat ++ s) = new ++ replaceAll pat new s := by
  obtain ⟨c, w, rfl⟩ := List.exists_cons_of_ne_nil hpat
  have hpre : c :: w <+: c :: (w ++ s) := List.prefix_append (c :: w) s
  rw [List.cons_append, replaceAll, replaceFrom, if_pos hpre, List.length_cons,
    Nat.add_sub_cancel, replaceFrom_append]

/-- A text in which no occurrence begins is kept. -/
theorem replaceAll_append
    {w s : List α}
    (h : ∀ i < w.length, ¬ pat <+: w.drop i ++ s) :
    replaceAll pat new (w ++ s) = w ++ replaceAll pat new s := by
  induction w with
  | nil => rfl
  | cons c w ih =>
      have hhead : ¬ pat <+: c :: (w ++ s) := h 0 (by simp)
      have htail : ∀ i < w.length, ¬ pat <+: w.drop i ++ s := by
        intro i hi
        exact h (i + 1) (by simpa using hi)
      rw [List.cons_append, replaceAll, replaceFrom, if_neg hhead, List.cons_append]
      exact congrArg (c :: ·) (ih htail)

omit [DecidableEq α] in
/-- No occurrence begins in a text without the first symbol of the pattern. -/
theorem not_prefix_of_not_mem
    {a : α}
    {pat w : List α}
    (ha : a ∉ w)
    (s : List α) :
    ∀ i < w.length, ¬ a :: pat <+: w.drop i ++ s := by
  intro i hi hpre
  rw [List.drop_eq_getElem_cons hi, List.cons_append, List.cons_prefix_cons] at hpre
  exact ha (hpre.1 ▸ List.getElem_mem hi)

/-- Every block is the pattern, or no occurrence begins in it. -/
@[grind] def ReplacedBlockwise
    {β : Type v}
    (pat new : List α)
    (before after : β → List α) : List β → Prop
  | [] => True
  | p :: ps =>
      (before p = pat ∧ after p = new ∨
        after p = before p ∧
          ∀ i < (before p).length, ¬ pat <+: (before p).drop i ++ ps.flatMap before) ∧
      ReplacedBlockwise pat new before after ps

/-- Then the text is replaced block by block. -/
theorem replaceAll_flatMap
    {β : Type v}
    {before after : β → List α}
    (hpat : pat ≠ [])
    {ps : List β}
    (h : ReplacedBlockwise pat new before after ps) :
    replaceAll pat new (ps.flatMap before) = ps.flatMap after := by
  induction ps with
  | nil => rfl
  | cons p ps ih =>
      obtain ⟨hp, hps⟩ := h
      rw [List.flatMap_cons, List.flatMap_cons, ← ih hps]
      rcases hp with ⟨hbefore, hafter⟩ | ⟨hsame, hnone⟩
      · rw [hbefore, hafter, replaceAll_pat hpat]
      · rw [hsame, replaceAll_append hnone]

end Kernel
end TensorGrep
