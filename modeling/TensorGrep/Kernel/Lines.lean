import Mathlib.Data.List.Basic

/-!
# Lists in lines

`linesOf sep l` cuts `l` after every occurrence of `sep`; a last line may lack
its end.  The lines of a list that is cut at a line end are those of its parts
(`linesOf_append`), which is what makes a search of the parts a search of the
whole.
-/

namespace TensorGrep
namespace Kernel

universe u

section Lines

variable {α : Type u} [DecidableEq α]

/-- The lines of a list, each with its end. -/
@[grind] def linesOf (sep : α) : List α → List (List α)
  | [] => []
  | a :: l =>
      if a = sep then [a] :: linesOf sep l
      else
        match linesOf sep l with
        | [] => [[a]]
        | line :: rest => (a :: line) :: rest

/-- Nothing, or something with a line end at its end. -/
def AtLineEnd
    (sep : α)
    (l : List α) : Prop :=
  l = [] ∨ l.getLast? = some sep

variable {sep : α}

@[simp] theorem linesOf_nil :
    linesOf sep [] = [] := rfl

/-- The lines are what they were cut from. -/
theorem flatten_linesOf
    (l : List α) :
    (linesOf sep l).flatten = l := by
  induction l with
  | nil => rfl
  | cons a l ih =>
      rw [linesOf]
      split
      · rw [List.flatten_cons, ih, List.singleton_append]
      · split
        next hnil =>
            rw [hnil] at ih
            simp only [List.flatten_nil] at ih
            rw [← ih]
            rfl
        next line rest hcons =>
            rw [hcons] at ih
            rw [← ih]
            rfl

theorem linesOf_eq_nil_iff
    {l : List α} :
    linesOf sep l = [] ↔ l = [] := by
  constructor
  · intro h
    rw [← @flatten_linesOf _ _ sep l, h]
    rfl
  · rintro rfl
    rfl

/-- No line is empty: it has at least its end. -/
theorem ne_nil_of_mem_linesOf
    {l line : List α}
    (h : line ∈ linesOf sep l) :
    line ≠ [] := by
  induction l generalizing line with
  | nil => cases h
  | cons a l ih =>
      rw [linesOf] at h
      split at h
      · rcases List.mem_cons.mp h with rfl | hrest
        · exact List.cons_ne_nil _ _
        · exact ih hrest
      · split at h
        next =>
            rw [List.mem_singleton.mp h]
            exact List.cons_ne_nil _ _
        next first rest hcons =>
            rcases List.mem_cons.mp h with rfl | hrest
            · exact List.cons_ne_nil _ _
            · exact ih (hcons ▸ List.mem_cons_of_mem _ hrest)

omit [DecidableEq α] in
theorem atLineEnd_cons_iff
    {a : α}
    {l : List α} :
    AtLineEnd sep (a :: l) ↔ AtLineEnd sep l ∧ (a = sep ∨ l ≠ []) := by
  by_cases hnil : l = []
  · subst hnil
    simp [AtLineEnd]
  · simp [AtLineEnd, List.getLast?_cons_of_ne_nil hnil, hnil]

/-- Cutting at a line end does not cut a line. -/
theorem linesOf_append
    {l₁ : List α}
    (h : AtLineEnd sep l₁)
    (l₂ : List α) :
    linesOf sep (l₁ ++ l₂) = linesOf sep l₁ ++ linesOf sep l₂ := by
  induction l₁ with
  | nil => rfl
  | cons a l ih =>
      obtain ⟨hend, hrest⟩ := atLineEnd_cons_iff.mp h
      rw [List.cons_append, linesOf, linesOf, ih hend]
      by_cases ha : a = sep
      · rw [if_pos ha, if_pos ha, List.cons_append]
      · rw [if_neg ha, if_neg ha]
        cases hlines : linesOf sep l with
        | nil => exact absurd (linesOf_eq_nil_iff.mp hlines) (hrest.resolve_left ha)
        | cons line rest => rfl

theorem linesOf_cons_of_ne_sep
    {a : α}
    (h : a ≠ sep)
    {l line : List α}
    {rest : List (List α)}
    (hl : linesOf sep l = line :: rest) :
    linesOf sep (a :: l) = (a :: line) :: rest := by
  rw [linesOf, if_neg h, hl]

/-- What has no line end is one line. -/
theorem linesOf_of_not_mem
    {l : List α}
    (h : sep ∉ l) :
    linesOf sep l = if l = [] then [] else [l] := by
  induction l with
  | nil => rfl
  | cons a l ih =>
      rw [List.mem_cons, not_or] at h
      rw [if_neg (List.cons_ne_nil a l)]
      cases l with
      | nil => rw [linesOf, if_neg (Ne.symm h.1), linesOf_nil]
      | cons b l =>
          exact linesOf_cons_of_ne_sep (Ne.symm h.1) (ih h.2)

/-- So is what has one at its end only. -/
theorem linesOf_concat_of_not_mem
    {l : List α}
    (h : sep ∉ l) :
    linesOf sep (l ++ [sep]) = [l ++ [sep]] := by
  induction l with
  | nil => simp [linesOf]
  | cons a l ih =>
      rw [List.mem_cons, not_or] at h
      exact linesOf_cons_of_ne_sep (Ne.symm h.1) (ih h.2)

/-- There are as many lines as line ends, and one more if the last one lacks its end. -/
theorem length_linesOf
    (l : List α) :
    (AtLineEnd sep l → (linesOf sep l).length = l.count sep) ∧
      (¬ AtLineEnd sep l → (linesOf sep l).length = l.count sep + 1) := by
  induction l with
  | nil => exact ⟨fun _ => rfl, fun h => absurd (Or.inl rfl) h⟩
  | cons a l ih =>
      rw [atLineEnd_cons_iff, linesOf]
      by_cases ha : a = sep
      · subst ha
        rw [if_pos rfl, List.length_cons, List.count_cons_self]
        simp only [true_or, and_true]
        exact ⟨fun h => by rw [ih.1 h], fun h => by rw [ih.2 h]⟩
      · rw [if_neg ha, List.count_cons_of_ne ha]
        cases hlines : linesOf sep l with
        | nil =>
            obtain rfl := linesOf_eq_nil_iff.mp hlines
            simp [ha]
        | cons line rest =>
            have hne : l ≠ [] := by
              rintro rfl
              cases hlines
            rw [hlines] at ih
            simpa [ha, hne] using ih

end Lines

end Kernel
end TensorGrep
