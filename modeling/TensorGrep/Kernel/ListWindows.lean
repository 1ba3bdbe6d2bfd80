import Mathlib.Data.List.Infix

/-!
# Windows of three consecutive elements

A trigram filter looks at a list only through its windows of three
consecutive elements.  This module relates those windows to the infix order:
a triple is a window exactly when it is an infix, so windows are monotone
under infixes, and appending one element adds at most one window.

The second half is the loop that keeps the first occurrence of every element,
written with the accumulator of elements already seen.
-/

namespace TensorGrep
namespace Kernel

universe u v

section Windows

variable {α : Type u} {β : Type v}

/-- Windows of three consecutive elements, left to right. -/
@[grind] def windows3 : List α → List (α × α × α)
  | a :: b :: c :: rest => (a, b, c) :: windows3 (b :: c :: rest)
  | _ => []

/-- Lists with fewer than three elements have no window. -/
theorem windows3_eq_nil_of_length_lt
    {l : List α}
    (h : l.length < 3) :
    windows3 l = [] := by
  match l, h with
  | [], _ => rfl
  | [_], _ => rfl
  | [_, _], _ => rfl
  | _ :: _ :: _ :: _, h =>
      simp only [List.length_cons] at h
      omega

/-- The windows of a list are exactly its infixes of length three. -/
theorem mem_windows3_iff
    {l : List α}
    {a b c : α} :
    (a, b, c) ∈ windows3 l ↔ [a, b, c] <:+: l := by
  induction l with
  | nil =>
      simp [windows3]
  | cons x l ih =>
      match l, ih with
      | [], _ =>
          have hshort : ¬ [a, b, c] <:+: [x] := by
            intro h
            have := h.length_le
            simp at this
          simpa [windows3] using hshort
      | [y], _ =>
          have hshort : ¬ [a, b, c] <:+: [x, y] := by
            intro h
            have := h.length_le
            simp at this
          simpa [windows3] using hshort
      | y :: z :: rest, ih =>
          rw [windows3, List.mem_cons, ih,
            List.infix_cons_iff (a := x)]
          constructor
          · rintro (h | h)
            · cases h
              exact Or.inl ⟨rest, rfl⟩
            · exact Or.inr h
          · rintro (⟨tail, h⟩ | h)
            · left
              simp only [List.cons_append, List.nil_append, List.cons.injEq] at h
              obtain ⟨rfl, rfl, rfl, -⟩ := h
              rfl
            · exact Or.inr h

/-- Windows are monotone under the infix order. -/
theorem mem_windows3_of_isInfix
    {l₁ l₂ : List α}
    (h : l₁ <:+: l₂)
    {t : α × α × α}
    (ht : t ∈ windows3 l₁) :
    t ∈ windows3 l₂ := by
  obtain ⟨a, b, c⟩ := t
  exact mem_windows3_iff.mpr ((mem_windows3_iff.mp ht).trans h)

/-- A list has a window as soon as it has three elements. -/
theorem windows3_ne_nil
    {l : List α}
    (h : 3 ≤ l.length) :
    windows3 l ≠ [] := by
  match l, h with
  | _ :: _ :: _ :: _, _ => simp [windows3]

/-- In a list of at least three elements each one is in a window. -/
theorem exists_mem_windows3_of_mem
    {l : List α}
    {x : α}
    (hx : x ∈ l)
    (h : 3 ≤ l.length) :
    ∃ t ∈ windows3 l, x = t.1 ∨ x = t.2.1 ∨ x = t.2.2 := by
  induction l with
  | nil => cases hx
  | cons a l ih =>
      match l, ih, h with
      | [b, c], _, _ =>
          refine ⟨(a, b, c), List.mem_singleton_self _, ?_⟩
          simpa using hx
      | b :: c :: d :: rest, ih, _ =>
          rw [windows3]
          rcases List.mem_cons.mp hx with rfl | hx
          · exact ⟨_, List.mem_cons_self, Or.inl rfl⟩
          · obtain ⟨t, ht, hmem⟩ := ih hx (by simp)
            exact ⟨t, List.mem_cons_of_mem _ ht, hmem⟩

/-- The elements of a window are elements of the list. -/
theorem mem_of_mem_windows3
    {l : List α}
    {t : α × α × α}
    (ht : t ∈ windows3 l)
    {x : α}
    (hx : x = t.1 ∨ x = t.2.1 ∨ x = t.2.2) :
    x ∈ l := by
  obtain ⟨a, b, c⟩ := t
  have hinfix := mem_windows3_iff.mp ht
  refine hinfix.subset ?_
  simpa using hx

/-- The last three elements of a list of at least three elements form its last window. -/
theorem mem_windows3_append_three
    (l : List α)
    (a b c : α) :
    (a, b, c) ∈ windows3 (l ++ [a, b, c]) :=
  mem_windows3_iff.mpr ⟨l, [], by simp⟩

/-- One more element at the end adds only the window that ends there. -/
theorem mem_windows3_append_one
    {l : List α}
    {a b c : α}
    {t : α × α × α}
    (ht : t ∈ windows3 (l ++ [a, b] ++ [c])) :
    t ∈ windows3 (l ++ [a, b]) ∨ t = (a, b, c) := by
  obtain ⟨x, y, z⟩ := t
  obtain ⟨p, s, hps⟩ := mem_windows3_iff.mp ht
  rcases List.eq_nil_or_concat s with rfl | ⟨s, d, rfl⟩
  · right
    have hend : p ++ [x, y, z] = l ++ [a, b, c] := by
      simpa using hps
    have hsplit := List.append_inj' hend rfl
    simpa using hsplit.2
  · left
    have hend : (p ++ [x, y, z] ++ s) ++ [d] = (l ++ [a, b]) ++ [c] := by
      simpa [List.concat_eq_append] using hps
    have hsplit := List.append_inj' hend rfl
    exact mem_windows3_iff.mpr ⟨p, s, hsplit.1⟩

/-- An infix of a list with one more element either avoids it or is a suffix. -/
theorem infix_concat_iff
    {u l : List α}
    {c : α} :
    u <:+: l ++ [c] ↔ u <:+: l ∨ u <:+ l ++ [c] := by
  constructor
  · rintro ⟨p, s, hps⟩
    rcases List.eq_nil_or_concat s with rfl | ⟨s, d, rfl⟩
    · exact Or.inr ⟨p, by simpa using hps⟩
    · left
      have hend : (p ++ u ++ s) ++ [d] = l ++ [c] := by
        simpa [List.concat_eq_append] using hps
      exact ⟨p, s, (List.append_inj' hend rfl).1⟩
  · rintro (h | h)
    · exact h.trans (List.prefix_append l [c]).isInfix
    · exact h.isInfix

end Windows

section FirstOccurrences

variable {α : Type u} [DecidableEq α]

/-- Keep each element the first time it is met; `seen` holds those already met. -/
@[grind] def keepUnseen (seen : List α) : List α → List α
  | [] => []
  | a :: l =>
      if a ∈ seen then keepUnseen seen l
      else a :: keepUnseen (a :: seen) l

theorem mem_keepUnseen_iff
    {seen l : List α}
    {x : α} :
    x ∈ keepUnseen seen l ↔ x ∈ l ∧ x ∉ seen := by
  induction l generalizing seen with
  | nil =>
      simp [keepUnseen]
  | cons a l ih =>
      unfold keepUnseen
      by_cases ha : a ∈ seen
      · rw [if_pos ha, ih, List.mem_cons]
        constructor
        · rintro ⟨hx, hs⟩
          exact ⟨Or.inr hx, hs⟩
        · rintro ⟨rfl | hx, hs⟩
          · exact absurd ha hs
          · exact ⟨hx, hs⟩
      · rw [if_neg ha, List.mem_cons, ih, List.mem_cons, List.mem_cons]
        constructor
        · rintro (rfl | ⟨hx, hs⟩)
          · exact ⟨Or.inl rfl, ha⟩
          · exact ⟨Or.inr hx, fun h => hs (Or.inr h)⟩
        · rintro ⟨rfl | hx, hs⟩
          · exact Or.inl rfl
          · by_cases hxa : x = a
            · exact Or.inl hxa
            · exact Or.inr ⟨hx, fun h => h.elim hxa hs⟩

/-- Starting from nothing seen, exactly the elements of the list are kept. -/
@[simp] theorem mem_keepUnseen_nil
    {l : List α}
    {x : α} :
    x ∈ keepUnseen [] l ↔ x ∈ l := by
  simp [mem_keepUnseen_iff]

/-- No element is kept twice. -/
theorem nodup_keepUnseen
    (seen l : List α) :
    (keepUnseen seen l).Nodup := by
  induction l generalizing seen with
  | nil =>
      simp [keepUnseen]
  | cons a l ih =>
      unfold keepUnseen
      split_ifs
      · exact ih seen
      · refine List.nodup_cons.mpr ⟨?_, ih _⟩
        rw [mem_keepUnseen_iff]
        simp

end FirstOccurrences

end Kernel
end TensorGrep
