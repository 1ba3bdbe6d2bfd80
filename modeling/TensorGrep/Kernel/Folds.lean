import Mathlib.Algebra.BigOperators.Group.List.Basic
import Mathlib.Algebra.Group.Pi.Basic
import Mathlib.Data.Finset.Lattice.Fold

/-!
# What a fold gathers

A fold over a record is known once it is known for every field what one step adds to
it: a number (`foldl_eq_add_sum`), the members of a set (`mem_foldl_iff`) or what is
written under a key (`foldl_update_apply`).
-/

namespace TensorGrep
namespace Kernel

universe u v w

variable {σ : Type u} {α : Type v} {β : Type w}

/-- A field to which every step adds a number. -/
theorem foldl_eq_add_sum
    {M : Type*}
    [AddMonoid M]
    {step : σ → α → σ}
    (field : σ → M)
    (added : α → M)
    (h : ∀ s a, field (step s a) = field s + added a)
    (l : List α)
    (s : σ) :
    field (l.foldl step s) = field s + (l.map added).sum := by
  induction l generalizing s with
  | nil => simp
  | cons a l ih => rw [List.foldl_cons, ih, h, List.map_cons, List.sum_cons, add_assoc]

/-- A set to which every step adds members. -/
theorem mem_foldl_iff
    {step : σ → α → σ}
    (field : σ → Finset β)
    (added : α → β → Prop)
    (h : ∀ s a b, b ∈ field (step s a) ↔ b ∈ field s ∨ added a b)
    (l : List α)
    (s : σ)
    (b : β) :
    b ∈ field (l.foldl step s) ↔ b ∈ field s ∨ ∃ a ∈ l, added a b := by
  induction l generalizing s with
  | nil => simp
  | cons a l ih => rw [List.foldl_cons, ih, h, List.exists_mem_cons_iff, or_assoc]

/-- What was written last under each of distinct keys is found there. -/
theorem foldl_update_apply
    [DecidableEq α]
    {l : List (α × β)}
    (hnodup : (l.map Prod.fst).Nodup)
    {a : α}
    {b : β}
    (h : (a, b) ∈ l)
    (f : α → β) :
    (l.foldl (fun f e => Function.update f e.1 e.2) f) a = b := by
  have hkeep : ∀ (l : List (α × β)) (f : α → β), a ∉ l.map Prod.fst →
      (l.foldl (fun f e => Function.update f e.1 e.2) f) a = f a := by
    intro l
    induction l with
    | nil => exact fun _ _ => rfl
    | cons e l ih =>
        intro f ha
        rw [List.map_cons, List.mem_cons, not_or] at ha
        rw [List.foldl_cons, ih _ ha.2, Function.update_of_ne ha.1]
  induction l generalizing f with
  | nil => cases h
  | cons e l ih =>
      obtain ⟨he, hl⟩ := List.nodup_cons.mp hnodup
      rw [List.foldl_cons]
      rcases List.mem_cons.mp h with rfl | h
      · rw [hkeep _ _ he, Function.update_self]
      · exact ih hl h _

/-- Elements that change nothing may be left out. -/
theorem foldl_filter_of_skip
    {step : σ → α → σ}
    {p : α → Bool}
    {l : List α}
    (h : ∀ a ∈ l, p a = false → ∀ s, step s a = s)
    (s : σ) :
    (l.filter p).foldl step s = l.foldl step s := by
  induction l generalizing s with
  | nil => rfl
  | cons a l ih =>
      have hrest := ih fun b hb => h b (List.mem_cons_of_mem a hb)
      cases hp : p a with
      | true => rw [List.filter_cons_of_pos hp, List.foldl_cons, List.foldl_cons, hrest]
      | false =>
          rw [List.filter_cons_of_neg (by simp [hp]), hrest, List.foldl_cons,
            h a List.mem_cons_self hp]

/-- One number for each member of a list without repetitions. -/
theorem sum_map_single
    {M : Type*}
    [AddCommMonoid M]
    [DecidableEq α]
    {l : List α}
    (hnodup : l.Nodup)
    (g : α → M)
    (a : α) :
    ((l.map fun b => (Pi.single b (g b) : α → M)).sum) a = if a ∈ l then g a else 0 := by
  induction l with
  | nil => rfl
  | cons b l ih =>
      obtain ⟨hb, hl⟩ := List.nodup_cons.mp hnodup
      rw [List.map_cons, List.sum_cons, Pi.add_apply, ih hl]
      by_cases hab : a = b
      · subst hab
        simp [hb]
      · simp [hab]

end Kernel
end TensorGrep
