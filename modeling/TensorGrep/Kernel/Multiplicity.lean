import Mathlib.Data.Multiset.Bind

/-!
# How often something is gathered

Two loops, one inside the other, gather the same in either order
(`flatMap_swap_perm`).  Where every gathered element belongs to one key, it is
gathered once for each occurrence of this key (`count_flatMap_of_owner`), so that
gathering over keys that come more than once shows in the result exactly when
something belongs to them (`count_eq_mul_count_iff`).
-/

namespace TensorGrep
namespace Kernel

universe u v w

variable {α : Type u} {κ : Type v} {ι : Type w}

/-- Nested loops may change places. -/
theorem flatMap_swap_perm
    (l : List κ)
    (l' : List ι)
    (g : κ → ι → List α) :
    (l.flatMap fun k => l'.flatMap fun i => g k i).Perm
      (l'.flatMap fun i => l.flatMap fun k => g k i) := by
  rw [← Multiset.coe_eq_coe]
  simp only [← Multiset.coe_bind]
  exact Multiset.bind_bind _ _

/-- What belongs to a key is gathered as often as the key is met. -/
theorem count_flatMap_of_owner
    [DecidableEq α]
    [DecidableEq κ]
    {owner : α → κ}
    {g : κ → List α}
    (howner : ∀ k, ∀ a ∈ g k, owner a = k)
    (l : List κ)
    (a : α) :
    (l.flatMap g).count a = l.count (owner a) * (g (owner a)).count a := by
  induction l with
  | nil => simp
  | cons k l ih =>
      rw [List.flatMap_cons, List.count_append, ih]
      by_cases hk : k = owner a
      · rw [hk, List.count_cons_self, Nat.succ_mul, Nat.add_comm]
      · have hnot : a ∉ g k := fun hmem => hk (howner k a hmem).symm
        rw [List.count_eq_zero_of_not_mem hnot, List.count_cons_of_ne hk, Nat.zero_add]

/-- A list without duplicates is `n` times another one exactly when both are empty or, for
`n = 1`, they have the same elements. -/
theorem count_eq_mul_count_iff
    [DecidableEq α]
    {l l' : List α}
    (hl : l.Nodup)
    (hl' : l'.Nodup)
    (n : ℕ)
    (hn : 0 < n) :
    (∀ a, l.count a = n * l'.count a) ↔
      ((∃ a, a ∈ l ∨ a ∈ l') → n = 1 ∧ ∀ a, a ∈ l ↔ a ∈ l') := by
  simp only [hl.count, hl'.count]
  constructor
  · rintro h ⟨a, ha⟩
    have hone : n = 1 := by
      have hcount := h a
      by_cases hmem' : a ∈ l'
      · rw [if_pos hmem'] at hcount
        split at hcount <;> omega
      · rw [if_pos (ha.resolve_right hmem'), if_neg hmem'] at hcount
        omega
    refine ⟨hone, fun b => ?_⟩
    have hcount := h b
    rw [hone, Nat.one_mul] at hcount
    by_cases hb : b ∈ l <;> by_cases hb' : b ∈ l' <;> simp [hb, hb'] at hcount ⊢
  · intro h a
    by_cases ha : a ∈ l ∨ a ∈ l'
    · obtain ⟨hone, hmem⟩ := h ⟨a, ha⟩
      rw [hone, Nat.one_mul, if_congr (hmem a) rfl rfl]
    · obtain ⟨hnot, hnot'⟩ := not_or.mp ha
      rw [if_neg hnot, if_neg hnot', Nat.mul_zero]

end Kernel
end TensorGrep
