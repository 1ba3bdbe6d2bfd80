import Mathlib.Tactic

/-!
# Rank that flows along edges

Each node passes its rank on in equal shares: along its edges, or to the home nodes if
it has none.  A part of the rank flows, and the rest comes from a fixed distribution
over the home nodes.

Nothing is lost (`sum_flow`), a rank is positive only where a chain of edges from home
leads, and each home node keeps its fixed part.
-/

namespace TensorGrep
namespace Kernel

universe u v

section RankFlow

variable {V : Type u} {K : Type v} [DecidableEq V] [Field K]
variable (nodes : Finset V) (out : V → Finset V) (home : Finset V) (α : K)

/-- What one node passes on to another. -/
def passedOn
    (rank : V → K)
    (u v : V) : K :=
  if (out u).Nonempty then
    if v ∈ out u then rank u / (out u).card else 0
  else if v ∈ home then rank u / home.card else 0

/-- The fixed distribution: equal parts for the home nodes. -/
def homeShare (v : V) : K :=
  if v ∈ home then 1 / home.card else 0

/-- The ranks after one round. -/
def flow
    (rank : V → K)
    (v : V) : K :=
  (1 - α) * homeShare home v + α * ∑ u ∈ nodes, passedOn out home rank u v

/-- The ranks after some rounds. -/
def flowed : ℕ → V → K
  | 0 => homeShare home
  | n + 1 => flow nodes out home α (flowed n)

variable {nodes out home α}

section Mass

variable [CharZero K]

/-- A node passes on what it has. -/
theorem sum_passedOn
    (hout : ∀ u, out u ⊆ nodes)
    (hhome : home ⊆ nodes)
    (hne : home.Nonempty)
    (rank : V → K)
    (u : V) :
    ∑ v ∈ nodes, passedOn out home rank u v = rank u := by
  have hshare : ∀ s : Finset V, s ⊆ nodes → s.Nonempty →
      ∑ v ∈ nodes, (if v ∈ s then rank u / (s.card : K) else 0) = rank u := by
    intro s hs hsome
    rw [Finset.sum_ite_mem, Finset.inter_eq_right.mpr hs, Finset.sum_const, nsmul_eq_mul]
    exact mul_div_cancel₀ _ (Nat.cast_ne_zero.mpr hsome.card_pos.ne')
  by_cases hnonempty : (out u).Nonempty
  · simp only [passedOn, if_pos hnonempty]
    exact hshare _ (hout u) hnonempty
  · simp only [passedOn, if_neg hnonempty]
    exact hshare _ hhome hne

theorem sum_homeShare
    (hhome : home ⊆ nodes)
    (hne : home.Nonempty) :
    ∑ v ∈ nodes, homeShare home v = (1 : K) := by
  simp only [homeShare]
  rw [Finset.sum_ite_mem, Finset.inter_eq_right.mpr hhome, Finset.sum_const, nsmul_eq_mul]
  exact mul_div_cancel₀ _ (Nat.cast_ne_zero.mpr hne.card_pos.ne')

/-- One round mixes the fixed distribution with what there was. -/
theorem sum_flow
    (hout : ∀ u, out u ⊆ nodes)
    (hhome : home ⊆ nodes)
    (hne : home.Nonempty)
    (rank : V → K) :
    ∑ v ∈ nodes, flow nodes out home α rank v = (1 - α) + α * ∑ u ∈ nodes, rank u := by
  calc ∑ v ∈ nodes, flow nodes out home α rank v
      = (1 - α) * ∑ v ∈ nodes, homeShare home v +
          α * ∑ v ∈ nodes, ∑ u ∈ nodes, passedOn out home rank u v := by
        rw [Finset.mul_sum, Finset.mul_sum, ← Finset.sum_add_distrib]
        rfl
    _ = (1 - α) + α * ∑ u ∈ nodes, ∑ v ∈ nodes, passedOn out home rank u v := by
        rw [sum_homeShare hhome hne, mul_one, Finset.sum_comm]
    _ = (1 - α) + α * ∑ u ∈ nodes, rank u := by
        rw [Finset.sum_congr rfl fun u _ => sum_passedOn hout hhome hne rank u]

/-- The ranks sum to one after every round. -/
theorem sum_flowed
    (hout : ∀ u, out u ⊆ nodes)
    (hhome : home ⊆ nodes)
    (hne : home.Nonempty)
    (n : ℕ) :
    ∑ v ∈ nodes, flowed nodes out home α n v = 1 := by
  induction n with
  | zero => exact sum_homeShare hhome hne
  | succ n ih =>
      rw [flowed, sum_flow hout hhome hne, ih]
      ring

end Mass

section Order

variable [LinearOrder K] [IsStrictOrderedRing K]

theorem homeShare_nonneg
    (v : V) :
    0 ≤ (homeShare home v : K) := by
  rw [homeShare]
  split
  · positivity
  · exact le_refl 0

theorem passedOn_nonneg
    {rank : V → K}
    (hrank : ∀ v, 0 ≤ rank v)
    (u v : V) :
    0 ≤ passedOn out home rank u v := by
  have hshare : ∀ n : ℕ, 0 ≤ rank u / (n : K) := fun n => div_nonneg (hrank u) n.cast_nonneg
  rw [passedOn]
  split <;> split
  · exact hshare _
  · exact le_refl 0
  · exact hshare _
  · exact le_refl 0

/-- What flows to a node. -/
theorem sum_passedOn_nonneg
    {rank : V → K}
    (hrank : ∀ v, 0 ≤ rank v)
    (v : V) :
    0 ≤ ∑ u ∈ nodes, passedOn out home rank u v :=
  Finset.sum_nonneg fun u _ => passedOn_nonneg hrank u v

/-- No rank is negative. -/
theorem flowed_nonneg
    (h0 : 0 ≤ α)
    (h1 : α ≤ 1)
    (n : ℕ)
    (v : V) :
    0 ≤ flowed nodes out home α n v := by
  induction n generalizing v with
  | zero => exact homeShare_nonneg v
  | succ n ih =>
      exact add_nonneg (mul_nonneg (sub_nonneg.mpr h1) (homeShare_nonneg v))
        (mul_nonneg h0 (sum_passedOn_nonneg ih v))

/-- A home node keeps its fixed part. -/
theorem le_flowed_home
    (h0 : 0 ≤ α)
    (h1 : α ≤ 1)
    {v : V}
    (hv : v ∈ home)
    (n : ℕ) :
    (1 - α) / home.card ≤ flowed nodes out home α n v := by
  have hshare : (homeShare home v : K) = 1 / home.card := if_pos hv
  cases n with
  | zero =>
      rw [flowed, hshare]
      exact div_le_div_of_nonneg_right (by linarith) home.card.cast_nonneg
  | succ n =>
      rw [flowed, flow, hshare, mul_one_div]
      exact le_add_of_nonneg_right (mul_nonneg h0
        (sum_passedOn_nonneg (fun u => flowed_nonneg h0 h1 n u) v))

/-- A chain of edges from a home node. -/
inductive FlowsTo
    (nodes : Finset V)
    (out : V → Finset V)
    (home : Finset V) : ℕ → V → Prop
  | home {v : V} : v ∈ home → FlowsTo nodes out home 0 v
  | edge {n : ℕ} {u v : V} :
      FlowsTo nodes out home n u → u ∈ nodes → v ∈ out u → FlowsTo nodes out home (n + 1) v

/-- A rank is positive only where a chain leads that is not longer than the number of rounds. -/
theorem FlowsTo.of_flowed_pos
    (h0 : 0 ≤ α)
    (h1 : α ≤ 1)
    {n : ℕ}
    {v : V}
    (hpos : 0 < flowed nodes out home α n v) :
    ∃ k ≤ n, FlowsTo nodes out home k v := by
  induction n generalizing v with
  | zero =>
      rw [flowed, homeShare] at hpos
      split at hpos
      · next hv => exact ⟨0, le_refl 0, .home hv⟩
      · exact absurd hpos (lt_irrefl 0)
  | succ n ih =>
      by_cases hv : v ∈ home
      · exact ⟨0, Nat.zero_le _, .home hv⟩
      · -- something flows here from a node that has a positive rank
        have hshare : (homeShare home v : K) = 0 := if_neg hv
        rw [flowed, flow, hshare, mul_zero, zero_add] at hpos
        rw [← mul_zero α] at hpos
        have hsum := lt_of_mul_lt_mul_left hpos h0
        obtain ⟨u, hu, hpassed⟩ := Finset.exists_lt_of_sum_lt (f := fun _ => (0 : K))
          (by simpa using hsum)
        rw [passedOn, if_neg hv] at hpassed
        split at hpassed
        · split at hpassed
          · next hedge =>
              have hrank : 0 < flowed nodes out home α n u := by
                by_contra hle
                have hzero := le_antisymm (not_lt.mp hle) (flowed_nonneg h0 h1 n u)
                rw [hzero, zero_div] at hpassed
                exact lt_irrefl 0 hpassed
              obtain ⟨k, hk, hflows⟩ := ih hrank
              exact ⟨k + 1, by omega, .edge hflows hu hedge⟩
          · exact absurd hpassed (lt_irrefl 0)
        · exact absurd hpassed (lt_irrefl 0)

end Order

end RankFlow

end Kernel
end TensorGrep
