import Mathlib.Tactic

/-!
# Shortest chains

A chain leads from an element along a relation to a target.  The distance of an element
is the length of its shortest chain.  The elements at the next distance are those that
have not been found yet and have an edge to an element at the last distance
(`isDistance_succ_iff`): this is one layer of a breadth-first search.
-/

namespace TensorGrep
namespace Kernel

universe u

section LayeredSearch

variable {α : Type u} (edge : α → α → Prop) (target : α → Prop)

/-- There is a chain of this length to a target. -/
def ChainTo : ℕ → α → Prop
  | 0, x => target x
  | n + 1, x => ∃ y, edge x y ∧ ChainTo n y

/-- The shortest chain has this length. -/
def IsDistance
    (n : ℕ)
    (x : α) : Prop :=
  ChainTo edge target n x ∧ ∀ k < n, ¬ ChainTo edge target k x

variable {edge target}

@[simp] theorem isDistance_zero_iff
    {x : α} :
    IsDistance edge target 0 x ↔ target x := by
  simp [IsDistance, ChainTo]

/-- There is one distance at most. -/
theorem IsDistance.unique
    {m n : ℕ}
    {x : α}
    (hm : IsDistance edge target m x)
    (hn : IsDistance edge target n x) :
    m = n := by
  rcases lt_trichotomy m n with hlt | heq | hlt
  · exact absurd hm.1 (hn.2 m hlt)
  · exact heq
  · exact absurd hn.1 (hm.2 n hlt)

/-- What has a chain has a distance. -/
theorem ChainTo.exists_isDistance
    {n : ℕ}
    {x : α}
    (h : ChainTo edge target n x) :
    ∃ k ≤ n, IsDistance edge target k x := by
  classical
  have hsome : ∃ k, ChainTo edge target k x := ⟨n, h⟩
  exact ⟨Nat.find hsome, Nat.find_min' hsome h, Nat.find_spec hsome, fun k hk =>
    Nat.find_min hsome hk⟩

/-- The next layer: what is not in a layer before and has an edge to the last one. -/
theorem isDistance_succ_iff
    {n : ℕ}
    {x : α} :
    IsDistance edge target (n + 1) x ↔
      (∀ k ≤ n, ¬ IsDistance edge target k x) ∧ ∃ y, edge x y ∧ IsDistance edge target n y := by
  constructor
  · rintro ⟨⟨y, hedge, hchain⟩, hshort⟩
    refine ⟨fun k hk hdistance => hshort k (by omega) hdistance.1, y, hedge, hchain, ?_⟩
    intro k hk hyk
    exact hshort (k + 1) (by omega) ⟨y, hedge, hyk⟩
  · rintro ⟨hnew, y, hedge, hdistance⟩
    refine ⟨⟨y, hedge, hdistance.1⟩, ?_⟩
    intro k hk hchain
    obtain ⟨j, hj, hx⟩ := hchain.exists_isDistance
    exact hnew j (by omega) hx

/-- Behind an empty layer there is nothing. -/
theorem not_isDistance_of_le
    {m n : ℕ}
    (hnone : ∀ x, ¬ IsDistance edge target m x)
    (hle : m ≤ n)
    (x : α) :
    ¬ IsDistance edge target n x := by
  induction n, hle using Nat.le_induction generalizing x with
  | base => exact hnone x
  | succ n _ ih =>
      intro hdistance
      obtain ⟨-, y, -, hy⟩ := isDistance_succ_iff.mp hdistance
      exact ih y hy

end LayeredSearch

end Kernel
end TensorGrep
