import Mathlib.Logic.Function.Basic
import Mathlib.Logic.Relation

/-!
# Step systems and their guarded runs

A step system has initial states and labelled steps.  A run is guarded by a
condition on the state before a step and on its label; `fun _ _ => True` is the
guard of arbitrary runs.  An invariant is proved once for the initial states
and once for a guarded step, and then holds in every state that a guarded run
reaches.
-/

namespace TensorGrep
namespace Kernel

universe u v

/-- Initial states and labelled steps. -/
structure StepSystem (σ : Type u) (ι : Type v) where
  init : σ → Prop
  step : σ → ι → σ → Prop

namespace StepSystem

variable {σ : Type u} {ι : Type v}

/-- The states that runs with guarded steps reach. -/
inductive Reachable
    (S : StepSystem σ ι)
    (guard : σ → ι → Prop) : σ → Prop
  | start {s : σ} : S.init s → Reachable S guard s
  | next {s s' : σ} {l : ι} :
      Reachable S guard s → guard s l → S.step s l s' → Reachable S guard s'

/-- What holds initially and is kept by guarded steps holds wherever a guarded run gets. -/
theorem Reachable.invariant
    {S : StepSystem σ ι}
    {guard : σ → ι → Prop}
    {P : σ → Prop}
    (hinit : ∀ s, S.init s → P s)
    (hstep : ∀ s l s', P s → guard s l → S.step s l s' → P s')
    {s : σ}
    (h : S.Reachable guard s) :
    P s := by
  induction h with
  | start hs => exact hinit _ hs
  | next _ hguard hs ih => exact hstep _ _ _ ih hguard hs

/-- A run under a stronger guard is a run under a weaker one. -/
theorem Reachable.mono
    {S : StepSystem σ ι}
    {guard guard' : σ → ι → Prop}
    (hweaker : ∀ s l, guard s l → guard' s l)
    {s : σ}
    (h : S.Reachable guard s) :
    S.Reachable guard' s := by
  induction h with
  | start hs => exact Reachable.start hs
  | next _ hguard hs ih => exact Reachable.next ih (hweaker _ _ hguard) hs

/-- The second state is reached from the first. -/
def Leads (S : StepSystem σ ι) : σ → σ → Prop :=
  Relation.ReflTransGen fun s s' => ∃ l, S.step s l s'

/-- What every step keeps is kept until later. -/
theorem Leads.invariant
    {S : StepSystem σ ι}
    {P : σ → Prop}
    (hstep : ∀ s l s', P s → S.step s l s' → P s')
    {s t : σ}
    (h : S.Leads s t)
    (hs : P s) :
    P t := by
  induction h with
  | refl => exact hs
  | tail _ hlast ih =>
      obtain ⟨l, hl⟩ := hlast
      exact hstep _ _ _ ih hl

end StepSystem

/-- What an updated family holds is the new value at its place, or an old one elsewhere. -/
theorem eq_or_of_update
    {κ : Type u}
    {α : Type v}
    [DecidableEq κ]
    {f : κ → α}
    {k k' : κ}
    {new a : α}
    (h : Function.update f k new k' = a) :
    k' = k ∧ new = a ∨ k' ≠ k ∧ f k' = a := by
  by_cases hk : k' = k
  · subst hk
    rw [Function.update_self] at h
    exact Or.inl ⟨rfl, h⟩
  · rw [Function.update_of_ne hk] at h
    exact Or.inr ⟨hk, h⟩

end Kernel
end TensorGrep
