import Mathlib.Data.List.Nodup
import TensorGrep.Kernel.Outcome

/-!
# Tasks that own their cells

A parallel map runs one task for each element of a list, and each task reads
and writes only the cell that its element names.  When no two elements name one
cell, the order in which the tasks run does not matter: every result, and every
cell afterwards, is what the task alone makes of the cell as it was before.
-/

namespace TensorGrep
namespace Kernel

universe u v w x y

variable {κ : Type u} {cell : Type v} {α : Type w} {ε : Type x} {β : Type y}

/-- Run the tasks of a list, one after another. -/
@[grind] def runTasks
    [DecidableEq κ]
    (key : α → κ)
    (task : α → cell → Outcome ε β × cell) :
    (κ → cell) → List α → List (Outcome ε β) × (κ → cell)
  | cells, [] => ([], cells)
  | cells, a :: as =>
      let r := task a (cells (key a))
      let rest := runTasks key task (Function.update cells (key a) r.2) as
      (r.1 :: rest.1, rest.2)

/-- All results, or the first error; a panic in any task is a panic of the whole. -/
@[grind] def joinAll : List (Outcome ε β) → Outcome ε (List β)
  | [] => .ok []
  | .ok b :: rest => (joinAll rest).bind fun bs => .ok (b :: bs)
  | .error e :: rest =>
      match joinAll rest with
      | .panicked => .panicked
      | _ => .error e
  | .panicked :: _ => .panicked

section Tasks

variable [DecidableEq κ] {key : α → κ} {task : α → cell → Outcome ε β × cell}

/-- Cells that no task owns stay as they are. -/
theorem runTasks_of_not_mem
    {cells : κ → cell}
    {as : List α}
    {k : κ}
    (hk : k ∉ as.map key) :
    (runTasks key task cells as).2 k = cells k := by
  induction as generalizing cells with
  | nil => rfl
  | cons a as ih =>
      rw [List.map_cons, List.mem_cons, not_or] at hk
      rw [runTasks]
      dsimp only
      rw [ih hk.2, Function.update_of_ne hk.1]

/-- With distinct cells, every task works on its cell as it was before all tasks. -/
theorem runTasks_results
    {cells : κ → cell}
    {as : List α}
    (hnodup : (as.map key).Nodup) :
    (runTasks key task cells as).1 = as.map (fun a => (task a (cells (key a))).1) := by
  induction as generalizing cells with
  | nil => rfl
  | cons a as ih =>
      obtain ⟨hfresh, hrest⟩ := List.nodup_cons.mp hnodup
      have hsame : ∀ b ∈ as, (task b (Function.update cells (key a)
          (task a (cells (key a))).2 (key b))).1 = (task b (cells (key b))).1 := by
        intro b hb
        have hne : key b ≠ key a := fun h => hfresh (List.mem_map.mpr ⟨b, hb, h⟩)
        rw [Function.update_of_ne hne]
      rw [runTasks, List.map_cons]
      dsimp only
      rw [ih hrest, List.map_congr_left hsame]

/-- With distinct cells, every owned cell holds what its task made of it. -/
theorem runTasks_owned
    {cells : κ → cell}
    {as : List α}
    (hnodup : (as.map key).Nodup)
    {a : α}
    (ha : a ∈ as) :
    (runTasks key task cells as).2 (key a) = (task a (cells (key a))).2 := by
  induction as generalizing cells with
  | nil => cases ha
  | cons b as ih =>
      obtain ⟨hfresh, hrest⟩ := List.nodup_cons.mp hnodup
      rw [runTasks]
      dsimp only
      rcases List.mem_cons.mp ha with rfl | ha
      · rw [runTasks_of_not_mem hfresh, Function.update_self]
      · have hne : key a ≠ key b := fun h => hfresh (List.mem_map.mpr ⟨a, ha, h⟩)
        rw [ih hrest ha, Function.update_of_ne hne]

/-- With distinct cells, nothing changes exactly when no task changes its cell. -/
theorem runTasks_unchanged_iff
    {cells : κ → cell}
    {as : List α}
    (hnodup : (as.map key).Nodup) :
    (runTasks key task cells as).2 = cells ↔
      ∀ a ∈ as, (task a (cells (key a))).2 = cells (key a) := by
  constructor
  · intro hsame a ha
    rw [← runTasks_owned hnodup ha, hsame]
  · intro hall
    funext k
    by_cases hk : k ∈ as.map key
    · obtain ⟨a, ha, rfl⟩ := List.mem_map.mp hk
      rw [runTasks_owned hnodup ha, hall a ha]
    · exact runTasks_of_not_mem hk

end Tasks

/-- Joining succeeds exactly when every task does. -/
theorem joinAll_eq_ok_iff
    {rs : List (Outcome ε β)}
    {bs : List β} :
    joinAll rs = .ok bs ↔ rs = bs.map Outcome.ok := by
  induction rs generalizing bs with
  | nil =>
      rw [joinAll]
      constructor
      · intro h
        cases h
        rfl
      · intro h
        rw [List.map_eq_nil_iff.mp h.symm]
  | cons r rs ih =>
      cases r with
      | ok b =>
          rw [joinAll]
          cases hrest : joinAll rs with
          | ok bs' =>
              rw [ih.mp hrest, Outcome.bind_ok]
              constructor
              · intro h
                cases h
                rfl
              · intro h
                cases bs with
                | nil => cases h
                | cons b' bs =>
                    rw [List.map_cons, List.cons_eq_cons, Outcome.ok.injEq,
                      List.map_inj_right (fun _ _ hxy => Outcome.ok.inj hxy)] at h
                    rw [h.1, h.2]
          | error e =>
              rw [Outcome.bind_error]
              refine iff_of_false (by simp) ?_
              intro h
              cases bs with
              | nil => cases h
              | cons b' bs =>
                  have := ih.mpr (List.cons_eq_cons.mp h).2
                  rw [hrest] at this
                  cases this
          | panicked =>
              rw [Outcome.bind_panicked]
              refine iff_of_false (by simp) ?_
              intro h
              cases bs with
              | nil => cases h
              | cons b' bs =>
                  have := ih.mpr (List.cons_eq_cons.mp h).2
                  rw [hrest] at this
                  cases this
      | error e =>
          refine iff_of_false ?_ ?_
          · rw [joinAll]
            split <;> simp
          · cases bs <;> simp
      | panicked =>
          refine iff_of_false (by simp [joinAll]) ?_
          cases bs <;> simp

/-- Joining panics exactly when a task does. -/
theorem joinAll_eq_panicked_iff
    {rs : List (Outcome ε β)} :
    joinAll rs = .panicked ↔ .panicked ∈ rs := by
  induction rs with
  | nil => simp [joinAll]
  | cons r rs ih =>
      rw [List.mem_cons, ← ih]
      cases r with
      | ok b =>
          rw [joinAll]
          cases joinAll rs <;> simp
      | error e =>
          rw [joinAll]
          cases joinAll rs <;> simp
      | panicked => simp [joinAll]

/-- Without a panic, one error is enough for the whole to fail. -/
theorem exists_joinAll_error
    {rs : List (Outcome ε β)}
    {e : ε}
    (hpanic : ∀ r ∈ rs, r ≠ .panicked)
    (he : .error e ∈ rs) :
    ∃ e', joinAll rs = .error e' := by
  cases hjoin : joinAll rs with
  | ok bs =>
      rw [joinAll_eq_ok_iff.mp hjoin, List.mem_map] at he
      obtain ⟨b, -, hb⟩ := he
      cases hb
  | error e' => exact ⟨e', rfl⟩
  | panicked => exact absurd rfl (hpanic _ (joinAll_eq_panicked_iff.mp hjoin))

/-- When the whole succeeds, every result is one. -/
theorem exists_ok_of_bind_joinAll
    {γ : Type*}
    {rs : List (Outcome ε β)}
    {f : List β → Outcome ε γ}
    {c : γ}
    {r : Outcome ε β}
    (h : (joinAll rs).bind f = .ok c)
    (hr : r ∈ rs) :
    ∃ b, r = .ok b := by
  cases hjoin : joinAll rs with
  | ok bs =>
      rw [joinAll_eq_ok_iff.mp hjoin, List.mem_map] at hr
      obtain ⟨b, -, hb⟩ := hr
      exact ⟨b, hb.symm⟩
  | error e =>
      rw [hjoin] at h
      cases h
  | panicked =>
      rw [hjoin] at h
      cases h

end Kernel
end TensorGrep
