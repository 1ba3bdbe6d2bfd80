import Mathlib.Tactic

/-!
# Sliding windows

A loop cuts `total` places into windows of at most `size` places, each of which
starts `step` places after the one before, until a window ends at the last
place.  Every place lies in a window when the step is not longer than a window
(`exists_mem_slidingWindows`); with windows of one place it does so only then.
-/

namespace TensorGrep
namespace Kernel

/-- The windows from a place on, each with its first place and the place behind its last one. -/
def slidingWindows
    (size : Nat)
    (step : ℕ+)
    (total start : Nat) : List (Nat × Nat) :=
  if start < total then
    (start, min (start + size) total) ::
      if min (start + size) total = total then []
      else slidingWindows size step total (start + step)
  else []
termination_by total - start
decreasing_by
  have hstep := step.pos
  omega

section Windows

variable {size : Nat} {step : ℕ+} {total start : Nat}

theorem slidingWindows_of_le
    (h : total ≤ start) :
    slidingWindows size step total start = [] := by
  rw [slidingWindows, if_neg (by omega)]

theorem slidingWindows_of_lt
    (h : start < total) :
    slidingWindows size step total start =
      (start, min (start + size) total) ::
        if min (start + size) total = total then []
        else slidingWindows size step total (start + step) := by
  rw [slidingWindows, if_pos h]

/-- What a window is. -/
theorem of_mem_slidingWindows
    {w : Nat × Nat}
    (hw : w ∈ slidingWindows size step total start) :
    start ≤ w.1 ∧ w.1 < total ∧ w.2 = min (w.1 + size) total ∧ (step : Nat) ∣ w.1 - start := by
  induction start using slidingWindows.induct step total with
  | case1 start h ih =>
      rw [slidingWindows_of_lt h] at hw
      rcases List.mem_cons.mp hw with rfl | hw
      · exact ⟨le_refl _, h, rfl, by simp⟩
      · split at hw
        case isTrue => cases hw
        case isFalse =>
            obtain ⟨hstart, htotal, hend, k, hk⟩ := ih hw
            refine ⟨by omega, htotal, hend, k + 1, ?_⟩
            rw [Nat.mul_succ, ← hk]
            omega
  | case2 start h =>
      rw [slidingWindows_of_le (by omega)] at hw
      cases hw

/-- Every place lies in a window when the step is not longer than a window. -/
theorem exists_mem_slidingWindows
    (hstep : (step : Nat) ≤ size)
    {k : Nat}
    (hstart : start ≤ k)
    (hk : k < total) :
    ∃ w ∈ slidingWindows size step total start, w.1 ≤ k ∧ k < w.2 := by
  induction start using slidingWindows.induct step total with
  | case1 start h ih =>
      rw [slidingWindows_of_lt h]
      by_cases hfirst : k < start + size
      · exact ⟨_, List.mem_cons_self, hstart, by simp only; omega⟩
      · rw [if_neg (by omega)]
        obtain ⟨w, hw, hin⟩ := ih (by omega)
        exact ⟨w, List.mem_cons_of_mem _ hw, hin⟩
  | case2 start h => omega

/-- The first place lies in the first window. -/
theorem head_mem_slidingWindows
    (h : start < total) :
    (start, min (start + size) total) ∈ slidingWindows size step total start := by
  rw [slidingWindows_of_lt h]
  exact List.mem_cons_self

/-- There are at most as many windows as steps to the last place. -/
theorem length_slidingWindows_le
    {count : Nat}
    (h : total ≤ start + count * step) :
    (slidingWindows size step total start).length ≤ count := by
  induction start using slidingWindows.induct step total generalizing count with
  | case1 start hlt ih =>
      rw [slidingWindows_of_lt hlt, List.length_cons]
      cases count with
      | zero => omega
      | succ count =>
          split
          case isTrue => simp
          case isFalse =>
              have hrest : _ ≤ count := ih (by rw [Nat.succ_mul] at h; omega)
              omega
  | case2 start hge =>
      rw [slidingWindows_of_le (by omega)]
      exact Nat.zero_le _

/-- With windows of one place there are not fewer. -/
theorem le_of_length_slidingWindows_one
    {count : Nat}
    (h : (slidingWindows 1 step total start).length ≤ count) :
    total ≤ start + count * step := by
  induction start using slidingWindows.induct step total generalizing count with
  | case1 start hlt ih =>
      rw [slidingWindows_of_lt hlt, List.length_cons] at h
      cases count with
      | zero => omega
      | succ count =>
          have hpos := step.pos
          rw [Nat.succ_mul]
          split at h
          case isTrue hstop => omega
          case isFalse =>
              have hrest : total ≤ start + step + count * step := ih (by omega)
              omega
  | case2 start hge => omega

end Windows

end Kernel
end TensorGrep
