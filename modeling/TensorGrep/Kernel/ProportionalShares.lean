import Mathlib.Data.Rat.Floor
import Mathlib.Tactic.Positivity

/-!
# Proportional shares

Of the first positions of a whole, a part has its proportional share, rounded up.  The
share begins at 0 and grows by at most one with each position, and neither the part nor
the rest of the whole is ever used up early.
-/

namespace TensorGrep
namespace Kernel

/-- The share that a part of the whole has of the first positions, rounded up. -/
def share (position part total : ℕ) : ℕ :=
  ⌈((position * part : ℕ) : ℚ) / (total : ℚ)⌉₊

section Shares

variable {position part rest total : ℕ}

/-- A bound of a share, without division. -/
theorem share_le_iff
    (htotal : 0 < total)
    {n : ℕ} :
    share position part total ≤ n ↔ position * part ≤ n * total := by
  have hpos : (0 : ℚ) < total := Nat.cast_pos.mpr htotal
  rw [share, Nat.ceil_le, div_le_iff₀ hpos, ← Nat.cast_mul, Nat.cast_le]

@[simp] theorem share_zero : share 0 part total = 0 := by
  simp [share]

@[simp] theorem share_part_zero : share position 0 total = 0 := by
  simp [share]

/-- A share never falls. -/
theorem share_le_share_succ
    (htotal : 0 < total) :
    share position part total ≤ share (position + 1) part total := by
  rw [share_le_iff htotal]
  have hnext := (share_le_iff htotal).mp (le_refl (share (position + 1) part total))
  exact (Nat.mul_le_mul_right part (Nat.le_succ position)).trans hnext

/-- A share grows by at most one. -/
theorem share_succ_le
    (htotal : 0 < total)
    (hpart : part ≤ total) :
    share (position + 1) part total ≤ share position part total + 1 := by
  rw [share_le_iff htotal, Nat.succ_mul, Nat.succ_mul]
  exact Nat.add_le_add ((share_le_iff htotal).mp le_rfl) hpart

/-- The part is not used up early. -/
theorem share_le_part
    (htotal : 0 < total)
    (h : position ≤ total) :
    share position part total ≤ part := by
  rw [share_le_iff htotal, Nat.mul_comm]
  exact Nat.mul_le_mul_left part h

/-- At the end the share is the part. -/
theorem share_total
    (htotal : 0 < total) :
    share total part total = part := by
  refine le_antisymm (share_le_part htotal le_rfl) ?_
  have hle := (share_le_iff htotal).mp (le_refl (share total part total))
  rw [Nat.mul_comm] at hle
  exact Nat.le_of_mul_le_mul_right hle htotal

/-- The share of the whole is every position. -/
theorem share_self
    (htotal : 0 < total) :
    share position total total = position := by
  refine le_antisymm ((share_le_iff htotal).mpr le_rfl) ?_
  exact Nat.le_of_mul_le_mul_right ((share_le_iff htotal).mp le_rfl) htotal

/-- A share is no more than the positions. -/
theorem share_le_position
    (htotal : 0 < total)
    (hpart : part ≤ total) :
    share position part total ≤ position :=
  (share_le_iff htotal).mpr (Nat.mul_le_mul_left position hpart)

/-- The rest is not used up early. -/
theorem position_le_share_add
    (hrest : rest + part = total)
    (htotal : 0 < total)
    (h : position ≤ total) :
    position ≤ share position part total + rest := by
  by_contra hless
  obtain ⟨more, rfl⟩ : ∃ more, position = more + rest + 1 := ⟨position - rest - 1, by omega⟩
  have hle : share (more + rest + 1) part total ≤ more := by omega
  rw [share_le_iff htotal, ← hrest] at hle
  nlinarith

end Shares

end Kernel
end TensorGrep
