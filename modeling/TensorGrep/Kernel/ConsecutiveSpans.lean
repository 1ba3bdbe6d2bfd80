import Mathlib.Data.List.Basic
import Mathlib.Data.List.Flatten

/-!
# Consecutive spans

Pieces that are laid one after another have spans in the whole.  The spans are contiguous,
they end within the whole, and what they cut out of it are the pieces again.
-/

namespace TensorGrep
namespace Kernel

universe u

variable {α : Type u}

/-- The elements between two positions. -/
def slice
    (start stop : ℕ)
    (l : List α) : List α :=
  (l.take stop).drop start

/-- The spans of pieces that are laid one after another from a position on. -/
def spansFrom : ℕ → List (List α) → List (ℕ × ℕ)
  | _, [] => []
  | offset, piece :: rest =>
      (offset, offset + piece.length) :: spansFrom (offset + piece.length) rest

/-- The first span starts at a position, and each other one where the one before it ends. -/
def ContiguousFrom : ℕ → List (ℕ × ℕ) → Prop
  | _, [] => True
  | offset, span :: rest => span.1 = offset ∧ ContiguousFrom span.2 rest

/-- The piece in the middle is cut out by its span. -/
theorem slice_append
    (before piece after : List α) :
    slice before.length (before.length + piece.length) (before ++ piece ++ after) = piece := by
  rw [slice, ← List.length_append, List.take_left, List.drop_left]

/-- The spans of pieces are contiguous. -/
theorem contiguousFrom_spansFrom
    (offset : ℕ)
    (pieces : List (List α)) :
    ContiguousFrom offset (spansFrom offset pieces) := by
  induction pieces generalizing offset with
  | nil => trivial
  | cons piece rest ih => exact ⟨rfl, ih (offset + piece.length)⟩

/-- The spans of pieces end within the pieces. -/
theorem le_length_of_mem_spansFrom
    {offset : ℕ}
    {pieces : List (List α)}
    {span : ℕ × ℕ}
    (h : span ∈ spansFrom offset pieces) :
    span.2 ≤ offset + pieces.flatten.length := by
  induction pieces generalizing offset with
  | nil => simp [spansFrom] at h
  | cons piece rest ih =>
      rw [List.flatten_cons, List.length_append]
      rcases List.mem_cons.mp h with rfl | hrest
      · exact Nat.add_le_add_left (Nat.le_add_right _ _) offset
      · have := ih hrest
        omega

/-- The spans of pieces cut the pieces out of the whole. -/
theorem map_slice_spansFrom
    (before : List α)
    (pieces : List (List α)) :
    (spansFrom before.length pieces).map
      (fun span => slice span.1 span.2 (before ++ pieces.flatten)) = pieces := by
  induction pieces generalizing before with
  | nil => rfl
  | cons piece rest ih =>
      rw [spansFrom, List.map_cons, List.flatten_cons]
      congr 1
      · rw [← List.append_assoc, slice_append]
      · have hrest := ih (before ++ piece)
        rwa [List.length_append, List.append_assoc] at hrest

end Kernel
end TensorGrep
