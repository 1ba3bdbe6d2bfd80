import Mathlib.Data.List.Range
import Mathlib.Order.Lattice
import TensorGrep.Kernel.Precedence

/-!
# One from each list in turn

`columns` reads lists by columns: the first elements of all lists that have one,
then the second elements, and so on.  Taking one element from each list in turn
until all are empty visits the elements in this order.
-/

namespace TensorGrep
namespace Kernel

universe u

variable {α : Type u}

/-- The length of the longest list. -/
def longest (ls : List (List α)) : ℕ :=
  (ls.map List.length).foldr max 0

/-- The elements at a place. -/
def columnAt
    (ls : List (List α))
    (i : ℕ) : List α :=
  ls.filterMap fun l => l[i]?

/-- The elements of the lists, column by column. -/
def columns (ls : List (List α)) : List α :=
  (List.range (longest ls)).flatMap (columnAt ls)

/-- What is left of the lists that are not empty. -/
def remainders (ls : List (List α)) : List (List α) :=
  (ls.filter fun l => !l.isEmpty).map List.tail

@[simp] theorem longest_cons
    (l : List α)
    (ls : List (List α)) :
    longest (l :: ls) = max l.length (longest ls) :=
  rfl

@[simp] theorem remainders_cons_nil
    (ls : List (List α)) :
    remainders ([] :: ls) = remainders ls :=
  rfl

@[simp] theorem remainders_cons_cons
    (a : α)
    (l : List α)
    (ls : List (List α)) :
    remainders ((a :: l) :: ls) = l :: remainders ls :=
  rfl

@[simp] theorem columnAt_cons
    (l : List α)
    (ls : List (List α))
    (i : ℕ) :
    columnAt (l :: ls) i = l[i]?.toList ++ columnAt ls i := by
  rw [columnAt, List.filterMap_cons]
  cases l[i]? with
  | none => rfl
  | some a => rfl

theorem length_le_longest
    {ls : List (List α)}
    {l : List α}
    (h : l ∈ ls) :
    l.length ≤ longest ls := by
  induction ls with
  | nil => cases h
  | cons l' ls ih =>
      rw [longest_cons]
      rcases List.mem_cons.mp h with rfl | hmem
      · exact le_max_left _ _
      · exact le_trans (ih hmem) (le_max_right _ _)

@[simp] theorem columns_nil :
    columns ([] : List (List α)) = [] :=
  rfl

theorem mem_columns_iff
    {ls : List (List α)}
    {a : α} :
    a ∈ columns ls ↔ ∃ l ∈ ls, a ∈ l := by
  simp only [columns, columnAt, List.mem_flatMap, List.mem_range, List.mem_filterMap]
  constructor
  · rintro ⟨i, -, l, hl, hget⟩
    exact ⟨l, hl, List.mem_of_getElem? hget⟩
  · rintro ⟨l, hl, ha⟩
    obtain ⟨i, hget⟩ := List.mem_iff_getElem?.mp ha
    have hlt := (List.getElem?_eq_some_iff.mp hget).1
    exact ⟨i, lt_of_lt_of_le hlt (length_le_longest hl), l, hl, hget⟩

theorem columnAt_remainders
    (ls : List (List α))
    (i : ℕ) :
    columnAt (remainders ls) i = columnAt ls (i + 1) := by
  induction ls with
  | nil => rfl
  | cons l ls ih =>
      cases l with
      | nil => simp [ih]
      | cons a l => simp [ih]

theorem longest_remainders
    (ls : List (List α)) :
    longest (remainders ls) = longest ls - 1 := by
  induction ls with
  | nil => rfl
  | cons l ls ih =>
      cases l with
      | nil => simp [ih]
      | cons a l =>
          rw [remainders_cons_cons, longest_cons, longest_cons, ih, List.length_cons]
          omega

/-- The first column, and then the columns of what is left. -/
theorem columns_eq
    (ls : List (List α)) :
    columns ls = columnAt ls 0 ++ columns (remainders ls) := by
  rw [columns, columns, longest_remainders]
  cases hlongest : longest ls with
  | zero =>
      have hempty : columnAt ls 0 = [] := by
        rw [columnAt, List.filterMap_eq_nil_iff]
        intro l hl
        have hle := length_le_longest hl
        rw [hlongest, Nat.le_zero, List.length_eq_zero_iff] at hle
        rw [hle]
        rfl
      rw [hempty]
      rfl
  | succ n =>
      rw [List.range_succ_eq_map, List.flatMap_cons, List.flatMap_map, Nat.add_sub_cancel]
      exact congrArg _ (congrArg (List.range n).flatMap (funext fun i => (columnAt_remainders ls i).symm))

/-! ## The order of the columns -/

/-- The elements of the lists, once more: the first column and what is left. -/
theorem perm_columnAt_zero
    (ls : List (List α)) :
    (columnAt ls 0 ++ (remainders ls).flatten).Perm ls.flatten := by
  induction ls with
  | nil => exact List.Perm.refl _
  | cons l ls ih =>
      cases l with
      | nil => simpa using ih
      | cons a l =>
          rw [columnAt_cons, remainders_cons_cons, List.flatten_cons, List.flatten_cons]
          simp only [List.getElem?_cons_zero, Option.toList_some, List.singleton_append,
            List.cons_append]
          refine List.Perm.cons a ?_
          rw [← List.append_assoc]
          refine (List.perm_append_comm.append_right _).trans ?_
          rw [List.append_assoc]
          exact ih.append_left l

/-- Reading by columns only changes the order. -/
theorem perm_columns
    (ls : List (List α)) :
    (columns ls).Perm ls.flatten := by
  induction hlongest : longest ls generalizing ls with
  | zero =>
      have hempty : ls.flatten = [] := by
        rw [List.flatten_eq_nil_iff]
        intro l hl
        have hle := length_le_longest hl
        rwa [hlongest, Nat.le_zero, List.length_eq_zero_iff] at hle
      rw [columns, hlongest, hempty]
      exact List.Perm.refl _
  | succ n ih =>
      have hless : longest (remainders ls) = n := by
        rw [longest_remainders, hlongest, Nat.add_sub_cancel]
      rw [columns_eq]
      exact ((ih (remainders ls) hless).append_left _).trans (perm_columnAt_zero ls)

/-- An element comes before those that are farther behind in their lists. -/
theorem precedes_columns
    {ls : List (List α)}
    {l l' : List α}
    (hl : l ∈ ls)
    (hl' : l' ∈ ls)
    {i j : ℕ}
    (hij : i < j)
    {a b : α}
    (ha : l[i]? = some a)
    (hb : l'[j]? = some b) :
    Precedes (columns ls) a b := by
  have hj : j < longest ls :=
    lt_of_lt_of_le (List.getElem?_eq_some_iff.mp hb).1 (length_le_longest hl')
  have hrange : List.range (longest ls) =
      List.range j ++ (List.range (longest ls - j)).map (j + ·) := by
    rw [← List.range_add]
    congr 1
    omega
  rw [columns, hrange, List.flatMap_append]
  refine precedes_append ?_ ?_
  · exact List.mem_flatMap.mpr ⟨i, List.mem_range.mpr hij, List.mem_filterMap.mpr ⟨l, hl, ha⟩⟩
  · rw [List.flatMap_map]
    refine List.mem_flatMap.mpr ⟨0, List.mem_range.mpr (by omega), ?_⟩
    exact List.mem_filterMap.mpr ⟨l', hl', hb⟩

end Kernel
end TensorGrep
