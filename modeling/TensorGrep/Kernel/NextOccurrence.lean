import Mathlib.Data.List.Range

/-!
# The next occurrence from every position on

One pass from the last position to the first fills a table with the nearest position, from
each position on, at which a test succeeds.  The table has one entry more than there are
positions, so that it may be read behind the last one (`getElem?_nextTable`).
-/

namespace TensorGrep
namespace Kernel

universe u

section NextOccurrence

variable {α : Type u} (p : α → Bool) (l : List α)

/-- The first position from a start on at which the test succeeds. -/
def firstFrom (start : ℕ) : Option ℕ :=
  (List.range' start (l.length - start)).find? fun i => l[i]?.any p

/-- One step of the pass: the table and the nearest position so far. -/
def probeStep
    (state : List (Option ℕ) × Option ℕ)
    (probe : ℕ) : List (Option ℕ) × Option ℕ :=
  let nearest := if l[probe]?.any p then some probe else state.2
  (state.1.set probe nearest, nearest)

/-- The table after the pass over all positions. -/
def nextTable : List (Option ℕ) :=
  ((List.range l.length).reverse.foldl (probeStep p l)
    (List.replicate (l.length + 1) none, none)).1

variable {p l}

theorem firstFrom_of_le
    {start : ℕ}
    (h : l.length ≤ start) :
    firstFrom p l start = none := by
  rw [firstFrom, Nat.sub_eq_zero_of_le h, List.range'_zero, List.find?_nil]

theorem firstFrom_of_lt
    {start : ℕ}
    (h : start < l.length) :
    firstFrom p l start = if l[start]?.any p then some start else firstFrom p l (start + 1) := by
  obtain ⟨k, hk⟩ : ∃ k, l.length - start = k + 1 := ⟨l.length - start - 1, by omega⟩
  have hrest : l.length - (start + 1) = k := by omega
  rw [firstFrom, firstFrom, hk, hrest, List.range'_succ, List.find?_cons]
  cases l[start]?.any p <;> rfl

/-- A position that is found is one of the list. -/
theorem lt_length_of_firstFrom
    {start i : ℕ}
    (h : firstFrom p l start = some i) :
    i < l.length := by
  have hmem := (List.find?_range'_eq_some.mp h).2.1
  rw [List.mem_range'_1] at hmem
  omega

/-- What holds when the positions from `k` on have been probed. -/
structure ProbedFrom
    (p : α → Bool)
    (l : List α)
    (k : ℕ)
    (state : List (Option ℕ) × Option ℕ) : Prop where
  nearest : state.2 = firstFrom p l k
  length : state.1.length = l.length + 1
  entry : ∀ j, k ≤ j → j ≤ l.length → state.1[j]? = some (firstFrom p l j)

/-- Before the pass nothing has been probed. -/
theorem probedFrom_length :
    ProbedFrom p l l.length (List.replicate (l.length + 1) none, none) where
  nearest := (firstFrom_of_le le_rfl).symm
  length := List.length_replicate
  entry j hle hge := by
    rw [firstFrom_of_le hle, List.getElem?_replicate, if_pos (Nat.lt_succ_of_le hge)]

/-- A step probes one position more. -/
theorem ProbedFrom.step
    {k : ℕ}
    {state : List (Option ℕ) × Option ℕ}
    (h : ProbedFrom p l (k + 1) state)
    (hk : k < l.length) :
    ProbedFrom p l k (probeStep p l state k) := by
  have hnearest : (if l[k]?.any p then some k else state.2) = firstFrom p l k := by
    rw [h.nearest, firstFrom_of_lt hk]
  refine ⟨hnearest, (List.length_set ..).trans h.length, fun j hle hge => ?_⟩
  simp only [probeStep, hnearest]
  rcases Nat.eq_or_lt_of_le hle with rfl | hlt
  · rw [List.getElem?_set_self (by rw [h.length]; omega)]
  · rw [List.getElem?_set_ne (Nat.ne_of_lt hlt)]
    exact h.entry j hlt hge

/-- The pass probes all positions. -/
theorem ProbedFrom.foldl
    {k : ℕ}
    {state : List (Option ℕ) × Option ℕ}
    (h : ProbedFrom p l k state)
    (hk : k ≤ l.length) :
    ProbedFrom p l 0 ((List.range k).reverse.foldl (probeStep p l) state) := by
  induction k generalizing state with
  | zero => exact h
  | succ k ih =>
      rw [List.range_succ, List.reverse_append, List.reverse_singleton, List.singleton_append,
        List.foldl_cons]
      exact ih (h.step hk) (Nat.le_of_succ_le hk)

/-- The table has the first position from each position on, and also behind the last one. -/
theorem getElem?_nextTable
    {j : ℕ}
    (h : j ≤ l.length) :
    (nextTable p l)[j]? = some (firstFrom p l j) :=
  (probedFrom_length.foldl le_rfl).entry j (Nat.zero_le j) h

end NextOccurrence

end Kernel
end TensorGrep
