import TensorGrep.Kernel.SortedKeys

/-!
# Ordered maps as lists of entries

An ordered map is kept as the list of its entries in the order of their keys.
Inserting replaces the value of a key that is there.  A map collected from a
list of entries holds one of the entries of every key, and all of the entries
when their keys are distinct.
-/

namespace TensorGrep
namespace Kernel

universe u v w

variable {κ : Type u} {β : Type v} {ρ : Type w} [DecidableEq κ] [LinearOrder ρ]

/-- Insert into an ordered map; `rank` orders the keys. -/
def insertEntry
    (rank : κ → ρ)
    (m : List (κ × β))
    (e : κ × β) : List (κ × β) :=
  sortByKey (fun e => rank e.1) (e :: m.filter (fun d => d.1 ≠ e.1))

/-- Insert a list of entries, one after the other. -/
def insertEntries
    (rank : κ → ρ)
    (m es : List (κ × β)) : List (κ × β) :=
  es.foldl (insertEntry rank) m

variable {rank : κ → ρ} {m es : List (κ × β)}

theorem insertEntries_cons
    (e : κ × β) :
    insertEntries rank m (e :: es) = insertEntries rank (insertEntry rank m e) es := rfl

theorem mem_insertEntry
    {e d : κ × β} :
    d ∈ insertEntry rank m e ↔ d = e ∨ d ∈ m ∧ d.1 ≠ e.1 := by
  simp [insertEntry, mem_sortByKey]

/-- Keys stay distinct. -/
theorem nodup_insertEntry
    (hm : (m.map Prod.fst).Nodup)
    (e : κ × β) :
    ((insertEntry rank m e).map Prod.fst).Nodup := by
  have hperm := (perm_sortByKey (fun e : κ × β => rank e.1)
    (e :: m.filter (fun d => d.1 ≠ e.1))).map Prod.fst
  rw [insertEntry, hperm.nodup_iff, List.map_cons, List.nodup_cons]
  constructor
  · simp
  · exact hm.sublist (List.filter_sublist.map Prod.fst)

/-- Keys stay distinct. -/
theorem nodup_insertEntries
    (hm : (m.map Prod.fst).Nodup) :
    ((insertEntries rank m es).map Prod.fst).Nodup := by
  induction es generalizing m with
  | nil => exact hm
  | cons e es ih => exact ih (nodup_insertEntry hm e)

/-- Every entry is one of those that were there or were inserted. -/
theorem mem_of_mem_insertEntries
    {d : κ × β}
    (hd : d ∈ insertEntries rank m es) :
    d ∈ m ∨ d ∈ es := by
  induction es generalizing m with
  | nil => exact Or.inl hd
  | cons e es ih =>
      rcases ih hd with hm | hes
      · rcases mem_insertEntry.mp hm with rfl | ⟨hm, -⟩
        · exact Or.inr List.mem_cons_self
        · exact Or.inl hm
      · exact Or.inr (List.mem_cons_of_mem _ hes)

/-- An entry whose key is not inserted again stays. -/
theorem mem_insertEntries_of_not_mem
    {d : κ × β}
    (hd : d ∈ m)
    (hfresh : d.1 ∉ es.map Prod.fst) :
    d ∈ insertEntries rank m es := by
  induction es generalizing m with
  | nil => exact hd
  | cons e es ih =>
      rw [List.map_cons, List.mem_cons, not_or] at hfresh
      exact ih (mem_insertEntry.mpr (Or.inr ⟨hd, hfresh.1⟩)) hfresh.2

/-- Entries with distinct keys are all there afterwards. -/
theorem mem_insertEntries_of_nodup
    (hes : (es.map Prod.fst).Nodup)
    {d : κ × β}
    (hd : d ∈ es) :
    d ∈ insertEntries rank m es := by
  induction es generalizing m with
  | nil => cases hd
  | cons e es ih =>
      rw [List.map_cons, List.nodup_cons] at hes
      rw [insertEntries_cons]
      rcases List.mem_cons.mp hd with rfl | hd
      · exact mem_insertEntries_of_not_mem (mem_insertEntry.mpr (Or.inl rfl)) hes.1
      · exact ih hes.2 hd

end Kernel
end TensorGrep
