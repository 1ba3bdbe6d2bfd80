import Mathlib.Tactic

/-!
# Fields with a separator behind them or between them

A row of fields is written with a separator behind every field, or with a separator between
every two of them.  Either way the row is read back from its text, if no field has the
separator in it and, for separators between, no field is empty.
-/

namespace TensorGrep
namespace Kernel

universe u

section JoinedFields

variable {α : Type u} {separator : α}

/-- Behind the last field that has a separator behind it there is nothing. -/
theorem splitOn_flatMap_concat
    [DecidableEq α]
    {fields : List (List α)}
    (h : ∀ field ∈ fields, separator ∉ field) :
    (fields.flatMap (· ++ [separator])).splitOn separator = fields ++ [[]] := by
  induction fields with
  | nil => rfl
  | cons field rest ih =>
      have hrest := ih fun later hlater => h later (List.mem_cons_of_mem field hlater)
      rw [List.flatMap_cons, List.append_assoc, List.singleton_append,
        List.splitOn_append_cons_self_of_not_mem (h field List.mem_cons_self), hrest,
        List.cons_append]

theorem intercalate_ne_nil
    {fields : List (List α)}
    (hfields : fields ≠ [])
    (hne : ∀ field ∈ fields, field ≠ []) :
    [separator].intercalate fields ≠ [] := by
  obtain ⟨field, rest, rfl⟩ := List.exists_cons_of_ne_nil hfields
  have hfirst := hne field List.mem_cons_self
  cases rest with
  | nil => rwa [List.intercalate_singleton]
  | cons second rest =>
      rw [List.intercalate_cons_cons]
      exact fun hnil => hfirst (List.append_eq_nil_iff.mp (List.append_eq_nil_iff.mp hnil).1).1

/-- Separators between fields that are not empty tell the rows apart. -/
theorem intercalate_eq_iff
    [DecidableEq α]
    {fields fields' : List (List α)}
    (h : ∀ field ∈ fields, field ≠ [] ∧ separator ∉ field)
    (h' : ∀ field ∈ fields', field ≠ [] ∧ separator ∉ field) :
    [separator].intercalate fields = [separator].intercalate fields' ↔ fields = fields' := by
  refine ⟨fun heq => ?_, fun heq => by rw [heq]⟩
  by_cases hnil : fields = []
  · by_contra hne
    refine intercalate_ne_nil (fun hnil' => hne (hnil.trans hnil'.symm))
      (fun field hfield => (h' field hfield).1) (heq.symm.trans ?_)
    rw [hnil, List.intercalate_nil]
  · have hnil' : fields' ≠ [] := by
      rintro rfl
      exact intercalate_ne_nil hnil (fun field hfield => (h field hfield).1)
        (heq.trans List.intercalate_nil)
    rw [← List.splitOn_intercalate separator (fun field hfield => (h field hfield).2) hnil, heq,
      List.splitOn_intercalate separator (fun field hfield => (h' field hfield).2) hnil']

/-- The fields with a separator behind each are longer by at most one separator. -/
theorem length_intercalate
    (fields : List (List α)) :
    ([separator].intercalate fields).length ≤ (fields.map fun field => field.length + 1).sum ∧
      (fields.map fun field => field.length + 1).sum ≤
        ([separator].intercalate fields).length + 1 := by
  induction fields with
  | nil => simp
  | cons field rest ih =>
      cases rest with
      | nil => simp
      | cons second rest =>
          rw [List.intercalate_cons_cons, List.map_cons, List.sum_cons, List.length_append,
            List.length_append, List.length_singleton]
          omega

end JoinedFields

end Kernel
end TensorGrep
