import Mathlib.Data.List.Perm.Subperm
import Mathlib.Data.List.Nodup

/-!
# Walks that stop at what they have seen

A walk follows links from an element to the next and stops where there is none
or where the key of an element has been seen; what it visits is appended to a
list.  Links may fork, run in circles or lead nowhere.

Within a domain that is closed under the links, a walk takes at most one step
more than the domain has elements.  Walks from all elements of the domain visit
every key exactly once, so they list the domain exactly when its keys are
distinct.
-/

namespace TensorGrep
namespace Kernel

universe u v

variable {α : Type u} {κ : Type v} [DecidableEq κ]

section Walk

variable (key : α → κ) (next : α → Option α)

/-- Follow the links from an element; `none` when the fuel does not suffice. -/
def followUnseen : Nat → Option α → List α → Option (List α)
  | _, none, visited => some visited
  | 0, some _, _ => none
  | fuel + 1, some a, visited =>
      if key a ∈ visited.map key then some visited
      else followUnseen fuel (next a) (visited ++ [a])

/-- Follow the links from each of some elements in turn. -/
def followAll (fuel : Nat) : List α → List α → Option (List α)
  | [], visited => some visited
  | a :: as, visited => (followUnseen key next fuel (some a) visited).bind (followAll fuel as)

end Walk

section Results

variable {key : α → κ} {next : α → Option α} {domain : List α} {visited visited' : List α}
  {fuel : Nat}

/-- What has been visited lies in the domain and has distinct keys. -/
structure WalkInv
    (key : α → κ)
    (domain visited : List α) : Prop where
  subset : ∀ a ∈ visited, a ∈ domain
  nodup : (visited.map key).Nodup

omit [DecidableEq κ] in
theorem WalkInv.length_le
    (h : WalkInv key domain visited) :
    visited.length ≤ domain.length := by
  have hsubset : visited.map key ⊆ domain.map key :=
    List.map_subset key h.subset
  have := (h.nodup.subperm hsubset).length_le
  rwa [List.length_map, List.length_map] at this

omit [DecidableEq κ] in
theorem WalkInv.append
    {a : α}
    (h : WalkInv key domain visited)
    (ha : a ∈ domain)
    (hunseen : key a ∉ visited.map key) :
    WalkInv key domain (visited ++ [a]) where
  subset := by
    intro b hb
    rcases List.mem_append.mp hb with hb | hb
    · exact h.subset b hb
    · rw [List.mem_singleton.mp hb]
      exact ha
  nodup := by
    rw [List.map_append, List.map_singleton]
    refine List.nodup_append.mpr ⟨h.nodup, List.nodup_singleton _, ?_⟩
    intro k hk k' hk' heq
    rw [List.mem_singleton.mp hk'] at heq
    exact hunseen (heq ▸ hk)

/-- A walk with enough fuel ends, keeps what was visited, and has seen where it started. -/
theorem followUnseen_spec
    (hclosed : ∀ a ∈ domain, ∀ b ∈ next a, b ∈ domain)
    (start : Option α)
    (hstart : ∀ a ∈ start, a ∈ domain)
    (hinv : WalkInv key domain visited)
    (hfuel : domain.length < fuel + visited.length) :
    ∃ visited', followUnseen key next fuel start visited = some visited' ∧
      WalkInv key domain visited' ∧ visited <+: visited' ∧
      ∀ a ∈ start, key a ∈ visited'.map key := by
  induction fuel generalizing start visited with
  | zero =>
      have := hinv.length_le
      omega
  | succ fuel ih =>
      cases start with
      | none => exact ⟨visited, rfl, hinv, List.prefix_refl _, by rintro a ⟨⟩⟩
      | some a =>
          rw [followUnseen]
          by_cases hseen : key a ∈ visited.map key
          · rw [if_pos hseen]
            exact ⟨visited, rfl, hinv, List.prefix_refl _, by rintro b ⟨⟩; exact hseen⟩
          · rw [if_neg hseen]
            have ha := hstart a rfl
            obtain ⟨visited', hwalk, hinv', hkeeps, -⟩ := ih (next a)
              (fun b hb => hclosed a ha b hb) (hinv.append ha hseen)
              (by rw [List.length_append, List.length_singleton]; omega)
            refine ⟨visited', hwalk, hinv', (List.prefix_append _ _).trans hkeeps, ?_⟩
            rintro b ⟨⟩
            exact List.mem_map_of_mem (hkeeps.subset (List.mem_append_right _
              (List.mem_singleton_self a)))

/-- So do walks from several elements. -/
theorem followAll_spec
    (hclosed : ∀ a ∈ domain, ∀ b ∈ next a, b ∈ domain)
    (starts : List α)
    (hstarts : ∀ a ∈ starts, a ∈ domain)
    (hinv : WalkInv key domain visited)
    (hfuel : domain.length < fuel) :
    ∃ visited', followAll key next fuel starts visited = some visited' ∧
      WalkInv key domain visited' ∧ visited <+: visited' ∧
      ∀ a ∈ starts, key a ∈ visited'.map key := by
  induction starts generalizing visited with
  | nil => exact ⟨visited, rfl, hinv, List.prefix_refl _, by rintro a ⟨⟩⟩
  | cons a as ih =>
      rw [List.forall_mem_cons] at hstarts
      obtain ⟨middle, hwalk, hmiddle, hfirst, hseen⟩ := followUnseen_spec hclosed (some a)
        (by rintro b ⟨⟩; exact hstarts.1) hinv (Nat.lt_add_right _ hfuel)
      obtain ⟨visited', hrest, hinv', hkeeps, hall⟩ := ih hstarts.2 hmiddle
      refine ⟨visited', ?_, hinv', hfirst.trans hkeeps, ?_⟩
      · rw [followAll, hwalk]
        exact hrest
      · rw [List.forall_mem_cons]
        exact ⟨List.map_subset key hkeeps.subset (hseen a rfl), hall⟩

omit [DecidableEq κ] in
/-- What has seen every key of the domain lists the domain exactly when the keys of the domain
are distinct; otherwise it is shorter. -/
theorem WalkInv.perm_iff
    (h : WalkInv key domain visited)
    (hall : ∀ a ∈ domain, key a ∈ visited.map key) :
    visited.Perm domain ↔ (domain.map key).Nodup := by
  constructor
  · intro hperm
    exact (hperm.map key).nodup_iff.mp h.nodup
  · intro hdistinct
    refine (List.perm_ext_iff_of_nodup h.nodup.of_map hdistinct.of_map).mpr ?_
    intro a
    refine ⟨h.subset a, ?_⟩
    intro ha
    obtain ⟨b, hb, hkey⟩ := List.mem_map.mp (hall a ha)
    rwa [← List.inj_on_of_nodup_map hdistinct (h.subset b hb) ha hkey]

omit [DecidableEq κ] in
theorem WalkInv.length_eq_iff
    (h : WalkInv key domain visited)
    (hall : ∀ a ∈ domain, key a ∈ visited.map key) :
    visited.length = domain.length ↔ (domain.map key).Nodup := by
  constructor
  · intro hlength
    have hsubset : visited.map key ⊆ domain.map key := List.map_subset key h.subset
    have hperm := (h.nodup.subperm hsubset).perm_of_length_le
      (Nat.le_of_eq (by rw [List.length_map, List.length_map, hlength]))
    exact hperm.nodup_iff.mp h.nodup
  · intro hdistinct
    exact ((h.perm_iff hall).mpr hdistinct).length_eq

end Results

end Kernel
end TensorGrep
