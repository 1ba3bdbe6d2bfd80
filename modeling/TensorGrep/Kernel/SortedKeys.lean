import Mathlib.Data.List.Sort
import Mathlib.Data.List.Destutter

/-!
# Sorting by a key and removing adjacent duplicates

"Sort by key, then drop elements whose key equals the previous one" turns a
list into the strictly sorted list of its elements.  When the key is injective
the result depends on the set of elements only, so two lists with the same
elements are normalised to the same list.
-/

namespace TensorGrep
namespace Kernel

universe u v

variable {α : Type u} {κ : Type v} [LinearOrder κ]

/-- Sort by a key. -/
def sortByKey
    (key : α → κ)
    (l : List α) : List α :=
  l.insertionSort (fun a b => key a ≤ key b)

/-- Drop every element whose key is that of the element kept before it. -/
def dedupByKey
    (key : α → κ)
    (l : List α) : List α :=
  l.destutter (fun a b => key a ≠ key b)

/-- Sort by a key, then drop adjacent duplicates. -/
def sortDedup
    (key : α → κ)
    (l : List α) : List α :=
  dedupByKey key (sortByKey key l)

@[simp] theorem mem_sortByKey
    {key : α → κ}
    {l : List α}
    {x : α} :
    x ∈ sortByKey key l ↔ x ∈ l :=
  List.mem_insertionSort _

theorem perm_sortByKey
    (key : α → κ)
    (l : List α) :
    (sortByKey key l).Perm l :=
  List.perm_insertionSort _ l

theorem pairwise_sortByKey
    (key : α → κ)
    (l : List α) :
    (sortByKey key l).Pairwise (fun a b => key a ≤ key b) := by
  have htotal : Std.Total (fun a b : α => key a ≤ key b) :=
    ⟨fun a b => le_total (key a) (key b)⟩
  have htrans : IsTrans α (fun a b : α => key a ≤ key b) :=
    ⟨fun _ _ _ => le_trans⟩
  exact List.pairwise_insertionSort _ l

/-- Where the key tells the elements apart, sorting forgets the order of its input. -/
theorem sortByKey_eq_of_perm_of_injOn
    {key : α → κ}
    {l₁ l₂ : List α}
    (hkey : ∀ a ∈ l₁, ∀ b ∈ l₁, key a = key b → a = b)
    (h : l₁.Perm l₂) :
    sortByKey key l₁ = sortByKey key l₂ := by
  refine List.Perm.eq_of_pairwise ?_ (pairwise_sortByKey key l₁)
    (pairwise_sortByKey key l₂) ?_
  · intro a b ha hb hab hba
    refine hkey a (mem_sortByKey.mp ha) b ?_ (le_antisymm hab hba)
    exact h.mem_iff.mpr (mem_sortByKey.mp hb)
  · exact (perm_sortByKey key l₁).trans (h.trans (perm_sortByKey key l₂).symm)

/-- With an injective key, sorting forgets the order of its input. -/
theorem sortByKey_eq_of_perm
    {key : α → κ}
    (hkey : Function.Injective key)
    {l₁ l₂ : List α}
    (h : l₁.Perm l₂) :
    sortByKey key l₁ = sortByKey key l₂ :=
  sortByKey_eq_of_perm_of_injOn (fun _ _ _ _ hab => hkey hab) h

/-- What is inserted before a key that is not smaller stands before it. -/
theorem orderedInsert_append_cons
    {key : α → κ}
    {x a : α}
    {before after : List α}
    (h : key x ≤ key a) :
    ∃ before', List.orderedInsert (fun a b => key a ≤ key b) x (before ++ a :: after) =
        before' ++ a :: after ∧ ∀ b ∈ before', b = x ∨ b ∈ before := by
  induction before with
  | nil =>
      refine ⟨[x], ?_, by simp⟩
      rw [List.nil_append, List.orderedInsert_cons, if_pos h]
      rfl
  | cons b before ih =>
      rw [List.cons_append, List.orderedInsert_cons]
      by_cases hb : key x ≤ key b
      · rw [if_pos hb]
        exact ⟨x :: b :: before, rfl, by simp⟩
      · obtain ⟨before', heq, hmem⟩ := ih
        rw [if_neg hb, heq]
        refine ⟨b :: before', rfl, ?_⟩
        intro c hc
        rcases List.mem_cons.mp hc with rfl | hc
        · exact Or.inr List.mem_cons_self
        · exact (hmem c hc).imp_right (List.mem_cons_of_mem _)

/-- What is inserted after smaller keys stands after them. -/
theorem orderedInsert_append_of_lt
    {key : α → κ}
    {x : α}
    {before after : List α}
    (h : ∀ b ∈ before, key b < key x) :
    List.orderedInsert (fun a b => key a ≤ key b) x (before ++ after) =
      before ++ List.orderedInsert (fun a b => key a ≤ key b) x after := by
  induction before with
  | nil => rfl
  | cons b before ih =>
      rw [List.cons_append, List.orderedInsert_cons,
        if_neg (not_le.mpr (h b List.mem_cons_self)),
        ih fun c hc => h c (List.mem_cons_of_mem b hc)]
      rfl

/-- The elements with a greater key. -/
def afterKey
    (key : α → κ)
    (a : α)
    (l : List α) : List α :=
  l.filter fun x => key a < key x

theorem afterKey_cons
    (key : α → κ)
    (a x : α)
    (l : List α) :
    afterKey key a (x :: l) =
      if key a < key x then x :: afterKey key a l else afterKey key a l := by
  rw [afterKey, List.filter_cons, afterKey]
  simp only [decide_eq_true_eq]

theorem not_mem_afterKey
    (key : α → κ)
    (a : α)
    (l : List α) :
    a ∉ afterKey key a l := by
  intro hmem
  exact lt_irrefl _ (of_decide_eq_true (List.mem_filter.mp hmem).2)

/-- Sorting is stable: after the last element of a list come those with a greater key. -/
theorem sortByKey_concat
    (key : α → κ)
    (l : List α)
    (a : α) :
    ∃ before, sortByKey key (l ++ [a]) =
        before ++ a :: sortByKey key (afterKey key a l) ∧
      ∀ b ∈ before, key b ≤ key a := by
  induction l with
  | nil => exact ⟨[], rfl, by simp⟩
  | cons x l ih =>
      obtain ⟨before, heq, hbefore⟩ := ih
      rw [List.cons_append, sortByKey, List.insertionSort_cons, ← sortByKey, heq]
      by_cases hx : key x ≤ key a
      · obtain ⟨before', heq', hmem⟩ := @orderedInsert_append_cons _ _ _ key x a before
          (sortByKey key (afterKey key a l)) hx
        rw [heq', afterKey_cons, if_neg (not_lt.mpr hx)]
        refine ⟨before', rfl, ?_⟩
        intro b hb
        rcases hmem b hb with rfl | hb
        · exact hx
        · exact hbefore b hb
      · have hlt : key a < key x := not_le.mp hx
        have hall : ∀ b ∈ before ++ [a], key b < key x := by
          intro b hb
          rcases List.mem_append.mp hb with hb | hb
          · exact lt_of_le_of_lt (hbefore b hb) hlt
          · rwa [List.mem_singleton.mp hb]
        rw [List.append_cons, orderedInsert_append_of_lt hall, afterKey_cons, if_pos hlt]
        refine ⟨before, ?_, hbefore⟩
        rw [List.append_assoc]
        rfl

/-- Kept elements carry every key of the list. -/
theorem mem_destutter'_of_key
    {key : α → κ}
    (hkey : Function.Injective key)
    {l : List α}
    {a x : α} :
    x ∈ l.destutter' (fun a b => key a ≠ key b) a ↔ x = a ∨ x ∈ l := by
  induction l generalizing a with
  | nil =>
      simp
  | cons b l ih =>
      rw [List.destutter'_cons]
      by_cases h : key a ≠ key b
      · rw [if_pos h, List.mem_cons, ih, List.mem_cons]
      · rw [if_neg h, ih, List.mem_cons]
        have hab : a = b := hkey (not_not.mp h)
        subst hab
        tauto

theorem mem_dedupByKey
    {key : α → κ}
    (hkey : Function.Injective key)
    {l : List α}
    {x : α} :
    x ∈ dedupByKey key l ↔ x ∈ l := by
  cases l with
  | nil => rfl
  | cons a l =>
      unfold dedupByKey
      rw [List.destutter_cons', mem_destutter'_of_key hkey, List.mem_cons]

@[simp] theorem sortDedup_nil
    (key : α → κ) :
    sortDedup key [] = [] := rfl

/-- Normalising keeps exactly the elements of the list. -/
theorem mem_sortDedup
    {key : α → κ}
    (hkey : Function.Injective key)
    {l : List α}
    {x : α} :
    x ∈ sortDedup key l ↔ x ∈ l := by
  unfold sortDedup
  rw [mem_dedupByKey hkey, mem_sortByKey]

/-- On a sorted list, dropping adjacent duplicates leaves strictly growing keys. -/
theorem pairwise_dedupByKey
    {key : α → κ}
    {l : List α}
    (h : l.Pairwise (fun a b => key a ≤ key b)) :
    (dedupByKey key l).Pairwise (fun a b => key a < key b) := by
  have hle : (dedupByKey key l).Pairwise (fun a b => key a ≤ key b) :=
    h.sublist (List.destutter_sublist _ l)
  have hchain : (dedupByKey key l).IsChain (fun a b => key a ≠ key b) :=
    List.isChain_destutter _ l
  have hlt : (dedupByKey key l).IsChain (fun a b => key a < key b) := by
    rw [List.isChain_iff_getElem] at hchain ⊢
    intro i hi
    exact lt_of_le_of_ne
      (List.pairwise_iff_getElem.mp hle i (i + 1) (by omega) hi (by omega))
      (hchain i hi)
  have htrans : IsTrans α (fun a b => key a < key b) :=
    ⟨fun _ _ _ => lt_trans⟩
  exact hlt.pairwise

/-- The normalised list is strictly sorted. -/
theorem pairwise_sortDedup
    (key : α → κ)
    (l : List α) :
    (sortDedup key l).Pairwise (fun a b => key a < key b) :=
  pairwise_dedupByKey (pairwise_sortByKey key l)

theorem nodup_of_pairwise_key_lt
    {key : α → κ}
    {l : List α}
    (h : l.Pairwise (fun a b => key a < key b)) :
    l.Nodup :=
  h.imp (fun hab heq => absurd (congrArg key heq) (ne_of_lt hab))

/-- Normalising the empty list only yields the empty list. -/
theorem sortDedup_eq_nil_iff
    {key : α → κ}
    (hkey : Function.Injective key)
    {l : List α} :
    sortDedup key l = [] ↔ l = [] := by
  constructor
  · intro h
    rw [List.eq_nil_iff_forall_not_mem]
    intro x hx
    have := (mem_sortDedup hkey).mpr hx
    rw [h] at this
    cases this
  · rintro rfl
    rfl

/-- Strictly sorted lists with the same elements are equal. -/
theorem eq_of_pairwise_key_lt
    {key : α → κ}
    {l₁ l₂ : List α}
    (h₁ : l₁.Pairwise (fun a b => key a < key b))
    (h₂ : l₂.Pairwise (fun a b => key a < key b))
    (h : ∀ x, x ∈ l₁ ↔ x ∈ l₂) :
    l₁ = l₂ := by
  have hirrefl : Std.Irrefl (fun a b : α => key a < key b) :=
    ⟨fun a => lt_irrefl (key a)⟩
  have hanti : Std.Antisymm (fun a b : α => key a < key b) :=
    ⟨fun a b hab hba => absurd hab (lt_asymm hba)⟩
  exact List.Pairwise.eq_of_mem_iff h₁ h₂ h

/-- Sorting is stable: what a filter keeps stays in the same order. -/
theorem filter_orderedInsert
    {key : α → κ}
    {p : α → Bool}
    {l : List α}
    (a : α)
    (h : l.Pairwise (fun a b => key a ≤ key b)) :
    (l.orderedInsert (fun a b => key a ≤ key b) a).filter p =
      if p a then (l.filter p).orderedInsert (fun a b => key a ≤ key b) a
      else l.filter p := by
  induction l with
  | nil => by_cases hp : p a <;> simp [hp]
  | cons b l ih =>
      obtain ⟨hb, hl⟩ := List.pairwise_cons.mp h
      rw [List.orderedInsert_cons]
      by_cases hab : key a ≤ key b
      · rw [if_pos hab, List.filter_cons]
        by_cases hp : p a = true
        · rw [if_pos hp, if_pos hp]
          -- everything the filter keeps comes after `a`
          have hafter : ∀ c ∈ (b :: l).filter p, key a ≤ key c := by
            intro c hc
            rcases List.mem_cons.mp (List.mem_filter.mp hc).1 with rfl | hc
            · exact hab
            · exact hab.trans (hb c hc)
          cases hrest : (b :: l).filter p with
          | nil => rfl
          | cons c rest =>
              have hc : key a ≤ key c := hafter c (by rw [hrest]; exact List.mem_cons_self)
              rw [List.orderedInsert_cons, if_pos hc]
        · rw [if_neg hp, if_neg hp]
      · rw [if_neg hab, List.filter_cons, List.filter_cons, ih hl]
        by_cases hpb : p b = true
        · rw [if_pos hpb, if_pos hpb, List.orderedInsert_cons, if_neg hab]
          by_cases hp : p a = true
          · rw [if_pos hp, if_pos hp]
          · rw [if_neg hp, if_neg hp]
        · rw [if_neg hpb, if_neg hpb]

theorem filter_sortByKey
    (key : α → κ)
    (p : α → Bool)
    (l : List α) :
    (sortByKey key l).filter p = sortByKey key (l.filter p) := by
  induction l with
  | nil => rfl
  | cons a l ih =>
      have hstep : sortByKey key (a :: l) =
          (sortByKey key l).orderedInsert (fun a b => key a ≤ key b) a := rfl
      rw [hstep, filter_orderedInsert a (pairwise_sortByKey key l), ih, List.filter_cons]
      by_cases hp : p a = true
      · rw [if_pos hp, if_pos hp]
        rfl
      · rw [if_neg hp, if_neg hp]

/-- What is inserted before equal keys keeps them in order. -/
theorem pairwise_ties_orderedInsert
    {key : α → κ}
    {R : α → α → Prop}
    {x : α}
    {l : List α}
    (hx : ∀ b ∈ l, key x = key b → R x b)
    (h : l.Pairwise fun a b => key a = key b → R a b) :
    (l.orderedInsert (fun a b => key a ≤ key b) x).Pairwise fun a b => key a = key b → R a b := by
  induction l with
  | nil => exact List.pairwise_singleton _ _
  | cons b l ih =>
      obtain ⟨hb, hl⟩ := List.pairwise_cons.mp h
      rw [List.orderedInsert_cons]
      by_cases hle : key x ≤ key b
      · rw [if_pos hle]
        exact List.pairwise_cons.mpr ⟨hx, h⟩
      · rw [if_neg hle]
        refine List.pairwise_cons.mpr ⟨?_, ih (fun c hc => hx c (List.mem_cons_of_mem b hc)) hl⟩
        intro c hc htie
        rcases (List.mem_orderedInsert _).mp hc with rfl | hc
        · exact absurd htie.ge hle
        · exact hb c hc htie

/-- Sorting is stable: what holds between elements with equal keys, in their order, holds in the
sorted list. -/
theorem pairwise_ties_sortByKey
    {key : α → κ}
    {R : α → α → Prop}
    {l : List α}
    (h : l.Pairwise fun a b => key a = key b → R a b) :
    (sortByKey key l).Pairwise fun a b => key a = key b → R a b := by
  induction l with
  | nil => exact List.Pairwise.nil
  | cons a l ih =>
      obtain ⟨ha, hl⟩ := List.pairwise_cons.mp h
      exact pairwise_ties_orderedInsert (fun b hb => ha b (mem_sortByKey.mp hb)) (ih hl)

/-- Among distinct keys, what belongs to one of them is found once. -/
theorem flatMap_ite_eq
    {l : List κ}
    (hnodup : l.Nodup)
    (k : κ)
    (xs : List α) :
    (l.flatMap fun a => if a = k then xs else []) = if k ∈ l then xs else [] := by
  induction l with
  | nil => rfl
  | cons a l ih =>
      obtain ⟨hfresh, hrest⟩ := List.nodup_cons.mp hnodup
      rw [List.flatMap_cons, ih hrest]
      by_cases hak : a = k
      · subst hak
        rw [if_pos rfl, if_neg hfresh, if_pos List.mem_cons_self, List.append_nil]
      · have hmem : k ∈ a :: l ↔ k ∈ l := by
          rw [List.mem_cons, or_iff_right (fun h => hak h.symm)]
        rw [if_neg hak, List.nil_append, if_congr hmem rfl rfl]

/-- Taking the elements of one key after another only changes their order. -/
theorem perm_flatMap_filter_key
    {key : α → κ}
    {keys : List κ}
    (hnodup : keys.Nodup)
    {l : List α}
    (hkeys : ∀ a ∈ l, key a ∈ keys) :
    (keys.flatMap fun k => l.filter (fun a => key a = k)).Perm l := by
  induction l with
  | nil =>
      have hnone : (keys.flatMap fun k => ([] : List α).filter (fun a => key a = k)) = [] := by
        rw [List.flatMap_eq_nil_iff]
        exact fun _ _ => rfl
      rw [hnone]
  | cons a l ih =>
      have ih' := ih (fun b hb => hkeys b (List.mem_cons_of_mem a hb))
      obtain ⟨before, after, rfl⟩ := List.append_of_mem (hkeys a List.mem_cons_self)
      have hfresh : key a ∉ before ++ after :=
        (List.nodup_cons.mp (List.nodup_middle.mp hnodup)).1
      -- the element goes with its own key and with no other one
      have hother : ∀ ks : List κ, key a ∉ ks →
          (ks.flatMap fun k => (a :: l).filter (fun b => key b = k)) =
            ks.flatMap fun k => l.filter (fun b => key b = k) := by
        intro ks hks
        refine List.flatMap_congr ?_
        intro k hk
        have hne : key a ≠ k := fun heq => hks (heq ▸ hk)
        rw [List.filter_cons_of_neg (by simpa using hne)]
      rw [List.mem_append, not_or] at hfresh
      rw [List.flatMap_append, List.flatMap_cons] at ih' ⊢
      rw [hother before hfresh.1, hother after hfresh.2, List.filter_cons_of_pos (by simp),
        List.cons_append]
      exact List.perm_middle.trans (ih'.cons a)

/-- In a sorted list, the elements before a key are those at the front. -/
theorem length_takeWhile_of_pairwise
    {key : α → κ}
    {l : List α}
    {k : κ}
    (h : l.Pairwise (fun a b => key a ≤ key b)) :
    (l.takeWhile (fun b => key b < k)).length = l.countP (fun b => key b < k) := by
  induction l with
  | nil => rfl
  | cons b l ih =>
      obtain ⟨hb, hl⟩ := List.pairwise_cons.mp h
      by_cases hlt : key b < k
      · rw [List.takeWhile_cons_of_pos (by simpa using hlt),
          List.countP_cons_of_pos (by simpa using hlt), List.length_cons, ih hl]
      · rw [List.takeWhile_cons_of_neg (by simpa using hlt),
          List.countP_cons_of_neg (by simpa using hlt), List.length_nil, eq_comm,
          List.countP_eq_zero]
        intro c hc
        simpa using (not_lt.mp hlt).trans (hb c hc)

/-- The first element of a list is among the first `n` of the sorted list exactly when fewer
than `n` others have a smaller key. -/
theorem head_mem_take_sortByKey
    {key : α → κ}
    {l : List α}
    {a : α}
    {n : Nat} :
    a ∈ (sortByKey key (a :: l)).take n ↔ l.countP (fun b => key b < key a) < n := by
  have hsplit : sortByKey key (a :: l) =
      (sortByKey key l).takeWhile (fun b => key b < key a) ++
        a :: (sortByKey key l).dropWhile (fun b => key b < key a) := by
    rw [sortByKey, List.insertionSort_cons, List.orderedInsert_eq_take_drop]
    simp only [not_le, sortByKey]
  have hlength := length_takeWhile_of_pairwise (k := key a) (pairwise_sortByKey key l)
  rw [(perm_sortByKey key l).countP_eq] at hlength
  rw [hsplit, ← hlength]
  constructor
  · intro hmem
    by_contra hle
    rw [List.take_append_of_le_length (not_lt.mp hle)] at hmem
    have := List.all_eq_true.mp List.all_takeWhile a (List.mem_of_mem_take hmem)
    simp at this
  · intro hlt
    obtain ⟨m, hm⟩ := Nat.exists_eq_add_of_lt hlt
    rw [hm, List.take_append, List.mem_append]
    right
    rw [Nat.add_assoc, Nat.add_sub_cancel_left, List.take_succ_cons]
    exact List.mem_cons_self

/-- From every list one element can be taken for each value of a function. -/
theorem exists_sublist_distinct
    {β : Type*}
    [DecidableEq β]
    (f : α → β)
    (l : List α) :
    ∃ chosen : List α, chosen.Sublist l ∧ (chosen.map f).Nodup ∧
      chosen.length = (l.map f).dedup.length := by
  refine ⟨l.pwFilter (fun a b => f a ≠ f b), List.pwFilter_sublist l, ?_, ?_⟩
  · rw [List.Nodup, List.pairwise_map]
    exact List.pairwise_pwFilter l
  · rw [List.dedup, List.pwFilter_map, List.length_map]

end Kernel
end TensorGrep
