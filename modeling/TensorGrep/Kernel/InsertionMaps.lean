import Mathlib.Tactic

/-!
# Maps in the order of insertion

A map that remembers the order in which its keys came: giving a key a value changes
the entry of the key, or adds one at the end.  Two uses of it are groups, where a
value is added to the list of its key, and plain assignment, where a later value
replaces an earlier one.
-/

namespace TensorGrep
namespace Kernel

universe u v

section InsertionMaps

variable {κ : Type u} {β : Type v} [DecidableEq κ]

/-- Change the value of a key; a new key comes last. -/
@[grind] def upsert
    (k : κ)
    (f : Option β → β) : List (κ × β) → List (κ × β)
  | [] => [(k, f none)]
  | e :: m => if e.1 = k then (k, f (some e.2)) :: m else e :: upsert k f m

/-- An entry of another key is left alone. -/
theorem mem_upsert_of_ne
    {k : κ}
    {f : Option β → β}
    {m : List (κ × β)}
    {e : κ × β}
    (h : e.1 ≠ k) :
    e ∈ upsert k f m ↔ e ∈ m := by
  induction m with
  | nil =>
      simp only [upsert, List.mem_singleton, List.not_mem_nil, iff_false]
      rintro rfl
      exact h rfl
  | cons first m ih =>
      rw [upsert]
      split
      case isTrue hfirst =>
          have hne : e ≠ (k, f (some first.2)) := fun heq => h (heq ▸ rfl)
          have hne' : e ≠ first := fun heq => h (heq ▸ hfirst)
          simp only [List.mem_cons, hne, hne', false_or]
      case isFalse => rw [List.mem_cons, ih, List.mem_cons]

/-- The entry of the key has the new value. -/
theorem mem_upsert_self
    {k : κ}
    {f : Option β → β}
    {m : List (κ × β)}
    (hnodup : (m.map Prod.fst).Nodup)
    {b : β} :
    (k, b) ∈ upsert k f m ↔
      (∃ old, (k, old) ∈ m ∧ b = f (some old)) ∨ k ∉ m.map Prod.fst ∧ b = f none := by
  induction m with
  | nil => simp [upsert]
  | cons first m ih =>
      obtain ⟨hfirst, hrest⟩ := List.nodup_cons.mp hnodup
      obtain ⟨k', old⟩ := first
      dsimp only at hfirst
      rw [upsert]
      dsimp only
      split
      case isTrue heq =>
          subst heq
          have hnone : ∀ b, (k', b) ∉ m := fun b hb => hfirst (List.mem_map.mpr ⟨_, hb, rfl⟩)
          simp only [List.mem_cons, Prod.mk.injEq, true_and, hnone, or_false, List.map_cons,
            true_or, not_true_eq_false, false_and, exists_eq_left]
      case isFalse hne =>
          have hne' : k ≠ k' := fun heq => hne heq.symm
          simp only [List.mem_cons, Prod.mk.injEq, hne', false_and, false_or, ih hrest,
            List.map_cons]

/-- The keys afterwards. -/
theorem map_fst_upsert
    (k : κ)
    (f : Option β → β)
    (m : List (κ × β)) :
    (upsert k f m).map Prod.fst =
      if k ∈ m.map Prod.fst then m.map Prod.fst else m.map Prod.fst ++ [k] := by
  induction m with
  | nil => rfl
  | cons first m ih =>
      rw [upsert]
      split
      case isTrue hfirst => simp [hfirst]
      case isFalse hfirst =>
          have hne : k ≠ first.1 := fun heq => hfirst heq.symm
          rw [List.map_cons, ih, List.map_cons]
          simp only [List.mem_cons, hne, false_or]
          split
          case isTrue => rfl
          case isFalse => rfl

/-- Keys stay distinct. -/
theorem nodup_upsert
    {m : List (κ × β)}
    (h : (m.map Prod.fst).Nodup)
    (k : κ)
    (f : Option β → β) :
    ((upsert k f m).map Prod.fst).Nodup := by
  rw [map_fst_upsert]
  split
  case isTrue => exact h
  case isFalse hnew =>
      rw [← List.concat_eq_append]
      exact h.concat hnew

/-- A new key comes last. -/
theorem upsert_of_not_mem
    {k : κ}
    {m : List (κ × β)}
    (h : k ∉ m.map Prod.fst)
    (f : Option β → β) :
    upsert k f m = m ++ [(k, f none)] := by
  induction m with
  | nil => rfl
  | cons first m ih =>
      rw [List.map_cons, List.mem_cons, not_or] at h
      rw [upsert, if_neg (Ne.symm h.1), ih h.2, List.cons_append]

/-- The value of the key, and of every other one. -/
theorem lookup_upsert
    (k : κ)
    (f : Option β → β)
    (m : List (κ × β))
    (k' : κ) :
    (upsert k f m).lookup k' = if k' = k then some (f (m.lookup k)) else m.lookup k' := by
  induction m with
  | nil =>
      by_cases heq : k' = k
      · simp [upsert, heq]
      · have hne : (k' == k) = false := beq_false_of_ne heq
        rw [upsert, List.lookup_cons, hne, if_neg heq]
  | cons first m ih =>
      obtain ⟨key, old⟩ := first
      rw [upsert]
      dsimp only
      by_cases hfirst : key = k
      · subst hfirst
        rw [if_pos rfl]
        by_cases heq : k' = key
        · subst heq
          simp
        · have hne : (k' == key) = false := beq_false_of_ne heq
          rw [List.lookup_cons, hne, if_neg heq, List.lookup_cons, hne]
      · rw [if_neg hfirst, List.lookup_cons, List.lookup_cons, ih]
        by_cases heq : k' = key
        · subst heq
          simp [hfirst]
        · have hne : (k' == key) = false := beq_false_of_ne heq
          have hne' : (k == key) = false := beq_false_of_ne fun h => hfirst h.symm
          rw [List.lookup_cons, hne, hne']

/-- Among distinct keys an entry is what its key finds. -/
theorem lookup_of_mem
    {m : List (κ × β)}
    (hnodup : (m.map Prod.fst).Nodup)
    {e : κ × β}
    (h : e ∈ m) :
    m.lookup e.1 = some e.2 := by
  induction m with
  | nil => cases h
  | cons first m ih =>
      obtain ⟨hfirst, hrest⟩ := List.nodup_cons.mp hnodup
      rw [List.lookup_cons]
      rcases List.mem_cons.mp h with rfl | hmem
      · rw [beq_self_eq_true]
      · have hne : (e.1 == first.1) = false := by
          refine beq_false_of_ne fun heq => hfirst ?_
          rw [← heq]
          exact List.mem_map_of_mem hmem
        rw [hne]
        exact ih hrest hmem

/-- Keys that are there already do not come again. -/
theorem map_fst_foldl_upsert
    {f : κ → Option β → β}
    {l : List κ}
    {m : List (κ × β)}
    (h : ∀ k ∈ l, k ∈ m.map Prod.fst) :
    (l.foldl (fun m k => upsert k (f k) m) m).map Prod.fst = m.map Prod.fst := by
  induction l generalizing m with
  | nil => rfl
  | cons k l ih =>
      have hsame : (upsert k (f k) m).map Prod.fst = m.map Prod.fst := by
        rw [map_fst_upsert, if_pos (h k List.mem_cons_self)]
      rw [List.foldl_cons, ih fun k' hk' => hsame ▸ h k' (List.mem_cons_of_mem _ hk'), hsame]

/-! ## Assignments -/

/-- Assign values to keys, one after the other. -/
def assign
    (m es : List (κ × β)) : List (κ × β) :=
  es.foldl (fun m e => upsert e.1 (fun _ => e.2) m) m

theorem mem_map_fst_assign
    {m es : List (κ × β)}
    {k : κ} :
    k ∈ (assign m es).map Prod.fst ↔ k ∈ m.map Prod.fst ∨ k ∈ es.map Prod.fst := by
  induction es generalizing m with
  | nil => simp [assign]
  | cons e es ih =>
      have hone : k ∈ (upsert e.1 (fun _ => e.2) m).map Prod.fst ↔
          k ∈ m.map Prod.fst ∨ k = e.1 := by
        rw [map_fst_upsert]
        split
        case isTrue hmem =>
            constructor
            · exact Or.inl
            · rintro (h | rfl)
              · exact h
              · exact hmem
        case isFalse => rw [List.mem_append, List.mem_singleton]
      rw [assign, List.foldl_cons]
      rw [← assign, ih, hone, List.map_cons, List.mem_cons, or_assoc]

theorem nodup_assign
    {m es : List (κ × β)}
    (h : (m.map Prod.fst).Nodup) :
    ((assign m es).map Prod.fst).Nodup := by
  induction es generalizing m with
  | nil => exact h
  | cons e es ih => exact ih (nodup_upsert h _ _)

/-- Assignments to distinct keys are the entries. -/
theorem assign_of_nodup
    {m es : List (κ × β)}
    (h : ((m ++ es).map Prod.fst).Nodup) :
    assign m es = m ++ es := by
  induction es generalizing m with
  | nil => exact (List.append_nil m).symm
  | cons e es ih =>
      have hnew : e.1 ∉ m.map Prod.fst := by
        rw [List.map_append, List.map_cons, List.nodup_append] at h
        exact fun hmem => h.2.2 _ hmem _ List.mem_cons_self rfl
      rw [← List.singleton_append, ← List.append_assoc] at h
      rw [assign, List.foldl_cons, upsert_of_not_mem hnew, ← assign, ih h]
      simp

/-- There are as many entries as keys were assigned to. -/
theorem length_assign
    (es : List (κ × β)) :
    (assign [] es).length = (es.map Prod.fst).toFinset.card := by
  have hnodup : ((assign [] es).map Prod.fst).Nodup := nodup_assign List.nodup_nil
  rw [← List.length_map Prod.fst, ← List.toFinset_card_of_nodup hnodup]
  congr 1
  ext k
  rw [List.mem_toFinset, List.mem_toFinset, mem_map_fst_assign]
  simp

theorem length_assign_le
    (es : List (κ × β)) :
    (assign [] es).length ≤ es.length := by
  rw [length_assign]
  exact (List.toFinset_card_le _).trans_eq (List.length_map _)

/-- No entry replaces another if and only if the keys are distinct. -/
theorem length_assign_eq_iff
    {es : List (κ × β)} :
    (assign [] es).length = es.length ↔ (es.map Prod.fst).Nodup := by
  rw [length_assign]
  constructor
  · intro h
    refine Multiset.coe_nodup.mp (Multiset.toFinset_card_eq_card_iff_nodup.mp ?_)
    rw [Multiset.coe_card, List.length_map]
    exact h
  · intro h
    rw [List.toFinset_card_of_nodup h, List.length_map]

end InsertionMaps

/-! ## Groups -/

section Groups

variable {α : Type u} {κ : Type v} [DecidableEq κ]

/-- Add a value to the group of a key. -/
def addToGroup
    (k : κ)
    (a : α)
    (groups : List (κ × List α)) : List (κ × List α) :=
  upsert k (fun old => old.getD [] ++ [a]) groups

/-- The elements of a list by key. -/
def groupsBy
    (key : α → κ)
    (l : List α) : List (κ × List α) :=
  l.foldl (fun groups a => addToGroup (key a) a groups) []

/-- The groups of what was read so far. -/
structure GroupsOf
    (key : α → κ)
    (l : List α)
    (groups : List (κ × List α)) : Prop where
  nodup : (groups.map Prod.fst).Nodup
  mem_iff : ∀ k vs, (k, vs) ∈ groups ↔ vs = l.filter (fun a => key a = k) ∧ vs ≠ []

/-- One more element. -/
theorem GroupsOf.add
    {key : α → κ}
    {l : List α}
    {groups : List (κ × List α)}
    (h : GroupsOf key l groups)
    (a : α) :
    GroupsOf key (l ++ [a]) (addToGroup (key a) a groups) := by
  refine ⟨nodup_upsert h.nodup _ _, fun k vs => ?_⟩
  rw [List.filter_append]
  by_cases hk : k = key a
  · subst hk
    have hmem : key a ∈ groups.map Prod.fst ↔ l.filter (fun b => key b = key a) ≠ [] := by
      constructor
      · intro hmem
        obtain ⟨⟨k, vs⟩, hgroup, rfl⟩ := List.mem_map.mp hmem
        obtain ⟨hvs, hne⟩ := (h.mem_iff _ _).mp hgroup
        exact hvs ▸ hne
      · intro hne
        exact List.mem_map.mpr ⟨_, (h.mem_iff _ _).mpr ⟨rfl, hne⟩, rfl⟩
    rw [addToGroup, mem_upsert_self h.nodup, hmem]
    simp only [h.mem_iff, List.filter_cons, decide_true, if_true, List.filter_nil,
      Option.getD_some, Option.getD_none, List.nil_append]
    constructor
    · rintro (⟨old, ⟨rfl, -⟩, rfl⟩ | ⟨hnil, rfl⟩)
      · exact ⟨rfl, by simp⟩
      · rw [not_not.mp hnil]
        exact ⟨rfl, by simp⟩
    · rintro ⟨rfl, -⟩
      by_cases hnil : l.filter (fun b => key b = key a) = []
      · exact Or.inr ⟨not_not.mpr hnil, by rw [hnil, List.nil_append]⟩
      · exact Or.inl ⟨_, ⟨rfl, hnil⟩, rfl⟩
  · have hother : [a].filter (fun b => key b = k) = [] := by
      simp [Ne.symm hk]
    rw [addToGroup, mem_upsert_of_ne hk, h.mem_iff, hother, List.append_nil]

/-- The groups of a list are its elements of each key, in order. -/
theorem groupsOf_groupsBy
    (key : α → κ)
    (l : List α) :
    GroupsOf key l (groupsBy key l) := by
  have hfold : ∀ (rest done : List α) (groups : List (κ × List α)), GroupsOf key done groups →
      GroupsOf key (done ++ rest)
        (rest.foldl (fun groups a => addToGroup (key a) a groups) groups) := by
    intro rest
    induction rest with
    | nil =>
        intro done groups h
        rwa [List.append_nil]
    | cons a rest ih =>
        intro done groups h
        rw [List.foldl_cons, show done ++ a :: rest = done ++ [a] ++ rest by simp]
        exact ih _ _ (h.add a)
  exact hfold l [] [] ⟨List.nodup_nil, by simp⟩

end Groups

end Kernel
end TensorGrep
