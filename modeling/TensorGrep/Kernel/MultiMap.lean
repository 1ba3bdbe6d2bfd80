import Mathlib.Data.List.AList

/-!
# Maps from keys to lists

A hash map of growable lists, filled by "find or create the entry, then push".
It is represented by an association list with distinct keys; the iteration
order of the map is the order of its entries, on which no lookup depends.

A key that is absent and a key that holds the empty list are different here,
because a program may test for the presence of a key.
-/

namespace TensorGrep
namespace Kernel

universe u v

/-- A finite map from keys to lists. -/
abbrev MultiMap (κ : Type u) (β : Type v) :=
  AList (fun _ : κ => List β)

namespace MultiMap

variable {κ : Type u} {β : Type v} [DecidableEq κ]

/-- The list stored at a key, empty when the key is absent. -/
def get
    (m : MultiMap κ β)
    (k : κ) : List β :=
  (m.lookup k).getD []

/-- Find or create the entry of `k` and push `v` at its end. -/
def push
    (m : MultiMap κ β)
    (k : κ)
    (v : β) : MultiMap κ β :=
  m.insert k (m.get k ++ [v])

/-- Push a sequence of key-value pairs. -/
def pushAll
    (m : MultiMap κ β)
    (l : List (κ × β)) : MultiMap κ β :=
  l.foldl (fun m e => m.push e.1 e.2) m

/-- Apply `f` to the list stored at `k`, when there is one. -/
def modify
    (m : MultiMap κ β)
    (k : κ)
    (f : List β → List β) : MultiMap κ β :=
  match m.lookup k with
  | none => m
  | some l => m.insert k (f l)

/-- Apply `f` to every stored list. -/
def mapLists
    (f : List β → List β)
    (m : MultiMap κ β) : MultiMap κ β where
  entries := m.entries.map
    (fun e => (⟨e.1, f e.2⟩ : Sigma (fun _ : κ => List β)))
  nodupKeys := by
    unfold List.NodupKeys List.keys
    rw [List.map_map]
    exact m.nodupKeys

theorem get_eq_of_lookup
    {m : MultiMap κ β}
    {k : κ}
    {l : List β}
    (h : m.lookup k = some l) :
    m.get k = l := by
  simp [get, h]

@[simp] theorem get_empty
    (k : κ) :
    get (∅ : MultiMap κ β) k = [] := by
  simp [get]

theorem lookup_push
    (m : MultiMap κ β)
    (k k' : κ)
    (v : β) :
    (m.push k v).lookup k' =
      if k' = k then some (m.get k ++ [v]) else m.lookup k' := by
  unfold push
  split_ifs with h
  · subst h
    exact AList.lookup_insert m
  · exact AList.lookup_insert_ne h

theorem get_push
    (m : MultiMap κ β)
    (k k' : κ)
    (v : β) :
    (m.push k v).get k' =
      if k' = k then m.get k ++ [v] else m.get k' := by
  unfold get
  rw [lookup_push]
  split_ifs <;> rfl

/-- Pushing a sequence appends, at every key, the values pushed there. -/
theorem get_pushAll
    (m : MultiMap κ β)
    (l : List (κ × β))
    (k : κ) :
    (m.pushAll l).get k =
      m.get k ++ (l.filter (fun e => e.1 = k)).map Prod.snd := by
  induction l generalizing m with
  | nil =>
      simp [pushAll]
  | cons e l ih =>
      have hstep : m.pushAll (e :: l) = (m.push e.1 e.2).pushAll l := rfl
      rw [hstep, ih, get_push]
      by_cases h : e.1 = k
      · subst h
        simp
      · have h' : ¬ k = e.1 := fun hk => h hk.symm
        simp [h, h']

theorem mem_get_pushAll
    {m : MultiMap κ β}
    {l : List (κ × β)}
    {k : κ}
    {v : β} :
    v ∈ (m.pushAll l).get k ↔ v ∈ m.get k ∨ (k, v) ∈ l := by
  rw [get_pushAll, List.mem_append]
  constructor
  · rintro (h | h)
    · exact Or.inl h
    · obtain ⟨e, he, rfl⟩ := List.mem_map.mp h
      obtain ⟨hel, hk⟩ := List.mem_filter.mp he
      have hk' : e.1 = k := by simpa using hk
      subst hk'
      exact Or.inr hel
  · rintro (h | h)
    · exact Or.inl h
    · exact Or.inr (List.mem_map.mpr ⟨(k, v), List.mem_filter.mpr ⟨h, by simp⟩, rfl⟩)

/-- A key is absent after pushing exactly when it was absent and nothing was pushed there. -/
theorem lookup_pushAll_eq_none_iff
    {m : MultiMap κ β}
    {l : List (κ × β)}
    {k : κ} :
    (m.pushAll l).lookup k = none ↔
      m.lookup k = none ∧ ∀ e ∈ l, e.1 ≠ k := by
  induction l generalizing m with
  | nil =>
      simp [pushAll]
  | cons e l ih =>
      have hstep : m.pushAll (e :: l) = (m.push e.1 e.2).pushAll l := rfl
      rw [hstep, ih, lookup_push]
      by_cases h : k = e.1
      · subst h
        simp
      · rw [if_neg h]
        simp only [List.mem_cons, forall_eq_or_imp]
        exact ⟨fun ⟨h₁, h₂⟩ => ⟨h₁, fun he => h he.symm, h₂⟩,
          fun ⟨h₁, _, h₂⟩ => ⟨h₁, h₂⟩⟩

/-- Every list created by pushing into the empty map is non-empty. -/
theorem ne_nil_of_lookup_pushAll_empty
    {l : List (κ × β)}
    {k : κ}
    {vs : List β}
    (h : (pushAll (∅ : MultiMap κ β) l).lookup k = some vs) :
    vs ≠ [] := by
  intro hnil
  subst hnil
  have hget : (pushAll (∅ : MultiMap κ β) l).get k = [] := get_eq_of_lookup h
  have habsent : (pushAll (∅ : MultiMap κ β) l).lookup k = none := by
    rw [lookup_pushAll_eq_none_iff]
    refine ⟨AList.lookup_empty k, ?_⟩
    intro e he hk
    have hv : e.2 ∈ (pushAll (∅ : MultiMap κ β) l).get k := by
      rw [mem_get_pushAll]
      exact Or.inr (hk ▸ he)
    rw [hget] at hv
    cases hv
  rw [h] at habsent
  cases habsent

theorem lookup_modify
    (m : MultiMap κ β)
    (k k' : κ)
    (f : List β → List β) :
    (m.modify k f).lookup k' =
      if k' = k then (m.lookup k).map f else m.lookup k' := by
  unfold modify
  cases h : m.lookup k with
  | none =>
      split_ifs with hk
      · rw [hk, h]
        rfl
      · rfl
  | some l =>
      split_ifs with hk
      · subst hk
        exact AList.lookup_insert m
      · exact AList.lookup_insert_ne hk

theorem lookup_mapLists
    (f : List β → List β)
    (m : MultiMap κ β)
    (k : κ) :
    (m.mapLists f).lookup k = (m.lookup k).map f := by
  have haux : ∀ l : List (Sigma (fun _ : κ => List β)),
      (l.map (fun e => (⟨e.1, f e.2⟩ : Sigma (fun _ : κ => List β)))).dlookup k =
        (l.dlookup k).map f := by
    intro l
    induction l with
    | nil => rfl
    | cons e l ih =>
        obtain ⟨a, b⟩ := e
        by_cases hk : k = a
        · subst hk
          simp
        · simp [List.dlookup_cons_ne, hk, ih]
  exact haux m.entries

/-- Modifying along the entries of a second map modifies each key once. -/
theorem lookup_foldl_modify
    {γ : Type*}
    (f : List γ → List β → List β)
    (m : MultiMap κ β)
    (m' : MultiMap κ γ)
    (k : κ) :
    (m'.entries.foldl (fun acc e => acc.modify e.1 (f e.2)) m).lookup k =
      (m'.lookup k).elim (m.lookup k) (fun l => (m.lookup k).map (f l)) := by
  have haux : ∀ (es : List (Sigma (fun _ : κ => List γ))) (m : MultiMap κ β),
      es.NodupKeys →
      (es.foldl (fun acc e => acc.modify e.1 (f e.2)) m).lookup k =
        (es.dlookup k).elim (m.lookup k) (fun l => (m.lookup k).map (f l)) := by
    intro es
    induction es with
    | nil =>
        intro m _
        rfl
    | cons e es ih =>
        intro m hnodup
        obtain ⟨a, b⟩ := e
        obtain ⟨hfresh, hrest⟩ := List.nodupKeys_cons.mp hnodup
        rw [List.foldl_cons, ih _ hrest, lookup_modify]
        by_cases hk : k = a
        · subst hk
          have habsent : es.dlookup k = none :=
            List.dlookup_eq_none.mpr hfresh
          simp [habsent]
        · simp [List.dlookup_cons_ne, hk]
  exact haux m'.entries m m'.nodupKeys

/-- A key is present after pushing into the empty map exactly when something was pushed there. -/
theorem lookup_pushAll_empty_isSome_iff
    {l : List (κ × β)}
    {k : κ} :
    ((pushAll (∅ : MultiMap κ β) l).lookup k).isSome ↔ ∃ e ∈ l, e.1 = k := by
  rw [Option.isSome_iff_ne_none, ne_eq, lookup_pushAll_eq_none_iff]
  simp

/-- The entries of a map are its lookups. -/
theorem mem_entries_iff
    {m : MultiMap κ β}
    {k : κ}
    {l : List β} :
    (⟨k, l⟩ : Sigma (fun _ : κ => List β)) ∈ m.entries ↔ m.lookup k = some l :=
  (List.mem_dlookup_iff m.nodupKeys).symm.trans Iff.rfl

/-- The values of a sequence of pairs, grouped by their keys. -/
def groups (l : List (κ × β)) : List (κ × List β) :=
  (pushAll (∅ : MultiMap κ β) l).entries.map fun e => (e.1, e.2)

/-- A value is in a group if and only if it was there with the key of the group. -/
theorem exists_mem_groups_iff
    {l : List (κ × β)}
    {k : κ}
    {v : β} :
    (∃ group ∈ groups l, group.1 = k ∧ v ∈ group.2) ↔ (k, v) ∈ l := by
  have hget : v ∈ (pushAll (∅ : MultiMap κ β) l).get k ↔ (k, v) ∈ l := by
    rw [mem_get_pushAll, get_empty]
    simp
  rw [← hget]
  constructor
  · rintro ⟨group, hgroup, rfl, hv⟩
    obtain ⟨e, he, rfl⟩ := List.mem_map.mp hgroup
    rwa [get_eq_of_lookup (mem_entries_iff.mp he)]
  · intro hv
    cases hlookup : (pushAll (∅ : MultiMap κ β) l).lookup k with
    | none => simp [get, hlookup] at hv
    | some vs =>
        rw [get_eq_of_lookup hlookup] at hv
        exact ⟨(k, vs), List.mem_map.mpr ⟨⟨k, vs⟩, mem_entries_iff.mpr hlookup, rfl⟩, rfl, hv⟩

end MultiMap

end Kernel
end TensorGrep
