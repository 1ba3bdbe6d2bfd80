import TensorGrep.Kernel.InsertionMaps
import TensorGrep.Kernel.Precedence
import TensorGrep.Kernel.SortedKeys

/-!
# Tallies

A tally gathers what is said of keys: every term is combined with what its key
has so far.  The keys are then ranked, the greatest value first and, among
equal values, the smallest key first.  The rank of a key depends on nothing but
the terms of the keys, and not on the order in which they came when the
operation does not mind it.
-/

namespace TensorGrep
namespace Kernel

universe u v

variable {ι : Type u} {ρ : Type v}

/-! ## Gathering -/

variable [DecidableEq ι]

/-- Combine every term with what its key has so far, starting from `z`. -/
def tally
    (op : ρ → ρ → ρ)
    (z : ρ)
    (terms : List (ι × ρ)) : List (ι × ρ) :=
  terms.foldl (fun m t => upsert t.1 (fun old => op (old.getD z) t.2) m) []

/-- The terms of a key. -/
def termsOf
    (terms : List (ι × ρ))
    (c : ι) : List ρ :=
  (terms.filter (fun t => t.1 = c)).map Prod.snd

/-- What a key has in the end. -/
def total
    (op : ρ → ρ → ρ)
    (z : ρ)
    (terms : List (ι × ρ))
    (c : ι) : ρ :=
  (termsOf terms c).foldl op z

section Gathering

variable {op : ρ → ρ → ρ} {z : ρ} {terms terms' : List (ι × ρ)} {t : ι × ρ} {c : ι} {x : ρ}

theorem termsOf_append :
    termsOf (terms ++ terms') c = termsOf terms c ++ termsOf terms' c := by
  rw [termsOf, List.filter_append, List.map_append, termsOf, termsOf]

theorem mem_termsOf_iff :
    x ∈ termsOf terms c ↔ (c, x) ∈ terms := by
  rw [termsOf, List.mem_map]
  constructor
  · rintro ⟨⟨d, y⟩, hmem, rfl⟩
    obtain ⟨hmem, hd⟩ := List.mem_filter.mp hmem
    rw [← of_decide_eq_true hd]
    exact hmem
  · intro hmem
    exact ⟨(c, x), List.mem_filter.mpr ⟨hmem, decide_eq_true rfl⟩, rfl⟩

theorem tally_concat :
    tally op z (terms ++ [t]) =
      upsert t.1 (fun old => op (old.getD z) t.2) (tally op z terms) := by
  rw [tally, List.foldl_append]
  rfl

/-- Every key has one entry. -/
theorem nodup_tally
    (terms : List (ι × ρ)) :
    ((tally op z terms).map Prod.fst).Nodup := by
  induction terms using List.reverseRecOn with
  | nil => exact List.nodup_nil
  | append_singleton terms t ih =>
      rw [tally_concat]
      exact nodup_upsert ih _ _

/-- A further term of a key. -/
theorem total_concat_self :
    total op z (terms ++ [t]) t.1 = op (total op z terms t.1) t.2 := by
  have hterm : termsOf [t] t.1 = [t.2] := by simp [termsOf]
  rw [total, termsOf_append, List.foldl_append, hterm, total]
  rfl

/-- A term of another key. -/
theorem total_concat_of_ne
    (h : c ≠ t.1) :
    total op z (terms ++ [t]) c = total op z terms c := by
  have hnone : termsOf [t] c = [] := by simp [termsOf, Ne.symm h]
  rw [total, termsOf_append, hnone, List.append_nil, total]

theorem total_of_not_mem
    (h : c ∉ terms.map Prod.fst) :
    total op z terms c = z := by
  have hnone : termsOf terms c = [] := by
    rw [List.eq_nil_iff_forall_not_mem]
    intro y hy
    exact h (List.mem_map.mpr ⟨_, mem_termsOf_iff.mp hy, rfl⟩)
  rw [total, hnone]
  rfl

/-- The entries of a tally: the keys that have terms, each with all of them combined. -/
theorem mem_tally_iff :
    (c, x) ∈ tally op z terms ↔ c ∈ terms.map Prod.fst ∧ x = total op z terms c := by
  induction terms using List.reverseRecOn generalizing c x with
  | nil => simp [tally]
  | append_singleton terms t ih =>
      rw [tally_concat, List.map_append, List.mem_append, List.map_singleton,
        List.mem_singleton]
      by_cases hc : c = t.1
      · subst hc
        have hkeys : t.1 ∈ (tally op z terms).map Prod.fst ↔ t.1 ∈ terms.map Prod.fst := by
          constructor
          · intro hmem
            obtain ⟨e, he, hfst⟩ := List.mem_map.mp hmem
            exact hfst ▸ (ih.mp he).1
          · intro hmem
            exact List.mem_map.mpr ⟨(t.1, total op z terms t.1), ih.mpr ⟨hmem, rfl⟩, rfl⟩
        rw [mem_upsert_self (nodup_tally terms), hkeys, total_concat_self]
        constructor
        · rintro (⟨old, hmem, rfl⟩ | ⟨hnew, rfl⟩)
          · rw [(ih.mp hmem).2]
            exact ⟨Or.inr rfl, rfl⟩
          · rw [total_of_not_mem hnew]
            exact ⟨Or.inr rfl, rfl⟩
        · rintro ⟨-, rfl⟩
          by_cases hold : t.1 ∈ terms.map Prod.fst
          · exact Or.inl ⟨total op z terms t.1, ih.mpr ⟨hold, rfl⟩, rfl⟩
          · rw [total_of_not_mem hold]
            exact Or.inr ⟨hold, rfl⟩
      · have hne : (c, x).1 ≠ t.1 := hc
        rw [mem_upsert_of_ne hne, ih, total_concat_of_ne hc, or_iff_left hc]

/-- The order of the terms does not matter to an operation that does not mind it. -/
theorem total_eq_of_perm
    (hcomm : ∀ a b c, op (op a b) c = op (op a c) b)
    (h : terms.Perm terms') :
    total op z terms c = total op z terms' c := by
  rw [total, total, termsOf, termsOf]
  exact ((h.filter _).map Prod.snd).foldl_eq' (fun x _ y _ w => hcomm w x y) z

end Gathering

section Maximum

variable [LinearOrder ρ] {values : List ρ} {x z : ρ}

/-- What is gathered by `max` is the greatest value. -/
theorem foldl_max_eq
    (hmem : x ∈ values)
    (hle : ∀ y ∈ values, y ≤ x)
    (hz : z ≤ x) :
    values.foldl max z = x := by
  induction values generalizing z with
  | nil => cases hmem
  | cons y values ih =>
      rw [List.foldl_cons]
      have hle' : ∀ y' ∈ values, y' ≤ x := fun y' hy' => hle y' (List.mem_cons_of_mem y hy')
      have hy : max z y ≤ x := max_le hz (hle y List.mem_cons_self)
      by_cases hvalues : x ∈ values
      · exact ih hvalues hle' hy
      · have hxy : x = y := (List.mem_cons.mp hmem).resolve_right hvalues
        rw [← hxy, max_eq_right hz]
        have hkeep : ∀ l : List ρ, (∀ y' ∈ l, y' ≤ x) → l.foldl max x = x := by
          intro l hl
          induction l with
          | nil => rfl
          | cons a l ihl =>
              rw [List.foldl_cons, max_eq_left (hl a List.mem_cons_self)]
              exact ihl (fun b hb => hl b (List.mem_cons_of_mem a hb))
        exact hkeep values hle'

end Maximum

/-! ## Ranking -/

section Ranking

variable [LinearOrder ι] [LinearOrder ρ] {op : ρ → ρ → ρ} {z : ρ} {terms terms' : List (ι × ρ)}
  {c d : ι}

/-- What a key is ranked by: the greatest value first, then the smallest key. -/
def rankKey
    (value : ι → ρ)
    (c : ι) : ρᵒᵈ ×ₗ ι :=
  toLex (OrderDual.toDual (value c), c)

/-- The keys of a tally by their values, the greatest value first and the smallest key first
among equal values. -/
def rankedKeys (entries : List (ι × ρ)) : List ι :=
  (sortByKey (fun e => toLex (OrderDual.toDual e.2, e.1)) entries).map Prod.fst

omit [DecidableEq ι] in
theorem rankKey_lt_iff
    {value : ι → ρ} :
    rankKey value c < rankKey value d ↔ value d < value c ∨ value c = value d ∧ c < d := by
  rw [rankKey, rankKey, Prod.Lex.toLex_lt_toLex]
  rfl

/-- The ranking of a tally has the keys that have terms. -/
theorem mem_rankedKeys_tally_iff :
    c ∈ rankedKeys (tally op z terms) ↔ c ∈ terms.map Prod.fst := by
  rw [rankedKeys, List.mem_map]
  constructor
  · rintro ⟨⟨d, x⟩, hmem, rfl⟩
    exact (mem_tally_iff.mp (mem_sortByKey.mp hmem)).1
  · intro hmem
    exact ⟨(c, total op z terms c), mem_sortByKey.mpr (mem_tally_iff.mpr ⟨hmem, rfl⟩), rfl⟩

/-- It is sorted strictly. -/
theorem pairwise_rankedKeys_tally
    (op : ρ → ρ → ρ)
    (z : ρ)
    (terms : List (ι × ρ)) :
    (rankedKeys (tally op z terms)).Pairwise
      (fun c d => rankKey (total op z terms) c < rankKey (total op z terms) d) := by
  rw [rankedKeys, List.pairwise_map]
  have hdistinct : (sortByKey (fun e : ι × ρ => toLex (OrderDual.toDual e.2, e.1))
      (tally op z terms)).Pairwise (fun a b => a.1 ≠ b.1) := by
    have hperm := (perm_sortByKey (fun e : ι × ρ => toLex (OrderDual.toDual e.2, e.1))
      (tally op z terms)).map Prod.fst
    exact List.pairwise_map.mp (hperm.nodup_iff.mpr (nodup_tally terms))
  refine ((pairwise_sortByKey _ (tally op z terms)).and hdistinct).imp_of_mem ?_
  rintro ⟨c, x⟩ ⟨d, y⟩ hc hd ⟨hle, hne⟩
  obtain ⟨-, rfl⟩ := mem_tally_iff.mp (mem_sortByKey.mp hc)
  obtain ⟨-, rfl⟩ := mem_tally_iff.mp (mem_sortByKey.mp hd)
  refine lt_of_le_of_ne hle ?_
  intro heq
  exact hne (Prod.ext_iff.mp (toLex.injective heq)).2

theorem nodup_rankedKeys_tally :
    (rankedKeys (tally op z terms)).Nodup := by
  refine (pairwise_rankedKeys_tally op z terms).imp ?_
  rintro c d hlt rfl
  exact lt_irrefl _ hlt

/-- A key comes before another one when it has more, or as much and is smaller. -/
theorem precedes_rankedKeys_tally_iff :
    Precedes (rankedKeys (tally op z terms)) c d ↔
      c ∈ terms.map Prod.fst ∧ d ∈ terms.map Prod.fst ∧
        rankKey (total op z terms) c < rankKey (total op z terms) d := by
  rw [precedes_iff_of_pairwise (pairwise_rankedKeys_tally op z terms), mem_rankedKeys_tally_iff,
    mem_rankedKeys_tally_iff]

/-- Tallies with the same keys and the same totals are ranked alike. -/
theorem rankedKeys_tally_congr
    (hkeys : ∀ c, c ∈ terms.map Prod.fst ↔ c ∈ terms'.map Prod.fst)
    (htotal : ∀ c, total op z terms c = total op z terms' c) :
    rankedKeys (tally op z terms) = rankedKeys (tally op z terms') := by
  have hsorted := pairwise_rankedKeys_tally op z terms
  have hsorted' := pairwise_rankedKeys_tally op z terms'
  rw [← funext htotal] at hsorted'
  refine List.Perm.eq_of_pairwise ?_ hsorted hsorted' ?_
  · intro c d _ _ hcd hdc
    exact absurd hcd hdc.not_gt
  · rw [List.perm_ext_iff_of_nodup nodup_rankedKeys_tally nodup_rankedKeys_tally]
    intro c
    rw [mem_rankedKeys_tally_iff, mem_rankedKeys_tally_iff, hkeys]

/-- The order of the terms does not matter to an operation that does not mind it. -/
theorem rankedKeys_tally_eq_of_perm
    (hcomm : ∀ a b c, op (op a b) c = op (op a c) b)
    (h : terms.Perm terms') :
    rankedKeys (tally op z terms) = rankedKeys (tally op z terms') :=
  rankedKeys_tally_congr (fun _ => (h.map Prod.fst).mem_iff) (fun _ => total_eq_of_perm hcomm h)

end Ranking

end Kernel
end TensorGrep
