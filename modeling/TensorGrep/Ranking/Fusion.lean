import TensorGrep.Kernel.Tallies
import TensorGrep.Ranking.Chunks

/-!
# Fusing rankings

Each leg of a search ranks the chunks that it finds.  Reciprocal rank fusion
gives a chunk a term for every leg that ranks it, the greater the better its
rank, and combines the terms of a chunk by their maximum or by their sum.  A
late reranker may then reorder the head of the fused order; what comes behind
the head stays in place.

Scores are rational numbers here.
-/

namespace TensorGrep
namespace Ranking

open Kernel

/-! ## Reciprocal rank fusion -/

/-- How the terms of a chunk are combined. -/
inductive Combine where
  | sum
  | max
deriving DecidableEq

/-- What is done with a further term. -/
def Combine.op : Combine → ℚ → ℚ → ℚ
  | .sum => fun score term => score + term
  | .max => fun score term => Max.max score term

section Fusion

variable {ι : Type} [LinearOrder ι]

/-- The term of a rank in a leg. -/
def rankTerm
    (k : ℤ)
    (rank : ℕ)
    (weight : ℚ) : ℚ :=
  1 / (k + rank) * weight

/-- The terms of a leg, whose ranks start at 1. -/
def legTerms
    (k : ℤ)
    (leg : List ι × ℚ) : List (ι × ℚ) :=
  (leg.1.zipIdx 1).map fun c => (c.1, rankTerm k c.2 leg.2)

/-- The legs with their weights; without weights every leg has the weight 1. -/
def weightedLegs
    (rankings : List (List ι))
    (weights : Option (List ℚ)) : List (List ι × ℚ) :=
  match weights with
  | none => rankings.map fun ranking => (ranking, 1)
  | some weights => rankings.zip weights

/-- `reciprocal_rank_fusion`. -/
def reciprocalRankFusion
    (rankings : List (List ι))
    (k : ℤ)
    (weights : Option (List ℚ))
    (combine : Combine) : Except String (List ι) :=
  if k ≤ 0 then .error ("k must be positive, got " ++ toString k)
  else if weights.any (fun weights => weights.length ≠ rankings.length) then
    .error ("weights length (" ++ toString ((weights.map List.length).getD 0) ++
      ") must match rankings length (" ++ toString rankings.length ++ ")")
  else .ok (rankedKeys (tally combine.op 0
    ((weightedLegs rankings weights).flatMap (legTerms k))))

/-- The fusion of some legs, each with its weight or all of them without. -/
def fuse
    (legs : List (List ι × ℚ))
    (weighted : Bool)
    (k : ℤ)
    (combine : Combine) : Except String (List ι) :=
  reciprocalRankFusion (legs.map Prod.fst) k
    (if weighted then some (legs.map Prod.snd) else none) combine

/-- The ranks that a chunk has in some legs. -/
def ranksOf
    (legs : List (List ι))
    (c : ι) : Set ℕ :=
  {rank | ∃ leg ∈ legs, (c, rank) ∈ leg.zipIdx 1}

/-- What the fusion of some legs promises. -/
structure FusionLaws
    (legs : List (List ι × ℚ))
    (k : ℤ) : Prop where
  members : ∀ weighted combine, ∃ order, fuse legs weighted k combine = .ok order ∧
    order.Nodup ∧ ∀ c, c ∈ order ↔ ∃ leg ∈ legs, c ∈ leg.1
  anyOrder : ∀ weighted combine legs', legs'.Perm legs →
    fuse legs' weighted k combine = fuse legs weighted k combine
  bestRank : ∀ order, fuse legs false k .max = .ok order →
    ∀ c d m n, IsLeast (ranksOf (legs.map Prod.fst) c) m →
      IsLeast (ranksOf (legs.map Prod.fst) d) n →
      (Precedes order c d ↔ toLex (m, c) < toLex (n, d))
  furtherLeg : ∀ weighted combine leg weight, 0 < weight → ∀ order order',
    fuse legs weighted k combine = .ok order →
    fuse (legs ++ [(leg, weight)]) weighted k combine = .ok order' →
    ∀ c ∈ leg, ∀ d, d ∉ leg → Precedes order c d → Precedes order' c d

variable {legs legs' : List (List ι × ℚ)} {weighted : Bool} {k : ℤ} {combine : Combine}
  {leg : List ι} {weight : ℚ} {rank : ℕ} {c d : ι}

/-- The weights that are used. -/
def usedLegs
    (weighted : Bool)
    (legs : List (List ι × ℚ)) : List (List ι × ℚ) :=
  if weighted then legs else legs.map fun leg => (leg.1, 1)

omit [LinearOrder ι] in
theorem weightedLegs_eq :
    weightedLegs (legs.map Prod.fst) (if weighted then some (legs.map Prod.snd) else none) =
      usedLegs weighted legs := by
  cases weighted with
  | true =>
      rw [if_pos rfl, weightedLegs, usedLegs, if_pos rfl]
      exact (List.zip_of_prod rfl rfl).symm
  | false =>
      rw [if_neg Bool.false_ne_true, weightedLegs, usedLegs, if_neg Bool.false_ne_true,
        List.map_map]
      rfl

/-- A fusion ranks the tally of the terms. -/
theorem fuse_eq
    (hk : 1 ≤ k) :
    fuse legs weighted k combine =
      .ok (rankedKeys (tally combine.op 0 ((usedLegs weighted legs).flatMap (legTerms k)))) := by
  have hlength : ¬ (if weighted then some (legs.map Prod.snd) else none : Option (List ℚ)).any
      (fun weights => weights.length ≠ (legs.map Prod.fst).length) = true := by
    cases weighted <;> simp
  rw [fuse, reciprocalRankFusion, if_neg (by omega), if_neg hlength, weightedLegs_eq]

omit [LinearOrder ι] in
/-- A chunk has a term where a leg has it. -/
theorem mem_terms_iff :
    c ∈ ((usedLegs weighted legs).flatMap (legTerms k)).map Prod.fst ↔
      ∃ leg ∈ legs, c ∈ leg.1 := by
  have hleg : ∀ leg : List ι × ℚ, (legTerms k leg).map Prod.fst = leg.1 := by
    intro leg
    rw [legTerms, List.map_map]
    exact List.zipIdx_map_fst 1 leg.1
  rw [List.map_flatMap, List.mem_flatMap]
  simp only [hleg]
  cases weighted with
  | true => rfl
  | false =>
      rw [usedLegs, if_neg Bool.false_ne_true]
      simp

theorem Combine.op_right_comm
    (combine : Combine)
    (a b c : ℚ) :
    combine.op (combine.op a b) c = combine.op (combine.op a c) b := by
  cases combine with
  | sum => exact add_right_comm a b c
  | max => exact max_right_comm a b c

theorem rankTerm_pos
    (hk : 1 ≤ k)
    (hweight : 0 < weight) :
    0 < rankTerm k rank weight := by
  have hk' : (1 : ℚ) ≤ k := by exact_mod_cast hk
  rw [rankTerm]
  positivity

/-- A worse rank has a smaller term. -/
theorem rankTerm_lt_iff
    {m n : ℕ}
    (hk : 1 ≤ k) :
    rankTerm k n 1 < rankTerm k m 1 ↔ m < n := by
  have hk' : (1 : ℚ) ≤ k := by exact_mod_cast hk
  rw [rankTerm, rankTerm, mul_one, mul_one, one_div_lt_one_div (by positivity) (by positivity),
    add_lt_add_iff_left, Nat.cast_lt]

omit [LinearOrder ι] in
/-- The terms that a leg gives a chunk, one for every rank that it has there. -/
theorem mem_legTerms_iff
    {x : ℚ} :
    (c, x) ∈ legTerms k (leg, weight) ↔
      ∃ rank, (c, rank) ∈ leg.zipIdx 1 ∧ x = rankTerm k rank weight := by
  rw [legTerms, List.mem_map]
  constructor
  · rintro ⟨⟨d, rank⟩, hmem, heq⟩
    cases heq
    exact ⟨rank, hmem, rfl⟩
  · rintro ⟨rank, hmem, rfl⟩
    exact ⟨(c, rank), hmem, rfl⟩

/-! ## The order of the fusion by maximum -/

/-- The score of a chunk is the term of its best rank. -/
theorem total_max_eq
    (hk : 1 ≤ k)
    (hbest : IsLeast (ranksOf (legs.map Prod.fst) c) rank) :
    total Combine.max.op 0 ((usedLegs false legs).flatMap (legTerms k)) c =
      rankTerm k rank 1 := by
  obtain ⟨⟨leg, hleg, hrank⟩, hleast⟩ := hbest
  have hterms : ∀ x, (c, x) ∈ (usedLegs false legs).flatMap (legTerms k) ↔
      ∃ rank ∈ ranksOf (legs.map Prod.fst) c, x = rankTerm k rank 1 := by
    intro x
    rw [usedLegs, if_neg Bool.false_ne_true, List.flatMap_map, List.mem_flatMap]
    simp only [mem_legTerms_iff, ranksOf, Set.mem_ofPred_eq, List.mem_map]
    constructor
    · rintro ⟨l, hl, n, hn, rfl⟩
      exact ⟨n, ⟨l.1, ⟨l, hl, rfl⟩, hn⟩, rfl⟩
    · rintro ⟨n, ⟨_, ⟨l, hl, rfl⟩, hn⟩, rfl⟩
      exact ⟨l, hl, n, hn, rfl⟩
  refine foldl_max_eq ?_ ?_ (rankTerm_pos hk zero_lt_one).le
  · rw [mem_termsOf_iff, hterms]
    exact ⟨rank, ⟨leg, hleg, hrank⟩, rfl⟩
  · intro y hy
    rw [mem_termsOf_iff, hterms] at hy
    obtain ⟨n, hn, rfl⟩ := hy
    rw [← not_lt, rankTerm_lt_iff hk, not_lt]
    exact hleast hn

omit [LinearOrder ι] in
/-- A chunk with a rank is in a leg. -/
theorem exists_leg_of_rank
    (h : rank ∈ ranksOf (legs.map Prod.fst) c) :
    ∃ leg ∈ legs, c ∈ leg.1 := by
  obtain ⟨first, hfirst, hrank⟩ := h
  obtain ⟨leg, hleg, rfl⟩ := List.mem_map.mp hfirst
  exact ⟨leg, hleg, (List.mem_zipIdx hrank).2.2 ▸ List.getElem_mem _⟩

/-! ## A further leg -/

/-- Positive terms can only add to a score. -/
theorem le_foldl_op
    (combine : Combine)
    {values : List ℚ}
    (hvalues : ∀ x ∈ values, 0 < x)
    (score : ℚ) :
    score ≤ values.foldl combine.op score := by
  induction values generalizing score with
  | nil => exact le_refl score
  | cons x values ih =>
      rw [List.foldl_cons]
      refine le_trans ?_ (ih (fun y hy => hvalues y (List.mem_cons_of_mem x hy)) _)
      cases combine with
      | sum => exact le_add_of_nonneg_right (hvalues x List.mem_cons_self).le
      | max => exact le_max_left score x

/-- A further leg does not lower the score of any chunk. -/
theorem total_le_further
    {terms : List (ι × ℚ)}
    (hk : 1 ≤ k)
    (hweight : 0 < weight) :
    total combine.op 0 terms c ≤
      total combine.op 0 (terms ++ legTerms k (leg, weight)) c := by
  rw [total, total, termsOf_append, List.foldl_append]
  refine le_foldl_op combine ?_ _
  intro x hx
  obtain ⟨n, -, rfl⟩ := mem_legTerms_iff.mp (mem_termsOf_iff.mp hx)
  exact rankTerm_pos hk hweight

/-- It leaves the score of a chunk alone that it does not have. -/
theorem total_further_of_not_mem
    {terms : List (ι × ℚ)}
    (h : c ∉ leg) :
    total combine.op 0 (terms ++ legTerms k (leg, weight)) c = total combine.op 0 terms c := by
  have hnone : termsOf (legTerms k (leg, weight)) c = [] := by
    rw [List.eq_nil_iff_forall_not_mem]
    intro x hx
    obtain ⟨n, hn, -⟩ := mem_legTerms_iff.mp (mem_termsOf_iff.mp hx)
    exact h ((List.mem_zipIdx hn).2.2 ▸ List.getElem_mem _)
  rw [total, termsOf_append, hnone, List.append_nil, total]

omit [LinearOrder ι] in
/-- The terms of a further leg come last. -/
theorem terms_append :
    (usedLegs weighted (legs ++ [(leg, weight)])).flatMap (legTerms k) =
      (usedLegs weighted legs).flatMap (legTerms k) ++
        legTerms k (leg, if weighted then weight else 1) := by
  cases weighted with
  | true => simp [usedLegs]
  | false => simp [usedLegs]

theorem fusionLaws
    (legs : List (List ι × ℚ))
    (hk : 1 ≤ k) :
    FusionLaws legs k := by
  refine ⟨?_, ?_, ?_, ?_⟩
  · intro weighted combine
    refine ⟨_, fuse_eq hk, nodup_rankedKeys_tally, ?_⟩
    intro c
    rw [mem_rankedKeys_tally_iff, mem_terms_iff]
  · intro weighted combine legs' hperm
    have hused : (usedLegs weighted legs').Perm (usedLegs weighted legs) := by
      cases weighted with
      | true => exact hperm
      | false => exact hperm.map _
    rw [fuse_eq hk, fuse_eq hk,
      rankedKeys_tally_eq_of_perm combine.op_right_comm (hused.flatMap_right _)]
  · intro order horder c d m n hm hn
    rw [fuse_eq hk] at horder
    cases horder
    have hkeys : ∀ {c rank}, rank ∈ ranksOf (legs.map Prod.fst) c →
        c ∈ ((usedLegs false legs).flatMap (legTerms k)).map Prod.fst :=
      fun hrank => mem_terms_iff.mpr (exists_leg_of_rank hrank)
    have hc := hkeys hm.1
    have hd := hkeys hn.1
    rw [precedes_rankedKeys_tally_iff, and_iff_right hc, and_iff_right hd, rankKey_lt_iff,
      total_max_eq hk hm, total_max_eq hk hn, rankTerm_lt_iff hk, Prod.Lex.toLex_lt_toLex]
    have htie : rankTerm k m 1 = rankTerm k n 1 ↔ m = n := by
      constructor
      · intro heq
        refine le_antisymm ?_ ?_
        · rw [← not_lt, ← rankTerm_lt_iff hk, heq]
          exact lt_irrefl _
        · rw [← not_lt, ← rankTerm_lt_iff hk, heq]
          exact lt_irrefl _
      · rintro rfl
        rfl
    rw [htie]
  · intro weighted combine leg weight hweight order order' horder horder' c hc d hd hcd
    rw [fuse_eq hk] at horder horder'
    cases horder
    cases horder'
    rw [terms_append]
    have hused : 0 < (if weighted then weight else 1 : ℚ) := by
      cases weighted <;> simp [hweight]
    obtain ⟨hcold, hdold, hlt⟩ := precedes_rankedKeys_tally_iff.mp hcd
    rw [precedes_rankedKeys_tally_iff, List.map_append]
    refine ⟨List.mem_append_left _ hcold, List.mem_append_left _ hdold, ?_⟩
    -- the score of one can only rise and that of the other one stays
    have hrise : total combine.op 0 ((usedLegs weighted legs).flatMap (legTerms k)) c ≤ _ :=
      @total_le_further _ _ k combine leg _ c _ hk hused
    rw [rankKey_lt_iff] at hlt ⊢
    rw [total_further_of_not_mem hd]
    rcases hlt with hlt | ⟨heq, hlt⟩
    · exact Or.inl (hlt.trans_le hrise)
    · rcases hrise.lt_or_eq with hrise | hrise
      · exact Or.inl (heq ▸ hrise)
      · exact Or.inr ⟨hrise.symm.trans heq, hlt⟩

end Fusion

end Ranking
end TensorGrep
