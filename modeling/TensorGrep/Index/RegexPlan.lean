import Mathlib.Data.List.ReduceOption
import TensorGrep.Kernel.ExceptList
import TensorGrep.Index.Extract
import TensorGrep.Index.Fingerprint

/-!
# Literals that every match of a regex contains

`selectRegexPrefilterLiterals` looks for a finite set of literals such that
every match of a pattern contains one of them.  It asks a third-party extractor
for literals at either edge of a match, extracts inner literals itself, and
takes the best of the three plans.

`Hir` is the parsed pattern and `Hir.Denotes` the byte strings it stands for;
assertions are empty strings here, which only makes the language larger.  The
parser, the extractor and the matcher are the parameter `RegexCrate`.
`selectRegexPrefilterLiterals_covers` is the soundness of a plan.
-/

namespace TensorGrep
namespace Index

open Kernel

/-! ## Parsed patterns -/

/-- A character class. -/
inductive HirClass where
  | unicode (ranges : List (Char × Char))
  | bytes (ranges : List (UInt8 × UInt8))

/-- A parsed pattern. -/
inductive Hir where
  | empty
  | literal (bytes : Bytes)
  | charClass (c : HirClass)
  | look
  | repetition (min : Nat) (max : Option Nat) (sub : Hir)
  | capture (sub : Hir)
  | concat (parts : List Hir)
  | alternation (parts : List Hir)

/-- The byte strings of a class. -/
def HirClass.Denotes : HirClass → Bytes → Prop
  | unicode ranges, w => ∃ r ∈ ranges, ∃ c : Char,
      r.1.toNat ≤ c.toNat ∧ c.toNat ≤ r.2.toNat ∧ w = String.utf8EncodeChar c
  | bytes ranges, w => ∃ r ∈ ranges, ∃ b : UInt8,
      r.1.toNat ≤ b.toNat ∧ b.toNat ≤ r.2.toNat ∧ w = [b]

mutual

/-- The byte strings a pattern stands for. -/
def Hir.Denotes : Hir → Bytes → Prop
  | .empty, w => w = []
  | .literal b, w => w = b
  | .charClass c, w => c.Denotes w
  | .look, w => w = []
  | .repetition min max sub, w => ∃ ws : List Bytes,
      min ≤ ws.length ∧ (∀ m, max = some m → ws.length ≤ m) ∧
        (∀ u ∈ ws, sub.Denotes u) ∧ w = ws.flatten
  | .capture sub, w => sub.Denotes w
  | .concat parts, w => ConcatDenotes parts w
  | .alternation parts, w => AlternationDenotes parts w

/-- The byte strings of patterns one after the other. -/
def ConcatDenotes : List Hir → Bytes → Prop
  | [], w => w = []
  | part :: parts, w => ∃ u v, part.Denotes u ∧ ConcatDenotes parts v ∧ w = u ++ v

/-- The byte strings of one of several patterns. -/
def AlternationDenotes : List Hir → Bytes → Prop
  | [], _ => False
  | part :: parts, w => part.Denotes w ∨ AlternationDenotes parts w

end

/-! ## Literal plans -/

/-- Literals of which every match contains one. -/
structure RegexLiteralPlan where
  literals : List Bytes
deriving DecidableEq

/-- The most members of a class that the extractor expands. -/
def maxRegexClassLiterals : Nat := 10

/-- The most literals of a plan. -/
def maxRegexPrefilterLiterals : Nat := 64

/-- `normalize_prefilter_literal`. -/
def normalizePrefilterLiteral
    (literal : Bytes)
    (ignoreCase : Bool) : Option Bytes :=
  if ignoreCase then
    if literal.all (fun b => b.toNat < 128) then some (literal.map asciiLowerByte)
    else none
  else some literal

namespace RegexLiteralPlan

/-- A normalised literal of at least three bytes. -/
def normalizeLong
    (ignoreCase : Bool)
    (literal : Bytes) : Option Bytes :=
  (normalizePrefilterLiteral literal ignoreCase).bind (fun l =>
    if l.length < trigramLen then none else some l)

/-- `RegexLiteralPlan::from_raw`. -/
def fromRaw
    (literals : List Bytes)
    (ignoreCase : Bool) : Option RegexLiteralPlan :=
  if literals = [] ∨ maxRegexPrefilterLiterals < literals.length then none
  else
    (literals.mapM (normalizeLong ignoreCase)).bind (fun normalized =>
      if sortDedup nameKey normalized = [] then none
      else some ⟨sortDedup nameKey normalized⟩)

/-- `RegexLiteralPlan::min_len`. -/
def minLen (plan : RegexLiteralPlan) : Nat :=
  (plan.literals.map List.length).min?.getD 0

/-- `RegexLiteralPlan::total_len`. -/
def totalLen (plan : RegexLiteralPlan) : Nat :=
  (plan.literals.map List.length).sum

/-- Some literal of the plan occurs in `w` up to ASCII case. -/
def Covers
    (plan : RegexLiteralPlan)
    (w : Bytes) : Prop :=
  ∃ l ∈ plan.literals, l.map asciiLowerByte <:+: w.map asciiLowerByte

end RegexLiteralPlan

/-- `compare_regex_literal_plans`. -/
def compareRegexLiteralPlans (a b : RegexLiteralPlan) : Ordering :=
  ((compare a.minLen b.minLen).then (compare a.totalLen b.totalLen)).then
    (compare b.literals.length a.literals.length)

/-- The standard library's `max_by`: of several largest elements the last. -/
def maxBy
    {α : Type*}
    (cmp : α → α → Ordering) : List α → Option α
  | [] => none
  | a :: l => some (l.foldl (fun x y => if cmp x y = .gt then x else y) a)

/-- The literals of all alternatives, unless one has no plan or there are too many. -/
def combinePlans : List Bytes → List (Option RegexLiteralPlan) → Option (List Bytes)
  | combined, [] => some combined
  | _, none :: _ => none
  | combined, some plan :: plans =>
      if maxRegexPrefilterLiterals < (combined ++ plan.literals).length then none
      else combinePlans (combined ++ plan.literals) plans

mutual

/-- `extract_inner_literal_plan`. -/
def extractInnerLiteralPlan (ignoreCase : Bool) : Hir → Option RegexLiteralPlan
  | .empty => none
  | .charClass _ => none
  | .look => none
  | .literal b => RegexLiteralPlan.fromRaw [b] ignoreCase
  | .capture sub => extractInnerLiteralPlan ignoreCase sub
  | .repetition min _ sub =>
      if 0 < min then extractInnerLiteralPlan ignoreCase sub else none
  | .concat parts =>
      maxBy compareRegexLiteralPlans (innerPlans ignoreCase parts).reduceOption
  | .alternation parts =>
      -- the parts' literals are already normalised
      (combinePlans [] (innerPlans ignoreCase parts)).bind (fun combined =>
        RegexLiteralPlan.fromRaw combined false)

/-- The inner plans of several patterns. -/
def innerPlans (ignoreCase : Bool) : List Hir → List (Option RegexLiteralPlan)
  | [] => []
  | part :: parts =>
      extractInnerLiteralPlan ignoreCase part :: innerPlans ignoreCase parts

end

/-- The edge at which the extractor looks. -/
inductive ExtractKind where
  | prefixes
  | suffixes

/-- The third-party parser, literal extractor and matcher. -/
structure RegexCrate where
  /-- `regex_syntax::parse`; `none` when the pattern is rejected. -/
  parse : Text → Option Hir
  /-- `Extractor::extract` under the given limits on classes and in total; `none` for
  an infinite sequence. -/
  extract : ExtractKind → Nat → Nat → Hir → Option (List Bytes)
  /-- `RegexBuilder::case_insensitive(..).build()` and the `is_match` of its result. -/
  build : Text → Bool → Option (Text → Bool)

/-- `extract_edge_literal_plan`. -/
def extractEdgeLiteralPlan
    (R : RegexCrate)
    (hir : Hir)
    (kind : ExtractKind)
    (ignoreCase : Bool) : Option RegexLiteralPlan :=
  (R.extract kind maxRegexClassLiterals maxRegexPrefilterLiterals hir).bind (fun literals =>
    RegexLiteralPlan.fromRaw literals ignoreCase)

/-- `select_regex_prefilter_literals`. -/
def selectRegexPrefilterLiterals
    (R : RegexCrate)
    (pattern : Text)
    (ignoreCase : Bool) : Option RegexLiteralPlan :=
  (R.parse pattern).bind (fun hir =>
    maxBy compareRegexLiteralPlans
      [extractEdgeLiteralPlan R hir .prefixes ignoreCase,
        extractEdgeLiteralPlan R hir .suffixes ignoreCase,
        extractInnerLiteralPlan ignoreCase hir].reduceOption)

/-- What the extractor promises: every match starts, or ends, with one of its literals. -/
structure ExtractorSound (R : RegexCrate) : Prop where
  prefixes : ∀ hir c t literals, R.extract .prefixes c t hir = some literals →
    ∀ w, hir.Denotes w → ∃ l ∈ literals, l <+: w
  suffixes : ∀ hir c t literals, R.extract .suffixes c t hir = some literals →
    ∀ w, hir.Denotes w → ∃ l ∈ literals, l <:+ w

/-! ## Soundness of a plan -/

theorem mem_of_maxBy
    {α : Type*}
    {cmp : α → α → Ordering}
    {l : List α}
    {x : α}
    (h : maxBy cmp l = some x) :
    x ∈ l := by
  have hfold : ∀ (l : List α) (a : α),
      l.foldl (fun x y => if cmp x y = .gt then x else y) a ∈ a :: l := by
    intro l
    induction l with
    | nil => simp
    | cons b l ih =>
        intro a
        rw [List.foldl_cons]
        split_ifs with hgt
        · rcases List.mem_cons.mp (ih a) with h | h
          · simp [h]
          · exact List.mem_cons_of_mem _ (List.mem_cons_of_mem _ h)
        · exact List.mem_cons_of_mem _ (ih b)
  cases l with
  | nil => cases h
  | cons a l =>
      cases h
      exact hfold l a

namespace RegexLiteralPlan

/-- The bytes as a plan looks for them. -/
def foldCase
    (ignoreCase : Bool)
    (w : Bytes) : Bytes :=
  if ignoreCase then w.map asciiLowerByte else w

theorem foldCase_isInfix
    {ignoreCase : Bool}
    {u w : Bytes}
    (h : u <:+: w) :
    foldCase ignoreCase u <:+: foldCase ignoreCase w := by
  cases ignoreCase with
  | false => exact h
  | true => exact lower_isInfix h

theorem map_asciiLowerByte_foldCase
    (ignoreCase : Bool)
    (w : Bytes) :
    (foldCase ignoreCase w).map asciiLowerByte = w.map asciiLowerByte := by
  cases ignoreCase with
  | false => rfl
  | true => simp [foldCase, Function.comp_def, asciiLowerByte_idem]

/-- Some literal of the plan occurs in `w`, folded as the plan is. -/
def FoundIn
    (plan : RegexLiteralPlan)
    (ignoreCase : Bool)
    (w : Bytes) : Prop :=
  ∃ l ∈ plan.literals, l <:+: foldCase ignoreCase w

/-- Every literal of the plan has a trigram. -/
def Long (plan : RegexLiteralPlan) : Prop :=
  ∀ l ∈ plan.literals, trigramLen ≤ l.length

theorem normalizeLong_eq_some
    {ignoreCase : Bool}
    {l l' : Bytes}
    (h : normalizeLong ignoreCase l = some l') :
    l' = foldCase ignoreCase l ∧ trigramLen ≤ l'.length := by
  obtain ⟨x, hx, hlen⟩ := Option.bind_eq_some_iff.mp h
  split_ifs at hlen with hshort
  cases hlen
  refine ⟨?_, by omega⟩
  rw [normalizePrefilterLiteral] at hx
  rw [foldCase]
  split_ifs at hx ⊢
  · cases hx
    rfl
  · cases hx
    rfl

/-- A plan has each of its raw literals folded, and none is short. -/
theorem fromRaw_eq_some
    {literals : List Bytes}
    {ignoreCase : Bool}
    {plan : RegexLiteralPlan}
    (h : fromRaw literals ignoreCase = some plan) :
    (∀ l ∈ literals, foldCase ignoreCase l ∈ plan.literals) ∧ plan.Long := by
  rw [fromRaw] at h
  split_ifs at h
  obtain ⟨normalized, hmap, h⟩ := Option.bind_eq_some_iff.mp h
  split_ifs at h
  cases h
  have hall := mapM_eq_some_iff.mp hmap
  refine ⟨?_, ?_⟩
  · intro l hl
    obtain ⟨l', hl', hnorm⟩ := exists_right_of_forall₂ hall hl
    rw [← (normalizeLong_eq_some hnorm).1]
    exact (mem_sortDedup nameKey_injective).mpr hl'
  · intro l' hl'
    obtain ⟨l, -, hnorm⟩ := exists_left_of_forall₂ hall
      ((mem_sortDedup nameKey_injective).mp hl')
    exact (normalizeLong_eq_some hnorm).2

theorem FoundIn.mono
    {plan : RegexLiteralPlan}
    {ignoreCase : Bool}
    {u w : Bytes}
    (h : plan.FoundIn ignoreCase u)
    (hsub : u <:+: w) :
    plan.FoundIn ignoreCase w := by
  obtain ⟨l, hl, hlu⟩ := h
  exact ⟨l, hl, hlu.trans (foldCase_isInfix hsub)⟩

/-- A plan is found in what contains one of its raw literals. -/
theorem foundIn_of_fromRaw
    {literals : List Bytes}
    {ignoreCase : Bool}
    {plan : RegexLiteralPlan}
    (h : fromRaw literals ignoreCase = some plan)
    {l w : Bytes}
    (hl : l ∈ literals)
    (hw : l <:+: w) :
    plan.FoundIn ignoreCase w :=
  ⟨foldCase ignoreCase l, (fromRaw_eq_some h).1 l hl, foldCase_isInfix hw⟩

/-- What a plan is found in it covers. -/
theorem FoundIn.covers
    {plan : RegexLiteralPlan}
    {ignoreCase : Bool}
    {w : Bytes}
    (h : plan.FoundIn ignoreCase w) :
    plan.Covers w := by
  obtain ⟨l, hl, hlw⟩ := h
  refine ⟨l, hl, ?_⟩
  rw [← map_asciiLowerByte_foldCase ignoreCase w]
  exact lower_isInfix hlw

end RegexLiteralPlan

open RegexLiteralPlan

/-! ### The plans that may be chosen -/

/-- The plans that `extract_inner_literal_plan` may come to: of a concatenation it may take the plan
of any part. -/
inductive InnerPlan (ignoreCase : Bool) : Hir → RegexLiteralPlan → Prop where
  | literal
      {b : Bytes}
      {plan : RegexLiteralPlan}
      (hraw : fromRaw [b] ignoreCase = some plan) :
      InnerPlan ignoreCase (.literal b) plan
  | capture
      {sub : Hir}
      {plan : RegexLiteralPlan}
      (hsub : InnerPlan ignoreCase sub plan) :
      InnerPlan ignoreCase (.capture sub) plan
  | repetition
      {min : Nat}
      {max : Option Nat}
      {sub : Hir}
      {plan : RegexLiteralPlan}
      (hmin : 0 < min)
      (hsub : InnerPlan ignoreCase sub plan) :
      InnerPlan ignoreCase (.repetition min max sub) plan
  | concat
      {parts : List Hir}
      {part : Hir}
      {plan : RegexLiteralPlan}
      (hmem : part ∈ parts)
      (hpart : InnerPlan ignoreCase part plan) :
      InnerPlan ignoreCase (.concat parts) plan
  | alternation
      {parts : List Hir}
      {plans : List RegexLiteralPlan}
      {plan : RegexLiteralPlan}
      (hlength : plans.length = parts.length)
      (hparts : ∀ p ∈ parts.zip plans, InnerPlan ignoreCase p.1 p.2)
      (hraw : fromRaw (plans.flatMap RegexLiteralPlan.literals) false = some plan) :
      InnerPlan ignoreCase (.alternation parts) plan

/-- A plan that the selection may take: one of an edge, or an inner one. -/
def PossiblePlan
    (R : RegexCrate)
    (hir : Hir)
    (ignoreCase : Bool)
    (plan : RegexLiteralPlan) : Prop :=
  (∃ kind, extractEdgeLiteralPlan R hir kind ignoreCase = some plan) ∨
    InnerPlan ignoreCase hir plan

/-- What a concatenation stands for contains a string of each part. -/
theorem exists_isInfix_of_concatDenotes
    {parts : List Hir}
    {part : Hir}
    {w : Bytes}
    (hmem : part ∈ parts)
    (hw : ConcatDenotes parts w) :
    ∃ u, part.Denotes u ∧ u <:+: w := by
  induction parts generalizing w with
  | nil => exact absurd hmem List.not_mem_nil
  | cons first parts ih =>
      rw [ConcatDenotes] at hw
      obtain ⟨u, v, hu, hv, rfl⟩ := hw
      rcases List.mem_cons.mp hmem with rfl | hmem
      · exact ⟨u, hu, (List.prefix_append u v).isInfix⟩
      · obtain ⟨u', hu', hsub⟩ := ih hmem hv
        exact ⟨u', hu', hsub.trans (List.suffix_append u v).isInfix⟩

/-- An alternation stands for what one of its parts stands for. -/
theorem alternationDenotes_iff
    {parts : List Hir}
    {w : Bytes} :
    AlternationDenotes parts w ↔ ∃ part ∈ parts, part.Denotes w := by
  induction parts with
  | nil => simp [AlternationDenotes]
  | cons first parts ih => simp [AlternationDenotes, ih]

namespace InnerPlan

variable {ignoreCase : Bool} {hir : Hir} {plan : RegexLiteralPlan}

/-- Every string a pattern stands for contains a literal of its plan. -/
theorem foundIn
    (h : InnerPlan ignoreCase hir plan)
    {w : Bytes}
    (hw : hir.Denotes w) :
    plan.FoundIn ignoreCase w := by
  induction h generalizing w with
  | literal hraw =>
      rw [Hir.Denotes] at hw
      exact foundIn_of_fromRaw hraw (List.mem_singleton_self _) (hw ▸ List.infix_refl _)
  | capture _ ih =>
      rw [Hir.Denotes] at hw
      exact ih hw
  | repetition hmin _ ih =>
      rw [Hir.Denotes] at hw
      obtain ⟨ws, hlen, -, hws, rfl⟩ := hw
      cases ws with
      | nil =>
          rw [List.length_nil] at hlen
          omega
      | cons u ws =>
          exact (ih (hws u List.mem_cons_self)).mono ⟨[], ws.flatten, by simp⟩
  | concat hmem _ ih =>
      rw [Hir.Denotes] at hw
      obtain ⟨u, hu, hsub⟩ := exists_isInfix_of_concatDenotes hmem hw
      exact (ih hu).mono hsub
  | @alternation parts plans _ hlength _ hraw ih =>
      rw [Hir.Denotes, alternationDenotes_iff] at hw
      obtain ⟨part, hpart, hw⟩ := hw
      obtain ⟨i, hi, rfl⟩ := List.mem_iff_getElem.mp hpart
      have hi' : i < plans.length := by omega
      have hpair : (parts[i], plans[i]) ∈ parts.zip plans :=
        List.mem_iff_getElem.mpr ⟨i, by simp [hi, hi'], by simp⟩
      obtain ⟨l, hl, hlw⟩ := ih _ hpair hw
      -- the literals of the parts are folded already
      exact ⟨l, (fromRaw_eq_some hraw).1 l
        (List.mem_flatMap.mpr ⟨plans[i], List.getElem_mem hi', hl⟩), hlw⟩

/-- No literal of a plan is short. -/
theorem long
    (h : InnerPlan ignoreCase hir plan) :
    plan.Long := by
  induction h with
  | literal hraw => exact (fromRaw_eq_some hraw).2
  | capture _ ih => exact ih
  | repetition _ _ ih => exact ih
  | concat _ _ ih => exact ih
  | alternation _ _ hraw _ => exact (fromRaw_eq_some hraw).2

end InnerPlan

mutual

/-- The plan that is extracted is one of those. -/
theorem innerPlan_of_extract
    (ignoreCase : Bool) :
    ∀ (hir : Hir) {plan : RegexLiteralPlan},
      extractInnerLiteralPlan ignoreCase hir = some plan → InnerPlan ignoreCase hir plan
  | .empty, _, h => by
      rw [extractInnerLiteralPlan] at h
      cases h
  | .charClass _, _, h => by
      rw [extractInnerLiteralPlan] at h
      cases h
  | .look, _, h => by
      rw [extractInnerLiteralPlan] at h
      cases h
  | .literal b, _, h => by
      rw [extractInnerLiteralPlan] at h
      exact .literal h
  | .capture sub, _, h => by
      rw [extractInnerLiteralPlan] at h
      exact .capture (innerPlan_of_extract ignoreCase sub h)
  | .repetition min max sub, _, h => by
      rw [extractInnerLiteralPlan] at h
      split_ifs at h with hmin
      exact .repetition hmin (innerPlan_of_extract ignoreCase sub h)
  | .concat parts, _, h => by
      rw [extractInnerLiteralPlan] at h
      obtain ⟨part, hpart, hplan⟩ := exists_part_of_innerPlans ignoreCase parts
        (List.reduceOption_mem_iff.mp (mem_of_maxBy h))
      exact .concat hpart hplan
  | .alternation parts, _, h => by
      rw [extractInnerLiteralPlan] at h
      obtain ⟨combined, hcombined, h⟩ := Option.bind_eq_some_iff.mp h
      obtain ⟨plans, hlength, hparts, rfl⟩ := exists_plans_of_combinePlans ignoreCase parts hcombined
      exact .alternation hlength hparts h

theorem exists_part_of_innerPlans
    (ignoreCase : Bool) :
    ∀ (parts : List Hir) {plan : RegexLiteralPlan},
      some plan ∈ innerPlans ignoreCase parts →
        ∃ part ∈ parts, InnerPlan ignoreCase part plan
  | [], _, h => by
      rw [innerPlans] at h
      cases h
  | part :: parts, _, h => by
      rw [innerPlans] at h
      rcases List.mem_cons.mp h with h | h
      · exact ⟨part, List.mem_cons_self, innerPlan_of_extract ignoreCase part h.symm⟩
      · obtain ⟨part', hpart', hplan⟩ := exists_part_of_innerPlans ignoreCase parts h
        exact ⟨part', List.mem_cons_of_mem _ hpart', hplan⟩

/-- Combined literals are those of one plan for each part. -/
theorem exists_plans_of_combinePlans
    (ignoreCase : Bool) :
    ∀ (parts : List Hir) {combined literals : List Bytes},
      combinePlans combined (innerPlans ignoreCase parts) = some literals →
        ∃ plans : List RegexLiteralPlan, plans.length = parts.length ∧
          (∀ p ∈ parts.zip plans, InnerPlan ignoreCase p.1 p.2) ∧
            literals = combined ++ plans.flatMap RegexLiteralPlan.literals
  | [], _, _, h => by
      rw [innerPlans, combinePlans] at h
      cases h
      exact ⟨[], rfl, by simp, by simp⟩
  | part :: parts, combined, _, h => by
      rw [innerPlans] at h
      cases hpart : extractInnerLiteralPlan ignoreCase part with
      | none =>
          rw [hpart] at h
          cases h
      | some plan =>
          rw [hpart, combinePlans] at h
          split_ifs at h
          obtain ⟨plans, hlength, hparts, rfl⟩ := exists_plans_of_combinePlans ignoreCase parts h
          refine ⟨plan :: plans, by simp [hlength], ?_, by simp⟩
          intro p hp
          rcases List.mem_cons.mp hp with rfl | hp
          · exact innerPlan_of_extract ignoreCase part hpart
          · exact hparts p hp

end

/-- The selected plan is one that may be selected. -/
theorem possiblePlan_of_select
    {R : RegexCrate}
    {pattern : Text}
    {ignoreCase : Bool}
    {hir : Hir}
    {plan : RegexLiteralPlan}
    (hparse : R.parse pattern = some hir)
    (h : selectRegexPrefilterLiterals R pattern ignoreCase = some plan) :
    PossiblePlan R hir ignoreCase plan := by
  rw [selectRegexPrefilterLiterals, hparse, Option.bind_some] at h
  have hmem := List.reduceOption_mem_iff.mp (mem_of_maxBy h)
  simp only [List.mem_cons, List.not_mem_nil, or_false] at hmem
  rcases hmem with hmem | hmem | hmem
  · exact Or.inl ⟨.prefixes, hmem.symm⟩
  · exact Or.inl ⟨.suffixes, hmem.symm⟩
  · exact Or.inr (innerPlan_of_extract ignoreCase hir hmem.symm)

namespace PossiblePlan

variable {R : RegexCrate} {hir : Hir} {ignoreCase : Bool} {plan : RegexLiteralPlan}

theorem long
    (h : PossiblePlan R hir ignoreCase plan) :
    plan.Long := by
  rcases h with ⟨kind, hedge⟩ | hinner
  · obtain ⟨literals, -, hraw⟩ := Option.bind_eq_some_iff.mp hedge
    exact (fromRaw_eq_some hraw).2
  · exact hinner.long

/-- Every string a pattern stands for contains a literal of any plan that may be selected. -/
theorem foundIn
    (hR : ExtractorSound R)
    (h : PossiblePlan R hir ignoreCase plan)
    {w : Bytes}
    (hw : hir.Denotes w) :
    plan.FoundIn ignoreCase w := by
  rcases h with ⟨kind, hedge⟩ | hinner
  · obtain ⟨literals, hextract, hraw⟩ := Option.bind_eq_some_iff.mp hedge
    cases kind with
    | prefixes =>
        obtain ⟨l, hl, hstart⟩ := hR.prefixes hir _ _ literals hextract w hw
        exact foundIn_of_fromRaw hraw hl hstart.isInfix
    | suffixes =>
        obtain ⟨l, hl, hend⟩ := hR.suffixes hir _ _ literals hextract w hw
        exact foundIn_of_fromRaw hraw hl hend.isInfix
  · exact hinner.foundIn hw

end PossiblePlan

/-- No literal of a selected plan is short. -/
theorem selectRegexPrefilterLiterals_long
    {R : RegexCrate}
    {pattern : Text}
    {ignoreCase : Bool}
    {plan : RegexLiteralPlan}
    (h : selectRegexPrefilterLiterals R pattern ignoreCase = some plan) :
    plan.Long := by
  obtain ⟨hir, hparse, -⟩ := Option.bind_eq_some_iff.mp h
  exact (possiblePlan_of_select hparse h).long

/-- Every string a pattern stands for contains a literal of the selected plan. -/
theorem selectRegexPrefilterLiterals_covers
    {R : RegexCrate}
    (hR : ExtractorSound R)
    {pattern : Text}
    {ignoreCase : Bool}
    {hir : Hir}
    {plan : RegexLiteralPlan}
    (hparse : R.parse pattern = some hir)
    (h : selectRegexPrefilterLiterals R pattern ignoreCase = some plan)
    {w : Bytes}
    (hw : hir.Denotes w) :
    plan.Covers w :=
  ((possiblePlan_of_select hparse h).foundIn hR hw).covers

/-! ### Soundness of the prefilter -/

/-- Without case folding every string that a regex stands for contains a literal of the selected
plan, no literal is short, and a line with a match has all trigrams of a literal; and this does not
depend on which of the possible plans is selected. -/
theorem regex_prefilter_sound
    {R : RegexCrate}
    (hR : ExtractorSound R)
    {pattern : Text}
    {hir : Hir}
    (hparse : R.parse pattern = some hir) :
    (∀ plan, selectRegexPrefilterLiterals R pattern false = some plan →
      PossiblePlan R hir false plan) ∧
    ∀ plan, PossiblePlan R hir false plan →
      (∀ w, hir.Denotes w → ∃ l ∈ plan.literals, l <:+: w) ∧
      (∀ l ∈ plan.literals, 3 ≤ l.length) ∧
      ∀ line w, hir.Denotes w → w <:+: line →
        ∃ l ∈ plan.literals, extractTrigrams l ≠ [] ∧
          ∀ t ∈ extractTrigrams l, t ∈ lineTrigrams line := by
  refine ⟨fun plan h => possiblePlan_of_select hparse h, fun plan h => ?_⟩
  have hfound : ∀ w, hir.Denotes w → ∃ l ∈ plan.literals, l <:+: w := fun w hw =>
    h.foundIn hR hw
  refine ⟨hfound, h.long, ?_⟩
  intro line w hw hline
  obtain ⟨l, hl, hlw⟩ := hfound w hw
  refine ⟨l, hl, extractTrigrams_ne_nil (h.long l hl), fun t ht => ?_⟩
  exact extractTrigrams_subset_of_isInfix (lower_isInfix (hlw.trans hline)) ht

/-- A crate with the one pattern `needle`, a literal. -/
def needleCrate : RegexCrate where
  parse pattern := if pattern = "needle".toList then some (.literal (utf8 pattern)) else none
  extract _ _ _ hir :=
    match hir with
    | .literal b => some [b]
    | _ => none
  build _ _ := none

theorem extractorSound_needleCrate :
    ExtractorSound needleCrate := by
  have hliteral : ∀ kind hir c t literals, needleCrate.extract kind c t hir = some literals →
      ∀ w, hir.Denotes w → w ∈ literals := by
    intro kind hir c t literals hextract w hw
    cases hir <;> cases hextract
    rw [Hir.Denotes] at hw
    simp [hw]
  exact
    { prefixes := fun hir c t literals hextract w hw =>
        ⟨w, hliteral .prefixes hir c t literals hextract w hw, List.prefix_refl w⟩
      suffixes := fun hir c t literals hextract w hw =>
        ⟨w, hliteral .suffixes hir c t literals hextract w hw, List.suffix_refl w⟩ }

theorem regex_prefilter_sound_needle :
    (∀ plan, selectRegexPrefilterLiterals needleCrate "needle".toList false = some plan →
      PossiblePlan needleCrate (.literal (utf8 "needle".toList)) false plan) ∧
    ∀ plan, PossiblePlan needleCrate (.literal (utf8 "needle".toList)) false plan →
      (∀ w, (Hir.literal (utf8 "needle".toList)).Denotes w → ∃ l ∈ plan.literals, l <:+: w) ∧
      (∀ l ∈ plan.literals, 3 ≤ l.length) ∧
      ∀ line w, (Hir.literal (utf8 "needle".toList)).Denotes w → w <:+: line →
        ∃ l ∈ plan.literals, extractTrigrams l ≠ [] ∧
          ∀ t ∈ extractTrigrams l, t ∈ lineTrigrams line :=
  regex_prefilter_sound extractorSound_needleCrate rfl

end Index
end TensorGrep
