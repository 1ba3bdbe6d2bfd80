import Mathlib.Data.List.Induction
import Mathlib.Data.Option.Basic

/-!
# Lists of rules

In a list of rules the last one that applies decides (`lastMatch`).

Rules may be inherited: positions are ordered, and a position has the rules of the
positions below it and rules of its own behind them.  A rule covers a position if
it matches it or a position below that has the rule.  Deciding by the rules that
cover instead of those that match excludes nothing more, and something less exactly
where a rule that covers only comes after the last one that matches
(`keeps_iff_keeps_iff`).
-/

namespace TensorGrep
namespace Kernel

universe u v

/-! ## The last rule that applies -/

section LastMatch

variable {ρ : Type u} (applies : ρ → Bool)

/-- The last rule that applies. -/
def lastMatch (rules : List ρ) : Option ρ :=
  rules.foldl (fun found rule => if applies rule then some rule else found) none

variable {applies}

theorem foldl_lastMatch
    (rules : List ρ)
    (found : Option ρ) :
    rules.foldl (fun found rule => if applies rule then some rule else found) found =
      (lastMatch applies rules).or found := by
  induction rules generalizing found with
  | nil => rfl
  | cons rule rules ih =>
      rw [lastMatch, List.foldl_cons, List.foldl_cons, ih, ih, Option.or_assoc]
      cases applies rule <;> simp

theorem lastMatch_append
    (rules rules' : List ρ) :
    lastMatch applies (rules ++ rules') =
      (lastMatch applies rules').or (lastMatch applies rules) := by
  rw [lastMatch, List.foldl_append, foldl_lastMatch]
  rfl

theorem lastMatch_flatMap
    {α : Type v}
    (rulesOf : α → List ρ)
    (l : List α) :
    lastMatch applies (l.flatMap rulesOf) =
      l.foldl (fun found a => (lastMatch applies (rulesOf a)).or found) none := by
  induction l using List.reverseRecOn with
  | nil => rfl
  | append_singleton l a ih =>
      rw [List.flatMap_append, lastMatch_append, List.foldl_append, ← ih]
      simp

theorem lastMatch_map
    {σ : Type v}
    (rule : σ → ρ)
    (l : List σ) :
    lastMatch applies (l.map rule) = (lastMatch (fun a => applies (rule a)) l).map rule := by
  induction l using List.reverseRecOn with
  | nil => rfl
  | append_singleton l a ih =>
      rw [List.map_append, lastMatch_append, lastMatch_append, ih]
      simp only [lastMatch, List.map_cons, List.map_nil, List.foldl_cons, List.foldl_nil]
      split <;> simp

/-- The last rule that applies is one of the rules, and applies. -/
theorem mem_of_lastMatch
    {rules : List ρ}
    {rule : ρ}
    (h : lastMatch applies rules = some rule) :
    rule ∈ rules ∧ applies rule = true := by
  induction rules using List.reverseRecOn with
  | nil => cases h
  | append_singleton rules last ih =>
      rw [lastMatch_append] at h
      by_cases hlast : applies last = true
      · have hrule : last = rule := by simpa [lastMatch, hlast] using h
        exact ⟨by simp [hrule], hrule ▸ hlast⟩
      · obtain ⟨hmem, happlies⟩ := ih (by simpa [lastMatch, hlast] using h)
        exact ⟨List.mem_append_left _ hmem, happlies⟩

end LastMatch

/-- The last rule that applies excludes. -/
def Excludes
    {ρ : Type u}
    (ignores applies : ρ → Prop)
    (rules : List ρ) : Prop :=
  ∃ before rule after, rules = before ++ rule :: after ∧ ignores rule ∧ applies rule ∧
    ∀ rule' ∈ after, ¬ applies rule'

section Excludes

variable {ρ : Type u} {ignores applies : ρ → Prop}

theorem excludes_concat_iff
    (rules : List ρ)
    (rule : ρ) :
    Excludes ignores applies (rules ++ [rule]) ↔
      applies rule ∧ ignores rule ∨ ¬ applies rule ∧ Excludes ignores applies rules := by
  constructor
  · rintro ⟨before, r, after, heq, hignores, happlies, hafter⟩
    rcases List.eq_nil_or_concat after with rfl | ⟨after, last, rfl⟩
    · obtain ⟨-, hlast⟩ := List.append_inj' heq rfl
      obtain rfl := (List.cons.inj hlast).1
      exact Or.inl ⟨happlies, hignores⟩
    · rw [List.concat_eq_append] at hafter heq
      rw [← List.cons_append, ← List.append_assoc] at heq
      obtain ⟨hrules, hlast⟩ := List.append_inj' heq rfl
      obtain rfl := (List.cons.inj hlast).1
      refine Or.inr ⟨hafter _ (by simp), before, r, after, hrules, hignores, happlies, ?_⟩
      exact fun rule' hrule => hafter rule' (List.mem_append_left _ hrule)
  · rintro (⟨happlies, hignores⟩ | ⟨hnot, before, r, after, rfl, hignores, happlies, hafter⟩)
    · exact ⟨rules, rule, [], rfl, hignores, happlies, by simp⟩
    · refine ⟨before, r, after ++ [rule], by simp, hignores, happlies, ?_⟩
      intro rule' hrule
      rcases List.mem_append.mp hrule with hmem | hmem
      · exact hafter rule' hmem
      · exact List.mem_singleton.mp hmem ▸ hnot

theorem any_lastMatch_iff
    {ignores applies : ρ → Bool}
    {rules : List ρ} :
    (lastMatch applies rules).any ignores = true ↔
      Excludes (fun rule => ignores rule = true) (fun rule => applies rule = true) rules := by
  induction rules using List.reverseRecOn with
  | nil =>
      refine iff_of_false Bool.false_ne_true ?_
      rintro ⟨before, rule, after, heq, -⟩
      exact absurd (congrArg List.length heq) (by simp)
  | append_singleton rules rule ih =>
      rw [excludes_concat_iff, ← ih, lastMatch_append]
      simp only [lastMatch, List.foldl_cons, List.foldl_nil]
      cases applies rule <;> simp

theorem Excludes.congr
    {applies' : ρ → Prop}
    {rules : List ρ}
    (h : ∀ rule ∈ rules, (applies rule ↔ applies' rule)) :
    Excludes ignores applies rules ↔ Excludes ignores applies' rules := by
  induction rules using List.reverseRecOn with
  | nil =>
      constructor
      · rintro ⟨before, rule, after, heq, -⟩
        exact absurd (congrArg List.length heq) (by simp)
      · rintro ⟨before, rule, after, heq, -⟩
        exact absurd (congrArg List.length heq) (by simp)
  | append_singleton rules rule ih =>
      rw [excludes_concat_iff, excludes_concat_iff, h rule (by simp),
        ih fun rule' hrule => h rule' (List.mem_append_left _ hrule)]

end Excludes

/-! ## Inherited rules -/

section Inherited

variable {π : Type u} {ρ : Type v} (le : π → π → Prop) (rules : π → List ρ) (own : ρ → π → Prop)

/-- A position has the rules of a smaller one, and others behind them. -/
def Inherits : Prop :=
  ∀ p q, le p q → ∃ more, rules q = rules p ++ more ∧ ∀ rule ∈ more, rule ∉ rules p

/-- A rule matches the position or a smaller one that has the rule. -/
def Covers
    (rule : ρ)
    (q : π) : Prop :=
  ∃ p, le p q ∧ rule ∈ rules p ∧ own rule p

/-- After the last rule that matches, which excludes, comes one that covers and does not exclude. -/
def Reincludes
    (ignores : ρ → Prop)
    (q : π) : Prop :=
  ∃ before rule after, rules q = before ++ rule :: after ∧ ignores rule ∧ own rule q ∧
    (∀ rule' ∈ after, ¬ own rule' q) ∧
      ∃ rule' ∈ after, ¬ ignores rule' ∧ Covers le rules own rule' q

variable {le rules own} {ignores : ρ → Prop}

/-- Where the last rule that covers excludes, the last one that matches a smaller position does. -/
theorem exists_excludes_own
    (hinherits : Inherits le rules)
    {q : π}
    (h : Excludes ignores (fun rule => Covers le rules own rule q) (rules q)) :
    ∃ p, le p q ∧ Excludes ignores (fun rule => own rule p) (rules p) := by
  obtain ⟨before, rule, after, heq, hignores, ⟨p, hp, hrule, hown⟩, hafter⟩ := h
  obtain ⟨more, hmore, hnew⟩ := hinherits p q hp
  refine ⟨p, hp, ?_⟩
  -- the rule stands among those of the smaller position
  obtain ⟨after', hrules, hsub⟩ : ∃ after', rules p = before ++ rule :: after' ∧
      ∀ rule' ∈ after', rule' ∈ after := by
    rw [hmore] at heq
    rcases List.append_eq_append_iff.mp heq with ⟨middle, hbefore, hrest⟩ | ⟨middle, hrules, hrest⟩
    · exact absurd hrule (hnew rule (hrest ▸ by simp))
    · cases middle with
      | nil => exact absurd hrule (hnew rule (by rw [List.nil_append] at hrest; simp [← hrest]))
      | cons first middle =>
          rw [List.cons_append] at hrest
          obtain ⟨rfl, hafter_eq⟩ := List.cons.inj hrest
          exact ⟨middle, hrules, fun rule' hr => hafter_eq ▸ List.mem_append_left _ hr⟩
  refine ⟨before, rule, after', hrules, hignores, hown, ?_⟩
  intro rule' hr hown'
  refine hafter rule' (hsub rule' hr) ⟨p, hp, ?_, hown'⟩
  rw [hrules]
  exact List.mem_append_right _ (List.mem_cons_of_mem _ hr)

/-- The last one of a list with a property. -/
theorem exists_last
    {P : ρ → Prop}
    {l : List ρ}
    (h : ∃ a ∈ l, P a) :
    ∃ before a after, l = before ++ a :: after ∧ P a ∧ ∀ b ∈ after, ¬ P b := by
  induction l using List.reverseRecOn with
  | nil =>
      obtain ⟨a, ha, -⟩ := h
      cases ha
  | append_singleton l last ih =>
      by_cases hlast : P last
      · exact ⟨l, last, [], rfl, hlast, by simp⟩
      · obtain ⟨a, ha, hP⟩ := h
        have hmem : a ∈ l := by
          rcases List.mem_append.mp ha with hmem | hmem
          · exact hmem
          · exact absurd hP (List.mem_singleton.mp hmem ▸ hlast)
        obtain ⟨before, b, after, rfl, hb, hafter⟩ := ih ⟨a, hmem, hP⟩
        refine ⟨before, b, after ++ [last], by simp, hb, ?_⟩
        intro c hc
        rcases List.mem_append.mp hc with hc | hc
        · exact hafter c hc
        · exact List.mem_singleton.mp hc ▸ hlast

/-- Where the last rule that matches excludes, the last one that covers does, or there is one that
covers and does not exclude behind it. -/
theorem excludes_covers_or_reincludes
    (hrefl : ∀ q, le q q)
    {q : π}
    (h : Excludes ignores (fun rule => own rule q) (rules q)) :
    Excludes ignores (fun rule => Covers le rules own rule q) (rules q) ∨
      Reincludes le rules own ignores q := by
  obtain ⟨before, rule, after, heq, hignores, hown, hafter⟩ := h
  have hcovers : Covers le rules own rule q := by
    refine ⟨q, hrefl q, ?_, hown⟩
    rw [heq]
    exact List.mem_append_right _ List.mem_cons_self
  by_cases hkeeps : ∃ rule' ∈ after, ¬ ignores rule' ∧ Covers le rules own rule' q
  · exact Or.inr ⟨before, rule, after, heq, hignores, hown, hafter, hkeeps⟩
  · obtain ⟨before', last, after', hsplit, hlast, hrest⟩ :=
      exists_last (P := fun rule => Covers le rules own rule q) (l := rule :: after)
        ⟨rule, List.mem_cons_self, hcovers⟩
    refine Or.inl ⟨before ++ before', last, after', ?_, ?_, hlast, hrest⟩
    · rw [heq, hsplit, List.append_assoc]
    · have hmem : last ∈ rule :: after := by
        rw [hsplit]
        exact List.mem_append_right _ List.mem_cons_self
      rcases List.mem_cons.mp hmem with rfl | hmem
      · exact hignores
      · by_contra hnot
        exact hkeeps ⟨last, hmem, hnot, hlast⟩

/-- Where something below a position is excluded by the rules that cover, something is excluded by
the rules that match. -/
theorem keeps_covers_of_keeps_own
    (htrans : ∀ p q r, le p q → le q r → le p r)
    (hinherits : Inherits le rules)
    {f : π}
    (h : ∀ q, le q f → ¬ Excludes ignores (fun rule => own rule q) (rules q)) :
    ∀ q, le q f → ¬ Excludes ignores (fun rule => Covers le rules own rule q) (rules q) := by
  intro q hq hexcludes
  obtain ⟨p, hp, hown⟩ := exists_excludes_own hinherits hexcludes
  exact h p (htrans p q f hp hq) hown

/-- Deciding by the rules that cover and by those that match keeps the same position if and only if
something below it is excluded by the rules that cover, or nothing below it is included again. -/
theorem keeps_iff_keeps_iff
    (hrefl : ∀ q, le q q)
    (htrans : ∀ p q r, le p q → le q r → le p r)
    (hinherits : Inherits le rules)
    (f : π) :
    ((∀ q, le q f → ¬ Excludes ignores (fun rule => Covers le rules own rule q) (rules q)) ↔
        ∀ q, le q f → ¬ Excludes ignores (fun rule => own rule q) (rules q)) ↔
      (∃ q, le q f ∧ Excludes ignores (fun rule => Covers le rules own rule q) (rules q)) ∨
        ∀ q, le q f → ¬ Reincludes le rules own ignores q := by
  constructor
  · intro hiff
    by_cases hcut : ∃ q, le q f ∧
        Excludes ignores (fun rule => Covers le rules own rule q) (rules q)
    · exact Or.inl hcut
    · refine Or.inr fun q hq hreincludes => ?_
      obtain ⟨before, rule, after, heq, hignores, hown, hafter, -⟩ := hreincludes
      exact hiff.mp (fun q hq hexcludes => hcut ⟨q, hq, hexcludes⟩) q hq
        ⟨before, rule, after, heq, hignores, hown, hafter⟩
  · rintro (⟨q, hq, hexcludes⟩ | hnone)
    · refine iff_of_false (fun h => h q hq hexcludes) fun h => ?_
      exact keeps_covers_of_keeps_own htrans hinherits h q hq hexcludes
    · refine ⟨fun h q hq hexcludes => ?_, keeps_covers_of_keeps_own htrans hinherits⟩
      rcases excludes_covers_or_reincludes hrefl hexcludes with hcovers | hreincludes
      · exact h q hq hcovers
      · exact hnone q hq hreincludes

end Inherited

end Kernel
end TensorGrep
