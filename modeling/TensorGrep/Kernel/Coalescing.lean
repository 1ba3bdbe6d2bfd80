import Mathlib.Tactic

/-!
# Greedy coalescing

A list is coalesced from left to right: the next element is joined to what was
joined before when it can be, and begins a new piece when it cannot.  The
pieces are the joins of the groups into which the list falls, and no piece can
be joined with the first element of the next group (`exists_groups`).

The elements may be spans of numbers in order.  Joining them gives the span
from the first to the last one of a group (`isHull_of_joined`).
-/

namespace TensorGrep
namespace Kernel

universe u

section Coalescing

variable {α : Type u} {join : α → α → Option α}

/-- Coalesce a list when `cur` has been joined so far. -/
def coalesceFrom
    (join : α → α → Option α)
    (cur : α) : List α → List α
  | [] => [cur]
  | x :: rest =>
      match join cur x with
      | some joined => coalesceFrom join joined rest
      | none => cur :: coalesceFrom join x rest

/-- Coalesce a list. -/
def coalesce
    (join : α → α → Option α) : List α → List α
  | [] => []
  | x :: rest => coalesceFrom join x rest

/-- The elements of a group, joined one after another. -/
inductive Joined (join : α → α → Option α) : List α → α → Prop
  | single (x : α) : Joined join [x] x
  | snoc
      {group : List α}
      {cur x joined : α}
      (h : Joined join group cur)
      (hjoin : join cur x = some joined) :
      Joined join (group ++ [x]) joined

/-- A piece cannot be joined with the first element of the next group. -/
def Apart
    (join : α → α → Option α)
    (p q : List α × α) : Prop :=
  ∃ x rest, q.1 = x :: rest ∧ join p.2 x = none

/-- The first group begins with what has been joined so far. -/
theorem exists_groups_of_joined
    {group rest : List α}
    {cur : α}
    (h : Joined join group cur) :
    ∃ last more,
      ((last :: more).map Prod.snd = coalesceFrom join cur rest) ∧
      ((last :: more).map Prod.fst).flatten = group ++ rest ∧
      (∃ tail, last.1 = group ++ tail) ∧
      (∀ p ∈ last :: more, Joined join p.1 p.2) ∧
      (last :: more).IsChain (Apart join) := by
  induction rest generalizing group cur with
  | nil =>
      refine ⟨(group, cur), [], rfl, by simp, ⟨[], by simp⟩, ?_, List.IsChain.singleton _⟩
      intro p hp
      rw [List.mem_singleton.mp hp]
      exact h
  | cons x rest ih =>
      rw [coalesceFrom]
      cases hjoin : join cur x with
      | some joined =>
          obtain ⟨last, more, hvalues, hgroups, ⟨tail, hlast⟩, hjoined, hchain⟩ :=
            ih (h.snoc hjoin)
          refine ⟨last, more, hvalues, ?_, ⟨x :: tail, ?_⟩, hjoined, hchain⟩
          · rw [hgroups, List.append_assoc, List.singleton_append]
          · rw [hlast, List.append_assoc, List.singleton_append]
      | none =>
          obtain ⟨next, more, hvalues, hgroups, ⟨tail, hnext⟩, hjoined, hchain⟩ :=
            ih (Joined.single x)
          refine ⟨(group, cur), next :: more, ?_, ?_, ⟨[], by simp⟩, ?_, ?_⟩
          · rw [List.map_cons, hvalues]
          · rw [List.map_cons, List.flatten_cons, hgroups, List.singleton_append]
          · intro p hp
            rcases List.mem_cons.mp hp with rfl | hp
            · exact h
            · exact hjoined p hp
          · exact List.isChain_cons_cons.mpr ⟨⟨x, tail, hnext, hjoin⟩, hchain⟩

/-- The pieces are the joins of consecutive groups, and none of them can be joined with the
first element of the next group. -/
theorem exists_groups
    (join : α → α → Option α)
    (l : List α) :
    ∃ pairs : List (List α × α), pairs.map Prod.snd = coalesce join l ∧
      (pairs.map Prod.fst).flatten = l ∧ (∀ p ∈ pairs, Joined join p.1 p.2) ∧
      pairs.IsChain (Apart join) := by
  cases l with
  | nil => exact ⟨[], rfl, rfl, by simp, List.IsChain.nil⟩
  | cons x rest =>
      obtain ⟨last, more, hvalues, hgroups, -, hjoined, hchain⟩ :=
        @exists_groups_of_joined α join [x] rest x (Joined.single x)
      exact ⟨last :: more, hvalues, hgroups, hjoined, hchain⟩

end Coalescing

/-! ## Spans -/

section Spans

/-- The numbers from one to another one. -/
abbrev Span := ℕ × ℕ

/-- A number in a span. -/
def Span.Covers
    (s : Span)
    (n : ℕ) : Prop :=
  s.1 ≤ n ∧ n ≤ s.2

instance (s : Span) (n : ℕ) : Decidable (s.Covers n) :=
  inferInstanceAs (Decidable (_ ∧ _))

/-- Spans in order, each one beginning no earlier than the one before ends. -/
structure SpansInOrder (spans : List Span) : Prop where
  ordered : ∀ s ∈ spans, s.1 ≤ s.2
  inOrder : spans.Pairwise (fun a b => a.2 ≤ b.1)

/-- Spans in order that share no number. -/
structure SpansDisjoint (spans : List Span) : Prop where
  ordered : ∀ s ∈ spans, s.1 ≤ s.2
  disjoint : spans.Pairwise (fun a b => a.2 < b.1)

/-- The span from the first to the last one of a group. -/
structure IsHull
    (group : List Span)
    (s : Span) : Prop where
  start : ∃ first rest, group = first :: rest ∧ s.1 = first.1
  stop : ∃ before last, group = before ++ [last] ∧ s.2 = last.2

variable {join : Span → Span → Option Span} {group spans : List Span} {s : Span} {n : ℕ}

theorem SpansDisjoint.inOrder
    (h : SpansDisjoint spans) :
    SpansInOrder spans :=
  ⟨h.ordered, h.disjoint.imp (fun hlt => hlt.le)⟩

theorem SpansInOrder.sublist
    (h : SpansInOrder spans)
    (hsub : group.Sublist spans) :
    SpansInOrder group :=
  ⟨fun s hs => h.ordered s (hsub.subset hs), h.inOrder.sublist hsub⟩

/-- A number is in at most one of disjoint spans. -/
theorem SpansDisjoint.existsUnique
    (h : SpansDisjoint spans)
    (hcovered : ∃ s ∈ spans, s.Covers n) :
    ∃! s, s ∈ spans ∧ s.Covers n := by
  obtain ⟨s, hs, hn⟩ := hcovered
  refine ⟨s, ⟨hs, hn⟩, ?_⟩
  rintro t ⟨ht, hn'⟩
  have hsymm : Std.Symm (fun a b : Span => a.2 < b.1 ∨ b.2 < a.1) := ⟨fun _ _ => Or.symm⟩
  have hone : spans.Pairwise (fun a b => a.2 < b.1 ∨ b.2 < a.1) := h.disjoint.imp Or.inl
  by_contra hne
  obtain ⟨hs1, hs2⟩ := hn
  obtain ⟨ht1, ht2⟩ := hn'
  rcases hone.forall ht hs hne with hlt | hlt <;> omega

/-- The hull contains its group. -/
theorem IsHull.contains
    (h : IsHull group s)
    (hgroup : SpansInOrder group)
    {t : Span}
    (ht : t ∈ group) :
    s.1 ≤ t.1 ∧ t.2 ≤ s.2 := by
  obtain ⟨first, rest, hfirst, hstart⟩ := h.start
  obtain ⟨before, last, hlast, hstop⟩ := h.stop
  constructor
  · rw [hstart]
    rw [hfirst] at ht hgroup
    rcases List.mem_cons.mp ht with rfl | ht
    · exact le_refl _
    · exact (hgroup.ordered first List.mem_cons_self).trans
        (List.rel_of_pairwise_cons hgroup.inOrder ht)
  · rw [hstop]
    rw [hlast] at ht hgroup
    rcases List.mem_append.mp ht with ht' | ht'
    · exact ((List.pairwise_append.mp hgroup.inOrder).2.2 t ht' last
        (List.mem_singleton_self last)).trans (hgroup.ordered last (by simp))
    · rw [List.mem_singleton.mp ht']

/-- It begins and ends where spans of its group do. -/
theorem IsHull.mem
    (h : IsHull group s) :
    (∃ t ∈ group, s.1 = t.1) ∧ ∃ t ∈ group, s.2 = t.2 := by
  obtain ⟨first, rest, rfl, hstart⟩ := h.start
  obtain ⟨before, last, hlast, hstop⟩ := h.stop
  exact ⟨⟨first, List.mem_cons_self, hstart⟩, ⟨last, by rw [hlast]; simp, hstop⟩⟩

theorem IsHull.ordered
    (h : IsHull group s)
    (hgroup : SpansInOrder group) :
    s.1 ≤ s.2 := by
  obtain ⟨⟨t, ht, hstart⟩, -⟩ := h.mem
  rw [hstart]
  exact (hgroup.ordered t ht).trans (h.contains hgroup ht).2

/-- Two spans in order are joined to the span from the start of one to the end of the other. -/
def JoinsSpans (join : Span → Span → Option Span) : Prop :=
  ∀ a b c, join a b = some c → a.1 ≤ a.2 → a.2 ≤ b.1 → b.1 ≤ b.2 → c = (a.1, b.2)

/-- Joining a group in order gives its hull. -/
theorem isHull_of_joined
    (hjoins : JoinsSpans join)
    (h : Joined join group s)
    (hgroup : SpansInOrder group) :
    IsHull group s := by
  induction h with
  | single x => exact ⟨⟨x, [], rfl, rfl⟩, ⟨[], x, rfl, rfl⟩⟩
  | @snoc group cur x joined _ hjoin ih =>
      have hfront := hgroup.sublist (List.sublist_append_left group [x])
      have hcur := ih hfront
      obtain ⟨⟨first, rest, hfirst, hstart⟩, ⟨before, last, hlast, hstop⟩⟩ := hcur
      have hnext : cur.2 ≤ x.1 := by
        rw [hstop]
        exact (List.pairwise_append.mp hgroup.inOrder).2.2 last (by rw [hlast]; simp) x
          (List.mem_singleton_self x)
      have heq := hjoins cur x joined hjoin
        (IsHull.ordered ⟨⟨first, rest, hfirst, hstart⟩, ⟨before, last, hlast, hstop⟩⟩ hfront)
        hnext (hgroup.ordered x (by simp))
      rw [heq]
      exact ⟨⟨first, rest ++ [x], by rw [hfirst, List.cons_append], hstart⟩,
        ⟨group, x, rfl, rfl⟩⟩

/-- Hulls of groups that follow each other are related as the spans of the groups are. -/
theorem pairwise_hulls
    {R : ℕ → ℕ → Prop}
    {pairs : List (List Span × Span)}
    (hflatten : ((pairs.map Prod.fst).flatten).Pairwise (fun a b => R a.2 b.1))
    (hhull : ∀ p ∈ pairs, IsHull p.1 p.2) :
    (pairs.map Prod.snd).Pairwise (fun a b => R a.2 b.1) := by
  obtain ⟨-, hbetween⟩ := List.pairwise_flatten.mp hflatten
  rw [List.pairwise_map] at hbetween ⊢
  refine hbetween.imp_of_mem ?_
  intro p q hp hq hall
  obtain ⟨-, t, ht, hstop⟩ := (hhull p hp).mem
  obtain ⟨⟨u, hu, hstart⟩, -⟩ := (hhull q hq).mem
  rw [hstop, hstart]
  exact hall t ht u hu

/-- Coalescing spans in order: the groups, and the pieces as their hulls. -/
theorem exists_hulls
    (hjoins : JoinsSpans join)
    (hspans : SpansInOrder spans) :
    ∃ pairs : List (List Span × Span), pairs.map Prod.snd = coalesce join spans ∧
      (pairs.map Prod.fst).flatten = spans ∧ (∀ p ∈ pairs, Joined join p.1 p.2) ∧
      (∀ p ∈ pairs, SpansInOrder p.1) ∧ (∀ p ∈ pairs, IsHull p.1 p.2) ∧
      pairs.IsChain (Apart join) := by
  obtain ⟨pairs, hpieces, hflatten, hjoined, hchain⟩ := exists_groups join spans
  have hgroups : ∀ p ∈ pairs, SpansInOrder p.1 := by
    intro p hp
    rw [← hflatten] at hspans
    exact hspans.sublist (List.sublist_flatten_of_mem (List.mem_map_of_mem hp))
  exact ⟨pairs, hpieces, hflatten, hjoined, hgroups,
    fun p hp => isHull_of_joined hjoins (hjoined p hp) (hgroups p hp), hchain⟩

/-- Every span is contained in one of the pieces. -/
theorem exists_piece_contains
    (hjoins : JoinsSpans join)
    (hspans : SpansInOrder spans)
    {t : Span}
    (ht : t ∈ spans) :
    ∃ s ∈ coalesce join spans, s.1 ≤ t.1 ∧ t.2 ≤ s.2 := by
  obtain ⟨pairs, hpieces, hflatten, -, hgroups, hhull, -⟩ := exists_hulls hjoins hspans
  rw [← hflatten] at ht
  obtain ⟨group, hgroup, ht⟩ := List.mem_flatten.mp ht
  obtain ⟨p, hp, rfl⟩ := List.mem_map.mp hgroup
  refine ⟨p.2, ?_, (hhull p hp).contains (hgroups p hp) ht⟩
  rw [← hpieces]
  exact List.mem_map_of_mem hp

/-- A piece begins and ends where some of the spans do. -/
theorem piece_bounds
    (hjoins : JoinsSpans join)
    (hspans : SpansInOrder spans)
    (hs : s ∈ coalesce join spans) :
    (∃ t ∈ spans, s.1 = t.1) ∧ ∃ t ∈ spans, s.2 = t.2 := by
  obtain ⟨pairs, hpieces, hflatten, -, -, hhull, -⟩ := exists_hulls hjoins hspans
  rw [← hpieces] at hs
  obtain ⟨p, hp, rfl⟩ := List.mem_map.mp hs
  have hsub : ∀ t ∈ p.1, t ∈ spans := by
    intro t ht
    rw [← hflatten]
    exact List.mem_flatten.mpr ⟨p.1, List.mem_map_of_mem hp, ht⟩
  obtain ⟨⟨t, ht, hstart⟩, u, hu, hstop⟩ := (hhull p hp).mem
  exact ⟨⟨t, hsub t ht, hstart⟩, u, hsub u hu, hstop⟩

/-- Pieces of disjoint spans are disjoint. -/
theorem spansDisjoint_coalesce
    (hjoins : JoinsSpans join)
    (hspans : SpansDisjoint spans) :
    SpansDisjoint (coalesce join spans) := by
  obtain ⟨pairs, hpieces, hflatten, -, hgroups, hhull, -⟩ := exists_hulls hjoins hspans.inOrder
  rw [← hpieces]
  refine ⟨?_, pairwise_hulls (by rw [hflatten]; exact hspans.disjoint) hhull⟩
  intro s hs
  obtain ⟨p, hp, rfl⟩ := List.mem_map.mp hs
  exact (hhull p hp).ordered (hgroups p hp)

/-- Pieces of spans in order are disjoint when spans that touch are joined. -/
theorem spansDisjoint_coalesce_of_touching
    (hjoins : JoinsSpans join)
    (htouching : ∀ a b, join a b = none → a.2 < b.1)
    (hspans : SpansInOrder spans) :
    SpansDisjoint (coalesce join spans) := by
  obtain ⟨pairs, hpieces, hflatten, -, hgroups, hhull, hchain⟩ := exists_hulls hjoins hspans
  have hordered : ∀ p ∈ pairs, p.2.1 ≤ p.2.2 :=
    fun p hp => (hhull p hp).ordered (hgroups p hp)
  rw [← hpieces]
  constructor
  · intro s hs
    obtain ⟨p, hp, rfl⟩ := List.mem_map.mp hs
    exact hordered p hp
  · rw [List.pairwise_map]
    have hnext : pairs.IsChain (fun p q => p.2.2 < q.2.1 ∧ q.2.1 ≤ q.2.2) := by
      refine hchain.imp_of_mem_imp ?_
      rintro p q - hq ⟨x, rest, hgroup, hnone⟩
      obtain ⟨first, rest', hfirst, hstart⟩ := (hhull q hq).start
      obtain ⟨rfl, -⟩ := List.cons.inj (hgroup.symm.trans hfirst)
      exact ⟨by rw [hstart]; exact htouching _ _ hnone, hordered q hq⟩
    have htrans : IsTrans (List Span × Span)
        (fun p q => p.2.2 < q.2.1 ∧ q.2.1 ≤ q.2.2) :=
      ⟨fun _ _ _ hpq hqr => ⟨hpq.1.trans (hpq.2.trans_lt hqr.1), hqr.2⟩⟩
    exact hnext.pairwise.imp (fun h => h.1)

end Spans

end Kernel
end TensorGrep
