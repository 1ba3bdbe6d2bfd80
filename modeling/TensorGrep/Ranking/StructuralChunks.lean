import TensorGrep.Kernel.Coalescing
import TensorGrep.RepoMap.Gitignore

/-!
# Chunks along the syntax tree

A syntax tree is split into the largest nodes whose text is within a budget.
The lines of these nodes are made distinct, then spans that follow each other
are merged as long as their text is within the budget.
-/

namespace TensorGrep
namespace Ranking

open Kernel
open RepoMap (isSpaceChar)

/-! ## The tree and its units -/

/-- A node of a syntax tree: the rows of `start_point` and `end_point`, the decoded text and
the children. -/
inductive SyntaxNode where
  | node (startRow endRow : Nat) (text : Text) (children : List SyntaxNode)

namespace SyntaxNode

def startRow : SyntaxNode → Nat
  | node startRow _ _ _ => startRow

def endRow : SyntaxNode → Nat
  | node _ endRow _ _ => endRow

def children : SyntaxNode → List SyntaxNode
  | node _ _ _ children => children

/-- The lines of a node, counted from 1. -/
def lineSpan (n : SyntaxNode) : Span :=
  (n.startRow + 1, n.endRow + 1)

end SyntaxNode

/-- `_non_ws_len`. -/
def nonWsLen (text : Text) : Nat :=
  (text.filter fun c => ! isSpaceChar c).length

mutual

/-- `_leaf_units`. -/
def leafUnits
    (budget : ℤ) : SyntaxNode → List Span
  | .node startRow endRow text children =>
      if children.isEmpty ∨ (nonWsLen text : ℤ) ≤ budget then [(startRow + 1, endRow + 1)]
      else leafUnitsOf budget children

/-- The units of some children, one child after another. -/
def leafUnitsOf
    (budget : ℤ) : List SyntaxNode → List Span
  | [] => []
  | child :: children => leafUnits budget child ++ leafUnitsOf budget children

end

/-- A unit that begins on the last line so far is put together with it. -/
def collapseStep (last unit : Span) : Option Span :=
  if unit.1 ≤ last.2 then some (last.1, max last.2 unit.2) else none

/-- `_collapse_same_line_units`. -/
def collapseSameLineUnits (units : List Span) : List Span :=
  coalesce collapseStep units

/-- The text of some lines. -/
def textOfLines
    (lines : List Text)
    (s : Span) : Text :=
  ((lines.take s.2).drop (s.1 - 1)).flatten

/-- Two spans are merged when their text together is within the budget. -/
def mergeStep
    (lines : List Text)
    (budget : ℤ)
    (cur unit : Span) : Option Span :=
  let candidate : Span := (min cur.1 unit.1, max cur.2 unit.2)
  if (nonWsLen (textOfLines lines candidate) : ℤ) ≤ budget then some candidate else none

/-- `_merge_units`. -/
def mergeUnits
    (units : List Span)
    (lines : List Text)
    (budget : ℤ) : List Span :=
  coalesce (mergeStep lines budget) units

/-- The spans of a tree. -/
def structuralSpans
    (root : SyntaxNode)
    (lines : List Text)
    (budget : ℤ) : List Span :=
  mergeUnits (collapseSameLineUnits (leafUnits budget root)) lines budget

/-! ## Trees in document order -/

/-- A node begins before it ends, and its children are in its rows, each of them after the one
before. -/
inductive DocumentOrder : SyntaxNode → Prop
  | node
      {startRow endRow : Nat}
      {text : Text}
      {children : List SyntaxNode}
      (hrows : startRow ≤ endRow)
      (hinside : ∀ child ∈ children, startRow ≤ child.startRow ∧ child.endRow ≤ endRow)
      (hsiblings : children.Pairwise (fun a b => a.endRow ≤ b.startRow))
      (hchildren : ∀ child ∈ children, DocumentOrder child) :
      DocumentOrder (.node startRow endRow text children)

/-- Some units are in order, and within some lines. -/
structure UnitsWithin
    (units : List Span)
    (s : Span) : Prop extends SpansInOrder units where
  within : ∀ u ∈ units, s.1 ≤ u.1 ∧ u.2 ≤ s.2

/-- The units of siblings follow each other. -/
theorem unitsWithin_leafUnitsOf
    {budget : ℤ}
    {children : List SyntaxNode}
    {s : Span}
    (hunits : ∀ child ∈ children, UnitsWithin (leafUnits budget child) child.lineSpan)
    (hinside : ∀ child ∈ children, s.1 ≤ child.lineSpan.1 ∧ child.lineSpan.2 ≤ s.2)
    (hsiblings : children.Pairwise (fun a b => a.endRow ≤ b.startRow)) :
    UnitsWithin (leafUnitsOf budget children) s := by
  have heq : ∀ l : List SyntaxNode, leafUnitsOf budget l = l.flatMap (leafUnits budget) := by
    intro l
    induction l with
    | nil => rfl
    | cons child l ih => rw [leafUnitsOf, ih, List.flatMap_cons]
  rw [heq]
  refine ⟨⟨?_, ?_⟩, ?_⟩
  · intro u hu
    obtain ⟨child, hchild, hu⟩ := List.mem_flatMap.mp hu
    exact (hunits child hchild).ordered u hu
  · rw [List.pairwise_flatMap]
    refine ⟨fun child hchild => (hunits child hchild).inOrder, ?_⟩
    refine hsiblings.imp_of_mem ?_
    intro a b ha hb hle u hu v hv
    have hu' := ((hunits a ha).within u hu).2
    have hv' := ((hunits b hb).within v hv).1
    have hrows : a.lineSpan.2 ≤ b.lineSpan.1 := Nat.succ_le_succ hle
    exact hu'.trans (hrows.trans hv')
  · intro u hu
    obtain ⟨child, hchild, hu⟩ := List.mem_flatMap.mp hu
    obtain ⟨hstart, hstop⟩ := (hunits child hchild).within u hu
    exact ⟨(hinside child hchild).1.trans hstart, hstop.trans (hinside child hchild).2⟩

/-- The units of a tree are in order, and within the lines of its root. -/
theorem unitsWithin_leafUnits
    (budget : ℤ)
    {root : SyntaxNode}
    (h : DocumentOrder root) :
    UnitsWithin (leafUnits budget root) root.lineSpan := by
  induction h with
  | @node startRow endRow text children hrows hinside hsiblings _ ih =>
      rw [leafUnits]
      split_ifs
      · refine ⟨⟨?_, List.pairwise_singleton _ _⟩, ?_⟩
        · intro u hu
          rw [List.mem_singleton.mp hu]
          exact Nat.succ_le_succ hrows
        · intro u hu
          rw [List.mem_singleton.mp hu]
          exact ⟨le_refl _, le_refl _⟩
      · refine unitsWithin_leafUnitsOf ih ?_ hsiblings
        intro child hchild
        exact ⟨Nat.succ_le_succ (hinside child hchild).1, Nat.succ_le_succ (hinside child hchild).2⟩

/-! ## Collapsing and merging -/

theorem joinsSpans_collapseStep : JoinsSpans collapseStep := by
  intro a b c h hab hnext hb
  rw [collapseStep] at h
  split_ifs at h with htouch
  cases h
  rw [max_eq_right (hnext.trans hb)]

theorem lt_of_collapseStep_eq_none
    {a b : Span}
    (h : collapseStep a b = none) :
    a.2 < b.1 := by
  rw [collapseStep] at h
  split_ifs at h with htouch
  exact not_le.mp htouch

section Merging

variable {lines : List Text} {budget : ℤ} {a b c : Span}

theorem mergeStep_eq_some_iff :
    mergeStep lines budget a b = some c ↔
      (nonWsLen (textOfLines lines (min a.1 b.1, max a.2 b.2)) : ℤ) ≤ budget ∧
        c = (min a.1 b.1, max a.2 b.2) := by
  rw [mergeStep]
  split_ifs with h
  · rw [Option.some_inj, eq_comm, and_iff_right h]
  · simp [h]

theorem joinsSpans_mergeStep : JoinsSpans (mergeStep lines budget) := by
  intro a b c h hab hnext hb
  rw [(mergeStep_eq_some_iff.mp h).2, min_eq_left (hab.trans hnext), max_eq_right (hnext.trans hb)]

/-- A group of more than one unit that has been merged is within the budget. -/
theorem within_budget_of_joined
    {group : List Span}
    (h : Joined (mergeStep lines budget) group c)
    (hmany : 1 < group.length) :
    (nonWsLen (textOfLines lines c) : ℤ) ≤ budget := by
  cases h with
  | single x => simp at hmany
  | snoc _ hjoin =>
      obtain ⟨hfits, rfl⟩ := mergeStep_eq_some_iff.mp hjoin
      exact hfits

/-- More lines have no less text. -/
theorem nonWsLen_mono
    (hstart : b.1 ≤ a.1)
    (hstop : a.2 ≤ b.2) :
    nonWsLen (textOfLines lines a) ≤ nonWsLen (textOfLines lines b) := by
  have hsub : (textOfLines lines a).Sublist (textOfLines lines b) := by
    have htake : (lines.take a.2).Sublist (lines.take b.2) :=
      (List.take_sublist_take_left hstop)
    have hdrop : ((lines.take b.2).drop (a.1 - 1)).Sublist ((lines.take b.2).drop (b.1 - 1)) :=
      List.drop_sublist_drop_left _ (by omega)
    exact ((htake.drop (a.1 - 1)).trans hdrop).flatten
  exact (hsub.filter _).length_le

end Merging

/-! ## The spans of a tree -/

/-- What the spans of a tree promise: they are disjoint and within the root, no line of a unit is
lost or doubled, a span of several collapsed units is within the budget, and two spans that
follow each other are not. -/
structure SpansPartition
    (root : SyntaxNode)
    (lines : List Text)
    (budget : ℤ) : Prop where
  disjoint : SpansDisjoint (structuralSpans root lines budget)
  coveredOnce : ∀ n, (∃ u ∈ leafUnits budget root, u.Covers n) →
    ∃! s, s ∈ structuralSpans root lines budget ∧ s.Covers n
  inside : ∀ s ∈ structuralSpans root lines budget,
    root.lineSpan.1 ≤ s.1 ∧ s.2 ≤ root.lineSpan.2
  withinBudget : ∃ pairs : List (List Span × Span),
    pairs.map Prod.snd = structuralSpans root lines budget ∧
    (pairs.map Prod.fst).flatten = collapseSameLineUnits (leafUnits budget root) ∧
    ∀ p ∈ pairs, IsHull p.1 p.2 ∧
      (1 < p.1.length → (nonWsLen (textOfLines lines p.2) : ℤ) ≤ budget)
  notMergeable : (structuralSpans root lines budget).IsChain
    (fun a b => budget < nonWsLen (textOfLines lines (a.1, b.2)))

/-- The spans of a tree in document order partition its lines. -/
theorem structuralSpans_partition
    (root : SyntaxNode)
    (lines : List Text)
    (budget : ℤ)
    (h : DocumentOrder root) :
    SpansPartition root lines budget := by
  have hunits := unitsWithin_leafUnits budget h
  have hcollapsed : SpansDisjoint (collapseSameLineUnits (leafUnits budget root)) :=
    spansDisjoint_coalesce_of_touching joinsSpans_collapseStep
      (fun _ _ => lt_of_collapseStep_eq_none) hunits.toSpansInOrder
  have hdisjoint : SpansDisjoint (structuralSpans root lines budget) :=
    spansDisjoint_coalesce joinsSpans_mergeStep hcollapsed
  refine ⟨hdisjoint, ?_, ?_, ?_, ?_⟩
  · rintro n ⟨u, hu, hstart, hstop⟩
    obtain ⟨v, hv, hv1, hv2⟩ :=
      exists_piece_contains joinsSpans_collapseStep hunits.toSpansInOrder hu
    obtain ⟨s, hs, hs1, hs2⟩ :=
      exists_piece_contains (@joinsSpans_mergeStep lines budget) hcollapsed.inOrder hv
    exact hdisjoint.existsUnique
      ⟨s, hs, (hs1.trans hv1).trans hstart, hstop.trans (hv2.trans hs2)⟩
  · intro s hs
    obtain ⟨⟨u, hu, hsu⟩, v, hv, hsv⟩ :=
      piece_bounds joinsSpans_mergeStep hcollapsed.inOrder hs
    obtain ⟨⟨u', hu', huu'⟩, -⟩ :=
      piece_bounds joinsSpans_collapseStep hunits.toSpansInOrder hu
    obtain ⟨-, v', hv', hvv'⟩ :=
      piece_bounds joinsSpans_collapseStep hunits.toSpansInOrder hv
    rw [hsu, huu', hsv, hvv']
    exact ⟨(hunits.within u' hu').1, (hunits.within v' hv').2⟩
  · obtain ⟨pairs, hpieces, hflatten, hjoined, -, hhull, -⟩ :=
      exists_hulls (@joinsSpans_mergeStep lines budget) hcollapsed.inOrder
    exact ⟨pairs, hpieces, hflatten,
      fun p hp => ⟨hhull p hp, within_budget_of_joined (hjoined p hp)⟩⟩
  · obtain ⟨pairs, hpieces, -, -, hgroups, hhull, hchain⟩ :=
      exists_hulls (@joinsSpans_mergeStep lines budget) hcollapsed.inOrder
    rw [structuralSpans, mergeUnits, ← hpieces] at hdisjoint ⊢
    have hnext : pairs.Pairwise (fun p q => p.2.2 < q.2.1) :=
      List.pairwise_map.mp hdisjoint.disjoint
    rw [List.isChain_map]
    rw [List.isChain_iff_forall_rel_of_append_cons_cons] at hchain ⊢
    intro p q before after hsplit
    obtain ⟨unit, rest, hgroup, hnone⟩ := hchain hsplit
    have hp : p ∈ pairs := by rw [hsplit]; simp
    have hq : q ∈ pairs := by rw [hsplit]; simp
    have hunit := (hhull q hq).contains (hgroups q hq) (by rw [hgroup]; exact List.mem_cons_self)
    have hpq : p.2.2 < q.2.1 := by
      rw [hsplit] at hnext
      obtain ⟨hhead, -⟩ := List.pairwise_cons.mp (List.pairwise_append.mp hnext).2.1
      exact hhead q List.mem_cons_self
    have hpp := (hhull p hp).ordered (hgroups p hp)
    have hqq := (hhull q hq).ordered (hgroups q hq)
    -- the first unit of the next span was too much already
    have htoomuch : budget < nonWsLen (textOfLines lines (min p.2.1 unit.1, max p.2.2 unit.2)) := by
      rw [← not_le]
      intro hfits
      rw [mergeStep_eq_some_iff.mpr ⟨hfits, rfl⟩] at hnone
      cases hnone
    have hmono : nonWsLen (textOfLines lines (min p.2.1 unit.1, max p.2.2 unit.2)) ≤
        nonWsLen (textOfLines lines (p.2.1, q.2.2)) :=
      nonWsLen_mono (by dsimp only; omega) (by dsimp only; omega)
    exact htoomuch.trans_le (by exact_mod_cast hmono)

/-- A root of three rows with two children that share a row. -/
def threeRows : SyntaxNode :=
  .node 0 2 ['a', 'b', 'c'] [.node 0 1 ['a', 'b'] [], .node 1 2 ['c'] []]

/-- Its lines are covered by one span. -/
theorem structuralSpans_partition_threeRows :
    DocumentOrder threeRows ∧
      SpansPartition threeRows [['a', '\n'], ['b', '\n'], ['c', '\n']] 2 := by
  have hleaf : ∀ (first last : Nat) (text : Text), first ≤ last →
      DocumentOrder (.node first last text []) := by
    intro first last text hrows
    exact .node hrows (by simp) List.Pairwise.nil (by simp)
  have h : DocumentOrder threeRows := by
    refine .node (by omega) ?_ ?_ ?_
    · simp [SyntaxNode.startRow, SyntaxNode.endRow]
    · simp [SyntaxNode.startRow, SyntaxNode.endRow]
    · intro child hchild
      rcases List.mem_cons.mp hchild with rfl | hchild
      · exact hleaf 0 1 _ (by omega)
      · rw [List.mem_singleton.mp hchild]
        exact hleaf 1 2 _ (by omega)
  exact ⟨h, structuralSpans_partition _ _ _ h⟩

end Ranking
end TensorGrep
