import TensorGrep.Rewrite.BatchPlan

/-!
# Which overlaps a batch sees

`validate_batch_no_overlaps` compares every edit with the next one.  A long edit
can overlap one that comes much later, but then it overlaps the one that comes
next as well, so that neighbours decide.  The edits are sorted by where they
start and by nothing else: an empty edit may stand behind an edit of the same
start that is not empty, and these two are taken for an overlap.
-/

namespace TensorGrep
namespace Rewrite

open Kernel

variable {File : Type} [LinearOrder File]

/-! ## Ranges -/

/-- One of the ranges ends before the other one starts. -/
def ByteRange.Disjoint (a b : ByteRange) : Prop :=
  a.stop ≤ b.start ∨ b.stop ≤ a.start

instance (a b : ByteRange) : Decidable (a.Disjoint b) :=
  inferInstanceAs (Decidable (_ ∨ _))

/-- The second range is empty, and stands at the start of the first one, which is not. -/
def ByteRange.EmptyAtStart (a b : ByteRange) : Prop :=
  a.start < a.stop ∧ b.start = a.start ∧ b.stop = a.start

instance (a b : ByteRange) : Decidable (a.EmptyAtStart b) :=
  inferInstanceAs (Decidable (_ ∧ _))

section Neighbours

variable {α : Type} {a b : α} {l : List α}

/-- The second element comes directly behind the first one. -/
def Neighbours (l : List α) (a b : α) : Prop :=
  ∃ before after, l = before ++ a :: b :: after

theorem Neighbours.sublist
    (h : Neighbours l a b) :
    [a, b].Sublist l := by
  obtain ⟨before, after, rfl⟩ := h
  have htake : [a, b].Sublist (a :: b :: after) := List.sublist_append_left [a, b] after
  exact htake.trans (List.sublist_append_right before _)

/-- The pairs of a list and its tail are its neighbours. -/
theorem mem_zip_tail_iff :
    (a, b) ∈ l.zip l.tail ↔ Neighbours l a b := by
  constructor
  · induction l with
    | nil => simp
    | cons c l ih =>
        cases l with
        | nil => simp
        | cons d l =>
            intro h
            rcases List.mem_cons.mp h with heq | h
            · cases heq
              exact ⟨[], l, rfl⟩
            · obtain ⟨before, after, hsplit⟩ := ih h
              exact ⟨c :: before, after, by rw [hsplit, List.cons_append]⟩
  · rintro ⟨before, after, rfl⟩
    induction before with
    | nil => exact List.mem_cons_self
    | cons c before ih =>
        cases before with
        | nil => exact List.mem_cons_of_mem _ List.mem_cons_self
        | cons d before => exact List.mem_cons_of_mem _ ih

end Neighbours

section Ranges

variable {a b : ByteRange} {ranges : List ByteRange}

theorem neighboursDisjoint_iff :
    NeighboursDisjoint ranges ↔ ∀ a b, Neighbours ranges a b → a.stop ≤ b.start := by
  rw [NeighboursDisjoint, List.isChain_iff_forall_rel_of_append_cons_cons]
  constructor
  · rintro h a b ⟨before, after, hsplit⟩
    exact h hsplit
  · intro h a b before after hsplit
    exact h a b ⟨before, after, hsplit⟩

/-- Of two ranges in order the second one starts inside the first one only where they overlap,
or where it is empty and stands at the start of the first one. -/
theorem not_disjoint_or_emptyAtStart
    (hsorted : a.start ≤ b.start)
    (hordered : b.start ≤ b.stop)
    (hinside : b.start < a.stop) :
    ¬ a.Disjoint b ∨ a.EmptyAtStart b := by
  by_cases hdisjoint : a.Disjoint b
  · right
    have hstop : b.stop ≤ a.start := hdisjoint.resolve_left (not_le.mpr hinside)
    refine ⟨?_, ?_, ?_⟩ <;> omega
  · exact Or.inl hdisjoint

/-- Where every range ends before the next one starts, all of them are disjoint. -/
theorem pairwise_disjoint_of_neighbours
    (hsorted : ranges.Pairwise (fun a b => a.start ≤ b.start))
    (h : NeighboursDisjoint ranges) :
    ranges.Pairwise ByteRange.Disjoint := by
  induction ranges with
  | nil => exact List.Pairwise.nil
  | cons a ranges ih =>
      obtain ⟨hfirst, hrest⟩ := List.pairwise_cons.mp hsorted
      refine List.pairwise_cons.mpr ⟨?_, ih hrest (List.IsChain.of_cons h)⟩
      cases ranges with
      | nil => simp
      | cons b ranges =>
          have hnext : a.stop ≤ b.start := (List.isChain_cons_cons.mp h).1
          intro c hc
          rcases List.mem_cons.mp hc with rfl | hc
          · exact Or.inl hnext
          · exact Or.inl (hnext.trans (List.rel_of_pairwise_cons hrest hc))

end Ranges

/-! ## The edits of one file -/

/-- The edits of a file, in their order. -/
def editsOf
    (es : List (RewriteEdit File))
    (f : File) : List (RewriteEdit File) :=
  es.filter (fun e => e.file = f)

/-- The rejections of a file, in their order. -/
def rejectionsOf
    (rejected : List (OverlapRejection File))
    (f : File) : List (OverlapRejection File) :=
  rejected.filter (fun r => r.file = f)

section OneFile

variable {display : File → String} {es : List (RewriteEdit File)} {f : File}

omit [LinearOrder File] in
/-- A rejection names two neighbours of which the second starts inside the first. -/
theorem mem_batchRejections_iff
    {r : OverlapRejection File} :
    r ∈ batchRejections display f es ↔
      ∃ a b, Neighbours es a b ∧ b.byteRange.start < a.byteRange.stop ∧
        r = ⟨f, a.byteRange, b.byteRange,
          "batch rewrite overlap prevents applying edits to " ++ display f⟩ := by
  rw [batchRejections, List.mem_map]
  constructor
  · rintro ⟨⟨a, b⟩, hpair, rfl⟩
    obtain ⟨hmem, hinside⟩ := List.mem_filter.mp hpair
    exact ⟨a, b, mem_zip_tail_iff.mp hmem, of_decide_eq_true hinside, rfl⟩
  · rintro ⟨a, b, hneighbours, hinside, rfl⟩
    exact ⟨(a, b), List.mem_filter.mpr ⟨mem_zip_tail_iff.mpr hneighbours,
      decide_eq_true hinside⟩, rfl⟩

/-- What is rejected of a file is read off its own edits. -/
theorem rejectionsOf_validateBatch :
    rejectionsOf (validateBatchNoOverlaps display es).2 f =
      batchRejections display f (editsOf es f) := by
  have hown : ∀ g, (batchRejections display g (editsOf es g)).filter (fun r => r.file = f) =
      if g = f then batchRejections display f (editsOf es f) else [] := by
    intro g
    by_cases hgf : g = f
    · subst hgf
      rw [if_pos rfl, List.filter_eq_self]
      intro r hr
      obtain ⟨a, b, -, -, rfl⟩ := mem_batchRejections_iff.mp hr
      exact decide_eq_true rfl
    · rw [if_neg hgf, List.filter_eq_nil_iff]
      intro r hr hrf
      obtain ⟨a, b, -, -, rfl⟩ := mem_batchRejections_iff.mp hr
      exact hgf (of_decide_eq_true hrf)
  rw [rejectionsOf, validateBatchNoOverlaps, batchEditsByFile]
  dsimp only
  rw [List.flatMap_map, List.filter_flatMap]
  change (sortDedup id (es.map RewriteEdit.file)).flatMap (fun g =>
    (batchRejections display g (editsOf es g)).filter (fun r => r.file = f)) = _
  simp only [hown]
  rw [flatMap_ite_eq nodup_files]
  split_ifs with hf
  · rfl
  · rw [mem_files_iff, not_not] at hf
    rw [editsOf, hf]
    rfl

/-- The ranges of a file's edits in sorted order: each starts no earlier than the one before. -/
theorem sorted_editsOf_sortRewriteEdits :
    ((editsOf (sortRewriteEdits es) f).map RewriteEdit.byteRange).Pairwise
      (fun a b => a.start ≤ b.start) := by
  rw [List.pairwise_map, editsOf, List.pairwise_filter]
  refine (pairwise_sortByKey _ es).imp ?_
  intro a b hle ha hb
  have hfile : a.file = b.file := (of_decide_eq_true ha).trans (of_decide_eq_true hb).symm
  rcases Prod.Lex.toLex_le_toLex.mp hle with hlt | ⟨-, hstart⟩
  · exact absurd hfile hlt.ne
  · exact hstart

end OneFile

/-! ## All or nothing -/

/-- What the overlap check of a batch is for: the edits of a file are kept together or not at
all, they are kept where no two of them overlap, a file that is dropped has a rejection with two
ranges that do overlap, and no file has a say in what becomes of another. -/
structure AllOrNothing
    (display : File → String)
    (es : List (RewriteEdit File)) : Prop where
  together : ∀ f, editsOf (validateBatchNoOverlaps display es).1 f = editsOf es f ∨
    editsOf (validateBatchNoOverlaps display es).1 f = []
  kept_iff : ∀ f, editsOf (validateBatchNoOverlaps display es).1 f = editsOf es f ↔
    ((editsOf es f).map RewriteEdit.byteRange).Pairwise ByteRange.Disjoint
  named : ∀ f, editsOf (validateBatchNoOverlaps display es).1 f ≠ editsOf es f →
    ∃ r ∈ (validateBatchNoOverlaps display es).2, r.file = f ∧
      [r.editA, r.editB].Sublist ((editsOf es f).map RewriteEdit.byteRange) ∧
      ¬ r.editA.Disjoint r.editB
  alone : ∀ f es', editsOf es' f = editsOf es f →
    editsOf (validateBatchNoOverlaps display es').1 f =
        editsOf (validateBatchNoOverlaps display es).1 f ∧
      rejectionsOf (validateBatchNoOverlaps display es').2 f =
        rejectionsOf (validateBatchNoOverlaps display es).2 f

/-- A file in which an empty edit comes directly behind an edit with the same start that is not
empty has two other neighbours that overlap. -/
def OverlapBesideEmpty (es : List (RewriteEdit File)) : Prop :=
  ∀ f,
    (∃ a b, Neighbours ((editsOf es f).map RewriteEdit.byteRange) a b ∧ a.EmptyAtStart b) →
      ∃ a b, Neighbours ((editsOf es f).map RewriteEdit.byteRange) a b ∧ ¬ a.Disjoint b

section Check

variable {display : File → String} {es : List (RewriteEdit File)} {f : File}

theorem editsOf_validateBatch :
    editsOf (validateBatchNoOverlaps display es).1 f = allOrNone (editsOf es f) :=
  filter_validateBatch

omit [LinearOrder File] in
theorem allOrNone_eq_self_iff :
    allOrNone es = es ↔ NeighboursDisjoint (es.map RewriteEdit.byteRange) := by
  rw [allOrNone]
  split_ifs with h
  · exact iff_of_true rfl h
  · refine iff_of_false ?_ h
    rintro rfl
    exact h List.IsChain.nil

/-- A rejection of a batch is about two neighbours of its file. -/
theorem neighbours_of_mem_rejected
    {r : OverlapRejection File}
    (hr : r ∈ (validateBatchNoOverlaps display es).2) :
    Neighbours ((editsOf es r.file).map RewriteEdit.byteRange) r.editA r.editB := by
  have hown : r ∈ rejectionsOf (validateBatchNoOverlaps display es).2 r.file :=
    List.mem_filter.mpr ⟨hr, decide_eq_true rfl⟩
  rw [rejectionsOf_validateBatch] at hown
  obtain ⟨a, b, ⟨before, after, hsplit⟩, -, heq⟩ := mem_batchRejections_iff.mp hown
  refine ⟨before.map RewriteEdit.byteRange, after.map RewriteEdit.byteRange, ?_⟩
  rw [hsplit, heq, List.map_append, List.map_cons, List.map_cons]

/-- Neighbours of which the second starts inside the first are rejected. -/
theorem exists_rejected_of_neighbours
    {a b : ByteRange}
    (hneighbours : Neighbours ((editsOf es f).map RewriteEdit.byteRange) a b)
    (hinside : b.start < a.stop) :
    ∃ r ∈ (validateBatchNoOverlaps display es).2, r.file = f ∧ r.editA = a ∧ r.editB = b := by
  obtain ⟨before, after, hsplit⟩ := hneighbours
  obtain ⟨first, rest, hes, -, hrest⟩ := List.map_eq_append_iff.mp hsplit
  obtain ⟨x, tail, rfl, rfl, htail⟩ := List.map_eq_cons_iff.mp hrest
  obtain ⟨y, last, rfl, rfl, -⟩ := List.map_eq_cons_iff.mp htail
  have hmem := (@mem_batchRejections_iff File display (editsOf es f) f _).mpr
    ⟨x, y, ⟨first, last, hes⟩, hinside, rfl⟩
  rw [← rejectionsOf_validateBatch] at hmem
  exact ⟨_, (List.mem_filter.mp hmem).1, rfl, rfl, rfl⟩

/-- Of the neighbours in sorted order that the check takes for an overlap, those that do not
overlap are an empty edit behind one that is not. -/
theorem overlap_or_emptyAtStart
    {a b : ByteRange}
    (hordered : ∀ e ∈ es, e.byteRange.start ≤ e.byteRange.stop)
    (hneighbours : Neighbours ((editsOf (sortRewriteEdits es) f).map RewriteEdit.byteRange) a b)
    (hinside : b.start < a.stop) :
    ¬ a.Disjoint b ∨ a.EmptyAtStart b := by
  have hpair : [a, b].Pairwise (fun a b => a.start ≤ b.start) :=
    sorted_editsOf_sortRewriteEdits.sublist hneighbours.sublist
  refine not_disjoint_or_emptyAtStart (List.rel_of_pairwise_cons hpair
    (List.mem_singleton_self b)) ?_ hinside
  have hb := hneighbours.sublist.subset (List.mem_cons_of_mem a (List.mem_singleton_self b))
  obtain ⟨e, he, rfl⟩ := List.mem_map.mp hb
  exact hordered e (mem_sortByKey.mp (List.mem_filter.mp he).1)

/-- A batch keeps or drops the edits of every file as a whole and for a good reason exactly
where every file with an empty edit directly behind a non-empty one of the same start has two
other neighbours that overlap. -/
theorem validateBatchNoOverlaps_allOrNothing_iff
    (display : File → String)
    (es : List (RewriteEdit File))
    (hordered : ∀ e ∈ es, e.byteRange.start ≤ e.byteRange.stop) :
    AllOrNothing display (sortRewriteEdits es) ↔ OverlapBesideEmpty (sortRewriteEdits es) := by
  constructor
  · rintro h f ⟨a, b, hneighbours, hnonempty, hstart, -⟩
    -- the two are taken for an overlap, so the file is dropped, and something is named for it
    have hdropped : editsOf (validateBatchNoOverlaps display (sortRewriteEdits es)).1 f ≠
        editsOf (sortRewriteEdits es) f := by
      rw [editsOf_validateBatch, Ne, allOrNone_eq_self_iff, neighboursDisjoint_iff]
      intro hall
      exact absurd (hall a b hneighbours) (not_le.mpr (hstart ▸ hnonempty))
    obtain ⟨r, hr, rfl, -, hoverlap⟩ := h.named f hdropped
    exact ⟨r.editA, r.editB, neighbours_of_mem_rejected hr, hoverlap⟩
  · intro h
    have hreal : ∀ f, ¬ NeighboursDisjoint
        ((editsOf (sortRewriteEdits es) f).map RewriteEdit.byteRange) →
        ∃ a b, Neighbours ((editsOf (sortRewriteEdits es) f).map RewriteEdit.byteRange) a b ∧
          ¬ a.Disjoint b := by
      intro f hnot
      rw [neighboursDisjoint_iff] at hnot
      push Not at hnot
      obtain ⟨a, b, hneighbours, hinside⟩ := hnot
      rcases overlap_or_emptyAtStart hordered hneighbours hinside with hoverlap | hempty
      · exact ⟨a, b, hneighbours, hoverlap⟩
      · exact h f ⟨a, b, hneighbours, hempty⟩
    refine ⟨?_, ?_, ?_, ?_⟩
    · intro f
      rw [editsOf_validateBatch, allOrNone]
      split_ifs
      · exact Or.inl rfl
      · exact Or.inr rfl
    · intro f
      rw [editsOf_validateBatch, allOrNone_eq_self_iff]
      constructor
      · exact pairwise_disjoint_of_neighbours sorted_editsOf_sortRewriteEdits
      · intro hdisjoint
        by_contra hnot
        obtain ⟨a, b, hneighbours, hoverlap⟩ := hreal f hnot
        exact hoverlap (List.rel_of_pairwise_cons (hdisjoint.sublist hneighbours.sublist)
          (List.mem_singleton_self b))
    · intro f hdropped
      rw [editsOf_validateBatch, Ne, allOrNone_eq_self_iff] at hdropped
      obtain ⟨a, b, hneighbours, hoverlap⟩ := hreal f hdropped
      have hinside : b.start < a.stop := not_le.mp (fun hle => hoverlap (Or.inl hle))
      obtain ⟨r, hr, hfile, rfl, rfl⟩ := exists_rejected_of_neighbours hneighbours hinside
      exact ⟨r, hr, hfile, hneighbours.sublist, hoverlap⟩
    · intro f es' hsame
      rw [editsOf_validateBatch, editsOf_validateBatch, rejectionsOf_validateBatch,
        rejectionsOf_validateBatch, hsame]
      exact ⟨rfl, rfl⟩

/-- An edit of the file named by a number. -/
def plainEdit
    (file start stop : Nat) : RewriteEdit Nat :=
  ⟨"", file, 0, 0, ⟨start, stop⟩, [], []⟩

/-- The file of number 1 has an edit inside another one. -/
theorem validateBatchNoOverlaps_allOrNothing_iff_nested :
    (∀ e ∈ [plainEdit 1 0 9, plainEdit 2 4 6, plainEdit 1 3 5],
      e.byteRange.start ≤ e.byteRange.stop) ∧
    (AllOrNothing (fun _ => "")
        (sortRewriteEdits [plainEdit 1 0 9, plainEdit 2 4 6, plainEdit 1 3 5]) ↔
      OverlapBesideEmpty
        (sortRewriteEdits [plainEdit 1 0 9, plainEdit 2 4 6, plainEdit 1 3 5])) :=
  ⟨by simp [plainEdit], validateBatchNoOverlaps_allOrNothing_iff _ _ (by simp [plainEdit])⟩

/-- A replacement of the bytes 5 to 8 and an insertion at 5 are disjoint, and both are dropped
because of each other. -/
theorem replacement_before_insertion_is_dropped :
    (plainEdit 1 5 8).byteRange.Disjoint (plainEdit 1 5 5).byteRange ∧
    sortRewriteEdits [plainEdit 1 5 8, plainEdit 1 5 5] =
      [plainEdit 1 5 8, plainEdit 1 5 5] ∧
    (validateBatchNoOverlaps (fun _ => "a.py") [plainEdit 1 5 8, plainEdit 1 5 5]).1 = [] ∧
    ¬ AllOrNothing (fun _ => "a.py") (sortRewriteEdits [plainEdit 1 5 8, plainEdit 1 5 5]) := by
  have hsorted : sortRewriteEdits [plainEdit 1 5 8, plainEdit 1 5 5] =
      [plainEdit 1 5 8, plainEdit 1 5 5] := by decide
  have hnone : (validateBatchNoOverlaps (fun _ => "a.py")
      [plainEdit 1 5 8, plainEdit 1 5 5]).1 = [] := by decide
  refine ⟨by decide, hsorted, hnone, ?_⟩
  rw [hsorted]
  intro h
  have hkept := (h.kept_iff 1).mpr (by decide)
  rw [hnone] at hkept
  exact absurd hkept (by decide)

end Check

end Rewrite
end TensorGrep
