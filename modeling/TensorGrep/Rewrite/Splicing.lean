import TensorGrep.Rewrite.Edits

/-!
# Planned edits splice exactly

`validate_no_overlaps` walks over the sorted edits of a file and keeps an edit
when it does not start before the last kept one ends.  `rewrite_source_with_edits`
then copies the source with a cursor and checks the ranges once more.

`scan_inv` is the invariant of the first loop: the kept edits lie one after
another and the last of them is the one compared against.  `rewriteFrom_spec` is
the second loop: from a chain of aligned edits it never fails, and it produces
what splicing the bytes produces.
-/

namespace TensorGrep
namespace Rewrite

open Kernel

variable {File : Type} [LinearOrder File]

/-- A byte range lies in a text, on UTF-8 boundaries. -/
structure Aligned
    (source : Text)
    (r : ByteRange) : Prop where
  ordered : r.start ≤ r.stop
  start_boundary : isCharBoundary (utf8 source) r.start = true
  stop_boundary : isCharBoundary (utf8 source) r.stop = true

instance
    (source : Text)
    (r : ByteRange) : Decidable (Aligned source r) :=
  decidable_of_iff
    (r.start ≤ r.stop ∧ isCharBoundary (utf8 source) r.start = true ∧
      isCharBoundary (utf8 source) r.stop = true)
    ⟨fun ⟨h₁, h₂, h₃⟩ => ⟨h₁, h₂, h₃⟩, fun ⟨h₁, h₂, h₃⟩ => ⟨h₁, h₂, h₃⟩⟩

/-- An edit as a piece of the encoded source. -/
def RewriteEdit.piece (e : RewriteEdit File) : Piece UInt8 where
  start := e.byteRange.start
  stop := e.byteRange.stop
  text := utf8 e.replacementText

/-- The edits of a list lie one after another. -/
def DisjointInOrder (edits : List (RewriteEdit File)) : Prop :=
  edits.Pairwise (fun a b => a.byteRange.stop ≤ b.byteRange.start)

instance (edits : List (RewriteEdit File)) : Decidable (DisjointInOrder edits) :=
  inferInstanceAs (Decidable (edits.Pairwise _))

/-- The later edit starts inside the earlier one. -/
def Overlaps (a b : RewriteEdit File) : Prop :=
  a.byteRange.start ≤ b.byteRange.start ∧ b.byteRange.start < a.byteRange.stop

/-- A boundary of a text is not past its end. -/
theorem le_length_of_isCharBoundary
    {source : Text}
    {i : Nat}
    (h : isCharBoundary (utf8 source) i = true) :
    i ≤ (utf8 source).length := by
  obtain ⟨p, s, rfl, rfl⟩ := isCharBoundary_iff.mp h
  simp

theorem Aligned.stop_le
    {source : Text}
    {r : ByteRange}
    (h : Aligned source r) :
    r.stop ≤ (utf8 source).length :=
  le_length_of_isCharBoundary h.stop_boundary

omit [LinearOrder File] in
theorem ensureValidUtf8Range_of_aligned
    {source : Text}
    {r : ByteRange}
    (file : File)
    (h : Aligned source r) :
    ensureValidUtf8Range source file r = .ok () := by
  have hordered := h.ordered
  have hstop := h.stop_le
  rw [ensureValidUtf8Range, if_neg (by omega),
    if_pos ⟨h.start_boundary, h.stop_boundary⟩]

/-! ## The overlap scan -/

/-- One more edit is one more round of the loop. -/
theorem scanOverlaps_concat
    (edits : List (RewriteEdit File))
    (e : RewriteEdit File) :
    scanOverlaps (edits ++ [e]) = (scanOverlaps edits).step e := by
  rw [scanOverlaps, List.foldl_concat]
  rfl

/-- A round keeps the edit, or rejects it and leaves everything else. -/
theorem step_cases
    (s : OverlapScan File)
    (e : RewriteEdit File) :
    (s.step e = { s with
        prevRange := Function.update s.prevRange e.file (some e.byteRange)
        valid := s.valid ++ [e] } ∧
      ∀ prev, s.prevRange e.file = some prev → prev.stop ≤ e.byteRange.start) ∨
    ∃ prev, s.prevRange e.file = some prev ∧ e.byteRange.start < prev.stop ∧
      s.step e = { s with rejected := s.rejected ++ [overlapRejection prev e] } := by
  rw [OverlapScan.step]
  cases hprev : s.prevRange e.file with
  | none =>
      left
      exact ⟨rfl, fun prev h => by cases h⟩
  | some prev =>
      by_cases hlt : e.byteRange.start < prev.stop
      · right
        refine ⟨prev, rfl, hlt, ?_⟩
        simp [Option.filter, hlt]
      · left
        refine ⟨by simp [Option.filter, hlt], ?_⟩
        intro prev' h
        cases h
        omega

/-- The invariant of the overlap scan over the sorted edits of one file. -/
structure ScanInv
    (file : File)
    (edits : List (RewriteEdit File)) : Prop where
  sublist : (scanOverlaps edits).valid.Sublist edits
  disjoint : DisjointInOrder (scanOverlaps edits).valid
  prev_iff : (scanOverlaps edits).prevRange file =
    (scanOverlaps edits).valid.getLast?.map RewriteEdit.byteRange

theorem scan_inv
    {file : File}
    {edits : List (RewriteEdit File)}
    (hfile : ∀ e ∈ edits, e.file = file)
    (hordered : ∀ e ∈ edits, e.byteRange.start ≤ e.byteRange.stop) :
    ScanInv file edits := by
  induction edits using List.reverseRecOn with
  | nil => exact ⟨List.Sublist.refl _, List.Pairwise.nil, rfl⟩
  | append_singleton edits e ih =>
      have hinv := ih (fun a ha => hfile a (by simp [ha]))
        (fun a ha => hordered a (by simp [ha]))
      have hefile : e.file = file := hfile e (by simp)
      have hscan := scanOverlaps_concat edits e
      rcases step_cases (scanOverlaps edits) e with ⟨hkeep, hafter⟩ | ⟨prev, -, -, hreject⟩
      · rw [hkeep] at hscan
        refine ⟨?_, ?_, ?_⟩
        · rw [hscan]
          exact hinv.sublist.append (List.Sublist.refl _)
        · rw [hscan, DisjointInOrder, List.pairwise_append]
          refine ⟨hinv.disjoint, List.pairwise_singleton _ _, ?_⟩
          intro a ha b hb
          rw [List.mem_singleton.mp hb]
          -- the last kept edit ends before the new one starts, and all others end before it
          rcases List.eq_nil_or_concat (scanOverlaps edits).valid with hnil | ⟨init, last, hval⟩
          · rw [hnil] at ha
            cases ha
          · rw [List.concat_eq_append] at hval
            have hlast : last.byteRange.stop ≤ e.byteRange.start := by
              apply hafter
              rw [hefile, hinv.prev_iff, hval, List.getLast?_concat]
              rfl
            rw [hval] at ha
            rcases List.mem_append.mp ha with hinit | hmem
            · have hdis := hinv.disjoint
              rw [DisjointInOrder, hval, List.pairwise_append] at hdis
              have hbefore := hdis.2.2 a hinit last (List.mem_singleton_self _)
              have hlastMem : last ∈ edits := hinv.sublist.subset (by simp [hval])
              have := hordered last (by simp [hlastMem])
              omega
            · rw [List.mem_singleton.mp hmem]
              exact hlast
        · rw [hscan, hefile]
          dsimp only
          rw [Function.update_self, List.getLast?_concat]
          rfl
      · rw [hreject] at hscan
        refine ⟨?_, ?_, ?_⟩
        · rw [hscan]
          exact hinv.sublist.trans (List.sublist_append_left _ _)
        · rw [hscan]
          exact hinv.disjoint
        · rw [hscan]
          exact hinv.prev_iff

/-- The scan only ever adds to the kept edits. -/
theorem scanOverlaps_valid_append
    (edits rest : List (RewriteEdit File)) :
    (scanOverlaps edits).valid <+: (scanOverlaps (edits ++ rest)).valid := by
  induction rest using List.reverseRecOn with
  | nil =>
      rw [List.append_nil]
  | append_singleton rest e ih =>
      rw [← List.append_assoc, scanOverlaps_concat]
      refine ih.trans ?_
      rcases step_cases (scanOverlaps (edits ++ rest)) e with ⟨hkeep, -⟩ | ⟨_, -, -, hreject⟩
      · rw [hkeep]
        exact List.prefix_append _ _
      · rw [hreject]

/-- An edit is kept, or it overlaps an edit that has been kept before. -/
theorem kept_or_overlaps
    {file : File}
    {edits : List (RewriteEdit File)}
    {e : RewriteEdit File}
    (hfile : ∀ a ∈ edits ++ [e], a.file = file)
    (hordered : ∀ a ∈ edits ++ [e], a.byteRange.start ≤ a.byteRange.stop)
    (hsorted : ∀ a ∈ edits, a.byteRange.start ≤ e.byteRange.start) :
    ((validateNoOverlaps (edits ++ [e])).1 = (validateNoOverlaps edits).1 ++ [e] ∧
      (validateNoOverlaps (edits ++ [e])).2 = (validateNoOverlaps edits).2) ∨
    ((validateNoOverlaps (edits ++ [e])).1 = (validateNoOverlaps edits).1 ∧
      ∃ a ∈ (validateNoOverlaps edits).1, Overlaps a e ∧
        (validateNoOverlaps (edits ++ [e])).2 =
          (validateNoOverlaps edits).2 ++ [overlapRejection a.byteRange e]) := by
  have hinv : ScanInv file edits := scan_inv (fun a ha => hfile a (by simp [ha]))
    (fun a ha => hordered a (by simp [ha]))
  rw [validateNoOverlaps, validateNoOverlaps, scanOverlaps_concat]
  rcases step_cases (scanOverlaps edits) e with ⟨hkeep, -⟩ | ⟨prev, hprev, hlt, hreject⟩
  · left
    rw [hkeep]
    exact ⟨rfl, rfl⟩
  · right
    rw [hreject]
    refine ⟨rfl, ?_⟩
    rw [hfile e (by simp), hinv.prev_iff, Option.map_eq_some_iff] at hprev
    obtain ⟨a, hlast, rfl⟩ := hprev
    have ha : a ∈ (scanOverlaps edits).valid := List.mem_of_getLast? hlast
    exact ⟨a, ha, ⟨hsorted a (hinv.sublist.subset ha), hlt⟩, rfl⟩

/-! ## The splice -/

/-- The loop over a chain of aligned edits never fails and splices the bytes. -/
theorem rewriteFrom_spec
    (file : File)
    {original : Text}
    {edits : List (RewriteEdit File)}
    {cursor : Nat}
    (hchain : Chained (utf8 original).length cursor (edits.map RewriteEdit.piece))
    (hcursor : isCharBoundary (utf8 original) cursor = true)
    (haligned : ∀ e ∈ edits, Aligned original e.byteRange)
    (result : Text) :
    ∃ tail, rewriteFrom file original cursor result edits = .ok (result ++ tail) ∧
      utf8 tail = spliceFrom (utf8 original) cursor (edits.map RewriteEdit.piece) := by
  induction edits generalizing cursor result with
  | nil =>
      have hend : isCharBoundary (utf8 original) (utf8 original).length = true :=
        isCharBoundary_iff.mpr ⟨original, [], by simp, rfl⟩
      obtain ⟨p, u, s, hsplit, hp, hstop⟩ :=
        exists_split_of_boundaries hchain.le hcursor hend
      have hslice := sliceStr_append p u s
      rw [← hsplit, hp, ← hp, hstop] at hslice
      refine ⟨u, ?_, ?_⟩
      · rw [rewriteFrom, ← hp, hslice]
        rfl
      · have hs : utf8 s = [] := by
          have hlen := congrArg (fun t => (utf8 t).length) hsplit
          simp only [utf8_append, List.length_append] at hlen
          exact List.length_eq_zero_iff.mp (by omega)
        rw [List.map_nil, spliceFrom, ← hp, hsplit, utf8_append, utf8_append, hs,
          List.append_nil, List.drop_left]
  | cons e es ih =>
      obtain ⟨hstart, hordered, hrest⟩ := hchain
      have he := haligned e List.mem_cons_self
      obtain ⟨p, u, s, hsplit, hp, hstop⟩ :=
        exists_split_of_boundaries hstart hcursor he.start_boundary
      have hslice := sliceStr_append p u s
      rw [← hsplit, hstop] at hslice
      obtain ⟨tail, htail, hbytes⟩ := ih hrest he.stop_boundary
        (fun a ha => haligned a (List.mem_cons_of_mem _ ha))
        (result ++ u ++ e.replacementText)
      refine ⟨u ++ e.replacementText ++ tail, ?_, ?_⟩
      · have hge : ¬ e.byteRange.start < cursor := not_lt_of_ge hstart
        rw [hp] at hslice
        change sliceStr original cursor e.byteRange.start = _ at hslice
        change rewriteFrom file original e.byteRange.stop _ es = _ at htail
        rw [rewriteFrom, ensureValidUtf8Range_of_aligned file he, Outcome.ofExcept,
          Outcome.bind_ok, if_neg hge, hslice, Outcome.ofSlice_some, Outcome.bind_ok, htail]
        simp only [List.append_assoc]
      · have hgap : ((utf8 original).take e.piece.start).drop cursor = utf8 u := by
          rw [← hp, ← hstop, hsplit, utf8_append, utf8_append, ← List.length_append,
            List.take_left, List.drop_left]
        rw [List.map_cons, spliceFrom, utf8_append, utf8_append, hbytes, hgap]
        rfl

omit [LinearOrder File] in
/-- Disjoint aligned edits in order form a chain. -/
theorem chained_of_disjoint
    {source : Text}
    {edits : List (RewriteEdit File)}
    (hdisjoint : DisjointInOrder edits)
    (haligned : ∀ e ∈ edits, Aligned source e.byteRange) :
    Chained (utf8 source).length 0 (edits.map RewriteEdit.piece) := by
  have hpieces : (edits.map RewriteEdit.piece).Pairwise (fun p q => p.stop ≤ q.start) :=
    List.pairwise_map.mpr hdisjoint
  refine chained_of_pairwise hpieces ?_ (Nat.zero_le _) (fun _ _ => Nat.zero_le _)
  intro p hp
  obtain ⟨e, he, rfl⟩ := List.mem_map.mp hp
  exact ⟨(haligned e he).ordered, (haligned e he).stop_le⟩

/-- Disjoint aligned edits in order are applied without an error, and the result is the
source with every range replaced. -/
theorem rewriteSourceWithEdits_spec
    {source : Text}
    {edits : List (RewriteEdit File)}
    (file : File)
    (hdisjoint : DisjointInOrder edits)
    (haligned : ∀ e ∈ edits, Aligned source e.byteRange) :
    ∃ result, rewriteSourceWithEdits file source edits = .ok result ∧
      utf8 result = spliced (utf8 source) (edits.map RewriteEdit.piece) := by
  have hchain := chained_of_disjoint hdisjoint haligned
  obtain ⟨tail, htail, hbytes⟩ := rewriteFrom_spec file hchain
    (isCharBoundary_iff.mpr ⟨[], source, rfl, rfl⟩) haligned []
  exact ⟨tail, htail, hbytes.trans (spliceFrom_eq_spliced hchain)⟩

/-- Of the sorted edits of one file, `validate_no_overlaps` keeps a disjoint subsequence;
every other edit overlaps one that is kept before it; and splicing the kept edits never
fails and replaces exactly their ranges. -/
theorem planned_edits_splice
    {file : File}
    {source : Text}
    {edits : List (RewriteEdit File)}
    (hfile : ∀ e ∈ edits, e.file = file)
    (haligned : ∀ e ∈ edits, Aligned source e.byteRange)
    (hsorted : edits.Pairwise (fun a b => a.byteRange.start ≤ b.byteRange.start)) :
    (validateNoOverlaps edits).1.Sublist edits ∧
    DisjointInOrder (validateNoOverlaps edits).1 ∧
    (∀ before e after, edits = before ++ e :: after →
      (validateNoOverlaps before).1 <+: (validateNoOverlaps edits).1 ∧
      (((validateNoOverlaps (before ++ [e])).1 = (validateNoOverlaps before).1 ++ [e] ∧
        (validateNoOverlaps (before ++ [e])).2 = (validateNoOverlaps before).2) ∨
      ((validateNoOverlaps (before ++ [e])).1 = (validateNoOverlaps before).1 ∧
        ∃ a ∈ (validateNoOverlaps before).1, Overlaps a e ∧
          (validateNoOverlaps (before ++ [e])).2 =
            (validateNoOverlaps before).2 ++ [overlapRejection a.byteRange e]))) ∧
    ∃ result, rewriteSourceWithEdits file source (validateNoOverlaps edits).1 = .ok result ∧
      utf8 result = spliced (utf8 source)
        ((validateNoOverlaps edits).1.map RewriteEdit.piece) := by
  have hinv : ScanInv file edits := scan_inv hfile (fun e he => (haligned e he).ordered)
  refine ⟨hinv.sublist, hinv.disjoint, ?_, ?_⟩
  · rintro before e after rfl
    refine ⟨scanOverlaps_valid_append before (e :: after), ?_⟩
    have hmem : ∀ a ∈ before ++ [e], a ∈ before ++ e :: after := by
      intro a ha
      rcases List.mem_append.mp ha with h | h
      · exact List.mem_append_left _ h
      · rw [List.mem_singleton.mp h]
        exact List.mem_append_right _ List.mem_cons_self
    refine kept_or_overlaps (fun a ha => hfile a (hmem a ha))
      (fun a ha => (haligned a (hmem a ha)).ordered) ?_
    intro a ha
    exact (List.pairwise_append.mp hsorted).2.2 a ha e List.mem_cons_self
  · exact rewriteSourceWithEdits_spec file hinv.disjoint
      (fun e he => haligned e (hinv.sublist.subset he))

/-- An edit of file `0`. -/
def editAt
    (start stop : Nat)
    (replacement : Text) : RewriteEdit Nat :=
  ⟨"", 0, 0, 1, ⟨start, stop⟩, [], replacement⟩

/-- Edits of `héj` that touch, overlap and start together. -/
def mixedEdits : List (RewriteEdit Nat) :=
  [editAt 0 1 ['H'], editAt 1 1 ['-'], editAt 1 3 ['e'], editAt 1 4 ['x'], editAt 3 3 ['!']]

/-- The edits of `mixedEdits` but the fourth are kept and spliced. -/
theorem planned_edits_splice_mixedEdits :
    (validateNoOverlaps mixedEdits).1 =
        [editAt 0 1 ['H'], editAt 1 1 ['-'], editAt 1 3 ['e'], editAt 3 3 ['!']] ∧
      ∃ result, rewriteSourceWithEdits 0 ['h', 'é', 'j'] (validateNoOverlaps mixedEdits).1 =
          .ok result ∧
        utf8 result = utf8 ['H', '-', 'e', '!', 'j'] := by
  have hkept : (validateNoOverlaps mixedEdits).1 =
      [editAt 0 1 ['H'], editAt 1 1 ['-'], editAt 1 3 ['e'], editAt 3 3 ['!']] := rfl
  obtain ⟨-, -, -, result, hresult, hbytes⟩ :=
    @planned_edits_splice Nat _ 0 ['h', 'é', 'j'] mixedEdits (by decide) (by decide)
      (by decide)
  refine ⟨hkept, result, hresult, hbytes.trans ?_⟩
  rw [hkept]
  decide

end Rewrite
end TensorGrep
