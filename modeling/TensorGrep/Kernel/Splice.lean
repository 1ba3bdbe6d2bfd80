import Mathlib.Tactic

/-!
# Replacing ranges of a list

A piece replaces the positions from `start` to `stop` by a text.  `spliceFrom`
copies a source with a cursor, the way a rewriter does it in one pass.
`spliced` says position by position what the result should be: the texts of the
pieces that start there, and then the element itself unless a piece covers it.
For pieces that lie one after another the two agree, also where pieces touch,
are empty, or start together.
-/

namespace TensorGrep
namespace Kernel

universe u

variable {α : Type u}

/-- A range of positions and the text that replaces it. -/
structure Piece (α : Type u) where
  start : Nat
  stop : Nat
  text : List α

/-- A position lies in the range of a piece. -/
def Piece.covers
    (p : Piece α)
    (i : Nat) : Bool :=
  decide (p.start ≤ i ∧ i < p.stop)

/-- The pieces lie one after another between the cursor and the end. -/
def Chained
    (len : Nat) : Nat → List (Piece α) → Prop
  | cursor, [] => cursor ≤ len
  | cursor, p :: ps => cursor ≤ p.start ∧ p.start ≤ p.stop ∧ Chained len p.stop ps

/-- Copy the source from the cursor on, with the pieces in place of their ranges. -/
def spliceFrom
    (source : List α) : Nat → List (Piece α) → List α
  | cursor, [] => source.drop cursor
  | cursor, p :: ps =>
      (source.take p.start).drop cursor ++ p.text ++ spliceFrom source p.stop ps

/-- What stands at a position after the replacement. -/
def splicedAt
    (source : List α)
    (ps : List (Piece α))
    (i : Nat) : List α :=
  (ps.filter (fun p => p.start = i)).flatMap Piece.text ++
    if ps.any (fun p => p.covers i) then [] else source[i]?.toList

/-- The source with every range replaced, position by position. -/
def spliced
    (source : List α)
    (ps : List (Piece α)) : List α :=
  (List.range (source.length + 1)).flatMap (splicedAt source ps)

/-! ## Chains -/

theorem Chained.le
    {len : Nat}
    {cursor : Nat}
    {ps : List (Piece α)}
    (h : Chained len cursor ps) :
    cursor ≤ len := by
  induction ps generalizing cursor with
  | nil => exact h
  | cons p ps ih =>
      obtain ⟨hstart, hstop, hrest⟩ := h
      exact (hstart.trans hstop).trans (ih hrest)

/-- A chain may start with an earlier cursor. -/
theorem Chained.weaken
    {len cursor cursor' : Nat}
    {ps : List (Piece α)}
    (h : Chained len cursor ps)
    (hle : cursor' ≤ cursor) :
    Chained len cursor' ps := by
  cases ps with
  | nil => exact hle.trans h
  | cons p ps => exact ⟨hle.trans h.1, h.2⟩

/-- No piece of a chain starts before the cursor. -/
theorem Chained.start_ge
    {len : Nat}
    {cursor : Nat}
    {ps : List (Piece α)}
    (h : Chained len cursor ps)
    {p : Piece α}
    (hp : p ∈ ps) :
    cursor ≤ p.start := by
  induction ps generalizing cursor with
  | nil => cases hp
  | cons q ps ih =>
      obtain ⟨hstart, hstop, hrest⟩ := h
      rcases List.mem_cons.mp hp with rfl | hp
      · exact hstart
      · exact (hstart.trans hstop).trans (ih hrest hp)

/-- Disjoint pieces in order, each within the source, form a chain. -/
theorem chained_of_pairwise
    {len : Nat}
    {ps : List (Piece α)}
    (hdisjoint : ps.Pairwise (fun p q => p.stop ≤ q.start))
    (hrange : ∀ p ∈ ps, p.start ≤ p.stop ∧ p.stop ≤ len)
    {cursor : Nat}
    (hcursor : cursor ≤ len)
    (hfirst : ∀ p ∈ ps, cursor ≤ p.start) :
    Chained len cursor ps := by
  induction ps generalizing cursor with
  | nil => exact hcursor
  | cons p ps ih =>
      obtain ⟨hbefore, hrest⟩ := List.pairwise_cons.mp hdisjoint
      obtain ⟨hstop, hlen⟩ := hrange p List.mem_cons_self
      exact ⟨hfirst p List.mem_cons_self, hstop,
        ih hrest (fun q hq => hrange q (List.mem_cons_of_mem _ hq)) hlen hbefore⟩

/-! ## Position by position -/

/-- Positions that no piece touches keep their elements. -/
theorem splicedAt_of_lt
    {source : List α}
    {ps : List (Piece α)}
    {i : Nat}
    (h : ∀ p ∈ ps, i < p.start) :
    splicedAt source ps i = source[i]?.toList := by
  have hstarts : ps.filter (fun p => p.start = i) = [] := by
    rw [List.filter_eq_nil_iff]
    intro p hp
    have := h p hp
    rw [decide_eq_true_eq]
    omega
  have hcovers : ps.any (fun p => p.covers i) = false := by
    rw [List.any_eq_false]
    intro p hp
    have := h p hp
    rw [Piece.covers, decide_eq_true_eq]
    omega
  rw [splicedAt, hstarts, hcovers]
  rfl

/-- Inside its range a piece leaves nothing but its own text at its start. -/
theorem splicedAt_of_covers
    {source : List α}
    {p : Piece α}
    {ps : List (Piece α)}
    {i : Nat}
    (hi : p.start ≤ i ∧ i < p.stop)
    (h : ∀ q ∈ ps, p.stop ≤ q.start) :
    splicedAt source (p :: ps) i = if i = p.start then p.text else [] := by
  have hstarts : ps.filter (fun q => q.start = i) = [] := by
    rw [List.filter_eq_nil_iff]
    intro q hq
    have := h q hq
    rw [decide_eq_true_eq]
    omega
  have hcovers : (p :: ps).any (fun q => q.covers i) = true := by
    rw [List.any_cons, Piece.covers, decide_eq_true hi, Bool.true_or]
  rw [splicedAt, hcovers, if_pos rfl, List.append_nil]
  by_cases hstart : p.start = i
  · rw [List.filter_cons_of_pos (by rw [hstart]; exact decide_eq_true rfl), hstarts,
      List.flatMap_singleton, if_pos hstart.symm]
  · rw [List.filter_cons_of_neg (by rw [decide_eq_true_eq]; exact hstart), hstarts,
      if_neg (Ne.symm hstart)]
    rfl

/-- Past a piece only the pieces after it matter, except that an empty piece adds its text
where it stands. -/
theorem splicedAt_of_ge
    {source : List α}
    {p : Piece α}
    {ps : List (Piece α)}
    {i : Nat}
    (hi : p.stop ≤ i) :
    splicedAt source (p :: ps) i =
      (if p.start = i then p.text else []) ++ splicedAt source ps i := by
  have hcovers : (p :: ps).any (fun q => q.covers i) = ps.any (fun q => q.covers i) := by
    rw [List.any_cons, Piece.covers, decide_eq_false (by omega), Bool.false_or]
  rw [splicedAt, hcovers, splicedAt, ← List.append_assoc]
  by_cases hstart : p.start = i
  · rw [List.filter_cons_of_pos (by rw [hstart]; exact decide_eq_true rfl),
      List.flatMap_cons, if_pos hstart]
  · rw [List.filter_cons_of_neg (by rw [decide_eq_true_eq]; exact hstart),
      if_neg hstart, List.nil_append]

/-- Positions that keep their elements are copied. -/
theorem flatMap_range'_getElem?
    (source : List α)
    (start n : Nat)
    (h : start + n ≤ source.length + 1) :
    (List.range' start n).flatMap (fun i => source[i]?.toList) =
      (source.take (start + n)).drop start := by
  induction n generalizing start with
  | zero => simp
  | succ n ih =>
      rw [List.range'_succ, List.flatMap_cons, ih (start + 1) (by omega)]
      have hsum : start + 1 + n = start + (n + 1) := by omega
      rw [hsum]
      by_cases hlt : start < source.length
      · have htake : start < (source.take (start + (n + 1))).length := by
          rw [List.length_take]
          omega
        rw [List.drop_eq_getElem_cons htake, List.getElem_take,
          List.getElem?_eq_getElem hlt]
        rfl
      · rw [List.getElem?_eq_none (by omega), List.drop_eq_nil_of_le (by
          rw [List.length_take]; omega), List.drop_eq_nil_of_le (by
          rw [List.length_take]; omega)]
        rfl

/-- A piece that covers positions leaves its text in their place. -/
theorem flatMap_covered
    {source : List α}
    {p : Piece α}
    {ps : List (Piece α)}
    (hne : p.start < p.stop)
    (h : ∀ q ∈ ps, p.stop ≤ q.start) :
    (List.range' p.start (p.stop - p.start)).flatMap (splicedAt source (p :: ps)) =
      p.text := by
  obtain ⟨n, hn⟩ : ∃ n, p.stop - p.start = n + 1 := ⟨p.stop - p.start - 1, by omega⟩
  rw [hn, List.range'_succ, List.flatMap_cons,
    splicedAt_of_covers ⟨le_rfl, hne⟩ h, if_pos rfl]
  have hrest : (List.range' (p.start + 1) n).flatMap (splicedAt source (p :: ps)) = [] := by
    rw [List.flatMap_eq_nil_iff]
    intro i hi
    have hrange := List.mem_range'_1.mp hi
    rw [splicedAt_of_covers ⟨by omega, by omega⟩ h, if_neg (by omega)]
  rw [hrest, List.append_nil]

/-- Copying with a cursor gives, from the cursor on, what stands at each position. -/
theorem spliceFrom_eq_flatMap
    {source : List α}
    {cursor : Nat}
    {ps : List (Piece α)}
    (h : Chained source.length cursor ps) :
    spliceFrom source cursor ps =
      (List.range' cursor (source.length + 1 - cursor)).flatMap (splicedAt source ps) := by
  induction ps generalizing cursor with
  | nil =>
      have hle : cursor ≤ source.length := h
      have hkeep : ∀ i ∈ List.range' cursor (source.length + 1 - cursor),
          splicedAt source [] i = source[i]?.toList :=
        fun i _ => splicedAt_of_lt (by simp)
      rw [spliceFrom, List.flatMap_congr hkeep,
        flatMap_range'_getElem? source cursor _ (by omega), List.take_of_length_le (by omega)]
  | cons p ps ih =>
      obtain ⟨hstart, hstop, hrest⟩ := h
      have hlen := hrest.le
      have hlater : ∀ q ∈ ps, p.stop ≤ q.start := fun q hq => hrest.start_ge hq
      -- the positions before the piece, inside it, and past it
      have hsplit : List.range' cursor (source.length + 1 - cursor) =
          List.range' cursor (p.start - cursor) ++
            (List.range' p.start (p.stop - p.start) ++
              List.range' p.stop (source.length + 1 - p.stop)) := by
        have h₁ := List.range'_append_1 (s := p.start) (m := p.stop - p.start)
          (n := source.length + 1 - p.stop)
        have h₂ := List.range'_append_1 (s := cursor) (m := p.start - cursor)
          (n := source.length + 1 - p.start)
        rw [show p.start + (p.stop - p.start) = p.stop by omega,
          show p.stop - p.start + (source.length + 1 - p.stop) =
            source.length + 1 - p.start by omega] at h₁
        rw [show cursor + (p.start - cursor) = p.start by omega,
          show p.start - cursor + (source.length + 1 - p.start) =
            source.length + 1 - cursor by omega] at h₂
        rw [h₁, h₂]
      have hbefore : (List.range' cursor (p.start - cursor)).flatMap
          (splicedAt source (p :: ps)) = (source.take p.start).drop cursor := by
        have hkeep : ∀ i ∈ List.range' cursor (p.start - cursor),
            splicedAt source (p :: ps) i = source[i]?.toList := by
          intro i hi
          have hrange := List.mem_range'_1.mp hi
          refine splicedAt_of_lt ?_
          intro q hq
          rcases List.mem_cons.mp hq with rfl | hq
          · omega
          · have := hlater q hq
            omega
        rw [List.flatMap_congr hkeep, flatMap_range'_getElem? source cursor _ (by omega),
          show cursor + (p.start - cursor) = p.start by omega]
      rw [spliceFrom, hsplit, List.flatMap_append, List.flatMap_append, hbefore, ih hrest,
        List.append_assoc]
      congr 1
      rcases Nat.eq_or_lt_of_le hstop with hempty | hne
      · -- an empty piece adds its text at the position where it stands
        obtain ⟨n, hn⟩ : ∃ n, source.length + 1 - p.stop = n + 1 :=
          ⟨source.length - p.stop, by omega⟩
        have hpast : ∀ i ∈ List.range' (p.stop + 1) n,
            splicedAt source (p :: ps) i = splicedAt source ps i := by
          intro i hi
          have hrange := List.mem_range'_1.mp hi
          rw [splicedAt_of_ge (by omega), if_neg (by omega), List.nil_append]
        rw [hempty, Nat.sub_self, List.range'_zero, List.flatMap_nil, List.nil_append, hn,
          List.range'_succ, List.flatMap_cons, List.flatMap_cons, splicedAt_of_ge le_rfl,
          if_pos hempty, List.flatMap_congr hpast, List.append_assoc]
      · have hpast : ∀ i ∈ List.range' p.stop (source.length + 1 - p.stop),
            splicedAt source (p :: ps) i = splicedAt source ps i := by
          intro i hi
          have hrange := List.mem_range'_1.mp hi
          rw [splicedAt_of_ge (by omega), if_neg (by omega), List.nil_append]
        rw [flatMap_covered hne hlater, List.flatMap_congr hpast]

/-- For a chain of pieces, copying with a cursor replaces the ranges. -/
theorem spliceFrom_eq_spliced
    {source : List α}
    {ps : List (Piece α)}
    (h : Chained source.length 0 ps) :
    spliceFrom source 0 ps = spliced source ps := by
  rw [spliceFrom_eq_flatMap h, spliced, List.range_eq_range']
  rfl

end Kernel
end TensorGrep
