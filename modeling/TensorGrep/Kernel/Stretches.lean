import Mathlib.Data.List.Basic
import Mathlib.Data.Nat.Basic

/-!
# Where the pieces of a list stand

A list that is cut into pieces can be cut further.  The place of a piece is where it
begins in the list and how long it is (`stretch`).  If every piece of the coarse cut
is one piece or more of the fine cut, then the pieces of a number and before it stand
at the same places in both cuts if and only if none of the pieces up to it is cut
further (`stretchesAt_flatMap_iff`).
-/

namespace TensorGrep
namespace Kernel

universe u

variable {α : Type u}

/-- Where the piece of a number begins, and how long it is; the first piece has number 1. -/
def stretch
    (pieces : List (List α))
    (k : ℕ) : Option (ℕ × ℕ) :=
  if 1 ≤ k then
    pieces[k - 1]?.map fun piece => ((pieces.take (k - 1)).flatten.length, piece.length)
  else none

/-- The places of the piece before a number and of the one with it. -/
def stretchesAt
    (pieces : List (List α))
    (line : ℕ) : List (ℕ × ℕ) :=
  [line - 1, line].filterMap (stretch pieces)

/-- What stands at a place. -/
theorem take_drop_stretch
    {pieces : List (List α)}
    {i : ℕ}
    {piece : List α}
    (h : pieces[i]? = some piece) :
    (pieces.flatten.drop (pieces.take i).flatten.length).take piece.length = piece := by
  obtain ⟨hi, rfl⟩ := List.getElem?_eq_some_iff.mp h
  have hflatten : pieces.flatten =
      (pieces.take i).flatten ++ (pieces[i] ++ (pieces.drop (i + 1)).flatten) := by
    rw [← List.flatten_cons, ← List.drop_eq_getElem_cons hi, ← List.flatten_append,
      List.take_append_drop]
  rw [hflatten, List.drop_left, List.take_left]

/-- The end of a piece is the end of the pieces up to it. -/
theorem end_of_stretch
    {pieces : List (List α)}
    {k : ℕ}
    (hk : 1 ≤ k)
    (hlength : k ≤ pieces.length) :
    ∃ s, stretch pieces k = some s ∧ s.1 + s.2 = (pieces.take k).flatten.length := by
  have hlt : k - 1 < pieces.length := by omega
  refine ⟨_, by rw [stretch, if_pos hk, List.getElem?_eq_getElem hlt, Option.map_some], ?_⟩
  have htake := List.take_append_getElem hlt
  rw [Nat.sub_add_cancel hk] at htake
  rw [← htake, List.flatten_append, List.length_append]
  simp

theorem stretch_eq_none_iff
    {pieces : List (List α)}
    {k : ℕ} :
    stretch pieces k = none ↔ k = 0 ∨ pieces.length < k := by
  rw [stretch]
  split
  · next hk =>
    rw [Option.map_eq_none_iff, List.getElem?_eq_none_iff]
    omega
  · next hk =>
    simp only [true_iff]
    omega

/-- Where there is a piece of the number, it comes last. -/
theorem getLast?_stretchesAt
    {pieces : List (List α)}
    {line : ℕ}
    {s : ℕ × ℕ}
    (h : stretch pieces line = some s) :
    (stretchesAt pieces line).getLast? = some s := by
  cases hprevious : stretch pieces (line - 1) with
  | none => simp [stretchesAt, h, hprevious]
  | some s' => simp [stretchesAt, h, hprevious]

/-- Both places are there if and only if there are so many pieces. -/
theorem length_stretchesAt_eq_two_iff
    {pieces : List (List α)}
    {line : ℕ} :
    (stretchesAt pieces line).length = 2 ↔ 2 ≤ line ∧ line ≤ pieces.length := by
  have hprevious := @stretch_eq_none_iff _ pieces (line - 1)
  have hline := @stretch_eq_none_iff _ pieces line
  cases h₁ : stretch pieces (line - 1) with
  | none =>
      rw [h₁] at hprevious
      have hcase := hprevious.mp rfl
      cases h₂ : stretch pieces line with
      | none => simp [stretchesAt, h₁, h₂]; omega
      | some s => simp [stretchesAt, h₁, h₂]; omega
  | some s =>
      have hcase : ¬ (line - 1 = 0 ∨ pieces.length < line - 1) := by
        rw [← hprevious, h₁]
        exact Option.some_ne_none s
      cases h₂ : stretch pieces line with
      | none =>
          rw [h₂] at hline
          have hcase' := hline.mp rfl
          simp [stretchesAt, h₁, h₂]
          omega
      | some s' =>
          have hcase' : ¬ (line = 0 ∨ pieces.length < line) := by
            rw [← hline, h₂]
            exact Option.some_ne_none s'
          simp [stretchesAt, h₁, h₂]
          omega

section Refinement

variable {cut : List α → List (List α)}

/-- A piece that is cut further is at least two pieces. -/
theorem two_le_length_of_cut
    (hcut : ∀ piece, (cut piece).flatten = piece)
    {piece : List α}
    (hne : piece ≠ [])
    (h : cut piece ≠ [piece]) :
    2 ≤ (cut piece).length := by
  have hflatten := hcut piece
  cases hpieces : cut piece with
  | nil =>
      rw [hpieces] at hflatten
      exact absurd hflatten.symm hne
  | cons first rest =>
      cases rest with
      | nil =>
          rw [hpieces, List.flatten_singleton] at hflatten
          exact absurd (by rw [hpieces, hflatten]) h
      | cons second rest =>
          simp

/-- Cutting further loses nothing. -/
theorem flatten_flatMap_cut
    (hcut : ∀ piece, (cut piece).flatten = piece)
    (pieces : List (List α)) :
    (pieces.flatMap cut).flatten = pieces.flatten := by
  induction pieces with
  | nil => rfl
  | cons piece pieces ih =>
      rw [List.flatMap_cons, List.flatten_append, hcut, ih, List.flatten_cons]

/-- There are as many pieces as before, or more if one is cut further. -/
theorem length_lt_length_flatMap
    (hcut : ∀ piece, (cut piece).flatten = piece)
    {pieces : List (List α)}
    (hne : ∀ piece ∈ pieces, piece ≠ [])
    {piece : List α}
    (hpiece : piece ∈ pieces)
    (h : cut piece ≠ [piece]) :
    pieces.length < (pieces.flatMap cut).length := by
  have hone : ∀ piece ∈ pieces, 1 ≤ (cut piece).length := by
    intro piece hpiece
    rw [Nat.succ_le_iff, List.length_pos_iff]
    intro hnil
    have hflatten := hcut piece
    rw [hnil] at hflatten
    exact hne piece hpiece hflatten.symm
  have hle : ∀ l : List (List α), (∀ piece ∈ l, 1 ≤ (cut piece).length) →
      l.length ≤ (l.flatMap cut).length := by
    intro l hl
    induction l with
    | nil => simp
    | cons a l ih =>
        rw [List.forall_mem_cons] at hl
        have hrest := ih hl.2
        rw [List.flatMap_cons, List.length_append, List.length_cons]
        omega
  obtain ⟨before, after, rfl⟩ := List.append_of_mem hpiece
  have htwo := two_le_length_of_cut hcut (hne piece hpiece) h
  have hbefore := hle before fun a ha => hone a (List.mem_append_left _ ha)
  have hafter := hle after fun a ha =>
    hone a (List.mem_append_right _ (List.mem_cons_of_mem _ ha))
  rw [List.flatMap_append, List.flatMap_cons]
  simp only [List.length_append, List.length_cons]
  omega

/-- Two cuts that begin with the same pieces have them at the same places. -/
theorem stretch_append
    {first rest rest' : List (List α)}
    {k : ℕ}
    (h : k ≤ first.length ∨ rest = [] ∧ rest' = []) :
    stretch (first ++ rest) k = stretch (first ++ rest') k := by
  rcases h with h | ⟨rfl, rfl⟩
  · rw [stretch, stretch]
    split
    · next hk =>
      have hlt : k - 1 < first.length := by omega
      rw [List.getElem?_append_left hlt, List.getElem?_append_left hlt,
        List.take_append_of_le_length (by omega), List.take_append_of_le_length (by omega)]
    · rfl
  · rfl

/-- The pieces up to a number stand at their places in a finer cut if and only if none of them is
cut further. -/
theorem stretchesAt_flatMap_iff
    (hcut : ∀ piece, (cut piece).flatten = piece)
    (hnil : ∀ piece, ∀ part ∈ cut piece, part ≠ [])
    {pieces : List (List α)}
    (hne : ∀ piece ∈ pieces, piece ≠ [])
    {line : ℕ}
    (hline : 1 ≤ line)
    (hlength : line ≤ pieces.length + 1) :
    stretchesAt (pieces.flatMap cut) line = stretchesAt pieces line ↔
      ∀ piece ∈ pieces.take line, cut piece = [piece] := by
  have hsplit : pieces.flatMap cut =
      (pieces.take line).flatMap cut ++ (pieces.drop line).flatMap cut := by
    rw [← List.flatMap_append, List.take_append_drop]
  constructor
  · intro h piece hpiece
    by_contra hcutFurther
    have hmore := length_lt_length_flatMap hcut
      (fun a ha => hne a (List.mem_of_mem_take ha)) hpiece hcutFurther
    have htotal : (pieces.take line).length < (pieces.flatMap cut).length := by
      rw [hsplit, List.length_append]
      omega
    rw [List.length_take] at hmore htotal
    by_cases hlast : line ≤ pieces.length
    · -- the piece of the number ends before its end in the coarse cut
      obtain ⟨s, hs, hend⟩ := end_of_stretch hline hlast
      have hlast' : line ≤ (pieces.flatMap cut).length := by omega
      obtain ⟨s', hs', hend'⟩ := end_of_stretch hline hlast'
      have hsame : s' = s := by
        have hgetLast := congrArg List.getLast? h
        rw [getLast?_stretchesAt hs, getLast?_stretchesAt hs'] at hgetLast
        exact Option.some.inj hgetLast
      have hparts : (pieces.take line).flatMap cut =
          (pieces.flatMap cut).take line ++ ((pieces.take line).flatMap cut).drop line := by
        rw [hsplit, List.take_append_of_le_length (by omega),
          List.take_append_drop]
      have hrest : 0 < (((pieces.take line).flatMap cut).drop line).flatten.length := by
        rw [List.length_pos_iff, ne_eq, List.flatten_eq_nil_iff]
        intro hall
        obtain ⟨part, hpart⟩ : ∃ part, part ∈ ((pieces.take line).flatMap cut).drop line := by
          refine List.exists_mem_of_length_pos ?_
          rw [List.length_drop]
          omega
        obtain ⟨a, -, ha⟩ := List.mem_flatMap.mp (List.mem_of_mem_drop hpart)
        exact hnil a part ha (hall part hpart)
      have hflatten := flatten_flatMap_cut hcut (pieces.take line)
      have hlengths := congrArg (fun l => l.flatten.length) hparts
      simp only [List.flatten_append, List.length_append, hflatten] at hlengths
      rw [hsame] at hend'
      omega
    · have htwo : 2 ≤ line := by
        have hpos : 0 < pieces.length := List.length_pos_of_mem (List.mem_of_mem_take hpiece)
        omega
      have hfine : (stretchesAt (pieces.flatMap cut) line).length = 2 :=
        length_stretchesAt_eq_two_iff.mpr ⟨htwo, by omega⟩
      rw [h, length_stretchesAt_eq_two_iff] at hfine
      omega
  · intro h
    have hfirst : (pieces.take line).flatMap cut = pieces.take line := by
      rw [List.flatMap_def, List.map_congr_left h]
      induction pieces.take line with
      | nil => rfl
      | cons a l ih => simp [ih]
    have hsame : ∀ k ≤ line, stretch (pieces.flatMap cut) k = stretch pieces k := by
      intro k hk
      rw [hsplit, hfirst]
      conv_rhs => rw [← List.take_append_drop line pieces]
      refine stretch_append ?_
      by_cases hlast : line ≤ pieces.length
      · left
        rw [List.length_take]
        omega
      · right
        rw [List.drop_of_length_le (by omega)]
        exact ⟨rfl, rfl⟩
    simp only [stretchesAt, List.filterMap_cons, List.filterMap_nil, hsame line le_rfl,
      hsame (line - 1) (Nat.sub_le line 1)]

end Refinement

end Kernel
end TensorGrep
