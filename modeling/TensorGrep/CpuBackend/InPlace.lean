import TensorGrep.Kernel.Splice
import TensorGrep.Kernel.Utf8Text

/-!
# Replacements inside one buffer

A file is mapped into memory and its replacements are made there, from the first
to the last: the bytes behind a range are moved by what the replacement is longer
or shorter, and the replacement is copied into the gap.  The file is grown
beforehand by the largest surplus that the replacements reach on the way, and cut
to its new length afterwards.

`Consumed` is the invariant: the buffer holds what has been replaced so far, the
part of the source that has not been reached, and spare bytes.
-/

namespace TensorGrep
namespace CpuBackend

open Kernel

/-- `ReplacementOp`: the range and the bytes that replace it. -/
abbrev ReplacementOp := Piece UInt8

/-! ## The plan -/

/-- The loop of `plan_replacements`. -/
def planLoop
    (finalLen : ℕ)
    (runningDelta : ℤ)
    (maxExtraGrowth : ℕ) : List ReplacementOp → Except String (ℕ × ℕ)
  | [] => .ok (finalLen, maxExtraGrowth)
  | op :: ops =>
      if finalLen < op.stop - op.start then .error "replacement length underflow"
      else
        let delta := runningDelta + ((op.text.length : ℤ) - ((op.stop - op.start : ℕ) : ℤ))
        planLoop (finalLen - (op.stop - op.start) + op.text.length) delta
          (max maxExtraGrowth (max delta 0).toNat) ops

/-- `plan_replacements` -/
def planReplacements
    (originalLen : ℕ)
    (ops : List ReplacementOp) : Except String (ℕ × ℕ) :=
  planLoop originalLen 0 0 ops

/-! ## The buffer -/

/-- `copy_within`; `none` when it panics. -/
def copyWithin
    (buffer : Bytes)
    (start stop dest : ℕ) : Option Bytes :=
  if start ≤ stop ∧ stop ≤ buffer.length ∧ dest + (stop - start) ≤ buffer.length then
    some (buffer.take dest ++ (buffer.take stop).drop start ++ buffer.drop (dest + (stop - start)))
  else none

/-- `buffer[start..stop].copy_from_slice(bytes)` for as many positions as there are bytes; `none` when
it panics. -/
def copyFromSlice
    (buffer : Bytes)
    (start : ℕ)
    (bytes : Bytes) : Option Bytes :=
  if start + bytes.length ≤ buffer.length then
    some (buffer.take start ++ bytes ++ buffer.drop (start + bytes.length))
  else none

/-- `as usize`; a negative number becomes an index past every buffer. -/
def asUsize (n : ℤ) : Option ℕ :=
  if 0 ≤ n then some n.toNat else none

/-- The buffer with the length of what it holds and the offset of positions of the source. -/
structure Writer where
  buffer : Bytes
  currentLen : ℕ
  delta : ℤ

/-- The move of the bytes behind a range. -/
def moveTail
    (w : Writer)
    (oldMatchLen newMatchLen tailStart : ℕ) : Option Writer :=
  if oldMatchLen < newMatchLen then
    let growBy := newMatchLen - oldMatchLen
    (copyWithin w.buffer tailStart w.currentLen (tailStart + growBy)).map fun buffer =>
      ⟨buffer, w.currentLen + growBy, w.delta + growBy⟩
  else if newMatchLen < oldMatchLen then
    let shrinkBy := oldMatchLen - newMatchLen
    (copyWithin w.buffer tailStart w.currentLen (tailStart - shrinkBy)).map fun buffer =>
      ⟨buffer, w.currentLen - shrinkBy, w.delta - shrinkBy⟩
  else some w

/-- One round of `apply_replacements_in_place`; `none` when it panics. -/
def applyOp
    (w : Writer)
    (op : ReplacementOp) : Option Writer := do
  let start ← asUsize (op.start + w.delta)
  let stop ← asUsize (op.stop + w.delta)
  if stop < start then none
  else
    let moved ← moveTail w (stop - start) op.text.length stop
    let buffer ← copyFromSlice moved.buffer start op.text
    return { moved with buffer := buffer }

/-- `apply_replacements_in_place` -/
def applyReplacementsInPlace
    (buffer : Bytes)
    (originalLen : ℕ)
    (ops : List ReplacementOp) : Option Bytes :=
  (ops.foldlM applyOp ⟨buffer, originalLen, 0⟩).map Writer.buffer

/-- `write_replacements_with_mmap`: the contents of the file afterwards. -/
def writeReplacementsWithMmap
    (content : Bytes)
    (ops : List ReplacementOp) : Option (Except String Bytes) :=
  match planReplacements content.length ops with
  | .error e => some (.error e)
  | .ok (newLen, maxExtraGrowth) =>
      (applyReplacementsInPlace (content ++ List.replicate maxExtraGrowth 0) content.length ops).map
        fun buffer => .ok (buffer.take newLen)

/-! ## Literal replacement -/

/-- `memmem::find_iter`, with the bytes to skip until the next match may start. -/
def findIter (pattern : Bytes) : ℕ → ℕ → Bytes → List ℕ
  | skip, offset, [] => if skip = 0 ∧ pattern = [] then [offset] else []
  | skip + 1, offset, _ :: rest => findIter pattern skip (offset + 1) rest
  | 0, offset, b :: rest =>
      if pattern <+: b :: rest then
        offset :: findIter pattern (pattern.length - 1) (offset + 1) rest
      else findIter pattern 0 (offset + 1) rest

/-- The replacements at the matches of a pattern. -/
def literalOps
    (pattern replacement : Bytes)
    (matchStarts : List ℕ) : List ReplacementOp :=
  matchStarts.map fun start => ⟨start, start + pattern.length, replacement⟩

/-- The fast path for a replacement that is as long as the pattern. -/
def overwriteMatches
    (replacement : Bytes) : Bytes → List ℕ → Option Bytes
  | buffer, [] => some buffer
  | buffer, start :: starts =>
      (copyFromSlice buffer start replacement).bind fun buffer =>
        overwriteMatches replacement buffer starts

/-- `replace_file_literal`: the contents of the file afterwards. -/
def replaceFileLiteral
    (pattern replacement content : Bytes) : Option (Except String Bytes) :=
  if content = [] then some (.ok content)
  else
    let matchStarts := findIter pattern 0 0 content
    if matchStarts = [] then some (.ok content)
    else if replacement.length = pattern.length then
      (overwriteMatches replacement content matchStarts).map .ok
    else writeReplacementsWithMmap content (literalOps pattern replacement matchStarts)

/-! ## The invariant -/

/-- The buffer holds what replaces the source up to the cursor, the source from there on, and spare
bytes. -/
structure Consumed
    (content done : Bytes)
    (cursor : ℕ)
    (w : Writer) : Prop where
  cursor_le : cursor ≤ content.length
  delta : w.delta = done.length - cursor
  currentLen : w.currentLen = done.length + (content.length - cursor)
  buffer : ∃ spare, w.buffer = done ++ (content.drop cursor ++ spare)

/-- Taking two parts off the front. -/
theorem drop_append_append
    {α : Type}
    (a b c : List α) :
    (a ++ (b ++ c)).drop (a.length + b.length) = c := by
  rw [← List.append_assoc, ← List.length_append, List.drop_left]

theorem asUsize_natCast
    (n : ℕ) :
    asUsize n = some n := by
  simp [asUsize]

section Step

variable {head old rest spare new : Bytes} {w : Writer}

/-- Moving the tail and writing into the gap replaces the range. -/
theorem exists_moveTail
    (hbuffer : w.buffer = head ++ (old ++ (rest ++ spare)))
    (hlen : w.currentLen = head.length + old.length + rest.length)
    (hroom : head.length + new.length + rest.length ≤ w.buffer.length) :
    ∃ moved spare', moveTail w old.length new.length (head.length + old.length) = some moved ∧
      moved.currentLen = head.length + new.length + rest.length ∧
      moved.delta = w.delta + (new.length - old.length) ∧
      moved.buffer.length = w.buffer.length ∧
      copyFromSlice moved.buffer head.length new = some (head ++ (new ++ (rest ++ spare'))) := by
  have htotal : w.buffer.length = head.length + old.length + rest.length + spare.length := by
    rw [hbuffer]
    simp only [List.length_append]
    omega
  have htail : (w.buffer.take w.currentLen).drop (head.length + old.length) = rest := by
    have hsplit : w.buffer = (head ++ (old ++ rest)) ++ spare := by
      rw [hbuffer]
      simp only [List.append_assoc]
    have hcut : w.currentLen = (head ++ (old ++ rest)).length := by
      rw [hlen]
      simp only [List.length_append]
      omega
    rw [hsplit, hcut, List.take_left, drop_append_append]
  have hhead : ∀ n, head.length ≤ n → ∀ l : Bytes,
      (w.buffer.take n ++ l).take head.length = head := by
    intro n hn l
    have hmin : head.length ≤ (w.buffer.take n).length := by
      rw [List.length_take]
      omega
    rw [List.take_append_of_le_length hmin, List.take_take, min_eq_left hn, hbuffer, List.take_left]
  -- what `copy_within` leaves when the tail goes to the end of the new bytes
  have hcopy : copyWithin w.buffer (head.length + old.length) w.currentLen
      (head.length + new.length) = some (w.buffer.take (head.length + new.length) ++
        (rest ++ w.buffer.drop (head.length + new.length + rest.length))) := by
    have hmoved : w.currentLen - (head.length + old.length) = rest.length := by omega
    rw [copyWithin, if_pos ⟨by omega, by omega, by omega⟩, htail, hmoved, List.append_assoc]
  have hwritten : copyFromSlice (w.buffer.take (head.length + new.length) ++
      (rest ++ w.buffer.drop (head.length + new.length + rest.length))) head.length new =
        some (head ++ (new ++ (rest ++ w.buffer.drop (head.length + new.length + rest.length)))) := by
    have hgap : (w.buffer.take (head.length + new.length)).length = head.length + new.length := by
      rw [List.length_take]
      omega
    rw [copyFromSlice, if_pos (by rw [List.length_append, hgap]; omega), hhead _ (by omega),
      List.drop_left' hgap, List.append_assoc]
  have hlength : (w.buffer.take (head.length + new.length) ++
      (rest ++ w.buffer.drop (head.length + new.length + rest.length))).length =
        w.buffer.length := by
    simp only [List.length_append, List.length_take, List.length_drop]
    omega
  rw [moveTail]
  by_cases hgrow : old.length < new.length
  · have hdest : head.length + old.length + (new.length - old.length) =
        head.length + new.length := by omega
    rw [if_pos hgrow]
    dsimp only
    rw [hdest, hcopy]
    exact ⟨_, _, rfl, by dsimp only; omega, by dsimp only; omega, hlength, hwritten⟩
  · rw [if_neg hgrow]
    by_cases hshrink : new.length < old.length
    · have hdest : head.length + old.length - (old.length - new.length) =
          head.length + new.length := by omega
      rw [if_pos hshrink]
      dsimp only
      rw [hdest, hcopy]
      exact ⟨_, _, rfl, by dsimp only; omega, by dsimp only; omega, hlength, hwritten⟩
    · have hsame : new.length = old.length := by omega
      rw [if_neg hshrink]
      refine ⟨w, spare, rfl, by omega, by omega, rfl, ?_⟩
      rw [copyFromSlice, if_pos (by omega), hsame, hbuffer, List.take_left, drop_append_append,
        List.append_assoc]

end Step

/-- One round replaces one range, if the buffer has room for it. -/
theorem exists_applyOp
    {content done : Bytes}
    {cursor : ℕ}
    {w : Writer}
    {op : ReplacementOp}
    (h : Consumed content done cursor w)
    (hstart : cursor ≤ op.start)
    (hstop : op.start ≤ op.stop)
    (hend : op.stop ≤ content.length)
    (hroom : done.length + (op.start - cursor) + op.text.length + (content.length - op.stop) ≤
      w.buffer.length) :
    ∃ w', applyOp w op = some w' ∧ w'.buffer.length = w.buffer.length ∧
      Consumed content (done ++ (content.take op.start).drop cursor ++ op.text) op.stop w' := by
  obtain ⟨spare, hbuffer⟩ := h.buffer
  have hgap : ((content.take op.start).drop cursor).length = op.start - cursor := by
    rw [List.length_drop, List.length_take]
    omega
  have hold : ((content.take op.stop).drop op.start).length = op.stop - op.start := by
    rw [List.length_drop, List.length_take]
    omega
  have hrest : (content.drop op.stop).length = content.length - op.stop := List.length_drop
  have hsplit : content.drop cursor = (content.take op.start).drop cursor ++
      ((content.take op.stop).drop op.start ++ content.drop op.stop) := by
    have hfirst := List.take_append_drop op.start content
    have hsecond := List.take_append_drop (op.stop - op.start) (content.drop op.start)
    rw [List.drop_drop, Nat.add_sub_cancel' hstop, List.take_drop,
      Nat.add_sub_cancel' hstop] at hsecond
    rw [hsecond]
    nth_rewrite 1 [← hfirst]
    rw [List.drop_append_of_le_length]
    rw [List.length_take]
    omega
  have hparts : w.buffer = (done ++ (content.take op.start).drop cursor) ++
      ((content.take op.stop).drop op.start ++ (content.drop op.stop ++ spare)) := by
    rw [hbuffer, hsplit]
    simp only [List.append_assoc]
  obtain ⟨moved, spare', hmoved, hcurrent, hdelta, hlength, hcopied⟩ :=
    @exists_moveTail _ _ _ _ op.text w hparts
      (by rw [h.currentLen, List.length_append, hgap, hold, hrest]; omega)
      (by rw [List.length_append, hgap, hrest]; omega)
  rw [hold, List.length_append, hgap] at hmoved
  rw [List.length_append, hgap] at hcurrent hcopied
  rw [hold] at hdelta
  have hfrom : (op.start : ℤ) + w.delta = ((done.length + (op.start - cursor) : ℕ) : ℤ) := by
    rw [h.delta]
    omega
  have hto : (op.stop : ℤ) + w.delta =
      ((done.length + (op.start - cursor) + (op.stop - op.start) : ℕ) : ℤ) := by
    rw [h.delta]
    omega
  have hwidth : done.length + (op.start - cursor) + (op.stop - op.start) -
      (done.length + (op.start - cursor)) = op.stop - op.start := by omega
  refine ⟨⟨done ++ (content.take op.start).drop cursor ++ op.text ++ (content.drop op.stop ++ spare'),
    moved.currentLen, moved.delta⟩, ?_, ?_, ?_⟩
  · rw [applyOp, hfrom, hto, asUsize_natCast, asUsize_natCast]
    simp only [Option.bind_eq_bind, Option.bind_some]
    rw [if_neg (by omega), hwidth, hmoved, Option.bind_some, hcopied, Option.bind_some,
      List.append_assoc _ op.text]
    rfl
  · dsimp only
    rw [← hlength]
    rw [copyFromSlice] at hcopied
    split_ifs at hcopied
    have hsame := congrArg List.length (Option.some.inj hcopied)
    simp only [List.length_append, List.length_take, List.length_drop] at hsame ⊢
    omega
  · refine ⟨hend, ?_, ?_, ⟨spare', rfl⟩⟩
    · dsimp only
      rw [hdelta, h.delta, List.length_append, List.length_append, hgap]
      omega
    · dsimp only
      rw [hcurrent, List.length_append, List.length_append, hgap, hrest]

/-! ## The run -/

/-- The largest surplus over the source that replacements reach. -/
def surplus : ℤ → List ReplacementOp → ℤ
  | _, [] => 0
  | delta, op :: ops =>
      let delta := delta + ((op.text.length : ℤ) - ((op.stop - op.start : ℕ) : ℤ))
      max delta (surplus delta ops)

/-- What a run writes in place of the source from the cursor on. -/
theorem exists_foldlM_applyOp
    {content done : Bytes}
    {cursor : ℕ}
    {w : Writer}
    {ops : List ReplacementOp}
    (h : Consumed content done cursor w)
    (hchain : Chained content.length cursor ops)
    (hroom : (content.length : ℤ) + surplus w.delta ops ≤ w.buffer.length) :
    ∃ w' spare, ops.foldlM applyOp w = some w' ∧ w'.buffer.length = w.buffer.length ∧
      w'.buffer = done ++ spliceFrom content cursor ops ++ spare := by
  induction ops generalizing done cursor w with
  | nil =>
      obtain ⟨spare, hbuffer⟩ := h.buffer
      exact ⟨w, spare, rfl, rfl, by rw [hbuffer, spliceFrom, List.append_assoc]⟩
  | cons op ops ih =>
      obtain ⟨hstart, hstop, hrest⟩ := hchain
      rw [surplus] at hroom
      have hend := hrest.le
      have hdelta := h.delta
      obtain ⟨w', hstep, hlength, hconsumed⟩ := exists_applyOp h hstart hstop hend (by omega)
      have hdelta' : w'.delta =
          w.delta + ((op.text.length : ℤ) - ((op.stop - op.start : ℕ) : ℤ)) := by
        rw [hconsumed.delta, hdelta, List.length_append, List.length_append, List.length_drop,
          List.length_take]
        omega
      obtain ⟨w'', spare, hrun, hlength', hbuffer⟩ := ih hconsumed hrest (by
        rw [hdelta', hlength]
        omega)
      refine ⟨w'', spare, ?_, by rw [hlength', hlength], ?_⟩
      · rw [List.foldlM_cons, hstep]
        exact hrun
      · rw [hbuffer, spliceFrom]
        simp only [List.append_assoc]

/-- The plan of replacements in order: the length of the result, and the largest surplus. -/
theorem planLoop_eq
    {content : Bytes}
    {cursor finalLen extra : ℕ}
    {delta : ℤ}
    {ops : List ReplacementOp}
    (hchain : Chained content.length cursor ops)
    (hfinal : (finalLen : ℤ) = content.length + delta)
    (hcursor : 0 ≤ cursor + delta) :
    ∃ extra', planLoop finalLen delta extra ops =
        .ok ((cursor + delta).toNat + (spliceFrom content cursor ops).length, extra') ∧
      extra ≤ extra' ∧ surplus delta ops ≤ extra' := by
  induction ops generalizing cursor finalLen delta extra with
  | nil =>
      have hle : cursor ≤ content.length := hchain
      refine ⟨extra, ?_, le_refl _, by simp [surplus]⟩
      have hlen : (cursor + delta).toNat + (spliceFrom content cursor []).length = finalLen := by
        rw [spliceFrom, List.length_drop]
        omega
      rw [planLoop, hlen]
  | cons op ops ih =>
      obtain ⟨hstart, hstop, hrest⟩ := hchain
      have hend := hrest.le
      have hgap : ((content.take op.start).drop cursor).length = op.start - cursor := by
        rw [List.length_drop, List.length_take]
        omega
      obtain ⟨extra', hplan, hextra, hsurplus⟩ := @ih op.stop
        (finalLen - (op.stop - op.start) + op.text.length)
        (max extra (max (delta + ((op.text.length : ℤ) - ((op.stop - op.start : ℕ) : ℤ))) 0).toNat)
        (delta + ((op.text.length : ℤ) - ((op.stop - op.start : ℕ) : ℤ)))
        hrest (by omega) (by omega)
      refine ⟨extra', ?_, by omega, ?_⟩
      · rw [planLoop, if_neg (by omega)]
        dsimp only
        rw [hplan, spliceFrom, List.length_append, List.length_append, hgap]
        congr 2
        omega
      · rw [surplus]
        omega

/-- Planning and applying replacements in order to a buffer of the planned length. -/
theorem applyReplacementsInPlace_eq
    {content : Bytes}
    {ops : List ReplacementOp}
    (hchain : Chained content.length 0 ops) :
    ∃ extra, planReplacements content.length ops =
        .ok ((spliced content ops).length, extra) ∧
      ∀ buffer : Bytes, buffer.length = content.length + extra →
        buffer.take content.length = content →
          ∃ spare, applyReplacementsInPlace buffer content.length ops =
            some (spliced content ops ++ spare) ∧
              (spliced content ops ++ spare).length = buffer.length := by
  obtain ⟨extra, hplan, -, hsurplus⟩ := @planLoop_eq _ _ _ _ 0 _ hchain
    (show ((content.length : ℕ) : ℤ) = content.length + 0 by omega) (by omega)
  refine ⟨extra, ?_, ?_⟩
  · rw [planReplacements, hplan, spliceFrom_eq_spliced hchain]
    simp
  · intro buffer hlength hbuffer
    have hstart : Consumed content [] 0 ⟨buffer, content.length, 0⟩ := by
      refine ⟨Nat.zero_le _, by simp, by simp, ⟨buffer.drop content.length, ?_⟩⟩
      rw [List.nil_append, List.drop_zero]
      nth_rewrite 2 [← hbuffer]
      exact (List.take_append_drop _ _).symm
    obtain ⟨w, spare, hrun, hwritten, hparts⟩ := exists_foldlM_applyOp hstart hchain (by
      dsimp only
      omega)
    rw [List.nil_append, spliceFrom_eq_spliced hchain] at hparts
    refine ⟨spare, ?_, ?_⟩
    · rw [applyReplacementsInPlace, hrun, ← hparts]
      rfl
    · rw [← hparts, hwritten]

/-- The contents of the file afterwards. -/
theorem writeReplacementsWithMmap_eq
    {content : Bytes}
    {ops : List ReplacementOp}
    (hchain : Chained content.length 0 ops) :
    writeReplacementsWithMmap content ops = some (.ok (spliced content ops)) := by
  obtain ⟨extra, hplan, happly⟩ := applyReplacementsInPlace_eq hchain
  obtain ⟨spare, hwritten, -⟩ := happly (content ++ List.replicate extra 0) (by simp) (by simp)
  rw [writeReplacementsWithMmap, hplan]
  dsimp only
  rw [hwritten, Option.map_some, List.take_left]

/-! ## Literal replacement -/

/-- The matches follow one another. -/
theorem chained_findIter
    (pattern replacement rest : Bytes)
    (skip offset : ℕ)
    (hskip : skip ≤ rest.length) :
    Chained (offset + rest.length) (offset + skip)
      (literalOps pattern replacement (findIter pattern skip offset rest)) := by
  induction rest generalizing skip offset with
  | nil =>
      obtain rfl : skip = 0 := by simpa using hskip
      rw [findIter]
      split
      case isTrue hempty => simp [literalOps, Chained, hempty.2]
      case isFalse => simp [literalOps, Chained]
  | cons b rest ih =>
      have hnext : offset + (b :: rest).length = offset + 1 + rest.length := by
        rw [List.length_cons]
        omega
      rw [hnext]
      cases skip with
      | succ skip =>
          have hrest := ih skip (offset + 1) (by simpa using hskip)
          rw [findIter]
          rwa [show offset + 1 + skip = offset + (skip + 1) by omega] at hrest
      | zero =>
          rw [findIter]
          split
          case isTrue hmatch =>
              have hlength : pattern.length ≤ rest.length + 1 := hmatch.length_le
              have hrest := ih (pattern.length - 1) (offset + 1) (by omega)
              exact ⟨by dsimp only; omega, by dsimp only; omega,
                hrest.weaken (by dsimp only; omega)⟩
          case isFalse => exact (ih 0 (offset + 1) (Nat.zero_le _)).weaken (by omega)

/-- Overwriting in place replaces ranges by texts that are as long. -/
theorem overwriteMatches_eq
    {pattern replacement content done : Bytes}
    {cursor : ℕ}
    {matchStarts : List ℕ}
    (hlength : replacement.length = pattern.length)
    (hdone : done.length = cursor)
    (hchain : Chained content.length cursor (literalOps pattern replacement matchStarts)) :
    overwriteMatches replacement (done ++ content.drop cursor) matchStarts =
      some (done ++ spliceFrom content cursor (literalOps pattern replacement matchStarts)) := by
  induction matchStarts generalizing done cursor with
  | nil => rfl
  | cons start starts ih =>
      obtain ⟨hstart, -, hrest⟩ := hchain
      dsimp only at hstart hrest
      have hend := hrest.le
      have hgap : ((content.take start).drop cursor).length = start - cursor := by
        rw [List.length_drop, List.length_take]
        omega
      have htake : (done ++ content.drop cursor).take start =
          done ++ (content.take start).drop cursor := by
        rw [List.take_append, hdone, List.take_of_length_le (by omega), List.drop_take]
      have hdrop : (done ++ content.drop cursor).drop (start + pattern.length) =
          content.drop (start + pattern.length) := by
        rw [List.drop_append, hdone, List.drop_eq_nil_of_le (by omega), List.nil_append,
          List.drop_drop]
        congr 1
        omega
      have hnext := @ih (done ++ (content.take start).drop cursor ++ replacement)
        (start + pattern.length) (by
          simp only [List.length_append, hgap]
          omega) hrest
      have hroom : start + replacement.length ≤ (done ++ content.drop cursor).length := by
        rw [List.length_append, List.length_drop]
        omega
      rw [overwriteMatches, copyFromSlice, if_pos hroom, Option.bind_some, htake, hlength, hdrop,
        hnext]
      simp only [literalOps, List.map_cons, spliceFrom, List.append_assoc]

/-- A file of at least one byte has its matches replaced, on the fast path and on the other. -/
theorem replaceFileLiteral_eq
    (pattern replacement content : Bytes)
    (h : content ≠ []) :
    replaceFileLiteral pattern replacement content =
      some (.ok (spliced content
        (literalOps pattern replacement (findIter pattern 0 0 content)))) := by
  have hchain := chained_findIter pattern replacement content 0 0 (Nat.zero_le _)
  rw [Nat.zero_add] at hchain
  rw [replaceFileLiteral, if_neg h]
  dsimp only
  split
  case isTrue hnone => rw [hnone, ← spliceFrom_eq_spliced (hnone ▸ hchain)]; rfl
  case isFalse =>
      split
      case isTrue hlength =>
          have hoverwritten := @overwriteMatches_eq pattern replacement content [] 0 _ hlength rfl hchain
          rw [List.nil_append, List.drop_zero] at hoverwritten
          rw [hoverwritten, List.nil_append, spliceFrom_eq_spliced hchain]
          rfl
      case isFalse => exact writeReplacementsWithMmap_eq hchain

/-- The second of two overlapping matches is not replaced. -/
theorem replaceFileLiteral_eq_overlapping :
    replaceFileLiteral [97, 97] [98] [97, 97, 97, 99] = some (.ok [98, 97, 99]) :=
  (replaceFileLiteral_eq [97, 97] [98] [97, 97, 97, 99] (List.cons_ne_nil _ _)).trans rfl

/-- Replacements in order within the contents are planned, applied to a buffer of the planned length
without a panic, and leave the contents with each range replaced; and overwriting in place gives the
same bytes when every replacement is as long as what it replaces. -/
theorem in_place_replacement_splices
    {content : Bytes}
    {ops : List ReplacementOp}
    (hchain : Chained content.length 0 ops) :
    (∃ newLen extra, planReplacements content.length ops = .ok (newLen, extra) ∧
      ∀ buffer : Bytes, buffer.length = content.length + extra →
        buffer.take content.length = content →
          ∃ buffer', applyReplacementsInPlace buffer content.length ops = some buffer' ∧
            buffer'.length = buffer.length ∧ newLen ≤ buffer'.length ∧
              buffer'.take newLen = spliced content ops) ∧
    (∀ pattern replacement matchStarts, ops = literalOps pattern replacement matchStarts →
      replacement.length = pattern.length →
        overwriteMatches replacement content matchStarts = some (spliced content ops)) ∧
    writeReplacementsWithMmap content ops = some (.ok (spliced content ops)) := by
  refine ⟨?_, ?_, writeReplacementsWithMmap_eq hchain⟩
  · obtain ⟨extra, hplan, happly⟩ := applyReplacementsInPlace_eq hchain
    refine ⟨_, extra, hplan, fun buffer hlength hbuffer => ?_⟩
    obtain ⟨spare, hwritten, hlength'⟩ := happly buffer hlength hbuffer
    exact ⟨_, hwritten, hlength', by rw [List.length_append]; omega, List.take_left⟩
  · rintro pattern replacement matchStarts rfl hlength
    have hoverwritten := @overwriteMatches_eq pattern replacement content [] 0 _ hlength rfl hchain
    rw [List.nil_append, List.drop_zero] at hoverwritten
    rw [hoverwritten, List.nil_append, spliceFrom_eq_spliced hchain]

/-- One byte of three replaced by three. -/
theorem in_place_replacement_splices_grow :
    (∃ newLen extra, planReplacements 3 [⟨1, 2, [120, 121, 122]⟩] = .ok (newLen, extra) ∧
      ∀ buffer : Bytes, buffer.length = 3 + extra → buffer.take 3 = [97, 98, 99] →
        ∃ buffer', applyReplacementsInPlace buffer 3 [⟨1, 2, [120, 121, 122]⟩] = some buffer' ∧
          buffer'.length = buffer.length ∧ newLen ≤ buffer'.length ∧
            buffer'.take newLen = spliced [97, 98, 99] [⟨1, 2, [120, 121, 122]⟩]) ∧
    (∀ pattern replacement matchStarts,
      ([⟨1, 2, [120, 121, 122]⟩] : List ReplacementOp) =
          literalOps pattern replacement matchStarts →
        replacement.length = pattern.length →
          overwriteMatches replacement [97, 98, 99] matchStarts =
            some (spliced [97, 98, 99] [⟨1, 2, [120, 121, 122]⟩])) ∧
    writeReplacementsWithMmap [97, 98, 99] [⟨1, 2, [120, 121, 122]⟩] =
      some (.ok (spliced [97, 98, 99] [⟨1, 2, [120, 121, 122]⟩])) :=
  @in_place_replacement_splices [97, 98, 99] [⟨1, 2, [120, 121, 122]⟩] (by simp [Chained])

end CpuBackend
end TensorGrep
