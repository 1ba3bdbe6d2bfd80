import TensorGrep.Kernel.Utf8Text

/-!
# Byte offsets into text

Rust slices a string by byte offsets and panics when an offset falls inside a
character.  `isCharBoundary` is the byte test of the standard library;
`isCharBoundary_iff` says that an offset passes it exactly when it is the
length of an encoded prefix of the text.  From there on slices are reasoned
about as ways to split a list of characters.
-/

namespace TensorGrep
namespace Kernel

/-- The standard library's `str::is_char_boundary`. -/
def isCharBoundary
    (b : Bytes)
    (i : Nat) : Bool :=
  if i = 0 then true
  else
    match b[i]? with
    | none => i = b.length
    | some byte => byte.toNat < 0x80 || 0xC0 ≤ byte.toNat

/-- `&text[start..stop]`; `none` when it panics. -/
def sliceStr
    (t : Text)
    (start stop : Nat) : Option Text :=
  if start ≤ stop ∧ isCharBoundary (utf8 t) start ∧ isCharBoundary (utf8 t) stop then
    fromUtf8 (((utf8 t).take stop).drop start)
  else none

/-- A character is encoded as a first byte and continuation bytes. -/
theorem utf8EncodeChar_eq_cons
    (c : Char) :
    ∃ first rest, String.utf8EncodeChar c = first :: rest ∧
      (first.toNat < 0x80 ∨ 0xC0 ≤ first.toNat) ∧
      ∀ b ∈ rest, 0x80 ≤ b.toNat ∧ b.toNat < 0xC0 := by
  have hbyte : ∀ n : Nat, (UInt8.ofNat n).toNat = n % 256 := by
    intro n
    simp
  have hvalid : c.val.toNat < 0x110000 := by
    have := c.valid
    simp only [UInt32.isValidChar, Nat.isValidChar] at this
    omega
  rw [String.utf8EncodeChar]
  split_ifs with h₁ h₂ h₃
  · refine ⟨_, _, rfl, ?_, by simp⟩
    rw [hbyte]
    omega
  · refine ⟨_, _, rfl, ?_, ?_⟩
    · rw [hbyte]
      omega
    · simp only [List.mem_singleton, forall_eq, hbyte]
      omega
  · refine ⟨_, _, rfl, ?_, ?_⟩
    · rw [hbyte]
      omega
    · simp only [List.mem_cons, List.not_mem_nil, or_false, forall_eq_or_imp, forall_eq,
        hbyte]
      omega
  · refine ⟨_, _, rfl, ?_, ?_⟩
    · rw [hbyte]
      omega
    · simp only [List.mem_cons, List.not_mem_nil, or_false, forall_eq_or_imp, forall_eq,
        hbyte]
      omega

/-- Only the first byte of a text is a boundary inside its first character. -/
theorem isCharBoundary_cons
    {c : Char}
    {t : Text}
    {i : Nat} :
    isCharBoundary (utf8 (c :: t)) i = true ↔
      i = 0 ∨ ∃ j, i = (String.utf8EncodeChar c).length + j ∧
        isCharBoundary (utf8 t) j = true := by
  obtain ⟨first, rest, henc, hfirst, hrest⟩ := utf8EncodeChar_eq_cons c
  by_cases hi : i = 0
  · simp [hi, isCharBoundary]
  rw [isCharBoundary, if_neg hi, utf8_cons, henc, or_iff_right hi]
  by_cases hlt : i < (first :: rest).length
  · rw [List.getElem?_append_left hlt, List.getElem?_eq_getElem hlt]
    obtain ⟨k, rfl⟩ : ∃ k, i = k + 1 := ⟨i - 1, by omega⟩
    have hcont := hrest _ (List.getElem_mem (l := rest) (n := k) (by simpa using hlt))
    constructor
    · intro h
      simp only [List.getElem_cons_succ, Bool.or_eq_true, decide_eq_true_eq] at h
      omega
    · rintro ⟨j, hj, -⟩
      omega
  · obtain ⟨j, rfl⟩ : ∃ j, i = (first :: rest).length + j :=
      ⟨i - (first :: rest).length, by omega⟩
    rw [List.getElem?_append_right (by omega), Nat.add_sub_cancel_left]
    have hshift : (∃ j', (first :: rest).length + j = (first :: rest).length + j' ∧
        isCharBoundary (utf8 t) j' = true) ↔ isCharBoundary (utf8 t) j = true := by
      constructor
      · rintro ⟨j', hj, h⟩
        rwa [Nat.add_left_cancel hj]
      · intro h
        exact ⟨j, rfl, h⟩
    rw [hshift, isCharBoundary]
    by_cases hj : j = 0
    · subst hj
      rw [if_pos rfl]
      cases t with
      | nil => simp
      | cons d t =>
          obtain ⟨first', rest', henc', hfirst', -⟩ := utf8EncodeChar_eq_cons d
          simp [henc', hfirst']
    · rw [if_neg hj]
      cases (utf8 t)[j]? with
      | none =>
          simp only [List.length_append, decide_eq_true_eq]
          omega
      | some b => rfl

/-- A byte offset is a boundary exactly when it is the length of an encoded prefix. -/
theorem isCharBoundary_iff
    {t : Text}
    {i : Nat} :
    isCharBoundary (utf8 t) i = true ↔
      ∃ p s, t = p ++ s ∧ (utf8 p).length = i := by
  induction t generalizing i with
  | nil =>
      constructor
      · intro h
        refine ⟨[], [], rfl, ?_⟩
        by_cases hi : i = 0
        · exact hi.symm
        · simp [isCharBoundary, hi] at h
      · rintro ⟨p, s, h, rfl⟩
        obtain ⟨rfl, -⟩ := List.append_eq_nil_iff.mp h.symm
        rfl
  | cons c t ih =>
      rw [isCharBoundary_cons]
      constructor
      · rintro (rfl | ⟨j, rfl, hj⟩)
        · exact ⟨[], c :: t, rfl, rfl⟩
        · obtain ⟨p, s, rfl, rfl⟩ := ih.mp hj
          exact ⟨c :: p, s, rfl, by simp⟩
      · rintro ⟨p, s, h, rfl⟩
        cases p with
        | nil => exact Or.inl rfl
        | cons d p =>
            obtain ⟨rfl, rfl⟩ := List.cons_eq_cons.mp h
            exact Or.inr ⟨(utf8 p).length, by simp, ih.mpr ⟨p, s, rfl, rfl⟩⟩

/-- Slicing out the middle of a text. -/
theorem sliceStr_append
    (p u s : Text) :
    sliceStr (p ++ u ++ s) (utf8 p).length ((utf8 p).length + (utf8 u).length) = some u := by
  have hstart : isCharBoundary (utf8 (p ++ u ++ s)) (utf8 p).length = true :=
    isCharBoundary_iff.mpr ⟨p, u ++ s, by simp, rfl⟩
  have hstop : isCharBoundary (utf8 (p ++ u ++ s))
      ((utf8 p).length + (utf8 u).length) = true :=
    isCharBoundary_iff.mpr ⟨p ++ u, s, rfl, by simp⟩
  rw [sliceStr, if_pos ⟨by omega, hstart, hstop⟩]
  have hbytes : ((utf8 (p ++ u ++ s)).take ((utf8 p).length + (utf8 u).length)).drop
      (utf8 p).length = utf8 u := by
    rw [utf8_append, utf8_append, ← List.length_append, List.take_left, List.drop_left]
  rw [hbytes, fromUtf8_utf8]

/-- A slice between two boundaries splits the text. -/
theorem exists_split_of_boundaries
    {t : Text}
    {start stop : Nat}
    (hle : start ≤ stop)
    (hstart : isCharBoundary (utf8 t) start = true)
    (hstop : isCharBoundary (utf8 t) stop = true) :
    ∃ p u s, t = p ++ u ++ s ∧ (utf8 p).length = start ∧
      (utf8 p).length + (utf8 u).length = stop := by
  obtain ⟨p, s, rfl, rfl⟩ := isCharBoundary_iff.mp hstart
  obtain ⟨p', s', hsplit, rfl⟩ := isCharBoundary_iff.mp hstop
  rcases List.append_eq_append_iff.mp hsplit with ⟨u, rfl, rfl⟩ | ⟨u, rfl, rfl⟩
  · exact ⟨p, u, s', by simp, rfl, by simp⟩
  · -- the second boundary is not before the first, so nothing lies between them
    have hu : utf8 u = [] := by
      rw [utf8_append, List.length_append] at hle
      exact List.length_eq_zero_iff.mp (by omega)
    have hnil : u = [] := by
      cases u with
      | nil => rfl
      | cons c u =>
          rw [utf8_cons] at hu
          exact absurd (List.append_eq_nil_iff.mp hu).1 String.utf8EncodeChar_ne_nil
    subst hnil
    exact ⟨p', [], s, by simp, by simp, by simp⟩

/-- A slice succeeds exactly between two boundaries in order. -/
theorem sliceStr_eq_some_iff
    {t u : Text}
    {start stop : Nat} :
    sliceStr t start stop = some u ↔
      ∃ p s, t = p ++ u ++ s ∧ (utf8 p).length = start ∧
        (utf8 p).length + (utf8 u).length = stop := by
  constructor
  · intro h
    rw [sliceStr] at h
    split_ifs at h with hcond
    obtain ⟨hle, hstart, hstop⟩ := hcond
    obtain ⟨p, u', s, rfl, rfl, rfl⟩ := exists_split_of_boundaries hle hstart hstop
    have hslice := sliceStr_append p u' s
    rw [sliceStr, if_pos ⟨hle, hstart, hstop⟩, h] at hslice
    cases hslice
    exact ⟨p, s, rfl, rfl, rfl⟩
  · rintro ⟨p, s, rfl, rfl, rfl⟩
    exact sliceStr_append p u s

theorem sliceStr_ne_none_iff
    {t : Text}
    {start stop : Nat}
    (hle : start ≤ stop) :
    sliceStr t start stop ≠ none ↔
      isCharBoundary (utf8 t) start = true ∧ isCharBoundary (utf8 t) stop = true := by
  constructor
  · intro h
    rw [sliceStr] at h
    split_ifs at h with hcond
    · exact hcond.2
    · exact absurd rfl h
  · rintro ⟨hstart, hstop⟩
    obtain ⟨p, u, s, rfl, rfl, rfl⟩ := exists_split_of_boundaries hle hstart hstop
    rw [sliceStr_append]
    exact Option.some_ne_none u

end Kernel
end TensorGrep
