import Mathlib.Tactic

/-!
# UTF-8 text and its lines

Text is a list of Unicode scalar values, a file is a list of bytes.  This
module holds what a byte-level scan and a character-level scan of the same
text have in common: encoding is injective, an ASCII byte occurs in the
encoding exactly where the ASCII character occurs in the text, splitting at
line feeds commutes with encoding, and so does ASCII lower-casing.

`strLines` is the standard library's line iterator: a line ends at a line
feed, one carriage return directly before that line feed belongs to the
terminator, and an unterminated last line is kept as it is.
-/

namespace TensorGrep
namespace Kernel

universe u

/-- Raw bytes. -/
abbrev Bytes := List UInt8

/-- Unicode scalar values. -/
abbrev Text := List Char

/-- UTF-8 encoding. -/
def utf8 (t : Text) : Bytes :=
  t.flatMap String.utf8EncodeChar

/-- Strict UTF-8 decoding. -/
def fromUtf8 (b : Bytes) : Option Text :=
  b.toByteArray.utf8Decode?.map Array.toList

@[simp] theorem utf8_nil : utf8 [] = [] := rfl

@[simp] theorem utf8_cons
    (c : Char)
    (t : Text) :
    utf8 (c :: t) = String.utf8EncodeChar c ++ utf8 t := rfl

@[simp] theorem utf8_append
    (t₁ t₂ : Text) :
    utf8 (t₁ ++ t₂) = utf8 t₁ ++ utf8 t₂ := by
  simp [utf8]

theorem utf8_toByteArray
    (t : Text) :
    (utf8 t).toByteArray = t.utf8Encode := rfl

/-- Decoding inverts encoding. -/
@[simp] theorem fromUtf8_utf8
    (t : Text) :
    fromUtf8 (utf8 t) = some t := by
  simp [fromUtf8, utf8_toByteArray]

theorem toByteArray_injective
    {b₁ b₂ : Bytes}
    (h : b₁.toByteArray = b₂.toByteArray) :
    b₁ = b₂ := by
  have hdata := congrArg (fun a : ByteArray => a.data.toList) h
  simpa using hdata

/-- Whatever decodes is the encoding of the decoded text. -/
theorem utf8_of_fromUtf8
    {b : Bytes}
    {t : Text}
    (h : fromUtf8 b = some t) :
    utf8 t = b := by
  unfold fromUtf8 at h
  obtain ⟨a, ha, rfl⟩ := Option.map_eq_some_iff.mp h
  apply toByteArray_injective
  rw [utf8_toByteArray]
  have hsome : b.toByteArray.utf8Decode?.isSome := by
    rw [ha]
    rfl
  have hget : b.toByteArray.utf8Decode?.get hsome = a := by
    simp [ha]
  rw [← hget]
  exact ByteArray.utf8Encode_get_utf8Decode?

theorem utf8_injective
    {t₁ t₂ : Text}
    (h : utf8 t₁ = utf8 t₂) :
    t₁ = t₂ := by
  have hdec := congrArg fromUtf8 h
  simpa using hdec

/-- Encoding is monotone under infixes. -/
theorem utf8_isInfix
    {t₁ t₂ : Text}
    (h : t₁ <:+: t₂) :
    utf8 t₁ <:+: utf8 t₂ := by
  obtain ⟨p, s, rfl⟩ := h
  exact ⟨utf8 p, utf8 s, by simp⟩

/-- ASCII characters. -/
def IsAscii (c : Char) : Prop :=
  c.toNat < 128

instance (c : Char) : Decidable (IsAscii c) :=
  inferInstanceAs (Decidable (c.toNat < 128))

theorem utf8EncodeChar_of_isAscii
    {c : Char}
    (h : IsAscii c) :
    String.utf8EncodeChar c = [UInt8.ofNat c.toNat] := by
  unfold IsAscii Char.toNat at h
  unfold String.utf8EncodeChar
  rw [if_pos (by omega)]
  rfl

/-- Every byte of a non-ASCII character is at least `0x80`. -/
theorem byte_ge_of_not_isAscii
    {c : Char}
    (h : ¬ IsAscii c)
    {b : UInt8}
    (hb : b ∈ String.utf8EncodeChar c) :
    128 ≤ b.toNat := by
  unfold IsAscii Char.toNat at h
  unfold String.utf8EncodeChar at hb
  simp only at hb
  have hbyte : ∀ n : Nat, (UInt8.ofNat n).toNat = n % 256 := by
    intro n
    simp
  split_ifs at hb <;> simp only [List.mem_cons, List.not_mem_nil, or_false] at hb
  · omega
  · rcases hb with rfl | rfl <;> rw [hbyte] <;> omega
  · rcases hb with rfl | rfl | rfl <;> rw [hbyte] <;> omega
  · rcases hb with rfl | rfl | rfl | rfl <;> rw [hbyte] <;> omega

/-! ## Lossy decoding -/

/-- The ranges that the continuation bytes after a lead byte must lie in. -/
def continuationRanges (lead : UInt8) : Option (List (Nat × Nat)) :=
  let n := lead.toNat
  if n < 0x80 then some []
  else if n < 0xC2 then none
  else if n < 0xE0 then some [(0x80, 0xBF)]
  else if n = 0xE0 then some [(0xA0, 0xBF), (0x80, 0xBF)]
  else if n = 0xED then some [(0x80, 0x9F), (0x80, 0xBF)]
  else if n < 0xF0 then some [(0x80, 0xBF), (0x80, 0xBF)]
  else if n = 0xF0 then some [(0x90, 0xBF), (0x80, 0xBF), (0x80, 0xBF)]
  else if n < 0xF4 then some [(0x80, 0xBF), (0x80, 0xBF), (0x80, 0xBF)]
  else if n = 0xF4 then some [(0x80, 0x8F), (0x80, 0xBF), (0x80, 0xBF)]
  else none

/-- How many bytes lie, one after the other, in the given ranges. -/
def matchedContinuation : List (Nat × Nat) → Bytes → Nat
  | (lo, hi) :: ranges, b :: bs =>
      if lo ≤ b.toNat ∧ b.toNat ≤ hi then matchedContinuation ranges bs + 1 else 0
  | _, _ => 0

/-- `U+FFFD` in UTF-8. -/
def replacementBytes : Bytes := [0xEF, 0xBF, 0xBD]

/-- The standard library's `to_string_lossy` as bytes: every maximal ill-formed
sequence becomes one replacement character. -/
def toStringLossy : Bytes → Bytes
  | [] => []
  | lead :: rest =>
      match continuationRanges lead with
      | none => replacementBytes ++ toStringLossy rest
      | some ranges =>
          let n := matchedContinuation ranges rest
          (if n = ranges.length then lead :: rest.take n else replacementBytes) ++
            toStringLossy (rest.drop n)
termination_by b => b.length
decreasing_by
  · simp
  · simp only [List.length_drop, List.length_cons]
    omega

/-- What completes a sequence completes it whatever comes after. -/
theorem matchedContinuation_append
    {ranges : List (Nat × Nat)}
    {cont : Bytes}
    (h : matchedContinuation ranges cont = ranges.length)
    (tail : Bytes) :
    matchedContinuation ranges (cont ++ tail) = ranges.length := by
  induction ranges generalizing cont with
  | nil => simp [matchedContinuation]
  | cons r ranges ih =>
      cases cont with
      | nil => simp [matchedContinuation] at h
      | cons b cont =>
          rw [matchedContinuation, List.length_cons] at h
          rw [List.cons_append, matchedContinuation, List.length_cons]
          split_ifs at h with hin
          rw [if_pos hin, ih (Nat.succ.inj h)]

/-- The bytes that complete a sequence are as many as it needs, and complete it alone. -/
theorem matchedContinuation_take
    {ranges : List (Nat × Nat)}
    {rest : Bytes}
    (h : matchedContinuation ranges rest = ranges.length) :
    (rest.take ranges.length).length = ranges.length ∧
      matchedContinuation ranges (rest.take ranges.length) = ranges.length := by
  induction ranges generalizing rest with
  | nil => simp [matchedContinuation]
  | cons r ranges ih =>
      cases rest with
      | nil => simp [matchedContinuation] at h
      | cons b rest =>
          rw [matchedContinuation, List.length_cons] at h
          split_ifs at h with hin
          obtain ⟨hlen, hmatch⟩ := ih (Nat.succ.inj h)
          rw [List.length_cons, List.take_succ_cons, matchedContinuation, if_pos hin, hmatch,
            List.length_cons, hlen]
          exact ⟨rfl, rfl⟩

/-- A complete sequence is kept. -/
theorem toStringLossy_complete
    {lead : UInt8}
    {ranges : List (Nat × Nat)}
    {cont : Bytes}
    (hlead : continuationRanges lead = some ranges)
    (hlen : cont.length = ranges.length)
    (hmatch : matchedContinuation ranges cont = ranges.length)
    (tail : Bytes) :
    toStringLossy (lead :: cont ++ tail) = lead :: cont ++ toStringLossy tail := by
  rw [List.cons_append, toStringLossy, hlead]
  dsimp only
  rw [matchedContinuation_append hmatch, if_pos rfl, ← hlen, List.take_left, List.drop_left]

/-- The replacement character is kept. -/
theorem toStringLossy_replacement
    (tail : Bytes) :
    toStringLossy (replacementBytes ++ tail) = replacementBytes ++ toStringLossy tail :=
  @toStringLossy_complete 0xEF [(0x80, 0xBF), (0x80, 0xBF)] [0xBF, 0xBD] rfl rfl rfl tail

/-- Decoding twice changes nothing more: a lossy text is well formed. -/
theorem toStringLossy_idem
    (b : Bytes) :
    toStringLossy (toStringLossy b) = toStringLossy b := by
  induction b using toStringLossy.induct with
  | case1 => simp [toStringLossy]
  | case2 lead rest hlead ih =>
      rw [toStringLossy, hlead]
      dsimp only
      rw [toStringLossy_replacement, ih]
  | case3 lead rest ranges hlead n ih =>
      have hn : n = matchedContinuation ranges rest := rfl
      rw [toStringLossy, hlead]
      dsimp only
      rw [← hn]
      by_cases hfull : n = ranges.length
      · obtain ⟨hlen, hmatch⟩ := matchedContinuation_take (hn.symm.trans hfull)
        rw [if_pos hfull, hfull, toStringLossy_complete hlead hlen hmatch, ← hfull, ih]
      · rw [if_neg hfull, toStringLossy_replacement, ih]

/-- The bytes of a character are a complete sequence. -/
theorem exists_ranges_utf8EncodeChar
    (c : Char) :
    ∃ lead ranges cont, String.utf8EncodeChar c = lead :: cont ∧
      continuationRanges lead = some ranges ∧ cont.length = ranges.length ∧
        matchedContinuation ranges cont = ranges.length := by
  have hvalid : c.val.toNat < 0xD800 ∨ 0xDFFF < c.val.toNat ∧ c.val.toNat < 0x110000 := c.valid
  have hbyte : ∀ n : ℕ, n < 256 → (UInt8.ofNat n).toNat = n := by
    intro n hn
    simp [Nat.mod_eq_of_lt hn]
  generalize hv : c.val.toNat = v at hvalid
  unfold String.utf8EncodeChar
  rw [hv]
  dsimp only
  split_ifs with h₁ h₂ h₃
  · refine ⟨_, [], [], rfl, ?_, rfl, rfl⟩
    rw [continuationRanges, hbyte v (by omega), if_pos (by omega)]
  · refine ⟨_, [(0x80, 0xBF)], [_], rfl, ?_, rfl, ?_⟩
    · rw [continuationRanges, hbyte _ (by omega), if_neg (by omega), if_neg (by omega),
        if_pos (by omega)]
    · rw [matchedContinuation, hbyte _ (by omega), if_pos (by omega)]
      rfl
  · have hlead : (UInt8.ofNat (v / 4096 % 16 + 224)).toNat = v / 4096 + 224 := by
      rw [hbyte _ (by omega)]
      omega
    have hsecond := hbyte (v / 64 % 64 + 128) (by omega)
    have hthird := hbyte (v % 64 + 128) (by omega)
    by_cases hE0 : v / 4096 = 0
    · refine ⟨_, [(0xA0, 0xBF), (0x80, 0xBF)], [_, _], rfl, ?_, rfl, ?_⟩
      · rw [continuationRanges, hlead, hE0]
        rfl
      · rw [matchedContinuation, hsecond, if_pos (by omega), matchedContinuation, hthird,
          if_pos (by omega)]
        rfl
    · by_cases hED : v / 4096 = 13
      · refine ⟨_, [(0x80, 0x9F), (0x80, 0xBF)], [_, _], rfl, ?_, rfl, ?_⟩
        · rw [continuationRanges, hlead, hED]
          rfl
        · rw [matchedContinuation, hsecond, if_pos (by omega), matchedContinuation, hthird,
            if_pos (by omega)]
          rfl
      · refine ⟨_, [(0x80, 0xBF), (0x80, 0xBF)], [_, _], rfl, ?_, rfl, ?_⟩
        · rw [continuationRanges, hlead, if_neg (by omega), if_neg (by omega), if_neg (by omega),
            if_neg (by omega), if_neg (by omega), if_pos (by omega)]
        · rw [matchedContinuation, hsecond, if_pos (by omega), matchedContinuation, hthird,
            if_pos (by omega)]
          rfl
  · have hlead : (UInt8.ofNat (v / 262144 % 8 + 240)).toNat = v / 262144 + 240 := by
      rw [hbyte _ (by omega)]
      omega
    have hsecond := hbyte (v / 4096 % 64 + 128) (by omega)
    have hthird := hbyte (v / 64 % 64 + 128) (by omega)
    have hfourth := hbyte (v % 64 + 128) (by omega)
    by_cases hF0 : v / 262144 = 0
    · refine ⟨_, [(0x90, 0xBF), (0x80, 0xBF), (0x80, 0xBF)], [_, _, _], rfl, ?_, rfl, ?_⟩
      · rw [continuationRanges, hlead, hF0]
        rfl
      · rw [matchedContinuation, hsecond, if_pos (by omega), matchedContinuation, hthird,
          if_pos (by omega), matchedContinuation, hfourth, if_pos (by omega)]
        rfl
    · by_cases hF4 : v / 262144 = 4
      · refine ⟨_, [(0x80, 0x8F), (0x80, 0xBF), (0x80, 0xBF)], [_, _, _], rfl, ?_, rfl, ?_⟩
        · rw [continuationRanges, hlead, hF4]
          rfl
        · rw [matchedContinuation, hsecond, if_pos (by omega), matchedContinuation, hthird,
            if_pos (by omega), matchedContinuation, hfourth, if_pos (by omega)]
          rfl
      · refine ⟨_, [(0x80, 0xBF), (0x80, 0xBF), (0x80, 0xBF)], [_, _, _], rfl, ?_, rfl, ?_⟩
        · rw [continuationRanges, hlead, if_neg (by omega), if_neg (by omega), if_neg (by omega),
            if_neg (by omega), if_neg (by omega), if_neg (by omega), if_neg (by omega),
            if_pos (by omega)]
        · rw [matchedContinuation, hsecond, if_pos (by omega), matchedContinuation, hthird,
            if_pos (by omega), matchedContinuation, hfourth, if_pos (by omega)]
          rfl

/-- Well-formed bytes are kept. -/
theorem toStringLossy_utf8
    (t : Text) :
    toStringLossy (utf8 t) = utf8 t := by
  induction t with
  | nil => simp [toStringLossy]
  | cons c t ih =>
      obtain ⟨lead, ranges, cont, hencode, hlead, hlen, hmatch⟩ := exists_ranges_utf8EncodeChar c
      rw [utf8_cons, hencode, toStringLossy_complete hlead hlen hmatch, ih]

/-! ## ASCII case -/

/-- The standard library's `u8::to_ascii_lowercase`. -/
def asciiLowerByte (b : UInt8) : UInt8 :=
  if 65 ≤ b.toNat ∧ b.toNat ≤ 90 then UInt8.ofNat (b.toNat + 32) else b

/-- The standard library's `char::to_ascii_lowercase`. -/
def asciiLowerChar (c : Char) : Char :=
  if 65 ≤ c.toNat ∧ c.toNat ≤ 90 then Char.ofNat (c.toNat + 32) else c

theorem asciiLowerChar_toNat
    (c : Char) :
    (asciiLowerChar c).toNat =
      if 65 ≤ c.toNat ∧ c.toNat ≤ 90 then c.toNat + 32 else c.toNat := by
  unfold asciiLowerChar
  split_ifs with h
  · have hv : (c.toNat + 32).isValidChar := Or.inl (by omega)
    rw [Char.ofNat, dif_pos hv]
    rfl
  · rfl

theorem isAscii_asciiLowerChar
    {c : Char} :
    IsAscii (asciiLowerChar c) ↔ IsAscii c := by
  unfold IsAscii
  rw [asciiLowerChar_toNat]
  split_ifs <;> omega

theorem asciiLowerByte_of_ge
    {b : UInt8}
    (h : 128 ≤ b.toNat) :
    asciiLowerByte b = b := by
  unfold asciiLowerByte
  rw [if_neg (by omega)]

/-- Lower-casing one character lower-cases its encoding byte by byte. -/
theorem utf8EncodeChar_asciiLowerChar
    (c : Char) :
    String.utf8EncodeChar (asciiLowerChar c) =
      (String.utf8EncodeChar c).map asciiLowerByte := by
  by_cases h : IsAscii c
  · have hlow : IsAscii (asciiLowerChar c) := isAscii_asciiLowerChar.mpr h
    rw [utf8EncodeChar_of_isAscii h, utf8EncodeChar_of_isAscii hlow,
      asciiLowerChar_toNat]
    have hbyte : (UInt8.ofNat c.toNat).toNat = c.toNat := by
      unfold IsAscii at h
      simp
      omega
    simp only [List.map_cons, List.map_nil, asciiLowerByte, hbyte]
    split_ifs <;> rfl
  · have hsame : asciiLowerChar c = c := by
      unfold IsAscii at h
      unfold asciiLowerChar
      rw [if_neg (by omega)]
    rw [hsame]
    symm
    calc
      (String.utf8EncodeChar c).map asciiLowerByte
          = (String.utf8EncodeChar c).map id := by
            apply List.map_congr_left
            intro b hb
            exact asciiLowerByte_of_ge (byte_ge_of_not_isAscii h hb)
      _ = String.utf8EncodeChar c := List.map_id _

/-- ASCII lower-casing commutes with encoding. -/
theorem utf8_map_asciiLowerChar
    (t : Text) :
    utf8 (t.map asciiLowerChar) = (utf8 t).map asciiLowerByte := by
  induction t with
  | nil => rfl
  | cons c t ih =>
      simp only [List.map_cons, utf8_cons, List.map_append, ih,
        utf8EncodeChar_asciiLowerChar]

theorem asciiLowerByte_idem
    (b : UInt8) :
    asciiLowerByte (asciiLowerByte b) = asciiLowerByte b := by
  unfold asciiLowerByte
  split_ifs with h h' <;> try rfl
  simp at h'
  omega

/-- Text made of ASCII characters only. -/
def IsAsciiText (t : Text) : Prop :=
  ∀ c ∈ t, IsAscii c

instance (t : Text) : Decidable (IsAsciiText t) :=
  List.decidableBAll IsAscii t

/-- An ASCII text has one byte for each character. -/
theorem utf8_length_of_isAsciiText
    {t : Text}
    (h : IsAsciiText t) :
    (utf8 t).length = t.length := by
  induction t with
  | nil => rfl
  | cons c t ih =>
      rw [utf8_cons, utf8EncodeChar_of_isAscii (h c (by simp))]
      simp [ih (fun d hd => h d (List.mem_cons_of_mem _ hd))]

/-! ## Lines -/

/-- Drop one trailing `cr`. -/
def stripCr
    {α : Type u} [DecidableEq α]
    (cr : α)
    (l : List α) : List α :=
  if l.getLast? = some cr then l.dropLast else l

/-- The standard library's `str::lines`. -/
def strLines (t : Text) : List Text :=
  (t.splitOn '\n').dropLast.map (stripCr '\r') ++
    ((t.splitOn '\n').getLast?.toList.filter (fun l => l ≠ []))

theorem splitOn_append_of_not_mem
    {α : Type u} [DecidableEq α]
    {sep : α}
    {p : List α}
    (h : sep ∉ p)
    (l : List α) :
    (p ++ l).splitOn sep = (l.splitOn sep).modifyHead (p ++ ·) := by
  induction p with
  | nil =>
      cases hl : l.splitOn sep with
      | nil => exact absurd hl (List.splitOn_ne_nil sep l)
      | cons a as => simp [hl]
  | cons a p ih =>
      have ha : (a == sep) = false := by
        simp only [beq_eq_false_iff_ne]
        rintro rfl
        exact h (by simp)
      have hp : sep ∉ p := fun hmem => h (List.mem_cons_of_mem _ hmem)
      rw [List.cons_append, List.splitOn_cons_eq_if_modifyHead, ha, ih hp]
      cases hl : l.splitOn sep with
      | nil => exact absurd hl (List.splitOn_ne_nil sep l)
      | cons b bs => simp

theorem splitOn_cons_sep
    {α : Type u} [DecidableEq α]
    (sep : α)
    (l : List α) :
    (sep :: l).splitOn sep = [] :: l.splitOn sep := by
  rw [List.splitOn_cons_eq_if_modifyHead]
  simp

/-- Encoding creates an ASCII byte only for the ASCII character. -/
theorem asciiByte_not_mem_utf8EncodeChar
    {c sep : Char}
    (hsep : IsAscii sep)
    (h : c ≠ sep) :
    UInt8.ofNat sep.toNat ∉ String.utf8EncodeChar c := by
  have hbyte : (UInt8.ofNat sep.toNat).toNat = sep.toNat := by
    unfold IsAscii at hsep
    simp
    omega
  intro hmem
  by_cases hc : IsAscii c
  · rw [utf8EncodeChar_of_isAscii hc] at hmem
    apply h
    have hval : (UInt8.ofNat sep.toNat).toNat = (UInt8.ofNat c.toNat).toNat := by
      rw [List.mem_singleton.mp hmem]
    have hn : c.toNat = sep.toNat := by
      unfold IsAscii at hc
      rw [hbyte] at hval
      simp at hval
      omega
    exact Char.toNat_inj.mp hn
  · have := byte_ge_of_not_isAscii hc hmem
    unfold IsAscii at hsep
    omega

/-- Splitting at an ASCII character commutes with encoding. -/
theorem splitOn_utf8_of_isAscii
    {sep : Char}
    (hsep : IsAscii sep)
    (t : Text) :
    (utf8 t).splitOn (UInt8.ofNat sep.toNat) = (t.splitOn sep).map utf8 := by
  induction t with
  | nil => rfl
  | cons c t ih =>
      by_cases hc : c = sep
      · subst hc
        rw [utf8_cons, utf8EncodeChar_of_isAscii hsep, List.singleton_append,
          splitOn_cons_sep, splitOn_cons_sep, ih]
        rfl
      · have hmem : sep ∉ [c] := by
          simpa [eq_comm] using hc
        rw [utf8_cons,
          splitOn_append_of_not_mem (asciiByte_not_mem_utf8EncodeChar hsep hc), ih,
          show c :: t = [c] ++ t from rfl, splitOn_append_of_not_mem hmem]
        cases ht : t.splitOn sep with
        | nil => exact absurd ht (List.splitOn_ne_nil _ t)
        | cons a as => simp

/-- Splitting at line feeds commutes with encoding. -/
theorem splitOn_utf8
    (t : Text) :
    (utf8 t).splitOn 10 = (t.splitOn '\n').map utf8 :=
  splitOn_utf8_of_isAscii (show IsAscii '\n' by decide) t

/-- An encoded text starts with an ASCII byte only when it starts with the character. -/
theorem head?_utf8_eq_some_iff
    {sep : Char}
    (hsep : IsAscii sep)
    {t : Text} :
    (utf8 t).head? = some (UInt8.ofNat sep.toNat) ↔ t.head? = some sep := by
  cases t with
  | nil => simp
  | cons c t =>
      rw [utf8_cons]
      constructor
      · intro h
        by_contra hne
        have hc : c ≠ sep := by simpa using hne
        refine asciiByte_not_mem_utf8EncodeChar hsep hc ?_
        cases henc : String.utf8EncodeChar c with
        | nil => exact absurd henc String.utf8EncodeChar_ne_nil
        | cons b bs =>
            rw [henc] at h
            simp only [List.cons_append, List.head?_cons, Option.some.injEq] at h
            simp [h]
      · intro h
        simp only [List.head?_cons, Option.some.injEq] at h
        subst h
        simp [utf8EncodeChar_of_isAscii hsep]

/-- The last byte of an encoded character is `\r` only for the character `\r`. -/
theorem getLast?_utf8EncodeChar_eq_cr
    {c : Char} :
    (String.utf8EncodeChar c).getLast? = some 13 ↔ c = '\r' := by
  constructor
  · intro h
    by_cases hc : IsAscii c
    · rw [utf8EncodeChar_of_isAscii hc] at h
      have hval : (UInt8.ofNat c.toNat).toNat = (13 : UInt8).toNat := by
        simpa using congrArg UInt8.toNat (Option.some.inj h)
      have hn : c.toNat = 13 := by
        unfold IsAscii at hc
        simp at hval
        omega
      exact Char.toNat_inj.mp hn
    · have := byte_ge_of_not_isAscii hc (List.mem_of_getLast? h)
      simp at this
  · rintro rfl
    decide

theorem getLast?_utf8_concat
    (t : Text)
    (c : Char) :
    (utf8 (t ++ [c])).getLast? = (String.utf8EncodeChar c).getLast? := by
  have hne : String.utf8EncodeChar c ≠ [] := String.utf8EncodeChar_ne_nil
  cases hl : (String.utf8EncodeChar c).getLast? with
  | none => exact absurd (List.getLast?_eq_none_iff.mp hl) hne
  | some b => simp [List.getLast?_append, hl]

/-- Dropping a trailing carriage return commutes with encoding. -/
theorem stripCr_utf8
    (t : Text) :
    stripCr 13 (utf8 t) = utf8 (stripCr '\r' t) := by
  rcases List.eq_nil_or_concat t with rfl | ⟨s, c, rfl⟩
  · rfl
  · rw [List.concat_eq_append]
    have hlast : (utf8 (s ++ [c])).getLast? = some 13 ↔ c = '\r' := by
      rw [getLast?_utf8_concat, getLast?_utf8EncodeChar_eq_cr]
    unfold stripCr
    by_cases hc : c = '\r'
    · rw [if_pos (hlast.mpr hc)]
      subst hc
      have henc : String.utf8EncodeChar '\r' = [13] := by decide
      simp [henc]
    · rw [if_neg (fun h => hc (hlast.mp h))]
      simp [hc]

/-- What a line of `strLines` is in terms of the pieces between line feeds. -/
theorem strLines_getElem?
    {t : Text}
    {k : Nat}
    {line : Text} :
    (strLines t)[k]? = some line ↔
      (k + 1 < (t.splitOn '\n').length ∧
          ∃ piece, (t.splitOn '\n')[k]? = some piece ∧
            line = stripCr '\r' piece) ∨
      (k + 1 = (t.splitOn '\n').length ∧
          (t.splitOn '\n')[k]? = some line ∧ line ≠ []) := by
  unfold strLines
  generalize hps : t.splitOn '\n' = pieces
  have hne : pieces ≠ [] := hps ▸ List.splitOn_ne_nil _ t
  rcases List.eq_nil_or_concat pieces with rfl | ⟨init, last, rfl⟩
  · exact absurd rfl hne
  · rw [List.concat_eq_append]
    simp only [List.dropLast_concat, List.getLast?_concat, Option.toList_some,
      List.length_append, List.length_singleton]
    rcases Nat.lt_trichotomy k init.length with hk | hk | hk
    · rw [List.getElem?_append_left (by simpa using hk),
        List.getElem?_append_left hk, List.getElem?_map]
      constructor
      · intro h
        obtain ⟨piece, hp, rfl⟩ := Option.map_eq_some_iff.mp h
        exact Or.inl ⟨by omega, piece, hp, rfl⟩
      · rintro (⟨-, piece, hp, rfl⟩ | ⟨hlen, -⟩)
        · rw [hp]
          rfl
        · omega
    · subst hk
      rw [List.getElem?_append_right (by simp),
        List.getElem?_append_right (by simp)]
      simp only [List.length_map, Nat.sub_self, List.getElem?_cons_zero]
      constructor
      · intro h
        have hmem := List.mem_of_getElem? h
        rw [List.mem_filter, List.mem_singleton] at hmem
        obtain ⟨rfl, hline⟩ := hmem
        exact Or.inr ⟨trivial, rfl, by simpa using hline⟩
      · rintro (⟨hlt, -⟩ | ⟨-, hlast, hline⟩)
        · exact absurd hlt (lt_irrefl _)
        · cases hlast
          simp [hline]
    · rw [List.getElem?_eq_none_iff.mpr]
      · constructor
        · intro h
          cases h
        · rintro (⟨hlt, -⟩ | ⟨hlen, -⟩)
          · omega
          · omega
      · have hfilter : ([last].filter (fun l => l ≠ [])).length ≤ 1 :=
          List.length_filter_le _ _
        simp only [List.length_append, List.length_map]
        simp only [ne_eq, decide_not] at hfilter ⊢
        omega

end Kernel
end TensorGrep
