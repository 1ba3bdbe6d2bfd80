import Mathlib.Data.List.DropRight
import TensorGrep.Kernel.SortedKeys
import TensorGrep.Kernel.Utf8Text

/-!
# JSON values and their serialisations

A value is what a parser makes of a JSON text: strings are lists of code points,
lone surrogates among them, whole numbers are unbounded, and a number with a
fraction is known by its shortest decimal text.  Objects list their fields in
the order of the text, each key once.

`render` writes a value with a layout (compact, or indented by two spaces) and a
way to quote strings.  Two ways are defined: one escapes everything that is not
printable ASCII, the other writes such characters as UTF-8.  They agree on a
value exactly when its strings have no character from `0x7f` on.
-/

namespace TensorGrep
namespace Kernel

/-! ## Values -/

/-- Code points, those of surrogates among them. -/
abbrev CodePoint := Fin 0x110000

/-- Numerals are code points. -/
instance neZero_codePoint : NeZero 0x110000 :=
  ⟨by decide⟩

/-- Equal code points are the same. -/
instance lawfulBEq_codePoint : LawfulBEq CodePoint :=
  inferInstanceAs (LawfulBEq (Fin 0x110000))

/-- The strings of JSON values. -/
abbrev CodePoints := List CodePoint

/-- Equal strings are the same. -/
instance lawfulBEq_codePoints : LawfulBEq CodePoints :=
  inferInstanceAs (LawfulBEq (List CodePoint))

/-- The code points of a text. -/
def codePoints (s : String) : CodePoints :=
  s.toList.map fun c => Fin.ofNat 0x110000 c.toNat

/-- The code points tell the texts apart. -/
@[simp] theorem codePoints_inj
    {s t : String} :
    codePoints s = codePoints t ↔ s = t := by
  have hlt : ∀ c : Char, c.toNat < 0x110000 := by
    intro c
    rcases c.valid with hlow | ⟨-, hhigh⟩
    · exact lt_trans hlow (by decide)
    · exact hhigh
  have hchars : Function.Injective fun c : Char => Fin.ofNat 0x110000 c.toNat := by
    intro c d hcd
    have hval := congrArg Fin.val hcd
    simp only [Fin.val_ofNat, Nat.mod_eq_of_lt (hlt c), Nat.mod_eq_of_lt (hlt d)] at hval
    exact Char.toNat_inj.mp hval
  constructor
  · intro h
    exact String.toList_inj.mp (List.map_injective_iff.mpr hchars h)
  · rintro rfl
    rfl

theorem codePoints_append
    (s t : String) :
    codePoints (s ++ t) = codePoints s ++ codePoints t := by
  rw [codePoints, String.toList_append, List.map_append]
  rfl

/-- The bytes of an ASCII text. -/
def asciiBytes (s : String) : Bytes :=
  s.toList.map fun c => UInt8.ofNat c.toNat

/-- The shortest text of a finite number. -/
structure FloatText where
  bytes : Bytes
  ascii : ∀ b ∈ bytes, b < 0x7f

/-- Numbers, with the three that JSON does not have. -/
inductive JsonNumber where
  | int (i : Int)
  | finite (text : FloatText)
  | nan
  | infinity
  | negInfinity

/-- JSON values. -/
inductive Json where
  | null
  | bool (b : Bool)
  | number (n : JsonNumber)
  | string (s : CodePoints)
  | array (items : List Json)
  | object (fields : List (CodePoints × Json))

namespace Json

/-- The value of a key. -/
def lookup
    (key : CodePoints)
    (fields : List (CodePoints × Json)) : Option Json :=
  (fields.find? fun f => f.1 = key).map Prod.snd

theorem mem_of_lookup
    {key : CodePoints}
    {fields : List (CodePoints × Json)}
    {v : Json}
    (h : lookup key fields = some v) :
    (key, v) ∈ fields := by
  obtain ⟨f, hfound, rfl⟩ := Option.map_eq_some_iff.mp h
  have hkey := List.find?_some hfound
  obtain rfl : f.1 = key := of_decide_eq_true hkey
  exact List.mem_of_find?_eq_some hfound

/-- The fields without the given keys. -/
def without
    (keys : List CodePoints)
    (fields : List (CodePoints × Json)) : List (CodePoints × Json) :=
  fields.filter fun f => f.1 ∉ keys

mutual

/-- The value with the fields of every object sorted by their keys. -/
def sortKeys : Json → Json
  | .array items => .array (sortItems items)
  | .object fields => .object (sortByKey Prod.fst (sortFields fields))
  | v => v

/-- Values, each with sorted keys. -/
def sortItems : List Json → List Json
  | [] => []
  | v :: vs => v.sortKeys :: sortItems vs

/-- Fields, each with a value with sorted keys. -/
def sortFields : List (CodePoints × Json) → List (CodePoints × Json)
  | [] => []
  | (k, v) :: fs => (k, v.sortKeys) :: sortFields fs

end

mutual

/-- A number that JSON does not have occurs in the value. -/
def nonFinite : Json → Bool
  | .number .nan => true
  | .number .infinity => true
  | .number .negInfinity => true
  | .array items => nonFiniteItems items
  | .object fields => nonFiniteFields fields
  | _ => false

/-- It occurs in one of the values. -/
def nonFiniteItems : List Json → Bool
  | [] => false
  | v :: vs => v.nonFinite || nonFiniteItems vs

/-- It occurs in one of the fields. -/
def nonFiniteFields : List (CodePoints × Json) → Bool
  | [] => false
  | (_, v) :: fs => v.nonFinite || nonFiniteFields fs

end

mutual

/-- The strings and keys of a value. -/
def texts : Json → List CodePoints
  | .string s => [s]
  | .array items => itemTexts items
  | .object fields => fieldTexts fields
  | _ => []

/-- The strings and keys of values. -/
def itemTexts : List Json → List CodePoints
  | [] => []
  | v :: vs => v.texts ++ itemTexts vs

/-- The strings and keys of fields. -/
def fieldTexts : List (CodePoints × Json) → List CodePoints
  | [] => []
  | (k, v) :: fs => k :: (v.texts ++ fieldTexts fs)

end

/-! ## Serialisation -/

/-- Where lines end and how a key is set off from its value. -/
structure Layout where
  newline : Nat → Bytes
  colon : Bytes

/-- Without blanks. -/
def compact : Layout where
  newline _ := []
  colon := asciiBytes ":"

/-- Two spaces for each level. -/
def indented : Layout where
  newline level := asciiBytes "\n" ++ List.replicate (2 * level) 0x20
  colon := asciiBytes ": "

/-- Decimal digits. -/
def decimal (n : Nat) : Bytes :=
  (Nat.toDigits 10 n).map fun c => UInt8.ofNat c.toNat

/-- The text of a number. -/
def numberBytes : JsonNumber → Bytes
  | .int (.ofNat n) => decimal n
  | .int (.negSucc n) => asciiBytes "-" ++ decimal (n + 1)
  | .finite text => text.bytes
  | .nan => asciiBytes "NaN"
  | .infinity => asciiBytes "Infinity"
  | .negInfinity => asciiBytes "-Infinity"

section Render

variable (layout : Layout) (quote : CodePoints → Bytes)

mutual

/-- The text of a value. -/
def render (level : Nat) : Json → Bytes
  | .null => asciiBytes "null"
  | .bool true => asciiBytes "true"
  | .bool false => asciiBytes "false"
  | .number n => numberBytes n
  | .string s => quote s
  | .array [] => asciiBytes "[]"
  | .array (v :: vs) =>
      asciiBytes "[" ++ layout.newline (level + 1) ++ render (level + 1) v ++
        renderItems (level + 1) vs ++ layout.newline level ++ asciiBytes "]"
  | .object [] => asciiBytes "\x7b\x7d"
  | .object ((k, v) :: fs) =>
      asciiBytes "\x7b" ++ layout.newline (level + 1) ++ quote k ++ layout.colon ++
        render (level + 1) v ++ renderFields (level + 1) fs ++ layout.newline level ++
        asciiBytes "\x7d"

/-- The texts of the values after the first. -/
def renderItems (level : Nat) : List Json → Bytes
  | [] => []
  | v :: vs =>
      asciiBytes "," ++ layout.newline level ++ render level v ++ renderItems level vs

/-- The texts of the fields after the first. -/
def renderFields (level : Nat) : List (CodePoints × Json) → Bytes
  | [] => []
  | (k, v) :: fs =>
      asciiBytes "," ++ layout.newline level ++ quote k ++ layout.colon ++ render level v ++
        renderFields level fs

end

end Render

/-! ## What a serialisation consists of -/

/-- Plain bytes: ASCII without the last character. -/
def PlainBytes (bytes : Bytes) : Prop :=
  ∀ b ∈ bytes, b < 0x7f

theorem plainBytes_append
    {xs ys : Bytes}
    (hx : PlainBytes xs)
    (hy : PlainBytes ys) :
    PlainBytes (xs ++ ys) :=
  List.forall_mem_append.mpr ⟨hx, hy⟩

instance (bytes : Bytes) : Decidable (PlainBytes bytes) :=
  inferInstanceAs (Decidable (∀ b ∈ bytes, b < 0x7f))

theorem plainBytes_of_all
    {bytes : Bytes}
    (h : bytes.all (fun b => b < 0x7f) = true) :
    PlainBytes bytes := by
  intro b hb
  exact of_decide_eq_true (List.all_eq_true.mp h b hb)

theorem plainBytes_decimal
    (n : Nat) :
    PlainBytes (decimal n) := by
  intro b hb
  obtain ⟨c, hc, rfl⟩ := List.mem_map.mp hb
  have hdigit := Nat.isDigit_of_mem_toDigits (by decide) (by decide) hc
  have hle : c.toNat ≤ 0x39 := (Char.isDigit_iff_toNat.mp hdigit).2
  rw [UInt8.lt_iff_toNat_lt, UInt8.toNat_ofNat_of_lt' (lt_of_le_of_lt hle (by decide))]
  exact lt_of_le_of_lt hle (by decide)

section Parts

variable {layout : Layout} {quote quote' : CodePoints → Bytes}

mutual

/-- Two ways to quote that agree on the strings of a value write the same. -/
theorem render_congr (level : Nat) :
    ∀ v : Json, (∀ s ∈ v.texts, quote s = quote' s) →
      render layout quote level v = render layout quote' level v
  | .null, _ => rfl
  | .bool true, _ => rfl
  | .bool false, _ => rfl
  | .number _, _ => rfl
  | .string s, h => h s (List.mem_singleton_self s)
  | .array [], _ => rfl
  | .array (v :: vs), h => by
      rw [texts, itemTexts, List.forall_mem_append] at h
      rw [render, render, render_congr (level + 1) v h.1, renderItems_congr (level + 1) vs h.2]
  | .object [], _ => rfl
  | .object ((k, v) :: fs), h => by
      rw [texts, fieldTexts, List.forall_mem_cons, List.forall_mem_append] at h
      rw [render, render, h.1, render_congr (level + 1) v h.2.1,
        renderFields_congr (level + 1) fs h.2.2]

theorem renderItems_congr (level : Nat) :
    ∀ vs : List Json, (∀ s ∈ itemTexts vs, quote s = quote' s) →
      renderItems layout quote level vs = renderItems layout quote' level vs
  | [], _ => rfl
  | v :: vs, h => by
      rw [itemTexts, List.forall_mem_append] at h
      rw [renderItems, renderItems, render_congr level v h.1, renderItems_congr level vs h.2]

theorem renderFields_congr (level : Nat) :
    ∀ fs : List (CodePoints × Json), (∀ s ∈ fieldTexts fs, quote s = quote' s) →
      renderFields layout quote level fs = renderFields layout quote' level fs
  | [], _ => rfl
  | (k, v) :: fs, h => by
      rw [fieldTexts, List.forall_mem_cons, List.forall_mem_append] at h
      rw [renderFields, renderFields, h.1, render_congr level v h.2.1,
        renderFields_congr level fs h.2.2]

end

mutual

/-- Every quoted string stands in the serialisation. -/
theorem mem_render_of_text {s : CodePoints} {b : UInt8} (hb : b ∈ quote s) (level : Nat) :
    ∀ v : Json, s ∈ v.texts → b ∈ render layout quote level v
  | .string t, hs => by
      rw [texts, List.mem_singleton] at hs
      rw [render, ← hs]
      exact hb
  | .array [], hs => by cases hs
  | .array (v :: vs), hs => by
      rw [texts, itemTexts, List.mem_append] at hs
      simp only [render, List.mem_append]
      rcases hs with hs | hs
      · exact Or.inl (Or.inl (Or.inl (Or.inr (mem_render_of_text hb (level + 1) v hs))))
      · exact Or.inl (Or.inl (Or.inr (mem_renderItems_of_text hb (level + 1) vs hs)))
  | .object [], hs => by cases hs
  | .object ((k, v) :: fs), hs => by
      rw [texts, fieldTexts, List.mem_cons, List.mem_append] at hs
      simp only [render, List.mem_append]
      rcases hs with rfl | hs | hs
      · exact Or.inl (Or.inl (Or.inl (Or.inl (Or.inl (Or.inr hb)))))
      · exact Or.inl (Or.inl (Or.inl (Or.inr (mem_render_of_text hb (level + 1) v hs))))
      · exact Or.inl (Or.inl (Or.inr (mem_renderFields_of_text hb (level + 1) fs hs)))
  | .null, hs => by cases hs
  | .bool _, hs => by cases hs
  | .number _, hs => by cases hs

theorem mem_renderItems_of_text {s : CodePoints} {b : UInt8} (hb : b ∈ quote s) (level : Nat) :
    ∀ vs : List Json, s ∈ itemTexts vs → b ∈ renderItems layout quote level vs
  | [], hs => by cases hs
  | v :: vs, hs => by
      rw [itemTexts, List.mem_append] at hs
      simp only [renderItems, List.mem_append]
      rcases hs with hs | hs
      · exact Or.inl (Or.inr (mem_render_of_text hb level v hs))
      · exact Or.inr (mem_renderItems_of_text hb level vs hs)

theorem mem_renderFields_of_text {s : CodePoints} {b : UInt8} (hb : b ∈ quote s) (level : Nat) :
    ∀ fs : List (CodePoints × Json), s ∈ fieldTexts fs → b ∈ renderFields layout quote level fs
  | [], hs => by cases hs
  | (k, v) :: fs, hs => by
      rw [fieldTexts, List.mem_cons, List.mem_append] at hs
      simp only [renderFields, List.mem_append]
      rcases hs with rfl | hs | hs
      · exact Or.inl (Or.inl (Or.inl (Or.inr hb)))
      · exact Or.inl (Or.inr (mem_render_of_text hb level v hs))
      · exact Or.inr (mem_renderFields_of_text hb level fs hs)

end

/-- A layout that writes plain bytes. -/
structure Layout.Plain (layout : Layout) : Prop where
  newline : ∀ level, PlainBytes (layout.newline level)
  colon : PlainBytes layout.colon

theorem plainBytes_numberBytes
    (n : JsonNumber) :
    PlainBytes (numberBytes n) := by
  cases n with
  | int i =>
      cases i with
      | ofNat n => exact plainBytes_decimal n
      | negSucc n => exact plainBytes_append (plainBytes_of_all rfl) (plainBytes_decimal (n + 1))
  | finite text => exact text.ascii
  | nan => exact plainBytes_of_all rfl
  | infinity => exact plainBytes_of_all rfl
  | negInfinity => exact plainBytes_of_all rfl

mutual

/-- If quoting writes plain bytes, so does serialising. -/
theorem plainBytes_render
    (hlayout : layout.Plain)
    (hquote : ∀ s, PlainBytes (quote s))
    (level : Nat) :
    ∀ v : Json, PlainBytes (render layout quote level v)
  | .null => plainBytes_of_all rfl
  | .bool true => plainBytes_of_all rfl
  | .bool false => plainBytes_of_all rfl
  | .number n => plainBytes_numberBytes n
  | .string s => hquote s
  | .array [] => plainBytes_of_all rfl
  | .array (v :: vs) => by
      refine plainBytes_append (plainBytes_append (plainBytes_append (plainBytes_append
        (plainBytes_append ?_ (hlayout.newline _)) ?_) ?_) (hlayout.newline _)) ?_
      · exact plainBytes_of_all rfl
      · exact plainBytes_render hlayout hquote (level + 1) v
      · exact plainBytes_renderItems hlayout hquote (level + 1) vs
      · exact plainBytes_of_all rfl
  | .object [] => plainBytes_of_all rfl
  | .object ((k, v) :: fs) => by
      refine plainBytes_append (plainBytes_append (plainBytes_append (plainBytes_append
        (plainBytes_append (plainBytes_append (plainBytes_append ?_ (hlayout.newline _))
          (hquote k)) hlayout.colon) ?_) ?_) (hlayout.newline _)) ?_
      · exact plainBytes_of_all rfl
      · exact plainBytes_render hlayout hquote (level + 1) v
      · exact plainBytes_renderFields hlayout hquote (level + 1) fs
      · exact plainBytes_of_all rfl

theorem plainBytes_renderItems
    (hlayout : layout.Plain)
    (hquote : ∀ s, PlainBytes (quote s))
    (level : Nat) :
    ∀ vs : List Json, PlainBytes (renderItems layout quote level vs)
  | [] => plainBytes_of_all rfl
  | v :: vs => by
      refine plainBytes_append (plainBytes_append (plainBytes_append ?_ (hlayout.newline _)) ?_) ?_
      · exact plainBytes_of_all rfl
      · exact plainBytes_render hlayout hquote level v
      · exact plainBytes_renderItems hlayout hquote level vs

theorem plainBytes_renderFields
    (hlayout : layout.Plain)
    (hquote : ∀ s, PlainBytes (quote s))
    (level : Nat) :
    ∀ fs : List (CodePoints × Json), PlainBytes (renderFields layout quote level fs)
  | [] => plainBytes_of_all rfl
  | (k, v) :: fs => by
      refine plainBytes_append (plainBytes_append (plainBytes_append (plainBytes_append
        (plainBytes_append ?_ (hlayout.newline _)) (hquote k)) hlayout.colon) ?_) ?_
      · exact plainBytes_of_all rfl
      · exact plainBytes_render hlayout hquote level v
      · exact plainBytes_renderFields hlayout hquote level fs

end

end Parts

/-! ## Two ways to quote -/

/-- A hexadecimal digit. -/
def hexDigit (n : Nat) : UInt8 :=
  if n < 10 then UInt8.ofNat (0x30 + n) else UInt8.ofNat (0x57 + n)

/-- The escape with four hexadecimal digits. -/
def unicodeEscape (n : Nat) : Bytes :=
  asciiBytes "\\u" ++ [hexDigit (n / 4096 % 16), hexDigit (n / 256 % 16), hexDigit (n / 16 % 16),
    hexDigit (n % 16)]

/-- The characters with an escape of their own. -/
def shortEscape (n : Nat) : Option UInt8 :=
  if n = 0x22 then some 0x22
  else if n = 0x5c then some 0x5c
  else if n = 0x08 then some 0x62
  else if n = 0x0c then some 0x66
  else if n = 0x0a then some 0x6e
  else if n = 0x0d then some 0x72
  else if n = 0x09 then some 0x74
  else none

/-- Everything but printable ASCII is escaped, what has more than 16 bits as two surrogates. -/
def escapeAscii (c : CodePoint) : Bytes :=
  match shortEscape c.val with
  | some e => [0x5c, e]
  | none =>
      if 0x20 ≤ c.val ∧ c.val < 0x7f then [UInt8.ofNat c.val]
      else if c.val < 0x10000 then unicodeEscape c.val
      else
        unicodeEscape (0xd800 + (c.val - 0x10000) / 1024) ++
          unicodeEscape (0xdc00 + (c.val - 0x10000) % 1024)

/-- Only control characters are escaped; the rest is UTF-8. -/
def escapeControl (c : CodePoint) : Bytes :=
  match shortEscape c.val with
  | some e => [0x5c, e]
  | none =>
      if c.val < 0x20 then unicodeEscape c.val
      else String.utf8EncodeChar (Char.ofNat c.val)

/-- A string between quotation marks. -/
def quoted
    (escape : CodePoint → Bytes)
    (s : CodePoints) : Bytes :=
  asciiBytes "\"" ++ s.flatMap escape ++ asciiBytes "\""

theorem hexDigit_lt
    {n : Nat}
    (h : n < 16) :
    hexDigit n < 0x7f := by
  rw [hexDigit]
  split
  · rw [UInt8.lt_iff_toNat_lt, UInt8.toNat_ofNat_of_lt' (lt_of_lt_of_le
      (Nat.add_lt_add_left h 0x30) (by decide))]
    exact lt_of_lt_of_le (Nat.add_lt_add_left h 0x30) (by decide)
  · rw [UInt8.lt_iff_toNat_lt, UInt8.toNat_ofNat_of_lt' (lt_of_lt_of_le
      (Nat.add_lt_add_left h 0x57) (by decide))]
    exact lt_of_lt_of_le (Nat.add_lt_add_left h 0x57) (by decide)

theorem plainBytes_unicodeEscape
    (n : Nat) :
    PlainBytes (unicodeEscape n) := by
  refine plainBytes_append (plainBytes_of_all rfl) ?_
  have hdigit : ∀ m, hexDigit (m % 16) < 0x7f := fun m => hexDigit_lt (Nat.mod_lt m (by decide))
  intro b hb
  simp only [List.mem_cons, List.not_mem_nil, or_false] at hb
  rcases hb with rfl | rfl | rfl | rfl
  · exact hdigit _
  · exact hdigit _
  · exact hdigit _
  · exact hdigit _

theorem shortEscape_lt
    {n : Nat}
    {e : UInt8}
    (h : shortEscape n = some e) :
    e < 0x7f ∧ n < 0x7f := by
  unfold shortEscape at h
  grind

/-- Escaping everything but printable ASCII writes plain bytes. -/
theorem plainBytes_escapeAscii
    (c : CodePoint) :
    PlainBytes (escapeAscii c) := by
  rw [escapeAscii]
  split
  case h_1 e he =>
      intro b hb
      simp only [List.mem_cons, List.not_mem_nil, or_false] at hb
      rcases hb with rfl | rfl
      · decide
      · exact (shortEscape_lt he).1
  case h_2 =>
      split
      case isTrue hprintable =>
          intro b hb
          rw [List.mem_singleton.mp hb, UInt8.lt_iff_toNat_lt,
            UInt8.toNat_ofNat_of_lt' (lt_trans hprintable.2 (by decide))]
          exact hprintable.2
      case isFalse =>
          split
          · exact plainBytes_unicodeEscape _
          · exact plainBytes_append (plainBytes_unicodeEscape _) (plainBytes_unicodeEscape _)

theorem plainBytes_quoted
    {escape : CodePoint → Bytes}
    (h : ∀ c, PlainBytes (escape c))
    (s : CodePoints) :
    PlainBytes (quoted escape s) := by
  refine plainBytes_append (plainBytes_append (plainBytes_of_all rfl) ?_) (plainBytes_of_all rfl)
  intro b hb
  obtain ⟨c, -, hb⟩ := List.mem_flatMap.mp hb
  exact h c b hb

theorem toNat_ofNat_of_isValidChar
    {n : Nat}
    (h : n.isValidChar) :
    (Char.ofNat n).toNat = n := by
  rw [Char.ofNat, dif_pos h]
  rfl

/-- On plain characters the two ways to escape agree. -/
theorem escapeControl_eq_escapeAscii
    {c : CodePoint}
    (h : c.val < 0x7f) :
    escapeControl c = escapeAscii c := by
  rw [escapeControl, escapeAscii]
  split
  · rfl
  · by_cases hlow : c.val < 0x20
    · rw [if_pos hlow, if_neg (by omega), if_pos (by omega)]
    · rw [if_neg hlow, if_pos ⟨by omega, h⟩]
      have hnat : (Char.ofNat c.val).toNat = c.val := toNat_ofNat_of_isValidChar (Or.inl (by omega))
      rw [utf8EncodeChar_of_isAscii (by rw [IsAscii, hnat]; omega), hnat]

/-- Other characters are written with a byte that is not plain. -/
theorem exists_mem_escapeControl
    {c : CodePoint}
    (hscalar : c.val.isValidChar)
    (h : 0x7f ≤ c.val) :
    ∃ b ∈ escapeControl c, ¬ b < 0x7f := by
  have hnat : (Char.ofNat c.val).toNat = c.val := toNat_ofNat_of_isValidChar hscalar
  have hshort : shortEscape c.val = none := by
    cases hs : shortEscape c.val with
    | none => rfl
    | some e =>
        have := (shortEscape_lt hs).2
        omega
  rw [escapeControl, hshort]
  dsimp only
  rw [if_neg (by omega)]
  by_cases hascii : IsAscii (Char.ofNat c.val)
  · rw [utf8EncodeChar_of_isAscii hascii, hnat]
    rw [IsAscii, hnat] at hascii
    refine ⟨_, List.mem_singleton_self _, ?_⟩
    rw [UInt8.lt_iff_toNat_lt, UInt8.toNat_ofNat_of_lt' (lt_trans hascii (by decide))]
    exact not_lt.mpr h
  · obtain ⟨b, hb⟩ := List.exists_mem_of_ne_nil _ String.utf8EncodeChar_ne_nil
    have := byte_ge_of_not_isAscii hascii hb
    refine ⟨b, hb, ?_⟩
    exact not_lt.mpr (le_trans (by decide) this)

theorem plain_indented : indented.Plain where
  newline level := by
    refine plainBytes_append (plainBytes_of_all rfl) ?_
    intro b hb
    rw [(List.mem_replicate.mp hb).2]
    decide
  colon := plainBytes_of_all rfl

/-- All strings and keys of a value are as stated. -/
def AllTexts
    (P : CodePoints → Prop)
    (v : Json) : Prop :=
  ∀ s ∈ v.texts, P s

/-- ASCII without the last character. -/
def PlainCodes (s : CodePoints) : Prop :=
  ∀ c ∈ s, c.val < 0x7f

/-- Characters, that is, no surrogates. -/
def ScalarCodes (s : CodePoints) : Prop :=
  ∀ c ∈ s, c.val.isValidChar

instance (s : CodePoints) : Decidable (PlainCodes s) :=
  inferInstanceAs (Decidable (∀ c ∈ s, c.val < 0x7f))

theorem PlainCodes.scalar
    {s : CodePoints}
    (h : PlainCodes s) :
    ScalarCodes s :=
  fun c hc => Or.inl (lt_trans (h c hc) (by decide))

section AllTexts

variable {P : CodePoints → Prop}

@[simp] theorem allTexts_null : AllTexts P .null := by
  simp [AllTexts, texts]

@[simp] theorem allTexts_bool
    {b : Bool} :
    AllTexts P (.bool b) := by
  simp [AllTexts, texts]

@[simp] theorem allTexts_number
    {n : JsonNumber} :
    AllTexts P (.number n) := by
  simp [AllTexts, texts]

@[simp] theorem allTexts_string
    {s : CodePoints} :
    AllTexts P (.string s) ↔ P s := by
  simp [AllTexts, texts]

@[simp] theorem allTexts_array
    {items : List Json} :
    AllTexts P (.array items) ↔ ∀ v ∈ items, AllTexts P v := by
  induction items with
  | nil => simp [AllTexts, texts, itemTexts]
  | cons v vs ih =>
      simp only [AllTexts, texts, itemTexts, List.forall_mem_append, List.forall_mem_cons] at ih ⊢
      rw [ih]

@[simp] theorem allTexts_object
    {fields : List (CodePoints × Json)} :
    AllTexts P (.object fields) ↔ ∀ f ∈ fields, P f.1 ∧ AllTexts P f.2 := by
  induction fields with
  | nil => simp [AllTexts, texts, fieldTexts]
  | cons f fs ih =>
      simp only [AllTexts, texts, fieldTexts, List.forall_mem_append, List.forall_mem_cons]
        at ih ⊢
      rw [ih, and_assoc]

/-- Where the keys are as stated, only the values matter. -/
theorem allTexts_object_iff
    {fields : List (CodePoints × Json)}
    (hkeys : ∀ k ∈ fields.map Prod.fst, P k) :
    AllTexts P (.object fields) ↔ ∀ v ∈ fields.map Prod.snd, AllTexts P v := by
  rw [List.forall_mem_map] at hkeys ⊢
  rw [allTexts_object]
  constructor
  · intro h f hf
    exact (h f hf).2
  · intro h f hf
    exact ⟨hkeys f hf, h f hf⟩

mutual

/-- Sorting the keys keeps the strings. -/
theorem allTexts_sortKeys :
    ∀ v : Json, AllTexts P v.sortKeys ↔ AllTexts P v
  | .null | .bool _ | .number _ | .string _ => Iff.rfl
  | .array items => by
      rw [sortKeys, allTexts_array, allTexts_array]
      exact forall_sortItems items
  | .object fields => by
      rw [sortKeys, allTexts_object, allTexts_object]
      simp only [mem_sortByKey]
      exact forall_sortFields fields

theorem forall_sortItems :
    ∀ items : List Json, (∀ v ∈ sortItems items, AllTexts P v) ↔ ∀ v ∈ items, AllTexts P v
  | [] => Iff.rfl
  | v :: vs => by
      rw [sortItems, List.forall_mem_cons, List.forall_mem_cons, allTexts_sortKeys v,
        forall_sortItems vs]

theorem forall_sortFields :
    ∀ fields : List (CodePoints × Json),
      (∀ f ∈ sortFields fields, P f.1 ∧ AllTexts P f.2) ↔ ∀ f ∈ fields, P f.1 ∧ AllTexts P f.2
  | [] => Iff.rfl
  | f :: fs => by
      rw [sortFields, List.forall_mem_cons, List.forall_mem_cons, allTexts_sortKeys f.2,
        forall_sortFields fs]

end

end AllTexts

/-- The two ways to quote write the same exactly when all strings are plain. -/
theorem render_escapeControl_eq_iff
    {layout : Layout}
    {v : Json}
    (hlayout : layout.Plain)
    (hscalar : v.AllTexts ScalarCodes)
    (level : Nat) :
    render layout (quoted escapeControl) level v = render layout (quoted escapeAscii) level v ↔
      v.AllTexts PlainCodes := by
  constructor
  · intro heq s hs c hc
    by_contra hnot
    obtain ⟨b, hb, hplain⟩ := exists_mem_escapeControl (hscalar s hs c hc) (not_lt.mp hnot)
    have hquoted : b ∈ quoted escapeControl s :=
      List.mem_append_left _ (List.mem_append_right _ (List.mem_flatMap.mpr ⟨c, hc, hb⟩))
    have hmem : b ∈ render layout (quoted escapeControl) level v :=
      mem_render_of_text hquoted level v hs
    rw [heq] at hmem
    exact hplain (plainBytes_render hlayout (plainBytes_quoted plainBytes_escapeAscii) level v b
      hmem)
  · intro hplain
    refine render_congr level v ?_
    intro s hs
    rw [quoted, quoted]
    congr 2
    exact List.flatMap_congr fun c hc => escapeControl_eq_escapeAscii (hplain s hs c hc)

/-! ## Values in conditions and as texts -/

/-- A value counts as true in a condition. -/
def truthy : Json → Bool
  | .null => false
  | .bool b => b
  | .number (.int i) => i ≠ 0
  | .number (.finite text) => text.bytes ≠ asciiBytes "0.0" ∧ text.bytes ≠ asciiBytes "-0.0"
  | .number _ => true
  | .string s => s ≠ []
  | .array items => !items.isEmpty
  | .object fields => !fields.isEmpty

/-- The code points of ASCII bytes. -/
def ofAscii (bytes : Bytes) : CodePoints :=
  bytes.map fun b => Fin.ofNat 0x110000 b.toNat

/-- The text of a value, where `display` is the one of arrays and objects. -/
def toText
    (display : Json → CodePoints) : Json → CodePoints
  | .null => codePoints "None"
  | .bool b => codePoints (if b then "True" else "False")
  | .number (.int i) => ofAscii (numberBytes (.int i))
  | .number (.finite text) => ofAscii text.bytes
  | .number .nan => codePoints "nan"
  | .number .infinity => codePoints "inf"
  | .number .negInfinity => codePoints "-inf"
  | .string s => s
  | .array items => display (.array items)
  | .object fields => display (.object fields)

/-- The text of a value that counts as true, and the empty text otherwise. -/
def toTextOrEmpty
    (display : Json → CodePoints)
    (v : Option Json) : CodePoints :=
  match v with
  | some v => if v.truthy then v.toText display else []
  | none => []

end Json

/-! ## Texts -/

/-- White space. -/
def isSpaceCode (c : CodePoint) : Bool :=
  let n := c.val
  (0x09 ≤ n && n ≤ 0x0D) || (0x1C ≤ n && n ≤ 0x20) || n == 0x85 || n == 0xA0 || n == 0x1680 ||
    (0x2000 ≤ n && n ≤ 0x200A) || n == 0x2028 || n == 0x2029 || n == 0x202F || n == 0x205F ||
    n == 0x3000

/-- Without the white space at both ends. -/
def stripCodes (s : CodePoints) : CodePoints :=
  ((s.dropWhile isSpaceCode).reverse.dropWhile isSpaceCode).reverse

/-- All characters are ASCII. -/
def isAsciiText (s : CodePoints) : Bool :=
  s.all fun c => c.val < 0x80

/-- The lower-case hexadecimal digits of bytes. -/
def hexText (bytes : Bytes) : CodePoints :=
  bytes.flatMap fun b =>
    [Fin.ofNat 0x110000 (Json.hexDigit (b.toNat / 16)).toNat,
      Fin.ofNat 0x110000 (Json.hexDigit (b.toNat % 16)).toNat]

/-- The digits of a byte are digits. -/
theorem mem_hexText
    {bytes : Bytes}
    {c : CodePoint}
    (hc : c ∈ hexText bytes) :
    ∃ n < 16, c = Fin.ofNat 0x110000 (Json.hexDigit n).toNat := by
  obtain ⟨b, -, hc⟩ := List.mem_flatMap.mp hc
  have hb := b.toNat_lt
  rcases List.mem_pair.mp hc with rfl | rfl
  · exact ⟨_, by omega, rfl⟩
  · exact ⟨_, by omega, rfl⟩

theorem isAsciiText_hexText
    (bytes : Bytes) :
    isAsciiText (hexText bytes) := by
  rw [isAsciiText, List.all_eq_true]
  intro c hc
  obtain ⟨n, hn, rfl⟩ := mem_hexText hc
  have hlt := UInt8.lt_iff_toNat_lt.mp (Json.hexDigit_lt hn)
  rw [Fin.val_ofNat, Nat.mod_eq_of_lt (lt_trans hlt (by decide))]
  exact decide_eq_true (lt_trans hlt (by decide))

theorem hexText_ne_nil
    {bytes : Bytes}
    (h : bytes ≠ []) :
    hexText bytes ≠ [] := by
  obtain ⟨b, rest, rfl⟩ := List.exists_cons_of_ne_nil h
  rw [hexText, List.flatMap_cons]
  exact List.append_ne_nil_of_left_ne_nil (List.cons_ne_nil _ _) _

/-- The digits tell the bytes apart. -/
theorem hexText_injective : Function.Injective hexText := by
  have hdigits : ∀ m < 16, ∀ n < 16, Fin.ofNat 0x110000 (Json.hexDigit m).toNat =
      Fin.ofNat 0x110000 (Json.hexDigit n).toNat → m = n := by decide
  intro bytes
  induction bytes with
  | nil =>
      rintro (_ | ⟨b, rest⟩) h
      · rfl
      · exact absurd h.symm (hexText_ne_nil (List.cons_ne_nil b rest))
  | cons a bytes ih =>
      rintro (_ | ⟨b, rest⟩) h
      · exact absurd h (hexText_ne_nil (List.cons_ne_nil a bytes))
      · rw [hexText, hexText, List.flatMap_cons, List.flatMap_cons, List.cons_append,
          List.cons_append, List.cons_append, List.cons_append, List.cons.injEq,
          List.cons.injEq] at h
        obtain ⟨hhigh, hlow, hrest⟩ := h
        have ha := a.toNat_lt
        have hb := b.toNat_lt
        have hdiv := hdigits _ (by omega) _ (by omega) hhigh
        have hmod := hdigits _ (Nat.mod_lt _ (by decide)) _ (Nat.mod_lt _ (by decide)) hlow
        have hbyte : a = b := UInt8.toNat_inj.mp (by omega)
        rw [hbyte, ih hrest]

/-- A text without white space keeps everything. -/
theorem stripCodes_eq_self
    {s : CodePoints}
    (h : ∀ c ∈ s, isSpaceCode c = false) :
    stripCodes s = s := by
  have hdrop : ∀ t : CodePoints, (∀ c ∈ t, isSpaceCode c = false) →
      t.dropWhile isSpaceCode = t := by
    intro t ht
    cases t with
    | nil => rfl
    | cons c rest =>
        rw [List.dropWhile_cons_of_neg]
        rw [ht c List.mem_cons_self]
        decide
  rw [stripCodes, hdrop s h, hdrop s.reverse (fun c hc => h c (List.mem_reverse.mp hc)),
    List.reverse_reverse]

/-- Stripping twice is stripping once. -/
theorem stripCodes_stripCodes
    (s : CodePoints) :
    stripCodes (stripCodes s) = stripCodes s := by
  have hdrop : ∀ t : CodePoints, (t.dropWhile isSpaceCode).dropWhile isSpaceCode =
      t.dropWhile isSpaceCode := fun t => List.dropWhile_idempotent isSpaceCode t
  have hstart : stripCodes s <+: s.dropWhile isSpaceCode := by
    rw [stripCodes, ← List.reverse_suffix, List.reverse_reverse]
    exact List.dropWhile_suffix _
  -- the first character of the stripped text is the first that is not white space
  have hfirst : (stripCodes s).dropWhile isSpaceCode = stripCodes s := by
    cases hstripped : stripCodes s with
    | nil => rfl
    | cons c rest =>
        rw [hstripped] at hstart
        obtain ⟨tail, htail⟩ := hstart
        have := hdrop s
        rw [← htail, List.cons_append] at this
        rw [List.dropWhile_cons] at this ⊢
        split at this
        · have hlength := congrArg List.length this
          have hle := (List.dropWhile_suffix isSpaceCode (l := rest ++ tail)).length_le
          rw [List.length_cons] at hlength
          omega
        · next hnot => rw [if_neg hnot]
  rw [stripCodes, hfirst]
  rw [stripCodes, List.reverse_reverse, hdrop]

theorem stripCodes_hexText
    (bytes : Bytes) :
    stripCodes (hexText bytes) = hexText bytes := by
  refine stripCodes_eq_self ?_
  intro c hc
  obtain ⟨n, hn, rfl⟩ := mem_hexText hc
  have hdigits : ∀ m < 16,
      isSpaceCode (Fin.ofNat 0x110000 (Json.hexDigit m).toNat) = false := by decide
  exact hdigits n hn

end Kernel
end TensorGrep
