import TensorGrep.Kernel.CharBoundary
import TensorGrep.Index.ReaderSafety

/-!
# The JSON form of an index

Older versions kept the index as JSON, with the trigrams of the posting map
written as six hexadecimal digits.  `fromSerializable` slices such a key at fixed
byte offsets, which panics inside a character, and reads each pair of bytes with
the standard library's radix parser, which takes a sign.

The keys come out of a hash map, so a loaded index stands for all orders of its
keys.
-/

namespace TensorGrep
namespace Index

open Kernel
open Kernel.Outcome (ofSlice)

/-! ## Reading keys -/

/-- Reasons for which the JSON form is refused. -/
inductive LegacyError where
  | invalidTrigramKey (key : Text)
  | invalidHex
  | index (e : IndexError)
deriving DecidableEq

/-- `char::to_digit` for the radix 16. -/
def hexDigitValue (c : Char) : Option Nat :=
  if '0' ≤ c ∧ c ≤ '9' then some (c.toNat - '0'.toNat)
  else if 'a' ≤ c ∧ c ≤ 'f' then some (c.toNat - 'a'.toNat + 10)
  else if 'A' ≤ c ∧ c ≤ 'F' then some (c.toNat - 'A'.toNat + 10)
  else none

/-- The digits after a sign, checked for overflow at each step. -/
def radixDigits (acc : Nat) : Text → Option Nat
  | [] => some acc
  | c :: rest =>
      (hexDigitValue c).bind fun digit =>
        if acc * 16 + digit < 256 then radixDigits (acc * 16 + digit) rest else none

/-- `u8::from_str_radix` for the radix 16: a plus sign is taken before digits. -/
def u8FromStrRadix16 : Text → Option UInt8
  | [] => none
  | ['+'] => none
  | '+' :: rest => (radixDigits 0 rest).map UInt8.ofNat
  | t => (radixDigits 0 t).map UInt8.ofNat

/-- The closure of `hex_to_trigram`. -/
def hexByte
    (hex : Text)
    (i : Nat) : Outcome LegacyError UInt8 :=
  (ofSlice (sliceStr hex i (i + 2))).bind fun pair =>
    match u8FromStrRadix16 pair with
    | some b => .ok b
    | none => .error .invalidHex

/-- `hex_to_trigram` -/
def hexToTrigram (hex : Text) : Outcome LegacyError Trigram :=
  (hexByte hex 0).bind fun a =>
    (hexByte hex 2).bind fun b =>
      (hexByte hex 4).bind fun c => .ok (a, b, c)

/-! ## Loading -/

/-- `SerializableIndex`, with its keys in the order in which the map gives them. -/
structure SerializableIndex where
  files : List FileEntry
  postings : MultiMap Text PostingEntry
  noIgnore : Bool

/-- The entry of a posting list in the JSON form. -/
abbrev KeyedPostings := Sigma fun _ : Text => List PostingEntry

/-- The loop over the keys. -/
def insertKeys : Postings → List KeyedPostings → Outcome LegacyError Postings
  | postings, [] => .ok postings
  | postings, ⟨key, value⟩ :: rest =>
      if (utf8 key).length ≠ 6 then .error (.invalidTrigramKey key)
      else (hexToTrigram key).bind fun trigram => insertKeys (postings.insert trigram value) rest

/-- An error of the index in the JSON form. -/
def ofIndexResult
    {α : Type}
    (x : Except IndexError α) : Outcome LegacyError α :=
  Outcome.ofExcept (x.mapError LegacyError.index)

/-- `from_serializable` -/
def fromSerializable (s : SerializableIndex) : Outcome LegacyError TrigramIndex :=
  (insertKeys ∅ s.postings.entries).bind fun postings =>
    (ofIndexResult (s.files.forM fun e => validateEntryRelPath e.path)).bind fun _ =>
      let postings := normalizePostings postings
      (ofIndexResult (rebuildFileTrigrams s.files.length postings)).bind fun fileTrigrams =>
        .ok {
          root := []
          canonicalRoot := []
          treeFingerprint := 0
          files := s.files
          fileTrigrams := fileTrigrams
          postings := postings
          noIgnore := s.noIgnore }

/-- The same JSON object, read in any order of its keys. -/
structure SameJson (s s' : SerializableIndex) : Prop where
  files : s'.files = s.files
  postings : s'.postings.entries.Perm s.postings.entries
  noIgnore : s'.noIgnore = s.noIgnore

/-! ## Panics -/

/-- A character of a key lies across an offset at which the key is cut: across the second byte, or
across the fourth when the first two bytes are read. -/
def SplitsCharacter (key : Text) : Prop :=
  (utf8 key).length = 6 ∧
    (isCharBoundary (utf8 key) 2 = false ∨
      ((sliceStr key 0 2).bind u8FromStrRadix16).isSome = true ∧
        isCharBoundary (utf8 key) 4 = false)

theorem ofIndexResult_ne_panicked
    {α : Type}
    (x : Except IndexError α) :
    ofIndexResult x ≠ .panicked := by
  cases x <;> simp [ofIndexResult, Outcome.ofExcept, Except.mapError]

theorem ofIndexResult_eq_ok_iff
    {α : Type}
    {x : Except IndexError α}
    {a : α} :
    ofIndexResult x = .ok a ↔ x = .ok a := by
  cases x <;> simp [ofIndexResult, Outcome.ofExcept, Except.mapError]

theorem hexByte_eq_panicked_iff
    {hex : Text}
    {i : Nat} :
    hexByte hex i = .panicked ↔
      ¬ (isCharBoundary (utf8 hex) i = true ∧ isCharBoundary (utf8 hex) (i + 2) = true) := by
  rw [← sliceStr_ne_none_iff (Nat.le_add_right i 2), not_not, hexByte]
  cases sliceStr hex i (i + 2) with
  | none => simp
  | some pair =>
      cases h : u8FromStrRadix16 pair <;> simp [h]

theorem hexByte_eq_ok_iff
    {hex : Text}
    {i : Nat}
    {b : UInt8} :
    hexByte hex i = .ok b ↔ (sliceStr hex i (i + 2)).bind u8FromStrRadix16 = some b := by
  rw [hexByte]
  cases sliceStr hex i (i + 2) with
  | none => simp
  | some pair =>
      cases h : u8FromStrRadix16 pair <;> simp [h]

theorem isCharBoundary_zero
    (b : Bytes) :
    isCharBoundary b 0 = true := by
  simp [isCharBoundary]

theorem isCharBoundary_length
    (b : Bytes) :
    isCharBoundary b b.length = true := by
  simp [isCharBoundary]

/-- Continuing panics if the first part does, or the rest after it. -/
theorem bind_eq_panicked_iff
    {α β : Type}
    {x : Outcome LegacyError α}
    {f : α → Outcome LegacyError β} :
    x.bind f = .panicked ↔ x = .panicked ∨ ∃ a, x = .ok a ∧ f a = .panicked := by
  cases x with
  | ok a => simp
  | error e => simp
  | panicked => simp

/-- Reading a key of six bytes panics if and only if it splits a character. -/
theorem hexToTrigram_eq_panicked_iff
    {key : Text}
    (hlength : (utf8 key).length = 6) :
    hexToTrigram key = .panicked ↔ SplitsCharacter key := by
  have hend : isCharBoundary (utf8 key) 6 = true := by
    rw [← hlength]
    exact isCharBoundary_length _
  have hread : (∃ a, hexByte key 0 = .ok a) ↔
      ((sliceStr key 0 2).bind u8FromStrRadix16).isSome = true := by
    simp [hexByte_eq_ok_iff, Option.isSome_iff_exists]
  -- what was read of the first two bytes ended at a boundary
  have hsecond : ∀ a, hexByte key 0 = .ok a → isCharBoundary (utf8 key) 2 = true := by
    intro a ha
    by_contra hsplit
    have hpanic := hexByte_eq_panicked_iff (i := 0).mpr fun h => hsplit h.2
    rw [ha] at hpanic
    cases hpanic
  have hthird : ∀ b, hexByte key 2 = .ok b → isCharBoundary (utf8 key) 4 = true := by
    intro b hb
    by_contra hsplit
    have hpanic := hexByte_eq_panicked_iff (i := 2).mpr fun h => hsplit h.2
    rw [hb] at hpanic
    cases hpanic
  rw [hexToTrigram, bind_eq_panicked_iff, hexByte_eq_panicked_iff, SplitsCharacter,
    isCharBoundary_zero]
  constructor
  · rintro (hfirst | ⟨a, ha, hrest⟩)
    · exact ⟨hlength, Or.inl (by simpa using hfirst)⟩
    · refine ⟨hlength, Or.inr ⟨hread.mp ⟨a, ha⟩, ?_⟩⟩
      rcases bind_eq_panicked_iff.mp hrest with hb | ⟨b, hb, hlast⟩
      · have hsplit := hexByte_eq_panicked_iff.mp hb
        simpa [hsecond a ha] using hsplit
      · rcases bind_eq_panicked_iff.mp hlast with hc | ⟨c, -, hc⟩
        · exact absurd ⟨hthird b hb, hend⟩ (hexByte_eq_panicked_iff.mp hc)
        · cases hc
  · rintro ⟨-, hfirst | ⟨hsome, hsplit⟩⟩
    · exact Or.inl (by simpa using hfirst)
    · obtain ⟨a, ha⟩ := hread.mpr hsome
      refine Or.inr ⟨a, ha, bind_eq_panicked_iff.mpr (Or.inl ?_)⟩
      exact hexByte_eq_panicked_iff.mpr (by simp [hsplit])

/-- The loop panics only at a key that splits a character. -/
theorem exists_splits_of_insertKeys
    {entries : List KeyedPostings}
    {postings : Postings}
    (h : insertKeys postings entries = .panicked) :
    ∃ e ∈ entries, SplitsCharacter e.1 := by
  induction entries generalizing postings with
  | nil => cases h
  | cons e entries ih =>
      rw [insertKeys] at h
      split_ifs at h with hlength
      rcases bind_eq_panicked_iff.mp h with hkey | ⟨trigram, -, hrest⟩
      · exact ⟨e, List.mem_cons_self,
          (hexToTrigram_eq_panicked_iff (not_not.mp hlength)).mp hkey⟩
      · obtain ⟨e', he', hsplits⟩ := ih hrest
        exact ⟨e', List.mem_cons_of_mem _ he', hsplits⟩

/-- A key that splits a character panics if the loop begins with it. -/
theorem insertKeys_cons_of_splits
    {postings : Postings}
    {e : KeyedPostings}
    {entries : List KeyedPostings}
    (h : SplitsCharacter e.1) :
    insertKeys postings (e :: entries) = .panicked := by
  rw [insertKeys, if_neg (not_not.mpr h.1), (hexToTrigram_eq_panicked_iff h.1).mpr h]
  rfl

/-! ## What is loaded -/

/-- What `from_serializable` returns has the invariant of the binary form. -/
theorem wireInv_of_fromSerializable
    {s : SerializableIndex}
    {idx : TrigramIndex}
    (h : fromSerializable s = .ok idx) :
    WireInv idx := by
  obtain ⟨postings, -, h⟩ := Outcome.bind_eq_ok_iff.mp h
  obtain ⟨_, hfiles, h⟩ := Outcome.bind_eq_ok_iff.mp h
  obtain ⟨fileTrigrams, htrigrams, h⟩ := Outcome.bind_eq_ok_iff.mp h
  cases h
  have hconfined := forM_eq_ok_iff.mp (ofIndexResult_eq_ok_iff.mp hfiles)
  obtain ⟨hrange, hlengths, hmirror⟩ :=
    rebuildFileTrigrams_eq_ok (ofIndexResult_eq_ok_iff.mp htrigrams)
  exact {
    confined := fun e he => validateEntryRelPath_eq_ok_iff.mp (hconfined e he)
    sorted := by
      intro t l hl
      rw [normalizePostings, MultiMap.lookup_mapLists] at hl
      obtain ⟨entries, -, rfl⟩ := Option.map_eq_some_iff.mp hl
      exact (pairwise_sortDedup _ entries).imp le_of_lt
    inRange := hrange
    lengths := hlengths
    mirror := hmirror }

theorem fromSerializable_eq_panicked_iff
    {s : SerializableIndex} :
    fromSerializable s = .panicked ↔ insertKeys ∅ s.postings.entries = .panicked := by
  rw [fromSerializable, bind_eq_panicked_iff, or_iff_left_iff_imp]
  rintro ⟨postings, -, h⟩
  exfalso
  rcases bind_eq_panicked_iff.mp h with hfiles | ⟨_, -, h⟩
  · exact ofIndexResult_ne_panicked _ hfiles
  · rcases bind_eq_panicked_iff.mp h with htrigrams | ⟨fileTrigrams, -, h⟩
    · exact ofIndexResult_ne_panicked _ htrigrams
    · cases h

/-- Loading returns, with the invariant of the binary form if it succeeds. -/
def LoadsSafely (s : SerializableIndex) : Prop :=
  match fromSerializable s with
  | .ok idx => WireInv idx
  | .error _ => True
  | .panicked => False

theorem loadsSafely_iff
    {s : SerializableIndex} :
    LoadsSafely s ↔ fromSerializable s ≠ .panicked := by
  rw [LoadsSafely]
  cases h : fromSerializable s with
  | ok idx => simpa using wireInv_of_fromSerializable h
  | error e => simp
  | panicked => simp

/-- Loading is safe in every order of the keys if and only if no key splits a character. -/
theorem load_json_safe_iff
    (s : SerializableIndex) :
    (∀ s', SameJson s s' → LoadsSafely s') ↔
      ∀ e ∈ s.postings.entries, ¬ SplitsCharacter e.1 := by
  constructor
  · intro h e he hsplits
    have hperm := List.perm_cons_erase he
    have hsafe := h
      { files := s.files
        postings := ⟨e :: s.postings.entries.erase e, s.postings.nodupKeys.perm (hperm.map _)⟩
        noIgnore := s.noIgnore } ⟨rfl, hperm.symm, rfl⟩
    rw [loadsSafely_iff, ne_eq, fromSerializable_eq_panicked_iff] at hsafe
    exact hsafe (insertKeys_cons_of_splits hsplits)
  · intro h s' hsame
    rw [loadsSafely_iff, ne_eq, fromSerializable_eq_panicked_iff]
    intro hpanic
    obtain ⟨e, he, hsplits⟩ := exists_splits_of_insertKeys hpanic
    exact h e (hsame.postings.subset he) hsplits

/-- An index with one key, `1é234`. -/
def accentedIndex : SerializableIndex where
  files := []
  postings := ⟨[⟨"1é234".toList, []⟩], List.nodupKeys_singleton _⟩
  noIgnore := false

/-- The key has six bytes, the second and third of which are one character. -/
theorem accented_key_panics :
    ¬ ∀ s', SameJson accentedIndex s' → LoadsSafely s' := by
  intro h
  have hsafe := h accentedIndex ⟨rfl, List.Perm.refl _, rfl⟩
  rw [loadsSafely_iff, ne_eq, fromSerializable_eq_panicked_iff] at hsafe
  exact hsafe (insertKeys_cons_of_splits ⟨by decide, Or.inl (by decide)⟩)

end Index
end TensorGrep
