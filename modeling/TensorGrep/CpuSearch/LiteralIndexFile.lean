import TensorGrep.CpuSearch.Search
import TensorGrep.Kernel.Json

/-!
# The cache file of the literal prefilter

The lines of a file and their trigram index are kept as a JSON object, with a
format version and the signature of the file.  Reading it back treats a file
that cannot be read, JSON that does not parse and most unexpected values as a
miss, and raises on the others.
-/

namespace TensorGrep
namespace CpuSearch

open Kernel

/-! ## Values from JSON -/

/-- `_build_file_signature`: the modification time and the size. -/
structure FileSignature where
  mtimeNs : Int
  size : Nat
deriving DecidableEq

/-- What Python makes of JSON values that the cache does not write. -/
structure Conversions where
  floatIs : FloatText → Int → Bool
  truncate : FloatText → Int
  parseInt : CodePoints → Except String Int
  display : Json → Text

/-- The code points of a line. -/
def pointsOf (t : Text) : CodePoints :=
  t.map fun c => Fin.ofNat 0x110000 c.toNat

/-- The line of code points. -/
def textOf (s : CodePoints) : Text :=
  s.map fun c => Char.ofNat c.val

theorem textOf_pointsOf
    (t : Text) :
    textOf (pointsOf t) = t := by
  have hchar : ∀ c : Char, Char.ofNat (Fin.ofNat 0x110000 c.toNat).val = c := by
    intro c
    have hlt : c.toNat < 0x110000 := by
      rcases c.valid with h | h
      · exact lt_trans h (by decide)
      · exact h.2
    rw [show (Fin.ofNat 0x110000 c.toNat).val = c.toNat from Nat.mod_eq_of_lt hlt,
      Char.ofNat_toNat]
  rw [textOf, pointsOf, List.map_map]
  exact List.map_id'' hchar t

section Values

variable (conv : Conversions)

/-- `value == n` in Python. -/
def equalsInt (n : Int) : Json → Bool
  | .number (.int i) => i = n
  | .number (.finite x) => conv.floatIs x n
  | .bool b => (if b then 1 else 0) = n
  | _ => false

/-- `value == list(signature)`. -/
def equalsSignature
    (signature : FileSignature) : Json → Bool
  | .array [mtimeNs, size] =>
      equalsInt conv signature.mtimeNs mtimeNs && equalsInt conv signature.size size
  | _ => false

/-- `str(value)`. -/
def toStr : Json → Text
  | .string s => textOf s
  | v => conv.display v

/-- `int(value)`. -/
def toInt : Json → Except String Int
  | .number (.int i) => .ok i
  | .number (.finite x) => .ok (conv.truncate x)
  | .number .nan => .error "cannot convert float NaN to integer"
  | .number .infinity => .error "cannot convert float infinity to integer"
  | .number .negInfinity => .error "cannot convert float infinity to integer"
  | .bool b => .ok (if b then 1 else 0)
  | .string s => conv.parseInt s
  | .null => .error ("int() argument must be a string, a bytes-like object or a real number, " ++
      "not 'NoneType'")
  | .array _ => .error ("int() argument must be a string, a bytes-like object or a real number, " ++
      "not 'list'")
  | .object _ => .error ("int() argument must be a string, a bytes-like object or a real number, " ++
      "not 'dict'")

/-- The lists of an index, where there is a list for each trigram. -/
def readIndexEntries :
    List (CodePoints × Json) → Except String (Option (List (Sigma fun _ : Text => List Int)))
  | [] => .ok (some [])
  | (trigram, .array values) :: fields =>
      (values.mapM (toInt conv)).bind fun numbers =>
        (readIndexEntries fields).map fun entries =>
          entries.map (⟨textOf trigram, numbers⟩ :: ·)
  | _ :: _ => .ok none

/-! ## Loading and storing -/

/-- `_CPU_LITERAL_INDEX_CACHE_FORMAT_VERSION`. -/
def formatVersion : Int := 2

/-- The text of the `AttributeError` for a payload without `get`. -/
def withoutGetMessage : Json → String
  | .null => "'NoneType' object has no attribute 'get'"
  | .bool _ => "'bool' object has no attribute 'get'"
  | .number (.int _) => "'int' object has no attribute 'get'"
  | .number _ => "'float' object has no attribute 'get'"
  | .string _ => "'str' object has no attribute 'get'"
  | .array _ => "'list' object has no attribute 'get'"
  | .object _ => "'dict' object has no attribute 'get'"

/-- The lines and the index of a payload that is for the signature. -/
def loadPayload
    (signature : FileSignature) : Json → Except String (Option (List Text × TrigramIndex))
  | .object fields =>
      let get := fun key => (Json.lookup (codePoints key) fields).getD .null
      if !equalsInt conv formatVersion (get "format_version") then .ok none
      else if !equalsSignature conv signature (get "file_signature") then .ok none
      else
        match get "lines", get "trigram_index" with
        | .array rawLines, .object rawIndex =>
            (readIndexEntries conv rawIndex).map fun entries =>
              entries.map fun entries => (rawLines.map (toStr conv), entries.toAList)
        | _, _ => .ok none
  | payload => .error (withoutGetMessage payload)

/-- What there is at the path of the cache.  Text that is not UTF-8 raises, as does JSON that is
nested too deeply. -/
inductive CacheFile where
  | absent
  | unreadable
  | notJson
  | raising (exc : String)
  | json (payload : Json)

/-- The part of `_load_literal_index` that reads the file. -/
def loadCacheFile
    (signature : FileSignature) : CacheFile → Except String (Option (List Text × TrigramIndex))
  | .absent => .ok none
  | .unreadable => .ok none
  | .notJson => .ok none
  | .raising exc => .error exc
  | .json payload => loadPayload conv signature payload

end Values

/-- An integer as JSON. -/
def jsonInt (i : Int) : Json :=
  .number (.int i)

/-- The index as JSON. -/
def indexFields (index : TrigramIndex) : List (CodePoints × Json) :=
  (sortByKey (fun entry => pointsOf entry.1) index.entries).map fun entry =>
    (pointsOf entry.1, .array (entry.2.map jsonInt))

/-- The payload of `_store_literal_index`, with sorted keys. -/
def storedPayload
    (signature : FileSignature)
    (lines : List Text)
    (index : TrigramIndex) : Json :=
  .object
    [(codePoints "file_signature", .array [jsonInt signature.mtimeNs, jsonInt signature.size]),
      (codePoints "format_version", jsonInt formatVersion),
      (codePoints "lines", .array (lines.map fun line => .string (pointsOf line))),
      (codePoints "trigram_index", .object (indexFields index))]

/-! ## What is stored is loaded -/

section RoundTrip

variable {conv : Conversions}

theorem equalsSignature_stored
    {signature signature' : FileSignature} :
    equalsSignature conv signature
        (.array [jsonInt signature'.mtimeNs, jsonInt signature'.size]) = true ↔
      signature' = signature := by
  cases signature
  cases signature'
  simp [equalsSignature, equalsInt, jsonInt]

theorem mapM_toInt_stored
    (numbers : List Int) :
    (numbers.map jsonInt).mapM (toInt conv) = .ok numbers := by
  induction numbers with
  | nil => rfl
  | cons i numbers ih =>
      rw [List.map_cons, List.mapM_cons, ih]
      rfl

/-- Written lists are read back. -/
theorem readIndexEntries_stored
    (entries : List (Sigma fun _ : Text => List Int)) :
    readIndexEntries conv
        (entries.map fun entry => (pointsOf entry.1, Json.array (entry.2.map jsonInt))) =
      .ok (some entries) := by
  induction entries with
  | nil => rfl
  | cons entry entries ih =>
      rw [List.map_cons, readIndexEntries, mapM_toInt_stored, ih, textOf_pointsOf]
      rfl

/-- The index that was stored and loaded has the lists of the index. -/
theorem get_toAList_of_perm
    {index : TrigramIndex}
    {entries : List (Sigma fun _ : Text => List Int)}
    (h : entries.Perm index.entries)
    (trigram : Text) :
    MultiMap.get entries.toAList trigram = index.get trigram := by
  have hlookup := List.perm_dlookup trigram index.nodupKeys h.symm
  rw [MultiMap.get, MultiMap.get, AList.lookup_to_alist, ← hlookup]
  rfl

theorem lookup_storedFields
    (signature lines trigramIndex : Json) :
    let fields := [(codePoints "file_signature", signature),
      (codePoints "format_version", jsonInt formatVersion), (codePoints "lines", lines),
      (codePoints "trigram_index", trigramIndex)]
    Json.lookup (codePoints "file_signature") fields = some signature ∧
      Json.lookup (codePoints "format_version") fields = some (jsonInt formatVersion) ∧
      Json.lookup (codePoints "lines") fields = some lines ∧
      Json.lookup (codePoints "trigram_index") fields = some trigramIndex := by
  have hversion : codePoints "file_signature" ≠ codePoints "format_version" := by decide
  have hlines : codePoints "file_signature" ≠ codePoints "lines" ∧
      codePoints "format_version" ≠ codePoints "lines" := by decide
  have hindex : codePoints "file_signature" ≠ codePoints "trigram_index" ∧
      codePoints "format_version" ≠ codePoints "trigram_index" ∧
      codePoints "lines" ≠ codePoints "trigram_index" := by decide
  simp [Json.lookup, hversion, hlines, hindex]

/-- A stored payload is loaded under its own signature only. -/
theorem loadPayload_storedPayload
    (signature signature' : FileSignature)
    (lines : List Text)
    (index : TrigramIndex) :
    loadPayload conv signature (storedPayload signature' lines index) =
      .ok (if signature' = signature then
        some (lines, (sortByKey (fun entry => pointsOf entry.1) index.entries).toAList)
      else none) := by
  obtain ⟨hsignature, hversion, hlines, hindex⟩ := lookup_storedFields
    (.array [jsonInt signature'.mtimeNs, jsonInt signature'.size])
    (.array (lines.map fun line => .string (pointsOf line))) (.object (indexFields index))
  have hread : readIndexEntries conv (indexFields index) =
      .ok (some (sortByKey (fun entry => pointsOf entry.1) index.entries)) :=
    readIndexEntries_stored _
  have hstr : (lines.map fun line => Json.string (pointsOf line)).map (toStr conv) = lines := by
    rw [List.map_map]
    exact List.map_id'' (fun line => textOf_pointsOf line) lines
  have hsame : equalsSignature conv signature
      (.array [jsonInt signature'.mtimeNs, jsonInt signature'.size]) = true ↔
        signature' = signature :=
    equalsSignature_stored
  simp only [storedPayload, loadPayload, hversion, hsignature, hlines, hindex, Option.getD_some,
    hread, hstr]
  by_cases h : signature' = signature
  · rw [if_pos h, hsame.mpr h]
    rfl
  · rw [if_neg h, Bool.eq_false_iff.mpr (mt hsame.mp h)]
    rfl

end RoundTrip

end CpuSearch
end TensorGrep
