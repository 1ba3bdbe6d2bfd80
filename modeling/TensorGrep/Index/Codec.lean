import TensorGrep.Kernel.ExceptList
import TensorGrep.Kernel.WireReader
import TensorGrep.Index.Postings

/-!
# The index file format

`bincodeSerialize` writes an index, `bincodeDeserialize` reads one back.
Posting lists are stored as differences in a variable-length encoding: the file
identifier relative to the previous posting, and the line relative to the
previous line as long as the file stays the same.

Every count and length is narrowed to 32 bits when it is written, without a
check, so that the two functions are inverse to each other exactly as long as
these numbers fit (`WireBounds`).  The reader is safe on every byte string.
-/

namespace TensorGrep
namespace Index

open Kernel Reader

/-- Magic bytes of an index file. -/
def indexMagic : Bytes := [84, 71, 73, 0]

/-- Version of the format. -/
def indexFormatVersion : UInt8 := 6

/-! ## Variable-length numbers -/

/-- `write_varint_u32`. -/
def writeVarintU32 (value : UInt32) : Bytes :=
  if 0x80 ≤ value.toNat then
    ((value &&& 0x7f).toUInt8 ||| 0x80) :: writeVarintU32 (value >>> 7)
  else [value.toUInt8]
termination_by value.toNat
decreasing_by
  simp only [UInt32.toNat_shiftRight]
  simp
  omega

/-- `read_u8`. -/
def readU8 : Reader IndexError UInt8 := do
  let bytes ← readExact .truncated 1
  firstByte bytes

/-- The rounds of `read_varint_u32` that are left. -/
def varintRounds : Nat → UInt32 → UInt32 → Reader IndexError UInt32
  | 0, _, _ => fail .invalidVarint
  | n + 1, value, shift => do
      let byte ← readU8
      if 32 ≤ shift.toNat then crash
      else
        let value := value ||| ((byte &&& 0x7f).toUInt32 <<< shift)
        if byte &&& 0x80 = 0 then succeed value
        else varintRounds n value (shift + 7)

/-- `read_varint_u32`. -/
def readVarintU32 : Reader IndexError UInt32 :=
  varintRounds 5 0 0

/-- `read_u32_le`. -/
def readU32Le : Reader IndexError UInt32 := do
  let bytes ← readExact .truncated 4
  succeed (UInt32.ofNat (fromLe bytes))

/-- `read_u64_le`. -/
def readU64Le : Reader IndexError UInt64 := do
  let bytes ← readExact .truncated 8
  succeed (UInt64.ofNat (fromLe bytes))

/-- `read_u128_le`. -/
def readU128Le : Reader IndexError (BitVec 128) := do
  let bytes ← readExact .truncated 16
  succeed (BitVec.ofNat 128 (fromLe bytes))

/-- A length or count, narrowed to 32 bits. -/
def countBytes (n : Nat) : Bytes :=
  leBytes 4 (UInt32.ofNat n).toNat

/-- The byte of a flag. -/
def flagByte (b : Bool) : UInt8 :=
  if b then 1 else 0

/-! ## Posting lists -/

/-- `u32::checked_add`. -/
def checkedAdd (a b : UInt32) : Option UInt32 :=
  if a.toNat + b.toNat < 2 ^ 32 then some (a + b) else none

/-- `u32::checked_sub`. -/
def checkedSub (a b : UInt32) : Option UInt32 :=
  if b.toNat ≤ a.toNat then some (a - b) else none

/-- Where the encoder and the decoder of a posting list stand. -/
structure Cursor where
  previousFileId : UInt32
  previousLine : UInt32
  first : Bool

/-- Before the first posting. -/
def Cursor.start : Cursor where
  previousFileId := 0
  previousLine := 0
  first := true

/-- After a posting. -/
def Cursor.after (p : PostingEntry) : Cursor where
  previousFileId := p.fileId
  previousLine := p.line
  first := false

/-- The `file_delta` written for a file identifier. -/
def encodeFileId (c : Cursor) (fileId : UInt32) : Except IndexError UInt32 :=
  if c.first then .ok fileId
  else
    match checkedSub fileId c.previousFileId with
    | some d => .ok d
    | none => .error .unsortedFileId

/-- The `line_delta` written for a line; it starts afresh with every file. -/
def encodeLine (c : Cursor) (fileDelta line : UInt32) : Except IndexError UInt32 :=
  if c.first || 0 < fileDelta.toNat then .ok line
  else
    match checkedSub line c.previousLine with
    | some d => .ok d
    | none => .error .unsortedLine

/-- The file identifier behind a `file_delta`. -/
def decodeFileId (c : Cursor) (fileDelta : UInt32) : Except IndexError UInt32 :=
  if c.first then .ok fileDelta
  else
    match checkedAdd c.previousFileId fileDelta with
    | some fileId => .ok fileId
    | none => .error .invalidFileIdDelta

/-- The line behind a `line_delta`. -/
def decodeLine (c : Cursor) (fileDelta lineDelta : UInt32) : Except IndexError UInt32 :=
  if c.first || 0 < fileDelta.toNat then .ok lineDelta
  else
    match checkedAdd c.previousLine lineDelta with
    | some line => .ok line
    | none => .error .invalidLineDelta

/-- The encoding loop over one posting list. -/
def writePostings : Cursor → List PostingEntry → Except IndexError Bytes
  | _, [] => .ok []
  | c, p :: ps => do
      let fileDelta ← encodeFileId c p.fileId
      let lineDelta ← encodeLine c fileDelta p.line
      let rest ← writePostings (Cursor.after p) ps
      .ok (writeVarintU32 fileDelta ++ (writeVarintU32 lineDelta ++ rest))

/-- One round of the decoding loop. -/
def readPosting
    (s : Cursor × List PostingEntry) : Reader IndexError (Cursor × List PostingEntry) := do
  let fileDelta ← readVarintU32
  let lineDelta ← readVarintU32
  let fileId ← ofExcept (decodeFileId s.1 fileDelta)
  let line ← ofExcept (decodeLine s.1 fileDelta lineDelta)
  succeed (Cursor.after ⟨fileId, line⟩, s.2 ++ [⟨fileId, line⟩])

/-! ## Paths of entries -/

/-- `std::path::Component` on a POSIX system. -/
inductive PathComponent where
  | rootDir
  | curDir
  | parentDir
  | normal (name : Text)
deriving DecidableEq

/-- `Path::components` on a POSIX system. -/
def pathComponents (p : Text) : List PathComponent :=
  let pieces := p.splitOn '/'
  (if p.head? = some '/' then [.rootDir]
    else if pieces.head? = some ['.'] then [.curDir]
    else []) ++
  (pieces.filter (fun s => s ≠ [] ∧ s ≠ ['.'])).map
    (fun s => if s = ['.', '.'] then .parentDir else .normal s)

/-- `validate_entry_rel_path`. -/
def validateEntryRelPath (rel : Text) : Except IndexError Unit := do
  if rel.head? = some '/' then .error (.pathNotRelative rel)
  else
    (pathComponents rel).forM (fun component =>
      match component with
      | .parentDir => .error (.pathEscapes rel)
      | .rootDir => .error (.pathAbsoluteComponent rel)
      | .curDir => .ok ()
      | .normal _ => .ok ())

/-- A path that is relative and free of `..`. -/
def Confined (rel : Text) : Prop :=
  rel.head? ≠ some '/' ∧ ['.', '.'] ∉ rel.splitOn '/'

/-! ## The mirror of the posting map -/

/-- The key by which the trigrams of a file are sorted on load. -/
def hitKey (h : Trigram × UInt32) : List Nat :=
  [h.1.1.toNat, h.1.2.1.toNat, h.1.2.2.toNat, h.2.toNat]

/-- One round of the loop that fills the per-file trigrams. -/
def pushHit
    (acc : List FileTrigramHits)
    (h : Trigram × PostingEntry) : Except IndexError (List FileTrigramHits) :=
  match acc[h.2.fileId.toNat]? with
  | none => .error (.missingFileId h.2.fileId)
  | some hits => .ok (acc.set h.2.fileId.toNat (hits ++ [(h.1, h.2.line)]))

/-- The postings of a map, list by list. -/
def allPostings (postings : Postings) : List (Trigram × PostingEntry) :=
  postings.entries.flatMap (fun e => e.2.map (fun p => (e.1, p)))

/-- `rebuild_file_trigrams`. -/
def rebuildFileTrigrams
    (fileCount : Nat)
    (postings : Postings) : Except IndexError (List FileTrigramHits) := do
  let filled ← (allPostings postings).foldlM pushHit (List.replicate fileCount [])
  .ok (filled.map (sortDedup hitKey))

/-! ## Whole files -/

/-- The bytes of one entry. -/
def entryBytes (e : FileEntry) : Bytes :=
  countBytes (utf8 e.path).length ++
    (utf8 e.path ++
      (leBytes 16 e.mtimeNs.toNat ++ (leBytes 8 e.size.toNat ++ [flagByte e.deleted])))

/-- The bytes of a trigram. -/
def trigramBytes (t : Trigram) : Bytes :=
  [t.1, t.2.1, t.2.2]

/-- The bytes of one posting list. -/
def postingListBytes
    (e : Sigma (fun _ : Trigram => List PostingEntry)) : Except IndexError Bytes := do
  let body ← writePostings Cursor.start e.2
  .ok (trigramBytes e.1 ++ (countBytes e.2.length ++ body))

/-- `bincode_serialize`. -/
def bincodeSerialize (idx : TrigramIndex) : Except IndexError Bytes := do
  let lists ← idx.postings.entries.mapM postingListBytes
  .ok (indexMagic ++ ([indexFormatVersion] ++ ([flagByte idx.noIgnore] ++
    (countBytes (utf8 idx.canonicalRoot).length ++ (utf8 idx.canonicalRoot ++
      (leBytes 8 idx.treeFingerprint.toNat ++
        (countBytes idx.files.length ++ (idx.files.flatMap entryBytes ++
          (countBytes idx.postings.entries.length ++ lists.flatten)))))))))

/-- One round of the loop over the entries. -/
def readEntry (files : List FileEntry) : Reader IndexError (List FileEntry) := do
  let pathLen ← readU32Le
  let pathBytes ← readExact .truncated pathLen.toNat
  let path ← ofOption (fromUtf8 pathBytes) .entryPathNotUtf8
  let _ ← ofExcept (validateEntryRelPath path)
  let mtimeNs ← readU128Le
  let size ← readU64Le
  let deleted ← readU8
  succeed (files ++ [⟨path, mtimeNs, size, deleted ≠ 0⟩])

/-- A trigram from three bytes. -/
def trigramOf : Bytes → Option Trigram
  | [a, b, c] => some (a, b, c)
  | _ => none

/-- One round of the loop over the posting lists. -/
def readPostingList (postings : Postings) : Reader IndexError Postings := do
  let bytes ← readExact .truncated 3
  let trigram ← ofOption (trigramOf bytes) .truncated
  let postingCount ← readU32Le
  reserve postingCount.toNat 8
  let s ← loop readPosting postingCount.toNat (Cursor.start, [])
  succeed (postings.insert trigram s.2)

/-- The reader of a whole index. -/
def readIndex : Reader IndexError TrigramIndex := do
  let magic ← readExact .truncated 4
  check (magic = indexMagic) .invalidMagic
  let version ← readU8
  check (version = indexFormatVersion) (.unsupportedVersion version)
  let noIgnore ← readU8
  let rootLen ← readU32Le
  let rootBytes ← readExact .truncated rootLen.toNat
  let root ← ofOption (fromUtf8 rootBytes) .storedRootNotUtf8
  let treeFingerprint ← readU64Le
  let filesCount ← readU32Le
  reserve filesCount.toNat 64
  let files ← loop readEntry filesCount.toNat []
  let trigramCount ← readU32Le
  reserve trigramCount.toNat 32
  let postings ← loop readPostingList trigramCount.toNat ∅
  let fileTrigrams ← ofExcept (rebuildFileTrigrams files.length postings)
  succeed {
    root := root
    canonicalRoot := root
    treeFingerprint := treeFingerprint
    files := files
    fileTrigrams := fileTrigrams
    postings := postings
    noIgnore := noIgnore ≠ 0 }

/-- `bincode_deserialize`. -/
def bincodeDeserialize (data : Bytes) : Outcome IndexError TrigramIndex :=
  if data.length < 5 then .error .truncated
  else
    match readIndex data with
    | .ok (idx, _) => .ok idx
    | .error e => .error e
    | .panicked => .panicked

end Index
end TensorGrep
