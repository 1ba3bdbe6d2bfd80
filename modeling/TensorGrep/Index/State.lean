import TensorGrep.Kernel.MultiMap
import TensorGrep.Kernel.SortedKeys
import TensorGrep.Index.Extract

/-!
# The trigram index

`TrigramIndex` is the in-memory index: the file entries, the posting lists and
their mirror, the trigrams of every file.  File identifiers are positions in
the entry list, narrowed to 32 bits wherever they enter a posting; entries are
never removed, only marked deleted.

`RepInv` is the representation invariant that ties the three structures
together.  A `Catalog` is what an index is for: which files it covers and on
which lines of them each trigram is posted.
-/

namespace TensorGrep
namespace Index

open Kernel

/-- One occurrence of a trigram: the identifier of a file and a line number. -/
structure PostingEntry where
  fileId : UInt32
  line : UInt32
deriving DecidableEq

/-- The key by which posting lists are sorted and deduplicated. -/
def PostingEntry.key (p : PostingEntry) : ℕ ×ₗ ℕ :=
  toLex (p.fileId.toNat, p.line.toNat)

theorem PostingEntry.key_injective :
    Function.Injective PostingEntry.key := by
  rintro ⟨f, n⟩ ⟨g, m⟩ h
  have hpair : (f.toNat, n.toNat) = (g.toNat, m.toNat) := toLex.injective h
  obtain ⟨hf, hn⟩ := Prod.mk.inj hpair
  rw [UInt32.toNat_inj.mp hf, UInt32.toNat_inj.mp hn]

/-- An indexed file, by its path relative to the canonical root. -/
structure FileEntry where
  path : Text
  mtimeNs : BitVec 128
  size : UInt64
  deleted : Bool
deriving DecidableEq

/-- Posting lists by trigram. -/
abbrev Postings := MultiMap Trigram PostingEntry

/-- Reasons for which an operation on an index fails. -/
inductive IndexError where
  | rootNotCanonical
  | rootNotUtf8 (root : Bytes)
  | outsideRoot (walked root : Bytes)
  | entryNotUtf8 (walked : Bytes)
  | truncated
  | invalidMagic
  | unsupportedVersion (found : UInt8)
  | storedRootNotUtf8
  | entryPathNotUtf8
  | pathNotRelative (path : Text)
  | pathEscapes (path : Text)
  | pathAbsoluteComponent (path : Text)
  | unsortedFileId
  | unsortedLine
  | invalidVarint
  | invalidFileIdDelta
  | invalidLineDelta
  | missingFileId (fileId : UInt32)
  | noVerifiedRoot
  | readFailed (path : Bytes)
  | patternRejected (pattern : Text)
deriving DecidableEq

/-- The index, field by field as the source has it. -/
structure TrigramIndex where
  root : Text
  canonicalRoot : Text
  treeFingerprint : UInt64
  files : List FileEntry
  fileTrigrams : List FileTrigramHits
  postings : Postings
  noIgnore : Bool

/-- The entries that are not tombstones. -/
def activeEntries (files : List FileEntry) : List FileEntry :=
  files.filter (fun e => !e.deleted)

theorem mem_activeEntries
    {files : List FileEntry}
    {e : FileEntry} :
    e ∈ activeEntries files ↔ e ∈ files ∧ e.deleted = false := by
  simp [activeEntries]

/-- What identifies the state of a file for the index. -/
abbrev FileStamp := Text × BitVec 128 × UInt64

/-- The stamp of an entry. -/
def FileEntry.stamp (e : FileEntry) : FileStamp :=
  (e.path, e.mtimeNs, e.size)

/-- What an index is for: the files it covers and where each trigram occurs. -/
@[ext] structure Catalog where
  active : Set FileStamp
  posted : Trigram → Set (Text × UInt32)

/-- The representation invariant. -/
structure RepInv (idx : TrigramIndex) : Prop where
  lengths : idx.fileTrigrams.length = idx.files.length
  sorted : ∀ t l, idx.postings.lookup t = some l →
    l.Pairwise (fun a b => a.key < b.key)
  nonempty : ∀ t l, idx.postings.lookup t = some l → l ≠ []
  inRange : ∀ t, ∀ p ∈ idx.postings.get t, p.fileId.toNat < idx.files.length
  mirror : ∀ f hits, idx.fileTrigrams[f]? = some hits → ∀ t n,
    (t, n) ∈ hits ↔
      ∃ p ∈ idx.postings.get t, p.fileId.toNat = f ∧ p.line = n
  tombstones : ∀ t, ∀ p ∈ idx.postings.get t, ∀ e,
    idx.files[p.fileId.toNat]? = some e → e.deleted = false
  activeNodup : ((activeEntries idx.files).map FileEntry.path).Nodup

namespace TrigramIndex

/-- The only way a stored entry becomes an on-disk path. -/
def derefPath (idx : TrigramIndex) (rel : Text) : Bytes :=
  joinPath (utf8 idx.canonicalRoot) (utf8 rel)

/-- An index without a verified canonical root refuses to serve. -/
def ensureSearchable (idx : TrigramIndex) : Except IndexError Unit :=
  if idx.canonicalRoot = [] then .error .noVerifiedRoot else .ok ()

/-- The files an index covers and the lines on which it posts each trigram. -/
def catalog (idx : TrigramIndex) : Catalog where
  active := {a | ∃ e ∈ activeEntries idx.files, a = e.stamp}
  posted t := {a | ∃ p ∈ idx.postings.get t, ∃ e,
    idx.files[p.fileId.toNat]? = some e ∧ e.deleted = false ∧
      a = (e.path, p.line)}

end TrigramIndex

end Index
end TensorGrep
