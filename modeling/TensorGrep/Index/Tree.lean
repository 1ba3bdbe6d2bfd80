import TensorGrep.Kernel.Utf8Text

/-!
# What the index reads from a file system

The index never looks at a directory tree except through four questions: the
canonical spelling of the root, the metadata behind an absolute path, the bytes
behind an absolute path, and the list of regular files that the ignore-aware
walk returns.  A `Tree` answers these questions.

The walk belongs to a third-party crate, so its result is a parameter.  What
the code relies on is that two walks with one configuration return the same
files; their order is not promised.  A `WalkRun` is one execution of the full
walk and of the depth-one walk.
-/

namespace TensorGrep
namespace Index

open Kernel

/-- A file-system timestamp: nanoseconds relative to the Unix epoch, held in
signed 64-bit seconds. -/
structure SystemTime where
  ns : Int
  lower : -(2 ^ 63 * 10 ^ 9) ≤ ns
  upper : ns < 2 ^ 63 * 10 ^ 9

/-- `duration_since(UNIX_EPOCH).ok()` in nanoseconds: nothing before the epoch. -/
def SystemTime.sinceEpoch (t : SystemTime) : Option (BitVec 128) :=
  if 0 ≤ t.ns then some (BitVec.ofNat 128 t.ns.toNat) else none

/-- A regular file as `stat` and `open` see it. -/
structure RegularFile where
  modified : SystemTime
  content : Bytes
  readable : Bool
  bounded : content.length < 2 ^ 63

/-- What lies behind an absolute path. -/
inductive FsNode where
  | file (f : RegularFile)
  | dir (modified : SystemTime) (len : UInt64)

namespace FsNode

/-- `Metadata::modified`. -/
def modified : FsNode → SystemTime
  | file f => f.modified
  | dir t _ => t

/-- `Metadata::len`. -/
def len : FsNode → UInt64
  | file f => UInt64.ofNat f.content.length
  | dir _ n => n

/-- `Metadata::is_file`. -/
def isFile : FsNode → Bool
  | file _ => true
  | dir _ _ => false

/-- `Path::is_dir`, for a path that resolves to this node. -/
def isDir : FsNode → Bool
  | file _ => false
  | dir _ _ => true

/-- The bytes an open of the path reads, when it can be read. -/
def read : FsNode → Option Bytes
  | file f => if f.readable then some f.content else none
  | dir _ _ => none

end FsNode

/-- The path separator byte. -/
def slash : UInt8 := 47

/-- `Path::join` on a POSIX system. -/
def joinPath (base rel : Bytes) : Bytes :=
  if rel.head? = some slash then rel
  else if base = [] ∨ base.getLast? = some slash then base ++ rel
  else base ++ slash :: rel

/-- A walked path has depth one when it is a direct child of the root. -/
def isTopLevel (rel : Bytes) : Bool :=
  rel ≠ [] ∧ slash ∉ rel

/-- The file system below one root, as the index sees it. -/
structure Tree where
  /-- `root.canonicalize()`. -/
  canonical : Option Bytes
  /-- `metadata` of an absolute path; `none` when the call fails. -/
  stat : Bytes → Option FsNode
  /-- Root-relative paths of the regular files the walk yields, by `no_ignore`. -/
  walk : Bool → List Bytes
  walk_nodup : ∀ m, (walk m).Nodup
  /-- Below a directory the walk yields proper descendants. -/
  walk_below_dir :
    ∀ root t n m, canonical = some root → stat root = some (.dir t n) →
      [] ∉ walk m
  /-- The walk of a single file yields that file. -/
  walk_of_file :
    ∀ root f m, canonical = some root → stat root = some (.file f) →
      ∀ rel ∈ walk m, rel = []
  /-- The walk of a root without metadata yields nothing. -/
  walk_of_missing :
    ∀ root m, canonical = some root → stat root = none → walk m = []
  /-- The walk reports regular files. -/
  walk_isFile :
    ∀ root m, canonical = some root → ∀ rel ∈ walk m, ∀ node,
      stat (if rel = [] then root else joinPath root rel) = some node →
        node.isFile = true
  /-- A regular file has no children, so its name with a trailing slash fails. -/
  stat_file_slash :
    ∀ root f, canonical = some root → stat root = some (.file f) →
      stat (joinPath root []) = none
  /-- Walked paths are reported relative to the root. -/
  walk_relative : ∀ m, ∀ rel ∈ walk m, rel.head? ≠ some slash
  /-- Walked paths are made of file names, so `..` does not occur in them. -/
  walk_confined : ∀ m, ∀ rel ∈ walk m, [46, 46] ∉ rel.splitOn slash
  /-- Canonical paths are absolute. -/
  canonical_absolute : ∀ root, canonical = some root → root.head? = some slash

/-- `Path::strip_prefix`, for paths in normal form. -/
def stripPrefix (path base : Bytes) : Option Bytes :=
  let dir := if base.getLast? = some slash then base else base ++ [slash]
  if path = base then some []
  else if dir <+: path then some (path.drop dir.length)
  else none

/-- The path under which the walk reports a file. -/
def walkedPath (root rel : Bytes) : Bytes :=
  if rel = [] then root else joinPath root rel

/-- One execution of the full walk and of the depth-one walk under `no_ignore`. -/
structure WalkRun (T : Tree) (noIgnore : Bool) where
  full : List Bytes
  top : List Bytes
  full_perm : full.Perm (T.walk noIgnore)
  top_perm : top.Perm ((T.walk noIgnore).filter isTopLevel)

/-- The walk in the order in which the tree lists its files. -/
def Tree.walkRun (T : Tree) (noIgnore : Bool) : WalkRun T noIgnore where
  full := T.walk noIgnore
  top := (T.walk noIgnore).filter isTopLevel
  full_perm := List.Perm.refl _
  top_perm := List.Perm.refl _

namespace WalkRun

variable {T : Tree} {noIgnore : Bool}

theorem mem_full
    (w : WalkRun T noIgnore)
    {rel : Bytes} :
    rel ∈ w.full ↔ rel ∈ T.walk noIgnore :=
  w.full_perm.mem_iff

theorem nodup_full
    (w : WalkRun T noIgnore) :
    w.full.Nodup :=
  w.full_perm.nodup_iff.mpr (T.walk_nodup noIgnore)

end WalkRun

/-- Timestamps that the epoch conversion keeps are told apart by it. -/
theorem SystemTime.sinceEpoch_inj
    {s t : SystemTime}
    {d : BitVec 128}
    (hs : s.sinceEpoch = some d)
    (ht : t.sinceEpoch = some d) :
    s.ns = t.ns := by
  unfold sinceEpoch at hs ht
  split_ifs at hs ht with h₁ h₂
  have hs' := congrArg BitVec.toNat (Option.some.inj hs)
  have ht' := congrArg BitVec.toNat (Option.some.inj ht)
  simp only [BitVec.toNat_ofNat] at hs' ht'
  have hsu := s.upper
  have htu := t.upper
  omega

/-- The sizes of regular files are told apart by their 64-bit representation. -/
theorem RegularFile.len_inj
    {f g : RegularFile}
    (h : UInt64.ofNat f.content.length = UInt64.ofNat g.content.length) :
    f.content.length = g.content.length := by
  have hn := congrArg UInt64.toNat h
  have hf := f.bounded
  have hg := g.bounded
  simp only [UInt64.toNat_ofNat'] at hn
  omega

/-- Joining a relative path to a fixed base forgets nothing of it. -/
theorem joinPath_injective
    {base r₁ r₂ : Bytes}
    (h₁ : r₁.head? ≠ some slash)
    (h₂ : r₂.head? ≠ some slash)
    (h : joinPath base r₁ = joinPath base r₂) :
    r₁ = r₂ := by
  unfold joinPath at h
  rw [if_neg h₁, if_neg h₂] at h
  split_ifs at h
  · exact List.append_cancel_left h
  · have := List.append_cancel_left h
    simpa using this

/-- Stripping the root from a walked path gives back its relative form. -/
theorem stripPrefix_walkedPath
    {root rel : Bytes}
    (hroot : root ≠ [])
    (hrel : rel.head? ≠ some slash) :
    stripPrefix (walkedPath root rel) root = some rel := by
  unfold stripPrefix walkedPath
  by_cases hnil : rel = []
  · simp [hnil]
  · have hpos : 0 < rel.length := List.length_pos_iff.mpr hnil
    have hne : joinPath root rel ≠ root := by
      intro h
      have hlen := congrArg List.length h
      unfold joinPath at hlen
      rw [if_neg hrel] at hlen
      split_ifs at hlen <;>
        simp only [List.length_append, List.length_cons] at hlen <;> omega
    rw [if_neg hnil, if_neg hne]
    unfold joinPath
    rw [if_neg hrel]
    by_cases hlast : root.getLast? = some slash
    · simp [hlast]
    · have hsplit : root ++ slash :: rel = (root ++ [slash]) ++ rel := by simp
      simp only [hlast, hroot, or_self, if_false, hsplit, List.drop_left]
      simp

end Index
end TensorGrep
