import TensorGrep.Kernel.WireReader
import TensorGrep.Kernel.SortedKeys
import TensorGrep.Index.Tree

/-!
# The tree fingerprint

`computeTreeFingerprint` hashes a bounded sample of the direct children of the
canonical root: the first thirty-two regular files in name order that do not
belong to the index itself, each with its name, size, modification time and
full content.  The hash function belongs to a third-party crate and is the
parameter `digest`: the first eight bytes of the SHA-256 of its argument.

`fingerprintStream_inj` says what the hashed bytes determine: for two states of
one sample whose names, sizes and times agree, equal bytes mean equal contents.
-/

namespace TensorGrep
namespace Index

open Kernel

/-- How many direct children of the root the fingerprint samples. -/
def treeFingerprintTopLevelCap : Nat := 32

/-- The name of the persisted index. -/
def indexFileName : Bytes := utf8 ".tg_index".toList

/-- The prefix of the index's temporary files and of its lock file. -/
def indexOwnedPrefix : Bytes := utf8 "..tg_index.".toList

/-- Top-level entries that are part of the index machinery. -/
def isTgIndexOwnedEntry (name : Bytes) : Bool :=
  name = indexFileName ∨ indexOwnedPrefix <+: toStringLossy name

/-- File names are compared byte by byte. -/
def nameKey (name : Bytes) : List Nat :=
  name.map UInt8.toNat

/-- The entries that the fingerprint samples, in order. -/
def sampledEntries (top : List Bytes) : List Bytes :=
  ((sortByKey nameKey top).filter (fun name => !isTgIndexOwnedEntry name)).take
    treeFingerprintTopLevelCap

/-- What is hashed of a regular file after its name. -/
def nodeStream (node : FsNode) : Bytes :=
  if node.isFile then
    leBytes 8 node.len.toNat ++
      (match node.modified.sinceEpoch with
        | some ns => leBytes 16 ns.toNat
        | none => []) ++
      node.read.getD []
  else []

/-- What is hashed of one sampled entry. -/
def entryStream
    (T : Tree)
    (root name : Bytes) : Bytes :=
  toStringLossy name ++ ((T.stat (joinPath root name)).map nodeStream).getD []

/-- Everything that is hashed. -/
def fingerprintStream
    (T : Tree)
    (root : Bytes)
    (top : List Bytes) : Bytes :=
  (sampledEntries top).flatMap (entryStream T root)

/-- `compute_tree_fingerprint`. -/
def computeTreeFingerprint
    (digest : Bytes → UInt64)
    (T : Tree)
    (root : Bytes)
    (top : List Bytes) : UInt64 :=
  digest (fingerprintStream T root top)

theorem nameKey_injective :
    Function.Injective nameKey :=
  fun _ _ h => List.map_injective_iff.mpr (fun _ _ => UInt8.toNat_inj.mp) h

/-- The sample does not depend on the order in which the walk yields its files. -/
theorem sampledEntries_eq_of_perm
    {top top' : List Bytes}
    (h : top.Perm top') :
    sampledEntries top = sampledEntries top' := by
  unfold sampledEntries
  rw [sortByKey_eq_of_perm nameKey_injective h]

theorem mem_of_mem_sampledEntries
    {top : List Bytes}
    {name : Bytes}
    (h : name ∈ sampledEntries top) :
    name ∈ top := by
  have hfilter := List.mem_of_mem_take h
  exact mem_sortByKey.mp (List.mem_filter.mp hfilter).1

/-- The fingerprint of an unchanged tree does not depend on the walk. -/
theorem computeTreeFingerprint_eq
    (digest : Bytes → UInt64)
    {T : Tree}
    {m : Bool}
    (root : Bytes)
    (w w' : WalkRun T m) :
    computeTreeFingerprint digest T root w.top =
      computeTreeFingerprint digest T root w'.top := by
  unfold computeTreeFingerprint fingerprintStream
  rw [sampledEntries_eq_of_perm (w.top_perm.trans w'.top_perm.symm)]

/-- A sampled file that kept its metadata: same time, size and readability. -/
def SameMetadata (T T' : Tree) (path : Bytes) : Prop :=
  ∃ f f', T.stat path = some (.file f) ∧ T'.stat path = some (.file f') ∧
    f.modified.sinceEpoch = f'.modified.sinceEpoch ∧
    f.content.length = f'.content.length ∧ f.readable = f'.readable

/-- With equal metadata, equal bytes hashed for one file mean equal bytes read. -/
theorem nodeStream_inj
    {f f' : RegularFile}
    (htime : f.modified.sinceEpoch = f'.modified.sinceEpoch)
    (hsize : f.content.length = f'.content.length)
    (h : nodeStream (.file f) = nodeStream (.file f')) :
    (FsNode.file f).read.getD [] = (FsNode.file f').read.getD [] := by
  unfold nodeStream at h
  simp only [FsNode.isFile, if_true, FsNode.modified, FsNode.len, htime, hsize] at h
  exact List.append_cancel_left h

theorem length_nodeStream_eq
    {f f' : RegularFile}
    (htime : f.modified.sinceEpoch = f'.modified.sinceEpoch)
    (hsize : f.content.length = f'.content.length)
    (hread : f.readable = f'.readable) :
    (nodeStream (.file f)).length = (nodeStream (.file f')).length := by
  have hlen : ((FsNode.file f).read.getD []).length =
      ((FsNode.file f').read.getD []).length := by
    simp only [FsNode.read, hread]
    split_ifs
    · exact hsize
    · rfl
  unfold nodeStream
  simp only [FsNode.isFile, if_true, FsNode.modified, FsNode.len, htime, hsize,
    List.length_append, hlen]

/-- Equal bytes hashed over one sample mean equal bytes read of every file. -/
theorem entryStreams_inj
    {T T' : Tree}
    {root : Bytes}
    {names : List Bytes}
    (hmeta : ∀ name ∈ names, SameMetadata T T' (joinPath root name))
    (h : names.flatMap (entryStream T root) =
      names.flatMap (entryStream T' root)) :
    ∀ name ∈ names,
      ((T.stat (joinPath root name)).bind FsNode.read).getD [] =
        ((T'.stat (joinPath root name)).bind FsNode.read).getD [] := by
  induction names with
  | nil =>
      intro name hname
      cases hname
  | cons first names ih =>
      obtain ⟨f, f', hf, hf', htime, hsize, hread⟩ := hmeta first (by simp)
      have hlen : (entryStream T root first).length =
          (entryStream T' root first).length := by
        unfold entryStream
        rw [hf, hf']
        simp [length_nodeStream_eq htime hsize hread]
      rw [List.flatMap_cons, List.flatMap_cons] at h
      obtain ⟨hfirst, hrest⟩ := List.append_inj h hlen
      intro name hname
      rcases List.mem_cons.mp hname with rfl | hname
      · unfold entryStream at hfirst
        rw [hf, hf'] at hfirst ⊢
        exact nodeStream_inj htime hsize (List.append_cancel_left hfirst)
      · exact ih (fun n hn => hmeta n (List.mem_cons_of_mem _ hn)) hrest name hname

/-- What the hashed bytes determine of the sampled files. -/
theorem fingerprintStream_inj
    {T T' : Tree}
    {root : Bytes}
    {top top' : List Bytes}
    (htop : top.Perm top')
    (hmeta : ∀ name ∈ sampledEntries top, SameMetadata T T' (joinPath root name))
    (h : fingerprintStream T root top = fingerprintStream T' root top') :
    ∀ name ∈ sampledEntries top,
      ((T.stat (joinPath root name)).bind FsNode.read).getD [] =
        ((T'.stat (joinPath root name)).bind FsNode.read).getD [] := by
  refine entryStreams_inj hmeta ?_
  unfold fingerprintStream at h
  rwa [← sampledEntries_eq_of_perm htop] at h

end Index
end TensorGrep
