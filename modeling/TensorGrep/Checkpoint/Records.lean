import Mathlib.Data.String.Basic
import TensorGrep.Kernel.SortedKeys

/-!
# Checkpoint records

The checkpoints of a root stand in its `index.json`, the newest first as a rule.
Every checkpoint has a directory of its own with a `metadata.json`, from which
the index can be rebuilt.  `created_at` is the text that the clock gave; texts
of the same shape are ordered as their moments are.
-/

namespace TensorGrep
namespace Checkpoint

open Kernel

/-- How a checkpoint was taken. -/
inductive CheckpointMode where
  | gitWorktreeSnapshot
  | filesystemSnapshot
deriving DecidableEq

/-- `CheckpointRecord`. -/
structure CheckpointRecord where
  version : Nat
  checkpointId : String
  mode : CheckpointMode
  root : String
  createdAt : String
  fileCount : Nat
deriving DecidableEq

/-- What a rebuild reads of a `metadata.json`. -/
structure CheckpointMetadata where
  version : Option Nat
  checkpointId : Option String
  mode : Option CheckpointMode
  root : Option String
  createdAt : Option String
  fileCount : Option Nat
  active : Option Bool
deriving DecidableEq

/-- `_CHECKPOINT_VERSION`. -/
def checkpointVersion : Nat := 1

/-- `_DEFAULT_CHECKPOINT_MAX`. -/
def defaultCheckpointMax : Nat := 64

/-- What `_write_checkpoint_metadata` writes for a record. -/
def CheckpointRecord.toMetadata (r : CheckpointRecord) : CheckpointMetadata where
  version := some checkpointVersion
  checkpointId := some r.checkpointId
  mode := some r.mode
  root := some r.root
  createdAt := some r.createdAt
  fileCount := some r.fileCount
  active := some true

/-! ## Retention -/

/-- `_configured_checkpoint_max`, where `raw` is the number in the environment, if there is
one. -/
def configuredCheckpointMax (raw : Option Int) : Nat :=
  match raw with
  | none => defaultCheckpointMax
  | some value => if 0 < value then value.toNat else defaultCheckpointMax

theorem configuredCheckpointMax_pos
    (raw : Option Int) :
    0 < configuredCheckpointMax raw := by
  cases raw with
  | none => decide
  | some value =>
      by_cases hpos : 0 < value
      · rw [configuredCheckpointMax, if_pos hpos]
        omega
      · rw [configuredCheckpointMax, if_neg hpos]
        decide

/-- Sorted by `created_at`, in reverse. -/
def newestFirst (records : List CheckpointRecord) : List CheckpointRecord :=
  sortByKey (fun r => OrderDual.toDual r.createdAt) records

/-- `_select_retained_checkpoints`: the records that stay, and the checkpoints whose
directories are to be deleted. -/
def selectRetainedCheckpoints
    (limit : Nat)
    (records : List CheckpointRecord) : List CheckpointRecord × List String :=
  if records.length ≤ limit then
    (records, [])
  else
    ((newestFirst records).take limit,
      ((newestFirst records).drop limit).map CheckpointRecord.checkpointId)

variable {records : List CheckpointRecord} {own : CheckpointRecord} {limit : Nat}

/-- Every record is either kept or scheduled for deletion. -/
theorem perm_selectRetained
    (limit : Nat)
    (records : List CheckpointRecord) :
    ((selectRetainedCheckpoints limit records).1.map CheckpointRecord.checkpointId ++
        (selectRetainedCheckpoints limit records).2).Perm
      (records.map CheckpointRecord.checkpointId) := by
  rw [selectRetainedCheckpoints]
  split
  · rw [List.append_nil]
  · rw [← List.map_append, List.take_append_drop]
    exact (perm_sortByKey _ records).map _

theorem mem_of_mem_selectRetained
    {r : CheckpointRecord}
    (h : r ∈ (selectRetainedCheckpoints limit records).1) :
    r ∈ records := by
  rw [selectRetainedCheckpoints] at h
  split at h
  · exact h
  · exact mem_sortByKey.mp (List.mem_of_mem_take h)

/-- The record at the head of the list stays exactly when fewer records than the limit are
newer. -/
theorem head_mem_selectRetained
    (hlimit : 0 < limit) :
    own ∈ (selectRetainedCheckpoints limit (own :: records)).1 ↔
      records.countP (fun r => own.createdAt < r.createdAt) < limit := by
  rw [selectRetainedCheckpoints]
  split
  case isTrue hroom =>
      refine iff_of_true List.mem_cons_self ?_
      refine lt_of_le_of_lt List.countP_le_length ?_
      rw [List.length_cons] at hroom
      exact hroom
  case isFalse hover =>
      rw [newestFirst, head_mem_take_sortByKey]
      simp only [OrderDual.toDual_lt_toDual]

/-! ## The first record -/

/-- The first record, if there is one, has the latest `created_at`. -/
def HeadNewest (records : List CheckpointRecord) : Prop :=
  ∀ r ∈ records.head?, ∀ r' ∈ records, r'.createdAt ≤ r.createdAt

theorem headNewest_take
    (hsorted : records.Pairwise (fun a b => b.createdAt ≤ a.createdAt))
    (n : Nat) :
    HeadNewest (records.take n) := by
  intro a ha b hb
  have htake := hsorted.sublist (List.take_sublist n records)
  cases hlist : records.take n with
  | nil =>
      rw [hlist] at hb
      cases hb
  | cons c rest =>
      rw [hlist] at ha hb htake
      cases ha
      rcases List.mem_cons.mp hb with rfl | hb
      · exact le_rfl
      · exact (List.pairwise_cons.mp htake).1 b hb

theorem pairwise_newestFirst
    (records : List CheckpointRecord) :
    (newestFirst records).Pairwise (fun a b => b.createdAt ≤ a.createdAt) :=
  pairwise_sortByKey (fun r : CheckpointRecord => OrderDual.toDual r.createdAt) records

/-- After an insertion the first record is the newest exactly when the limit is exceeded, so
that the list is sorted, or no record is newer than the one inserted. -/
theorem headNewest_selectRetained :
    HeadNewest (selectRetainedCheckpoints limit (own :: records)).1 ↔
      (records.length < limit → ∀ r ∈ records, r.createdAt ≤ own.createdAt) := by
  rw [selectRetainedCheckpoints]
  split
  case isTrue hroom =>
      rw [List.length_cons] at hroom
      constructor
      · intro hnewest _ r hr
        exact hnewest own rfl r (List.mem_cons_of_mem _ hr)
      · intro hnewest r hr r' hr'
        cases hr
        rcases List.mem_cons.mp hr' with rfl | hr'
        · exact le_rfl
        · exact hnewest hroom r' hr'
  case isFalse hover =>
      rw [List.length_cons] at hover
      refine iff_of_true (headNewest_take (pairwise_newestFirst _) limit) ?_
      intro hroom
      omega

/-! ## Rebuilding the index -/

/-- A value, where it counts as true. -/
def truthy (s : Option String) : Option String :=
  s.filter (fun t => t ≠ "")

/-- The record that a rebuild makes of the metadata in the directory `dirName`, if any. -/
def recordOfMetadata
    (resolve : String → String)
    (root dirName : String)
    (payload : CheckpointMetadata) : Option CheckpointRecord :=
  let checkpointId := (truthy payload.checkpointId).getD dirName
  let createdAt := (truthy payload.createdAt).getD ""
  if payload.active = some false then
    none
  else if checkpointId = "" ∨ createdAt = "" then
    none
  else
    some {
      version := (payload.version.filter (fun v => v ≠ 0)).getD checkpointVersion
      checkpointId := checkpointId
      mode := payload.mode.getD .filesystemSnapshot
      root := resolve ((truthy payload.root).getD root)
      createdAt := createdAt
      fileCount := payload.fileCount.getD 0 }

/-- A record of metadata that names its own directory has the name of that directory. -/
theorem checkpointId_recordOfMetadata
    {resolve : String → String}
    {root dirName : String}
    {payload : CheckpointMetadata}
    {r : CheckpointRecord}
    (hid : payload.checkpointId = some dirName)
    (h : r ∈ recordOfMetadata resolve root dirName payload) :
    r.checkpointId = dirName := by
  rw [recordOfMetadata] at h
  split at h
  · cases h
  · split at h
    · cases h
    · cases h
      rw [hid, truthy, Option.filter_some]
      split <;> rfl

/-! ## The latest checkpoint -/

/-- `CheckpointScopeResult`. -/
structure CheckpointScopeResult where
  root : String
  mode : CheckpointMode
  checkpoints : List CheckpointRecord

/-- `CheckpointLatestResult`. -/
structure CheckpointLatestResult where
  checkpointId : String
  root : String
  mode : CheckpointMode

/-- Why there is no latest checkpoint. -/
inductive LatestError where
  | noCheckpoints
  | multipleScopes (roots : List String)

/-- The scopes with records, each root once. -/
def dedupScopes (scopes : List CheckpointScopeResult) : List CheckpointScopeResult :=
  (scopes.filter fun d => !d.checkpoints.isEmpty).foldl
    (fun kept d => if d.root ∈ kept.map CheckpointScopeResult.root then kept else kept ++ [d]) []

/-- `resolve_latest_checkpoint`, for the scope of the path and the scopes that are discovered
below it, nearby ones before cached ones. -/
def resolveLatestCheckpoint
    (scope : CheckpointScopeResult)
    (discovered : List CheckpointScopeResult) : Except LatestError CheckpointLatestResult :=
  match scope.checkpoints with
  | record :: _ => .ok ⟨record.checkpointId, scope.root, scope.mode⟩
  | [] =>
      match dedupScopes discovered with
      | [] => .error .noCheckpoints
      | [child] =>
          match child.checkpoints with
          | [] => .error .noCheckpoints
          | record :: _ => .ok ⟨record.checkpointId, child.root, child.mode⟩
      | many => .error (.multipleScopes ((many.map CheckpointScopeResult.root).take 5))

theorem mem_dedupScopes
    {scopes : List CheckpointScopeResult}
    {d : CheckpointScopeResult}
    (h : d ∈ dedupScopes scopes) :
    d ∈ scopes := by
  rw [dedupScopes] at h
  suffices hfold : ∀ (rest kept : List CheckpointScopeResult), d ∈ rest.foldl
      (fun kept d => if d.root ∈ kept.map CheckpointScopeResult.root then kept else kept ++ [d])
      kept → d ∈ kept ∨ d ∈ rest by
    rcases hfold _ _ h with hd | hd
    · cases hd
    · exact (List.mem_filter.mp hd).1
  intro rest
  induction rest with
  | nil => exact fun kept hd => Or.inl hd
  | cons e rest ih =>
      intro kept hd
      rcases ih _ hd with hd | hd
      · dsimp only at hd
        split at hd
        · exact Or.inl hd
        · rcases List.mem_append.mp hd with hd | hd
          · exact Or.inl hd
          · exact Or.inr (List.mem_cons.mpr (Or.inl (List.mem_singleton.mp hd)))
      · exact Or.inr (List.mem_cons_of_mem _ hd)

/-- What is resolved is the first record of a scope. -/
theorem resolveLatest_eq_ok
    {scope : CheckpointScopeResult}
    {discovered : List CheckpointScopeResult}
    {result : CheckpointLatestResult}
    (h : resolveLatestCheckpoint scope discovered = .ok result) :
    ∃ d ∈ scope :: discovered, ∃ r ∈ d.checkpoints.head?, result = ⟨r.checkpointId, d.root, d.mode⟩
    := by
  rw [resolveLatestCheckpoint] at h
  split at h
  case h_1 record rest hrecords =>
      cases h
      exact ⟨scope, List.mem_cons_self, record, by rw [hrecords]; rfl, rfl⟩
  case h_2 hnone =>
      split at h
      · cases h
      case h_2 child hchild =>
          have hmem : child ∈ discovered := mem_dedupScopes (by rw [hchild]; exact
            List.mem_cons_self)
          split at h
          · cases h
          case h_2 record rest hrecords =>
              cases h
              exact ⟨child, List.mem_cons_of_mem _ hmem, record, by rw [hrecords]; rfl, rfl⟩
      · cases h

end Checkpoint
end TensorGrep
