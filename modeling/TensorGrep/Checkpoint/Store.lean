import TensorGrep.Kernel.StepSystem
import TensorGrep.Checkpoint.Records

/-!
# Runs of the checkpoint store

Any number of calls create checkpoints of one root or rebuild its index.  The
lock of the index makes what a call does under it one step; everything else that
a call does to the store is a step of its own.  A directory is removed part by
part, and what cannot be removed stays.

A rebuild lists the metadata files, reads one after the other, and later writes
what it has read over the index.  `IndexInv` holds in the runs in which every
overwritten index had only records that the rebuild has read, no rebuild writes
a record that retention has dropped, and no call inserts a record that a rebuild
has inserted before it.
-/

namespace TensorGrep
namespace Checkpoint

open Kernel

/-! ## Steps -/

/-- How far `create_checkpoint` is with the directory of its checkpoint. -/
inductive CreateProgress where
  | stamped
  | copied
  | described
deriving DecidableEq

/-- A call under way. -/
inductive CallState where
  | creating (own : CheckpointRecord) (progress : CreateProgress)
  | indexed (own : CheckpointRecord) (dropped : List String)
  | pruning (own : CheckpointRecord) (dropped : List String)
  | removing (own : CheckpointRecord)
  | scanning (names : List String) (records : List CheckpointRecord)
  | overwriting (records : List CheckpointRecord)

/-- What an index write of `create_checkpoint` did: the records it found, those it wrote, what
it scheduled for deletion, and whether its own snapshot was there. -/
structure IndexWrite where
  own : CheckpointRecord
  found : List CheckpointRecord
  written : List CheckpointRecord
  dropped : List String
  snapshotThere : Bool

/-- The store of one root with its calls.  `issued` are the ids that have been given out,
`writes` what the calls have inserted, and `returned` the ids of the calls that have
returned. -/
structure StoreState (Call : Type) where
  index : Option (List CheckpointRecord)
  metadata : String → Option CheckpointMetadata
  snapshots : String → Bool
  calls : Call → Option CallState
  issued : List String
  writes : List IndexWrite
  returned : List String

/-- `_load_index`. -/
def StoreState.loadIndex
    {Call : Type}
    (s : StoreState Call) : List CheckpointRecord :=
  s.index.getD []

/-- The ids of the records in the index. -/
def StoreState.indexed
    {Call : Type}
    (s : StoreState Call) : List String :=
  s.loadIndex.map CheckpointRecord.checkpointId

/-- The checkpoints that retention has dropped. -/
def StoreState.dropped
    {Call : Type}
    (s : StoreState Call) : List String :=
  s.writes.flatMap IndexWrite.dropped

/-- What can happen. -/
inductive StoreEvent (Call : Type) where
  | stamp (c : Call) (own : CheckpointRecord)
  | copy (c : Call)
  | describe (c : Call)
  | insert (c : Call) (own : CheckpointRecord) (limit : Nat)
  | release (c : Call)
  | removeMetadata (c : Call) (name : String)
  | removeSnapshot (c : Call) (name : String)
  | nextDropped (c : Call)
  | return (c : Call)
  | fail (c : Call)
  | list (c : Call)
  | read (c : Call)
  | skip (c : Call)
  | sort (c : Call)
  | overwrite (c : Call) (records : List CheckpointRecord)
  | stop (c : Call)

section Steps

variable {Call : Type} [DecidableEq Call]

/-- The state in which the call `c` has come to `call`. -/
def StoreState.setCall
    (s : StoreState Call)
    (c : Call)
    (call : Option CallState) : StoreState Call :=
  { s with calls := Function.update s.calls c call }

/-- The directories that a call may be removing. -/
def CallState.removes
    (name : String) : CallState → Prop
  | .pruning _ dropped => name ∈ dropped.head?
  | .removing own => name = own.checkpointId
  | _ => False

/-- A call that removes its own directory when something fails. -/
def CallState.guarded
    (own : CheckpointRecord) : CallState → Prop
  | .creating own' _ => own' = own
  | .indexed own' _ => own' = own
  | _ => False

/-- The effect of an event.  New ids are fresh.  A call fails at any time until it has left
the lock, and it stops at any time when its process does. -/
inductive StoreStep : StoreState Call → StoreEvent Call → StoreState Call → Prop
  | stamp {s : StoreState Call} {c : Call} {own : CheckpointRecord} :
      s.calls c = none →
      own.checkpointId ∉ s.issued →
      StoreStep s (.stamp c own)
        { s.setCall c (some (.creating own .stamped)) with
          issued := own.checkpointId :: s.issued }
  | copy {s : StoreState Call} {c : Call} {own : CheckpointRecord} :
      s.calls c = some (.creating own .stamped) →
      StoreStep s (.copy c)
        { s.setCall c (some (.creating own .copied)) with
          snapshots := Function.update s.snapshots own.checkpointId true }
  | describe {s : StoreState Call} {c : Call} {own : CheckpointRecord} :
      s.calls c = some (.creating own .copied) →
      StoreStep s (.describe c)
        { s.setCall c (some (.creating own .described)) with
          metadata := Function.update s.metadata own.checkpointId (some own.toMetadata) }
  | insert {s : StoreState Call} {c : Call} {own : CheckpointRecord} {raw : Option Int}
      {written : List CheckpointRecord} {dropped : List String} :
      s.calls c = some (.creating own .described) →
      selectRetainedCheckpoints (configuredCheckpointMax raw) (own :: s.loadIndex) =
        (written, dropped) →
      StoreStep s (.insert c own (configuredCheckpointMax raw))
        { s.setCall c (some (.indexed own dropped)) with
          index := some written
          writes := s.writes ++
            [⟨own, s.loadIndex, written, dropped, s.snapshots own.checkpointId⟩] }
  | release {s : StoreState Call} {c : Call} {own : CheckpointRecord} {dropped : List String} :
      s.calls c = some (.indexed own dropped) →
      StoreStep s (.release c) (s.setCall c (some (.pruning own dropped)))
  | removeMetadata {s : StoreState Call} {c : Call} {call : CallState} {name : String} :
      s.calls c = some call →
      call.removes name →
      StoreStep s (.removeMetadata c name)
        { s with metadata := Function.update s.metadata name none }
  | removeSnapshot {s : StoreState Call} {c : Call} {call : CallState} {name : String} :
      s.calls c = some call →
      call.removes name →
      StoreStep s (.removeSnapshot c name)
        { s with snapshots := Function.update s.snapshots name false }
  | nextDropped {s : StoreState Call} {c : Call} {own : CheckpointRecord} {name : String}
      {dropped : List String} :
      s.calls c = some (.pruning own (name :: dropped)) →
      StoreStep s (.nextDropped c) (s.setCall c (some (.pruning own dropped)))
  | return {s : StoreState Call} {c : Call} {own : CheckpointRecord} :
      s.calls c = some (.pruning own []) →
      StoreStep s (.return c)
        { s.setCall c none with returned := own.checkpointId :: s.returned }
  | fail {s : StoreState Call} {c : Call} {call : CallState} {own : CheckpointRecord} :
      s.calls c = some call →
      call.guarded own →
      StoreStep s (.fail c) (s.setCall c (some (.removing own)))
  | list {s : StoreState Call} {c : Call} {names : List String} :
      s.calls c = none →
      names.Pairwise (· < ·) →
      (∀ name, name ∈ names ↔ (s.metadata name).isSome) →
      StoreStep s (.list c) (s.setCall c (some (.scanning names [])))
  | read {s : StoreState Call} {c : Call} {name : String} {names : List String}
      {records : List CheckpointRecord} {payload : CheckpointMetadata}
      {resolve : String → String} {root : String} :
      s.calls c = some (.scanning (name :: names) records) →
      s.metadata name = some payload →
      StoreStep s (.read c)
        (s.setCall c (some (.scanning names
          (records ++ (recordOfMetadata resolve root name payload).toList))))
  | skip {s : StoreState Call} {c : Call} {name : String} {names : List String}
      {records : List CheckpointRecord} :
      s.calls c = some (.scanning (name :: names) records) →
      StoreStep s (.skip c) (s.setCall c (some (.scanning names records)))
  | sort {s : StoreState Call} {c : Call} {records : List CheckpointRecord} :
      s.calls c = some (.scanning [] records) →
      StoreStep s (.sort c)
        (s.setCall c (if records = [] then none else some (.overwriting (newestFirst records))))
  | overwrite {s : StoreState Call} {c : Call} {records : List CheckpointRecord} :
      s.calls c = some (.overwriting records) →
      StoreStep s (.overwrite c records) { s.setCall c none with index := some records }
  | stop {s : StoreState Call} {c : Call} :
      StoreStep s (.stop c) (s.setCall c none)

/-- The store of a root that has no checkpoints yet, with no call under way. -/
def checkpointStore
    (Call : Type)
    [DecidableEq Call] : StepSystem (StoreState Call) (StoreEvent Call) where
  init s := s = ⟨none, fun _ => none, fun _ => false, fun _ => none, [], [], []⟩
  step := StoreStep

end Steps

end Checkpoint
end TensorGrep
