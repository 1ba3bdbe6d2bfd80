import Mathlib.Data.List.Perm.Lattice
import TensorGrep.Kernel.StepSystem
import TensorGrep.Checkpoint.Records

/-!
# Two implementations of `create_checkpoint` on one index

The command line exists in two languages, and both insert the record of a new
checkpoint at the head of the same `index.json`.  One reads, inserts and writes
under the lock of the index and applies retention; the other reads, inserts and
writes without the lock and without retention.  An index read and an index write
are one step each.

`insertions_kept` says that the index holds every record that was inserted, once
for each insertion, in the runs in which each call overwrites the index that it
has read.
-/

namespace TensorGrep
namespace Checkpoint

open Kernel

/-- How far a call of `create_checkpoint` is with the index: in the implementation that takes
the lock, in the one that does not, and when only its return is left. -/
inductive WriterPhase where
  | prepared (own : CheckpointRecord)
  | locked (own : CheckpointRecord)
  | loaded (own : CheckpointRecord) (records : List CheckpointRecord)
  | inserted (own : CheckpointRecord)
  | nativePrepared (own : CheckpointRecord)
  | nativeLoaded (own : CheckpointRecord) (records : List CheckpointRecord)
  | finishing (own : CheckpointRecord)

/-- The index of one root with the calls on it.  `before` are the records that were there at
first, `returned` those of the calls that have returned normally, and `unreturned` those of the
calls that have written the index and have not returned. -/
structure SharedIndex (Call : Type) where
  index : Option (List CheckpointRecord)
  holder : Option Call
  calls : Call → Option WriterPhase
  before : List CheckpointRecord
  returned : List CheckpointRecord
  unreturned : List (Call × CheckpointRecord)

/-- `_load_index`, and the reading part of the other implementation. -/
def SharedIndex.records
    {Call : Type}
    (s : SharedIndex Call) : List CheckpointRecord :=
  s.index.getD []

/-- What can happen. -/
inductive WriterEvent (Call : Type) where
  | prepare (c : Call)
  | acquire (c : Call)
  | load (c : Call)
  | insert (c : Call) (records : List CheckpointRecord) (limit : Nat)
  | release (c : Call)
  | nativePrepare (c : Call)
  | nativeLoad (c : Call)
  | nativeInsert (c : Call) (records : List CheckpointRecord)
  | return (c : Call)
  | fail (c : Call)

section Steps

variable {Call : Type} [DecidableEq Call]

/-- The state in which the call `c` has come to `phase`. -/
def SharedIndex.setPhase
    (s : SharedIndex Call)
    (c : Call)
    (phase : Option WriterPhase) : SharedIndex Call :=
  { s with calls := Function.update s.calls c phase }

/-- The effect of an event.  A call that fails gives the lock back if it has it; what it has
written stays. -/
inductive WriterStep : SharedIndex Call → WriterEvent Call → SharedIndex Call → Prop
  | prepare {s : SharedIndex Call} {c : Call} {own : CheckpointRecord} :
      s.calls c = none →
      WriterStep s (.prepare c) (s.setPhase c (some (.prepared own)))
  | acquire {s : SharedIndex Call} {c : Call} {own : CheckpointRecord} :
      s.calls c = some (.prepared own) →
      s.holder = none →
      WriterStep s (.acquire c) { s.setPhase c (some (.locked own)) with holder := some c }
  | load {s : SharedIndex Call} {c : Call} {own : CheckpointRecord} :
      s.calls c = some (.locked own) →
      WriterStep s (.load c) (s.setPhase c (some (.loaded own s.records)))
  | insert {s : SharedIndex Call} {c : Call} {own : CheckpointRecord}
      {records : List CheckpointRecord} {raw : Option Int} :
      s.calls c = some (.loaded own records) →
      WriterStep s (.insert c records (configuredCheckpointMax raw))
        { s.setPhase c (some (.inserted own)) with
          index := some
            (selectRetainedCheckpoints (configuredCheckpointMax raw) (own :: records)).1
          unreturned := (c, own) :: s.unreturned }
  | release {s : SharedIndex Call} {c : Call} {own : CheckpointRecord} :
      s.calls c = some (.inserted own) →
      WriterStep s (.release c) { s.setPhase c (some (.finishing own)) with holder := none }
  | nativePrepare {s : SharedIndex Call} {c : Call} {own : CheckpointRecord} :
      s.calls c = none →
      WriterStep s (.nativePrepare c) (s.setPhase c (some (.nativePrepared own)))
  | nativeLoad {s : SharedIndex Call} {c : Call} {own : CheckpointRecord} :
      s.calls c = some (.nativePrepared own) →
      WriterStep s (.nativeLoad c) (s.setPhase c (some (.nativeLoaded own s.records)))
  | nativeInsert {s : SharedIndex Call} {c : Call} {own : CheckpointRecord}
      {records : List CheckpointRecord} :
      s.calls c = some (.nativeLoaded own records) →
      WriterStep s (.nativeInsert c records)
        { s.setPhase c (some (.finishing own)) with
          index := some (own :: records)
          unreturned := (c, own) :: s.unreturned }
  | return {s : SharedIndex Call} {c : Call} {own : CheckpointRecord} :
      s.calls c = some (.finishing own) →
      WriterStep s (.return c)
        { s.setPhase c none with
          returned := own :: s.returned
          unreturned := s.unreturned.erase (c, own) }
  | fail {s : SharedIndex Call} {c : Call} {phase : WriterPhase} :
      s.calls c = some phase →
      WriterStep s (.fail c)
        { s.setPhase c none with holder := if s.holder = some c then none else s.holder }

/-- An index that no call is using. -/
def sharedIndex
    (Call : Type)
    [DecidableEq Call] : StepSystem (SharedIndex Call) (WriterEvent Call) where
  init s := s.holder = none ∧ (∀ c, s.calls c = none) ∧ s.before = s.records ∧ s.returned = [] ∧
    s.unreturned = []
  step := WriterStep

end Steps

/-! ## Insertions -/

section Insertions

variable {Call : Type} {s s' : SharedIndex Call}

/-- The records that should be in the index: those of all calls that have written it, and those
that were there before. -/
def SharedIndex.expected (s : SharedIndex Call) : List CheckpointRecord :=
  s.returned ++ s.unreturned.map Prod.snd ++ s.before

/-- Retention has nothing to drop when a record is inserted. -/
def RetentionNotReached : SharedIndex Call → WriterEvent Call → Prop
  | _, .insert _ records limit => records.length < limit
  | _, _ => True

/-- Retention has nothing to drop, and a call that overwrites the index has read it as it
is. -/
def OverwritesAsRead : SharedIndex Call → WriterEvent Call → Prop
  | s, .insert _ records limit => records.length < limit ∧ records = s.records
  | s, .nativeInsert _ records => records = s.records
  | _, _ => True

/-- What a call that has written the index still owes. -/
def WriterPhase.owes
    (own : CheckpointRecord) : WriterPhase → Prop
  | .inserted own' => own' = own
  | .finishing own' => own' = own
  | _ => False

/-- The index holds what was inserted, and the calls that have inserted are known. -/
structure InsertionInv (s : SharedIndex Call) : Prop where
  records : s.records.Perm s.expected
  owing : ∀ c phase own, s.calls c = some phase → phase.owes own → (c, own) ∈ s.unreturned

variable [DecidableEq Call]

/-- A step after which the records are what they were. -/
theorem InsertionInv.goOn
    (h : InsertionInv s)
    (c : Call)
    (phase : Option WriterPhase)
    (howes : ∀ p own, phase = some p → p.owes own → (c, own) ∈ s.unreturned) :
    InsertionInv (s.setPhase c phase) where
  records := h.records
  owing := by
    intro c' p own hcall hp
    rcases eq_or_of_update hcall with ⟨rfl, hsome⟩ | ⟨-, hold⟩
    · exact howes p own hsome hp
    · exact h.owing c' p own hold hp

/-- A step after which the record of one more call is in the index. -/
theorem InsertionInv.insert
    {c : Call}
    {own : CheckpointRecord}
    {phase : WriterPhase}
    (h : InsertionInv s)
    (honly : ∀ own', phase.owes own' → own' = own) :
    InsertionInv { s.setPhase c (some phase) with
      index := some (own :: s.records)
      unreturned := (c, own) :: s.unreturned } where
  records := by
    refine (h.records.cons own).trans ?_
    change (own :: (s.returned ++ _ ++ s.before)).Perm (s.returned ++ (own :: _) ++ s.before)
    rw [List.append_assoc, List.append_assoc, List.cons_append]
    exact List.perm_middle.symm
  owing := by
    intro c' p own' hcall hp
    rcases eq_or_of_update hcall with ⟨rfl, hsome⟩ | ⟨-, hold⟩
    · cases hsome
      rw [honly own' hp]
      exact List.mem_cons_self
    · exact List.mem_cons_of_mem _ (h.owing c' p own' hold hp)

/-- A step with which a call that has inserted its record returns. -/
theorem InsertionInv.return
    {c : Call}
    {own : CheckpointRecord}
    (h : InsertionInv s)
    (hcall : s.calls c = some (.finishing own)) :
    InsertionInv { s.setPhase c none with
      returned := own :: s.returned
      unreturned := s.unreturned.erase (c, own) } where
  records := by
    have hmem := h.owing c _ own hcall rfl
    have hmoved := (List.perm_cons_erase hmem).map Prod.snd
    refine h.records.trans (List.Perm.append_right _ ?_)
    refine (List.Perm.append_left s.returned hmoved).trans ?_
    exact List.perm_middle
  owing := by
    intro c' p own' hcall' hp
    rcases eq_or_of_update hcall' with ⟨-, hnone⟩ | ⟨hne, hold⟩
    · cases hnone
    · refine (List.mem_erase_of_ne ?_).mpr (h.owing c' p own' hold hp)
      intro heq
      exact hne (Prod.ext_iff.mp heq).1

theorem insertionInv_step
    {event : WriterEvent Call}
    (h : InsertionInv s)
    (hguard : OverwritesAsRead s event)
    (hstep : WriterStep s event s') :
    InsertionInv s' := by
  cases hstep with
  | prepare hidle => exact h.goOn _ _ (by rintro _ own ⟨⟩ ⟨⟩)
  | @acquire c own hcall hfree =>
      have := h.goOn c (some (.locked own)) (by rintro _ own' ⟨⟩ ⟨⟩)
      exact ⟨this.records, this.owing⟩
  | load hcall => exact h.goOn _ _ (by rintro _ own ⟨⟩ ⟨⟩)
  | @insert c own records raw hcall =>
      obtain ⟨hroom, rfl⟩ := hguard
      rw [selectRetainedCheckpoints, if_pos (by rw [List.length_cons]; omega)]
      exact h.insert (by rintro own' rfl; rfl)
  | @release c own hcall =>
      have := h.goOn c (some (.finishing own))
        (by rintro _ own' ⟨⟩ rfl; exact h.owing c _ _ hcall rfl)
      exact ⟨this.records, this.owing⟩
  | nativePrepare hidle => exact h.goOn _ _ (by rintro _ own ⟨⟩ ⟨⟩)
  | nativeLoad hcall => exact h.goOn _ _ (by rintro _ own ⟨⟩ ⟨⟩)
  | nativeInsert hcall =>
      cases hguard
      exact h.insert (by rintro own' rfl; rfl)
  | @«return» c own hcall => exact h.return hcall
  | @fail c phase hcall =>
      have := h.goOn c none (by rintro _ own ⟨⟩)
      exact ⟨this.records, this.owing⟩

theorem insertionInv_init
    (h : (sharedIndex Call).init s) :
    InsertionInv s := by
  obtain ⟨-, hidle, hbefore, hreturned, hunreturned⟩ := h
  refine ⟨?_, ?_⟩
  · rw [SharedIndex.expected, hreturned, hunreturned, hbefore]
    exact List.Perm.refl _
  · intro c phase own hcall
    rw [hidle c] at hcall
    cases hcall

/-- In every run in which retention drops nothing and each call overwrites the index that it
has read, the index holds the records of the calls that have written it, once for each call,
and those that were there before. -/
theorem insertions_kept
    (h : (sharedIndex Call).Reachable OverwritesAsRead s) :
    s.records.Perm s.expected :=
  (h.invariant (P := InsertionInv) (fun _ hinit => insertionInv_init hinit)
    (fun _ _ _ hinv hguard hstep => insertionInv_step hinv hguard hstep)).records

/-! ## The implementation with the lock by itself -/

/-- Retention has nothing to drop, and only calls that take the lock write the index. -/
def LockedWritersOnly : SharedIndex Call → WriterEvent Call → Prop
  | _, .insert _ records limit => records.length < limit
  | _, .nativeInsert _ _ => False
  | _, _ => True

/-- The call is inside the lock. -/
def WriterPhase.inside : WriterPhase → Prop
  | .locked _ => True
  | .loaded _ _ => True
  | .inserted _ => True
  | _ => False

/-- Who is inside has the lock, and what it has read is the index. -/
structure LockedInv (s : SharedIndex Call) : Prop where
  holder : ∀ c phase, s.calls c = some phase → phase.inside → s.holder = some c
  read : ∀ c own records, s.calls c = some (.loaded own records) → records = s.records

omit [DecidableEq Call] in
/-- No other call has read an index that the holder of the lock overwrites. -/
theorem LockedInv.holder_only
    {c c' : Call}
    {phase phase' : WriterPhase}
    (h : LockedInv s)
    (hcall : s.calls c = some phase)
    (hinside : phase.inside)
    (hcall' : s.calls c' = some phase')
    (hinside' : phase'.inside) :
    c' = c :=
  Option.some.inj ((h.holder c' phase' hcall' hinside').symm.trans
    (h.holder c phase hcall hinside))

/-- A step with which a call goes on outside of the lock. -/
theorem LockedInv.goOn
    (h : LockedInv s)
    (c : Call)
    (phase : Option WriterPhase)
    (holder : Option Call)
    (houtside : ∀ p, phase = some p → ¬ p.inside)
    (hholder : ∀ c' p, c' ≠ c → s.calls c' = some p → p.inside → holder = some c') :
    LockedInv { s.setPhase c phase with holder := holder } where
  holder := by
    intro c' p hcall hp
    rcases eq_or_of_update hcall with ⟨-, hsome⟩ | ⟨hne, hold⟩
    · exact absurd hp (houtside p hsome)
    · exact hholder c' p hne hold hp
  read := by
    intro c' own records hcall
    rcases eq_or_of_update hcall with ⟨-, hsome⟩ | ⟨-, hold⟩
    · exact absurd trivial (houtside _ hsome)
    · exact h.read c' own records hold

theorem lockedInv_step
    {event : WriterEvent Call}
    (h : LockedInv s)
    (hguard : LockedWritersOnly s event)
    (hstep : WriterStep s event s') :
    LockedInv s' := by
  cases hstep with
  | prepare hidle =>
      exact h.goOn _ _ _ (by rintro _ ⟨⟩ ⟨⟩) fun c' p _ hcall hp => h.holder c' p hcall hp
  | @acquire c own hcall hfree =>
      -- nobody is inside, since nobody has the lock
      have hnobody : ∀ c' p, s.calls c' = some p → ¬ p.inside := by
        intro c' p hcall' hp
        have := h.holder c' p hcall' hp
        rw [hfree] at this
        cases this
      refine ⟨?_, ?_⟩
      · intro c' p hcall' hp
        rcases eq_or_of_update hcall' with ⟨rfl, -⟩ | ⟨-, hold⟩
        · rfl
        · exact absurd hp (hnobody c' p hold)
      · intro c' own' records hcall'
        rcases eq_or_of_update hcall' with ⟨-, hsome⟩ | ⟨-, hold⟩
        · cases hsome
        · exact absurd trivial (hnobody c' _ hold)
  | @load c own hcall =>
      refine ⟨?_, ?_⟩
      · intro c' p hcall' hp
        rcases eq_or_of_update hcall' with ⟨rfl, -⟩ | ⟨-, hold⟩
        · exact h.holder c' _ hcall trivial
        · exact h.holder c' p hold hp
      · intro c' own' records hcall'
        rcases eq_or_of_update hcall' with ⟨-, hsome⟩ | ⟨-, hold⟩
        · cases hsome
          rfl
        · exact h.read c' own' records hold
  | @insert c own records raw hcall =>
      refine ⟨?_, ?_⟩
      · intro c' p hcall' hp
        rcases eq_or_of_update hcall' with ⟨rfl, -⟩ | ⟨-, hold⟩
        · exact h.holder c' _ hcall trivial
        · exact h.holder c' p hold hp
      · intro c' own' records' hcall'
        rcases eq_or_of_update hcall' with ⟨-, hsome⟩ | ⟨hne, hold⟩
        · cases hsome
        · exact absurd (h.holder_only hcall trivial hold trivial) hne
  | @release c own hcall =>
      refine h.goOn _ _ _ (by rintro _ ⟨⟩ ⟨⟩) ?_
      intro c' p hne hcall' hp
      exact absurd (h.holder_only hcall trivial hcall' hp) hne
  | nativePrepare hidle =>
      exact h.goOn _ _ _ (by rintro _ ⟨⟩ ⟨⟩) fun c' p _ hcall hp => h.holder c' p hcall hp
  | nativeLoad hcall =>
      exact h.goOn _ _ _ (by rintro _ ⟨⟩ ⟨⟩) fun c' p _ hcall hp => h.holder c' p hcall hp
  | nativeInsert hcall => cases hguard
  | @«return» c own hcall =>
      have := h.goOn c none s.holder (by rintro _ ⟨⟩)
        fun c' p _ hcall hp => h.holder c' p hcall hp
      exact ⟨this.holder, this.read⟩
  | @fail c phase hcall =>
      refine h.goOn _ _ _ (by rintro _ ⟨⟩) ?_
      intro c' p hne hcall' hp
      rw [h.holder c' p hcall' hp, if_neg (fun heq => hne (Option.some.inj heq))]

/-- As long as only calls that take the lock write the index, every call overwrites the index
that it has read. -/
theorem insertions_kept_under_lock
    (h : (sharedIndex Call).Reachable LockedWritersOnly s) :
    s.records.Perm s.expected := by
  refine (h.invariant (P := fun t => InsertionInv t ∧ LockedInv t) ?_ ?_).1.records
  · intro s hinit
    have hidle := hinit.2.1
    refine ⟨insertionInv_init hinit, ?_, ?_⟩
    · intro c phase hcall
      rw [hidle c] at hcall
      cases hcall
    · intro c own records hcall
      rw [hidle c] at hcall
      cases hcall
  · intro s event s' hinv hguard hstep
    refine ⟨insertionInv_step hinv.1 ?_ hstep, lockedInv_step hinv.2 hguard hstep⟩
    cases hstep with
    | insert hcall => exact ⟨hguard, hinv.2.read _ _ _ hcall⟩
    | nativeInsert hcall => cases hguard
    | _ => trivial

end Insertions

/-! ## A schedule that loses a record -/

/-- Records of two calls of the two implementations. -/
def nativeRecord : CheckpointRecord :=
  ⟨1, "ckpt-1-1", .filesystemSnapshot, "/w", "1", 0⟩

def lockedRecord : CheckpointRecord :=
  ⟨1, "ckpt-20260101000000-00000000", .filesystemSnapshot, "/w", "2026-01-01T00:00:00+00:00", 0⟩

/-- The index of a root without checkpoints. -/
def emptyIndex : SharedIndex Bool where
  index := none
  holder := none
  calls := fun _ => none
  before := []
  returned := []
  unreturned := []

/-- The call that does not take the lock reads the index before the other call writes it, and
writes it afterwards. -/
theorem insertion_lost :
    ∃ s : SharedIndex Bool, (sharedIndex Bool).Reachable RetentionNotReached s ∧
      (∀ c, s.calls c = none) ∧ s.unreturned = [] ∧ lockedRecord ∈ s.returned ∧
      lockedRecord ∉ s.records := by
  have h0 : (sharedIndex Bool).Reachable RetentionNotReached emptyIndex :=
    .start ⟨rfl, fun _ => rfl, rfl, rfl, rfl⟩
  have h1 := h0.next (by trivial) (@WriterStep.nativePrepare Bool _ _ true nativeRecord rfl)
  have h2 := h1.next (by trivial) (WriterStep.nativeLoad (c := true) rfl)
  have h3 := h2.next (by trivial) (@WriterStep.prepare Bool _ _ false lockedRecord rfl)
  have h4 := h3.next (by trivial) (WriterStep.acquire (c := false) rfl rfl)
  have h5 := h4.next (by trivial) (WriterStep.load (c := false) rfl)
  have h6 := h5.next (by exact Nat.succ_pos _) (@WriterStep.insert Bool _ _ false _ _ none rfl)
  have h7 := h6.next (by trivial) (WriterStep.release (c := false) rfl)
  have h8 := h7.next (by trivial) (WriterStep.return (c := false) rfl)
  have h9 := h8.next (by trivial) (WriterStep.nativeInsert (c := true) rfl)
  have h10 := h9.next (by trivial) (WriterStep.return (c := true) rfl)
  refine ⟨_, h10, ?_, by decide, by decide, by decide⟩
  intro c
  cases c <;> rfl

/-- One call after the other: both records are in the index. -/
theorem insertions_kept_in_turn :
    ∃ s : SharedIndex Bool, (sharedIndex Bool).Reachable OverwritesAsRead s ∧
      s.returned = [nativeRecord, lockedRecord] ∧ s.records.Perm s.expected := by
  have h0 : (sharedIndex Bool).Reachable OverwritesAsRead emptyIndex :=
    .start ⟨rfl, fun _ => rfl, rfl, rfl, rfl⟩
  have h1 := h0.next (by trivial) (@WriterStep.prepare Bool _ _ false lockedRecord rfl)
  have h2 := h1.next (by trivial) (WriterStep.acquire (c := false) rfl rfl)
  have h3 := h2.next (by trivial) (WriterStep.load (c := false) rfl)
  have h4 := h3.next (by exact ⟨Nat.succ_pos _, rfl⟩)
    (@WriterStep.insert Bool _ _ false _ _ none rfl)
  have h5 := h4.next (by trivial) (WriterStep.release (c := false) rfl)
  have h6 := h5.next (by trivial) (WriterStep.return (c := false) rfl)
  have h7 := h6.next (by trivial) (@WriterStep.nativePrepare Bool _ _ true nativeRecord rfl)
  have h8 := h7.next (by trivial) (WriterStep.nativeLoad (c := true) rfl)
  have h9 := h8.next (by exact rfl) (WriterStep.nativeInsert (c := true) rfl)
  have h10 := h9.next (by trivial) (WriterStep.return (c := true) rfl)
  exact ⟨_, h10, rfl, insertions_kept h10⟩

/-- A call that waits for the lock reads the index after the other call has written it. -/
theorem insertions_kept_under_lock_waiting :
    ∃ s : SharedIndex Bool, (sharedIndex Bool).Reachable LockedWritersOnly s ∧
      s.unreturned = [(true, nativeRecord), (false, lockedRecord)] ∧
      s.records.Perm s.expected := by
  have h0 : (sharedIndex Bool).Reachable LockedWritersOnly emptyIndex :=
    .start ⟨rfl, fun _ => rfl, rfl, rfl, rfl⟩
  have h1 := h0.next (by trivial) (@WriterStep.prepare Bool _ _ false lockedRecord rfl)
  have h2 := h1.next (by trivial) (WriterStep.acquire (c := false) rfl rfl)
  have h3 := h2.next (by trivial) (@WriterStep.prepare Bool _ _ true nativeRecord rfl)
  have h4 := h3.next (by trivial) (WriterStep.load (c := false) rfl)
  have h5 := h4.next (by exact Nat.succ_pos _) (@WriterStep.insert Bool _ _ false _ _ none rfl)
  have h6 := h5.next (by trivial) (WriterStep.release (c := false) rfl)
  have h7 := h6.next (by trivial) (WriterStep.acquire (c := true) rfl rfl)
  have h8 := h7.next (by trivial) (WriterStep.load (c := true) rfl)
  have h9 := h8.next (by exact (by decide : 1 < configuredCheckpointMax none))
    (@WriterStep.insert Bool _ _ true _ _ none rfl)
  exact ⟨_, h9, rfl, insertions_kept_under_lock h9⟩

end Checkpoint
end TensorGrep
