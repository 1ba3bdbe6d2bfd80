import TensorGrep.Checkpoint.Store

/-!
# The index against the checkpoints

A rebuild overwrites the index with what it has read before it had the lock.  In
the meantime calls insert records, drop records and delete what they dropped, so
the overwritten index can lack a record, have one that was dropped, or have one
whose call is about to insert it a second time.  `RebuildsInStep` excludes these
three, and `index_consistent` says that nothing else goes wrong.
-/

namespace TensorGrep
namespace Checkpoint

open Kernel

section Consistency

variable {Call : Type} {s s' : StoreState Call} {c : Call}

/-- Every checkpoint that was returned and not dropped has exactly one record in the index,
no record is there twice, and none is of a dropped checkpoint. -/
structure IndexConsistent (s : StoreState Call) : Prop where
  once : ∀ id ∈ s.returned, id ∉ s.dropped → s.indexed.count id = 1
  nodup : s.indexed.Nodup
  notDropped : ∀ id ∈ s.dropped, id ∉ s.indexed

/-- A rebuild that overwrites the index has read every record of it, and has read none that
retention has dropped; a record that is inserted has not been inserted by a rebuild. -/
def RebuildsInStep (s : StoreState Call) : StoreEvent Call → Prop
  | .overwrite _ records =>
      (∀ id ∈ s.indexed, id ∈ records.map CheckpointRecord.checkpointId) ∧
        ∀ r ∈ records, r.checkpointId ∉ s.dropped
  | .insert _ own _ => own.checkpointId ∉ s.indexed ∧ own.checkpointId ∉ s.dropped
  | _ => True

/-! ## The invariant -/

/-- A checkpoint that is in the index unless it was dropped. -/
def Kept (s : StoreState Call) (id : String) : Prop :=
  id ∉ s.dropped → id ∈ s.indexed

/-- What holds of a call under way. -/
def CallInv (s : StoreState Call) : CallState → Prop
  | .creating _ _ => True
  | .indexed own _ => Kept s own.checkpointId
  | .pruning own _ => Kept s own.checkpointId
  | .removing _ => True
  | .scanning names records => (records.map CheckpointRecord.checkpointId ++ names).Nodup
  | .overwriting records => (records.map CheckpointRecord.checkpointId).Nodup

/-- What holds in every run that meets `RebuildsInStep`. -/
structure IndexInv (s : StoreState Call) : Prop where
  nodup : s.indexed.Nodup
  notDropped : ∀ id ∈ s.dropped, id ∉ s.indexed
  returned : ∀ id ∈ s.returned, Kept s id
  calls : ∀ c call, s.calls c = some call → CallInv s call
  named : ∀ name payload, s.metadata name = some payload → payload.checkpointId = some name

theorem CallInv.mono
    {call : CallState}
    (hkept : ∀ id, Kept s id → Kept s' id)
    (h : CallInv s call) :
    CallInv s' call := by
  cases call with
  | creating own progress => trivial
  | indexed own dropped => exact hkept _ h
  | pruning own dropped => exact hkept _ h
  | removing own => trivial
  | scanning names records => exact h
  | overwriting records => exact h

/-- Metadata files name their directories after one has been written or removed. -/
theorem named_update
    {metadata : String → Option CheckpointMetadata}
    {changed : String}
    {new : Option CheckpointMetadata}
    (h : ∀ name payload, metadata name = some payload → payload.checkpointId = some name)
    (hnew : ∀ payload, new = some payload → payload.checkpointId = some changed)
    (name : String)
    (payload : CheckpointMetadata)
    (hpayload : Function.update metadata changed new name = some payload) :
    payload.checkpointId = some name := by
  by_cases hname : name = changed
  · subst hname
    rw [Function.update_self] at hpayload
    exact hnew payload hpayload
  · rw [Function.update_of_ne hname] at hpayload
    exact h name payload hpayload

variable [DecidableEq Call]

/-- After a call has gone on, the calls under way are itself and the others. -/
theorem calls_setCall
    {call : CallState}
    {new : Option CallState}
    {c' : Call}
    (h : (s.setCall c new).calls c' = some call) :
    c' = c ∧ new = some call ∨ c' ≠ c ∧ s.calls c' = some call :=
  eq_or_of_update h

/-- A step in which one call goes on and the index stays. -/
theorem IndexInv.setCall
    (h : IndexInv s)
    (c : Call)
    (new : Option CallState)
    (hnew : ∀ call, new = some call → CallInv s call) :
    IndexInv (s.setCall c new) where
  nodup := h.nodup
  notDropped := h.notDropped
  returned := h.returned
  calls := by
    intro c' call hcall
    rcases calls_setCall hcall with ⟨-, hsome⟩ | ⟨-, hold⟩
    · exact hnew call hsome
    · exact h.calls c' call hold
  named := h.named

/-- The index after a record has been inserted into it. -/
theorem inv_insert
    {limit : Nat}
    {w : IndexWrite}
    (h : IndexInv s)
    (hindexed : w.own.checkpointId ∉ s.indexed)
    (hdropped : w.own.checkpointId ∉ s.dropped)
    (hselect : selectRetainedCheckpoints limit (w.own :: s.loadIndex) = (w.written, w.dropped)) :
    IndexInv { s.setCall c (some (.indexed w.own w.dropped)) with
      index := some w.written
      writes := s.writes ++ [w] } := by
  have hperm := perm_selectRetained limit (w.own :: s.loadIndex)
  rw [hselect] at hperm
  dsimp only at hperm
  -- what is written and what is dropped are the records found and the new one
  have hids : ∀ id, id ∈ w.written.map CheckpointRecord.checkpointId ∨ id ∈ w.dropped ↔
      id = w.own.checkpointId ∨ id ∈ s.indexed := by
    intro id
    rw [← List.mem_append, hperm.mem_iff, List.map_cons, List.mem_cons]
    rfl
  have hboth : ((w.own :: s.loadIndex).map CheckpointRecord.checkpointId).Nodup :=
    List.nodup_cons.mpr ⟨hindexed, h.nodup⟩
  have hnodup : (w.written.map CheckpointRecord.checkpointId ++ w.dropped).Nodup :=
    hperm.nodup_iff.mpr hboth
  have hdroppedAll : ∀ id, id ∈ (s.writes ++ [w]).flatMap IndexWrite.dropped ↔
      id ∈ s.dropped ∨ id ∈ w.dropped := by
    intro id
    rw [List.flatMap_append, List.mem_append, List.flatMap_cons, List.flatMap_nil,
      List.append_nil]
    rfl
  have hkept : ∀ id, id = w.own.checkpointId ∨ Kept s id →
      id ∉ (s.writes ++ [w]).flatMap IndexWrite.dropped →
      id ∈ w.written.map CheckpointRecord.checkpointId := by
    intro id hid hnot
    rw [hdroppedAll, not_or] at hnot
    refine ((hids id).mpr ?_).resolve_right hnot.2
    rcases hid with rfl | hid
    · exact Or.inl rfl
    · exact Or.inr (hid hnot.1)
  refine ⟨(List.nodup_append.mp hnodup).1, ?_, ?_, ?_, h.named⟩
  · intro id hid hmem
    rcases (hdroppedAll id).mp hid with hid | hid
    · rcases (hids id).mp (Or.inl hmem) with rfl | hin
      · exact hdropped hid
      · exact h.notDropped id hid hin
    · exact (List.nodup_append.mp hnodup).2.2 id hmem id hid rfl
  · intro id hid
    exact hkept id (Or.inr (h.returned id hid))
  · intro c' call hcall
    rcases calls_setCall hcall with ⟨-, hsome⟩ | ⟨-, hold⟩
    · cases hsome
      exact hkept _ (Or.inl rfl)
    · exact (h.calls c' call hold).mono fun id hid => hkept id (Or.inr hid)

/-- The index after a rebuild has overwritten it. -/
theorem inv_overwrite
    {records : List CheckpointRecord}
    (h : IndexInv s)
    (hnodup : (records.map CheckpointRecord.checkpointId).Nodup)
    (hread : ∀ id ∈ s.indexed, id ∈ records.map CheckpointRecord.checkpointId)
    (hdropped : ∀ r ∈ records, r.checkpointId ∉ s.dropped) :
    IndexInv { s.setCall c none with index := some records } := by
  have hkept : ∀ id, Kept s id →
      id ∉ s.dropped → id ∈ records.map CheckpointRecord.checkpointId :=
    fun id hid hnot => hread id (hid hnot)
  refine ⟨hnodup, ?_, fun id hid => hkept id (h.returned id hid), ?_, h.named⟩
  · intro id hid hmem
    obtain ⟨r, hr, rfl⟩ := List.mem_map.mp hmem
    exact hdropped r hr hid
  · intro c' call hcall
    rcases calls_setCall hcall with ⟨-, hsome⟩ | ⟨-, hold⟩
    · cases hsome
    · exact (h.calls c' call hold).mono hkept

theorem inv_step
    {event : StoreEvent Call}
    (h : IndexInv s)
    (hguard : RebuildsInStep s event)
    (hstep : StoreStep s event s') :
    IndexInv s' := by
  cases hstep with
  | @stamp c own hidle hfresh =>
      have := h.setCall c (some (.creating own .stamped))
        (by rintro _ ⟨⟩; trivial)
      exact ⟨this.nodup, this.notDropped, this.returned, this.calls, this.named⟩
  | @copy c own hcall =>
      have := h.setCall c (some (.creating own .copied))
        (by rintro _ ⟨⟩; trivial)
      exact ⟨this.nodup, this.notDropped, this.returned, this.calls, this.named⟩
  | @describe c own hcall =>
      have := h.setCall c (some (.creating own .described))
        (by rintro _ ⟨⟩; trivial)
      exact ⟨this.nodup, this.notDropped, this.returned, this.calls,
        named_update h.named (by rintro _ ⟨⟩; rfl)⟩
  | @insert c own raw written dropped hcall hselect =>
      exact inv_insert (w := ⟨own, s.loadIndex, written, dropped, s.snapshots own.checkpointId⟩)
        h hguard.1 hguard.2 hselect
  | release hcall =>
      have := h.calls _ _ hcall
      exact h.setCall _ _ (by rintro _ ⟨⟩; exact this)
  | removeMetadata hcall hremoves =>
      exact ⟨h.nodup, h.notDropped, h.returned, h.calls,
        named_update h.named (by rintro _ ⟨⟩)⟩
  | removeSnapshot hcall hremoves =>
      exact ⟨h.nodup, h.notDropped, h.returned, h.calls, h.named⟩
  | nextDropped hcall =>
      have := h.calls _ _ hcall
      exact h.setCall _ _ (by rintro _ ⟨⟩; exact this)
  | @«return» c own hcall =>
      have := h.setCall c none (by rintro _ ⟨⟩)
      refine ⟨this.nodup, this.notDropped, ?_, this.calls, this.named⟩
      intro id hid
      rcases List.mem_cons.mp hid with rfl | hid
      · exact h.calls _ _ hcall
      · exact h.returned id hid
  | fail hcall hguarded => exact h.setCall _ _ (by rintro _ ⟨⟩; trivial)
  | list hidle hsorted hnames =>
      refine h.setCall _ _ ?_
      rintro _ ⟨⟩
      exact hsorted.imp ne_of_lt
  | @read c name names records payload resolve root hcall hpayload =>
      have hscan := h.calls _ _ hcall
      refine h.setCall _ _ ?_
      rintro _ ⟨⟩
      change ((records ++ _).map _ ++ names).Nodup
      cases hrecord : recordOfMetadata resolve root name payload with
      | none =>
          rw [Option.toList_none, List.append_nil]
          exact hscan.sublist (List.Sublist.append_left (List.sublist_cons_self _ _) _)
      | some r =>
          have hid := checkpointId_recordOfMetadata (h.named name payload hpayload) hrecord
          rw [Option.toList_some, List.map_append, List.map_singleton, hid, List.append_assoc]
          exact hscan
  | skip hcall =>
      have hscan := h.calls _ _ hcall
      refine h.setCall _ _ ?_
      rintro _ ⟨⟩
      exact hscan.sublist (List.Sublist.append_left (List.sublist_cons_self _ _) _)
  | @sort c records hcall =>
      have hscan := h.calls _ _ hcall
      refine h.setCall _ _ ?_
      intro call hsome
      split at hsome
      · cases hsome
      · cases hsome
        change ((newestFirst records).map _).Nodup
        rw [newestFirst, ((perm_sortByKey _ records).map _).nodup_iff]
        exact (List.nodup_append.mp hscan).1
  | overwrite hcall => exact inv_overwrite h (h.calls _ _ hcall) hguard.1 hguard.2
  | stop => exact h.setCall _ _ (by rintro _ ⟨⟩)

/-- In every run in which each overwritten index had only records that the rebuild has read,
no rebuild writes a dropped record and no call inserts a record that a rebuild has inserted,
the index is consistent at every moment. -/
theorem index_consistent
    (h : (checkpointStore Call).Reachable RebuildsInStep s) :
    IndexConsistent s := by
  have hinv : IndexInv s := by
    refine h.invariant (P := IndexInv) ?_ (fun _ _ _ hinv hguard hstep =>
      inv_step hinv hguard hstep)
    rintro s rfl
    refine ⟨List.nodup_nil, ?_, ?_, ?_, ?_⟩
    · intro id hid
      cases hid
    · intro id hid
      cases hid
    · intro c call hcall
      cases hcall
    · intro name payload hpayload
      cases hpayload
  refine ⟨?_, hinv.nodup, hinv.notDropped⟩
  intro id hid hnot
  exact List.count_eq_one_of_mem hinv.nodup (hinv.returned id hid hnot)

/-! ## Schedules -/

/-- The store after a call has created a checkpoint and nothing had to be dropped. -/
def StoreState.created
    (s : StoreState Call)
    (own : CheckpointRecord) : StoreState Call where
  index := some (own :: s.loadIndex)
  metadata := Function.update s.metadata own.checkpointId (some own.toMetadata)
  snapshots := Function.update s.snapshots own.checkpointId true
  calls := s.calls
  issued := own.checkpointId :: s.issued
  writes := s.writes ++ [⟨own, s.loadIndex, own :: s.loadIndex, [], true⟩]
  returned := own.checkpointId :: s.returned

/-- A whole call, from its stamp to its return. -/
theorem reachable_created
    {guard : StoreState Call → StoreEvent Call → Prop}
    (c : Call)
    (own : CheckpointRecord)
    (h : (checkpointStore Call).Reachable guard s)
    (hother : ∀ t, ∀ event ∈ [.stamp c own, .copy c, .describe c, .release c, .return c],
      guard t event)
    (hinsert : ∀ t, t.index = s.index → t.writes = s.writes →
      guard t (.insert c own defaultCheckpointMax))
    (hidle : s.calls c = none)
    (hfresh : own.checkpointId ∉ s.issued)
    (hroom : s.loadIndex.length < defaultCheckpointMax) :
    (checkpointStore Call).Reachable guard (s.created own) := by
  have hself : ∀ (t : StoreState Call) (new : CallState),
      (t.setCall c (some new)).calls c = some new :=
    fun t new => Function.update_self (f := t.calls) ..
  have hstamped := h.next (hother _ _ (by simp)) (@StoreStep.stamp Call _ s c own hidle hfresh)
  have hcopied := hstamped.next (hother _ _ (by simp)) (StoreStep.copy (hself ..))
  have hdescribed := hcopied.next (hother _ _ (by simp)) (StoreStep.describe (hself ..))
  have hinserted := hdescribed.next (hinsert _ rfl rfl)
    (@StoreStep.insert Call _ _ c own none _ _ (hself ..) (if_pos hroom))
  have hreleased := hinserted.next (hother _ _ (by simp)) (StoreStep.release (hself ..))
  have hreturned := hreleased.next (hother _ _ (by simp)) (StoreStep.return (hself ..))
  convert hreturned using 1
  rw [StoreState.created, StoreState.mk.injEq]
  refine ⟨rfl, rfl, rfl, ?_, rfl, ?_, rfl⟩
  · simp only [StoreState.setCall, Function.update_idem]
    rw [← hidle, Function.update_eq_self]
  · simp only [StoreState.setCall, Function.update_self]
    rfl

/-- A whole call whose record no rebuild has inserted. -/
theorem reachable_created_inStep
    (c : Call)
    (own : CheckpointRecord)
    (h : (checkpointStore Call).Reachable RebuildsInStep s)
    (hidle : s.calls c = none)
    (hfresh : own.checkpointId ∉ s.issued)
    (hguard : own.checkpointId ∉ s.indexed ∧ own.checkpointId ∉ s.dropped)
    (hroom : s.loadIndex.length < defaultCheckpointMax) :
    (checkpointStore Call).Reachable RebuildsInStep (s.created own) := by
  refine reachable_created c own h ?_ ?_ hidle hfresh hroom
  · intro t event hevent
    simp only [List.mem_cons, List.not_mem_nil, or_false] at hevent
    rcases hevent with rfl | rfl | rfl | rfl | rfl <;> trivial
  · intro t hindex hwrites
    rw [RebuildsInStep, StoreState.indexed, StoreState.loadIndex, StoreState.dropped, hindex,
      hwrites]
    exact hguard

end Consistency

/-- A record with an id and a stamp. -/
def recordOf (checkpointId createdAt : String) : CheckpointRecord where
  version := checkpointVersion
  checkpointId := checkpointId
  mode := .filesystemSnapshot
  root := "/r"
  createdAt := createdAt
  fileCount := 1

/-- A root without checkpoints. -/
def emptyStore : StoreState Bool :=
  ⟨none, fun _ => none, fun _ => false, fun _ => none, [], [], []⟩

/-- The checkpoint `a`. -/
def recordA : CheckpointRecord := recordOf "a" "2026-01-01T00:00:00+00:00"

/-- The checkpoint `b`, one second later. -/
def recordB : CheckpointRecord := recordOf "b" "2026-01-01T00:00:01+00:00"

theorem reachable_recordA :
    (checkpointStore Bool).Reachable RebuildsInStep (emptyStore.created recordA) :=
  reachable_created_inStep false recordA (.start rfl) rfl (by decide) ⟨by decide, by decide⟩ (by decide)

/-- A rebuild has listed the metadata of `a`. -/
theorem reachable_listed :
    (checkpointStore Bool).Reachable RebuildsInStep
      ((emptyStore.created recordA).setCall true (some (.scanning ["a"] []))) := by
  refine reachable_recordA.next (by trivial) (StoreStep.list rfl (List.pairwise_singleton _ _) ?_)
  intro name
  by_cases hname : name = "a"
  · subst hname
    exact iff_of_true List.mem_cons_self rfl
  · refine iff_of_false ?_ ?_
    · simpa using hname
    · change ¬ (Function.update (fun _ => none) "a" (some recordA.toMetadata) name).isSome
      rw [Function.update_of_ne hname]
      exact Bool.false_ne_true

/-- A checkpoint and a rebuild after it leave a consistent index. -/
theorem index_consistent_recordA :
    ∃ s : StoreState Bool, s.returned = ["a"] ∧ s.index = some [recordA] ∧
      IndexConsistent s := by
  have hread := reachable_listed.next (by trivial)
    (@StoreStep.read Bool _ _ true "a" [] [] recordA.toMetadata id "/r" rfl rfl)
  have hsorted := hread.next (by trivial) (@StoreStep.sort Bool _ _ true [recordA] rfl)
  have hwritten := hsorted.next (by exact ⟨by decide, by decide⟩)
    (@StoreStep.overwrite Bool _ _ true [recordA] rfl)
  exact ⟨_, rfl, by decide, index_consistent hwritten⟩

/-- A rebuild that has listed the metadata before `b` is created writes an index without
`b`. -/
theorem index_inconsistent :
    ∃ s : StoreState Bool, (checkpointStore Bool).Reachable (fun _ _ => True) s ∧
      (∀ c, s.calls c = none) ∧ ¬ IndexConsistent s := by
  have hcreated := (reachable_created_inStep false recordB reachable_listed rfl
    (by decide) ⟨by decide, by decide⟩ (by decide)).mono (fun _ _ _ => trivial)
  have hread := hcreated.next trivial
    (@StoreStep.read Bool _ _ true "a" [] [] recordA.toMetadata id "/r" rfl rfl)
  have hsorted := hread.next trivial (@StoreStep.sort Bool _ _ true [recordA] rfl)
  have hwritten := hsorted.next trivial (@StoreStep.overwrite Bool _ _ true [recordA] rfl)
  refine ⟨_, hwritten, by decide, ?_⟩
  intro h
  have hlost := h.once "b" (by decide) (by decide)
  revert hlost
  decide

end Checkpoint
end TensorGrep
