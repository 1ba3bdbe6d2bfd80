import TensorGrep.Checkpoint.Consistency

/-!
# The latest checkpoint

Calls that create checkpoints insert their records at the head of the index in
the order in which they get the lock; retention goes by `created_at`, and so does
the order of the list once it was cut.  `InsertsInOrder` says of an insertion that
the record stays and that the head of the list is the newest record afterwards.
-/

namespace TensorGrep
namespace Checkpoint

open Kernel

/-! ## One insertion -/

/-- Fewer records of the index are newer than the inserted one than the limit, and none is
where the limit is not exceeded. -/
def InOrder
    (records : List CheckpointRecord)
    (own : CheckpointRecord)
    (limit : Nat) : Prop :=
  records.countP (fun r => own.createdAt < r.createdAt) < limit ∧
    (records.length < limit → ∀ r ∈ records, r.createdAt ≤ own.createdAt)

/-- The record was written, its checkpoint is not scheduled for deletion, and its snapshot was
there. -/
def Retained (w : IndexWrite) : Prop :=
  w.own ∈ w.written ∧ w.own.checkpointId ∉ w.dropped ∧ w.snapshotThere = true

/-- The record that is inserted stays and the first record is the newest exactly when the
insertion is in order. -/
theorem inserted_iff
    {records : List CheckpointRecord}
    {own : CheckpointRecord}
    {limit : Nat}
    (hlimit : 0 < limit)
    (hnodup : ((own :: records).map CheckpointRecord.checkpointId).Nodup) :
    own ∈ (selectRetainedCheckpoints limit (own :: records)).1 ∧
        own.checkpointId ∉ (selectRetainedCheckpoints limit (own :: records)).2 ∧
        HeadNewest (selectRetainedCheckpoints limit (own :: records)).1 ↔
      InOrder records own limit := by
  rw [InOrder, headNewest_selectRetained, ← head_mem_selectRetained hlimit]
  constructor
  · rintro ⟨hmem, -, hnewest⟩
    exact ⟨hmem, hnewest⟩
  · rintro ⟨hmem, hnewest⟩
    refine ⟨hmem, ?_, hnewest⟩
    have hparts := (perm_selectRetained limit (own :: records)).nodup_iff.mpr hnodup
    intro hdropped
    exact (List.nodup_append.mp hparts).2.2 _ (List.mem_map_of_mem hmem) _ hdropped rfl

/-! ## The invariant -/

section Runs

variable {Call : Type} {s s' : StoreState Call} {c : Call}

/-- Only checkpoints are created, and every insertion is in order. -/
def InsertsInOrder (s : StoreState Call) : StoreEvent Call → Prop
  | .insert _ own limit => InOrder s.loadIndex own limit
  | .list _ => False
  | _ => True

/-- The checkpoint that a call has not inserted yet. -/
def CallState.pending : CallState → List String
  | .creating own _ => [own.checkpointId]
  | _ => []

/-- The checkpoints that a call may remove from now on, with what it does by itself. -/
def CallState.removable : CallState → List String
  | .indexed own dropped => own.checkpointId :: dropped
  | .pruning _ dropped => dropped
  | .removing own => [own.checkpointId]
  | _ => []

/-- The checkpoint of a call before its insertion is its own: no other call has it, no call may
remove it, and it is not in the index. -/
structure Apart (s : StoreState Call) : Prop where
  issued : ∀ c call, s.calls c = some call →
    ∀ id, id ∈ call.pending ∨ id ∈ call.removable → id ∈ s.issued
  indexed : ∀ id ∈ s.indexed, id ∈ s.issued
  distinct : ∀ c c' call call', s.calls c = some call → s.calls c' = some call' →
    ∀ id ∈ call.pending, id ∈ call'.pending → c = c'
  apart : ∀ c c' call call', s.calls c = some call → s.calls c' = some call' →
    ∀ id ∈ call.pending, id ∉ call'.removable
  fresh : ∀ c call, s.calls c = some call → ∀ id ∈ call.pending, id ∉ s.indexed

/-- What holds of a call when only checkpoints are created. -/
def CreateInv (s : StoreState Call) : CallState → Prop
  | .creating own progress => progress = .stamped ∨ s.snapshots own.checkpointId = true
  | .indexed own _ => ∃ w ∈ s.writes, w.own = own
  | .pruning own _ => ∃ w ∈ s.writes, w.own = own
  | .removing _ => True
  | .scanning _ _ => False
  | .overwriting _ => False

/-- What holds in every run that meets `InsertsInOrder`. -/
structure LatestInv (s : StoreState Call) : Prop where
  apart : Apart s
  nodup : s.indexed.Nodup
  calls : ∀ c call, s.calls c = some call → CreateInv s call
  returned : ∀ id ∈ s.returned, ∃ w ∈ s.writes, w.own.checkpointId = id
  retained : ∀ w ∈ s.writes, Retained w
  latest : HeadNewest s.loadIndex

variable [DecidableEq Call]

/-- A call goes on and keeps to what it had; at most its own checkpoint comes into the
index. -/
theorem Apart.advance
    {old : CallState}
    {new : Option CallState}
    (h : Apart s)
    (hold : s.calls c = some old)
    (hcalls : s'.calls = Function.update s.calls c new)
    (hissued : s'.issued = s.issued)
    (hpending : ∀ call, new = some call → ∀ id ∈ call.pending, id ∈ old.pending)
    (hremovable : ∀ call, new = some call → ∀ id ∈ call.removable,
      id ∈ old.pending ∨ id ∈ old.removable ∨ id ∈ s.indexed)
    (hone : ∀ call, new = some call → ∀ id ∈ call.pending, id ∉ call.removable)
    (hindexed : ∀ id ∈ s'.indexed, id ∈ s.indexed ∨
      id ∈ old.pending ∧ ∀ call, new = some call → call.pending = []) :
    Apart s' := by
  have hcases : ∀ c' call, s'.calls c' = some call →
      c' = c ∧ new = some call ∨ c' ≠ c ∧ s.calls c' = some call := by
    intro c' call hcall
    rw [hcalls] at hcall
    exact calls_setCall hcall
  have hissuedOld := h.issued c old hold
  refine ⟨?_, ?_, ?_, ?_, ?_⟩
  · intro c' call hcall id hid
    rw [hissued]
    rcases hcases c' call hcall with ⟨-, hnew⟩ | ⟨-, hcall⟩
    · rcases hid with hid | hid
      · exact hissuedOld id (Or.inl (hpending call hnew id hid))
      · rcases hremovable call hnew id hid with hid | hid | hid
        · exact hissuedOld id (Or.inl hid)
        · exact hissuedOld id (Or.inr hid)
        · exact h.indexed id hid
    · exact h.issued c' call hcall id hid
  · intro id hid
    rw [hissued]
    rcases hindexed id hid with hid | ⟨hid, -⟩
    · exact h.indexed id hid
    · exact hissuedOld id (Or.inl hid)
  · intro c₁ c₂ call₁ call₂ h₁ h₂ id hid₁ hid₂
    rcases hcases c₁ call₁ h₁ with ⟨rfl, hnew₁⟩ | ⟨hne₁, h₁⟩
    · rcases hcases c₂ call₂ h₂ with ⟨rfl, -⟩ | ⟨-, h₂⟩
      · rfl
      · exact h.distinct _ c₂ old call₂ hold h₂ id (hpending call₁ hnew₁ id hid₁) hid₂
    · rcases hcases c₂ call₂ h₂ with ⟨rfl, hnew₂⟩ | ⟨-, h₂⟩
      · exact h.distinct c₁ _ call₁ old h₁ hold id hid₁ (hpending call₂ hnew₂ id hid₂)
      · exact h.distinct c₁ c₂ call₁ call₂ h₁ h₂ id hid₁ hid₂
  · intro c₁ c₂ call₁ call₂ h₁ h₂ id hid₁ hid₂
    rcases hcases c₁ call₁ h₁ with ⟨rfl, hnew₁⟩ | ⟨hne₁, h₁⟩
    · rcases hcases c₂ call₂ h₂ with ⟨rfl, hnew₂⟩ | ⟨-, h₂⟩
      · rw [hnew₁] at hnew₂
        cases hnew₂
        exact hone call₁ hnew₁ id hid₁ hid₂
      · exact h.apart _ c₂ old call₂ hold h₂ id (hpending call₁ hnew₁ id hid₁) hid₂
    · rcases hcases c₂ call₂ h₂ with ⟨rfl, hnew₂⟩ | ⟨-, h₂⟩
      · rcases hremovable call₂ hnew₂ id hid₂ with hid | hid | hid
        · exact hne₁ (h.distinct c₁ _ call₁ old h₁ hold id hid₁ hid)
        · exact h.apart c₁ _ call₁ old h₁ hold id hid₁ hid
        · exact h.fresh c₁ call₁ h₁ id hid₁ hid
      · exact h.apart c₁ c₂ call₁ call₂ h₁ h₂ id hid₁ hid₂
  · intro c' call hcall id hid hin
    rcases hcases c' call hcall with ⟨-, hnew⟩ | ⟨hne, hcall⟩
    · rcases hindexed id hin with hin | ⟨-, hnone⟩
      · exact h.fresh c old hold id (hpending call hnew id hid) hin
      · rw [hnone call hnew] at hid
        cases hid
    · rcases hindexed id hin with hin | ⟨hin, -⟩
      · exact h.fresh c' call hcall id hid hin
      · exact hne (h.distinct c' c call old hcall hold id hid hin)

/-- A call begins with a new checkpoint. -/
theorem Apart.stamp
    {own : CheckpointRecord}
    (h : Apart s)
    (hfresh : own.checkpointId ∉ s.issued) :
    Apart { s.setCall c (some (.creating own .stamped)) with
      issued := own.checkpointId :: s.issued } := by
  have hcases : ∀ c' call, (s.setCall c (some (.creating own .stamped))).calls c' = some call →
      c' = c ∧ call = .creating own .stamped ∨ c' ≠ c ∧ s.calls c' = some call := by
    intro c' call hcall
    exact (calls_setCall hcall).imp_left fun ⟨hc, hsome⟩ => ⟨hc, (Option.some.inj hsome).symm⟩
  refine ⟨?_, fun id hid => List.mem_cons_of_mem _ (h.indexed id hid), ?_, ?_, ?_⟩
  · intro c' call hcall id hid
    rcases hcases c' call hcall with ⟨-, rfl⟩ | ⟨-, hcall⟩
    · rcases hid with hid | hid
      · rw [List.mem_singleton.mp hid]
        exact List.mem_cons_self
      · cases hid
    · exact List.mem_cons_of_mem _ (h.issued c' call hcall id hid)
  · intro c₁ c₂ call₁ call₂ h₁ h₂ id hid₁ hid₂
    rcases hcases c₁ call₁ h₁ with ⟨rfl, rfl⟩ | ⟨-, h₁⟩
    · rcases hcases c₂ call₂ h₂ with ⟨rfl, -⟩ | ⟨-, h₂⟩
      · rfl
      · rw [List.mem_singleton.mp hid₁] at hid₂
        exact absurd (h.issued c₂ call₂ h₂ _ (Or.inl hid₂)) hfresh
    · rcases hcases c₂ call₂ h₂ with ⟨-, rfl⟩ | ⟨-, h₂⟩
      · rw [List.mem_singleton.mp hid₂] at hid₁
        exact absurd (h.issued c₁ call₁ h₁ _ (Or.inl hid₁)) hfresh
      · exact h.distinct c₁ c₂ call₁ call₂ h₁ h₂ id hid₁ hid₂
  · intro c₁ c₂ call₁ call₂ h₁ h₂ id hid₁ hid₂
    rcases hcases c₂ call₂ h₂ with ⟨-, rfl⟩ | ⟨-, h₂⟩
    · cases hid₂
    · rcases hcases c₁ call₁ h₁ with ⟨-, rfl⟩ | ⟨-, h₁⟩
      · rw [List.mem_singleton.mp hid₁] at hid₂
        exact hfresh (h.issued c₂ call₂ h₂ _ (Or.inr hid₂))
      · exact h.apart c₁ c₂ call₁ call₂ h₁ h₂ id hid₁ hid₂
  · intro c' call hcall id hid hin
    rcases hcases c' call hcall with ⟨-, rfl⟩ | ⟨-, hcall⟩
    · rw [List.mem_singleton.mp hid] at hin
      exact hfresh (h.indexed _ hin)
    · exact h.fresh c' call hcall id hid hin

omit [DecidableEq Call] in
/-- What a call may be removing is what it may remove. -/
theorem CallState.removes.removable
    {call : CallState}
    {name : String}
    (h : call.removes name) :
    name ∈ call.removable := by
  cases call with
  | pruning own dropped => exact List.mem_of_mem_head? h
  | removing own =>
      rw [CallState.removes] at h
      exact List.mem_singleton.mpr h
  | creating own progress => exact h.elim
  | indexed own dropped => exact h.elim
  | scanning names records => exact h.elim
  | overwriting records => exact h.elim

/-- A step in which one call goes on with what it had, and the index stays. -/
theorem LatestInv.advance
    {old : CallState}
    (h : LatestInv s)
    (new : Option CallState)
    (hold : s.calls c = some old)
    (hpending : ∀ call, new = some call → ∀ id ∈ call.pending, id ∈ old.pending)
    (hremovable : ∀ call, new = some call → ∀ id ∈ call.removable,
      id ∈ old.pending ∨ id ∈ old.removable)
    (hone : ∀ call, new = some call → ∀ id ∈ call.pending, id ∉ call.removable)
    (hnew : ∀ call, new = some call → CreateInv s call) :
    LatestInv (s.setCall c new) where
  apart := h.apart.advance hold rfl rfl hpending
    (fun call hcall id hid => (hremovable call hcall id hid).imp_right Or.inl) hone
    (fun _ hid => Or.inl hid)
  nodup := h.nodup
  calls := by
    intro c' call hcall
    rcases calls_setCall hcall with ⟨-, hsome⟩ | ⟨-, hcall⟩
    · exact hnew call hsome
    · exact h.calls c' call hcall
  returned := h.returned
  retained := h.retained
  latest := h.latest

omit [DecidableEq Call] in
/-- More writes and more snapshots keep what holds of a call. -/
theorem CreateInv.mono
    {call : CallState}
    (hwrites : ∀ w ∈ s.writes, w ∈ s'.writes)
    (hsnapshots : ∀ id ∈ call.pending, s.snapshots id = true → s'.snapshots id = true)
    (h : CreateInv s call) :
    CreateInv s' call := by
  cases call with
  | creating own progress => exact h.imp_right (hsnapshots _ List.mem_cons_self)
  | indexed own dropped => exact h.imp fun w hw => ⟨hwrites w hw.1, hw.2⟩
  | pruning own dropped => exact h.imp fun w hw => ⟨hwrites w hw.1, hw.2⟩
  | removing own => trivial
  | scanning names records => exact h
  | overwriting records => exact h

/-- An insertion in order. -/
theorem latest_insert
    {own : CheckpointRecord}
    {limit : Nat}
    {w : IndexWrite}
    (h : LatestInv s)
    (hcall : s.calls c = some (.creating own .described))
    (hlimit : 0 < limit)
    (horder : InOrder s.loadIndex own limit)
    (hown : w.own = own)
    (hthere : w.snapshotThere = s.snapshots own.checkpointId)
    (hselect : selectRetainedCheckpoints limit (own :: s.loadIndex) = (w.written, w.dropped)) :
    LatestInv { s.setCall c (some (.indexed own w.dropped)) with
      index := some w.written
      writes := s.writes ++ [w] } := by
  have hperm := perm_selectRetained limit (own :: s.loadIndex)
  have hfresh : own.checkpointId ∉ s.indexed := h.apart.fresh c _ hcall _ List.mem_cons_self
  have hnodup : ((own :: s.loadIndex).map CheckpointRecord.checkpointId).Nodup :=
    List.nodup_cons.mpr ⟨hfresh, h.nodup⟩
  obtain ⟨hmem, hkept, hnewest⟩ := (inserted_iff hlimit hnodup).mpr horder
  rw [hselect] at hperm hmem hkept hnewest
  dsimp only at hperm hmem hkept hnewest
  have hids : ∀ id, id ∈ w.written.map CheckpointRecord.checkpointId ∨ id ∈ w.dropped →
      id = own.checkpointId ∨ id ∈ s.indexed := by
    intro id hid
    exact List.mem_cons.mp (hperm.mem_iff.mp (List.mem_append.mpr hid))
  refine ⟨?_, ?_, ?_, ?_, ?_, hnewest⟩
  · refine h.apart.advance hcall rfl rfl ?_ ?_ ?_ ?_
    · rintro _ ⟨⟩ id hid
      cases hid
    · rintro _ ⟨⟩ id hid
      rcases List.mem_cons.mp hid with rfl | hid
      · exact Or.inl List.mem_cons_self
      · rcases hids id (Or.inr hid) with rfl | hid
        · exact Or.inl List.mem_cons_self
        · exact Or.inr (Or.inr hid)
    · rintro _ ⟨⟩ id hid
      cases hid
    · intro id hid
      rcases hids id (Or.inl hid) with rfl | hid
      · exact Or.inr ⟨List.mem_cons_self, by rintro _ ⟨⟩; rfl⟩
      · exact Or.inl hid
  · exact (List.nodup_append.mp (hperm.nodup_iff.mpr hnodup)).1
  · intro c' call hcall'
    rcases calls_setCall hcall' with ⟨-, hsome⟩ | ⟨-, hcall'⟩
    · cases hsome
      exact ⟨w, List.mem_append_right _ List.mem_cons_self, hown⟩
    · exact (h.calls c' call hcall').mono (fun w hw => List.mem_append_left _ hw)
        (fun _ _ hthere => hthere)
  · intro id hid
    obtain ⟨w', hw', hsame⟩ := h.returned id hid
    exact ⟨w', List.mem_append_left _ hw', hsame⟩
  · intro w' hw'
    rcases List.mem_append.mp hw' with hw' | hw'
    · exact h.retained w' hw'
    · rw [List.mem_singleton.mp hw', Retained, hown, hthere]
      exact ⟨hmem, hkept, (h.calls c _ hcall).resolve_left CreateProgress.noConfusion⟩

theorem latest_step
    {event : StoreEvent Call}
    (h : LatestInv s)
    (hguard : InsertsInOrder s event)
    (hstep : StoreStep s event s') :
    LatestInv s' := by
  cases hstep with
  | @stamp c own hidle hfresh =>
      refine ⟨h.apart.stamp hfresh, h.nodup, ?_, h.returned, h.retained, h.latest⟩
      intro c' call hcall
      rcases calls_setCall hcall with ⟨-, hsome⟩ | ⟨-, hcall⟩
      · cases hsome
        exact Or.inl rfl
      · exact h.calls c' call hcall
  | @copy c own hcall =>
      have hpending : ∀ call, some (CallState.creating own .copied) = some call →
          ∀ id ∈ call.pending, id ∈ (CallState.creating own .stamped).pending := by
        rintro _ ⟨⟩ id hid
        exact hid
      refine ⟨h.apart.advance hcall rfl rfl hpending ?_ ?_ (fun _ hid => Or.inl hid), h.nodup, ?_,
        h.returned, h.retained, h.latest⟩
      · rintro _ ⟨⟩ id hid
        cases hid
      · rintro _ ⟨⟩ id - hid
        cases hid
      · intro c' call hcall'
        rcases calls_setCall hcall' with ⟨-, hsome⟩ | ⟨-, hcall'⟩
        · cases hsome
          exact Or.inr (Function.update_self ..)
        · refine CreateInv.mono (s := s) (fun w hw => hw) ?_ (h.calls c' call hcall')
          intro id _ hthere
          change Function.update s.snapshots own.checkpointId true id = true
          by_cases hid : id = own.checkpointId
          · rw [hid, Function.update_self]
          · rw [Function.update_of_ne hid, hthere]
  | @describe c own hcall =>
      have hthere := (h.calls c _ hcall).resolve_left CreateProgress.noConfusion
      have := h.advance (some (.creating own .described)) hcall
        (by rintro _ ⟨⟩ id hid; exact hid) (by rintro _ ⟨⟩ id hid; cases hid)
        (by rintro _ ⟨⟩ id - hid; cases hid) (by rintro _ ⟨⟩; exact Or.inr hthere)
      exact ⟨⟨this.apart.issued, this.apart.indexed, this.apart.distinct, this.apart.apart,
        this.apart.fresh⟩, this.nodup, this.calls, this.returned, this.retained, this.latest⟩
  | @insert c own raw written dropped hcall hselect =>
      exact latest_insert
        (w := ⟨own, s.loadIndex, written, dropped, s.snapshots own.checkpointId⟩) h hcall
        (configuredCheckpointMax_pos raw) hguard rfl rfl hselect
  | @release c own dropped hcall =>
      have hwritten := h.calls c _ hcall
      exact h.advance _ hcall (by rintro _ ⟨⟩ id hid; exact hid)
        (by rintro _ ⟨⟩ id hid; exact Or.inr (List.mem_cons_of_mem _ hid))
        (by rintro _ ⟨⟩ id hid; cases hid) (by rintro _ ⟨⟩; exact hwritten)
  | removeMetadata hcall hremoves =>
      exact ⟨⟨h.apart.issued, h.apart.indexed, h.apart.distinct, h.apart.apart, h.apart.fresh⟩,
        h.nodup, h.calls, h.returned, h.retained, h.latest⟩
  | @removeSnapshot c call name hcall hremoves =>
      refine ⟨⟨h.apart.issued, h.apart.indexed, h.apart.distinct, h.apart.apart, h.apart.fresh⟩,
        h.nodup, ?_, h.returned, h.retained, h.latest⟩
      intro c' call' hcall'
      refine CreateInv.mono (s := s) (fun w hw => hw) ?_ (h.calls c' call' hcall')
      intro id hid hthere
      have hne : id ≠ name := by
        rintro rfl
        exact h.apart.apart c' c call' call hcall' hcall id hid hremoves.removable
      exact (Function.update_of_ne hne ..).trans hthere
  | @nextDropped c own name dropped hcall =>
      have hwritten := h.calls c _ hcall
      exact h.advance _ hcall (by rintro _ ⟨⟩ id hid; exact hid)
        (by rintro _ ⟨⟩ id hid; exact Or.inr (List.mem_cons_of_mem _ hid))
        (by rintro _ ⟨⟩ id hid; cases hid) (by rintro _ ⟨⟩; exact hwritten)
  | @«return» c own hcall =>
      obtain ⟨w, hw, hown⟩ := h.calls c _ hcall
      have := h.advance none hcall (by rintro _ ⟨⟩) (by rintro _ ⟨⟩) (by rintro _ ⟨⟩)
        (by rintro _ ⟨⟩)
      refine ⟨⟨this.apart.issued, this.apart.indexed, this.apart.distinct, this.apart.apart,
        this.apart.fresh⟩, this.nodup, this.calls, ?_, this.retained, this.latest⟩
      intro id hid
      rcases List.mem_cons.mp hid with rfl | hid
      · exact ⟨w, hw, congrArg _ hown⟩
      · exact h.returned id hid
  | @fail c call own hcall hguarded =>
      have hremovable : own.checkpointId ∈ call.pending ∨ own.checkpointId ∈ call.removable := by
        cases call with
        | creating own' progress =>
            cases hguarded
            exact Or.inl List.mem_cons_self
        | indexed own' dropped =>
            cases hguarded
            exact Or.inr List.mem_cons_self
        | pruning own' dropped => exact hguarded.elim
        | removing own' => exact hguarded.elim
        | scanning names records => exact hguarded.elim
        | overwriting records => exact hguarded.elim
      exact h.advance _ hcall (by rintro _ ⟨⟩ id hid; cases hid)
        (by rintro _ ⟨⟩ id hid; rw [List.mem_singleton.mp hid]; exact hremovable)
        (by rintro _ ⟨⟩ id hid; cases hid) (by rintro _ ⟨⟩; trivial)
  | list hidle hsorted hnames => exact hguard.elim
  | read hcall hpayload => exact (h.calls _ _ hcall).elim
  | skip hcall => exact (h.calls _ _ hcall).elim
  | sort hcall => exact (h.calls _ _ hcall).elim
  | overwrite hcall => exact (h.calls _ _ hcall).elim
  | @stop c =>
      cases hcall : s.calls c with
      | none =>
          have hsame : s.setCall c none = s := by
            rw [StoreState.setCall, ← hcall, Function.update_eq_self]
          rw [hsame]
          exact h
      | some call =>
          exact h.advance _ hcall (by rintro _ ⟨⟩) (by rintro _ ⟨⟩) (by rintro _ ⟨⟩)
            (by rintro _ ⟨⟩)

theorem latest_reachable
    (h : (checkpointStore Call).Reachable InsertsInOrder s) :
    LatestInv s := by
  refine h.invariant (P := LatestInv) ?_ (fun _ _ _ hinv hguard hstep =>
    latest_step hinv hguard hstep)
  rintro s rfl
  refine ⟨⟨?_, ?_, ?_, ?_, ?_⟩, List.nodup_nil, ?_, ?_, ?_, ?_⟩
  · intro c call hcall
    cases hcall
  · intro id hid
    cases hid
  · intro c c' call call' hcall
    cases hcall
  · intro c c' call call' hcall
    cases hcall
  · intro c call hcall
    cases hcall
  · intro c call hcall
    cases hcall
  · intro id hid
    cases hid
  · intro w hw
    cases hw
  · intro r hr
    cases hr

/-- In every run in which checkpoints are created and every insertion is in order, a call that
has returned wrote its record into the index while its snapshot was there and did not schedule
it for deletion; and what `resolve_latest_checkpoint` answers is the newest record of its
index.  For a single insertion the order is necessary, too. -/
theorem created_retained_latest :
    (∀ s, (checkpointStore Call).Reachable InsertsInOrder s → ∀ id ∈ s.returned,
      ∃ w ∈ s.writes, w.own.checkpointId = id ∧ Retained w) ∧
    (∀ scope discovered result,
      (∀ d ∈ scope :: discovered, ∃ s, (checkpointStore Call).Reachable InsertsInOrder s ∧
        d.checkpoints = s.loadIndex) →
      resolveLatestCheckpoint scope discovered = .ok result →
      ∃ d ∈ scope :: discovered, ∃ r ∈ d.checkpoints, r.checkpointId = result.checkpointId ∧
        ∀ r' ∈ d.checkpoints, r'.createdAt ≤ r.createdAt) ∧
    ∀ (records : List CheckpointRecord) (own : CheckpointRecord) (limit : Nat), 0 < limit →
      ((own :: records).map CheckpointRecord.checkpointId).Nodup →
      (own ∈ (selectRetainedCheckpoints limit (own :: records)).1 ∧
          own.checkpointId ∉ (selectRetainedCheckpoints limit (own :: records)).2 ∧
          HeadNewest (selectRetainedCheckpoints limit (own :: records)).1 ↔
        InOrder records own limit) := by
  refine ⟨?_, ?_, fun records own limit hlimit hnodup => inserted_iff hlimit hnodup⟩
  · intro s hs id hid
    have hinv := latest_reachable hs
    obtain ⟨w, hw, hsame⟩ := hinv.returned id hid
    exact ⟨w, hw, hsame, hinv.retained w hw⟩
  · intro scope discovered result hscopes hresolve
    obtain ⟨d, hd, r, hr, rfl⟩ := resolveLatest_eq_ok hresolve
    obtain ⟨s, hs, hrecords⟩ := hscopes d hd
    refine ⟨d, hd, r, List.mem_of_mem_head? hr, rfl, ?_⟩
    have hlatest := (latest_reachable hs).latest
    rw [← hrecords] at hlatest
    exact hlatest r hr

end Runs

/-! ## Schedules -/

/-- No index is rebuilt. -/
def OnlyCreates : StoreEvent Bool → Prop
  | .list _ => False
  | _ => True

/-- A checkpoint that is created, found and is the latest. -/
theorem created_retained_latest_recordA :
    (∃ w ∈ (emptyStore.created recordA).writes, w.own.checkpointId = "a" ∧ Retained w) ∧
    (∃ d ∈ [CheckpointScopeResult.mk "/r" .filesystemSnapshot [recordA]], ∃ r ∈ d.checkpoints,
      r.checkpointId = "a" ∧ ∀ r' ∈ d.checkpoints, r'.createdAt ≤ r.createdAt) ∧
    InOrder [] recordA 1 := by
  have hrun : (checkpointStore Bool).Reachable InsertsInOrder (emptyStore.created recordA) := by
    refine reachable_created false recordA (.start rfl) ?_ ?_ rfl (by decide) (by decide)
    · intro t event hevent
      simp only [List.mem_cons, List.not_mem_nil, or_false] at hevent
      rcases hevent with rfl | rfl | rfl | rfl | rfl <;> trivial
    · intro t hindex hwrites
      rw [InsertsInOrder, StoreState.loadIndex, hindex]
      exact ⟨by decide, by decide⟩
  have hall := @created_retained_latest Bool _
  refine ⟨hall.1 _ hrun "a" (by decide), ?_, ?_⟩
  · refine hall.2.1 ⟨"/r", .filesystemSnapshot, [recordA]⟩ []
      ⟨"a", "/r", .filesystemSnapshot⟩ ?_ rfl
    intro d hd
    exact ⟨_, hrun, by rw [List.mem_singleton.mp hd]; rfl⟩
  · exact (hall.2.2 [] recordA 1 (by decide) (by decide)).mp ⟨by decide, by decide,
      by intro r hr r' hr'; cases hr; rw [List.mem_singleton.mp hr']⟩

/-- `a` was stamped first, and `b` was inserted while its call copied the files. -/
theorem reachable_late :
    ∃ s : StoreState Bool, (checkpointStore Bool).Reachable (fun _ e => OnlyCreates e) s ∧
      s.calls true = some (.creating recordA .described) ∧ s.calls false = none ∧
      s.index = some [recordB] ∧ s.writes = [⟨recordB, [], [recordB], [], true⟩] := by
  have hstart : (checkpointStore Bool).Reachable (fun _ e => OnlyCreates e) emptyStore :=
    .start rfl
  have hstamped := hstart.next (by trivial)
    (@StoreStep.stamp Bool _ emptyStore true recordA rfl (by decide))
  have hcreated := reachable_created false recordB hstamped
    (by
      intro t event hevent
      simp only [List.mem_cons, List.not_mem_nil, or_false] at hevent
      rcases hevent with rfl | rfl | rfl | rfl | rfl <;> trivial)
    (fun _ _ _ => trivial) rfl (by decide) (by decide)
  have hcopied := hcreated.next (by trivial) (@StoreStep.copy Bool _ _ true recordA rfl)
  have hdescribed := hcopied.next (by trivial) (@StoreStep.describe Bool _ _ true recordA rfl)
  exact ⟨_, hdescribed, rfl, rfl, rfl, rfl⟩

/-- With a limit of one checkpoint, the call that was stamped first and inserts last drops its
own checkpoint; without, it makes it the latest. -/
theorem created_dropped_or_first :
    (∃ s : StoreState Bool, (checkpointStore Bool).Reachable (fun _ e => OnlyCreates e) s ∧
      ∃ id ∈ s.returned, ∀ w ∈ s.writes, w.own.checkpointId = id → ¬ Retained w) ∧
    ∃ s : StoreState Bool, (checkpointStore Bool).Reachable (fun _ e => OnlyCreates e) s ∧
      (∀ c, s.calls c = none) ∧
      ∃ result, resolveLatestCheckpoint ⟨"/r", .filesystemSnapshot, s.loadIndex⟩ [] = .ok result ∧
        ∀ r ∈ s.loadIndex, r.checkpointId = result.checkpointId →
          ∃ r' ∈ s.loadIndex, r.createdAt < r'.createdAt := by
  obtain ⟨s, hs, hcall, hidle, hindex, hwrites⟩ := reachable_late
  have hload : s.loadIndex = [recordB] := by
    rw [StoreState.loadIndex, hindex]
    rfl
  constructor
  · have hinserted := hs.next (by trivial) (@StoreStep.insert Bool _ s true recordA
      (some 1) [recordB] ["a"] hcall (by rw [hload]; decide))
    have hreleased := hinserted.next (by trivial)
      (@StoreStep.release Bool _ _ true recordA ["a"] rfl)
    have hnext := hreleased.next (by trivial)
      (@StoreStep.nextDropped Bool _ _ true recordA "a" [] rfl)
    have hreturned := hnext.next (by trivial) (@StoreStep.return Bool _ _ true recordA rfl)
    refine ⟨_, hreturned, "a", List.mem_cons_self, ?_⟩
    intro w hw hid hretained
    change w ∈ s.writes ++ _ at hw
    rw [hwrites] at hw
    rcases List.mem_append.mp hw with hw | hw
    · rw [List.mem_singleton.mp hw] at hid
      exact absurd hid (by decide)
    · rw [List.mem_singleton.mp hw] at hretained
      have hlost : recordA ∈ [recordB] := hretained.1
      revert hlost
      decide
  · have hinserted := hs.next (by trivial) (@StoreStep.insert Bool _ s true recordA
      none [recordA, recordB] [] hcall (by rw [hload]; decide))
    have hreleased := hinserted.next (by trivial)
      (@StoreStep.release Bool _ _ true recordA [] rfl)
    have hreturned := hreleased.next (by trivial) (@StoreStep.return Bool _ _ true recordA rfl)
    refine ⟨_, hreturned, ?_, ⟨"a", "/r", .filesystemSnapshot⟩, rfl, ?_⟩
    · intro c
      cases c with
      | false => exact hidle
      | true => rfl
    · intro r hr hid
      refine ⟨recordB, List.mem_cons_of_mem _ List.mem_cons_self, ?_⟩
      rcases List.mem_cons.mp hr with rfl | hr
      · decide
      · rw [List.mem_singleton.mp hr] at hid
        exact absurd hid (by decide)

end Checkpoint
end TensorGrep
