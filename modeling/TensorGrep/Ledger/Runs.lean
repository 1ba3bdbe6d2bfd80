import TensorGrep.Kernel.StepSystem
import TensorGrep.Ledger.Overlaps

/-!
# Runs of the claims ledger

Any number of calls are under way at once.  A call takes its time stamp and
prepares its claim before it asks for the lock; what it does under the lock is
one step.  Between the two, the clock moves on and other calls have their turn,
so a stamp can be older than the entries that the call finds.

`LedgerInv` holds in every run that starts without an index: the entries are
those of submitted claims that have not been released, each once, and a claim
that is neither released nor evicted nor expired is among them.
-/

namespace TensorGrep
namespace Ledger

open Kernel

/-! ## Steps -/

/-- A call that waits for the lock. -/
inductive Pending where
  | submit (record : ClaimRecord)
  | release (call : ReleaseCall)

/-- A ledger with its calls.  `issued` are the ids that have been given out; `submits` are the
submissions that have had the lock, with what each did; `released` are the ids of the claims
that a release has removed. -/
structure LedgerState (Call : Type) where
  clock : Nat
  file : IndexFile
  pending : Call → Option Pending
  issued : List String
  submits : List (ClaimRecord × SubmitResult)
  released : List String

/-- The ids of the claims that the cap has evicted. -/
def LedgerState.evicted
    {Call : Type}
    (s : LedgerState Call) : List String :=
  s.submits.flatMap fun w => w.2.dropped.filterMap ClaimEntry.claimId

/-- What can happen. -/
inductive LedgerEvent (Call : Type) where
  | tick (now : Nat)
  | beginSubmit (c : Call) (record : ClaimRecord)
  | submit (c : Call) (record : ClaimRecord) (result : SubmitResult)
  | beginRelease (c : Call) (call : ReleaseCall)
  | release (c : Call) (call : ReleaseCall) (result : ReleaseResult)
  | abandon (c : Call)
  | list (shown : List ClaimEntry)

section Steps

variable {Call : Type} [DecidableEq Call]

/-- The effect of an event.  New ids are fresh.  A call is abandoned when it does not get the
lock, cannot read the index or cannot write it. -/
inductive LedgerStep : LedgerState Call → LedgerEvent Call → LedgerState Call → Prop
  | tick {s : LedgerState Call} {now : Nat} :
      s.clock ≤ now →
      LedgerStep s (.tick now) { s with clock := now }
  | beginSubmit {s : LedgerState Call} {c : Call} {ctx : SubmitContext} {args : SubmitArgs}
      {record : ClaimRecord} :
      s.pending c = none →
      ctx.now = s.clock →
      ctx.claimId ∉ s.issued →
      prepareClaim ctx args = .ok record →
      LedgerStep s (.beginSubmit c record)
        { s with
          pending := Function.update s.pending c (some (.submit record))
          issued := record.claimId :: s.issued }
  | submit {s : LedgerState Call} {c : Call} {record : ClaimRecord} {result : SubmitResult}
      {size : Nat} :
      s.pending c = some (.submit record) →
      submitLocked s.file record = .ok result →
      LedgerStep s (.submit c record result)
        { s with
          file := .entries size result.written
          pending := Function.update s.pending c none
          submits := s.submits ++ [(record, result)] }
  | beginRelease {s : LedgerState Call} {c : Call} {env : Environment}
      {claimId symbol agentId : Option String} {call : ReleaseCall} :
      s.pending c = none →
      prepareRelease env claimId symbol agentId s.clock = .ok call →
      LedgerStep s (.beginRelease c call)
        { s with pending := Function.update s.pending c (some (.release call)) }
  | release {s : LedgerState Call} {c : Call} {call : ReleaseCall} {result : ReleaseResult}
      {size : Nat} :
      s.pending c = some (.release call) →
      releaseLocked s.file call = .ok result →
      LedgerStep s (.release c call result)
        { s with
          file := (result.written.map (IndexFile.entries size)).getD s.file
          pending := Function.update s.pending c none
          released := result.released.filterMap ClaimEntry.claimId ++ s.released }
  | abandon {s : LedgerState Call} {c : Call} :
      LedgerStep s (.abandon c) { s with pending := Function.update s.pending c none }
  | list {s : LedgerState Call} {scope : String} {symbol agentId : Option String}
      {shown : List ClaimEntry} :
      listClaims s.file s.clock scope symbol agentId = .ok shown →
      LedgerStep s (.list shown) s

/-- The ledger, from index files that satisfy `start` and with no call under way. -/
def claimsLedger
    (Call : Type)
    [DecidableEq Call]
    (start : IndexFile → Prop) : StepSystem (LedgerState Call) (LedgerEvent Call) where
  init s := start s.file ∧ (∀ c, s.pending c = none) ∧ s.issued = [] ∧ s.submits = [] ∧
    s.released = []
  step := LedgerStep

/-! ## The invariant -/

/-- What holds in every run that starts without an index. -/
structure LedgerInv (s : LedgerState Call) : Prop where
  submitStamp : ∀ c r, s.pending c = some (.submit r) → r.createdAt ≤ s.clock
  releaseStamp : ∀ c call, s.pending c = some (.release call) → call.now ≤ s.clock
  pendingIssued : ∀ c r, s.pending c = some (.submit r) → r.claimId ∈ s.issued
  pendingDistinct : ∀ c c' r r', s.pending c = some (.submit r) →
    s.pending c' = some (.submit r') → r.claimId = r'.claimId → c = c'
  submittedIssued : ∀ w ∈ s.submits, w.1.claimId ∈ s.issued
  submittedDone : ∀ w ∈ s.submits, ∀ c r, s.pending c = some (.submit r) →
    w.1.claimId ≠ r.claimId
  distinct : (s.submits.map fun w => w.1.claimId).Nodup
  releasedSubmitted : ∀ id ∈ s.released, ∃ w ∈ s.submits, w.1.claimId = id
  known : ∀ e ∈ s.file.records, ∃ w ∈ s.submits, e = w.1.toEntry ∧ w.1.claimId ∉ s.released
  nodup : (s.file.records.map ClaimEntry.claimId).Nodup
  kept : ∀ w ∈ s.submits, w.1.claimId ∉ s.released → w.1.claimId ∉ s.evicted →
    s.clock < w.1.expiresAt → w.1.toEntry ∈ s.file.records

/-! ## One step at a time -/

variable {s s' : LedgerState Call} {c : Call} {record : ClaimRecord} {result : SubmitResult}

omit [DecidableEq Call] in
/-- A prepared claim has the id and the stamp of its call. -/
theorem prepareClaim_eq_ok
    {ctx : SubmitContext}
    {args : SubmitArgs}
    (h : prepareClaim ctx args = .ok record) :
    record.claimId = ctx.claimId ∧ record.createdAt = ctx.now := by
  rw [prepareClaim] at h
  dsimp only at h
  rw [bind_eq_ok_iff] at h
  obtain ⟨normalized, -, h⟩ := h
  split at h
  · cases h
  · split at h
    · cases h
    · cases h
      exact ⟨rfl, rfl⟩

/-- Of the calls that wait after one has stopped waiting, all waited before. -/
theorem pending_of_update_none
    {pending : Call → Option Pending}
    {c' : Call}
    {p : Pending}
    (h : Function.update pending c none c' = some p) :
    c' ≠ c ∧ pending c' = some p := by
  rcases eq_or_of_update h with ⟨-, hnone⟩ | hold
  · cases hnone
  · exact hold

theorem inv_abandon
    (h : LedgerInv s)
    (c : Call) :
    LedgerInv { s with pending := Function.update s.pending c none } where
  submitStamp := fun c' r hc => h.submitStamp c' r (pending_of_update_none hc).2
  releaseStamp := fun c' call hc => h.releaseStamp c' call (pending_of_update_none hc).2
  pendingIssued := fun c' r hc => h.pendingIssued c' r (pending_of_update_none hc).2
  pendingDistinct := fun c₁ c₂ r₁ r₂ h₁ h₂ => h.pendingDistinct c₁ c₂ r₁ r₂
    (pending_of_update_none h₁).2 (pending_of_update_none h₂).2
  submittedIssued := h.submittedIssued
  submittedDone := fun w hw c' r hc => h.submittedDone w hw c' r (pending_of_update_none hc).2
  distinct := h.distinct
  releasedSubmitted := h.releasedSubmitted
  known := h.known
  nodup := h.nodup
  kept := h.kept

/-- Of the calls that wait after one has begun, the others waited before. -/
theorem pending_of_update_some
    {pending : Call → Option Pending}
    {c' : Call}
    {p p' : Pending}
    (h : Function.update pending c (some p') c' = some p) :
    c' = c ∧ p = p' ∨ c' ≠ c ∧ pending c' = some p := by
  rcases eq_or_of_update h with ⟨rfl, hsome⟩ | hold
  · exact Or.inl ⟨rfl, (Option.some.inj hsome).symm⟩
  · exact Or.inr hold

theorem inv_beginSubmit
    (h : LedgerInv s)
    (hstamp : record.createdAt = s.clock)
    (hfresh : record.claimId ∉ s.issued) :
    LedgerInv { s with
      pending := Function.update s.pending c (some (.submit record))
      issued := record.claimId :: s.issued } := by
  refine ⟨?_, ?_, ?_, ?_, ?_, ?_, h.distinct, h.releasedSubmitted, h.known, h.nodup, h.kept⟩
  · intro c' r hc
    rcases pending_of_update_some hc with ⟨-, hp⟩ | ⟨-, hp⟩
    · cases hp
      exact hstamp.le
    · exact h.submitStamp c' r hp
  · intro c' call hc
    rcases pending_of_update_some hc with ⟨-, hp⟩ | ⟨-, hp⟩
    · cases hp
    · exact h.releaseStamp c' call hp
  · intro c' r hc
    rcases pending_of_update_some hc with ⟨-, hp⟩ | ⟨-, hp⟩
    · cases hp
      exact List.mem_cons_self
    · exact List.mem_cons_of_mem _ (h.pendingIssued c' r hp)
  · intro c₁ c₂ r₁ r₂ h₁ h₂ hid
    rcases pending_of_update_some h₁ with ⟨rfl, hp₁⟩ | ⟨-, hp₁⟩
    · rcases pending_of_update_some h₂ with ⟨rfl, -⟩ | ⟨-, hp₂⟩
      · rfl
      · cases hp₁
        exact absurd (hid ▸ h.pendingIssued c₂ r₂ hp₂) hfresh
    · rcases pending_of_update_some h₂ with ⟨rfl, hp₂⟩ | ⟨-, hp₂⟩
      · cases hp₂
        exact absurd (hid ▸ h.pendingIssued c₁ r₁ hp₁) hfresh
      · exact h.pendingDistinct c₁ c₂ r₁ r₂ hp₁ hp₂ hid
  · intro w hw
    exact List.mem_cons_of_mem _ (h.submittedIssued w hw)
  · intro w hw c' r hc
    rcases pending_of_update_some hc with ⟨-, hp⟩ | ⟨-, hp⟩
    · cases hp
      intro hid
      exact hfresh (hid ▸ h.submittedIssued w hw)
    · exact h.submittedDone w hw c' r hp

theorem inv_beginRelease
    {call : ReleaseCall}
    (h : LedgerInv s)
    (hstamp : call.now = s.clock) :
    LedgerInv { s with pending := Function.update s.pending c (some (.release call)) } := by
  have hsubmit : ∀ c' r, Function.update s.pending c (some (.release call)) c' =
      some (.submit r) → s.pending c' = some (.submit r) := by
    intro c' r hc
    rcases pending_of_update_some hc with ⟨-, hp⟩ | ⟨-, hp⟩
    · cases hp
    · exact hp
  refine ⟨?_, ?_, ?_, ?_, h.submittedIssued, ?_, h.distinct, h.releasedSubmitted, h.known,
    h.nodup, h.kept⟩
  · exact fun c' r hc => h.submitStamp c' r (hsubmit c' r hc)
  · intro c' call' hc
    rcases pending_of_update_some hc with ⟨-, hp⟩ | ⟨-, hp⟩
    · cases hp
      exact hstamp.le
    · exact h.releaseStamp c' call' hp
  · exact fun c' r hc => h.pendingIssued c' r (hsubmit c' r hc)
  · exact fun c₁ c₂ r₁ r₂ h₁ h₂ =>
      h.pendingDistinct c₁ c₂ r₁ r₂ (hsubmit c₁ r₁ h₁) (hsubmit c₂ r₂ h₂)
  · exact fun w hw c' r hc => h.submittedDone w hw c' r (hsubmit c' r hc)

omit [DecidableEq Call] in
theorem inv_tick
    {now : Nat}
    (h : LedgerInv s)
    (hle : s.clock ≤ now) :
    LedgerInv { s with clock := now } where
  submitStamp := fun c r hc => (h.submitStamp c r hc).trans hle
  releaseStamp := fun c call hc => (h.releaseStamp c call hc).trans hle
  pendingIssued := h.pendingIssued
  pendingDistinct := h.pendingDistinct
  submittedIssued := h.submittedIssued
  submittedDone := h.submittedDone
  distinct := h.distinct
  releasedSubmitted := h.releasedSubmitted
  known := h.known
  nodup := h.nodup
  kept := fun w hw hrel hevict hlive => h.kept w hw hrel hevict (lt_of_le_of_lt hle hlive)

omit [DecidableEq Call] in
/-- The part of a submission under the lock, for a record whose id is nowhere yet. -/
theorem inv_submit
    {size : Nat}
    (h : LedgerInv s)
    (hstamp : record.createdAt ≤ s.clock)
    (hissued : record.claimId ∈ s.issued)
    (hnew : ∀ w ∈ s.submits, w.1.claimId ≠ record.claimId)
    (hother : ∀ c r, s.pending c = some (.submit r) → record.claimId ≠ r.claimId)
    (hlocked : submitLocked s.file record = .ok result) :
    LedgerInv { s with
      file := .entries size result.written
      submits := s.submits ++ [(record, result)] } := by
  obtain ⟨-, hwritten, hdropped⟩ := submitLocked_eq_ok hlocked
  have hnotReleased : record.claimId ∉ s.released := by
    intro hrel
    obtain ⟨w, hw, hid⟩ := h.releasedSubmitted _ hrel
    exact hnew w hw hid
  -- the entries before the cap
  have hbefore : ∀ e ∈ pruneExpired s.file.records record.createdAt ++ [record.toEntry],
      e = record.toEntry ∨ e ∈ s.file.records := by
    intro e he
    rcases List.mem_append.mp he with he | he
    · exact Or.inr (mem_pruneExpired.mp he).1
    · exact Or.inl (List.mem_singleton.mp he)
  have hnodup : ((pruneExpired s.file.records record.createdAt ++
      [record.toEntry]).map ClaimEntry.claimId).Nodup := by
    rw [List.map_append, List.map_singleton, List.nodup_append]
    refine ⟨h.nodup.sublist (List.filter_sublist.map _), List.nodup_singleton _, ?_⟩
    intro id hid id' hid' hsame
    obtain ⟨e, he, rfl⟩ := List.mem_map.mp hid
    obtain ⟨w, hw, rfl, -⟩ := h.known e (mem_pruneExpired.mp he).1
    rw [List.mem_singleton.mp hid'] at hsame
    exact hnew w hw (Option.some.inj hsame)
  refine ⟨h.submitStamp, h.releaseStamp, h.pendingIssued, h.pendingDistinct, ?_, ?_, ?_, ?_, ?_,
    ?_, ?_⟩
  · intro w hw
    rcases List.mem_append.mp hw with hw | hw
    · exact h.submittedIssued w hw
    · rw [List.mem_singleton.mp hw]
      exact hissued
  · intro w hw c r hc
    rcases List.mem_append.mp hw with hw | hw
    · exact h.submittedDone w hw c r hc
    · rw [List.mem_singleton.mp hw]
      exact hother c r hc
  · rw [List.map_append, List.map_singleton, List.nodup_append]
    refine ⟨h.distinct, List.nodup_singleton _, ?_⟩
    intro id hid id' hid' hsame
    obtain ⟨w, hw, rfl⟩ := List.mem_map.mp hid
    rw [List.mem_singleton.mp hid'] at hsame
    exact hnew w hw hsame
  · intro id hid
    obtain ⟨w, hw, hsame⟩ := h.releasedSubmitted id hid
    exact ⟨w, List.mem_append_left _ hw, hsame⟩
  · intro e he
    change e ∈ result.written at he
    rw [hwritten] at he
    rcases hbefore e (mem_cap_iff.mpr (Or.inl he)) with rfl | he
    · exact ⟨_, List.mem_append_right _ List.mem_cons_self, rfl, hnotReleased⟩
    · obtain ⟨w, hw, hentry, hrel⟩ := h.known e he
      exact ⟨w, List.mem_append_left _ hw, hentry, hrel⟩
  · change (result.written.map ClaimEntry.claimId).Nodup
    rw [hwritten]
    exact nodup_evictOldest hnodup
  · intro w hw hrel hevict hlive
    change w.1.toEntry ∈ result.written
    -- an entry that the cap drops is evicted
    have hstays : w.1.toEntry ∈ pruneExpired s.file.records record.createdAt ++
        [record.toEntry] → w.1.toEntry ∈ result.written := by
      intro he
      rcases mem_cap_iff.mp he with he | he
      · rw [hwritten]
        exact he
      · exfalso
        refine hevict (List.mem_flatMap.mpr ⟨(record, result),
          List.mem_append_right _ List.mem_cons_self, ?_⟩)
        rw [hdropped]
        exact List.mem_filterMap.mpr ⟨_, he, rfl⟩
    apply hstays
    rcases List.mem_append.mp hw with hw | hw
    · refine List.mem_append_left _ (mem_pruneExpired.mpr ⟨h.kept w hw hrel ?_ hlive, ?_⟩)
      · intro hold
        obtain ⟨w', hw', hid⟩ := List.mem_flatMap.mp hold
        exact hevict (List.mem_flatMap.mpr ⟨w', List.mem_append_left _ hw', hid⟩)
      · rw [toEntry_liveAt]
        exact lt_of_le_of_lt hstamp hlive
    · rw [List.mem_singleton.mp hw]
      exact List.mem_append_right _ List.mem_cons_self

omit [DecidableEq Call] in
/-- The part of a release under the lock. -/
theorem inv_release
    {call : ReleaseCall}
    {result : ReleaseResult}
    {size : Nat}
    (h : LedgerInv s)
    (hstamp : call.now ≤ s.clock)
    (hlocked : releaseLocked s.file call = .ok result) :
    LedgerInv { s with
      file := (result.written.map (IndexFile.entries size)).getD s.file
      released := result.released.filterMap ClaimEntry.claimId ++ s.released } := by
  obtain ⟨hperm, hsublist, hwritten⟩ := releaseLocked_eq_ok hlocked
  have hrecords : ((result.written.map (IndexFile.entries size)).getD s.file).records =
      result.remaining := by
    rcases hwritten with hwritten | ⟨hwritten, -, hsame⟩
    · rw [hwritten]
      rfl
    · rw [hwritten, hsame]
      rfl
  -- released and remaining entries have different ids
  have hnodup : ((result.released ++ result.remaining).map ClaimEntry.claimId).Nodup :=
    (hperm.map _).nodup_iff.mpr (h.nodup.sublist (List.filter_sublist.map _))
  have hreleased : ∀ e ∈ result.released, e ∈ s.file.records := fun e he =>
    (mem_pruneExpired.mp (hperm.mem_iff.mp (List.mem_append_left _ he))).1
  refine ⟨h.submitStamp, h.releaseStamp, h.pendingIssued, h.pendingDistinct, h.submittedIssued,
    h.submittedDone, h.distinct, ?_, ?_, ?_, ?_⟩
  · intro id hid
    rcases List.mem_append.mp hid with hid | hid
    · obtain ⟨e, he, hsame⟩ := List.mem_filterMap.mp hid
      obtain ⟨w, hw, rfl, -⟩ := h.known e (hreleased e he)
      exact ⟨w, hw, Option.some.inj hsame⟩
    · exact h.releasedSubmitted id hid
  · intro e he
    rw [hrecords] at he
    obtain ⟨w, hw, rfl, hrel⟩ := h.known e (hsublist.subset he)
    refine ⟨w, hw, rfl, ?_⟩
    rw [List.mem_append, not_or]
    refine ⟨?_, hrel⟩
    intro hid
    obtain ⟨e', he', hsame⟩ := List.mem_filterMap.mp hid
    rw [List.map_append, List.nodup_append] at hnodup
    exact hnodup.2.2 e'.claimId (List.mem_map_of_mem he') _ (List.mem_map_of_mem he) hsame
  · rw [hrecords]
    exact h.nodup.sublist (hsublist.map _)
  · intro w hw hrel hevict hlive
    rw [List.mem_append, not_or] at hrel
    rw [hrecords]
    have hentry : w.1.toEntry ∈ pruneExpired s.file.records call.now :=
      mem_pruneExpired.mpr ⟨h.kept w hw hrel.2 hevict hlive,
        toEntry_liveAt.mpr (lt_of_le_of_lt hstamp hlive)⟩
    rcases List.mem_append.mp (hperm.mem_iff.mpr hentry) with hmem | hmem
    · have hid : w.1.claimId ∈ result.released.filterMap ClaimEntry.claimId :=
        List.mem_filterMap.mpr ⟨w.1.toEntry, hmem, rfl⟩
      exact absurd hid hrel.1
    · exact hmem

/-! ## Runs -/

theorem inv_step
    {event : LedgerEvent Call}
    (h : LedgerInv s)
    (hstep : LedgerStep s event s') :
    LedgerInv s' := by
  cases hstep with
  | tick hle => exact inv_tick h hle
  | beginSubmit _ hnow hfresh hprepared =>
      obtain ⟨hid, hstamp⟩ := prepareClaim_eq_ok hprepared
      exact inv_beginSubmit h (hstamp.trans hnow) (hid ▸ hfresh)
  | @submit c record result size hpending hlocked =>
      exact inv_submit (inv_abandon h c) (h.submitStamp c record hpending)
        (h.pendingIssued c record hpending)
        (fun w hw => h.submittedDone w hw c record hpending)
        (fun c' r hc hid => (pending_of_update_none hc).1
          (h.pendingDistinct c' c r record (pending_of_update_none hc).2 hpending hid.symm))
        hlocked
  | beginRelease _ hprepared =>
      refine inv_beginRelease h ?_
      rw [prepareRelease] at hprepared
      split_ifs at hprepared
      cases hprepared
      rfl
  | @release c call result size hpending hlocked =>
      exact inv_release (inv_abandon h c) (h.releaseStamp c call hpending) hlocked
  | @abandon c => exact inv_abandon h c
  | list _ => exact h

theorem inv_reachable
    (h : (claimsLedger Call (· = .absent)).Reachable (fun _ _ => True) s) :
    LedgerInv s := by
  refine h.invariant (P := LedgerInv) ?_ (fun _ _ _ hinv _ hstep => inv_step hinv hstep)
  rintro s ⟨hfile, hpending, hissued, hsubmits, hreleased⟩
  have hfile : s.file.records = [] := by
    rw [hfile]
    rfl
  refine ⟨?_, ?_, ?_, ?_, ?_, ?_, ?_, ?_, ?_, ?_, ?_⟩
  · intro c r hc
    rw [hpending c] at hc
    cases hc
  · intro c call hc
    rw [hpending c] at hc
    cases hc
  · intro c r hc
    rw [hpending c] at hc
    cases hc
  · intro c c' r r' hc
    rw [hpending c] at hc
    cases hc
  · simp [hsubmits]
  · simp [hsubmits]
  · simp [hsubmits]
  · simp [hreleased]
  · simp [hfile]
  · simp [hfile]
  · simp [hsubmits]

/-- When a submission has the lock, it reports every claim of another agent, or of an
anonymous one, that shares a name with it and that is neither released nor evicted nor
expired, once and with exactly the shared names.  It reports no released claim, none that
had expired at its own time stamp, and none of its own agent unless that is anonymous. -/
theorem overlaps_exact
    {r : ClaimRecord}
    (hs : (claimsLedger Call (· = .absent)).Reachable (fun _ _ => True) s)
    (hstep : LedgerStep s (.submit c r result) s') :
    (∀ w ∈ s.submits, w.1.claimId ∉ s.released → w.1.claimId ∉ s.evicted →
      s.clock < w.1.expiresAt →
      (w.1.agentId ≠ r.agentId ∨ r.agentId = defaultAgentId) →
      ((∃ name, name ∈ w.1.symbols ∧ name ∈ r.symbols) ∨
        ∃ name, name ∈ w.1.files ∧ name ∈ r.files) →
        ListedOnce w.1 r result.overlaps) ∧
    ∀ o ∈ result.overlaps, ∃ w ∈ s.submits, o.claimId = some w.1.claimId ∧
      w.1.claimId ∉ s.released ∧ r.createdAt < w.1.expiresAt ∧
      (w.1.agentId ≠ r.agentId ∨ r.agentId = defaultAgentId) := by
  have hinv := inv_reachable hs
  cases hstep with
  | submit hpending hlocked =>
      obtain ⟨hoverlaps, -, -⟩ := submitLocked_eq_ok hlocked
      constructor
      · intro w hw hrel hevict hlive hagent hshared
        refine listedOnce_of_mem hoverlaps ?_ ?_ hagent hshared
        · exact hinv.nodup.sublist (List.filter_sublist.map _)
        · exact mem_pruneExpired.mpr ⟨hinv.kept w hw hrel hevict hlive, toEntry_liveAt.mpr
            (lt_of_le_of_lt (hinv.submitStamp c r hpending) hlive)⟩
      · intro o ho
        obtain ⟨e, he, hid, hown⟩ := exists_entry_of_overlap hoverlaps ho
        obtain ⟨hmem, hlive⟩ := mem_pruneExpired.mp he
        obtain ⟨w, hw, rfl, hrel⟩ := hinv.known e hmem
        refine ⟨w, hw, hid, hrel, toEntry_liveAt.mp hlive, ?_⟩
        by_cases hanon : r.agentId = defaultAgentId
        · exact Or.inr hanon
        · left
          intro hsame
          exact hown ⟨hanon, congrArg some hsame⟩

end Steps

/-! ## A run of two agents -/

/-- A claim on the symbol `f` for one second, as it is prepared at time `0`. -/
def claimOf (id agent : String) : ClaimRecord where
  claimId := id
  agentId := agent
  symbols := ["f"]
  files := []
  scope := "."
  intent := "edit"
  note := none
  createdAt := 0
  expiresAt := 1000000
  ttlSeconds := 1
  revision := ⟨none, none⟩

/-- What is known before the call: no environment, and nothing of the repository. -/
def contextOf (id : String) : SubmitContext where
  env := ⟨none, none, none⟩
  scope := "."
  escapes := fun _ => false
  claimId := id
  revision := ⟨none, none⟩
  now := 0

/-- A claim on the symbol `f` for one second. -/
def argsOf (agent : String) : SubmitArgs where
  symbols := ["f"]
  files := []
  intent := "edit"
  note := none
  ttlSeconds := some 1
  agentId := some agent

/-- The state after the call `c` has begun to submit `record`. -/
def LedgerState.begun
    (s : LedgerState Bool)
    (c : Bool)
    (record : ClaimRecord) : LedgerState Bool :=
  { s with
    pending := Function.update s.pending c (some (.submit record))
    issued := record.claimId :: s.issued }

/-- The state after the call `c` has had the lock. -/
def LedgerState.written
    (s : LedgerState Bool)
    (c : Bool)
    (record : ClaimRecord)
    (result : SubmitResult) : LedgerState Bool :=
  { s with
    file := .entries 0 result.written
    pending := Function.update s.pending c none
    submits := s.submits ++ [(record, result)] }

/-- The first agent has its claim in the index, the second waits for the lock until `now`. -/
def waitingState (now : Nat) : LedgerState Bool :=
  let start : LedgerState Bool := ⟨0, .absent, fun _ => none, [], [], []⟩
  let first := (start.begun false (claimOf "c1" "x")).written false (claimOf "c1" "x")
    ⟨[], [(claimOf "c1" "x").toEntry], []⟩
  { first.begun true (claimOf "c2" "y") with clock := now }

theorem reachable_waitingState
    (now : Nat) :
    (claimsLedger Bool (· = .absent)).Reachable (fun _ _ => True) (waitingState now) := by
  have hstart : (claimsLedger Bool (· = .absent)).Reachable (fun _ _ => True)
      ⟨0, .absent, fun _ => none, [], [], []⟩ := .start ⟨rfl, fun _ => rfl, rfl, rfl, rfl⟩
  have hfirst := hstart.next trivial (@LedgerStep.beginSubmit Bool _ _ false (contextOf "c1")
    (argsOf "x") (claimOf "c1" "x") rfl rfl (List.not_mem_nil) (by decide))
  have hwritten := hfirst.next trivial (@LedgerStep.submit Bool _ _ false _
    ⟨[], [(claimOf "c1" "x").toEntry], []⟩ 0 rfl (by decide))
  have hsecond := hwritten.next trivial (@LedgerStep.beginSubmit Bool _ _ true
    (contextOf "c2") (argsOf "y") (claimOf "c2" "y") rfl rfl (by decide) (by decide))
  exact hsecond.next trivial (LedgerStep.tick (Nat.zero_le now))

/-- What the second agent is told. -/
def secondResult : SubmitResult where
  overlaps := [⟨some "c1", some "x", ["f"], [], some "edit", some 1000000, none⟩]
  written := [(claimOf "c1" "x").toEntry, (claimOf "c2" "y").toEntry]
  dropped := []

theorem step_waitingState
    (now : Nat) :
    LedgerStep (waitingState now) (.submit true (claimOf "c2" "y") secondResult)
      ((waitingState now).written true (claimOf "c2" "y") secondResult) :=
  @LedgerStep.submit Bool _ (waitingState now) true (claimOf "c2" "y") secondResult 0 rfl
    (by
      change submitLocked (.entries 0 [(claimOf "c1" "x").toEntry]) (claimOf "c2" "y") = _
      decide)

/-- Without a wait, the second agent is told of the first, once. -/
theorem overlaps_exact_waitingState :
    ListedOnce (claimOf "c1" "x") (claimOf "c2" "y") secondResult.overlaps :=
  (overlaps_exact (reachable_waitingState 0) (step_waitingState 0)).1
    (claimOf "c1" "x", ⟨[], [(claimOf "c1" "x").toEntry], []⟩) List.mem_cons_self
    (by decide) (by decide) (by decide) (Or.inl (by decide))
    (Or.inl ⟨"f", by decide, by decide⟩)

/-- When the second agent has waited for two seconds, it is told of a claim that has
expired. -/
theorem overlaps_reports_expired :
    ∃ (s s' : LedgerState Bool) (c : Bool) (r : ClaimRecord) (result : SubmitResult),
      (claimsLedger Bool (· = .absent)).Reachable (fun _ _ => True) s ∧
      LedgerStep s (.submit c r result) s' ∧
      ∃ w ∈ s.submits, w.1.expiresAt ≤ s.clock ∧
        ∃ o ∈ result.overlaps, o.claimId = some w.1.claimId := by
  refine ⟨waitingState 2000000, _, true, claimOf "c2" "y", secondResult,
    reachable_waitingState 2000000, step_waitingState 2000000, _, List.mem_cons_self, ?_,
    _, List.mem_cons_self, rfl⟩
  decide

end Ledger
end TensorGrep
