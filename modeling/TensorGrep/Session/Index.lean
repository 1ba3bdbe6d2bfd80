import Mathlib.Data.String.Basic
import TensorGrep.Kernel.SortedKeys
import TensorGrep.Kernel.StepSystem

/-!
# The session index

A session has a payload file and a record in `index.json`.  Opening a session
writes its payload, then inserts its record under the lock of the index, and
prunes: the payloads of the oldest records are unlinked, and the shorter index is
written afterwards.  Refreshing writes the payload anew without the lock, and puts
the record back into the index.  The daemon removes implicit sessions.

Writing a payload, unlinking one and writing the index are one step each, and a
call can stop between any two of them; then the lock is free again.
-/

namespace TensorGrep
namespace Session

open Kernel

/-- What matters of a `SessionRecord`. -/
structure SessionRecord where
  sessionId : String
  createdAt : String
deriving DecidableEq

/-- The ids of records. -/
def sessionIds (records : List SessionRecord) : List String :=
  records.map SessionRecord.sessionId

/-- `_prune_session_records`: the records that stay, and the sessions whose payloads are to be
unlinked. -/
def pruneSessionRecords
    (limit : Nat)
    (records : List SessionRecord) : List SessionRecord × List String :=
  if records.length ≤ limit then (records, [])
  else
    let ordered := sortByKey (fun r => OrderDual.toDual r.createdAt) records
    (ordered.take limit, sessionIds (ordered.drop limit))

/-- The records with that of a new session in front. -/
def insertRecord
    (r : SessionRecord)
    (records : List SessionRecord) : List SessionRecord :=
  r :: records.filter fun existing => existing.sessionId ≠ r.sessionId

/-- The first record with the id is replaced. -/
def replaceRecord (r : SessionRecord) : List SessionRecord → Option (List SessionRecord)
  | [] => none
  | old :: records =>
      if old.sessionId = r.sessionId then some (r :: records)
      else (replaceRecord r records).map (old :: ·)

/-- The records after a refresh. -/
def refreshedRecords
    (r : SessionRecord)
    (records : List SessionRecord) : List SessionRecord :=
  (replaceRecord r records).getD (r :: records)

/-- Where a call stands that opens, refreshes or removes a session. -/
inductive SessionPhase where
  | idle
  | built (r : SessionRecord)
  | saved (r : SessionRecord)
  | pruning (r : SessionRecord) (dropped : List String) (retained : List SessionRecord)
  | refreshing (r : SessionRecord)
  | refreshSaved (r : SessionRecord)
  | refreshLocked (r : SessionRecord)
  | written (opens : Bool) (r : SessionRecord) (records : List SessionRecord)
  | returned (opens : Bool) (r : SessionRecord) (records : List SessionRecord)
  | removing (sessionId : String)
  | removeLocked (sessionId : String)
  | removeUnlinked (sessionId : String)
  | finished
deriving DecidableEq

/-- The call has the lock of the index. -/
def SessionPhase.locked : SessionPhase → Prop
  | .pruning _ _ _ => True
  | .refreshLocked _ => True
  | .written _ _ _ => True
  | .removeLocked _ => True
  | .removeUnlinked _ => True
  | _ => False

/-- A call that has written the index has its session in it. -/
def SessionPhase.Lists : SessionPhase → Prop
  | .written _ r records => r.sessionId ∈ sessionIds records
  | .returned _ r records => r.sessionId ∈ sessionIds records
  | _ => True

/-- The sessions of one root.  A payload has the time at which its session was opened; `issued`
are the ids that have been given out, `known` those of sessions that a call has returned. -/
structure SessionState (Call : Type) where
  index : List SessionRecord
  payloads : String → Option String
  lock : Option Call
  phase : Call → SessionPhase
  issued : List String
  known : List String

/-- What can happen. -/
inductive SessionEvent (Call : Type) where
  | build (c : Call)
  | save (c : Call)
  | insert (c : Call)
  | prune (c : Call) (sessionId : String)
  | pruneFails (c : Call) (sessionId : String)
  | writeOpened (c : Call)
  | beginRefresh (c : Call)
  | saveRefreshed (c : Call)
  | lockRefresh (c : Call)
  | writeRefreshed (c : Call)
  | release (c : Call)
  | beginRemove (c : Call)
  | lockRemove (c : Call)
  | unlinkRemoved (c : Call) (sessionId : String)
  | writeRemoved (c : Call)
  | stop (c : Call)

section Steps

variable {Call : Type} [DecidableEq Call] (limit : Nat)

/-- The state in which the call `c` has come to `phase`. -/
def SessionState.setPhase
    (s : SessionState Call)
    (c : Call)
    (phase : SessionPhase) : SessionState Call :=
  { s with phase := Function.update s.phase c phase }

/-- The lock without the call. -/
def freedLock
    (lock : Option Call)
    (c : Call) : Option Call :=
  if lock = some c then none else lock

/-- The effect of an event.  New ids are fresh, a removal is of a session that was opened before,
and a call that stops or fails loses the lock. -/
inductive SessionStep : SessionState Call → SessionEvent Call → SessionState Call → Prop
  | build {s : SessionState Call} {c : Call} {r : SessionRecord} :
      s.phase c = .idle →
      r.sessionId ∉ s.issued →
      SessionStep s (.build c)
        { s.setPhase c (.built r) with issued := r.sessionId :: s.issued }
  | save {s : SessionState Call} {c : Call} {r : SessionRecord} :
      s.phase c = .built r →
      SessionStep s (.save c)
        { s.setPhase c (.saved r) with
          payloads := Function.update s.payloads r.sessionId (some r.createdAt) }
  | insert {s : SessionState Call} {c : Call} {r : SessionRecord} :
      s.phase c = .saved r →
      s.lock = none →
      SessionStep s (.insert c)
        { s.setPhase c
            (.pruning r (pruneSessionRecords limit (insertRecord r s.index)).2
              (pruneSessionRecords limit (insertRecord r s.index)).1) with
          lock := some c }
  | prune {s : SessionState Call} {c : Call} {r : SessionRecord} {sessionId : String}
      {dropped : List String} {retained : List SessionRecord} :
      s.phase c = .pruning r (sessionId :: dropped) retained →
      SessionStep s (.prune c sessionId)
        { s.setPhase c (.pruning r dropped retained) with
          payloads := Function.update s.payloads sessionId none }
  | pruneFails {s : SessionState Call} {c : Call} {r : SessionRecord} {sessionId : String}
      {dropped : List String} {retained : List SessionRecord} :
      s.phase c = .pruning r (sessionId :: dropped) retained →
      SessionStep s (.pruneFails c sessionId) (s.setPhase c (.pruning r dropped retained))
  | writeOpened {s : SessionState Call} {c : Call} {r : SessionRecord}
      {retained : List SessionRecord} :
      s.phase c = .pruning r [] retained →
      SessionStep s (.writeOpened c)
        { s.setPhase c (.written true r retained) with index := retained }
  | beginRefresh {s : SessionState Call} {c : Call} {r : SessionRecord} :
      s.phase c = .idle →
      s.payloads r.sessionId = some r.createdAt →
      SessionStep s (.beginRefresh c) (s.setPhase c (.refreshing r))
  | saveRefreshed {s : SessionState Call} {c : Call} {r : SessionRecord} :
      s.phase c = .refreshing r →
      SessionStep s (.saveRefreshed c)
        { s.setPhase c (.refreshSaved r) with
          payloads := Function.update s.payloads r.sessionId (some r.createdAt) }
  | lockRefresh {s : SessionState Call} {c : Call} {r : SessionRecord} :
      s.phase c = .refreshSaved r →
      s.lock = none →
      SessionStep s (.lockRefresh c) { s.setPhase c (.refreshLocked r) with lock := some c }
  | writeRefreshed {s : SessionState Call} {c : Call} {r : SessionRecord} :
      s.phase c = .refreshLocked r →
      SessionStep s (.writeRefreshed c)
        { s.setPhase c (.written false r (refreshedRecords r s.index)) with
          index := refreshedRecords r s.index }
  | release {s : SessionState Call} {c : Call} {opens : Bool} {r : SessionRecord}
      {records : List SessionRecord} :
      s.phase c = .written opens r records →
      SessionStep s (.release c)
        { s.setPhase c (.returned opens r records) with
          lock := freedLock s.lock c
          known := if opens then r.sessionId :: s.known else s.known }
  | beginRemove {s : SessionState Call} {c : Call} {sessionId : String} :
      s.phase c = .idle →
      sessionId ∈ s.known →
      SessionStep s (.beginRemove c) (s.setPhase c (.removing sessionId))
  | lockRemove {s : SessionState Call} {c : Call} {sessionId : String} :
      s.phase c = .removing sessionId →
      s.lock = none →
      SessionStep s (.lockRemove c)
        { s.setPhase c (.removeLocked sessionId) with lock := some c }
  | unlinkRemoved {s : SessionState Call} {c : Call} {sessionId : String} :
      s.phase c = .removeLocked sessionId →
      SessionStep s (.unlinkRemoved c sessionId)
        { s.setPhase c (.removeUnlinked sessionId) with
          payloads := Function.update s.payloads sessionId none }
  | writeRemoved {s : SessionState Call} {c : Call} {sessionId : String} :
      s.phase c = .removeUnlinked sessionId →
      SessionStep s (.writeRemoved c)
        { s.setPhase c .finished with
          index := s.index.filter fun r => r.sessionId ≠ sessionId
          lock := freedLock s.lock c }
  | stop {s : SessionState Call} {c : Call} :
      s.phase c ≠ .idle →
      SessionStep s (.stop c)
        { s.setPhase c .finished with lock := freedLock s.lock c }

end Steps

/-! ## Integrity -/

section Integrity

variable {Call : Type} (limit : Nat)

/-- The index has no id twice and no record without its payload, it is not longer than the
limit, and each call has listed its own session. -/
structure SessionIntegrity (s : SessionState Call) : Prop where
  nodup : (sessionIds s.index).Nodup
  payloads : ∀ sessionId ∈ sessionIds s.index, (s.payloads sessionId).isSome = true
  bounded : s.index.length ≤ limit
  listed : ∀ c, (s.phase c).Lists

/-- No payload is unlinked that the index still lists; an opened session is not older than as
many listed sessions as the limit allows; a refreshed session still has its payload, and it is
still listed or there is room for it. -/
def KeepsIntegrity (s : SessionState Call) : SessionEvent Call → Prop
  | .prune _ sessionId => sessionId ∉ sessionIds s.index
  | .unlinkRemoved _ sessionId => sessionId ∉ sessionIds s.index
  | .writeOpened c => ∀ r retained, s.phase c = .pruning r [] retained →
      (s.index.filter fun existing => existing.sessionId ≠ r.sessionId).countP
        (fun existing => r.createdAt < existing.createdAt) < limit
  | .writeRefreshed c => ∀ r, s.phase c = .refreshLocked r →
      (s.payloads r.sessionId).isSome = true ∧
        (r.sessionId ∈ sessionIds s.index ∨ s.index.length < limit)
  | _ => True

/-- The sessions of a root, from any state with integrity in which no call is under way. -/
def sessionStore
    (Call : Type)
    [DecidableEq Call]
    (limit : Nat) : StepSystem (SessionState Call) (SessionEvent Call) where
  init s := SessionIntegrity limit s ∧ s.lock = none ∧ (∀ c, s.phase c = .idle) ∧
    (∀ sessionId, (s.payloads sessionId).isSome = true → sessionId ∈ s.issued) ∧
    ∀ sessionId ∈ s.known, sessionId ∈ s.issued
  step := SessionStep limit

/-! ## Records and their ids -/

theorem mem_pruneSessionRecords
    {limit : Nat}
    {records : List SessionRecord}
    {r : SessionRecord}
    (h : r ∈ (pruneSessionRecords limit records).1) :
    r ∈ records := by
  rw [pruneSessionRecords] at h
  split at h
  · exact h
  · exact mem_sortByKey.mp (List.mem_of_mem_take h)

/-- Every session is kept or dropped. -/
theorem perm_pruneSessionRecords
    (limit : Nat)
    (records : List SessionRecord) :
    (sessionIds (pruneSessionRecords limit records).1 ++
        (pruneSessionRecords limit records).2).Perm (sessionIds records) := by
  rw [pruneSessionRecords]
  split
  · rw [List.append_nil]
  · dsimp only
    rw [sessionIds, sessionIds, ← List.map_append, List.take_append_drop]
    exact (perm_sortByKey _ records).map _

theorem length_pruneSessionRecords_le
    (limit : Nat)
    (records : List SessionRecord) :
    (pruneSessionRecords limit records).1.length ≤ limit := by
  rw [pruneSessionRecords]
  split
  case isTrue hroom => exact hroom
  case isFalse => exact List.length_take_le _ _

/-- A new record is kept exactly when fewer listed records than the limit are newer. -/
theorem mem_pruneSessionRecords_insert_iff
    {limit : Nat}
    {r : SessionRecord}
    {records : List SessionRecord} :
    r ∈ (pruneSessionRecords limit (insertRecord r records)).1 ↔
      (records.filter fun existing => existing.sessionId ≠ r.sessionId).countP
        (fun existing => r.createdAt < existing.createdAt) < limit := by
  rw [insertRecord, pruneSessionRecords]
  split
  case isTrue hroom =>
      refine iff_of_true List.mem_cons_self ?_
      refine lt_of_le_of_lt List.countP_le_length ?_
      rw [List.length_cons] at hroom
      exact hroom
  case isFalse =>
      rw [head_mem_take_sortByKey]
      simp only [OrderDual.toDual_lt_toDual]

theorem nodup_insertRecord
    {r : SessionRecord}
    {records : List SessionRecord}
    (h : (sessionIds records).Nodup) :
    (sessionIds (insertRecord r records)).Nodup := by
  rw [insertRecord, sessionIds, List.map_cons, List.nodup_cons]
  refine ⟨?_, h.sublist (List.filter_sublist.map _)⟩
  intro hmem
  obtain ⟨existing, hexisting, hid⟩ := List.mem_map.mp hmem
  exact of_decide_eq_true (List.mem_filter.mp hexisting).2 hid

/-- What a refresh does to the ids. -/
theorem sessionIds_refreshedRecords
    (r : SessionRecord)
    (records : List SessionRecord) :
    sessionIds (refreshedRecords r records) =
      if r.sessionId ∈ sessionIds records then sessionIds records
      else r.sessionId :: sessionIds records := by
  have hreplace : ∀ records : List SessionRecord,
      (r.sessionId ∉ sessionIds records ∧ replaceRecord r records = none) ∨
        (r.sessionId ∈ sessionIds records ∧ ∃ new, replaceRecord r records = some new ∧
          sessionIds new = sessionIds records) := by
    intro records
    induction records with
    | nil => exact Or.inl ⟨by simp [sessionIds], rfl⟩
    | cons old records ih =>
        by_cases hsame : old.sessionId = r.sessionId
        · refine Or.inr ⟨by simp [sessionIds, hsame], r :: records, ?_, ?_⟩
          · rw [replaceRecord, if_pos hsame]
          · simp [sessionIds, hsame]
        · rcases ih with ⟨habsent, hnone⟩ | ⟨hpresent, new, hsome, hids⟩
          · refine Or.inl ⟨?_, ?_⟩
            · simp only [sessionIds, List.map_cons, List.mem_cons, not_or]
              exact ⟨fun heq => hsame heq.symm, habsent⟩
            · rw [replaceRecord, if_neg hsame, hnone]
              rfl
          · refine Or.inr ⟨List.mem_cons_of_mem _ hpresent, old :: new, ?_, ?_⟩
            · rw [replaceRecord, if_neg hsame, hsome]
              rfl
            · simp only [sessionIds, List.map_cons]
              exact congrArg _ hids
  rcases hreplace records with ⟨habsent, hnone⟩ | ⟨hpresent, new, hsome, hids⟩
  · rw [refreshedRecords, hnone, if_neg habsent]
    rfl
  · rw [refreshedRecords, hsome, if_pos hpresent]
    exact hids

theorem mem_sessionIds_refreshedRecords
    (r : SessionRecord)
    (records : List SessionRecord) :
    r.sessionId ∈ sessionIds (refreshedRecords r records) := by
  rw [sessionIds_refreshedRecords]
  split
  case isTrue hpresent => exact hpresent
  case isFalse => exact List.mem_cons_self

/-- A refresh respects the limit exactly when it replaces a record or there is room. -/
theorem length_refreshedRecords_le_iff
    {limit : Nat}
    {r : SessionRecord}
    {records : List SessionRecord}
    (hbounded : records.length ≤ limit) :
    (refreshedRecords r records).length ≤ limit ↔
      r.sessionId ∈ sessionIds records ∨ records.length < limit := by
  have hlength : ∀ records : List SessionRecord,
      records.length = (sessionIds records).length := fun records => by simp [sessionIds]
  rw [hlength, sessionIds_refreshedRecords]
  split
  case isTrue hpresent =>
      rw [← hlength]
      exact iff_of_true hbounded (Or.inl hpresent)
  case isFalse habsent =>
      rw [List.length_cons, ← hlength]
      exact ⟨Or.inr, fun h => h.resolve_left habsent⟩

/-! ## The invariant -/

/-- The id of a session that is being opened and is not yet known to others. -/
def SessionPhase.owned : SessionPhase → Option String
  | .built r => some r.sessionId
  | .saved r => some r.sessionId
  | .pruning r _ _ => some r.sessionId
  | .written true r _ => some r.sessionId
  | _ => none

/-- What a call relies on where it stands. -/
def PhaseFacts
    (limit : Nat)
    (s : SessionState Call) : SessionPhase → Prop
  | .saved r => (s.payloads r.sessionId).isSome = true
  | .pruning r dropped retained =>
      retained = (pruneSessionRecords limit (insertRecord r s.index)).1 ∧
        (∀ sessionId ∈ dropped, sessionId ∉ sessionIds retained ∧
          (sessionId = r.sessionId ∨ sessionId ∈ sessionIds s.index)) ∧
        (r.sessionId ∈ sessionIds retained → (s.payloads r.sessionId).isSome = true)
  | .removing sessionId => sessionId ∈ s.known
  | .removeLocked sessionId => sessionId ∈ s.known
  | _ => True

/-- What holds in every run that keeps the integrity. -/
structure SessionInv
    (limit : Nat)
    (s : SessionState Call) : Prop where
  integrity : SessionIntegrity limit s
  locked : ∀ c, (s.phase c).locked → s.lock = some c
  owned : ∀ c sessionId, (s.phase c).owned = some sessionId →
    sessionId ∈ s.issued ∧ sessionId ∉ s.known
  distinct : ∀ c c' sessionId, (s.phase c).owned = some sessionId →
    (s.phase c').owned = some sessionId → c = c'
  known : ∀ sessionId ∈ s.known, sessionId ∈ s.issued
  facts : ∀ c, PhaseFacts limit s (s.phase c)

variable {limit : Nat} {s s' : SessionState Call} [DecidableEq Call]

theorem phase_of_update
    {c c' : Call}
    {phase : SessionPhase}
    (hphase : s'.phase = Function.update s.phase c phase) :
    c' = c ∧ s'.phase c' = phase ∨ c' ≠ c ∧ s'.phase c' = s.phase c' := by
  by_cases hc : c' = c
  · exact Or.inl ⟨hc, by rw [hphase, hc, Function.update_self]⟩
  · exact Or.inr ⟨hc, by rw [hphase, Function.update_of_ne hc]⟩

/-- One call goes on. -/
theorem SessionInv.update
    {c : Call}
    {phase : SessionPhase}
    (h : SessionInv limit s)
    (hphase : s'.phase = Function.update s.phase c phase)
    (hintegrity : SessionIntegrity limit s')
    (hindex : s'.index = s.index ∨ s.lock = some c)
    (hlock : phase.locked → s'.lock = some c)
    (hlock' : ∀ c', c' ≠ c → s.lock = some c' → s'.lock = some c')
    (hissued : ∀ sessionId ∈ s.issued, sessionId ∈ s'.issued)
    (hknown : ∀ sessionId ∈ s.known, sessionId ∈ s'.known)
    (hknown' : ∀ sessionId ∈ s'.known,
      sessionId ∈ s.known ∨ (s.phase c).owned = some sessionId)
    (howned : ∀ sessionId, phase.owned = some sessionId →
      sessionId ∈ s'.issued ∧ sessionId ∉ s'.known ∧
        ((s.phase c).owned = some sessionId ∨ sessionId ∉ s.issued))
    (hpayloads : ∀ c' sessionId, c' ≠ c → (s.phase c').owned = some sessionId →
      (s.payloads sessionId).isSome = true → (s'.payloads sessionId).isSome = true)
    (hfacts : PhaseFacts limit s' phase) :
    SessionInv limit s' := by
  refine ⟨hintegrity, ?_, ?_, ?_, ?_, ?_⟩
  · intro c' hc'
    rcases @phase_of_update _ s s' _ c c' phase hphase with ⟨rfl, hp⟩ | ⟨hne, hp⟩
    · exact hlock (hp ▸ hc')
    · exact hlock' c' hne (h.locked c' (hp ▸ hc'))
  · intro c' sessionId hc'
    rcases @phase_of_update _ s s' _ c c' phase hphase with ⟨rfl, hp⟩ | ⟨hne, hp⟩
    · obtain ⟨hnew, hunknown, -⟩ := howned sessionId (hp ▸ hc')
      exact ⟨hnew, hunknown⟩
    · rw [hp] at hc'
      obtain ⟨hold, hunknown⟩ := h.owned c' sessionId hc'
      refine ⟨hissued _ hold, fun hmem => ?_⟩
      rcases hknown' sessionId hmem with hbefore | hown
      · exact hunknown hbefore
      · exact hne (h.distinct c' c sessionId hc' hown)
  · intro c' c'' sessionId hc' hc''
    have hself : ∀ d, d ≠ c → (s'.phase d).owned = some sessionId →
        phase.owned = some sessionId → False := by
      intro d hd hother hnew
      rcases @phase_of_update _ s s' _ c d phase hphase with ⟨rfl, -⟩ | ⟨-, hp⟩
      · exact hd rfl
      · rw [hp] at hother
        obtain ⟨-, -, hsame | hfresh⟩ := howned sessionId hnew
        · exact hd (h.distinct d c sessionId hother hsame)
        · exact hfresh (h.owned d sessionId hother).1
    rcases @phase_of_update _ s s' _ c c' phase hphase with ⟨rfl, hp⟩ | ⟨hne, hp⟩
    · rcases @phase_of_update _ s s' _ c' c'' phase hphase with ⟨rfl, -⟩ | ⟨hne, -⟩
      · rfl
      · exact (hself c'' hne hc'' (hp ▸ hc')).elim
    · rcases @phase_of_update _ s s' _ c c'' phase hphase with ⟨rfl, hp'⟩ | ⟨-, hp'⟩
      · exact (hself c' hne hc' (hp' ▸ hc'')).elim
      · rw [hp] at hc'
        rw [hp'] at hc''
        exact h.distinct c' c'' sessionId hc' hc''
  · intro sessionId hmem
    rcases hknown' sessionId hmem with hbefore | hown
    · exact hissued _ (h.known _ hbefore)
    · exact hissued _ (h.owned c sessionId hown).1
  · intro c'
    rcases @phase_of_update _ s s' _ c c' phase hphase with ⟨-, hp⟩ | ⟨hne, hp⟩
    · rw [hp]
      exact hfacts
    · have hold := h.facts c'
      have hlocked := h.locked c'
      have hpay := fun sessionId => hpayloads c' sessionId hne
      rw [hp]
      cases hq : s.phase c' with
      | saved r =>
          rw [hq] at hold hpay
          exact hpay r.sessionId rfl hold
      | pruning r dropped retained =>
          rw [hq] at hold hpay hlocked
          -- the index is as it was when this call has read it
          have hsame : s'.index = s.index := by
            refine hindex.resolve_right fun hc => hne ?_
            exact Option.some.inj ((hlocked trivial).symm.trans hc)
          rw [PhaseFacts, hsame]
          exact ⟨hold.1, hold.2.1, fun hmem => hpay r.sessionId rfl (hold.2.2 hmem)⟩
      | removing sessionId =>
          rw [hq] at hold
          exact hknown _ hold
      | removeLocked sessionId =>
          rw [hq] at hold
          exact hknown _ hold
      | _ => trivial

theorem SessionIntegrity.lists_of_update
    {c : Call}
    {phase : SessionPhase}
    (h : SessionIntegrity limit s)
    (hphase : s'.phase = Function.update s.phase c phase)
    (hlists : phase.Lists)
    (c' : Call) :
    (s'.phase c').Lists := by
  rcases @phase_of_update _ s s' _ c c' phase hphase with ⟨-, hp⟩ | ⟨-, hp⟩
  · rw [hp]
    exact hlists
  · rw [hp]
    exact h.listed c'

/-- A step that leaves the index and the listed payloads keeps the integrity. -/
theorem SessionIntegrity.update
    {c : Call}
    {phase : SessionPhase}
    (h : SessionIntegrity limit s)
    (hphase : s'.phase = Function.update s.phase c phase)
    (hindex : s'.index = s.index)
    (hpayloads : ∀ sessionId ∈ sessionIds s.index, (s.payloads sessionId).isSome = true →
      (s'.payloads sessionId).isSome = true)
    (hlists : phase.Lists) :
    SessionIntegrity limit s' := by
  refine ⟨?_, ?_, ?_, ?_⟩
  · rw [hindex]
    exact h.nodup
  · rw [hindex]
    exact fun sessionId hmem => hpayloads _ hmem (h.payloads _ hmem)
  · rw [hindex]
    exact h.bounded
  · exact h.lists_of_update hphase hlists

/-- Storing a payload keeps the others. -/
theorem isSome_update_some
    {payloads : String → Option String}
    {sessionId : String}
    (k createdAt : String)
    (h : (payloads sessionId).isSome = true) :
    (Function.update payloads k (some createdAt) sessionId).isSome = true := by
  by_cases hk : sessionId = k
  · rw [hk, Function.update_self]
    rfl
  · rwa [Function.update_of_ne hk]

theorem freedLock_of_ne
    {lock : Option Call}
    {c c' : Call}
    (hne : c' ≠ c)
    (h : lock = some c') :
    freedLock lock c = some c' := by
  rw [freedLock, h, if_neg]
  exact fun heq => hne (Option.some.inj heq)

/-- A call goes on outside of the lock, and writes no index. -/
theorem SessionInv.move
    {c : Call}
    {phase : SessionPhase}
    (h : SessionInv limit s)
    (hunlocked : phase.locked → s.lock = some c)
    (hlists : phase.Lists)
    (howned : ∀ sessionId, phase.owned = some sessionId →
      (s.phase c).owned = some sessionId)
    (hfacts : PhaseFacts limit s phase) :
    SessionInv limit (s.setPhase c phase) := by
  refine h.update rfl ?_ (Or.inl rfl) hunlocked (fun _ _ hc' => hc') (fun _ hmem => hmem)
    (fun _ hmem => hmem) (fun _ hmem => Or.inl hmem) ?_ (fun _ _ _ _ hsome => hsome) hfacts
  · exact h.integrity.update rfl rfl (fun _ _ hsome => hsome) hlists
  · intro sessionId hnew
    obtain ⟨hissued, hunknown⟩ := h.owned c sessionId (howned sessionId hnew)
    exact ⟨hissued, hunknown, Or.inl (howned sessionId hnew)⟩

/-- Removing a payload keeps the others. -/
theorem isSome_update_none
    {payloads : String → Option String}
    {sessionId k : String}
    (hne : sessionId ≠ k)
    (h : (payloads sessionId).isSome = true) :
    (Function.update payloads k none sessionId).isSome = true := by
  rwa [Function.update_of_ne hne]

omit [DecidableEq Call] in
theorem SessionInv.lock_of_phase
    {c : Call}
    {phase : SessionPhase}
    (h : SessionInv limit s)
    (hc : s.phase c = phase)
    (hlocked : phase.locked) :
    s.lock = some c :=
  h.locked c (hc ▸ hlocked)

omit [DecidableEq Call] in
/-- A call that goes on with its own session. -/
theorem SessionInv.owned_of_owned
    {c : Call}
    {sessionId : String}
    (h : SessionInv limit s)
    (howned : (s.phase c).owned = some sessionId)
    (other : String)
    (hother : some sessionId = some other) :
    other ∈ s.issued ∧ other ∉ s.known ∧
      ((s.phase c).owned = some other ∨ other ∉ s.issued) := by
  cases hother
  obtain ⟨hissued, hunknown⟩ := h.owned c _ howned
  exact ⟨hissued, hunknown, Or.inl howned⟩

/-- Steps that meet the condition keep everything. -/
theorem SessionInv.step
    {e : SessionEvent Call}
    (h : SessionInv limit s)
    (hguard : KeepsIntegrity limit s e)
    (hstep : SessionStep limit s e s') :
    SessionInv limit s' := by
  cases hstep with
  | @build c r hc hfresh =>
      refine h.update rfl ?_ (Or.inl rfl) (fun hl => hl.elim) (fun _ _ hc' => hc')
        (fun _ hmem => List.mem_cons_of_mem _ hmem) (fun _ hmem => hmem)
        (fun _ hmem => Or.inl hmem) ?_ (fun _ _ _ _ hsome => hsome) trivial
      · exact h.integrity.update rfl rfl (fun _ _ hsome => hsome) trivial
      · rintro _ ⟨⟩
        exact ⟨List.mem_cons_self, fun hmem => hfresh (h.known _ hmem), Or.inr hfresh⟩
  | @save c r hc =>
      have howned : (s.phase c).owned = some r.sessionId := by rw [hc]; rfl
      refine h.update rfl ?_ (Or.inl rfl) (fun hl => hl.elim) (fun _ _ hc' => hc')
        (fun _ hmem => hmem) (fun _ hmem => hmem) (fun _ hmem => Or.inl hmem) ?_
        (fun _ _ _ _ hsome => isSome_update_some _ _ hsome) ?_
      · exact h.integrity.update rfl rfl (fun _ _ hsome => isSome_update_some _ _ hsome) trivial
      · rintro _ ⟨⟩
        obtain ⟨hissued, hunknown⟩ := h.owned c _ howned
        exact ⟨hissued, hunknown, Or.inl howned⟩
      · simp [PhaseFacts]
  | @insert c r hc hfree =>
      have hsaved := h.facts c
      rw [hc] at hsaved
      have howned : (s.phase c).owned = some r.sessionId := by rw [hc]; rfl
      refine h.update rfl ?_ (Or.inl rfl) (fun _ => rfl) ?_ (fun _ hmem => hmem)
        (fun _ hmem => hmem) (fun _ hmem => Or.inl hmem) ?_ (fun _ _ _ _ hsome => hsome) ?_
      · exact h.integrity.update rfl rfl (fun _ _ hsome => hsome) trivial
      · intro c' _ hc'
        rw [hfree] at hc'
        cases hc'
      · rintro _ ⟨⟩
        obtain ⟨hissued, hunknown⟩ := h.owned c _ howned
        exact ⟨hissued, hunknown, Or.inl howned⟩
      · refine ⟨rfl, ?_, fun _ => hsaved⟩
        intro sessionId hdropped
        have hperm := perm_pruneSessionRecords limit (insertRecord r s.index)
        have hnodup := hperm.nodup_iff.mpr (nodup_insertRecord h.integrity.nodup)
        refine ⟨fun hretained => ?_, ?_⟩
        · exact (List.nodup_append.mp hnodup).2.2 _ hretained _ hdropped rfl
        · have hmem := hperm.mem_iff.mp (List.mem_append_right _ hdropped)
          rcases List.mem_cons.mp hmem with hself | hold
          · exact Or.inl hself
          · exact Or.inr ((List.filter_sublist.map SessionRecord.sessionId).subset hold)
  | @prune c r sessionId dropped retained hc =>
      have hold := h.facts c
      rw [hc] at hold
      obtain ⟨hretained, hdropped, hsaved⟩ := hold
      have howned : (s.phase c).owned = some r.sessionId := by rw [hc]; rfl
      have hunlisted : sessionId ∉ sessionIds s.index := hguard
      -- a payload that is dropped without being listed is that of this call's own session
      have hself : sessionId = r.sessionId :=
        (hdropped sessionId List.mem_cons_self).2.resolve_right hunlisted
      refine h.update rfl ?_ (Or.inl rfl) (fun _ => h.lock_of_phase hc trivial)
        (fun _ _ hc' => hc') (fun _ hmem => hmem) (fun _ hmem => hmem)
        (fun _ hmem => Or.inl hmem) (h.owned_of_owned howned) ?_ ?_
      · refine h.integrity.update rfl rfl ?_ trivial
        intro other hmem hsome
        exact isSome_update_none (fun heq => hunlisted (heq ▸ hmem)) hsome
      · intro c' other hne hother hsome
        refine isSome_update_none (fun heq => hne ?_) hsome
        exact h.distinct c' c other hother (heq ▸ hself ▸ howned)
      · refine ⟨hretained, fun other hmem => hdropped other (List.mem_cons_of_mem _ hmem), ?_⟩
        intro hmem
        exact absurd (hself ▸ hmem) (hdropped sessionId List.mem_cons_self).1
  | @pruneFails c r sessionId dropped retained hc =>
      have hold := h.facts c
      rw [hc] at hold
      obtain ⟨hretained, hdropped, hsaved⟩ := hold
      refine h.move (fun _ => h.lock_of_phase hc trivial) trivial ?_ ?_
      · rintro _ ⟨⟩
        rw [hc]
        rfl
      · exact ⟨hretained, fun other hmem => hdropped other (List.mem_cons_of_mem _ hmem), hsaved⟩
  | @writeOpened c r retained hc =>
      have hold := h.facts c
      rw [hc] at hold
      obtain ⟨hretained, -, hsaved⟩ := hold
      have howned : (s.phase c).owned = some r.sessionId := by rw [hc]; rfl
      have hkept : r ∈ retained := by
        rw [hretained]
        exact mem_pruneSessionRecords_insert_iff.mpr (hguard r retained hc)
      have hlisted : r.sessionId ∈ sessionIds retained := List.mem_map_of_mem hkept
      refine h.update rfl ⟨?_, ?_, ?_, ?_⟩ (Or.inr (h.lock_of_phase hc trivial))
        (fun _ => h.lock_of_phase hc trivial) (fun _ _ hc' => hc') (fun _ hmem => hmem)
        (fun _ hmem => hmem) (fun _ hmem => Or.inl hmem) (h.owned_of_owned howned)
        (fun _ _ _ _ hsome => hsome) trivial
      · have hperm := perm_pruneSessionRecords limit (insertRecord r s.index)
        have hnodup := hperm.nodup_iff.mpr (nodup_insertRecord h.integrity.nodup)
        rw [← hretained] at hnodup
        exact (List.nodup_append.mp hnodup).1
      · intro other hmem
        obtain ⟨record, hrecord, rfl⟩ := List.mem_map.mp hmem
        rw [hretained] at hrecord
        rcases List.mem_cons.mp (mem_pruneSessionRecords hrecord) with rfl | hbefore
        · exact hsaved hlisted
        · exact h.integrity.payloads _ (List.mem_map_of_mem (List.mem_of_mem_filter hbefore))
      · rw [hretained]
        exact length_pruneSessionRecords_le _ _
      · exact h.integrity.lists_of_update rfl hlisted
  | @beginRefresh c r hc hsome =>
      exact h.move (fun hl => hl.elim) trivial (fun _ hnew => nomatch hnew) trivial
  | @saveRefreshed c r hc =>
      exact h.update rfl
        (h.integrity.update rfl rfl (fun _ _ hsome => isSome_update_some _ _ hsome) trivial)
        (Or.inl rfl) (fun hl => hl.elim) (fun _ _ hc' => hc') (fun _ hmem => hmem)
        (fun _ hmem => hmem) (fun _ hmem => Or.inl hmem) (fun _ hnew => nomatch hnew)
        (fun _ _ _ _ hsome => isSome_update_some _ _ hsome) trivial
  | @lockRefresh c r hc hfree =>
      exact h.update rfl (h.integrity.update rfl rfl (fun _ _ hsome => hsome) trivial)
        (Or.inl rfl) (fun _ => rfl) (fun _ _ hc' => nomatch hfree.symm.trans hc')
        (fun _ hmem => hmem) (fun _ hmem => hmem) (fun _ hmem => Or.inl hmem)
        (fun _ hnew => nomatch hnew) (fun _ _ _ _ hsome => hsome) trivial
  | @writeRefreshed c r hc =>
      obtain ⟨hsaved, hroom⟩ := hguard r hc
      have hids := sessionIds_refreshedRecords r s.index
      refine h.update rfl ⟨?_, ?_, ?_, ?_⟩ (Or.inr (h.lock_of_phase hc trivial))
        (fun _ => h.lock_of_phase hc trivial) (fun _ _ hc' => hc') (fun _ hmem => hmem)
        (fun _ hmem => hmem) (fun _ hmem => Or.inl hmem) (fun _ hnew => nomatch hnew)
        (fun _ _ _ _ hsome => hsome) trivial
      · rw [hids]
        split
        case isTrue => exact h.integrity.nodup
        case isFalse habsent => exact List.nodup_cons.mpr ⟨habsent, h.integrity.nodup⟩
      · rw [hids]
        split
        case isTrue => exact h.integrity.payloads
        case isFalse => exact List.forall_mem_cons.mpr ⟨hsaved, h.integrity.payloads⟩
      · exact (length_refreshedRecords_le_iff h.integrity.bounded).mpr hroom
      · exact h.integrity.lists_of_update rfl (mem_sessionIds_refreshedRecords r s.index)
  | @release c opens r records hc =>
      have hlists := h.integrity.listed c
      rw [hc] at hlists
      refine h.update rfl (h.integrity.update rfl rfl (fun _ _ hsome => hsome) hlists)
        (Or.inl rfl) (fun hl => hl.elim) (fun _ hne hc' => freedLock_of_ne hne hc')
        (fun _ hmem => hmem) ?_ ?_ (fun _ hnew => nomatch hnew)
        (fun _ _ _ _ hsome => hsome) trivial
      · intro sessionId hmem
        cases opens with
        | false => exact hmem
        | true => exact List.mem_cons_of_mem _ hmem
      · intro sessionId hmem
        cases opens with
        | false => exact Or.inl hmem
        | true =>
            rcases List.mem_cons.mp hmem with rfl | hbefore
            · exact Or.inr (by rw [hc]; rfl)
            · exact Or.inl hbefore
  | @beginRemove c sessionId hc hknown =>
      exact h.move (fun hl => hl.elim) trivial (fun _ hnew => nomatch hnew) hknown
  | @lockRemove c sessionId hc hfree =>
      have hknown := h.facts c
      rw [hc] at hknown
      exact h.update rfl (h.integrity.update rfl rfl (fun _ _ hsome => hsome) trivial)
        (Or.inl rfl) (fun _ => rfl) (fun _ _ hc' => nomatch hfree.symm.trans hc')
        (fun _ hmem => hmem) (fun _ hmem => hmem) (fun _ hmem => Or.inl hmem)
        (fun _ hnew => nomatch hnew) (fun _ _ _ _ hsome => hsome) hknown
  | @unlinkRemoved c sessionId hc =>
      have hknown := h.facts c
      rw [hc] at hknown
      have hunlisted : sessionId ∉ sessionIds s.index := hguard
      refine h.update rfl (h.integrity.update rfl rfl ?_ trivial)
        (Or.inl rfl) (fun _ => h.lock_of_phase hc trivial) (fun _ _ hc' => hc')
        (fun _ hmem => hmem) (fun _ hmem => hmem) (fun _ hmem => Or.inl hmem)
        (fun _ hnew => nomatch hnew) ?_ trivial
      · intro other hmem hsome
        exact isSome_update_none (fun heq => hunlisted (heq ▸ hmem)) hsome
      · intro c' other _ hother hsome
        -- a session that is being opened is not yet known, so it is not the removed one
        refine isSome_update_none (fun heq => ?_) hsome
        exact (h.owned c' other hother).2 (heq ▸ hknown)
  | @writeRemoved c sessionId hc =>
      refine h.update rfl ⟨?_, ?_, ?_, ?_⟩ (Or.inr (h.lock_of_phase hc trivial))
        (fun hl => hl.elim) (fun _ hne hc' => freedLock_of_ne hne hc') (fun _ hmem => hmem)
        (fun _ hmem => hmem) (fun _ hmem => Or.inl hmem) (fun _ hnew => nomatch hnew)
        (fun _ _ _ _ hsome => hsome) trivial
      · exact h.integrity.nodup.sublist (List.filter_sublist.map _)
      · intro other hmem
        exact h.integrity.payloads _ ((List.filter_sublist.map _).subset hmem)
      · exact (List.length_filter_le _ _).trans h.integrity.bounded
      · exact h.integrity.lists_of_update rfl trivial
  | @stop c hc =>
      exact h.update rfl (h.integrity.update rfl rfl (fun _ _ hsome => hsome) trivial)
        (Or.inl rfl) (fun hl => hl.elim) (fun _ hne hc' => freedLock_of_ne hne hc')
        (fun _ hmem => hmem) (fun _ hmem => hmem) (fun _ hmem => Or.inl hmem)
        (fun _ hnew => nomatch hnew) (fun _ _ _ _ hsome => hsome) trivial

omit [DecidableEq Call] in
/-- The start of a run. -/
theorem sessionInv_of_init
    (hintegrity : SessionIntegrity limit s)
    (hidle : ∀ c, s.phase c = .idle)
    (hknown : ∀ sessionId ∈ s.known, sessionId ∈ s.issued) :
    SessionInv limit s := by
  refine ⟨hintegrity, ?_, ?_, ?_, hknown, ?_⟩
  · intro c hlocked
    rw [hidle c] at hlocked
    exact hlocked.elim
  · intro c sessionId howned
    rw [hidle c] at howned
    cases howned
  · intro c c' sessionId howned
    rw [hidle c] at howned
    cases howned
  · intro c
    rw [hidle c]
    trivial

/-- What a step that breaks the condition does. -/
theorem SessionInv.keepsIntegrity
    {e : SessionEvent Call}
    (h : SessionInv limit s)
    (hstep : SessionStep limit s e s')
    (h' : SessionIntegrity limit s') :
    KeepsIntegrity limit s e := by
  have hgone : ∀ sessionId, sessionId ∈ sessionIds s.index → s'.index = s.index →
      s'.payloads sessionId = none → False := by
    intro sessionId hmem hindex hnone
    have hsome := h'.payloads sessionId (hindex ▸ hmem)
    rw [hnone] at hsome
    cases hsome
  cases hstep with
  | prune => exact fun hmem => hgone _ hmem rfl (Function.update_self ..)
  | unlinkRemoved => exact fun hmem => hgone _ hmem rfl (Function.update_self ..)
  | @writeOpened c r retained hc =>
      intro r' retained' hc'
      rw [hc] at hc'
      cases hc'
      have hold := h.facts c
      rw [hc] at hold
      have hlists : (Function.update s.phase c (.written true r retained) c).Lists := h'.listed c
      rw [Function.update_self] at hlists
      obtain ⟨kept, hkept, hid⟩ := List.mem_map.mp hlists
      rw [hold.1] at hkept
      -- no other record of the index has the id of the new one
      rcases List.mem_cons.mp (mem_pruneSessionRecords hkept) with rfl | hbefore
      · exact mem_pruneSessionRecords_insert_iff.mp hkept
      · exact absurd hid (of_decide_eq_true (List.mem_filter.mp hbefore).2)
  | @writeRefreshed c r hc =>
      intro r' hc'
      rw [hc] at hc'
      cases hc'
      exact ⟨h'.payloads _ (mem_sessionIds_refreshedRecords r s.index),
        (length_refreshedRecords_le_iff h.integrity.bounded).mp h'.bounded⟩
  | _ => trivial

end Integrity

/-! ## The index -/

/-- A root without sessions. -/
def noSessions : SessionState Nat where
  index := []
  payloads := fun _ => none
  lock := none
  phase := fun _ => .idle
  issued := []
  known := []

/-- The root with a limit of one session that has the session `a`. -/
def oneSession : SessionState Nat where
  index := [⟨"a", "1"⟩]
  payloads := fun sessionId => if sessionId = "a" then some "1" else none
  lock := none
  phase := fun _ => .idle
  issued := ["a"]
  known := ["a"]

end Session
end TensorGrep
