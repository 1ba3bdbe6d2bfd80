import Mathlib.Tactic
import TensorGrep.Kernel.StepSystem

/-!
# The life of the daemon

Each request has a handler thread, and a monitor shuts the daemon down when it is
idle or has been up for too long.  A handler counts its request between the
check of the token and the end of its work; the monitor waits until none is
counted.  The response is written after the request has left the count, and the
threads die with the process.

Every section under the lock of the counters is one step, and every reading of
the clock and every write is another, so that anything can happen in between.
-/

namespace TensorGrep
namespace Daemon

open Kernel

/-- The limits of the monitor; a limit that is not positive is off. -/
structure LifecycleLimits where
  idleLimit : Int
  maxUptime : Int
  drainGrace : Int

/-- Where the handler of a request stands.  `rejected` is the end of a request that was not
authenticated, `replied` the point where the reply to `stop` or `ping` has been written, before
the request leaves the count. -/
inductive RequestPhase where
  | absent
  | read
  | rejected
  | authorized
  | noted
  | dispatching
  | replied
  | responded
  | drained
  | written
deriving DecidableEq

/-- The token of the request was accepted. -/
def RequestPhase.authenticated : RequestPhase → Prop
  | .absent => False
  | .read => False
  | .rejected => False
  | _ => True

/-- The request is in `inflight_requests`. -/
def RequestPhase.counted : RequestPhase → Prop
  | .dispatching => True
  | .replied => True
  | .responded => True
  | _ => False

/-- The whole response has been written. -/
def RequestPhase.answered : RequestPhase → Prop
  | .replied => True
  | .written => True
  | _ => False

/-- The token was accepted and the request not counted yet, or it has left the count and the
response is not yet written. -/
def RequestPhase.uncounted : RequestPhase → Prop
  | .authorized => True
  | .noted => True
  | .drained => True
  | _ => False

/-- Where the monitor stands. -/
inductive MonitorPhase where
  | waiting
  | polled (now : Int)
  | triggering
  | returned
deriving DecidableEq

/-- The daemon.  `clock` is what `monotonic` answers. -/
structure DaemonState (Request : Type) where
  clock : Int
  startedAt : Int
  lastActivityAt : Int
  inflightRequests : Int
  phase : Request → RequestPhase
  monitor : MonitorPhase
  shutdownCalled : Bool
  serving : Bool
  exited : Bool

/-- The idle limit is reached. -/
def LifecycleLimits.idleReached
    (limits : LifecycleLimits)
    (idleFor : Int) : Bool :=
  0 < limits.idleLimit && limits.idleLimit ≤ idleFor

/-- The limit of the time that the daemon is up is reached. -/
def LifecycleLimits.uptimeReached
    (limits : LifecycleLimits)
    (uptime : Int) : Bool :=
  0 < limits.maxUptime && limits.maxUptime ≤ uptime

/-- The monitor no longer waits for the requests that are in flight. -/
def LifecycleLimits.pastHardDrain
    (limits : LifecycleLimits)
    (uptime : Int) : Bool :=
  0 < limits.maxUptime && limits.maxUptime + limits.drainGrace ≤ uptime

/-- What one poll of `_run_daemon_lifecycle_monitor` decides. -/
def LifecycleLimits.shutsDown
    (limits : LifecycleLimits)
    (now startedAt lastActivityAt inflight : Int) : Bool :=
  let idleFor := now - lastActivityAt
  let uptime := now - startedAt
  if !(limits.idleReached idleFor || limits.uptimeReached uptime) then false
  else if 0 < inflight then limits.pastHardDrain uptime
  else true

/-- What can happen. -/
inductive DaemonEvent (Request : Type) where
  | tick (clock : Int)
  | accept (r : Request)
  | reject (r : Request)
  | authorize (r : Request)
  | noteActivity (r : Request)
  | count (r : Request)
  | reply (r : Request) (stop : Bool)
  | respond (r : Request)
  | drain (r : Request)
  | write (r : Request)
  | readClock
  | poll
  | trigger
  | stopMonitor
  | stopServing
  | exit
deriving DecidableEq

section Steps

variable {Request : Type} [DecidableEq Request] (limits : LifecycleLimits)

/-- The state in which the handler of `r` has come to `phase`. -/
def DaemonState.setPhase
    (s : DaemonState Request)
    (r : Request)
    (phase : RequestPhase) : DaemonState Request :=
  { s with phase := Function.update s.phase r phase }

/-- The effect of an event.  Nothing happens after the process has exited. -/
inductive DaemonStep : DaemonState Request → DaemonEvent Request → DaemonState Request → Prop
  | tick {s : DaemonState Request} {clock : Int} :
      s.exited = false →
      s.clock ≤ clock →
      DaemonStep s (.tick clock) { s with clock := clock }
  | accept {s : DaemonState Request} {r : Request} :
      s.exited = false →
      s.serving = true →
      s.phase r = .absent →
      DaemonStep s (.accept r) (s.setPhase r .read)
  | reject {s : DaemonState Request} {r : Request} :
      s.exited = false →
      s.phase r = .read →
      DaemonStep s (.reject r) (s.setPhase r .rejected)
  | authorize {s : DaemonState Request} {r : Request} :
      s.exited = false →
      s.phase r = .read →
      DaemonStep s (.authorize r) (s.setPhase r .authorized)
  | noteActivity {s : DaemonState Request} {r : Request} :
      s.exited = false →
      s.phase r = .authorized →
      DaemonStep s (.noteActivity r)
        { s.setPhase r .noted with lastActivityAt := s.clock }
  | count {s : DaemonState Request} {r : Request} :
      s.exited = false →
      s.phase r = .noted →
      DaemonStep s (.count r)
        { s.setPhase r .dispatching with inflightRequests := s.inflightRequests + 1 }
  | reply {s : DaemonState Request} {r : Request} {stop : Bool} :
      s.exited = false →
      s.phase r = .dispatching →
      DaemonStep s (.reply r stop)
        { s.setPhase r .replied with shutdownCalled := s.shutdownCalled || stop }
  | respond {s : DaemonState Request} {r : Request} :
      s.exited = false →
      s.phase r = .dispatching →
      DaemonStep s (.respond r) (s.setPhase r .responded)
  | drainReplied {s : DaemonState Request} {r : Request} :
      s.exited = false →
      s.phase r = .replied →
      DaemonStep s (.drain r)
        { s.setPhase r .written with inflightRequests := s.inflightRequests - 1 }
  | drain {s : DaemonState Request} {r : Request} :
      s.exited = false →
      s.phase r = .responded →
      DaemonStep s (.drain r)
        { s.setPhase r .drained with inflightRequests := s.inflightRequests - 1 }
  | write {s : DaemonState Request} {r : Request} :
      s.exited = false →
      s.phase r = .drained →
      DaemonStep s (.write r) (s.setPhase r .written)
  | readClock {s : DaemonState Request} :
      s.exited = false →
      s.monitor = .waiting →
      DaemonStep s .readClock { s with monitor := .polled s.clock }
  | poll {s : DaemonState Request} {now : Int} :
      s.exited = false →
      s.monitor = .polled now →
      DaemonStep s .poll
        { s with
          monitor :=
            if limits.shutsDown now s.startedAt s.lastActivityAt s.inflightRequests then
              .triggering
            else .waiting }
  | trigger {s : DaemonState Request} :
      s.exited = false →
      s.monitor = .triggering →
      DaemonStep s .trigger { s with monitor := .returned, shutdownCalled := true }
  | stopMonitor {s : DaemonState Request} :
      s.exited = false →
      s.serving = false →
      s.monitor = .waiting →
      DaemonStep s .stopMonitor { s with monitor := .returned }
  | stopServing {s : DaemonState Request} :
      s.exited = false →
      s.shutdownCalled = true →
      DaemonStep s .stopServing { s with serving := false }
  | exit {s : DaemonState Request} :
      s.exited = false →
      s.serving = false →
      DaemonStep s .exit { s with exited := true }

/-- The daemon, from its start on.  The monitor returns at once when both limits are off. -/
def daemonLifecycle
    (Request : Type)
    [DecidableEq Request] : StepSystem (DaemonState Request) (DaemonEvent Request) where
  init s := s.startedAt ≤ s.lastActivityAt ∧ s.lastActivityAt ≤ s.clock ∧
    s.inflightRequests = 0 ∧ (∀ r, s.phase r = .absent) ∧
    s.monitor = (if limits.idleLimit ≤ 0 ∧ limits.maxUptime ≤ 0 then .returned else .waiting) ∧
    s.shutdownCalled = false ∧ s.serving = true ∧ s.exited = false
  step := DaemonStep limits

end Steps

/-! ## What is counted -/

section Counted

variable {Request : Type} {limits : LifecycleLimits} {s s' : DaemonState Request}

/-- The requests in flight. -/
def countedRequests (s : DaemonState Request) : Set Request :=
  {r | (s.phase r).counted}

/-- `inflight_requests` counts the requests in flight. -/
def CountsInflight (s : DaemonState Request) : Prop :=
  (countedRequests s).Finite ∧ s.inflightRequests = (countedRequests s).ncard

variable [DecidableEq Request]

theorem phase_setPhase
    {r q : Request}
    {phase : RequestPhase} :
    (s.setPhase r phase).phase q = if q = r then phase else s.phase q :=
  Function.update_apply ..

theorem counted_setPhase_of_iff
    {r : Request}
    {phase : RequestPhase}
    (h : phase.counted ↔ (s.phase r).counted) :
    countedRequests (s.setPhase r phase) = countedRequests s := by
  ext q
  simp only [countedRequests, Set.mem_ofPred_eq, phase_setPhase]
  split_ifs with hq
  · rw [hq, h]
  · rfl

theorem counted_setPhase_of_counted
    {r : Request}
    {phase : RequestPhase}
    (h : phase.counted) :
    countedRequests (s.setPhase r phase) = insert r (countedRequests s) := by
  ext q
  simp only [countedRequests, Set.mem_ofPred_eq, Set.mem_insert_iff, phase_setPhase]
  split_ifs with hq
  · simp [hq, h]
  · simp [hq]

theorem counted_setPhase_of_not_counted
    {r : Request}
    {phase : RequestPhase}
    (h : ¬ phase.counted) :
    countedRequests (s.setPhase r phase) = countedRequests s \ {r} := by
  ext q
  simp only [countedRequests, Set.mem_ofPred_eq, Set.mem_sdiff, Set.mem_singleton_iff,
    phase_setPhase]
  split_ifs with hq
  · simp [hq, h]
  · simp [hq]

/-- A handler goes on without a change of the counter. -/
theorem CountsInflight.move
    {r : Request}
    {phase : RequestPhase}
    (h : CountsInflight s)
    (hsame : phase.counted ↔ (s.phase r).counted)
    (hphase : s'.phase = (s.setPhase r phase).phase)
    (hcount : s'.inflightRequests = s.inflightRequests) :
    CountsInflight s' := by
  have hset : countedRequests s' = countedRequests s := by
    rw [← counted_setPhase_of_iff hsame]
    simp only [countedRequests, hphase]
  rw [CountsInflight, hset, hcount]
  exact h

/-- A request leaves the count. -/
theorem CountsInflight.leave
    {r : Request}
    {phase : RequestPhase}
    (h : CountsInflight s)
    (hr : (s.phase r).counted)
    (hleft : ¬ phase.counted) :
    CountsInflight
      { s.setPhase r phase with inflightRequests := s.inflightRequests - 1 } := by
  obtain ⟨hfinite, hcount⟩ := h
  have hset := @counted_setPhase_of_not_counted _ s _ r phase hleft
  have hcard := Set.ncard_sdiff_singleton_add_one (show r ∈ countedRequests s from hr) hfinite
  refine ⟨hset ▸ hfinite.sdiff, ?_⟩
  change s.inflightRequests - 1 = ((countedRequests (s.setPhase r phase)).ncard : Int)
  rw [hset]
  omega

/-- No step makes the counter wrong. -/
theorem CountsInflight.step
    {e : DaemonEvent Request}
    (h : CountsInflight s)
    (hstep : DaemonStep limits s e s') :
    CountsInflight s' := by
  obtain ⟨hfinite, hcount⟩ := h
  cases hstep with
  | accept _ _ hr => exact CountsInflight.move ⟨hfinite, hcount⟩ (by rw [hr]; rfl) rfl rfl
  | reject _ hr => exact CountsInflight.move ⟨hfinite, hcount⟩ (by rw [hr]; rfl) rfl rfl
  | authorize _ hr => exact CountsInflight.move ⟨hfinite, hcount⟩ (by rw [hr]; rfl) rfl rfl
  | noteActivity _ hr => exact CountsInflight.move ⟨hfinite, hcount⟩ (by rw [hr]; rfl) rfl rfl
  | reply _ hr => exact CountsInflight.move ⟨hfinite, hcount⟩ (by rw [hr]; rfl) rfl rfl
  | respond _ hr => exact CountsInflight.move ⟨hfinite, hcount⟩ (by rw [hr]; rfl) rfl rfl
  | write _ hr => exact CountsInflight.move ⟨hfinite, hcount⟩ (by rw [hr]; rfl) rfl rfl
  | @count r _ hr =>
      have hset := @counted_setPhase_of_counted _ s _ r .dispatching trivial
      have hnew : r ∉ countedRequests s := by
        simp [countedRequests, hr, RequestPhase.counted]
      refine ⟨hset ▸ hfinite.insert r, ?_⟩
      change s.inflightRequests + 1 = ((countedRequests (s.setPhase r .dispatching)).ncard : Int)
      rw [hset, Set.ncard_insert_of_notMem hnew hfinite, hcount]
      rfl
  | drainReplied _ hr =>
      exact CountsInflight.leave ⟨hfinite, hcount⟩ (by rw [hr]; trivial) (fun h => h)
  | drain _ hr =>
      exact CountsInflight.leave ⟨hfinite, hcount⟩ (by rw [hr]; trivial) (fun h => h)
  | _ => exact ⟨hfinite, hcount⟩

/-- In every run, `inflight_requests` counts the requests in flight. -/
theorem countsInflight_of_reachable
    (h : (daemonLifecycle limits Request).Reachable (fun _ _ => True) s) :
    CountsInflight s := by
  refine StepSystem.Reachable.invariant ?_ (fun _ _ _ hs _ hstep => hs.step hstep) h
  intro s hinit
  have hnone : countedRequests s = ∅ := by
    ext r
    simp [countedRequests, hinit.2.2.2.1 r, RequestPhase.counted]
  rw [CountsInflight, hnone]
  exact ⟨Set.finite_empty, by simp [hinit.2.2.1]⟩

end Counted

/-! ## Shutting down -/

section Shutdown

variable {Request : Type} [DecidableEq Request] {limits : LifecycleLimits}
  {s s' : DaemonState Request}

/-- A handler goes on and keeps what it has answered. -/
theorem answered_setPhase
    {r q : Request}
    {phase : RequestPhase}
    (h : (s.phase r).answered)
    (hq : (s.phase q).answered → phase.answered) :
    ((s.setPhase q phase).phase r).answered := by
  rw [phase_setPhase]
  split_ifs with hsame
  · exact hq (hsame ▸ h)
  · exact h

/-- A response that has been written stays written. -/
theorem answered_step
    {e : DaemonEvent Request}
    {r : Request}
    (h : (s.phase r).answered)
    (hstep : DaemonStep limits s e s') :
    (s'.phase r).answered := by
  cases hstep with
  | accept _ _ hq => exact answered_setPhase h fun ha => by rw [hq] at ha; exact ha
  | reject _ hq => exact answered_setPhase h fun ha => by rw [hq] at ha; exact ha
  | authorize _ hq => exact answered_setPhase h fun ha => by rw [hq] at ha; exact ha
  | noteActivity _ hq => exact answered_setPhase h fun ha => by rw [hq] at ha; exact ha
  | count _ hq => exact answered_setPhase h fun ha => by rw [hq] at ha; exact ha
  | reply _ _ => exact answered_setPhase h fun _ => trivial
  | respond _ hq => exact answered_setPhase h fun ha => by rw [hq] at ha; exact ha
  | drainReplied _ _ => exact answered_setPhase h fun _ => trivial
  | drain _ hq => exact answered_setPhase h fun ha => by rw [hq] at ha; exact ha
  | write _ _ => exact answered_setPhase h fun _ => trivial
  | _ => exact h

/-- An authenticated request that is not in flight has its response, or is uncounted. -/
theorem answered_of_not_counted
    {phase : RequestPhase}
    (hauth : phase.authenticated)
    (hcounted : ¬ phase.counted)
    (huncounted : ¬ phase.uncounted) :
    phase.answered := by
  cases phase <;>
    simp_all [RequestPhase.authenticated, RequestPhase.counted, RequestPhase.uncounted,
      RequestPhase.answered]

theorem authenticated_of_uncounted
    {phase : RequestPhase}
    (h : phase.uncounted) :
    phase.authenticated ∧ ¬ phase.answered := by
  cases phase <;>
    simp_all [RequestPhase.authenticated, RequestPhase.uncounted, RequestPhase.answered]

/-- Below the hard limit, the monitor shuts down only when the counter is not positive. -/
theorem inflight_nonpos_of_shutsDown
    {now startedAt lastActivityAt inflight : Int}
    (h : limits.shutsDown now startedAt lastActivityAt inflight = true)
    (hbelow : limits.pastHardDrain (now - startedAt) = false) :
    inflight ≤ 0 := by
  rw [LifecycleLimits.shutsDown] at h
  split_ifs at h with hreached hinflight
  · rw [hbelow] at h
    cases h
  · exact not_lt.mp hinflight

/-- From a poll on, until the monitor calls for the shutdown, all requests that the poll found
authenticated have been answered whenever it is about to do so. -/
def ShutdownAfterAnswers
    (limits : LifecycleLimits)
    (polled after : DaemonState Request) : Prop :=
  ∀ t, (daemonLifecycle limits Request).Leads after t → t.monitor = .triggering →
    ∀ r, (polled.phase r).authenticated → (t.phase r).answered

/-- A poll below the hard limit that decides for the shutdown does so after all answers exactly
when no authenticated request is uncounted. -/
theorem shutdown_after_answers_iff
    {now : Int}
    (hreach : (daemonLifecycle limits Request).Reachable (fun _ _ => True) s)
    (hpolled : s.monitor = .polled now)
    (hbelow : limits.pastHardDrain (now - s.startedAt) = false)
    (hpoll : DaemonStep limits s .poll s')
    (hdecided : s'.monitor = .triggering) :
    ShutdownAfterAnswers limits s s' ↔ ∀ r, ¬ (s.phase r).uncounted := by
  obtain ⟨hshuts, rfl⟩ : limits.shutsDown now s.startedAt s.lastActivityAt
      s.inflightRequests = true ∧ s' = { s with monitor := .triggering } := by
    cases hpoll with
    | poll _ hnow =>
        obtain rfl := MonitorPhase.polled.inj (hpolled.symm.trans hnow)
        split_ifs at hdecided ⊢ with hif
        exact ⟨hif, rfl⟩
  constructor
  · intro h r huncounted
    obtain ⟨hauth, hnot⟩ := authenticated_of_uncounted huncounted
    exact hnot (h _ Relation.ReflTransGen.refl rfl r hauth)
  · intro hcounted t hlater _ r hauth
    refine StepSystem.Leads.invariant
      (P := fun u => (u.phase r).answered) (fun _ _ _ => answered_step) hlater ?_
    -- nothing is in flight, so the request has left the count
    refine answered_of_not_counted hauth ?_ (hcounted r)
    obtain ⟨hfinite, hcount⟩ := countsInflight_of_reachable hreach
    have hnonpos := inflight_nonpos_of_shutsDown hshuts hbelow
    have hempty : countedRequests s = ∅ := by
      rw [← Set.ncard_eq_zero hfinite]
      omega
    intro hr
    have hmem : r ∈ countedRequests s := hr
    rw [hempty] at hmem
    exact hmem

end Shutdown

/-! ## A request that runs longer than the idle limit -/

/-- An idle limit of ten, and no limit of the time that the daemon is up. -/
def idleAfterTen : LifecycleLimits where
  idleLimit := 10
  maxUptime := 0
  drainGrace := 30

/-- A daemon that has just started, and two requests that may come. -/
def startedDaemon : DaemonState Bool where
  clock := 0
  startedAt := 0
  lastActivityAt := 0
  inflightRequests := 0
  phase := fun _ => .absent
  monitor := .waiting
  shutdownCalled := false
  serving := true
  exited := false

theorem reachable_startedDaemon :
    (daemonLifecycle idleAfterTen Bool).Reachable (fun _ _ => True) startedDaemon :=
  .start ⟨le_refl 0, le_refl 0, rfl, fun _ => rfl, rfl, rfl, rfl, rfl⟩

/-- A request that was counted at zero has its response computed at twenty. -/
def respondedDaemon : DaemonState Bool where
  clock := 20
  startedAt := 0
  lastActivityAt := 0
  inflightRequests := 1
  phase := fun r => if r then .responded else .absent
  monitor := .waiting
  shutdownCalled := false
  serving := true
  exited := false

theorem reachable_respondedDaemon :
    (daemonLifecycle idleAfterTen Bool).Reachable (fun _ _ => True) respondedDaemon := by
  have h1 := reachable_startedDaemon.next trivial (DaemonStep.accept (r := true) rfl rfl rfl)
  have h2 := h1.next trivial (DaemonStep.authorize (r := true) rfl rfl)
  have h3 := h2.next trivial (DaemonStep.noteActivity (r := true) rfl rfl)
  have h4 := h3.next trivial (DaemonStep.count (r := true) rfl rfl)
  have h5 := h4.next trivial (@DaemonStep.tick _ _ idleAfterTen _ 20 rfl (by decide))
  have h6 := h5.next trivial (DaemonStep.respond (r := true) rfl rfl)
  convert h6 using 1
  rw [respondedDaemon, DaemonState.setPhase]
  congr 1
  funext r
  cases r <;> rfl

/-- The response is written before the poll that decides for the shutdown. -/
theorem shutdown_after_answers_idle :
    ∃ s s' : DaemonState Bool, s.phase true = .written ∧ s'.monitor = .triggering ∧
      ShutdownAfterAnswers idleAfterTen s s' := by
  have h1 := reachable_respondedDaemon.next trivial (DaemonStep.drain (r := true) rfl rfl)
  have h2 := h1.next trivial (DaemonStep.write (r := true) rfl rfl)
  have h3 := h2.next trivial (DaemonStep.readClock rfl rfl)
  refine ⟨_, _, ?_, ?_, (shutdown_after_answers_iff h3 rfl rfl (.poll rfl rfl) rfl).mpr ?_⟩
  · rfl
  · rfl
  · intro r
    cases r <;> exact fun h => h

/-- The poll finds the request out of the count and its response not written. -/
theorem shutdown_before_answer :
    ∃ s s' : DaemonState Bool,
      (daemonLifecycle idleAfterTen Bool).Reachable (fun _ _ => True) s ∧
        DaemonStep idleAfterTen s .poll s' ∧ s'.monitor = .triggering ∧
        (s.phase true).authenticated ∧ ¬ (s'.phase true).answered ∧
        ¬ ShutdownAfterAnswers idleAfterTen s s' := by
  have h1 := reachable_respondedDaemon.next trivial (DaemonStep.drain (r := true) rfl rfl)
  have h2 := h1.next trivial (DaemonStep.readClock rfl rfl)
  refine ⟨_, _, h2, .poll rfl rfl, rfl, trivial, fun h => h, ?_⟩
  intro h
  exact h _ Relation.ReflTransGen.refl rfl true trivial

end Daemon
end TensorGrep
