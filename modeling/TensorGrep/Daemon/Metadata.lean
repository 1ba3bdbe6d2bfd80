import Mathlib.Tactic
import TensorGrep.Kernel.StepSystem

/-!
# The metadata of the daemon

A daemon publishes its process id and its port in `daemon.json`, and the file is
how it is found.  Whoever removes the file compares it with the daemon that it
means, reads it once more just before, and then removes what is at the path.
Between the comparison and the removal another daemon can publish.

Every access to the file system is a step of its own, and daemons and clients
take their steps in any order.  A process can die at any time; then its id can
be given to another process.
-/

namespace TensorGrep
namespace Daemon

open Kernel

/-- The fields of `daemon.json` that identify a daemon, as far as they are numbers.
`publisher` tells who wrote the file, for our eyes only. -/
structure DaemonMetadata (DaemonProc : Type) where
  publisher : Option DaemonProc
  pid : Option Int
  port : Option Int
deriving DecidableEq

/-- The guard of `_remove_daemon_metadata`; without expectations the removal is not guarded. -/
def removalAllowed
    {DaemonProc : Type}
    (expectedPid expectedPort : Option Int)
    (current : Option (DaemonMetadata DaemonProc)) : Bool :=
  if expectedPid.isSome || expectedPort.isSome then
    match current with
    | none => false
    | some current =>
        !(expectedPid.isSome && current.pid != expectedPid) &&
          !(expectedPort.isSome && current.port != expectedPort)
  else true

/-- Where a daemon stands.  It is `serving` from the publication of its metadata on. -/
inductive DaemonPhase where
  | absent
  | launched (pid : Int)
  | bound (pid port : Int)
  | serving (pid port : Int)
  | closing (pid port : Int)
  | unlinking (pid port : Int)
  | gone
deriving DecidableEq

/-- The process id of a live daemon. -/
def DaemonPhase.pid : DaemonPhase → Option Int
  | .launched pid => some pid
  | .bound pid _ => some pid
  | .serving pid _ => some pid
  | .closing pid _ => some pid
  | .unlinking pid _ => some pid
  | _ => none

/-- The port that a live daemon is bound to. -/
def DaemonPhase.port : DaemonPhase → Option Int
  | .bound _ port => some port
  | .serving _ port => some port
  | .closing _ port => some port
  | .unlinking _ port => some port
  | _ => none

/-- The daemon is still serving. -/
def DaemonPhase.isServing : DaemonPhase → Prop
  | .serving _ _ => True
  | _ => False

/-- Where a client stands that starts or stops a daemon.  `target` is the publisher of the
metadata from which the stopping client has the identity. -/
inductive ClientPhase (DaemonProc : Type) where
  | idle
  | acquiring (attempts : Nat)
  | found (attempts : Nat)
  | reclaiming (attempts : Nat)
  | holding
  | cleared
  | launching
  | stopping (target : Option DaemonProc) (pid : Int) (port : Option Int)
  | unlinking (target : Option DaemonProc)
  | finished
deriving DecidableEq

/-- The files and the processes.  `startLock` is the time of modification of the start lock. -/
structure RootState (DaemonProc Client : Type) where
  metadata : Option (DaemonMetadata DaemonProc)
  startLock : Option Nat
  now : Nat
  daemon : DaemonProc → DaemonPhase
  client : Client → ClientPhase DaemonProc

/-- What can happen. -/
inductive RootEvent (DaemonProc Client : Type) where
  | tick (now : Nat)
  | launch (d : DaemonProc)
  | bind (d : DaemonProc)
  | publish (d : DaemonProc)
  | shutdown (d : DaemonProc)
  | guardOwn (d : DaemonProc)
  | guardOwnFails (d : DaemonProc)
  | unlinkOwn (d : DaemonProc)
  | unlinkOwnFails (d : DaemonProc)
  | die (d : DaemonProc)
  | beginStart (c : Client)
  | createLock (c : Client)
  | statLock (c : Client)
  | statLockFails (c : Client)
  | reclaimLock (c : Client)
  | reclaimLockFails (c : Client)
  | clear (c : Client)
  | clearFails (c : Client)
  | spawn (c : Client) (d : DaemonProc)
  | releaseLock (c : Client)
  | releaseLockFails (c : Client)
  | beginStop (c : Client)
  | beginStopFails (c : Client)
  | guardTarget (c : Client)
  | guardTargetFails (c : Client)
  | unlinkTarget (c : Client)
  | unlinkTargetFails (c : Client)
  | dieClient (c : Client)

section Steps

variable {DaemonProc Client : Type} [DecidableEq DaemonProc] [DecidableEq Client]

/-- The state in which `d` has come to `phase`. -/
def RootState.setDaemon
    (s : RootState DaemonProc Client)
    (d : DaemonProc)
    (phase : DaemonPhase) : RootState DaemonProc Client :=
  { s with daemon := Function.update s.daemon d phase }

/-- The state in which `c` has come to `phase`. -/
def RootState.setClient
    (s : RootState DaemonProc Client)
    (c : Client)
    (phase : ClientPhase DaemonProc) : RootState DaemonProc Client :=
  { s with client := Function.update s.client c phase }

/-- What is left of the two attempts at the start lock after one has reclaimed it. -/
def nextAttempt : Nat → ClientPhase DaemonProc
  | 0 => .finished
  | attempts + 1 => .acquiring attempts

/-- No live daemon has the process id. -/
def PidFree
    (s : RootState DaemonProc Client)
    (pid : Int) : Prop :=
  ∀ d, (s.daemon d).pid ≠ some pid

/-- The effect of an event.  A daemon can also be launched by hand, without the start lock.  The
system gives ids and ports that no live daemon has.  Every access to the file system can fail. -/
inductive RootStep (staleAfter : Nat) :
    RootState DaemonProc Client → RootEvent DaemonProc Client →
      RootState DaemonProc Client → Prop
  | tick {s : RootState DaemonProc Client} {now : Nat} :
      RootStep staleAfter s (.tick now) { s with now := now }
  | launch {s : RootState DaemonProc Client} {d : DaemonProc} {pid : Int} :
      s.daemon d = .absent →
      PidFree s pid →
      RootStep staleAfter s (.launch d) (s.setDaemon d (.launched pid))
  | bind {s : RootState DaemonProc Client} {d : DaemonProc} {pid port : Int} :
      s.daemon d = .launched pid →
      (∀ d', (s.daemon d').port ≠ some port) →
      RootStep staleAfter s (.bind d) (s.setDaemon d (.bound pid port))
  | publish {s : RootState DaemonProc Client} {d : DaemonProc} {pid port : Int} :
      s.daemon d = .bound pid port →
      RootStep staleAfter s (.publish d)
        { s.setDaemon d (.serving pid port) with metadata := some ⟨some d, some pid, some port⟩ }
  | shutdown {s : RootState DaemonProc Client} {d : DaemonProc} {pid port : Int} :
      s.daemon d = .serving pid port →
      RootStep staleAfter s (.shutdown d) (s.setDaemon d (.closing pid port))
  | guardOwn {s : RootState DaemonProc Client} {d : DaemonProc} {pid port : Int} :
      s.daemon d = .closing pid port →
      RootStep staleAfter s (.guardOwn d)
        (s.setDaemon d
          (if removalAllowed (some pid) (some port) s.metadata then .unlinking pid port
          else .gone))
  | guardOwnFails {s : RootState DaemonProc Client} {d : DaemonProc} {pid port : Int} :
      s.daemon d = .closing pid port →
      RootStep staleAfter s (.guardOwnFails d) (s.setDaemon d .gone)
  | unlinkOwn {s : RootState DaemonProc Client} {d : DaemonProc} {pid port : Int} :
      s.daemon d = .unlinking pid port →
      RootStep staleAfter s (.unlinkOwn d) { s.setDaemon d .gone with metadata := none }
  | unlinkOwnFails {s : RootState DaemonProc Client} {d : DaemonProc} {pid port : Int} :
      s.daemon d = .unlinking pid port →
      RootStep staleAfter s (.unlinkOwnFails d) (s.setDaemon d .gone)
  | die {s : RootState DaemonProc Client} {d : DaemonProc} :
      s.daemon d ≠ .absent →
      RootStep staleAfter s (.die d) (s.setDaemon d .gone)
  | beginStart {s : RootState DaemonProc Client} {c : Client} :
      s.client c = .idle →
      RootStep staleAfter s (.beginStart c) (s.setClient c (.acquiring 1))
  | createLock {s : RootState DaemonProc Client} {c : Client} {attempts : Nat} :
      s.client c = .acquiring attempts →
      s.startLock = none →
      RootStep staleAfter s (.createLock c)
        { s.setClient c .holding with startLock := some s.now }
  | createLockExists {s : RootState DaemonProc Client} {c : Client} {attempts mtime : Nat} :
      s.client c = .acquiring attempts →
      s.startLock = some mtime →
      RootStep staleAfter s (.createLock c) (s.setClient c (.found attempts))
  | statLock {s : RootState DaemonProc Client} {c : Client} {attempts mtime : Nat} :
      s.client c = .found attempts →
      s.startLock = some mtime →
      RootStep staleAfter s (.statLock c)
        (s.setClient c
          (if staleAfter < s.now - mtime then .reclaiming attempts else .finished))
  | statLockFails {s : RootState DaemonProc Client} {c : Client} {attempts : Nat} :
      s.client c = .found attempts →
      RootStep staleAfter s (.statLockFails c) (s.setClient c .finished)
  | reclaimLock {s : RootState DaemonProc Client} {c : Client} {attempts : Nat} :
      s.client c = .reclaiming attempts →
      RootStep staleAfter s (.reclaimLock c)
        { s.setClient c (nextAttempt attempts) with startLock := none }
  | reclaimLockFails {s : RootState DaemonProc Client} {c : Client} {attempts : Nat} :
      s.client c = .reclaiming attempts →
      RootStep staleAfter s (.reclaimLockFails c) (s.setClient c .finished)
  | clear {s : RootState DaemonProc Client} {c : Client} :
      s.client c = .holding →
      RootStep staleAfter s (.clear c) { s.setClient c .cleared with metadata := none }
  | clearFails {s : RootState DaemonProc Client} {c : Client} :
      s.client c = .holding →
      RootStep staleAfter s (.clearFails c) (s.setClient c .cleared)
  | spawn {s : RootState DaemonProc Client} {c : Client} {d : DaemonProc} {pid : Int} :
      s.client c = .cleared →
      s.daemon d = .absent →
      PidFree s pid →
      RootStep staleAfter s (.spawn c d)
        ((s.setClient c .launching).setDaemon d (.launched pid))
  | releaseLock {s : RootState DaemonProc Client} {c : Client} :
      s.client c = .holding ∨ s.client c = .cleared ∨ s.client c = .launching →
      RootStep staleAfter s (.releaseLock c)
        { s.setClient c .finished with startLock := none }
  | releaseLockFails {s : RootState DaemonProc Client} {c : Client} :
      s.client c = .holding ∨ s.client c = .cleared ∨ s.client c = .launching →
      RootStep staleAfter s (.releaseLockFails c) (s.setClient c .finished)
  | beginStop {s : RootState DaemonProc Client} {c : Client}
      {current : DaemonMetadata DaemonProc} {pid : Int} :
      s.client c = .idle →
      s.metadata = some current →
      current.pid = some pid →
      RootStep staleAfter s (.beginStop c)
        (s.setClient c (.stopping current.publisher pid current.port))
  | beginStopFails {s : RootState DaemonProc Client} {c : Client} :
      s.client c = .idle →
      RootStep staleAfter s (.beginStopFails c) (s.setClient c .finished)
  | guardTarget {s : RootState DaemonProc Client} {c : Client} {target : Option DaemonProc}
      {pid : Int} {port : Option Int} :
      s.client c = .stopping target pid port →
      RootStep staleAfter s (.guardTarget c)
        (s.setClient c
          (if removalAllowed (some pid) port s.metadata then .unlinking target
          else .finished))
  | guardTargetFails {s : RootState DaemonProc Client} {c : Client}
      {target : Option DaemonProc} {pid : Int} {port : Option Int} :
      s.client c = .stopping target pid port →
      RootStep staleAfter s (.guardTargetFails c) (s.setClient c .finished)
  | unlinkTarget {s : RootState DaemonProc Client} {c : Client} {target : Option DaemonProc} :
      s.client c = .unlinking target →
      RootStep staleAfter s (.unlinkTarget c)
        { s.setClient c .finished with metadata := none }
  | unlinkTargetFails {s : RootState DaemonProc Client} {c : Client}
      {target : Option DaemonProc} :
      s.client c = .unlinking target →
      RootStep staleAfter s (.unlinkTargetFails c) (s.setClient c .finished)
  | dieClient {s : RootState DaemonProc Client} {c : Client} :
      RootStep staleAfter s (.dieClient c) (s.setClient c .finished)

/-- No daemon and no client has begun; files of earlier ones may be there. -/
def daemonRoot
    (DaemonProc Client : Type)
    [DecidableEq DaemonProc]
    [DecidableEq Client]
    (staleAfter : Nat) :
    StepSystem (RootState DaemonProc Client) (RootEvent DaemonProc Client) where
  init s := (∀ d, s.daemon d = .absent) ∧ (∀ c, s.client c = .idle) ∧
    ∀ current, s.metadata = some current → current.publisher = none
  step := RootStep staleAfter

end Steps

/-! ## What a removal relies on -/

section Removal

variable {DaemonProc Client : Type} {staleAfter : Nat} {s s' : RootState DaemonProc Client}

/-- The serving daemon with the identity is the target. -/
def IdentifiesTarget
    (s : RootState DaemonProc Client)
    (target : Option DaemonProc)
    (pid : Int)
    (port : Option Int) : Prop :=
  ∀ d dport, s.daemon d = .serving pid dport → port = none ∨ port = some dport →
    target = some d

/-- The file that is there was published by the target, unless its publisher does not serve. -/
def SparesOthers
    (s : RootState DaemonProc Client)
    (target : Option DaemonProc) : Prop :=
  ∀ current d, s.metadata = some current → current.publisher = some d →
    (s.daemon d).isServing → target = some d

/-- What holds in every run where publications stay apart from removals. -/
structure MetadataInv (s : RootState DaemonProc Client) : Prop where
  pids : ∀ d d' pid, (s.daemon d).pid = some pid → (s.daemon d').pid = some pid → d = d'
  published : ∀ current d pid port, s.metadata = some current → current.publisher = some d →
    s.daemon d = .serving pid port → current.pid = some pid ∧ current.port = some port
  owner : ∀ current d pid port, s.metadata = some current → s.daemon d = .serving pid port →
    current.pid = some pid → current.publisher = some d
  stopping : ∀ c target pid port, s.client c = .stopping target pid port →
    IdentifiesTarget s target pid port
  unlinkingOwn : ∀ d pid port, s.daemon d = .unlinking pid port → SparesOthers s (some d)
  unlinkingTarget : ∀ c target, s.client c = .unlinking target → SparesOthers s target

/-- A guarded removal unlinks the metadata of another daemon that is still serving. -/
def HidesServing (s : RootState DaemonProc Client) : RootEvent DaemonProc Client → Prop
  | .unlinkOwn d => ¬ SparesOthers s (some d)
  | .unlinkTarget c => ∃ target, s.client c = .unlinking target ∧ ¬ SparesOthers s target
  | _ => False

/-- No daemon publishes between the comparison and the unlinking of a removal, and none publishes
the process id and the port of another daemon that a client is about to stop. -/
def PublishesApart (s : RootState DaemonProc Client) : RootEvent DaemonProc Client → Prop
  | .publish d =>
      (∀ d' pid port, s.daemon d' ≠ .unlinking pid port) ∧
        (∀ c target, s.client c ≠ .unlinking target) ∧
        ∀ c target pid port dport, s.client c = .stopping target pid port →
          s.daemon d = .bound pid dport → port = none ∨ port = some dport → target = some d
  | _ => True

/-- The metadata and the serving daemons can become fewer. -/
theorem MetadataInv.shrink
    (h : MetadataInv s)
    (hmetadata : ∀ current, s'.metadata = some current → s.metadata = some current)
    (hserving : ∀ d pid port, s'.daemon d = .serving pid port → s.daemon d = .serving pid port)
    (hpids : ∀ d d' pid, (s'.daemon d).pid = some pid → (s'.daemon d').pid = some pid → d = d')
    (hstopping : ∀ c target pid port, s'.client c = .stopping target pid port →
      IdentifiesTarget s target pid port)
    (hown : ∀ d pid port, s'.daemon d = .unlinking pid port → SparesOthers s (some d))
    (htarget : ∀ c target, s'.client c = .unlinking target → SparesOthers s target) :
    MetadataInv s' := by
  have hspares : ∀ target, SparesOthers s target → SparesOthers s' target := by
    intro target hold current d hcurrent hpublisher hserves
    refine hold current d (hmetadata current hcurrent) hpublisher ?_
    cases hphase : s'.daemon d with
    | serving pid port =>
        rw [hserving d pid port hphase]
        trivial
    | _ =>
        rw [hphase] at hserves
        exact hserves.elim
  refine ⟨hpids, ?_, ?_, ?_, ?_, ?_⟩
  · intro current d pid port hcurrent hpublisher hd
    exact h.published current d pid port (hmetadata _ hcurrent) hpublisher (hserving _ _ _ hd)
  · intro current d pid port hcurrent hd
    exact h.owner current d pid port (hmetadata _ hcurrent) (hserving _ _ _ hd)
  · intro c target pid port hc d dport hd
    exact hstopping c target pid port hc d dport (hserving _ _ _ hd)
  · exact fun d pid port hd => hspares _ (hown d pid port hd)
  · exact fun c target hc => hspares _ (htarget c target hc)

variable [DecidableEq DaemonProc] [DecidableEq Client]

omit [DecidableEq DaemonProc] in
/-- A client goes on, and may remove the metadata. -/
theorem MetadataInv.moveClient
    {c : Client}
    {phase : ClientPhase DaemonProc}
    {metadata : Option (DaemonMetadata DaemonProc)}
    {startLock : Option Nat}
    (h : MetadataInv s)
    (hmetadata : metadata = s.metadata ∨ metadata = none)
    (hstopping : ∀ target pid port, phase = .stopping target pid port →
      IdentifiesTarget s target pid port)
    (htarget : ∀ target, phase = .unlinking target → SparesOthers s target) :
    MetadataInv { s.setClient c phase with metadata := metadata, startLock := startLock } := by
  refine h.shrink ?_ (fun _ _ _ hd => hd) h.pids ?_ h.unlinkingOwn ?_
  · rintro current hcurrent
    rcases hmetadata with rfl | rfl
    · exact hcurrent
    · cases hcurrent
  · intro c' target pid port hc'
    rcases eq_or_of_update hc' with ⟨-, hphase⟩ | ⟨-, hold⟩
    · exact hstopping target pid port hphase
    · exact h.stopping c' target pid port hold
  · intro c' target hc'
    rcases eq_or_of_update hc' with ⟨-, hphase⟩ | ⟨-, hold⟩
    · exact htarget target hphase
    · exact h.unlinkingTarget c' target hold

omit [DecidableEq Client] in
/-- Live daemons keep different process ids. -/
theorem MetadataInv.pids_setDaemon
    {d : DaemonProc}
    {phase : DaemonPhase}
    (h : MetadataInv s)
    (hpid : ∀ pid, phase.pid = some pid → (s.daemon d).pid = some pid ∨ PidFree s pid)
    (e e' : DaemonProc)
    (pid : Int)
    (he : ((s.setDaemon d phase).daemon e).pid = some pid)
    (he' : ((s.setDaemon d phase).daemon e').pid = some pid) :
    e = e' := by
  have hpids : ∀ e, ((s.setDaemon d phase).daemon e).pid = some pid →
      e = d ∧ phase.pid = some pid ∨ e ≠ d ∧ (s.daemon e).pid = some pid := by
    intro e he
    by_cases hed : e = d
    · subst hed
      simp only [RootState.setDaemon, Function.update_self] at he
      exact Or.inl ⟨rfl, he⟩
    · simp only [RootState.setDaemon, Function.update_of_ne hed] at he
      exact Or.inr ⟨hed, he⟩
  rcases hpids e he with ⟨rfl, hnew⟩ | ⟨-, hold⟩ <;>
    rcases hpids e' he' with ⟨rfl, hnew'⟩ | ⟨-, hold'⟩
  · rfl
  · rcases hpid pid hnew with hsame | hfree
    · exact h.pids _ _ pid hsame hold'
    · exact absurd hold' (hfree e')
  · rcases hpid pid hnew' with hsame | hfree
    · exact h.pids _ _ pid hold hsame
    · exact absurd hold (hfree e)
  · exact h.pids _ _ pid hold hold'

/-- A daemon goes on, and may remove the metadata. -/
theorem MetadataInv.moveDaemon
    {d : DaemonProc}
    {phase : DaemonPhase}
    {metadata : Option (DaemonMetadata DaemonProc)}
    (h : MetadataInv s)
    (hmetadata : metadata = s.metadata ∨ metadata = none)
    (hserving : ¬ phase.isServing)
    (hpid : ∀ pid, phase.pid = some pid → (s.daemon d).pid = some pid ∨ PidFree s pid)
    (hown : ∀ pid port, phase = .unlinking pid port → SparesOthers s (some d)) :
    MetadataInv { s.setDaemon d phase with metadata := metadata } := by
  refine h.shrink ?_ ?_ (h.pids_setDaemon hpid) h.stopping ?_ h.unlinkingTarget
  · rintro current hcurrent
    rcases hmetadata with rfl | rfl
    · exact hcurrent
    · cases hcurrent
  · intro e pid port he
    rcases eq_or_of_update he with ⟨-, hphase⟩ | ⟨-, hold⟩
    · rw [hphase] at hserving
      exact absurd trivial hserving
    · exact hold
  · intro e pid port he
    rcases eq_or_of_update he with ⟨rfl, hphase⟩ | ⟨-, hold⟩
    · exact hown pid port hphase
    · exact h.unlinkingOwn e pid port hold

/-- A daemon publishes apart from the removals. -/
theorem MetadataInv.publish
    {d : DaemonProc}
    {pid port : Int}
    (h : MetadataInv s)
    (hbound : s.daemon d = .bound pid port)
    (hguard : PublishesApart s (.publish d)) :
    MetadataInv
      { s.setDaemon d (.serving pid port) with
        metadata := some ⟨some d, some pid, some port⟩ } := by
  obtain ⟨hown, htarget, hstop⟩ := hguard
  have hpids := @MetadataInv.pids_setDaemon _ _ s _ d (.serving pid port) h
    (fun pid' hpid => Or.inl (by rw [hbound]; exact hpid))
  have hself : ((s.setDaemon d (.serving pid port)).daemon d).pid = some pid := by
    simp [RootState.setDaemon, DaemonPhase.pid]
  refine ⟨hpids, ?_, ?_, ?_, ?_, ?_⟩
  · rintro current e epid eport ⟨⟩ ⟨⟩ he
    rcases eq_or_of_update he with ⟨-, hphase⟩ | ⟨hne, -⟩
    · cases hphase
      exact ⟨rfl, rfl⟩
    · exact absurd rfl hne
  · rintro current e epid eport ⟨⟩ he ⟨⟩
    have hepid : ((s.setDaemon d (.serving pid port)).daemon e).pid = some pid := by
      rw [show (s.setDaemon d (.serving pid port)).daemon e = .serving pid eport from he]
      rfl
    exact congrArg some (hpids d e pid hself hepid)
  · intro c target cpid cport hc e eport he hport
    rcases eq_or_of_update he with ⟨rfl, hphase⟩ | ⟨-, hold⟩
    · cases hphase
      exact hstop c target pid cport port hc hbound hport
    · exact h.stopping c target cpid cport hc e eport hold hport
  · intro e epid eport he
    rcases eq_or_of_update he with ⟨-, hphase⟩ | ⟨-, hold⟩
    · cases hphase
    · exact absurd hold (hown e epid eport)
  · exact fun c target hc => absurd hc (htarget c target)

omit [DecidableEq DaemonProc] in
/-- What a guard has found. -/
theorem of_removalAllowed
    {pid : Int}
    {port : Option Int}
    {metadata : Option (DaemonMetadata DaemonProc)}
    (h : removalAllowed (some pid) port metadata = true) :
    ∃ current, metadata = some current ∧ current.pid = some pid ∧
      (port = none ∨ current.port = port) := by
  cases metadata with
  | none => simp [removalAllowed] at h
  | some current =>
      refine ⟨current, rfl, ?_⟩
      cases port <;> simp_all [removalAllowed]

omit [DecidableEq Client] in
/-- Where the guard lets a removal pass, the file is that of the target. -/
theorem MetadataInv.spares_of_allowed
    {target : Option DaemonProc}
    {pid : Int}
    {port : Option Int}
    (h : MetadataInv s)
    (htarget : IdentifiesTarget s target pid port)
    (hallowed : removalAllowed (some pid) port s.metadata = true) :
    SparesOthers s target := by
  obtain ⟨current, hcurrent, hpid, hport⟩ := of_removalAllowed hallowed
  intro current' d hcurrent' hpublisher hserves
  obtain rfl := Option.some.inj (hcurrent.symm.trans hcurrent')
  cases hphase : s.daemon d with
  | serving dpid dport =>
      obtain ⟨hdpid, hdport⟩ := h.published current d dpid dport hcurrent hpublisher hphase
      obtain rfl : dpid = pid := Option.some.inj (hdpid.symm.trans hpid)
      refine htarget d dport hphase ?_
      rcases hport with hnone | hsame
      · exact Or.inl hnone
      · exact Or.inr (hsame.symm.trans hdport)
  | _ =>
      rw [hphase] at hserves
      exact hserves.elim

/-- A client that is not about to remove anything. -/
def ClientPhase.plain : ClientPhase DaemonProc → Prop
  | .stopping _ _ _ => False
  | .unlinking _ => False
  | _ => True

/-- A client goes on and is not about to remove anything. -/
theorem MetadataInv.plainClient
    {c : Client}
    {phase : ClientPhase DaemonProc}
    {metadata : Option (DaemonMetadata DaemonProc)}
    {startLock : Option Nat}
    (h : MetadataInv s)
    (hmetadata : metadata = s.metadata ∨ metadata = none)
    (hplain : phase.plain) :
    MetadataInv { s.setClient c phase with metadata := metadata, startLock := startLock } := by
  refine h.moveClient hmetadata ?_ ?_
  · rintro target pid port rfl
    exact hplain.elim
  · rintro target rfl
    exact hplain.elim

/-- A daemon is gone. -/
theorem MetadataInv.endDaemon
    {metadata : Option (DaemonMetadata DaemonProc)}
    (h : MetadataInv s)
    (hmetadata : metadata = s.metadata ∨ metadata = none)
    (d : DaemonProc) :
    MetadataInv { s.setDaemon d .gone with metadata := metadata } := by
  refine h.moveDaemon hmetadata (fun hs => hs) ?_ ?_
  · intro pid hpid
    cases hpid
  · intro pid port hphase
    cases hphase

/-- A live daemon goes on with its process id. -/
theorem MetadataInv.liveDaemon
    {d : DaemonProc}
    {phase : DaemonPhase}
    (h : MetadataInv s)
    (hserving : ¬ phase.isServing)
    (hpid : phase.pid = (s.daemon d).pid)
    (hown : ∀ pid port, phase = .unlinking pid port → SparesOthers s (some d)) :
    MetadataInv (s.setDaemon d phase) :=
  h.moveDaemon (Or.inl rfl) hserving (fun _ he => Or.inl (hpid ▸ he)) hown

/-- No step of a run with separate publications breaks what removals rely on. -/
theorem MetadataInv.step
    {e : RootEvent DaemonProc Client}
    (h : MetadataInv s)
    (hguard : PublishesApart s e)
    (hstep : RootStep staleAfter s e s') :
    MetadataInv s' := by
  cases hstep with
  | tick =>
      exact h.shrink (fun _ hc => hc) (fun _ _ _ hd => hd) h.pids h.stopping h.unlinkingOwn
        h.unlinkingTarget
  | launch _ hfree =>
      refine h.moveDaemon (Or.inl rfl) (fun hs => hs) ?_ (fun _ _ he => by cases he)
      rintro _ ⟨⟩
      exact Or.inr hfree
  | bind hd _ =>
      exact h.liveDaemon (fun hs => hs) (by rw [hd]; rfl) (fun _ _ he => by cases he)
  | publish hd => exact h.publish hd hguard
  | shutdown hd =>
      exact h.liveDaemon (fun hs => hs) (by rw [hd]; rfl) (fun _ _ he => by cases he)
  | @guardOwn d pid port hd =>
      -- the daemon that has the process id is the one that is closing
      have htarget : IdentifiesTarget s (some d) pid (some port) := by
        intro d' dport hd' _
        exact congrArg some (h.pids d d' pid (by rw [hd]; rfl) (by rw [hd']; rfl))
      split_ifs with hallowed
      · exact h.liveDaemon (fun hs => hs) (by rw [hd]; rfl)
          (fun _ _ _ => h.spares_of_allowed htarget hallowed)
      · exact h.endDaemon (Or.inl rfl) d
  | guardOwnFails _ => exact h.endDaemon (Or.inl rfl) _
  | unlinkOwn _ => exact h.endDaemon (Or.inr rfl) _
  | unlinkOwnFails _ => exact h.endDaemon (Or.inl rfl) _
  | die _ => exact h.endDaemon (Or.inl rfl) _
  | beginStart _ => exact h.plainClient (Or.inl rfl) trivial
  | createLock _ _ => exact h.plainClient (Or.inl rfl) trivial
  | createLockExists _ _ => exact h.plainClient (Or.inl rfl) trivial
  | statLock _ _ =>
      refine h.plainClient (Or.inl rfl) ?_
      split_ifs <;> trivial
  | statLockFails _ => exact h.plainClient (Or.inl rfl) trivial
  | @reclaimLock c attempts _ =>
      refine h.plainClient (Or.inl rfl) ?_
      cases attempts <;> trivial
  | reclaimLockFails _ => exact h.plainClient (Or.inl rfl) trivial
  | clear _ => exact h.plainClient (Or.inr rfl) trivial
  | clearFails _ => exact h.plainClient (Or.inl rfl) trivial
  | @spawn c d pid _ _ hfree =>
      have hclient : MetadataInv (s.setClient c .launching) :=
        h.plainClient (Or.inl rfl) trivial
      refine hclient.moveDaemon (Or.inl rfl) (fun hs => hs) ?_ (fun _ _ he => by cases he)
      rintro _ ⟨⟩
      exact Or.inr hfree
  | releaseLock _ => exact h.plainClient (Or.inl rfl) trivial
  | releaseLockFails _ => exact h.plainClient (Or.inl rfl) trivial
  | @beginStop c current pid _ hcurrent hpid =>
      refine h.moveClient (Or.inl rfl) ?_ (fun _ he => by cases he)
      rintro _ _ _ ⟨⟩ d dport hd _
      exact h.owner current d pid dport hcurrent hd hpid
  | beginStopFails _ => exact h.plainClient (Or.inl rfl) trivial
  | @guardTarget c target pid port hc =>
      split_ifs with hallowed
      · refine h.moveClient (Or.inl rfl) (fun _ _ _ he => by cases he) ?_
        rintro _ ⟨⟩
        exact h.spares_of_allowed (h.stopping c target pid port hc) hallowed
      · exact h.plainClient (Or.inl rfl) trivial
  | guardTargetFails _ => exact h.plainClient (Or.inl rfl) trivial
  | unlinkTarget _ => exact h.plainClient (Or.inr rfl) trivial
  | unlinkTargetFails _ => exact h.plainClient (Or.inl rfl) trivial
  | dieClient => exact h.plainClient (Or.inl rfl) trivial

/-- In every run with separate publications, no guarded removal hides another daemon that is
still serving. -/
theorem cleanup_spares_serving
    {e : RootEvent DaemonProc Client}
    (h : (daemonRoot DaemonProc Client staleAfter).Reachable PublishesApart s)
    (hstep : RootStep staleAfter s e s') :
    ¬ HidesServing s e := by
  have hinv : MetadataInv s := by
    refine StepSystem.Reachable.invariant ?_ (fun _ _ _ hs hguard hstep => hs.step hguard hstep) h
    rintro s ⟨hdaemon, hclient, hpublisher⟩
    refine ⟨?_, ?_, ?_, ?_, ?_, ?_⟩
    · intro d d' pid hd
      rw [hdaemon d] at hd
      cases hd
    · intro current d pid port _ _ hd
      rw [hdaemon d] at hd
      cases hd
    · intro current d pid port _ hd
      rw [hdaemon d] at hd
      cases hd
    · intro c target pid port hc
      rw [hclient c] at hc
      cases hc
    · intro d pid port hd
      rw [hdaemon d] at hd
      cases hd
    · intro c target hc
      rw [hclient c] at hc
      cases hc
  cases hstep with
  | unlinkOwn hd => exact fun hhides => hhides (hinv.unlinkingOwn _ _ _ hd)
  | unlinkTarget hc =>
      rintro ⟨target, hc', hhides⟩
      exact hhides (hinv.unlinkingTarget _ _ hc')
  | _ => exact fun hhides => hhides

end Removal

/-! ## A daemon and its replacement -/

/-- Two daemons, one client and no file. -/
def emptyRoot : RootState Bool Unit where
  metadata := none
  startLock := none
  now := 0
  daemon := fun _ => .absent
  client := fun _ => .idle

/-- The first daemon has served, the second is bound and has not published. -/
def closingRoot : RootState Bool Unit where
  metadata := some ⟨some false, some 10, some 4000⟩
  startLock := none
  now := 0
  daemon := fun d => if d then .bound 11 4001 else .closing 10 4000
  client := fun _ => .idle

theorem reachable_closingRoot
    {guard : RootState Bool Unit → RootEvent Bool Unit → Prop}
    (hguard : ∀ s e, PublishesApart s e → guard s e) :
    (daemonRoot Bool Unit 30).Reachable guard closingRoot := by
  have h0 : (daemonRoot Bool Unit 30).Reachable guard emptyRoot :=
    .start ⟨fun _ => rfl, fun _ => rfl, fun _ hc => by cases hc⟩
  have h1 := h0.next (hguard _ (.launch false) trivial)
    (@RootStep.launch _ _ _ _ 30 _ false 10 rfl (fun d hd => by cases hd))
  have h2 := h1.next (hguard _ (.bind false) trivial)
    (@RootStep.bind _ _ _ _ 30 _ false 10 4000 rfl (fun d hd => by cases d <;> cases hd))
  have hfirst : PublishesApart
      ((emptyRoot.setDaemon false (.launched 10)).setDaemon false (.bound 10 4000))
      (.publish false) := by
    refine ⟨?_, ?_, ?_⟩
    · intro d pid port hd
      cases d <;> cases hd
    · intro c target hc
      cases hc
    · intro c target pid port dport hc
      cases hc
  have h3 := h2.next (hguard _ (.publish false) hfirst)
    (@RootStep.publish _ _ _ _ 30 _ false 10 4000 rfl)
  have h4 := h3.next (hguard _ (.launch true) trivial)
    (@RootStep.launch _ _ _ _ 30 _ true 11 rfl (fun d hd => by cases d <;> cases hd))
  have h5 := h4.next (hguard _ (.bind true) trivial)
    (@RootStep.bind _ _ _ _ 30 _ true 11 4001 rfl (fun d hd => by cases d <;> cases hd))
  have h6 := h5.next (hguard _ (.shutdown false) trivial)
    (@RootStep.shutdown _ _ _ _ 30 _ false 10 4000 rfl)
  convert h6 using 1
  simp only [closingRoot, emptyRoot, RootState.setDaemon]
  congr 1
  funext d
  cases d <;> rfl

/-- The first daemon removes its own metadata. -/
theorem cleanup_spares_serving_own :
    ∃ s : RootState Bool Unit, s.daemon false = .unlinking 10 4000 ∧
      s.metadata = some ⟨some false, some 10, some 4000⟩ ∧
      ¬ HidesServing s (.unlinkOwn false) := by
  have h0 := reachable_closingRoot (fun _ _ hguard => hguard)
  have h1 := h0.next (by trivial) (@RootStep.guardOwn _ _ _ _ 30 _ false 10 4000 rfl)
  exact ⟨_, rfl, rfl, cleanup_spares_serving h1 (RootStep.unlinkOwn rfl)⟩

/-- The second daemon publishes after the first has compared the file, and is hidden. -/
theorem cleanup_hides_replacement :
    ∃ s s' : RootState Bool Unit,
      (daemonRoot Bool Unit 30).Reachable (fun _ _ => True) s ∧
        RootStep 30 s (.unlinkOwn false) s' ∧ HidesServing s (.unlinkOwn false) ∧
        s'.metadata = none ∧ (s'.daemon true).isServing := by
  have h0 := @reachable_closingRoot (fun _ _ => True) (fun _ _ _ => trivial)
  have h1 := h0.next trivial (@RootStep.guardOwn _ _ _ _ 30 _ false 10 4000 rfl)
  have h2 := h1.next trivial (@RootStep.publish _ _ _ _ 30 _ true 11 4001 rfl)
  refine ⟨_, _, h2, RootStep.unlinkOwn rfl, ?_, rfl, trivial⟩
  intro hspares
  have hsame := hspares _ true rfl rfl trivial
  cases hsame

end Daemon
end TensorGrep
