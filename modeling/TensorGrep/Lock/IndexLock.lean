import TensorGrep.Kernel.StepSystem

/-!
# The index lock

A process holds the lock of an index while a lock file that it has created stands
at the path of the lock.  The file is created exclusively, its age is its time of
modification, and it is removed by its name.  A waiter removes a file that is
older than `staleAfter`, a holder touches its file from time to time, and on
release it removes the file at the path if that has its token.

`LockProc` is one acquisition.  Every access to the file system is a step of its
own, so anything can happen between reading the age or the token of a file and
removing what is at the path.
-/

namespace TensorGrep
namespace Lock

open Kernel

/-- The file at the path of the lock.  `ino` tells files apart that stand at the path one after
the other, `token` is what `_token_for_lock` reads. -/
structure LockFile where
  ino : Nat
  mtime : Nat
  token : Option String
deriving DecidableEq

/-- The file is older than `staleAfter`. -/
def LockFile.stale
    (staleAfter now : Nat)
    (f : LockFile) : Prop :=
  staleAfter < now - f.mtime

instance
    (staleAfter now : Nat)
    (f : LockFile) :
    Decidable (f.stale staleAfter now) :=
  inferInstanceAs (Decidable (staleAfter < now - f.mtime))

/-- Where an acquisition stands.  A reclaimer remembers the file whose age it has read, and a
releasing process the file whose token it has read. -/
inductive Phase where
  | idle
  | trying (deadline : Nat)
  | found (deadline : Nat)
  | reclaiming (deadline ino : Nat)
  | waiting (deadline : Nat)
  | timedOut
  | created (ino : Nat)
  | inside (ino : Nat) (token : String)
  | releasing (token : String)
  | unlinking (ino : Nat)
  | released
  | dead
deriving DecidableEq

/-- Where the heartbeat of an acquisition stands. -/
inductive Heartbeat where
  | stopped
  | sleeping (token : String)
  | checked (token : String)
deriving DecidableEq

/-- The file system, the clocks and the processes.  `now` is the time of day, `monotonic` the
clock of the deadlines, `issued` the tokens that have been given out. -/
structure LockState (LockProc : Type) where
  file : Option LockFile
  nextIno : Nat
  now : Nat
  monotonic : Nat
  phase : LockProc → Phase
  heartbeat : LockProc → Heartbeat
  issued : List String

/-- What can happen. -/
inductive LockEvent (LockProc : Type) where
  | tick (now monotonic : Nat)
  | begin (p : LockProc)
  | create (p : LockProc)
  | createFails (p : LockProc)
  | stat (p : LockProc)
  | statFails (p : LockProc)
  | reclaim (p : LockProc) (ino : Nat)
  | reclaimFails (p : LockProc)
  | retry (p : LockProc)
  | timeout (p : LockProc)
  | write (p : LockProc)
  | writeFails (p : LockProc)
  | leave (p : LockProc)
  | readToken (p : LockProc)
  | readFails (p : LockProc)
  | unlink (p : LockProc) (ino : Nat)
  | unlinkFails (p : LockProc)
  | beat (p : LockProc)
  | beatFails (p : LockProc)
  | touch (p : LockProc)
  | stopHeartbeat (p : LockProc)
  | die (p : LockProc)

section Steps

variable {LockProc : Type} [DecidableEq LockProc]

/-- The state in which `p` has come to `phase`. -/
def LockState.setPhase
    (s : LockState LockProc)
    (p : LockProc)
    (phase : Phase) : LockState LockProc :=
  { s with phase := Function.update s.phase p phase }

/-- The state in which the heartbeat of `p` has come to `heartbeat`. -/
def LockState.setHeartbeat
    (s : LockState LockProc)
    (p : LockProc)
    (heartbeat : Heartbeat) : LockState LockProc :=
  { s with heartbeat := Function.update s.heartbeat p heartbeat }

/-- A token is written to the file that was opened as `ino`, wherever that file is now. -/
def writeToken
    (ino now : Nat)
    (token : String)
    (f : LockFile) : LockFile :=
  if f.ino = ino then { f with mtime := now, token := some token } else f

/-- The effect of an event.  The time of day can jump; tokens are fresh.  Every access to the
file system can fail at any time.  A write that fails lets the process of one implementation go
on and makes that of the other release at once. -/
inductive LockStep (staleAfter : Nat) :
    LockState LockProc → LockEvent LockProc → LockState LockProc → Prop
  | tick {s : LockState LockProc} {now monotonic : Nat} :
      s.monotonic ≤ monotonic →
      LockStep staleAfter s (.tick now monotonic) { s with now := now, monotonic := monotonic }
  | begin {s : LockState LockProc} {p : LockProc} {timeout : Nat} :
      s.phase p = .idle →
      LockStep staleAfter s (.begin p) (s.setPhase p (.trying (s.monotonic + timeout)))
  | create {s : LockState LockProc} {p : LockProc} {deadline : Nat} :
      s.phase p = .trying deadline →
      s.file = none →
      LockStep staleAfter s (.create p)
        { s.setPhase p (.created s.nextIno) with
          file := some ⟨s.nextIno, s.now, none⟩
          nextIno := s.nextIno + 1 }
  | createExists {s : LockState LockProc} {p : LockProc} {deadline : Nat} {f : LockFile} :
      s.phase p = .trying deadline →
      s.file = some f →
      LockStep staleAfter s (.create p) (s.setPhase p (.found deadline))
  | createFails {s : LockState LockProc} {p : LockProc} {deadline : Nat} :
      s.phase p = .trying deadline →
      LockStep staleAfter s (.createFails p) (s.setPhase p (.waiting deadline))
  | statStale {s : LockState LockProc} {p : LockProc} {deadline : Nat} {f : LockFile} :
      s.phase p = .found deadline →
      s.file = some f →
      f.stale staleAfter s.now →
      LockStep staleAfter s (.stat p) (s.setPhase p (.reclaiming deadline f.ino))
  | statFresh {s : LockState LockProc} {p : LockProc} {deadline : Nat} {f : LockFile} :
      s.phase p = .found deadline →
      s.file = some f →
      ¬ f.stale staleAfter s.now →
      LockStep staleAfter s (.stat p) (s.setPhase p (.waiting deadline))
  | statFails {s : LockState LockProc} {p : LockProc} {deadline : Nat} :
      s.phase p = .found deadline →
      LockStep staleAfter s (.statFails p) (s.setPhase p (.waiting deadline))
  | reclaim {s : LockState LockProc} {p : LockProc} {deadline ino : Nat} :
      s.phase p = .reclaiming deadline ino →
      LockStep staleAfter s (.reclaim p ino)
        { s.setPhase p (.trying deadline) with file := none }
  | reclaimFails {s : LockState LockProc} {p : LockProc} {deadline ino : Nat} :
      s.phase p = .reclaiming deadline ino →
      LockStep staleAfter s (.reclaimFails p) (s.setPhase p (.trying deadline))
  | retry {s : LockState LockProc} {p : LockProc} {deadline : Nat} :
      s.phase p = .waiting deadline →
      s.monotonic < deadline →
      LockStep staleAfter s (.retry p) (s.setPhase p (.trying deadline))
  | timeout {s : LockState LockProc} {p : LockProc} {deadline : Nat} :
      s.phase p = .waiting deadline →
      deadline ≤ s.monotonic →
      LockStep staleAfter s (.timeout p) (s.setPhase p .timedOut)
  | write {s : LockState LockProc} {p : LockProc} {ino : Nat} {token : String} :
      s.phase p = .created ino →
      token ∉ s.issued →
      LockStep staleAfter s (.write p)
        { (s.setPhase p (.inside ino token)).setHeartbeat p (.sleeping token) with
          file := s.file.map (writeToken ino s.now token)
          issued := token :: s.issued }
  | enterUnwritten {s : LockState LockProc} {p : LockProc} {ino : Nat} {token : String} :
      s.phase p = .created ino →
      token ∉ s.issued →
      LockStep staleAfter s (.writeFails p)
        { (s.setPhase p (.inside ino token)).setHeartbeat p (.sleeping token) with
          issued := token :: s.issued }
  | releaseUnwritten {s : LockState LockProc} {p : LockProc} {ino : Nat} {token : String} :
      s.phase p = .created ino →
      token ∉ s.issued →
      LockStep staleAfter s (.writeFails p)
        { s.setPhase p (.releasing token) with issued := token :: s.issued }
  | leave {s : LockState LockProc} {p : LockProc} {ino : Nat} {token : String} :
      s.phase p = .inside ino token →
      LockStep staleAfter s (.leave p) (s.setPhase p (.releasing token))
  | readOwn {s : LockState LockProc} {p : LockProc} {token : String} {f : LockFile} :
      s.phase p = .releasing token →
      s.file = some f →
      f.token = some token →
      LockStep staleAfter s (.readToken p) (s.setPhase p (.unlinking f.ino))
  | readOther {s : LockState LockProc} {p : LockProc} {token : String} :
      s.phase p = .releasing token →
      (∀ f, s.file = some f → f.token ≠ some token) →
      LockStep staleAfter s (.readToken p) (s.setPhase p .released)
  | readFails {s : LockState LockProc} {p : LockProc} {token : String} :
      s.phase p = .releasing token →
      LockStep staleAfter s (.readFails p) (s.setPhase p .released)
  | unlink {s : LockState LockProc} {p : LockProc} {ino : Nat} :
      s.phase p = .unlinking ino →
      LockStep staleAfter s (.unlink p ino) { s.setPhase p .released with file := none }
  | unlinkFails {s : LockState LockProc} {p : LockProc} {ino : Nat} :
      s.phase p = .unlinking ino →
      LockStep staleAfter s (.unlinkFails p) (s.setPhase p .released)
  | beatOwn {s : LockState LockProc} {p : LockProc} {token : String} {f : LockFile} :
      s.heartbeat p = .sleeping token →
      s.file = some f →
      f.token = some token →
      LockStep staleAfter s (.beat p) (s.setHeartbeat p (.checked token))
  | beatOther {s : LockState LockProc} {p : LockProc} {token : String} :
      s.heartbeat p = .sleeping token →
      (∀ f, s.file = some f → f.token ≠ some token) →
      LockStep staleAfter s (.beat p) (s.setHeartbeat p .stopped)
  | beatFails {s : LockState LockProc} {p : LockProc} {token : String} :
      s.heartbeat p = .sleeping token →
      LockStep staleAfter s (.beatFails p) (s.setHeartbeat p .stopped)
  | touch {s : LockState LockProc} {p : LockProc} {token : String} :
      s.heartbeat p = .checked token →
      LockStep staleAfter s (.touch p)
        { s.setHeartbeat p (.sleeping token) with
          file := s.file.map fun f => { f with mtime := s.now } }
  | stopHeartbeat {s : LockState LockProc} {p : LockProc} :
      LockStep staleAfter s (.stopHeartbeat p) (s.setHeartbeat p .stopped)
  | die {s : LockState LockProc} {p : LockProc} :
      LockStep staleAfter s (.die p) ((s.setPhase p .dead).setHeartbeat p .stopped)

/-- No acquisition has begun; an abandoned lock file may be there. -/
def indexLock
    (LockProc : Type)
    [DecidableEq LockProc]
    (staleAfter : Nat) : StepSystem (LockState LockProc) (LockEvent LockProc) where
  init s := (∀ p, s.phase p = .idle) ∧ (∀ p, s.heartbeat p = .stopped) ∧
    ∀ f, s.file = some f → f.ino < s.nextIno ∧ ∀ token, f.token = some token → token ∈ s.issued
  step := LockStep staleAfter

end Steps

end Lock
end TensorGrep
