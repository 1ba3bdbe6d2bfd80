import TensorGrep.Lock.IndexLock

/-!
# Mutual exclusion

A process that removes what is at the path does not look again at what it removes:
between reading the age or the token of a file and the removal, another process
can have put its own lock file there.  `RemovesExamined` excludes this.  Then the
lock file of every holder stays where it is, and there is only one path.
-/

namespace TensorGrep
namespace Lock

open Kernel

/-- The file that the process has created and not begun to release. -/
def Phase.holds
    (ino : Nat) : Phase → Prop
  | .created i => i = ino
  | .inside i _ => i = ino
  | _ => False

/-- The file whose age or token the process has read before it removes what is at the path. -/
def Phase.examined
    (ino : Nat) : Phase → Prop
  | .reclaiming _ i => i = ino
  | .unlinking i => i = ino
  | _ => False

/-- The token of the process. -/
def Phase.token : Phase → Option String
  | .inside _ token => some token
  | .releasing token => some token
  | _ => none

section Exclusion

variable {LockProc : Type} {staleAfter : Nat} {s s' : LockState LockProc} {p : LockProc}

/-- At most one process is inside the critical section. -/
def AtMostOneInside (s : LockState LockProc) : Prop :=
  ∀ p q i j token token', s.phase p = .inside i token → s.phase q = .inside j token' → p = q

/-- The heartbeats keep the lock file of every live holder younger than `staleAfter`. -/
def HeartbeatsKeepUp
    (staleAfter : Nat)
    (s : LockState LockProc) : LockEvent LockProc → Prop
  | .tick now _ => ∀ p f, s.file = some f → (s.phase p).holds f.ino → ¬ f.stale staleAfter now
  | _ => True

/-- What is removed is the file that was examined, or at least not the lock file of a live
holder. -/
def RemovesExamined (s : LockState LockProc) : LockEvent LockProc → Prop
  | .reclaim _ ino => ∀ f, s.file = some f → f.ino = ino ∨ ∀ q, ¬ (s.phase q).holds f.ino
  | .unlink _ ino => ∀ f, s.file = some f → f.ino = ino ∨ ∀ q, ¬ (s.phase q).holds f.ino
  | _ => True

/-! ## The invariant -/

/-- What holds in every run that meets both conditions. -/
structure LockInv
    (staleAfter : Nat)
    (s : LockState LockProc) : Prop where
  held : ∀ p ino, (s.phase p).holds ino → ∃ f, s.file = some f ∧ f.ino = ino
  distinct : ∀ p q ino, (s.phase p).holds ino → (s.phase q).holds ino → p = q
  fresh : ∀ p f, s.file = some f → (s.phase p).holds f.ino → ¬ f.stale staleAfter s.now
  below : ∀ f, s.file = some f → f.ino < s.nextIno
  examined : ∀ p ino, (s.phase p).examined ino → ino < s.nextIno ∧ ∀ q, ¬ (s.phase q).holds ino
  fileToken : ∀ f token, s.file = some f → f.token = some token → token ∈ s.issued
  phaseToken : ∀ p token, (s.phase p).token = some token → token ∈ s.issued
  tokenDistinct : ∀ p q token, (s.phase p).token = some token → (s.phase q).token = some token →
    p = q
  own : ∀ p f token, s.file = some f → f.token = some token → (s.phase p).holds f.ino →
    (s.phase p).token = some token

/-- The invariant does not depend on the heartbeats and the deadlines. -/
theorem LockInv.congr
    (h : LockInv staleAfter s)
    (hfile : s'.file = s.file)
    (hino : s'.nextIno = s.nextIno)
    (hnow : s'.now = s.now)
    (hphase : s'.phase = s.phase)
    (hissued : s'.issued = s.issued) :
    LockInv staleAfter s' := by
  refine ⟨?_, ?_, ?_, ?_, ?_, ?_, ?_, ?_, ?_⟩
  · rw [hphase, hfile]
    exact h.held
  · rw [hphase]
    exact h.distinct
  · rw [hphase, hfile, hnow]
    exact h.fresh
  · rw [hfile, hino]
    exact h.below
  · rw [hphase, hino]
    exact h.examined
  · rw [hfile, hissued]
    exact h.fileToken
  · rw [hphase, hissued]
    exact h.phaseToken
  · rw [hphase]
    exact h.tokenDistinct
  · rw [hphase, hfile]
    exact h.own

variable [DecidableEq LockProc]

/-- What another process is at stays the same. -/
theorem phase_setPhase
    {phase : Phase}
    {q : LockProc} :
    (s.setPhase p phase).phase q = if q = p then phase else s.phase q :=
  Function.update_apply ..

/-- A process goes on and does not hold the lock afterwards. -/
theorem LockInv.setPhase
    {phase : Phase}
    {issued : List String}
    (h : LockInv staleAfter s)
    (hnot : ∀ ino, ¬ phase.holds ino)
    (hexamined : ∀ ino, phase.examined ino →
      ino < s.nextIno ∧ ∀ q, q ≠ p → ¬ (s.phase q).holds ino)
    (hissued : ∀ token ∈ s.issued, token ∈ issued)
    (htoken : ∀ token, phase.token = some token →
      (s.phase p).token = some token ∨ token ∉ s.issued ∧ token ∈ issued) :
    LockInv staleAfter { s.setPhase p phase with issued := issued } := by
  have hholds : ∀ q ino, ((s.setPhase p phase).phase q).holds ino →
      q ≠ p ∧ (s.phase q).holds ino := by
    intro q ino hq
    rw [phase_setPhase] at hq
    split at hq
    · exact absurd hq (hnot ino)
    · exact ⟨‹_›, hq⟩
  have htokens : ∀ q token, ((s.setPhase p phase).phase q).token = some token →
      (s.phase q).token = some token ∨ q = p ∧ token ∉ s.issued ∧ token ∈ issued := by
    intro q token hq
    rw [phase_setPhase] at hq
    split at hq
    · subst q
      exact (htoken token hq).imp_right fun hnew => ⟨rfl, hnew⟩
    · exact Or.inl hq
  refine ⟨?_, ?_, ?_, h.below, ?_, ?_, ?_, ?_, ?_⟩
  · exact fun q ino hq => h.held q ino (hholds q ino hq).2
  · exact fun q r ino hq hr => h.distinct q r ino (hholds q ino hq).2 (hholds r ino hr).2
  · exact fun q f hf hq => h.fresh q f hf (hholds q _ hq).2
  · intro q ino hq
    change ((s.setPhase p phase).phase q).examined ino at hq
    rw [phase_setPhase] at hq
    split at hq
    · obtain ⟨hlt, hno⟩ := hexamined ino hq
      exact ⟨hlt, fun r hr => hno r (hholds r ino hr).1 (hholds r ino hr).2⟩
    · obtain ⟨hlt, hno⟩ := h.examined q ino hq
      exact ⟨hlt, fun r hr => hno r (hholds r ino hr).2⟩
  · exact fun f token hf hftoken => hissued token (h.fileToken f token hf hftoken)
  · intro q token hq
    rcases htokens q token hq with hold | ⟨-, -, hmem⟩
    · exact hissued token (h.phaseToken q token hold)
    · exact hmem
  · intro q r token hq hr
    rcases htokens q token hq with hold | ⟨hqp, hnew, -⟩
    · rcases htokens r token hr with hold' | ⟨-, hnew', -⟩
      · exact h.tokenDistinct q r token hold hold'
      · exact absurd (h.phaseToken q token hold) hnew'
    · rcases htokens r token hr with hold' | ⟨hrp, -, -⟩
      · exact absurd (h.phaseToken r token hold') hnew
      · exact hqp.trans hrp.symm
  · intro q f token hf hftoken hq
    obtain ⟨hne, hold⟩ := hholds q _ hq
    change ((s.setPhase p phase).phase q).token = some token
    rw [phase_setPhase, if_neg hne]
    exact h.own q f token hf hftoken hold

/-- A process goes on with nothing in hand. -/
theorem LockInv.proceed
    {phase : Phase}
    (h : LockInv staleAfter s)
    (hnot : ∀ ino, ¬ phase.holds ino)
    (hexamined : ∀ ino, ¬ phase.examined ino)
    (htoken : phase.token = none) :
    LockInv staleAfter (s.setPhase p phase) := by
  refine h.setPhase hnot (fun ino hino => absurd hino (hexamined ino)) (fun _ hmem => hmem) ?_
  intro token hsome
  rw [htoken] at hsome
  cases hsome

omit [DecidableEq LockProc] in
/-- Where the file that was examined is the only one that can be removed, no process holds the
lock. -/
theorem LockInv.no_holder
    {ino : Nat}
    (h : LockInv staleAfter s)
    (hexamined : ∀ q, ¬ (s.phase q).holds ino)
    (hguard : ∀ f, s.file = some f → f.ino = ino ∨ ∀ q, ¬ (s.phase q).holds f.ino)
    (q : LockProc)
    (j : Nat) :
    ¬ (s.phase q).holds j := by
  intro hq
  obtain ⟨f, hf, rfl⟩ := h.held q j hq
  rcases hguard f hf with hsame | hno
  · exact hexamined q (hsame ▸ hq)
  · exact hno q hq

omit [DecidableEq LockProc] in
/-- The file at the path is removed while no process holds the lock. -/
theorem LockInv.remove
    (h : LockInv staleAfter s)
    (hno : ∀ q ino, ¬ (s.phase q).holds ino) :
    LockInv staleAfter { s with file := none } where
  held := fun q ino hq => absurd hq (hno q ino)
  distinct := h.distinct
  fresh := fun _ _ hf => by cases hf
  below := fun _ hf => by cases hf
  examined := h.examined
  fileToken := fun _ _ hf => by cases hf
  phaseToken := h.phaseToken
  tokenDistinct := h.tokenDistinct
  own := fun _ _ _ hf => by cases hf

/-- A process creates the lock file. -/
theorem inv_create
    {deadline : Nat}
    (h : LockInv staleAfter s)
    (hphase : s.phase p = .trying deadline)
    (hfile : s.file = none) :
    LockInv staleAfter
      { s.setPhase p (.created s.nextIno) with
        file := some ⟨s.nextIno, s.now, none⟩
        nextIno := s.nextIno + 1 } := by
  have hno : ∀ q ino, ¬ (s.phase q).holds ino := by
    intro q ino hq
    obtain ⟨f, hf, -⟩ := h.held q ino hq
    rw [hfile] at hf
    cases hf
  have hholds : ∀ q ino, ((s.setPhase p (.created s.nextIno)).phase q).holds ino →
      q = p ∧ ino = s.nextIno := by
    intro q ino hq
    rw [phase_setPhase] at hq
    split at hq
    · exact ⟨‹_›, hq.symm⟩
    · exact absurd hq (hno q ino)
  have htoken : ∀ q token, ((s.setPhase p (.created s.nextIno)).phase q).token = some token →
      (s.phase q).token = some token := by
    intro q token hq
    rw [phase_setPhase] at hq
    split at hq
    · cases hq
    · exact hq
  refine ⟨?_, ?_, ?_, ?_, ?_, ?_, ?_, ?_, ?_⟩
  · intro q ino hq
    exact ⟨_, rfl, (hholds q ino hq).2.symm⟩
  · exact fun q r ino hq hr => (hholds q ino hq).1.trans (hholds r ino hr).1.symm
  · rintro q _ ⟨⟩ -
    change ¬ staleAfter < s.now - s.now
    omega
  · rintro _ ⟨⟩
    exact Nat.lt_succ_self _
  · intro q ino hq
    change ((s.setPhase p (.created s.nextIno)).phase q).examined ino at hq
    rw [phase_setPhase] at hq
    split at hq
    · exact hq.elim
    · have hlt := (h.examined q ino hq).1
      exact ⟨Nat.lt_succ_of_lt hlt, fun r hr => Nat.ne_of_lt hlt (hholds r ino hr).2⟩
  · rintro _ token ⟨⟩ hftoken
    cases hftoken
  · exact fun q token hq => h.phaseToken q token (htoken q token hq)
  · exact fun q r token hq hr => h.tokenDistinct q r token (htoken q token hq) (htoken r token hr)
  · rintro q _ token ⟨⟩ hftoken
    cases hftoken

/-- A process that has created the lock file enters with a fresh token, which at most its own
file carries. -/
theorem inv_enter
    {ino : Nat}
    {token : String}
    (file : Option LockFile)
    (h : LockInv staleAfter s)
    (hphase : s.phase p = .created ino)
    (hfresh : token ∉ s.issued)
    (hkept : ∀ f, s.file = some f → ∃ f', file = some f' ∧ f'.ino = f.ino)
    (hfile : ∀ f', file = some f' → ∃ f, s.file = some f ∧ f'.ino = f.ino ∧
      (f'.mtime = f.mtime ∨ f'.mtime = s.now) ∧
      (f'.token = f.token ∨ f'.token = some token ∧ f.ino = ino)) :
    LockInv staleAfter
      { s.setPhase p (.inside ino token) with
        file := file
        issued := token :: s.issued } := by
  have hown : (s.phase p).holds ino := by
    rw [hphase]
    rfl
  have hholds : ∀ q j, ((s.setPhase p (.inside ino token)).phase q).holds j →
      (s.phase q).holds j := by
    intro q j hq
    rw [phase_setPhase] at hq
    split at hq
    · subst q
      rw [hphase]
      exact hq
    · exact hq
  have htokens : ∀ q t, ((s.setPhase p (.inside ino token)).phase q).token = some t →
      q = p ∧ t = token ∨ q ≠ p ∧ (s.phase q).token = some t := by
    intro q t hq
    rw [phase_setPhase] at hq
    split at hq
    · exact Or.inl ⟨‹_›, (Option.some.inj hq).symm⟩
    · exact Or.inr ⟨‹_›, hq⟩
  refine ⟨?_, ?_, ?_, ?_, ?_, ?_, ?_, ?_, ?_⟩
  · intro q j hq
    obtain ⟨f, hf, rfl⟩ := h.held q j (hholds q j hq)
    exact hkept f hf
  · exact fun q r j hq hr => h.distinct q r j (hholds q j hq) (hholds r j hr)
  · intro q f' hf' hq
    obtain ⟨f, hf, hino, hmtime, -⟩ := hfile f' hf'
    have hold := h.fresh q f hf (hino ▸ hholds q _ hq)
    rw [LockFile.stale] at hold ⊢
    rcases hmtime with hmtime | hmtime
    · rw [hmtime]
      exact hold
    · rw [hmtime]
      change ¬ staleAfter < s.now - s.now
      omega
  · intro f' hf'
    obtain ⟨f, hf, hino, -, -⟩ := hfile f' hf'
    rw [hino]
    exact h.below f hf
  · intro q j hq
    change ((s.setPhase p (.inside ino token)).phase q).examined j at hq
    rw [phase_setPhase] at hq
    split at hq
    · exact hq.elim
    · obtain ⟨hlt, hno⟩ := h.examined q j hq
      exact ⟨hlt, fun r hr => hno r (hholds r j hr)⟩
  · intro f' t hf' ht
    obtain ⟨f, hf, -, -, htoken⟩ := hfile f' hf'
    rcases htoken with htoken | ⟨htoken, -⟩
    · exact List.mem_cons_of_mem _ (h.fileToken f t hf (htoken ▸ ht))
    · rw [htoken] at ht
      rw [← Option.some.inj ht]
      exact List.mem_cons_self
  · intro q t hq
    rcases htokens q t hq with ⟨-, rfl⟩ | ⟨-, hq⟩
    · exact List.mem_cons_self
    · exact List.mem_cons_of_mem _ (h.phaseToken q t hq)
  · intro q r t hq hr
    rcases htokens q t hq with ⟨hqp, hnew⟩ | ⟨-, hold⟩
    · rcases htokens r t hr with ⟨hrp, -⟩ | ⟨-, hold'⟩
      · exact hqp.trans hrp.symm
      · exact absurd (h.phaseToken r t hold') (hnew ▸ hfresh)
    · rcases htokens r t hr with ⟨-, hnew⟩ | ⟨-, hold'⟩
      · exact absurd (h.phaseToken q t hold) (hnew ▸ hfresh)
      · exact h.tokenDistinct q r t hold hold'
  · intro q f' t hf' ht hq
    obtain ⟨f, hf, hino, -, htoken⟩ := hfile f' hf'
    have hold : (s.phase q).holds f.ino := hino ▸ hholds q _ hq
    change ((s.setPhase p (.inside ino token)).phase q).token = some t
    rw [phase_setPhase]
    rcases htoken with htoken | ⟨htoken, rfl⟩
    · have hbefore := h.own q f t hf (htoken ▸ ht) hold
      split
      · subst q
        rw [hphase] at hbefore
        cases hbefore
      · exact hbefore
    · rw [if_pos (h.distinct q p f.ino hold hown)]
      exact htoken.symm.trans ht

/-! ## Runs -/

theorem inv_step
    {event : LockEvent LockProc}
    (h : LockInv staleAfter s)
    (hbeats : HeartbeatsKeepUp staleAfter s event)
    (hguard : RemovesExamined s event)
    (hstep : LockStep staleAfter s event s') :
    LockInv staleAfter s' := by
  cases hstep with
  | tick hle =>
      exact ⟨h.held, h.distinct, hbeats, h.below, h.examined, h.fileToken, h.phaseToken,
        h.tokenDistinct, h.own⟩
  | begin hphase => exact h.proceed (fun _ => id) (fun _ => id) rfl
  | create hphase hfile => exact inv_create h hphase hfile
  | createExists hphase hfile => exact h.proceed (fun _ => id) (fun _ => id) rfl
  | createFails hphase => exact h.proceed (fun _ => id) (fun _ => id) rfl
  | @statStale p deadline f hphase hfile hstale =>
      -- a file that is stale is not the lock file of a live holder
      refine h.setPhase (fun _ => id) ?_ (fun _ hmem => hmem) (fun _ hsome => by cases hsome)
      rintro _ rfl
      exact ⟨h.below f hfile, fun q _ hq => h.fresh q f hfile hq hstale⟩
  | statFresh hphase hfile hfresh => exact h.proceed (fun _ => id) (fun _ => id) rfl
  | statFails hphase => exact h.proceed (fun _ => id) (fun _ => id) rfl
  | @reclaim p deadline ino hphase =>
      have hexamined := (h.examined p ino (by rw [hphase]; rfl)).2
      have hno := h.no_holder hexamined hguard
      exact (h.remove hno).proceed (p := p) (fun _ => id) (fun _ => id) rfl
  | reclaimFails hphase => exact h.proceed (fun _ => id) (fun _ => id) rfl
  | retry hphase hbefore => exact h.proceed (fun _ => id) (fun _ => id) rfl
  | timeout hphase hafter => exact h.proceed (fun _ => id) (fun _ => id) rfl
  | @write p ino token hphase hfresh =>
      refine (inv_enter (s.file.map (writeToken ino s.now token)) h hphase hfresh ?_
        ?_).congr rfl rfl rfl rfl rfl
      · intro f hf
        refine ⟨writeToken ino s.now token f, by rw [hf]; rfl, ?_⟩
        rw [writeToken]
        split <;> rfl
      · intro f' hf'
        obtain ⟨f, hf, rfl⟩ := Option.map_eq_some_iff.mp hf'
        refine ⟨f, hf, ?_⟩
        rw [writeToken]
        split
        · exact ⟨rfl, Or.inr rfl, Or.inr ⟨rfl, ‹_›⟩⟩
        · exact ⟨rfl, Or.inl rfl, Or.inl rfl⟩
  | enterUnwritten hphase hfresh =>
      exact (inv_enter s.file h hphase hfresh (fun f hf => ⟨f, hf, rfl⟩)
        (fun f hf => ⟨f, hf, rfl, Or.inl rfl, Or.inl rfl⟩)).congr rfl rfl rfl rfl rfl
  | @releaseUnwritten p ino token hphase hfresh =>
      refine h.setPhase (fun _ => id) (fun _ hino => hino.elim)
        (fun _ hmem => List.mem_cons_of_mem _ hmem) ?_
      rintro _ ⟨⟩
      exact Or.inr ⟨hfresh, List.mem_cons_self⟩
  | @leave p ino token hphase =>
      refine h.setPhase (fun _ => id) (fun _ hino => hino.elim) (fun _ hmem => hmem) ?_
      rintro _ ⟨⟩
      rw [hphase]
      exact Or.inl rfl
  | @readOwn p token f hphase hfile htoken =>
      -- the token is that of this process, so the file is no other's
      refine h.setPhase (fun _ => id) ?_ (fun _ hmem => hmem) (fun _ hsome => by cases hsome)
      rintro _ rfl
      refine ⟨h.below f hfile, fun q hne hq => hne ?_⟩
      exact h.tokenDistinct q p token (h.own q f token hfile htoken hq) (by rw [hphase]; rfl)
  | readOther hphase hother => exact h.proceed (fun _ => id) (fun _ => id) rfl
  | readFails hphase => exact h.proceed (fun _ => id) (fun _ => id) rfl
  | @unlink p ino hphase =>
      have hexamined := (h.examined p ino (by rw [hphase]; rfl)).2
      have hno := h.no_holder hexamined hguard
      exact (h.remove hno).proceed (p := p) (fun _ => id) (fun _ => id) rfl
  | unlinkFails hphase => exact h.proceed (fun _ => id) (fun _ => id) rfl
  | beatOwn hbeat hfile htoken => exact h.congr rfl rfl rfl rfl rfl
  | beatOther hbeat hother => exact h.congr rfl rfl rfl rfl rfl
  | beatFails hbeat => exact h.congr rfl rfl rfl rfl rfl
  | @touch p token hbeat =>
      refine LockInv.congr (s := { s with file := s.file.map fun f => { f with mtime := s.now } })
        ⟨?_, h.distinct, ?_, ?_, h.examined, ?_, h.phaseToken, h.tokenDistinct, ?_⟩
        rfl rfl rfl rfl rfl
      · intro q ino hq
        obtain ⟨f, hf, rfl⟩ := h.held q ino hq
        exact ⟨{ f with mtime := s.now }, by rw [hf]; rfl, rfl⟩
      · intro q f' hf' hq
        obtain ⟨f, hf, rfl⟩ := Option.map_eq_some_iff.mp hf'
        change ¬ staleAfter < s.now - s.now
        omega
      · intro f' hf'
        obtain ⟨f, hf, rfl⟩ := Option.map_eq_some_iff.mp hf'
        exact h.below f hf
      · intro f' token hf' htoken
        obtain ⟨f, hf, rfl⟩ := Option.map_eq_some_iff.mp hf'
        exact h.fileToken f token hf htoken
      · intro q f' token hf' htoken hq
        obtain ⟨f, hf, rfl⟩ := Option.map_eq_some_iff.mp hf'
        exact h.own q f token hf htoken hq
  | stopHeartbeat => exact h.congr rfl rfl rfl rfl rfl
  | @die p =>
      have hdead : LockInv staleAfter (s.setPhase p .dead) :=
        h.proceed (fun _ => id) (fun _ => id) rfl
      exact hdead.congr rfl rfl rfl rfl rfl

/-- In every run in which the heartbeats keep up and nothing but the examined file, or a file
that no live holder has created, is removed, at most one process is inside. -/
theorem at_most_one_inside
    (h : (indexLock LockProc staleAfter).Reachable
      (fun s e => HeartbeatsKeepUp staleAfter s e ∧ RemovesExamined s e) s) :
    AtMostOneInside s := by
  have hinv : LockInv staleAfter s := by
    refine h.invariant (P := LockInv staleAfter) ?_ (fun _ _ _ hinv hguard hstep =>
      inv_step hinv hguard.1 hguard.2 hstep)
    rintro s ⟨hphase, -, hfile⟩
    have hholds : ∀ p ino, ¬ (s.phase p).holds ino := by
      intro p ino hp
      rw [hphase p] at hp
      exact hp
    have htoken : ∀ p token, (s.phase p).token ≠ some token := by
      intro p token hp
      rw [hphase p] at hp
      cases hp
    refine ⟨fun p ino hp => absurd hp (hholds p ino), fun p q ino hp => absurd hp (hholds p ino),
      fun p f _ hp => absurd hp (hholds p _), fun f hf => (hfile f hf).1, ?_,
      fun f token hf ht => (hfile f hf).2 token ht, fun p token hp => absurd hp (htoken p token),
      fun p q token hp => absurd hp (htoken p token), fun p f _ _ _ hp => absurd hp (hholds p _)⟩
    intro p ino hp
    rw [hphase p] at hp
    exact hp.elim
  intro p q i j token token' hp hq
  have hpi : (s.phase p).holds i := by
    rw [hp]
    rfl
  have hqj : (s.phase q).holds j := by
    rw [hq]
    rfl
  -- both files are the file at the path
  obtain ⟨f, hf, rfl⟩ := hinv.held p i hpi
  obtain ⟨g, hg, rfl⟩ := hinv.held q j hqj
  rw [hf] at hg
  cases hg
  exact hinv.distinct p q f.ino hpi hqj

end Exclusion

/-! ## An abandoned lock file -/

/-- No process has begun, and the lock file of a process that died at time zero is there. -/
def abandoned : LockState Nat where
  file := some ⟨0, 0, some "dead"⟩
  nextIno := 1
  now := 20
  monotonic := 0
  phase := fun _ => .idle
  heartbeat := fun _ => .stopped
  issued := ["dead"]

theorem reachable_abandoned
    (guard : LockState Nat → LockEvent Nat → Prop) :
    (indexLock Nat 10).Reachable guard abandoned := by
  refine .start ⟨fun _ => rfl, fun _ => rfl, ?_⟩
  rintro f ⟨⟩
  refine ⟨Nat.zero_lt_one, ?_⟩
  rintro token ⟨⟩
  exact List.mem_cons_self

/-- The process 1 reclaims the lock and is inside, alone. -/
theorem at_most_one_inside_abandoned :
    ∃ s : LockState Nat, s.phase 1 = .inside 1 "one" ∧ AtMostOneInside s := by
  have hstart := reachable_abandoned fun s e => HeartbeatsKeepUp 10 s e ∧ RemovesExamined s e
  have hbegun := hstart.next (by exact ⟨trivial, trivial⟩) (@LockStep.begin Nat _ 10 _ 1 12 rfl)
  have hfound := hbegun.next (by exact ⟨trivial, trivial⟩)
    (@LockStep.createExists Nat _ 10 _ 1 12 _ rfl rfl)
  have hstale := hfound.next (by exact ⟨trivial, trivial⟩)
    (@LockStep.statStale Nat _ 10 _ 1 12 _ rfl rfl (by decide))
  have hreclaimed := hstale.next
    (by exact ⟨trivial, fun f hf => Or.inl (by cases hf; rfl)⟩)
    (@LockStep.reclaim Nat _ 10 _ 1 12 0 rfl)
  have hcreated := hreclaimed.next (by exact ⟨trivial, trivial⟩)
    (@LockStep.create Nat _ 10 _ 1 12 rfl rfl)
  have hinside := hcreated.next (by exact ⟨trivial, trivial⟩)
    (@LockStep.write Nat _ 10 _ 1 1 "one" rfl (by decide))
  exact ⟨_, rfl, at_most_one_inside hinside⟩

/-- Two processes find the abandoned file stale.  One reclaims the lock and enters; the other
then removes the new lock file and enters as well. -/
theorem two_inside :
    ∃ s : LockState Nat, (indexLock Nat 10).Reachable (HeartbeatsKeepUp 10) s ∧
      ¬ AtMostOneInside s := by
  have hstart := reachable_abandoned (HeartbeatsKeepUp 10)
  have hbegun := hstart.next (by trivial) (@LockStep.begin Nat _ 10 _ 1 12 rfl)
  have hfound := hbegun.next (by trivial) (@LockStep.createExists Nat _ 10 _ 1 12 _ rfl rfl)
  have hstale := hfound.next (by trivial)
    (@LockStep.statStale Nat _ 10 _ 1 12 _ rfl rfl (by decide))
  have hbegun' := hstale.next (by trivial) (@LockStep.begin Nat _ 10 _ 2 12 rfl)
  have hfound' := hbegun'.next (by trivial) (@LockStep.createExists Nat _ 10 _ 2 12 _ rfl rfl)
  have hstale' := hfound'.next (by trivial)
    (@LockStep.statStale Nat _ 10 _ 2 12 _ rfl rfl (by decide))
  -- both have read the age of the same file
  have hreclaimed := hstale'.next (by trivial) (@LockStep.reclaim Nat _ 10 _ 1 12 0 rfl)
  have hcreated := hreclaimed.next (by trivial) (@LockStep.create Nat _ 10 _ 1 12 rfl rfl)
  have hinside := hcreated.next (by trivial)
    (@LockStep.write Nat _ 10 _ 1 1 "one" rfl (by decide))
  have hreclaimed' := hinside.next (by trivial) (@LockStep.reclaim Nat _ 10 _ 2 12 0 rfl)
  have hcreated' := hreclaimed'.next (by trivial) (@LockStep.create Nat _ 10 _ 2 12 rfl rfl)
  have hinside' := hcreated'.next (by trivial)
    (@LockStep.write Nat _ 10 _ 2 2 "two" rfl (by decide))
  refine ⟨_, hinside', ?_⟩
  intro hone
  have hsame : (1 : Nat) = 2 := hone 1 2 1 2 "one" "two" rfl rfl
  cases hsame

end Lock
end TensorGrep
