import TensorGrep.Ledger.Runs

/-!
# The cap and the claim that was just submitted

The cap keeps the 256 records with the latest `created_at`.  A submission has its
stamp from before it waited for the lock, so it need not be among them.
`recorded_iff` says when it is, and when the records that are dropped are older
than all that are kept: there is room, or some moment not after the stamp has
exactly 256 records at or after it.
-/

namespace TensorGrep
namespace Ledger

open Kernel

/-! ## Cutting a sorted list -/

section Cutting

variable {α : Type*} {κ : Type*} [LinearOrder κ] {key : α → κ} {old new : List α} {cutoff : κ}

/-- If as many elements lie at or after a cutoff as the later part has, the cutoff separates
the two parts. -/
theorem separated_of_countP
    (hsorted : (old ++ new).Pairwise (fun a b => key a ≤ key b))
    (hcount : (old ++ new).countP (fun a => cutoff ≤ key a) = new.length) :
    (∀ k ∈ new, cutoff ≤ key k) ∧ ∀ d ∈ old, key d < cutoff := by
  rw [List.countP_append] at hcount
  have horder := (List.pairwise_append.mp hsorted).2.2
  have hnew : ∀ k ∈ new, cutoff ≤ key k := by
    intro k hk
    by_contra hlt
    have hold : old.countP (fun a => cutoff ≤ key a) = 0 := by
      rw [List.countP_eq_zero]
      intro d hd
      have := horder d hd k hk
      simp only [decide_eq_true_eq, not_le]
      exact lt_of_le_of_lt this (not_le.mp hlt)
    have hall : new.countP (fun a => cutoff ≤ key a) = new.length := by omega
    exact hlt (of_decide_eq_true (List.countP_eq_length.mp hall k hk))
  refine ⟨hnew, ?_⟩
  have hall : new.countP (fun a => cutoff ≤ key a) = new.length :=
    List.countP_eq_length.mpr (fun k hk => decide_eq_true (hnew k hk))
  have hold : old.countP (fun a => cutoff ≤ key a) = 0 := by omega
  intro d hd
  have := List.countP_eq_zero.mp hold d hd
  simpa using this

/-- If the earlier part lies before the later one, the first key of the later part is such a
cutoff. -/
theorem countP_of_separated
    {k : α}
    (hsorted : (k :: new).Pairwise (fun a b => key a ≤ key b))
    (hbefore : ∀ d ∈ old, key d < key k) :
    (old ++ k :: new).countP (fun a => key k ≤ key a) = (k :: new).length := by
  have hold : old.countP (fun a => key k ≤ key a) = 0 := by
    rw [List.countP_eq_zero]
    intro d hd
    simpa using hbefore d hd
  have hnew : (k :: new).countP (fun a => key k ≤ key a) = (k :: new).length := by
    rw [List.countP_eq_length]
    intro a ha
    rcases List.mem_cons.mp ha with rfl | ha
    · exact decide_eq_true le_rfl
    · exact decide_eq_true ((List.pairwise_cons.mp hsorted).1 a ha)
  rw [List.countP_append, hold, hnew, Nat.zero_add]

end Cutting

/-! ## One submission -/

variable {file : IndexFile} {record : ClaimRecord} {result : SubmitResult}

/-- The submitted claim is in the index that was written, and every record that was dropped
is older than every record that was kept. -/
def Recorded
    (record : ClaimRecord)
    (result : SubmitResult) : Prop :=
  record.toEntry ∈ result.written ∧
    ∀ d ∈ result.dropped, ∀ k ∈ result.written, d.createdAt < k.createdAt

/-- There is room for one more live record, or some moment not after the stamp of the
submission has exactly as many records at or after it as the cap allows. -/
def RoomOrCutoff
    (file : IndexFile)
    (record : ClaimRecord) : Prop :=
  (pruneExpired file.records record.createdAt).length < maxLiveClaims ∨
    ∃ cutoff ≤ record.toEntry.createdAt,
      (pruneExpired file.records record.createdAt ++ [record.toEntry]).countP
        (fun e => cutoff ≤ e.createdAt) = maxLiveClaims

/-- Over the cap, what is dropped and what is kept are the two parts of the sorted records. -/
theorem cap_parts
    {records : List ClaimEntry}
    (hover : maxLiveClaims < records.length) :
    (evictedOverCap records ++ evictOldestOverCap records).Pairwise
        (fun a b => a.createdAt ≤ b.createdAt) ∧
      (evictOldestOverCap records).length = maxLiveClaims := by
  rw [evictedOverCap, evictOldestOverCap, if_neg (not_le.mpr hover), if_neg (not_le.mpr hover)]
  refine ⟨?_, ?_⟩
  · rw [List.take_append_drop]
    exact pairwise_sortByKey _ _
  · rw [List.length_drop, (perm_sortByKey _ records).length_eq]
    omega

/-- A submission is recorded exactly when there is room or a cutoff. -/
theorem recorded_iff
    (h : submitLocked file record = .ok result) :
    Recorded record result ↔ RoomOrCutoff file record := by
  obtain ⟨-, hwritten, hdropped⟩ := submitLocked_eq_ok h
  rw [Recorded, RoomOrCutoff, hwritten, hdropped]
  generalize pruneExpired file.records record.createdAt = live
  generalize record.toEntry = own
  have hown : own ∈ live ++ [own] := List.mem_append_right _ List.mem_cons_self
  have hlength : (live ++ [own]).length = live.length + 1 := by
    rw [List.length_append, List.length_singleton]
  by_cases hroom : live.length < maxLiveClaims
  · refine iff_of_true ?_ (Or.inl hroom)
    rw [evictedOverCap, evictOldestOverCap, if_pos (by omega), if_pos (by omega)]
    refine ⟨hown, ?_⟩
    intro d hd
    cases hd
  · rw [or_iff_right hroom]
    obtain ⟨hsorted, hcap⟩ := @cap_parts (live ++ [own]) (by omega)
    have hperm := perm_cap (live ++ [own])
    constructor
    · rintro ⟨hmem, hold⟩
      obtain ⟨k, rest, hparts⟩ := List.exists_cons_of_ne_nil (List.ne_nil_of_mem hmem)
      rw [hparts] at hsorted hmem hold hcap hperm
      have hrest := (List.pairwise_append.mp hsorted).2.1
      refine ⟨k.createdAt, ?_, ?_⟩
      · rcases List.mem_cons.mp hmem with hk | hk
        · rw [← hk]
        · exact (List.pairwise_cons.mp hrest).1 _ hk
      · rw [← hperm.countP_eq, ← hcap]
        exact countP_of_separated hrest (fun d hd => hold d hd k List.mem_cons_self)
    · rintro ⟨cutoff, hle, hcount⟩
      rw [← hperm.countP_eq, ← hcap] at hcount
      obtain ⟨hnew, hold⟩ := separated_of_countP hsorted hcount
      refine ⟨?_, fun d hd k hk => lt_of_lt_of_le (hold d hd) (hnew k hk)⟩
      rcases mem_cap_iff.mp hown with hmem | hmem
      · exact hmem
      · exact absurd (hold _ hmem) (not_lt.mpr hle)

/-! ## Runs -/

/-- The guard of runs in which every submission finds room or a cutoff. -/
def recordsGuard
    {Call : Type}
    (s : LedgerState Call) : LedgerEvent Call → Prop
  | .submit _ record _ => RoomOrCutoff s.file record
  | _ => True

section Runs

variable {Call : Type} [DecidableEq Call]

/-- From every index file, in every run whose submissions find room or a cutoff, every claim
that is returned is in the index that its submission wrote, and what was dropped is older
than what was kept.  For a single submission the condition is exact. -/
theorem submissions_recorded :
    (∀ s, (claimsLedger Call (fun _ => True)).Reachable recordsGuard s →
      ∀ w ∈ s.submits, Recorded w.1 w.2) ∧
    ∀ file record result, submitLocked file record = .ok result →
      (Recorded record result ↔ RoomOrCutoff file record) := by
  refine ⟨?_, fun file record result h => recorded_iff h⟩
  intro s hs
  refine hs.invariant (P := fun s => ∀ w ∈ s.submits, Recorded w.1 w.2) ?_ ?_
  · rintro s ⟨-, -, -, hsubmits, -⟩ w hw
    rw [hsubmits] at hw
    cases hw
  · intro s event s' hinv hguard hstep
    change LedgerStep s event s' at hstep
    cases hstep with
    | submit hpending hlocked =>
        intro w hw
        rcases List.mem_append.mp hw with hw | hw
        · exact hinv w hw
        · rw [List.mem_singleton.mp hw]
          exact (recorded_iff hlocked).mpr hguard
    | tick hle => exact hinv
    | beginSubmit hpending hnow hfresh hprepared => exact hinv
    | beginRelease hpending hprepared => exact hinv
    | release hpending hlocked => exact hinv
    | abandon => exact hinv
    | list hshown => exact hinv

end Runs

/-! ## A submission that is dropped at once -/

/-- A submission with an earlier stamp than as many live records as the cap allows is not in
the index that it writes. -/
theorem not_recorded
    (h : submitLocked file record = .ok result)
    (hfull : maxLiveClaims ≤ (pruneExpired file.records record.createdAt).length)
    (hlater : ∀ e ∈ pruneExpired file.records record.createdAt,
      record.toEntry.createdAt < e.createdAt) :
    record.toEntry ∉ result.written := by
  obtain ⟨-, hwritten, -⟩ := submitLocked_eq_ok h
  intro hmem
  rw [hwritten] at hmem
  generalize pruneExpired file.records record.createdAt = live at hfull hlater hmem
  generalize record.toEntry = own at hlater hmem
  have hlength : (live ++ [own]).length = live.length + 1 := by
    rw [List.length_append, List.length_singleton]
  obtain ⟨hsorted, hcap⟩ := @cap_parts (live ++ [own]) (by omega)
  have hperm := perm_cap (live ++ [own])
  have hsome : evictedOverCap (live ++ [own]) ≠ [] := by
    intro hnil
    have := hperm.length_eq
    rw [hnil, List.nil_append, hcap] at this
    omega
  obtain ⟨d, hd⟩ := List.exists_mem_of_ne_nil _ hsome
  have hle := (List.pairwise_append.mp hsorted).2.2 d hd _ hmem
  -- the record that is dropped can only be the submission, which would be there twice
  have hdown : d = own := by
    rcases List.mem_append.mp (mem_cap_iff.mpr (Or.inr hd)) with hlive | hone
    · exact absurd (hlater d hlive) (not_lt.mpr hle)
    · exact List.mem_singleton.mp hone
  have hcount := hperm.count_eq own
  have hnotLive : own ∉ live := fun hlive => lt_irrefl _ (hlater _ hlive)
  rw [List.count_append, List.count_append, List.count_eq_zero.mpr hnotLive,
    List.count_singleton_self] at hcount
  have hdropped := List.count_pos_iff.mpr (hdown ▸ hd)
  have hkept := List.count_pos_iff.mpr hmem
  omega

/-- No calls yet, and a given index. -/
def freshState (file : IndexFile) : LedgerState Bool :=
  ⟨0, file, fun _ => none, [], [], []⟩

/-- A submission to an empty ledger finds room and is recorded. -/
theorem submissions_recorded_first :
    Recorded (claimOf "c1" "x") ⟨[], [(claimOf "c1" "x").toEntry], []⟩ ∧
      (Recorded (claimOf "c1" "x") ⟨[], [(claimOf "c1" "x").toEntry], []⟩ ↔
        RoomOrCutoff .absent (claimOf "c1" "x")) := by
  have hlocked : submitLocked .absent (claimOf "c1" "x") =
      .ok ⟨[], [(claimOf "c1" "x").toEntry], []⟩ := by decide
  have hstart : (claimsLedger Bool (fun _ => True)).Reachable recordsGuard
      (freshState .absent) := .start ⟨trivial, fun _ => rfl, rfl, rfl, rfl⟩
  have hbegun := hstart.next (by trivial) (@LedgerStep.beginSubmit Bool _ _ false (contextOf "c1")
    (argsOf "x") (claimOf "c1" "x") rfl rfl (List.not_mem_nil) (by decide))
  have hwritten := hbegun.next (by exact Or.inl (by decide)) (@LedgerStep.submit Bool _ _ false _
    _ 0 rfl hlocked)
  exact ⟨(@submissions_recorded Bool _).1 _ hwritten _ List.mem_cons_self,
    (@submissions_recorded Bool _).2 _ _ _ hlocked⟩

/-- An index full of claims that were stamped ten microseconds after the epoch. -/
def laterEntries : List ClaimEntry :=
  (List.range maxLiveClaims).map fun i =>
    { (claimOf (toString i) "z").toEntry with createdAt := isoformat 10 }

theorem laterEntries_live :
    pruneExpired laterEntries 0 = laterEntries := by
  rw [pruneExpired, List.filter_eq_self]
  intro e he
  obtain ⟨i, -, rfl⟩ := List.mem_map.mp he
  rfl

theorem findOverlaps_laterEntries :
    ∃ overlaps, findOverlaps laterEntries (claimOf "own" "x") = .ok overlaps := by
  have hall : ∀ e ∈ laterEntries, ∃ o, overlapWith (claimOf "own" "x") e = .ok o := by
    intro e he
    obtain ⟨i, -, rfl⟩ := List.mem_map.mp he
    exact ⟨_, rfl⟩
  obtain ⟨found, hfound⟩ := exists_mapM hall
  exact ⟨_, bind_eq_ok_iff.mpr ⟨found, hfound, rfl⟩⟩

/-- A submission that was stamped before 256 others but has the lock after them returns a
claim that is not in the index it wrote. -/
theorem submission_not_recorded :
    ∃ s : LedgerState Bool, (claimsLedger Bool (fun _ => True)).Reachable (fun _ _ => True) s ∧
      ∃ w ∈ s.submits, w.1.toEntry ∉ w.2.written := by
  have hstart : (claimsLedger Bool (fun _ => True)).Reachable (fun _ _ => True)
      (freshState (.entries 0 laterEntries)) := .start ⟨trivial, fun _ => rfl, rfl, rfl, rfl⟩
  have hbegun := hstart.next trivial (@LedgerStep.beginSubmit Bool _ _ false (contextOf "own")
    (argsOf "x") (claimOf "own" "x") rfl rfl (List.not_mem_nil) (by decide))
  obtain ⟨overlaps, hoverlaps⟩ := findOverlaps_laterEntries
  have hlocked : submitLocked (.entries 0 laterEntries) (claimOf "own" "x") = .ok
      ⟨overlaps, evictOldestOverCap (laterEntries ++ [(claimOf "own" "x").toEntry]),
        evictedOverCap (laterEntries ++ [(claimOf "own" "x").toEntry])⟩ := by
    refine bind_eq_ok_iff.mpr ⟨laterEntries, rfl, bind_eq_ok_iff.mpr ⟨overlaps, ?_, ?_⟩⟩
    · change findOverlaps (pruneExpired laterEntries 0) _ = _
      rw [laterEntries_live, hoverlaps]
    · change Except.ok (SubmitResult.mk overlaps
        (evictOldestOverCap (pruneExpired laterEntries 0 ++ [(claimOf "own" "x").toEntry]))
        (evictedOverCap (pruneExpired laterEntries 0 ++ [(claimOf "own" "x").toEntry]))) = _
      rw [laterEntries_live]
  have hwritten := hbegun.next trivial (@LedgerStep.submit Bool _ _ false _ _ 0 rfl hlocked)
  refine ⟨_, hwritten, _, List.mem_cons_self, not_recorded hlocked ?_ ?_⟩
  · change maxLiveClaims ≤ (pruneExpired laterEntries 0).length
    rw [laterEntries_live, laterEntries, List.length_map, List.length_range]
  · change ∀ e ∈ pruneExpired laterEntries 0, isoformat 0 < e.createdAt
    rw [laterEntries_live]
    intro e he
    obtain ⟨i, -, rfl⟩ := List.mem_map.mp he
    change isoformat 0 < isoformat 10
    decide

end Ledger
end TensorGrep
