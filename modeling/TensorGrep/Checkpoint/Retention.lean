import Mathlib.Data.List.Perm.Lattice
import TensorGrep.Kernel.StepSystem
import TensorGrep.Checkpoint.Records
import TensorGrep.Ledger.Claims

/-!
# Retention by two writers

Calls of both implementations of `create_checkpoint` follow one another on one
root, under a clock that goes on.  One stamps `created_at` with the decimal
seconds of the epoch and keeps every record; the other stamps it with a text in
ISO format and keeps the records with the greatest stamps.

`keepsNewest_iff` says exactly when a creation that applies retention keeps the
most recent records: there is room, or the stamps of the records that it finds do
not contradict their moments where it has to choose.
-/

namespace TensorGrep
namespace Checkpoint

open Kernel

/-! ## The first records in two orders -/

section TwoOrders

variable {α : Type*} {κ : Type*} {τ : Type*} [LinearOrder κ] [LinearOrder τ]
  {key : α → κ} {time : α → τ} {l : List α} {n : Nat}

/-- Sorted by a function, in reverse. -/
def greatestFirst
    (f : α → κ)
    (l : List α) : List α :=
  sortByKey (fun a => OrderDual.toDual (f a)) l

theorem perm_greatestFirst
    (f : α → κ)
    (l : List α) :
    (greatestFirst f l).Perm l :=
  perm_sortByKey _ l

theorem pairwise_greatestFirst
    (f : α → κ)
    (l : List α) :
    (greatestFirst f l).Pairwise fun a b => f b ≤ f a :=
  pairwise_sortByKey (fun a => OrderDual.toDual (f a)) l

/-- Of two parts of a sorted list, the first has the greater values. -/
theorem le_of_mem_take_drop
    {f : α → κ}
    {a b : α}
    (ha : a ∈ (greatestFirst f l).take n)
    (hb : b ∈ (greatestFirst f l).drop n) :
    f b ≤ f a := by
  have hsorted := pairwise_greatestFirst f l
  rw [← List.take_append_drop n (greatestFirst f l)] at hsorted
  exact (List.pairwise_append.mp hsorted).2.2 a ha b hb

/-- An element of a list without duplicates is in exactly one of the two parts. -/
theorem mem_take_or_drop
    {f : α → κ}
    {a : α}
    (ha : a ∈ l) :
    a ∈ (greatestFirst f l).take n ∨ a ∈ (greatestFirst f l).drop n := by
  have hmem := (perm_greatestFirst f l).mem_iff.mpr ha
  rwa [← List.take_append_drop n (greatestFirst f l), List.mem_append] at hmem

theorem mem_of_mem_take_greatestFirst
    {f : α → κ}
    {a : α}
    (ha : a ∈ (greatestFirst f l).take n) :
    a ∈ l :=
  (perm_greatestFirst f l).mem_iff.mp (List.mem_of_mem_take ha)

theorem not_mem_take_of_mem_drop
    {f : α → κ}
    {a : α}
    (hnodup : l.Nodup)
    (ha : a ∈ (greatestFirst f l).drop n) :
    a ∉ (greatestFirst f l).take n := by
  have hsplit := (perm_greatestFirst f l).nodup_iff.mpr hnodup
  rw [← List.take_append_drop n (greatestFirst f l)] at hsplit
  intro htake
  exact List.disjoint_of_nodup_append hsplit htake ha

/-- Where elements with equal keys stand with the later one first, the first elements by key are
the first ones by time exactly if no key contradicts the choice. -/
theorem perm_take_iff
    (hnodup : l.Nodup)
    (htime : ∀ a ∈ l, ∀ b ∈ l, time a = time b → a = b)
    (hties : l.Pairwise fun a b => key a = key b → time b < time a) :
    ((greatestFirst key l).take n).Perm ((greatestFirst time l).take n) ↔
      ∀ a ∈ (greatestFirst time l).take n, ∀ b ∈ (greatestFirst time l).drop n,
        key b ≤ key a := by
  constructor
  · intro hperm a ha b hb
    have hbKey : b ∉ (greatestFirst key l).take n := by
      rw [hperm.mem_iff]
      exact not_mem_take_of_mem_drop hnodup hb
    have hbl : b ∈ l := (perm_greatestFirst time l).mem_iff.mp (List.mem_of_mem_drop hb)
    exact le_of_mem_take_drop (hperm.mem_iff.mpr ha)
      ((mem_take_or_drop hbl).resolve_left hbKey)
  · intro hkeys
    have hnodupBy : ((greatestFirst time l).take n).Nodup :=
      ((perm_greatestFirst time l).nodup_iff.mpr hnodup).sublist (List.take_sublist _ _)
    have hlength : ((greatestFirst key l).take n).length ≤
        ((greatestFirst time l).take n).length := by
      rw [List.length_take, List.length_take, (perm_greatestFirst key l).length_eq,
        (perm_greatestFirst time l).length_eq]
    refine ((List.subperm_of_subset hnodupBy ?_).perm_of_length_le hlength).symm
    intro y hy
    by_contra hyKey
    have hyl := mem_of_mem_take_greatestFirst hy
    -- as many elements come first in either order, so some other one comes first by key only
    obtain ⟨x, hx, hxTime⟩ : ∃ x ∈ (greatestFirst key l).take n,
        x ∉ (greatestFirst time l).take n := by
      by_contra hall
      have hsubset : (greatestFirst key l).take n ⊆ (greatestFirst time l).take n := by
        intro x hx
        by_contra hxTime
        exact hall ⟨x, hx, hxTime⟩
      have hnodupKey : ((greatestFirst key l).take n).Nodup :=
        ((perm_greatestFirst key l).nodup_iff.mpr hnodup).sublist (List.take_sublist _ _)
      have hback : ((greatestFirst time l).take n).length ≤
          ((greatestFirst key l).take n).length := by
        rw [List.length_take, List.length_take, (perm_greatestFirst key l).length_eq,
          (perm_greatestFirst time l).length_eq]
      exact hyKey (((List.subperm_of_subset hnodupKey hsubset).perm_of_length_le hback).mem_iff.mpr hy)
    have hxl := mem_of_mem_take_greatestFirst hx
    have hxDrop : x ∈ (greatestFirst time l).drop n := (mem_take_or_drop hxl).resolve_left hxTime
    have hyDrop : y ∈ (greatestFirst key l).drop n := (mem_take_or_drop hyl).resolve_left hyKey
    have htie : key x = key y := le_antisymm (hkeys y hy x hxDrop) (le_of_mem_take_drop hx hyDrop)
    have hstable : (greatestFirst key l).Pairwise
        fun a b => OrderDual.toDual (key a) = OrderDual.toDual (key b) → time b < time a :=
      pairwise_ties_sortByKey hties
    rw [← List.take_append_drop n (greatestFirst key l)] at hstable
    have hlt := (List.pairwise_append.mp hstable).2.2 x hx y hyDrop htie
    exact absurd (le_of_mem_take_drop hy hxDrop) (not_le.mpr hlt)

/-- An element that comes before all others is the first one by key exactly if no key is
greater. -/
theorem head?_greatestFirst_iff
    {a : α}
    (hlater : ∀ b ∈ l, time b < time a)
    (hties : (a :: l).Pairwise fun a b => key a = key b → time b < time a) :
    (greatestFirst key (a :: l)).head? = some a ↔ ∀ b ∈ l, key b ≤ key a := by
  have hmem : a ∈ greatestFirst key (a :: l) :=
    (perm_greatestFirst key (a :: l)).mem_iff.mpr List.mem_cons_self
  cases hsorted : greatestFirst key (a :: l) with
  | nil =>
      rw [hsorted] at hmem
      cases hmem
  | cons c rest =>
      have horder := pairwise_greatestFirst key (a :: l)
      have hstable : (greatestFirst key (a :: l)).Pairwise
          fun a b => OrderDual.toDual (key a) = OrderDual.toDual (key b) → time b < time a :=
        pairwise_ties_sortByKey hties
      rw [hsorted] at horder hstable hmem
      rw [List.head?_cons, Option.some.injEq]
      constructor
      · rintro rfl b hb
        have hbs : b ∈ c :: rest := by
          rw [← hsorted]
          exact (perm_greatestFirst key (c :: l)).mem_iff.mpr (List.mem_cons_of_mem c hb)
        rcases List.mem_cons.mp hbs with rfl | hbs
        · exact le_rfl
        · exact (List.pairwise_cons.mp horder).1 b hbs
      · intro hkeys
        by_contra hne
        have hrest : a ∈ rest := (List.mem_cons.mp hmem).resolve_left fun h => hne h.symm
        have hc : c ∈ l := by
          have hcl : c ∈ a :: l := by
            rw [← (perm_greatestFirst key (a :: l)).mem_iff, hsorted]
            exact List.mem_cons_self
          exact (List.mem_cons.mp hcl).resolve_left hne
        have htie : key c = key a :=
          le_antisymm (hkeys c hc) ((List.pairwise_cons.mp horder).1 a hrest)
        exact absurd ((List.pairwise_cons.mp hstable).1 a hrest htie) (not_lt.mpr (hlater c hc).le)

end TwoOrders

/-! ## Creations one after the other -/

/-- `checkpoint_timestamp_string`, at a moment in nanoseconds. -/
def checkpointTimestampString (now : Int) : String :=
  toString (now / 1000000000).toNat

/-- `datetime.now(UTC).isoformat()`, at a moment in nanoseconds; before the epoch, the text of
the moment twenty centuries later with the year that belongs to it. -/
def isoNow (now : Int) : String :=
  let micros := now / 1000
  if 0 ≤ micros then Ledger.isoformat micros.toNat
  else
    let later := (micros + 5 * 146097 * 86400 * 1000000).toNat
    let date := Ledger.civilFromDays (later / 86400000000)
    Ledger.padded 4 (date.1 - 2000) ++ String.ofList ((Ledger.isoformat later).toList.drop 4)

/-- The index of one root, and the moments at which its checkpoints were created. -/
structure RetentionState where
  index : Option (List CheckpointRecord)
  now : Int
  issued : List String
  time : String → Int

/-- `_load_index`, and the reading part of the other implementation. -/
def RetentionState.records (s : RetentionState) : List CheckpointRecord :=
  s.index.getD []

/-- What can happen. -/
inductive RetentionEvent where
  | native (own : CheckpointRecord)
  | python (own : CheckpointRecord) (limit : Nat) (dropped : List String)

/-- The effect of an event.  The clock goes on and new ids are fresh. -/
inductive RetentionStep : RetentionState → RetentionEvent → RetentionState → Prop
  | native {s : RetentionState} {own : CheckpointRecord} {now : Int} :
      s.now < now →
      own.checkpointId ∉ s.issued →
      own.createdAt = checkpointTimestampString now →
      RetentionStep s (.native own)
        ⟨some (own :: s.records), now, own.checkpointId :: s.issued,
          Function.update s.time own.checkpointId now⟩
  | python {s : RetentionState} {own : CheckpointRecord} {now : Int} {raw : Option Int}
      {written : List CheckpointRecord} {dropped : List String} :
      s.now < now →
      own.checkpointId ∉ s.issued →
      own.createdAt = isoNow now →
      selectRetainedCheckpoints (configuredCheckpointMax raw) (own :: s.records) =
        (written, dropped) →
      RetentionStep s (.python own (configuredCheckpointMax raw) dropped)
        ⟨some written, now, own.checkpointId :: s.issued,
          Function.update s.time own.checkpointId now⟩

/-- A root without an index. -/
def retentionRuns : StepSystem RetentionState RetentionEvent where
  init s := s.index = none ∧ s.issued = []
  step := RetentionStep

/-- The records of a list that were created last. -/
def mostRecent
    (time : String → Int)
    (limit : Nat)
    (records : List CheckpointRecord) : List CheckpointRecord :=
  (greatestFirst (fun r => time r.checkpointId) records).take limit

/-- The others. -/
def lessRecent
    (time : String → Int)
    (limit : Nat)
    (records : List CheckpointRecord) : List CheckpointRecord :=
  (greatestFirst (fun r => time r.checkpointId) records).drop limit

/-- The index that a creation writes has the most recent of the records that it has found and
its own, its own first, and what is scheduled for deletion is older. -/
structure KeepsNewest
    (s s' : RetentionState)
    (own : CheckpointRecord)
    (limit : Nat)
    (dropped : List String) : Prop where
  recent : s'.records.Perm (mostRecent s'.time limit (own :: s.records))
  older : ∀ id ∈ dropped, ∀ r ∈ s'.records, s'.time id < s'.time r.checkpointId
  first : s'.records.head? = some own

/-- There is room for one more record; or no record that is found has a greater stamp than the
new one, and no less recent record has a greater stamp than one of the most recent. -/
def StampsAgree
    (s s' : RetentionState)
    (own : CheckpointRecord)
    (limit : Nat) : Prop :=
  s.records.length < limit ∨
    (∀ r ∈ s.records, r.createdAt ≤ own.createdAt) ∧
      ∀ r ∈ mostRecent s'.time limit (own :: s.records),
        ∀ r' ∈ lessRecent s'.time limit (own :: s.records), r'.createdAt ≤ r.createdAt

/-! ## The invariant -/

/-- What holds in every run: ids are distinct, moments lie in the past, and of two records with
one stamp the more recent one stands first. -/
structure RetentionInv (s : RetentionState) : Prop where
  issued : ∀ r ∈ s.records, r.checkpointId ∈ s.issued
  past : ∀ r ∈ s.records, s.time r.checkpointId ≤ s.now
  distinct : (s.records.map fun r => s.time r.checkpointId).Nodup
  ties : s.records.Pairwise fun a b =>
    a.createdAt = b.createdAt → s.time b.checkpointId < s.time a.checkpointId

section Runs

variable {s s' : RetentionState} {own : CheckpointRecord} {now : Int} {limit : Nat}
  {dropped : List String} {e : RetentionEvent}

/-- The records with the new one at their head. -/
structure Inserted
    (s : RetentionState)
    (time : String → Int)
    (now : Int)
    (own : CheckpointRecord) : Prop where
  moment : time own.checkpointId = now
  past : ∀ r ∈ s.records, time r.checkpointId < now
  distinct : ((own :: s.records).map fun r => time r.checkpointId).Nodup
  ties : (own :: s.records).Pairwise fun a b =>
    a.createdAt = b.createdAt → time b.checkpointId < time a.checkpointId

/-- A new record is the most recent one. -/
theorem RetentionInv.inserted
    (h : RetentionInv s)
    (hnow : s.now < now)
    (hfresh : own.checkpointId ∉ s.issued) :
    Inserted s (Function.update s.time own.checkpointId now) now own := by
  have hother : ∀ r ∈ s.records,
      Function.update s.time own.checkpointId now r.checkpointId = s.time r.checkpointId := by
    intro r hr
    refine Function.update_of_ne ?_ _ _
    intro hsame
    exact hfresh (hsame ▸ h.issued r hr)
  have hpast : ∀ r ∈ s.records,
      Function.update s.time own.checkpointId now r.checkpointId < now := by
    intro r hr
    rw [hother r hr]
    exact lt_of_le_of_lt (h.past r hr) hnow
  refine ⟨Function.update_self _ _ _, hpast, ?_, ?_⟩
  · rw [List.map_cons, Function.update_self, List.map_congr_left hother]
    refine List.nodup_cons.mpr ⟨?_, h.distinct⟩
    intro hmem
    obtain ⟨r, hr, hsame⟩ := List.mem_map.mp hmem
    exact absurd (h.past r hr) (not_le.mpr (hsame ▸ hnow))
  · refine List.pairwise_cons.mpr ⟨?_, ?_⟩
    · intro r hr _
      rw [Function.update_self]
      exact hpast r hr
    · refine h.ties.imp_of_mem ?_
      intro a b ha hb htie hsame
      rw [hother a ha, hother b hb]
      exact htie hsame

theorem records_of_step
    (hstep : RetentionStep s (.python own limit dropped) s') :
    0 < limit ∧ selectRetainedCheckpoints limit (own :: s.records) = (s'.records, dropped) ∧
      ∃ now, s.now < now ∧ own.checkpointId ∉ s.issued ∧
        s'.time = Function.update s.time own.checkpointId now := by
  cases hstep with
  | @python _ now raw written _ hnow hfresh _ hselect =>
      exact ⟨configuredCheckpointMax_pos raw, hselect, now, hnow, hfresh, rfl⟩

/-- Records stay as they stand, or are sorted by their stamps. -/
theorem pairwise_ties_selectRetained
    {records written : List CheckpointRecord}
    {time : String → Int}
    (hties : records.Pairwise fun a b =>
      a.createdAt = b.createdAt → time b.checkpointId < time a.checkpointId)
    (h : selectRetainedCheckpoints limit records = (written, dropped)) :
    written.Pairwise fun a b =>
      a.createdAt = b.createdAt → time b.checkpointId < time a.checkpointId := by
  rw [selectRetainedCheckpoints] at h
  split at h
  · cases h
    exact hties
  · cases h
    have hstable : (newestFirst records).Pairwise fun a b =>
        OrderDual.toDual a.createdAt = OrderDual.toDual b.createdAt →
          time b.checkpointId < time a.checkpointId := pairwise_ties_sortByKey hties
    exact hstable.sublist (List.take_sublist _ _)

theorem mem_of_mem_written
    {records written : List CheckpointRecord}
    {r : CheckpointRecord}
    (h : selectRetainedCheckpoints limit records = (written, dropped))
    (hr : r ∈ written) :
    r ∈ records := by
  refine @mem_of_mem_selectRetained records limit r ?_
  rwa [h]

theorem nodup_selectRetained
    {records written : List CheckpointRecord}
    {time : String → Int}
    (hdistinct : (records.map fun r => time r.checkpointId).Nodup)
    (h : selectRetainedCheckpoints limit records = (written, dropped)) :
    (written.map fun r => time r.checkpointId).Nodup := by
  rw [selectRetainedCheckpoints] at h
  split at h
  · cases h
    exact hdistinct
  · cases h
    have hsorted : ((newestFirst records).map fun r => time r.checkpointId).Nodup :=
      ((perm_greatestFirst CheckpointRecord.createdAt records).map _).nodup_iff.mpr hdistinct
    exact hsorted.sublist ((List.take_sublist _ _).map _)

/-- The invariant does not depend on which of the records stay. -/
theorem Inserted.inv
    {written : List CheckpointRecord}
    {time : String → Int}
    (h : RetentionInv s)
    (hinserted : Inserted s time now own)
    (hmem : ∀ r ∈ written, r ∈ own :: s.records)
    (hdistinct : (written.map fun r => time r.checkpointId).Nodup)
    (hties : written.Pairwise fun a b =>
      a.createdAt = b.createdAt → time b.checkpointId < time a.checkpointId) :
    RetentionInv ⟨some written, now, own.checkpointId :: s.issued, time⟩ where
  issued := by
    intro r hr
    rcases List.mem_cons.mp (hmem r hr) with rfl | hold
    · exact List.mem_cons_self
    · exact List.mem_cons_of_mem _ (h.issued r hold)
  past := by
    intro r hr
    rcases List.mem_cons.mp (hmem r hr) with rfl | hold
    · exact hinserted.moment.le
    · exact (hinserted.past r hold).le
  distinct := hdistinct
  ties := hties

theorem RetentionInv.step
    (h : RetentionInv s)
    (hstep : RetentionStep s e s') :
    RetentionInv s' := by
  cases hstep with
  | native hnow hfresh _ =>
      have hinserted := h.inserted hnow hfresh
      exact hinserted.inv h (fun _ hr => hr) hinserted.distinct hinserted.ties
  | python hnow hfresh _ hselect =>
      have hinserted := h.inserted hnow hfresh
      exact hinserted.inv h (fun _ hr => mem_of_mem_written hselect hr)
        (nodup_selectRetained hinserted.distinct hselect)
        (pairwise_ties_selectRetained hinserted.ties hselect)

theorem inv_of_reachable
    (h : retentionRuns.Reachable (fun _ _ => True) s) :
    RetentionInv s := by
  refine StepSystem.Reachable.invariant ?_ (fun s e s' hinv _ hstep => hinv.step hstep) h
  rintro s ⟨hindex, -⟩
  have hnil : s.records = [] := by rw [RetentionState.records, hindex]; rfl
  refine ⟨?_, ?_, ?_, ?_⟩
  · simp [hnil]
  · simp [hnil]
  · simp [hnil]
  · simp [hnil]

/-! ## When the newest records stay -/

/-- If there is room, everything stays, the new record first. -/
theorem keepsNewest_of_room
    (hselect : selectRetainedCheckpoints limit (own :: s.records) = (s'.records, dropped))
    (hroom : s.records.length < limit) :
    KeepsNewest s s' own limit dropped := by
  rw [selectRetainedCheckpoints, if_pos (by rw [List.length_cons]; exact hroom)] at hselect
  obtain ⟨hrecords, rfl⟩ := Prod.mk.inj hselect
  refine ⟨?_, by simp, ?_⟩
  · rw [← hrecords, mostRecent, List.take_of_length_le]
    · exact (perm_greatestFirst _ _).symm
    · rw [(perm_greatestFirst _ _).length_eq, List.length_cons]
      exact hroom
  · rw [← hrecords]
    rfl

/-- After any run, a creation that applies retention keeps the most recent records exactly if
there is room or the stamps agree with the moments. -/
theorem keepsNewest_iff
    (hreachable : retentionRuns.Reachable (fun _ _ => True) s)
    (hstep : RetentionStep s (.python own limit dropped) s') :
    KeepsNewest s s' own limit dropped ↔ StampsAgree s s' own limit := by
  obtain ⟨hlimit, hselect, now, hnow, hfresh, htime⟩ := records_of_step hstep
  have hinserted := (inv_of_reachable hreachable).inserted hnow hfresh
  rw [← htime] at hinserted
  rw [StampsAgree]
  by_cases hroom : s.records.length < limit
  · exact iff_of_true (keepsNewest_of_room hselect hroom) (Or.inl hroom)
  rw [or_iff_right hroom]
  have hnodup : (own :: s.records).Nodup := hinserted.distinct.of_map
  have hmoment : ∀ a ∈ own :: s.records, ∀ b ∈ own :: s.records,
      s'.time a.checkpointId = s'.time b.checkpointId → a = b :=
    fun a ha b hb hsame => List.inj_on_of_nodup_map hinserted.distinct ha hb hsame
  rw [selectRetainedCheckpoints, if_neg (by rw [List.length_cons]; omega)] at hselect
  obtain ⟨hwritten, hdropped⟩ := Prod.mk.inj hselect
  have hrecords : s'.records = (greatestFirst CheckpointRecord.createdAt
      (own :: s.records)).take limit := hwritten.symm
  have hperm : s'.records.Perm (mostRecent s'.time limit (own :: s.records)) ↔
      ∀ r ∈ mostRecent s'.time limit (own :: s.records),
        ∀ r' ∈ lessRecent s'.time limit (own :: s.records), r'.createdAt ≤ r.createdAt := by
    rw [hrecords]
    exact perm_take_iff hnodup hmoment hinserted.ties
  have hfirst : s'.records.head? = some own ↔ ∀ r ∈ s.records, r.createdAt ≤ own.createdAt := by
    rw [hrecords, List.head?_take, if_neg hlimit.ne']
    refine head?_greatestFirst_iff ?_ hinserted.ties
    intro r hr
    rw [hinserted.moment]
    exact hinserted.past r hr
  constructor
  · intro hkeeps
    exact ⟨hfirst.mp hkeeps.first, hperm.mp hkeeps.recent⟩
  · rintro ⟨hstamps, hcut⟩
    have hrecent := hperm.mpr hcut
    refine ⟨hrecent, ?_, hfirst.mpr hstamps⟩
    intro id hid r hr
    rw [← hdropped] at hid
    obtain ⟨r', hr', rfl⟩ := List.mem_map.mp hid
    -- what is dropped is not among the most recent, and no two moments are the same
    have hr'mem : r' ∈ own :: s.records :=
      (perm_greatestFirst CheckpointRecord.createdAt _).mem_iff.mp (List.mem_of_mem_drop hr')
    have hr'not : r' ∉ mostRecent s'.time limit (own :: s.records) := by
      rw [← hrecent.mem_iff, hrecords]
      exact not_mem_take_of_mem_drop hnodup hr'
    have hr'less : r' ∈ lessRecent s'.time limit (own :: s.records) :=
      (mem_take_or_drop hr'mem).resolve_left hr'not
    have hrmost := hrecent.mem_iff.mp hr
    have hle := @le_of_mem_take_drop _ _ _ _ _ (fun r : CheckpointRecord =>
      s'.time r.checkpointId) _ _ hrmost hr'less
    refine lt_of_le_of_ne hle ?_
    intro hsame
    refine hr'not ?_
    rwa [hmoment r' hr'mem r (mem_of_mem_take_greatestFirst hrmost) hsame]

end Runs

/-! ## A record that is younger than one that stays -/

/-- The record of a checkpoint with the stamp of its writer. -/
def stampedRecord
    (checkpointId createdAt : String) : CheckpointRecord :=
  ⟨checkpointVersion, checkpointId, .filesystemSnapshot, "r", createdAt, 0⟩

/-- The first of November 2025, at noon, in nanoseconds. -/
def noon : Int := 1761998400000000000

/-- What one second has. -/
def oneSecond : Int := 1000000000

/-- The first record, with an ISO stamp. -/
def firstRecord : CheckpointRecord :=
  stampedRecord "a" (isoNow noon)

/-- The second record, one second later, with decimal seconds. -/
def secondRecord : CheckpointRecord :=
  stampedRecord "b" (checkpointTimestampString (noon + oneSecond))

/-- The third record, with an ISO stamp. -/
def thirdRecord : CheckpointRecord :=
  stampedRecord "c" (isoNow (noon + 2 * oneSecond))

/-- The index after one call of each implementation. -/
def mixedState : RetentionState where
  index := some [secondRecord, firstRecord]
  now := noon + oneSecond
  issued := ["b", "a"]
  time := Function.update (Function.update (fun _ => 0) "a" noon) "b" (noon + oneSecond)

/-- The state after a third call that writes `written`. -/
def afterThird (written : List CheckpointRecord) : RetentionState where
  index := some written
  now := noon + 2 * oneSecond
  issued := ["c", "b", "a"]
  time := Function.update mixedState.time "c" (noon + 2 * oneSecond)

theorem reachable_mixedState :
    retentionRuns.Reachable (fun _ _ => True) mixedState := by
  have hstart : retentionRuns.Reachable (fun _ _ => True) ⟨none, 0, [], fun _ => 0⟩ :=
    .start ⟨rfl, rfl⟩
  have hfirst : retentionRuns.Reachable (fun _ _ => True)
      ⟨some [firstRecord], noon, ["a"], Function.update (fun _ => 0) "a" noon⟩ :=
    hstart.next (l := .python firstRecord (configuredCheckpointMax none) []) trivial
      (@RetentionStep.python ⟨none, 0, [], fun _ => 0⟩ firstRecord noon none [firstRecord] []
        (by decide) (by decide) rfl rfl)
  exact hfirst.next (l := .native secondRecord) trivial
    (RetentionStep.native (by decide) (by decide) rfl)

/-- With a limit of three records everything stays. -/
theorem thirdRecord_keepsNewest :
    KeepsNewest mixedState (afterThird [thirdRecord, secondRecord, firstRecord]) thirdRecord 3
      [] := by
  refine (keepsNewest_iff reachable_mixedState ?_).mpr (Or.inl (by decide))
  exact @RetentionStep.python mixedState thirdRecord (noon + 2 * oneSecond) (some 3)
    [thirdRecord, secondRecord, firstRecord] [] (by decide) (by decide) rfl rfl

/-- With a limit of two records, the second one is dropped although the first one is older. -/
theorem secondRecord_dropped :
    retentionRuns.Reachable (fun _ _ => True) mixedState ∧
      RetentionStep mixedState (.python thirdRecord 2 ["b"])
        (afterThird [thirdRecord, firstRecord]) ∧
      ¬ KeepsNewest mixedState (afterThird [thirdRecord, firstRecord]) thirdRecord 2 ["b"] := by
  refine ⟨reachable_mixedState, ?_, ?_⟩
  · exact @RetentionStep.python mixedState thirdRecord (noon + 2 * oneSecond) (some 2)
      [thirdRecord, firstRecord] ["b"] (by decide) (by decide) rfl (by decide)
  · intro hkeeps
    have holder := hkeeps.older "b" List.mem_cons_self firstRecord (by simp [afterThird,
      RetentionState.records])
    revert holder
    decide

end Checkpoint
end TensorGrep
