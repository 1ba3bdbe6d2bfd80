import TensorGrep.Audit.History

/-!
# Timestamps in the history

The history of a root and the date of a review bundle compare timestamps that were
parsed elsewhere.  A timestamp with an offset and one without cannot be compared, so
one odd manifest makes the operations fail that sort its entry with others.

`stampsSurvived_iff` says for which timestamps no operation fails because of them, and
the entries are ordered by time.
-/

namespace TensorGrep
namespace Audit

open Kernel
open Kernel.Json (lookup)
open Evidence (PythonError Fields)

/-! ## Entries of manifests -/

/-- `_normalize_optional_str`, which keeps that the text is normal. -/
def normalField : Option Json → Option NormalText
  | some (.string s) => normalText s
  | _ => none

/-- `_manifest_entry`, where `digest` is the digest of the canonical bytes of a manifest. -/
def manifestEntry
    (digest : Fields → NormalText)
    (filePath : CodePoints)
    (manifest : Fields) : HistoryEntry where
  manifestSha256 :=
    (normalField (lookup (codePoints "manifest_sha256") manifest)).getD (digest manifest)
  kind := normalField (lookup (codePoints "kind") manifest)
  createdAt := normalField (lookup (codePoints "created_at") manifest)
  filePath := filePath
  previousManifestSha256 :=
    normalField (lookup (codePoints "previous_manifest_sha256") manifest)

/-! ## Synchronising the index -/

/-- The first fields that differ are two texts. -/
def FieldsComparable : List (Option NormalText) → List (Option NormalText) → Prop
  | v :: fields, v' :: fields' =>
      (v = v' ∧ FieldsComparable fields fields') ∨ (v ≠ v' ∧ v.isSome = true ∧ v'.isSome = true)
  | _, _ => True

instance decidableFieldsComparable :
    ∀ fields fields', Decidable (FieldsComparable fields fields')
  | _ :: fields, _ :: fields' =>
      @instDecidableOr _ _
        (@instDecidableAnd _ _ _ (decidableFieldsComparable fields fields')) inferInstance
  | [], _ => isTrue trivial
  | _ :: _, [] => isTrue trivial

/-- The fields behind digest and path in `_history_entry_identity`. -/
def HistoryEntry.identityFields (e : HistoryEntry) : List (Option NormalText) :=
  [e.kind, e.createdAt, e.previousManifestSha256]

/-- `sorted` with the key `_history_entry_identity` does not fail. -/
def IdentityComparable (entries : List HistoryEntry) : Prop :=
  ∀ e ∈ entries, ∀ e' ∈ entries, e.manifestSha256 = e'.manifestSha256 →
    e.filePath = e'.filePath → FieldsComparable e.identityFields e'.identityFields

instance (entries : List HistoryEntry) : Decidable (IdentityComparable entries) :=
  inferInstanceAs (Decidable (∀ e ∈ entries, ∀ e' ∈ entries,
    e.manifestSha256 = e'.manifestSha256 → e.filePath = e'.filePath →
      FieldsComparable e.identityFields e'.identityFields))

/-- The two lists have the same entries, each as often. -/
def sameEntries (merged entries : List HistoryEntry) : Except PythonError Bool :=
  if IdentityComparable merged ∧ IdentityComparable entries then
    .ok (decide (merged.Perm entries))
  else .error .typeError

/-- The entries of an index that is there, else those that were scanned. -/
def knownEntries
    (index : Option (List HistoryEntry))
    (scanned : List HistoryEntry) : List HistoryEntry :=
  (loadHistoryIndex index).getD scanned

/-- The entries of the index and of the scan. -/
def mergedEntries
    (index : Option (List HistoryEntry))
    (scanned : List HistoryEntry) : List HistoryEntry :=
  mergeScanned (knownEntries index scanned) scanned

section Operations

variable (fromisoformat : CodePoints → Option Timestamp)

/-- `_ensure_history_index`: the entries, and the index file. -/
def ensureHistoryIndex
    (index : Option (List HistoryEntry))
    (scanned : List HistoryEntry) :
    Except PythonError (List HistoryEntry × Option (List HistoryEntry)) :=
  match loadHistoryIndex index with
  | some entries => .ok (entries, index)
  | none => do
      let sorted ← historySorted fromisoformat scanned
      return (scanned, some sorted)

/-- The index file after the merged entries are written, unless they are the same. -/
def writeIfChanged
    (same : Bool)
    (merged : List HistoryEntry)
    (index : Option (List HistoryEntry)) : Except PythonError (Option (List HistoryEntry)) :=
  if same then .ok index else (historySorted fromisoformat merged).map some

/-- `_sync_history_index`: the entries, and the index file. -/
def syncHistoryIndex
    (index : Option (List HistoryEntry))
    (scanned : List HistoryEntry) :
    Except PythonError (List HistoryEntry × Option (List HistoryEntry)) := do
  let known ← ensureHistoryIndex fromisoformat index scanned
  let merged := mergeScanned known.1 scanned
  let same ← sameEntries merged known.1
  let written ← writeIfChanged fromisoformat same merged known.2
  return (merged, written)

/-- `list_audit_history`, where `signatureKind` is `_load_signature_kind`. -/
def listAuditHistory
    (signatureKind : CodePoints → Option NormalText)
    (index : Option (List HistoryEntry))
    (scanned : List HistoryEntry) : Except PythonError (Option (List HistoryItem)) := do
  let synced ← syncHistoryIndex fromisoformat index scanned
  listHistory fromisoformat signatureKind synced.1

/-- `record_audit_manifest`: the index file that it leaves. -/
def recordAuditManifest
    (index : Option (List HistoryEntry))
    (scanned : List HistoryEntry)
    (own : HistoryEntry) : Except PythonError (Option (List HistoryEntry)) := do
  let synced ← syncHistoryIndex fromisoformat index scanned
  let sorted ← historySorted fromisoformat (upsertHistoryEntry synced.1 own)
  return some sorted

/-- The recording of `verify_audit_manifest`: manifests that are not valid are left out. -/
def recordVerified
    (valid : Bool)
    (index : Option (List HistoryEntry))
    (scanned : List HistoryEntry)
    (own : HistoryEntry) : Except PythonError (Option (List HistoryEntry)) :=
  if valid then recordAuditManifest fromisoformat index scanned own else .ok index

end Operations

/-! ## The date of a review bundle -/

deriving instance DecidableEq for Timestamp

/-- `datetime.__lt__`. -/
def Timestamp.lt (s t : Timestamp) : Except PythonError Bool :=
  if s.aware = t.aware then .ok (decide (s.moment < t.moment)) else .error .typeError

/-- `max` of a timestamp and others. -/
def maxStamp : Timestamp → List Timestamp → Except PythonError Timestamp
  | s, [] => .ok s
  | s, t :: rest => do
      let larger ← s.lt t
      maxStamp (if larger then t else s) rest

/-- The microseconds of the years 1 to 9999. -/
def calendarEnd : Int :=
  315537897600000000

/-- `datetime.astimezone(UTC)`, for a moment in the calendar; `localUtc` is the time zone of the
host, for timestamps without one. -/
def toUtc
    (localUtc : Int → Option Int)
    (s : Timestamp) : Option Int :=
  if s.aware then (if 0 ≤ s.moment ∧ s.moment < calendarEnd then some s.moment else none)
  else localUtc s.moment

/-- Why the date of a review bundle fails. -/
inductive BundleDateError where
  | python (e : PythonError)
  | overflow
deriving DecidableEq

section Bundle

variable (fromisoformat : CodePoints → Option Timestamp) (localUtc : Int → Option Int)

/-- The timestamps of a manifest and of the other components that are objects. -/
def candidateStamps
    (manifest : Fields)
    (components : List Json) : List Timestamp :=
  (lookup (codePoints "created_at") manifest ::
    components.filterMap fun value =>
      match value with
      | .object fields => some (lookup (codePoints "created_at") fields)
      | _ => none).filterMap fun value => parseTimestamp fromisoformat (normalField value)

/-- `_format_timestamp`, up to the text. -/
def formatTimestamp (s : Timestamp) : Except BundleDateError Int :=
  match toUtc localUtc s with
  | some moment => .ok moment
  | none => .error .overflow

/-- The moment of `_review_bundle_created_at`; without a timestamp it is the time of the call. -/
def reviewBundleCreatedAt
    (manifest : Fields)
    (components : List Json)
    (now : Int) : Except BundleDateError Int :=
  match candidateStamps fromisoformat manifest components with
  | [] => .ok now
  | s :: rest =>
      match maxStamp s rest with
      | .error e => .error (.python e)
      | .ok latest => formatTimestamp localUtc latest

end Bundle

/-! ## When the operations succeed -/

section Succeed

variable {fromisoformat : CodePoints → Option Timestamp}
  {index : Option (List HistoryEntry)} {scanned : List HistoryEntry}

/-- The order of the entries fails only where they cannot be compared. -/
theorem exists_historySorted_iff
    {entries : List HistoryEntry} :
    (∃ sorted, historySorted fromisoformat entries = .ok sorted) ↔
      Comparable fromisoformat entries := by
  constructor
  · rintro ⟨sorted, hsorted⟩
    exact (historySorted_eq_ok hsorted).1
  · intro h
    rw [historySorted, if_pos h]
    exact ⟨_, rfl⟩

/-- What synchronising needs: entries without an index are sorted, the entries before and after
merging are compared, and merged entries are sorted when they differ. -/
structure SyncComparable
    (fromisoformat : CodePoints → Option Timestamp)
    (index : Option (List HistoryEntry))
    (scanned : List HistoryEntry) : Prop where
  found : loadHistoryIndex index = none → Comparable fromisoformat scanned
  identity : IdentityComparable (mergedEntries index scanned) ∧
    IdentityComparable (knownEntries index scanned)
  merged : ¬ (mergedEntries index scanned).Perm (knownEntries index scanned) →
    Comparable fromisoformat (mergedEntries index scanned)

theorem ensureHistoryIndex_eq_ok
    {known : List HistoryEntry × Option (List HistoryEntry)}
    (h : ensureHistoryIndex fromisoformat index scanned = .ok known) :
    known.1 = knownEntries index scanned ∧
      (loadHistoryIndex index = none → Comparable fromisoformat scanned) := by
  rw [ensureHistoryIndex] at h
  rw [knownEntries]
  cases hload : loadHistoryIndex index with
  | some entries =>
      rw [hload] at h
      cases h
      exact ⟨rfl, fun hnone => by cases hnone⟩
  | none =>
      simp only [hload] at h
      obtain ⟨sorted, hsorted, hret⟩ := bind_eq_ok_iff.mp h
      cases hret
      exact ⟨rfl, fun _ => (historySorted_eq_ok hsorted).1⟩

theorem exists_ensureHistoryIndex
    (h : loadHistoryIndex index = none → Comparable fromisoformat scanned) :
    ∃ written, ensureHistoryIndex fromisoformat index scanned =
      .ok (knownEntries index scanned, written) := by
  rw [ensureHistoryIndex, knownEntries]
  cases hload : loadHistoryIndex index with
  | some entries => exact ⟨index, rfl⟩
  | none =>
      obtain ⟨sorted, hsorted⟩ := exists_historySorted_iff.mpr (h hload)
      simp only [hsorted]
      exact ⟨some sorted, rfl⟩

/-- Synchronising ends with the merged entries, if it does not fail. -/
theorem syncHistoryIndex_eq_ok
    {synced : List HistoryEntry × Option (List HistoryEntry)}
    (h : syncHistoryIndex fromisoformat index scanned = .ok synced) :
    synced.1 = mergedEntries index scanned ∧ SyncComparable fromisoformat index scanned := by
  rw [syncHistoryIndex] at h
  obtain ⟨known, hensure, h⟩ := bind_eq_ok_iff.mp h
  obtain ⟨hknown, hfound⟩ := ensureHistoryIndex_eq_ok hensure
  obtain ⟨same, hsame, h⟩ := bind_eq_ok_iff.mp h
  obtain ⟨written, hwritten, h⟩ := bind_eq_ok_iff.mp h
  cases h
  rw [hknown] at hsame hwritten ⊢
  rw [sameEntries] at hsame
  split at hsame
  case isFalse => cases hsame
  case isTrue hidentity =>
      cases hsame
      refine ⟨rfl, hfound, hidentity, fun hdiffers => ?_⟩
      rw [writeIfChanged, if_neg (by simpa [mergedEntries] using hdiffers)] at hwritten
      cases hsorted : historySorted fromisoformat (mergedEntries index scanned) with
      | ok sorted => exact (historySorted_eq_ok hsorted).1
      | error e =>
          rw [mergedEntries] at hsorted
          rw [hsorted] at hwritten
          cases hwritten

theorem exists_syncHistoryIndex
    (h : SyncComparable fromisoformat index scanned) :
    ∃ written, syncHistoryIndex fromisoformat index scanned =
      .ok (mergedEntries index scanned, written) := by
  obtain ⟨before, hensure⟩ := exists_ensureHistoryIndex h.found
  have hsame : sameEntries (mergeScanned (knownEntries index scanned) scanned)
      (knownEntries index scanned) =
      .ok (decide ((mergedEntries index scanned).Perm (knownEntries index scanned))) :=
    if_pos h.identity
  simp only [syncHistoryIndex, hensure, hsame, bind, Except.bind, writeIfChanged]
  by_cases hperm : (mergedEntries index scanned).Perm (knownEntries index scanned)
  · rw [if_pos (decide_eq_true hperm)]
    exact ⟨before, rfl⟩
  · obtain ⟨sorted, hsorted⟩ := exists_historySorted_iff.mpr (h.merged hperm)
    rw [mergedEntries] at hsorted
    rw [if_neg (by simpa using hperm), hsorted]
    exact ⟨some sorted, rfl⟩

/-- Listing succeeds if and only if synchronising does, and the entries can be compared. -/
theorem exists_listAuditHistory_iff
    {signatureKind : CodePoints → Option NormalText} :
    (∃ items, listAuditHistory fromisoformat signatureKind index scanned = .ok items) ↔
      SyncComparable fromisoformat index scanned ∧
        Comparable fromisoformat (mergedEntries index scanned) := by
  constructor
  · rintro ⟨items, hitems⟩
    obtain ⟨synced, hsynced, hlist⟩ := bind_eq_ok_iff.mp hitems
    obtain ⟨hmerged, hsync⟩ := syncHistoryIndex_eq_ok hsynced
    obtain ⟨ordered, hordered, -⟩ := bind_eq_ok_iff.mp hlist
    rw [hmerged] at hordered
    exact ⟨hsync, orderHistoryEntries_eq_ok hordered⟩
  · rintro ⟨hsync, hcomparable⟩
    obtain ⟨written, hsynced⟩ := exists_syncHistoryIndex hsync
    obtain ⟨ordered, hordered, -⟩ := exists_ordered hcomparable
    rw [listAuditHistory, hsynced]
    refine ⟨some (ordered.map (historyItem signatureKind (mergedEntries index scanned))), ?_⟩
    refine bind_eq_ok_iff.mpr ⟨_, rfl, ?_⟩
    rw [listHistory, hordered]
    rfl

/-- Recording succeeds if and only if synchronising does, and the entries with the own one can be
compared. -/
theorem exists_recordAuditManifest_iff
    {own : HistoryEntry} :
    (∃ written, recordAuditManifest fromisoformat index scanned own = .ok written) ↔
      SyncComparable fromisoformat index scanned ∧
        Comparable fromisoformat (upsertHistoryEntry (mergedEntries index scanned) own) := by
  constructor
  · rintro ⟨written, hwritten⟩
    obtain ⟨synced, hsynced, hrest⟩ := bind_eq_ok_iff.mp hwritten
    obtain ⟨hmerged, hsync⟩ := syncHistoryIndex_eq_ok hsynced
    obtain ⟨sorted, hsorted, -⟩ := bind_eq_ok_iff.mp hrest
    rw [hmerged] at hsorted
    exact ⟨hsync, (historySorted_eq_ok hsorted).1⟩
  · rintro ⟨hsync, hcomparable⟩
    obtain ⟨written, hsynced⟩ := exists_syncHistoryIndex hsync
    obtain ⟨sorted, hsorted⟩ := exists_historySorted_iff.mpr hcomparable
    rw [recordAuditManifest, hsynced]
    exact ⟨some sorted, bind_eq_ok_iff.mpr ⟨_, rfl, bind_eq_ok_iff.mpr ⟨sorted, hsorted, rfl⟩⟩⟩

end Succeed

/-! ## Without timestamps -/

section WithoutStamps

variable {fromisoformat : CodePoints → Option Timestamp}
  {index : Option (List HistoryEntry)} {scanned : List HistoryEntry}

/-- The entry of the same manifest without its `created_at`. -/
def HistoryEntry.withoutStamp (e : HistoryEntry) : HistoryEntry :=
  { e with createdAt := none }

/-- The entries without their timestamps. -/
def withoutStamps (entries : List HistoryEntry) : List HistoryEntry :=
  entries.map HistoryEntry.withoutStamp

/-- Entries without timestamps can be compared. -/
theorem comparable_withoutStamps
    (entries : List HistoryEntry) :
    Comparable fromisoformat (withoutStamps entries) := by
  have haware : ∀ e ∈ withoutStamps entries, (entryTimestamp fromisoformat e).aware = true := by
    intro e he
    obtain ⟨e', -, rfl⟩ := List.mem_map.mp he
    rfl
  intro e he e' he'
  rw [haware e he, haware e' he']

theorem reread_withoutStamp
    (e : HistoryEntry) :
    e.withoutStamp.reread = e.reread.map HistoryEntry.withoutStamp := by
  rw [HistoryEntry.reread, HistoryEntry.reread, Option.map_map]
  rfl

theorem loadHistoryIndex_withoutStamps
    (index : Option (List HistoryEntry)) :
    loadHistoryIndex (index.map withoutStamps) = (loadHistoryIndex index).map withoutStamps := by
  cases index with
  | none => rfl
  | some entries =>
      simp only [loadHistoryIndex, Option.map_some, withoutStamps, List.filterMap_map,
        List.map_filterMap]
      congr 2
      funext e
      exact reread_withoutStamp e

theorem upsertHistoryEntry_withoutStamps
    (entries : List HistoryEntry)
    (e : HistoryEntry) :
    upsertHistoryEntry (withoutStamps entries) e.withoutStamp =
      withoutStamps (upsertHistoryEntry entries e) := by
  simp only [upsertHistoryEntry, withoutStamps, List.map_append, List.map_singleton,
    List.filter_map]
  rfl

theorem mergeScanned_withoutStamps
    (entries scanned : List HistoryEntry) :
    mergeScanned (withoutStamps entries) (withoutStamps scanned) =
      withoutStamps (mergeScanned entries scanned) := by
  rw [mergeScanned, mergeScanned]
  induction scanned generalizing entries with
  | nil => rfl
  | cons e rest ih =>
      have hcons : withoutStamps (e :: rest) = e.withoutStamp :: withoutStamps rest := rfl
      rw [hcons, List.foldl_cons, List.foldl_cons, upsertHistoryEntry_withoutStamps]
      exact ih (upsertHistoryEntry entries e)

theorem knownEntries_withoutStamps :
    knownEntries (index.map withoutStamps) (withoutStamps scanned) =
      withoutStamps (knownEntries index scanned) := by
  rw [knownEntries, knownEntries, loadHistoryIndex_withoutStamps]
  cases loadHistoryIndex index <;> rfl

theorem mergedEntries_withoutStamps :
    mergedEntries (index.map withoutStamps) (withoutStamps scanned) =
      withoutStamps (mergedEntries index scanned) := by
  rw [mergedEntries, knownEntries_withoutStamps, mergeScanned_withoutStamps, mergedEntries]

/-- The entries before and after merging can be compared by their other fields. -/
def OtherFieldsComparable
    (index : Option (List HistoryEntry))
    (scanned : List HistoryEntry) : Prop :=
  IdentityComparable (withoutStamps (mergedEntries index scanned)) ∧
    IdentityComparable (withoutStamps (knownEntries index scanned))

/-- Without timestamps only the other fields can make synchronising fail. -/
theorem syncComparable_withoutStamps :
    SyncComparable fromisoformat (index.map withoutStamps) (withoutStamps scanned) ↔
      OtherFieldsComparable index scanned := by
  constructor
  · intro h
    have hidentity := h.identity
    rwa [mergedEntries_withoutStamps, knownEntries_withoutStamps] at hidentity
  · intro h
    refine ⟨fun _ => comparable_withoutStamps _, ?_, fun _ => ?_⟩
    · rw [mergedEntries_withoutStamps, knownEntries_withoutStamps]
      exact h
    · rw [mergedEntries_withoutStamps]
      exact comparable_withoutStamps _

end WithoutStamps

/-! ## The order of the entries -/

section Order

variable (fromisoformat : CodePoints → Option Timestamp)

/-- `<` between the keys of two entries. -/
def historyKeyLt (e e' : HistoryEntry) : Except PythonError Bool :=
  if entryTimestamp fromisoformat e = entryTimestamp fromisoformat e' then
    .ok (decide (toLex (e.manifestSha256.text, e.filePath) <
      toLex (e'.manifestSha256.text, e'.filePath)))
  else (entryTimestamp fromisoformat e).lt (entryTimestamp fromisoformat e')

/-- The entry does not stand behind the other one. -/
def HistoryLe (e e' : HistoryEntry) : Prop :=
  historyKeyLt fromisoformat e' e = .ok false

/-- The order of entries is a total preorder that agrees with the time of their timestamps. -/
structure OrderedByTime (entries : List HistoryEntry) : Prop where
  total : ∀ e ∈ entries, ∀ e' ∈ entries,
    HistoryLe fromisoformat e e' ∨ HistoryLe fromisoformat e' e
  trans : ∀ e ∈ entries, ∀ e' ∈ entries, ∀ e'' ∈ entries, HistoryLe fromisoformat e e' →
    HistoryLe fromisoformat e' e'' → HistoryLe fromisoformat e e''
  time : ∀ e ∈ entries, ∀ e' ∈ entries, ∀ s s',
    parseTimestamp fromisoformat e.createdAt = some s →
    parseTimestamp fromisoformat e'.createdAt = some s' → s.moment < s'.moment →
      historyKeyLt fromisoformat e e' = .ok true

variable {fromisoformat}

/-- Entries of one kind are compared by their keys. -/
theorem historyKeyLt_of_aware_eq
    {e e' : HistoryEntry}
    (h : (entryTimestamp fromisoformat e).aware = (entryTimestamp fromisoformat e').aware) :
    historyKeyLt fromisoformat e e' =
      .ok (decide (historySortKey fromisoformat e < historySortKey fromisoformat e')) := by
  rw [historyKeyLt, Timestamp.lt, historySortKey, historySortKey]
  split_ifs with hsame
  · simp [Prod.Lex.toLex_lt_toLex, hsame]
  · have hmoment : (entryTimestamp fromisoformat e).moment ≠
        (entryTimestamp fromisoformat e').moment := by
      intro heq
      exact hsame (by rw [Timestamp.mk.injEq]; exact ⟨h, heq⟩)
    simp [Prod.Lex.toLex_lt_toLex, hmoment]

theorem historyLe_iff
    {e e' : HistoryEntry}
    (h : (entryTimestamp fromisoformat e').aware = (entryTimestamp fromisoformat e).aware) :
    HistoryLe fromisoformat e e' ↔
      historySortKey fromisoformat e ≤ historySortKey fromisoformat e' := by
  rw [HistoryLe, historyKeyLt_of_aware_eq h, Except.ok.injEq, decide_eq_false_iff_not, not_lt]

/-- The order of entries is one by time if and only if they can be compared. -/
theorem orderedByTime_iff
    {entries : List HistoryEntry} :
    OrderedByTime fromisoformat entries ↔ Comparable fromisoformat entries := by
  constructor
  · intro h e he e' he'
    by_contra hne
    have hstamp : entryTimestamp fromisoformat e ≠ entryTimestamp fromisoformat e' :=
      fun heq => hne (congrArg Timestamp.aware heq)
    rcases h.total e he e' he' with hle | hle
    · rw [HistoryLe, historyKeyLt, if_neg hstamp.symm, Timestamp.lt, if_neg (Ne.symm hne)] at hle
      cases hle
    · rw [HistoryLe, historyKeyLt, if_neg hstamp, Timestamp.lt, if_neg hne] at hle
      cases hle
  · intro h
    constructor
    · intro e he e' he'
      rw [historyLe_iff (h e' he' e he), historyLe_iff (h e he e' he')]
      exact le_total _ _
    · intro e he e' he' e'' he'' hle hle'
      rw [historyLe_iff (h _ he' _ he)] at hle
      rw [historyLe_iff (h _ he'' _ he')] at hle'
      rw [historyLe_iff (h _ he'' _ he)]
      exact hle.trans hle'
    · intro e he e' he' s s' hs hs' hlt
      rw [historyKeyLt_of_aware_eq (h e he e' he'), historySortKey, historySortKey, entryTimestamp,
        entryTimestamp, hs, hs', Option.getD_some, Option.getD_some]
      simp [Prod.Lex.toLex_lt_toLex, hlt]

end Order

/-! ## The date of a bundle succeeds -/

section BundleDate

variable {fromisoformat : CodePoints → Option Timestamp} {localUtc : Int → Option Int}
  {manifest : Fields} {components : List Json}

/-- Timestamps of one kind have a maximum. -/
theorem exists_maxStamp
    {s : Timestamp}
    {rest : List Timestamp}
    (h : ∀ t ∈ rest, t.aware = s.aware) :
    ∃ latest, maxStamp s rest = .ok latest := by
  induction rest generalizing s with
  | nil => exact ⟨s, rfl⟩
  | cons t rest ih =>
      have ht := h t List.mem_cons_self
      have hrest : ∀ u ∈ rest, u.aware = (if s.moment < t.moment then t else s).aware := by
        intro u hu
        rw [h u (List.mem_cons_of_mem _ hu)]
        split_ifs
        · exact ht.symm
        · rfl
      obtain ⟨latest, hlatest⟩ := ih hrest
      refine ⟨latest, ?_⟩
      rw [maxStamp, Timestamp.lt, if_pos ht.symm]
      simpa [bind, Except.bind] using hlatest

/-- The maximum is one of the timestamps, which are all of its kind and not later. -/
theorem maxStamp_spec
    {s latest : Timestamp}
    {rest : List Timestamp}
    (h : maxStamp s rest = .ok latest) :
    latest ∈ s :: rest ∧ ∀ t ∈ s :: rest, t.aware = latest.aware ∧ t.moment ≤ latest.moment := by
  induction rest generalizing s with
  | nil =>
      cases h
      simp
  | cons t rest ih =>
      rw [maxStamp] at h
      obtain ⟨larger, hlarger, h⟩ := bind_eq_ok_iff.mp h
      rw [Timestamp.lt] at hlarger
      split at hlarger
      case isFalse => cases hlarger
      case isTrue haware =>
          cases hlarger
          obtain ⟨hmem, hall⟩ := ih h
          have hkept := hall _ List.mem_cons_self
          rw [List.forall_mem_cons] at hall
          by_cases hlt : s.moment < t.moment
          · simp only [hlt, decide_true, if_true] at hmem hkept
            refine ⟨List.mem_cons_of_mem _ hmem, ?_⟩
            rw [List.forall_mem_cons, List.forall_mem_cons]
            exact ⟨⟨haware.trans hkept.1, hlt.le.trans hkept.2⟩, hkept, hall.2⟩
          · simp only [hlt, decide_false, Bool.false_eq_true, if_false] at hmem hkept
            refine ⟨?_, ?_⟩
            · rcases List.mem_cons.mp hmem with rfl | hrest
              · exact List.mem_cons_self
              · exact List.mem_cons_of_mem _ (List.mem_cons_of_mem _ hrest)
            · rw [List.forall_mem_cons, List.forall_mem_cons]
              exact ⟨hkept, ⟨haware ▸ hkept.1, (not_lt.mp hlt).trans hkept.2⟩, hall.2⟩

/-- The timestamps of a bundle are of one kind, and the latest can be written in UTC. -/
structure StampsFormattable
    (fromisoformat : CodePoints → Option Timestamp)
    (localUtc : Int → Option Int)
    (manifest : Fields)
    (components : List Json) : Prop where
  alike : ∀ s ∈ candidateStamps fromisoformat manifest components,
    ∀ t ∈ candidateStamps fromisoformat manifest components, s.aware = t.aware
  latest : ∀ s ∈ candidateStamps fromisoformat manifest components,
    (∀ t ∈ candidateStamps fromisoformat manifest components, t.moment ≤ s.moment) →
      (toUtc localUtc s).isSome = true

theorem exists_formatTimestamp_iff
    {s : Timestamp} :
    (∃ moment, formatTimestamp localUtc s = .ok moment) ↔ (toUtc localUtc s).isSome = true := by
  rw [formatTimestamp]
  cases toUtc localUtc s <;> simp

/-- The date of a bundle fails only for such timestamps. -/
theorem exists_reviewBundleCreatedAt_iff
    {now : Int} :
    (∃ createdAt, reviewBundleCreatedAt fromisoformat localUtc manifest components now =
        .ok createdAt) ↔
      StampsFormattable fromisoformat localUtc manifest components := by
  rw [reviewBundleCreatedAt]
  cases hstamps : candidateStamps fromisoformat manifest components with
  | nil =>
      refine iff_of_true ⟨now, rfl⟩ ⟨?_, ?_⟩ <;> simp [hstamps]
  | cons s rest =>
      constructor
      · rintro ⟨createdAt, h⟩
        cases hmax : maxStamp s rest with
        | error e =>
            simp only [hmax] at h
            cases h
        | ok latest =>
            simp only [hmax] at h
            obtain ⟨hmem, hall⟩ := maxStamp_spec hmax
            constructor
            · rw [hstamps]
              intro t ht u hu
              rw [(hall t ht).1, (hall u hu).1]
            · rw [hstamps]
              intro t ht hlatest
              have heq : t = latest := by
                rw [Timestamp.mk.injEq]
                exact ⟨(hall t ht).1, le_antisymm (hall t ht).2 (hlatest latest hmem)⟩
              rw [heq]
              exact exists_formatTimestamp_iff.mp ⟨createdAt, h⟩
      · intro h
        have halike := h.alike
        have hlatest := h.latest
        rw [hstamps] at halike hlatest
        obtain ⟨latest, hmax⟩ := @exists_maxStamp s rest fun t ht =>
          halike t (List.mem_cons_of_mem _ ht) s List.mem_cons_self
        obtain ⟨hmem, hall⟩ := maxStamp_spec hmax
        simp only [hmax]
        exact exists_formatTimestamp_iff.mpr (hlatest latest hmem fun t ht => (hall t ht).2)

end BundleDate

/-! ## Surviving timestamps -/

section Survive

/-- What the operations read: the entries of the index file, the manifests of the audit directory
with their paths, the manifest that is recorded and bundled, and the other components of the
bundle. -/
structure AuditRead where
  index : Option (List HistoryEntry)
  manifests : List (CodePoints × Fields)
  own : CodePoints × Fields
  components : List Json

variable (fromisoformat : CodePoints → Option Timestamp) (localUtc : Int → Option Int)
  (digest : Fields → NormalText) (signatureKind : CodePoints → Option NormalText)

/-- The entries that a scan finds. -/
def AuditRead.scanned (r : AuditRead) : List HistoryEntry :=
  r.manifests.map fun manifest => manifestEntry digest manifest.1 manifest.2

/-- The entry of the manifest that is recorded. -/
def AuditRead.ownEntry (r : AuditRead) : HistoryEntry :=
  manifestEntry digest r.own.1 r.own.2

/-- The entries that are listed. -/
def AuditRead.listed (r : AuditRead) : List HistoryEntry :=
  mergedEntries r.index (r.scanned digest)

/-- The entries that recording writes. -/
def AuditRead.written (r : AuditRead) : List HistoryEntry :=
  upsertHistoryEntry (r.listed digest) (r.ownEntry digest)

/-- No operation fails that succeeds on the same entries without timestamps, the date of the
bundle does not fail, and the entries are ordered by time. -/
structure StampsSurvived (r : AuditRead) : Prop where
  listing :
    (∃ items, listAuditHistory fromisoformat signatureKind (r.index.map withoutStamps)
        (withoutStamps (r.scanned digest)) = .ok items) →
      ∃ items, listAuditHistory fromisoformat signatureKind r.index (r.scanned digest) = .ok items
  recording : ∀ valid,
    (∃ index, recordVerified fromisoformat valid (r.index.map withoutStamps)
        (withoutStamps (r.scanned digest)) (r.ownEntry digest).withoutStamp = .ok index) →
      ∃ index, recordVerified fromisoformat valid r.index (r.scanned digest) (r.ownEntry digest) =
        .ok index
  bundling : ∀ now, ∃ createdAt,
    reviewBundleCreatedAt fromisoformat localUtc r.own.2 r.components now = .ok createdAt
  ordered : OrderedByTime fromisoformat (r.listed digest) ∧
    OrderedByTime fromisoformat (r.written digest)

/-- The timestamps that are compared are of one kind, none decides where the other fields agree,
and the latest of a bundle can be written in UTC. -/
structure StampsAlike (r : AuditRead) : Prop where
  listed : Comparable fromisoformat (r.listed digest)
  written : Comparable fromisoformat (r.written digest)
  sync : OtherFieldsComparable r.index (r.scanned digest) →
    (loadHistoryIndex r.index = none → Comparable fromisoformat (r.scanned digest)) ∧
      IdentityComparable (r.listed digest) ∧
        IdentityComparable (knownEntries r.index (r.scanned digest))
  bundle : StampsFormattable fromisoformat localUtc r.own.2 r.components

variable {fromisoformat localUtc digest signatureKind}

theorem StampsAlike.syncComparable
    {r : AuditRead}
    (h : StampsAlike fromisoformat localUtc digest r)
    (hother : OtherFieldsComparable r.index (r.scanned digest)) :
    SyncComparable fromisoformat r.index (r.scanned digest) :=
  ⟨(h.sync hother).1, (h.sync hother).2, fun _ => h.listed⟩

theorem stampsSurvived_of_alike
    {r : AuditRead}
    (h : StampsAlike fromisoformat localUtc digest r) :
    StampsSurvived fromisoformat localUtc digest signatureKind r where
  listing := by
    rw [exists_listAuditHistory_iff, exists_listAuditHistory_iff, syncComparable_withoutStamps]
    rintro ⟨hother, -⟩
    exact ⟨h.syncComparable hother, h.listed⟩
  recording := by
    intro valid
    cases valid with
    | false => exact fun _ => ⟨r.index, rfl⟩
    | true =>
        simp only [recordVerified, if_true]
        rw [exists_recordAuditManifest_iff, exists_recordAuditManifest_iff,
          syncComparable_withoutStamps]
        rintro ⟨hother, -⟩
        exact ⟨h.syncComparable hother, h.written⟩
  bundling := fun now => exists_reviewBundleCreatedAt_iff.mpr h.bundle
  ordered := ⟨orderedByTime_iff.mpr h.listed, orderedByTime_iff.mpr h.written⟩

/-- Manifests survive their timestamps if and only if the timestamps that are compared are of one
kind, and the latest of a bundle can be written in UTC. -/
theorem stampsSurvived_iff
    (fromisoformat : CodePoints → Option Timestamp)
    (localUtc : Int → Option Int)
    (digest : Fields → NormalText)
    (signatureKind : CodePoints → Option NormalText)
    (r : AuditRead) :
    StampsSurvived fromisoformat localUtc digest signatureKind r ↔
      StampsAlike fromisoformat localUtc digest r := by
  refine ⟨fun h => ⟨orderedByTime_iff.mp h.ordered.1, orderedByTime_iff.mp h.ordered.2, ?_,
    exists_reviewBundleCreatedAt_iff.mp (h.bundling 0)⟩, stampsSurvived_of_alike⟩
  intro hother
  have hlisting := h.listing
  rw [exists_listAuditHistory_iff, exists_listAuditHistory_iff, syncComparable_withoutStamps,
    mergedEntries_withoutStamps] at hlisting
  obtain ⟨hsync, -⟩ := hlisting ⟨hother, comparable_withoutStamps _⟩
  exact ⟨hsync.found, hsync.identity⟩

/-! ## A manifest that breaks the listing of the others -/

/-- `datetime.fromisoformat` for midnight on the first of January 2026, in UTC and without a time
zone. -/
def newYearIso (s : CodePoints) : Option Timestamp :=
  if s = codePoints "2026-01-01T00:00:00+00:00" then some ⟨true, 63902822400000000⟩
  else if s = codePoints "2026-01-01T00:00:00" then some ⟨false, 63902822400000000⟩
  else none

theorem zeros_ne_nil :
    codePoints "00ff" ≠ [] := by
  decide

theorem stripCodes_zeros :
    stripCodes (codePoints "00ff") = codePoints "00ff" := by
  decide

def zeroDigest (_ : Fields) : NormalText where
  text := codePoints "00ff"
  nonempty := zeros_ne_nil
  stripped := stripCodes_zeros

/-- A manifest with a date. -/
def datedManifest (createdAt : String) : Fields :=
  [(codePoints "created_at", .string (codePoints createdAt))]

/-- Two manifests, one with an offset and one without. -/
def mixedManifests : AuditRead where
  index := none
  manifests :=
    [(codePoints "/r/a.json", datedManifest "2026-01-01T00:00:00Z"),
      (codePoints "/r/b.json", datedManifest "2026-01-01T00:00:00")]
  own := (codePoints "/r/a.json", datedManifest "2026-01-01T00:00:00Z")
  components := []

/-- One manifest without an offset makes the listing of all fail, and it does not fail without the
timestamps. -/
theorem mixed_manifests_break_listing :
    listAuditHistory newYearIso (fun _ => none) none (mixedManifests.scanned zeroDigest) =
        .error .typeError ∧
      ¬ StampsSurvived newYearIso some zeroDigest (fun _ => none) mixedManifests := by
  have hmixed : ¬ Comparable newYearIso (mixedManifests.listed zeroDigest) := by
    decide
  refine ⟨by rfl, fun h => hmixed (orderedByTime_iff.mp h.ordered.1)⟩

end Survive

end Audit
end TensorGrep
