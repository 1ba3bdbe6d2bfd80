import TensorGrep.Kernel.SeenWalk
import TensorGrep.Audit.ReviewBundles

/-!
# The history of audit manifests

The history index of a root has one entry for each manifest that was recorded or
found in the audit directory.  `orderHistoryEntries` lists the entries along
their links to the previous manifest, newest heads first.

An entry holds what `_load_history_index` and `_manifest_entry` keep of a
manifest.  Its texts but the path are stripped and not empty, which is why
reading them through `_normalize_optional_str` again changes nothing.
-/

namespace TensorGrep
namespace Audit

open Kernel
open Evidence (PythonError)

/-! ## Entries -/

/-- A text that is not empty and has no white space at its ends. -/
structure NormalText where
  text : CodePoints
  nonempty : text ≠ []
  stripped : stripCodes text = text
deriving DecidableEq

/-- `_normalize_optional_str` of a text. -/
def normalText (s : CodePoints) : Option NormalText :=
  if h : stripCodes s = [] then none
  else some ⟨stripCodes s, h, stripCodes_stripCodes s⟩

/-- An entry of the history. -/
structure HistoryEntry where
  manifestSha256 : NormalText
  kind : Option NormalText
  createdAt : Option NormalText
  filePath : CodePoints
  previousManifestSha256 : Option NormalText
deriving DecidableEq

/-- What is read of an entry that was written: the path is stripped as well, and an entry
whose path is blank is left out. -/
def HistoryEntry.reread (e : HistoryEntry) : Option HistoryEntry :=
  (normalText e.filePath).map fun path => { e with filePath := path.text }

/-- `_load_history_index`, for an index file that can be read. -/
def loadHistoryIndex (index : Option (List HistoryEntry)) : Option (List HistoryEntry) :=
  index.map fun entries => entries.filterMap HistoryEntry.reread

/-- `_upsert_history_entry`. -/
def upsertHistoryEntry
    (entries : List HistoryEntry)
    (entry : HistoryEntry) : List HistoryEntry :=
  entries.filter (fun existing => existing.filePath ≠ entry.filePath) ++ [entry]

/-- The merging loop of `_sync_history_index`. -/
def mergeScanned
    (entries scanned : List HistoryEntry) : List HistoryEntry :=
  scanned.foldl upsertHistoryEntry entries

/-- The paths of entries. -/
def paths (entries : List HistoryEntry) : List CodePoints :=
  entries.map HistoryEntry.filePath

theorem mem_paths_upsert
    {entries : List HistoryEntry}
    {entry : HistoryEntry}
    {path : CodePoints} :
    path ∈ paths (upsertHistoryEntry entries entry) ↔
      path ∈ paths entries ∨ path = entry.filePath := by
  rw [paths, upsertHistoryEntry, List.map_append, List.mem_append, List.map_singleton,
    List.mem_singleton]
  constructor
  · rintro (hmem | rfl)
    · obtain ⟨e, he, rfl⟩ := List.mem_map.mp hmem
      exact Or.inl (List.mem_map_of_mem (List.mem_filter.mp he).1)
    · exact Or.inr rfl
  · rintro (hmem | rfl)
    · by_cases hsame : path = entry.filePath
      · exact Or.inr hsame
      · obtain ⟨e, he, rfl⟩ := List.mem_map.mp hmem
        exact Or.inl (List.mem_map_of_mem (List.mem_filter.mpr ⟨he, decide_eq_true hsame⟩))
    · exact Or.inr rfl

/-- Merging keeps every path and adds those that were scanned. -/
theorem mem_paths_merge
    {entries scanned : List HistoryEntry}
    {path : CodePoints} :
    path ∈ paths (mergeScanned entries scanned) ↔
      path ∈ paths entries ∨ path ∈ paths scanned := by
  rw [mergeScanned]
  induction scanned generalizing entries with
  | nil =>
      refine (or_iff_left ?_).symm
      exact List.not_mem_nil
  | cons e rest ih =>
      have hcons : path ∈ paths (e :: rest) ↔ path = e.filePath ∨ path ∈ paths rest :=
        List.mem_cons
      rw [List.foldl_cons, ih, mem_paths_upsert, or_assoc, hcons]

/-! ## Sorting -/

/-- What `datetime.fromisoformat` makes of a text: whether it has a time zone, and its moment
in microseconds since the first of the year 1. -/
structure Timestamp where
  aware : Bool
  moment : Int

section Sorting

variable (fromisoformat : CodePoints → Option Timestamp)

/-- `_parse_timestamp`. -/
def parseTimestamp (value : Option NormalText) : Option Timestamp :=
  value.bind fun raw => fromisoformat
    (raw.text.flatMap fun c => if c = 0x5a then codePoints "+00:00" else [c])

/-- The moment in the key of an entry; without a timestamp it is the first one in UTC. -/
def entryTimestamp (e : HistoryEntry) : Timestamp :=
  (parseTimestamp fromisoformat e.createdAt).getD ⟨true, 0⟩

/-- `_history_sort_key`, for moments that can be compared. -/
def historySortKey (e : HistoryEntry) : Lex (Int × Lex (CodePoints × CodePoints)) :=
  toLex ((entryTimestamp fromisoformat e).moment, toLex (e.manifestSha256.text, e.filePath))

/-- Moments with and without a time zone cannot be compared. -/
def Comparable (entries : List HistoryEntry) : Prop :=
  ∀ e ∈ entries, ∀ e' ∈ entries,
    (entryTimestamp fromisoformat e).aware = (entryTimestamp fromisoformat e').aware

instance (entries : List HistoryEntry) : Decidable (Comparable fromisoformat entries) :=
  inferInstanceAs (Decidable (∀ e ∈ entries, ∀ e' ∈ entries,
    (entryTimestamp fromisoformat e).aware = (entryTimestamp fromisoformat e').aware))

/-- `sorted` by the key of the history, in reverse. -/
def historySorted (entries : List HistoryEntry) : Except PythonError (List HistoryEntry) :=
  if Comparable fromisoformat entries then
    .ok (sortByKey (fun e => OrderDual.toDual (historySortKey fromisoformat e)) entries)
  else .error .typeError

end Sorting

/-! ## Ordering -/

section Ordering

variable (fromisoformat : CodePoints → Option Timestamp)

/-- `by_sha`: of several entries with one digest the last counts. -/
def bySha
    (entries : List HistoryEntry)
    (sha : NormalText) : Option HistoryEntry :=
  entries.reverse.find? fun e => e.manifestSha256 = sha

/-- The entry that an entry links to. -/
def previousEntry
    (entries : List HistoryEntry)
    (e : HistoryEntry) : Option HistoryEntry :=
  e.previousManifestSha256.bind (bySha entries)

/-- The entries that no other links to. -/
def heads (entries : List HistoryEntry) : List HistoryEntry :=
  entries.filter fun e =>
    !entries.any fun other => decide (other.previousManifestSha256 = some e.manifestSha256)

/-- `_order_history_entries`, with bounded chains; `none` when a chain is longer. -/
def orderHistoryEntries
    (entries : List HistoryEntry) : Except PythonError (Option (List HistoryEntry)) := do
  let follow := followAll HistoryEntry.manifestSha256 (previousEntry entries) (entries.length + 1)
  let headsFirst ← historySorted fromisoformat (heads entries)
  let all ← historySorted fromisoformat entries
  return (follow headsFirst []).bind (follow all)

/-- An item of the listed history. -/
structure HistoryItem where
  manifestSha256 : NormalText
  kind : Option NormalText
  createdAt : Option NormalText
  filePath : CodePoints
  previousManifestSha256 : Option NormalText
  missingTimestamp : Bool
  chainGap : Bool
  signatureKind : Option NormalText

/-- What is listed for an entry. -/
def historyItem
    (signatureKind : CodePoints → Option NormalText)
    (entries : List HistoryEntry)
    (e : HistoryEntry) : HistoryItem where
  manifestSha256 := e.manifestSha256
  kind := e.kind
  createdAt := e.createdAt
  filePath := e.filePath
  previousManifestSha256 := e.previousManifestSha256
  missingTimestamp := e.createdAt.isNone
  chainGap := e.previousManifestSha256.any fun sha =>
    decide (sha ∉ entries.map HistoryEntry.manifestSha256)
  signatureKind := signatureKind e.filePath

/-- `list_audit_history` on the entries that it has synchronised, where `signatureKind` is
`_load_signature_kind`. -/
def listHistory
    (signatureKind : CodePoints → Option NormalText)
    (entries : List HistoryEntry) : Except PythonError (Option (List HistoryItem)) := do
  let ordered ← orderHistoryEntries fromisoformat entries
  return ordered.map fun list => list.map (historyItem signatureKind entries)

end Ordering

/-! ## Every entry once -/

section Once

variable {fromisoformat : CodePoints → Option Timestamp} {entries : List HistoryEntry}

theorem historySorted_eq_ok
    {sorted : List HistoryEntry}
    (h : historySorted fromisoformat entries = .ok sorted) :
    Comparable fromisoformat entries ∧ sorted.Perm entries := by
  rw [historySorted] at h
  split at h
  case isTrue hcomparable =>
      cases h
      exact ⟨hcomparable, perm_sortByKey _ entries⟩
  case isFalse => cases h

theorem previousEntry_mem
    {e e' : HistoryEntry}
    (h : e' ∈ previousEntry entries e) :
    e' ∈ entries := by
  obtain ⟨sha, -, hfound⟩ := Option.bind_eq_some_iff.mp h
  exact List.mem_reverse.mp (List.mem_of_find?_eq_some hfound)

/-- Entries with comparable moments are ordered; the ordered ones have distinct digests, and
every digest is among them. -/
theorem exists_ordered
    (h : Comparable fromisoformat entries) :
    ∃ ordered, orderHistoryEntries fromisoformat entries = .ok (some ordered) ∧
      WalkInv HistoryEntry.manifestSha256 entries ordered ∧
      ∀ e ∈ entries, e.manifestSha256 ∈ ordered.map HistoryEntry.manifestSha256 := by
  have hheads : Comparable fromisoformat (heads entries) := fun e he e' he' =>
    h e (List.mem_filter.mp he).1 e' (List.mem_filter.mp he').1
  have hclosed : ∀ e ∈ entries, ∀ e' ∈ previousEntry entries e, e' ∈ entries :=
    fun e _ e' he' => previousEntry_mem he'
  have hstart : WalkInv HistoryEntry.manifestSha256 entries [] :=
    ⟨fun e he => absurd he List.not_mem_nil, List.nodup_nil⟩
  obtain ⟨first, hfirst, hfirstInv, -, -⟩ := followAll_spec hclosed
    (sortByKey (fun e => OrderDual.toDual (historySortKey fromisoformat e)) (heads entries))
    (fun e he => (List.mem_filter.mp (mem_sortByKey.mp he)).1) hstart
    (Nat.lt_succ_self entries.length)
  obtain ⟨ordered, hordered, hinv, -, hall⟩ := followAll_spec hclosed
    (sortByKey (fun e => OrderDual.toDual (historySortKey fromisoformat e)) entries)
    (fun e he => mem_sortByKey.mp he) hfirstInv (Nat.lt_succ_self entries.length)
  refine ⟨ordered, ?_, hinv, fun e he => hall e (mem_sortByKey.mpr he)⟩
  rw [orderHistoryEntries, historySorted, historySorted, if_pos hheads, if_pos h]
  change Except.ok ((followAll _ _ _ _ []).bind _) = _
  rw [hfirst, Option.bind_some, hordered]

theorem orderHistoryEntries_eq_ok
    {result : Option (List HistoryEntry)}
    (h : orderHistoryEntries fromisoformat entries = .ok result) :
    Comparable fromisoformat entries := by
  rw [orderHistoryEntries, bind_eq_ok_iff] at h
  obtain ⟨headsFirst, -, h⟩ := h
  rw [bind_eq_ok_iff] at h
  obtain ⟨all, hall, -⟩ := h
  exact (historySorted_eq_ok hall).1

/-- No chain is longer than there are entries. -/
theorem orderHistoryEntries_terminates :
    orderHistoryEntries fromisoformat entries ≠ .ok none := by
  intro h
  obtain ⟨ordered, hordered, -⟩ := exists_ordered (orderHistoryEntries_eq_ok h)
  rw [h] at hordered
  cases hordered

/-- The listed history has every path as often as the entries have it. -/
def ListedOnce
    (fromisoformat : CodePoints → Option Timestamp)
    (signatureKind : CodePoints → Option NormalText)
    (entries : List HistoryEntry) : Prop :=
  ∃ items, listHistory fromisoformat signatureKind entries = .ok (some items) ∧
    (items.map HistoryItem.filePath).Perm (paths entries)

/-- Every path is listed once exactly when the moments can be compared and no two entries have
the same digest. -/
theorem listedOnce_iff
    (signatureKind : CodePoints → Option NormalText) :
    ListedOnce fromisoformat signatureKind entries ↔
      Comparable fromisoformat entries ∧
        (entries.map HistoryEntry.manifestSha256).Nodup := by
  have hpaths : ∀ ordered : List HistoryEntry,
      (ordered.map (historyItem signatureKind entries)).map HistoryItem.filePath =
        paths ordered := by
    intro ordered
    rw [List.map_map]
    rfl
  constructor
  · rintro ⟨items, hitems, hperm⟩
    rw [listHistory, bind_eq_ok_iff] at hitems
    obtain ⟨result, hresult, hitems⟩ := hitems
    have hcomparable := orderHistoryEntries_eq_ok hresult
    obtain ⟨ordered, hordered, hinv, hall⟩ := exists_ordered hcomparable
    rw [hordered] at hresult
    cases hresult
    cases hitems
    rw [hpaths] at hperm
    have hlength := hperm.length_eq
    rw [paths, paths, List.length_map, List.length_map] at hlength
    exact ⟨hcomparable, (hinv.length_eq_iff hall).mp hlength⟩
  · rintro ⟨hcomparable, hdistinct⟩
    obtain ⟨ordered, hordered, hinv, hall⟩ := exists_ordered hcomparable
    refine ⟨ordered.map (historyItem signatureKind entries), ?_, ?_⟩
    · rw [listHistory, hordered]
      rfl
    · rw [hpaths]
      exact ((hinv.perm_iff hall).mpr hdistinct).map HistoryEntry.filePath

end Once

end Audit
end TensorGrep
