import TensorGrep.Ledger.Claims

/-!
# What the index operations do

One lemma for each part of a call under the lock: pruning keeps what is live,
the cap splits the records into those that are written and those that are
dropped, overlaps come one for each live entry, and a release splits the live
entries.
-/

namespace TensorGrep
namespace Ledger

open Kernel

/-- The entries of an index file. -/
def IndexFile.records (file : IndexFile) : List ClaimEntry :=
  match file with
  | .absent => []
  | .corrupt _ => []
  | .entries _ records => records

variable {records live : List ClaimEntry} {e : ClaimEntry} {now : Nat} {file : IndexFile}
  {record : ClaimRecord}

theorem loadIndex_eq_ok
    (h : loadIndex file = .ok records) :
    records = file.records := by
  cases file with
  | absent =>
      cases h
      rfl
  | corrupt size =>
      rw [loadIndex] at h
      split_ifs at h
  | entries size es =>
      rw [loadIndex] at h
      split_ifs at h
      cases h
      rfl

/-! ## Pruning -/

theorem mem_pruneExpired :
    e ∈ pruneExpired records now ↔ e ∈ records ∧ e.liveAt now = true :=
  List.mem_filter

theorem toEntry_liveAt :
    record.toEntry.liveAt now = true ↔ now < record.expiresAt := by
  simp [ClaimEntry.liveAt, ClaimRecord.toEntry]

/-! ## The cap -/

/-- The cap splits the records into those that stay and those that go. -/
theorem perm_cap
    (records : List ClaimEntry) :
    (evictedOverCap records ++ evictOldestOverCap records).Perm records := by
  rw [evictedOverCap, evictOldestOverCap]
  split_ifs with h
  · exact List.Perm.refl _
  · rw [List.take_append_drop]
    exact perm_sortByKey _ _

theorem mem_cap_iff :
    e ∈ records ↔ e ∈ evictOldestOverCap records ∨ e ∈ evictedOverCap records := by
  rw [← (perm_cap records).mem_iff, List.mem_append, or_comm]

/-- Distinct ids stay distinct under the cap. -/
theorem nodup_evictOldest
    (h : (records.map ClaimEntry.claimId).Nodup) :
    ((evictOldestOverCap records).map ClaimEntry.claimId).Nodup := by
  have hperm := (perm_cap records).map ClaimEntry.claimId
  rw [List.map_append] at hperm
  exact (List.nodup_append.mp (hperm.nodup_iff.mpr h)).2.1

/-! ## Overlaps -/

/-- The names that a claim and an entry share, each once. -/
theorem mem_sharedNames
    {mine theirs : List String}
    {name : String} :
    name ∈ sharedNames mine theirs ↔ name ∈ mine ∧ name ∈ theirs := by
  rw [sharedNames, mem_sortDedup Function.injective_id, List.mem_filter, decide_eq_true_eq]

theorem nodup_sharedNames
    (mine theirs : List String) :
    (sharedNames mine theirs).Nodup :=
  nodup_of_pairwise_key_lt (pairwise_sortDedup id _)

/-- An overlap that is found names its entry, which is not the agent's own. -/
theorem overlapWith_eq_some
    {o : Overlap}
    (h : overlapWith record e = .ok (some o)) :
    o.claimId = e.claimId ∧
      ¬ (record.agentId ≠ defaultAgentId ∧ e.agentId = some record.agentId) := by
  rw [overlapWith] at h
  by_cases hown : record.agentId ≠ defaultAgentId ∧ e.agentId = some record.agentId
  · rw [if_pos hown] at h
    cases h
  rw [if_neg hown] at h
  cases hsymbols : e.symbols with
  | none =>
      rw [hsymbols] at h
      cases h
  | some symbols =>
      cases hfiles : e.files with
      | none =>
          rw [hsymbols, hfiles] at h
          cases h
      | some files =>
          rw [hsymbols, hfiles] at h
          dsimp only at h
          split_ifs at h with hnone
          · cases h
          · cases h
            exact ⟨rfl, hown⟩

/-- An overlap with exactly the names that two claims share. -/
structure SharesExactly
    (a record : ClaimRecord)
    (o : Overlap) : Prop where
  claimId : o.claimId = some a.claimId
  symbols : ∀ name, name ∈ o.symbols ↔ name ∈ a.symbols ∧ name ∈ record.symbols
  symbols_nodup : o.symbols.Nodup
  files : ∀ name, name ∈ o.files ↔ name ∈ a.files ∧ name ∈ record.files
  files_nodup : o.files.Nodup

/-- A claim of another agent with a common name is an overlap. -/
theorem overlapWith_toEntry
    {a : ClaimRecord}
    (hagent : a.agentId ≠ record.agentId ∨ record.agentId = defaultAgentId)
    (hshared : (∃ name, name ∈ a.symbols ∧ name ∈ record.symbols) ∨
      ∃ name, name ∈ a.files ∧ name ∈ record.files) :
    ∃ o, overlapWith record a.toEntry = .ok (some o) ∧ SharesExactly a record o := by
  have hother : ¬ (record.agentId ≠ defaultAgentId ∧
      a.toEntry.agentId = some record.agentId) := by
    rintro ⟨hnamed, hsame⟩
    rcases hagent with hne | hanon
    · exact hne (Option.some.inj hsame)
    · exact hnamed hanon
  have hsome : ¬ (sharedNames record.symbols a.symbols = [] ∧
      sharedNames record.files a.files = []) := by
    rintro ⟨hsymbols, hfiles⟩
    rcases hshared with ⟨name, ha, hr⟩ | ⟨name, ha, hr⟩
    · have hmem := mem_sharedNames.mpr ⟨hr, ha⟩
      rw [hsymbols] at hmem
      cases hmem
    · have hmem := mem_sharedNames.mpr ⟨hr, ha⟩
      rw [hfiles] at hmem
      cases hmem
  rw [overlapWith, if_neg hother]
  dsimp only [ClaimRecord.toEntry]
  rw [if_neg hsome]
  refine ⟨_, rfl, rfl, ?_, nodup_sharedNames _ _, ?_, nodup_sharedNames _ _⟩
  · intro name
    rw [mem_sharedNames, and_comm]
  · intro name
    rw [mem_sharedNames, and_comm]

/-- Every overlap comes from a live entry that is not the agent's own. -/
theorem exists_entry_of_overlap
    {overlaps : List Overlap}
    {o : Overlap}
    (h : findOverlaps live record = .ok overlaps)
    (ho : o ∈ overlaps) :
    ∃ e ∈ live, o.claimId = e.claimId ∧
      ¬ (record.agentId ≠ defaultAgentId ∧ e.agentId = some record.agentId) := by
  rw [findOverlaps, bind_eq_ok_iff] at h
  obtain ⟨found, hfound, h⟩ := h
  cases h
  obtain ⟨opt, hopt, ho⟩ := List.mem_flatMap.mp ho
  obtain ⟨e, he, heq⟩ := exists_mem_of_mapM hfound hopt
  rw [Option.mem_toList] at ho
  subst ho
  exact ⟨e, he, overlapWith_eq_some heq⟩

/-- A claim stands exactly once in a list of overlaps, with exactly the shared names. -/
def ListedOnce
    (a record : ClaimRecord)
    (overlaps : List Overlap) : Prop :=
  ∃ before o after, overlaps = before ++ o :: after ∧ SharesExactly a record o ∧
    ∀ o' ∈ before ++ after, o'.claimId ≠ some a.claimId

/-- With distinct ids, a live claim of another agent with a common name is listed once. -/
theorem listedOnce_of_mem
    {a : ClaimRecord}
    {overlaps : List Overlap}
    (h : findOverlaps live record = .ok overlaps)
    (hnodup : (live.map ClaimEntry.claimId).Nodup)
    (hlive : a.toEntry ∈ live)
    (hagent : a.agentId ≠ record.agentId ∨ record.agentId = defaultAgentId)
    (hshared : (∃ name, name ∈ a.symbols ∧ name ∈ record.symbols) ∨
      ∃ name, name ∈ a.files ∧ name ∈ record.files) :
    ListedOnce a record overlaps := by
  obtain ⟨pre, post, rfl⟩ := List.append_of_mem hlive
  obtain ⟨o, ho, hexact⟩ := overlapWith_toEntry hagent hshared
  rw [findOverlaps, bind_eq_ok_iff] at h
  obtain ⟨found, hfound, h⟩ := h
  cases h
  rw [List.mapM_append, bind_eq_ok_iff] at hfound
  obtain ⟨foundPre, hpre, hfound⟩ := hfound
  rw [bind_eq_ok_iff] at hfound
  obtain ⟨foundRest, hrest, hfound⟩ := hfound
  cases hfound
  rw [List.mapM_cons, ho] at hrest
  rw [bind_eq_ok_iff] at hrest
  obtain ⟨_, hhead, hrest⟩ := hrest
  cases hhead
  rw [bind_eq_ok_iff] at hrest
  obtain ⟨foundPost, hpost, hrest⟩ := hrest
  cases hrest
  refine ⟨foundPre.flatMap Option.toList, o, foundPost.flatMap Option.toList, ?_, hexact, ?_⟩
  · rw [List.flatMap_append, List.flatMap_cons]
    rfl
  · -- the overlaps around it come from entries with other ids
    rw [List.map_append, List.map_cons, List.nodup_middle, List.nodup_cons] at hnodup
    intro o' ho' hsame
    refine hnodup.1 ?_
    rw [← List.map_append, List.mem_map]
    have hpart : ∀ (es : List ClaimEntry) (founds : List (Option Overlap)),
        es.mapM (overlapWith record) = .ok founds → o' ∈ founds.flatMap Option.toList →
          ∃ e ∈ es, e.claimId = a.toEntry.claimId := by
      intro es founds hes hmem
      obtain ⟨e, he, hid, -⟩ := exists_entry_of_overlap
        (bind_eq_ok_iff.mpr ⟨founds, hes, rfl⟩) hmem
      exact ⟨e, he, hid.symm.trans hsame⟩
    rcases List.mem_append.mp ho' with hmem | hmem
    · obtain ⟨e, he, hid⟩ := hpart pre foundPre hpre hmem
      exact ⟨e, List.mem_append_left _ he, hid⟩
    · obtain ⟨e, he, hid⟩ := hpart post foundPost hpost hmem
      exact ⟨e, List.mem_append_right _ he, hid⟩

/-! ## The parts under the lock -/

/-- What a submission does, read off its result. -/
theorem submitLocked_eq_ok
    {result : SubmitResult}
    (h : submitLocked file record = .ok result) :
    findOverlaps (pruneExpired file.records record.createdAt) record = .ok result.overlaps ∧
      result.written = evictOldestOverCap
        (pruneExpired file.records record.createdAt ++ [record.toEntry]) ∧
      result.dropped = evictedOverCap
        (pruneExpired file.records record.createdAt ++ [record.toEntry]) := by
  rw [submitLocked, bind_eq_ok_iff] at h
  obtain ⟨existing, hload, h⟩ := h
  rw [loadIndex_eq_ok hload, bind_eq_ok_iff] at h
  obtain ⟨overlaps, hoverlaps, h⟩ := h
  cases h
  exact ⟨hoverlaps, rfl, rfl⟩

/-- The entries that a release tests, in order. -/
theorem map_snd_of_tested
    {call : ReleaseCall}
    {tested : List (Bool × ClaimEntry)}
    (h : live.mapM (fun e => (call.releases e).map fun b => (b, e)) = .ok tested) :
    tested.map Prod.snd = live := by
  rw [mapM_eq_ok_iff] at h
  induction h with
  | nil => rfl
  | @cons e t es ts ht _ ih =>
      obtain ⟨b, -, rfl⟩ := map_eq_ok_iff.mp ht
      rw [List.map_cons, ih]

/-- A release splits the live entries; where it writes nothing, every entry remains. -/
theorem releaseLocked_eq_ok
    {call : ReleaseCall}
    {result : ReleaseResult}
    (h : releaseLocked file call = .ok result) :
    (result.released ++ result.remaining).Perm (pruneExpired file.records call.now) ∧
      result.remaining.Sublist file.records ∧
      (result.written = some result.remaining ∨
        result.written = none ∧ result.released = [] ∧ result.remaining = file.records) := by
  rw [releaseLocked, bind_eq_ok_iff] at h
  obtain ⟨existing, hload, h⟩ := h
  rw [loadIndex_eq_ok hload, bind_eq_ok_iff] at h
  obtain ⟨tested, htested, h⟩ := h
  cases h
  have hentries := map_snd_of_tested htested
  have hperm : ((tested.filter Prod.fst).map Prod.snd ++
      (tested.filter (fun t => !t.1)).map Prod.snd).Perm
        (pruneExpired file.records call.now) := by
    rw [← List.map_append, ← hentries]
    exact (List.filter_append_perm Prod.fst tested).map Prod.snd
  have hsublist : ((tested.filter (fun t => !t.1)).map Prod.snd).Sublist file.records := by
    refine (List.filter_sublist.map Prod.snd).trans ?_
    rw [hentries]
    exact List.filter_sublist
  refine ⟨hperm, hsublist, ?_⟩
  dsimp only
  split_ifs with hlength
  · exact Or.inl rfl
  · right
    have hsame := hsublist.eq_of_length (not_not.mp hlength)
    refine ⟨rfl, ?_, hsame⟩
    -- nothing was pruned, so there is nothing left to release
    have hcount := hperm.length_eq
    have hle : (pruneExpired file.records call.now).length ≤ file.records.length :=
      List.length_filter_le _ _
    rw [List.length_append, hsame] at hcount
    exact List.length_eq_zero_iff.mp (by omega)

end Ledger
end TensorGrep
