import TensorGrep.Ledger.Runs

/-!
# Listing claims

`list_claims` reads the index without the lock.  It leaves out what has expired, and keeps the claims
of a scope, of a symbol and of an agent.

In every run, and between any two steps of the other calls, a listing shows the claims that it asks
for and that are neither released nor evicted nor expired, each once, and none that is released or
expired (`listing_exact`).
-/

namespace TensorGrep
namespace Ledger

open Kernel

/-- The entry of a claim as a listing shows it. -/
def ClaimRecord.listed (r : ClaimRecord) : ClaimEntry :=
  { r.toEntry with scope := some r.toEntry.entryScope }

/-- A listing asks for the claim. -/
structure AsksFor
    (scope : String)
    (symbol agentId : Option String)
    (r : ClaimRecord) : Prop where
  scope : scopeContains scope r.toEntry.entryScope = true
  symbol : ∀ name, symbol = some name → name ∈ r.symbols
  agent : ∀ agent, agentId = some agent → r.agentId = agent

section Tested

variable {test : ClaimEntry → Except LedgerError Bool} {live : List ClaimEntry}
  {tested : List (Bool × ClaimEntry)}

/-- Each entry stands with the outcome of its test. -/
theorem mem_tested_iff
    (h : live.mapM (fun e => (test e).map fun b => (b, e)) = .ok tested)
    {b : Bool}
    {e : ClaimEntry} :
    (b, e) ∈ tested ↔ e ∈ live ∧ test e = .ok b := by
  constructor
  · intro hmem
    obtain ⟨e', he', heq⟩ := exists_mem_of_mapM h hmem
    obtain ⟨b', hb', hpair⟩ := map_eq_ok_iff.mp heq
    cases hpair
    exact ⟨he', hb'⟩
  · rintro ⟨he, htest⟩
    obtain ⟨t, ht, heq⟩ := exists_result_of_mapM h he
    obtain ⟨b', hb', rfl⟩ := map_eq_ok_iff.mp heq
    rw [htest] at hb'
    cases hb'
    exact ht

/-- The entries that pass a test are in their order. -/
theorem passed_sublist
    (h : live.mapM (fun e => (test e).map fun b => (b, e)) = .ok tested) :
    ((tested.filter Prod.fst).map Prod.snd).Sublist live := by
  have hentries : tested.map Prod.snd = live.map id := by
    refine map_eq_of_mapM h fun e _ t ht => ?_
    obtain ⟨b, -, rfl⟩ := map_eq_ok_iff.mp ht
    rfl
  rw [List.map_id] at hentries
  rw [← hentries]
  exact List.filter_sublist.map Prod.snd

end Tested

/-- A listing shows entries of the index in their order, and of the claims there those that are live
and asked for. -/
theorem listClaims_eq_ok
    {file : IndexFile}
    {now : Nat}
    {scope : String}
    {symbol agentId : Option String}
    {shown : List ClaimEntry}
    (h : listClaims file now scope symbol agentId = .ok shown) :
    ∃ owned : List ClaimEntry, owned.Sublist file.records ∧
      shown = owned.map (fun e => { e with scope := some e.entryScope }) ∧
      ∀ r : ClaimRecord, r.toEntry ∈ owned ↔
        r.toEntry ∈ file.records ∧ now < r.expiresAt ∧ AsksFor scope symbol agentId r := by
  rw [listClaims, bind_eq_ok_iff] at h
  obtain ⟨existing, hload, h⟩ := h
  rw [loadIndex_eq_ok hload] at h
  dsimp only at h
  rw [bind_eq_ok_iff] at h
  obtain ⟨tested, htested, h⟩ := h
  cases h
  refine ⟨_, List.filter_sublist.trans ((passed_sublist htested).trans
    (List.filter_sublist.trans List.filter_sublist)), rfl, ?_⟩
  intro r
  have hnamed : r.toEntry ∈ (tested.filter Prod.fst).map Prod.snd ↔ (true, r.toEntry) ∈ tested := by
    simp
  have hagent : (agentId.isNone || decide (r.toEntry.agentId = agentId)) = true ↔
      ∀ agent, agentId = some agent → r.agentId = agent := by
    cases agentId with
    | none => simp
    | some agent => simp [ClaimRecord.toEntry]
  rw [List.mem_filter, hnamed, mem_tested_iff htested, List.mem_filter, mem_pruneExpired,
    toEntry_liveAt, hagent]
  constructor
  · rintro ⟨⟨⟨⟨hmem, hlive⟩, hscope⟩, hname⟩, howner⟩
    refine ⟨hmem, hlive, hscope, ?_, howner⟩
    rintro name rfl
    exact List.contains_iff_mem.mp (Except.ok.inj hname)
  · rintro ⟨hmem, hlive, hscope, hname, howner⟩
    refine ⟨⟨⟨⟨hmem, hlive⟩, hscope⟩, ?_⟩, howner⟩
    cases symbol with
    | none => rfl
    | some name => exact congrArg Except.ok (List.contains_iff_mem.mpr (hname name rfl))

section Runs

variable {Call : Type} [DecidableEq Call] {s : LedgerState Call} {scope : String}
  {symbol agentId : Option String} {shown : List ClaimEntry}

/-- Whenever the index is listed, every claim that is asked for and neither released nor evicted nor
expired is shown; what is shown are submitted claims that are asked for and neither released nor
expired, and none of them twice. -/
theorem listing_exact
    (hs : (claimsLedger Call (· = .absent)).Reachable (fun _ _ => True) s)
    (hlist : listClaims s.file s.clock scope symbol agentId = .ok shown) :
    (∀ w ∈ s.submits, w.1.claimId ∉ s.released → w.1.claimId ∉ s.evicted →
      s.clock < w.1.expiresAt → AsksFor scope symbol agentId w.1 → w.1.listed ∈ shown) ∧
    (∀ e ∈ shown, ∃ w ∈ s.submits, e = w.1.listed ∧ w.1.claimId ∉ s.released ∧
      s.clock < w.1.expiresAt ∧ AsksFor scope symbol agentId w.1) ∧
    (shown.map ClaimEntry.claimId).Nodup := by
  have hinv := inv_reachable hs
  obtain ⟨owned, hsublist, rfl, hmem⟩ := listClaims_eq_ok hlist
  refine ⟨?_, ?_, ?_⟩
  · intro w hw hreleased hevicted hlive hasks
    exact List.mem_map.mpr ⟨w.1.toEntry,
      (hmem w.1).mpr ⟨hinv.kept w hw hreleased hevicted hlive, hlive, hasks⟩, rfl⟩
  · intro e he
    obtain ⟨entry, hentry, rfl⟩ := List.mem_map.mp he
    obtain ⟨w, hw, rfl, hreleased⟩ := hinv.known entry (hsublist.subset hentry)
    obtain ⟨-, hlive, hasks⟩ := (hmem w.1).mp hentry
    exact ⟨w, hw, rfl, hreleased, hlive, hasks⟩
  · rw [List.map_map]
    exact hinv.nodup.sublist (hsublist.map ClaimEntry.claimId)

/-- While the second agent waits, the claim of the first is listed by its symbol and its agent. -/
theorem listing_exact_waitingState :
    ∃ shown, listClaims (waitingState 0).file (waitingState 0).clock "." (some "f") (some "x") =
      .ok shown ∧ (claimOf "c1" "x").listed ∈ shown := by
  refine ⟨[(claimOf "c1" "x").listed], by decide, ?_⟩
  exact (@listing_exact Bool _ (waitingState 0) "." (some "f") (some "x") _
    (reachable_waitingState 0) (by decide)).1
    (claimOf "c1" "x", ⟨[], [(claimOf "c1" "x").toEntry], []⟩) List.mem_cons_self
    (by decide) (by decide) (by decide)
    ⟨rfl, fun name hname => by cases hname; decide, fun agent hagent => by cases hagent; rfl⟩

end Runs

end Ledger
end TensorGrep
