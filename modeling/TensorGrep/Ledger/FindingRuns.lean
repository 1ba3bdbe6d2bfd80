import TensorGrep.Kernel.StepSystem
import TensorGrep.Ledger.RecordedFindings

/-!
# Runs of the findings ledger

One call at a time records, under the lock, and can stop after any of its steps:
the blob is stored, the index is written, orphaned blobs are removed one by one.
Any number of searches are under way; a search reads the index and then one blob
after the other, without the lock.

In every run each entry of the index has its blob.  A search can still fail,
because a blob that it has yet to read is removed once the index no longer refers
to it, or because a blob was stored that is too large to be read.
`findings_integrity` says that nothing else makes a search fail.
-/

namespace TensorGrep
namespace Ledger

open Kernel
open Evidence
open Kernel.Json (lookup)

/-! ## Steps -/

/-- What the call that holds the lock has done so far. -/
inductive RecordPhase where
  | locked (env : FindingEnvironment) (p : PreparedFinding)
  | stored (env : FindingEnvironment) (p : PreparedFinding)
  | collecting (live : List Fields) (listing : List CodePoints)

/-- What a search has done so far. -/
inductive SearchPhase where
  | idle
  | reading (args : FindArgs) (toServe : List (Fields × Bool)) (verified : List ServedFinding)
  | finished (result : Except FindingError FindAnswer)

/-- The ledger, the call that holds the lock and the searches. -/
structure FindingsState (Search : Type) where
  index : FindingsIndex
  blobs : CodePoints → Option Bytes
  holder : Option RecordPhase
  searches : Search → SearchPhase

/-- What can happen. -/
inductive FindingsEvent (Search : Type) where
  | acquire
  | store
  | writeIndex
  | collect (removed : Bool)
  | stop
  | openIndex (c : Search)
  | check (c : Search)
  | answer (c : Search)

section Steps

variable (lib : Libraries) {Search : Type} [DecidableEq Search]

/-- What a search is after it has read the index. -/
def openedSearch
    (index : FindingsIndex)
    (now : Nat)
    (current : RepoIdentity)
    (args : FindArgs) : SearchPhase :=
  match findToServe lib index now current args with
  | .ok toServe => .reading args toServe []
  | .error e => .finished (.error e)

/-- What a search is after it has read one more blob. -/
def checkedSearch
    (blobs : CodePoints → Option Bytes)
    (args : FindArgs)
    (served : Fields × Bool)
    (rest : List (Fields × Bool))
    (verified : List ServedFinding) : SearchPhase :=
  match verifyFindingBlob lib blobs args.trustedPublicKeys served with
  | .ok r => .reading args rest (verified ++ [r])
  | .error e => .finished (.error e)

/-- The effect of an event.  The files that are listed for removal are arbitrary, and a file
need not be removable.  The holder stops when it is done, when it fails and when it crashes. -/
inductive FindingsStep : FindingsState Search → FindingsEvent Search → FindingsState Search → Prop
  | acquire {s : FindingsState Search} {ctx : RecordContext} {args : RecordArgs}
      {p : PreparedFinding} :
      s.holder = none →
      prepareFinding lib ctx args = .ok p →
      FindingsStep s .acquire { s with holder := some (.locked ctx.env p) }
  | store {s : FindingsState Search} {env : FindingEnvironment} {p : PreparedFinding} :
      s.holder = some (.locked env p) →
      FindingsStep s .store
        { s with blobs := writeBlob s.blobs p, holder := some (.stored env p) }
  | writeIndex {s : FindingsState Search} {env : FindingEnvironment} {p : PreparedFinding}
      {existing : List Fields} {listing : List CodePoints} :
      s.holder = some (.stored env p) →
      loadFindingsIndex s.index = .ok existing →
      FindingsStep s .writeIndex
        { s with
          index := writeFindingsIndex (nextFindings lib env s.blobs existing p.record)
          holder := some
            (.collecting (nextFindings lib env s.blobs existing p.record) listing) }
  | collect {s : FindingsState Search} {live : List Fields} {stem : CodePoints}
      {listing : List CodePoints} {removed : Bool} :
      s.holder = some (.collecting live (stem :: listing)) →
      FindingsStep s (.collect removed)
        { s with
          blobs := if removed then gcOrphanedBlobs live s.blobs [stem] else s.blobs
          holder := some (.collecting live listing) }
  | stop {s : FindingsState Search} :
      FindingsStep s .stop { s with holder := none }
  | openIndex {s : FindingsState Search} {c : Search} {now : Nat} {current : RepoIdentity}
      {args : FindArgs} :
      FindingsStep s (.openIndex c)
        { s with
          searches := Function.update s.searches c
            (openedSearch lib s.index now current args) }
  | check {s : FindingsState Search} {c : Search} {args : FindArgs} {served : Fields × Bool}
      {rest : List (Fields × Bool)} {verified : List ServedFinding} :
      s.searches c = .reading args (served :: rest) verified →
      FindingsStep s (.check c)
        { s with
          searches := Function.update s.searches c
            (checkedSearch lib s.blobs args served rest verified) }
  | answer {s : FindingsState Search} {c : Search} {args : FindArgs}
      {verified : List ServedFinding} :
      s.searches c = .reading args [] verified →
      FindingsStep s (.answer c)
        { s with
          searches := Function.update s.searches c
            (.finished (.ok (findAnswer verified))) }

/-- The ledger, from an empty one. -/
def findingsLedger
    (Search : Type)
    [DecidableEq Search] : StepSystem (FindingsState Search) (FindingsEvent Search) where
  init s := s.index = .absent ∧ (∀ sha, s.blobs sha = none) ∧ s.holder = none ∧
    ∀ c, s.searches c = .idle
  step := FindingsStep lib

end Steps

/-! ## Each entry has its blob -/

section Integrity

variable {lib : Libraries} {Search : Type} [DecidableEq Search] {s s' : FindingsState Search}

/-- The entries of an index. -/
def FindingsIndex.records : FindingsIndex → List Fields
  | .entries _ records => records
  | _ => []

/-- An entry refers to a blob that is there. -/
def HasBlob
    (blobs : CodePoints → Option Bytes)
    (entry : Fields) : Prop :=
  ∃ sha, entrySha256 entry = some sha ∧ (blobs sha).isSome = true

/-- Every entry of the index has its blob. -/
def EntriesHaveBlobs (s : FindingsState Search) : Prop :=
  ∀ entry ∈ s.index.records, HasBlob s.blobs entry

/-- What the holder relies on. -/
def HolderInv
    (lib : Libraries)
    (s : FindingsState Search) : Option RecordPhase → Prop
  | none => True
  | some (.locked _ p) => IsPrepared lib p
  | some (.stored _ p) => IsPrepared lib p ∧ (s.blobs p.record.receiptSha256).isSome = true
  | some (.collecting live _) => ∀ entry ∈ s.index.records, entry ∈ live

/-- What holds in every run. -/
structure IndexInv
    (lib : Libraries)
    (s : FindingsState Search) : Prop where
  entries : EntriesHaveBlobs s
  holder : HolderInv lib s s.holder

omit [DecidableEq Search] in
theorem records_eq_of_load
    {index : FindingsIndex}
    {records : List Fields}
    (h : loadFindingsIndex index = .ok records) :
    index.records = records := by
  cases index with
  | absent => cases h; rfl
  | corrupt size =>
      rw [loadFindingsIndex] at h
      split at h <;> cases h
  | entries size records' =>
      rw [loadFindingsIndex] at h
      split at h
      · cases h
      · cases h
        rfl

/-- The digest of the artifact is stored, and what was there stays. -/
theorem writeBlob_isSome
    {blobs : CodePoints → Option Bytes}
    {p : PreparedFinding}
    {sha : CodePoints}
    (h : (blobs sha).isSome = true ∨ sha = p.record.receiptSha256) :
    (writeBlob blobs p sha).isSome = true := by
  rw [writeBlob]
  split
  case isTrue hpresent =>
      rcases h with h | rfl
      · exact h
      · exact hpresent
  case isFalse habsent =>
      by_cases hsame : sha = p.record.receiptSha256
      · rw [hsame, Function.update_self]
        rfl
      · rw [Function.update_of_ne hsame]
        exact h.resolve_right hsame

/-- The blobs of the findings that stay are not removed. -/
theorem hasBlob_gc
    {blobs : CodePoints → Option Bytes}
    {live : List Fields}
    {entry : Fields}
    {listing : List CodePoints}
    (hentry : entry ∈ live)
    (h : HasBlob blobs entry) :
    HasBlob (gcOrphanedBlobs live blobs listing) entry := by
  obtain ⟨sha, hsha, hpresent⟩ := h
  refine ⟨sha, hsha, ?_⟩
  rwa [gcOrphanedBlobs_of_mem (mem_referencedNames hentry hsha)]

theorem hasBlob_writeBlob
    {blobs : CodePoints → Option Bytes}
    {p : PreparedFinding}
    {entry : Fields}
    (h : HasBlob blobs entry) :
    HasBlob (writeBlob blobs p) entry := by
  obtain ⟨sha, hsha, hpresent⟩ := h
  exact ⟨sha, hsha, writeBlob_isSome (Or.inl hpresent)⟩

/-- No step leaves an entry without its blob. -/
theorem IndexInv.step
    {e : FindingsEvent Search}
    (hlawful : lib.Lawful)
    (h : IndexInv lib s)
    (hstep : FindingsStep lib s e s') :
    IndexInv lib s' := by
  have hholder := h.holder
  cases hstep with
  | acquire hfree hprepare => exact ⟨h.entries, (of_prepareFinding hprepare).1⟩
  | store hlocked =>
      rw [hlocked] at hholder
      refine ⟨?_, hholder, writeBlob_isSome (Or.inr rfl)⟩
      intro entry hentry
      exact hasBlob_writeBlob (h.entries entry hentry)
  | writeIndex hstored hload =>
      rw [hstored] at hholder
      refine ⟨?_, fun entry hentry => hentry⟩
      intro entry hentry
      rcases mem_nextFindings hentry with hold | rfl
      · rw [← records_eq_of_load hload] at hold
        exact h.entries entry hold
      · exact ⟨_, entrySha256_toDict hlawful hholder.1, hholder.2⟩
  | @collect live stem listing removed hcollecting =>
      rw [hcollecting] at hholder
      refine ⟨?_, hholder⟩
      intro entry hentry
      cases removed with
      | false => exact h.entries entry hentry
      | true => exact hasBlob_gc (hholder entry hentry) (h.entries entry hentry)
  | stop => exact ⟨h.entries, trivial⟩
  | openIndex => exact ⟨h.entries, hholder⟩
  | check _ => exact ⟨h.entries, hholder⟩
  | answer _ => exact ⟨h.entries, hholder⟩

/-! ## Searches that do not fail -/

/-- A blob that can be read back and has the digest that names it. -/
def ReadableBlob
    (lib : Libraries)
    (sha : CodePoints)
    (raw : Bytes) : Prop :=
  ∃ artifact, readArtifact lib (some raw) = .ok artifact ∧
    receiptDigest lib.crypto artifact = .ok sha

/-- No blob is stored that is too large to be read, and no blob is removed that a search has
yet to read. -/
def KeepsBlobs (s : FindingsState Search) : FindingsEvent Search → Prop
  | .store => ∀ env p, s.holder = some (.locked env p) → s.blobs p.record.receiptSha256 = none →
      (dumpsIndented (.object p.artifact)).length ≤ maxArtifactFileBytes
  | .collect true => ∀ live stem listing, s.holder = some (.collecting live (stem :: listing)) →
      stem ∉ referencedNames live → ∀ c args toServe verified,
        s.searches c = .reading args toServe verified →
          ∀ served ∈ toServe, entrySha256 served.1 ≠ some stem
  | _ => True

/-- What a search relies on. -/
def SearchInv (s : FindingsState Search) : SearchPhase → Prop
  | .idle => True
  | .reading _ toServe _ => ∀ served ∈ toServe, HasBlob s.blobs served.1
  | .finished (.error (.integrity _ _)) => False
  | .finished _ => True

/-- What holds in every run that keeps the blobs. -/
structure FindingsInv
    (lib : Libraries)
    (s : FindingsState Search) : Prop where
  index : IndexInv lib s
  blobs : ∀ sha raw, s.blobs sha = some raw → ReadableBlob lib sha raw
  searches : ∀ c, SearchInv s (s.searches c)

/-- A search has not failed because of a blob. -/
def NoIntegrityError (s : FindingsState Search) : Prop :=
  ∀ c findingId problem, s.searches c ≠ .finished (.error (.integrity findingId problem))

/-- A search that fails with a present and readable blob does not fail because of it. -/
theorem verifyFindingBlob_ne_integrity
    {blobs : CodePoints → Option Bytes}
    {trusted : List CodePoints}
    {served : Fields × Bool}
    {findingId : CodePoints}
    {problem : IntegrityProblem}
    (hpresent : HasBlob blobs served.1)
    (hreadable : ∀ sha raw, blobs sha = some raw → ReadableBlob lib sha raw) :
    verifyFindingBlob lib blobs trusted served ≠ .error (.integrity findingId problem) := by
  obtain ⟨sha, hsha, hsome⟩ := hpresent
  obtain ⟨raw, hraw⟩ := Option.isSome_iff_exists.mp hsome
  obtain ⟨artifact, hread, hdigest⟩ := hreadable sha raw hraw
  have hreadBlob : readArtifact lib (blobs sha) = .ok artifact := by rw [hraw, hread]
  intro h
  rw [verifyFindingBlob, hsha] at h
  dsimp only at h
  simp only [hreadBlob, hdigest, Except.mapError, bind, Except.bind, ne_eq, not_true_eq_false,
    if_false] at h
  split at h
  · cases hverify : verifyReceipt lib.crypto lib.display artifact trusted false with
    | ok verdict =>
        rw [hverify] at h
        cases h
    | error e =>
        rw [hverify] at h
        cases h
  · cases h

omit [DecidableEq Search] in
/-- What a search that has read the index relies on. -/
theorem searchInv_openedSearch
    {now : Nat}
    {current : RepoIdentity}
    {args : FindArgs}
    (h : EntriesHaveBlobs s) :
    SearchInv s (openedSearch lib s.index now current args) := by
  rw [openedSearch]
  cases hopen : findToServe lib s.index now current args with
  | ok toServe =>
      obtain ⟨-, records, hload, hmem⟩ := of_findToServe hopen
      intro served hserved
      obtain ⟨hentry, -⟩ := (hmem served.1 served.2).mp hserved
      rw [← records_eq_of_load hload] at hentry
      exact h served.1 hentry
  | error e =>
      rw [findToServe] at hopen
      split at hopen
      · cases hopen
        trivial
      · cases hload : loadFindingsIndex s.index with
        | ok records =>
            rw [hload] at hopen
            cases hopen
        | error e' =>
            rw [hload] at hopen
            cases hopen
            cases hindex : s.index with
            | absent =>
                rw [hindex] at hload
                cases hload
            | corrupt size =>
                rw [hindex, loadFindingsIndex] at hload
                split at hload
                · cases hload
                  trivial
                · cases hload
                  trivial
            | entries size records =>
                rw [hindex, loadFindingsIndex] at hload
                split at hload
                · cases hload
                  trivial
                · cases hload

omit [DecidableEq Search] in
/-- Reading a blob that is present and readable does not make a search fail because of it. -/
theorem searchInv_checkedSearch
    {args : FindArgs}
    {served : Fields × Bool}
    {rest : List (Fields × Bool)}
    {verified : List ServedFinding}
    (hblobs : ∀ sha raw, s.blobs sha = some raw → ReadableBlob lib sha raw)
    (h : ∀ served' ∈ served :: rest, HasBlob s.blobs served'.1) :
    SearchInv s (checkedSearch lib s.blobs args served rest verified) := by
  have hnone := @verifyFindingBlob_ne_integrity lib s.blobs args.trustedPublicKeys served
  rw [checkedSearch]
  cases hverify : verifyFindingBlob lib s.blobs args.trustedPublicKeys served with
  | ok r => exact fun served' hserved' => h served' (List.mem_cons_of_mem served hserved')
  | error e =>
      cases e with
      | integrity findingId problem =>
          exact absurd hverify (hnone (h served List.mem_cons_self) hblobs)
      | _ => trivial

/-- The other searches rely on the same. -/
theorem searchInv_update
    {c c' : Search}
    {phase : SearchPhase}
    (h : ∀ c, SearchInv s (s.searches c))
    (hnew : SearchInv s phase) :
    SearchInv s (Function.update s.searches c phase c') := by
  by_cases hsame : c' = c
  · subst hsame
    rw [Function.update_self]
    exact hnew
  · rw [Function.update_of_ne hsame]
    exact h c'

omit [DecidableEq Search] in
/-- A search relies on the blobs that it has yet to read. -/
theorem SearchInv.mono
    {phase : SearchPhase}
    (h : SearchInv s phase)
    (hkept : ∀ args toServe verified, phase = .reading args toServe verified →
      ∀ served ∈ toServe, HasBlob s.blobs served.1 → HasBlob s'.blobs served.1) :
    SearchInv s' phase := by
  cases phase with
  | idle => trivial
  | reading args toServe verified =>
      exact fun served hserved => hkept args toServe verified rfl served hserved (h served hserved)
  | finished result =>
      cases result with
      | ok answer => trivial
      | error e => cases e <;> trivial

/-- A stored artifact that is small enough can be read back. -/
theorem readableBlob_writeBlob
    {blobs : CodePoints → Option Bytes}
    {p : PreparedFinding}
    {sha : CodePoints}
    {raw : Bytes}
    (hlawful : lib.Lawful)
    (hp : IsPrepared lib p)
    (hblobs : ∀ sha raw, blobs sha = some raw → ReadableBlob lib sha raw)
    (hsmall : blobs p.record.receiptSha256 = none →
      (dumpsIndented (.object p.artifact)).length ≤ maxArtifactFileBytes)
    (hraw : writeBlob blobs p sha = some raw) :
    ReadableBlob lib sha raw := by
  rw [writeBlob] at hraw
  split at hraw
  case isTrue => exact hblobs sha raw hraw
  case isFalse habsent =>
      rcases eq_or_of_update hraw with ⟨rfl, hnew⟩ | ⟨-, hold⟩
      · obtain ⟨raw', hloads⟩ := hp.read
        cases hnew
        have hnone := Option.not_isSome_iff_eq_none.mp habsent
        refine ⟨p.artifact, readArtifact_eq_ok_iff.mpr ⟨_, rfl, hsmall hnone, ?_⟩, hp.digest⟩
        exact hlawful.loads_dumps raw' _ hloads
      · exact hblobs sha raw hold

/-- Removing one file changes no other. -/
theorem gcOrphanedBlobs_singleton
    {live : List Fields}
    {blobs : CodePoints → Option Bytes}
    {stem sha : CodePoints} :
    gcOrphanedBlobs live blobs [stem] sha =
      if stem ∉ referencedNames live ∧ sha = stem then none else blobs sha := by
  rw [gcOrphanedBlobs]
  by_cases hmem : stem ∈ referencedNames live
  · rw [if_pos hmem, if_neg (fun h => h.1 hmem), gcOrphanedBlobs]
  · rw [if_neg hmem, gcOrphanedBlobs]
    by_cases hsame : sha = stem
    · rw [if_pos ⟨hmem, hsame⟩, hsame, Function.update_self]
    · rw [if_neg (fun h => hsame h.2), Function.update_of_ne hsame]

/-- No step that keeps the blobs makes a search fail because of one. -/
theorem FindingsInv.step
    {e : FindingsEvent Search}
    (hlawful : lib.Lawful)
    (h : FindingsInv lib s)
    (hkeeps : KeepsBlobs s e)
    (hstep : FindingsStep lib s e s') :
    FindingsInv lib s' := by
  have hindex := h.index.step hlawful hstep
  have hholder := h.index.holder
  cases hstep with
  | acquire => exact ⟨hindex, h.blobs, h.searches⟩
  | @store env p hlocked =>
      rw [hlocked] at hholder
      refine ⟨hindex, ?_, ?_⟩
      · intro sha raw hraw
        exact readableBlob_writeBlob hlawful hholder h.blobs (hkeeps env p hlocked) hraw
      · intro c
        refine (h.searches c).mono ?_
        intro args toServe verified _ served _ hpresent
        exact hasBlob_writeBlob hpresent
  | writeIndex => exact ⟨hindex, h.blobs, h.searches⟩
  | @collect live stem listing removed hcollecting =>
      cases removed with
      | false => exact ⟨hindex, h.blobs, h.searches⟩
      | true =>
          refine ⟨hindex, ?_, ?_⟩
          · intro sha raw hraw
            change gcOrphanedBlobs live s.blobs [stem] sha = some raw at hraw
            rw [gcOrphanedBlobs_singleton] at hraw
            split at hraw
            · cases hraw
            · exact h.blobs sha raw hraw
          · intro c
            refine (h.searches c).mono ?_
            intro args toServe verified hreading served hserved hpresent
            obtain ⟨sha, hsha, hsome⟩ := hpresent
            refine ⟨sha, hsha, ?_⟩
            change (gcOrphanedBlobs live s.blobs [stem] sha).isSome = true
            rw [gcOrphanedBlobs_singleton]
            split
            case isTrue hremoved =>
                have hne := hkeeps live stem listing hcollecting hremoved.1 c args toServe verified
                  hreading served hserved
                rw [hsha, hremoved.2] at hne
                exact absurd rfl hne
            case isFalse => exact hsome
  | stop => exact ⟨hindex, h.blobs, h.searches⟩
  | openIndex =>
      refine ⟨hindex, h.blobs, fun c => ?_⟩
      exact searchInv_update h.searches (searchInv_openedSearch h.index.entries)
  | @check c args served rest verified hreading =>
      have hsearch := h.searches c
      rw [hreading] at hsearch
      refine ⟨hindex, h.blobs, fun c' => ?_⟩
      exact searchInv_update h.searches (searchInv_checkedSearch h.blobs hsearch)
  | answer => exact ⟨hindex, h.blobs, fun c => searchInv_update h.searches trivial⟩

/-- In every run each entry of the index has its blob, and in every run that keeps the blobs no
search fails because of one. -/
theorem findings_integrity
    (hlawful : lib.Lawful) :
    ((findingsLedger lib Search).Reachable (fun _ _ => True) s → EntriesHaveBlobs s) ∧
      ((findingsLedger lib Search).Reachable KeepsBlobs s → NoIntegrityError s) := by
  have hstart : ∀ s : FindingsState Search, (findingsLedger lib Search).init s →
      FindingsInv lib s := by
    rintro s ⟨hindex, hblobs, hholder, hsearches⟩
    refine ⟨⟨?_, ?_⟩, ?_, ?_⟩
    · intro entry hentry
      rw [hindex] at hentry
      cases hentry
    · rw [hholder]
      trivial
    · intro sha raw hraw
      rw [hblobs sha] at hraw
      cases hraw
    · intro c
      rw [hsearches c]
      trivial
  constructor
  · intro h
    refine (StepSystem.Reachable.invariant (P := IndexInv lib) ?_ ?_ h).entries
    · exact fun s hs => (hstart s hs).index
    · exact fun s e s' hinv _ hstep => hinv.step hlawful hstep
  · intro h
    have hinv : FindingsInv lib s :=
      StepSystem.Reachable.invariant hstart
        (fun s e s' hinv hkeeps hstep => hinv.step hlawful hkeeps hstep) h
    intro c findingId problem hfailed
    have hsearch := hinv.searches c
    rw [hfailed] at hsearch
    exact hsearch

end Integrity

/-! ## A blob that is collected before it is read -/

section Collected

variable {lib : Libraries} {env : FindingEnvironment}

/-- Where all other findings have expired, a recording leaves its own in the index. -/
theorem nextFindings_of_expired
    {blobs : CodePoints → Option Bytes}
    {existing : List Fields}
    {record : FindingRecord}
    (hexpired : pruneExpiredFindings lib record.createdAt existing = [])
    (hsize : distinctBlobBytes blobs [record.toDict] ≤ effectiveMaxBytes env) :
    nextFindings lib env blobs existing record = [record.toDict] := by
  have hlength : ¬ maxLiveFindings < [record.toDict].length := by
    rw [List.length_singleton]
    decide
  rw [nextFindings, hexpired, List.nil_append, evictFindingsOverCap]
  change popOverCap blobs (effectiveMaxBytes env)
    (if maxLiveFindings < [record.toDict].length then _ else [record.toDict]) = [record.toDict]
  rw [if_neg hlength, popOverCap, if_neg (not_lt.mpr hsize)]

/-- A search serves a finding that stands alone in the index. -/
theorem findToServe_single
    {record : FindingRecord}
    {now : Nat}
    {current : RepoIdentity}
    {args : FindArgs}
    (hsymbol : stripCodes args.symbol ≠ [])
    (hsize : (dumpsIndented (.array [.object record.toDict])).length ≤ maxIndexFileBytes)
    (hserved : IsServed lib now current args record.toDict) :
    findToServe lib (writeFindingsIndex [record.toDict]) now current args =
      .ok [(record.toDict,
        findingIsFresh (lookup (codePoints "revision") record.toDict) current)] := by
  have hload : loadFindingsIndex (writeFindingsIndex [record.toDict]) = .ok [record.toDict] :=
    loadFindingsIndex_write_eq_ok_iff.mpr ⟨hsize, rfl⟩
  obtain ⟨hlive, hmatches, hfresh⟩ := hserved
  rw [findToServe, if_neg hsymbol, hload]
  change Except.ok _ = _
  rw [pruneExpiredFindings, List.filter_cons_of_pos hlive, List.filter_nil,
    List.filter_cons_of_pos hmatches, List.filter_nil, List.map_singleton,
    List.filter_cons_of_pos, List.filter_nil]
  cases honly : args.freshOnly with
  | false => rfl
  | true => simpa using hfresh honly

/-- The libraries of the run. -/
def runLibraries : Libraries :=
  zerosLibraries [0, 1] [1000000, 86402000000]

/-- The finding that expires after one second. -/
def firstFinding : PreparedFinding :=
  zerosFinding 0 0 1

/-- The finding that is recorded after two seconds. -/
def secondFinding : PreparedFinding :=
  zerosFinding 1 2000000 86400

/-- The blobs after the first recording. -/
def firstBlobs : CodePoints → Option Bytes :=
  writeBlob (fun _ => none) firstFinding

/-- The blobs while the second recording is under way. -/
def bothBlobs : CodePoints → Option Bytes :=
  writeBlob firstBlobs secondFinding

theorem nextFindings_first :
    nextFindings runLibraries plainEnvironment firstBlobs [] firstFinding.record =
      [firstFinding.record.toDict] :=
  nextFindings_of_expired rfl (by decide)

theorem nextFindings_second :
    nextFindings runLibraries plainEnvironment bothBlobs [firstFinding.record.toDict]
      secondFinding.record = [secondFinding.record.toDict] := by
  refine nextFindings_of_expired ?_ (by decide)
  have hstamp : runLibraries.fromisoformat (codePoints (isoformat firstFinding.record.expiresAt)) =
      some firstFinding.record.expiresAt := by decide
  have hdead := findingLiveAt_toDict hstamp secondFinding.record.createdAt
  rw [decide_eq_false (by decide)] at hdead
  rw [pruneExpiredFindings, List.filter_cons_of_neg (by rw [hdead]; decide), List.filter_nil]

/-- A search that has read the index and no blob yet. -/
def waitingSearch : SearchPhase :=
  .reading zerosFind [(firstFinding.record.toDict,
    findingIsFresh (lookup (codePoints "revision") firstFinding.record.toDict)
      (zerosContext 0 0).identity)] []

/-- The index with the first finding is small. -/
theorem length_index_first :
    (dumpsIndented (.array [.object firstFinding.record.toDict])).length ≤ maxIndexFileBytes := by
  decide +kernel

theorem openedSearch_first :
    openedSearch runLibraries (writeFindingsIndex [firstFinding.record.toDict]) 0
      (zerosContext 0 0).identity zerosFind = waitingSearch := by
  have hstamp : runLibraries.fromisoformat (codePoints (isoformat firstFinding.record.expiresAt)) =
      some firstFinding.record.expiresAt := by decide
  have hlive := findingLiveAt_toDict hstamp 0
  rw [decide_eq_true (by decide)] at hlive
  have hmatches : zerosFind.matches firstFinding.record.toDict = true := by decide
  have hserved : IsServed runLibraries 0 (zerosContext 0 0).identity zerosFind
      firstFinding.record.toDict := by
    refine ⟨hlive, hmatches, ?_⟩
    intro honly
    cases honly
  rw [openedSearch, findToServe_single (by decide) length_index_first hserved]
  rfl

/-- The ledger with the first finding and the waiting search. -/
def searchingState : FindingsState Unit where
  index := writeFindingsIndex [firstFinding.record.toDict]
  blobs := firstBlobs
  holder := none
  searches := fun _ => waitingSearch

/-- The ledger after the first finding was collected. -/
def collectedState : FindingsState Unit where
  index := writeFindingsIndex [secondFinding.record.toDict]
  blobs := gcOrphanedBlobs [secondFinding.record.toDict] bothBlobs
    [firstFinding.record.receiptSha256]
  holder := some (.collecting [secondFinding.record.toDict] [])
  searches := fun _ => waitingSearch

/-- The ledger after the search has looked for the blob. -/
def failedState : FindingsState Unit where
  index := collectedState.index
  blobs := collectedState.blobs
  holder := collectedState.holder
  searches := fun _ => .finished (.error
    (.integrity (findingIdText runLibraries firstFinding.record.toDict) (.blob .notFound)))

theorem update_unit
    (searches : Unit → SearchPhase)
    (phase : SearchPhase) :
    Function.update searches () phase = fun _ => phase := by
  funext c
  cases c
  exact Function.update_self _ _ _

theorem prepareFinding_first :
    prepareFinding runLibraries (zerosContext 0 0) (zerosArgs 1) = .ok firstFinding :=
  prepareFinding_zeros (by decide) (by decide) (by decide) (by decide)

theorem prepareFinding_second :
    prepareFinding runLibraries (zerosContext 1 2000000) (zerosArgs 86400) = .ok secondFinding :=
  prepareFinding_zeros (by decide) (by decide) (by decide) (by decide)

/-- A finding is recorded, and a search for it reads the index. -/
theorem reachable_searchingState :
    (findingsLedger runLibraries Unit).Reachable KeepsBlobs searchingState := by
  have hsmall : (dumpsIndented (.object firstFinding.artifact)).length ≤ maxArtifactFileBytes := by
    rw [firstFinding, zerosFinding, length_dumpsIndented_zeros]
    decide
  have hstart : (findingsLedger runLibraries Unit).Reachable KeepsBlobs
      ⟨.absent, fun _ => none, none, fun _ => .idle⟩ :=
    .start ⟨rfl, fun _ => rfl, rfl, fun _ => rfl⟩
  have hlocked : (findingsLedger runLibraries Unit).Reachable KeepsBlobs
      ⟨.absent, fun _ => none, some (.locked plainEnvironment firstFinding), fun _ => .idle⟩ :=
    hstart.next (l := .acquire) trivial (FindingsStep.acquire rfl prepareFinding_first)
  have hstored : (findingsLedger runLibraries Unit).Reachable KeepsBlobs
      ⟨.absent, firstBlobs, some (.stored plainEnvironment firstFinding), fun _ => .idle⟩ := by
    refine hlocked.next (l := .store) ?_ (FindingsStep.store rfl)
    intro env p hholder _
    cases hholder
    exact hsmall
  have hwritten : (findingsLedger runLibraries Unit).Reachable KeepsBlobs
      ⟨writeFindingsIndex (nextFindings runLibraries plainEnvironment firstBlobs [] firstFinding.record),
        firstBlobs, some (.collecting
          (nextFindings runLibraries plainEnvironment firstBlobs [] firstFinding.record) []),
        fun _ => .idle⟩ :=
    hstored.next (l := .writeIndex) trivial (FindingsStep.writeIndex rfl rfl)
  rw [nextFindings_first] at hwritten
  have hstopped : (findingsLedger runLibraries Unit).Reachable KeepsBlobs
      ⟨writeFindingsIndex [firstFinding.record.toDict], firstBlobs, none, fun _ => .idle⟩ :=
    hwritten.next (l := .stop) trivial FindingsStep.stop
  have hopened : (findingsLedger runLibraries Unit).Reachable KeepsBlobs
      ⟨writeFindingsIndex [firstFinding.record.toDict], firstBlobs, none,
        Function.update (fun _ => .idle) () (openedSearch runLibraries
          (writeFindingsIndex [firstFinding.record.toDict]) 0 (zerosContext 0 0).identity
          zerosFind)⟩ :=
    hstopped.next (l := .openIndex ()) trivial FindingsStep.openIndex
  rw [openedSearch_first, update_unit] at hopened
  exact hopened

/-- While the search waits, the blob that it is to read is removed. -/
theorem reachable_collectedState :
    (findingsLedger runLibraries Unit).Reachable (fun _ _ => True) collectedState := by
  have hwaiting := reachable_searchingState.mono (fun _ _ _ => trivial)
  have hload : loadFindingsIndex searchingState.index = .ok [firstFinding.record.toDict] :=
    loadFindingsIndex_write_eq_ok_iff.mpr ⟨length_index_first, rfl⟩
  have hlocked : (findingsLedger runLibraries Unit).Reachable (fun _ _ => True)
      ⟨searchingState.index, firstBlobs, some (.locked plainEnvironment secondFinding),
        fun _ => waitingSearch⟩ :=
    hwaiting.next (l := .acquire) trivial (FindingsStep.acquire rfl prepareFinding_second)
  have hstored : (findingsLedger runLibraries Unit).Reachable (fun _ _ => True)
      ⟨searchingState.index, bothBlobs, some (.stored plainEnvironment secondFinding),
        fun _ => waitingSearch⟩ :=
    hlocked.next (l := .store) trivial (FindingsStep.store rfl)
  have hwritten : (findingsLedger runLibraries Unit).Reachable (fun _ _ => True)
      ⟨writeFindingsIndex (nextFindings runLibraries plainEnvironment bothBlobs
          [firstFinding.record.toDict] secondFinding.record), bothBlobs,
        some (.collecting (nextFindings runLibraries plainEnvironment bothBlobs
          [firstFinding.record.toDict] secondFinding.record)
          [firstFinding.record.receiptSha256]), fun _ => waitingSearch⟩ :=
    hstored.next (l := .writeIndex) trivial (FindingsStep.writeIndex rfl hload)
  rw [nextFindings_second] at hwritten
  have hstep := @FindingsStep.collect runLibraries Unit _
    ⟨writeFindingsIndex [secondFinding.record.toDict], bothBlobs,
      some (.collecting [secondFinding.record.toDict] [firstFinding.record.receiptSha256]),
      fun _ => waitingSearch⟩ [secondFinding.record.toDict] firstFinding.record.receiptSha256 []
    true rfl
  exact hwritten.next (l := .collect true) trivial hstep

theorem checkedSearch_collected :
    checkedSearch runLibraries collectedState.blobs zerosFind
      (firstFinding.record.toDict,
        findingIsFresh (lookup (codePoints "revision") firstFinding.record.toDict)
          (zerosContext 0 0).identity) [] [] =
      .finished (.error (.integrity (findingIdText runLibraries firstFinding.record.toDict)
        (.blob .notFound))) := by
  have hgone : collectedState.blobs firstFinding.record.receiptSha256 = none := by
    decide
  have hsha := entrySha256_toDict lawful_zerosLibraries (of_prepareFinding prepareFinding_first).1
  rw [checkedSearch, verifyFindingBlob]
  dsimp only
  rw [hsha]
  dsimp only
  rw [hgone]
  rfl

/-- The index has its blobs while the search waits, and no search has failed. -/
theorem searchingState_integrity :
    EntriesHaveBlobs searchingState ∧ NoIntegrityError searchingState :=
  ⟨(findings_integrity lawful_zerosLibraries).1
      (reachable_searchingState.mono fun _ _ _ => trivial),
    (findings_integrity lawful_zerosLibraries).2 reachable_searchingState⟩

/-- A recording makes a search fail that has read the index before. -/
theorem collectedBlob_fails :
    (findingsLedger runLibraries Unit).Reachable (fun _ _ => True) failedState ∧
      ¬ NoIntegrityError failedState := by
  refine ⟨?_, fun hnone => hnone () _ _ rfl⟩
  have hfailed : (findingsLedger runLibraries Unit).Reachable (fun _ _ => True)
      ⟨collectedState.index, collectedState.blobs, collectedState.holder,
        Function.update collectedState.searches () (checkedSearch runLibraries
          collectedState.blobs zerosFind (firstFinding.record.toDict,
            findingIsFresh (lookup (codePoints "revision") firstFinding.record.toDict)
              (zerosContext 0 0).identity) [] [])⟩ :=
    reachable_collectedState.next (l := .check ()) trivial (FindingsStep.check rfl)
  rw [checkedSearch_collected, update_unit] at hfailed
  exact hfailed

end Collected

end Ledger
end TensorGrep
