import TensorGrep.Ledger.Findings

/-!
# Findings that can be found

After a finding is recorded, it is found for its symbol until it expires, unless
its blob is too large to be read back, findings with a later stamp leave no room
for it, the index has grown too large, or another finding of the symbol cannot be
served.  `found_iff` says this exactly.

An artifact is accepted by the size of its file and stored indented by two spaces,
so that a blob can be too large although the artifact was not.
-/

namespace TensorGrep
namespace Ledger

open Kernel
open Evidence
open Kernel.Json (lookup)

/-! ## The bound on the blobs -/

section Blobs

variable {blobs : CodePoints → Option Bytes} {maxBytes : Nat}

/-- The size of a blob; none has no bytes. -/
def blobSize
    (blobs : CodePoints → Option Bytes)
    (sha : CodePoints) : Nat :=
  ((blobs sha).map List.length).getD 0

/-- Each blob counts once. -/
theorem distinctBlobBytes_eq
    (records : List Fields) :
    distinctBlobBytes blobs records =
      ∑ sha ∈ (records.filterMap entrySha256).toFinset, blobSize blobs sha := by
  have hset : (records.filterMap entrySha256).toFinset =
      (keepUnseen [] (records.filterMap entrySha256)).toFinset := by
    ext sha
    simp
  rw [hset, List.sum_toFinset _ (nodup_keepUnseen _ _)]
  rfl

/-- More records do not have fewer blobs. -/
theorem distinctBlobBytes_le
    {records records' : List Fields}
    (h : ∀ e ∈ records, e ∈ records') :
    distinctBlobBytes blobs records ≤ distinctBlobBytes blobs records' := by
  rw [distinctBlobBytes_eq, distinctBlobBytes_eq]
  refine Finset.sum_le_sum_of_subset ?_
  intro sha hsha
  simp only [List.mem_toFinset, List.mem_filterMap] at hsha ⊢
  obtain ⟨e, he, hsha⟩ := hsha
  exact ⟨e, h e he, hsha⟩

theorem mem_of_mem_popOverCap
    {entries : List Fields}
    {entry : Fields}
    (h : entry ∈ popOverCap blobs maxBytes entries) :
    entry ∈ entries := by
  induction entries with
  | nil => exact h
  | cons e entries ih =>
      rw [popOverCap] at h
      split at h
      · exact List.mem_cons_of_mem e (ih h)
      · exact h

/-- A record stays exactly when it and those after it are within the bound. -/
theorem mem_popOverCap_iff
    {before after : List Fields}
    {entry : Fields}
    (hafter : entry ∉ after) :
    entry ∈ popOverCap blobs maxBytes (before ++ entry :: after) ↔
      distinctBlobBytes blobs (entry :: after) ≤ maxBytes := by
  induction before with
  | nil =>
      rw [List.nil_append, popOverCap]
      by_cases hover : maxBytes < distinctBlobBytes blobs (entry :: after)
      · rw [if_pos hover]
        exact iff_of_false (fun h => hafter (mem_of_mem_popOverCap h)) (by omega)
      · rw [if_neg hover]
        exact iff_of_true List.mem_cons_self (by omega)
  | cons e before ih =>
      rw [List.cons_append, popOverCap]
      by_cases hover : maxBytes < distinctBlobBytes blobs (e :: (before ++ entry :: after))
      · rw [if_pos hover, ih]
      · rw [if_neg hover]
        refine iff_of_true (by simp) ?_
        have hle := @distinctBlobBytes_le blobs (entry :: after)
          (e :: (before ++ entry :: after)) (by simp +contextual)
        omega

/-- What stays was there, or is new. -/
theorem mem_nextFindings
    {lib : Libraries}
    {env : FindingEnvironment}
    {existing : List Fields}
    {record : FindingRecord}
    {entry : Fields}
    (h : entry ∈ nextFindings lib env blobs existing record) :
    entry ∈ existing ∨ entry = record.toDict := by
  rw [nextFindings, evictFindingsOverCap] at h
  have hsorted : entry ∈ sortByKey (createdAtText lib)
      (pruneExpiredFindings lib record.createdAt existing ++ [record.toDict]) := by
    have hcapped := mem_of_mem_popOverCap h
    split at hcapped
    · exact List.mem_of_mem_drop hcapped
    · exact hcapped
  rcases List.mem_append.mp (mem_sortByKey.mp hsorted) with hlive | hnew
  · exact Or.inl (List.mem_filter.mp hlive).1
  · exact Or.inr (List.mem_singleton.mp hnew)

/-- A name that is referred to is kept. -/
theorem gcOrphanedBlobs_of_mem
    {live : List Fields}
    {sha : CodePoints}
    (h : sha ∈ referencedNames live)
    (listing : List CodePoints) :
    gcOrphanedBlobs live blobs listing sha = blobs sha := by
  induction listing generalizing blobs with
  | nil => rfl
  | cons stem listing ih =>
      rw [gcOrphanedBlobs]
      split
      case isTrue => exact ih
      case isFalse hstem =>
          rw [ih, Function.update_of_ne]
          rintro rfl
          exact hstem h

/-- The digest of a live entry is referred to. -/
theorem mem_referencedNames
    {live : List Fields}
    {entry : Fields}
    {sha : CodePoints}
    (hentry : entry ∈ live)
    (hsha : entrySha256 entry = some sha) :
    sha ∈ referencedNames live := by
  refine List.mem_filterMap.mpr ⟨entry, hentry, ?_⟩
  rw [entrySha256, validSha256Hex.eq_def] at hsha
  split at hsha
  case h_1 s hs =>
      split at hsha
      · cases hsha
        rfl
      · cases hsha
  case h_2 => cases hsha

end Blobs

/-! ## The record of a finding -/

section Record

variable (r : FindingRecord)

@[simp] theorem lookup_symbol_toDict :
    lookup (codePoints "symbol") r.toDict = some (optionalText r.symbol) := by
  simp [lookup, FindingRecord.toDict]

@[simp] theorem lookup_artifactKind_toDict :
    lookup (codePoints "artifact_kind") r.toDict = some (.string r.artifactKind) := by
  simp [lookup, FindingRecord.toDict]

@[simp] theorem lookup_receiptSha256_toDict :
    lookup (codePoints "receipt_sha256") r.toDict = some (.string r.receiptSha256) := by
  simp [lookup, FindingRecord.toDict]

@[simp] theorem lookup_signed_toDict :
    lookup (codePoints "signed") r.toDict = some (.bool r.signed) := by
  simp [lookup, FindingRecord.toDict]

@[simp] theorem lookup_revision_toDict :
    lookup (codePoints "revision") r.toDict = some r.revision.toJson := by
  simp [lookup, FindingRecord.toDict]

@[simp] theorem lookup_expiresAt_toDict :
    lookup (codePoints "expires_at") r.toDict =
      some (.string (codePoints (isoformat r.expiresAt))) := by
  simp [lookup, FindingRecord.toDict]

end Record

/-! ## Serving a finding -/

section Serving

variable {lib : Libraries} {blobs : CodePoints → Option Bytes} {trusted : List CodePoints}

/-- `entry.get("signed")` counts as true. -/
def isSigned (entry : Fields) : Prop :=
  ((lookup (codePoints "signed") entry).getD .null).truthy = true

/-- An entry has a blob that can be read back, has the digest of the entry and, if the entry is
signed, a stored digest that can be compared. -/
def BlobIntact
    (lib : Libraries)
    (blobs : CodePoints → Option Bytes)
    (entry : Fields) : Prop :=
  ∃ sha artifact, entrySha256 entry = some sha ∧ readArtifact lib (blobs sha) = .ok artifact ∧
    receiptDigest lib.crypto artifact = .ok sha ∧ (isSigned entry → DigestComparable artifact)

/-- A digest is that of something that can be serialised. -/
theorem serialisable_of_receiptDigest
    {artifact : Fields}
    {sha : CodePoints}
    (h : receiptDigest lib.crypto artifact = .ok sha) :
    Serialisable artifact := by
  obtain ⟨canonical, hcanonical, -⟩ := map_eq_ok_iff.mp h
  exact canonicalReceiptBytes_isOk_iff.mp ⟨canonical, hcanonical⟩

/-- A finding is served exactly when its blob is intact. -/
theorem verifyFindingBlob_isOk_iff
    {served : Fields × Bool} :
    (∃ r, verifyFindingBlob lib blobs trusted served = .ok r) ↔ BlobIntact lib blobs served.1 := by
  rw [verifyFindingBlob, BlobIntact]
  cases hsha : entrySha256 served.1 with
  | none => simp
  | some sha =>
      constructor
      · rintro ⟨r, h⟩
        simp only [bind_eq_ok_iff, mapError_eq_ok_iff] at h
        obtain ⟨artifact, hread, actual, hdigest, h⟩ := h
        split at h
        · cases h
        case isFalse hactual =>
            obtain rfl : actual = sha := not_not.mp hactual
            refine ⟨actual, artifact, rfl, hread, hdigest, ?_⟩
            intro hsigned
            rw [isSigned] at hsigned
            rw [if_pos hsigned] at h
            simp only [bind_eq_ok_iff, mapError_eq_ok_iff] at h
            obtain ⟨verdict, hverdict, -⟩ := h
            exact (verifyReceipt_isOk_iff.mp ⟨verdict, hverdict⟩).2
      · rintro ⟨sha', artifact, hsame, hread, hdigest, hsigned⟩
        obtain rfl : sha = sha' := Option.some.inj hsame
        simp only [bind_eq_ok_iff, mapError_eq_ok_iff]
        by_cases hs : ((lookup (codePoints "signed") served.1).getD Json.null).truthy = true
        · have hanswers := (@verifyReceipt_isOk_iff lib.crypto lib.display artifact trusted
            false).mpr ⟨serialisable_of_receiptDigest hdigest, hsigned hs⟩
          obtain ⟨verdict, hverdict⟩ := hanswers
          refine ⟨⟨served.1, served.2, verdict.keyTrusted⟩, artifact, hread, sha, hdigest, ?_⟩
          rw [if_neg (not_not.mpr rfl), if_pos hs]
          simp only [bind_eq_ok_iff, mapError_eq_ok_iff]
          exact ⟨verdict, hverdict, rfl⟩
        · refine ⟨⟨served.1, served.2, none⟩, artifact, hread, sha, hdigest, ?_⟩
          rw [if_neg (not_not.mpr rfl), if_neg hs]

/-- What is served has the entry and its freshness. -/
theorem of_verifyFindingBlob
    {served : Fields × Bool}
    {r : ServedFinding}
    (h : verifyFindingBlob lib blobs trusted served = .ok r) :
    r.entry = served.1 ∧ r.fresh = served.2 := by
  rw [verifyFindingBlob] at h
  split at h
  · cases h
  · simp only [bind_eq_ok_iff, mapError_eq_ok_iff] at h
    obtain ⟨artifact, -, actual, -, h⟩ := h
    split at h
    · cases h
    · split at h
      · simp only [bind_eq_ok_iff, mapError_eq_ok_iff] at h
        obtain ⟨verdict, -, h⟩ := h
        cases h
        exact ⟨rfl, rfl⟩
      · cases h
        exact ⟨rfl, rfl⟩

/-- What a search serves of the index. -/
def IsServed
    (lib : Libraries)
    (now : Nat)
    (current : RepoIdentity)
    (args : FindArgs)
    (entry : Fields) : Prop :=
  findingLiveAt lib now entry = true ∧ args.matches entry = true ∧
    (args.freshOnly = true →
      findingIsFresh (lookup (codePoints "revision") entry) current = true)

variable {index : FindingsIndex} {now : Nat} {current : RepoIdentity} {args : FindArgs}
  {toServe : List (Fields × Bool)}

/-- What is to be served, and how it is stamped. -/
theorem of_findToServe
    (h : findToServe lib index now current args = .ok toServe) :
    stripCodes args.symbol ≠ [] ∧ ∃ records, loadFindingsIndex index = .ok records ∧
      ∀ entry fresh, (entry, fresh) ∈ toServe ↔ entry ∈ records ∧
        IsServed lib now current args entry ∧
        fresh = findingIsFresh (lookup (codePoints "revision") entry) current := by
  rw [findToServe] at h
  split at h
  · cases h
  case isFalse hsymbol =>
      obtain ⟨records, hrecords, h⟩ := bind_eq_ok_iff.mp h
      cases h
      refine ⟨hsymbol, records, hrecords, ?_⟩
      intro entry fresh
      simp only [List.mem_filter, List.mem_map, pruneExpiredFindings, IsServed, Prod.mk.injEq]
      constructor
      · rintro ⟨⟨e, ⟨⟨hmem, hlive⟩, hmatches⟩, rfl, rfl⟩, hfresh⟩
        refine ⟨hmem, ⟨hlive, hmatches, ?_⟩, rfl⟩
        intro honly
        simpa [honly] using hfresh
      · rintro ⟨hmem, ⟨hlive, hmatches, hfresh⟩, rfl⟩
        refine ⟨⟨entry, ⟨⟨hmem, hlive⟩, hmatches⟩, rfl, rfl⟩, ?_⟩
        cases honly : args.freshOnly with
        | false => rfl
        | true => simpa using hfresh honly

theorem findToServe_of_load
    {records : List Fields}
    (hsymbol : stripCodes args.symbol ≠ [])
    (hrecords : loadFindingsIndex index = .ok records) :
    ∃ toServe, findToServe lib index now current args = .ok toServe := by
  rw [findToServe, if_neg hsymbol, hrecords]
  exact ⟨_, rfl⟩

variable {store : FindingsStore} {answer : FindAnswer}

/-- What a search that answers has found. -/
theorem of_findFindings
    (h : findFindings lib store now current args = .ok answer) :
    stripCodes args.symbol ≠ [] ∧ ∃ records, loadFindingsIndex store.index = .ok records ∧
      (∀ entry ∈ records, IsServed lib now current args entry →
        BlobIntact lib store.blobs entry) ∧
      (∀ f ∈ answer.findings, f.entry ∈ records ∧ IsServed lib now current args f.entry ∧
        f.fresh = findingIsFresh (lookup (codePoints "revision") f.entry) current) ∧
      (answer.anyFresh = true ↔ ∃ f ∈ answer.findings, f.fresh = true) := by
  rw [findFindings] at h
  simp only [bind_eq_ok_iff] at h
  obtain ⟨toServe, htoServe, verified, hverified, h⟩ := h
  cases h
  obtain ⟨hsymbol, records, hrecords, hmem⟩ := of_findToServe htoServe
  refine ⟨hsymbol, records, hrecords, ?_, ?_, ?_⟩
  · intro entry hentry hserved
    obtain ⟨r, -, hr⟩ := exists_result_of_mapM hverified
      ((hmem entry _).mpr ⟨hentry, hserved, rfl⟩)
    exact verifyFindingBlob_isOk_iff.mp ⟨r, hr⟩
  · intro f hf
    obtain ⟨served, hserved, hr⟩ := exists_mem_of_mapM hverified hf
    obtain ⟨hentry, hfresh⟩ := of_verifyFindingBlob hr
    obtain ⟨hrecord, hisServed, hstamp⟩ := (hmem served.1 served.2).mp hserved
    rw [hentry, hfresh]
    exact ⟨hrecord, hisServed, hstamp⟩
  · exact List.any_eq_true

/-- A search answers if it can serve whatever it has to, and then serves all of it. -/
theorem findFindings_of_intact
    {records : List Fields}
    (hsymbol : stripCodes args.symbol ≠ [])
    (hrecords : loadFindingsIndex store.index = .ok records)
    (hintact : ∀ entry ∈ records, IsServed lib now current args entry →
      BlobIntact lib store.blobs entry) :
    ∃ answer, findFindings lib store now current args = .ok answer ∧
      ∀ entry ∈ records, IsServed lib now current args entry →
        ∃ f ∈ answer.findings, f.entry = entry ∧
          f.fresh = findingIsFresh (lookup (codePoints "revision") entry) current := by
  obtain ⟨toServe, htoServe⟩ :=
    @findToServe_of_load lib store.index now current args records hsymbol hrecords
  obtain ⟨-, records', hrecords', hmem⟩ := of_findToServe htoServe
  obtain rfl : records = records' := Except.ok.inj (hrecords.symm.trans hrecords')
  have hall : ∀ served ∈ toServe,
      ∃ r, verifyFindingBlob lib store.blobs args.trustedPublicKeys served = .ok r := by
    intro served hserved
    obtain ⟨hentry, hisServed, -⟩ := (hmem served.1 served.2).mp hserved
    exact verifyFindingBlob_isOk_iff.mpr (hintact served.1 hentry hisServed)
  obtain ⟨verified, hverified⟩ := exists_mapM hall
  refine ⟨findAnswer verified, ?_, ?_⟩
  · rw [findFindings, htoServe]
    simp only [bind_eq_ok_iff]
    exact ⟨toServe, rfl, verified, hverified, rfl⟩
  · intro entry hentry hserved
    obtain ⟨r, hr, hverify⟩ := exists_result_of_mapM hverified
      ((hmem entry _).mpr ⟨hentry, hserved, rfl⟩)
    exact ⟨r, hr, of_verifyFindingBlob hverify⟩

end Serving

/-! ## Recording a finding -/

section Recording

variable {lib : Libraries} {ctx : RecordContext} {args : RecordArgs} {p : PreparedFinding}

/-- What the libraries are documented to do: a value that was read is read back from its text,
and a digest has 32 bytes. -/
structure Libraries.Lawful (lib : Libraries) : Prop where
  loads_dumps : ∀ raw v, lib.loads raw = some v → lib.loads (dumpsIndented v) = some v
  length_sha256 : ∀ bytes, (lib.crypto.sha256 bytes).length = 32

/-- A prepared finding has been read from a file, and its record is about it. -/
structure IsPrepared
    (lib : Libraries)
    (p : PreparedFinding) : Prop where
  read : ∃ raw, lib.loads raw = some (.object p.artifact)
  digest : receiptDigest lib.crypto p.artifact = .ok p.record.receiptSha256
  signed : p.record.signed = (signedBlocks p.artifact).isSome

theorem readArtifact_eq_ok_iff
    {file : Option Bytes}
    {artifact : Fields} :
    readArtifact lib file = .ok artifact ↔
      ∃ raw, file = some raw ∧ raw.length ≤ maxArtifactFileBytes ∧
        lib.loads raw = some (.object artifact) := by
  rw [readArtifact.eq_def]
  cases file with
  | none => simp
  | some raw =>
      dsimp only
      by_cases hlarge : maxArtifactFileBytes < raw.length
      · rw [if_pos hlarge]
        refine iff_of_false (fun h => by cases h) ?_
        rintro ⟨raw', hraw, hle, -⟩
        cases hraw
        omega
      · rw [if_neg hlarge]
        cases hloads : lib.loads raw with
        | none => simp [hloads]
        | some v =>
            cases v <;> simp [hloads]
            omega

/-- What `record_finding` makes of its arguments. -/
theorem of_prepareFinding
    (h : prepareFinding lib ctx args = .ok p) :
    IsPrepared lib p ∧ p.record.artifactKind = args.artifactKind ∧
      p.record.symbol = resolvedSymbol args.symbol ∧ p.record.revision = ctx.identity := by
  rw [prepareFinding] at h
  split at h
  · cases h
  split at h
  · cases h
  simp only [bind_eq_ok_iff, mapError_eq_ok_iff] at h
  obtain ⟨artifact, hread, digest, hdigest, h⟩ := h
  split at h
  · cases h
  · cases h
    obtain ⟨raw, -, -, hloads⟩ := readArtifact_eq_ok_iff.mp hread
    exact ⟨⟨⟨raw, hloads⟩, hdigest, rfl⟩, rfl, rfl, rfl⟩

/-- Digests are well formed. -/
theorem entrySha256_toDict
    (hlawful : lib.Lawful)
    (hp : IsPrepared lib p) :
    entrySha256 p.record.toDict = some p.record.receiptSha256 := by
  obtain ⟨canonical, -, hsha⟩ := map_eq_ok_iff.mp hp.digest
  rw [entrySha256, lookup_receiptSha256_toDict, ← hsha, validSha256Hex, if_pos]
  refine ⟨?_, ?_⟩
  · have hlength := hlawful.length_sha256 canonical
    rw [Crypto.sha256Hex, hexText, List.length_flatMap]
    simp [hlength]
  · rw [List.all_eq_true]
    intro c hc
    obtain ⟨n, hn, rfl⟩ := mem_hexText hc
    refine decide_eq_true ?_
    interval_cases n <;> decide

theorem isoformat_ne_nil
    (t : Nat) :
    codePoints (isoformat t) ≠ [] := by
  rw [isoformat, codePoints_append]
  exact List.append_ne_nil_of_right_ne_nil _ (by decide)

/-- A finding is live until it expires, if its stamp is read back. -/
theorem findingLiveAt_toDict
    {r : FindingRecord}
    (hstamp : lib.fromisoformat (codePoints (isoformat r.expiresAt)) = some r.expiresAt)
    (now : Nat) :
    findingLiveAt lib now r.toDict = decide (now < r.expiresAt) := by
  obtain ⟨c, s, hcs⟩ := List.exists_cons_of_ne_nil (isoformat_ne_nil r.expiresAt)
  rw [findingLiveAt, lookup_expiresAt_toDict, hcs, parseIso, ← hcs, hstamp]

theorem hasText_of_lookup
    {key : String}
    {text : CodePoints}
    {entry : Fields}
    (h : lookup (codePoints key) entry = some (.string text)) :
    hasText key text entry = true := by
  rw [hasText, h]
  exact decide_eq_true rfl

/-- Under the identity that it was recorded with a finding is fresh, if this is an identity. -/
theorem findingIsFresh_toDict
    (r : FindingRecord) :
    findingIsFresh (lookup (codePoints "revision") r.toDict) r.revision = true ↔
      ∃ commitSha branch dirty dirtyTreeSha256 dirtyFileCount,
        r.revision = .present commitSha branch dirty dirtyTreeSha256 dirtyFileCount := by
  rw [lookup_revision_toDict]
  cases r.revision with
  | unavailable reason => simp [RepoIdentity.toJson, findingIsFresh]
  | present commitSha branch dirty tree count =>
      refine iff_of_true ?_ ⟨commitSha, branch, dirty, tree, count, rfl⟩
      have hstatus : hasText "status" (codePoints "present")
          (presentFields commitSha branch dirty tree count) = true := hasText_of_lookup rfl
      have hcommit : hasText "commit_sha" commitSha
          (presentFields commitSha branch dirty tree count) = true := hasText_of_lookup rfl
      have htree : hasText "dirty_tree_sha256" tree
          (presentFields commitSha branch dirty tree count) = true := hasText_of_lookup rfl
      rw [RepoIdentity.toJson, findingIsFresh, hstatus, hcommit, htree]
      rfl

/-- The findings that a recording leaves in the index, if the index could be read. -/
def keptFindings
    (lib : Libraries)
    (env : FindingEnvironment)
    (store : FindingsStore)
    (existing : List Fields)
    (p : PreparedFinding) : List Fields :=
  nextFindings lib env (writeBlob store.blobs p) existing p.record

/-- The live findings with a later stamp. -/
def laterFindings
    (lib : Libraries)
    (existing : List Fields)
    (record : FindingRecord) : List Fields :=
  afterKey (createdAtText lib) record.toDict
    (pruneExpiredFindings lib record.createdAt existing)

/-- The bound on all blobs together. -/
def effectiveMaxBytes (env : FindingEnvironment) : Nat :=
  max (configuredMaxTotalBlobBytes env) maxArtifactFileBytes

variable {listing : List CodePoints} {store store' : FindingsStore} {existing : List Fields}

/-- A finding stays in the index exactly when its blob and those of the findings with a later
stamp are within the bound. -/
theorem mem_keptFindings_iff
    (hbelow : existing.length < maxLiveFindings) :
    p.record.toDict ∈ keptFindings lib ctx.env store existing p ↔
      distinctBlobBytes (writeBlob store.blobs p)
        (p.record.toDict :: laterFindings lib existing p.record) ≤ effectiveMaxBytes ctx.env := by
  obtain ⟨before, hsorted, -⟩ := sortByKey_concat (createdAtText lib)
    (pruneExpiredFindings lib p.record.createdAt existing) p.record.toDict
  have hlength : (sortByKey (createdAtText lib)
      (pruneExpiredFindings lib p.record.createdAt existing ++ [p.record.toDict])).length ≤
      maxLiveFindings := by
    have hpruned := List.length_filter_le (findingLiveAt lib p.record.createdAt) existing
    rw [(perm_sortByKey _ _).length_eq, List.length_append, pruneExpiredFindings]
    exact Nat.succ_le_of_lt (lt_of_le_of_lt hpruned hbelow)
  have hnot : p.record.toDict ∉ sortByKey (createdAtText lib)
      (laterFindings lib existing p.record) := by
    rw [mem_sortByKey]
    exact not_mem_afterKey _ _ _
  rw [keptFindings, nextFindings, evictFindingsOverCap, if_neg (not_lt.mpr hlength), hsorted]
  refine (mem_popOverCap_iff hnot).trans ?_
  have hsame : distinctBlobBytes (writeBlob store.blobs p) (p.record.toDict ::
      sortByKey (createdAtText lib) (laterFindings lib existing p.record)) =
      distinctBlobBytes (writeBlob store.blobs p)
        (p.record.toDict :: laterFindings lib existing p.record) :=
    le_antisymm (distinctBlobBytes_le (by simp)) (distinctBlobBytes_le (by simp))
  rw [← hsame, effectiveMaxBytes]

theorem recordLocked_eq_ok
    (h : recordLocked lib ctx.env listing store p = .ok store') :
    ∃ existing, loadFindingsIndex store.index = .ok existing ∧
      store' = ⟨writeFindingsIndex (keptFindings lib ctx.env store existing p),
        gcOrphanedBlobs (keptFindings lib ctx.env store existing p) (writeBlob store.blobs p)
          listing⟩ := by
  rw [recordLocked] at h
  simp only [bind_eq_ok_iff] at h
  obtain ⟨existing, hload, h⟩ := h
  cases h
  exact ⟨existing, hload, rfl⟩

/-- Removing orphans does not touch the blobs of the findings that stay. -/
theorem blobIntact_gc_iff
    {live : List Fields}
    {blobs : CodePoints → Option Bytes}
    {entry : Fields}
    (hentry : entry ∈ live) :
    BlobIntact lib (gcOrphanedBlobs live blobs listing) entry ↔ BlobIntact lib blobs entry := by
  refine exists_congr fun sha => exists_congr fun artifact => and_congr_right fun hsha => ?_
  rw [gcOrphanedBlobs_of_mem (mem_referencedNames hentry hsha)]

/-- The blob of a finding can be served once it is recorded: where none was stored before, the
artifact is small enough with two spaces for each level; where one was, that one is intact.
The stored digest of a signed one can be compared. -/
def OwnBlobReadable
    (lib : Libraries)
    (blobs : CodePoints → Option Bytes)
    (p : PreparedFinding) : Prop :=
  match blobs p.record.receiptSha256 with
  | none =>
      (dumpsIndented (.object p.artifact)).length ≤ maxArtifactFileBytes ∧
        (p.record.signed = true → DigestComparable p.artifact)
  | some raw =>
      ∃ artifact, readArtifact lib (some raw) = .ok artifact ∧
        receiptDigest lib.crypto artifact = .ok p.record.receiptSha256 ∧
        (p.record.signed = true → DigestComparable artifact)

theorem isSigned_toDict_iff :
    isSigned p.record.toDict ↔ p.record.signed = true := by
  rw [isSigned, lookup_signed_toDict]
  rfl

theorem blobIntact_toDict_iff
    (hlawful : lib.Lawful)
    (hp : IsPrepared lib p) :
    BlobIntact lib (writeBlob store.blobs p) p.record.toDict ↔
      OwnBlobReadable lib store.blobs p := by
  rw [BlobIntact, OwnBlobReadable, entrySha256_toDict hlawful hp, isSigned_toDict_iff, writeBlob]
  cases hblob : store.blobs p.record.receiptSha256 with
  | none =>
      obtain ⟨raw, hraw⟩ := hp.read
      have hloads := hlawful.loads_dumps raw _ hraw
      simp only [Option.isSome_none, Bool.false_eq_true, if_false, Option.some.injEq]
      constructor
      · rintro ⟨sha, artifact, rfl, hread, -, hsigned⟩
        rw [Function.update_self] at hread
        obtain ⟨raw', hraw', hle, hloads'⟩ := readArtifact_eq_ok_iff.mp hread
        obtain rfl : dumpsIndented (.object p.artifact) = raw' := Option.some.inj hraw'
        rw [hloads] at hloads'
        cases hloads'
        exact ⟨hle, hsigned⟩
      · rintro ⟨hle, hsigned⟩
        refine ⟨_, p.artifact, rfl, ?_, hp.digest, hsigned⟩
        rw [Function.update_self]
        exact readArtifact_eq_ok_iff.mpr ⟨_, rfl, hle, hloads⟩
  | some raw =>
      simp only [Option.isSome_some, if_true, Option.some.injEq]
      constructor
      · rintro ⟨sha, artifact, rfl, hread, hdigest, hsigned⟩
        rw [hblob] at hread
        exact ⟨artifact, hread, hdigest, hsigned⟩
      · rintro ⟨artifact, hread, hdigest, hsigned⟩
        refine ⟨_, artifact, rfl, ?_, hdigest, hsigned⟩
        rw [hblob]
        exact hread

/-- When a finding that is recorded into a store, with the findings `existing` in its index, is
found at a later time. -/
structure Findable
    (lib : Libraries)
    (ctx : RecordContext)
    (store : FindingsStore)
    (existing : List Fields)
    (p : PreparedFinding)
    (now : Nat)
    (findArgs : FindArgs) : Prop where
  identity : ∃ commitSha branch dirty dirtyTreeSha256 dirtyFileCount,
    ctx.identity = .present commitSha branch dirty dirtyTreeSha256 dirtyFileCount
  blob : OwnBlobReadable lib store.blobs p
  room : distinctBlobBytes (writeBlob store.blobs p)
    (p.record.toDict :: laterFindings lib existing p.record) ≤ effectiveMaxBytes ctx.env
  index : (dumpsIndented (.array ((keptFindings lib ctx.env store existing p).map .object))).length
    ≤ maxIndexFileBytes
  others : ∀ entry ∈ keptFindings lib ctx.env store existing p, entry ≠ p.record.toDict →
    IsServed lib now ctx.identity findArgs entry → BlobIntact lib (writeBlob store.blobs p) entry

/-- The search answers, with the recorded finding, and says that something fresh was found. -/
def FoundFresh
    (lib : Libraries)
    (store : FindingsStore)
    (record : FindingRecord)
    (now : Nat)
    (current : RepoIdentity)
    (findArgs : FindArgs) : Prop :=
  ∃ answer, findFindings lib store now current findArgs = .ok answer ∧
    (∃ f ∈ answer.findings, f.entry = record.toDict) ∧ answer.anyFresh = true

/-- A search for the symbol of a finding, of its kind or of any, is about the finding. -/
theorem matches_toDict
    {findArgs : FindArgs}
    {symbol : CodePoints}
    (hsymbol : p.record.symbol = resolvedSymbol (some symbol))
    (hresolved : stripCodes symbol ≠ [])
    (hsame : findArgs.symbol = symbol)
    (hkind : findArgs.artifactKind = none ∨ findArgs.artifactKind = some p.record.artifactKind) :
    findArgs.matches p.record.toDict = true := by
  have hstored : p.record.symbol = some (stripCodes findArgs.symbol) := by
    rw [hsymbol, resolvedSymbol, hsame]
    simp [hresolved]
  have htext : hasText "symbol" (stripCodes findArgs.symbol) p.record.toDict = true := by
    refine hasText_of_lookup ?_
    rw [lookup_symbol_toDict, hstored]
    rfl
  have hkindText : hasText "artifact_kind" p.record.artifactKind p.record.toDict = true :=
    hasText_of_lookup (lookup_artifactKind_toDict _)
  rw [FindArgs.matches, htext]
  rcases hkind with hkind | hkind
  · rw [hkind]
    rfl
  · rw [hkind]
    exact hkindText

/-- The index as a search reads it after a recording. -/
theorem loadFindingsIndex_write_eq_ok_iff
    {live records : List Fields} :
    loadFindingsIndex (writeFindingsIndex live) = .ok records ↔
      (dumpsIndented (.array (live.map .object))).length ≤ maxIndexFileBytes ∧ records = live := by
  rw [writeFindingsIndex, loadFindingsIndex]
  split
  case isTrue hlarge =>
      refine iff_of_false (fun h => by cases h) ?_
      rintro ⟨hle, -⟩
      omega
  case isFalse hle =>
      rw [Except.ok.injEq, eq_comm]
      exact (and_iff_right (not_lt.mp hle)).symm

/-- Nothing is fresh in a repository without an identity. -/
theorem findingIsFresh_unavailable
    (revision : Option Json)
    (reason : CodePoints) :
    findingIsFresh revision (.unavailable reason) = false := by
  rw [findingIsFresh.eq_def]
  cases revision with
  | none => rfl
  | some v => cases v <;> rfl

variable {findArgs : FindArgs} {now : Nat}

/-- A recorded finding that is found was findable. -/
theorem findable_of_found
    (hlawful : lib.Lawful)
    (hp : IsPrepared lib p)
    (hbelow : existing.length < maxLiveFindings)
    (hfound : FoundFresh lib
      ⟨writeFindingsIndex (keptFindings lib ctx.env store existing p),
        gcOrphanedBlobs (keptFindings lib ctx.env store existing p) (writeBlob store.blobs p)
          listing⟩ p.record now ctx.identity findArgs) :
    Findable lib ctx store existing p now findArgs := by
  obtain ⟨answer, hfind, ⟨f, hf, hentry⟩, hany⟩ := hfound
  obtain ⟨-, records, hrecords, hintact, hserved, hanyFresh⟩ := of_findFindings hfind
  obtain ⟨hsize, rfl⟩ := loadFindingsIndex_write_eq_ok_iff.mp hrecords
  obtain ⟨hmem, hisServed, -⟩ := hserved f hf
  rw [hentry] at hmem hisServed
  -- some finding is fresh, so that the identity is known
  have hidentity : ∃ commitSha branch dirty dirtyTreeSha256 dirtyFileCount,
      ctx.identity = .present commitSha branch dirty dirtyTreeSha256 dirtyFileCount := by
    obtain ⟨g, hg, hgfresh⟩ := hanyFresh.mp hany
    rw [(hserved g hg).2.2] at hgfresh
    cases hctx : ctx.identity with
    | unavailable reason =>
        rw [hctx, findingIsFresh_unavailable] at hgfresh
        cases hgfresh
    | present commitSha branch dirty tree count =>
        exact ⟨commitSha, branch, dirty, tree, count, rfl⟩
  refine ⟨hidentity, ?_, (mem_keptFindings_iff hbelow).mp hmem, hsize, ?_⟩
  · exact (blobIntact_toDict_iff hlawful hp).mp
      ((blobIntact_gc_iff hmem).mp (hintact _ hmem hisServed))
  · intro entry hentry' _ hservedEntry
    exact (blobIntact_gc_iff hentry').mp (hintact entry hentry' hservedEntry)

/-- A findable finding that is served is found. -/
theorem found_of_findable
    (hlawful : lib.Lawful)
    (hp : IsPrepared lib p)
    (hbelow : existing.length < maxLiveFindings)
    (hrevision : p.record.revision = ctx.identity)
    (hsymbol : stripCodes findArgs.symbol ≠ [])
    (hmatches : findArgs.matches p.record.toDict = true)
    (hlive : findingLiveAt lib now p.record.toDict = true)
    (hfindable : Findable lib ctx store existing p now findArgs) :
    FoundFresh lib
      ⟨writeFindingsIndex (keptFindings lib ctx.env store existing p),
        gcOrphanedBlobs (keptFindings lib ctx.env store existing p) (writeBlob store.blobs p)
          listing⟩ p.record now ctx.identity findArgs := by
  have hmem := (mem_keptFindings_iff hbelow).mpr hfindable.room
  have hfresh : findingIsFresh (lookup (codePoints "revision") p.record.toDict) ctx.identity =
      true := by
    have h := (findingIsFresh_toDict p.record).mpr (by rw [hrevision]; exact hfindable.identity)
    rwa [hrevision] at h
  have hserved : IsServed lib now ctx.identity findArgs p.record.toDict :=
    ⟨hlive, hmatches, fun _ => hfresh⟩
  have hrecords := loadFindingsIndex_write_eq_ok_iff.mpr ⟨hfindable.index, rfl⟩
  have hall : ∀ entry ∈ keptFindings lib ctx.env store existing p,
      IsServed lib now ctx.identity findArgs entry → BlobIntact lib
        (gcOrphanedBlobs (keptFindings lib ctx.env store existing p)
          (writeBlob store.blobs p) listing) entry := by
    intro entry hentry hservedEntry
    rw [blobIntact_gc_iff hentry]
    by_cases hown : entry = p.record.toDict
    · rw [hown]
      exact (blobIntact_toDict_iff hlawful hp).mpr hfindable.blob
    · exact hfindable.others entry hentry hown hservedEntry
  obtain ⟨answer, hanswer, hfound⟩ := @findFindings_of_intact lib now ctx.identity findArgs
    ⟨writeFindingsIndex (keptFindings lib ctx.env store existing p),
      gcOrphanedBlobs (keptFindings lib ctx.env store existing p) (writeBlob store.blobs p)
        listing⟩ _ hsymbol hrecords hall
  obtain ⟨f, hf, hentry, hstamp⟩ := hfound _ hmem hserved
  obtain ⟨-, -, -, -, -, hanyFresh⟩ := of_findFindings hanswer
  refine ⟨answer, hanswer, ⟨f, hf, hentry⟩, hanyFresh.mpr ⟨f, hf, ?_⟩⟩
  rw [hstamp]
  exact hfresh

/-- A finding that is recorded is found until it expires, and fresh as long as the repository
does not change, exactly where it is findable. -/
theorem found_iff
    {symbol : CodePoints}
    (hlawful : lib.Lawful)
    (hprepare : prepareFinding lib ctx args = .ok p)
    (hload : loadFindingsIndex store.index = .ok existing)
    (hbelow : existing.length < maxLiveFindings)
    (hrecord : recordFinding lib ctx args listing store = .ok (p.record, store'))
    (hsymbol : args.symbol = some symbol)
    (hresolved : stripCodes symbol ≠ [])
    (hsame : findArgs.symbol = symbol)
    (hkind : findArgs.artifactKind = none ∨ findArgs.artifactKind = some args.artifactKind)
    (hstamp : lib.fromisoformat (codePoints (isoformat p.record.expiresAt)) =
      some p.record.expiresAt)
    (hnow : now < p.record.expiresAt) :
    FoundFresh lib store' p.record now ctx.identity findArgs ↔
      Findable lib ctx store existing p now findArgs := by
  obtain ⟨hp, hartifactKind, hresolvedSymbol, hrevision⟩ := of_prepareFinding hprepare
  have hlocked : recordLocked lib ctx.env listing store p = .ok store' := by
    obtain ⟨p', hp', hrest⟩ := bind_eq_ok_iff.mp hrecord
    obtain rfl : p = p' := Except.ok.inj (hprepare.symm.trans hp')
    obtain ⟨store'', hlocked, hpair⟩ := bind_eq_ok_iff.mp hrest
    cases hpair
    exact hlocked
  obtain ⟨existing', hload', rfl⟩ := recordLocked_eq_ok hlocked
  obtain rfl : existing = existing' := Except.ok.inj (hload.symm.trans hload')
  rw [hsymbol] at hresolvedSymbol
  rw [← hartifactKind] at hkind
  have hlive := findingLiveAt_toDict hstamp now
  rw [decide_eq_true hnow] at hlive
  exact ⟨findable_of_found hlawful hp hbelow,
    found_of_findable hlawful hp hbelow hrevision (by rwa [hsame])
      (matches_toDict hresolvedSymbol hresolved hsame hkind) hlive⟩

end Recording

/-! ## An artifact that is accepted and then too large -/

/-- The texts of further values that are all the same. -/
theorem length_renderItems_replicate
    (layout : Json.Layout)
    (quote : CodePoints → Bytes)
    (level n : Nat)
    (v : Json) :
    (Json.renderItems layout quote level (List.replicate n v)).length =
      n * (1 + (layout.newline level).length + (Json.render layout quote level v).length) := by
  induction n with
  | zero => simp [Json.renderItems]
  | succ n ih =>
      have hcomma : (asciiBytes ",").length = 1 := rfl
      rw [List.replicate_succ, Json.renderItems]
      simp only [List.length_append, ih, hcomma]
      rw [Nat.succ_mul]
      omega

/-- An artifact with a list of zeros. -/
def zerosArtifact (n : Nat) : Fields :=
  [(codePoints "a", .array (List.replicate (n + 1) (wholeNumber 0)))]

/-- Its text without blanks. -/
def zerosText (n : Nat) : Bytes :=
  Json.render Json.compact (Json.quoted Json.escapeAscii) 0 (.object (zerosArtifact n))

theorem length_zerosText
    (n : Nat) :
    (zerosText n).length = 2 * n + 9 := by
  have hopen : (asciiBytes "\x7b" ++ Json.compact.newline 1 ++
      Json.quoted Json.escapeAscii (codePoints "a") ++ Json.compact.colon).length = 5 := rfl
  have hzero : (Json.render Json.compact (Json.quoted Json.escapeAscii) 2
      (wholeNumber 0)).length = 1 := rfl
  have hitem : (asciiBytes "[" ++ Json.compact.newline 2).length = 1 := rfl
  have hclose : (Json.compact.newline 1 ++ asciiBytes "]").length = 1 := rfl
  have hend : (Json.compact.newline 0 ++ asciiBytes "\x7d").length = 1 := rfl
  have hnewline : (Json.compact.newline 2).length = 0 := rfl
  rw [zerosText, zerosArtifact, List.replicate_succ, Json.render, Json.render, Json.renderFields]
  simp only [List.length_append] at hopen hitem hclose hend ⊢
  simp only [zero_add, length_renderItems_replicate, hzero, hnewline, List.length_nil]
  omega

/-- The texts of the fields after the first, of two lists. -/
theorem renderFields_append
    {layout : Json.Layout}
    {quote : CodePoints → Bytes}
    {level : Nat}
    (fs gs : Fields) :
    Json.renderFields layout quote level (fs ++ gs) =
      Json.renderFields layout quote level fs ++ Json.renderFields layout quote level gs := by
  induction fs with
  | nil => rfl
  | cons f fs ih =>
      obtain ⟨k, v⟩ := f
      rw [List.cons_append, Json.renderFields, Json.renderFields, ih]
      simp only [List.append_assoc]

theorem length_dumpsIndented_zeros
    (n : Nat) :
    (dumpsIndented (.object (zerosArtifact n))).length = 7 * n + 22 := by
  have hopen : (asciiBytes "\x7b" ++ Json.indented.newline 1 ++
      Json.quoted Json.escapeAscii (codePoints "a") ++ Json.indented.colon).length = 9 := rfl
  have hzero : (Json.render Json.indented (Json.quoted Json.escapeAscii) 2
      (wholeNumber 0)).length = 1 := rfl
  have hitem : (asciiBytes "[" ++ Json.indented.newline 2).length = 6 := rfl
  have hclose : (Json.indented.newline 1 ++ asciiBytes "]").length = 4 := rfl
  have hend : (Json.indented.newline 0 ++ asciiBytes "\x7d").length = 2 := rfl
  have hnewline : (Json.indented.newline 2).length = 5 := rfl
  rw [dumpsIndented, zerosArtifact, List.replicate_succ, Json.render, Json.render,
    Json.renderFields]
  simp only [List.length_append] at hopen hitem hclose hend ⊢
  simp only [zero_add, length_renderItems_replicate, hzero, hnewline, List.length_nil]
  omega

/-- Libraries that know the texts of some artifacts with zeros and some stamps, and that tell
texts apart by their lengths. -/
def zerosLibraries (known stamps : List Nat) : Libraries where
  crypto := {
    sha256 := fun bytes => List.replicate 31 0 ++ [UInt8.ofNat bytes.length]
    hmacSha256 := fun _ _ => []
    b64decode := fun _ => none
    ed25519Verifies := fun _ _ _ => false }
  display _ := []
  loads raw :=
    (known.find? fun n => raw = zerosText n ∨ raw = dumpsIndented (.object (zerosArtifact n))).map
      fun n => .object (zerosArtifact n)
  fromisoformat text := stamps.find? fun t => codePoints (isoformat t) = text

/-- No environment variable is set. -/
def plainEnvironment : FindingEnvironment :=
  ⟨⟨none, none, none⟩, none, none⟩

/-- A repository at a commit, and the artifact in its shorter text. -/
def zerosContext (n now : Nat) : RecordContext where
  env := plainEnvironment
  artifactFile := some (zerosText n)
  findingId := codePoints "finding-1"
  identity := .present (codePoints "c") none false (codePoints "d") 0
  now := now

/-- A recording for the symbol f. -/
def zerosArgs (ttlSeconds : Nat) : RecordArgs where
  receiptPath := some (codePoints "a.json")
  artifactKind := codePoints "repo-map"
  symbol := some (codePoints "f")
  agentId := none
  ttlSeconds := some ttlSeconds

/-- A search for the symbol f. -/
def zerosFind : FindArgs where
  symbol := codePoints "f"
  artifactKind := none
  freshOnly := false
  trustedPublicKeys := []

/-- The digest of an artifact. -/
def zerosDigest (n : Nat) : CodePoints :=
  hexText (List.replicate 31 0 ++ [UInt8.ofNat (2 * n + 9)])

/-- The finding that is recorded. -/
def zerosFinding (n now ttlSeconds : Nat) : PreparedFinding where
  artifact := zerosArtifact n
  record := {
    findingId := codePoints "finding-1"
    agentId := defaultAgentId
    artifactKind := codePoints "repo-map"
    symbol := some (codePoints "f")
    receiptSha256 := zerosDigest n
    blobRelpath := blobRelpath (zerosDigest n)
    signed := false
    keyId := none
    revision := .present (codePoints "c") none false (codePoints "d") 0
    createdAt := now
    expiresAt := now + ttlSeconds * 1000000
    ttlSeconds := ttlSeconds }

section Zeros

variable {known stamps : List Nat} {n now ttlSeconds : Nat}

/-- The two texts begin differently. -/
theorem dumpsIndented_ne_zerosText
    (m n : Nat) :
    dumpsIndented (.object (zerosArtifact m)) ≠ zerosText n := by
  intro h
  have hsecond : (dumpsIndented (.object (zerosArtifact m)))[1]? = (zerosText n)[1]? := by rw [h]
  have hindented : (dumpsIndented (.object (zerosArtifact m)))[1]? = some 0x0a := rfl
  have hcompact : (zerosText n)[1]? = some 0x22 := rfl
  rw [hindented, hcompact] at hsecond
  revert hsecond
  decide

theorem lawful_zerosLibraries : (zerosLibraries known stamps).Lawful where
  loads_dumps := by
    intro raw v h
    obtain ⟨n, hfound, rfl⟩ := Option.map_eq_some_iff.mp h
    have hmem := List.mem_of_find?_eq_some hfound
    have hknown : (known.find? fun m =>
        dumpsIndented (.object (zerosArtifact n)) = zerosText m ∨
          dumpsIndented (.object (zerosArtifact n)) =
            dumpsIndented (.object (zerosArtifact m))).isSome := by
      rw [List.find?_isSome]
      exact ⟨n, hmem, decide_eq_true (Or.inr rfl)⟩
    obtain ⟨m, hm⟩ := Option.isSome_iff_exists.mp hknown
    have hsame : n = m := by
      have htexts := List.find?_some hm
      rcases of_decide_eq_true htexts with htext | htext
      · exact absurd htext (dumpsIndented_ne_zerosText n m)
      · have hlength := congrArg List.length htext
        rw [length_dumpsIndented_zeros, length_dumpsIndented_zeros] at hlength
        omega
    rw [zerosLibraries]
    dsimp only
    rw [hm, Option.map_some, hsame]
  length_sha256 _ := rfl

theorem nonFiniteItems_zeros :
    Json.nonFiniteItems (List.replicate n (wholeNumber 0)) = false := by
  induction n with
  | zero => rfl
  | succ n ih =>
      rw [List.replicate_succ, Json.nonFiniteItems, ih]
      rfl

theorem sortItems_zeros :
    Json.sortItems (List.replicate n (wholeNumber 0)) = List.replicate n (wholeNumber 0) := by
  induction n with
  | zero => rfl
  | succ n ih =>
      rw [List.replicate_succ, Json.sortItems, ih]
      rfl

theorem receiptDigest_zeros :
    receiptDigest (zerosLibraries known stamps).crypto (zerosArtifact n) =
      .ok (zerosDigest n) := by
  have hwithout : Json.without [codePoints "signature", codePoints "receipt_sha256"]
      (zerosArtifact n) = zerosArtifact n := rfl
  have hfinite : (Json.object (zerosArtifact n)).nonFinite = false := by
    change (Json.nonFiniteItems (List.replicate (n + 1) (wholeNumber 0)) || false) = false
    rw [nonFiniteItems_zeros]
    rfl
  have hsorted : (Json.object (zerosArtifact n)).sortKeys = .object (zerosArtifact n) := by
    change Json.object [(codePoints "a",
      .array (Json.sortItems (List.replicate (n + 1) (wholeNumber 0))))] = _
    rw [sortItems_zeros]
    rfl
  have hcanonical : canonicalReceiptBytes (zerosArtifact n) = .ok (zerosText n) := by
    rw [canonicalReceiptBytes, hwithout, hfinite, hsorted]
    rfl
  rw [receiptDigest, hcanonical, zerosDigest, ← length_zerosText]
  rfl

theorem loads_zerosText
    (hn : n ∈ known) :
    (zerosLibraries known stamps).loads (zerosText n) = some (.object (zerosArtifact n)) := by
  have hknown : (known.find? fun m => zerosText n = zerosText m ∨
      zerosText n = dumpsIndented (.object (zerosArtifact m))).isSome := by
    rw [List.find?_isSome]
    exact ⟨n, hn, decide_eq_true (Or.inl rfl)⟩
  obtain ⟨m, hm⟩ := Option.isSome_iff_exists.mp hknown
  have hsame : n = m := by
    have htexts := List.find?_some hm
    rcases of_decide_eq_true htexts with htext | htext
    · have hlength := congrArg List.length htext
      rw [length_zerosText, length_zerosText] at hlength
      omega
    · exact absurd htext.symm (dumpsIndented_ne_zerosText m n)
  rw [zerosLibraries]
  dsimp only
  rw [hm, Option.map_some, hsame]

theorem prepareFinding_zeros
    (hn : n ∈ known)
    (hsmall : 2 * n + 9 ≤ maxArtifactFileBytes)
    (httl : 1 ≤ ttlSeconds)
    (hexpires : now + ttlSeconds * 1000000 ≤ maxInstant) :
    prepareFinding (zerosLibraries known stamps) (zerosContext n now) (zerosArgs ttlSeconds) =
      .ok (zerosFinding n now ttlSeconds) := by
  have hread : readArtifact (zerosLibraries known stamps) (some (zerosText n)) =
      .ok (zerosArtifact n) := by
    refine readArtifact_eq_ok_iff.mpr ⟨zerosText n, rfl, ?_, loads_zerosText hn⟩
    rwa [length_zerosText]
  have hpath : ¬ stripCodes ((zerosArgs ttlSeconds).receiptPath.getD []) = [] := by
    change ¬ stripCodes (codePoints "a.json") = []
    decide
  have hkind : ¬ (zerosArgs ttlSeconds).artifactKind ∉ validArtifactKinds := by
    change ¬ codePoints "repo-map" ∉ validArtifactKinds
    decide
  have hconfigured : configuredFindingTtlSeconds (zerosContext n now).env
      (zerosArgs ttlSeconds).ttlSeconds = ttlSeconds := by
    change (max 1 (ttlSeconds : Int)).toNat = ttlSeconds
    omega
  have hnow : (zerosContext n now).now = now := rfl
  have hsymbol : resolvedSymbol (zerosArgs ttlSeconds).symbol = some (codePoints "f") := by
    change resolvedSymbol (some (codePoints "f")) = some (codePoints "f")
    decide
  have hunsigned : signedBlocks (zerosArtifact n) = none := rfl
  have hkeyId : claimedKeyId (zerosArtifact n) = none := rfl
  have hagent : resolveAgentId (zerosContext n now).env.agent (zerosArgs ttlSeconds).agentId =
      defaultAgentId := rfl
  rw [prepareFinding, if_neg hpath, if_neg hkind]
  simp only [bind_eq_ok_iff, mapError_eq_ok_iff]
  refine ⟨zerosArtifact n, hread, zerosDigest n, receiptDigest_zeros, ?_⟩
  rw [hconfigured, hnow, if_neg (not_lt.mpr hexpires), hsymbol, hunsigned, hkeyId, hagent]
  rfl

/-- The store that a recording for one day leaves, from an empty one. -/
def zerosStore (n : Nat) : FindingsStore :=
  let lib := zerosLibraries [n] [86400000000]
  let kept := keptFindings lib (zerosContext n 0).env ⟨.absent, fun _ => none⟩ []
    (zerosFinding n 0 86400)
  ⟨writeFindingsIndex kept, gcOrphanedBlobs kept
    (writeBlob (fun _ => none) (zerosFinding n 0 86400)) []⟩

theorem prepareFinding_oneDay
    (hsmall : 2 * n + 9 ≤ maxArtifactFileBytes) :
    prepareFinding (zerosLibraries [n] [86400000000]) (zerosContext n 0) (zerosArgs 86400) =
      .ok (zerosFinding n 0 86400) :=
  prepareFinding_zeros List.mem_cons_self hsmall (by decide) (by decide)

theorem recordFinding_oneDay
    (hsmall : 2 * n + 9 ≤ maxArtifactFileBytes) :
    recordFinding (zerosLibraries [n] [86400000000]) (zerosContext n 0) (zerosArgs 86400) []
      ⟨.absent, fun _ => none⟩ = .ok ((zerosFinding n 0 86400).record, zerosStore n) := by
  rw [recordFinding, prepareFinding_oneDay hsmall]
  rfl

/-- The index with the finding is small. -/
theorem length_index_oneZero :
    (dumpsIndented (.array [.object (zerosFinding 0 0 86400).record.toDict])).length ≤
      maxIndexFileBytes := by
  set fields := (zerosFinding 0 0 86400).record.toDict with hfields
  -- the bytes that some fields take, after the first field
  let part (fs : Fields) : Nat :=
    (Json.renderFields Json.indented (Json.quoted Json.escapeAscii) 2 fs).length
  have hstep : ∀ start,
      part (fields.drop start) =
        part ((fields.drop start).take 3) + part (fields.drop (start + 3)) := by
    intro start
    rw [← List.length_append, ← renderFields_append, ← List.drop_drop, List.take_append_drop]
  have hparts : ∀ start ∈ [0, 3, 6, 9, 12], part ((fields.drop start).take 3) ≤ 1000 := by
    decide +kernel
  have hall : part fields ≤ 5000 := by
    have hend : part (fields.drop 15) = 0 := rfl
    have h0 : part fields = part (fields.take 3) + part (fields.drop 3) := hstep 0
    have h3 : part (fields.drop 3) = part ((fields.drop 3).take 3) + part (fields.drop 6) :=
      hstep 3
    have h6 : part (fields.drop 6) = part ((fields.drop 6).take 3) + part (fields.drop 9) :=
      hstep 6
    have h9 : part (fields.drop 9) = part ((fields.drop 9).take 3) + part (fields.drop 12) :=
      hstep 9
    have h12 : part (fields.drop 12) = part ((fields.drop 12).take 3) + part (fields.drop 15) :=
      hstep 12
    have hle0 : part (fields.take 3) ≤ 1000 := hparts 0 (by simp)
    have hle3 := hparts 3 (by simp)
    have hle6 := hparts 6 (by simp)
    have hle9 := hparts 9 (by simp)
    have hle12 := hparts 12 (by simp)
    omega
  have hlength : (dumpsIndented (.array [.object fields])).length = part fields + 10 := by
    obtain ⟨⟨k, v⟩, fs, hcons⟩ := List.exists_cons_of_ne_nil (l := fields) (List.cons_ne_nil _ _)
    have hnewline : ∀ level, (Json.indented.newline level).length = 1 + 2 * level := by
      intro level
      rw [Json.indented, List.length_append, List.length_replicate]
      rfl
    change _ = (Json.renderFields _ _ 2 fields).length + 10
    rw [hcons, dumpsIndented, Json.render, Json.render, Json.renderItems, Json.renderFields]
    simp only [List.length_append, hnewline, List.length_nil, zero_add, Nat.reduceAdd]
    have hbrackets : (asciiBytes "[").length = 1 ∧ (asciiBytes "]").length = 1 ∧
        (asciiBytes "\x7b").length = 1 ∧ (asciiBytes "\x7d").length = 1 ∧
        (asciiBytes ",").length = 1 := by decide
    omega
  rw [hlength]
  exact (Nat.add_le_add_right hall 10).trans (by decide)

theorem findable_oneZero :
    Findable (zerosLibraries [0] [86400000000]) (zerosContext 0 0) ⟨.absent, fun _ => none⟩ []
      (zerosFinding 0 0 86400) 0 zerosFind where
  identity := ⟨_, _, _, _, _, rfl⟩
  blob := by
    refine ⟨?_, ?_⟩
    · rw [zerosFinding, length_dumpsIndented_zeros]
      decide
    · intro hsigned
      cases hsigned
  room := by
    have hsha := entrySha256_toDict lawful_zerosLibraries
      (of_prepareFinding (prepareFinding_oneDay (n := 0) (by decide))).1
    change distinctBlobBytes _ [(zerosFinding 0 0 86400).record.toDict] ≤ _
    have hblob : blobSize (writeBlob (fun _ => none) (zerosFinding 0 0 86400))
        (zerosFinding 0 0 86400).record.receiptSha256 = 7 * 0 + 22 := by
      rw [blobSize, writeBlob, if_neg (by simp), Function.update_self]
      exact length_dumpsIndented_zeros 0
    rw [distinctBlobBytes_eq, List.filterMap_cons_some hsha, List.filterMap_nil,
      List.toFinset_cons, List.toFinset_nil, insert_empty_eq, Finset.sum_singleton, hblob]
    decide
  index := length_index_oneZero
  others := by
    intro entry hentry hne
    rcases mem_nextFindings hentry with hold | hown
    · cases hold
    · exact absurd hown hne

end Zeros

/-- A list of one zero is recorded and found. -/
theorem smallArtifact_found :
    FoundFresh (zerosLibraries [0] [86400000000]) (zerosStore 0) (zerosFinding 0 0 86400).record 0
      (zerosContext 0 0).identity zerosFind := by
  have hsmall : 2 * 0 + 9 ≤ maxArtifactFileBytes := by decide
  refine (found_iff lawful_zerosLibraries (prepareFinding_oneDay hsmall) rfl (by decide)
    (recordFinding_oneDay hsmall) rfl (by decide) rfl (Or.inl rfl) ?_ ?_).mpr findable_oneZero
  · decide
  · decide

/-- A list of two million zeros and one is recorded, and the next search for it fails. -/
theorem spacedArtifact_not_found :
    recordFinding (zerosLibraries [2000000] [86400000000]) (zerosContext 2000000 0)
        (zerosArgs 86400) [] ⟨.absent, fun _ => none⟩ =
        .ok ((zerosFinding 2000000 0 86400).record, zerosStore 2000000) ∧
      ¬ FoundFresh (zerosLibraries [2000000] [86400000000]) (zerosStore 2000000)
        (zerosFinding 2000000 0 86400).record 0 (zerosContext 2000000 0).identity zerosFind := by
  have hsmall : 2 * 2000000 + 9 ≤ maxArtifactFileBytes := by decide
  refine ⟨recordFinding_oneDay hsmall, ?_⟩
  intro hfound
  have hp := (of_prepareFinding (prepareFinding_oneDay hsmall)).1
  have hfindable := findable_of_found lawful_zerosLibraries hp (by decide) hfound
  have hlength : (dumpsIndented (.object (zerosArtifact 2000000))).length ≤
      maxArtifactFileBytes := hfindable.blob.1
  rw [length_dumpsIndented_zeros] at hlength
  exact absurd hlength (by decide)

end Ledger
end TensorGrep
