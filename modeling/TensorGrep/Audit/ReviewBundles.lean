import TensorGrep.Audit.Manifests

/-!
# Review bundles

A bundle is a JSON object with a manifest, other components and a list of
evidence receipts.  Its checksums need no key.  `verifyReviewBundle` recomputes
them, has the manifest and every receipt verified, and applies the policy of the
caller; its verdict is the conjunction of all of these.

The embedded manifest is written to a file and read back before it is verified,
which gives the same value.
-/

namespace TensorGrep
namespace Audit

open Kernel
open Kernel.Json (lookup without)
open Evidence (Crypto PythonError Fields ReceiptVerdict verifyReceipt)

/-! ## Components -/

/-- `_REVIEW_BUNDLE_COMPONENTS`. -/
def reviewBundleComponents : List String :=
  ["audit_manifest", "scan_results", "checkpoint_metadata", "diff", "evidence_receipts"]

/-- `_REVIEW_BUNDLE_REQUIRED_COMPONENTS`. -/
def reviewBundleRequiredComponents : List String :=
  ["audit_manifest"]

/-- `_canonical_json_bytes`. -/
def canonicalJsonBytes (v : Json) : Bytes :=
  Json.render Json.compact (Json.quoted Json.escapeAscii) 0 v.sortKeys

/-- `_normalize_optional_str`. -/
def normalizeOptionalStr (v : Option Json) : Option CodePoints :=
  match v with
  | some (.string s) => if stripCodes s = [] then none else some (stripCodes s)
  | _ => none

theorem mem_reviewBundleComponents
    {component : String}
    (h : component ∈ reviewBundleComponents) :
    component = "audit_manifest" ∨ component = "scan_results" ∨
      component = "checkpoint_metadata" ∨ component = "diff" ∨ component = "evidence_receipts" := by
  simpa [reviewBundleComponents] using h

/-- An expected digest against the actual one. -/
structure ChecksumCheck where
  expected : Option CodePoints
  actual : Option CodePoints
  valid : Bool

section Checksums

variable (crypto : Crypto)

/-- `_component_checksum`. -/
def componentChecksum (v : Json) : CodePoints :=
  crypto.sha256Hex (canonicalJsonBytes v)

/-- The checksums that a bundle lists. -/
def listedChecksums (bundle : Fields) : Fields :=
  match lookup (codePoints "checksums") bundle with
  | some (.object checksums) => checksums
  | _ => []

/-- The check of one component. -/
def checkComponent
    (bundle : Fields)
    (component : String) : ChecksumCheck :=
  let expected := normalizeOptionalStr (lookup (codePoints component) (listedChecksums bundle))
  match present (lookup (codePoints component) bundle) with
  | none =>
      ⟨expected, none,
        decide (component ∉ reviewBundleRequiredComponents) && decide (expected = none)⟩
  | some value =>
      let actual := componentChecksum crypto value
      ⟨expected, some actual, decide (expected = some actual)⟩

/-- The check of the bundle as a whole. -/
def checkIntegrity (bundle : Fields) : ChecksumCheck :=
  let expected := normalizeOptionalStr (lookup (codePoints "bundle_sha256") bundle)
  let actual := crypto.sha256Hex
    (canonicalJsonBytes (.object (without [codePoints "bundle_sha256"] bundle)))
  ⟨expected, some actual, decide (expected = some actual)⟩

end Checksums

/-! ## The ref and the receipts -/

/-- What `git rev-parse` did. -/
inductive GitRun where
  | notRun (reason : CodePoints)
  | finished (returnCode : Int) (stdout stderr : CodePoints)

/-- Why a ref has no commit. -/
inductive AgainstError where
  | looksLikeFlag
  | notRun (reason : CodePoints)
  | unresolved (stderr : CodePoints)
  | noOutput

/-- `_resolve_git_ref_commit_sha`, where `git` runs `git rev-parse` on a ref. -/
def resolveGitRefCommitSha
    (git : CodePoints → GitRun)
    (ref : CodePoints) : Except AgainstError CodePoints :=
  if ref.head? = some 0x2d then .error .looksLikeFlag
  else
    match git ref with
    | .notRun reason => .error (.notRun reason)
    | .finished returnCode stdout stderr =>
        if returnCode ≠ 0 then .error (.unresolved (stripCodes stderr))
        else if stripCodes stdout = [] then .error .noOutput
        else .ok (stripCodes stdout)

/-- What is wrong with the revision of a receipt. -/
inductive FreshnessError where
  | against (error : AgainstError)
  | notPresent
  | stale
  | dirty

/-- The verdict on the revision of a receipt. -/
structure Freshness where
  valid : Bool
  resolvedCommitSha : Option CodePoints
  receiptCommitSha : Option Json
  receiptDirty : Option Json
  error : Option FreshnessError

/-- The value of a key of a value that may be an object. -/
def fieldOf
    (key : CodePoints)
    (v : Option Json) : Option Json :=
  match v with
  | some (.object fields) => lookup key fields
  | _ => none

/-- The value is `false` itself. -/
def isFalse : Option Json → Bool
  | some (.bool false) => true
  | _ => false

/-- `_receipt_freshness_against`. -/
def receiptFreshnessAgainst
    (receipt : Fields)
    (resolved : Except AgainstError CodePoints) : Freshness :=
  match resolved with
  | .error error => ⟨false, none, none, none, some (.against error)⟩
  | .ok sha =>
      let revision := lookup (codePoints "revision") receipt
      let commitSha := fieldOf (codePoints "commit_sha") revision
      let dirty := fieldOf (codePoints "dirty") revision
      if isText (codePoints "present") (fieldOf (codePoints "status") revision) then
        let error :=
          if !isText sha commitSha then some FreshnessError.stale
          else if !isFalse dirty then some .dirty
          else none
        ⟨isText sha commitSha && isFalse dirty, some sha, commitSha, dirty, error⟩
      else ⟨false, some sha, commitSha, dirty, some .notPresent⟩

/-- The verdict on an entry of the list of receipts; an entry that is not an object has no
verdict on a signature. -/
structure ReceiptEntry where
  index : Nat
  receiptSha256 : Option Json
  signature : Option ReceiptVerdict
  freshness : Option Freshness
  valid : Bool

/-- The text of the error of an entry that is not an object. -/
def notAnObjectMessage : CodePoints :=
  codePoints "evidence_receipts entry is not a JSON object."

/-- What the caller asks for. -/
structure VerifyOptions where
  signingKey : Option KeyFile
  against : Option CodePoints
  trusted : List CodePoints
  requireTrusted : Bool
  minReceipts : Int
  expectKeyIds : List CodePoints

section Receipts

variable (crypto : Crypto) (display : Json → CodePoints) (git : CodePoints → GitRun)
  (options : VerifyOptions)

/-- The ref of the caller, resolved. -/
def resolvedAgainst : Option (Except AgainstError CodePoints) :=
  options.against.map (resolveGitRefCommitSha git)

/-- The check of one entry. -/
def checkReceipt
    (index : Nat)
    (raw : Json) : Except PythonError ReceiptEntry :=
  match raw with
  | .object receipt => do
      let signature ← verifyReceipt crypto display receipt options.trusted options.requireTrusted
      let freshness := (resolvedAgainst git options).map (receiptFreshnessAgainst receipt)
      return {
        index := index
        receiptSha256 := lookup (codePoints "receipt_sha256") receipt
        signature := some signature
        freshness := freshness
        valid := signature.valid && (freshness.map Freshness.valid).getD true }
  | _ => .ok ⟨index, none, none, none, false⟩

/-- The entries that are checked: none where the component is not a list. -/
def embeddedReceipts (bundle : Fields) : List Json :=
  match lookup (codePoints "evidence_receipts") bundle with
  | some (.array entries) => entries
  | _ => []

/-- The checks of all entries. -/
def checkReceipts (bundle : Fields) : Except PythonError (List ReceiptEntry) :=
  (embeddedReceipts bundle).zipIdx.mapM fun e => checkReceipt crypto display git options e.2 e.1

end Receipts

/-- What the policy of the caller finds. -/
structure PolicyCheck where
  enabled : Bool
  validReceiptCount : Nat
  minReceiptsSatisfied : Bool
  missingExpectKeyIds : List CodePoints

/-- `policy_valid`. -/
def PolicyCheck.valid (p : PolicyCheck) : Bool :=
  p.minReceiptsSatisfied && p.missingExpectKeyIds.isEmpty

/-- The key ids of the valid entries. -/
def validKeyIds (entries : List ReceiptEntry) : List CodePoints :=
  (entries.filter ReceiptEntry.valid).filterMap fun entry =>
    (entry.signature.bind ReceiptVerdict.keyId).filter fun keyId => keyId ≠ []

/-- The policy of the caller, for the checked entries. -/
def checkPolicy
    (options : VerifyOptions)
    (entries : List ReceiptEntry) : PolicyCheck where
  enabled := decide (0 < options.minReceipts) || !options.expectKeyIds.isEmpty
  validReceiptCount := entries.countP ReceiptEntry.valid
  minReceiptsSatisfied := decide (options.minReceipts ≤ entries.countP ReceiptEntry.valid)
  missingExpectKeyIds := options.expectKeyIds.filter fun keyId => keyId ∉ validKeyIds entries

/-! ## The whole bundle -/

/-- The verdict on a bundle. -/
structure BundleVerdict where
  checks : List (String × ChecksumCheck)
  integrity : ChecksumCheck
  manifestSignatureValid : Bool
  manifestSignatureError : Option ManifestError
  against : Option (Except AgainstError CodePoints)
  receipts : List ReceiptEntry
  policy : PolicyCheck

/-- The ref of the caller has a commit, if there is a ref. -/
def againstValid (against : Option (Except AgainstError CodePoints)) : Bool :=
  match against with
  | some (.error _) => false
  | _ => true

/-- `valid` of the verdict. -/
def BundleVerdict.valid (v : BundleVerdict) : Bool :=
  v.integrity.valid && v.checks.all (fun check => check.2.valid) && v.manifestSignatureValid &&
    againstValid v.against && v.receipts.all ReceiptEntry.valid && v.policy.valid

section Verify

variable (crypto : Crypto) (display : Json → CodePoints) (git : CodePoints → GitRun)

/-- The check of the embedded manifest, which is left out where it is not an object. -/
def checkEmbeddedManifest
    (bundle : Fields)
    (key : Option KeyFile) : Except PythonError (Bool × Option ManifestError) :=
  match lookup (codePoints "audit_manifest") bundle with
  | some (.object manifest) => do
      let result ← verifyAuditManifest crypto display manifest key none
      return (result.signatureValid,
        if result.signatureValid then none else result.errors.head?)
  | _ => .ok (true, none)

/-- The verdict on a bundle with the given checks of its manifest and its receipts. -/
def bundleVerdict
    (bundle : Fields)
    (options : VerifyOptions)
    (manifestCheck : Bool × Option ManifestError)
    (receipts : List ReceiptEntry) : BundleVerdict where
  checks := reviewBundleComponents.map fun component =>
    (component, checkComponent crypto bundle component)
  integrity := checkIntegrity crypto bundle
  manifestSignatureValid := manifestCheck.1
  manifestSignatureError := manifestCheck.2
  against := resolvedAgainst git options
  receipts := receipts
  policy := checkPolicy options receipts

/-- `verify_review_bundle`, for a bundle that has been parsed. -/
def verifyReviewBundle
    (bundle : Fields)
    (options : VerifyOptions) : Except PythonError BundleVerdict := do
  let manifestCheck ← checkEmbeddedManifest crypto display bundle options.signingKey
  let receipts ← checkReceipts crypto display git options bundle
  return bundleVerdict crypto git bundle options manifestCheck receipts

end Verify

/-! ## When a bundle verifies -/

section Verdicts

variable {crypto : Crypto} {display : Json → CodePoints} {git : CodePoints → GitRun}
  {bundle : Fields} {options : VerifyOptions} {verdict : BundleVerdict}

/-- The verification answers, and calls the bundle valid. -/
def Verifies
    (crypto : Crypto)
    (display : Json → CodePoints)
    (git : CodePoints → GitRun)
    (bundle : Fields)
    (options : VerifyOptions) : Prop :=
  ∃ verdict, verifyReviewBundle crypto display git bundle options = .ok verdict ∧ verdict.valid

/-- The checks that need neither the manifest nor a key, with the checked receipts. -/
structure OtherChecksPass
    (crypto : Crypto)
    (display : Json → CodePoints)
    (git : CodePoints → GitRun)
    (bundle : Fields)
    (options : VerifyOptions)
    (receipts : List ReceiptEntry) : Prop where
  integrity : (checkIntegrity crypto bundle).valid
  components : ∀ component ∈ reviewBundleComponents, (checkComponent crypto bundle component).valid
  against : againstValid (resolvedAgainst git options)
  checked : checkReceipts crypto display git options bundle = .ok receipts
  allValid : ∀ entry ∈ receipts, entry.valid
  policy : (checkPolicy options receipts).valid

/-- A bundle verifies when the embedded manifest and everything else does. -/
theorem verifies_iff :
    Verifies crypto display git bundle options ↔
      (∃ error, checkEmbeddedManifest crypto display bundle options.signingKey =
        .ok (true, error)) ∧
      ∃ receipts, OtherChecksPass crypto display git bundle options receipts := by
  constructor
  · rintro ⟨verdict, h, hvalid⟩
    rw [verifyReviewBundle, bind_eq_ok_iff] at h
    obtain ⟨⟨signatureValid, error⟩, hmanifest, h⟩ := h
    rw [bind_eq_ok_iff] at h
    obtain ⟨receipts, hreceipts, h⟩ := h
    cases h
    simp only [BundleVerdict.valid, bundleVerdict, Bool.and_eq_true, List.all_map,
      List.all_eq_true] at hvalid
    obtain ⟨⟨⟨⟨⟨hintegrity, hcomponents⟩, rfl⟩, hagainst⟩, hall⟩, hpolicy⟩ := hvalid
    exact ⟨⟨error, hmanifest⟩, receipts, hintegrity, hcomponents, hagainst, hreceipts, hall, hpolicy⟩
  · rintro ⟨⟨error, hmanifest⟩, receipts, hpass⟩
    refine ⟨bundleVerdict crypto git bundle options (true, error) receipts, ?_, ?_⟩
    · rw [verifyReviewBundle, hmanifest]
      change (checkReceipts crypto display git options bundle >>= _) = Except.ok _
      rw [hpass.checked]
      rfl
    · simp only [BundleVerdict.valid, bundleVerdict, Bool.and_eq_true, List.all_map,
        List.all_eq_true]
      exact ⟨⟨⟨⟨⟨hpass.integrity, hpass.components⟩, trivial⟩, hpass.against⟩, hpass.allValid⟩,
        hpass.policy⟩

end Verdicts

/-! ## Verification under a key -/

section Keyed

variable {crypto : Crypto} {display : Json → CodePoints} {git : CodePoints → GitRun}
  {bundle : Fields} {options : VerifyOptions} {key : KeyFile}

/-- The manifest of a bundle that verifies under a key is an object whose signature is its
HMAC under that key. -/
def KeyedSound
    (crypto : Crypto)
    (display : Json → CodePoints)
    (git : CodePoints → GitRun)
    (bundle : Fields)
    (options : VerifyOptions)
    (key : KeyFile) : Prop :=
  Verifies crypto display git bundle { options with signingKey := some key } →
    ∃ manifest bytes, lookup (codePoints "audit_manifest") bundle = some (.object manifest) ∧
      key.content = some bytes ∧ SignedUnder crypto display bytes manifest

/-- The component is a JSON object. -/
def ManifestIsObject (bundle : Fields) : Prop :=
  ∃ manifest, lookup (codePoints "audit_manifest") bundle = some (.object manifest)

/-- A manifest that is an object is verified. -/
theorem signedUnder_of_checkEmbeddedManifest
    {manifest : Fields}
    {error : Option ManifestError}
    (hmanifest : lookup (codePoints "audit_manifest") bundle = some (.object manifest))
    (h : checkEmbeddedManifest crypto display bundle (some key) = .ok (true, error)) :
    ∃ bytes, key.content = some bytes ∧ SignedUnder crypto display bytes manifest := by
  rw [checkEmbeddedManifest, hmanifest] at h
  dsimp only at h
  rw [bind_eq_ok_iff] at h
  obtain ⟨result, hresult, h⟩ := h
  obtain ⟨signatureError, hsignature, hvalid⟩ := verifyAuditManifest_eq_ok hresult
  have htrue : result.signatureValid = true := (Prod.ext_iff.mp (Except.ok.inj h)).1
  rw [hvalid, Option.isNone_iff_eq_none] at htrue
  rw [htrue] at hsignature
  exact signedUnder_of_checkSignature hsignature

/-- A manifest that is not an object passes without a look at its signature. -/
theorem checkEmbeddedManifest_of_not_object
    (h : ¬ ManifestIsObject bundle)
    (key : Option KeyFile) :
    checkEmbeddedManifest crypto display bundle key = .ok (true, none) := by
  rw [checkEmbeddedManifest]
  split
  case h_1 manifest hmanifest => exact absurd ⟨manifest, hmanifest⟩ h
  case h_2 => rfl

/-- A verification under a key is sound for a bundle exactly when its manifest is an object or
one of the checks that need no key fails. -/
theorem keyedSound_iff
    (crypto : Crypto)
    (display : Json → CodePoints)
    (git : CodePoints → GitRun)
    (bundle : Fields)
    (options : VerifyOptions)
    (key : KeyFile) :
    KeyedSound crypto display git bundle options key ↔
      ManifestIsObject bundle ∨
        ¬ ∃ receipts, OtherChecksPass crypto display git bundle
          { options with signingKey := some key } receipts := by
  constructor
  · intro hsound
    by_contra hnot
    obtain ⟨hobject, hpass⟩ := not_or.mp hnot
    obtain ⟨manifest, bytes, hmanifest, -⟩ := hsound (verifies_iff.mpr
      ⟨⟨none, checkEmbeddedManifest_of_not_object hobject _⟩, not_not.mp hpass⟩)
    exact hobject ⟨manifest, hmanifest⟩
  · intro hcondition hverifies
    obtain ⟨⟨error, hchecked⟩, hpass⟩ := verifies_iff.mp hverifies
    rcases hcondition with ⟨manifest, hmanifest⟩ | hfails
    · obtain ⟨bytes, hbytes, hsigned⟩ := signedUnder_of_checkEmbeddedManifest hmanifest hchecked
      exact ⟨manifest, bytes, hmanifest, hbytes, hsigned⟩
    · exact absurd hpass hfails

/-- A bundle whose manifest is a text, with the checksums that belong to it. -/
def forgedBundle (crypto : Crypto) : Fields :=
  let manifest := Json.string (codePoints "forged")
  let fields : Fields := [
    (codePoints "audit_manifest", manifest),
    (codePoints "checksums", .object [
      (codePoints "audit_manifest", .string (componentChecksum crypto manifest))])]
  fields ++ [(codePoints "bundle_sha256",
    .string (crypto.sha256Hex (canonicalJsonBytes (.object fields))))]

/-- Verification without receipts and without a policy. -/
def plainOptions : VerifyOptions :=
  ⟨none, none, [], false, 0, []⟩

/-- Whatever the libraries compute, as long as no digest is empty: the forged bundle verifies
under a key and has no signature. -/
theorem forged_bundle_verifies :
    ¬ ∃ crypto display git key, (∀ bytes, crypto.sha256 bytes ≠ []) ∧
      KeyedSound crypto display git (forgedBundle crypto) plainOptions key := by
  rintro ⟨crypto, display, git, key, hdigest, hsound⟩
  have hobject : ¬ ManifestIsObject (forgedBundle crypto) := by
    rintro ⟨manifest, ⟨⟩⟩
  have hnormal : ∀ bytes, normalizeOptionalStr (some (.string (crypto.sha256Hex bytes))) =
      some (crypto.sha256Hex bytes) := by
    intro bytes
    rw [normalizeOptionalStr, Crypto.sha256Hex, stripCodes_hexText,
      if_neg (hexText_ne_nil (hdigest bytes))]
  have hpass : OtherChecksPass crypto display git (forgedBundle crypto)
      { plainOptions with signingKey := some key } [] := by
    refine ⟨decide_eq_true (hnormal _), ?_, rfl, rfl, ?_, rfl⟩
    · intro component hcomponent
      rcases mem_reviewBundleComponents hcomponent with rfl | rfl | rfl | rfl | rfl
      · exact decide_eq_true (hnormal _)
      · rfl
      · rfl
      · rfl
      · rfl
    · intro entry hentry
      cases hentry
  obtain ⟨manifest, bytes, hmanifest, -⟩ := hsound (verifies_iff.mpr
    ⟨⟨none, checkEmbeddedManifest_of_not_object hobject _⟩, [], hpass⟩)
  exact hobject ⟨manifest, hmanifest⟩

end Keyed

end Audit
end TensorGrep
