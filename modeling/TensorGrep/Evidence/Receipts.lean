import TensorGrep.Kernel.ExceptList
import TensorGrep.Kernel.Json

/-!
# Evidence receipts

A receipt is a JSON object with a digest over its canonical text and, if it is
signed, an Ed25519 signature over the same bytes.  `verifyReceipt` checks both
and, on request, whether the embedded key is one of the trusted keys.

SHA-256, HMAC, base64 and Ed25519 are parameters: every result holds for whatever
functions they are.

The verification answers with a verdict except where a library call outside of
its `try` raises: serialising a number that JSON does not have, and comparing a
stored digest that is not ASCII.  `receiptReported_iff` says that these are the
only inputs on which it does not answer, and that it calls no receipt valid
whose stored digest is not that of its canonical bytes.
-/

namespace TensorGrep
namespace Evidence

open Kernel
open Kernel.Json (lookup without)

/-- The functions of the libraries. -/
structure Crypto where
  sha256 : Bytes → Bytes
  hmacSha256 : Bytes → Bytes → Bytes
  b64decode : CodePoints → Option Bytes
  ed25519Verifies : Bytes → Bytes → Bytes → Bool

/-- What the language raises. -/
inductive PythonError where
  | valueError
  | typeError
deriving DecidableEq

/-- The fields of a JSON object. -/
abbrev Fields := List (CodePoints × Json)

/-- `ALGORITHM`. -/
def algorithmEd25519 : CodePoints := codePoints "ed25519"

/-- `canonical_receipt_bytes`. -/
def canonicalReceiptBytes (receipt : Fields) : Except PythonError Bytes :=
  let canonical := Json.object
    (without [codePoints "signature", codePoints "receipt_sha256"] receipt)
  if canonical.nonFinite then .error .valueError
  else .ok (Json.render Json.compact (Json.quoted Json.escapeAscii) 0 canonical.sortKeys)

/-- The hexadecimal SHA-256 of bytes. -/
def Crypto.sha256Hex
    (crypto : Crypto)
    (bytes : Bytes) : CodePoints :=
  hexText (crypto.sha256 bytes)

/-- `receipt_digest`. -/
def receiptDigest
    (crypto : Crypto)
    (receipt : Fields) : Except PythonError CodePoints :=
  (canonicalReceiptBytes receipt).map crypto.sha256Hex

/-- `hmac.compare_digest` on two texts. -/
def compareDigest
    (a b : CodePoints) : Except PythonError Bool :=
  if isAsciiText a && isAsciiText b then .ok (decide (a = b)) else .error .typeError

/-- `key_id_from_public_b64`, where it does not raise. -/
def keyIdFromPublicB64
    (crypto : Crypto)
    (publicKey : CodePoints) : Option CodePoints :=
  (crypto.b64decode publicKey).map fun raw => codePoints "sha256:" ++ crypto.sha256Hex raw

/-- `public_key.verify` under the decoded key, where nothing raises. -/
def signatureVerifies
    (crypto : Crypto)
    (publicKey value : CodePoints)
    (message : Bytes) : Bool :=
  match crypto.b64decode publicKey, crypto.b64decode value with
  | some raw, some signature =>
      decide (raw.length = 32) && crypto.ed25519Verifies raw signature message
  | _, _ => false

/-- What is wrong with a receipt. -/
inductive ReceiptError where
  | digestMismatch
  | unsigned
  | unsupportedAlgorithm (algorithm : CodePoints)
  | missingPublicKey
  | missingValue
  | signatureMismatch
deriving DecidableEq

/-- The texts of the errors, without what the exceptions of libraries say. -/
def ReceiptError.message : ReceiptError → CodePoints
  | .digestMismatch =>
      codePoints "Receipt digest does not match receipt_sha256 (tampered or malformed)."
  | .unsigned =>
      codePoints "Trusted-key verification was requested but the receipt is unsigned."
  | .unsupportedAlgorithm algorithm =>
      codePoints "Unsupported signing algorithm: " ++
        (if algorithm = [] then codePoints "<empty>" else algorithm)
  | .missingPublicKey => codePoints "Signing block is missing a public_key."
  | .missingValue => codePoints "Signature block is missing a value."
  | .signatureMismatch => codePoints "Signature does not verify against the embedded public key: "

/-- The verdict on a receipt. -/
structure ReceiptVerdict where
  valid : Bool
  digestValid : Bool
  signatureValid : Bool
  keyTrusted : Option Bool
  signed : Bool
  keyId : Option CodePoints
  algorithm : Option CodePoints
  trustedKeysConfigured : Bool
  requireTrusted : Bool
  errors : List ReceiptError

/-- What the check of a signature finds. -/
structure SignatureCheck where
  signatureValid : Bool
  fingerprint : Option CodePoints
  algorithm : CodePoints
  errors : List ReceiptError

section Verify

variable (crypto : Crypto) (display : Json → CodePoints)

/-- The digest check of `verify_receipt`. -/
def checkDigest
    (receipt : Fields)
    (canonical : Bytes) : Except PythonError Bool :=
  match lookup (codePoints "receipt_sha256") receipt with
  | some (.string stored) => compareDigest stored (crypto.sha256Hex canonical)
  | _ => .ok false

/-- The branch of `verify_receipt` for a receipt with both blocks. -/
def checkSignature
    (signing signature : Fields)
    (canonical : Bytes) : SignatureCheck :=
  let algorithm := Json.toTextOrEmpty display (lookup (codePoints "algorithm") signing)
  if algorithm ≠ algorithmEd25519 then
    ⟨false, none, algorithm, [.unsupportedAlgorithm algorithm]⟩
  else
    match lookup (codePoints "public_key") signing with
    | some (.string (c :: publicKey)) =>
        match lookup (codePoints "value") signature with
        | some (.string (d :: value)) =>
            let fingerprint := keyIdFromPublicB64 crypto (c :: publicKey)
            if signatureVerifies crypto (c :: publicKey) (d :: value) canonical then
              ⟨true, fingerprint, algorithm, []⟩
            else ⟨false, fingerprint, algorithm, [.signatureMismatch]⟩
        | _ => ⟨false, none, algorithm, [.missingValue]⟩
    | _ => ⟨false, none, algorithm, [.missingPublicKey]⟩

/-- One of the trusted keys has the fingerprint; all fingerprints are ASCII. -/
def isTrusted
    (trusted : List CodePoints)
    (fingerprint : Option CodePoints) : Bool :=
  match fingerprint with
  | none => false
  | some f => trusted.any fun candidate => decide (keyIdFromPublicB64 crypto candidate = some f)

/-- Both blocks of a receipt, if both are objects. -/
def signedBlocks (receipt : Fields) : Option (Fields × Fields) :=
  match lookup (codePoints "signing") receipt, lookup (codePoints "signature") receipt with
  | some (.object signing), some (.object signature) => some (signing, signature)
  | _, _ => none

/-- `verify_receipt`. -/
def verifyReceipt
    (receipt : Fields)
    (trusted : List CodePoints)
    (requireTrusted : Bool) : Except PythonError ReceiptVerdict := do
  let canonical ← canonicalReceiptBytes receipt
  let digestValid ← checkDigest crypto receipt canonical
  let digestErrors := if digestValid then [] else [ReceiptError.digestMismatch]
  match signedBlocks receipt with
  | none =>
      let trustRequested := !trusted.isEmpty || requireTrusted
      return {
        valid := digestValid && !trustRequested
        digestValid := digestValid
        signatureValid := !trustRequested
        keyTrusted := none
        signed := false
        keyId := none
        algorithm := none
        trustedKeysConfigured := !trusted.isEmpty
        requireTrusted := requireTrusted
        errors := digestErrors ++ (if trustRequested then [.unsigned] else []) }
  | some (signing, signature) =>
      let check := checkSignature crypto display signing signature canonical
      let keyTrusted :=
        if trusted ≠ [] then some (isTrusted crypto trusted check.fingerprint)
        else if requireTrusted then some false
        else none
      return {
        valid := digestValid && check.signatureValid && (!requireTrusted || keyTrusted.getD false)
        digestValid := digestValid
        signatureValid := check.signatureValid
        keyTrusted := keyTrusted
        signed := true
        keyId := check.fingerprint
        algorithm := some check.algorithm
        trustedKeysConfigured := !trusted.isEmpty
        requireTrusted := requireTrusted
        errors := digestErrors ++ check.errors }

end Verify

/-! ## What a verdict says -/

section Verdicts

variable {crypto : Crypto} {display : Json → CodePoints} {receipt : Fields}
  {trusted : List CodePoints} {requireTrusted : Bool} {verdict : ReceiptVerdict}

/-- The receipt without its digest and signature has only numbers that JSON has. -/
def Serialisable (receipt : Fields) : Prop :=
  (Json.object
    (without [codePoints "signature", codePoints "receipt_sha256"] receipt)).nonFinite = false

/-- A stored digest that is a text is an ASCII text. -/
def DigestComparable (receipt : Fields) : Prop :=
  ∀ s, lookup (codePoints "receipt_sha256") receipt = some (.string s) → isAsciiText s

theorem canonicalReceiptBytes_isOk_iff :
    (∃ canonical, canonicalReceiptBytes receipt = .ok canonical) ↔ Serialisable receipt := by
  rw [canonicalReceiptBytes, Serialisable]
  split
  case isTrue hnan =>
      refine iff_of_false ?_ (by rw [hnan]; decide)
      rintro ⟨canonical, ⟨⟩⟩
  case isFalse hfinite => exact iff_of_true ⟨_, rfl⟩ (Bool.eq_false_iff.mpr hfinite)

theorem compareDigest_eq_ok
    {a b : CodePoints}
    {result : Bool}
    (h : compareDigest a b = .ok result) :
    isAsciiText a ∧ result = decide (a = b) := by
  rw [compareDigest] at h
  split at h
  case isTrue hascii =>
      cases h
      exact ⟨(Bool.and_eq_true_iff.mp hascii).1, rfl⟩
  case isFalse => cases h

theorem checkDigest_isOk_iff
    {canonical : Bytes} :
    (∃ digestValid, checkDigest crypto receipt canonical = .ok digestValid) ↔
      DigestComparable receipt := by
  rw [checkDigest, DigestComparable]
  split
  case h_1 stored hstored =>
      constructor
      · rintro ⟨digestValid, h⟩ s hs
        rw [hstored] at hs
        cases hs
        exact (compareDigest_eq_ok h).1
      · intro hascii
        refine ⟨decide (stored = crypto.sha256Hex canonical), ?_⟩
        rw [compareDigest, hascii stored hstored, Crypto.sha256Hex, isAsciiText_hexText]
        rfl
  case h_2 hnone =>
      refine iff_of_true ⟨false, rfl⟩ ?_
      intro s hs
      exact absurd hs (hnone s)

/-- A digest check that succeeds has found the digest of the canonical bytes. -/
theorem checkDigest_eq_true
    {canonical : Bytes}
    (h : checkDigest crypto receipt canonical = .ok true) :
    lookup (codePoints "receipt_sha256") receipt =
      some (.string (crypto.sha256Hex canonical)) := by
  rw [checkDigest] at h
  split at h
  case h_1 stored hstored =>
      have heq := of_decide_eq_true (compareDigest_eq_ok h).2.symm
      rw [hstored, heq]
  case h_2 => cases h

/-- What a verification that answers has computed. -/
theorem verifyReceipt_eq_ok
    (h : verifyReceipt crypto display receipt trusted requireTrusted = .ok verdict) :
    ∃ canonical, canonicalReceiptBytes receipt = .ok canonical ∧
      checkDigest crypto receipt canonical = .ok verdict.digestValid ∧
      (verdict.valid → verdict.digestValid) := by
  rw [verifyReceipt, bind_eq_ok_iff] at h
  obtain ⟨canonical, hcanonical, h⟩ := h
  rw [bind_eq_ok_iff] at h
  obtain ⟨digestValid, hdigest, h⟩ := h
  dsimp only at h
  refine ⟨canonical, hcanonical, ?_⟩
  split at h
  · cases h
    refine ⟨hdigest, ?_⟩
    intro hvalid
    exact (Bool.and_eq_true_iff.mp hvalid).1
  · cases h
    refine ⟨hdigest, ?_⟩
    intro hvalid
    exact (Bool.and_eq_true_iff.mp (Bool.and_eq_true_iff.mp hvalid).1).1

/-- What a trusted receipt has: the digest of its canonical bytes, and a signature over them
under a key with the fingerprint of a trusted key. -/
structure TrustedReceipt
    (crypto : Crypto)
    (trusted : List CodePoints)
    (receipt : Fields) : Prop where
  digest : ∃ canonical, canonicalReceiptBytes receipt = .ok canonical ∧
    lookup (codePoints "receipt_sha256") receipt = some (.string (crypto.sha256Hex canonical))
  signature : ∃ canonical signing signature publicKey value,
    canonicalReceiptBytes receipt = .ok canonical ∧
    lookup (codePoints "signing") receipt = some (.object signing) ∧
    lookup (codePoints "signature") receipt = some (.object signature) ∧
    lookup (codePoints "public_key") signing = some (.string publicKey) ∧
    lookup (codePoints "value") signature = some (.string value) ∧
    signatureVerifies crypto publicKey value canonical ∧
    ∃ candidate ∈ trusted, ∃ fingerprint,
      keyIdFromPublicB64 crypto candidate = some fingerprint ∧
      keyIdFromPublicB64 crypto publicKey = some fingerprint

theorem signedBlocks_eq_some
    {signing signature : Fields}
    (h : signedBlocks receipt = some (signing, signature)) :
    lookup (codePoints "signing") receipt = some (.object signing) ∧
      lookup (codePoints "signature") receipt = some (.object signature) := by
  rw [signedBlocks] at h
  split at h
  case h_1 hsigning hsignature =>
      cases h
      exact ⟨hsigning, hsignature⟩
  case h_2 => cases h

/-- A signature that is valid verifies under the embedded key, and the fingerprint is that of
this key. -/
theorem checkSignature_valid
    {signing signature : Fields}
    {canonical : Bytes}
    (h : (checkSignature crypto display signing signature canonical).signatureValid) :
    ∃ publicKey value, lookup (codePoints "public_key") signing = some (.string publicKey) ∧
      lookup (codePoints "value") signature = some (.string value) ∧
      signatureVerifies crypto publicKey value canonical ∧
      (checkSignature crypto display signing signature canonical).fingerprint =
        keyIdFromPublicB64 crypto publicKey := by
  rw [checkSignature] at h ⊢
  dsimp only at h ⊢
  split at h
  · cases h
  case isFalse halgorithm =>
      rw [if_neg halgorithm]
      split at h
      case h_1 c publicKey hkey =>
          split at h
          case h_1 d value hvalue =>
              split at h
              case isTrue hverifies =>
                  refine ⟨c :: publicKey, d :: value, hkey, hvalue, hverifies, ?_⟩
                  rw [if_pos hverifies]
              case isFalse => cases h
          case h_2 => cases h
      case h_2 => cases h

/-- A fingerprint that is trusted is that of a trusted key. -/
theorem exists_of_isTrusted
    {fingerprint : Option CodePoints}
    (h : isTrusted crypto trusted fingerprint) :
    ∃ candidate ∈ trusted, ∃ f, keyIdFromPublicB64 crypto candidate = some f ∧
      fingerprint = some f := by
  cases fingerprint with
  | none => cases h
  | some f =>
      obtain ⟨candidate, hmem, hcandidate⟩ := List.any_eq_true.mp h
      exact ⟨candidate, hmem, f, of_decide_eq_true hcandidate, rfl⟩

/-- A receipt that is valid where trust is required is a trusted one. -/
theorem trustedReceipt_of_valid
    (h : verifyReceipt crypto display receipt trusted true = .ok verdict)
    (hvalid : verdict.valid) :
    TrustedReceipt crypto trusted receipt := by
  rw [verifyReceipt, bind_eq_ok_iff] at h
  obtain ⟨canonical, hcanonical, h⟩ := h
  rw [bind_eq_ok_iff] at h
  obtain ⟨digestValid, hdigest, h⟩ := h
  dsimp only at h
  split at h
  case h_1 hunsigned =>
      -- trust is requested, so an unsigned receipt is not valid
      cases h
      have htrust := (Bool.and_eq_true_iff.mp hvalid).2
      rw [Bool.or_true] at htrust
      cases htrust
  case h_2 signing signature hblocks =>
      cases h
      obtain ⟨hboth, htrusted⟩ := Bool.and_eq_true_iff.mp hvalid
      obtain ⟨rfl, hsignature⟩ := Bool.and_eq_true_iff.mp hboth
      obtain ⟨hsigning, hsigned⟩ := signedBlocks_eq_some hblocks
      obtain ⟨publicKey, value, hkey, hvalue, hverifies, hfingerprint⟩ :=
        checkSignature_valid hsignature
      rw [Bool.not_true, Bool.false_or] at htrusted
      have hany : isTrusted crypto trusted
          (checkSignature crypto display signing signature canonical).fingerprint := by
        split at htrusted
        · exact htrusted
        · cases htrusted
      obtain ⟨candidate, hmem, f, hcandidate, hf⟩ := exists_of_isTrusted hany
      rw [hfingerprint] at hf
      exact ⟨⟨canonical, hcanonical, checkDigest_eq_true hdigest⟩,
        canonical, signing, signature, publicKey, value, hcanonical, hsigning, hsigned, hkey,
        hvalue, hverifies, candidate, hmem, f, hcandidate, hf⟩

/-- It answers exactly when the two calls that can raise do not. -/
theorem verifyReceipt_isOk_iff :
    (∃ verdict, verifyReceipt crypto display receipt trusted requireTrusted = .ok verdict) ↔
      Serialisable receipt ∧ DigestComparable receipt := by
  constructor
  · rintro ⟨verdict, h⟩
    obtain ⟨canonical, hcanonical, hdigest, -⟩ := verifyReceipt_eq_ok h
    exact ⟨canonicalReceiptBytes_isOk_iff.mp ⟨canonical, hcanonical⟩,
      checkDigest_isOk_iff.mp ⟨_, hdigest⟩⟩
  · rintro ⟨hserialisable, hcomparable⟩
    obtain ⟨canonical, hcanonical⟩ := canonicalReceiptBytes_isOk_iff.mpr hserialisable
    obtain ⟨digestValid, hdigest⟩ :=
      (@checkDigest_isOk_iff crypto receipt canonical).mpr hcomparable
    rw [verifyReceipt, hcanonical]
    change ∃ verdict, (checkDigest crypto receipt canonical >>= _) = Except.ok verdict
    rw [hdigest]
    cases hblocks : signedBlocks receipt with
    | none => exact ⟨_, rfl⟩
    | some blocks => exact ⟨_, rfl⟩

/-- The verification of a receipt answers, and what it calls valid has the digest of its
canonical bytes. -/
def ReceiptReported
    (crypto : Crypto)
    (display : Json → CodePoints)
    (receipt : Fields)
    (trusted : List CodePoints)
    (requireTrusted : Bool) : Prop :=
  (∃ verdict, verifyReceipt crypto display receipt trusted requireTrusted = .ok verdict) ∧
    ∀ verdict, verifyReceipt crypto display receipt trusted requireTrusted = .ok verdict →
      verdict.valid → ∃ digest, receiptDigest crypto receipt = .ok digest ∧
        lookup (codePoints "receipt_sha256") receipt = some (.string digest)

/-- A valid receipt stores the digest of its canonical bytes. -/
theorem digest_of_valid
    (h : verifyReceipt crypto display receipt trusted requireTrusted = .ok verdict)
    (hvalid : verdict.valid) :
    ∃ digest, receiptDigest crypto receipt = .ok digest ∧
      lookup (codePoints "receipt_sha256") receipt = some (.string digest) := by
  obtain ⟨canonical, hcanonical, hdigest, hdigestValid⟩ := verifyReceipt_eq_ok h
  rw [hdigestValid hvalid] at hdigest
  refine ⟨crypto.sha256Hex canonical, ?_, checkDigest_eq_true hdigest⟩
  rw [receiptDigest, hcanonical]
  rfl

/-- The verification does what it promises exactly on the receipts that can be serialised and
whose stored digest can be compared. -/
theorem receiptReported_iff
    (crypto : Crypto)
    (display : Json → CodePoints)
    (receipt : Fields)
    (trusted : List CodePoints)
    (requireTrusted : Bool) :
    ReceiptReported crypto display receipt trusted requireTrusted ↔
      Serialisable receipt ∧ DigestComparable receipt := by
  rw [ReceiptReported, verifyReceipt_isOk_iff]
  exact and_iff_left fun verdict h hvalid => digest_of_valid h hvalid

/-- Whatever the libraries compute, the verification does not report a receipt with a stored
digest outside of ASCII, nor one with a number that is not a number. -/
theorem receipt_not_reported :
    (¬ ∃ crypto display, ReceiptReported crypto display
      [(codePoints "receipt_sha256", .string [0xe9])] [] false) ∧
    ¬ ∃ crypto display, ReceiptReported crypto display
      [(codePoints "version", .number .nan)] [] false := by
  refine ⟨?_, ?_⟩
  · rintro ⟨crypto, display, hanswers, -⟩
    have hcomparable := (verifyReceipt_isOk_iff.mp hanswers).2 [0xe9] rfl
    revert hcomparable
    decide
  · rintro ⟨crypto, display, hanswers, -⟩
    have hserialisable := (verifyReceipt_isOk_iff.mp hanswers).1
    revert hserialisable
    rw [Serialisable]
    decide

end Verdicts

end Evidence
end TensorGrep
