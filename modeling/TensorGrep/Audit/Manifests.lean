import TensorGrep.Evidence.Receipts

/-!
# Audit manifests

A manifest is a JSON object with a digest over its canonical text and, if it is
signed, an HMAC over the same bytes under a key that the verifier has to supply.
A manifest that has a predecessor names its digest.  `verifyAuditManifest` is
`verify_audit_manifest` on a parsed manifest; the entry that it makes in the
history of a manifest that has verified is not part of its verdict.
-/

namespace TensorGrep
namespace Audit

open Kernel
open Kernel.Json (lookup without)
open Evidence (Crypto PythonError Fields compareDigest)

/-- A value that is there and is not null. -/
def present (v : Option Json) : Option Json :=
  match v with
  | some .null => none
  | v => v

/-- `_canonical_manifest_bytes`. -/
def canonicalManifestBytes (manifest : Fields) : Bytes :=
  Json.render Json.indented (Json.quoted Json.escapeAscii) 0
    (Json.object
      (without [codePoints "manifest_sha256", codePoints "signature"] manifest)).sortKeys

/-- A signing key that was named: its path, and its bytes if the file exists. -/
structure KeyFile where
  path : CodePoints
  content : Option Bytes

/-- A previous manifest that was named: its path, and its digest if the file exists. -/
structure PreviousManifest where
  path : CodePoints
  digest : Option CodePoints

/-- The value is the text. -/
def isText
    (s : CodePoints) : Option Json → Bool
  | some (.string t) => decide (t = s)
  | _ => false

theorem isText_iff
    {s : CodePoints}
    {v : Option Json} :
    isText s v ↔ v = some (.string s) := by
  unfold isText
  split
  case h_1 t =>
      rw [decide_eq_true_iff]
      constructor
      · rintro rfl
        rfl
      · rintro ⟨⟩
        rfl
  case h_2 hother =>
      refine iff_of_false (by decide) ?_
      rintro rfl
      exact hother s rfl

/-- What is wrong with a manifest. -/
inductive ManifestError where
  | digestMismatch
  | chainNotText
  | noPreviousManifest
  | previousNotFound (path : CodePoints)
  | previousMismatch
  | signatureNotObject
  | unsupportedKind (kind : CodePoints)
  | noSigningKey
  | keyNotFound (path : CodePoints)
  | signatureMismatch
  | unsigned
deriving DecidableEq

/-- The texts of the errors. -/
def ManifestError.message : ManifestError → CodePoints
  | .digestMismatch => codePoints "Manifest digest does not match manifest_sha256."
  | .chainNotText =>
      codePoints "Manifest previous_manifest_sha256 must be a non-empty string when present."
  | .noPreviousManifest =>
      codePoints "Manifest chain digest is present but no previous manifest was provided."
  | .previousNotFound path => codePoints "Previous manifest not found: " ++ path
  | .previousMismatch =>
      codePoints "Previous manifest digest does not match previous_manifest_sha256."
  | .signatureNotObject => codePoints "Manifest signature must be an object."
  | .unsupportedKind kind =>
      codePoints "Unsupported signature kind: " ++
        (if kind = [] then codePoints "<empty>" else kind)
  | .noSigningKey =>
      codePoints ("Manifest is hmac-sha256 signed but no signing key was provided; " ++
        "refusing to trust the key_path embedded in the manifest.")
  | .keyNotFound path => codePoints "Signing key not found: " ++ path
  | .signatureMismatch => codePoints "Manifest signature does not match the supplied signing key."
  | .unsigned => codePoints "Signing key was provided but the manifest is unsigned."

/-- The verdict on a manifest. -/
structure ManifestVerdict where
  digestValid : Bool
  chainValid : Bool
  signatureValid : Bool
  kind : Option Json
  manifestSha256 : Option Json
  previousManifestSha256 : Option Json
  signatureKind : Option CodePoints
  signingKeyPath : Option CodePoints
  errors : List ManifestError

/-- `valid` of the verdict. -/
def ManifestVerdict.valid (v : ManifestVerdict) : Bool :=
  v.digestValid && v.chainValid && v.signatureValid

section Verify

variable (crypto : Crypto) (display : Json → CodePoints)

/-- The digest that a manifest should store. -/
def manifestDigest (manifest : Fields) : CodePoints :=
  crypto.sha256Hex (canonicalManifestBytes manifest)

/-- The chain check. -/
def checkChain
    (manifest : Fields)
    (previous : Option PreviousManifest) : Option ManifestError :=
  match present (lookup (codePoints "previous_manifest_sha256") manifest) with
  | none => none
  | some (.string (c :: claimed)) =>
      match previous with
      | none => some .noPreviousManifest
      | some ⟨path, none⟩ => some (.previousNotFound path)
      | some ⟨_, some digest⟩ => if c :: claimed = digest then none else some .previousMismatch
  | some _ => some .chainNotText

/-- The HMAC of a manifest. -/
def manifestHmac
    (key : Bytes)
    (manifest : Fields) : CodePoints :=
  hexText (crypto.hmacSha256 key (canonicalManifestBytes manifest))

/-- The signature check. -/
def checkSignature
    (manifest : Fields)
    (key : Option KeyFile) : Except PythonError (Option ManifestError) :=
  match present (lookup (codePoints "signature") manifest) with
  | none => .ok (if key.isSome then some .unsigned else none)
  | some (.object signature) =>
      let kind := Json.toTextOrEmpty display (lookup (codePoints "kind") signature)
      let value := Json.toTextOrEmpty display (lookup (codePoints "value") signature)
      if kind ≠ codePoints "hmac-sha256" then .ok (some (.unsupportedKind kind))
      else
        match key with
        | none => .ok (some .noSigningKey)
        | some ⟨path, none⟩ => .ok (some (.keyNotFound path))
        | some ⟨_, some bytes⟩ => do
            let same ← compareDigest value (manifestHmac crypto bytes manifest)
            return if same then none else some .signatureMismatch
  | some _ => .ok (some .signatureNotObject)

/-- `signature_kind` and `signing_key_path` of the verdict. -/
def signatureFields
    (manifest : Fields)
    (key : Option KeyFile) : Option CodePoints × Option CodePoints :=
  match present (lookup (codePoints "signature") manifest) with
  | some (.object signature) =>
      (some (Json.toTextOrEmpty display (lookup (codePoints "kind") signature)),
        match key with
        | some file => some file.path
        | none => some (Json.toTextOrEmpty display (lookup (codePoints "key_path") signature)))
  | _ => (none, none)

/-- `verify_audit_manifest`, for a manifest that has been parsed. -/
def verifyAuditManifest
    (manifest : Fields)
    (key : Option KeyFile)
    (previous : Option PreviousManifest) : Except PythonError ManifestVerdict := do
  let stored := lookup (codePoints "manifest_sha256") manifest
  let digestValid := isText (manifestDigest crypto manifest) stored
  let chainError := checkChain manifest previous
  let signatureError ← checkSignature crypto display manifest key
  return {
    digestValid := digestValid
    chainValid := chainError.isNone
    signatureValid := signatureError.isNone
    kind := lookup (codePoints "kind") manifest
    manifestSha256 := stored
    previousManifestSha256 := lookup (codePoints "previous_manifest_sha256") manifest
    signatureKind := (signatureFields display manifest key).1
    signingKeyPath := (signatureFields display manifest key).2
    errors := (if digestValid then [] else [.digestMismatch]) ++ chainError.toList ++
      signatureError.toList }

end Verify

/-! ## What a valid signature means -/

section Signed

variable {crypto : Crypto} {display : Json → CodePoints} {manifest : Fields} {key : KeyFile}
  {verdict : ManifestVerdict}

/-- The manifest has an hmac-sha256 signature whose value is its HMAC under the key. -/
def SignedUnder
    (crypto : Crypto)
    (display : Json → CodePoints)
    (key : Bytes)
    (manifest : Fields) : Prop :=
  ∃ signature, lookup (codePoints "signature") manifest = some (.object signature) ∧
    Json.toTextOrEmpty display (lookup (codePoints "kind") signature) = codePoints "hmac-sha256" ∧
    Json.toTextOrEmpty display (lookup (codePoints "value") signature) =
      manifestHmac crypto key manifest

theorem of_present_eq_some
    {v : Option Json}
    {w : Json}
    (h : present v = some w) :
    v = some w := by
  unfold present at h
  split at h
  · cases h
  · exact h

theorem verifyAuditManifest_eq_ok
    {key : Option KeyFile}
    {previous : Option PreviousManifest}
    (h : verifyAuditManifest crypto display manifest key previous = .ok verdict) :
    ∃ signatureError, checkSignature crypto display manifest key = .ok signatureError ∧
      verdict.signatureValid = signatureError.isNone := by
  rw [verifyAuditManifest, bind_eq_ok_iff] at h
  obtain ⟨signatureError, hsignature, h⟩ := h
  cases h
  exact ⟨signatureError, hsignature, rfl⟩

/-- With a key, a signature is valid only if it is the HMAC under that key. -/
theorem signedUnder_of_checkSignature
    (h : checkSignature crypto display manifest (some key) = .ok none) :
    ∃ bytes, key.content = some bytes ∧ SignedUnder crypto display bytes manifest := by
  rw [checkSignature] at h
  split at h
  · cases h
  case h_2 signature hsignature =>
      dsimp only at h
      split at h
      · cases h
      case isFalse hkind =>
          split at h
          · next hnone => cases hnone
          · cases h
          next path bytes hkey =>
            cases hkey
            rw [bind_eq_ok_iff] at h
            obtain ⟨same, hsame, hresult⟩ := h
            obtain ⟨-, rfl⟩ := Evidence.compareDigest_eq_ok hsame
            refine ⟨bytes, rfl, signature, of_present_eq_some hsignature, not_not.mp hkind, ?_⟩
            by_contra hdiffers
            rw [decide_eq_false hdiffers] at hresult
            cases hresult
  · cases h

/-- The check of an hmac-sha256 signature with an ASCII value. -/
theorem checkSignature_of_hmac
    {path value : CodePoints}
    {bytes : Bytes}
    {signature : Fields}
    (hlookup : lookup (codePoints "signature") manifest = some (.object signature))
    (hkind : Json.toTextOrEmpty display (lookup (codePoints "kind") signature) =
      codePoints "hmac-sha256")
    (hvalue : Json.toTextOrEmpty display (lookup (codePoints "value") signature) = value)
    (hascii : isAsciiText value) :
    checkSignature crypto display manifest (some ⟨path, some bytes⟩) =
      .ok (if value = manifestHmac crypto bytes manifest then none
        else some .signatureMismatch) := by
  have hcompare : compareDigest value (manifestHmac crypto bytes manifest) =
      .ok (decide (value = manifestHmac crypto bytes manifest)) := by
    rw [compareDigest, hascii, manifestHmac, isAsciiText_hexText]
    rfl
  have hpresent : present (some (.object signature)) = some (.object signature) := rfl
  rw [checkSignature, hlookup, hpresent]
  dsimp only
  rw [hvalue, hcompare, if_neg (not_not.mpr hkind)]
  by_cases hsame : value = manifestHmac crypto bytes manifest
  · rw [decide_eq_true hsame, if_pos hsame]
    rfl
  · rw [decide_eq_false hsame, if_neg hsame]
    rfl

/-- The HMAC under a key is accepted with that key. -/
theorem checkSignature_of_signedUnder
    {path : CodePoints}
    {bytes : Bytes}
    (h : SignedUnder crypto display bytes manifest) :
    checkSignature crypto display manifest (some ⟨path, some bytes⟩) = .ok none := by
  obtain ⟨signature, hlookup, hkind, hvalue⟩ := h
  rw [checkSignature_of_hmac hlookup hkind hvalue (isAsciiText_hexText _), if_pos rfl]

end Signed

end Audit
end TensorGrep
