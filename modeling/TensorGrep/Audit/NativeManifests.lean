import TensorGrep.Audit.Manifests

/-!
# Manifests of the native writer

The native tool writes the manifest of an applied rewrite, with a digest over
the canonical text and, with a signing key, an HMAC over the same bytes.  Its
verifier and `verifyAuditManifest` both make the canonical text again from the
parsed file.

`verifiesEverywhere_iff` says when both accept what was written.  The two
canonical texts differ in how strings are quoted only, hence they are the same
exactly when all strings are plain.
-/

namespace TensorGrep
namespace Audit

open Kernel
open Kernel.Json (lookup without AllTexts PlainCodes ScalarCodes)
open Evidence (Crypto PythonError Fields)

/-! ## Strings and values -/

/-- The strings of the native tool. -/
structure UnicodeText where
  codes : CodePoints
  scalar : ScalarCodes codes
deriving DecidableEq

/-- A constant. -/
def UnicodeText.ofString (s : String) : UnicodeText where
  codes := codePoints s
  scalar := by
    intro c hc
    obtain ⟨d, -, rfl⟩ := List.mem_map.mp hc
    have hlt : d.toNat < 0x110000 := by
      rcases d.valid with hlow | ⟨-, hhigh⟩
      · exact lt_trans hlow (by decide)
      · exact hhigh
    rw [Fin.val_ofNat, Nat.mod_eq_of_lt hlt]
    exact d.valid

/-- `serde_json::Value`. -/
structure UnicodeJson where
  value : Json
  scalar : AllTexts ScalarCodes value

theorem plainCodes_hexText
    (bytes : Bytes) :
    PlainCodes (hexText bytes) := by
  intro c hc
  obtain ⟨n, hn, rfl⟩ := mem_hexText hc
  have hlt := UInt8.lt_iff_toNat_lt.mp (Json.hexDigit_lt hn)
  rw [Fin.val_ofNat, Nat.mod_eq_of_lt (lt_trans hlt (by decide))]
  exact hlt

/-- `sha256_hex`. -/
def sha256Hex
    (crypto : Crypto)
    (bytes : Bytes) : UnicodeText where
  codes := crypto.sha256Hex bytes
  scalar := (plainCodes_hexText _).scalar

/-! ## The timestamp -/

/-- A number with zeros in front of it. -/
def padded (width n : Nat) : Bytes :=
  List.replicate (width - (Json.decimal n).length) 0x30 ++ Json.decimal n

/-- The bytes of `epoch_seconds_to_iso8601_utc`; no difference in it is negative. -/
def isoBytes (epochSecs : Nat) : Bytes :=
  let days := epochSecs / 86400
  let secsOfDay := epochSecs % 86400
  let z := days + 719468
  let era := z / 146097
  let doe := z - era * 146097
  let yoe := (doe - doe / 1460 + doe / 36524 - doe / 146096) / 365
  let doy := doe - (365 * yoe + yoe / 4 - yoe / 100)
  let mp := (5 * doy + 2) / 153
  let day := doy - (153 * mp + 2) / 5 + 1
  let month := if mp < 10 then mp + 3 else mp - 9
  let year := if month ≤ 2 then yoe + era * 400 + 1 else yoe + era * 400
  padded 4 year ++ asciiBytes "-" ++ padded 2 month ++ asciiBytes "-" ++ padded 2 day ++
    asciiBytes "T" ++ padded 2 (secsOfDay / 3600) ++ asciiBytes ":" ++
    padded 2 (secsOfDay % 3600 / 60) ++ asciiBytes ":" ++ padded 2 (secsOfDay % 60) ++
    asciiBytes "Z"

theorem plainBytes_padded
    (width n : Nat) :
    Json.PlainBytes (padded width n) := by
  refine Json.plainBytes_append ?_ (Json.plainBytes_decimal n)
  intro b hb
  rw [(List.mem_replicate.mp hb).2]
  decide

theorem plainBytes_isoBytes
    (epochSecs : Nat) :
    Json.PlainBytes (isoBytes epochSecs) := by
  have hdash : Json.PlainBytes (asciiBytes "-") := Json.plainBytes_of_all rfl
  have hcolon : Json.PlainBytes (asciiBytes ":") := Json.plainBytes_of_all rfl
  have htime : Json.PlainBytes (asciiBytes "T") := Json.plainBytes_of_all rfl
  refine Json.plainBytes_append ?_ (Json.plainBytes_of_all rfl)
  refine Json.plainBytes_append (Json.plainBytes_append ?_ hcolon) (plainBytes_padded _ _)
  refine Json.plainBytes_append (Json.plainBytes_append ?_ hcolon) (plainBytes_padded _ _)
  refine Json.plainBytes_append (Json.plainBytes_append ?_ htime) (plainBytes_padded _ _)
  refine Json.plainBytes_append (Json.plainBytes_append ?_ hdash) (plainBytes_padded _ _)
  exact Json.plainBytes_append (Json.plainBytes_append (plainBytes_padded _ _) hdash)
    (plainBytes_padded _ _)

theorem plainCodes_ofAscii
    {bytes : Bytes}
    (h : Json.PlainBytes bytes) :
    PlainCodes (Json.ofAscii bytes) := by
  intro c hc
  obtain ⟨b, hb, rfl⟩ := List.mem_map.mp hc
  have hlt := UInt8.lt_iff_toNat_lt.mp (h b hb)
  rw [Fin.val_ofNat, Nat.mod_eq_of_lt (lt_trans hlt (by decide))]
  exact hlt

/-- `epoch_seconds_to_iso8601_utc`. -/
def epochSecondsToIso8601Utc (epochSecs : Nat) : UnicodeText where
  codes := Json.ofAscii (isoBytes epochSecs)
  scalar := (plainCodes_ofAscii (plainBytes_isoBytes epochSecs)).scalar

theorem plainCodes_epochSeconds
    (epochSecs : Nat) :
    PlainCodes (epochSecondsToIso8601Utc epochSecs).codes := by
  have h := plainCodes_ofAscii (plainBytes_isoBytes epochSecs)
  dsimp only [epochSecondsToIso8601Utc]
  exact h

example : (epochSecondsToIso8601Utc 1781094896).codes = codePoints "2026-06-10T12:34:56Z" := by
  decide

/-! ## What a manifest holds -/

/-- `CheckpointCreateSummary`. -/
structure CheckpointCreateSummary where
  checkpointId : UnicodeText
  mode : UnicodeText
  root : UnicodeText
  scope : UnicodeText
  originalPath : UnicodeText
  createdAt : UnicodeText
  fileCount : Nat

/-- The kinds of validation commands. -/
inductive ValidationKind where
  | lint
  | test

/-- The text of a kind. -/
def ValidationKind.text : ValidationKind → UnicodeText
  | .lint => .ofString "lint"
  | .test => .ofString "test"

/-- `ValidationCommandResult`. -/
structure ValidationCommandResult where
  kind : ValidationKind
  command : UnicodeText
  success : Bool
  exitCode : Option Int
  stdout : UnicodeText
  stderr : UnicodeText

/-- `ValidationSummary`. -/
structure ValidationSummary where
  success : Bool
  commands : List ValidationCommandResult
  validationTargetsTruncated : Bool
  validationTargetsTotal : Nat

/-- `RewriteAuditManifestFile`. -/
structure RewriteAuditManifestFile where
  path : UnicodeText
  editIds : List UnicodeText
  beforeSha256 : UnicodeText
  afterSha256 : UnicodeText

/-- `AuditManifestSignature`. -/
structure AuditManifestSignature where
  kind : UnicodeText
  keyPath : UnicodeText
  value : UnicodeText

/-- `RewriteAuditManifest`. -/
structure RewriteAuditManifest where
  version : Nat
  kind : UnicodeText
  createdAt : UnicodeText
  lang : UnicodeText
  path : UnicodeText
  planTotalEdits : Nat
  appliedEditIds : List UnicodeText
  previousManifestSha256 : Option UnicodeText
  checkpoint : Option CheckpointCreateSummary
  validation : Option ValidationSummary
  files : List RewriteAuditManifestFile
  manifestSha256 : Option UnicodeText
  signature : Option AuditManifestSignature

/-! ## Serialisation -/

/-- A string as a value. -/
def UnicodeText.toJson (t : UnicodeText) : Json :=
  .string t.codes

/-- Strings as a value. -/
def textsToJson (ts : List UnicodeText) : Json :=
  .array (ts.map UnicodeText.toJson)

/-- A number as a value. -/
def natToJson (n : Nat) : Json :=
  .number (.int n)

/-- A value that may be missing. -/
def optionToJson
    {α : Type}
    (toJson : α → Json) : Option α → Json
  | none => .null
  | some a => toJson a

/-- A checkpoint as a value. -/
def CheckpointCreateSummary.toJson (c : CheckpointCreateSummary) : Json :=
  .object [
    (codePoints "checkpoint_id", c.checkpointId.toJson),
    (codePoints "mode", c.mode.toJson),
    (codePoints "root", c.root.toJson),
    (codePoints "scope", c.scope.toJson),
    (codePoints "original_path", c.originalPath.toJson),
    (codePoints "created_at", c.createdAt.toJson),
    (codePoints "file_count", natToJson c.fileCount)]

/-- The result of a command as a value. -/
def ValidationCommandResult.toJson (r : ValidationCommandResult) : Json :=
  .object [
    (codePoints "kind", r.kind.text.toJson),
    (codePoints "command", r.command.toJson),
    (codePoints "success", .bool r.success),
    (codePoints "exit_code", optionToJson (fun code => .number (.int code)) r.exitCode),
    (codePoints "stdout", r.stdout.toJson),
    (codePoints "stderr", r.stderr.toJson)]

/-- A validation as a value. -/
def ValidationSummary.toJson (v : ValidationSummary) : Json :=
  .object [
    (codePoints "success", .bool v.success),
    (codePoints "commands", .array (v.commands.map ValidationCommandResult.toJson)),
    (codePoints "validation_targets_truncated", .bool v.validationTargetsTruncated),
    (codePoints "validation_targets_total", natToJson v.validationTargetsTotal)]

/-- A file of a manifest as a value. -/
def RewriteAuditManifestFile.toJson (f : RewriteAuditManifestFile) : Json :=
  .object [
    (codePoints "path", f.path.toJson),
    (codePoints "edit_ids", textsToJson f.editIds),
    (codePoints "before_sha256", f.beforeSha256.toJson),
    (codePoints "after_sha256", f.afterSha256.toJson)]

/-- A signature as a value. -/
def AuditManifestSignature.toJson (s : AuditManifestSignature) : Json :=
  .object [
    (codePoints "kind", s.kind.toJson),
    (codePoints "key_path", s.keyPath.toJson),
    (codePoints "value", s.value.toJson)]

/-- The fields of a manifest before its digest, in the order of their declaration. -/
def RewriteAuditManifest.contentFields (m : RewriteAuditManifest) : Fields := [
  (codePoints "version", natToJson m.version),
  (codePoints "kind", m.kind.toJson),
  (codePoints "created_at", m.createdAt.toJson),
  (codePoints "lang", m.lang.toJson),
  (codePoints "path", m.path.toJson),
  (codePoints "plan_total_edits", natToJson m.planTotalEdits),
  (codePoints "applied_edit_ids", textsToJson m.appliedEditIds),
  (codePoints "previous_manifest_sha256",
    optionToJson UnicodeText.toJson m.previousManifestSha256),
  (codePoints "checkpoint", optionToJson CheckpointCreateSummary.toJson m.checkpoint),
  (codePoints "validation", optionToJson ValidationSummary.toJson m.validation),
  (codePoints "files", .array (m.files.map RewriteAuditManifestFile.toJson))]

/-- The fields of a manifest: the digest is left out while there is none, the signature is
written as null. -/
def RewriteAuditManifest.fields (m : RewriteAuditManifest) : Fields :=
  m.contentFields ++
    m.manifestSha256.toList.map (fun sha => (codePoints "manifest_sha256", sha.toJson)) ++
    [(codePoints "signature", optionToJson AuditManifestSignature.toJson m.signature)]

/-- `to_vec_pretty` of a `serde_json::Value`, whose objects have sorted keys. -/
def toVecPretty (v : Json) : Bytes :=
  Json.render Json.indented (Json.quoted Json.escapeControl) 0 v.sortKeys

/-- `canonical_manifest_bytes`. -/
def RewriteAuditManifest.canonicalBytes (m : RewriteAuditManifest) : Bytes :=
  toVecPretty (.object (without [codePoints "manifest_sha256", codePoints "signature"] m.fields))

/-- The bytes of the manifest file: `to_vec_pretty` of the record itself, in the order of its
declaration. -/
def RewriteAuditManifest.fileBytes (m : RewriteAuditManifest) : Bytes :=
  Json.render Json.indented (Json.quoted Json.escapeControl) 0 (.object m.fields)

/-! ## Writing -/

/-- A planned edit, as far as a manifest names it. -/
structure ManifestEdit where
  id : UnicodeText
  file : UnicodeText

/-- A signing key that was named: its path, and its bytes if it can be read. -/
structure SigningKey where
  path : UnicodeText
  content : Option Bytes

/-- What the manifest of a plan is made of: `AuditManifestWriteInput`, the bytes of what stands at
the path of the manifest (`some none` if that cannot be read), the files, and the clock. -/
structure AuditManifestWriteInput where
  lang : UnicodeText
  rootPath : UnicodeText
  edits : List ManifestEdit
  planTotalEdits : Nat
  checkpoint : Option CheckpointCreateSummary
  validation : Option ValidationSummary
  beforeHashes : UnicodeText → Option UnicodeText
  signingKey : Option SigningKey
  existing : Option (Option Bytes)
  readFile : UnicodeText → Option Bytes
  epochSecs : Nat

/-- Why a manifest is not written. -/
inductive ManifestWriteError where
  | previousUnreadable
  | fileUnreadable (file : UnicodeText)
  | missingHash (file : UnicodeText)
  | keyUnreadable (path : UnicodeText)

section Write

variable (crypto : Crypto) (fromSlice : Bytes → Option UnicodeJson)

/-- The string at a key. -/
def UnicodeJson.textAt
    (key : CodePoints) : UnicodeJson → Option UnicodeText
  | ⟨.object fields, hscalar⟩ =>
      match hlookup : lookup key fields with
      | some (.string s) => some
          ⟨s, Json.allTexts_string.mp
            (Json.allTexts_object.mp hscalar _ (Json.mem_of_lookup hlookup)).2⟩
      | _ => none
  | _ => none

/-- `previous_manifest_digest` of bytes that were read. -/
def previousManifestDigest (bytes : Bytes) : UnicodeText :=
  ((fromSlice bytes).bind (UnicodeJson.textAt (codePoints "manifest_sha256"))).getD
    (sha256Hex crypto bytes)

/-- The digest of the manifest that is replaced. -/
def replacedDigest (input : AuditManifestWriteInput) :
    Except ManifestWriteError (Option UnicodeText) :=
  match input.existing with
  | none => .ok none
  | some none => .error .previousUnreadable
  | some (some bytes) => .ok (some (previousManifestDigest crypto fromSlice bytes))

/-- The ids of the edits of each file, the files in their order. -/
def byFile (edits : List ManifestEdit) : List (UnicodeText × List UnicodeText) :=
  (sortDedup UnicodeText.codes (edits.map ManifestEdit.file)).map fun file =>
    (file, (edits.filter fun edit => edit.file = file).map ManifestEdit.id)

/-- The entry of a file. -/
def manifestFile
    (input : AuditManifestWriteInput)
    (group : UnicodeText × List UnicodeText) :
    Except ManifestWriteError RewriteAuditManifestFile :=
  match input.readFile group.1 with
  | none => .error (.fileUnreadable group.1)
  | some afterBytes =>
      match input.beforeHashes group.1 with
      | none => .error (.missingHash group.1)
      | some beforeSha256 =>
          .ok ⟨group.1, group.2, beforeSha256, sha256Hex crypto afterBytes⟩

/-- The manifest before its digest. -/
def unsignedManifest
    (input : AuditManifestWriteInput)
    (previous : Option UnicodeText)
    (files : List RewriteAuditManifestFile) : RewriteAuditManifest where
  version := 1
  kind := .ofString "rewrite-audit-manifest"
  createdAt := epochSecondsToIso8601Utc input.epochSecs
  lang := input.lang
  path := input.rootPath
  planTotalEdits := input.planTotalEdits
  appliedEditIds := input.edits.map ManifestEdit.id
  previousManifestSha256 := previous
  checkpoint := input.checkpoint
  validation := input.validation
  files := files
  manifestSha256 := none
  signature := none

/-- The signature over canonical bytes. -/
def signManifest
    (canonical : Bytes) :
    Option SigningKey → Except ManifestWriteError (Option AuditManifestSignature)
  | none => .ok none
  | some ⟨path, none⟩ => .error (.keyUnreadable path)
  | some ⟨path, some key⟩ => .ok (some
      { kind := .ofString "hmac-sha256"
        keyPath := path
        value := ⟨hexText (crypto.hmacSha256 key canonical), (plainCodes_hexText _).scalar⟩ })

/-- `write_audit_manifest_for_plan`: the manifest that is written. -/
def writeAuditManifestForPlan
    (input : AuditManifestWriteInput) : Except ManifestWriteError RewriteAuditManifest := do
  let previous ← replacedDigest crypto fromSlice input
  let files ← (byFile input.edits).mapM (manifestFile crypto input)
  let manifest := unsignedManifest input previous files
  let signature ← signManifest crypto manifest.canonicalBytes input.signingKey
  return { manifest with
    manifestSha256 := some (sha256Hex crypto manifest.canonicalBytes)
    signature := signature }

end Write

/-! ## The native verifier -/

/-- `AuditManifestSignatureRead`. -/
structure AuditManifestSignatureRead where
  kind : CodePoints
  keyPath : CodePoints
  value : CodePoints

/-- `RewriteAuditManifestRead`. -/
structure RewriteAuditManifestRead where
  kind : CodePoints
  previousManifestSha256 : Option CodePoints
  manifestSha256 : Option CodePoints
  signature : Option AuditManifestSignatureRead

/-- A string that has to be there. -/
def readText
    (key : CodePoints)
    (fields : Fields) : Option CodePoints :=
  match lookup key fields with
  | some (.string s) => some s
  | _ => none

/-- A string that may be missing or null. -/
def readOptionalText
    (key : CodePoints)
    (fields : Fields) : Option (Option CodePoints) :=
  match present (lookup key fields) with
  | none => some none
  | some (.string s) => some (some s)
  | some _ => none

/-- A signature, written as an object or as the sequence of its fields. -/
def readSignature : Json → Option AuditManifestSignatureRead
  | .object fields => do
      let kind ← readText (codePoints "kind") fields
      let keyPath ← readText (codePoints "key_path") fields
      let value ← readText (codePoints "value") fields
      return ⟨kind, keyPath, value⟩
  | .array [.string kind, .string keyPath, .string value] => some ⟨kind, keyPath, value⟩
  | _ => none

/-- What is read of a manifest. -/
def readManifest (fields : Fields) : Option RewriteAuditManifestRead := do
  let kind ← readText (codePoints "kind") fields
  let previous ← readOptionalText (codePoints "previous_manifest_sha256") fields
  let sha ← readOptionalText (codePoints "manifest_sha256") fields
  let signature ←
    match present (lookup (codePoints "signature") fields) with
    | none => some none
    | some v => (readSignature v).map some
  return ⟨kind, previous, sha, signature⟩

/-- Why a manifest cannot be verified. -/
inductive NativeVerifyError where
  | notAManifest
  | previousUnreadable
  | keyUnreadable
deriving DecidableEq

/-- The verdict of the native verifier. -/
structure NativeManifestVerdict where
  digestValid : Bool
  chainValid : Bool
  signatureValid : Bool
  kind : CodePoints
  manifestSha256 : Option CodePoints
  previousManifestSha256 : Option CodePoints
  signatureKind : Option CodePoints
  errors : List ManifestError

/-- `valid` of the verdict. -/
def NativeManifestVerdict.valid (v : NativeManifestVerdict) : Bool :=
  v.digestValid && v.chainValid && v.signatureValid

/-- The texts of the errors, where they are not those of `ManifestError.message`. -/
def ManifestError.nativeMessage : ManifestError → CodePoints
  | .unsupportedKind kind => codePoints "Unsupported signature kind: " ++ kind
  | .noSigningKey =>
      codePoints ("Manifest is hmac-sha256 signed but no --signing-key was provided; " ++
        "refusing to trust the key_path embedded in the manifest.")
  | e => e.message

section NativeVerify

variable (crypto : Crypto) (fromSlice : Bytes → Option UnicodeJson)

/-- The chain check, where `previous` has the bytes of the named previous manifest. -/
def checkNativeChain
    (claimed : Option CodePoints)
    (previous : Option Bytes) : Option ManifestError :=
  match claimed with
  | none => none
  | some digest =>
      match previous with
      | none => some .noPreviousManifest
      | some bytes =>
          if digest = (previousManifestDigest crypto fromSlice bytes).codes then none
          else some .previousMismatch

/-- The signature check, where `key` has the bytes of the named key. -/
def checkNativeSignature
    (canonical : Bytes)
    (signature : Option AuditManifestSignatureRead)
    (key : Option Bytes) : Option ManifestError :=
  match signature with
  | none => if key.isSome then some .unsigned else none
  | some signature =>
      if signature.kind ≠ codePoints "hmac-sha256" then some (.unsupportedKind signature.kind)
      else
        match key with
        | none => some .noSigningKey
        | some bytes =>
            if hexText (crypto.hmacSha256 bytes canonical) = signature.value then none
            else some .signatureMismatch

/-- The bytes of a file that may have been named. -/
def namedBytes
    (unreadable : NativeVerifyError) :
    Option (Option Bytes) → Except NativeVerifyError (Option Bytes)
  | none => .ok none
  | some none => .error unreadable
  | some (some bytes) => .ok (some bytes)

/-- A manifest file as an object, and what is read of it. -/
def parseManifest
    (manifestBytes : Bytes) : Except NativeVerifyError (Fields × RewriteAuditManifestRead) :=
  match fromSlice manifestBytes with
  | some ⟨.object fields, _⟩ =>
      match readManifest fields with
      | some manifest => .ok (fields, manifest)
      | none => .error .notAManifest
  | _ => .error .notAManifest

/-- `verify_audit_manifest_payload`. -/
def verifyAuditManifestPayload
    (manifestBytes : Bytes)
    (key previous : Option (Option Bytes)) :
    Except NativeVerifyError NativeManifestVerdict := do
  let (fields, manifest) ← parseManifest fromSlice manifestBytes
  let canonical := toVecPretty
    (.object (without [codePoints "manifest_sha256", codePoints "signature"] fields))
  let digestValid := decide (manifest.manifestSha256 = some (sha256Hex crypto canonical).codes)
  let previousBytes ← namedBytes .previousUnreadable previous
  let chainError := checkNativeChain crypto fromSlice manifest.previousManifestSha256 previousBytes
  let keyBytes ← namedBytes .keyUnreadable key
  let signatureError := checkNativeSignature crypto canonical manifest.signature keyBytes
  return {
    digestValid := digestValid
    chainValid := chainError.isNone
    signatureValid := signatureError.isNone
    kind := manifest.kind
    manifestSha256 := manifest.manifestSha256
    previousManifestSha256 := manifest.previousManifestSha256
    signatureKind := manifest.signature.map AuditManifestSignatureRead.kind
    errors := (if digestValid then [] else [.digestMismatch]) ++ chainError.toList ++
      signatureError.toList }

end NativeVerify

/-! ## The canonical texts of a written manifest -/

section Canonical

variable {P : CodePoints → Prop} {m : RewriteAuditManifest}

/-- The constants of the tool are plain. -/
theorem plainCodes_keys
    (keys : List String)
    (h : keys.all (fun s => s.toList.all fun c => decide (c.toNat < 0x7f)) = true) :
    ∀ k ∈ keys.map codePoints, PlainCodes k := by
  rw [List.forall_mem_map]
  intro s hs c hc
  obtain ⟨d, hd, rfl⟩ := List.mem_map.mp hc
  have hlt := of_decide_eq_true (List.all_eq_true.mp (List.all_eq_true.mp h s hs) d hd)
  rw [Fin.val_ofNat, Nat.mod_eq_of_lt (lt_trans hlt (by decide))]
  exact hlt

/-- The strings of a checkpoint. -/
def CheckpointCreateSummary.texts (c : CheckpointCreateSummary) : List UnicodeText :=
  [c.checkpointId, c.mode, c.root, c.scope, c.originalPath, c.createdAt]

/-- The strings of the result of a command. -/
def ValidationCommandResult.texts (r : ValidationCommandResult) : List UnicodeText :=
  [r.command, r.stdout, r.stderr]

/-- The strings of a validation. -/
def ValidationSummary.texts (v : ValidationSummary) : List UnicodeText :=
  v.commands.flatMap ValidationCommandResult.texts

/-- The strings of the entry of a file. -/
def RewriteAuditManifestFile.texts (f : RewriteAuditManifestFile) : List UnicodeText :=
  f.path :: f.editIds ++ [f.beforeSha256, f.afterSha256]

/-- The strings of a manifest before its digest. -/
def RewriteAuditManifest.texts (m : RewriteAuditManifest) : List UnicodeText :=
  [m.kind, m.createdAt, m.lang, m.path] ++ m.appliedEditIds ++ m.previousManifestSha256.toList ++
    m.checkpoint.toList.flatMap CheckpointCreateSummary.texts ++
    m.validation.toList.flatMap ValidationSummary.texts ++
    m.files.flatMap RewriteAuditManifestFile.texts

/-- Only the digest and the signature are not content. -/
theorem without_fields :
    without [codePoints "manifest_sha256", codePoints "signature"] m.fields =
      m.contentFields := by
  have hcontent : ∀ k ∈ m.contentFields.map Prod.fst,
      k ∉ [codePoints "manifest_sha256", codePoints "signature"] := by
    change ∀ k ∈ [codePoints "version", codePoints "kind", codePoints "created_at",
      codePoints "lang", codePoints "path", codePoints "plan_total_edits",
      codePoints "applied_edit_ids", codePoints "previous_manifest_sha256",
      codePoints "checkpoint", codePoints "validation", codePoints "files"], _
    simp
  rw [List.forall_mem_map] at hcontent
  rw [without, RewriteAuditManifest.fields, List.filter_append, List.filter_append,
    List.filter_eq_self.mpr fun f hf => decide_eq_true (hcontent f hf)]
  cases m.manifestSha256 <;> simp

/-- The canonical text of the native tool. -/
theorem canonicalBytes_eq :
    m.canonicalBytes = toVecPretty (.object m.contentFields) := by
  rw [RewriteAuditManifest.canonicalBytes, without_fields]

theorem allTexts_textToJson
    {t : UnicodeText} :
    AllTexts P t.toJson ↔ P t.codes :=
  Json.allTexts_string

theorem allTexts_textsToJson
    {ts : List UnicodeText} :
    AllTexts P (textsToJson ts) ↔ ∀ t ∈ ts, P t.codes := by
  simp [textsToJson, allTexts_textToJson]

theorem allTexts_optionToJson
    {α : Type}
    {toJson : α → Json}
    {o : Option α} :
    AllTexts P (optionToJson toJson o) ↔ ∀ a ∈ o, AllTexts P (toJson a) := by
  cases o <;> simp [optionToJson]

theorem allTexts_checkpoint
    (hplain : ∀ s, PlainCodes s → P s)
    {c : CheckpointCreateSummary} :
    AllTexts P c.toJson ↔ ∀ t ∈ c.texts, P t.codes := by
  rw [CheckpointCreateSummary.toJson, Json.allTexts_object_iff fun k hk => hplain k ?_]
  · simp [CheckpointCreateSummary.texts, allTexts_textToJson, natToJson]
  · exact plainCodes_keys ["checkpoint_id", "mode", "root", "scope", "original_path",
      "created_at", "file_count"] rfl k hk

theorem allTexts_commandResult
    (hplain : ∀ s, PlainCodes s → P s)
    {r : ValidationCommandResult} :
    AllTexts P r.toJson ↔ ∀ t ∈ r.texts, P t.codes := by
  rw [ValidationCommandResult.toJson, Json.allTexts_object_iff fun k hk => hplain k ?_]
  · have hkind : P r.kind.text.codes := by
      cases r.kind
      · exact hplain _ (plainCodes_keys ["lint"] rfl _ (List.mem_singleton_self _))
      · exact hplain _ (plainCodes_keys ["test"] rfl _ (List.mem_singleton_self _))
    simp [ValidationCommandResult.texts, allTexts_textToJson, allTexts_optionToJson, hkind]
  · exact plainCodes_keys ["kind", "command", "success", "exit_code", "stdout", "stderr"] rfl k
      hk

theorem allTexts_validation
    (hplain : ∀ s, PlainCodes s → P s)
    {v : ValidationSummary} :
    AllTexts P v.toJson ↔ ∀ t ∈ v.texts, P t.codes := by
  rw [ValidationSummary.toJson, Json.allTexts_object_iff fun k hk => hplain k ?_]
  · simp only [List.map_cons, List.map_nil, List.forall_mem_cons, Json.allTexts_bool,
      Json.allTexts_array, List.forall_mem_map, allTexts_commandResult hplain, natToJson,
      Json.allTexts_number, true_and, List.not_mem_nil, false_implies, implies_true, and_true,
      ValidationSummary.texts, List.forall_mem_flatMap]
  · exact plainCodes_keys ["success", "commands", "validation_targets_truncated",
      "validation_targets_total"] rfl k hk

theorem allTexts_manifestFile
    (hplain : ∀ s, PlainCodes s → P s)
    {f : RewriteAuditManifestFile} :
    AllTexts P f.toJson ↔ ∀ t ∈ f.texts, P t.codes := by
  rw [RewriteAuditManifestFile.toJson, Json.allTexts_object_iff fun k hk => hplain k ?_]
  · simp only [List.map_cons, List.map_nil, List.forall_mem_cons, allTexts_textToJson,
      allTexts_textsToJson, List.not_mem_nil, false_implies, implies_true, and_true,
      RewriteAuditManifestFile.texts, List.forall_mem_append, List.cons_append]
  · exact plainCodes_keys ["path", "edit_ids", "before_sha256", "after_sha256"] rfl k hk

/-- The strings of the content are constants and those of the manifest. -/
theorem allTexts_content
    (hplain : ∀ s, PlainCodes s → P s) :
    AllTexts P (.object m.contentFields) ↔ ∀ t ∈ m.texts, P t.codes := by
  rw [RewriteAuditManifest.contentFields, Json.allTexts_object_iff fun k hk => hplain k ?_]
  · simp only [List.map_cons, List.map_nil, List.forall_mem_cons, natToJson,
      Json.allTexts_number, true_and, allTexts_textToJson, allTexts_textsToJson,
      allTexts_optionToJson, allTexts_checkpoint hplain, allTexts_validation hplain,
      Json.allTexts_array, List.forall_mem_map, allTexts_manifestFile hplain, List.not_mem_nil,
      false_implies, implies_true, and_true, RewriteAuditManifest.texts, List.forall_mem_append,
      List.forall_mem_flatMap, Option.mem_toList, Option.mem_def, and_assoc]
  · exact plainCodes_keys ["version", "kind", "created_at", "lang", "path", "plan_total_edits",
      "applied_edit_ids", "previous_manifest_sha256", "checkpoint", "validation", "files"] rfl k hk

/-- All strings of a manifest file are Unicode. -/
theorem scalar_fields : AllTexts ScalarCodes (.object m.fields) := by
  have hplain : ∀ s, PlainCodes s → ScalarCodes s := fun s => PlainCodes.scalar
  have hcontent := (@allTexts_content _ m hplain).mpr fun t _ => t.scalar
  rw [Json.allTexts_object] at hcontent ⊢
  rw [RewriteAuditManifest.fields, List.forall_mem_append, List.forall_mem_append,
    List.forall_mem_map, List.forall_mem_singleton]
  refine ⟨⟨hcontent, fun sha _ => ⟨?_, allTexts_textToJson.mpr sha.scalar⟩⟩, ?_, ?_⟩
  · exact (UnicodeText.ofString "manifest_sha256").scalar
  · exact (UnicodeText.ofString "signature").scalar
  · rw [allTexts_optionToJson]
    intro signature _
    rw [AuditManifestSignature.toJson, Json.allTexts_object_iff fun k hk => hplain k ?_]
    · simp [allTexts_textToJson, signature.kind.scalar, signature.keyPath.scalar,
        signature.value.scalar]
    · exact plainCodes_keys ["kind", "key_path", "value"] rfl k hk

/-- The two canonical texts are the same exactly when the manifest has plain strings only. -/
theorem canonicalManifestBytes_eq_iff :
    canonicalManifestBytes m.fields = m.canonicalBytes ↔ ∀ t ∈ m.texts, PlainCodes t.codes := by
  have hscalar : AllTexts ScalarCodes (Json.object m.contentFields).sortKeys :=
    (Json.allTexts_sortKeys _).mpr
      ((allTexts_content fun s => PlainCodes.scalar).mpr fun t _ => t.scalar)
  rw [canonicalManifestBytes, without_fields, canonicalBytes_eq, toVecPretty, eq_comm,
    Json.render_escapeControl_eq_iff Json.plain_indented hscalar, Json.allTexts_sortKeys,
    allTexts_content fun s hs => hs]

end Canonical

/-! ## What is read of a written manifest -/

section Read

variable {m : RewriteAuditManifest} {sha : UnicodeText} {signature : Option AuditManifestSignature}

/-- What is read of a signature. -/
def AuditManifestSignature.read (s : AuditManifestSignature) : AuditManifestSignatureRead :=
  ⟨s.kind.codes, s.keyPath.codes, s.value.codes⟩

/-- A manifest with its digest and its signature. -/
def RewriteAuditManifest.complete
    (m : RewriteAuditManifest)
    (sha : UnicodeText)
    (signature : Option AuditManifestSignature) : RewriteAuditManifest :=
  { m with manifestSha256 := some sha, signature := signature }

theorem lookup_sha256 :
    lookup (codePoints "manifest_sha256") (m.complete sha signature).fields =
      some sha.toJson := by
  simp [lookup, RewriteAuditManifest.fields, RewriteAuditManifest.complete,
    RewriteAuditManifest.contentFields]

theorem lookup_signature :
    lookup (codePoints "signature") (m.complete sha signature).fields =
      some (optionToJson AuditManifestSignature.toJson signature) := by
  simp [lookup, RewriteAuditManifest.fields, RewriteAuditManifest.complete,
    RewriteAuditManifest.contentFields]

theorem readManifest_complete :
    readManifest (m.complete sha signature).fields =
      some ⟨m.kind.codes, m.previousManifestSha256.map UnicodeText.codes, some sha.codes,
        signature.map AuditManifestSignature.read⟩ := by
  have hkind : readText (codePoints "kind") (m.complete sha signature).fields =
      some m.kind.codes := rfl
  have hprevious : readOptionalText (codePoints "previous_manifest_sha256")
      (m.complete sha signature).fields =
        some (m.previousManifestSha256.map UnicodeText.codes) := by
    have hlookup : lookup (codePoints "previous_manifest_sha256")
        (m.complete sha signature).fields =
          some (optionToJson UnicodeText.toJson m.previousManifestSha256) := rfl
    rw [readOptionalText, hlookup]
    cases m.previousManifestSha256 <;> rfl
  have hsha : readOptionalText (codePoints "manifest_sha256")
      (m.complete sha signature).fields = some (some sha.codes) := by
    rw [readOptionalText, lookup_sha256]
    rfl
  rw [readManifest, hkind, hprevious, hsha, lookup_signature]
  cases signature <;> rfl

theorem parseManifest_complete
    {fromSlice : Bytes → Option UnicodeJson}
    {bytes : Bytes}
    {hscalar : AllTexts ScalarCodes (.object (m.complete sha signature).fields)}
    (hparsed : fromSlice bytes = some ⟨.object (m.complete sha signature).fields, hscalar⟩) :
    parseManifest fromSlice bytes = .ok ((m.complete sha signature).fields,
      ⟨m.kind.codes, m.previousManifestSha256.map UnicodeText.codes, some sha.codes,
        signature.map AuditManifestSignature.read⟩) := by
  rw [parseManifest, hparsed]
  dsimp only
  rw [readManifest_complete]

end Read

/-! ## Every written manifest -/

section Written

variable {crypto : Crypto} {display : Json → CodePoints} {fromSlice : Bytes → Option UnicodeJson}
  {input : AuditManifestWriteInput} {m : RewriteAuditManifest}

/-- What a manifest was made of, if it was written. -/
theorem writeAuditManifestForPlan_eq_ok
    (h : writeAuditManifestForPlan crypto fromSlice input = .ok m) :
    ∃ previous files signature, replacedDigest crypto fromSlice input = .ok previous ∧
      (byFile input.edits).mapM (manifestFile crypto input) = .ok files ∧
      signManifest crypto (unsignedManifest input previous files).canonicalBytes
        input.signingKey = .ok signature ∧
      m = (unsignedManifest input previous files).complete
        (sha256Hex crypto (unsignedManifest input previous files).canonicalBytes) signature := by
  rw [writeAuditManifestForPlan, bind_eq_ok_iff] at h
  obtain ⟨previous, hprevious, h⟩ := h
  rw [bind_eq_ok_iff] at h
  obtain ⟨files, hfiles, h⟩ := h
  dsimp only at h
  rw [bind_eq_ok_iff] at h
  obtain ⟨signature, hsignature, h⟩ := h
  cases h
  exact ⟨previous, files, signature, hprevious, hfiles, hsignature, rfl⟩

/-- All strings of the plan, of the hashes of its files, of the checkpoint, of the validation and
of the digest of the replaced manifest are plain. -/
structure PlainInput
    (crypto : Crypto)
    (fromSlice : Bytes → Option UnicodeJson)
    (input : AuditManifestWriteInput) : Prop where
  lang : PlainCodes input.lang.codes
  rootPath : PlainCodes input.rootPath.codes
  edits : ∀ edit ∈ input.edits, PlainCodes edit.id.codes ∧ PlainCodes edit.file.codes ∧
    ∀ hash ∈ input.beforeHashes edit.file, PlainCodes hash.codes
  checkpoint : ∀ c ∈ input.checkpoint, ∀ t ∈ c.texts, PlainCodes t.codes
  validation : ∀ v ∈ input.validation, ∀ t ∈ v.texts, PlainCodes t.codes
  replaced : ∀ bytes, input.existing = some (some bytes) →
    PlainCodes (previousManifestDigest crypto fromSlice bytes).codes

theorem mem_byFile
    {edits : List ManifestEdit}
    {group : UnicodeText × List UnicodeText} :
    group ∈ byFile edits ↔ ∃ edit ∈ edits,
      group = (edit.file, (edits.filter fun e => e.file = edit.file).map ManifestEdit.id) := by
  have hcodes : Function.Injective UnicodeText.codes := by
    rintro ⟨s, hs⟩ ⟨t, ht⟩ rfl
    rfl
  rw [byFile, List.mem_map]
  constructor
  · rintro ⟨file, hfile, rfl⟩
    obtain ⟨edit, hedit, rfl⟩ := List.mem_map.mp ((mem_sortDedup hcodes).mp hfile)
    exact ⟨edit, hedit, rfl⟩
  · rintro ⟨edit, hedit, rfl⟩
    exact ⟨edit.file, (mem_sortDedup hcodes).mpr (List.mem_map_of_mem hedit), rfl⟩

/-- The entry of a file names the file, the ids and the two digests. -/
theorem manifestFile_eq_ok
    {group : UnicodeText × List UnicodeText}
    {file : RewriteAuditManifestFile}
    (h : manifestFile crypto input group = .ok file) :
    ∃ hash afterBytes, input.beforeHashes group.1 = some hash ∧
      file = ⟨group.1, group.2, hash, sha256Hex crypto afterBytes⟩ := by
  rw [manifestFile] at h
  split at h
  · cases h
  next afterBytes hread =>
      split at h
      · cases h
      next hash hhash =>
          cases h
          exact ⟨hash, afterBytes, hhash, rfl⟩

/-- The entries of the files have plain strings only if the edits and the hashes have. -/
theorem plain_files_iff
    {files : List RewriteAuditManifestFile}
    (h : (byFile input.edits).mapM (manifestFile crypto input) = .ok files) :
    ((∀ edit ∈ input.edits, PlainCodes edit.id.codes) ∧
        ∀ file ∈ files, ∀ t ∈ file.texts, PlainCodes t.codes) ↔
      ∀ edit ∈ input.edits, PlainCodes edit.id.codes ∧ PlainCodes edit.file.codes ∧
        ∀ hash ∈ input.beforeHashes edit.file, PlainCodes hash.codes := by
  constructor
  · rintro ⟨hids, hfiles⟩ edit hedit
    obtain ⟨file, hfile, hentry⟩ := exists_result_of_mapM h (mem_byFile.mpr ⟨edit, hedit, rfl⟩)
    obtain ⟨hash, afterBytes, hhash, rfl⟩ := manifestFile_eq_ok hentry
    refine ⟨hids edit hedit, hfiles _ hfile edit.file List.mem_cons_self, ?_⟩
    intro hash' hhash'
    obtain rfl : hash = hash' := Option.some.inj (hhash.symm.trans hhash')
    exact hfiles _ hfile hash
      (List.mem_cons_of_mem _ (List.mem_append_right _ List.mem_cons_self))
  · intro hedits
    refine ⟨fun edit hedit => (hedits edit hedit).1, ?_⟩
    intro file hfile t ht
    obtain ⟨group, hgroup, hentry⟩ := exists_mem_of_mapM h hfile
    obtain ⟨edit, hedit, rfl⟩ := mem_byFile.mp hgroup
    obtain ⟨hash, afterBytes, hhash, rfl⟩ := manifestFile_eq_ok hentry
    simp only [RewriteAuditManifestFile.texts, List.cons_append, List.mem_cons, List.mem_append,
      List.not_mem_nil, or_false] at ht
    rcases ht with rfl | hid | rfl | rfl
    · exact (hedits edit hedit).2.1
    · obtain ⟨edit', hedit', rfl⟩ := List.mem_map.mp hid
      exact (hedits edit' (List.mem_filter.mp hedit').1).1
    · exact (hedits edit hedit).2.2 _ hhash
    · exact plainCodes_hexText _

/-- The digest of the replaced manifest is plain only if it is plain in the input. -/
theorem plain_replaced_iff
    {previous : Option UnicodeText}
    (h : replacedDigest crypto fromSlice input = .ok previous) :
    (∀ t ∈ previous, PlainCodes t.codes) ↔
      ∀ bytes, input.existing = some (some bytes) →
        PlainCodes (previousManifestDigest crypto fromSlice bytes).codes := by
  rw [replacedDigest] at h
  split at h
  next hnone =>
      cases h
      simp [hnone]
  · cases h
  next bytes hsome =>
      cases h
      simp [hsome]

/-- A written manifest has plain strings only if the input has. -/
theorem plain_written_iff
    {previous : Option UnicodeText}
    {files : List RewriteAuditManifestFile}
    (hprevious : replacedDigest crypto fromSlice input = .ok previous)
    (hfiles : (byFile input.edits).mapM (manifestFile crypto input) = .ok files) :
    (∀ t ∈ (unsignedManifest input previous files).texts, PlainCodes t.codes) ↔
      PlainInput crypto fromSlice input := by
  have hkind : PlainCodes (UnicodeText.ofString "rewrite-audit-manifest").codes :=
    plainCodes_keys ["rewrite-audit-manifest"] rfl _ (List.mem_singleton_self _)
  have htime := plainCodes_epochSeconds input.epochSecs
  simp only [RewriteAuditManifest.texts, unsignedManifest, List.forall_mem_append,
    List.forall_mem_cons, List.forall_mem_map, List.forall_mem_flatMap, Option.mem_toList,
    List.not_mem_nil, false_implies, implies_true, and_true]
  constructor
  · rintro ⟨⟨⟨⟨⟨⟨-, -, hlang, hroot⟩, hids⟩, hreplaced⟩, hcheckpoint⟩, hvalidation⟩, hentries⟩
    exact ⟨hlang, hroot, (plain_files_iff hfiles).mp ⟨hids, hentries⟩, hcheckpoint, hvalidation,
      (plain_replaced_iff hprevious).mp hreplaced⟩
  · rintro ⟨hlang, hroot, hedits, hcheckpoint, hvalidation, hreplaced⟩
    obtain ⟨hids, hentries⟩ := (plain_files_iff hfiles).mpr hedits
    exact ⟨⟨⟨⟨⟨⟨hkind, htime, hlang, hroot⟩, hids⟩, (plain_replaced_iff hprevious).mpr hreplaced⟩,
      hcheckpoint⟩, hvalidation⟩, hentries⟩

/-- The key that was given, if it could be read. -/
def SigningKey.file (key : SigningKey) : KeyFile :=
  ⟨key.path.codes, key.content⟩

/-- A signature over canonical bytes is accepted by the native tool. -/
theorem checkNativeSignature_signManifest
    {canonical : Bytes}
    {key : Option SigningKey}
    {signature : Option AuditManifestSignature}
    (h : signManifest crypto canonical key = .ok signature) :
    ∃ bytes, namedBytes .keyUnreadable (key.map SigningKey.content) = .ok bytes ∧
      checkNativeSignature crypto canonical (signature.map AuditManifestSignature.read) bytes =
        none := by
  rw [signManifest.eq_def] at h
  split at h
  · cases h
    exact ⟨none, rfl, rfl⟩
  · cases h
  next path bytes =>
      cases h
      refine ⟨some bytes, rfl, ?_⟩
      rw [Option.map_some, checkNativeSignature]
      exact (if_neg (not_not.mpr rfl)).trans (if_pos rfl)

/-- A text that was written is read as it is. -/
theorem toTextOrEmpty_toJson
    (t : UnicodeText) :
    Json.toTextOrEmpty display (some t.toJson) = t.codes := by
  rcases t with ⟨_ | ⟨c, cs⟩, h⟩ <;> rfl

/-- A signature over the canonical bytes of `verifyAuditManifest` is accepted by it. -/
theorem checkSignature_signManifest
    {sha : UnicodeText}
    {canonical : Bytes}
    {key : Option SigningKey}
    {signature : Option AuditManifestSignature}
    (h : signManifest crypto canonical key = .ok signature)
    (hsame : canonicalManifestBytes (m.complete sha signature).fields = canonical) :
    checkSignature crypto display (m.complete sha signature).fields (key.map SigningKey.file) =
      .ok none := by
  rw [signManifest.eq_def] at h
  split at h
  · cases h
    rw [checkSignature, lookup_signature]
    rfl
  · cases h
  next path bytes =>
      cases h
      refine checkSignature_of_signedUnder ⟨_, lookup_signature, ?_, ?_⟩
      · exact toTextOrEmpty_toJson _
      · rw [manifestHmac, hsame]
        exact toTextOrEmpty_toJson _

/-- With another canonical text `verifyAuditManifest` finds another HMAC. -/
theorem checkSignature_of_other_text
    {sha : UnicodeText}
    {canonical : Bytes}
    {path : UnicodeText}
    {key : Bytes}
    {signature : Option AuditManifestSignature}
    (hhmac : Function.Injective (crypto.hmacSha256 key))
    (h : signManifest crypto canonical (some ⟨path, some key⟩) = .ok signature)
    (hother : canonicalManifestBytes (m.complete sha signature).fields ≠ canonical) :
    checkSignature crypto display (m.complete sha signature).fields
        (some ⟨path.codes, some key⟩) = .ok (some .signatureMismatch) := by
  cases h
  have hdiffers : hexText (crypto.hmacSha256 key canonical) ≠
      manifestHmac crypto key (m.complete sha _).fields :=
    fun hsame => hother (hhmac (hexText_injective hsame)).symm
  rw [checkSignature_of_hmac lookup_signature (toTextOrEmpty_toJson _) (toTextOrEmpty_toJson _)
    (isAsciiText_hexText _), if_neg hdiffers]

/-- With another canonical text `verifyAuditManifest` accepts neither the digest nor the
signature, for hashes that tell texts apart. -/
theorem verifyAuditManifest_of_other_text
    {path : UnicodeText}
    {key : Bytes}
    (hsha : Function.Injective crypto.sha256)
    (hhmac : Function.Injective (crypto.hmacSha256 key))
    (hwrite : writeAuditManifestForPlan crypto fromSlice input = .ok m)
    (hkey : input.signingKey = some ⟨path, some key⟩)
    (hother : canonicalManifestBytes m.fields ≠ m.canonicalBytes)
    (previous : Option PreviousManifest) :
    (verifyAuditManifest crypto display m.fields (some ⟨path.codes, some key⟩) previous).map
        (fun verdict => (verdict.digestValid, verdict.signatureValid)) = .ok (false, false) := by
  obtain ⟨replaced, files, signature, -, -, hsign, hm⟩ := writeAuditManifestForPlan_eq_ok hwrite
  have hcanonical : m.canonicalBytes = (unsignedManifest input replaced files).canonicalBytes := by
    rw [hm, canonicalBytes_eq, canonicalBytes_eq]
    rfl
  rw [hcanonical, hm] at hother
  rw [hkey] at hsign
  have hdigest : isText (manifestDigest crypto m.fields)
      (lookup (codePoints "manifest_sha256") m.fields) = false := by
    rw [← Bool.not_eq_true, isText_iff, hm, lookup_sha256]
    intro hsame
    have hcodes := Json.string.inj (Option.some.inj hsame)
    exact hother (hsha (hexText_injective hcodes)).symm
  have hsignature := @checkSignature_of_other_text crypto display _ _ _ _ _ _ hhmac hsign hother
  rw [← hm] at hsignature
  rw [verifyAuditManifest, hdigest, hsignature]
  rfl

/-- The native verifier accepts the digest and the signature of what was written. -/
theorem verifyAuditManifestPayload_written
    (hwrite : writeAuditManifestForPlan crypto fromSlice input = .ok m)
    (hfromSlice : (fromSlice m.fileBytes).map UnicodeJson.value = some (.object m.fields))
    (previous : Option Bytes) :
    ∃ verdict, verifyAuditManifestPayload crypto fromSlice m.fileBytes
        (input.signingKey.map SigningKey.content) (previous.map some) = .ok verdict ∧
      verdict.digestValid = true ∧ verdict.signatureValid = true := by
  obtain ⟨replaced, files, signature, -, -, hsign, rfl⟩ := writeAuditManifestForPlan_eq_ok hwrite
  obtain ⟨keyBytes, hkey, hsignature⟩ := checkNativeSignature_signManifest hsign
  obtain ⟨⟨value, hscalar⟩, hparsed, rfl⟩ := Option.map_eq_some_iff.mp hfromSlice
  have hprevious : namedBytes .previousUnreadable (previous.map some) = .ok previous := by
    cases previous <;> rfl
  have hmanifest := parseManifest_complete hparsed
  refine ⟨_, bind_eq_ok_iff.mpr ⟨_, hmanifest, bind_eq_ok_iff.mpr ⟨_, hprevious,
    bind_eq_ok_iff.mpr ⟨_, hkey, rfl⟩⟩⟩, ?_, ?_⟩
  · refine decide_eq_true ?_
    rw [without_fields, canonicalBytes_eq]
    rfl
  · rw [canonicalBytes_eq] at hsignature
    rw [without_fields]
    exact Option.isNone_iff_eq_none.mpr hsignature

/-- Both verifiers accept the digest and the signature, and make the same canonical text. -/
structure VerifiesEverywhere
    (crypto : Crypto)
    (display : Json → CodePoints)
    (fromSlice : Bytes → Option UnicodeJson)
    (loads : Bytes → Option Json)
    (key : Option SigningKey)
    (m : RewriteAuditManifest) : Prop where
  native : ∀ previous : Option Bytes, ∃ verdict,
    verifyAuditManifestPayload crypto fromSlice m.fileBytes (key.map SigningKey.content)
        (previous.map some) = .ok verdict ∧
      verdict.digestValid = true ∧ verdict.signatureValid = true
  python : ∃ fields, loads m.fileBytes = some (.object fields) ∧
    canonicalManifestBytes fields = m.canonicalBytes ∧
    ∀ previous, ∃ verdict,
      verifyAuditManifest crypto display fields (key.map SigningKey.file) previous = .ok verdict ∧
        verdict.digestValid = true ∧ verdict.signatureValid = true

/-- What was written verifies everywhere exactly when all strings that went into it are plain. -/
theorem verifiesEverywhere_iff
    {loads : Bytes → Option Json}
    (hwrite : writeAuditManifestForPlan crypto fromSlice input = .ok m)
    (hfromSlice : (fromSlice m.fileBytes).map UnicodeJson.value = some (.object m.fields))
    (hloads : loads m.fileBytes = some (.object m.fields)) :
    VerifiesEverywhere crypto display fromSlice loads input.signingKey m ↔
      PlainInput crypto fromSlice input := by
  obtain ⟨replaced, files, signature, hreplaced, hfiles, hsign, hm⟩ :=
    writeAuditManifestForPlan_eq_ok hwrite
  have hplain : canonicalManifestBytes m.fields = m.canonicalBytes ↔
      PlainInput crypto fromSlice input := by
    rw [canonicalManifestBytes_eq_iff, hm]
    exact plain_written_iff hreplaced hfiles
  constructor
  · rintro ⟨-, fields, hparsed, hsame, -⟩
    rw [hloads] at hparsed
    cases hparsed
    exact hplain.mp hsame
  · intro hinput
    have hsame := hplain.mpr hinput
    refine ⟨verifyAuditManifestPayload_written hwrite hfromSlice, m.fields, hloads, hsame, ?_⟩
    intro previous
    have hcanonical : m.canonicalBytes =
        (unsignedManifest input replaced files).canonicalBytes := by
      rw [hm, canonicalBytes_eq, canonicalBytes_eq]
      rfl
    rw [hcanonical, hm] at hsame
    have hsignature := @checkSignature_signManifest crypto display _ _ _ _ _ hsign hsame
    rw [hm, verifyAuditManifest, hsignature]
    refine ⟨_, rfl, ?_, rfl⟩
    rw [isText_iff, lookup_sha256, manifestDigest, hsame]
    rfl

end Written

/-! ## Two manifests -/

/-- A digest and an HMAC that show what they were given. -/
def echoCrypto : Crypto where
  sha256 bytes := bytes
  hmacSha256 key bytes := key ++ bytes
  b64decode _ := none
  ed25519Verifies _ _ _ := false

/-- One edit of one file, under a key. -/
def oneEditInput (rootPath : String) : AuditManifestWriteInput where
  lang := .ofString "python"
  rootPath := .ofString rootPath
  edits := [⟨.ofString "e0", .ofString "/w/a.py"⟩]
  planTotalEdits := 1
  checkpoint := none
  validation := none
  beforeHashes _ := some (.ofString "00")
  signingKey := some ⟨.ofString "/k", some [1, 2]⟩
  existing := none
  readFile _ := some [0x0a]
  epochSecs := 0

/-- The manifest of the edit. -/
def oneEditManifest (rootPath : String) : RewriteAuditManifest :=
  let content := unsignedManifest (oneEditInput rootPath) none
    [⟨.ofString "/w/a.py", [.ofString "e0"], .ofString "00", sha256Hex echoCrypto [0x0a]⟩]
  content.complete (sha256Hex echoCrypto content.canonicalBytes)
    (some ⟨.ofString "hmac-sha256", .ofString "/k",
      ⟨hexText ([1, 2] ++ content.canonicalBytes), (plainCodes_hexText _).scalar⟩⟩)

theorem write_oneEdit
    (fromSlice : Bytes → Option UnicodeJson)
    (rootPath : String) :
    writeAuditManifestForPlan echoCrypto fromSlice (oneEditInput rootPath) =
      .ok (oneEditManifest rootPath) := by
  rfl

/-- A root path with a letter that is not ASCII: the manifest is written, and the other verifier
finds another digest and another HMAC. -/
theorem accented_manifest_rejected :
    writeAuditManifestForPlan echoCrypto (fun _ => none) (oneEditInput "/é") =
        .ok (oneEditManifest "/é") ∧
      (verifyAuditManifest echoCrypto (fun _ => []) (oneEditManifest "/é").fields
          (some ⟨codePoints "/k", some [1, 2]⟩) none).toOption.map
        (fun verdict => (verdict.digestValid, verdict.signatureValid)) = some (false, false) := by
  refine ⟨write_oneEdit _ _, ?_⟩
  have hother : canonicalManifestBytes (oneEditManifest "/é").fields ≠
      (oneEditManifest "/é").canonicalBytes := by
    intro hsame
    have hpath := canonicalManifestBytes_eq_iff.mp hsame (.ofString "/é")
      (List.mem_append_left _ (List.mem_append_left _ (List.mem_append_left _
        (List.mem_append_left _ (List.mem_append_left _ (by simp [oneEditManifest,
          RewriteAuditManifest.complete, unsignedManifest, oneEditInput]))))))
    -- the accented letter is not ASCII
    exact absurd (hpath 0xe9 (by decide)) (by decide)
  have hhmac : Function.Injective (echoCrypto.hmacSha256 [1, 2]) :=
    fun _ _ => List.append_cancel_left
  have hverdict := @verifyAuditManifest_of_other_text _ (fun _ => []) _ _ _ _ _ (fun _ _ => id)
    hhmac (write_oneEdit (fun _ => none) "/é") rfl hother none
  obtain ⟨verdict, hverify, hresult⟩ := map_eq_ok_iff.mp hverdict
  change (verifyAuditManifest echoCrypto _ _ (some ⟨codePoints "/k", _⟩) none) = _ at hverify
  rw [hverify, Except.toOption, Option.map_some, hresult]

/-- A parser that knows one file. -/
def knows
    {α : Type}
    (bytes : Bytes)
    (value : α) : Bytes → Option α :=
  fun given => if given = bytes then some value else none

/-- With an ASCII root path both verifiers accept the manifest. -/
theorem ascii_manifest_verifies :
    VerifiesEverywhere echoCrypto (fun _ => [])
      (knows (oneEditManifest "/w").fileBytes
        ⟨.object (oneEditManifest "/w").fields, scalar_fields⟩)
      (knows (oneEditManifest "/w").fileBytes (.object (oneEditManifest "/w").fields))
      (oneEditInput "/w").signingKey (oneEditManifest "/w") := by
  refine (verifiesEverywhere_iff (write_oneEdit _ _) ?_ (if_pos rfl)).mpr ?_
  · rw [knows, if_pos rfl]
    rfl
  · have hplain : ∀ s ∈ ["python", "/w", "e0", "/w/a.py", "00"],
        PlainCodes (UnicodeText.ofString s).codes := by
      intro s hs
      exact plainCodes_keys _ rfl _ (List.mem_map_of_mem hs)
    refine ⟨hplain "python" (by simp), hplain "/w" (by simp), ?_, ?_, ?_, ?_⟩
    · rintro edit hedit
      obtain rfl := List.mem_singleton.mp hedit
      refine ⟨hplain "e0" (by simp), hplain "/w/a.py" (by simp), ?_⟩
      rintro hash ⟨⟩
      exact hplain "00" (by simp)
    · rintro c ⟨⟩
    · rintro v ⟨⟩
    · rintro bytes ⟨⟩

end Audit
end TensorGrep
