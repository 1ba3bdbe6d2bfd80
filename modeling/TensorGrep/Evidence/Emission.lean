import TensorGrep.Kernel.PythonText
import TensorGrep.Ledger.Findings
import TensorGrep.Policy.Commands

/-!
# Building an evidence receipt

`buildEvidenceReceipt` reads up to three JSON files, a capsule, an audit manifest and
a cost file, and assembles one block for each part of the evidence.  A file that
cannot be read leaves its blocks unavailable, with the reason.  The digest of the
unsigned receipt is computed last, over the whole of it.

Path resolution, the file system, `json.loads`, git, the checkpoint store, the
symbol search and `str` of containers are parameters.
-/

namespace TensorGrep
namespace Evidence

open Kernel
open Kernel.Json (lookup without)
open Ledger (RepoIdentity optionalText wholeNumber)

/-! ## What is read -/

/-- What `Path(path).expanduser().resolve()` does. -/
inductive PathResolution where
  | resolved (path : CodePoints)
  | osError (reason : CodePoints)
  | raised

/-- What is at a resolved path: nothing, something for which `exists` raises, something that cannot
be read, or bytes. -/
inductive FileState where
  | missing
  | inaccessible
  | unreadable (reason : CodePoints)
  | bytes (contents : Bytes)

/-- What `json.loads` does: it gives a value, raises a `JSONDecodeError`, or raises something else, as
it does for a number of too many digits. -/
inductive Loads where
  | value (v : Json)
  | decodeError (reason : CodePoints)
  | raised

/-- What `load_checkpoint_metadata` does. -/
inductive CheckpointLoad where
  | metadata (fields : Fields)
  | notFound (reason : CodePoints)
  | unreadable (reason : CodePoints)
  | raised

/-- Where building a receipt raises. -/
inductive EmitError where
  | path
  | access
  | unicodeDecode
  | loads
  | checkpoint
  | previousReceipt
  | notJsonCompliant
deriving DecidableEq

/-- What building a receipt reads from outside. -/
structure EmitHost where
  crypto : Crypto
  display : Json → CodePoints
  resolve : CodePoints → PathResolution
  file : CodePoints → FileState
  loads : Text → Loads
  revision : CodePoints → RepoIdentity
  blastRadius : CodePoints → CodePoints → Except CodePoints Fields
  checkpointMetadata : CodePoints → CodePoints → CheckpointLoad
  previousDigest : CodePoints → Option CodePoints
  agentIdEnv : Option CodePoints
  modelEnv : Option CodePoints
  costJsonEnv : Option CodePoints
  createdAt : CodePoints
  packageVersion : CodePoints
  jsonOutputVersion : ℕ

/-- The arguments, for a receipt that is not to be signed; `root` is the resolved root. -/
structure EmitRequest where
  root : CodePoints
  query : Option CodePoints
  manifestPath : Option CodePoints
  capsulePath : Option CodePoints
  checkpointId : Option CodePoints
  agentId : Option CodePoints
  model : Option CodePoints
  costJsonPath : Option CodePoints
  recompute : Bool
  previousReceiptPath : Option CodePoints

/-! ## Small helpers -/

/-- A field of an object. -/
def field
    (name : String)
    (v : Json) : CodePoints × Json :=
  (codePoints name, v)

/-- `fields.get(name)`. -/
def get
    (name : String)
    (fields : Fields) : Json :=
  (lookup (codePoints name) fields).getD .null

/-- A text literal. -/
def literal (s : String) : Json :=
  .string (codePoints s)

/-- `_as_dict`. -/
def asDict : Json → Option Fields
  | .object fields => some fields
  | _ => none

/-- `_as_list_of_dicts`. -/
def asListOfDicts : Json → List Fields
  | .array items => items.filterMap asDict
  | _ => []

/-- `v if isinstance(v, list) else []`. -/
def listOrEmpty : Json → Json
  | .array items => .array items
  | _ => .array []

/-- `text or fallback`. -/
def textOr
    (text : Option CodePoints)
    (fallback : String) : Json :=
  match text with
  | some (c :: rest) => .string (c :: rest)
  | _ => literal fallback

/-- The two first fields of a block that is not available. -/
def unavailable (reason : Json) : Fields :=
  [field "status" (literal "unavailable"), field "reason" reason]

/-- `str.strip`, and nothing for a text of white space. -/
def stripped (text : CodePoints) : Option CodePoints :=
  match ((text.dropWhile isSpaceCode).reverse.dropWhile isSpaceCode).reverse with
  | [] => none
  | c :: rest => some (c :: rest)

/-- `_resolve_caller_str`. -/
def resolveCallerStr
    (flag env : Option CodePoints) : Option CodePoints :=
  match flag with
  | some text => stripped text
  | none => env.bind stripped

/-- `_resolve_caller_path`. -/
def resolveCallerPath
    (flag env : Option CodePoints) : Option CodePoints :=
  match flag with
  | some path => some path
  | none =>
      match env with
      | some (c :: rest) => some (c :: rest)
      | _ => none

/-- `_read_optional_json_file`: the object and the reason why there is none. -/
def readOptionalJsonFile
    (host : EmitHost)
    (path : Option CodePoints)
    (description : String) : Except EmitError (Option Fields × Option CodePoints) :=
  match path with
  | none => .ok (none, none)
  | some path =>
      match host.resolve path with
      | .raised => .error .path
      | .osError reason =>
          .ok (none, some (codePoints (description ++ " path could not be resolved: ") ++ reason))
      | .resolved resolved =>
          match host.file resolved with
          | .missing => .ok (none, some (codePoints (description ++ " not found: ") ++ resolved))
          | .inaccessible => .error .access
          | .unreadable reason =>
              .ok (none, some (codePoints (description ++ " could not be read: ") ++ reason))
          | .bytes contents =>
              match fromUtf8 contents with
              | none => .error .unicodeDecode
              | some text =>
                  match host.loads (universalNewlines text) with
                  | .raised => .error .loads
                  | .decodeError reason =>
                      .ok (none, some (codePoints (description ++ " is not valid JSON: ") ++ reason))
                  | .value (.object fields) => .ok (some fields, none)
                  | .value _ =>
                      .ok (none, some (codePoints (description ++ " must be a JSON object.")))

/-! ## The blocks -/

/-- `_capsule_files_selected`. -/
def capsuleFilesSelected (capsule : Fields) : List Json :=
  let targets := ((asDict (get "primary_target" capsule)).toList ++
    asListOfDicts (get "alternative_targets" capsule)) ++ asListOfDicts (get "snippets" capsule)
  let files := targets.filterMap fun target =>
    match get "file" target with
    | .string (c :: rest) => some (c :: rest)
    | _ => none
  files.eraseDups.map .string

/-- The part of `_completeness_block` about a capsule. -/
def capsuleCompleteness (capsule : Fields) : Fields :=
  [field "result_incomplete" (.bool (get "result_incomplete" capsule).truthy),
    field "truncated" (.bool (get "partial" capsule).truthy)] ++
    ((asDict (get "scan_limit" capsule)).map fun limit =>
      field "scan_limit" (.object limit)).toList ++
    ((asDict (get "deadline_limit" capsule)).map fun limit =>
      field "deadline_limit" (.object limit)).toList

/-- The part of `_completeness_block` about a manifest. -/
def manifestCompleteness (manifest : Fields) : Fields :=
  ((asDict (get "validation" manifest)).map fun validation =>
    field "validation_targets_truncated" (get "validation_targets_truncated" validation)).toList

/-- `_completeness_block`. -/
def completenessBlock
    (capsule manifest : Option Fields) : Fields :=
  if capsule.isNone && manifest.isNone then
    unavailable (literal "no --capsule or --manifest provided")
  else
    field "status" (literal "present") ::
      ((capsule.map capsuleCompleteness).getD [] ++ (manifest.map manifestCompleteness).getD [])

/-- The part of `_scope_block` about a capsule. -/
def capsuleScope
    (capsule : Option Fields)
    (capsuleError : Option CodePoints) : Fields :=
  match capsule with
  | none => unavailable (textOr capsuleError "no --capsule provided") ++
      [field "files_selected" .null, field "files_omitted_count" .null]
  | some capsule =>
      [field "status" (literal "present"),
        field "files_selected" (.array (capsuleFilesSelected capsule)),
        field "files_omitted_count"
          (get "omitted_section_count" ((asDict (get "omissions" capsule)).getD []))]

/-- `_scope_block`. -/
def scopeBlock
    (path : CodePoints)
    (query : Option CodePoints)
    (capsule : Option Fields)
    (capsuleError : Option CodePoints)
    (manifest : Option Fields) : Fields :=
  [field "path" (.string path), field "query" (optionalText query)] ++
    capsuleScope capsule capsuleError ++
    [field "total_files" .null, field "total_matches" .null,
      field "completeness" (.object (completenessBlock capsule manifest))]

/-- A reason, where there is one. -/
def optionalReason (reason : Json) : Fields :=
  match reason with
  | .null => []
  | reason => [field "reason" reason]

/-- `_blast_radius_block_from_capsule`. -/
def blastRadiusBlockFromCapsule
    (display : Json → CodePoints)
    (capsule : Fields) : Fields :=
  match asDict (get "call_site_evidence" capsule) with
  | none => unavailable (literal "capsule has no call_site_evidence block")
  | some evidence =>
      let status := get "status" evidence
      [field "status" (if status.truthy then .string (status.toText display)
          else literal "unknown"),
        field "source" (literal "capsule"),
        field "symbol" (get "symbol" evidence),
        field "callers" (listOrEmpty (get "related_call_sites" capsule)),
        field "returned_call_sites" (get "returned_call_sites" evidence),
        field "omitted_callers" (get "omitted_call_sites" evidence),
        field "graph_trust_summary" (get "graph_trust_summary" evidence),
        field "resolution_gaps" (get "resolution_gaps" evidence),
        field "provenance" (get "provenance" evidence)] ++
        optionalReason (get "reason" evidence)

/-- `_blast_radius_block_recomputed`, from what the symbol search gives. -/
def blastRadiusBlockRecomputed
    (query : CodePoints)
    (radius : Except CodePoints Fields) : Fields :=
  match radius with
  | .error reason => unavailable (.string (codePoints "recompute failed: " ++ reason))
  | .ok payload =>
      if (get "no_match" payload).truthy then
        unavailable (literal "recompute found no definition for the given query") ++
          [field "symbol" (.string query)]
      else
        [field "status" (literal "present"),
          field "source" (literal "recomputed"),
          field "symbol" (.string query),
          field "callers" (listOrEmpty (get "callers" payload)),
          field "omitted_callers"
            (get "omitted_callers" ((asDict (get "output_limit" payload)).getD [])),
          field "graph_trust_summary" (get "graph_trust_summary" payload),
          field "resolution_gaps" (get "resolution_gaps" payload)]

/-- `_blast_radius_block`. -/
def blastRadiusBlock
    (host : EmitHost)
    (request : EmitRequest)
    (capsule : Option Fields)
    (capsuleError : Option CodePoints) : Fields :=
  if request.recompute then
    match request.query with
    | some (c :: rest) =>
        blastRadiusBlockRecomputed (c :: rest) (host.blastRadius (c :: rest) request.root)
    | _ => unavailable (literal "--recompute requested but no --query/query was given")
  else
    match capsule with
    | none =>
        unavailable (textOr capsuleError "no --capsule provided and --recompute not requested")
    | some capsule => blastRadiusBlockFromCapsule host.display capsule

/-- `_confidence_block`. -/
def confidenceBlock
    (capsule : Option Fields)
    (capsuleError : Option CodePoints) : Fields :=
  match capsule with
  | none => unavailable (textOr capsuleError "no --capsule provided")
  | some capsule =>
      let confidence := (asDict (get "confidence" capsule)).getD []
      [field "status" (literal "present"),
        field "overall" (get "overall" confidence),
        field "downgrade_reasons"
          (if confidence.isEmpty then .array [] else get "downgrade_reasons" confidence),
        field "ambiguity" (get "ambiguity" capsule),
        field "alternative_targets" (listOrEmpty (get "alternative_targets" capsule)),
        field "ask_user_before_editing" (get "ask_user_before_editing" capsule)]

/-- The part of `_validation_block` about the planned commands. -/
def plannedCommands (capsule : Option Fields) : Fields :=
  match capsule with
  | some capsule =>
      [field "planned_commands" (listOrEmpty (get "validation_commands" capsule)),
        field "suggested_validation_commands"
          (listOrEmpty (get "suggested_validation_commands" capsule)),
        field "validation_plan" (listOrEmpty (get "validation_plan" capsule))]
  | none =>
      [field "planned_commands" .null, field "suggested_validation_commands" .null,
        field "validation_plan" .null]

/-- The part of `_validation_block` about the outcome. -/
def validationOutcome (manifest : Option Fields) : Fields :=
  match manifest.bind fun manifest => asDict (get "validation" manifest) with
  | some validation =>
      [field "success" (get "success" validation),
        field "commands" (get "commands" validation),
        field "targets_truncated" (get "validation_targets_truncated" validation),
        field "targets_total" (get "validation_targets_total" validation)]
  | none =>
      [field "success" .null, field "commands" .null, field "targets_truncated" .null,
        field "targets_total" .null,
        field "outcome_reason" (literal (if manifest.isSome then
          "manifest present but has no validation block (tg run --apply was not given " ++
            "--lint-cmd/--test-cmd)"
          else "no --manifest provided; only planned commands are known"))]

/-- `_validation_block`. -/
def validationBlock
    (capsule manifest : Option Fields) : Fields :=
  if capsule.isNone && manifest.isNone then
    unavailable (literal
      "no --capsule (planned commands) or --manifest (actual outcomes) provided")
  else
    field "status" (literal "present") :: (plannedCommands capsule ++ validationOutcome manifest)

/-- `_display_command` under POSIX. -/
def displayCommand (argv : List CodePoints) : CodePoints :=
  (codePoints " ").intercalate (argv.map Policy.policyQuoteArg)

/-- `_rollback_block_from_checkpoint_summary`. -/
def rollbackBlockFromCheckpointSummary
    (display : Json → CodePoints)
    (checkpoint : Fields) : Fields :=
  let checkpointId := get "checkpoint_id" checkpoint
  let rootValue := get "root" checkpoint
  let scopeKind := get "scope" checkpoint
  let originalPath := get "original_path" checkpoint
  if !checkpointId.truthy || !rootValue.truthy then
    unavailable (literal "checkpoint block is missing checkpoint_id/root")
  else
    let isFile :=
      match scopeKind with
      | .string s => decide (s = codePoints "file")
      | _ => false
    let undoPath := if isFile && originalPath.truthy then originalPath else rootValue
    let argv := [codePoints "tg", codePoints "checkpoint", codePoints "undo",
      checkpointId.toText display, undoPath.toText display]
    [field "status" (literal "present"),
      field "checkpoint_id" checkpointId,
      field "mode" (get "mode" checkpoint),
      field "root" rootValue,
      field "scope" scopeKind,
      field "created_at" (get "created_at" checkpoint),
      field "file_count" (get "file_count" checkpoint),
      field "undo_argv" (.array (argv.map .string)),
      field "undo_command" (.string (displayCommand argv))]

/-- `_rollback_block_from_checkpoint_id`. -/
def rollbackBlockFromCheckpointId
    (display : Json → CodePoints)
    (load : CheckpointLoad) : Except EmitError Fields :=
  match load with
  | .notFound reason => .ok (unavailable (.string reason))
  | .unreadable reason =>
      .ok (unavailable (.string (codePoints "checkpoint metadata unreadable: " ++ reason)))
  | .metadata fields => .ok (rollbackBlockFromCheckpointSummary display fields)
  | .raised => .error .checkpoint

/-- The rollback that a manifest tells of. -/
def manifestRollback
    (display : Json → CodePoints)
    (manifest : Fields) : Fields :=
  match asDict (get "checkpoint" manifest) with
  | some checkpoint => rollbackBlockFromCheckpointSummary display checkpoint
  | none => unavailable (literal
      "manifest has no checkpoint block (tg run --apply was not given --checkpoint)")

/-- The part of `_changes_block` for a manifest. -/
def manifestChanges
    (display : Json → CodePoints)
    (manifest : Fields) : Fields :=
  [field "status" (literal "present"),
    field "files" (listOrEmpty (get "files" manifest)),
    field "applied_edit_ids" (listOrEmpty (get "applied_edit_ids" manifest)),
    field "plan_total_edits" (get "plan_total_edits" manifest),
    field "rollback" (.object (manifestRollback display manifest)),
    field "triggered_rollback" (.object (unavailable (literal
      ("not persisted in the audit manifest; only available in the live " ++
        "`tg run --apply` response at the time it runs"))))]

/-- `_changes_block`. -/
def changesBlock
    (host : EmitHost)
    (request : EmitRequest)
    (manifest : Option Fields)
    (manifestError : Option CodePoints) : Except EmitError Fields :=
  match manifest with
  | some manifest => .ok (manifestChanges host.display manifest)
  | none =>
      match request.checkpointId with
      | none => .ok (unavailable (textOr manifestError "no --manifest provided"))
      | some checkpointId => do
          let rollback ← rollbackBlockFromCheckpointId host.display
            (host.checkpointMetadata checkpointId request.root)
          return unavailable (literal
            "no --manifest provided; changed-files/validation-outcome unknown") ++
              [field "rollback" (.object rollback)]

/-- `_caller_block`. -/
def callerBlock
    (agentId model : Option CodePoints)
    (cost : Option Fields)
    (costError : Option CodePoints) : Fields :=
  [field "status" (literal "caller-supplied"),
    field "provenance" (literal "caller-supplied"),
    field "caller_metadata_present"
      (.bool (agentId.isSome || model.isSome || !(cost.getD []).isEmpty)),
    field "agent_id" (optionalText agentId),
    field "model" (optionalText model),
    field "cost" ((cost.map .object).getD .null)] ++
    (costError.map fun reason => field "cost_source_error" (.string reason)).toList

/-- A path as it is stored in the sources, if it is named. -/
def resolvedSource
    (host : EmitHost)
    (path : Option CodePoints) : Except EmitError Json :=
  match path with
  | none => .ok .null
  | some path =>
      match host.resolve path with
      | .resolved resolved => .ok (.string resolved)
      | _ => .error .path

/-- `capsule_source`. -/
def capsuleSource
    (capsulePath : Option CodePoints)
    (capsule : Option Fields) : Json :=
  match capsulePath with
  | none => literal "none"
  | some path =>
      .string (codePoints (if capsule.isSome then "file:" else "unavailable:") ++ path)

/-- The block of the sources. -/
def sourcesBlock
    (host : EmitHost)
    (request : EmitRequest)
    (capsule manifest : Option Fields)
    (blastRadius : Fields) : Except EmitError Fields := do
  let manifestSource ← resolvedSource host request.manifestPath
  let capsuleResolved ← resolvedSource host request.capsulePath
  let isRecomputed :=
    match get "source" blastRadius with
    | .string s => decide (s = codePoints "recomputed")
    | _ => false
  return [field "manifest_path" manifestSource,
    field "manifest_sha256" ((manifest.map (get "manifest_sha256")).getD .null),
    field "capsule_path" capsuleResolved,
    field "capsule_source" (capsuleSource request.capsulePath capsule),
    field "session_id" .null,
    field "recomputed" (.bool (request.recompute && isRecomputed))]

/-! ## The receipt -/

/-- The parts of a receipt, without its digest. -/
structure ReceiptParts where
  header : Fields
  scope : Fields
  blastRadius : Fields
  confidence : Fields
  validation : Fields
  changes : Fields
  caller : Fields
  sources : Fields
  previousReceiptSha256 : Option CodePoints

/-- A receipt with its digest. -/
structure Receipt extends ReceiptParts where
  receiptSha256 : CodePoints

/-- The receipt without its digest as a JSON object. -/
def ReceiptParts.fields (parts : ReceiptParts) : Fields :=
  parts.header ++
    [field "scope" (.object parts.scope),
      field "blast_radius" (.object parts.blastRadius),
      field "confidence" (.object parts.confidence),
      field "validation" (.object parts.validation),
      field "changes" (.object parts.changes),
      field "caller" (.object parts.caller),
      field "sources" (.object parts.sources)] ++
    (parts.previousReceiptSha256.map fun digest =>
      field "previous_receipt_sha256" (.string digest)).toList

/-- The receipt as a JSON object. -/
def Receipt.fields (receipt : Receipt) : Fields :=
  receipt.toReceiptParts.fields ++
    [field "receipt_sha256" (.string receipt.receiptSha256)]

/-- The first fields of a receipt, up to its revision. -/
def receiptHeader
    (host : EmitHost)
    (request : EmitRequest) : Fields :=
  [field "version" (wholeNumber host.jsonOutputVersion),
    field "schema_version" (wholeNumber host.jsonOutputVersion),
    field "routing_backend" (literal "EvidenceReceipt"),
    field "routing_reason" (literal "evidence-receipt-emit"),
    field "sidecar_used" (.bool false),
    field "kind" (literal "evidence-receipt"),
    field "receipt_schema_version" (wholeNumber 1),
    field "created_at" (.string host.createdAt),
    field "tool" (.object [
      field "name" (literal "tensor-grep"),
      field "version" (.string host.packageVersion),
      field "json_output_version" (wholeNumber host.jsonOutputVersion)]),
    field "revision" (host.revision request.root).toJson]

/-- The digest of the previous receipt, if one is named. -/
def previousReceiptDigest
    (host : EmitHost)
    (path : Option CodePoints) : Except EmitError (Option CodePoints) :=
  match path with
  | none => .ok none
  | some path =>
      match host.previousDigest path with
      | some digest => .ok (some digest)
      | none => .error .previousReceipt

/-- The parts of a receipt, from the three files. -/
def receiptParts
    (host : EmitHost)
    (request : EmitRequest)
    (capsule manifest cost : Option Fields × Option CodePoints) :
    Except EmitError ReceiptParts := do
  let blastRadius := blastRadiusBlock host request capsule.1 capsule.2
  let changes ← changesBlock host request manifest.1 manifest.2
  let sources ← sourcesBlock host request capsule.1 manifest.1 blastRadius
  let previous ← previousReceiptDigest host request.previousReceiptPath
  return {
    header := receiptHeader host request
    scope := scopeBlock request.root request.query capsule.1 capsule.2 manifest.1
    blastRadius := blastRadius
    confidence := confidenceBlock capsule.1 capsule.2
    validation := validationBlock capsule.1 manifest.1
    changes := changes
    caller := callerBlock (resolveCallerStr request.agentId host.agentIdEnv)
      (resolveCallerStr request.model host.modelEnv) cost.1 cost.2
    sources := sources
    previousReceiptSha256 := previous }

/-- The receipt with its digest. -/
def attachDigest
    (crypto : Crypto)
    (parts : ReceiptParts) : Except EmitError Receipt :=
  match receiptDigest crypto parts.fields with
  | .error _ => .error .notJsonCompliant
  | .ok digest => .ok { parts with receiptSha256 := digest }

/-- `build_evidence_receipt` without signing. -/
def buildEvidenceReceipt
    (host : EmitHost)
    (request : EmitRequest) : Except EmitError Receipt := do
  let capsule ← readOptionalJsonFile host request.capsulePath "Evidence capsule"
  let manifest ← readOptionalJsonFile host request.manifestPath "Audit manifest"
  let cost ← readOptionalJsonFile host
    (resolveCallerPath request.costJsonPath host.costJsonEnv) "Cost JSON"
  let parts ← receiptParts host request capsule manifest cost
  attachDigest host.crypto parts

end Evidence
end TensorGrep
