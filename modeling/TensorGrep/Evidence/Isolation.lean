import TensorGrep.Evidence.Emission

/-!
# A bad file spoils its own block only

Whether an unsigned receipt is built depends on the inputs in a few places: reading
the three files, resolving two of their paths, the checkpoint store, the previous
receipt, and the numbers in what the receipt copies from the files.  `Emits` lists
them, and `isolated_iff` says that a receipt is built exactly then, and that a file
without a JSON object then changes nothing but the reasons in its own blocks.
-/

namespace TensorGrep
namespace Evidence

open Kernel
open Kernel.Json (lookup without)
open Ledger (RepoIdentity optionalText wholeNumber)

/-! ## Reading the files -/

/-- Reading a file raises. -/
def readRaises
    (host : EmitHost)
    (path : Option CodePoints) : Bool :=
  match path with
  | none => false
  | some path =>
      match host.resolve path with
      | .raised => true
      | .osError _ => false
      | .resolved resolved =>
          match host.file resolved with
          | .missing => false
          | .inaccessible => true
          | .unreadable _ => false
          | .bytes contents =>
              match fromUtf8 contents with
              | none => true
              | some text =>
                  match host.loads (universalNewlines text) with
                  | .raised => true
                  | _ => false

/-- The JSON object in a file. -/
def artifact
    (host : EmitHost)
    (path : Option CodePoints) : Option Fields :=
  match path with
  | none => none
  | some path =>
      match host.resolve path with
      | .resolved resolved =>
          match host.file resolved with
          | .bytes contents =>
              match fromUtf8 contents with
              | none => none
              | some text =>
                  match host.loads (universalNewlines text) with
                  | .value (.object fields) => some fields
                  | _ => none
          | _ => none
      | _ => none

/-- Reading raises, or gives the object of the file. -/
theorem readOptionalJsonFile_spec
    (host : EmitHost)
    (path : Option CodePoints)
    (description : String) :
    (readRaises host path = true ∧
        ∃ e, readOptionalJsonFile host path description = .error e) ∨
      (readRaises host path = false ∧
        ∃ reason, readOptionalJsonFile host path description =
          .ok (artifact host path, reason)) := by
  cases path with
  | none => exact Or.inr ⟨rfl, none, rfl⟩
  | some path =>
      cases hpath : host.resolve path with
      | raised => simp [readRaises, readOptionalJsonFile, hpath]
      | osError reason => simp [readRaises, readOptionalJsonFile, artifact, hpath]
      | resolved resolved =>
          cases hfile : host.file resolved with
          | missing => simp [readRaises, readOptionalJsonFile, artifact, hpath, hfile]
          | inaccessible => simp [readRaises, readOptionalJsonFile, hpath, hfile]
          | unreadable reason => simp [readRaises, readOptionalJsonFile, artifact, hpath, hfile]
          | bytes contents =>
              cases htext : fromUtf8 contents with
              | none => simp [readRaises, readOptionalJsonFile, hpath, hfile, htext]
              | some text =>
                  cases hloads : host.loads (universalNewlines text) with
                  | raised => simp [readRaises, readOptionalJsonFile, hpath, hfile, htext, hloads]
                  | decodeError reason =>
                      simp [readRaises, readOptionalJsonFile, artifact, hpath, hfile, htext, hloads]
                  | value v =>
                      cases v <;>
                        simp [readRaises, readOptionalJsonFile, artifact, hpath, hfile, htext,
                          hloads]

/-! ## What a receipt copies -/

/-- The fields of an object, and none of anything else. -/
def dictFields (v : Json) : Fields :=
  (asDict v).getD []

/-- An object, or nothing. -/
def dictOrNull (v : Json) : Json :=
  ((asDict v).map .object).getD .null

/-- The values of some of the named fields. -/
def picked
    (names : List String)
    (fields : Fields) : List Json :=
  names.map fun name => get name fields

/-- The lists in some of the named fields. -/
def pickedLists
    (names : List String)
    (fields : Fields) : List Json :=
  names.map fun name => listOrEmpty (get name fields)

/-- What the block of the scope copies. -/
def scopeCopies (capsule manifest : Option Fields) : List Json :=
  (match capsule with
  | none => []
  | some capsule =>
      picked ["omitted_section_count"] (dictFields (get "omissions" capsule)) ++
        [dictOrNull (get "scan_limit" capsule), dictOrNull (get "deadline_limit" capsule)]) ++
    match manifest with
    | none => []
    | some manifest =>
        picked ["validation_targets_truncated"] (dictFields (get "validation" manifest))

/-- What the block of the callers copies from a capsule. -/
def callSiteCopies (capsule : Fields) : List Json :=
  match asDict (get "call_site_evidence" capsule) with
  | none => []
  | some evidence =>
      pickedLists ["related_call_sites"] capsule ++
        picked ["symbol", "returned_call_sites", "omitted_call_sites", "graph_trust_summary",
          "resolution_gaps", "provenance", "reason"] evidence

/-- What it copies from the result of a symbol search. -/
def radiusCopies (payload : Fields) : List Json :=
  if (get "no_match" payload).truthy then []
  else
    pickedLists ["callers"] payload ++
      picked ["omitted_callers"] (dictFields (get "output_limit" payload)) ++
      picked ["graph_trust_summary", "resolution_gaps"] payload

/-- What the block of the confidence copies. -/
def confidenceCopies (capsule : Option Fields) : List Json :=
  match capsule with
  | none => []
  | some capsule =>
      picked ["overall", "downgrade_reasons"] (dictFields (get "confidence" capsule)) ++
        picked ["ambiguity", "ask_user_before_editing"] capsule ++
        pickedLists ["alternative_targets"] capsule

/-- What the block of the validation copies. -/
def validationCopies (capsule manifest : Option Fields) : List Json :=
  (match capsule with
  | none => []
  | some capsule =>
      pickedLists ["validation_commands", "suggested_validation_commands", "validation_plan"]
        capsule) ++
    match manifest with
    | none => []
    | some manifest =>
        picked ["success", "commands", "validation_targets_truncated", "validation_targets_total"]
          (dictFields (get "validation" manifest))

/-- What a rollback block copies from a checkpoint. -/
def checkpointCopies (checkpoint : Fields) : List Json :=
  if (get "checkpoint_id" checkpoint).truthy && (get "root" checkpoint).truthy then
    picked ["checkpoint_id", "mode", "root", "scope", "created_at", "file_count"] checkpoint
  else []

/-- What the block of the changes copies from a manifest. -/
def manifestCopies (manifest : Fields) : List Json :=
  pickedLists ["files", "applied_edit_ids"] manifest ++ picked ["plan_total_edits"] manifest ++
    checkpointCopies (dictFields (get "checkpoint" manifest))

/-- What the block of the caller copies. -/
def callerCopies (cost : Option Fields) : List Json :=
  (cost.map .object).toList

/-- What the block of the sources copies. -/
def sourcesCopies (manifest : Option Fields) : List Json :=
  match manifest with
  | none => []
  | some manifest => picked ["manifest_sha256"] manifest

section Copies

variable (host : EmitHost) (request : EmitRequest)

/-- What the block of the callers copies. -/
def blastRadiusCopies (capsule : Option Fields) : List Json :=
  if request.recompute then
    match request.query with
    | some (c :: rest) =>
        match host.blastRadius (c :: rest) request.root with
        | .ok payload => radiusCopies payload
        | .error _ => []
    | _ => []
  else
    match capsule with
    | none => []
    | some capsule => callSiteCopies capsule

/-- What the block of the changes copies, from a manifest or the checkpoint named in its place. -/
def changesCopies (manifest : Option Fields) : List Json :=
  match manifest with
  | some manifest => manifestCopies manifest
  | none =>
      match request.checkpointId with
      | none => []
      | some checkpointId =>
          match host.checkpointMetadata checkpointId request.root with
          | .metadata fields => checkpointCopies fields
          | _ => []

/-- The values that a receipt copies from its inputs. -/
def copied (capsule manifest cost : Option Fields) : List Json :=
  scopeCopies capsule manifest ++ blastRadiusCopies host request capsule ++
    confidenceCopies capsule ++ validationCopies capsule manifest ++
    changesCopies host request manifest ++ callerCopies cost ++ sourcesCopies manifest

end Copies

/-! ## Numbers that JSON does not have -/

/-- The value has only numbers that JSON has. -/
def Finite (v : Json) : Prop :=
  v.nonFinite = false

/-- The fields have only numbers that JSON has. -/
def FiniteFields (fields : Fields) : Prop :=
  Json.nonFiniteFields fields = false

@[simp] theorem finite_null : Finite .null := rfl

@[simp] theorem finite_bool (b : Bool) : Finite (.bool b) := rfl

@[simp] theorem finite_string (s : CodePoints) : Finite (.string s) := rfl

@[simp] theorem finite_literal (s : String) : Finite (literal s) := rfl

@[simp] theorem finite_wholeNumber (n : ℕ) : Finite (wholeNumber n) := rfl

@[simp] theorem finite_optionalText (s : Option CodePoints) : Finite (optionalText s) := by
  cases s <;> rfl

@[simp] theorem finite_textOr (s : Option CodePoints) (fallback : String) :
    Finite (textOr s fallback) := by
  cases s with
  | none => rfl
  | some t => cases t <;> rfl

@[simp] theorem finite_object (fields : Fields) :
    Finite (.object fields) ↔ FiniteFields fields := by
  rw [Finite, Json.nonFinite, FiniteFields]

@[simp] theorem finiteFields_nil : FiniteFields [] := rfl

@[simp] theorem finiteFields_cons (name : String) (v : Json) (fields : Fields) :
    FiniteFields (field name v :: fields) ↔ Finite v ∧ FiniteFields fields := by
  rw [FiniteFields, field, Json.nonFiniteFields, Bool.or_eq_false_iff]
  rfl

@[simp] theorem finiteFields_append (fields fields' : Fields) :
    FiniteFields (fields ++ fields') ↔ FiniteFields fields ∧ FiniteFields fields' := by
  induction fields with
  | nil => simp
  | cons f fields ih =>
      rw [FiniteFields] at ih ⊢
      rw [FiniteFields, List.cons_append, Json.nonFiniteFields, Json.nonFiniteFields,
        Bool.or_eq_false_iff, Bool.or_eq_false_iff, ih, and_assoc]
      rfl

@[simp] theorem finiteFields_unavailable (reason : Json) :
    FiniteFields (unavailable reason) ↔ Finite reason := by
  simp [unavailable]

theorem finite_strings (texts : List CodePoints) :
    Finite (.array (texts.map .string)) := by
  rw [Finite, Json.nonFinite]
  induction texts with
  | nil => rfl
  | cons t texts ih => rw [List.map_cons, Json.nonFiniteItems, ih]; rfl

/-- Fields that are there if a value is an object. -/
theorem finiteFields_dict (name : String) (v : Json) :
    FiniteFields ((asDict v).map fun fields => field name (.object fields)).toList ↔
      Finite (dictOrNull v) := by
  rw [dictOrNull]
  cases asDict v <;> simp

@[simp] theorem get_nil (name : String) : get name [] = .null := rfl

@[simp] theorem finite_emptyArray : Finite (.array []) := rfl

theorem finite_orEmptyArray (name : String) (fields : Fields) :
    Finite (if fields.isEmpty then .array [] else get name fields) ↔ Finite (get name fields) := by
  cases fields <;> simp

theorem finite_capsuleFilesSelected (capsule : Fields) :
    Finite (.array (capsuleFilesSelected capsule)) :=
  finite_strings _

theorem finite_completenessBlock (capsule manifest : Option Fields) :
    FiniteFields (completenessBlock capsule manifest) ↔
      (∀ c ∈ capsule, Finite (dictOrNull (get "scan_limit" c)) ∧
        Finite (dictOrNull (get "deadline_limit" c))) ∧
        ∀ m ∈ manifest, Finite (get "validation_targets_truncated"
          (dictFields (get "validation" m))) := by
  have hcapsule : ∀ c, FiniteFields (capsuleCompleteness c) ↔
      Finite (dictOrNull (get "scan_limit" c)) ∧ Finite (dictOrNull (get "deadline_limit" c)) := by
    intro c
    rw [capsuleCompleteness, finiteFields_append, finiteFields_append, finiteFields_dict,
      finiteFields_dict]
    simp
  have hmanifest : ∀ m, FiniteFields (manifestCompleteness m) ↔
      Finite (get "validation_targets_truncated" (dictFields (get "validation" m))) := by
    intro m
    rw [manifestCompleteness, dictFields]
    cases asDict (get "validation" m) <;> simp
  cases capsule <;> cases manifest <;> simp [completenessBlock, hcapsule, hmanifest]

theorem finite_scopeBlock
    (path : CodePoints)
    (query : Option CodePoints)
    (capsule : Option Fields)
    (capsuleError : Option CodePoints)
    (manifest : Option Fields) :
    FiniteFields (scopeBlock path query capsule capsuleError manifest) ↔
      ∀ v ∈ scopeCopies capsule manifest, Finite v := by
  cases capsule <;> cases manifest <;>
    simp [scopeBlock, capsuleScope, finite_completenessBlock, scopeCopies, picked, dictFields,
      finite_capsuleFilesSelected, and_assoc]

theorem finite_optionalReason (reason : Json) :
    FiniteFields (optionalReason reason) ↔ Finite reason := by
  cases reason <;> simp [optionalReason]

theorem finite_blastRadiusBlockFromCapsule
    (display : Json → CodePoints)
    (capsule : Fields) :
    FiniteFields (blastRadiusBlockFromCapsule display capsule) ↔
      ∀ v ∈ callSiteCopies capsule, Finite v := by
  rw [blastRadiusBlockFromCapsule, callSiteCopies]
  cases asDict (get "call_site_evidence" capsule) with
  | none => simp
  | some evidence =>
      have hstatus : Finite (if (get "status" evidence).truthy then
          .string ((get "status" evidence).toText display) else literal "unknown") := by
        split <;> rfl
      simp only [finiteFields_cons, hstatus, finite_optionalReason, picked, pickedLists,
        List.map_cons, List.map_nil, List.cons_append, List.nil_append, List.forall_mem_cons,
        finite_literal, true_and, List.not_mem_nil, false_imp_iff, implies_true, and_true]
      constructor
      · rintro ⟨hsymbol, hcallers, hrest⟩
        exact ⟨hcallers, hsymbol, hrest⟩
      · rintro ⟨hcallers, hsymbol, hrest⟩
        exact ⟨hsymbol, hcallers, hrest⟩

theorem finite_blastRadiusBlock
    (host : EmitHost)
    (request : EmitRequest)
    (capsule : Option Fields)
    (capsuleError : Option CodePoints) :
    FiniteFields (blastRadiusBlock host request capsule capsuleError) ↔
      ∀ v ∈ blastRadiusCopies host request capsule, Finite v := by
  cases hrecompute : request.recompute with
  | true =>
      rcases hquery : request.query with - | - | ⟨c, rest⟩
      · simp [blastRadiusBlock, blastRadiusCopies, hrecompute, hquery]
      · simp [blastRadiusBlock, blastRadiusCopies, hrecompute, hquery]
      · cases hradius : host.blastRadius (c :: rest) request.root with
        | error reason =>
            simp [blastRadiusBlock, blastRadiusCopies, hrecompute, hquery, hradius,
              blastRadiusBlockRecomputed]
        | ok payload =>
            cases hmatch : (get "no_match" payload).truthy <;>
              simp [blastRadiusBlock, blastRadiusCopies, hrecompute, hquery, hradius,
                blastRadiusBlockRecomputed, radiusCopies, hmatch, picked, pickedLists, dictFields]
  | false =>
      cases capsule with
      | none => simp [blastRadiusBlock, blastRadiusCopies, hrecompute]
      | some capsule =>
          simp only [blastRadiusBlock, blastRadiusCopies, hrecompute, Bool.false_eq_true, if_false]
          exact finite_blastRadiusBlockFromCapsule host.display capsule

theorem finite_confidenceBlock
    (capsule : Option Fields)
    (capsuleError : Option CodePoints) :
    FiniteFields (confidenceBlock capsule capsuleError) ↔
      ∀ v ∈ confidenceCopies capsule, Finite v := by
  cases capsule with
  | none => simp [confidenceBlock, confidenceCopies]
  | some capsule =>
      simp only [confidenceBlock, finiteFields_cons, finite_orEmptyArray]
      simp [confidenceCopies, picked, pickedLists, dictFields]
      tauto

theorem finite_validationBlock (capsule manifest : Option Fields) :
    FiniteFields (validationBlock capsule manifest) ↔
      ∀ v ∈ validationCopies capsule manifest, Finite v := by
  have houtcome : FiniteFields (validationOutcome manifest) ↔
      ∀ v ∈ validationCopies none manifest, Finite v := by
    cases manifest with
    | none => simp [validationOutcome, validationCopies]
    | some manifest =>
        cases hvalidation : asDict (get "validation" manifest) <;>
          simp [validationOutcome, validationCopies, picked, dictFields, hvalidation]
  cases capsule with
  | none =>
      cases manifest with
      | none => simp [validationBlock, validationCopies]
      | some manifest => simp [validationBlock, plannedCommands, houtcome]
  | some capsule =>
      simp [validationBlock, plannedCommands, houtcome, validationCopies, pickedLists, or_imp,
        forall_and]

theorem finite_rollbackBlock
    (display : Json → CodePoints)
    (checkpoint : Fields) :
    FiniteFields (rollbackBlockFromCheckpointSummary display checkpoint) ↔
      ∀ v ∈ checkpointCopies checkpoint, Finite v := by
  rw [rollbackBlockFromCheckpointSummary, checkpointCopies]
  cases hid : (get "checkpoint_id" checkpoint).truthy with
  | false => simp
  | true =>
      cases hroot : (get "root" checkpoint).truthy with
      | false => simp
      | true =>
          simp only [Bool.not_true, Bool.or_self, Bool.false_eq_true, if_false, Bool.and_self,
            if_true, finiteFields_cons, finite_strings]
          simp [picked]

theorem finite_manifestChanges
    (display : Json → CodePoints)
    (manifest : Fields) :
    FiniteFields (manifestChanges display manifest) ↔
      ∀ v ∈ manifestCopies manifest, Finite v := by
  have hrollback : FiniteFields (manifestRollback display manifest) ↔
      ∀ v ∈ checkpointCopies (dictFields (get "checkpoint" manifest)), Finite v := by
    rw [manifestRollback, dictFields]
    cases asDict (get "checkpoint" manifest) with
    | none => simp [checkpointCopies, Json.truthy]
    | some checkpoint => exact finite_rollbackBlock display checkpoint
  simp only [manifestChanges, finiteFields_cons, finite_object, hrollback]
  simp [manifestCopies, picked, pickedLists, or_imp, forall_and]

theorem finite_changesBlock
    {host : EmitHost}
    {request : EmitRequest}
    {manifest : Option Fields}
    {manifestError : Option CodePoints}
    {changes : Fields}
    (h : changesBlock host request manifest manifestError = .ok changes) :
    FiniteFields changes ↔ ∀ v ∈ changesCopies host request manifest, Finite v := by
  cases manifest with
  | some manifest =>
      obtain rfl := Except.ok.inj h
      exact finite_manifestChanges host.display manifest
  | none =>
      cases hid : request.checkpointId with
      | none =>
          simp only [changesBlock, hid] at h
          obtain rfl := Except.ok.inj h
          simp [changesCopies, hid]
      | some checkpointId =>
          simp only [changesBlock, hid] at h
          obtain ⟨rollback, hrollback, h⟩ := bind_eq_ok_iff.mp h
          obtain rfl := Except.ok.inj h
          simp only [changesCopies, hid]
          cases hload : host.checkpointMetadata checkpointId request.root with
          | metadata fields =>
              rw [hload] at hrollback
              obtain rfl := Except.ok.inj hrollback
              simp [finite_rollbackBlock]
          | notFound reason =>
              rw [hload] at hrollback
              obtain rfl := Except.ok.inj hrollback
              simp
          | unreadable reason =>
              rw [hload] at hrollback
              obtain rfl := Except.ok.inj hrollback
              simp
          | raised => rw [hload] at hrollback; cases hrollback

theorem finite_callerBlock
    (agentId model : Option CodePoints)
    (cost : Option Fields)
    (costError : Option CodePoints) :
    FiniteFields (callerBlock agentId model cost costError) ↔ ∀ v ∈ callerCopies cost, Finite v := by
  cases cost <;> cases costError <;> simp [callerBlock, callerCopies]

theorem resolvedSource_eq_ok
    {host : EmitHost}
    {path : Option CodePoints}
    {source : Json}
    (h : resolvedSource host path = .ok source) :
    Finite source ∧ ∀ p, path = some p → ∃ resolved, host.resolve p = .resolved resolved := by
  cases path with
  | none =>
      obtain rfl := Except.ok.inj h
      simp
  | some path =>
      rw [resolvedSource] at h
      cases hpath : host.resolve path with
      | resolved resolved =>
          rw [hpath] at h
          obtain rfl := Except.ok.inj h
          simp [hpath]
      | osError reason => rw [hpath] at h; cases h
      | raised => rw [hpath] at h; cases h

theorem finite_sourcesBlock
    {host : EmitHost}
    {request : EmitRequest}
    {capsule manifest : Option Fields}
    {blastRadius sources : Fields}
    (h : sourcesBlock host request capsule manifest blastRadius = .ok sources) :
    FiniteFields sources ↔ ∀ v ∈ sourcesCopies manifest, Finite v := by
  obtain ⟨manifestSource, hmanifest, h⟩ := bind_eq_ok_iff.mp h
  obtain ⟨capsuleResolved, hcapsule, h⟩ := bind_eq_ok_iff.mp h
  obtain rfl := Except.ok.inj h
  have hsource : Finite (capsuleSource request.capsulePath capsule) := by
    cases request.capsulePath <;> rfl
  cases manifest <;>
    simp [(resolvedSource_eq_ok hmanifest).1, (resolvedSource_eq_ok hcapsule).1, hsource,
      sourcesCopies, picked]

theorem finite_revision (identity : RepoIdentity) :
    Finite identity.toJson := by
  cases identity with
  | unavailable reason => rfl
  | present commitSha branch dirty sha count => cases branch <;> rfl

/-- The numbers of a receipt are those of the values it copies. -/
theorem finite_parts
    {host : EmitHost}
    {request : EmitRequest}
    {capsule manifest cost : Option Fields × Option CodePoints}
    {parts : ReceiptParts}
    (h : receiptParts host request capsule manifest cost = .ok parts) :
    FiniteFields parts.fields ↔
      ∀ v ∈ copied host request capsule.1 manifest.1 cost.1, Finite v := by
  obtain ⟨changes, hchanges, h⟩ := bind_eq_ok_iff.mp h
  obtain ⟨sources, hsources, h⟩ := bind_eq_ok_iff.mp h
  obtain ⟨previous, hprevious, h⟩ := bind_eq_ok_iff.mp h
  obtain rfl := Except.ok.inj h
  have hheader : FiniteFields (receiptHeader host request) := by
    simp [receiptHeader, finite_revision]
  have hdigest : FiniteFields (previous.map fun digest =>
      field "previous_receipt_sha256" (.string digest)).toList := by
    cases previous <;> simp
  simp only [ReceiptParts.fields, finiteFields_append, finiteFields_cons, finite_object, hheader,
    hdigest, finite_scopeBlock, finite_blastRadiusBlock, finite_confidenceBlock,
    finite_validationBlock, finite_changesBlock hchanges, finite_callerBlock,
    finite_sourcesBlock hsources, copied, List.forall_mem_append, finiteFields_nil, true_and,
    and_true, and_assoc]

/-- The keys of a receipt without its digest. -/
def receiptKeys : List String :=
  ["version", "schema_version", "routing_backend", "routing_reason", "sidecar_used", "kind",
    "receipt_schema_version", "created_at", "tool", "revision", "scope", "blast_radius",
    "confidence", "validation", "changes", "caller", "sources", "previous_receipt_sha256"]

/-- The digest leaves no field of the receipt out. -/
theorem without_digestKeys
    {host : EmitHost}
    {request : EmitRequest}
    {parts : ReceiptParts}
    (hheader : parts.header = receiptHeader host request) :
    without [codePoints "signature", codePoints "receipt_sha256"] parts.fields = parts.fields := by
  have hother : ∀ key ∈ receiptKeys.map codePoints,
      key ∉ [codePoints "signature", codePoints "receipt_sha256"] := by
    simp [receiptKeys]
  have hkeys : ∀ key ∈ parts.fields.map Prod.fst, key ∈ receiptKeys.map codePoints := by
    rw [ReceiptParts.fields, hheader]
    cases parts.previousReceiptSha256 with
    | none =>
        exact fun key hkey => List.mem_append_left [codePoints "previous_receipt_sha256"] hkey
    | some digest => exact fun key hkey => hkey
  refine List.filter_eq_self.mpr fun f hf => decide_eq_true (hother f.1 ?_)
  exact hkeys f.1 (List.mem_map_of_mem hf)

/-- The digest can be computed if JSON has the numbers. -/
theorem receiptDigest_ok_iff
    {host : EmitHost}
    {request : EmitRequest}
    {parts : ReceiptParts}
    (hheader : parts.header = receiptHeader host request) :
    (∃ digest, receiptDigest host.crypto parts.fields = .ok digest) ↔
      FiniteFields parts.fields := by
  have hserialisable : (∃ canonical, canonicalReceiptBytes parts.fields = .ok canonical) ↔
      Serialisable parts.fields :=
    canonicalReceiptBytes_isOk_iff
  rw [Serialisable, without_digestKeys hheader] at hserialisable
  rw [← finite_object, Finite, ← hserialisable]
  constructor
  · rintro ⟨digest, h⟩
    obtain ⟨canonical, hcanonical, -⟩ := map_eq_ok_iff.mp h
    exact ⟨canonical, hcanonical⟩
  · rintro ⟨canonical, hcanonical⟩
    exact ⟨host.crypto.sha256Hex canonical, by rw [receiptDigest, hcanonical]; rfl⟩

/-! ## When a receipt is built -/

/-- The places in which the inputs decide whether a receipt is built. -/
structure Emits
    (host : EmitHost)
    (request : EmitRequest) : Prop where
  capsule : readRaises host request.capsulePath = false
  manifest : readRaises host request.manifestPath = false
  cost : readRaises host (resolveCallerPath request.costJsonPath host.costJsonEnv) = false
  capsulePath : ∀ path, request.capsulePath = some path →
    ∃ resolved, host.resolve path = .resolved resolved
  manifestPath : ∀ path, request.manifestPath = some path →
    ∃ resolved, host.resolve path = .resolved resolved
  checkpoint : artifact host request.manifestPath = none → ∀ id, request.checkpointId = some id →
    host.checkpointMetadata id request.root ≠ .raised
  previous : ∀ path, request.previousReceiptPath = some path →
    ∃ digest, host.previousDigest path = some digest
  numbers : ∀ v ∈ copied host request (artifact host request.capsulePath)
    (artifact host request.manifestPath)
    (artifact host (resolveCallerPath request.costJsonPath host.costJsonEnv)), v.nonFinite = false

theorem changesBlock_ok_iff
    (host : EmitHost)
    (request : EmitRequest)
    (manifest : Option Fields)
    (manifestError : Option CodePoints) :
    (∃ changes, changesBlock host request manifest manifestError = .ok changes) ↔
      (manifest = none → ∀ id, request.checkpointId = some id →
        host.checkpointMetadata id request.root ≠ .raised) := by
  cases manifest with
  | some manifest => exact iff_of_true ⟨_, rfl⟩ (by simp)
  | none =>
      cases hid : request.checkpointId with
      | none => simp [changesBlock, hid]
      | some checkpointId =>
          cases hload : host.checkpointMetadata checkpointId request.root <;>
            simp [changesBlock, hid, hload, rollbackBlockFromCheckpointId]

theorem resolvedSource_ok_iff
    (host : EmitHost)
    (path : Option CodePoints) :
    (∃ source, resolvedSource host path = .ok source) ↔
      ∀ p, path = some p → ∃ resolved, host.resolve p = .resolved resolved := by
  cases path with
  | none => simp [resolvedSource]
  | some path => cases hpath : host.resolve path <;> simp [resolvedSource, hpath]

theorem previousReceiptDigest_ok_iff
    (host : EmitHost)
    (path : Option CodePoints) :
    (∃ previous, previousReceiptDigest host path = .ok previous) ↔
      ∀ p, path = some p → ∃ digest, host.previousDigest p = some digest := by
  cases path with
  | none => simp [previousReceiptDigest]
  | some path => cases hpath : host.previousDigest path <;> simp [previousReceiptDigest, hpath]


/-- What the parts of a receipt are made of. -/
structure BuiltFrom
    (host : EmitHost)
    (request : EmitRequest)
    (capsule manifest cost : Option Fields × Option CodePoints)
    (parts : ReceiptParts) : Prop where
  header : parts.header = receiptHeader host request
  scope : parts.scope = scopeBlock request.root request.query capsule.1 capsule.2 manifest.1
  blastRadius : parts.blastRadius = blastRadiusBlock host request capsule.1 capsule.2
  confidence : parts.confidence = confidenceBlock capsule.1 capsule.2
  validation : parts.validation = validationBlock capsule.1 manifest.1
  changes : changesBlock host request manifest.1 manifest.2 = .ok parts.changes
  caller : parts.caller = callerBlock (resolveCallerStr request.agentId host.agentIdEnv)
    (resolveCallerStr request.model host.modelEnv) cost.1 cost.2
  sources : sourcesBlock host request capsule.1 manifest.1 parts.blastRadius = .ok parts.sources
  previous : previousReceiptDigest host request.previousReceiptPath =
    .ok parts.previousReceiptSha256

theorem receiptParts_eq_ok_iff
    {host : EmitHost}
    {request : EmitRequest}
    {capsule manifest cost : Option Fields × Option CodePoints}
    {parts : ReceiptParts} :
    receiptParts host request capsule manifest cost = .ok parts ↔
      BuiltFrom host request capsule manifest cost parts := by
  constructor
  · intro h
    obtain ⟨changes, hchanges, h⟩ := bind_eq_ok_iff.mp h
    obtain ⟨sources, hsources, h⟩ := bind_eq_ok_iff.mp h
    obtain ⟨previous, hprevious, h⟩ := bind_eq_ok_iff.mp h
    obtain rfl := Except.ok.inj h
    exact ⟨rfl, rfl, rfl, rfl, rfl, hchanges, rfl, hsources, hprevious⟩
  · intro h
    have hsources := h.sources
    rw [h.blastRadius] at hsources
    refine bind_eq_ok_iff.mpr ⟨_, h.changes, bind_eq_ok_iff.mpr ⟨_, hsources,
      bind_eq_ok_iff.mpr ⟨_, h.previous, ?_⟩⟩⟩
    rw [← h.header, ← h.scope, ← h.blastRadius, ← h.confidence, ← h.validation, ← h.caller]
    rfl

theorem sourcesBlock_ok_iff
    (host : EmitHost)
    (request : EmitRequest)
    (capsule manifest : Option Fields)
    (blastRadius : Fields) :
    (∃ sources, sourcesBlock host request capsule manifest blastRadius = .ok sources) ↔
      (∃ source, resolvedSource host request.manifestPath = .ok source) ∧
        ∃ source, resolvedSource host request.capsulePath = .ok source := by
  constructor
  · rintro ⟨sources, h⟩
    obtain ⟨manifestSource, hmanifest, h⟩ := bind_eq_ok_iff.mp h
    obtain ⟨capsuleResolved, hcapsule, -⟩ := bind_eq_ok_iff.mp h
    exact ⟨⟨_, hmanifest⟩, ⟨_, hcapsule⟩⟩
  · rintro ⟨⟨manifestSource, hmanifest⟩, ⟨capsuleResolved, hcapsule⟩⟩
    exact ⟨_, bind_eq_ok_iff.mpr ⟨_, hmanifest, bind_eq_ok_iff.mpr ⟨_, hcapsule, rfl⟩⟩⟩

/-- The reason why a file has no JSON object. -/
def readReason
    (host : EmitHost)
    (path : Option CodePoints)
    (description : String) : Option CodePoints :=
  match readOptionalJsonFile host path description with
  | .ok (_, reason) => reason
  | .error _ => none

theorem readOptionalJsonFile_eq_ok_iff
    {host : EmitHost}
    {path : Option CodePoints}
    {description : String}
    {found : Option Fields × Option CodePoints} :
    readOptionalJsonFile host path description = .ok found ↔
      readRaises host path = false ∧
        found = (artifact host path, readReason host path description) := by
  rcases readOptionalJsonFile_spec host path description with
    ⟨hraises, e, hread⟩ | ⟨hraises, reason, hread⟩
  · simp [hread, hraises]
  · simp [hread, hraises, readReason, eq_comm]

theorem attachDigest_eq_ok_iff
    {crypto : Crypto}
    {parts : ReceiptParts}
    {receipt : Receipt} :
    attachDigest crypto parts = .ok receipt ↔
      receipt.toReceiptParts = parts ∧
        receiptDigest crypto parts.fields = .ok receipt.receiptSha256 := by
  obtain ⟨parts', digest'⟩ := receipt
  rw [attachDigest]
  cases receiptDigest crypto parts.fields with
  | error e => simp
  | ok digest => simp [eq_comm]

/-- A receipt is built from the objects of the three files and the reasons where there are none. -/
theorem buildEvidenceReceipt_eq_ok_iff
    {host : EmitHost}
    {request : EmitRequest}
    {receipt : Receipt} :
    buildEvidenceReceipt host request = .ok receipt ↔
      (readRaises host request.capsulePath = false ∧
        readRaises host request.manifestPath = false ∧
        readRaises host (resolveCallerPath request.costJsonPath host.costJsonEnv) = false) ∧
      BuiltFrom host request
        (artifact host request.capsulePath,
          readReason host request.capsulePath "Evidence capsule")
        (artifact host request.manifestPath,
          readReason host request.manifestPath "Audit manifest")
        (artifact host (resolveCallerPath request.costJsonPath host.costJsonEnv),
          readReason host (resolveCallerPath request.costJsonPath host.costJsonEnv) "Cost JSON")
        receipt.toReceiptParts ∧
      receiptDigest host.crypto receipt.toReceiptParts.fields = .ok receipt.receiptSha256 := by
  constructor
  · intro h
    obtain ⟨capsule, hcapsule, h⟩ := bind_eq_ok_iff.mp h
    obtain ⟨manifest, hmanifest, h⟩ := bind_eq_ok_iff.mp h
    obtain ⟨cost, hcost, h⟩ := bind_eq_ok_iff.mp h
    obtain ⟨parts, hparts, hattach⟩ := bind_eq_ok_iff.mp h
    obtain ⟨hreadCapsule, rfl⟩ := readOptionalJsonFile_eq_ok_iff.mp hcapsule
    obtain ⟨hreadManifest, rfl⟩ := readOptionalJsonFile_eq_ok_iff.mp hmanifest
    obtain ⟨hreadCost, rfl⟩ := readOptionalJsonFile_eq_ok_iff.mp hcost
    obtain ⟨rfl, hsha⟩ := attachDigest_eq_ok_iff.mp hattach
    exact ⟨⟨hreadCapsule, hreadManifest, hreadCost⟩, receiptParts_eq_ok_iff.mp hparts, hsha⟩
  · rintro ⟨⟨hreadCapsule, hreadManifest, hreadCost⟩, hbuilt, hsha⟩
    refine bind_eq_ok_iff.mpr ⟨_, readOptionalJsonFile_eq_ok_iff.mpr ⟨hreadCapsule, rfl⟩, ?_⟩
    refine bind_eq_ok_iff.mpr ⟨_, readOptionalJsonFile_eq_ok_iff.mpr ⟨hreadManifest, rfl⟩, ?_⟩
    refine bind_eq_ok_iff.mpr ⟨_, readOptionalJsonFile_eq_ok_iff.mpr ⟨hreadCost, rfl⟩, ?_⟩
    refine bind_eq_ok_iff.mpr ⟨_, receiptParts_eq_ok_iff.mpr hbuilt, ?_⟩
    exact attachDigest_eq_ok_iff.mpr ⟨rfl, hsha⟩

/-- A receipt is built exactly if none of these places raises. -/
theorem emits_iff
    (host : EmitHost)
    (request : EmitRequest) :
    (∃ receipt, buildEvidenceReceipt host request = .ok receipt) ↔ Emits host request := by
  constructor
  · rintro ⟨receipt, h⟩
    obtain ⟨⟨hcapsule, hmanifest, hcost⟩, hbuilt, hsha⟩ := buildEvidenceReceipt_eq_ok_iff.mp h
    obtain ⟨hmanifestPath, hcapsulePath⟩ := (sourcesBlock_ok_iff _ _ _ _ _).mp ⟨_, hbuilt.sources⟩
    have hfinite := (receiptDigest_ok_iff hbuilt.header).mp ⟨_, hsha⟩
    exact {
      capsule := hcapsule
      manifest := hmanifest
      cost := hcost
      capsulePath := (resolvedSource_ok_iff _ _).mp hcapsulePath
      manifestPath := (resolvedSource_ok_iff _ _).mp hmanifestPath
      checkpoint := (changesBlock_ok_iff _ _ _ _).mp ⟨_, hbuilt.changes⟩
      previous := (previousReceiptDigest_ok_iff _ _).mp ⟨_, hbuilt.previous⟩
      numbers := (finite_parts (receiptParts_eq_ok_iff.mpr hbuilt)).mp hfinite }
  · intro h
    obtain ⟨changes, hchanges⟩ := (changesBlock_ok_iff host request
      (artifact host request.manifestPath)
      (readReason host request.manifestPath "Audit manifest")).mpr h.checkpoint
    obtain ⟨sources, hsources⟩ := (sourcesBlock_ok_iff host request
      (artifact host request.capsulePath) (artifact host request.manifestPath)
      (blastRadiusBlock host request (artifact host request.capsulePath)
        (readReason host request.capsulePath "Evidence capsule"))).mpr
          ⟨(resolvedSource_ok_iff _ _).mpr h.manifestPath,
            (resolvedSource_ok_iff _ _).mpr h.capsulePath⟩
    obtain ⟨previous, hprevious⟩ := (previousReceiptDigest_ok_iff _ _).mpr h.previous
    obtain ⟨parts, hparts⟩ : ∃ parts, receiptParts host request
        (artifact host request.capsulePath,
          readReason host request.capsulePath "Evidence capsule")
        (artifact host request.manifestPath,
          readReason host request.manifestPath "Audit manifest")
        (artifact host (resolveCallerPath request.costJsonPath host.costJsonEnv),
          readReason host (resolveCallerPath request.costJsonPath host.costJsonEnv)
            "Cost JSON") = .ok parts :=
      ⟨_, bind_eq_ok_iff.mpr ⟨_, hchanges, bind_eq_ok_iff.mpr ⟨_, hsources,
        bind_eq_ok_iff.mpr ⟨_, hprevious, rfl⟩⟩⟩⟩
    have hbuilt := receiptParts_eq_ok_iff.mp hparts
    obtain ⟨digest, hdigest⟩ := (receiptDigest_ok_iff hbuilt.header).mpr
      ((finite_parts hparts).mpr h.numbers)
    exact ⟨⟨_, digest⟩, buildEvidenceReceipt_eq_ok_iff.mpr
      ⟨⟨h.capsule, h.manifest, h.cost⟩, hbuilt, hdigest⟩⟩

/-! ## Two runs -/

/-- A block without its reason. -/
def withoutReason (block : Fields) : Fields :=
  without [codePoints "reason"] block

/-- The request without its capsule. -/
def EmitRequest.withoutCapsule (request : EmitRequest) : EmitRequest :=
  { request with capsulePath := none }

/-- The request without its manifest. -/
def EmitRequest.withoutManifest (request : EmitRequest) : EmitRequest :=
  { request with manifestPath := none }

/-- The request without its cost file. -/
def EmitRequest.withoutCost (request : EmitRequest) : EmitRequest :=
  { request with costJsonPath := none }

/-- Outside there is no cost file either. -/
def EmitHost.withoutCost (host : EmitHost) : EmitHost :=
  { host with costJsonEnv := none }

/-- The parts agree but for the reasons in the blocks of the capsule and the path of the capsule
among the sources. -/
structure SameButCapsule (parts parts' : ReceiptParts) : Prop where
  header : parts.header = parts'.header
  scope : withoutReason parts.scope = withoutReason parts'.scope
  blastRadius : withoutReason parts.blastRadius = withoutReason parts'.blastRadius
  confidence : withoutReason parts.confidence = withoutReason parts'.confidence
  validation : parts.validation = parts'.validation
  changes : parts.changes = parts'.changes
  caller : parts.caller = parts'.caller
  sources : without [codePoints "capsule_path", codePoints "capsule_source"] parts.sources =
    without [codePoints "capsule_path", codePoints "capsule_source"] parts'.sources
  previous : parts.previousReceiptSha256 = parts'.previousReceiptSha256

/-- The parts agree but for the reason in the block of the changes and the path of the manifest
among the sources. -/
structure SameButManifest (parts parts' : ReceiptParts) : Prop where
  header : parts.header = parts'.header
  scope : parts.scope = parts'.scope
  blastRadius : parts.blastRadius = parts'.blastRadius
  confidence : parts.confidence = parts'.confidence
  validation : parts.validation = parts'.validation
  changes : withoutReason parts.changes = withoutReason parts'.changes
  caller : parts.caller = parts'.caller
  sources : without [codePoints "manifest_path"] parts.sources =
    without [codePoints "manifest_path"] parts'.sources
  previous : parts.previousReceiptSha256 = parts'.previousReceiptSha256

/-- The parts agree but for the error of the cost file in the block of the caller. -/
structure SameButCost (parts parts' : ReceiptParts) : Prop where
  header : parts.header = parts'.header
  scope : parts.scope = parts'.scope
  blastRadius : parts.blastRadius = parts'.blastRadius
  confidence : parts.confidence = parts'.confidence
  validation : parts.validation = parts'.validation
  changes : parts.changes = parts'.changes
  caller : without [codePoints "cost_source_error"] parts.caller =
    without [codePoints "cost_source_error"] parts'.caller
  sources : parts.sources = parts'.sources
  previous : parts.previousReceiptSha256 = parts'.previousReceiptSha256

/-- A receipt is built, and each file that has no JSON object changes only the reasons in its own
blocks, and its own entries among the sources, against a run without it. -/
structure Isolated
    (host : EmitHost)
    (request : EmitRequest) : Prop where
  built : ∃ receipt, buildEvidenceReceipt host request = .ok receipt ∧
    receiptDigest host.crypto receipt.toReceiptParts.fields = .ok receipt.receiptSha256
  capsule : artifact host request.capsulePath = none → ∃ receipt receipt',
    buildEvidenceReceipt host request = .ok receipt ∧
      buildEvidenceReceipt host request.withoutCapsule = .ok receipt' ∧
        SameButCapsule receipt.toReceiptParts receipt'.toReceiptParts
  manifest : artifact host request.manifestPath = none → ∃ receipt receipt',
    buildEvidenceReceipt host request = .ok receipt ∧
      buildEvidenceReceipt host request.withoutManifest = .ok receipt' ∧
        SameButManifest receipt.toReceiptParts receipt'.toReceiptParts
  cost : artifact host (resolveCallerPath request.costJsonPath host.costJsonEnv) = none →
    ∃ receipt receipt', buildEvidenceReceipt host request = .ok receipt ∧
      buildEvidenceReceipt host.withoutCost request.withoutCost = .ok receipt' ∧
        SameButCost receipt.toReceiptParts receipt'.toReceiptParts

theorem withoutReason_capsuleScope
    (reason reason' : Option CodePoints) :
    withoutReason (capsuleScope none reason) = withoutReason (capsuleScope none reason') :=
  rfl

theorem withoutReason_unavailable (reason reason' : Json) :
    withoutReason (unavailable reason) = withoutReason (unavailable reason') :=
  rfl

theorem withoutReason_append (block block' : Fields) :
    withoutReason (block ++ block') = withoutReason block ++ withoutReason block' :=
  List.filter_append _ _

/-- Without a capsule the block of the callers is recomputed or not available. -/
theorem withoutReason_blastRadiusBlock
    (host : EmitHost)
    (request : EmitRequest)
    (reason reason' : Option CodePoints) :
    withoutReason (blastRadiusBlock host request none reason) =
      withoutReason (blastRadiusBlock host request.withoutCapsule none reason') := by
  cases hrecompute : request.recompute with
  | true => simp [blastRadiusBlock, EmitRequest.withoutCapsule, hrecompute]
  | false =>
      simp only [blastRadiusBlock, EmitRequest.withoutCapsule, hrecompute, Bool.false_eq_true,
        if_false]
      exact withoutReason_unavailable _ _

/-- The callers are recomputed. -/
def isRecomputed
    (request : EmitRequest)
    (blastRadius : Fields) : Bool :=
  request.recompute &&
    match get "source" blastRadius with
    | .string s => decide (s = codePoints "recomputed")
    | _ => false

theorem isRecomputed_of_none
    (host : EmitHost)
    (request : EmitRequest)
    (reason reason' : Option CodePoints) :
    isRecomputed request (blastRadiusBlock host request none reason) =
      isRecomputed request.withoutCapsule
        (blastRadiusBlock host request.withoutCapsule none reason') := by
  cases hrecompute : request.recompute with
  | true => simp [isRecomputed, blastRadiusBlock, EmitRequest.withoutCapsule, hrecompute]
  | false => simp [isRecomputed, EmitRequest.withoutCapsule, hrecompute]

/-- What the block of the sources is made of. -/
theorem sourcesBlock_eq_ok
    {host : EmitHost}
    {request : EmitRequest}
    {capsule manifest : Option Fields}
    {blastRadius sources : Fields}
    (h : sourcesBlock host request capsule manifest blastRadius = .ok sources) :
    ∃ manifestSource capsuleResolved,
      resolvedSource host request.manifestPath = .ok manifestSource ∧
        resolvedSource host request.capsulePath = .ok capsuleResolved ∧
        sources = [field "manifest_path" manifestSource,
          field "manifest_sha256" ((manifest.map (get "manifest_sha256")).getD .null),
          field "capsule_path" capsuleResolved,
          field "capsule_source" (capsuleSource request.capsulePath capsule),
          field "session_id" .null,
          field "recomputed" (.bool (isRecomputed request blastRadius))] := by
  obtain ⟨manifestSource, hmanifest, h⟩ := bind_eq_ok_iff.mp h
  obtain ⟨capsuleResolved, hcapsule, h⟩ := bind_eq_ok_iff.mp h
  exact ⟨manifestSource, capsuleResolved, hmanifest, hcapsule, (Except.ok.inj h).symm⟩

theorem sameButCapsule
    {host : EmitHost}
    {request : EmitRequest}
    {reason reason' : Option CodePoints}
    {manifest cost : Option Fields × Option CodePoints}
    {parts parts' : ReceiptParts}
    (h : BuiltFrom host request (none, reason) manifest cost parts)
    (h' : BuiltFrom host request.withoutCapsule (none, reason') manifest cost parts') :
    SameButCapsule parts parts' where
  header := h.header.trans h'.header.symm
  scope := by
    rw [h.scope, h'.scope, scopeBlock, scopeBlock, withoutReason_append, withoutReason_append,
      withoutReason_append, withoutReason_append, withoutReason_capsuleScope reason reason']
    rfl
  blastRadius := by
    rw [h.blastRadius, h'.blastRadius]
    exact withoutReason_blastRadiusBlock host request reason reason'
  confidence := by
    rw [h.confidence, h'.confidence]
    exact withoutReason_unavailable _ _
  validation := h.validation.trans h'.validation.symm
  changes := Except.ok.inj (h.changes.symm.trans h'.changes)
  caller := h.caller.trans h'.caller.symm
  sources := by
    obtain ⟨source, capsule, hsource, -, hsources⟩ := sourcesBlock_eq_ok h.sources
    obtain ⟨source', capsule', hsource', -, hsources'⟩ := sourcesBlock_eq_ok h'.sources
    obtain rfl : source = source' := Except.ok.inj (hsource.symm.trans hsource')
    rw [hsources, hsources', h.blastRadius, h'.blastRadius,
      isRecomputed_of_none host request reason reason']
    rfl
  previous := Except.ok.inj (h.previous.symm.trans h'.previous)

theorem sameButManifest
    {host : EmitHost}
    {request : EmitRequest}
    {reason reason' : Option CodePoints}
    {capsule cost : Option Fields × Option CodePoints}
    {parts parts' : ReceiptParts}
    (h : BuiltFrom host request capsule (none, reason) cost parts)
    (h' : BuiltFrom host request.withoutManifest capsule (none, reason') cost parts') :
    SameButManifest parts parts' where
  header := h.header.trans h'.header.symm
  scope := h.scope.trans h'.scope.symm
  blastRadius := h.blastRadius.trans h'.blastRadius.symm
  confidence := h.confidence.trans h'.confidence.symm
  validation := h.validation.trans h'.validation.symm
  changes := by
    have hchanges := h.changes
    have hchanges' := h'.changes
    cases hid : request.checkpointId with
    | none =>
        simp only [changesBlock, EmitRequest.withoutManifest, hid] at hchanges hchanges'
        rw [← Except.ok.inj hchanges, ← Except.ok.inj hchanges']
        exact withoutReason_unavailable _ _
    | some id =>
        simp only [changesBlock, EmitRequest.withoutManifest, hid] at hchanges hchanges'
        exact congrArg withoutReason (Except.ok.inj (hchanges.symm.trans hchanges'))
  caller := h.caller.trans h'.caller.symm
  sources := by
    obtain ⟨source, path, -, hpath, hsources⟩ := sourcesBlock_eq_ok h.sources
    obtain ⟨source', path', -, hpath', hsources'⟩ := sourcesBlock_eq_ok h'.sources
    obtain rfl : path = path' := Except.ok.inj (hpath.symm.trans hpath')
    rw [hsources, hsources', h.blastRadius, h'.blastRadius]
    rfl
  previous := Except.ok.inj (h.previous.symm.trans h'.previous)

theorem sameButCost
    {host : EmitHost}
    {request : EmitRequest}
    {reason reason' : Option CodePoints}
    {capsule manifest : Option Fields × Option CodePoints}
    {parts parts' : ReceiptParts}
    (h : BuiltFrom host request capsule manifest (none, reason) parts)
    (h' : BuiltFrom host.withoutCost request.withoutCost capsule manifest (none, reason') parts') :
    SameButCost parts parts' where
  header := h.header.trans h'.header.symm
  scope := h.scope.trans h'.scope.symm
  blastRadius := h.blastRadius.trans h'.blastRadius.symm
  confidence := h.confidence.trans h'.confidence.symm
  validation := h.validation.trans h'.validation.symm
  changes := Except.ok.inj (h.changes.symm.trans h'.changes)
  caller := by
    rw [h.caller, h'.caller, callerBlock, callerBlock, without, without, List.filter_append,
      List.filter_append]
    congr 1
    cases reason <;> cases reason' <;> rfl
  sources := by
    have hsources' := h'.sources
    rw [h'.blastRadius] at hsources'
    have hsources := h.sources
    rw [h.blastRadius] at hsources
    exact Except.ok.inj (hsources.symm.trans hsources')
  previous := Except.ok.inj (h.previous.symm.trans h'.previous)

/-- A receipt is built, and a bad file spoils its own blocks only, exactly if none of the places at
which building can raise does. -/
theorem isolated_iff
    (host : EmitHost)
    (request : EmitRequest) :
    Isolated host request ↔ Emits host request := by
  constructor
  · intro h
    obtain ⟨receipt, hbuild, -⟩ := h.built
    exact (emits_iff host request).mp ⟨receipt, hbuild⟩
  · intro h
    obtain ⟨receipt, hbuild⟩ := (emits_iff host request).mpr h
    obtain ⟨-, hbuilt, hsha⟩ := buildEvidenceReceipt_eq_ok_iff.mp hbuild
    refine ⟨⟨receipt, hbuild, hsha⟩, ?_, ?_, ?_⟩
    · intro hnone
      have hemits : Emits host request.withoutCapsule := {
        h with
        capsule := rfl
        capsulePath := fun path hpath => by cases hpath
        numbers := by
          have hnumbers := h.numbers
          rw [hnone] at hnumbers
          exact hnumbers }
      obtain ⟨receipt', hbuild'⟩ := (emits_iff host _).mpr hemits
      obtain ⟨-, hbuilt', -⟩ := buildEvidenceReceipt_eq_ok_iff.mp hbuild'
      rw [hnone] at hbuilt
      exact ⟨receipt, receipt', hbuild, hbuild', sameButCapsule hbuilt hbuilt'⟩
    · intro hnone
      have hemits : Emits host request.withoutManifest := {
        h with
        manifest := rfl
        manifestPath := fun path hpath => by cases hpath
        checkpoint := fun _ => h.checkpoint hnone
        numbers := by
          have hnumbers := h.numbers
          rw [hnone] at hnumbers
          exact hnumbers }
      obtain ⟨receipt', hbuild'⟩ := (emits_iff host _).mpr hemits
      obtain ⟨-, hbuilt', -⟩ := buildEvidenceReceipt_eq_ok_iff.mp hbuild'
      rw [hnone] at hbuilt
      exact ⟨receipt, receipt', hbuild, hbuild', sameButManifest hbuilt hbuilt'⟩
    · intro hnone
      have hemits : Emits host.withoutCost request.withoutCost := {
        h with
        cost := rfl
        numbers := by
          have hnumbers := h.numbers
          rw [hnone] at hnumbers
          exact hnumbers }
      obtain ⟨receipt', hbuild'⟩ := (emits_iff _ _).mpr hemits
      obtain ⟨-, hbuilt', -⟩ := buildEvidenceReceipt_eq_ok_iff.mp hbuild'
      rw [hnone] at hbuilt
      exact ⟨receipt, receipt', hbuild, hbuild', sameButCost hbuilt hbuilt'⟩

/-- The text of an object with a field that is `NaN`. -/
def nanCostText : Text :=
  "\x7b\"usd\": NaN\x7d".toList

/-- A host with one file of this text. -/
def nanCostHost : EmitHost where
  crypto := ⟨id, fun key _ => key, fun _ => none, fun _ _ _ => false⟩
  display _ := []
  resolve := .resolved
  file path :=
    if path = codePoints "cost.json" then .bytes (utf8 nanCostText) else .missing
  loads _ := .value (.object [field "usd" (.number .nan)])
  revision _ := .unavailable (codePoints "not a git repository")
  blastRadius _ _ := .error []
  checkpointMetadata _ _ := .notFound []
  previousDigest _ := none
  agentIdEnv := none
  modelEnv := none
  costJsonEnv := none
  createdAt := []
  packageVersion := []
  jsonOutputVersion := 1

/-- The request for a receipt with that cost file. -/
def nanCostRequest : EmitRequest where
  root := codePoints "/repo"
  query := none
  manifestPath := none
  capsulePath := none
  checkpointId := none
  agentId := none
  model := none
  costJsonPath := some (codePoints "cost.json")
  recompute := false
  previousReceiptPath := none

/-- A cost file with `NaN` spoils the whole receipt. -/
theorem nan_cost_raises :
    ¬ Isolated nanCostHost nanCostRequest := by
  rintro ⟨⟨receipt, hbuild, -⟩, -⟩
  have hemits := (emits_iff _ _).mp ⟨receipt, hbuild⟩
  have hcost : artifact nanCostHost
      (resolveCallerPath nanCostRequest.costJsonPath nanCostHost.costJsonEnv) =
        some [field "usd" (.number .nan)] := by
    simp [artifact, resolveCallerPath, nanCostRequest, nanCostHost, fromUtf8_utf8]
  have hnan := hemits.numbers (.object [field "usd" (.number .nan)]) (by
    rw [copied, hcost]
    simp [callerCopies])
  cases hnan

end Evidence
end TensorGrep
