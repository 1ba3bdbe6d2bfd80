import TensorGrep.Evidence.Receipts
import TensorGrep.Ledger.Claims

/-!
# Findings

A finding points to an artifact that an agent has computed, so that another agent
can find and reuse it.  The artifact is stored once, in a blob named by its digest;
the findings stand in an index file.  `record_finding` writes the blob, the index
and removes blobs that no finding refers to, under a lock; `find_findings` reads
the index and then the blobs, without the lock.

The index holds JSON objects as they are read back.  Of the blob directory the
files are modelled, each by the name without `.json`.  An artifact is read with a
bound on its size and written anew, indented by two spaces.
-/

namespace TensorGrep
namespace Ledger

open Kernel
open Evidence
open Kernel.Json (lookup)

/-! ## What is read and written -/

/-- What libraries compute: hashes and signatures, the text of arrays and objects, the value
of a JSON text if it is one, the instant that a text in ISO format names. -/
structure Libraries where
  crypto : Crypto
  display : Json → CodePoints
  loads : Bytes → Option Json
  fromisoformat : CodePoints → Option Nat

/-- `_MAX_ARTIFACT_FILE_BYTES`. -/
def maxArtifactFileBytes : Nat := 8 * 1024 * 1024

/-- `_MAX_LIVE_FINDINGS`. -/
def maxLiveFindings : Nat := 512

/-- `_DEFAULT_FINDING_TTL_SECONDS`. -/
def defaultFindingTtlSeconds : Nat := 86400

/-- `_DEFAULT_MAX_TOTAL_BLOB_BYTES`. -/
def defaultMaxTotalBlobBytes : Nat := 256 * 1024 * 1024

/-- `json.dumps(payload, indent=2)`, as it is written to a file. -/
def dumpsIndented (payload : Json) : Bytes :=
  Json.render Json.indented (Json.quoted Json.escapeAscii) 0 payload

/-- The index file: its size, and its objects unless it is corrupt.  An empty file counts as
absent. -/
inductive FindingsIndex where
  | absent
  | corrupt (size : Nat)
  | entries (size : Nat) (records : List Fields)

/-- The index and the blobs. -/
structure FindingsStore where
  index : FindingsIndex
  blobs : CodePoints → Option Bytes

/-! ## Errors -/

/-- What is wrong with an artifact file or a blob. -/
inductive ReadProblem where
  | notFound
  | tooLarge
  | notJson
  | notObject
deriving DecidableEq

/-- What is wrong with a finding that is to be served. -/
inductive IntegrityProblem where
  | malformedDigest
  | blob (problem : ReadProblem)
  | mismatch
deriving DecidableEq

/-- Why a call fails. -/
inductive FindingError where
  | usage (message : CodePoints)
  | artifact (problem : ReadProblem)
  | integrity (findingId : CodePoints) (problem : IntegrityProblem)
  | indexTooLarge
  | corruptIndex
  | overflow
  | python (error : PythonError)
deriving DecidableEq

/-- The text of a problem with the file at `path`. -/
def ReadProblem.message
    (description path : CodePoints) : ReadProblem → CodePoints
  | .notFound => description ++ codePoints " not found: " ++ path
  | .tooLarge =>
      description ++ codePoints " at " ++ path ++ codePoints " exceeds the " ++
        codePoints (toString maxArtifactFileBytes) ++
        codePoints "-byte bound; refusing to read (DoS guard)."
  | .notJson => description ++ codePoints " is not valid JSON: "
  | .notObject => description ++ codePoints " must be a JSON object."

/-- The text of an integrity error, for the blob at `path`. -/
def IntegrityProblem.message
    (findingId path : CodePoints) : IntegrityProblem → CodePoints
  | .malformedDigest =>
      codePoints "Finding " ++ findingId ++
        codePoints (" has a malformed receipt_sha256 on record (not a 64-char " ++
          "hex sha256 digest) -- refusing to derive a blob path from it.")
  | .blob problem => problem.message (codePoints "Finding blob for " ++ findingId) path
  | .mismatch =>
      codePoints "Finding " ++ findingId ++
        codePoints (" blob content does not match its recorded receipt_sha256 " ++
          "(tampered or corrupted).")

/-! ## Preparing a finding -/

/-- What `_repo_revision_identity` says of the repository, its ledger left out. -/
inductive RepoIdentity where
  | unavailable (reason : CodePoints)
  | present (commitSha : CodePoints) (branch : Option CodePoints) (dirty : Bool)
      (dirtyTreeSha256 : CodePoints) (dirtyFileCount : Nat)

/-- A text, or nothing. -/
def optionalText (s : Option CodePoints) : Json :=
  match s with
  | some s => .string s
  | none => .null

/-- A whole number. -/
def wholeNumber (n : Nat) : Json :=
  .number (.int n)

/-- The fields of an identity that is known. -/
def presentFields
    (commitSha : CodePoints)
    (branch : Option CodePoints)
    (dirty : Bool)
    (dirtyTreeSha256 : CodePoints)
    (dirtyFileCount : Nat) : Fields := [
  (codePoints "status", .string (codePoints "present")),
  (codePoints "commit_sha", .string commitSha),
  (codePoints "branch", optionalText branch),
  (codePoints "dirty", .bool dirty),
  (codePoints "dirty_tree_sha256", .string dirtyTreeSha256),
  (codePoints "dirty_file_count", wholeNumber dirtyFileCount)]

/-- The identity as a JSON object. -/
def RepoIdentity.toJson : RepoIdentity → Json
  | .unavailable reason =>
      .object [
        (codePoints "status", .string (codePoints "unavailable")),
        (codePoints "reason", .string reason)]
  | .present commitSha branch dirty dirtyTreeSha256 dirtyFileCount =>
      .object (presentFields commitSha branch dirty dirtyTreeSha256 dirtyFileCount)

/-- `FindingRecord`; the times are instants. -/
structure FindingRecord where
  findingId : CodePoints
  agentId : String
  artifactKind : CodePoints
  symbol : Option CodePoints
  receiptSha256 : CodePoints
  blobRelpath : CodePoints
  signed : Bool
  keyId : Option CodePoints
  revision : RepoIdentity
  createdAt : Nat
  expiresAt : Nat
  ttlSeconds : Nat

/-- `to_dict`. -/
def FindingRecord.toDict (r : FindingRecord) : Fields := [
  (codePoints "ledger_schema_version", wholeNumber 1),
  (codePoints "kind", .string (codePoints "finding")),
  (codePoints "finding_id", .string r.findingId),
  (codePoints "agent_id", .string (codePoints r.agentId)),
  (codePoints "artifact_kind", .string r.artifactKind),
  (codePoints "symbol", optionalText r.symbol),
  (codePoints "receipt_sha256", .string r.receiptSha256),
  (codePoints "blob_relpath", .string r.blobRelpath),
  (codePoints "signed", .bool r.signed),
  (codePoints "key_id", optionalText r.keyId),
  (codePoints "revision", r.revision.toJson),
  (codePoints "created_at", .string (codePoints (isoformat r.createdAt))),
  (codePoints "expires_at", .string (codePoints (isoformat r.expiresAt))),
  (codePoints "ttl_seconds", wholeNumber r.ttlSeconds)]

/-- The environment variables that a call reads; two of them are the numbers that they spell,
if they spell one. -/
structure FindingEnvironment where
  agent : Environment
  ttl : Option Int
  maxBlobBytes : Option Int

/-- `_configured_positive_int`. -/
def configuredPositiveInt
    (value : Option Int)
    (default : Nat) : Nat :=
  match value with
  | some value => if 0 < value then value.toNat else default
  | none => default

/-- `_configured_finding_ttl_seconds`. -/
def configuredFindingTtlSeconds
    (env : FindingEnvironment)
    (explicit : Option Int) : Nat :=
  match explicit with
  | some ttl => (max 1 ttl).toNat
  | none => configuredPositiveInt env.ttl defaultFindingTtlSeconds

/-- `_configured_max_total_blob_bytes`. -/
def configuredMaxTotalBlobBytes (env : FindingEnvironment) : Nat :=
  configuredPositiveInt env.maxBlobBytes defaultMaxTotalBlobBytes

/-- `_read_bounded_file_bytes` and `_parse_artifact_bytes`, for a file with these bytes. -/
def readArtifact
    (lib : Libraries)
    (file : Option Bytes) : Except ReadProblem Fields :=
  match file with
  | none => .error .notFound
  | some raw =>
      if maxArtifactFileBytes < raw.length then .error .tooLarge
      else
        match lib.loads raw with
        | none => .error .notJson
        | some (.object fields) => .ok fields
        | some _ => .error .notObject

/-- `_VALID_ARTIFACT_KINDS`, sorted. -/
def validArtifactKinds : List CodePoints :=
  ["blast-radius", "context-pack", "evidence-receipt", "repo-map"].map codePoints

/-- `_blob_relpath`. -/
def blobRelpath (sha256 : CodePoints) : CodePoints :=
  codePoints "findings/blobs/" ++ sha256 ++ codePoints ".json"

/-- The arguments of `record_finding`. -/
structure RecordArgs where
  receiptPath : Option CodePoints
  artifactKind : CodePoints
  symbol : Option CodePoints
  agentId : Option String
  ttlSeconds : Option Int

/-- What `record_finding` finds out before it asks for the lock, apart from its arguments: the
environment, the file at the receipt path, the new id, the identity, the time. -/
structure RecordContext where
  env : FindingEnvironment
  artifactFile : Option Bytes
  findingId : CodePoints
  identity : RepoIdentity
  now : Nat

/-- A finding that is to be recorded. -/
structure PreparedFinding where
  record : FindingRecord
  artifact : Fields

/-- The `key_id` of an artifact with both blocks. -/
def claimedKeyId (artifact : Fields) : Option CodePoints :=
  match signedBlocks artifact with
  | none => none
  | some (signing, _) =>
      match lookup (codePoints "key_id") signing with
      | some (.string (c :: keyId)) => some (c :: keyId)
      | _ => none

/-- A symbol without white space at its ends, if anything is left. -/
def resolvedSymbol (symbol : Option CodePoints) : Option CodePoints :=
  (symbol.map stripCodes).filter (· ≠ [])

/-- The part of `record_finding` before the lock. -/
def prepareFinding
    (lib : Libraries)
    (ctx : RecordContext)
    (args : RecordArgs) : Except FindingError PreparedFinding := do
  if stripCodes (args.receiptPath.getD []) = [] then
    .error (.usage (codePoints "tg ledger record requires --receipt <path-to-artifact.json>"))
  else if args.artifactKind ∉ validArtifactKinds then
    .error (.usage (codePoints ("--artifact-kind must be one of ['blast-radius', " ++
      "'context-pack', 'evidence-receipt', 'repo-map'], got '") ++ args.artifactKind ++
      codePoints "'"))
  else
    let artifact ← (readArtifact lib ctx.artifactFile).mapError .artifact
    let digest ← (receiptDigest lib.crypto artifact).mapError .python
    let ttl := configuredFindingTtlSeconds ctx.env args.ttlSeconds
    if maxInstant < ctx.now + ttl * 1000000 then .error .overflow
    else .ok {
      artifact := artifact
      record := {
        findingId := ctx.findingId
        agentId := resolveAgentId ctx.env.agent args.agentId
        artifactKind := args.artifactKind
        symbol := resolvedSymbol args.symbol
        receiptSha256 := digest
        blobRelpath := blobRelpath digest
        signed := (signedBlocks artifact).isSome
        keyId := claimedKeyId artifact
        revision := ctx.identity
        createdAt := ctx.now
        expiresAt := ctx.now + ttl * 1000000
        ttlSeconds := ttl } }

/-! ## Recording -/

/-- `_valid_sha256_hex`: the digest, if it is well formed. -/
def validSha256Hex (value : Option Json) : Option CodePoints :=
  match value with
  | some (.string s) =>
      if s.length = 64 ∧ s.all (fun c => decide (c ∈ codePoints "0123456789abcdef")) then some s
      else none
  | _ => none

/-- The digest of an entry, if it is well formed. -/
def entrySha256 (entry : Fields) : Option CodePoints :=
  validSha256Hex (lookup (codePoints "receipt_sha256") entry)

/-- `_load_findings_index`. -/
def loadFindingsIndex (index : FindingsIndex) : Except FindingError (List Fields) :=
  match index with
  | .absent => .ok []
  | .corrupt size =>
      if maxIndexFileBytes < size then .error .indexTooLarge else .error .corruptIndex
  | .entries size records =>
      if maxIndexFileBytes < size then .error .indexTooLarge else .ok records

/-- `_parse_iso`. -/
def parseIso
    (lib : Libraries)
    (value : Option Json) : Option Nat :=
  match value with
  | some (.string (c :: s)) => lib.fromisoformat (c :: s)
  | _ => none

/-- An entry that is live at a time. -/
def findingLiveAt
    (lib : Libraries)
    (now : Nat)
    (entry : Fields) : Bool :=
  match parseIso lib (lookup (codePoints "expires_at") entry) with
  | none => false
  | some expiresAt => now < expiresAt

/-- `_prune_expired`. -/
def pruneExpiredFindings
    (lib : Libraries)
    (now : Nat)
    (records : List Fields) : List Fields :=
  records.filter (findingLiveAt lib now)

/-- `_distinct_blob_bytes`. -/
def distinctBlobBytes
    (blobs : CodePoints → Option Bytes)
    (records : List Fields) : Nat :=
  ((keepUnseen [] (records.filterMap entrySha256)).map
    fun sha => ((blobs sha).map List.length).getD 0).sum

/-- `str(entry.get("created_at", ""))`. -/
def createdAtText
    (lib : Libraries)
    (entry : Fields) : CodePoints :=
  match lookup (codePoints "created_at") entry with
  | some value => value.toText lib.display
  | none => []

/-- The loop of `_evict_findings_over_cap`. -/
def popOverCap
    (blobs : CodePoints → Option Bytes)
    (maxBytes : Nat) : List Fields → List Fields
  | [] => []
  | entry :: entries =>
      if maxBytes < distinctBlobBytes blobs (entry :: entries) then
        popOverCap blobs maxBytes entries
      else entry :: entries

/-- `_evict_findings_over_cap`. -/
def evictFindingsOverCap
    (lib : Libraries)
    (env : FindingEnvironment)
    (blobs : CodePoints → Option Bytes)
    (records : List Fields) : List Fields :=
  let effectiveMaxBytes := max (configuredMaxTotalBlobBytes env) maxArtifactFileBytes
  let ordered := sortByKey (createdAtText lib) records
  let capped :=
    if maxLiveFindings < ordered.length then ordered.drop (ordered.length - maxLiveFindings)
    else ordered
  popOverCap blobs effectiveMaxBytes capped

/-- The names that `_gc_orphaned_blobs` keeps. -/
def referencedNames (live : List Fields) : List CodePoints :=
  live.filterMap fun entry =>
    match lookup (codePoints "receipt_sha256") entry with
    | some (.string s) => some s
    | _ => none

/-- The loop of `_gc_orphaned_blobs`, over the files that are listed and can be removed. -/
def gcOrphanedBlobs
    (live : List Fields)
    (blobs : CodePoints → Option Bytes) : List CodePoints → CodePoints → Option Bytes
  | [] => blobs
  | stem :: listing =>
      if stem ∈ referencedNames live then gcOrphanedBlobs live blobs listing
      else gcOrphanedBlobs live (Function.update blobs stem none) listing

/-- The blobs once the artifact is stored. -/
def writeBlob
    (blobs : CodePoints → Option Bytes)
    (p : PreparedFinding) : CodePoints → Option Bytes :=
  if (blobs p.record.receiptSha256).isSome then blobs
  else Function.update blobs p.record.receiptSha256 (some (dumpsIndented (.object p.artifact)))

/-- The findings that stay, of those of the index and the new one. -/
def nextFindings
    (lib : Libraries)
    (env : FindingEnvironment)
    (blobs : CodePoints → Option Bytes)
    (existing : List Fields)
    (record : FindingRecord) : List Fields :=
  evictFindingsOverCap lib env blobs
    (pruneExpiredFindings lib record.createdAt existing ++ [record.toDict])

/-- `_write_findings_index`. -/
def writeFindingsIndex (records : List Fields) : FindingsIndex :=
  .entries (dumpsIndented (.array (records.map .object))).length records

/-- The part of `record_finding` under the lock.  The blob is stored before the index is read,
and stays if that fails. -/
def recordLocked
    (lib : Libraries)
    (env : FindingEnvironment)
    (listing : List CodePoints)
    (store : FindingsStore)
    (p : PreparedFinding) : Except FindingError FindingsStore := do
  let blobs := writeBlob store.blobs p
  let existing ← loadFindingsIndex store.index
  let live := nextFindings lib env blobs existing p.record
  .ok ⟨writeFindingsIndex live, gcOrphanedBlobs live blobs listing⟩

/-- `record_finding`. -/
def recordFinding
    (lib : Libraries)
    (ctx : RecordContext)
    (args : RecordArgs)
    (listing : List CodePoints)
    (store : FindingsStore) : Except FindingError (FindingRecord × FindingsStore) := do
  let p ← prepareFinding lib ctx args
  let store ← recordLocked lib ctx.env listing store p
  .ok (p.record, store)

/-! ## Finding -/

/-- The arguments of `find_findings`; the trusted keys are those that are in force. -/
structure FindArgs where
  symbol : CodePoints
  artifactKind : Option CodePoints
  freshOnly : Bool
  trustedPublicKeys : List CodePoints

/-- A text is the value of a key. -/
def hasText
    (key : String)
    (text : CodePoints)
    (entry : Fields) : Bool :=
  match lookup (codePoints key) entry with
  | some (.string s) => decide (s = text)
  | _ => false

/-- `_finding_is_fresh`. -/
def findingIsFresh
    (findingRevision : Option Json)
    (current : RepoIdentity) : Bool :=
  match findingRevision, current with
  | some (.object revision), .present commitSha _ _ dirtyTreeSha256 _ =>
      hasText "status" (codePoints "present") revision &&
        (hasText "commit_sha" commitSha revision &&
          hasText "dirty_tree_sha256" dirtyTreeSha256 revision)
  | _, _ => false

/-- A finding that is served, stamped. -/
structure ServedFinding where
  entry : Fields
  fresh : Bool
  keyTrusted : Option Bool

/-- What `find_findings` returns. -/
structure FindAnswer where
  findings : List ServedFinding
  count : Nat
  anyFresh : Bool

/-- An entry has the symbol and the kind that are asked for. -/
def FindArgs.matches
    (args : FindArgs)
    (entry : Fields) : Bool :=
  hasText "symbol" (stripCodes args.symbol) entry &&
    match args.artifactKind with
    | none => true
    | some kind => hasText "artifact_kind" kind entry

/-- The part of `find_findings` that reads the index: the entries to be served, with their
freshness. -/
def findToServe
    (lib : Libraries)
    (index : FindingsIndex)
    (now : Nat)
    (current : RepoIdentity)
    (args : FindArgs) : Except FindingError (List (Fields × Bool)) := do
  if stripCodes args.symbol = [] then
    .error (.usage (codePoints "tg ledger find requires --symbol"))
  else
    let records ← loadFindingsIndex index
    let matched := (pruneExpiredFindings lib now records).filter args.matches
    let stamped := matched.map fun entry =>
      (entry, findingIsFresh (lookup (codePoints "revision") entry) current)
    .ok (stamped.filter fun e => !args.freshOnly || e.2)

/-- `str(entry.get("finding_id"))`. -/
def findingIdText
    (lib : Libraries)
    (entry : Fields) : CodePoints :=
  ((lookup (codePoints "finding_id") entry).getD .null).toText lib.display

/-- `_verify_finding_blob`. -/
def verifyFindingBlob
    (lib : Libraries)
    (blobs : CodePoints → Option Bytes)
    (trusted : List CodePoints)
    (served : Fields × Bool) : Except FindingError ServedFinding := do
  let findingId := findingIdText lib served.1
  match entrySha256 served.1 with
  | none => .error (.integrity findingId .malformedDigest)
  | some expected =>
      let artifact ← (readArtifact lib (blobs expected)).mapError
        fun problem => .integrity findingId (.blob problem)
      let actual ← (receiptDigest lib.crypto artifact).mapError .python
      if actual ≠ expected then .error (.integrity findingId .mismatch)
      else if ((lookup (codePoints "signed") served.1).getD .null).truthy then
        let verdict ← (verifyReceipt lib.crypto lib.display artifact trusted false).mapError .python
        .ok ⟨served.1, served.2, verdict.keyTrusted⟩
      else .ok ⟨served.1, served.2, none⟩

/-- The answer for the findings that are served. -/
def findAnswer (findings : List ServedFinding) : FindAnswer :=
  ⟨findings, findings.length, findings.any ServedFinding.fresh⟩

/-- `find_findings`, where nothing changes while it reads. -/
def findFindings
    (lib : Libraries)
    (store : FindingsStore)
    (now : Nat)
    (current : RepoIdentity)
    (args : FindArgs) : Except FindingError FindAnswer := do
  let toServe ← findToServe lib store.index now current args
  let verified ← toServe.mapM (verifyFindingBlob lib store.blobs args.trustedPublicKeys)
  .ok (findAnswer verified)

end Ledger
end TensorGrep
