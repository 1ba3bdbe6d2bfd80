import Mathlib.Data.String.Basic
import TensorGrep.Kernel.ExceptList
import TensorGrep.Kernel.ListWindows
import TensorGrep.Kernel.SortedKeys

/-!
# Advisory claims

An agent claims symbols and files before it works on them.  The claims of a
repository stand in one index file, which `submit_claim` and `release_claim`
read and write under a lock.  Nothing here runs concurrently yet: the functions
are what a call prepares before it has the lock, and what it does to the index
while it holds it.

Times are microseconds since the epoch.  An entry of the index holds what the
code reads of a JSON object: `expiresAt` is `none` where `_parse_iso` answers
nothing, `symbols` and `files` are `none` where `set(...)` raises.
-/

namespace TensorGrep
namespace Ledger

open Kernel

/-! ## Texts -/

/-- `str.isspace` of one character. -/
def isSpace (c : Char) : Bool :=
  let n := c.toNat
  (0x09 ≤ n && n ≤ 0x0D) || (0x1C ≤ n && n ≤ 0x20) || n == 0x85 || n == 0xA0 || n == 0x1680 ||
    (0x2000 ≤ n && n ≤ 0x200A) || n == 0x2028 || n == 0x2029 || n == 0x202F || n == 0x205F ||
    n == 0x3000

/-- `str.strip`. -/
def strip (s : String) : String :=
  String.ofList ((s.toList.dropWhile isSpace).reverse.dropWhile isSpace).reverse

/-- A number with at least `width` digits. -/
def padded
    (width n : Nat) : String :=
  let digits := toString n
  String.ofList (List.replicate (width - digits.length) '0') ++ digits

/-- The year, month and day of a day since the epoch. -/
def civilFromDays (days : Nat) : Nat × Nat × Nat :=
  let z := days + 719468
  let era := z / 146097
  let dayOfEra := z % 146097
  let yearOfEra :=
    (dayOfEra - dayOfEra / 1460 + dayOfEra / 36524 - dayOfEra / 146096) / 365
  let dayOfYear := dayOfEra - (365 * yearOfEra + yearOfEra / 4 - yearOfEra / 100)
  let shifted := (5 * dayOfYear + 2) / 153
  let day := dayOfYear - (153 * shifted + 2) / 5 + 1
  let month := if shifted < 10 then shifted + 3 else shifted - 9
  (yearOfEra + era * 400 + (if month ≤ 2 then 1 else 0), month, day)

/-- `datetime.isoformat` in UTC. -/
def isoformat (now : Nat) : String :=
  let micros := now % 1000000
  let seconds := now / 1000000
  let date := civilFromDays (seconds / 86400)
  padded 4 date.1 ++ "-" ++ padded 2 date.2.1 ++ "-" ++ padded 2 date.2.2 ++ "T" ++
    padded 2 (seconds / 3600 % 24) ++ ":" ++ padded 2 (seconds / 60 % 60) ++ ":" ++
    padded 2 (seconds % 60) ++ (if micros = 0 then "" else "." ++ padded 6 micros) ++ "+00:00"

/-- The last moment of the year 9999. -/
def maxInstant : Nat := 253402300799999999

/-! ## Records and entries -/

/-- `_DEFAULT_AGENT_ID`. -/
def defaultAgentId : String := "anonymous"

/-- `_MAX_LIVE_CLAIMS`. -/
def maxLiveClaims : Nat := 256

/-- `_MAX_INDEX_FILE_BYTES`. -/
def maxIndexFileBytes : Nat := 8 * 1024 * 1024

/-- `_DEFAULT_TTL_SECONDS`. -/
def defaultTtlSeconds : Nat := 900

/-- What `_repo_revision_identity` says of the repository. -/
structure Revision where
  status : Option String
  commitSha : Option String
deriving DecidableEq

/-- `ClaimRecord`. -/
structure ClaimRecord where
  claimId : String
  agentId : String
  symbols : List String
  files : List String
  scope : String
  intent : String
  note : Option String
  createdAt : Nat
  expiresAt : Nat
  ttlSeconds : Nat
  revision : Revision
deriving DecidableEq

/-- What is read of an entry of the index. -/
structure ClaimEntry where
  claimId : Option String
  agentId : Option String
  symbols : Option (List String)
  files : Option (List String)
  scope : Option String
  intent : Option String
  createdAt : String
  expiresAt : Option Nat
  revision : Option Revision
deriving DecidableEq

/-- The entry of a record, as it is read back. -/
def ClaimRecord.toEntry (r : ClaimRecord) : ClaimEntry where
  claimId := some r.claimId
  agentId := some r.agentId
  symbols := some r.symbols
  files := some r.files
  scope := some r.scope
  intent := some r.intent
  createdAt := isoformat r.createdAt
  expiresAt := some r.expiresAt
  revision := some r.revision

/-- Why a call fails. -/
inductive LedgerError where
  | usage (message : String)
  | traversal (raw : String)
  | overflow
  | indexTooLarge
  | corruptIndex
  | notIterable
deriving DecidableEq

/-- The text of an error of the ledger, for an index at `indexPath`.  The texts of errors
that the language itself raises, and the quoting by `repr`, are left out. -/
def LedgerError.message
    (indexPath : String) : LedgerError → String
  | .usage message => message
  | .traversal raw => "Refusing claim --files entry outside repo root: " ++ raw
  | .overflow => ""
  | .indexTooLarge =>
      "Claims index at " ++ indexPath ++ " exceeds the " ++ toString maxIndexFileBytes ++
        "-byte bound; refusing to parse an unbounded file."
  | .corruptIndex => "Claims index at " ++ indexPath ++ " is not a JSON array"
  | .notIterable => ""

/-! ## Preparing a claim -/

/-- The environment variables that a call reads; `ttl` is the number that the third one
spells, if it spells one. -/
structure Environment where
  agentId : Option String
  fallbackAgentId : Option String
  ttl : Option Int

/-- `resolve_agent_id`. -/
def resolveAgentId
    (env : Environment)
    (explicit : Option String) : String :=
  (([explicit, env.agentId, env.fallbackAgentId].filterMap id).map strip).find? (· ≠ "")
    |>.getD defaultAgentId

/-- `_configured_ttl_seconds`. -/
def configuredTtlSeconds
    (env : Environment)
    (explicit : Option Int) : Nat :=
  match explicit with
  | some ttl => (max 1 ttl).toNat
  | none =>
      match env.ttl with
      | some value => if 0 < value then value.toNat else defaultTtlSeconds
      | none => defaultTtlSeconds

/-- The parts of a relative path. -/
def pathParts (path : String) : List String :=
  (path.splitOn "/").filter (fun part => part ≠ "" ∧ part ≠ ".")

/-- `_normalize_relative_file`; `escapes` tells which paths lead out of the root once links
are resolved. -/
def normalizeRelativeFile
    (escapes : String → Bool)
    (raw : String) : Except LedgerError String :=
  let parts := pathParts raw
  if raw.startsWith "/" ∨ ".." ∈ parts then .error (.traversal raw)
  else if escapes raw then .error (.traversal raw)
  else .ok (if parts = [] then "." else "/".intercalate parts)

/-- The arguments of `submit_claim`. -/
structure SubmitArgs where
  symbols : List String
  files : List String
  intent : String
  note : Option String
  ttlSeconds : Option Int
  agentId : Option String

/-- What `submit_claim` finds out before it asks for the lock, apart from its arguments: the
environment, the root-relative scope, where paths lead, the new id, the revision, the time. -/
structure SubmitContext where
  env : Environment
  scope : String
  escapes : String → Bool
  claimId : String
  revision : Revision
  now : Nat

/-- The part of `submit_claim` before the lock. -/
def prepareClaim
    (ctx : SubmitContext)
    (args : SubmitArgs) : Except LedgerError ClaimRecord := do
  let symbols := keepUnseen [] ((args.symbols.map strip).filter (· ≠ ""))
  let normalized ← (args.files.filter (fun raw => strip raw ≠ "")).mapM
    (normalizeRelativeFile ctx.escapes)
  let files := keepUnseen [] normalized
  if symbols = [] ∧ files = [] then
    .error (.usage "tg ledger claim requires at least one --symbol or a --files entry")
  else
    let ttl := configuredTtlSeconds ctx.env args.ttlSeconds
    let intent := strip (if args.intent = "" then "edit" else args.intent)
    if maxInstant < ctx.now + ttl * 1000000 then .error .overflow
    else .ok {
      claimId := ctx.claimId
      agentId := resolveAgentId ctx.env args.agentId
      symbols := symbols
      files := files
      scope := ctx.scope
      intent := if intent = "" then "edit" else intent
      note := (args.note.map strip).filter (· ≠ "")
      createdAt := ctx.now
      expiresAt := ctx.now + ttl * 1000000
      ttlSeconds := ttl
      revision := ctx.revision }

/-! ## The index -/

/-- The index file: its size, and its entries unless it is corrupt. -/
inductive IndexFile where
  | absent
  | corrupt (size : Nat)
  | entries (size : Nat) (records : List ClaimEntry)
deriving DecidableEq

/-- `_load_index`. -/
def loadIndex (file : IndexFile) : Except LedgerError (List ClaimEntry) :=
  match file with
  | .absent => .ok []
  | .corrupt size =>
      if maxIndexFileBytes < size then .error .indexTooLarge else .error .corruptIndex
  | .entries size records =>
      if maxIndexFileBytes < size then .error .indexTooLarge else .ok records

/-- An entry that is live at a time. -/
def ClaimEntry.liveAt
    (e : ClaimEntry)
    (now : Nat) : Bool :=
  match e.expiresAt with
  | none => false
  | some expiresAt => now < expiresAt

/-- `_prune_expired`. -/
def pruneExpired
    (records : List ClaimEntry)
    (now : Nat) : List ClaimEntry :=
  records.filter (fun e => e.liveAt now)

/-- `_evict_oldest_over_cap`. -/
def evictOldestOverCap (records : List ClaimEntry) : List ClaimEntry :=
  if records.length ≤ maxLiveClaims then records
  else (sortByKey ClaimEntry.createdAt records).drop (records.length - maxLiveClaims)

/-- What `_evict_oldest_over_cap` drops. -/
def evictedOverCap (records : List ClaimEntry) : List ClaimEntry :=
  if records.length ≤ maxLiveClaims then []
  else (sortByKey ClaimEntry.createdAt records).take (records.length - maxLiveClaims)

/-- `_revision_matches`. -/
def revisionMatches
    (other : Option Revision)
    (mine : Revision) : Option Bool :=
  match other with
  | none => none
  | some other =>
      if other.status ≠ some "present" ∨ mine.status ≠ some "present" then none
      else some (other.commitSha = mine.commitSha)

/-- One element of the `overlaps` that `submit_claim` returns. -/
structure Overlap where
  claimId : Option String
  agentId : Option String
  symbols : List String
  files : List String
  intent : Option String
  expiresAt : Option Nat
  revisionMatches : Option Bool
deriving DecidableEq

/-- `sorted(mine & theirs)`. -/
def sharedNames
    (mine theirs : List String) : List String :=
  sortDedup id (mine.filter (· ∈ theirs))

/-- One round of the loop of `_find_overlaps`. -/
def overlapWith
    (record : ClaimRecord)
    (e : ClaimEntry) : Except LedgerError (Option Overlap) :=
  if record.agentId ≠ defaultAgentId ∧ e.agentId = some record.agentId then .ok none
  else
    match e.symbols, e.files with
    | some symbols, some files =>
        let symbolOverlap := sharedNames record.symbols symbols
        let fileOverlap := sharedNames record.files files
        if symbolOverlap = [] ∧ fileOverlap = [] then .ok none
        else .ok (some {
          claimId := e.claimId
          agentId := e.agentId
          symbols := symbolOverlap
          files := fileOverlap
          intent := e.intent
          expiresAt := e.expiresAt
          revisionMatches := revisionMatches e.revision record.revision })
    | _, _ => .error .notIterable

/-- `_find_overlaps`. -/
def findOverlaps
    (live : List ClaimEntry)
    (record : ClaimRecord) : Except LedgerError (List Overlap) := do
  let found ← live.mapM (overlapWith record)
  .ok (found.flatMap Option.toList)

/-- What a submission does while it holds the lock. -/
structure SubmitResult where
  overlaps : List Overlap
  written : List ClaimEntry
  dropped : List ClaimEntry
deriving DecidableEq

/-- The part of `submit_claim` under the lock. -/
def submitLocked
    (file : IndexFile)
    (record : ClaimRecord) : Except LedgerError SubmitResult := do
  let existing ← loadIndex file
  let live := pruneExpired existing record.createdAt
  let overlaps ← findOverlaps live record
  .ok {
    overlaps := overlaps
    written := evictOldestOverCap (live ++ [record.toEntry])
    dropped := evictedOverCap (live ++ [record.toEntry]) }

/-! ## Releasing -/

/-- `symbol in (entry.get("symbols") or [])`. -/
def ClaimEntry.hasSymbol
    (e : ClaimEntry)
    (symbol : String) : Except LedgerError Bool :=
  match e.symbols with
  | some symbols => .ok (symbols.contains symbol)
  | none => .error .notIterable

/-- `release_claim` before the lock: the arguments, the resolved agent and the time. -/
structure ReleaseCall where
  claimId : Option String
  symbol : Option String
  agentId : String
  now : Nat

/-- The part of `release_claim` before the lock. -/
def prepareRelease
    (env : Environment)
    (claimId symbol agentId : Option String)
    (now : Nat) : Except LedgerError ReleaseCall :=
  if claimId.getD "" = "" ∧ symbol.getD "" = "" then
    .error (.usage "tg ledger release requires --claim-id or --symbol")
  else .ok ⟨claimId, symbol, resolveAgentId env agentId, now⟩

/-- The test of `release_claim` for one entry. -/
def ReleaseCall.releases
    (call : ReleaseCall)
    (e : ClaimEntry) : Except LedgerError Bool := do
  let matchesId := call.claimId.isSome && e.claimId = call.claimId
  let matchesSymbol ←
    match call.symbol with
    | none => .ok false
    | some symbol =>
        if call.agentId ≠ defaultAgentId ∧ e.agentId = some call.agentId then e.hasSymbol symbol
        else .ok false
  .ok (matchesId || matchesSymbol)

/-- What a release does while it holds the lock; `written` is `none` where nothing is
written. -/
structure ReleaseResult where
  released : List ClaimEntry
  remaining : List ClaimEntry
  written : Option (List ClaimEntry)

/-- The part of `release_claim` under the lock.  Without an index the call returns before it
asks for the lock, with the same result. -/
def releaseLocked
    (file : IndexFile)
    (call : ReleaseCall) : Except LedgerError ReleaseResult := do
  let existing ← loadIndex file
  let live := pruneExpired existing call.now
  let tested ← live.mapM fun e => (call.releases e).map fun b => (b, e)
  let remaining := (tested.filter (fun t => !t.1)).map Prod.snd
  .ok {
    released := (tested.filter Prod.fst).map Prod.snd
    remaining := remaining
    written := if remaining.length ≠ existing.length then some remaining else none }

/-- `_MAX_LIVE_CLAIMS_ELSEWHERE_SHOWN`. -/
def maxLiveClaimsElsewhereShown : Nat := 10

/-- `_entry_scope`. -/
def ClaimEntry.entryScope (e : ClaimEntry) : String :=
  (e.scope.filter (· ≠ "")).getD "."

/-- What `_release_result` returns. -/
structure ReleaseAnswer where
  released : List ClaimEntry
  listedScope : String
  unmatchedReason : Option String
  liveClaimsElsewhere : List ClaimEntry
  liveClaimsElsewhereCount : Nat
  liveClaimsElsewhereTruncated : Bool

/-- `_release_result`; the claims elsewhere are shown with their scope, the latest first. -/
def releaseResult
    (released remaining : List ClaimEntry)
    (listedScope : String)
    (anonymousSymbolRelease : Bool) : ReleaseAnswer :=
  if released ≠ [] then ⟨released, listedScope, none, [], 0, false⟩
  else
    let reason :=
      if anonymousSymbolRelease then
        "Anonymous --symbol release matches nothing by design: symbol release is scoped to " ++
        "the calling agent's own claims, and the default agent id " ++
        "('" ++ defaultAgentId ++ "') is the absence of an identity, so it cannot identify an " ++
        "owner. Release by --claim-id (the opaque id is the authorization), or set " ++
        "TG_LEDGER_AGENT_ID / pass --agent-id to claim and release under a real identity."
      else if remaining.length = 0 then "No live claims exist for this repository."
      else
        "No live claim matched the given --claim-id/--symbol; " ++ toString remaining.length ++
        " live claim(s) exist in this repository -- see live_claims_elsewhere."
    let shown := (remaining.insertionSort (fun a b => b.createdAt ≤ a.createdAt)).take
      maxLiveClaimsElsewhereShown
    ⟨released, listedScope, some reason, shown.map fun e => { e with scope := some e.entryScope },
      remaining.length, shown.length < remaining.length⟩

/-! ## Listing -/

/-- `_scope_contains`. -/
def scopeContains
    (broader narrower : String) : Bool :=
  broader = "." ||
    (pathParts narrower).take (pathParts broader).length = pathParts broader

/-- `list_claims` at a time, for the scope of the path that is listed. -/
def listClaims
    (file : IndexFile)
    (now : Nat)
    (listedScope : String)
    (symbol agentId : Option String) : Except LedgerError (List ClaimEntry) := do
  let existing ← loadIndex file
  let inScope := (pruneExpired existing now).filter fun e => scopeContains listedScope e.entryScope
  let tested ← inScope.mapM fun e =>
    (match symbol with
      | some symbol => e.hasSymbol symbol
      | none => .ok true).map fun b => (b, e)
  let named := (tested.filter Prod.fst).map Prod.snd
  let owned := named.filter fun e => agentId.isNone || e.agentId = agentId
  .ok (owned.map fun e => { e with scope := some e.entryScope })

end Ledger
end TensorGrep
