import TensorGrep.Session.Requests

/-!
# The session stream

`serve_session_stream` answers each line of its input with one line.  An error of
a request becomes its reply; only when a session is stale and the stream refreshes
stale sessions, the request is tried a second time, after a refresh, and an error
of the second attempt ends the stream.

The operations of the session store are parameters: each can fail in any way, at
any time, and change the files and caches in any way.
-/

namespace TensorGrep
namespace Session

open Kernel
open Evidence
open Kernel.Json (lookup)

/-- The counters of the payload cache. -/
structure PayloadCacheStats where
  hits : Int
  misses : Int
  refreshes : Int
  rootCount : Int
  sessionCount : Int
  sessions : Json
  sizeBytes : Int

/-- The counters of the response cache. -/
structure ResponseCacheStats where
  hits : Int
  misses : Int
  puts : Int
  entries : Int
  sizeBytes : Int
  maxSizeBytes : Int
  oversizedSkips : Int

/-- An operation on files and caches that can fail. -/
abbrev Operation (World α : Type) :=
  ExceptT SessionError (StateM World) α

/-- What an operation answers, and what it makes of the files and caches. -/
def perform
    {World α : Type}
    (op : Operation World α)
    (w : World) : Except SessionError α × World :=
  op w

/-- What the stream calls: `json.loads`, `json.dumps`, the two caches and the operations on
sessions. -/
structure SessionOps (World Payload Key : Type) where
  text : TextLibrary
  loads : CodePoints → Except CodePoints Json
  dumps : Json → CodePoints
  payloadStats : World → PayloadCacheStats
  responseStats : World → ResponseCacheStats
  uptimeSeconds : World → Json
  loadWithStatus : CodePoints → CodePoints → Operation World (Payload × CodePoints)
  recordRefresh : Operation World Unit
  cacheKey : CodePoints → CodePoints → Fields → Payload → Operation World Key
  cacheGet : Key → Operation World (Option Fields)
  cachePut : Key → Fields → Operation World Unit
  ensureSessionNotStale : Payload → Operation World Unit
  healthPayload : CodePoints → Payload → Operation World Fields
  serveFromPayload : CodePoints → Fields → Payload → Operation World Fields
  refreshSession : CodePoints → CodePoints → Operation World Unit

section Stream

variable {World Payload Key : Type} (ops : SessionOps World Payload Key)

/-- The version, and an integer, as JSON values. -/
def jsonInt (i : Int) : Json :=
  .number (.int i)

/-- The reply to `stats`. -/
def statsReply
    (requestCount : Nat)
    (w : World) : Fields :=
  let payloads := ops.payloadStats w
  let responses := ops.responseStats w
  [(codePoints "version", jsonInt 1),
    (codePoints "ok", .bool true),
    (codePoints "cache_hits", jsonInt payloads.hits),
    (codePoints "cache_misses", jsonInt payloads.misses),
    (codePoints "refresh_count", jsonInt payloads.refreshes),
    (codePoints "root_count", jsonInt payloads.rootCount),
    (codePoints "session_count", jsonInt payloads.sessionCount),
    (codePoints "sessions", payloads.sessions),
    (codePoints "cache_size_bytes", jsonInt payloads.sizeBytes),
    (codePoints "response_cache_hits", jsonInt responses.hits),
    (codePoints "response_cache_misses", jsonInt responses.misses),
    (codePoints "response_cache_puts", jsonInt responses.puts),
    (codePoints "response_cache_entries", jsonInt responses.entries),
    (codePoints "response_cache_size_bytes", jsonInt responses.sizeBytes),
    (codePoints "response_cache_max_size_bytes", jsonInt responses.maxSizeBytes),
    (codePoints "response_cache_oversized_skips", jsonInt responses.oversizedSkips),
    (codePoints "response_cache_stale_detection", .string (codePoints "snapshot_mtime_only")),
    (codePoints "response_cache_added_file_detection", .bool false),
    (codePoints "response_cache_refresh_hint", .string (codePoints
      ("Use tg session refresh or request refresh_on_stale when new files must " ++
        "invalidate daemon response-cache hits."))),
    (codePoints "uptime_seconds", ops.uptimeSeconds w),
    (codePoints "request_count", jsonInt requestCount)]

/-- The field `serve_cache` of a reply. -/
def withServeCache
    (status : CodePoints)
    (response : Fields)
    (w : World) : Fields :=
  setField (codePoints "serve_cache")
    (.object
      [(codePoints "status", .string status),
        (codePoints "session_count", jsonInt (ops.payloadStats w).sessionCount),
        (codePoints "root_count", jsonInt (ops.payloadStats w).rootCount)]) response

/-- The field `serve_response_cache` of a reply. -/
def withServeResponseCache
    (status : CodePoints)
    (response : Fields)
    (w : World) : Fields :=
  let responses := ops.responseStats w
  setField (codePoints "serve_response_cache")
    (.object
      [(codePoints "status", .string status),
        (codePoints "entries", jsonInt responses.entries),
        (codePoints "hits", jsonInt responses.hits),
        (codePoints "misses", jsonInt responses.misses),
        (codePoints "size_bytes", jsonInt responses.sizeBytes),
        (codePoints "max_size_bytes", jsonInt responses.maxSizeBytes),
        (codePoints "oversized_skips", jsonInt responses.oversizedSkips)]) response

/-- `serve_session_request` with a payload. -/
def serveSessionRequest
    (sessionId : CodePoints)
    (request : Fields)
    (path : CodePoints)
    (payload : Payload) : Operation World Fields :=
  let (resolvedSessionId, _) := resolveRequestSessionTarget ops.text request sessionId path
  ops.serveFromPayload resolvedSessionId request payload

/-- The reply from the response cache, or a new one. -/
def serveCached
    (sessionId : CodePoints)
    (request : Fields)
    (path : CodePoints)
    (payload : Payload) : Operation World (Fields × CodePoints) := do
  ops.ensureSessionNotStale payload
  let key ← ops.cacheKey sessionId path request payload
  match ← ops.cacheGet key with
  | some response => return (response, codePoints "hit")
  | none =>
      let response ← serveSessionRequest ops sessionId request path payload
      ops.cachePut key response
      return (response, codePoints "miss")

/-- The command can be answered from the response cache. -/
def cacheableResponseCommand
    (lib : TextLibrary)
    (request : Fields) : Bool :=
  (requestCommand lib request == codePoints "context_edit_plan" ||
    requestCommand lib request == codePoints "context_render") && !asksForRefresh request

/-- The part of the `try` block after the request has been read. -/
def serveCommand
    (requestCount : Nat)
    (sessionId : CodePoints)
    (request : Fields)
    (path : CodePoints) : Operation World Fields := do
  let command := requestCommand ops.text request
  if command = codePoints "stats" then
    return statsReply ops requestCount (← get)
  else if command = codePoints "health" then
    let (payload, status) ← ops.loadWithStatus sessionId path
    let response ← ops.healthPayload sessionId payload
    return withServeCache ops status response (← get)
  else
    let (payload, status) ← ops.loadWithStatus sessionId path
    if cacheableResponseCommand ops.text request then
      let (response, cacheStatus) ← serveCached ops sessionId request path payload
      let response := withServeCache ops status response (← get)
      return withServeResponseCache ops cacheStatus response (← get)
    else
      let response ← serveSessionRequest ops sessionId request path payload
      return withServeCache ops status response (← get)

/-- The second attempt, after the session was stale. -/
def recoverStale
    (sessionId : CodePoints)
    (request : Fields)
    (path : CodePoints) : Operation World Fields := do
  ops.refreshSession sessionId path
  ops.recordRefresh
  let (payload, status) ← ops.loadWithStatus sessionId path
  let response ← serveSessionRequest ops sessionId request path payload
  return withServeCache ops status response (← get)

/-- The reply that tells of an error. -/
def errorReply
    (sessionId : CodePoints)
    (code : String)
    (message : CodePoints) : Fields :=
  [(codePoints "version", jsonInt 1),
    (codePoints "session_id", .string sessionId),
    (codePoints "error", .object
      [(codePoints "code", .string (codePoints code)), (codePoints "message", .string message)])]

/-- The request of a line with its session and its path, or the error of reading it. -/
def readRequest
    (sessionId path : CodePoints)
    (refreshOnStale : Bool)
    (line : CodePoints) : Except SessionError (Fields × CodePoints × CodePoints) :=
  match ops.loads line with
  | .error message => .error (.other message)
  | .ok (.object request) =>
      let (requestSessionId, requestPath) :=
        resolveRequestSessionTarget ops.text request sessionId path
      .ok (if refreshOnStale && !asksForRefresh request then
          setField (codePoints "refresh_on_stale") (.bool true) request
        else request, requestSessionId, requestPath)
  | .ok v => .error (noAttributeGet v)

/-- What the stream does with a line that is not blank: its reply, or the error that ends the
stream. -/
def serveLine
    (sessionId path : CodePoints)
    (refreshOnStale : Bool)
    (requestCount : Nat)
    (line : CodePoints)
    (w : World) : Except SessionError Fields × World :=
  match readRequest ops sessionId path refreshOnStale line with
  | .error e => (.ok (errorReply sessionId "invalid_request" e.message), w)
  | .ok (request, requestSessionId, requestPath) =>
      match perform (serveCommand ops requestCount requestSessionId request requestPath) w with
      | (.ok response, w') => (.ok response, w')
      | (.error (.stale message), w') =>
          if refreshOnStale then
            perform (recoverStale ops requestSessionId request requestPath) w'
          else (.ok (errorReply requestSessionId "stale_session" message), w')
      | (.error (.other message), w') =>
          (.ok (errorReply requestSessionId "invalid_request" message), w')

/-- The line that is written for a reply. -/
def responseLine (response : Fields) : CodePoints :=
  ops.dumps (.object response) ++ codePoints "\n"

/-- The loop of `serve_session_stream`: the lines that it writes, and what it returns or
raises. -/
def serveLines
    (sessionId path : CodePoints)
    (refreshOnStale : Bool) :
    Nat → List CodePoints → World → List CodePoints × Except SessionError Nat
  | requestCount, [], _ => ([], .ok requestCount)
  | requestCount, rawLine :: lines, w =>
      let line := stripCodes rawLine
      if line = [] then serveLines sessionId path refreshOnStale requestCount lines w
      else
        match serveLine ops sessionId path refreshOnStale (requestCount + 1) line w with
        | (.error e, _) => ([], .error e)
        | (.ok response, w') =>
            let (written, result) :=
              serveLines sessionId path refreshOnStale (requestCount + 1) lines w'
            (responseLine ops response :: written, result)

/-- `serve_session_stream`. -/
def serveSessionStream
    (sessionId path : CodePoints)
    (refreshOnStale : Bool)
    (lines : List CodePoints)
    (w : World) : List CodePoints × Except SessionError Nat :=
  serveLines ops sessionId path refreshOnStale 0 lines w

/-! ## One reply for each line -/

/-- The lines that are not blank. -/
def requestLines (lines : List CodePoints) : List CodePoints :=
  (lines.map stripCodes).filter fun line => line ≠ []

/-- A line is answered by the line that is written for its reply. -/
def Answers
    (sessionId path : CodePoints)
    (refreshOnStale : Bool)
    (line written : CodePoints) : Prop :=
  ∃ requestCount response w w',
    serveLine ops sessionId path refreshOnStale requestCount line w = (.ok response, w') ∧
      written = responseLine ops response

/-- The stream answers every line that is not blank, in order, and returns their number. -/
def OneReplyPerLine
    (sessionId path : CodePoints)
    (refreshOnStale : Bool)
    (lines : List CodePoints)
    (w : World) : Prop :=
  let (written, result) := serveSessionStream ops sessionId path refreshOnStale lines w
  List.Forall₂ (Answers ops sessionId path refreshOnStale) (requestLines lines) written ∧
    result = .ok (requestLines lines).length

/-- The session is stale when the line is served, and the second attempt raises: the refresh,
the loading, or serving the request again. -/
def SecondAttemptRaises
    (sessionId path : CodePoints)
    (refreshOnStale : Bool)
    (requestCount : Nat)
    (line : CodePoints)
    (w : World) : Prop :=
  ∃ request requestSessionId requestPath message w' e w'',
    readRequest ops sessionId path refreshOnStale line =
        .ok (request, requestSessionId, requestPath) ∧
      perform (serveCommand ops requestCount requestSessionId request requestPath) w =
        (.error (.stale message), w') ∧
      perform (recoverStale ops requestSessionId request requestPath) w' = (.error e, w'')

/-- No second attempt raises, whenever a line is served. -/
def SecondAttemptsSucceed
    (sessionId path : CodePoints)
    (refreshOnStale : Bool) : Nat → List CodePoints → World → Prop
  | _, [], _ => True
  | requestCount, line :: lines, w =>
      ¬ SecondAttemptRaises ops sessionId path refreshOnStale (requestCount + 1) line w ∧
        SecondAttemptsSucceed sessionId path refreshOnStale (requestCount + 1) lines
          (serveLine ops sessionId path refreshOnStale (requestCount + 1) line w).2

variable {ops}

/-- A line ends the stream exactly when the stream refreshes stale sessions and the second
attempt raises. -/
theorem serveLine_error_iff
    {sessionId path : CodePoints}
    {refreshOnStale : Bool}
    {requestCount : Nat}
    {line : CodePoints}
    {w : World} :
    (∃ e w', serveLine ops sessionId path refreshOnStale requestCount line w = (.error e, w')) ↔
      refreshOnStale = true ∧
        SecondAttemptRaises ops sessionId path refreshOnStale requestCount line w := by
  rw [serveLine, SecondAttemptRaises]
  cases hread : readRequest ops sessionId path refreshOnStale line with
  | error e => simp
  | ok target =>
      obtain ⟨request, requestSessionId, requestPath⟩ := target
      dsimp only
      rcases hserve : perform
        (serveCommand ops requestCount requestSessionId request requestPath) w with
        ⟨result, w'⟩
      cases result with
      | ok response => simp [hserve]
      | error e =>
          cases e with
          | other message => simp [hserve]
          | stale message =>
              cases refreshOnStale with
              | false => simp
              | true => simp [hserve]

/-- What the loop does, counting from any number. -/
theorem serveLines_iff
    {sessionId path : CodePoints}
    {refreshOnStale : Bool}
    (requestCount : Nat)
    (lines : List CodePoints)
    (w : World) :
    (List.Forall₂ (Answers ops sessionId path refreshOnStale) (requestLines lines)
          (serveLines ops sessionId path refreshOnStale requestCount lines w).1 ∧
        (serveLines ops sessionId path refreshOnStale requestCount lines w).2 =
          .ok (requestCount + (requestLines lines).length)) ↔
      refreshOnStale = false ∨
        SecondAttemptsSucceed ops sessionId path refreshOnStale requestCount
          (requestLines lines) w := by
  induction lines generalizing requestCount w with
  | nil => simp [serveLines, requestLines, SecondAttemptsSucceed]
  | cons rawLine lines ih =>
      by_cases hblank : stripCodes rawLine = []
      · have hlines : requestLines (rawLine :: lines) = requestLines lines := by
          simp [requestLines, hblank]
        rw [serveLines, if_pos hblank, hlines]
        exact ih requestCount w
      · have hlines : requestLines (rawLine :: lines) =
            stripCodes rawLine :: requestLines lines := by
          simp [requestLines, hblank]
        have hends := @serveLine_error_iff _ _ _ ops sessionId path refreshOnStale
          (requestCount + 1) (stripCodes rawLine) w
        rw [serveLines, if_neg hblank, hlines, SecondAttemptsSucceed]
        rcases hserve : serveLine ops sessionId path refreshOnStale (requestCount + 1)
          (stripCodes rawLine) w with ⟨result, w'⟩
        rw [hserve] at hends
        cases result with
        | error e =>
            obtain ⟨hrefreshes, hraises⟩ := hends.mp ⟨e, w', rfl⟩
            refine iff_of_false (fun h => ?_) ?_
            · cases h.1
            · rintro (hfalse | hsucceed)
              · rw [hrefreshes] at hfalse
                cases hfalse
              · exact hsucceed.1 hraises
        | ok response =>
            have hanswers : Answers ops sessionId path refreshOnStale (stripCodes rawLine)
                (responseLine ops response) :=
              ⟨requestCount + 1, response, w, w', hserve, rfl⟩
            have hlength : requestCount + (stripCodes rawLine :: requestLines lines).length =
                requestCount + 1 + (requestLines lines).length := by
              rw [List.length_cons]
              omega
            have hnot : refreshOnStale = false ∨
                ¬ SecondAttemptRaises ops sessionId path refreshOnStale (requestCount + 1)
                  (stripCodes rawLine) w := by
              cases refreshOnStale with
              | false => exact Or.inl rfl
              | true =>
                  refine Or.inr fun hraises => ?_
                  obtain ⟨e, w'', heq⟩ := hends.mpr ⟨rfl, hraises⟩
                  cases heq
            dsimp only
            rw [List.forall₂_cons, hlength, and_iff_right hanswers, ih (requestCount + 1) w']
            tauto

/-- The stream answers every line that is not blank with one line, in order, exactly when it
does not refresh stale sessions or no second attempt raises. -/
theorem one_reply_per_line_iff
    (ops : SessionOps World Payload Key)
    (sessionId path : CodePoints)
    (refreshOnStale : Bool)
    (lines : List CodePoints)
    (w : World) :
    OneReplyPerLine ops sessionId path refreshOnStale lines w ↔
      refreshOnStale = false ∨
        SecondAttemptsSucceed ops sessionId path refreshOnStale 0 (requestLines lines) w := by
  have h := @serveLines_iff _ _ _ ops sessionId path refreshOnStale 0 lines w
  rwa [Nat.zero_add] at h

end Stream

/-! ## An option that is no number -/

/-- A line with a request whose option is no number. -/
def orientLine : CodePoints :=
  codePoints "\x7b\"command\": \"orient\", \"max_tokens\": \"x\"\x7d"

/-- A line that asks for a sign of life. -/
def pingLine : CodePoints :=
  codePoints "\x7b\"command\": \"ping\"\x7d"

/-- The two lines as objects. -/
def loadsLine (line : CodePoints) : Except CodePoints Json :=
  if line = orientLine then
    .ok (.object
      [(codePoints "command", .string (codePoints "orient")),
        (codePoints "max_tokens", .string (codePoints "x"))])
  else if line = pingLine then
    .ok (.object [(codePoints "command", .string (codePoints "ping"))])
  else .error (codePoints "Expecting value: line 1 column 1 (char 0)")

/-- The error of an option that is no number. -/
def noNumber : SessionError :=
  .other (codePoints "invalid literal for int() with base 10: 'x'")

/-- A session that is stale until it is refreshed, with nothing in the caches. -/
def staleSession : SessionOps Bool Unit Unit where
  text := ⟨fun _ => [], id⟩
  loads := loadsLine
  dumps := fun _ => []
  payloadStats := fun _ => ⟨0, 1, 0, 1, 1, .array [], 2⟩
  responseStats := fun _ => ⟨0, 0, 0, 0, 0, 1, 0⟩
  uptimeSeconds := fun _ => jsonInt 0
  loadWithStatus := fun _ _ => return ((), codePoints "miss")
  recordRefresh := return ()
  cacheKey := fun _ _ _ _ => return ()
  cacheGet := fun _ => return none
  cachePut := fun _ _ => return ()
  ensureSessionNotStale := fun _ => return ()
  healthPayload := fun _ _ => return []
  serveFromPayload := fun sessionId request _ => do
    if requestCommand ⟨fun _ => [], id⟩ request = codePoints "ping" then
      return [(codePoints "version", jsonInt 1), (codePoints "session_id", .string sessionId),
        (codePoints "ok", .bool true)]
    else if ← get then throw (.stale (codePoints "modified: a.py"))
    else throw noNumber
  refreshSession := fun _ _ => set false

/-- The session is stale, and the request has an option that is no number: the first attempt
finds the former, the second the latter, and no line is answered. -/
theorem secondAttempt_ends_stream :
    serveSessionStream staleSession (codePoints "s") (codePoints ".") true
        [orientLine, pingLine] true = ([], .error noNumber) ∧
      ¬ OneReplyPerLine staleSession (codePoints "s") (codePoints ".") true
        [orientLine, pingLine] true := by
  have hrun : serveSessionStream staleSession (codePoints "s") (codePoints ".") true
      [orientLine, pingLine] true = ([], .error noNumber) := by
    rfl
  refine ⟨hrun, ?_⟩
  rw [OneReplyPerLine, hrun]
  rintro ⟨-, hresult⟩
  cases hresult

end Session
end TensorGrep
