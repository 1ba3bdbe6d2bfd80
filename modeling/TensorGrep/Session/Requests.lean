import TensorGrep.Evidence.Receipts

/-!
# Session requests

A request is a JSON object.  It names a command, and may name the session and the
path; what it does not name comes from the stream or the daemon that serves it.
-/

namespace TensorGrep
namespace Session

open Kernel
open Evidence
open Kernel.Json (lookup)

/-- What the language computes: the text of arrays and objects, and lower case. -/
structure TextLibrary where
  display : Json → CodePoints
  lower : CodePoints → CodePoints

/-- Why an operation fails: the session is stale, or something else. -/
inductive SessionError where
  | stale (message : CodePoints)
  | other (message : CodePoints)
deriving DecidableEq

/-- The text of the exception. -/
def SessionError.message : SessionError → CodePoints
  | .stale message => message
  | .other message => message

/-- The name of the type of a value. -/
def typeName : Json → CodePoints
  | .null => codePoints "NoneType"
  | .bool _ => codePoints "bool"
  | .number (.int _) => codePoints "int"
  | .number _ => codePoints "float"
  | .string _ => codePoints "str"
  | .array _ => codePoints "list"
  | .object _ => codePoints "dict"

/-- What calling `get` on a value that is no object raises. -/
def noAttributeGet (v : Json) : SessionError :=
  .other (codePoints "'" ++ typeName v ++ codePoints "' object has no attribute 'get'")

/-- The assignment of a value to a key. -/
def setField
    (key : CodePoints)
    (v : Json) : Fields → Fields
  | [] => [(key, v)]
  | (k, old) :: fields => if k = key then (k, v) :: fields else (k, old) :: setField key v fields

/-- `request.get(key, default)`. -/
def getField
    (key : String)
    (default : Json)
    (request : Fields) : Json :=
  (lookup (codePoints key) request).getD default

/-- `request.get("refresh_on_stale", False)` as a truth value. -/
def asksForRefresh (request : Fields) : Bool :=
  (getField "refresh_on_stale" (.bool false) request).truthy

/-- The command of a request. -/
def requestCommand
    (lib : TextLibrary)
    (request : Fields) : CodePoints :=
  lib.lower (stripCodes (Json.toText lib.display (getField "command" (.string []) request)))

/-- `_resolve_request_session_target`. -/
def resolveRequestSessionTarget
    (lib : TextLibrary)
    (request : Fields)
    (sessionId path : CodePoints) : CodePoints × CodePoints :=
  let requestedSessionId :=
    stripCodes (Json.toText lib.display (getField "session_id" (.string sessionId) request))
  let requestedPath := getField "path" (getField "root" (.string path) request) request
  let resolvedPath :=
    match requestedPath with
    | .null => path
    | v => stripCodes (Json.toText lib.display v)
  (if requestedSessionId = [] then sessionId else requestedSessionId,
    if resolvedPath = [] then path else resolvedPath)

end Session
end TensorGrep
