import TensorGrep.Kernel.Json
import TensorGrep.Kernel.ShellWords
import TensorGrep.Kernel.TextReplace

/-!
# Policy commands

A policy names commands to run on the edited files.  A command is a template:
the placeholders `$file` and `{file}` in it are replaced by the quoted path of a
file, the text is split into arguments the way a POSIX shell splits it, and the
program is started without a shell.

The parser is defined over symbols of which only the character is looked at, if
they have one; so it also parses a template whose placeholders are symbols of
their own.
-/

namespace TensorGrep
namespace Policy

open Kernel

universe u

/-! ## Parsing a command -/

/-- A character as a code point. -/
def chr (c : Char) : CodePoint :=
  Fin.ofNat 0x110000 c.toNat

/-- Why a command is refused. -/
inductive CommandError where
  | empty
  | shellOperator (operator : CodePoints)
  | lexical (e : ShellError)
deriving DecidableEq

/-- The text of an error, with the operator as `repr` quotes it. -/
def CommandError.message
    (quote : CodePoints → CodePoints) : CommandError → CodePoints
  | .empty => codePoints "command must not be empty"
  | .shellOperator operator =>
      codePoints "shell control operator " ++ quote operator ++
        codePoints " is not supported; provide a single argv-style command"
  | .lexical .noClosingQuotation => codePoints "No closing quotation"
  | .lexical .noEscapedCharacter => codePoints "No escaped character"

section Parsing

variable {α : Type u} (view : α → Option CodePoint)

/-- What a symbol is to `shlex`. -/
def shellKind (c : α) : SymbolKind :=
  match view c with
  | none => .plain
  | some c =>
      if c ∈ codePoints " \t\r\n" then .space
      else if c = chr '\\' then .escape
      else if c = chr '\'' then .single
      else if c = chr '"' then .double
      else .plain

/-- The operator that begins with a symbol. -/
def operatorAt
    (c : α)
    (rest : List α) : Option CodePoints :=
  let next := rest.head?.bind view
  if view c = some (chr '&') ∧ next = some (chr '&') then some (codePoints "&&")
  else if view c = some (chr '|') ∧ next = some (chr '|') then some (codePoints "||")
  else (view c).bind fun c => if c ∈ codePoints "|;&<>" then some [c] else none

/-- The loop of `_unquoted_shell_operator`. -/
def operatorFrom : Bool → Bool → Bool → List α → Option CodePoints
  | _, _, _, [] => none
  | inSingle, inDouble, true, _ :: rest => operatorFrom inSingle inDouble false rest
  | inSingle, inDouble, false, c :: rest =>
      if view c = some (chr '\\') ∧ !inSingle then operatorFrom inSingle inDouble true rest
      else if view c = some (chr '\'') ∧ !inDouble then
        operatorFrom (!inSingle) inDouble false rest
      else if view c = some (chr '"') ∧ !inSingle then
        operatorFrom inSingle (!inDouble) false rest
      else if !inSingle ∧ !inDouble then
        (operatorAt view c rest).or (operatorFrom inSingle inDouble false rest)
      else operatorFrom inSingle inDouble false rest

/-- `_unquoted_shell_operator`. -/
def unquotedShellOperator (command : List α) : Option CodePoints :=
  operatorFrom view false false false command

/-- The symbol is white space. -/
def isSpaceSymbol (c : α) : Bool :=
  ((view c).map isSpaceCode).getD false

/-- `str.strip`. -/
def stripSymbols (command : List α) : List α :=
  ((command.dropWhile (isSpaceSymbol view)).reverse.dropWhile (isSpaceSymbol view)).reverse

/-- `_parse_policy_command`. -/
def parsePolicyCommand (command : List α) : Except CommandError (List (List α)) :=
  let stripped := stripSymbols view command
  if stripped.isEmpty then .error .empty
  else
    match unquotedShellOperator view stripped with
    | some operator => .error (.shellOperator operator)
    | none => (shellWords (shellKind view) stripped).mapError .lexical

end Parsing

/-! ## Quoting -/

/-- The characters that `shlex.quote` leaves alone. -/
def isSafeCode (c : CodePoint) : Bool :=
  let n := c.val
  (0x30 ≤ n && n ≤ 0x39) || (0x41 ≤ n && n ≤ 0x5A) || (0x61 ≤ n && n ≤ 0x7A) ||
    c ∈ codePoints "_@%+=:,./-"

/-- A character between the single quotes of `shlex.quote`. -/
def quotedCode (c : CodePoint) : CodePoints :=
  if c = chr '\'' then codePoints "'\"'\"'" else [c]

/-- `_policy_quote_arg`. -/
def policyQuoteArg (value : CodePoints) : CodePoints :=
  if value = [] then codePoints "''"
  else if value.all isSafeCode then value
  else chr '\'' :: value.flatMap quotedCode ++ [chr '\'']

/-! ## The file argument -/

/-- What the path functions answer: `resolve` expands and resolves a path, `relative` makes a
resolved path relative to the working root, `isFileBelow` says that the target is a file below
it. -/
structure PathHost where
  resolve : CodePoints → Option CodePoints
  relative : CodePoints → Option CodePoints
  isFileBelow : CodePoints → Bool

/-- `_policy_file_arg`. -/
def policyFileArg
    (host : PathHost)
    (pathValue : Json) : Option CodePoints :=
  match pathValue with
  | .string path =>
      (host.resolve path).map fun resolved =>
        match host.relative resolved with
        | none => resolved
        | some relative =>
            -- a leading dash would make the path a flag
            if relative.head? = some (chr '-') then codePoints "./" ++ relative else relative
  | _ => none

/-- `edit.get("file") or edit.get("path")`. -/
def editCandidate (edit : Json) : Option Json :=
  match edit with
  | .object fields =>
      let file := (Json.lookup (codePoints "file") fields).getD .null
      some (if file.truthy then file
        else (Json.lookup (codePoints "path") fields).getD .null)
  | _ => none

/-- The paths of the edits, or the target when the payload names none. -/
def editCandidates
    (host : PathHost)
    (rewritePayload : List (CodePoints × Json))
    (targetPath : CodePoints) : List Json :=
  let candidates :=
    match Json.lookup (codePoints "edits") rewritePayload with
    | some (.array edits) => edits.filterMap editCandidate
    | _ => []
  if candidates.isEmpty && host.isFileBelow targetPath then [.string targetPath] else candidates

/-- The loop of `_edited_file_args`. -/
def collectFileArgs
    (host : PathHost) : List CodePoints → List Json → List CodePoints
  | _, [] => []
  | seen, candidate :: rest =>
      match policyFileArg host candidate with
      | none => collectFileArgs host seen rest
      | some fileArg =>
          if fileArg ∈ seen then collectFileArgs host seen rest
          else fileArg :: collectFileArgs host (fileArg :: seen) rest

/-- `_edited_file_args`. -/
def editedFileArgs
    (host : PathHost)
    (rewritePayload : List (CodePoints × Json))
    (targetPath : CodePoints) : List CodePoints :=
  collectFileArgs host [] (editCandidates host rewritePayload targetPath)

/-! ## Expanding a template -/

/-- `_file_placeholder_present`. -/
def filePlaceholderPresent (command : CodePoints) : Bool :=
  decide (codePoints "$file" <:+: command) || decide (codePoints "\x7bfile\x7d" <:+: command)

/-- The command for one file argument. -/
def expandPolicyCommand
    (command fileArg : CodePoints) : CodePoints :=
  let quotedFile := policyQuoteArg fileArg
  replaceAll (codePoints "\x7bfile\x7d") quotedFile
    (replaceAll (codePoints "$file") quotedFile command)

/-- `_policy_command_instances`: the commands with their file arguments, or the detail of the
failure. -/
def policyCommandInstances
    (host : PathHost)
    (name command : CodePoints)
    (rewritePayload : List (CodePoints × Json))
    (targetPath : CodePoints) :
    Except CodePoints (List (Option CodePoints × CodePoints)) :=
  if !filePlaceholderPresent command then .ok [(none, command)]
  else
    let editedFiles := editedFileArgs host rewritePayload targetPath
    if editedFiles.isEmpty then
      .error (name ++ codePoints
        " command uses a file placeholder but requires at least one edited file.")
    else .ok (editedFiles.map fun fileArg => (some fileArg, expandPolicyCommand command fileArg))

end Policy
end TensorGrep
