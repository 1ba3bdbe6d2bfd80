import TensorGrep.Kernel.PythonText

/-!
# The lines of a source file

Matches carry line numbers in which a line ends at a line feed and at nothing
else.  The text of a line keeps a carriage return before the line feed.
-/

namespace TensorGrep
namespace Result

open Kernel

/-- `MatchLine`: its number, its text and its file. -/
structure MatchLine where
  lineNumber : Nat
  text : Text
  file : String
deriving DecidableEq

/-- `strip_line_terminator`. -/
def stripLineTerminator (text : Text) : Text :=
  removeNewline text

/-- `split_source_lines`. -/
def splitSourceLines (text : Text) : List Text :=
  if text = [] then []
  else
    let lines := text.splitOn '\n'
    if lines.getLast? = some [] then lines.dropLast else lines

end Result
end TensorGrep
