import TensorGrep.CpuSearch.Search
import TensorGrep.Kernel.StarPattern

/-!
# Python's regular expressions on plain patterns

What `re` does with the patterns that the literal scan does not refuse, and with
fixed strings.  A pattern that ignores case matches text by Unicode's simple
folding and bytes by that of ASCII.  The Unicode tables are a parameter.
-/

namespace TensorGrep
namespace CpuSearch

open Kernel

/-- Python's tables: the folding of `re.IGNORECASE`, and `str.lower`.  The lower-case form of a
character can depend on the text around it, as that of a capital sigma does; `forms` are all of
them. -/
structure CaseTables where
  isLower : Text → Bool
  fold : Char → Char
  forms : Char → List Text
  lowerBetween : Text → Char → Text → Text
  lowerBetween_mem : ∀ before c after, lowerBetween before c after ∈ forms c
  ne_nil_of_mem_forms : ∀ c, ∀ form ∈ forms c, form ≠ []
  newline_of_fold : ∀ c, fold c = fold '\n' → c = '\n'

namespace CaseTables

variable (U : CaseTables)

/-- `str.lower` of the rest of a text. -/
def lowerFrom (before : Text) : Text → Text
  | [] => []
  | c :: t => U.lowerBetween before c t ++ lowerFrom (before ++ [c]) t

/-- `str.lower`. -/
def lower (t : Text) : Text :=
  U.lowerFrom [] t

/-- Every character that folds like this one is lower-cased like it. -/
def LowersAlike (c : Char) : Prop :=
  ∀ x, U.fold x = U.fold c → ∀ form ∈ U.forms x, ∀ form' ∈ U.forms c, form = form'

/-- Where characters that fold alike are lower-cased differently, each form has a character that
one of them never has and that only they have. -/
def Separated : Prop :=
  ∀ c, ¬ U.LowersAlike c → ∀ form ∈ U.forms c, ∃ a ∈ form,
    (∃ x, U.fold x = U.fold c ∧ ∀ other ∈ U.forms x, a ∉ other) ∧
      ∀ y, ∀ other ∈ U.forms y, a ∈ other → U.fold y = U.fold c

end CaseTables

/-! ## Matching -/

/-- The characters with a meaning in patterns for text. -/
def textMetacharacters : StarPattern.Metacharacters Char :=
  ⟨'*', '.', '^', '$'⟩

/-- The bytes with a meaning in patterns for bytes. -/
def byteMetacharacters : StarPattern.Metacharacters UInt8 :=
  ⟨42, 46, 94, 36⟩

/-- The characters that a character of a pattern matches. -/
def sameChar
    (U : CaseTables)
    (ignoreCase : Bool)
    (c x : Char) : Bool :=
  if ignoreCase then U.fold c = U.fold x else c = x

/-- The bytes that a byte of a pattern matches. -/
def sameByte
    (ignoreCase : Bool)
    (b x : UInt8) : Bool :=
  if ignoreCase then asciiLowerByte b = asciiLowerByte x else b = x

section Compiling

variable (U : CaseTables) (pattern : Text) (ignoreCase : Bool)

/-- `re.compile` of a pattern. -/
def compilePattern : Option Regexes :=
  match StarPattern.parsePattern textMetacharacters pattern,
    StarPattern.parsePattern byteMetacharacters (utf8 pattern) with
  | some p, some q =>
      some ⟨StarPattern.search (sameByte ignoreCase) 10 q,
        StarPattern.search (sameChar U ignoreCase) '\n' p⟩
  | _, _ => none

/-- `re.compile` of `re.escape` of a fixed string. -/
def compileFixed : Regexes where
  searchBytes :=
    StarPattern.search (sameByte ignoreCase) 10 ((utf8 pattern).map fun b => .one (.char b))
  searchText :=
    StarPattern.search (sameChar U ignoreCase) '\n' (pattern.map fun c => .one (.char c))

end Compiling

/-- Python without the native extension. -/
def pythonHost (U : CaseTables) : Host where
  isLower := U.isLower
  lower := U.lower
  compile := fun pattern ignoreCase fixedStrings =>
    if fixedStrings then .ok (compileFixed U pattern ignoreCase)
    else
      match compilePattern U pattern ignoreCase with
      | some re => .ok re
      | none => .error "nothing to repeat"
  native := fun _ _ _ _ _ => .absent

/-- A pattern is compiled if it is parsed. -/
theorem compile_eq_ok_iff
    {U : CaseTables}
    {pattern : Text}
    {ignoreCase : Bool}
    {re : Regexes} :
    (pythonHost U).compile pattern ignoreCase false = .ok re ↔
      compilePattern U pattern ignoreCase = some re := by
  cases h : compilePattern U pattern ignoreCase <;> simp [pythonHost, h]

/-- Tables that leave every character as it is. -/
def plainTables : CaseTables where
  isLower := fun _ => false
  fold := id
  forms := fun c => [[c]]
  lowerBetween := fun _ c _ => [c]
  lowerBetween_mem := fun _ _ _ => List.mem_singleton_self _
  ne_nil_of_mem_forms := fun c form h => by
    rw [List.mem_singleton.mp h]
    exact List.cons_ne_nil c []
  newline_of_fold := fun _ h => h

end CpuSearch
end TensorGrep
