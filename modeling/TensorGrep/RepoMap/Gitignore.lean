import Mathlib
import TensorGrep.Kernel.Json
import TensorGrep.Kernel.PythonText

/-!
# The `.gitignore` matcher

A line of a `.gitignore` becomes a rule: a regular expression for paths, a flag
for negation and one for directories only.  A path is ignored by the last rule
that matches it or one of its ancestors, and where several files have a say by the
deepest of them.

Regular expressions are lists of parts; `matchParts` is what `re.match` does with
them.
-/

namespace TensorGrep
namespace RepoMap

open Kernel

/-! ## Paths -/

/-- The name of a file or a directory. -/
structure FileName where
  text : Text
  ne_nil : text ≠ []
  noSlash : '/' ∉ text
deriving DecidableEq

/-- Paths relative to the root of the repository. -/
abbrev RepoPath := List FileName

instance : LawfulBEq RepoPath :=
  inferInstance

/-- `as_posix`. -/
@[grind] def asPosix : RepoPath → Text
  | [] => []
  | [name] => name.text
  | name :: rest => name.text ++ '/' :: asPosix rest

/-- The directories on the way to a path. -/
def ancestorPrefixes (segments : RepoPath) : List RepoPath :=
  (List.range (segments.length - 1)).map fun index => segments.take (index + 1)

theorem asPosix_cons_cons
    (name name' : FileName)
    (rest : RepoPath) :
    asPosix (name :: name' :: rest) = name.text ++ '/' :: asPosix (name' :: rest) :=
  rfl

/-- A text is cut at its first slash in one way. -/
theorem append_slash_inj
    {xs ys u v : Text}
    (hxs : '/' ∉ xs)
    (hys : '/' ∉ ys)
    (heq : xs ++ '/' :: u = ys ++ '/' :: v) :
    xs = ys ∧ u = v := by
  induction xs generalizing ys with
  | nil =>
      cases ys with
      | nil => exact ⟨rfl, (List.cons.inj heq).2⟩
      | cons y ys =>
          exact absurd ((List.cons.inj heq).1 ▸ List.mem_cons_self) hys
  | cons x xs ih =>
      cases ys with
      | nil => exact absurd ((List.cons.inj heq).1 ▸ List.mem_cons_self) hxs
      | cons y ys =>
          obtain ⟨hhead, htail⟩ := List.cons.inj heq
          obtain ⟨hnames, hrest⟩ := ih (fun h => hxs (List.mem_cons_of_mem _ h))
            (fun h => hys (List.mem_cons_of_mem _ h)) htail
          exact ⟨by rw [hhead, hnames], hrest⟩

theorem FileName.eq_of_text
    {name name' : FileName}
    (h : name.text = name'.text) :
    name = name' := by
  cases name
  cases name'
  cases h
  rfl

/-- Different paths are spelled differently. -/
theorem asPosix_injective :
    Function.Injective asPosix := by
  intro p q h
  induction p generalizing q with
  | nil =>
      cases q with
      | nil => rfl
      | cons b q =>
          cases q with
          | nil => exact absurd h.symm b.ne_nil
          | cons b' q =>
              rw [asPosix_cons_cons] at h
              exact absurd (congrArg List.length h) (by simp [asPosix])
  | cons a p ih =>
      cases q with
      | nil =>
          cases p with
          | nil => exact absurd h a.ne_nil
          | cons a' p =>
              rw [asPosix_cons_cons] at h
              exact absurd (congrArg List.length h) (by simp [asPosix])
      | cons b q =>
          cases p with
          | nil =>
              cases q with
              | nil => rw [FileName.eq_of_text h]
              | cons b' q =>
                  rw [asPosix_cons_cons] at h
                  exact absurd ((show a.text = _ from h) ▸ by simp) a.noSlash
          | cons a' p =>
              cases q with
              | nil =>
                  rw [asPosix_cons_cons] at h
                  exact absurd ((show b.text = _ from h.symm) ▸ by simp) b.noSlash
              | cons b' q =>
                  rw [asPosix_cons_cons, asPosix_cons_cons] at h
                  obtain ⟨hhead, htail⟩ := append_slash_inj a.noSlash b.noSlash h
                  rw [FileName.eq_of_text hhead, ih htail]

/-! ## Patterns -/

/-- The parts of the expressions: `[^/]*`, `.*`, `(?:.*/)?`, `[^/]` and an escaped character. -/
inductive RegexPart where
  | segmentStar
  | anyChars
  | directories
  | oneChar
  | char (c : Char)
deriving DecidableEq

/-- `_gitignore_pattern_to_regex`. -/
@[grind] def gitignorePatternToRegex : Text → List RegexPart
  | [] => []
  | '*' :: '*' :: '/' :: rest => .directories :: gitignorePatternToRegex rest
  | '*' :: '*' :: rest => .anyChars :: gitignorePatternToRegex rest
  | '*' :: rest => .segmentStar :: gitignorePatternToRegex rest
  | '?' :: rest => .oneChar :: gitignorePatternToRegex rest
  | c :: rest => .char c :: gitignorePatternToRegex rest

/-- As many accepted characters as one likes, and then what comes next. -/
@[grind] def repeatThen
    (accepts : Char → Bool)
    (next : Text → Bool) : Text → Bool
  | [] => next []
  | x :: t => next (x :: t) || (accepts x && repeatThen accepts next t)

/-- A slash, and then what comes next. -/
@[grind] def slashThen (next : Text → Bool) : Text → Bool
  | [] => false
  | x :: t => x = '/' && next t

/-- `.` -/
def notNewline (x : Char) : Bool :=
  x ≠ '\n'

/-- `[^/]` -/
def notSlash (x : Char) : Bool :=
  x ≠ '/'

/-- `(?:.*/)?`, and then what comes next. -/
def directoriesThen
    (next : Text → Bool)
    (t : Text) : Bool :=
  next t || repeatThen notNewline (slashThen next) t

/-- `$` -/
def atEnd (t : Text) : Bool :=
  t = [] || t = ['\n']

/-- `(?:/.*)?$` -/
def atDescendant (t : Text) : Bool :=
  atEnd t || slashThen (repeatThen notNewline atEnd) t

/-- The parts match a beginning of the text, and the rest is in order. -/
@[grind] def matchParts (final : Text → Bool) : List RegexPart → Text → Bool
  | [], t => final t
  | .segmentStar :: parts, t => repeatThen notSlash (matchParts final parts) t
  | .anyChars :: parts, t => repeatThen notNewline (matchParts final parts) t
  | .directories :: parts, t => directoriesThen (matchParts final parts) t
  | .oneChar :: _, [] => false
  | .oneChar :: parts, x :: t => notSlash x && matchParts final parts t
  | .char _ :: _, [] => false
  | .char c :: parts, x :: t => x = c && matchParts final parts t

/-! ## Rules -/

/-- A rule of a `.gitignore`. -/
structure GitignoreRule where
  fragment : List RegexPart
  anchored : Bool
  negated : Bool
  dirOnly : Bool
deriving DecidableEq

/-- White space for `str.strip`. -/
def isSpaceChar (c : Char) : Bool :=
  isSpaceCode (Fin.ofNat 0x110000 c.toNat)

/-- `str.rstrip`. -/
def rstripSpace (t : Text) : Text :=
  t.rdropWhile isSpaceChar

/-- A line without the mark of its negation, and whether there is one.  A literal `#` or `!` in
front is escaped with a backslash. -/
@[grind] def splitNegation : Text → Bool × Text
  | '!' :: rest => (true, rest)
  | '\\' :: '#' :: rest => (false, '#' :: rest)
  | '\\' :: '!' :: rest => (false, '!' :: rest)
  | line => (false, line)

/-- A line of a `.gitignore`, if there is a pattern in it. -/
@[grind] def parseGitignoreLine (rawLine : Text) : Option GitignoreRule :=
  let line := rawLine.rdropWhile (· = '\n')
  if line.all isSpaceChar || (line.dropWhile isSpaceChar).head? = some '#' then none
  else
    let (negated, line) := splitNegation line
    let line := rstripSpace line
    if line = [] then none
    else
      let dirOnly := line.getLast? = some '/'
      let body := if dirOnly then line.dropLast else line
      let anchored := body.head? = some '/' || '/' ∈ body.rdropWhile (· = '/')
      let body := body.dropWhile (· = '/')
      if body = [] then none
      else some ⟨gitignorePatternToRegex body, anchored, negated, dirOnly⟩

/-- `_GitignoreMatcher`: the rules of the `.gitignore` in a directory. -/
structure GitignoreMatcher where
  base : RepoPath
  rules : List GitignoreRule

/-- The matcher of the lines of a `.gitignore`. -/
@[grind] def gitignoreMatcher
    (base : RepoPath)
    (lines : List Text) : GitignoreMatcher :=
  ⟨base, lines.filterMap parseGitignoreLine⟩

/-- `bool(compiled.match(path))`. -/
def GitignoreRule.matchesPath
    (rule : GitignoreRule)
    (path : RepoPath) : Bool :=
  let fragment := matchParts atDescendant rule.fragment
  if rule.anchored then fragment (asPosix path) else directoriesThen fragment (asPosix path)

/-- The rule has a say about the path. -/
def GitignoreRule.applies
    (rule : GitignoreRule)
    (segments : RepoPath)
    (isDir : Bool) : Bool :=
  if rule.dirOnly then
    (ancestorPrefixes segments).any rule.matchesPath || (isDir && rule.matchesPath segments)
  else rule.matchesPath segments || (ancestorPrefixes segments).any rule.matchesPath

/-- The decision of the last rule that applies. -/
def lastDecision
    (applies : GitignoreRule → Bool)
    (rules : List GitignoreRule) : Option Bool :=
  rules.foldl (fun decision rule => if applies rule then some (!rule.negated) else decision) none

/-- `relative_to`. -/
def relativeTo
    (base path : RepoPath) : Option RepoPath :=
  if base <+: path then some (path.drop base.length) else none

/-- `_GitignoreMatcher.check`. -/
def GitignoreMatcher.check
    (matcher : GitignoreMatcher)
    (path : RepoPath)
    (isDir : Bool) : Option Bool :=
  match relativeTo matcher.base path with
  | none => none
  | some [] => none
  | some segments => lastDecision (fun rule => rule.applies segments isDir) matcher.rules

/-- `_stack_ignored`. -/
def stackIgnored
    (stack : List GitignoreMatcher)
    (path : RepoPath)
    (isDir : Bool) : Bool :=
  (stack.foldl (fun decision matcher => (matcher.check path isDir).or decision) none).getD false

/-! ## Stacks -/

theorem check_of_no_rules
    {matcher : GitignoreMatcher}
    (h : matcher.rules = [])
    (path : RepoPath)
    (isDir : Bool) :
    matcher.check path isDir = none := by
  rw [GitignoreMatcher.check, h]
  split <;> rfl

/-- The deepest matcher decides if it has a say. -/
theorem stackIgnored_append
    (stack : List GitignoreMatcher)
    (matcher : GitignoreMatcher)
    (path : RepoPath)
    (isDir : Bool) :
    stackIgnored (stack ++ [matcher]) path isDir =
      (matcher.check path isDir).getD (stackIgnored stack path isDir) := by
  rw [stackIgnored, List.foldl_append, List.foldl_cons, List.foldl_nil, stackIgnored]
  cases matcher.check path isDir with
  | none => rfl
  | some decision => rfl

end RepoMap
end TensorGrep
