import TensorGrep.AstRules.Hints
import TensorGrep.Kernel.JointReplace
import TensorGrep.Rewrite.Validation

/-!
# Validation commands

A validation command is a template.  It is split into tokens at the white space
outside quotes, the path of a file is put in the place of the placeholders of each
token, and the first token is started as a program with the others as arguments.

The path is data if and only if the program has no placeholder, and putting the path
in the place of `$file` makes no further placeholder (`fileNameIsData_iff`).
-/

namespace TensorGrep
namespace Rewrite

open Kernel
open AstRules (isRustSpace)

/-! ## Splitting a template -/

/-- The variables of the loop of `split_validation_command_argv`. -/
structure ArgvLoop where
  argv : List Text
  current : Text
  started : Bool
  inQuotes : Bool
  quoteChar : Char

/-- There is a token that has not been pushed. -/
def ArgvLoop.hasToken (l : ArgvLoop) : Bool :=
  l.started || !l.current.isEmpty

/-- One round of the loop of `split_validation_command_argv`. -/
def ArgvLoop.step
    (l : ArgvLoop)
    (character : Char) : ArgvLoop :=
  let isQuote := character = '"' || character = '\''
  if isQuote && l.inQuotes && character = l.quoteChar then
    { l with inQuotes := false, quoteChar := '\x00' }
  else if isQuote && !l.inQuotes then
    { l with inQuotes := true, quoteChar := character, started := true }
  else if isRustSpace character && !l.inQuotes then
    if l.hasToken then { l with argv := l.argv ++ [l.current], current := [], started := false }
    else l
  else { l with started := true, current := l.current ++ [character] }

/-- What `split_validation_command_argv` returns after its loop. -/
def ArgvLoop.finish (l : ArgvLoop) : List Text :=
  if l.inQuotes then []
  else if l.hasToken then l.argv ++ [l.current]
  else l.argv

/-- The loop between two tokens. -/
def ArgvLoop.between (argv : List Text) : ArgvLoop :=
  ⟨argv, [], false, false, '\x00'⟩

/-- `split_validation_command_argv`. -/
def splitValidationCommandArgv (command : Text) : List Text :=
  (command.foldl ArgvLoop.step (.between [])).finish

/-! ## Placeholders -/

def dollarFile : Text :=
  "$file".toList

def bracesFile : Text :=
  "\x7bfile\x7d".toList

/-- The token has a placeholder. -/
def tokenUsesFilePlaceholder (token : Text) : Bool :=
  decide (dollarFile <:+: token) || decide (bracesFile <:+: token)

/-- `validation_command_argv`. -/
def validationCommandArgv
    (template : Text)
    (filePath : Option Text) : List Text :=
  let argv := splitValidationCommandArgv template
  match filePath with
  | none => argv
  | some path =>
      argv.map fun token =>
        if tokenUsesFilePlaceholder token then
          replaceAll bracesFile path (replaceAll dollarFile path token)
        else token

/-! ## Running a command -/

/-- The program and the arguments that `run_validation_command` starts, or the text of the error
with which it starts none. -/
def validationSpawn
    (template : Text)
    (filePath : Option Text) : Except String (Text × List Text) :=
  let tokens := splitValidationCommandArgv template
  if tokens.head?.all List.isEmpty then
    .error "validation command is empty or has unbalanced quotes"
  else if filePath.isSome && tokens.length = 1 && tokens.head?.any tokenUsesFilePlaceholder then
    .error "validation command must name a program before the $file/\x7bfile\x7d placeholder"
  else
    match validationCommandArgv template filePath with
    | [] => .error "validation command is empty"
    | program :: args => .ok (program, args)

/-- How starting a program and waiting for it ends. -/
inductive ChildEnd where
  | spawnFailed (error : Text)
  | waitFailed (error : Text)
  | timedOut
  | exited (success : Bool) (code : Option Int) (stdout stderr : Bytes)

/-- A command that ends without an exit code. -/
def CommandOutcome.failed (text : Text) : CommandOutcome :=
  ⟨false, none, [], utf8 text⟩

/-- `run_validation_command`, up to the kind and the text of the command, which it returns as it
gets them.  `child` starts a program with arguments and waits for it. -/
def runValidationCommand
    (child : Text → List Text → ChildEnd)
    (workingDir : Text)
    (timeoutMs : Nat)
    (template : Text)
    (filePath : Option Text) : CommandOutcome :=
  match validationSpawn template filePath with
  | .error text => .failed text.toList
  | .ok (program, args) =>
      match child program args with
      | .spawnFailed error =>
          .failed ("failed to spawn validation command in ".toList ++ workingDir ++
            ": ".toList ++ error)
      | .waitFailed error =>
          .failed ("failed to wait for validation command in ".toList ++ workingDir ++
            ": ".toList ++ error)
      | .timedOut =>
          .failed (("validation command exceeded " ++ toString timeoutMs ++ "ms timeout").toList)
      | .exited success code stdout stderr =>
          ⟨success, code, toStringLossy stdout, toStringLossy stderr⟩

/-! ## Quoted tokens -/

section Quoting

/-- A token between quotes. -/
def quoteWith
    (quote : Char)
    (token : Text) : Text :=
  quote :: (token ++ [quote])

/-- Tokens between quotes that they do not have, with blanks between them, are split back. -/
def QuotedTokensSplitBack : Prop :=
  ∀ tokens : List (Char × Text),
    (∀ quoted ∈ tokens, (quoted.1 = '"' ∨ quoted.1 = '\'') ∧ quoted.1 ∉ quoted.2) →
    splitValidationCommandArgv
        ([' '].intercalate (tokens.map fun quoted => quoteWith quoted.1 quoted.2)) =
      tokens.map Prod.snd

/-- Between quotes every other character belongs to the token. -/
theorem foldl_step_in_quotes
    {quote : Char}
    {token : Text}
    (h : quote ∉ token)
    (argv : List Text)
    (current : Text) :
    token.foldl ArgvLoop.step ⟨argv, current, true, true, quote⟩ =
      ⟨argv, current ++ token, true, true, quote⟩ := by
  induction token generalizing current with
  | nil => simp
  | cons c token ih =>
      rw [List.mem_cons, not_or] at h
      have hstep : ArgvLoop.step ⟨argv, current, true, true, quote⟩ c =
          ⟨argv, current ++ [c], true, true, quote⟩ := by
        simp [ArgvLoop.step, Ne.symm h.1]
      rw [List.foldl_cons, hstep, ih h.2, List.append_assoc, List.singleton_append]

/-- A quoted token is read as it is. -/
theorem foldl_step_quoteWith
    {quote : Char}
    {token : Text}
    (hquote : quote = '"' ∨ quote = '\'')
    (h : quote ∉ token)
    (argv : List Text) :
    (quoteWith quote token).foldl ArgvLoop.step (.between argv) =
      ⟨argv, token, true, false, '\x00'⟩ := by
  have hopen : ArgvLoop.step (.between argv) quote = ⟨argv, [], true, true, quote⟩ := by
    simp [ArgvLoop.step, ArgvLoop.between, hquote]
  have hclose : ArgvLoop.step ⟨argv, token, true, true, quote⟩ quote =
      ⟨argv, token, true, false, '\x00'⟩ := by
    simp [ArgvLoop.step, hquote]
  rw [quoteWith, List.foldl_cons, hopen, List.foldl_append, foldl_step_in_quotes h,
    List.nil_append, List.foldl_cons, hclose, List.foldl_nil]

/-- A blank behind a token ends it. -/
theorem step_blank
    (argv : List Text)
    (token : Text) :
    ArgvLoop.step ⟨argv, token, true, false, '\x00'⟩ ' ' = .between (argv ++ [token]) := by
  have hspace : isRustSpace ' ' = true := by
    decide
  simp [ArgvLoop.step, ArgvLoop.between, ArgvLoop.hasToken, hspace]

theorem quotedTokensSplitBack :
    QuotedTokensSplitBack := by
  suffices hloop : ∀ (tokens : List (Char × Text)) (argv : List Text),
      (∀ quoted ∈ tokens, (quoted.1 = '"' ∨ quoted.1 = '\'') ∧ quoted.1 ∉ quoted.2) →
      (([' '].intercalate (tokens.map fun quoted => quoteWith quoted.1 quoted.2)).foldl
        ArgvLoop.step (.between argv)).finish = argv ++ tokens.map Prod.snd by
    intro tokens h
    exact hloop tokens [] h
  intro tokens
  induction tokens with
  | nil =>
      intro argv _
      simp [ArgvLoop.finish, ArgvLoop.between, ArgvLoop.hasToken]
  | cons first tokens ih =>
      intro argv h
      obtain ⟨hquote, hfree⟩ := h first List.mem_cons_self
      have hread := foldl_step_quoteWith hquote hfree argv
      cases tokens with
      | nil => simp [hread, ArgvLoop.finish, ArgvLoop.hasToken]
      | cons second tokens =>
          have hrest := ih (argv ++ [first.2]) fun quoted hmem =>
            h quoted (List.mem_cons_of_mem _ hmem)
          rw [List.map_cons] at hrest
          rw [List.map_cons, List.map_cons, List.intercalate_cons_cons, List.foldl_append,
            List.foldl_append, hread, List.foldl_cons, List.foldl_nil, step_blank, hrest]
          simp

end Quoting

/-! ## When a file name is data -/

/-- The two placeholders. -/
def filePlaceholders : PatternPair Char where
  firstHead := '$'
  firstTail := "file".toList
  secondHead := '\x7b'
  secondTail := "file\x7d".toList
  first_apart := by simp
  second_apart := by simp
  second_once := by simp

/-- The path is data for a template: the started program and its arguments are the tokens of the
template with the path for every placeholder, and for every path the same program is started with
as many arguments. -/
structure FileNameIsData (template path : Text) : Prop where
  filled : ∀ program args, validationSpawn template (some path) = .ok (program, args) →
    program :: args =
      (splitValidationCommandArgv template).map (filePlaceholders.fill path)
  steady : ∀ program args path' program' args',
    validationSpawn template (some path) = .ok (program, args) →
    validationSpawn template (some path') = .ok (program', args') →
      program' = program ∧ args'.length = args.length

/-- The path for `$file` makes no further placeholder in braces, or is this placeholder. -/
def MakesNoPlaceholder (path token : Text) : Prop :=
  path = bracesFile ∨
    occurrences bracesFile (replaceAll dollarFile path token) = occurrences bracesFile token

/-- The template starts no program, or the program has no placeholder and the path makes none. -/
def PathStaysData (template path : Text) : Prop :=
  match splitValidationCommandArgv template with
  | [] => True
  | program :: rest =>
      program = [] ∨ (rest = [] ∧ tokenUsesFilePlaceholder program = true) ∨
        (tokenUsesFilePlaceholder program = false ∧
          ∀ token ∈ program :: rest, MakesNoPlaceholder path token)

section Data

variable {template path : Text}

theorem usesFilePlaceholder_iff
    {token : Text} :
    tokenUsesFilePlaceholder token = true ↔ filePlaceholders.OccursIn token := by
  rw [tokenUsesFilePlaceholder, Bool.or_eq_true, decide_eq_true_iff, decide_eq_true_iff]
  rfl

/-- A token of the arguments has the path for one placeholder after the other. -/
theorem argvToken_eq_fillInTurn
    (path token : Text) :
    (if tokenUsesFilePlaceholder token then
        replaceAll bracesFile path (replaceAll dollarFile path token)
      else token) = filePlaceholders.fillInTurn path token := by
  split_ifs with huses
  · rfl
  · rw [usesFilePlaceholder_iff] at huses
    exact (PatternPair.fillInTurn_of_not_occursIn huses).symm

/-- The first token is empty, or the only one and a placeholder is in it. -/
def RefusedTokens
    (first : Text)
    (rest : List Text) : Prop :=
  first = [] ∨ (rest = [] ∧ tokenUsesFilePlaceholder first = true)

/-- No program is started without tokens. -/
theorem validationSpawn_of_nil
    (hsplit : splitValidationCommandArgv template = []) :
    ∃ text, validationSpawn template (some path) = .error text := by
  simp [validationSpawn, hsplit]

/-- No program is started when the tokens are refused. -/
theorem validationSpawn_of_refused
    {first : Text}
    {rest : List Text}
    (hsplit : splitValidationCommandArgv template = first :: rest)
    (hrefused : RefusedTokens first rest) :
    ∃ text, validationSpawn template (some path) = .error text := by
  rw [validationSpawn, hsplit]
  rcases hrefused with rfl | ⟨rfl, huses⟩
  · exact ⟨_, rfl⟩
  · by_cases hempty : first = []
    · subst hempty
      exact ⟨_, rfl⟩
    · simp [hempty, huses]

/-- The first token with the path is started, with the others as arguments. -/
theorem validationSpawn_of_not_refused
    {first : Text}
    {rest : List Text}
    (hsplit : splitValidationCommandArgv template = first :: rest)
    (hstarted : ¬ RefusedTokens first rest) :
    validationSpawn template (some path) =
      .ok (filePlaceholders.fillInTurn path first,
        rest.map (filePlaceholders.fillInTurn path)) := by
  rw [RefusedTokens, not_or] at hstarted
  obtain ⟨hempty, hsingle⟩ := hstarted
  have hargv : validationCommandArgv template (some path) =
      filePlaceholders.fillInTurn path first ::
        rest.map (filePlaceholders.fillInTurn path) := by
    rw [validationCommandArgv, hsplit]
    simp only [argvToken_eq_fillInTurn, List.map_cons]
  have hguard : ((some path).isSome && decide ((first :: rest).length = 1) &&
      (first :: rest).head?.any tokenUsesFilePlaceholder) = false := by
    simpa using hsingle
  rw [validationSpawn, hsplit, hargv, hguard]
  simp [hempty]

/-- A token is filled if the path makes no further placeholder in it. -/
theorem fillInTurn_eq_fill_iff_makesNoPlaceholder
    (path token : Text) :
    filePlaceholders.fillInTurn path token = filePlaceholders.fill path token ↔
      MakesNoPlaceholder path token :=
  PatternPair.fillInTurn_eq_fill_iff token

/-- For a long enough path a token with a placeholder becomes another one. -/
theorem exists_path_fillInTurn_ne
    {token : Text}
    (huses : filePlaceholders.OccursIn token)
    (outcome : Text) :
    ∃ path, filePlaceholders.fillInTurn path token ≠ outcome := by
  obtain ⟨path, hpath⟩ : ∃ path : Text,
      path.length = outcome.length + filePlaceholders.second.length + 1 :=
    ⟨List.replicate _ 'a', List.length_replicate⟩
  refine ⟨path, fun heq => ?_⟩
  have hfill := @PatternPair.length_le_fill _ _ filePlaceholders path token huses
  have hturn := @PatternPair.length_fill_le_fillInTurn _ _ filePlaceholders path (by omega) token
  rw [heq] at hturn
  omega

/-- A template without a program has nothing to do with file names. -/
theorem fileNameIsData_of_refused
    (h : ∀ path, ∃ text, validationSpawn template (some path) = .error text) :
    FileNameIsData template path := by
  have hnone : ∀ path program args, validationSpawn template (some path) ≠ .ok (program, args) := by
    intro path program args hok
    obtain ⟨text, htext⟩ := h path
    rw [htext] at hok
    cases hok
  exact ⟨fun program args hok => absurd hok (hnone path program args),
    fun program args _ _ _ hok => absurd hok (hnone path program args)⟩

/-- A started template treats the path as data if the program has no placeholder and the path
makes none. -/
theorem fileNameIsData_iff_of_not_refused
    {first : Text}
    {rest : List Text}
    (hsplit : splitValidationCommandArgv template = first :: rest)
    (hstarted : ¬ RefusedTokens first rest) :
    FileNameIsData template path ↔
      tokenUsesFilePlaceholder first = false ∧
        ∀ token ∈ first :: rest, MakesNoPlaceholder path token := by
  have hspawn : ∀ path, validationSpawn template (some path) =
      .ok (filePlaceholders.fillInTurn path first,
        rest.map (filePlaceholders.fillInTurn path)) :=
    fun path => validationSpawn_of_not_refused hsplit hstarted
  constructor
  · intro h
    constructor
    · by_contra huses
      rw [Bool.not_eq_false, usesFilePlaceholder_iff] at huses
      obtain ⟨path', hne⟩ := exists_path_fillInTurn_ne huses
        (filePlaceholders.fillInTurn path first)
      exact hne (h.steady _ _ path' _ _ (hspawn path) (hspawn path')).1
    · have hfilled := h.filled _ _ (hspawn path)
      rw [hsplit, ← List.map_cons, List.map_inj_left] at hfilled
      intro token hmem
      exact (fillInTurn_eq_fill_iff_makesNoPlaceholder path token).mp (hfilled token hmem)
  · rintro ⟨huses, hnone⟩
    have hprogram : ∀ path', filePlaceholders.fillInTurn path' first = first := by
      intro path'
      rw [← Bool.not_eq_true, usesFilePlaceholder_iff] at huses
      exact PatternPair.fillInTurn_of_not_occursIn huses
    constructor
    · intro program args hok
      rw [hspawn, Except.ok.injEq, Prod.mk.injEq] at hok
      obtain ⟨rfl, rfl⟩ := hok
      rw [hsplit, ← List.map_cons, List.map_inj_left]
      intro token hmem
      exact (fillInTurn_eq_fill_iff_makesNoPlaceholder path token).mpr (hnone token hmem)
    · intro program args path' program' args' hok hok'
      rw [hspawn, Except.ok.injEq, Prod.mk.injEq, hprogram] at hok hok'
      obtain ⟨rfl, rfl⟩ := hok
      obtain ⟨rfl, rfl⟩ := hok'
      exact ⟨rfl, by rw [List.length_map, List.length_map]⟩

/-- The path of a file is data if and only if the template starts no program, or the program has
no placeholder and the path for `$file` makes no further placeholder. -/
theorem fileNameIsData_iff
    (template path : Text) :
    FileNameIsData template path ∧ QuotedTokensSplitBack ↔ PathStaysData template path := by
  rw [and_iff_left quotedTokensSplitBack, PathStaysData]
  cases hsplit : splitValidationCommandArgv template with
  | nil =>
      exact iff_of_true (fileNameIsData_of_refused fun _ => validationSpawn_of_nil hsplit) trivial
  | cons first rest =>
      by_cases hrefused : RefusedTokens first rest
      · refine iff_of_true (fileNameIsData_of_refused fun _ =>
          validationSpawn_of_refused hsplit hrefused) ?_
        exact hrefused.imp_right Or.inl
      · rw [fileNameIsData_iff_of_not_refused hsplit hrefused]
        rw [RefusedTokens, not_or] at hrefused
        simp only [hrefused.1, hrefused.2, false_or]

/-- A placeholder in the place of the program starts the file, and the name of a file can hold a
placeholder. -/
theorem file_name_is_more_than_data :
    (validationSpawn "$file --check".toList (some "/w/a".toList) =
        .ok ("/w/a".toList, ["--check".toList]) ∧
      validationSpawn "cat $file".toList (some "/w/{file}".toList) =
        .ok ("cat".toList, ["/w//w/{file}".toList])) ∧
      ¬ FileNameIsData "$file --check".toList "/w/a".toList ∧
      ¬ FileNameIsData "cat $file".toList "/w/{file}".toList := by
  refine ⟨⟨by rfl, by rfl⟩, ?_, ?_⟩
  · intro h
    have hsame := (h.steady "/w/a".toList ["--check".toList] "/w/b".toList "/w/b".toList
      ["--check".toList] (by rfl) (by rfl)).1
    simp at hsame
  · intro h
    have hfilled := h.filled "cat".toList ["/w//w/\x7bfile\x7d".toList] (by rfl)
    revert hfilled
    decide

end Data

end Rewrite
end TensorGrep
