import TensorGrep.AstRules.Hints
import TensorGrep.Kernel.MultiMap
import TensorGrep.Scan.Results

/-!
# Testing rules

A test case has snippets that a rule should flag and snippets that it should not.  The
runners of both languages read a pattern and a language off a case, or off the rule
that it names, gather the snippets of all cases for each pattern and language, and
search them together in files of their own.  A rule has one pattern for the tests: the
first of its members.

The scans search for every member.  Which rows a run has is known from its cases
(`mem_rows_executeAstTestCore`, `mem_rows_testCommand`).
-/

namespace TensorGrep
namespace Scan

open Kernel AstRules

/-! ## Cases -/

/-- The field `valid` or `invalid` of a case. -/
inductive SnippetField where
  | missing
  | one (snippet : Text)
  | many (snippets : List Text)

/-- The texts of a field. -/
def SnippetField.texts : SnippetField → List Text
  | .missing => []
  | .one snippet => [snippet]
  | .many snippets => snippets

/-- A test case: its fields `pattern` and `rule.pattern`, if they are texts, and the others. -/
structure TestCase where
  id : Option Text
  ruleId : Option Text
  pattern : Option Text
  rulePattern : Option Text
  language : Option Text
  valid : SnippetField
  invalid : SnippetField

/-- The snippets that should be flagged, or those that should not. -/
def TestCase.field
    (c : TestCase)
    (expectedMatch : Bool) : SnippetField :=
  if expectedMatch then c.invalid else c.valid

/-- A test file. -/
structure TestFile where
  file : Text
  stem : Text
  cases : List TestCase

/-- A pattern and the language that it is searched in. -/
abbrev BatchKey := Text × Text

/-- `BatchTestSnippet`, with the test file and the id of the case as its key -/
structure BatchTestSnippet where
  caseKey : Text × Text
  snippet : Text
  expectedMatch : Bool
deriving DecidableEq

/-- A failure that a runner lists. -/
inductive TestFailure where
  | unsupportedLanguage (caseKey : Text × Text)
  | missingPattern (caseKey : Text × Text)
  | emptyLists (caseKey : Text × Text)
  | backendError (caseKey : Text × Text)
  | unexpected (info : BatchTestSnippet)
deriving DecidableEq

/-- A snippet that has been searched, and whether it has a match. -/
structure TestRow where
  key : BatchKey
  info : BatchTestSnippet
  hasMatch : Bool
deriving DecidableEq

/-- The failure of a row whose match is not the expected one. -/
def TestRow.failure? (row : TestRow) : Option TestFailure :=
  if row.hasMatch ≠ row.info.expectedMatch then some (.unexpected row.info) else none

/-- How a runner reads a case: its id, its pattern and language, and its snippets. -/
structure CaseReader where
  caseId : TestFile → TestCase → Text
  batchKey : TestCase → Except (Text × Text → TestFailure) BatchKey
  snippets : SnippetField → List Text

/-- What is searched for a case. -/
structure CasePlan where
  key : BatchKey
  infos : List BatchTestSnippet

/-- The snippets of a plan with the pattern and the language. -/
def CasePlan.entries (plan : CasePlan) : List (BatchKey × BatchTestSnippet) :=
  plan.infos.map fun info => (plan.key, info)

/-- A case in the loop over the cases. -/
def planCase
    (reader : CaseReader)
    (file : TestFile)
    (c : TestCase) : Except TestFailure CasePlan :=
  let caseKey := (file.file, reader.caseId file c)
  match reader.batchKey c with
  | .error reason => .error (reason caseKey)
  | .ok key =>
      let valid := reader.snippets c.valid
      let invalid := reader.snippets c.invalid
      if valid = [] ∧ invalid = [] then .error (.emptyLists caseKey)
      else .ok {
        key := key
        infos := valid.map (fun snippet => ⟨caseKey, snippet, false⟩) ++
          invalid.map fun snippet => ⟨caseKey, snippet, true⟩ }

/-- All cases of the test files. -/
def planCases
    (reader : CaseReader)
    (testData : List TestFile) : List (Except TestFailure CasePlan) :=
  testData.flatMap fun file => file.cases.map (planCase reader file)

/-- The failure of a case that is not searched. -/
def planFailure? : Except TestFailure CasePlan → Option TestFailure
  | .error failure => some failure
  | .ok _ => none

/-- What is searched for a case that is. -/
def plannedEntries : Except TestFailure CasePlan → List (BatchKey × BatchTestSnippet)
  | .error _ => []
  | .ok plan => plan.entries

/-- What a run says, with the rows behind it. -/
structure TestRun where
  totalCases : ℕ
  failures : List TestFailure
  rows : List TestRow
  passed : Bool

/-! ## Rust -/

/-- A language of the native matcher. -/
inductive SupportLang where
  | python
  | javaScript
  | typeScript
  | rust
deriving DecidableEq

/-- The name under which the files of a language are kept. -/
def SupportLang.name : SupportLang → String
  | .python => "python"
  | .javaScript => "javascript"
  | .typeScript => "typescript"
  | .rust => "rust"

/-- The extensions of the files of a language. -/
def SupportLang.extensions : SupportLang → List String
  | .python => ["py", "py3", "pyi", "pyw", "bzl"]
  | .javaScript => ["js", "jsx", "cjs", "mjs"]
  | .typeScript => ["ts", "tsx", "cts", "mts"]
  | .rust => ["rs"]

/-- `file_matches_language` and the walk for a language, for an extension in small letters -/
def fileMatchesLanguage
    (extension : Text)
    (language : SupportLang) : Bool :=
  language.extensions.any fun e => e.toList = extension

/-- Why the native matcher does not search. -/
inductive MatcherError where
  | unsupportedLanguage
  | invalidPattern
deriving DecidableEq

/-- The native matcher: which language a name stands for, and what a pattern matches in a source
(`none`: it does not parse). -/
structure NativeMatcher where
  lower : Text → Text
  resolveLanguage : Text → Option SupportLang
  compile : Text → SupportLang → Option (Text → List Span)

/-- A pattern that is ready to be searched for. -/
def NativeMatcher.prepare
    (M : NativeMatcher)
    (pattern language : Text) : Except MatcherError (SupportLang × (Text → List Span)) :=
  match M.resolveLanguage language with
  | none => .error .unsupportedLanguage
  | some l =>
      match M.compile pattern l with
      | none => .error .invalidPattern
      | some spans => .ok (l, spans)

/-- The file of a snippet: its number and its suffix. -/
abbrev SnippetPath := ℕ × Text

/-- The suffix in `execute_batched_tests`. -/
def rustSuffix
    (M : NativeMatcher)
    (language : Text) : Text :=
  let name := M.lower language
  if name = "python".toList ∨ name = "py".toList then ".py".toList
  else if name = "javascript".toList ∨ name = "js".toList then ".js".toList
  else if name = "typescript".toList ∨ name = "ts".toList then ".ts".toList
  else ".py".toList

/-- `execute_batched_tests`: the results, and what is in the directory afterwards. -/
def executeBatchedTests
    (M : NativeMatcher)
    (dir : SnippetPath → Text)
    (key : BatchKey)
    (snippets : List BatchTestSnippet) : Except MatcherError (List Bool × (SnippetPath → Text)) := do
  let written := snippets.zipIdx.map fun entry => ((entry.2, rustSuffix M key.2), entry.1.snippet)
  let dir' := written.foldl (fun dir e => Function.update dir e.1 e.2) dir
  let (_, spans) ← M.prepare key.1 key.2
  let fileMatches := searchManyForCli (fun path => spans (dir' path)) (written.map Prod.fst)
  let matchedPaths := (fileMatches.filter fun m => !m.spans.isEmpty).map AstCliFileMatches.file
  return (written.map fun e => matchedPaths.any fun path => path = e.1, dir')

/-- The groups, one after the other in the same directory. -/
def executeGroups
    (M : NativeMatcher) :
    (SnippetPath → Text) → List (BatchKey × List BatchTestSnippet) →
      Except MatcherError (List TestRow)
  | _, [] => .ok []
  | dir, group :: groups => do
      let (results, dir') ← executeBatchedTests M dir group.1 group.2
      let rows ← executeGroups M dir' groups
      return (group.2.zip results).map (fun r => ⟨group.1, r.1, r.2⟩) ++ rows

/-- `extract_rule_pattern_json` -/
def extractRulePatternJson (c : TestCase) : Option Text :=
  (c.pattern.or c.rulePattern).map (trimWhere isRustSpace)

/-- The pattern and the language of a case in `execute_ast_test_core`. -/
def rustBatchKey
    (rules : List RuleSpec)
    (projectLanguage : Text)
    (c : TestCase) : Except (Text × Text → TestFailure) BatchKey :=
  match extractRulePatternJson c with
  | some pattern => .ok (pattern, c.language.getD projectLanguage)
  | none =>
      match c.ruleId.bind fun id => rules.find? fun rule => rule.id = id with
      | some rule => .ok (rule.pattern, rule.language)
      | none => .error .missingPattern

/-- How `execute_ast_test_core` reads a case. -/
def rustReader
    (rules : List RuleSpec)
    (projectLanguage : Text) : CaseReader where
  caseId := fun _ c => c.id.getD "test".toList
  batchKey := rustBatchKey rules projectLanguage
  snippets := SnippetField.texts

/-- The order in which a hash map is iterated. -/
structure GroupOrder where
  visit : List (BatchKey × List BatchTestSnippet) → List (BatchKey × List BatchTestSnippet)
  perm : ∀ l, (visit l).Perm l

/-- `execute_ast_test_core`, in a directory of its own -/
def executeAstTestCore
    (M : NativeMatcher)
    (order : GroupOrder)
    (dir : SnippetPath → Text)
    (rules : List RuleSpec)
    (projectLanguage : Text)
    (testData : List TestFile) : Except MatcherError TestRun :=
  let plans := planCases (rustReader rules projectLanguage) testData
  let entries := plans.flatMap plannedEntries
  if entries = [] then .ok ⟨0, plans.filterMap planFailure?, [], false⟩
  else do
    let rows ← executeGroups M dir (order.visit (MultiMap.groups entries))
    let failures := plans.filterMap planFailure? ++ rows.filterMap TestRow.failure?
    return ⟨entries.length, failures, rows, failures.isEmpty⟩

/-! ### The scan of a file -/

/-- A file of a project, with its extension in small letters. -/
structure SourceFile where
  extension : Text
  source : Text
deriving DecidableEq

/-- The names of the languages in `lang_to_files`. -/
def scannedLanguages : List SupportLang :=
  [.python, .javaScript, .typeScript, .rust]

/-- `lang_to_files`, of a project with one file -/
def langToFiles
    (file : SourceFile)
    (name : Text) : Option (List SourceFile) :=
  if scannedLanguages.any fun l => l.name.toList = name && fileMatchesLanguage file.extension l then
    some [file]
  else none

/-- What a member pattern of a rule matches in `execute_ast_scan_core`. -/
def rustMemberMatches
    (M : NativeMatcher)
    (hints : Text → Option BackendName)
    (file : SourceFile)
    (rule : RuleSpec)
    (member : Text) : Except MatcherError (List (AstCliFileMatches SourceFile)) :=
  if (hints rule.id).getD .astBackend = .astBackend then
    match langToFiles file (M.lower rule.language) with
    | some files => (M.prepare member rule.language).map fun prepared =>
        searchManyForCli (fun f => prepared.2 f.source) files
    | none => .ok []
  else
    (M.prepare member rule.language).map fun prepared =>
      searchManyForCli (fun f => prepared.2 f.source)
        ([file].filter fun f => fileMatchesLanguage f.extension prepared.1)

/-- The scan in Rust reports a match of the rule in the file. -/
def RustFlags
    (M : NativeMatcher)
    (hints : Text → Option BackendName)
    (file : SourceFile)
    (rule : RuleSpec) : Prop :=
  ∃ counts, executeAstScanRule (rustMemberMatches M hints file rule) rule = .ok counts ∧
    0 < counts.1

/-! ## Python -/

/-- A node: the line where it starts and its bytes. -/
abbrev Node := ℕ × Span

/-- The backends of Python: which are available, what they find for a pattern and a language in a
source (`none`: they fail), and what a project scan finds there for the ids of the rules. -/
structure AstBackends where
  available : BackendName → Bool
  search : BackendName → Text → Text → Option (Text → List Node)
  project : Text → Option (Text → List Node)

/-- Why Python has no backend, or no result. -/
inductive PythonError where
  | noRules
  | unsupportedLanguage
  | configuration
  | backend
deriving DecidableEq

/-- `_normalize_string_list` -/
def normalizeStringList : SnippetField → List Text
  | .missing => []
  | .one snippet => [snippet]
  | .many snippets => snippets.filter fun snippet => trimWhere isPythonSpace snippet ≠ []

/-- `_extract_rule_pattern` -/
def extractRulePattern (c : TestCase) : Option Text :=
  let strip := fun t : Text =>
    if trimWhere isPythonSpace t = [] then none else some (trimWhere isPythonSpace t)
  (c.pattern.bind strip).or (c.rulePattern.bind strip)

section Python

variable (texts : Texts)

/-- The language of a case, or else another one, under its name in the program. -/
def caseLanguage
    (c : TestCase)
    (otherwise : Text) : Option Text :=
  normalizeAstLanguage texts ((c.language.filter fun l => l ≠ []).getD otherwise)

/-- The pattern and the language of a case in `test_command`. -/
def pythonBatchKey
    (rules : List RuleSpec)
    (projectLanguage : Text)
    (c : TestCase) : Except (Text × Text → TestFailure) BatchKey :=
  match caseLanguage texts c projectLanguage with
  | none => .error .unsupportedLanguage
  | some language =>
      match extractRulePattern c with
      | some pattern => .ok (pattern, language)
      | none =>
          match c.ruleId.bind fun id => lastMatch (fun rule => rule.id = id) rules with
          | none => .error .missingPattern
          | some rule =>
              match caseLanguage texts c rule.language with
              | none => .error .unsupportedLanguage
              | some language =>
                  if rule.pattern = [] then .error .missingPattern
                  else .ok (rule.pattern, language)

/-- How `test_command` reads a case. -/
def pythonReader
    (rules : List RuleSpec)
    (projectLanguage : Text) : CaseReader where
  caseId := fun file c => (c.id.filter fun id => id ≠ []).getD file.stem
  batchKey := pythonBatchKey texts rules projectLanguage
  snippets := normalizeStringList

variable (B : AstBackends)

/-- `_select_ast_backend_for_pattern` -/
def selectAstBackendForPattern (pattern language : Text) : Except PythonError BackendName :=
  if B.available .astGrepWrapperBackend then .ok .astGrepWrapperBackend
  else if patternIsNativeShaped pattern && isNativeAstLanguage texts language &&
      B.available .astBackend then
    .ok .astBackend
  else .error .configuration

/-- `_select_ast_backend_for_rule` -/
def selectAstBackendForRule (rule : RuleSpec) : Except PythonError BackendName :=
  if ruleNeedsAstGrepWrapper rule then
    if B.available .astGrepWrapperBackend then .ok .astGrepWrapperBackend
    else .error .configuration
  else selectAstBackendForPattern texts B (rule.memberPatterns.headD []) rule.language

/-- A snippet and its language, which a file is written for once. -/
abbrev SnippetKey := Text × Text

/-- What `ast-grep` finds for a pattern in files. -/
def searchFiles
    {File : Type}
    [DecidableEq File]
    (source : File → Text)
    (nodes : Text → List Node)
    (files : List File) : SearchResult File :=
  parseResult (files.flatMap fun file => (nodes (source file)).map fun n =>
    ⟨none, some file, n.1, some n.2⟩) none false

/-- `_batch_search_snippets`, where the file of a snippet is known by the key of its cache -/
def batchSearchSnippets
    (nodes : Text → List Node)
    (key : BatchKey)
    (snippets : List Text) : List Bool :=
  let snippetPaths : List SnippetKey := snippets.map fun snippet => (snippet, key.2)
  let result := searchFiles Prod.fst nodes snippetPaths
  let matchedPaths := result.matchedFilePaths ++ result.matchLines.filterMap MatchLine.file
  snippetPaths.map fun path => matchedPaths.any fun p => p = path

/-- The rows of a batch, or its failures. -/
def batchOutcome (group : BatchKey × List BatchTestSnippet) :
    List TestRow × List TestFailure :=
  match B.search .astGrepWrapperBackend group.1.1 group.1.2 with
  | none => ([], group.2.map fun info => .backendError info.caseKey)
  | some nodes =>
      let results := batchSearchSnippets nodes group.1 (group.2.map BatchTestSnippet.snippet)
      ((group.2.zip results).map fun r => ⟨group.1, r.1, r.2⟩, [])

/-- The rows of a case that the native backend searches at once. -/
def nativeOutcome (plan : CasePlan) : List TestRow × List TestFailure :=
  match B.search .astBackend plan.key.1 plan.key.2 with
  | none => ([], (plan.infos.head?.map fun info => .backendError info.caseKey).toList)
  | some nodes =>
      (plan.infos.map fun info =>
        let result : SearchResult SnippetKey := nativeResult
          ((nodes info.snippet).map fun n => ⟨n.1 + 1, some (info.snippet, plan.key.2), some n.2⟩)
          false
        ⟨plan.key, info, decide (0 < result.totalFiles ∨ 0 < result.totalMatches ∨
          result.matchedFilePaths ≠ [])⟩, [])

/-- The backend of a case that is searched. -/
def casesWithBackends (plans : List (Except TestFailure CasePlan)) :
    Except PythonError (List (CasePlan × BackendName)) :=
  (plans.filterMap Except.toOption).mapM fun plan =>
    (selectAstBackendForPattern texts B plan.key.1 plan.key.2).map fun name => (plan, name)

/-- `test_command` -/
def testCommand
    (rules : List RuleSpec)
    (projectLanguage : Text)
    (testData : List TestFile) : Except PythonError TestRun :=
  if rules = [] then .error .noRules
  else do
    let plans := planCases (pythonReader texts rules projectLanguage) testData
    let chosen ← casesWithBackends texts B plans
    let native := (chosen.filter fun entry => entry.2 = .astBackend).map fun entry =>
      nativeOutcome B entry.1
    let batches := MultiMap.groups
      ((chosen.filter fun entry => entry.2 = .astGrepWrapperBackend).flatMap fun entry =>
        entry.1.entries)
    let outcomes := native ++ batches.map (batchOutcome B)
    let rows := outcomes.flatMap Prod.fst
    let failures := plans.filterMap planFailure? ++ outcomes.flatMap Prod.snd ++
      rows.filterMap TestRow.failure?
    return ⟨(plans.flatMap plannedEntries).length, failures, rows, failures.isEmpty⟩

/-! ### The scan of a file -/

/-- The backend of a rule in `scan_command`. -/
def scanBackend
    (hints : Text → Option BackendName)
    (rule : RuleSpec) : Except PythonError BackendName :=
  match hints rule.id with
  | some name => if B.available name then .ok name else selectAstBackendForRule texts B rule
  | none => selectAstBackendForRule texts B rule

/-- What the project scan finds for a rule in a file. -/
def projectFold
    (file : SourceFile)
    (found : Text → List Node)
    (rule : RuleSpec) : RuleFold SourceFile :=
  foldProject (if found rule.id = [] then .empty
    else parseResult ((found rule.id).map fun n => ⟨some rule.id, some file, n.1, some n.2⟩) none
      false)

/-- What a backend finds for a member of a rule. -/
def memberNodes
    (name : BackendName)
    (rule : RuleSpec)
    (member : Text) : Except PythonError (Text → List Node) :=
  match B.search name member rule.language with
  | some nodes => .ok nodes
  | none => .error .backend

/-- The matches of a rule for a backend, in a project with one file: a project scan, if it does not
fail, or a search for every member. -/
def scanWithBackend
    (file : SourceFile)
    (rule : RuleSpec) :
    BackendName → Except PythonError (RuleFold SourceFile)
  | .astGrepWrapperBackend =>
      match B.project file.source with
      | some found => .ok (projectFold file found rule)
      | none => do
          let results ← rule.memberPatterns.mapM fun member =>
            (memberNodes B .astGrepWrapperBackend rule member).map fun nodes =>
              searchFiles SourceFile.source nodes [file]
          return foldAllMany (isComposite rule) results
  | .astBackend => do
      let results ← rule.memberPatterns.mapM fun member =>
        (memberNodes B .astBackend rule member).map fun nodes => (file, nativeResult
          ((nodes file.source).map fun n => ⟨n.1 + 1, some file, some n.2⟩) false)
      return foldAllFiles (isComposite rule) results

/-- A rule in `scan_command`. -/
def scanCommandRule
    (hints : Text → Option BackendName)
    (file : SourceFile)
    (rule : RuleSpec) : Except PythonError (RuleFold SourceFile) :=
  scanBackend texts B hints rule >>= scanWithBackend B file rule

/-- The scan in Python reports a match of the rule in the file. -/
def PythonFlags
    (hints : Text → Option BackendName)
    (file : SourceFile)
    (rule : RuleSpec) : Prop :=
  ∃ acc, scanCommandRule texts B hints file rule = .ok acc ∧ 0 < acc.ruleMatches

end Python

/-! ## The rows of a run -/

section Plans

variable {reader : CaseReader} {testData : List TestFile}

/-- What a case that is searched has. -/
theorem planCase_eq_ok_iff
    {file : TestFile}
    {c : TestCase}
    {plan : CasePlan} :
    planCase reader file c = .ok plan ↔
      reader.batchKey c = .ok plan.key ∧ plan.infos ≠ [] ∧
        plan.infos = (reader.snippets c.valid).map
            (fun snippet => ⟨(file.file, reader.caseId file c), snippet, false⟩) ++
          (reader.snippets c.invalid).map
            fun snippet => ⟨(file.file, reader.caseId file c), snippet, true⟩ := by
  obtain ⟨key, infos⟩ := plan
  rw [planCase]
  cases hkey : reader.batchKey c with
  | error reason => simp
  | ok key' =>
      simp only [Except.ok.injEq]
      split
      · next hempty =>
        simp [hempty.1, hempty.2]
      · next hne =>
        simp only [Except.ok.injEq, CasePlan.mk.injEq]
        constructor
        · rintro ⟨rfl, rfl⟩
          refine ⟨rfl, ?_, rfl⟩
          simpa [List.append_eq_nil_iff] using hne
        · rintro ⟨rfl, -, rfl⟩
          exact ⟨rfl, rfl⟩

/-- The plans are those of the cases. -/
theorem ok_mem_planCases_iff
    {plan : CasePlan} :
    .ok plan ∈ planCases reader testData ↔
      ∃ file ∈ testData, ∃ c ∈ file.cases, planCase reader file c = .ok plan := by
  simp only [planCases, List.mem_flatMap, List.mem_map]

theorem mem_plannedEntries_iff
    {result : Except TestFailure CasePlan}
    {entry : BatchKey × BatchTestSnippet} :
    entry ∈ plannedEntries result ↔
      ∃ plan, result = .ok plan ∧ plan.key = entry.1 ∧ entry.2 ∈ plan.infos := by
  obtain ⟨key, info⟩ := entry
  cases result with
  | error failure => simp [plannedEntries]
  | ok plan => simp [plannedEntries, CasePlan.entries, and_comm]

/-- A snippet is searched if and only if a case has it. -/
theorem mem_entries_iff
    {entry : BatchKey × BatchTestSnippet} :
    entry ∈ (planCases reader testData).flatMap plannedEntries ↔
      ∃ file ∈ testData, ∃ c ∈ file.cases, reader.batchKey c = .ok entry.1 ∧
        entry.2.caseKey = (file.file, reader.caseId file c) ∧
          entry.2.snippet ∈ reader.snippets (c.field entry.2.expectedMatch) := by
  obtain ⟨key, caseKey, snippet, expected⟩ := entry
  simp only [List.mem_flatMap, mem_plannedEntries_iff]
  constructor
  · rintro ⟨_, hplan, plan, rfl, rfl, hinfo⟩
    obtain ⟨file, hfile, c, hc, hok⟩ := ok_mem_planCases_iff.mp hplan
    obtain ⟨hkey, -, hinfos⟩ := planCase_eq_ok_iff.mp hok
    rw [hinfos, List.mem_append, List.mem_map, List.mem_map] at hinfo
    refine ⟨file, hfile, c, hc, hkey, ?_⟩
    rcases hinfo with ⟨snippet, hsnippet, heq⟩ | ⟨snippet, hsnippet, heq⟩
    · cases heq
      exact ⟨rfl, hsnippet⟩
    · cases heq
      exact ⟨rfl, hsnippet⟩
  · rintro ⟨file, hfile, c, hc, hkey, rfl, hsnippet⟩
    have hinfo : ⟨(file.file, reader.caseId file c), snippet, expected⟩ ∈
        (reader.snippets c.valid).map
            (fun snippet => ⟨(file.file, reader.caseId file c), snippet, false⟩) ++
          (reader.snippets c.invalid).map
            fun snippet => (⟨(file.file, reader.caseId file c), snippet, true⟩ :
              BatchTestSnippet) := by
      rw [List.mem_append, List.mem_map, List.mem_map]
      cases expected with
      | false => exact Or.inl ⟨snippet, hsnippet, rfl⟩
      | true => exact Or.inr ⟨snippet, hsnippet, rfl⟩
    refine ⟨_, ok_mem_planCases_iff.mpr ⟨file, hfile, c, hc, ?_⟩, ⟨key, _⟩, rfl, rfl, hinfo⟩
    exact planCase_eq_ok_iff.mpr ⟨hkey, List.ne_nil_of_mem hinfo, rfl⟩

end Plans

theorem zip_map_right
    {α β γ : Type*}
    (l : List α)
    (f : α → β)
    (g : α × β → γ) :
    (l.zip (l.map f)).map g = l.map fun a => g (a, f a) := by
  induction l with
  | nil => rfl
  | cons a l ih => rw [List.map_cons, List.zip_cons_cons, List.map_cons, List.map_cons, ih]

section RustRows

variable {M : NativeMatcher}

/-- A batch has the matches of the pattern in its snippets, whatever was in the directory. -/
theorem executeBatchedTests_eq
    {key : BatchKey}
    {prepared : SupportLang × (Text → List Span)}
    (h : M.prepare key.1 key.2 = .ok prepared)
    (dir : SnippetPath → Text)
    (snippets : List BatchTestSnippet) :
    ∃ dir', executeBatchedTests M dir key snippets =
      .ok (snippets.map fun info => decide (prepared.2 info.snippet ≠ []), dir') := by
  rw [executeBatchedTests, h]
  refine ⟨_, congrArg Except.ok (Prod.ext ?_ rfl)⟩
  dsimp only
  generalize hsuffix : rustSuffix M key.2 = suffix
  generalize hwritten : (snippets.zipIdx.map fun entry =>
    (((entry.2, suffix), entry.1.snippet) : SnippetPath × Text)) = written
  have hnodup : (written.map Prod.fst).Nodup := by
    rw [← hwritten, List.map_map]
    refine List.Nodup.of_map Prod.fst ?_
    rw [List.map_map]
    change (snippets.zipIdx.map Prod.snd).Nodup
    rw [List.zipIdx_map_snd]
    exact List.nodup_range'
  have hread : ∀ e ∈ written,
      (written.foldl (fun dir e => Function.update dir e.1 e.2) dir) e.1 = e.2 :=
    fun e he => foldl_update_apply hnodup he dir
  have hmatched : ∀ e ∈ written,
      (((searchManyForCli (fun path => prepared.2
          (written.foldl (fun dir e => Function.update dir e.1 e.2) dir path))
        (written.map Prod.fst)).filter fun m => !m.spans.isEmpty).map
          AstCliFileMatches.file).any (fun path => path = e.1) =
        decide (prepared.2 e.2 ≠ []) := by
    intro e he
    rw [Bool.eq_iff_iff, List.any_eq_true, decide_eq_true_iff]
    simp only [List.mem_map, List.mem_filter, mem_searchManyForCli, decide_eq_true_eq]
    constructor
    · rintro ⟨path, ⟨m, ⟨⟨-, hne, -⟩, -⟩, rfl⟩, hpath⟩
      rwa [hpath, hread e he] at hne
    · intro hne
      refine ⟨e.1, ⟨⟨e.1, prepared.2 e.2⟩, ⟨⟨⟨e, he, rfl⟩, ?_, ?_⟩, ?_⟩, rfl⟩, rfl⟩
      · rwa [hread e he]
      · rw [hread e he]
      · simpa using hne
  rw [List.map_congr_left hmatched, ← hwritten, List.map_map]
  change snippets.zipIdx.map ((fun info => decide (prepared.2 info.snippet ≠ [])) ∘ Prod.fst) = _
  rw [← List.map_map, List.zipIdx_map_fst]

/-- The rows of the groups. -/
theorem mem_executeGroups_iff
    {dir : SnippetPath → Text}
    {groups : List (BatchKey × List BatchTestSnippet)}
    {rows : List TestRow}
    (h : executeGroups M dir groups = .ok rows)
    {row : TestRow} :
    row ∈ rows ↔ (∃ group ∈ groups, group.1 = row.key ∧ row.info ∈ group.2) ∧
      ∃ prepared, M.prepare row.key.1 row.key.2 = .ok prepared ∧
        row.hasMatch = decide (prepared.2 row.info.snippet ≠ []) := by
  induction groups generalizing dir rows with
  | nil =>
      cases h
      simp
  | cons group groups ih =>
      rw [executeGroups] at h
      obtain ⟨⟨results, dir'⟩, hresults, h⟩ := bind_eq_ok_iff.mp h
      obtain ⟨rest, hrest, h⟩ := bind_eq_ok_iff.mp h
      cases h
      obtain ⟨prepared, hprepared⟩ : ∃ prepared, M.prepare group.1.1 group.1.2 = .ok prepared := by
        obtain ⟨prepared, hprepared, -⟩ := bind_eq_ok_iff.mp hresults
        exact ⟨prepared, hprepared⟩
      obtain ⟨dir'', hbatch⟩ := executeBatchedTests_eq hprepared dir group.2
      rw [hbatch] at hresults
      cases hresults
      rw [List.mem_append, zip_map_right, ih hrest, List.exists_mem_cons_iff, List.mem_map]
      constructor
      · rintro (⟨info, hinfo, rfl⟩ | ⟨hgroup, hmatch⟩)
        · exact ⟨Or.inl ⟨rfl, hinfo⟩, prepared, hprepared, rfl⟩
        · exact ⟨Or.inr hgroup, hmatch⟩
      · rintro ⟨⟨hkey, hinfo⟩ | hgroup, hmatch⟩
        · obtain ⟨prepared', hprepared', heq⟩ := hmatch
          rw [← hkey, hprepared] at hprepared'
          cases hprepared'
          refine Or.inl ⟨row.info, hinfo, ?_⟩
          rw [hkey, ← heq]
        · exact Or.inr ⟨hgroup, hmatch⟩

/-- The rows of a run in Rust. -/
theorem mem_rows_executeAstTestCore
    {order : GroupOrder}
    {dir : SnippetPath → Text}
    {rules : List RuleSpec}
    {projectLanguage : Text}
    {testData : List TestFile}
    {run : TestRun}
    (h : executeAstTestCore M order dir rules projectLanguage testData = .ok run)
    {row : TestRow} :
    row ∈ run.rows ↔
      (row.key, row.info) ∈
          (planCases (rustReader rules projectLanguage) testData).flatMap plannedEntries ∧
        ∃ prepared, M.prepare row.key.1 row.key.2 = .ok prepared ∧
          row.hasMatch = decide (prepared.2 row.info.snippet ≠ []) := by
  rw [executeAstTestCore] at h
  dsimp only at h
  split at h
  · next hnil =>
    cases h
    simp [hnil]
  · obtain ⟨rows, hrows, h⟩ := bind_eq_ok_iff.mp h
    cases h
    dsimp only
    rw [mem_executeGroups_iff hrows, ← MultiMap.exists_mem_groups_iff]
    simp only [(order.perm _).mem_iff]

end RustRows

section PythonRows

variable {texts : Texts} {B : AstBackends}

/-- `ast-grep` names a file if and only if the pattern matches in it. -/
theorem mem_matchedFilePaths_searchFiles
    {File : Type}
    [DecidableEq File]
    {source : File → Text}
    {nodes : Text → List Node}
    {files : List File}
    {file : File} :
    file ∈ (searchFiles source nodes files).matchedFilePaths ↔
      file ∈ files ∧ nodes (source file) ≠ [] := by
  rw [searchFiles, mem_matchedFilePaths_parseResult]
  simp only [List.mem_flatMap, List.mem_map]
  constructor
  · rintro ⟨_, ⟨f, hf, n, hn, rfl⟩, heq⟩
    cases heq
    exact ⟨hf, List.ne_nil_of_mem hn⟩
  · rintro ⟨hfile, hne⟩
    obtain ⟨n, hn⟩ := List.exists_mem_of_ne_nil _ hne
    exact ⟨_, ⟨file, hfile, n, hn, rfl⟩, rfl⟩

/-- The files of the matches are those that are named. -/
theorem mem_files_searchFiles
    {File : Type}
    [DecidableEq File]
    {source : File → Text}
    {nodes : Text → List Node}
    {files : List File}
    {file : File} :
    file ∈ (searchFiles source nodes files).matchLines.filterMap MatchLine.file ↔
      file ∈ (searchFiles source nodes files).matchedFilePaths := by
  simp [searchFiles, parseResult]

/-- A batch has the matches of the pattern in its snippets. -/
theorem batchSearchSnippets_eq
    (nodes : Text → List Node)
    (key : BatchKey)
    (snippets : List Text) :
    batchSearchSnippets nodes key snippets =
      snippets.map fun snippet => decide (nodes snippet ≠ []) := by
  rw [batchSearchSnippets, List.map_map]
  refine List.map_congr_left fun snippet hsnippet => ?_
  rw [Bool.eq_iff_iff, Function.comp_apply, List.any_eq_true, decide_eq_true_iff]
  have hmem : ((snippet, key.2) : SnippetKey) ∈ snippets.map fun snippet => (snippet, key.2) :=
    List.mem_map_of_mem hsnippet
  simp only [List.mem_append, decide_eq_true_eq, exists_eq_right]
  constructor
  · rintro (h | h)
    · exact (mem_matchedFilePaths_searchFiles.mp h).2
    · exact (mem_matchedFilePaths_searchFiles.mp (mem_files_searchFiles.mp h)).2
  · exact fun h => Or.inl (mem_matchedFilePaths_searchFiles.mpr ⟨hmem, h⟩)

/-- The rows of a batch. -/
theorem mem_batchOutcome_iff
    {group : BatchKey × List BatchTestSnippet}
    {row : TestRow} :
    row ∈ (batchOutcome B group).1 ↔
      group.1 = row.key ∧ row.info ∈ group.2 ∧
        ∃ nodes, B.search .astGrepWrapperBackend row.key.1 row.key.2 = some nodes ∧
          row.hasMatch = decide (nodes row.info.snippet ≠ []) := by
  rw [batchOutcome]
  cases hsearch : B.search .astGrepWrapperBackend group.1.1 group.1.2 with
  | none =>
      refine iff_of_false List.not_mem_nil ?_
      rintro ⟨hkey, -, nodes, hnodes, -⟩
      rw [← hkey, hsearch] at hnodes
      cases hnodes
  | some nodes =>
      dsimp only
      rw [batchSearchSnippets_eq, List.map_map, zip_map_right, List.mem_map]
      constructor
      · rintro ⟨info, hinfo, rfl⟩
        exact ⟨rfl, hinfo, nodes, hsearch, rfl⟩
      · rintro ⟨hkey, hinfo, nodes', hnodes, heq⟩
        rw [← hkey, hsearch] at hnodes
        cases hnodes
        refine ⟨row.info, hinfo, ?_⟩
        rw [hkey, Function.comp_apply, ← heq]

/-- The rows of a case that the native backend searches. -/
theorem mem_nativeOutcome_iff
    {plan : CasePlan}
    {row : TestRow} :
    row ∈ (nativeOutcome B plan).1 ↔
      plan.key = row.key ∧ row.info ∈ plan.infos ∧
        ∃ nodes, B.search .astBackend row.key.1 row.key.2 = some nodes ∧
          row.hasMatch = decide (nodes row.info.snippet ≠ []) := by
  rw [nativeOutcome]
  cases hsearch : B.search .astBackend plan.key.1 plan.key.2 with
  | none =>
      refine iff_of_false List.not_mem_nil ?_
      rintro ⟨hkey, -, nodes, hnodes, -⟩
      rw [← hkey, hsearch] at hnodes
      cases hnodes
  | some nodes =>
      have hmatch : ∀ info : BatchTestSnippet, ∀ lines : List (MatchLine SnippetKey),
          lines.length = (nodes info.snippet).length →
            decide (0 < (nativeResult lines false).totalFiles ∨
              0 < (nativeResult lines false).totalMatches ∨
              (nativeResult lines false).matchedFilePaths ≠ []) =
              decide (nodes info.snippet ≠ []) := by
        intro info lines hlength
        rw [decide_eq_decide, ← or_assoc, hit_nativeResult_iff, ← List.length_pos_iff, hlength,
          List.length_pos_iff]
        simp [nativeResult]
      dsimp only
      rw [List.mem_map]
      constructor
      · rintro ⟨info, hinfo, rfl⟩
        exact ⟨rfl, hinfo, nodes, hsearch, hmatch info _ (List.length_map _)⟩
      · rintro ⟨hkey, hinfo, nodes', hnodes, heq⟩
        rw [← hkey, hsearch] at hnodes
        cases hnodes
        refine ⟨row.info, hinfo, ?_⟩
        rw [hkey, hmatch row.info _ (List.length_map _), ← heq]

/-- The cases that are searched have the backends of their patterns. -/
theorem mem_casesWithBackends_iff
    {plans : List (Except TestFailure CasePlan)}
    {chosen : List (CasePlan × BackendName)}
    (h : casesWithBackends texts B plans = .ok chosen)
    {entry : CasePlan × BackendName} :
    entry ∈ chosen ↔ .ok entry.1 ∈ plans ∧
      selectAstBackendForPattern texts B entry.1.key.1 entry.1.key.2 = .ok entry.2 := by
  have hplans : ∀ plan, plan ∈ plans.filterMap Except.toOption ↔ Except.ok plan ∈ plans := by
    intro plan
    rw [List.mem_filterMap]
    constructor
    · rintro ⟨result, hresult, heq⟩
      cases result with
      | error failure => cases heq
      | ok plan' =>
          cases heq
          exact hresult
    · exact fun hplan => ⟨_, hplan, rfl⟩
  constructor
  · intro hentry
    obtain ⟨plan, hplan, hok⟩ := exists_mem_of_mapM h hentry
    obtain ⟨name, hname, rfl⟩ := map_eq_ok_iff.mp hok
    exact ⟨(hplans plan).mp hplan, hname⟩
  · rintro ⟨hplan, hname⟩
    obtain ⟨entry', hentry', hok⟩ := exists_result_of_mapM h ((hplans _).mpr hplan)
    rw [hname] at hok
    cases hok
    exact hentry'

/-- The rows of a run in Python. -/
theorem mem_rows_testCommand
    {rules : List RuleSpec}
    {projectLanguage : Text}
    {testData : List TestFile}
    {run : TestRun}
    (h : testCommand texts B rules projectLanguage testData = .ok run)
    {row : TestRow} :
    row ∈ run.rows ↔
      (row.key, row.info) ∈
          (planCases (pythonReader texts rules projectLanguage) testData).flatMap plannedEntries ∧
        ∃ name nodes, selectAstBackendForPattern texts B row.key.1 row.key.2 = .ok name ∧
          B.search name row.key.1 row.key.2 = some nodes ∧
            row.hasMatch = decide (nodes row.info.snippet ≠ []) := by
  rw [testCommand] at h
  split at h
  · cases h
  obtain ⟨chosen, hchosen, h⟩ := bind_eq_ok_iff.mp h
  cases h
  have hentry : (row.key, row.info) ∈
      (planCases (pythonReader texts rules projectLanguage) testData).flatMap plannedEntries ↔
        ∃ plan, .ok plan ∈ planCases (pythonReader texts rules projectLanguage) testData ∧
          plan.key = row.key ∧ row.info ∈ plan.infos := by
    simp only [List.mem_flatMap, mem_plannedEntries_iff]
    constructor
    · rintro ⟨_, hplan, plan, rfl, hkey, hinfo⟩
      exact ⟨plan, hplan, hkey, hinfo⟩
    · rintro ⟨plan, hplan, hkey, hinfo⟩
      exact ⟨_, hplan, plan, rfl, hkey, hinfo⟩
  have hwrapper : (∃ group ∈ MultiMap.groups ((chosen.filter fun entry =>
        entry.2 = .astGrepWrapperBackend).flatMap fun entry => entry.1.entries),
          group.1 = row.key ∧ row.info ∈ group.2) ↔
      ∃ plan, (plan, BackendName.astGrepWrapperBackend) ∈ chosen ∧ plan.key = row.key ∧
        row.info ∈ plan.infos := by
    rw [MultiMap.exists_mem_groups_iff]
    simp [CasePlan.entries, and_comm]
  rw [hentry]
  simp only [List.flatMap_append, List.mem_append, List.mem_flatMap, List.mem_map,
    exists_exists_and_eq_and, mem_batchOutcome_iff, mem_nativeOutcome_iff, List.mem_filter,
    decide_eq_true_eq]
  constructor
  · rintro (⟨⟨plan, name⟩, ⟨hmem, rfl⟩, hkey, hinfo, nodes, hnodes, hmatch⟩ |
      ⟨group, hgroup, hkey, hinfo, nodes, hnodes, hmatch⟩)
    · obtain ⟨hplan, hname⟩ := (mem_casesWithBackends_iff hchosen).mp hmem
      rw [hkey] at hname
      exact ⟨⟨plan, hplan, hkey, hinfo⟩, _, nodes, hname, hnodes, hmatch⟩
    · obtain ⟨plan, hmem, hkey', hinfo'⟩ := hwrapper.mp ⟨group, hgroup, hkey, hinfo⟩
      obtain ⟨hplan, hname⟩ := (mem_casesWithBackends_iff hchosen).mp hmem
      rw [hkey'] at hname
      exact ⟨⟨plan, hplan, hkey', hinfo'⟩, _, nodes, hname, hnodes, hmatch⟩
  · rintro ⟨⟨plan, hplan, hkey, hinfo⟩, name, nodes, hname, hnodes, hmatch⟩
    have hmem : (plan, name) ∈ chosen := by
      rw [mem_casesWithBackends_iff hchosen, hkey]
      exact ⟨hplan, hname⟩
    cases name with
    | astBackend =>
        exact Or.inl ⟨(plan, .astBackend), ⟨hmem, rfl⟩, hkey, hinfo, nodes, hnodes, hmatch⟩
    | astGrepWrapperBackend =>
        obtain ⟨group, hgroup, hkey', hinfo'⟩ := hwrapper.mpr ⟨plan, hmem, hkey, hinfo⟩
        exact Or.inr ⟨group, hgroup, hkey', hinfo', nodes, hnodes, hmatch⟩

end PythonRows

end Scan
end TensorGrep
