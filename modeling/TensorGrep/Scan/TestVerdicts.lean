import TensorGrep.Scan.RuleTests

/-!
# Verdicts of tests and scans

A test of a rule has the verdict of the scan exactly if the one pattern that the test
searches for matches the snippet, for the backend that tests it, when and only when
some member does for the backend that scans it (`test_verdicts_are_scan_verdicts_iff`).
When all tests pass, a snippet is treated as a match exactly if it should be one.
-/

namespace TensorGrep
namespace Scan

open Kernel AstRules

/-! ## What a run says about a snippet -/

/-- A case that names a rule and has no pattern and no language of its own. -/
structure LinkedTo
    (c : TestCase)
    (id : Text) : Prop where
  ruleId : c.ruleId = some id
  pattern : c.pattern = none
  rulePattern : c.rulePattern = none
  language : c.language = none

/-- A run treats a snippet of a case as a match. -/
def TreatsAsMatch
    (reader : CaseReader)
    (run : TestRun)
    (file : TestFile)
    (c : TestCase)
    (expectedMatch : Bool)
    (snippet : Text) : Prop :=
  snippet ∈ reader.snippets (c.field expectedMatch) ∧
    ∃ row ∈ run.rows, reader.batchKey c = .ok row.key ∧
      row.info = ⟨(file.file, reader.caseId file c), snippet, expectedMatch⟩ ∧
        row.hasMatch = true

/-! ## Runs that pass -/

/-- A run that has passed: every case has been searched, no search has failed, and every match is
the expected one. -/
structure PassedRun
    (reader : CaseReader)
    (testData : List TestFile)
    (run : TestRun) : Prop where
  planned : ∀ result ∈ planCases reader testData, planFailure? result = none
  searched : ∀ entry ∈ (planCases reader testData).flatMap plannedEntries,
    ∃ row ∈ run.rows, row.key = entry.1 ∧ row.info = entry.2
  expected : ∀ row ∈ run.rows, row.hasMatch = row.info.expectedMatch

/-- A run that has passed treats the snippets that it searches as they should be. -/
theorem treatsAsMatch_iff_of_passed
    {reader : CaseReader}
    {testData : List TestFile}
    {run : TestRun}
    (h : PassedRun reader testData run)
    {file : TestFile}
    (hfile : file ∈ testData)
    {c : TestCase}
    (hc : c ∈ file.cases)
    {expectedMatch : Bool}
    {snippet : Text}
    (hsnippet : snippet ∈ reader.snippets (c.field expectedMatch)) :
    TreatsAsMatch reader run file c expectedMatch snippet ↔ expectedMatch = true := by
  constructor
  · rintro ⟨-, row, hrow, -, hinfo, hmatch⟩
    rw [h.expected row hrow, hinfo] at hmatch
    exact hmatch
  · rintro rfl
    have hplan := h.planned _ (List.mem_flatMap.mpr ⟨file, hfile, List.mem_map_of_mem hc⟩)
    cases hresult : planCase reader file c with
    | error failure =>
        rw [hresult] at hplan
        cases hplan
    | ok plan =>
        obtain ⟨hkey, -, -⟩ := planCase_eq_ok_iff.mp hresult
        obtain ⟨row, hrow, hrowKey, hrowInfo⟩ := h.searched
          (plan.key, ⟨(file.file, reader.caseId file c), snippet, true⟩)
          (mem_entries_iff.mpr ⟨file, hfile, c, hc, hkey, rfl, hsnippet⟩)
        refine ⟨hsnippet, row, hrow, by rw [hkey, hrowKey], hrowInfo, ?_⟩
        rw [h.expected row hrow, hrowInfo]

theorem hasMatch_of_failures
    {rows : List TestRow}
    (h : rows.filterMap TestRow.failure? = []) :
    ∀ row ∈ rows, row.hasMatch = row.info.expectedMatch := by
  intro row hrow
  have hnone := (List.filterMap_eq_nil_iff.mp h) row hrow
  rw [TestRow.failure?] at hnone
  split at hnone
  · cases hnone
  · next heq => exact not_not.mp heq

/-! ## Rust -/

section Rust

variable {M : NativeMatcher}

/-- A pattern of a rule matches a source. -/
def RustPatternMatches
    (M : NativeMatcher)
    (source pattern language : Text) : Prop :=
  ∃ prepared, M.prepare pattern language = .ok prepared ∧ prepared.2 source ≠ []

/-- The scan of a rule comes to the files with this extension: the rule names its language, for the
native backend by its full name. -/
def RustScans
    (M : NativeMatcher)
    (hints : Text → Option BackendName)
    (extension : Text)
    (rule : RuleSpec) : Prop :=
  ∃ l, fileMatchesLanguage extension l = true ∧
    if (hints rule.id).getD .astBackend = .astBackend then l.name.toList = M.lower rule.language
    else M.resolveLanguage rule.language = some l

/-- The first rule with the id has a pattern that matches exactly if the scan of the rule comes to
the file, all its members parse and one of them matches. -/
def RustAlike
    (M : NativeMatcher)
    (hints : Text → Option BackendName)
    (rules : List RuleSpec)
    (extension : Text)
    (rule : RuleSpec)
    (snippet : Text) : Prop :=
  (∃ first, (rules.find? fun r => r.id = rule.id) = some first ∧
      RustPatternMatches M snippet first.pattern first.language) ↔
    RustScans M hints extension rule ∧
      (∀ p ∈ rule.memberPatterns, ∃ prepared, M.prepare p rule.language = .ok prepared) ∧
        ∃ p ∈ rule.memberPatterns, RustPatternMatches M snippet p rule.language

/-- What the native matcher prepares is in the language that the name stands for. -/
theorem resolveLanguage_of_prepare
    {pattern language : Text}
    {prepared : SupportLang × (Text → List Span)}
    (h : M.prepare pattern language = .ok prepared) :
    M.resolveLanguage language = some prepared.1 := by
  rw [NativeMatcher.prepare] at h
  split at h
  · cases h
  · next l hl =>
    split at h
    · cases h
    · cases h
      exact hl

/-- The one file is kept for a language if it is one of its files. -/
theorem langToFiles_eq
    (file : SourceFile)
    (name : Text) :
    (∃ l, fileMatchesLanguage file.extension l = true ∧ l.name.toList = name) ∧
        langToFiles file name = some [file] ∨
      (¬ ∃ l, fileMatchesLanguage file.extension l = true ∧ l.name.toList = name) ∧
        langToFiles file name = none := by
  have hany : (scannedLanguages.any fun l =>
      l.name.toList = name && fileMatchesLanguage file.extension l) = true ↔
        ∃ l, fileMatchesLanguage file.extension l = true ∧ l.name.toList = name := by
    rw [List.any_eq_true]
    simp only [Bool.and_eq_true, decide_eq_true_eq]
    constructor
    · rintro ⟨l, -, hname, hfile⟩
      exact ⟨l, hfile, hname⟩
    · rintro ⟨l, hfile, hname⟩
      refine ⟨l, ?_, hname, hfile⟩
      cases l <;> simp [scannedLanguages]
  rw [← hany, langToFiles]
  split
  · next h => exact Or.inl ⟨h, rfl⟩
  · next h => exact Or.inr ⟨h, rfl⟩

/-- The answer for a member, where the scan comes to the file. -/
theorem rustMemberMatches_of_scans
    {hints : Text → Option BackendName}
    {file : SourceFile}
    {rule : RuleSpec}
    (h : RustScans M hints file.extension rule)
    (member : Text) :
    rustMemberMatches M hints file rule member =
      (M.prepare member rule.language).map fun prepared =>
        searchManyForCli (fun f => prepared.2 f.source) [file] := by
  obtain ⟨l, hfile, hl⟩ := h
  rw [rustMemberMatches]
  split at hl
  · next hnative =>
    rw [if_pos hnative]
    rcases langToFiles_eq file (M.lower rule.language) with ⟨-, hfiles⟩ | ⟨hnone, -⟩
    · rw [hfiles]
    · exact absurd ⟨l, hfile, hl⟩ hnone
  · next hwrapper =>
    rw [if_neg hwrapper]
    cases hprepared : M.prepare member rule.language with
    | error e => rfl
    | ok prepared =>
        have hlanguage := resolveLanguage_of_prepare hprepared
        rw [hl, Option.some.injEq] at hlanguage
        simp [Except.map, ← hlanguage, hfile]

/-- Where it does not come to the file, no member matches. -/
theorem eq_nil_of_not_scans
    {hints : Text → Option BackendName}
    {file : SourceFile}
    {rule : RuleSpec}
    (h : ¬ RustScans M hints file.extension rule)
    {member : Text}
    {found : List (AstCliFileMatches SourceFile)}
    (hfound : rustMemberMatches M hints file rule member = .ok found) :
    found = [] := by
  rw [rustMemberMatches] at hfound
  split at hfound
  · next hnative =>
    rcases langToFiles_eq file (M.lower rule.language) with ⟨⟨l, hfile, hl⟩, -⟩ | ⟨-, hfiles⟩
    · exact absurd ⟨l, hfile, by rwa [if_pos hnative]⟩ h
    · rw [hfiles] at hfound
      cases hfound
      rfl
  · next hwrapper =>
    obtain ⟨prepared, hprepared, rfl⟩ := map_eq_ok_iff.mp hfound
    have hfile : fileMatchesLanguage file.extension prepared.1 = false := by
      rw [← Bool.not_eq_true]
      intro hfile
      refine h ⟨prepared.1, hfile, ?_⟩
      rw [if_neg hwrapper]
      exact resolveLanguage_of_prepare hprepared
    simp [hfile, searchManyForCli]

/-- The scan reports a match in a file if and only if it comes to the file, all members parse and
one of them matches. -/
theorem rustFlags_iff
    {hints : Text → Option BackendName}
    {file : SourceFile}
    {rule : RuleSpec} :
    RustFlags M hints file rule ↔
      RustScans M hints file.extension rule ∧
        (∀ p ∈ rule.memberPatterns, ∃ prepared, M.prepare p rule.language = .ok prepared) ∧
          ∃ p ∈ rule.memberPatterns, RustPatternMatches M file.source p rule.language := by
  rw [RustFlags, executeAstScanRule_pos_iff]
  by_cases hscans : RustScans M hints file.extension rule
  · simp only [rustMemberMatches_of_scans hscans, map_eq_ok_iff, hscans, true_and,
      RustPatternMatches]
    refine and_congr ?_ ?_
    · refine forall₂_congr fun p _ => ?_
      simp
    · refine exists_congr fun p => and_congr_right fun _ => ?_
      constructor
      · rintro ⟨_, ⟨prepared, hprepared, rfl⟩, m, hm, hne⟩
        obtain ⟨hfile, hspans, -⟩ := mem_searchManyForCli.mp hm
        rw [List.mem_singleton.mp hfile] at hspans
        exact ⟨prepared, hprepared, hspans⟩
      · rintro ⟨prepared, hprepared, hne⟩
        exact ⟨_, ⟨prepared, hprepared, rfl⟩, ⟨file, prepared.2 file.source⟩,
          mem_searchManyForCli.mpr ⟨List.mem_singleton_self _, hne, rfl⟩, hne⟩
  · refine iff_of_false ?_ fun h => hscans h.1
    rintro ⟨-, p, -, found, hfound, m, hm, -⟩
    rw [eq_nil_of_not_scans hscans hfound] at hm
    cases hm

/-- A run in Rust treats a snippet of a linked case as a match if and only if the pattern of the
first rule with the id matches. -/
theorem treatsAsMatch_rust_iff
    {order : GroupOrder}
    {dir : SnippetPath → Text}
    {rules : List RuleSpec}
    {projectLanguage : Text}
    {testData : List TestFile}
    {run : TestRun}
    (hrun : executeAstTestCore M order dir rules projectLanguage testData = .ok run)
    {file : TestFile}
    (hfile : file ∈ testData)
    {c : TestCase}
    (hc : c ∈ file.cases)
    {id : Text}
    (hlinked : LinkedTo c id)
    {expectedMatch : Bool}
    {snippet : Text}
    (hsnippet : snippet ∈ (c.field expectedMatch).texts) :
    TreatsAsMatch (rustReader rules projectLanguage) run file c expectedMatch snippet ↔
      ∃ first, (rules.find? fun r => r.id = id) = some first ∧
        RustPatternMatches M snippet first.pattern first.language := by
  have hkey : ∀ key, (rustReader rules projectLanguage).batchKey c = .ok key ↔
      ∃ first, (rules.find? fun r => r.id = id) = some first ∧
        (first.pattern, first.language) = key := by
    intro key
    change rustBatchKey rules projectLanguage c = .ok key ↔ _
    rw [rustBatchKey, extractRulePatternJson, hlinked.pattern, hlinked.rulePattern, hlinked.ruleId]
    simp only [Option.or_none, Option.map_none, Option.bind_some]
    cases rules.find? fun r => r.id = id with
    | none => simp
    | some first => simp
  constructor
  · rintro ⟨-, row, hrow, hbatch, hinfo, hmatch⟩
    obtain ⟨-, prepared, hprepared, heq⟩ := (mem_rows_executeAstTestCore hrun).mp hrow
    obtain ⟨first, hfirst, hkey'⟩ := (hkey row.key).mp hbatch
    refine ⟨first, hfirst, prepared, ?_, ?_⟩
    · rw [← hkey'] at hprepared
      exact hprepared
    · rw [hmatch, hinfo] at heq
      exact of_decide_eq_true heq.symm
  · rintro ⟨first, hfirst, prepared, hprepared, hne⟩
    have hbatch := (hkey (first.pattern, first.language)).mpr ⟨first, hfirst, rfl⟩
    refine ⟨hsnippet, ⟨(first.pattern, first.language), ⟨(file.file, _), snippet, expectedMatch⟩,
      true⟩, (mem_rows_executeAstTestCore hrun).mpr ⟨?_, prepared, hprepared, ?_⟩, hbatch, rfl, rfl⟩
    · exact mem_entries_iff.mpr ⟨file, hfile, c, hc, hbatch, rfl, hsnippet⟩
    · exact (decide_eq_true hne).symm

theorem exists_prepared_of_executeGroups
    {dir : SnippetPath → Text}
    {groups : List (BatchKey × List BatchTestSnippet)}
    {rows : List TestRow}
    (h : executeGroups M dir groups = .ok rows) :
    ∀ group ∈ groups, ∃ prepared, M.prepare group.1.1 group.1.2 = .ok prepared := by
  induction groups generalizing dir rows with
  | nil => exact fun group hgroup => absurd hgroup List.not_mem_nil
  | cons group groups ih =>
      rw [executeGroups] at h
      obtain ⟨⟨results, dir'⟩, hresults, h⟩ := bind_eq_ok_iff.mp h
      obtain ⟨rest, hrest, -⟩ := bind_eq_ok_iff.mp h
      obtain ⟨prepared, hprepared, -⟩ := bind_eq_ok_iff.mp hresults
      exact List.forall_mem_cons.mpr ⟨⟨prepared, hprepared⟩, ih hrest⟩

/-- What it means that a run in Rust says that all tests passed. -/
theorem passedRun_rust
    {order : GroupOrder}
    {dir : SnippetPath → Text}
    {rules : List RuleSpec}
    {projectLanguage : Text}
    {testData : List TestFile}
    {run : TestRun}
    (hrun : executeAstTestCore M order dir rules projectLanguage testData = .ok run)
    (hpassed : run.passed = true) :
    PassedRun (rustReader rules projectLanguage) testData run := by
  have hrows := @mem_rows_executeAstTestCore M order dir rules projectLanguage testData run hrun
  rw [executeAstTestCore] at hrun
  dsimp only at hrun
  split at hrun
  · cases hrun
    cases hpassed
  · obtain ⟨rows, hgroups, hrun⟩ := bind_eq_ok_iff.mp hrun
    cases hrun
    rw [List.isEmpty_iff, List.append_eq_nil_iff] at hpassed
    refine ⟨List.filterMap_eq_nil_iff.mp hpassed.1, ?_, hasMatch_of_failures hpassed.2⟩
    intro entry hentry
    obtain ⟨group, hgroup, hkey, -⟩ := MultiMap.exists_mem_groups_iff.mpr hentry
    obtain ⟨prepared, hprepared⟩ := exists_prepared_of_executeGroups hgroups group
      ((order.perm _).mem_iff.mpr hgroup)
    rw [hkey] at hprepared
    exact ⟨⟨entry.1, entry.2, decide (prepared.2 entry.2.snippet ≠ [])⟩,
      hrows.mpr ⟨hentry, prepared, hprepared, rfl⟩, rfl, rfl⟩

/-- For a rule that is the first one with its id, and that the scan comes to, only the members
matter that the tests leave out. -/
theorem rustAlike_iff_of_scans
    {hints : Text → Option BackendName}
    {rules : List RuleSpec}
    {extension : Text}
    {rule : RuleSpec}
    {snippet : Text}
    (hfirst : (rules.find? fun r => r.id = rule.id) = some rule)
    (hmember : rule.pattern ∈ rule.memberPatterns)
    (hscans : RustScans M hints extension rule)
    (hprepared : ∀ p ∈ rule.memberPatterns, ∃ prepared,
      M.prepare p rule.language = .ok prepared) :
    RustAlike M hints rules extension rule snippet ↔
      ∀ p ∈ rule.memberPatterns, RustPatternMatches M snippet p rule.language →
        RustPatternMatches M snippet rule.pattern rule.language := by
  rw [RustAlike, hfirst]
  constructor
  · intro h p hp hmatch
    obtain ⟨first, hsame, hmatch⟩ := h.mpr ⟨hscans, hprepared, p, hp, hmatch⟩
    cases hsame
    exact hmatch
  · intro h
    constructor
    · rintro ⟨first, hsame, hmatch⟩
      cases hsame
      exact ⟨hscans, hprepared, rule.pattern, hmember, hmatch⟩
    · rintro ⟨-, -, p, hp, hmatch⟩
      exact ⟨rule, rfl, h p hp hmatch⟩

end Rust

/-! ## Python -/

section Python

variable {texts : Texts} {B : AstBackends}

/-- A pattern of a rule matches a source, for a backend. -/
def PythonPatternMatches
    (B : AstBackends)
    (name : BackendName)
    (source pattern language : Text) : Prop :=
  ∃ nodes, B.search name pattern language = some nodes ∧ nodes source ≠ []

/-- Rules as they are loaded: their languages have their names in the program, as that of the
project has one, and they have patterns. -/
structure Loaded
    (texts : Texts)
    (rules : List RuleSpec)
    (projectLanguage : Text) : Prop where
  project : (normalizeAstLanguage texts projectLanguage).isSome = true
  language : ∀ rule ∈ rules, normalizeAstLanguage texts rule.language = some rule.language
  pattern : ∀ rule ∈ rules, rule.pattern ≠ []

/-- A project scan of `ast-grep` reports under an id what the members of the rules with the id
match. -/
def ProjectScanReports
    (B : AstBackends)
    (rules : List RuleSpec) : Prop :=
  ∀ source found, B.project source = some found → ∀ id,
    found id ≠ [] ↔ ∃ rule ∈ rules, rule.id = id ∧ ∃ p ∈ rule.memberPatterns,
      PythonPatternMatches B .astGrepWrapperBackend source p rule.language

/-- The scan of a rule matches a source: if the project scan serves it, a member of a rule with its
id does; or else no search for its members fails, and one of them does. -/
def PythonScanMatches
    (texts : Texts)
    (B : AstBackends)
    (hints : Text → Option BackendName)
    (rules : List RuleSpec)
    (rule : RuleSpec)
    (source : Text) : Prop :=
  ∃ name, scanBackend texts B hints rule = .ok name ∧
    if name = .astGrepWrapperBackend ∧ (B.project source).isSome then
      ∃ rule' ∈ rules, rule'.id = rule.id ∧ ∃ p ∈ rule'.memberPatterns,
        PythonPatternMatches B .astGrepWrapperBackend source p rule'.language
    else
      (∀ p ∈ rule.memberPatterns, (B.search name p rule.language).isSome) ∧
        ∃ p ∈ rule.memberPatterns, PythonPatternMatches B name source p rule.language

/-- The last rule with the id has a pattern that matches, for the backend of the pattern. -/
def PythonTestMatches
    (texts : Texts)
    (B : AstBackends)
    (rules : List RuleSpec)
    (id : Text)
    (source : Text) : Prop :=
  ∃ last name, lastMatch (fun r => r.id = id) rules = some last ∧
    selectAstBackendForPattern texts B last.pattern last.language = .ok name ∧
      PythonPatternMatches B name source last.pattern last.language

/-- The snippet is kept and the test matches it exactly if the scan does. -/
def PythonAlike
    (texts : Texts)
    (B : AstBackends)
    (hints : Text → Option BackendName)
    (rules : List RuleSpec)
    (rule : RuleSpec)
    (field : SnippetField)
    (snippet : Text) : Prop :=
  (snippet ∈ normalizeStringList field ∧ PythonTestMatches texts B rules rule.id snippet) ↔
    PythonScanMatches texts B hints rules rule snippet

theorem memberNodes_eq_ok_iff
    {name : BackendName}
    {rule : RuleSpec}
    {member : Text}
    {nodes : Text → List Node} :
    memberNodes B name rule member = .ok nodes ↔ B.search name member rule.language = some nodes := by
  rw [memberNodes]
  cases B.search name member rule.language with
  | none => simp
  | some nodes' => simp

/-- The searches for the members of a rule have a match if and only if none fails and one has. -/
theorem exists_member_match_iff
    {name : BackendName}
    {rule : RuleSpec}
    {source : Text}
    {α : Type}
    (P : α → Prop)
    (result : (Text → List Node) → α)
    (hresult : ∀ nodes, P (result nodes) ↔ nodes source ≠ []) :
    (∃ results, (rule.memberPatterns.mapM fun member =>
        (memberNodes B name rule member).map result) = .ok results ∧ ∃ r ∈ results, P r) ↔
      (∀ p ∈ rule.memberPatterns, (B.search name p rule.language).isSome) ∧
        ∃ p ∈ rule.memberPatterns, PythonPatternMatches B name source p rule.language := by
  rw [exists_mapM_mem_iff]
  simp only [map_eq_ok_iff, memberNodes_eq_ok_iff, PythonPatternMatches, Option.isSome_iff_exists]
  refine and_congr ?_ ?_
  · refine forall₂_congr fun p _ => ?_
    constructor
    · rintro ⟨_, nodes, hnodes, -⟩
      exact ⟨nodes, hnodes⟩
    · rintro ⟨nodes, hnodes⟩
      exact ⟨_, nodes, hnodes, rfl⟩
  · refine exists_congr fun p => and_congr_right fun _ => ?_
    constructor
    · rintro ⟨_, ⟨nodes, hnodes, rfl⟩, hmatch⟩
      exact ⟨nodes, hnodes, (hresult nodes).mp hmatch⟩
    · rintro ⟨nodes, hnodes, hne⟩
      exact ⟨_, ⟨nodes, hnodes, rfl⟩, (hresult nodes).mpr hne⟩

/-- What `ast-grep` finds in a file. -/
theorem matchLines_searchFiles_singleton
    (nodes : Text → List Node)
    (file : SourceFile) :
    (searchFiles SourceFile.source nodes [file]).matchLines =
      (nodes file.source).map fun n => ⟨n.1 + 1, some file, some n.2⟩ := by
  simp [searchFiles, parseResult, parseItem]

/-- A project scan has a match for a rule if and only if it reports its id. -/
theorem projectFold_pos_iff
    (file : SourceFile)
    {found : Text → List Node}
    {rule : RuleSpec} :
    0 < (projectFold file found rule).ruleMatches ↔ found rule.id ≠ [] := by
  rw [projectFold]
  split
  · next hnil => simp [hnil, foldProject, SearchResult.empty]
  · next hne => simp [hne, foldProject, parseResult, List.length_pos_iff]

/-- A backend reports a match in a file if and only if the rule matches its source. -/
theorem scanWithBackend_pos_iff
    {rules : List RuleSpec}
    (hproject : ProjectScanReports B rules)
    {file : SourceFile}
    {rule : RuleSpec}
    {name : BackendName} :
    (∃ acc, scanWithBackend B file rule name = .ok acc ∧ 0 < acc.ruleMatches) ↔
      if name = .astGrepWrapperBackend ∧ (B.project file.source).isSome then
        ∃ rule' ∈ rules, rule'.id = rule.id ∧ ∃ p ∈ rule'.memberPatterns,
          PythonPatternMatches B .astGrepWrapperBackend file.source p rule'.language
      else
        (∀ p ∈ rule.memberPatterns, (B.search name p rule.language).isSome) ∧
          ∃ p ∈ rule.memberPatterns, PythonPatternMatches B name file.source p rule.language := by
  cases name with
  | astBackend =>
      rw [if_neg (by rintro ⟨h, -⟩; cases h), scanWithBackend,
        ← exists_member_match_iff (fun r => r.2.matchLines ≠ []) (fun nodes =>
          (file, nativeResult ((nodes file.source).map fun n =>
            ⟨n.1 + 1, some file, some n.2⟩) false))]
      · have htotal : ∀ results, (rule.memberPatterns.mapM fun member =>
            (memberNodes B .astBackend rule member).map fun nodes => (file, nativeResult
              ((nodes file.source).map fun n => (⟨n.1 + 1, some file, some n.2⟩ :
                MatchLine SourceFile)) false)) = .ok results →
            ∀ r ∈ results, r.2.totalMatches = r.2.matchLines.length := by
          intro results hresults r hr
          obtain ⟨p, -, hp⟩ := exists_mem_of_mapM hresults hr
          obtain ⟨nodes, -, rfl⟩ := map_eq_ok_iff.mp hp
          rfl
        constructor
        · rintro ⟨acc, hacc, hpos⟩
          obtain ⟨results, hresults, hpure⟩ := bind_eq_ok_iff.mp hacc
          cases hpure
          exact ⟨results, hresults, (foldAllFiles_pos_iff (htotal results hresults)).mp hpos⟩
        · rintro ⟨results, hresults, hmatch⟩
          exact ⟨_, bind_eq_ok_iff.mpr ⟨results, hresults, rfl⟩,
            (foldAllFiles_pos_iff (htotal results hresults)).mpr hmatch⟩
      · intro nodes
        simp [nativeResult]
  | astGrepWrapperBackend =>
      rw [scanWithBackend]
      cases hfound : B.project file.source with
      | some found =>
          rw [if_pos ⟨rfl, rfl⟩]
          dsimp only
          rw [← hproject file.source found hfound rule.id, ← projectFold_pos_iff file]
          simp
      | none =>
          rw [if_neg (by rintro ⟨-, h⟩; cases h),
            ← exists_member_match_iff (fun r => r.matchLines ≠ []) (fun nodes =>
              searchFiles SourceFile.source nodes [file])]
          · have hlines : ∀ results, (rule.memberPatterns.mapM fun member =>
                (memberNodes B .astGrepWrapperBackend rule member).map fun nodes =>
                  searchFiles SourceFile.source nodes [file]) = .ok results →
                ∀ r ∈ results, r.totalMatches = r.matchLines.length ∧
                  ∀ m ∈ r.matchLines, m.file.isSome = true := by
              intro results hresults r hr
              obtain ⟨p, -, hp⟩ := exists_mem_of_mapM hresults hr
              obtain ⟨nodes, -, rfl⟩ := map_eq_ok_iff.mp hp
              refine ⟨rfl, fun m hm => ?_⟩
              rw [matchLines_searchFiles_singleton] at hm
              obtain ⟨n, -, rfl⟩ := List.mem_map.mp hm
              rfl
            have hiff : ∀ results, (rule.memberPatterns.mapM fun member =>
                (memberNodes B .astGrepWrapperBackend rule member).map fun nodes =>
                  searchFiles SourceFile.source nodes [file]) = .ok results →
                (0 < (foldAllMany (isComposite rule) results).ruleMatches ↔
                  ∃ r ∈ results, r.matchLines ≠ []) := fun results hresults =>
              foldAllMany_pos_iff (fun r hr => (hlines results hresults r hr).1)
                fun r hr => (hlines results hresults r hr).2
            constructor
            · rintro ⟨acc, hacc, hpos⟩
              obtain ⟨results, hresults, hpure⟩ := bind_eq_ok_iff.mp hacc
              cases hpure
              exact ⟨results, hresults, (hiff results hresults).mp hpos⟩
            · rintro ⟨results, hresults, hmatch⟩
              exact ⟨_, bind_eq_ok_iff.mpr ⟨results, hresults, rfl⟩,
                (hiff results hresults).mpr hmatch⟩
          · intro nodes
            rw [matchLines_searchFiles_singleton, ne_eq, List.map_eq_nil_iff]

/-- The scan reports a match in a file if and only if it matches its source. -/
theorem pythonFlags_iff
    {hints : Text → Option BackendName}
    {rules : List RuleSpec}
    (hproject : ProjectScanReports B rules)
    {file : SourceFile}
    {rule : RuleSpec} :
    PythonFlags texts B hints file rule ↔
      PythonScanMatches texts B hints rules rule file.source := by
  simp only [PythonFlags, scanCommandRule, PythonScanMatches, bind_eq_ok_iff,
    ← scanWithBackend_pos_iff hproject]
  constructor
  · rintro ⟨acc, ⟨name, hname, hacc⟩, hpos⟩
    exact ⟨name, hname, acc, hacc, hpos⟩
  · rintro ⟨name, hname, acc, hacc, hpos⟩
    exact ⟨acc, ⟨name, hname, hacc⟩, hpos⟩

/-- A run in Python treats a snippet of a linked case as a match if and only if the snippet is kept
and the pattern of the last rule with the id matches. -/
theorem treatsAsMatch_python_iff
    {rules : List RuleSpec}
    {projectLanguage : Text}
    (hloaded : Loaded texts rules projectLanguage)
    {testData : List TestFile}
    {run : TestRun}
    (hrun : testCommand texts B rules projectLanguage testData = .ok run)
    {file : TestFile}
    (hfile : file ∈ testData)
    {c : TestCase}
    (hc : c ∈ file.cases)
    {id : Text}
    (hlinked : LinkedTo c id)
    {expectedMatch : Bool}
    {snippet : Text} :
    TreatsAsMatch (pythonReader texts rules projectLanguage) run file c expectedMatch snippet ↔
      snippet ∈ normalizeStringList (c.field expectedMatch) ∧
        PythonTestMatches texts B rules id snippet := by
  have hkey : ∀ key, (pythonReader texts rules projectLanguage).batchKey c = .ok key ↔
      ∃ last, lastMatch (fun r => r.id = id) rules = some last ∧
        (last.pattern, last.language) = key := by
    intro key
    obtain ⟨language, hlanguage⟩ := Option.isSome_iff_exists.mp hloaded.project
    have hcase : ∀ otherwise, caseLanguage texts c otherwise =
        normalizeAstLanguage texts otherwise := by
      intro otherwise
      rw [caseLanguage, hlinked.language]
      rfl
    change pythonBatchKey texts rules projectLanguage c = .ok key ↔ _
    rw [pythonBatchKey, hcase, hlanguage, extractRulePattern, hlinked.pattern,
      hlinked.rulePattern, hlinked.ruleId]
    simp only [Option.bind_none, Option.or_none, Option.bind_some]
    cases hlast : lastMatch (fun r : RuleSpec => decide (r.id = id)) rules with
    | none => simp
    | some last =>
        obtain ⟨hmem, -⟩ := mem_of_lastMatch hlast
        simp [hcase, hloaded.language last hmem, hloaded.pattern last hmem]
  constructor
  · rintro ⟨hsnippet, row, hrow, hbatch, hinfo, hmatch⟩
    obtain ⟨-, name, nodes, hname, hnodes, heq⟩ := (mem_rows_testCommand hrun).mp hrow
    obtain ⟨last, hlast, hkey'⟩ := (hkey row.key).mp hbatch
    rw [← hkey'] at hname hnodes
    refine ⟨hsnippet, last, name, hlast, hname, nodes, hnodes, ?_⟩
    rw [hmatch, hinfo] at heq
    exact of_decide_eq_true heq.symm
  · rintro ⟨hsnippet, last, name, hlast, hname, nodes, hnodes, hne⟩
    have hbatch := (hkey (last.pattern, last.language)).mpr ⟨last, hlast, rfl⟩
    refine ⟨hsnippet, ⟨(last.pattern, last.language), ⟨(file.file, _), snippet, expectedMatch⟩,
      true⟩, (mem_rows_testCommand hrun).mpr ⟨?_, name, nodes, hname, hnodes, ?_⟩, hbatch, rfl, rfl⟩
    · exact mem_entries_iff.mpr ⟨file, hfile, c, hc, hbatch, rfl, hsnippet⟩
    · exact (decide_eq_true hne).symm

/-- What it means that a run in Python says that all tests passed. -/
theorem passedRun_python
    {rules : List RuleSpec}
    {projectLanguage : Text}
    {testData : List TestFile}
    {run : TestRun}
    (hrun : testCommand texts B rules projectLanguage testData = .ok run)
    (hpassed : run.passed = true) :
    PassedRun (pythonReader texts rules projectLanguage) testData run := by
  have hrows := @mem_rows_testCommand texts B rules projectLanguage testData run hrun
  rw [testCommand] at hrun
  split at hrun
  · cases hrun
  obtain ⟨chosen, hchosen, hrun⟩ := bind_eq_ok_iff.mp hrun
  cases hrun
  rw [List.isEmpty_iff, List.append_eq_nil_iff, List.append_eq_nil_iff] at hpassed
  obtain ⟨⟨hplanned, hsearched⟩, hexpected⟩ := hpassed
  refine ⟨List.filterMap_eq_nil_iff.mp hplanned, ?_, hasMatch_of_failures hexpected⟩
  rw [List.flatMap_append, List.append_eq_nil_iff, List.flatMap_eq_nil_iff,
    List.flatMap_eq_nil_iff] at hsearched
  obtain ⟨hnative, hbatches⟩ := hsearched
  rintro ⟨key, info⟩ hentry
  obtain ⟨result, hresult, hinfo⟩ := List.mem_flatMap.mp hentry
  obtain ⟨plan, rfl, hkey, hinfo⟩ := mem_plannedEntries_iff.mp hinfo
  obtain ⟨⟨plan', name⟩, hmem, hok⟩ := exists_result_of_mapM hchosen
    (List.mem_filterMap.mpr ⟨_, hresult, rfl⟩)
  obtain ⟨name', hname, heq⟩ := map_eq_ok_iff.mp hok
  cases heq
  rw [hkey] at hname
  obtain ⟨nodes, hnodes⟩ : ∃ nodes, B.search name key.1 key.2 = some nodes := by
    cases name with
    | astBackend =>
        have hempty := hnative _ (List.mem_map.mpr ⟨(plan, .astBackend),
          List.mem_filter.mpr ⟨hmem, rfl⟩, rfl⟩)
        cases hsearch : B.search .astBackend key.1 key.2 with
        | some nodes => exact ⟨nodes, rfl⟩
        | none =>
            rw [nativeOutcome, hkey, hsearch] at hempty
            cases hinfos : plan.infos with
            | nil => simp [hinfos] at hinfo
            | cons first rest => simp [hinfos] at hempty
    | astGrepWrapperBackend =>
        have hbatched : (plan.key, info) ∈ (chosen.filter fun entry =>
            entry.2 = .astGrepWrapperBackend).flatMap fun entry => entry.1.entries :=
          List.mem_flatMap.mpr ⟨(plan, .astGrepWrapperBackend),
            List.mem_filter.mpr ⟨hmem, rfl⟩, List.mem_map.mpr ⟨info, hinfo, rfl⟩⟩
        obtain ⟨group, hgroup, hgroupKey, hgroupInfo⟩ :=
          MultiMap.exists_mem_groups_iff.mpr hbatched
        have hempty := hbatches _ (List.mem_map_of_mem hgroup)
        cases hsearch : B.search .astGrepWrapperBackend key.1 key.2 with
        | some nodes => exact ⟨nodes, rfl⟩
        | none =>
            rw [batchOutcome, hgroupKey, hkey, hsearch] at hempty
            simp only [List.map_eq_nil_iff] at hempty
            rw [hempty] at hgroupInfo
            cases hgroupInfo
  exact ⟨⟨key, info, decide (nodes info.snippet ≠ [])⟩,
    hrows.mpr ⟨hentry, name, nodes, hname, hnodes, rfl⟩, rfl, rfl⟩

end Python

/-! ## Both languages -/

/-- The tests of both languages treat a snippet of a case that names a rule as a match exactly if
the scans of the rule report a match in a file with the snippet, if and only if in both languages
the one pattern that is tested matches the snippet when and only when the scan does.  If it is so
and all tests have passed, then the scans report a match in those snippets that should be flagged,
and in no others. -/
theorem test_verdicts_are_scan_verdicts_iff
    (M : NativeMatcher)
    (order : GroupOrder)
    (dir : SnippetPath → Text)
    (rustHints : Text → Option BackendName)
    (rustRules : List RuleSpec)
    (rustLanguage : Text)
    (texts : Texts)
    (B : AstBackends)
    (pythonHints : Text → Option BackendName)
    (rules : List RuleSpec)
    (projectLanguage : Text)
    (testData : List TestFile)
    (rustRun pythonRun : TestRun)
    (hrust : executeAstTestCore M order dir rustRules rustLanguage testData = .ok rustRun)
    (hpython : testCommand texts B rules projectLanguage testData = .ok pythonRun)
    (hloaded : Loaded texts rules projectLanguage)
    (hproject : ProjectScanReports B rules)
    (rustRule rule : RuleSpec)
    (file : TestFile)
    (hfile : file ∈ testData)
    (c : TestCase)
    (hc : c ∈ file.cases)
    (hrustLinked : LinkedTo c rustRule.id)
    (hlinked : LinkedTo c rule.id)
    (expectedMatch : Bool)
    (snippet : Text)
    (hsnippet : snippet ∈ (c.field expectedMatch).texts)
    (extension : Text) :
    (((TreatsAsMatch (rustReader rustRules rustLanguage) rustRun file c expectedMatch snippet ↔
            RustFlags M rustHints ⟨extension, snippet⟩ rustRule) ∧
          (TreatsAsMatch (pythonReader texts rules projectLanguage) pythonRun file c expectedMatch
              snippet ↔
            PythonFlags texts B pythonHints ⟨extension, snippet⟩ rule)) ↔
        RustAlike M rustHints rustRules extension rustRule snippet ∧
          PythonAlike texts B pythonHints rules rule (c.field expectedMatch) snippet) ∧
      (RustAlike M rustHints rustRules extension rustRule snippet → rustRun.passed = true →
        (RustFlags M rustHints ⟨extension, snippet⟩ rustRule ↔ expectedMatch = true)) ∧
      (PythonAlike texts B pythonHints rules rule (c.field expectedMatch) snippet →
        pythonRun.passed = true → snippet ∈ normalizeStringList (c.field expectedMatch) →
          (PythonFlags texts B pythonHints ⟨extension, snippet⟩ rule ↔ expectedMatch = true)) := by
  have hrustTreats := treatsAsMatch_rust_iff hrust hfile hc hrustLinked hsnippet
  have hpythonTreats := @treatsAsMatch_python_iff texts B rules projectLanguage hloaded testData
    pythonRun hpython file hfile c hc rule.id hlinked expectedMatch snippet
  have hrustFlags := @rustFlags_iff M rustHints ⟨extension, snippet⟩ rustRule
  have hpythonFlags := @pythonFlags_iff texts B pythonHints rules hproject ⟨extension, snippet⟩ rule
  refine ⟨?_, fun halike hpassed => ?_, fun halike hpassed hkept => ?_⟩
  · rw [hrustTreats, hrustFlags, hpythonTreats, hpythonFlags]
    exact Iff.rfl
  · have htreats := treatsAsMatch_iff_of_passed (passedRun_rust hrust hpassed) hfile hc hsnippet
    rw [hrustFlags, ← htreats, hrustTreats]
    exact halike.symm
  · have htreats := treatsAsMatch_iff_of_passed (passedRun_python hpython hpassed) hfile hc hkept
    rw [hpythonFlags, ← htreats, hpythonTreats]
    exact halike.symm

/-! ## A member that no test comes to -/

/-- A pattern matches the source that is the pattern. -/
def equalMatcher : NativeMatcher where
  lower := id
  resolveLanguage := fun _ => some .python
  compile := fun pattern _ => some fun source => if source = pattern then [(0, 1)] else []

/-- `ast-grep` with the same matches, and without project scans. -/
def equalBackends : AstBackends where
  available := fun name => name = .astGrepWrapperBackend
  search := fun _ pattern _ => some fun source => if source = pattern then [(0, (0, 1))] else []
  project := fun _ => none

/-- The order of the entries. -/
def entryOrder : GroupOrder where
  visit := id
  perm := fun l => List.Perm.refl l

/-- A rule with these members. -/
def testedRule (members : List Text) : RuleSpec where
  id := ['r']
  pattern := members.headD ['a']
  patterns := members
  severity := []
  message := []
  language := "python".toList

/-- A case in which the rule should flag this snippet. -/
def invalidCase (snippet : Text) : TestCase where
  id := none
  ruleId := some ['r']
  pattern := none
  rulePattern := none
  language := none
  valid := .missing
  invalid := .one snippet

/-- The file of the case. -/
def invalidFile (snippet : Text) : TestFile where
  file := ['t']
  stem := ['t']
  cases := [invalidCase snippet]

theorem linkedTo_invalidCase (snippet : Text) :
    LinkedTo (invalidCase snippet) ['r'] :=
  ⟨rfl, rfl, rfl, rfl⟩

theorem loaded_testedRule (members : List Text) (h : members.headD ['a'] ≠ []) :
    Loaded plainTexts [testedRule members] "python".toList := by
  refine ⟨by decide, ?_, ?_⟩
  · intro rule hrule
    rw [List.mem_singleton.mp hrule]
    change normalizeAstLanguage plainTexts "python".toList = some "python".toList
    decide
  · intro rule hrule
    rw [List.mem_singleton.mp hrule]
    exact h

theorem projectScanReports_equalBackends (rules : List RuleSpec) :
    ProjectScanReports equalBackends rules := by
  intro source found hfound
  cases hfound

theorem rustPatternMatches_equalMatcher
    {source pattern language : Text} :
    RustPatternMatches equalMatcher source pattern language ↔ source = pattern := by
  constructor
  · rintro ⟨prepared, hprepared, hne⟩
    cases hprepared
    by_contra h
    exact hne (if_neg h)
  · rintro rfl
    exact ⟨_, rfl, by simp⟩

theorem pythonPatternMatches_equalBackends
    {name : BackendName}
    {source pattern language : Text} :
    PythonPatternMatches equalBackends name source pattern language ↔ source = pattern := by
  constructor
  · rintro ⟨nodes, hnodes, hne⟩
    cases hnodes
    by_contra h
    exact hne (if_neg h)
  · rintro rfl
    exact ⟨_, rfl, by simp⟩

/-- Tests of a rule with one member. -/
theorem test_verdicts_are_scan_verdicts_iff_single :
    ∃ rustRun pythonRun,
      executeAstTestCore equalMatcher entryOrder (fun _ => []) [testedRule [['a']]]
          "python".toList [invalidFile ['a']] = .ok rustRun ∧
      testCommand plainTexts equalBackends [testedRule [['a']]] "python".toList
          [invalidFile ['a']] = .ok pythonRun ∧
      (TreatsAsMatch (rustReader [testedRule [['a']]] "python".toList) rustRun (invalidFile ['a'])
          (invalidCase ['a']) true ['a'] ↔
        RustFlags equalMatcher (fun _ => none) ⟨"py".toList, ['a']⟩ (testedRule [['a']])) ∧
      (TreatsAsMatch (pythonReader plainTexts [testedRule [['a']]] "python".toList) pythonRun
          (invalidFile ['a']) (invalidCase ['a']) true ['a'] ↔
        PythonFlags plainTexts equalBackends (fun _ => none) ⟨"py".toList, ['a']⟩
          (testedRule [['a']])) := by
  obtain ⟨rustRun, hrust⟩ : ∃ run, executeAstTestCore equalMatcher entryOrder (fun _ => [])
      [testedRule [['a']]] "python".toList [invalidFile ['a']] = .ok run := ⟨_, rfl⟩
  obtain ⟨pythonRun, hpython⟩ : ∃ run, testCommand plainTexts equalBackends [testedRule [['a']]]
      "python".toList [invalidFile ['a']] = .ok run := ⟨_, rfl⟩
  refine ⟨rustRun, pythonRun, hrust, hpython, (test_verdicts_are_scan_verdicts_iff equalMatcher entryOrder _
    (fun _ => none) _ _ plainTexts equalBackends (fun _ => none) _ _ _ rustRun pythonRun hrust
    hpython (loaded_testedRule _ (by decide)) (projectScanReports_equalBackends _)
    (testedRule [['a']]) (testedRule [['a']]) (invalidFile ['a']) (List.mem_singleton_self _)
    (invalidCase ['a']) (List.mem_singleton_self _) (linkedTo_invalidCase _)
    (linkedTo_invalidCase _) true ['a'] (List.mem_singleton_self _) "py".toList).1.mpr ⟨?_, ?_⟩⟩
  · have hscans : RustScans equalMatcher (fun _ => none) "py".toList (testedRule [['a']]) :=
      ⟨.python, rfl, rfl⟩
    refine (rustAlike_iff_of_scans rfl (List.mem_singleton_self _) hscans
      fun p _ => ⟨_, rfl⟩).mpr fun p _ _ => ?_
    exact rustPatternMatches_equalMatcher.mpr rfl
  · refine iff_of_true ⟨List.mem_singleton_self _, testedRule [['a']], .astGrepWrapperBackend, rfl,
      rfl, pythonPatternMatches_equalBackends.mpr rfl⟩ ⟨.astGrepWrapperBackend, rfl, ?_⟩
    rw [if_neg (by simp [equalBackends])]
    exact ⟨fun p _ => rfl, ['a'], List.mem_singleton_self _,
      pythonPatternMatches_equalBackends.mpr rfl⟩

/-- A rule with the members `a` and `b` and the snippet `b`, which should be flagged: the scans of
both languages report it, and the tests of both treat it as no match. -/
theorem second_member_is_not_tested :
    ∃ rustRun pythonRun,
      executeAstTestCore equalMatcher entryOrder (fun _ => []) [testedRule [['a'], ['b']]]
          "python".toList [invalidFile ['b']] = .ok rustRun ∧
      testCommand plainTexts equalBackends [testedRule [['a'], ['b']]] "python".toList
          [invalidFile ['b']] = .ok pythonRun ∧
      (RustFlags equalMatcher (fun _ => none) ⟨"py".toList, ['b']⟩ (testedRule [['a'], ['b']]) ∧
        ¬ TreatsAsMatch (rustReader [testedRule [['a'], ['b']]] "python".toList) rustRun
          (invalidFile ['b']) (invalidCase ['b']) true ['b']) ∧
      PythonFlags plainTexts equalBackends (fun _ => none) ⟨"py".toList, ['b']⟩
          (testedRule [['a'], ['b']]) ∧
        ¬ TreatsAsMatch (pythonReader plainTexts [testedRule [['a'], ['b']]] "python".toList)
          pythonRun (invalidFile ['b']) (invalidCase ['b']) true ['b'] := by
  obtain ⟨rustRun, hrust⟩ : ∃ run, executeAstTestCore equalMatcher entryOrder (fun _ => [])
      [testedRule [['a'], ['b']]] "python".toList [invalidFile ['b']] = .ok run := ⟨_, rfl⟩
  obtain ⟨pythonRun, hpython⟩ : ∃ run, testCommand plainTexts equalBackends
      [testedRule [['a'], ['b']]] "python".toList [invalidFile ['b']] = .ok run := ⟨_, rfl⟩
  have hmember : ['b'] ∈ (testedRule [['a'], ['b']]).memberPatterns := by decide
  refine ⟨rustRun, pythonRun, hrust, hpython, ⟨?_, ?_⟩, ?_, ?_⟩
  · exact rustFlags_iff.mpr ⟨⟨.python, rfl, rfl⟩, fun p _ => ⟨_, rfl⟩, ['b'], hmember,
      rustPatternMatches_equalMatcher.mpr rfl⟩
  · rw [treatsAsMatch_rust_iff hrust (List.mem_singleton_self _) (List.mem_singleton_self _)
      (linkedTo_invalidCase _) (List.mem_singleton_self _)]
    rintro ⟨first, hfirst, hmatch⟩
    cases hfirst
    rw [rustPatternMatches_equalMatcher] at hmatch
    exact absurd hmatch (by decide)
  · refine (pythonFlags_iff (projectScanReports_equalBackends [testedRule [['a'], ['b']]])).mpr
      ⟨.astGrepWrapperBackend, rfl, ?_⟩
    rw [if_neg (by simp [equalBackends])]
    exact ⟨fun p _ => rfl, ['b'], hmember, pythonPatternMatches_equalBackends.mpr rfl⟩
  · rw [treatsAsMatch_python_iff (loaded_testedRule _ (by decide)) hpython
      (List.mem_singleton_self _) (List.mem_singleton_self _) (linkedTo_invalidCase _)]
    rintro ⟨-, last, name, hlast, -, hmatch⟩
    cases hlast
    rw [pythonPatternMatches_equalBackends] at hmatch
    exact absurd hmatch (by decide)

end Scan
end TensorGrep
