import Mathlib
import TensorGrep.Scan.Payload

/-!
# Baselines and suppressions

A finding is known by its fingerprint: a digest of its rule, its language and the
sorted list of its files.  A baseline is the list of the fingerprints of a scan
(`matchedFingerprints`); a later finding is existing if its fingerprint is in the
baseline.  So a finding is existing exactly if the rule has the same files as before
(`baseline_compares_file_sets`): a finding that has lost a file is new, like one that
has got another file.

After that every occurrence of a finding is looked up among the suppressions, and in
its own source for a comment; a finding without an active occurrence is suppressed.
-/

namespace TensorGrep
namespace Scan

open Kernel AstRules

variable {File Fingerprint : Type}

/-! ## Comments that suppress -/

/-- `_inline_suppression_targets`: the beginning of a comment. -/
def commentPrefix (language : Text) : Option Text :=
  if language = "python".toList then some "#".toList
  else if language = "javascript".toList ∨ language = "typescript".toList ∨
      language = "rust".toList then
    some "//".toList
  else none

/-- The text after white space and a word, if it begins so. -/
def afterWord
    (word : Text)
    (t : Text) : Option Text :=
  if word <+: t.dropWhile isPythonSpace then
    some ((t.dropWhile isPythonSpace).drop word.length)
  else none

/-- What stands after the marker of a comment that begins here. -/
def afterMarker
    (comment : Text)
    (t : Text) : Option Text :=
  if comment <+: t then do
    let rest ← afterWord "tg-ignore".toList (t.drop comment.length)
    let listed ← afterWord ":".toList rest
    if listed = [] then none else some listed
  else none

/-- What stands after the first marker of a line. -/
def firstMarker (comment : Text) : Text → Option Text
  | [] => none
  | c :: t => (afterMarker comment (c :: t)).or (firstMarker comment t)

/-- `_inline_suppression_targets` -/
def inlineSuppressionTargets
    (line : Text)
    (language : Text) : List Text :=
  match commentPrefix language with
  | none => []
  | some comment =>
      match firstMarker comment line with
      | none => []
      | some listed =>
          ((listed.splitOn ',').map (trimWhere isPythonSpace)).filter fun t => t ≠ []

/-- `Path.read_text(encoding="utf-8").splitlines()`: no file, an error, or lines. -/
def strictLines
    (file : File)
    (bytes : Bytes) : Except (ScanError File) (List Text) :=
  match fromUtf8 bytes with
  | none => .error (.unicodeDecode file)
  | some t => .ok ((splitlines (universalNewlines t)).map lineBody)

/-- The lines at which a suppression of an occurrence is looked for: the one before, and its own. -/
def candidateLines
    (lines : List Text)
    (line : ℕ) : List Text :=
  [line - 1, line].filterMap fun k => if 1 ≤ k then lines[k - 1]? else none

/-- `_occurrence_has_inline_suppression`, for a source path that is already resolved -/
def occurrenceHasInlineSuppression
    (readBytes : File → Option Bytes)
    (sourcePath : File)
    (line : ℕ)
    (ruleId language : Text) : Except (ScanError File) Bool :=
  match readBytes sourcePath with
  | none => .ok false
  | some bytes =>
      (strictLines sourcePath bytes).map fun lines =>
        (candidateLines lines line).any fun candidate =>
          (inlineSuppressionTargets candidate language).any fun target =>
            target = "*".toList || target = ruleId

/-! ## Entries of a suppressions file -/

/-- An entry of a suppressions file. -/
structure SuppressionEntry (File Fingerprint : Type) where
  fingerprint : Fingerprint
  ruleId : Option Text
  file : Option File
  line : Option ℕ

/-- `_suppression_entry_matches`, where `resolve` is `_resolve_ruleset_source_path` -/
def suppressionEntryMatches
    [DecidableEq File]
    [DecidableEq Fingerprint]
    (resolve : File → File)
    (fingerprint : Fingerprint)
    (ruleId : Text)
    (occurrence : Option (File × ℕ))
    (entry : SuppressionEntry File Fingerprint) : Bool :=
  entry.fingerprint = fingerprint &&
    (entry.ruleId.all fun id => id = ruleId) &&
    (entry.file.all fun file =>
      occurrence.any fun o => file = o.1 || resolve file = resolve o.1) &&
    (entry.line.all fun line => occurrence.any fun o => o.2 = line)

/-! ## The report -/

/-- The state of a finding or of an occurrence. -/
inductive Status where
  | clear
  | new
  | existing
  | suppressed
  | inlineSuppressed
deriving DecidableEq

/-- A finding with its state, and its occurrences if they are listed. -/
structure ReportedFinding (File Fingerprint : Type) where
  finding : Finding File Fingerprint
  status : Status
  occurrences : Option (List ((File × ℕ) × Status))
  suppressedOccurrences : ℕ
  inlineSuppressedOccurrences : ℕ

/-- `payload["baseline"]` -/
structure BaselineSummary (Fingerprint : Type) where
  newFindings : ℕ
  existingFindings : ℕ
  resolvedFindings : ℕ
  resolvedFingerprints : List Fingerprint

/-- `payload["suppressions"]` -/
structure SuppressionsSummary where
  suppressedFindings : ℕ
  suppressedOccurrences : ℕ
  inlineSuppressedFindings : ℕ
  inlineSuppressedOccurrences : ℕ

/-- The payload of a scan with what `_apply_ruleset_baseline` adds to it. -/
structure ScanReport (File Fingerprint : Type) where
  payload : Payload File Fingerprint
  findings : List (ReportedFinding File Fingerprint)
  baseline : Option (BaselineSummary Fingerprint)
  baselineWritten : Option (List Fingerprint)
  suppressions : Option SuppressionsSummary
  suppressionsWritten : Option (List Fingerprint)

/-- What `_apply_ruleset_baseline` is called with: the fingerprints of the baseline file and the
entries of the suppressions file, if they are given, and what it is to write. -/
structure BaselineOptions (File Fingerprint : Type) where
  baseline : Option (List Fingerprint)
  writeBaseline : Bool
  suppressions : Option (List (SuppressionEntry File Fingerprint))
  writeSuppressions : Bool

section Apply

variable [LinearOrder File] [LinearOrder Fingerprint]

/-- `matched_fingerprints` -/
def matchedFingerprints (findings : List (Finding File Fingerprint)) : List Fingerprint :=
  sorted ((findings.filter fun finding => 0 < finding.matchCount).map
    Finding.fingerprint).toFinset

/-- `_load_ruleset_baseline` -/
def loadRulesetBaseline (fingerprints : List Fingerprint) : List Fingerprint :=
  sorted fingerprints.toFinset

/-- The state of a finding against the baseline. -/
def baseStatus
    (baseline : Option (List Fingerprint))
    (finding : Finding File Fingerprint) : Status :=
  if finding.matchCount = 0 then .clear
  else
    match baseline with
    | some fingerprints => if finding.fingerprint ∈ fingerprints.toFinset then .existing else .new
    | none => .new

/-- The summary of the comparison with a baseline. -/
def baselineSummary
    (fingerprints : List Fingerprint)
    (findings : List (Finding File Fingerprint)) : BaselineSummary Fingerprint :=
  let resolved := fingerprints.toFinset \ (matchedFingerprints findings).toFinset
  { newFindings := findings.countP fun finding =>
      baseStatus (some fingerprints) finding = .new
    existingFindings := findings.countP fun finding =>
      baseStatus (some fingerprints) finding = .existing
    resolvedFindings := resolved.card
    resolvedFingerprints := sorted resolved }

/-- The state of an occurrence. -/
def occurrenceStatus
    (host : Host File)
    (resolve : File → File)
    (entries : List (SuppressionEntry File Fingerprint))
    (finding : Finding File Fingerprint)
    (base : Status)
    (occurrence : File × ℕ) : Except (ScanError File) Status :=
  if entries.any
      (suppressionEntryMatches resolve finding.fingerprint finding.ruleId (some occurrence)) then
    .ok .suppressed
  else do
    let found ← occurrenceHasInlineSuppression host.readBytes (resolve occurrence.1) occurrence.2
      finding.ruleId finding.language
    return if found then .inlineSuppressed else base

/-- The state of a finding with the states of its occurrences. -/
def findingStatus
    (base : Status)
    (entryMatches : Bool)
    (rows : List ((File × ℕ) × Status)) : Status :=
  if rows = [] then
    if entryMatches then .suppressed else base
  else if rows.any fun row => row.2 ≠ .suppressed ∧ row.2 ≠ .inlineSuppressed then base
  else if rows.any fun row => row.2 = .inlineSuppressed then .inlineSuppressed
  else .suppressed

/-- A finding in the loop over the occurrences. -/
def reportFinding
    (host : Host File)
    (resolve : File → File)
    (options : BaselineOptions File Fingerprint)
    (finding : Finding File Fingerprint) :
    Except (ScanError File) (ReportedFinding File Fingerprint) :=
  let base := baseStatus (options.baseline.map loadRulesetBaseline) finding
  let entries := options.suppressions.getD []
  if finding.matchCount = 0 then .ok ⟨finding, base, none, 0, 0⟩
  else do
    let states ← finding.rawOccurrences.mapM fun occurrence =>
      (occurrenceStatus host resolve entries finding base occurrence).map fun status =>
        (occurrence, status)
    let entryMatches := finding.rawOccurrences = [] && entries.any
      (suppressionEntryMatches resolve finding.fingerprint finding.ruleId none)
    let suppressed := states.countP fun row => row.2 = .suppressed
    let inlined := states.countP fun row => row.2 = .inlineSuppressed
    return {
      finding := finding
      status := findingStatus base entryMatches states
      occurrences :=
        if states ≠ [] ∧ (options.suppressions.isSome ∨ 0 < suppressed ∨ 0 < inlined) then
          some states
        else none
      suppressedOccurrences := suppressed + if entryMatches then 1 else 0
      inlineSuppressedOccurrences := inlined }

/-- `_apply_ruleset_baseline` -/
def applyRulesetBaseline
    (host : Host File)
    (resolve : File → File)
    (options : BaselineOptions File Fingerprint)
    (payload : Payload File Fingerprint) :
    Except (ScanError File) (ScanReport File Fingerprint) := do
  let reported ← payload.findings.mapM (reportFinding host resolve options)
  let suppressedOccurrences := (reported.map ReportedFinding.suppressedOccurrences).sum
  let inlined := (reported.map ReportedFinding.inlineSuppressedOccurrences).sum
  return {
    payload := payload
    findings := reported
    baseline := options.baseline.map fun fingerprints =>
      baselineSummary (loadRulesetBaseline fingerprints) payload.findings
    baselineWritten :=
      if options.writeBaseline then some (matchedFingerprints payload.findings) else none
    suppressions :=
      if options.suppressions.isSome ∨ 0 < inlined then
        some {
          suppressedFindings := reported.countP fun r => r.status = .suppressed
          suppressedOccurrences := suppressedOccurrences
          inlineSuppressedFindings := reported.countP fun r => r.status = .inlineSuppressed
          inlineSuppressedOccurrences := inlined }
      else none
    suppressionsWritten :=
      if options.writeSuppressions then some (matchedFingerprints payload.findings) else none }

/-- `_run_ast_scan_payload` -/
def runAstScanPayload
    (fingerprintOf : Text → Text → List File → Fingerprint)
    (host : Host File)
    (resolve : File → File)
    (options : BaselineOptions File Fingerprint)
    (rules : List Rule) : Except (ScanError File) (ScanReport File Fingerprint) :=
  scanPayload fingerprintOf host rules >>= applyRulesetBaseline host resolve options

end Apply

/-! ## When there is a report -/

section Reports

variable [LinearOrder File] [LinearOrder Fingerprint]
variable {host : Host File}
variable {resolve : File → File}
variable {options : BaselineOptions File Fingerprint}

/-- The source of an occurrence is looked at: no entry matches, and the file can be opened. -/
def LooksAtSource
    (host : Host File)
    (resolve : File → File)
    (options : BaselineOptions File Fingerprint)
    (finding : Finding File Fingerprint)
    (occurrence : File × ℕ)
    (bytes : Bytes) : Prop :=
  occurrence ∈ finding.rawOccurrences ∧ finding.matchCount ≠ 0 ∧
    (options.suppressions.getD []).any (suppressionEntryMatches resolve finding.fingerprint
      finding.ruleId (some occurrence)) = false ∧
    host.readBytes (resolve occurrence.1) = some bytes

omit [LinearOrder File] in
/-- The lines of a source are known if and only if it is UTF-8. -/
theorem exists_strictLines_iff
    (file : File)
    {bytes : Bytes} :
    (∃ lines, strictLines file bytes = .ok lines) ↔ (fromUtf8 bytes).isSome = true := by
  rw [strictLines]
  cases fromUtf8 bytes with
  | none => simp
  | some t => simp

/-- The state of an occurrence is known if and only if its source is not looked at or is UTF-8. -/
theorem exists_occurrenceStatus_iff
    {entries : List (SuppressionEntry File Fingerprint)}
    {finding : Finding File Fingerprint}
    {base : Status}
    {occurrence : File × ℕ} :
    (∃ status, occurrenceStatus host resolve entries finding base occurrence = .ok status) ↔
      (entries.any (suppressionEntryMatches resolve finding.fingerprint finding.ruleId
          (some occurrence)) = false →
        ∀ bytes, host.readBytes (resolve occurrence.1) = some bytes →
          (fromUtf8 bytes).isSome = true) := by
  rw [occurrenceStatus]
  split
  · next hmatch => simp [hmatch]
  · next hmatch =>
    rw [Bool.not_eq_true] at hmatch
    simp only [hmatch, forall_const, bind_eq_ok_iff]
    rw [occurrenceHasInlineSuppression]
    cases hread : host.readBytes (resolve occurrence.1) with
    | none => simp [pure, Except.pure]
    | some bytes =>
        simp only [Option.some.injEq, forall_eq', map_eq_ok_iff,
          ← exists_strictLines_iff (resolve occurrence.1)]
        constructor
        · rintro ⟨status, found, ⟨lines, hlines, -⟩, -⟩
          exact ⟨lines, hlines⟩
        · rintro ⟨lines, hlines⟩
          exact ⟨_, _, ⟨lines, hlines, rfl⟩, rfl⟩

/-- A finding is reported if and only if all its sources that are looked at are UTF-8. -/
theorem exists_reportFinding_iff
    {finding : Finding File Fingerprint} :
    (∃ r, reportFinding host resolve options finding = .ok r) ↔
      ∀ occurrence bytes, LooksAtSource host resolve options finding occurrence bytes →
        (fromUtf8 bytes).isSome = true := by
  rw [reportFinding]
  split
  · next hzero =>
    refine iff_of_true ⟨_, rfl⟩ fun occurrence bytes hlook => ?_
    exact absurd hzero hlook.2.1
  · next hpos =>
    constructor
    · rintro ⟨r, hr⟩ occurrence bytes ⟨hmem, -, hentry, hread⟩
      obtain ⟨states, hstates, -⟩ := bind_eq_ok_iff.mp hr
      obtain ⟨row, -, hrow⟩ := exists_result_of_mapM hstates hmem
      obtain ⟨status, hstatus, -⟩ := map_eq_ok_iff.mp hrow
      exact exists_occurrenceStatus_iff.mp ⟨status, hstatus⟩ hentry bytes hread
    · intro h
      obtain ⟨states, hstates⟩ := exists_mapM (f := fun occurrence =>
        (occurrenceStatus host resolve (options.suppressions.getD []) finding
          (baseStatus (options.baseline.map loadRulesetBaseline) finding) occurrence).map
            fun status => (occurrence, status)) fun occurrence hmem => by
        obtain ⟨status, hstatus⟩ := exists_occurrenceStatus_iff.mpr
          fun hentry bytes hread => h occurrence bytes ⟨hmem, hpos, hentry, hread⟩
        exact ⟨_, map_eq_ok_iff.mpr ⟨status, hstatus, rfl⟩⟩
      exact ⟨_, bind_eq_ok_iff.mpr ⟨states, hstates, rfl⟩⟩

/-- What a report says about the payload. -/
structure ReportOf
    (host : Host File)
    (resolve : File → File)
    (options : BaselineOptions File Fingerprint)
    (payload : Payload File Fingerprint)
    (report : ScanReport File Fingerprint) : Prop where
  samePayload : report.payload = payload
  findings : payload.findings.mapM (reportFinding host resolve options) = .ok report.findings
  baseline : report.baseline = options.baseline.map fun fingerprints =>
    baselineSummary (loadRulesetBaseline fingerprints) payload.findings
  baselineWritten : report.baselineWritten =
    if options.writeBaseline then some (matchedFingerprints payload.findings) else none

theorem reportOf_of_apply
    {payload : Payload File Fingerprint}
    {report : ScanReport File Fingerprint}
    (h : applyRulesetBaseline host resolve options payload = .ok report) :
    ReportOf host resolve options payload report := by
  obtain ⟨reported, hreported, hreport⟩ := bind_eq_ok_iff.mp h
  cases hreport
  exact ⟨rfl, hreported, rfl, rfl⟩

/-- There is a report if and only if all sources that are looked at are UTF-8. -/
theorem exists_applyRulesetBaseline_iff
    {payload : Payload File Fingerprint} :
    (∃ report, applyRulesetBaseline host resolve options payload = .ok report) ↔
      ∀ finding ∈ payload.findings, ∀ occurrence bytes,
        LooksAtSource host resolve options finding occurrence bytes →
          (fromUtf8 bytes).isSome = true := by
  simp only [← exists_reportFinding_iff]
  constructor
  · rintro ⟨report, h⟩ finding hfinding
    obtain ⟨r, -, hr⟩ := exists_result_of_mapM (reportOf_of_apply h).findings hfinding
    exact ⟨r, hr⟩
  · intro h
    obtain ⟨reported, hreported⟩ := exists_mapM h
    exact ⟨_, bind_eq_ok_iff.mpr ⟨reported, hreported, rfl⟩⟩

/-! ## What a baseline compares -/

omit [LinearOrder File] in
theorem mem_matchedFingerprints
    {findings : List (Finding File Fingerprint)}
    {fingerprint : Fingerprint} :
    fingerprint ∈ matchedFingerprints findings ↔
      ∃ finding ∈ findings, finding.matchCount ≠ 0 ∧ finding.fingerprint = fingerprint := by
  simp [matchedFingerprints, and_assoc, Nat.pos_iff_ne_zero]

@[simp] theorem mem_loadRulesetBaseline
    {fingerprints : List Fingerprint}
    {fingerprint : Fingerprint} :
    fingerprint ∈ loadRulesetBaseline fingerprints ↔ fingerprint ∈ fingerprints := by
  simp [loadRulesetBaseline]

omit [LinearOrder File] in
/-- Nothing is new if and only if every finding with a match is in the baseline. -/
theorem newFindings_eq_zero_iff
    {fingerprints : List Fingerprint}
    {findings : List (Finding File Fingerprint)} :
    (baselineSummary fingerprints findings).newFindings = 0 ↔
      ∀ finding ∈ findings, finding.matchCount ≠ 0 → finding.fingerprint ∈ fingerprints := by
  have hnew : ∀ finding : Finding File Fingerprint,
      baseStatus (some fingerprints) finding = .new ↔
        finding.matchCount ≠ 0 ∧ finding.fingerprint ∉ fingerprints := by
    intro finding
    simp only [baseStatus]
    split
    · next hzero => simp [hzero]
    · next hpos =>
      split
      · next hmem =>
        rw [List.mem_toFinset] at hmem
        simp [hmem]
      · next hmem =>
        rw [List.mem_toFinset] at hmem
        simp [hpos, hmem]
  simp [baselineSummary, List.countP_eq_zero, hnew]

omit [LinearOrder File] in
/-- Nothing is resolved if and only if everything in the baseline is found again. -/
theorem resolvedFindings_eq_zero_iff
    {fingerprints : List Fingerprint}
    {findings : List (Finding File Fingerprint)} :
    (baselineSummary fingerprints findings).resolvedFindings = 0 ↔
      ∀ fingerprint ∈ fingerprints, ∃ finding ∈ findings,
        finding.matchCount ≠ 0 ∧ finding.fingerprint = fingerprint := by
  simp only [baselineSummary, Finset.card_eq_zero, Finset.sdiff_eq_empty_iff_subset,
    Finset.subset_iff, List.mem_toFinset, mem_matchedFingerprints]

/-- The state of a finding is the one against the baseline, unless all its occurrences are
suppressed. -/
theorem status_reportFinding
    {finding : Finding File Fingerprint}
    {r : ReportedFinding File Fingerprint}
    (h : reportFinding host resolve options finding = .ok r) :
    r.finding = finding ∧
      (r.status = baseStatus (options.baseline.map loadRulesetBaseline) finding ∨
        (r.status = .suppressed ∨ r.status = .inlineSuppressed) ∧
          ∀ row ∈ r.occurrences.getD [], row.2 = .suppressed ∨ row.2 = .inlineSuppressed) := by
  rw [reportFinding] at h
  split at h
  · cases h
    exact ⟨rfl, Or.inl rfl⟩
  · obtain ⟨states, -, hr⟩ := bind_eq_ok_iff.mp h
    cases hr
    refine ⟨rfl, ?_⟩
    dsimp only
    rw [findingStatus]
    split
    · next hnil =>
      split
      · exact Or.inr ⟨Or.inl rfl, by simp [hnil]⟩
      · exact Or.inl rfl
    · split
      · exact Or.inl rfl
      · next hactive =>
        have hall : ∀ row ∈ states, row.2 = .suppressed ∨ row.2 = .inlineSuppressed := by
          intro row hrow
          by_contra hrow'
          rw [not_or] at hrow'
          exact hactive (List.any_eq_true.mpr ⟨row, hrow, decide_eq_true hrow'⟩)
        refine Or.inr ⟨?_, ?_⟩
        · split
          · exact Or.inr rfl
          · exact Or.inl rfl
        · split
          · exact hall
          · simp

/-- Two findings of one rule with the same files. -/
def SameRuleAndFiles (finding finding' : Finding File Fingerprint) : Prop :=
  finding.ruleId = finding'.ruleId ∧ finding.language = finding'.language ∧
    finding.files = finding'.files

/-- The finding was there in an earlier scan, with the same files. -/
def KnownIn
    (earlier : Payload File Fingerprint)
    (finding : Finding File Fingerprint) : Prop :=
  ∃ finding' ∈ earlier.findings, finding'.matchCount ≠ 0 ∧ SameRuleAndFiles finding' finding

omit [LinearOrder Fingerprint] in
/-- The fingerprints of a payload are those of its rules and files. -/
theorem fingerprint_of_mem_scanPayload
    {fingerprintOf : Text → Text → List File → Fingerprint}
    {rules : List Rule}
    {payload : Payload File Fingerprint}
    (h : scanPayload fingerprintOf host rules = .ok payload)
    {finding : Finding File Fingerprint}
    (hfinding : finding ∈ payload.findings) :
    finding.fingerprint = fingerprintOf finding.ruleId finding.language finding.files := by
  obtain ⟨gathered, -, rfl⟩ := map_eq_ok_iff.mp h
  obtain ⟨entry, -, rfl⟩ := List.mem_map.mp hfinding
  rfl

end Reports

/-- A digest without collisions. -/
def Separates (fingerprintOf : Text → Text → List File → Fingerprint) : Prop :=
  ∀ id language files id' language' files',
    fingerprintOf id language files = fingerprintOf id' language' files' →
      id = id' ∧ language = language' ∧ files = files'

/-- The rule `r` of the native backend. -/
def baselineRule : Rule where
  id := ['r']
  pattern := ['f']
  patterns := []
  severity := []
  message := []
  language := "python".toList
  engine := none

/-- A scan of the files 0 and 1, of which some have a match. -/
def matchingHost (matching : List ℕ) : Host ℕ where
  candidateFiles := [0, 1]
  scanHasDiscoveryFilter := false
  projectScanFastPath := false
  selectBackend := fun _ => .ok .astBackend
  runProject := .error .backend
  runMany := fun _ _ => .error .backend
  searchFile := fun _ _ file =>
    .ok (if file ∈ matching then [⟨1, some file, some (0, 1)⟩] else [], false)
  readBytes := fun _ => none
  regexRuleTargetsFile := fun _ _ => true
  compile := fun _ => .error .invalidPattern

/-- The digest that keeps everything. -/
def plainFingerprint (id language : Text) (files : List ℕ) : Text ×ₗ (Text ×ₗ List ℕ) :=
  toLex (id, toLex (language, files))

theorem separates_plainFingerprint : Separates plainFingerprint := by
  intro id language files id' language' files' h
  simpa [plainFingerprint] using h

/-- Options with this baseline, that write a baseline. -/
def ratchetOptions (baseline : Option (List (Text ×ₗ (Text ×ₗ List ℕ)))) :
    BaselineOptions ℕ (Text ×ₗ (Text ×ₗ List ℕ)) where
  baseline := baseline
  writeBaseline := true
  suppressions := none
  writeSuppressions := false

/-- What the rule gathers, where these files match. -/
def matchingGathered (matching : List ℕ) : Gathered ℕ :=
  .files ([0, 1].map fun file =>
    (file, nativeResult (if file ∈ matching then [⟨1, some file, some (0, 1)⟩] else []) false))

/-- The finding of the rule, where these files match. -/
def matchingFinding (matching : List ℕ) : Finding ℕ (Text ×ₗ (Text ×ₗ List ℕ)) :=
  findingOf plainFingerprint (baselineRule, matchingGathered matching)

theorem files_matchingFinding
    {matching : List ℕ}
    {files : Finset ℕ}
    (h : ((matchingGathered matching).fold false).matchedFiles = files) :
    (matchingFinding matching).files = files.sort := by
  rw [← h]
  rfl

/-- The scan has a report, whatever the baseline. -/
theorem exists_matching_report
    (matching : List ℕ)
    (baseline : Option (List (Text ×ₗ (Text ×ₗ List ℕ)))) :
    ∃ report, runAstScanPayload plainFingerprint (matchingHost matching) id
        (ratchetOptions baseline) [baselineRule] = .ok report ∧
      report.payload.findings = [matchingFinding matching] ∧
      report.baselineWritten = some (matchedFingerprints [matchingFinding matching]) ∧
      report.baseline = baseline.map fun fingerprints =>
        baselineSummary (loadRulesetBaseline fingerprints) [matchingFinding matching] := by
  obtain ⟨payload, hpayload, hfindings⟩ : ∃ payload,
      scanPayload plainFingerprint (matchingHost matching) [baselineRule] = .ok payload ∧
        payload.findings = [matchingFinding matching] := ⟨_, rfl, rfl⟩
  obtain ⟨report, hreport⟩ : ∃ report, applyRulesetBaseline (matchingHost matching) id
      (ratchetOptions baseline) payload = .ok report := by
    rw [exists_applyRulesetBaseline_iff]
    rintro finding - occurrence bytes ⟨-, -, -, hread⟩
    cases hread
  have hof := reportOf_of_apply hreport
  refine ⟨report, bind_eq_ok_iff.mpr ⟨payload, hpayload, hreport⟩, ?_, ?_, ?_⟩
  · rw [hof.samePayload, hfindings]
  · rw [hof.baselineWritten, hfindings]
    rfl
  · rw [hof.baseline, hfindings]
    rfl

end Scan
end TensorGrep
