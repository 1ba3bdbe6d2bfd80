import TensorGrep.Scan.Baseline

/-!
# Suppressions

A suppressions file lists entries, which may be narrowed to a rule, a file or a line.
A scan can write one that has an entry for every finding with a match.

An occurrence is covered by an entry or by a comment in its source, and a finding is
suppressed exactly if all its occurrences are covered.  The counters of suppressed
occurrences and the active ones add up to all occurrences, but for a finding without
occurrences: if an entry suppresses it, it is counted as one occurrence.
-/

namespace TensorGrep
namespace Scan

open Kernel Json AstRules

/-! ## Suppressions files -/

/-- An entry of a suppressions file as it is loaded. -/
structure LoadedEntry where
  fingerprint : CodePoints
  justification : Option CodePoints
  createdAt : Option CodePoints
  file : Option CodePoints
  line : Option ℕ
  ruleId : Option CodePoints

/-- A string that is not blank. -/
def requiredText
    (message : String) : Option Json → Except String CodePoints
  | some (.string s) => if stripCodes s = [] then .error message else .ok s
  | _ => .error message

/-- `payload.get(key)`, where `null` is like no value. -/
def optionalField
    (key : String)
    (fields : List (CodePoints × Json)) : Option Json :=
  match lookup (codePoints key) fields with
  | some .null => none
  | v => v

/-- An optional string that is not blank. -/
def optionalText
    (message : String) : Option Json → Except String (Option CodePoints)
  | none => .ok none
  | some v => (requiredText message (some v)).map some

/-- An optional positive number. -/
def optionalLine
    (message : String) : Option Json → Except String (Option ℕ)
  | none => .ok none
  | some (.number (.int i)) => if i ≤ 0 then .error message else .ok (some i.toNat)
  | some _ => .error message

/-- `created_at.replace("Z", "+00:00")`. -/
def withOffset (createdAt : CodePoints) : CodePoints :=
  createdAt.flatMap fun c => if c.val = 0x5A then codePoints "+00:00" else [c]

/-- A date that `datetime.fromisoformat` reads; `isoformat` says which these are. -/
def datedText
    (isoformat : CodePoints → Bool)
    (createdAt : CodePoints) : Except String CodePoints :=
  if isoformat (withOffset createdAt) then .ok createdAt
  else .error "Ruleset suppressions entries must include ISO-8601 'created_at' timestamps."

/-- An entry of `_load_ruleset_suppressions`. -/
def loadEntry (isoformat : CodePoints → Bool) : Json → Except String LoadedEntry
  | .object fields => do
      let fingerprint ← requiredText
        "Ruleset suppressions entries must include a non-empty 'fingerprint' string."
        (lookup (codePoints "fingerprint") fields)
      let justification ← requiredText
        "Ruleset suppressions entries must include a non-empty 'justification' string."
        (lookup (codePoints "justification") fields)
      let createdAt ← requiredText
        "Ruleset suppressions entries must include a non-empty 'created_at' timestamp."
        (lookup (codePoints "created_at") fields)
      let dated ← datedText isoformat createdAt
      let file ← optionalText
        "Ruleset suppressions entries must use non-empty strings for optional 'file'."
        (optionalField "file" fields)
      let line ← optionalLine
        "Ruleset suppressions entries must use positive integers for optional 'line'."
        (optionalField "line" fields)
      let ruleId ← optionalText
        "Ruleset suppressions entries must use non-empty strings for optional 'rule_id'."
        (optionalField "rule_id" fields)
      return {
        fingerprint := stripCodes fingerprint
        justification := some (stripCodes justification)
        createdAt := some dated
        file := file
        line := line
        ruleId := ruleId }
  | _ => .error "Ruleset suppressions entries must be JSON objects."

/-- `_load_ruleset_suppressions`: the entries and the warnings. -/
def loadRulesetSuppressions
    (isoformat : CodePoints → Bool) : Json → Except String (List LoadedEntry × List String)
  | .object fields =>
      match optionalField "entries" fields with
      | some (.array items) => (items.mapM (loadEntry isoformat)).map fun entries => (entries, [])
      | some _ => .error "Ruleset suppressions 'entries' must be a list."
      | none =>
          let message :=
            "Ruleset suppressions must include a non-empty 'fingerprints' string list."
          match lookup (codePoints "fingerprints") fields with
          | some (.array items) =>
              (items.mapM fun item => requiredText message (some item)).map fun fingerprints =>
                ((sorted fingerprints.toFinset).map fun fingerprint =>
                    ⟨fingerprint, none, none, none, none, none⟩,
                  ["Legacy suppression format using 'fingerprints' is deprecated; " ++
                    "use 'entries' instead."])
          | _ => .error message
  | _ => .error "Ruleset suppressions must be a JSON object."

/-- The character of a code point, unless it is a surrogate. -/
def charOfCode (c : CodePoint) : Option Char :=
  if h : c.val.isValidChar then some (Char.ofNatAux c.val h) else none

/-- An entry as it is compared.  A rule's id has no surrogates, so that an entry for an id with one
is none. -/
def LoadedEntry.compared (e : LoadedEntry) : Option (SuppressionEntry CodePoints CodePoints) :=
  match e.ruleId with
  | none => some ⟨e.fingerprint, none, e.file, e.line⟩
  | some id => (id.mapM charOfCode).map fun ruleId => ⟨e.fingerprint, some ruleId, e.file, e.line⟩

/-- What `write_suppressions_path` gets; `stamp` is the time at which an entry is written. -/
def writeRulesetSuppressions
    (version ruleset language : Json)
    (justification : Option CodePoints)
    (stamp : CodePoints → CodePoints)
    (fingerprints : List CodePoints) : Except String Json := do
  let reason ← requiredText "--write-suppressions requires a non-empty --justification value."
    (justification.map .string)
  return .object [
    (codePoints "version", version),
    (codePoints "schema_version", version),
    (codePoints "kind", .string (codePoints "ruleset-scan-suppressions")),
    (codePoints "ruleset", ruleset),
    (codePoints "language", language),
    (codePoints "entries", .array (fingerprints.map fun fingerprint => .object [
      (codePoints "fingerprint", .string fingerprint),
      (codePoints "justification", .string (stripCodes reason)),
      (codePoints "created_at", .string (stamp fingerprint))]))]

/-- The file that is written is loaded with an entry for every fingerprint. -/
theorem loadRulesetSuppressions_write
    {isoformat : CodePoints → Bool}
    {version ruleset language file : Json}
    {justification : Option CodePoints}
    {stamp : CodePoints → CodePoints}
    {fingerprints : List CodePoints}
    (hwrite : writeRulesetSuppressions version ruleset language justification stamp fingerprints =
      .ok file)
    (hstamp : ∀ f, isoformat (withOffset (stamp f)) = true ∧ stripCodes (stamp f) ≠ [])
    (hplain : ∀ f ∈ fingerprints, f ≠ [] ∧ stripCodes f = f) :
    ∃ entries, loadRulesetSuppressions isoformat file = .ok (entries, []) ∧
      entries.filterMap LoadedEntry.compared =
        fingerprints.map fun f => ⟨f, none, none, none⟩ := by
  obtain ⟨reason, hreason, hfile⟩ := bind_eq_ok_iff.mp hwrite
  cases hfile
  have hreason' : stripCodes reason ≠ [] := by
    cases justification with
    | none => cases hreason
    | some s =>
        rw [Option.map_some, requiredText] at hreason
        split at hreason
        · cases hreason
        · next hsome =>
            cases hreason
            exact hsome
  have hentry : ∀ f ∈ fingerprints, loadEntry isoformat (.object [
      (codePoints "fingerprint", .string f),
      (codePoints "justification", .string (stripCodes reason)),
      (codePoints "created_at", .string (stamp f))]) =
        .ok ⟨f, some (stripCodes reason), some (stamp f), none, none, none⟩ := by
    intro f hf
    obtain ⟨hne, hstrip⟩ := hplain f hf
    obtain ⟨hiso, hdate⟩ := hstamp f
    simp [loadEntry, lookup, optionalField, optionalText, optionalLine, requiredText, datedText,
      hstrip, hne, hdate, hiso, hreason', stripCodes_stripCodes, bind, Except.bind, pure,
      Except.pure]
  refine ⟨fingerprints.map fun f =>
    ⟨f, some (stripCodes reason), some (stamp f), none, none, none⟩, ?_, ?_⟩
  · have hload : (fingerprints.map fun f => Json.object [
        (codePoints "fingerprint", .string f),
        (codePoints "justification", .string (stripCodes reason)),
        (codePoints "created_at", .string (stamp f))]).mapM (loadEntry isoformat) =
          .ok (fingerprints.map fun f =>
            ⟨f, some (stripCodes reason), some (stamp f), none, none, none⟩) := by
      rw [mapM_eq_ok_iff, List.forall₂_map_left_iff, List.forall₂_map_right_iff,
        List.forall₂_same]
      exact hentry
    simp [loadRulesetSuppressions, optionalField, lookup, hload, Except.map]
  · rw [List.filterMap_map, ← List.filterMap_eq_map]
    rfl

/-! ## What is covered -/

variable {File Fingerprint : Type}

/-- A finding or an occurrence that is suppressed in one of the two ways. -/
def Status.IsSuppressed (status : Status) : Prop :=
  status = .suppressed ∨ status = .inlineSuppressed

instance (status : Status) : Decidable status.IsSuppressed :=
  inferInstanceAs (Decidable (status = .suppressed ∨ status = .inlineSuppressed))

section Covered

variable [LinearOrder File] [LinearOrder Fingerprint]

/-- Some entry matches an occurrence. -/
def entryCovers
    (resolve : File → File)
    (entries : List (SuppressionEntry File Fingerprint))
    (finding : Finding File Fingerprint)
    (occurrence : File × ℕ) : Bool :=
  entries.any (suppressionEntryMatches resolve finding.fingerprint finding.ruleId (some occurrence))

/-- A comment in the source suppresses an occurrence. -/
def commentCovers
    (host : Host File)
    (resolve : File → File)
    (finding : Finding File Fingerprint)
    (occurrence : File × ℕ) : Bool :=
  match occurrenceHasInlineSuppression host.readBytes (resolve occurrence.1) occurrence.2
      finding.ruleId finding.language with
  | .ok found => found
  | .error _ => false

/-- Some entry without file and line matches a finding. -/
def WideEntry
    (entries : List (SuppressionEntry File Fingerprint))
    (finding : Finding File Fingerprint) : Prop :=
  ∃ entry ∈ entries, entry.fingerprint = finding.fingerprint ∧
    (∀ id, entry.ruleId = some id → id = finding.ruleId) ∧ entry.file = none ∧ entry.line = none

/-- All occurrences of a finding are covered; one without occurrences has an entry. -/
def FindingCovered
    (host : Host File)
    (resolve : File → File)
    (entries : List (SuppressionEntry File Fingerprint))
    (finding : Finding File Fingerprint) : Prop :=
  if finding.rawOccurrences = [] then WideEntry entries finding
  else ∀ occurrence ∈ finding.rawOccurrences,
    entryCovers resolve entries finding occurrence = true ∨
      commentCovers host resolve finding occurrence = true

variable {host host' : Host File}
variable {resolve : File → File}
variable {options options' : BaselineOptions File Fingerprint}
variable {entries : List (SuppressionEntry File Fingerprint)}
variable {finding : Finding File Fingerprint}

/-- The entries that match a finding without occurrences. -/
theorem any_matches_none_iff :
    entries.any (suppressionEntryMatches resolve finding.fingerprint finding.ruleId none) = true ↔
      WideEntry entries finding := by
  rw [List.any_eq_true, WideEntry]
  refine exists_congr fun entry => and_congr_right fun _ => ?_
  obtain ⟨fingerprint, ruleId, file, line⟩ := entry
  cases ruleId <;> cases file <;> cases line <;> simp [suppressionEntryMatches]

/-- The state of an occurrence, read off what covers it. -/
def coveredStatus
    (host : Host File)
    (resolve : File → File)
    (entries : List (SuppressionEntry File Fingerprint))
    (finding : Finding File Fingerprint)
    (base : Status)
    (occurrence : File × ℕ) : Status :=
  if entryCovers resolve entries finding occurrence then .suppressed
  else if commentCovers host resolve finding occurrence then .inlineSuppressed
  else base

theorem occurrenceStatus_eq
    {base status : Status}
    {occurrence : File × ℕ}
    (h : occurrenceStatus host resolve entries finding base occurrence = .ok status) :
    status = coveredStatus host resolve entries finding base occurrence := by
  rw [occurrenceStatus] at h
  rw [coveredStatus, entryCovers]
  split at h
  · next hentry =>
      cases h
      rw [if_pos hentry]
  · next hentry =>
      obtain ⟨found, hfound, hstatus⟩ := bind_eq_ok_iff.mp h
      cases hstatus
      rw [if_neg hentry, commentCovers, hfound]

/-- Which state an occurrence has, if the base is no suppression. -/
theorem coveredStatus_iff
    {base : Status}
    (hbase : ¬ base.IsSuppressed)
    (occurrence : File × ℕ) :
    (coveredStatus host resolve entries finding base occurrence = .suppressed ↔
        entryCovers resolve entries finding occurrence = true) ∧
      (coveredStatus host resolve entries finding base occurrence = .inlineSuppressed ↔
        entryCovers resolve entries finding occurrence = false ∧
          commentCovers host resolve finding occurrence = true) := by
  rw [Status.IsSuppressed, not_or] at hbase
  rw [coveredStatus]
  cases entryCovers resolve entries finding occurrence with
  | true => simp
  | false =>
      cases commentCovers host resolve finding occurrence with
      | true => simp
      | false => simp [hbase.1, hbase.2]

omit [LinearOrder File] in
/-- A finding is suppressed if all its rows are, or without rows if an entry matches. -/
theorem isSuppressed_findingStatus_iff
    {base : Status}
    (hbase : ¬ base.IsSuppressed)
    {entryMatches : Bool}
    {rows : List ((File × ℕ) × Status)} :
    (findingStatus base entryMatches rows).IsSuppressed ↔
      if rows = [] then entryMatches = true else ∀ row ∈ rows, row.2.IsSuppressed := by
  have hactive : (rows.any fun row => row.2 ≠ .suppressed ∧ row.2 ≠ .inlineSuppressed) = true ↔
      ¬ ∀ row ∈ rows, row.2.IsSuppressed := by
    simp only [List.any_eq_true, decide_eq_true_eq, Status.IsSuppressed, not_forall, not_or,
      exists_prop, ne_eq]
  rw [findingStatus]
  by_cases hnil : rows = []
  · rw [if_pos hnil, if_pos hnil]
    cases entryMatches with
    | true => simp [Status.IsSuppressed]
    | false => simp [hbase]
  · rw [if_neg hnil, if_neg hnil]
    split
    · next hany => exact iff_of_false hbase (hactive.mp hany)
    · next hnone =>
        rw [hactive, not_not] at hnone
        refine iff_of_true ?_ hnone
        split
        · exact Or.inr rfl
        · exact Or.inl rfl

omit [LinearOrder File] in
/-- A finding that is not suppressed keeps its state. -/
theorem findingStatus_of_not_isSuppressed
    {base : Status}
    {entryMatches : Bool}
    {rows : List ((File × ℕ) × Status)}
    (h : ¬ (findingStatus base entryMatches rows).IsSuppressed) :
    findingStatus base entryMatches rows = base := by
  rw [findingStatus] at h ⊢
  split at h
  · split at h
    · exact absurd (Or.inl rfl) h
    · next hnil hentry => rw [if_pos hnil, if_neg hentry]
  · split at h
    · next hnil hany => rw [if_neg hnil, if_pos hany]
    · split at h
      · exact absurd (Or.inr rfl) h
      · exact absurd (Or.inl rfl) h

omit [LinearOrder File] in
/-- The state against the baseline is not a suppression. -/
theorem not_isSuppressed_baseStatus
    (baseline : Option (List Fingerprint))
    (finding : Finding File Fingerprint) :
    ¬ (baseStatus baseline finding).IsSuppressed := by
  cases baseline with
  | none =>
      simp only [baseStatus]
      split <;> simp [Status.IsSuppressed]
  | some fingerprints =>
      simp only [baseStatus]
      split
      · simp [Status.IsSuppressed]
      · split <;> simp [Status.IsSuppressed]

/-- What is said of a finding with matches. -/
structure SuppressionOf
    (host : Host File)
    (resolve : File → File)
    (options : BaselineOptions File Fingerprint)
    (finding : Finding File Fingerprint)
    (r : ReportedFinding File Fingerprint) : Prop where
  same : r.finding = finding
  covered : r.status.IsSuppressed ↔
    FindingCovered host resolve (options.suppressions.getD []) finding
  active : ¬ r.status.IsSuppressed →
    r.status = baseStatus (options.baseline.map loadRulesetBaseline) finding
  byEntries : r.suppressedOccurrences =
    finding.rawOccurrences.countP
        (entryCovers resolve (options.suppressions.getD []) finding) +
      if finding.rawOccurrences = [] ∧ r.status.IsSuppressed then 1 else 0
  byComments : r.inlineSuppressedOccurrences =
    finding.rawOccurrences.countP fun occurrence =>
      !entryCovers resolve (options.suppressions.getD []) finding occurrence &&
        commentCovers host resolve finding occurrence

/-- What a report says about a finding with matches. -/
theorem suppressionOf_reportFinding
    {r : ReportedFinding File Fingerprint}
    (h : reportFinding host resolve options finding = .ok r)
    (hpos : finding.matchCount ≠ 0) :
    SuppressionOf host resolve options finding r := by
  have hbase := not_isSuppressed_baseStatus (options.baseline.map loadRulesetBaseline) finding
  rw [reportFinding] at h
  dsimp only at h
  rw [if_neg hpos] at h
  obtain ⟨states, hstates, hr⟩ := bind_eq_ok_iff.mp h
  cases hr
  have hrows : states = finding.rawOccurrences.map fun occurrence => (occurrence,
      coveredStatus host resolve (options.suppressions.getD []) finding
        (baseStatus (options.baseline.map loadRulesetBaseline) finding) occurrence) := by
    refine eq_map_of_mapM hstates fun occurrence _ row _ hrow => ?_
    obtain ⟨status, hstatus, rfl⟩ := map_eq_ok_iff.mp hrow
    rw [occurrenceStatus_eq hstatus]
  have hnil : states = [] ↔ finding.rawOccurrences = [] := by
    rw [hrows, List.map_eq_nil_iff]
  have hstate := fun occurrence => @coveredStatus_iff _ _ _ _ host resolve
    (options.suppressions.getD []) finding _ hbase occurrence
  have hcovered : (findingStatus (baseStatus (options.baseline.map loadRulesetBaseline) finding)
      (finding.rawOccurrences = [] && (options.suppressions.getD []).any
        (suppressionEntryMatches resolve finding.fingerprint finding.ruleId none))
      states).IsSuppressed ↔
        FindingCovered host resolve (options.suppressions.getD []) finding := by
    rw [isSuppressed_findingStatus_iff hbase, FindingCovered]
    simp only [hnil]
    by_cases hnone : finding.rawOccurrences = []
    · rw [if_pos hnone, if_pos hnone, ← @any_matches_none_iff _ _ _ _ resolve]
      simp [hnone]
    · rw [if_neg hnone, if_neg hnone, hrows, List.forall_mem_map]
      refine forall₂_congr fun occurrence _ => ?_
      rw [Status.IsSuppressed, (hstate occurrence).1, (hstate occurrence).2]
      cases entryCovers resolve (options.suppressions.getD []) finding occurrence with
      | true => simp
      | false => simp
  have hsuppressed : (states.countP fun row => row.2 = .suppressed) =
      finding.rawOccurrences.countP
        (entryCovers resolve (options.suppressions.getD []) finding) := by
    rw [hrows, List.countP_map]
    refine List.countP_congr fun occurrence _ => ?_
    rw [Function.comp_apply, decide_eq_true_eq]
    exact (hstate occurrence).1
  have hinlined : (states.countP fun row => row.2 = .inlineSuppressed) =
      finding.rawOccurrences.countP fun occurrence =>
        !entryCovers resolve (options.suppressions.getD []) finding occurrence &&
          commentCovers host resolve finding occurrence := by
    rw [hrows, List.countP_map]
    refine List.countP_congr fun occurrence _ => ?_
    rw [Function.comp_apply, decide_eq_true_eq, Bool.and_eq_true, Bool.not_eq_true']
    exact (hstate occurrence).2
  refine ⟨rfl, hcovered, findingStatus_of_not_isSuppressed, ?_, hinlined⟩
  refine congrArg₂ _ hsuppressed (if_congr ?_ rfl rfl)
  rw [hcovered, FindingCovered, Bool.and_eq_true, decide_eq_true_eq, any_matches_none_iff]
  refine and_congr_right fun hnone => ?_
  rw [if_pos hnone]

/-- The active occurrences of a finding are those that nothing covers. -/
def activeOccurrences
    (host : Host File)
    (resolve : File → File)
    (options : BaselineOptions File Fingerprint)
    (finding : Finding File Fingerprint) : ℕ :=
  finding.rawOccurrences.countP fun occurrence =>
    !entryCovers resolve (options.suppressions.getD []) finding occurrence &&
      !commentCovers host resolve finding occurrence

/-- The counters add up to the occurrences, and one more for a suppressed finding without any. -/
theorem SuppressionOf.counts
    {r : ReportedFinding File Fingerprint}
    (h : SuppressionOf host resolve options finding r) :
    r.suppressedOccurrences + r.inlineSuppressedOccurrences +
        activeOccurrences host resolve options finding =
      finding.rawOccurrences.length +
        if finding.rawOccurrences = [] ∧ r.status.IsSuppressed then 1 else 0 := by
  have hcount : ∀ occurrences : List (File × ℕ),
      occurrences.countP (entryCovers resolve (options.suppressions.getD []) finding) +
          (occurrences.countP fun occurrence =>
            !entryCovers resolve (options.suppressions.getD []) finding occurrence &&
              commentCovers host resolve finding occurrence) +
          (occurrences.countP fun occurrence =>
            !entryCovers resolve (options.suppressions.getD []) finding occurrence &&
              !commentCovers host resolve finding occurrence) = occurrences.length := by
    intro occurrences
    induction occurrences with
    | nil => rfl
    | cons occurrence occurrences ih =>
        rw [List.countP_cons, List.countP_cons, List.countP_cons, List.length_cons, ← ih]
        cases entryCovers resolve (options.suppressions.getD []) finding occurrence <;>
          cases commentCovers host resolve finding occurrence <;>
          simp <;> omega
  have hall := hcount finding.rawOccurrences
  rw [h.byEntries, h.byComments, activeOccurrences]
  omega

/-- More entries, and comments that cover no less. -/
structure CoversMore
    (host host' : Host File)
    (resolve : File → File)
    (options options' : BaselineOptions File Fingerprint)
    (finding : Finding File Fingerprint) : Prop where
  entries : options.suppressions.getD [] ⊆ options'.suppressions.getD []
  comments : ∀ occurrence ∈ finding.rawOccurrences,
    commentCovers host resolve finding occurrence = true →
      commentCovers host' resolve finding occurrence = true

theorem FindingCovered.mono
    (hmore : CoversMore host host' resolve options options' finding)
    (h : FindingCovered host resolve (options.suppressions.getD []) finding) :
    FindingCovered host' resolve (options'.suppressions.getD []) finding := by
  rw [FindingCovered] at h ⊢
  split at h
  · next hnone =>
      obtain ⟨entry, hentry, hwide⟩ := h
      rw [if_pos hnone]
      exact ⟨entry, hmore.entries hentry, hwide⟩
  · next hsome =>
      rw [if_neg hsome]
      intro occurrence hoccurrence
      rcases h occurrence hoccurrence with hcovers | hcomment
      · obtain ⟨entry, hentry, hmatches⟩ := List.any_eq_true.mp hcovers
        exact Or.inl (List.any_eq_true.mpr ⟨entry, hmore.entries hentry, hmatches⟩)
      · exact Or.inr (hmore.comments occurrence hoccurrence hcomment)

end Covered

/-! ## Comments that are added -/

/-- No line loses a name for which its comment asks: a comment is added to a line without one, or a
name to a comment. -/
def KeepsComments (host host' : Host File) : Prop :=
  ∀ file bytes lines, host.readBytes file = some bytes → strictLines file bytes = .ok lines →
    ∃ bytes' lines', host'.readBytes file = some bytes' ∧ strictLines file bytes' = .ok lines' ∧
      List.Forall₂ (fun line line' => ∀ language,
        inlineSuppressionTargets line language ⊆ inlineSuppressionTargets line' language)
          lines lines'

theorem KeepsComments.commentCovers
    {host host' : Host File}
    (h : KeepsComments host host')
    {resolve : File → File}
    {finding : Finding File Fingerprint}
    {occurrence : File × ℕ}
    (hcovers : Scan.commentCovers host resolve finding occurrence = true) :
    Scan.commentCovers host' resolve finding occurrence = true := by
  rw [Scan.commentCovers, occurrenceHasInlineSuppression] at hcovers ⊢
  cases hread : host.readBytes (resolve occurrence.1) with
  | none =>
      rw [hread] at hcovers
      cases hcovers
  | some bytes =>
      rw [hread] at hcovers
      dsimp only at hcovers
      cases hlines : strictLines (resolve occurrence.1) bytes with
      | error e =>
          rw [hlines] at hcovers
          cases hcovers
      | ok lines =>
          obtain ⟨bytes', lines', hread', hlines', hkeeps⟩ := h _ _ _ hread hlines
          rw [hlines] at hcovers
          rw [hread']
          dsimp only
          rw [hlines']
          simp only [Except.map, List.any_eq_true] at hcovers ⊢
          obtain ⟨line, hline, target, htarget, hnamed⟩ := hcovers
          rw [candidateLines, List.mem_filterMap] at hline
          obtain ⟨k, hk, hat⟩ := hline
          split at hat
          · next hpos =>
              -- the same line of the other source
              obtain ⟨hlt, rfl⟩ := List.getElem?_eq_some_iff.mp hat
              have hlt' : k - 1 < lines'.length := hkeeps.length_eq ▸ hlt
              have hsub := hkeeps.get hlt hlt' finding.language
              refine ⟨lines'[k - 1], ?_, target, hsub htarget, hnamed⟩
              rw [candidateLines, List.mem_filterMap]
              exact ⟨k, hk, by rw [if_pos hpos, List.getElem?_eq_getElem hlt']⟩
          · cases hat

/-! ## Scanning again -/

/-- The occurrences of a finding of a scan are distinct. -/
theorem nodup_rawOccurrences
    [LinearOrder File]
    {fingerprintOf : Text → Text → List File → Fingerprint}
    {host : Host File}
    {rules : List Rule}
    {payload : Payload File Fingerprint}
    (h : scanPayload fingerprintOf host rules = .ok payload)
    {finding : Finding File Fingerprint}
    (hfinding : finding ∈ payload.findings) :
    finding.rawOccurrences.Nodup := by
  obtain ⟨gathered, -, rfl⟩ := map_eq_ok_iff.mp h
  obtain ⟨entry, -, rfl⟩ := List.mem_map.mp hfinding
  exact (Finset.sort_nodup _ _).map ofLex.injective

/-- Entries for all fingerprints suppress every finding with a match, and no source is looked at. -/
theorem reportFinding_of_wide_entries
    [LinearOrder File] [LinearOrder Fingerprint]
    {host : Host File}
    {resolve : File → File}
    {options : BaselineOptions File Fingerprint}
    {finding : Finding File Fingerprint}
    (hentry : finding.matchCount ≠ 0 →
      ⟨finding.fingerprint, none, none, none⟩ ∈ options.suppressions.getD []) :
    ∃ r, reportFinding host resolve options finding = .ok r ∧ r.status ≠ .new ∧
      r.status ≠ .existing := by
  by_cases hzero : finding.matchCount = 0
  · refine ⟨_, by rw [reportFinding]; exact if_pos hzero, ?_⟩
    cases options.baseline <;> simp [baseStatus, hzero]
  · have hmatches : ∀ occurrence : Option (File × ℕ), (options.suppressions.getD []).any
        (suppressionEntryMatches resolve finding.fingerprint finding.ruleId occurrence) = true := by
      intro occurrence
      refine List.any_eq_true.mpr ⟨_, hentry hzero, ?_⟩
      simp [suppressionEntryMatches]
    obtain ⟨r, hr⟩ := exists_reportFinding_iff.mpr fun occurrence bytes hlook => by
      obtain ⟨-, -, hunmatched, -⟩ := hlook
      rw [hmatches] at hunmatched
      cases hunmatched
    have hof := suppressionOf_reportFinding hr hzero
    have hsuppressed : r.status.IsSuppressed := by
      rw [hof.covered, FindingCovered]
      split
      · exact any_matches_none_iff.mp (hmatches none)
      · exact fun occurrence _ => Or.inl (hmatches (some occurrence))
    refine ⟨r, hr, ?_⟩
    rcases hsuppressed with hstatus | hstatus
    · simp [hstatus]
    · simp [hstatus]

/-- A finding is suppressed exactly if all that it has is covered.  The counters and the active
occurrences are all occurrences, and one more for a suppressed finding without any.  More entries
and comments keep what is suppressed, and the entries that a scan writes suppress all that the same
scan finds again. -/
theorem suppression_exact_and_monotone
    (isoformat : CodePoints → Bool)
    (host : Host CodePoints)
    (resolve : CodePoints → CodePoints)
    (options : BaselineOptions CodePoints CodePoints)
    {payload : Payload CodePoints CodePoints}
    {report : ScanReport CodePoints CodePoints}
    (hreport : applyRulesetBaseline host resolve options payload = .ok report) :
    List.Forall₂ (fun finding r => finding.matchCount ≠ 0 →
        (r.status.IsSuppressed ↔
          FindingCovered host resolve (options.suppressions.getD []) finding) ∧
        (¬ r.status.IsSuppressed →
          r.status = baseStatus (options.baseline.map loadRulesetBaseline) finding) ∧
        r.suppressedOccurrences + r.inlineSuppressedOccurrences +
            activeOccurrences host resolve options finding =
          finding.rawOccurrences.length +
            if finding.rawOccurrences = [] ∧ r.status.IsSuppressed then 1 else 0)
      payload.findings report.findings ∧
    (∀ summary, report.suppressions = some summary →
      summary.suppressedOccurrences =
          (report.findings.map ReportedFinding.suppressedOccurrences).sum ∧
        summary.inlineSuppressedOccurrences =
          (report.findings.map ReportedFinding.inlineSuppressedOccurrences).sum) ∧
    (∀ host' options' report', KeepsComments host host' →
      options.suppressions.getD [] ⊆ options'.suppressions.getD [] →
      applyRulesetBaseline host' resolve options' payload = .ok report' →
      List.Forall₂ (fun r r' => r.finding.matchCount ≠ 0 → r.status.IsSuppressed →
        r'.status.IsSuppressed) report.findings report'.findings) ∧
    ∀ (digest : Text → Text → List CodePoints → Bytes) stamp version ruleset language justification
        file rules first fingerprints,
      (∀ id language files, digest id language files ≠ []) →
      (∀ f, isoformat (withOffset (stamp f)) = true ∧ stripCodes (stamp f) ≠ []) →
      runAstScanPayload (fun id language files => hexText (digest id language files)) host resolve
        options rules = .ok first →
      first.suppressionsWritten = some fingerprints →
      writeRulesetSuppressions version ruleset language justification stamp fingerprints =
        .ok file →
      (∀ finding ∈ first.payload.findings, finding.rawOccurrences.Nodup) ∧
      ∃ entries, loadRulesetSuppressions isoformat file = .ok (entries, []) ∧
        ∀ options', options'.suppressions = some (entries.filterMap LoadedEntry.compared) →
          ∃ again, runAstScanPayload (fun id language files => hexText (digest id language files))
              host resolve options' rules = .ok again ∧
            ∀ r ∈ again.findings, r.status ≠ .new ∧ r.status ≠ .existing := by
  have hfindings := mapM_eq_ok_iff.mp (reportOf_of_apply hreport).findings
  refine ⟨?_, ?_, ?_, ?_⟩
  · refine hfindings.imp fun finding r hr hpos => ?_
    have hof := suppressionOf_reportFinding hr hpos
    exact ⟨hof.covered, hof.active, hof.counts⟩
  · intro summary hsummary
    obtain ⟨reported, hreported, hmade⟩ := bind_eq_ok_iff.mp hreport
    cases hmade
    dsimp only at hsummary ⊢
    split at hsummary
    · cases hsummary
      exact ⟨rfl, rfl⟩
    · cases hsummary
  · intro host' options' report' hcomments hentries hreport'
    have hfindings' := mapM_eq_ok_iff.mp (reportOf_of_apply hreport').findings
    rw [List.forall₂_iff_get] at hfindings hfindings' ⊢
    refine ⟨hfindings.1.symm.trans hfindings'.1, fun i hi hi' hpos hsuppressed => ?_⟩
    have hr := hfindings.2 i (hfindings.1 ▸ hi) hi
    have hr' := hfindings'.2 i (hfindings.1 ▸ hi) hi'
    have hsame := (status_reportFinding hr).1
    rw [hsame] at hpos
    refine (suppressionOf_reportFinding hr' hpos).covered.mpr ?_
    refine FindingCovered.mono ⟨hentries, fun occurrence _ => hcomments.commentCovers⟩ ?_
    exact (suppressionOf_reportFinding hr hpos).covered.mp hsuppressed
  · intro digest stamp version ruleset language justification file rules first fingerprints
      hdigest hstamp hfirst hwritten hwrite
    obtain ⟨payload₁, hpayload, happly⟩ := bind_eq_ok_iff.mp hfirst
    have hof := reportOf_of_apply happly
    have hprinted : fingerprints = matchedFingerprints payload₁.findings := by
      obtain ⟨reported, -, hmade⟩ := bind_eq_ok_iff.mp happly
      cases hmade
      dsimp only at hwritten
      split at hwritten
      · exact (Option.some.inj hwritten).symm
      · cases hwritten
    subst hprinted
    refine ⟨?_, ?_⟩
    · rw [hof.samePayload]
      exact fun finding hfinding => nodup_rawOccurrences hpayload hfinding
    obtain ⟨entries, hload, hcompared⟩ := loadRulesetSuppressions_write hwrite hstamp fun f hf => by
      obtain ⟨finding, hfinding, -, rfl⟩ := mem_matchedFingerprints.mp hf
      rw [fingerprint_of_mem_scanPayload hpayload hfinding]
      refine ⟨?_, stripCodes_hexText _⟩
      rw [hexText, ne_eq, List.flatMap_eq_nil_iff]
      intro hnone
      obtain ⟨b, hb⟩ := List.exists_mem_of_ne_nil _
        (hdigest finding.ruleId finding.language finding.files)
      exact List.cons_ne_nil _ _ (hnone b hb)
    refine ⟨entries, hload, fun options' hoptions => ?_⟩
    have hwide : ∀ finding ∈ payload₁.findings, ∃ r,
        reportFinding host resolve options' finding = .ok r ∧ r.status ≠ .new ∧
          r.status ≠ .existing := by
      intro finding hfinding
      refine reportFinding_of_wide_entries fun hpos => ?_
      rw [hoptions, Option.getD_some, hcompared]
      exact List.mem_map_of_mem (mem_matchedFingerprints.mpr ⟨finding, hfinding, hpos, rfl⟩)
    obtain ⟨reported, hreported⟩ := exists_mapM fun finding hfinding =>
      (hwide finding hfinding).imp fun r hr => hr.1
    refine ⟨_, bind_eq_ok_iff.mpr ⟨payload₁, hpayload, bind_eq_ok_iff.mpr
      ⟨reported, hreported, rfl⟩⟩, fun r hr => ?_⟩
    obtain ⟨finding, hfinding, hmade⟩ := exists_mem_of_mapM hreported hr
    obtain ⟨r', hr', hstatus⟩ := hwide finding hfinding
    obtain rfl := Except.ok.inj (hmade.symm.trans hr')
    exact hstatus

/-! ## What is counted, and what is lost -/

/-- A scan that finds nothing by itself, of sources with these bytes. -/
def sourceHost (bytes : Bytes) : Host CodePoints where
  candidateFiles := []
  scanHasDiscoveryFilter := false
  projectScanFastPath := false
  selectBackend := fun _ => .ok .astBackend
  runProject := .error .backend
  runMany := fun _ _ => .error .backend
  searchFile := fun _ _ _ => .error .backend
  readBytes := fun _ => some bytes
  regexRuleTargetsFile := fun _ _ => true
  compile := fun _ => .error .invalidPattern

/-- One finding with a match and these occurrences. -/
def oneFinding (occurrences : List (CodePoints × ℕ)) : Payload CodePoints CodePoints where
  ruleCount := 1
  matchedRules := 1
  totalMatches := 1
  findings := [{
    ruleId := ['a']
    language := "python".toList
    severity := []
    message := []
    fingerprint := codePoints "f"
    matchCount := 1
    files := []
    evidence := []
    rawOccurrences := occurrences }]
  unreadablePaths := none

/-- Options with these entries. -/
def entryOptions (entries : List (SuppressionEntry CodePoints CodePoints)) :
    BaselineOptions CodePoints CodePoints where
  baseline := none
  writeBaseline := false
  suppressions := some entries
  writeSuppressions := false

/-- The finding at `p:1` has an entry. -/
theorem suppression_exact_and_monotone_entry :
    ∃ report, applyRulesetBaseline (sourceHost []) id
        (entryOptions [⟨codePoints "f", none, some (codePoints "p"), some 1⟩])
        (oneFinding [(codePoints "p", 1)]) = .ok report ∧
      ∀ summary, report.suppressions = some summary → summary.suppressedOccurrences =
        (report.findings.map ReportedFinding.suppressedOccurrences).sum := by
  obtain ⟨report, hreport⟩ : ∃ report, applyRulesetBaseline (sourceHost []) id
      (entryOptions [⟨codePoints "f", none, some (codePoints "p"), some 1⟩])
      (oneFinding [(codePoints "p", 1)]) = .ok report := ⟨_, rfl⟩
  refine ⟨report, hreport, fun summary hsummary => ?_⟩
  exact ((suppression_exact_and_monotone (fun _ => true) _ _ _ hreport).2.1 summary hsummary).1

/-- What a report says of each finding, if there is one. -/
def reportedStatuses (report : Except (ScanError CodePoints) (ScanReport CodePoints CodePoints)) :
    Option (List (Status × ℕ)) :=
  report.toOption.map fun report =>
    report.findings.map fun r => (r.status, r.suppressedOccurrences)

/-- A finding without occurrences is counted as one when an entry suppresses it.  A second comment
in front of the first takes its effect away. -/
theorem suppressed_without_occurrences :
    reportedStatuses (applyRulesetBaseline (sourceHost []) id
        (entryOptions [⟨codePoints "f", none, none, none⟩]) (oneFinding [])) =
      some [(.suppressed, 1)] ∧
    reportedStatuses (applyRulesetBaseline (sourceHost (asciiBytes "#tg-ignore:a")) id
        (entryOptions []) (oneFinding [(codePoints "p", 1)])) = some [(.inlineSuppressed, 0)] ∧
    reportedStatuses (applyRulesetBaseline (sourceHost (asciiBytes "#tg-ignore:b#tg-ignore:a")) id
        (entryOptions []) (oneFinding [(codePoints "p", 1)])) = some [(.new, 0)] := by
  refine ⟨?_, ?_, ?_⟩
  · decide
  · decide
  · decide

end Scan
end TensorGrep
