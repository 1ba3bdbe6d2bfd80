import TensorGrep.Kernel.Stretches
import TensorGrep.Scan.Baseline

/-!
# Looking for suppressions in the source

A scan reads a file leniently to find matches, and strictly to look for comments next
to them.  So a byte that is not UTF-8 ends the scan without a payload as soon as a
comment is looked for in its file.  The comment is looked for in the lines of
`str.splitlines`, while the matches of the backends are numbered by line feeds: for
them the lookup is off if a line boundary of another kind stands in front.  The scan
survives, and looks at the right lines, if and only if neither happens
(`scan_survives_iff`).
-/

namespace TensorGrep
namespace Scan

open Kernel AstRules

variable {File Fingerprint : Type}

/-! ## Numberings -/

/-- The lines that a rule numbers: those of `str.splitlines` for the regex engine, those that end
at line feeds for the backends. -/
def numberedPieces
    (rule : Rule)
    (t : Text) : List Text :=
  if rule.engine = some "regex".toList then splitlines t else linesOf '\n' t

/-- The line at a place of a text. -/
def textAt
    (t : Text)
    (place : ℕ × ℕ) : Text :=
  lineBody ((t.drop place.1).take place.2)

/-- A comment is looked for in the own line of an occurrence and in the line before: the lines are
those at certain places of the text, and these are the places of the rule's own numbering. -/
def LooksAtOwnLines
    (rule : Rule)
    (bytes : Bytes)
    (lines : List Text)
    (line : ℕ) : Prop :=
  ∃ t places, fromUtf8 bytes = some t ∧ candidateLines lines line = places.map (textAt t) ∧
    places = stretchesAt (splitlines t) line ∧
    places = stretchesAt (numberedPieces rule (decodeReplace bytes)) line

/-- The lines in which a comment is looked for stand where `str.splitlines` cuts. -/
theorem candidateLines_splitlines
    (t : Text)
    (line : ℕ) :
    candidateLines ((splitlines (universalNewlines t)).map lineBody) line =
      (stretchesAt (splitlines t) line).map (textAt t) := by
  rw [map_lineBody_splitlines_universalNewlines, candidateLines, stretchesAt, List.map_filterMap]
  refine List.filterMap_congr fun k _ => ?_
  rw [stretch]
  split
  · rw [List.getElem?_map]
    cases hpiece : (splitlines t)[k - 1]? with
    | none => rfl
    | some piece =>
        have hat := take_drop_stretch hpiece
        rw [flatten_splitlines] at hat
        simp only [Option.map_some, textAt, hat]
  · rfl

/-- No line up to this one has a line boundary in front of its end. -/
def PlainUpTo
    (t : Text)
    (line : ℕ) : Prop :=
  ∀ piece ∈ (linesOf '\n' t).take line, ∀ c ∈ lineBody piece, c ∉ lineBoundaries

/-- The lines of `str.splitlines` and those that end at line feeds stand at the same places up to a
line if and only if none of the latter has another boundary in it. -/
theorem stretchesAt_splitlines_iff
    {t : Text}
    {line : ℕ}
    (hline : 1 ≤ line)
    (hcount : line ≤ t.count '\n' + 1) :
    stretchesAt (splitlines t) line = stretchesAt (linesOf '\n' t) line ↔ PlainUpTo t line := by
  have hlength : line ≤ (linesOf '\n' t).length + 1 := by
    obtain ⟨hend, hopen⟩ := @length_linesOf _ _ '\n' t
    by_cases h : AtLineEnd '\n' t
    · rw [hend h]
      exact hcount
    · rw [hopen h]
      omega
  rw [splitlines_eq_flatMap, stretchesAt_flatMap_iff flatten_splitlines
    (fun _ _ => ne_nil_of_mem_splitlines) (fun _ => ne_nil_of_mem_linesOf) hline hlength]
  exact forall₂_congr fun piece hpiece =>
    splitlines_eq_singleton_iff (ne_nil_of_mem_linesOf (List.mem_of_mem_take hpiece))

/-- A comment is looked for in the right lines for a rule of the regex engine always, and for
another one if there are only line feeds in front. -/
theorem looksAtOwnLines_iff
    {rule : Rule}
    {file : File}
    {bytes : Bytes}
    {t : Text}
    {lines : List Text}
    {line : ℕ}
    (ht : fromUtf8 bytes = some t)
    (hlines : strictLines file bytes = .ok lines)
    (hline : rule.engine ≠ some "regex".toList → 1 ≤ line ∧ line ≤ t.count '\n' + 1) :
    LooksAtOwnLines rule bytes lines line ↔
      (rule.engine ≠ some "regex".toList → PlainUpTo t line) := by
  have hcandidates : candidateLines lines line =
      (stretchesAt (splitlines t) line).map (textAt t) := by
    rw [strictLines, ht] at hlines
    cases hlines
    exact candidateLines_splitlines t line
  have hown : LooksAtOwnLines rule bytes lines line ↔
      stretchesAt (splitlines t) line = stretchesAt (numberedPieces rule t) line := by
    rw [LooksAtOwnLines, decodeReplace_of_fromUtf8 ht]
    constructor
    · rintro ⟨t', places, ht', -, rfl, hplaces⟩
      rw [ht] at ht'
      cases ht'
      exact hplaces
    · exact fun h => ⟨t, _, ht, hcandidates, rfl, h⟩
  rw [hown, numberedPieces]
  by_cases hregex : rule.engine = some "regex".toList
  · rw [if_pos hregex]
    exact iff_of_true rfl fun h => absurd hregex h
  · obtain ⟨hone, hcount⟩ := hline hregex
    rw [if_neg hregex, stretchesAt_splitlines_iff hone hcount]
    exact ⟨fun h _ => h, fun h => h hregex⟩

/-! ## Scans that survive -/

section Survival

variable [LinearOrder File] [LinearOrder Fingerprint]

/-- A scan has a report and looks for comments in the right lines if and only if every file in
which it looks is UTF-8 and, for occurrences of the backends, has no other line boundary than line
feeds up to the line. -/
theorem scan_survives_iff
    (fingerprintOf : Text → Text → List File → Fingerprint)
    (host : Host File)
    (resolve : File → File)
    (options : BaselineOptions File Fingerprint)
    (rules : List Rule)
    (gathered : List (Rule × Gathered File))
    (hgather : gather host rules = .ok gathered)
    (hlines : ∀ entry ∈ gathered, entry.1.engine ≠ some "regex".toList → ∀ occurrence bytes t,
      LooksAtSource host resolve options (findingOf fingerprintOf entry) occurrence bytes →
        fromUtf8 bytes = some t → 1 ≤ occurrence.2 ∧ occurrence.2 ≤ t.count '\n' + 1) :
    ((∃ report, runAstScanPayload fingerprintOf host resolve options rules = .ok report) ∧
        ∀ entry ∈ gathered, ∀ occurrence bytes lines,
          LooksAtSource host resolve options (findingOf fingerprintOf entry) occurrence bytes →
            strictLines (resolve occurrence.1) bytes = .ok lines →
              LooksAtOwnLines entry.1 bytes lines occurrence.2) ↔
      ∀ entry ∈ gathered, ∀ occurrence bytes,
        LooksAtSource host resolve options (findingOf fingerprintOf entry) occurrence bytes →
          ∃ t, fromUtf8 bytes = some t ∧
            (entry.1.engine ≠ some "regex".toList → PlainUpTo t occurrence.2) := by
  have hpayload : scanPayload fingerprintOf host rules = .ok (payloadOf fingerprintOf gathered) := by
    rw [scanPayload, hgather]
    rfl
  have hreport : (∃ report, runAstScanPayload fingerprintOf host resolve options rules =
      .ok report) ↔ ∀ entry ∈ gathered, ∀ occurrence bytes,
        LooksAtSource host resolve options (findingOf fingerprintOf entry) occurrence bytes →
          (fromUtf8 bytes).isSome = true := by
    rw [runAstScanPayload, hpayload]
    change (∃ report, applyRulesetBaseline host resolve options
      (payloadOf fingerprintOf gathered) = .ok report) ↔ _
    rw [exists_applyRulesetBaseline_iff]
    exact List.forall_mem_map
  rw [hreport]
  constructor
  · rintro ⟨hutf8, hown⟩ entry hentry occurrence bytes hlook
    obtain ⟨t, ht⟩ := Option.isSome_iff_exists.mp (hutf8 entry hentry occurrence bytes hlook)
    obtain ⟨lines, hstrict⟩ := (exists_strictLines_iff (resolve occurrence.1)).mpr
      (hutf8 entry hentry occurrence bytes hlook)
    refine ⟨t, ht, (looksAtOwnLines_iff ht hstrict fun hregex => ?_).mp
      (hown entry hentry occurrence bytes lines hlook hstrict)⟩
    exact hlines entry hentry hregex occurrence bytes t hlook ht
  · intro h
    refine ⟨fun entry hentry occurrence bytes hlook => ?_, ?_⟩
    · obtain ⟨t, ht, -⟩ := h entry hentry occurrence bytes hlook
      rw [ht, Option.isSome_some]
    · intro entry hentry occurrence bytes lines hlook hstrict
      obtain ⟨t, ht, hplain⟩ := h entry hentry occurrence bytes hlook
      refine (looksAtOwnLines_iff ht hstrict fun hregex => ?_).mpr hplain
      exact hlines entry hentry hregex occurrence bytes t hlook ht

end Survival

/-! ## A file with a stray byte -/

/-- A rule of the regex engine for the letter `a`. -/
def letterRule : Rule where
  id := ['r']
  pattern := ['a']
  patterns := []
  severity := []
  message := []
  language := "python".toList
  engine := some "regex".toList

/-- A scan of one file with these bytes. -/
def fileHost (bytes : Bytes) : Host ℕ where
  candidateFiles := [0]
  scanHasDiscoveryFilter := false
  projectScanFastPath := false
  selectBackend := fun _ => .error .backend
  runProject := .error .backend
  runMany := fun _ _ => .error .backend
  searchFile := fun _ _ _ => .error .backend
  readBytes := fun _ => some bytes
  regexRuleTargetsFile := fun _ _ => true
  compile := fun pattern => .ok fun line => line.countP fun c => pattern = [c]

/-- Nothing is compared and nothing is suppressed. -/
def plainOptions : BaselineOptions ℕ ℕ where
  baseline := none
  writeBaseline := false
  suppressions := none
  writeSuppressions := false

/-- What the rule gathers there. -/
def letterEntry (bytes : Bytes) : Rule × Gathered ℕ :=
  (letterRule, .regex (fun line => line.countP fun c => ['a'] = [c])
    [(0, some (lenientLines bytes))])

theorem gather_fileHost (bytes : Bytes) :
    gather (fileHost bytes) [letterRule] = .ok [letterEntry bytes] := by
  rfl

/-- The letter on a line of its own. -/
theorem scan_survives_iff_letter :
    ∃ report, runAstScanPayload (fun _ _ _ => 0) (fileHost [97]) id plainOptions [letterRule] =
      .ok report := by
  refine ((scan_survives_iff (fun _ _ _ => 0) (fileHost [97]) id plainOptions [letterRule] _
    (gather_fileHost [97]) ?_).mpr ?_).1
  · intro entry hentry hengine
    rw [List.mem_singleton.mp hentry] at hengine
    exact absurd rfl hengine
  · rintro entry hentry occurrence bytes ⟨-, -, -, hread⟩
    cases hread
    refine ⟨['a'], by decide, fun hengine => ?_⟩
    rw [List.mem_singleton.mp hentry] at hengine
    exact absurd rfl hengine

/-- The letter and a byte that is not UTF-8: the rule has a match, and there is no report. -/
theorem stray_byte_ends_scan :
    gather (fileHost [97, 255]) [letterRule] = .ok [letterEntry [97, 255]] ∧
      (findingOf (fun _ _ _ => 0) (letterEntry [97, 255])).matchCount = 1 ∧
      ¬ ∃ report, runAstScanPayload (fun _ _ _ => 0) (fileHost [97, 255]) id plainOptions
        [letterRule] = .ok report := by
  have hlines : lenientLines [97, 255] = [['a', '\ufffd']] := by
    have hlossy : toStringLossy [97, 255] = [97, 239, 191, 189] := by
      simp [toStringLossy, continuationRanges, matchedContinuation, replacementBytes]
    rw [lenientLines, decodeReplace, hlossy]
    decide
  have hfold : ((letterEntry [97, 255]).2.fold false).ruleMatches = 1 ∧
      ((letterEntry [97, 255]).2.fold false).occurrences = [(0, 1)] := by
    rw [letterEntry, hlines]
    decide
  have hmem : (0, 1) ∈ (findingOf (fun _ _ _ => 0) (letterEntry [97, 255])).rawOccurrences := by
    refine mem_rawOccurrences.mpr ?_
    change (0, 1) ∈ ((letterEntry [97, 255]).2.fold false).occurrences
    rw [hfold.2]
    exact List.mem_singleton_self _
  refine ⟨gather_fileHost _, hfold.1, ?_⟩
  rintro ⟨report, hreport⟩
  obtain ⟨payload, hpayload, happly⟩ := bind_eq_ok_iff.mp hreport
  rw [scanPayload, gather_fileHost] at hpayload
  cases hpayload
  have hpos : (findingOf (fun _ _ _ => 0) (letterEntry [97, 255])).matchCount ≠ 0 := by
    change ((letterEntry [97, 255]).2.fold false).ruleMatches ≠ 0
    rw [hfold.1]
    exact Nat.one_ne_zero
  have hutf8 := exists_applyRulesetBaseline_iff.mp ⟨report, happly⟩ _ (List.mem_singleton_self _)
    (0, 1) [97, 255] ⟨hmem, hpos, rfl, rfl⟩
  have hnone : fromUtf8 [97, 255] = none := by decide
  rw [hnone] at hutf8
  cases hutf8

end Scan
end TensorGrep
