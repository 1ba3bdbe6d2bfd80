import TensorGrep.CpuBackend.LineScan
import TensorGrep.CpuSearch.ContextLines

/-!
# Whole words and whole lines

A search for whole words or whole lines pastes conditions around the pattern and gives the new
pattern to the native engine.  Alternation binds weakest, so what is pasted belongs to the first
and to the last alternative, unless the pattern is put into a group first.

Whole lines are grouped, and distribute over alternation.  Whole words are not: a search for
the words of two patterns reports the lines of both if and only if no line is reportedLines for the
last alternative of the first pattern, or for the first one of the second, without the condition
that the other pattern takes away (`boundaryQueries_distribute_iff`).
-/

namespace TensorGrep
namespace CpuSearch

open Kernel
open Result
open NativeSearch
open CpuBackend

/-! ## The search -/

/-- The fields of `SearchConfig` that decide how words and lines are searched. -/
structure BoundaryConfig where
  ignoreCase : Bool
  smartCase : Bool
  fixedStrings : Bool
  invertMatch : Bool
  lineRegexp : Bool
  wordRegexp : Bool
  text : Bool
  binary : Bool
  context : ContextConfig

/-- `\b`. -/
def wordMark : Text :=
  "\\b".toList

/-- `_build_rust_query`. -/
def buildRustQuery
    (config : BoundaryConfig)
    (pattern : Text) : Text × Bool :=
  if config.fixedStrings then (pattern, true)
  else if config.lineRegexp then ("^(?:".toList ++ pattern ++ ")\\r?$".toList, false)
  else if config.wordRegexp then (wordMark ++ pattern ++ wordMark, false)
  else (pattern, false)

section Search

variable (R : ByteRegexes) (rejection : Text → String) (isLower : Text → Bool) (cores : ℕ)

/-- `_rust_match_set` -/
def rustMatchSet
    (file : String)
    (rustPattern : Text)
    (ignoreCase fixedStrings invertMatch : Bool)
    (contents : Bytes) : Except (String × String) (List (ℕ × Text)) :=
  match searchWithPaths R cores rustPattern file ignoreCase fixedStrings invertMatch contents with
  | none => .error ("RuntimeError", "Rust search failed: " ++ rejection rustPattern)
  | some found => .ok (found.map fun m => (m.line, (fromUtf8 m.text).getD []))

/-- `CPUBackend.search` for words, lines or context, where `contents` is what is in the file if
there is one. -/
def boundarySearch
    (config : BoundaryConfig)
    (file : String)
    (pattern : Text)
    (contents : Option Bytes) : Except SearchError SearchResult :=
  if config.context.maxCount = some 0 then .ok (resultOf [] "cpu_max_count_zero")
  else
    match contents with
    | none => .ok (resultOf [] "cpu_missing_file")
    | some contents =>
        if !(config.text || config.binary) && isBinaryFile contents then
          .ok (resultOf [] "cpu_binary_skipped")
        else
          let query := buildRustQuery config pattern
          searchWordLineContextViaRust config.context file contents
            (rustMatchSet R rejection cores file query.1
              (config.ignoreCase || (config.smartCase && isLower pattern)) query.2
              config.invertMatch contents)

end Search

/-- The matches that a search reports. -/
def reportedLines (result : Except SearchError SearchResult) : Set MatchLine :=
  {m | ∃ r, result = .ok r ∧ m ∈ r.found}

/-! ## Alternatives -/

/-- The text of alternatives. -/
def alternation (branches : List Text) : Text :=
  ['|'].intercalate branches

/-- An alternative with the conditions that are pasted to it. -/
structure MarkedBranch where
  start : Bool
  branch : Text
  finish : Bool

/-- The text of an alternative with its conditions. -/
def MarkedBranch.text (m : MarkedBranch) : Text :=
  (if m.start then wordMark else []) ++ m.branch ++ (if m.finish then wordMark else [])

/-- Standard precedence: the alternatives that the engine accepts, the positions of a line at which
a word begins or ends, and from where to where an alternative matches in a line.  A pattern matches
if one of its alternatives does, a word mark is a condition on the end that it is pasted to, and a
group is matched as the pattern in it. -/
structure StandardPrecedence (R : ByteRegexes) where
  IsBranch : Text → Prop
  wordBoundary : Bytes → ℕ → Prop
  spans : Bool → Text → Bytes → ℕ → ℕ → Prop
  words : ∀ (ignoreCase : Bool) (branches : List MarkedBranch), branches ≠ [] →
    (∀ m ∈ branches, IsBranch m.branch) →
    ∃ isMatch, R.build (alternation (branches.map MarkedBranch.text)) ignoreCase = some isMatch ∧
      ∀ line, isMatch line = true ↔ ∃ m ∈ branches, ∃ i j, spans ignoreCase m.branch line i j ∧
        (m.start = true → wordBoundary line i) ∧ (m.finish = true → wordBoundary line j)
  lines : ∀ (ignoreCase : Bool) (branches : List Text), branches ≠ [] →
    (∀ branch ∈ branches, IsBranch branch) →
    ∃ isMatch, R.build ("^(?:".toList ++ alternation branches ++ ")\\r?$".toList) ignoreCase =
        some isMatch ∧
      ∀ line, isMatch line = true ↔ ∃ branch ∈ branches, ∃ j, spans ignoreCase branch line 0 j ∧
        (line.drop j = [] ∨ line.drop j = [13])

/-- A valid pattern, by its alternatives. -/
structure ValidPattern
    {R : ByteRegexes}
    (S : StandardPrecedence R) where
  branches : List Text
  ne_nil : branches ≠ []
  valid : ∀ branch ∈ branches, S.IsBranch branch

namespace ValidPattern

variable {R : ByteRegexes} {S : StandardPrecedence R} (P Q : ValidPattern S)

/-- The text of a pattern. -/
def text : Text :=
  alternation P.branches

/-- The pattern `P|Q`. -/
def or : ValidPattern S where
  branches := P.branches ++ Q.branches
  ne_nil := fun h => P.ne_nil (List.append_eq_nil_iff.mp h).1
  valid := fun branch h => (List.mem_append.mp h).elim (P.valid branch) (Q.valid branch)

end ValidPattern

/-- Alternatives with conditions on the start of the first one and on the end of the last one. -/
def marked : Bool → Bool → List Text → List MarkedBranch
  | _, _, [] => []
  | start, finish, [branch] => [⟨start, branch, finish⟩]
  | start, finish, branch :: second :: rest =>
      ⟨start, branch, false⟩ :: marked false finish (second :: rest)

/-- An alternative matches in a line under its conditions. -/
def Matches
    {R : ByteRegexes}
    (S : StandardPrecedence R)
    (ignoreCase : Bool)
    (branches : List MarkedBranch)
    (line : Bytes) : Prop :=
  ∃ m ∈ branches, ∃ i j, S.spans ignoreCase m.branch line i j ∧
    (m.start = true → S.wordBoundary line i) ∧ (m.finish = true → S.wordBoundary line j)

section Marks

theorem alternation_cons
    (branch : Text)
    {rest : List Text}
    (h : rest ≠ []) :
    alternation (branch :: rest) = branch ++ '|' :: alternation rest := by
  rw [alternation, List.intercalate_cons_of_ne_nil h, List.append_assoc, List.singleton_append]
  rfl

theorem marked_ne_nil
    {branches : List Text}
    (h : branches ≠ [])
    (start finish : Bool) :
    marked start finish branches ≠ [] := by
  cases branches with
  | nil => exact absurd rfl h
  | cons branch rest =>
      cases rest with
      | nil => exact List.cons_ne_nil _ _
      | cons second rest => exact List.cons_ne_nil _ _

/-- The conditions stand in front of the alternatives and behind them. -/
theorem alternation_marked
    {branches : List Text}
    (h : branches ≠ [])
    (start finish : Bool) :
    alternation ((marked start finish branches).map MarkedBranch.text) =
      (if start then wordMark else []) ++ alternation branches ++
        (if finish then wordMark else []) := by
  induction branches generalizing start with
  | nil => exact absurd rfl h
  | cons branch rest ih =>
      cases rest with
      | nil =>
          rw [marked, List.map_singleton, alternation, alternation, List.intercalate_singleton,
            List.intercalate_singleton]
          rfl
      | cons second rest =>
          have hrest := ih (List.cons_ne_nil second rest) false
          rw [marked, List.map_cons, alternation_cons _ (by
            simpa using marked_ne_nil (List.cons_ne_nil second rest) false finish), hrest,
            alternation_cons branch (List.cons_ne_nil second rest), MarkedBranch.text]
          simp

/-- Of two patterns the first one keeps the condition in front, and the second one that behind. -/
theorem marked_append
    {branches branches' : List Text}
    (h : branches ≠ [])
    (h' : branches' ≠ [])
    (start finish : Bool) :
    marked start finish (branches ++ branches') =
      marked start false branches ++ marked false finish branches' := by
  induction branches generalizing start with
  | nil => exact absurd rfl h
  | cons branch rest ih =>
      cases rest with
      | nil =>
          obtain ⟨first, later, rfl⟩ := List.exists_cons_of_ne_nil h'
          rfl
      | cons second rest =>
          have hrest := ih (List.cons_ne_nil second rest) false
          rw [List.cons_append] at hrest
          rw [List.cons_append, List.cons_append, marked, hrest, marked, List.cons_append]

theorem branch_of_mem_marked
    {branches : List Text}
    {start finish : Bool}
    {m : MarkedBranch}
    (h : m ∈ marked start finish branches) :
    m.branch ∈ branches := by
  induction branches generalizing start with
  | nil => cases h
  | cons branch rest ih =>
      cases rest with
      | nil =>
          rw [marked, List.mem_singleton] at h
          rw [h]
          exact List.mem_cons_self
      | cons second rest =>
          rw [marked] at h
          rcases List.mem_cons.mp h with rfl | h
          · exact List.mem_cons_self
          · exact List.mem_cons_of_mem _ (ih h)

variable {R : ByteRegexes} {S : StandardPrecedence R} {ignoreCase : Bool} {line : Bytes}

theorem matches_append_iff
    {branches branches' : List MarkedBranch} :
    Matches S ignoreCase (branches ++ branches') line ↔
      Matches S ignoreCase branches line ∨ Matches S ignoreCase branches' line := by
  simp only [Matches, List.mem_append, or_and_right, exists_or]

theorem matches_cons_iff
    {m : MarkedBranch}
    {branches : List MarkedBranch} :
    Matches S ignoreCase (m :: branches) line ↔
      (∃ i j, S.spans ignoreCase m.branch line i j ∧
        (m.start = true → S.wordBoundary line i) ∧ (m.finish = true → S.wordBoundary line j)) ∨
      Matches S ignoreCase branches line := by
  simp only [Matches, List.mem_cons, or_and_right, exists_or, exists_eq_left]

/-- Conditions that are dropped only widen the matches. -/
theorem matches_of_conditions
    {branches : List Text}
    {start finish start' finish' : Bool}
    (hstart : start' = true → start = true)
    (hfinish : finish' = true → finish = true)
    (h : Matches S ignoreCase (marked start finish branches) line) :
    Matches S ignoreCase (marked start' finish' branches) line := by
  induction branches generalizing start start' with
  | nil => exact h
  | cons branch rest ih =>
      cases rest with
      | nil =>
          obtain ⟨m, hm, i, j, hspan, hi, hj⟩ := h
          rw [marked, List.mem_singleton] at hm
          subst hm
          exact ⟨_, List.mem_singleton_self _, i, j, hspan, fun h' => hi (hstart h'),
            fun h' => hj (hfinish h')⟩
      | cons second rest =>
          rw [marked, matches_cons_iff] at h ⊢
          refine h.imp ?_ (ih id)
          rintro ⟨i, j, hspan, hi, hj⟩
          exact ⟨i, j, hspan, fun h' => hi (hstart h'), hj⟩

end Marks

/-! ## What is reportedLines -/

section Reported

variable {R : ByteRegexes} {S : StandardPrecedence R} {rejection : Text → String}
  {isLower : Text → Bool} {cores : ℕ}

/-- A search for words or for whole lines, and nothing else. -/
def boundaryConfig
    (ignoreCase lineRegexp wordRegexp text binary : Bool) : BoundaryConfig :=
  ⟨ignoreCase, false, false, false, lineRegexp, wordRegexp, text, binary, ⟨none, none, none, none⟩⟩

/-- The lines of a file that is searched. -/
def searchedLines
    (text binary : Bool)
    (contents : Option Bytes) : List Bytes :=
  match contents with
  | none => []
  | some contents =>
      if !(text || binary) && isBinaryFile contents then []
      else (linesOf 10 contents).map stripNativeLineTerminator

/-- What is reportedLines of a line. -/
def lineMatch
    (file : String)
    (lineNumber : ℕ)
    (line : Bytes) : MatchLine :=
  ⟨lineNumber, stripLineTerminator (decodeReplace line), file⟩

theorem mem_pickLines_iff
    {shouldInclude : Bytes → Bool}
    {first : ℕ}
    {lines : List Bytes}
    {found : ℕ × Bytes} :
    found ∈ pickLines shouldInclude first lines ↔
      ∃ i line, (lines.map stripNativeLineTerminator)[i]? = some line ∧
        shouldInclude line = true ∧ found = (first + i, line) := by
  induction lines generalizing first with
  | nil => simp [pickLines]
  | cons line rest ih =>
      rw [pickLines, List.mem_append, ih]
      constructor
      · rintro (h | ⟨i, line', hline, hincluded, rfl⟩)
        · rw [pick] at h
          split_ifs at h with hincluded
          · exact ⟨0, _, rfl, hincluded, List.mem_singleton.mp h⟩
          · cases h
        · exact ⟨i + 1, line', hline, hincluded, by rw [Nat.add_right_comm, Nat.add_assoc]⟩
      · rintro ⟨i, line', hline, hincluded, rfl⟩
        cases i with
        | zero =>
            cases hline
            refine Or.inl ?_
            rw [pick, if_pos hincluded]
            exact List.mem_singleton_self _
        | succ i =>
            exact Or.inr ⟨i, line', hline, hincluded, by rw [Nat.add_right_comm, Nat.add_assoc]⟩

theorem searchContentsMaybeParallel_eq
    (file : String)
    (cores : ℕ)
    (isMatch : Bytes → Bool)
    (contents : Bytes) :
    searchContentsMaybeParallel file cores isMatch false contents =
      (pickLines isMatch 1 (linesOf 10 contents)).map (toCpuMatch file) := by
  have hincluded : included isMatch false = isMatch := rfl
  rw [searchContentsMaybeParallel]
  rcases tiles_planLineAlignedChunks contents cores with hnil | htiles
  · rw [hnil, if_neg fun h => Nat.not_lt_zero _ h.2, scanLines_eq, hincluded]
  · split_ifs
    · have hscan := @pickLines_of_tiles contents isMatch _ _ _ htiles
      rw [List.drop_zero] at hscan
      rw [← hscan, List.map_flatMap]
      simp only [scanLines_eq, hincluded]
    · rw [scanLines_eq, hincluded]

theorem buildRustQuery_snd
    (ignoreCase lineRegexp wordRegexp text binary : Bool)
    (pattern : Text) :
    (buildRustQuery (boundaryConfig ignoreCase lineRegexp wordRegexp text binary) pattern).2 =
      false := by
  cases lineRegexp <;> cases wordRegexp <;> rfl

theorem rustMatchSet_eq
    {query : Text}
    {ignoreCase : Bool}
    {isMatch : Bytes → Bool}
    (hbuild : R.build query ignoreCase = some isMatch)
    (file : String)
    (contents : Bytes) :
    rustMatchSet R rejection cores file query ignoreCase false false contents =
      .ok ((pickLines isMatch 1 (linesOf 10 contents)).map fun found =>
        (found.1, decodeReplace found.2)) := by
  have hmatcher : lineMatcher R query ignoreCase false = some isMatch := hbuild
  rw [rustMatchSet, searchWithPaths, hmatcher, Option.map_some, searchContentsMaybeParallel_eq]
  simp only [List.map_map]
  rfl

theorem boundarySearch_some
    {ignoreCase lineRegexp wordRegexp text binary : Bool}
    {pattern : Text}
    {isMatch : Bytes → Bool}
    (hbuild : R.build (buildRustQuery
      (boundaryConfig ignoreCase lineRegexp wordRegexp text binary) pattern).1 ignoreCase =
        some isMatch)
    (file : String)
    (contents : Bytes) :
    boundarySearch R rejection isLower cores
        (boundaryConfig ignoreCase lineRegexp wordRegexp text binary) file pattern
        (some contents) =
      if !(text || binary) && isBinaryFile contents then
        .ok (resultOf [] "cpu_binary_skipped")
      else
        .ok (resultOf ((pickLines isMatch 1 (linesOf 10 contents)).map fun found =>
          lineMatch file found.1 found.2) "cpu_rust_regex") := by
  have hlimit : (boundaryConfig ignoreCase lineRegexp wordRegexp text binary).context.maxCount ≠
      some 0 := nofun
  have hcase : ((boundaryConfig ignoreCase lineRegexp wordRegexp text binary).ignoreCase ||
      (boundaryConfig ignoreCase lineRegexp wordRegexp text binary).smartCase && isLower pattern) =
        ignoreCase := Bool.or_false ignoreCase
  have hfound := @rustMatchSet_eq R rejection cores _ _ _ hbuild file contents
  rw [boundarySearch, if_neg hlimit]
  simp only [hcase, buildRustQuery_snd]
  refine if_congr Iff.rfl rfl ?_
  have hinvert : (boundaryConfig ignoreCase lineRegexp wordRegexp text binary).invertMatch =
      false := rfl
  have hplain : (boundaryConfig ignoreCase lineRegexp wordRegexp text
      binary).context.needsContext = false := rfl
  rw [hinvert, hfound, searchWordLineContextViaRust]
  simp only [hplain, Bool.false_eq_true, if_false]
  exact congrArg (fun found => Except.ok (resultOf found "cpu_rust_regex"))
    (List.map_map.trans rfl)

/-- The lines that the matcher accepts are reportedLines. -/
theorem mem_reported_iff
    {ignoreCase lineRegexp wordRegexp text binary : Bool}
    {file : String}
    {pattern : Text}
    {contents : Option Bytes}
    {isMatch : Bytes → Bool}
    (hbuild : R.build (buildRustQuery
      (boundaryConfig ignoreCase lineRegexp wordRegexp text binary) pattern).1 ignoreCase =
        some isMatch)
    {m : MatchLine} :
    m ∈ reportedLines (boundarySearch R rejection isLower cores
      (boundaryConfig ignoreCase lineRegexp wordRegexp text binary) file pattern contents) ↔
      ∃ i line, (searchedLines text binary contents)[i]? = some line ∧ isMatch line = true ∧
        m = lineMatch file (i + 1) line := by
  have hreported : ∀ (found : List MatchLine) (reason : String),
      m ∈ reportedLines (.ok (resultOf found reason)) ↔ m ∈ found := by
    intro found reason
    constructor
    · rintro ⟨r, hr, hm⟩
      cases hr
      exact hm
    · exact fun hm => ⟨_, rfl, hm⟩
  cases contents with
  | none => exact (hreported [] _).trans (by simp [searchedLines])
  | some contents =>
      rw [boundarySearch_some hbuild, searchedLines]
      split_ifs with hbinary
      · exact (hreported [] _).trans (by simp)
      · rw [hreported, List.mem_map]
        constructor
        · rintro ⟨found, hfound, rfl⟩
          obtain ⟨i, line, hline, hmatch, rfl⟩ := mem_pickLines_iff.mp hfound
          exact ⟨i, line, hline, hmatch, by rw [Nat.add_comm]⟩
        · rintro ⟨i, line, hline, hmatch, rfl⟩
          exact ⟨(1 + i, line), mem_pickLines_iff.mpr ⟨i, line, hline, hmatch, rfl⟩,
            by rw [Nat.add_comm]⟩

theorem alternation_append
    {branches branches' : List Text}
    (h : branches ≠ [])
    (h' : branches' ≠ []) :
    alternation (branches ++ branches') =
      alternation branches ++ '|' :: alternation branches' := by
  induction branches with
  | nil => exact absurd rfl h
  | cons branch rest ih =>
      cases rest with
      | nil =>
          rw [List.singleton_append, alternation_cons branch h', alternation, alternation,
            List.intercalate_singleton]
      | cons second rest =>
          rw [List.cons_append, alternation_cons branch (by simp),
            ih (List.cons_ne_nil second rest),
            alternation_cons branch (List.cons_ne_nil second rest), List.append_assoc,
            List.cons_append]

/-- A search for the words of a pattern reports the lines in which an alternative matches under its
conditions. -/
theorem mem_reported_word_iff
    (S : StandardPrecedence R)
    (P : ValidPattern S)
    (ignoreCase text binary : Bool)
    (file : String)
    (contents : Option Bytes)
    (m : MatchLine) :
    m ∈ reportedLines (boundarySearch R rejection isLower cores
      (boundaryConfig ignoreCase false true text binary) file P.text contents) ↔
      ∃ i line, (searchedLines text binary contents)[i]? = some line ∧
        Matches S ignoreCase (marked true true P.branches) line ∧
        m = lineMatch file (i + 1) line := by
  obtain ⟨isMatch, hbuild, hmatch⟩ := S.words ignoreCase (marked true true P.branches)
    (marked_ne_nil P.ne_nil true true) fun m hm => P.valid _ (branch_of_mem_marked hm)
  have hquery : (buildRustQuery (boundaryConfig ignoreCase false true text binary) P.text).1 =
      alternation ((marked true true P.branches).map MarkedBranch.text) :=
    (alternation_marked P.ne_nil true true).symm
  rw [← hquery] at hbuild
  rw [mem_reported_iff hbuild]
  simp only [hmatch, Matches]

/-- A search for whole lines reports the lines that an alternative matches whole. -/
theorem mem_reported_line_iff
    (S : StandardPrecedence R)
    (P : ValidPattern S)
    (ignoreCase wordRegexp text binary : Bool)
    (file : String)
    (contents : Option Bytes)
    (m : MatchLine) :
    m ∈ reportedLines (boundarySearch R rejection isLower cores
      (boundaryConfig ignoreCase true wordRegexp text binary) file P.text contents) ↔
      ∃ i line, (searchedLines text binary contents)[i]? = some line ∧
        (∃ branch ∈ P.branches, ∃ j, S.spans ignoreCase branch line 0 j ∧
          (line.drop j = [] ∨ line.drop j = [13])) ∧
        m = lineMatch file (i + 1) line := by
  obtain ⟨isMatch, hbuild, hmatch⟩ := S.lines ignoreCase P.branches P.ne_nil P.valid
  have hquery : (buildRustQuery (boundaryConfig ignoreCase true wordRegexp text binary)
      P.text).1 = "^(?:".toList ++ alternation P.branches ++ ")\\r?$".toList := rfl
  rw [← hquery] at hbuild
  rw [mem_reported_iff hbuild]
  simp only [hmatch]

theorem or_text
    {S : StandardPrecedence R}
    (P Q : ValidPattern S) :
    (P.or Q).text = P.text ++ '|' :: Q.text :=
  alternation_append P.ne_nil Q.ne_nil

/-- Whole lines distribute over alternation.  Whole words do if and only if every line of the file
in which the first pattern matches without the condition behind it, or the second one without the
condition in front of it, has a word of one of them. -/
theorem boundaryQueries_distribute_iff
    (S : StandardPrecedence R)
    (rejection : Text → String)
    (isLower : Text → Bool)
    (cores : ℕ)
    (P Q : ValidPattern S)
    (ignoreCase wordRegexp text binary : Bool)
    (file : String)
    (contents : Option Bytes) :
    reportedLines (boundarySearch R rejection isLower cores
        (boundaryConfig ignoreCase true wordRegexp text binary) file (P.text ++ '|' :: Q.text)
        contents) =
      reportedLines (boundarySearch R rejection isLower cores
        (boundaryConfig ignoreCase true wordRegexp text binary) file P.text contents) ∪
      reportedLines (boundarySearch R rejection isLower cores
        (boundaryConfig ignoreCase true wordRegexp text binary) file Q.text contents) ∧
    (reportedLines (boundarySearch R rejection isLower cores
        (boundaryConfig ignoreCase false true text binary) file (P.text ++ '|' :: Q.text)
        contents) =
      reportedLines (boundarySearch R rejection isLower cores
        (boundaryConfig ignoreCase false true text binary) file P.text contents) ∪
      reportedLines (boundarySearch R rejection isLower cores
        (boundaryConfig ignoreCase false true text binary) file Q.text contents) ↔
      ∀ line ∈ searchedLines text binary contents,
        Matches S ignoreCase (marked true false P.branches) line ∨
            Matches S ignoreCase (marked false true Q.branches) line →
          Matches S ignoreCase (marked true true P.branches) line ∨
            Matches S ignoreCase (marked true true Q.branches) line) := by
  have hboth : (P.or Q).branches = P.branches ++ Q.branches := rfl
  have hloose : ∀ line, Matches S ignoreCase (marked true true (P.or Q).branches) line ↔
      Matches S ignoreCase (marked true false P.branches) line ∨
        Matches S ignoreCase (marked false true Q.branches) line := by
    intro line
    rw [hboth, marked_append P.ne_nil Q.ne_nil, matches_append_iff]
  rw [← or_text]
  constructor
  · ext m
    rw [Set.mem_union, mem_reported_line_iff, mem_reported_line_iff, mem_reported_line_iff, hboth]
    constructor
    · rintro ⟨i, line, hi, ⟨branch, hbranch, hspan⟩, rfl⟩
      exact (List.mem_append.mp hbranch).imp
        (fun h => ⟨i, line, hi, ⟨branch, h, hspan⟩, rfl⟩)
        fun h => ⟨i, line, hi, ⟨branch, h, hspan⟩, rfl⟩
    · rintro (⟨i, line, hi, ⟨branch, hbranch, hspan⟩, rfl⟩ | ⟨i, line, hi, ⟨branch, hbranch, hspan⟩,
        rfl⟩)
      · exact ⟨i, line, hi, ⟨branch, List.mem_append_left _ hbranch, hspan⟩, rfl⟩
      · exact ⟨i, line, hi, ⟨branch, List.mem_append_right _ hbranch, hspan⟩, rfl⟩
  · constructor
    · intro heq line hline hmatch
      obtain ⟨i, hi⟩ := List.mem_iff_getElem?.mp hline
      have hfound : lineMatch file (i + 1) line ∈ reportedLines (boundarySearch R rejection
          isLower cores (boundaryConfig ignoreCase false true text binary) file (P.or Q).text
          contents) :=
        (mem_reported_word_iff S (P.or Q) ignoreCase text binary file contents _).mpr
          ⟨i, line, hi, (hloose line).mpr hmatch, rfl⟩
      -- the number of a match tells its line
      have hback : ∀ {T : ValidPattern S}, lineMatch file (i + 1) line ∈
          reportedLines (boundarySearch R rejection isLower cores
            (boundaryConfig ignoreCase false true text binary) file T.text contents) →
          Matches S ignoreCase (marked true true T.branches) line := by
        intro T hT
        obtain ⟨k, line', hk, hmatch', hsame⟩ :=
          (mem_reported_word_iff S T ignoreCase text binary file contents _).mp hT
        have hik : i = k := Nat.succ.inj (congrArg MatchLine.lineNumber hsame)
        rw [← hik, hi] at hk
        cases hk
        exact hmatch'
      rw [heq] at hfound
      exact hfound.imp hback hback
    · intro hcover
      ext m
      rw [Set.mem_union, mem_reported_word_iff, mem_reported_word_iff, mem_reported_word_iff]
      constructor
      · rintro ⟨i, line, hi, hmatch, rfl⟩
        exact (hcover line (List.mem_of_getElem? hi) ((hloose line).mp hmatch)).imp
          (fun h => ⟨i, line, hi, h, rfl⟩) fun h => ⟨i, line, hi, h, rfl⟩
      · rintro (⟨i, line, hi, hmatch, rfl⟩ | ⟨i, line, hi, hmatch, rfl⟩)
        · exact ⟨i, line, hi, (hloose line).mpr (Or.inl
            (matches_of_conditions id nofun hmatch)), rfl⟩
        · exact ⟨i, line, hi, (hloose line).mpr (Or.inr
            (matches_of_conditions nofun id hmatch)), rfl⟩

end Reported

/-! ## An engine for words -/

section Words

/-- A letter. -/
def isLetter (c : Char) : Bool :=
  'a' ≤ c ∧ c ≤ 'z'

/-- A byte of a word. -/
def isWordByte (b : UInt8) : Bool :=
  (97 ≤ b ∧ b ≤ 122) ∨ (65 ≤ b ∧ b ≤ 90) ∨ (48 ≤ b ∧ b ≤ 57) ∨ b = 95

/-- A word begins or ends at a position. -/
def atWordBoundary
    (line : Bytes)
    (i : ℕ) : Bool :=
  ((line.take i).getLast?.any isWordByte) != ((line.drop i).head?.any isWordByte)

/-- A byte as it is compared. -/
def foldByte
    (ignoreCase : Bool)
    (b : UInt8) : UInt8 :=
  if ignoreCase ∧ 65 ≤ b ∧ b ≤ 90 then b + 32 else b

/-- A word stands in a line at a position. -/
def standsAt
    (ignoreCase : Bool)
    (word : Text)
    (line : Bytes)
    (i : ℕ) : Bool :=
  (utf8 word).isPrefixOf ((line.drop i).map (foldByte ignoreCase))

/-- An alternative read from its text. -/
def readBranch (text : Text) : MarkedBranch :=
  let start := wordMark.isPrefixOf text
  let body := if start then text.drop 2 else text
  let finish := wordMark.isSuffixOf body
  ⟨start, if finish then body.take (body.length - 2) else body, finish⟩

/-- A word with its conditions is in a line. -/
def branchMatches
    (ignoreCase : Bool)
    (m : MarkedBranch)
    (line : Bytes) : Bool :=
  (List.range (line.length + 1)).any fun i => standsAt ignoreCase m.branch line i &&
    (!m.start || atWordBoundary line i) &&
    (!m.finish || atWordBoundary line (i + (utf8 m.branch).length))

/-- One of the words is the whole line. -/
def wordIsLine
    (ignoreCase : Bool)
    (words : List Text)
    (line : Bytes) : Bool :=
  words.any fun word => standsAt ignoreCase word line 0 &&
    (line.drop (utf8 word).length = [] || line.drop (utf8 word).length = [13])

/-- An engine for alternatives that are words, with or without word marks, or whole lines. -/
def wordEngine : ByteRegexes where
  build := fun pattern ignoreCase =>
    if "^(?:".toList.isPrefixOf pattern then
      some (wordIsLine ignoreCase (((pattern.drop 4).take (pattern.length - 9)).splitOn '|'))
    else some fun line => (pattern.splitOn '|').any fun branch =>
      branchMatches ignoreCase (readBranch branch) line
  escape := id

/-- The alternative is a word of letters. -/
def IsWord (branch : Text) : Prop :=
  branch ≠ [] ∧ ∀ c ∈ branch, isLetter c = true

theorem not_isLetter_of_mem
    {c : Char}
    (h : c ∈ ['|', '\\', '^']) :
    isLetter c = false := by
  have hall : (['|', '\\', '^'].all fun c => !isLetter c) = true := by decide
  simpa using List.all_eq_true.mp hall c h

theorem IsWord.not_mem
    {word : Text}
    (h : IsWord word)
    {c : Char}
    (hc : c ∈ ['|', '\\', '^']) :
    c ∉ word := fun hmem =>
  Bool.noConfusion ((h.2 c hmem).symm.trans (not_isLetter_of_mem hc))

/-- An alternative is read back from its text. -/
theorem readBranch_text
    {m : MarkedBranch}
    (h : IsWord m.branch) :
    readBranch m.text = m := by
  obtain ⟨start, branch, finish⟩ := m
  have hmark : '\\' ∉ branch := h.not_mem (by simp)
  have hstart : wordMark.isPrefixOf (branch ++ (if finish then wordMark else [])) = false := by
    obtain ⟨c, rest, rfl⟩ := List.exists_cons_of_ne_nil h.1
    rw [Bool.eq_false_iff, Ne, List.isPrefixOf_iff_prefix, List.cons_append]
    intro hstarts
    exact hmark ((List.cons_prefix_cons.mp hstarts).1 ▸ List.mem_cons_self)
  have hfinish : wordMark.isSuffixOf branch = false := by
    rw [Bool.eq_false_iff, Ne, List.isSuffixOf_iff_suffix]
    exact fun hsuffix => hmark (hsuffix.subset (by decide))
  have hback : wordMark.isSuffixOf (branch ++ wordMark) = true :=
    List.isSuffixOf_iff_suffix.mpr (List.suffix_append branch wordMark)
  have hfront : ∀ t : Text, wordMark.isPrefixOf (wordMark ++ t) = true := fun t =>
    List.isPrefixOf_iff_prefix.mpr (List.prefix_append wordMark t)
  have hdrop : ∀ t : Text, (wordMark ++ t).drop 2 = t := fun t => rfl
  have htake : (branch ++ wordMark).take (branch.length + wordMark.length - 2) = branch := by
    have hlength : branch.length + wordMark.length - 2 = branch.length := by
      simp [wordMark]
    rw [hlength, List.take_left]
  cases start with
  | true =>
      cases finish with
      | true => simp [readBranch, MarkedBranch.text, List.append_assoc, hfront, hdrop, hback, htake]
      | false => simp [readBranch, MarkedBranch.text, hfront, hdrop, hfinish]
  | false =>
      cases finish with
      | true =>
          rw [if_pos rfl] at hstart
          simp [readBranch, MarkedBranch.text, hstart, hback, htake]
      | false =>
          rw [if_neg Bool.false_ne_true, List.append_nil] at hstart
          simp [readBranch, MarkedBranch.text, hstart, hfinish]

theorem lt_length_of_standsAt
    {ignoreCase : Bool}
    {word : Text}
    (hword : word ≠ [])
    {line : Bytes}
    {i : ℕ}
    (h : standsAt ignoreCase word line i = true) :
    i < line.length := by
  by_contra hle
  have hnil : line.drop i = [] := List.drop_eq_nil_of_le (not_lt.mp hle)
  rw [standsAt, hnil, List.isPrefixOf_iff_prefix, List.map_nil, List.prefix_nil] at h
  exact hword (utf8_injective (h.trans utf8_nil.symm))

theorem branchMatches_iff
    {ignoreCase : Bool}
    {m : MarkedBranch}
    (hword : m.branch ≠ [])
    {line : Bytes} :
    branchMatches ignoreCase m line = true ↔
      ∃ i, standsAt ignoreCase m.branch line i = true ∧
        (m.start = true → atWordBoundary line i = true) ∧
        (m.finish = true → atWordBoundary line (i + (utf8 m.branch).length) = true) := by
  rw [branchMatches, List.any_eq_true]
  constructor
  · rintro ⟨i, -, h⟩
    simp only [Bool.and_eq_true, Bool.or_eq_true, Bool.not_eq_true'] at h
    refine ⟨i, h.1.1, fun hstart => h.1.2.resolve_left ?_, fun hfinish => h.2.resolve_left ?_⟩
    · simp [hstart]
    · simp [hfinish]
  · rintro ⟨i, hstands, hstart, hfinish⟩
    have hlt := lt_length_of_standsAt hword hstands
    refine ⟨i, List.mem_range.mpr (by omega), ?_⟩
    simp only [Bool.and_eq_true, Bool.or_eq_true, Bool.not_eq_true']
    refine ⟨⟨hstands, ?_⟩, ?_⟩
    · exact (Bool.eq_false_or_eq_true m.start).symm.imp_right hstart
    · exact (Bool.eq_false_or_eq_true m.finish).symm.imp_right hfinish

/-- Alternatives are read back from their text. -/
theorem splitOn_alternation
    {branches : List Text}
    (hne : branches ≠ [])
    (h : ∀ branch ∈ branches, '|' ∉ branch) :
    (alternation branches).splitOn '|' = branches :=
  List.splitOn_intercalate '|' h hne

theorem IsWord.bar_not_mem_text
    {m : MarkedBranch}
    (h : IsWord m.branch) :
    '|' ∉ m.text := by
  have hbranch : '|' ∉ m.branch := h.not_mem (by simp)
  have hmark : '|' ∉ wordMark := by decide
  rw [MarkedBranch.text, List.mem_append, List.mem_append]
  rintro ((hmem | hmem) | hmem)
  · split_ifs at hmem
    · exact hmark hmem
    · cases hmem
  · exact hbranch hmem
  · split_ifs at hmem
    · exact hmark hmem
    · cases hmem

/-- No alternative begins like a whole line. -/
theorem not_wholeLine_form
    {branches : List MarkedBranch}
    (hne : branches ≠ [])
    (h : ∀ m ∈ branches, IsWord m.branch) :
    "^(?:".toList.isPrefixOf (alternation (branches.map MarkedBranch.text)) = false := by
  obtain ⟨m, rest, rfl⟩ := List.exists_cons_of_ne_nil hne
  have hword := h m List.mem_cons_self
  obtain ⟨c, later, htext, hc⟩ : ∃ c later, m.text = c :: later ∧ c ≠ '^' := by
    obtain ⟨d, letters, hbranch⟩ := List.exists_cons_of_ne_nil hword.1
    rw [MarkedBranch.text, hbranch]
    cases m.start with
    | true => exact ⟨'\\', _, rfl, by decide⟩
    | false =>
        refine ⟨d, _, rfl, fun heq => hword.not_mem (by simp) (?_ : '^' ∈ m.branch)⟩
        rw [hbranch, heq]
        exact List.mem_cons_self
  obtain ⟨tail, halternation⟩ : ∃ tail, alternation ((m :: rest).map MarkedBranch.text) =
      c :: tail := by
    cases rest with
    | nil =>
        exact ⟨later, List.intercalate_singleton.trans htext⟩
    | cons second rest =>
        rw [List.map_cons, alternation_cons _ (by simp), htext]
        exact ⟨_, rfl⟩
  rw [halternation, Bool.eq_false_iff, Ne, List.isPrefixOf_iff_prefix]
  intro hstarts
  exact hc (List.cons_prefix_cons.mp hstarts).1.symm

/-- The engine for words has standard precedence. -/
def wordPrecedence : StandardPrecedence wordEngine where
  IsBranch := IsWord
  wordBoundary := fun line i => atWordBoundary line i = true
  spans := fun ignoreCase word line i j =>
    standsAt ignoreCase word line i = true ∧ j = i + (utf8 word).length
  words := by
    intro ignoreCase branches hne hwords
    have hsplit : (alternation (branches.map MarkedBranch.text)).splitOn '|' =
        branches.map MarkedBranch.text := by
      refine splitOn_alternation (by simpa using hne) fun branch hbranch => ?_
      obtain ⟨m, hm, rfl⟩ := List.mem_map.mp hbranch
      exact (hwords m hm).bar_not_mem_text
    refine ⟨_, if_neg (by rw [not_wholeLine_form hne hwords]; exact Bool.false_ne_true), ?_⟩
    intro line
    rw [hsplit, List.any_map, List.any_eq_true]
    refine exists_congr fun m => and_congr_right fun hm => ?_
    rw [Function.comp_apply, readBranch_text (hwords m hm), branchMatches_iff (hwords m hm).1]
    simp only [and_assoc, exists_and_left, exists_eq_left]
  lines := by
    intro ignoreCase branches hne hwords
    have hstarts : "^(?:".toList.isPrefixOf
        ("^(?:".toList ++ alternation branches ++ ")\\r?$".toList) = true := by
      rw [List.append_assoc]
      exact List.isPrefixOf_iff_prefix.mpr (List.prefix_append _ _)
    have hinner : (("^(?:".toList ++ alternation branches ++ ")\\r?$".toList).drop 4).take
        (("^(?:".toList ++ alternation branches ++ ")\\r?$".toList).length - 9) =
          alternation branches := by
      have hlength : ("^(?:".toList ++ alternation branches ++ ")\\r?$".toList).length - 9 =
          (alternation branches).length := by
        simp only [List.length_append]
        have hopen : "^(?:".toList.length = 4 := rfl
        have hclose : ")\\r?$".toList.length = 5 := rfl
        omega
      rw [hlength, List.append_assoc]
      exact List.take_left
    have hsplit := splitOn_alternation hne fun branch hbranch =>
      (hwords branch hbranch).not_mem (c := '|') (by simp)
    have hbuild : wordEngine.build ("^(?:".toList ++ alternation branches ++ ")\\r?$".toList)
        ignoreCase = some (wordIsLine ignoreCase branches) := by
      rw [wordEngine]
      simp only [hstarts, if_true, hinner, hsplit]
    refine ⟨_, hbuild, ?_⟩
    intro line
    rw [wordIsLine, List.any_eq_true]
    refine exists_congr fun word => and_congr_right fun _ => ?_
    simp only [Nat.zero_add, Bool.and_eq_true, Bool.or_eq_true, decide_eq_true_eq]
    constructor
    · rintro ⟨hstands, hrest⟩
      exact ⟨_, ⟨hstands, rfl⟩, hrest⟩
    · rintro ⟨j, ⟨hstands, rfl⟩, hrest⟩
      exact ⟨hstands, hrest⟩

/-- A pattern of the engine for words. -/
def wordPattern
    (word : Text)
    (h : IsWord word) :
    ValidPattern wordPrecedence :=
  ⟨[word], List.cons_ne_nil _ _, fun _ hbranch => List.mem_singleton.mp hbranch ▸ h⟩

theorem isWord_of_all
    {word : Text}
    (hne : word ≠ [])
    (hall : word.all isLetter = true) :
    IsWord word :=
  ⟨hne, List.all_eq_true.mp hall⟩

theorem isWord_ab :
    IsWord "ab".toList :=
  isWord_of_all (by decide) (by decide)

theorem isWord_cd :
    IsWord "cd".toList :=
  isWord_of_all (by decide) (by decide)

/-- A file whose only line is a word that begins with another one. -/
def abxFile : Bytes :=
  utf8 "abx\n".toList

/-- A search of it for words. -/
def searchAbx (pattern : String) : Except SearchError SearchResult :=
  boundarySearch wordEngine (fun _ => "") (fun _ => false) 1
    (boundaryConfig false false true false false) "f" pattern.toList (some abxFile)

theorem searchedLines_abxFile :
    searchedLines false false (some abxFile) = [utf8 "abx".toList] := by
  decide

/-- A word that does not stand in the file is not reportedLines. -/
theorem not_mem_reported_abx
    {word : Text}
    (h : IsWord word)
    (hnone : branchMatches false ⟨true, word, true⟩ (utf8 "abx".toList) = false)
    (m : MatchLine) :
    m ∉ reportedLines (boundarySearch wordEngine (fun _ => "") (fun _ => false) 1
      (boundaryConfig false false true false false) "f" (wordPattern word h).text
      (some abxFile)) := by
  rw [mem_reported_word_iff, searchedLines_abxFile]
  rintro ⟨i, line, hline, ⟨mark, hmark, i', j, ⟨hstands, rfl⟩, hstart, hfinish⟩, -⟩
  obtain rfl := List.mem_singleton.mp (List.mem_of_getElem? hline)
  obtain rfl := List.mem_singleton.mp hmark
  exact Bool.noConfusion (hnone.symm.trans
    ((branchMatches_iff h.1).mpr ⟨i', hstands, hstart, hfinish⟩))

/-- The words `ab` and `cd` are not in the file, but it is reportedLines for `ab|cd`. -/
theorem word_alternation_reports_more :
    reportedLines (searchAbx "ab|cd") ≠
      reportedLines (searchAbx "ab") ∪ reportedLines (searchAbx "cd") := by
  -- the condition behind the first alternative is missing
  have hmatch : branchMatches false ⟨true, "ab".toList, false⟩ (utf8 "abx".toList) = true := by
    decide
  obtain ⟨i, hstands, hstart, hfinish⟩ := (branchMatches_iff isWord_ab.1).mp hmatch
  have hmem : lineMatch "f" 1 (utf8 "abx".toList) ∈ reportedLines (searchAbx "ab|cd") :=
    (mem_reported_word_iff wordPrecedence
      ((wordPattern _ isWord_ab).or (wordPattern _ isWord_cd)) false false false "f"
      (some abxFile) _).mpr ⟨0, utf8 "abx".toList, by rw [searchedLines_abxFile]; rfl,
        ⟨_, List.mem_cons_self, i, _, ⟨hstands, rfl⟩, hstart, hfinish⟩, rfl⟩
  intro heq
  rw [heq] at hmem
  exact hmem.elim (not_mem_reported_abx isWord_ab (by decide) _)
    (not_mem_reported_abx isWord_cd (by decide) _)

end Words

end CpuSearch
end TensorGrep
