import TensorGrep.AstRules.Documents
import TensorGrep.Kernel.ExceptList
import TensorGrep.Kernel.Folds

/-!
# Results of a rule scan

A scan asks a backend for the matches of every member pattern of a rule and folds the
results into one finding.  Python has three folds: over the results of whole searches
(`foldMany`), over the results for single files (`foldFile`), and over the one result
that a project scan has for a rule (`foldProject`).  Rust has a fold over the matches
of each file (`RustFold.add`).

A rule with more than one member counts the nodes that any member matches, each one
once; a rule with one member counts its matches as they come.
-/

namespace TensorGrep
namespace Scan

open Kernel AstRules

/-! ## Matches -/

/-- The first and the last byte of a node. -/
abbrev Span := ℕ × ℕ

/-- `MatchLine`: the line, the file if it is not the empty text, and the bytes of the node if the
backend knows them. -/
structure MatchLine (File : Type) where
  lineNumber : ℕ
  file : Option File
  span : Option Span
deriving DecidableEq

/-- `SearchResult` -/
structure SearchResult (File : Type) where
  matchLines : List (MatchLine File)
  matchedFilePaths : List File
  matchCountsByFile : File → ℕ
  totalFiles : ℕ
  totalMatches : ℕ
  resultIncomplete : Bool

/-- What tells the nodes of a file apart: the bytes, or else the line. -/
inductive NodeKey where
  | bytes (span : Span)
  | line (lineNumber : ℕ)
deriving DecidableEq

variable {File : Type}

/-- `_match_node_identity` -/
def matchNodeIdentity
    (fallbackFile : Option File)
    (m : MatchLine File) : Option File × NodeKey :=
  (m.file.or fallbackFile, m.span.elim (.line m.lineNumber) .bytes)

/-- The result of a project scan for a rule that it does not name. -/
def SearchResult.empty : SearchResult File where
  matchLines := []
  matchedFilePaths := []
  matchCountsByFile := 0
  totalFiles := 0
  totalMatches := 0
  resultIncomplete := false

/-- The result that the native backend makes of the matches in a file. -/
def nativeResult
    (matchLines : List (MatchLine File))
    (incomplete : Bool) : SearchResult File where
  matchLines := matchLines
  matchedFilePaths := []
  matchCountsByFile := 0
  totalFiles := if matchLines = [] then 0 else 1
  totalMatches := matchLines.length
  resultIncomplete := incomplete

/-- An item that `ast-grep` prints. -/
structure AstGrepItem (File : Type) where
  ruleId : Option Text
  file : Option File
  startLine : ℕ
  byteOffset : Option Span
deriving DecidableEq

/-- A match in `_parse_result`. -/
def parseItem
    (fallbackFile : Option File)
    (item : AstGrepItem File) : MatchLine File :=
  ⟨item.startLine + 1, item.file.or fallbackFile, item.byteOffset⟩

/-- `_parse_result` -/
def parseResult
    [DecidableEq File]
    (items : List (AstGrepItem File))
    (fallbackFile : Option File)
    (incomplete : Bool) : SearchResult File :=
  let matchLines := items.map (parseItem fallbackFile)
  let matchedFiles := (matchLines.filterMap MatchLine.file).eraseDups
  { matchLines := matchLines
    matchedFilePaths := matchedFiles
    matchCountsByFile := 0
    totalFiles := matchedFiles.length
    totalMatches := matchLines.length
    resultIncomplete := incomplete }

/-! ## Folding the results of a rule -/

/-- What is gathered for a rule. -/
structure RuleFold (File : Type) where
  identities : Finset (Option File × NodeKey)
  ruleMatches : ℕ
  matchedFiles : Finset File
  matchCountsByFile : File → ℕ
  occurrences : List (File × ℕ)

/-- Before the first result. -/
def RuleFold.start : RuleFold File where
  identities := ∅
  ruleMatches := 0
  matchedFiles := ∅
  matchCountsByFile := 0
  occurrences := []

section Folds

variable [DecidableEq File]

/-- The places of the matches that have a file. -/
def occurrencesOf
    (fallbackFile : Option File)
    (matchLines : List (MatchLine File)) : List (File × ℕ) :=
  matchLines.filterMap fun m => (m.file.or fallbackFile).map fun file => (file, m.lineNumber)

/-- Where no file is known so far, the files of the matches. -/
def withFilesOfMatches
    (matchedFiles : Finset File)
    (result : SearchResult File) : Finset File :=
  if matchedFiles = ∅ ∧ 0 < result.totalFiles then
    (result.matchLines.filterMap MatchLine.file).toFinset
  else matchedFiles

/-- The counts of a result, with one for each of its matches. -/
def countsWithMatches
    (result : SearchResult File)
    (file : File) : ℕ :=
  result.matchCountsByFile file + result.matchLines.countP fun m => m.file = some file

/-- The result of `search_project` for a rule. -/
def foldProject (result : SearchResult File) : RuleFold File where
  identities := ∅
  ruleMatches := result.totalMatches
  matchedFiles := withFilesOfMatches result.matchedFilePaths.toFinset result
  matchCountsByFile := countsWithMatches result
  occurrences := occurrencesOf none result.matchLines

/-- A result of `search_many` for a member of a rule.  `scan_command` gathers the same nodes,
matches and files. -/
def foldMany
    (composite : Bool)
    (acc : RuleFold File)
    (result : SearchResult File) : RuleFold File where
  identities :=
    if composite then
      acc.identities ∪
        ((result.matchLines.filter fun m => m.file.isSome).map (matchNodeIdentity none)).toFinset
    else acc.identities
  ruleMatches := if composite then acc.ruleMatches else acc.ruleMatches + result.totalMatches
  matchedFiles :=
    withFilesOfMatches (acc.matchedFiles ∪ result.matchedFilePaths.toFinset) result
  matchCountsByFile := acc.matchCountsByFile + countsWithMatches result
  occurrences := acc.occurrences ++ occurrencesOf none result.matchLines

/-- A result of `search` for a member of a rule and a file. -/
def foldFile
    (composite : Bool)
    (acc : RuleFold File)
    (entry : File × SearchResult File) : RuleFold File :=
  let currentFile := entry.1
  let result := entry.2
  let hit := 0 < result.totalFiles ∨ 0 < result.totalMatches
  { identities :=
      if composite then
        acc.identities ∪ (result.matchLines.map (matchNodeIdentity (some currentFile))).toFinset
      else acc.identities
    ruleMatches := if composite then acc.ruleMatches else acc.ruleMatches + result.totalMatches
    matchedFiles := if hit then insert currentFile acc.matchedFiles else acc.matchedFiles
    matchCountsByFile :=
      acc.matchCountsByFile + if hit then Pi.single currentFile result.totalMatches else 0
    occurrences :=
      acc.occurrences ++ if hit then occurrencesOf (some currentFile) result.matchLines else [] }

/-- The counts of a composite rule, from the nodes that it has gathered. -/
def RuleFold.finish
    (composite : Bool)
    (acc : RuleFold File) : RuleFold File :=
  if composite then
    { acc with
      ruleMatches := acc.identities.card
      matchCountsByFile := fun file => (acc.identities.filter fun i => i.1 = some file).card }
  else acc

/-- All results of `search_many` for a rule. -/
def foldAllMany
    (composite : Bool)
    (results : List (SearchResult File)) : RuleFold File :=
  (results.foldl (foldMany composite) .start).finish composite

/-- All results of `search` for a rule. -/
def foldAllFiles
    (composite : Bool)
    (results : List (File × SearchResult File)) : RuleFold File :=
  (results.foldl (foldFile composite) .start).finish composite

/-! ### Which files a fold knows -/

@[simp] theorem matchedFiles_finish
    (composite : Bool)
    (acc : RuleFold File) :
    (acc.finish composite).matchedFiles = acc.matchedFiles := by
  rw [RuleFold.finish]
  split <;> rfl

theorem mem_matchedFiles_foldFile
    {composite : Bool}
    {acc : RuleFold File}
    {entry : File × SearchResult File}
    {file : File} :
    file ∈ (foldFile composite acc entry).matchedFiles ↔
      file ∈ acc.matchedFiles ∨
        (0 < entry.2.totalFiles ∨ 0 < entry.2.totalMatches) ∧ file = entry.1 := by
  simp only [foldFile]
  split
  · next hhit => simp [hhit, or_comm]
  · next hhit => simp [hhit]

omit [DecidableEq File] in
/-- A result of the native backend is a hit if and only if it has a match. -/
theorem hit_nativeResult_iff
    {matchLines : List (MatchLine File)}
    {incomplete : Bool} :
    0 < (nativeResult matchLines incomplete).totalFiles ∨
        0 < (nativeResult matchLines incomplete).totalMatches ↔ matchLines ≠ [] := by
  cases matchLines with
  | nil => simp [nativeResult]
  | cons m rest => simp [nativeResult]

/-- The files that `_parse_result` names are those of its items. -/
theorem mem_matchedFilePaths_parseResult
    {items : List (AstGrepItem File)}
    {incomplete : Bool}
    {file : File} :
    file ∈ (parseResult items none incomplete).matchedFilePaths ↔
      ∃ item ∈ items, item.file = some file := by
  simp [parseResult, parseItem]

/-- No file is missing among those that `_parse_result` names. -/
theorem withFilesOfMatches_parseResult
    (files : Finset File)
    (items : List (AstGrepItem File))
    (fallbackFile : Option File)
    (incomplete : Bool) :
    withFilesOfMatches
        (files ∪ (parseResult items fallbackFile incomplete).matchedFilePaths.toFinset)
        (parseResult items fallbackFile incomplete) =
      files ∪ (parseResult items fallbackFile incomplete).matchedFilePaths.toFinset := by
  refine if_neg ?_
  rintro ⟨hempty, hpos⟩
  have hpaths := (Finset.union_eq_empty.mp hempty).2
  rw [List.toFinset_eq_empty_iff] at hpaths
  change 0 < (parseResult items fallbackFile incomplete).matchedFilePaths.length at hpos
  rw [hpaths] at hpos
  exact Nat.lt_irrefl 0 hpos

/-- The files of whole searches are those of their items. -/
theorem mem_matchedFiles_foldMany
    {α : Type}
    {composite : Bool}
    {searches : List α}
    {items : α → List (AstGrepItem File)}
    {incomplete : α → Bool}
    {file : File} :
    file ∈ (foldAllMany composite
        (searches.map fun a => parseResult (items a) none (incomplete a))).matchedFiles ↔
      ∃ a ∈ searches, ∃ item ∈ items a, item.file = some file := by
  rw [foldAllMany, matchedFiles_finish, List.foldl_map, mem_foldl_iff RuleFold.matchedFiles
    (fun a file => ∃ item ∈ items a, item.file = some file)]
  · simp only [RuleFold.start, Finset.notMem_empty, false_or]
  · intro acc a file
    change file ∈ withFilesOfMatches _ (parseResult (items a) none (incomplete a)) ↔ _
    rw [withFilesOfMatches_parseResult, Finset.mem_union, List.mem_toFinset,
      mem_matchedFilePaths_parseResult]

/-- The files of the searches in single files are those with a match. -/
theorem mem_matchedFiles_foldFiles
    {α : Type}
    {composite : Bool}
    {searches : List α}
    {fileOf : α → File}
    {matchLines : α → List (MatchLine File)}
    {incomplete : α → Bool}
    {file : File} :
    file ∈ (foldAllFiles composite
        (searches.map fun a => (fileOf a, nativeResult (matchLines a) (incomplete a)))).matchedFiles ↔
      ∃ a ∈ searches, matchLines a ≠ [] ∧ file = fileOf a := by
  rw [foldAllFiles, matchedFiles_finish, List.foldl_map, mem_foldl_iff RuleFold.matchedFiles
    (fun a file => matchLines a ≠ [] ∧ file = fileOf a)]
  · simp only [RuleFold.start, Finset.notMem_empty, false_or]
  · intro acc a file
    rw [mem_matchedFiles_foldFile, hit_nativeResult_iff]

/-! ### When a fold has a match -/

/-- The matches of a composite rule are its nodes, those of another rule are counted. -/
theorem ruleMatches_finish_pos_iff
    {composite : Bool}
    {acc : RuleFold File} :
    0 < (acc.finish composite).ruleMatches ↔
      if composite then ∃ i, i ∈ acc.identities else 0 < acc.ruleMatches := by
  cases composite with
  | true => exact Finset.card_pos
  | false => rfl

/-- A number that is added up over a list is positive if and only if one of its parts is. -/
theorem sum_map_pos_iff
    {α : Type*}
    {l : List α}
    {f : α → ℕ} :
    0 < (l.map f).sum ↔ ∃ a ∈ l, 0 < f a := by
  rw [Nat.pos_iff_ne_zero, ne_eq, List.sum_eq_zero_iff]
  simp [Nat.pos_iff_ne_zero]

/-- Whole searches have a match for a rule if and only if one of them has. -/
theorem foldAllMany_pos_iff
    {composite : Bool}
    {results : List (SearchResult File)}
    (htotal : ∀ r ∈ results, r.totalMatches = r.matchLines.length)
    (hfile : ∀ r ∈ results, ∀ m ∈ r.matchLines, m.file.isSome = true) :
    0 < (foldAllMany composite results).ruleMatches ↔ ∃ r ∈ results, r.matchLines ≠ [] := by
  rw [foldAllMany, ruleMatches_finish_pos_iff]
  cases composite with
  | true =>
      have hidentities : ∀ i, i ∈ (results.foldl (foldMany true) .start).identities ↔
          ∃ r ∈ results, i ∈ (r.matchLines.filter fun m => m.file.isSome).map
            (matchNodeIdentity none) := by
        intro i
        rw [mem_foldl_iff RuleFold.identities fun r i =>
          i ∈ (r.matchLines.filter fun m => m.file.isSome).map (matchNodeIdentity none)]
        · simp only [RuleFold.start, Finset.notMem_empty, false_or]
        · intro acc r i
          simp [foldMany]
      simp only [if_true, hidentities]
      constructor
      · rintro ⟨i, r, hr, hi⟩
        obtain ⟨m, hm, -⟩ := List.mem_map.mp hi
        exact ⟨r, hr, List.ne_nil_of_mem (List.mem_filter.mp hm).1⟩
      · rintro ⟨r, hr, hne⟩
        obtain ⟨m, hm⟩ := List.exists_mem_of_ne_nil _ hne
        exact ⟨_, r, hr, List.mem_map_of_mem (List.mem_filter.mpr ⟨hm, hfile r hr m hm⟩)⟩
  | false =>
      rw [if_neg Bool.false_ne_true,
        foldl_eq_add_sum RuleFold.ruleMatches SearchResult.totalMatches fun _ _ => rfl]
      rw [show (RuleFold.start : RuleFold File).ruleMatches = 0 from rfl, Nat.zero_add,
        sum_map_pos_iff]
      refine exists_congr fun r => and_congr_right fun hr => ?_
      rw [htotal r hr, List.length_pos_iff]

/-- Searches in files have a match for a rule if and only if one of them has. -/
theorem foldAllFiles_pos_iff
    {composite : Bool}
    {results : List (File × SearchResult File)}
    (htotal : ∀ r ∈ results, r.2.totalMatches = r.2.matchLines.length) :
    0 < (foldAllFiles composite results).ruleMatches ↔ ∃ r ∈ results, r.2.matchLines ≠ [] := by
  rw [foldAllFiles, ruleMatches_finish_pos_iff]
  cases composite with
  | true =>
      have hidentities : ∀ i, i ∈ (results.foldl (foldFile true) .start).identities ↔
          ∃ r ∈ results, i ∈ r.2.matchLines.map (matchNodeIdentity (some r.1)) := by
        intro i
        rw [mem_foldl_iff RuleFold.identities fun r i =>
          i ∈ r.2.matchLines.map (matchNodeIdentity (some r.1))]
        · simp only [RuleFold.start, Finset.notMem_empty, false_or]
        · intro acc r i
          simp [foldFile]
      simp only [if_true, hidentities]
      constructor
      · rintro ⟨i, r, hr, hi⟩
        obtain ⟨m, hm, -⟩ := List.mem_map.mp hi
        exact ⟨r, hr, List.ne_nil_of_mem hm⟩
      · rintro ⟨r, hr, hne⟩
        obtain ⟨m, hm⟩ := List.exists_mem_of_ne_nil _ hne
        exact ⟨_, r, hr, List.mem_map_of_mem hm⟩
  | false =>
      rw [if_neg Bool.false_ne_true,
        foldl_eq_add_sum RuleFold.ruleMatches (fun r => r.2.totalMatches) fun _ _ => rfl]
      rw [show (RuleFold.start : RuleFold File).ruleMatches = 0 from rfl, Nat.zero_add,
        sum_map_pos_iff]
      refine exists_congr fun r => and_congr_right fun hr => ?_
      rw [htotal r hr, List.length_pos_iff]

end Folds

/-! ## Findings -/

/-- A rule of a scan. -/
structure Rule extends RuleSpec where
  engine : Option Text
deriving DecidableEq

/-- A rule with more than one member. -/
def isComposite (rule : RuleSpec) : Bool :=
  1 < rule.memberPatterns.length

/-- A finding: what a scan says about a rule. -/
structure Finding (File : Type) (Fingerprint : Type) where
  ruleId : Text
  language : Text
  severity : Text
  message : Text
  fingerprint : Fingerprint
  matchCount : ℕ
  files : List File
  evidence : List (File × ℕ)
  rawOccurrences : List (File × ℕ)

/-- `sorted`, of a set -/
abbrev sorted
    {α : Type}
    [LinearOrder α]
    (members : Finset α) : List α :=
  members.sort

/-- `_append_finding`, where `fingerprintOf` is `_ruleset_finding_fingerprint`. -/
def appendFinding
    {Fingerprint : Type}
    [LinearOrder File]
    (fingerprintOf : Text → Text → List File → Fingerprint)
    (rule : RuleSpec)
    (acc : RuleFold File) : Finding File Fingerprint :=
  let sortedFiles := sorted acc.matchedFiles
  { ruleId := rule.id
    language := rule.language
    severity := rule.severity
    message := rule.message
    fingerprint := fingerprintOf rule.id rule.language sortedFiles
    matchCount := acc.ruleMatches
    files := sortedFiles
    evidence := sortedFiles.map fun file => (file, acc.matchCountsByFile file)
    rawOccurrences := (sorted (acc.occurrences.map toLex).toFinset).map ofLex }

/-- The occurrences of a finding are those that its rule has gathered. -/
theorem mem_rawOccurrences
    {Fingerprint : Type}
    [LinearOrder File]
    {fingerprintOf : Text → Text → List File → Fingerprint}
    {rule : RuleSpec}
    {acc : RuleFold File}
    {occurrence : File × ℕ} :
    occurrence ∈ (appendFinding fingerprintOf rule acc).rawOccurrences ↔
      occurrence ∈ acc.occurrences := by
  obtain ⟨file, line⟩ := occurrence
  simp [appendFinding]

/-! ## The fold in Rust -/

/-- `AstCliFileMatches`, with the bytes of its matches -/
structure AstCliFileMatches (File : Type) where
  file : File
  spans : List Span

/-- `search_many_for_cli`, where `search` is what the native matcher finds in a file -/
def searchManyForCli
    (search : File → List Span)
    (files : List File) : List (AstCliFileMatches File) :=
  files.filterMap fun file => if search file = [] then none else some ⟨file, search file⟩

/-- `per_file_counts` and `per_file_spans`, whose keys are `files` -/
structure RustFold (File : Type) where
  files : Finset File
  counts : File → ℕ
  spans : File → Finset Span

/-- Before the first match. -/
def RustFold.start : RustFold File where
  files := ∅
  counts := 0
  spans := fun _ => ∅

/-- The matches of one file in `execute_ast_scan_core`. -/
def RustFold.add
    [DecidableEq File]
    (composite : Bool)
    (acc : RustFold File)
    (fileMatch : AstCliFileMatches File) : RustFold File where
  files := insert fileMatch.file acc.files
  counts :=
    if composite then acc.counts
    else acc.counts + Pi.single fileMatch.file fileMatch.spans.length
  spans :=
    if composite then
      Function.update acc.spans fileMatch.file
        (acc.spans fileMatch.file ∪ fileMatch.spans.toFinset)
    else acc.spans

/-- The matches and the files of a rule in `execute_ast_scan_core`, where `answer` is what the
backend says about a member pattern. -/
def executeAstScanRule
    {ε : Type}
    [DecidableEq File]
    (answer : Text → Except ε (List (AstCliFileMatches File)))
    (rule : RuleSpec) : Except ε (ℕ × ℕ) := do
  let fileMatches ← rule.memberPatterns.mapM answer
  let acc := fileMatches.flatten.foldl (RustFold.add (isComposite rule)) .start
  if isComposite rule then
    return (∑ file ∈ acc.files, (acc.spans file).card, acc.files.card)
  else
    return (∑ file ∈ acc.files, acc.counts file, acc.files.card)

/-! ### What the fold has -/

/-- The matches of a search are those of the files with a match. -/
theorem mem_searchManyForCli
    {search : File → List Span}
    {files : List File}
    {x : AstCliFileMatches File} :
    x ∈ searchManyForCli search files ↔
      x.file ∈ files ∧ search x.file ≠ [] ∧ x.spans = search x.file := by
  simp only [searchManyForCli, List.mem_filterMap]
  constructor
  · rintro ⟨file, hfile, h⟩
    split at h
    · cases h
    · next hne =>
      cases h
      exact ⟨hfile, hne, rfl⟩
  · rintro ⟨hfile, hne, hspans⟩
    refine ⟨x.file, hfile, ?_⟩
    rw [if_neg hne, ← hspans]

section RustFolds

variable [DecidableEq File]

/-- The keys of the maps are the files of the matches. -/
theorem mem_files_foldl_add
    {composite : Bool}
    {fileMatches : List (AstCliFileMatches File)}
    {file : File} :
    file ∈ (fileMatches.foldl (RustFold.add composite) .start).files ↔
      ∃ m ∈ fileMatches, file = m.file := by
  rw [mem_foldl_iff RustFold.files (fun m file => file = m.file)]
  · simp only [RustFold.start, Finset.notMem_empty, false_or]
  · intro acc m file
    rw [RustFold.add, Finset.mem_insert, or_comm]

/-- The bytes gathered for a file of a composite rule. -/
theorem mem_spans_foldl_add
    {fileMatches : List (AstCliFileMatches File)}
    {file : File}
    {s : Span} :
    s ∈ (fileMatches.foldl (RustFold.add true) .start).spans file ↔
      ∃ m ∈ fileMatches, m.file = file ∧ s ∈ m.spans := by
  rw [mem_foldl_iff (fun acc : RustFold File => acc.spans file)
    (fun m s => m.file = file ∧ s ∈ m.spans)]
  · simp only [RustFold.start, Finset.notMem_empty, false_or]
  · intro acc m s
    by_cases hfile : file = m.file
    · subst hfile
      simp [RustFold.add]
    · simp [RustFold.add, Function.update_of_ne hfile, Ne.symm hfile]

/-- The matches counted for a file of another rule. -/
theorem counts_foldl_add
    (fileMatches : List (AstCliFileMatches File)) :
    (fileMatches.foldl (RustFold.add false) .start).counts =
      (fileMatches.map fun m => (Pi.single m.file m.spans.length : File → ℕ)).sum := by
  rw [foldl_eq_add_sum RustFold.counts fun m => Pi.single m.file m.spans.length]
  · exact zero_add _
  · intro acc m
    rfl

/-- A file has a count if and only if it has a match. -/
theorem counts_foldl_add_pos_iff
    {fileMatches : List (AstCliFileMatches File)}
    {file : File} :
    0 < (fileMatches.foldl (RustFold.add false) .start).counts file ↔
      ∃ m ∈ fileMatches, m.file = file ∧ m.spans ≠ [] := by
  have hsum : (fileMatches.foldl (RustFold.add false) .start).counts file =
      (fileMatches.map fun m => (Pi.single m.file m.spans.length : File → ℕ) file).sum := by
    rw [counts_foldl_add]
    induction fileMatches with
    | nil => rfl
    | cons m fileMatches ih => rw [List.map_cons, List.sum_cons, Pi.add_apply, ih]; rfl
  rw [hsum, sum_map_pos_iff]
  refine exists_congr fun m => and_congr_right fun _ => ?_
  by_cases hfile : m.file = file
  · subst hfile
    simp [List.length_pos_iff]
  · simp [hfile, Ne.symm hfile]

/-- A composite rule has a node if and only if it has a match. -/
theorem sum_spans_pos_iff
    {fileMatches : List (AstCliFileMatches File)} :
    0 < ∑ file ∈ (fileMatches.foldl (RustFold.add true) .start).files,
        ((fileMatches.foldl (RustFold.add true) .start).spans file).card ↔
      ∃ m ∈ fileMatches, m.spans ≠ [] := by
  simp only [Finset.sum_pos_iff, mem_files_foldl_add, Finset.card_pos, Finset.Nonempty,
    mem_spans_foldl_add]
  constructor
  · rintro ⟨file, -, s, m, hm, -, hs⟩
    exact ⟨m, hm, List.ne_nil_of_mem hs⟩
  · rintro ⟨m, hm, hne⟩
    obtain ⟨s, hs⟩ := List.exists_mem_of_ne_nil _ hne
    exact ⟨m.file, ⟨m, hm, rfl⟩, s, m, hm, rfl, hs⟩

/-- Another rule has a count if and only if it has a match. -/
theorem sum_counts_pos_iff
    {fileMatches : List (AstCliFileMatches File)} :
    0 < ∑ file ∈ (fileMatches.foldl (RustFold.add false) .start).files,
        (fileMatches.foldl (RustFold.add false) .start).counts file ↔
      ∃ m ∈ fileMatches, m.spans ≠ [] := by
  simp only [Finset.sum_pos_iff, mem_files_foldl_add, counts_foldl_add_pos_iff]
  constructor
  · rintro ⟨file, -, m, hm, -, hne⟩
    exact ⟨m, hm, hne⟩
  · rintro ⟨m, hm, hne⟩
    exact ⟨m.file, ⟨m, hm, rfl⟩, m, hm, rfl, hne⟩

/-- The scan in Rust has a match for a rule if and only if it has an answer for every member and
a match in one of them. -/
theorem executeAstScanRule_pos_iff
    {ε : Type}
    {answer : Text → Except ε (List (AstCliFileMatches File))}
    {rule : RuleSpec} :
    (∃ counts, executeAstScanRule answer rule = .ok counts ∧ 0 < counts.1) ↔
      (∀ p ∈ rule.memberPatterns, ∃ found, answer p = .ok found) ∧
        ∃ p ∈ rule.memberPatterns, ∃ found, answer p = .ok found ∧
          ∃ m ∈ found, m.spans ≠ [] := by
  have hflatten : ∀ fileMatches : List (List (AstCliFileMatches File)),
      (∃ m ∈ fileMatches.flatten, m.spans ≠ []) ↔ ∃ found ∈ fileMatches, ∃ m ∈ found,
        m.spans ≠ [] := by
    intro fileMatches
    simp only [List.mem_flatten]
    constructor
    · rintro ⟨m, ⟨found, hfound, hm⟩, hne⟩
      exact ⟨found, hfound, m, hm, hne⟩
    · rintro ⟨found, hfound, m, hm, hne⟩
      exact ⟨m, ⟨found, hfound, hm⟩, hne⟩
  have hcounts : ∀ fileMatches, rule.memberPatterns.mapM answer = .ok fileMatches →
      ∃ counts, executeAstScanRule answer rule = .ok counts ∧
        (0 < counts.1 ↔ ∃ found ∈ fileMatches, ∃ m ∈ found, m.spans ≠ []) := by
    intro fileMatches hmatches
    rw [executeAstScanRule, hmatches, ← hflatten]
    cases isComposite rule with
    | true => exact ⟨_, rfl, sum_spans_pos_iff⟩
    | false => exact ⟨_, rfl, sum_counts_pos_iff⟩
  rw [← exists_mapM_mem_iff]
  constructor
  · rintro ⟨counts, hok, hpos⟩
    obtain ⟨fileMatches, hmatches, -⟩ := bind_eq_ok_iff.mp hok
    obtain ⟨counts', hok', hiff⟩ := hcounts fileMatches hmatches
    obtain rfl : counts' = counts := Except.ok.inj (hok'.symm.trans hok)
    exact ⟨fileMatches, hmatches, hiff.mp hpos⟩
  · rintro ⟨fileMatches, hmatches, hmatch⟩
    obtain ⟨counts, hok, hiff⟩ := hcounts fileMatches hmatches
    exact ⟨counts, hok, hiff.mpr hmatch⟩

end RustFolds

end Scan
end TensorGrep
