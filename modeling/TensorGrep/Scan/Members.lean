import TensorGrep.Scan.Results

/-!
# Rules with several members

Whatever bytes the member patterns of a rule match in the files, the scans of both
languages report the number of nodes that some member matches, and the number of
files with such a node (`rule_counts_union`).  So the order of the members and
repeated members do not matter, and a rule with one member has the count of its
pattern.
-/

namespace TensorGrep
namespace Scan

open Kernel AstRules

variable {File : Type}

/-! ## Matching -/

/-- Which nodes each pattern matches in each file, and how the backends list them: file by file
(`inFile`), where the matches may leave the file out, or all at once (`inFiles`). -/
structure Matching (File : Type) where
  files : List File
  spans : Text → File → Finset Span
  startLine : File → Span → ℕ
  inFile : Text → File → List Span
  inFiles : Text → List (File × Span)
  namesFile : Bool
  nodup_files : files.Nodup
  nodup_inFile : ∀ p f, (inFile p f).Nodup
  mem_inFile : ∀ p f s, s ∈ inFile p f ↔ s ∈ spans p f
  nodup_inFiles : ∀ p, (inFiles p).Nodup
  mem_inFiles : ∀ p f s, (f, s) ∈ inFiles p ↔ f ∈ files ∧ s ∈ spans p f

namespace Matching

/-- What the native backend of Rust says about a pattern. -/
def rustAnswer
    {ε : Type}
    (M : Matching File)
    (pattern : Text) : Except ε (List (AstCliFileMatches File)) :=
  .ok (searchManyForCli (M.inFile pattern) M.files)

/-- What the native backend of Python says about a pattern and a file. -/
def fileResult
    (M : Matching File)
    (pattern : Text)
    (file : File) : SearchResult File :=
  nativeResult
    ((M.inFile pattern file).map fun s =>
      ⟨M.startLine file s + 1, if M.namesFile then some file else none, some s⟩) false

/-- The results for all members and files. -/
def fileResults
    (M : Matching File)
    (members : List Text) : List (File × SearchResult File) :=
  (members ×ˢ M.files).map fun entry => (entry.2, M.fileResult entry.1 entry.2)

variable [DecidableEq File]

/-- What `ast-grep` says about a pattern. -/
def manyResult
    (M : Matching File)
    (pattern : Text) : SearchResult File :=
  parseResult
    ((M.inFiles pattern).map fun x => ⟨none, some x.1, M.startLine x.1 x.2, some x.2⟩) none false

/-- The nodes that some member matches. -/
def union
    (M : Matching File)
    (members : List Text) : Finset (File × Span) :=
  M.files.toFinset.biUnion fun file =>
    (members.toFinset.biUnion fun p => M.spans p file).image fun s => (file, s)

theorem mem_union
    {M : Matching File}
    {members : List Text}
    {file : File}
    {s : Span} :
    (file, s) ∈ M.union members ↔ file ∈ M.files ∧ ∃ p ∈ members, s ∈ M.spans p file := by
  simp [union]

theorem mem_files_of_mem_union
    {M : Matching File}
    {members : List Text}
    {x : File × Span}
    (h : x ∈ M.union members) :
    x.1 ∈ M.files :=
  (mem_union.mp h).1

omit [DecidableEq File] in
theorem inFile_ne_nil_iff
    {M : Matching File}
    {p : Text}
    {file : File} :
    M.inFile p file ≠ [] ↔ ∃ s, s ∈ M.spans p file := by
  simp only [← M.mem_inFile, List.ne_nil_iff_exists_cons]
  constructor
  · rintro ⟨s, rest, h⟩
    exact ⟨s, h ▸ List.mem_cons_self⟩
  · rintro ⟨s, hs⟩
    exact ⟨_, _, (List.cons_head_tail (List.ne_nil_of_mem hs)).symm⟩

theorem mem_image_union
    {M : Matching File}
    {members : List Text}
    {file : File} :
    file ∈ (M.union members).image Prod.fst ↔
      ∃ p ∈ members, file ∈ M.files ∧ M.inFile p file ≠ [] := by
  simp only [Finset.mem_image, inFile_ne_nil_iff]
  constructor
  · rintro ⟨⟨file, s⟩, hx, rfl⟩
    obtain ⟨hfile, p, hp, hs⟩ := mem_union.mp hx
    exact ⟨p, hp, hfile, s, hs⟩
  · rintro ⟨p, hp, hfile, s, hs⟩
    exact ⟨(file, s), mem_union.mpr ⟨hfile, p, hp, hs⟩, rfl⟩

/-- The nodes of a file that some member matches. -/
def countIn
    (M : Matching File)
    (members : List Text)
    (file : File) : ℕ :=
  ((M.union members).filter fun x => x.1 = file).card

/-- The counts of the files add up to the nodes. -/
theorem sum_countIn
    (M : Matching File)
    (members : List Text) :
    ∑ file ∈ (M.union members).image Prod.fst, M.countIn members file = (M.union members).card :=
  (Finset.card_eq_sum_card_image Prod.fst (M.union members)).symm

/-- The nodes of a file, as the native backend lists them for one pattern. -/
theorem countIn_singleton
    (M : Matching File)
    (p : Text)
    (file : File) :
    M.countIn [p] file = if file ∈ M.files then (M.inFile p file).length else 0 := by
  split
  · next hfile =>
    have hfiber : ((M.union [p]).filter fun x => x.1 = file) =
        (M.inFile p file).toFinset.image fun s => (file, s) := by
      ext ⟨file', s⟩
      simp only [Finset.mem_filter, mem_union, List.mem_singleton, exists_eq_left, Finset.mem_image,
        List.mem_toFinset, M.mem_inFile, Prod.mk.injEq]
      constructor
      · rintro ⟨⟨-, hs⟩, rfl⟩
        exact ⟨s, hs, rfl, rfl⟩
      · rintro ⟨s', hs, rfl, rfl⟩
        exact ⟨⟨hfile, hs⟩, rfl⟩
    rw [countIn, hfiber, Finset.card_image_of_injective _ (Prod.mk_right_injective file),
      List.toFinset_card_of_nodup (M.nodup_inFile p file)]
  · next hfile =>
    rw [countIn, Finset.card_eq_zero, Finset.filter_eq_empty_iff]
    rintro x hx rfl
    exact hfile (mem_files_of_mem_union hx)

/-- The matches of one pattern, file by file. -/
theorem sum_length_inFile
    (M : Matching File)
    (p : Text) :
    (M.files.map fun file => (M.inFile p file).length).sum = (M.union [p]).card := by
  have hfiles : ∀ x ∈ M.union [p], x.1 ∈ M.files.toFinset := fun x hx =>
    List.mem_toFinset.mpr (mem_files_of_mem_union hx)
  rw [Finset.card_eq_sum_card_fiberwise hfiles, ← List.sum_toFinset _ M.nodup_files]
  refine Finset.sum_congr rfl fun file hfile => ?_
  have hcount := M.countIn_singleton p file
  rw [if_pos (List.mem_toFinset.mp hfile)] at hcount
  exact hcount.symm

/-- The matches of one pattern, all at once. -/
theorem union_singleton
    (M : Matching File)
    (p : Text) :
    M.union [p] = (M.inFiles p).toFinset := by
  ext ⟨file, s⟩
  simp [mem_union, M.mem_inFiles]

/-- Only which members there are matters. -/
theorem union_congr
    (M : Matching File)
    {members members' : List Text}
    (h : ∀ p, p ∈ members ↔ p ∈ members') :
    M.union members = M.union members' := by
  ext ⟨file, s⟩
  simp only [mem_union, h]

end Matching

/-- A rule that is not composite has one member. -/
theorem memberPatterns_eq_singleton
    {rule : RuleSpec}
    (h : isComposite rule = false) :
    ∃ p, rule.memberPatterns = [p] := by
  rw [isComposite, decide_eq_false_iff_not, not_lt] at h
  rw [← List.length_eq_one_iff]
  have hpos := List.length_pos_of_ne_nil (memberPatterns_ne_nil rule)
  omega

/-! ## The fold in Rust -/

section Rust

variable [DecidableEq File]

/-- The matches of each file, one member after the other. -/
def rustMatches
    (M : Matching File)
    (members : List Text) : List (AstCliFileMatches File) :=
  members.flatMap fun p => searchManyForCli (M.inFile p) M.files

/-- The keys of the maps are the files with a node. -/
theorem files_rustFold
    (M : Matching File)
    (composite : Bool)
    (members : List Text) :
    ((rustMatches M members).foldl (RustFold.add composite) .start).files =
      (M.union members).image Prod.fst := by
  ext file
  rw [mem_files_foldl_add, Matching.mem_image_union]
  simp only [rustMatches, List.mem_flatMap, mem_searchManyForCli]
  constructor
  · rintro ⟨x, ⟨p, hp, hfile, hne, -⟩, rfl⟩
    exact ⟨p, hp, hfile, hne⟩
  · rintro ⟨p, hp, hfile, hne⟩
    exact ⟨⟨file, M.inFile p file⟩, ⟨p, hp, hfile, hne, rfl⟩, rfl⟩

/-- The bytes gathered for a file of a composite rule. -/
theorem card_spans_rustFold
    (M : Matching File)
    (members : List Text)
    (file : File) :
    (((rustMatches M members).foldl (RustFold.add true) .start).spans file).card =
      M.countIn members file := by
  have hspans : ∀ s, s ∈ ((rustMatches M members).foldl (RustFold.add true) .start).spans file ↔
      (file, s) ∈ M.union members := by
    intro s
    rw [mem_spans_foldl_add, Matching.mem_union]
    simp only [rustMatches, List.mem_flatMap, mem_searchManyForCli]
    constructor
    · rintro ⟨x, ⟨p, hp, hfile, -, hx⟩, rfl, hs⟩
      rw [hx, M.mem_inFile] at hs
      exact ⟨hfile, p, hp, hs⟩
    · rintro ⟨hfile, p, hp, hs⟩
      rw [← M.mem_inFile] at hs
      exact ⟨⟨file, M.inFile p file⟩, ⟨p, hp, hfile, List.ne_nil_of_mem hs, rfl⟩, rfl, hs⟩
  have hfiber : ((M.union members).filter fun x => x.1 = file) =
      (((rustMatches M members).foldl (RustFold.add true) .start).spans file).image
        fun s => (file, s) := by
    ext ⟨file', s⟩
    simp only [Finset.mem_filter, Finset.mem_image, hspans, Prod.mk.injEq]
    constructor
    · rintro ⟨hx, rfl⟩
      exact ⟨s, hx, rfl, rfl⟩
    · rintro ⟨s', hx, rfl, rfl⟩
      exact ⟨hx, rfl⟩
  rw [Matching.countIn, hfiber, Finset.card_image_of_injective _ (Prod.mk_right_injective file)]

/-- Files without a match add nothing to the counts. -/
theorem sum_single_searchManyForCli
    (search : File → List Span)
    (files : List File) :
    ((searchManyForCli search files).map fun x =>
        (Pi.single x.file x.spans.length : File → ℕ)).sum =
      (files.map fun file => (Pi.single file (search file).length : File → ℕ)).sum := by
  induction files with
  | nil => rfl
  | cons file files ih =>
      by_cases hempty : search file = []
      · simp [searchManyForCli, hempty, ← ih]
      · simp [searchManyForCli, hempty, ← ih]

/-- The matches counted for a file of a rule with one member. -/
theorem counts_rustFold
    (M : Matching File)
    (p : Text)
    (file : File) :
    ((rustMatches M [p]).foldl (RustFold.add false) .start).counts file = M.countIn [p] file := by
  rw [counts_foldl_add, rustMatches, List.flatMap_singleton, sum_single_searchManyForCli,
    sum_map_single M.nodup_files, M.countIn_singleton]

/-- The scan in Rust counts the nodes that some member matches, and the files with one. -/
theorem executeAstScanRule_eq
    {ε : Type}
    (M : Matching File)
    (rule : RuleSpec) :
    (executeAstScanRule M.rustAnswer rule : Except ε (ℕ × ℕ)) =
      .ok ((M.union rule.memberPatterns).card,
        ((M.union rule.memberPatterns).image Prod.fst).card) := by
  have hanswers : (rule.memberPatterns.mapM M.rustAnswer : Except ε _) =
      .ok (rule.memberPatterns.map fun p => searchManyForCli (M.inFile p) M.files) :=
    List.mapM_pure
  rw [executeAstScanRule, hanswers]
  change (if isComposite rule = true then _ else _) = _
  rw [← List.flatMap_def, ← rustMatches]
  cases hcomposite : isComposite rule with
  | true =>
      rw [if_pos rfl, files_rustFold]
      simp only [card_spans_rustFold, Matching.sum_countIn]
      rfl
  | false =>
      obtain ⟨p, hp⟩ := memberPatterns_eq_singleton hcomposite
      rw [if_neg Bool.false_ne_true, files_rustFold, hp]
      simp only [counts_rustFold, Matching.sum_countIn]
      rfl

end Rust

/-! ## The folds in Python -/

section Python

variable [DecidableEq File]

/-- What a fold has gathered for a rule: the nodes that some member matches. -/
structure Gathers
    (M : Matching File)
    (members : List Text)
    (acc : RuleFold File) : Prop where
  ruleMatches : acc.ruleMatches = (M.union members).card
  matchedFiles : acc.matchedFiles = (M.union members).image Prod.fst
  counts : ∀ file, acc.matchCountsByFile file = M.countIn members file

/-- The identity of a node in the results. -/
def nodeIdentity (x : File × Span) : Option File × NodeKey :=
  (some x.1, .bytes x.2)

omit [DecidableEq File] in
theorem nodeIdentity_injective :
    Function.Injective (nodeIdentity : File × Span → Option File × NodeKey) := by
  rintro ⟨f, s⟩ ⟨f', s'⟩ h
  simpa [nodeIdentity] using h

/-- A composite rule that has gathered the identities of the nodes. -/
theorem gathers_of_identities
    {M : Matching File}
    {members : List Text}
    {acc : RuleFold File}
    (hidentities : ∀ i, i ∈ acc.identities ↔ ∃ x ∈ M.union members, nodeIdentity x = i)
    (hfiles : acc.matchedFiles = (M.union members).image Prod.fst) :
    Gathers M members (acc.finish true) := by
  have himage : acc.identities = (M.union members).image nodeIdentity := by
    ext i
    rw [hidentities, Finset.mem_image]
  refine ⟨?_, hfiles, fun file => ?_⟩
  · change acc.identities.card = _
    rw [himage, Finset.card_image_of_injective _ nodeIdentity_injective]
  · change (acc.identities.filter fun i => i.1 = some file).card = _
    rw [himage, Finset.filter_image, Finset.card_image_of_injective _ nodeIdentity_injective,
      Matching.countIn]
    simp [nodeIdentity]

/-! ### File by file -/

omit [DecidableEq File] in
/-- A result has a hit if and only if the pattern matches in the file. -/
theorem hit_fileResult_iff
    {M : Matching File}
    {p : Text}
    {file : File} :
    0 < (M.fileResult p file).totalFiles ∨ 0 < (M.fileResult p file).totalMatches ↔
      M.inFile p file ≠ [] := by
  rw [Matching.fileResult, hit_nativeResult_iff, ne_eq, List.map_eq_nil_iff]

omit [DecidableEq File] in
theorem mem_fileResults
    {M : Matching File}
    {members : List Text}
    {entry : File × SearchResult File} :
    entry ∈ M.fileResults members ↔
      ∃ p ∈ members, ∃ file ∈ M.files, (file, M.fileResult p file) = entry := by
  simp only [Matching.fileResults, List.mem_map, List.mem_product, Prod.exists]
  constructor
  · rintro ⟨p, file, ⟨hp, hfile⟩, hentry⟩
    exact ⟨p, hp, file, hfile, hentry⟩
  · rintro ⟨p, hp, file, hfile, hentry⟩
    exact ⟨p, file, ⟨hp, hfile⟩, hentry⟩

theorem matchedFiles_foldFiles
    (M : Matching File)
    (composite : Bool)
    (members : List Text) :
    (foldAllFiles composite (M.fileResults members)).matchedFiles =
      (M.union members).image Prod.fst := by
  ext file
  simp only [Matching.fileResults, Matching.fileResult]
  rw [mem_matchedFiles_foldFiles, Matching.mem_image_union]
  simp only [ne_eq, List.map_eq_nil_iff, List.mem_product, Prod.exists]
  constructor
  · rintro ⟨p, f, ⟨hp, hfile⟩, hne, rfl⟩
    exact ⟨p, hp, hfile, hne⟩
  · rintro ⟨p, hp, hfile, hne⟩
    exact ⟨p, file, ⟨hp, hfile⟩, hne, rfl⟩

/-- The identities that a composite rule gathers file by file. -/
theorem mem_identities_foldFiles
    (M : Matching File)
    (members : List Text)
    (i : Option File × NodeKey) :
    i ∈ ((M.fileResults members).foldl (foldFile true) .start).identities ↔
      ∃ x ∈ M.union members, nodeIdentity x = i := by
  have hidentity : ∀ f s, matchNodeIdentity (some f) (⟨M.startLine f s + 1,
      if M.namesFile then some f else none, some s⟩ : MatchLine File) = nodeIdentity (f, s) := by
    intro f s
    cases M.namesFile <;> rfl
  rw [mem_foldl_iff RuleFold.identities
    (fun entry i => i ∈ entry.2.matchLines.map (matchNodeIdentity (some entry.1)))]
  · simp only [RuleFold.start, Finset.notMem_empty, false_or, mem_fileResults, List.mem_map]
    constructor
    · rintro ⟨_, ⟨p, hp, f, hfile, rfl⟩, m, hm, rfl⟩
      obtain ⟨s, hs, rfl⟩ := List.mem_map.mp hm
      exact ⟨(f, s), Matching.mem_union.mpr ⟨hfile, p, hp, (M.mem_inFile p f s).mp hs⟩,
        (hidentity f s).symm⟩
    · rintro ⟨⟨f, s⟩, hx, rfl⟩
      obtain ⟨hfile, p, hp, hs⟩ := Matching.mem_union.mp hx
      exact ⟨_, ⟨p, hp, f, hfile, rfl⟩, _,
        List.mem_map.mpr ⟨s, (M.mem_inFile p f s).mpr hs, rfl⟩, hidentity f s⟩
  · intro acc entry i
    simp [foldFile]

omit [DecidableEq File] in
/-- The results for one pattern. -/
theorem fileResults_singleton
    (M : Matching File)
    (p : Text) :
    M.fileResults [p] = M.files.map fun file => (file, M.fileResult p file) := by
  simp [Matching.fileResults, List.product_cons, Function.comp_def]

/-- A file adds its matches to the counts. -/
theorem counts_fileResult
    (M : Matching File)
    (p : Text)
    (file : File) :
    (if 0 < (M.fileResult p file).totalFiles ∨ 0 < (M.fileResult p file).totalMatches then
        Pi.single file (M.fileResult p file).totalMatches else 0 : File → ℕ) =
      Pi.single file (M.inFile p file).length := by
  have htotal : (M.fileResult p file).totalMatches = (M.inFile p file).length :=
    List.length_map _
  rw [htotal]
  split
  · rfl
  · next hhit =>
    rw [← htotal, hit_fileResult_iff, not_not] at hhit
    rw [hhit, List.length_nil, Pi.single_zero]

/-- The fold over the results for single files. -/
theorem gathers_foldAllFiles
    (M : Matching File)
    (rule : RuleSpec) :
    Gathers M rule.memberPatterns
      (foldAllFiles (isComposite rule) (M.fileResults rule.memberPatterns)) := by
  rw [foldAllFiles]
  cases hcomposite : isComposite rule with
  | true =>
      have hfiles := matchedFiles_foldFiles M true rule.memberPatterns
      rw [foldAllFiles, matchedFiles_finish] at hfiles
      exact gathers_of_identities (mem_identities_foldFiles M _) hfiles
  | false =>
      obtain ⟨p, hp⟩ := memberPatterns_eq_singleton hcomposite
      rw [hp]
      refine ⟨?_, matchedFiles_foldFiles M _ _, fun file => ?_⟩
      · change RuleFold.ruleMatches (List.foldl (foldFile false) _ _) = _
        rw [foldl_eq_add_sum RuleFold.ruleMatches fun entry => entry.2.totalMatches]
        · rw [fileResults_singleton, List.map_map, ← M.sum_length_inFile]
          simp [RuleFold.start, Function.comp_def, Matching.fileResult, nativeResult]
        · intro acc entry
          rfl
      · change RuleFold.matchCountsByFile (List.foldl (foldFile false) _ _) file = _
        rw [foldl_eq_add_sum RuleFold.matchCountsByFile fun entry =>
          if 0 < entry.2.totalFiles ∨ 0 < entry.2.totalMatches then
            Pi.single entry.1 entry.2.totalMatches else 0]
        · rw [fileResults_singleton, List.map_map, Function.comp_def]
          simp only [counts_fileResult]
          rw [Pi.add_apply, sum_map_single M.nodup_files, M.countIn_singleton]
          exact Nat.zero_add _
        · intro acc entry
          rfl

/-! ### All files at once -/

theorem matchedFiles_foldMany
    (M : Matching File)
    (composite : Bool)
    (members : List Text) :
    (foldAllMany composite (members.map M.manyResult)).matchedFiles =
      (M.union members).image Prod.fst := by
  ext file
  unfold Matching.manyResult
  rw [mem_matchedFiles_foldMany, Matching.mem_image_union]
  simp [Matching.inFile_ne_nil_iff, ← exists_and_left, ← M.mem_inFiles]

/-- The identities that a composite rule gathers from whole searches. -/
theorem mem_identities_foldMany
    (M : Matching File)
    (members : List Text)
    (i : Option File × NodeKey) :
    i ∈ ((members.map M.manyResult).foldl (foldMany true) .start).identities ↔
      ∃ x ∈ M.union members, nodeIdentity x = i := by
  have hfound : ∀ p, i ∈ (((M.manyResult p).matchLines.filter fun m => m.file.isSome).map
      (matchNodeIdentity none)).toFinset ↔ ∃ x ∈ M.inFiles p, nodeIdentity x = i := by
    intro p
    simp [Matching.manyResult, parseResult, parseItem, matchNodeIdentity, nodeIdentity]
  rw [List.foldl_map, mem_foldl_iff RuleFold.identities
    (fun p i => i ∈ (((M.manyResult p).matchLines.filter fun m => m.file.isSome).map
      (matchNodeIdentity none)).toFinset)]
  · simp only [RuleFold.start, Finset.notMem_empty, false_or, hfound]
    constructor
    · rintro ⟨p, hp, ⟨f, s⟩, hx, rfl⟩
      obtain ⟨hfile, hs⟩ := (M.mem_inFiles p f s).mp hx
      exact ⟨(f, s), Matching.mem_union.mpr ⟨hfile, p, hp, hs⟩, rfl⟩
    · rintro ⟨⟨f, s⟩, hx, rfl⟩
      obtain ⟨hfile, p, hp, hs⟩ := Matching.mem_union.mp hx
      exact ⟨p, hp, (f, s), (M.mem_inFiles p f s).mpr ⟨hfile, hs⟩, rfl⟩
  · intro acc p i
    exact Finset.mem_union

/-- The matches of one pattern in a file, as `search_many` has them. -/
theorem countsWithMatches_manyResult
    (M : Matching File)
    (p : Text)
    (file : File) :
    countsWithMatches (M.manyResult p) file = M.countIn [p] file := by
  have hfilter : (M.inFiles p).toFinset.filter (fun x => x.1 = file) =
      ((M.inFiles p).filter fun x => x.1 = file).toFinset := by
    ext x
    simp
  rw [Matching.countIn, Matching.union_singleton, hfilter,
    List.toFinset_card_of_nodup ((M.nodup_inFiles p).filter _), ← List.countP_eq_length_filter]
  simp [countsWithMatches, Matching.manyResult, parseResult, parseItem, List.countP_map,
    Function.comp_def]

/-- The fold over the results of whole searches. -/
theorem gathers_foldAllMany
    (M : Matching File)
    (rule : RuleSpec) :
    Gathers M rule.memberPatterns
      (foldAllMany (isComposite rule) (rule.memberPatterns.map M.manyResult)) := by
  rw [foldAllMany]
  cases hcomposite : isComposite rule with
  | true =>
      have hfiles := matchedFiles_foldMany M true rule.memberPatterns
      rw [foldAllMany, matchedFiles_finish] at hfiles
      exact gathers_of_identities (mem_identities_foldMany M _) hfiles
  | false =>
      obtain ⟨p, hp⟩ := memberPatterns_eq_singleton hcomposite
      rw [hp]
      refine ⟨?_, matchedFiles_foldMany M _ _, fun file => ?_⟩
      · change 0 + (M.manyResult p).totalMatches = _
        rw [Nat.zero_add, M.union_singleton, List.toFinset_card_of_nodup (M.nodup_inFiles p)]
        simp [Matching.manyResult, parseResult]
      · change 0 + countsWithMatches (M.manyResult p) file = _
        rw [Nat.zero_add, countsWithMatches_manyResult]

end Python

/-! ## Reports -/

section Reports

variable [LinearOrder File]

/-- A finding that reports these nodes: their number, their files, and for each file the number of
them in it. -/
structure Reports
    {Fingerprint : Type}
    (nodes : Finset (File × Span))
    (finding : Finding File Fingerprint) : Prop where
  matchCount : finding.matchCount = nodes.card
  files : finding.files = (nodes.image Prod.fst).sort
  evidence : finding.evidence =
    finding.files.map fun file => (file, (nodes.filter fun x => x.1 = file).card)
  evidence_sum : (finding.evidence.map Prod.snd).sum = finding.matchCount

/-- A fold that has gathered the nodes of a rule makes a finding that reports them. -/
theorem reports_appendFinding
    {Fingerprint : Type}
    {M : Matching File}
    {members : List Text}
    {acc : RuleFold File}
    (h : Gathers M members acc)
    (fingerprintOf : Text → Text → List File → Fingerprint)
    (rule : RuleSpec) :
    Reports (M.union members) (appendFinding fingerprintOf rule acc) := by
  have hevidence : (appendFinding fingerprintOf rule acc).evidence =
      ((M.union members).image Prod.fst).sort.map fun file => (file, M.countIn members file) := by
    simp only [appendFinding, h.matchedFiles, h.counts]
  have hfiles : (appendFinding fingerprintOf rule acc).files =
      ((M.union members).image Prod.fst).sort := by
    rw [← h.matchedFiles]
    rfl
  refine ⟨h.ruleMatches, hfiles, hevidence.trans (by rw [hfiles]; rfl), ?_⟩
  calc
    ((appendFinding fingerprintOf rule acc).evidence.map Prod.snd).sum
      = (((M.union members).image Prod.fst).sort.map (M.countIn members)).sum := by
        rw [hevidence, List.map_map]
        rfl
    _ = ∑ file ∈ (M.union members).image Prod.fst, M.countIn members file := by
        rw [← List.sum_toFinset _ (Finset.sort_nodup _ _), Finset.sort_toFinset]
    _ = (M.union members).card := M.sum_countIn members
    _ = (appendFinding fingerprintOf rule acc).matchCount := h.ruleMatches.symm

/-- The number of matches of one pattern, file by file. -/
def Matching.plainCount
    (M : Matching File)
    (pattern : Text) : ℕ :=
  (M.files.map fun file => (M.inFile pattern file).length).sum

/-- The scans of both languages report the nodes that some member of a rule matches.  For this it
only matters which members there are, not their order or how often they are repeated; and the nodes
of a rule with one member are the matches of its pattern. -/
theorem rule_counts_union
    {ε Fingerprint : Type}
    (M : Matching File)
    (fingerprintOf : Text → Text → List File → Fingerprint)
    (rule rule' : RuleSpec)
    (hmembers : ∀ p, p ∈ rule'.memberPatterns ↔ p ∈ rule.memberPatterns) :
    (executeAstScanRule M.rustAnswer rule' : Except ε (ℕ × ℕ)) =
        .ok ((M.union rule.memberPatterns).card,
          ((M.union rule.memberPatterns).image Prod.fst).card) ∧
      Reports (M.union rule.memberPatterns)
        (appendFinding fingerprintOf rule'
          (foldAllFiles (isComposite rule') (M.fileResults rule'.memberPatterns))) ∧
      Reports (M.union rule.memberPatterns)
        (appendFinding fingerprintOf rule'
          (foldAllMany (isComposite rule') (rule'.memberPatterns.map M.manyResult))) ∧
      ∀ p, rule.memberPatterns = [p] → (M.union rule.memberPatterns).card = M.plainCount p := by
  rw [← M.union_congr hmembers]
  refine ⟨executeAstScanRule_eq M rule',
    reports_appendFinding (gathers_foldAllFiles M rule') fingerprintOf rule',
    reports_appendFinding (gathers_foldAllMany M rule') fingerprintOf rule', ?_⟩
  intro p hp
  rw [M.union_congr hmembers, hp, Matching.plainCount, M.sum_length_inFile]

/-- Every pattern matches the first byte of one file. -/
def firstByte : Matching ℕ where
  files := [0]
  spans := fun _ file => if file = 0 then {(0, 1)} else ∅
  startLine := fun _ _ => 0
  inFile := fun _ file => if file = 0 then [(0, 1)] else []
  inFiles := fun _ => [(0, (0, 1))]
  namesFile := true
  nodup_files := List.nodup_singleton 0
  nodup_inFile := by
    intro p f
    split <;> simp
  mem_inFile := by
    intro p f s
    split <;> simp
  nodup_inFiles := fun _ => List.nodup_singleton _
  mem_inFiles := by
    intro p f s
    by_cases hf : f = 0 <;> simp [hf]

/-- A rule with these member patterns. -/
def ruleOf (members : List Text) : RuleSpec where
  id := ['r']
  pattern := members.headD []
  patterns := members
  severity := []
  message := []
  language := "python".toList

theorem rule_counts_union_repeated :
    (executeAstScanRule firstByte.rustAnswer (ruleOf [['b'], ['a'], ['b']]) :
        Except Unit (ℕ × ℕ)) = .ok (1, 1) := by
  have h := (rule_counts_union (ε := Unit) firstByte (fun _ _ _ => ()) (ruleOf [['a'], ['b']])
    (ruleOf [['b'], ['a'], ['b']]) (by simp [ruleOf, RuleSpec.memberPatterns, or_comm])).1
  rw [h]
  rfl

end Reports

end Scan
end TensorGrep
