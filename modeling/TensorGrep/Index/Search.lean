import TensorGrep.Index.Query
import TensorGrep.Index.RegexPlan

/-!
# Searching through the index

A search selects candidate lines with the trigrams of its pattern and runs the
matcher on these lines only; where the index cannot help, it runs the matcher
on every line of every indexed file.

The Unicode tables of the standard library are the parameter `CaseTables`: they
map the characters outside ASCII.  Where the files can be read, both ways of
searching give the same results exactly when no matching line is missing from
the candidates (`search_eq_of_complete`).
-/

namespace TensorGrep
namespace Index

open Kernel

/-! ## The matcher -/

/-- The Unicode tables that lower-casing consults outside ASCII. -/
structure CaseTables where
  lower : Char → Text
  cased : Char → Bool
  caseIgnorable : Char → Bool

/-- After characters that case ignores comes a cased one. -/
def caseIgnorableThenCased
    (U : CaseTables)
    (t : Text) : Bool :=
  (t.dropWhile U.caseIgnorable).head?.any U.cased

/-- Lower-case the text after the characters `before`, which are listed backwards. -/
def toLowercaseAfter
    (U : CaseTables)
    (before : Text) : Text → Text
  | [] => []
  | c :: rest =>
      (if IsAscii c then [asciiLowerChar c]
        -- a capital sigma is lower-cased by its place in the word
        else if c = 'Σ' then
          if caseIgnorableThenCased U before && !caseIgnorableThenCased U rest then ['ς']
          else ['σ']
        else U.lower c) ++ toLowercaseAfter U (c :: before) rest

/-- The standard library's `str::to_lowercase`. -/
def toLowercase
    (U : CaseTables)
    (t : Text) : Text :=
  toLowercaseAfter U [] t

/-- What decides whether a line matches. -/
inductive SearchMatcher where
  | fixed (needle : Text) (lowerNeedle : Option Text)
  | regex (accepts : Text → Bool)

namespace SearchMatcher

/-- `SearchMatcher::new`. -/
def new
    (U : CaseTables)
    (R : RegexCrate)
    (pattern : Text)
    (ignoreCase fixedStrings : Bool) : Except IndexError SearchMatcher :=
  if fixedStrings then
    .ok (.fixed pattern (if ignoreCase then some (toLowercase U pattern) else none))
  else
    match R.build pattern ignoreCase with
    | none => .error (.patternRejected pattern)
    | some accepts => .ok (.regex accepts)

/-- `SearchMatcher::is_match`. -/
def isMatch
    (U : CaseTables) : SearchMatcher → Text → Bool
  | .fixed needle none, line => decide (needle <:+: line)
  | .fixed _ (some lowerNeedle), line => decide (lowerNeedle <:+: toLowercase U line)
  | .regex accepts, line => accepts line

end SearchMatcher

/-! ## Matches of one file -/

/-- One matching line. -/
structure IndexQueryResult where
  file : Bytes
  line : Nat
  text : Text
deriving DecidableEq

/-- `read_to_string`, with the context that the search adds to its error. -/
def readToString
    (T : Tree)
    (file : Bytes) : Except IndexError Text :=
  match ((T.stat file).bind FsNode.read).bind fromUtf8 with
  | none => .error (.readFailed file)
  | some content => .ok content

/-- The match on one candidate line; numbers outside the file are skipped. -/
def matchLine
    (file : Bytes)
    (accepts : Text → Bool)
    (lines : List Text)
    (n : Nat) : Option IndexQueryResult :=
  if n = 0 ∨ lines.length < n then none
  else (lines[n - 1]?).bind (fun line =>
    if accepts line then some ⟨file, n, line⟩ else none)

/-- `collect_matches`. -/
def collectMatches
    (T : Tree)
    (file : Bytes)
    (candidateLines : Option (List Nat))
    (accepts : Text → Bool) : Except IndexError (List IndexQueryResult) :=
  (readToString T file).map (fun content =>
    match candidateLines with
    | some ns => ns.filterMap (matchLine file accepts (strLines content))
    | none => (strLines content).zipIdx.filterMap (fun e =>
        if accepts e.1 then some ⟨file, e.2 + 1, e.1⟩ else none))

/-! ## Candidate selection -/

/-- The lines to look at, or all of them. -/
inductive CandidateSelection where
  | indexed (candidates : List Candidate)
  | fullScan

/-- A fixed-string pattern as it is looked up. -/
def normalizedPattern
    (U : CaseTables)
    (pattern : Text)
    (ignoreCase : Bool) : Text :=
  if ignoreCase then toLowercase U pattern else pattern

/-- `TrigramIndex::query_candidates_fixed_checked`. -/
def queryCandidatesFixedChecked
    (U : CaseTables)
    (idx : TrigramIndex)
    (pattern : Text)
    (ignoreCase : Bool) : Except IndexError (List Candidate) := do
  idx.ensureSearchable
  .ok (queryWithTrigrams idx (extractTrigrams
    (utf8 (normalizedPattern U pattern ignoreCase))))

/-- `TrigramIndex::fixed_string_candidate_selection`. -/
def fixedStringCandidateSelection
    (U : CaseTables)
    (idx : TrigramIndex)
    (pattern : Text)
    (ignoreCase : Bool) : Except IndexError CandidateSelection :=
  if ignoreCase = true ∧ ¬ IsAsciiText pattern then .ok .fullScan
  else if (utf8 (normalizedPattern U pattern ignoreCase)).length < trigramLen then
    .ok .fullScan
  else (queryCandidatesFixedChecked U idx pattern ignoreCase).map .indexed

/-- `TrigramIndex::regex_candidate_selection`. -/
def regexCandidateSelection
    (R : RegexCrate)
    (idx : TrigramIndex)
    (pattern : Text)
    (ignoreCase : Bool) : Except IndexError CandidateSelection :=
  match selectRegexPrefilterLiterals R pattern ignoreCase with
  | none => .ok .fullScan
  | some plan => .ok (.indexed (sortDedup candidateKey
      (plan.literals.flatMap (fun l => queryWithTrigrams idx (extractTrigrams l)))))

/-- The selection that a search uses. -/
def candidateSelection
    (U : CaseTables)
    (R : RegexCrate)
    (idx : TrigramIndex)
    (pattern : Text)
    (ignoreCase fixedStrings : Bool) : Except IndexError CandidateSelection :=
  if fixedStrings then fixedStringCandidateSelection U idx pattern ignoreCase
  else regexCandidateSelection R idx pattern ignoreCase

/-! ## The two ways of searching -/

/-- The order in which a hash map of files is iterated. -/
structure HashOrder where
  visit : List (Bytes × List Nat) → List (Bytes × List Nat)
  perm : ∀ l, (visit l).Perm l

/-- The candidate lines of each file. -/
def byFile (candidates : List Candidate) : List (Bytes × List Nat) :=
  (MultiMap.pushAll (∅ : MultiMap Bytes Nat) candidates).entries.map
    (fun e => (e.1, e.2))

/-- The matches among the candidates. -/
def indexedMatches
    (T : Tree)
    (order : HashOrder)
    (candidates : List Candidate)
    (accepts : Text → Bool) : Except IndexError (List IndexQueryResult) :=
  ((order.visit (byFile candidates)).mapM (fun g =>
    collectMatches T g.1 (some g.2) accepts)).map List.flatten

/-- `TrigramIndex::search_all_files`. -/
def searchAllFiles
    (U : CaseTables)
    (R : RegexCrate)
    (T : Tree)
    (idx : TrigramIndex)
    (pattern : Text)
    (ignoreCase fixedStrings : Bool) : Except IndexError (List IndexQueryResult) := do
  let matcher ← SearchMatcher.new U R pattern ignoreCase fixedStrings
  let results ← (activeEntries idx.files).mapM (fun e =>
    collectMatches T (idx.derefPath e.path) none (matcher.isMatch U))
  .ok results.flatten

/-- Results are ordered by path, then by line. -/
def sortResults (results : List IndexQueryResult) : List IndexQueryResult :=
  sortByKey (fun r => candidateKey (r.file, r.line)) results

/-- `TrigramIndex::search`. -/
def search
    (U : CaseTables)
    (R : RegexCrate)
    (T : Tree)
    (order : HashOrder)
    (idx : TrigramIndex)
    (pattern : Text)
    (ignoreCase fixedStrings : Bool) : Except IndexError (List IndexQueryResult) := do
  idx.ensureSearchable
  let selection ← candidateSelection U R idx pattern ignoreCase fixedStrings
  match selection with
  | .indexed candidates =>
      if candidates = [] then .ok []
      else
        let matcher ← SearchMatcher.new U R pattern ignoreCase fixedStrings
        (indexedMatches T order candidates (matcher.isMatch U)).map sortResults
  | .fullScan =>
      (searchAllFiles U R T idx pattern ignoreCase fixedStrings).map sortResults

/-! ## What a search finds -/

/-- A line of a readable file that the matcher accepts, by its position. -/
def MatchingLine
    (T : Tree)
    (accepts : Text → Bool)
    (file : Bytes)
    (k : Nat)
    (line : Text) : Prop :=
  ∃ content, readToString T file = .ok content ∧
    (strLines content)[k]? = some line ∧ accepts line = true

section Results

variable {T : Tree} {accepts : Text → Bool} {file : Bytes}
  {results : List IndexQueryResult}

theorem matchLine_eq_some
    {lines : List Text}
    {n : Nat}
    {r : IndexQueryResult} :
    matchLine file accepts lines n = some r ↔
      ∃ k line, n = k + 1 ∧ lines[k]? = some line ∧ accepts line = true ∧
        r = ⟨file, k + 1, line⟩ := by
  rw [matchLine]
  split_ifs with hn
  · constructor
    · intro h
      cases h
    · rintro ⟨k, line, rfl, hline, -⟩
      have hk := (List.getElem?_eq_some_iff.mp hline).1
      omega
  · rw [Option.bind_eq_some_iff]
    constructor
    · rintro ⟨line, hline, h⟩
      split_ifs at h with hacc
      cases h
      have hpos : n = (n - 1) + 1 := by omega
      exact ⟨n - 1, line, hpos, hline, hacc, by rw [← hpos]⟩
    · rintro ⟨k, line, rfl, hline, hacc, rfl⟩
      exact ⟨line, hline, by rw [if_pos hacc]⟩

/-- A scan of a whole file finds its matching lines. -/
theorem mem_collectMatches_none
    (h : collectMatches T file none accepts = .ok results)
    {r : IndexQueryResult} :
    r ∈ results ↔ ∃ k line, MatchingLine T accepts file k line ∧ r = ⟨file, k + 1, line⟩ := by
  obtain ⟨content, hread, rfl⟩ := map_eq_ok_iff.mp h
  rw [List.mem_filterMap]
  constructor
  · rintro ⟨⟨line, k⟩, he, hr⟩
    split_ifs at hr with hacc
    cases hr
    exact ⟨k, line, ⟨content, hread, List.mk_mem_zipIdx_iff_getElem?.mp he, hacc⟩, rfl⟩
  · rintro ⟨k, line, ⟨content', hread', hline, hacc⟩, rfl⟩
    rw [hread] at hread'
    cases hread'
    exact ⟨(line, k), List.mk_mem_zipIdx_iff_getElem?.mpr hline, by rw [if_pos hacc]⟩

/-- A scan of some lines finds the matching ones among them. -/
theorem mem_collectMatches_some
    {ns : List Nat}
    (h : collectMatches T file (some ns) accepts = .ok results)
    {r : IndexQueryResult} :
    r ∈ results ↔ ∃ k line, k + 1 ∈ ns ∧ MatchingLine T accepts file k line ∧
      r = ⟨file, k + 1, line⟩ := by
  obtain ⟨content, hread, rfl⟩ := map_eq_ok_iff.mp h
  rw [List.mem_filterMap]
  constructor
  · rintro ⟨n, hn, hr⟩
    obtain ⟨k, line, rfl, hline, hacc, rfl⟩ := matchLine_eq_some.mp hr
    exact ⟨k, line, hn, ⟨content, hread, hline, hacc⟩, rfl⟩
  · rintro ⟨k, line, hk, ⟨content', hread', hline, hacc⟩, rfl⟩
    rw [hread] at hread'
    cases hread'
    exact ⟨k + 1, hk, matchLine_eq_some.mpr ⟨k, line, rfl, hline, hacc, rfl⟩⟩

theorem nodup_collectMatches_none
    (h : collectMatches T file none accepts = .ok results) :
    results.Nodup := by
  obtain ⟨content, -, rfl⟩ := map_eq_ok_iff.mp h
  have hnodup : (strLines content).zipIdx.Nodup :=
    List.Nodup.of_map Prod.snd (List.nodup_zipIdx_map_snd _)
  refine hnodup.filterMap ?_
  rintro ⟨line, k⟩ ⟨line', k'⟩ r hr hr'
  simp only [Option.mem_def] at hr hr'
  split_ifs at hr hr'
  cases hr
  cases hr'
  rfl

theorem nodup_collectMatches_some
    {ns : List Nat}
    (hns : ns.Nodup)
    (h : collectMatches T file (some ns) accepts = .ok results) :
    results.Nodup := by
  obtain ⟨content, -, rfl⟩ := map_eq_ok_iff.mp h
  refine hns.filterMap ?_
  intro n n' r hr hr'
  obtain ⟨k, line, rfl, -, -, rfl⟩ := matchLine_eq_some.mp hr
  obtain ⟨k', line', rfl, -, -, heq⟩ := matchLine_eq_some.mp hr'
  cases heq
  rfl

/-- A readable file can be scanned. -/
theorem exists_collectMatches
    {content : Text}
    (hread : readToString T file = .ok content)
    (candidateLines : Option (List Nat)) :
    ∃ results, collectMatches T file candidateLines accepts = .ok results :=
  ⟨_, map_eq_ok_iff.mpr ⟨content, hread, rfl⟩⟩

end Results

/-- Results collected from different files are different. -/
theorem nodup_flatten_of_forall₂
    {α : Type*}
    {R : α → List IndexQueryResult → Prop}
    (file : α → Bytes)
    {l : List α}
    {parts : List (List IndexQueryResult)}
    (h : List.Forall₂ R l parts)
    (hpart : ∀ a ∈ l, ∀ part, R a part → part.Nodup ∧ ∀ r ∈ part, r.file = file a)
    (hfiles : (l.map file).Nodup) :
    parts.flatten.Nodup := by
  induction h with
  | nil => simp
  | @cons a part l parts hR hrest ih =>
      rw [List.map_cons, List.nodup_cons] at hfiles
      obtain ⟨hnew, hfiles⟩ := hfiles
      obtain ⟨hnodup, hfile⟩ := hpart a (by simp) part hR
      have htail := ih (fun b hb => hpart b (List.mem_cons_of_mem _ hb)) hfiles
      rw [List.flatten_cons, List.nodup_append]
      refine ⟨hnodup, htail, ?_⟩
      intro r hr r' hr' heq
      subst heq
      obtain ⟨part', hpart', hrp⟩ := List.mem_flatten.mp hr'
      obtain ⟨b, hb, hRb⟩ := exists_left_of_forall₂ hrest hpart'
      have hfb := (hpart b (List.mem_cons_of_mem _ hb) part' hRb).2 r hrp
      apply hnew
      rw [← hfile r hr, hfb]
      exact List.mem_map_of_mem hb

/-! ## Candidates by file -/

theorem mem_byFile
    {candidates : List Candidate}
    {g : Bytes × List Nat}
    (h : g ∈ byFile candidates) :
    g.2 = (candidates.filter (fun c => c.1 = g.1)).map Prod.snd ∧ g.2 ≠ [] := by
  obtain ⟨⟨file, ns⟩, hns, rfl⟩ := List.mem_map.mp h
  have hlookup := MultiMap.mem_entries_iff.mp hns
  refine ⟨?_, MultiMap.ne_nil_of_lookup_pushAll_empty hlookup⟩
  have hget := MultiMap.get_pushAll (∅ : MultiMap Bytes Nat) candidates file
  rw [MultiMap.get_eq_of_lookup hlookup, MultiMap.get_empty, List.nil_append] at hget
  exact hget

theorem nodup_byFile_files
    (candidates : List Candidate) :
    ((byFile candidates).map Prod.fst).Nodup := by
  rw [byFile, List.map_map]
  exact (MultiMap.pushAll (∅ : MultiMap Bytes Nat) candidates).nodupKeys

theorem exists_mem_byFile
    {candidates : List Candidate}
    {c : Candidate}
    (h : c ∈ candidates) :
    ∃ ns, (c.1, ns) ∈ byFile candidates := by
  have hsome := MultiMap.lookup_pushAll_empty_isSome_iff.mpr ⟨c, h, rfl⟩
  obtain ⟨ns, hns⟩ := Option.isSome_iff_exists.mp hsome
  exact ⟨ns, List.mem_map.mpr ⟨⟨c.1, ns⟩, MultiMap.mem_entries_iff.mpr hns, rfl⟩⟩

theorem mem_lines_of_mem_byFile
    {candidates : List Candidate}
    {g : Bytes × List Nat}
    (h : g ∈ byFile candidates)
    {n : Nat} :
    n ∈ g.2 ↔ (g.1, n) ∈ candidates := by
  rw [(mem_byFile h).1, List.mem_map]
  constructor
  · rintro ⟨⟨file, k⟩, hc, rfl⟩
    obtain ⟨hc, hfile⟩ := List.mem_filter.mp hc
    simp only [decide_eq_true_eq] at hfile
    rw [← hfile]
    exact hc
  · intro hc
    exact ⟨(g.1, n), List.mem_filter.mpr ⟨hc, by simp⟩, rfl⟩

theorem nodup_lines_of_mem_byFile
    {candidates : List Candidate}
    (hnodup : candidates.Nodup)
    {g : Bytes × List Nat}
    (h : g ∈ byFile candidates) :
    g.2.Nodup := by
  rw [(mem_byFile h).1]
  refine List.Nodup.map_on ?_ (hnodup.filter _)
  rintro ⟨file, n⟩ hc ⟨file', n'⟩ hc' hn
  have hfile := (List.mem_filter.mp hc).2
  have hfile' := (List.mem_filter.mp hc').2
  simp only [decide_eq_true_eq] at hfile hfile'
  simp only at hn
  rw [hfile, hfile', hn]

/-! ## Both ways of searching -/

section Searching

variable {U : CaseTables} {R : RegexCrate} {T : Tree} {idx : TrigramIndex}
  {pattern : Text} {ignoreCase fixedStrings : Bool} {matcher : SearchMatcher}
  {candidates : List Candidate}

/-- No matching line of an indexed file is missing from the candidates. -/
def CandidatesComplete
    (U : CaseTables)
    (T : Tree)
    (idx : TrigramIndex)
    (matcher : SearchMatcher)
    (candidates : List Candidate) : Prop :=
  ∀ e ∈ activeEntries idx.files, ∀ k line,
    MatchingLine T (matcher.isMatch U) (idx.derefPath e.path) k line →
      (idx.derefPath e.path, k + 1) ∈ candidates

theorem nodup_activeFiles
    (hidx : Listed idx) :
    ((activeEntries idx.files).map (fun e => idx.derefPath e.path)).Nodup := by
  have hpaths := hidx.filesInv.activeNodup
  rw [List.nodup_map_iff_inj_on hpaths.of_map]
  intro e he e' he' h
  have hsame := derefPath_injOn hidx (mem_activeEntries.mp he).1
    (mem_activeEntries.mp he').1 h
  exact List.inj_on_of_nodup_map hpaths he he' hsame

/-- What a scan of all files finds. -/
theorem mem_searchAllFiles
    (hidx : Listed idx)
    (hmatcher : SearchMatcher.new U R pattern ignoreCase fixedStrings = .ok matcher)
    {results : List IndexQueryResult}
    (h : searchAllFiles U R T idx pattern ignoreCase fixedStrings = .ok results) :
    results.Nodup ∧ ∀ r, r ∈ results ↔
      ∃ e ∈ activeEntries idx.files, ∃ k line,
        MatchingLine T (matcher.isMatch U) (idx.derefPath e.path) k line ∧
          r = ⟨idx.derefPath e.path, k + 1, line⟩ := by
  obtain ⟨matcher', hmatcher', h⟩ := bind_eq_ok_iff.mp h
  obtain ⟨parts, hparts, h⟩ := bind_eq_ok_iff.mp h
  cases h
  rw [hmatcher] at hmatcher'
  cases hmatcher'
  have hall := mapM_eq_ok_iff.mp hparts
  refine ⟨?_, ?_⟩
  · refine nodup_flatten_of_forall₂ _ hall ?_ (nodup_activeFiles hidx)
    intro e _ part hpart
    refine ⟨nodup_collectMatches_none hpart, ?_⟩
    intro r hr
    obtain ⟨k, line, -, rfl⟩ := (mem_collectMatches_none hpart).mp hr
    rfl
  · intro r
    rw [List.mem_flatten]
    constructor
    · rintro ⟨part, hpart, hr⟩
      obtain ⟨e, he, hcollect⟩ := exists_left_of_forall₂ hall hpart
      exact ⟨e, he, (mem_collectMatches_none hcollect).mp hr⟩
    · rintro ⟨e, he, hr⟩
      obtain ⟨part, hpart, hcollect⟩ := exists_right_of_forall₂ hall he
      exact ⟨part, hpart, (mem_collectMatches_none hcollect).mpr hr⟩

/-- What the matcher finds among the candidates. -/
theorem mem_indexedMatches
    {accepts : Text → Bool}
    {order : HashOrder}
    (hnodup : candidates.Nodup)
    {results : List IndexQueryResult}
    (h : indexedMatches T order candidates accepts = .ok results) :
    results.Nodup ∧ ∀ r, r ∈ results ↔
      ∃ file k line, (file, k + 1) ∈ candidates ∧ MatchingLine T accepts file k line ∧
        r = ⟨file, k + 1, line⟩ := by
  obtain ⟨parts, hparts, rfl⟩ := map_eq_ok_iff.mp h
  have hall := mapM_eq_ok_iff.mp hparts
  have hvisit : ∀ g, g ∈ order.visit (byFile candidates) ↔ g ∈ byFile candidates :=
    fun g => (order.perm _).mem_iff
  refine ⟨?_, ?_⟩
  · refine nodup_flatten_of_forall₂ Prod.fst hall ?_ ?_
    · intro g hg part hpart
      have hns := nodup_lines_of_mem_byFile hnodup ((hvisit g).mp hg)
      refine ⟨nodup_collectMatches_some hns hpart, ?_⟩
      intro r hr
      obtain ⟨k, line, -, -, rfl⟩ := (mem_collectMatches_some hpart).mp hr
      rfl
    · rw [((order.perm _).map Prod.fst).nodup_iff]
      exact nodup_byFile_files candidates
  · intro r
    rw [List.mem_flatten]
    constructor
    · rintro ⟨part, hpart, hr⟩
      obtain ⟨g, hg, hcollect⟩ := exists_left_of_forall₂ hall hpart
      obtain ⟨k, line, hk, hline, rfl⟩ := (mem_collectMatches_some hcollect).mp hr
      exact ⟨g.1, k, line, (mem_lines_of_mem_byFile ((hvisit g).mp hg)).mp hk, hline, rfl⟩
    · rintro ⟨file, k, line, hc, hline, rfl⟩
      obtain ⟨ns, hg⟩ := exists_mem_byFile hc
      obtain ⟨part, hpart, hcollect⟩ := exists_right_of_forall₂ hall ((hvisit _).mpr hg)
      exact ⟨part, hpart, (mem_collectMatches_some hcollect).mpr
        ⟨k, line, (mem_lines_of_mem_byFile hg).mpr hc, hline, rfl⟩⟩

/-- Where all files can be read, complete candidates give the results of a full scan. -/
theorem search_eq_of_complete
    (hidx : Listed idx)
    (hroot : idx.canonicalRoot ≠ [])
    (order : HashOrder)
    (hmatcher : SearchMatcher.new U R pattern ignoreCase fixedStrings = .ok matcher)
    (hselect : candidateSelection U R idx pattern ignoreCase fixedStrings =
      .ok (.indexed candidates))
    (hnodup : candidates.Nodup)
    (hentries : ∀ c ∈ candidates, ∃ e ∈ activeEntries idx.files, c.1 = idx.derefPath e.path)
    (hread : ∀ e ∈ activeEntries idx.files,
      ∃ content, readToString T (idx.derefPath e.path) = .ok content)
    (hcomplete : CandidatesComplete U T idx matcher candidates) :
    search U R T order idx pattern ignoreCase fixedStrings =
      (searchAllFiles U R T idx pattern ignoreCase fixedStrings).map sortResults := by
  obtain ⟨parts, hparts⟩ : ∃ parts, (activeEntries idx.files).mapM (fun e =>
      collectMatches T (idx.derefPath e.path) none (matcher.isMatch U)) = .ok parts := by
    refine exists_mapM (fun e he => ?_)
    obtain ⟨content, hcontent⟩ := hread e he
    exact exists_collectMatches hcontent none
  have hall : searchAllFiles U R T idx pattern ignoreCase fixedStrings =
      .ok parts.flatten :=
    bind_eq_ok_iff.mpr ⟨matcher, hmatcher, bind_eq_ok_iff.mpr ⟨parts, hparts, rfl⟩⟩
  obtain ⟨hallNodup, hallMem⟩ := mem_searchAllFiles hidx hmatcher hall
  have hensure : idx.ensureSearchable = .ok () := by
    rw [TrigramIndex.ensureSearchable, if_neg hroot]
  have hsearch : search U R T order idx pattern ignoreCase fixedStrings =
      if candidates = [] then .ok []
      else (indexedMatches T order candidates (matcher.isMatch U)).map sortResults := by
    rw [search, hensure, hselect, hmatcher]
    rfl
  rw [hsearch, hall]
  split_ifs with hnil
  · have hempty : parts.flatten = [] := by
      rw [List.eq_nil_iff_forall_not_mem]
      intro r hr
      obtain ⟨e, he, k, line, hline, -⟩ := (hallMem r).mp hr
      have hmem := hcomplete e he k line hline
      rw [hnil] at hmem
      cases hmem
    rw [hempty]
    rfl
  · obtain ⟨groups, hgroups⟩ : ∃ groups, (order.visit (byFile candidates)).mapM (fun g =>
        collectMatches T g.1 (some g.2) (matcher.isMatch U)) = .ok groups := by
      refine exists_mapM (fun g hg => ?_)
      have hg' : g ∈ byFile candidates := (order.perm _).mem_iff.mp hg
      obtain ⟨n, hn⟩ := List.exists_mem_of_ne_nil _ (mem_byFile hg').2
      obtain ⟨e, he, hfile⟩ := hentries _ ((mem_lines_of_mem_byFile hg').mp hn)
      obtain ⟨content, hcontent⟩ := hread e he
      rw [← hfile] at hcontent
      exact exists_collectMatches hcontent (some g.2)
    have hindexed : indexedMatches T order candidates (matcher.isMatch U) =
        .ok groups.flatten :=
      map_eq_ok_iff.mpr ⟨groups, hgroups, rfl⟩
    obtain ⟨hindexedNodup, hindexedMem⟩ := mem_indexedMatches hnodup hindexed
    rw [hindexed]
    have hperm : groups.flatten.Perm parts.flatten := by
      rw [List.perm_ext_iff_of_nodup hindexedNodup hallNodup]
      intro r
      rw [hindexedMem, hallMem]
      constructor
      · rintro ⟨file, k, line, hc, hline, rfl⟩
        obtain ⟨e, he, rfl⟩ := hentries _ hc
        exact ⟨e, he, k, line, hline, rfl⟩
      · rintro ⟨e, he, k, line, hline, rfl⟩
        exact ⟨_, k, line, hcomplete e he k line hline, hline, rfl⟩
    refine congrArg Except.ok (sortByKey_eq_of_perm_of_injOn ?_ hperm)
    intro r hr r' hr' hkey
    obtain ⟨file, k, line, -, ⟨content, hcontent, hline, -⟩, rfl⟩ := (hindexedMem r).mp hr
    obtain ⟨file', k', line', -, ⟨content', hcontent', hline', -⟩, rfl⟩ :=
      (hindexedMem r').mp hr'
    obtain ⟨rfl, hk⟩ := Prod.mk.inj (candidateKey_injective hkey)
    rw [hcontent] at hcontent'
    cases hcontent'
    cases hk
    rw [hline] at hline'
    cases hline'
    rfl

end Searching

end Index
end TensorGrep
