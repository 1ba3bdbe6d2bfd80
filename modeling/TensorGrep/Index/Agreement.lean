import TensorGrep.Index.FreshSearch

/-!
# Indexed search against full scan

Whether a search through the index finds what a full scan finds.
`caseSensitive_search_iff` and `ignoreCase_search_iff` answer this for the two
query modes on freshly built indexes, `indexed_complete_iff` for every index
that a run reaches.

Lines are lost in three ways: at the carriage return that ends an unterminated
last line, through characters outside ASCII that the matcher folds into it, and
in files that are too large to be indexed.
-/

namespace TensorGrep
namespace Index

open Kernel

/-! ## Lines without carriage returns -/

theorem mem_of_mem_splitOn
    {α : Type*} [DecidableEq α]
    {sep : α}
    {l piece : List α}
    {a : α}
    (hpiece : piece ∈ l.splitOn sep)
    (ha : a ∈ piece) :
    a ∈ l := by
  induction l generalizing piece with
  | nil =>
      rw [List.splitOn_nil, List.mem_singleton] at hpiece
      subst hpiece
      exact ha
  | cons b l ih =>
      rw [List.splitOn_cons_eq_if_modifyHead] at hpiece
      split_ifs at hpiece
      · rcases List.mem_cons.mp hpiece with rfl | hpiece
        · cases ha
        · exact List.mem_cons_of_mem _ (ih hpiece ha)
      · cases hs : l.splitOn sep with
        | nil => exact absurd hs (List.splitOn_ne_nil sep l)
        | cons first rest =>
            rw [hs, List.modifyHead_cons] at hpiece
            rw [hs] at ih
            rcases List.mem_cons.mp hpiece with rfl | hpiece
            · rcases List.mem_cons.mp ha with rfl | ha
              · exact List.mem_cons_self
              · exact List.mem_cons_of_mem _ (ih List.mem_cons_self ha)
            · exact List.mem_cons_of_mem _ (ih (List.mem_cons_of_mem _ hpiece) ha)

/-- Without carriage returns extraction sees the lines that are matched. -/
theorem indexedTextLine_of_lineFeedsOnly
    {content line : Text}
    {k : Nat}
    (hcr : '\r' ∉ content)
    (hline : (strLines content)[k]? = some line) :
    indexedTextLine content k = some line := by
  rcases indexedTextLine_of_strLines hline with hseen | ⟨body, -, rfl, -⟩
  · exact hseen
  · exfalso
    apply hcr
    rcases strLines_getElem?.mp hline with ⟨-, piece, hpiece, hstrip⟩ | ⟨-, hpiece, -⟩
    · refine mem_of_mem_splitOn (List.mem_of_getElem? hpiece) ?_
      have hmem : '\r' ∈ stripCr '\r' piece := by
        rw [← hstrip]
        simp
      rw [stripCr] at hmem
      split_ifs at hmem
      · exact List.mem_of_mem_dropLast hmem
      · exact hmem
    · exact mem_of_mem_splitOn (List.mem_of_getElem? hpiece) (by simp)

/-! ## Case-sensitive fixed strings -/

/-- The lower-cased trigram at the end of a pattern. -/
def lastTrigram (pattern : Bytes) : Option Trigram :=
  match (pattern.map asciiLowerByte).reverse with
  | c :: b :: a :: _ => some (a, b, c)
  | _ => none

/-- A pattern that ends in a carriage return has the trigrams of what comes before it and
its last one. -/
theorem mem_windows3_concat_cr
    {before : Text}
    {t : Trigram}
    (ht : t ∈ windows3 ((utf8 (before ++ ['\r'])).map asciiLowerByte)) :
    t ∈ windows3 ((utf8 before).map asciiLowerByte) ∨
      lastTrigram (utf8 (before ++ ['\r'])) = some t := by
  have hcr : (utf8 ['\r']).map asciiLowerByte = [13] := by decide
  rw [utf8_append, List.map_append, hcr] at ht
  rw [lastTrigram, utf8_append, List.map_append, hcr, List.reverse_append]
  generalize (utf8 before).map asciiLowerByte = v at ht ⊢
  rcases List.eq_nil_or_concat v with rfl | ⟨v, b, rfl⟩
  · cases ht
  rcases List.eq_nil_or_concat v with rfl | ⟨v, a, rfl⟩
  · cases ht
  simp only [List.concat_eq_append, List.append_assoc, List.cons_append, List.nil_append,
    List.reverse_append, List.reverse_cons, List.reverse_nil] at ht ⊢
  have ht' : t ∈ windows3 (v ++ [a, b] ++ [13]) := by simpa using ht
  rcases mem_windows3_append_one ht' with h | rfl
  · exact Or.inl h
  · exact Or.inr rfl

theorem mem_extractTrigrams_of_lastTrigram
    {pattern : Bytes}
    {t : Trigram}
    (h : lastTrigram pattern = some t) :
    t ∈ extractTrigrams pattern := by
  rw [mem_extractTrigrams]
  rw [lastTrigram] at h
  split at h
  · next c b a rest hrev =>
    cases h
    have hlower := congrArg List.reverse hrev
    rw [List.reverse_reverse] at hlower
    rw [hlower]
    have := mem_windows3_append_three rest.reverse a b c
    simpa using this
  · cases h

section CaseSensitive

variable {digest : Bytes → UInt64} {T : Tree} {m : Bool} {w : WalkRun T m}
  {idx : TrigramIndex} {U : CaseTables} {R : RegexCrate} {needle : Text}

theorem demand_caseSensitive
    (hneedle : trigramLen ≤ (utf8 needle).length) :
    demand U R needle false true = some [extractTrigrams (utf8 needle)] := by
  rw [demand, if_pos rfl, if_neg (by simp), if_neg]
  · rfl
  · rw [normalizedPattern, if_neg (by simp)]
    omega

/-- What extraction sees of a matching line contains the needle too, unless the needle
ends at the carriage return that extraction drops. -/
theorem plainMatch_or_torn
    {content line : Text}
    {k : Nat}
    (hneedle : needle ≠ [])
    (hline : (strLines content)[k]? = some line)
    (hmatch : needle <:+: line) :
    ∃ seen, indexedTextLine content k = some seen ∧
      (needle <:+: seen ∨
        (line = seen ++ ['\r'] ∧ ∃ before, needle = before ++ ['\r'] ∧ before <:+ seen)) := by
  rcases indexedTextLine_of_strLines hline with hseen | ⟨body, -, rfl, hseen⟩
  · exact ⟨line, hseen, Or.inl hmatch⟩
  · refine ⟨body, hseen, ?_⟩
    rcases infix_concat_iff.mp hmatch with hbody | hsuffix
    · exact Or.inl hbody
    · rcases List.suffix_concat_iff.mp hsuffix with hnil | ⟨before, rfl, hbefore⟩
      · exact absurd hnil hneedle
      · exact Or.inr ⟨rfl, before, rfl, hbefore⟩

/-- On a fresh index over text files, the candidates of a case-sensitive needle are
complete, and the indexed search is a full scan, exactly when the root is not a file of
the index, every match is in one of the first `2 ^ 32` files, and no match is lost at the
carriage return that ends an unterminated last line. -/
theorem caseSensitive_search_iff
    (hbuild : buildWithOptions digest T m w = .ok idx)
    (htext : TextFiles T (utf8 idx.canonicalRoot) m)
    (hneedle : trigramLen ≤ (utf8 needle).length) :
    (NoLineMissing T (utf8 idx.canonicalRoot) m (fun line => decide (needle <:+: line))
        (queryWithTrigrams idx (extractTrigrams (utf8 needle))) ∧
      ∀ order, search U R T order idx needle false true =
        (searchAllFiles U R T idx needle false true).map sortResults) ↔
    ([] ∈ T.walk m → offered T (utf8 idx.canonicalRoot) [] = false) ∧
      ∀ f rel, (offeredFiles (utf8 idx.canonicalRoot) w)[f]? = some rel → ∀ k line,
        MatchingLine T (fun line => decide (needle <:+: line))
            (walkedPath (utf8 idx.canonicalRoot) rel) k line →
          f < 2 ^ 32 ∧
            ∀ body, line = body ++ ['\r'] → needle <:+ line →
              SeenLine T (walkedPath (utf8 idx.canonicalRoot) rel) k body →
                ∀ t, lastTrigram (utf8 needle) = some t →
                  CarriedAt (utf8 idx.canonicalRoot) w f k t := by
  have hroot := canonicalRoot_ne_nil (buildWithOptions_eq_ok hbuild).1
  have hdemand := demand_caseSensitive (U := U) (R := R) hneedle
  obtain ⟨candidates, hselect, -, -⟩ :=
    candidateSelection_of_demand (listed_build hbuild) hroot hdemand
  have hcandidates : candidates = queryWithTrigrams idx (extractTrigrams (utf8 needle)) := by
    have hlen : ¬ (utf8 (normalizedPattern U needle false)).length < trigramLen := by
      rw [normalizedPattern, if_neg (by simp)]
      omega
    rw [candidateSelection, if_pos rfl, fixedStringCandidateSelection, if_neg (by simp),
      if_neg hlen, queryCandidatesFixedChecked, TrigramIndex.ensureSearchable,
      if_neg hroot] at hselect
    cases hselect
    rfl
  subst hcandidates
  have hne : needle ≠ [] := by
    rintro rfl
    cases hneedle
  refine (fresh_search_iff hbuild htext
    (fun h => by cases h) hdemand rfl
    hselect).trans (and_congr_right (fun _ => ?_))
  refine forall_congr' (fun f => forall_congr' (fun rel => forall_congr' (fun hrel =>
    forall_congr' (fun k => forall_congr' (fun line => forall_congr' (fun hline =>
      and_congr_right (fun hlt => ?_)))))))
  constructor
  · rintro hcase body - - hbody t ht
    rcases hcase with ⟨seen, hseen, hplain⟩ | ⟨ts, hts, hcarried⟩
    · have hlower : t ∈ lineTrigrams (utf8 seen) :=
        extractTrigrams_subset_of_isInfix hplain (mem_extractTrigrams_of_lastTrigram ht)
      exact carriedAt_of_seenLine hbuild htext hrel hlt hseen hlower
    · rw [List.mem_singleton.mp hts] at hcarried
      exact hcarried t (mem_extractTrigrams_of_lastTrigram ht)
  · intro htorn
    obtain ⟨content, hcontent, hk, hmatch⟩ := hline
    obtain ⟨seen, hseen, hin | ⟨hend, before, hbefore, hsuffix⟩⟩ :=
      plainMatch_or_torn hne hk (of_decide_eq_true hmatch)
    · exact Or.inl ⟨seen, ⟨content, hcontent, hseen⟩, lower_isInfix (utf8_isInfix hin)⟩
    · right
      refine ⟨_, List.mem_singleton_self _, fun t ht => ?_⟩
      rw [mem_extractTrigrams, hbefore] at ht
      have hsuffixLine : needle <:+ line := by
        rw [hend, hbefore]
        exact List.suffix_concat_iff.mpr (Or.inr ⟨before, rfl, hsuffix⟩)
      rcases mem_windows3_concat_cr ht with ht | ht
      · refine carriedAt_of_seenLine hbuild htext hrel hlt ⟨content, hcontent, hseen⟩ ?_
        exact mem_lineTrigrams.mpr (mem_windows3_of_isInfix
          (lower_isInfix (utf8_isInfix hsuffix.isInfix)) ht)
      · refine htorn seen hend hsuffixLine ⟨content, hcontent, hseen⟩ t ?_
        rw [hbefore]
        exact ht

end CaseSensitive


/-- The file `a` says `foo` and a carriage return, and no line feed. -/
def tornFile : RegularFile :=
  textFile ['f', 'o', 'o', '\r'] (by decide)

/-- The needle `oo\r` matches the only line of `tornFile`, which is not among its
candidates. -/
theorem caseSensitive_search_misses_tornFile :
    ∃ idx, buildWithOptions (fun _ => 0) (oneFileTree tornFile) false
        ((oneFileTree tornFile).walkRun false) = .ok idx ∧
      TextFiles (oneFileTree tornFile) (utf8 idx.canonicalRoot) false ∧
      ¬ NoLineMissing (oneFileTree tornFile) (utf8 idx.canonicalRoot) false
        (fun line => decide (['o', 'o', '\r'] <:+: line))
        (queryWithTrigrams idx (extractTrigrams (utf8 ['o', 'o', '\r']))) := by
  obtain ⟨idx, hbuild, hroot, -, -⟩ := exists_build_oneFileTree (fun _ => 0)
    (f := tornFile) rfl
  refine ⟨idx, hbuild, ?_, ?_⟩
  · rw [hroot]
    exact textFiles_textFile (by decide)
  · intro h
    rw [hroot] at h
    have hmem := h (utf8 ['a']) (walk_textFile.mpr rfl) offered_textFile 0
      ['f', 'o', 'o', '\r'] (matchingLine_textFile.mpr (by decide))
    obtain ⟨-, c, hc, -⟩ := mem_queryWithTrigrams.mp hmem
    have hhit := hit_of_posted_textFile hbuild (hc (111, 111, 13) (by decide))
    have hnone : (111, 111, 13) ∉
        (extractContent (utf8 ['f', 'o', 'o', '\r'])).map Prod.fst := by decide
    exact hnone (List.mem_map_of_mem hhit)

/-- The file `a` says `foo`. -/
def fooFile : RegularFile :=
  textFile ['f', 'o', 'o', '\n'] (by decide)

/-- The needle `foo` is found in `fooFile`. -/
theorem caseSensitive_search_fooFile :
    ∃ idx, buildWithOptions (fun _ => 0) (oneFileTree fooFile) false
        ((oneFileTree fooFile).walkRun false) = .ok idx ∧
      ∀ order, search kelvinTables noRegex (oneFileTree fooFile) order idx
          ['f', 'o', 'o'] false true =
        (searchAllFiles kelvinTables noRegex (oneFileTree fooFile) idx
          ['f', 'o', 'o'] false true).map sortResults := by
  obtain ⟨idx, hbuild, hroot, -, -⟩ := exists_build_oneFileTree (fun _ => 0)
    (f := fooFile) rfl
  have htext : TextFiles (oneFileTree fooFile) (utf8 idx.canonicalRoot) false := by
    rw [hroot]
    exact textFiles_textFile (by decide)
  refine ⟨idx, hbuild, ?_⟩
  refine ((caseSensitive_search_iff hbuild htext (by decide)).mpr ⟨?_, ?_⟩).2
  · intro hwalk
    cases walk_textFile.mp hwalk
  · rw [hroot]
    intro f rel hrel k line hline
    rw [fooFile, offeredFiles_textFile] at hrel
    obtain ⟨hlt, rfl⟩ := List.getElem?_eq_some_iff.mp hrel
    obtain rfl : f = 0 := by simpa using hlt
    refine ⟨by norm_num, ?_⟩
    rintro body rfl - hseen
    have hline' := indexedTextLine_of_lineFeedsOnly (by decide)
      (matchingLine_textFile.mp hline).1
    rw [seenLine_textFile.mp hseen] at hline'
    simp at hline'

/-! ## Ignoring case -/

/-- The files that the tree offers have no carriage returns. -/
def LineFeedsOnly
    (T : Tree)
    (root : Bytes)
    (m : Bool) : Prop :=
  ∀ rel ∈ T.walk m, offered T root rel = true → ∀ content,
    (T.stat (walkedPath root rel)).bind FsNode.read = some (utf8 content) →
      '\r' ∉ content

section IgnoreCase

variable {digest : Bytes → UInt64} {T : Tree} {m : Bool} {w : WalkRun T m}
  {idx : TrigramIndex} {U : CaseTables} {R : RegexCrate} {pattern : Text}
  {fixedStrings : Bool} {matcher : SearchMatcher} {lists : List (List Trigram)}

/-- On a fresh index over text files with line feeds only, the candidates of a query that
ignores case are complete, and the indexed search is a full scan, exactly when the root is
not a file of the index and every line that the matcher accepts is in one of the first
`2 ^ 32` files and contains the pattern up to ASCII case or carries the trigrams that the
query asks for. -/
theorem ignoreCase_search_iff
    (hbuild : buildWithOptions digest T m w = .ok idx)
    (htext : TextFiles T (utf8 idx.canonicalRoot) m)
    (hlf : LineFeedsOnly T (utf8 idx.canonicalRoot) m)
    (hR : fixedStrings = false → ExtractorSound R)
    (hdemand : demand U R pattern true fixedStrings = some lists)
    (hmatcher : SearchMatcher.new U R pattern true fixedStrings = .ok matcher) :
    (∃ candidates,
      candidateSelection U R idx pattern true fixedStrings = .ok (.indexed candidates) ∧
      NoLineMissing T (utf8 idx.canonicalRoot) m (matcher.isMatch U) candidates ∧
      ∀ order, search U R T order idx pattern true fixedStrings =
        (searchAllFiles U R T idx pattern true fixedStrings).map sortResults) ↔
    ([] ∈ T.walk m → offered T (utf8 idx.canonicalRoot) [] = false) ∧
      ∀ f rel, (offeredFiles (utf8 idx.canonicalRoot) w)[f]? = some rel → ∀ k line,
        MatchingLine T (matcher.isMatch U) (walkedPath (utf8 idx.canonicalRoot) rel) k line →
          f < 2 ^ 32 ∧
            (PlainMatch R pattern fixedStrings (utf8 line) ∨
              ∃ ts ∈ lists, ∀ t ∈ ts, CarriedAt (utf8 idx.canonicalRoot) w f k t) := by
  obtain ⟨candidates, hselect, -, -⟩ := candidateSelection_of_demand (listed_build hbuild)
    (canonicalRoot_ne_nil (buildWithOptions_eq_ok hbuild).1) hdemand
  have hexists : ∀ P : List Candidate → Prop,
      (∃ cs, candidateSelection U R idx pattern true fixedStrings = .ok (.indexed cs) ∧
        P cs) ↔ P candidates := by
    intro P
    rw [hselect]
    constructor
    · rintro ⟨cs, hcs, hP⟩
      cases hcs
      exact hP
    · intro hP
      exact ⟨candidates, rfl, hP⟩
  rw [hexists]
  refine (fresh_search_iff hbuild htext hR hdemand hmatcher hselect).trans
    (and_congr_right (fun _ => ?_))
  refine forall_congr' (fun f => forall_congr' (fun rel => forall_congr' (fun hrel =>
    forall_congr' (fun k => forall_congr' (fun line => forall_congr' (fun hline =>
      and_congr_right (fun _ => or_congr_left ?_)))))))
  obtain ⟨e, he, rfl⟩ := (getElem?_offeredFiles hbuild).mp hrel
  obtain ⟨hwalk, hoff⟩ := offered_of_mem_build hbuild (List.mem_of_getElem? he)
  obtain ⟨content, hcontent, hk, -⟩ := hline
  have hcr := hlf _ hwalk hoff content (readToString_eq_ok.mp hcontent)
  have hseen := indexedTextLine_of_lineFeedsOnly hcr hk
  constructor
  · rintro ⟨seen, ⟨content', hcontent', hseen'⟩, hplain⟩
    rw [hcontent] at hcontent'
    cases hcontent'
    rw [hseen] at hseen'
    cases hseen'
    exact hplain
  · intro hplain
    exact ⟨line, ⟨content, hcontent, hseen⟩, hplain⟩

end IgnoreCase

theorem lineFeedsOnly_textFile
    {content : Text}
    {hsize : (utf8 content).length < 2 ^ 63}
    (hcr : '\r' ∉ content) :
    LineFeedsOnly (oneFileTree (textFile content hsize)) (utf8 flatRoot) false := by
  intro rel hrel _ content' hcontent
  rw [walk_textFile] at hrel
  subst hrel
  rw [read_textFile] at hcontent
  rw [← utf8_injective (Option.some.inj hcontent)]
  exact hcr

/-- The file `a` says `kit` with a Kelvin sign. -/
def kelvinFile : RegularFile :=
  textFile ['\u212A', 'i', 't', '\n'] (by decide)

theorem demand_kit :
    demand kelvinTables noRegex ['k', 'i', 't'] true true =
      some [[(107, 105, 116)]] := rfl

/-- A case-insensitive `kit` matches the only line of `kelvinFile`, which is not among its
candidates. -/
theorem ignoreCase_search_misses_kelvinFile :
    ∃ idx candidates, buildWithOptions (fun _ => 0) (oneFileTree kelvinFile) false
        ((oneFileTree kelvinFile).walkRun false) = .ok idx ∧
      TextFiles (oneFileTree kelvinFile) (utf8 idx.canonicalRoot) false ∧
      LineFeedsOnly (oneFileTree kelvinFile) (utf8 idx.canonicalRoot) false ∧
      candidateSelection kelvinTables noRegex idx ['k', 'i', 't'] true true =
        .ok (.indexed candidates) ∧
      ¬ NoLineMissing (oneFileTree kelvinFile) (utf8 idx.canonicalRoot) false
        ((SearchMatcher.fixed ['k', 'i', 't'] (some ['k', 'i', 't'])).isMatch kelvinTables)
        candidates := by
  obtain ⟨idx, hbuild, hroot, -, -⟩ := exists_build_oneFileTree (fun _ => 0)
    (f := kelvinFile) rfl
  obtain ⟨candidates, hselect, -, hmem⟩ := candidateSelection_of_demand
    (listed_build hbuild) (canonicalRoot_ne_nil (buildWithOptions_eq_ok hbuild).1) demand_kit
  refine ⟨idx, candidates, hbuild, ?_, ?_, hselect, ?_⟩
  · rw [hroot]
    exact textFiles_textFile (by decide)
  · rw [hroot]
    exact lineFeedsOnly_textFile (by decide)
  · intro h
    rw [hroot] at h
    have hline := h (utf8 ['a']) (walk_textFile.mpr rfl) offered_textFile 0
      ['\u212A', 'i', 't'] (matchingLine_textFile.mpr (by decide))
    obtain ⟨ts, hts, hx⟩ := (hmem _).mp hline
    rw [List.mem_singleton] at hts
    subst hts
    obtain ⟨-, c, hc, -⟩ := mem_queryWithTrigrams.mp hx
    have hhit := hit_of_posted_textFile hbuild (hc (107, 105, 116) (by simp))
    have hnone : (107, 105, 116) ∉
        (extractContent (utf8 ['\u212A', 'i', 't', '\n'])).map Prod.fst := by decide
    exact hnone (List.mem_map_of_mem hhit)

/-- The file `a` says `KIT`. -/
def kitFile : RegularFile :=
  textFile ['K', 'I', 'T', '\n'] (by decide)

/-- A case-insensitive `kit` is found in `kitFile`. -/
theorem ignoreCase_search_kitFile :
    ∃ idx, buildWithOptions (fun _ => 0) (oneFileTree kitFile) false
        ((oneFileTree kitFile).walkRun false) = .ok idx ∧
      ∀ order, search kelvinTables noRegex (oneFileTree kitFile) order idx
          ['k', 'i', 't'] true true =
        (searchAllFiles kelvinTables noRegex (oneFileTree kitFile) idx
          ['k', 'i', 't'] true true).map sortResults := by
  obtain ⟨idx, hbuild, hroot, -, -⟩ := exists_build_oneFileTree (fun _ => 0)
    (f := kitFile) rfl
  have htext : TextFiles (oneFileTree kitFile) (utf8 idx.canonicalRoot) false := by
    rw [hroot]
    exact textFiles_textFile (by decide)
  have hlf : LineFeedsOnly (oneFileTree kitFile) (utf8 idx.canonicalRoot) false := by
    rw [hroot]
    exact lineFeedsOnly_textFile (by decide)
  refine ⟨idx, hbuild, ?_⟩
  obtain ⟨-, -, -, hsearch⟩ := (ignoreCase_search_iff (R := noRegex) hbuild htext hlf
    (fun h => by cases h) demand_kit rfl).mpr (by
      refine ⟨fun hwalk => (by cases walk_textFile.mp hwalk), ?_⟩
      rw [hroot]
      intro f rel hrel k line hline
      rw [kitFile, offeredFiles_textFile] at hrel
      obtain ⟨hlt, rfl⟩ := List.getElem?_eq_some_iff.mp hrel
      obtain rfl : f = 0 := by simpa using hlt
      have hk := (matchingLine_textFile.mp hline).1
      have hkit : line = ['K', 'I', 'T'] := by
        have hmem := List.mem_of_getElem? hk
        have hlines : strLines ['K', 'I', 'T', '\n'] = [['K', 'I', 'T']] := by decide
        rw [hlines, List.mem_singleton] at hmem
        exact hmem
      subst hkit
      refine ⟨by norm_num, Or.inl ?_⟩
      rw [PlainMatch, if_pos rfl]
      decide)
  exact hsearch

/-! ## Runs -/

section Runs

variable {digest : Bytes → UInt64} {s : Maintained} {U : CaseTables} {R : RegexCrate}
  {pattern : Text} {ignoreCase fixedStrings : Bool} {matcher : SearchMatcher}

/-- An index in order posts on a line of an active file what extraction finds there. -/
theorem Refines.posts_iff
    (hs : Refines s)
    {f k : Nat}
    {e : FileEntry}
    {t : Trigram}
    (he : s.index.files[f]? = some e)
    (hact : e.deleted = false) :
    s.index.Posts f t (k + 1) ↔ FileCarries s.tree (s.index.derefPath e.path) k t := by
  have hentry : e.stamp ∈ s.tree.active s.index.canonicalRoot s.noIgnore := by
    have hmem : e.stamp ∈ s.index.catalog.active :=
      ⟨e, mem_activeEntries.mpr ⟨List.mem_of_getElem? he, hact⟩, rfl⟩
    rw [hs.catalog] at hmem
    exact hmem
  rw [← exists_hit_iff_fileCarries]
  constructor
  · rintro ⟨p, hp, rfl, hk⟩
    have hposted : (e.path, p.line) ∈ s.index.catalog.posted t := ⟨p, hp, e, he, hact, rfl⟩
    rw [hs.catalog] at hposted
    obtain ⟨a, -, -, hmem⟩ := hposted
    exact ⟨p.line, hmem, hk⟩
  · rintro ⟨n, hn, hk⟩
    have hposted : (e.path, n) ∈ s.index.catalog.posted t := by
      rw [hs.catalog]
      exact ⟨e.stamp, hentry, rfl, hn⟩
    obtain ⟨p, hp, e', he', hact', heq⟩ := hposted
    obtain ⟨hpath, rfl⟩ := Prod.mk.inj heq
    have hfile := nodup_activeEntries_iff.mp hs.repInv.activeNodup _ _ _ _ he' he hact' hact
      hpath.symm
    exact ⟨p, hp, hfile, hk⟩

theorem candidateSelection_of_demand_none
    {idx : TrigramIndex}
    (h : demand U R pattern ignoreCase fixedStrings = none) :
    candidateSelection U R idx pattern ignoreCase fixedStrings = .ok .fullScan := by
  rw [demand] at h
  rw [candidateSelection]
  split_ifs at h ⊢ with hfixed hascii hlen
  · rw [fixedStringCandidateSelection, if_pos hascii]
  · rw [fixedStringCandidateSelection, if_neg hascii, if_pos hlen]
  · rw [Option.map_eq_none_iff] at h
    rw [regexCandidateSelection, h]

/-- The files of which extraction reads no more than the limit allows. -/
def WithinLimit
    (T : Tree)
    (file : Bytes) : Prop :=
  ∀ bytes, (T.stat file).bind FsNode.read = some bytes → bytes.length ≤ maxIndexedBytes

/-- In every state of a run with visible edits and within 32 bits: a query that the index
cannot help with scans every file, and the candidates of any other query miss no line
exactly when every file with a matching line is within the size limit and each of these
lines, as extraction sees it, contains the pattern up to ASCII case or carries the
trigrams that the query asks for. -/
theorem indexed_complete_iff
    (h : (maintenance digest).Reachable
      (fun s op => EditsVisible s op ∧ Fits32 s op) (some s))
    (hR : fixedStrings = false → ExtractorSound R) :
    (demand U R pattern ignoreCase fixedStrings = none →
      candidateSelection U R s.index pattern ignoreCase fixedStrings = .ok .fullScan) ∧
    ∀ lists, demand U R pattern ignoreCase fixedStrings = some lists →
      ∃ candidates, candidateSelection U R s.index pattern ignoreCase fixedStrings =
          .ok (.indexed candidates) ∧
        (CandidatesComplete U s.tree s.index matcher candidates ↔
          ∀ e ∈ activeEntries s.index.files, ∀ k line,
            MatchingLine s.tree (matcher.isMatch U) (s.index.derefPath e.path) k line →
              WithinLimit s.tree (s.index.derefPath e.path) ∧
                ((∃ seen, SeenLine s.tree (s.index.derefPath e.path) k seen ∧
                    PlainMatch R pattern fixedStrings (utf8 seen)) ∨
                  ∃ ts ∈ lists, ∀ t ∈ ts,
                    FileCarries s.tree (s.index.derefPath e.path) k t)) := by
  have hs := reachable_refines h
  have hidx : Listed s.index := ⟨hs.repInv.filesInv, hs.confined, fun _ => hs.repInv⟩
  refine ⟨candidateSelection_of_demand_none, ?_⟩
  intro lists hdemand
  obtain ⟨candidates, hselect, -, hmem⟩ :=
    candidateSelection_of_demand hidx (canonicalRoot_ne_nil hs.canonical) hdemand
  refine ⟨candidates, hselect, ?_⟩
  rw [candidatesComplete_iff hidx hdemand hmem]
  constructor
  · intro hall e he k line hline
    obtain ⟨hfile, hact⟩ := mem_activeEntries.mp he
    obtain ⟨f, hf⟩ := List.getElem?_of_mem hfile
    obtain ⟨ts, hts, hposts⟩ := hall f e hf hact k line hline
    have hcarries : ∀ t ∈ ts, FileCarries s.tree (s.index.derefPath e.path) k t :=
      fun t ht => (hs.posts_iff hf hact).mp (hposts t ht)
    obtain ⟨t, ht⟩ := List.exists_mem_of_ne_nil _ (ne_nil_of_mem_demand hdemand hts)
    obtain ⟨bytes, hbytes, hle, -⟩ := hcarries t ht
    refine ⟨?_, Or.inr ⟨ts, hts, hcarries⟩⟩
    intro bytes' hbytes'
    rw [hbytes] at hbytes'
    cases hbytes'
    exact hle
  · intro hall f e hf hact k line hline
    have he := mem_activeEntries.mpr ⟨List.mem_of_getElem? hf, hact⟩
    obtain ⟨hlimit, ⟨seen, ⟨content, hcontent, hseen⟩, hplain⟩ | ⟨ts, hts, hcarries⟩⟩ :=
      hall e he k line hline
    · obtain ⟨ts, hts, hlist⟩ := exists_list_of_plainMatch hR hdemand hplain
      have hread := readToString_eq_ok.mp hcontent
      refine ⟨ts, hts, fun t ht => (hs.posts_iff hf hact).mpr ?_⟩
      exact (fileCarries_iff hread).mpr ⟨hlimit _ hread, seen, hseen, hlist t ht⟩
    · exact ⟨ts, hts, fun t ht => (hs.posts_iff hf hact).mpr (hcarries t ht)⟩

end Runs

/-- The state after building an index of a directory with one text file. -/
theorem reachable_build_textFile
    {content : Text}
    {hsize : (utf8 content).length < 2 ^ 63}
    {digest : Bytes → UInt64}
    {idx : TrigramIndex}
    (hbuild : buildWithOptions digest (oneFileTree (textFile content hsize)) false
      ((oneFileTree (textFile content hsize)).walkRun false) = .ok idx) :
    (maintenance digest).Reachable (fun s op => EditsVisible s op ∧ Fits32 s op)
      (some ⟨oneFileTree (textFile content hsize), false, idx⟩) :=
  .next (.start rfl) ⟨trivial, le_trans List.countP_le_length (show 1 ≤ 2 ^ 32 by norm_num)⟩
    (.build hbuild)

theorem demand_foo :
    demand kelvinTables noRegex ['f', 'o', 'o'] false true = some [[(102, 111, 111)]] := rfl

/-- `foo` is found in a reached index of `fooFile`. -/
theorem indexed_complete_fooFile :
    ∃ (s : Maintained) (candidates : List Candidate),
      s.tree = oneFileTree fooFile ∧
      candidateSelection kelvinTables noRegex s.index ['f', 'o', 'o'] false true =
        .ok (.indexed candidates) ∧
      CandidatesComplete kelvinTables s.tree s.index (.fixed ['f', 'o', 'o'] none)
        candidates := by
  obtain ⟨idx, hbuild, hroot, -, hfiles⟩ := exists_build_oneFileTree (fun _ => 0)
    (f := fooFile) rfl
  have hreach := reachable_build_textFile hbuild
  obtain ⟨candidates, hselect, hcomplete⟩ := (indexed_complete_iff (U := kelvinTables)
    (R := noRegex) (s := ⟨oneFileTree fooFile, false, idx⟩) hreach
    (fun h => by cases h)).2 _ demand_foo
  refine ⟨_, candidates, rfl, hselect, hcomplete.mpr ?_⟩
  intro e he k line hline
  have hfile : idx.derefPath e.path = walkedPath (utf8 flatRoot) (utf8 ['a']) := by
    rw [hfiles] at he
    rw [List.mem_singleton.mp (mem_activeEntries.mp he).1, TrigramIndex.derefPath, hroot]
    rfl
  change MatchingLine (oneFileTree fooFile) _ (idx.derefPath e.path) k line at hline
  change WithinLimit (oneFileTree fooFile) (idx.derefPath e.path) ∧ _
  rw [hfile] at hline ⊢
  obtain ⟨hk, hmatch⟩ := matchingLine_textFile.mp hline
  refine ⟨?_, Or.inl ⟨line, ?_, ?_⟩⟩
  · intro bytes hbytes
    rw [fooFile, read_textFile] at hbytes
    cases hbytes
    decide
  · refine seenLine_textFile.mpr (indexedTextLine_of_lineFeedsOnly (by decide) hk)
  · exact lower_isInfix (utf8_isInfix (of_decide_eq_true hmatch))

/-- A line `foo` and then `n` times the letter `a`. -/
def paddedText (n : Nat) : Text :=
  ['f', 'o', 'o'] ++ '\n' :: List.replicate n 'a'

theorem isAsciiText_paddedText
    (n : Nat) :
    IsAsciiText (paddedText n) := by
  intro c hc
  rw [paddedText] at hc
  rcases List.mem_append.mp hc with hfoo | hrest
  · have hall : IsAsciiText ['f', 'o', 'o'] := by decide
    exact hall c hfoo
  · rcases List.mem_cons.mp hrest with rfl | hpad
    · decide
    · rw [List.eq_of_mem_replicate hpad]
      decide

theorem length_paddedText
    (n : Nat) :
    (utf8 (paddedText n)).length = n + 4 := by
  rw [utf8_length_of_isAsciiText (isAsciiText_paddedText n), paddedText, List.length_append,
    List.length_cons (a := '\n'), List.length_replicate, List.length_cons, List.length_cons,
    List.length_singleton]
  omega

theorem strLines_paddedText
    (n : Nat) :
    (strLines (paddedText n))[0]? = some ['f', 'o', 'o'] := by
  rw [strLines_getElem?, paddedText, splitOn_append_of_not_mem (by decide),
    splitOn_cons_sep]
  left
  refine ⟨?_, ['f', 'o', 'o'], rfl, by decide⟩
  simp [List.length_pos_iff, List.splitOn_ne_nil]

/-- The file `a` is four bytes too large to be indexed. -/
def oversizeFile : RegularFile :=
  textFile (paddedText maxIndexedBytes) (by
    rw [length_paddedText]
    norm_num [maxIndexedBytes])

/-- The needle `foo` matches the first line of `oversizeFile`, which is not among its
candidates. -/
theorem oversizeFile_unsearchable :
    ∃ (s : Maintained) (candidates : List Candidate),
      (maintenance (fun _ => 0)).Reachable
        (fun s op => EditsVisible s op ∧ Fits32 s op) (some s) ∧
      candidateSelection kelvinTables noRegex s.index ['f', 'o', 'o'] false true =
        .ok (.indexed candidates) ∧
      ¬ CandidatesComplete kelvinTables s.tree s.index (.fixed ['f', 'o', 'o'] none)
        candidates := by
  obtain ⟨idx, hbuild, hroot, -, hfiles⟩ := exists_build_oneFileTree (fun _ => 0)
    (f := oversizeFile) rfl
  obtain ⟨candidates, hselect, -, hmem⟩ := candidateSelection_of_demand
    (listed_build hbuild) (canonicalRoot_ne_nil (buildWithOptions_eq_ok hbuild).1) demand_foo
  refine ⟨⟨oneFileTree oversizeFile, false, idx⟩, candidates,
    reachable_build_textFile hbuild, hselect, ?_⟩
  intro hcomplete
  have hactive : (⟨['a'], 0, (FsNode.file oversizeFile).len, false⟩ : FileEntry) ∈
      activeEntries idx.files :=
    mem_activeEntries.mpr ⟨by rw [hfiles]; exact List.mem_singleton_self _, rfl⟩
  have hfile : idx.derefPath ['a'] = walkedPath (utf8 flatRoot) (utf8 ['a']) := by
    rw [TrigramIndex.derefPath, hroot]
    rfl
  have hline := hcomplete _ hactive 0 ['f', 'o', 'o'] (by
    rw [hfile]
    exact matchingLine_textFile.mpr ⟨strLines_paddedText _, by decide⟩)
  obtain ⟨ts, hts, hx⟩ := (hmem _).mp hline
  rw [List.mem_singleton.mp hts] at hx
  obtain ⟨-, c, hc, -⟩ := mem_queryWithTrigrams.mp hx
  have hhit := hit_of_posted_textFile hbuild (hc (102, 111, 111) (by simp))
  rw [extractContent, if_pos (Or.inr (by rw [length_paddedText]; omega))] at hhit
  cases hhit

end Index
end TensorGrep
