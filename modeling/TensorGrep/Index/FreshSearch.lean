import TensorGrep.Index.Completeness
import TensorGrep.Index.Repair

/-!
# Searching a freshly built index

What the candidates of a freshly built index are, for any number of files:
identifiers are narrowed to 32 bits, so a file carries under its number the
trigrams of every file whose position differs from its own by a multiple of
`2 ^ 32` (`CarriedAt`).

`fresh_search_iff` says for every query that the index can help with when the
candidates miss no matching line and the indexed search is a full scan.
-/

namespace TensorGrep
namespace Index

open Kernel

/-- Every file that the tree offers is a readable UTF-8 text within the size limit. -/
def TextFiles
    (T : Tree)
    (root : Bytes)
    (m : Bool) : Prop :=
  ∀ rel ∈ T.walk m, offered T root rel = true →
    ∃ content, (T.stat (walkedPath root rel)).bind FsNode.read = some (utf8 content) ∧
      (utf8 content).length ≤ maxIndexedBytes

/-- The line of a file as extraction sees it. -/
def SeenLine
    (T : Tree)
    (file : Bytes)
    (k : Nat)
    (line : Text) : Prop :=
  ∃ content, readToString T file = .ok content ∧ indexedTextLine content k = some line

/-- Every matching line of a file that the tree offers is among the candidates. -/
def NoLineMissing
    (T : Tree)
    (root : Bytes)
    (m : Bool)
    (accepts : Text → Bool)
    (candidates : List Candidate) : Prop :=
  ∀ rel ∈ T.walk m, offered T root rel = true → ∀ k line,
    MatchingLine T accepts (walkedPath root rel) k line →
      (walkedPath root rel, k + 1) ∈ candidates

/-- The files that a walk offers to the index, in order. -/
def offeredFiles
    {T : Tree}
    {m : Bool}
    (root : Bytes)
    (w : WalkRun T m) : List Bytes :=
  w.full.filter (offered T root)

/-- A trigram is posted on a line under the number of a file: some file whose position is
that number up to a multiple of `2 ^ 32` carries it. -/
def CarriedAt
    {T : Tree}
    {m : Bool}
    (root : Bytes)
    (w : WalkRun T m)
    (f k : Nat)
    (t : Trigram) : Prop :=
  ∃ g rel, (offeredFiles root w)[g]? = some rel ∧ g % 2 ^ 32 = f ∧
    FileCarries T (walkedPath root rel) k t

section Fresh

variable {digest : Bytes → UInt64} {T : Tree} {m : Bool} {w : WalkRun T m}
  {idx : TrigramIndex} {U : CaseTables} {R : RegexCrate} {pattern : Text}
  {ignoreCase fixedStrings : Bool} {matcher : SearchMatcher}

/-- The posting lists of a build, for any number of files. -/
theorem mem_get_build
    (h : buildWithOptions digest T m w = .ok idx)
    {t : Trigram}
    {p : PostingEntry} :
    p ∈ idx.postings.get t ↔
      ∃ g e, idx.files[g]? = some e ∧ UInt32.ofNat g = p.fileId ∧
        (t, p.line) ∈ pathHits T idx.canonicalRoot e.path := by
  obtain ⟨-, -, -, -, s, hs, -, hpost⟩ := buildWithOptions_eq_ok h
  rw [hpost, mem_get_normalizePostings, hs, foldl_assemble_snd, MultiMap.mem_get_pushAll,
    MultiMap.get_empty]
  simp only [List.not_mem_nil, false_or, List.mem_flatMap, numberHits, List.mem_map,
    filePostings]
  constructor
  · rintro ⟨x, ⟨⟨hits, g⟩, hx, rfl⟩, ⟨t', n⟩, hn, heq⟩
    rw [List.mk_mem_zipIdx_iff_getElem?, List.getElem?_map] at hx
    obtain ⟨e, he, rfl⟩ := Option.map_eq_some_iff.mp hx
    cases heq
    exact ⟨g, e, he, rfl, hn⟩
  · rintro ⟨g, e, he, hid, hn⟩
    refine ⟨(UInt32.ofNat g, pathHits T idx.canonicalRoot e.path),
      ⟨(pathHits T idx.canonicalRoot e.path, g), ?_, rfl⟩, (t, p.line), hn, ?_⟩
    · rw [List.mk_mem_zipIdx_iff_getElem?, List.getElem?_map, he, Option.map_some]
    · rw [hid]

/-- What a build posts on a line, for any number of files. -/
theorem build_posts
    (h : buildWithOptions digest T m w = .ok idx)
    {f k : Nat}
    {t : Trigram} :
    idx.Posts f t (k + 1) ↔
      ∃ g e, idx.files[g]? = some e ∧ g % 2 ^ 32 = f ∧
        FileCarries T (idx.derefPath e.path) k t := by
  rw [TrigramIndex.Posts]
  constructor
  · rintro ⟨p, hp, rfl, hk⟩
    obtain ⟨g, e, he, hid, hn⟩ := (mem_get_build h).mp hp
    refine ⟨g, e, he, ?_, exists_hit_iff_fileCarries.mp ⟨p.line, hn, hk⟩⟩
    rw [← hid, UInt32.toNat_ofNat']
  · rintro ⟨g, e, he, rfl, hcarries⟩
    obtain ⟨n, hn, hk⟩ := exists_hit_iff_fileCarries.mpr hcarries
    exact ⟨⟨UInt32.ofNat g, n⟩, (mem_get_build h).mpr ⟨g, e, he, rfl, hn⟩,
      UInt32.toNat_ofNat', hk⟩

theorem getElem?_offeredFiles
    (h : buildWithOptions digest T m w = .ok idx)
    {f : Nat}
    {rel : Bytes} :
    (offeredFiles (utf8 idx.canonicalRoot) w)[f]? = some rel ↔
      ∃ e, idx.files[f]? = some e ∧ utf8 e.path = rel := by
  obtain ⟨hroot, hentries, -⟩ := buildWithOptions_eq_ok h
  rw [offeredFiles, ← map_path_currentEntries hroot hentries, List.getElem?_map,
    Option.map_eq_some_iff]

end Fresh

section Search

variable {digest : Bytes → UInt64} {T : Tree} {m : Bool} {w : WalkRun T m}
  {idx : TrigramIndex} {U : CaseTables} {R : RegexCrate} {pattern : Text}
  {ignoreCase fixedStrings : Bool} {matcher : SearchMatcher}
  {candidates : List Candidate} {lists : List (List Trigram)}

theorem canonicalRoot_ne_nil
    (h : T.canonical = some (utf8 idx.canonicalRoot)) :
    idx.canonicalRoot ≠ [] := by
  intro hnil
  apply canonical_ne_nil h
  rw [hnil]
  rfl

/-- The entries of a build are files that the tree offers. -/
theorem offered_of_mem_build
    (hbuild : buildWithOptions digest T m w = .ok idx)
    {e : FileEntry}
    (he : e ∈ idx.files) :
    utf8 e.path ∈ T.walk m ∧
      offered T (utf8 idx.canonicalRoot) (utf8 e.path) = true := by
  obtain ⟨hroot, hentries, -⟩ := buildWithOptions_eq_ok hbuild
  have hmem : utf8 e.path ∈ idx.files.map (fun e => utf8 e.path) := List.mem_map_of_mem he
  rw [map_path_currentEntries hroot hentries] at hmem
  exact ⟨w.mem_full.mp (List.mem_filter.mp hmem).1, (List.mem_filter.mp hmem).2⟩

theorem exists_entry_of_offered
    (hbuild : buildWithOptions digest T m w = .ok idx)
    {rel : Bytes}
    (hwalk : rel ∈ T.walk m)
    (hrel : offered T (utf8 idx.canonicalRoot) rel = true) :
    ∃ e ∈ activeEntries idx.files, utf8 e.path = rel := by
  obtain ⟨hroot, hentries, -⟩ := buildWithOptions_eq_ok hbuild
  have hmem : rel ∈ w.full.filter (offered T (utf8 idx.canonicalRoot)) :=
    List.mem_filter.mpr ⟨w.mem_full.mpr hwalk, hrel⟩
  rw [← map_path_currentEntries hroot hentries] at hmem
  obtain ⟨e, he, hpath⟩ := List.mem_map.mp hmem
  exact ⟨e, mem_activeEntries.mpr ⟨he, currentEntries_not_deleted hentries he⟩, hpath⟩

/-- A trigram of a line, as extraction sees it, is carried under the number of its file. -/
theorem carriedAt_of_seenLine
    (hbuild : buildWithOptions digest T m w = .ok idx)
    (htext : TextFiles T (utf8 idx.canonicalRoot) m)
    {f k : Nat}
    {rel : Bytes}
    {seen : Text}
    {t : Trigram}
    (hrel : (offeredFiles (utf8 idx.canonicalRoot) w)[f]? = some rel)
    (hlt : f < 2 ^ 32)
    (hseen : SeenLine T (walkedPath (utf8 idx.canonicalRoot) rel) k seen)
    (ht : t ∈ lineTrigrams (utf8 seen)) :
    CarriedAt (utf8 idx.canonicalRoot) w f k t := by
  obtain ⟨e, he, rfl⟩ := (getElem?_offeredFiles hbuild).mp hrel
  obtain ⟨hwalk, hoffered⟩ := offered_of_mem_build hbuild (List.mem_of_getElem? he)
  obtain ⟨content, hread, hsize⟩ := htext _ hwalk hoffered
  obtain ⟨content', hcontent, hline⟩ := hseen
  rw [readToString_eq_ok, hread] at hcontent
  have hsame : content' = content := (utf8_injective (Option.some.inj hcontent)).symm
  subst hsame
  exact ⟨f, _, hrel, Nat.mod_eq_of_lt hlt,
    (fileCarries_iff hread).mpr ⟨hsize, seen, hline, ht⟩⟩

/-- The entries of an index whose root is a regular file cannot be opened. -/
theorem stat_derefPath_of_root_offered
    (hbuild : buildWithOptions digest T m w = .ok idx)
    (hwalk : [] ∈ T.walk m)
    (hoff : offered T (utf8 idx.canonicalRoot) [] = true) :
    (∃ e ∈ activeEntries idx.files, utf8 e.path = []) ∧
      ∀ e ∈ idx.files, T.stat (idx.derefPath e.path) = none := by
  obtain ⟨hroot, hentries, -⟩ := buildWithOptions_eq_ok hbuild
  obtain ⟨f, hf⟩ : ∃ f, T.stat (utf8 idx.canonicalRoot) = some (.file f) := by
    rw [offered, walkedPath, if_pos rfl, Option.any_eq_true] at hoff
    obtain ⟨node, hnode, -⟩ := hoff
    have hisFile := T.walk_isFile _ m hroot [] hwalk node (by rw [if_pos rfl]; exact hnode)
    cases node with
    | dir => cases hisFile
    | file f => exact ⟨f, hnode⟩
  refine ⟨exists_entry_of_offered hbuild hwalk hoff, ?_⟩
  · intro e he
    have hnil := T.walk_of_file _ f m hroot hf _ (currentEntries_path_mem hroot hentries he)
    rw [TrigramIndex.derefPath, hnil]
    exact T.stat_file_slash _ f hroot hf

/-- A search through the index of a regular file finds nothing where a full scan fails. -/
theorem search_ne_of_root_offered
    (hbuild : buildWithOptions digest T m w = .ok idx)
    (hdemand : demand U R pattern ignoreCase fixedStrings = some lists)
    (order : HashOrder)
    (hwalk : [] ∈ T.walk m)
    (hoff : offered T (utf8 idx.canonicalRoot) [] = true) :
    search U R T order idx pattern ignoreCase fixedStrings ≠
      (searchAllFiles U R T idx pattern ignoreCase fixedStrings).map sortResults := by
  obtain ⟨hroot, -⟩ := buildWithOptions_eq_ok hbuild
  have hne := canonicalRoot_ne_nil hroot
  obtain ⟨⟨e, he, -⟩, hall⟩ := stat_derefPath_of_root_offered hbuild hwalk hoff
  obtain ⟨candidates, hselect, -, hmem⟩ :=
    candidateSelection_of_demand (listed_build hbuild) hne hdemand
  have hempty : candidates = [] := by
    rw [List.eq_nil_iff_forall_not_mem]
    intro x hx
    obtain ⟨ts, -, hx⟩ := (hmem x).mp hx
    obtain ⟨hts, c, hc, -⟩ := mem_queryWithTrigrams.mp hx
    obtain ⟨t, ht⟩ := List.exists_mem_of_ne_nil _ hts
    obtain ⟨g, e', he', -, hn⟩ := (mem_get_build hbuild).mp (hc t ht)
    have hnone := hall e' (List.mem_of_getElem? he')
    rw [TrigramIndex.derefPath] at hnone
    rw [pathHits, hnone] at hn
    cases hn
  have hsearch : search U R T order idx pattern ignoreCase fixedStrings = .ok [] := by
    rw [search, hselect, hempty, TrigramIndex.ensureSearchable, if_neg hne]
    rfl
  rw [hsearch]
  intro h
  obtain ⟨results, hresults, -⟩ := map_eq_ok_iff.mp h.symm
  obtain ⟨matcher, -, hresults⟩ := bind_eq_ok_iff.mp hresults
  obtain ⟨parts, hparts, -⟩ := bind_eq_ok_iff.mp hresults
  obtain ⟨part, -, hpart⟩ := exists_result_of_mapM hparts he
  obtain ⟨content, hcontent, -⟩ := map_eq_ok_iff.mp hpart
  rw [readToString_eq_ok, hall e (mem_activeEntries.mp he).1] at hcontent
  cases hcontent

section Below

variable (hbuild : buildWithOptions digest T m w = .ok idx)
  (hoff : [] ∈ T.walk m → offered T (utf8 idx.canonicalRoot) [] = false)

include hbuild hoff

/-- Where the root is not a file of the index, an entry is looked up where the walk found it. -/
theorem derefPath_eq_walkedPath
    {e : FileEntry}
    (he : e ∈ idx.files) :
    idx.derefPath e.path = walkedPath (utf8 idx.canonicalRoot) (utf8 e.path) := by
  have hpath : utf8 e.path ≠ [] := by
    intro hnil
    obtain ⟨hwalk, hrel⟩ := offered_of_mem_build hbuild he
    rw [hnil] at hwalk hrel
    rw [hoff hwalk] at hrel
    cases hrel
  rw [TrigramIndex.derefPath, walkedPath, if_neg hpath]

theorem noLineMissing_iff :
    NoLineMissing T (utf8 idx.canonicalRoot) m (matcher.isMatch U) candidates ↔
      CandidatesComplete U T idx matcher candidates := by
  constructor
  · intro h e he k line hline
    have hfile := (mem_activeEntries.mp he).1
    obtain ⟨hwalk, hrel⟩ := offered_of_mem_build hbuild hfile
    rw [derefPath_eq_walkedPath hbuild hoff hfile] at hline ⊢
    exact h _ hwalk hrel k line hline
  · intro h rel hwalk hrel k line hline
    obtain ⟨e, he, rfl⟩ := exists_entry_of_offered hbuild hwalk hrel
    rw [← derefPath_eq_walkedPath hbuild hoff (mem_activeEntries.mp he).1] at hline ⊢
    exact h e he k line hline

theorem carriedAt_iff_posts
    {f k : Nat}
    {t : Trigram} :
    CarriedAt (utf8 idx.canonicalRoot) w f k t ↔ idx.Posts f t (k + 1) := by
  rw [build_posts hbuild, CarriedAt]
  constructor
  · rintro ⟨g, rel, hg, hmod, hcarries⟩
    obtain ⟨e, he, rfl⟩ := (getElem?_offeredFiles hbuild).mp hg
    rw [← derefPath_eq_walkedPath hbuild hoff (List.mem_of_getElem? he)] at hcarries
    exact ⟨g, e, he, hmod, hcarries⟩
  · rintro ⟨g, e, he, hmod, hcarries⟩
    rw [derefPath_eq_walkedPath hbuild hoff (List.mem_of_getElem? he)] at hcarries
    exact ⟨g, _, (getElem?_offeredFiles hbuild).mpr ⟨e, he, rfl⟩, hmod, hcarries⟩

/-- Complete candidates give the results of a full scan. -/
theorem fresh_search_eq
    (htext : TextFiles T (utf8 idx.canonicalRoot) m)
    (hdemand : demand U R pattern ignoreCase fixedStrings = some lists)
    (hmatcher : SearchMatcher.new U R pattern ignoreCase fixedStrings = .ok matcher)
    (hselect : candidateSelection U R idx pattern ignoreCase fixedStrings =
      .ok (.indexed candidates))
    (hcomplete : CandidatesComplete U T idx matcher candidates)
    (order : HashOrder) :
    search U R T order idx pattern ignoreCase fixedStrings =
      (searchAllFiles U R T idx pattern ignoreCase fixedStrings).map sortResults := by
  have hidx := listed_build hbuild
  have hne := canonicalRoot_ne_nil (buildWithOptions_eq_ok hbuild).1
  obtain ⟨candidates', hselect', hnodup, hmem⟩ :=
    candidateSelection_of_demand hidx hne hdemand
  rw [hselect] at hselect'
  cases hselect'
  refine search_eq_of_complete hidx hne order hmatcher hselect hnodup ?_ ?_ hcomplete
  · intro c hc
    obtain ⟨ts, -, hx⟩ := (hmem c).mp hc
    exact exists_entry_of_mem_queryWithTrigrams hx
  · intro e he
    have hfile := (mem_activeEntries.mp he).1
    obtain ⟨hwalk, hrel⟩ := offered_of_mem_build hbuild hfile
    obtain ⟨content, hcontent, -⟩ := htext _ hwalk hrel
    rw [← derefPath_eq_walkedPath hbuild hoff hfile] at hcontent
    exact ⟨content, readToString_eq_ok.mpr hcontent⟩

/-- The candidates of a fresh index are complete when each matching line is in one of the
first `2 ^ 32` files and meets the demand there. -/
theorem fresh_complete_iff
    (htext : TextFiles T (utf8 idx.canonicalRoot) m)
    (hR : fixedStrings = false → ExtractorSound R)
    (hdemand : demand U R pattern ignoreCase fixedStrings = some lists)
    (hmem : ∀ x, x ∈ candidates ↔ ∃ ts ∈ lists, x ∈ queryWithTrigrams idx ts) :
    CandidatesComplete U T idx matcher candidates ↔
      ∀ f rel, (offeredFiles (utf8 idx.canonicalRoot) w)[f]? = some rel → ∀ k line,
        MatchingLine T (matcher.isMatch U) (walkedPath (utf8 idx.canonicalRoot) rel) k line →
          f < 2 ^ 32 ∧
            ((∃ seen, SeenLine T (walkedPath (utf8 idx.canonicalRoot) rel) k seen ∧
                PlainMatch R pattern fixedStrings (utf8 seen)) ∨
              ∃ ts ∈ lists, ∀ t ∈ ts, CarriedAt (utf8 idx.canonicalRoot) w f k t) := by
  rw [candidatesComplete_iff (listed_build hbuild) hdemand hmem]
  constructor
  · intro h f rel hrel k line hline
    obtain ⟨e, he, rfl⟩ := (getElem?_offeredFiles hbuild).mp hrel
    have hfile := List.mem_of_getElem? he
    rw [← derefPath_eq_walkedPath hbuild hoff hfile] at hline
    have hact := currentEntries_not_deleted (buildWithOptions_eq_ok hbuild).2.1 hfile
    obtain ⟨ts, hts, hposts⟩ := h f e he hact k line hline
    obtain ⟨t, ht⟩ := List.exists_mem_of_ne_nil _ (ne_nil_of_mem_demand hdemand hts)
    obtain ⟨p, -, hp, -⟩ := hposts t ht
    refine ⟨?_, Or.inr ⟨ts, hts, fun t ht =>
      (carriedAt_iff_posts hbuild hoff).mpr (hposts t ht)⟩⟩
    rw [← hp]
    exact p.fileId.toNat_lt
  · intro h f e he _ k line hline
    have hrel := (getElem?_offeredFiles hbuild).mpr ⟨e, he, rfl⟩
    rw [derefPath_eq_walkedPath hbuild hoff (List.mem_of_getElem? he)] at hline
    obtain ⟨hlt, ⟨seen, hseen, hplain⟩ | ⟨ts, hts, hcarried⟩⟩ := h f _ hrel k line hline
    · obtain ⟨ts, hts, hall⟩ := exists_list_of_plainMatch hR hdemand hplain
      exact ⟨ts, hts, fun t ht => (carriedAt_iff_posts hbuild hoff).mp
        (carriedAt_of_seenLine hbuild htext hrel hlt hseen (hall t ht))⟩
    · exact ⟨ts, hts, fun t ht => (carriedAt_iff_posts hbuild hoff).mp (hcarried t ht)⟩

end Below

/-- What a fresh index over text files answers, for every query that it can help with. -/
theorem fresh_search_iff
    (hbuild : buildWithOptions digest T m w = .ok idx)
    (htext : TextFiles T (utf8 idx.canonicalRoot) m)
    (hR : fixedStrings = false → ExtractorSound R)
    (hdemand : demand U R pattern ignoreCase fixedStrings = some lists)
    (hmatcher : SearchMatcher.new U R pattern ignoreCase fixedStrings = .ok matcher)
    (hselect : candidateSelection U R idx pattern ignoreCase fixedStrings =
      .ok (.indexed candidates)) :
    (NoLineMissing T (utf8 idx.canonicalRoot) m (matcher.isMatch U) candidates ∧
      ∀ order, search U R T order idx pattern ignoreCase fixedStrings =
        (searchAllFiles U R T idx pattern ignoreCase fixedStrings).map sortResults) ↔
    ([] ∈ T.walk m → offered T (utf8 idx.canonicalRoot) [] = false) ∧
      ∀ f rel, (offeredFiles (utf8 idx.canonicalRoot) w)[f]? = some rel → ∀ k line,
        MatchingLine T (matcher.isMatch U) (walkedPath (utf8 idx.canonicalRoot) rel) k line →
          f < 2 ^ 32 ∧
            ((∃ seen, SeenLine T (walkedPath (utf8 idx.canonicalRoot) rel) k seen ∧
                PlainMatch R pattern fixedStrings (utf8 seen)) ∨
              ∃ ts ∈ lists, ∀ t ∈ ts, CarriedAt (utf8 idx.canonicalRoot) w f k t) := by
  by_cases hoff : [] ∈ T.walk m → offered T (utf8 idx.canonicalRoot) [] = false
  · obtain ⟨candidates', hselect', -, hmem⟩ := candidateSelection_of_demand
      (listed_build hbuild) (canonicalRoot_ne_nil (buildWithOptions_eq_ok hbuild).1) hdemand
    rw [hselect] at hselect'
    cases hselect'
    rw [noLineMissing_iff hbuild hoff, and_iff_right hoff, and_iff_left_of_imp
      (fun h => fresh_search_eq hbuild hoff htext hdemand hmatcher hselect h)]
    exact fresh_complete_iff hbuild hoff htext hR hdemand hmem
  · refine iff_of_false ?_ (fun h => hoff h.1)
    rintro ⟨-, hsearch⟩
    push Not at hoff
    obtain ⟨hwalk, hrel⟩ := hoff
    rw [ne_eq, Bool.not_eq_false] at hrel
    exact search_ne_of_root_offered hbuild hdemand ⟨id, fun _ => List.Perm.refl _⟩ hwalk
      hrel (hsearch _)

end Search

/-! ## Directories with one text file -/

/-- Tables under which no character outside ASCII changes, except the Kelvin sign. -/
def kelvinTables : CaseTables where
  lower c := if c = '\u212A' then ['k'] else [c]
  cased _ := false
  caseIgnorable _ := false

/-- A parser that rejects every pattern. -/
def noRegex : RegexCrate where
  parse _ := none
  extract _ _ _ _ := none
  build _ _ := none

section TextFile

variable {content : Text} {hsize : (utf8 content).length < 2 ^ 63}
  {digest : Bytes → UInt64} {idx : TrigramIndex}

/-- A readable text file. -/
def textFile
    (content : Text)
    (hsize : (utf8 content).length < 2 ^ 63) : RegularFile :=
  plainFile (utf8 content) hsize

theorem read_textFile :
    ((oneFileTree (textFile content hsize)).stat
      (walkedPath (utf8 flatRoot) (utf8 ['a']))).bind FsNode.read = some (utf8 content) := by
  rw [oneFileTree, walkedPath_flatTree (f := (['a'], textFile content hsize)) _ (by simp)]
  rfl

theorem walk_textFile
    {m : Bool}
    {rel : Bytes} :
    rel ∈ (oneFileTree (textFile content hsize)).walk m ↔ rel = utf8 ['a'] := by
  change rel ∈ [utf8 ['a']] ↔ _
  rw [List.mem_singleton]

theorem offered_textFile :
    offered (oneFileTree (textFile content hsize)) (utf8 flatRoot) (utf8 ['a']) = true := by
  rw [offered, oneFileTree,
    walkedPath_flatTree (f := (['a'], textFile content hsize)) _ (by simp)]
  rfl

theorem offeredFiles_textFile :
    offeredFiles (utf8 flatRoot) ((oneFileTree (textFile content hsize)).walkRun false) =
      [utf8 ['a']] := by
  change [utf8 ['a']].filter _ = _
  rw [List.filter_cons_of_pos offered_textFile, List.filter_nil]

theorem textFiles_textFile
    (hlimit : (utf8 content).length ≤ maxIndexedBytes) :
    TextFiles (oneFileTree (textFile content hsize)) (utf8 flatRoot) false := by
  intro rel hrel _
  rw [walk_textFile] at hrel
  subst hrel
  exact ⟨content, read_textFile, hlimit⟩

theorem matchingLine_textFile
    {accepts : Text → Bool}
    {k : Nat}
    {line : Text} :
    MatchingLine (oneFileTree (textFile content hsize)) accepts
        (walkedPath (utf8 flatRoot) (utf8 ['a'])) k line ↔
      (strLines content)[k]? = some line ∧ accepts line = true := by
  constructor
  · rintro ⟨content', hcontent, hline⟩
    rw [readToString_eq_ok, read_textFile] at hcontent
    rw [utf8_injective (Option.some.inj hcontent)]
    exact hline
  · intro hline
    exact ⟨content, readToString_eq_ok.mpr read_textFile, hline⟩

theorem seenLine_textFile
    {k : Nat}
    {seen : Text} :
    SeenLine (oneFileTree (textFile content hsize))
        (walkedPath (utf8 flatRoot) (utf8 ['a'])) k seen ↔
      indexedTextLine content k = some seen := by
  constructor
  · rintro ⟨content', hcontent, hseen⟩
    rw [readToString_eq_ok, read_textFile] at hcontent
    rw [utf8_injective (Option.some.inj hcontent)]
    exact hseen
  · intro hseen
    exact ⟨content, readToString_eq_ok.mpr read_textFile, hseen⟩

end TextFile

/-- What is posted in the index of the directory. -/
theorem hit_of_posted_textFile
    {content : Text}
    {hsize : (utf8 content).length < 2 ^ 63}
    {digest : Bytes → UInt64}
    {idx : TrigramIndex}
    (hbuild : buildWithOptions digest (oneFileTree (textFile content hsize)) false
      ((oneFileTree (textFile content hsize)).walkRun false) = .ok idx)
    {t : Trigram}
    {p : PostingEntry}
    (hp : p ∈ idx.postings.get t) :
    (t, p.line) ∈ extractContent (utf8 content) := by
  obtain ⟨idx', hbuild', hroot, -, hfiles⟩ := exists_build_oneFileTree digest
    (f := textFile content hsize) rfl
  rw [hbuild] at hbuild'
  cases hbuild'
  obtain ⟨g, e, he, -, hhit⟩ := (mem_get_build hbuild).mp hp
  have hmem := List.mem_of_getElem? he
  rw [hfiles, List.mem_singleton] at hmem
  subst hmem
  rw [hroot, oneFileTree,
    pathHits_flatTree (f := (['a'], textFile content hsize)) _ (by simp) rfl] at hhit
  exact hhit

end Index
end TensorGrep
