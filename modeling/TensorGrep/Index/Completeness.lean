import TensorGrep.Index.Search

/-!
# When the candidates are complete

`demand` is what a query asks of a line: that for one of several lists all
trigrams are posted on it.  A line that contains the pattern up to ASCII case
(`PlainMatch`) meets the demand; every other line that the matcher accepts may
or may not.

Extraction and matching see different lines only where an unterminated last
line ends in a carriage return: matching keeps it, extraction drops it.
-/

namespace TensorGrep
namespace Index

open Kernel

/-! ## What a query asks of a line -/

/-- The lists of trigrams of which a candidate must carry one; `none` for a full scan. -/
def demand
    (U : CaseTables)
    (R : RegexCrate)
    (pattern : Text)
    (ignoreCase fixedStrings : Bool) : Option (List (List Trigram)) :=
  if fixedStrings then
    if ignoreCase = true ∧ ¬ IsAsciiText pattern then none
    else if (utf8 (normalizedPattern U pattern ignoreCase)).length < trigramLen then none
    else some [extractTrigrams (utf8 (normalizedPattern U pattern ignoreCase))]
  else
    (selectRegexPrefilterLiterals R pattern ignoreCase).map (fun plan =>
      plan.literals.map extractTrigrams)

/-- A line that contains the pattern, or a string it stands for, up to ASCII case. -/
def PlainMatch
    (R : RegexCrate)
    (pattern : Text)
    (fixedStrings : Bool)
    (line : Bytes) : Prop :=
  if fixedStrings then
    (utf8 pattern).map asciiLowerByte <:+: line.map asciiLowerByte
  else
    ∃ hir, R.parse pattern = some hir ∧
      ∃ w, hir.Denotes w ∧ w.map asciiLowerByte <:+: line.map asciiLowerByte

section Demand

variable {U : CaseTables} {R : RegexCrate} {idx : TrigramIndex} {pattern : Text}
  {ignoreCase fixedStrings : Bool}

/-- On ASCII text the tables are not consulted. -/
theorem toLowercase_of_isAsciiText
    (U : CaseTables)
    {t : Text}
    (h : IsAsciiText t) :
    toLowercase U t = t.map asciiLowerChar := by
  have haux : ∀ (t before : Text), IsAsciiText t →
      toLowercaseAfter U before t = t.map asciiLowerChar := by
    intro t
    induction t with
    | nil =>
        intro before _
        rfl
    | cons c t ih =>
        intro before ht
        rw [toLowercaseAfter, if_pos (ht c (by simp)),
          ih _ (fun d hd => ht d (List.mem_cons_of_mem _ hd))]
        rfl
  exact haux t [] h

/-- The candidates of a query that the index can help with. -/
theorem candidateSelection_of_demand
    (hidx : Listed idx)
    (hroot : idx.canonicalRoot ≠ [])
    {lists : List (List Trigram)}
    (hdemand : demand U R pattern ignoreCase fixedStrings = some lists) :
    ∃ candidates, candidateSelection U R idx pattern ignoreCase fixedStrings =
        .ok (.indexed candidates) ∧
      candidates.Nodup ∧
      ∀ x, x ∈ candidates ↔ ∃ ts ∈ lists, x ∈ queryWithTrigrams idx ts := by
  cases fixedStrings with
  | true =>
      rw [demand, if_pos rfl] at hdemand
      rw [candidateSelection, if_pos rfl, fixedStringCandidateSelection]
      split_ifs at hdemand ⊢
      rw [Option.some.injEq] at hdemand
      subst hdemand
      refine ⟨queryWithTrigrams idx
        (extractTrigrams (utf8 (normalizedPattern U pattern ignoreCase))), ?_,
        nodup_queryWithTrigrams hidx _, fun x => by simp⟩
      rw [queryCandidatesFixedChecked, TrigramIndex.ensureSearchable, if_neg hroot]
      rfl
  | false =>
      rw [demand, if_neg (by simp)] at hdemand
      obtain ⟨plan, hplan, rfl⟩ := Option.map_eq_some_iff.mp hdemand
      rw [candidateSelection, if_neg (by simp), regexCandidateSelection, hplan]
      refine ⟨_, rfl, nodup_of_pairwise_key_lt (pairwise_sortDedup candidateKey _), ?_⟩
      intro x
      rw [mem_sortDedup candidateKey_injective, List.mem_flatMap]
      simp

/-- Every list of a demand asks for something. -/
theorem ne_nil_of_mem_demand
    {lists : List (List Trigram)}
    (hdemand : demand U R pattern ignoreCase fixedStrings = some lists)
    {ts : List Trigram}
    (hts : ts ∈ lists) :
    ts ≠ [] := by
  rw [demand] at hdemand
  split_ifs at hdemand with _ _ hlen
  · cases hdemand
    rw [List.mem_singleton.mp hts]
    exact extractTrigrams_ne_nil (Nat.le_of_not_lt hlen)
  · obtain ⟨plan, hplan, rfl⟩ := Option.map_eq_some_iff.mp hdemand
    obtain ⟨l, hl, rfl⟩ := List.mem_map.mp hts
    exact extractTrigrams_ne_nil (selectRegexPrefilterLiterals_long hplan l hl)

/-- A plain match meets the demand. -/
theorem exists_list_of_plainMatch
    (hR : fixedStrings = false → ExtractorSound R)
    {lists : List (List Trigram)}
    (hdemand : demand U R pattern ignoreCase fixedStrings = some lists)
    {line : Bytes}
    (h : PlainMatch R pattern fixedStrings line) :
    ∃ ts ∈ lists, ∀ t ∈ ts, t ∈ lineTrigrams line := by
  rw [demand] at hdemand
  rw [PlainMatch] at h
  split_ifs at hdemand h with hfixed hascii
  · cases hdemand
    refine ⟨_, List.mem_singleton_self _, fun t ht => ?_⟩
    refine extractTrigrams_subset_of_isInfix ?_ ht
    rw [normalizedPattern]
    cases ignoreCase with
    | false => exact h
    | true =>
        have htext : IsAsciiText pattern := by simpa using hascii
        rw [if_pos rfl, toLowercase_of_isAsciiText U htext, utf8_map_asciiLowerChar,
          List.map_map]
        have hidem : asciiLowerByte ∘ asciiLowerByte = asciiLowerByte :=
          funext asciiLowerByte_idem
        rw [hidem]
        exact h
  · obtain ⟨plan, hplan, rfl⟩ := Option.map_eq_some_iff.mp hdemand
    obtain ⟨hir, hparse, w, hw, hline⟩ := h
    obtain ⟨l, hl, hlw⟩ := selectRegexPrefilterLiterals_covers
      (hR (by simpa using hfixed)) hparse hplan hw
    exact ⟨_, List.mem_map_of_mem hl, fun t ht =>
      extractTrigrams_subset_of_isInfix (hlw.trans hline) ht⟩

/-- The candidates are complete when each matching line meets the demand. -/
theorem candidatesComplete_iff
    {T : Tree}
    {matcher : SearchMatcher}
    {candidates : List Candidate}
    {lists : List (List Trigram)}
    (hidx : Listed idx)
    (hdemand : demand U R pattern ignoreCase fixedStrings = some lists)
    (hmem : ∀ x, x ∈ candidates ↔ ∃ ts ∈ lists, x ∈ queryWithTrigrams idx ts) :
    CandidatesComplete U T idx matcher candidates ↔
      ∀ f e, idx.files[f]? = some e → e.deleted = false → ∀ k line,
        MatchingLine T (matcher.isMatch U) (idx.derefPath e.path) k line →
          ∃ ts ∈ lists, ∀ t ∈ ts, idx.Posts f t (k + 1) := by
  constructor
  · intro h f e he hact k line hline
    have hentry := mem_activeEntries.mpr ⟨List.mem_of_getElem? he, hact⟩
    obtain ⟨ts, hts, hx⟩ := (hmem _).mp (h e hentry k line hline)
    exact ⟨ts, hts, ((mem_queryWithTrigrams_iff hidx he hact).mp hx).2⟩
  · intro h e hentry k line hline
    obtain ⟨he, hact⟩ := mem_activeEntries.mp hentry
    obtain ⟨f, hf⟩ := List.getElem?_of_mem he
    obtain ⟨ts, hts, hposts⟩ := h f e hf hact k line hline
    exact (hmem _).mpr ⟨ts, hts, (mem_queryWithTrigrams_iff hidx hf hact).mpr
      ⟨ne_nil_of_mem_demand hdemand hts, hposts⟩⟩

end Demand

/-! ## Lines as extraction sees them -/

/-- A trigram is on a line of a file as extraction sees it. -/
def FileCarries
    (T : Tree)
    (file : Bytes)
    (k : Nat)
    (t : Trigram) : Prop :=
  ∃ bytes, (T.stat file).bind FsNode.read = some bytes ∧
    bytes.length ≤ maxIndexedBytes ∧
      ∃ line, (indexedLines bytes)[k]? = some line ∧ t ∈ lineTrigrams line

section Lines

variable {T : Tree}

/-- What extraction posts of a file, by line. -/
theorem exists_hit_iff_fileCarries
    {file : Bytes}
    {k : Nat}
    {t : Trigram} :
    (∃ n, (t, n) ∈ extractOrDefault (T.stat file) ∧ n.toNat = k + 1) ↔
      FileCarries T file k t := by
  constructor
  · rintro ⟨n, hn, hk⟩
    obtain ⟨bytes, hbytes, hmem⟩ := mem_extractOrDefault.mp hn
    obtain ⟨-, hle, i, line, hline, ht, rfl⟩ := mem_extractContent.mp hmem
    have hi := (List.getElem?_eq_some_iff.mp hline).1
    rw [lineNumber_toNat hle hi] at hk
    have hik : i = k := by omega
    subst hik
    exact ⟨bytes, hbytes, hle, line, hline, ht⟩
  · rintro ⟨bytes, hbytes, hle, line, hline, ht⟩
    have hk := (List.getElem?_eq_some_iff.mp hline).1
    have hne : bytes.length ≠ 0 := by
      intro hzero
      rw [List.length_eq_zero_iff] at hzero
      subst hzero
      have hnil : (indexedLines [])[k]? = some line := hline
      have hlines : indexedLines [] = [[]] := rfl
      rw [hlines] at hnil
      rw [List.mem_singleton.mp (List.mem_of_getElem? hnil)] at ht
      cases ht
    exact ⟨UInt32.ofNat (k + 1), mem_extractOrDefault.mpr ⟨bytes, hbytes,
      (mem_extractContent_line hline).mpr ⟨hne, hle, ht⟩⟩, lineNumber_toNat hle hk⟩

/-- The line of a text as extraction sees it. -/
def indexedTextLine
    (content : Text)
    (k : Nat) : Option Text :=
  ((content.splitOn '\n')[k]?).map (stripCr '\r')

theorem indexedLines_utf8
    (content : Text)
    (k : Nat) :
    (indexedLines (utf8 content))[k]? = (indexedTextLine content k).map utf8 := by
  rw [indexedLines, splitOn_utf8, List.map_map, List.getElem?_map, indexedTextLine,
    Option.map_map]
  exact congrArg (fun f => Option.map f _) (funext stripCr_utf8)

/-- What a readable file carries. -/
theorem fileCarries_iff
    {file : Bytes}
    {content : Text}
    {k : Nat}
    {t : Trigram}
    (hread : (T.stat file).bind FsNode.read = some (utf8 content)) :
    FileCarries T file k t ↔
      (utf8 content).length ≤ maxIndexedBytes ∧
        ∃ line, indexedTextLine content k = some line ∧ t ∈ lineTrigrams (utf8 line) := by
  rw [FileCarries, hread]
  simp only [Option.some.injEq, exists_eq_left', indexedLines_utf8, Option.map_eq_some_iff]
  refine and_congr_right (fun _ => ?_)
  constructor
  · rintro ⟨bytes, ⟨line, hline, rfl⟩, ht⟩
    exact ⟨line, hline, ht⟩
  · rintro ⟨line, hline, ht⟩
    exact ⟨utf8 line, ⟨line, hline, rfl⟩, ht⟩

theorem readToString_eq_ok
    {file : Bytes}
    {content : Text} :
    readToString T file = .ok content ↔
      (T.stat file).bind FsNode.read = some (utf8 content) := by
  rw [readToString]
  cases hread : (T.stat file).bind FsNode.read with
  | none => simp
  | some bytes =>
      cases hdec : fromUtf8 bytes with
      | none =>
          simp only [Option.bind_some, hdec, reduceCtorEq, Option.some.injEq, false_iff]
          rintro rfl
          rw [fromUtf8_utf8] at hdec
          cases hdec
      | some text =>
          have hbytes := utf8_of_fromUtf8 hdec
          simp only [Option.bind_some, hdec, Except.ok.injEq, Option.some.injEq]
          constructor
          · rintro rfl
            exact hbytes.symm
          · intro h
            exact utf8_injective (hbytes.trans h)

/-- A matching line is the line that extraction sees, or it is the last line of the file,
without a terminator, and ends in a carriage return. -/
theorem indexedTextLine_of_strLines
    {content line : Text}
    {k : Nat}
    (h : (strLines content)[k]? = some line) :
    indexedTextLine content k = some line ∨
      ∃ body, k + 1 = (content.splitOn '\n').length ∧ line = body ++ ['\r'] ∧
        indexedTextLine content k = some body := by
  rw [indexedTextLine]
  rcases strLines_getElem?.mp h with ⟨-, piece, hpiece, rfl⟩ | ⟨hlast, hpiece, -⟩
  · left
    rw [hpiece, Option.map_some]
  · rw [hpiece, Option.map_some]
    by_cases hcr : line.getLast? = some '\r'
    · right
      obtain ⟨body, rfl⟩ : ∃ body, line = body ++ ['\r'] := by
        obtain ⟨hne, hget⟩ := List.getLast?_eq_some_iff.mp hcr
        exact ⟨hne, hget⟩
      exact ⟨body, hlast, rfl, by simp [stripCr]⟩
    · left
      rw [stripCr, if_neg hcr]

end Lines

end Index
end TensorGrep
