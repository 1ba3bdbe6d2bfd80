import TensorGrep.CpuSearch.PythonRegexes

/-!
# Inverted searches

On the Python line loop a line is tested twice, and an inverted search reports
the lines that fail both tests.  So the plain and the inverted search together
report every line once exactly when the tests agree on every line.
-/

namespace TensorGrep
namespace CpuSearch

open Kernel
open Result

/-- The search reports the line with that number. -/
def Reports
    (result : Except SearchError SearchResult)
    (lineNumber : Nat) : Prop :=
  ∃ r, result = .ok r ∧ ∃ found ∈ r.found, found.lineNumber = lineNumber

/-- The search as it is asked for, without a limit, plain or inverted. -/
def SearchConfig.inverting
    (config : SearchConfig)
    (invertMatch : Bool) : SearchConfig :=
  { config with invertMatch := invertMatch, maxCount := none }

section Entering

variable (host : Host) (config : SearchConfig) (pattern : Text) (contents : Bytes)

/-- The search comes to the line loop: there is no native engine, or it reports nothing of a fixed
string in a file that is not UTF-8. -/
def EntersLoop : Prop :=
  ∀ invertMatch,
    host.native pattern (ignoresCase host config pattern) config.fixedStrings invertMatch
        contents = .absent ∨
      host.native pattern (ignoresCase host config pattern) config.fixedStrings invertMatch
          contents = .found [] ∧
        fromUtf8 contents = none ∧ config.fixedStrings = true

variable {host config pattern contents}

theorem isBinaryFile_of_not_mem
    (h : 0 ∉ contents) :
    isBinaryFile contents = false := by
  rw [isBinaryFile, List.any_eq_false]
  intro b hb hzero
  exact h (of_decide_eq_true hzero ▸ List.mem_of_mem_take hb)

/-- What the search gives when it comes to the loop. -/
theorem search_of_entersLoop
    (hloop : EntersLoop host config pattern contents)
    (hnul : 0 ∉ contents)
    (file : String)
    (cached : Except String (Option (List Text × TrigramIndex)))
    (invertMatch : Bool) :
    search host (config.inverting invertMatch) file pattern (some contents) cached =
      pythonSearch host (config.inverting invertMatch) file pattern contents cached := by
  have hcase : ignoresCase host (config.inverting invertMatch) pattern =
      ignoresCase host config pattern := rfl
  have hfixed : (config.inverting invertMatch).fixedStrings = config.fixedStrings := rfl
  have hinvert : (config.inverting invertMatch).invertMatch = invertMatch := rfl
  have hlimit : (config.inverting invertMatch).maxCount ≠ some 0 := fun h => nomatch h
  rw [search, if_neg hlimit]
  simp only [isBinaryFile_of_not_mem hnul, Bool.and_false, Bool.false_eq_true, if_false, hcase,
    hfixed, hinvert]
  rcases hloop invertMatch with habsent | ⟨hnothing, hutf8, hstrings⟩
  · rw [habsent]
  · rw [hnothing]
    simp only [hutf8, hstrings, and_self, if_true]

end Entering

/-- Inverting a search and lifting its limit does not change how its pattern is compiled. -/
theorem compile_inverting
    {host : Host}
    {config : SearchConfig}
    {pattern : Text}
    {re : Regexes}
    (h : host.compile pattern (ignoresCase host config pattern) config.fixedStrings = .ok re)
    (invertMatch : Bool) :
    host.compile pattern (ignoresCase host (config.inverting invertMatch) pattern)
      (config.inverting invertMatch).fixedStrings = .ok re := h

section Complement

variable {host : Host} {config : SearchConfig} {file : String} {pattern : Text} {contents : Bytes}
  {cached : Option (List Text × TrigramIndex)} {re : Regexes}

/-- A source line that is among the candidates and passes both tests. -/
def CandidatePasses
    (host : Host)
    (config : SearchConfig)
    (pattern : Text)
    (contents : Bytes)
    (cached : Option (List Text × TrigramIndex))
    (re : Regexes)
    (literal : Text)
    (i : Nat) : Prop :=
  ∃ source, (prefilterIndex host config pattern contents cached).1[i]? = some source ∧
    (i : Int) ∈ candidatesFor host config pattern
      (prefilterIndex host config pattern contents cached).2 literal ∧
    firstTest re (encodeSourceLine source) = true ∧ lastTest re (encodeSourceLine source) = true

/-- The tests agree on a line.  In a search with a prefilter the plain search tests a source line,
so that one has to be a candidate that passes the tests exactly when the line passes one. -/
def TestsAgree
    (host : Host)
    (config : SearchConfig)
    (pattern : Text)
    (contents : Bytes)
    (cached : Option (List Text × TrigramIndex))
    (re : Regexes)
    (i : Nat)
    (line : Bytes) : Prop :=
  match prefilterLiteral (config.inverting false) pattern with
  | none => firstTest re line = lastTest re line
  | some literal =>
      CandidatePasses host config pattern contents cached re literal i ↔
        firstTest re line = true ∨ lastTest re line = true

theorem reports_resultOf_iff
    {found : List MatchLine}
    {reason : String}
    {n : Nat} :
    Reports (.ok (resultOf found reason)) n ↔ ∃ m ∈ found, m.lineNumber = n := by
  constructor
  · rintro ⟨r, hr, hfound⟩
    cases hr
    exact hfound
  · exact fun h => ⟨_, rfl, h⟩

/-- The inverted search reports the lines that fail both tests. -/
theorem reports_inverted_iff
    (hcompile : host.compile pattern (ignoresCase host config pattern) config.fixedStrings =
      .ok re)
    {i : Nat} :
    Reports (pythonSearch host (config.inverting true) file pattern contents (.ok cached))
        (1 + i) ↔
      ∃ line, (linesOf 10 contents)[i]? = some line ∧ firstTest re line = false ∧
        lastTest re line = false := by
  have hliteral : prefilterLiteral (config.inverting true) pattern = none := by
    simp [prefilterLiteral, SearchConfig.inverting]
  rw [pythonSearch_of_none (compile_inverting hcompile true) hliteral, reports_resultOf_iff]
  refine exists_mem_lineLoop_iff.trans ?_
  simp [SearchConfig.inverting]

/-- The plain search without a prefilter reports the lines that pass both tests. -/
theorem reports_plain_iff
    (hcompile : host.compile pattern (ignoresCase host config pattern) config.fixedStrings =
      .ok re)
    (hliteral : prefilterLiteral (config.inverting false) pattern = none)
    {i : Nat} :
    Reports (pythonSearch host (config.inverting false) file pattern contents (.ok cached))
        (1 + i) ↔
      ∃ line, (linesOf 10 contents)[i]? = some line ∧ firstTest re line = true ∧
        lastTest re line = true := by
  rw [pythonSearch_of_none (compile_inverting hcompile false) hliteral, reports_resultOf_iff]
  refine exists_mem_lineLoop_iff.trans ?_
  simp [SearchConfig.inverting]

/-- The plain search with a prefilter reports the candidates that pass both tests. -/
theorem reports_filtered_iff
    (hcompile : host.compile pattern (ignoresCase host config pattern) config.fixedStrings =
      .ok re)
    {literal : Text}
    (hliteral : prefilterLiteral (config.inverting false) pattern = some literal)
    {i : Nat} :
    Reports (pythonSearch host (config.inverting false) file pattern contents (.ok cached))
        (1 + i) ↔
      CandidatePasses host config pattern contents cached re literal i := by
  rw [pythonSearch_of_some (compile_inverting hcompile false) hliteral, reports_resultOf_iff]
  refine exists_mem_lineLoop_iff.trans ?_
  rw [List.getElem?_map]
  constructor
  · rintro ⟨line, hline, hlooked, hmatch⟩
    obtain ⟨source, hsource, rfl⟩ := Option.map_eq_some_iff.mp hline
    have hindex : ((1 + i : Nat) : Int) - 1 = i := by omega
    rw [hindex, lookedAt_some] at hlooked
    have hinvert : (config.inverting false).invertMatch = false := rfl
    rw [hinvert, lineMatches_false, Bool.and_eq_true] at hmatch
    exact ⟨source, hsource, hlooked, hmatch⟩
  · rintro ⟨source, hsource, hlooked, hmatch⟩
    refine ⟨encodeSourceLine source, Option.map_eq_some_iff.mpr ⟨source, hsource, rfl⟩, ?_, ?_⟩
    · have hindex : ((1 + i : Nat) : Int) - 1 = i := by omega
      rw [hindex, lookedAt_some]
      exact hlooked
    · have hinvert : (config.inverting false).invertMatch = false := rfl
      rw [hinvert, lineMatches_false, Bool.and_eq_true]
      exact hmatch

/-- One line is reported by exactly one of the two searches when the tests agree on it. -/
theorem xor_reports_iff
    (hcompile : host.compile pattern (ignoresCase host config pattern) config.fixedStrings =
      .ok re)
    {i : Nat}
    {line : Bytes}
    (hline : (linesOf 10 contents)[i]? = some line) :
    Xor (Reports (pythonSearch host (config.inverting false) file pattern contents (.ok cached))
          (1 + i))
        (Reports (pythonSearch host (config.inverting true) file pattern contents (.ok cached))
          (1 + i)) ↔
      TestsAgree host config pattern contents cached re i line := by
  have hinverted : Reports (pythonSearch host (config.inverting true) file pattern contents
      (.ok cached)) (1 + i) ↔ firstTest re line = false ∧ lastTest re line = false := by
    rw [reports_inverted_iff hcompile]
    simp [hline]
  rw [hinverted, TestsAgree]
  cases hliteral : prefilterLiteral (config.inverting false) pattern with
  | none =>
      have hplain : Reports (pythonSearch host (config.inverting false) file pattern contents
          (.ok cached)) (1 + i) ↔ firstTest re line = true ∧ lastTest re line = true := by
        rw [reports_plain_iff hcompile hliteral]
        simp [hline]
      rw [hplain]
      cases firstTest re line <;> cases lastTest re line <;> simp [Xor]
  | some literal =>
      rw [reports_filtered_iff hcompile hliteral]
      by_cases hpasses : CandidatePasses host config pattern contents cached re literal i <;>
        cases firstTest re line <;> cases lastTest re line <;> simp [hpasses, Xor]

end Complement

/-- On the line loop every line is reported by exactly one of the plain and the inverted search if
and only if the tests agree on every line. -/
theorem inverted_is_complement_iff
    {host : Host}
    {config : SearchConfig}
    {pattern : Text}
    {contents : Bytes}
    {re : Regexes}
    (file : String)
    (cached : Option (List Text × TrigramIndex))
    (hcompile : host.compile pattern (ignoresCase host config pattern) config.fixedStrings =
      .ok re)
    (hloop : EntersLoop host config pattern contents)
    (hnul : 0 ∉ contents) :
    (∀ lineNumber, 1 ≤ lineNumber → lineNumber ≤ (linesOf 10 contents).length →
        Xor (Reports (search host (config.inverting false) file pattern (some contents)
              (.ok cached)) lineNumber)
          (Reports (search host (config.inverting true) file pattern (some contents)
            (.ok cached)) lineNumber)) ↔
      ∀ i line, (linesOf 10 contents)[i]? = some line →
        TestsAgree host config pattern contents cached re i line := by
  rw [search_of_entersLoop hloop hnul, search_of_entersLoop hloop hnul]
  constructor
  · intro hall i line hline
    have hlt := (List.getElem?_eq_some_iff.mp hline).1
    exact (xor_reports_iff hcompile hline).mp (hall (1 + i) (by omega) (by omega))
  · intro hall n hpos hle
    obtain ⟨i, rfl⟩ : ∃ i, n = 1 + i := ⟨n - 1, by omega⟩
    have hline := List.getElem?_eq_getElem (l := linesOf 10 contents) (i := i) (by omega)
    exact (xor_reports_iff hcompile hline).mpr (hall i _ hline)

/-- A search as it is asked for without options. -/
def plainConfig : SearchConfig where
  ignoreCase := false
  smartCase := false
  fixedStrings := false
  invertMatch := false
  pcre2 := false
  text := false
  binary := false
  maxCount := none

/-- The pattern `a` in a file with two lines: one search reports the first line, the other one
does not. -/
theorem inverted_is_complement_letter :
    Xor (Reports (search (pythonHost plainTables) (plainConfig.inverting false) "t" ['a']
        (some [97, 10, 98]) (.ok none)) 1)
      (Reports (search (pythonHost plainTables) (plainConfig.inverting true) "t" ['a']
        (some [97, 10, 98]) (.ok none)) 1) := by
  have hiff := @inverted_is_complement_iff (pythonHost plainTables) plainConfig ['a'] [97, 10, 98]
    ((compilePattern plainTables ['a'] false).get (by decide)) "t" none rfl
    (fun _ => Or.inl rfl) (by decide)
  refine hiff.mpr ?_ 1 (by decide) (by decide)
  intro i line hline
  match i with
  | 0 =>
      cases hline
      change firstTest _ [97, 10] = lastTest _ [97, 10]
      rfl
  | 1 =>
      cases hline
      change firstTest _ [98] = lastTest _ [98]
      rfl
  | i + 2 => cases hline

/-- The line `a\r\n` is reported neither by the search for `a$` nor by the inverted one. -/
theorem carriageReturn_line_reported_by_neither :
    ¬ (Reports (search (pythonHost plainTables) (plainConfig.inverting false) "t" ['a', '$']
          (some [97, 13, 10]) (.ok none)) 1 ∨
        Reports (search (pythonHost plainTables) (plainConfig.inverting true) "t" ['a', '$']
          (some [97, 13, 10]) (.ok none)) 1) := by
  have hplain : search (pythonHost plainTables) (plainConfig.inverting false) "t" ['a', '$']
      (some [97, 13, 10]) (.ok none) = .ok (resultOf [] "cpu_python_regex") := by rfl
  have hinverted : search (pythonHost plainTables) (plainConfig.inverting true) "t" ['a', '$']
      (some [97, 13, 10]) (.ok none) = .ok (resultOf [] "cpu_python_regex") := by rfl
  rw [hplain, hinverted, reports_resultOf_iff]
  simp

end CpuSearch
end TensorGrep
