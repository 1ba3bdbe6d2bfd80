import TensorGrep.CpuSearch.Complement

/-!
# What the prefilter loses

The scan of the pattern finds the runs of unrepeated characters, and every line
with a match contains each run up to the folding of case.  The index compares
lower-cased text.  So the prefilter loses no line exactly when case is not
ignored, or no line matches at all, or every character that folds like one of the
literal is lower-cased like it.
-/

namespace TensorGrep
namespace CpuSearch

open Kernel
open Kernel.StarPattern (Single parsePattern runs endRun Covers)
open Result

/-! ## The scan finds the runs -/

theorem flush_eq
    (literals : List Text)
    (current : Text) :
    LiteralScan.flush ⟨literals, current⟩ = ⟨literals ++ endRun current, []⟩ := by
  cases current with
  | nil => simp [LiteralScan.flush, endRun]
  | cons c current => simp [LiteralScan.flush, endRun]

/-- One character that is not a star, and what it stands for in the pattern. -/
theorem step_eq_of_ne_star
    {c : Char}
    (h : c ≠ '*')
    (literals : List Text)
    (current : Text) :
    (textMetacharacters.piece c = .one (.char c) ∧
        LiteralScan.step ⟨literals, current⟩ c = ⟨literals, current ++ [c]⟩) ∨
      ((∀ p, runs current (textMetacharacters.piece c :: p) = endRun current ++ runs [] p) ∧
        LiteralScan.step ⟨literals, current⟩ c = ⟨literals ++ endRun current, []⟩) := by
  by_cases hspecial : c = '.' ∨ c = '^' ∨ c = '$'
  · refine Or.inr ⟨fun p => ?_, ?_⟩
    · rcases hspecial with rfl | rfl | rfl <;> rfl
    · rw [LiteralScan.step, if_neg h, if_pos hspecial, flush_eq]
  · refine Or.inl ⟨?_, ?_⟩
    · simp only [not_or] at hspecial
      simp [StarPattern.Metacharacters.piece, StarPattern.Metacharacters.single,
        textMetacharacters, hspecial]
    · rw [LiteralScan.step, if_neg h, if_neg hspecial]

/-- A character and a star behind it. -/
theorem step_star
    {c : Char}
    (h : c ≠ '*')
    (literals : List Text)
    (current : Text) :
    (LiteralScan.step ⟨literals, current⟩ c).step '*' = ⟨literals ++ endRun current, []⟩ := by
  rcases step_eq_of_ne_star h literals current with ⟨-, hstep⟩ | ⟨-, hstep⟩
  · rw [hstep, LiteralScan.step, if_pos rfl, List.dropLast_concat, flush_eq]
  · rw [hstep, LiteralScan.step, if_pos rfl, List.dropLast_nil, flush_eq]
    simp [endRun]

/-- The literals of the scan are the runs of the pattern. -/
theorem literals_foldl_step
    {pattern : Text}
    {pieces : List (StarPattern.Piece Char)}
    (h : parsePattern textMetacharacters pattern = some pieces)
    (literals : List Text)
    (current : Text) :
    (pattern.foldl LiteralScan.step ⟨literals, current⟩).flush.literals =
      literals ++ runs current pieces := by
  induction pattern using StarPattern.parsePattern.induct textMetacharacters
    generalizing pieces literals current with
  | case1 =>
      cases h
      rw [List.foldl_nil, flush_eq, runs]
  | case2 => simp [parsePattern, textMetacharacters] at h
  | case3 c hstar =>
      rw [parsePattern, if_neg hstar] at h
      cases h
      rw [List.foldl_cons, List.foldl_nil]
      rcases step_eq_of_ne_star hstar literals current with ⟨hpiece, hstep⟩ | ⟨hruns, hstep⟩
      · rw [hstep, flush_eq, hpiece, runs, runs]
      · rw [hstep, flush_eq, hruns, runs, List.append_assoc]
  | case4 d rest => simp [parsePattern, textMetacharacters] at h
  | case5 c rest hstar hanchor =>
      rw [parsePattern, if_neg hstar, if_pos rfl, if_pos hanchor] at h
      cases h
  | case6 c rest hstar hanchor ih =>
      rw [parsePattern, if_neg hstar, if_pos rfl, if_neg hanchor] at h
      obtain ⟨pieces, hrest, rfl⟩ := Option.map_eq_some_iff.mp h
      have hstep := step_star hstar literals current
      rw [List.foldl_cons, List.foldl_cons, show textMetacharacters.star = '*' from rfl, hstep,
        ih hrest, runs, List.append_assoc]
  | case7 c d rest hstar hnext ih =>
      rw [parsePattern, if_neg hstar, if_neg hnext] at h
      obtain ⟨pieces, hrest, rfl⟩ := Option.map_eq_some_iff.mp h
      rw [List.foldl_cons]
      rcases step_eq_of_ne_star hstar literals current with ⟨hpiece, hstep⟩ | ⟨hruns, hstep⟩
      · rw [hstep, ih hrest, hpiece, runs]
      · rw [hstep, ih hrest, hruns, List.append_assoc]

/-- The extracted literal is a run of the pattern. -/
theorem mem_runs_of_extractRequiredLiteral
    {pattern literal : Text}
    {pieces : List (StarPattern.Piece Char)}
    (hparse : parsePattern textMetacharacters pattern = some pieces)
    (h : extractRequiredLiteral pattern = some literal) :
    literal ∈ runs [] pieces := by
  have hmem := (of_extractRequiredLiteral h).2.1
  rw [requiredLiterals, literals_foldl_step hparse] at hmem
  exact hmem

/-! ## Lower-casing -/

namespace CaseTables

variable {U : CaseTables}

/-- Lower-casing a text in two parts. -/
theorem lowerFrom_append
    (before t t' : Text) :
    ∃ w, U.lowerFrom before (t ++ t') = w ++ U.lowerFrom (before ++ t) t' := by
  induction t generalizing before with
  | nil => exact ⟨[], by simp⟩
  | cons c t ih =>
      obtain ⟨w, hw⟩ := ih (before ++ [c])
      refine ⟨U.lowerBetween before c (t ++ t') ++ w, ?_⟩
      rw [List.cons_append, lowerFrom, hw]
      simp

/-- Texts whose characters fold alike and are lower-cased alike have one lower-case form, whatever
stands around them. -/
theorem exists_lowerFrom_of_forall₂
    {t m : Text}
    (halike : ∀ c ∈ t, U.LowersAlike c)
    (hfold : List.Forall₂ (fun c x => U.fold c = U.fold x) t m)
    (before before' after after' : Text) :
    ∃ w rest rest', U.lowerFrom before (t ++ after) = w ++ rest ∧
      U.lowerFrom before' (m ++ after') = w ++ rest' ∧ rest = U.lowerFrom (before ++ t) after := by
  induction hfold generalizing before before' with
  | nil => exact ⟨[], _, _, rfl, rfl, by simp⟩
  | @cons c x t m hcx hrest ih =>
      obtain ⟨w, rest, rest', ht, hm, hend⟩ :=
        ih (fun d hd => halike d (List.mem_cons_of_mem _ hd)) (before ++ [c]) (before' ++ [x])
      have hsame : U.lowerBetween before' x (m ++ after') = U.lowerBetween before c (t ++ after) :=
        halike c List.mem_cons_self x hcx.symm _ (U.lowerBetween_mem _ _ _) _
          (U.lowerBetween_mem _ _ _)
      refine ⟨U.lowerBetween before c (t ++ after) ++ w, rest, rest', ?_, ?_, ?_⟩
      · rw [List.cons_append, lowerFrom, ht, List.append_assoc]
      · rw [List.cons_append, lowerFrom, hm, hsame, List.append_assoc]
      · rw [hend]
        simp

/-- A text that contains such a text contains its lower-case form in lower case. -/
theorem lower_isInfix_of_covers
    {t line : Text}
    (halike : ∀ c ∈ t, U.LowersAlike c)
    (hcovers : Covers (sameChar U true) t line) :
    U.lower t <:+: U.lower line := by
  obtain ⟨m, ⟨before, after, rfl⟩, hsame⟩ := hcovers
  have hfold : List.Forall₂ (fun c x => U.fold c = U.fold x) t m := by
    refine hsame.imp fun c x h => ?_
    simpa [sameChar] using h
  obtain ⟨w, rest, rest', ht, hm, hend⟩ :=
    @exists_lowerFrom_of_forall₂ U t m halike hfold [] before [] after
  obtain ⟨v, hv⟩ := @lowerFrom_append U [] before (m ++ after)
  rw [List.append_nil, hend, lowerFrom, List.append_nil] at ht
  rw [lower, lower, ht, List.append_assoc, hv, List.nil_append, hm]
  exact ⟨v, rest', by rw [List.append_assoc]⟩

/-- The lower-case form of a character is in that of a text with the character. -/
theorem exists_form_of_mem
    {t : Text}
    {c : Char}
    (hc : c ∈ t)
    (before : Text) :
    ∃ form ∈ U.forms c, ∀ a ∈ form, a ∈ U.lowerFrom before t := by
  induction t generalizing before with
  | nil => cases hc
  | cons d t ih =>
      rw [lowerFrom]
      rcases List.mem_cons.mp hc with rfl | hc
      · exact ⟨_, U.lowerBetween_mem before c t, fun a ha => List.mem_append_left _ ha⟩
      · obtain ⟨form, hform, hmem⟩ := ih hc (before ++ [d])
        exact ⟨form, hform, fun a ha => List.mem_append_right _ (hmem a ha)⟩

/-- Every character of a lower-case text comes from a form of a character of the text. -/
theorem exists_mem_forms_of_mem_lowerFrom
    {t : Text}
    {a : Char}
    {before : Text}
    (ha : a ∈ U.lowerFrom before t) :
    ∃ c ∈ t, ∃ form ∈ U.forms c, a ∈ form := by
  induction t generalizing before with
  | nil => cases ha
  | cons d t ih =>
      rw [lowerFrom] at ha
      rcases List.mem_append.mp ha with ha | ha
      · exact ⟨d, List.mem_cons_self, _, U.lowerBetween_mem _ _ _, ha⟩
      · obtain ⟨c, hc, hform⟩ := ih ha
        exact ⟨c, List.mem_cons_of_mem _ hc, hform⟩

/-- A lower-case text is not shorter. -/
theorem length_le_length_lowerFrom
    (before t : Text) :
    t.length ≤ (U.lowerFrom before t).length := by
  induction t generalizing before with
  | nil => exact Nat.zero_le _
  | cons c t ih =>
      have hne := U.ne_nil_of_mem_forms c _ (U.lowerBetween_mem before c t)
      have hpos := List.length_pos_of_ne_nil hne
      have hrest := ih (before ++ [c])
      rw [lowerFrom, List.length_append, List.length_cons]
      omega

end CaseTables

/-! ## Candidates -/

section Candidates

variable {U : CaseTables} {config : SearchConfig} {pattern literal : Text} {re : Regexes}

/-- A search with a prefilter compiles the pattern as a regular expression and is not inverted. -/
theorem of_prefilterLiteral
    (h : prefilterLiteral config pattern = some literal) :
    config.fixedStrings = false ∧ config.invertMatch = false ∧
      extractRequiredLiteral pattern = some literal := by
  rw [prefilterLiteral] at h
  split at h
  case isTrue => cases h
  case isFalse hplain =>
      simp only [Bool.or_eq_true, not_or, Bool.not_eq_true] at hplain
      exact ⟨hplain.1, hplain.2, h⟩

/-- What the compiled pattern finds in text. -/
theorem exists_pieces_of_compile
    {ignoreCase : Bool}
    (h : (pythonHost U).compile pattern ignoreCase false = .ok re) :
    ∃ pieces, parsePattern textMetacharacters pattern = some pieces ∧
      re.searchText = StarPattern.search (sameChar U ignoreCase) '\n' pieces := by
  have hpattern := compile_eq_ok_iff.mp h
  rw [compilePattern] at hpattern
  split at hpattern
  case h_1 p q hp hq =>
      cases hpattern
      exact ⟨p, hp, rfl⟩
  case h_2 => cases hpattern

/-- The lines among those that are indexed that are candidates for the literal. -/
theorem mem_candidatesFor_iff
    (hlong : 3 ≤ literal.length)
    {lines : List Text}
    {k : Nat} :
    (k : Int) ∈ candidatesFor (pythonHost U) config pattern
        (indexSourceLines (pythonHost U) (ignoresCase (pythonHost U) config pattern) lines)
        literal ↔
      ∃ line, lines[k]? = some line ∧
        if ignoresCase (pythonHost U) config pattern then
          ∀ t ∈ windows3 (U.lower literal), t ∈ windows3 (U.lower line)
        else ∀ t ∈ windows3 literal, t ∈ windows3 line := by
  rw [candidatesFor, indexSourceLines]
  cases ignoresCase (pythonHost U) config pattern with
  | false => exact mem_candidates_buildLineTrigramIndex_iff hlong
  | true =>
      have hlower : 3 ≤ ((pythonHost U).lower literal).length :=
        hlong.trans (CaseTables.length_le_length_lowerFrom [] literal)
      simp only [if_true]
      rw [mem_candidates_buildLineTrigramIndex_iff hlower, List.getElem?_map]
      constructor
      · rintro ⟨lowered, hlowered, hall⟩
        obtain ⟨line, hline, rfl⟩ := Option.map_eq_some_iff.mp hlowered
        exact ⟨line, hline, hall⟩
      · rintro ⟨line, hline, hall⟩
        exact ⟨U.lower line, Option.map_eq_some_iff.mpr ⟨line, hline, rfl⟩, hall⟩

/-- Every line with a match is a candidate. -/
def FiltersSafely
    (U : CaseTables)
    (config : SearchConfig)
    (pattern literal : Text)
    (re : Regexes)
    (lines : List Text) : Prop :=
  ∀ (k : Nat) (line : Text), lines[k]? = some line → re.searchText line = true →
    (k : Int) ∈ candidatesFor (pythonHost U) config pattern
      (indexSourceLines (pythonHost U) (ignoresCase (pythonHost U) config pattern) lines) literal

/-- A search that respects case filters safely, and so does one that ignores it if the characters of
the literal are lower-cased as they fold. -/
theorem filtersSafely_of_lowersAlike
    (hcompile : (pythonHost U).compile pattern (ignoresCase (pythonHost U) config pattern) false =
      .ok re)
    (hliteral : extractRequiredLiteral pattern = some literal)
    (halike : ignoresCase (pythonHost U) config pattern = true → ∀ c ∈ literal, U.LowersAlike c)
    (lines : List Text) :
    FiltersSafely U config pattern literal re lines := by
  intro k line hline hfound
  obtain ⟨pieces, hparse, hsearch⟩ := exists_pieces_of_compile hcompile
  rw [hsearch] at hfound
  have hcovers := StarPattern.covers_of_search hfound
    (mem_runs_of_extractRequiredLiteral hparse hliteral)
  have hlong := (of_extractRequiredLiteral hliteral).2.2
  refine (mem_candidatesFor_iff hlong).mpr ⟨line, hline, ?_⟩
  cases hcase : ignoresCase (pythonHost U) config pattern with
  | true =>
      rw [hcase] at hcovers
      have hinfix := CaseTables.lower_isInfix_of_covers (halike hcase) hcovers
      exact fun t ht => mem_windows3_of_isInfix hinfix ht
  | false =>
      rw [hcase] at hcovers
      obtain ⟨m, hinfix, hsame⟩ := hcovers
      have heq : literal = m := by
        refine List.forall₂_eq_eq_eq ▸ hsame.imp fun c x h => ?_
        simpa [sameChar] using h
      exact fun t ht => mem_windows3_of_isInfix (heq ▸ hinfix) ht

/-- If a character of the literal folds like one that is lower-cased differently, a matching line
with that one instead is not a candidate. -/
theorem exists_lost_line
    (hU : U.Separated)
    (hcompile : (pythonHost U).compile pattern (ignoresCase (pythonHost U) config pattern) false =
      .ok re)
    (hliteral : extractRequiredLiteral pattern = some literal)
    (hcase : ignoresCase (pythonHost U) config pattern = true)
    {line : Text}
    (hfound : re.searchText line = true)
    {c : Char}
    (hc : c ∈ literal)
    (halike : ¬ U.LowersAlike c) :
    ∃ lost, ¬ FiltersSafely U config pattern literal re [lost] := by
  obtain ⟨pieces, hparse, hsearch⟩ := exists_pieces_of_compile hcompile
  have hlong := (of_extractRequiredLiteral hliteral).2.2
  obtain ⟨form, hform, hmem⟩ := @CaseTables.exists_form_of_mem U _ c hc []
  obtain ⟨a, ha, ⟨x, hx, hnever⟩, honly⟩ := hU c halike form hform
  let f : Char → Char := fun y => if U.fold y = U.fold c then x else y
  have hfold : ∀ y, U.fold (f y) = U.fold y := by
    intro y
    by_cases hy : U.fold y = U.fold c
    · rw [show f y = x from if_pos hy, hx, hy]
    · rw [show f y = y from if_neg hy]
  have hnewline : ∀ y, f y = '\n' ↔ y = '\n' := by
    intro y
    constructor
    · exact fun h => U.newline_of_fold y ((hfold y).symm.trans (congrArg U.fold h))
    · rintro rfl
      exact U.newline_of_fold _ (hfold '\n')
  have hmatch : re.searchText (line.map f) = true := by
    rw [hsearch, hcase] at hfound ⊢
    refine StarPattern.search_map ?_ hnewline hfound
    intro c' y h
    have hsame : U.fold c' = U.fold y := by simpa [sameChar] using h
    simp [sameChar, hsame, hfold]
  -- the character of the literal's lower-case form is nowhere in that of the new line
  have habsent : a ∉ U.lower (line.map f) := by
    intro hmem'
    obtain ⟨y', hy', other, hother, ha'⟩ := CaseTables.exists_mem_forms_of_mem_lowerFrom hmem'
    obtain ⟨y, -, rfl⟩ := List.mem_map.mp hy'
    by_cases hy : U.fold y = U.fold c
    · rw [show f y = x from if_pos hy] at hother
      exact hnever other hother ha'
    · rw [show f y = y from if_neg hy] at hother
      exact hy (honly y other hother ha')
  refine ⟨line.map f, fun hsafe => ?_⟩
  obtain ⟨line', hline', hall⟩ := (mem_candidatesFor_iff hlong).mp (hsafe 0 _ rfl hmatch)
  cases hline'
  rw [if_pos hcase] at hall
  have hlower : 3 ≤ (U.lower literal).length :=
    hlong.trans (CaseTables.length_le_length_lowerFrom [] literal)
  obtain ⟨t, ht, hat⟩ := exists_mem_windows3_of_mem (hmem a ha) hlower
  exact habsent (mem_of_mem_windows3 (hall t ht) hat)

end Candidates

/-! ## The search with and without the prefilter -/

/-- The loop over candidates is the loop over all lines if every line that is reported is a
candidate. -/
theorem lineLoop_candidates_eq
    {file : String}
    {re : Regexes}
    {invertMatch : Bool}
    {maxCount : Option Nat}
    {candidates : List Int}
    {n k : Nat}
    {ls : List Bytes}
    (h : ∀ (i : Nat) line, ls[i]? = some line → lineMatches re invertMatch line = true →
      (n + i : Int) - 1 ∈ candidates) :
    lineLoop file re invertMatch maxCount (some candidates) n k ls =
      lineLoop file re invertMatch maxCount none n k ls := by
  induction ls generalizing n k with
  | nil => rfl
  | cons line rest ih =>
      have hrest : ∀ (i : Nat) line, rest[i]? = some line →
          lineMatches re invertMatch line = true → ((n + 1 : Nat) + i : Int) - 1 ∈ candidates := by
        intro i line' hline' hmatch
        have hmem := h (i + 1) line' hline' hmatch
        have hindex : ((n + 1 : Nat) + i : Int) - 1 = (n + (i + 1 : Nat) : Int) - 1 := by
          push_cast
          ring
        rwa [hindex]
      rw [lineLoop, lineLoop, ih hrest, ih hrest]
      by_cases hmatch : lineMatches re invertMatch line = true
      · have hfirst : (n : Int) - 1 ∈ candidates := by simpa using h 0 line rfl hmatch
        simp [hfirst]
      · simp [hmatch]

/-- The text of a source line that the loop reads again. -/
theorem lastTest_encodeSourceLine
    (re : Regexes)
    (line : Text) :
    lastTest re (encodeSourceLine line) = re.searchText line := by
  rw [lastTest, encodeSourceLine, decodeLine, fromUtf8_utf8, Option.getD_some,
    stripLineTerminator, removeNewline_concat]

/-- Whatever the lines of the file are, every line with a match is a candidate and the search with
the prefilter reports what it reports without it, if and only if case is respected, or no line
matches, or the characters of the literal are lower-cased as they fold. -/
theorem prefilter_loses_nothing_iff
    {U : CaseTables}
    {config : SearchConfig}
    {pattern literal : Text}
    {re : Regexes}
    (file : String)
    (hU : U.Separated)
    (hcompile : (pythonHost U).compile pattern (ignoresCase (pythonHost U) config pattern)
      config.fixedStrings = .ok re)
    (hliteral : prefilterLiteral config pattern = some literal) :
    (∀ lines : List Text, FiltersSafely U config pattern literal re lines ∧
        lineLoop file re config.invertMatch config.maxCount
            (some (candidatesFor (pythonHost U) config pattern
              (indexSourceLines (pythonHost U) (ignoresCase (pythonHost U) config pattern) lines)
              literal)) 1 0 (lines.map encodeSourceLine) =
          lineLoop file re config.invertMatch config.maxCount none 1 0
            (lines.map encodeSourceLine)) ↔
      (ignoresCase (pythonHost U) config pattern = true →
        (∃ line, re.searchText line = true) → ∀ c ∈ literal, U.LowersAlike c) := by
  obtain ⟨hfixed, hinvert, hextract⟩ := of_prefilterLiteral hliteral
  rw [hfixed] at hcompile
  have hloops : ∀ lines, FiltersSafely U config pattern literal re lines →
      lineLoop file re config.invertMatch config.maxCount
          (some (candidatesFor (pythonHost U) config pattern
            (indexSourceLines (pythonHost U) (ignoresCase (pythonHost U) config pattern) lines)
            literal)) 1 0 (lines.map encodeSourceLine) =
        lineLoop file re config.invertMatch config.maxCount none 1 0
          (lines.map encodeSourceLine) := by
    intro lines hsafe
    refine lineLoop_candidates_eq fun i encoded hencoded hmatch => ?_
    rw [List.getElem?_map] at hencoded
    obtain ⟨line, hline, rfl⟩ := Option.map_eq_some_iff.mp hencoded
    rw [hinvert, lineMatches_false, lastTest_encodeSourceLine, Bool.and_eq_true] at hmatch
    have hindex : ((1 : Nat) + i : Int) - 1 = i := by omega
    rw [hindex]
    exact hsafe i line hline hmatch.2
  constructor
  · rintro hall hcase ⟨line, hfound⟩ c hc
    by_contra halike
    obtain ⟨lost, hlost⟩ := exists_lost_line hU hcompile hextract hcase hfound hc halike
    exact hlost (hall [lost]).1
  · intro halike lines
    have hsafe : FiltersSafely U config pattern literal re lines := by
      by_cases hmatches : ∃ line, re.searchText line = true
      · exact filtersSafely_of_lowersAlike hcompile hextract
          (fun hcase => halike hcase hmatches) lines
      · exact fun k line _ hfound => absurd ⟨line, hfound⟩ hmatches
    exact ⟨hsafe, hloops lines hsafe⟩

/-- The pattern `abc*d` and its literal, where case is respected. -/
theorem prefilter_loses_nothing_letters :
    FiltersSafely plainTables plainConfig ['a', 'b', 'c', 'd', '*'] ['a', 'b', 'c']
        ((compilePattern plainTables ['a', 'b', 'c', 'd', '*'] false).get (by decide))
        [['x'], ['a', 'b', 'c']] ∧
      lineLoop "t" ((compilePattern plainTables ['a', 'b', 'c', 'd', '*'] false).get (by decide))
          false none
          (some (candidatesFor (pythonHost plainTables) plainConfig ['a', 'b', 'c', 'd', '*']
            (indexSourceLines (pythonHost plainTables) false [['x'], ['a', 'b', 'c']])
            ['a', 'b', 'c'])) 1 0 ([['x'], ['a', 'b', 'c']].map encodeSourceLine) =
        lineLoop "t" ((compilePattern plainTables ['a', 'b', 'c', 'd', '*'] false).get
          (by decide)) false none none 1 0 ([['x'], ['a', 'b', 'c']].map encodeSourceLine) := by
  have hseparated : plainTables.Separated := by
    intro c halike
    refine absurd ?_ halike
    rintro x rfl form hform form' hform'
    rw [List.mem_singleton.mp hform, List.mem_singleton.mp hform']
    rfl
  have hiff := @prefilter_loses_nothing_iff plainTables plainConfig ['a', 'b', 'c', 'd', '*']
    ['a', 'b', 'c'] ((compilePattern plainTables ['a', 'b', 'c', 'd', '*'] false).get (by decide))
    "t" hseparated rfl (by decide)
  exact hiff.mpr (fun hcase => nomatch hcase) [['x'], ['a', 'b', 'c']]

/-- The case of ASCII letters and of the long s. -/
def longSTables : CaseTables where
  isLower := fun _ => false
  fold := fun c => if c = 'ſ' then 's' else asciiLowerChar c
  forms := fun c => [[asciiLowerChar c]]
  lowerBetween := fun _ c _ => [asciiLowerChar c]
  lowerBetween_mem := fun _ _ _ => List.mem_singleton_self _
  ne_nil_of_mem_forms := fun c form h => by
    rw [List.mem_singleton.mp h]
    exact List.cons_ne_nil _ []
  newline_of_fold := fun c h => by
    rw [show (if '\n' = 'ſ' then 's' else asciiLowerChar '\n') = '\n' by decide] at h
    split at h
    case isTrue => exact absurd h (by decide)
    case isFalse =>
        have hcode := congrArg Char.toNat h
        rw [asciiLowerChar_toNat, show '\n'.toNat = 10 by decide] at hcode
        refine Char.toNat_inj.mp ?_
        split at hcode
        · omega
        · exact hcode

/-- Where case is ignored, `sun` matches `ſun`, but that line is not a candidate. -/
theorem longS_line_lost :
    ((compilePattern longSTables ['s', 'u', 'n'] true).get (by decide)).searchText
        ['ſ', 'u', 'n'] = true ∧
      prefilterLiteral { plainConfig with ignoreCase := true } ['s', 'u', 'n'] =
        some ['s', 'u', 'n'] ∧
      ((0 : Nat) : Int) ∉ candidatesFor (pythonHost longSTables)
        { plainConfig with ignoreCase := true } ['s', 'u', 'n']
        (indexSourceLines (pythonHost longSTables) true [['ſ', 'u', 'n']]) ['s', 'u', 'n'] := by
  refine ⟨by decide, by decide, ?_⟩
  decide

end CpuSearch
end TensorGrep
