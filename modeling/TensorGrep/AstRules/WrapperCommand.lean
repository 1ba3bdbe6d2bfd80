import TensorGrep.AstRules.Documents
import TensorGrep.Kernel.BlockScalar
import TensorGrep.Kernel.ExceptList

/-!
# Commands of the ast-grep wrapper

A pattern of one line is an argument of the command.  A pattern with a line end goes into
a rule file, as a literal block scalar with four spaces in front of every line.

`multilinePattern_reaches_iff` says which patterns are read back from that file: the
indentation of the first line is lost, and so is everything that is a line end for Python
and not for YAML.
-/

namespace TensorGrep
namespace AstRules

open Kernel

/-! ## The command -/

/-- What `_build_command` reads of a `SearchConfig`. -/
structure WrapperConfig where
  lang : Option Text
  astSelector : Option Text
  astStrictness : Option Text
  glob : List Text
  astStdin : Bool

/-- Why there is no command. -/
inductive CommandError where
  | unsupportedLanguage (language : Text)
  | optionsOfMultilinePattern

/-- A value that is not empty. -/
def givenText (value : Option Text) : Option Text :=
  value.filter fun t => t ≠ []

/-- A flag with a value, if it is given. -/
def flagOf
    (flag : String)
    (value : Option Text) : List Text :=
  match givenText value with
  | some t => [flag.toList, t]
  | none => []

/-- `str.splitlines`. -/
def pyLines (t : Text) : List Text :=
  (splitlines t).map lineBody

/-- What is written to the rule file. -/
def inlineRule
    (language pattern : Text) : Text :=
  ['\n'].intercalate
    (["id: inline-rule".toList, "language: ".toList ++ language, "rule:".toList,
        "  pattern: |".toList] ++
      (pyLines pattern).map (indented 4) ++ [[]])

/-- The pattern has a line end. -/
def isMultiline (pattern : Text) : Bool :=
  pattern.any fun c => c = '\n' || c = '\r'

/-- The language of the command, if one is asked for. -/
def commandLanguage
    (texts : Texts)
    (config : WrapperConfig) : Except CommandError (Option Text) :=
  match givenText config.lang with
  | none => .ok none
  | some language =>
      match normalizeAstLanguage texts language with
      | some name => .ok (some name)
      | none => .error (.unsupportedLanguage language)

/-- `_build_command`: the command, and what its rule file contains. -/
def buildCommand
    (texts : Texts)
    (binary ruleFile pattern : Text)
    (paths : List Text)
    (config : WrapperConfig) : Except CommandError (List Text × Option Text) := do
  let lang ← commandLanguage texts config
  if isMultiline pattern ∧ (givenText config.astSelector ≠ none ∨
      givenText config.astStrictness ≠ none ∨ config.glob ≠ [] ∨ config.astStdin) then
    .error .optionsOfMultilinePattern
  else if isMultiline pattern then
    .ok ([binary, "scan".toList, "--json".toList, "--rule".toList, ruleFile, "--".toList] ++ paths,
      some (inlineRule (lang.getD "python".toList) pattern))
  else
    .ok ([binary, "run".toList, "--json".toList, "-p".toList, pattern] ++ flagOf "--lang" lang ++
      flagOf "--selector" config.astSelector ++ flagOf "--strictness" config.astStrictness ++
      config.glob.flatMap (fun glob => ["--globs".toList, glob]) ++
      if config.astStdin then ["--stdin".toList] else "--".toList :: paths, none)

/-! ## Reading the rule file -/

/-- A character that may stand on a line of a YAML file. -/
def isNbChar (c : Char) : Bool :=
  c = '\t' || (0x20 ≤ c.toNat && c.toNat ≤ 0x7E) || c.toNat = 0x85 ||
    (0xA0 ≤ c.toNat && c.toNat ≤ 0xFFFD && c.toNat ≠ 0xFEFF) || 0x10000 ≤ c.toNat

/-- The lines behind a scalar are comments or empty; the first one is a comment. -/
def onlyComments : List Text → Bool
  | [] => true
  | first :: rest =>
      ((first.dropWhile (· = ' ')).head? = some '#') &&
        rest.all fun line =>
          let shown := line.dropWhile fun c => c = ' ' || c = '\t'
          shown = [] || shown.head? = some '#'

/-- `rule.pattern` of a rule file, as YAML reads it. -/
def rulePattern (file : Text) : Option Text :=
  match (linesOf '\n' (universalNewlines file)).map removeNewline with
  | idLine :: languageLine :: ruleLine :: patternLine :: lines =>
      if (idLine :: languageLine :: ruleLine :: patternLine :: lines).all fun line =>
          line.all isNbChar then
        if idLine = "id: inline-rule".toList ∧ "language: ".toList <+: languageLine ∧
            ruleLine = "rule:".toList ∧ patternLine = "  pattern: |".toList then
          match literalBlock 2 lines with
          | some (value, rest) => if onlyComments rest then some value else none
          | none => none
        else none
      else none
  | _ => none

/-! ## Python's lines -/

/-- The characters of the lines are those that end no line. -/
theorem exists_mem_pyLines_iff
    {t : Text}
    {c : Char} :
    (∃ line ∈ pyLines t, c ∈ line) ↔ c ∈ t ∧ c ∉ lineBoundaries :=
  exists_mem_lineBody_iff

/-- The lines of a text with line feeds only, put together again. -/
theorem flatMap_pyLines
    {t : Text}
    (h : ∀ c ∈ t, c ∈ lineBoundaries → c = '\n') :
    (pyLines t).flatMap (fun line => line ++ ['\n']) = t ∨
      (pyLines t).flatMap (fun line => line ++ ['\n']) = t ++ ['\n'] ∧
        t.getLast? ≠ some '\n' := by
  rw [pyLines]
  induction t with
  | nil => exact Or.inl rfl
  | cons c t ih =>
      have hrest := ih fun d hd => h d (List.mem_cons_of_mem _ hd)
      by_cases hc : c ∈ lineBoundaries
      · obtain rfl := h c List.mem_cons_self hc
        rw [splitlines_cons_of_boundary hc (fun heq => absurd heq (by decide)), List.map_cons,
          List.flatMap_cons]
        have hbody : lineBody ['\n'] = [] := rfl
        rw [hbody, List.nil_append, List.singleton_append, List.cons_append]
        rcases hrest with hrest | ⟨hrest, hlast⟩
        · exact Or.inl (congrArg _ hrest)
        · cases t with
          | nil => cases hrest
          | cons d t => exact Or.inr ⟨congrArg _ hrest, by rwa [List.getLast?_cons_cons]⟩
      · rw [splitlines_cons_of_ne hc, map_lineBody_pushChar hc fun line => ne_nil_of_mem_splitlines]
        cases t with
        | nil =>
            refine Or.inr ⟨rfl, ?_⟩
            rw [List.getLast?_singleton]
            rintro ⟨rfl⟩
            exact hc (by decide)
        | cons d t =>
            cases hlines : (splitlines (d :: t)).map lineBody with
            | nil =>
                rw [List.map_eq_nil_iff, splitlines_eq_nil_iff] at hlines
                cases hlines
            | cons line lines =>
                rw [hlines, List.flatMap_cons] at hrest
                rw [pushChar, List.flatMap_cons, List.cons_append, List.cons_append,
                  List.getLast?_cons_cons]
                rcases hrest with hrest | ⟨hrest, hlast⟩
                · exact Or.inl (congrArg _ hrest)
                · exact Or.inr ⟨congrArg _ hrest, hlast⟩

/-! ## Reading what was written -/

/-- The lines of a file in which every line has its end. -/
theorem linesOf_flatMap
    {lines : List Text}
    (h : ∀ line ∈ lines, '\n' ∉ line) :
    (linesOf '\n' (lines.flatMap fun line => line ++ ['\n'])).map removeNewline = lines := by
  induction lines with
  | nil => rfl
  | cons line lines ih =>
      have hend : AtLineEnd '\n' (line ++ ['\n']) := Or.inr List.getLast?_concat
      rw [List.flatMap_cons, linesOf_append hend,
        linesOf_concat_of_not_mem (h line List.mem_cons_self), List.map_append, List.map_singleton,
        removeNewline_concat, ih fun line' hline' => h line' (List.mem_cons_of_mem _ hline')]
      rfl

theorem intercalate_newline
    (lines : List Text) :
    ['\n'].intercalate (lines ++ [[]]) = lines.flatMap fun line => line ++ ['\n'] := by
  induction lines with
  | nil => rfl
  | cons line lines ih =>
      rw [List.cons_append, List.intercalate_cons_of_ne_nil (by simp), ih, List.flatMap_cons]

/-- The texts of a rule file that do not come from the pattern. -/
def fixedTexts : List String :=
  ["id: inline-rule", "language: ", "rule:", "  pattern: |"] ++ astLanguageAliases.map Prod.snd

/-- The characters of the fixed texts can stand on a line. -/
theorem nbChar_of_mem_fixedTexts
    {s : String}
    (hs : s ∈ fixedTexts) :
    ∀ c ∈ s.toList, isNbChar c = true ∧ c ≠ '\n' ∧ c ≠ '\r' := by
  have hall : (fixedTexts.all fun s =>
      s.toList.all fun c => isNbChar c && c ≠ '\n' && c ≠ '\r') = true := by
    decide
  intro c hc
  simpa [and_assoc] using List.all_eq_true.mp (List.all_eq_true.mp hall s hs) c hc

/-- The characters of the name of a language can stand on a line. -/
theorem nbChar_of_normalizeAstLanguage
    {texts : Texts}
    {language name : Text}
    (h : normalizeAstLanguage texts language = some name) :
    ∀ c ∈ name, isNbChar c = true ∧ c ≠ '\n' ∧ c ≠ '\r' := by
  rw [normalizeAstLanguage, Option.map_eq_some_iff] at h
  obtain ⟨entry, hfound, rfl⟩ := h
  exact nbChar_of_mem_fixedTexts
    (List.mem_append_right _ (List.mem_map_of_mem (List.mem_of_find?_eq_some hfound)))

/-- The lines of a rule file without those of the pattern. -/
def ruleHead (language : Text) : List Text :=
  ["id: inline-rule".toList, "language: ".toList ++ language, "rule:".toList,
    "  pattern: |".toList]

theorem nbChar_of_mem_ruleHead
    {language : Text}
    (hlanguage : ∀ c ∈ language, isNbChar c = true ∧ c ≠ '\n' ∧ c ≠ '\r') :
    ∀ line ∈ ruleHead language, ∀ c ∈ line, isNbChar c = true ∧ c ≠ '\n' ∧ c ≠ '\r' := by
  have hplain : ∀ s ∈ ["id: inline-rule", "language: ", "rule:", "  pattern: |"],
      ∀ c ∈ s.toList, isNbChar c = true ∧ c ≠ '\n' ∧ c ≠ '\r' := fun s hs =>
    nbChar_of_mem_fixedTexts (List.mem_append_left _ hs)
  intro line hline c hc
  rw [ruleHead] at hline
  simp only [List.mem_cons, List.not_mem_nil, or_false] at hline
  rcases hline with rfl | rfl | rfl | rfl
  · exact hplain _ (by simp) c hc
  · rcases List.mem_append.mp hc with hc | hc
    · exact hplain "language: " (by simp) c hc
    · exact hlanguage c hc
  · exact hplain _ (by simp) c hc
  · exact hplain _ (by simp) c hc

theorem notMem_pyLines
    {t line : Text}
    (hline : line ∈ pyLines t) :
    '\n' ∉ line ∧ '\r' ∉ line := by
  constructor
  · intro hc
    exact (exists_mem_pyLines_iff.mp ⟨line, hline, hc⟩).2 (by decide)
  · intro hc
    exact (exists_mem_pyLines_iff.mp ⟨line, hline, hc⟩).2 (by decide)

theorem notMem_indented
    {width : ℕ}
    {line : Text}
    {c : Char}
    (hspace : c ≠ ' ')
    (hc : c ∉ line) :
    c ∉ indented width line := by
  rw [indented, List.mem_append, not_or]
  exact ⟨fun hmem => hspace (List.eq_of_mem_replicate hmem), hc⟩

/-- The pattern of the rule file, as YAML reads it. -/
theorem rulePattern_inlineRule
    {language pattern : Text}
    (hlanguage : ∀ c ∈ language, isNbChar c = true ∧ c ≠ '\n' ∧ c ≠ '\r') :
    rulePattern (inlineRule language pattern) =
      if (pyLines pattern).all fun line => line.all isNbChar then
        match literalBlock 2 ((pyLines pattern).map (indented 4)) with
        | some (value, rest) => if onlyComments rest then some value else none
        | none => none
      else none := by
  have hhead := nbChar_of_mem_ruleHead hlanguage
  have hends : ∀ line ∈ ruleHead language ++ (pyLines pattern).map (indented 4),
      '\n' ∉ line ∧ '\r' ∉ line := by
    intro line hline
    rcases List.mem_append.mp hline with hline | hline
    · exact ⟨fun hc => (hhead line hline _ hc).2.1 rfl, fun hc => (hhead line hline _ hc).2.2 rfl⟩
    · obtain ⟨line', hline', rfl⟩ := List.mem_map.mp hline
      have hplain := notMem_pyLines hline'
      exact ⟨notMem_indented (by decide) hplain.1, notMem_indented (by decide) hplain.2⟩
  have hfile : inlineRule language pattern =
      (ruleHead language ++ (pyLines pattern).map (indented 4)).flatMap
        fun line => line ++ ['\n'] := by
    rw [← intercalate_newline]
    rfl
  have hlines : (linesOf '\n' (universalNewlines (inlineRule language pattern))).map
      removeNewline = ruleHead language ++ (pyLines pattern).map (indented 4) := by
    rw [hfile, universalNewlines_of_not_mem, linesOf_flatMap fun line hline => (hends line hline).1]
    intro hmem
    obtain ⟨line, hline, hc⟩ := List.mem_flatMap.mp hmem
    rcases List.mem_append.mp hc with hc | hc
    · exact (hends line hline).2 hc
    · exact absurd (List.mem_singleton.mp hc) (by decide)
  have hshown : ((ruleHead language ++ (pyLines pattern).map (indented 4)).all fun line =>
      line.all isNbChar) = (pyLines pattern).all fun line => line.all isNbChar := by
    have hheadall : ((ruleHead language).all fun line => line.all isNbChar) = true := by
      refine List.all_eq_true.mpr fun line hline => List.all_eq_true.mpr fun c hc => ?_
      exact (hhead line hline c hc).1
    rw [List.all_append, hheadall, Bool.true_and, List.all_map]
    refine congrArg (List.all (pyLines pattern)) (funext fun line => ?_)
    rw [Function.comp_apply, indented, List.all_append, List.all_replicate]
    rfl
  rw [rulePattern, hlines]
  rw [ruleHead] at hshown ⊢
  rw [← hshown]
  simp only [List.cons_append, List.nil_append, List.prefix_append, and_self, if_true]

/-! ## Which patterns are read back -/

/-- The line ends are those of YAML and the other characters may stand on a line, and the first
character that ends no line is no space, with two line ends at most at the end of the pattern; or
the pattern is one line end. -/
def KeptByBlockScalar (pattern : Text) : Prop :=
  (∀ c ∈ pattern, c = '\n' ∨ c = '\r' ∨ c ∉ lineBoundaries ∧ isNbChar c = true) ∧
    (universalNewlines pattern = ['\n'] ∨
      (∃ c, firstChar (universalNewlines pattern) = some c ∧ c ≠ ' ') ∧
        trailingNewlines (universalNewlines pattern) ≤ 2)

/-- The file that is written is the rule file of a pattern with a line end. -/
theorem inlineRule_of_buildCommand
    {texts : Texts}
    {binary ruleFile pattern file : Text}
    {paths command : List Text}
    {config : WrapperConfig}
    (h : buildCommand texts binary ruleFile pattern paths config = .ok (command, some file)) :
    isMultiline pattern = true ∧ ∃ language, file = inlineRule language pattern ∧
      ∀ c ∈ language, isNbChar c = true ∧ c ≠ '\n' ∧ c ≠ '\r' := by
  obtain ⟨lang, hlang, hrest⟩ := bind_eq_ok_iff.mp h
  have hname : ∀ c ∈ lang.getD "python".toList, isNbChar c = true ∧ c ≠ '\n' ∧ c ≠ '\r' := by
    have hpython : ("python", "python") ∈ astLanguageAliases := by simp [astLanguageAliases]
    rw [commandLanguage] at hlang
    split at hlang
    · cases hlang
      exact nbChar_of_mem_fixedTexts (List.mem_append_right _ (List.mem_map_of_mem hpython))
    · split at hlang
      · next name hname =>
          cases hlang
          exact nbChar_of_normalizeAstLanguage hname
      · cases hlang
  split at hrest
  · cases hrest
  · split at hrest
    · next hmultiline =>
        cases hrest
        exact ⟨hmultiline, _, rfl, hname⟩
    · cases hrest

/-- What is read is the value of a block scalar whose lines may stand in a file. -/
theorem literalBlock_of_rulePattern
    {language pattern value : Text}
    (hlanguage : ∀ c ∈ language, isNbChar c = true ∧ c ≠ '\n' ∧ c ≠ '\r')
    (h : rulePattern (inlineRule language pattern) = some value) :
    (∀ line ∈ pyLines pattern, ∀ c ∈ line, isNbChar c = true) ∧
      ∃ rest, literalBlock 2 ((pyLines pattern).map (indented 4)) = some (value, rest) := by
  rw [rulePattern_inlineRule hlanguage] at h
  split at h
  · next hshown =>
      refine ⟨fun line hline => List.all_eq_true.mp (List.all_eq_true.mp hshown line hline), ?_⟩
      split at h
      · next value' rest hblock =>
          split at h
          · cases h
            exact ⟨rest, hblock⟩
          · cases h
      · cases h
  · cases h

/-- A value that is read has none of the characters that a line cannot have. -/
theorem kept_chars_of_rulePattern
    {language pattern value : Text}
    (hlanguage : ∀ c ∈ language, isNbChar c = true ∧ c ≠ '\n' ∧ c ≠ '\r')
    (h : rulePattern (inlineRule language pattern) = some value)
    (hkept : SameUpToNewline value (universalNewlines pattern))
    {c : Char}
    (hc : c ∈ pattern) :
    c = '\n' ∨ c = '\r' ∨ c ∉ lineBoundaries ∧ isNbChar c = true := by
  obtain ⟨hshown, rest, hblock⟩ := literalBlock_of_rulePattern hlanguage h
  by_cases hfeed : c = '\n'
  · exact Or.inl hfeed
  by_cases hreturn : c = '\r'
  · exact Or.inr (Or.inl hreturn)
  have hplain : c ∉ lineBoundaries := by
    intro hboundary
    have hvalue := (hkept.mem_iff hfeed).mpr ((mem_universalNewlines_iff hfeed).mpr ⟨hc, hreturn⟩)
    obtain ⟨line, hline, hmem⟩ := (mem_literalBlock hblock hvalue).resolve_left hfeed
    obtain ⟨line', hline', rfl⟩ := List.mem_map.mp hline
    by_cases hspace : c = ' '
    · subst hspace
      exact absurd hboundary (by decide)
    · by_contra
      refine notMem_indented hspace (fun hmem' => ?_) hmem
      exact (exists_mem_pyLines_iff.mp ⟨line', hline', hmem'⟩).2 hboundary
  obtain ⟨line, hline, hmem⟩ := exists_mem_pyLines_iff.mpr ⟨hc, hplain⟩
  exact Or.inr (Or.inr ⟨hplain, hshown line hline c hmem⟩)

/-- YAML reads the pattern back, up to line ends and one line feed at the end, exactly if the block
scalar keeps it. -/
theorem multilinePattern_reaches_iff
    {texts : Texts}
    {binary ruleFile pattern file : Text}
    {paths command : List Text}
    {config : WrapperConfig}
    (hcommand :
      buildCommand texts binary ruleFile pattern paths config = .ok (command, some file)) :
    (∃ value, rulePattern file = some value ∧
      SameUpToNewline value (universalNewlines pattern)) ↔ KeptByBlockScalar pattern := by
  obtain ⟨hmultiline, language, rfl, hlanguage⟩ := inlineRule_of_buildCommand hcommand
  have hlines : ∀ line ∈ pyLines pattern, '\n' ∉ line := fun line hline =>
    (notMem_pyLines hline).1
  by_cases hchars : ∀ c ∈ pattern, c = '\n' ∨ c = '\r' ∨ c ∉ lineBoundaries ∧ isNbChar c = true
  swap
  · refine iff_of_false ?_ fun h => hchars h.1
    rintro ⟨value, hvalue, hkept⟩
    exact hchars fun c hc => kept_chars_of_rulePattern hlanguage hvalue hkept hc
  rw [KeptByBlockScalar, and_iff_right hchars]
  have hshown : ((pyLines pattern).all fun line => line.all isNbChar) = true := by
    refine List.all_eq_true.mpr fun line hline => List.all_eq_true.mpr fun c hc => ?_
    obtain ⟨hmem, hplain⟩ := exists_mem_pyLines_iff.mp ⟨line, hline, hc⟩
    rcases hchars c hmem with rfl | rfl | hgood
    · exact absurd (by decide) hplain
    · exact absurd (by decide) hplain
    · exact hgood.2
  have hfull : (pyLines pattern).flatMap (fun line => line ++ ['\n']) = universalNewlines pattern ∨
      (pyLines pattern).flatMap (fun line => line ++ ['\n']) = universalNewlines pattern ++ ['\n'] ∧
        (universalNewlines pattern).getLast? ≠ some '\n' := by
    rw [show pyLines pattern = pyLines (universalNewlines pattern) from
      (map_lineBody_splitlines_universalNewlines pattern).symm]
    refine flatMap_pyLines fun c hc hboundary => ?_
    by_contra hfeed
    obtain ⟨hmem, hreturn⟩ := (mem_universalNewlines_iff hfeed).mp hc
    rcases hchars c hmem with hsame | hsame | hgood
    · exact hfeed hsame
    · exact hreturn hsame
    · exact hgood.1 hboundary
  have hfirst : firstChar (universalNewlines pattern) =
      firstChar ((pyLines pattern).flatMap fun line => line ++ ['\n']) := by
    rcases hfull with hfull | ⟨hfull, -⟩
    · rw [hfull]
    · rw [hfull, firstChar_concat_newline]
  have hread := @rulePattern_inlineRule language pattern hlanguage
  rw [if_pos hshown] at hread
  rcases empty_or_exists_first (pyLines pattern) with
    hempty | ⟨before, c, t, behind, hsplit, hbefore⟩
  · -- there are only line ends
    rw [firstChar_flatMap_nil hempty] at hfirst
    have hblank : ∀ line ∈ (pyLines pattern).map (indented 4), isBlankLine line = true := by
      intro line hline
      obtain ⟨line', hline', rfl⟩ := List.mem_map.mp hline
      rw [isBlankLine_indented, hempty line' hline']
      rfl
    rw [literalBlock_of_blank hblank] at hread
    have hvalue : rulePattern (inlineRule language pattern) = some [] := hread
    have hsome : universalNewlines pattern ≠ [] := by
      intro hnil
      obtain ⟨c, hc, -⟩ := List.any_eq_true.mp hmultiline
      rw [universalNewlines_eq_nil_iff.mp hnil] at hc
      cases hc
    simp only [hvalue, Option.some.injEq, exists_eq_left', SameUpToNewline, List.nil_append]
    constructor
    · rintro (hnil | hone | hlong)
      · exact absurd hnil.symm hsome
      · exact Or.inl hone.symm
      · exact absurd hlong (by simp)
    · rintro (hone | ⟨⟨c, hc, -⟩, -⟩)
      · exact Or.inr (Or.inl hone.symm)
      · rw [hfirst] at hc
        cases hc
  · have hc : c ≠ '\n' := by
      rintro rfl
      exact hlines _ (hsplit ▸ List.mem_append_right _ List.mem_cons_self) List.mem_cons_self
    have hsome : firstChar (universalNewlines pattern) = some c := by
      rw [hfirst, hsplit, List.flatMap_append, List.flatMap_cons, List.cons_append,
        List.cons_append, firstChar_flatMap_nil_append hbefore hc]
    have hnot : universalNewlines pattern ≠ ['\n'] := by
      intro hone
      rw [hone] at hsome
      cases hsome
    rw [or_iff_right hnot, hsome]
    by_cases hspace : c = ' '
    · -- the indentation of the first line is lost
      subst hspace
      refine iff_of_false ?_ ?_
      · rintro ⟨value, hvalue, hkept⟩
        obtain ⟨-, rest, hblock⟩ := literalBlock_of_rulePattern hlanguage hvalue
        refine firstChar_literalBlock ?_ hblock (hkept.firstChar.trans hsome)
        intro line hline
        obtain ⟨line', hline', rfl⟩ := List.mem_map.mp hline
        exact notMem_indented (by decide) (hlines line' hline')
      · rintro ⟨⟨d, hd, hne⟩, -⟩
        exact hne (Option.some.inj hd).symm
    · have hspaces : leadingSpaces (c :: t) = 0 := by
        rw [leadingSpaces, List.takeWhile_cons, if_neg]
        · rfl
        · rw [decide_eq_true_eq]
          exact hspace
      have hshownLine : isBlankLine (c :: t) = false := by
        rw [isBlankLine, List.all_cons, decide_eq_false hspace, Bool.false_and]
      have hwidth : 2 < 4 := by omega
      have hblock := @literalBlock_indented 2 4 hwidth before behind (c :: t) hbefore hshownLine
        hspaces
      rw [← hsplit] at hblock
      rw [hblock] at hread
      have hvalue : rulePattern (inlineRule language pattern) =
          some (clipLines (pyLines pattern)) := hread
      have hkept := sameUpToNewline_clipLines_iff hlines
        ⟨c :: t, hsplit ▸ List.mem_append_right _ List.mem_cons_self, List.cons_ne_nil c t⟩ hfull
      simp only [hvalue, Option.some.injEq, exists_eq_left', hkept]
      exact (and_iff_right hspace).symm

/-- A search without options. -/
def plainConfig : WrapperConfig where
  lang := none
  astSelector := none
  astStrictness := none
  glob := []
  astStdin := false

/-- The command for a pattern with a line end has a rule file. -/
theorem exists_rule_file
    {pattern : Text}
    (h : isMultiline pattern = true) :
    ∃ command, buildCommand plainTexts "sg".toList "r.yml".toList pattern [] plainConfig =
      .ok (command, some (inlineRule "python".toList pattern)) := by
  refine ⟨["sg".toList, "scan".toList, "--json".toList, "--rule".toList, "r.yml".toList,
    "--".toList], bind_eq_ok_iff.mpr ⟨none, rfl, ?_⟩⟩
  rw [if_neg, if_pos h]
  · rfl
  · rintro ⟨-, hselector | hstrictness | hglob | hstdin⟩
    · exact hselector rfl
    · exact hstrictness rfl
    · exact hglob rfl
    · cases hstdin

/-- Two lines without indentation are read back. -/
theorem multilinePattern_reaches_plain :
    ∃ command file, buildCommand plainTexts "sg".toList "r.yml".toList "a\nb".toList []
        plainConfig = .ok (command, some file) ∧
      ∃ value, rulePattern file = some value ∧
        SameUpToNewline value (universalNewlines "a\nb".toList) := by
  have hmultiline : isMultiline "a\nb".toList = true := by decide
  obtain ⟨command, hcommand⟩ := exists_rule_file hmultiline
  refine ⟨command, _, hcommand, (multilinePattern_reaches_iff hcommand).mpr ⟨?_, Or.inr ⟨?_, ?_⟩⟩⟩
  · intro c hc
    have hcases : c = 'a' ∨ c = '\n' ∨ c = 'b' := by simpa using hc
    rcases hcases with rfl | rfl | rfl
    · exact Or.inr (Or.inr ⟨by decide, by decide⟩)
    · exact Or.inl rfl
    · exact Or.inr (Or.inr ⟨by decide, by decide⟩)
  · exact ⟨'a', by decide, by decide⟩
  · decide

/-- The space in front of the first line is lost. -/
theorem indented_pattern_changes :
    ∃ command file, buildCommand plainTexts "sg".toList "r.yml".toList " a\nb".toList []
        plainConfig = .ok (command, some file) ∧
      ¬ ∃ value, rulePattern file = some value ∧
        SameUpToNewline value (universalNewlines " a\nb".toList) := by
  have hmultiline : isMultiline " a\nb".toList = true := by decide
  obtain ⟨command, hcommand⟩ := exists_rule_file hmultiline
  refine ⟨command, _, hcommand, ?_⟩
  rintro ⟨value, hvalue, -⟩
  have hnone : rulePattern (inlineRule "python".toList " a\nb".toList) = none := by decide
  rw [hnone] at hvalue
  cases hvalue

end AstRules
end TensorGrep
