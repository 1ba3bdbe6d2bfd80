import Mathlib
import TensorGrep.AstRules.Documents
import TensorGrep.Kernel.LastMatch

/-!
# Backend hints

Before a scan a backend is chosen for every id of a rule.  Rust looks at the shape
of the first pattern of a rule.  Python looks at the shapes of all its patterns and
at the language of the project.  Both keep one hint for an id, that of the last
rule that has it.  A native hint serves every rule with the id if and only if the
last of them begins with a pattern that is not native, or all their patterns are
(`hints_serve_all_iff`).
-/

namespace TensorGrep
namespace AstRules

open Kernel

/-! ## Shapes -/

/-- White space for `str::trim`: the separators from U+001C to U+001F are none. -/
def isRustSpace (c : Char) : Bool :=
  isPythonSpace c && !(0x1C ≤ c.toNat && c.toNat ≤ 0x1F)

/-- A letter or an underscore. -/
def isNameStart (c : Char) : Bool :=
  c.isAlpha || c = '_'

/-- A letter, a digit or an underscore. -/
def isNamePart (c : Char) : Bool :=
  c.isAlphanum || c = '_'

/-- A name, or a text that begins with a bracket. -/
def isNativeShaped : Text → Bool
  | [] => false
  | c :: rest => c = '(' || (isNameStart c && rest.all isNamePart)

/-- The shape for `select_ast_backend_name_for_pattern` in Rust. -/
def rustNativeShaped (pattern : Text) : Bool :=
  isNativeShaped (trimWhere isRustSpace pattern)

/-- `_pattern_is_native_shaped` -/
def patternIsNativeShaped (pattern : Text) : Bool :=
  isNativeShaped (trimWhere isPythonSpace pattern)

/-! ## Hints -/

/-- `_NATIVE_AST_LANGUAGES` -/
def nativeAstLanguages : List String :=
  ["python", "javascript", "typescript", "tsx", "rust"]

/-- `is_native_ast_language` -/
def isNativeAstLanguage
    (texts : Texts)
    (language : Text) : Bool :=
  (normalizeAstLanguage texts language).any fun name =>
    nativeAstLanguages.any fun native => native.toList = name

/-- `select_ast_backend_name_for_pattern` in Rust -/
def selectAstBackendNameForPattern (pattern : Text) : BackendName :=
  if rustNativeShaped pattern then .astBackend else .astGrepWrapperBackend

/-- `_select_ast_backend_name_for_pattern` in Python -/
def pythonBackendNameForPattern
    (texts : Texts)
    (pattern language : Text) : BackendName :=
  if patternIsNativeShaped pattern && isNativeAstLanguage texts language then .astBackend
  else .astGrepWrapperBackend

/-- `_rule_needs_ast_grep_wrapper` -/
def ruleNeedsAstGrepWrapper (rule : RuleSpec) : Bool :=
  1 < rule.memberPatterns.length && rule.memberPatterns.any fun m => !patternIsNativeShaped m

/-- `_select_ast_backend_name_for_rule` -/
def selectAstBackendNameForRule
    (texts : Texts)
    (rule : RuleSpec)
    (language : Text) : BackendName :=
  if ruleNeedsAstGrepWrapper rule then .astGrepWrapperBackend
  else pythonBackendNameForPattern texts (rule.memberPatterns.headD []) language

/-- The hints for ids, where a later rule takes the place of an earlier one. -/
def backendHints
    (name : RuleSpec → BackendName)
    (rules : List RuleSpec) : Text → Option BackendName :=
  rules.foldl (fun hints rule => Function.update hints rule.id (some (name rule))) fun _ => none

/-- `precompute_orchestration_hints` in Rust -/
def precomputeOrchestrationHints (rules : List RuleSpec) : Text → Option BackendName :=
  backendHints (fun rule => selectAstBackendNameForPattern rule.pattern) rules

/-- `_precompute_orchestration_hints` in Python, for the language of the project -/
def pythonOrchestrationHints
    (texts : Texts)
    (language : Text)
    (rules : List RuleSpec) : Text → Option BackendName :=
  backendHints (fun rule => selectAstBackendNameForRule texts rule language) rules

/-! ## Trimming -/

section Trimming

theorem isPythonSpace_of_isRustSpace
    {c : Char}
    (h : isRustSpace c = true) :
    isPythonSpace c = true :=
  (Bool.and_eq_true_iff.mp h).1

/-- What is trimmed stands between blanks. -/
theorem exists_blanks_trimWhere
    (space : Char → Bool)
    (t : Text) :
    ∃ before after, t = before ++ trimWhere space t ++ after ∧
      (∀ c ∈ before, space c = true) ∧ ∀ c ∈ after, space c = true := by
  refine ⟨t.takeWhile space, (((t.dropWhile space).reverse).takeWhile space).reverse, ?_, ?_, ?_⟩
  · rw [List.append_assoc, trimWhere, List.rdropWhile, ← List.reverse_append,
      List.takeWhile_append_dropWhile, List.reverse_reverse, List.takeWhile_append_dropWhile]
  · exact fun c hc => List.mem_takeWhile_imp hc
  · exact fun c hc => List.mem_takeWhile_imp (List.mem_reverse.mp hc)

/-- The characters from 0x30 to 0x7E are no white space. -/
theorem isPythonSpace_eq_false
    {c : Char}
    (hlow : 0x28 ≤ c.toNat)
    (hhigh : c.toNat ≤ 0x7E) :
    isPythonSpace c = false := by
  have hval : (Fin.ofNat 0x110000 c.toNat).val = c.toNat := Nat.mod_eq_of_lt (by omega)
  rw [isPythonSpace, isSpaceCode, hval, ← Bool.not_eq_true]
  simp only [Bool.or_eq_true, Bool.and_eq_true, decide_eq_true_eq, beq_iff_eq]
  omega

theorem isPythonSpace_of_isNamePart
    {c : Char}
    (h : isNamePart c = true) :
    isPythonSpace c = false := by
  have hrange : 0x30 ≤ c.toNat ∧ c.toNat ≤ 0x7A := by
    simp only [isNamePart, Char.isAlphanum, Char.isAlpha, Char.isUpper, Char.isLower, Char.isDigit,
      Bool.or_eq_true, Bool.and_eq_true, decide_eq_true_eq, UInt32.le_iff_toNat_le, ge_iff_le] at h
    have hcode : c.toNat = c.val.toNat := rfl
    have hZ : 'Z'.val.toNat = 90 := rfl
    have hA : 'A'.val.toNat = 65 := rfl
    have hz : 'z'.val.toNat = 122 := rfl
    have ha : 'a'.val.toNat = 97 := rfl
    have h0 : '0'.val.toNat = 48 := rfl
    have h9 : '9'.val.toNat = 57 := rfl
    rcases h with h | rfl
    · omega
    · decide
  exact isPythonSpace_eq_false (by omega) (by omega)

theorem isNamePart_of_isNameStart
    {c : Char}
    (h : isNameStart c = true) :
    isNamePart c = true := by
  rw [isNameStart, Bool.or_eq_true] at h
  rw [isNamePart, Bool.or_eq_true, Char.isAlphanum, Bool.or_eq_true]
  exact h.imp_left Or.inl

/-- A text that begins and ends without white space stays as it is. -/
theorem trimWhere_append
    {space : Char → Bool}
    {before after t : Text}
    (hbefore : ∀ c ∈ before, space c = true)
    (hafter : ∀ c ∈ after, space c = true)
    {c : Char}
    (hc : space c = false) :
    trimWhere space (before ++ c :: t ++ after) = (c :: t).rdropWhile space := by
  rw [trimWhere, List.append_assoc, List.dropWhile_append_of_pos hbefore, List.cons_append,
    List.dropWhile_cons_of_neg (by simp [hc]), ← List.cons_append, rdropWhile_append_of_all hafter]

/-- What is native for Rust is native for Python. -/
theorem patternIsNativeShaped_of_rustNativeShaped
    {pattern : Text}
    (h : rustNativeShaped pattern = true) :
    patternIsNativeShaped pattern = true := by
  obtain ⟨before, after, heq, hbefore, hafter⟩ := exists_blanks_trimWhere isRustSpace pattern
  rw [rustNativeShaped] at h
  generalize trimWhere isRustSpace pattern = stripped at h heq
  cases stripped with
  | nil => cases h
  | cons c rest =>
      have hpython : ∀ space : Text, (∀ d ∈ space, isRustSpace d = true) →
          ∀ d ∈ space, isPythonSpace d = true :=
        fun space hspace d hd => isPythonSpace_of_isRustSpace (hspace d hd)
      rw [isNativeShaped, Bool.or_eq_true, decide_eq_true_iff, Bool.and_eq_true] at h
      have hc : isPythonSpace c = false := by
        rcases h with rfl | ⟨hstart, -⟩
        · decide
        · exact isPythonSpace_of_isNamePart (isNamePart_of_isNameStart hstart)
      rw [patternIsNativeShaped, heq,
        trimWhere_append (hpython before hbefore) (hpython after hafter) hc]
      rcases h with rfl | ⟨hstart, hrest⟩
      · -- what is cut off at the end leaves the bracket
        cases hcut : ('(' :: rest).rdropWhile isPythonSpace with
        | nil =>
            have hspace := List.rdropWhile_eq_nil_iff.mp hcut '(' List.mem_cons_self
            rw [hc] at hspace
            cases hspace
        | cons d t =>
            have hprefix := List.rdropWhile_prefix isPythonSpace (l := '(' :: rest)
            rw [hcut] at hprefix
            rw [(List.cons_prefix_cons.mp hprefix).1]
            rfl
      · have hkeep : (c :: rest).rdropWhile isPythonSpace = c :: rest := by
          refine List.rdropWhile_eq_self_iff.mpr fun hne => ?_
          rw [Bool.not_eq_true]
          refine isPythonSpace_of_isNamePart ?_
          have hall : ∀ d ∈ c :: rest, isNamePart d = true :=
            List.forall_mem_cons.mpr ⟨isNamePart_of_isNameStart hstart, List.all_eq_true.mp hrest⟩
          exact hall _ (List.getLast_mem hne)
        rw [hkeep, isNativeShaped, hstart, hrest]
        simp

end Trimming

/-! ## Hints of ids -/

section Hints

variable {texts : Texts} {language : Text}

/-- The hint of an id is that of the last rule with it. -/
theorem backendHints_eq
    (name : RuleSpec → BackendName)
    (rules : List RuleSpec)
    (id : Text) :
    backendHints name rules id = (lastMatch (fun rule => rule.id = id) rules).map name := by
  induction rules using List.reverseRecOn with
  | nil => rfl
  | append_singleton rules rule ih =>
      rw [backendHints, List.foldl_append, List.foldl_cons, List.foldl_nil, ← backendHints,
        lastMatch_append]
      by_cases h : rule.id = id
      · subst h
        simp [lastMatch]
      · rw [Function.update_of_ne (Ne.symm h), ih]
        simp [lastMatch, h]

/-- Python names the native backend for native patterns in a native language. -/
theorem selectAstBackendNameForRule_eq_iff
    {rule : RuleSpec} :
    selectAstBackendNameForRule texts rule language = .astBackend ↔
      isNativeAstLanguage texts language = true ∧
        ∀ m ∈ rule.memberPatterns, patternIsNativeShaped m = true := by
  obtain ⟨m, members, hmembers⟩ := List.exists_cons_of_ne_nil (memberPatterns_ne_nil rule)
  rw [selectAstBackendNameForRule, ruleNeedsAstGrepWrapper, hmembers, List.headD_cons]
  split
  next hwrapper =>
    rw [Bool.and_eq_true, List.any_eq_true] at hwrapper
    obtain ⟨-, other, hother, hshape⟩ := hwrapper
    refine iff_of_false (by simp) fun h => ?_
    simp [h.2 other hother] at hshape
  next hserved =>
    rw [pythonBackendNameForPattern]
    cases members with
    | nil => simp [and_comm]
    | cons other members =>
        have hall : ∀ m' ∈ m :: other :: members, patternIsNativeShaped m' = true := by
          have hnone : ((m :: other :: members).any fun m => !patternIsNativeShaped m) = false := by
            simpa using hserved
          intro m' hm'
          simpa using List.any_eq_false.mp hnone m' hm'
        have hfirst := hall m List.mem_cons_self
        rw [hfirst, Bool.true_and]
        cases isNativeAstLanguage texts language with
        | true => exact iff_of_true rfl ⟨rfl, hall⟩
        | false => simp

/-- The native backend is hinted for an id only if it serves all rules with it. -/
def HintServes
    (shaped : Text → Bool)
    (hints : Text → Option BackendName)
    (rules : List RuleSpec) : Prop :=
  ∀ id, hints id = some .astBackend →
    ∀ rule ∈ rules, rule.id = id → ∀ m ∈ rule.memberPatterns, shaped m = true

/-- Where a rule is the last one with its id: its first pattern is not native or all patterns of the
rules with the id are, and in a native language the first pattern is native for Rust if all its
patterns are for Python. -/
def LastRulesDecide
    (texts : Texts)
    (language : Text)
    (rules : List RuleSpec) : Prop :=
  ∀ rule, lastMatch (fun r => r.id = rule.id) rules = some rule →
    (rustNativeShaped rule.pattern = true →
      ∀ r ∈ rules, r.id = rule.id → ∀ m ∈ r.memberPatterns, rustNativeShaped m = true) ∧
    (isNativeAstLanguage texts language = true →
      (∀ m ∈ rule.memberPatterns, patternIsNativeShaped m = true) →
        rustNativeShaped rule.pattern = true)

/-- A hint is that of the last rule with the id. -/
theorem hint_eq_some_iff
    {name : RuleSpec → BackendName}
    {rules : List RuleSpec}
    {id : Text}
    {backend : BackendName} :
    backendHints name rules id = some backend ↔
      ∃ rule, lastMatch (fun r => r.id = rule.id) rules = some rule ∧ rule.id = id ∧
        name rule = backend := by
  rw [backendHints_eq, Option.map_eq_some_iff]
  constructor
  · rintro ⟨rule, hlast, hname⟩
    have hid : rule.id = id := of_decide_eq_true (mem_of_lastMatch hlast).2
    exact ⟨rule, hid ▸ hlast, hid, hname⟩
  · rintro ⟨rule, hlast, rfl, hname⟩
    exact ⟨rule, hlast, hname⟩

/-- The hints serve the rules and are the same in both languages if and only if the last rules with
their ids decide. -/
theorem hints_serve_all_iff
    (texts : Texts)
    (language : Text)
    (rules : List RuleSpec) :
    (HintServes rustNativeShaped (precomputeOrchestrationHints rules) rules ∧
      HintServes patternIsNativeShaped (pythonOrchestrationHints texts language rules) rules ∧
        (isNativeAstLanguage texts language = true →
          precomputeOrchestrationHints rules = pythonOrchestrationHints texts language rules)) ↔
      LastRulesDecide texts language rules := by
  have hrust : ∀ pattern, selectAstBackendNameForPattern pattern = .astBackend ↔
      rustNativeShaped pattern = true := by
    intro pattern
    rw [selectAstBackendNameForPattern]
    split <;> simp_all
  constructor
  · rintro ⟨hserves, -, hsame⟩ rule hlast
    refine ⟨fun hshaped => ?_, fun hnative hall => ?_⟩
    · exact hserves rule.id (hint_eq_some_iff.mpr ⟨rule, hlast, rfl, (hrust _).mpr hshaped⟩)
    · have hpython : pythonOrchestrationHints texts language rules rule.id = some .astBackend :=
        hint_eq_some_iff.mpr
          ⟨rule, hlast, rfl, selectAstBackendNameForRule_eq_iff.mpr ⟨hnative, hall⟩⟩
      rw [← hsame hnative] at hpython
      obtain ⟨rule', hlast', hid, hname⟩ := hint_eq_some_iff.mp hpython
      rw [hid, hlast] at hlast'
      obtain rfl := Option.some.inj hlast'
      exact (hrust _).mp hname
  · intro h
    have hserves : HintServes rustNativeShaped (precomputeOrchestrationHints rules) rules := by
      intro id hhint
      obtain ⟨rule, hlast, rfl, hname⟩ := hint_eq_some_iff.mp hhint
      exact (h rule hlast).1 ((hrust _).mp hname)
    have hpython : ∀ rule, lastMatch (fun r => r.id = rule.id) rules = some rule →
        selectAstBackendNameForRule texts rule language = .astBackend →
        rustNativeShaped rule.pattern = true := by
      intro rule hlast hname
      obtain ⟨hnative, hall⟩ := selectAstBackendNameForRule_eq_iff.mp hname
      exact (h rule hlast).2 hnative hall
    refine ⟨hserves, ?_, fun hnative => funext fun id => ?_⟩
    · intro id hhint rule hrule hid m hm
      obtain ⟨last, hlast, rfl, hname⟩ := hint_eq_some_iff.mp hhint
      exact patternIsNativeShaped_of_rustNativeShaped
        ((h last hlast).1 (hpython last hlast hname) rule hrule hid m hm)
    · rw [precomputeOrchestrationHints, pythonOrchestrationHints, backendHints_eq, backendHints_eq]
      cases hlast : lastMatch (fun rule => decide (rule.id = id)) rules with
      | none => rfl
      | some rule =>
          obtain ⟨hmem, hid⟩ := mem_of_lastMatch hlast
          obtain rfl : rule.id = id := of_decide_eq_true hid
          rw [Option.map_some, Option.map_some]
          refine congrArg some ?_
          by_cases hname : selectAstBackendNameForRule texts rule language = .astBackend
          · rw [hname, hrust]
            exact hpython rule hlast hname
          · have hnot : ¬ rustNativeShaped rule.pattern = true := by
              intro hshaped
              refine hname (selectAstBackendNameForRule_eq_iff.mpr ⟨hnative, fun m hm => ?_⟩)
              exact patternIsNativeShaped_of_rustNativeShaped
                ((h rule hlast).1 hshaped rule hmem rfl m hm)
            rw [selectAstBackendNameForPattern, if_neg hnot]
            cases hother : selectAstBackendNameForRule texts rule language with
            | astBackend => exact absurd hother hname
            | astGrepWrapperBackend => rfl

end Hints

/-- A rule for `alpha` and `alpha(1)`. -/
def callRule : RuleSpec where
  id := ['r']
  pattern := "alpha".toList
  patterns := ["alpha".toList, "alpha(1)".toList]
  severity := "warning".toList
  message := []
  language := "python".toList

/-- Rust hints the native backend, which does not serve `alpha(1)`, and Python does not. -/
theorem hint_serves_first_pattern_only :
    precomputeOrchestrationHints [callRule] ['r'] = some .astBackend ∧
      ¬ HintServes rustNativeShaped (precomputeOrchestrationHints [callRule]) [callRule] ∧
      pythonOrchestrationHints plainTexts "python".toList [callRule] ['r'] =
        some .astGrepWrapperBackend := by
  have hhint : precomputeOrchestrationHints [callRule] ['r'] = some .astBackend := by decide
  refine ⟨hhint, fun hserves => ?_, by decide⟩
  have hshaped := hserves ['r'] hhint callRule (List.mem_singleton_self _) rfl
    "alpha(1)".toList (by decide)
  revert hshaped
  decide

end AstRules
end TensorGrep
