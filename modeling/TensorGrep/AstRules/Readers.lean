import TensorGrep.AstRules.Documents
import TensorGrep.Kernel.ExceptList

/-!
# The two readers agree

The readers make the same rules of a document if and only if every item has its
member patterns in a place where both look (`MembersAlike`), names a language that
Python knows, and has an id and metadata with one text in both languages, or if
Python refuses the document and nothing in it is a rule for Rust
(`readers_agree_iff`).
-/

namespace TensorGrep
namespace AstRules

open Kernel

/-! ## What decides -/

section Conditions

variable (texts : Texts)

/-- The value is a blank string. -/
def IsBlank (value : Option Yaml) : Prop :=
  ∃ s, value = some (.string s) ∧ texts.trim s = []

/-- The members of `any` in the `rule` of an item, unless it has a pattern of its own. -/
def nodeAnyMembers (item : Yaml) : List Yaml :=
  (((item.get? "rule").bind Yaml.asMapping).map fun rule =>
    match ((Yaml.mapping rule).get? "pattern").bind (nonBlankString texts) with
    | some _ => []
    | none => (((Yaml.mapping rule).get? "any").bind Yaml.asSequence).getD []).getD []

/-- The members of `any` that the patterns of an item come from, if they do. -/
def usedAnyMembers (item : Yaml) : List Yaml :=
  match item.get? "pattern" with
  | some (.string s) => if texts.trim s = [] then nodeAnyMembers texts item else []
  | some (.sequence _) => []
  | _ => nodeAnyMembers texts item

/-- If Python finds member patterns, the pattern of the item is not an empty list, and no member of
`any` that they come from has a blank pattern. -/
def MembersAlike (item : Yaml) : Prop :=
  (pythonExtractRuleMemberPatterns texts item).isSome = true →
    item.get? "pattern" ≠ some (.sequence []) ∧
      ∀ member ∈ usedAnyMembers texts item, ¬ IsBlank texts (member.get? "pattern")

/-- The id is not an empty string, and no true value other than a string, unless that gives the id of
an item without one. -/
def IdAlike
    (file : RuleFile)
    (item : Yaml)
    (idx : Option ℕ) : Prop :=
  ∀ value, item.get? "id" = some value →
    (value.asStr = some [] → fallbackId file idx = []) ∧
      (value.asStr = none → value.truthy = true → pyStr texts value = fallbackId file idx)

/-- A finite number with a fraction that is used has one text. -/
def MetadataAlike
    (payload item : Yaml)
    (key : String) : Prop :=
  ∀ value, pyMetadata item payload key = some (.float (.finite value)) →
    texts.rustNumber value = texts.pythonNumber value

/-- The readers make the same rule of an item. -/
def ItemAlike
    (file : RuleFile)
    (payload item : Yaml)
    (idx : Option ℕ) : Prop :=
  MembersAlike texts item ∧
    ((pythonExtractRuleMemberPatterns texts item).isSome = true →
      (normalizeAstLanguage texts (pyLanguageName texts file payload item)).isSome = true ∧
        IdAlike texts file item idx ∧ MetadataAlike texts payload item "severity" ∧
          MetadataAlike texts payload item "message")

/-- Python refuses an item with member patterns, because of its language. -/
def RefusedItem
    (file : RuleFile)
    (payload item : Yaml) : Prop :=
  (pythonExtractRuleMemberPatterns texts item).isSome = true ∧
    normalizeAstLanguage texts (pyLanguageName texts file payload item) = none

/-- The metadata of an item are scalars. -/
def ScalarMetadata (payload item : Yaml) : Prop :=
  ∀ key ∈ ["severity", "message"], ∀ value,
    item.get? key = some value ∨ payload.get? key = some value → value.IsScalar

end Conditions

/-! ## Member patterns -/

section Members

variable {texts : Texts}

theorem nonBlankString_eq
    (value : Yaml) :
    nonBlankString texts value = value.asStr.bind (nonBlank texts) :=
  rfl

/-- The pattern in the `rule` of a mapping. -/
theorem innerPattern_eq
    (fields : YamlFields) :
    ((((Yaml.mapping fields).get? "rule").bind Yaml.asMapping).bind fun inner =>
        ((Yaml.mapping inner).get? "pattern").bind (nonBlankString texts)) =
      ((((Yaml.mapping fields).get? "rule").bind fun rule => rule.get? "pattern").bind
        Yaml.asStr).bind (nonBlank texts) := by
  rw [Option.bind_assoc, Option.bind_assoc, Option.bind_assoc]
  refine Option.bind_congr fun rule _ => ?_
  cases rule with
  | mapping inner => rfl
  | _ => rfl

/-- Rust takes no member with a blank pattern, and any other one as Python does. -/
theorem anyMemberPattern_cases
    (texts : Texts)
    (member : Yaml) :
    (IsBlank texts (member.get? "pattern") ∧ anyMemberPattern texts member = none) ∨
      (¬ IsBlank texts (member.get? "pattern") ∧
        anyMemberPattern texts member = pythonAnyMemberPattern texts member) := by
  cases member with
  | mapping fields =>
      rw [anyMemberPattern, pythonAnyMemberPattern, Yaml.asMapping, Option.bind_some,
        Option.bind_some, innerPattern_eq, IsBlank]
      dsimp only
      generalize (((Yaml.mapping fields).get? "rule").bind fun rule =>
        rule.get? "pattern").bind Yaml.asStr = inner
      cases (Yaml.mapping fields).get? "pattern" with
      | none => simp
      | some value =>
          cases value with
          | string s =>
              by_cases hblank : texts.trim s = []
              · simp [Yaml.asStr, nonBlank, hblank]
              · simp [Yaml.asStr, nonBlankString_eq, nonBlank, hblank]
          | _ => simp [Yaml.asStr, nonBlankString_eq]
  | _ =>
      refine Or.inr ⟨?_, rfl⟩
      rintro ⟨s, hs, -⟩
      cases hs

theorem anyMemberPattern_eq_iff
    (member : Yaml) :
    anyMemberPattern texts member = pythonAnyMemberPattern texts member ↔
      ((pythonAnyMemberPattern texts member).isSome = true →
        ¬ IsBlank texts (member.get? "pattern")) := by
  rcases anyMemberPattern_cases texts member with ⟨hblank, hnone⟩ | ⟨hblank, heq⟩
  · rw [hnone]
    cases pythonAnyMemberPattern texts member <;> simp [hblank]
  · simp [heq, hblank]

theorem eq_of_anyMemberPattern
    {member : Yaml}
    {pattern : Text}
    (h : anyMemberPattern texts member = some pattern) :
    pythonAnyMemberPattern texts member = some pattern := by
  rcases anyMemberPattern_cases texts member with ⟨-, hnone⟩ | ⟨-, heq⟩
  · rw [hnone] at h
    cases h
  · exact heq ▸ h

/-- A list of members is read alike unless Python reads it, and one of them is read otherwise. -/
theorem mapM_eq_iff
    {α β : Type}
    {f g : α → Option β}
    (hle : ∀ a b, f a = some b → g a = some b)
    (l : List α) :
    l.mapM f = l.mapM g ↔ ((l.mapM g).isSome = true → ∀ a ∈ l, f a = g a) := by
  induction l with
  | nil => simp
  | cons a l ih =>
      rw [List.mapM_cons, List.mapM_cons]
      cases hg : g a with
      | none =>
          have hf : f a = none := by
            rw [Option.eq_none_iff_forall_ne_some]
            intro b hb
            rw [hle a b hb] at hg
            cases hg
          simp [hf]
      | some b =>
          cases hf : f a with
          | none =>
              cases hrest : l.mapM g with
              | none => simp
              | some rest => simp [hf, hg]
          | some b' =>
              obtain rfl : b = b' := by
                rw [hle a b' hf] at hg
                exact (Option.some.inj hg).symm
              have hcons : ∀ o o' : Option (List β),
                  (o.bind fun rest => some (b :: rest)) = (o'.bind fun rest => some (b :: rest)) ↔
                    o = o' := by
                intro o o'
                cases o <;> cases o' <;> simp
              simp only [Option.bind_eq_bind, Option.bind_some, Option.pure_def, hcons, ih,
                List.forall_mem_cons, hf, hg, true_and]
              cases l.mapM g <;> simp

theorem isSome_mapM_iff
    {α β : Type}
    {f : α → Option β}
    {l : List α} :
    (l.mapM f).isSome = true ↔ ∀ a ∈ l, (f a).isSome = true := by
  induction l with
  | nil => simp
  | cons a l ih =>
      rw [List.mapM_cons, List.forall_mem_cons, ← ih]
      cases f a with
      | none => simp
      | some b => cases l.mapM f <;> simp

theorem mapM_bind_nonEmptyList
    {α β : Type}
    (f : α → Option β)
    {l : List α}
    (h : l ≠ []) :
    (l.mapM f).bind nonEmptyList = l.mapM f := by
  cases l with
  | nil => exact absurd rfl h
  | cons a l =>
      rw [List.mapM_cons]
      cases f a with
      | none => rfl
      | some b => cases l.mapM f <;> simp [nonEmptyList]

theorem mapM_ne_some_nil
    {α β : Type}
    {f : α → Option β}
    {l : List α}
    (h : l ≠ []) :
    l.mapM f ≠ some [] := by
  rw [← mapM_bind_nonEmptyList f h]
  cases l.mapM f with
  | none => simp
  | some rest => cases rest <;> simp [nonEmptyList]

theorem ruleNodePatterns_eq_iff
    (item : Yaml) :
    ruleNodePatterns texts item = pythonRuleNodePatterns texts item ↔
      ((pythonRuleNodePatterns texts item).isSome = true →
        ∀ member ∈ nodeAnyMembers texts item, ¬ IsBlank texts (member.get? "pattern")) := by
  rw [ruleNodePatterns, pythonRuleNodePatterns, nodeAnyMembers]
  cases (item.get? "rule").bind Yaml.asMapping with
  | none => simp
  | some rule =>
      simp only [Option.bind_some, Option.map_some, Option.getD_some]
      cases ((Yaml.mapping rule).get? "pattern").bind (nonBlankString texts) with
      | some pattern => simp
      | none =>
          cases ((Yaml.mapping rule).get? "any").bind Yaml.asSequence with
          | none => simp
          | some anyMembers =>
              simp only [Option.bind_some, Option.getD_some]
              by_cases hnil : anyMembers = []
              · simp [hnil, collectAnyMemberPatterns, nonEmptyList]
              · have hle : ∀ member pattern, anyMemberPattern texts member = some pattern →
                    pythonAnyMemberPattern texts member = some pattern :=
                  fun _ _ h => eq_of_anyMemberPattern h
                rw [collectAnyMemberPatterns, if_neg (by simpa using hnil),
                  mapM_bind_nonEmptyList _ hnil, mapM_bind_nonEmptyList _ hnil, mapM_eq_iff hle]
                refine imp_congr_right fun hsome => forall₂_congr fun member hmember => ?_
                rw [anyMemberPattern_eq_iff]
                exact imp_iff_right (isSome_mapM_iff.mp hsome member hmember)

/-- The readers find the same member patterns. -/
theorem extractRuleMemberPatterns_eq_iff
    (item : Yaml) :
    extractRuleMemberPatterns texts item = pythonExtractRuleMemberPatterns texts item ↔
      MembersAlike texts item := by
  rw [MembersAlike, extractRuleMemberPatterns, pythonExtractRuleMemberPatterns, usedAnyMembers]
  cases item.get? "pattern" with
  | none => simpa using ruleNodePatterns_eq_iff item
  | some value =>
      cases value with
      | string s =>
          by_cases hblank : texts.trim s = []
          · simpa [nonBlank, hblank] using ruleNodePatterns_eq_iff item
          · simp [nonBlank, hblank]
      | sequence seq =>
          by_cases hnil : seq = []
          · subst hnil
            cases pythonRuleNodePatterns texts item <;> simp [collectPatternStrings, nonEmptyList]
          · have hne := mapM_ne_some_nil (f := nonBlankString texts) hnil
            simp only [collectPatternStrings, mapM_bind_nonEmptyList _ hnil]
            cases hmembers : seq.mapM (nonBlankString texts) with
            | none => simp
            | some members =>
                cases members with
                | nil => exact absurd hmembers hne
                | cons pattern members => simp [hnil]
      | _ => simpa using ruleNodePatterns_eq_iff item

theorem eq_of_ruleNodePatterns
    {item : Yaml}
    {members : List Text}
    (h : ruleNodePatterns texts item = some members) :
    pythonRuleNodePatterns texts item = some members := by
  rw [ruleNodePatterns] at h
  rw [pythonRuleNodePatterns]
  cases hrule : (item.get? "rule").bind Yaml.asMapping with
  | none => simp [hrule] at h
  | some rule =>
      simp only [hrule, Option.bind_some] at h ⊢
      cases hpattern : ((Yaml.mapping rule).get? "pattern").bind (nonBlankString texts) with
      | some pattern => simpa [hpattern] using h
      | none =>
          simp only [hpattern] at h ⊢
          cases hany : ((Yaml.mapping rule).get? "any").bind Yaml.asSequence with
          | none => simp [hany] at h
          | some anyMembers =>
              simp only [hany, Option.bind_some] at h ⊢
              by_cases hnil : anyMembers = []
              · simp [hnil, collectAnyMemberPatterns, nonEmptyList] at h
              · rw [collectAnyMemberPatterns, mapM_bind_nonEmptyList _ hnil] at h
                rw [if_neg (by simpa using hnil), mapM_bind_nonEmptyList _ hnil]
                rw [mapM_eq_some_iff] at h ⊢
                exact h.imp fun _ _ hmember => eq_of_anyMemberPattern hmember

/-- What is a rule for Rust is one for Python, with the same member patterns. -/
theorem eq_of_extractRuleMemberPatterns
    {item : Yaml}
    {members : List Text}
    (h : extractRuleMemberPatterns texts item = some members) :
    pythonExtractRuleMemberPatterns texts item = some members := by
  rw [extractRuleMemberPatterns] at h
  rw [pythonExtractRuleMemberPatterns]
  cases hvalue : item.get? "pattern" with
  | none =>
      rw [hvalue] at h
      exact eq_of_ruleNodePatterns h
  | some value =>
      rw [hvalue] at h
      cases value with
      | string s =>
          by_cases hblank : texts.trim s = []
          · simp only [nonBlank, hblank, if_true] at h ⊢
            exact eq_of_ruleNodePatterns h
          · simpa [nonBlank, hblank] using h
      | sequence seq =>
          by_cases hnil : seq = []
          · simp [hnil, collectPatternStrings, nonEmptyList] at h
          · simp only [collectPatternStrings, mapM_bind_nonEmptyList _ hnil] at h
            cases members with
            | nil => exact absurd h (mapM_ne_some_nil hnil)
            | cons pattern members => simp [h]
      | _ => exact eq_of_ruleNodePatterns h

theorem extractRuleMemberPatterns_eq_none
    {item : Yaml}
    (h : pythonExtractRuleMemberPatterns texts item = none) :
    extractRuleMemberPatterns texts item = none := by
  rw [Option.eq_none_iff_forall_ne_some]
  intro members hmembers
  rw [eq_of_extractRuleMemberPatterns hmembers] at h
  cases h

/-- Member patterns are at least one. -/
theorem ne_nil_of_pythonExtractRuleMemberPatterns
    {item : Yaml}
    {members : List Text}
    (h : pythonExtractRuleMemberPatterns texts item = some members) :
    members ≠ [] := by
  have hnode : ∀ members, pythonRuleNodePatterns texts item = some members → members ≠ [] := by
    rintro members hsome rfl
    rw [pythonRuleNodePatterns] at hsome
    obtain ⟨rule, -, hrule⟩ := Option.bind_eq_some_iff.mp hsome
    split at hrule
    · cases hrule
    · split at hrule
      next anyMembers _ =>
        split at hrule
        · cases hrule
        next hne =>
          rw [mapM_bind_nonEmptyList _ (by simpa using hne)] at hrule
          exact mapM_ne_some_nil (by simpa using hne) hrule
      · cases hrule
  rw [pythonExtractRuleMemberPatterns] at h
  split at h
  next s _ =>
    split at h
    · cases h
      exact List.cons_ne_nil _ _
    · exact hnode members h
  next seq _ =>
    split at h
    · cases h
    · exact hnode members h
    next hne _ =>
      cases h
      exact hne
  · exact hnode members h

end Members

/-! ## Ids and metadata -/

section Metadata

variable {texts : Texts}

/-- The text of a scalar in Rust. -/
def rustScalarText (texts : Texts) : Yaml → Text
  | .float (.finite value) => texts.rustNumber value
  | value => pyStr texts value

/-- Rust has a text for the scalars that are true in Python. -/
theorem ruleMetadataScalarString_eq
    {value : Yaml}
    (h : value.IsScalar) :
    ruleMetadataScalarString texts value =
      if value.truthy then some (rustScalarText texts value) else none := by
  cases value with
  | null => rfl
  | bool b => cases b <;> rfl
  | int i => simp [ruleMetadataScalarString, Yaml.truthy, rustScalarText, pyStr]
  | float f =>
      cases f with
      | finite value => simp [ruleMetadataScalarString, Yaml.truthy, rustScalarText]
      | _ => rfl
  | string s => simp [ruleMetadataScalarString, Yaml.truthy, rustScalarText, pyStr]
  | sequence items => exact h.elim
  | mapping fields => exact h.elim

theorem bind_ruleMetadataScalarString_eq
    {value : Option Yaml}
    (h : ∀ v, value = some v → v.IsScalar) :
    value.bind (ruleMetadataScalarString texts) =
      (truthyValue value).map (rustScalarText texts) := by
  cases value with
  | none => rfl
  | some v =>
      rw [Option.bind_some, ruleMetadataScalarString_eq (h v rfl), truthyValue, Option.filter_some]
      split <;> rfl

/-- The readers have the same text of a scalar if and only if Python's value has one text. -/
theorem metadata_eq_iff
    (texts : Texts)
    {payload item : Yaml}
    {key : String}
    (hscalar : ∀ value, item.get? key = some value ∨ payload.get? key = some value →
      value.IsScalar)
    (default : Text) :
    (ruleMetadataString texts item payload key).getD default =
        pyMetadataString texts item payload key default ↔
      MetadataAlike texts payload item key := by
  have hrust : ruleMetadataString texts item payload key =
      (pyMetadata item payload key).map (rustScalarText texts) := by
    rw [ruleMetadataString, pyMetadata, Option.map_or,
      bind_ruleMetadataScalarString_eq fun v hv => hscalar v (Or.inl hv),
      bind_ruleMetadataScalarString_eq fun v hv => hscalar v (Or.inr hv)]
  rw [hrust, pyMetadataString, MetadataAlike]
  cases pyMetadata item payload key with
  | none => simp
  | some value =>
      cases value with
      | float f => cases f <;> simp [rustScalarText, pyStr]
      | _ => simp [rustScalarText]

/-- The readers have the same id. -/
theorem id_eq_iff
    {file : RuleFile}
    {item : Yaml}
    {idx : Option ℕ} :
    ((item.get? "id").bind Yaml.asStr).getD (fallbackId file idx) =
        ((truthyValue (item.get? "id")).map (pyStr texts)).getD (fallbackId file idx) ↔
      IdAlike texts file item idx := by
  rw [IdAlike]
  cases item.get? "id" with
  | none => simp [truthyValue]
  | some value =>
      have hvalue : ∀ P : Yaml → Prop, (∀ v, some value = some v → P v) ↔ P value := by simp
      rw [hvalue, truthyValue, Option.filter_some, Option.bind_some]
      cases value with
      | string s =>
          by_cases hnil : s = []
          · subst hnil
            simp only [Yaml.asStr, Yaml.truthy, ne_eq, not_true_eq_false, decide_false,
              Bool.false_eq_true, if_false, Option.map_none, Option.getD_none, Option.getD_some,
              true_imp_iff, reduceCtorEq, false_imp_iff, and_true]
            exact eq_comm
          · simp [Yaml.asStr, Yaml.truthy, pyStr, hnil]
      | _ =>
          simp only [Yaml.asStr, Option.getD_none, reduceCtorEq, false_imp_iff, true_and,
            true_imp_iff]
          split
          next htrue => simp [htrue, eq_comm]
          next hfalse => simp [hfalse]

end Metadata

/-! ## Items and documents -/

section Items

variable {texts : Texts} {file : RuleFile}

theorem memberPatterns_of_members
    {members : List Text}
    (h : members ≠ []) :
    (if compositePatterns members = [] then [members.headD []] else compositePatterns members) =
      members := by
  rw [compositePatterns]
  match members, h with
  | [pattern], _ => rfl
  | pattern :: pattern' :: members, _ => simp

/-- The readers make the same of an item if and only if it is alike for both. -/
theorem item_agrees_iff
    {payload item : Yaml}
    (hscalar : ScalarMetadata payload item)
    (idx : Option ℕ) :
    (∃ rule, pythonRuleItem texts file payload item idx = .ok rule ∧
        rule.map RuleSpec.view = (parseRuleItem texts file payload item idx).map RuleSpec.view) ↔
      ItemAlike texts file payload item idx := by
  rw [ItemAlike, ← extractRuleMemberPatterns_eq_iff, pythonRuleItem, parseRuleItem]
  cases hpython : pythonExtractRuleMemberPatterns texts item with
  | none => simp
  | some members =>
      have hmembers := ne_nil_of_pythonExtractRuleMemberPatterns hpython
      cases normalizeAstLanguage texts (pyLanguageName texts file payload item) with
      | none => simp
      | some language =>
          have hseverity := metadata_eq_iff texts (hscalar "severity" (by simp)) "warning".toList
          have hmessage := metadata_eq_iff texts (hscalar "message" (by simp)) []
          rw [← id_eq_iff, ← hseverity, ← hmessage]
          cases hrust : extractRuleMemberPatterns texts item with
          | none => simp
          | some members' =>
              have heq := (eq_of_extractRuleMemberPatterns hrust).symm.trans hpython
              obtain rfl : members' = members := Option.some.inj heq
              simp only [Option.map_some, RuleSpec.view, RuleSpec.memberPatterns,
                memberPatterns_of_members hmembers, Except.ok.injEq, exists_eq_left',
                Option.some.injEq, Prod.mk.injEq, true_and, Option.isSome_some, true_imp_iff]
              rw [eq_comm (a := pyMetadataString texts item payload "severity" _),
                eq_comm (a := pyMetadataString texts item payload "message" _)]
              exact and_congr_left fun _ => eq_comm

theorem discoverRules_eq
    (payload : Yaml) :
    discoverRules texts file payload =
      (ruleItems payload).filterMap fun entry => parseRuleItem texts file payload entry.1 entry.2 := by
  rw [discoverRules, ruleItems]
  cases (payload.get? "rules").bind Yaml.asSequence with
  | none => cases h : parseRuleItem texts file payload payload none <;> simp [h]
  | some rules =>
      simp only [List.filterMap_map]
      rfl

/-- Python refuses an item because of its language only. -/
theorem pythonRuleItem_eq_error_iff
    {payload item : Yaml}
    (idx : Option ℕ) :
    (∃ e, pythonRuleItem texts file payload item idx = .error e) ↔
      RefusedItem texts file payload item := by
  rw [pythonRuleItem, RefusedItem]
  cases pythonExtractRuleMemberPatterns texts item with
  | none => simp
  | some members =>
      cases normalizeAstLanguage texts (pyLanguageName texts file payload item) <;> simp

/-- Shorter lists of results are not equal to longer ones. -/
theorem filterMap_eq_filterMap_iff
    {α β : Type}
    {f g : α → Option β}
    {l : List α}
    (h : ∀ a ∈ l, (f a).isSome = true → (g a).isSome = true) :
    l.filterMap g = l.filterMap f ↔ ∀ a ∈ l, g a = f a := by
  have hlength : ∀ l : List α, (∀ a ∈ l, (f a).isSome = true → (g a).isSome = true) →
      (l.filterMap f).length ≤ (l.filterMap g).length := by
    intro l hl
    rw [List.length_filterMap_eq_countP, List.length_filterMap_eq_countP]
    exact List.countP_mono_left hl
  induction l with
  | nil => simp
  | cons a l ih =>
      obtain ⟨ha, hl⟩ := List.forall_mem_cons.mp h
      refine Iff.trans ?_ (List.forall_mem_cons.trans (and_congr_right' (ih hl).symm)).symm
      cases hg : g a with
      | none =>
          have hf : f a = none := by
            cases hf : f a with
            | none => rfl
            | some b => simp [hf, hg] at ha
          simp [hf, hg]
      | some b =>
          cases hf : f a with
          | none =>
              have := hlength l hl
              refine iff_of_false (fun heq => ?_) (by simp)
              have hcount := congrArg List.length heq
              simp only [List.filterMap_cons, hf, hg, List.length_cons] at hcount
              omega
          | some b' => simp [hf, hg]

theorem pythonExtractRuleMemberPatterns_of_get?
    (texts : Texts)
    {item : Yaml}
    (h : ∀ key, item.get? key = none) :
    pythonExtractRuleMemberPatterns texts item = none := by
  simp [pythonExtractRuleMemberPatterns, pythonRuleNodePatterns, h]

/-- The rules that Python has from a mapping whose items it all reads. -/
theorem pythonRules_of_ok
    {fields : YamlFields}
    {specs : List (Option RuleSpec)}
    (h : ((ruleItems (.mapping fields)).mapM fun entry =>
      pythonRuleItem texts file (.mapping fields) entry.1 entry.2) = .ok specs) :
    pythonRules texts file (.mapping fields) = specs.filterMap id := by
  have hload : loadRuleSpecs texts file (.mapping fields) = .ok (specs.filterMap id) :=
    bind_eq_ok_iff.mpr ⟨.mapping fields, rfl, bind_eq_ok_iff.mpr ⟨specs, h, rfl⟩⟩
  rw [pythonRules, hload]

/-- Python has no rules from a mapping with an item that it refuses. -/
theorem pythonRules_of_error
    {fields : YamlFields}
    {e : DocumentError}
    (h : ((ruleItems (.mapping fields)).mapM fun entry =>
      pythonRuleItem texts file (.mapping fields) entry.1 entry.2) = .error e) :
    pythonRules texts file (.mapping fields) = [] := by
  cases hload : loadRuleSpecs texts file (.mapping fields) with
  | error e' => rw [pythonRules, hload]
  | ok rules =>
      obtain ⟨payload, hpayload, hrest⟩ := bind_eq_ok_iff.mp hload
      cases hpayload
      obtain ⟨specs, hspecs, -⟩ := bind_eq_ok_iff.mp hrest
      rw [h] at hspecs
      cases hspecs

/-- A document that is no mapping has no rules. -/
theorem rules_of_not_mapping
    (texts : Texts)
    (file : RuleFile)
    {document : Yaml}
    (h : document.asMapping = none) :
    pythonRules texts file document = [] ∧ discoverRules texts file document = [] ∧
      ∀ entry ∈ ruleItems document, pythonExtractRuleMemberPatterns texts entry.1 = none := by
  have hget : ∀ key, document.get? key = none := by
    intro key
    cases document with
    | mapping fields => cases h
    | _ => rfl
  have hitems : ruleItems document = [(document, none)] := by simp [ruleItems, hget]
  have hpython := pythonExtractRuleMemberPatterns_of_get? texts hget
  refine ⟨?_, ?_, ?_⟩
  · have hload : loadYamlDict document = .error .notMapping ∨
        loadYamlDict document = .ok (.mapping []) := by
      cases document with
      | mapping fields => cases h
      | _ =>
          rw [loadYamlDict]
          · split
            · exact Or.inl rfl
            · exact Or.inr rfl
          · exact fun _ hmapping => Yaml.noConfusion hmapping
    rw [pythonRules, loadRuleSpecs]
    rcases hload with hload | hload
    · rw [hload]
      rfl
    · rw [hload]
      rfl
  · rw [discoverRules_eq, hitems]
    simp [parseRuleItem, extractRuleMemberPatterns_eq_none hpython]
  · simpa [hitems] using hpython

/-- The readers make the same rules of a document if and only if its items are alike for both, or
Python refuses it and Rust finds no rule in it. -/
theorem readers_agree_iff
    (texts : Texts)
    (file : RuleFile)
    (document : Yaml)
    (hscalar : ∀ entry ∈ ruleItems document, ScalarMetadata document entry.1) :
    (pythonRules texts file document).map RuleSpec.view =
        (discoverRules texts file document).map RuleSpec.view ↔
      (∀ entry ∈ ruleItems document, ItemAlike texts file document entry.1 entry.2) ∨
        (∃ entry ∈ ruleItems document, RefusedItem texts file document entry.1) ∧
          ∀ entry ∈ ruleItems document, extractRuleMemberPatterns texts entry.1 = none := by
  cases hmapping : document.asMapping with
  | none =>
      obtain ⟨hpython, hrust, hitems⟩ := rules_of_not_mapping texts file hmapping
      rw [hpython, hrust]
      refine iff_of_true rfl (Or.inl fun entry hentry => ?_)
      have hnone := hitems entry hentry
      exact ⟨by simp [MembersAlike, hnone], by simp [hnone]⟩
  | some fields =>
      obtain rfl : document = .mapping fields := by
        cases document with
        | mapping fields' =>
            cases hmapping
            rfl
        | _ => cases hmapping
      rw [discoverRules_eq]
      cases hload : (ruleItems (.mapping fields)).mapM fun entry =>
          pythonRuleItem texts file (.mapping fields) entry.1 entry.2 with
      | ok specs =>
          have hall : ∀ entry ∈ ruleItems (.mapping fields), ∃ rule,
              pythonRuleItem texts file (.mapping fields) entry.1 entry.2 = .ok rule := by
            intro entry hentry
            obtain ⟨rule, -, hrule⟩ := exists_result_of_mapM hload hentry
            exact ⟨rule, hrule⟩
          have hspecs : specs = (ruleItems (.mapping fields)).map fun entry =>
              (pythonRuleItem texts file (.mapping fields) entry.1 entry.2).toOption.join := by
            rw [← List.map_id specs]
            refine map_eq_of_mapM hload fun entry _ rule hrule => ?_
            rw [hrule]
            rfl
          rw [pythonRules_of_ok hload, hspecs, List.filterMap_map, List.map_filterMap, List.map_filterMap,
            filterMap_eq_filterMap_iff]
          · constructor
            · intro h
              refine Or.inl fun entry hentry => ?_
              obtain ⟨rule, hrule⟩ := hall entry hentry
              refine (item_agrees_iff (hscalar entry hentry) entry.2).mp ⟨rule, hrule, ?_⟩
              have hview := h entry hentry
              simpa [hrule, Except.toOption] using hview
            · rintro (h | ⟨⟨entry, hentry, hrefused⟩, -⟩) entry' hentry'
              · obtain ⟨rule, hrule, hview⟩ :=
                  (item_agrees_iff (hscalar entry' hentry') entry'.2).mpr (h entry' hentry')
                simpa [hrule, Except.toOption] using hview
              · obtain ⟨e, he⟩ := (pythonRuleItem_eq_error_iff entry.2).mpr hrefused
                obtain ⟨rule, hrule⟩ := hall entry hentry
                rw [he] at hrule
                cases hrule
          · intro entry hentry hsome
            obtain ⟨rule, hrule⟩ := hall entry hentry
            have hrust : (extractRuleMemberPatterns texts entry.1).isSome = true := by
              simpa [parseRuleItem] using hsome
            obtain ⟨members, hmembers⟩ := Option.isSome_iff_exists.mp hrust
            have hpython := eq_of_extractRuleMemberPatterns hmembers
            have hfound := hrule
            rw [pythonRuleItem, hpython] at hfound
            dsimp only at hfound
            split at hfound
            · cases hfound
            · cases hfound
              simp [hrule, Except.toOption]
      | error e =>
          obtain ⟨entry, hentry, hrefused⟩ := exists_error_of_mapM hload
          rw [pythonRuleItem_eq_error_iff] at hrefused
          have hnone : ((ruleItems (.mapping fields)).filterMap fun entry =>
              parseRuleItem texts file (.mapping fields) entry.1 entry.2) = [] ↔
                ∀ entry ∈ ruleItems (.mapping fields),
                  extractRuleMemberPatterns texts entry.1 = none := by
            simp [List.filterMap_eq_nil_iff, parseRuleItem]
          rw [pythonRules_of_error hload, List.map_nil, eq_comm, List.map_eq_nil_iff, hnone]
          constructor
          · exact fun h => Or.inr ⟨⟨entry, hentry, hrefused⟩, h⟩
          · rintro (h | ⟨-, h⟩)
            · have hsupported := ((h entry hentry).2 hrefused.1).1
              rw [hrefused.2] at hsupported
              cases hsupported
            · exact h

end Items

/-- The file `r.yml` of a Python project. -/
def plainFile : RuleFile :=
  ⟨['r'], "python".toList⟩

/-- `rule: {pattern: f}`, beside another pattern. -/
def nodeDocument (pattern : Yaml) : Yaml :=
  .mapping [(.string "pattern".toList, pattern),
    (.string "rule".toList, .mapping [(.string "pattern".toList, .string ['f'])])]

theorem scalarMetadata_nodeDocument
    (pattern : Yaml) :
    ∀ entry ∈ ruleItems (nodeDocument pattern),
      ScalarMetadata (nodeDocument pattern) entry.1 := by
  intro entry hentry
  obtain rfl : entry = (nodeDocument pattern, none) := List.mem_singleton.mp hentry
  intro key hkey value hvalue
  have hnone : (nodeDocument pattern).get? key = none := by
    rcases List.mem_pair.mp hkey with rfl | rfl
    · rfl
    · rfl
  rw [hnone, or_self] at hvalue
  cases hvalue

/-- Beside a blank pattern. -/
theorem readers_agree_iff_blankPattern :
    (pythonRules plainTexts plainFile (nodeDocument (.string []))).map RuleSpec.view =
        (discoverRules plainTexts plainFile (nodeDocument (.string []))).map RuleSpec.view ↔
      (∀ entry ∈ ruleItems (nodeDocument (.string [])),
        ItemAlike plainTexts plainFile (nodeDocument (.string [])) entry.1 entry.2) ∨
        (∃ entry ∈ ruleItems (nodeDocument (.string [])),
          RefusedItem plainTexts plainFile (nodeDocument (.string [])) entry.1) ∧
          ∀ entry ∈ ruleItems (nodeDocument (.string [])),
            extractRuleMemberPatterns plainTexts entry.1 = none :=
  readers_agree_iff plainTexts plainFile (nodeDocument (.string []))
    (scalarMetadata_nodeDocument (.string []))

/-- Beside an empty list Python finds the pattern, and Rust has no rule. -/
theorem readers_disagree_emptyList :
    (∀ entry ∈ ruleItems (nodeDocument (.sequence [])),
      ScalarMetadata (nodeDocument (.sequence [])) entry.1) ∧
      (pythonRules plainTexts plainFile (nodeDocument (.sequence []))).map RuleSpec.view ≠
        (discoverRules plainTexts plainFile (nodeDocument (.sequence []))).map RuleSpec.view :=
  ⟨scalarMetadata_nodeDocument (.sequence []), by decide⟩

end AstRules
end TensorGrep
