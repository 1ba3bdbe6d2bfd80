import TensorGrep.Kernel.Json
import TensorGrep.Kernel.PythonText

/-!
# Rule documents

A rule document is a YAML tree.  Two readers make rules of it: that of
`backend_ast_workflow.rs` and that of `ast_workflow_rules.py`.  Both look for the
member patterns of an item in the same places.  They differ where the first place
has an empty list or a blank member in it: the one reader gives the rule up, the
other goes on to the next place.
-/

namespace TensorGrep
namespace AstRules

open Kernel

/-! ## Documents -/

/-- Numbers with a fraction, and the three that are none. -/
inductive YamlFloat where
  | finite (value : ℚ)
  | nan
  | infinity
  | negInfinity
deriving DecidableEq

/-- YAML values. -/
inductive Yaml where
  | null
  | bool (b : Bool)
  | int (i : ℤ)
  | float (f : YamlFloat)
  | string (s : Text)
  | sequence (items : List Yaml)
  | mapping (fields : List (Yaml × Yaml))

/-- The fields of a mapping. -/
abbrev YamlFields := List (Yaml × Yaml)

namespace Yaml

/-- The value is a string. -/
@[grind] def asStr : Yaml → Option Text
  | string s => some s
  | _ => none

/-- The value is a sequence. -/
@[grind] def asSequence : Yaml → Option (List Yaml)
  | sequence items => some items
  | _ => none

/-- The value is a mapping. -/
@[grind] def asMapping : Yaml → Option YamlFields
  | mapping fields => some fields
  | _ => none

/-- The value of a key of a mapping. -/
@[grind] def get?
    (key : String) : Yaml → Option Yaml
  | mapping fields => (fields.find? fun field => field.1.asStr = some key.toList).map Prod.snd
  | _ => none

/-- `bool(value)` in Python. -/
@[grind] def truthy : Yaml → Bool
  | null => false
  | bool b => b
  | int i => i ≠ 0
  | float (.finite value) => value ≠ 0
  | float _ => true
  | string s => s ≠ []
  | sequence items => !items.isEmpty
  | mapping fields => !fields.isEmpty

/-- The value is neither a sequence nor a mapping. -/
@[grind] def IsScalar : Yaml → Prop
  | sequence _ => False
  | mapping _ => False
  | _ => True

end Yaml

/-- What the readers use of their languages: trimming, `str.lower`, the texts of finite numbers in
both languages, and Python's text of a sequence or a mapping. -/
structure Texts where
  trim : Text → Text
  lower : Text → Text
  rustNumber : ℚ → Text
  pythonNumber : ℚ → Text
  pythonContainer : Yaml → Text

/-- Texts without blanks around them, and no numbers. -/
def plainTexts : Texts where
  trim := id
  lower := id
  rustNumber := fun _ => []
  pythonNumber := fun _ => []
  pythonContainer := fun _ => []

/-! ## Member patterns -/

section Patterns

variable (texts : Texts)

/-- The trimmed text, unless it is blank. -/
def nonBlank (text : Text) : Option Text :=
  if texts.trim text = [] then none else some (texts.trim text)

/-- A string that is not blank, trimmed. -/
def nonBlankString (value : Yaml) : Option Text :=
  value.asStr.bind (nonBlank texts)

/-- A list, unless it is empty. -/
def nonEmptyList
    {α : Type}
    (l : List α) : Option (List α) :=
  if l.isEmpty then none else some l

/-- `collect_pattern_strings` -/
def collectPatternStrings (seq : List Yaml) : Option (List Text) :=
  (seq.mapM (nonBlankString texts)).bind nonEmptyList

/-- A member of `collect_any_member_patterns`. -/
def anyMemberPattern (member : Yaml) : Option Text :=
  member.asMapping.bind fun fields =>
    let value := ((Yaml.mapping fields).get? "pattern").bind Yaml.asStr
    let inner := (((Yaml.mapping fields).get? "rule").bind fun rule =>
      rule.get? "pattern").bind Yaml.asStr
    (value.or inner).bind (nonBlank texts)

/-- `collect_any_member_patterns` -/
def collectAnyMemberPatterns (anySeq : List Yaml) : Option (List Text) :=
  (anySeq.mapM (anyMemberPattern texts)).bind nonEmptyList

/-- The part of `extract_rule_member_patterns` that looks into the `rule` of an item. -/
@[grind] def ruleNodePatterns (item : Yaml) : Option (List Text) :=
  ((item.get? "rule").bind Yaml.asMapping).bind fun rule =>
    match ((Yaml.mapping rule).get? "pattern").bind (nonBlankString texts) with
    | some pattern => some [pattern]
    | none => (((Yaml.mapping rule).get? "any").bind Yaml.asSequence).bind
        (collectAnyMemberPatterns texts)

/-- `extract_rule_member_patterns` -/
@[grind] def extractRuleMemberPatterns (item : Yaml) : Option (List Text) :=
  match item.get? "pattern" with
  | some (.string s) =>
      match nonBlank texts s with
      | some pattern => some [pattern]
      | none => ruleNodePatterns texts item
  | some (.sequence seq) => collectPatternStrings texts seq
  | _ => ruleNodePatterns texts item

/-- A member of `any` in `_extract_rule_member_patterns`. -/
@[grind] def pythonAnyMemberPattern (member : Yaml) : Option Text :=
  member.asMapping.bind fun fields =>
    match ((Yaml.mapping fields).get? "pattern").bind (nonBlankString texts) with
    | some pattern => some pattern
    | none =>
        (((Yaml.mapping fields).get? "rule").bind Yaml.asMapping).bind fun inner =>
          ((Yaml.mapping inner).get? "pattern").bind (nonBlankString texts)

/-- The part of `_extract_rule_member_patterns` that looks into the `rule` of an item. -/
@[grind] def pythonRuleNodePatterns (item : Yaml) : Option (List Text) :=
  ((item.get? "rule").bind Yaml.asMapping).bind fun rule =>
    match ((Yaml.mapping rule).get? "pattern").bind (nonBlankString texts) with
    | some pattern => some [pattern]
    | none =>
        match ((Yaml.mapping rule).get? "any").bind Yaml.asSequence with
        | some anyMembers =>
            if anyMembers.isEmpty then none
            else (anyMembers.mapM (pythonAnyMemberPattern texts)).bind nonEmptyList
        | none => none

/-- `_extract_rule_member_patterns` -/
@[grind] def pythonExtractRuleMemberPatterns (item : Yaml) : Option (List Text) :=
  match item.get? "pattern" with
  | some (.string s) =>
      match nonBlank texts s with
      | some pattern => some [pattern]
      | none => pythonRuleNodePatterns texts item
  | some (.sequence seq) =>
      match seq.mapM (nonBlankString texts) with
      | none => none
      | some [] => pythonRuleNodePatterns texts item
      | some members => some members
  | _ => pythonRuleNodePatterns texts item

end Patterns

/-! ## Metadata -/

section Metadata

variable (texts : Texts)

/-- The text of a whole number. -/
def intText (i : ℤ) : Text :=
  (toString i).toList

/-- `rule_metadata_scalar_string` -/
@[grind] def ruleMetadataScalarString : Yaml → Option Text
  | .string s => if s ≠ [] then some s else none
  | .bool true => some "True".toList
  | .int i => if i ≠ 0 then some (intText i) else none
  | .float .nan => some "nan".toList
  | .float .infinity => some "inf".toList
  | .float .negInfinity => some "-inf".toList
  | .float (.finite value) => if value ≠ 0 then some (texts.rustNumber value) else none
  | _ => none

/-- `rule_metadata_string` -/
def ruleMetadataString
    (item payload : Yaml)
    (key : String) : Option Text :=
  ((item.get? key).bind (ruleMetadataScalarString texts)).or
    ((payload.get? key).bind (ruleMetadataScalarString texts))

/-- `str(value)` in Python. -/
@[grind] def pyStr : Yaml → Text
  | .null => "None".toList
  | .bool true => "True".toList
  | .bool false => "False".toList
  | .int i => intText i
  | .float .nan => "nan".toList
  | .float .infinity => "inf".toList
  | .float .negInfinity => "-inf".toList
  | .float (.finite value) => texts.pythonNumber value
  | .string s => s
  | value => texts.pythonContainer value

/-- A value that is true in Python. -/
def truthyValue (value : Option Yaml) : Option Yaml :=
  value.filter Yaml.truthy

/-- `item.get(key) or payload.get(key)`, if that is true. -/
def pyMetadata
    (item payload : Yaml)
    (key : String) : Option Yaml :=
  (truthyValue (item.get? key)).or (truthyValue (payload.get? key))

/-- `str(item.get(key) or payload.get(key) or default)` -/
def pyMetadataString
    (item payload : Yaml)
    (key : String)
    (default : Text) : Text :=
  ((pyMetadata item payload key).map (pyStr texts)).getD default

end Metadata

/-! ## White space -/

/-- White space for `str.strip`. -/
def isPythonSpace (c : Char) : Bool :=
  isSpaceCode (Fin.ofNat 0x110000 c.toNat)

/-- Without white space at both ends. -/
def trimWhere
    (space : Char → Bool)
    (t : Text) : Text :=
  (t.dropWhile space).rdropWhile space

/-! ## Rules -/

/-- A rule, as both readers make it. -/
structure RuleSpec where
  id : Text
  pattern : Text
  patterns : List Text
  severity : Text
  message : Text
  language : Text
deriving DecidableEq

/-- `ast_rule_member_patterns` and `_rule_member_patterns` -/
def RuleSpec.memberPatterns (rule : RuleSpec) : List Text :=
  if rule.patterns = [] then [rule.pattern] else rule.patterns

theorem memberPatterns_ne_nil
    (rule : RuleSpec) :
    rule.memberPatterns ≠ [] := by
  rw [RuleSpec.memberPatterns]
  split
  · exact List.cons_ne_nil _ _
  next h => exact h

/-- What the readers make of an item: its member patterns, id, severity and message. -/
def RuleSpec.view (rule : RuleSpec) : List Text × Text × Text × Text :=
  (rule.memberPatterns, rule.id, rule.severity, rule.message)

/-- The names of the backends. -/
inductive BackendName where
  | astBackend
  | astGrepWrapperBackend
deriving DecidableEq

/-- Where a document comes from: the stem of its file, and the language of the project. -/
structure RuleFile where
  stem : Text
  language : Text

/-- The id of an item without one. -/
def fallbackId
    (file : RuleFile)
    (idx : Option ℕ) : Text :=
  match idx with
  | some i => file.stem ++ '-' :: intText (i + 1)
  | none => file.stem

/-- The patterns of a composite rule. -/
def compositePatterns (members : List Text) : List Text :=
  if 1 < members.length then members else []

section Rules

variable (texts : Texts)

/-- `parse_rule_item` -/
def parseRuleItem
    (file : RuleFile)
    (payload item : Yaml)
    (idx : Option ℕ) : Option RuleSpec :=
  (extractRuleMemberPatterns texts item).map fun members =>
    { id := ((item.get? "id").bind Yaml.asStr).getD (fallbackId file idx)
      pattern := members.headD []
      patterns := compositePatterns members
      severity := (ruleMetadataString texts item payload "severity").getD "warning".toList
      message := (ruleMetadataString texts item payload "message").getD []
      language := (((item.get? "language").bind Yaml.asStr).or
        ((payload.get? "language").bind Yaml.asStr)).getD file.language }

/-- The rules of a document in `discover_rules`. -/
@[grind] def discoverRules
    (file : RuleFile)
    (payload : Yaml) : List RuleSpec :=
  match (payload.get? "rules").bind Yaml.asSequence with
  | some rules =>
      (rules.zipIdx.filterMap fun entry => parseRuleItem texts file payload entry.1 (some entry.2))
  | none => (parseRuleItem texts file payload payload none).toList

/-- `_AST_LANGUAGE_ALIASES` -/
def astLanguageAliases : List (String × String) :=
  [("bash", "bash"), ("sh", "bash"), ("c", "c"), ("cc", "cpp"), ("c++", "cpp"), ("cpp", "cpp"),
    ("cxx", "cpp"), ("c-sharp", "csharp"), ("c#", "csharp"), ("c_sharp", "csharp"),
    ("cs", "csharp"), ("csharp", "csharp"), ("css", "css"), ("elixir", "elixir"),
    ("ex", "elixir"), ("go", "go"), ("golang", "go"), ("haskell", "haskell"), ("hs", "haskell"),
    ("hcl", "hcl"), ("html", "html"), ("java", "java"), ("python", "python"), ("py", "python"),
    ("javascript", "javascript"), ("jsx", "javascript"), ("js", "javascript"), ("json", "json"),
    ("kotlin", "kotlin"), ("kt", "kotlin"), ("lua", "lua"), ("nix", "nix"), ("php", "php"),
    ("ruby", "ruby"), ("rb", "ruby"), ("scala", "scala"), ("sol", "solidity"),
    ("solidity", "solidity"), ("swift", "swift"), ("typescript", "typescript"),
    ("ts", "typescript"), ("tsx", "tsx"), ("rust", "rust"), ("rs", "rust"), ("yaml", "yaml"),
    ("yml", "yaml")]

/-- `normalize_ast_language`, where a blank name stands for Python. -/
def normalizeAstLanguage (language : Text) : Option Text :=
  let raw := if texts.trim language = [] then "python".toList else language
  (astLanguageAliases.find? fun entry => entry.1.toList = texts.lower (texts.trim raw)).map
    fun entry => entry.2.toList

/-- The name of the language of an item. -/
def pyLanguageName
    (file : RuleFile)
    (payload item : Yaml) : Text :=
  pyMetadataString texts item payload "language" file.language

/-- Why a document cannot be read. -/
inductive DocumentError where
  | unsupportedLanguage (name : Text)
  | notMapping
deriving DecidableEq

/-- An item in `_load_rule_specs_and_meta`. -/
@[grind] def pythonRuleItem
    (file : RuleFile)
    (payload item : Yaml)
    (idx : Option ℕ) : Except DocumentError (Option RuleSpec) :=
  match pythonExtractRuleMemberPatterns texts item with
  | none => .ok none
  | some members =>
      match normalizeAstLanguage texts (pyLanguageName texts file payload item) with
      | none => .error (.unsupportedLanguage (pyLanguageName texts file payload item))
      | some language =>
          .ok (some
            { id := ((truthyValue (item.get? "id")).map (pyStr texts)).getD (fallbackId file idx)
              pattern := members.headD []
              patterns := compositePatterns members
              severity := pyMetadataString texts item payload "severity" "warning".toList
              message := pyMetadataString texts item payload "message" []
              language := language })

/-- `_load_yaml_dict` -/
def loadYamlDict (document : Yaml) : Except DocumentError Yaml :=
  match document with
  | .mapping fields => .ok (.mapping fields)
  | _ => if document.truthy then .error .notMapping else .ok (.mapping [])

/-- The items of a document, with their places in a sequence of rules. -/
@[grind] def ruleItems (payload : Yaml) : List (Yaml × Option ℕ) :=
  match (payload.get? "rules").bind Yaml.asSequence with
  | some rules => rules.zipIdx.map fun entry => (entry.1, some entry.2)
  | none => [(payload, none)]

/-- The rules of a document in `_load_rule_specs_and_meta`. -/
def loadRuleSpecs
    (file : RuleFile)
    (document : Yaml) : Except DocumentError (List RuleSpec) := do
  let payload ← loadYamlDict document
  let specs ← (ruleItems payload).mapM fun entry =>
    pythonRuleItem texts file payload entry.1 entry.2
  return specs.reduceOption

/-- The rules that Python has from a document. -/
@[grind] def pythonRules
    (file : RuleFile)
    (document : Yaml) : List RuleSpec :=
  match loadRuleSpecs texts file document with
  | .ok specs => specs
  | .error _ => []

end Rules

end AstRules
end TensorGrep
