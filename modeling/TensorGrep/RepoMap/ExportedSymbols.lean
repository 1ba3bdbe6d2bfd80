import TensorGrep.Kernel.MemoTable
import TensorGrep.Kernel.StepSystem
import TensorGrep.RepoMap.ContextPacking
import TensorGrep.RepoMap.ModuleCandidates

/-!
# Exported symbols behind re-exports

A name that a module exports is declared there or is re-exported from other modules, whose
candidates are searched in order.  The search goes at most five modules deep and does not enter a
module and name twice on one path; what it finds is kept in a table for later searches, which
start at other depths.

The answers of searches that settle within five modules are those without a table, and every
answer names a declaration that the re-exports lead to (`exportAnswers_exact`).  A longer chain is
answered if a search from its middle came before (`chain_answered_after_middle`).
-/

namespace TensorGrep
namespace RepoMap

open Kernel

/-! ## Statements -/

/-- The keyword of a statement with a list in braces. -/
inductive StatementKind where
  | importFrom
  | exportFrom
deriving DecidableEq

/-- The groups of a match of the pattern of `_js_ts_named_import_bindings`. -/
structure BraceStatement where
  kind : StatementKind
  specifiers : Text
  moduleText : Text

/-- A binding of `_js_ts_named_import_bindings`. -/
structure NamedBinding where
  moduleName : Text
  imported : Text
  localName : Text
  kind : StatementKind

/-- `text.split(mark, 1)`, where the mark occurs. -/
@[grind] def cutAtFirst (mark : Text) : Text → Option (Text × Text)
  | [] => none
  | c :: rest =>
      if mark <+: c :: rest then some ([], (c :: rest).drop mark.length)
      else (cutAtFirst mark rest).map fun parts => (c :: parts.1, parts.2)

/-- The imported and the local name of an entry of a list in braces. -/
def specifierNames (specifier : Text) : Text × Text :=
  match cutAtFirst " as ".toList specifier with
  | some parts => (stripSpace parts.1, stripSpace parts.2)
  | none => (specifier, specifier)

/-- The binding of an entry of a list in braces. -/
def specifierBinding
    (statement : BraceStatement)
    (rawSpecifier : Text) : Option NamedBinding :=
  let specifier := stripSpace rawSpecifier
  let names := specifierNames specifier
  if specifier ≠ [] ∧ names.1 ≠ [] ∧ names.2 ≠ [] then
    some ⟨stripSpace statement.moduleText, names.1, names.2, statement.kind⟩
  else none

/-- `_js_ts_named_import_bindings`, from the matches of its pattern. -/
def namedImportBindings (statements : List BraceStatement) : List NamedBinding :=
  statements.flatMap fun statement =>
    (statement.specifiers.splitOn ',').filterMap (specifierBinding statement)

/-! ## Modules -/

/-- What is read of a module: the names that the patterns for default exports find, in order, the
names of its symbols and its statements with a list in braces. -/
structure ModuleSource where
  defaultNames : List Text
  symbolNames : List Text
  statements : List BraceStatement

/-- The modules of a repository that can be read, by their resolved paths. -/
structure ModuleRepo where
  resolver : Resolver
  context : JsTsContext
  modules : Text → Option ModuleSource

/-- A module and a name that it may export. -/
abbrev ExportKey := Text × Text

/-- Where an exported name is declared. -/
structure ExportAnswer where
  symbol : Text
  definitionFile : Text
  provenance : List Text
  confidence : ℚ
deriving DecidableEq

/-- What a search ends with. -/
abbrev ExportOutcome := Except PathError (Option ExportAnswer)

/-- The `re_export_cache` of a context. -/
abbrev ReExportCache := MemoTable ExportKey (Option ExportAnswer)

/-- A candidate of a re-export. -/
structure ReExport where
  info : CandidateInfo
  candidate : ResolvedPath
  imported : Text

/-- `name in _js_ts_symbol_names(path)`. -/
def ModuleSource.hasSymbol
    (source : ModuleSource)
    (name : Text) : Bool :=
  source.symbolNames.any fun symbol => symbol = name

/-- `_js_ts_default_export_name`. -/
def defaultExportName (source : ModuleSource) : Option Text :=
  (source.defaultNames.map stripSpace).find? source.hasSymbol

/-- What a module itself declares for a name. -/
def directAnswer
    (source : ModuleSource)
    (definitionFile exportedName : Text) : Option ExportAnswer :=
  if exportedName = "default".toList then
    ((defaultExportName source).filter fun directDefault => directDefault ≠ []).map
      fun directDefault => ⟨directDefault, definitionFile, ["default-import".toList], 95 / 100⟩
  else if source.hasSymbol exportedName then some ⟨exportedName, definitionFile, [], 95 / 100⟩
  else none

/-- The candidates of the re-exports of a name, up to the first module name without candidates. -/
def reExports
    (R : ModuleRepo)
    (source : ModuleSource)
    (module : ResolvedPath)
    (exportedName : Text) : List (Except PathError ReExport) :=
  ((namedImportBindings source.statements).filter fun binding =>
    binding.kind = .exportFrom ∧ binding.localName = exportedName).flatMap fun binding =>
      match jsTsModuleCandidates R.resolver R.context module.parent.text binding.moduleName with
      | .error e => [.error e]
      | .ok info => info.paths.map fun candidate => .ok ⟨info, candidate, binding.imported⟩

/-- `_dedupe_labels`. -/
def dedupeLabels (labels : List Text) : List Text :=
  keepUnseen [] ((labels.map stripSpace).filter fun label => label ≠ [])

/-- `round(confidence, 3)`; all confidences are multiples of a hundredth. -/
def roundThousandths (confidence : ℚ) : ℚ :=
  round (confidence * 1000) / 1000

/-- The answer through a re-export. -/
def ReExport.extend
    (reExport : ReExport)
    (nested : ExportAnswer) : ExportAnswer where
  symbol := nested.symbol
  definitionFile := nested.definitionFile
  provenance := dedupeLabels
    (reExport.info.provenance ++ nested.provenance ++ ["re-export-chain".toList])
  confidence := roundThousandths (if 0 < reExport.info.confidence then
    min nested.confidence reExport.info.confidence else nested.confidence)

/-! ## The search -/

/-- The loop over the candidates: the first answer, or the first error. -/
@[grind] def firstResolved
    (resolve : Text → Text → ReExportCache → ExportOutcome × ReExportCache) :
    List (Except PathError ReExport) → ReExportCache → ExportOutcome × ReExportCache
  | [], table => (.ok none, table)
  | .error e :: _, table => (.error e, table)
  | .ok reExport :: rest, table =>
      match resolve reExport.candidate.text reExport.imported table with
      | (.error e, table') => (.error e, table')
      | (.ok none, table') => firstResolved resolve rest table'
      | (.ok (some nested), table') => (.ok (some (reExport.extend nested)), table')

/-- `context["re_export_cache"][cache_key] = result`, unless the search has raised. -/
def ReExportCache.store
    (key : ExportKey)
    (result : ExportOutcome × ReExportCache) : ExportOutcome × ReExportCache :=
  match result.1 with
  | .error _ => result
  | .ok answer => (result.1, Function.update result.2 key (some answer))

/-- The part of a search that comes before the depth is looked at, and the store behind it. -/
def cachedOrStored
    (R : ModuleRepo)
    (modulePath exportedName : Text)
    (table : ReExportCache)
    (search : ResolvedPath → ExportKey → ExportOutcome × ReExportCache) :
    ExportOutcome × ReExportCache :=
  let normalizedModule := R.resolver.resolve modulePath
  let cacheKey := (normalizedModule.text, exportedName)
  if isJsTsSuffix (pathSuffix normalizedModule.name) = false then (.ok none, table)
  else
    match table cacheKey with
    | some (some cached) => (.ok (some cached), table)
    | _ => ReExportCache.store cacheKey (search normalizedModule cacheKey)

/-- `_js_ts_resolve_exported_symbol` at the depth `5 - remaining`. -/
@[grind] def resolveExportedSymbol (R : ModuleRepo) :
    ℕ → List ExportKey → Text → Text → ReExportCache → ExportOutcome × ReExportCache
  | 0, _, modulePath, exportedName, table =>
      cachedOrStored R modulePath exportedName table fun _ _ => (.ok none, table)
  | remaining + 1, visited, modulePath, exportedName, table =>
      cachedOrStored R modulePath exportedName table fun normalizedModule cacheKey =>
        if cacheKey ∈ visited then (.ok none, table)
        else
          match R.modules normalizedModule.text with
          | none => (.ok none, table)
          | some source =>
              match directAnswer source normalizedModule.text exportedName with
              | some answer => (.ok (some answer), table)
              | none => firstResolved
                  (fun candidate imported =>
                    resolveExportedSymbol R remaining (cacheKey :: visited) candidate imported)
                  (reExports R source normalizedModule exportedName) table

/-- `_js_ts_resolve_exported_symbol` as it is called from outside. -/
def exportQuery
    (R : ModuleRepo)
    (query : ExportKey)
    (table : ReExportCache) : ExportOutcome × ReExportCache :=
  resolveExportedSymbol R 5 [] query.1 query.2 table

/-- The answers of a sequence of queries on one context. -/
def exportAnswers (R : ModuleRepo) : List ExportKey → ReExportCache → List ExportOutcome
  | [], _ => []
  | query :: rest, table =>
      (exportQuery R query table).1 :: exportAnswers R rest (exportQuery R query table).2

/-! ## What the modules say -/

/-- A module declares a symbol under an exported name. -/
def Declares
    (R : ModuleRepo)
    (file exportedName symbol : Text) : Prop :=
  ∃ source, R.modules file = some source ∧ symbol ∈ source.symbolNames ∧
    (exportedName = symbol ∨
      exportedName = "default".toList ∧ ∃ name ∈ source.defaultNames, symbol = stripSpace name)

/-- A module re-exports a name from a candidate of one of its statements. -/
def ReExportStep
    (R : ModuleRepo)
    (key key' : ExportKey) : Prop :=
  ∃ source module binding info, R.modules key.1 = some source ∧
    R.resolver.resolve key.1 = module ∧
    binding ∈ namedImportBindings source.statements ∧ binding.kind = .exportFrom ∧
    binding.localName = key.2 ∧
    jsTsModuleCandidates R.resolver R.context module.parent.text binding.moduleName = .ok info ∧
    ∃ candidate ∈ info.paths,
      key' = ((R.resolver.resolve candidate.text).text, binding.imported)

/-- An answer names a declaration that re-exports lead to. -/
def Traced
    (R : ModuleRepo)
    (key : ExportKey)
    (answer : ExportAnswer) : Prop :=
  ∃ name, Relation.ReflTransGen (ReExportStep R) key (answer.definitionFile, name) ∧
    Declares R answer.definitionFile name answer.symbol

/-- The first answer of the candidates, as far as they settle. -/
@[grind] def settleFirst (settle : Text → Text → Option ExportOutcome) :
    List (Except PathError ReExport) → Option ExportOutcome
  | [] => some (.ok none)
  | .error e :: _ => some (.error e)
  | .ok reExport :: rest =>
      match settle reExport.candidate.text reExport.imported with
      | none => none
      | some (.error e) => some (.error e)
      | some (.ok none) => settleFirst settle rest
      | some (.ok (some nested)) => some (.ok (some (reExport.extend nested)))

/-- What a name stands for, if the re-exports settle it within a number of modules. -/
@[grind] def settledOutcome (R : ModuleRepo) : ℕ → Text → Text → Option ExportOutcome
  | 0, modulePath, _ =>
      if isJsTsSuffix (pathSuffix (R.resolver.resolve modulePath).name) = false then
        some (.ok none)
      else none
  | levels + 1, modulePath, exportedName =>
      let module := R.resolver.resolve modulePath
      if isJsTsSuffix (pathSuffix module.name) = false then some (.ok none)
      else
        match R.modules module.text with
        | none => some (.ok none)
        | some source =>
            match directAnswer source module.text exportedName with
            | some answer => some (.ok (some answer))
            | none => settleFirst (settledOutcome R levels)
                (reExports R source module exportedName)

/-- A query settles within five modules. -/
def SettlesWithinFive
    (R : ModuleRepo)
    (query : ExportKey) : Prop :=
  (settledOutcome R 5 query.1 query.2).isSome

section Settling

variable {R : ModuleRepo}

theorem settleFirst_mono
    {settle settle' : Text → Text → Option ExportOutcome}
    (h : ∀ path name r, settle path name = some r → settle' path name = some r)
    {attempts : List (Except PathError ReExport)}
    {r : ExportOutcome}
    (hr : settleFirst settle attempts = some r) :
    settleFirst settle' attempts = some r := by
  induction attempts with
  | nil => exact hr
  | cons attempt rest ih =>
      cases attempt with
      | error e => exact hr
      | ok reExport =>
          rw [settleFirst] at hr ⊢
          cases hfirst : settle reExport.candidate.text reExport.imported with
          | none => simp [hfirst] at hr
          | some first =>
              rw [hfirst] at hr
              rw [h _ _ _ hfirst]
              match first with
              | .error e => exact hr
              | .ok none => exact ih hr
              | .ok (some nested) => exact hr

theorem settledOutcome_succ
    {levels : ℕ} :
    ∀ {path name : Text} {r : ExportOutcome}, settledOutcome R levels path name = some r →
      settledOutcome R (levels + 1) path name = some r := by
  induction levels with
  | zero =>
      intro path name r h
      rw [settledOutcome.eq_1] at h
      rw [settledOutcome.eq_2]
      split_ifs at h ⊢
      exact h
  | succ levels ih =>
      intro path name r h
      rw [settledOutcome] at h ⊢
      split_ifs at h ⊢ with hjs
      · exact h
      · cases hsource : R.modules (R.resolver.resolve path).text with
        | none => simpa [hsource] using h
        | some source =>
            simp only [hsource] at h ⊢
            cases hdirect : directAnswer source (R.resolver.resolve path).text name with
            | some answer => simpa [hdirect] using h
            | none =>
                simp only [hdirect] at h ⊢
                exact settleFirst_mono (fun _ _ _ => ih) h

theorem settledOutcome_mono
    {levels levels' : ℕ}
    (hle : levels ≤ levels')
    {path name : Text}
    {r : ExportOutcome}
    (h : settledOutcome R levels path name = some r) :
    settledOutcome R levels' path name = some r := by
  induction hle with
  | refl => exact h
  | step _ ih => exact settledOutcome_succ ih

/-- More modules do not change what is settled. -/
theorem settledOutcome_unique
    {levels levels' : ℕ}
    {path name : Text}
    {r r' : ExportOutcome}
    (h : settledOutcome R levels path name = some r)
    (h' : settledOutcome R levels' path name = some r') :
    r = r' := by
  have hmax := settledOutcome_mono (le_max_left levels levels') h
  rw [settledOutcome_mono (le_max_right levels levels') h'] at hmax
  exact (Option.some.inj hmax).symm

/-- A resolved path stands for the same module. -/
theorem settledOutcome_resolve
    (levels : ℕ)
    (path name : Text) :
    settledOutcome R levels (R.resolver.resolve path).text name =
      settledOutcome R levels path name := by
  cases levels <;> rw [settledOutcome, settledOutcome, R.resolver.idempotent]

end Settling

section Tables

variable {R : ModuleRepo}

/-- The answers in a table are those that the re-exports settle. -/
def AnswersSettled
    (R : ModuleRepo)
    (table : ReExportCache) : Prop :=
  table.Forall fun key entry => ∀ answer, entry = some answer →
    ∃ levels, settledOutcome R levels key.1 key.2 = some (.ok (some answer))

/-- The answers in a table are traced. -/
def AnswersTraced
    (R : ModuleRepo)
    (table : ReExportCache) : Prop :=
  table.Forall fun key entry => ∀ answer, entry = some answer → Traced R key answer

theorem forall_store
    {P : ExportKey → ExportAnswer → Prop}
    {key : ExportKey}
    {result : ExportOutcome × ReExportCache}
    (htable : result.2.Forall fun key entry => ∀ answer, entry = some answer → P key answer)
    (hanswer : ∀ answer, result.1 = .ok (some answer) → P key answer) :
    (ReExportCache.store key result).2.Forall fun key entry =>
      ∀ answer, entry = some answer → P key answer := by
  rcases result with ⟨e | found, table⟩
  · exact htable
  · intro key' entry hentry answer hsome
    rcases eq_or_of_update hentry with ⟨rfl, hnew⟩ | ⟨-, hold⟩
    · subst hsome
      exact hanswer answer (congrArg Except.ok (Option.some.inj hnew))
    · exact htable key' entry hold answer hsome

@[simp] theorem store_fst
    (key : ExportKey)
    (result : ExportOutcome × ReExportCache) :
    (ReExportCache.store key result).1 = result.1 := by
  rcases result with ⟨e | found, table⟩ <;> rfl

/-- The loop over the candidates keeps what every search keeps. -/
theorem firstResolved_keeps
    {resolve : Text → Text → ReExportCache → ExportOutcome × ReExportCache}
    {Inv : ReExportCache → Prop}
    {Ok : ReExport → ExportAnswer → Prop}
    (h : ∀ reExport table, Inv table →
      (∀ answer, (resolve reExport.candidate.text reExport.imported table).1 = .ok (some answer) →
        Ok reExport answer) ∧
      Inv (resolve reExport.candidate.text reExport.imported table).2)
    {attempts : List (Except PathError ReExport)} :
    ∀ {table : ReExportCache}, Inv table →
      (∀ answer, (firstResolved resolve attempts table).1 = .ok (some answer) →
        ∃ reExport nested, .ok reExport ∈ attempts ∧ Ok reExport nested ∧
          answer = reExport.extend nested) ∧
      Inv (firstResolved resolve attempts table).2 := by
  induction attempts with
  | nil => exact fun htable => ⟨nofun, htable⟩
  | cons attempt rest ih =>
      intro table htable
      cases attempt with
      | error e => exact ⟨nofun, htable⟩
      | ok reExport =>
          obtain ⟨hok, hinv⟩ := h reExport table htable
          rw [firstResolved]
          generalize resolve reExport.candidate.text reExport.imported table = result at hok hinv ⊢
          match result with
          | (.error e, table') => exact ⟨nofun, hinv⟩
          | (.ok none, table') =>
              refine (ih hinv).imp_left fun hrest answer hanswer => ?_
              obtain ⟨reExport', nested, hmem, hnested, heq⟩ := hrest answer hanswer
              exact ⟨reExport', nested, List.mem_cons_of_mem _ hmem, hnested, heq⟩
          | (.ok (some nested), table') =>
              refine ⟨fun answer hanswer => ?_, hinv⟩
              exact ⟨reExport, nested, List.mem_cons_self, hok nested rfl,
                (Option.some.inj (Except.ok.inj hanswer)).symm⟩

/-- The loop over the candidates finds what they settle. -/
theorem firstResolved_of_settled
    {resolve : Text → Text → ReExportCache → ExportOutcome × ReExportCache}
    {settle : Text → Text → Option ExportOutcome}
    {Inv : ReExportCache → Prop}
    (h : ∀ path name r table, settle path name = some r → Inv table →
      (resolve path name table).1 = r ∧ Inv (resolve path name table).2)
    {attempts : List (Except PathError ReExport)}
    {r : ExportOutcome}
    (hr : settleFirst settle attempts = some r) :
    ∀ {table : ReExportCache}, Inv table →
      (firstResolved resolve attempts table).1 = r ∧
        Inv (firstResolved resolve attempts table).2 := by
  induction attempts with
  | nil => exact fun htable => ⟨Option.some.inj hr, htable⟩
  | cons attempt rest ih =>
      intro table htable
      cases attempt with
      | error e => exact ⟨Option.some.inj hr, htable⟩
      | ok reExport =>
          rw [settleFirst] at hr
          rw [firstResolved]
          cases hfirst : settle reExport.candidate.text reExport.imported with
          | none => simp [hfirst] at hr
          | some first =>
              rw [hfirst] at hr
              obtain ⟨heq, hinv⟩ := h _ _ _ table hfirst htable
              generalize resolve reExport.candidate.text reExport.imported table = result
                at heq hinv ⊢
              obtain ⟨outcome, table'⟩ := result
              obtain rfl : outcome = first := heq
              match outcome with
              | .error e => exact ⟨Option.some.inj hr, hinv⟩
              | .ok none => exact ih hr hinv
              | .ok (some nested) => exact ⟨Option.some.inj hr, hinv⟩

end Tables

section Search

variable {R : ModuleRepo}

theorem settledOutcome_none_of_le
    {levels levels' : ℕ}
    (hle : levels ≤ levels')
    {path name : Text}
    (h : settledOutcome R levels' path name = none) :
    settledOutcome R levels path name = none := by
  cases hsettled : settledOutcome R levels path name with
  | none => rfl
  | some r => exact absurd (settledOutcome_mono hle hsettled) (by rw [h]; exact nofun)

theorem resolveExportedSymbol_of_suffix
    {path : Text}
    (hsuffix : isJsTsSuffix (pathSuffix (R.resolver.resolve path).name) = false)
    (remaining : ℕ)
    (visited : List ExportKey)
    (name : Text)
    (table : ReExportCache) :
    resolveExportedSymbol R remaining visited path name table = (.ok none, table) := by
  cases remaining with
  | zero => rw [resolveExportedSymbol.eq_1, cachedOrStored, if_pos hsuffix]
  | succ remaining => rw [resolveExportedSymbol.eq_2, cachedOrStored, if_pos hsuffix]

/-- What is stored for a key is what the re-exports settle for it. -/
theorem store_of_settled
    {levels : ℕ}
    {key : ExportKey}
    {result : ExportOutcome × ReExportCache}
    {r : ExportOutcome}
    (hkey : settledOutcome R levels key.1 key.2 = some r)
    (h : result.1 = r ∧ AnswersSettled R result.2) :
    (ReExportCache.store key result).1 = r ∧
      AnswersSettled R (ReExportCache.store key result).2 := by
  refine ⟨(store_fst key result).trans h.1, forall_store h.2 fun answer hanswer => ?_⟩
  exact ⟨levels, hkey.trans (congrArg some (h.1.symm.trans hanswer))⟩

theorem cachedOrStored_eq_store
    {path name : Text}
    {table : ReExportCache}
    (hsuffix : isJsTsSuffix (pathSuffix (R.resolver.resolve path).name) ≠ false)
    (hfresh : ∀ cached, table ((R.resolver.resolve path).text, name) ≠ some (some cached))
    (search : ResolvedPath → ExportKey → ExportOutcome × ReExportCache) :
    cachedOrStored R path name table search =
      ReExportCache.store ((R.resolver.resolve path).text, name)
        (search (R.resolver.resolve path) ((R.resolver.resolve path).text, name)) := by
  rw [cachedOrStored, if_neg hsuffix]
  split
  · next cached hcached => exact absurd hcached (hfresh cached)
  · rfl

/-- A search that has as many modules left as its name needs finds what the re-exports settle,
whatever the table has: no module on its path needs as few. -/
theorem resolveExportedSymbol_of_settled
    {levels : ℕ} :
    ∀ {remaining : ℕ} {visited : List ExportKey} {path name : Text} {table : ReExportCache}
      {r : ExportOutcome}, levels ≤ remaining → settledOutcome R levels path name = some r →
      (∀ key ∈ visited, settledOutcome R levels key.1 key.2 = none) → AnswersSettled R table →
      (resolveExportedSymbol R remaining visited path name table).1 = r ∧
        AnswersSettled R (resolveExportedSymbol R remaining visited path name table).2 := by
  induction levels with
  | zero =>
      intro remaining visited path name table r _ h _ htable
      rw [settledOutcome.eq_1] at h
      split_ifs at h with hsuffix
      rw [resolveExportedSymbol_of_suffix hsuffix]
      exact ⟨Option.some.inj h, htable⟩
  | succ levels ih =>
      intro remaining visited path name table r hle h hvisited htable
      have hearlier : ∀ key ∈ visited, settledOutcome R levels key.1 key.2 = none :=
        fun key hkey => settledOutcome_none_of_le (Nat.le_succ levels) (hvisited key hkey)
      -- the levels are as few as they can be
      cases hminimal : settledOutcome R levels path name with
      | some r' =>
          rw [settledOutcome_unique h hminimal]
          exact ih (Nat.le_of_succ_le hle) hminimal hearlier htable
      | none =>
          obtain ⟨remaining, rfl⟩ : ∃ fewer, remaining = fewer + 1 :=
            Nat.exists_eq_add_one_of_ne_zero (by omega)
          have hresolved := settledOutcome_resolve (R := R)
          by_cases hsuffix : isJsTsSuffix (pathSuffix (R.resolver.resolve path).name) = false
          · rw [resolveExportedSymbol_of_suffix hsuffix]
            rw [settledOutcome.eq_2, if_pos hsuffix] at h
            exact ⟨Option.some.inj h, htable⟩
          rw [resolveExportedSymbol.eq_2]
          by_cases hcached : ∃ cached, table ((R.resolver.resolve path).text, name) =
              some (some cached)
          · obtain ⟨cached, hcached⟩ := hcached
            obtain ⟨levels', hlevels'⟩ := htable _ _ hcached cached rfl
            rw [hresolved] at hlevels'
            rw [cachedOrStored, if_neg hsuffix, hcached]
            exact ⟨settledOutcome_unique hlevels' h, htable⟩
          rw [cachedOrStored_eq_store hsuffix (not_exists.mp hcached)]
          have hfree : ((R.resolver.resolve path).text, name) ∉ visited := by
            intro hmem
            have hkey := hvisited _ hmem
            rw [hresolved, h] at hkey
            cases hkey
          rw [if_neg hfree]
          have hkey := (hresolved (levels + 1) path name).trans h
          rw [settledOutcome.eq_2, if_neg hsuffix] at h
          refine store_of_settled hkey ?_
          cases hsource : R.modules (R.resolver.resolve path).text with
          | none =>
              simp only [hsource] at h
              exact ⟨Option.some.inj h, htable⟩
          | some source =>
              simp only [hsource] at h
              simp only
              cases hdirect : directAnswer source (R.resolver.resolve path).text name with
              | some answer =>
                  simp only [hdirect] at h
                  exact ⟨Option.some.inj h, htable⟩
              | none =>
                  simp only [hdirect] at h
                  refine firstResolved_of_settled (fun path' name' r' table' hr' htable' => ?_) h
                    htable
                  refine ih (by omega) hr' (List.forall_mem_cons.mpr ⟨?_, hearlier⟩) htable'
                  exact (hresolved levels path name).trans hminimal

/-- An answer through a re-export is traced if the nested one is. -/
theorem traced_extend
    {path name : Text}
    {source : ModuleSource}
    {reExport : ReExport}
    {nested : ExportAnswer}
    (hsource : R.modules (R.resolver.resolve path).text = some source)
    (hmem : .ok reExport ∈ reExports R source (R.resolver.resolve path) name)
    (h : Traced R ((R.resolver.resolve reExport.candidate.text).text, reExport.imported) nested) :
    Traced R ((R.resolver.resolve path).text, name) (reExport.extend nested) := by
  obtain ⟨binding, hbinding, hcandidate⟩ := List.mem_flatMap.mp hmem
  obtain ⟨hbinding, hkind⟩ := List.mem_filter.mp hbinding
  obtain ⟨hkind, hlocal⟩ := of_decide_eq_true hkind
  obtain ⟨last, hlead, hdeclares⟩ := h
  refine ⟨last, hlead.head ?_, hdeclares⟩
  cases hinfo : jsTsModuleCandidates R.resolver R.context (R.resolver.resolve path).parent.text
      binding.moduleName with
  | error e =>
      rw [hinfo] at hcandidate
      simp at hcandidate
  | ok info =>
      rw [hinfo] at hcandidate
      obtain ⟨candidate, hpaths, heq⟩ := List.mem_map.mp hcandidate
      obtain rfl := Except.ok.inj heq
      exact ⟨source, _, binding, info, hsource, R.resolver.idempotent path, hbinding, hkind, hlocal,
        hinfo, candidate, hpaths, rfl⟩

theorem mem_of_hasSymbol
    {source : ModuleSource}
    {name : Text}
    (h : source.hasSymbol name = true) :
    name ∈ source.symbolNames := by
  obtain ⟨symbol, hsymbol, heq⟩ := List.any_eq_true.mp h
  exact of_decide_eq_true heq ▸ hsymbol

/-- What a module itself declares is declared there. -/
theorem traced_directAnswer
    {file name : Text}
    {source : ModuleSource}
    {answer : ExportAnswer}
    (hsource : R.modules file = some source)
    (h : directAnswer source file name = some answer) :
    Traced R (file, name) answer := by
  rw [directAnswer] at h
  split_ifs at h with hdefault hname
  · obtain ⟨symbol, hsymbol, rfl⟩ := Option.map_eq_some_iff.mp h
    have hfound := (Option.filter_eq_some_iff.mp hsymbol).1
    rw [defaultExportName] at hfound
    obtain ⟨written, hwritten, rfl⟩ := List.mem_map.mp (List.mem_of_find?_eq_some hfound)
    exact ⟨name, .refl, source, hsource, mem_of_hasSymbol (List.find?_some hfound),
      Or.inr ⟨hdefault, written, hwritten, rfl⟩⟩
  · obtain rfl := Option.some.inj h
    exact ⟨name, .refl, source, hsource, mem_of_hasSymbol hname, Or.inl rfl⟩

theorem cachedOrStored_traced
    {path name : Text}
    {table : ReExportCache}
    {search : ResolvedPath → ExportKey → ExportOutcome × ReExportCache}
    (htable : AnswersTraced R table)
    (hsearch : ∀ result, search (R.resolver.resolve path) ((R.resolver.resolve path).text, name) =
      result → (∀ answer, result.1 = .ok (some answer) →
        Traced R ((R.resolver.resolve path).text, name) answer) ∧ AnswersTraced R result.2) :
    (∀ answer, (cachedOrStored R path name table search).1 = .ok (some answer) →
      Traced R ((R.resolver.resolve path).text, name) answer) ∧
    AnswersTraced R (cachedOrStored R path name table search).2 := by
  by_cases hsuffix : isJsTsSuffix (pathSuffix (R.resolver.resolve path).name) = false
  · rw [cachedOrStored, if_pos hsuffix]
    exact ⟨nofun, htable⟩
  by_cases hcached : ∃ cached, table ((R.resolver.resolve path).text, name) = some (some cached)
  · obtain ⟨cached, hcached⟩ := hcached
    rw [cachedOrStored, if_neg hsuffix, hcached]
    refine ⟨fun answer hanswer => ?_, htable⟩
    obtain rfl := Option.some.inj (Except.ok.inj hanswer)
    exact htable _ _ hcached cached rfl
  · rw [cachedOrStored_eq_store hsuffix (not_exists.mp hcached), store_fst]
    obtain ⟨hanswer, hkept⟩ := hsearch _ rfl
    exact ⟨hanswer, forall_store hkept hanswer⟩

/-- Every answer is traced, at every depth and with every table of traced answers. -/
theorem resolveExportedSymbol_traced
    {remaining : ℕ} :
    ∀ {visited : List ExportKey} {path name : Text} {table : ReExportCache},
      AnswersTraced R table →
      (∀ answer, (resolveExportedSymbol R remaining visited path name table).1 =
        .ok (some answer) → Traced R ((R.resolver.resolve path).text, name) answer) ∧
      AnswersTraced R (resolveExportedSymbol R remaining visited path name table).2 := by
  induction remaining with
  | zero =>
      intro visited path name table htable
      rw [resolveExportedSymbol.eq_1]
      refine cachedOrStored_traced htable ?_
      rintro _ rfl
      exact ⟨nofun, htable⟩
  | succ remaining ih =>
      intro visited path name table htable
      rw [resolveExportedSymbol.eq_2]
      refine cachedOrStored_traced htable ?_
      rintro _ rfl
      split_ifs with hvisited
      · exact ⟨nofun, htable⟩
      cases hsource : R.modules (R.resolver.resolve path).text with
      | none => exact ⟨nofun, htable⟩
      | some source =>
          simp only
          cases hdirect : directAnswer source (R.resolver.resolve path).text name with
          | some answer =>
              refine ⟨fun answer' hanswer => ?_, htable⟩
              obtain rfl := Option.some.inj (Except.ok.inj hanswer)
              exact traced_directAnswer hsource hdirect
          | none =>
              obtain ⟨hanswer, hkept⟩ := firstResolved_keeps
                (fun reExport table' htable' => ih htable') htable
              refine ⟨fun answer h => ?_, hkept⟩
              obtain ⟨reExport, nested, hmem, hnested, rfl⟩ := hanswer answer h
              exact traced_extend hsource hmem hnested

end Search

/-! ## Sequences of queries -/

section Queries

variable {R : ModuleRepo}

theorem exportAnswers_traced
    {queries : List ExportKey} :
    ∀ {table : ReExportCache}, AnswersTraced R table →
      List.Forall₂ (fun query outcome => ∀ answer, outcome = .ok (some answer) →
        Traced R ((R.resolver.resolve query.1).text, query.2) answer)
      queries (exportAnswers R queries table) := by
  induction queries with
  | nil => exact fun _ => List.Forall₂.nil
  | cons query rest ih =>
      intro table htable
      obtain ⟨hanswer, hkept⟩ :=
        @resolveExportedSymbol_traced R 5 [] query.1 query.2 table htable
      exact List.Forall₂.cons hanswer (ih hkept)

theorem exportAnswers_of_settled
    {queries : List ExportKey}
    (h : ∀ query ∈ queries, SettlesWithinFive R query) :
    ∀ {table : ReExportCache}, AnswersSettled R table →
      exportAnswers R queries table =
        queries.map fun query => (exportQuery R query MemoTable.empty).1 := by
  induction queries with
  | nil => exact fun _ => rfl
  | cons query rest ih =>
      intro table htable
      obtain ⟨hquery, hrest⟩ := List.forall_mem_cons.mp h
      obtain ⟨r, hr⟩ := Option.isSome_iff_exists.mp hquery
      obtain ⟨hanswer, hkept⟩ :=
        resolveExportedSymbol_of_settled le_rfl hr (List.forall_mem_nil _) htable
      have hfresh := @resolveExportedSymbol_of_settled R 5 5 [] query.1 query.2 MemoTable.empty r
        le_rfl hr (List.forall_mem_nil _) MemoTable.forall_empty
      exact congrArg₂ List.cons (hanswer.trans hfresh.1.symm) (ih hrest hkept)

/-- Where every query settles within five modules, each answer is the one without a table; every
answer names a declaration that re-exports lead to. -/
theorem exportAnswers_exact
    (R : ModuleRepo)
    (queries : List ExportKey) :
    ((∀ query ∈ queries, SettlesWithinFive R query) →
      exportAnswers R queries MemoTable.empty =
        queries.map fun query => (exportQuery R query MemoTable.empty).1) ∧
    List.Forall₂ (fun query outcome => ∀ answer, outcome = .ok (some answer) →
        Traced R ((R.resolver.resolve query.1).text, query.2) answer)
      queries (exportAnswers R queries MemoTable.empty) :=
  ⟨fun h => exportAnswers_of_settled h MemoTable.forall_empty,
    exportAnswers_traced MemoTable.forall_empty⟩

end Queries

/-- A module that re-exports `x` from the module of a digit. -/
def passingOn (digit : Char) : ModuleSource where
  defaultNames := []
  symbolNames := []
  statements := [⟨.exportFrom, "x".toList, ['.', '/', digit] ++ ".ts".toList⟩]

/-- Six modules: each but the last re-exports `x` from the next one. -/
def chainRepo : ModuleRepo where
  resolver := lexicalResolver
  context := plainContext
  modules := fun file =>
    if file = "/0.ts".toList then some (passingOn '1')
    else if file = "/1.ts".toList then some (passingOn '2')
    else if file = "/2.ts".toList then some (passingOn '3')
    else if file = "/3.ts".toList then some (passingOn '4')
    else if file = "/4.ts".toList then some (passingOn '5')
    else if file = "/5.ts".toList then some ⟨[], ["x".toList], []⟩
    else none

/-- The sixth module is found for the first one only after a search from the second one. -/
theorem chain_answered_after_middle :
    (exportAnswers chainRepo [("/1.ts".toList, "x".toList), ("/0.ts".toList, "x".toList)]
      MemoTable.empty)[1]? ≠
    some (exportQuery chainRepo ("/0.ts".toList, "x".toList) MemoTable.empty).1 := by
  decide

end RepoMap
end TensorGrep
