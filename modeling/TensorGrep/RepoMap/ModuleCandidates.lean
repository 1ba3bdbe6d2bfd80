import TensorGrep.Kernel.ExceptList
import TensorGrep.Kernel.ListWindows
import TensorGrep.Kernel.PosixPaths
import TensorGrep.RepoMap.ImportGraph

/-!
# Files that a JavaScript module name stands for

A relative module name stands for a file, with an extension or with those that are tried; a
module name that matches a path pattern of the configuration stands for the target.

`moduleCandidates_exact` says when the files are those that the module name stands for:
extensions are put in place of what is behind the last dot, and the two sides of a pattern
may overlap in the module name.
-/

namespace TensorGrep
namespace RepoMap

open Kernel

/-! ## Paths -/

/-- What `Path.resolve` returns. -/
abbrev ResolvedPath := AbsolutePath '/' '.'

instance : DecidableEq ResolvedPath := fun p q =>
  decidable_of_iff (p.text = q.text) AbsolutePath.text_injective.eq_iff

/-- `Path.name`. -/
def ResolvedPath.name (p : ResolvedPath) : Text :=
  p.path.names.getLast?.getD []

/-- The text of a path with another name at its end. -/
def ResolvedPath.renamed
    (p : ResolvedPath)
    (name : Text) : Text :=
  (if p.doubled then ['/', '/'] else ['/']) ++ ['/'].intercalate (p.path.names.dropLast ++ [name])

/-- Why there are no candidates: the root has no name. -/
inductive PathError where
  | emptyName (path : Text)
deriving DecidableEq

/-- `Path.with_suffix`. -/
def ResolvedPath.withSuffix
    (p : ResolvedPath)
    (suffix : Text) : Except PathError Text :=
  if p.name = [] then .error (.emptyName p.text)
  else .ok (p.renamed (pathStem p.name ++ suffix))

theorem plainName_index : PlainName '/' '.' "index".toList where
  nonempty := by decide
  noSlash := by decide
  notDot := by decide
  notDotDot := by decide

theorem plainName_of_mem_index
    {p : ResolvedPath}
    {name : Text}
    (h : name ∈ p.path.names ++ ["index".toList]) :
    PlainName '/' '.' name := by
  rcases List.mem_append.mp h with h | h
  · exact p.path.plain name h
  · rw [List.mem_singleton.mp h]
    exact plainName_index

/-- `path / "index"`. -/
def ResolvedPath.index (p : ResolvedPath) : ResolvedPath where
  doubled := p.doubled
  path := ⟨p.path.names ++ ["index".toList], fun _ h => plainName_of_mem_index h⟩

/-- The path of a text that joins the parts of a path. -/
def partsText : List Text → Text
  | [] => ['.']
  | first :: rest =>
      if first = ['/'] ∨ first = ['/', '/'] then first ++ ['/'].intercalate rest
      else ['/'].intercalate (first :: rest)

/-- `str(Path(parent) / path)`. -/
def joinText (parent path : Text) : Text :=
  partsText (if ['/'] <+: path then pathParts path else pathParts parent ++ pathParts path)

/-- `_resolved_path_str`: what is resolved is not changed when it is resolved again. -/
structure Resolver where
  resolve : Text → ResolvedPath
  idempotent : ∀ t, resolve (resolve t).text = resolve t

/-! ## Candidates -/

/-- `_JS_TS_SUFFIXES`, sorted. -/
def jsTsSuffixes : List Text :=
  [".cjs".toList, ".js".toList, ".jsx".toList, ".mjs".toList, ".ts".toList, ".tsx".toList]

/-- `suffix in _JS_TS_SUFFIXES`. -/
def isJsTsSuffix (suffix : Text) : Bool :=
  jsTsSuffixes.any fun known => known = suffix

/-- `_js_ts_candidate_files`. -/
def jsTsCandidateFiles
    (r : Resolver)
    (base : Text) : Except PathError (List ResolvedPath) :=
  let normalizedBase := r.resolve base
  if isJsTsSuffix (pathSuffix normalizedBase.name) then .ok [normalizedBase]
  else do
    let siblings ← jsTsSuffixes.mapM normalizedBase.withSuffix
    let indexes ← jsTsSuffixes.mapM normalizedBase.index.withSuffix
    .ok (keepUnseen [] ((siblings ++ indexes).map r.resolve))

/-- A path pattern of the configuration. -/
structure TsconfigPath where
  pattern : Text
  targets : List Text

/-- What `_js_ts_repo_context` keeps of the configuration. -/
structure JsTsContext where
  root : Option Text
  baseUrl : Option Text
  paths : List TsconfigPath

/-- What `_js_ts_module_candidates` returns. -/
structure CandidateInfo where
  paths : List ResolvedPath
  provenance : List Text
  confidence : ℚ

/-- `text.replace("*", token, 1)`. -/
def replaceStar (text token : Text) : Text :=
  if '*' ∈ text then
    text.takeWhile (· ≠ '*') ++ token ++ (text.dropWhile (· ≠ '*')).tail
  else text

/-- `_expand_js_ts_tsconfig_target`. -/
def expandJsTsTsconfigTarget (moduleName pattern target : Text) : Option Text :=
  if '*' ∉ pattern then if moduleName = pattern then some target else none
  else
    let before := pattern.takeWhile (· ≠ '*')
    let after := (pattern.dropWhile (· ≠ '*')).tail
    if ¬ before <+: moduleName then none
    else if after ≠ [] ∧ ¬ after <:+ moduleName then none
    else some (replaceStar target
      ((moduleName.take (moduleName.length - after.length)).drop before.length))

/-- The first expansion of a module name. -/
def firstExpansion
    (context : JsTsContext)
    (moduleName : Text) : Option Text :=
  (context.paths.flatMap fun current =>
    (current.targets.filter fun target => target ≠ []).filterMap
      (expandJsTsTsconfigTarget moduleName current.pattern)).head?

/-- The directory of names that are not relative. -/
def baseDirectory
    (r : Resolver)
    (context : JsTsContext)
    (parent : Text) : ResolvedPath :=
  r.resolve (((context.baseUrl.filter fun url => url ≠ []).or
    (context.root.filter fun root => root ≠ [])).getD (r.resolve parent).text)

/-- `_js_ts_module_candidates`, where the directory of the importer is known. -/
def jsTsModuleCandidates
    (r : Resolver)
    (context : JsTsContext)
    (parent moduleName : Text) : Except PathError CandidateInfo :=
  if ['.'] <+: moduleName then do
    let paths ← jsTsCandidateFiles r (r.resolve (joinText parent moduleName)).text
    .ok ⟨paths, [], 1⟩
  else
    let baseDir := (baseDirectory r context parent).text
    match firstExpansion context moduleName with
    | some expanded => do
        let paths ← jsTsCandidateFiles r (r.resolve (joinText baseDir expanded)).text
        .ok ⟨paths, ["tsconfig-path-alias".toList], 88 / 100⟩
    | none =>
        if context.baseUrl.any fun url => url ≠ [] then do
          let paths ← jsTsCandidateFiles r (r.resolve (joinText baseDir moduleName)).text
          .ok ⟨paths, ["tsconfig-base-url".toList], 76 / 100⟩
        else .ok ⟨[], [], 0⟩

/-! ## Suffixes -/

/-- A suffix that is tried is a dot with characters behind it. -/
theorem exists_of_mem_jsTsSuffixes
    {e : Text}
    (h : e ∈ jsTsSuffixes) :
    ∃ tail, e = '.' :: tail ∧ '.' ∉ tail := by
  simp only [jsTsSuffixes, List.mem_cons, List.not_mem_nil, or_false] at h
  rcases h with rfl | rfl | rfl | rfl | rfl | rfl
  · exact ⟨"cjs".toList, by decide, by decide⟩
  · exact ⟨"js".toList, by decide, by decide⟩
  · exact ⟨"jsx".toList, by decide, by decide⟩
  · exact ⟨"mjs".toList, by decide, by decide⟩
  · exact ⟨"ts".toList, by decide, by decide⟩
  · exact ⟨"tsx".toList, by decide, by decide⟩

/-- A name has no suffix, or it is a stem with the suffix behind it. -/
theorem pathSuffix_cases (name : Text) :
    pathSuffix name = [] ∨ ∃ stem tail, name = stem ++ '.' :: tail ∧
      pathSuffix name = '.' :: tail ∧ pathStem name = stem := by
  by_cases hsuffix : pathSuffix name = []
  · exact Or.inl hsuffix
  right
  have hparts := List.takeWhile_append_dropWhile (p := (· ≠ '.')) (l := name.reverse)
  have hdef : pathSuffix name = '.' :: (name.reverse.takeWhile (· ≠ '.')).reverse := by
    rw [pathSuffix] at hsuffix ⊢
    split at hsuffix
    · next h => rw [if_pos h]
    · exact absurd rfl hsuffix
  have hshort : (name.reverse.takeWhile (· ≠ '.')).length < name.reverse.length := by
    rw [pathSuffix] at hsuffix
    split at hsuffix
    · next h =>
        rw [List.length_reverse]
        omega
    · exact absurd rfl hsuffix
  cases hdrop : name.reverse.dropWhile (· ≠ '.') with
  | nil =>
      rw [hdrop, List.append_nil] at hparts
      rw [hparts] at hshort
      exact absurd hshort (lt_irrefl _)
  | cons c rest =>
      have hc : c = '.' := by
        have hhead := List.head?_dropWhile_not (· ≠ '.') name.reverse
        rw [hdrop] at hhead
        simpa using hhead
      subst hc
      have hname : name = rest.reverse ++ '.' :: (name.reverse.takeWhile (· ≠ '.')).reverse := by
        have hreverse := congrArg List.reverse hparts
        rw [hdrop, List.reverse_append, List.reverse_cons, List.reverse_reverse,
          List.append_assoc, List.singleton_append] at hreverse
        exact hreverse.symm
      generalize (name.reverse.takeWhile (· ≠ '.')).reverse = tail at hdef hname
      refine ⟨rest.reverse, tail, hname, hdef, ?_⟩
      rw [pathStem, hdef, hname, List.length_append, Nat.add_sub_cancel, List.take_left]

/-- A name without a suffix is its own stem. -/
theorem pathStem_of_pathSuffix_eq_nil
    {name : Text}
    (h : pathSuffix name = []) :
    pathStem name = name := by
  rw [pathStem, h, List.length_nil, Nat.sub_zero, List.take_length]

/-! ## Texts of paths -/

/-- What is in front of the name. -/
def ResolvedPath.front (p : ResolvedPath) : Text :=
  (if p.doubled then ['/', '/'] else ['/']) ++ p.path.names.dropLast.flatMap (· ++ ['/'])

/-- The last of joined names is behind the others. -/
theorem intercalate_concat
    (names : List Text)
    (name : Text) :
    ['/'].intercalate (names ++ [name]) = names.flatMap (· ++ ['/']) ++ name := by
  induction names with
  | nil => simp
  | cons first names ih =>
      rw [List.cons_append, List.intercalate_cons_of_ne_nil (by simp), ih, List.flatMap_cons,
        List.append_assoc, List.append_assoc, List.append_assoc]

theorem ResolvedPath.renamed_eq
    (p : ResolvedPath)
    (name : Text) :
    p.renamed name = p.front ++ name := by
  rw [renamed, front, intercalate_concat, List.append_assoc]

theorem ResolvedPath.text_eq
    {p : ResolvedPath}
    (h : p.name ≠ []) :
    p.text = p.front ++ p.name := by
  have hnames : p.path.names.dropLast ++ [p.name] = p.path.names := by
    cases hlast : p.path.names.getLast? with
    | none => exact absurd (by rw [name, hlast]; rfl) h
    | some last =>
        rw [name, hlast, Option.getD_some]
        exact List.dropLast_append_getLast? last hlast
  have htext : p.text = (if p.doubled then ['/', '/'] else ['/']) ++
      ['/'].intercalate p.path.names := by
    rw [AbsolutePath.text, PlainPath.text]
    split <;> rfl
  rw [htext, ← hnames, intercalate_concat, front, List.append_assoc]

/-- The path of an index file is below the path. -/
theorem ResolvedPath.renamed_index
    {p : ResolvedPath}
    (h : p.name ≠ [])
    (name : Text) :
    p.index.renamed name = p.text ++ '/' :: name := by
  have hnames : p.path.names ≠ [] := by
    intro hnil
    rw [ResolvedPath.name, hnil] at h
    exact h rfl
  have htext : p.text ++ ['/'] = (if p.doubled then ['/', '/'] else ['/']) ++
      p.path.names.flatMap (· ++ ['/']) := by
    rw [← intercalate_append_slash hnames, AbsolutePath.text, PlainPath.text]
    split <;> simp
  have hfront : p.index.front = p.text ++ ['/'] := by
    rw [htext, front, index, List.dropLast_concat]
  rw [renamed_eq, hfront, List.append_assoc, List.singleton_append]

/-! ## Candidates of a path -/

section Candidates

variable (r : Resolver)

/-- The text that is tried for a suffix in place of the suffix of the path. -/
def ResolvedPath.replaced
    (p : ResolvedPath)
    (suffix : Text) : Text :=
  p.renamed (pathStem p.name ++ suffix)

/-- The text of the index file with a suffix. -/
def ResolvedPath.indexFile
    (p : ResolvedPath)
    (suffix : Text) : Text :=
  p.text ++ "/index".toList ++ suffix

/-- The name `index` has no suffix. -/
theorem withSuffix_index
    {p : ResolvedPath}
    (h : p.name ≠ [])
    (suffix : Text) :
    p.index.withSuffix suffix = .ok (p.indexFile suffix) := by
  have hname : p.index.name = "index".toList := by
    rw [ResolvedPath.name, ResolvedPath.index, List.getLast?_concat, Option.getD_some]
  have hstem : pathStem "index".toList = "index".toList :=
    pathStem_of_pathSuffix_eq_nil (by decide)
  rw [ResolvedPath.withSuffix, hname, if_neg (by decide), hstem, ResolvedPath.renamed_index h,
    ResolvedPath.indexFile, List.append_assoc]
  rfl

theorem withSuffix_eq_replaced
    {p : ResolvedPath}
    (h : p.name ≠ [])
    (suffix : Text) :
    p.withSuffix suffix = .ok (p.replaced suffix) := by
  rw [ResolvedPath.withSuffix, if_neg h, ResolvedPath.replaced]

theorem mapM_eq_ok_map
    {α β ε : Type}
    {f : α → Except ε β}
    {g : α → β}
    {l : List α}
    (h : ∀ a ∈ l, f a = .ok (g a)) :
    l.mapM f = .ok (l.map g) := by
  obtain ⟨results, hresults⟩ := exists_mapM fun a ha => ⟨g a, h a ha⟩
  rw [hresults, eq_map_of_mapM hresults fun a ha b _ hb => Except.ok.inj (hb.symm.trans (h a ha))]

/-- The candidates of a path whose suffix is not one that is tried. -/
theorem candidateFiles_of_name
    {base : Text}
    (hsuffix : isJsTsSuffix (pathSuffix (r.resolve base).name) = false)
    (hname : (r.resolve base).name ≠ []) :
    jsTsCandidateFiles r base = .ok (keepUnseen []
      ((jsTsSuffixes.map (r.resolve base).replaced ++
        jsTsSuffixes.map (r.resolve base).indexFile).map r.resolve)) := by
  have hsiblings := mapM_eq_ok_map (l := jsTsSuffixes) fun e _ => withSuffix_eq_replaced hname e
  have hindexes := mapM_eq_ok_map (l := jsTsSuffixes) fun e _ => withSuffix_index hname e
  simp only [jsTsCandidateFiles, hsuffix, Bool.false_eq_true, if_false]
  exact bind_eq_ok_iff.mpr ⟨_, hsiblings, bind_eq_ok_iff.mpr ⟨_, hindexes, rfl⟩⟩

/-- The root has no candidates. -/
theorem name_ne_nil_of_candidateFiles
    {base : Text}
    (hsuffix : isJsTsSuffix (pathSuffix (r.resolve base).name) = false)
    {paths : List ResolvedPath}
    (h : jsTsCandidateFiles r base = .ok paths) :
    (r.resolve base).name ≠ [] := by
  intro hnil
  have hfails : jsTsSuffixes.mapM (r.resolve base).withSuffix =
      .error (.emptyName (r.resolve base).text) := by
    rw [jsTsSuffixes, List.mapM_cons, ResolvedPath.withSuffix, if_pos hnil]
    rfl
  simp only [jsTsCandidateFiles, hsuffix, Bool.false_eq_true, if_false, hfails] at h
  cases h

/-- What is a candidate of such a path. -/
theorem mem_candidateFiles_iff
    {base : Text}
    (hsuffix : isJsTsSuffix (pathSuffix (r.resolve base).name) = false)
    {paths : List ResolvedPath}
    (h : jsTsCandidateFiles r base = .ok paths)
    (q : ResolvedPath) :
    q ∈ paths ↔ (∃ e ∈ jsTsSuffixes, q = r.resolve ((r.resolve base).replaced e)) ∨
      ∃ e ∈ jsTsSuffixes, q = r.resolve ((r.resolve base).indexFile e) := by
  have hname := name_ne_nil_of_candidateFiles r hsuffix h
  rw [candidateFiles_of_name r hsuffix hname, Except.ok.injEq] at h
  rw [← h, mem_keepUnseen_nil, List.map_append, List.mem_append, List.map_map, List.map_map,
    List.mem_map, List.mem_map]
  simp only [Function.comp_apply, eq_comm]

/-- None of the files that are tried, or that should be, is a link. -/
structure NoLinks (p : ResolvedPath) : Prop where
  appended : ∀ e ∈ jsTsSuffixes, (r.resolve (p.text ++ e)).text = p.text ++ e
  replaced : ∀ e ∈ jsTsSuffixes, (r.resolve (p.replaced e)).text = p.replaced e
  index : ∀ e ∈ jsTsSuffixes, (r.resolve (p.indexFile e)).text = p.indexFile e

/-- A path without a suffix has its suffixes appended. -/
theorem replaced_eq_append
    {p : ResolvedPath}
    (hname : p.name ≠ [])
    (hsuffix : pathSuffix p.name = [])
    (e : Text) :
    p.replaced e = p.text ++ e := by
  rw [ResolvedPath.replaced, pathStem_of_pathSuffix_eq_nil hsuffix, ResolvedPath.renamed_eq,
    ResolvedPath.text_eq hname, List.append_assoc]

/-- In place of a suffix, nothing comes out that ends with two. -/
theorem replaced_ne_append
    {p : ResolvedPath}
    {e e' : Text}
    (hname : p.name ≠ [])
    (hsuffix : pathSuffix p.name ≠ [])
    (he : e ∈ jsTsSuffixes)
    (he' : e' ∈ jsTsSuffixes) :
    p.replaced e' ≠ p.text ++ e := by
  intro heq
  obtain ⟨tail, rfl, -⟩ := exists_of_mem_jsTsSuffixes he
  obtain ⟨tail', rfl, hdot⟩ := exists_of_mem_jsTsSuffixes he'
  rcases pathSuffix_cases p.name with hnil | ⟨stem, behind, hsplit, -, hstem⟩
  · exact hsuffix hnil
  · rw [ResolvedPath.replaced, ResolvedPath.renamed_eq, ResolvedPath.text_eq hname, hstem, hsplit,
      List.append_assoc, List.append_cancel_left_eq, List.append_assoc,
      List.append_cancel_left_eq, List.cons_append, List.cons.injEq] at heq
    rw [heq.2] at hdot
    exact hdot (List.mem_append_right _ List.mem_cons_self)

/-- An index file is no sibling. -/
theorem indexFile_ne_append
    {p : ResolvedPath}
    {e e' : Text}
    (he : e ∈ jsTsSuffixes) :
    p.indexFile e' ≠ p.text ++ e := by
  intro heq
  obtain ⟨tail, rfl, -⟩ := exists_of_mem_jsTsSuffixes he
  rw [ResolvedPath.indexFile, List.append_assoc, List.append_cancel_left_eq] at heq
  have hhead := congrArg List.head? heq
  revert hhead
  change some '/' ≠ some '.'
  decide

/-- Suffixes are told by what is behind the last dot. -/
theorem append_suffix_inj
    {t t' e e' : Text}
    (he : e ∈ jsTsSuffixes)
    (he' : e' ∈ jsTsSuffixes)
    (h : t ++ e = t' ++ e') :
    t = t' := by
  obtain ⟨tail, rfl, hdot⟩ := exists_of_mem_jsTsSuffixes he
  obtain ⟨tail', rfl, hdot'⟩ := exists_of_mem_jsTsSuffixes he'
  have hreverse := congrArg List.reverse h
  rw [List.reverse_append, List.reverse_append, List.reverse_cons, List.reverse_cons,
    List.append_assoc, List.append_assoc, List.singleton_append, List.singleton_append] at hreverse
  have hbefore : '.' ∉ tail.reverse := by rwa [List.mem_reverse]
  have hbefore' : '.' ∉ tail'.reverse := by rwa [List.mem_reverse]
  exact List.reverse_injective (append_mark_inj hbefore hbefore' hreverse).2

/-- Something appended to a text makes another one. -/
theorem append_ne_self
    {t e : Text}
    (he : e ≠ []) :
    t ++ e ≠ t := by
  intro heq
  exact he (List.append_right_eq_self.mp heq)

end Candidates

/-! ## Relative module names -/

section Relative

variable (r : Resolver) (context : JsTsContext) (parent moduleName : Text)

/-- The path that a relative module name names. -/
def namedPath : ResolvedPath :=
  r.resolve (joinText parent moduleName)

/-- The module name has an extension. -/
def HasExtension : Prop :=
  isJsTsSuffix (pathSuffix (pathName moduleName)) = true

instance : Decidable (HasExtension moduleName) :=
  inferInstanceAs (Decidable (_ = true))

/-- The candidates are the file that is named, or the files with an extension appended to the
named path or to the index in it. -/
def StandsForFile : Prop :=
  ∃ info, jsTsModuleCandidates r context parent moduleName = .ok info ∧
    if HasExtension moduleName then info.paths = [namedPath r parent moduleName]
    else ∀ q, q ∈ info.paths ↔
      (∃ e ∈ jsTsSuffixes, q = r.resolve ((namedPath r parent moduleName).text ++ e)) ∨
        ∃ e ∈ jsTsSuffixes, q = r.resolve ((namedPath r parent moduleName).indexFile e)

/-- The path has the extension of the module name, or a name without any suffix. -/
def SuffixKept : Prop :=
  if HasExtension moduleName then
    isJsTsSuffix (pathSuffix (namedPath r parent moduleName).name) = true
  else (namedPath r parent moduleName).name ≠ [] ∧
    pathSuffix (namedPath r parent moduleName).name = []

variable {r context parent moduleName}

/-- The candidates of a relative module name are those of the path. -/
theorem standsForFile_iff
    (hrelative : ['.'] <+: moduleName) :
    StandsForFile r context parent moduleName ↔
      ∃ paths, jsTsCandidateFiles r (namedPath r parent moduleName).text = .ok paths ∧
        if HasExtension moduleName then paths = [namedPath r parent moduleName]
        else ∀ q, q ∈ paths ↔
          (∃ e ∈ jsTsSuffixes, q = r.resolve ((namedPath r parent moduleName).text ++ e)) ∨
            ∃ e ∈ jsTsSuffixes, q = r.resolve ((namedPath r parent moduleName).indexFile e) := by
  simp only [StandsForFile, jsTsModuleCandidates, if_pos hrelative]
  constructor
  · rintro ⟨info, hinfo, hpaths⟩
    obtain ⟨paths, hok, hcons⟩ := bind_eq_ok_iff.mp hinfo
    cases hcons
    exact ⟨paths, hok, hpaths⟩
  · rintro ⟨paths, hok, hpaths⟩
    exact ⟨_, bind_eq_ok_iff.mpr ⟨paths, hok, rfl⟩, hpaths⟩

/-- Resolving the named path again gives it. -/
theorem resolve_namedPath :
    r.resolve (namedPath r parent moduleName).text = namedPath r parent moduleName :=
  r.idempotent _

/-- A suffix that is kept makes the module name stand for its file. -/
theorem standsForFile_of_suffixKept
    (hrelative : ['.'] <+: moduleName)
    (h : SuffixKept r parent moduleName) :
    StandsForFile r context parent moduleName := by
  rw [standsForFile_iff hrelative]
  rw [SuffixKept] at h
  by_cases hextension : HasExtension moduleName
  · rw [if_pos hextension] at h
    refine ⟨[namedPath r parent moduleName], ?_, by rw [if_pos hextension]⟩
    simp only [jsTsCandidateFiles, resolve_namedPath, h, if_true]
  · rw [if_neg hextension] at h
    obtain ⟨hname, hsuffix⟩ := h
    have hnone : isJsTsSuffix (pathSuffix (namedPath r parent moduleName).name) = false := by
      rw [hsuffix]
      decide
    rw [← resolve_namedPath] at hnone hname
    refine ⟨_, candidateFiles_of_name r hnone hname, ?_⟩
    rw [if_neg hextension]
    intro q
    rw [mem_candidateFiles_iff r hnone (candidateFiles_of_name r hnone hname), resolve_namedPath]
    rw [resolve_namedPath] at hname
    simp only [replaced_eq_append hname hsuffix]

/-- Without links, only a suffix that is kept does. -/
theorem suffixKept_of_standsForFile
    (hrelative : ['.'] <+: moduleName)
    (hlinks : NoLinks r (namedPath r parent moduleName))
    (h : StandsForFile r context parent moduleName) :
    SuffixKept r parent moduleName := by
  rw [standsForFile_iff hrelative] at h
  obtain ⟨paths, hok, hpaths⟩ := h
  rw [SuffixKept]
  by_cases hknown : isJsTsSuffix (pathSuffix (namedPath r parent moduleName).name) = true
  · by_cases hextension : HasExtension moduleName
    · rw [if_pos hextension]
      exact hknown
    · rw [if_neg hextension] at hpaths
      simp only [jsTsCandidateFiles, resolve_namedPath, hknown, if_true, Except.ok.injEq] at hok
      -- The path itself is no path with an extension appended to it.
      have hmem : r.resolve ((namedPath r parent moduleName).text ++ ".js".toList) ∈ paths :=
        (hpaths _).mpr (Or.inl ⟨".js".toList, by decide, rfl⟩)
      rw [← hok, List.mem_singleton] at hmem
      have htext := hlinks.appended ".js".toList (by decide)
      rw [hmem] at htext
      exact absurd htext.symm (append_ne_self (by decide))
  · have hunknown : isJsTsSuffix (pathSuffix
        (r.resolve (namedPath r parent moduleName).text).name) = false := by
      rw [resolve_namedPath]
      exact Bool.not_eq_true _ ▸ hknown
    have hmem := mem_candidateFiles_iff r hunknown hok
    have hname := name_ne_nil_of_candidateFiles r hunknown hok
    rw [resolve_namedPath] at hmem hname
    by_cases hextension : HasExtension moduleName
    · rw [if_pos hextension] at hpaths
      -- The index files are candidates, and they are not the path itself.
      have hindex := (hmem _).mpr (Or.inr ⟨".js".toList, by decide, rfl⟩)
      rw [hpaths, List.mem_singleton] at hindex
      have htext := hlinks.index ".js".toList (by decide)
      rw [hindex, ResolvedPath.indexFile, List.append_assoc] at htext
      exact absurd htext.symm (append_ne_self (by decide))
    · rw [if_neg hextension] at hpaths ⊢
      refine ⟨hname, ?_⟩
      by_contra hsuffix
      have happended := hlinks.appended ".js".toList (by decide)
      rcases (hmem _).mp ((hpaths _).mpr (Or.inl ⟨".js".toList, by decide, rfl⟩)) with
        ⟨e, he, heq⟩ | ⟨e, he, heq⟩
      · rw [heq, hlinks.replaced e he] at happended
        exact replaced_ne_append hname hsuffix (by decide) he happended
      · rw [heq, hlinks.index e he] at happended
        exact indexFile_ne_append (by decide) happended

/-- Paths that differ have no file with an extension appended in common. -/
theorem append_suffix_ne
    {p q : ResolvedPath}
    {e e' : Text}
    (hp : NoLinks r p)
    (hq : NoLinks r q)
    (hne : p ≠ q)
    (he : e ∈ jsTsSuffixes)
    (he' : e' ∈ jsTsSuffixes) :
    r.resolve (p.text ++ e) ≠ r.resolve (q.text ++ e') := by
  intro heq
  have htext := congrArg AbsolutePath.text heq
  rw [hp.appended e he, hq.appended e' he'] at htext
  exact hne (AbsolutePath.text_injective (append_suffix_inj he he' htext))

end Relative

/-! ## Path patterns -/

section Patterns

variable (moduleName pattern target : Text)

/-- A pattern with a star expands the module names with something in place of the star, to the
target with that in place of its star; a pattern without one expands itself. -/
def ExpandsExactly : Prop :=
  ('*' ∉ pattern → ∀ expanded, expandJsTsTsconfigTarget moduleName pattern target = some expanded ↔
    moduleName = pattern ∧ expanded = target) ∧
  ∀ before after, pattern = before ++ '*' :: after → '*' ∉ before →
    ∀ expanded, expandJsTsTsconfigTarget moduleName pattern target = some expanded ↔
      ∃ token, moduleName = before ++ token ++ after ∧ expanded = replaceStar target token

/-- The module name has both sides of the pattern, but not one behind the other. -/
def SidesOverlap : Prop :=
  ∃ before after, pattern = before ++ '*' :: after ∧ '*' ∉ before ∧ before <+: moduleName ∧
    after <:+ moduleName ∧ moduleName.length < before.length + after.length

variable {moduleName pattern target}

/-- The sides of a pattern. -/
theorem sides_of_pattern
    {before : Text}
    (hbefore : '*' ∉ before)
    (after : Text) :
    (before ++ '*' :: after).takeWhile (· ≠ '*') = before ∧
      ((before ++ '*' :: after).dropWhile (· ≠ '*')).tail = after := by
  have hall : ∀ c ∈ before, decide (c ≠ '*') = true := by
    intro c hc
    exact decide_eq_true fun heq => hbefore (heq ▸ hc)
  constructor
  · rw [List.takeWhile_append_of_pos hall, List.takeWhile_cons_of_neg (by decide), List.append_nil]
  · rw [List.dropWhile_append_of_pos hall, List.dropWhile_cons_of_neg (by decide)]
    rfl

/-- What a pattern with a star expands. -/
theorem expand_eq_some_iff
    {before after expanded : Text}
    (hbefore : '*' ∉ before) :
    expandJsTsTsconfigTarget moduleName (before ++ '*' :: after) target = some expanded ↔
      before <+: moduleName ∧ after <:+ moduleName ∧ expanded = replaceStar target
        ((moduleName.take (moduleName.length - after.length)).drop before.length) := by
  obtain ⟨hfront, hback⟩ := sides_of_pattern hbefore after
  have hstar : ¬ '*' ∉ before ++ '*' :: after := by simp
  simp only [expandJsTsTsconfigTarget, if_neg hstar, hfront, hback]
  by_cases hbegins : before <+: moduleName
  · by_cases hends : after <:+ moduleName
    · simp [hbegins, hends, eq_comm]
    · have hne : after ≠ [] := by
        rintro rfl
        exact hends List.nil_suffix
      simp [hbegins, hends, hne]
  · simp [hbegins]

/-- A text with two sides that do not overlap is put together from them and what is between. -/
theorem eq_append_between
    {before after t : Text}
    (hbegins : before <+: t)
    (hends : after <:+ t)
    (hlong : before.length + after.length ≤ t.length) :
    t = before ++ (t.take (t.length - after.length)).drop before.length ++ after := by
  obtain ⟨front, rfl⟩ := hends
  rw [List.length_append] at hlong ⊢
  rw [Nat.add_sub_cancel, List.take_left]
  obtain ⟨middle, rfl⟩ : before <+: front :=
    List.prefix_of_prefix_length_le hbegins (List.prefix_append _ _) (by omega)
  rw [List.drop_left]

/-- A pattern expands exactly unless its sides overlap in the module name. -/
theorem expandsExactly_iff :
    ExpandsExactly moduleName pattern target ↔ ¬ SidesOverlap moduleName pattern := by
  constructor
  · rintro ⟨-, hexact⟩ ⟨before, after, rfl, hbefore, hbegins, hends, hshort⟩
    obtain ⟨token, htoken, -⟩ := (hexact before after rfl hbefore _).mp
      ((expand_eq_some_iff hbefore).mpr ⟨hbegins, hends, rfl⟩)
    rw [htoken, List.length_append, List.length_append] at hshort
    omega
  · intro hapart
    constructor
    · intro hstar expanded
      rw [expandJsTsTsconfigTarget, if_pos hstar]
      split_ifs with heq
      · rw [Option.some.injEq, and_iff_right heq, eq_comm]
      · exact iff_of_false nofun fun h => heq h.1
    · rintro before after rfl hbefore expanded
      rw [expand_eq_some_iff hbefore]
      constructor
      · rintro ⟨hbegins, hends, rfl⟩
        have hlong : before.length + after.length ≤ moduleName.length := not_lt.mp fun hshort =>
          hapart ⟨before, after, rfl, hbefore, hbegins, hends, hshort⟩
        exact ⟨_, eq_append_between hbegins hends hlong, rfl⟩
      · rintro ⟨token, rfl, rfl⟩
        refine ⟨⟨token ++ after, by rw [List.append_assoc]⟩, List.suffix_append _ _, ?_⟩
        rw [List.length_append, Nat.add_sub_cancel, List.take_left, List.drop_left]

end Patterns

/-! ## What module names stand for -/

/-- A relative module name stands for its file if its suffix is kept, and without links only
then; paths that differ have no file with an extension appended in common; and a pattern expands
exactly unless its sides overlap. -/
theorem moduleCandidates_exact
    {r : Resolver}
    {parent moduleName : Text}
    (hrelative : ['.'] <+: moduleName) :
    (SuffixKept r parent moduleName →
      ∀ context, StandsForFile r context parent moduleName) ∧
    (NoLinks r (namedPath r parent moduleName) →
      ∀ context, StandsForFile r context parent moduleName → SuffixKept r parent moduleName) ∧
    (NoLinks r (namedPath r parent moduleName) → ∀ importer other,
      NoLinks r (namedPath r importer other) →
      namedPath r parent moduleName ≠ namedPath r importer other →
      ∀ e ∈ jsTsSuffixes, ∀ e' ∈ jsTsSuffixes,
        r.resolve ((namedPath r parent moduleName).text ++ e) ≠
          r.resolve ((namedPath r importer other).text ++ e')) ∧
    ∀ name pattern target, ExpandsExactly name pattern target ↔ ¬ SidesOverlap name pattern := by
  refine ⟨fun h context => standsForFile_of_suffixKept hrelative h,
    fun hlinks context h => suffixKept_of_standsForFile hrelative hlinks h,
    fun hp importer other hq hne e he e' he' => append_suffix_ne hp hq hne he he',
    fun name pattern target => expandsExactly_iff⟩

/-- Resolving without links. -/
def lexicalResolver : Resolver where
  resolve := normAbsolute
  idempotent := fun _ => normAbsolute_text _

/-- The context of a repository without a configuration. -/
def plainContext : JsTsContext where
  root := none
  baseUrl := none
  paths := []

/-- The name `./a` stands for the file `a` with an extension. -/
theorem moduleCandidates_exact_plain :
    StandsForFile lexicalResolver plainContext "/p".toList "./a".toList := by
  refine (moduleCandidates_exact (by decide)).1 ?_ plainContext
  have hextension : ¬ HasExtension "./a".toList := by decide
  have hname : (namedPath lexicalResolver "/p".toList "./a".toList).name = "a".toList := by
    decide
  rw [SuffixKept, if_neg hextension, hname]
  decide

/-- The name `./a.b` does not stand for the files `a.b` with an extension: they are not among
the candidates, and the files `a` are. -/
theorem dotted_name_replaced :
    ¬ StandsForFile lexicalResolver plainContext "/p".toList "./a.b".toList := by
  have hextension : ¬ HasExtension "./a.b".toList := by decide
  have hbase : (namedPath lexicalResolver "/p".toList "./a.b".toList).text = "/p/a.b".toList := by
    decide
  have hnone : ((jsTsCandidateFiles lexicalResolver "/p/a.b".toList).toOption.getD []).all
      (fun q => q.text ≠ "/p/a.b.ts".toList) = true := by
    decide
  rw [standsForFile_iff (by decide), hbase]
  rintro ⟨paths, hok, hpaths⟩
  rw [if_neg hextension] at hpaths
  rw [hok] at hnone
  have hmem := (hpaths _).mpr (Or.inl ⟨".ts".toList, by decide, rfl⟩)
  have hne := of_decide_eq_true (List.all_eq_true.mp hnone _ hmem)
  exact hne (by decide)

end RepoMap
end TensorGrep
