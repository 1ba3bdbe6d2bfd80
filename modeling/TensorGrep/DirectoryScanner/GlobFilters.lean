import TensorGrep.DirectoryScanner.Coverage

/-!
# Glob filters

A list of globs lets a file through if one of its inclusions matches the file and none of
its exclusions does, so their order does not matter.  A list without an inclusion lets
nothing through, except for the empty list, which lets everything through.  The globs
decide which files a walk yields and nothing else (`walk_keepOnly`).
-/

namespace TensorGrep
namespace DirectoryScanner

open Kernel
open RepoMap (FileName RepoPath asPosix pathSuffix lastName)

/-! ## The loop over the globs -/

section Globs

variable {accepts : Text → Bool}

/-- A glob excludes what it matches. -/
def isExclusion (glob : Text) : Bool :=
  ['!'].isPrefixOf glob

/-- The globs match if an inclusion accepts, or one has before, and no exclusion does. -/
theorem matchGlobs_iff
    (globs : List Text)
    (matched : Bool) :
    matchGlobs accepts globs matched = true ↔
      (∀ g ∈ globs, isExclusion g = true → accepts (g.drop 1) = false) ∧
        (matched = true ∨ ∃ g ∈ globs, isExclusion g = false ∧ accepts g = true) := by
  induction globs generalizing matched with
  | nil => simp [matchGlobs]
  | cons g globs ih =>
      rw [List.forall_mem_cons, List.exists_mem_cons_iff]
      cases hexclude : isExclusion g with
      | true =>
          have hbang : ['!'].isPrefixOf g = true := hexclude
          simp only [matchGlobs, hbang, if_true]
          cases accepts (g.drop 1) with
          | true => simp
          | false => simp only [Bool.false_eq_true, if_false, ih]; simp
      | false =>
          have hbang : ['!'].isPrefixOf g = false := hexclude
          simp only [matchGlobs, hbang, Bool.false_eq_true, if_false]
          cases accepts g with
          | true => simp only [if_true, ih]; simp
          | false => simp only [Bool.false_eq_true, if_false, ih]; simp

/-- The order of the globs does not matter. -/
theorem matchGlobs_perm
    {globs globs' : List Text}
    (h : globs.Perm globs')
    (matched : Bool) :
    matchGlobs accepts globs matched = matchGlobs accepts globs' matched := by
  rw [Bool.eq_iff_iff, matchGlobs_iff, matchGlobs_iff]
  simp only [h.mem_iff]

/-- An exclusion behind the globs takes away what it accepts. -/
theorem matchGlobs_concat_exclusion
    (globs : List Text)
    (pattern : Text)
    (matched : Bool) :
    matchGlobs accepts (globs ++ ['!' :: pattern]) matched =
      (matchGlobs accepts globs matched && !accepts pattern) := by
  have hexclusion : isExclusion ('!' :: pattern) = true := rfl
  rw [Bool.eq_iff_iff, Bool.and_eq_true, matchGlobs_iff, matchGlobs_iff, List.forall_mem_append,
    List.forall_mem_singleton, Bool.not_eq_true']
  simp only [List.mem_append, List.mem_singleton, or_and_right, exists_or, exists_eq_left,
    hexclusion, Bool.true_eq_false, false_and, or_false, forall_const, List.drop_one,
    List.tail_cons]
  tauto

end Globs

/-! ## What the globs let through -/

section Included

variable (host : Host) (scanner : Scanner) (base : BasePath)

/-- The scanner with other globs. -/
def Scanner.withGlobs (globs : List Text) : Scanner :=
  { scanner with config := { scanner.config with glob := globs } }

/-- The name that `_should_include_file` takes of a path below the base. -/
def nameBelow (path : RepoPath) : Text :=
  if path = [] then base.name else lastName path

/-- The relative path that it is given. -/
def relativeBelow (path : RepoPath) : Text :=
  if path = [] then base.name else asPosix path

/-- A pattern matches one of the spellings of a path below the base. -/
def globMatches
    (pattern : Text)
    (path : RepoPath) : Bool :=
  let fold := fun text => if scanner.config.globCaseInsensitive then host.lower text else text
  [nameBelow base path, base.join path, base.join path, relativeBelow base path].any
    fun candidate => fnmatch (fold candidate) (fold pattern)

/-- A path below the base is let through. -/
def included (path : RepoPath) : Bool :=
  shouldIncludeFile host scanner.config (nameBelow base path) (base.join path)
    (relativeBelow base path)

/-- The types let a path below the base through. -/
def typesInclude (path : RepoPath) : Bool :=
  (scanner.config.fileType.isEmpty || scanner.config.fileType.any fun t =>
      (pathSuffix (nameBelow base path)).dropWhile (· = '.') = t) &&
    !scanner.config.typeNot.any fun t =>
      (pathSuffix (nameBelow base path)).dropWhile (· = '.') = t

variable {host scanner base}

/-- A path is let through by the globs and by the types. -/
theorem included_withGlobs
    (globs : List Text)
    (path : RepoPath) :
    included host (scanner.withGlobs globs) base path =
      ((globs.isEmpty ||
          matchGlobs (fun pattern => globMatches host scanner base pattern path) globs false) &&
        typesInclude scanner base path) := by
  rw [included, shouldIncludeFile, Bool.and_assoc]
  rfl

/-- Behind some glob an exclusion takes away what it matches. -/
theorem included_concat_exclusion
    {globs : List Text}
    (hglobs : globs ≠ [])
    (pattern : Text)
    (path : RepoPath) :
    included host (scanner.withGlobs (globs ++ ['!' :: pattern])) base path =
      (included host (scanner.withGlobs globs) base path &&
        !globMatches host scanner base pattern path) := by
  have hempty : globs.isEmpty = false := List.isEmpty_eq_false_iff.mpr hglobs
  have happend : (globs ++ ['!' :: pattern]).isEmpty = false := by simp
  rw [included_withGlobs, included_withGlobs, matchGlobs_concat_exclusion, hempty, happend,
    Bool.false_or, Bool.false_or, Bool.and_right_comm]

/-- An exclusion alone lets nothing through. -/
theorem included_exclusion
    (pattern : Text)
    (path : RepoPath) :
    included host (scanner.withGlobs ['!' :: pattern]) base path = false := by
  have hnothing :
      matchGlobs (fun pattern => globMatches host scanner base pattern path) ['!' :: pattern]
        false = _ := matchGlobs_concat_exclusion [] pattern false
  rw [matchGlobs, Bool.false_and] at hnothing
  rw [included_withGlobs, hnothing]
  rfl

/-- The order of the globs does not matter for a path. -/
theorem included_perm
    {globs globs' : List Text}
    (h : globs.Perm globs')
    (path : RepoPath) :
    included host (scanner.withGlobs globs) base path =
      included host (scanner.withGlobs globs') base path := by
  have hempty : globs.isEmpty = globs'.isEmpty := by
    rw [Bool.eq_iff_iff, List.isEmpty_iff_length_eq_zero, List.isEmpty_iff_length_eq_zero,
      h.length_eq]
  rw [included_withGlobs, included_withGlobs, matchGlobs_perm h, hempty]

end Included

/-! ## The globs decide what is yielded -/

section Walks

variable {host : Host} {scanner : Scanner} {base : BasePath} {globs globs' : List Text}
  {keep : RepoPath → Bool}

/-- A state without the files that are not kept. -/
def WalkState.keepOnly
    (keep : RepoPath → Bool)
    (state : WalkState) : WalkState :=
  { state with yielded := state.yielded.filter keep }

/-- The end of a part of a walk without the files that are not kept. -/
def Progress.keepOnly (keep : RepoPath → Bool) : Progress → Progress
  | .going state => .going (state.keepOnly keep)
  | .stopped state => .stopped (state.keepOnly keep)
  | .raised => .raised

theorem Progress.final?_keepOnly (p : Progress) :
    (p.keepOnly keep).final? = p.final?.map (WalkState.keepOnly keep) := by
  cases p <;> rfl

/-- The walk comes to the same directories. -/
theorem arrivals_withGlobs
    (path : RepoPath)
    (stack : List (RepoPath × Text))
    (node : ScanNode) :
    arrivals host (scanner.withGlobs globs) base path stack node =
      arrivals host scanner base path stack node := by
  induction node using ScanNode.induct generalizing path stack with
  | file contents => rw [arrivals, arrivals] <;> simp
  | special => rw [arrivals, arrivals] <;> simp
  | link target => rw [arrivals, arrivals] <;> simp
  | dir listable entries ih =>
      have hentries : ∀ es ⊆ entries, ∀ stack,
          entryArrivals host (scanner.withGlobs globs) base path stack es =
            entryArrivals host scanner base path stack es := by
        intro es hes stack
        induction es with
        | nil => rw [entryArrivals, entryArrivals]
        | cons entry es ihes =>
            obtain ⟨name, node⟩ := entry
            rw [entryArrivals, entryArrivals, ihes fun _ h => hes (List.mem_cons_of_mem _ h),
              ih _ (hes List.mem_cons_self)]
            rfl
      rw [arrivals, arrivals, hentries entries fun _ h => h]
      rfl

/-- The entry budget stops the walk at the same directory. -/
theorem reached_withGlobs
    (scanner : Scanner)
    (globs : List Text) :
    reached (scanner.withGlobs globs) = reached scanner := by
  funext seen as
  induction as generalizing seen with
  | nil => rw [reached, reached]
  | cons a as ih =>
      rw [reached, reached, ih]
      rfl

/-- A path below a directory that is yielded has passed the filters. -/
theorem selects_withGlobs
    (hkeep : ∀ path, included host (scanner.withGlobs globs') base path =
      (included host (scanner.withGlobs globs) base path && keep path))
    (dir : RepoPath)
    (stack : List (RepoPath × Text))
    (name : FileName)
    (node : ScanNode) :
    selects host (scanner.withGlobs globs') base dir stack name node =
      (selects host (scanner.withGlobs globs) base dir stack name node &&
        keep (dir ++ [name])) := by
  have hne : dir ++ [name] ≠ [] := by simp
  have hname : lastName (dir ++ [name]) = name.text := by simp [lastName]
  have hpath := hkeep (dir ++ [name])
  rw [included, included, nameBelow, relativeBelow, if_neg hne, if_neg hne, hname] at hpath
  simp only [selects, hpath, Bool.and_assoc]
  rfl

/-- A directory yields the files that are kept. -/
theorem yields_withGlobs
    (hkeep : ∀ path, included host (scanner.withGlobs globs') base path =
      (included host (scanner.withGlobs globs) base path && keep path))
    (dir : RepoPath)
    (stack : List (RepoPath × Text))
    (entries : ScanEntries) :
    yields host (scanner.withGlobs globs') base dir stack entries =
      (yields host (scanner.withGlobs globs) base dir stack entries).filter keep := by
  rw [yields, yields, List.filter_map, List.filter_filter]
  refine congrArg _ (List.filter_congr fun entry _ => ?_)
  rw [selects_withGlobs hkeep, Bool.and_comm]
  rfl

/-- A pass over the directories yields the files that are kept and is the same otherwise. -/
theorem run_withGlobs
    (hkeep : ∀ path, included host (scanner.withGlobs globs') base path =
      (included host (scanner.withGlobs globs) base path && keep path))
    (as : List Arrival)
    (state : WalkState) :
    run host (scanner.withGlobs globs') base as (state.keepOnly keep) =
      (run host (scanner.withGlobs globs) base as state).keepOnly keep := by
  induction as generalizing state with
  | nil => rfl
  | cons a as ih =>
      have hvisit : visit host (scanner.withGlobs globs') base a (state.keepOnly keep) =
          (visit host (scanner.withGlobs globs) base a state).keepOnly keep := by
        rw [visit, visit, yields_withGlobs hkeep, WalkState.keepOnly, ← List.filter_append]
        simp only [apply_ite (Progress.keepOnly keep)]
        rfl
      rw [run, run, hvisit]
      cases visit host (scanner.withGlobs globs) base a state with
      | going state' => exact ih state'
      | stopped state' => rfl
      | raised => rfl

/-- A walk yields the files that are kept and is the same otherwise. -/
theorem walk_keepOnly
    (hkeep : ∀ path, included host (scanner.withGlobs globs') base path =
      (included host (scanner.withGlobs globs) base path && keep path))
    (root : ScanRoot)
    (signals : Signals) :
    walk host (scanner.withGlobs globs') base root signals =
      (walk host (scanner.withGlobs globs) base root signals).map fun result =>
        (result.1.filter keep, result.2) := by
  cases root with
  | missing => rfl
  | file =>
      have hbase := hkeep []
      simp only [included, nameBelow, relativeBelow, if_true, BasePath.join,
        List.isEmpty_nil] at hbase
      rw [walk, walk, hbase]
      cases shouldIncludeFile host (scanner.withGlobs globs).config base.name base.text
        base.name <;> cases hkept : keep [] <;> simp [hkept]
  | directory listable entries =>
      have hrun := run_withGlobs hkeep (arrivals host scanner base [] [] (.dir listable entries))
        ⟨signals.noteOverlong (overlong scanner entries), 0, []⟩
      rw [walk_directory, walk_directory, arrivals_withGlobs, arrivals_withGlobs]
      have hstart : WalkState.keepOnly keep
          ⟨signals.noteOverlong (overlong scanner entries), 0, []⟩ =
            ⟨signals.noteOverlong (overlong scanner entries), 0, []⟩ := rfl
      rw [hstart] at hrun
      change (if refuses scanner entries then none else _) =
        Option.map _ (if refuses scanner entries then none else _)
      cases refuses scanner entries with
      | true => rfl
      | false =>
          rw [if_neg Bool.false_ne_true, if_neg Bool.false_ne_true]
          change Option.map _ (Progress.final? (run host (scanner.withGlobs globs') base _
            ⟨signals.noteOverlong (overlong scanner entries), 0, []⟩)) = _
          rw [hrun, Progress.final?_keepOnly, Option.map_map, Option.map_map]
          rfl

end Walks

/-! ## An exclusion only excludes -/

section Exclusions

variable (host : Host) (scanner : Scanner) (base : BasePath) (root : ScanRoot) (signals : Signals)

/-- The walk with some globs yields a path. -/
def Yields
    (globs : List Text)
    (path : RepoPath) : Prop :=
  ∃ found signals',
    walk host (scanner.withGlobs globs) base root signals = some (found, signals') ∧ path ∈ found

/-- The files that are within the depth and the entry budget, visible, no links, not ignored and
of the types, if every `.gitignore` on the way can be opened. -/
def candidateFiles : List RepoPath :=
  match root with
  | .missing => []
  | .file => if typesInclude scanner base [] then [[]] else []
  | .directory listable entries =>
      let places := reached scanner 0 (arrivals host scanner base [] [] (.dir listable entries))
      if refuses scanner entries || places.any (Arrival.raises scanner) then []
      else places.flatMap (Arrival.files host (scanner.withGlobs []) base)

/-- A walk with an exclusion behind some globs yields what it yields with the globs, except for
what the exclusion matches, and the order of the globs does not matter. -/
structure ExclusionOnlyExcludes
    (globs : List Text)
    (pattern : Text) : Prop where
  excludes : ∀ path, Yields host scanner base root signals (globs ++ ['!' :: pattern]) path ↔
    Yields host scanner base root signals globs path ∧
      globMatches host scanner base pattern path = false
  unordered : ∀ globs', globs.Perm globs' → ∀ path,
    Yields host scanner base root signals globs' path ↔
      Yields host scanner base root signals globs path

variable {host scanner base root signals} {globs globs' : List Text}

/-- What is yielded with other globs, if they let through less. -/
theorem yields_iff_of_keep
    (keep : RepoPath → Bool)
    (hkeep : ∀ path, included host (scanner.withGlobs globs') base path =
      (included host (scanner.withGlobs globs) base path && keep path))
    (path : RepoPath) :
    Yields host scanner base root signals globs' path ↔
      Yields host scanner base root signals globs path ∧ keep path = true := by
  rw [Yields, Yields, walk_keepOnly hkeep]
  rcases walk host (scanner.withGlobs globs) base root signals with - | ⟨found, signals'⟩
  · simp
  · constructor
    · rintro ⟨_, _, heq, hmem⟩
      obtain ⟨rfl, rfl⟩ := Prod.mk.inj (Option.some.inj heq)
      obtain ⟨hfound, hkept⟩ := List.mem_filter.mp hmem
      exact ⟨⟨found, _, rfl, hfound⟩, hkept⟩
    · rintro ⟨⟨_, _, heq, hfound⟩, hkept⟩
      obtain ⟨rfl, rfl⟩ := Prod.mk.inj (Option.some.inj heq)
      exact ⟨_, _, rfl, List.mem_filter.mpr ⟨hfound, hkept⟩⟩

/-- Without globs the candidates are yielded. -/
theorem yields_nil_iff (path : RepoPath) :
    Yields host scanner base root signals [] path ↔
      path ∈ candidateFiles host scanner base root := by
  cases root with
  | missing => simp [Yields, walk, candidateFiles]
  | file =>
      have hbase : shouldIncludeFile host (scanner.withGlobs []).config base.name base.text
          base.name = typesInclude scanner base [] := included_withGlobs [] []
      rw [candidateFiles, Yields, walk, hbase]
      simp
  | directory listable entries =>
      have hplaces := reached_withGlobs scanner []
      have hraises : Arrival.raises (scanner.withGlobs []) = Arrival.raises scanner := rfl
      have hrefuses : refuses (scanner.withGlobs []) = refuses scanner := rfl
      rw [candidateFiles, Yields, walk_directory, hrefuses]
      cases refuses scanner entries with
      | true => simp
      | false =>
          rw [if_neg Bool.false_ne_true, Bool.false_or, arrivals_withGlobs]
          generalize hstate : (⟨signals.noteOverlong (overlong (scanner.withGlobs []) entries), 0,
            []⟩ : WalkState) = state
          have hzero : state.entriesVisited = 0 := by rw [← hstate]
          have hstart : state.yielded = [] := by rw [← hstate]
          generalize arrivals host scanner base [] [] (.dir listable entries) = as
          have hraise := @run_raises_iff host (scanner.withGlobs []) base as state
          rw [hplaces, hraises, hzero, ← List.any_eq_true] at hraise
          cases hfinal : (run host (scanner.withGlobs []) base as state).final? with
          | none =>
              rw [if_pos (hraise.mp hfinal)]
              simp
          | some final =>
              have hnot : ¬ (reached scanner 0 as).any (Arrival.raises scanner) = true := by
                rw [← hraise, hfinal]
                exact Option.some_ne_none final
              rw [if_neg hnot, Option.map_some]
              have hyielded := run_yielded_reached hfinal
              rw [hplaces, hzero, hstart, List.nil_append] at hyielded
              simp [hyielded]

/-- An exclusion only excludes exactly if there are other globs or it matches all candidates. -/
theorem exclusion_only_excludes_iff
    (globs : List Text)
    (pattern : Text) :
    ExclusionOnlyExcludes host scanner base root signals globs pattern ↔
      globs ≠ [] ∨ ∀ path ∈ candidateFiles host scanner base root,
        globMatches host scanner base pattern path = true := by
  have hunordered : ∀ globs', globs.Perm globs' → ∀ path,
      Yields host scanner base root signals globs' path ↔
        Yields host scanner base root signals globs path := by
    intro globs' hperm path
    refine (yields_iff_of_keep (fun _ => true) (fun q => ?_) path).trans
      (and_iff_left rfl)
    rw [Bool.and_true]
    exact (included_perm hperm q).symm
  by_cases hglobs : globs = []
  · subst hglobs
    have hnothing : ∀ path,
        ¬ Yields host scanner base root signals ([] ++ ['!' :: pattern]) path := by
      intro path hpath
      have hkeep : ∀ q, included host (scanner.withGlobs ['!' :: pattern]) base q =
          (included host (scanner.withGlobs []) base q && false) := fun q => by
        rw [Bool.and_false]
        exact included_exclusion pattern q
      exact Bool.false_ne_true ((yields_iff_of_keep (fun _ => false) hkeep path).mp hpath).2
    constructor
    · intro h
      refine .inr fun path hpath => ?_
      by_contra hmatch
      exact hnothing path ((h.excludes path).mpr
        ⟨(yields_nil_iff path).mpr hpath, Bool.eq_false_iff.mpr hmatch⟩)
    · rintro (hne | hall)
      · exact absurd rfl hne
      · refine ⟨fun path => iff_of_false (hnothing path) ?_, hunordered⟩
        rintro ⟨hpath, hmatch⟩
        rw [hall path ((yields_nil_iff path).mp hpath)] at hmatch
        exact Bool.noConfusion hmatch
  · refine iff_of_true ⟨fun path => ?_, hunordered⟩ (.inl hglobs)
    rw [yields_iff_of_keep _ (included_concat_exclusion hglobs pattern) path, Bool.not_eq_true']

theorem fileA_ne_nil :
    (['a'] : Text) ≠ [] :=
  List.cons_ne_nil _ _

theorem fileA_noSlash :
    '/' ∉ (['a'] : Text) := by
  decide

/-- The name of a file. -/
def fileA : FileName :=
  ⟨['a'], fileA_ne_nil, fileA_noSlash⟩

/-- A directory with one file. -/
def oneFileRoot : ScanRoot :=
  .directory true [(fileA, .file (some []))]

/-- In a directory with the file `a`, an exclusion of `b` alone hides the file. -/
theorem lone_exclusion_hides_file :
    ¬ ExclusionOnlyExcludes ⟨id, fun _ _ => none⟩ defaultScanner ⟨['.'], []⟩ oneFileRoot
      freshSignals [] ['b'] := by
  intro h
  obtain ⟨found, signals', hwalked, hfound⟩ := (h.excludes [fileA]).mpr
    ⟨⟨[[fileA]], freshSignals, rfl, List.mem_singleton_self _⟩, by decide⟩
  cases hwalked
  exact absurd hfound List.not_mem_nil

end Exclusions

end DirectoryScanner
end TensorGrep
