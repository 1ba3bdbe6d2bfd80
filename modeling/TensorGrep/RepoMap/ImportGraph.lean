import TensorGrep.Kernel.LayeredSearch
import TensorGrep.RepoMap.Walk

/-!
# The import graph

A file is imported under its aliases, which are made of its path.  Each file one of whose
aliases an import string contains may be meant by it; the table of `_reverse_importers`
compares whole parts of the string instead.

`_reverse_import_distances` searches the files that import a seed, three layers deep.
Each layer is a pass over all files, and each file costs a look at the clock.
`reverseImportDistances_exact` says that the distances are those of shortest chains, and
that a search that is cut off has found a beginning of them.
-/

namespace TensorGrep
namespace RepoMap

open Kernel

/-! ## Aliases -/

/-- `Path(path).parts`: the root, if there is one, and the names. -/
def pathParts (path : Text) : List Text :=
  (if "//".toList <+: path ∧ ¬ "///".toList <+: path then ["//".toList]
    else if "/".toList <+: path then ["/".toList]
    else []) ++
    (path.splitOn '/').filter fun name => name ≠ [] ∧ name ≠ ['.']

/-- `Path(path).name`. -/
def pathName (path : Text) : Text :=
  ((path.splitOn '/').filter fun name => name ≠ [] ∧ name ≠ ['.']).getLast?.getD []

/-- The path of a file: it has a name. -/
def SourcePath : Type :=
  { path : Text // pathName path ≠ [] }

instance : LinearOrder SourcePath :=
  inferInstanceAs (LinearOrder { path : Text // pathName path ≠ [] })

/-- `Path.stem`. -/
def pathStem (name : Text) : Text :=
  name.take (name.length - (pathSuffix name).length)

/-- `_module_aliases_for_path`. -/
def moduleAliasesForPath
    (lower : Text → Text)
    (path : SourcePath) : List Text :=
  let parts := ((pathParts path.val).dropLast ++ [pathStem (pathName path.val)]).map lower
  ([lower (pathStem (pathName path.val)), ['.'].intercalate parts] ++
    (if 1 < parts.length then [['.'].intercalate (parts.drop (parts.length - 2))] else [])).filter
      fun name => name ≠ []

/-- `_DIRECTORY_INDEX_STEMS`. -/
def directoryIndexStems : List Text :=
  ["index".toList, "__init__".toList]

/-- `_reverse_importer_extra_aliases`. -/
def reverseImporterExtraAliases
    (lower : Text → Text)
    (path : SourcePath) : List Text :=
  if directoryIndexStems.all fun stem => stem ≠ lower (pathStem (pathName path.val)) then []
  else
    let parts := ((pathParts path.val).dropLast ++ [pathStem (pathName path.val)]).map lower
    if parts.length < 2 then []
    else parts[parts.length - 2]?.toList.filter fun parent => parent ≠ []

/-- A character of `[a-z0-9_]`. -/
def isAliasChar (c : Char) : Bool :=
  ('a' ≤ c && c ≤ 'z') || ('0' ≤ c && c ≤ '9') || c = '_'

/-- `_import_alias_candidates`. -/
def importAliasCandidates
    (lower : Text → Text)
    (importName : Text) : List Text :=
  let lowered := ((lower importName).dropWhile isSpaceChar).rdropWhile isSpaceChar
  let parts := (lowered.splitOnP fun c => !isAliasChar c).filter fun part => part ≠ []
  if lowered = [] then []
  else
    ([lowered, ['.'].intercalate parts] ++ parts ++
      (List.range parts.length).flatMap fun start =>
        (List.range' (start + 2) (parts.length - (start + 1))).map fun last =>
          ['.'].intercalate ((parts.take last).drop start)).filter fun candidate => candidate ≠ []

/-! ## The files that import a seed -/

section Distances

variable (lower : Text → Text) (imports : SourcePath → List Text)

/-- `_import_graph_bonus`. -/
def importGraphBonus
    (path : SourcePath)
    (dependencyAliases : List (List Text)) : ℕ :=
  ((imports path).map fun importName =>
    if dependencyAliases.any fun aliases => aliases.any fun name =>
        name ≠ [] ∧ name <:+: lower importName then 4
    else 0).sum

/-- What a search has found, the files that it has seen, and how often it has looked at the
clock. -/
structure DistanceSearch where
  distances : List (SourcePath × ℕ)
  seen : Finset SourcePath
  checks : ℕ
  deadlineHit : Bool

/-- One pass over files at a depth: the search after it and the next frontier.  `expired` is what
the clock says each time. -/
def scanFiles
    (expired : ℕ → Bool)
    (frontier : List SourcePath)
    (depth : ℕ)
    (s : DistanceSearch) : List SourcePath → DistanceSearch × List SourcePath
  | [] => (s, [])
  | current :: rest =>
      if expired s.checks then ({ s with deadlineHit := true }, [])
      else if current ∈ s.seen ∨ importGraphBonus lower imports current
          (frontier.map (moduleAliasesForPath lower)) ≤ 0 then
        scanFiles expired frontier depth { s with checks := s.checks + 1 } rest
      else
        let scanned := scanFiles expired frontier depth
          { s with
            distances := s.distances ++ [(current, depth)]
            seen := insert current s.seen
            checks := s.checks + 1 } rest
        (scanned.1, current :: scanned.2)

/-- The passes at some depths. -/
def scanDepths
    (expired : ℕ → Bool)
    (allFiles : List SourcePath) : List ℕ → List SourcePath → DistanceSearch → DistanceSearch
  | [], _, s => s
  | depth :: depths, frontier, s =>
      let scanned := scanFiles lower imports expired frontier depth s allFiles
      if scanned.1.deadlineHit ∨ scanned.2 = [] then scanned.1
      else scanDepths expired allFiles depths scanned.2 scanned.1

/-- `_reverse_import_distances`. -/
def reverseImportDistances
    (expired : ℕ → Bool)
    (seedFiles allFiles : List SourcePath) : DistanceSearch :=
  scanDepths lower imports expired allFiles [1, 2, 3] seedFiles ⟨[], seedFiles.toFinset, 0, false⟩

/-! ## One pass -/

/-- Some import string of a file contains an alias of another. -/
def ImportsAlias
    (path dependency : SourcePath) : Prop :=
  ∃ importName ∈ imports path, ∃ name ∈ moduleAliasesForPath lower dependency,
    name ≠ [] ∧ name <:+: lower importName

variable {lower imports}

/-- A bonus is positive if the file imports one of the dependencies. -/
theorem importGraphBonus_pos_iff
    {path : SourcePath}
    {frontier : List SourcePath} :
    0 < importGraphBonus lower imports path (frontier.map (moduleAliasesForPath lower)) ↔
      ∃ dependency ∈ frontier, ImportsAlias lower imports path dependency := by
  have hany : ∀ importName, ((frontier.map (moduleAliasesForPath lower)).any fun aliases =>
      aliases.any fun name => name ≠ [] ∧ name <:+: lower importName) = true ↔
        ∃ dependency ∈ frontier, ∃ name ∈ moduleAliasesForPath lower dependency,
          name ≠ [] ∧ name <:+: lower importName := by
    intro importName
    simp only [List.any_eq_true, List.mem_map, decide_eq_true_eq, exists_exists_and_eq_and]
  rw [importGraphBonus, List.sum_pos_iff_exists_pos_nat]
  simp only [List.mem_map, hany, exists_exists_and_eq_and, ImportsAlias]
  constructor
  · rintro ⟨importName, himport, hpos⟩
    split at hpos
    · next hsome =>
        obtain ⟨dependency, hdependency, name, hname⟩ := hsome
        exact ⟨dependency, hdependency, importName, himport, name, hname⟩
    · exact absurd hpos (lt_irrefl 0)
  · rintro ⟨dependency, hdependency, importName, himport, name, hname⟩
    refine ⟨importName, himport, ?_⟩
    rw [if_pos ⟨dependency, hdependency, name, hname⟩]
    exact Nat.succ_pos 3

/-- What a pass finds: the files that have not been seen and import a file of the frontier. -/
def newImporters
    (lower : Text → Text)
    (imports : SourcePath → List Text)
    (frontier : List SourcePath)
    (seen : Finset SourcePath)
    (files : List SourcePath) : List SourcePath :=
  files.filter fun current => current ∉ seen ∧
    0 < importGraphBonus lower imports current (frontier.map (moduleAliasesForPath lower))

/-- A search after a pass over so many files has found some at a depth. -/
def DistanceSearch.withFound
    (s : DistanceSearch)
    (found : List SourcePath)
    (depth passed : ℕ) : DistanceSearch where
  distances := s.distances ++ found.map fun f => (f, depth)
  seen := s.seen ∪ found.toFinset
  checks := s.checks + passed
  deadlineHit := s.deadlineHit

/-- A pass that the clock does not end. -/
theorem scanFiles_never
    {frontier : List SourcePath}
    {depth : ℕ}
    {files : List SourcePath}
    (hfiles : files.Nodup)
    (s : DistanceSearch) :
    scanFiles lower imports (fun _ => false) frontier depth s files =
      (s.withFound (newImporters lower imports frontier s.seen files) depth files.length,
        newImporters lower imports frontier s.seen files) := by
  induction files generalizing s with
  | nil => simp [scanFiles, newImporters, DistanceSearch.withFound]
  | cons current rest ih =>
      rw [List.nodup_cons] at hfiles
      rw [scanFiles, if_neg Bool.false_ne_true]
      have hchecks : s.checks + 1 + rest.length = s.checks + (rest.length + 1) := by omega
      by_cases hskip : current ∈ s.seen ∨
          importGraphBonus lower imports current (frontier.map (moduleAliasesForPath lower)) ≤ 0
      · have hdropped : newImporters lower imports frontier s.seen (current :: rest) =
            newImporters lower imports frontier s.seen rest := by
          refine List.filter_cons_of_neg ?_
          simp only [decide_eq_true_eq, not_and, not_lt]
          exact fun hunseen => hskip.resolve_left hunseen
        rw [if_pos hskip, ih hfiles.2, hdropped, DistanceSearch.withFound, List.length_cons,
          DistanceSearch.withFound, hchecks]
      · rw [not_or, not_le] at hskip
        have hkept : newImporters lower imports frontier s.seen (current :: rest) =
            current :: newImporters lower imports frontier s.seen rest :=
          List.filter_cons_of_pos (decide_eq_true hskip)
        -- the file that was just found does not come again
        have hsame : newImporters lower imports frontier (insert current s.seen) rest =
            newImporters lower imports frontier s.seen rest := by
          refine List.filter_congr fun f hf => ?_
          have hne : f ≠ current := by
            rintro rfl
            exact hfiles.1 hf
          simp [Finset.mem_insert, hne]
        rw [if_neg (not_or.mpr ⟨hskip.1, not_le.mpr hskip.2⟩), ih hfiles.2]
        dsimp only
        rw [hsame, hkept, DistanceSearch.withFound, DistanceSearch.withFound, hchecks,
          List.length_cons, List.map_cons, List.toFinset_cons]
        simp only [List.append_assoc, List.singleton_append, Finset.insert_union,
          Finset.union_insert]

/-- A pass in which the deadline does not strike. -/
theorem scanFiles_of_not_expired
    {expired : ℕ → Bool}
    {frontier : List SourcePath}
    {depth : ℕ}
    {files : List SourcePath}
    {s : DistanceSearch}
    (h : ∀ i, s.checks ≤ i → i < s.checks + files.length → expired i = false) :
    scanFiles lower imports expired frontier depth s files =
      scanFiles lower imports (fun _ => false) frontier depth s files := by
  induction files generalizing s with
  | nil => rfl
  | cons current rest ih =>
      rw [List.length_cons] at h
      have hnow := h s.checks (le_refl _) (by omega)
      have hlater : ∀ s' : DistanceSearch, s'.checks = s.checks + 1 →
          ∀ i, s'.checks ≤ i → i < s'.checks + rest.length → expired i = false := by
        intro s' hs' i hle hlt
        exact h i (by omega) (by omega)
      rw [scanFiles, scanFiles, if_neg Bool.false_ne_true, hnow, if_neg Bool.false_ne_true]
      split
      · exact ih (hlater _ rfl)
      · rw [ih (hlater _ rfl)]

/-- A pass in which the deadline strikes ends with a beginning of what it would have found. -/
theorem scanFiles_of_expired
    {expired : ℕ → Bool}
    {frontier : List SourcePath}
    {depth : ℕ}
    {files : List SourcePath}
    (hfiles : files.Nodup)
    {s : DistanceSearch}
    {i : ℕ}
    (hle : s.checks ≤ i)
    (hlt : i < s.checks + files.length)
    (hexpired : expired i = true) :
    (scanFiles lower imports expired frontier depth s files).1.deadlineHit = true ∧
      (scanFiles lower imports expired frontier depth s files).1.distances <+:
        (scanFiles lower imports (fun _ => false) frontier depth s files).1.distances := by
  induction files generalizing s with
  | nil =>
      rw [List.length_nil] at hlt
      omega
  | cons current rest ih =>
      by_cases hnow : expired s.checks = true
      · rw [scanFiles_never hfiles, scanFiles, if_pos hnow]
        exact ⟨rfl, List.prefix_append _ _⟩
      · rw [List.length_cons] at hlt
        have hne : s.checks ≠ i := by
          rintro rfl
          exact hnow hexpired
        rw [List.nodup_cons] at hfiles
        have hlater : ∀ s' : DistanceSearch, s'.checks = s.checks + 1 →
            (scanFiles lower imports expired frontier depth s' rest).1.deadlineHit = true ∧
              (scanFiles lower imports expired frontier depth s' rest).1.distances <+:
                (scanFiles lower imports (fun _ => false) frontier depth s' rest).1.distances := by
          intro s' hs'
          exact ih hfiles.2 (by omega) (by omega)
        rw [scanFiles, scanFiles, if_neg Bool.false_ne_true, if_neg hnow]
        split
        · exact hlater _ rfl
        · exact hlater _ rfl

/-! ## The whole search -/

section Depths

variable (lower imports) {allFiles : List SourcePath}

/-- One pass of a search, if the deadline does not strike in it. -/
theorem scanDepths_cons
    (hfiles : allFiles.Nodup)
    {expired : ℕ → Bool}
    (depth : ℕ)
    (depths : List ℕ)
    (frontier : List SourcePath)
    {s : DistanceSearch}
    (hhit : s.deadlineHit = false)
    (hpass : ∀ i, s.checks ≤ i → i < s.checks + allFiles.length → expired i = false) :
    scanDepths lower imports expired allFiles (depth :: depths) frontier s =
      if newImporters lower imports frontier s.seen allFiles = [] then
        s.withFound [] depth allFiles.length
      else
        scanDepths lower imports expired allFiles depths
          (newImporters lower imports frontier s.seen allFiles)
          (s.withFound (newImporters lower imports frontier s.seen allFiles) depth
            allFiles.length) := by
  rw [scanDepths, scanFiles_of_not_expired hpass, scanFiles_never hfiles]
  dsimp only
  have hsame : ∀ found,
      ¬ (s.withFound found depth allFiles.length).deadlineHit = true := by
    intro found
    rw [DistanceSearch.withFound, hhit]
    exact Bool.false_ne_true
  by_cases hnone : newImporters lower imports frontier s.seen allFiles = []
  · rw [if_pos (Or.inr hnone), if_pos hnone, hnone]
  · rw [if_neg (not_or.mpr ⟨hsame _, hnone⟩), if_neg hnone]

/-- A search that the clock does not end keeps what has been found, and it makes a whole pass at
least. -/
theorem scanDepths_extends
    (hfiles : allFiles.Nodup)
    (depths : List ℕ)
    (frontier : List SourcePath)
    {s : DistanceSearch}
    (hhit : s.deadlineHit = false) :
    s.distances <+:
        (scanDepths lower imports (fun _ => false) allFiles depths frontier s).distances ∧
      s.checks ≤ (scanDepths lower imports (fun _ => false) allFiles depths frontier s).checks := by
  induction depths generalizing frontier s with
  | nil => exact ⟨List.prefix_refl _, le_refl _⟩
  | cons depth depths ih =>
      rw [scanDepths_cons lower imports hfiles depth depths frontier hhit fun _ _ _ => rfl]
      split
      · exact ⟨List.prefix_append _ _, Nat.le_add_right _ _⟩
      · have hmore := ih (newImporters lower imports frontier s.seen allFiles)
          (s := s.withFound (newImporters lower imports frontier s.seen allFiles) depth
            allFiles.length) hhit
        exact ⟨(List.prefix_append _ _).trans hmore.1, (Nat.le_add_right _ _).trans hmore.2⟩

/-- After the first pass a search has found what the pass found. -/
theorem scanDepths_cons_extends
    (hfiles : allFiles.Nodup)
    (depth : ℕ)
    (depths : List ℕ)
    (frontier : List SourcePath)
    {s : DistanceSearch}
    (hhit : s.deadlineHit = false) :
    (s.withFound (newImporters lower imports frontier s.seen allFiles) depth
        allFiles.length).distances <+:
        (scanDepths lower imports (fun _ => false) allFiles (depth :: depths) frontier
          s).distances ∧
      s.checks + allFiles.length ≤
        (scanDepths lower imports (fun _ => false) allFiles (depth :: depths) frontier
          s).checks := by
  rw [scanDepths_cons lower imports hfiles depth depths frontier hhit fun _ _ _ => rfl]
  split
  · next hnone =>
      rw [hnone]
      exact ⟨List.prefix_refl _, le_refl _⟩
  · exact scanDepths_extends lower imports hfiles depths _ hhit

/-- A search in which the deadline does not strike. -/
theorem scanDepths_of_not_expired
    (hfiles : allFiles.Nodup)
    {expired : ℕ → Bool}
    (depths : List ℕ)
    (frontier : List SourcePath)
    {s : DistanceSearch}
    (hhit : s.deadlineHit = false)
    (h : ∀ i, s.checks ≤ i →
      i < (scanDepths lower imports (fun _ => false) allFiles depths frontier s).checks →
        expired i = false) :
    scanDepths lower imports expired allFiles depths frontier s =
      scanDepths lower imports (fun _ => false) allFiles depths frontier s := by
  induction depths generalizing frontier s with
  | nil => rfl
  | cons depth depths ih =>
      have hmore := (scanDepths_cons_extends lower imports hfiles depth depths frontier hhit).2
      rw [scanDepths_cons lower imports hfiles depth depths frontier hhit fun i hle hlt =>
        h i hle (by omega)]
      rw [scanDepths_cons lower imports hfiles depth depths frontier hhit fun _ _ _ => rfl] at h ⊢
      split
      · rfl
      · next hsome =>
          rw [if_neg hsome] at h
          refine ih _ hhit fun i hle hlt => h i ?_ hlt
          exact (Nat.le_add_right _ _).trans hle

/-- A search in which the deadline strikes has found a beginning of what it would have found. -/
theorem scanDepths_of_expired
    (hfiles : allFiles.Nodup)
    {expired : ℕ → Bool}
    (depths : List ℕ)
    (frontier : List SourcePath)
    {s : DistanceSearch}
    (hhit : s.deadlineHit = false)
    {i : ℕ}
    (hle : s.checks ≤ i)
    (hlt : i < (scanDepths lower imports (fun _ => false) allFiles depths frontier s).checks)
    (hexpired : expired i = true) :
    (scanDepths lower imports expired allFiles depths frontier s).deadlineHit = true ∧
      (scanDepths lower imports expired allFiles depths frontier s).distances <+:
        (scanDepths lower imports (fun _ => false) allFiles depths frontier s).distances := by
  induction depths generalizing frontier s with
  | nil => exact absurd hlt (not_lt.mpr hle)
  | cons depth depths ih =>
      by_cases hpass : ∃ j, s.checks ≤ j ∧ j < s.checks + allFiles.length ∧ expired j = true
      · -- the deadline strikes in this pass
        obtain ⟨j, hj, hjlt, hjexpired⟩ := hpass
        obtain ⟨hstruck, hbegins⟩ := @scanFiles_of_expired lower imports expired frontier depth
          allFiles hfiles s j hj hjlt hjexpired
        rw [scanFiles_never hfiles] at hbegins
        have hmore := (scanDepths_cons_extends lower imports hfiles depth depths frontier hhit).1
        rw [scanDepths, if_pos (Or.inl hstruck)]
        exact ⟨hstruck, hbegins.trans hmore⟩
      · have hquiet : ∀ j, s.checks ≤ j → j < s.checks + allFiles.length →
            expired j = false := by
          intro j hj hjlt
          exact Bool.eq_false_iff.mpr fun hj' => hpass ⟨j, hj, hjlt, hj'⟩
        have hbehind : s.checks + allFiles.length ≤ i := by
          by_contra hnot
          exact hpass ⟨i, hle, by omega, hexpired⟩
        rw [scanDepths_cons lower imports hfiles depth depths frontier hhit hquiet]
        rw [scanDepths_cons lower imports hfiles depth depths frontier hhit
          fun _ _ _ => rfl] at hlt ⊢
        split
        · next hnone =>
            rw [if_pos hnone] at hlt
            exact absurd hlt (not_lt.mpr hbehind)
        · next hsome =>
            rw [if_neg hsome] at hlt
            exact ih _ hhit hbehind hlt

end Depths

/-! ## Distances -/

/-- A file of the list imports another file. -/
def FileImports
    (lower : Text → Text)
    (imports : SourcePath → List Text)
    (allFiles : List SourcePath)
    (path dependency : SourcePath) : Prop :=
  path ∈ allFiles ∧ ImportsAlias lower imports path dependency

/-- The files of a list that are this far from the seeds. -/
def AtDistance
    (lower : Text → Text)
    (imports : SourcePath → List Text)
    (seedFiles allFiles : List SourcePath)
    (d : ℕ)
    (path : SourcePath) : Prop :=
  IsDistance (FileImports lower imports allFiles) (fun seed => seed ∈ seedFiles) d path

/-- What a search knows after the passes at the depths up to one. -/
structure Layered
    (lower : Text → Text)
    (imports : SourcePath → List Text)
    (seedFiles allFiles : List SourcePath)
    (depth : ℕ)
    (frontier : List SourcePath)
    (s : DistanceSearch) : Prop where
  seen : ∀ f, f ∈ s.seen ↔ ∃ d ≤ depth, AtDistance lower imports seedFiles allFiles d f
  frontier : ∀ f, f ∈ frontier ↔ AtDistance lower imports seedFiles allFiles depth f
  distances : ∀ f d, (f, d) ∈ s.distances ↔
    0 < d ∧ d ≤ depth ∧ AtDistance lower imports seedFiles allFiles d f
  keys : (s.distances.map Prod.fst).Nodup
  going : s.deadlineHit = false

section Layers

variable {seedFiles allFiles frontier : List SourcePath} {depth : ℕ} {s : DistanceSearch}

/-- A search starts at the seeds. -/
theorem layered_start :
    Layered lower imports seedFiles allFiles 0 seedFiles ⟨[], seedFiles.toFinset, 0, false⟩ where
  seen f := by simp [AtDistance]
  frontier f := by simp [AtDistance]
  distances f d := by
    simp only [List.not_mem_nil, false_iff, not_and]
    omega
  keys := List.nodup_nil
  going := rfl

/-- A pass finds the next layer. -/
theorem Layered.mem_newImporters_iff
    (h : Layered lower imports seedFiles allFiles depth frontier s)
    {f : SourcePath} :
    f ∈ newImporters lower imports frontier s.seen allFiles ↔
      AtDistance lower imports seedFiles allFiles (depth + 1) f := by
  rw [AtDistance, isDistance_succ_iff, newImporters, List.mem_filter]
  simp only [decide_eq_true_eq, h.seen, importGraphBonus_pos_iff, h.frontier, not_exists,
    FileImports]
  constructor
  · rintro ⟨hfile, hnew, dependency, hlayer, himports⟩
    exact ⟨fun k hk hd => hnew k ⟨hk, hd⟩, dependency, ⟨hfile, himports⟩, hlayer⟩
  · rintro ⟨hnew, dependency, ⟨hfile, himports⟩, hlayer⟩
    exact ⟨hfile, fun k hk => hnew k hk.1 hk.2, dependency, hlayer, himports⟩

/-- A whole pass leads to the next depth. -/
theorem Layered.withFound
    (h : Layered lower imports seedFiles allFiles depth frontier s)
    (hfiles : allFiles.Nodup)
    (passed : ℕ) :
    Layered lower imports seedFiles allFiles (depth + 1)
      (newImporters lower imports frontier s.seen allFiles)
      (s.withFound (newImporters lower imports frontier s.seen allFiles) (depth + 1) passed) where
  seen f := by
    simp only [DistanceSearch.withFound, Finset.mem_union, h.seen, List.mem_toFinset,
      h.mem_newImporters_iff]
    constructor
    · rintro (⟨d, hd, hlayer⟩ | hlayer)
      · exact ⟨d, by omega, hlayer⟩
      · exact ⟨depth + 1, le_refl _, hlayer⟩
    · rintro ⟨d, hd, hlayer⟩
      rcases Nat.lt_or_eq_of_le hd with hlt | rfl
      · exact Or.inl ⟨d, by omega, hlayer⟩
      · exact Or.inr hlayer
  frontier f := h.mem_newImporters_iff
  distances f d := by
    simp only [DistanceSearch.withFound, List.mem_append, h.distances, List.mem_map,
      Prod.mk.injEq, h.mem_newImporters_iff]
    constructor
    · rintro (⟨hpos, hd, hlayer⟩ | ⟨f', hlayer, rfl, rfl⟩)
      · exact ⟨hpos, by omega, hlayer⟩
      · exact ⟨Nat.succ_pos _, le_refl _, hlayer⟩
    · rintro ⟨hpos, hd, hlayer⟩
      rcases Nat.lt_or_eq_of_le hd with hlt | rfl
      · exact Or.inl ⟨hpos, by omega, hlayer⟩
      · exact Or.inr ⟨f, hlayer, rfl, rfl⟩
  keys := by
    rw [DistanceSearch.withFound, List.map_append, List.map_map]
    refine List.nodup_append.mpr ⟨h.keys, ?_, ?_⟩
    · rw [show Prod.fst ∘ (fun f : SourcePath => (f, depth + 1)) = id from rfl, List.map_id]
      exact hfiles.filter _
    · -- a file that is found now has not been found before
      rintro f hold f' hnew rfl
      obtain ⟨⟨f₁, d⟩, hentry, rfl⟩ := List.mem_map.mp hold
      obtain ⟨f₂, hfound, hsame⟩ := List.mem_map.mp hnew
      obtain rfl : f₂ = f₁ := hsame
      obtain ⟨-, hd, hlayer⟩ := (h.distances f₂ d).mp hentry
      have hnext := h.mem_newImporters_iff.mp hfound
      have hdepth := hlayer.unique hnext
      omega
  going := h.going

/-- The passes at some depths find the layers at these depths. -/
theorem Layered.scanDepths
    (h : Layered lower imports seedFiles allFiles depth frontier s)
    (hfiles : allFiles.Nodup)
    (count : ℕ) :
    ∃ last, Layered lower imports seedFiles allFiles (depth + count) last
      (RepoMap.scanDepths lower imports (fun _ => false) allFiles
        (List.range' (depth + 1) count) frontier s) := by
  induction count generalizing depth frontier s with
  | zero => exact ⟨frontier, h⟩
  | succ count ih =>
      rw [List.range'_succ, scanDepths_cons lower imports hfiles _ _ frontier h.going
        fun _ _ _ => rfl]
      have hnext := h.withFound hfiles allFiles.length
      split
      · next hnone =>
          -- behind an empty layer there is nothing to find
          rw [hnone] at hnext
          have hempty : ∀ d, depth + 1 ≤ d → ∀ f,
              ¬ AtDistance lower imports seedFiles allFiles d f := by
            intro d hd
            refine not_isDistance_of_le (fun f hlayer => ?_) hd
            exact List.not_mem_nil ((hnext.frontier f).mpr hlayer)
          refine ⟨[], ?_, ?_, ?_, hnext.keys, hnext.going⟩
          · intro f
            rw [hnext.seen]
            constructor
            · rintro ⟨d, hd, hlayer⟩
              exact ⟨d, by omega, hlayer⟩
            · rintro ⟨d, -, hlayer⟩
              refine ⟨d, ?_, hlayer⟩
              by_contra hlarge
              exact hempty d (by omega) f hlayer
          · intro f
            simp [hempty (depth + (count + 1)) (by omega) f]
          · intro f d
            rw [hnext.distances]
            constructor
            · rintro ⟨hpos, hd, hlayer⟩
              exact ⟨hpos, by omega, hlayer⟩
            · rintro ⟨hpos, -, hlayer⟩
              refine ⟨hpos, ?_, hlayer⟩
              by_contra hlarge
              exact hempty d (by omega) f hlayer
      · obtain ⟨last, hlast⟩ := ih hnext
        rw [Nat.add_right_comm] at hlast
        exact ⟨last, hlast⟩

end Layers

/-- The distances of a search are those of the shortest chains of at most three imports, each file
once.  A deadline that strikes at some look at the clock leaves a beginning of them, and it is
reported; one that does not strike changes nothing. -/
theorem reverseImportDistances_exact
    (lower : Text → Text)
    (imports : SourcePath → List Text)
    (seedFiles : List SourcePath)
    {allFiles : List SourcePath}
    (hfiles : allFiles.Nodup) :
    let whole := reverseImportDistances lower imports (fun _ => false) seedFiles allFiles
    whole.deadlineHit = false ∧
      (whole.distances.map Prod.fst).Nodup ∧
      (∀ f d, (f, d) ∈ whole.distances ↔
        f ∈ allFiles ∧ f ∉ seedFiles ∧ d ≤ 3 ∧
          AtDistance lower imports seedFiles allFiles d f) ∧
      ∀ expired : ℕ → Bool,
        let cut := reverseImportDistances lower imports expired seedFiles allFiles
        ((∃ i < whole.checks, expired i = true) →
          cut.deadlineHit = true ∧ cut.distances <+: whole.distances) ∧
        ((∀ i < whole.checks, expired i = false) → cut = whole) := by
  intro whole
  obtain ⟨last, hlast⟩ :=
    (@layered_start lower imports seedFiles allFiles).scanDepths hfiles 3
  refine ⟨hlast.going, hlast.keys, ?_, ?_⟩
  · intro f d
    rw [show (f, d) ∈ whole.distances ↔ _ from hlast.distances f d]
    constructor
    · rintro ⟨hpos, hd, hlayer⟩
      obtain ⟨d, rfl⟩ := Nat.exists_eq_add_of_lt hpos
      have hchain := hlayer.1
      obtain ⟨-, ⟨hfile, -⟩, -⟩ := id hchain
      exact ⟨hfile, hlayer.2 0 hpos, hd, hlayer⟩
    · rintro ⟨-, hseed, hd, hlayer⟩
      refine ⟨?_, hd, hlayer⟩
      rcases Nat.eq_zero_or_pos d with rfl | hpos
      · exact absurd hlayer.1 hseed
      · exact hpos
  · intro expired cut
    constructor
    · rintro ⟨i, hlt, hexpired⟩
      exact scanDepths_of_expired lower imports hfiles [1, 2, 3] seedFiles rfl (Nat.zero_le i)
        hlt hexpired
    · intro hquiet
      exact scanDepths_of_not_expired lower imports hfiles [1, 2, 3] seedFiles rfl
        fun i _ hlt => hquiet i hlt

/-- `a.py`, which imports `b`, is one import from `b.py`. -/
theorem reverseImportDistances_exact_importer :
    ∃ importer seed : SourcePath, importer ≠ seed ∧
      (importer, 1) ∈ (reverseImportDistances (List.map Char.toLower) (fun _ => ["b".toList])
        (fun _ => false) [seed] [importer]).distances := by
  have ha : pathName "a.py".toList ≠ [] := by decide
  have hb : pathName "b.py".toList ≠ [] := by decide
  have hne : (⟨"a.py".toList, ha⟩ : SourcePath) ≠ ⟨"b.py".toList, hb⟩ := by
    intro heq
    exact absurd (show "a.py".toList = "b.py".toList from congrArg Subtype.val heq) (by decide)
  have hname : "b".toList ∈ moduleAliasesForPath (List.map Char.toLower)
      ⟨"b.py".toList, by decide⟩ := by decide
  have hseed : (⟨"a.py".toList, ha⟩ : SourcePath) ∉ [(⟨"b.py".toList, hb⟩ : SourcePath)] := by
    rw [List.mem_singleton]
    exact hne
  refine ⟨⟨"a.py".toList, ha⟩, ⟨"b.py".toList, hb⟩, hne, ?_⟩
  refine ((reverseImportDistances_exact (List.map Char.toLower) (fun _ => ["b".toList])
    [⟨"b.py".toList, hb⟩] (List.nodup_singleton _)).2.2.1 _ 1).mpr ?_
  refine ⟨List.mem_singleton_self _, hseed, by omega, ?_⟩
  refine isDistance_succ_iff.mpr ⟨?_, ⟨"b.py".toList, hb⟩, ⟨List.mem_singleton_self _, ?_⟩, ?_⟩
  · intro k hk hlayer
    obtain rfl : k = 0 := by omega
    exact hseed (isDistance_zero_iff.mp hlayer)
  · exact ⟨"b".toList, List.mem_singleton_self _, "b".toList, hname, by decide, by decide⟩
  · exact isDistance_zero_iff.mpr (List.mem_singleton_self _)

end Distances

end RepoMap
end TensorGrep
