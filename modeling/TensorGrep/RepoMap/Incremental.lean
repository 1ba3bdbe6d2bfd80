import TensorGrep.Kernel.StepSystem
import TensorGrep.RepoMap.Builders
import TensorGrep.RepoMap.WalkOrder

/-!
# Incremental maps and full maps

A session keeps a map and a snapshot of the files that it lists.  A refresh
compares the snapshot with the tree and builds the next map from the previous one
and the changes, or anew if the snapshot is empty.  `refreshed_maps_are_full` says
when the map of every refresh is the one that a full build would have made.
-/

namespace TensorGrep
namespace RepoMap

open Kernel

/-! ## Lists that are put together from files -/

section Blocks

variable {α β : Type} [DecidableEq α] {key : β → α} {f g : α → List β}

theorem countP_flatMap_key
    (hf : ∀ a, ∀ b ∈ f a, key b = a)
    (l : List α)
    (a : α) :
    (l.flatMap f).countP (fun b => key b = a) = l.count a * (f a).length := by
  induction l with
  | nil => simp
  | cons a' l ih =>
      rw [List.flatMap_cons, List.countP_append, ih, List.count_cons, Nat.add_mul, Nat.add_comm]
      congr 1
      by_cases heq : a' = a
      · subst heq
        rw [beq_self_eq_true, if_pos rfl, Nat.one_mul, List.countP_eq_length]
        exact fun b hb => decide_eq_true (hf a' b hb)
      · rw [if_neg (by simpa using heq), Nat.zero_mul, List.countP_eq_zero]
        exact fun b hb hkey => heq ((hf a' b hb).symm.trans (of_decide_eq_true hkey))

/-- Where each element tells from which block it is, the blocks can be read off the whole. -/
theorem flatMap_eq_iff
    (key : β → α)
    (hf : ∀ a, ∀ b ∈ f a, key b = a)
    (hg : ∀ a, ∀ b ∈ g a, key b = a)
    {l : List α} :
    l.flatMap f = l.flatMap g ↔ ∀ a ∈ l, f a = g a := by
  constructor
  · intro heq
    have hlength : ∀ a ∈ l, (f a).length = (g a).length := by
      intro a ha
      have hcount := congrArg (List.countP fun b => key b = a) heq
      rw [countP_flatMap_key hf, countP_flatMap_key hg] at hcount
      exact Nat.eq_of_mul_eq_mul_left (List.count_pos_iff.mpr ha) hcount
    clear hf hg
    induction l with
    | nil => exact fun a ha => nomatch ha
    | cons a l ih =>
        rw [List.flatMap_cons, List.flatMap_cons] at heq
        obtain ⟨hfirst, hrest⟩ := List.append_inj heq (hlength a List.mem_cons_self)
        rw [List.forall_mem_cons] at hlength ⊢
        exact ⟨hfirst, ih hrest hlength.2⟩
  · intro hall
    exact List.flatMap_congr hall

end Blocks

/-! ## One refresh -/

section OneRefresh

variable {δ : Type} {root : RepoRoot} {parser : SourceParser δ}

/-- The parts of a map that are compared. -/
structure SameMap (payload payload' : RepoMapPayload δ) : Prop where
  files : payload.files = payload'.files
  tests : payload.tests = payload'.tests
  symbols : payload.symbols = payload'.symbols
  imports : payload.imports = payload'.imports
  relatedPaths : payload.relatedPaths = payload'.relatedPaths
  scanLimit : payload.scanLimit = payload'.scanLimit

/-- The context files of a walk. -/
def contextFiles
    (root : RepoRoot)
    (tree : RepoTree)
    (maxRepoFiles : Option ℕ) : List RepoPath :=
  (iterRepoFiles root (normalizedMaxRepoFiles maxRepoFiles) tree).files.filter
    (isRepoContextFile root)

/-- If there are tests, there are other files too. -/
def NotOnlyTests
    (root : RepoRoot)
    (tree : RepoTree)
    (maxRepoFiles : Option ℕ) : Prop :=
  (∀ path ∈ contextFiles root tree maxRepoFiles, isTestFile root path = true) →
    contextFiles root tree maxRepoFiles = []

/-- With a limit the walk finds context files only. -/
def OnlyContextFiles
    (root : RepoRoot)
    (tree : RepoTree)
    (maxRepoFiles : Option ℕ) : Prop :=
  maxRepoFiles.isSome = true →
    ∀ path ∈ (iterRepoFiles root (normalizedMaxRepoFiles maxRepoFiles) tree).files,
      isRepoContextFile root path = true

/-- What the previous map has for a file is what parsing contents gives. -/
def HasParsed
    (parser : SourceParser δ)
    (previous : RepoMapPayload δ)
    (path : RepoPath)
    (contents : Bytes) : Prop :=
  previousSymbols previous path = parser.symbols path contents ∧
    previousImports previous path = parser.imports path contents

section Fields

variable {tree : RepoTree} {previous : RepoMapPayload δ} {changeset : Changeset}
  {maxRepoFiles : Option ℕ}

theorem file_of_mem_previousSymbols
    {path : RepoPath}
    {symbol : RepoSymbol δ}
    (h : symbol ∈ previousSymbols previous path) :
    symbol.file = path :=
  of_decide_eq_true (List.mem_filter.mp (mem_sortByKey.mp h)).2

theorem file_of_importsEntryOf
    {path : RepoPath}
    {imports : List Text}
    {entry : ImportsEntry}
    (h : entry ∈ (importsEntryOf parser path imports).toList) :
    entry.file = path := by
  rw [importsEntryOf] at h
  split at h
  · cases h
  · rw [List.mem_singleton.mp h]

theorem importsEntryOf_inj
    {path : RepoPath}
    {imports imports' : List Text} :
    (importsEntryOf parser path imports).toList = (importsEntryOf parser path imports').toList ↔
      imports = imports' := by
  constructor
  · intro h
    rw [importsEntryOf, importsEntryOf] at h
    by_cases hnil : imports = [] <;> by_cases hnil' : imports' = []
    · rw [hnil, hnil']
    · simp [hnil, hnil'] at h
    · simp [hnil, hnil'] at h
    · simp only [hnil, hnil', if_false, Option.toList_some, List.cons.injEq, ImportsEntry.mk.injEq]
        at h
      exact h.1.2.1
  · rintro rfl
    rfl

/-- The files that are parsed again. -/
def parsedAgain
    (root : RepoRoot)
    (tree : RepoTree)
    (previous : RepoMapPayload δ)
    (changeset : Changeset)
    (maxRepoFiles : Option ℕ) : List RepoPath :=
  let files := contextFiles root tree maxRepoFiles
  (sortDedup asPosix (changeset.added ++ changeset.modified ++
    files.filter fun path => path ∉ previousPaths previous)).filter fun path => path ∈ files

theorem mem_parsedAgain_iff
    {path : RepoPath}
    (hpath : path ∈ contextFiles root tree maxRepoFiles) :
    path ∈ parsedAgain root tree previous changeset maxRepoFiles ↔
      path ∈ changeset.added ++ changeset.modified ∨ path ∉ previousPaths previous := by
  rw [parsedAgain, List.mem_filter, mem_sortDedup asPosix_injective, List.mem_append,
    List.mem_filter]
  simp [hpath]

/-- A file that is parsed again or was parsed before has its value. -/
theorem ite_eq_iff_of_not
    {β : Type}
    {p : Prop}
    [Decidable p]
    {x y : β} :
    (if p then x else y) = x ↔ (¬ p → y = x) := by
  split
  case isTrue h => exact iff_of_true rfl fun hnot => absurd h hnot
  case isFalse h => exact ⟨fun heq _ => heq, fun heq => heq h⟩

theorem files_eq_iff :
    (buildRepoMapIncremental root parser tree previous changeset maxRepoFiles none).files =
        (buildRepoMap root parser tree maxRepoFiles none).files ↔
      NotOnlyTests root tree maxRepoFiles := by
  rw [buildRepoMapIncremental, buildRepoMap, mapOfWalk, NotOnlyTests, contextFiles]
  dsimp only
  generalize (iterRepoFiles root (normalizedMaxRepoFiles maxRepoFiles) tree).files.filter
    (isRepoContextFile root) = files
  have hall : files.filter (fun path => !isTestFile root path) = [] ↔
      ∀ path ∈ files, isTestFile root path = true := by
    simp [List.filter_eq_nil_iff]
  split
  case isTrue hnil =>
      rw [hnil, forall_prop_of_true (hall.mp hnil)]
      rw [List.filter_eq_self.mpr (hall.mp hnil)]
      exact eq_comm
  case isFalse hne => exact iff_of_true rfl fun htests => absurd (hall.mpr htests) hne

theorem symbols_eq_iff :
    (buildRepoMapIncremental root parser tree previous changeset maxRepoFiles none).symbols =
        (buildRepoMap root parser tree maxRepoFiles none).symbols ↔
      ∀ path ∈ contextFiles root tree maxRepoFiles,
        path ∉ parsedAgain root tree previous changeset maxRepoFiles →
        previousSymbols previous path = parser.symbols path (readFile tree path) := by
  have hfile : ∀ path, ∀ symbol ∈
      (if path ∈ parsedAgain root tree previous changeset maxRepoFiles then
        parser.symbols path (readFile tree path)
      else previousSymbols previous path), symbol.file = path := by
    intro path symbol hsymbol
    split at hsymbol
    · exact parser.file_of_mem path _ symbol hsymbol
    · exact file_of_mem_previousSymbols hsymbol
  refine (flatMap_eq_iff RepoSymbol.file hfile fun path symbol hsymbol =>
    parser.file_of_mem path _ symbol hsymbol).trans ?_
  exact forall₂_congr fun path hpath => ite_eq_iff_of_not

theorem imports_eq_iff :
    (buildRepoMapIncremental root parser tree previous changeset maxRepoFiles none).imports =
        (buildRepoMap root parser tree maxRepoFiles none).imports ↔
      ∀ path ∈ contextFiles root tree maxRepoFiles,
        path ∉ parsedAgain root tree previous changeset maxRepoFiles →
        previousImports previous path = parser.imports path (readFile tree path) := by
  rw [buildRepoMapIncremental, buildRepoMap, mapOfWalk]
  dsimp only
  rw [List.filterMap_eq_flatMap_toList, List.filterMap_eq_flatMap_toList]
  refine (flatMap_eq_iff ImportsEntry.file (fun path entry => file_of_importsEntryOf)
    fun path entry => file_of_importsEntryOf).trans ?_
  exact forall₂_congr fun path hpath => importsEntryOf_inj.trans ite_eq_iff_of_not

theorem scanLimit_eq_iff :
    (buildRepoMapIncremental root parser tree previous changeset maxRepoFiles none).scanLimit =
        (buildRepoMap root parser tree maxRepoFiles none).scanLimit ↔
      OnlyContextFiles root tree maxRepoFiles := by
  rw [buildRepoMapIncremental, buildRepoMap, mapOfWalk, OnlyContextFiles]
  dsimp only
  generalize (iterRepoFiles root (normalizedMaxRepoFiles maxRepoFiles) tree).files = files
  cases maxRepoFiles with
  | none => exact iff_of_true rfl fun h => absurd h Bool.false_ne_true
  | some n =>
      rw [normalizedMaxRepoFiles, Option.map_some, Option.map_some, Option.map_some,
        Option.some.injEq, Option.isSome_some, forall_prop_of_true rfl]
      constructor
      · intro heq
        have hcount : (files.filter (isRepoContextFile root)).length = files.length :=
          congrArg ScanLimit.scannedFiles heq
        exact List.length_filter_eq_length_iff.mp hcount
      · intro hall
        rw [List.filter_eq_self.mpr hall]

end Fields

/-- An incremental map is the full one if and only if not all files are tests, a walk with a limit
finds context files only, and the previous map has what parsing gives for each file that it
lists and the changeset does not name. -/
theorem sameMap_iff
    (tree : RepoTree)
    (previous : RepoMapPayload δ)
    (changeset : Changeset)
    (maxRepoFiles : Option ℕ) :
    SameMap (buildRepoMapIncremental root parser tree previous changeset maxRepoFiles none)
        (buildRepoMap root parser tree maxRepoFiles none) ↔
      NotOnlyTests root tree maxRepoFiles ∧ OnlyContextFiles root tree maxRepoFiles ∧
        ∀ path ∈ contextFiles root tree maxRepoFiles, path ∈ previousPaths previous →
          path ∉ changeset.added ++ changeset.modified →
          HasParsed parser previous path (readFile tree path) := by
  have hagain : ∀ path ∈ contextFiles root tree maxRepoFiles,
      (path ∉ parsedAgain root tree previous changeset maxRepoFiles ↔
        path ∈ previousPaths previous ∧ path ∉ changeset.added ++ changeset.modified) := by
    intro path hpath
    rw [mem_parsedAgain_iff hpath, not_or, not_not, and_comm]
  constructor
  · intro h
    refine ⟨files_eq_iff.mp h.files, scanLimit_eq_iff.mp h.scanLimit, ?_⟩
    intro path hpath hlisted hunnamed
    have hkept := (hagain path hpath).mpr ⟨hlisted, hunnamed⟩
    exact ⟨symbols_eq_iff.mp h.symbols path hpath hkept,
      imports_eq_iff.mp h.imports path hpath hkept⟩
  · rintro ⟨htests, honly, hparsed⟩
    have hfiles :
        (buildRepoMapIncremental root parser tree previous changeset maxRepoFiles none).files =
          (buildRepoMap root parser tree maxRepoFiles none).files :=
      files_eq_iff.mpr htests
    have hkept : ∀ path ∈ contextFiles root tree maxRepoFiles,
        path ∉ parsedAgain root tree previous changeset maxRepoFiles →
        HasParsed parser previous path (readFile tree path) := by
      intro path hpath hnot
      obtain ⟨hlisted, hunnamed⟩ := (hagain path hpath).mp hnot
      exact hparsed path hpath hlisted hunnamed
    refine ⟨hfiles, rfl, symbols_eq_iff.mpr fun path hpath hnot => (hkept path hpath hnot).1,
      imports_eq_iff.mpr fun path hpath hnot => (hkept path hpath hnot).2, ?_,
      scanLimit_eq_iff.mpr honly⟩
    exact congrArg (fun files => relatedPathsOf (files ++ _)) hfiles

end OneRefresh

/-! ## Snapshots and changesets -/

/-- `stat` of a file: its size and its modification time. -/
def statFile
    (tree : RepoTree)
    (path : RepoPath) : Option (ℕ × ℤ) :=
  (tree.fileAt path).map fun file => (file.1.length, file.2)

/-- An entry of a snapshot. -/
structure SnapshotEntry where
  path : RepoPath
  stat : ℕ × ℤ
deriving DecidableEq

/-- `_capture_snapshot`. -/
def captureSnapshot
    (tree : RepoTree)
    (paths : List RepoPath) : List SnapshotEntry :=
  sortByKey (fun entry => asPosix entry.path)
    (paths.filterMap fun path => (statFile tree path).map (⟨path, ·⟩))

/-- `_effective_session_max_repo_files` without a request. -/
def probeMaxFiles (scanLimit : Option ScanLimit) : ℕ :=
  (scanLimit.map fun limit => max 1 limit.maxRepoFiles).getD 2000

/-- `_stale_changeset`. -/
def staleChangeset
    (root : RepoRoot)
    (tree : RepoTree)
    (snapshot : List SnapshotEntry)
    (scanLimit : Option ScanLimit) : Option Changeset :=
  if snapshot = [] then none
  else
    let probe := (iterRepoFiles root (some (probeMaxFiles scanLimit)) tree).files.filter
      (isRepoContextFile root)
    some
      { added := sortDedup asPosix
          (probe.filter fun path => path ∉ snapshot.map SnapshotEntry.path)
        modified := sortDedup asPosix ((snapshot.filter fun entry =>
          (statFile tree entry.path).any (· ≠ entry.stat)).map SnapshotEntry.path)
        removed := (snapshot.filter fun entry =>
          (statFile tree entry.path).isNone).map SnapshotEntry.path }

/-! ## Sessions -/

section Sessions

variable {δ : Type} (root : RepoRoot) (parser : SourceParser δ)

/-- A session after a build: the tree at that time, the map, its limit and the snapshot. -/
structure MapSession (δ : Type) where
  tree : RepoTree
  maxRepoFiles : Option ℕ
  payload : RepoMapPayload δ
  snapshot : List SnapshotEntry

/-- What a build is given. -/
structure MapRequest where
  tree : RepoTree
  maxRepoFiles : Option ℕ
  deadline : Option ℕ

/-- The session of a map. -/
def sessionOf
    (request : MapRequest)
    (payload : RepoMapPayload δ) : MapSession δ :=
  ⟨request.tree, request.maxRepoFiles, payload,
    captureSnapshot request.tree payload.relatedPaths⟩

/-- A full build. -/
def fullMap (request : MapRequest) : RepoMapPayload δ :=
  buildRepoMap root parser request.tree request.maxRepoFiles request.deadline

/-- The map of a refresh. -/
def refreshedMap
    (session : MapSession δ)
    (request : MapRequest) : RepoMapPayload δ :=
  match staleChangeset root request.tree session.snapshot session.payload.scanLimit with
  | none => fullMap root parser request
  | some changeset =>
      buildRepoMapIncremental root parser request.tree session.payload changeset
        request.maxRepoFiles request.deadline

/-- An edit of a file changes its size or its modification time. -/
def EditsShow (tree tree' : RepoTree) : Prop :=
  ∀ path file file', tree.fileAt path = some file → tree'.fileAt path = some file' →
    statFile tree path = statFile tree' path → file.1 = file'.1

/-- A session that is opened on a tree and refreshed on any number of others. -/
def mapSessions : StepSystem (MapSession δ) MapRequest where
  init session := ∃ request : MapRequest, request.tree.DistinctNames ∧
    session = sessionOf request (fullMap root parser request)
  step session request session' := request.tree.DistinctNames ∧
    EditsShow session.tree request.tree ∧
    session' = sessionOf request (refreshedMap root parser session request)

/-- If the map was not cut short by a deadline, it is the full one. -/
def IsFullMap (session : MapSession δ) : Prop :=
  session.payload.deadlineLimit = none →
    SameMap session.payload
      (buildRepoMap root parser session.tree session.maxRepoFiles none)

/-- A refresh with a changeset finds not only tests, and with a limit context files only; and for
each file that the previous map lists and that has not changed, the previous map has what
parsing it gives. -/
def KeepsFullMap
    (session : MapSession δ)
    (request : MapRequest) : Prop :=
  session.snapshot ≠ [] →
    NotOnlyTests root request.tree request.maxRepoFiles ∧
      OnlyContextFiles root request.tree request.maxRepoFiles ∧
      ∀ path ∈ contextFiles root request.tree request.maxRepoFiles,
        path ∈ previousPaths session.payload →
        statFile session.tree path = statFile request.tree path →
        HasParsed parser session.payload path (readFile session.tree path)

end Sessions

/-! ## What a changeset says -/

section Changesets

variable {δ : Type} {root : RepoRoot} {parser : SourceParser δ}

theorem mem_captureSnapshot_iff
    {tree : RepoTree}
    {paths : List RepoPath}
    {entry : SnapshotEntry} :
    entry ∈ captureSnapshot tree paths ↔
      entry.path ∈ paths ∧ statFile tree entry.path = some entry.stat := by
  rw [captureSnapshot, mem_sortByKey, List.mem_filterMap]
  constructor
  · rintro ⟨path, hpath, hentry⟩
    obtain ⟨stat, hstat, rfl⟩ := Option.map_eq_some_iff.mp hentry
    exact ⟨hpath, hstat⟩
  · rintro ⟨hpath, hstat⟩
    exact ⟨entry.path, hpath, by rw [hstat]; rfl⟩

/-- The paths that the map of a session lists, and its snapshot. -/
structure SessionSound (session : MapSession δ) : Prop where
  distinct : session.tree.DistinctNames
  snapshot : session.snapshot = captureSnapshot session.tree session.payload.relatedPaths
  listed : ∀ path, path ∈ previousPaths session.payload ↔ path ∈ session.payload.relatedPaths
  files : ∀ path ∈ session.payload.relatedPaths, (session.tree.fileAt path).isSome = true

/-- A map that lists files of a walk over the tree makes a sound session. -/
theorem sessionSound_sessionOf
    {request : MapRequest}
    {payload : RepoMapPayload δ}
    (hdistinct : request.tree.DistinctNames)
    (hrelated : payload.relatedPaths = relatedPathsOf (payload.files ++ payload.tests))
    (hwalked : ∀ path, path ∈ payload.files ∨ path ∈ payload.tests →
      path ∈ (iterRepoFiles root (normalizedMaxRepoFiles request.maxRepoFiles)
        request.tree).files) :
    SessionSound (sessionOf request payload) := by
  have hmem : ∀ path, path ∈ payload.relatedPaths ↔
      path ∈ payload.files ∨ path ∈ payload.tests := by
    intro path
    rw [hrelated, relatedPathsOf, mem_sortDedup asPosix_injective, List.mem_append]
  refine ⟨hdistinct, rfl, fun path => ?_, fun path hpath => ?_⟩
  · change path ∈ (if payload.relatedPaths = [] then _ else _) ↔ path ∈ payload.relatedPaths
    split
    · rw [hmem]
      exact List.mem_append
    · exact Iff.rfl
  · exact fileAt_of_mem_iterRepoFiles hdistinct (hwalked path ((hmem path).mp hpath))

/-- The maps of a session that was opened and refreshed are those of sound sessions. -/
theorem sessionSound_fullMap
    {request : MapRequest}
    (hdistinct : request.tree.DistinctNames) :
    SessionSound (sessionOf request (fullMap root parser request)) :=
  sessionSound_sessionOf hdistinct rfl fun _ hpath => (mem_buildRepoMap_iff.mp hpath).1

theorem sessionSound_refreshedMap
    {session : MapSession δ}
    {request : MapRequest}
    (hdistinct : request.tree.DistinctNames) :
    SessionSound (sessionOf request (refreshedMap root parser session request)) := by
  rw [refreshedMap]
  split
  · exact sessionSound_fullMap hdistinct
  · exact sessionSound_sessionOf hdistinct rfl fun _ hpath =>
      (mem_buildRepoMapIncremental_iff.mp hpath).1

/-- A changeset names a file that was listed before and is still there if and only if its size or
its modification time is another one. -/
theorem not_mem_staleChangeset_iff
    {session : MapSession δ}
    (hsound : SessionSound session)
    {tree : RepoTree}
    {scanLimit : Option ScanLimit}
    {changeset : Changeset}
    (hchangeset : staleChangeset root tree session.snapshot scanLimit = some changeset)
    {path : RepoPath}
    (hlisted : path ∈ previousPaths session.payload)
    (hthere : (tree.fileAt path).isSome = true) :
    path ∉ changeset.added ++ changeset.modified ↔
      statFile session.tree path = statFile tree path := by
  have hrelated := (hsound.listed path).mp hlisted
  obtain ⟨file, hfile⟩ := Option.isSome_iff_exists.mp (hsound.files path hrelated)
  obtain ⟨file', hfile'⟩ := Option.isSome_iff_exists.mp hthere
  have hentry : ∀ entry : SnapshotEntry, entry ∈ session.snapshot ↔
      entry.path ∈ session.payload.relatedPaths ∧
        statFile session.tree entry.path = some entry.stat := by
    intro entry
    rw [hsound.snapshot, mem_captureSnapshot_iff]
  have hstat : statFile session.tree path = some (file.1.length, file.2) := by
    rw [statFile, hfile]
    rfl
  have hstat' : statFile tree path = some (file'.1.length, file'.2) := by
    rw [statFile, hfile']
    rfl
  rw [staleChangeset] at hchangeset
  split at hchangeset
  · cases hchangeset
  · cases hchangeset
    have hsnapshot : path ∈ session.snapshot.map SnapshotEntry.path :=
      List.mem_map.mpr ⟨⟨path, (file.1.length, file.2)⟩, (hentry _).mpr ⟨hrelated, hstat⟩, rfl⟩
    have hadded : ∀ probe : List RepoPath, path ∉ sortDedup asPosix
        (probe.filter fun path => path ∉ session.snapshot.map SnapshotEntry.path) := by
      intro probe hmem
      rw [mem_sortDedup asPosix_injective] at hmem
      exact of_decide_eq_true (List.mem_filter.mp hmem).2 hsnapshot
    rw [List.mem_append, not_or, and_iff_right (hadded _), mem_sortDedup asPosix_injective,
      List.mem_map, hstat, hstat', Option.some.injEq]
    constructor
    · intro hnone
      by_contra hne
      refine hnone ⟨⟨path, (file.1.length, file.2)⟩, List.mem_filter.mpr ⟨?_, ?_⟩, rfl⟩
      · exact (hentry _).mpr ⟨hrelated, hstat⟩
      · dsimp only
        rw [hstat', Option.any_some]
        exact decide_eq_true fun heq => hne heq.symm
    · rintro heq ⟨entry, hmem, rfl⟩
      obtain ⟨hin, hchanged⟩ := List.mem_filter.mp hmem
      rw [hstat', Option.any_some, decide_eq_true_eq] at hchanged
      have hold := ((hentry entry).mp hin).2
      rw [hstat, Option.some.injEq] at hold
      exact hchanged (heq ▸ hold)

/-! ## Runs -/

/-- A build that is not cut short is as without a deadline. -/
theorem beforeDeadline_of_not_hit
    {deadline : Option ℕ}
    {paths : List RepoPath}
    (h : deadlineHit deadline paths.length = false) :
    beforeDeadline deadline paths = paths := by
  cases deadline with
  | none => rfl
  | some n =>
      rw [deadlineHit, Option.any_some, decide_eq_false_iff_not, not_lt] at h
      exact List.take_of_length_le h

/-- A full build that is not cut short is as without a deadline. -/
theorem fullMap_of_not_cut
    {request : MapRequest}
    (h : (fullMap root parser request).deadlineLimit = none) :
    fullMap root parser request =
      buildRepoMap root parser request.tree request.maxRepoFiles none := by
  rw [fullMap, buildRepoMap, mapOfWalk] at h ⊢
  dsimp only at h
  split at h
  case isTrue => cases h
  case isFalse hnot =>
      rw [beforeDeadline_of_not_hit (Bool.eq_false_iff.mpr hnot), if_neg hnot]
      rfl

/-- So is an incremental one. -/
theorem buildRepoMapIncremental_of_not_cut
    {tree : RepoTree}
    {previous : RepoMapPayload δ}
    {changeset : Changeset}
    {maxRepoFiles deadline : Option ℕ}
    (h : (buildRepoMapIncremental root parser tree previous changeset maxRepoFiles
      deadline).deadlineLimit = none) :
    buildRepoMapIncremental root parser tree previous changeset maxRepoFiles deadline =
      buildRepoMapIncremental root parser tree previous changeset maxRepoFiles none := by
  rw [buildRepoMapIncremental] at h ⊢
  dsimp only at h
  split at h
  case isTrue => cases h
  case isFalse hnot =>
      simp only [beforeDeadline_of_not_hit (Bool.eq_false_iff.mpr hnot), if_neg hnot]
      rfl

theorem SameMap.refl
    (payload : RepoMapPayload δ) :
    SameMap payload payload :=
  ⟨rfl, rfl, rfl, rfl, rfl, rfl⟩

/-- A file whose size and modification time are the same has the same contents. -/
theorem readFile_eq_of_stat_eq
    {tree tree' : RepoTree}
    (hedits : EditsShow tree tree')
    {path : RepoPath}
    (hthere : (tree.fileAt path).isSome = true)
    (hthere' : (tree'.fileAt path).isSome = true)
    (hstat : statFile tree path = statFile tree' path) :
    readFile tree path = readFile tree' path := by
  obtain ⟨file, hfile⟩ := Option.isSome_iff_exists.mp hthere
  obtain ⟨file', hfile'⟩ := Option.isSome_iff_exists.mp hthere'
  rw [readFile, readFile, hfile, hfile']
  exact hedits path file file' hfile hfile' hstat

/-- The map of a refresh that is not cut short is the full one if and only if the condition holds. -/
theorem sameMap_refreshedMap_iff
    {session : MapSession δ}
    {request : MapRequest}
    (hsound : SessionSound session)
    (hdistinct : request.tree.DistinctNames)
    (hedits : EditsShow session.tree request.tree)
    (hcut : (refreshedMap root parser session request).deadlineLimit = none) :
    SameMap (refreshedMap root parser session request)
        (buildRepoMap root parser request.tree request.maxRepoFiles none) ↔
      KeepsFullMap root parser session request := by
  rw [refreshedMap] at hcut ⊢
  split at hcut
  case h_1 hnone =>
      have hempty : session.snapshot = [] := by
        by_contra hne
        rw [staleChangeset, if_neg hne] at hnone
        cases hnone
      rw [fullMap_of_not_cut hcut]
      exact iff_of_true (SameMap.refl _) fun hne => absurd hempty hne
  case h_2 changeset hsome =>
      have hne : session.snapshot ≠ [] := by
        intro hempty
        rw [staleChangeset, if_pos hempty] at hsome
        cases hsome
      rw [buildRepoMapIncremental_of_not_cut hcut, sameMap_iff, KeepsFullMap,
        forall_prop_of_true hne]
      refine and_congr_right fun _ => and_congr_right fun _ => ?_
      refine forall₃_congr fun path hpath hlisted => ?_
      have hthere := fileAt_of_mem_iterRepoFiles hdistinct (List.mem_filter.mp hpath).1
      have hbefore := hsound.files path ((hsound.listed path).mp hlisted)
      rw [not_mem_staleChangeset_iff hsound hsome hlisted hthere]
      refine forall_congr' fun hstat => ?_
      rw [readFile_eq_of_stat_eq hedits hbefore hthere hstat]

theorem sessionSound_of_step
    {session session' : MapSession δ}
    {request : MapRequest}
    (h : (mapSessions root parser).step session request session') :
    SessionSound session' := by
  obtain ⟨hdistinct, -, rfl⟩ := h
  exact sessionSound_refreshedMap hdistinct

/-- Every session in a run is sound, and keeps full maps as long as its refreshes meet the
condition. -/
theorem sessionSound_and_isFullMap
    {session : MapSession δ}
    (h : (mapSessions root parser).Reachable (KeepsFullMap root parser) session) :
    SessionSound session ∧ IsFullMap root parser session := by
  refine StepSystem.Reachable.invariant
    (P := fun session => SessionSound session ∧ IsFullMap root parser session) ?_ ?_ h
  · rintro session ⟨request, hdistinct, rfl⟩
    refine ⟨sessionSound_fullMap hdistinct, fun hcut => ?_⟩
    rw [sessionOf] at hcut ⊢
    dsimp only at hcut ⊢
    rw [fullMap_of_not_cut hcut]
    exact SameMap.refl _
  · intro session request session' hsession hguard hstep
    refine ⟨sessionSound_of_step hstep, ?_⟩
    obtain ⟨hdistinct, hedits, rfl⟩ := hstep
    exact fun hcut => (sameMap_refreshedMap_iff hsession.1 hdistinct hedits hcut).mpr hguard

/-- In a run whose refreshes meet the condition, every map that is not cut short by a deadline is
the full one; and a further refresh that is not cut short has the full map if and only if it meets
the condition. -/
theorem refreshed_maps_are_full
    {session : MapSession δ}
    (h : (mapSessions root parser).Reachable (KeepsFullMap root parser) session) :
    IsFullMap root parser session ∧
      ∀ request session', (mapSessions root parser).step session request session' →
        session'.payload.deadlineLimit = none →
        (SameMap session'.payload
            (buildRepoMap root parser request.tree request.maxRepoFiles none) ↔
          KeepsFullMap root parser session request) := by
  obtain ⟨hsound, hfull⟩ := sessionSound_and_isFullMap h
  refine ⟨hfull, ?_⟩
  rintro request session' ⟨hdistinct, hedits, rfl⟩ hcut
  exact sameMap_refreshedMap_iff hsound hdistinct hedits hcut

end Changesets

/-- A tree with one Python file. -/
def oneFileTree (name : FileName) : RepoTree :=
  .directory (some [(name, .file [] 0)])

/-- A build without limits. -/
def plainRequest (name : FileName) : MapRequest :=
  ⟨oneFileTree name, none, none⟩

theorem oneFileTree_distinct
    (name : FileName) :
    (oneFileTree name).DistinctNames :=
  ⟨List.nodup_singleton _, trivial, trivial⟩

theorem editsShow_refl
    (tree : RepoTree) :
    EditsShow tree tree := by
  intro path file file' hfile hfile' _
  rw [hfile, Option.some.injEq] at hfile'
  rw [hfile']

/-- A build of a tree with the file `main.py`. -/
def mainRequest : MapRequest :=
  plainRequest mainName

/-- The session that is opened and refreshed on this tree. -/
def mainSession : MapSession Unit :=
  sessionOf mainRequest (refreshedMap plainRoot emptyParser
    (sessionOf mainRequest (fullMap plainRoot emptyParser mainRequest)) mainRequest)

/-- Its map is the full one. -/
theorem refreshed_maps_are_full_main :
    IsFullMap plainRoot emptyParser mainSession ∧
      ∀ request session', (mapSessions plainRoot emptyParser).step mainSession request session' →
        session'.payload.deadlineLimit = none →
        (SameMap session'.payload
            (buildRepoMap plainRoot emptyParser request.tree request.maxRepoFiles none) ↔
          KeepsFullMap plainRoot emptyParser mainSession request) := by
  have hopened : (mapSessions plainRoot emptyParser).Reachable
      (KeepsFullMap plainRoot emptyParser) _ :=
    StepSystem.Reachable.start ⟨mainRequest, oneFileTree_distinct _, rfl⟩
  refine refreshed_maps_are_full (hopened.next (l := mainRequest) ?_
    ⟨oneFileTree_distinct _, editsShow_refl _, rfl⟩)
  refine fun _ => ⟨?_, ?_, ?_⟩
  · intro htests
    have hmain := htests [mainName] (by decide)
    revert hmain
    decide
  · exact fun hsome => absurd hsome (by decide)
  · exact fun path _ _ _ => ⟨rfl, rfl⟩

/-- On a tree with tests only a refresh without changes empties the files of the map. -/
theorem onlyTests_lost :
    ¬ ∀ session, (mapSessions plainRoot emptyParser).Reachable (fun _ _ => True) session →
      IsFullMap plainRoot emptyParser session := by
  intro hall
  have hopened : (mapSessions plainRoot emptyParser).Reachable (fun _ _ => True) _ :=
    StepSystem.Reachable.start
    ⟨plainRequest ⟨"test_a.py".toList, by decide, by decide⟩, oneFileTree_distinct _, rfl⟩
  have hrefreshed := hopened.next
    (l := plainRequest ⟨"test_a.py".toList, by decide, by decide⟩) trivial
    ⟨oneFileTree_distinct _, editsShow_refl _, rfl⟩
  have hfiles := (hall _ hrefreshed rfl).files
  revert hfiles
  decide

end RepoMap
end TensorGrep
