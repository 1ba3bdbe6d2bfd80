import TensorGrep.Kernel.MemoTable
import TensorGrep.RepoMap.Incremental

/-!
# The memo tables of a process

A process that stays alive keeps what it has loaded: the matchers of directories,
files under their path, size and modification time, the trees of sources under the
sources themselves, and the contexts of a root.  `_clear_all_source_caches` clears
the files and the contexts.  The trees it may keep, because a source has one tree.
The matchers it keeps as well, under the path of their directory alone.
-/

namespace TensorGrep
namespace RepoMap

open Kernel

/-! ## Directories -/

mutual

/-- The directories below a node that can be listed. -/
def nodeDirectories
    (path : RepoPath) : RepoNode → List (RepoPath × RepoEntries)
  | .dir (some entries) => (path, entries) :: entriesDirectories path entries
  | _ => []

/-- The directories below entries that can be listed. -/
def entriesDirectories
    (path : RepoPath) : List (FileName × RepoNode) → List (RepoPath × RepoEntries)
  | [] => []
  | (name, node) :: rest =>
      nodeDirectories (path ++ [name]) node ++ entriesDirectories path rest

end

/-- The directories of a tree that can be listed. -/
def RepoTree.directories : RepoTree → List (RepoPath × RepoEntries)
  | .single _ _ _ => []
  | .directory entries => nodeDirectories [] (.dir entries)

section Congruence

variable {root : RepoRoot} {load load' : MatcherLoader}

mutual

/-- The walk below a node depends on the matchers of the directories below it only. -/
theorem iterRepoBucketFiles_congr_load
    {path : RepoPath} :
    ∀ (node : RepoNode) (stack : List GitignoreMatcher),
      (∀ p entries, (p, entries) ∈ nodeDirectories path node → load p entries = load' p entries) →
      iterRepoBucketFiles root load stack path node = iterRepoBucketFiles root load' stack path node
  | .dir (some entries), stack, h => by
      rw [nodeDirectories] at h
      rw [iterRepoBucketFiles, iterRepoBucketFiles, h path entries List.mem_cons_self,
        scanEntries_congr_load entries _ fun p entries' hmem =>
          h p entries' (List.mem_cons_of_mem _ hmem)]
  | .dir none, _, _ => rfl
  | .file _ _, _, _ => rfl
  | .link _, _, _ => rfl
  | .failing, _, _ => rfl

theorem scanEntries_congr_load
    {path : RepoPath} :
    ∀ (entries : List (FileName × RepoNode)) (stack : List GitignoreMatcher),
      (∀ p entries', (p, entries') ∈ entriesDirectories path entries →
        load p entries' = load' p entries') →
      scanEntries root load stack path entries = scanEntries root load' stack path entries
  | [], _, _ => rfl
  | (name, node) :: rest, stack, h => by
      rw [entriesDirectories] at h
      have hrest := scanEntries_congr_load rest stack fun p entries' hmem =>
        h p entries' (List.mem_append_right _ hmem)
      have hnode := iterRepoBucketFiles_congr_load node stack fun p entries' hmem =>
        h p entries' (List.mem_append_left _ hmem)
      cases node with
      | dir entries => rw [scanEntries, scanEntries, hrest, hnode]
      | file contents mtimeNs => rw [scanEntries, scanEntries, hrest]
      | failing => rw [scanEntries, scanEntries, hrest]
      | link target => rw [scanEntries, scanEntries, hrest]

end

/-- The walk depends on the matchers of the directories of the tree only. -/
theorem iterRepoFilesWith_congr
    {tree : RepoTree}
    (h : ∀ p entries, (p, entries) ∈ tree.directories → load p entries = load' p entries)
    (maxFiles : Option ℕ) :
    iterRepoFilesWith root load maxFiles tree = iterRepoFilesWith root load' maxFiles tree := by
  match tree, maxFiles with
  | .single _ _ _, _ => rfl
  | .directory none, some _ => rfl
  | .directory none, none => rfl
  | .directory (some entries), some maxFiles =>
      rw [RepoTree.directories, nodeDirectories] at h
      have hscan : scanEntries root load [load' [] entries] [] entries =
          scanEntries root load' [load' [] entries] [] entries :=
        scanEntries_congr_load entries [load' [] entries]
          fun p entries' hmem => h p entries' (List.mem_cons_of_mem _ hmem)
      rw [iterRepoFilesWith, iterRepoFilesWith, iterCappedFiles, iterCappedFiles,
        h [] entries List.mem_cons_self, hscan]
  | .directory (some entries), none =>
      rw [iterRepoFilesWith, iterRepoFilesWith, iterRepoBucketFiles_congr_load _ _ h]

end Congruence

/-! ## Tables -/

/-- A parser by way of the tree of a source, as that of Python files is.  The symbols of a file name
the file. -/
structure TreeParser (τ δ : Type) where
  parseTree : Bytes → τ
  imports : RepoPath → Bytes → τ → List Text
  symbols : RepoPath → Bytes → τ → List (RepoSymbol δ)
  provenance : RepoPath → Text
  file_of_mem : ∀ path source tree, ∀ symbol ∈ symbols path source tree, symbol.file = path

/-- The tables of `_load_gitignore_matcher`, of `_mtime_aware_cache`, of `_cached_ast_parse`, where
the digest of a source stands for the source, and the contexts of the root, which a build renews
and only queries read. -/
structure MemoTables (τ κ : Type) where
  matchers : MemoTable RepoPath GitignoreMatcher
  sources : MemoTable (RepoPath × Option (ℕ × ℤ)) Bytes
  trees : MemoTable Bytes τ
  contexts : Option κ

section Tables

variable {τ κ δ : Type}

/-- The tables of a new process. -/
def MemoTables.empty : MemoTables τ κ :=
  ⟨MemoTable.empty, MemoTable.empty, MemoTable.empty, none⟩

/-- `_clear_all_source_caches`. -/
def MemoTables.clearAllSourceCaches (tables : MemoTables τ κ) : MemoTables τ κ :=
  { tables with
    sources := MemoTable.empty
    contexts := none }

/-- What is left of tables that have thrown entries out. -/
structure MemoTables.Within (tables tables' : MemoTables τ κ) : Prop where
  matchers : tables.matchers.Within tables'.matchers
  sources : tables.sources.Within tables'.sources
  trees : tables.trees.Within tables'.trees

/-- A parser without tables. -/
def TreeParser.toSourceParser (P : TreeParser τ δ) : SourceParser δ where
  imports := fun path source => P.imports path source (P.parseTree source)
  symbols := fun path source => P.symbols path source (P.parseTree source)
  provenance := P.provenance
  file_of_mem := fun path source => P.file_of_mem path source (P.parseTree source)

/-- The source of a file, for what reading the file gives. -/
def MemoTables.source
    (tables : MemoTables τ κ)
    (tree : RepoTree)
    (path : RepoPath)
    (contents : Bytes) : Bytes :=
  tables.sources.consult (path, statFile tree path) contents

/-- The tree of a source. -/
def MemoTables.tree
    (tables : MemoTables τ κ)
    (P : TreeParser τ δ)
    (source : Bytes) : τ :=
  tables.trees.consult source (P.parseTree source)

/-- A parser that looks into the tables. -/
def TreeParser.remembering
    (P : TreeParser τ δ)
    (tables : MemoTables τ κ)
    (tree : RepoTree) : SourceParser δ where
  imports := fun path contents =>
    let source := tables.source tree path contents
    P.imports path source (tables.tree P source)
  symbols := fun path contents =>
    let source := tables.source tree path contents
    P.symbols path source (tables.tree P source)
  provenance := P.provenance
  file_of_mem := fun path _ => P.file_of_mem path _ _

/-- `_load_gitignore_matcher` with its table. -/
def MemoTables.loadMatcher (tables : MemoTables τ κ) : MatcherLoader :=
  fun path entries => tables.matchers.consult path (loadGitignoreMatcher path entries)

/-- `build_repo_map` in a process that finds entries in its tables. -/
def buildRepoMapRemembering
    (root : RepoRoot)
    (P : TreeParser τ δ)
    (tables : MemoTables τ κ)
    (tree : RepoTree)
    (maxRepoFiles : Option ℕ)
    (deadline : Option ℕ) : RepoMapPayload δ :=
  let maxFiles := normalizedMaxRepoFiles maxRepoFiles
  mapOfWalk root (P.remembering tables tree) tree
    (iterRepoFilesWith root tables.loadMatcher maxFiles tree) maxFiles deadline

/-- The entries of trees are right. -/
def MemoTables.HasTrees
    (P : TreeParser τ δ)
    (tables : MemoTables τ κ) : Prop :=
  tables.trees.Forall fun source tree => tree = P.parseTree source

/-- The matchers are those of the directories that are there. -/
def MemoTables.HasMatchers
    (tables : MemoTables τ κ)
    (tree : RepoTree) : Prop :=
  tables.matchers.Forall fun path matcher =>
    ∀ entries, (path, entries) ∈ tree.directories → matcher = loadGitignoreMatcher path entries

/-- A new process builds the map of the tree. -/
theorem buildRepoMapRemembering_empty
    (root : RepoRoot)
    (P : TreeParser τ δ)
    (tree : RepoTree)
    (maxRepoFiles : Option ℕ)
    (deadline : Option ℕ) :
    buildRepoMapRemembering root P (MemoTables.empty : MemoTables τ κ) tree maxRepoFiles deadline =
      buildRepoMap root P.toSourceParser tree maxRepoFiles deadline :=
  rfl

/-- So does a process that has no files in its tables, and only trees and matchers that are right. -/
theorem buildRepoMapRemembering_eq
    {root : RepoRoot}
    {P : TreeParser τ δ}
    {tables : MemoTables τ κ}
    {tree : RepoTree}
    (hsources : tables.sources = MemoTable.empty)
    (htrees : tables.HasTrees P)
    (hmatchers : tables.HasMatchers tree)
    (maxRepoFiles : Option ℕ)
    (deadline : Option ℕ) :
    buildRepoMapRemembering root P tables tree maxRepoFiles deadline =
      buildRepoMap root P.toSourceParser tree maxRepoFiles deadline := by
  have hsource : ∀ path contents, tables.source tree path contents = contents := by
    intro path contents
    rw [MemoTables.source, hsources, MemoTable.consult_empty]
  have htree : ∀ source, tables.tree P source = P.parseTree source := by
    intro source
    exact MemoTable.consult_eq htrees fun _ hold => hold
  have hparser : P.remembering tables tree = P.toSourceParser := by
    simp only [TreeParser.remembering, TreeParser.toSourceParser, hsource, htree]
  have hwalk : ∀ maxFiles, iterRepoFilesWith root tables.loadMatcher maxFiles tree =
      iterRepoFiles root maxFiles tree := by
    refine iterRepoFilesWith_congr fun path entries hmem => ?_
    exact MemoTable.consult_eq hmatchers fun _ hold => hold entries hmem
  rw [buildRepoMapRemembering, buildRepoMap, hparser, hwalk]

end Tables

/-! ## Runs of a process -/

/-- A process with the tree that it looks at. -/
structure BuilderProcess (τ κ : Type) where
  tree : RepoTree
  tables : MemoTables τ κ

/-- What happens: the tree is edited; a builder or a query is called, and leaves tables behind; the
tables are swept. -/
inductive ProcessEvent (τ κ : Type) where
  | edit (tree : RepoTree)
  | call (tables : MemoTables τ κ)
  | sweep

section Runs

variable {τ κ δ : Type} (P : TreeParser τ δ) (prime : RepoTree → κ)

/-- What a call leaves behind.  A new entry is what the tree has, where the matcher of a directory
that cannot be listed may be any, and full tables have thrown entries out. -/
structure CallLeaves
    (tree : RepoTree)
    (tables tables' : MemoTables τ κ) : Prop where
  matchers : tables.matchers.FilledWith tables'.matchers fun path matcher =>
    ∀ entries, (path, entries) ∈ tree.directories → matcher = loadGitignoreMatcher path entries
  sources : tables.sources.FilledWith tables'.sources fun key source =>
    key.2 = statFile tree key.1 ∧ source = readFile tree key.1
  trees : tables.trees.FilledWith tables'.trees fun source tree => tree = P.parseTree source
  contexts : tables'.contexts = some (prime tree) ∨ tables'.contexts = tables.contexts

/-- A process that starts with empty tables. -/
def builderProcess : StepSystem (BuilderProcess τ κ) (ProcessEvent τ κ) where
  init := fun s => s.tables = MemoTables.empty
  step := fun s event s' =>
    match event with
    | .edit tree => s' = { s with tree := tree }
    | .call tables => CallLeaves P prime s.tree s.tables tables ∧ s' = { s with tables := tables }
    | .sweep => s' = { s with tables := s.tables.clearAllSourceCaches }

/-- An edit leaves the rules of each directory that it does not remove as they were, if the process
remembers the matcher of the directory. -/
def KeepsMatchers
    (s : BuilderProcess τ κ) : ProcessEvent τ κ → Prop
  | .edit tree => s.tables.HasMatchers tree
  | _ => True

variable {P prime}

/-- The trees in the tables are right, and if the edits keep the matchers, these are too. -/
theorem hasTrees_and_hasMatchers_of_reachable
    {s : BuilderProcess τ κ}
    (h : (builderProcess P prime).Reachable KeepsMatchers s) :
    s.tables.HasTrees P ∧ s.tables.HasMatchers s.tree := by
  refine StepSystem.Reachable.invariant
    (P := fun s => s.tables.HasTrees P ∧ s.tables.HasMatchers s.tree) ?_ ?_ h
  · intro s hs
    rw [show s.tables = MemoTables.empty from hs]
    exact ⟨MemoTable.forall_empty, MemoTable.forall_empty⟩
  · rintro s event s' ⟨htrees, hmatchers⟩ hguard hstep
    cases event with
    | edit tree =>
        obtain rfl := hstep
        exact ⟨htrees, hguard⟩
    | call tables =>
        obtain ⟨hleaves, rfl⟩ := hstep
        exact ⟨htrees.filledWith hleaves.trees fun _ _ hnew => hnew,
          hmatchers.filledWith hleaves.matchers fun _ _ hnew => hnew⟩
    | sweep =>
        obtain rfl := hstep
        exact ⟨htrees, hmatchers⟩

/-- In a run whose edits keep the matchers, a build after a sweep has the payload of a build in a new
process. -/
theorem swept_builds_are_fresh
    {root : RepoRoot}
    {s : BuilderProcess τ κ}
    (h : (builderProcess P prime).Reachable KeepsMatchers s)
    {tables : MemoTables τ κ}
    (hleft : tables.Within s.tables.clearAllSourceCaches)
    (maxRepoFiles : Option ℕ)
    (deadline : Option ℕ) :
    buildRepoMapRemembering root P tables s.tree maxRepoFiles deadline =
      buildRepoMapRemembering root P (MemoTables.empty : MemoTables τ κ) s.tree maxRepoFiles
        deadline := by
  obtain ⟨htrees, hmatchers⟩ := hasTrees_and_hasMatchers_of_reachable h
  rw [buildRepoMapRemembering_empty]
  exact buildRepoMapRemembering_eq (MemoTable.eq_empty_of_within hleft.sources)
    (htrees.within hleft.trees) (hmatchers.within hleft.matchers) maxRepoFiles deadline

end Runs

/-! ## A `.gitignore` that is edited -/

/-- A parser that finds nothing. -/
def emptyTreeParser : TreeParser Unit Unit where
  parseTree := fun _ => ()
  imports := fun _ _ _ => []
  symbols := fun _ _ _ => []
  provenance := fun _ => []
  file_of_mem := fun _ _ _ _ hmem => nomatch hmem

/-- The entries `.gitignore` and `main.py`. -/
def ignoringEntries (lines contents : Bytes) : RepoEntries :=
  [(gitignoreName, .file lines 0), (mainName, .file contents 0)]

/-- A directory with `.gitignore` and `main.py`. -/
def ignoringTree (lines contents : Bytes) : RepoTree :=
  .directory (some (ignoringEntries lines contents))

/-- The tables after a build. -/
def tablesAfter (lines contents : Bytes) : MemoTables Unit Unit where
  matchers := Function.update MemoTable.empty []
    (some (loadGitignoreMatcher [] (ignoringEntries lines contents)))
  sources := MemoTable.empty
  trees := MemoTable.empty
  contexts := some ()

/-- The matcher is that of any tree with the same rules. -/
theorem hasMatchers_tablesAfter
    {lines lines' contents contents' : Bytes}
    (h : loadGitignoreMatcher [] (ignoringEntries lines contents) =
      loadGitignoreMatcher [] (ignoringEntries lines' contents')) :
    (tablesAfter lines contents).HasMatchers (ignoringTree lines' contents') := by
  intro path matcher hentry entries hmem
  obtain ⟨rfl, rfl⟩ := Prod.mk.inj (List.mem_singleton.mp hmem)
  have hloaded : some (loadGitignoreMatcher [] (ignoringEntries lines contents)) = some matcher :=
    hentry
  rw [← Option.some.inj hloaded, h]

theorem callLeaves_tablesAfter
    (lines contents : Bytes) :
    CallLeaves emptyTreeParser (fun _ => ()) (ignoringTree lines contents) MemoTables.empty
      (tablesAfter lines contents) :=
  ⟨fun path matcher hentry => Or.inr (hasMatchers_tablesAfter rfl path matcher hentry),
    MemoTable.forall_empty, MemoTable.forall_empty, Or.inl rfl⟩

/-- The state after a build, an edit and a sweep. -/
def sweptProcess (lines lines' contents contents' : Bytes) : BuilderProcess Unit Unit :=
  ⟨ignoringTree lines' contents', (tablesAfter lines contents).clearAllSourceCaches⟩

theorem reachable_sweptProcess
    {guard : BuilderProcess Unit Unit → ProcessEvent Unit Unit → Prop}
    (lines lines' contents contents' : Bytes)
    (hcall : guard ⟨ignoringTree lines contents, MemoTables.empty⟩
      (.call (tablesAfter lines contents)))
    (hedit : guard ⟨ignoringTree lines contents, tablesAfter lines contents⟩
      (.edit (ignoringTree lines' contents')))
    (hsweep : guard ⟨ignoringTree lines' contents', tablesAfter lines contents⟩ .sweep) :
    (builderProcess emptyTreeParser fun _ => ()).Reachable guard
      (sweptProcess lines lines' contents contents') := by
  have hstart : (builderProcess emptyTreeParser fun _ => ()).Reachable guard
      ⟨ignoringTree lines contents, MemoTables.empty⟩ :=
    StepSystem.Reachable.start rfl
  have hcalled := hstart.next hcall ⟨callLeaves_tablesAfter lines contents, rfl⟩
  have hedited := hcalled.next hedit rfl
  exact hedited.next hsweep rfl

theorem within_refl
    (tables : MemoTables Unit Unit) :
    tables.Within tables :=
  ⟨fun _ _ h => h, fun _ _ h => h, fun _ _ h => h⟩

/-- An edit of `main.py` keeps the matcher. -/
theorem swept_builds_are_fresh_main :
    buildRepoMapRemembering plainRoot emptyTreeParser
        (sweptProcess [42] [42] [] [120]).tables (ignoringTree [42] [120]) none none =
      buildRepoMapRemembering plainRoot emptyTreeParser (MemoTables.empty : MemoTables Unit Unit)
        (ignoringTree [42] [120]) none none := by
  have hkeeps : (tablesAfter [42] []).HasMatchers (ignoringTree [42] [120]) :=
    hasMatchers_tablesAfter rfl
  exact swept_builds_are_fresh (reachable_sweptProcess [42] [42] [] [120] trivial hkeeps trivial)
    (within_refl _) none none

/-- A `.gitignore` that is edited to name `main.py` has no effect on a build after a sweep. -/
theorem edited_gitignore_survives_sweep :
    ¬ ∀ s, (builderProcess emptyTreeParser fun _ => ()).Reachable (fun _ _ => True) s →
      ∀ tables : MemoTables Unit Unit, tables.Within s.tables.clearAllSourceCaches →
        buildRepoMapRemembering plainRoot emptyTreeParser tables s.tree none none =
          buildRepoMapRemembering plainRoot emptyTreeParser
            (MemoTables.empty : MemoTables Unit Unit) s.tree none none := by
  intro hall
  have hsame := hall _ (reachable_sweptProcess [] [109, 42] [] [] trivial trivial trivial) _
    (within_refl _)
  have hfiles := congrArg RepoMapPayload.files hsame
  revert hfiles
  decide

end RepoMap
end TensorGrep
