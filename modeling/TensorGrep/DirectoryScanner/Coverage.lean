import TensorGrep.DirectoryScanner.Arrivals

/-!
# What a walk covers

`searched` is the set of files that a walk is for, in terms of the tree: the regular
files within the depth limit that are not hidden, lie in no generated or ignored
directory, are not ignored themselves and pass the globs and types.  The deepest
`.gitignore` with an opinion decides what is ignored.

A walk that nothing flags comes to the directories on the way to these files
(`mem_arrivals_iff`) and yields them, and also special entries that pass the filters.
It raises where it reaches a `.gitignore` that cannot be opened
(`walk_total_and_honest_iff`).
-/

namespace TensorGrep
namespace DirectoryScanner

open Kernel
open RepoMap (FileName RepoPath asPosix gitignoreName)

/-! ## Nodes of a tree -/

/-- The node at a path. -/
@[grind] def nodeAt : ScanNode → RepoPath → Option ScanNode
  | node, [] => some node
  | .dir _ entries, name :: rest =>
      match findEntry name entries with
      | some node => nodeAt node rest
      | none => none
  | _, _ :: _ => none

mutual

/-- No directory below a node has a name twice. -/
@[grind] def nodeDistinct : ScanNode → Prop
  | .dir _ entries => (entries.map Prod.fst).Nodup ∧ entriesDistinct entries
  | _ => True

/-- No directory below an entry has a name twice. -/
@[grind] def entriesDistinct : List (FileName × ScanNode) → Prop
  | [] => True
  | (_, node) :: entries => nodeDistinct node ∧ entriesDistinct entries

end

/-- A directory tree. -/
structure ScanTree where
  listable : Bool
  entries : ScanEntries
  distinct : nodeDistinct (.dir listable entries)

/-- The directory at the top of a tree. -/
def ScanTree.root (tree : ScanTree) : ScanNode :=
  .dir tree.listable tree.entries

theorem entriesDistinct_iff (entries : ScanEntries) :
    entriesDistinct entries ↔ ∀ entry ∈ entries, nodeDistinct entry.2 := by
  induction entries with
  | nil => simp [entriesDistinct]
  | cons entry entries ih => rw [entriesDistinct, ih, List.forall_mem_cons]

theorem findEntry_eq_some_iff
    {entries : ScanEntries}
    (hnodup : (entries.map Prod.fst).Nodup)
    (name : FileName)
    (node : ScanNode) :
    findEntry name entries = some node ↔ (name, node) ∈ entries := by
  rw [findEntry, Option.map_eq_some_iff]
  constructor
  · rintro ⟨⟨name', node'⟩, hfound, rfl⟩
    obtain rfl : name' = name := by simpa using List.find?_some hfound
    exact List.mem_of_find?_eq_some hfound
  · intro hmem
    cases hfound : entries.find? fun entry => entry.1 = name with
    | none => exact absurd (decide_eq_true rfl) (List.find?_eq_none.mp hfound _ hmem)
    | some entry =>
        have hname : entry.1 = name := by simpa using List.find?_some hfound
        have hentry := List.inj_on_of_nodup_map hnodup (List.mem_of_find?_eq_some hfound) hmem
          hname
        exact ⟨entry, rfl, by rw [hentry]⟩

theorem nodeAt_append
    (node : ScanNode)
    (path rest : RepoPath) :
    nodeAt node (path ++ rest) = (nodeAt node path).bind fun found => nodeAt found rest := by
  induction path generalizing node with
  | nil => rw [List.nil_append, nodeAt]; rfl
  | cons name path ih =>
      cases node with
      | dir listable entries =>
          rw [List.cons_append, nodeAt, nodeAt]
          cases findEntry name entries with
          | none => rfl
          | some child => exact ih child
      | file contents => simp [nodeAt]
      | special => simp [nodeAt]
      | link target => simp [nodeAt]

theorem nodeAt_snoc
    {node : ScanNode}
    {path : RepoPath}
    {listable : Bool}
    {entries : ScanEntries}
    (h : nodeAt node path = some (.dir listable entries))
    (name : FileName) :
    nodeAt node (path ++ [name]) = findEntry name entries := by
  rw [nodeAt_append, h, Option.bind_some]
  cases hfound : findEntry name entries with
  | none => simp [nodeAt, hfound]
  | some child => simp [nodeAt, hfound]

/-- What lies below a path lies in a directory. -/
theorem exists_dir_of_nodeAt_append
    {node found : ScanNode}
    {path rest : RepoPath}
    {name : FileName}
    (h : nodeAt node (path ++ name :: rest) = some found) :
    ∃ listable entries, nodeAt node path = some (.dir listable entries) := by
  rw [nodeAt_append] at h
  obtain ⟨middle, hmiddle, hbelow⟩ := Option.bind_eq_some_iff.mp h
  cases middle with
  | dir listable entries => exact ⟨listable, entries, hmiddle⟩
  | file contents => cases hbelow
  | special => cases hbelow
  | link target => cases hbelow

theorem nodeDistinct_of_nodeAt
    {node found : ScanNode}
    {path : RepoPath}
    (hdistinct : nodeDistinct node)
    (h : nodeAt node path = some found) :
    nodeDistinct found := by
  induction path generalizing node with
  | nil =>
      rw [nodeAt] at h
      obtain rfl := Option.some.inj h
      exact hdistinct
  | cons name path ih =>
      cases node with
      | file contents => cases h
      | special => cases h
      | link target => cases h
      | dir listable entries =>
          rw [nodeDistinct, entriesDistinct_iff] at hdistinct
          rw [nodeAt] at h
          cases hfound : findEntry name entries with
          | none => rw [hfound] at h; cases h
          | some child =>
              rw [hfound] at h
              have hmem := (findEntry_eq_some_iff hdistinct.1 name child).mp hfound
              exact ih (hdistinct.2 _ hmem) h

/-! ## The files a walk is for -/

section Searched

variable (host : Host) (config : SearchConfig) (base : BasePath) (root : ScanNode)

/-- The text of the patterns that a directory has of its own. -/
@[grind] def ignoreText (dir : RepoPath) : Option Text :=
  if config.ignoresNothing then none
  else
    match nodeAt root dir with
    | some (.dir _ entries) =>
        match ignoreFile entries with
        | .contents raw => some (decodeReplace raw)
        | _ => none
    | _ => none

/-- The opinion of the deepest `.gitignore` that has one on a path. -/
def deepestOpinion
    (path : RepoPath)
    (isDir : Bool) : Option Bool :=
  path.dropLast.inits.reverse.findSome? fun dir =>
    (ignoreText config root dir).bind fun text => specOpinion host dir text path isDir

/-- A path passes the filters. -/
structure LetThrough (path : RepoPath) : Prop where
  within : ∀ depth, config.maxDepth = some depth → path.length ≤ depth
  visible : ∀ name ∈ path, isVisible config name = true
  dirs : ∀ dir, dir <+: path → dir ≠ [] → dir ≠ path →
    shouldDescendDir host config base dir = true ∧
      deepestOpinion host config root dir true ≠ some true
  kept : deepestOpinion host config root path false ≠ some true
  included : shouldIncludeFile host config (RepoMap.lastName path) (base.join path)
    (asPosix path) = true

/-- The files that a search is for. -/
def searched : Set RepoPath :=
  {path | (∃ contents, nodeAt root path = some (.file contents)) ∧
    LetThrough host config base root path}

end Searched

/-! ## The directories on the way -/

section Entering

variable (host : Host) (scanner : Scanner) (base : BasePath) (root : ScanNode)

/-- The text of the patterns of the directory at a path, cut to the byte limit. -/
@[grind] def specAt (dir : RepoPath) : Option Text :=
  match nodeAt root dir with
  | some (.dir _ entries) => specText scanner entries
  | _ => none

/-- The specs from the base down to a directory. -/
def specsDown (dir : RepoPath) : List (RepoPath × Text) :=
  dir.inits.filterMap fun d => (specAt scanner root d).map fun text => (d, text)

/-- The walk goes from a directory into the directory with a name. -/
def Enters
    (dir : RepoPath)
    (name : FileName) : Prop :=
  ∃ entries node, nodeAt root dir = some (.dir true entries) ∧
    tooDeep scanner.config dir = false ∧ findEntry name entries = some node ∧
      descends host scanner base dir (specsDown scanner root dir) name node = true

/-- The walk goes from a directory all the way down a path. -/
@[grind] def EntersBelow : RepoPath → RepoPath → Prop
  | _, [] => True
  | dir, name :: rest =>
      Enters host scanner base root dir name ∧ EntersBelow (dir ++ [name]) rest

end Entering

section Directories

variable {host : Host} {scanner : Scanner} {base : BasePath} {root : ScanNode}

theorem specAt_eq
    {dir : RepoPath}
    {listable : Bool}
    {entries : ScanEntries}
    (h : nodeAt root dir = some (.dir listable entries)) :
    specAt scanner root dir = specText scanner entries := by
  rw [specAt, h]

theorem specsDown_nil
    {listable : Bool}
    {entries : ScanEntries}
    (h : nodeAt root [] = some (.dir listable entries)) :
    specsDown scanner root [] = pushSpec [] (specText scanner entries) [] := by
  rw [specsDown, pushSpec, List.inits, List.filterMap_cons, specAt_eq h]
  cases specText scanner entries <;> rfl

theorem specsDown_snoc
    {dir : RepoPath}
    {name : FileName}
    {listable : Bool}
    {entries : ScanEntries}
    (h : nodeAt root (dir ++ [name]) = some (.dir listable entries)) :
    specsDown scanner root (dir ++ [name]) =
      pushSpec (dir ++ [name]) (specText scanner entries) (specsDown scanner root dir) := by
  have hinits : (dir ++ [name]).inits = dir.inits ++ [dir ++ [name]] := by
    simp [List.inits_append]
  rw [specsDown, hinits, List.filterMap_append, pushSpec, specsDown, List.filterMap_cons,
    specAt_eq h]
  cases specText scanner entries <;> rfl

theorem mem_entryArrivals_iff
    (path : RepoPath)
    (stack : List (RepoPath × Text))
    (entries : ScanEntries)
    (b : Arrival) :
    b ∈ entryArrivals host scanner base path stack entries ↔
      ∃ entry ∈ entries, descends host scanner base path stack entry.1 entry.2 = true ∧
        b ∈ arrivals host scanner base (path ++ [entry.1]) stack entry.2 := by
  induction entries with
  | nil => simp [entryArrivals]
  | cons entry entries ih =>
      rw [entryArrivals, List.mem_append, ih, List.exists_mem_cons_iff]
      split
      · simp_all
      · simp_all

/-- Below a node that is no directory there is none. -/
theorem not_dir_below
    {node : ScanNode}
    {path : RepoPath}
    (hnode : nodeAt root path = some node)
    (hno : ∀ listable entries, node ≠ .dir listable entries)
    {P : RepoPath → Bool → ScanEntries → Prop} :
    ¬ ∃ rest listable entries, nodeAt root (path ++ rest) = some (.dir listable entries) ∧
      P rest listable entries := by
  rintro ⟨rest, listable, entries, hdir, -⟩
  cases rest with
  | nil =>
      rw [List.append_nil, hnode] at hdir
      exact hno _ _ (Option.some.inj hdir)
  | cons name rest =>
      obtain ⟨l, es, hdir'⟩ := exists_dir_of_nodeAt_append hdir
      exact hno _ _ (Option.some.inj (hnode.symm.trans hdir'))

/-- The walk comes to the directories below a node into which it goes all the way down. -/
theorem mem_arrivals_iff
    {node : ScanNode}
    {path : RepoPath}
    {stack : List (RepoPath × Text)}
    (hnode : nodeAt root path = some node)
    (hdistinct : nodeDistinct node)
    (hstack : ∀ listable entries, node = .dir listable entries →
      pushSpec path (specText scanner entries) stack = specsDown scanner root path)
    (b : Arrival) :
    b ∈ arrivals host scanner base path stack node ↔
      ∃ rest listable entries, nodeAt root (path ++ rest) = some (.dir listable entries) ∧
        b = ⟨path ++ rest, specsDown scanner root (path ++ rest), listable, entries⟩ ∧
          EntersBelow host scanner base root path rest := by
  induction node using ScanNode.induct generalizing path stack with
  | file contents => exact iff_of_false (by simp [arrivals]) (not_dir_below hnode (by simp))
  | special => exact iff_of_false (by simp [arrivals]) (not_dir_below hnode (by simp))
  | link target => exact iff_of_false (by simp [arrivals]) (not_dir_below hnode (by simp))
  | dir listable entries ih =>
      rw [nodeDistinct, entriesDistinct_iff] at hdistinct
      have hchild : ∀ entry ∈ entries, nodeAt root (path ++ [entry.1]) = some entry.2 := by
        intro entry hentry
        rw [nodeAt_snoc hnode]
        exact (findEntry_eq_some_iff hdistinct.1 _ _).mpr hentry
      have hih : ∀ entry ∈ entries, b ∈ arrivals host scanner base (path ++ [entry.1])
          (specsDown scanner root path) entry.2 ↔
          ∃ rest listable entries,
            nodeAt root (path ++ [entry.1] ++ rest) = some (.dir listable entries) ∧
              b = ⟨path ++ [entry.1] ++ rest, specsDown scanner root (path ++ [entry.1] ++ rest),
                listable, entries⟩ ∧
                EntersBelow host scanner base root (path ++ [entry.1]) rest := by
        intro entry hentry
        refine ih entry hentry (hchild entry hentry) (hdistinct.2 entry hentry) ?_
        intro l es hdir
        exact (specsDown_snoc (hdir ▸ hchild entry hentry)).symm
      rw [arrivals, hstack listable entries rfl, List.mem_cons]
      constructor
      · rintro (rfl | hb)
        · exact ⟨[], listable, entries, by rw [List.append_nil, hnode],
            by rw [List.append_nil], trivial⟩
        · cases hopen : listable && !tooDeep scanner.config path with
          | false => simp [hopen] at hb
          | true =>
              rw [hopen, if_pos rfl, mem_entryArrivals_iff] at hb
              obtain ⟨entry, hentry, hdescends, hb⟩ := hb
              obtain ⟨rest, l, es, hdir, hb, hbelow⟩ := (hih entry hentry).mp hb
              obtain ⟨rfl, hdeep⟩ := Bool.and_eq_true_iff.mp hopen
              refine ⟨entry.1 :: rest, l, es, ?_, ?_, ?_, hbelow⟩
              · simpa using hdir
              · simpa using hb
              · exact ⟨entries, entry.2, hnode, by simpa using hdeep,
                  (findEntry_eq_some_iff hdistinct.1 _ _).mpr hentry, hdescends⟩
      · rintro ⟨rest, l, es, hdir, rfl, hbelow⟩
        cases rest with
        | nil =>
            rw [List.append_nil, hnode] at hdir
            obtain ⟨rfl, rfl⟩ := ScanNode.dir.inj (Option.some.inj hdir)
            exact Or.inl (by rw [List.append_nil])
        | cons name rest =>
            obtain ⟨⟨es', node, hnode', hdeep, hfound, hdescends⟩, hbelow⟩ := hbelow
            obtain ⟨rfl, rfl⟩ := ScanNode.dir.inj (Option.some.inj (hnode.symm.trans hnode'))
            have hentry := (findEntry_eq_some_iff hdistinct.1 _ _).mp hfound
            refine Or.inr ?_
            rw [hdeep, Bool.not_false, Bool.and_self, if_pos rfl, mem_entryArrivals_iff]
            refine ⟨(name, node), hentry, hdescends, (hih _ hentry).mpr ⟨rest, l, es, ?_, ?_, hbelow⟩⟩
            · simpa using hdir
            · simp

/-- What the walk comes to below a node lies below it. -/
theorem path_prefix_of_mem_arrivals
    {node : ScanNode}
    {path : RepoPath}
    {stack : List (RepoPath × Text)}
    {b : Arrival}
    (hb : b ∈ arrivals host scanner base path stack node) :
    path <+: b.path := by
  induction node using ScanNode.induct generalizing path stack with
  | file contents => simp [arrivals] at hb
  | special => simp [arrivals] at hb
  | link target => simp [arrivals] at hb
  | dir listable entries ih =>
      rw [arrivals, List.mem_cons] at hb
      rcases hb with rfl | hb
      · exact List.prefix_rfl
      · split at hb
        · obtain ⟨entry, hentry, -, hb⟩ := (mem_entryArrivals_iff _ _ _ _).mp hb
          exact (List.prefix_append path [entry.1]).trans (ih entry hentry hb)
        · cases hb

/-- What the walk comes to below an entry lies below its name. -/
theorem exists_entry_of_mem_entryArrivals
    {path : RepoPath}
    {stack : List (RepoPath × Text)}
    {entries : ScanEntries}
    {b : Arrival}
    (hb : b ∈ entryArrivals host scanner base path stack entries) :
    ∃ entry ∈ entries, path ++ [entry.1] <+: b.path := by
  obtain ⟨entry, hentry, -, hb⟩ := (mem_entryArrivals_iff _ _ _ _).mp hb
  exact ⟨entry, hentry, path_prefix_of_mem_arrivals hb⟩

/-- Names after the same path are told apart by what lies below them. -/
theorem name_eq_of_start
    {path below : RepoPath}
    {name name' : FileName}
    (h : path ++ [name] <+: below)
    (h' : path ++ [name'] <+: below) :
    name = name' := by
  have heq := List.prefix_of_prefix_length_le h h' (by simp)
  simpa using heq.eq_of_length (by simp)

/-- The walk comes to no directory twice. -/
theorem nodup_arrivals
    {node : ScanNode}
    (hdistinct : nodeDistinct node)
    (path : RepoPath)
    (stack : List (RepoPath × Text)) :
    ((arrivals host scanner base path stack node).map Arrival.path).Nodup := by
  induction node using ScanNode.induct generalizing path stack with
  | file contents => simp [arrivals]
  | special => simp [arrivals]
  | link target => simp [arrivals]
  | dir listable entries ih =>
      rw [nodeDistinct, entriesDistinct_iff] at hdistinct
      have hentries : ∀ es, List.Sublist es entries → ∀ stack,
          ((entryArrivals host scanner base path stack es).map Arrival.path).Nodup := by
        intro es hes
        induction es with
        | nil => simp [entryArrivals]
        | cons entry es ihes =>
            intro stack
            have hentry : entry ∈ entries := hes.subset List.mem_cons_self
            have hnames := (hes.map Prod.fst).nodup hdistinct.1
            rw [List.map_cons, List.nodup_cons] at hnames
            rw [entryArrivals, List.map_append, List.nodup_append']
            refine ⟨?_, ihes ((List.sublist_cons_self _ _).trans hes) stack, ?_⟩
            · split
              · exact ih entry hentry (hdistinct.2 entry hentry) _ _
              · simp
            · rintro _ hhere hthere
              obtain ⟨b, hb, rfl⟩ := List.mem_map.mp hhere
              obtain ⟨b', hb', hpath⟩ := List.mem_map.mp hthere
              obtain ⟨entry', hentry', hstart⟩ := exists_entry_of_mem_entryArrivals hb'
              split at hb
              · have hname := name_eq_of_start (path_prefix_of_mem_arrivals hb) (hpath ▸ hstart)
                exact hnames.1 (hname ▸ List.mem_map_of_mem hentry')
              · cases hb
      rw [arrivals, List.map_cons, List.nodup_cons]
      constructor
      · intro hmem
        obtain ⟨b, hb, hpath⟩ := List.mem_map.mp hmem
        split at hb
        · obtain ⟨entry, -, hstart⟩ := exists_entry_of_mem_entryArrivals hb
          have hlength := (hpath ▸ hstart).length_le
          simp at hlength
        · cases hb
      · split
        · exact hentries entries (List.Sublist.refl _) _
        · simp

theorem mem_files_iff
    (b : Arrival)
    (path : RepoPath) :
    path ∈ b.files host scanner base ↔
      b.listable = true ∧ tooDeep scanner.config b.path = false ∧
        ∃ entry ∈ b.entries, selects host scanner base b.path b.stack entry.1 entry.2 = true ∧
          path = b.path ++ [entry.1] := by
  rw [Arrival.files]
  cases hopen : b.listable && !tooDeep scanner.config b.path with
  | false =>
      refine iff_of_false (by simp) ?_
      rintro ⟨hlist, hdeep, -⟩
      simp [hlist, hdeep] at hopen
  | true =>
      obtain ⟨hlist, hdeep⟩ := Bool.and_eq_true_iff.mp hopen
      rw [if_pos rfl, yields, List.mem_map]
      constructor
      · rintro ⟨entry, hentry, rfl⟩
        obtain ⟨hmem, hselects⟩ := List.mem_filter.mp hentry
        exact ⟨hlist, by simpa using hdeep, entry, hmem, hselects, rfl⟩
      · rintro ⟨-, -, entry, hmem, hselects, rfl⟩
        exact ⟨entry, List.mem_filter.mpr ⟨hmem, hselects⟩, rfl⟩

/-- The directories a walk comes to from the base. -/
theorem mem_arrivals_root_iff
    (hdistinct : nodeDistinct root)
    (b : Arrival) :
    b ∈ arrivals host scanner base [] [] root ↔
      ∃ dir listable entries, nodeAt root dir = some (.dir listable entries) ∧
        b = ⟨dir, specsDown scanner root dir, listable, entries⟩ ∧
          EntersBelow host scanner base root [] dir := by
  have hroot : nodeAt root [] = some root := by rw [nodeAt]
  refine mem_arrivals_iff hroot hdistinct ?_ b
  intro listable entries hdir
  exact (specsDown_nil (hroot.trans (congrArg some hdir))).symm

theorem nodup_yields
    {path : RepoPath}
    {stack : List (RepoPath × Text)}
    {entries : ScanEntries}
    (hnames : (entries.map Prod.fst).Nodup) :
    (yields host scanner base path stack entries).Nodup := by
  have hyields : yields host scanner base path stack entries =
      ((entries.filter fun entry => selects host scanner base path stack entry.1 entry.2).map
        Prod.fst).map fun name => path ++ [name] := by
    rw [yields, List.map_map]
    rfl
  rw [hyields]
  refine List.Nodup.map ?_ ((List.filter_sublist.map Prod.fst).nodup hnames)
  intro name name' h
  simpa using h

/-- No file is yielded twice. -/
theorem nodup_files (hdistinct : nodeDistinct root) :
    ((arrivals host scanner base [] [] root).flatMap (Arrival.files host scanner base)).Nodup := by
  have hpaths : ((arrivals host scanner base [] [] root).map Arrival.path).Nodup :=
    nodup_arrivals hdistinct [] []
  refine List.nodup_flatMap.mpr ⟨?_, ?_⟩
  · intro b hb
    obtain ⟨dir, listable, entries, hdir, rfl, -⟩ := (mem_arrivals_root_iff hdistinct b).mp hb
    have hnames := (nodeDistinct_of_nodeAt hdistinct hdir).1
    rw [Arrival.files]
    split
    · exact nodup_yields hnames
    · exact List.nodup_nil
  · refine hpaths.of_map.pairwise_of_forall_ne fun b hb b' hb' hne => ?_
    intro path hpath hpath'
    obtain ⟨-, -, entry, -, -, hhere⟩ := (mem_files_iff b path).mp hpath
    obtain ⟨-, -, entry', -, -, hthere⟩ := (mem_files_iff b' path).mp hpath'
    have heq : b.path = b'.path := (List.append_inj' (hhere.symm.trans hthere) rfl).1
    exact hne (List.inj_on_of_nodup_map hpaths hb hb' heq)

/-! ## Filters on the way and filters on a path -/

theorem foldl_or_eq_findSome?
    {α β : Type}
    (f : α → Option β)
    (l : List α)
    (start : Option β) :
    l.foldl (fun found a => (f a).or found) start = (l.reverse.findSome? f).or start := by
  induction l generalizing start with
  | nil => rfl
  | cons a l ih =>
      rw [List.foldl_cons, ih, List.reverse_cons, List.findSome?_append, List.findSome?_singleton,
        Option.or_assoc]

/-- The specs down to a directory are the texts of the patterns there. -/
def TextsWhole
    (scanner : Scanner)
    (root : ScanNode)
    (dir : RepoPath) : Prop :=
  ∀ d, d <+: dir → specAt scanner root d = ignoreText scanner.config root d

theorem TextsWhole.of_start
    {dir dir' : RepoPath}
    (h : TextsWhole scanner root dir)
    (hstart : dir' <+: dir) :
    TextsWhole scanner root dir' :=
  fun d hd => h d (hd.trans hstart)

/-- The last opinion of the stack is that of the deepest directory with one. -/
theorem pathIgnoredByStack_eq
    {dir : RepoPath}
    (h : TextsWhole scanner root dir)
    (name : FileName)
    (isDir : Bool) :
    pathIgnoredByStack host (dir ++ [name]) isDir (specsDown scanner root dir) =
      (deepestOpinion host scanner.config root (dir ++ [name]) isDir).getD false := by
  rw [pathIgnoredByStack, foldl_or_eq_findSome?, Option.or_none, deepestOpinion,
    List.dropLast_concat, specsDown, ← List.filterMap_reverse]
  rw [← List.head?_filterMap, ← List.head?_filterMap, List.filterMap_filterMap]
  congr 2
  refine List.filterMap_congr fun d hd => ?_
  have hstart := (List.mem_inits _ _).mp (List.mem_reverse.mp hd)
  rw [h d hstart]
  cases ignoreText scanner.config root d <;> rfl

/-- Asking whether there is a spec at all changes nothing. -/
theorem ignored_iff
    {dir : RepoPath}
    (h : TextsWhole scanner root dir)
    (name : FileName)
    (isDir : Bool) :
    (!(specsDown scanner root dir).isEmpty &&
        pathIgnoredByStack host (dir ++ [name]) isDir (specsDown scanner root dir)) = true ↔
      deepestOpinion host scanner.config root (dir ++ [name]) isDir = some true := by
  have hsome : ∀ opinion : Option Bool, opinion.getD false = true ↔ opinion = some true := by
    intro opinion
    cases opinion <;> simp
  rw [← hsome, ← pathIgnoredByStack_eq h]
  cases specsDown scanner root dir <;> simp [pathIgnoredByStack]

theorem descends_iff
    {dir : RepoPath}
    (h : TextsWhole scanner root dir)
    (name : FileName)
    (node : ScanNode) :
    descends host scanner base dir (specsDown scanner root dir) name node = true ↔
      (∃ listable entries, node = .dir listable entries) ∧
        isVisible scanner.config name = true ∧
          shouldDescendDir host scanner.config base (dir ++ [name]) = true ∧
            deepestOpinion host scanner.config root (dir ++ [name]) true ≠ some true := by
  rw [descends, ne_eq, ← ignored_iff h]
  generalize (!(specsDown scanner root dir).isEmpty &&
    pathIgnoredByStack host (dir ++ [name]) true (specsDown scanner root dir)) = ignored
  have hnode : (node.isDir && !node.isSymlink) = true ↔
      ∃ listable entries, node = .dir listable entries := by
    cases node with
    | link target => cases target <;> simp [ScanNode.isDir, ScanNode.isSymlink]
    | _ => simp [ScanNode.isDir, ScanNode.isSymlink]
  simp only [Bool.and_eq_true, Bool.not_eq_true', Bool.not_eq_true] at hnode ⊢
  rw [← hnode]
  tauto

theorem selects_iff
    {dir : RepoPath}
    (h : TextsWhole scanner root dir)
    (name : FileName)
    (node : ScanNode) :
    selects host scanner base dir (specsDown scanner root dir) name node = true ↔
      ((∃ contents, node = .file contents) ∨ node = .special) ∧
        isVisible scanner.config name = true ∧
          deepestOpinion host scanner.config root (dir ++ [name]) false ≠ some true ∧
            shouldIncludeFile host scanner.config name.text (base.join (dir ++ [name]))
              (asPosix (dir ++ [name])) = true := by
  rw [selects, ne_eq, ← ignored_iff h]
  generalize (!(specsDown scanner root dir).isEmpty &&
    pathIgnoredByStack host (dir ++ [name]) false (specsDown scanner root dir)) = ignored
  have hnode : (!node.isDir && !node.isSymlink) = true ↔
      (∃ contents, node = .file contents) ∨ node = .special := by
    cases node with
    | link target => cases target <;> simp [ScanNode.isDir, ScanNode.isSymlink]
    | _ => simp [ScanNode.isDir, ScanNode.isSymlink]
  simp only [Bool.and_eq_true, Bool.not_eq_true', Bool.not_eq_true] at hnode ⊢
  rw [← hnode]
  tauto

/-! ## Where a walk that nothing flags goes -/

theorem entersBelow_append
    (dir rest rest' : RepoPath) :
    EntersBelow host scanner base root dir (rest ++ rest') ↔
      EntersBelow host scanner base root dir rest ∧
        EntersBelow host scanner base root (dir ++ rest) rest' := by
  induction rest generalizing dir with
  | nil => simp [EntersBelow]
  | cons name rest ih =>
      rw [List.cons_append, EntersBelow, EntersBelow, ih, and_assoc, List.append_assoc,
        List.singleton_append]

theorem entersBelow_snoc
    (dir : RepoPath)
    (name : FileName) :
    EntersBelow host scanner base root [] (dir ++ [name]) ↔
      EntersBelow host scanner base root [] dir ∧ Enters host scanner base root dir name := by
  rw [entersBelow_append, List.nil_append, EntersBelow, EntersBelow, and_true]

theorem tooDeep_eq_false_iff
    (config : SearchConfig)
    (dir : RepoPath) :
    tooDeep config dir = false ↔
      ∀ depth, config.maxDepth = some depth → (dir.length : ℤ) < depth := by
  rw [tooDeep]
  cases config.maxDepth with
  | none => simp
  | some depth => simp

theorem tooDeep_of_start
    {config : SearchConfig}
    {dir dir' : RepoPath}
    (hstart : dir' <+: dir)
    (h : tooDeep config dir = false) :
    tooDeep config dir' = false := by
  have hlength := hstart.length_le
  rw [tooDeep_eq_false_iff] at h ⊢
  intro depth hdepth
  have hdir := h depth hdepth
  omega

theorem specAt_eq_ignoreText
    {dir : RepoPath}
    {listable : Bool}
    {entries : ScanEntries}
    (hdir : nodeAt root dir = some (.dir listable entries))
    (hshort : overlong scanner entries = false) :
    specAt scanner root dir = ignoreText scanner.config root dir := by
  rw [specAt_eq hdir, specText, ignoreText, hdir]
  rw [overlong] at hshort
  cases hignores : scanner.config.ignoresNothing with
  | true => rfl
  | false =>
      rw [hignores, Bool.not_false, Bool.true_and] at hshort
      cases hfile : ignoreFile entries with
      | absent => simp [hfile]
      | refused => simp [hfile]
      | contents raw =>
          rw [hfile] at hshort
          simp [hfile, of_decide_eq_false hshort]

/-- The directories on the way to a path within the depth limit are above the limit. -/
theorem LetThrough.parent_not_tooDeep
    {config : SearchConfig}
    {dir path : RepoPath}
    (hpath : LetThrough host config base root path)
    (hparent : ∃ below : RepoPath × FileName, dir ++ below.2 :: below.1 = path) :
    tooDeep config dir = false := by
  obtain ⟨⟨rest, name⟩, rfl⟩ := hparent
  rw [tooDeep_eq_false_iff]
  intro depth hdepth
  have hwithin := hpath.within depth hdepth
  simp only [List.length_append, List.length_cons] at hwithin
  omega

/-- What is asked of the directories that a walk comes to for nothing to be flagged. -/
def Unflagging
    (scanner : Scanner)
    (b : Arrival) : Prop :=
  b.listable = true ∧
    (tooDeep scanner.config b.path = false → overlong scanner b.entries = false)

section Clear

variable (hdistinct : nodeDistinct root)
  (hclear : ∀ b ∈ arrivals host scanner base [] [] root, Unflagging scanner b)

include hdistinct hclear

theorem unflagging_of_enters
    {dir : RepoPath}
    {listable : Bool}
    {entries : ScanEntries}
    (hdir : nodeAt root dir = some (.dir listable entries))
    (henters : EntersBelow host scanner base root [] dir) :
    listable = true ∧ (tooDeep scanner.config dir = false → overlong scanner entries = false) :=
  hclear _ ((mem_arrivals_root_iff hdistinct _).mpr ⟨dir, listable, entries, hdir, rfl, henters⟩)

theorem textsWhole_of_enters
    {dir : RepoPath}
    {listable : Bool}
    {entries : ScanEntries}
    (hdir : nodeAt root dir = some (.dir listable entries))
    (hdeep : tooDeep scanner.config dir = false)
    (henters : EntersBelow host scanner base root [] dir) :
    TextsWhole scanner root dir := by
  rintro d ⟨rest, rfl⟩
  have hdir' : ∃ listable entries, nodeAt root d = some (.dir listable entries) := by
    cases rest with
    | nil => exact ⟨listable, entries, by simpa using hdir⟩
    | cons name rest => exact exists_dir_of_nodeAt_append hdir
  obtain ⟨l, es, hd⟩ := hdir'
  have hshort := (unflagging_of_enters hdistinct hclear hd
    ((entersBelow_append _ _ _).mp henters).1).2
  exact specAt_eq_ignoreText hd (hshort (tooDeep_of_start (List.prefix_append _ _) hdeep))

/-- The walk goes all the way to the directory of a path that passes the filters. -/
theorem enters_of_letThrough
    {path : RepoPath}
    {node : ScanNode}
    (hnode : nodeAt root path = some node)
    (hpath : LetThrough host scanner.config base root path)
    {dir : RepoPath}
    (hstart : dir <+: path)
    (hne : dir ≠ path) :
    EntersBelow host scanner base root [] dir := by
  induction dir using List.reverseRecOn with
  | nil => trivial
  | append_singleton dir name ih =>
      have hparent : dir <+: path := (List.prefix_append dir [name]).trans hstart
      obtain ⟨rest, rfl⟩ := hstart
      obtain ⟨name', rest', rfl⟩ : ∃ name' rest', rest = name' :: rest' := by
        cases rest with
        | nil => exact absurd (List.append_nil _).symm hne
        | cons name' rest' => exact ⟨name', rest', rfl⟩
      have hbelow := ih hparent fun heq => by simpa using congrArg List.length heq
      obtain ⟨l, es, hchild⟩ := exists_dir_of_nodeAt_append hnode
      obtain ⟨listable, entries, hdir⟩ := exists_dir_of_nodeAt_append hchild
      obtain ⟨rfl, -⟩ := unflagging_of_enters hdistinct hclear hdir hbelow
      have hdeep : tooDeep scanner.config dir = false :=
        hpath.parent_not_tooDeep ⟨(name' :: rest', name), by simp⟩
      have hwhole := textsWhole_of_enters hdistinct hclear hdir hdeep hbelow
      refine (entersBelow_snoc dir name).mpr ⟨hbelow, entries, .dir l es, hdir, hdeep, ?_, ?_⟩
      · rw [← nodeAt_snoc hdir, hchild]
      · refine (descends_iff hwhole name _).mpr ⟨⟨l, es, rfl⟩, hpath.visible name (by simp), ?_⟩
        exact hpath.dirs _ (List.prefix_append _ _) (by simp) hne

end Clear

/-- What the filters let through on the way to a directory the walk goes down to. -/
theorem step_of_enters
    {dir d : RepoPath}
    {name : FileName}
    (hwhole : TextsWhole scanner root dir)
    (henters : EntersBelow host scanner base root [] dir)
    (hstart : d ++ [name] <+: dir) :
    isVisible scanner.config name = true ∧
      shouldDescendDir host scanner.config base (d ++ [name]) = true ∧
        deepestOpinion host scanner.config root (d ++ [name]) true ≠ some true := by
  obtain ⟨rest, rfl⟩ := hstart
  obtain ⟨entries, node, -, -, -, hdescends⟩ :=
    ((entersBelow_snoc d name).mp ((entersBelow_append _ _ _).mp henters).1).2
  have hd := hwhole.of_start ((List.prefix_append d [name]).trans (List.prefix_append _ _))
  exact ((descends_iff hd name node).mp hdescends).2

/-- The walk goes down to a directory and selects an entry there: its path passes the filters. -/
theorem letThrough_of_enters
    {dir : RepoPath}
    {name : FileName}
    {node : ScanNode}
    (hdeep : tooDeep scanner.config dir = false)
    (hwhole : TextsWhole scanner root dir)
    (henters : EntersBelow host scanner base root [] dir)
    (hselects : selects host scanner base dir (specsDown scanner root dir) name node = true) :
    LetThrough host scanner.config base root (dir ++ [name]) := by
  obtain ⟨-, hvisible, hkept, hincluded⟩ := (selects_iff hwhole name node).mp hselects
  refine ⟨?_, ?_, ?_, hkept, ?_⟩
  · intro depth hdepth
    have hdir := (tooDeep_eq_false_iff _ _).mp hdeep depth hdepth
    rw [List.length_append, List.length_singleton]
    omega
  · intro other hother
    rcases List.mem_append.mp hother with hother | hother
    · obtain ⟨before, after, rfl⟩ := List.append_of_mem hother
      exact (step_of_enters (d := before) hwhole henters ⟨after, by simp⟩).1
    · rw [List.mem_singleton.mp hother]
      exact hvisible
  · intro d hstart hnonempty hne
    have hd := (List.prefix_concat_iff.mp hstart).resolve_left hne
    obtain ⟨parent, last, rfl⟩ := (List.eq_nil_or_concat d).resolve_left hnonempty
    rw [List.concat_eq_append] at hd ⊢
    exact (step_of_enters hwhole henters hd).2
  · simpa [RepoMap.lastName] using hincluded

section Clear

variable (hdistinct : nodeDistinct root)
  (hclear : ∀ b ∈ arrivals host scanner base [] [] root, Unflagging scanner b)

include hdistinct hclear

/-- A walk that nothing flags yields the files and the special entries that pass the filters. -/
theorem mem_files_root_iff
    (hroot : ∃ listable entries, root = .dir listable entries)
    (path : RepoPath) :
    path ∈ (arrivals host scanner base [] [] root).flatMap (Arrival.files host scanner base) ↔
      ((∃ contents, nodeAt root path = some (.file contents)) ∨
        nodeAt root path = some .special) ∧
        LetThrough host scanner.config base root path := by
  rw [List.mem_flatMap]
  constructor
  · rintro ⟨b, hb, hfile⟩
    obtain ⟨dir, listable, entries, hdir, rfl, hbelow⟩ :=
      (mem_arrivals_root_iff hdistinct b).mp hb
    obtain ⟨hlist, hdeep, ⟨name, node⟩, hentry, hselects, rfl⟩ := (mem_files_iff _ _).mp hfile
    have hwhole := textsWhole_of_enters hdistinct hclear hdir hdeep hbelow
    have hnode : nodeAt root (dir ++ [name]) = some node := by
      rw [nodeAt_snoc hdir]
      exact (findEntry_eq_some_iff (nodeDistinct_of_nodeAt hdistinct hdir).1 _ _).mpr hentry
    refine ⟨?_, letThrough_of_enters hdeep hwhole hbelow hselects⟩
    rw [hnode]
    rcases ((selects_iff hwhole name node).mp hselects).1 with ⟨contents, rfl⟩ | rfl
    · exact Or.inl ⟨contents, rfl⟩
    · exact Or.inr rfl
  · rintro ⟨hnode, hpath⟩
    obtain ⟨node, hnode, hkind⟩ : ∃ node, nodeAt root path = some node ∧
        ((∃ contents, node = .file contents) ∨ node = .special) := by
      rcases hnode with ⟨contents, hnode⟩ | hnode
      · exact ⟨_, hnode, Or.inl ⟨contents, rfl⟩⟩
      · exact ⟨_, hnode, Or.inr rfl⟩
    rcases List.eq_nil_or_concat path with rfl | ⟨dir, name, rfl⟩
    · obtain ⟨listable, entries, rfl⟩ := hroot
      rw [nodeAt] at hnode
      obtain rfl := Option.some.inj hnode
      simp at hkind
    rw [List.concat_eq_append] at hnode hpath ⊢
    obtain ⟨listable, entries, hdir⟩ := exists_dir_of_nodeAt_append hnode
    have hbelow := enters_of_letThrough hdistinct hclear hnode hpath (List.prefix_append _ _)
      (by simp)
    have hdeep : tooDeep scanner.config dir = false :=
      hpath.parent_not_tooDeep ⟨([], name), rfl⟩
    have hwhole := textsWhole_of_enters hdistinct hclear hdir hdeep hbelow
    refine ⟨⟨dir, specsDown scanner root dir, listable, entries⟩,
      (mem_arrivals_root_iff hdistinct _).mpr ⟨dir, listable, entries, hdir, rfl, hbelow⟩, ?_⟩
    refine (mem_files_iff _ _).mpr ⟨(unflagging_of_enters hdistinct hclear hdir hbelow).1, hdeep,
      (name, node), ?_, ?_, rfl⟩
    · rw [nodeAt_snoc hdir] at hnode
      exact (findEntry_eq_some_iff (nodeDistinct_of_nodeAt hdistinct hdir).1 _ _).mp hnode
    · have hincluded := hpath.included
      rw [RepoMap.lastName, List.getLast?_append_cons] at hincluded
      exact (selects_iff hwhole name node).mpr
        ⟨hkind, hpath.visible name (by simp), hpath.kept, by simpa using hincluded⟩

end Clear

end Directories

/-! ## A walk that is total and honest -/

section Honest

variable (host : Host) (scanner : Scanner) (base : BasePath) (tree : ScanTree) (signals : Signals)

/-- The walk ends without raising, yields no path twice and, if no truncation signal is set
afterwards, has yielded the files that the search is for. -/
def TotalAndHonest : Prop :=
  ∃ yielded signals',
    walk host scanner base (.directory tree.listable tree.entries) signals =
      some (yielded, signals') ∧
      yielded.Nodup ∧
        (signals'.scanTruncated = false → signals'.gitignoreTruncated = false →
          ∀ path, path ∈ yielded ↔ path ∈ searched host scanner.config base tree.root)

/-- Nothing sets a truncation signal: none is set at the start, every directory that the walk comes
to can be listed, their entries are within the budget and no `.gitignore` that is read is too
long. -/
structure Unflagged : Prop where
  scan : signals.scanTruncated = false
  gitignore : signals.gitignoreTruncated = false
  top : overlong scanner tree.entries = false
  listable : ∀ a ∈ arrivals host scanner base [] [] tree.root, a.listable = true
  budget : ((((arrivals host scanner base [] [] tree.root).map Arrival.count).sum : ℕ) : ℤ) ≤
    scanner.maxScanEntries
  short : ∀ a ∈ arrivals host scanner base [] [] tree.root,
    tooDeep scanner.config a.path = false → overlong scanner a.entries = false

/-- The `.gitignore` entries that the walk comes to can be opened, and if nothing sets a signal, no
special entry passes the filters. -/
structure OpenableAndRegular : Prop where
  top : refuses scanner tree.entries = false
  reached : ∀ a ∈ reached scanner 0 (arrivals host scanner base [] [] tree.root),
    a.raises scanner = false
  regular : Unflagged host scanner base tree signals →
    ∀ path, nodeAt tree.root path = some .special →
      ¬ LetThrough host scanner.config base tree.root path

end Honest

section Results

variable {host : Host} {scanner : Scanner} {base : BasePath} {tree : ScanTree} {signals : Signals}

theorem walk_directory
    (host : Host)
    (scanner : Scanner)
    (base : BasePath)
    (listable : Bool)
    (entries : ScanEntries)
    (signals : Signals) :
    walk host scanner base (.directory listable entries) signals =
      if refuses scanner entries then none
      else
        ((run host scanner base (arrivals host scanner base [] [] (.dir listable entries))
          ⟨signals.noteOverlong (overlong scanner entries), 0, []⟩).final?).map
            fun state => (state.yielded, state.signals) := by
  rw [walk, loadIgnoreSpec_eq]
  cases hrefuses : refuses scanner entries with
  | true => rfl
  | false =>
      rw [if_neg Bool.false_ne_true, if_neg Bool.false_ne_true, Option.bind_some,
        walkDir_known hrefuses _ _ _ _ (Signals.noteOverlong_twice _ _), walkDir_eq_run]

theorem Signals.flagged_eq_false_iff (signals : Signals) :
    signals.flagged = false ↔
      signals.scanTruncated = false ∧ signals.gitignoreTruncated = false := by
  rw [flagged, Bool.or_eq_false_iff]

/-- Whether nothing sets a signal, in terms of the pass over the directories. -/
theorem unflagged_iff :
    Unflagged host scanner base tree signals ↔
      (signals.noteOverlong (overlong scanner tree.entries)).flagged = false ∧
        Clean scanner 0 (arrivals host scanner base [] [] tree.root) := by
  have hne : arrivals host scanner base [] [] tree.root ≠ [] := by
    rw [ScanTree.root, arrivals]
    exact List.cons_ne_nil _ _
  rw [clean_iff hne, Signals.flagged_noteOverlong, Bool.or_eq_false_iff,
    Signals.flagged_eq_false_iff, Nat.zero_add]
  constructor
  · rintro ⟨hscan, hgitignore, hbase, hlistable, hbudget, hshort⟩
    exact ⟨⟨⟨hscan, hgitignore⟩, hbase⟩, hlistable, hbudget, hshort⟩
  · rintro ⟨⟨⟨hscan, hgitignore⟩, hbase⟩, hlistable, hbudget, hshort⟩
    exact ⟨hscan, hgitignore, hbase, hlistable, hbudget, hshort⟩

/-- What an unflagged walk of a tree yields. -/
theorem mem_files_iff_of_unflagged
    (hunflagged : Unflagged host scanner base tree signals)
    (path : RepoPath) :
    path ∈ (arrivals host scanner base [] [] tree.root).flatMap
        (Arrival.files host scanner base) ↔
      ((∃ contents, nodeAt tree.root path = some (.file contents)) ∨
        nodeAt tree.root path = some .special) ∧
        LetThrough host scanner.config base tree.root path :=
  mem_files_root_iff tree.distinct
    (fun b hb => ⟨hunflagged.listable b hb, hunflagged.short b hb⟩)
    ⟨tree.listable, tree.entries, rfl⟩ path

/-- The walk is total and honest exactly if the `.gitignore` entries it comes to can be opened and,
where nothing is flagged, no special entry passes the filters. -/
theorem walk_total_and_honest_iff
    (host : Host)
    (scanner : Scanner)
    (base : BasePath)
    (tree : ScanTree)
    (signals : Signals) :
    TotalAndHonest host scanner base tree signals ↔
      OpenableAndRegular host scanner base tree signals := by
  have hwalk := walk_directory host scanner base tree.listable tree.entries signals
  constructor
  · rintro ⟨yielded, signals', hwalked, -, hexact⟩
    rw [hwalk] at hwalked
    cases hrefuses : refuses scanner tree.entries with
    | true => rw [hrefuses] at hwalked; cases hwalked
    | false =>
        rw [hrefuses, if_neg Bool.false_ne_true] at hwalked
        obtain ⟨final, hfinal, hpair⟩ := Option.map_eq_some_iff.mp hwalked
        obtain ⟨rfl, rfl⟩ := Prod.mk.inj hpair
        refine ⟨hrefuses, ?_, ?_⟩
        · intro a ha
          by_contra hraises
          refine Option.some_ne_none final (hfinal.symm.trans ((run_raises_iff _ _).mpr ?_))
          exact ⟨a, ha, Bool.eq_true_of_not_eq_false hraises⟩
        · intro hunflagged path hspecial hpath
          obtain ⟨hflag, hclean⟩ := unflagged_iff.mp hunflagged
          obtain ⟨hscan, hgitignore⟩ := (Signals.flagged_eq_false_iff _).mp
            ((run_flagged_iff hfinal).mpr ⟨hflag, hclean⟩)
          have hyielded : path ∈ final.yielded := by
            rw [run_yielded hfinal hclean, List.nil_append]
            exact (mem_files_iff_of_unflagged hunflagged path).mpr ⟨Or.inr hspecial, hpath⟩
          obtain ⟨⟨contents, hfile⟩, -⟩ := (hexact hscan hgitignore path).mp hyielded
          cases hfile.symm.trans hspecial
  · rintro ⟨htop, hreached, hregular⟩
    rw [htop, if_neg Bool.false_ne_true] at hwalk
    obtain ⟨final, hfinal⟩ : ∃ final, (run host scanner base
        (arrivals host scanner base [] [] (.dir tree.listable tree.entries))
          ⟨signals.noteOverlong (overlong scanner tree.entries), 0, []⟩).final? = some final := by
      refine Option.ne_none_iff_exists'.mp fun hnone => ?_
      obtain ⟨a, ha, hraises⟩ := (run_raises_iff _ _).mp hnone
      cases (hreached a ha).symm.trans hraises
    refine ⟨final.yielded, final.signals, by rw [hwalk, hfinal]; rfl, ?_, ?_⟩
    · have hsublist := run_yielded_sublist hfinal
      exact hsublist.nodup (nodup_files tree.distinct)
    · intro hscan hgitignore path
      obtain ⟨hflag, hclean⟩ := (run_flagged_iff hfinal).mp
        ((Signals.flagged_eq_false_iff _).mpr ⟨hscan, hgitignore⟩)
      have hunflagged : Unflagged host scanner base tree signals :=
        unflagged_iff.mpr ⟨hflag, hclean⟩
      rw [run_yielded hfinal hclean, List.nil_append]
      refine (mem_files_iff_of_unflagged hunflagged path).trans ?_
      constructor
      · rintro ⟨hfile | hspecial, hpath⟩
        · exact ⟨hfile, hpath⟩
        · exact absurd hpath (hregular hunflagged path hspecial)
      · rintro ⟨hfile, hpath⟩
        exact ⟨Or.inl hfile, hpath⟩

/-- A scanner with the default configuration and limits. -/
def defaultScanner : Scanner where
  config := {
    noIgnore := false
    noIgnoreVcs := false
    noIgnoreFiles := false
    hidden := false
    maxDepth := none
    glob := []
    globCaseInsensitive := false
    fileType := []
    typeNot := [] }
  maxScanEntries := 200000
  gitignoreMaxBytes := 1048576

/-- The signals of a scanner that has not walked. -/
def freshSignals : Signals :=
  ⟨false, none, false, 0, []⟩

/-- A directory with a file and a directory called `.gitignore`. -/
def gitignoreDirectoryTree : ScanTree where
  listable := true
  entries := [(gitignoreName, .dir true []), (⟨['a'], by decide, by decide⟩, .file (some []))]
  distinct := ⟨by decide, ⟨List.nodup_nil, trivial⟩, trivial, trivial⟩

/-- A directory called `.gitignore` makes the walk raise. -/
theorem gitignore_directory_raises :
    ¬ TotalAndHonest ⟨id, fun _ _ => none⟩ defaultScanner ⟨['.'], []⟩ gitignoreDirectoryTree
      freshSignals := by
  rintro ⟨yielded, signals', hwalked, -⟩
  cases hwalked

end Results

end DirectoryScanner
end TensorGrep
