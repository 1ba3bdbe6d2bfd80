import TensorGrep.Index.Build

/-!
# A directory of plain files

`flatTree` is the tree of a directory that holds the given regular files and
nothing else.  It serves to run the model on concrete trees: its entries and
the trigrams of its files are known in closed form (`currentEntries_flatTree`,
`pathHits_flatTree`).
-/

namespace TensorGrep
namespace Index

open Kernel

/-- Distinct names that are names of files. -/
def FlatNames (names : List Text) : Prop :=
  names.Nodup ∧ ∀ n ∈ names, n ≠ [] ∧ '/' ∉ n ∧ n ≠ ['.', '.']

instance (names : List Text) : Decidable (FlatNames names) :=
  inferInstanceAs (Decidable (names.Nodup ∧ ∀ n ∈ names, n ≠ [] ∧ '/' ∉ n ∧ n ≠ ['.', '.']))

/-- The directory itself. -/
def flatRoot : Text := ['/', 'r']

theorem utf8_flatRoot : utf8 flatRoot = [47, 114] := by
  decide

/-- The Unix epoch. -/
def epoch : SystemTime where
  ns := 0
  lower := by norm_num
  upper := by norm_num

/-- The files of a directory. -/
abbrev FlatFiles := List (Text × RegularFile)

/-- What a path below the directory refers to. -/
def flatStat (files : FlatFiles) (path : Bytes) : Option FsNode :=
  if path = utf8 flatRoot then some (.dir epoch 0)
  else
    (files.find? (fun f => joinPath (utf8 flatRoot) (utf8 f.1) = path)).map
      (fun f => .file f.2)

section Names

variable {files : FlatFiles}

theorem slash_not_mem_utf8
    {n : Text}
    (h : '/' ∉ n) :
    slash ∉ utf8 n := by
  intro hmem
  obtain ⟨c, hc, hb⟩ := List.mem_flatMap.mp hmem
  refine asciiByte_not_mem_utf8EncodeChar (show IsAscii '/' by decide) ?_ hb
  rintro rfl
  exact h hc

theorem utf8_eq_nil_iff
    {n : Text} :
    utf8 n = [] ↔ n = [] := by
  constructor
  · intro h
    exact utf8_injective (h.trans utf8_nil.symm)
  · rintro rfl
    rfl

theorem head?_utf8_ne_slash
    {n : Text}
    (h : '/' ∉ n) :
    (utf8 n).head? ≠ some slash := fun hhead =>
  slash_not_mem_utf8 h (List.mem_of_head? hhead)

theorem joinPath_flatRoot_ne
    {n : Text}
    (h : '/' ∉ n) :
    joinPath (utf8 flatRoot) (utf8 n) ≠ utf8 flatRoot := by
  unfold joinPath
  rw [if_neg (head?_utf8_ne_slash h), utf8_flatRoot]
  simp [slash]

/-- A file of the directory is found under its name. -/
theorem flatStat_of_mem
    (hnames : FlatNames (files.map Prod.fst))
    {f : Text × RegularFile}
    (hf : f ∈ files) :
    flatStat files (joinPath (utf8 flatRoot) (utf8 f.1)) = some (.file f.2) := by
  obtain ⟨hnodup, hname⟩ := hnames
  have hslash : ∀ g ∈ files, '/' ∉ g.1 :=
    fun g hg => (hname g.1 (List.mem_map_of_mem hg)).2.1
  unfold flatStat
  rw [if_neg (joinPath_flatRoot_ne (hslash f hf))]
  cases hfind : files.find? (fun g => joinPath (utf8 flatRoot) (utf8 g.1) =
      joinPath (utf8 flatRoot) (utf8 f.1)) with
  | none =>
      have := List.find?_eq_none.mp hfind f hf
      simp at this
  | some g =>
      have hg := List.mem_of_find?_eq_some hfind
      have hsame : joinPath (utf8 flatRoot) (utf8 g.1) =
          joinPath (utf8 flatRoot) (utf8 f.1) := by
        simpa using List.find?_some hfind
      have hpath := utf8_injective (joinPath_injective
        (head?_utf8_ne_slash (hslash g hg)) (head?_utf8_ne_slash (hslash f hf)) hsame)
      rw [List.inj_on_of_nodup_map hnodup hg hf hpath]
      rfl

end Names

/-- The tree of a directory with the given files. -/
def flatTree
    (files : FlatFiles)
    (hnames : FlatNames (files.map Prod.fst)) : Tree where
  canonical := some (utf8 flatRoot)
  stat := flatStat files
  walk _ := files.map (fun f => utf8 f.1)
  walk_nodup _ := by
    have hmap : files.map (fun f => utf8 f.1) = (files.map Prod.fst).map utf8 := by
      rw [List.map_map]
      rfl
    rw [hmap]
    exact hnames.1.map (fun _ _ h => utf8_injective h)
  walk_below_dir root t n m _ _ hmem := by
    obtain ⟨f, hf, hnil⟩ := List.mem_map.mp hmem
    exact (hnames.2 f.1 (List.mem_map_of_mem hf)).1 (utf8_eq_nil_iff.mp hnil)
  walk_of_file root f m hroot hstat := by
    cases hroot
    unfold flatStat at hstat
    rw [if_pos rfl] at hstat
    cases hstat
  walk_of_missing root m hroot hstat := by
    cases hroot
    unfold flatStat at hstat
    rw [if_pos rfl] at hstat
    cases hstat
  walk_isFile root m hroot rel hrel node hnode := by
    cases hroot
    obtain ⟨f, hf, rfl⟩ := List.mem_map.mp hrel
    have hne : utf8 f.1 ≠ [] := fun hnil =>
      (hnames.2 f.1 (List.mem_map_of_mem hf)).1 (utf8_eq_nil_iff.mp hnil)
    rw [if_neg hne, flatStat_of_mem hnames hf] at hnode
    cases hnode
    rfl
  stat_file_slash root f hroot hstat := by
    cases hroot
    unfold flatStat at hstat
    rw [if_pos rfl] at hstat
    cases hstat
  walk_relative m rel hrel := by
    obtain ⟨f, hf, rfl⟩ := List.mem_map.mp hrel
    exact head?_utf8_ne_slash (hnames.2 f.1 (List.mem_map_of_mem hf)).2.1
  walk_confined m rel hrel hdots := by
    obtain ⟨f, hf, rfl⟩ := List.mem_map.mp hrel
    obtain ⟨-, hslash, hne⟩ := hnames.2 f.1 (List.mem_map_of_mem hf)
    have hsplit := splitOn_utf8_of_isAscii (show IsAscii '/' by decide) f.1
    change (utf8 f.1).splitOn slash = _ at hsplit
    rw [hsplit] at hdots
    obtain ⟨piece, hpiece, hutf⟩ := List.mem_map.mp hdots
    have hdot : utf8 ['.', '.'] = [46, 46] := by decide
    rw [← hdot] at hutf
    have hwhole : f.1.splitOn '/' = [f.1] := by
      have := splitOn_append_of_not_mem hslash []
      simpa using this
    rw [hwhole, List.mem_singleton] at hpiece
    exact hne (hpiece.symm.trans (utf8_injective hutf))
  canonical_absolute root hroot := by
    cases hroot
    decide

section Flat

variable {files : FlatFiles} (hnames : FlatNames (files.map Prod.fst))

/-- The entry of a file of the directory. -/
def flatEntry (f : Text × RegularFile) : Option FileEntry :=
  f.2.modified.sinceEpoch.map (fun ns =>
    { path := f.1, mtimeNs := ns, size := (FsNode.file f.2).len, deleted := false })

theorem walkedPath_flatTree
    {f : Text × RegularFile}
    (hf : f ∈ files) :
    (flatTree files hnames).stat (walkedPath (utf8 flatRoot) (utf8 f.1)) =
      some (.file f.2) := by
  have hne : utf8 f.1 ≠ [] := fun hnil =>
    (hnames.2 f.1 (List.mem_map_of_mem hf)).1 (utf8_eq_nil_iff.mp hnil)
  unfold walkedPath
  rw [if_neg hne]
  exact flatStat_of_mem hnames hf

/-- The entries of a directory are those of its files from the epoch on, in order. -/
theorem currentEntries_flatTree :
    currentEntries (flatTree files hnames) flatRoot (files.map (fun f => utf8 f.1)) =
      .ok (files.filterMap flatEntry) := by
  have hsub : ∀ sub : FlatFiles, (∀ f ∈ sub, f ∈ files) →
      currentEntries (flatTree files hnames) flatRoot (sub.map (fun f => utf8 f.1)) =
        .ok (sub.filterMap flatEntry) := by
    intro sub
    induction sub with
    | nil =>
        intro _
        rfl
    | cons f sub ih =>
        intro hmem
        have hf := hmem f (by simp)
        have hrest := ih (fun g hg => hmem g (List.mem_cons_of_mem _ hg))
        have hstat := walkedPath_flatTree hnames hf
        unfold currentEntries collectFileEntries at hrest ⊢
        rw [List.map_cons, List.filterMap_cons, hstat, Option.bind_some]
        cases htime : f.2.modified.sinceEpoch with
        | none =>
            have hentry : flatEntry f = none := by
              simp [flatEntry, htime]
            simp only [FsNode.modified, htime, Option.map_none]
            rw [List.filterMap_cons_none hentry]
            exact hrest
        | some ns =>
            have hentry : flatEntry f = some
                ⟨f.1, ns, (FsNode.file f.2).len, false⟩ := by
              simp [flatEntry, htime]
            simp only [FsNode.modified, htime, Option.map_some]
            rw [List.filterMap_cons_some hentry, mapM_eq_ok_iff]
            refine List.Forall₂.cons ?_ (mapM_eq_ok_iff.mp hrest)
            rw [toFileEntry_eq_ok]
            refine ⟨?_, rfl, rfl, rfl⟩
            have hwalk : utf8 f.1 ∈ (flatTree files hnames).walk false :=
              List.mem_map.mpr ⟨f, hf, rfl⟩
            exact (relativizeEntry_walkedPath rfl hwalk).mpr rfl
  exact hsub files (fun _ h => h)

/-- What extraction finds in a file of the directory. -/
theorem pathHits_flatTree
    {f : Text × RegularFile}
    (hf : f ∈ files)
    (hreadable : f.2.readable = true) :
    pathHits (flatTree files hnames) flatRoot f.1 = extractContent f.2.content := by
  unfold pathHits
  have hstat : (flatTree files hnames).stat
      (joinPath (utf8 flatRoot) (utf8 f.1)) = some (.file f.2) :=
    flatStat_of_mem hnames hf
  rw [hstat]
  simp [extractOrDefault, extractFileTrigrams, FsNode.read, hreadable]

/-- A directory of plain files can be indexed. -/
theorem exists_build_flatTree
    (digest : Bytes → UInt64)
    (m : Bool) :
    ∃ idx, buildWithOptions digest (flatTree files hnames) m
        ((flatTree files hnames).walkRun m) = .ok idx ∧
      idx.canonicalRoot = flatRoot ∧ idx.files = files.filterMap flatEntry := by
  have hentries : currentEntries (flatTree files hnames) flatRoot
      ((flatTree files hnames).walkRun m).full = .ok (files.filterMap flatEntry) :=
    currentEntries_flatTree hnames
  obtain ⟨idx, hbuild, hroot⟩ := exists_build digest rfl hentries
  refine ⟨idx, hbuild, hroot, ?_⟩
  obtain ⟨-, hfiles, -⟩ := buildWithOptions_eq_ok hbuild
  rw [hroot, hentries] at hfiles
  exact (Except.ok.inj hfiles).symm

/-- What lies behind a path other than the directory is one of its files. -/
theorem flatStat_file
    {path : Bytes}
    {f : RegularFile}
    (h : flatStat files path = some (.file f)) :
    ∃ n, (n, f) ∈ files ∧ path = joinPath (utf8 flatRoot) (utf8 n) := by
  unfold flatStat at h
  split_ifs at h
  · cases h
  obtain ⟨g, hg, hnode⟩ := Option.map_eq_some_iff.mp h
  cases hnode
  have hpath : joinPath (utf8 flatRoot) (utf8 g.1) = path := by
    simpa using List.find?_some hg
  exact ⟨g.1, List.mem_of_find?_eq_some hg, hpath.symm⟩

end Flat

/-! ## Small directories -/

theorem flatNames_oneFile (f : RegularFile) :
    FlatNames ([(['a'], f)].map Prod.fst) :=
  (by decide : FlatNames [['a']])

/-- A directory with one file `a`. -/
def oneFileTree (f : RegularFile) : Tree :=
  flatTree [(['a'], f)] (flatNames_oneFile f)

/-- A readable file with the given bytes. -/
def plainFile
    (content : Bytes)
    (h : content.length < 2 ^ 63) : RegularFile where
  modified := epoch
  content := content
  readable := true
  bounded := h

/-- One file `a` that says `foo`. -/
def fooFiles : FlatFiles :=
  [(['a'], plainFile [102, 111, 111, 10] (by decide))]

/-- The file `a` after it has grown, and a new file `b`. -/
def grownFiles : FlatFiles :=
  [(['a'], plainFile [102, 111, 111, 100, 10] (by decide)),
    (['b'], plainFile [98, 97, 114, 10] (by decide))]

theorem flatNames_fooFiles : FlatNames (fooFiles.map Prod.fst) := by
  decide

theorem flatNames_grownFiles : FlatNames (grownFiles.map Prod.fst) := by
  decide

/-- The directory of `fooFiles`. -/
def fooTree : Tree :=
  flatTree fooFiles flatNames_fooFiles

/-- The same directory with `grownFiles`. -/
def grownTree : Tree :=
  flatTree grownFiles flatNames_grownFiles

end Index
end TensorGrep
