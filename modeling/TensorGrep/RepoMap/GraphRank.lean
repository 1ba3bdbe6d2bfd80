import TensorGrep.Kernel.Folds
import TensorGrep.Kernel.InsertionMaps
import TensorGrep.Kernel.RankFlow
import TensorGrep.RepoMap.ImportGraph

/-!
# Graph ranks

`_reverse_importers` gives each file the files that import it.  Along this table
`_personalized_reverse_import_pagerank` lets rank flow from the seeds to their importers.
The ranks of a round are kept in a map, to which every file adds its shares one at a
time; a file that nothing imports gives its rank back to the seeds.

The maps hold the ranks of `flowed` (`rankOf_rankRounds`), so that the ranks of every
round sum to one, and no rank depends on the order of the files.
-/

namespace TensorGrep
namespace RepoMap

open Kernel

/-! ## Reverse importers -/

section ReverseImporters

variable (lower : Text → Text) (imports : SourcePath → List Text)
variable (includeDirectoryIndexAliases : Bool)

/-- `alias_to_files.get(alias)`: the files with an alias. -/
def aliasToFiles
    (allFiles : List SourcePath)
    (name : Text) : List SourcePath :=
  allFiles.filter fun current =>
    ((moduleAliasesForPath lower current).any fun other => other = name) ||
      (includeDirectoryIndexAliases &&
        (reverseImporterExtraAliases lower current).any fun other => other = name)

/-- The table with what a file imports. -/
def addImporter
    (allFiles : List SourcePath)
    (reverse : SourcePath → Finset SourcePath)
    (importer : SourcePath) : SourcePath → Finset SourcePath :=
  (imports importer).foldl (fun reverse importName =>
    (importAliasCandidates lower importName).foldl (fun reverse name =>
      (aliasToFiles lower includeDirectoryIndexAliases allFiles name).foldl
        (fun reverse current =>
          if current = importer then reverse
          else Function.update reverse current (insert importer (reverse current)))
        reverse)
      reverse)
    reverse

/-- The loop over the importers, each of which costs a look at the clock. -/
@[grind] def addImporters
    (expired : ℕ → Bool)
    (allFiles : List SourcePath) : ℕ → (SourcePath → Finset SourcePath) → List SourcePath →
      (SourcePath → Finset SourcePath) × Bool
  | _, reverse, [] => (reverse, false)
  | checks, reverse, importer :: rest =>
      if expired checks then (reverse, true)
      else addImporters expired allFiles (checks + 1)
        (addImporter lower imports includeDirectoryIndexAliases allFiles reverse importer) rest

/-- `_reverse_importers`: the table, and whether the deadline struck. -/
def reverseImporters
    (expired : ℕ → Bool)
    (allFiles : List SourcePath) : (SourcePath → Finset SourcePath) × Bool :=
  addImporters lower imports includeDirectoryIndexAliases expired allFiles 0 (fun _ => ∅) allFiles

/-- An import string of a file names an alias of another file. -/
def NamesAlias
    (allFiles : List SourcePath)
    (importer current : SourcePath) : Prop :=
  current ≠ importer ∧ ∃ importName ∈ imports importer,
    ∃ name ∈ importAliasCandidates lower importName,
      current ∈ aliasToFiles lower includeDirectoryIndexAliases allFiles name

variable {lower imports includeDirectoryIndexAliases} {allFiles : List SourcePath}

/-- What a file adds to the table. -/
theorem mem_addImporter_iff
    {reverse : SourcePath → Finset SourcePath}
    {importer current f : SourcePath} :
    f ∈ addImporter lower imports includeDirectoryIndexAliases allFiles reverse importer current ↔
      f ∈ reverse current ∨ f = importer ∧
        NamesAlias lower imports includeDirectoryIndexAliases allFiles importer current := by
  have hfile : ∀ (reverse : SourcePath → Finset SourcePath) (g f : SourcePath),
      f ∈ (if g = importer then reverse
        else Function.update reverse g (insert importer (reverse g))) current ↔
          f ∈ reverse current ∨ g = current ∧ current ≠ importer ∧ f = importer := by
    intro reverse g f
    by_cases hg : g = current
    · subst hg
      by_cases himporter : g = importer
      · simp [himporter]
      · simp [himporter, or_comm]
    · split
      · simp [hg]
      · simp [Function.update_of_ne (Ne.symm hg), hg]
  have hname := fun (name : Text) (reverse : SourcePath → Finset SourcePath) (f : SourcePath) =>
    mem_foldl_iff (fun r : SourcePath → Finset SourcePath => r current)
      (fun g f => g = current ∧ current ≠ importer ∧ f = importer) hfile
      (aliasToFiles lower includeDirectoryIndexAliases allFiles name) reverse f
  have himport := fun (importName : Text) (reverse : SourcePath → Finset SourcePath)
      (f : SourcePath) =>
    mem_foldl_iff (fun r : SourcePath → Finset SourcePath => r current) _
      (fun reverse name f => hname name reverse f)
      (importAliasCandidates lower importName) reverse f
  have hall := mem_foldl_iff (fun r : SourcePath → Finset SourcePath => r current) _
    (fun reverse importName f => himport importName reverse f) (imports importer) reverse f
  rw [addImporter, hall, NamesAlias]
  refine or_congr_right ?_
  constructor
  · rintro ⟨importName, hstring, name, hcandidate, g, hg, rfl, hne, hf⟩
    exact ⟨hf, hne, importName, hstring, name, hcandidate, hg⟩
  · rintro ⟨hf, hne, importName, hstring, name, hcandidate, hg⟩
    exact ⟨importName, hstring, name, hcandidate, current, hg, rfl, hne, hf⟩

/-- The importers of a table come from the files, and no file imports itself. -/
theorem mem_addImporters
    {expired : ℕ → Bool}
    {files : List SourcePath}
    {checks : ℕ}
    {reverse : SourcePath → Finset SourcePath}
    {f current : SourcePath}
    (hf : f ∈ (addImporters lower imports includeDirectoryIndexAliases expired allFiles checks
      reverse files).1 current) :
    f ∈ reverse current ∨ f ∈ files ∧
      NamesAlias lower imports includeDirectoryIndexAliases allFiles f current := by
  induction files generalizing checks reverse with
  | nil => exact Or.inl hf
  | cons importer rest ih =>
      rw [addImporters] at hf
      split at hf
      · exact Or.inl hf
      · rcases ih hf with hadded | ⟨hrest, hnames⟩
        · rcases mem_addImporter_iff.mp hadded with hold | ⟨rfl, hnames⟩
          · exact Or.inl hold
          · exact Or.inr ⟨List.mem_cons_self, hnames⟩
        · exact Or.inr ⟨List.mem_cons_of_mem _ hrest, hnames⟩

theorem mem_addImporters_of_not_expired
    {files : List SourcePath}
    {checks : ℕ}
    {reverse : SourcePath → Finset SourcePath}
    {f current : SourcePath} :
    f ∈ (addImporters lower imports includeDirectoryIndexAliases (fun _ => false) allFiles checks
        reverse files).1 current ↔
      f ∈ reverse current ∨ f ∈ files ∧
        NamesAlias lower imports includeDirectoryIndexAliases allFiles f current := by
  induction files generalizing checks reverse with
  | nil => simp [addImporters]
  | cons importer rest ih =>
      rw [addImporters, if_neg Bool.false_ne_true, ih, mem_addImporter_iff, List.mem_cons]
      constructor
      · rintro ((hold | ⟨rfl, hnames⟩) | ⟨hrest, hnames⟩)
        · exact Or.inl hold
        · exact Or.inr ⟨Or.inl rfl, hnames⟩
        · exact Or.inr ⟨Or.inr hrest, hnames⟩
      · rintro (hold | ⟨rfl | hrest, hnames⟩)
        · exact Or.inl (Or.inl hold)
        · exact Or.inl (Or.inr ⟨rfl, hnames⟩)
        · exact Or.inr ⟨hrest, hnames⟩

/-- The importers of a file are among the files. -/
theorem reverseImporters_subset
    (expired : ℕ → Bool)
    (current : SourcePath) :
    (reverseImporters lower imports includeDirectoryIndexAliases expired allFiles).1 current ⊆
      allFiles.toFinset := by
  intro f hf
  rcases mem_addImporters hf with hnone | ⟨hfile, -⟩
  · exact absurd hnone (Finset.notMem_empty f)
  · exact List.mem_toFinset.mpr hfile

/-- The table of a whole run does not depend on the order of the files. -/
theorem reverseImporters_eq_of_perm
    {files : List SourcePath}
    (hperm : files.Perm allFiles) :
    (reverseImporters lower imports includeDirectoryIndexAliases (fun _ => false) files).1 =
      (reverseImporters lower imports includeDirectoryIndexAliases (fun _ => false)
        allFiles).1 := by
  funext current
  ext f
  rw [reverseImporters, reverseImporters, mem_addImporters_of_not_expired,
    mem_addImporters_of_not_expired, hperm.mem_iff]
  simp only [NamesAlias, aliasToFiles, List.mem_filter, hperm.mem_iff]

end ReverseImporters

/-! ## Retained seeds -/

section Ranks

universe u

variable {File : Type u} [LinearOrder File]

/-- `_GRAPH_PAGERANK_SEED_FILE_LIMIT`. -/
def graphPagerankSeedFileLimit : ℕ := 64

/-- The loop over the seeds: what is not a file or comes again is left out. -/
@[grind] def retainSeeds
    (allFiles : List File) : List File → List File → List File
  | uniqueSeeds, [] => uniqueSeeds
  | uniqueSeeds, current :: rest =>
      if current ∉ allFiles ∨ current ∈ uniqueSeeds then retainSeeds allFiles uniqueSeeds rest
      else if graphPagerankSeedFileLimit ≤ (uniqueSeeds ++ [current]).length then
        uniqueSeeds ++ [current]
      else retainSeeds allFiles (uniqueSeeds ++ [current]) rest

/-- The seeds that are retained. -/
def retainedSeeds
    (seedFiles allFiles : List File) : List File :=
  retainSeeds allFiles [] seedFiles

/-- What is retained are distinct files, and no more than the limit. -/
structure SeedsOf
    (allFiles seeds : List File) : Prop where
  nodup : seeds.Nodup
  files : ∀ seed ∈ seeds, seed ∈ allFiles
  limit : seeds.length ≤ graphPagerankSeedFileLimit

theorem seedsOf_retainSeeds
    {allFiles uniqueSeeds : List File}
    (h : SeedsOf allFiles uniqueSeeds)
    (hroom : uniqueSeeds.length < graphPagerankSeedFileLimit)
    (seedFiles : List File) :
    SeedsOf allFiles (retainSeeds allFiles uniqueSeeds seedFiles) := by
  induction seedFiles generalizing uniqueSeeds with
  | nil => exact h
  | cons current rest ih =>
      rw [retainSeeds]
      split
      · exact ih h hroom
      · next hnew =>
          rw [not_or, not_not] at hnew
          have hlonger : SeedsOf allFiles (uniqueSeeds ++ [current]) := by
            refine ⟨?_, ?_, ?_⟩
            · rw [← List.concat_eq_append]
              exact h.nodup.concat hnew.2
            · intro seed hseed
              rcases List.mem_append.mp hseed with hold | hlast
              · exact h.files seed hold
              · exact List.mem_singleton.mp hlast ▸ hnew.1
            · rw [List.length_append, List.length_singleton]
              omega
          split
          · exact hlonger
          · next hshort => exact ih hlonger (not_le.mp hshort)

/-- A seed that is retained stays. -/
theorem prefix_retainSeeds
    (allFiles uniqueSeeds seedFiles : List File) :
    uniqueSeeds <+: retainSeeds allFiles uniqueSeeds seedFiles := by
  induction seedFiles generalizing uniqueSeeds with
  | nil => exact List.prefix_refl _
  | cons current rest ih =>
      rw [retainSeeds]
      split
      · exact ih uniqueSeeds
      · split
        · exact List.prefix_append _ _
        · exact (List.prefix_append _ _).trans (ih _)

theorem seedsOf_retainedSeeds
    (seedFiles allFiles : List File) :
    SeedsOf allFiles (retainedSeeds seedFiles allFiles) :=
  seedsOf_retainSeeds
    ⟨List.nodup_nil, fun _ h => absurd h List.not_mem_nil, Nat.zero_le _⟩ (Nat.succ_pos 63)
    seedFiles

/-- The first seed that is a file is retained. -/
theorem retainedSeeds_ne_nil
    {seedFiles allFiles : List File}
    (h : ∃ seed ∈ seedFiles, seed ∈ allFiles) :
    retainedSeeds seedFiles allFiles ≠ [] := by
  rw [retainedSeeds]
  induction seedFiles with
  | nil =>
      obtain ⟨seed, hnone, -⟩ := h
      cases hnone
  | cons current rest ih =>
      rw [retainSeeds]
      split
      · next hskip =>
          have hforeign := hskip.resolve_right List.not_mem_nil
          obtain ⟨seed, hseed, hfile⟩ := h
          rcases List.mem_cons.mp hseed with rfl | hrest
          · exact absurd hfile hforeign
          · exact ih ⟨seed, hrest, hfile⟩
      · split
        · exact List.cons_ne_nil _ _
        · intro hnone
          have hkept := prefix_retainSeeds allFiles ([] ++ [current]) rest
          rw [hnone] at hkept
          exact absurd (List.prefix_nil.mp hkept) (List.cons_ne_nil _ _)

theorem retainedSeeds_eq_of_perm
    {files allFiles : List File}
    (seedFiles : List File)
    (hperm : files.Perm allFiles) :
    retainedSeeds seedFiles files = retainedSeeds seedFiles allFiles := by
  have hall : ∀ uniqueSeeds, retainSeeds files uniqueSeeds seedFiles =
      retainSeeds allFiles uniqueSeeds seedFiles := by
    induction seedFiles with
    | nil => exact fun _ => rfl
    | cons current rest ih =>
        intro uniqueSeeds
        simp only [retainSeeds, hperm.mem_iff, ih]
  exact hall []

/-! ## Rounds -/

/-- `ranks.get(current, 0.0)`. -/
def rankOf
    (ranks : List (File × ℚ))
    (current : File) : ℚ :=
  (ranks.lookup current).getD 0

/-- `personalization[current]`: the seeds have equal weights. -/
def personalization
    (uniqueSeeds : List File)
    (current : File) : ℚ :=
  if current ∈ uniqueSeeds then 1 / uniqueSeeds.length else 0

/-- A share is added to a rank. -/
def addShare
    (share : ℚ)
    (updated : List (File × ℚ))
    (current : File) : List (File × ℚ) :=
  upsert current (fun old => old.getD 0 + share) updated

/-- One file gives its rank to its importers, or back to the seeds. -/
def passRank
    (alpha : ℚ)
    (uniqueSeeds : List File)
    (reverseImporters : File → Finset File)
    (ranks updated : List (File × ℚ))
    (current : File) : List (File × ℚ) :=
  let outgoing := (reverseImporters current).sort (· ≤ ·)
  if outgoing ≠ [] then
    outgoing.foldl (addShare (alpha * rankOf ranks current / outgoing.length)) updated
  else
    uniqueSeeds.foldl (addShare (alpha * rankOf ranks current / uniqueSeeds.length)) updated

/-- One iteration. -/
def rankRound
    (alpha : ℚ)
    (uniqueSeeds allFiles : List File)
    (reverseImporters : File → Finset File)
    (ranks : List (File × ℚ)) : List (File × ℚ) :=
  allFiles.foldl (passRank alpha uniqueSeeds reverseImporters ranks)
    (allFiles.map fun current => (current, (1 - alpha) * personalization uniqueSeeds current))

/-- The iterations, each of which costs a look at the clock. -/
@[grind] def rankRounds
    (expired : ℕ → Bool)
    (alpha : ℚ)
    (uniqueSeeds allFiles : List File)
    (reverseImporters : File → Finset File) :
    ℕ → ℕ → List (File × ℚ) → Option (List (File × ℚ))
  | _, 0, ranks => some ranks
  | checks, iterations + 1, ranks =>
      if expired checks then none
      else rankRounds expired alpha uniqueSeeds allFiles reverseImporters (checks + 1) iterations
        (rankRound alpha uniqueSeeds allFiles reverseImporters ranks)

/-- `_personalized_reverse_import_pagerank`: the positive ranks, and whether the deadline
struck. -/
@[grind] def personalizedReverseImportPagerank
    (expired : ℕ → Bool)
    (alpha : ℚ)
    (iterations : ℕ)
    (seedFiles allFiles : List File)
    (reverseImporters : File → Finset File) : List (File × ℚ) × Bool :=
  let uniqueSeeds := retainedSeeds seedFiles allFiles
  if seedFiles = [] ∨ uniqueSeeds = [] then ([], false)
  else
    match rankRounds expired alpha uniqueSeeds allFiles reverseImporters 0 iterations
        (allFiles.map fun current => (current, personalization uniqueSeeds current)) with
    | none => ([], true)
    | some ranks => (ranks.filter fun e => 0 < e.2, false)

/-- The ranks after some iterations. -/
@[grind] def ranksAfter
    (alpha : ℚ)
    (uniqueSeeds allFiles : List File)
    (reverseImporters : File → Finset File) : ℕ → List (File × ℚ)
  | 0 => allFiles.map fun current => (current, personalization uniqueSeeds current)
  | n + 1 => rankRound alpha uniqueSeeds allFiles reverseImporters
      (ranksAfter alpha uniqueSeeds allFiles reverseImporters n)

/-- The iterations go on until the deadline strikes. -/
theorem rankRounds_ranksAfter
    (expired : ℕ → Bool)
    (alpha : ℚ)
    (uniqueSeeds allFiles : List File)
    (reverseImporters : File → Finset File)
    (n checks : ℕ) :
    rankRounds expired alpha uniqueSeeds allFiles reverseImporters checks n
        (ranksAfter alpha uniqueSeeds allFiles reverseImporters checks) =
      if (List.range' checks n).any expired then none
      else some (ranksAfter alpha uniqueSeeds allFiles reverseImporters (checks + n)) := by
  induction n generalizing checks with
  | zero => rfl
  | succ n ih =>
      rw [rankRounds, List.range'_succ, List.any_cons, ← ranksAfter, ih, Nat.add_assoc,
        Nat.add_comm 1 n]
      cases expired checks with
      | true => rfl
      | false => rfl

/-! ## The maps hold the ranks that flow -/

section Flow

variable {alpha : ℚ} {uniqueSeeds allFiles : List File} {reverseImporters : File → Finset File}
variable {ranks updated : List (File × ℚ)}

theorem rankOf_map
    (g : File → ℚ)
    (files : List File)
    (v : File) :
    rankOf (files.map fun f => (f, g f)) v = if v ∈ files then g v else 0 := by
  induction files with
  | nil => rfl
  | cons f files ih =>
      rw [rankOf] at ih ⊢
      rw [List.map_cons, List.lookup_cons]
      by_cases hv : v = f
      · subst hv
        simp
      · have hne : (v == f) = false := beq_false_of_ne hv
        rw [hne, ih]
        simp only [List.mem_cons, hv, false_or]

theorem rankOf_addShare
    (share : ℚ)
    (updated : List (File × ℚ))
    (f v : File) :
    rankOf (addShare share updated f) v = rankOf updated v + if f = v then share else 0 := by
  rw [rankOf, addShare, lookup_upsert, rankOf]
  by_cases hv : v = f
  · subst hv
    simp
  · rw [if_neg hv, if_neg (Ne.symm hv), add_zero]

/-- Equal shares for distinct files. -/
theorem rankOf_foldl_addShare
    (share : ℚ)
    {files : List File}
    (hfiles : files.Nodup)
    (updated : List (File × ℚ))
    (v : File) :
    rankOf (files.foldl (addShare share) updated) v =
      rankOf updated v + if v ∈ files then share else 0 := by
  rw [foldl_eq_add_sum (fun m : List (File × ℚ) => rankOf m v) (fun f => if f = v then share else 0)
    (fun m f => rankOf_addShare share m f v), ← List.sum_toFinset _ hfiles, Finset.sum_ite_eq']
  simp only [List.mem_toFinset]

/-- What a file passes on to another one. -/
theorem rankOf_passRank
    (hseeds : uniqueSeeds.Nodup)
    (u v : File) :
    rankOf (passRank alpha uniqueSeeds reverseImporters ranks updated u) v =
      rankOf updated v +
        alpha * passedOn reverseImporters uniqueSeeds.toFinset (rankOf ranks) u v := by
  rw [passRank, passedOn]
  have hempty : (reverseImporters u).sort (· ≤ ·) ≠ [] ↔ (reverseImporters u).Nonempty := by
    rw [← Finset.card_pos, ← Finset.length_sort (· ≤ ·), List.length_pos_iff]
  by_cases hsome : (reverseImporters u).Nonempty
  · rw [if_pos (hempty.mpr hsome), if_pos hsome,
      rankOf_foldl_addShare _ (Finset.sort_nodup _ _), Finset.length_sort, mul_ite, mul_zero,
      mul_div_assoc]
    simp only [Finset.mem_sort]
  · rw [if_neg (fun h => hsome (hempty.mp h)), if_neg hsome, rankOf_foldl_addShare _ hseeds,
      List.toFinset_card_of_nodup hseeds, mul_ite, mul_zero, mul_div_assoc]
    simp only [List.mem_toFinset]

theorem personalization_eq_homeShare
    (hseeds : uniqueSeeds.Nodup)
    (v : File) :
    personalization uniqueSeeds v = homeShare uniqueSeeds.toFinset v := by
  rw [personalization, homeShare, List.toFinset_card_of_nodup hseeds]
  simp only [List.mem_toFinset]

/-- One iteration lets the ranks flow. -/
theorem rankOf_rankRound
    (hfiles : allFiles.Nodup)
    (hseeds : SeedsOf allFiles uniqueSeeds)
    (v : File) :
    rankOf (rankRound alpha uniqueSeeds allFiles reverseImporters ranks) v =
      flow allFiles.toFinset reverseImporters uniqueSeeds.toFinset alpha (rankOf ranks) v := by
  have hbase : (if v ∈ allFiles then (1 - alpha) * personalization uniqueSeeds v else 0) =
      (1 - alpha) * homeShare uniqueSeeds.toFinset v := by
    rw [← personalization_eq_homeShare hseeds.nodup]
    split
    · rfl
    · next hforeign =>
        rw [personalization, if_neg fun hseed => hforeign (hseeds.files v hseed), mul_zero]
  rw [rankRound, foldl_eq_add_sum (fun m : List (File × ℚ) => rankOf m v) _
    (fun m u => rankOf_passRank hseeds.nodup u v), ← List.sum_toFinset _ hfiles, rankOf_map, hbase,
    flow, Finset.mul_sum]

/-- The ranks after some iterations are those that have flowed. -/
theorem rankOf_ranksAfter
    (hfiles : allFiles.Nodup)
    (hseeds : SeedsOf allFiles uniqueSeeds)
    (n : ℕ) :
    rankOf (ranksAfter alpha uniqueSeeds allFiles reverseImporters n) =
      flowed allFiles.toFinset reverseImporters uniqueSeeds.toFinset alpha n := by
  induction n with
  | zero =>
      funext v
      rw [ranksAfter, rankOf_map, flowed, ← personalization_eq_homeShare hseeds.nodup]
      split
      · rfl
      · next hforeign =>
          rw [personalization, if_neg fun hseed => hforeign (hseeds.files v hseed)]
  | succ n ih =>
      funext v
      rw [ranksAfter, rankOf_rankRound hfiles hseeds, ih, flowed]

/-- The files stay the keys. -/
theorem map_fst_rankRound
    (hout : ∀ u, reverseImporters u ⊆ allFiles.toFinset)
    (hseeds : SeedsOf allFiles uniqueSeeds) :
    (rankRound alpha uniqueSeeds allFiles reverseImporters ranks).map Prod.fst = allFiles := by
  have hpass : ∀ (updated : List (File × ℚ)) u, updated.map Prod.fst = allFiles →
      (passRank alpha uniqueSeeds reverseImporters ranks updated u).map Prod.fst = allFiles := by
    intro updated u hkeys
    have hadd : ∀ (share : ℚ) (files : List File), (∀ f ∈ files, f ∈ allFiles) →
        (files.foldl (addShare share) updated).map Prod.fst = allFiles := by
      intro share files hsub
      rw [← hkeys]
      exact map_fst_foldl_upsert fun f hf => hkeys.symm ▸ hsub f hf
    rw [passRank]
    split
    · refine hadd _ _ fun f hf => ?_
      exact List.mem_toFinset.mp (hout u ((Finset.mem_sort _).mp hf))
    · exact hadd _ _ hseeds.files
  have hfold : ∀ (files : List File) (updated : List (File × ℚ)),
      updated.map Prod.fst = allFiles →
        (files.foldl (passRank alpha uniqueSeeds reverseImporters ranks) updated).map Prod.fst =
          allFiles := by
    intro files
    induction files with
    | nil => exact fun _ hkeys => hkeys
    | cons u files ih => exact fun updated hkeys => ih _ (hpass updated u hkeys)
  refine hfold allFiles _ ?_
  rw [List.map_map]
  exact List.map_id allFiles

theorem map_fst_ranksAfter
    (hout : ∀ u, reverseImporters u ⊆ allFiles.toFinset)
    (hseeds : SeedsOf allFiles uniqueSeeds)
    (n : ℕ) :
    (ranksAfter alpha uniqueSeeds allFiles reverseImporters n).map Prod.fst = allFiles := by
  cases n with
  | zero =>
      rw [ranksAfter, List.map_map]
      exact List.map_id allFiles
  | succ n => exact map_fst_rankRound hout hseeds

/-- The values of a map with these keys. -/
theorem map_snd_eq_map_rankOf
    (hfiles : allFiles.Nodup)
    (hkeys : ranks.map Prod.fst = allFiles) :
    ranks.map Prod.snd = allFiles.map (rankOf ranks) := by
  rw [← hkeys, List.map_map]
  refine List.map_congr_left fun e he => ?_
  rw [Function.comp_apply, rankOf, lookup_of_mem (hkeys.symm ▸ hfiles) he]
  rfl

/-- Nothing is lost with the ranks that are zero. -/
theorem rankOf_filter_pos
    (hkeys : (ranks.map Prod.fst).Nodup)
    (hnonneg : ∀ e ∈ ranks, 0 ≤ e.2)
    (v : File) :
    rankOf (ranks.filter fun e => 0 < e.2) v = rankOf ranks v := by
  induction ranks with
  | nil => rfl
  | cons e ranks ih =>
      obtain ⟨hnew, hrest⟩ := List.nodup_cons.mp hkeys
      have hlater := ih hrest fun e' he' => hnonneg e' (List.mem_cons_of_mem _ he')
      by_cases hpos : 0 < e.2
      · rw [List.filter_cons, if_pos (decide_eq_true hpos)]
        rw [rankOf, rankOf] at hlater ⊢
        rw [List.lookup_cons, List.lookup_cons]
        cases v == e.1 with
        | true => rfl
        | false => exact hlater
      · have hzero : e.2 = 0 := le_antisymm (not_lt.mp hpos) (hnonneg e List.mem_cons_self)
        have hdropped : ¬ decide (0 < e.2) = true := by
          rw [decide_eq_true_eq]
          exact hpos
        rw [List.filter_cons, if_neg hdropped, hlater]
        by_cases hv : v = e.1
        · subst hv
          have hnone : ranks.lookup e.1 = none := by
            rw [List.lookup_eq_none_iff]
            intro e' he'
            refine bne_iff_ne.mpr fun heq => hnew ?_
            exact heq ▸ List.mem_map_of_mem he'
          rw [rankOf, hnone, rankOf, List.lookup_cons, beq_self_eq_true]
          exact hzero.symm
        · rw [rankOf, rankOf, List.lookup_cons, beq_false_of_ne hv]

end Flow

end Ranks

/-- The ranks sum to one after every iteration.  For a weight from zero to one none is negative, a
positive one is at most as many reverse imports away from a seed as there were iterations, and a
retained seed keeps its part of what does not flow.  The order of the files does not matter. -/
theorem personalizedReverseImportPagerank_conserves
    (lower : Text → Text)
    (imports : SourcePath → List Text)
    (includeDirectoryIndexAliases : Bool)
    (tableExpired : ℕ → Bool)
    (alpha : ℚ)
    (n : ℕ)
    {seedFiles allFiles : List SourcePath}
    (hfiles : allFiles.Nodup)
    (hseed : ∃ seed ∈ seedFiles, seed ∈ allFiles) :
    let table := (reverseImporters lower imports includeDirectoryIndexAliases tableExpired
      allFiles).1
    let seeds := retainedSeeds seedFiles allFiles
    let ranks := ranksAfter alpha seeds allFiles table n
    let final := personalizedReverseImportPagerank (fun _ => false) alpha n seedFiles allFiles table
    (ranks.map Prod.fst = allFiles ∧ (ranks.map Prod.snd).sum = 1) ∧
      (seeds.length ≤ 64 ∧ ∀ expired, personalizedReverseImportPagerank expired alpha n seedFiles
        allFiles table = if (List.range n).any expired then ([], true)
          else (ranks.filter fun e => 0 < e.2, false)) ∧
      (0 ≤ alpha → alpha ≤ 1 →
        (∀ e ∈ ranks, 0 ≤ e.2) ∧
          (∀ e ∈ final.1, ∃ k ≤ n, FlowsTo allFiles.toFinset table seeds.toFinset k e.1) ∧
          ∀ seed ∈ seeds, (1 - alpha) / seeds.length ≤ rankOf final.1 seed) ∧
      ∀ files : List SourcePath, files.Perm allFiles →
        retainedSeeds seedFiles files = seeds ∧
          (∀ f, rankOf (ranksAfter alpha seeds files table n) f = rankOf ranks f) ∧
          (reverseImporters lower imports includeDirectoryIndexAliases (fun _ => false) files).1 =
            (reverseImporters lower imports includeDirectoryIndexAliases (fun _ => false)
              allFiles).1 := by
  intro table seeds ranks final
  have hseeds : SeedsOf allFiles seeds := seedsOf_retainedSeeds seedFiles allFiles
  have hsome : seeds ≠ [] := retainedSeeds_ne_nil hseed
  have hout : ∀ u, table u ⊆ allFiles.toFinset := reverseImporters_subset tableExpired
  have hkeys : ranks.map Prod.fst = allFiles := map_fst_ranksAfter hout hseeds n
  have hflowed : rankOf ranks = flowed allFiles.toFinset table seeds.toFinset alpha n :=
    rankOf_ranksAfter hfiles hseeds n
  have hhome : seeds.toFinset ⊆ allFiles.toFinset := by
    intro seed hseed
    exact List.mem_toFinset.mpr (hseeds.files seed (List.mem_toFinset.mp hseed))
  have hrun : ∀ expired, personalizedReverseImportPagerank expired alpha n seedFiles
      allFiles table = if (List.range n).any expired then ([], true)
        else (ranks.filter fun e => 0 < e.2, false) := by
    intro expired
    have hrounds := rankRounds_ranksAfter expired alpha seeds allFiles table n 0
    rw [← List.range_eq_range', Nat.zero_add] at hrounds
    have hne : ¬ (seedFiles = [] ∨ seeds = []) := by
      rintro (rfl | hnone)
      · obtain ⟨seed, hmem, -⟩ := hseed
        cases hmem
      · exact hsome hnone
    rw [personalizedReverseImportPagerank, if_neg hne]
    rw [ranksAfter] at hrounds
    rw [hrounds]
    cases (List.range n).any expired with
    | true => rfl
    | false => rfl
  refine ⟨⟨hkeys, ?_⟩, ⟨hseeds.limit, hrun⟩, ?_, ?_⟩
  · rw [map_snd_eq_map_rankOf hfiles hkeys, ← List.sum_toFinset _ hfiles, hflowed]
    exact sum_flowed hout hhome (List.toFinset_nonempty_iff seeds |>.mpr hsome) n
  · intro h0 h1
    have hnonneg : ∀ e ∈ ranks, 0 ≤ e.2 := by
      intro e he
      have hmem : e.2 ∈ ranks.map Prod.snd := List.mem_map_of_mem he
      rw [map_snd_eq_map_rankOf hfiles hkeys, hflowed] at hmem
      obtain ⟨f, -, hf⟩ := List.mem_map.mp hmem
      rw [← hf]
      exact flowed_nonneg h0 h1 n f
    have hfinal : final = (ranks.filter fun e => 0 < e.2, false) := by
      rw [show final = _ from hrun fun _ => false]
      simp
    refine ⟨hnonneg, ?_, ?_⟩
    · intro e he
      rw [hfinal] at he
      obtain ⟨hmem, hpos⟩ := List.mem_filter.mp he
      have hrank : rankOf ranks e.1 = e.2 := by
        rw [rankOf, lookup_of_mem (hkeys.symm ▸ hfiles) hmem]
        rfl
      rw [hflowed] at hrank
      refine FlowsTo.of_flowed_pos h0 h1 ?_
      rw [hrank]
      exact of_decide_eq_true hpos
    · intro seed hmem
      rw [hfinal, rankOf_filter_pos (hkeys.symm ▸ hfiles) hnonneg, hflowed,
        ← List.toFinset_card_of_nodup hseeds.nodup]
      exact le_flowed_home h0 h1 (List.mem_toFinset.mpr hmem) n
  · intro files hperm
    have hsame : retainedSeeds seedFiles files = seeds := retainedSeeds_eq_of_perm seedFiles hperm
    refine ⟨hsame, fun f => ?_, reverseImporters_eq_of_perm hperm⟩
    have hother : SeedsOf files seeds := hsame ▸ seedsOf_retainedSeeds seedFiles files
    rw [rankOf_ranksAfter (hperm.nodup_iff.mpr hfiles) hother, hflowed,
      List.toFinset_eq_of_perm _ _ hperm]

/-- The ranks of `a.py` and `b.py`, of which `b.py` is the seed, after twelve iterations. -/
theorem personalizedReverseImportPagerank_conserves_twelve :
    ∃ importer seed : SourcePath, importer ≠ seed ∧
      ((ranksAfter (17 / 20) (retainedSeeds [seed] [importer, seed]) [importer, seed]
        (reverseImporters (List.map Char.toLower) (fun _ => ["b".toList]) false (fun _ => false)
          [importer, seed]).1 12).map Prod.snd).sum = 1 := by
  have ha : pathName "a.py".toList ≠ [] := by decide
  have hb : pathName "b.py".toList ≠ [] := by decide
  have hne : (⟨"a.py".toList, ha⟩ : SourcePath) ≠ ⟨"b.py".toList, hb⟩ := by
    intro heq
    exact absurd (show "a.py".toList = "b.py".toList from congrArg Subtype.val heq) (by decide)
  refine ⟨⟨"a.py".toList, ha⟩, ⟨"b.py".toList, hb⟩, hne, ?_⟩
  refine (personalizedReverseImportPagerank_conserves (List.map Char.toLower)
    (fun _ => ["b".toList]) false (fun _ => false) (17 / 20) 12 ?_
    ⟨⟨"b.py".toList, hb⟩, List.mem_cons_self, List.mem_cons_of_mem _ List.mem_cons_self⟩).1.2
  exact List.nodup_cons.mpr ⟨fun hmem => hne (List.mem_singleton.mp hmem), List.nodup_singleton _⟩

end RepoMap
end TensorGrep
