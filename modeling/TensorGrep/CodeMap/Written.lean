import TensorGrep.CodeMap.Pages

/-!
# Every mapped file is in the written map

A map that is not partial describes each mapped file on one page, links each folder
to its page and loses nothing to a later write exactly when the slugs of the
mapped folders differ and the index is neither one of the pages nor the coverage
file.  The check that the code makes before it writes never fails.
-/

namespace TensorGrep
namespace CodeMap

open Kernel

universe u

variable {σ : Type u}

/-! ## What a written map is -/

/-- The files that a document describes, when it is a page. -/
def Document.describes : Document σ → List Text
  | .page content => content.sections.map FileSection.relPath
  | _ => []

/-- A place holds a page that describes a file. -/
def DescribedAt
    (disk : Disk σ)
    (place : AbsPath)
    (file : Text) : Prop :=
  ∃ document, disk place = some document ∧ file ∈ document.describes

/-- The places of the pages. -/
def pagePlaces
    (host : Host σ)
    (options : Options)
    (scan : Scan σ) : List AbsPath :=
  scan.folders.map fun group => host.place (pagePath options.out group.1)

/-- Every file of the mapped universe is described on exactly one of the written pages, the index links
for each folder to a page that describes its files and no others, and what was written is there. -/
structure MapWritten
    (host : Host σ)
    (options : Options)
    (scan : Scan σ)
    (postWalk : PostWalk)
    (disk : Disk σ) : Prop where
  described : ∀ file ∈ scan.files ++ scan.tests, ∃! place,
    place ∈ pagePlaces host options scan ∧ DescribedAt disk place file
  linked : ∃ index, disk (host.place (options.indexPath host)) = some (.index index) ∧
    ∀ group ∈ scan.folders, ∃ row ∈ index.rows,
      row.displayPath = escapeCell (displayPath group.1) ∧
        ∃ page, disk (host.place
            (follow parentName (options.indexPath host).dropLast row.link)) = some (.page page) ∧
          page.sections.map FileSection.relPath = group.2
  kept : ∀ write ∈ (documents host options scan postWalk).2,
    disk (host.place write.1) = some write.2

/-- No two mapped folders have the same slug, and the index has a place of its own. -/
structure PlacesApart
    (host : Host σ)
    (options : Options)
    (scan : Scan σ) : Prop where
  slugs : (scan.folders.map fun group => folderSlug group.1).Nodup
  index_ne_page : ∀ group ∈ scan.folders,
    host.place (options.indexPath host) ≠ host.place (pagePath options.out group.1)
  index_ne_coverage :
    host.place (options.indexPath host) ≠ host.place (coveragePath options.out)

/-! ## Names and places -/

theorem place_pagePath
    (host : Host σ)
    (out : AbsPath)
    (folder : Text) :
    host.place (pagePath out folder) = host.resolve out ++ [folderSlug folder ++ ".md".toList] := by
  simp [Host.place, pagePath]

theorem place_coveragePath
    (host : Host σ)
    (out : AbsPath) :
    host.place (coveragePath out) = host.resolve out ++ ["_coverage.json".toList] := by
  simp [Host.place, coveragePath]

/-- Pages have the same place if and only if their folders have the same slug. -/
theorem place_pagePath_eq_iff
    {host : Host σ}
    {out : AbsPath}
    {folder folder' : Text} :
    host.place (pagePath out folder) = host.place (pagePath out folder') ↔
      folderSlug folder = folderSlug folder' := by
  rw [place_pagePath, place_pagePath]
  simp

/-- A page's name ends with `d`. -/
theorem getLast?_pageName (slug : Text) :
    (slug ++ ".md".toList).getLast? = some 'd' := by
  rw [show ".md".toList = ['.', 'm'] ++ ['d'] from rfl, ← List.append_assoc, List.getLast?_concat]

theorem place_pagePath_ne_coveragePath
    (host : Host σ)
    (out : AbsPath)
    (folder : Text) :
    host.place (pagePath out folder) ≠ host.place (coveragePath out) := by
  rw [place_pagePath, place_coveragePath]
  intro h
  have hname : folderSlug folder ++ ".md".toList = "_coverage.json".toList := by simpa using h
  have hlast := getLast?_pageName (folderSlug folder)
  rw [hname] at hlast
  simp at hlast

/-- Neither the output directory nor the name of a page goes up. -/
theorem parentName_not_mem_pagePath
    (options : Options)
    (folder : Text) :
    parentName ∉ pagePath options.out folder := by
  rw [pagePath, List.mem_append, List.mem_singleton, not_or]
  refine ⟨options.out_plain, fun h => ?_⟩
  have hlast := getLast?_pageName (folderSlug folder)
  rw [← h] at hlast
  simp [parentName] at hlast

/-! ## Folders -/

theorem Scan.mem_mapped_iff
    {scan : Scan σ}
    {file : Text} :
    file ∈ scan.mapped ↔ file ∈ scan.files ++ scan.tests :=
  mem_sortDedup Function.injective_id

/-- A mapped file is in the group of its folder and in no other. -/
theorem Scan.mem_folders_iff
    {scan : Scan σ}
    {folder : Text}
    {files : List Text} :
    (folder, files) ∈ scan.folders ↔
      files = scan.mapped.filter (fun file => folderForFile file = folder) ∧ files ≠ [] :=
  (groupsOf_groupsBy folderForFile scan.mapped).mem_iff folder files

theorem Scan.folder_of_mem
    {scan : Scan σ}
    {group : Text × List Text}
    (hgroup : group ∈ scan.folders)
    {file : Text}
    (hfile : file ∈ group.2) :
    folderForFile file = group.1 := by
  obtain ⟨folder, files⟩ := group
  rw [(Scan.mem_folders_iff.mp hgroup).1] at hfile
  exact of_decide_eq_true (List.mem_filter.mp hfile).2

theorem Scan.exists_group
    {scan : Scan σ}
    {file : Text}
    (hfile : file ∈ scan.mapped) :
    ∃ group ∈ scan.folders, file ∈ group.2 := by
  have hmem : file ∈ scan.mapped.filter (fun f => folderForFile f = folderForFile file) :=
    List.mem_filter.mpr ⟨hfile, decide_eq_true rfl⟩
  exact ⟨(folderForFile file, _),
    Scan.mem_folders_iff.mpr ⟨rfl, List.ne_nil_of_mem hmem⟩, hmem⟩

/-- A file is in one group only. -/
theorem Scan.group_eq_of_mem
    {scan : Scan σ}
    {group group' : Text × List Text}
    (hgroup : group ∈ scan.folders)
    (hgroup' : group' ∈ scan.folders)
    {file : Text}
    (hfile : file ∈ group.2)
    (hfile' : file ∈ group'.2) :
    group = group' := by
  have hfolder : group.1 = group'.1 :=
    (Scan.folder_of_mem hgroup hfile).symm.trans (Scan.folder_of_mem hgroup' hfile')
  obtain ⟨folder, files⟩ := group
  obtain ⟨folder', files'⟩ := group'
  obtain rfl : folder = folder' := hfolder
  rw [(Scan.mem_folders_iff.mp hgroup).1, (Scan.mem_folders_iff.mp hgroup').1]

/-- Groups with the same files are the same. -/
theorem Scan.group_eq_of_files
    {scan : Scan σ}
    {group group' : Text × List Text}
    (hgroup : group ∈ scan.folders)
    (hgroup' : group' ∈ scan.folders)
    (hfiles : group.2 = group'.2) :
    group = group' := by
  obtain ⟨file, hfile⟩ := List.exists_mem_of_ne_nil _ (Scan.mem_folders_iff.mp hgroup).2
  exact Scan.group_eq_of_mem hgroup hgroup' hfile (hfiles ▸ hfile)

theorem Scan.nodup_folders (scan : Scan σ) :
    scan.folders.Nodup :=
  ((groupsOf_groupsBy folderForFile scan.mapped).nodup).of_map _

/-! ## The check before writing -/

theorem accountFiles_eq
    {accounted files : List Text}
    (hnodup : files.Nodup)
    (hnew : ∀ file ∈ files, file ∉ accounted) :
    accountFiles accounted files = some (files.reverse ++ accounted) := by
  induction files generalizing accounted with
  | nil => rfl
  | cons file files ih =>
      obtain ⟨hfile, hrest⟩ := List.nodup_cons.mp hnodup
      have habsent : ¬ accounted.contains file :=
        fun hmem => hnew file List.mem_cons_self (List.contains_iff_mem.mp hmem)
      rw [accountFiles, if_neg habsent, ih hrest]
      · simp
      · intro other hother
        rw [List.mem_cons, not_or]
        exact ⟨fun heq => hfile (heq ▸ hother), hnew other (List.mem_cons_of_mem _ hother)⟩

/-- The check that every mapped file is in one group always succeeds. -/
theorem Scan.selfVerify (scan : Scan σ) :
    selfVerifyUniverseCoverage scan.mapped scan.folders = true := by
  have hmapped : scan.mapped.Nodup :=
    nodup_of_pairwise_key_lt (pairwise_sortDedup id _)
  have hnodup : (scan.folders.flatMap Prod.snd).Nodup := by
    refine List.nodup_flatMap.mpr ⟨?_, ?_⟩
    · intro group hgroup
      rw [(Scan.mem_folders_iff.mp (show (group.1, group.2) ∈ _ from hgroup)).1]
      exact hmapped.filter _
    · refine scan.nodup_folders.pairwise_of_forall_ne fun group hgroup group' hgroup' hne => ?_
      exact fun file hfile hfile' => hne (Scan.group_eq_of_mem hgroup hgroup' hfile hfile')
  rw [selfVerifyUniverseCoverage, accountFiles_eq hnodup (by simp), List.append_nil]
  simp only [Bool.and_eq_true, List.all_eq_true, List.contains_iff_mem, List.mem_reverse,
    List.mem_flatMap]
  constructor
  · rintro file ⟨⟨folder, files⟩, hgroup, hfile⟩
    rw [(Scan.mem_folders_iff.mp hgroup).1] at hfile
    exact (List.mem_filter.mp hfile).1
  · intro file hfile
    exact Scan.exists_group hfile

/-! ## Writing -/

/-- Later writes are later updates. -/
theorem writeAll_eq
    {host : Host σ}
    {writes : List (AbsPath × Document σ)}
    {disk disk' : Disk σ}
    (h : writeAll host writes disk = some disk') :
    disk' = (writes.map fun write => (host.place write.1, some write.2)).foldl
      (fun disk write => Function.update disk write.1 write.2) disk := by
  induction writes generalizing disk with
  | nil => exact (Option.some.inj h).symm
  | cons write writes ih =>
      rw [writeAll] at h
      split at h
      case isTrue => cases h
      case isFalse => exact ih h

/-- Different documents that are all there have different places. -/
theorem nodup_places_of_kept
    {host : Host σ}
    {writes : List (AbsPath × Document σ)}
    {disk : Disk σ}
    (hdocuments : (writes.map Prod.snd).Nodup)
    (hkept : ∀ write ∈ writes, disk (host.place write.1) = some write.2) :
    (writes.map fun write => host.place write.1).Nodup := by
  refine List.Nodup.map_on (fun write hwrite write' hwrite' hplace => ?_) hdocuments.of_map
  have hdocument : write.2 = write'.2 := by
    refine Option.some.inj ?_
    rw [← hkept write hwrite, ← hkept write' hwrite', hplace]
  exact List.inj_on_of_nodup_map hdocuments hwrite hwrite' hdocument

/-- Documents with different places are all there. -/
theorem kept_of_nodup_places
    {host : Host σ}
    {writes : List (AbsPath × Document σ)}
    {disk disk' : Disk σ}
    (h : writeAll host writes disk = some disk')
    (hplaces : (writes.map fun write => host.place write.1).Nodup) :
    ∀ write ∈ writes, disk' (host.place write.1) = some write.2 := by
  intro write hwrite
  have hmem : (host.place write.1, some write.2) ∈
      writes.map (fun write => (host.place write.1, some write.2)) :=
    List.mem_map.mpr ⟨write, hwrite, rfl⟩
  rw [writeAll_eq h]
  refine foldl_update_apply ?_ hmem disk
  rwa [List.map_map]

/-- A machine that refuses nothing writes everything. -/
theorem exists_writeAll
    {host : Host σ}
    (h : ∀ disk path document, host.refuses disk path document = false)
    (writes : List (AbsPath × Document σ))
    (disk : Disk σ) :
    ∃ disk', writeAll host writes disk = some disk' := by
  induction writes generalizing disk with
  | nil => exact ⟨disk, rfl⟩
  | cons write writes ih =>
      rw [writeAll, h, if_neg Bool.false_ne_true]
      exact ih _

/-! ## The documents of a complete map -/

/-- A loop that was not cut off has rendered every folder. -/
theorem renderedFolders_of_not_cut
    {passed : ℕ → Bool}
    {i : ℕ}
    {groups : List (Text × List Text)}
    (h : (renderedFolders passed i groups).2 = false) :
    (renderedFolders passed i groups).1 = groups := by
  induction groups generalizing i with
  | nil => rfl
  | cons group groups ih =>
      rw [renderedFolders] at h ⊢
      split at h
      case isTrue => cases h
      case isFalse hpassed =>
          rw [if_neg hpassed]
          exact congrArg (group :: ·) (ih h)

/-- A map is partial when a loop after the scan was cut off. -/
theorem isPartial_foldTailDeadline
    (hit : Bool)
    (coverage : Coverage) :
    (foldTailDeadline hit coverage).isPartial = (hit || coverage.isPartial) := by
  rw [foldTailDeadline]
  cases hit with
  | false => rfl
  | true =>
      cases hpartial : coverage.isPartial with
      | false => rfl
      | true => exact hpartial

/-- The pages with their paths. -/
def pageDocuments
    (host : Host σ)
    (options : Options)
    (scan : Scan σ) : List (AbsPath × Document σ) :=
  scan.folders.map fun group =>
    (pagePath options.out group.1, Document.page (renderFolderPage host options scan group))

/-- A map that is not partial consists of a page for each folder, the index and the coverage. -/
theorem documents_of_complete
    {host : Host σ}
    {options : Options}
    {scan : Scan σ}
    {postWalk : PostWalk}
    (h : (documents host options scan postWalk).1.isPartial = false) :
    ∃ coverage tokens, (documents host options scan postWalk).2 =
      pageDocuments host options scan ++
        [(options.indexPath host,
            Document.index (renderIndex host options scan coverage tokens scan.folders)),
          (coveragePath options.out,
            Document.coverage (documents host options scan postWalk).1)] := by
  have hcut : (renderedFolders host.deadlinePassed 0 scan.folders).2 = false := by
    rw [documents] at h
    dsimp only at h
    rw [isPartial_foldTailDeadline] at h
    simp only [Bool.or_eq_false_iff] at h
    exact h.1.1
  rw [documents]
  dsimp only
  rw [renderedFolders_of_not_cut hcut]
  exact ⟨_, _, rfl⟩

theorem map_relPath_renderFolderPage
    (host : Host σ)
    (options : Options)
    (scan : Scan σ)
    (group : Text × List Text) :
    (renderFolderPage host options scan group).sections.map FileSection.relPath = group.2 := by
  rw [renderFolderPage, List.map_map]
  exact List.map_id group.2

/-- The pages describe different files. -/
theorem nodup_pageDocuments
    (host : Host σ)
    (options : Options)
    (scan : Scan σ) :
    ((pageDocuments host options scan).map Prod.snd).Nodup := by
  rw [pageDocuments, List.map_map]
  refine scan.nodup_folders.map_on fun group hgroup group' hgroup' heq => ?_
  have hpages := Document.page.inj heq
  refine Scan.group_eq_of_files hgroup hgroup' ?_
  rw [← map_relPath_renderFolderPage host options scan group, hpages,
    map_relPath_renderFolderPage]

/-- The documents of a complete map differ. -/
theorem nodup_documents
    {host : Host σ}
    {options : Options}
    {scan : Scan σ}
    {postWalk : PostWalk}
    (h : (documents host options scan postWalk).1.isPartial = false) :
    ((documents host options scan postWalk).2.map Prod.snd).Nodup := by
  obtain ⟨coverage, tokens, hdocuments⟩ := documents_of_complete h
  rw [hdocuments, List.map_append]
  refine (nodup_pageDocuments host options scan).append (by simp) ?_
  intro document hpage hother
  rw [pageDocuments, List.map_map] at hpage
  obtain ⟨group, -, rfl⟩ := List.mem_map.mp hpage
  simp at hother

/-- The documents of a complete map have places of their own if and only if the slugs differ and the
index is no page and not the coverage file. -/
theorem nodup_places_iff
    {host : Host σ}
    {options : Options}
    {scan : Scan σ}
    {postWalk : PostWalk}
    (h : (documents host options scan postWalk).1.isPartial = false) :
    ((documents host options scan postWalk).2.map fun write => host.place write.1).Nodup ↔
      PlacesApart host options scan := by
  obtain ⟨coverage, tokens, hdocuments⟩ := documents_of_complete h
  have hpages : ((pageDocuments host options scan).map fun write => host.place write.1) =
      scan.folders.map fun group => host.place (pagePath options.out group.1) := by
    rw [pageDocuments, List.map_map]
    rfl
  have hslugs : (scan.folders.map fun group => host.place (pagePath options.out group.1)).Nodup ↔
      (scan.folders.map fun group => folderSlug group.1).Nodup := by
    rw [List.nodup_map_iff_inj_on scan.nodup_folders, List.nodup_map_iff_inj_on scan.nodup_folders]
    simp only [place_pagePath_eq_iff]
  rw [hdocuments, List.map_append, hpages, List.nodup_append, hslugs]
  constructor
  · rintro ⟨hnodup, hothers, hapart⟩
    refine ⟨hnodup, fun group hgroup heq => ?_, ?_⟩
    · exact hapart _ (List.mem_map.mpr ⟨group, hgroup, rfl⟩) _ List.mem_cons_self heq.symm
    · simpa using hothers
  · rintro ⟨hnodup, hindex, hcoverage⟩
    refine ⟨hnodup, by simpa using hcoverage, ?_⟩
    rintro _ hplace _ hother rfl
    obtain ⟨group, hgroup, rfl⟩ := List.mem_map.mp hplace
    simp only [List.map_cons, List.map_nil, List.mem_cons, List.not_mem_nil, or_false] at hother
    rcases hother with hother | hother
    · exact hindex group hgroup hother.symm
    · exact place_pagePath_ne_coveragePath host options.out group.1 hother

/-! ## The written map -/

/-- A complete map whose documents are all there describes each file on one page and links to each
page from the index. -/
theorem mapWritten_of_kept
    {host : Host σ}
    {options : Options}
    {scan : Scan σ}
    {postWalk : PostWalk}
    {disk : Disk σ}
    (h : (documents host options scan postWalk).1.isPartial = false)
    (hkept : ∀ write ∈ (documents host options scan postWalk).2,
      disk (host.place write.1) = some write.2) :
    MapWritten host options scan postWalk disk := by
  obtain ⟨coverage, tokens, hdocuments⟩ := documents_of_complete h
  have hpage : ∀ group ∈ scan.folders, disk (host.place (pagePath options.out group.1)) =
      some (.page (renderFolderPage host options scan group)) := by
    intro group hgroup
    refine hkept (_, _) ?_
    rw [hdocuments]
    exact List.mem_append_left _ (List.mem_map.mpr ⟨group, hgroup, rfl⟩)
  have hdescribed : ∀ group ∈ scan.folders, ∀ file,
      DescribedAt disk (host.place (pagePath options.out group.1)) file ↔ file ∈ group.2 := by
    intro group hgroup file
    rw [DescribedAt, hpage group hgroup]
    simp only [Option.some.injEq, exists_eq_left', Document.describes,
      map_relPath_renderFolderPage]
  refine ⟨?_, ?_, hkept⟩
  · intro file hfile
    obtain ⟨group, hgroup, hmem⟩ := Scan.exists_group (Scan.mem_mapped_iff.mpr hfile)
    refine ⟨host.place (pagePath options.out group.1),
      ⟨List.mem_map.mpr ⟨group, hgroup, rfl⟩, (hdescribed group hgroup file).mpr hmem⟩, ?_⟩
    rintro _ ⟨hplace, hat⟩
    obtain ⟨group', hgroup', rfl⟩ := List.mem_map.mp hplace
    rw [Scan.group_eq_of_mem hgroup' hgroup ((hdescribed group' hgroup' file).mp hat) hmem]
  · refine ⟨renderIndex host options scan coverage tokens scan.folders, ?_, ?_⟩
    · refine hkept (_, _) ?_
      rw [hdocuments]
      exact List.mem_append_right _ List.mem_cons_self
    · intro group hgroup
      refine ⟨indexRow host options scan tokens group, ?_, rfl, _, ?_,
        map_relPath_renderFolderPage host options scan group⟩
      · exact List.mem_map.mpr ⟨group, mem_sortByKey.mpr hgroup, rfl⟩
      · rw [indexRow, follow_relativeTo (parentName_not_mem_pagePath options group.1)]
        exact hpage group hgroup

/-- A complete map of which nothing is lost has its documents in places of their own. -/
theorem placesApart_of_kept
    {host : Host σ}
    {options : Options}
    {scan : Scan σ}
    {postWalk : PostWalk}
    {disk : Disk σ}
    (h : (documents host options scan postWalk).1.isPartial = false)
    (hkept : ∀ write ∈ (documents host options scan postWalk).2,
      disk (host.place write.1) = some write.2) :
    PlacesApart host options scan :=
  (nodup_places_iff h).mp (nodup_places_of_kept (nodup_documents h) hkept)

/-- A machine that refuses nothing builds the map. -/
theorem exists_buildCodemap
    {host : Host σ}
    (h : ∀ disk path document, host.refuses disk path document = false)
    (options : Options)
    (scan : Scan σ)
    (postWalk : PostWalk)
    (disk : Disk σ) :
    ∃ result, buildCodemap host options scan postWalk disk = some result ∧
      result.coverage = (documents host options scan postWalk).1 := by
  obtain ⟨disk', hdisk⟩ := exists_writeAll h (documents host options scan postWalk).2 disk
  rw [buildCodemap, hdisk]
  exact ⟨_, rfl, rfl⟩

/-- When a map is written and reported as complete, every mapped file is in it exactly when the slugs
of the mapped folders differ and the index has a place of its own. -/
theorem complete_map_written_iff
    {host : Host σ}
    {options : Options}
    {scan : Scan σ}
    {postWalk : PostWalk}
    {disk : Disk σ}
    {result : BuildResult σ}
    (h : buildCodemap host options scan postWalk disk = some result)
    (hcomplete : result.coverage.isPartial = false) :
    MapWritten host options scan postWalk result.disk ↔ PlacesApart host options scan := by
  obtain ⟨disk', hwritten, rfl⟩ := Option.map_eq_some_iff.mp h
  constructor
  · intro hmap
    exact placesApart_of_kept hcomplete hmap.kept
  · intro hapart
    exact mapWritten_of_kept hcomplete
      (kept_of_nodup_places hwritten ((nodup_places_iff hcomplete).mpr hapart))

/-- A machine without links that refuses nothing and has no deadline. -/
def plainHost : Host Unit where
  resolve := id
  refuses := fun _ _ _ => false
  deadlinePassed := fun _ => false
  estimateTokens := fun _ => 0
  language := fun _ => []
  purpose := fun _ => []
  blurb := fun _ => []
  rstrip := id

/-- The options of a plain run in `/r`. -/
def plainOptions : Options where
  root := [['r']]
  out := [['r'], "docs".toList, "code-map".toList]
  index := none
  maxRepoFiles := 50000
  maxSymbolsPerFile := 50
  out_plain := by simp [parentName]

/-- A complete scan of some files. -/
def plainScan (files : List Text) : Scan Unit where
  files := files
  tests := []
  symbols := []
  centralFiles := []
  stampLine := []
  possiblyTruncated := false
  deadlineHit := false
  unreadableCount := 0
  unreadableSample := []

/-- Nothing went wrong after the scan. -/
def plainPostWalk : PostWalk where
  unreadableCount := 0
  unreadableSample := []
  census := none

/-- The map of one file. -/
theorem complete_map_written_iff_one :
    ∃ result, buildCodemap plainHost plainOptions (plainScan [['f']]) plainPostWalk
        (fun _ => none) = some result ∧
      (MapWritten plainHost plainOptions (plainScan [['f']]) plainPostWalk result.disk ↔
        PlacesApart plainHost plainOptions (plainScan [['f']])) := by
  obtain ⟨result, hresult, hcoverage⟩ := @exists_buildCodemap Unit plainHost (fun _ _ _ => rfl)
    plainOptions (plainScan [['f']]) plainPostWalk (fun _ => none)
  exact ⟨result, hresult, complete_map_written_iff hresult (by rw [hcoverage]; rfl)⟩

/-- The pages of `a/b` and `a_b` have one name, and the map is reported as complete. -/
theorem slugs_collide :
    ∃ result, buildCodemap plainHost plainOptions
        (plainScan ["a/b/x.py".toList, "a_b/y.py".toList]) plainPostWalk
        (fun _ => none) = some result ∧
      result.coverage.isPartial = false ∧
        ¬ MapWritten plainHost plainOptions
          (plainScan ["a/b/x.py".toList, "a_b/y.py".toList]) plainPostWalk result.disk := by
  obtain ⟨result, hresult, hcoverage⟩ := @exists_buildCodemap Unit plainHost (fun _ _ _ => rfl)
    plainOptions (plainScan ["a/b/x.py".toList, "a_b/y.py".toList]) plainPostWalk (fun _ => none)
  refine ⟨result, hresult, by rw [hcoverage]; rfl, fun hmap => ?_⟩
  have hslugs := (placesApart_of_kept rfl hmap.kept).slugs
  revert hslugs
  decide

end CodeMap
end TensorGrep
