import TensorGrep.Rewrite.Batch

/-!
# What a batch plan does to one file

Everything a batch does to a file follows from the edits that the groups plan
for it: they are pooled and sorted, and either all of them are applied or, when
two neighbours overlap, none.  `keptEdits` says this for one file, and the
two-step mode is shown to do exactly that to every file.

Edits are compared by what is reported of them: the ids are assigned after
sorting and play no part.
-/

namespace TensorGrep
namespace Rewrite

open Kernel

variable {File : Type} [LinearOrder File]

/-! ## Reports -/

/-- What is reported of an edit. -/
abbrev EditReport (File : Type) := File × ByteRange × Text × Text

/-- The file, the byte range, the original text and the replacement of an edit. -/
def RewriteEdit.report (e : RewriteEdit File) : EditReport File :=
  (e.file, e.byteRange, e.originalText, e.replacementText)

/-- Neighbouring ranges do not overlap. -/
def NeighboursDisjoint (ranges : List ByteRange) : Prop :=
  ranges.IsChain (fun a b => a.stop ≤ b.start)

instance (ranges : List ByteRange) : Decidable (NeighboursDisjoint ranges) :=
  inferInstanceAs (Decidable (ranges.IsChain _))

section Reports

variable {es es' : List (RewriteEdit File)} {f : File}

omit [LinearOrder File] in
/-- Ranges are read off the reports. -/
theorem byteRange_of_report
    (h : es.map RewriteEdit.report = es'.map RewriteEdit.report) :
    es.map RewriteEdit.byteRange = es'.map RewriteEdit.byteRange := by
  have hranges := congrArg (List.map (fun r : EditReport File => r.2.1)) h
  rwa [List.map_map, List.map_map] at hranges

omit [LinearOrder File] in
/-- And so are the pieces that are spliced. -/
theorem piece_of_report
    (h : es.map RewriteEdit.report = es'.map RewriteEdit.report) :
    es.map RewriteEdit.piece = es'.map RewriteEdit.piece := by
  have hpieces := congrArg (List.map (fun r : EditReport File =>
    (⟨r.2.1.start, r.2.1.stop, utf8 r.2.2.2⟩ : Piece UInt8))) h
  rwa [List.map_map, List.map_map] at hpieces

theorem filter_file_report :
    (es.filter (fun e => e.file = f)).map RewriteEdit.report =
      (es.map RewriteEdit.report).filter (fun r => r.1 = f) := by
  rw [List.filter_map]
  rfl

omit [LinearOrder File] in
theorem report_assignEditIds
    (root : SearchRoot File) :
    (assignEditIds root es).map RewriteEdit.report = es.map RewriteEdit.report := by
  have hreport : (RewriteEdit.report ∘ fun e : RewriteEdit File × Nat =>
      { e.1 with
        id := "e" ++ fourDigits e.2 ++ ":" ++ (root.fileName e.1.file).getD "unknown" ++ ":" ++
          toString e.1.byteRange.start ++ "-" ++ toString e.1.byteRange.stop }) =
      RewriteEdit.report ∘ Prod.fst := rfl
  rw [assignEditIds, List.map_map, hreport, ← List.map_map, List.zipIdx_map_fst]

omit [LinearOrder File] in
/-- Neighbours that do not overlap are disjoint altogether. -/
theorem disjointInOrder_of_neighbours
    (hneighbours : NeighboursDisjoint (es.map RewriteEdit.byteRange))
    (hordered : ∀ e ∈ es, e.byteRange.start ≤ e.byteRange.stop) :
    DisjointInOrder es := by
  rw [NeighboursDisjoint, List.isChain_map] at hneighbours
  have hchain : es.IsChain (fun a b => a.byteRange.stop ≤ b.byteRange.start ∧
      b.byteRange.start ≤ b.byteRange.stop) :=
    hneighbours.imp_of_mem_imp (fun a b _ hb hab => ⟨hab, hordered b hb⟩)
  have htrans : IsTrans (RewriteEdit File) (fun a b =>
      a.byteRange.stop ≤ b.byteRange.start ∧ b.byteRange.start ≤ b.byteRange.stop) :=
    ⟨fun _ _ _ hab hbc => ⟨hab.1.trans (hab.2.trans hbc.1), hbc.2⟩⟩
  exact hchain.pairwise.imp (fun hab => hab.1)

end Reports

/-! ## Validation, file by file -/

section Validation

variable {display : File → String} {es : List (RewriteEdit File)} {f : File}

omit [LinearOrder File] in
/-- A file is rejected exactly when two neighbouring edits overlap. -/
theorem batchRejections_eq_nil_iff :
    batchRejections display f es = [] ↔ NeighboursDisjoint (es.map RewriteEdit.byteRange) := by
  induction es with
  | nil => exact iff_of_true rfl List.IsChain.nil
  | cons a es ih =>
      cases es with
      | nil => exact iff_of_true rfl (List.IsChain.singleton _)
      | cons b es =>
          have hpairs : (a :: b :: es).zip (a :: b :: es).tail =
              (a, b) :: (b :: es).zip (b :: es).tail := rfl
          rw [NeighboursDisjoint, List.map_cons, List.map_cons, List.isChain_cons_cons,
            ← List.map_cons, ← NeighboursDisjoint, ← ih, batchRejections, batchRejections,
            hpairs, List.filter_cons]
          by_cases hab : b.byteRange.start < a.byteRange.stop
          · simp [hab]
          · simp only [decide_eq_true_eq, if_neg hab]
            rw [and_iff_right (not_lt.mp hab)]

/-- The files of some edits, each once. -/
theorem nodup_files :
    (sortDedup id (es.map RewriteEdit.file)).Nodup :=
  nodup_of_pairwise_key_lt (pairwise_sortDedup id _)

theorem mem_files_iff :
    f ∈ sortDedup id (es.map RewriteEdit.file) ↔ es.filter (fun e => e.file = f) ≠ [] := by
  rw [mem_sortDedup Function.injective_id, List.mem_map, Ne, List.filter_eq_nil_iff]
  simp

/-- Restricting the edits of a file to another file leaves nothing. -/
theorem filter_filter_file
    (g : File) :
    (es.filter (fun e => e.file = g)).filter (fun e => e.file = f) =
      if g = f then es.filter (fun e => e.file = f) else [] := by
  rw [List.filter_filter]
  by_cases hgf : g = f
  · subst hgf
    simp
  · rw [if_neg hgf, List.filter_eq_nil_iff]
    intro e _
    simp only [Bool.and_eq_true, decide_eq_true_eq, not_and]
    intro hf hg
    exact hgf (hg.symm.trans hf)

/-- The edits of a file are kept together or not at all. -/
theorem filter_validateBatch :
    (validateBatchNoOverlaps display es).1.filter (fun e => e.file = f) =
      if NeighboursDisjoint ((es.filter (fun e => e.file = f)).map RewriteEdit.byteRange) then
        es.filter (fun e => e.file = f)
      else [] := by
  rw [validateBatchNoOverlaps, batchEditsByFile]
  dsimp only
  rw [List.filter_map, List.flatMap_map, List.filter_flatMap]
  simp only [Function.comp_def, filter_filter_file]
  rw [flatMap_ite_eq (nodup_files.filter _)]
  simp only [List.mem_filter, mem_files_iff, batchRejections_eq_nil_iff, decide_eq_true_eq]
  by_cases hnone : es.filter (fun e => e.file = f) = []
  · rw [hnone]
    simp
  · rw [if_congr (and_iff_right hnone) rfl rfl]

/-- A file has rejections exactly when two neighbouring edits of it overlap. -/
theorem mem_rejected_validateBatch :
    f ∈ (validateBatchNoOverlaps display es).2.map OverlapRejection.file ↔
      ¬ NeighboursDisjoint ((es.filter (fun e => e.file = f)).map RewriteEdit.byteRange) := by
  have hfile : ∀ g (l : List (RewriteEdit File)), ∀ r ∈ batchRejections display g l,
      r.file = g := by
    intro g l r hr
    obtain ⟨pair, -, rfl⟩ := List.mem_map.mp hr
    rfl
  rw [validateBatchNoOverlaps, batchEditsByFile, List.mem_map]
  simp only [List.flatMap_map, List.mem_flatMap]
  rw [← not_iff_not, not_not, ← @batchRejections_eq_nil_iff File display _ f,
    List.eq_nil_iff_forall_not_mem]
  constructor
  · intro hnone r hr
    by_cases hf : f ∈ sortDedup id (es.map RewriteEdit.file)
    · exact hnone ⟨r, ⟨f, hf, hr⟩, hfile f _ r hr⟩
    · rw [mem_files_iff, not_not] at hf
      rw [hf] at hr
      cases hr
  · rintro hnone ⟨r, ⟨g, hg, hr⟩, hrf⟩
    rw [hfile g _ r hr] at hrf
    subst hrf
    exact hnone r hr

end Validation

/-! ## What a batch does to a file -/

/-- The edits that a group plans in a file. -/
def BatchGroup.edits
    {ag : AstGrep}
    (g : BatchGroup ag File)
    (file : File)
    (node : Option SourceFile) : List (RewriteEdit File) :=
  match g.plan file node with
  | .ok (some prepared) => prepared.edits
  | _ => []

/-- The edits that all groups plan in a file. -/
def pooledEdits
    {ag : AstGrep}
    (groups : List (BatchGroup ag File))
    (file : File)
    (node : Option SourceFile) : List (RewriteEdit File) :=
  groups.flatMap fun g => if file ∈ g.files then g.edits file node else []

/-- Of some sorted edits of a file, all or none. -/
def allOrNone (es : List (RewriteEdit File)) : List (RewriteEdit File) :=
  if NeighboursDisjoint (es.map RewriteEdit.byteRange) then es else []

/-- The content of a file with some edits applied. -/
def contentAfter
    (node : Option SourceFile)
    (es : List (RewriteEdit File)) : Option Bytes :=
  if es = [] then node.map SourceFile.content
  else (readToString node).map fun source => spliced (utf8 source) (es.map RewriteEdit.piece)

/-- A mode does to every file what the pooled edits of the groups say: the content, what is
reported of the edits, and whether the file is rejected. -/
structure BatchEffect
    {ag : AstGrep}
    (groups : List (BatchGroup ag File))
    (T T' : SourceTree File)
    (edits : List (RewriteEdit File))
    (rejected : List (OverlapRejection File)) : Prop where
  content : ∀ f, (T' f).map SourceFile.content =
    contentAfter (T f) (allOrNone (sortRewriteEdits (pooledEdits groups f (T f))))
  edits : ∀ f, (edits.filter (fun e => e.file = f)).map RewriteEdit.report =
    (allOrNone (sortRewriteEdits (pooledEdits groups f (T f)))).map RewriteEdit.report
  rejected : ∀ f, f ∈ rejected.map OverlapRejection.file ↔
    ¬ NeighboursDisjoint
      ((sortRewriteEdits (pooledEdits groups f (T f))).map RewriteEdit.byteRange)

section Pooled

variable {ag : AstGrep} {g : BatchGroup ag File} {groups : List (BatchGroup ag File)}
  {file : File} {node : Option SourceFile} {e : RewriteEdit File}

omit [LinearOrder File] in
theorem BatchGroup.edits_of_some
    {prepared : PreparedRewriteFile File}
    (h : g.plan file node = .ok (some prepared)) :
    g.edits file node = prepared.edits := by
  rw [BatchGroup.edits, h]

omit [LinearOrder File] in
theorem BatchGroup.edits_of_none
    (h : g.plan file node = .ok none) :
    g.edits file node = [] := by
  rw [BatchGroup.edits, h]

/-- A planned edit is an edit of the file, aligned in its text. -/
theorem BatchGroup.mem_edits
    (he : e ∈ g.edits file node) :
    e.file = file ∧ fileMtimeNs file node = .ok e.plannedMtimeNs ∧
      ∃ source, readToString node = some source ∧ Aligned source e.byteRange := by
  rw [BatchGroup.edits] at he
  split at he
  · rename_i prepared hplan
    have hplanned : Planned file node prepared := planFile_spec hplan
    obtain ⟨hfile, hmtime, haligned⟩ := hplanned.edits e he
    exact ⟨hfile, hmtime, prepared.originalSource, hplanned.read, haligned⟩
  · cases he

theorem mem_pooledEdits
    (he : e ∈ pooledEdits groups file node) :
    e.file = file ∧ fileMtimeNs file node = .ok e.plannedMtimeNs ∧
      ∃ source, readToString node = some source ∧ Aligned source e.byteRange := by
  obtain ⟨g, -, hg⟩ := List.mem_flatMap.mp he
  split_ifs at hg with hfile
  · exact g.mem_edits hg
  · cases hg

omit [LinearOrder File] in
theorem allOrNone_subset
    {es : List (RewriteEdit File)} :
    ∀ e ∈ allOrNone es, e ∈ es := by
  intro e he
  rw [allOrNone] at he
  split_ifs at he
  · exact he
  · cases he

omit [LinearOrder File] in
/-- What is kept of the pooled edits can be spliced. -/
theorem disjoint_allOrNone
    {es : List (RewriteEdit File)}
    (hordered : ∀ e ∈ es, e.byteRange.start ≤ e.byteRange.stop) :
    DisjointInOrder (allOrNone es) := by
  rw [allOrNone]
  split_ifs with h
  · exact disjointInOrder_of_neighbours h hordered
  · exact List.Pairwise.nil

end Pooled

/-! ## The two-step mode -/

section TwoStep

variable {ag : AstGrep} {root : SearchRoot File} {T T' : SourceTree File}
  {compiled : List (String × List (CompiledRewrite ag))}
  {groups : List (BatchGroup ag File)} {edits : List (RewriteEdit File)} {f : File}

/-- The files of a group are distinct. -/
theorem nodup_batchFiles
    {group : String × List (CompiledRewrite ag)}
    {g : BatchGroup ag File}
    (h : selectBatchGroup ag root group = .ok g) :
    g.files.Nodup := by
  rw [selectBatchGroup, bind_eq_ok_iff] at h
  obtain ⟨language, -, h⟩ := h
  rw [bind_eq_ok_iff] at h
  obtain ⟨files, hfiles, h⟩ := h
  cases h
  rw [collectBatchSourceFiles] at hfiles
  split_ifs at hfiles with hpresent
  cases hfile : root.asFile with
  | some file =>
      rw [hfile] at hfiles
      cases hfiles
      dsimp only
      split_ifs
      · exact List.nodup_singleton file
      · exact List.nodup_nil
  | none =>
      rw [hfile] at hfiles
      exact nodup_collectSourceFiles hfiles

omit [LinearOrder File] in
/-- What a group plans for its files, one file after another. -/
theorem edits_of_planned_files
    {g : BatchGroup ag File}
    {files : List File}
    {prepared : List (Option (PreparedRewriteFile File))}
    (h : List.Forall₂ (fun file o => g.plan file (T file) = .ok o) files prepared) :
    (prepared.flatMap Option.toList).flatMap PreparedRewriteFile.edits =
      files.flatMap (fun file => g.edits file (T file)) := by
  induction h with
  | nil => rfl
  | @cons file o files prepared ho _ ih =>
      rw [List.flatMap_cons, List.flatMap_append, ih, List.flatMap_cons]
      cases o with
      | none => rw [BatchGroup.edits_of_none ho, Option.toList_none, List.flatMap_nil]
      | some p => rw [BatchGroup.edits_of_some ho, Option.toList_some, List.flatMap_singleton]

omit [LinearOrder File] in
/-- A plan succeeds when every group is selected and plans all its files. -/
theorem collectPrepared_spec
    {prepared : Nat × List (PreparedRewriteFile File)}
    (h : collectPreparedBatchRewriteFiles ag root T compiled = .ok prepared) :
    ∃ groups, compiled.mapM (selectBatchGroup ag root) = .ok groups ∧
      (∀ g ∈ groups, ∀ f ∈ g.files, ∃ o, g.plan f (T f) = .ok o) ∧
      prepared.2.flatMap PreparedRewriteFile.edits =
        groups.flatMap (fun g => g.files.flatMap (fun f => g.edits f (T f))) := by
  rw [collectPreparedBatchRewriteFiles, bind_eq_ok_iff] at h
  obtain ⟨done, hdone, h⟩ := h
  cases h
  rw [mapM_eq_ok_iff] at hdone
  simp only [mapM_eq_ok_iff]
  induction hdone with
  | nil => exact ⟨[], List.Forall₂.nil, by simp, rfl⟩
  | @cons group d compiled done hd _ ih =>
      obtain ⟨groups, hgroups, hall, hedits⟩ := ih
      rw [bind_eq_ok_iff] at hd
      obtain ⟨g, hg, hd⟩ := hd
      rw [bind_eq_ok_iff] at hd
      obtain ⟨prepared, hprepared, hd⟩ := hd
      cases hd
      refine ⟨g :: groups, List.Forall₂.cons hg hgroups, ?_, ?_⟩
      · intro g' hg' file hfile
        rcases List.mem_cons.mp hg' with rfl | hg'
        · obtain ⟨o, -, ho⟩ := exists_result_of_mapM hprepared hfile
          exact ⟨o, ho⟩
        · exact hall g' hg' file hfile
      · change ((done.flatMap Prod.snd).flatMap PreparedRewriteFile.edits = _) at hedits
        rw [List.flatMap_cons, List.flatMap_append, hedits, List.flatMap_cons,
          edits_of_planned_files (mapM_eq_ok_iff.mp hprepared)]

/-- The edits of one file among those that all groups plan. -/
theorem filter_planned
    (hnodup : ∀ g ∈ groups, g.files.Nodup) :
    (groups.flatMap (fun g => g.files.flatMap (fun f => g.edits f (T f)))).filter
        (fun e => e.file = f) = pooledEdits groups f (T f) := by
  have hfile : ∀ (g : BatchGroup ag File) a, (g.edits a (T a)).filter (fun e => e.file = f) =
      if a = f then g.edits f (T f) else [] := by
    intro g a
    by_cases haf : a = f
    · subst haf
      rw [if_pos rfl, List.filter_eq_self]
      intro e he
      exact decide_eq_true (g.mem_edits he).1
    · rw [if_neg haf, List.filter_eq_nil_iff]
      intro e he hef
      exact haf ((g.mem_edits he).1.symm.trans (of_decide_eq_true hef))
  rw [pooledEdits, List.filter_flatMap]
  refine List.flatMap_congr ?_
  intro g hg
  rw [List.filter_flatMap]
  simp only [hfile]
  exact flatMap_ite_eq (hnodup g hg) f _

omit [LinearOrder File] in
/-- An apply to one file that succeeds has read, spliced and written. -/
theorem applyEditsToFile_ok
    {now : UInt64}
    {es : List (RewriteEdit File)}
    {node : Option SourceFile}
    {u : Unit}
    (h : (applyEditsToFileWithWriter (atomicWriteFile now) f es none node).1 = .ok u) :
    ∃ source rewritten, readToString node = some source ∧
      rewriteSourceWithEdits f source es = .ok rewritten ∧
      (applyEditsToFileWithWriter (atomicWriteFile now) f es none node).2.map
        SourceFile.content = some (utf8 rewritten) := by
  rw [applyEditsToFileWithWriter, Option.none_or] at h ⊢
  cases hread : readToString node with
  | none =>
      rw [hread] at h
      cases h
  | some source =>
      rw [hread] at h
      dsimp only at h ⊢
      cases hrewrite : rewriteSourceWithEdits f source es with
      | error err =>
          rw [hrewrite] at h
          cases h
      | panicked =>
          rw [hrewrite] at h
          cases h
      | ok rewritten =>
          rw [hrewrite] at h
          refine ⟨source, rewritten, rfl, hrewrite, ?_⟩
          cases node with
          | none => cases hread
          | some n =>
              dsimp only at h ⊢
              rw [atomicWriteFile] at h ⊢
              split_ifs at h with hreplace
              · rw [if_pos hreplace]
                rfl

/-- What a successful apply leaves in every file. -/
theorem applyEditSet_ok
    {now : UInt64}
    {written : Nat}
    (h : applyEditSet now T edits = (.ok written, T'))
    (f : File) :
    (edits.filter (fun e => e.file = f) = [] → T' f = T f) ∧
      (edits.filter (fun e => e.file = f) ≠ [] →
        ∃ source rewritten, readToString (T f) = some source ∧
          rewriteSourceWithEdits f source
            (sortByKey (fun e => e.byteRange.start) (edits.filter (fun e => e.file = f))) =
              .ok rewritten ∧
          (T' f).map SourceFile.content = some (utf8 rewritten)) := by
  rw [applyEditSet] at h
  dsimp only at h
  cases hcheck : ensureFilesNotStale T (groupEditsByFile edits) with
  | error err =>
      rw [hcheck] at h
      cases h
  | ok u =>
      rw [hcheck] at h
      obtain ⟨hjoin, rfl⟩ := Prod.mk.inj h
      have hfiles : f ∈ (groupEditsByFile edits).map Prod.fst ↔
          edits.filter (fun e => e.file = f) ≠ [] := by
        rw [groupEditsByFile, List.map_map, ← mem_files_iff]
        exact iff_of_eq (congrArg (f ∈ ·) (List.map_id _))
      constructor
      · intro hnone
        exact runTasks_of_not_mem (fun hmem => hfiles.mp hmem hnone)
      · intro hsome
        obtain ⟨group, hgroup, hf⟩ := List.mem_map.mp (hfiles.mpr hsome)
        subst hf
        have hedits := (mem_groupEditsByFile.mp hgroup).2
        obtain ⟨v, hv⟩ := exists_ok_of_bind_joinAll hjoin (by
          rw [runTasks_results (nodup_groupEditsByFile edits)]
          exact List.mem_map_of_mem hgroup)
        obtain ⟨source, rewritten, hread, hrewrite, hcontent⟩ := applyEditsToFile_ok hv
        rw [runTasks_owned (nodup_groupEditsByFile edits) hgroup]
        exact ⟨source, rewritten, hread, by rw [← hedits]; exact hrewrite, hcontent⟩

/-- Edits that report the same as disjoint aligned edits are spliced like them. -/
theorem rewriteSource_of_report
    {source rewritten : Text}
    {es es' : List (RewriteEdit File)}
    (hreport : es.map RewriteEdit.report = es'.map RewriteEdit.report)
    (hdisjoint : DisjointInOrder es')
    (haligned : ∀ e ∈ es', Aligned source e.byteRange)
    (hrewrite : rewriteSourceWithEdits f source
      (sortByKey (fun e => e.byteRange.start) es) = .ok rewritten) :
    utf8 rewritten = spliced (utf8 source) (es'.map RewriteEdit.piece) := by
  have hranges := byteRange_of_report hreport
  have halignedEs : ∀ e ∈ es, Aligned source e.byteRange := by
    intro e he
    have hmem := List.mem_map_of_mem (f := RewriteEdit.byteRange) he
    rw [hranges, List.mem_map] at hmem
    obtain ⟨e', he', hsame⟩ := hmem
    rw [← hsame]
    exact haligned e' he'
  have hdisjointEs : DisjointInOrder es := by
    rw [DisjointInOrder, ← List.pairwise_map (R := fun a b : ByteRange => a.stop ≤ b.start)]
      at hdisjoint ⊢
    rw [hranges]
    exact hdisjoint
  rw [sortByKey_eq_self (hdisjointEs.sorted halignedEs)] at hrewrite
  obtain ⟨result, hresult, hbytes⟩ := rewriteSourceWithEdits_spec f hdisjointEs halignedEs
  rw [hrewrite] at hresult
  cases hresult
  rw [hbytes, piece_of_report hreport]

theorem ordered_of_pooled
    {node : Option SourceFile} :
    ∀ e ∈ sortRewriteEdits (pooledEdits groups f node),
      e.byteRange.start ≤ e.byteRange.stop := by
  intro e he
  rw [sortRewriteEdits, mem_sortByKey] at he
  obtain ⟨-, -, source, -, haligned⟩ := mem_pooledEdits he
  exact haligned.ordered

/-- Planning a batch and applying the plan does to every file what its pooled edits say. -/
theorem planThenApply_effect
    {display : File → String}
    {rewrites : List BatchRewriteRule}
    {plan : BatchRewritePlan File}
    {now : UInt64}
    {written : Nat}
    (hplan : planBatchRewrites ag display root T rewrites = .ok plan)
    (happly : applyBatchRewrites now T plan = (.ok written, T')) :
    ∃ compiled groups, rewrites ≠ [] ∧ @compileBatchRewritesByLang File ag rewrites = .ok compiled ∧
      compiled.mapM (selectBatchGroup ag root) = .ok groups ∧
      (∀ g ∈ groups, ∀ f ∈ g.files, ∃ o, g.plan f (T f) = .ok o) ∧
      BatchEffect groups T T' plan.edits plan.rejectedOverlaps := by
  rw [planBatchRewrites] at hplan
  split_ifs at hplan with hrules
  rw [bind_eq_ok_iff] at hplan
  obtain ⟨compiled, hcompiled, hplan⟩ := hplan
  rw [bind_eq_ok_iff] at hplan
  obtain ⟨prepared, hprepared, hplan⟩ := hplan
  cases hplan
  obtain ⟨groups, hgroups, hall, hedits⟩ := collectPrepared_spec hprepared
  refine ⟨compiled, groups, hrules, hcompiled, hgroups, hall, ?_⟩
  have hnodup : ∀ g ∈ groups, g.files.Nodup := by
    intro g hg
    obtain ⟨group, -, hselect⟩ := exists_mem_of_mapM hgroups hg
    exact nodup_batchFiles hselect
  rw [hedits] at happly ⊢
  generalize hplanned : assignEditIds root (sortRewriteEdits (groups.flatMap fun g =>
    g.files.flatMap fun f => g.edits f (T f))) = planned at happly ⊢
  dsimp only at happly ⊢
  -- the plan reports for a file what its pooled edits report
  have hreport : ∀ f, (planned.filter (fun e => e.file = f)).map RewriteEdit.report =
      (sortRewriteEdits (pooledEdits groups f (T f))).map RewriteEdit.report := by
    intro f
    rw [← hplanned, filter_file_report, report_assignEditIds, ← filter_file_report,
      sortRewriteEdits, filter_sortByKey, filter_planned hnodup]
    rfl
  have hkept : ∀ f, ((validateBatchNoOverlaps display planned).1.filter
      (fun e => e.file = f)).map RewriteEdit.report =
        (allOrNone (sortRewriteEdits (pooledEdits groups f (T f)))).map RewriteEdit.report := by
    intro f
    rw [filter_validateBatch, byteRange_of_report (hreport f), allOrNone]
    split_ifs
    · exact hreport f
    · rfl
  refine ⟨?_, hkept, ?_⟩
  · intro f
    obtain ⟨hnone, hsome⟩ := applyEditSet_ok happly f
    rw [contentAfter]
    by_cases hnil : allOrNone (sortRewriteEdits (pooledEdits groups f (T f))) = []
    · rw [if_pos hnil, hnone]
      have := hkept f
      rw [hnil, List.map_nil, List.map_eq_nil_iff] at this
      exact this
    · rw [if_neg hnil]
      have hne : (validateBatchNoOverlaps display planned).1.filter (fun e => e.file = f) ≠
          [] := by
        intro h
        have := hkept f
        rw [h, List.map_nil, eq_comm, List.map_eq_nil_iff] at this
        exact hnil this
      obtain ⟨source, rewritten, hread, hrewrite, hcontent⟩ := hsome hne
      have haligned : ∀ e ∈ allOrNone (sortRewriteEdits (pooledEdits groups f (T f))),
          Aligned source e.byteRange := by
        intro e he
        have he' := allOrNone_subset e he
        rw [sortRewriteEdits, mem_sortByKey] at he'
        obtain ⟨-, -, source', hread', haligned⟩ := mem_pooledEdits he'
        rw [hread] at hread'
        cases hread'
        exact haligned
      rw [hcontent, hread, Option.map_some, rewriteSource_of_report (hkept f)
        (disjoint_allOrNone ordered_of_pooled) haligned hrewrite]
  · intro f
    rw [mem_rejected_validateBatch, byteRange_of_report (hreport f)]

end TwoStep

end Rewrite
end TensorGrep
