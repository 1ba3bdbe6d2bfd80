import TensorGrep.Rewrite.BatchPlan

/-!
# When the one-shot batch agrees with plan and apply

The groups of a batch are named by the `lang` of the rules as it is written, so
`py` and `python` are two groups for the same files.  The one-shot mode plans the
second on what the first has written.

`OneSpelling` says of a file that this makes no difference: at most one spelling
plans something for it, and the others plan nothing for what that one writes.
`runBatchGroups_effect` carries the condition through the loop over the groups.
-/

namespace TensorGrep
namespace Rewrite

open Kernel

variable {File : Type} [LinearOrder File]

/-! ## The condition -/

/-- A file written in place. -/
def SourceFile.overwritten
    (n : SourceFile)
    (now : UInt64)
    (rewritten : Text) : SourceFile :=
  { n with content := utf8 rewritten, modifiedNs := now.toNat, writes := n.writes + 1 }

/-- The edits of a group that a batch would apply to a file by themselves. -/
def BatchGroup.kept
    {ag : AstGrep}
    (g : BatchGroup ag File)
    (file : File)
    (node : Option SourceFile) : List (RewriteEdit File) :=
  allOrNone (sortRewriteEdits (g.edits file node))

/-- At most one spelling of the language of a file plans something for it.  Where its edits
are applied, the file can be overwritten in place, and the spellings after it plan nothing
for what they write. -/
structure OneSpelling
    (now : UInt64)
    {ag : AstGrep}
    (groups : List (BatchGroup ag File))
    (file : File)
    (node : Option SourceFile) : Prop where
  single : groups.Pairwise fun g h => file ∈ g.files → file ∈ h.files →
    g.plan file node = .ok none ∨ h.plan file node = .ok none
  settled : groups.Pairwise fun g h => file ∈ g.files → file ∈ h.files →
    g.kept file node ≠ [] → ∀ n source rewritten, node = some n →
      readToString node = some source →
      rewriteSourceWithEdits file source (g.kept file node) = .ok rewritten →
        h.plan file (some (n.overwritten now rewritten)) = .ok none
  overwritable : ∀ g ∈ groups, file ∈ g.files → g.kept file node ≠ [] →
    ∃ n, node = some n ∧ n.overwritable = true

/-- The condition for every file, for the groups that the rules form. -/
def OneSpellingPerFile
    (now : UInt64)
    (ag : AstGrep)
    (root : SearchRoot File)
    (T : SourceTree File)
    (rewrites : List BatchRewriteRule) : Prop :=
  ∀ compiled groups, @compileBatchRewritesByLang File ag rewrites = .ok compiled →
    compiled.mapM (selectBatchGroup ag root) = .ok groups →
      ∀ file, OneSpelling now groups file (T file)

/-! ## One file of one group -/

section OneFile

variable {now : UInt64} {display : File → String} {ag : AstGrep} {g h : BatchGroup ag File}
  {groups : List (BatchGroup ag File)} {file f : File} {node : Option SourceFile}
  {es : List (RewriteEdit File)}

/-- Validation keeps all edits of the only file, or none. -/
theorem validateBatch_of_one_file
    (hfile : ∀ e ∈ es, e.file = f) :
    (validateBatchNoOverlaps display es).1 = allOrNone es := by
  have hall : es.filter (fun e => e.file = f) = es := by
    rw [List.filter_eq_self]
    intro e he
    exact decide_eq_true (hfile e he)
  have hkept : (validateBatchNoOverlaps display es).1.filter (fun e => e.file = f) =
      (validateBatchNoOverlaps display es).1 := by
    rw [List.filter_eq_self]
    intro e he
    rw [validateBatchNoOverlaps] at he
    obtain ⟨group, hgroup, he⟩ := List.mem_flatMap.mp he
    obtain ⟨a, -, rfl⟩ := List.mem_map.mp (List.mem_filter.mp hgroup).1
    exact decide_eq_true (hfile e (List.mem_filter.mp he).1)
  rw [← hkept, filter_validateBatch, hall, allOrNone]

theorem file_of_sorted :
    ∀ e ∈ sortRewriteEdits (g.edits file node), e.file = file := by
  intro e he
  rw [sortRewriteEdits, mem_sortByKey] at he
  exact (g.mem_edits he).1

theorem BatchGroup.kept_aligned :
    DisjointInOrder (g.kept file node) ∧ ∀ e ∈ g.kept file node,
      ∃ source, readToString node = some source ∧ Aligned source e.byteRange := by
  have hmem : ∀ e ∈ sortRewriteEdits (g.edits file node), ∃ source,
      readToString node = some source ∧ Aligned source e.byteRange := by
    intro e he
    rw [sortRewriteEdits, mem_sortByKey] at he
    exact (g.mem_edits he).2.2
  constructor
  · refine disjoint_allOrNone ?_
    intro e he
    obtain ⟨source, -, haligned⟩ := hmem e he
    exact haligned.ordered
  · intro e he
    exact hmem e (allOrNone_subset e he)

/-- A group that plans nothing has no edits. -/
theorem BatchGroup.kept_of_none
    (hplan : g.plan file node = .ok none) :
    g.kept file node = [] := by
  rw [BatchGroup.kept, BatchGroup.edits_of_none hplan]
  rfl

/-- What a group does to a file: it reports its edits and rejections, and the file holds the
spliced text, or is as it was. -/
theorem singleBatch_spec
    (hplan : ∃ o, g.plan file node = .ok o)
    (hwritable : g.kept file node ≠ [] → ∃ n, node = some n ∧ n.overwritable = true) :
    ∃ o, (planAndApplySingleBatchRewrite now display g file node).1 = .ok o ∧
      o.toList.flatMap PerFileRewriteOutcome.edits = g.kept file node ∧
      o.toList.flatMap PerFileRewriteOutcome.rejectedOverlaps =
        (validateBatchNoOverlaps display (sortRewriteEdits (g.edits file node))).2 ∧
      (g.kept file node = [] ∧
          (planAndApplySingleBatchRewrite now display g file node).2 = node ∨
        g.kept file node ≠ [] ∧ ∃ n source rewritten, node = some n ∧
          readToString node = some source ∧
          rewriteSourceWithEdits file source (g.kept file node) = .ok rewritten ∧
          (planAndApplySingleBatchRewrite now display g file node).2 =
            some (n.overwritten now rewritten)) := by
  obtain ⟨o, hplan⟩ := hplan
  rw [planAndApplySingleBatchRewrite]
  cases o with
  | none =>
      rw [hplan]
      refine ⟨none, rfl, ?_, ?_, Or.inl ⟨BatchGroup.kept_of_none hplan, rfl⟩⟩
      · rw [BatchGroup.kept_of_none hplan]
        rfl
      · rw [BatchGroup.edits_of_none hplan]
        rfl
  | some prepared =>
      have hplanned : Planned file node prepared := planFile_spec hplan
      have hedits : g.edits file node = prepared.edits := BatchGroup.edits_of_some hplan
      have hkept : (validateBatchNoOverlaps display (sortRewriteEdits prepared.edits)).1 =
          g.kept file node := by
        rw [BatchGroup.kept, ← hedits]
        exact validateBatch_of_one_file file_of_sorted
      have hkeeps : KeepsDisjoint (validateBatchNoOverlaps display)
          (sortRewriteEdits prepared.edits) := by
        constructor
        · rw [hkept, ← hedits]
          exact allOrNone_subset
        · rw [hkept]
          exact BatchGroup.kept_aligned.1
      rw [hplan]
      obtain ⟨n, hnode, hcases⟩ := @planAndApplySingle_spec File _ now file node prepared
        (validateBatchNoOverlaps display) hplanned hkeeps
      rw [hkept, ← hedits] at hcases
      rcases hcases with ⟨hne, -, rewritten, hrewrite, hrun⟩ | ⟨hne, hno, -⟩ | ⟨hnil, hrun⟩
      · rw [hrun]
        refine ⟨_, rfl, List.flatMap_singleton _ _, List.flatMap_singleton _ _, Or.inr ⟨hne, ?_⟩⟩
        exact ⟨n, prepared.originalSource, rewritten, hnode, hplanned.read, hrewrite, rfl⟩
      · obtain ⟨n', hn', hwritable⟩ := hwritable hne
        rw [hnode] at hn'
        cases hn'
        rw [hno] at hwritable
        cases hwritable
      · rw [hrun, hnil]
        refine ⟨_, rfl, ?_, ?_, Or.inl ⟨rfl, rfl⟩⟩
        · split_ifs <;> rfl
        · split_ifs with hrej
          · rw [hrej]
            rfl
          · exact List.flatMap_singleton _ _

end OneFile

/-! ## One group -/

section OneGroup

variable {now : UInt64} {display : File → String} {ag : AstGrep} {g : BatchGroup ag File}
  {groups : List (BatchGroup ag File)} {f : File} {node node' : Option SourceFile}

/-- Groups that plan nothing have no pooled edits. -/
theorem pooledEdits_eq_nil
    (hnone : ∀ h ∈ groups, f ∈ h.files → h.plan f node = .ok none) :
    pooledEdits groups f node = [] := by
  rw [pooledEdits, List.flatMap_eq_nil_iff]
  intro h hh
  split_ifs with hf
  · exact BatchGroup.edits_of_none (hnone h hh hf)
  · rfl

/-- The condition holds for groups that plan nothing. -/
theorem oneSpelling_of_none
    (hnone : ∀ h ∈ groups, f ∈ h.files → h.plan f node = .ok none) :
    OneSpelling now groups f node := by
  refine ⟨?_, ?_, ?_⟩
  · refine List.Pairwise.imp_of_mem ?_ (List.pairwise_of_forall (R := fun _ _ => True)
      (fun _ _ => trivial))
    intro a b ha _ _ hfa _
    exact Or.inl (hnone a ha hfa)
  · refine List.Pairwise.imp_of_mem ?_ (List.pairwise_of_forall (R := fun _ _ => True)
      (fun _ _ => trivial))
    intro a b ha _ _ hfa _ hkept
    exact absurd (BatchGroup.kept_of_none (hnone a ha hfa)) hkept
  · intro h hh hf hkept
    exact absurd (BatchGroup.kept_of_none (hnone h hh hf)) hkept

/-- What the first group does to a file, seen by the groups after it: either the file is as
it was and the first group has no part in its pooled edits, or the first group has all of
them and the others plan nothing any more. -/
inductive FirstGroup
    (g : BatchGroup ag File)
    (groups : List (BatchGroup ag File))
    (f : File)
    (node node' : Option SourceFile) : Prop where
  | passes
      (same : node' = node)
      (pooled : pooledEdits (g :: groups) f node = pooledEdits groups f node)
      (none : f ∈ g.files → g.edits f node = [])
  | owns
      (mem : f ∈ g.files)
      (pooled : pooledEdits (g :: groups) f node = g.edits f node)
      (settled : ∀ h ∈ groups, f ∈ h.files → h.plan f node' = .ok none)
      (content : node'.map SourceFile.content = contentAfter node (g.kept f node))

theorem firstGroup_of_not_mem
    (hf : f ∉ g.files) :
    FirstGroup g groups f node node := by
  refine .passes rfl ?_ (fun h => absurd h hf)
  rw [pooledEdits, List.flatMap_cons, if_neg hf, List.nil_append, pooledEdits]

theorem firstGroup_of_mem
    (hf : f ∈ g.files)
    (hplan : ∃ o, g.plan f node = .ok o)
    (hone : OneSpelling now (g :: groups) f node) :
    FirstGroup g groups f node (planAndApplySingleBatchRewrite now display g f node).2 := by
  obtain ⟨hsingle, hsettled, hwritable⟩ := hone
  obtain ⟨hsingle, -⟩ := List.pairwise_cons.mp hsingle
  obtain ⟨hsettled, -⟩ := List.pairwise_cons.mp hsettled
  obtain ⟨o, -, -, -, hnode⟩ := @singleBatch_spec File _ now display ag g f node hplan
    (hwritable g List.mem_cons_self hf)
  have hcons : pooledEdits (g :: groups) f node =
      g.edits f node ++ pooledEdits groups f node := by
    rw [pooledEdits, List.flatMap_cons, if_pos hf, pooledEdits]
  by_cases hnone : g.plan f node = .ok none
  · have hkept : g.kept f node = [] := BatchGroup.kept_of_none hnone
    rcases hnode with ⟨-, hsame⟩ | ⟨hne, -⟩
    · refine .passes hsame ?_ (fun _ => BatchGroup.edits_of_none hnone)
      rw [hcons, BatchGroup.edits_of_none hnone, List.nil_append]
    · exact absurd hkept hne
  · have hothers : ∀ h ∈ groups, f ∈ h.files → h.plan f node = .ok none := by
      intro h hh hfh
      rcases hsingle h hh hf hfh with hg | hh
      · exact absurd hg hnone
      · exact hh
    refine .owns hf ?_ ?_ ?_
    · rw [hcons, pooledEdits_eq_nil hothers, List.append_nil]
    · rcases hnode with ⟨-, hsame⟩ | ⟨hne, n, source, rewritten, hn, hread, hrewrite, hnode⟩
      · rw [hsame]
        exact hothers
      · intro h hh hfh
        rw [hnode]
        exact hsettled h hh hf hfh hne n source rewritten hn hread hrewrite
    · rcases hnode with ⟨hnil, hsame⟩ | ⟨hne, n, source, rewritten, hn, hread, hrewrite, hnode⟩
      · rw [hsame, hnil, contentAfter, if_pos rfl]
      · obtain ⟨hdisjoint, haligned⟩ := @BatchGroup.kept_aligned File _ ag g f node
        have hsource : ∀ e ∈ g.kept f node, Aligned source e.byteRange := by
          intro e he
          obtain ⟨source', hread', ha⟩ := haligned e he
          rw [hread] at hread'
          cases hread'
          exact ha
        obtain ⟨result, hresult, hbytes⟩ := rewriteSourceWithEdits_spec f hdisjoint hsource
        rw [hrewrite] at hresult
        cases hresult
        rw [hnode, contentAfter, if_neg hne, hread, Option.map_some, Option.map_some, ← hbytes]
        rfl

end OneGroup

/-! ## The loop over the groups -/

section Loop

variable {now : UInt64} {display : File → String} {ag : AstGrep} {root : SearchRoot File}
  {g : BatchGroup ag File} {groups : List (BatchGroup ag File)} {T T₁ T' : SourceTree File}
  {edits : List (RewriteEdit File)} {rejected : List (OverlapRejection File)}

/-- Put the effect of the first group in front of that of the others. -/
theorem batchEffect_cons
    {own : List (RewriteEdit File)}
    {ownRejected : List (OverlapRejection File)}
    (hfirst : ∀ f, FirstGroup g groups f (T f) (T₁ f))
    (hedits : ∀ f, own.filter (fun e => e.file = f) =
      if f ∈ g.files then g.kept f (T f) else [])
    (hrejected : ∀ f, f ∈ ownRejected.map OverlapRejection.file ↔ f ∈ g.files ∧
      ¬ NeighboursDisjoint ((sortRewriteEdits (g.edits f (T f))).map RewriteEdit.byteRange))
    (heffect : BatchEffect groups T₁ T' edits rejected) :
    BatchEffect (g :: groups) T T' (own ++ edits) (ownRejected ++ rejected) := by
  obtain ⟨hcontent, hreport, hrej⟩ := heffect
  refine ⟨?_, ?_, ?_⟩
  · intro f
    rw [hcontent f]
    cases hfirst f with
    | passes same pooled none => rw [same, pooled]
    | owns mem pooled settled content =>
        rw [pooledEdits_eq_nil settled, pooled]
        exact content
  · intro f
    rw [List.filter_append, List.map_append, hreport f, hedits f]
    cases hfirst f with
    | passes same pooled none =>
        rw [same, pooled]
        split_ifs with hf
        · rw [BatchGroup.kept, none hf]
          rfl
        · rfl
    | owns mem pooled settled content =>
        rw [pooledEdits_eq_nil settled, pooled, if_pos mem]
        exact List.append_nil _
  · intro f
    rw [List.map_append, List.mem_append, hrej f, hrejected f]
    cases hfirst f with
    | passes same pooled none =>
        rw [same, pooled, or_iff_right_iff_imp]
        rintro ⟨hf, hnot⟩
        rw [none hf] at hnot
        exact absurd List.IsChain.nil hnot
    | owns mem pooled settled content =>
        rw [pooledEdits_eq_nil settled, pooled, and_iff_right mem, or_iff_left_iff_imp]
        intro hnot
        exact absurd List.IsChain.nil hnot

/-- The outcomes of the files of a group, file by file. -/
theorem filter_outcomes
    {o : File → Option (PerFileRewriteOutcome File)}
    (hnodup : g.files.Nodup)
    (hedits : ∀ f ∈ g.files,
      (o f).toList.flatMap PerFileRewriteOutcome.edits = g.kept f (T f))
    (f : File) :
    (((g.files.map o).flatMap Option.toList).flatMap PerFileRewriteOutcome.edits).filter
        (fun e => e.file = f) = if f ∈ g.files then g.kept f (T f) else [] := by
  have hown : ∀ a ∈ g.files,
      ((o a).toList.flatMap PerFileRewriteOutcome.edits).filter (fun e => e.file = f) =
        if a = f then g.kept f (T f) else [] := by
    intro a ha
    have hfile : ∀ e ∈ g.kept a (T a), e.file = a := fun e he =>
      file_of_sorted e (allOrNone_subset e he)
    rw [hedits a ha]
    by_cases haf : a = f
    · subst haf
      rw [if_pos rfl, List.filter_eq_self]
      intro e he
      exact decide_eq_true (hfile e he)
    · rw [if_neg haf, List.filter_eq_nil_iff]
      intro e he hef
      exact haf ((hfile e he).symm.trans (of_decide_eq_true hef))
  rw [List.flatMap_map, List.flatMap_assoc, List.filter_flatMap, ← flatMap_ite_eq hnodup f]
  exact List.flatMap_congr hown

theorem mem_rejected_outcomes
    {o : File → Option (PerFileRewriteOutcome File)}
    (hrejected : ∀ f ∈ g.files,
      (o f).toList.flatMap PerFileRewriteOutcome.rejectedOverlaps =
        (validateBatchNoOverlaps display (sortRewriteEdits (g.edits f (T f)))).2)
    (f : File) :
    f ∈ (((g.files.map o).flatMap Option.toList).flatMap
        PerFileRewriteOutcome.rejectedOverlaps).map OverlapRejection.file ↔
      f ∈ g.files ∧ ¬ NeighboursDisjoint
        ((sortRewriteEdits (g.edits f (T f))).map RewriteEdit.byteRange) := by
  have hown : ∀ a ∈ g.files, (f ∈ ((o a).toList.flatMap
      PerFileRewriteOutcome.rejectedOverlaps).map OverlapRejection.file ↔
        a = f ∧ ¬ NeighboursDisjoint
          ((sortRewriteEdits (g.edits f (T f))).map RewriteEdit.byteRange)) := by
    intro a ha
    rw [hrejected a ha, mem_rejected_validateBatch]
    by_cases haf : a = f
    · subst haf
      have hall : (sortRewriteEdits (g.edits a (T a))).filter (fun e => e.file = a) =
          sortRewriteEdits (g.edits a (T a)) := by
        rw [List.filter_eq_self]
        intro e he
        exact decide_eq_true (file_of_sorted e he)
      rw [hall, and_iff_right rfl]
    · have hnone : (sortRewriteEdits (g.edits a (T a))).filter (fun e => e.file = f) = [] := by
        rw [List.filter_eq_nil_iff]
        intro e he hef
        exact haf ((file_of_sorted e he).symm.trans (of_decide_eq_true hef))
      rw [hnone]
      exact iff_of_false (fun h => h List.IsChain.nil) (fun h => haf h.1)
  rw [List.flatMap_map, List.flatMap_assoc, List.map_flatMap, List.mem_flatMap]
  constructor
  · rintro ⟨a, ha, hf⟩
    obtain ⟨rfl, hnot⟩ := (hown a ha).mp hf
    exact ⟨ha, hnot⟩
  · rintro ⟨hf, hnot⟩
    exact ⟨f, hf, (hown f hf).mpr ⟨rfl, hnot⟩⟩

/-- What the tasks of the first group do. -/
theorem runGroup_spec
    (hnodup : g.files.Nodup)
    (hplans : ∀ f ∈ g.files, ∃ o, g.plan f (T f) = .ok o)
    (hone : ∀ f, OneSpelling now (g :: groups) f (T f))
    (hT₁ : (runTasks id (fun file => planAndApplySingleBatchRewrite now display g file)
      T g.files).2 = T₁) :
    (∀ f, FirstGroup g groups f (T f) (T₁ f)) ∧
    ∃ outcomes, joinAll (runTasks id
        (fun file => planAndApplySingleBatchRewrite now display g file) T g.files).1 =
          .ok outcomes ∧
      ∀ edits rejected T', BatchEffect groups T₁ T' edits rejected →
        BatchEffect (g :: groups) T T'
          ((outcomes.flatMap Option.toList).flatMap PerFileRewriteOutcome.edits ++ edits)
          ((outcomes.flatMap Option.toList).flatMap PerFileRewriteOutcome.rejectedOverlaps ++
            rejected) := by
  have hkeys : (g.files.map id).Nodup := by
    rw [List.map_id]
    exact hnodup
  have hfirst : ∀ f, FirstGroup g groups f (T f) (T₁ f) := by
    intro f
    rw [← hT₁]
    by_cases hf : f ∈ g.files
    · change FirstGroup g groups f (T f) ((runTasks id _ T g.files).2 (id f))
      rw [runTasks_owned hkeys hf]
      exact firstGroup_of_mem hf (hplans f hf) (hone f)
    · rw [runTasks_of_not_mem (by rwa [List.map_id])]
      exact firstGroup_of_not_mem hf
  have hspec : ∀ f, ∃ o, f ∈ g.files →
      (planAndApplySingleBatchRewrite now display g f (T f)).1 = .ok o ∧
      o.toList.flatMap PerFileRewriteOutcome.edits = g.kept f (T f) ∧
      o.toList.flatMap PerFileRewriteOutcome.rejectedOverlaps =
        (validateBatchNoOverlaps display (sortRewriteEdits (g.edits f (T f)))).2 := by
    intro f
    by_cases hf : f ∈ g.files
    · obtain ⟨o, ho, he, hr, -⟩ := @singleBatch_spec File _ now display ag g f (T f)
        (hplans f hf) ((hone f).overwritable g List.mem_cons_self hf)
      exact ⟨o, fun _ => ⟨ho, he, hr⟩⟩
    · exact ⟨none, fun h => absurd h hf⟩
  choose o ho using hspec
  refine ⟨hfirst, g.files.map o, ?_, ?_⟩
  · rw [joinAll_eq_ok_iff, runTasks_results hkeys, List.map_map]
    exact List.map_congr_left (fun f hf => (ho f hf).1)
  · intro edits rejected T' heffect
    exact batchEffect_cons hfirst
      (filter_outcomes hnodup (fun f hf => (ho f hf).2.1))
      (mem_rejected_outcomes (fun f hf => (ho f hf).2.2)) heffect

/-- The groups after the first meet files that have one spelling, and plan all of them. -/
theorem rest_of_firstGroup
    (hfirst : ∀ f, FirstGroup g groups f (T f) (T₁ f))
    (hplans : ∀ h ∈ groups, ∀ f ∈ h.files, ∃ o, h.plan f (T f) = .ok o)
    (hone : ∀ f, OneSpelling now (g :: groups) f (T f)) :
    (∀ h ∈ groups, ∀ f ∈ h.files, ∃ o, h.plan f (T₁ f) = .ok o) ∧
      ∀ f, OneSpelling now groups f (T₁ f) := by
  constructor
  · intro h hh f hf
    cases hfirst f with
    | passes same pooled none =>
        rw [same]
        exact hplans h hh f hf
    | owns mem pooled settled content => exact ⟨_, settled h hh hf⟩
  · intro f
    cases hfirst f with
    | passes same pooled none =>
        rw [same]
        obtain ⟨hsingle, hsettled, hwritable⟩ := hone f
        exact ⟨(List.pairwise_cons.mp hsingle).2, (List.pairwise_cons.mp hsettled).2,
          fun h hh => hwritable h (List.mem_cons_of_mem _ hh)⟩
    | owns mem pooled settled content => exact oneSpelling_of_none settled

/-- From files with one spelling, the loop does to every file what its pooled edits say. -/
theorem runBatchGroups_effect
    {compiled : List (String × List (CompiledRewrite ag))}
    (hselect : List.Forall₂ (fun group g => selectBatchGroup ag root group = .ok g)
      compiled groups)
    (hplans : ∀ g ∈ groups, ∀ f ∈ g.files, ∃ o, g.plan f (T f) = .ok o)
    (hone : ∀ f, OneSpelling now groups f (T f)) :
    ∃ done T', runBatchGroups now ag display root T compiled = (.ok done, T') ∧
      BatchEffect groups T T' (done.2.flatMap PerFileRewriteOutcome.edits)
        (done.2.flatMap PerFileRewriteOutcome.rejectedOverlaps) := by
  induction hselect generalizing T with
  | nil =>
      refine ⟨(0, []), T, rfl, ⟨?_, fun f => rfl, ?_⟩⟩
      · intro f
        rfl
      · intro f
        exact iff_of_false (by simp) (fun h => h List.IsChain.nil)
  | @cons group g compiled groups hg _ ih =>
      obtain ⟨hfirst, outcomes, hjoin, hcons⟩ := @runGroup_spec File _ now display ag g groups
        T _ (nodup_batchFiles hg) (hplans g List.mem_cons_self) hone rfl
      obtain ⟨hplans', hone'⟩ := rest_of_firstGroup hfirst
        (fun h hh => hplans h (List.mem_cons_of_mem _ hh)) hone
      obtain ⟨done, T', hrun, heffect⟩ := ih hplans' hone'
      refine ⟨(g.files.length + done.1, outcomes.flatMap Option.toList ++ done.2), T', ?_, ?_⟩
      · rw [runBatchGroups, hg]
        dsimp only
        rw [hjoin]
        dsimp only
        rw [hrun, Outcome.bind_ok]
      · dsimp only
        rw [List.flatMap_append, List.flatMap_append]
        exact hcons _ _ _ heffect

end Loop

/-! ## The two modes agree -/

/-- On files with one spelling, the one-shot mode writes what the plan and its application
write, and reports the same edits and the same rejected files. -/
theorem batch_oneShot_agrees
    {ag : AstGrep}
    {display : File → String}
    {root : SearchRoot File}
    {T T₂ : SourceTree File}
    {rewrites : List BatchRewriteRule}
    {plan : BatchRewritePlan File}
    {now now' : UInt64}
    {written : Nat}
    (hplan : planBatchRewrites ag display root T rewrites = .ok plan)
    (happly : applyBatchRewrites now' T plan = (.ok written, T₂))
    (hone : OneSpellingPerFile now ag root T rewrites) :
    ∃ done T₁, planAndApplyBatch now ag display root T rewrites = (.ok done, T₁) ∧
      (∀ f, (T₁ f).map SourceFile.content = (T₂ f).map SourceFile.content) ∧
      (∀ r, r ∈ done.edits.map RewriteEdit.report ↔ r ∈ plan.edits.map RewriteEdit.report) ∧
      ∀ f, f ∈ done.rejectedOverlaps.map OverlapRejection.file ↔
        f ∈ plan.rejectedOverlaps.map OverlapRejection.file := by
  obtain ⟨compiled, groups, hrules, hcompiled, hgroups, hplans, hcontent, hreport, hrejected⟩ :=
    planThenApply_effect hplan happly
  obtain ⟨done, T₁, hrun, hcontent₁, hreport₁, hrejected₁⟩ :=
    @runBatchGroups_effect File _ now display ag root groups T compiled
      (mapM_eq_ok_iff.mp hgroups) hplans (hone compiled groups hcompiled hgroups)
  refine ⟨⟨rewrites, done.1,
    assignEditIds root (sortRewriteEdits (done.2.flatMap PerFileRewriteOutcome.edits)),
    sortOverlapRejections (done.2.flatMap PerFileRewriteOutcome.rejectedOverlaps)⟩,
    T₁, ?_, ?_, ?_, ?_⟩
  · rw [planAndApplyBatch, if_neg hrules, hcompiled]
    dsimp only
    rw [hrun, Outcome.bind_ok]
  · intro f
    rw [hcontent₁ f, hcontent f]
  · intro r
    have hsame : ((done.2.flatMap PerFileRewriteOutcome.edits).filter
        (fun e => e.file = r.1)).map RewriteEdit.report =
          (plan.edits.filter (fun e => e.file = r.1)).map RewriteEdit.report :=
      (hreport₁ r.1).trans (hreport r.1).symm
    dsimp only
    rw [report_assignEditIds]
    rw [filter_file_report, filter_file_report] at hsame
    have hmem := congrArg (fun l => r ∈ l) hsame
    simp only [List.mem_filter, decide_true, and_true] at hmem
    rw [← hmem]
    simp only [List.mem_map, sortRewriteEdits, mem_sortByKey]
  · intro f
    have hmem : f ∈ (sortOverlapRejections
        (done.2.flatMap PerFileRewriteOutcome.rejectedOverlaps)).map OverlapRejection.file ↔
          f ∈ (done.2.flatMap PerFileRewriteOutcome.rejectedOverlaps).map
            OverlapRejection.file := by
      simp only [List.mem_map, sortOverlapRejections, mem_sortByKey]
    rw [hmem, hrejected₁ f, hrejected f]

/-- The first file says `ab`, the others are empty. -/
def shortTree : SourceTree Nat := fun file =>
  some (plainSource (if file = 0 then ['a', 'b'] else []))

/-- A rule for `py` that matches, and one for `python` that does not. -/
def quietRules : List BatchRewriteRule := [⟨"a", ['c'], "py"⟩, ⟨"z", ['y'], "python"⟩]

/-- The group that `quietRules` form for `py`, and the one for `python`. -/
def pyGroup : BatchGroup letterGrep Nat := ⟨.python, [⟨'a', ['c']⟩], [0, 1]⟩

def pythonGroup : BatchGroup letterGrep Nat := ⟨.python, [⟨'z', ['y']⟩], [0, 1]⟩

theorem selected_quietRules
    {compiled : List (String × List (CompiledRewrite letterGrep))}
    {groups : List (BatchGroup letterGrep Nat)}
    (hcompiled : @compileBatchRewritesByLang Nat letterGrep quietRules = .ok compiled)
    (hgroups : compiled.mapM (selectBatchGroup letterGrep twoFiles) = .ok groups) :
    groups = [pyGroup, pythonGroup] := by
  have hselected : (@compileBatchRewritesByLang Nat letterGrep quietRules).bind
      (fun compiled => compiled.mapM (selectBatchGroup letterGrep twoFiles)) =
        .ok [pyGroup, pythonGroup] := rfl
  rw [hcompiled] at hselected
  change compiled.mapM (selectBatchGroup letterGrep twoFiles) = _ at hselected
  rw [hgroups] at hselected
  exact Except.ok.inj hselected

theorem oneSpelling_quietRules :
    OneSpellingPerFile 5 letterGrep twoFiles shortTree quietRules := by
  intro compiled groups hcompiled hgroups file
  rw [selected_quietRules hcompiled hgroups]
  have hquiet : ∀ file ∈ pythonGroup.files,
      pythonGroup.plan file (shortTree file) = .ok none := by
    intro file hfile
    change file ∈ [0, 1] at hfile
    rcases List.mem_pair.mp hfile with rfl | rfl
    · rfl
    · rfl
  refine ⟨List.pairwise_pair.mpr ?_, List.pairwise_pair.mpr ?_, ?_⟩
  · intro _ hfile
    exact Or.inr (hquiet file hfile)
  · intro hfile _ hkept n source rewritten hn hread hrewrite
    change file ∈ [0, 1] at hfile
    rcases List.mem_pair.mp hfile with rfl | rfl
    · cases hn
      have hread' : readToString (shortTree 0) = some ['a', 'b'] := rfl
      rw [hread] at hread'
      cases hread'
      have hrewrite' : rewriteSourceWithEdits 0 ['a', 'b'] (pyGroup.kept 0 (shortTree 0)) =
          .ok ['c', 'b'] := rfl
      rw [hrewrite] at hrewrite'
      cases hrewrite'
      rfl
    · exact absurd rfl hkept
  · intro g _ _ _
    exact ⟨_, rfl, rfl⟩

/-- With rules for `py` and `python` of which the second matches nowhere, both modes agree. -/
theorem batch_oneShot_agrees_quietRules :
    ∃ done T₁, planAndApplyBatch 5 letterGrep toString twoFiles shortTree quietRules =
        (.ok done, T₁) ∧
      ∀ r, r ∈ done.edits.map RewriteEdit.report ↔ r ∈ [(0, ⟨0, 1⟩, ['a'], ['c'])] := by
  obtain ⟨done, T₁, hdone, -, hreport, -⟩ := @batch_oneShot_agrees Nat _ letterGrep toString
    twoFiles shortTree _ quietRules _ 5 5 _ rfl rfl oneSpelling_quietRules
  exact ⟨done, T₁, hdone, hreport⟩

/-- What the rule for `py` writes is rewritten by the rule for `python`. -/
def chainedRules : List BatchRewriteRule := [⟨"a", ['b'], "py"⟩, ⟨"b", ['c'], "python"⟩]

/-- In two steps `ab` becomes `bc`; the one-shot batch makes it `cc`. -/
theorem batch_oneShot_differs_chainedRules :
    ∃ plan, planBatchRewrites letterGrep toString twoFiles shortTree chainedRules = .ok plan ∧
      (applyBatchRewrites 5 shortTree plan).1 = .ok 1 ∧
      ((applyBatchRewrites 5 shortTree plan).2 0).map SourceFile.content =
        some (utf8 ['b', 'c']) ∧
      ((planAndApplyBatch 5 letterGrep toString twoFiles shortTree chainedRules).2 0).map
        SourceFile.content = some (utf8 ['c', 'c']) :=
  ⟨_, rfl, rfl, rfl, rfl⟩

end Rewrite
end TensorGrep
