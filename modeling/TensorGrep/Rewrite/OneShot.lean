import TensorGrep.Rewrite.Planning
import TensorGrep.Rewrite.Verify

/-!
# A rewrite that fails

`plan_rewrites` reads every collected file and fails when one of them cannot be
planned.  `plan_and_apply` meets the same failure, but by then it has written
the other files.  `planFile_spec` says what a planned file is, and
`planAndApplySingle_spec` what becomes of it; from these two
`failed_rewrite_exact` tells when a failed rewrite has changed nothing.
-/

namespace TensorGrep
namespace Rewrite

open Kernel

variable {File : Type} [LinearOrder File]

/-! ## A planned file -/

section PlannedFile

variable {ag : AstGrep} {lang : SupportLang} {file : File} {node : Option SourceFile}
  {rewrites : List (CompiledRewrite ag)} {prepared : PreparedRewriteFile File}
  {source : RewriteSource}

omit [LinearOrder File] in
/-- What loading a source reads. -/
theorem loadRewriteSource_eq_some
    (h : loadRewriteSource file node = .ok (some source)) :
    fileMtimeNs file node = .ok source.plannedMtimeNs ∧
      readToString node = some source.originalSource := by
  rw [loadRewriteSource, bind_eq_ok_iff] at h
  obtain ⟨mtime, hmtime, h⟩ := h
  split_ifs at h with hlarge
  · cases h
  · cases hbytes : readBytes node with
    | none =>
        rw [hbytes] at h
        cases h
    | some bytes =>
        rw [hbytes] at h
        dsimp only at h
        split_ifs at h with hbinary
        · cases h
        · cases htext : fromUtf8 bytes with
          | none =>
              rw [htext] at h
              cases h
          | some text =>
              rw [htext] at h
              cases h
              exact ⟨hmtime, by rw [readToString, hbytes, Option.bind_some, htext]⟩

/-- The byte order mark is an encoded prefix of the source. -/
theorem exists_bom
    (s : RewriteSource) :
    ∃ bom, s.originalSource = bom ++ s.astSource ∧ (utf8 bom).length = s.bomLen := by
  rw [RewriteSource.astSource, RewriteSource.bomLen]
  split_ifs with h
  · obtain ⟨rest, hrest⟩ := List.head?_eq_some_iff.mp h
    rw [hrest]
    exact ⟨['\uFEFF'], rfl, by decide⟩
  · exact ⟨[], rfl, rfl⟩

omit [LinearOrder File] in
/-- A range that passes the check is aligned, also where the byte order mark is counted. -/
theorem aligned_of_ensureValid
    {r : ByteRange}
    (h : ensureValidUtf8Range source.astSource file r = .ok ()) :
    Aligned source.originalSource ⟨r.start + source.bomLen, r.stop + source.bomLen⟩ := by
  rw [ensureValidUtf8Range] at h
  split_ifs at h with hout hbounds
  obtain ⟨hstart, hstop⟩ := hbounds
  obtain ⟨bom, hbom, hlen⟩ := exists_bom source
  have hshift : ∀ i, isCharBoundary (utf8 source.astSource) i = true →
      isCharBoundary (utf8 source.originalSource) (i + source.bomLen) = true := by
    intro i hi
    obtain ⟨p, s, hps, rfl⟩ := isCharBoundary_iff.mp hi
    refine isCharBoundary_iff.mpr ⟨bom ++ p, s, ?_, ?_⟩
    · rw [hbom, hps, List.append_assoc]
    · rw [utf8_append, List.length_append, hlen, Nat.add_comm]
  exact ⟨by dsimp only; omega, hshift _ hstart, hshift _ hstop⟩

/-- What is planned for a file: some edits of this file, all aligned in its current text and
planned for its current time. -/
structure Planned
    (file : File)
    (node : Option SourceFile)
    (prepared : PreparedRewriteFile File) : Prop where
  file_eq : prepared.file = file
  edits_ne : prepared.edits ≠ []
  read : readToString node = some prepared.originalSource
  edits : ∀ e ∈ prepared.edits, e.file = file ∧
    fileMtimeNs file node = .ok e.plannedMtimeNs ∧
    Aligned prepared.originalSource e.byteRange

omit [LinearOrder File] in
theorem planFile_spec
    (h : planFileBatchRewritesPrepared ag rewrites lang file node = .ok (some prepared)) :
    Planned file node prepared := by
  rw [planFileBatchRewritesPrepared, bind_eq_ok_iff] at h
  obtain ⟨loaded, hload, h⟩ := h
  cases loaded with
  | none => cases h
  | some source =>
      obtain ⟨hmtime, hread⟩ := loadRewriteSource_eq_some hload
      dsimp only at h
      by_cases hempty : source.astSource = []
      · rw [if_pos hempty] at h
        cases h
      rw [if_neg hempty, bind_eq_ok_iff] at h
      obtain ⟨edits, hedits, h⟩ := h
      by_cases hnone : edits.flatten = []
      · rw [if_pos hnone] at h
        cases h
      rw [if_neg hnone] at h
      cases h
      refine ⟨rfl, hnone, hread, ?_⟩
      intro e he
      obtain ⟨ruleEdits, hrule, he⟩ := List.mem_flatten.mp he
      obtain ⟨r, -, hr⟩ := exists_mem_of_mapM hedits hrule
      obtain ⟨m, -, hm⟩ := exists_mem_of_mapM hr he
      rw [editOfMatch, bind_eq_ok_iff] at hm
      obtain ⟨_, hvalid, hm⟩ := hm
      cases hm
      exact ⟨rfl, hmtime, aligned_of_ensureValid hvalid⟩

end PlannedFile

/-! ## Writing a planned file -/

section Writing

variable {now : UInt64} {file : File} {node : Option SourceFile}
  {prepared : PreparedRewriteFile File}
  {validate : List (RewriteEdit File) → List (RewriteEdit File) × List (OverlapRejection File)}

/-- What validation keeps of the edits of one file can be spliced. -/
structure KeepsDisjoint
    (validate : List (RewriteEdit File) →
      List (RewriteEdit File) × List (OverlapRejection File))
    (edits : List (RewriteEdit File)) : Prop where
  subset : ∀ e ∈ (validate edits).1, e ∈ edits
  disjoint : DisjointInOrder (validate edits).1

/-- A planned file is written when some edits are kept and it can be overwritten; it is left
alone otherwise, and only a refused write is an error. -/
theorem planAndApplySingle_spec
    (hplanned : Planned file node prepared)
    (hkeeps : KeepsDisjoint validate (sortRewriteEdits prepared.edits)) :
    ∃ n, node = some n ∧
      ((validate (sortRewriteEdits prepared.edits)).1 ≠ [] ∧ n.overwritable = true ∧
        (∃ rewritten, rewriteSourceWithEdits file prepared.originalSource
            (validate (sortRewriteEdits prepared.edits)).1 = .ok rewritten ∧
          planAndApplySingle now validate (.ok (some prepared)) node =
            (.ok (some ⟨(validate (sortRewriteEdits prepared.edits)).1,
              (validate (sortRewriteEdits prepared.edits)).2⟩),
            some { n with
              content := utf8 rewritten, modifiedNs := now.toNat, writes := n.writes + 1 })) ∨
      (validate (sortRewriteEdits prepared.edits)).1 ≠ [] ∧ n.overwritable = false ∧
        planAndApplySingle now validate (.ok (some prepared)) node =
          (.error (.notWritable file), node) ∨
      (validate (sortRewriteEdits prepared.edits)).1 = [] ∧
        planAndApplySingle now validate (.ok (some prepared)) node =
          (.ok (if (validate (sortRewriteEdits prepared.edits)).2 = [] then none
            else some ⟨[], (validate (sortRewriteEdits prepared.edits)).2⟩), node)) := by
  obtain ⟨hfile, -, hread, hedits⟩ := hplanned
  cases hnode : node with
  | none =>
      rw [hnode] at hread
      cases hread
  | some n =>
      refine ⟨n, rfl, ?_⟩
      rw [hnode] at hread hedits
      rw [planAndApplySingle, applyPreparedRewriteFile, hfile]
      generalize hkept : validate (sortRewriteEdits prepared.edits) = kept
      obtain ⟨valid, rejected⟩ := kept
      have hvalidMem : ∀ e ∈ valid, e ∈ prepared.edits := by
        intro e he
        have := hkeeps.subset e (by rw [hkept]; exact he)
        rwa [sortRewriteEdits, mem_sortByKey] at this
      have hdisjoint : DisjointInOrder valid := by
        have := hkeeps.disjoint
        rwa [hkept] at this
      dsimp only
      by_cases hnil : valid = []
      · right
        right
        subst hnil
        by_cases hrej : rejected = []
        · simp [hrej]
        · simp [hrej]
      · have hstale : ensureFileNotStale file valid (some n) = .ok () :=
          ensureFileNotStale_eq_ok_iff.mpr
            ⟨hnil, fun e he => (hedits e (hvalidMem e he)).2.1⟩
        obtain ⟨rewritten, hrewrite, -⟩ := rewriteSourceWithEdits_spec file hdisjoint
          (fun e he => (hedits e (hvalidMem e he)).2.2)
        rw [if_neg (fun h => hnil h.1), if_neg hnil, hstale]
        dsimp only
        rw [applyEditsToFileWithWriter, Option.some_or]
        dsimp only
        rw [hrewrite]
        simp only [directWriteFile]
        cases hwritable : n.overwritable with
        | true => exact Or.inl ⟨hnil, rfl, rewritten, rfl, rfl⟩
        | false => exact Or.inr (Or.inl ⟨hnil, rfl, rfl⟩)

end Writing

/-! ## What validation keeps -/

section Keeping

variable {edits : List (RewriteEdit File)}

/-- The first edit is always kept. -/
theorem validateNoOverlaps_ne_nil
    (hne : edits ≠ []) :
    (validateNoOverlaps edits).1 ≠ [] := by
  obtain ⟨first, rest, rfl⟩ := List.exists_cons_of_ne_nil hne
  have hfirst : (scanOverlaps [first]).valid = [first] := rfl
  have hkeptFirst := (scanOverlaps_valid_append [first] rest).subset
  rw [hfirst] at hkeptFirst
  exact List.ne_nil_of_mem (hkeptFirst List.mem_cons_self)

theorem sortRewriteEdits_ne_nil
    (hne : edits ≠ []) :
    sortRewriteEdits edits ≠ [] := by
  obtain ⟨e, he⟩ := List.exists_mem_of_ne_nil _ hne
  refine List.ne_nil_of_mem (a := e) ?_
  rw [sortRewriteEdits, mem_sortByKey]
  exact he

theorem Planned.keepsDisjoint
    {file : File}
    {node : Option SourceFile}
    {prepared : PreparedRewriteFile File}
    (h : Planned file node prepared) :
    KeepsDisjoint validateNoOverlaps (sortRewriteEdits prepared.edits) := by
  have hmem : ∀ e ∈ sortRewriteEdits prepared.edits, e ∈ prepared.edits := by
    intro e he
    rwa [sortRewriteEdits, mem_sortByKey] at he
  have hinv : ScanInv file (sortRewriteEdits prepared.edits) :=
    scan_inv (fun e he => (h.edits e (hmem e he)).1)
      (fun e he => (h.edits e (hmem e he)).2.2.ordered)
  exact ⟨fun e he => hinv.sublist.subset he, hinv.disjoint⟩

end Keeping

/-! ## The files that a one-shot rewrite writes -/

/-- Something is planned for the file: it is loaded, the pattern matches in it, and every
match lies in the source on character boundaries. -/
def HasRewrite
    (ag : AstGrep)
    (pattern : ag.Pattern)
    (lang : SupportLang)
    (file : File)
    (node : Option SourceFile) : Prop :=
  ∃ source, loadRewriteSource file node = .ok (some source) ∧ source.astSource ≠ [] ∧
    ag.findAll lang source.astSource pattern ≠ [] ∧
    ∀ m ∈ ag.findAll lang source.astSource pattern,
      ensureValidUtf8Range source.astSource file m.range = .ok ()

/-- One of the files that a rewrite selects has something to rewrite and can be overwritten
in place. -/
def CanWrite
    (ag : AstGrep)
    (root : SearchRoot File)
    (T : SourceTree File)
    (pattern lang : String) : Prop :=
  ∃ language compiled files, @resolveLanguage File ag lang = .ok language ∧
    @compilePattern File ag pattern language = .ok compiled ∧
    collectSourceFiles root language = .ok files ∧
    ∃ file ∈ files, HasRewrite ag compiled language file (T file) ∧
      ∃ n, T file = some n ∧ n.overwritable = true

section OneFile

variable {now : UInt64} {ag : AstGrep} {pattern : ag.Pattern} {replacement : Text}
  {lang : SupportLang} {file : File} {node : Option SourceFile}

omit [LinearOrder File] in
/-- Edits are planned for a file exactly when it has something to rewrite. -/
theorem planFileRewrites_eq_some_iff :
    (∃ prepared, planFileRewritesPrepared ag pattern replacement lang file node =
        .ok (some prepared)) ↔
      HasRewrite ag pattern lang file node := by
  rw [planFileRewritesPrepared, planFileBatchRewritesPrepared]
  constructor
  · rintro ⟨prepared, h⟩
    rw [bind_eq_ok_iff] at h
    obtain ⟨loaded, hload, h⟩ := h
    cases loaded with
    | none => cases h
    | some source =>
        dsimp only at h
        by_cases hempty : source.astSource = []
        · rw [if_pos hempty] at h
          cases h
        rw [if_neg hempty, bind_eq_ok_iff] at h
        obtain ⟨edits, hedits, h⟩ := h
        rw [mapM_eq_ok_iff, List.forall₂_cons_left_iff] at hedits
        obtain ⟨ruleEdits, rest, hrule, hrest, rfl⟩ := hedits
        rw [List.forall₂_nil_left_iff] at hrest
        subst hrest
        refine ⟨source, hload, hempty, ?_, ?_⟩
        · intro hnone
          rw [hnone] at hrule
          cases hrule
          cases h
        · intro m hm
          obtain ⟨e, -, he⟩ := exists_result_of_mapM hrule hm
          rw [editOfMatch, bind_eq_ok_iff] at he
          obtain ⟨_, hvalid, -⟩ := he
          exact hvalid
  · rintro ⟨source, hload, hempty, hmatch, hvalid⟩
    have hall : ∀ m ∈ ag.findAll lang source.astSource pattern,
        ∃ e, editOfMatch source file replacement m = .ok e := by
      intro m hm
      refine ⟨_, bind_eq_ok_iff.mpr ⟨_, hvalid m hm, rfl⟩⟩
    obtain ⟨edits, hedits⟩ := exists_mapM hall
    obtain ⟨m, hm⟩ := List.exists_mem_of_ne_nil _ hmatch
    obtain ⟨e, he, -⟩ := exists_result_of_mapM hedits hm
    have hne : [edits].flatten ≠ [] := by
      rw [List.flatten_singleton]
      exact List.ne_nil_of_mem he
    refine ⟨⟨file, source.originalSource, [edits].flatten⟩, bind_eq_ok_iff.mpr
      ⟨some source, hload, ?_⟩⟩
    dsimp only
    rw [if_neg hempty]
    refine bind_eq_ok_iff.mpr ⟨[edits], ?_, ?_⟩
    · exact mapM_eq_ok_iff.mpr (List.Forall₂.cons hedits List.Forall₂.nil)
    · rw [if_neg hne]

/-- A file is left as it was unless it has something to rewrite and can be overwritten. -/
theorem singleFile_unchanged_iff :
    (planAndApplySingleFileRewrite now ag pattern replacement lang file node).2 = node ↔
      ¬ (HasRewrite ag pattern lang file node ∧ ∃ n, node = some n ∧ n.overwritable = true) := by
  rw [planAndApplySingleFileRewrite, ← @planFileRewrites_eq_some_iff File ag pattern
    replacement]
  cases hplan : planFileRewritesPrepared ag pattern replacement lang file node with
  | error e =>
      refine iff_of_true rfl ?_
      rintro ⟨⟨prepared, h⟩, -⟩
      cases h
  | ok planned =>
      cases planned with
      | none =>
          refine iff_of_true rfl ?_
          rintro ⟨⟨prepared, h⟩, -⟩
          cases h
      | some prepared =>
          have hplanned := planFile_spec hplan
          have hkept := validateNoOverlaps_ne_nil (sortRewriteEdits_ne_nil hplanned.edits_ne)
          obtain ⟨n, rfl, ⟨-, hwritable, _, -, hrun⟩ | ⟨-, hwritable, hrun⟩ | ⟨hnil, -⟩⟩ :=
            @planAndApplySingle_spec File _ now file node prepared validateNoOverlaps
              hplanned hplanned.keepsDisjoint
          · rw [hrun]
            refine iff_of_false ?_ (fun h => h ⟨⟨prepared, rfl⟩, n, rfl, hwritable⟩)
            intro h
            have := congrArg SourceFile.writes (Option.some.inj h)
            dsimp only at this
            omega
          · rw [hrun]
            refine iff_of_true rfl ?_
            rintro ⟨-, n', hn', hwritable'⟩
            cases hn'
            rw [hwritable] at hwritable'
            cases hwritable'
          · exact absurd hnil hkept

/-- A file that cannot be planned is an error; no file is a panic. -/
theorem singleFile_outcome :
    (planAndApplySingleFileRewrite now ag pattern replacement lang file node).1 ≠ .panicked ∧
      ∀ e, planFileRewritesPrepared ag pattern replacement lang file node = .error e →
        (planAndApplySingleFileRewrite now ag pattern replacement lang file node).1 =
          .error e := by
  rw [planAndApplySingleFileRewrite]
  cases hplan : planFileRewritesPrepared ag pattern replacement lang file node with
  | error e =>
      refine ⟨by simp [planAndApplySingle], ?_⟩
      intro e' h
      cases h
      rfl
  | ok planned =>
      refine ⟨?_, fun e h => by cases h⟩
      cases planned with
      | none => simp [planAndApplySingle]
      | some prepared =>
          have hplanned := planFile_spec hplan
          obtain ⟨n, rfl, ⟨-, -, _, -, hrun⟩ | ⟨-, -, hrun⟩ | ⟨-, hrun⟩⟩ :=
            @planAndApplySingle_spec File _ now file node prepared validateNoOverlaps
              hplanned hplanned.keepsDisjoint
          all_goals
            rw [hrun]
            simp

end OneFile

/-! ## A failed rewrite -/

section Failing

variable {now : UInt64} {ag : AstGrep} {root : SearchRoot File} {T : SourceTree File}
  {pattern lang : String} {replacement : Text} {language : SupportLang}
  {compiled : ag.Pattern} {files : List File}

omit [LinearOrder File] in
/-- The selected files are distinct. -/
theorem nodup_collectSourceFiles
    (h : collectSourceFiles root language = .ok files) :
    files.Nodup := by
  rw [collectSourceFiles] at h
  split_ifs at h with hpresent
  cases hfile : root.asFile with
  | some file =>
      rw [hfile] at h
      cases h
      exact List.nodup_singleton file
  | none =>
      rw [hfile] at h
      cases h
      exact root.nodup.filter _

/-- A rewrite that fails before files are selected writes nothing; otherwise some file cannot
be planned. -/
theorem planRewrites_eq_error
    {e : RewriteError File}
    (h : planRewrites ag root T pattern replacement lang = .error e) :
    (planAndApply now ag root T pattern replacement lang = (.error e, T) ∧
      ¬ CanWrite ag root T pattern lang) ∨
    ∃ language compiled files, @resolveLanguage File ag lang = .ok language ∧
      @compilePattern File ag pattern language = .ok compiled ∧
      collectSourceFiles root language = .ok files ∧
      ∃ file ∈ files, ∃ e', planFileRewritesPrepared ag compiled replacement language file
        (T file) = .error e' := by
  rw [planRewrites] at h
  cases hlang : @resolveLanguage File ag lang with
  | error e' =>
      rw [hlang] at h
      cases h
      left
      refine ⟨by rw [planAndApply, hlang]; rfl, ?_⟩
      rintro ⟨language, _, _, hlang', -⟩
      rw [hlang] at hlang'
      cases hlang'
  | ok language =>
    rw [hlang] at h
    cases hcomp : @compilePattern File ag pattern language with
    | error e' =>
        simp only [bind, Except.bind, hcomp] at h
        cases h
        left
        refine ⟨by simp [planAndApply, hlang, hcomp, bind, Except.bind], ?_⟩
        rintro ⟨language', _, _, hlang', hcomp', -⟩
        rw [hlang] at hlang'
        cases hlang'
        rw [hcomp] at hcomp'
        cases hcomp'
    | ok compiled =>
      cases hfiles : collectSourceFiles root language with
      | error e' =>
          simp only [bind, Except.bind, hcomp, hfiles] at h
          cases h
          left
          refine ⟨by simp [planAndApply, hlang, hcomp, hfiles, bind, Except.bind], ?_⟩
          rintro ⟨language', _, files, hlang', _, hfiles', -⟩
          rw [hlang] at hlang'
          cases hlang'
          rw [hfiles] at hfiles'
          cases hfiles'
      | ok files =>
          right
          refine ⟨language, compiled, files, rfl, hcomp, hfiles, ?_⟩
          simp only [bind, Except.bind, hcomp, hfiles] at h
          cases hplan : files.mapM fun file =>
              planFileRewritesPrepared ag compiled replacement language file (T file) with
          | error e' =>
              obtain ⟨file, hfile, e', he'⟩ := exists_error_of_mapM hplan
              exact ⟨file, hfile, e', he'⟩
          | ok prepared =>
              rw [hplan] at h
              cases h

/-- With the files selected, a one-shot rewrite runs one task for each. -/
theorem planAndApply_eq
    (hlang : @resolveLanguage File ag lang = .ok language)
    (hcomp : @compilePattern File ag pattern language = .ok compiled)
    (hfiles : collectSourceFiles root language = .ok files) :
    planAndApply now ag root T pattern replacement lang =
      let run := runTasks id
        (fun file => planAndApplySingleFileRewrite now ag compiled replacement language file)
        T files
      ((joinAll run.1).bind fun outcomes =>
        .ok ⟨files.length,
          assignEditIds root (sortRewriteEdits
            ((outcomes.flatMap Option.toList).flatMap PerFileRewriteOutcome.edits)),
          sortOverlapRejections
            ((outcomes.flatMap Option.toList).flatMap PerFileRewriteOutcome.rejectedOverlaps)⟩,
        run.2) := by
  rw [planAndApply, hlang]
  simp only [bind, Except.bind, hcomp, hfiles]

/-- The tree is left as it was unless a selected file can be written. -/
theorem planAndApply_unchanged_iff
    (hlang : @resolveLanguage File ag lang = .ok language)
    (hcomp : @compilePattern File ag pattern language = .ok compiled)
    (hfiles : collectSourceFiles root language = .ok files) :
    (planAndApply now ag root T pattern replacement lang).2 = T ↔
      ¬ CanWrite ag root T pattern lang := by
  have hnodup : (files.map id).Nodup := by
    rw [List.map_id]
    exact nodup_collectSourceFiles hfiles
  rw [planAndApply_eq hlang hcomp hfiles]
  dsimp only
  rw [runTasks_unchanged_iff hnodup]
  constructor
  · rintro hsame ⟨language', compiled', files', hlang', hcomp', hfiles', file, hfile, hwrite⟩
    rw [hlang] at hlang'
    cases hlang'
    rw [hcomp] at hcomp'
    cases hcomp'
    rw [hfiles] at hfiles'
    cases hfiles'
    exact singleFile_unchanged_iff.mp (hsame file hfile) hwrite
  · intro hnone file hfile
    rw [singleFile_unchanged_iff]
    intro hwrite
    exact hnone ⟨language, compiled, files, hlang, hcomp, hfiles, file, hfile, hwrite⟩

/-- A file that cannot be planned makes the one-shot rewrite fail. -/
theorem planAndApply_error
    {file : File}
    {e : RewriteError File}
    (hlang : @resolveLanguage File ag lang = .ok language)
    (hcomp : @compilePattern File ag pattern language = .ok compiled)
    (hfiles : collectSourceFiles root language = .ok files)
    (hfile : file ∈ files)
    (he : planFileRewritesPrepared ag compiled replacement language file (T file) = .error e) :
    ∃ e', (planAndApply now ag root T pattern replacement lang).1 = .error e' := by
  have hnodup : (files.map id).Nodup := by
    rw [List.map_id]
    exact nodup_collectSourceFiles hfiles
  rw [planAndApply_eq hlang hcomp hfiles]
  dsimp only
  rw [runTasks_results hnodup]
  obtain ⟨e', he'⟩ := @exists_joinAll_error (RewriteError File)
    (Option (PerFileRewriteOutcome File))
    (files.map fun file =>
      (planAndApplySingleFileRewrite now ag compiled replacement language file (T file)).1) e
    (by
      intro r hr
      obtain ⟨f, -, rfl⟩ := List.mem_map.mp hr
      exact singleFile_outcome.1)
    (List.mem_map.mpr ⟨file, hfile, singleFile_outcome.2 e he⟩)
  refine ⟨e', ?_⟩
  change Outcome.bind (joinAll (files.map fun file =>
    (planAndApplySingleFileRewrite now ag compiled replacement language file (T file)).1)) _ = _
  rw [he', Outcome.bind_error]

end Failing

/-- When planning fails, so does the one-shot rewrite, and it leaves the tree as it was
exactly when no selected file has something to rewrite and can be overwritten in place.  A
plan that is stale for one file is refused with the tree as it was. -/
theorem failed_rewrite_exact
    (now : UInt64)
    (ag : AstGrep)
    (root : SearchRoot File)
    (T : SourceTree File) :
    (∀ pattern replacement lang e, planRewrites ag root T pattern replacement lang = .error e →
      (∃ e', (planAndApply now ag root T pattern replacement lang).1 = .error e') ∧
        ((planAndApply now ag root T pattern replacement lang).2 = T ↔
          ¬ CanWrite ag root T pattern lang)) ∧
    ∀ (plan : RewritePlan File) (e : RewriteEdit File), e ∈ plan.edits →
      fileMtimeNs e.file (T e.file) ≠ .ok e.plannedMtimeNs →
        ∃ err, applyRewrites now T plan = (.error err, T) := by
  constructor
  · intro pattern replacement lang e herror
    rcases @planRewrites_eq_error File _ now ag root T pattern lang replacement e herror with
      ⟨hsame, hnone⟩ | ⟨language, compiled, files, hlang, hcomp, hfiles, file, hfile, e', he'⟩
    · rw [hsame]
      exact ⟨⟨e, rfl⟩, iff_of_true rfl hnone⟩
    · exact ⟨planAndApply_error hlang hcomp hfiles hfile he',
        planAndApply_unchanged_iff hlang hcomp hfiles⟩
  · intro plan e he hstale
    exact applyEditSet_stale now he hstale

/-- The matches of a character in a text that begins at the offset `start`. -/
def letterMatches
    (c : Char) : Nat → Text → List AstMatch
  | _, [] => []
  | start, x :: xs =>
      let stop := start + (utf8 [x]).length
      (if x = c then [⟨⟨start, stop⟩, [x], utf8⟩] else []) ++ letterMatches c stop xs

/-- A matcher whose patterns are single characters. -/
def letterGrep : AstGrep where
  Pattern := Char
  parseLang := fun lang => if lang ∈ ["py", "python"] then some .python else none
  tryNew := fun pattern _ => pattern.toList.head?
  findAll := fun _ source c => letterMatches c 0 source

/-- A directory with the Python files `0` and `1`. -/
def twoFiles : SearchRoot Nat where
  present := true
  asFile := none
  walked := [0, 1]
  nodup := by decide
  extension := fun _ => some "py"
  fileName := fun _ => none

/-- The first file says `ab`, the other is not UTF-8. -/
def brokenTree : SourceTree Nat := fun file =>
  if file = 0 then some (plainSource ['a', 'b'])
  else some { plainSource [] with content := [255] }

/-- Rewriting `a` in `brokenTree` fails in both modes, and a plan for another time is
refused. -/
theorem failed_rewrite_exact_brokenTree :
    (∃ e, (planAndApply 5 letterGrep twoFiles brokenTree "a" ['c'] "py").1 = .error e) ∧
      ∃ err, applyRewrites 5 brokenTree ⟨1, [⟨"", 0, 3, 1, ⟨0, 1⟩, ['a'], ['c']⟩], []⟩ =
        (.error err, brokenTree) := by
  have hexact := failed_rewrite_exact 5 letterGrep twoFiles brokenTree
  refine ⟨(hexact.1 "a" ['c'] "py" (.invalidUtf8 1) rfl).1, ?_⟩
  exact hexact.2 ⟨1, [⟨"", 0, 3, 1, ⟨0, 1⟩, ['a'], ['c']⟩], []⟩ _ List.mem_cons_self
    (by decide)

/-- Planning to rewrite `a` fails because of the second file; the one-shot rewrite has
written the first file by then. -/
theorem planAndApply_writes_brokenTree :
    planRewrites letterGrep twoFiles brokenTree "a" ['c'] "py" = .error (.invalidUtf8 1) ∧
      ((planAndApply 5 letterGrep twoFiles brokenTree "a" ['c'] "py").2 0).map
        SourceFile.content = some (utf8 ['c', 'b']) ∧
      (planAndApply 5 letterGrep twoFiles brokenTree "a" ['c'] "py").2 ≠ brokenTree := by
  refine ⟨rfl, rfl, ?_⟩
  intro hsame
  have hwritten : ((planAndApply 5 letterGrep twoFiles brokenTree "a" ['c'] "py").2 0).map
      SourceFile.content = some (utf8 ['c', 'b']) := rfl
  rw [hsame] at hwritten
  exact absurd hwritten (by decide)

end Rewrite
end TensorGrep
