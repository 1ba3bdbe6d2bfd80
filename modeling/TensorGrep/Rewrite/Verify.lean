import TensorGrep.Rewrite.Apply

/-!
# Verifying an applied plan

`verify_rewrite_edits` reads the rewritten files back and looks for every
replacement where it should have ended up: at the planned start, moved by the
length changes of the replacements before it.  It slices the text it reads at
these byte offsets, and such a slice panics when it does not fall on character
boundaries.

`verifyFile_spliced` says that what was just written passes, and
`verify_exact` when a file that may have been changed since gets a report.
-/

namespace TensorGrep
namespace Rewrite

open Kernel

variable {File : Type} [LinearOrder File]

/-- A replacement that was not found where it was expected. -/
structure VerifyMismatch (File : Type) where
  editId : String
  file : File
  line : Nat
  expected : Text
  actual : Text
deriving DecidableEq

structure VerifyResult (File : Type) where
  totalEdits : Nat
  verified : Nat
  mismatches : List (VerifyMismatch File)
deriving DecidableEq

/-- A mismatch of an edit. -/
def RewriteEdit.mismatch
    (e : RewriteEdit File)
    (actual : Text) : VerifyMismatch File where
  editId := e.id
  file := e.file
  line := e.line
  expected := e.replacementText
  actual := actual

/-- What is reported in place of a slice that ends past the end of the file. -/
def outOfBoundsText (fileLen expectedEnd : Nat) : Text :=
  ("<out of bounds: file len " ++ toString fileLen ++ ", expected end " ++
    toString expectedEnd ++ ">").toList

/-- How much longer than its range the replacement is. -/
def RewriteEdit.growth (e : RewriteEdit File) : Int :=
  ((utf8 e.replacementText).length : Int) -
    ((e.byteRange.stop - e.byteRange.start : Nat) : Int)

/-- The range at which a replacement is expected when the text before it has grown by
`delta`. -/
def RewriteEdit.adjusted
    (e : RewriteEdit File)
    (delta : Int) : ByteRange where
  start := (e.byteRange.start + delta).toNat
  stop := (e.byteRange.start + delta).toNat + (utf8 e.replacementText).length

/-- The loop of `verify_rewrite_edits` over the edits of one file. -/
def verifyFile
    (content : Text) :
    Int → List (VerifyMismatch File) → List (RewriteEdit File) →
      Outcome (RewriteError File) (List (VerifyMismatch File))
  | _, mismatches, [] => .ok mismatches
  | delta, mismatches, e :: es =>
      let r := e.adjusted delta
      if (utf8 content).length < r.stop then
        verifyFile content delta
          (mismatches ++ [e.mismatch (outOfBoundsText (utf8 content).length r.stop)]) es
      else
        (Outcome.ofSlice (sliceStr content r.start r.stop)).bind fun actual =>
          verifyFile content (delta + e.growth)
            (if actual ≠ e.replacementText then mismatches ++ [e.mismatch actual]
              else mismatches) es

/-- The loop of `verify_rewrite_edits` over the files. -/
def verifyFiles
    (T : SourceTree File) :
    List (VerifyMismatch File) → List (File × List (RewriteEdit File)) →
      Outcome (RewriteError File) (List (VerifyMismatch File))
  | mismatches, [] => .ok mismatches
  | mismatches, (file, fileEdits) :: rest =>
      match readToString (T file) with
      | none => .error (.verifyUnreadable file)
      | some content =>
          (verifyFile content 0 mismatches fileEdits).bind fun mismatches =>
            verifyFiles T mismatches rest

/-- `verify_rewrite_edits`. -/
def verifyRewriteEdits
    (T : SourceTree File)
    (edits : List (RewriteEdit File)) : Outcome (RewriteError File) (VerifyResult File) :=
  (verifyFiles T [] (groupEditsByFile edits)).bind fun mismatches =>
    .ok ⟨edits.length, edits.length - mismatches.length, mismatches⟩

/-! ## Where replacements are expected -/

/-- The ranges at which the replacements of a list of edits are expected in a file of `len`
bytes.  A replacement that does not fit does not move the ones after it. -/
def expectedRanges
    (len : Nat) : Int → List (RewriteEdit File) → List ByteRange
  | _, [] => []
  | delta, e :: es =>
      e.adjusted delta ::
        expectedRanges len (if len < (e.adjusted delta).stop then delta else delta + e.growth) es

/-- Every expected range that lies in the file begins and ends on a character boundary. -/
def ExpectedOnBoundaries
    (content : Text)
    (edits : List (RewriteEdit File)) : Prop :=
  ∀ r ∈ expectedRanges (utf8 content).length 0 edits, r.stop ≤ (utf8 content).length →
    isCharBoundary (utf8 content) r.start = true ∧
      isCharBoundary (utf8 content) r.stop = true

instance
    (content : Text)
    (edits : List (RewriteEdit File)) : Decidable (ExpectedOnBoundaries content edits) :=
  List.decidableBAll _ _

/-- The mismatches of a report are those of some of the edits, in order. -/
def ReportsOn
    (edits : List (RewriteEdit File))
    (mismatches : List (VerifyMismatch File)) : Prop :=
  ∃ missed : List (RewriteEdit File × Text),
    (missed.map Prod.fst).Sublist edits ∧
      mismatches = missed.map (fun m => m.1.mismatch m.2)

section OneFile

variable {content : Text} {delta : Int} {edits : List (RewriteEdit File)}
  {e : RewriteEdit File} {mismatches ms : List (VerifyMismatch File)}

omit [LinearOrder File] in
theorem ReportsOn.skip
    (h : ReportsOn edits ms) :
    ReportsOn (e :: edits) ms := by
  obtain ⟨missed, hsub, hms⟩ := h
  exact ⟨missed, hsub.cons e, hms⟩

omit [LinearOrder File] in
theorem ReportsOn.miss
    (actual : Text)
    (h : ReportsOn edits ms) :
    ReportsOn (e :: edits) (e.mismatch actual :: ms) := by
  obtain ⟨missed, hsub, rfl⟩ := h
  exact ⟨(e, actual) :: missed, hsub.cons_cons e, rfl⟩

omit [LinearOrder File] in
/-- No more edits are reported than there are. -/
theorem ReportsOn.length_le
    (h : ReportsOn edits ms) :
    ms.length ≤ edits.length := by
  obtain ⟨missed, hsub, rfl⟩ := h
  have := hsub.length_le
  rwa [List.length_map] at this ⊢

/-- When the expected ranges in the file are on character boundaries, every edit is verified
or reported. -/
theorem verifyFile_of_boundaries
    (hbounds : ∀ r ∈ expectedRanges (utf8 content).length delta edits,
      r.stop ≤ (utf8 content).length →
        isCharBoundary (utf8 content) r.start = true ∧
          isCharBoundary (utf8 content) r.stop = true)
    (mismatches : List (VerifyMismatch File)) :
    ∃ ms, verifyFile content delta mismatches edits = .ok (mismatches ++ ms) ∧
      ReportsOn edits ms := by
  induction edits generalizing delta mismatches with
  | nil =>
      refine ⟨[], ?_, [], List.Sublist.refl _, rfl⟩
      rw [List.append_nil]
      rfl
  | cons e es ih =>
      rw [expectedRanges, List.forall_mem_cons] at hbounds
      obtain ⟨hhere, hlater⟩ := hbounds
      rw [verifyFile]
      by_cases hout : (utf8 content).length < (e.adjusted delta).stop
      · rw [if_pos hout] at hlater
        rw [if_pos hout]
        obtain ⟨ms, hms, hreports⟩ := ih hlater (mismatches ++
          [e.mismatch (outOfBoundsText (utf8 content).length (e.adjusted delta).stop)])
        refine ⟨_ :: ms, ?_, hreports.miss
          (outOfBoundsText (utf8 content).length (e.adjusted delta).stop)⟩
        rw [hms, List.append_assoc]
        rfl
      · rw [if_neg hout] at hlater
        rw [if_neg hout]
        obtain ⟨hstart, hstop⟩ := hhere (by omega)
        have hle : (e.adjusted delta).start ≤ (e.adjusted delta).stop := Nat.le_add_right _ _
        obtain ⟨actual, hactual⟩ := Option.ne_none_iff_exists'.mp
          ((sliceStr_ne_none_iff hle).mpr ⟨hstart, hstop⟩)
        rw [hactual, Outcome.ofSlice_some, Outcome.bind_ok]
        by_cases heq : actual = e.replacementText
        · rw [if_neg (not_ne_iff.mpr heq)]
          obtain ⟨ms, hms, hreports⟩ := ih hlater mismatches
          exact ⟨ms, hms, hreports.skip⟩
        · rw [if_pos heq]
          obtain ⟨ms, hms, hreports⟩ := ih hlater (mismatches ++ [e.mismatch actual])
          refine ⟨_ :: ms, ?_, hreports.miss actual⟩
          rw [hms, List.append_assoc]
          rfl

omit [LinearOrder File] in
/-- A slice that does not panic is on character boundaries. -/
theorem boundaries_of_verifyFile
    (h : (verifyFile content delta mismatches edits).Returns) :
    ∀ r ∈ expectedRanges (utf8 content).length delta edits,
      r.stop ≤ (utf8 content).length →
        isCharBoundary (utf8 content) r.start = true ∧
          isCharBoundary (utf8 content) r.stop = true := by
  induction edits generalizing delta mismatches with
  | nil =>
      intro r hr
      cases hr
  | cons e es ih =>
      rw [verifyFile] at h
      rw [expectedRanges, List.forall_mem_cons]
      by_cases hout : (utf8 content).length < (e.adjusted delta).stop
      · rw [if_pos hout] at h ⊢
        exact ⟨fun hle => absurd hle (by omega), ih h⟩
      · rw [if_neg hout] at h ⊢
        have hle : (e.adjusted delta).start ≤ (e.adjusted delta).stop := Nat.le_add_right _ _
        cases hslice : sliceStr content (e.adjusted delta).start (e.adjusted delta).stop with
        | none =>
            rw [hslice, Outcome.ofSlice_none, Outcome.bind_panicked] at h
            exact absurd rfl h
        | some actual =>
            rw [hslice, Outcome.ofSlice_some, Outcome.bind_ok] at h
            refine ⟨fun _ => (sliceStr_ne_none_iff hle).mp ?_, ih h⟩
            rw [hslice]
            exact Option.some_ne_none actual

end OneFile

/-! ## After an apply -/

omit [LinearOrder File] in
/-- What the splice loop produced passes: read from the cursor on, every replacement is
where it is expected. -/
theorem verifyFile_rewriteFrom
    {file : File}
    {original done rewritten : Text}
    {edits : List (RewriteEdit File)}
    {cursor : Nat}
    {delta : Int}
    (hrewrite : rewriteFrom file original cursor done edits = .ok rewritten)
    (hdelta : ((utf8 done).length : Int) = cursor + delta)
    (mismatches : List (VerifyMismatch File)) :
    verifyFile rewritten delta mismatches edits = .ok mismatches ∧ done <+: rewritten := by
  induction edits generalizing cursor done delta with
  | nil =>
      rw [rewriteFrom] at hrewrite
      cases hslice : sliceStr original cursor (utf8 original).length with
      | none =>
          rw [hslice] at hrewrite
          cases hrewrite
      | some tail =>
          rw [hslice] at hrewrite
          cases hrewrite
          exact ⟨rfl, List.prefix_append _ _⟩
  | cons e es ih =>
      rw [rewriteFrom] at hrewrite
      cases hvalid : ensureValidUtf8Range original file e.byteRange with
      | error err =>
          rw [hvalid] at hrewrite
          cases hrewrite
      | ok u =>
          rw [hvalid, Outcome.ofExcept, Outcome.bind_ok] at hrewrite
          by_cases hlt : e.byteRange.start < cursor
          · rw [if_pos hlt] at hrewrite
            cases hrewrite
          · rw [if_neg hlt] at hrewrite
            cases hslice : sliceStr original cursor e.byteRange.start with
            | none =>
                rw [hslice] at hrewrite
                cases hrewrite
            | some gap =>
                rw [hslice, Outcome.ofSlice_some, Outcome.bind_ok] at hrewrite
                obtain ⟨p, s, -, hp, hgap⟩ := sliceStr_eq_some_iff.mp hslice
                have hordered : e.byteRange.start ≤ e.byteRange.stop := by
                  rw [ensureValidUtf8Range] at hvalid
                  by_contra hnot
                  rw [if_pos (Or.inl (by omega))] at hvalid
                  cases hvalid
                -- the replacement follows what is done and the gap
                have hstart : ((utf8 (done ++ gap)).length : Int) =
                    e.byteRange.start + delta := by
                  rw [utf8_append, List.length_append]
                  omega
                have hnext : ((utf8 (done ++ gap ++ e.replacementText)).length : Int) =
                    e.byteRange.stop + (delta + e.growth) := by
                  rw [utf8_append, List.length_append, RewriteEdit.growth]
                  omega
                obtain ⟨hverify, tail, htail⟩ := ih hrewrite hnext
                have hadjusted : e.adjusted delta =
                    ⟨(utf8 (done ++ gap)).length, (utf8 (done ++ gap)).length +
                      (utf8 e.replacementText).length⟩ := by
                  rw [RewriteEdit.adjusted, ← hstart, Int.toNat_natCast]
                refine ⟨?_, gap ++ e.replacementText ++ tail, by
                  rw [← htail]
                  simp only [List.append_assoc]⟩
                rw [verifyFile, hadjusted]
                have hfits : ¬ (utf8 rewritten).length <
                    (utf8 (done ++ gap)).length + (utf8 e.replacementText).length := by
                  rw [← htail, utf8_append, utf8_append, List.length_append,
                    List.length_append]
                  omega
                rw [if_neg hfits, ← htail, sliceStr_append, Outcome.ofSlice_some,
                  Outcome.bind_ok, if_neg (not_ne_iff.mpr rfl), htail]
                exact hverify

section OneFilePlan

variable {file : File} {source : Text} {edits : List (RewriteEdit File)}
  {T T' : SourceTree File}

omit [LinearOrder File] in
theorem DisjointInOrder.sorted
    (hdisjoint : DisjointInOrder edits)
    (haligned : ∀ e ∈ edits, Aligned source e.byteRange) :
    edits.Pairwise (fun a b => a.byteRange.start ≤ b.byteRange.start) := by
  refine List.Pairwise.imp_of_mem ?_ hdisjoint
  intro a b ha _ hab
  exact (haligned a ha).ordered.trans hab

/-- Verifying the edits of one file is verifying that file. -/
theorem verifyRewriteEdits_of_one_file
    {content : Text}
    (hfile : ∀ e ∈ edits, e.file = file)
    (hsorted : edits.Pairwise (fun a b => a.byteRange.start ≤ b.byteRange.start))
    (hread : readToString (T file) = some content) :
    verifyRewriteEdits T edits = (verifyFile content 0 [] edits).bind fun mismatches =>
      .ok ⟨edits.length, edits.length - mismatches.length, mismatches⟩ := by
  by_cases hne : edits = []
  · subst hne
    rfl
  · rw [verifyRewriteEdits, groupEditsByFile_of_one_file hne hfile hsorted, verifyFiles,
      hread]
    dsimp only
    cases verifyFile content 0 [] edits <;> rfl

/-- What an apply leaves in the only file of the plan. -/
theorem applyEditSet_of_one_file
    {now : UInt64}
    {written : Nat}
    (hne : edits ≠ [])
    (hfile : ∀ e ∈ edits, e.file = file)
    (hsorted : edits.Pairwise (fun a b => a.byteRange.start ≤ b.byteRange.start))
    (hread : readToString (T file) = some source)
    (happly : applyEditSet now T edits = (.ok written, T')) :
    ∃ rewritten, rewriteSourceWithEdits file source edits = .ok rewritten ∧
      readToString (T' file) = some rewritten := by
  rw [applyEditSet, groupEditsByFile_of_one_file hne hfile hsorted] at happly
  dsimp only at happly
  cases hcheck : ensureFilesNotStale T [(file, edits)] with
  | error err =>
      rw [hcheck] at happly
      cases happly
  | ok u =>
      rw [hcheck] at happly
      simp only [runTasks, applyEditsToFileWithWriter, Option.none_or, hread] at happly
      cases hrewrite : rewriteSourceWithEdits file source edits with
      | error err =>
          rw [hrewrite] at happly
          cases happly
      | panicked =>
          rw [hrewrite] at happly
          cases happly
      | ok rewritten =>
          rw [hrewrite] at happly
          refine ⟨rewritten, rfl, ?_⟩
          cases hnode : T file with
          | none =>
              rw [hnode] at hread
              cases hread
          | some node =>
              rw [hnode] at happly
              simp only [atomicWriteFile] at happly
              by_cases hreplace : node.replaceable = true
              · rw [if_pos hreplace] at happly
                obtain ⟨-, rfl⟩ := Prod.mk.inj happly
                rw [Function.update_self]
                exact fromUtf8_utf8 rewritten
              · rw [if_neg hreplace] at happly
                cases happly

/-- What an apply wrote is verified without a mismatch.  A text that the file may have
instead gets a report, on which every edit is verified or listed, exactly when every range
at which a replacement is expected, and that lies in the text, is on character
boundaries. -/
theorem verify_exact
    (hfile : ∀ e ∈ edits, e.file = file)
    (haligned : ∀ e ∈ edits, Aligned source e.byteRange)
    (hdisjoint : DisjointInOrder edits) :
    (∀ now T T' written, readToString (T file) = some source →
      applyEditSet now T edits = (.ok written, T') →
        verifyRewriteEdits T' edits = .ok ⟨edits.length, edits.length, []⟩) ∧
    ∀ T content, readToString (T file) = some content →
      ((∃ report, verifyRewriteEdits T edits = .ok report ∧
          report.totalEdits = edits.length ∧
          report.verified + report.mismatches.length = edits.length ∧
          ReportsOn edits report.mismatches) ↔
        ExpectedOnBoundaries content edits) := by
  have hsorted := hdisjoint.sorted haligned
  constructor
  · intro now T T' written hread happly
    by_cases hne : edits = []
    · subst hne
      rfl
    · obtain ⟨rewritten, hrewrite, hread'⟩ :=
        applyEditSet_of_one_file hne hfile hsorted hread happly
      have hstart : ((utf8 []).length : Int) = (0 : Nat) + 0 := rfl
      obtain ⟨hverify, -⟩ := verifyFile_rewriteFrom hrewrite hstart []
      rw [verifyRewriteEdits_of_one_file hfile hsorted hread', hverify]
      rfl
  · intro T content hread
    rw [verifyRewriteEdits_of_one_file hfile hsorted hread]
    constructor
    · rintro ⟨report, hreport, -⟩
      have hreturns : (verifyFile content 0 [] edits).Returns := by
        intro hpanic
        rw [hpanic] at hreport
        cases hreport
      exact boundaries_of_verifyFile hreturns
    · intro hbounds
      obtain ⟨ms, hms, hreports⟩ := verifyFile_of_boundaries hbounds []
      have hle := hreports.length_le
      rw [hms, List.nil_append, Outcome.bind_ok]
      refine ⟨_, rfl, rfl, ?_, hreports⟩
      change edits.length - ms.length + ms.length = edits.length
      omega

end OneFilePlan

/-- A file that can be read and written. -/
def plainSource (content : Text) : SourceFile :=
  ⟨utf8 content, 0, true, true, true, 0⟩

theorem readToString_plainSource
    (content : Text) :
    readToString (some (plainSource content)) = some content :=
  fromUtf8_utf8 content

/-- The edits of `mixedEdits` that are kept get a report on any ASCII text. -/
theorem verify_exact_ascii :
    ∃ report, verifyRewriteEdits (fun _ : Nat => some (plainSource ['a', 'b']))
        [editAt 0 1 ['c'], editAt 1 1 ['d']] = .ok report ∧
      report.verified + report.mismatches.length = 2 := by
  obtain ⟨report, hreport, -, hsum, -⟩ := ((@verify_exact Nat _ 0 ['x', 'y']
    [editAt 0 1 ['c'], editAt 1 1 ['d']] (by decide) (by decide) (by decide)).2
      (fun _ => some (plainSource ['a', 'b'])) ['a', 'b']
      (readToString_plainSource _)).mpr (by decide)
  exact ⟨report, hreport, hsum⟩

/-- The edit is planned for `ab`; when the file says `é` at verification time, looking for
its replacement panics. -/
theorem verify_panics_on_changed_file :
    (∀ e ∈ [editAt 0 1 ['c']], Aligned ['a', 'b'] e.byteRange) ∧
      readToString (some (plainSource ['é'])) = some ['é'] ∧
      verifyRewriteEdits (fun _ : Nat => some (plainSource ['é'])) [editAt 0 1 ['c']] =
        .panicked := by
  refine ⟨by decide, readToString_plainSource _, ?_⟩
  have hread : readToString ((fun _ : Nat => some (plainSource ['é'])) 0) = some ['é'] :=
    readToString_plainSource _
  exact (@verifyRewriteEdits_of_one_file Nat _ 0 _ _ _ (by decide) (by decide) hread).trans rfl

end Rewrite
end TensorGrep
