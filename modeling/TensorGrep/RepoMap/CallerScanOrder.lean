import TensorGrep.Kernel.ProportionalShares
import TensorGrep.RepoMap.ContextPacking

/-!
# The order in which files are scanned for callers

Source files and test files are merged so that every beginning of the merged list has its
proportional share of test files, and the list is cut at a ceiling.  Files that contain
the symbol come first among the source files and among the test files; a probe that is
bounded by a count and by a deadline says which they are.
-/

namespace TensorGrep
namespace RepoMap

open Kernel

/-- `CALLER_SCAN_FILE_CEILING`. -/
def callerScanFileCeiling : ℕ := 2000

/-- `CALLER_SCAN_ORDER_PROBE_CEILING`. -/
def callerScanOrderProbeCeiling : ℕ := 4 * callerScanFileCeiling

/-- `_CALLER_SCAN_ORDER_PROBE_DEADLINE_STRIDE`. -/
def callerScanOrderProbeDeadlineStride : ℕ := 64

variable {File : Type}

/-! ## Merging -/

section Interleave

variable (sources tests : List File)

/-- `expected_tests_by_now`. -/
def expectedTestsByNow (position : ℕ) : ℕ :=
  share position tests.length (sources.length + tests.length)

/-- The loop of the merge, with the merged files and the two cursors; there is no result if an
index is out of range. -/
def interleaveStep
    (state : List File × ℕ × ℕ)
    (position : ℕ) : Option (List File × ℕ × ℕ) :=
  let (merged, sourceIdx, testIdx) := state
  if testIdx < expectedTestsByNow sources tests position ∧ testIdx < tests.length then
    (tests[testIdx]?).map fun test => (merged ++ [test], sourceIdx, testIdx + 1)
  else if sourceIdx < sources.length then
    (sources[sourceIdx]?).map fun source => (merged ++ [source], sourceIdx + 1, testIdx)
  else (tests[testIdx]?).map fun test => (merged ++ [test], sourceIdx, testIdx + 1)

/-- `_interleave_proportionally`. -/
def interleaveProportionally : Option (List File) :=
  if tests = [] then some sources
  else if sources = [] then some tests
  else
    ((List.range' 1 (sources.length + tests.length)).foldlM (interleaveStep sources tests)
      ([], 0, 0)).map Prod.fst

end Interleave

/-! ## Ordering -/

section Order

variable [DecidableEq File]

/-- The loop of the probe from an index on: the files that contain the symbol.  A clock says
whether the deadline has passed when it is looked at. -/
def literalHits
    (isLiteralHit : File → Bool)
    (deadline : Option (ℕ → Bool))
    (index : ℕ) : List File → List File
  | [] => []
  | current :: rest =>
      if callerScanOrderProbeCeiling ≤ index then []
      else if deadline.any fun passed =>
          index % callerScanOrderProbeDeadlineStride = 0 && passed index then []
      else if isLiteralHit current then
        current :: literalHits isLiteralHit deadline (index + 1) rest
      else literalHits isLiteralHit deadline (index + 1) rest

/-- The files that contain the symbol come first. -/
def hitsFirst
    (hits files : List File) : List File :=
  (files.filter fun current => current ∈ hits) ++ files.filter fun current => current ∉ hits

/-- `_order_caller_scan_candidates`, where `isLiteralHit` is the probe of a file for a symbol. -/
def orderCallerScanCandidates
    (isLiteralHit : Text → File → Bool)
    (sources tests : List File)
    (symbol : Option Text)
    (deadline : Option (ℕ → Bool)) : Option (List File) :=
  let normalizedSymbol := stripSpace (symbol.getD [])
  if normalizedSymbol = [] then some (sources ++ tests)
  else
    let hits := literalHits (isLiteralHit normalizedSymbol) deadline 0 (sources ++ tests)
    interleaveProportionally (hitsFirst hits sources) (hitsFirst hits tests)

/-- `_cap_caller_scan_files`: the files that are scanned, and whether files are left out. -/
def capCallerScanFiles
    (isLiteralHit : Text → File → Bool)
    (files : List File)
    (symbol : Option Text)
    (tests : Option (List File))
    (deadline : Option (ℕ → Bool)) : Option (List File × Bool) :=
  let tests := tests.getD []
  let sourceOnly := files.filter fun current => current ∉ tests
  if files.length ≤ callerScanFileCeiling then
    if deadline.isSome ∧ tests ≠ [] then
      (orderCallerScanCandidates isLiteralHit sourceOnly tests symbol deadline).map fun ordered =>
        (ordered, false)
    else some (files, false)
  else if tests ≠ [] then
    (orderCallerScanCandidates isLiteralHit sourceOnly tests symbol deadline).map fun ordered =>
      (ordered.take callerScanFileCeiling, true)
  else some (files.take callerScanFileCeiling, true)

end Order

/-! ## The merge is fair -/

section Merge

variable {sources tests : List File} {isTest : File → Bool}

/-- What holds of the merged files after so many positions. -/
structure MergedFairly
    (sources tests : List File)
    (isTest : File → Bool)
    (position : ℕ)
    (merged : List File) : Prop where
  length : merged.length = position
  testsTaken : merged.filter isTest = tests.take (expectedTestsByNow sources tests position)
  sourcesTaken : (merged.filter fun file => !isTest file) =
    sources.take (position - expectedTestsByNow sources tests position)
  shares : ∀ p ≤ position, (merged.take p).countP isTest = expectedTestsByNow sources tests p

/-- Before the first position nothing is merged. -/
theorem mergedFairly_nil :
    MergedFairly sources tests isTest 0 [] where
  length := rfl
  testsTaken := by rw [expectedTestsByNow, share_zero, List.take_zero, List.filter_nil]
  sourcesTaken := by rw [List.filter_nil, Nat.zero_sub, List.take_zero]
  shares p hp := by
    obtain rfl := Nat.le_zero.mp hp
    rw [expectedTestsByNow, share_zero, List.take_zero, List.countP_nil]

section Steps

variable {position : ℕ} {merged : List File}

/-- The shares of all beginnings, when one file more is merged. -/
theorem MergedFairly.shares_concat
    (h : MergedFairly sources tests isTest position merged)
    {file : File}
    (hlast : (merged ++ [file]).countP isTest = expectedTestsByNow sources tests (position + 1)) :
    ∀ p ≤ position + 1,
      ((merged ++ [file]).take p).countP isTest = expectedTestsByNow sources tests p := by
  intro p hp
  rcases Nat.lt_or_ge position p with hlt | hle
  · obtain rfl : p = position + 1 := Nat.le_antisymm hp hlt
    have hlength : (merged ++ [file]).length = position + 1 := by
      rw [List.length_append, h.length, List.length_singleton]
    rw [← hlength, List.take_length, hlength, hlast]
  · rw [List.take_append_of_le_length (h.length ▸ hle)]
    exact h.shares p hle

/-- The next test file is merged when the share grows. -/
theorem MergedFairly.concat_test
    (h : MergedFairly sources tests isTest position merged)
    (hnext : expectedTestsByNow sources tests (position + 1) =
      expectedTestsByNow sources tests position + 1)
    (hlt : expectedTestsByNow sources tests position < tests.length)
    (htests : ∀ file ∈ tests, isTest file = true) :
    MergedFairly sources tests isTest (position + 1)
      (merged ++ [tests[expectedTestsByNow sources tests position]]) := by
  have htest := htests _ (List.getElem_mem hlt)
  have hfilter : (merged ++ [tests[expectedTestsByNow sources tests position]]).filter isTest =
      tests.take (expectedTestsByNow sources tests (position + 1)) := by
    rw [List.filter_append, h.testsTaken, hnext, List.take_succ_eq_append_getElem hlt,
      List.filter_cons_of_pos htest, List.filter_nil]
  refine ⟨?_, hfilter, ?_, h.shares_concat ?_⟩
  · rw [List.length_append, h.length, List.length_singleton]
  · rw [List.filter_append, h.sourcesTaken, hnext, Nat.add_sub_add_right,
      List.filter_cons_of_neg (by simp [htest]), List.filter_nil, List.append_nil]
  · rw [List.countP_eq_length_filter, hfilter, List.length_take, hnext]
    omega

/-- The next source file is merged when the share stays. -/
theorem MergedFairly.concat_source
    (h : MergedFairly sources tests isTest position merged)
    (hnext : expectedTestsByNow sources tests (position + 1) =
      expectedTestsByNow sources tests position)
    (hwithin : expectedTestsByNow sources tests position ≤ position)
    (hlt : position - expectedTestsByNow sources tests position < sources.length)
    (hsources : ∀ file ∈ sources, isTest file = false) :
    MergedFairly sources tests isTest (position + 1)
      (merged ++ [sources[position - expectedTestsByNow sources tests position]]) := by
  have hsource := hsources _ (List.getElem_mem hlt)
  have hfilter :
      (merged ++ [sources[position - expectedTestsByNow sources tests position]]).filter isTest =
        tests.take (expectedTestsByNow sources tests (position + 1)) := by
    rw [List.filter_append, h.testsTaken, hnext, List.filter_cons_of_neg (by simp [hsource]),
      List.filter_nil, List.append_nil]
  refine ⟨?_, hfilter, ?_, h.shares_concat ?_⟩
  · rw [List.length_append, h.length, List.length_singleton]
  · rw [List.filter_append, h.sourcesTaken, hnext, Nat.sub_add_comm hwithin,
      List.take_succ_eq_append_getElem hlt, List.filter_cons_of_pos (by simp [hsource]),
      List.filter_nil]
  · have hcount := h.shares position le_rfl
    rw [← h.length, List.take_length, h.length] at hcount
    rw [List.countP_append, hcount, hnext, List.countP_singleton, if_neg (by simp [hsource])]
    rfl

/-- A step merges one file more. -/
theorem MergedFairly.step
    (h : MergedFairly sources tests isTest position merged)
    (htests : ∀ file ∈ tests, isTest file = true)
    (hsources : ∀ file ∈ sources, isTest file = false)
    (hposition : position < sources.length + tests.length) :
    ∃ file, interleaveStep sources tests
        (merged, position - expectedTestsByNow sources tests position,
          expectedTestsByNow sources tests position) (position + 1) =
        some (merged ++ [file], position + 1 - expectedTestsByNow sources tests (position + 1),
          expectedTestsByNow sources tests (position + 1)) ∧
      MergedFairly sources tests isTest (position + 1) (merged ++ [file]) := by
  have htotal : 0 < sources.length + tests.length := Nat.zero_lt_of_lt hposition
  have hpart : tests.length ≤ sources.length + tests.length := Nat.le_add_left _ _
  have hmono : expectedTestsByNow sources tests position ≤
      expectedTestsByNow sources tests (position + 1) := share_le_share_succ htotal
  have hgrows : expectedTestsByNow sources tests (position + 1) ≤
      expectedTestsByNow sources tests position + 1 := share_succ_le htotal hpart
  have hfits : expectedTestsByNow sources tests (position + 1) ≤ tests.length :=
    share_le_part htotal hposition
  have hrest : position + 1 ≤
      expectedTestsByNow sources tests (position + 1) + sources.length :=
    position_le_share_add rfl htotal hposition
  have hwithin : expectedTestsByNow sources tests position ≤ position :=
    share_le_position htotal hpart
  rcases Nat.eq_or_lt_of_le hmono with heq | hlt
  · -- the share stays, and a source file is left
    have hsource : position - expectedTestsByNow sources tests position < sources.length := by
      omega
    refine ⟨_, ?_, h.concat_source heq.symm hwithin hsource hsources⟩
    have hbranch : ¬ (expectedTestsByNow sources tests position <
        expectedTestsByNow sources tests (position + 1) ∧
          expectedTestsByNow sources tests position < tests.length) := by
      omega
    simp only [interleaveStep]
    rw [if_neg hbranch, if_pos hsource, List.getElem?_eq_getElem hsource, Option.map_some, ← heq,
      Nat.sub_add_comm hwithin]
  · -- the share grows, and a test file is left
    have hnext := le_antisymm hgrows hlt
    have htest : expectedTestsByNow sources tests position < tests.length := by
      omega
    refine ⟨_, ?_, h.concat_test hnext htest htests⟩
    simp only [interleaveStep]
    rw [if_pos ⟨hlt, htest⟩, List.getElem?_eq_getElem htest, Option.map_some, hnext,
      Nat.add_sub_add_right]

end Steps

/-- The loop merges fairly up to any position. -/
theorem exists_foldlM_interleaveStep
    (htests : ∀ file ∈ tests, isTest file = true)
    (hsources : ∀ file ∈ sources, isTest file = false)
    {position : ℕ}
    (hposition : position ≤ sources.length + tests.length) :
    ∃ merged, (List.range' 1 position).foldlM (interleaveStep sources tests) ([], 0, 0) =
        some (merged, position - expectedTestsByNow sources tests position,
          expectedTestsByNow sources tests position) ∧
      MergedFairly sources tests isTest position merged := by
  induction position with
  | zero =>
      refine ⟨[], ?_, mergedFairly_nil⟩
      rw [expectedTestsByNow, share_zero]
      rfl
  | succ position ih =>
      obtain ⟨merged, hloop, hmerged⟩ := ih (Nat.le_of_succ_le hposition)
      obtain ⟨file, hstep, hnext⟩ := hmerged.step htests hsources hposition
      refine ⟨merged ++ [file], ?_, hnext⟩
      rw [List.range'_1_concat, List.foldlM_append, hloop, Nat.add_comm 1, Option.bind_eq_bind,
        Option.bind_some, List.foldlM_cons, hstep]
      rfl

/-- The merge of two lists is fair. -/
theorem exists_interleaveProportionally
    (htests : ∀ file ∈ tests, isTest file = true)
    (hsources : ∀ file ∈ sources, isTest file = false) :
    ∃ merged, interleaveProportionally sources tests = some merged ∧
      merged.filter isTest = tests ∧ (merged.filter fun file => !isTest file) = sources ∧
      ∀ p ≤ sources.length + tests.length,
        (merged.take p).countP isTest = expectedTestsByNow sources tests p := by
  rw [interleaveProportionally]
  by_cases hnotests : tests = []
  · subst hnotests
    refine ⟨sources, if_pos rfl, ?_, ?_, fun p _ => ?_⟩
    · rw [List.filter_eq_nil_iff]
      intro file hfile
      simp [hsources file hfile]
    · rw [List.filter_eq_self]
      intro file hfile
      simp [hsources file hfile]
    · rw [expectedTestsByNow, List.length_nil, share_part_zero, List.countP_eq_zero]
      intro file hfile
      simp [hsources file (List.mem_of_mem_take hfile)]
  by_cases hnosources : sources = []
  · subst hnosources
    refine ⟨tests, by rw [if_neg hnotests, if_pos rfl], ?_, ?_, fun p hp => ?_⟩
    · exact List.filter_eq_self.mpr htests
    · rw [List.filter_eq_nil_iff]
      intro file hfile
      simp [htests file hfile]
    · rw [List.length_nil, Nat.zero_add] at hp
      rw [expectedTestsByNow, List.length_nil, Nat.zero_add,
        share_self (List.length_pos_iff.mpr hnotests),
        List.countP_eq_length.mpr fun file hfile => htests file (List.mem_of_mem_take hfile),
        List.length_take, Nat.min_eq_left hp]
  · have htotal : 0 < sources.length + tests.length :=
      Nat.add_pos_left (List.length_pos_iff.mpr hnosources) _
    obtain ⟨merged, hloop, hmerged⟩ :=
      exists_foldlM_interleaveStep htests hsources (le_refl (sources.length + tests.length))
    refine ⟨merged, ?_, ?_, ?_, hmerged.shares⟩
    · rw [if_neg hnotests, if_neg hnosources, hloop]
      rfl
    · rw [hmerged.testsTaken, expectedTestsByNow, share_total htotal, List.take_length]
    · rw [hmerged.sourcesTaken, expectedTestsByNow, share_total htotal, Nat.add_sub_cancel,
        List.take_length]

end Merge

/-! ## The order is a fair permutation -/

section Fair

variable [DecidableEq File] {isLiteralHit : Text → File → Bool} {sources tests : List File}

/-- An order of source files and test files is a permutation of them.  In each kind the files
that contain the symbol come first, and otherwise the order is the given one; every
beginning has the proportional share of test files, rounded up. -/
structure FairOrder
    (hits sources tests order : List File) : Prop where
  perm : order.Perm (sources ++ tests)
  sourceOrder : (order.filter fun file => file ∈ sources) = hitsFirst hits sources
  testOrder : (order.filter fun file => file ∈ tests) = hitsFirst hits tests
  shares : ∀ p ≤ sources.length + tests.length,
    (order.take p).countP (fun file => file ∈ tests) =
      ⌈((p * tests.length : ℕ) : ℚ) / ((sources.length + tests.length : ℕ) : ℚ)⌉₊

omit [DecidableEq File] in
/-- The files that contain the symbol are among those before the point at which the probe
stops. -/
theorem exists_literalHits_eq
    (hit : File → Bool)
    (deadline : Option (ℕ → Bool))
    (index : ℕ)
    (files : List File) :
    ∃ stop ≤ files.length, literalHits hit deadline index files = (files.take stop).filter hit := by
  induction files generalizing index with
  | nil => exact ⟨0, le_rfl, rfl⟩
  | cons current rest ih =>
      obtain ⟨stop, hstop, hrest⟩ := ih (index + 1)
      rw [literalHits]
      split_ifs with hceiling hdeadline hhit
      · exact ⟨0, Nat.zero_le _, rfl⟩
      · exact ⟨0, Nat.zero_le _, rfl⟩
      · refine ⟨stop + 1, Nat.succ_le_succ hstop, ?_⟩
        rw [List.take_succ_cons, List.filter_cons_of_pos hhit, hrest]
      · refine ⟨stop + 1, Nat.succ_le_succ hstop, ?_⟩
        rw [List.take_succ_cons, List.filter_cons_of_neg hhit, hrest]

theorem perm_hitsFirst (hits files : List File) :
    (hitsFirst hits files).Perm files := by
  have h := List.filter_append_perm (fun current => decide (current ∈ hits)) files
  simpa only [hitsFirst, decide_not] using h

/-- The candidates are in a fair order. -/
theorem exists_orderCallerScanCandidates
    (isLiteralHit : Text → File → Bool)
    (hnodup : (sources ++ tests).Nodup)
    {symbol : Option Text}
    (hsymbol : stripSpace (symbol.getD []) ≠ [])
    (deadline : Option (ℕ → Bool)) :
    ∃ order, orderCallerScanCandidates isLiteralHit sources tests symbol deadline = some order ∧
      FairOrder (literalHits (isLiteralHit (stripSpace (symbol.getD []))) deadline 0
        (sources ++ tests)) sources tests order := by
  generalize hhits : literalHits (isLiteralHit (stripSpace (symbol.getD []))) deadline 0
    (sources ++ tests) = hits
  have hsourcesPerm := perm_hitsFirst hits sources
  have htestsPerm := perm_hitsFirst hits tests
  have hdisjoint : ∀ file ∈ sources, file ∉ tests := (List.nodup_append'.mp hnodup).2.2
  obtain ⟨order, horder, htests, hsources, hshares⟩ :=
    exists_interleaveProportionally
      (fun file hfile => decide_eq_true (htestsPerm.mem_iff.mp hfile))
      (fun file hfile => decide_eq_false (hdisjoint file (hsourcesPerm.mem_iff.mp hfile)))
  have hperm : order.Perm (sources ++ tests) := by
    have hsplit := List.filter_append_perm (fun file => decide (file ∈ tests)) order
    rw [htests, hsources] at hsplit
    exact hsplit.symm.trans (List.perm_append_comm.trans (hsourcesPerm.append htestsPerm))
  refine ⟨order, ?_, hperm, ?_, htests, ?_⟩
  · rw [orderCallerScanCandidates, if_neg hsymbol, hhits]
    exact horder
  · rw [← hsources]
    refine List.filter_congr fun file hfile => ?_
    rw [← decide_not, decide_eq_decide]
    constructor
    · exact hdisjoint file
    · exact (List.mem_append.mp (hperm.mem_iff.mp hfile)).resolve_right
  · intro p hp
    rw [← hsourcesPerm.length_eq, ← htestsPerm.length_eq] at hp ⊢
    exact hshares p hp

/-- The files from which the first ones are scanned: in their fair order if there are test
files, and more files than the ceiling or a deadline; else as they are given. -/
def scanOrder
    (sources tests order : List File)
    (deadline : Option (ℕ → Bool)) : List File :=
  if tests ≠ [] ∧ (callerScanFileCeiling < (sources ++ tests).length ∨ deadline.isSome) then order
  else sources ++ tests

/-- The cap takes the first files. -/
theorem capCallerScanFiles_eq
    (hnodup : (sources ++ tests).Nodup)
    {symbol : Option Text}
    {deadline : Option (ℕ → Bool)}
    {order : List File}
    (horder : orderCallerScanCandidates isLiteralHit sources tests symbol deadline = some order)
    (hperm : order.Perm (sources ++ tests)) :
    capCallerScanFiles isLiteralHit (sources ++ tests) symbol (some tests) deadline =
      some ((scanOrder sources tests order deadline).take
          (min (sources.length + tests.length) callerScanFileCeiling),
        decide (callerScanFileCeiling < sources.length + tests.length)) := by
  have hdisjoint : ∀ file ∈ sources, file ∉ tests := (List.nodup_append'.mp hnodup).2.2
  have hsourceOnly : ((sources ++ tests).filter fun current => current ∉ tests) = sources := by
    rw [List.filter_append, List.filter_eq_self.mpr fun file hfile =>
        decide_eq_true (hdisjoint file hfile),
      List.filter_eq_nil_iff.mpr fun file hfile => by simp [hfile], List.append_nil]
  have hlength : (sources ++ tests).length = sources.length + tests.length := List.length_append
  simp only [capCallerScanFiles, Option.getD_some, hsourceOnly, scanOrder, hlength, horder,
    Option.map_some]
  by_cases hceiling : sources.length + tests.length ≤ callerScanFileCeiling
  · have hnot := not_lt.mpr hceiling
    rw [if_pos hceiling, Nat.min_eq_left hceiling]
    simp only [hnot, false_or, decide_false]
    by_cases hordered : tests ≠ [] ∧ deadline.isSome
    · rw [if_pos hordered.symm, if_pos hordered, List.take_of_length_le]
      rw [hperm.length_eq, hlength]
    · rw [if_neg (fun h => hordered h.symm), if_neg hordered, List.take_of_length_le hlength.le]
  · have hlt := not_le.mp hceiling
    rw [if_neg hceiling, Nat.min_eq_right hlt.le]
    simp only [hlt, true_or, and_true, decide_true]
    split_ifs <;> rfl

/-- Of distinct files some are left out exactly if there are more than are taken. -/
theorem exists_not_mem_take_iff
    {files chosen : List File}
    (hnodup : files.Nodup)
    (hperm : chosen.Perm files)
    (count : ℕ) :
    (∃ file ∈ files, file ∉ chosen.take count) ↔ count < files.length := by
  constructor
  · rintro ⟨file, hfile, hnot⟩
    by_contra hle
    rw [List.take_of_length_le (hperm.length_eq ▸ not_lt.mp hle)] at hnot
    exact hnot (hperm.mem_iff.mpr hfile)
  · intro hlt
    by_contra hall
    have hsubset : files ⊆ chosen.take count := fun file hfile => by
      by_contra hnot
      exact hall ⟨file, hfile, hnot⟩
    have hle := (hnodup.subperm hsubset).length_le
    have := List.length_take_le count chosen
    omega

/-- Callers are looked for in a fair permutation of the files, whatever the point at which the
probe stops, and the cap takes the first ones of the scan order and says whether one is left
out. -/
def ScansFairly
    (isLiteralHit : Text → File → Bool)
    (sources tests : List File)
    (symbol : Option Text)
    (deadline : Option (ℕ → Bool)) : Prop :=
  ∃ order, orderCallerScanCandidates isLiteralHit sources tests symbol deadline = some order ∧
    (∃ stop ≤ (sources ++ tests).length,
      FairOrder (((sources ++ tests).take stop).filter
        (isLiteralHit (stripSpace (symbol.getD [])))) sources tests order) ∧
    ∃ dropped, capCallerScanFiles isLiteralHit (sources ++ tests) symbol (some tests) deadline =
        some ((scanOrder sources tests order deadline).take
          (min (sources.length + tests.length) callerScanFileCeiling), dropped) ∧
      (dropped = true ↔ ∃ file ∈ sources ++ tests,
        file ∉ (scanOrder sources tests order deadline).take
          (min (sources.length + tests.length) callerScanFileCeiling))

/-- Distinct files are scanned fairly for every symbol that is not blank. -/
theorem callerScan_fair
    (isLiteralHit : Text → File → Bool)
    (hnodup : (sources ++ tests).Nodup)
    {symbol : Option Text}
    (hsymbol : stripSpace (symbol.getD []) ≠ [])
    (deadline : Option (ℕ → Bool)) :
    ScansFairly isLiteralHit sources tests symbol deadline := by
  obtain ⟨order, horder, hfair⟩ :=
    exists_orderCallerScanCandidates isLiteralHit hnodup hsymbol deadline
  obtain ⟨stop, hstop, hhits⟩ := exists_literalHits_eq
    (isLiteralHit (stripSpace (symbol.getD []))) deadline 0 (sources ++ tests)
  rw [hhits] at hfair
  refine ⟨order, horder, ⟨stop, hstop, hfair⟩, _,
    capCallerScanFiles_eq hnodup horder hfair.perm, ?_⟩
  have hperm : (scanOrder sources tests order deadline).Perm (sources ++ tests) := by
    rw [scanOrder]
    split_ifs
    · exact hfair.perm
    · exact List.Perm.refl _
  rw [exists_not_mem_take_iff hnodup hperm, List.length_append, decide_eq_true_eq]
  omega

/-- Two source files and a test file, of which the file 1 contains the symbol. -/
theorem callerScan_fair_three :
    ScansFairly (fun _ file => file = 1) [0, 1] [2] (some ['f']) none :=
  callerScan_fair _ (by decide) (by decide) none

/-- The first half of two files has one test file, so the test file comes first. -/
theorem interleaveProportionally_pair :
    interleaveProportionally [0] [1] = some [1, 0] := by
  have hexpected : expectedTestsByNow [0] [1] 1 = 1 := by
    refine le_antisymm ((share_le_iff (by decide)).mpr (by decide)) ?_
    by_contra hnone
    have hzero := (share_le_iff (n := 0) (by decide)).mp (Nat.lt_one_iff.mp (not_le.mp hnone)).le
    exact absurd hzero (by decide)
  have hpositions : List.range' 1 2 = [1, 2] := rfl
  simp [interleaveProportionally, hpositions, interleaveStep, hexpected]

/-- Without a deadline one source file and one test file are scanned as they are given, not in
their fair order. -/
theorem given_order_below_ceiling :
    ¬ ∃ order dropped,
      orderCallerScanCandidates (fun _ _ => false) [0] [1] (some ['f']) none = some order ∧
        capCallerScanFiles (fun _ _ => false) ([0] ++ [1]) (some ['f']) (some [1]) none =
          some (order.take (min 2 callerScanFileCeiling), dropped) := by
  rintro ⟨order, dropped, horder, hcap⟩
  have hmerged : orderCallerScanCandidates (fun _ _ => false) [0] [1] (some ['f']) none =
      some [1, 0] := interleaveProportionally_pair
  obtain rfl := Option.some.inj (hmerged.symm.trans horder)
  revert hcap
  cases dropped <;> decide

end Fair

end RepoMap
end TensorGrep
