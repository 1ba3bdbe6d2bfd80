import TensorGrep.CpuSearch.LineLoop
import TensorGrep.Kernel.ListWindows
import TensorGrep.Kernel.MultiMap
import TensorGrep.Kernel.SortedKeys

/-!
# The literal prefilter

A scan of the pattern collects a literal that every match must contain.  The
lines of the file are indexed by their trigrams, and only the lines that have all
trigrams of the literal are searched.
-/

namespace TensorGrep
namespace CpuSearch

open Kernel

/-! ## The required literal -/

/-- The characters with which a pattern is refused. -/
def refusedTokens : List Char :=
  ['|', '(', ')', '[', ']', '\x7b', '\x7d', '?', '+', '\\']

/-- The literals of a scan, and the run that it is in. -/
structure LiteralScan where
  literals : List Text
  current : Text
deriving DecidableEq

/-- The end of a run. -/
def LiteralScan.flush (scan : LiteralScan) : LiteralScan :=
  if scan.current = [] then scan else ⟨scan.literals ++ [scan.current], []⟩

/-- One character of the pattern.  A star makes the character before it optional. -/
def LiteralScan.step
    (scan : LiteralScan)
    (ch : Char) : LiteralScan :=
  if ch = '*' then LiteralScan.flush ⟨scan.literals, scan.current.dropLast⟩
  else if ch = '.' ∨ ch = '^' ∨ ch = '$' then scan.flush
  else ⟨scan.literals, scan.current ++ [ch]⟩

/-- The literals of a pattern. -/
def requiredLiterals (pattern : Text) : List Text :=
  (pattern.foldl LiteralScan.step ⟨[], []⟩).flush.literals

/-- `_extract_required_literal`: the first of the longest literals, if it has a trigram. -/
def extractRequiredLiteral (pattern : Text) : Option Text :=
  if pattern.any (· ∈ refusedTokens) then none
  else
    let literal := (requiredLiterals pattern).foldl
      (fun best next => if best.length < next.length then next else best) []
    if 3 ≤ literal.length then some literal else none

/-- The extracted literal is one of the literals of the pattern. -/
theorem of_extractRequiredLiteral
    {pattern literal : Text}
    (h : extractRequiredLiteral pattern = some literal) :
    (∀ ch ∈ pattern, ch ∉ refusedTokens) ∧ literal ∈ requiredLiterals pattern ∧
      3 ≤ literal.length := by
  have hfold : ∀ (literals : List Text) (best : Text),
      literals.foldl (fun best next => if best.length < next.length then next else best) best ∈
        best :: literals := by
    intro literals
    induction literals with
    | nil => exact fun best => List.mem_cons_self
    | cons next literals ih =>
        intro best
        rw [List.foldl_cons]
        split
        · exact List.mem_cons_of_mem _ (ih next)
        · rcases List.mem_cons.mp (ih best) with heq | hmem
          · rw [heq]
            exact List.mem_cons_self
          · exact List.mem_cons_of_mem _ (List.mem_cons_of_mem _ hmem)
  rw [extractRequiredLiteral] at h
  split at h
  case isTrue => cases h
  case isFalse hrefused =>
      dsimp only at h
      split at h
      case isFalse => cases h
      case isTrue hlong =>
          cases h
          refine ⟨fun ch hch hmem => hrefused ?_, ?_, hlong⟩
          · rw [List.any_eq_true]
            exact ⟨ch, hch, by simpa using hmem⟩
          · rcases List.mem_cons.mp (hfold (requiredLiterals pattern) []) with heq | hmem
            · rw [heq] at hlong
              simp at hlong
            · exact hmem

/-! ## The trigram index of lines -/

/-- The key of a trigram. -/
def trigramKey (t : Char × Char × Char) : Text :=
  [t.1, t.2.1, t.2.2]

/-- The lines that have a trigram, by trigram. -/
abbrev TrigramIndex := MultiMap Text Int

/-- The trigrams of a line with the index of the line. -/
def lineTrigrams (line : Text × Nat) : List (Text × Int) :=
  (windows3 line.1).map fun t => (trigramKey t, (line.2 : Int))

/-- `_build_line_trigram_index`. -/
def buildLineTrigramIndex (lines : List Text) : TrigramIndex :=
  MultiMap.mapLists (sortDedup id) (MultiMap.pushAll ∅ (lines.zipIdx.flatMap lineTrigrams))

/-- `_candidate_line_indexes`. -/
def candidateLineIndexes
    (index : TrigramIndex)
    (literal : Text) : List Int :=
  let lineNumbers := (windows3 literal).map fun t => index.get (trigramKey t)
  if [] ∈ lineNumbers then []
  else
    match lineNumbers with
    | [] => []
    | first :: rest => sortDedup id (first.filter fun i => ∀ numbers ∈ rest, i ∈ numbers)

theorem trigramKey_injective :
    Function.Injective trigramKey := by
  rintro ⟨a, b, c⟩ ⟨a', b', c'⟩ h
  simpa [trigramKey] using h

/-- The candidates have every trigram of the literal. -/
theorem mem_candidateLineIndexes_iff
    {index : TrigramIndex}
    {literal : Text}
    (hlong : 3 ≤ literal.length)
    {i : Int} :
    i ∈ candidateLineIndexes index literal ↔
      ∀ t ∈ windows3 literal, i ∈ index.get (trigramKey t) := by
  have hlists : ∀ P : List Int → Prop,
      (∀ numbers ∈ (windows3 literal).map fun t => index.get (trigramKey t), P numbers) ↔
        ∀ t ∈ windows3 literal, P (index.get (trigramKey t)) :=
    fun P => List.forall_mem_map
  rw [← hlists fun numbers => i ∈ numbers, candidateLineIndexes]
  have hne : (windows3 literal).map (fun t => index.get (trigramKey t)) ≠ [] := by
    simpa using windows3_ne_nil hlong
  generalize (windows3 literal).map (fun t => index.get (trigramKey t)) = lists at hne
  split
  case isTrue hempty =>
      refine iff_of_false List.not_mem_nil fun hall => ?_
      exact absurd (hall [] hempty) List.not_mem_nil
  case isFalse =>
      cases lists with
      | nil => exact absurd rfl hne
      | cons first rest =>
          rw [mem_sortDedup Function.injective_id, List.mem_filter, List.forall_mem_cons]
          simp

/-- The index has the trigrams of the lines. -/
theorem mem_get_buildLineTrigramIndex_iff
    {lines : List Text}
    {t : Char × Char × Char}
    {i : Int} :
    i ∈ (buildLineTrigramIndex lines).get (trigramKey t) ↔
      ∃ (k : Nat) (line : Text), i = k ∧ lines[k]? = some line ∧ t ∈ windows3 line := by
  have hget : (buildLineTrigramIndex lines).get (trigramKey t) =
      sortDedup id ((MultiMap.pushAll (∅ : TrigramIndex)
        (lines.zipIdx.flatMap lineTrigrams)).get (trigramKey t)) := by
    rw [buildLineTrigramIndex, MultiMap.get, MultiMap.get, MultiMap.lookup_mapLists]
    cases AList.lookup (trigramKey t)
      (MultiMap.pushAll (∅ : TrigramIndex) (lines.zipIdx.flatMap lineTrigrams)) <;> rfl
  rw [hget, mem_sortDedup Function.injective_id, MultiMap.mem_get_pushAll]
  simp only [MultiMap.get_empty, List.not_mem_nil, false_or, List.mem_flatMap, lineTrigrams,
    List.mem_map, Prod.mk.injEq]
  constructor
  · rintro ⟨⟨line, k⟩, hline, t', ht', hkey, rfl⟩
    rw [trigramKey_injective hkey] at ht'
    exact ⟨k, line, rfl, List.mem_zipIdx_iff_getElem?.mp hline, ht'⟩
  · rintro ⟨k, line, rfl, hline, ht⟩
    exact ⟨(line, k), List.mem_zipIdx_iff_getElem?.mpr hline, t, ht, rfl, rfl⟩

/-- The candidates among the lines are those that have every trigram of the literal. -/
theorem mem_candidates_buildLineTrigramIndex_iff
    {lines : List Text}
    {literal : Text}
    (hlong : 3 ≤ literal.length)
    {k : Nat} :
    (k : Int) ∈ candidateLineIndexes (buildLineTrigramIndex lines) literal ↔
      ∃ line, lines[k]? = some line ∧ ∀ t ∈ windows3 literal, t ∈ windows3 line := by
  rw [mem_candidateLineIndexes_iff hlong]
  simp only [mem_get_buildLineTrigramIndex_iff, Nat.cast_inj]
  constructor
  · intro hall
    obtain ⟨t, ht⟩ := List.exists_mem_of_ne_nil _ (windows3_ne_nil hlong)
    obtain ⟨k', line, hk, hline, -⟩ := hall t ht
    refine ⟨line, hk ▸ hline, fun t' ht' => ?_⟩
    obtain ⟨k'', line', hk', hline', hmem⟩ := hall t' ht'
    rw [← hk', hk, hline] at hline'
    cases hline'
    exact hmem
  · rintro ⟨line, hline, hall⟩ t ht
    exact ⟨k, line, rfl, hline, hall t ht⟩

end CpuSearch
end TensorGrep
