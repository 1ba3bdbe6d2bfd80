import Mathlib
import TensorGrep.NativeSearch.LineSearch
import TensorGrep.Result.SourceLines

/-!
# The Python line loop

The CPU backend searches a file line by line with two compiled forms of the
pattern, one for bytes and one for text.  A line is tested as bytes with its
end, then as text without any line ends, and before it is reported once more as
text without its line feed.  An inverted search inverts the outcome after the
first two tests, and again after the last one.

Text is decoded as UTF-8, and as Latin-1 where that fails.
-/

namespace TensorGrep
namespace CpuSearch

open Kernel
open NativeSearch (LineSearcher selectedLines)
open Result

/-- The two compiled forms of a pattern, as what they find. -/
structure Regexes where
  searchBytes : Bytes → Bool
  searchText : Text → Bool

/-- Decoding as Latin-1. -/
def latin1 (bytes : Bytes) : Text :=
  bytes.map fun b => Char.ofNat b.toNat

/-- A line as UTF-8 text, or else as Latin-1 text. -/
def decodeLine (line : Bytes) : Text :=
  (fromUtf8 line).getD (latin1 line)

/-- `str.rstrip("\n\r")`. -/
def rstripNewlines (t : Text) : Text :=
  t.rdropWhile fun c => c = '\n' ∨ c = '\r'

section Tests

variable (re : Regexes)

/-- The line is found as bytes with its end, or as text without line ends. -/
def firstTest (line : Bytes) : Bool :=
  re.searchBytes line || re.searchText (rstripNewlines (decodeLine line))

/-- The text that is reported is found. -/
def lastTest (line : Bytes) : Bool :=
  re.searchText (stripLineTerminator (decodeLine line))

/-- What the loop does with a line: both tests, each inverted in an inverted search. -/
def lineMatches
    (invertMatch : Bool)
    (line : Bytes) : Bool :=
  let matched := firstTest re line
  let matched := if invertMatch then !matched else matched
  if matched then
    let matched := lastTest re line
    if invertMatch then !matched else matched
  else false

/-- A plain search reports the lines that pass both tests. -/
@[simp] theorem lineMatches_false
    (line : Bytes) :
    lineMatches re false line = (firstTest re line && lastTest re line) := by
  cases hfirst : firstTest re line <;> simp [lineMatches, hfirst]

/-- An inverted search reports the lines that fail both tests. -/
@[simp] theorem lineMatches_true
    (line : Bytes) :
    lineMatches re true line = (!firstTest re line && !lastTest re line) := by
  cases hfirst : firstTest re line <;> simp [lineMatches, hfirst]

end Tests

/-- The loop over numbered lines, after some have been reported.  `candidates` are the indexes of
the lines that are looked at. -/
def lineLoop
    (file : String)
    (re : Regexes)
    (invertMatch : Bool)
    (maxCount : Option Nat)
    (candidates : Option (List Int))
    (lineNumber reported : Nat) : List Bytes → List MatchLine
  | [] => []
  | line :: rest =>
      if candidates.any fun indexes => ((lineNumber : Int) - 1) ∉ indexes then
        lineLoop file re invertMatch maxCount candidates (lineNumber + 1) reported rest
      else if lineMatches re invertMatch line then
        ⟨lineNumber, stripLineTerminator (decodeLine line), file⟩ ::
          if maxCount.any fun count => count ≠ 0 ∧ count ≤ reported + 1 then []
          else lineLoop file re invertMatch maxCount candidates (lineNumber + 1) (reported + 1) rest
      else lineLoop file re invertMatch maxCount candidates (lineNumber + 1) reported rest

/-! ## Loops without a limit -/

section Unlimited

variable {file : String} {re : Regexes} {invertMatch : Bool}

/-- What is reported does not depend on how much has been reported. -/
theorem lineLoop_reported
    (candidates : Option (List Int))
    (n k : Nat)
    (lines : List Bytes) :
    lineLoop file re invertMatch none candidates n k lines =
      lineLoop file re invertMatch none candidates n 0 lines := by
  induction lines generalizing n k with
  | nil => rfl
  | cons line rest ih =>
      rw [lineLoop, lineLoop, ih (n + 1) k, ih (n + 1) (k + 1), ih (n + 1) (0 + 1)]
      rfl

/-- The line with that index is looked at. -/
def lookedAt
    (candidates : Option (List Int))
    (index : Int) : Prop :=
  ∀ indexes, candidates = some indexes → index ∈ indexes

instance
    (candidates : Option (List Int))
    (index : Int) :
    Decidable (lookedAt candidates index) :=
  match candidates with
  | none => isTrue fun _ h => nomatch h
  | some indexes => decidable_of_iff (index ∈ indexes) (by simp [lookedAt])

@[simp] theorem lookedAt_none
    (index : Int) :
    lookedAt none index := fun _ h => nomatch h

@[simp] theorem lookedAt_some
    {indexes : List Int}
    {index : Int} :
    lookedAt (some indexes) index ↔ index ∈ indexes := by
  simp [lookedAt]

/-- One line of the loop. -/
theorem lineLoop_cons
    (candidates : Option (List Int))
    (n : Nat)
    (line : Bytes)
    (rest : List Bytes) :
    lineLoop file re invertMatch none candidates n 0 (line :: rest) =
      if lookedAt candidates ((n : Int) - 1) ∧ lineMatches re invertMatch line = true then
        ⟨n, stripLineTerminator (decodeLine line), file⟩ ::
          lineLoop file re invertMatch none candidates (n + 1) 0 rest
      else lineLoop file re invertMatch none candidates (n + 1) 0 rest := by
  rw [lineLoop, lineLoop_reported candidates (n + 1) (0 + 1)]
  cases candidates with
  | none => simp
  | some indexes =>
      by_cases hmem : (n : Int) - 1 ∈ indexes <;> simp [hmem]

/-- The lines that a search selects, where `selects` says which. -/
def selecting (selects : Bytes → Bool) : LineSearcher where
  selects := selects
  visits := fun _ => true
  visits_of_selects := fun _ _ => rfl

@[simp] theorem selects_selecting
    (selects : Bytes → Bool) :
    (selecting selects).selects = selects := rfl

/-- A selected line as the loop reports it. -/
def loopMatch
    (file : String)
    (selected : Nat × Bytes) : MatchLine :=
  ⟨selected.1, stripLineTerminator (decodeLine selected.2), file⟩

/-- Without a limit and without candidates to choose from the loop selects lines. -/
theorem lineLoop_eq_selectedLines
    (n : Nat)
    (ls : List Bytes) :
    lineLoop file re invertMatch none none n 0 ls =
      (selectedLines (selecting (lineMatches re invertMatch)) n ls).map (loopMatch file) := by
  induction ls generalizing n with
  | nil => rfl
  | cons line rest ih =>
      rw [lineLoop_cons, selectedLines, ih]
      cases hmatch : lineMatches re invertMatch line with
      | true => simp [hmatch, loopMatch]
      | false => simp [hmatch]

theorem le_lineNumber_of_mem_lineLoop
    {candidates : Option (List Int)}
    {n : Nat}
    {ls : List Bytes}
    {found : MatchLine}
    (h : found ∈ lineLoop file re invertMatch none candidates n 0 ls) :
    n ≤ found.lineNumber := by
  induction ls generalizing n with
  | nil => cases h
  | cons line rest ih =>
      rw [lineLoop_cons] at h
      split at h
      · rcases List.mem_cons.mp h with rfl | h
        · exact le_refl n
        · exact Nat.le_of_succ_le (ih h)
      · exact Nat.le_of_succ_le (ih h)

/-- The lines that are reported. -/
theorem exists_mem_lineLoop_iff
    {candidates : Option (List Int)}
    {n i : Nat}
    {ls : List Bytes} :
    (∃ found ∈ lineLoop file re invertMatch none candidates n 0 ls, found.lineNumber = n + i) ↔
      ∃ line, ls[i]? = some line ∧ lookedAt candidates ((n + i : Nat) - 1) ∧
        lineMatches re invertMatch line = true := by
  induction ls generalizing n i with
  | nil => simp [lineLoop]
  | cons line rest ih =>
      have hlater : ∀ found ∈ lineLoop file re invertMatch none candidates (n + 1) 0 rest,
          found.lineNumber ≠ n := by
        intro found hfound heq
        have := le_lineNumber_of_mem_lineLoop hfound
        omega
      rw [lineLoop_cons]
      cases i with
      | zero =>
          by_cases hline : lookedAt candidates ((n : Int) - 1) ∧
              lineMatches re invertMatch line = true
          · rw [if_pos hline]
            refine iff_of_true ⟨_, List.mem_cons_self, rfl⟩ ⟨line, rfl, hline⟩
          · rw [if_neg hline]
            refine iff_of_false ?_ ?_
            · rintro ⟨found, hfound, heq⟩
              exact hlater found hfound heq
            · rintro ⟨line', hline', hmatch⟩
              cases hline'
              exact hline hmatch
      | succ i =>
          have hsucc : n + (i + 1) = n + 1 + i := by omega
          rw [List.getElem?_cons_succ, hsucc, ← ih]
          split
          · constructor
            · rintro ⟨found, hfound, heq⟩
              rcases List.mem_cons.mp hfound with rfl | hfound
              · dsimp only at heq
                omega
              · exact ⟨found, hfound, heq⟩
            · rintro ⟨found, hfound, heq⟩
              exact ⟨found, List.mem_cons_of_mem _ hfound, heq⟩
          · rfl

end Unlimited

end CpuSearch
end TensorGrep
