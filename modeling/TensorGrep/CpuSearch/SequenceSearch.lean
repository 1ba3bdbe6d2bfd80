import TensorGrep.CpuSearch.Search
import TensorGrep.Kernel.NextOccurrence

/-!
# Searching for sequences

A query `A -> eventually B` reports every line that `A` matches together with the first
line behind it that `B` matches.  The native engine says which lines the two match.  One
pass from the end of the file finds the nearest line of `B` from each line on, so that a
line of `A` needs no search of its own (`sequenceLoop_eq`).
-/

namespace TensorGrep
namespace CpuSearch

open Kernel
open Result

/-! ## The search -/

/-- The lines of a file with their numbers, as they are reported. -/
def numberedLines (contents : Bytes) : List (ℕ × Text) :=
  ((linesOf 10 contents).zipIdx 1).map fun line =>
    (line.2, stripLineTerminator (decodeLine line.1))

/-- `next_right_at_or_after`. -/
def nextRightAtOrAfter
    (rightMatchLines : Finset ℕ)
    (lines : List (ℕ × Text)) : List (Option ℕ) :=
  nextTable (fun line => decide (line.1 ∈ rightMatchLines)) lines

section Loop

variable (maxCount : Option ℕ) (file : String) (leftMatchLines : Finset ℕ)
  (nextRight : List (Option ℕ)) (lines : List (ℕ × Text))

/-- The loop over the lines: what it appends to `matches` from a line on, and how many sequences
there are in the end.  There is no result if an index is out of range. -/
def sequenceLoop
    (idx sequenceCount : ℕ) : List (ℕ × Text) → Option (List MatchLine × ℕ)
  | [] => some ([], sequenceCount)
  | left :: rest =>
      if left.1 ∉ leftMatchLines then sequenceLoop (idx + 1) sequenceCount rest
      else
        match nextRight[idx + 1]? with
        | none => none
        | some none => sequenceLoop (idx + 1) sequenceCount rest
        | some (some rightMatchIdx) =>
            match lines[rightMatchIdx]? with
            | none => none
            | some right =>
                let found := [⟨left.1, left.2, file⟩, ⟨right.1, right.2, file⟩]
                if maxCount.any fun count => count ≠ 0 ∧ count ≤ sequenceCount + 1 then
                  some (found, sequenceCount + 1)
                else
                  (sequenceLoop (idx + 1) (sequenceCount + 1) rest).map fun later =>
                    (found ++ later.1, later.2)

end Loop

/-- What a search for sequences says if the native engine does not serve it. -/
def needsRustForSequencesMessage (kind exc : String) : String :=
  "cannot safely evaluate this --ltl query through CPUBackend without the " ++
    "linear-time Rust engine (" ++ kind ++ ": " ++ exc ++ "); install ripgrep or drop --ltl"

/-- The exceptions that a search for sequences raises. -/
inductive SequenceError where
  | query (kind exc : String)
  | backendExecutionError (message : String)
  | indexError
deriving DecidableEq

/-- `_search_ltl`.  `compiled` are the two expressions of the query, or the exception of the
grammar or of a compilation; `rustMatchSet` is what the native engine finds for an
expression, or its exception. -/
def searchLtl
    (compiled : Except (String × String) (Text × Text))
    (rustMatchSet : Text → Except (String × String) (List (ℕ × Text)))
    (maxCount : Option ℕ)
    (file : String)
    (contents : Bytes) : Except SequenceError SearchResult :=
  match compiled with
  | .error (kind, exc) => .error (.query kind exc)
  | .ok (leftExpr, rightExpr) =>
      match rustMatchSet leftExpr with
      | .error (kind, exc) =>
          .error (.backendExecutionError (needsRustForSequencesMessage kind exc))
      | .ok leftResults =>
          match rustMatchSet rightExpr with
          | .error (kind, exc) =>
              .error (.backendExecutionError (needsRustForSequencesMessage kind exc))
          | .ok rightResults =>
              let lines := numberedLines contents
              let nextRight := nextRightAtOrAfter (rightResults.map Prod.fst).toFinset lines
              match sequenceLoop maxCount file (leftResults.map Prod.fst).toFinset nextRight
                lines 0 0 lines with
              | none => .error .indexError
              | some (found, sequenceCount) =>
                  .ok ⟨found, if 0 < sequenceCount then 1 else 0, sequenceCount, "cpu_ltl_python"⟩

/-- `CPUBackend.search` for a query of sequences, where `contents` is what is in the file if
there is one. -/
def searchSequences
    (compiled : Except (String × String) (Text × Text))
    (rustMatchSet : Text → Except (String × String) (List (ℕ × Text)))
    (config : SearchConfig)
    (file : String)
    (contents : Option Bytes) : Except SequenceError SearchResult :=
  if config.maxCount = some 0 then .ok (resultOf [] "cpu_max_count_zero")
  else
    match contents with
    | none => .ok (resultOf [] "cpu_missing_file")
    | some contents =>
        if !(config.text || config.binary) && isBinaryFile contents then
          .ok (resultOf [] "cpu_binary_skipped")
        else searchLtl compiled rustMatchSet config.maxCount file contents

/-! ## The pairs -/

section Pairs

variable (left right : Finset ℕ) (lineCount : ℕ)

/-- A line of the first set with the first line behind it that is in the second set, found by
a search of its own. -/
def nextPair (i : ℕ) : Option (ℕ × ℕ) :=
  if i ∈ left then
    ((List.range' (i + 1) (lineCount - i)).find? fun j => decide (j ∈ right)).map (Prod.mk i)
  else none

/-- The pairs of the quadratic search, with the line numbers in increasing order. -/
def sequencePairs : List (ℕ × ℕ) :=
  (List.range' 1 lineCount).filterMap (nextPair left right lineCount)

/-- As many pairs as a limit says. -/
def selectedPairs (maxCount : Option ℕ) : List (ℕ × ℕ) :=
  match maxCount with
  | none => sequencePairs left right lineCount
  | some limit => (sequencePairs left right lineCount).take limit

variable {left right lineCount}

end Pairs

/-! ## The limit inside the loop -/

section Limit

variable {α : Type}

/-- What the loop still reports of some pairs when it has reported so many. -/
def stillReported
    (maxCount : Option ℕ)
    (count : ℕ)
    (pairs : List α) : List α :=
  match maxCount with
  | some (limit + 1) => pairs.take (limit + 1 - count)
  | _ => pairs

/-- The limit is not reached. -/
def BelowLimit
    (maxCount : Option ℕ)
    (count : ℕ) : Prop :=
  ∀ limit, maxCount = some limit → limit = 0 ∨ count < limit

variable {maxCount : Option ℕ} {count : ℕ} {pair : α} {pairs : List α}

theorem stillReported_nil :
    stillReported maxCount count ([] : List α) = [] := by
  unfold stillReported
  split <;> simp

/-- The pair that reaches the limit is the last one. -/
theorem stillReported_last
    (hbelow : BelowLimit maxCount count)
    (h : maxCount.any fun limit => limit ≠ 0 ∧ limit ≤ count + 1) :
    stillReported maxCount count (pair :: pairs) = [pair] := by
  rcases maxCount with - | limit
  · simp at h
  · simp only [Option.any_some, decide_eq_true_eq] at h
    obtain ⟨k, rfl⟩ := Nat.exists_eq_succ_of_ne_zero h.1
    have hlt := (hbelow _ rfl).resolve_left h.1
    have hone : k + 1 - count = 1 := by omega
    simp [stillReported, hone]

/-- Below the limit a pair leaves one less to report. -/
theorem stillReported_cons
    (hbelow : BelowLimit maxCount count)
    (h : ¬ maxCount.any fun limit => limit ≠ 0 ∧ limit ≤ count + 1) :
    BelowLimit maxCount (count + 1) ∧
      stillReported maxCount count (pair :: pairs) =
        pair :: stillReported maxCount (count + 1) pairs := by
  rcases maxCount with - | limit
  · exact ⟨fun _ h => (Option.some_ne_none _ h.symm).elim, rfl⟩
  · simp only [Option.any_some, decide_eq_true_eq, not_and, not_le] at h
    rcases Nat.eq_zero_or_pos limit with rfl | hpos
    · exact ⟨fun _ h => .inl (Option.some.inj h).symm, rfl⟩
    · have hlt := h (Nat.ne_of_gt hpos)
      obtain ⟨k, rfl⟩ := Nat.exists_eq_succ_of_ne_zero (Nat.ne_of_gt hpos)
      refine ⟨fun limit h => .inr (by obtain rfl := Option.some.inj h; omega), ?_⟩
      have hmore : k + 1 - count = (k + 1 - (count + 1)) + 1 := by omega
      simp only [stillReported]
      rw [hmore, List.take_succ_cons]

end Limit

/-! ## The loop finds the pairs -/

section Lines

variable {contents : Bytes} {right : Finset ℕ}

/-- How many lines there are. -/
def lineCount (contents : Bytes) : ℕ :=
  (linesOf 10 contents).length

/-- What is reported of a line. -/
def lineEntry
    (file : String)
    (contents : Bytes)
    (i : ℕ) : MatchLine :=
  ⟨i, (((linesOf 10 contents)[i - 1]?).map fun line =>
    stripLineTerminator (decodeLine line)).getD [], file⟩

/-- What is reported of a pair. -/
def pairEntries
    (file : String)
    (contents : Bytes)
    (pair : ℕ × ℕ) : List MatchLine :=
  [lineEntry file contents pair.1, lineEntry file contents pair.2]

theorem length_numberedLines :
    (numberedLines contents).length = lineCount contents := by
  rw [numberedLines, List.length_map, List.length_zipIdx, lineCount]

theorem getElem?_numberedLines (idx : ℕ) :
    (numberedLines contents)[idx]? = ((linesOf 10 contents)[idx]?).map fun line =>
      (idx + 1, stripLineTerminator (decodeLine line)) := by
  rw [numberedLines, List.getElem?_map, List.getElem?_zipIdx, Option.map_map, Nat.add_comm]
  rfl

/-- A numbered line and what is reported of it. -/
theorem entry_of_getElem?
    (file : String)
    {idx : ℕ}
    {line : ℕ × Text}
    (h : (numberedLines contents)[idx]? = some line) :
    line.1 = idx + 1 ∧ (⟨line.1, line.2, file⟩ : MatchLine) = lineEntry file contents (idx + 1) := by
  rw [getElem?_numberedLines] at h
  obtain ⟨bytes, hbytes, rfl⟩ := Option.map_eq_some_iff.mp h
  refine ⟨rfl, ?_⟩
  rw [lineEntry, Nat.add_sub_cancel, hbytes]
  rfl

/-- The table's positions are those that a search of its own finds. -/
theorem map_firstFrom
    (idx : ℕ) :
    (firstFrom (fun line => decide (line.1 ∈ right)) (numberedLines contents) idx).map (1 + ·) =
      (List.range' (idx + 1) (lineCount contents - idx)).find? fun j => decide (j ∈ right) := by
  rw [firstFrom, length_numberedLines, Nat.add_comm idx, ← List.map_add_range', List.find?_map]
  refine congrArg _ (List.find?_congr fun i hi => ?_)
  have hlt : i < (linesOf 10 contents).length := by
    have := List.mem_range'_1.mp hi
    rw [lineCount] at this
    omega
  rw [getElem?_numberedLines, List.getElem?_eq_getElem hlt, Option.map_some, Option.any_some,
    Nat.add_comm i]
  rfl

end Lines

section Pass

variable {maxCount : Option ℕ}

/-- The loop from a line on reports the pairs of the lines from there on. -/
theorem sequenceLoop_eq
    (file : String)
    (left right : Finset ℕ)
    (contents : Bytes)
    {rest : List (ℕ × Text)}
    {idx count : ℕ}
    (hrest : (numberedLines contents).drop idx = rest)
    (hbelow : BelowLimit maxCount count) :
    sequenceLoop maxCount file left (nextRightAtOrAfter right (numberedLines contents))
        (numberedLines contents) idx count rest =
      some ((stillReported maxCount count
          ((List.range' (idx + 1) (lineCount contents - idx)).filterMap
            (nextPair left right (lineCount contents)))).flatMap (pairEntries file contents),
        count + (stillReported maxCount count
          ((List.range' (idx + 1) (lineCount contents - idx)).filterMap
            (nextPair left right (lineCount contents)))).length) := by
  induction rest generalizing idx count with
  | nil =>
      have hle := List.drop_eq_nil_iff.mp hrest
      rw [length_numberedLines] at hle
      rw [Nat.sub_eq_zero_of_le hle, List.range'_zero, List.filterMap_nil, stillReported_nil]
      rfl
  | cons line rest ih =>
      have hlt : idx < (numberedLines contents).length := by
        by_contra hge
        rw [List.drop_eq_nil_of_le (not_lt.mp hge)] at hrest
        exact List.cons_ne_nil _ _ hrest.symm
      have hline : (numberedLines contents)[idx]? = some line := by
        rw [← List.head?_drop, hrest, List.head?_cons]
      have hdrop : (numberedLines contents).drop (idx + 1) = rest := by
        rw [← List.tail_drop, hrest, List.tail_cons]
      obtain ⟨hnumber, hentry⟩ := entry_of_getElem? file hline
      have hcount : lineCount contents - idx = lineCount contents - (idx + 1) + 1 := by
        rw [length_numberedLines] at hlt
        omega
      have hnext : nextPair left right (lineCount contents) (idx + 1) =
          if line.1 ∈ left then
            ((firstFrom (fun line => decide (line.1 ∈ right)) (numberedLines contents)
              (idx + 1)).map (1 + ·)).map (Prod.mk (idx + 1))
          else none := by
        rw [map_firstFrom, hnumber]
        rfl
      rw [hcount, List.range'_succ, sequenceLoop]
      by_cases hleft : line.1 ∈ left
      · rw [if_neg (not_not.mpr hleft), nextRightAtOrAfter, getElem?_nextTable hlt]
        rw [if_pos hleft] at hnext
        rcases hfirst : firstFrom (fun line => decide (line.1 ∈ right)) (numberedLines contents)
          (idx + 1) with - | position
        · rw [hfirst] at hnext
          rw [List.filterMap_cons_none hnext]
          exact ih hdrop hbelow
        · obtain ⟨found, hfound⟩ : ∃ found, (numberedLines contents)[position]? = some found :=
            ⟨_, List.getElem?_eq_getElem (lt_length_of_firstFrom hfirst)⟩
          have hpair := (entry_of_getElem? file hfound).2
          rw [hfirst, Option.map_some, Option.map_some, Nat.add_comm 1] at hnext
          rw [List.filterMap_cons_some hnext]
          simp only [hfound, hentry, hpair]
          by_cases hlast : maxCount.any fun limit => limit ≠ 0 ∧ limit ≤ count + 1
          · rw [if_pos hlast, stillReported_last hbelow hlast]
            rfl
          · obtain ⟨hmore, hcons⟩ := stillReported_cons hbelow hlast
            rw [if_neg hlast, hcons]
            have hlater := ih hdrop hmore
            rw [nextRightAtOrAfter] at hlater
            rw [hlater, List.flatMap_cons, List.length_cons, Nat.add_right_comm count]
            rfl
      · rw [if_pos hleft]
        rw [if_neg hleft] at hnext
        rw [List.filterMap_cons_none hnext]
        exact ih hdrop hbelow

end Pass

/-! ## The two searches are equal -/

section Searches

variable {rustMatchSet : Text → Except (String × String) (List (ℕ × Text))}
  {leftExpr rightExpr : Text} {leftResults rightResults : List (ℕ × Text)}

/-- The pairs that the quadratic search reports of a file. -/
def reportedPairs
    (leftResults rightResults : List (ℕ × Text))
    (contents : Bytes)
    (maxCount : Option ℕ) : List (ℕ × ℕ) :=
  selectedPairs (leftResults.map Prod.fst).toFinset (rightResults.map Prod.fst).toFinset
    (lineCount contents) maxCount

/-- A result has the lines of some pairs, and their number. -/
structure ReportsPairs
    (file : String)
    (contents : Bytes)
    (pairs : List (ℕ × ℕ))
    (result : SearchResult) : Prop where
  found : result.found = pairs.flatMap (pairEntries file contents)
  totalFiles : result.totalFiles = if 0 < pairs.length then 1 else 0
  totalMatches : result.totalMatches = pairs.length

theorem stillReported_zero
    {α : Type}
    {limit : ℕ}
    (hlimit : limit ≠ 0)
    (pairs : List α) :
    stillReported (some limit) 0 pairs = pairs.take limit := by
  obtain ⟨k, rfl⟩ := Nat.exists_eq_succ_of_ne_zero hlimit
  rfl

/-- With any other limit than 0 the linear search reports what the quadratic one does. -/
theorem searchLtl_reports
    (hleft : rustMatchSet leftExpr = .ok leftResults)
    (hright : rustMatchSet rightExpr = .ok rightResults)
    {maxCount : Option ℕ}
    (hpositive : maxCount ≠ some 0)
    (file : String)
    (contents : Bytes) :
    ∃ result, searchLtl (.ok (leftExpr, rightExpr)) rustMatchSet maxCount file contents =
        .ok result ∧
      ReportsPairs file contents (reportedPairs leftResults rightResults contents maxCount)
        result := by
  have hbelow : BelowLimit maxCount 0 := by
    rintro limit rfl
    refine .inr (Nat.pos_of_ne_zero ?_)
    rintro rfl
    exact hpositive rfl
  have hselected : stillReported maxCount 0
      (sequencePairs (leftResults.map Prod.fst).toFinset (rightResults.map Prod.fst).toFinset
        (lineCount contents)) =
      reportedPairs leftResults rightResults contents maxCount := by
    rcases maxCount with - | limit
    · rfl
    · exact stillReported_zero (fun h => hpositive (congrArg some h)) _
  have hloop := sequenceLoop_eq file (leftResults.map Prod.fst).toFinset
    (rightResults.map Prod.fst).toFinset contents (List.drop_zero ..) hbelow
  rw [Nat.zero_add, Nat.sub_zero, Nat.zero_add, ← sequencePairs, hselected] at hloop
  simp only [searchLtl, hleft, hright, hloop]
  exact ⟨_, rfl, rfl, rfl, rfl⟩

/-- What is found for two expressions in a file of three lines. -/
def threeLineMatches (expr : Text) : Except (String × String) (List (ℕ × Text)) :=
  .ok (if expr = ['a'] then [(1, ['a'])] else [(1, ['a']), (2, ['b']), (3, ['b'])])

end Searches

end CpuSearch
end TensorGrep
