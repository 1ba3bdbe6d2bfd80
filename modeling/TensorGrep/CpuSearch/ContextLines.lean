import TensorGrep.CpuSearch.Search
import TensorGrep.Kernel.ContextWindows

/-!
# Lines around matches

With context the native engine says which lines match, and one pass over the file
collects them with the lines around them.  The lines in front of a match wait in a
queue of bounded length (`pushBounded`), the lines behind one are counted down, and
the pass ends with the last match that a limit admits.

There the lines behind that match are missing.  `contextWindows_exact_iff` says that the
windows are exact if and only if there are none to miss.
-/

namespace TensorGrep
namespace CpuSearch

open Kernel
open Result

/-! ## The pass over a file -/

/-- The fields of `SearchConfig` that a search with context reads. -/
structure ContextConfig where
  beforeContext : Option ℕ
  afterContext : Option ℕ
  context : Option ℕ
  maxCount : Option ℕ
deriving DecidableEq

/-- `before_lines`. -/
def ContextConfig.beforeLines (config : ContextConfig) : ℕ :=
  match config.context with
  | some (n + 1) => n + 1
  | _ => config.beforeContext.getD 0

/-- `after_lines`. -/
def ContextConfig.afterLines (config : ContextConfig) : ℕ :=
  match config.context with
  | some (n + 1) => n + 1
  | _ => config.afterContext.getD 0

/-- `needs_context`. -/
def ContextConfig.needsContext (config : ContextConfig) : Bool :=
  [config.context, config.beforeContext, config.afterContext].any fun size => size.getD 0 ≠ 0

/-- The loop of `_assemble_context_matches`: what it appends to `matches` from a line on, and how
many matches there are in the end. -/
def contextLoop
    (config : ContextConfig)
    (file : String)
    (matched : Finset ℕ)
    (lineIdx total remaining : ℕ)
    (beforeQueue : List (ℕ × Text)) : List Bytes → List MatchLine × ℕ
  | [] => ([], total)
  | lineBytes :: rest =>
      let lineText := stripLineTerminator (decodeLine lineBytes)
      if lineIdx ∈ matched then
        let window := beforeQueue.map (fun b => ⟨b.1, b.2, file⟩) ++ [⟨lineIdx, lineText, file⟩]
        if config.maxCount.any fun count => count ≠ 0 ∧ count ≤ total + 1 then (window, total + 1)
        else
          let later := contextLoop config file matched (lineIdx + 1) (total + 1) config.afterLines
            [] rest
          (window ++ later.1, later.2)
      else if 0 < remaining then
        let later := contextLoop config file matched (lineIdx + 1) total (remaining - 1)
          beforeQueue rest
        (⟨lineIdx, lineText, file⟩ :: later.1, later.2)
      else if 0 < config.beforeLines then
        contextLoop config file matched (lineIdx + 1) total remaining
          (pushBounded config.beforeLines beforeQueue (lineIdx, lineText)) rest
      else contextLoop config file matched (lineIdx + 1) total remaining beforeQueue rest

/-- `_assemble_context_matches`. -/
def assembleContextMatches
    (config : ContextConfig)
    (file : String)
    (contents : Bytes)
    (matched : Finset ℕ) : SearchResult :=
  let collected := contextLoop config file matched 1 0 0 [] (linesOf 10 contents)
  ⟨collected.1, if 0 < collected.2 then 1 else 0, collected.2, "cpu_rust_regex_context"⟩

/-- What a search with context says if the native engine does not serve it. -/
def needsRustMessage (kind exc : String) : String :=
  "cannot safely evaluate this pattern through CPUBackend's -C/-A/-B/-w/-x path " ++
    "without the linear-time Rust engine (" ++ kind ++ ": " ++ exc ++ "); install " ++
    "ripgrep, or drop the -C/-A/-B/-w/-x/--pcre2 flag combination"

/-- `_search_word_line_context_via_rust`, where `rustResults` is what the native engine gives or
the exception that it raises. -/
def searchWordLineContextViaRust
    (config : ContextConfig)
    (file : String)
    (contents : Bytes)
    (rustResults : Except (String × String) (List (ℕ × Text))) :
    Except SearchError SearchResult :=
  match rustResults with
  | .error (kind, exc) => .error (.backendExecutionError (needsRustMessage kind exc))
  | .ok results =>
      if config.needsContext then
        .ok (assembleContextMatches config file contents (results.map Prod.fst).toFinset)
      else
        let results := (config.maxCount.map results.take).getD results
        .ok (resultOf (results.map fun r => ⟨r.1, stripLineTerminator r.2, file⟩)
          "cpu_rust_regex")

/-! ## The windows -/

section Windows

variable {config : ContextConfig} {file : String} {matched : Finset ℕ}

/-- A numbered line is matched. -/
def isMatched
    (matched : Finset ℕ)
    (line : Bytes × ℕ) : Bool :=
  line.2 ∈ matched

/-- What is reported of a numbered line. -/
def contextEntry
    (file : String)
    (line : Bytes × ℕ) : MatchLine :=
  ⟨line.2, stripLineTerminator (decodeLine line.1), file⟩

/-- A numbered line as it waits in the queue. -/
def queued (line : Bytes × ℕ) : ℕ × Text :=
  (line.2, stripLineTerminator (decodeLine line.1))

theorem map_queued
    (file : String)
    (queue : List (Bytes × ℕ)) :
    (queue.map queued).map (fun b => (⟨b.1, b.2, file⟩ : MatchLine)) =
      queue.map (contextEntry file) := by
  rw [List.map_map]
  rfl

theorem map_pushBounded
    (maxlen : ℕ)
    (queue : List (Bytes × ℕ))
    (line : Bytes × ℕ) :
    (pushBounded maxlen queue line).map queued =
      pushBounded maxlen (queue.map queued) (queued line) := by
  rw [pushBounded, pushBounded, List.map_drop, List.map_append, List.length_map]
  rfl

/-- Without a limit the loop reports the lines near matches, among those that wait and those that
follow. -/
theorem contextLoop_unlimited
    (hunlimited : config.maxCount = none)
    (lines : List Bytes)
    (lineIdx total remaining : ℕ)
    (queue : List (Bytes × ℕ))
    (hqueue : ∀ line ∈ queue, isMatched matched line = false)
    (hlength : queue.length ≤ config.beforeLines)
    (hempty : 0 < remaining → queue = []) :
    contextLoop config file matched lineIdx total remaining (queue.map queued) lines =
      ((windows (isMatched matched) config.beforeLines config.afterLines remaining
          (queue ++ lines.zipIdx lineIdx)).map (contextEntry file),
        total + (lines.zipIdx lineIdx).countP (isMatched matched)) := by
  induction lines generalizing lineIdx total remaining queue with
  | nil =>
      rw [contextLoop, List.zipIdx_nil, List.append_nil, List.countP_nil, Nat.add_zero]
      by_cases hpos : 0 < remaining
      · rw [hempty hpos]
        rfl
      · obtain rfl : remaining = 0 := by omega
        rw [windows_of_no_hits hqueue]
        rfl
  | cons line rest ih =>
      rw [contextLoop, List.zipIdx_cons]
      dsimp only
      split
      · next hmatched =>
          have hhit : isMatched matched (line, lineIdx) = true := decide_eq_true hmatched
          have hwindow : windows (isMatched matched) config.beforeLines config.afterLines remaining
              (queue ++ (line, lineIdx) :: rest.zipIdx (lineIdx + 1)) =
                queue ++ (line, lineIdx) :: windows (isMatched matched) config.beforeLines
                  config.afterLines config.afterLines (rest.zipIdx (lineIdx + 1)) := by
            by_cases hpos : 0 < remaining
            · rw [hempty hpos, List.nil_append, List.nil_append, windows, hhit]
              rfl
            · obtain rfl : remaining = 0 := by omega
              exact windows_append_hit hqueue hlength hhit _
          have hlater := ih (lineIdx + 1) (total + 1) config.afterLines [] (by simp) (by simp)
            fun _ => rfl
          rw [hunlimited, hwindow, map_queued, List.countP_cons_of_pos hhit]
          rw [List.map_nil, List.nil_append] at hlater
          rw [hlater]
          simp [contextEntry]
          omega
      · next hother =>
          have hmiss : isMatched matched (line, lineIdx) = false := decide_eq_false hother
          rw [List.countP_cons_of_neg (by simp [hmiss])]
          split
          · next hpos =>
              obtain rfl := hempty hpos
              have hlater := ih (lineIdx + 1) total (remaining - 1) [] (by simp) (by simp)
                fun _ => rfl
              rw [hlater, List.nil_append, List.nil_append, windows, hmiss,
                decide_eq_true hpos]
              rfl
          · next hzero =>
              obtain rfl : remaining = 0 := by omega
              split
              · next hbefore =>
                  have hpushed : ∀ waiting ∈ pushBounded config.beforeLines queue (line, lineIdx),
                      isMatched matched waiting = false := by
                    intro waiting hwaiting
                    rcases List.mem_append.mp (List.mem_of_mem_drop hwaiting) with hold | hnew
                    · exact hqueue waiting hold
                    · rw [List.mem_singleton.mp hnew]
                      exact hmiss
                  rw [windows_pushBounded hqueue hlength hmiss]
                  refine (congrArg (contextLoop config file matched (lineIdx + 1) total 0 · rest)
                    (map_pushBounded _ queue (line, lineIdx)).symm).trans ?_
                  refine ih _ _ _ _ hpushed ?_ fun hpos => absurd hpos (lt_irrefl 0)
                  rw [pushBounded, List.length_drop, List.length_append, List.length_singleton]
                  omega
              · next hnone =>
                  have hnil : queue = [] := List.eq_nil_of_length_eq_zero (by omega)
                  have hzero : config.beforeLines = 0 := by omega
                  subst hnil
                  have hlater := ih (lineIdx + 1) total 0 [] (by simp) (by simp) fun _ => rfl
                  rw [hlater, List.nil_append, List.nil_append,
                    windows_cons_far hmiss fun y hy => by simp [hzero] at hy]

/-- With a limit the loop is the loop without one up to the match that reaches the limit. -/
theorem contextLoop_limited
    {count : ℕ}
    (hlimit : config.maxCount = some count)
    (lines : List Bytes)
    (lineIdx total remaining : ℕ)
    (queue : List (ℕ × Text))
    (htotal : total < count) :
    contextLoop config file matched lineIdx total remaining queue lines =
      contextLoop { config with maxCount := none } file matched lineIdx total remaining queue
        (lines.take
          (throughHit (isMatched matched) (count - total) (lines.zipIdx lineIdx)).length) := by
  induction lines generalizing lineIdx total remaining queue with
  | nil => rfl
  | cons line rest ih =>
      rw [List.zipIdx_cons, throughHit]
      by_cases hmatched : lineIdx ∈ matched
      · have hhit : isMatched matched (line, lineIdx) = true := decide_eq_true hmatched
        rw [if_pos hhit, List.length_cons, List.take_succ_cons, contextLoop, contextLoop,
          if_pos hmatched, if_pos hmatched, hlimit, Option.any_some, Option.any_none]
        by_cases hreached : count ≤ total + 1
        · have hcap : decide (count ≠ 0 ∧ count ≤ total + 1) = true :=
            decide_eq_true ⟨by omega, hreached⟩
          have hlast : count - total ≤ 1 := by omega
          rw [if_pos hcap, if_neg Bool.false_ne_true, if_pos hlast]
          simp [contextLoop]
        · have hcap : ¬ decide (count ≠ 0 ∧ count ≤ total + 1) = true :=
            fun h => hreached (of_decide_eq_true h).2
          have hmore : ¬ count - total ≤ 1 := by omega
          rw [if_neg hcap, if_neg Bool.false_ne_true, if_neg hmore, ih _ _ _ _ (by omega),
            Nat.sub_sub]
          rfl
      · have hmiss : ¬ isMatched matched (line, lineIdx) = true := by simpa [isMatched]
        rw [if_neg hmiss, List.length_cons, List.take_succ_cons, contextLoop, contextLoop,
          if_neg hmatched, if_neg hmatched, ih _ _ _ _ htotal, ih _ _ _ _ htotal,
          ih _ _ _ _ htotal]
        rfl

/-! ## The lines that are read -/

/-- The lines that the loop reads. -/
def readLines
    (config : ContextConfig)
    (matched : Finset ℕ)
    (lines : List Bytes) : List Bytes :=
  match config.maxCount with
  | none => lines
  | some count =>
      lines.take (throughHit (isMatched matched) count (lines.zipIdx 1)).length

/-- The numbers of the matched lines of a file with so many lines. -/
def matchedNumbers
    (matched : Finset ℕ)
    (lineCount : ℕ) : List ℕ :=
  (List.range' 1 lineCount).filter fun n => n ∈ matched

/-- The selected lines: the matched lines of the file, or as many of them as the limit says. -/
def selectedNumbers
    (config : ContextConfig)
    (matched : Finset ℕ)
    (lineCount : ℕ) : List ℕ :=
  match config.maxCount with
  | none => matchedNumbers matched lineCount
  | some count => (matchedNumbers matched lineCount).take count

theorem take_zipIdx
    {α : Type}
    (k n : ℕ)
    (xs : List α) :
    (xs.zipIdx n).take k = (xs.take k).zipIdx n := by
  induction xs generalizing k n with
  | nil => simp
  | cons x xs ih =>
      cases k with
      | zero => rfl
      | succ k => rw [List.zipIdx_cons, List.take_succ_cons, List.take_succ_cons, ih,
          List.zipIdx_cons]

theorem map_snd_filter_isMatched
    (matched : Finset ℕ)
    (lines : List Bytes) :
    ((lines.zipIdx 1).filter (isMatched matched)).map Prod.snd =
      matchedNumbers matched lines.length := by
  rw [matchedNumbers, ← List.zipIdx_map_snd 1 lines, List.filter_map]
  rfl

/-- The numbered lines that are read. -/
theorem zipIdx_readLines
    {count : ℕ}
    (hlimit : config.maxCount = some count)
    (lines : List Bytes) :
    (readLines config matched lines).zipIdx 1 =
      throughHit (isMatched matched) count (lines.zipIdx 1) := by
  rw [readLines, hlimit]
  dsimp only
  rw [← take_zipIdx]
  exact (List.prefix_iff_eq_take.mp (throughHit_isPrefixOf count _)).symm

/-- The selected lines are the matched ones among those that are read. -/
theorem selectedNumbers_eq
    (hpositive : config.maxCount ≠ some 0)
    (lines : List Bytes) :
    selectedNumbers config matched lines.length =
      matchedNumbers matched (readLines config matched lines).length := by
  cases hlimit : config.maxCount with
  | none => rw [selectedNumbers, readLines, hlimit]
  | some count =>
      have hcount : 0 < count := by
        rcases Nat.eq_zero_or_pos count with rfl | h
        · exact absurd hlimit hpositive
        · exact h
      rw [selectedNumbers, hlimit]
      dsimp only
      rw [← map_snd_filter_isMatched matched (readLines config matched lines),
        zipIdx_readLines hlimit, filter_throughHit hcount, List.map_take,
        map_snd_filter_isMatched]

theorem length_readLines_le
    (lines : List Bytes) :
    (readLines config matched lines).length ≤ lines.length := by
  rw [readLines]
  split
  · exact le_refl _
  · exact List.length_take_le' _ _

theorem getElem?_readLines
    {lines : List Bytes}
    {i : ℕ}
    (hi : i < (readLines config matched lines).length) :
    (readLines config matched lines)[i]? = lines[i]? := by
  rw [readLines] at hi ⊢
  split at hi
  · rfl
  · next count hcount =>
      rw [List.length_take] at hi
      exact List.getElem?_take_of_lt (lt_of_lt_of_le hi (min_le_left _ _))

/-- The result as windows. -/
theorem assembleContextMatches_eq
    (hpositive : config.maxCount ≠ some 0)
    (contents : Bytes) :
    assembleContextMatches config file contents matched =
      let lines := (readLines config matched (linesOf 10 contents)).zipIdx 1
      let total := lines.countP (isMatched matched)
      ⟨(windows (isMatched matched) config.beforeLines config.afterLines 0 lines).map
          (contextEntry file), if 0 < total then 1 else 0, total, "cpu_rust_regex_context"⟩ := by
  have hloop : contextLoop config file matched 1 0 0 [] (linesOf 10 contents) =
      contextLoop { config with maxCount := none } file matched 1 0 0 []
        (readLines config matched (linesOf 10 contents)) := by
    cases hlimit : config.maxCount with
    | none =>
        obtain ⟨before, after, context, maxCount⟩ := config
        cases hlimit
        rfl
    | some count =>
        have hcount : 0 < count := by
          rcases Nat.eq_zero_or_pos count with rfl | h
          · exact absurd hlimit hpositive
          · exact h
        rw [contextLoop_limited hlimit _ _ _ _ _ hcount, readLines, hlimit]
        rfl
  have hunlimited := @contextLoop_unlimited { config with maxCount := none } file matched rfl
    (readLines config matched (linesOf 10 contents)) 1 0 0 [] (by simp) (by simp) (by simp)
  rw [List.map_nil, List.nil_append, Nat.zero_add] at hunlimited
  rw [assembleContextMatches, hloop, hunlimited]
  rfl

/-! ## When the windows are exact -/

/-- The lines that are reported are those near a selected line, once each and in order, and the
number of matches is that of the selected lines. -/
structure ContextWindowsExact
    (config : ContextConfig)
    (file : String)
    (contents : Bytes)
    (matched : Finset ℕ)
    (result : SearchResult) : Prop where
  increasing : (result.found.map MatchLine.lineNumber).Pairwise (· < ·)
  windows : ∀ found, found ∈ result.found ↔
    ∃ n line, (linesOf 10 contents)[n - 1]? = some line ∧ 1 ≤ n ∧
      found = ⟨n, stripLineTerminator (decodeLine line), file⟩ ∧
      ∃ m ∈ selectedNumbers config matched (linesOf 10 contents).length,
        m ≤ n + config.beforeLines ∧ n ≤ m + config.afterLines
  total : result.totalMatches =
    (selectedNumbers config matched (linesOf 10 contents).length).length

/-- No window is cut off by the limit: no lines are wanted behind matches, or there are fewer
matched lines than the limit, or the last one that it admits is the last line of the file. -/
def NoWindowCutOff
    (config : ContextConfig)
    (matched : Finset ℕ)
    (lineCount : ℕ) : Prop :=
  config.afterLines = 0 ∨ ∀ count, config.maxCount = some count →
    (matchedNumbers matched lineCount).length < count ∨
      (matchedNumbers matched lineCount)[count - 1]? = some lineCount

theorem mem_matchedNumbers
    {lineCount m : ℕ} :
    m ∈ matchedNumbers matched lineCount ↔ m ∈ matched ∧ 1 ≤ m ∧ m ≤ lineCount := by
  rw [matchedNumbers, List.mem_filter, List.mem_range'_1, decide_eq_true_iff, and_comm,
    Nat.add_comm, Nat.lt_succ_iff]

/-- A line is reported if it is read and near a matched line that is read. -/
theorem mem_found_iff
    (hpositive : config.maxCount ≠ some 0)
    {contents : Bytes}
    {found : MatchLine} :
    found ∈ (assembleContextMatches config file contents matched).found ↔
      ∃ n line, (readLines config matched (linesOf 10 contents))[n - 1]? = some line ∧ 1 ≤ n ∧
        found = ⟨n, stripLineTerminator (decodeLine line), file⟩ ∧
        ∃ m ∈ selectedNumbers config matched (linesOf 10 contents).length,
          m ≤ n + config.beforeLines ∧ n ≤ m + config.afterLines := by
  rw [selectedNumbers_eq hpositive]
  rw [assembleContextMatches_eq hpositive, List.mem_map]
  simp only [mem_windows_iff (Nat.zero_le _), List.getElem?_zipIdx, Nat.not_lt_zero, false_or,
    Option.map_eq_some_iff]
  constructor
  · rintro ⟨entry, ⟨i, ⟨line, hline, rfl⟩, j, other, ⟨line', hline', rfl⟩, hhit, hle, hge⟩, rfl⟩
    have hj := (List.getElem?_eq_some_iff.mp hline').1
    refine ⟨1 + i, line, by rwa [Nat.add_sub_cancel_left], by omega, rfl, 1 + j, ?_, by omega,
      by omega⟩
    exact mem_matchedNumbers.mpr ⟨of_decide_eq_true hhit, by omega, by omega⟩
  · rintro ⟨n, line, hline, hn, rfl, m, hm, hle, hge⟩
    obtain ⟨hmatched, hpos, hlast⟩ := mem_matchedNumbers.mp hm
    refine ⟨(line, n), ⟨n - 1, ⟨line, hline, by rw [Nat.add_sub_cancel' hn]⟩, m - 1,
      ((readLines config matched (linesOf 10 contents))[m - 1], m),
      ⟨_, List.getElem?_eq_getElem (by omega), by rw [Nat.add_sub_cancel' hpos]⟩,
      decide_eq_true hmatched, by omega, by omega⟩, rfl⟩

/-- The last line that is read is matched, if the limit is reached. -/
theorem getElem?_matchedNumbers_limit
    {count : ℕ}
    (hlimit : config.maxCount = some count)
    (hcount : 0 < count)
    {lines : List Bytes}
    (hreached : count ≤ (matchedNumbers matched lines.length).length) :
    (matchedNumbers matched lines.length)[count - 1]? =
      some (readLines config matched lines).length := by
  have hselected := @selectedNumbers_eq config matched (by rw [hlimit]; simp; omega) lines
  rw [selectedNumbers, hlimit] at hselected
  dsimp only at hselected
  -- the last line that is read is matched
  have hhits : count ≤ ((lines.zipIdx 1).filter (isMatched matched)).length := by
    rwa [← map_snd_filter_isMatched, List.length_map] at hreached
  obtain ⟨⟨line, n⟩, hlast, hhit⟩ := getLast?_throughHit hcount hhits
  rw [← zipIdx_readLines hlimit, List.getLast?_eq_getElem?, List.getElem?_zipIdx,
    Option.map_eq_some_iff, List.length_zipIdx] at hlast
  obtain ⟨line, hline, hsame⟩ := hlast
  have hlt := (List.getElem?_eq_some_iff.mp hline).1
  obtain ⟨k, hk⟩ := Nat.exists_eq_succ_of_ne_zero
    (show (readLines config matched lines).length ≠ 0 by omega)
  have hmatched : k + 1 ∈ matched := by
    have hn : n = k + 1 := by
      rw [hk] at hsame
      have := congrArg Prod.snd hsame
      simp at this
      omega
    rw [← hn]
    exact of_decide_eq_true hhit
  have hend : (matchedNumbers matched (k + 1)).getLast? = some (k + 1) := by
    have hkept : [k + 1].filter (fun n => n ∈ matched) = [k + 1] := by simp [hmatched]
    rw [matchedNumbers, List.range'_1_concat, List.filter_append, Nat.add_comm 1 k, hkept,
      List.getLast?_concat]
  rw [hk] at hselected ⊢
  rw [← hend, ← hselected, List.getLast?_take, if_neg hcount.ne',
    List.getElem?_eq_getElem (by omega : count - 1 < _)]
  rfl

/-- Everything is read exactly if no match reaches the limit in front of the last line. -/
theorem length_readLines_eq_iff
    (hpositive : config.maxCount ≠ some 0)
    (lines : List Bytes) :
    (readLines config matched lines).length = lines.length ↔
      ∀ count, config.maxCount = some count →
        (matchedNumbers matched lines.length).length < count ∨
          (matchedNumbers matched lines.length)[count - 1]? = some lines.length := by
  constructor
  · intro hall count hlimit
    by_cases hreached : count ≤ (matchedNumbers matched lines.length).length
    · have hcount : 0 < count := by
        rcases Nat.eq_zero_or_pos count with rfl | h
        · exact absurd hlimit hpositive
        · exact h
      exact Or.inr ((getElem?_matchedNumbers_limit hlimit hcount hreached).trans (by rw [hall]))
    · exact Or.inl (by omega)
  · intro hcond
    cases hlimit : config.maxCount with
    | none => simp [readLines, hlimit]
    | some count =>
        have hcount : 0 < count := by
          rcases Nat.eq_zero_or_pos count with rfl | h
          · exact absurd hlimit hpositive
          · exact h
        rcases hcond count hlimit with hfew | hlast
        · rw [← map_snd_filter_isMatched, List.length_map] at hfew
          rw [readLines, hlimit]
          dsimp only
          rw [throughHit_of_length_lt hfew, List.length_zipIdx, List.take_length]
        · by_cases hreached : count ≤ (matchedNumbers matched lines.length).length
          · rw [getElem?_matchedNumbers_limit hlimit hcount hreached] at hlast
            exact Option.some.inj hlast
          · rw [List.getElem?_eq_none (by omega)] at hlast
            cases hlast

/-- If not all lines are read, the last one that is read is selected. -/
theorem length_readLines_mem
    (hpositive : config.maxCount ≠ some 0)
    {lines : List Bytes}
    (hstop : (readLines config matched lines).length ≠ lines.length) :
    (readLines config matched lines).length ∈ selectedNumbers config matched lines.length := by
  have hcut := mt (length_readLines_eq_iff hpositive lines).mpr hstop
  push Not at hcut
  obtain ⟨count, hlimit, hreached, -⟩ := hcut
  have hcount : 0 < count := by
    rcases Nat.eq_zero_or_pos count with rfl | h
    · exact absurd hlimit hpositive
    · exact h
  have hmem := List.mem_of_getElem? (getElem?_matchedNumbers_limit hlimit hcount hreached)
  obtain ⟨hmatched, hpos, -⟩ := mem_matchedNumbers.mp hmem
  rw [selectedNumbers_eq hpositive]
  exact mem_matchedNumbers.mpr ⟨hmatched, hpos, le_refl _⟩

/-- The lines are reported in order. -/
theorem pairwise_found
    (hpositive : config.maxCount ≠ some 0)
    (contents : Bytes) :
    ((assembleContextMatches config file contents matched).found.map
      MatchLine.lineNumber).Pairwise (· < ·) := by
  rw [assembleContextMatches_eq hpositive]
  dsimp only
  rw [List.map_map]
  have hnumbers := (List.pairwise_lt_range' (s := 1)
    (n := (readLines config matched (linesOf 10 contents)).length) 1)
  rw [← List.zipIdx_map_snd 1 (readLines config matched (linesOf 10 contents))] at hnumbers
  exact hnumbers.sublist ((windows_sublist 0 _).map Prod.snd)

/-- The windows are exact if and only if the limit cuts no window off. -/
theorem contextWindows_exact_iff
    (hpositive : config.maxCount ≠ some 0)
    (contents : Bytes) :
    ContextWindowsExact config file contents matched
        (assembleContextMatches config file contents matched) ↔
      NoWindowCutOff config matched (linesOf 10 contents).length := by
  have hread := @length_readLines_le config matched (linesOf 10 contents)
  rw [NoWindowCutOff, ← length_readLines_eq_iff hpositive]
  constructor
  · intro hexact
    by_contra hcut
    rw [not_or] at hcut
    obtain ⟨hafter, hstop⟩ := hcut
    -- the line behind the last one that is read
    have hlast := length_readLines_mem hpositive hstop
    have hlt : (readLines config matched (linesOf 10 contents)).length <
        (linesOf 10 contents).length := by omega
    have hfound := (hexact.windows _).mpr
      ⟨(readLines config matched (linesOf 10 contents)).length + 1, _,
        List.getElem?_eq_getElem hlt, Nat.le_add_left 1 _, rfl, _, hlast, by omega, by omega⟩
    obtain ⟨n, line, hline, -, hentry, -⟩ := (mem_found_iff hpositive).mp hfound
    have hn := congrArg MatchLine.lineNumber hentry
    dsimp only at hn
    have := (List.getElem?_eq_some_iff.mp hline).1
    omega
  · intro hcond
    refine ⟨pairwise_found hpositive contents, ?_, ?_⟩
    · intro found
      rw [mem_found_iff hpositive]
      constructor
      · rintro ⟨n, line, hline, hnear⟩
        refine ⟨n, line, ?_, hnear⟩
        rwa [← getElem?_readLines (List.getElem?_eq_some_iff.mp hline).1]
      · rintro ⟨n, line, hline, hn, hentry, m, hm, hle, hge⟩
        have hmread := mem_matchedNumbers.mp (selectedNumbers_eq hpositive _ ▸ hm)
        have hlt := (List.getElem?_eq_some_iff.mp hline).1
        refine ⟨n, line, ?_, hn, hentry, m, hm, hle, hge⟩
        rw [getElem?_readLines, hline]
        rcases hcond with hnone | hall
        · omega
        · omega
    · rw [assembleContextMatches_eq hpositive, selectedNumbers_eq hpositive,
        ← map_snd_filter_isMatched, List.length_map]
      exact List.countP_eq_length_filter

/-- The only match that counts is in the last line. -/
theorem contextWindows_exact_last :
    ContextWindowsExact ⟨none, some 1, none, some 1⟩ "a" [0x62, 0x0a, 0x6d, 0x0a] {2}
      (assembleContextMatches ⟨none, some 1, none, some 1⟩ "a" [0x62, 0x0a, 0x6d, 0x0a] {2}) := by
  refine (contextWindows_exact_iff (by simp) _).mpr (Or.inr ?_)
  rintro count ⟨⟩
  exact Or.inr (by decide)

end Windows

/-! ## A window that is cut off -/

/-- The first line matches, and with a limit of one the line behind it is not reported. -/
theorem limit_cuts_window_off :
    ¬ ContextWindowsExact ⟨none, some 1, none, some 1⟩ "a" [0x6d, 0x0a, 0x62, 0x0a] {1}
      (assembleContextMatches ⟨none, some 1, none, some 1⟩ "a" [0x6d, 0x0a, 0x62, 0x0a] {1}) := by
  intro hexact
  have hsecond := (hexact.windows ⟨2, ['b'], "a"⟩).mpr
    ⟨2, [0x62, 0x0a], rfl, by simp, rfl, 1, by decide, by decide, by decide⟩
  revert hsecond
  decide

end CpuSearch
end TensorGrep
