import TensorGrep.DirectoryScanner.Walk

/-!
# The directories a walk comes to

Which directories a walk comes to, and in which order, depends on the tree and the
filters only: `arrivals` lists them.  The walk is one pass over this list
(`walkDir_eq_run`), so what it records, when it raises and what it yields are facts
about a pass over a list.
-/

namespace TensorGrep
namespace DirectoryScanner

open Kernel
open RepoMap (FileName RepoPath)

/-! ## Induction over the nodes -/

/-- What holds of a directory if it holds of its entries holds of every node. -/
theorem ScanNode.induct
    {motive : ScanNode → Prop}
    (file : ∀ contents, motive (.file contents))
    (special : motive .special)
    (link : ∀ target, motive (.link target))
    (dir : ∀ listable entries, (∀ entry ∈ entries, motive entry.2) →
      motive (.dir listable entries)) :
    ∀ node, motive node
  | .file contents => file contents
  | .special => special
  | .link target => link target
  | .dir listable entries =>
      dir listable entries fun entry _ => ScanNode.induct file special link dir entry.2
termination_by node => node
decreasing_by
  rename_i hentry
  have hmem := List.sizeOf_lt_of_mem hentry
  have hpair : sizeOf entry = 1 + sizeOf entry.1 + sizeOf entry.2 := rfl
  simp only [ScanNode.dir.sizeOf_spec]
  omega

/-! ## Arrivals -/

/-- A directory that a walk comes to, with the specs down to it. -/
structure Arrival where
  path : RepoPath
  stack : List (RepoPath × Text)
  listable : Bool
  entries : ScanEntries

/-- What the directory adds to the entries visited. -/
def Arrival.count (a : Arrival) : ℕ :=
  if a.listable then 1 + a.entries.length else 0

/-- The text of the patterns of a directory, cut to the byte limit. -/
def specText
    (scanner : Scanner)
    (entries : ScanEntries) : Option Text :=
  if scanner.config.ignoresNothing then none
  else
    match ignoreFile entries with
    | .contents raw =>
        some (decodeReplace (if scanner.gitignoreMaxBytes < raw.length then
          cutAtLine (raw.take scanner.gitignoreMaxBytes) else raw))
    | _ => none

/-- The directory has a `.gitignore` that is read and cannot be opened. -/
def refuses
    (scanner : Scanner)
    (entries : ScanEntries) : Bool :=
  !scanner.config.ignoresNothing &&
    match ignoreFile entries with
    | .refused => true
    | _ => false

/-- The directory has a `.gitignore` that is read and longer than the byte limit. -/
def overlong
    (scanner : Scanner)
    (entries : ScanEntries) : Bool :=
  !scanner.config.ignoresNothing &&
    match ignoreFile entries with
    | .contents raw => scanner.gitignoreMaxBytes < raw.length
    | _ => false

/-- A `.gitignore` has been read only in part. -/
def Signals.noteOverlong
    (signals : Signals)
    (isOverlong : Bool) : Signals :=
  if isOverlong then { signals with gitignoreTruncated := true } else signals

theorem loadIgnoreSpec_eq
    (scanner : Scanner)
    (entries : ScanEntries)
    (signals : Signals) :
    loadIgnoreSpec scanner entries signals =
      if refuses scanner entries then none
      else some (specText scanner entries, signals.noteOverlong (overlong scanner entries)) := by
  rw [loadIgnoreSpec, refuses, specText, overlong, Signals.noteOverlong]
  cases scanner.config.ignoresNothing with
  | true => simp
  | false =>
      cases ignoreFile entries with
      | absent => simp
      | refused => simp
      | contents raw =>
          by_cases hlong : scanner.gitignoreMaxBytes < raw.length <;> simp [hlong]

theorem Signals.noteOverlong_twice
    (signals : Signals)
    (isOverlong : Bool) :
    (signals.noteOverlong isOverlong).noteOverlong isOverlong =
      signals.noteOverlong isOverlong := by
  cases isOverlong <;> rfl

section Arrivals

variable (host : Host) (scanner : Scanner) (base : BasePath)

mutual

/-- The directories the walk comes to below a node, that of the node first. -/
def arrivals
    (path : RepoPath)
    (stack : List (RepoPath × Text)) : ScanNode → List Arrival
  | .dir listable entries =>
      ⟨path, pushSpec path (specText scanner entries) stack, listable, entries⟩ ::
        if listable && !tooDeep scanner.config path then
          entryArrivals path (pushSpec path (specText scanner entries) stack) entries
        else []
  | _ => []

/-- The directories it comes to below the entries of a directory. -/
def entryArrivals
    (path : RepoPath)
    (stack : List (RepoPath × Text)) : List (FileName × ScanNode) → List Arrival
  | [] => []
  | (name, node) :: entries =>
      (if descends host scanner base path stack name node then
        arrivals (path ++ [name]) stack node
      else []) ++ entryArrivals path stack entries

end

/-- What the walk does with one directory. -/
def visit
    (a : Arrival)
    (state : WalkState) : Progress :=
  if !a.listable then
    .going { state with signals := onWalkError (base.join a.path) state.signals }
  else
    let visited := state.entriesVisited + 1 + a.entries.length
    if scanner.maxScanEntries < visited then
      .stopped { state with signals := outOfEntries state.signals, entriesVisited := visited }
    else if tooDeep scanner.config a.path then .going { state with entriesVisited := visited }
    else if refuses scanner a.entries then .raised
    else
      .going {
        signals := state.signals.noteOverlong (overlong scanner a.entries)
        entriesVisited := visited
        yielded := state.yielded ++ yields host scanner base a.path a.stack a.entries }

/-- A pass over the directories. -/
def run : List Arrival → WalkState → Progress
  | [], state => .going state
  | a :: as, state => (visit host scanner base a state).andThen (run as)

end Arrivals

section Runs

variable {host : Host} {scanner : Scanner} {base : BasePath}

theorem Progress.andThen_assoc
    (p : Progress)
    (f g : WalkState → Progress) :
    (p.andThen f).andThen g = p.andThen fun state => (f state).andThen g := by
  cases p <;> rfl

@[simp] theorem Progress.andThen_going
    (state : WalkState)
    (f : WalkState → Progress) :
    (Progress.going state).andThen f = f state :=
  rfl

theorem run_append
    (as as' : List Arrival)
    (state : WalkState) :
    run host scanner base (as ++ as') state =
      (run host scanner base as state).andThen (run host scanner base as') := by
  induction as generalizing state with
  | nil => rfl
  | cons a as ih =>
      rw [List.cons_append, run, run, Progress.andThen_assoc]
      exact congrArg _ (funext ih)

/-- The walk is a pass over the directories it comes to. -/
theorem walkDir_eq_run
    (path : RepoPath)
    (stack : List (RepoPath × Text))
    (node : ScanNode)
    (state : WalkState) :
    walkDir host scanner base path stack none node state =
      run host scanner base (arrivals host scanner base path stack node) state := by
  induction node using ScanNode.induct generalizing path stack state with
  | file contents => rw [walkDir, arrivals, run] <;> simp
  | special => rw [walkDir, arrivals, run] <;> simp
  | link target => rw [walkDir, arrivals, run] <;> simp
  | dir listable entries ih =>
      have hentries : ∀ es ⊆ entries, ∀ stack state,
          walkEntries host scanner base path stack es state =
            run host scanner base (entryArrivals host scanner base path stack es) state := by
        intro es hes
        induction es with
        | nil => exact fun _ _ => by rw [walkEntries, entryArrivals, run]
        | cons entry es ihes =>
            obtain ⟨name, node⟩ := entry
            intro stack state
            rw [walkEntries, entryArrivals, run_append]
            have hrest := funext (ihes (fun _ h => hes (List.mem_cons_of_mem _ h)) stack)
            rw [hrest]
            congr 1
            split
            · exact ih _ (hes List.mem_cons_self) _ _ _
            · rfl
      rw [walkDir, arrivals, run, visit]
      cases listable with
      | false => rfl
      | true =>
          by_cases hbudget :
              scanner.maxScanEntries < ((state.entriesVisited + 1 + entries.length : ℕ) : ℤ)
          · simp only [Bool.not_true, Bool.false_eq_true, if_false, if_pos hbudget]
            rfl
          · simp only [Bool.not_true, Bool.false_eq_true, if_false, if_neg hbudget]
            cases hdeep : tooDeep scanner.config path with
            | true => rfl
            | false =>
                rw [loadIgnoreSpec_eq]
                cases hrefuses : refuses scanner entries with
                | true => rfl
                | false => exact hentries entries (fun _ h => h) _ _

/-- Reading the spec of the base up front changes nothing but when it raises. -/
theorem walkDir_known
    {entries : ScanEntries}
    (hread : refuses scanner entries = false)
    (listable : Bool)
    (path : RepoPath)
    (stack : List (RepoPath × Text))
    (state : WalkState)
    (hnoted : state.signals.noteOverlong (overlong scanner entries) = state.signals) :
    walkDir host scanner base path stack (some (specText scanner entries))
        (.dir listable entries) state =
      walkDir host scanner base path stack none (.dir listable entries) state := by
  have hload := loadIgnoreSpec_eq scanner entries state.signals
  rw [hread, hnoted] at hload
  rw [walkDir, walkDir, hload]
  rfl

/-! ## One pass -/

/-- What can happen when the walk comes to a directory. -/
inductive VisitCase
    (host : Host)
    (scanner : Scanner)
    (base : BasePath)
    (a : Arrival)
    (state : WalkState) : Progress → Prop
  | unlisted
      (hlist : a.listable = false) :
      VisitCase host scanner base a state
        (.going { state with signals := onWalkError (base.join a.path) state.signals })
  | overBudget
      (hlist : a.listable = true)
      (hbudget : scanner.maxScanEntries < ((state.entriesVisited + a.count : ℕ) : ℤ)) :
      VisitCase host scanner base a state
        (.stopped {
          state with
          signals := outOfEntries state.signals
          entriesVisited := state.entriesVisited + a.count })
  | deep
      (hlist : a.listable = true)
      (hbudget : ¬ scanner.maxScanEntries < ((state.entriesVisited + a.count : ℕ) : ℤ))
      (hdeep : tooDeep scanner.config a.path = true) :
      VisitCase host scanner base a state
        (.going { state with entriesVisited := state.entriesVisited + a.count })
  | refused
      (hlist : a.listable = true)
      (hbudget : ¬ scanner.maxScanEntries < ((state.entriesVisited + a.count : ℕ) : ℤ))
      (hdeep : tooDeep scanner.config a.path = false)
      (hrefuses : refuses scanner a.entries = true) :
      VisitCase host scanner base a state .raised
  | entered
      (hlist : a.listable = true)
      (hbudget : ¬ scanner.maxScanEntries < ((state.entriesVisited + a.count : ℕ) : ℤ))
      (hdeep : tooDeep scanner.config a.path = false)
      (hrefuses : refuses scanner a.entries = false) :
      VisitCase host scanner base a state
        (.going {
          signals := state.signals.noteOverlong (overlong scanner a.entries)
          entriesVisited := state.entriesVisited + a.count
          yielded := state.yielded ++ yields host scanner base a.path a.stack a.entries })

theorem visit_case
    (host : Host)
    (scanner : Scanner)
    (base : BasePath)
    (a : Arrival)
    (state : WalkState) :
    VisitCase host scanner base a state (visit host scanner base a state) := by
  rw [visit]
  cases hlist : a.listable with
  | false => exact .unlisted hlist
  | true =>
      have hcount : state.entriesVisited + 1 + a.entries.length =
          state.entriesVisited + a.count := by
        rw [Arrival.count, hlist, if_pos rfl, Nat.add_assoc]
      simp only [Bool.not_true, Bool.false_eq_true, if_false, hcount]
      by_cases hbudget : scanner.maxScanEntries < ((state.entriesVisited + a.count : ℕ) : ℤ)
      · rw [if_pos hbudget]
        exact .overBudget hlist hbudget
      · rw [if_neg hbudget]
        cases hdeep : tooDeep scanner.config a.path with
        | true => exact .deep hlist hbudget hdeep
        | false =>
            cases hrefuses : refuses scanner a.entries with
            | true => exact .refused hlist hbudget hdeep hrefuses
            | false => exact .entered hlist hbudget hdeep hrefuses

/-- The directories up to the one at which the entry budget stops the walk. -/
def reached (scanner : Scanner) : ℕ → List Arrival → List Arrival
  | _, [] => []
  | seen, a :: as =>
      if a.listable && scanner.maxScanEntries < ((seen + a.count : ℕ) : ℤ) then []
      else a :: reached scanner (seen + a.count) as

/-- The directory makes the walk raise. -/
def Arrival.raises
    (scanner : Scanner)
    (a : Arrival) : Bool :=
  a.listable && !tooDeep scanner.config a.path && refuses scanner a.entries

/-- What a directory yields. -/
def Arrival.files
    (host : Host)
    (scanner : Scanner)
    (base : BasePath)
    (a : Arrival) : List RepoPath :=
  if a.listable && !tooDeep scanner.config a.path then
    yields host scanner base a.path a.stack a.entries
  else []

/-- Nothing sets a signal: every directory can be listed, the entry budget is not used up and no
`.gitignore` is too long. -/
def Clean (scanner : Scanner) : ℕ → List Arrival → Prop
  | _, [] => True
  | seen, a :: as =>
      a.listable = true ∧ ((seen + a.count : ℕ) : ℤ) ≤ scanner.maxScanEntries ∧
        (tooDeep scanner.config a.path = false → overlong scanner a.entries = false) ∧
          Clean scanner (seen + a.count) as

/-- One of the truncation signals is set. -/
def Signals.flagged (signals : Signals) : Bool :=
  signals.scanTruncated || signals.gitignoreTruncated

theorem Signals.flagged_noteOverlong
    (signals : Signals)
    (isOverlong : Bool) :
    (signals.noteOverlong isOverlong).flagged = (signals.flagged || isOverlong) := by
  cases isOverlong <;> simp [noteOverlong, flagged]

@[simp] theorem onWalkError_flagged
    (filename : Text)
    (signals : Signals) :
    (onWalkError filename signals).flagged = true :=
  rfl

@[simp] theorem outOfEntries_flagged (signals : Signals) :
    (outOfEntries signals).flagged = true :=
  rfl

theorem Arrival.count_of_unlisted
    {a : Arrival}
    (hlist : a.listable = false) :
    a.count = 0 := by
  simp [count, hlist]

/-- A walk raises at a directory it reaches whose `.gitignore` cannot be opened. -/
theorem run_raises_iff
    (as : List Arrival)
    (state : WalkState) :
    (run host scanner base as state).final? = none ↔
      ∃ a ∈ reached scanner state.entriesVisited as, a.raises scanner = true := by
  induction as generalizing state with
  | nil => simp [run, reached, Progress.final?]
  | cons a as ih =>
      have hcase := visit_case host scanner base a state
      rw [run, reached]
      generalize visit host scanner base a state = p at hcase ⊢
      cases hcase with
      | unlisted hlist =>
          simp [ih, Arrival.raises, hlist, Arrival.count_of_unlisted hlist]
      | overBudget hlist hbudget =>
          rw [hlist, Bool.true_and, if_pos (decide_eq_true hbudget)]
          simp [Progress.andThen, Progress.final?]
      | deep hlist hbudget hdeep =>
          rw [hlist, Bool.true_and, if_neg (by simpa using hbudget), Progress.andThen_going, ih]
          simp [Arrival.raises, hdeep]
      | refused hlist hbudget hdeep hrefuses =>
          rw [hlist, Bool.true_and, if_neg (by simpa using hbudget)]
          simp [Progress.andThen, Progress.final?, Arrival.raises, hlist, hdeep, hrefuses]
      | entered hlist hbudget hdeep hrefuses =>
          rw [hlist, Bool.true_and, if_neg (by simpa using hbudget), Progress.andThen_going, ih]
          simp [Arrival.raises, hrefuses]

/-- A walk that does not raise leaves the signals unset if they are, and nothing sets them. -/
theorem run_flagged_iff
    {as : List Arrival}
    {state final : WalkState}
    (h : (run host scanner base as state).final? = some final) :
    final.signals.flagged = false ↔
      state.signals.flagged = false ∧ Clean scanner state.entriesVisited as := by
  induction as generalizing state with
  | nil =>
      obtain rfl := Option.some.inj h
      simp [Clean]
  | cons a as ih =>
      have hcase := visit_case host scanner base a state
      rw [run] at h
      rw [Clean]
      generalize visit host scanner base a state = p at hcase h
      cases hcase with
      | unlisted hlist => simp [ih h, hlist]
      | overBudget hlist hbudget =>
          obtain rfl := Option.some.inj h
          exact iff_of_false (by simp) fun hclean => absurd hclean.2.2.1 (not_le.mpr hbudget)
      | deep hlist hbudget hdeep =>
          have hwithin := not_lt.mp hbudget
          simp only [ih h, hlist, hwithin, hdeep, true_and, Bool.true_eq_false, false_imp_iff]
      | refused hlist hbudget hdeep hrefuses => cases h
      | entered hlist hbudget hdeep hrefuses =>
          have hwithin := not_lt.mp hbudget
          simp only [ih h, Signals.flagged_noteOverlong, Bool.or_eq_false_iff, and_assoc, hlist,
            hwithin, hdeep, true_and, true_imp_iff]

/-- What a walk yields in the end is part of what the directories yield. -/
theorem run_yielded_sublist
    {as : List Arrival}
    {state final : WalkState}
    (h : (run host scanner base as state).final? = some final) :
    List.Sublist final.yielded
      (state.yielded ++ as.flatMap (Arrival.files host scanner base)) := by
  induction as generalizing state with
  | nil =>
      obtain rfl := Option.some.inj h
      simp
  | cons a as ih =>
      have hcase := visit_case host scanner base a state
      rw [run] at h
      rw [List.flatMap_cons]
      generalize visit host scanner base a state = p at hcase h
      cases hcase with
      | unlisted hlist => simpa [Arrival.files, hlist] using ih h
      | overBudget hlist hbudget =>
          obtain rfl := Option.some.inj h
          exact List.sublist_append_left _ _
      | deep hlist hbudget hdeep => simpa [Arrival.files, hdeep] using ih h
      | refused hlist hbudget hdeep hrefuses => cases h
      | entered hlist hbudget hdeep hrefuses =>
          simpa [Arrival.files, hlist, hdeep] using ih h

/-- A walk that does not raise yields what the directories yield that it reaches. -/
theorem run_yielded_reached
    {as : List Arrival}
    {state final : WalkState}
    (h : (run host scanner base as state).final? = some final) :
    final.yielded = state.yielded ++
      (reached scanner state.entriesVisited as).flatMap (Arrival.files host scanner base) := by
  induction as generalizing state with
  | nil =>
      obtain rfl := Option.some.inj h
      simp [reached]
  | cons a as ih =>
      have hcase := visit_case host scanner base a state
      rw [run] at h
      rw [reached]
      generalize visit host scanner base a state = p at hcase h
      cases hcase with
      | unlisted hlist =>
          simpa [Arrival.files, hlist, Arrival.count_of_unlisted hlist] using ih h
      | overBudget hlist hbudget =>
          obtain rfl := Option.some.inj h
          rw [hlist, Bool.true_and, if_pos (decide_eq_true hbudget)]
          simp
      | deep hlist hbudget hdeep =>
          rw [hlist, Bool.true_and, if_neg (by simpa using hbudget)]
          simpa [Arrival.files, hdeep] using ih h
      | refused hlist hbudget hdeep hrefuses => cases h
      | entered hlist hbudget hdeep hrefuses =>
          rw [hlist, Bool.true_and, if_neg (by simpa using hbudget)]
          simpa [Arrival.files, hlist, hdeep] using ih h

/-- A walk that nothing flags yields what the directories yield. -/
theorem run_yielded
    {as : List Arrival}
    {state final : WalkState}
    (h : (run host scanner base as state).final? = some final)
    (hclean : Clean scanner state.entriesVisited as) :
    final.yielded = state.yielded ++ as.flatMap (Arrival.files host scanner base) := by
  induction as generalizing state with
  | nil =>
      obtain rfl := Option.some.inj h
      simp
  | cons a as ih =>
      have hcase := visit_case host scanner base a state
      obtain ⟨hlisted, hwithin, -, hrest⟩ := hclean
      rw [run] at h
      rw [List.flatMap_cons]
      generalize visit host scanner base a state = p at hcase h
      cases hcase with
      | unlisted hlist => cases hlist.symm.trans hlisted
      | overBudget hlist hbudget => exact absurd hwithin (not_le.mpr hbudget)
      | deep hlist hbudget hdeep => simpa [Arrival.files, hdeep] using ih h hrest
      | refused hlist hbudget hdeep hrefuses => cases h
      | entered hlist hbudget hdeep hrefuses =>
          simpa [Arrival.files, hlist, hdeep] using ih h hrest

/-- The parts of a clean pass, which comes to some directory. -/
theorem clean_iff
    {as : List Arrival}
    (hne : as ≠ [])
    (seen : ℕ) :
    Clean scanner seen as ↔
      (∀ a ∈ as, a.listable = true) ∧
        ((seen + (as.map Arrival.count).sum : ℕ) : ℤ) ≤ scanner.maxScanEntries ∧
        ∀ a ∈ as, tooDeep scanner.config a.path = false →
          overlong scanner a.entries = false := by
  induction as generalizing seen with
  | nil => exact absurd rfl hne
  | cons a as ih =>
      rw [Clean]
      cases as with
      | nil => simp [Clean]
      | cons a' as' =>
          have hsum : seen + ((a :: a' :: as').map Arrival.count).sum =
              seen + a.count + ((a' :: as').map Arrival.count).sum := by
            rw [List.map_cons, List.sum_cons, Nat.add_assoc]
          rw [ih (List.cons_ne_nil _ _), List.forall_mem_cons (a := a),
            List.forall_mem_cons (a := a), hsum]
          constructor
          · rintro ⟨hlist, -, hshort, hlists, hwithin, hshorts⟩
            exact ⟨⟨hlist, hlists⟩, hwithin, hshort, hshorts⟩
          · rintro ⟨⟨hlist, hlists⟩, hwithin, hshort, hshorts⟩
            exact ⟨hlist, by omega, hshort, hlists, hwithin, hshorts⟩

end Runs

end DirectoryScanner
end TensorGrep
