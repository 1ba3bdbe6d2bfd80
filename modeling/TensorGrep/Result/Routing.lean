import TensorGrep.Kernel.Folds

/-!
# Routing over several results

A search runs over many files, and the result of every file says which backend
has produced it.  `merge_runtime_routing` folds these results into an aggregate
that is seeded with the backend that was planned.  Some fields keep what was
written last, some what was written first, some only grow.

A field that keeps what was written last has an origin: the result that it was
copied from.  The origins are followed beside the fold and are not part of it.
-/

namespace TensorGrep
namespace Result

open Kernel

/-! ## Results and how they are merged -/

/-- `SearchResult`: what it says about its routing. -/
structure SearchResult where
  sidecarUsed : Bool := false
  routingBackend : Option String := none
  routingReason : Option String := none
  routingGpuDeviceIds : List Int := []
  routingGpuChunkPlanMb : List (Int × Int) := []
  routingDistributed : Bool := false
  routingWorkerCount : Int := 0
  routingBackendsSeen : List String := []
  isMixedRouting : Bool := false
  resultIncomplete : Bool := false
  incompleteReason : Option String := none
  incompleteReasonClass : Option String := none
deriving DecidableEq

/-- A text that is there and is not empty. -/
def given : Option String → Bool
  | none => false
  | some s => s ≠ ""

/-- A backend is noted when it is named and was not noted before. -/
def noteBackend
    (seen : List String) : Option String → List String
  | none => seen
  | some b => if b ≠ "" ∧ ¬ seen.contains b then seen ++ [b] else seen

/-- A result says which devices it has used, or how its work was split among them. -/
def SearchResult.reportsDevices (r : SearchResult) : Bool :=
  ! r.routingGpuDeviceIds.isEmpty || ! r.routingGpuChunkPlanMb.isEmpty

/-- `merge_runtime_routing`. -/
def mergeRuntimeRouting (aggregate result : SearchResult) : SearchResult :=
  let seen := noteBackend (noteBackend aggregate.routingBackendsSeen aggregate.routingBackend)
    result.routingBackend
  let named := given result.routingBackend
  let devices := named || result.reportsDevices
  { sidecarUsed := aggregate.sidecarUsed || result.sidecarUsed
    routingBackend := if named then result.routingBackend else aggregate.routingBackend
    routingReason :=
      if given result.routingReason then result.routingReason else aggregate.routingReason
    routingGpuDeviceIds :=
      if devices then result.routingGpuDeviceIds else aggregate.routingGpuDeviceIds
    routingGpuChunkPlanMb :=
      if devices then result.routingGpuChunkPlanMb else aggregate.routingGpuChunkPlanMb
    routingDistributed := aggregate.routingDistributed || result.routingDistributed
    routingWorkerCount := max aggregate.routingWorkerCount result.routingWorkerCount
    routingBackendsSeen := seen
    isMixedRouting := 1 < seen.length
    resultIncomplete := aggregate.resultIncomplete || result.resultIncomplete
    incompleteReason :=
      if given result.incompleteReason && ! given aggregate.incompleteReason then
        result.incompleteReason
      else aggregate.incompleteReason
    incompleteReasonClass :=
      if given result.incompleteReasonClass && ! given aggregate.incompleteReasonClass then
        result.incompleteReasonClass
      else aggregate.incompleteReasonClass }

/-- The results of a run are merged one after another. -/
def mergeAll
    (aggregate : SearchResult)
    (results : List SearchResult) : SearchResult :=
  results.foldl mergeRuntimeRouting aggregate

/-! ## Where a field comes from -/

/-- The origins of three fields: 0 is the aggregate as it was seeded, `i + 1` the result at
position `i`. -/
structure RoutingOrigins where
  backend : Nat := 0
  devices : Nat := 0
  chunkPlan : Nat := 0
deriving DecidableEq

/-- A merge copies the fields that it overwrites from the result. -/
def RoutingOrigins.merge
    (o : RoutingOrigins)
    (position : Nat)
    (result : SearchResult) : RoutingOrigins :=
  if given result.routingBackend then ⟨position, position, position⟩
  else if result.reportsDevices then { o with devices := position, chunkPlan := position }
  else o

/-- The origins after a run. -/
def originsAfter (results : List SearchResult) : RoutingOrigins :=
  (results.zipIdx 1).foldl (fun o r => o.merge r.2 r.1) {}

/-! ## The backends that are noted -/

section Backends

variable {seen : List String} {b c : String} {o : Option String} {os : List (Option String)}
  {aggregate result : SearchResult} {results : List SearchResult}

/-- The backends that some results name. -/
def namedBackends (results : List SearchResult) : List String :=
  (results.filterMap SearchResult.routingBackend).filter (fun b => b ≠ "")

theorem mem_namedBackends_iff :
    b ∈ namedBackends results ↔ b ≠ "" ∧ some b ∈ results.map SearchResult.routingBackend := by
  rw [namedBackends, List.mem_filter, decide_eq_true_eq, and_comm, List.mem_filterMap,
    List.mem_map]

theorem mem_noteBackend_iff :
    b ∈ noteBackend seen o ↔ b ∈ seen ∨ b ≠ "" ∧ o = some b := by
  cases o with
  | none => simp [noteBackend]
  | some c =>
      rw [noteBackend, Option.some_inj]
      split_ifs with hnew
      · rw [List.mem_append, List.mem_singleton]
        constructor
        · rintro (hb | rfl)
          · exact Or.inl hb
          · exact Or.inr ⟨hnew.1, rfl⟩
        · rintro (hb | ⟨-, rfl⟩)
          · exact Or.inl hb
          · exact Or.inr rfl
      · constructor
        · exact Or.inl
        · rintro (hb | ⟨hne, rfl⟩)
          · exact hb
          · simpa [hne] using hnew

theorem nodup_noteBackend
    (h : seen.Nodup) :
    (noteBackend seen o).Nodup := by
  cases o with
  | none => exact h
  | some b =>
      rw [noteBackend]
      split_ifs with hnew
      · have hfresh : b ∉ seen := by simpa using hnew.2
        exact h.append (List.nodup_singleton b) (by simpa using hfresh)
      · exact h

/-- A backend that was noted is not noted again. -/
theorem noteBackend_eq_self
    (h : ∀ b, o = some b → b ≠ "" → b ∈ seen) :
    noteBackend seen o = seen := by
  cases o with
  | none => rfl
  | some b =>
      rw [noteBackend, if_neg]
      rintro ⟨hne, hnew⟩
      exact hnew (List.contains_iff_mem.mpr (h b rfl hne))

/-- Noting some backends one after another. -/
def noteBackends
    (seen : List String)
    (os : List (Option String)) : List String :=
  os.foldl noteBackend seen

theorem mem_noteBackends_iff :
    b ∈ noteBackends seen os ↔ b ∈ seen ∨ b ≠ "" ∧ some b ∈ os := by
  induction os generalizing seen with
  | nil => simp [noteBackends]
  | cons o os ih =>
      rw [noteBackends, List.foldl_cons, ← noteBackends, ih, mem_noteBackend_iff, or_assoc,
        List.mem_cons, ← and_or_left, eq_comm]

theorem nodup_noteBackends
    (h : seen.Nodup) :
    (noteBackends seen os).Nodup := by
  induction os generalizing seen with
  | nil => exact h
  | cons o os ih => exact ih (nodup_noteBackend h)

/-- After a merge the backend of the aggregate has been noted. -/
theorem routingBackend_mem_seen
    (h : (mergeRuntimeRouting aggregate result).routingBackend = some b)
    (hb : b ≠ "") :
    b ∈ (mergeRuntimeRouting aggregate result).routingBackendsSeen := by
  rw [mergeRuntimeRouting] at h ⊢
  dsimp only at h ⊢
  rw [mem_noteBackend_iff, mem_noteBackend_iff]
  split_ifs at h
  · exact Or.inr ⟨hb, h⟩
  · exact Or.inl (Or.inr ⟨hb, h⟩)

/-- The aggregate notes its own backend first and then what the results name. -/
theorem seen_mergeAll_of_noted
    (hnoted : ∀ b, aggregate.routingBackend = some b → b ≠ "" →
      b ∈ aggregate.routingBackendsSeen) :
    (mergeAll aggregate results).routingBackendsSeen =
      noteBackends aggregate.routingBackendsSeen (results.map SearchResult.routingBackend) := by
  induction results generalizing aggregate with
  | nil => rfl
  | cons r results ih =>
      rw [mergeAll, List.foldl_cons, ← mergeAll,
        ih (fun b => routingBackend_mem_seen), List.map_cons, noteBackends, noteBackends,
        List.foldl_cons]
      have hseen : (mergeRuntimeRouting aggregate r).routingBackendsSeen =
          noteBackend (noteBackend aggregate.routingBackendsSeen aggregate.routingBackend)
            r.routingBackend := rfl
      rw [hseen, noteBackend_eq_self hnoted]

theorem seen_mergeAll
    (hne : results ≠ []) :
    (mergeAll aggregate results).routingBackendsSeen =
      noteBackends aggregate.routingBackendsSeen
        (aggregate.routingBackend :: results.map SearchResult.routingBackend) := by
  cases results with
  | nil => exact absurd rfl hne
  | cons r results =>
      rw [mergeAll, List.foldl_cons, ← mergeAll,
        seen_mergeAll_of_noted (fun b => routingBackend_mem_seen), List.map_cons]
      rfl

/-- The flag is set by the last merge. -/
theorem isMixedRouting_mergeAll
    (hne : results ≠ []) :
    (mergeAll aggregate results).isMixedRouting =
      decide (1 < (mergeAll aggregate results).routingBackendsSeen.length) := by
  induction results generalizing aggregate with
  | nil => exact absurd rfl hne
  | cons r results ih =>
      cases results with
      | nil => rfl
      | cons s results => exact ih (List.cons_ne_nil s results)

end Backends

/-! ## Origins -/

section Origins

variable {p : SearchResult → Bool} {aggregate result : SearchResult}
  {results : List SearchResult} {n m : Nat}

/-- The last result of a kind: its origin, or 0 where no result is of the kind. -/
def IsLastOrigin
    (p : SearchResult → Bool)
    (results : List SearchResult)
    (n : Nat) : Prop :=
  (n = 0 ∧ ∀ r ∈ results, p r = false) ∨
    ∃ before r after, results = before ++ r :: after ∧ p r = true ∧
      (∀ s ∈ after, p s = false) ∧ n = before.length + 1

theorem isLastOrigin_concat_of_pos
    (h : p result = true) :
    IsLastOrigin p (results ++ [result]) (results.length + 1) :=
  Or.inr ⟨results, result, [], rfl, h, by simp, rfl⟩

theorem IsLastOrigin.concat_of_neg
    (hlast : IsLastOrigin p results n)
    (h : p result = false) :
    IsLastOrigin p (results ++ [result]) n := by
  rcases hlast with ⟨hzero, hnone⟩ | ⟨before, r, after, rfl, hr, hafter, hn⟩
  · refine Or.inl ⟨hzero, ?_⟩
    intro r hr
    rcases List.mem_append.mp hr with hr | hr
    · exact hnone r hr
    · rw [List.mem_singleton.mp hr, h]
  · refine Or.inr ⟨before, r, after ++ [result], by simp, hr, ?_, hn⟩
    intro s hs
    rcases List.mem_append.mp hs with hs | hs
    · exact hafter s hs
    · rw [List.mem_singleton.mp hs, h]

/-- There is one last result of a kind. -/
theorem IsLastOrigin.unique
    (hn : IsLastOrigin p results n)
    (hm : IsLastOrigin p results m) :
    n = m := by
  rcases hn with ⟨rfl, hnone⟩ | ⟨before, r, after, hsplit, hr, hafter, rfl⟩
  · rcases hm with ⟨rfl, -⟩ | ⟨before, r, after, hsplit, hr, -, -⟩
    · rfl
    · rw [hnone r (by rw [hsplit]; simp)] at hr
      cases hr
  · rcases hm with ⟨-, hnone⟩ | ⟨before', r', after', hsplit', hr', hafter', rfl⟩
    · rw [hnone r (by rw [hsplit]; simp)] at hr
      cases hr
    · -- the shorter of the two beginnings leaves the other result behind it
      rw [hsplit] at hsplit'
      rcases List.append_eq_append_iff.mp hsplit' with ⟨middle, rfl, h⟩ | ⟨middle, rfl, h⟩
      · cases middle with
        | nil => simp
        | cons x middle =>
            obtain ⟨-, rfl⟩ := List.cons.inj h
            rw [hafter r' (by simp)] at hr'
            cases hr'
      · cases middle with
        | nil => simp
        | cons x middle =>
            obtain ⟨-, rfl⟩ := List.cons.inj h
            rw [hafter' r (by simp)] at hr
            cases hr

/-- A result that has a say in the devices: it names a backend or reports devices. -/
def SearchResult.setsDevices (r : SearchResult) : Bool :=
  given r.routingBackend || r.reportsDevices

theorem originsAfter_concat :
    originsAfter (results ++ [result]) =
      (originsAfter results).merge (results.length + 1) result := by
  rw [originsAfter, List.zipIdx_append, List.foldl_append, ← originsAfter, add_comm]
  rfl

theorem mergeAll_concat :
    mergeAll aggregate (results ++ [result]) =
      mergeRuntimeRouting (mergeAll aggregate results) result := by
  rw [mergeAll, List.foldl_append, ← mergeAll]
  rfl

/-- The backend is the one of the last result that names one, the devices and the plan are
those of the last result that has a say in them. -/
theorem originsAfter_isLast
    (results : List SearchResult) :
    IsLastOrigin (fun r => given r.routingBackend) results (originsAfter results).backend ∧
      IsLastOrigin SearchResult.setsDevices results (originsAfter results).devices ∧
      (originsAfter results).chunkPlan = (originsAfter results).devices := by
  induction results using List.reverseRecOn with
  | nil => exact ⟨Or.inl ⟨rfl, by simp⟩, Or.inl ⟨rfl, by simp⟩, rfl⟩
  | append_singleton results r ih =>
      obtain ⟨hbackend, hdevices, hsame⟩ := ih
      rw [originsAfter_concat, RoutingOrigins.merge]
      split_ifs with hnamed hreports
      · exact ⟨isLastOrigin_concat_of_pos hnamed,
          isLastOrigin_concat_of_pos (by rw [SearchResult.setsDevices, hnamed, Bool.true_or]),
          rfl⟩
      · exact ⟨hbackend.concat_of_neg (by simpa using hnamed),
          isLastOrigin_concat_of_pos (by rw [SearchResult.setsDevices, hreports, Bool.or_true]),
          rfl⟩
      · refine ⟨hbackend.concat_of_neg (by simpa using hnamed), hdevices.concat_of_neg ?_, hsame⟩
        rw [SearchResult.setsDevices, Bool.or_eq_false_iff]
        exact ⟨by simpa using hnamed, by simpa using hreports⟩

/-- A field of the aggregate has the value that it has in its origin. -/
def ComesFrom
    {β : Type}
    (field : SearchResult → β)
    (aggregate : SearchResult)
    (results : List SearchResult)
    (n : Nat) : Prop :=
  ∃ r, (aggregate :: results)[n]? = some r ∧ field (mergeAll aggregate results) = field r

theorem ComesFrom.concat_of_eq
    {β : Type}
    {field : SearchResult → β}
    (h : ComesFrom field aggregate results n)
    (hkept : field (mergeRuntimeRouting (mergeAll aggregate results) result) =
      field (mergeAll aggregate results)) :
    ComesFrom field aggregate (results ++ [result]) n := by
  obtain ⟨r, hr, hfield⟩ := h
  refine ⟨r, ?_, ?_⟩
  · rw [← List.cons_append, List.getElem?_append_left (List.getElem?_eq_some_iff.mp hr).1, hr]
  · rw [mergeAll_concat, hkept, hfield]

theorem comesFrom_concat_of_copied
    {β : Type}
    {field : SearchResult → β}
    (hcopied : field (mergeRuntimeRouting (mergeAll aggregate results) result) = field result) :
    ComesFrom field aggregate (results ++ [result]) (results.length + 1) := by
  refine ⟨result, ?_, ?_⟩
  · rw [← List.cons_append, List.getElem?_append_right (by simp)]
    simp
  · rw [mergeAll_concat, hcopied]

/-- The origins are those of the values. -/
theorem comesFrom_originsAfter
    (aggregate : SearchResult)
    (results : List SearchResult) :
    ComesFrom SearchResult.routingBackend aggregate results (originsAfter results).backend ∧
      ComesFrom SearchResult.routingGpuDeviceIds aggregate results
        (originsAfter results).devices ∧
      ComesFrom SearchResult.routingGpuChunkPlanMb aggregate results
        (originsAfter results).chunkPlan := by
  induction results using List.reverseRecOn with
  | nil => exact ⟨⟨aggregate, rfl, rfl⟩, ⟨aggregate, rfl, rfl⟩, ⟨aggregate, rfl, rfl⟩⟩
  | append_singleton results r ih =>
      obtain ⟨hbackend, hdevices, hplan⟩ := ih
      rw [originsAfter_concat, RoutingOrigins.merge]
      split_ifs with hnamed hreports
      · refine ⟨comesFrom_concat_of_copied ?_, comesFrom_concat_of_copied ?_,
          comesFrom_concat_of_copied ?_⟩ <;> simp [mergeRuntimeRouting, hnamed]
      · refine ⟨hbackend.concat_of_eq ?_, comesFrom_concat_of_copied ?_,
          comesFrom_concat_of_copied ?_⟩ <;> simp [mergeRuntimeRouting, hnamed, hreports]
      · refine ⟨hbackend.concat_of_eq ?_, hdevices.concat_of_eq ?_,
          hplan.concat_of_eq ?_⟩ <;> simp [mergeRuntimeRouting, hnamed, hreports]

/-- The backend has the origin of the devices unless the last result that reports devices names
no backend. -/
theorem backend_eq_devices_iff
    (results : List SearchResult) :
    (originsAfter results).backend = (originsAfter results).devices ↔
      ∀ before r after, results = before ++ r :: after → r.setsDevices = true →
        (∀ s ∈ after, s.setsDevices = false) → given r.routingBackend = true := by
  obtain ⟨hbackend, hdevices, -⟩ := originsAfter_isLast results
  constructor
  · intro hsame before r after hsplit hr hafter
    have hn := hdevices.unique (Or.inr ⟨before, r, after, hsplit, hr, hafter, rfl⟩)
    rw [hsame, hn] at hbackend
    rcases hbackend with ⟨hzero, -⟩ | ⟨before', r', after', hsplit', hr', -, hlength⟩
    · cases hzero
    · rw [hsplit] at hsplit'
      obtain ⟨-, htail⟩ := List.append_inj hsplit' (by omega)
      rw [(List.cons.inj htail).1]
      exact hr'
  · intro hall
    have hdevices' := hdevices
    rcases hdevices' with ⟨hzero, hnone⟩ | ⟨before, r, after, hsplit, hr, hafter, hn⟩
    · rw [hzero]
      refine hbackend.unique (Or.inl ⟨rfl, ?_⟩)
      intro r hr
      exact (Bool.or_eq_false_iff.mp (hnone r hr)).1
    · rw [hn]
      refine hbackend.unique (Or.inr ⟨before, r, after, hsplit, hall before r after hsplit hr hafter,
        ?_, rfl⟩)
      intro s hs
      exact (Bool.or_eq_false_iff.mp (hafter s hs)).1

end Origins

/-! ## What a run reports -/

section Report

variable {aggregate : SearchResult} {results results' : List SearchResult}

/-- What can be read off the aggregate about a whole run in any order: what any result says is
kept, the largest number of workers is kept, and every backend is listed once. -/
structure GatheredRouting
    (aggregate : SearchResult)
    (results : List SearchResult) : Prop where
  distributed : (mergeAll aggregate results).routingDistributed = true ↔
    ∃ r ∈ aggregate :: results, r.routingDistributed = true
  sidecar : (mergeAll aggregate results).sidecarUsed = true ↔
    ∃ r ∈ aggregate :: results, r.sidecarUsed = true
  incomplete : (mergeAll aggregate results).resultIncomplete = true ↔
    ∃ r ∈ aggregate :: results, r.resultIncomplete = true
  workers : IsGreatest {n | ∃ r ∈ aggregate :: results, r.routingWorkerCount = n}
    (mergeAll aggregate results).routingWorkerCount
  listedOnce : (mergeAll aggregate results).routingBackendsSeen.Nodup
  anyOrder : ∀ results', results'.Perm results →
    (mergeAll aggregate results').routingDistributed =
        (mergeAll aggregate results).routingDistributed ∧
      (mergeAll aggregate results').sidecarUsed = (mergeAll aggregate results).sidecarUsed ∧
      (mergeAll aggregate results').resultIncomplete =
        (mergeAll aggregate results).resultIncomplete ∧
      (mergeAll aggregate results').routingWorkerCount =
        (mergeAll aggregate results).routingWorkerCount ∧
      (mergeAll aggregate results').routingBackendsSeen.Perm
        (mergeAll aggregate results).routingBackendsSeen ∧
      (mergeAll aggregate results').isMixedRouting = (mergeAll aggregate results).isMixedRouting

/-- A report in which only backends that a result names are listed and counted, and the backend,
the devices and the plan come from one result. -/
structure TruthfulRouting
    (aggregate : SearchResult)
    (results : List SearchResult) : Prop extends GatheredRouting aggregate results where
  listed : ∀ b, b ∈ (mergeAll aggregate results).routingBackendsSeen ↔ b ∈ namedBackends results
  mixed : (mergeAll aggregate results).isMixedRouting = true ↔
    1 < (namedBackends results).dedup.length
  oneOrigin : (originsAfter results).backend = (originsAfter results).devices ∧
    (originsAfter results).chunkPlan = (originsAfter results).devices

/-- A report in which the planned backend may be listed too, and devices that a result reports
without naming a backend replace those of the backend. -/
structure AccountedRouting
    (aggregate : SearchResult)
    (results : List SearchResult) : Prop extends GatheredRouting aggregate results where
  listed : ∀ b ∈ namedBackends results, b ∈ (mergeAll aggregate results).routingBackendsSeen
  listed_only : ∀ b ∈ (mergeAll aggregate results).routingBackendsSeen,
    b ∈ namedBackends results ∨ aggregate.routingBackend = some b
  mixed : (mergeAll aggregate results).isMixedRouting = true ↔
    1 < (mergeAll aggregate results).routingBackendsSeen.length
  planned : (∀ b, aggregate.routingBackend = some b → b ≠ "" → b ∈ namedBackends results) →
    (∀ b, b ∈ (mergeAll aggregate results).routingBackendsSeen ↔ b ∈ namedBackends results) ∧
      ((mergeAll aggregate results).isMixedRouting = true ↔
        1 < (namedBackends results).dedup.length)
  backendOrigin : IsLastOrigin (fun r => given r.routingBackend) results
    (originsAfter results).backend
  devicesOrigin : IsLastOrigin SearchResult.setsDevices results (originsAfter results).devices
  planOrigin : (originsAfter results).chunkPlan = (originsAfter results).devices
  origins : ComesFrom SearchResult.routingBackend aggregate results
      (originsAfter results).backend ∧
    ComesFrom SearchResult.routingGpuDeviceIds aggregate results (originsAfter results).devices ∧
    ComesFrom SearchResult.routingGpuChunkPlanMb aggregate results
      (originsAfter results).chunkPlan
  oneOrigin : (originsAfter results).backend = (originsAfter results).devices ↔
    ∀ before r after, results = before ++ r :: after → r.setsDevices = true →
      (∀ s ∈ after, s.setsDevices = false) → given r.routingBackend = true

/-- A flag that every merge takes over. -/
theorem flag_mergeAll_iff
    (flag : SearchResult → Bool)
    (h : ∀ a r, flag (mergeRuntimeRouting a r) = (flag a || flag r)) :
    flag (mergeAll aggregate results) = true ↔ ∃ r ∈ aggregate :: results, flag r = true := by
  induction results generalizing aggregate with
  | nil => simp [mergeAll]
  | cons r results ih =>
      rw [mergeAll, List.foldl_cons, ← mergeAll, ih]
      simp [h, or_assoc]

theorem isGreatest_workers
    (aggregate : SearchResult)
    (results : List SearchResult) :
    IsGreatest {n | ∃ r ∈ aggregate :: results, r.routingWorkerCount = n}
      (mergeAll aggregate results).routingWorkerCount := by
  induction results generalizing aggregate with
  | nil =>
      refine ⟨⟨aggregate, List.mem_cons_self, rfl⟩, ?_⟩
      rintro n ⟨r, hr, rfl⟩
      rw [List.mem_singleton.mp hr]
      exact le_refl _
  | cons s results ih =>
      obtain ⟨⟨r, hr, hcount⟩, hbound⟩ := ih (mergeRuntimeRouting aggregate s)
      rw [mergeAll, List.foldl_cons, ← mergeAll]
      have hmerged : (mergeRuntimeRouting aggregate s).routingWorkerCount =
          max aggregate.routingWorkerCount s.routingWorkerCount := rfl
      have hmax := hbound ⟨_, List.mem_cons_self, hmerged⟩
      constructor
      · rcases List.mem_cons.mp hr with rfl | hr
        · rw [← hcount, hmerged]
          rcases max_choice aggregate.routingWorkerCount s.routingWorkerCount with h | h
          · exact ⟨aggregate, List.mem_cons_self, h.symm⟩
          · exact ⟨s, List.mem_cons_of_mem _ List.mem_cons_self, h.symm⟩
        · exact ⟨r, List.mem_cons_of_mem _ (List.mem_cons_of_mem _ hr), hcount⟩
      · rintro n ⟨r, hr, rfl⟩
        rcases List.mem_cons.mp hr with rfl | hr
        · exact (le_max_left _ _).trans hmax
        · rcases List.mem_cons.mp hr with rfl | hr
          · exact (le_max_right _ _).trans hmax
          · exact hbound ⟨r, List.mem_cons_of_mem _ hr, rfl⟩

/-- The backends that are listed: those that were named, and the planned one. -/
theorem mem_seen_mergeAll_iff
    (hseed : aggregate.routingBackendsSeen = [])
    (hne : results ≠ [])
    {b : String} :
    b ∈ (mergeAll aggregate results).routingBackendsSeen ↔
      b ≠ "" ∧ (aggregate.routingBackend = some b ∨
        some b ∈ results.map SearchResult.routingBackend) := by
  rw [seen_mergeAll hne, mem_noteBackends_iff, hseed, List.mem_cons, @eq_comm _ (some b)]
  simp only [List.not_mem_nil, false_or]

theorem nodup_seen_mergeAll
    (hseed : aggregate.routingBackendsSeen = [])
    (hne : results ≠ []) :
    (mergeAll aggregate results).routingBackendsSeen.Nodup := by
  rw [seen_mergeAll hne, hseed]
  exact nodup_noteBackends List.nodup_nil

theorem gatheredRouting
    (hseed : aggregate.routingBackendsSeen = [])
    (hne : results ≠ []) :
    GatheredRouting aggregate results := by
  have hdistributed (rs : List SearchResult) :=
    @flag_mergeAll_iff aggregate rs SearchResult.routingDistributed (fun _ _ => rfl)
  have hsidecar (rs : List SearchResult) :=
    @flag_mergeAll_iff aggregate rs SearchResult.sidecarUsed (fun _ _ => rfl)
  have hincomplete (rs : List SearchResult) :=
    @flag_mergeAll_iff aggregate rs SearchResult.resultIncomplete (fun _ _ => rfl)
  refine ⟨hdistributed results, hsidecar results, hincomplete results,
    isGreatest_workers aggregate results, nodup_seen_mergeAll hseed hne, ?_⟩
  intro results' hperm
  have hne' : results' ≠ [] := by
    rintro rfl
    exact hne hperm.nil_eq.symm
  have hmem : ∀ r, r ∈ aggregate :: results' ↔ r ∈ aggregate :: results :=
    fun r => (hperm.cons aggregate).mem_iff
  have hseen : (mergeAll aggregate results').routingBackendsSeen.Perm
      (mergeAll aggregate results).routingBackendsSeen := by
    rw [List.perm_ext_iff_of_nodup (nodup_seen_mergeAll hseed hne')
      (nodup_seen_mergeAll hseed hne)]
    intro b
    rw [mem_seen_mergeAll_iff hseed hne', mem_seen_mergeAll_iff hseed hne,
      (hperm.map SearchResult.routingBackend).mem_iff]
  refine ⟨?_, ?_, ?_, ?_, hseen, ?_⟩
  · rw [Bool.eq_iff_iff, hdistributed, hdistributed]
    simp only [hmem]
  · rw [Bool.eq_iff_iff, hsidecar, hsidecar]
    simp only [hmem]
  · rw [Bool.eq_iff_iff, hincomplete, hincomplete]
    simp only [hmem]
  · have hworkers := isGreatest_workers aggregate results'
    simp only [hmem] at hworkers
    exact hworkers.unique (isGreatest_workers aggregate results)
  · rw [isMixedRouting_mergeAll hne', isMixedRouting_mergeAll hne, hseen.length_eq]

/-- After a run over some results the aggregate accounts for all of them. -/
theorem mergeAll_accountedRouting
    (aggregate : SearchResult)
    (results : List SearchResult)
    (hseed : aggregate.routingBackendsSeen = [])
    (hne : results ≠ []) :
    AccountedRouting aggregate results := by
  obtain ⟨hbackend, hdevices, hplan⟩ := originsAfter_isLast results
  have hmixed : (mergeAll aggregate results).isMixedRouting = true ↔
      1 < (mergeAll aggregate results).routingBackendsSeen.length := by
    rw [isMixedRouting_mergeAll hne, decide_eq_true_eq]
  refine
    { toGatheredRouting := gatheredRouting hseed hne
      listed := ?_
      listed_only := ?_
      mixed := hmixed
      planned := ?_
      backendOrigin := hbackend
      devicesOrigin := hdevices
      planOrigin := hplan
      origins := comesFrom_originsAfter aggregate results
      oneOrigin := backend_eq_devices_iff results }
  · intro b hb
    obtain ⟨hne', hb⟩ := mem_namedBackends_iff.mp hb
    exact (mem_seen_mergeAll_iff hseed hne).mpr ⟨hne', Or.inr hb⟩
  · intro b hb
    obtain ⟨hne', hb | hb⟩ := (mem_seen_mergeAll_iff hseed hne).mp hb
    · exact Or.inr hb
    · exact Or.inl (mem_namedBackends_iff.mpr ⟨hne', hb⟩)
  · intro hplanned
    have hlisted : ∀ b, b ∈ (mergeAll aggregate results).routingBackendsSeen ↔
        b ∈ namedBackends results := by
      intro b
      rw [mem_seen_mergeAll_iff hseed hne, mem_namedBackends_iff]
      constructor
      · rintro ⟨hb, hplan | hnamed⟩
        · exact mem_namedBackends_iff.mp (hplanned b hplan hb)
        · exact ⟨hb, hnamed⟩
      · rintro ⟨hb, hnamed⟩
        exact ⟨hb, Or.inr hnamed⟩
    have hperm : (mergeAll aggregate results).routingBackendsSeen.Perm
        (namedBackends results).dedup := by
      rw [List.perm_ext_iff_of_nodup (nodup_seen_mergeAll hseed hne) (List.nodup_dedup _)]
      intro b
      rw [hlisted, List.mem_dedup]
    exact ⟨hlisted, by rw [hmixed, hperm.length_eq]⟩

/-- A result of another backend that runs without devices. -/
theorem mergeAll_accountedRouting_fallback :
    ({ routingBackend := some "TorchBackend" } : SearchResult).routingBackendsSeen = [] ∧
      [{ routingBackend := some "CPUBackend" : SearchResult }] ≠ [] ∧
      AccountedRouting { routingBackend := some "TorchBackend" }
        [{ routingBackend := some "CPUBackend" }] :=
  ⟨rfl, List.cons_ne_nil _ _, mergeAll_accountedRouting _ _ rfl (List.cons_ne_nil _ _)⟩

/-- A planned backend that never runs is counted, and devices that are reported without a backend
are put beside the backend of another result. -/
theorem planned_backend_is_counted :
    (mergeAll { routingBackend := some "TorchBackend" }
        [{ routingBackend := some "CPUBackend" }]).isMixedRouting = true ∧
      ¬ TruthfulRouting { routingBackend := some "TorchBackend" }
        [{ routingBackend := some "CPUBackend" }] ∧
      ¬ TruthfulRouting { routingBackend := some "CPUBackend" }
        [{ routingBackend := some "CPUBackend" }, { routingGpuDeviceIds := [0] }] := by
  refine ⟨rfl, ?_, ?_⟩
  · intro h
    have hnamed := (h.listed "TorchBackend").mp
      (by simp [mergeAll, mergeRuntimeRouting, noteBackend])
    simp [namedBackends] at hnamed
  · intro h
    have horigin := h.oneOrigin.1
    simp [originsAfter, RoutingOrigins.merge, given, SearchResult.reportsDevices] at horigin

end Report

end Result
end TensorGrep
