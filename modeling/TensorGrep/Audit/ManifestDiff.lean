import TensorGrep.Kernel.InsertionMaps
import TensorGrep.Kernel.JsonPositions
import TensorGrep.Audit.Manifests

/-!
# The difference of two audit manifests

`diff_manifest_objects` walks two JSON objects side by side and records what was
added, removed or changed under a text for the position: keys are joined with `.`
and places in arrays are written `[i]`.  Scalars are compared by Python's `==`, which
takes a boolean for the number one or zero.

The recursion ends with an error when the objects are nested too deeply; its
first argument is the number of levels that are left.
-/

namespace TensorGrep
namespace Audit

open Kernel
open Kernel.Json (lookup childWithout atWithout removeKeys sameScalar sameContainer sameQuantity
  quantity SameShape SameJson sameJson_removeKeys_iff nesting_lt_of_childWithout)
open Evidence (Fields)

/-! ## The code -/

/-- `_AUDIT_DIFF_IGNORED_KEYS`. -/
def auditDiffIgnoredKeys : List CodePoints :=
  [codePoints "manifest_sha256", codePoints "signature"]

/-- `_audit_diff_field_path`. -/
def auditDiffFieldPath
    (parent field : CodePoints) : CodePoints :=
  if parent = [] then field else parent ++ codePoints "." ++ field

/-- `_audit_diff_index_path`. -/
def auditDiffIndexPath
    (parent : CodePoints)
    (index : ℕ) : CodePoints :=
  parent ++ codePoints "[" ++ codePoints (toString index) ++ codePoints "]"

/-- `_MAX_MANIFEST_DIFF_DEPTH`. -/
def maxManifestDiffDepth : ℕ := 64

/-- The three maps of a difference, in the order of insertion. -/
structure ManifestDiff where
  added : List (CodePoints × Json)
  removed : List (CodePoints × Json)
  changed : List (CodePoints × (Json × Json))

/-- Record a value that is only in the current object. -/
def ManifestDiff.add
    (diff : ManifestDiff)
    (path : CodePoints)
    (v : Json) : ManifestDiff :=
  { diff with added := upsert path (fun _ => v) diff.added }

/-- Record a value that is only in the previous object. -/
def ManifestDiff.remove
    (diff : ManifestDiff)
    (path : CodePoints)
    (v : Json) : ManifestDiff :=
  { diff with removed := upsert path (fun _ => v) diff.removed }

/-- Record two values that differ. -/
def ManifestDiff.change
    (diff : ManifestDiff)
    (path : CodePoints)
    (old new : Json) : ManifestDiff :=
  { diff with
    changed := upsert (if path = [] then codePoints "$" else path) (fun _ => (old, new))
      diff.changed }

/-- The number of entries. -/
def ManifestDiff.entryCount (diff : ManifestDiff) : ℕ :=
  diff.added.length + diff.removed.length + diff.changed.length

section Diff

variable (value : FloatText → ℚ)

/-- The number that Python takes a scalar for, if any. -/
def pythonQuantity : Json → Option Json.Quantity
  | .bool b => some (.rational (if b then 1 else 0))
  | .number n => quantity value n
  | _ => none

/-- Python's `==`, for values of which not both are lists and not both are dictionaries. -/
def pythonEq : Json → Json → Bool
  | .null, .null => true
  | .string s, .string t => s = t
  | v, w => sameQuantity (pythonQuantity value v) (pythonQuantity value w)

/-- `_diff_manifest_values`. -/
def diffManifestValues :
    ℕ → CodePoints → Json → Json → ManifestDiff → Except String ManifestDiff
  | 0, _, _, _, _ =>
      .error "Audit manifest nesting exceeds the maximum diff depth (64)."
  | levels + 1, path, .object previous, .object current, diff =>
      (sortDedup id (previous.map Prod.fst ++ current.map Prod.fst)).foldlM (fun diff key =>
        if key ∈ auditDiffIgnoredKeys then .ok diff
        else
          match lookup key previous, lookup key current with
          | none, some w => .ok (diff.add (auditDiffFieldPath path key) w)
          | some v, none => .ok (diff.remove (auditDiffFieldPath path key) v)
          | some v, some w =>
              diffManifestValues levels (auditDiffFieldPath path key) v w diff
          | none, none => .ok diff) diff
  | levels + 1, path, .array previous, .array current, diff => do
      let sharedLength := min previous.length current.length
      let diff ← (List.range sharedLength).foldlM (fun diff index =>
        match previous[index]?, current[index]? with
        | some v, some w => diffManifestValues levels (auditDiffIndexPath path index) v w diff
        | _, _ => .ok diff) diff
      let diff := (List.range' sharedLength (current.length - sharedLength)).foldl
        (fun diff index =>
          match current[index]? with
          | some w => diff.add (auditDiffIndexPath path index) w
          | none => diff) diff
      .ok ((List.range' sharedLength (previous.length - sharedLength)).foldl
        (fun diff index =>
          match previous[index]? with
          | some v => diff.remove (auditDiffIndexPath path index) v
          | none => diff) diff)
  | _ + 1, path, previous, current, diff =>
      .ok (if pythonEq value previous current then diff else diff.change path previous current)

/-- `diff_manifest_objects`. -/
def diffManifestObjects
    (previous current : Fields) : Except String ManifestDiff :=
  diffManifestValues value (maxManifestDiffDepth + 1) [] (.object previous) (.object current)
    ⟨[], [], []⟩

end Diff

/-! ## Differing positions -/

/-- What can be different at a position. -/
inductive Change where
  | added (v : Json)
  | removed (v : Json)
  | changed (old new : Json)

/-- Which of the three maps a change belongs to. -/
inductive ChangeKind where
  | added
  | removed
  | changed
  deriving DecidableEq

/-- The map of a change. -/
def Change.kind : Change → ChangeKind
  | .added _ => .added
  | .removed _ => .removed
  | .changed _ _ => .changed

/-- Where two values differ, with a given equality of scalars: the way down leads through arrays
or through objects on both sides, and ends where a side has nothing, or where the values are
neither two arrays nor two objects nor equal scalars. -/
def DiffersAt
    (eq : Json → Json → Bool) :
    JsonPosition → Option Json → Option Json → Change → Prop
  | [], none, some w, change => change = .added w
  | [], some v, none, change => change = .removed v
  | [], some v, some w, change =>
      sameContainer v w = false ∧ eq v w = false ∧ change = .changed v w
  | step :: position, some v, some w, change =>
      sameContainer v w = true ∧
        DiffersAt eq position (childWithout auditDiffIgnoredKeys v step)
          (childWithout auditDiffIgnoredKeys w step) change
  | _, _, _, _ => False

/-- The steps that the walk takes from two values, in order. -/
def diffSteps : Json → Json → List JsonStep
  | .object previous, .object current =>
      (sortDedup id (previous.map Prod.fst ++ current.map Prod.fst)).map .field
  | .array previous, .array current =>
      let sharedLength := min previous.length current.length
      (List.range sharedLength ++
        (List.range' sharedLength (current.length - sharedLength) ++
          List.range' sharedLength (previous.length - sharedLength))).map .index
  | _, _ => []

/-- The differences below a step; `below` gives those of two values. -/
def childDifferences
    (below : Json → Json → List (JsonPosition × Change)) :
    Option Json → Option Json → List (JsonPosition × Change)
  | none, none => []
  | none, some w => [([], .added w)]
  | some v, none => [([], .removed v)]
  | some v, some w => below v w

/-- The differences in the order of the walk. -/
def differences
    (eq : Json → Json → Bool) : ℕ → Json → Json → List (JsonPosition × Change)
  | 0, _, _ => []
  | levels + 1, v, w =>
      if sameContainer v w then
        (diffSteps v w).flatMap fun step =>
          (childDifferences (differences eq levels) (childWithout auditDiffIgnoredKeys v step)
            (childWithout auditDiffIgnoredKeys w step)).map fun d => (step :: d.1, d.2)
      else if eq v w then [] else [([], .changed v w)]

variable {eq eq' : Json → Json → Bool} {levels : ℕ} {v w : Json}

theorem sameContainer_of_child
    {step : JsonStep}
    {x y : Json}
    (hv : childWithout auditDiffIgnoredKeys v step = some x)
    (hw : childWithout auditDiffIgnoredKeys w step = some y) :
    sameContainer v w = true := by
  cases v <;> cases w <;> cases step <;> first | rfl | cases hv | cases hw

/-- Neither value has anything where the walk does not go. -/
theorem child_of_not_mem_diffSteps
    (hcontainer : sameContainer v w = true)
    {step : JsonStep}
    (h : step ∉ diffSteps v w) :
    childWithout auditDiffIgnoredKeys v step = none ∧
      childWithout auditDiffIgnoredKeys w step = none := by
  cases v with
  | object previous =>
      cases w with
      | object current =>
          cases step with
          | index => exact ⟨rfl, rfl⟩
          | field key =>
              have hkey : key ∉ previous.map Prod.fst ++ current.map Prod.fst := fun hmem =>
                h (List.mem_map.mpr ⟨key, (mem_sortDedup Function.injective_id).mpr hmem, rfl⟩)
              rw [List.mem_append, not_or] at hkey
              have hnone : ∀ fields : Fields, key ∉ fields.map Prod.fst →
                  childWithout auditDiffIgnoredKeys (.object fields) (.field key) = none := by
                intro fields hfields
                rw [childWithout]
                split
                case isTrue => rfl
                case isFalse =>
                    cases hlookup : lookup key fields with
                    | none => rfl
                    | some v =>
                        exact absurd (List.mem_map.mpr ⟨_, Json.mem_of_lookup hlookup, rfl⟩) hfields
              exact ⟨hnone _ hkey.1, hnone _ hkey.2⟩
      | _ => cases hcontainer
  | array previous =>
      cases w with
      | array current =>
          cases step with
          | field => exact ⟨rfl, rfl⟩
          | index i =>
              have hi : previous.length ≤ i ∧ current.length ≤ i := by
                simp only [diffSteps, List.mem_map, List.mem_append, List.mem_range,
                  List.mem_range'_1, JsonStep.index.injEq, exists_eq_right] at h
                omega
              exact ⟨List.getElem?_eq_none hi.1, List.getElem?_eq_none hi.2⟩
      | _ => cases hcontainer
  | _ => cases w <;> cases hcontainer

theorem nodup_diffSteps
    (v w : Json) :
    (diffSteps v w).Nodup := by
  cases v with
  | object previous =>
      cases w with
      | object current =>
          exact (nodup_of_pairwise_key_lt (pairwise_sortDedup id _)).map
            (fun _ _ h => JsonStep.field.inj h)
      | _ => exact List.nodup_nil
  | array previous =>
      cases w with
      | array current =>
          refine List.Nodup.map (fun _ _ h => JsonStep.index.inj h) ?_
          refine List.nodup_range.append (List.Nodup.append List.nodup_range' List.nodup_range' ?_) ?_
          · intro i hi hi'
            rw [List.mem_range'_1] at hi hi'
            omega
          · intro i hi hi'
            simp only [List.mem_range, List.mem_append, List.mem_range'_1] at hi hi'
            omega
      | _ => exact List.nodup_nil
  | _ => cases w <;> exact List.nodup_nil

/-- The walk finds the differing positions. -/
theorem mem_differences_iff
    (hlevels : v.nesting < levels)
    {position : JsonPosition}
    {change : Change} :
    (position, change) ∈ differences eq levels v w ↔
      DiffersAt eq position (some v) (some w) change := by
  induction levels generalizing v w position change with
  | zero => omega
  | succ levels ih =>
      rw [differences]
      by_cases hcontainer : sameContainer v w = true
      · rw [if_pos hcontainer, List.mem_flatMap]
        cases position with
        | nil =>
            simp only [List.mem_map, Prod.mk.injEq, reduceCtorEq, false_and, and_false, exists_false,
              DiffersAt, hcontainer, Bool.true_eq_false]
        | cons step position =>
            have hchild : ∀ change, (position, change) ∈ childDifferences (differences eq levels)
                (childWithout auditDiffIgnoredKeys v step)
                (childWithout auditDiffIgnoredKeys w step) ↔
                DiffersAt eq position (childWithout auditDiffIgnoredKeys v step)
                  (childWithout auditDiffIgnoredKeys w step) change := by
              intro change
              cases hv : childWithout auditDiffIgnoredKeys v step with
              | none =>
                  cases hw : childWithout auditDiffIgnoredKeys w step <;> cases position <;>
                    simp [childDifferences, DiffersAt]
              | some x =>
                  cases hw : childWithout auditDiffIgnoredKeys w step with
                  | none => cases position <;> simp [childDifferences, DiffersAt]
                  | some y =>
                      have hbelow := nesting_lt_of_childWithout hv
                      rw [childDifferences]
                      exact ih (by omega)
            simp only [List.mem_map, Prod.mk.injEq, List.cons.injEq, DiffersAt, hcontainer, true_and]
            constructor
            · rintro ⟨_, -, ⟨_, change⟩, hmem, ⟨rfl, rfl⟩, rfl⟩
              exact (hchild change).mp hmem
            · intro hdiffers
              refine ⟨step, ?_, (position, change), (hchild change).mpr hdiffers, ⟨rfl, rfl⟩, rfl⟩
              by_contra hnot
              obtain ⟨hv, hw⟩ := child_of_not_mem_diffSteps hcontainer hnot
              rw [hv, hw] at hdiffers
              cases position <;> exact hdiffers
      · rw [Bool.not_eq_true] at hcontainer
        rw [if_neg (by simp [hcontainer])]
        cases position with
        | nil =>
            by_cases heq : eq v w = true
            · simp [heq, DiffersAt]
            · simp [heq, DiffersAt, hcontainer]
        | cons step position =>
            by_cases heq : eq v w = true
            · simp [heq, DiffersAt, hcontainer]
            · simp [heq, DiffersAt, hcontainer]

/-- A position differs at most once. -/
theorem nodup_differences
    (eq : Json → Json → Bool)
    (levels : ℕ)
    (v w : Json) :
    ((differences eq levels v w).map Prod.fst).Nodup := by
  induction levels generalizing v w with
  | zero => exact List.nodup_nil
  | succ levels ih =>
      have hchild : ∀ v w, ((childDifferences (differences eq levels) v w).map Prod.fst).Nodup := by
        intro v w
        cases v with
        | none => cases w <;> simp [childDifferences]
        | some v =>
            cases w with
            | none => simp [childDifferences]
            | some w => exact ih v w
      rw [differences]
      split
      case isTrue =>
          rw [List.map_flatMap]
          refine List.nodup_flatMap.mpr ⟨fun step _ => ?_, ?_⟩
          · rw [List.map_map, show (Prod.fst ∘ fun d : JsonPosition × Change => (step :: d.1, d.2)) =
              (step :: ·) ∘ Prod.fst from rfl, ← List.map_map]
            exact (hchild _ _).map List.cons_injective
          · refine (nodup_diffSteps v w).pairwise_of_forall_ne fun step _ step' _ hne => ?_
            intro position hposition hposition'
            simp only [List.map_map, List.mem_map] at hposition hposition'
            obtain ⟨d, -, rfl⟩ := hposition
            obtain ⟨d', -, heq⟩ := hposition'
            exact hne (List.cons.inj heq).1.symm
      case isFalse => split <;> simp

/-! ## The code records the differences -/

/-- The text of a step below a text. -/
def stepText
    (parent : CodePoints) : JsonStep → CodePoints
  | .field key => auditDiffFieldPath parent key
  | .index i => auditDiffIndexPath parent i

/-- The text of a position below a text. -/
def positionText
    (parent : CodePoints)
    (position : JsonPosition) : CodePoints :=
  position.foldl stepText parent

/-- Record a change under a text. -/
def ManifestDiff.record
    (diff : ManifestDiff)
    (text : CodePoints) : Change → ManifestDiff
  | .added v => diff.add text v
  | .removed v => diff.remove text v
  | .changed old new => diff.change text old new

/-- Record the differences below a text. -/
def ManifestDiff.recordAll
    (diff : ManifestDiff)
    (path : CodePoints)
    (l : List (JsonPosition × Change)) : ManifestDiff :=
  l.foldl (fun diff d => diff.record (positionText path d.1) d.2) diff

theorem recordAll_below
    (diff : ManifestDiff)
    (path : CodePoints)
    (step : JsonStep)
    (l : List (JsonPosition × Change)) :
    diff.recordAll path (l.map fun d => (step :: d.1, d.2)) =
      diff.recordAll (stepText path step) l := by
  rw [ManifestDiff.recordAll, List.foldl_map]
  rfl

variable {value : FloatText → ℚ}

/-- Record what is different below a step. -/
def ManifestDiff.recordStep
    (value : FloatText → ℚ)
    (levels : ℕ)
    (path : CodePoints)
    (v w : Json)
    (diff : ManifestDiff)
    (step : JsonStep) : ManifestDiff :=
  diff.recordAll (stepText path step)
    (childDifferences (differences (pythonEq value) levels)
      (childWithout auditDiffIgnoredKeys v step) (childWithout auditDiffIgnoredKeys w step))

/-- The differences of two containers are recorded step by step. -/
theorem recordAll_differences
    (hcontainer : sameContainer v w = true)
    (path : CodePoints)
    (diff : ManifestDiff) :
    diff.recordAll path (differences (pythonEq value) (levels + 1) v w) =
      (diffSteps v w).foldl (ManifestDiff.recordStep value levels path v w) diff := by
  rw [differences, if_pos hcontainer, ManifestDiff.recordAll, List.foldl_flatMap]
  exact List.foldl_ext _ _ _ fun diff step _ => recordAll_below diff path step _

/-- What the walk over two values does is to record their differences. -/
theorem diffManifestValues_eq
    (hlevels : v.nesting < levels)
    (path : CodePoints)
    (diff : ManifestDiff) :
    diffManifestValues value levels path v w diff =
      .ok (diff.recordAll path (differences (pythonEq value) levels v w)) := by
  induction levels generalizing v w path diff with
  | zero => omega
  | succ levels ih =>
      have hbelow : ∀ {step : JsonStep} {x : Json},
          childWithout auditDiffIgnoredKeys v step = some x → ∀ y path diff,
            diffManifestValues value levels path x y diff =
              .ok (ManifestDiff.recordAll diff path (differences (pythonEq value) levels x y)) := by
        intro step x hx y path diff
        have hnesting := nesting_lt_of_childWithout hx
        exact ih (by omega) path diff
      by_cases hcontainer : sameContainer v w = true
      · rw [recordAll_differences hcontainer]
        cases v with
        | object previous =>
            cases w with
            | object current =>
                rw [diffManifestValues, diffSteps, List.foldl_map]
                refine foldlM_eq_ok_foldl (fun diff key _ => ?_) diff
                by_cases hkey : key ∈ auditDiffIgnoredKeys
                · rw [if_pos hkey, ManifestDiff.recordStep, childWithout, if_pos hkey, childWithout,
                    if_pos hkey]
                  rfl
                · have hchild : ∀ fields : Fields,
                      childWithout auditDiffIgnoredKeys (.object fields) (.field key) =
                        lookup key fields := by
                    intro fields
                    rw [childWithout, if_neg hkey]
                  rw [if_neg hkey, ManifestDiff.recordStep, hchild, hchild]
                  cases hprevious : lookup key previous with
                  | none => cases lookup key current <;> rfl
                  | some x =>
                      cases lookup key current with
                      | none => rfl
                      | some y => exact hbelow ((hchild previous).trans hprevious) y _ _
            | _ => cases hcontainer
        | array previous =>
            cases w with
            | array current =>
                have hstep : ∀ diff i, ManifestDiff.recordStep value levels path
                    (.array previous) (.array current) diff (.index i) =
                      ManifestDiff.recordAll diff (auditDiffIndexPath path i)
                        (childDifferences (differences (pythonEq value) levels) previous[i]?
                          current[i]?) := fun _ _ => rfl
                rw [diffManifestValues, diffSteps, List.foldl_map, List.foldl_append,
                  List.foldl_append]
                dsimp only
                simp only [hstep]
                rw [@foldlM_eq_ok_foldl _ _ _ _ fun diff i => ManifestDiff.recordAll diff
                  (auditDiffIndexPath path i) (childDifferences (differences (pythonEq value) levels)
                    previous[i]? current[i]?)]
                · refine congrArg Except.ok ((List.foldl_ext _ _ _ fun diff i hi => ?_).trans
                    (congrArg (fun diff => List.foldl _ diff _)
                      (List.foldl_ext _ _ _ fun diff i hi => ?_)))
                  · rw [List.mem_range'_1] at hi
                    have hprevious : previous[i]? = some previous[i] :=
                      List.getElem?_eq_getElem (by omega)
                    rw [hprevious, show current[i]? = none from List.getElem?_eq_none (by omega)]
                    rfl
                  · rw [List.mem_range'_1] at hi
                    have hcurrent : current[i]? = some current[i] :=
                      List.getElem?_eq_getElem (by omega)
                    rw [hcurrent, show previous[i]? = none from List.getElem?_eq_none (by omega)]
                    rfl
                · intro diff i hi
                  rw [List.mem_range] at hi
                  have hprevious : previous[i]? = some previous[i] :=
                    List.getElem?_eq_getElem (by omega)
                  have hcurrent : current[i]? = some current[i] :=
                    List.getElem?_eq_getElem (by omega)
                  rw [hprevious, hcurrent]
                  exact @hbelow (.index i) _ hprevious current[i] _ diff
            | _ => cases hcontainer
        | _ => cases w <;> cases hcontainer
      · rw [Bool.not_eq_true] at hcontainer
        have hplain : diffManifestValues value (levels + 1) path v w diff =
            .ok (if pythonEq value v w then diff else diff.change path v w) := by
          cases v <;> cases w <;> first | rfl | cases hcontainer
        cases heq : pythonEq value v w with
        | true => simp [hplain, differences, hcontainer, heq, ManifestDiff.recordAll]
        | false =>
            simp [hplain, differences, hcontainer, heq, ManifestDiff.recordAll,
              ManifestDiff.record, positionText]

end Audit
end TensorGrep
