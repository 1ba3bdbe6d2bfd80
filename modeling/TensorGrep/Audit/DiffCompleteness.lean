import TensorGrep.Audit.ManifestDiff

/-!
# When a manifest diff is complete

Every differing position of two manifests has an entry of its own exactly when no
boolean stands against the number it equals in Python, and no two positions that differ
in the same way have the same text.
-/

namespace TensorGrep
namespace Audit

open Kernel
open Kernel.Json (lookup childWithout atWithout removeKeys sameScalar sameContainer sameQuantity
  quantity SameShape SameJson sameJson_removeKeys_iff)
open Evidence (Fields)

/-! ## Statements -/

/-- The text under which a change at a position is recorded. -/
def Change.text
    (position : JsonPosition)
    (change : Change) : CodePoints :=
  if change.kind = .changed ∧ positionText [] position = [] then codePoints "$"
  else positionText [] position

/-- A difference has the entry of a change under a text. -/
def ManifestDiff.Has
    (diff : ManifestDiff)
    (text : CodePoints) : Change → Prop
  | .added v => (text, v) ∈ diff.added
  | .removed v => (text, v) ∈ diff.removed
  | .changed old new => (text, (old, new)) ∈ diff.changed

section Statements

variable (value : FloatText → ℚ)

/-- A change at a maximal differing position of two objects, as JSON values. -/
def Differs
    (previous current : Fields)
    (position : JsonPosition)
    (change : Change) : Prop :=
  DiffersAt (sameScalar value) position (some (.object previous)) (some (.object current)) change

/-- The maps are empty for equal objects only, every differing position has its entry, and there are
as many entries as differing positions. -/
structure DiffComplete
    (previous current : Fields)
    (diff : ManifestDiff) : Prop where
  empty_iff : (diff.added = [] ∧ diff.removed = [] ∧ diff.changed = []) ↔
    SameJson value (removeKeys auditDiffIgnoredKeys (.object previous))
      (removeKeys auditDiffIgnoredKeys (.object current))
  entries : ∀ position change, Differs value previous current position change →
    diff.Has (change.text position) change
  count : diff.entryCount =
    {position | ∃ change, Differs value previous current position change}.ncard

/-- One is a boolean and the other the number that Python takes it for. -/
def BoolForNumber (v w : Json) : Prop :=
  ∃ b n, (v = .bool b ∧ w = .number n ∨ v = .number n ∧ w = .bool b) ∧
    quantity value n = some (.rational (if b then 1 else 0))

/-- No boolean stands against its number, and positions that differ in the same way have different
texts. -/
structure DiffApart
    (previous current : Fields) : Prop where
  scalars : ∀ position v w, atWithout auditDiffIgnoredKeys position (.object previous) = some v →
    atWithout auditDiffIgnoredKeys position (.object current) = some w → ¬ BoolForNumber value v w
  texts : ∀ position position' change change',
    Differs value previous current position change →
      Differs value previous current position' change' → change.kind = change'.kind →
        change.text position = change'.text position' → position = position'

end Statements

variable {value : FloatText → ℚ} {eq eq' : Json → Json → Bool} {levels : ℕ} {v w : Json}

/-! ## Differing positions -/

/-- A position is decided by the equality of the scalars there. -/
theorem differsAt_congr
    {position : JsonPosition}
    {change : Change}
    (heq : ∀ x y, atWithout auditDiffIgnoredKeys position v = some x →
      atWithout auditDiffIgnoredKeys position w = some y → eq x y = false → eq' x y = false)
    (h : DiffersAt eq position (some v) (some w) change) :
    DiffersAt eq' position (some v) (some w) change := by
  induction position generalizing v w with
  | nil => exact ⟨h.1, heq v w rfl rfl h.2.1, h.2.2⟩
  | cons step position ih =>
      obtain ⟨hcontainer, h⟩ := h
      refine ⟨hcontainer, ?_⟩
      cases hv : childWithout auditDiffIgnoredKeys v step with
      | none =>
          rw [hv] at h
          cases hw : childWithout auditDiffIgnoredKeys w step <;> rw [hw] at h <;>
            cases position <;> exact h
      | some x =>
          cases hw : childWithout auditDiffIgnoredKeys w step with
          | none =>
              rw [hv, hw] at h
              cases position <;> exact h
          | some y =>
              rw [hv, hw] at h
              refine ih (fun x' y' hx' hy' => heq x' y' ?_ ?_) h
              · rw [atWithout, hv, Option.bind_some, hx']
              · rw [atWithout, hw, Option.bind_some, hy']

/-- Unequal values at one position make it a differing one. -/
theorem differsAt_of_at
    {position : JsonPosition}
    {x y : Json}
    (hv : atWithout auditDiffIgnoredKeys position v = some x)
    (hw : atWithout auditDiffIgnoredKeys position w = some y)
    (hcontainer : sameContainer x y = false)
    (heq : eq x y = false) :
    DiffersAt eq position (some v) (some w) (.changed x y) := by
  induction position generalizing v w with
  | nil =>
      obtain rfl : v = x := Option.some.inj hv
      obtain rfl : w = y := Option.some.inj hw
      exact ⟨hcontainer, heq, rfl⟩
  | cons step position ih =>
      obtain ⟨v', hv', hv⟩ := Option.bind_eq_some_iff.mp hv
      obtain ⟨w', hw', hw⟩ := Option.bind_eq_some_iff.mp hw
      refine ⟨sameContainer_of_child hv' hw', ?_⟩
      rw [hv', hw']
      exact ih hv hw

/-- Values recorded as changed are not equal. -/
theorem eq_of_differsAt_changed
    {position : JsonPosition}
    {v w : Option Json}
    {x y : Json}
    (h : DiffersAt eq position v w (.changed x y)) :
    eq x y = false := by
  induction position generalizing v w with
  | nil =>
      cases v with
      | none => cases w <;> cases h
      | some v =>
          cases w with
          | none => cases h
          | some w =>
              obtain ⟨-, heq, hchange⟩ := h
              obtain ⟨rfl, rfl⟩ := Change.changed.inj hchange
              exact heq
  | cons step position ih =>
      cases v with
      | none => cases w <;> cases h
      | some v =>
          cases w with
          | none => cases h
          | some w => exact ih h.2

theorem not_sameShape_of_differsAt
    {position : JsonPosition}
    {change : Change}
    (h : DiffersAt (sameScalar value) position (some v) (some w) change) :
    ¬ SameShape value (atWithout auditDiffIgnoredKeys position v)
      (atWithout auditDiffIgnoredKeys position w) := by
  induction position generalizing v w with
  | nil => simp [atWithout, SameShape, h.1, h.2.1]
  | cons step position ih =>
      obtain ⟨-, h⟩ := h
      rw [atWithout, atWithout]
      cases hv : childWithout auditDiffIgnoredKeys v step with
      | none =>
          rw [hv] at h
          cases hw : childWithout auditDiffIgnoredKeys w step <;> rw [hw] at h <;>
            cases position <;> first | exact h.elim | simp [atWithout, SameShape]
      | some x =>
          cases hw : childWithout auditDiffIgnoredKeys w step with
          | none =>
              rw [hv, hw] at h
              cases position <;> first | exact h.elim | simp [atWithout, SameShape]
          | some y =>
              rw [hv, hw] at h
              exact ih h

theorem sameShape_of_no_differences
    (h : ∀ position change, ¬ DiffersAt (sameScalar value) position (some v) (some w) change)
    (position : JsonPosition) :
    SameShape value (atWithout auditDiffIgnoredKeys position v)
      (atWithout auditDiffIgnoredKeys position w) := by
  have hroot : sameScalar value v w = true ∨ sameContainer v w = true := by
    by_contra hnot
    rw [not_or, Bool.not_eq_true, Bool.not_eq_true] at hnot
    exact h [] (.changed v w) ⟨hnot.2, hnot.1, rfl⟩
  induction position generalizing v w with
  | nil => exact hroot
  | cons step position ih =>
      rw [atWithout, atWithout]
      rcases hroot with hscalar | hcontainer
      · have hnone : childWithout auditDiffIgnoredKeys v step = none ∧
            childWithout auditDiffIgnoredKeys w step = none := by
          cases v <;> cases w <;> cases step <;> first | exact ⟨rfl, rfl⟩ | cases hscalar
        rw [hnone.1, hnone.2]
        trivial
      · have hbelow : ∀ position change, ¬ DiffersAt (sameScalar value) position
            (childWithout auditDiffIgnoredKeys v step)
            (childWithout auditDiffIgnoredKeys w step) change :=
          fun position change hdiffers => h (step :: position) change ⟨hcontainer, hdiffers⟩
        cases hv : childWithout auditDiffIgnoredKeys v step with
        | none =>
            cases hw : childWithout auditDiffIgnoredKeys w step with
            | none => trivial
            | some y =>
                rw [hv, hw] at hbelow
                exact absurd rfl (hbelow [] (.added y))
        | some x =>
            cases hw : childWithout auditDiffIgnoredKeys w step with
            | none =>
                rw [hv, hw] at hbelow
                exact absurd rfl (hbelow [] (.removed x))
            | some y =>
                rw [hv, hw] at hbelow
                refine ih hbelow ?_
                by_contra hnot
                rw [not_or, Bool.not_eq_true, Bool.not_eq_true] at hnot
                exact hbelow [] (.changed x y) ⟨hnot.2, hnot.1, rfl⟩

/-- Values are equal without the ignored keys if and only if no position differs. -/
theorem sameJson_iff_no_differences :
    SameJson value (removeKeys auditDiffIgnoredKeys v) (removeKeys auditDiffIgnoredKeys w) ↔
      ∀ position change, ¬ DiffersAt (sameScalar value) position (some v) (some w) change := by
  rw [sameJson_removeKeys_iff]
  constructor
  · intro h position change hdiffers
    exact not_sameShape_of_differsAt hdiffers (h position)
  · exact sameShape_of_no_differences

/-! ## Python's equality -/

theorem sameQuantity_eq_true_iff
    {a b : Option Json.Quantity} :
    sameQuantity a b = true ↔ ∃ q, a = some q ∧ b = some q := by
  cases a <;> cases b <;> simp [sameQuantity, eq_comm]

/-- Python's equality goes beyond that of JSON for booleans and their numbers only. -/
theorem pythonEq_eq_true_iff :
    pythonEq value v w = true ↔ sameScalar value v w = true ∨ BoolForNumber value v w := by
  cases v with
  | bool b =>
      cases w with
      | bool c => cases b <;> cases c <;> simp [pythonEq, pythonQuantity, sameScalar, sameQuantity,
          BoolForNumber]
      | number n =>
          simp [pythonEq, pythonQuantity, sameScalar, sameQuantity_eq_true_iff, BoolForNumber]
      | _ => simp [pythonEq, pythonQuantity, sameScalar, sameQuantity, BoolForNumber]
  | number m =>
      cases w with
      | bool c =>
          simp [pythonEq, pythonQuantity, sameScalar, sameQuantity_eq_true_iff, BoolForNumber]
      | number n => simp [pythonEq, pythonQuantity, sameScalar, BoolForNumber]
      | _ => simp [pythonEq, pythonQuantity, sameScalar, sameQuantity, BoolForNumber]
  | _ => cases w <;> simp [pythonEq, pythonQuantity, sameScalar, sameQuantity, BoolForNumber]

/-! ## Recorded entries -/

/-- What is assigned in the map of added values. -/
def addedEntries (l : List (JsonPosition × Change)) : List (CodePoints × Json) :=
  l.filterMap fun d =>
    match d.2 with
    | .added v => some (d.2.text d.1, v)
    | _ => none

/-- What is assigned in the map of removed values. -/
def removedEntries (l : List (JsonPosition × Change)) : List (CodePoints × Json) :=
  l.filterMap fun d =>
    match d.2 with
    | .removed v => some (d.2.text d.1, v)
    | _ => none

/-- What is assigned in the map of changed values. -/
def changedEntries (l : List (JsonPosition × Change)) : List (CodePoints × (Json × Json)) :=
  l.filterMap fun d =>
    match d.2 with
    | .changed old new => some (d.2.text d.1, (old, new))
    | _ => none

/-- The texts of the changes of a kind. -/
def textsOf
    (kind : ChangeKind)
    (l : List (JsonPosition × Change)) : List CodePoints :=
  (l.filter fun d => d.2.kind = kind).map fun d => d.2.text d.1

/-- Recording assigns the entries in the three maps. -/
theorem recordAll_eq
    (diff : ManifestDiff)
    (l : List (JsonPosition × Change)) :
    diff.recordAll [] l =
      ⟨assign diff.added (addedEntries l), assign diff.removed (removedEntries l),
        assign diff.changed (changedEntries l)⟩ := by
  induction l generalizing diff with
  | nil => rfl
  | cons d l ih =>
      obtain ⟨position, change⟩ := d
      refine (ih (diff.record (positionText [] position) change)).trans ?_
      cases change with
      | added v => simp [ManifestDiff.record, ManifestDiff.add, addedEntries, removedEntries,
          changedEntries, assign, Change.text, Change.kind]
      | removed v => simp [ManifestDiff.record, ManifestDiff.remove, addedEntries, removedEntries,
          changedEntries, assign, Change.text, Change.kind]
      | changed old new => simp [ManifestDiff.record, ManifestDiff.change, addedEntries,
          removedEntries, changedEntries, assign, Change.text, Change.kind]

theorem length_entries (l : List (JsonPosition × Change)) :
    (addedEntries l).length + (removedEntries l).length + (changedEntries l).length =
      l.length := by
  induction l with
  | nil => rfl
  | cons d l ih =>
      obtain ⟨position, change⟩ := d
      rw [List.length_cons, ← ih]
      cases change <;> simp [addedEntries, removedEntries, changedEntries] <;> omega

theorem map_fst_entries (l : List (JsonPosition × Change)) :
    (addedEntries l).map Prod.fst = textsOf .added l ∧
      (removedEntries l).map Prod.fst = textsOf .removed l ∧
        (changedEntries l).map Prod.fst = textsOf .changed l := by
  induction l with
  | nil => exact ⟨rfl, rfl, rfl⟩
  | cons d l ih =>
      obtain ⟨position, change⟩ := d
      obtain ⟨hadded, hremoved, hchanged⟩ := ih
      simp only [addedEntries, removedEntries, changedEntries, textsOf] at hadded hremoved hchanged
      cases change <;>
        simp [addedEntries, removedEntries, changedEntries, textsOf, Change.kind, hadded, hremoved,
          hchanged]

/-- The difference that records a list of changes. -/
def recorded (l : List (JsonPosition × Change)) : ManifestDiff :=
  ManifestDiff.recordAll ⟨[], [], []⟩ [] l

theorem entryCount_recorded_le (l : List (JsonPosition × Change)) :
    (recorded l).entryCount ≤ l.length := by
  have hadded := length_assign_le (addedEntries l)
  have hremoved := length_assign_le (removedEntries l)
  have hchanged := length_assign_le (changedEntries l)
  rw [recorded, recordAll_eq, ManifestDiff.entryCount, ← length_entries]
  dsimp only
  omega

/-- No entry is lost if and only if changes of one kind have different texts. -/
theorem entryCount_recorded_eq_iff
    {l : List (JsonPosition × Change)} :
    (recorded l).entryCount = l.length ↔ ∀ kind, (textsOf kind l).Nodup := by
  obtain ⟨hadded, hremoved, hchanged⟩ := map_fst_entries l
  have hadded' := length_assign_le (addedEntries l)
  have hremoved' := length_assign_le (removedEntries l)
  have hchanged' := length_assign_le (changedEntries l)
  have hkinds : (∀ kind, (textsOf kind l).Nodup) ↔
      (assign [] (addedEntries l)).length = (addedEntries l).length ∧
        (assign [] (removedEntries l)).length = (removedEntries l).length ∧
          (assign [] (changedEntries l)).length = (changedEntries l).length := by
    rw [length_assign_eq_iff, length_assign_eq_iff, length_assign_eq_iff, hadded, hremoved, hchanged]
    constructor
    · intro h
      exact ⟨h .added, h .removed, h .changed⟩
    · rintro ⟨h, h', h''⟩ (_ | _ | _)
      · exact h
      · exact h'
      · exact h''
  rw [hkinds, recorded, recordAll_eq, ManifestDiff.entryCount, ← length_entries]
  dsimp only
  omega

/-- Changes with different texts all have their entries. -/
theorem has_recorded
    {l : List (JsonPosition × Change)}
    (htexts : ∀ kind, (textsOf kind l).Nodup)
    {position : JsonPosition}
    {change : Change}
    (h : (position, change) ∈ l) :
    (recorded l).Has (change.text position) change := by
  obtain ⟨hadded, hremoved, hchanged⟩ := map_fst_entries l
  rw [recorded, recordAll_eq, assign_of_nodup, assign_of_nodup, assign_of_nodup]
  · cases change with
    | added v => exact List.mem_filterMap.mpr ⟨_, h, rfl⟩
    | removed v => exact List.mem_filterMap.mpr ⟨_, h, rfl⟩
    | changed old new => exact List.mem_filterMap.mpr ⟨_, h, rfl⟩
  · rw [List.nil_append, hchanged]
    exact htexts _
  · rw [List.nil_append, hremoved]
    exact htexts _
  · rw [List.nil_append, hadded]
    exact htexts _

/-! ## Completeness -/

/-- The changes that the walk records, and those that there are. -/
theorem walked_subset
    (hlevels : v.nesting < levels) :
    differences (pythonEq value) levels v w ⊆ differences (sameScalar value) levels v w := by
  rintro ⟨position, change⟩ h
  rw [mem_differences_iff hlevels] at h ⊢
  refine differsAt_congr (fun x y _ _ heq => ?_) h
  rw [← Bool.not_eq_true] at heq ⊢
  exact fun hsame => heq (pythonEq_eq_true_iff.mpr (Or.inl hsame))

theorem length_walked_le
    (hlevels : v.nesting < levels) :
    (differences (pythonEq value) levels v w).length ≤
      (differences (sameScalar value) levels v w).length :=
  ((nodup_differences _ levels v w).of_map.subperm (walked_subset hlevels)).length_le

/-- If the walk finds as many changes as there are, it finds them all. -/
theorem mem_walked_of_length
    (hlevels : v.nesting < levels)
    (hlength : (differences (sameScalar value) levels v w).length ≤
      (differences (pythonEq value) levels v w).length)
    {position : JsonPosition}
    {change : Change}
    (h : DiffersAt (sameScalar value) position (some v) (some w) change) :
    (position, change) ∈ differences (pythonEq value) levels v w := by
  have hsub := (nodup_differences (pythonEq value) levels v w).of_map.subperm
    (walked_subset hlevels)
  exact (hsub.perm_of_length_le hlength).mem_iff.mpr ((mem_differences_iff hlevels).mpr h)

section Objects

variable {previous current : Fields}

/-- There are as many differing positions as changes. -/
theorem ncard_differs
    (hlevels : (Json.object previous).nesting < levels) :
    {position | ∃ change, Differs value previous current position change}.ncard =
      (differences (sameScalar value) levels (.object previous) (.object current)).length := by
  have hset : {position | ∃ change, Differs value previous current position change} =
      (((differences (sameScalar value) levels (.object previous) (.object current)).map
        Prod.fst).toFinset : Set JsonPosition) := by
    ext position
    rw [Finset.mem_coe, List.mem_toFinset, List.mem_map]
    constructor
    · rintro ⟨change, h⟩
      exact ⟨_, (mem_differences_iff hlevels).mpr h, rfl⟩
    · rintro ⟨⟨position, change⟩, h, rfl⟩
      exact ⟨change, (mem_differences_iff hlevels).mp h⟩
  rw [hset, Set.ncard_coe_finset, List.toFinset_card_of_nodup (nodup_differences _ _ _ _),
    List.length_map]

/-- What the code returns for objects that are not nested too deeply. -/
theorem diffManifestObjects_eq
    (hdepth : (Json.object previous).nesting ≤ maxManifestDiffDepth) :
    diffManifestObjects value previous current =
      .ok (recorded (differences (pythonEq value) (maxManifestDiffDepth + 1) (.object previous)
        (.object current))) :=
  diffManifestValues_eq (Nat.lt_succ_of_le hdepth) [] _

/-- A complete difference needs positions that are told apart. -/
theorem diffApart_of_complete
    {diff : ManifestDiff}
    (hdepth : (Json.object previous).nesting ≤ maxManifestDiffDepth)
    (hdiff : diffManifestObjects value previous current = .ok diff)
    (hcomplete : DiffComplete value previous current diff) :
    DiffApart value previous current := by
  have hlevels := Nat.lt_succ_of_le hdepth
  rw [diffManifestObjects_eq hdepth] at hdiff
  obtain rfl := Except.ok.inj hdiff
  have hcount := hcomplete.count
  rw [ncard_differs hlevels] at hcount
  have hrecorded := entryCount_recorded_le
    (differences (pythonEq value) (maxManifestDiffDepth + 1) (.object previous) (.object current))
  have hwalked := @length_walked_le value _ _ (.object current) hlevels
  have hfound := fun {position change} => @mem_walked_of_length value _ _ (.object current) hlevels
    (hcount.symm.le.trans hrecorded) position change
  constructor
  · intro position v w hv hw hbool
    have hscalars : sameContainer v w = false ∧ sameScalar value v w = false := by
      obtain ⟨b, n, ⟨rfl, rfl⟩ | ⟨rfl, rfl⟩, -⟩ := hbool
      · exact ⟨rfl, rfl⟩
      · exact ⟨rfl, rfl⟩
    have hmem := hfound (differsAt_of_at hv hw hscalars.1 hscalars.2)
    have hunequal := eq_of_differsAt_changed ((mem_differences_iff hlevels).mp hmem)
    rw [pythonEq_eq_true_iff.mpr (Or.inr hbool)] at hunequal
    cases hunequal
  · intro position position' change change' h h' hkind htext
    have hnodup := entryCount_recorded_eq_iff.mp
      (le_antisymm hrecorded (hwalked.trans hcount.symm.le)) change.kind
    have hmem : (position, change) ∈ (differences (pythonEq value) (maxManifestDiffDepth + 1)
        (.object previous) (.object current)).filter fun d => d.2.kind = change.kind :=
      List.mem_filter.mpr ⟨hfound h, decide_eq_true rfl⟩
    have hmem' : (position', change') ∈ (differences (pythonEq value) (maxManifestDiffDepth + 1)
        (.object previous) (.object current)).filter fun d => d.2.kind = change.kind :=
      List.mem_filter.mpr ⟨hfound h', decide_eq_true hkind.symm⟩
    exact congrArg Prod.fst (List.inj_on_of_nodup_map hnodup hmem hmem' htext)

/-- Positions that are told apart make the difference complete. -/
theorem complete_of_diffApart
    (hdepth : (Json.object previous).nesting ≤ maxManifestDiffDepth)
    (hapart : DiffApart value previous current) :
    DiffComplete value previous current
      (recorded (differences (pythonEq value) (maxManifestDiffDepth + 1) (.object previous)
        (.object current))) := by
  have hlevels := Nat.lt_succ_of_le hdepth
  have hfound : ∀ {position change}, Differs value previous current position change →
      (position, change) ∈ differences (pythonEq value) (maxManifestDiffDepth + 1)
        (.object previous) (.object current) := by
    intro position change h
    refine (mem_differences_iff hlevels).mpr (differsAt_congr (fun x y hx hy heq => ?_) h)
    rw [← Bool.not_eq_true, pythonEq_eq_true_iff, not_or, Bool.not_eq_true]
    exact ⟨heq, hapart.scalars _ x y hx hy⟩
  have hdiffers : ∀ {position change}, (position, change) ∈ differences (pythonEq value)
      (maxManifestDiffDepth + 1) (.object previous) (.object current) →
        Differs value previous current position change :=
    fun h => (mem_differences_iff hlevels).mp (walked_subset hlevels h)
  have hlength : (differences (pythonEq value) (maxManifestDiffDepth + 1) (.object previous)
      (.object current)).length = (differences (sameScalar value) (maxManifestDiffDepth + 1)
        (.object previous) (.object current)).length := by
    refine le_antisymm (length_walked_le hlevels) (List.Subperm.length_le ?_)
    refine (nodup_differences _ _ _ _).of_map.subperm fun d hd => ?_
    exact hfound ((mem_differences_iff hlevels).mp hd)
  have htexts : ∀ kind, (textsOf kind (differences (pythonEq value) (maxManifestDiffDepth + 1)
      (.object previous) (.object current))).Nodup := by
    intro kind
    refine List.Nodup.map_on ?_ ((nodup_differences _ _ _ _).of_map.filter _)
    rintro ⟨position, change⟩ hmem ⟨position', change'⟩ hmem' htext
    obtain ⟨hmem, hkind⟩ := List.mem_filter.mp hmem
    obtain ⟨hmem', hkind'⟩ := List.mem_filter.mp hmem'
    have hposition := hapart.texts _ _ _ _ (hdiffers hmem) (hdiffers hmem')
      ((of_decide_eq_true hkind).trans (of_decide_eq_true hkind').symm) htext
    exact List.inj_on_of_nodup_map (nodup_differences _ _ _ _) hmem hmem' hposition
  have hcount := entryCount_recorded_eq_iff.mpr htexts
  refine ⟨?_, fun position change h => has_recorded htexts (hfound h), ?_⟩
  · rw [sameJson_iff_no_differences]
    constructor
    · rintro ⟨hadded, hremoved, hchanged⟩ position change h
      rw [ManifestDiff.entryCount, hadded, hremoved, hchanged] at hcount
      have hmem := hfound h
      rw [List.length_eq_zero_iff.mp hcount.symm] at hmem
      cases hmem
    · intro hnone
      have hnil : differences (pythonEq value) (maxManifestDiffDepth + 1) (.object previous)
          (.object current) = [] :=
        List.eq_nil_iff_forall_not_mem.mpr fun d hd => hnone d.1 d.2 (hdiffers hd)
      rw [hnil]
      exact ⟨rfl, rfl, rfl⟩
  · rw [ncard_differs hlevels, hcount, hlength]

/-- A manifest diff is complete exactly when no boolean stands against its number and positions that
differ in the same way have different texts. -/
theorem manifest_diff_complete_iff
    (hdepth : (Json.object previous).nesting ≤ maxManifestDiffDepth) :
    (∃ diff, diffManifestObjects value previous current = .ok diff ∧
      DiffComplete value previous current diff) ↔ DiffApart value previous current := by
  constructor
  · rintro ⟨diff, hdiff, hcomplete⟩
    exact diffApart_of_complete hdepth hdiff hcomplete
  · intro hapart
    exact ⟨_, diffManifestObjects_eq hdepth, complete_of_diffApart hdepth hapart⟩

end Objects

/-- Two objects that differ in a flag. -/
theorem manifest_diff_complete_iff_flag :
    (∃ diff, diffManifestObjects (fun _ => 0) [([112], .bool true)] [([112], .bool false)] =
        .ok diff ∧
      DiffComplete (fun _ => 0) [([112], .bool true)] [([112], .bool false)] diff) ↔
      DiffApart (fun _ => 0) [([112], .bool true)] [([112], .bool false)] :=
  manifest_diff_complete_iff (by simp [Json.nesting, Json.nestingFields, maxManifestDiffDepth])

/-- `true` is replaced by `1` without an entry, and the changes of `a.b` and of `b` in `a` share
one. -/
theorem changes_without_entries :
    (¬ ∃ diff, diffManifestObjects (fun _ => 0) [([112], .bool true)]
        [([112], .number (.int 1))] = .ok diff ∧
      DiffComplete (fun _ => 0) [([112], .bool true)] [([112], .number (.int 1))] diff) ∧
    ¬ ∃ diff, diffManifestObjects (fun _ => 0)
        [([97, 46, 98], .number (.int 1)), ([97], .object [([98], .number (.int 1))])]
        [([97, 46, 98], .number (.int 2)), ([97], .object [([98], .number (.int 2))])] = .ok diff ∧
      DiffComplete (fun _ => 0)
        [([97, 46, 98], .number (.int 1)), ([97], .object [([98], .number (.int 1))])]
        [([97, 46, 98], .number (.int 2)), ([97], .object [([98], .number (.int 2))])] diff := by
  constructor
  · rintro ⟨diff, hdiff, hcomplete⟩
    have hapart := diffApart_of_complete
      (by simp [Json.nesting, Json.nestingFields, maxManifestDiffDepth]) hdiff hcomplete
    exact hapart.scalars [.field [112]] (.bool true) (.number (.int 1)) rfl rfl
      ⟨true, .int 1, Or.inl ⟨rfl, rfl⟩, by simp [quantity]⟩
  · rintro ⟨diff, hdiff, hcomplete⟩
    have hapart := diffApart_of_complete
      (by simp [Json.nesting, Json.nestingFields, maxManifestDiffDepth]) hdiff hcomplete
    have hsame := hapart.texts [.field [97, 46, 98]] [.field [97], .field [98]]
      (.changed (.number (.int 1)) (.number (.int 2)))
      (.changed (.number (.int 1)) (.number (.int 2)))
      ⟨rfl, rfl, by decide, rfl⟩ ⟨rfl, rfl, rfl, by decide, rfl⟩ rfl rfl
    cases hsame

end Audit
end TensorGrep
