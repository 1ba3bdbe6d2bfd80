import TensorGrep.Kernel.Json

/-!
# Positions in JSON values

A position is a way down from a JSON value, by keys of objects and places in
arrays.  Two values are equal as JSON values when at every position they have the
same scalar, both an array, both an object or both nothing; numbers are compared by
value, and a NaN, which is no JSON number, is equal to none.
-/

namespace TensorGrep
namespace Kernel

/-! ## Positions -/

/-- A step down. -/
inductive JsonStep where
  | field (key : CodePoints)
  | index (i : ℕ)
  deriving DecidableEq

/-- A way down. -/
abbrev JsonPosition := List JsonStep

namespace Json

/-- What is one step below a value, when the given keys are passed over. -/
def childWithout
    (ignored : List CodePoints) : Json → JsonStep → Option Json
  | .object fields, .field key => if key ∈ ignored then none else lookup key fields
  | .array items, .index i => items[i]?
  | _, _ => none

/-- What is at a position, when the given keys are passed over. -/
def atWithout
    (ignored : List CodePoints) : JsonPosition → Json → Option Json
  | [], v => some v
  | step :: position, v => (childWithout ignored v step).bind (atWithout ignored position)

/-- What is at a position. -/
def valueAt
    (position : JsonPosition)
    (v : Json) : Option Json :=
  atWithout [] position v

mutual

/-- The value without the given keys, in every object. -/
def removeKeys
    (ignored : List CodePoints) : Json → Json
  | .array items => .array (removeKeysItems ignored items)
  | .object fields => .object (removeKeysFields ignored fields)
  | v => v

/-- Values without the keys. -/
def removeKeysItems
    (ignored : List CodePoints) : List Json → List Json
  | [] => []
  | v :: vs => removeKeys ignored v :: removeKeysItems ignored vs

/-- Fields without the keys. -/
def removeKeysFields
    (ignored : List CodePoints) : List (CodePoints × Json) → List (CodePoints × Json)
  | [] => []
  | (k, v) :: fields =>
      if k ∈ ignored then removeKeysFields ignored fields
      else (k, removeKeys ignored v) :: removeKeysFields ignored fields

end

mutual

/-- The depth to which arrays and objects are nested. -/
def nesting : Json → ℕ
  | .array items => nestingItems items + 1
  | .object fields => nestingFields fields + 1
  | _ => 0

/-- The depth of the deepest value. -/
def nestingItems : List Json → ℕ
  | [] => 0
  | v :: vs => max v.nesting (nestingItems vs)

/-- The depth of the deepest field. -/
def nestingFields : List (CodePoints × Json) → ℕ
  | [] => 0
  | (_, v) :: fields => max v.nesting (nestingFields fields)

end

theorem nesting_le_nestingItems
    {items : List Json}
    {v : Json}
    (h : v ∈ items) :
    v.nesting ≤ nestingItems items := by
  induction items with
  | nil => cases h
  | cons first items ih =>
      rw [nestingItems]
      rcases List.mem_cons.mp h with rfl | h
      · exact le_max_left _ _
      · exact (ih h).trans (le_max_right _ _)

theorem nesting_le_nestingFields
    {fields : List (CodePoints × Json)}
    {key : CodePoints}
    {v : Json}
    (h : (key, v) ∈ fields) :
    v.nesting ≤ nestingFields fields := by
  induction fields with
  | nil => cases h
  | cons first fields ih =>
      rw [nestingFields]
      rcases List.mem_cons.mp h with rfl | h
      · exact le_max_left _ _
      · exact (ih h).trans (le_max_right _ _)

/-- What is below a value is nested less deeply. -/
theorem nesting_lt_of_childWithout
    {ignored : List CodePoints}
    {v w : Json}
    {step : JsonStep}
    (h : childWithout ignored v step = some w) :
    w.nesting < v.nesting := by
  cases v with
  | array items =>
      cases step with
      | field => cases h
      | index i =>
          rw [nesting]
          exact Nat.lt_succ_of_le (nesting_le_nestingItems (List.mem_of_getElem? h))
  | object fields =>
      cases step with
      | field key =>
          rw [childWithout] at h
          split at h
          case isTrue => cases h
          case isFalse =>
              rw [nesting]
              exact Nat.lt_succ_of_le (nesting_le_nestingFields (mem_of_lookup h))
      | index => cases h
  | null => cases step <;> cases h
  | bool => cases step <;> cases h
  | number => cases step <;> cases h
  | string => cases step <;> cases h

/-! ## Without keys -/

theorem getElem?_removeKeysItems
    (ignored : List CodePoints)
    (items : List Json)
    (i : ℕ) :
    (removeKeysItems ignored items)[i]? = items[i]?.map (removeKeys ignored) := by
  induction items generalizing i with
  | nil => rfl
  | cons v items ih =>
      cases i with
      | zero => rfl
      | succ i =>
          rw [removeKeysItems, List.getElem?_cons_succ, ih, List.getElem?_cons_succ]

theorem lookup_removeKeysFields
    (ignored : List CodePoints)
    (fields : List (CodePoints × Json))
    (key : CodePoints) :
    lookup key (removeKeysFields ignored fields) =
      if key ∈ ignored then none else (lookup key fields).map (removeKeys ignored) := by
  induction fields with
  | nil => simp [removeKeysFields, lookup]
  | cons first fields ih =>
      obtain ⟨k, v⟩ := first
      rw [removeKeysFields]
      by_cases hk : k = key
      · subst hk
        split
        case isTrue hmem => rw [ih, if_pos hmem]
        case isFalse hmem => simp [lookup]
      · have hskip : ∀ (w : Json) (rest : List (CodePoints × Json)),
            lookup key ((k, w) :: rest) = lookup key rest := by
          intro w rest
          simp [lookup, hk]
        split
        case isTrue => rw [ih, hskip]
        case isFalse => rw [hskip, ih, hskip]

/-- What is below a value without the keys is what was below it, without the keys. -/
theorem childWithout_removeKeys
    (ignored : List CodePoints)
    (v : Json)
    (step : JsonStep) :
    childWithout [] (removeKeys ignored v) step =
      (childWithout ignored v step).map (removeKeys ignored) := by
  cases v with
  | array items =>
      cases step with
      | field => rfl
      | index i => exact getElem?_removeKeysItems ignored items i
  | object fields =>
      cases step with
      | field key =>
          rw [removeKeys, childWithout, if_neg List.not_mem_nil, lookup_removeKeysFields,
            childWithout]
          split
          case isTrue => rfl
          case isFalse => rfl
      | index => rfl
  | null => cases step <;> rfl
  | bool => cases step <;> rfl
  | number => cases step <;> rfl
  | string => cases step <;> rfl

/-- What is at a position without the keys. -/
theorem valueAt_removeKeys
    (ignored : List CodePoints)
    (position : JsonPosition)
    (v : Json) :
    valueAt position (removeKeys ignored v) =
      (atWithout ignored position v).map (removeKeys ignored) := by
  induction position generalizing v with
  | nil => rfl
  | cons step position ih =>
      rw [valueAt, atWithout, childWithout_removeKeys, atWithout, Option.bind_map,
        Option.map_bind]
      exact congrArg _ (funext ih)

/-! ## Equality -/

/-- The value of a number. -/
inductive Quantity where
  | rational (q : ℚ)
  | infinity
  | negInfinity
  deriving DecidableEq

section Equality

variable (value : FloatText → ℚ)

/-- The value of a number; a NaN has none. -/
def quantity : JsonNumber → Option Quantity
  | .int i => some (.rational i)
  | .finite text => some (.rational (value text))
  | .nan => none
  | .infinity => some .infinity
  | .negInfinity => some .negInfinity

/-- Both have a value, and it is the same. -/
def sameQuantity (a b : Option Quantity) : Bool :=
  match a, b with
  | some a, some b => a = b
  | _, _ => false

/-- The same scalar. -/
def sameScalar : Json → Json → Bool
  | .null, .null => true
  | .bool b, .bool c => b = c
  | .number m, .number n => sameQuantity (quantity value m) (quantity value n)
  | .string s, .string t => s = t
  | _, _ => false

/-- Both an array, or both an object. -/
def sameContainer : Json → Json → Bool
  | .array _, .array _ => true
  | .object _, .object _ => true
  | _, _ => false

/-- Nothing on both sides, the same scalar, two arrays or two objects. -/
def SameShape : Option Json → Option Json → Prop
  | none, none => True
  | some v, some w => sameScalar value v w ∨ sameContainer v w
  | _, _ => False

/-- Equality of JSON values. -/
def SameJson (v w : Json) : Prop :=
  ∀ position, SameShape value (valueAt position v) (valueAt position w)

variable {value}

@[simp] theorem sameScalar_removeKeys
    (ignored : List CodePoints)
    (v w : Json) :
    sameScalar value (removeKeys ignored v) (removeKeys ignored w) = sameScalar value v w := by
  cases v <;> cases w <;> rfl

@[simp] theorem sameContainer_removeKeys
    (ignored : List CodePoints)
    (v w : Json) :
    sameContainer (removeKeys ignored v) (removeKeys ignored w) = sameContainer v w := by
  cases v <;> cases w <;> rfl

/-- Values are equal without the keys if they have the same shapes at all positions that avoid the
keys. -/
theorem sameJson_removeKeys_iff
    {ignored : List CodePoints}
    {v w : Json} :
    SameJson value (removeKeys ignored v) (removeKeys ignored w) ↔
      ∀ position, SameShape value (atWithout ignored position v)
        (atWithout ignored position w) := by
  refine forall_congr' fun position => ?_
  rw [valueAt_removeKeys, valueAt_removeKeys]
  cases atWithout ignored position v <;> cases atWithout ignored position w <;>
    simp [SameShape]

end Equality

end Json

end Kernel
end TensorGrep
