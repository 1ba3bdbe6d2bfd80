import Mathlib.Data.Option.Basic

/-!
# Memo tables

A memo table maps keys to values that were computed before.  A lookup gives the
value in the table, or a fresh one.  Tables grow by calls and lose entries when they
are full; what holds of every entry and of every fresh value keeps holding.
-/

namespace TensorGrep
namespace Kernel

universe u v

/-- Values that were computed before. -/
abbrev MemoTable (κ : Type u) (α : Type v) := κ → Option α

namespace MemoTable

variable {κ : Type u} {α : Type v}

/-- A table without entries. -/
def empty : MemoTable κ α :=
  fun _ => none

/-- The value in the table, or the fresh one. -/
def consult
    (table : MemoTable κ α)
    (key : κ)
    (fresh : α) : α :=
  (table key).getD fresh

/-- Every entry is as described. -/
def Forall
    (table : MemoTable κ α)
    (P : κ → α → Prop) : Prop :=
  ∀ key value, table key = some value → P key value

/-- The table has lost entries of the other one, and gained none. -/
def Within (table table' : MemoTable κ α) : Prop :=
  table.Forall fun key value => table' key = some value

/-- The other table has entries of this one, and new ones. -/
def FilledWith
    (table table' : MemoTable κ α)
    (fresh : κ → α → Prop) : Prop :=
  table'.Forall fun key value => table key = some value ∨ fresh key value

variable {table table' : MemoTable κ α} {P fresh : κ → α → Prop}

@[simp] theorem consult_empty
    (key : κ)
    (value : α) :
    (empty : MemoTable κ α).consult key value = value :=
  rfl

theorem forall_empty :
    (empty : MemoTable κ α).Forall P :=
  fun _ _ h => nomatch h

theorem Forall.within
    (h : table'.Forall P)
    (hwithin : table.Within table') :
    table.Forall P :=
  fun key value hentry => h key value (hwithin key value hentry)

theorem Forall.filledWith
    (h : table.Forall P)
    (hfilled : table.FilledWith table' fresh)
    (hfresh : ∀ key value, fresh key value → P key value) :
    table'.Forall P := by
  intro key value hentry
  rcases hfilled key value hentry with hold | hnew
  · exact h key value hold
  · exact hfresh key value hnew

theorem eq_empty_of_within
    (h : table.Within empty) :
    table = empty := by
  funext key
  cases hkey : table key with
  | none => rfl
  | some value => exact absurd (h key value hkey) (by simp [empty])

/-- A lookup gives the fresh value if that is what the table can have. -/
theorem consult_eq
    (h : table.Forall P)
    {key : κ}
    {value : α}
    (hvalue : ∀ old, P key old → old = value) :
    table.consult key value = value := by
  rw [consult]
  cases hkey : table key with
  | none => rfl
  | some old => exact hvalue old (h key old hkey)

end MemoTable
end Kernel
end TensorGrep
