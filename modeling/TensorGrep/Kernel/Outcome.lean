import Mathlib.Tactic.Common

/-!
# Code that may fail or panic

A Rust function returns a value, returns an error, or panics.  The third
outcome is kept apart from the second: an error is an answer, a panic is not.
-/

namespace TensorGrep
namespace Kernel

universe u v w

/-- The result of code that may fail cleanly or panic. -/
inductive Outcome (ε : Type u) (α : Type v) where
  | ok (a : α)
  | error (e : ε)
  | panicked

namespace Outcome

variable {ε : Type u} {α : Type v} {β : Type w}

/-- Continue with a value; an error and a panic stay as they are. -/
def bind
    (x : Outcome ε α)
    (f : α → Outcome ε β) : Outcome ε β :=
  match x with
  | ok a => f a
  | error e => error e
  | panicked => panicked

/-- A slice that is out of range or not on boundaries panics. -/
def ofSlice (o : Option α) : Outcome ε α :=
  match o with
  | some a => ok a
  | none => panicked

/-- Lift a fallible computation. -/
def ofExcept (x : Except ε α) : Outcome ε α :=
  match x with
  | .ok a => ok a
  | .error e => error e

/-- The code does not panic. -/
def Returns (x : Outcome ε α) : Prop :=
  x ≠ panicked

@[simp] theorem bind_ok
    (a : α)
    (f : α → Outcome ε β) :
    (ok a : Outcome ε α).bind f = f a := rfl

@[simp] theorem bind_error
    (e : ε)
    (f : α → Outcome ε β) :
    (error e : Outcome ε α).bind f = error e := rfl

@[simp] theorem bind_panicked
    (f : α → Outcome ε β) :
    (panicked : Outcome ε α).bind f = panicked := rfl

@[simp] theorem ofSlice_some
    (a : α) :
    (ofSlice (some a) : Outcome ε α) = ok a := rfl

@[simp] theorem ofSlice_none :
    (ofSlice none : Outcome ε α) = panicked := rfl

/-- A continued computation succeeds exactly when both parts do. -/
theorem bind_eq_ok_iff
    {x : Outcome ε α}
    {f : α → Outcome ε β}
    {b : β} :
    x.bind f = ok b ↔ ∃ a, x = ok a ∧ f a = ok b := by
  cases x with
  | ok a => simp
  | error e => simp
  | panicked => simp

theorem ofExcept_eq_ok_iff
    {x : Except ε α}
    {a : α} :
    ofExcept x = ok a ↔ x = .ok a := by
  cases x with
  | ok b => simp [ofExcept]
  | error e => simp [ofExcept]

end Outcome

end Kernel
end TensorGrep
