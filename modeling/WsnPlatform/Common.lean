/-
**Return codes and undefined behaviour.**

`src/common/common.h` fixes the return codes of every function of the repository.  A C function can
also end in undefined behaviour: the model makes each kind that the code can run into a `Fault`,
so that a call either faults or returns, and a run stops at its first fault.
-/

import Mathlib

set_option relaxedAutoImplicit false
set_option autoImplicit false

namespace Wsn

/-- The `Ret` enumeration of `common.h`. -/
inductive Ret
  | ok
  | oom
  | stop
  | invalidParams
  | fail
  deriving DecidableEq, Repr

/-- The ways in which a C statement of the repository can have no defined behaviour, and
`diverges` for a loop that never ends. -/
inductive Fault
  /-- A field is read or written through `NULL`. -/
  | nullDeref
  /-- A field is read or written through a pointer to freed memory. -/
  | dangling
  /-- A byte is read or stored outside its array. -/
  | outOfBounds
  /-- `command_set` is subscripted outside `0 .. NODE_NUM - 1`. -/
  | badIndex
  /-- An `int` is incremented past `INT_MAX`. -/
  | signedOverflow
  | diverges
  deriving DecidableEq, Repr

/-- A C computation: a fault, or a value. -/
abbrev Exec := Except Fault

/-- A store that is only defined when the model finds room for it. -/
def stored {α : Type} : Option α → Exec α
  | none => .error .outOfBounds
  | some a => .ok a

@[simp] theorem stored_some {α : Type} (a : α) : stored (some a) = .ok a := rfl

@[simp] theorem stored_none {α : Type} : stored (none : Option α) = .error .outOfBounds := rfl

theorem stored_eq_ok {α : Type} {x : Option α} {a : α} : stored x = .ok a ↔ x = some a := by
  cases x with
  | none => simp
  | some b => simp

@[simp] theorem ok_bind {α β : Type} (a : α) (f : α → Exec β) : (Except.ok a >>= f) = f a := rfl

@[simp] theorem error_bind {α β : Type} (e : Fault) (f : α → Exec β) :
    (Except.error e >>= f) = .error e := rfl

theorem ok_ne_error {α : Type} (a : α) (e : Fault) : (Except.ok a : Exec α) ≠ .error e := by
  intro h
  cases h

theorem error_ne_error {α : Type} {e e' : Fault} (h : e ≠ e') :
    (Except.error e : Exec α) ≠ .error e' := by
  intro heq
  cases heq
  exact h rfl

/-- Peeling a computation that does not fault. -/
theorem bind_eq_ok {α β : Type} {x : Exec α} {f : α → Exec β} {b : β} :
    (x >>= f) = .ok b ↔ ∃ a, x = .ok a ∧ f a = .ok b := by
  cases x with
  | error e => simp
  | ok a => simp

end Wsn
