/-
**Rewriting a buffer in place.**

A parser may write what it has made of its input into the input itself, as long as it writes behind
the place at which it reads.  A cursor holds both places.  What it comes to is told by two lists:
what was written, and what is still to be read; the gap between them is what has been read and not
yet been written over.

Nothing here is about a particular program.

Main definitions:

* `Cursor`, `Cursor.peek`, `Cursor.skip`, `Cursor.put` — the buffer and the two places;
* `Cursor.At` — what was written, what is to be read, and the gap.

Main results:

* `Cursor.At.skip`, `Cursor.At.put` — reading widens the gap, writing narrows it and leaves the
  unread part alone.
-/

import Mathlib.Data.List.Basic

set_option relaxedAutoImplicit false
set_option autoImplicit false

namespace InPlace

variable {α : Type}

/-- A buffer that is read at one place and written at another. -/
structure Cursor (α : Type) where
  mem : List α
  read : ℕ
  write : ℕ

namespace Cursor

/-- The element to be read; none behind the end. -/
def peek (c : Cursor α) : Option α := c.mem[c.read]?

def skip (c : Cursor α) : Cursor α := { c with read := c.read + 1 }

/-- The element is written; there is no place for it behind the end. -/
def put (c : Cursor α) (x : α) : Option (Cursor α) :=
  if c.write < c.mem.length then
    some { c with mem := c.mem.set c.write x, write := c.write + 1 }
  else none

/-- **Where a cursor stands**: what was written, what is still to be read, and how many elements lie
between. -/
structure At (c : Cursor α) (done rest : List α) (gap : ℕ) : Prop where
  take : c.mem.take c.write = done
  drop : c.mem.drop c.read = rest
  gap : c.write + gap = c.read
  le : c.read ≤ c.mem.length

variable {c : Cursor α} {done rest : List α} {gap : ℕ}

/-- The buffer keeps its length. -/
theorem length_put {c' : Cursor α} {x : α} (h : c.put x = some c') :
    c'.mem.length = c.mem.length := by
  unfold put at h
  split at h
  · cases h
    exact List.length_set
  · cases h

theorem At.write_eq (h : c.At done rest gap) : c.write = done.length := by
  have hgap := h.gap
  have hle := h.le
  rw [← h.take, List.length_take]
  omega

theorem At.length_eq (h : c.At done rest gap) :
    c.mem.length = done.length + gap + rest.length := by
  have hgap := h.gap
  have hle := h.le
  rw [← h.drop, List.length_drop, ← h.write_eq]
  omega

theorem At.peek (h : c.At done rest gap) : c.peek = rest.head? := by
  rw [← h.drop, List.head?_drop, Cursor.peek]

theorem At.skip {x : α} (h : c.At done (x :: rest) gap) : c.skip.At done rest (gap + 1) := by
  have hlen := h.length_eq
  have hgap := h.gap
  have hwrite := h.write_eq
  rw [List.length_cons] at hlen
  refine ⟨h.take, ?_, ?_, ?_⟩
  · show c.mem.drop (c.read + 1) = rest
    rw [← List.tail_drop, h.drop, List.tail_cons]
  · show c.write + (gap + 1) = c.read + 1
    omega
  · show c.read + 1 ≤ c.mem.length
    omega

/-- Writing into the gap leaves the unread part alone. -/
theorem At.put (h : c.At done rest (gap + 1)) (x : α) :
    ∃ c', c.put x = some c' ∧ c'.At (done ++ [x]) rest gap := by
  have hgap := h.gap
  have hle := h.le
  have hlt : c.write < c.mem.length := by omega
  refine ⟨_, if_pos hlt, ?_, ?_, ?_, ?_⟩
  · show (c.mem.set c.write x).take (c.write + 1) = done ++ [x]
    rw [List.take_add_one, List.take_set_of_le (Nat.le_refl _), h.take]
    simp [hlt]
  · show (c.mem.set c.write x).drop c.read = rest
    rw [List.drop_set_of_lt (by omega), h.drop]
  · show c.write + 1 + gap = c.read
    omega
  · show c.read ≤ (c.mem.set c.write x).length
    rw [List.length_set]
    exact hle

end Cursor

end InPlace
