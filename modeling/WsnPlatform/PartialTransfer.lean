/-
**Moving a row of elements in parts.**

A call that is to move some elements may move fewer, so it is made again for those that are left.
What the calls move is told by a sequence of numbers; when each is positive and no greater than what
is left, everything is moved after finitely many calls, and the parts in their order are the row.

Nothing here is about a particular program.

Main definitions:

* `PartialTransfer.moved` — how many elements the first parts have moved;
* `PartialTransfer.Parts` — the sequences that move a number of elements.

Main results:

* `PartialTransfer.Parts.exists_moved_eq` — the parts come to an end;
* `PartialTransfer.flatMap_part` — the parts of a row, one behind the other.
-/

import Mathlib.Data.List.Basic
import Mathlib.Data.Nat.Find

set_option relaxedAutoImplicit false
set_option autoImplicit false

namespace PartialTransfer

/-- How many elements the first `i` parts have moved. -/
def moved (part : ℕ → ℕ) : ℕ → ℕ
  | 0 => 0
  | i + 1 => moved part i + part i

theorem moved_succ (part : ℕ → ℕ) (i : ℕ) : moved part (i + 1) = moved part i + part i := rfl

/-- **Parts of `n` elements**: as long as some are left, each is positive and no greater than that.
What follows the last part is not looked at. -/
structure Parts (n : ℕ) where
  part : ℕ → ℕ
  fits : ∀ i, moved part i < n → 0 < part i ∧ moved part i + part i ≤ n

namespace Parts

variable {n : ℕ} (P : Parts n)

/-- Each part moves something. -/
theorem le_moved {i : ℕ} (h : ∀ j < i, moved P.part j < n) : i ≤ moved P.part i := by
  induction i with
  | zero => exact Nat.zero_le _
  | succ i ih =>
      have hi := ih fun j hj => h j (Nat.lt_succ_of_lt hj)
      have hpos := (P.fits i (h i (Nat.lt_succ_self i))).1
      rw [moved_succ]
      omega

/-- **The parts come to an end** with the last element, after at most `n` of them. -/
theorem exists_moved_eq :
    ∃ k ≤ n, moved P.part k = n ∧ ∀ i < k, moved P.part i < n := by
  have hend : ∃ k, n ≤ moved P.part k := by
    by_contra hno
    rw [not_exists] at hno
    have hmore := P.le_moved (i := n + 1) fun j _ => Nat.not_le.1 (hno j)
    exact hno (n + 1) (by omega)
  have hbefore : ∀ i < Nat.find hend, moved P.part i < n := fun i hi =>
    Nat.not_le.1 (Nat.find_min hend hi)
  have hreached := Nat.find_spec hend
  generalize Nat.find hend = k at hbefore hreached
  have hle : moved P.part k ≤ n := by
    cases k with
    | zero => exact Nat.zero_le n
    | succ k =>
        rw [moved_succ]
        exact (P.fits k (hbefore k (Nat.lt_succ_self k))).2
  exact ⟨k, Nat.le_trans (P.le_moved hbefore) hle, Nat.le_antisymm hle hreached, hbefore⟩

end Parts

/-- **The parts of a row, one behind the other**, are what they have moved of it. -/
theorem flatMap_part {α : Type} (part : ℕ → ℕ) (row : List α) (k : ℕ) :
    ((List.range k).flatMap fun i => (row.drop (moved part i)).take (part i)) =
      row.take (moved part k) := by
  induction k with
  | zero => rw [moved, List.take_zero, List.range_zero, List.flatMap_nil]
  | succ k ih =>
      rw [List.range_succ, List.flatMap_append, ih, List.flatMap_singleton, moved_succ,
        List.take_add]

end PartialTransfer
