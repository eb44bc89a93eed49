/-
**A ledger of resources.**

Resources are numbered in the order in which they are handed out, and the ledger notes every
release.  A program is right about them if it releases each exactly once, and nothing else.

Nothing here is about a particular program.

Main definitions:

* `Ledger` — how many were issued, and the releases in their order;
* `Ledger.Sound` — only issued resources were released, and none twice;
* `Ledger.Settled` — every issued resource was released;
* `Ledger.Holds` — the resources that were issued and not released are the given ones.

Main results:

* `Ledger.Holds.issue`, `Ledger.Holds.release` — what the two operations do to the resources held;
* `Ledger.Holds.settled_iff` — nothing is left exactly if nothing is held.
-/

import Mathlib.Data.List.Perm.Basic
import Mathlib.Data.List.Range

set_option relaxedAutoImplicit false
set_option autoImplicit false

/-- **A ledger**: the resources `0 .. issued - 1` were handed out. -/
structure Ledger where
  issued : ℕ
  released : List ℕ

namespace Ledger

def empty : Ledger := ⟨0, []⟩

/-- A resource is handed out; its number is `l.issued`. -/
def issue (l : Ledger) : Ledger := { l with issued := l.issued + 1 }

def release (l : Ledger) (i : ℕ) : Ledger := { l with released := l.released ++ [i] }

/-- **Only what was issued was released, and nothing twice.** -/
def Sound (l : Ledger) : Prop := l.released.Nodup ∧ ∀ i ∈ l.released, i < l.issued

/-- **Everything that was issued was released.** -/
def Settled (l : Ledger) : Prop := ∀ i < l.issued, i ∈ l.released

/-- **The resources held**: what was issued is either held or was released, once. -/
def Holds (l : Ledger) (held : List ℕ) : Prop :=
  (held ++ l.released).Perm (List.range l.issued)

variable {l : Ledger} {held : List ℕ}

theorem holds_empty : empty.Holds [] := List.Perm.refl _

theorem Holds.issue (h : l.Holds held) : l.issue.Holds (l.issued :: held) := by
  have hrange : (List.range (l.issued + 1)).Perm (l.issued :: List.range l.issued) := by
    rw [List.range_succ]
    exact List.perm_append_comm
  exact (List.Perm.cons l.issued h).trans hrange.symm

theorem Holds.release {i : ℕ} (h : l.Holds (i :: held)) : (l.release i).Holds held := by
  have hmove : (held ++ (l.released ++ [i])).Perm (i :: (held ++ l.released)) := by
    rw [← List.append_assoc]
    exact List.perm_append_comm
  exact hmove.trans h

theorem Holds.nodup (h : l.Holds held) : (held ++ l.released).Nodup :=
  h.nodup_iff.2 List.nodup_range

theorem Holds.sound (h : l.Holds held) : l.Sound :=
  ⟨(List.nodup_append.1 h.nodup).2.1,
    fun _ hi => List.mem_range.1 (h.subset (List.mem_append_right held hi))⟩

/-- The order in which the resources are listed does not matter. -/
theorem Holds.perm {held' : List ℕ} (h : l.Holds held) (hperm : held'.Perm held) :
    l.Holds held' :=
  (hperm.append_right l.released).trans h

/-- **Nothing is left exactly if nothing is held.** -/
theorem Holds.settled_iff (h : l.Holds held) : l.Settled ↔ held = [] := by
  constructor
  · intro hsettled
    by_contra hne
    obtain ⟨i, rest, rfl⟩ := List.exists_cons_of_ne_nil hne
    have hi : i < l.issued := List.mem_range.1 (h.subset (by simp))
    have hnodup := h.nodup
    rw [List.cons_append, List.nodup_cons] at hnodup
    exact hnodup.1 (List.mem_append_right rest (hsettled i hi))
  · rintro rfl i hi
    exact h.mem_iff.2 (List.mem_range.2 hi)

end Ledger
