/-
**Machines with outputs.**

A machine reads inputs one after the other; for each it changes its state and puts out some things.
A machine that is handed its inputs in pieces, and looks at a whole piece at a time, can put them
out in another shape: then it is compared with a machine that reads input by input, through a map
that breaks the outputs down.

Nothing here is about a particular program.

Main definitions:

* `Transducer.run` — the state behind a list of inputs, and everything put out;
* `Transducer.Cuts` — a machine for pieces does what a machine for single inputs does.

Main results:

* `Transducer.run_append`, `Transducer.run_invariant` — runs compose, and keep what a step keeps;
* `Transducer.Cuts.run_flatten` — how the inputs are cut into pieces does not matter.
-/

import Mathlib.Data.List.Basic

set_option relaxedAutoImplicit false
set_option autoImplicit false

namespace Transducer

variable {σ ι ο : Type}

/-- The state behind a list of inputs, and everything put out. -/
def run (step : σ → ι → σ × List ο) : σ → List ι → σ × List ο
  | s, [] => (s, [])
  | s, i :: l => ((run step (step s i).1 l).1, (step s i).2 ++ (run step (step s i).1 l).2)

variable {step : σ → ι → σ × List ο}

@[simp] theorem run_nil (s : σ) : run step s [] = (s, []) := rfl

theorem run_cons (s : σ) (i : ι) (l : List ι) :
    run step s (i :: l) =
      ((run step (step s i).1 l).1, (step s i).2 ++ (run step (step s i).1 l).2) := rfl

theorem run_singleton (s : σ) (i : ι) : run step s [i] = step s i := by
  simp [run_cons]

theorem run_append (s : σ) (l l' : List ι) :
    run step s (l ++ l') =
      ((run step (run step s l).1 l').1, (run step s l).2 ++ (run step (run step s l).1 l').2) := by
  induction l generalizing s with
  | nil => rfl
  | cons i l ih =>
      simp only [List.cons_append, run_cons, ih, List.append_assoc]

/-- What each step keeps, a run keeps; and what each step puts out, a run puts out. -/
theorem run_invariant {P : σ → Prop} {Q : ο → Prop}
    (hstep : ∀ s i, P s → P (step s i).1 ∧ ∀ o ∈ (step s i).2, Q o) {s : σ} (hs : P s)
    (l : List ι) : P (run step s l).1 ∧ ∀ o ∈ (run step s l).2, Q o := by
  induction l generalizing s with
  | nil => exact ⟨hs, by simp⟩
  | cons i l ih =>
      obtain ⟨hnext, hout⟩ := hstep s i hs
      obtain ⟨hlast, hrest⟩ := ih hnext
      refine ⟨hlast, ?_⟩
      intro o ho
      rcases List.mem_append.1 ho with ho | ho
      · exact hout o ho
      · exact hrest o ho

/-- **A machine for pieces does what a machine for single inputs does**, up to the map that breaks
its outputs down. -/
def Cuts (break_ : ο → List ο) (step : σ → ι → σ × List ο) (steps : σ → List ι → σ × List ο) :
    Prop :=
  ∀ s l, (steps s l).1 = (run step s l).1 ∧
    (steps s l).2.flatMap break_ = (run step s l).2.flatMap break_

/-- **How the inputs are cut into pieces does not matter.** -/
theorem Cuts.run_flatten {break_ : ο → List ο} {steps : σ → List ι → σ × List ο}
    (h : Cuts break_ step steps) (s : σ) (pieces : List (List ι)) :
    (run steps s pieces).1 = (run step s pieces.flatten).1 ∧
      (run steps s pieces).2.flatMap break_ = (run step s pieces.flatten).2.flatMap break_ := by
  induction pieces generalizing s with
  | nil => exact ⟨rfl, rfl⟩
  | cons piece pieces ih =>
      obtain ⟨hstate, hout⟩ := h s piece
      obtain ⟨hstate', hout'⟩ := ih (steps s piece).1
      rw [run_cons, List.flatten_cons, run_append, List.flatMap_append, List.flatMap_append]
      rw [hstate', hout', hstate, hout]
      exact ⟨rfl, rfl⟩

end Transducer
