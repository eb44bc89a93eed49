/-
**Runs of a step function that may fault.**

A program that is driven by its environment is a step function `σ → ι → Except ε (ο × σ)`: in a
state, on an input, it either faults or returns an output and a new state.  This module runs such
a function on a list of inputs and records, for every input, the output and the state after it.
A fault ends the run.

Nothing here is about a particular program: states, inputs, outputs and faults are arbitrary types.

Main definitions:

* `FaultRun.trace` — the recorded run;
* `FaultRun.Along` — a property of the steps of a run;
* `FaultRun.Reaches` — a state is reached by some run that does not fault.

Main results:

* `FaultRun.trace_append` — a run on `is ++ js` is a run on `is` followed by a run on `js`;
* `FaultRun.trace_invariant` — an invariant kept by every step holds along every run;
* `FaultRun.Reaches.invariant` — and in every state that is reached;
* `FaultRun.Along.of_kept`, `FaultRun.along_iff`, `FaultRun.along_iff_of_kept` — properties of steps
  that imply each other where an invariant holds do so along every run.
-/

import Mathlib.Logic.Basic
import Mathlib.Data.List.Basic

set_option relaxedAutoImplicit false
set_option autoImplicit false

namespace FaultRun

universe u₁ u₂ u₃ u₄

variable {ε : Type u₁} {σ : Type u₂} {ι : Type u₃} {ο : Type u₄}

/-! ### Traces -/

/-- **The run of `step` on a list of inputs**: for each input the output and the state after it,
and the last state. -/
def trace (step : σ → ι → Except ε (ο × σ)) : σ → List ι → Except ε (List (ο × σ) × σ)
  | s, [] => .ok ([], s)
  | s, i :: is =>
      match step s i with
      | .error e => .error e
      | .ok o =>
          match trace step o.2 is with
          | .error e => .error e
          | .ok tr => .ok (o :: tr.1, tr.2)

variable {step : σ → ι → Except ε (ο × σ)}

@[simp] theorem trace_nil (s : σ) : trace step s [] = .ok ([], s) := rfl

theorem trace_cons_ok {s t : σ} {i : ι} {is : List ι} {o : ο × σ} {tr : List (ο × σ)}
    (h : step s i = .ok o) (ht : trace step o.2 is = .ok (tr, t)) :
    trace step s (i :: is) = .ok (o :: tr, t) := by
  simp only [trace, h, ht]

theorem trace_cons_error {s : σ} {i : ι} {e : ε} (h : step s i = .error e) (is : List ι) :
    trace step s (i :: is) = .error e := by
  simp only [trace, h]

theorem trace_cons_error_tail {s : σ} {i : ι} {is : List ι} {o : ο × σ} {e : ε}
    (h : step s i = .ok o) (ht : trace step o.2 is = .error e) :
    trace step s (i :: is) = .error e := by
  simp only [trace, h, ht]

/-- A run that does not fault starts with a step that does not. -/
theorem trace_cons_eq_ok {s t : σ} {i : ι} {is : List ι} {tr : List (ο × σ)} :
    trace step s (i :: is) = .ok (tr, t) ↔
      ∃ o tr', step s i = .ok o ∧ trace step o.2 is = .ok (tr', t) ∧ tr = o :: tr' := by
  constructor
  · intro h
    cases hs : step s i with
    | error e => rw [trace_cons_error hs] at h; cases h
    | ok o =>
        cases ht : trace step o.2 is with
        | error e => rw [trace_cons_error_tail hs ht] at h; cases h
        | ok tr' =>
            rw [trace_cons_ok hs ht] at h
            cases h
            exact ⟨o, tr'.1, rfl, ht, rfl⟩
  · rintro ⟨o, tr', hs, ht, rfl⟩
    exact trace_cons_ok hs ht

/-- **A run on `is ++ js` is a run on `is` followed by a run on `js`.** -/
theorem trace_append {s t : σ} {is : List ι} {tr : List (ο × σ)}
    (h : trace step s is = .ok (tr, t)) {u : σ} {js : List ι} {tr' : List (ο × σ)}
    (h' : trace step t js = .ok (tr', u)) : trace step s (is ++ js) = .ok (tr ++ tr', u) := by
  induction is generalizing s tr with
  | nil => cases h; exact h'
  | cons i is ih =>
      obtain ⟨o, tr₀, hs, ht, rfl⟩ := trace_cons_eq_ok.1 h
      exact trace_cons_ok hs (ih ht)

/-- A run on `is ++ js` that does not fault splits. -/
theorem trace_append_inv {s u : σ} {is js : List ι} {tr : List (ο × σ)}
    (h : trace step s (is ++ js) = .ok (tr, u)) :
    ∃ tr₁ t tr₂, trace step s is = .ok (tr₁, t) ∧ trace step t js = .ok (tr₂, u) ∧
      tr = tr₁ ++ tr₂ := by
  induction is generalizing s tr with
  | nil => exact ⟨[], s, tr, rfl, h, rfl⟩
  | cons i is ih =>
      obtain ⟨o, tr₀, hs, ht, rfl⟩ := trace_cons_eq_ok.1 h
      obtain ⟨tr₁, t, tr₂, h₁, h₂, rfl⟩ := ih ht
      exact ⟨o :: tr₁, t, tr₂, trace_cons_ok hs h₁, h₂, rfl⟩

/-- A run records one entry for each input. -/
theorem trace_length {s t : σ} {is : List ι} {tr : List (ο × σ)}
    (h : trace step s is = .ok (tr, t)) : tr.length = is.length := by
  induction is generalizing s tr with
  | nil => cases h; rfl
  | cons i is ih =>
      obtain ⟨o, tr₀, _, ht, rfl⟩ := trace_cons_eq_ok.1 h
      simp [ih ht]

/-- Inputs that a state ignores leave a run where it is. -/
theorem trace_of_stutter {s : σ} {is : List ι} (f : ι → ο)
    (h : ∀ i ∈ is, step s i = .ok (f i, s)) :
    trace step s is = .ok (is.map fun i => (f i, s), s) := by
  induction is with
  | nil => rfl
  | cons i is ih =>
      exact trace_cons_ok (h i (by simp)) (ih fun j hj => h j (List.mem_cons_of_mem i hj))

/-! ### Invariants -/

/-- **An invariant kept by every step holds in the last state of every run.** -/
theorem trace_invariant {Inv : σ → Prop}
    (hstep : ∀ s i o, Inv s → step s i = .ok o → Inv o.2) {s t : σ} {is : List ι}
    {tr : List (ο × σ)} (hs : Inv s) (h : trace step s is = .ok (tr, t)) : Inv t := by
  induction is generalizing s tr with
  | nil => cases h; exact hs
  | cons i is ih =>
      obtain ⟨o, tr₀, hi, ht, rfl⟩ := trace_cons_eq_ok.1 h
      exact ih (hstep s i o hs hi) ht

/-- The states reached from `s` by a run that does not fault. -/
def Reaches (step : σ → ι → Except ε (ο × σ)) (s t : σ) : Prop :=
  ∃ is tr, trace step s is = .ok (tr, t)

theorem Reaches.invariant {Inv : σ → Prop}
    (hstep : ∀ s i o, Inv s → step s i = .ok o → Inv o.2) {s t : σ} (hs : Inv s)
    (h : Reaches step s t) : Inv t := by
  obtain ⟨is, tr, ht⟩ := h
  exact trace_invariant hstep hs ht

/-! ### Properties of the steps of a run -/

/-- `Q` holds of every state and input that the run meets. -/
def Along (step : σ → ι → Except ε (ο × σ)) (Q : σ → ι → Prop) : σ → List ι → Prop
  | _, [] => True
  | s, i :: is => Q s i ∧ ∀ o, step s i = .ok o → Along step Q o.2 is

/-- The last step of a run that does not fault has what holds along the run. -/
theorem Along.last {Q : σ → ι → Prop} {s t : σ} {is : List ι} {i : ι} {tr : List (ο × σ)}
    (h : Along step Q s (is ++ [i])) (ht : trace step s (is ++ [i]) = .ok (tr, t)) :
    ∃ u o, Q u i ∧ step u i = .ok (o, t) := by
  induction is generalizing s tr with
  | nil =>
      obtain ⟨o, tr', hs, hnil, -⟩ := trace_cons_eq_ok.1 ht
      cases hnil
      exact ⟨s, o.1, h.1, hs⟩
  | cons j is ih =>
      obtain ⟨o, tr', hs, ht', -⟩ := trace_cons_eq_ok.1 ht
      exact ih (h.2 o hs) ht'

/-- **A property of steps that implies another where the invariant holds implies it along every
run**, if the steps that have it keep the invariant. -/
theorem Along.of_kept {Inv : σ → Prop} {Q R : σ → ι → Prop}
    (hstep : ∀ s i o, Inv s → Q s i → step s i = .ok o → Inv o.2)
    (hQR : ∀ s i, Inv s → Q s i → R s i) {s : σ} (hs : Inv s) {is : List ι}
    (h : Along step Q s is) : Along step R s is := by
  induction is generalizing s with
  | nil => trivial
  | cons i is ih =>
      obtain ⟨hQ, hrest⟩ := h
      exact ⟨hQR s i hs hQ, fun o ho => ih (hstep s i o hs hQ ho) (hrest o ho)⟩

/-- An invariant kept by the steps that have a property holds in the last state of a run of them. -/
theorem Along.trace_invariant {Inv : σ → Prop} {Q : σ → ι → Prop}
    (hstep : ∀ s i o, Inv s → Q s i → step s i = .ok o → Inv o.2) {s t : σ} {is : List ι}
    {tr : List (ο × σ)} (hs : Inv s) (h : Along step Q s is) (ht : trace step s is = .ok (tr, t)) :
    Inv t := by
  induction is generalizing s tr with
  | nil => cases ht; exact hs
  | cons i is ih =>
      obtain ⟨o, tr₀, hi, ht', -⟩ := trace_cons_eq_ok.1 ht
      exact ih (hstep s i o hs h.1 hi) (h.2 o hi) ht'

/-- **Two properties of steps that agree where the invariant holds agree along every run**, if the
steps that have the property keep the invariant. -/
theorem along_iff_of_kept {Inv : σ → Prop} {Q R : σ → ι → Prop}
    (hstep : ∀ s i o, Inv s → Q s i → step s i = .ok o → Inv o.2)
    (hQR : ∀ s i, Inv s → (Q s i ↔ R s i)) {s : σ} (hs : Inv s) (is : List ι) :
    Along step Q s is ↔ Along step R s is :=
  ⟨fun h => h.of_kept hstep (fun s i hi => (hQR s i hi).1) hs,
    fun h => h.of_kept (fun s i o hi hR ho => hstep s i o hi ((hQR s i hi).2 hR) ho)
      (fun s i hi => (hQR s i hi).2) hs⟩

/-- The same, when every step keeps the invariant. -/
theorem along_iff {Inv : σ → Prop} {Q R : σ → ι → Prop}
    (hstep : ∀ s i o, Inv s → step s i = .ok o → Inv o.2)
    (hQR : ∀ s i, Inv s → (Q s i ↔ R s i)) {s : σ} (hs : Inv s) (is : List ι) :
    Along step Q s is ↔ Along step R s is :=
  along_iff_of_kept (fun s i o hinv _ ho => hstep s i o hinv ho) hQR hs is

end FaultRun
