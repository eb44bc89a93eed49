/-
**Rows of calls.**

A row of calls is made one after the other, up to the first that returns something else than a good
result.  Each call may also not return at all.

What a row does is told by a triple: from the states of the precondition, a row that comes to its
end ends in a state of the postcondition, and a row that stops at a call stops in a state that the
exit condition allows for that call.

Nothing here is about a particular program.

Main definitions:

* `CallRow.run` — the row;
* `CallRow.Triple` — what a row does;
* `CallRow.Passes` — every call of a row returns a good result;
* `CallRow.codes` — what the calls would return, if no call ended the row.

Main results:

* `CallRow.Triple.nil`, `CallRow.Triple.one`, `CallRow.Triple.append` — the rules for the empty row,
  for one call, and for a row behind another;
* `CallRow.run_eq_stopped` — a row stops at the first call whose result is not good;
* `CallRow.find_codes` — a row stops with the first of the codes that is not good.
-/

import Mathlib.Data.List.Basic

set_option relaxedAutoImplicit false
set_option autoImplicit false

namespace CallRow

universe u₁ u₂ u₃ u₄

variable {ε : Type u₁} {σ : Type u₂} {ι : Type u₃} {ο : Type u₄}

/-- **The row**: at its end with `none`, or stopped at a call, with what the call has returned. -/
def run (step : σ → ι → Except ε (ο × σ)) (good : ο → Prop) [DecidablePred good] :
    σ → List ι → Except ε (Option (ι × ο) × σ)
  | s, [] => .ok (none, s)
  | s, c :: cs =>
      match step s c with
      | .error e => .error e
      | .ok r => if good r.1 then run step good r.2 cs else .ok (some (c, r.1), r.2)

variable (step : σ → ι → Except ε (ο × σ)) (good : ο → Prop) [DecidablePred good]

/-- **What a row does** from the states of `P`: it ends in a state of `Q`, or stops at a call in a
state that `X` allows for the call. -/
structure Triple (P : σ → Prop) (cs : List ι) (Q : σ → Prop) (X : ι → σ → Prop) : Prop where
  ends : ∀ s s', P s → run step good s cs = .ok (none, s') → Q s'
  stops : ∀ s c o s', P s → run step good s cs = .ok (some (c, o), s') → X c s'

variable {step good}

/-- A row behind another. -/
theorem run_append (s : σ) (cs ds : List ι) :
    run step good s (cs ++ ds) =
      match run step good s cs with
      | .error e => .error e
      | .ok (none, s') => run step good s' ds
      | .ok (some stop, s') => .ok (some stop, s') := by
  induction cs generalizing s with
  | nil => rfl
  | cons c cs ih =>
      rw [List.cons_append, run, run]
      cases step s c with
      | error e => rfl
      | ok r =>
          dsimp only
          by_cases hgood : good r.1
          · rw [if_pos hgood, if_pos hgood, ih]
          · rw [if_neg hgood, if_neg hgood]

/-- **Every call of the row returns a good result**, and the last one leaves the state. -/
inductive Passes (step : σ → ι → Except ε (ο × σ)) (good : ο → Prop) : σ → List ι → σ → Prop
  | nil (s : σ) : Passes step good s [] s
  | cons {s t : σ} {c : ι} {cs : List ι} {r : ο × σ} (hstep : step s c = .ok r) (hgood : good r.1)
      (hrest : Passes step good r.2 cs t) : Passes step good s (c :: cs) t

/-- **A row stops at the first call whose result is not good.** -/
theorem run_eq_stopped {s t : σ} {cs : List ι} {c : ι} {o : ο} :
    run step good s cs = .ok (some (c, o), t) ↔
      ∃ pre post s', cs = pre ++ c :: post ∧ Passes step good s pre s' ∧
        step s' c = .ok (o, t) ∧ ¬ good o := by
  constructor
  · intro h
    induction cs generalizing s with
    | nil => cases h
    | cons d cs ih =>
        rw [run] at h
        cases hstep : step s d with
        | error e => rw [hstep] at h; cases h
        | ok r =>
            rw [hstep] at h
            dsimp only at h
            split_ifs at h with hgood
            · obtain ⟨pre, post, s', rfl, hpasses, hstop⟩ := ih h
              exact ⟨d :: pre, post, s', rfl, .cons hstep hgood hpasses, hstop⟩
            · cases h
              exact ⟨[], cs, s, rfl, .nil s, hstep, hgood⟩
  · rintro ⟨pre, post, s', rfl, hpasses, hstop, hbad⟩
    induction hpasses with
    | nil s =>
        rw [List.nil_append, run, hstop]
        exact if_neg hbad
    | cons hstep hgood hrest ih =>
        rw [List.cons_append, run, hstep]
        exact (if_pos hgood).trans (ih hstop)

variable {P Q R : σ → Prop} {X : ι → σ → Prop}

theorem Triple.nil : Triple step good P [] P X where
  ends := by
    intro s s' hP h
    cases h
    exact hP
  stops := by
    intro s c o s' hP h
    cases h

/-- **One call.** -/
theorem Triple.one {c : ι} (hgood : ∀ s r, P s → step s c = .ok r → good r.1 → Q r.2)
    (hbad : ∀ s r, P s → step s c = .ok r → ¬ good r.1 → X c r.2) :
    Triple step good P [c] Q X where
  ends := by
    intro s s' hP h
    rw [run] at h
    cases hstep : step s c with
    | error e => rw [hstep] at h; cases h
    | ok r =>
        rw [hstep] at h
        dsimp only at h
        split_ifs at h with hr
        · cases h
          exact hgood s r hP hstep hr
        · cases h
  stops := by
    intro s d o s' hP h
    rw [run] at h
    cases hstep : step s c with
    | error e => rw [hstep] at h; cases h
    | ok r =>
        rw [hstep] at h
        dsimp only at h
        split_ifs at h with hr
        · cases h
        · cases h
          exact hbad s r hP hstep hr

/-- **A row behind another.** -/
theorem Triple.append {cs ds : List ι} (h : Triple step good P cs Q X)
    (h' : Triple step good Q ds R X) : Triple step good P (cs ++ ds) R X where
  ends := by
    intro s s' hP hrun
    rw [run_append] at hrun
    split at hrun
    · cases hrun
    · next t ht => exact h'.ends t s' (h.ends s t hP ht) hrun
    · cases hrun
  stops := by
    intro s c o s' hP hrun
    rw [run_append] at hrun
    split at hrun
    · cases hrun
    · next t ht => exact h'.stops t c o s' (h.ends s t hP ht) hrun
    · next stop t ht =>
        cases hrun
        exact h.stops s c o s' hP ht

/-! ### Codes -/

section Codes

variable (step)

/-- The state behind a call, or in front of it if it does not return. -/
def next (s : σ) (c : ι) : σ :=
  match step s c with
  | .error _ => s
  | .ok r => r.2

/-- The state behind a row that no call ends. -/
def after (s : σ) (cs : List ι) : σ := cs.foldl (next step) s

/-- **The codes of a row**: `code` tells what a call returns in a state. -/
def codes (code : σ → ι → ο) : σ → List ι → List ο
  | _, [] => []
  | s, c :: cs => code s c :: codes code (next step s c) cs

variable {step} {code : σ → ι → ο}

theorem codes_append (s : σ) (cs ds : List ι) :
    codes step code s (cs ++ ds) = codes step code s cs ++ codes step code (after step s cs) ds := by
  induction cs generalizing s with
  | nil => rfl
  | cons c cs ih => exact congrArg (code s c :: ·) (ih (next step s c))

theorem length_codes (s : σ) (cs : List ι) : (codes step code s cs).length = cs.length := by
  induction cs generalizing s with
  | nil => rfl
  | cons c cs ih => exact congrArg (· + 1) (ih (next step s c))

/-- **A row stops with the first code that is not good**, or comes to its end if there is none. -/
theorem find_codes (hcode : ∀ s c r, step s c = .ok r → r.1 = code s c) {s : σ} {cs : List ι}
    {o : Option (ι × ο) × σ} (h : run step good s cs = .ok o) :
    (codes step code s cs).find? (fun ret => ¬ good ret) = o.1.map Prod.snd := by
  induction cs generalizing s with
  | nil => cases h; rfl
  | cons c cs ih =>
      rw [run] at h
      cases hstep : step s c with
      | error e => rw [hstep] at h; cases h
      | ok r =>
          rw [hstep] at h
          have hnext : next step s c = r.2 := by rw [next, hstep]
          rw [codes, ← hcode s c r hstep, hnext]
          dsimp only at h
          split_ifs at h with hgood
          · rw [List.find?_cons_of_neg (by simpa using hgood)]
            exact ih h
          · cases h
            rw [List.find?_cons_of_pos (by simpa using hgood)]
            rfl

end Codes

end CallRow
