/-
**The Q method.**

Two ends negotiate a switch.  Either may ask for it to be turned on or off, and then has to be
answered; both may ask at the same time, and an end may change its mind while its request is still
on the way.  Each end keeps one of six states: the switch is off or on, or it has been asked to be
turned off or on, and in that case the opposite may be wanted by now.

The invariant is a table.  It lists, for what the two ends have settled on or ask for, what can be
on the way between them, together with the number of messages that are still to be heard.  A wish
for the opposite stands for one more request, and adds two to that number.

An end that is told that the switch is off, and wants it on by now, has to ask for it.  An end that
forgets to do so is modelled too: `again` tells whether it asks.

Main definitions:

* `State`, `answer`, `ask` — one end;
* `Link` — two ends, and the messages between them;
* `Link.Owes` — the invariant;
* `Reaches` — runs, with the number of requests and of messages heard.

Main results:

* `Reaches.heard_le` — at most two messages are heard for a request, however the steps interleave;
* `Reaches.agree` — when nothing is on the way, both ends have settled on the same;
* `Reaches.not_opposed` — when an end forgets to ask again, they have still not settled on
  different things.
-/

import Mathlib

set_option relaxedAutoImplicit false
set_option autoImplicit false

namespace QMethod

/-! ### One end -/

/-- What an end keeps.  In the last two states it wants the opposite of what it has asked for. -/
inductive State
  | no
  | yes
  | wantNo
  | wantYes
  | wantNoOp
  | wantYesOp
  deriving DecidableEq, Repr

instance : Fintype State :=
  ⟨{.no, .yes, .wantNo, .wantYes, .wantNoOp, .wantYesOp}, by intro s; cases s <;> decide⟩

/-- What an end makes of a message, and what it sends.  It lets the switch be turned on if it is
`allowed`. -/
def answer (again allowed : Bool) : State → Bool → State × Option Bool
  | .no, true => if allowed then (.yes, some true) else (.no, some false)
  | .no, false => (.no, none)
  | .yes, true => (.yes, none)
  | .yes, false => (.no, some false)
  | .wantNo, _ => (.no, none)
  | .wantNoOp, true => (.yes, none)
  | .wantNoOp, false => (.wantYes, if again then some true else none)
  | .wantYes, true => (.yes, none)
  | .wantYes, false => (.no, none)
  | .wantYesOp, true => (.wantNo, some false)
  | .wantYesOp, false => (.no, none)

/-- An end is told by its user to have the switch turned on or off. -/
def ask : State → Bool → State × Option Bool
  | .no, true => (.wantYes, some true)
  | .wantNo, true => (.wantNoOp, none)
  | .wantYesOp, true => (.wantYes, none)
  | .yes, false => (.wantNo, some false)
  | .wantYes, false => (.wantYesOp, none)
  | .wantNoOp, false => (.wantNo, none)
  | s, _ => (s, none)

/-- The state without the wish for the opposite. -/
def State.base : State → State
  | .wantNoOp => .wantNo
  | .wantYesOp => .wantYes
  | s => s

/-- One more request is to come. -/
def State.opposite : State → ℕ
  | .wantNoOp => 1
  | .wantYesOp => 1
  | _ => 0

/-! ### Two ends -/

/-- Two ends: `there` is on the way from the near one to the far one, `back` the other way. -/
@[ext]
structure Link where
  near : State
  far : State
  there : List Bool
  back : List Bool
  deriving DecidableEq

/-- The other end's view. -/
def Link.swap (l : Link) : Link := ⟨l.far, l.near, l.back, l.there⟩

/-- Nothing is on the way. -/
def Link.Quiet (l : Link) : Prop := l.there = [] ∧ l.back = []

/-- The near end hears the message `on`. -/
def Link.nearHears (again allowed : Bool) (l : Link) (on : Bool) (rest : List Bool) : Link :=
  ⟨(answer again allowed l.near on).1, l.far,
    l.there ++ (answer again allowed l.near on).2.toList, rest⟩

/-- The near end is told to ask. -/
def Link.nearAsks (l : Link) (on : Bool) : Link :=
  ⟨(ask l.near on).1, l.far, l.there ++ (ask l.near on).2.toList, l.back⟩

/-- What can be on the way, when both ends ask again: the messages in both directions, and how
many are still to be heard. -/
def onTheWay : State → State → List (List Bool × List Bool × ℕ)
  | .no, .no => [([], [], 0)]
  | .yes, .yes => [([], [], 0)]
  | .no, .wantNo => [([false], [], 1)]
  | .wantNo, .no => [([], [false], 1)]
  | .no, .wantYes => [([], [true], 2), ([false], [], 1)]
  | .wantYes, .no => [([true], [], 2), ([], [false], 1)]
  | .yes, .wantNo => [([], [false], 2)]
  | .wantNo, .yes => [([false], [], 2)]
  | .yes, .wantYes => [([true], [], 1)]
  | .wantYes, .yes => [([], [true], 1)]
  | .wantNo, .wantNo => [([false], [false], 2)]
  | .wantNo, .wantYes => [([], [false, true], 3), ([true, false], [], 3)]
  | .wantYes, .wantNo => [([false, true], [], 3), ([], [true, false], 3)]
  | .wantYes, .wantYes => [([true], [true], 2), ([], [false, true], 3), ([false, true], [], 3)]
  | _, _ => []

/-- What can be on the way besides, when an end forgets to ask again: it waits for an answer that
will not come. -/
def stranded : State → State → List (List Bool × List Bool × ℕ)
  | .no, .wantNo => [([], [], 0)]
  | .wantNo, .no => [([], [], 0)]
  | .no, .wantYes => [([], [], 0)]
  | .wantYes, .no => [([], [], 0)]
  | .yes, .wantYes => [([], [], 0)]
  | .wantYes, .yes => [([], [], 0)]
  | .wantNo, .wantYes => [([], [true], 1), ([], [false], 1), ([false], [], 1)]
  | .wantYes, .wantNo => [([true], [], 1), ([false], [], 1), ([], [false], 1)]
  | .wantYes, .wantYes => [([], [], 0), ([], [true], 1), ([true], [], 1)]
  | _, _ => []

/-- What can be on the way; `again` tells whether both ends ask again. -/
def traffic (again : Bool) (near far : State) : List (List Bool × List Bool × ℕ) :=
  onTheWay near far ++ if again then [] else stranded near far

/-- How many messages are still to be heard when `n` are due for what is on the way: those of
requests that are still to be made are added. -/
def due (near far : State) (n : ℕ) : ℕ := n + 2 * (near.opposite + far.opposite)

/-- **The invariant**: what is on the way is in the table, and `n` messages are still to be heard. -/
def Link.Owes (again : Bool) (l : Link) (n : ℕ) : Prop :=
  ∃ e ∈ traffic again l.near.base l.far.base, e.1 = l.there ∧ e.2.1 = l.back ∧
    n = due l.near l.far e.2.2

/-- The table lists the link, with at most `bound` messages to be heard. -/
def Link.listed (again : Bool) (l : Link) (bound : ℕ) : Bool :=
  (traffic again l.near.base l.far.base).any fun e =>
    e.1 = l.there ∧ e.2.1 = l.back ∧ due l.near l.far e.2.2 ≤ bound

theorem Link.owes_of_listed {again : Bool} {l : Link} {bound : ℕ} (h : l.listed again bound = true) :
    ∃ n ≤ bound, l.Owes again n := by
  obtain ⟨e, he, hd⟩ := List.any_eq_true.1 h
  obtain ⟨hthere, hback, hle⟩ := of_decide_eq_true hd
  exact ⟨_, hle, e, he, hthere, hback, rfl⟩

/-! ### The table, row by row -/

theorem traffic_swap : ∀ again : Bool, ∀ near far : State, ∀ e ∈ traffic again near far,
    (e.2.1, e.1, e.2.2) ∈ traffic again far near := by
  decide +kernel

/-- From each row a request leads to a row, and two more messages are to be heard at most. -/
theorem traffic_asks : ∀ again on : Bool, ∀ near far : State,
    ∀ e ∈ traffic again near.base far.base,
      (Link.nearAsks ⟨near, far, e.1, e.2.1⟩ on).listed again (due near far e.2.2 + 2) = true := by
  decide +kernel

/-- From each row a message that is heard leads to a row, and one less is to be heard. -/
theorem traffic_hears : ∀ strict again allowed : Bool, (strict = true → again = true) →
    ∀ near far : State, ∀ e ∈ traffic strict near.base far.base, ∀ on ∈ e.2.1.head?,
      1 ≤ due near far e.2.2 ∧
        (Link.nearHears again allowed ⟨near, far, e.1, e.2.1⟩ on e.2.1.tail).listed strict
          (due near far e.2.2 - 1) = true := by
  decide +kernel

/-- With nothing on the way, the ends are as the table has it. -/
theorem traffic_quiet : ∀ near far : State, ∀ e ∈ traffic true near.base far.base,
    e.1 = [] → e.2.1 = [] → (near = .no ∧ far = .no) ∨ (near = .yes ∧ far = .yes) := by
  decide +kernel

theorem traffic_not_opposed : ∀ again : Bool, traffic again .yes .no = [] := by
  decide +kernel

theorem traffic_short : ∀ again : Bool, ∀ near far : State, ∀ e ∈ traffic again near far,
    e.1.length + e.2.1.length ≤ e.2.2 := by
  decide +kernel

/-! ### What a step preserves -/

section

variable {again : Bool} {l : Link} {n : ℕ}

theorem Link.Owes.swap (h : l.Owes again n) : l.swap.Owes again n := by
  obtain ⟨e, he, hthere, hback, rfl⟩ := h
  refine ⟨(e.2.1, e.1, e.2.2), traffic_swap _ _ _ e he, hback, hthere, ?_⟩
  simp only [due, Link.swap]
  omega

theorem Link.Owes.nearAsks (h : l.Owes again n) (on : Bool) :
    ∃ m ≤ n + 2, (l.nearAsks on).Owes again m := by
  obtain ⟨near, far, there, back⟩ := l
  obtain ⟨e, he, rfl, rfl, rfl⟩ := h
  exact Link.owes_of_listed (traffic_asks again on near far e he)

theorem Link.Owes.nearHears (h : l.Owes again n) {again' : Bool}
    (hagain : again = true → again' = true) (allowed : Bool) {on : Bool} {rest : List Bool}
    (hback : l.back = on :: rest) :
    ∃ m, m + 1 ≤ n ∧ (l.nearHears again' allowed on rest).Owes again m := by
  obtain ⟨near, far, there, back⟩ := l
  obtain ⟨e, he, rfl, heback, rfl⟩ := h
  have hhead : e.2.1 = on :: rest := heback.trans hback
  obtain ⟨hpos, hlisted⟩ :=
    traffic_hears again again' allowed hagain near far e he on (by simp [hhead])
  rw [hhead, List.tail_cons] at hlisted
  obtain ⟨m, hm, howes⟩ := Link.owes_of_listed hlisted
  refine ⟨m, ?_, howes⟩
  show m + 1 ≤ due near far e.2.2
  omega

end

/-! ### Runs -/

/-- Both ends start with the switch off. -/
def Link.start : Link := ⟨.no, .no, [], []⟩

/-- **Runs**, in any order of the steps: the link, how many requests have been made and how many
messages have been heard.  With `again`, both ends ask again. -/
inductive Reaches (again : Bool) : Link → ℕ → ℕ → Prop
  | start : Reaches again .start 0 0
  | nearAsks {l : Link} {asked heard : ℕ} (on : Bool) :
      Reaches again l asked heard → Reaches again (l.nearAsks on) (asked + 1) heard
  | farAsks {l : Link} {asked heard : ℕ} (on : Bool) :
      Reaches again l asked heard → Reaches again (l.swap.nearAsks on).swap (asked + 1) heard
  | nearHears {l : Link} {asked heard : ℕ} {again' : Bool} (allowed : Bool) {on : Bool}
      {rest : List Bool} (hagain : again = true → again' = true) (hback : l.back = on :: rest) :
      Reaches again l asked heard →
        Reaches again (l.nearHears again' allowed on rest) asked (heard + 1)
  | farHears {l : Link} {asked heard : ℕ} {again' : Bool} (allowed : Bool) {on : Bool}
      {rest : List Bool} (hagain : again = true → again' = true) (hthere : l.there = on :: rest) :
      Reaches again l asked heard →
        Reaches again (l.swap.nearHears again' allowed on rest).swap asked (heard + 1)

section

variable {again : Bool} {l : Link} {asked heard : ℕ}

/-- A run seen from the other end. -/
theorem Reaches.swap (h : Reaches again l asked heard) : Reaches again l.swap asked heard := by
  induction h with
  | start => exact Reaches.start
  | nearAsks on _ ih => exact Reaches.farAsks on ih
  | farAsks on _ ih => exact Reaches.nearAsks on ih
  | nearHears allowed hagain hback _ ih => exact Reaches.farHears allowed hagain hback ih
  | farHears allowed hagain hthere _ ih => exact Reaches.nearHears allowed hagain hthere ih

/-- Each request pays for two messages. -/
theorem Reaches.owes (h : Reaches again l asked heard) :
    ∃ n, l.Owes again n ∧ heard + n ≤ 2 * asked := by
  induction h with
  | start => exact ⟨0, ⟨([], [], 0), by cases again <;> decide, rfl, rfl, rfl⟩, le_refl 0⟩
  | nearAsks on _ ih =>
      obtain ⟨n, howes, hle⟩ := ih
      obtain ⟨m, hm, howes'⟩ := howes.nearAsks on
      exact ⟨m, howes', by omega⟩
  | farAsks on _ ih =>
      obtain ⟨n, howes, hle⟩ := ih
      obtain ⟨m, hm, howes'⟩ := howes.swap.nearAsks on
      exact ⟨m, howes'.swap, by omega⟩
  | nearHears allowed hagain hback _ ih =>
      obtain ⟨n, howes, hle⟩ := ih
      obtain ⟨m, hm, howes'⟩ := howes.nearHears hagain allowed hback
      exact ⟨m, howes', by omega⟩
  | farHears allowed hagain hthere _ ih =>
      obtain ⟨n, howes, hle⟩ := ih
      obtain ⟨m, hm, howes'⟩ := howes.swap.nearHears hagain allowed hthere
      exact ⟨m, howes'.swap, by omega⟩

/-- **At most two messages for a request**: those that were heard and those on the way. -/
theorem Reaches.heard_le (h : Reaches again l asked heard) :
    heard + l.there.length + l.back.length ≤ 2 * asked := by
  obtain ⟨n, ⟨e, he, hthere, hback, hn⟩, hle⟩ := h.owes
  have hshort := traffic_short again _ _ e he
  rw [hthere, hback] at hshort
  unfold due at hn
  omega

/-- **When nothing is on the way, the ends agree**, and neither waits. -/
theorem Reaches.agree (h : Reaches true l asked heard) (hquiet : l.Quiet) :
    (l.near = .no ∧ l.far = .no) ∨ (l.near = .yes ∧ l.far = .yes) := by
  obtain ⟨n, ⟨e, he, hthere, hback, -⟩, -⟩ := h.owes
  exact traffic_quiet l.near l.far e he (hthere.trans hquiet.1) (hback.trans hquiet.2)

/-- The ends never settle on different things. -/
theorem Reaches.not_opposed (h : Reaches again l asked heard) :
    ¬ (l.near = .yes ∧ l.far = .no) ∧ ¬ (l.near = .no ∧ l.far = .yes) := by
  obtain ⟨n, howes, -⟩ := h.owes
  have hnone : ∀ k : Link, k.Owes again n → ¬ (k.near = .yes ∧ k.far = .no) := by
    rintro k ⟨e, he, -⟩ ⟨hnear, hfar⟩
    rw [hnear, hfar] at he
    have hnil : e ∈ traffic again .yes .no := he
    rw [traffic_not_opposed] at hnil
    exact absurd hnil (List.not_mem_nil)
  exact ⟨hnone l howes, fun hopp => hnone l.swap howes.swap ⟨hopp.2, hopp.1⟩⟩

end

end QMethod
