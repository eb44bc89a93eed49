/-
**Whole runs of one doubly linked list.**

A list is created, any calls are made on it, and it is destroyed.  The calls and the answers of
`malloc` are the environment's; only a deletion from an empty list is excluded, which reads through
`NULL`.

Main definitions:

* `Wsn.ListOp`, `Wsn.listStep` — a call on the list;
* `Wsn.ListHolds` — the list holds the given items, and its nodes are all that was added to the
  memory since the list was created;
* `Wsn.Effect` — what a call does to the items and to the data destroyed.

Main results:

* `Wsn.Effect.conserves` — an item is in the list or destroyed, and not both;
* `Wsn.ListHolds.call` — what one call does;
* `Wsn.dlist_run_sound` — what a whole run does, up to and including `dlist_destroy`.
-/

import WsnPlatform.DList
import WsnPlatform.FaultRun

set_option relaxedAutoImplicit false
set_option autoImplicit false

namespace Wsn

open LinkedChain FaultRun

variable {α : Type}

/-! ### Calls -/

/-- A call on a list.  The environment proposes the place that `malloc` returns. -/
inductive ListOp (α : Type)
  | append (place : Option Addr) (data : α)
  | prepend (place : Option Addr) (data : α)
  | insert (place : Option Addr) (index : ℕ) (data : α)
  | delete (index : ℕ)

/-- The memory, and the list that the calls are made on. -/
abbrev ListState (α : Type) := Mem α × Option DList

/-- **A call on the list.** -/
def listStep (s : ListState α) : ListOp α → Exec (Ret × ListState α)
  | .append place data => dlistAppend s.1 s.2 place data
  | .prepend place data => dlistPrepend s.1 s.2 place data
  | .insert place index data => dlistInsert s.1 s.2 place index data
  | .delete index => dlistDelete s.1 s.2 index

/-- What is put into the list, and the place proposed for its node. -/
def ListOp.item : ListOp α → Option (Option Addr × α)
  | .append place data => some (place, data)
  | .prepend place data => some (place, data)
  | .insert place _ data => some (place, data)
  | .delete _ => none

/-- Nothing is deleted from an empty list. -/
def Allowed (s : ListState α) : ListOp α → Prop
  | .delete _ => ∃ l, s.2 = some l ∧ l.head ≠ none
  | _ => True

/-- `malloc` has no place for the node of the item. -/
def ListOp.AllocFails (m : Mem α) (op : ListOp α) : Prop :=
  ∃ place data, op.item = some (place, data) ∧ ∀ a, place = some a → m.nodes a ≠ none

/-- The item that a call has put into the list. -/
def putItem (op : ListOp α) : Ret → Option α
  | .ok => op.item.map Prod.snd
  | _ => none

/-- The items that a run has put into the list. -/
def putItems (ops : List (ListOp α)) (tr : List (Ret × ListState α)) : List α :=
  (ops.zip tr).filterMap fun c => putItem c.1 c.2.1

@[simp] theorem putItems_nil : putItems ([] : List (ListOp α)) [] = [] := rfl

theorem putItems_cons (op : ListOp α) (ops : List (ListOp α)) (o : Ret × ListState α)
    (tr : List (Ret × ListState α)) :
    putItems (op :: ops) (o :: tr) = (putItem op o.1).toList ++ putItems ops tr := by
  simp only [putItems, List.zip_cons_cons, List.filterMap_cons]
  cases putItem op o.1 <;> rfl

/-! ### What a call does to the items -/

/-- **What a call does** to the items of the list and to the data destroyed so far. -/
inductive Effect : List α → List α → ListOp α → Ret → List α → List α → Prop
  | append (items gone : List α) (place : Option Addr) (x : α) :
      Effect items gone (.append place x) .ok (items ++ [x]) gone
  | prepend (items gone : List α) (place : Option Addr) (x : α) :
      Effect items gone (.prepend place x) .ok (x :: items) gone
  | insert (pre post gone : List α) (place : Option Addr) (index : ℕ) (x : α) :
      pre.length = insertPosition (pre ++ post).length index →
      Effect (pre ++ post) gone (.insert place index x) .ok (pre ++ x :: post) gone
  | delete (pre post gone : List α) (x : α) :
      Effect (pre ++ x :: post) gone (.delete pre.length) .ok (pre ++ post) (gone ++ [x])
  | outside (items gone : List α) (index : ℕ) : items.length ≤ index →
      Effect items gone (.delete index) .ok items gone
  | oom (items gone : List α) (op : ListOp α) : op.item ≠ none → Effect items gone op .oom items gone

/-- **An item is in the list or destroyed, and not both.** -/
theorem Effect.conserves {items gone items' gone' : List α} {op : ListOp α} {r : Ret}
    (h : Effect items gone op r items' gone') :
    ∃ new, gone' = gone ++ new ∧ (new ++ items').Perm ((putItem op r).toList ++ items) := by
  cases h with
  | append _ _ place x =>
      have hperm : (items ++ [x]).Perm ([x] ++ items) := List.perm_append_comm
      exact ⟨[], (List.append_nil _).symm, hperm⟩
  | prepend _ _ place x => exact ⟨[], (List.append_nil _).symm, List.Perm.refl _⟩
  | insert pre post _ place index x hpos =>
      exact ⟨[], (List.append_nil _).symm, List.perm_middle⟩
  | delete pre post _ x =>
      have hperm : (x :: (pre ++ post)).Perm (pre ++ x :: post) := List.perm_middle.symm
      exact ⟨[x], rfl, hperm⟩
  | outside _ _ index hindex => exact ⟨[], (List.append_nil _).symm, List.Perm.refl _⟩
  | oom _ _ _ hitem => exact ⟨[], (List.append_nil _).symm, List.Perm.refl _⟩

/-! ### The invariant -/

/-- **The list holds the items**: a chain of nodes, linked in both directions, as many as the length
says.  Its nodes are all that was added to the memory `m₀`. -/
structure ListHolds (m₀ : Mem α) (s : ListState α) (l : DList) (cells : List (Addr × α)) :
    Prop where
  list : s.2 = some l
  represents : l.Represents s.1 cells
  dataDestroy : l.dataDestroy = true
  fresh : ∀ b ∈ cells.map Prod.fst, m₀.nodes b = none
  frame : ∀ b, b ∉ cells.map Prod.fst → s.1.nodes b = m₀.nodes b

theorem listHolds_create (m₀ : Mem α) :
    ListHolds m₀ (m₀, some (dlistCreate true)) (dlistCreate true) [] :=
  ⟨rfl, represents_create m₀ true, rfl, by simp, fun _ _ => rfl⟩

section Calls

variable {m₀ : Mem α} {s : ListState α} {l : DList} {cells : List (Addr × α)}

/-- A list that holds no item has no head. -/
theorem ListHolds.head_eq_none (h : ListHolds m₀ s l []) : l.head = none := by
  obtain ⟨_, -, hhead⟩ := h.represents.chain
  exact hhead.symm

/-- A node at a free place is added to the list. -/
theorem ListHolds.add {pre post : List (Addr × α)} (h : ListHolds m₀ s l (pre ++ post)) {a : Addr}
    (ha : s.1.nodes a = none) {x : α} {m' : Mem α} {l' : DList}
    (hrep : l'.Represents m' (pre ++ (a, x) :: post)) (hdestroy : l'.dataDestroy = l.dataDestroy)
    (hsame : ∀ b, b ∉ (pre ++ (a, x) :: post).map Prod.fst → m'.nodes b = s.1.nodes b) :
    ListHolds m₀ (m', some l') l' (pre ++ (a, x) :: post) := by
  have hout : a ∉ (pre ++ post).map Prod.fst := fun hmem => h.represents.mem_store hmem ha
  refine ⟨rfl, hrep, hdestroy.trans h.dataDestroy, fun b hb => ?_, fun b hb => ?_⟩
  · rw [List.map_append, List.map_cons, List.mem_append, List.mem_cons, or_left_comm] at hb
    rcases hb with rfl | hb
    · rw [← h.frame _ hout, ha]
    · refine h.fresh b ?_
      rwa [List.map_append, List.mem_append]
  · rw [hsame b hb]
    refine h.frame b fun hmem => hb ?_
    rw [List.map_append, List.map_cons, List.mem_append, List.mem_cons, or_left_comm]
    rw [List.map_append, List.mem_append] at hmem
    exact Or.inr hmem

/-- A node is taken out of the list and freed. -/
theorem ListHolds.remove {pre post : List (Addr × α)} {c : Addr × α}
    (h : ListHolds m₀ s l (pre ++ c :: post)) {m' : Mem α} {l' : DList}
    (hrep : l'.Represents m' (pre ++ post)) (hdestroy : l'.dataDestroy = l.dataDestroy)
    (hfree : m'.nodes c.1 = none)
    (hsame : ∀ b, b ∉ (pre ++ c :: post).map Prod.fst → m'.nodes b = s.1.nodes b) :
    ListHolds m₀ (m', some l') l' (pre ++ post) := by
  have hmem : ∀ b, b ∈ (pre ++ c :: post).map Prod.fst ↔
      b = c.1 ∨ b ∈ (pre ++ post).map Prod.fst := by
    intro b
    simp only [List.map_append, List.map_cons, List.mem_append, List.mem_cons]
    exact or_left_comm
  refine ⟨rfl, hrep, hdestroy.trans h.dataDestroy, fun b hb => ?_, fun b hb => ?_⟩
  · exact h.fresh b ((hmem b).2 (Or.inr hb))
  · rcases eq_or_ne b c.1 with rfl | hbc
    · rw [hfree, h.fresh _ ((hmem _).2 (Or.inl rfl))]
    · have hout : b ∉ (pre ++ c :: post).map Prod.fst := by
        rw [hmem, not_or]
        exact ⟨hbc, hb⟩
      rw [hsame b hout, h.frame b hout]

/-- **One call on the list**: what it returns, and what it does to the items, to the data destroyed
and to the memory. -/
structure CallSound (m₀ : Mem α) (s : ListState α) (cells : List (Addr × α)) (op : ListOp α)
    (r : Ret) (s' : ListState α) (l' : DList) (cells' : List (Addr × α)) : Prop where
  returns : listStep s op = .ok (r, s')
  holds : ListHolds m₀ s' l' cells'
  effect : Effect (cells.map Prod.snd) s.1.destroyed op r (cells'.map Prod.snd) s'.1.destroyed
  oom : r = .oom ↔ op.AllocFails s.1
  unchanged : r = .oom → s' = s

/-- A call that finds no place for a node. -/
theorem ListHolds.call_oom (h : ListHolds m₀ s l cells) {op : ListOp α}
    (hfails : op.AllocFails s.1) : CallSound m₀ s cells op .oom s l cells := by
  obtain ⟨m, lo⟩ := s
  obtain rfl : lo = some l := h.list
  obtain ⟨place, x, hitem, hused⟩ := hfails
  refine ⟨?_, h, .oom _ _ op (by simp [hitem]), iff_of_true rfl ⟨place, x, hitem, hused⟩,
    fun _ => rfl⟩
  cases op with
  | append place x =>
      cases hitem
      exact dlistInsert_oom l _ x hused
  | prepend place x =>
      cases hitem
      exact dlistInsert_oom l _ x hused
  | insert place index x =>
      cases hitem
      exact dlistInsert_oom l _ x hused
  | delete index => cases hitem

/-- An item whose node finds a place is put into the list. -/
theorem ListHolds.call_put (h : ListHolds m₀ s l cells) {op : ListOp α} {a : Addr} {x : α}
    (hitem : op.item = some (some a, x)) (ha : s.1.nodes a = none) :
    ∃ s' l' cells', CallSound m₀ s cells op .ok s' l' cells' := by
  have hnot : ¬ op.AllocFails s.1 := by
    rintro ⟨place, y, hitem', hused⟩
    rw [hitem] at hitem'
    cases hitem'
    exact hused a rfl ha
  have hret : Ret.ok = .oom ↔ op.AllocFails s.1 := iff_of_false (by simp) hnot
  obtain ⟨m, lo⟩ := s
  obtain rfl : lo = some l := h.list
  cases op with
  | append place x =>
      cases hitem
      obtain ⟨m', l', hrun, hrep, hdestroy, hdes, hsame⟩ := dlistAppend_spec h.represents ha x
      have heffect := Effect.append (cells.map Prod.snd) m.destroyed (some a) x
      refine ⟨(m', some l'), l', cells ++ [(a, x)], hrun, ?_, ?_, hret, nofun⟩
      · have happend : ListHolds m₀ (m, some l) l (cells ++ []) := by rwa [List.append_nil]
        exact happend.add ha hrep hdestroy hsame
      · rw [hdes, List.map_append]
        exact heffect
  | prepend place x =>
      cases hitem
      obtain ⟨m', l', hrun, hrep, hdestroy, hdes, hsame⟩ := dlistPrepend_spec h.represents ha x
      refine ⟨(m', some l'), l', (a, x) :: cells, hrun, ?_, ?_, hret, nofun⟩
      · have happend : ListHolds m₀ (m, some l) l ([] ++ cells) := h
        exact happend.add ha hrep hdestroy hsame
      · rw [hdes]
        exact .prepend _ _ _ x
  | insert place index x =>
      cases hitem
      obtain ⟨pre, post, m', l', rfl, hpos, hrun, hrep, hdestroy, hdes, hsame⟩ :=
        dlistInsert_spec h.represents ha index x
      refine ⟨(m', some l'), l', _, hrun, h.add ha hrep hdestroy hsame, ?_, hret, nofun⟩
      rw [hdes, List.map_append, List.map_append]
      refine .insert _ _ _ _ index x ?_
      simpa using hpos
  | delete index => cases hitem

/-- A deletion from a list that holds an item. -/
theorem ListHolds.call_delete (h : ListHolds m₀ s l cells) (hne : cells ≠ []) (index : ℕ) :
    ∃ s' l' cells', CallSound m₀ s cells (.delete index) .ok s' l' cells' := by
  have hret : Ret.ok = .oom ↔ (ListOp.delete index).AllocFails s.1 := by
    refine iff_of_false (by simp) ?_
    rintro ⟨_, _, hitem, -⟩
    cases hitem
  obtain ⟨m, lo⟩ := s
  obtain rfl : lo = some l := h.list
  rcases Nat.lt_or_ge index cells.length with hlt | hge
  · obtain ⟨pre, c, post, rfl, rfl⟩ :
        ∃ pre c post, cells = pre ++ c :: post ∧ pre.length = index := by
      refine ⟨cells.take index, cells[index], cells.drop (index + 1), ?_,
        List.length_take_of_le hlt.le⟩
      rw [← List.drop_eq_getElem_cons hlt, List.take_append_drop]
    obtain ⟨m', l', hrun, hrep, hdestroy, hdes, hfree, hsame⟩ := dlistDelete_spec h.represents
    refine ⟨(m', some l'), l', _, hrun, h.remove hrep hdestroy hfree hsame, ?_, hret, nofun⟩
    have heffect := Effect.delete (pre.map Prod.snd) (post.map Prod.snd) m.destroyed c.2
    rw [List.length_map] at heffect
    rw [hdes, if_pos h.dataDestroy, List.map_append, List.map_append]
    exact heffect
  · refine ⟨(m, some l), l, cells, dlistDelete_outside h.represents hne hge, h, ?_, hret, nofun⟩
    exact .outside _ _ index (by rwa [List.length_map])

/-- **One call on the list.** -/
theorem ListHolds.call (h : ListHolds m₀ s l cells) {op : ListOp α} (hop : Allowed s op) :
    ∃ r s' l' cells', CallSound m₀ s cells op r s' l' cells' := by
  by_cases hfails : op.AllocFails s.1
  · exact ⟨.oom, s, l, cells, h.call_oom hfails⟩
  cases hitem : op.item with
  | none =>
      cases op with
      | delete index =>
          obtain ⟨l', hl', hhead⟩ := hop
          have hll := Option.some.inj (h.list.symm.trans hl')
          have hne : cells ≠ [] := by
            rintro rfl
            exact hhead (hll ▸ h.head_eq_none)
          exact ⟨.ok, h.call_delete hne index⟩
      | append place x => cases hitem
      | prepend place x => cases hitem
      | insert place index x => cases hitem
  | some item =>
      obtain ⟨place, x⟩ := item
      obtain ⟨a, rfl, ha⟩ : ∃ a, place = some a ∧ s.1.nodes a = none := by
        by_contra hused
        push Not at hused
        exact hfails ⟨place, x, hitem, hused⟩
      exact ⟨.ok, h.call_put hitem ha⟩

end Calls

/-! ### Runs -/

/-- **A run of calls**, each with what the list holds before and after it. -/
inductive SoundRun (m₀ : Mem α) : ListState α → DList → List (Addr × α) → List (ListOp α) →
    List (Ret × ListState α) → ListState α → DList → List (Addr × α) → Prop
  | nil (s : ListState α) (l : DList) (cells : List (Addr × α)) :
      SoundRun m₀ s l cells [] [] s l cells
  | cons {s s' t : ListState α} {l l' k : DList} {cells cells' rest : List (Addr × α)}
      {op : ListOp α} {ops : List (ListOp α)} {r : Ret} {tr : List (Ret × ListState α)} :
      CallSound m₀ s cells op r s' l' cells' → SoundRun m₀ s' l' cells' ops tr t k rest →
      SoundRun m₀ s l cells (op :: ops) ((r, s') :: tr) t k rest

section Runs

variable {m₀ : Mem α} {s t : ListState α} {l k : DList} {cells rest : List (Addr × α)}
  {ops : List (ListOp α)} {tr : List (Ret × ListState α)}

/-- Calls that are allowed make a run. -/
theorem ListHolds.run (h : ListHolds m₀ s l cells) (hops : Along listStep Allowed s ops) :
    ∃ tr t k rest, trace listStep s ops = .ok (tr, t) ∧
      SoundRun m₀ s l cells ops tr t k rest ∧ ListHolds m₀ t k rest := by
  induction ops generalizing s l cells with
  | nil => exact ⟨[], s, l, cells, rfl, .nil s l cells, h⟩
  | cons op ops ih =>
      obtain ⟨hop, hops⟩ := hops
      obtain ⟨r, s', l', cells', hcall⟩ := h.call hop
      obtain ⟨tr, t, k, rest, htrace, hrun, hrest⟩ := ih hcall.holds (hops _ hcall.returns)
      exact ⟨(r, s') :: tr, t, k, rest, trace_cons_ok hcall.returns htrace, .cons hcall hrun, hrest⟩

/-- **Over a run**, what was put into the list is in the list or destroyed. -/
theorem SoundRun.conserves (h : SoundRun m₀ s l cells ops tr t k rest) :
    ∃ new, t.1.destroyed = s.1.destroyed ++ new ∧
      (new ++ rest.map Prod.snd).Perm (putItems ops tr ++ cells.map Prod.snd) := by
  induction h with
  | nil s l cells => exact ⟨[], (List.append_nil _).symm, List.Perm.refl _⟩
  | @cons s s' t l l' k cells cells' rest op ops r tr hcall _ ih =>
      obtain ⟨new₁, hdes₁, hperm₁⟩ := hcall.effect.conserves
      obtain ⟨new₂, hdes₂, hperm₂⟩ := ih
      refine ⟨new₁ ++ new₂, by rw [hdes₂, hdes₁, List.append_assoc], ?_⟩
      rw [putItems_cons]
      calc (new₁ ++ new₂) ++ rest.map Prod.snd
          = new₁ ++ (new₂ ++ rest.map Prod.snd) := List.append_assoc _ _ _
        List.Perm _ (new₁ ++ (putItems ops tr ++ cells'.map Prod.snd)) := hperm₂.append_left new₁
        List.Perm _ (putItems ops tr ++ (new₁ ++ cells'.map Prod.snd)) :=
            List.perm_append_comm_assoc ..
        List.Perm _ (putItems ops tr ++ ((putItem op r).toList ++ cells.map Prod.snd)) :=
            hperm₁.append_left _
        List.Perm _ ((putItem op r).toList ++ (putItems ops tr ++ cells.map Prod.snd)) :=
            List.perm_append_comm_assoc ..
        _ = (putItem op r).toList ++ putItems ops tr ++ cells.map Prod.snd :=
            (List.append_assoc _ _ _).symm

/-- Destroying the list leaves the memory that it started from. -/
theorem ListHolds.destroy (h : ListHolds m₀ s l cells) :
    ∃ m', dlistDestroy s.1 s.2 = .ok m' ∧ m'.nodes = m₀.nodes ∧
      m'.destroyed = s.1.destroyed ++ cells.map Prod.snd := by
  obtain ⟨m', hrun, hdes, hfree, hsame⟩ := dlistDestroy_spec h.represents
  rw [if_pos h.dataDestroy] at hdes
  refine ⟨m', by rw [h.list, hrun], funext fun b => ?_, hdes⟩
  by_cases hb : b ∈ cells.map Prod.fst
  · rw [hfree b hb, h.fresh b hb]
  · rw [hsame b hb, h.frame b hb]

end Runs

/-- **A whole run of a list**, from its creation to its destruction. -/
theorem dlist_run_sound (m₀ : Mem α) {ops : List (ListOp α)}
    (h : Along listStep Allowed (m₀, some (dlistCreate true)) ops) :
    ∃ tr s l cells m', trace listStep (m₀, some (dlistCreate true)) ops = .ok (tr, s) ∧
      SoundRun m₀ (m₀, some (dlistCreate true)) (dlistCreate true) [] ops tr s l cells ∧
      dlistDestroy s.1 s.2 = .ok m' ∧ m'.nodes = m₀.nodes ∧
      m'.destroyed = s.1.destroyed ++ cells.map Prod.snd ∧
      ∃ gone, m'.destroyed = m₀.destroyed ++ gone ∧ gone.Perm (putItems ops tr) := by
  obtain ⟨tr, s, l, cells, htrace, hrun, hholds⟩ := (listHolds_create m₀).run h
  obtain ⟨m', hdestroy, hnodes, hdes⟩ := hholds.destroy
  obtain ⟨new, hnew, hperm⟩ := hrun.conserves
  refine ⟨tr, s, l, cells, m', htrace, hrun, hdestroy, hnodes, hdes, new ++ cells.map Prod.snd, ?_,
    ?_⟩
  · rw [hdes, hnew, List.append_assoc]
  · simpa using hperm

/-- A node is appended and deleted, an allocation fails, and two more nodes are put in. -/
def sampleCalls : List (ListOp ℕ) :=
  [.append (some ⟨0, nodePlaces_pos⟩) 7, .delete 0, .prepend none 8,
    .append (some ⟨0, nodePlaces_pos⟩) 7, .insert (some ⟨1, by simp [nodePlaces]⟩) 1 9]

theorem sampleCalls_allowed :
    Along listStep Allowed (Mem.empty, some (dlistCreate true)) sampleCalls := by
  refine ⟨trivial, fun o ho => ⟨?_, fun o _ => ⟨trivial, fun o _ => ⟨trivial, fun o _ =>
    ⟨trivial, fun o _ => trivial⟩⟩⟩⟩⟩
  cases ho
  exact ⟨_, rfl, nofun⟩

theorem sampleCalls_sound :
    ∃ tr s l cells m',
      trace listStep (Mem.empty, some (dlistCreate true)) sampleCalls = .ok (tr, s) ∧
      SoundRun Mem.empty (Mem.empty, some (dlistCreate true)) (dlistCreate true) [] sampleCalls tr s
        l cells ∧
      dlistDestroy s.1 s.2 = .ok m' ∧ m'.nodes = Mem.empty.nodes ∧
      m'.destroyed = s.1.destroyed ++ cells.map Prod.snd ∧
      ∃ gone, m'.destroyed = Mem.empty.destroyed ++ gone ∧ gone.Perm (putItems sampleCalls tr) :=
  dlist_run_sound Mem.empty sampleCalls_allowed

end Wsn
