/-
**The doubly linked list of `src/common/dlist.c`.**

The nodes live in one memory that several lists share.  `malloc` returns a place that the
environment chooses, or `NULL`; every access to a node goes through a pointer that may be `NULL` or
dangling.  What a list holds is described by `Wsn.DList.Represents`, and each operation has one
lemma that says what it does to the lists and leaves alone in the memory.

Main definitions:

* `Wsn.Mem` — the nodes in memory, and the data handed to `data_destroy` so far;
* `Wsn.dlistGetNode`, `Wsn.dlistInsert`, `Wsn.dlistAppend`, `Wsn.dlistPrepend`, `Wsn.dlistDelete`,
  `Wsn.dlistDestroy`, `Wsn.dlistLength`, `Wsn.dlistFind` — **the operations**;
* `Wsn.DList.Represents` — the places and data of the nodes of a list, in order.

Main results:

* `Wsn.dlistGetNode_nil`, `Wsn.dlistGetNode_inside`, `Wsn.dlistGetNode_outside` — the walk to an
  index;
* `Wsn.dlistInsert_spec`, `Wsn.dlistAppend_spec`, `Wsn.dlistPrepend_spec`, `Wsn.dlistDelete_spec`,
  `Wsn.dlistDestroy_spec`, `Wsn.dlistFind_eq` — what the operations do.
-/

import WsnPlatform.Common
import WsnPlatform.LinkedChain

set_option relaxedAutoImplicit false
set_option autoImplicit false

namespace Wsn

open LinkedChain

/-! ### Memory -/

/-- The number of `DListNode`s that fit into the memory of the 32-bit target, at twelve bytes
each. -/
def nodePlaces : ℕ := 2 ^ 32 / 12

/-- A place for a node. -/
abbrev Addr := Fin nodePlaces

/-- `size_t` counts modulo `2 ^ 32`. -/
@[simp] def sizeModulus : ℕ := 2 ^ 32

/-- `INT_MAX`. -/
@[simp] def intMax : ℕ := 2 ^ 31 - 1

variable {α : Type}

/-- The nodes in memory, and the data that `data_destroy` was called on, oldest first. -/
structure Mem (α : Type) where
  nodes : Store Addr α
  destroyed : List α

namespace Mem

/-- The memory before any allocation. -/
def empty : Mem α := ⟨fun _ => none, []⟩

/-- The node a pointer leads to. -/
def deref (m : Mem α) : Option Addr → Exec (Node Addr α)
  | none => .error .nullDeref
  | some a =>
      match m.nodes a with
      | none => .error .dangling
      | some node => .ok node

/-- An assignment to the fields of the node a pointer leads to. -/
def modify (m : Mem α) (p : Option Addr) (f : Node Addr α → Node Addr α) : Exec (Mem α) :=
  match p with
  | none => .error .nullDeref
  | some a =>
      match m.nodes a with
      | none => .error .dangling
      | some node => .ok { m with nodes := Function.update m.nodes a (some (f node)) }

end Mem

/-- `struct _DList`.  The callback itself only matters through the data it is called on. -/
structure DList where
  head : Option Addr
  length : ℕ
  /-- Whether `data_destroy` is given. -/
  dataDestroy : Bool

/-! ### The operations -/

/-- `dlist_node_create`.  The environment proposes the place that `malloc` returns; it is refused
when there is none (`malloc` fails) or when it is in use. -/
def dlistNodeCreate (m : Mem α) (place : Option Addr) (data : α) : Option (Addr × Mem α) :=
  match place with
  | none => none
  | some a =>
      if (m.nodes a).isSome then none
      else some (a, { m with nodes := Function.update m.nodes a (some ⟨none, none, data⟩) })

/-- `dlist_node_destroy`.  The links that it clears first are freed with the node. -/
def dlistNodeDestroy (m : Mem α) (node : Option Addr) (dataDestroy : Bool) : Exec (Mem α) :=
  match node with
  | none => .ok m
  | some a => do
      let n ← m.deref (some a)
      .ok
        { nodes := Function.update m.nodes a none
          destroyed := if dataDestroy then m.destroyed ++ [n.data] else m.destroyed }

/-- The loop of `dlist_get_node`: the node it ends at, and what is left of the index. -/
def dlistGetNodeLoop (m : Mem α) : ℕ → Option Addr → Exec (Option Addr × ℕ)
  | 0, iter => do
      let _ ← m.deref iter
      .ok (iter, 0)
  | index + 1, iter => do
      let node ← m.deref iter
      match node.next with
      | none => .ok (iter, index + 1)
      | some next => dlistGetNodeLoop m index (some next)

/-- `dlist_get_node`. -/
def dlistGetNode (m : Mem α) (thiz : DList) (index : ℕ) (returnLastIfOutrange : Bool) :
    Exec (Option Addr) := do
  let r ← dlistGetNodeLoop m index thiz.head
  if r.2 > 0 ∧ returnLastIfOutrange = false then .ok none else .ok r.1

/-- `dlist_create`, when its `malloc` succeeds. -/
def dlistCreate (dataDestroy : Bool) : DList := ⟨none, 0, dataDestroy⟩

/-- Cases 2 and 3 of `dlist_insert`: the node is put before the cursor. -/
def dlistInsertBefore (m : Mem α) (thiz : DList) (cursor : Option Addr) (node : Addr) :
    Exec (Mem α × DList) := do
  let r ← (if thiz.head = cursor then
      .ok (m, { thiz with head := some node })
    else do
      let c ← m.deref cursor
      let m ← m.modify (some node) fun n => { n with prev := c.prev }
      let m ← m.modify c.prev fun n => { n with next := some node }
      .ok (m, thiz) : Exec (Mem α × DList))
  let m ← r.1.modify (some node) fun n => { n with next := cursor }
  let m ← m.modify cursor fun n => { n with prev := some node }
  .ok (m, r.2)

/-- Case 4 of `dlist_insert`: the node is put behind the cursor, at the end. -/
def dlistInsertBehind (m : Mem α) (cursor : Option Addr) (node : Addr) : Exec (Mem α) := do
  let m ← m.modify cursor fun n => { n with next := some node }
  m.modify (some node) fun n => { n with prev := cursor }

/-- `dlist_insert` behind its test for `NULL`. -/
def dlistInsertNode (m : Mem α) (thiz : DList) (place : Option Addr) (index : ℕ) (data : α) :
    Exec (Ret × Mem α × DList) :=
  match dlistNodeCreate m place data with
  | none => .ok (.oom, m, thiz)
  | some (node, m) =>
      let thiz := { thiz with length := (thiz.length + 1) % sizeModulus }
      if thiz.head = none then .ok (.ok, m, { thiz with head := some node })
      else do
        let cursor ← dlistGetNode m thiz index true
        if index < thiz.length then
          let r ← dlistInsertBefore m thiz cursor node
          .ok (.ok, r.1, r.2)
        else
          let m ← dlistInsertBehind m cursor node
          .ok (.ok, m, thiz)

/-- **`dlist_insert`**. -/
def dlistInsert (m : Mem α) (thiz : Option DList) (place : Option Addr) (index : ℕ) (data : α) :
    Exec (Ret × Mem α × Option DList) :=
  match thiz with
  | none => .ok (.invalidParams, m, none)
  | some thiz => do
      let r ← dlistInsertNode m thiz place index data
      .ok (r.1, r.2.1, some r.2.2)

/-- `dlist_append`: an insertion at `(size_t)-1`. -/
def dlistAppend (m : Mem α) (thiz : Option DList) (place : Option Addr) (data : α) :
    Exec (Ret × Mem α × Option DList) :=
  dlistInsert m thiz place (sizeModulus - 1) data

/-- `dlist_prepend`. -/
def dlistPrepend (m : Mem α) (thiz : Option DList) (place : Option Addr) (data : α) :
    Exec (Ret × Mem α × Option DList) :=
  dlistInsert m thiz place 0 data

/-- The loop of `dlist_destroy`. -/
def dlistDestroyLoop (dataDestroy : Bool) : ℕ → Mem α → Option Addr → Exec (Mem α)
  | _, m, none => .ok m
  | 0, _, some _ => .error .diverges
  | fuel + 1, m, some a => do
      let node ← m.deref (some a)
      let m ← dlistNodeDestroy m (some a) dataDestroy
      dlistDestroyLoop dataDestroy fuel m node.next

/-- **`dlist_destroy`**.  The list itself is not among the nodes. -/
def dlistDestroy (m : Mem α) (thiz : Option DList) : Exec (Mem α) :=
  match thiz with
  | none => .error .nullDeref
  | some thiz => dlistDestroyLoop thiz.dataDestroy (nodePlaces + 1) m thiz.head

/-- `dlist_delete` behind its test for `NULL`. -/
def dlistDeleteNode (m : Mem α) (thiz : DList) (index : ℕ) : Exec (Ret × Mem α × DList) := do
  let cursor ← dlistGetNode m thiz index false
  match cursor with
  | none => .ok (.ok, m, thiz)
  | some _ => do
      let node ← m.deref cursor
      let thiz := if cursor = thiz.head then { thiz with head := node.next } else thiz
      let m ← (if node.prev ≠ none then m.modify node.prev fun n => { n with next := node.next }
        else .ok m)
      let node ← m.deref cursor
      let m ← (if node.next ≠ none then m.modify node.next fun n => { n with prev := node.prev }
        else .ok m)
      let m ← dlistNodeDestroy m cursor thiz.dataDestroy
      .ok (.ok, m, { thiz with length := (thiz.length + (sizeModulus - 1)) % sizeModulus })

/-- **`dlist_delete`**. -/
def dlistDelete (m : Mem α) (thiz : Option DList) (index : ℕ) :
    Exec (Ret × Mem α × Option DList) :=
  match thiz with
  | none => .ok (.invalidParams, m, none)
  | some thiz => do
      let r ← dlistDeleteNode m thiz index
      .ok (r.1, r.2.1, some r.2.2)

/-- `dlist_length`. -/
def dlistLength (thiz : Option DList) : Exec ℕ :=
  match thiz with
  | none => .error .nullDeref
  | some thiz => .ok thiz.length

/-- The loop of `dlist_find`.  The first argument is how often the `int` that counts can still be
incremented. -/
def dlistFindLoop (m : Mem α) (compare : α → Bool) : ℕ → Option Addr → Exec ℕ
  | left, none => .ok (intMax - left)
  | 0, some a => do
      let node ← m.deref (some a)
      if compare node.data then .ok intMax else .error .signedOverflow
  | left + 1, some a => do
      let node ← m.deref (some a)
      if compare node.data then .ok (intMax - (left + 1)) else dlistFindLoop m compare left node.next

/-- **`dlist_find`**: the index of the first node whose data compares equal, or the length. -/
def dlistFind (m : Mem α) (thiz : Option DList) (compare : α → Bool) : Exec ℕ :=
  match thiz with
  | none => .error .nullDeref
  | some thiz => dlistFindLoop m compare intMax thiz.head

/-! ### What a list holds -/

/-- **The nodes of a list**: their places and data, in order. -/
structure DList.Represents (m : Mem α) (l : DList) (cells : List (Addr × α)) : Prop where
  chain : ∃ q, Segment m.nodes none l.head cells q none
  nodup : (cells.map Prod.fst).Nodup
  length : l.length = cells.length

theorem represents_create (m : Mem α) (dataDestroy : Bool) :
    (dlistCreate dataDestroy).Represents m [] :=
  ⟨⟨none, rfl, rfl⟩, List.nodup_nil, rfl⟩

theorem length_le_nodePlaces {cells : List (Addr × α)} (h : (cells.map Prod.fst).Nodup) :
    cells.length ≤ nodePlaces := by
  have hcard := h.length_le_card
  rwa [List.length_map, Fintype.card_fin] at hcard

theorem nodePlaces_pos : 0 < nodePlaces := by
  simp [nodePlaces]

theorem nodePlaces_lt : nodePlaces + 1 < intMax := by
  simp only [nodePlaces, intMax]
  omega

/-- A list only looks at its own nodes. -/
theorem DList.Represents.congr {m m' : Mem α} {l : DList} {cells : List (Addr × α)}
    (h : l.Represents m cells) (heq : ∀ a ∈ cells.map Prod.fst, m'.nodes a = m.nodes a) :
    l.Represents m' cells := by
  obtain ⟨q, hq⟩ := h.chain
  exact ⟨⟨q, hq.congr heq⟩, h.nodup, h.length⟩

/-- A list that holds a node has a head. -/
theorem DList.Represents.head_ne_none {m : Mem α} {l : DList} {cells : List (Addr × α)}
    (h : l.Represents m cells) (hne : cells ≠ []) : l.head ≠ none := by
  obtain ⟨q, hq⟩ := h.chain
  obtain ⟨c, -, hc⟩ := hq.head_eq hne
  rw [hc]
  exact Option.some_ne_none _

/-- The memory determines what a list holds. -/
theorem DList.Represents.unique {m : Mem α} {l : DList} {cells cells₂ : List (Addr × α)}
    (h : l.Represents m cells) (h₂ : l.Represents m cells₂) : cells = cells₂ := by
  obtain ⟨q, hq⟩ := h.chain
  obtain ⟨q₂, hq₂⟩ := h₂.chain
  exact hq.unique hq₂

theorem DList.Represents.mem_store {m : Mem α} {l : DList} {cells : List (Addr × α)}
    (h : l.Represents m cells) {a : Addr} (ha : a ∈ cells.map Prod.fst) : m.nodes a ≠ none := by
  obtain ⟨q, hq⟩ := h.chain
  exact hq.mem_store ha

/-! ### Accesses that do not fault -/

theorem deref_eq {m : Mem α} {a : Addr} {node : Node Addr α} (h : m.nodes a = some node) :
    m.deref (some a) = .ok node := by
  simp only [Mem.deref, h]

theorem modify_eq {m : Mem α} {a : Addr} {node : Node Addr α} (h : m.nodes a = some node)
    (f : Node Addr α → Node Addr α) :
    m.modify (some a) f = .ok { m with nodes := Function.update m.nodes a (some (f node)) } := by
  simp only [Mem.modify, h]

/-- Redirecting the next pointer of a node that may be missing. -/
theorem modify_next {m : Mem α} {q p : Option Addr} (h : ∀ a, q = some a → m.nodes a ≠ none) :
    (if q ≠ none then m.modify q fun n => { n with next := p } else .ok m) =
      .ok { m with nodes := setNext m.nodes q p } := by
  cases q with
  | none => rfl
  | some a =>
      obtain ⟨node, hnode⟩ := Option.ne_none_iff_exists'.1 (h a rfl)
      rw [if_pos (Option.some_ne_none a), modify_eq hnode, setNext, hnode]
      rfl

/-- Redirecting the back pointer of a node that may be missing. -/
theorem modify_prev {m : Mem α} {q p : Option Addr} (h : ∀ a, p = some a → m.nodes a ≠ none) :
    (if p ≠ none then m.modify p fun n => { n with prev := q } else .ok m) =
      .ok { m with nodes := setPrev m.nodes p q } := by
  cases p with
  | none => rfl
  | some a =>
      obtain ⟨node, hnode⟩ := Option.ne_none_iff_exists'.1 (h a rfl)
      rw [if_pos (Option.some_ne_none a), modify_eq hnode, setPrev, hnode]
      rfl

/-- A store into a node that is there. -/
theorem modify_setNext {m : Mem α} {a : Addr} (h : m.nodes a ≠ none) (p : Option Addr) :
    (m.modify (some a) fun n => { n with next := p }) =
      .ok { m with nodes := setNext m.nodes (some a) p } := by
  rw [← modify_next fun b hb => Option.some.inj hb ▸ h, if_pos (Option.some_ne_none a)]

theorem modify_setPrev {m : Mem α} {a : Addr} (h : m.nodes a ≠ none) (q : Option Addr) :
    (m.modify (some a) fun n => { n with prev := q }) =
      .ok { m with nodes := setPrev m.nodes (some a) q } := by
  rw [← modify_prev fun b hb => Option.some.inj hb ▸ h, if_pos (Option.some_ne_none a)]

/-! ### The walk to an index -/

section Walk

variable {m : Mem α} {q p q' : Option Addr} {pre post : List (Addr × α)} {c : Addr × α}

/-- The walk skips the nodes in front of the index. -/
theorem dlistGetNodeLoop_skip (hs : Segment m.nodes q p (pre ++ c :: post) q' none) (k : ℕ) :
    dlistGetNodeLoop m (pre.length + k) p = dlistGetNodeLoop m k (some c.1) := by
  induction pre generalizing q p with
  | nil =>
      rw [List.nil_append, segment_cons] at hs
      rw [hs.1, List.length_nil, Nat.zero_add]
  | cons d pre ih =>
      obtain ⟨rfl, next, hd, hs⟩ := hs
      have hnext : ∃ b, next = some b := by
        cases pre with
        | nil => exact ⟨_, hs.1⟩
        | cons e pre => exact ⟨_, hs.1⟩
      obtain ⟨b, rfl⟩ := hnext
      rw [List.length_cons, Nat.add_right_comm, dlistGetNodeLoop, deref_eq hd, ok_bind]
      exact ih hs

/-- On an empty list the walk reads through `NULL`. -/
theorem dlistGetNode_nil {l : DList} (h : l.Represents m []) (index : ℕ) (last : Bool) :
    dlistGetNode m l index last = .error .nullDeref := by
  obtain ⟨_, -, hhead⟩ := h.chain
  cases index with
  | zero => simp [dlistGetNode, dlistGetNodeLoop, ← hhead, Mem.deref]
  | succ index => simp [dlistGetNode, dlistGetNodeLoop, ← hhead, Mem.deref]

/-- **The walk to an index inside the list.** -/
theorem dlistGetNode_inside {l : DList} (h : l.Represents m (pre ++ c :: post)) (last : Bool) :
    dlistGetNode m l pre.length last = .ok (some c.1) := by
  obtain ⟨q', hq⟩ := h.chain
  have hskip := dlistGetNodeLoop_skip hq 0
  obtain ⟨q₁, p₁, -, rfl, next, hc, -⟩ := segment_append.1 hq
  rw [Nat.add_zero, dlistGetNodeLoop, deref_eq hc, ok_bind] at hskip
  simp [dlistGetNode, hskip]

/-- **The walk to an index behind the list** ends at its last node. -/
theorem dlistGetNode_outside {l : DList} {index : ℕ} (h : l.Represents m (pre ++ [c]))
    (hindex : pre.length < index) (last : Bool) :
    dlistGetNode m l index last = .ok (if last then some c.1 else none) := by
  obtain ⟨q', hq⟩ := h.chain
  obtain ⟨k, rfl⟩ : ∃ k, index = pre.length + (k + 1) := ⟨index - pre.length - 1, by omega⟩
  have hskip := dlistGetNodeLoop_skip hq (k + 1)
  obtain ⟨q₁, p₁, -, rfl, next, hc, -, hnext⟩ := segment_append.1 hq
  rw [dlistGetNodeLoop, deref_eq hc, ok_bind] at hskip
  simp only [← hnext] at hskip
  rw [dlistGetNode, hskip, ok_bind]
  cases last with
  | false => simp
  | true => simp

end Walk

/-! ### What the operations do -/

/-- An allocation that fails leaves everything as it is. -/
theorem dlistInsert_oom {m : Mem α} {place : Option Addr} (l : DList) (index : ℕ) (x : α)
    (h : ∀ a, place = some a → m.nodes a ≠ none) :
    dlistInsert m (some l) place index x = .ok (.oom, m, some l) := by
  have hcreate : dlistNodeCreate m place x = none := by
    cases place with
    | none => rfl
    | some a => exact if_pos (Option.isSome_iff_ne_none.2 (h a rfl))
  simp only [dlistInsert, dlistInsertNode, hcreate, ok_bind]

/-- A new node, at a place that was free. -/
theorem dlistNodeCreate_spec {m : Mem α} {a : Addr} (ha : m.nodes a = none) (x : α) :
    ∃ m', dlistNodeCreate m (some a) x = some (a, m') ∧ m'.nodes a = some ⟨none, none, x⟩ ∧
      m'.destroyed = m.destroyed ∧ ∀ b, b ≠ a → m'.nodes b = m.nodes b := by
  refine ⟨{ m with nodes := Function.update m.nodes a (some ⟨none, none, x⟩) }, ?_, ?_, rfl, ?_⟩
  · simp [dlistNodeCreate, ha]
  · exact Function.update_self _ _ _
  · exact fun b hb => Function.update_of_ne hb _ _

/-- **A node put behind the last one** is linked to it. -/
theorem dlistInsertBehind_spec {m : Mem α} {p : Option Addr} {pre : List (Addr × α)}
    {c d : Addr × α} {q' : Option Addr} (hs : Segment m.nodes none p (pre ++ [c]) q' none)
    (hd : m.nodes d.1 = some ⟨none, none, d.2⟩)
    (hnd : ((pre ++ [c] ++ [d]).map Prod.fst).Nodup) :
    ∃ m' q'', dlistInsertBehind m (some c.1) d.1 = .ok m' ∧
      Segment m'.nodes none p (pre ++ [c] ++ [d]) q'' none ∧ m'.destroyed = m.destroyed ∧
      ∀ b, b ≠ c.1 → b ≠ d.1 → m'.nodes b = m.nodes b := by
  obtain ⟨q₁, p₁, -, -, next, hc, rfl, -⟩ := segment_append.1 hs
  have hne : ∀ b ∈ (pre ++ [c]).map Prod.fst, some d.1 ≠ some b := by
    rw [List.map_append, List.nodup_append] at hnd
    exact fun b hb hbad => hnd.2.2 b hb d.1 (by simp) (Option.some.inj hbad).symm
  have hdc : some d.1 ≠ some c.1 := hne c.1 (by simp)
  have hc' : m.nodes c.1 ≠ none := by simp [hc]
  have hd' : m.nodes d.1 ≠ none := by simp [hd]
  -- the node linked back to the last one, before the last one is linked to it
  set h : Store Addr α := setPrev m.nodes (some d.1) (some c.1) with hh
  have hdh : h d.1 = some ⟨some c.1, none, d.2⟩ := by simp [hh, setPrev, hd]
  have hs' : Segment h none p (pre ++ [c]) (some c.1) none :=
    hs.congr fun b hb => setPrev_of_ne (hne b hb) _
  obtain ⟨q'', hlink⟩ := hs'.link (segment_nil.2 ⟨rfl, rfl⟩) hdh hnd
  rw [if_neg (by simp)] at hlink
  refine ⟨⟨setNext h (some c.1) (some d.1), m.destroyed⟩, q'', ?_, hlink, rfl, ?_⟩
  · have hd₁ : setNext m.nodes (some c.1) (some d.1) d.1 ≠ none := setNext_ne_none hd'
    rw [dlistInsertBehind, modify_setNext hc', ok_bind, modify_setPrev hd₁]
    simp only [setPrev_setNext_comm hdc.symm, hh]
  · intro b hbc hbd
    have hcb : some c.1 ≠ some b := fun hbad => hbc (Option.some.inj hbad).symm
    have hdb : some d.1 ≠ some b := fun hbad => hbd (Option.some.inj hbad).symm
    change setNext h (some c.1) (some d.1) b = m.nodes b
    rw [setNext_of_ne hcb, hh, setPrev_of_ne hdb]

/-- On an empty list a deletion reads through `NULL`. -/
theorem dlistDelete_nil {m : Mem α} {l : DList} (h : l.Represents m []) (index : ℕ) :
    dlistDelete m (some l) index = .error .nullDeref := by
  simp only [dlistDelete, dlistDeleteNode, dlistGetNode_nil h, error_bind]

/-- Behind the last node there is nothing to delete. -/
theorem dlistDelete_outside {m : Mem α} {l : DList} {cells : List (Addr × α)}
    (h : l.Represents m cells) (hne : cells ≠ []) {index : ℕ} (hindex : cells.length ≤ index) :
    dlistDelete m (some l) index = .ok (.ok, m, some l) := by
  obtain ⟨pre, c, rfl⟩ : ∃ pre c, cells = pre ++ [c] :=
    ⟨cells.dropLast, cells.getLast hne, (List.dropLast_append_getLast hne).symm⟩
  rw [List.length_append, List.length_singleton] at hindex
  have hget := dlistGetNode_outside h (show pre.length < index by omega) false
  simp [dlistDelete, dlistDeleteNode, hget]

/-- A node of a list, with the pointers to its two neighbours. -/
structure DList.Between (m : Mem α) (l : DList) (pre : List (Addr × α)) (c : Addr × α)
    (post : List (Addr × α)) (prev next : Option Addr) : Prop where
  before : Segment m.nodes none l.head pre prev (some c.1)
  node : m.nodes c.1 = some ⟨prev, next, c.2⟩
  behind : ∃ q', Segment m.nodes (some c.1) next post q' none
  not_mem : c.1 ∉ pre.map Prod.fst ∧ c.1 ∉ post.map Prod.fst
  nodup : ((pre ++ post).map Prod.fst).Nodup

theorem DList.Represents.between {m : Mem α} {l : DList} {pre post : List (Addr × α)}
    {c : Addr × α} (h : l.Represents m (pre ++ c :: post)) :
    ∃ prev next, l.Between m pre c post prev next := by
  obtain ⟨q', hq⟩ := h.chain
  obtain ⟨prev, _, hpre, rfl, next, hc, hpost⟩ := segment_append.1 hq
  have hnd := h.nodup
  rw [List.map_append, List.map_cons, List.nodup_middle, List.nodup_cons, ← List.map_append] at hnd
  obtain ⟨hcmem, hnd⟩ := hnd
  rw [List.map_append, List.mem_append, not_or] at hcmem
  exact ⟨prev, next, hpre, hc, ⟨q', hpost⟩, hcmem, hnd⟩

section Between

variable {m : Mem α} {l : DList} {pre post : List (Addr × α)} {c : Addr × α}
  {prev next : Option Addr}

theorem DList.Between.prev_mem (h : l.Between m pre c post prev next) :
    ∀ a, prev = some a → a ∈ pre.map Prod.fst := by
  rintro a rfl
  exact h.before.last_mem

theorem DList.Between.next_mem (h : l.Between m pre c post prev next) :
    ∀ a, next = some a → a ∈ post.map Prod.fst := by
  rintro a rfl
  obtain ⟨q', hpost⟩ := h.behind
  exact hpost.first_mem

/-- The nodes after the two neighbours have been redirected. -/
def unlinked (nodes : Store Addr α) (prev next : Option Addr) : Store Addr α :=
  setPrev (setNext nodes prev next) next prev

/-- The node itself is not redirected. -/
theorem DList.Between.unlinked_node (h : l.Between m pre c post prev next) :
    unlinked m.nodes prev next c.1 = some ⟨prev, next, c.2⟩ := by
  rw [unlinked, setPrev_of_ne fun hbad => h.not_mem.2 (h.next_mem c.1 hbad),
    setNext_of_ne fun hbad => h.not_mem.1 (h.prev_mem c.1 hbad)]
  exact h.node

/-- Nor is a node outside the list. -/
theorem DList.Between.unlinked_of_not_mem (h : l.Between m pre c post prev next) {b : Addr}
    (hpre : b ∉ pre.map Prod.fst) (hpost : b ∉ post.map Prod.fst) :
    unlinked m.nodes prev next b = m.nodes b := by
  rw [unlinked, setPrev_of_ne fun hbad => hpost (h.next_mem b hbad),
    setNext_of_ne fun hbad => hpre (h.prev_mem b hbad)]

/-- The two stores into the neighbours. -/
theorem DList.Between.stores (h : l.Between m pre c post prev next) :
    (if prev ≠ none then m.modify prev fun n => { n with next := next } else .ok m) =
      .ok { m with nodes := setNext m.nodes prev next } ∧
    (if next ≠ none then
      Mem.modify { m with nodes := setNext m.nodes prev next } next fun n => { n with prev := prev }
      else .ok { m with nodes := setNext m.nodes prev next }) =
      .ok { m with nodes := unlinked m.nodes prev next } := by
  refine ⟨modify_next fun a ha => h.before.mem_store (h.prev_mem a ha), modify_prev fun a ha => ?_⟩
  -- the node behind is not the one in front
  have hne : prev ≠ some a := by
    intro hprev
    have hnd := h.nodup
    rw [List.map_append, List.nodup_append] at hnd
    exact hnd.2.2 a (h.prev_mem a hprev) a (h.next_mem a ha) rfl
  obtain ⟨q', hpost⟩ := h.behind
  simp only [setNext_of_ne hne]
  exact hpost.mem_store (h.next_mem a ha)

/-- The list after the node has been taken out. -/
def DList.without (l : DList) (a : Addr) (next : Option Addr) : DList where
  head := if some a = l.head then next else l.head
  length := (l.length + (sizeModulus - 1)) % sizeModulus
  dataDestroy := l.dataDestroy

/-- What the deletion of a node does. -/
theorem DList.Between.delete (h : l.Between m pre c post prev next)
    (hrep : l.Represents m (pre ++ c :: post)) :
    dlistDelete m (some l) pre.length = .ok (.ok,
      { nodes := Function.update (unlinked m.nodes prev next) c.1 none
        destroyed := if l.dataDestroy then m.destroyed ++ [c.2] else m.destroyed },
      some (l.without c.1 next)) := by
  obtain ⟨hprev, hnext⟩ := h.stores
  have hc₁ : Mem.deref { m with nodes := setNext m.nodes prev next } (some c.1) =
      .ok ⟨prev, next, c.2⟩ :=
    deref_eq ((setNext_of_ne (fun hbad => h.not_mem.1 (h.prev_mem c.1 hbad)) next).trans h.node)
  have hc₂ : Mem.deref { m with nodes := unlinked m.nodes prev next } (some c.1) =
      .ok ⟨prev, next, c.2⟩ := deref_eq h.unlinked_node
  have hlist : (if some c.1 = l.head then { l with head := next } else l) =
      { l with head := if some c.1 = l.head then next else l.head } := by
    split <;> rfl
  simp only [dlistDelete, dlistDeleteNode, dlistGetNode_inside hrep, ok_bind, deref_eq h.node,
    hprev, hc₁, hnext, dlistNodeDestroy, hc₂, hlist, DList.without]

/-- The head that the deletion leaves is that of the rest. -/
theorem DList.Between.head_without (h : l.Between m pre c post prev next) :
    (l.without c.1 next).head = if pre = [] then next else l.head := by
  cases pre with
  | nil => exact if_pos h.before.2
  | cons d pre =>
      have hne : some c.1 ≠ l.head := by
        rw [h.before.1]
        intro hcd
        exact h.not_mem.1 (by simp [Option.some.inj hcd])
      rw [if_neg (List.cons_ne_nil d pre)]
      exact if_neg hne

end Between

/-- **Deleting** takes the node at the index out of the list and destroys its data. -/
theorem dlistDelete_spec {m : Mem α} {l : DList} {pre post : List (Addr × α)} {c : Addr × α}
    (h : l.Represents m (pre ++ c :: post)) :
    ∃ m' l', dlistDelete m (some l) pre.length = .ok (.ok, m', some l') ∧
      l'.Represents m' (pre ++ post) ∧ l'.dataDestroy = l.dataDestroy ∧
      m'.destroyed = (if l.dataDestroy then m.destroyed ++ [c.2] else m.destroyed) ∧
      m'.nodes c.1 = none ∧
      ∀ b, b ∉ (pre ++ c :: post).map Prod.fst → m'.nodes b = m.nodes b := by
  obtain ⟨prev, next, hb⟩ := h.between
  refine ⟨_, _, hb.delete h, ⟨?_, hb.nodup, ?_⟩, rfl, rfl, Function.update_self _ _ _, ?_⟩
  · obtain ⟨q', hpost⟩ := hb.behind
    obtain ⟨q'', hunlink⟩ := hb.before.unlink hpost hb.nodup
    rw [← hb.head_without] at hunlink
    refine ⟨q'', hunlink.congr fun a ha => Function.update_of_ne ?_ _ _⟩
    rintro rfl
    rw [List.map_append, List.mem_append] at ha
    exact ha.elim hb.not_mem.1 hb.not_mem.2
  · -- the count does not wrap around
    have hlt := nodePlaces_lt
    have hplaces := length_le_nodePlaces h.nodup
    simp only [intMax] at hlt
    rw [List.length_append, List.length_cons] at hplaces
    simp only [DList.without, h.length, sizeModulus, List.length_append, List.length_cons]
    omega
  · intro b hb'
    simp only [List.map_append, List.map_cons, List.mem_append, List.mem_cons, not_or] at hb'
    rw [← hb.unlinked_of_not_mem hb'.1 hb'.2.2]
    exact Function.update_of_ne hb'.2.1 _ _

/-! ### Inserting -/

/-- The node `d` on its way into the list: linked to its neighbours, but not they to it. -/
def entering (nodes : Store Addr α) (d : Addr) (prev : Option Addr) (c : Addr) : Store Addr α :=
  setNext (setPrev nodes (some d) prev) (some d) (some c)

/-- The node in the list. -/
def entered (nodes : Store Addr α) (d : Addr) (prev : Option Addr) (c : Addr) : Store Addr α :=
  setPrev (setNext (entering nodes d prev c) prev (some d)) (some c) (some d)

/-- Without a node in front, the cursor is the head. -/
theorem DList.Between.prev_eq_none_iff {m : Mem α} {l : DList} {pre post : List (Addr × α)}
    {c : Addr × α} {prev next : Option Addr} (h : l.Between m pre c post prev next) :
    (prev = none ↔ pre = []) ∧ (l.head = some c.1 ↔ pre = []) := by
  cases pre with
  | nil => exact ⟨iff_of_true h.before.1 rfl, iff_of_true h.before.2.symm rfl⟩
  | cons e pre =>
      have hne := List.cons_ne_nil e pre
      constructor
      · refine iff_of_false ?_ hne
        rintro rfl
        rcases h.before.last_eq with ⟨-, hnil⟩ | ⟨_, _, -, hq⟩
        · exact hne hnil
        · cases hq
      · refine iff_of_false ?_ hne
        rw [h.before.1]
        intro hec
        exact h.not_mem.1 (by simp [Option.some.inj hec])

/-- The stores of `dlist_insert` before a cursor that is the head. -/
theorem dlistInsertBefore_head {m : Mem α} {l : DList} {c d : Addr} {x : α}
    (hd : m.nodes d = some ⟨none, none, x⟩) (hc : m.nodes c ≠ none) (hdc : some d ≠ some c)
    (hhead : l.head = some c) :
    dlistInsertBefore m l (some c) d =
      .ok (⟨entered m.nodes d none c, m.destroyed⟩, { l with head := some d }) := by
  have hd' : m.nodes d ≠ none := by simp [hd]
  have hsame : setPrev m.nodes (some d) none = m.nodes := by
    refine funext fun b => ?_
    rw [setPrev, hd]
    rcases eq_or_ne b d with rfl | hb
    · rw [Function.update_self, hd]
      rfl
    · rw [Function.update_of_ne hb]
  have hstore : entered m.nodes d none c =
      setPrev (setNext m.nodes (some d) (some c)) (some c) (some d) := by
    rw [entered, entering, hsame]
    rfl
  unfold dlistInsertBefore
  rw [if_pos hhead, ok_bind, modify_setNext hd', ok_bind, modify_setPrev, hstore]
  · rfl
  · show setNext m.nodes (some d) (some c) c ≠ none
    rwa [setNext_of_ne hdc]

/-- The stores before another cursor, behind the node `b`. -/
theorem dlistInsertBefore_middle {m : Mem α} {l : DList} {b c d : Addr} {next : Option Addr} {x : α}
    (hd : m.nodes d ≠ none) (hc : m.nodes c = some ⟨some b, next, x⟩) (hb : m.nodes b ≠ none)
    (hdc : some d ≠ some c) (hdb : some d ≠ some b) (hhead : l.head ≠ some c) :
    dlistInsertBefore m l (some c) d =
      .ok (⟨entered m.nodes d (some b) c, m.destroyed⟩, l) := by
  have hc' : m.nodes c ≠ none := by simp [hc]
  have hstore : entered m.nodes d (some b) c =
      setPrev (setNext (setNext (setPrev m.nodes (some d) (some b)) (some b) (some d)) (some d)
        (some c)) (some c) (some d) := by
    rw [entered, entering, setNext_comm hdb]
  unfold dlistInsertBefore
  rw [if_neg hhead, deref_eq hc, ok_bind, modify_setPrev hd, ok_bind, modify_setNext, ok_bind,
    ok_bind, modify_setNext, ok_bind, modify_setPrev, hstore]
  · rfl
  · show setNext (setNext (setPrev m.nodes (some d) (some b)) (some b) (some d)) (some d)
      (some c) c ≠ none
    rw [setNext_of_ne hdc]
    exact setNext_ne_none (by rwa [setPrev_of_ne hdc])
  · show setNext (setPrev m.nodes (some d) (some b)) (some b) (some d) d ≠ none
    rw [setNext_of_ne hdb.symm]
    exact setPrev_ne_none hd
  · show setPrev m.nodes (some d) (some b) b ≠ none
    rwa [setPrev_of_ne hdb]

/-- The stores of `dlist_insert` before the cursor. -/
theorem DList.Between.insertBefore_run {m : Mem α} {l : DList} {pre post : List (Addr × α)}
    {c : Addr × α} {prev next : Option Addr} (h : l.Between m pre c post prev next) {d : Addr}
    {x : α} (hd : m.nodes d = some ⟨none, none, x⟩) (hcd : c.1 ≠ d) (hpd : prev ≠ some d) :
    dlistInsertBefore m l (some c.1) d =
      .ok (⟨entered m.nodes d prev c.1, m.destroyed⟩,
        { l with head := if pre = [] then some d else l.head }) := by
  obtain ⟨hnone, hhead⟩ := h.prev_eq_none_iff
  have hdc : some d ≠ some c.1 := fun hbad => hcd (Option.some.inj hbad).symm
  cases prev with
  | none =>
      have hpre := hnone.1 rfl
      rw [dlistInsertBefore_head hd (by simp [h.node]) hdc (hhead.2 hpre), if_pos hpre]
  | some b =>
      have hpre : pre ≠ [] := fun hnil => by cases hnone.2 hnil
      rw [dlistInsertBefore_middle (by simp [hd]) h.node (h.before.mem_store (h.prev_mem b rfl)) hdc
        hpd.symm fun hbad => hpre (hhead.1 hbad), if_neg hpre]

/-- **A node put before the cursor** is linked to it and to the node in front. -/
theorem DList.Between.insertBefore {m : Mem α} {l : DList} {pre post : List (Addr × α)}
    {c : Addr × α} {prev next : Option Addr} (h : l.Between m pre c post prev next) {d : Addr}
    {x : α} (hd : m.nodes d = some ⟨none, none, x⟩)
    (hnd : ((pre ++ (d, x) :: c :: post).map Prod.fst).Nodup) :
    ∃ m' q', dlistInsertBefore m l (some c.1) d =
        .ok (m', { l with head := if pre = [] then some d else l.head }) ∧
      Segment m'.nodes none (if pre = [] then some d else l.head) (pre ++ (d, x) :: c :: post) q'
        none ∧
      m'.destroyed = m.destroyed ∧
      ∀ b, b ∉ (pre ++ (d, x) :: c :: post).map Prod.fst → m'.nodes b = m.nodes b := by
  have hcd : c.1 ≠ d := by
    rintro rfl
    simp [List.nodup_append] at hnd
  have hpd : prev ≠ some d := by
    rintro rfl
    have hmem := h.prev_mem d rfl
    rw [List.map_append, List.nodup_append] at hnd
    exact hnd.2.2 d hmem d (by simp) rfl
  have hother : ∀ b, b ≠ d → entering m.nodes d prev c.1 b = m.nodes b := by
    intro b hb
    have hdb : some d ≠ some b := fun hbad => hb (Option.some.inj hbad).symm
    rw [entering, setNext_of_ne hdb, setPrev_of_ne hdb]
  have hdh : entering m.nodes d prev c.1 d = some ⟨prev, some c.1, x⟩ := by
    simp [entering, setNext, setPrev, hd]
  -- the two stores into the neighbours put the node into the chain
  have hfresh : d ∉ pre.map Prod.fst ∧ d ∉ (c :: post).map Prod.fst := by
    rw [List.map_append, List.map_cons, List.nodup_append, List.nodup_cons] at hnd
    refine ⟨fun hmem => ?_, hnd.2.1.1⟩
    exact hnd.2.2 d hmem d (by simp) rfl
  have hpre : Segment (entering m.nodes d prev c.1) none l.head pre prev (some c.1) :=
    h.before.congr fun b hb => hother b (by rintro rfl; exact hfresh.1 hb)
  obtain ⟨q₁, hbehind⟩ := h.behind
  have hpost : Segment (entering m.nodes d prev c.1) prev (some c.1) (c :: post) q₁ none := by
    have hseg : Segment m.nodes prev (some c.1) (c :: post) q₁ none := ⟨rfl, next, h.node, hbehind⟩
    exact hseg.congr fun b hb => hother b (by rintro rfl; exact hfresh.2 hb)
  obtain ⟨q', hlink⟩ := hpre.link (c := (d, x)) hpost hdh hnd
  refine ⟨⟨entered m.nodes d prev c.1, m.destroyed⟩, q', h.insertBefore_run hd hcd hpd, hlink, rfl,
    ?_⟩
  · intro b hb
    rw [List.map_append, List.map_cons, List.map_cons, List.mem_append, List.mem_cons, List.mem_cons,
      not_or, not_or, not_or] at hb
    obtain ⟨hbpre, hbd, hbc, -⟩ := hb
    have hcb : some c.1 ≠ some b := fun hbad => hbc (Option.some.inj hbad).symm
    have hpb : prev ≠ some b := fun hbad => hbpre (h.prev_mem b hbad)
    simp only [entered, setPrev_of_ne hcb, setNext_of_ne hpb, hother b hbd]

/-- Where `dlist_insert` puts a node into a list of `n` nodes.  At the index `n` that is before the
last one: the walk ends there, and the length has been counted up already. -/
def insertPosition (n index : ℕ) : ℕ :=
  if index < n then index else if index = n then n - 1 else n

/-- The new node is not in the list yet, and the count has room for it. -/
theorem DList.Represents.create {m : Mem α} {l : DList} {cells : List (Addr × α)}
    (h : l.Represents m cells) {a : Addr} (ha : m.nodes a = none) (x : α) :
    ∃ m', dlistNodeCreate m (some a) x = some (a, m') ∧ m'.nodes a = some ⟨none, none, x⟩ ∧
      l.Represents m' cells ∧ a ∉ cells.map Prod.fst ∧
      (l.length + 1) % sizeModulus = cells.length + 1 ∧ m'.destroyed = m.destroyed ∧
      ∀ b, b ≠ a → m'.nodes b = m.nodes b := by
  obtain ⟨m', hcreate, ha', hdes, hsame⟩ := dlistNodeCreate_spec ha x
  have hfresh : a ∉ cells.map Prod.fst := fun hmem => h.mem_store hmem ha
  refine ⟨m', hcreate, ha', h.congr fun b hb => hsame b ?_, hfresh, ?_, hdes, hsame⟩
  · rintro rfl
    exact hfresh hb
  · have hplaces := length_le_nodePlaces h.nodup
    have hlt := nodePlaces_lt
    simp only [intMax] at hlt
    rw [h.length, sizeModulus, Nat.mod_eq_of_lt (by omega)]

/-- The places of the list with the new node. -/
theorem nodup_insert {pre post : List (Addr × α)} {a : Addr} (x : α)
    (hnd : ((pre ++ post).map Prod.fst).Nodup) (hfresh : a ∉ (pre ++ post).map Prod.fst) :
    ((pre ++ (a, x) :: post).map Prod.fst).Nodup := by
  rw [List.map_append, List.map_cons, List.nodup_middle, ← List.map_append]
  exact List.nodup_cons.2 ⟨hfresh, hnd⟩

/-- Cases 2 and 3 of `dlist_insert`. -/
theorem dlistInsert_before {m : Mem α} {l : DList} {pre post : List (Addr × α)} {c : Addr × α}
    (h : l.Represents m (pre ++ c :: post)) {a : Addr} (ha : m.nodes a = none) (x : α) {index : ℕ}
    (hindex : index ≤ (pre ++ c :: post).length)
    (hget : ∀ m', l.Represents m' (pre ++ c :: post) →
      dlistGetNode m' l index true = .ok (some c.1)) :
    ∃ m' l', dlistInsert m (some l) (some a) index x = .ok (.ok, m', some l') ∧
      l'.Represents m' (pre ++ (a, x) :: c :: post) ∧ l'.dataDestroy = l.dataDestroy ∧
      m'.destroyed = m.destroyed ∧
      ∀ b, b ∉ (pre ++ (a, x) :: c :: post).map Prod.fst → m'.nodes b = m.nodes b := by
  obtain ⟨m₁, hcreate, ha₁, h₁, hfresh, hlen, hdes₁, hsame₁⟩ := h.create ha x
  have hnd := nodup_insert x h.nodup hfresh
  obtain ⟨prev, next, hb⟩ := h₁.between
  obtain ⟨m₂, q', hrun, hseg, hdes₂, hsame₂⟩ :=
    DList.Between.insertBefore (l := { l with length := (l.length + 1) % sizeModulus })
      ⟨hb.before, hb.node, hb.behind, hb.not_mem, hb.nodup⟩ ha₁ hnd
  have hhead := h.head_ne_none (by simp)
  have hlt : index < (l.length + 1) % sizeModulus := by
    rw [hlen]
    omega
  have hcursor : dlistGetNode m₁ { l with length := (l.length + 1) % sizeModulus } index true =
      .ok (some c.1) := hget m₁ h₁
  refine ⟨m₂, { l with
      length := (l.length + 1) % sizeModulus
      head := if pre = [] then some a else l.head }, ?_, ⟨⟨q', hseg⟩, hnd, ?_⟩, rfl,
    hdes₂.trans hdes₁, ?_⟩
  · simp only [dlistInsert, dlistInsertNode, hcreate, if_neg hhead, hcursor, ok_bind, if_pos hlt,
      hrun]
  · simp only [hlen, List.length_append, List.length_cons]
    omega
  · intro b hb'
    rw [hsame₂ b hb', hsame₁ b]
    rintro rfl
    exact hb' (by simp)

/-- Case 1 of `dlist_insert`. -/
theorem dlistInsert_first {m : Mem α} {l : DList} (h : l.Represents m []) {a : Addr}
    (ha : m.nodes a = none) (x : α) (index : ℕ) :
    ∃ m' l', dlistInsert m (some l) (some a) index x = .ok (.ok, m', some l') ∧
      l'.Represents m' [(a, x)] ∧ l'.dataDestroy = l.dataDestroy ∧
      m'.destroyed = m.destroyed ∧ ∀ b, b ∉ [(a, x)].map Prod.fst → m'.nodes b = m.nodes b := by
  obtain ⟨m₁, hcreate, ha₁, h₁, -, hlen, hdes₁, hsame₁⟩ := h.create ha x
  obtain ⟨_, -, hhead⟩ := h.chain
  refine ⟨m₁, { l with head := some a, length := (l.length + 1) % sizeModulus }, ?_,
    ⟨⟨some a, rfl, none, ha₁, rfl, rfl⟩, List.nodup_singleton a, hlen⟩, rfl, hdes₁, ?_⟩
  · simp only [dlistInsert, dlistInsertNode, hcreate, ← hhead, if_true, ok_bind]
  · exact fun b hb => hsame₁ b (by simpa using hb)

/-- Case 4 of `dlist_insert`. -/
theorem dlistInsert_behind {m : Mem α} {l : DList} {cells : List (Addr × α)}
    (h : l.Represents m cells) (hne : cells ≠ []) {a : Addr} (ha : m.nodes a = none) (x : α)
    {index : ℕ} (hindex : cells.length < index) :
    ∃ m' l', dlistInsert m (some l) (some a) index x = .ok (.ok, m', some l') ∧
      l'.Represents m' (cells ++ [(a, x)]) ∧ l'.dataDestroy = l.dataDestroy ∧
      m'.destroyed = m.destroyed ∧
      ∀ b, b ∉ (cells ++ [(a, x)]).map Prod.fst → m'.nodes b = m.nodes b := by
  obtain ⟨pre, c, rfl⟩ : ∃ pre c, cells = pre ++ [c] :=
    ⟨cells.dropLast, cells.getLast hne, (List.dropLast_append_getLast hne).symm⟩
  obtain ⟨m₁, hcreate, ha₁, h₁, hfresh, hlen, hdes₁, hsame₁⟩ := h.create ha x
  have hnd : ((pre ++ [c] ++ [(a, x)]).map Prod.fst).Nodup :=
    nodup_insert x (by simpa using h.nodup) (by simpa using hfresh)
  obtain ⟨q', hq⟩ := h₁.chain
  obtain ⟨m₂, q'', hbehind, hseg, hdes₂, hsame₂⟩ := dlistInsertBehind_spec hq ha₁ hnd
  have hhead := h.head_ne_none hne
  rw [List.length_append, List.length_singleton] at hindex
  have hget : dlistGetNode m₁ { l with length := (l.length + 1) % sizeModulus } index true =
      .ok (some c.1) := dlistGetNode_outside (l := l) h₁ (by omega) true
  have hnot : ¬ index < (l.length + 1) % sizeModulus := by
    rw [hlen, List.length_append, List.length_singleton]
    omega
  refine ⟨m₂, { l with length := (l.length + 1) % sizeModulus }, ?_, ⟨⟨q'', hseg⟩, hnd, ?_⟩, rfl,
    hdes₂.trans hdes₁, ?_⟩
  · simp only [dlistInsert, dlistInsertNode, hcreate, if_neg hhead, hget, ok_bind, if_neg hnot,
      hbehind]
  · simp only [hlen, List.length_append, List.length_singleton]
  · intro b hb
    simp only [List.map_append, List.map_singleton, List.mem_append, List.mem_singleton,
      not_or] at hb
    rw [hsame₂ b hb.1.2 hb.2, hsame₁ b hb.2]

/-- **Inserting** puts a node at its position and keeps the order of the others. -/
theorem dlistInsert_spec {m : Mem α} {l : DList} {cells : List (Addr × α)}
    (h : l.Represents m cells) {a : Addr} (ha : m.nodes a = none) (index : ℕ) (x : α) :
    ∃ pre post m' l', cells = pre ++ post ∧ pre.length = insertPosition cells.length index ∧
      dlistInsert m (some l) (some a) index x = .ok (.ok, m', some l') ∧
      l'.Represents m' (pre ++ (a, x) :: post) ∧ l'.dataDestroy = l.dataDestroy ∧
      m'.destroyed = m.destroyed ∧
      ∀ b, b ∉ (pre ++ (a, x) :: post).map Prod.fst → m'.nodes b = m.nodes b := by
  rcases Nat.lt_trichotomy index cells.length with hlt | rfl | hgt
  · -- before the node at the index
    have hcells : cells = cells.take index ++ cells[index] :: cells.drop (index + 1) := by
      rw [← List.drop_eq_getElem_cons hlt, List.take_append_drop]
    have hpre : (cells.take index).length = index := List.length_take_of_le hlt.le
    have h' := h
    rw [hcells] at h'
    have hle : index ≤ (cells.take index ++ cells[index] :: cells.drop (index + 1)).length := by
      rw [← hcells]
      exact hlt.le
    obtain ⟨m', l', hspec⟩ := dlistInsert_before h' ha x hle
      fun m' hm' => by simpa [hpre] using dlistGetNode_inside hm' true
    exact ⟨_, _, m', l', hcells, by rw [hpre, insertPosition, if_pos hlt], hspec⟩
  · rcases List.eq_nil_or_concat cells with rfl | ⟨pre, c, rfl⟩
    · obtain ⟨m', l', hspec⟩ := dlistInsert_first h ha x 0
      exact ⟨[], [], m', l', rfl, rfl, hspec⟩
    · -- before the last node
      rw [List.concat_eq_append] at *
      obtain ⟨m', l', hspec⟩ := dlistInsert_before h ha x le_rfl
        fun m' hm' => dlistGetNode_outside hm' (by simp) true
      exact ⟨pre, [c], m', l', rfl, by simp [insertPosition], hspec⟩
  · have hpos : insertPosition cells.length index = cells.length := by
      rw [insertPosition, if_neg (by omega), if_neg (by omega)]
    rcases eq_or_ne cells [] with rfl | hne
    · obtain ⟨m', l', hspec⟩ := dlistInsert_first h ha x index
      exact ⟨[], [], m', l', rfl, hpos.symm, hspec⟩
    · obtain ⟨m', l', hspec⟩ := dlistInsert_behind h hne ha x hgt
      exact ⟨cells, [], m', l', (List.append_nil _).symm, hpos.symm, hspec⟩

/-- **Appending** puts a node behind the last one. -/
theorem dlistAppend_spec {m : Mem α} {l : DList} {cells : List (Addr × α)}
    (h : l.Represents m cells) {a : Addr} (ha : m.nodes a = none) (x : α) :
    ∃ m' l', dlistAppend m (some l) (some a) x = .ok (.ok, m', some l') ∧
      l'.Represents m' (cells ++ [(a, x)]) ∧ l'.dataDestroy = l.dataDestroy ∧
      m'.destroyed = m.destroyed ∧
      ∀ b, b ∉ (cells ++ [(a, x)]).map Prod.fst → m'.nodes b = m.nodes b := by
  have hlt : cells.length < sizeModulus - 1 := by
    have hplaces := length_le_nodePlaces h.nodup
    have hle := nodePlaces_lt
    simp only [intMax] at hle
    simp only [sizeModulus]
    omega
  rcases eq_or_ne cells [] with rfl | hne
  · exact dlistInsert_first h ha x _
  · exact dlistInsert_behind h hne ha x hlt

/-- **Prepending** puts a node in front of the first one. -/
theorem dlistPrepend_spec {m : Mem α} {l : DList} {cells : List (Addr × α)}
    (h : l.Represents m cells) {a : Addr} (ha : m.nodes a = none) (x : α) :
    ∃ m' l', dlistPrepend m (some l) (some a) x = .ok (.ok, m', some l') ∧
      l'.Represents m' ((a, x) :: cells) ∧ l'.dataDestroy = l.dataDestroy ∧
      m'.destroyed = m.destroyed ∧
      ∀ b, b ∉ ((a, x) :: cells).map Prod.fst → m'.nodes b = m.nodes b := by
  cases cells with
  | nil => exact dlistInsert_first h ha x 0
  | cons c cells =>
      have h' : l.Represents m ([] ++ c :: cells) := h
      exact dlistInsert_before h' ha x (Nat.zero_le _) fun m' hm' => dlistGetNode_inside hm' true

/-! ### Destroying -/

/-- The loop of `dlist_destroy` frees the nodes of a chain in order. -/
theorem dlistDestroyLoop_spec (dataDestroy : Bool) {cells : List (Addr × α)} {m : Mem α}
    {q p q' : Option Addr} {fuel : ℕ} (hs : Segment m.nodes q p cells q' none)
    (hnd : (cells.map Prod.fst).Nodup) (hfuel : cells.length ≤ fuel) :
    ∃ m', dlistDestroyLoop dataDestroy fuel m p = .ok m' ∧
      m'.destroyed = (if dataDestroy then m.destroyed ++ cells.map Prod.snd else m.destroyed) ∧
      (∀ b ∈ cells.map Prod.fst, m'.nodes b = none) ∧
      ∀ b, b ∉ cells.map Prod.fst → m'.nodes b = m.nodes b := by
  induction cells generalizing m q p fuel with
  | nil =>
      obtain ⟨-, rfl⟩ := hs
      refine ⟨m, by cases fuel <;> rfl, by simp, by simp, fun b _ => rfl⟩
  | cons c cells ih =>
      obtain ⟨rfl, next, hc, hs⟩ := hs
      obtain ⟨fuel, rfl⟩ : ∃ k, fuel = k + 1 := ⟨fuel - 1, by simp at hfuel; omega⟩
      rw [List.map_cons, List.nodup_cons] at hnd
      set m₁ : Mem α :=
        { nodes := Function.update m.nodes c.1 none
          destroyed := if dataDestroy then m.destroyed ++ [c.2] else m.destroyed } with hm₁
      have hsame : ∀ b, b ≠ c.1 → m₁.nodes b = m.nodes b := fun b hb => Function.update_of_ne hb _ _
      have hs₁ : Segment m₁.nodes (some c.1) next cells q' none := by
        refine hs.congr fun b hb => hsame b ?_
        rintro rfl
        exact hnd.1 hb
      obtain ⟨m', hrun, hdes, hfree, hkeep⟩ :=
        ih hs₁ hnd.2 (Nat.le_of_succ_le_succ (by simpa using hfuel))
      refine ⟨m', ?_, ?_, ?_, ?_⟩
      · rw [dlistDestroyLoop, deref_eq hc, ok_bind, dlistNodeDestroy, deref_eq hc, ok_bind, ok_bind]
        exact hrun
      · rw [hdes]
        cases dataDestroy <;> simp [hm₁]
      · intro b hb
        rw [List.map_cons, List.mem_cons] at hb
        rcases hb with rfl | hb
        · rw [hkeep _ hnd.1]
          exact Function.update_self _ _ _
        · exact hfree b hb
      · intro b hb
        rw [List.map_cons, List.mem_cons, not_or] at hb
        rw [hkeep b hb.2, hsame b hb.1]

/-- **Destroying** frees every node of the list and destroys its data. -/
theorem dlistDestroy_spec {m : Mem α} {l : DList} {cells : List (Addr × α)}
    (h : l.Represents m cells) :
    ∃ m', dlistDestroy m (some l) = .ok m' ∧
      m'.destroyed = (if l.dataDestroy then m.destroyed ++ cells.map Prod.snd else m.destroyed) ∧
      (∀ b ∈ cells.map Prod.fst, m'.nodes b = none) ∧
      ∀ b, b ∉ cells.map Prod.fst → m'.nodes b = m.nodes b := by
  obtain ⟨q', hq⟩ := h.chain
  exact dlistDestroyLoop_spec l.dataDestroy hq h.nodup
    ((length_le_nodePlaces h.nodup).trans (Nat.le_succ _))

/-! ### Searching -/

/-- The loop of `dlist_find` counts the nodes in front of the first match. -/
theorem dlistFindLoop_eq {m : Mem α} (compare : α → Bool) {cells : List (Addr × α)} :
    ∀ {q p q' : Option Addr} {left : ℕ}, Segment m.nodes q p cells q' none →
      cells.length ≤ left → left ≤ intMax →
      dlistFindLoop m compare left p =
        .ok (intMax - left + cells.findIdx fun c => compare c.2) := by
  induction cells with
  | nil =>
      intro q p q' left hs _ _
      obtain ⟨-, rfl⟩ := hs
      cases left <;> rfl
  | cons c cells ih =>
      intro q p q' left hs hlen hleft
      obtain ⟨rfl, next, hc, hs⟩ := hs
      rw [List.length_cons] at hlen
      obtain ⟨left, rfl⟩ : ∃ k, left = k + 1 := ⟨left - 1, by omega⟩
      rw [dlistFindLoop, deref_eq hc, ok_bind, List.findIdx_cons]
      cases compare c.2 with
      | true => rfl
      | false =>
          rw [cond_false, if_neg Bool.false_ne_true, ih hs (by omega) (by omega)]
          congr 1
          omega

/-- **Searching** finds the first match, or ends at the length of the list. -/
theorem dlistFind_eq {m : Mem α} {l : DList} {cells : List (Addr × α)}
    (h : l.Represents m cells) (compare : α → Bool) :
    dlistFind m (some l) compare = .ok (cells.findIdx fun c => compare c.2) := by
  obtain ⟨q', hq⟩ := h.chain
  have hplaces := length_le_nodePlaces h.nodup
  have hlt := nodePlaces_lt
  rw [dlistFind, dlistFindLoop_eq compare hq (by omega) le_rfl, Nat.sub_self, Nat.zero_add]

end Wsn
