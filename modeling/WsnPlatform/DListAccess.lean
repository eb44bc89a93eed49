/-
**Access by index to the list of `src/common/dlist.c`.**

`dlist_get_by_index`, `dlist_set_by_index` and `dlist_delete` all start with the walk of
`dlist_get_node`, which reads the `next` pointer of its first node before it looks whether there is
one; `dlist_insert` compares its index with a length that it has counted up already.

Main definitions:

* `Wsn.dlistGetByIndex`, `Wsn.dlistSetByIndex` — **the operations**;
* `Wsn.InsertsAt` — a new item stands at the index, or at the end;
* `Wsn.AccessOp`, `Wsn.accessStep` — any call on a list;
* `Wsn.IndexedAccess` — no access by an index faults, and each does what its index says.

Main results:

* `Wsn.DList.Represents.get_ok_iff`, `Wsn.dlistSetByIndex_inside` — what the operations do;
* `Wsn.dlistInsert_insertsAt_iff` — an item goes where the index says, except at the length;
* `Wsn.indexedAccess_iff` — in every list that is reached, access is total exactly when it is not
  empty.
-/

import WsnPlatform.DListRuns

set_option relaxedAutoImplicit false
set_option autoImplicit false

namespace Wsn

open LinkedChain FaultRun

variable {α : Type}

/-! ### The operations -/

/-- **`dlist_set_by_index`**. -/
def dlistSetByIndex (m : Mem α) (thiz : Option DList) (index : ℕ) (data : α) :
    Exec (Ret × Mem α) :=
  match thiz with
  | none => .ok (.invalidParams, m)
  | some thiz => do
      let cursor ← dlistGetNode m thiz index false
      match cursor with
      | none => .ok (.fail, m)
      | some _ => do
          let m ← m.modify cursor fun n => { n with data := data }
          .ok (.ok, m)

/-- **`dlist_get_by_index`**.  The last argument is what `*data` holds before the call; the result
has what it holds after it. -/
def dlistGetByIndex (m : Mem α) (thiz : Option DList) (index : ℕ) (data : α) : Exec (Ret × α) :=
  match thiz with
  | none => .ok (.invalidParams, data)
  | some thiz => do
      let cursor ← dlistGetNode m thiz index false
      match cursor with
      | none => .ok (.fail, data)
      | some _ => do
          let node ← m.deref cursor
          .ok (.ok, node.data)

section Access

variable {m : Mem α} {l : DList} {cells pre post : List (Addr × α)} {c : Addr × α} {index : ℕ}

/-- A list cut at an index inside it. -/
theorem exists_cut_at (hindex : index < cells.length) :
    ∃ pre c post, cells = pre ++ c :: post ∧ pre.length = index := by
  refine ⟨cells.take index, cells[index], cells.drop (index + 1), ?_,
    List.length_take_of_le hindex.le⟩
  rw [← List.drop_eq_getElem_cons hindex, List.take_append_drop]

/-- The walk to an index behind a list that is not empty finds no node. -/
theorem dlistGetNode_none (h : l.Represents m cells) (hne : cells ≠ [])
    (hindex : cells.length ≤ index) : dlistGetNode m l index false = .ok none := by
  obtain ⟨pre, c, rfl⟩ : ∃ pre c, cells = pre ++ [c] :=
    ⟨cells.dropLast, cells.getLast hne, (List.dropLast_append_getLast hne).symm⟩
  rw [List.length_append, List.length_singleton] at hindex
  exact dlistGetNode_outside h (show pre.length < index by omega) false

theorem dlistGetByIndex_nil (h : l.Represents m []) (index : ℕ) (data : α) :
    dlistGetByIndex m (some l) index data = .error .nullDeref := by
  simp only [dlistGetByIndex, dlistGetNode_nil h, error_bind]

theorem dlistGetByIndex_inside (h : l.Represents m (pre ++ c :: post)) (data : α) :
    dlistGetByIndex m (some l) pre.length data = .ok (.ok, c.2) := by
  obtain ⟨prev, next, hb⟩ := h.between
  simp only [dlistGetByIndex, dlistGetNode_inside h, ok_bind, deref_eq hb.node]

theorem dlistGetByIndex_outside (h : l.Represents m cells) (hne : cells ≠ [])
    (hindex : cells.length ≤ index) (data : α) :
    dlistGetByIndex m (some l) index data = .ok (.fail, data) := by
  simp only [dlistGetByIndex, dlistGetNode_none h hne hindex, ok_bind]

/-- **What is read at an index** is the item there, if there is one. -/
theorem DList.Represents.get_ok_iff (h : l.Represents m cells) {data x : α} :
    dlistGetByIndex m (some l) index data = .ok (.ok, x) ↔
      (cells.map Prod.snd)[index]? = some x := by
  rcases Nat.lt_or_ge index cells.length with hlt | hge
  · obtain ⟨pre, c, post, rfl, rfl⟩ := exists_cut_at hlt
    simp [dlistGetByIndex_inside h]
  · have hout : (cells.map Prod.snd)[index]? = none := by simpa using hge
    rw [hout]
    rcases eq_or_ne cells [] with rfl | hne
    · simp [dlistGetByIndex_nil h]
    · simp [dlistGetByIndex_outside h hne hge]

theorem dlistSetByIndex_nil (h : l.Represents m []) (index : ℕ) (x : α) :
    dlistSetByIndex m (some l) index x = .error .nullDeref := by
  simp only [dlistSetByIndex, dlistGetNode_nil h, error_bind]

theorem dlistSetByIndex_outside (h : l.Represents m cells) (hne : cells ≠ [])
    (hindex : cells.length ≤ index) (x : α) :
    dlistSetByIndex m (some l) index x = .ok (.fail, m) := by
  simp only [dlistSetByIndex, dlistGetNode_none h hne hindex, ok_bind]

/-- **Replacing an item** leaves the others, and the rest of the memory. -/
theorem dlistSetByIndex_inside (h : l.Represents m (pre ++ c :: post)) (x : α) :
    ∃ m', dlistSetByIndex m (some l) pre.length x = .ok (.ok, m') ∧
      l.Represents m' (pre ++ (c.1, x) :: post) ∧ m'.destroyed = m.destroyed ∧
      ∀ b, b ≠ c.1 → m'.nodes b = m.nodes b := by
  obtain ⟨prev, next, hb⟩ := h.between
  obtain ⟨q', hq⟩ := h.chain
  refine ⟨⟨setData m.nodes c.1 x, m.destroyed⟩, ?_, ⟨⟨q', hq.setData h.nodup x⟩, ?_, ?_⟩, rfl,
    fun b hbc => Function.update_of_ne hbc _ _⟩
  · simp only [dlistSetByIndex, dlistGetNode_inside h, ok_bind, modify_eq hb.node, setData, hb.node,
      Option.map_some]
  · simpa using h.nodup
  · simpa using h.length

end Access

/-! ### Where an item is inserted -/

/-- **The item is inserted at the index**, or at the end when the index is behind it: it is read
there, and the items from there on have moved up by one. -/
structure InsertsAt (m m' : Mem α) (l l' : DList) (index : ℕ) (x : α) : Prop where
  new : ∀ data, dlistGetByIndex m' (some l') (min index l.length) data = .ok (.ok, x)
  below : ∀ k < min index l.length, ∀ data y,
    dlistGetByIndex m (some l) k data = .ok (.ok, y) →
      dlistGetByIndex m' (some l') k data = .ok (.ok, y)
  above : ∀ k, min index l.length ≤ k → ∀ data y,
    dlistGetByIndex m (some l) k data = .ok (.ok, y) →
      dlistGetByIndex m' (some l') (k + 1) data = .ok (.ok, y)

section Insert

variable {m m' : Mem α} {l l' : DList} {cells pre post : List (Addr × α)} {a : Addr} {x : α}

/-- An insertion that succeeds has found a place for its node. -/
theorem place_of_insert_ok {place : Option Addr} {index : ℕ} {thiz : Option DList}
    (hrun : dlistInsert m (some l) place index x = .ok (.ok, m', thiz)) :
    ∃ a, place = some a ∧ m.nodes a = none := by
  by_contra hused
  push Not at hused
  rw [dlistInsert_oom l index x hused] at hrun
  cases hrun

/-- An item that stands behind as many items as the index says is inserted at it. -/
theorem insertsAt_of_length {index : ℕ} (h : l.Represents m (pre ++ post))
    (h' : l'.Represents m' (pre ++ (a, x) :: post))
    (hpre : pre.length = min index (pre ++ post).length) : InsertsAt m m' l l' index x := by
  rw [← h.length] at hpre
  have hmap : ((pre ++ (a, x) :: post).map Prod.snd) =
      pre.map Prod.snd ++ x :: post.map Prod.snd := by simp
  refine ⟨fun data => ?_, fun k hk data y hy => ?_, fun k hk data y hy => ?_⟩
  · rw [h'.get_ok_iff, hmap, ← hpre, List.getElem?_append_right (by simp)]
    simp
  · rw [h.get_ok_iff, List.map_append, List.getElem?_append_left (by simpa [hpre] using hk)] at hy
    rw [h'.get_ok_iff, hmap, List.getElem?_append_left (by simpa [hpre] using hk), hy]
  · have hle : (pre.map Prod.snd).length ≤ k := by simpa [hpre] using hk
    rw [h.get_ok_iff, List.map_append, List.getElem?_append_right hle] at hy
    rw [h'.get_ok_iff, hmap, List.getElem?_append_right (by omega), Nat.succ_sub hle,
      List.getElem?_cons_succ, hy]

/-- An item that stands before the last one is inserted at the length only if the two are equal. -/
theorem insertsAt_before_last {c : Addr × α} (h : l.Represents m (pre ++ [c]))
    (h' : l'.Represents m' (pre ++ [(a, x), c])) :
    InsertsAt m m' l l' (pre ++ [c]).length x ↔ c.2 = x := by
  have hlen : min (pre ++ [c]).length l.length = pre.length + 1 := by
    rw [h.length, Nat.min_self, List.length_append, List.length_singleton]
  have hlast : ((pre ++ [(a, x), c]).map Prod.snd)[pre.length + 1]? = some c.2 := by
    rw [List.map_append, List.getElem?_append_right (by simp)]
    simp
  constructor
  · intro hins
    have hnew := hins.new x
    rw [h'.get_ok_iff, hlen, hlast] at hnew
    exact Option.some.inj hnew
  · rintro rfl
    -- the two items cannot be told apart
    have hmap : (pre ++ [(a, c.2), c]).map Prod.snd = (pre ++ [c] ++ [(a, c.2)]).map Prod.snd := by
      simp
    refine ⟨fun data => ?_, fun k hk data y hy => ?_, fun k hk data y hy => ?_⟩
    · rw [h'.get_ok_iff, hlen, hlast]
    · rw [hlen] at hk
      rw [h.get_ok_iff] at hy
      rw [h'.get_ok_iff, hmap, List.map_append, List.getElem?_append_left (by simpa using hk), hy]
    · rw [hlen] at hk
      rw [h.get_ok_iff, List.getElem?_eq_none (by simpa using hk)] at hy
      cases hy

end Insert

/-- **An item is inserted where the index says**, unless the index is the length of a list that is
not empty; there it ends up before the last item, which shows unless the two are equal. -/
theorem dlistInsert_insertsAt_iff {m m' : Mem α} {l l' : DList} {cells : List (Addr × α)}
    {place : Option Addr} {index : ℕ} {x : α} (h : l.Represents m cells)
    (hrun : dlistInsert m (some l) place index x = .ok (.ok, m', some l')) :
    InsertsAt m m' l l' index x ↔ (index = cells.length → ∀ c ∈ cells.getLast?, c.2 = x) := by
  obtain ⟨a, rfl, ha⟩ := place_of_insert_ok hrun
  obtain ⟨pre, post, m₁, l₁, rfl, hpos, hrun₁, h', -⟩ := dlistInsert_spec h ha index x
  rw [hrun] at hrun₁
  obtain ⟨-, rfl, hl⟩ : Ret.ok = Ret.ok ∧ m' = m₁ ∧ some l' = some l₁ := by simpa using hrun₁
  obtain rfl := Option.some.inj hl
  rw [insertPosition] at hpos
  by_cases hindex : index = (pre ++ post).length ∧ pre ++ post ≠ []
  · obtain ⟨rfl, hne⟩ := hindex
    rw [if_neg (lt_irrefl _), if_pos rfl, List.length_append] at hpos
    have hpos' : 0 < (pre ++ post).length := List.length_pos_of_ne_nil hne
    rw [List.length_append] at hpos'
    obtain ⟨c, rfl⟩ : ∃ c, post = [c] := List.length_eq_one_iff.1 (by omega)
    rw [insertsAt_before_last h h']
    simp
  · have hpre : pre.length = min index (pre ++ post).length := by
      rcases eq_or_ne (pre ++ post) [] with hnil | hne
      · obtain ⟨rfl, rfl⟩ := List.append_eq_nil_iff.1 hnil
        exact (Nat.min_zero index).symm
      · have hout : index ≠ (pre ++ post).length := fun hbad => hindex ⟨hbad, hne⟩
        rw [if_neg hout] at hpos
        split at hpos <;> omega
    refine iff_of_true (insertsAt_of_length h h' hpre) fun hbad c hc => ?_
    have hnil : pre ++ post = [] := by
      by_contra hne
      exact hindex ⟨hbad, hne⟩
    rw [hnil] at hc
    cases hc

theorem one_lt_nodePlaces : 1 < nodePlaces := by
  simp [nodePlaces]

/-- Two places of the memory. -/
def firstPlace : Addr := ⟨0, nodePlaces_pos⟩

def secondPlace : Addr := ⟨1, one_lt_nodePlaces⟩

/-- A list of one item, and the memory behind it still free. -/
theorem represents_one (x : ℕ) : ∃ m l,
    dlistInsert Mem.empty (some (dlistCreate true)) (some firstPlace) 0 x = .ok (.ok, m, some l) ∧
      l.Represents m [(firstPlace, x)] ∧ m.nodes secondPlace = none := by
  obtain ⟨m, l, hrun, hl, -, -, hsame⟩ :=
    dlistInsert_first (represents_create Mem.empty true) (a := firstPlace) rfl x 0
  have hne : secondPlace ≠ firstPlace := fun hbad => Nat.one_ne_zero (congrArg Fin.val hbad)
  exact ⟨m, l, hrun, hl, hsame secondPlace (by simpa using hne)⟩

theorem dlistInsert_insertsAt_iff_one : ∃ m l m' l',
    dlistInsert m (some l) (some secondPlace) 1 9 = .ok (.ok, m', some l') ∧
      (InsertsAt m m' l l' 1 9 ↔
        (1 = [(firstPlace, 7)].length → ∀ c ∈ [(firstPlace, 7)].getLast?, c.2 = 9)) := by
  obtain ⟨m, l, -, hl, hfree⟩ := represents_one 7
  obtain ⟨pre, post, m', l', -, -, hrun, -⟩ := dlistInsert_spec hl hfree 1 9
  exact ⟨m, l, m', l', hrun, dlistInsert_insertsAt_iff hl hrun⟩

/-- An item inserted at the index 1 into a list of one item: what is read there afterwards is the
item that was in the list. -/
theorem dlistInsert_at_length_misplaces : ∃ m l m' l',
    dlistInsert Mem.empty (some (dlistCreate true)) (some firstPlace) 0 7 = .ok (.ok, m, some l) ∧
      dlistInsert m (some l) (some secondPlace) 1 9 = .ok (.ok, m', some l') ∧
      dlistGetByIndex m' (some l') 1 0 = .ok (.ok, 7) ∧ ¬ InsertsAt m m' l l' 1 9 := by
  obtain ⟨m, l, hrun, hl, hfree⟩ := represents_one 7
  obtain ⟨pre, post, m', l', hcut, hpos, hrun', hl', -⟩ := dlistInsert_spec hl hfree 1 9
  have hpre : pre = [] := List.length_eq_zero_iff.1 hpos
  subst hpre
  obtain rfl : [(firstPlace, 7)] = post := hcut
  refine ⟨m, l, m', l', hrun, hrun', hl'.get_ok_iff.2 rfl, fun hins => ?_⟩
  have hl₁ : l.Represents m ([] ++ [(firstPlace, 7)]) := hl
  have hlast := (insertsAt_before_last hl₁ hl').1 hins
  cases hlast

/-! ### Any calls on a list -/

/-- A call on a list, also one that only looks at it. -/
inductive AccessOp (α : Type)
  | call (op : ListOp α)
  | set (index : ℕ) (data : α)
  /-- The second argument is what `*data` holds. -/
  | get (index : ℕ) (data : α)
  | length
  | find (compare : α → Bool)

/-- **Any call on the list**, with the `Ret` it returns, if it returns one. -/
def accessStep (s : ListState α) : AccessOp α → Exec (Option Ret × ListState α)
  | .call op => do
      let r ← listStep s op
      .ok (some r.1, r.2)
  | .set index data => do
      let r ← dlistSetByIndex s.1 s.2 index data
      .ok (some r.1, r.2, s.2)
  | .get index data => do
      let r ← dlistGetByIndex s.1 s.2 index data
      .ok (some r.1, s)
  | .length => do
      let _ ← dlistLength s.2
      .ok (none, s)
  | .find compare => do
      let _ ← dlistFind s.1 s.2 compare
      .ok (none, s)

/-- The list holds some items. -/
def ListOk (s : ListState α) : Prop := ∃ l cells, s.2 = some l ∧ l.Represents s.1 cells

/-- An insertion leaves a list, whether it succeeds or not. -/
theorem DList.Represents.listOk_insert {m : Mem α} {l : DList} {cells : List (Addr × α)}
    (h : l.Represents m cells) {place : Option Addr} {index : ℕ} {x : α}
    {o : Ret × ListState α} (ho : dlistInsert m (some l) place index x = .ok o) : ListOk o.2 := by
  by_cases hused : ∀ a, place = some a → m.nodes a ≠ none
  · rw [dlistInsert_oom l index x hused] at ho
    cases ho
    exact ⟨l, cells, rfl, h⟩
  · push Not at hused
    obtain ⟨a, rfl, ha⟩ := hused
    obtain ⟨pre, post, m', l', -, -, hrun, h', -⟩ := dlistInsert_spec h ha index x
    rw [hrun] at ho
    cases ho
    exact ⟨l', _, rfl, h'⟩

/-- A deletion that does not fault leaves a list. -/
theorem DList.Represents.listOk_delete {m : Mem α} {l : DList} {cells : List (Addr × α)}
    (h : l.Represents m cells) {index : ℕ} {o : Ret × ListState α}
    (ho : dlistDelete m (some l) index = .ok o) : ListOk o.2 := by
  rcases Nat.lt_or_ge index cells.length with hlt | hge
  · obtain ⟨pre, c, post, rfl, rfl⟩ := exists_cut_at hlt
    obtain ⟨m', l', hrun, h', -⟩ := dlistDelete_spec h
    rw [hrun] at ho
    cases ho
    exact ⟨l', _, rfl, h'⟩
  · rcases eq_or_ne cells [] with rfl | hne
    · rw [dlistDelete_nil h] at ho
      cases ho
    · rw [dlistDelete_outside h hne hge] at ho
      cases ho
      exact ⟨l, cells, rfl, h⟩

/-- Replacing an item leaves a list. -/
theorem DList.Represents.listOk_set {m : Mem α} {l : DList} {cells : List (Addr × α)}
    (h : l.Represents m cells) {index : ℕ} {x : α} {r : Ret} {m' : Mem α}
    (ho : dlistSetByIndex m (some l) index x = .ok (r, m')) : ListOk (m', some l) := by
  rcases Nat.lt_or_ge index cells.length with hlt | hge
  · obtain ⟨pre, c, post, rfl, rfl⟩ := exists_cut_at hlt
    obtain ⟨m₁, hrun, h', -⟩ := dlistSetByIndex_inside h x
    rw [hrun] at ho
    cases ho
    exact ⟨l, _, rfl, h'⟩
  · rcases eq_or_ne cells [] with rfl | hne
    · rw [dlistSetByIndex_nil h] at ho
      cases ho
    · rw [dlistSetByIndex_outside h hne hge] at ho
      cases ho
      exact ⟨l, cells, rfl, h⟩

/-- **Any call leaves a list.** -/
theorem ListOk.step {s : ListState α} (h : ListOk s) {op : AccessOp α}
    {o : Option Ret × ListState α} (ho : accessStep s op = .ok o) : ListOk o.2 := by
  obtain ⟨m, thiz⟩ := s
  obtain ⟨l, cells, hl, hrep⟩ := h
  obtain rfl : thiz = some l := hl
  cases op with
  | call op =>
      obtain ⟨r, hr, ho⟩ := bind_eq_ok.1 ho
      cases ho
      cases op with
      | append place data => exact hrep.listOk_insert hr
      | prepend place data => exact hrep.listOk_insert hr
      | insert place index data => exact hrep.listOk_insert hr
      | delete index => exact hrep.listOk_delete hr
  | set index data =>
      obtain ⟨r, hr, ho⟩ := bind_eq_ok.1 ho
      cases ho
      exact hrep.listOk_set hr
  | get index data =>
      obtain ⟨r, -, ho⟩ := bind_eq_ok.1 ho
      cases ho
      exact ⟨l, cells, rfl, hrep⟩
  | length =>
      obtain ⟨r, -, ho⟩ := bind_eq_ok.1 ho
      cases ho
      exact ⟨l, cells, rfl, hrep⟩
  | find compare =>
      obtain ⟨r, -, ho⟩ := bind_eq_ok.1 ho
      cases ho
      exact ⟨l, cells, rfl, hrep⟩

/-- **Any run of calls leaves a list.** -/
theorem ListOk.reaches {m₀ : Mem α} {dataDestroy : Bool} {s : ListState α}
    (h : Reaches accessStep (m₀, some (dlistCreate dataDestroy)) s) : ListOk s := by
  have hstep : ∀ (t : ListState α) op o, ListOk t → accessStep t op = .ok o → ListOk o.2 :=
    fun _ _ _ ht ho => ht.step ho
  exact Reaches.invariant hstep ⟨_, [], rfl, represents_create m₀ dataDestroy⟩ h

/-! ### Access by an index -/

/-- **Indexed access is total**: nothing faults, an index inside the list reads or replaces the item
there, and one behind it changes nothing. -/
structure IndexedAccess (m : Mem α) (l : DList) (cells : List (Addr × α)) (index : ℕ) :
    Prop where
  get_inside : ∀ x, (cells.map Prod.snd)[index]? = some x → ∀ data,
    dlistGetByIndex m (some l) index data = .ok (.ok, x)
  get_outside : l.length ≤ index → ∀ data,
    dlistGetByIndex m (some l) index data = .ok (.fail, data)
  set_inside : index < l.length → ∀ x, ∃ m' cells',
    dlistSetByIndex m (some l) index x = .ok (.ok, m') ∧ l.Represents m' cells' ∧
      cells'.map Prod.snd = (cells.map Prod.snd).set index x
  set_outside : l.length ≤ index → ∀ x,
    dlistSetByIndex m (some l) index x = .ok (.fail, m)
  delete_returns : ∃ o, dlistDelete m (some l) index = .ok o
  delete_outside : l.length ≤ index → ∃ r, dlistDelete m (some l) index = .ok (r, m, some l)

/-- In an empty list every access reads through `NULL`. -/
theorem not_indexedAccess_nil {m : Mem α} {l : DList} (h : l.Represents m []) (index : ℕ) :
    ¬ IndexedAccess m l [] index := by
  intro hacc
  obtain ⟨o, ho⟩ := hacc.delete_returns
  rw [dlistDelete_nil h] at ho
  cases ho

/-- In a list that is not empty every access is total. -/
theorem indexedAccess_of_ne_nil {m : Mem α} {l : DList} {cells : List (Addr × α)}
    (h : l.Represents m cells) (hne : cells ≠ []) (index : ℕ) : IndexedAccess m l cells index where
  get_inside x hx data := h.get_ok_iff.2 hx
  get_outside hout data := dlistGetByIndex_outside h hne (h.length ▸ hout) data
  set_inside hin x := by
    rw [h.length] at hin
    obtain ⟨pre, c, post, rfl, rfl⟩ := exists_cut_at hin
    obtain ⟨m', hrun, h', -⟩ := dlistSetByIndex_inside h x
    refine ⟨m', _, hrun, h', ?_⟩
    have hset := List.set_append_right (s := pre.map Prod.snd) (t := (c :: post).map Prod.snd)
      pre.length x (by simp)
    rw [List.map_append, List.map_append, hset]
    simp
  set_outside hout x := dlistSetByIndex_outside h hne (h.length ▸ hout) x
  delete_returns := by
    rcases Nat.lt_or_ge index cells.length with hlt | hge
    · obtain ⟨pre, c, post, rfl, rfl⟩ := exists_cut_at hlt
      obtain ⟨m', l', hrun, -⟩ := dlistDelete_spec h
      exact ⟨_, hrun⟩
    · exact ⟨_, dlistDelete_outside h hne hge⟩
  delete_outside hout := ⟨.ok, dlistDelete_outside h hne (h.length ▸ hout)⟩

/-- **In every list that is reached, access by an index is total exactly when the list is not
empty.** -/
theorem indexedAccess_iff {m₀ : Mem α} {dataDestroy : Bool} {s : ListState α}
    (h : Reaches accessStep (m₀, some (dlistCreate dataDestroy)) s) (index : ℕ) :
    ∃ l cells, s.2 = some l ∧ l.Represents s.1 cells ∧
      (IndexedAccess s.1 l cells index ↔ l.length ≠ 0) := by
  obtain ⟨l, cells, hl, hrep⟩ := ListOk.reaches h
  refine ⟨l, cells, hl, hrep, ?_⟩
  rcases eq_or_ne cells [] with rfl | hne
  · exact iff_of_false (not_indexedAccess_nil hrep index) (not_not.2 hrep.length)
  · refine iff_of_true (indexedAccess_of_ne_nil hrep hne index) ?_
    rw [hrep.length]
    exact List.length_pos_iff.2 hne |>.ne'

/-- An item is inserted and deleted. -/
def emptiedCalls : List (AccessOp ℕ) :=
  [.call (.insert (some firstPlace) 0 7), .call (.delete 0)]

theorem emptiedCalls_trace : ∃ tr s l,
    trace accessStep (Mem.empty, some (dlistCreate true)) emptiedCalls = .ok (tr, s) ∧
      s.2 = some l ∧ l.Represents s.1 [] := by
  obtain ⟨m, l, hrun, hl, -⟩ := represents_one 7
  have hl₁ : l.Represents m ([] ++ (firstPlace, 7) :: []) := hl
  obtain ⟨m', l', hrun', hl', -⟩ := dlistDelete_spec hl₁
  have hinsert : accessStep (Mem.empty, some (dlistCreate true))
      (.call (.insert (some firstPlace) 0 7)) = .ok (some .ok, m, some l) := by
    simp only [accessStep, listStep, hrun, ok_bind]
  have hdelete : accessStep (m, some l) (.call (.delete 0)) = .ok (some .ok, m', some l') := by
    rw [List.length_nil] at hrun'
    simp only [accessStep, listStep, hrun', ok_bind]
  exact ⟨_, _, l', trace_cons_ok hinsert (trace_cons_ok hdelete rfl), rfl, hl'⟩

theorem indexedAccess_iff_emptied : ∃ (s : ListState ℕ) (l : DList) (cells : List (Addr × ℕ)),
    s.2 = some l ∧ l.Represents s.1 cells ∧ (IndexedAccess s.1 l cells 0 ↔ l.length ≠ 0) := by
  obtain ⟨tr, s, _, htrace, -⟩ := emptiedCalls_trace
  exact ⟨s, indexedAccess_iff ⟨emptiedCalls, tr, htrace⟩ 0⟩

/-- Once its only item is deleted, reading the list at the index 0 faults. -/
theorem emptied_access_faults : ∃ tr s l,
    trace accessStep (Mem.empty, some (dlistCreate true)) emptiedCalls = .ok (tr, s) ∧
      s.2 = some l ∧ l.Represents s.1 [] ∧ dlistGetByIndex s.1 s.2 0 0 = .error .nullDeref ∧
      ¬ IndexedAccess s.1 l [] 0 := by
  obtain ⟨tr, s, l, htrace, hl, hrep⟩ := emptiedCalls_trace
  exact ⟨tr, s, l, htrace, hl, hrep, hl ▸ dlistGetByIndex_nil hrep 0 0,
    not_indexedAccess_nil hrep 0⟩

end Wsn
