/-
**Doubly linked chains in a store.**

A store maps addresses to nodes, and a node points to the one before it and the one after it.  A
*segment* is a run of nodes that are linked in both directions; it is described by the list of its
addresses and data, by the pointers that lead into it and by the pointers that lead out of it.

Nothing here is about a particular program: addresses and data are arbitrary types.

Main definitions:

* `LinkedChain.Segment` — linked nodes with given addresses and data;
* `LinkedChain.setNext`, `LinkedChain.setPrev` — redirecting the pointers of a node;
* `LinkedChain.setData` — replacing its data.

Main results:

* `LinkedChain.segment_append` — a segment is cut in two at any place;
* `LinkedChain.Segment.congr` — a segment depends on its own addresses only;
* `LinkedChain.Segment.unique` — the store determines a segment;
* `LinkedChain.Segment.setData` — new data for one node of a segment;
* `LinkedChain.Segment.unlink` — two pointers take a node out of a chain;
* `LinkedChain.Segment.link` — two pointers put a node into a chain.
-/

import Mathlib.Data.List.Nodup
import Mathlib.Logic.Function.Basic

set_option relaxedAutoImplicit false
set_option autoImplicit false

namespace LinkedChain

universe u v

variable {ι : Type u} {α : Type v}

/-! ### Nodes and stores -/

/-- A node of a doubly linked list. -/
structure Node (ι : Type u) (α : Type v) where
  prev : Option ι
  next : Option ι
  data : α

/-- The nodes in memory. -/
abbrev Store (ι : Type u) (α : Type v) := ι → Option (Node ι α)

/-! ### Segments -/

/-- **A segment of a chain.**  `Segment h q p cells q' p'` says that the pointer `p`, coming from
the node at `q`, leads through nodes with the addresses and data of `cells`, linked in both
directions, to the pointer `p'`, which then comes from the node at `q'`. -/
def Segment (h : Store ι α) : Option ι → Option ι → List (ι × α) → Option ι → Option ι → Prop
  | q, p, [], q', p' => q' = q ∧ p' = p
  | q, p, c :: cells, q', p' =>
      p = some c.1 ∧ ∃ next, h c.1 = some ⟨q, next, c.2⟩ ∧
        Segment h (some c.1) next cells q' p'

variable {h h' : Store ι α} {q p q' p' : Option ι} {cells : List (ι × α)} {a : ι}

@[simp] theorem segment_nil : Segment h q p [] q' p' ↔ q' = q ∧ p' = p := Iff.rfl

theorem segment_cons {c : ι × α} : Segment h q p (c :: cells) q' p' ↔
    p = some c.1 ∧ ∃ next, h c.1 = some ⟨q, next, c.2⟩ ∧
      Segment h (some c.1) next cells q' p' := Iff.rfl

/-- **A segment is cut in two at any place.** -/
theorem segment_append {cells₂ : List (ι × α)} : Segment h q p (cells ++ cells₂) q' p' ↔
    ∃ q₁ p₁, Segment h q p cells q₁ p₁ ∧ Segment h q₁ p₁ cells₂ q' p' := by
  induction cells generalizing q p with
  | nil => simp
  | cons c cells ih =>
      simp only [List.cons_append, segment_cons, ih]
      constructor
      · rintro ⟨hp, next, hc, q₁, p₁, h₁, h₂⟩
        exact ⟨q₁, p₁, ⟨hp, next, hc, h₁⟩, h₂⟩
      · rintro ⟨q₁, p₁, ⟨hp, next, hc, h₁⟩, h₂⟩
        exact ⟨hp, next, hc, q₁, p₁, h₁, h₂⟩

/-- **A segment depends on its own addresses only.** -/
theorem Segment.congr (hs : Segment h q p cells q' p')
    (heq : ∀ a ∈ cells.map Prod.fst, h' a = h a) : Segment h' q p cells q' p' := by
  induction cells generalizing q p with
  | nil => exact hs
  | cons c cells ih =>
      obtain ⟨hp, next, hc, hs⟩ := hs
      refine ⟨hp, next, ?_, ih hs fun a ha => heq a (List.mem_cons_of_mem _ ha)⟩
      rw [heq c.1 List.mem_cons_self, hc]

/-- The pointer into a segment that is not empty. -/
theorem Segment.head_eq (hs : Segment h q p cells q' p') (hne : cells ≠ []) :
    ∃ c, cells.head? = some c ∧ p = some c.1 := by
  obtain ⟨c, cells, rfl⟩ := List.exists_cons_of_ne_nil hne
  exact ⟨c, rfl, hs.1⟩

/-- Every node of a segment is in the store. -/
theorem Segment.mem_store (hs : Segment h q p cells q' p')
    (ha : a ∈ cells.map Prod.fst) : h a ≠ none := by
  induction cells generalizing q p with
  | nil => cases ha
  | cons c cells ih =>
      obtain ⟨-, next, hc, hs⟩ := hs
      rw [List.map_cons, List.mem_cons] at ha
      rcases ha with rfl | ha
      · simp [hc]
      · exact ih hs ha

/-- The node behind which a segment ends: its last one, or the one it came from. -/
theorem Segment.last_eq (hs : Segment h q p cells q' p') :
    q' = q ∧ cells = [] ∨ ∃ c cells₁, cells = cells₁ ++ [c] ∧ q' = some c.1 := by
  rcases List.eq_nil_or_concat cells with rfl | ⟨cells₁, c, rfl⟩
  · exact Or.inl ⟨hs.1, rfl⟩
  · rw [List.concat_eq_append, segment_append] at hs
    obtain ⟨q₁, p₁, -, -, next, -, hq, -⟩ := hs
    exact Or.inr ⟨c, cells₁, List.concat_eq_append, hq⟩

/-- The node behind which a chain ends is one of its own. -/
theorem Segment.last_mem (hs : Segment h none p cells (some a) p') : a ∈ cells.map Prod.fst := by
  rcases hs.last_eq with ⟨hq, -⟩ | ⟨c, cells₁, rfl, hq⟩
  · cases hq
  · rw [Option.some.inj hq]
    simp

/-- The node that a pointer into the rest of a chain leads to is one of its own. -/
theorem Segment.first_mem (hs : Segment h q (some a) cells q' none) : a ∈ cells.map Prod.fst := by
  cases cells with
  | nil => cases hs.2
  | cons c cells =>
      rw [Option.some.inj hs.1]
      simp

/-- **The store determines the segment** that a pointer leads through to the end. -/
theorem Segment.unique {cells₂ : List (ι × α)} {q₂ : Option ι} (hs : Segment h q p cells q' none)
    (hs₂ : Segment h q p cells₂ q₂ none) : cells = cells₂ := by
  induction cells generalizing q p cells₂ with
  | nil =>
      obtain ⟨-, rfl⟩ := hs
      cases cells₂ with
      | nil => rfl
      | cons d cells₂ => cases hs₂.1
  | cons c cells ih =>
      obtain ⟨rfl, next, hc, hs⟩ := hs
      cases cells₂ with
      | nil => cases hs₂.2
      | cons d cells₂ =>
          obtain ⟨hcd, next₂, hd, hs₂⟩ := hs₂
          have haddr : c.1 = d.1 := Option.some.inj hcd
          rw [← haddr, hc] at hd
          obtain ⟨-, rfl, hdata⟩ := (Node.mk.injEq ..).mp (Option.some.inj hd)
          rw [← haddr] at hs₂
          rw [Prod.ext haddr hdata, ih hs hs₂]

/-! ### Redirecting pointers -/

variable [DecidableEq ι]

/-- The store after `a->next = p` for a node that is there, and unchanged for `NULL`. -/
def setNext (h : Store ι α) : Option ι → Option ι → Store ι α
  | none, _ => h
  | some a, p => Function.update h a ((h a).map fun n => { n with next := p })

/-- The store after `a->prev = q` for a node that is there, and unchanged for `NULL`. -/
def setPrev (h : Store ι α) : Option ι → Option ι → Store ι α
  | none, _ => h
  | some a, q => Function.update h a ((h a).map fun n => { n with prev := q })

theorem setNext_of_ne {a? : Option ι} {b : ι} (hb : a? ≠ some b) (p : Option ι) :
    setNext h a? p b = h b := by
  cases a? with
  | none => rfl
  | some a => exact Function.update_of_ne (fun hba => hb (by rw [hba])) _ _

theorem setPrev_of_ne {a? : Option ι} {b : ι} (hb : a? ≠ some b) (q : Option ι) :
    setPrev h a? q b = h b := by
  cases a? with
  | none => rfl
  | some a => exact Function.update_of_ne (fun hba => hb (by rw [hba])) _ _

/-- No node goes away. -/
theorem setNext_ne_none {b : ι} (hb : h b ≠ none) : setNext h q p b ≠ none := by
  cases q with
  | none => exact hb
  | some a =>
      rcases eq_or_ne b a with rfl | hba
      · simpa [setNext] using hb
      · rwa [setNext_of_ne fun hbad => hba (Option.some.inj hbad).symm]

theorem setPrev_ne_none {b : ι} (hb : h b ≠ none) : setPrev h p q b ≠ none := by
  cases p with
  | none => exact hb
  | some a =>
      rcases eq_or_ne b a with rfl | hba
      · simpa [setPrev] using hb
      · rwa [setPrev_of_ne fun hbad => hba (Option.some.inj hbad).symm]

/-- Two pointers of different nodes are redirected in either order. -/
theorem setNext_comm {a? b? : Option ι} (hab : a? ≠ b?) (p r : Option ι) :
    setNext (setNext h a? p) b? r = setNext (setNext h b? r) a? p := by
  cases a? with
  | none => rfl
  | some a =>
      cases b? with
      | none => rfl
      | some b =>
          have hne : a ≠ b := fun heq => hab (by rw [heq])
          simp only [setNext, Function.update_of_ne hne, Function.update_of_ne hne.symm]
          exact Function.update_comm hne _ _ _

theorem setPrev_setNext_comm {a? b? : Option ι} (hab : a? ≠ b?) (p r : Option ι) :
    setPrev (setNext h a? p) b? r = setNext (setPrev h b? r) a? p := by
  cases a? with
  | none => rfl
  | some a =>
      cases b? with
      | none => rfl
      | some b =>
          have hne : a ≠ b := fun heq => hab (by rw [heq])
          simp only [setNext, setPrev, Function.update_of_ne hne, Function.update_of_ne hne.symm]
          exact Function.update_comm hne _ _ _

/-- Redirecting the last pointer of a segment.  With no node, the pointer into it is meant. -/
theorem Segment.setNext (hs : Segment h q p cells q' p') (hnd : (cells.map Prod.fst).Nodup)
    (p₂ : Option ι) :
    Segment (setNext h q' p₂) q (if cells = [] then p₂ else p) cells q' p₂ := by
  induction cells generalizing q p with
  | nil => exact ⟨hs.1, by simp⟩
  | cons c cells ih =>
      obtain ⟨hp, next, hc, hs⟩ := hs
      rw [List.map_cons, List.nodup_cons] at hnd
      have hseg := ih hs hnd.2
      rw [if_neg (List.cons_ne_nil c cells)]
      by_cases hcells : cells = []
      · subst hcells
        obtain ⟨rfl, -⟩ := hs
        refine ⟨hp, p₂, ?_, rfl, rfl⟩
        simp [LinkedChain.setNext, hc]
      · rw [if_neg hcells] at hseg
        refine ⟨hp, next, ?_, hseg⟩
        rw [setNext_of_ne ?_ p₂, hc]
        rcases hs.last_eq with ⟨-, hnil⟩ | ⟨d, cells₁, rfl, rfl⟩
        · exact absurd hnil hcells
        · intro hd
          refine hnd.1 ?_
          rw [← Option.some.inj hd]
          simp

/-- Redirecting the first back pointer of a segment. -/
theorem Segment.setPrev (hs : Segment h q p cells q' p') (hnd : (cells.map Prod.fst).Nodup)
    (q₂ : Option ι) :
    Segment (setPrev h p q₂) q₂ p cells (if cells = [] then q₂ else q') p' := by
  cases cells with
  | nil => exact ⟨by simp, hs.2⟩
  | cons c cells =>
      obtain ⟨rfl, next, hc, hs⟩ := hs
      rw [List.map_cons, List.nodup_cons] at hnd
      rw [if_neg (List.cons_ne_nil c cells)]
      refine ⟨rfl, next, ?_, hs.congr fun a ha => setPrev_of_ne ?_ q₂⟩
      · simp [LinkedChain.setPrev, hc]
      · intro hca
        exact hnd.1 (Option.some.inj hca ▸ ha)

/-! ### Replacing data -/

/-- The store after `a->data = x`. -/
def setData (h : Store ι α) (a : ι) (x : α) : Store ι α :=
  Function.update h a ((h a).map fun n => { n with data := x })

/-- **Replacing the data of one node** of a segment. -/
theorem Segment.setData {pre post : List (ι × α)} {c : ι × α}
    (hs : Segment h q p (pre ++ c :: post) q' p') (hnd : ((pre ++ c :: post).map Prod.fst).Nodup)
    (x : α) : Segment (setData h c.1 x) q p (pre ++ (c.1, x) :: post) q' p' := by
  obtain ⟨q₁, p₁, hpre, hp, next, hc, hpost⟩ := segment_append.1 hs
  rw [List.map_append, List.map_cons, List.nodup_middle, List.nodup_cons] at hnd
  have hother : ∀ b ∈ pre.map Prod.fst ++ post.map Prod.fst,
      LinkedChain.setData h c.1 x b = h b := by
    intro b hb
    refine Function.update_of_ne ?_ _ _
    rintro rfl
    exact hnd.1 hb
  have hc' : LinkedChain.setData h c.1 x c.1 = some ⟨q₁, next, x⟩ := by
    rw [LinkedChain.setData, Function.update_self, hc]
    rfl
  refine segment_append.2 ⟨q₁, p₁, ?_, hp, next, hc', ?_⟩
  · exact hpre.congr fun b hb => hother b (List.mem_append_left _ hb)
  · exact hpost.congr fun b hb => hother b (List.mem_append_right _ hb)

/-! ### Taking a node out and putting one in -/

/-- **Two pointers take a node out of a chain.** -/
theorem Segment.unlink {pre post : List (ι × α)} {c : ι × α} {q₁ p₁ : Option ι}
    (hpre : Segment h none p pre q₁ (some c.1)) (hpost : Segment h (some c.1) p₁ post q' none)
    (hnd : ((pre ++ post).map Prod.fst).Nodup) :
    ∃ q'', Segment (LinkedChain.setPrev (LinkedChain.setNext h q₁ p₁) p₁ q₁) none
      (if pre = [] then p₁ else p) (pre ++ post) q'' none := by
  rw [List.map_append, List.nodup_append] at hnd
  obtain ⟨hnd₁, hnd₂, hdisj⟩ := hnd
  have hpost' : Segment (LinkedChain.setNext h q₁ p₁) (some c.1) p₁ post q' none := by
    refine hpost.congr fun a ha => setNext_of_ne ?_ p₁
    rintro rfl
    exact hdisj a hpre.last_mem a ha rfl
  have hpre' : Segment (LinkedChain.setPrev (LinkedChain.setNext h q₁ p₁) p₁ q₁) none
      (if pre = [] then p₁ else p) pre q₁ p₁ := by
    refine (hpre.setNext hnd₁ p₁).congr fun a ha => setPrev_of_ne ?_ q₁
    rintro rfl
    exact hdisj a ha a hpost.first_mem rfl
  exact ⟨_, segment_append.2 ⟨q₁, p₁, hpre', hpost'.setPrev hnd₂ q₁⟩⟩

/-- **Two pointers put a node into a chain.** -/
theorem Segment.link {pre post : List (ι × α)} {c : ι × α} {q₁ p₁ : Option ι}
    (hpre : Segment h none p pre q₁ p₁) (hpost : Segment h q₁ p₁ post q' none)
    (hc : h c.1 = some ⟨q₁, p₁, c.2⟩) (hnd : ((pre ++ c :: post).map Prod.fst).Nodup) :
    ∃ q'', Segment (LinkedChain.setPrev (LinkedChain.setNext h q₁ (some c.1)) p₁ (some c.1)) none
      (if pre = [] then some c.1 else p) (pre ++ c :: post) q'' none := by
  rw [List.map_append, List.map_cons, List.nodup_append, List.nodup_cons] at hnd
  obtain ⟨hnd₁, ⟨hc₂, hnd₂⟩, hdisj⟩ := hnd
  have hq₁ : ∀ {b : ι}, b ∈ c.1 :: post.map Prod.fst → q₁ ≠ some b := by
    rintro b hb rfl
    exact hdisj b hpre.last_mem b hb rfl
  have hp₁ : ∀ {b : ι}, b ∈ c.1 :: pre.map Prod.fst → p₁ ≠ some b := by
    rintro b hb rfl
    rcases List.mem_cons.1 hb with rfl | hb
    · exact hc₂ hpost.first_mem
    · exact hdisj b hb b (List.mem_cons_of_mem _ hpost.first_mem) rfl
  have hpre' : Segment (LinkedChain.setPrev (LinkedChain.setNext h q₁ (some c.1)) p₁ (some c.1))
      none (if pre = [] then some c.1 else p) pre q₁ (some c.1) :=
    (hpre.setNext hnd₁ (some c.1)).congr fun a ha =>
      setPrev_of_ne (hp₁ (List.mem_cons_of_mem _ ha)) _
  have hpost' : Segment (LinkedChain.setNext h q₁ (some c.1)) q₁ p₁ post q' none :=
    hpost.congr fun a ha => setNext_of_ne (hq₁ (List.mem_cons_of_mem _ ha)) _
  refine ⟨_, segment_append.2 ⟨q₁, some c.1, hpre', rfl, p₁, ?_,
    hpost'.setPrev hnd₂ (some c.1)⟩⟩
  rw [setPrev_of_ne (hp₁ List.mem_cons_self), setNext_of_ne (hq₁ List.mem_cons_self), hc]

end LinkedChain
