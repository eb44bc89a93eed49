/-
**Arrays of a fixed size, with checked stores.**

A C array `T buf[n]` is a `List.Vector α n`.  A copy into it is given an offset and the elements
to store; it succeeds exactly when all of them land inside the array.  The module also cuts a list
into pieces of a fixed length, which is how a message is laid out over such arrays.

Nothing here is about a particular program.

Main definitions:

* `FixedBuffer.copyAt` — the checked copy, `FixedBuffer.fill` — the checked `memset`;
* `FixedBuffer.PaddedWith` — an array that is used up to some place;
* `FixedBuffer.slice`, `FixedBuffer.window` — reading a range;
* `FixedBuffer.chunksOf` — a list cut into pieces of length `n`, the last one shorter.

Main results:

* `FixedBuffer.take_copyAt` — a copy at the end of the part in use appends to it;
* `FixedBuffer.PaddedWith.copyAt`, `FixedBuffer.PaddedWith.fill` — the part in use grows and is
  emptied;
* `FixedBuffer.flatten_chunksOf` — cutting loses nothing;
* `FixedBuffer.length_le_of_mem_chunksOf` — no piece is longer than `n`.
-/

import Mathlib.Data.Vector.Basic
import Mathlib.Data.List.Basic

set_option relaxedAutoImplicit false
set_option autoImplicit false

namespace FixedBuffer

universe u

variable {α : Type u} {n : ℕ}

/-! ### Checked stores -/

/-- **Storing `src` from index `off` on**, if it fits. -/
def copyAt (b : List.Vector α n) (off : ℕ) (src : List α) : Option (List.Vector α n) :=
  if h : off + src.length ≤ n then
    some ⟨b.toList.take off ++ src ++ b.toList.drop (off + src.length), by
      simp only [List.length_append, List.length_take, List.length_drop, List.Vector.toList_length]
      omega⟩
  else none

/-- Storing `count` copies of `v` from index `off` on, if they fit. -/
def fill (b : List.Vector α n) (off count : ℕ) (v : α) : Option (List.Vector α n) :=
  copyAt b off (List.replicate count v)

theorem copyAt_isSome (b : List.Vector α n) {off : ℕ} {src : List α} (h : off + src.length ≤ n) :
    ∃ b', copyAt b off src = some b' := by
  simp only [copyAt, dif_pos h]
  exact ⟨_, rfl⟩

theorem copyAt_eq_none {b : List.Vector α n} {off : ℕ} {src : List α} :
    copyAt b off src = none ↔ n < off + src.length := by
  unfold copyAt
  split
  · simp only [reduceCtorEq, false_iff]; omega
  · simp only [true_iff]; omega

/-- What an array holds after a store. -/
theorem toList_copyAt {b b' : List.Vector α n} {off : ℕ} {src : List α}
    (h : copyAt b off src = some b') :
    b'.toList = b.toList.take off ++ src ++ b.toList.drop (off + src.length) := by
  unfold copyAt at h
  split at h
  · cases h; rfl
  · cases h

theorem le_of_copyAt {b b' : List.Vector α n} {off : ℕ} {src : List α}
    (h : copyAt b off src = some b') : off + src.length ≤ n := by
  by_contra hlt
  rw [copyAt_eq_none.2 (by omega)] at h
  cases h

/-- A store leaves alone what is behind it. -/
theorem drop_copyAt {b b' : List.Vector α n} {off : ℕ} {src : List α}
    (h : copyAt b off src = some b') {k : ℕ} (hk : off + src.length ≤ k) :
    b'.toList.drop k = b.toList.drop k := by
  have hle := le_of_copyAt h
  have hlen : (b.toList.take off ++ src).length = off + src.length := by
    simp only [List.length_append, List.length_take, List.Vector.toList_length]
    omega
  rw [toList_copyAt h, List.drop_append, List.drop_eq_nil_of_le (hlen ▸ hk), List.nil_append, hlen,
    List.drop_drop, Nat.add_sub_cancel' hk]

/-- **A store at the end of the part in use appends to it.** -/
theorem take_copyAt {b b' : List.Vector α n} {off : ℕ} {src : List α}
    (h : copyAt b off src = some b') :
    b'.toList.take (off + src.length) = b.toList.take off ++ src := by
  have hle := le_of_copyAt h
  have hlen : (b.toList.take off ++ src).length = off + src.length := by
    simp only [List.length_append, List.length_take, List.Vector.toList_length]
    omega
  rw [toList_copyAt h, ← hlen, List.take_left]

/-- **Storing a piece behind the ones before it.** -/
theorem copyAt_behind {b : List.Vector α n} {off : ℕ} {front : List α} (src : List α)
    (hfront : b.toList.take off = front) (h : off + src.length ≤ n) :
    ∃ b', copyAt b off src = some b' ∧ b'.toList.take (off + src.length) = front ++ src := by
  obtain ⟨b', hb'⟩ := copyAt_isSome b h
  exact ⟨b', hb', by rw [take_copyAt hb', hfront]⟩

/-- **The array is used up to some place**: it starts with `front`, and behind that every element
is `v`. -/
def PaddedWith (v : α) (b : List.Vector α n) (front : List α) : Prop :=
  b.toList = front ++ List.replicate (n - front.length) v

theorem paddedWith_replicate (v : α) : PaddedWith v (List.Vector.replicate n v) [] := rfl

section PaddedWith

variable {v : α} {b b' : List.Vector α n} {front : List α}

theorem PaddedWith.length_le (h : PaddedWith v b front) : front.length ≤ n := by
  have hlen := congrArg List.length h
  rw [List.length_append, List.length_replicate, List.Vector.toList_length] at hlen
  omega

theorem PaddedWith.take (h : PaddedWith v b front) : b.toList.take front.length = front := by
  rw [h, List.take_left]

/-- Behind the part in use every element is `v`. -/
theorem PaddedWith.drop (h : PaddedWith v b front) : ∀ x ∈ b.toList.drop front.length, x = v := by
  rw [h, List.drop_left]
  exact fun x hx => List.eq_of_mem_replicate hx

/-- Storing behind the part in use extends it. -/
theorem PaddedWith.copyAt (h : PaddedWith v b front) {src : List α}
    (hcopy : copyAt b front.length src = some b') : PaddedWith v b' (front ++ src) := by
  have hle := le_of_copyAt hcopy
  have hrest : b.toList.drop (front.length + src.length) =
      List.replicate (n - (front ++ src).length) v := by
    rw [h, ← List.drop_drop, List.drop_left, List.drop_replicate, List.length_append]
    congr 1
    omega
  rw [PaddedWith, toList_copyAt hcopy, h.take, hrest]

/-- **Storing a piece behind the part in use**, when there is room for it. -/
theorem PaddedWith.store (h : PaddedWith v b front) (src : List α)
    (hroom : front.length + src.length ≤ n) :
    ∃ b', FixedBuffer.copyAt b front.length src = some b' ∧ PaddedWith v b' (front ++ src) := by
  obtain ⟨b', hcopy⟩ := copyAt_isSome b hroom
  exact ⟨b', hcopy, h.copyAt hcopy⟩

/-- Filling the part in use empties it. -/
theorem PaddedWith.fill (h : PaddedWith v b front)
    (hfill : fill b 0 front.length v = some b') : b' = List.Vector.replicate n v := by
  have hrest : b.toList.drop (0 + (List.replicate front.length v).length) =
      List.replicate (n - front.length) v := by
    rw [h, List.length_replicate, Nat.zero_add, List.drop_left]
  have hall : b'.toList = List.replicate n v := by
    rw [toList_copyAt hfill, hrest, List.take_zero, List.nil_append, ← List.replicate_add,
      Nat.add_sub_cancel' h.length_le]
  exact List.Vector.toList_injective hall

end PaddedWith

/-! ### Reading a range -/

/-- The `count` elements from index `off` on. -/
def slice (b : List.Vector α n) (off count : ℕ) : List α := (b.toList.drop off).take count

/-- The `count` elements from index `off` on, when the array has them. -/
def window (b : List.Vector α n) (off count : ℕ) (h : off + count ≤ n) : List.Vector α count :=
  ⟨slice b off count, by simp [slice]; omega⟩

theorem length_slice (b : List.Vector α n) {off count : ℕ} (h : off + count ≤ n) :
    (slice b off count).length = count := by
  simp [slice]; omega

/-! ### Cutting a list into pieces -/

/-- `chunksOf` with a bound on the number of pieces. -/
def chunksAux (n : ℕ) : ℕ → List α → List (List α)
  | 0, _ => []
  | fuel + 1, l => if l.length ≤ n then [l] else l.take n :: chunksAux n fuel (l.drop n)

/-- **A list cut into pieces of length `n`**, the last one of length at most `n`. -/
def chunksOf (n : ℕ) (l : List α) : List (List α) := chunksAux n l.length l

theorem chunksAux_eq_of_le {n : ℕ} (hn : 0 < n) {f g : ℕ} {l : List α} (hf : l.length ≤ f)
    (hg : l.length ≤ g) : chunksAux n f l = chunksAux n g l ∨ l = [] := by
  induction f generalizing g l with
  | zero => exact Or.inr (List.length_eq_zero_iff.1 (by omega))
  | succ f ih =>
      cases g with
      | zero => exact Or.inr (List.length_eq_zero_iff.1 (by omega))
      | succ g =>
          by_cases hl : l.length ≤ n
          · simp [chunksAux, hl]
          · simp only [chunksAux, if_neg hl]
            have hd : (l.drop n).length = l.length - n := List.length_drop
            rcases @ih g (l.drop n) (by omega) (by omega) with h | h
            · exact Or.inl (by rw [h])
            · rw [h] at hd; simp at hd; omega

/-- A short list is one piece. -/
theorem chunksOf_of_le {n : ℕ} {l : List α} (h0 : l ≠ []) (h : l.length ≤ n) :
    chunksOf n l = [l] := by
  obtain ⟨m, hm⟩ : ∃ m, l.length = m + 1 :=
    ⟨l.length - 1, by have := List.length_pos_iff.2 h0; omega⟩
  rw [chunksOf, hm, chunksAux, if_pos h]

/-- A long list starts with a full piece. -/
theorem chunksOf_of_gt {n : ℕ} (hn : 0 < n) {l : List α} (h : n < l.length) :
    chunksOf n l = l.take n :: chunksOf n (l.drop n) := by
  obtain ⟨m, hm⟩ : ∃ m, l.length = m + 1 := ⟨l.length - 1, by omega⟩
  have hd : (l.drop n).length = l.length - n := List.length_drop
  rw [chunksOf, hm, chunksAux, if_neg (by omega)]
  have hfuel : (l.drop n).length ≤ m := by omega
  rcases chunksAux_eq_of_le hn hfuel le_rfl with h' | h'
  · rw [h', ← chunksOf]
  · rw [h'] at hd; simp at hd; omega

/-- Induction along the pieces of a nonempty list. -/
theorem chunksOf_induction {n : ℕ} (hn : 0 < n) {P : List α → Prop}
    (short : ∀ l, l ≠ [] → l.length ≤ n → P l)
    (long : ∀ l, n < l.length → P (l.drop n) → P l) : ∀ l, l ≠ [] → P l := by
  intro l
  induction hm : l.length using Nat.strong_induction_on generalizing l with
  | _ m ih =>
      intro h0
      rcases Nat.lt_or_ge n l.length with h | h
      · have hd : (l.drop n).length = l.length - n := List.length_drop
        refine long l h (ih (l.drop n).length (by omega) (l.drop n) rfl ?_)
        exact List.ne_nil_of_length_pos (by omega)
      · exact short l h0 h

/-- **Cutting loses nothing.** -/
theorem flatten_chunksOf {n : ℕ} (hn : 0 < n) {l : List α} (h0 : l ≠ []) :
    (chunksOf n l).flatten = l := by
  refine chunksOf_induction (P := fun l => (chunksOf n l).flatten = l) hn ?_ ?_ l h0
  · intro l h0 h
    rw [chunksOf_of_le h0 h]; simp
  · intro l h ih
    rw [chunksOf_of_gt hn h, List.flatten_cons, ih, List.take_append_drop]

/-- No piece is longer than `n`. -/
theorem length_le_of_mem_chunksOf {n : ℕ} (hn : 0 < n) {l : List α} (h0 : l ≠ []) :
    ∀ c ∈ chunksOf n l, c.length ≤ n := by
  refine chunksOf_induction (P := fun l => ∀ c ∈ chunksOf n l, c.length ≤ n) hn ?_ ?_ l h0
  · intro l h0 h c hc
    rw [chunksOf_of_le h0 h, List.mem_singleton] at hc
    rwa [hc]
  · intro l h ih c hc
    rw [chunksOf_of_gt hn h, List.mem_cons] at hc
    rcases hc with rfl | hc
    · exact List.length_take_le n l
    · exact ih c hc

theorem chunksOf_ne_nil {n : ℕ} (hn : 0 < n) {l : List α} (h0 : l ≠ []) : chunksOf n l ≠ [] := by
  rcases Nat.lt_or_ge n l.length with h | h
  · rw [chunksOf_of_gt hn h]; simp
  · rw [chunksOf_of_le h0 h]; simp

end FixedBuffer
