/-
**Escaping symbols of a string.**

Some symbols may not stand in an encoded string, or stand there with a special meaning only.  Each
of them is replaced by an escape symbol and a symbol that stands for it.  The escape symbol is one
of the special symbols, so the encoding is read back without looking ahead: behind an escape stands
what is to be revealed, and everything else stands for itself.

Nothing here is about a particular program.

Main definitions:

* `ByteStuffing.Scheme` — the special symbols, the escape symbol, and how a symbol is hidden;
* `ByteStuffing.Scheme.encode`, `ByteStuffing.Scheme.decode` — the encoding and its reader;
* `ByteStuffing.Scheme.WellFormed` — the strings that an encoding can be.

Main results:

* `ByteStuffing.Scheme.decode_encode` — reading an encoding gives the string back;
* `ByteStuffing.Scheme.encode_decode` — a well-formed string is the encoding of what is read from
  it;
* `ByteStuffing.Scheme.length_encode` — an encoding is longer by the number of special symbols;
* `ByteStuffing.Scheme.eq_escape_of_mem_encode` — no special symbol but the escape is left.
-/

import Mathlib

set_option relaxedAutoImplicit false
set_option autoImplicit false

namespace ByteStuffing

universe u

/-- **A way to hide symbols behind an escape.**  What is put behind it is not special, and tells
what was hidden. -/
structure Scheme (α : Type u) where
  special : α → Prop
  escape : α
  hide : α → α
  reveal : α → α
  special_escape : special escape
  not_special_hide : ∀ a, special a → ¬ special (hide a)
  reveal_hide : ∀ a, special a → reveal (hide a) = a

namespace Scheme

variable {α : Type u} (S : Scheme α)

/-- What stands for a symbol. -/
def encodeSymbol [DecidablePred S.special] (a : α) : List α :=
  if S.special a then [S.escape, S.hide a] else [a]

/-- **The encoding of a string.** -/
def encode [DecidablePred S.special] (s : List α) : List α := s.flatMap S.encodeSymbol

/-- **Reading an encoding.**  An escape with nothing behind it stands for itself. -/
def decode [DecidableEq α] : List α → List α
  | [] => []
  | [a] => [a]
  | a :: b :: t => if a = S.escape then S.reveal b :: decode t else a :: decode (b :: t)

/-- **The strings that an encoding can be**: the escape is the only special symbol, and a hidden
symbol stands behind each. -/
structure WellFormed (t : List α) : Prop where
  eq_escape : ∀ a ∈ t, S.special a → a = S.escape
  hidden : ∀ i, t[i]? = some S.escape → ∃ a, S.special a ∧ t[i + 1]? = some (S.hide a)

/-! ### The encoding -/

section Encoding

variable [DecidablePred S.special]

theorem encodeSymbol_special {a : α} (h : S.special a) :
    S.encodeSymbol a = [S.escape, S.hide a] := if_pos h

theorem encodeSymbol_plain {a : α} (h : ¬ S.special a) : S.encodeSymbol a = [a] := if_neg h

theorem encode_cons (a : α) (s : List α) : S.encode (a :: s) = S.encodeSymbol a ++ S.encode s :=
  List.flatMap_cons

/-- **The encoding is made symbol by symbol.** -/
theorem encode_append (s s' : List α) : S.encode (s ++ s') = S.encode s ++ S.encode s' :=
  List.flatMap_append

/-- **The length of an encoding.** -/
theorem length_encode (s : List α) :
    (S.encode s).length = s.length + s.countP (fun a => decide (S.special a)) := by
  induction s with
  | nil => rfl
  | cons a s ih =>
      rw [encode_cons, List.length_append, ih, List.countP_cons, List.length_cons]
      by_cases ha : S.special a
      · rw [encodeSymbol_special S ha, if_pos (decide_eq_true ha), List.length_cons,
          List.length_singleton]
        omega
      · rw [encodeSymbol_plain S ha, if_neg (by simpa using ha), List.length_singleton]
        omega

/-- **No special symbol but the escape is left.** -/
theorem eq_escape_of_mem_encode {s : List α} {a : α} (h : a ∈ S.encode s) (ha : S.special a) :
    a = S.escape := by
  obtain ⟨b, -, hab⟩ := List.mem_flatMap.1 h
  by_cases hb : S.special b
  · rw [encodeSymbol_special S hb, List.mem_pair] at hab
    rcases hab with rfl | rfl
    · rfl
    · exact absurd ha (S.not_special_hide b hb)
  · rw [encodeSymbol_plain S hb, List.mem_singleton] at hab
    subst hab
    exact absurd ha hb

end Encoding

/-! ### Reading it -/

section Reading

variable [DecidableEq α]

theorem decode_escape (b : α) (t : List α) :
    S.decode (S.escape :: b :: t) = S.reveal b :: S.decode t := by
  rw [decode, if_pos rfl]

theorem decode_plain {a : α} (ha : a ≠ S.escape) (t : List α) :
    S.decode (a :: t) = a :: S.decode t := by
  cases t with
  | nil => rfl
  | cons b t => rw [decode, if_neg ha]

variable [DecidablePred S.special]

/-- A symbol is read back, whatever stands behind it. -/
theorem decode_encodeSymbol_append (a : α) (t : List α) :
    S.decode (S.encodeSymbol a ++ t) = a :: S.decode t := by
  by_cases ha : S.special a
  · rw [encodeSymbol_special S ha, List.cons_append, List.singleton_append, decode_escape,
      S.reveal_hide a ha]
  · have hne : a ≠ S.escape := by
      rintro rfl
      exact ha S.special_escape
    rw [encodeSymbol_plain S ha, List.singleton_append, decode_plain S hne]

/-- **Reading an encoding gives the string back.** -/
theorem decode_encode (s : List α) : S.decode (S.encode s) = s := by
  induction s with
  | nil => rfl
  | cons a s ih => rw [encode_cons, decode_encodeSymbol_append, ih]

end Reading

/-! ### Well-formed strings -/

section WellFormed

variable {S}

theorem WellFormed.tail {a : α} {t : List α} (h : S.WellFormed (a :: t)) : S.WellFormed t where
  eq_escape b hb := h.eq_escape b (List.mem_cons_of_mem a hb)
  hidden i hi := h.hidden (i + 1) hi

/-- Behind an escape stands a hidden symbol. -/
theorem WellFormed.exists_hidden {t : List α} (h : S.WellFormed (S.escape :: t)) :
    ∃ a t', S.special a ∧ t = S.hide a :: t' := by
  obtain ⟨a, ha, hnext⟩ := h.hidden 0 rfl
  cases t with
  | nil => cases hnext
  | cons b t =>
      have hb : b = S.hide a := Option.some.inj hnext
      exact ⟨a, t, ha, by rw [hb]⟩

end WellFormed

/-- **A well-formed string is the encoding of what is read from it.** -/
theorem encode_decode [DecidableEq α] [DecidablePred S.special] {t : List α}
    (h : S.WellFormed t) : S.encode (S.decode t) = t := by
  induction hn : t.length using Nat.strong_induction_on generalizing t with
  | _ n ih =>
      cases t with
      | nil => rfl
      | cons a t =>
          rw [List.length_cons] at hn
          by_cases ha : a = S.escape
          · subst ha
            obtain ⟨a, t', hspecial, rfl⟩ := h.exists_hidden
            rw [List.length_cons] at hn
            rw [decode_escape, S.reveal_hide a hspecial, encode_cons,
              encodeSymbol_special S hspecial, ih t'.length (by omega) h.tail.tail rfl]
            rfl
          · have hplain : ¬ S.special a := fun hspecial =>
              ha (h.eq_escape a List.mem_cons_self hspecial)
            rw [decode_plain S ha, encode_cons, encodeSymbol_plain S hplain,
              ih t.length (by omega) h.tail rfl]
            rfl

end Scheme

end ByteStuffing
