/-
**The escaping copy, read back and run to its end.**

`copy_with_process_delimiter` writes what the byte stuffing of the node layer makes of the bytes, so
a decoder that knows only the escape gets them back.  Its counter is a `uint8_t`: with 256 bytes or
more to copy it wraps before it reaches the bound, and the loop starts again at the first byte.

Main definitions:

* `nodeScheme` — the byte stuffing of the node layer, `unescape` — its decoder;
* `copyReads` — the loop of the copy with the positions that it has read;
* `ReadsOnce` — the copy ends, having read every position once and in order.

Main results:

* `copyWithProcessDelimiter_invertible` — the decoder inverts the copy, and the copy the decoder;
* `copyWithProcessDelimiter_readsOnce_iff` — the lengths for which the copy ends.
-/

import WsnPlatform.ByteStuffing
import WsnPlatform.Util

set_option relaxedAutoImplicit false
set_option autoImplicit false

namespace Wsn

open ByteStuffing

/-! ### The stuffing of the node layer -/

/-- The bytes that are escaped. -/
def NodeSpecial (b : UInt8) : Prop := b = nodeDelimiter ∨ b = nodeEscape

instance : DecidablePred NodeSpecial := fun b =>
  inferInstanceAs (Decidable (b = nodeDelimiter ∨ b = nodeEscape))

/-- A byte as it stands behind the escape. -/
theorem nodeSpecial_transfer {b : UInt8} (h : NodeSpecial b) :
    ¬ NodeSpecial (nodeDelimiterTransfer b) ∧ nodeDelimiterTransfer b + 0x20 = b := by
  rcases h with rfl | rfl <;> decide

/-- **The byte stuffing of the node layer.** -/
def nodeScheme : Scheme UInt8 where
  special := NodeSpecial
  escape := nodeEscape
  hide := nodeDelimiterTransfer
  reveal := fun b => b + 0x20
  special_escape := Or.inr rfl
  not_special_hide := fun _ h => (nodeSpecial_transfer h).1
  reveal_hide := fun _ h => (nodeSpecial_transfer h).2

instance : DecidablePred nodeScheme.special := inferInstanceAs (DecidablePred NodeSpecial)

/-- **The decoder**: behind `0x7D` a byte is told by adding `0x20`, other bytes are copied. -/
def unescape : List UInt8 → List UInt8 := nodeScheme.decode

/-- **The copy is the stuffing**: the loop appends what the scheme makes of a byte. -/
theorem copyWithProcessDelimiter_encode {src : List UInt8} (h : src.length ≤ 255) :
    copyWithProcessDelimiter src src.length = .ok (nodeScheme.encode src) :=
  copyWithProcessDelimiter_eq (by omega)

/-- The strings without `0x7E` in which each `0x7D` hides one of the two bytes. -/
theorem wellFormed_nodeScheme {t : List UInt8} (hdelim : nodeDelimiter ∉ t)
    (hescape : ∀ i, t[i]? = some nodeEscape → t[i + 1]? = some 0x5D ∨ t[i + 1]? = some 0x5E) :
    nodeScheme.WellFormed t where
  eq_escape b hb := by
    rintro (rfl | rfl)
    · exact absurd hb hdelim
    · rfl
  hidden i hi := by
    rcases hescape i hi with hnext | hnext
    · exact ⟨nodeEscape, Or.inr rfl, hnext⟩
    · exact ⟨nodeDelimiter, Or.inl rfl, hnext⟩

/-- **The escaping copy is invertible.**  What it writes is as long as `src` and its special bytes
together, has no delimiter and is decoded to `src`; a string that could be such a text is what it
writes for the decoded string; and what it writes for two strings in a row is what it writes for
each of them. -/
theorem copyWithProcessDelimiter_invertible :
    (∀ src : List UInt8, src.length ≤ 255 →
      ∃ dest, copyWithProcessDelimiter src src.length = .ok dest ∧
        dest.length = src.length + src.countP (fun b => b = nodeDelimiter ∨ b = nodeEscape) ∧
        nodeDelimiter ∉ dest ∧ unescape dest = src) ∧
    (∀ t : List UInt8, nodeDelimiter ∉ t →
      (∀ i, t[i]? = some nodeEscape → t[i + 1]? = some 0x5D ∨ t[i + 1]? = some 0x5E) →
      (unescape t).length ≤ 255 →
      copyWithProcessDelimiter (unescape t) (unescape t).length = .ok t) ∧
    (∀ src src' : List UInt8, (src ++ src').length ≤ 255 →
      ∃ dest dest', copyWithProcessDelimiter src src.length = .ok dest ∧
        copyWithProcessDelimiter src' src'.length = .ok dest' ∧
        copyWithProcessDelimiter (src ++ src') (src ++ src').length = .ok (dest ++ dest')) := by
  refine ⟨?_, ?_, ?_⟩
  · intro src hlen
    refine ⟨_, copyWithProcessDelimiter_encode hlen, nodeScheme.length_encode src, ?_,
      nodeScheme.decode_encode src⟩
    intro hmem
    have hescape : nodeDelimiter = nodeEscape :=
      nodeScheme.eq_escape_of_mem_encode hmem (Or.inl rfl)
    revert hescape
    decide
  · intro t hdelim hescape hlen
    rw [copyWithProcessDelimiter_encode hlen, unescape,
      nodeScheme.encode_decode (wellFormed_nodeScheme hdelim hescape)]
  · intro src src' hlen
    have hsum := hlen
    rw [List.length_append] at hsum
    refine ⟨_, _, copyWithProcessDelimiter_encode (by omega),
      copyWithProcessDelimiter_encode (by omega), ?_⟩
    rw [copyWithProcessDelimiter_encode hlen, nodeScheme.encode_append]

/-! ### The counter -/

/-- **The loop of `copy_with_process_delimiter`** with the positions of `src` that it has read, in
order. -/
def copyReads (src : List UInt8) (copyLen : ℕ) : ℕ → ℕ → List UInt8 → List ℕ →
    Exec (List UInt8 × List ℕ)
  | 0, _, _, _ => .error .diverges
  | fuel + 1, i, dest, reads =>
      if i < copyLen then
        match src[i]? with
        | none => .error .outOfBounds
        | some value =>
            copyReads src copyLen fuel ((i + 1) % 2 ^ 8) (dest ++ escapeByte value) (reads ++ [i])
      else .ok (dest, reads)

/-- Keeping the positions changes nothing. -/
theorem copyReads_dest (src : List UInt8) (copyLen fuel i : ℕ) (dest : List UInt8)
    (reads : List ℕ) :
    (copyReads src copyLen fuel i dest reads).map Prod.fst = copyLoop src copyLen fuel i dest := by
  induction fuel generalizing i dest reads with
  | zero => rfl
  | succ fuel ih =>
      rw [copyReads, copyLoop]
      split
      · cases src[i]? with
        | none => rfl
        | some value => exact ih _ _ _
      · rfl

/-- **The copy ends after reading each position once**, in order. -/
def ReadsOnce (src : List UInt8) (copyLen : ℕ) : Prop :=
  ∃ fuel dest, copyReads src copyLen fuel 0 [] [] = .ok (dest, List.range copyLen)

section Counter

variable {src : List UInt8} {copyLen : ℕ} (hsrc : copyLen ≤ src.length)
include hsrc

/-- A turn of the loop that reads a byte. -/
theorem copyReads_succ {i : ℕ} (hi : i < copyLen) (fuel : ℕ) (dest : List UInt8)
    (reads : List ℕ) :
    ∃ value, copyReads src copyLen (fuel + 1) i dest reads =
      copyReads src copyLen fuel ((i + 1) % 2 ^ 8) (dest ++ escapeByte value) (reads ++ [i]) := by
  obtain ⟨value, hvalue⟩ : ∃ value, src[i]? = some value :=
    ⟨_, List.getElem?_eq_getElem (hi.trans_le hsrc)⟩
  exact ⟨value, by rw [copyReads, if_pos hi, hvalue]⟩

/-- While the counter does not wrap, the position read next is the number of positions read. -/
theorem copyReads_range (hlen : copyLen < 2 ^ 8) {fuel i : ℕ} (hfuel : copyLen < fuel + i)
    (hi : i ≤ copyLen) (dest : List UInt8) :
    ∃ dest', copyReads src copyLen fuel i dest (List.range i) =
      .ok (dest', List.range copyLen) := by
  induction fuel generalizing i dest with
  | zero => omega
  | succ fuel ih =>
      rcases Nat.lt_or_ge i copyLen with hlt | hge
      · obtain ⟨value, hturn⟩ := copyReads_succ hsrc hlt fuel dest (List.range i)
        have hcount : (i + 1) % 2 ^ 8 = i + 1 := Nat.mod_eq_of_lt (by omega)
        rw [hturn, hcount, ← List.range_succ]
        exact ih (by omega) hlt _
      · have heq : i = copyLen := le_antisymm hi hge
        subst heq
        exact ⟨dest, by rw [copyReads, if_neg (lt_irrefl _)]⟩

/-- **The counter wraps** in front of a bound that it cannot reach: the loop goes on. -/
theorem copyReads_diverges (hlen : 2 ^ 8 ≤ copyLen) (fuel : ℕ) {i : ℕ} (hi : i < 2 ^ 8)
    (dest : List UInt8) (reads : List ℕ) :
    copyReads src copyLen fuel i dest reads = .error .diverges := by
  induction fuel generalizing i dest reads with
  | zero => rfl
  | succ fuel ih =>
      obtain ⟨value, hturn⟩ := copyReads_succ hsrc (hi.trans_le hlen) fuel dest reads
      rw [hturn]
      exact ih (Nat.mod_lt _ (by norm_num)) _ _

end Counter

/-- **The copy ends exactly for lengths that the counter can reach.** -/
theorem copyWithProcessDelimiter_readsOnce_iff (src : List UInt8) (copyLen : UInt32)
    (hsrc : copyLen.toNat ≤ src.length) : ReadsOnce src copyLen.toNat ↔ copyLen.toNat ≤ 255 := by
  constructor
  · rintro ⟨fuel, dest, hrun⟩
    by_contra hlong
    rw [copyReads_diverges hsrc (by omega) fuel (by norm_num)] at hrun
    cases hrun
  · intro hlen
    have hfuel : copyLen.toNat < copyLen.toNat + 1 + 0 := by omega
    obtain ⟨dest, hrun⟩ := copyReads_range hsrc (by omega) hfuel (Nat.zero_le _) []
    exact ⟨_, dest, hrun⟩

/-- Three bytes, one of them escaped. -/
theorem copyWithProcessDelimiter_readsOnce_three :
    (3 : UInt32).toNat ≤ [1, 0x7E, 3].length ∧ ReadsOnce [1, 0x7E, 3] (3 : UInt32).toNat :=
  ⟨by decide,
    (copyWithProcessDelimiter_readsOnce_iff [1, 0x7E, 3] 3 (by decide)).2 (by decide)⟩

/-- **A copy of 256 bytes never ends.** -/
theorem copyWithProcessDelimiter_wraps :
    ¬ ReadsOnce (List.replicate 256 0) (256 : UInt32).toNat ∧
      copyWithProcessDelimiter (List.replicate 256 0) 256 = .error .diverges := by
  obtain ⟨src, hsrc⟩ : ∃ src : List UInt8, src = List.replicate 256 0 := ⟨_, rfl⟩
  have hlen : 256 ≤ src.length := by rw [hsrc, List.length_replicate]
  have hdiv (fuel : ℕ) : copyReads src 256 fuel 0 [] [] = .error .diverges :=
    copyReads_diverges hlen (by norm_num) fuel (by norm_num) [] []
  rw [← hsrc]
  constructor
  · rintro ⟨fuel, dest, hrun⟩
    have h256 : (256 : UInt32).toNat = 256 := rfl
    rw [h256, hdiv] at hrun
    cases hrun
  · rw [copyWithProcessDelimiter, ← copyReads_dest src 256 _ 0 [] [], hdiv]
    rfl

end Wsn
