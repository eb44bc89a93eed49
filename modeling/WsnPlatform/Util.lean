/-
**`src/app/util.c`: escaping, checksums and the parity check.**

* `Wsn.copyWithProcessDelimiter` — the copy loop that escapes `0x7E` and `0x7D`.  Its counter is a
  `uint8_t` while its bound is a `uint32_t`, so from 256 bytes on it never ends;
* `Wsn.crc16Width` — the checksum, which the source leaves to be written and returns 0;
* `Wsn.evenCheck` — the XOR of a buffer is 0.

`Wsn.copyWithProcessDelimiter_eq` says what the loop writes when its counter does not wrap,
`Wsn.evenCheck_append_xor` that a buffer followed by its XOR passes the check, and
`Wsn.evenCheck_set` that it does not when one byte is changed.
-/

import WsnPlatform.Common
import WsnPlatform.OintProtocol

set_option relaxedAutoImplicit false
set_option autoImplicit false

namespace Wsn

/-! ### Escaping -/

/-- What one iteration of the copy loop appends to `dest`. -/
def escapeByte (value : UInt8) : List UInt8 :=
  if value = nodeDelimiter ∨ value = nodeEscape then [nodeEscape, nodeDelimiterTransfer value]
  else [value]

/-- The loop of `copy_with_process_delimiter`, with `dest[0 .. index)` already written.  With more
iterations than `copyLen` the `uint8_t` counter has wrapped to a value it had before, and the loop
never ends. -/
def copyLoop (src : List UInt8) (copyLen : ℕ) : ℕ → ℕ → List UInt8 → Exec (List UInt8)
  | 0, _, _ => .error .diverges
  | fuel + 1, i, dest =>
      if i < copyLen then
        match src[i]? with
        | none => .error .outOfBounds
        | some value => copyLoop src copyLen fuel ((i + 1) % 2 ^ 8) (dest ++ escapeByte value)
      else .ok dest

/-- The bytes that `copy_with_process_delimiter` writes to `dest`; it returns their number. -/
def copyWithProcessDelimiter (src : List UInt8) (copyLen : ℕ) : Exec (List UInt8) :=
  copyLoop src copyLen (copyLen + 1) 0 []

theorem copyLoop_eq {src : List UInt8} (h : src.length < 2 ^ 8) :
    ∀ (fuel i : ℕ) (dest : List UInt8), src.length < fuel + i → i ≤ src.length →
      copyLoop src src.length fuel i dest = .ok (dest ++ (src.drop i).flatMap escapeByte) := by
  intro fuel
  induction fuel with
  | zero => intro i dest hf hi; omega
  | succ fuel ih =>
      intro i dest hf hi
      rcases Nat.lt_or_ge i src.length with hlt | hge
      · have hmod : (i + 1) % 2 ^ 8 = i + 1 := Nat.mod_eq_of_lt (by omega)
        rw [copyLoop, if_pos hlt, List.getElem?_eq_getElem hlt]
        simp only [hmod]
        rw [ih (i + 1) _ (by omega) (by omega), List.drop_eq_getElem_cons hlt, List.flatMap_cons,
          List.append_assoc]
      · rw [copyLoop, if_neg (by omega), List.drop_eq_nil_of_le hge]
        simp

/-- **The escaping copy of at most 255 bytes** ends, having written the escaped bytes in order. -/
theorem copyWithProcessDelimiter_eq {src : List UInt8} (h : src.length < 2 ^ 8) :
    copyWithProcessDelimiter src src.length = .ok (src.flatMap escapeByte) := by
  rw [copyWithProcessDelimiter, copyLoop_eq h _ _ _ (by omega) (by omega)]
  simp

theorem length_escapeByte (value : UInt8) :
    1 ≤ (escapeByte value).length ∧ (escapeByte value).length ≤ 2 := by
  unfold escapeByte
  split <;> simp

/-! ### Checksums -/

/-- `crc_16_width`: still to be written in the source, which returns 0. -/
def crc16Width (_buf : List UInt8) : UInt16 := 0

/-- `even_check`: the XOR of all bytes is 0. -/
def evenCheck : List UInt8 → Bool
  | [] => true
  | b :: bs => bs.foldl (· ^^^ ·) b == 0

theorem foldl_xor (bs : List UInt8) (b : UInt8) :
    bs.foldl (· ^^^ ·) b = b ^^^ bs.foldl (· ^^^ ·) 0 := by
  induction bs generalizing b with
  | nil => simp
  | cons c bs ih =>
      simp only [List.foldl_cons]
      rw [ih (b ^^^ c), ih (0 ^^^ c), UInt8.zero_xor, UInt8.xor_assoc]

/-- The XOR of a buffer. -/
def xorSum (bs : List UInt8) : UInt8 := bs.foldl (· ^^^ ·) 0

theorem evenCheck_eq (bs : List UInt8) : evenCheck bs = (xorSum bs == 0) := by
  cases bs with
  | nil => rfl
  | cons b bs => rw [evenCheck, xorSum, List.foldl_cons, UInt8.zero_xor]

theorem xorSum_append (as bs : List UInt8) : xorSum (as ++ bs) = xorSum as ^^^ xorSum bs := by
  simp only [xorSum, List.foldl_append]
  exact foldl_xor bs _

/-- **A buffer followed by its XOR passes the check.** -/
theorem evenCheck_append_xor (bs : List UInt8) : evenCheck (bs ++ [xorSum bs]) = true := by
  have h : xorSum [xorSum bs] = xorSum bs := UInt8.zero_xor
  rw [evenCheck_eq, xorSum_append, h, UInt8.xor_self]
  rfl

/-- One byte taken out of a buffer. -/
theorem xorSum_middle (pre post : List UInt8) (b : UInt8) :
    xorSum (pre ++ b :: post) = b ^^^ xorSum (pre ++ post) := by
  have hcons : xorSum (b :: post) = b ^^^ xorSum post := by
    rw [xorSum, List.foldl_cons, UInt8.zero_xor, foldl_xor]
    rfl
  rw [xorSum_append, hcons, xorSum_append, UInt8.xor_comm, UInt8.xor_assoc,
    UInt8.xor_comm (xorSum post)]

/-- **A buffer that passes the check fails it when one byte is changed.** -/
theorem evenCheck_set {bs : List UInt8} {i : ℕ} (hi : i < bs.length) {x : UInt8} (hx : x ≠ bs[i])
    (h : evenCheck bs = true) : evenCheck (bs.set i x) = false := by
  have hcut : bs = bs.take i ++ bs[i] :: bs.drop (i + 1) := by
    rw [← List.drop_eq_getElem_cons hi, List.take_append_drop]
  have hset : bs.set i x = bs.take i ++ x :: bs.drop (i + 1) := by
    rw [List.set_eq_take_append_cons_drop, if_pos hi]
  rw [evenCheck_eq, beq_iff_eq, hcut, xorSum_middle, UInt8.xor_eq_zero_iff] at h
  rw [evenCheck_eq, hset, xorSum_middle, ← h, beq_eq_false_iff_ne, Ne, UInt8.xor_eq_zero_iff]
  exact hx

end Wsn
