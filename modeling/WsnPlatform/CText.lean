/-
**The texts of C.**

A C string is told by its characters, without the NUL behind them.  The module has what the clients
of the deployer and the vendored libraries share about such texts.

Main definitions:

* `CText` — the text of a C string; `literal` — a string literal;
* `textOf` — the string at the front of some bytes with a NUL behind them;
* `strstr` — the call that looks for a text in another;
* `isDigit`, `decimal`, `decimalText` — numbers in decimal.

Main results:

* `cString_textOf` — the string in an array that holds the bytes and a NUL behind them;
* `decimal_decimalText` — a number is the value of its decimal text.
-/

import WsnPlatform.CScan
import Mathlib.Data.List.Infix
import Mathlib.Data.Nat.Digits.Lemmas
import Mathlib.Tactic

set_option relaxedAutoImplicit false
set_option autoImplicit false

namespace Wsn

open CScan

/-! ### Strings -/

/-- The text of a C string. -/
abbrev CText := List UInt8

/-- A string literal. -/
def literal (s : String) : CText := s.toList.map fun c => c.val.toUInt8

/-- `CRLF`. -/
def crlf : CText := literal "\r\n"

theorem crlf_eq : crlf = [13, 10] := by decide

/-- The string in a buffer that holds the bytes and a NUL behind them. -/
def textOf (bytes : List UInt8) : CText := bytes.takeWhile fun c => c != 0

/-- `strstr` finds something. -/
def strstr (haystack needle : CText) : Bool := needle <:+: haystack

@[simp] theorem strstr_eq_true {haystack needle : CText} :
    strstr haystack needle = true ↔ needle <:+: haystack :=
  decide_eq_true_iff

@[simp] theorem textOf_nil : textOf [] = [] := rfl

theorem textOf_cons {c : UInt8} (hc : c ≠ 0) (t : List UInt8) : textOf (c :: t) = c :: textOf t := by
  simp [textOf, hc]

/-- Nothing behind a NUL belongs to the string. -/
theorem textOf_append_nul (bytes rest : List UInt8) :
    textOf (bytes ++ 0 :: rest) = textOf bytes := by
  induction bytes with
  | nil => simp [textOf]
  | cons c bytes ih =>
      by_cases hc : c = 0
      · simp [textOf, hc]
      · rw [List.cons_append, textOf_cons hc, textOf_cons hc, ih]

theorem textOf_eq_self {text : CText} (h : 0 ∉ text) : textOf text = text := by
  refine List.takeWhile_eq_self_iff.2 ?_
  intro c hc
  simpa using fun hzero : c = 0 => h (hzero ▸ hc)

theorem zero_notMem_textOf (bytes : List UInt8) : 0 ∉ textOf bytes := by
  intro h
  simpa using List.mem_takeWhile_imp h

theorem length_textOf_le (bytes : List UInt8) : (textOf bytes).length ≤ bytes.length :=
  (List.takeWhile_prefix _).length_le

/-- The string at the front of an array that holds the bytes and a NUL behind them. -/
theorem cString_textOf (bytes rest : List UInt8) :
    cString (bytes ++ 0 :: rest) = some (textOf bytes) := by
  induction bytes with
  | nil => exact cString_nul rest
  | cons b bytes ih =>
      by_cases hb : b = 0
      · subst hb
        simp [textOf]
      · have hcons := cString_append (s := [b]) (by simpa using Ne.symm hb) (bytes ++ 0 :: rest)
        rw [ih] at hcons
        rw [textOf_cons hb]
        exact hcons

/-! ### Digits -/

/-- `isdigit` in the C locale. -/
def isDigit (c : UInt8) : Bool := 48 ≤ c ∧ c ≤ 57

theorem isDigit_iff {c : UInt8} : isDigit c = true ↔ 48 ≤ c.toNat ∧ c.toNat ≤ 57 := by
  simp only [isDigit, decide_eq_true_eq, UInt8.le_iff_toNat_le]
  rfl

/-- The value of a text of digits. -/
def decimal (digits : CText) : ℕ := digits.foldl (fun n c => 10 * n + (c.toNat - 48)) 0

theorem decimal_concat (ds : CText) (c : UInt8) :
    decimal (ds ++ [c]) = 10 * decimal ds + (c.toNat - 48) := by
  simp [decimal]

/-- A text of digits is less than the power of ten of its length. -/
theorem decimal_lt {ds : CText} (h : ∀ c ∈ ds, isDigit c = true) : decimal ds < 10 ^ ds.length := by
  induction ds using List.reverseRecOn with
  | nil => exact Nat.one_pos
  | append_singleton ds c ih =>
      have hds := ih fun d hd => h d (List.mem_append_left _ hd)
      have hc := isDigit_iff.1 (h c (by simp))
      rw [decimal_concat, List.length_append, List.length_singleton, pow_succ]
      omega

/-- **A number in decimal.** -/
def decimalText (n : ℕ) : CText := (Nat.toDigits 10 n).map fun c => c.val.toUInt8

/-- The byte of a decimal digit. -/
theorem toNat_digit {c : Char} (hc : c.isDigit = true) :
    c.val.toUInt8.toNat = c.toNat ∧ 48 ≤ c.toNat ∧ c.toNat ≤ 57 := by
  have hrange : 48 ≤ c.toNat ∧ c.toNat ≤ 57 := Char.isDigit_iff_toNat.1 hc
  refine ⟨?_, hrange⟩
  rw [UInt32.toNat_toUInt8]
  exact Nat.mod_eq_of_lt (show c.toNat < 2 ^ 8 by omega)

theorem isDigit_of_mem_decimalText (n : ℕ) : ∀ b ∈ decimalText n, isDigit b = true := by
  intro b hb
  obtain ⟨c, hc, rfl⟩ := List.mem_map.1 hb
  obtain ⟨hbyte, hrange⟩ := toNat_digit (Nat.isDigit_of_mem_toDigits (by norm_num) le_rfl hc)
  rw [isDigit_iff, hbyte]
  exact hrange

theorem zero_notMem_decimalText (n : ℕ) : 0 ∉ decimalText n := by
  intro h
  have hdigit := isDigit_of_mem_decimalText n 0 h
  exact absurd hdigit (by decide)

/-- A number below a power of ten has that many digits at most. -/
theorem length_decimalText_le {n k : ℕ} (hk : 0 < k) (h : n < 10 ^ k) :
    (decimalText n).length ≤ k := by
  rw [decimalText, List.length_map]
  exact Nat.toDigits_length 10 n k hk h

/-- **A number is the value of its decimal text.** -/
theorem decimal_decimalText (n : ℕ) : decimal (decimalText n) = n := by
  have hstep : ∀ (m : ℕ), ∀ c ∈ Nat.toDigits 10 n,
      10 * m + (c.val.toUInt8.toNat - 48) = 10 * m + (c.toNat - 48) := by
    intro m c hc
    rw [(toNat_digit (Nat.isDigit_of_mem_toDigits (by norm_num) le_rfl hc)).1]
  rw [decimal, decimalText, List.foldl_map, List.foldl_ext _ _ 0 hstep]
  exact Nat.ofDigitChars_ten_toDigits

end Wsn
