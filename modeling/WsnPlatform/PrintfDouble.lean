/-
**Doubles as `printf` writes them.**

A double is a finite number with a sign, an infinity, or not a number.  The formats `%f` and `%e`
write the exact value, rounded to the digits that they have, and to the even one of two that are
equally near.  How long a text is depends on the size of the number with `%f`, and on the length of
its exponent with `%e`.

Nothing here is about a particular program.

Main definitions:

* `Magnitude`, `DoubleValue` — what a double is;
* `fixedText`, `scientificText` — the digits that `%f` and `%e` write;
* `DoubleValue.print` — the whole text, with the sign.

Main results:

* `length_fixedText_le`, `length_scientificText_le` — how long the texts are;
* `zero_notMem_fixedText`, `zero_notMem_scientificText` — they are strings of C.
-/

import Mathlib.Data.Int.Log
import WsnPlatform.CText

set_option relaxedAutoImplicit false
set_option autoImplicit false

namespace Wsn

/-! ### Doubles -/

/-- **The absolute value of a finite double**: zero, or one that lies between the least and the
greatest of them. -/
abbrev Magnitude := { q : ℚ // q = 0 ∨ 1 / 2 ^ 1074 ≤ q ∧ q < 2 ^ 1024 }

theorem Magnitude.nonneg (q : Magnitude) : 0 ≤ q.val := by
  rcases q.2 with h | h
  · exact h.ge
  · exact le_trans (by positivity) h.1

/-- **What a double is.**  It is negative if the sign is `true`, also where it is zero or not a
number. -/
inductive DoubleValue
  | finite (negative : Bool) (magnitude : Magnitude)
  | infinite (negative : Bool)
  | nan (negative : Bool)
  deriving DecidableEq

/-- The number that a finite double stands for. -/
def DoubleValue.number? : DoubleValue → Option ℚ
  | .finite negative magnitude => some (if negative then -magnitude.val else magnitude.val)
  | _ => none

/-! ### Rounding -/

/-- The nearest integer, and the even one of two. -/
def roundEven (q : ℚ) : ℕ :=
  if q - ⌊q⌋₊ < 1 / 2 ∨ q - ⌊q⌋₊ = 1 / 2 ∧ ⌊q⌋₊ % 2 = 0 then ⌊q⌋₊ else ⌊q⌋₊ + 1

/-- Rounding does not pass an integer that the number stays below. -/
theorem roundEven_le {q : ℚ} {n : ℕ} (hq : 0 ≤ q) (h : q < n) : roundEven q ≤ n := by
  have hfloor : ⌊q⌋₊ < n := (Nat.floor_lt hq).2 h
  unfold roundEven
  split
  · exact hfloor.le
  · exact hfloor

/-! ### Digits -/

/-- A number with at least so many digits. -/
def paddedText (width n : ℕ) : CText :=
  List.replicate (width - (decimalText n).length) 48 ++ decimalText n

theorem length_paddedText {width n : ℕ} (hwidth : 0 < width) (h : n < 10 ^ width) :
    (paddedText width n).length = width := by
  have hle := length_decimalText_le hwidth h
  rw [paddedText, List.length_append, List.length_replicate]
  omega

theorem zero_notMem_paddedText (width n : ℕ) : 0 ∉ paddedText width n := by
  have hzeros : 0 ∉ List.replicate (width - (decimalText n).length) (48 : UInt8) := by
    intro h
    exact absurd (List.eq_of_mem_replicate h) (by decide)
  simp [paddedText, hzeros, zero_notMem_decimalText]

/-- **What `%.pf` writes for a number that is not negative**, where `p` is the precision; without
digits behind it there is no point. -/
def fixedText (precision : ℕ) (q : ℚ) : CText :=
  decimalText (roundEven (q * 10 ^ precision) / 10 ^ precision) ++
    if precision = 0 then []
    else 46 :: paddedText precision (roundEven (q * 10 ^ precision) % 10 ^ precision)

/-- The digits and the exponent that `%e` comes to; the rounding may give one digit more. -/
def scientificDigits (q : ℚ) : ℕ × ℤ :=
  if roundEven (q * 10 ^ (6 - Int.log 10 q)) = 10 ^ 7 then (10 ^ 6, Int.log 10 q + 1)
  else (roundEven (q * 10 ^ (6 - Int.log 10 q)), Int.log 10 q)

/-- **What `%e` writes for a number that is not negative.** -/
def scientificText (q : ℚ) : CText :=
  decimalText ((scientificDigits q).1 / 10 ^ 6) ++
    46 :: (paddedText 6 ((scientificDigits q).1 % 10 ^ 6) ++
      101 :: (if (scientificDigits q).2 < 0 then 45 else 43) ::
        paddedText 2 (scientificDigits q).2.natAbs)

/-- **What `printf` writes for a double**, when this is written for a number that is not
negative. -/
def DoubleValue.print (digits : ℚ → CText) : DoubleValue → CText
  | .finite negative magnitude => (if negative then [45] else []) ++ digits magnitude.val
  | .infinite negative => (if negative then [45] else []) ++ literal "inf"
  | .nan negative => (if negative then [45] else []) ++ literal "nan"

theorem zero_notMem_fixedText (precision : ℕ) (q : ℚ) : 0 ∉ fixedText precision q := by
  unfold fixedText
  split <;> simp [zero_notMem_decimalText, zero_notMem_paddedText]

theorem zero_notMem_scientificText (q : ℚ) : 0 ∉ scientificText q := by
  unfold scientificText
  split <;> simp [zero_notMem_decimalText, zero_notMem_paddedText]

theorem DoubleValue.zero_notMem_print {digits : ℚ → CText} (h : ∀ q, 0 ∉ digits q)
    (d : DoubleValue) : 0 ∉ d.print digits := by
  have hsign : ∀ negative : Bool, (0 : UInt8) ∉ if negative then [45] else [] := by decide
  have hwords : 0 ∉ literal "inf" ∧ 0 ∉ literal "nan" := by decide
  cases d with
  | finite negative magnitude =>
      rw [print, List.mem_append, not_or]
      exact ⟨hsign negative, h _⟩
  | infinite negative =>
      rw [print, List.mem_append, not_or]
      exact ⟨hsign negative, hwords.1⟩
  | nan negative =>
      rw [print, List.mem_append, not_or]
      exact ⟨hsign negative, hwords.2⟩

/-! ### Lengths -/

/-- The sign takes a byte, and a word three. -/
theorem DoubleValue.length_print_le {digits : ℚ → CText} {n : ℕ} (hword : 3 ≤ n) {d : DoubleValue}
    (h : ∀ negative magnitude, d = .finite negative magnitude →
      (digits magnitude.val).length ≤ n) : (d.print digits).length ≤ n + 1 := by
  have hsign : ∀ negative : Bool, (if negative then [45] else [] : CText).length ≤ 1 := by decide
  have hlength : ∀ (negative : Bool) {text : CText}, text.length ≤ n →
      ((if negative then [45] else []) ++ text).length ≤ n + 1 := by
    intro negative text htext
    have hone := hsign negative
    rw [List.length_append]
    omega
  cases d with
  | finite negative magnitude => exact hlength negative (h negative magnitude rfl)
  | infinite negative => exact hlength negative hword
  | nan negative => exact hlength negative hword

/-- **The text of `%.pf`** has the digits of the number, the point and the digits behind it. -/
theorem length_fixedText_le {precision k : ℕ} {q : ℚ} (hq : 0 ≤ q) (hlt : q < 10 ^ k) :
    (fixedText precision q).length ≤ k + 1 + (if precision = 0 then 0 else precision + 1) := by
  have hround : roundEven (q * 10 ^ precision) ≤ 10 ^ (k + precision) := by
    refine roundEven_le (by positivity) ?_
    push_cast
    rw [pow_add]
    exact mul_lt_mul_of_pos_right hlt (by positivity)
  have hwhole : roundEven (q * 10 ^ precision) / 10 ^ precision < 10 ^ (k + 1) := by
    refine lt_of_le_of_lt (Nat.div_le_div_right hround) ?_
    rw [pow_add, Nat.mul_div_cancel _ (by positivity)]
    exact Nat.pow_lt_pow_right (by norm_num) (Nat.lt_succ_self k)
  have hlen := length_decimalText_le (Nat.succ_pos k) hwhole
  rw [fixedText, List.length_append]
  split
  · simpa using hlen
  · next hprecision =>
      rw [List.length_cons, length_paddedText (Nat.pos_of_ne_zero hprecision)
        (Nat.mod_lt _ (by positivity))]
      omega

/-- A double has an exponent of three digits. -/
theorem log_magnitude {q : Magnitude} : -400 ≤ Int.log 10 q.val ∧ Int.log 10 q.val < 400 := by
  obtain ⟨q, rfl | ⟨hlow, hhigh⟩⟩ := q
  · rw [Int.log_zero_right]
    norm_num
  · have hpos : 0 < q := lt_of_lt_of_le (by positivity) hlow
    -- three binary digits are less than a decimal one
    have hten : (2 : ℚ) ^ 1200 ≤ 10 ^ 400 := by
      calc (2 : ℚ) ^ (3 * 400) = (2 ^ 3) ^ 400 := pow_mul 2 3 400
        _ ≤ 10 ^ 400 := pow_le_pow_left₀ (by norm_num) (by norm_num) 400
    constructor
    · refine (Int.zpow_le_iff_le_log (by norm_num) hpos).1 (le_trans ?_ hlow)
      have hexp : (2 : ℚ) ^ 1074 ≤ 2 ^ 1200 := pow_le_pow_right₀ (by norm_num) (by norm_num)
      have hinv := one_div_le_one_div_of_le (by positivity) (hexp.trans hten)
      simpa [zpow_neg] using hinv
    · refine (Int.lt_zpow_iff_log_lt (by norm_num) hpos).1 (hhigh.trans_le ?_)
      have hexp : (2 : ℚ) ^ 1024 ≤ 2 ^ 1200 := pow_le_pow_right₀ (by norm_num) (by norm_num)
      exact_mod_cast hexp.trans hten

/-- The digits of `%e` are seven at most, and the exponent is at most one more. -/
theorem scientificDigits_le {q : ℚ} (hq : 0 ≤ q) :
    (scientificDigits q).1 ≤ 10 ^ 7 ∧
      ((scientificDigits q).2 = Int.log 10 q ∨ (scientificDigits q).2 = Int.log 10 q + 1) := by
  have hround : roundEven (q * 10 ^ (6 - Int.log 10 q)) ≤ 10 ^ 7 := by
    refine roundEven_le (by positivity) ?_
    -- the number lies below the next power of ten, and six digits are put in front of the point
    have hlt := Int.lt_zpow_succ_log_self (b := 10) (by norm_num) q
    have hscaled := mul_lt_mul_of_pos_right hlt
      (show (0 : ℚ) < 10 ^ (6 - Int.log 10 q) by positivity)
    have hexp : Int.log 10 q + 1 + (6 - Int.log 10 q) = 7 := by omega
    rw [Nat.cast_ofNat, ← zpow_add₀ (by norm_num), hexp] at hscaled
    exact_mod_cast hscaled
  unfold scientificDigits
  split
  · exact ⟨by norm_num, Or.inr rfl⟩
  · exact ⟨hround, Or.inl rfl⟩

/-- **The text of `%e`** for a double. -/
theorem length_scientificText_le (q : Magnitude) : (scientificText q.val).length ≤ 14 := by
  obtain ⟨hdigits, hexponent⟩ := scientificDigits_le q.nonneg
  obtain ⟨hlow, hhigh⟩ := log_magnitude (q := q)
  have hfront : ((scientificDigits q.val).1 / 10 ^ 6) < 10 ^ 2 := by omega
  have hlenFront := length_decimalText_le (by norm_num) hfront
  have hlenMiddle : (paddedText 6 ((scientificDigits q.val).1 % 10 ^ 6)).length = 6 :=
    length_paddedText (by norm_num) (Nat.mod_lt _ (by norm_num))
  have hlenExponent : (decimalText (scientificDigits q.val).2.natAbs).length ≤ 3 :=
    length_decimalText_le (by norm_num) (by omega)
  simp only [scientificText, List.length_append, List.length_cons, hlenMiddle]
  rw [paddedText, List.length_append, List.length_replicate]
  omega

/-- The rounding gives one digit more. -/
example : scientificText (99999999 / 10) = literal "1.000000e+07" := by decide +kernel

end Wsn
