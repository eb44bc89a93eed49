/-
**Reading text as the C library does.**

A C string is the part of a character array up to its first NUL.  The module models the two calls
with which a program reads hexadecimal text: `fgets`, which takes a line or as much of it as its
buffer holds, and `sscanf` with `%x` conversions of a given field width.  A `%x` conversion skips
white space, accepts a sign and a `0x`, and takes as many digits as the width allows, so it accepts
more than plain digits; on plain digits that fill the width it reads exactly these.

Nothing here is about a particular program.

Main definitions:

* `CScan.cString` — the string at the front of an array;
* `CScan.fgets` — one line of a stream, cut at the size of the buffer;
* `CScan.scanHex`, `CScan.scanHexes` — one `%x` conversion, and a row of them;
* `CScan.Spells` — a text of digits, two for each byte; `CScan.hexText` is one in upper case.

Main results:

* `CScan.scanHex_digits` — digits that fill the width are read as they stand;
* `CScan.scanHex_space` — white space alone converts nothing;
* `CScan.fgetsLine_line`, `CScan.fgetsLine_cut` — a line that fits is taken whole, a longer one is
  cut;
* `CScan.Spells.set_digit` — replacing one digit replaces one byte, in the half of that digit.
-/

import Mathlib.Data.List.TakeWhile
import Mathlib.Data.Nat.Digits.Defs
import Mathlib.Data.UInt

set_option relaxedAutoImplicit false
set_option autoImplicit false

namespace CScan

/-! ### Characters -/

/-- `'\n'`. -/
def newline : UInt8 := 10

/-- `isspace` in the C locale. -/
def isSpace (c : UInt8) : Bool := c = 32 ∨ 9 ≤ c ∧ c ≤ 13

/-- The value of a hexadecimal digit of either case. -/
def hexDigit? (c : UInt8) : Option ℕ :=
  if 48 ≤ c ∧ c ≤ 57 then some (c.toNat - 48)
  else if 65 ≤ c ∧ c ≤ 70 then some (c.toNat - 55)
  else if 97 ≤ c ∧ c ≤ 102 then some (c.toNat - 87)
  else none

theorem hexDigit?_lt {c : UInt8} {d : ℕ} (h : hexDigit? c = some d) : d < 16 := by
  unfold hexDigit? at h
  simp only [UInt8.le_iff_toNat_le, UInt8.reduceToNat] at h
  split at h <;> [skip; split at h <;> [skip; split at h]]
  all_goals cases h
  all_goals omega

/-- Where the digits lie among the characters. -/
theorem hexDigit?_range {c : UInt8} {d : ℕ} (h : hexDigit? c = some d) :
    48 ≤ c.toNat ∧ c.toNat ≤ 57 ∨ 65 ≤ c.toNat ∧ c.toNat ≤ 70 ∨ 97 ≤ c.toNat ∧ c.toNat ≤ 102 := by
  unfold hexDigit? at h
  simp only [UInt8.le_iff_toNat_le, UInt8.reduceToNat] at h
  split at h <;> [skip; split at h <;> [skip; split at h]]
  all_goals cases h
  all_goals omega

theorem hexDigit?_ne {c c' : UInt8} {d : ℕ} (h : hexDigit? c = some d)
    (hc' : hexDigit? c' = none) : c ≠ c' := by
  rintro rfl
  rw [h] at hc'
  cases hc'

theorem not_isSpace_of_hexDigit? {c : UInt8} {d : ℕ} (h : hexDigit? c = some d) :
    isSpace c = false := by
  have hr := hexDigit?_range h
  unfold isSpace
  rw [decide_eq_false_iff_not]
  rintro (rfl | ⟨-, h13⟩)
  · simp at hr
  · rw [UInt8.le_iff_toNat_le] at h13
    simp only [UInt8.reduceToNat] at h13
    omega

/-! ### Strings -/

/-- **The C string at the front of an array**: its characters up to the first NUL.  `none` when the
array holds no NUL. -/
def cString (buf : List UInt8) : Option (List UInt8) :=
  if 0 ∈ buf then some (buf.takeWhile fun c => c != 0) else none

@[simp] theorem cString_nul (junk : List UInt8) : cString (0 :: junk) = some [] := by
  simp [cString]

/-- Characters in front of a string lengthen it. -/
theorem cString_append {s : List UInt8} (hs : 0 ∉ s) (rest : List UInt8) :
    cString (s ++ rest) = (cString rest).map (s ++ ·) := by
  have htake : (s ++ rest).takeWhile (fun c => c != 0) = s ++ rest.takeWhile fun c => c != 0 := by
    rw [List.takeWhile_append_of_pos]
    intro c hc
    rw [bne_iff_ne]
    rintro rfl
    exact hs hc
  by_cases hrest : 0 ∈ rest
  · simp only [cString, if_pos hrest, if_pos (List.mem_append_right s hrest), htake, Option.map_some]
  · have hall : 0 ∉ s ++ rest := by simp [hs, hrest]
    simp only [cString, if_neg hrest, if_neg hall, Option.map_none]

/-- **The string ends** in front of every NUL. -/
theorem cString_of_getElem? {buf : List UInt8} {k : ℕ} (h : buf[k]? = some 0) :
    ∃ s, cString buf = some s ∧ s.length ≤ k := by
  refine ⟨_, if_pos (List.mem_of_getElem? h), ?_⟩
  induction buf generalizing k with
  | nil => cases h
  | cons b buf ih =>
      rw [List.takeWhile_cons]
      split
      · next hb =>
          cases k with
          | zero =>
              rw [List.getElem?_cons_zero, Option.some.injEq] at h
              rw [bne_iff_ne] at hb
              exact absurd h hb
          | succ k =>
              rw [List.getElem?_cons_succ] at h
              exact Nat.succ_le_succ (ih h)
      · exact Nat.zero_le k

/-! ### Conversions -/

/-- Up to `w` digits at the front of a string: their values, and what follows. -/
def hexDigits : ℕ → List UInt8 → List ℕ × List UInt8
  | 0, s => ([], s)
  | _ + 1, [] => ([], [])
  | w + 1, c :: s =>
      match hexDigit? c with
      | none => ([], c :: s)
      | some d => (d :: (hexDigits w s).1, (hexDigits w s).2)

/-- At least one digit, and at most `w`. -/
def scanDigits (w : ℕ) (s : List UInt8) : Option (ℕ × List UInt8) :=
  match (hexDigits w s).1 with
  | [] => none
  | d :: ds => some (Nat.ofDigits 16 (d :: ds).reverse, (hexDigits w s).2)

/-- Digits after an optional `0x`.  A `0x` without a digit behind it converts nothing: it is the
beginning of a number, but not a number. -/
def scanMagnitude (w : ℕ) : List UInt8 → Option (ℕ × List UInt8)
  | zero :: x :: s =>
      if zero = 48 ∧ (x = 120 ∨ x = 88) ∧ 2 ≤ w then scanDigits (w - 2) s
      else scanDigits w (zero :: x :: s)
  | s => scanDigits w s

/-- **A `%x` conversion of field width `w` into an `unsigned int`.**  White space before it does not
count for the width; a sign does, and `-` negates in the type of the result. -/
def scanHex (w : ℕ) (s : List UInt8) : Option (UInt32 × List UInt8) :=
  match s.dropWhile isSpace with
  | [] => none
  | c :: t =>
      if c = 43 then (scanMagnitude (w - 1) t).map fun r => (UInt32.ofNat r.1, r.2)
      else if c = 45 then (scanMagnitude (w - 1) t).map fun r => (- UInt32.ofNat r.1, r.2)
      else (scanMagnitude w (c :: t)).map fun r => (UInt32.ofNat r.1, r.2)

/-- **`sscanf` with a row of `%x` conversions**: the values converted before the first failure.  The
number of them is what `sscanf` returns, and `EOF` when the string ends before the first. -/
def scanHexes : List ℕ → List UInt8 → List UInt32
  | [], _ => []
  | w :: ws, s =>
      match scanHex w s with
      | none => []
      | some r => r.1 :: scanHexes ws r.2

/-- A text of digits read as their values. -/
def Digits (text : List UInt8) (ds : List ℕ) : Prop := text.map hexDigit? = ds.map some

theorem hexDigits_digits {text : List UInt8} {ds : List ℕ} (h : Digits text ds)
    (rest : List UInt8) : hexDigits text.length (text ++ rest) = (ds, rest) := by
  induction text generalizing ds with
  | nil =>
      have hds : ds = [] := List.map_eq_nil_iff.1 h.symm
      rw [hds]
      rfl
  | cons c text ih =>
      obtain ⟨d, ds, rfl, hd, hds⟩ := List.map_eq_cons_iff.1 h.symm
      have hrest : hexDigits text.length (text ++ rest) = (ds, rest) := ih hds.symm
      simp only [List.length_cons, List.cons_append, hexDigits, ← hd, hrest]

theorem scanDigits_digits {text : List UInt8} {ds : List ℕ} (h : Digits text ds) (h0 : text ≠ [])
    (rest : List UInt8) :
    scanDigits text.length (text ++ rest) = some (Nat.ofDigits 16 ds.reverse, rest) := by
  cases ds with
  | nil => exact absurd (List.map_eq_nil_iff.1 h) h0
  | cons d ds => simp only [scanDigits, hexDigits_digits h]

/-- A conversion that meets a digit first has no white space and no sign to pass. -/
theorem scanHex_cons {c : UInt8} {d : ℕ} (hc : hexDigit? c = some d) (w : ℕ) (t : List UInt8) :
    scanHex w (c :: t) = (scanMagnitude w (c :: t)).map fun r => (UInt32.ofNat r.1, r.2) := by
  have hdrop : (c :: t).dropWhile isSpace = c :: t := by
    rw [List.dropWhile_cons_of_neg]
    rw [not_isSpace_of_hexDigit? hc]
    exact Bool.false_ne_true
  have hplus : c ≠ 43 := hexDigit?_ne hc (by decide)
  have hminus : c ≠ 45 := hexDigit?_ne hc (by decide)
  unfold scanHex
  rw [hdrop]
  simp only [if_neg hplus, if_neg hminus]

/-- Among digits no `0x` is met: an `x` is no digit, and with width one it is not looked at. -/
theorem scanMagnitude_digits {text : List UInt8} {ds : List ℕ} (h : Digits text ds)
    (rest : List UInt8) :
    scanMagnitude text.length (text ++ rest) = scanDigits text.length (text ++ rest) := by
  match text, ds, h with
  | [], _, _ => rcases rest with _ | ⟨_, _ | _⟩ <;> simp [scanMagnitude]
  | [_], _, _ => cases rest <;> simp [scanMagnitude]
  | _ :: x :: text, ds, h =>
      obtain ⟨_, _, -, -, htail⟩ := List.map_eq_cons_iff.1 h.symm
      obtain ⟨e, _, -, he, -⟩ := List.map_eq_cons_iff.1 htail
      have hx : x ≠ 120 := hexDigit?_ne he.symm (by decide)
      have hX : x ≠ 88 := hexDigit?_ne he.symm (by decide)
      simp [scanMagnitude, hx, hX]

/-- **Digits that fill the width are read as they stand.** -/
theorem scanHex_digits {text : List UInt8} {ds : List ℕ} (h : Digits text ds) (h0 : text ≠ [])
    (rest : List UInt8) :
    scanHex text.length (text ++ rest) = some (UInt32.ofNat (Nat.ofDigits 16 ds.reverse), rest) := by
  have hread := scanDigits_digits h h0 rest
  rw [← scanMagnitude_digits h] at hread
  cases text with
  | nil => exact absurd rfl h0
  | cons c text =>
      obtain ⟨d, _, -, hd, -⟩ := List.map_eq_cons_iff.1 h.symm
      rw [List.cons_append, scanHex_cons hd.symm, ← List.cons_append, hread]
      rfl

/-- **White space alone converts nothing.** -/
theorem scanHex_space {s : List UInt8} (h : ∀ c ∈ s, isSpace c = true) (w : ℕ) :
    scanHex w s = none := by
  have hdrop : s.dropWhile isSpace = [] := List.dropWhile_eq_nil_iff.2 h
  simp only [scanHex, hdrop]

/-- A number has a digit. -/
theorem exists_digit_of_scanDigits {w : ℕ} {s : List UInt8} {r : ℕ × List UInt8}
    (h : scanDigits w s = some r) : ∃ c ∈ s, ∃ d, hexDigit? c = some d := by
  cases w with
  | zero => simp [scanDigits, hexDigits] at h
  | succ w =>
      cases s with
      | nil => simp [scanDigits, hexDigits] at h
      | cons c s =>
          cases hc : hexDigit? c with
          | none => simp [scanDigits, hexDigits, hc] at h
          | some d => exact ⟨c, List.mem_cons_self, d, hc⟩

theorem exists_digit_of_scanMagnitude {w : ℕ} {s : List UInt8} {r : ℕ × List UInt8}
    (h : scanMagnitude w s = some r) : ∃ c ∈ s, ∃ d, hexDigit? c = some d := by
  unfold scanMagnitude at h
  split at h
  · split at h
    · obtain ⟨c, hc, hd⟩ := exists_digit_of_scanDigits h
      exact ⟨c, List.mem_cons_of_mem _ (List.mem_cons_of_mem _ hc), hd⟩
    · exact exists_digit_of_scanDigits h
  · exact exists_digit_of_scanDigits h

theorem exists_digit_of_scanHex {w : ℕ} {s : List UInt8} {r : UInt32 × List UInt8}
    (h : scanHex w s = some r) : ∃ c ∈ s, ∃ d, hexDigit? c = some d := by
  have hfound {t : List UInt8} (ht : t ⊆ s) {v : ℕ} {r : ℕ × List UInt8}
      (hr : scanMagnitude v t = some r) : ∃ c ∈ s, ∃ d, hexDigit? c = some d := by
    obtain ⟨c, hc, hd⟩ := exists_digit_of_scanMagnitude hr
    exact ⟨c, ht hc, hd⟩
  unfold scanHex at h
  split at h
  · cases h
  · next c t hs =>
      have hall : c :: t ⊆ s := hs ▸ (List.dropWhile_sublist isSpace).subset
      have htail : t ⊆ s := List.subset_of_cons_subset hall
      split at h <;> [skip; split at h]
      all_goals obtain ⟨r', hr', -⟩ := Option.map_eq_some_iff.1 h
      · exact hfound htail hr'
      · exact hfound htail hr'
      · exact hfound hall hr'

/-! ### Bytes written with two digits -/

/-- **A text of digits, two for each byte**, the high half first. -/
inductive Spells : List UInt8 → List UInt8 → Prop
  | nil : Spells [] []
  | cons {hi lo : UInt8} {h l : ℕ} {text bytes : List UInt8} (hhi : hexDigit? hi = some h)
      (hlo : hexDigit? lo = some l) (htext : Spells text bytes) :
      Spells (hi :: lo :: text) (UInt8.ofNat (16 * h + l) :: bytes)

theorem Spells.length {text bytes : List UInt8} (h : Spells text bytes) :
    text.length = 2 * bytes.length := by
  induction h with
  | nil => rfl
  | cons _ _ _ ih => simp only [List.length_cons, ih]; omega

theorem Spells.hexDigit {text bytes : List UInt8} (h : Spells text bytes) :
    ∀ c ∈ text, ∃ d, hexDigit? c = some d := by
  induction h with
  | nil => simp
  | cons hhi hlo _ ih =>
      intro c hc
      simp only [List.mem_cons] at hc
      rcases hc with rfl | rfl | hc
      · exact ⟨_, hhi⟩
      · exact ⟨_, hlo⟩
      · exact ih c hc

/-- A character that is no digit does not occur in a text of digits. -/
theorem Spells.not_mem {text bytes : List UInt8} (h : Spells text bytes) {c : UInt8}
    (hc : hexDigit? c = none) : c ∉ text := by
  intro hmem
  obtain ⟨d, hd⟩ := h.hexDigit c hmem
  exact hexDigit?_ne hd hc rfl

/-- **A text of digits of an even length spells bytes.** -/
theorem exists_spells {text : List UInt8} {m : ℕ} (hlen : text.length = 2 * m)
    (h : ∀ c ∈ text, hexDigit? c ≠ none) : ∃ bytes, Spells text bytes ∧ bytes.length = m := by
  induction m generalizing text with
  | zero =>
      obtain rfl : text = [] := List.length_eq_zero_iff.1 (by omega)
      exact ⟨[], .nil, rfl⟩
  | succ m ih =>
      match text, hlen, h with
      | [], hlen, _ => rw [List.length_nil] at hlen; omega
      | [_], hlen, _ => rw [List.length_singleton] at hlen; omega
      | hi :: lo :: text, hlen, h =>
          obtain ⟨x, hx⟩ := Option.ne_none_iff_exists'.1 (h hi (by simp))
          obtain ⟨y, hy⟩ := Option.ne_none_iff_exists'.1 (h lo (by simp))
          rw [List.length_cons, List.length_cons] at hlen
          obtain ⟨bytes, hbytes, hcount⟩ : ∃ bytes, Spells text bytes ∧ bytes.length = m :=
            ih (by omega) fun c hc => h c (by simp [hc])
          exact ⟨_, .cons hx hy hbytes, by rw [List.length_cons, hcount]⟩

theorem Spells.append {text text' bytes bytes' : List UInt8} (h : Spells text bytes)
    (h' : Spells text' bytes') : Spells (text ++ text') (bytes ++ bytes') := by
  induction h with
  | nil => exact h'
  | cons hhi hlo _ ih => exact .cons hhi hlo ih

theorem Spells.take {text bytes : List UInt8} (h : Spells text bytes) (k : ℕ) :
    Spells (text.take (2 * k)) (bytes.take k) := by
  induction h generalizing k with
  | nil => simpa using Spells.nil
  | cons hhi hlo _ ih =>
      cases k with
      | zero => exact .nil
      | succ k => exact .cons hhi hlo (ih k)

/-- The digit of a value, in upper case. -/
def hexChar (d : ℕ) : UInt8 := UInt8.ofNat (if d < 10 then 48 + d else 55 + d)

theorem hexDigit?_hexChar : ∀ d < 16, hexDigit? (hexChar d) = some d := by decide

/-- Bytes written with digits in upper case. -/
def hexText (bytes : List UInt8) : List UInt8 :=
  bytes.flatMap fun b => [hexChar (b.toNat / 16), hexChar (b.toNat % 16)]

/-- **Every row of bytes can be written.** -/
theorem spells_hexText (bytes : List UInt8) : Spells (hexText bytes) bytes := by
  induction bytes with
  | nil => exact .nil
  | cons b bytes ih =>
      have hb := b.toNat_lt
      have hhi := hexDigit?_hexChar (b.toNat / 16) (by omega)
      have hlo := hexDigit?_hexChar (b.toNat % 16) (by omega)
      have hbyte : UInt8.ofNat (16 * (b.toNat / 16) + b.toNat % 16) = b := by
        rw [Nat.div_add_mod, UInt8.ofNat_toNat]
      have hcons := Spells.cons hhi hlo ih
      rw [hbyte] at hcons
      exact hcons

theorem Spells.cString {text bytes : List UInt8} (h : Spells text bytes) {rest tail : List UInt8}
    (hrest : cString rest = some tail) : CScan.cString (text ++ rest) = some (text ++ tail) := by
  have hnul : 0 ∉ text := h.not_mem (by decide)
  rw [cString_append hnul, hrest, Option.map_some]

/-- A text of digits is read pair by pair. -/
theorem Spells.scanHex {text bytes : List UInt8} {b : UInt8} (h : Spells text (b :: bytes))
    (rest : List UInt8) :
    ∃ text', scanHex 2 (text ++ rest) = some (b.toUInt32, text' ++ rest) ∧
      (∀ more, (text ++ more).drop 2 = text' ++ more) ∧ Spells text' bytes := by
  cases h with
  | @cons hi lo d e text' _ hhi hlo htext =>
      refine ⟨text', ?_, fun _ => rfl, htext⟩
      have hdigits : Digits [hi, lo] [d, e] := by simp [Digits, hhi, hlo]
      have hread := scanHex_digits hdigits (by simp) (text' ++ rest)
      have hd := hexDigit?_lt hhi
      have he := hexDigit?_lt hlo
      have hval : Nat.ofDigits 16 [d, e].reverse = 16 * d + e := by
        simp [Nat.ofDigits_cons]; omega
      have hbyte : UInt32.ofNat (16 * d + e) = (UInt8.ofNat (16 * d + e)).toUInt32 := by
        rw [← UInt32.toNat_inj, UInt32.toNat_ofNat', UInt8.toNat_toUInt32, UInt8.toNat_ofNat']
        omega
      rw [hval, hbyte] at hread
      exact hread

/-- A pair of bytes read by one conversion of width four. -/
theorem Spells.scanHex_four {text bytes : List UInt8} {b b' : UInt8}
    (h : Spells text (b :: b' :: bytes)) (rest : List UInt8) :
    ∃ text', CScan.scanHex 4 (text ++ rest) =
        some (UInt32.ofNat (256 * b.toNat + b'.toNat), text' ++ rest) ∧
      (∀ more, (text ++ more).drop 4 = text' ++ more) ∧ Spells text' bytes := by
  cases h with
  | @cons hi lo d e _ _ hhi hlo htext =>
      cases htext with
      | @cons hi' lo' d' e' text' _ hhi' hlo' htext' =>
          refine ⟨text', ?_, fun _ => rfl, htext'⟩
          have hdigits : Digits [hi, lo, hi', lo'] [d, e, d', e'] := by
            simp [Digits, hhi, hlo, hhi', hlo']
          have hread := scanHex_digits hdigits (by simp) (text' ++ rest)
          have hd := hexDigit?_lt hhi
          have he := hexDigit?_lt hlo
          have hd' := hexDigit?_lt hhi'
          have he' := hexDigit?_lt hlo'
          have hval : Nat.ofDigits 16 [d, e, d', e'].reverse =
              256 * (UInt8.ofNat (16 * d + e)).toNat + (UInt8.ofNat (16 * d' + e')).toNat := by
            rw [UInt8.toNat_ofNat', UInt8.toNat_ofNat']
            simp [Nat.ofDigits_cons]
            omega
          rw [hval] at hread
          exact hread

/-- The byte `b` with the digit `d` in its high half, when `i` is even, or in its low half. -/
def setHalf (i : ℕ) (b : UInt8) (d : ℕ) : UInt8 :=
  UInt8.ofNat (if i % 2 = 0 then 16 * d + b.toNat % 16 else 16 * (b.toNat / 16) + d)

theorem toNat_setHalf (i : ℕ) (b : UInt8) {d : ℕ} (hd : d < 16) :
    (setHalf i b d).toNat = if i % 2 = 0 then 16 * d + b.toNat % 16 else 16 * (b.toNat / 16) + d := by
  have hb := b.toNat_lt
  unfold setHalf
  split <;> rw [UInt8.toNat_ofNat'] <;> omega

/-- **Replacing one digit by another replaces one byte by another**, in the half of that digit. -/
theorem Spells.set_digit {text bytes : List UInt8} (h : Spells text bytes) {i : ℕ} {c c' : UInt8}
    {d d' : ℕ} (hi : text[i]? = some c) (hd : hexDigit? c = some d) (hd' : hexDigit? c' = some d')
    (hne : d ≠ d') :
    ∃ b, bytes[i / 2]? = some b ∧ setHalf i b d' ≠ b ∧
      Spells (text.set i c') (bytes.set (i / 2) (setHalf i b d')) := by
  induction h generalizing i with
  | nil => cases hi
  | @cons hi₀ lo₀ e f text bytes hhi hlo htext ih =>
      have he := hexDigit?_lt hhi
      have hf := hexDigit?_lt hlo
      have hd16 := hexDigit?_lt hd'
      have hb : (UInt8.ofNat (16 * e + f)).toNat = 16 * e + f := by
        rw [UInt8.toNat_ofNat']
        omega
      match i, hi with
      | 0, hi =>
          obtain rfl : hi₀ = c := by simpa using hi
          obtain rfl : e = d := by rw [hhi] at hd; exact Option.some.inj hd
          have hset : setHalf 0 (UInt8.ofNat (16 * e + f)) d' = UInt8.ofNat (16 * d' + f) := by
            rw [setHalf, if_pos rfl, hb, Nat.mul_add_mod, Nat.mod_eq_of_lt hf]
          refine ⟨_, rfl, ?_, ?_⟩
          · rw [Ne, ← UInt8.toNat_inj, toNat_setHalf 0 _ hd16, hb, if_pos rfl]
            omega
          · rw [hset]
            exact .cons hd' hlo htext
      | 1, hi =>
          obtain rfl : lo₀ = c := by simpa using hi
          obtain rfl : f = d := by rw [hlo] at hd; exact Option.some.inj hd
          have hset : setHalf 1 (UInt8.ofNat (16 * e + f)) d' = UInt8.ofNat (16 * e + d') := by
            have hdiv : (16 * e + f) / 16 = e := by omega
            rw [setHalf, if_neg Nat.one_ne_zero, hb, hdiv]
          refine ⟨_, rfl, ?_, ?_⟩
          · rw [Ne, ← UInt8.toNat_inj, toNat_setHalf 1 _ hd16, hb, if_neg Nat.one_ne_zero]
            omega
          · rw [hset]
            exact .cons hhi hd' htext
      | i + 2, hi =>
          obtain ⟨b, hb, hbne, hset⟩ := ih (by simpa using hi)
          have hdiv : (i + 2) / 2 = i / 2 + 1 := by omega
          have hhalf : setHalf (i + 2) b d' = setHalf i b d' := by
            rw [setHalf, setHalf, Nat.add_mod_right]
          rw [hdiv]
          refine ⟨b, by simpa using hb, ?_, ?_⟩
          · rwa [hhalf]
          · rw [hhalf]
            exact .cons hhi hlo hset

/-! ### Lines of a stream -/

/-- The characters `fgets` takes, at most `m`, and the rest of the stream. -/
def fgetsLine : ℕ → List UInt8 → List UInt8 × List UInt8
  | 0, s => ([], s)
  | _ + 1, [] => ([], [])
  | m + 1, c :: s =>
      if c = newline then ([c], s) else (c :: (fgetsLine m s).1, (fgetsLine m s).2)

/-- **`fgets` into a buffer of `size` characters**: the characters it stores before the NUL, and the
rest of the stream; `none` at the end of the stream. -/
def fgets (size : ℕ) (s : List UInt8) : Option (List UInt8 × List UInt8) :=
  if s = [] then none else some (fgetsLine (size - 1) s)

/-- A character that does not end the line. -/
theorem fgetsLine_cons {c : UInt8} (hc : c ≠ newline) (m : ℕ) (s : List UInt8) :
    fgetsLine (m + 1) (c :: s) = (c :: (fgetsLine m s).1, (fgetsLine m s).2) :=
  if_neg hc

/-- A line that fits is taken whole. -/
theorem fgetsLine_line {t : List UInt8} (ht : newline ∉ t) {m : ℕ} (hm : t.length < m)
    (rest : List UInt8) : fgetsLine m (t ++ newline :: rest) = (t ++ [newline], rest) := by
  induction t generalizing m with
  | nil =>
      obtain ⟨m, rfl⟩ : ∃ k, m = k + 1 := ⟨m - 1, by simp at hm; omega⟩
      simp [fgetsLine]
  | cons c t ih =>
      obtain ⟨m, rfl⟩ : ∃ k, m = k + 1 := ⟨m - 1, by simp at hm; omega⟩
      rw [List.mem_cons, not_or] at ht
      have hrest := ih ht.2 (m := m) (by simpa using hm)
      rw [List.cons_append, fgetsLine_cons (Ne.symm ht.1), hrest, List.cons_append]

/-- A longer one is cut. -/
theorem fgetsLine_cut {t : List UInt8} (ht : newline ∉ t) {m : ℕ} (hm : m ≤ t.length)
    (rest : List UInt8) : fgetsLine m (t ++ rest) = (t.take m, t.drop m ++ rest) := by
  induction t generalizing m with
  | nil =>
      obtain rfl : m = 0 := by simpa using hm
      rfl
  | cons c t ih =>
      rw [List.mem_cons, not_or] at ht
      cases m with
      | zero => rfl
      | succ m =>
          have hrest := ih ht.2 (m := m) (by simpa using hm)
          rw [List.cons_append, fgetsLine_cons (Ne.symm ht.1), hrest, List.take_succ_cons,
            List.drop_succ_cons]

/-- The last line of a stream may lack its newline. -/
theorem fgetsLine_last {t : List UInt8} (ht : newline ∉ t) {m : ℕ} (hm : t.length ≤ m) :
    fgetsLine m t = (t, []) := by
  induction t generalizing m with
  | nil => cases m <;> rfl
  | cons c t ih =>
      obtain ⟨m, rfl⟩ : ∃ k, m = k + 1 := ⟨m - 1, by simp at hm; omega⟩
      rw [List.mem_cons, not_or] at ht
      have hrest := ih ht.2 (m := m) (by simpa using hm)
      rw [fgetsLine_cons (Ne.symm ht.1), hrest]

end CScan
