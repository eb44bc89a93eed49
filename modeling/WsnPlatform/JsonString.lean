/-
**The string literals of cJSON.**

`parse_string` goes over a literal twice: once to find out how much memory its text needs, and once
to write it.  The two loops agree on where the literal ends as long as every escape in it is
complete.  An escape `\u` is written as UTF-8, and a pair of them as one character.

Main definitions:

* `parseString`, `printStringPtr` — the functions of the source;
* `StandsFor` — what a literal stands for;
* `Readable` — a text in memory that a parser can go through.

Main results:

* `parseString_spec` — **on a readable text `parse_string` stays inside the memory**;
* `parseString_standsFor` — it reads a literal as what it stands for, Unicode included;
* `printStringPtr_spec`, `standsFor_flatMap` — what is printed is a literal that stands for the text;
* `parseString_overflow_iff` — what an incomplete escape comes to.
-/

import WsnPlatform.CScan
import WsnPlatform.JsonItem
import Mathlib

set_option relaxedAutoImplicit false
set_option autoImplicit false

namespace Wsn

open CScan

/-! ### Reading a literal -/

/-- `"`. -/
def quote : UInt8 := 34

/-- `\`. -/
def backslash : UInt8 := 92

/-- `u`. -/
def letterU : UInt8 := 117

/-- The digits that are left to `parse_hex4`, and what it has made of the ones in front. -/
def hexLeft : ℕ → ℕ → List UInt8 → Except JsonFault ℕ
  | 0, h, _ => .ok h
  | _ + 1, _, [] => .error .overread
  | left + 1, h, c :: str =>
      match hexDigit? c with
      | none => .ok 0
      | some d => hexLeft left (16 * h + d) str

/-- **`parse_hex4`**; it is `0` if something is no digit. -/
def parseHex4 (str : List UInt8) : Except JsonFault ℕ := hexLeft 4 0 str

/-- `firstByteMark`. -/
def firstByteMark (len : ℕ) : ℕ := [0x00, 0x00, 0xC0, 0xE0, 0xF0, 0xF8, 0xFC].getD len 0

/-- The bytes of a character, which are written from the last one to the first. -/
def utf8Behind (mark : ℕ) : ℕ → ℕ → List UInt8 → List UInt8
  | 0, uc, out => UInt8.ofNat (uc ||| mark) :: out
  | left + 1, uc, out =>
      utf8Behind mark left (uc >>> 6) (UInt8.ofNat ((uc ||| 0x80) &&& 0xBF) :: out)

/-- How many bytes a character takes. -/
def utf8Length (uc : ℕ) : ℕ :=
  if uc < 0x80 then 1 else if uc < 0x800 then 2 else if uc < 0x10000 then 3 else 4

/-- A character in UTF-8. -/
def utf8 (uc : ℕ) : List UInt8 :=
  utf8Behind (firstByteMark (utf8Length uc)) (utf8Length uc - 1) uc []

/-- The second half of a pair, behind the first one; what is written, and where the reading goes
on. -/
def secondHalf (uc : ℕ) (ptr : List UInt8) : Except JsonFault (List UInt8 × List UInt8) :=
  match ptr with
  | [] => .error .overread
  | c :: tail =>
      if c ≠ backslash then .ok ([], ptr)
      else
        match tail with
        | [] => .error .overread
        | c :: str =>
            if c ≠ letterU then .ok ([], ptr)
            else do
              let uc2 ← parseHex4 str
              if uc2 < 0xDC00 ∨ 0xDFFF < uc2 then .ok ([], str.drop 4)
              else .ok (utf8 (0x10000 + ((uc &&& 0x3FF) <<< 10 ||| uc2 &&& 0x3FF)), str.drop 4)

/-- The case `'u'`: what is written, and where the reading goes on. -/
def transcode (str : List UInt8) : Except JsonFault (List UInt8 × List UInt8) := do
  let uc ← parseHex4 str
  if 0xDC00 ≤ uc ∧ uc ≤ 0xDFFF ∨ uc = 0 then .ok ([], str.drop 4)
  else if 0xD800 ≤ uc ∧ uc ≤ 0xDBFF then secondHalf uc (str.drop 4)
  else .ok (utf8 uc, str.drop 4)

/-- What a character behind a backslash stands for, other than `u`. -/
def shortEscape (c : UInt8) : UInt8 :=
  if c = 98 then 8
  else if c = 102 then 12
  else if c = 110 then 10
  else if c = 114 then 13
  else if c = 116 then 9
  else c

/-- What stands behind a backslash: what is written, and where the reading goes on. -/
def escape (ptr : List UInt8) : Except JsonFault (List UInt8 × List UInt8) :=
  match ptr with
  | [] => .error .overread
  | c :: str => if c = letterU then transcode str else .ok ([shortEscape c], str)

/-- The first loop: what it takes for the length of the text. -/
def literalLen : List UInt8 → Except JsonFault ℕ
  | [] => .error .overread
  | [c] => if c = quote ∨ c = 0 then .ok 0 else .error .overread
  | c :: c' :: ptr =>
      if c = quote ∨ c = 0 then .ok 0
      else if c = backslash then (· + 1) <$> literalLen ptr
      else (· + 1) <$> literalLen (c' :: ptr)

/-- The second loop: what it writes, and where it ends. -/
def copyLiteral : ℕ → List UInt8 → Except JsonFault (List UInt8 × List UInt8)
  | 0, _ => .error .stuck
  | _ + 1, [] => .error .overread
  | turns + 1, c :: ptr =>
      if c = quote ∨ c = 0 then .ok ([], c :: ptr)
      else do
        let (piece, ptr) ← if c = backslash then escape ptr else .ok ([c], ptr)
        let (out, rest) ← copyLiteral turns ptr
        .ok (piece ++ out, rest)

variable {D : Type}

/-- **`parse_string`**: the item, where the reading goes on unless it is `NULL`, and the memory. -/
def parseString (mem : ℕ → Bool) (item : JsonItem D) (str : List UInt8) (heap : JsonHeap) :
    Except JsonFault (JsonItem D × Option (List UInt8) × JsonHeap) :=
  match str with
  | [] => .error .overread
  | c :: ptr =>
      if c ≠ quote then .ok (item, none, heap)
      else do
        let len ← literalLen ptr
        match cJsonMalloc mem heap with
        | (none, heap) => .ok (item, none, heap)
        | (some addr, heap) => do
            let (out, ptr) ← copyLiteral (ptr.length + 1) ptr
            let block ← writeText addr (len + 1) out
            let ptr := if ptr.head? = some quote then ptr.tail else ptr
            .ok ({ item with valuestring := some block, type := .string }, some ptr, heap)

/-! ### Writing a literal -/

/-- A digit as `"%x"` writes it. -/
def lowerHex (d : ℕ) : UInt8 := UInt8.ofNat (if d < 10 then 48 + d else 87 + d)

/-- How many bytes are counted for a byte of the text. -/
def tokenLen (token : UInt8) : ℕ :=
  1 + (if token ∈ [quote, backslash, 8, 12, 10, 13, 9] then 1 else if token < 32 then 5 else 0)

/-- What is written for a byte of the text. -/
def escapeToken (token : UInt8) : List UInt8 :=
  if 31 < token ∧ token ≠ quote ∧ token ≠ backslash then [token]
  else backslash ::
    if token = backslash then [backslash]
    else if token = quote then [quote]
    else if token = 8 then [98]
    else if token = 12 then [102]
    else if token = 10 then [110]
    else if token = 13 then [114]
    else if token = 9 then [116]
    else [letterU, 48, 48, lowerHex (token.toNat / 16), lowerHex (token.toNat % 16)]

/-- A text as a literal. -/
def quoted (text : CText) : CText := quote :: (text.flatMap escapeToken ++ [quote])

/-- **`print_string_ptr`**. -/
def printStringPtr (mem : ℕ → Bool) (str : Option TextBlock) (heap : JsonHeap) :
    Except JsonFault (Option TextBlock × JsonHeap) :=
  match str with
  | none => .ok (cJsonStrdup mem [] heap)
  | some str =>
      match cJsonMalloc mem heap with
      | (none, heap) => .ok (none, heap)
      | (some out, heap) => do
          let block ← writeText out ((str.text.map tokenLen).sum + 3) (quoted str.text)
          .ok (some block, heap)

/-! ### UTF-8 -/

theorem or_and_tail (uc : ℕ) : (uc ||| 0x80) &&& 0xBF = uc % 64 + 128 := by
  have hbyte : ∀ r < 256, (r ||| 0x80) &&& 0xBF = r % 64 + 128 := by decide +kernel
  have hlow : (uc ||| 0x80) &&& 0xFF = uc % 256 ||| 0x80 := by
    have hor : (uc ||| 0x80) % 2 ^ 8 = uc % 2 ^ 8 ||| 0x80 % 2 ^ 8 := Nat.or_mod_two_pow
    rw [← Nat.and_two_pow_sub_one_eq_mod] at hor
    simpa using hor
  have hmask : (uc ||| 0x80) &&& 0xBF = (uc % 256 ||| 0x80) &&& 0xBF := by
    rw [← hlow, Nat.and_assoc]
    rfl
  rw [hmask, hbyte (uc % 256) (by omega)]
  omega

theorem or_mark_two : ∀ r < 32, r ||| 0xC0 = r + 0xC0 := by decide

theorem or_mark_three : ∀ r < 16, r ||| 0xE0 = r + 0xE0 := by decide

theorem or_mark_four : ∀ r < 8, r ||| 0xF0 = r + 0xF0 := by decide

theorem utf8_one {uc : ℕ} (h : uc < 0x80) : utf8 uc = [UInt8.ofNat uc] := by
  simp [utf8, utf8Length, h, utf8Behind, firstByteMark]

theorem utf8_two {uc : ℕ} (h1 : ¬ uc < 0x80) (h2 : uc < 0x800) :
    utf8 uc = [UInt8.ofNat (uc / 64 % 32 + 0xC0), UInt8.ofNat (uc % 64 + 128)] := by
  have hhead : uc >>> 6 = uc / 64 % 32 := by omega
  have hmark := or_mark_two (uc / 64 % 32) (by omega)
  simp [utf8, utf8Length, h1, h2, utf8Behind, firstByteMark, or_and_tail, hhead, hmark]

theorem utf8_three {uc : ℕ} (h2 : ¬ uc < 0x800) (h3 : uc < 0x10000) :
    utf8 uc = [UInt8.ofNat (uc / 4096 % 16 + 0xE0), UInt8.ofNat (uc / 64 % 64 + 128),
      UInt8.ofNat (uc % 64 + 128)] := by
  have h1 : ¬ uc < 0x80 := by omega
  have hmid : uc >>> 6 % 64 = uc / 64 % 64 := by omega
  have hhead : uc >>> 6 >>> 6 = uc / 4096 % 16 := by omega
  have hmark := or_mark_three (uc / 4096 % 16) (by omega)
  simp only [utf8, utf8Length, h1, h2, h3, if_true, if_false, utf8Behind, or_and_tail, hmid,
    hhead]
  simp [firstByteMark, hmark]

theorem utf8_four {uc : ℕ} (h3 : ¬ uc < 0x10000) (h4 : uc < 0x110000) :
    utf8 uc = [UInt8.ofNat (uc / 262144 % 8 + 0xF0), UInt8.ofNat (uc / 4096 % 64 + 128),
      UInt8.ofNat (uc / 64 % 64 + 128), UInt8.ofNat (uc % 64 + 128)] := by
  have h1 : ¬ uc < 0x80 := by omega
  have h2 : ¬ uc < 0x800 := by omega
  have hlow : uc >>> 6 % 64 = uc / 64 % 64 := by omega
  have hmid : uc >>> 6 >>> 6 % 64 = uc / 4096 % 64 := by omega
  have hhead : uc >>> 6 >>> 6 >>> 6 = uc / 262144 % 8 := by omega
  have hmark := or_mark_four (uc / 262144 % 8) (by omega)
  simp only [utf8, utf8Length, h1, h2, h3, if_false, utf8Behind, or_and_tail, hlow, hmid, hhead]
  simp [firstByteMark, hmark]

/-- **The bytes that are written for a character are its UTF-8.** -/
theorem utf8_char (ch : Char) : utf8 ch.toNat = String.utf8EncodeChar ch := by
  have hlt : ch.toNat < 0x110000 := by
    have hvalid := ch.valid
    simp only [UInt32.isValidChar, Nat.isValidChar] at hvalid
    show ch.val.toNat < _
    omega
  unfold String.utf8EncodeChar
  change _ = if ch.toNat ≤ 0x7f then _ else if ch.toNat ≤ 0x7ff then _ else
    if ch.toNat ≤ 0xffff then _ else _
  split
  · exact utf8_one (by omega)
  · split
    · exact utf8_two (by omega) (by omega)
    · split
      · exact utf8_three (by omega) (by omega)
      · exact utf8_four (by omega) hlt

/-! ### The loops -/

/-- A byte of a literal that stands for itself. -/
def Unescaped (c : UInt8) : Prop := c ≠ 0 ∧ c ≠ quote ∧ c ≠ backslash

instance (c : UInt8) : Decidable (Unescaped c) :=
  inferInstanceAs (Decidable (c ≠ 0 ∧ c ≠ quote ∧ c ≠ backslash))

theorem literalLen_stop {c : UInt8} (hc : c = quote ∨ c = 0) (ptr : List UInt8) :
    literalLen (c :: ptr) = .ok 0 := by
  cases ptr <;> simp [literalLen, hc]

theorem literalLen_byte {c : UInt8} (hc : Unescaped c) (ptr : List UInt8) :
    literalLen (c :: ptr) = (· + 1) <$> literalLen ptr := by
  obtain ⟨hzero, hquote, hback⟩ := hc
  cases ptr with
  | nil => simp [literalLen, hzero, hquote]
  | cons c' ptr => simp [literalLen, hzero, hquote, hback]

theorem literalLen_escape (c : UInt8) (ptr : List UInt8) :
    literalLen (backslash :: c :: ptr) = (· + 1) <$> literalLen ptr := by
  have hquote : backslash ≠ quote := by decide
  have hzero : backslash ≠ 0 := by decide
  simp [literalLen, hquote, hzero]

/-- The bytes of a text that stand for themselves are counted. -/
theorem literalLen_append {text : List UInt8} (h : ∀ c ∈ text, Unescaped c) {ptr : List UInt8}
    {len : ℕ} (hlen : literalLen ptr = .ok len) :
    literalLen (text ++ ptr) = .ok (len + text.length) := by
  induction text with
  | nil => exact hlen
  | cons c text ih =>
      rw [List.cons_append, literalLen_byte (h c List.mem_cons_self),
        ih fun c hc => h c (List.mem_cons_of_mem _ hc)]
      exact congrArg Except.ok (Nat.add_assoc _ _ _)

theorem copyLiteral_stop {c : UInt8} (hc : c = quote ∨ c = 0) (turns : ℕ) (ptr : List UInt8) :
    copyLiteral (turns + 1) (c :: ptr) = .ok ([], c :: ptr) := by
  simp [copyLiteral, hc]

theorem copyLiteral_byte {c : UInt8} (hc : Unescaped c) {turns : ℕ} {ptr : List UInt8}
    {out rest : List UInt8} (h : copyLiteral turns ptr = .ok (out, rest)) :
    copyLiteral (turns + 1) (c :: ptr) = .ok (c :: out, rest) := by
  obtain ⟨hzero, hquote, hback⟩ := hc
  simp only [copyLiteral, hzero, hquote, hback, or_self, if_false, bind, Except.bind, h]
  rfl

theorem copyLiteral_escape {turns : ℕ} {ptr ptr' piece out rest : List UInt8}
    (hescape : escape ptr = .ok (piece, ptr')) (h : copyLiteral turns ptr' = .ok (out, rest)) :
    copyLiteral (turns + 1) (backslash :: ptr) = .ok (piece ++ out, rest) := by
  have hquote : backslash ≠ quote := by decide
  have hzero : backslash ≠ 0 := by decide
  simp only [copyLiteral, hzero, hquote, or_self, if_false, if_true, bind, Except.bind, hescape, h]

/-! ### Four digits -/

/-- **Four digits that stand for a number.** -/
def SpellsUnit (text : List UInt8) (n : ℕ) : Prop :=
  text.length = 4 ∧ ∃ ds, Digits text ds ∧ n = ds.foldl (fun h d => 16 * h + d) 0

theorem hexLeft_digits {text : List UInt8} {ds : List ℕ} (h : Digits text ds) (n : ℕ)
    (rest : List UInt8) :
    hexLeft text.length n (text ++ rest) = .ok (ds.foldl (fun h d => 16 * h + d) n) := by
  induction text generalizing ds n with
  | nil =>
      obtain rfl : ds = [] := by simpa [Digits] using h
      rfl
  | cons c text ih =>
      cases ds with
      | nil => simp [Digits] at h
      | cons d ds =>
          simp only [Digits, List.map_cons, List.cons.injEq] at h
          simp only [List.length_cons, List.cons_append, hexLeft, h.1]
          exact ih h.2 (16 * n + d)

theorem SpellsUnit.parseHex4 {text : List UInt8} {n : ℕ} (h : SpellsUnit text n)
    (rest : List UInt8) : parseHex4 (text ++ rest) = .ok n := by
  obtain ⟨hlen, ds, hds, rfl⟩ := h
  rw [Wsn.parseHex4, ← hlen]
  exact hexLeft_digits hds 0 rest

theorem SpellsUnit.drop {text : List UInt8} {n : ℕ} (h : SpellsUnit text n) (rest : List UInt8) :
    (text ++ rest).drop 4 = rest := by
  rw [← h.1, List.drop_left]

theorem unescaped_digit {c : UInt8} {d : ℕ} (h : hexDigit? c = some d) : Unescaped c :=
  ⟨hexDigit?_ne h rfl, hexDigit?_ne h rfl, hexDigit?_ne h rfl⟩

theorem SpellsUnit.unescaped {text : List UInt8} {n : ℕ} (h : SpellsUnit text n) :
    ∀ c ∈ text, Unescaped c := by
  obtain ⟨-, ds, hds, -⟩ := h
  intro c hc
  have hmem : hexDigit? c ∈ ds.map some := hds ▸ List.mem_map_of_mem hc
  obtain ⟨d, -, hd⟩ := List.mem_map.1 hmem
  exact unescaped_digit hd.symm

/-! ### What a literal stands for -/

/-- **An escape `\\u`, or a pair of them, for a character.** -/
inductive SpellsChar : List UInt8 → Char → Prop
  | unit {text : List UInt8} {ch : Char} : SpellsUnit text ch.toNat →
      SpellsChar (backslash :: letterU :: text) ch
  | pair {first second : List UInt8} {hi lo : ℕ} {ch : Char} : SpellsUnit first (0xD800 + hi) →
      SpellsUnit second (0xDC00 + lo) → hi < 0x400 → lo < 0x400 →
      ch.toNat = 0x10000 + hi * 0x400 + lo →
      SpellsChar (backslash :: letterU :: (first ++ backslash :: letterU :: second)) ch

/-- **What the inside of a literal stands for**, if it has neither an escape of U+0000 nor one half
of a pair by itself: a text of C cannot hold the first, and the second is no character.
`parse_string` leaves out both. -/
inductive StandsFor : List UInt8 → CText → Prop
  | nil : StandsFor [] []
  | byte {c : UInt8} {lit : List UInt8} {text : CText} : Unescaped c → StandsFor lit text →
      StandsFor (c :: lit) (c :: text)
  | short {c : UInt8} {lit : List UInt8} {text : CText} : c ≠ 0 → c ≠ letterU →
      StandsFor lit text → StandsFor (backslash :: c :: lit) (shortEscape c :: text)
  | char {spelled lit : List UInt8} {ch : Char} {text : CText} : ch.toNat ≠ 0 →
      SpellsChar spelled ch → StandsFor lit text →
      StandsFor (spelled ++ lit) (String.utf8EncodeChar ch ++ text)

/-- A character is no half of a pair. -/
theorem char_range (ch : Char) : ch.toNat < 0xD800 ∨ 0xDFFF < ch.toNat := by
  have hvalid := ch.valid
  simp only [UInt32.isValidChar, Nat.isValidChar] at hvalid
  change ch.val.toNat < _ ∨ _ < ch.val.toNat
  omega

theorem and_low_bits (n : ℕ) : n &&& 0x3FF = n % 0x400 := Nat.and_two_pow_sub_one_eq_mod n 10

/-- The two halves of a character are put together. -/
theorem join_halves {hi lo : ℕ} (hhi : hi < 0x400) (hlo : lo < 0x400) :
    0x10000 + ((0xD800 + hi &&& 0x3FF) <<< 10 ||| 0xDC00 + lo &&& 0x3FF) =
      0x10000 + hi * 0x400 + lo := by
  have hfirst : (0xD800 + hi) % 0x400 = hi := by omega
  have hsecond : (0xDC00 + lo) % 0x400 = lo := by omega
  have hor : hi <<< 10 ||| lo = hi <<< 10 + lo := (Nat.shiftLeft_add_eq_or_of_lt hlo hi).symm
  rw [and_low_bits, and_low_bits, hfirst, hsecond, hor, Nat.shiftLeft_eq]
  omega

/-- **An escape is written as the character that it stands for.** -/
theorem escape_spellsChar {spelled : List UInt8} {ch : Char} (hch : ch.toNat ≠ 0)
    (h : SpellsChar spelled ch) (rest : List UInt8) :
    ∃ text, spelled = backslash :: text ∧
      escape (text ++ rest) = .ok (String.utf8EncodeChar ch, rest) := by
  have hrange := char_range ch
  cases h with
  | @unit text _ hunit =>
      refine ⟨letterU :: text, rfl, ?_⟩
      have hlow : ¬ (0xDC00 ≤ ch.toNat ∧ ch.toNat ≤ 0xDFFF ∨ ch.toNat = 0) := by omega
      have hhigh : ¬ (0xD800 ≤ ch.toNat ∧ ch.toNat ≤ 0xDBFF) := by omega
      simp only [List.cons_append, escape, if_true, transcode, bind, Except.bind,
        hunit.parseHex4, hlow, hhigh, if_false, hunit.drop, utf8_char]
  | @pair first second hi lo _ hfirst hsecond hhi hlo heq =>
      refine ⟨_, rfl, ?_⟩
      have hlow : ¬ (0xDC00 ≤ 0xD800 + hi ∧ 0xD800 + hi ≤ 0xDFFF ∨ 0xD800 + hi = 0) := by omega
      have hhigh : 0xD800 ≤ 0xD800 + hi ∧ 0xD800 + hi ≤ 0xDBFF := by omega
      have hrest : ¬ (0xDC00 + lo < 0xDC00 ∨ 0xDFFF < 0xDC00 + lo) := by omega
      simp only [List.cons_append, List.append_assoc, escape, if_true, transcode, bind,
        Except.bind, hfirst.parseHex4, hlow, hhigh, and_self, if_false, hfirst.drop, secondHalf,
        ne_eq, not_true_eq_false, hsecond.parseHex4, hrest, hsecond.drop, join_halves hhi hlo]
      rw [← heq, utf8_char]

theorem length_utf8EncodeChar_le (ch : Char) : (String.utf8EncodeChar ch).length ≤ 4 := by
  rw [String.length_utf8EncodeChar]
  exact Char.utf8Size_le_four ch

/-- An escape is counted for at least as much as is written for it. -/
theorem literalLen_spellsChar {spelled : List UInt8} {ch : Char} (h : SpellsChar spelled ch)
    {ptr : List UInt8} {len : ℕ} (hlen : literalLen ptr = .ok len) :
    ∃ n, literalLen (spelled ++ ptr) = .ok n ∧ len + (String.utf8EncodeChar ch).length ≤ n := by
  have hle := length_utf8EncodeChar_le ch
  cases h with
  | @unit text _ hunit =>
      refine ⟨len + text.length + 1, ?_, by rw [hunit.1]; omega⟩
      rw [List.cons_append, List.cons_append, literalLen_escape,
        literalLen_append hunit.unescaped hlen]
      rfl
  | @pair first second hi lo _ hfirst hsecond hhi hlo heq =>
      refine ⟨len + second.length + 1 + first.length + 1, ?_, by rw [hfirst.1]; omega⟩
      have hback : literalLen (backslash :: letterU :: (second ++ ptr)) =
          .ok (len + second.length + 1) := by
        rw [literalLen_escape, literalLen_append hsecond.unescaped hlen]
        rfl
      rw [List.cons_append, List.cons_append, literalLen_escape, List.append_assoc,
        List.cons_append, List.cons_append, literalLen_append hfirst.unescaped hback]
      rfl

theorem StandsFor.literalLen {lit : List UInt8} {text : CText} (h : StandsFor lit text)
    (rest : List UInt8) :
    ∃ len, literalLen (lit ++ quote :: rest) = .ok len ∧ text.length ≤ len := by
  induction h with
  | nil => exact ⟨0, literalLen_stop (Or.inl rfl) rest, le_rfl⟩
  | byte hc _ ih =>
      obtain ⟨len, hlen, hle⟩ := ih
      refine ⟨len + 1, ?_, by simpa using hle⟩
      rw [List.cons_append, literalLen_byte hc, hlen]
      rfl
  | short _ _ _ ih =>
      obtain ⟨len, hlen, hle⟩ := ih
      refine ⟨len + 1, ?_, by simpa using hle⟩
      rw [List.cons_append, List.cons_append, literalLen_escape, hlen]
      rfl
  | char _ hspells _ ih =>
      obtain ⟨len, hlen, hle⟩ := ih
      obtain ⟨n, hn, hcount⟩ := literalLen_spellsChar hspells hlen
      refine ⟨n, by rw [List.append_assoc]; exact hn, ?_⟩
      rw [List.length_append]
      omega

theorem StandsFor.copyLiteral {lit : List UInt8} {text : CText} (h : StandsFor lit text)
    (rest : List UInt8) {turns : ℕ} (hturns : lit.length < turns) :
    copyLiteral turns (lit ++ quote :: rest) = .ok (text, quote :: rest) := by
  induction h generalizing turns with
  | nil =>
      obtain ⟨turns, rfl⟩ := Nat.exists_eq_succ_of_ne_zero (Nat.ne_zero_of_lt hturns)
      exact copyLiteral_stop (Or.inl rfl) turns rest
  | byte hc _ ih =>
      obtain ⟨turns, rfl⟩ := Nat.exists_eq_succ_of_ne_zero (Nat.ne_zero_of_lt hturns)
      exact copyLiteral_byte hc (ih (by simpa using hturns))
  | @short c lit text _ hu _ ih =>
      obtain ⟨turns, rfl⟩ := Nat.exists_eq_succ_of_ne_zero (Nat.ne_zero_of_lt hturns)
      have hescape : escape (c :: (lit ++ quote :: rest)) =
          .ok ([shortEscape c], lit ++ quote :: rest) := by
        simp [escape, hu]
      simp only [List.length_cons] at hturns
      exact copyLiteral_escape hescape (ih (by omega))
  | @char spelled lit ch text hch hspells _ ih =>
      obtain ⟨turns, rfl⟩ := Nat.exists_eq_succ_of_ne_zero (Nat.ne_zero_of_lt hturns)
      obtain ⟨front, rfl, hescape⟩ := escape_spellsChar hch hspells (lit ++ quote :: rest)
      simp only [List.length_append, List.length_cons] at hturns
      rw [List.append_assoc, List.cons_append]
      exact copyLiteral_escape hescape (ih (by omega))

theorem shortEscape_ne_zero {c : UInt8} (hc : c ≠ 0) : shortEscape c ≠ 0 := by
  unfold shortEscape
  repeat' split
  all_goals first | decide | exact hc

theorem ofNat_ne_zero {n : ℕ} (h : n % 256 ≠ 0) : (0 : UInt8) ≠ UInt8.ofNat n := by
  intro heq
  have htoNat := congrArg UInt8.toNat heq
  rw [UInt8.toNat_ofNat'] at htoNat
  exact h htoNat.symm

/-- A character other than the zero has no zero in its UTF-8. -/
theorem utf8EncodeChar_ne_zero {ch : Char} (hch : ch.toNat ≠ 0) :
    0 ∉ String.utf8EncodeChar ch := by
  change ch.val.toNat ≠ 0 at hch
  unfold String.utf8EncodeChar
  simp only
  repeat' split
  all_goals
    simp only [List.mem_cons, List.not_mem_nil, or_false, not_or]
  · exact ofNat_ne_zero (by omega)
  · exact ⟨ofNat_ne_zero (by omega), ofNat_ne_zero (by omega)⟩
  · exact ⟨ofNat_ne_zero (by omega), ofNat_ne_zero (by omega), ofNat_ne_zero (by omega)⟩
  · exact ⟨ofNat_ne_zero (by omega), ofNat_ne_zero (by omega), ofNat_ne_zero (by omega),
      ofNat_ne_zero (by omega)⟩

theorem StandsFor.nonzero {lit : List UInt8} {text : CText} (h : StandsFor lit text) :
    0 ∉ text := by
  induction h with
  | nil => exact List.not_mem_nil
  | byte hc _ ih => simp [hc.1.symm, ih]
  | short hc _ _ ih => simp [(shortEscape_ne_zero hc).symm, ih]
  | char hch _ _ ih => simp [utf8EncodeChar_ne_zero hch, ih]

@[simp] theorem TextBlock.text_of (ptr : ℕ) (bytes : List UInt8) :
    (TextBlock.of ptr bytes).text = textOf bytes := rfl

/-- The item that a literal is read into. -/
def JsonItem.setString (item : JsonItem D) (addr : ℕ) (text : CText) : JsonItem D :=
  { item with valuestring := some (.of addr text), type := .string }

/-- **`parse_string` reads a literal as what it stands for.** -/
theorem parseString_standsFor (mem : ℕ → Bool) (item : JsonItem D) {lit : List UInt8}
    {text : CText} (h : StandsFor lit text) (rest : List UInt8) (heap : JsonHeap) :
    parseString mem item (quote :: (lit ++ quote :: rest)) heap =
      match cJsonMalloc mem heap with
      | (none, heap) => .ok (item, none, heap)
      | (some addr, heap) => .ok (item.setString addr text, some rest, heap) := by
  obtain ⟨len, hlen, hle⟩ := h.literalLen rest
  have hturns : lit.length < (lit ++ quote :: rest).length + 1 := by
    rw [List.length_append]
    omega
  have hcopy := h.copyLiteral rest hturns
  simp only [parseString, ne_eq, not_true_eq_false, if_false, hlen, bind, Except.bind]
  rcases cJsonMalloc mem heap with ⟨_ | addr, heap⟩
  · rfl
  · have hwrite : text.length < len + 1 := by omega
    simp only [hcopy, writeText, hwrite, if_true, List.head?_cons, List.tail_cons]
    rfl

/-! ### What is readable -/

/-- The number that the digits in front of a text make, or behind a sign there. -/
def exponentOf (ptr : List UInt8) : ℕ :=
  decimal ((if ptr.head? = some 43 ∨ ptr.head? = some 45 then ptr.tail else ptr).takeWhile isDigit)

/-- **A text in memory that a parser can go through**, with a zero behind it: a backslash has a
character behind it, and `\\u` four that stand for themselves; and behind an `e` or `E` there is no
number that an `int` cannot hold. -/
inductive Readable : List UInt8 → Prop
  | stop {beyond : List UInt8} : Readable (0 :: beyond)
  | byte {c : UInt8} {ptr : List UInt8} : c ≠ 0 → c ≠ backslash →
      (c = 101 ∨ c = 69 → exponentOf ptr < 2 ^ 31) → Readable ptr → Readable (c :: ptr)
  | short {c : UInt8} {ptr : List UInt8} : c ≠ 0 → c ≠ letterU → Readable ptr →
      Readable (backslash :: c :: ptr)
  | unit {text ptr : List UInt8} : text.length = 4 → (∀ c ∈ text, Unescaped c) → Readable ptr →
      Readable (backslash :: letterU :: (text ++ ptr))

theorem Readable.ne_nil {ptr : List UInt8} (h : Readable ptr) : ptr ≠ [] := by
  cases h <;> exact List.cons_ne_nil _ _

/-- Behind a byte that is neither the zero nor a backslash the text is readable. -/
theorem Readable.tail {c : UInt8} {ptr : List UInt8} (h : Readable (c :: ptr)) (hzero : c ≠ 0)
    (hback : c ≠ backslash) : Readable ptr := by
  cases h with
  | stop => exact absurd rfl hzero
  | byte _ _ _ h => exact h
  | short => exact absurd rfl hback
  | unit => exact absurd rfl hback

/-- Behind an `e` or `E` there is no number that is too large. -/
theorem Readable.exponent {c : UInt8} {ptr : List UInt8} (h : Readable (c :: ptr))
    (hc : c = 101 ∨ c = 69) : exponentOf ptr < 2 ^ 31 := by
  cases h with
  | stop => exact absurd hc (by decide)
  | byte _ _ hexp _ => exact hexp hc
  | short => exact absurd hc (by decide)
  | unit => exact absurd hc (by decide)

/-- A text without backslashes is readable, if its exponents are. -/
theorem readable_append {text : List UInt8} (hzero : 0 ∉ text) (hback : backslash ∉ text)
    {ptr : List UInt8} (hexp : ∀ c tail, c :: tail <:+ text → c = 101 ∨ c = 69 →
      exponentOf (tail ++ ptr) < 2 ^ 31) (h : Readable ptr) : Readable (text ++ ptr) := by
  induction text with
  | nil => exact h
  | cons c text ih =>
      simp only [List.mem_cons, not_or] at hzero hback
      refine .byte (Ne.symm hzero.1) (Ne.symm hback.1) (hexp c text (List.suffix_refl _))
        (ih hzero.2 hback.2 ?_)
      exact fun d tail hsuffix => hexp d tail (hsuffix.trans (List.suffix_cons c text))

theorem hexLeft_ok : ∀ (left h : ℕ) {str : List UInt8}, left ≤ str.length →
    ∃ n, hexLeft left h str = .ok n ∧ n < (h + 1) * 16 ^ left := by
  intro left
  induction left with
  | zero =>
      intro h str _
      exact ⟨h, rfl, by omega⟩
  | succ left ih =>
      intro h str hlen
      cases str with
      | nil => simp at hlen
      | cons c str =>
          cases hd : hexDigit? c with
          | none =>
              refine ⟨0, by simp [hexLeft, hd], ?_⟩
              positivity
          | some d =>
              have hdigit := hexDigit?_lt hd
              obtain ⟨n, hn, hlt⟩ := ih (16 * h + d) (by simpa using hlen)
              refine ⟨n, by simp [hexLeft, hd, hn], ?_⟩
              calc n < (16 * h + d + 1) * 16 ^ left := hlt
                _ ≤ ((h + 1) * 16) * 16 ^ left := Nat.mul_le_mul_right _ (by omega)
                _ = (h + 1) * 16 ^ (left + 1) := by ring

theorem length_utf8Behind (mark : ℕ) : ∀ (left uc : ℕ) (out : List UInt8),
    (utf8Behind mark left uc out).length = left + 1 + out.length := by
  intro left
  induction left with
  | zero =>
      intro uc out
      simp [utf8Behind, Nat.add_comm]
  | succ left ih =>
      intro uc out
      rw [utf8Behind, ih, List.length_cons]
      omega

theorem length_utf8_le (uc : ℕ) : (utf8 uc).length ≤ 4 := by
  rw [utf8, length_utf8Behind]
  unfold utf8Length
  split_ifs <;> simp

/-- **What a turn over an escape comes to**: what is written is no longer than what was counted,
and the reading goes on behind the escape, or behind a second one. -/
theorem secondHalf_readable (uc : ℕ) {ptr : List UInt8} (h : Readable ptr) :
    ∃ piece rest, secondHalf uc ptr = .ok (piece, rest) ∧ piece.length ≤ 4 ∧ Readable rest ∧
      rest.length ≤ ptr.length ∧
      ∀ len, literalLen rest = .ok len → ∃ n, literalLen ptr = .ok (n + len) := by
  have hsame : ∀ len, literalLen ptr = .ok len → ∃ n, literalLen ptr = .ok (n + len) :=
    fun len hlen => ⟨0, by rw [hlen, Nat.zero_add]⟩
  cases h with
  | stop =>
      exact ⟨[], _, rfl, by simp, .stop, le_rfl, hsame⟩
  | byte hzero hback hexp hptr =>
      exact ⟨[], _, by simp [secondHalf, hback], by simp, .byte hzero hback hexp hptr, le_rfl,
        hsame⟩
  | short hzero hu hptr =>
      exact ⟨[], _, by simp [secondHalf, hu], by simp, .short hzero hu hptr, le_rfl, hsame⟩
  | @unit text ptr hlen htext hptr =>
      obtain ⟨uc2, hhex, -⟩ := hexLeft_ok 4 0 (show 4 ≤ (text ++ ptr).length by
        rw [List.length_append, hlen]; omega)
      have hdrop : (text ++ ptr).drop 4 = ptr := by rw [← hlen, List.drop_left]
      have hcount : ∀ len, literalLen ptr = .ok len →
          ∃ n, literalLen (backslash :: letterU :: (text ++ ptr)) = .ok (n + len) := by
        intro len hptrLen
        refine ⟨5, ?_⟩
        rw [literalLen_escape, literalLen_append htext hptrLen, hlen]
        exact congrArg Except.ok (show len + 4 + 1 = 5 + len by omega)
      have hle : ptr.length ≤ (backslash :: letterU :: (text ++ ptr)).length := by
        simp only [List.length_cons, List.length_append]
        omega
      -- a second half that is none is stepped over all the same
      by_cases hrange : uc2 < 0xDC00 ∨ 0xDFFF < uc2
      · refine ⟨[], ptr, ?_, by simp, hptr, hle, hcount⟩
        simp [secondHalf, parseHex4, hhex, bind, Except.bind, hrange, hdrop]
      · refine ⟨utf8 (0x10000 + ((uc &&& 0x3FF) <<< 10 ||| uc2 &&& 0x3FF)), ptr, ?_,
          length_utf8_le _, hptr, hle, hcount⟩
        simp only [secondHalf, ne_eq, not_true_eq_false, if_false, parseHex4, hhex, bind,
          Except.bind, hrange, hdrop]

theorem escape_readable {ptr : List UInt8} (h : Readable (backslash :: ptr)) :
    ∃ piece rest, escape ptr = .ok (piece, rest) ∧ Readable rest ∧ rest.length < ptr.length ∧
      ∀ len, literalLen rest = .ok len →
        ∃ n, literalLen (backslash :: ptr) = .ok n ∧ piece.length + len ≤ n := by
  cases h with
  | byte _ hback => exact absurd rfl hback
  | @short c ptr hzero hu hptr =>
      refine ⟨[shortEscape c], ptr, by simp [escape, hu], hptr, by simp, ?_⟩
      intro len hlen
      exact ⟨len + 1, by rw [literalLen_escape, hlen]; rfl, by simp [Nat.add_comm]⟩
  | @unit text ptr hlen htext hptr =>
      obtain ⟨uc, hhex, -⟩ := hexLeft_ok 4 0 (show 4 ≤ (text ++ ptr).length by
        rw [List.length_append, hlen]; omega)
      have hdrop : (text ++ ptr).drop 4 = ptr := by rw [← hlen, List.drop_left]
      have hcount : ∀ len, literalLen ptr = .ok len →
          literalLen (backslash :: letterU :: (text ++ ptr)) = .ok (len + 5) := by
        intro len hptrLen
        rw [literalLen_escape, literalLen_append htext hptrLen, hlen]
        rfl
      have hle : ptr.length < (letterU :: (text ++ ptr)).length := by
        simp only [List.length_cons, List.length_append]
        omega
      have hescape : escape (letterU :: (text ++ ptr)) = transcode (text ++ ptr) := by
        simp [escape]
      -- a lone low half and U+0000 are counted, but nothing is written for them
      by_cases hlow : 0xDC00 ≤ uc ∧ uc ≤ 0xDFFF ∨ uc = 0
      · refine ⟨[], ptr, ?_, hptr, hle, fun len hl => ⟨len + 5, hcount len hl, by simp⟩⟩
        rw [hescape]
        simp only [transcode, parseHex4, hhex, bind, Except.bind, hlow, if_true, hdrop]
      · by_cases hhigh : 0xD800 ≤ uc ∧ uc ≤ 0xDBFF
        · obtain ⟨piece, rest, hsecond, hpiece, hrest, hrestLe, hsecondCount⟩ :=
            secondHalf_readable uc hptr
          refine ⟨piece, rest, ?_, hrest, by omega, ?_⟩
          · rw [hescape]
            simp only [transcode, parseHex4, hhex, bind, Except.bind, hlow, hhigh, and_self,
              if_true, if_false, hdrop, hsecond]
          · intro len hl
            obtain ⟨n, hn⟩ := hsecondCount len hl
            exact ⟨n + len + 5, hcount _ hn, by omega⟩
        · refine ⟨utf8 uc, ptr, ?_, hptr, hle, fun len hl => ⟨len + 5, hcount len hl, ?_⟩⟩
          · rw [hescape]
            simp only [transcode, parseHex4, hhex, bind, Except.bind, hlow, hhigh, if_false, hdrop]
          · have hbytes := length_utf8_le uc
            omega

/-- **On a readable text the two loops agree**: the second writes no more than the first has
counted. -/
theorem literal_readable : ∀ (turns : ℕ) {ptr : List UInt8}, ptr.length ≤ turns → Readable ptr →
    ∃ len out rest, literalLen ptr = .ok len ∧ copyLiteral turns ptr = .ok (out, rest) ∧
      out.length ≤ len ∧ Readable rest ∧ rest.length ≤ ptr.length := by
  intro turns
  induction turns with
  | zero =>
      intro ptr hle h
      exact absurd (List.eq_nil_of_length_eq_zero (Nat.le_zero.1 hle)) h.ne_nil
  | succ turns ih =>
      intro ptr hle h
      cases ptr with
      | nil => exact absurd rfl h.ne_nil
      | cons c ptr =>
          by_cases hstop : c = quote ∨ c = 0
          · exact ⟨0, [], c :: ptr, literalLen_stop hstop ptr, copyLiteral_stop hstop turns ptr,
              le_rfl, h, le_rfl⟩
          · rw [not_or] at hstop
            simp only [List.length_cons] at hle
            -- only an escape is counted and written differently
            by_cases hback : c = backslash
            · subst hback
              obtain ⟨piece, rest, hescape, hrest, hlt, hcount⟩ := escape_readable h
              obtain ⟨len, out, rest', hlen, hcopy, hout, hrest', hle'⟩ :=
                ih (by omega) hrest
              obtain ⟨n, hn, hbound⟩ := hcount len hlen
              refine ⟨n, piece ++ out, rest', hn, copyLiteral_escape hescape hcopy, ?_, hrest', ?_⟩
              · rw [List.length_append]
                omega
              · simp only [List.length_cons]
                omega
            · have hbyte : Unescaped c := ⟨hstop.2, hstop.1, hback⟩
              obtain ⟨len, out, rest, hlen, hcopy, hout, hrest, hle'⟩ :=
                ih (by omega) (h.tail hstop.2 hback)
              refine ⟨len + 1, c :: out, rest, ?_, copyLiteral_byte hbyte hcopy,
                by simpa using hout, hrest, ?_⟩
              · rw [literalLen_byte hbyte, hlen]
                rfl
              · simp only [List.length_cons]
                omega

variable {mem : ℕ → Bool} {heap : JsonHeap} {held : List ℕ}

/-- **`parse_string` stays inside the memory on a readable text**, and owns the block that it has
asked for. -/
theorem parseString_spec (mem : ℕ → Bool) {item : JsonItem D} {str : List UInt8}
    (hstr : Readable str)
    (hfresh : item.valuestring = none) (hheld : heap.Holds (item.blocks ++ held)) :
    ∃ item' rest heap', parseString mem item str heap = .ok (item', rest, heap') ∧
      heap'.Holds (item'.blocks ++ held) ∧
      (rest = none ∧ item' = item ∨
        ∃ q addr text, rest = some q ∧ item' = item.setString addr text ∧ Readable q ∧
          q.length < str.length) := by
  cases str with
  | nil => exact absurd rfl hstr.ne_nil
  | cons c ptr =>
      by_cases hc : c = quote
      · subst hc
        have hptr := hstr.tail (by decide) (by decide)
        obtain ⟨len, out, rest, hlen, hcopy, hout, hrest, hle⟩ :=
          literal_readable (ptr.length + 1) (Nat.le_succ _) hptr
        have hwrite : out.length < len + 1 := by omega
        simp only [parseString, ne_eq, not_true_eq_false, if_false, hlen, bind, Except.bind]
        rcases cJsonMalloc_spec mem hheld with
          ⟨heap', hcall, hheld', -⟩ | ⟨addr, heap', hcall, hheld', -⟩
        · simp only [hcall]
          exact ⟨item, none, heap', rfl, hheld', Or.inl ⟨rfl, rfl⟩⟩
        · simp only [hcall, hcopy, writeText, hwrite, if_true]
          refine ⟨_, _, heap', rfl, ?_, Or.inr ⟨_, addr, out, rfl, rfl, ?_⟩⟩
          · refine hheld'.perm ?_
            simp only [JsonItem.blocks_eq, hfresh, textBlocks_some, textBlocks_none,
              TextBlock.addr_of, List.nil_append, List.append_assoc]
            exact List.perm_middle
          · cases rest with
            | nil => exact absurd rfl hrest.ne_nil
            | cons c rest =>
                simp only [List.head?_cons, Option.some.injEq, List.tail_cons]
                split
                · rename_i hc
                  subst hc
                  refine ⟨hrest.tail (by decide) (by decide), ?_⟩
                  simp only [List.length_cons] at hle ⊢
                  omega
                · refine ⟨hrest, ?_⟩
                  simp only [List.length_cons] at hle ⊢
                  omega
      · refine ⟨item, none, heap, ?_, hheld, Or.inl ⟨rfl, rfl⟩⟩
        simp [parseString, hc]

/-- The bytes of a text that stand for themselves are copied. -/
theorem copyLiteral_append {text : List UInt8} (h : ∀ b ∈ text, Unescaped b) {c : UInt8}
    (hc : c = quote ∨ c = 0) (rest : List UInt8) {turns : ℕ} (hturns : text.length < turns) :
    copyLiteral turns (text ++ c :: rest) = .ok (text, c :: rest) := by
  induction text generalizing turns with
  | nil =>
      obtain ⟨turns, rfl⟩ := Nat.exists_eq_succ_of_ne_zero (Nat.ne_zero_of_lt hturns)
      exact copyLiteral_stop hc turns rest
  | cons b text ih =>
      obtain ⟨turns, rfl⟩ := Nat.exists_eq_succ_of_ne_zero (Nat.ne_zero_of_lt hturns)
      exact copyLiteral_byte (h b List.mem_cons_self)
        (ih (fun b hb => h b (List.mem_cons_of_mem _ hb)) (by simpa using hturns))

/-- An escape `\\u` that the quotation mark follows is four bytes long all the same. -/
theorem escape_quote (b b' b'' : UInt8) (ptr : List UInt8) :
    escape (letterU :: quote :: b :: b' :: b'' :: ptr) = .ok ([], ptr) := by
  have hdigit : hexDigit? quote = none := by decide
  simp [escape, transcode, parseHex4, hexLeft, hdigit, bind, Except.bind]

/-- **An escape `\\u` in front of the quotation mark** makes `parse_string` go on behind the
literal: it takes the quotation mark for one of the four digits.  What it copies there, up to the
next quotation mark or the zero, is written behind its block from the second byte on. -/
theorem parseString_overflow_iff (item : JsonItem D) {b b' b'' c : UInt8}
    {behind rest : List UInt8} (hbehind : ∀ b ∈ behind, Unescaped b) (hc : c = quote ∨ c = 0)
    (hmem : mem heap.asked = true) :
    parseString mem item
        (quote :: backslash :: letterU :: quote :: b :: b' :: b'' :: (behind ++ c :: rest)) heap =
      .error .overflow ↔ 2 ≤ behind.length := by
  have hlen : literalLen
      (backslash :: letterU :: quote :: b :: b' :: b'' :: (behind ++ c :: rest)) = .ok 1 := by
    rw [literalLen_escape, literalLen_stop (Or.inl rfl)]
    rfl
  have hturns : behind.length <
      (letterU :: quote :: b :: b' :: b'' :: (behind ++ c :: rest)).length := by
    simp only [List.length_cons, List.length_append]
    omega
  have hcopy := copyLiteral_escape (escape_quote b b' b'' (behind ++ c :: rest))
    (copyLiteral_append hbehind hc rest (Nat.lt_succ_of_lt hturns))
  have hmalloc : cJsonMalloc mem heap =
      (some heap.ledger.issued, ⟨heap.asked + 1, heap.ledger.issue⟩) := by
    rw [cJsonMalloc, if_pos hmem]
  simp only [parseString, ne_eq, not_true_eq_false, if_false, hlen, bind, Except.bind, hmalloc]
  rw [List.length_cons, hcopy]
  by_cases hfits : behind.length < 1 + 1
  · simp only [writeText, List.nil_append, hfits, if_true, reduceCtorEq, false_iff]
    omega
  · simp only [writeText, List.nil_append, hfits, if_false, true_iff]
    omega

/-- A literal of two bytes in memory, which is written over seven. -/
theorem parseString_overflow_iff_letters :
    (∀ b ∈ ([100, 101, 102] : List UInt8), Unescaped b) ∧
      (fun _ : ℕ => true) JsonHeap.start.asked = true ∧
      (parseString (fun _ => true) (JsonItem.fresh exactDoubles 0)
          (quote :: backslash :: letterU :: quote :: 97 :: 98 :: 99 ::
            ([100, 101, 102] ++ quote :: [0])) .start =
        .error .overflow ↔ 2 ≤ ([100, 101, 102] : List UInt8).length) := by
  have hletters : ∀ b ∈ ([100, 101, 102] : List UInt8), Unescaped b := by
    simp [Unescaped, quote, backslash]
  exact ⟨hletters, rfl,
    @parseString_overflow_iff ℚ (fun _ => true) .start _ 97 98 99 quote _ [0] hletters
      (Or.inl rfl) rfl⟩

/-! ### Printing a literal -/

theorem hexDigit?_lowerHex : ∀ d < 16, hexDigit? (lowerHex d) = some d := by
  decide

/-- The bytes that are counted for a byte of the text are those that are written. -/
theorem length_escapeToken (token : UInt8) : (escapeToken token).length = tokenLen token := by
  have hbytes : ∀ n < 256, (escapeToken (UInt8.ofNat n)).length = tokenLen (UInt8.ofNat n) := by
    decide +kernel
  simpa using hbytes token.toNat token.toNat_lt

theorem length_quoted (text : CText) :
    (quoted text).length = (text.map tokenLen).sum + 2 := by
  have hlen : (fun token => (escapeToken token).length) = tokenLen := funext length_escapeToken
  simp [quoted, List.length_flatMap, hlen]

/-- A byte in front of the space is written with four digits. -/
theorem spellsUnit_token {token : UInt8} (h : token < 32) :
    SpellsUnit [48, 48, lowerHex (token.toNat / 16), lowerHex (token.toNat % 16)]
      token.toNat := by
  have hlt : token.toNat < 32 := h
  have hzero : hexDigit? 48 = some 0 := by decide
  refine ⟨rfl, [0, 0, token.toNat / 16, token.toNat % 16], ?_, ?_⟩
  · simp [Digits, hzero, hexDigit?_lowerHex (token.toNat / 16) (by omega),
      hexDigit?_lowerHex (token.toNat % 16) (by omega)]
  · simp only [List.foldl_cons, List.foldl_nil]
    omega

/-- **What is written for a byte stands for it.** -/
theorem StandsFor.escapeToken {token : UInt8} (htoken : token ≠ 0) {lit : List UInt8}
    {text : CText} (h : StandsFor lit text) :
    StandsFor (escapeToken token ++ lit) (token :: text) := by
  unfold Wsn.escapeToken
  split
  · rename_i hbyte
    exact .byte ⟨htoken, hbyte.2.1, hbyte.2.2⟩ h
  · rename_i hbyte
    repeat' split
    · rename_i heq
      subst heq
      exact .short (c := backslash) (by decide) (by decide) h
    · rename_i heq
      subst heq
      exact .short (c := quote) (by decide) (by decide) h
    · rename_i heq
      subst heq
      exact .short (c := 98) (by decide) (by decide) h
    · rename_i heq
      subst heq
      exact .short (c := 102) (by decide) (by decide) h
    · rename_i heq
      subst heq
      exact .short (c := 110) (by decide) (by decide) h
    · rename_i heq
      subst heq
      exact .short (c := 114) (by decide) (by decide) h
    · rename_i heq
      subst heq
      exact .short (c := 116) (by decide) (by decide) h
    · rename_i hback hquote _ _ _ _ _
      have hlt : token < 32 := by
        by_contra hge
        exact hbyte ⟨by rw [UInt8.not_lt] at hge; exact UInt8.lt_of_lt_of_le (by decide) hge,
          hquote, hback⟩
      have hbound : token.toNat < 32 := hlt
      have hch : (Char.ofNat token.toNat).toNat = token.toNat := by
        rw [Char.toNat_ofNat, if_pos (Or.inl (by omega))]
      have hbytes : String.utf8EncodeChar (Char.ofNat token.toNat) = [token] := by
        rw [← utf8_char, hch, utf8_one (by omega), UInt8.ofNat_toNat]
      have hspells : SpellsChar (backslash :: letterU ::
          [48, 48, lowerHex (token.toNat / 16), lowerHex (token.toNat % 16)])
          (Char.ofNat token.toNat) := .unit (hch.symm ▸ spellsUnit_token hlt)
      have hne : (Char.ofNat token.toNat).toNat ≠ 0 := by
        rw [hch]
        exact fun hzero => htoken (UInt8.toNat_inj.1 hzero)
      have hstands := StandsFor.char hne hspells h
      rwa [hbytes] at hstands

/-- **What is printed for a text is a literal that stands for it.** -/
theorem standsFor_flatMap {text : CText} (h : 0 ∉ text) :
    StandsFor (text.flatMap escapeToken) text := by
  induction text with
  | nil => exact .nil
  | cons token text ih =>
      simp only [List.mem_cons, not_or] at h
      exact (ih h.2).escapeToken (Ne.symm h.1)

theorem SpellsChar.nonzero {spelled : List UInt8} {ch : Char} (h : SpellsChar spelled ch) :
    0 ∉ spelled := by
  have hback : (0 : UInt8) ≠ backslash := by decide
  have hletter : (0 : UInt8) ≠ letterU := by decide
  have hunit : ∀ {text : List UInt8} {n : ℕ}, SpellsUnit text n → 0 ∉ text :=
    fun hspells hzero => (hspells.unescaped 0 hzero).1 rfl
  cases h with
  | unit htext => simp [hback, hletter, hunit htext]
  | pair hfirst hsecond => simp [hback, hletter, hunit hfirst, hunit hsecond]

theorem StandsFor.lit_nonzero {lit : List UInt8} {text : CText} (h : StandsFor lit text) :
    0 ∉ lit := by
  have hback : (0 : UInt8) ≠ backslash := by decide
  induction h with
  | nil => exact List.not_mem_nil
  | byte hc _ ih => simp [hc.1.symm, ih]
  | short hc _ _ ih => simp [hback, hc.symm, ih]
  | char _ hspells _ ih => simp [hspells.nonzero, ih]

theorem zero_notMem_quoted {text : CText} (h : 0 ∉ text) : 0 ∉ quoted text := by
  have hlit := (standsFor_flatMap h).lit_nonzero
  have hzero : (0 : UInt8) ≠ quote := by decide
  simp [quoted, hzero, hlit]

/-- The text that `print_string_ptr` makes. -/
def stringText (str : Option TextBlock) : CText :=
  match str with
  | none => []
  | some str => quoted str.text

/-- **A text was printed** on the way from one memory to another: its block is there, unless a call
of `malloc` has failed. -/
structure Printed (mem : ℕ → Bool) (heap : JsonHeap) (text : CText) (out : Option TextBlock)
    (heap' : JsonHeap) : Prop where
  le : heap ≤ heap'
  text : ∀ block, out = some block → block.text = text
  none : out = none → MallocFailed mem heap heap'

/-- It was printed on a longer way, too. -/
theorem Printed.mono {text : CText} {out : Option TextBlock} {heap₀ heap' heap₁ : JsonHeap}
    (h : Printed mem heap text out heap') (hbefore : heap₀ ≤ heap) (hbehind : heap' ≤ heap₁) :
    Printed mem heap₀ text out heap₁ where
  le := hbefore.trans (h.le.trans hbehind)
  text := h.text
  none hout := (h.none hout).mono hbefore hbehind

theorem printed_none {text : CText} {heap' : JsonHeap} (h : MallocFailed mem heap heap') :
    Printed mem heap text none heap' :=
  ⟨h.le, by simp, fun _ => h⟩

theorem printed_of {text : CText} (h : 0 ∉ text) (addr : ℕ) {heap' : JsonHeap}
    (hle : heap ≤ heap') : Printed mem heap text (some (.of addr text)) heap' := by
  refine ⟨hle, ?_, by simp⟩
  rintro _ ⟨⟩
  exact textOf_eq_self h

/-- A text is copied. -/
theorem cJsonStrdup_printed (mem : ℕ → Bool) {str : CText} (hstr : 0 ∉ str)
    (hheld : heap.Holds held) :
    ∃ out heap', cJsonStrdup mem str heap = (out, heap') ∧ heap'.Holds (textBlocks out ++ held) ∧
      Printed mem heap str out heap' := by
  rcases cJsonStrdup_spec mem str hheld with ⟨heap', hcall, hheld', hfail⟩ |
    ⟨addr, heap', hcall, hheld', hle⟩
  · exact ⟨none, heap', hcall, hheld', printed_none hfail⟩
  · exact ⟨_, heap', hcall, hheld', printed_of hstr addr hle⟩

/-- **`print_string_ptr` fills its block exactly**, with the literal of the text. -/
theorem printStringPtr_spec (mem : ℕ → Bool) (str : Option TextBlock) (hheld : heap.Holds held) :
    ∃ out heap', printStringPtr mem str heap = .ok (out, heap') ∧
      heap'.Holds (textBlocks out ++ held) ∧ Printed mem heap (stringText str) out heap' := by
  cases str with
  | none =>
      obtain ⟨out, heap', hcall, hholds, hprinted⟩ :=
        cJsonStrdup_printed mem List.not_mem_nil hheld
      exact ⟨out, heap', by rw [printStringPtr, hcall], hholds, hprinted⟩
  | some str =>
      rcases cJsonMalloc_spec mem hheld with ⟨heap', hcall, hheld', hfail⟩ |
        ⟨addr, heap', hcall, hheld', hle⟩
      · exact ⟨none, heap', by simp [printStringPtr, hcall], hheld', printed_none hfail⟩
      · refine ⟨some (.of addr (quoted str.text)), heap', ?_, hheld',
          printed_of (zero_notMem_quoted str.nonzero) addr hle⟩
        have hfits : (quoted str.text).length < (str.text.map tokenLen).sum + 3 := by
          rw [length_quoted]
          omega
        simp only [printStringPtr, hcall, writeText, hfits, if_true, bind, Except.bind]

end Wsn
