/-
**The parser of cJSON.**

`parse_value` looks at the first character and hands the text to one of the other parsers, and
those of arrays and objects come back to it.  An item that a parser has asked for is linked into
the tree before anything can go wrong behind it, so that `cJSON_ParseWithOpts` can delete what there
is when it fails.

Main definitions:

* `skip`, `startsWith`, `parseNumber` — the loops over the text; the exponent of a number is an
  `int`, and no outcome is promised if it is too large for one;
* `parseChain`, `parseArray`, `parseObject`, `parseValue` — the parsers;
* `cJsonParseWithOpts`, `cJsonParse` — the entry points.

Main results:

* `parseValue_safe` — **a parser stays inside a readable text**, and owns what it has asked for;
* `cJsonParseWithOpts_left`, `cJsonParse_owns` — a parse that fails leaves nothing behind, and one
  that succeeds a tree that stands for a value and can be deleted.
-/

import WsnPlatform.JsonString

set_option relaxedAutoImplicit false
set_option autoImplicit false

namespace Wsn

/-! ### The loops over the text -/

/-- The character that a pointer leads to. -/
def charAt (ptr : List UInt8) : Except JsonFault UInt8 :=
  match ptr with
  | [] => .error .overread
  | c :: _ => .ok c

/-- **`skip`**: blanks and what is below them are left out. -/
def skip : List UInt8 → Except JsonFault (List UInt8)
  | [] => .error .overread
  | c :: ptr => if c ≠ 0 ∧ c ≤ 32 then skip ptr else .ok (c :: ptr)

/-- `strncmp` finds the word in front of the text. -/
def startsWith : CText → List UInt8 → Except JsonFault Bool
  | [], _ => .ok true
  | _ :: _, [] => .error .overread
  | c :: word, d :: value => if c = d then startsWith word value else .ok false

/-- A loop over digits: what it has made of them, how many there were, and what is behind. -/
def digitLoop {α : Type} (f : α → ℕ → α) : α → ℕ → List UInt8 →
    Except JsonFault (α × ℕ × List UInt8)
  | _, _, [] => .error .overread
  | n, count, c :: num =>
      if isDigit c = true then digitLoop f (f n (c.toNat - 48)) (count + 1) num
      else .ok (n, count, c :: num)

variable {D : Type}

/-- The sign of a number. -/
def numberSign (num : List UInt8) : Except JsonFault (Bool × List UInt8) := do
  let c ← charAt num
  .ok (if c = 45 then (true, num.tail) else (false, num))

/-- The digits in front of the point. -/
def numberWhole (A : Doubles D) (num : List UInt8) : Except JsonFault (D × List UInt8) := do
  let c ← charAt num
  let num := if c = 48 then num.tail else num
  let c ← charAt num
  if 49 ≤ c ∧ c ≤ 57 then do
    let (n, _, num) ← digitLoop A.digit A.zero 0 num
    .ok (n, num)
  else .ok (A.zero, num)

/-- The digits behind the point, and how many they are. -/
def numberFraction (A : Doubles D) (n : D) (num : List UInt8) :
    Except JsonFault (D × ℕ × List UInt8) := do
  let c ← charAt num
  if c = 46 then do
    let d ← charAt num.tail
    if isDigit d = true then digitLoop A.digit n 0 num.tail else .ok (n, 0, num)
  else .ok (n, 0, num)

/-- The sign of the exponent. -/
def exponentSign (num : List UInt8) : Except JsonFault (ℤ × List UInt8) := do
  let c ← charAt num
  .ok (if c = 43 then (1, num.tail) else if c = 45 then (-1, num.tail) else (1, num))

/-- The loop over the digits of the exponent, which is an `int`. -/
def subscaleLoop : ℕ → List UInt8 → Except JsonFault (ℕ × List UInt8)
  | _, [] => .error .overread
  | subscale, c :: num =>
      if isDigit c = true then
        if subscale * 10 + (c.toNat - 48) < 2 ^ 31 then
          subscaleLoop (subscale * 10 + (c.toNat - 48)) num
        else .error .intOverflow
      else .ok (subscale, c :: num)

/-- The exponent. -/
def numberExponent (num : List UInt8) : Except JsonFault (ℤ × List UInt8) := do
  let c ← charAt num
  if c = 101 ∨ c = 69 then do
    let (signsubscale, num) ← exponentSign num.tail
    let (subscale, num) ← subscaleLoop 0 num
    .ok (signsubscale * subscale, num)
  else .ok (0, num)

/-- The item that a number is read into. -/
def JsonItem.setNumber (item : JsonItem D) (A : Doubles D) (n : D) : JsonItem D :=
  { item with valuedouble := n, valueint := A.toInt n, type := .number }

/-- **`parse_number`**. -/
def parseNumber (A : Doubles D) (item : JsonItem D) (num : List UInt8) :
    Except JsonFault (JsonItem D × List UInt8) := do
  let (sign, num) ← numberSign num
  let (n, num) ← numberWhole A num
  let (n, scale, num) ← numberFraction A n num
  let (subscale, num) ← numberExponent num
  .ok (item.setNumber A (A.scaled sign n (subscale - scale)), num)

/-! ### The parsers -/

/-- What a parser does with an item and a text: the item, where the reading goes on unless it is
`NULL`, and the memory. -/
abbrev ItemParser (D : Type) : Type :=
  JsonItem D → List UInt8 → JsonHeap →
    Except JsonFault (JsonItem D × Option (List UInt8) × JsonHeap)

/-- The loop over the children of a container, each of which is read by `one`: the chain of them,
where the reading goes on, and the memory. -/
def parseChain (A : Doubles D) (mem : ℕ → Bool) (one : ItemParser D) (closing : UInt8) :
    ℕ → JsonItem D → List UInt8 → JsonHeap →
      Except JsonFault (List (JsonItem D) × Option (List UInt8) × JsonHeap)
  | 0, _, _, _ => .error .stuck
  | turns + 1, child, value, heap => do
      let value ← skip value
      let (child, rest, heap) ← one child value heap
      match rest with
      | none => .ok ([child], none, heap)
      | some rest => do
          let value ← skip rest
          let c ← charAt value
          if c = 44 then
            match cJsonNewItem A mem heap with
            | (none, heap) => .ok ([child], none, heap)
            | (some newItem, heap) => do
                let (chain, rest, heap) ← parseChain A mem one closing turns newItem value.tail heap
                .ok (child :: chain, rest, heap)
          else if c = closing then .ok ([child], some value.tail, heap)
          else .ok ([child], none, heap)

/-- What the parsers of arrays and objects have in common. -/
def parseContainer (A : Doubles D) (mem : ℕ → Bool) (one : ItemParser D) (opening closing : UInt8)
    (type : JsonType) : ItemParser D := fun item value heap => do
  let c ← charAt value
  if c ≠ opening then .ok (item, none, heap)
  else do
    let item := { item with type := type }
    let value ← skip value.tail
    let c ← charAt value
    if c = closing then .ok (item, some value.tail, heap)
    else
      match cJsonNewItem A mem heap with
      | (none, heap) => .ok (item, none, heap)
      | (some child, heap) => do
          let (chain, rest, heap) ← parseChain A mem one closing value.length child value heap
          .ok ({ item with child := chain }, rest, heap)

/-- **`parse_array`**; `one` is `parse_value`. -/
def parseArray (A : Doubles D) (mem : ℕ → Bool) (one : ItemParser D) : ItemParser D :=
  parseContainer A mem one 91 93 .array

/-- The text of an item becomes its name. -/
def JsonItem.nameFromString (item : JsonItem D) : JsonItem D :=
  { item with string := item.valuestring, valuestring := none }

/-- A member of an object: its name, and its value behind the colon. -/
def parseMember (mem : ℕ → Bool) (one : ItemParser D) : ItemParser D := fun child value heap => do
  let (child, rest, heap) ← parseString mem child value heap
  match rest with
  | none => .ok (child, none, heap)
  | some rest => do
      let value ← skip rest
      let child := child.nameFromString
      let c ← charAt value
      if c ≠ 58 then .ok (child, none, heap)
      else do
        let value ← skip value.tail
        one child value heap

/-- **`parse_object`**; `one` is `parse_value`. -/
def parseObject (A : Doubles D) (mem : ℕ → Bool) (one : ItemParser D) : ItemParser D :=
  parseContainer A mem (parseMember mem one) 123 125 .object

/-- **`parse_value`**. -/
def parseValue (A : Doubles D) (mem : ℕ → Bool) : ℕ → ItemParser D
  | 0 => fun _ _ _ => .error .stuck
  | depth + 1 => fun item value heap => do
      let isNull ← startsWith (literal "null") value
      if isNull = true then .ok ({ item with type := .null }, some (value.drop 4), heap)
      else do
        let isFalse ← startsWith (literal "false") value
        if isFalse = true then .ok ({ item with type := .false }, some (value.drop 5), heap)
        else do
          let isTrue ← startsWith (literal "true") value
          if isTrue = true then
            .ok ({ item with type := .true, valueint := 1 }, some (value.drop 4), heap)
          else do
            let c ← charAt value
            if c = quote then parseString mem item value heap
            else if c = 45 ∨ isDigit c = true then do
              let (item, num) ← parseNumber A item value
              .ok (item, some num, heap)
            else if c = 91 then parseArray A mem (parseValue A mem depth) item value heap
            else if c = 123 then parseObject A mem (parseValue A mem depth) item value heap
            else .ok (item, none, heap)

/-- **`cJSON_ParseWithOpts`**: the tree and the pointer behind it, unless it returns `NULL`. -/
def cJsonParseWithOpts (A : Doubles D) (mem : ℕ → Bool) (value : Option (List UInt8))
    (requireNullTerminated : Bool) (heap : JsonHeap) :
    Except JsonFault (Option (JsonItem D × List UInt8) × JsonHeap) :=
  match cJsonNewItem A mem heap with
  | (none, heap) => .ok (none, heap)
  | (some c, heap) =>
      match value with
      | none => .ok (none, cJsonDelete [c] heap)
      | some value => do
          let value ← skip value
          let (c, parsed, heap) ← parseValue A mem (value.length + 1) c value heap
          match parsed with
          | none => .ok (none, cJsonDelete [c] heap)
          | some parsed =>
              if requireNullTerminated = true then do
                let parsed ← skip parsed
                let d ← charAt parsed
                if d ≠ 0 then .ok (none, cJsonDelete [c] heap) else .ok (some (c, parsed), heap)
              else .ok (some (c, parsed), heap)

/-- **`cJSON_Parse`**. -/
def cJsonParse (A : Doubles D) (mem : ℕ → Bool) (value : Option (List UInt8)) (heap : JsonHeap) :
    Except JsonFault (Option (JsonItem D × List UInt8) × JsonHeap) :=
  cJsonParseWithOpts A mem value false heap

/-! ### The loops on a readable text -/

theorem Readable.exists_cons {ptr : List UInt8} (h : Readable ptr) : ∃ c tail, ptr = c :: tail :=
  List.exists_cons_of_ne_nil h.ne_nil

/-- A word is left out in front of a readable text. -/
theorem Readable.behind {word ptr : List UInt8} (hzero : 0 ∉ word) (hback : backslash ∉ word)
    (h : Readable (word ++ ptr)) : Readable ptr := by
  induction word with
  | nil => exact h
  | cons c word ih =>
      simp only [List.mem_cons, not_or] at hzero hback
      exact ih hzero.2 hback.2 (h.tail (Ne.symm hzero.1) (Ne.symm hback.1))

theorem backslash_toNat : backslash.toNat = 92 := rfl

theorem skip_readable {ptr : List UInt8} (h : Readable ptr) :
    ∃ q, skip ptr = .ok q ∧ Readable q ∧ q.length ≤ ptr.length := by
  induction ptr with
  | nil => exact absurd rfl h.ne_nil
  | cons c ptr ih =>
      by_cases hc : c ≠ 0 ∧ c ≤ 32
      · have hback : c ≠ backslash := by
          rintro rfl
          exact absurd hc.2 (by decide)
        obtain ⟨q, hq, hread, hle⟩ := ih (h.tail hc.1 hback)
        exact ⟨q, by rw [skip, if_pos hc, hq], hread, Nat.le_succ_of_le hle⟩
      · exact ⟨c :: ptr, by rw [skip, if_neg hc], h, le_rfl⟩

theorem startsWith_readable {word : CText} (hzero : 0 ∉ word) (hback : backslash ∉ word)
    {ptr : List UInt8} (h : Readable ptr) :
    ∃ b, startsWith word ptr = .ok b ∧
      (b = true → Readable (ptr.drop word.length) ∧ ptr = word ++ ptr.drop word.length) := by
  induction word generalizing ptr with
  | nil => exact ⟨true, rfl, fun _ => ⟨h, rfl⟩⟩
  | cons c word ih =>
      simp only [List.mem_cons, not_or] at hzero hback
      obtain ⟨d, tail, rfl⟩ := h.exists_cons
      by_cases hc : c = d
      · subst hc
        obtain ⟨b, hb, hrest⟩ := ih hzero.2 hback.2
          (h.tail (Ne.symm hzero.1) (Ne.symm hback.1))
        refine ⟨b, by rw [startsWith, if_pos rfl, hb], fun htrue => ?_⟩
        obtain ⟨hread, heq⟩ := hrest htrue
        exact ⟨hread, by rw [List.cons_append, List.length_cons, List.drop_succ_cons, ← heq]⟩
      · exact ⟨false, by rw [startsWith, if_neg hc], by simp⟩

/-- Behind a digit the text is readable. -/
theorem Readable.digit {c : UInt8} {ptr : List UInt8} (h : Readable (c :: ptr))
    (hc : isDigit c = true) : Readable ptr := by
  have hrange := isDigit_iff.1 hc
  refine h.tail ?_ ?_
  · rintro rfl
    simp at hrange
  · rintro rfl
    rw [backslash_toNat] at hrange
    omega

section DigitLoop

variable {α : Type} (f : α → ℕ → α)

theorem digitLoop_readable {num : List UInt8} (h : Readable num) (n : α) (count : ℕ) :
    ∃ n' count' q, digitLoop f n count num = .ok (n', count', q) ∧ Readable q ∧
      q.length ≤ num.length := by
  induction num generalizing n count with
  | nil => exact absurd rfl h.ne_nil
  | cons c num ih =>
      by_cases hc : isDigit c = true
      · obtain ⟨n', count', q, hloop, hread, hle⟩ :=
          ih (h.digit hc) (f n (c.toNat - 48)) (count + 1)
        exact ⟨n', count', q, by rw [digitLoop, if_pos hc, hloop], hread, Nat.le_succ_of_le hle⟩
      · exact ⟨n, count, c :: num, by rw [digitLoop, if_neg hc], h, le_rfl⟩

/-- Where a digit stands in front, the loop goes on behind it. -/
theorem digitLoop_readable_digit {c : UInt8} {num : List UInt8} (h : Readable (c :: num))
    (hc : isDigit c = true) (n : α) (count : ℕ) :
    ∃ n' count' q, digitLoop f n count (c :: num) = .ok (n', count', q) ∧ Readable q ∧
      q.length ≤ num.length := by
  obtain ⟨n', count', q, hloop, hread, hle⟩ :=
    digitLoop_readable f (h.digit hc) (f n (c.toNat - 48)) (count + 1)
  exact ⟨n', count', q, by rw [digitLoop, if_pos hc, hloop], hread, hle⟩

end DigitLoop

theorem numberWhole_readable (A : Doubles D) {num : List UInt8} (h : Readable num) :
    ∃ n q, numberWhole A num = .ok (n, q) ∧ Readable q ∧ q.length ≤ num.length ∧
      (∀ c tail, num = c :: tail → isDigit c = true → q.length < num.length) := by
  obtain ⟨c, tail, rfl⟩ := h.exists_cons
  by_cases hzero : c = 48
  · subst hzero
    have htail := h.digit (by decide)
    obtain ⟨d, tail', rfl⟩ := htail.exists_cons
    by_cases hd : 49 ≤ d ∧ d ≤ 57
    · obtain ⟨n, count, q, hloop, hread, hle⟩ := digitLoop_readable A.digit htail A.zero 0
      refine ⟨n, q, ?_, hread, Nat.le_succ_of_le hle, fun _ _ _ _ => Nat.lt_succ_of_le hle⟩
      simp [numberWhole, charAt, bind, Except.bind, hd, hloop]
    · refine ⟨A.zero, d :: tail', ?_, htail, by simp, by simp⟩
      simp [numberWhole, charAt, bind, Except.bind, hd]
  · by_cases hd : 49 ≤ c ∧ c ≤ 57
    · have hdigit : isDigit c = true := by
        simp only [isDigit, decide_eq_true_eq]
        exact ⟨UInt8.le_trans (by decide) hd.1, hd.2⟩
      obtain ⟨n, count, q, hloop, hread, hle⟩ := digitLoop_readable_digit A.digit h hdigit A.zero 0
      refine ⟨n, q, ?_, hread, Nat.le_succ_of_le hle, fun _ _ _ _ => Nat.lt_succ_of_le hle⟩
      simp [numberWhole, charAt, bind, Except.bind, hzero, hd, hloop]
    · refine ⟨A.zero, c :: tail, ?_, h, le_rfl, ?_⟩
      · simp [numberWhole, charAt, bind, Except.bind, hzero, hd]
      · rintro _ _ ⟨⟩ hdigit
        simp only [isDigit, decide_eq_true_eq] at hdigit
        refine absurd ⟨?_, hdigit.2⟩ hd
        have hne : c.toNat ≠ 48 := fun heq => hzero (UInt8.toNat_inj.1 heq)
        have hge : 48 ≤ c.toNat := hdigit.1
        show 49 ≤ c.toNat
        omega

theorem numberFraction_readable (A : Doubles D) (n : D) {num : List UInt8} (h : Readable num) :
    ∃ n' scale q, numberFraction A n num = .ok (n', scale, q) ∧ Readable q ∧
      q.length ≤ num.length := by
  obtain ⟨c, tail, rfl⟩ := h.exists_cons
  by_cases hpoint : c = 46
  · subst hpoint
    have htail := h.tail (by decide) (by decide)
    obtain ⟨d, tail', rfl⟩ := htail.exists_cons
    by_cases hd : isDigit d = true
    · obtain ⟨n', count, q, hloop, hread, hle⟩ := digitLoop_readable A.digit htail n 0
      refine ⟨n', count, q, ?_, hread, Nat.le_succ_of_le hle⟩
      simp [numberFraction, charAt, bind, Except.bind, hd, hloop]
    · exact ⟨n, 0, 46 :: d :: tail', by simp [numberFraction, charAt, bind, Except.bind, hd], h,
        le_rfl⟩
  · exact ⟨n, 0, c :: tail, by simp [numberFraction, charAt, bind, Except.bind, hpoint], h, le_rfl⟩

/-- The sign is left out in front of the digits. -/
theorem exponentSign_readable {num : List UInt8} (h : Readable num) :
    ∃ sign q, exponentSign num = .ok (sign, q) ∧ Readable q ∧ q.length ≤ num.length ∧
      exponentOf num = decimal (q.takeWhile isDigit) := by
  obtain ⟨c, tail, rfl⟩ := h.exists_cons
  by_cases hplus : c = 43
  · subst hplus
    exact ⟨1, tail, rfl, h.tail (by decide) (by decide), Nat.le_succ _, rfl⟩
  · by_cases hminus : c = 45
    · subst hminus
      exact ⟨-1, tail, rfl, h.tail (by decide) (by decide), Nat.le_succ _, rfl⟩
    · refine ⟨1, c :: tail, ?_, h, le_rfl, ?_⟩
      · simp [exponentSign, charAt, bind, Except.bind, hplus, hminus]
      · simp [exponentOf, hplus, hminus]

/-- Digits behind a number do not make it less. -/
theorem le_foldl_decimal (ds : List UInt8) (n : ℕ) :
    n ≤ ds.foldl (fun n c => 10 * n + (c.toNat - 48)) n := by
  induction ds generalizing n with
  | nil => exact le_rfl
  | cons c ds ih =>
      rw [List.foldl_cons]
      exact le_trans (by omega) (ih _)

/-- **The exponent is an `int` on the way**, if it is one at the end. -/
theorem subscaleLoop_readable {num : List UInt8} (h : Readable num) (n : ℕ)
    (hfits : (num.takeWhile isDigit).foldl (fun n c => 10 * n + (c.toNat - 48)) n < 2 ^ 31) :
    ∃ n' q, subscaleLoop n num = .ok (n', q) ∧ Readable q ∧ q.length ≤ num.length := by
  induction num generalizing n with
  | nil => exact absurd rfl h.ne_nil
  | cons c num ih =>
      by_cases hc : isDigit c = true
      · rw [List.takeWhile_cons, if_pos hc, List.foldl_cons] at hfits
        -- what the digits up to here make is at most what all of them make
        have hle := le_foldl_decimal (num.takeWhile isDigit) (10 * n + (c.toNat - 48))
        have hstep : n * 10 + (c.toNat - 48) < 2 ^ 31 := by omega
        obtain ⟨n', q, hloop, hread, hlen⟩ :=
          ih (h.digit hc) (n * 10 + (c.toNat - 48)) (by rwa [Nat.mul_comm n])
        exact ⟨n', q, by rw [subscaleLoop, if_pos hc, if_pos hstep, hloop], hread,
          Nat.le_succ_of_le hlen⟩
      · exact ⟨n, c :: num, by rw [subscaleLoop, if_neg hc], h, le_rfl⟩

theorem numberExponent_readable {num : List UInt8} (h : Readable num) :
    ∃ e q, numberExponent num = .ok (e, q) ∧ Readable q ∧ q.length ≤ num.length := by
  obtain ⟨c, tail, rfl⟩ := h.exists_cons
  by_cases he : c = 101 ∨ c = 69
  · have htail : Readable tail := by
      rcases he with rfl | rfl <;> exact h.tail (by decide) (by decide)
    have hfits := h.exponent he
    obtain ⟨sign, ptr, hsign, hptr, hle, hexp⟩ := exponentSign_readable htail
    rw [hexp, decimal] at hfits
    obtain ⟨n, q, hloop, hq, hle'⟩ := subscaleLoop_readable hptr 0 hfits
    refine ⟨sign * n, q, ?_, hq, Nat.le_succ_of_le (hle'.trans hle)⟩
    simp [numberExponent, charAt, bind, Except.bind, he, hsign, hloop]
  · exact ⟨0, c :: tail, by simp [numberExponent, charAt, bind, Except.bind, he], h, le_rfl⟩

/-- **`parse_number` on a readable text**: it goes on behind the number. -/
theorem parseNumber_readable (A : Doubles D) (item : JsonItem D) {c : UInt8} {num : List UInt8}
    (h : Readable (c :: num)) (hc : c = 45 ∨ isDigit c = true) :
    ∃ n q, parseNumber A item (c :: num) = .ok (item.setNumber A n, q) ∧ Readable q ∧
      q.length ≤ num.length := by
  have hwhole : ∃ sign ptr n q, numberSign (c :: num) = .ok (sign, ptr) ∧
      numberWhole A ptr = .ok (n, q) ∧ Readable q ∧ q.length ≤ num.length := by
    by_cases hsign : c = 45
    · subst hsign
      obtain ⟨n, q, hq, hread, hle, -⟩ := numberWhole_readable A (h.tail (by decide) (by decide))
      exact ⟨true, num, n, q, by simp [numberSign, charAt, bind, Except.bind], hq, hread, hle⟩
    · obtain ⟨n, q, hq, hread, -, hlt⟩ := numberWhole_readable A h
      have hdigit := hc.resolve_left hsign
      exact ⟨false, c :: num, n, q, by simp [numberSign, charAt, bind, Except.bind, hsign], hq,
        hread, Nat.le_of_lt_succ (hlt c num rfl hdigit)⟩
  obtain ⟨sign, ptr, n, q, hsign, hq, hread, hle⟩ := hwhole
  obtain ⟨n', scale, q', hq', hread', hle'⟩ := numberFraction_readable A n hread
  obtain ⟨e, q'', hq'', hread'', hle''⟩ := numberExponent_readable hread'
  refine ⟨A.scaled sign n' (e - scale), q'', ?_, hread'', by omega⟩
  simp [parseNumber, bind, Except.bind, hsign, hq, hq', hq'']

/-! ### The parsers on a readable text -/

/-- An item that nothing was read into. -/
def JsonItem.Fresh (item : JsonItem D) : Prop := item.valuestring = none ∧ item.child = []

/-- An item without a name, either. -/
def JsonItem.Unnamed (item : JsonItem D) : Prop := item.Fresh ∧ item.string = none

/-- **What a parser leaves behind**: it holds what the item owns; and where it does not return
`NULL` it goes on in a readable text, and the item is as it should be. -/
structure LeftSafe (ptr : List UInt8) (held owned : List ℕ) (rest : Option (List UInt8))
    (heap : JsonHeap) (whole : Prop) : Prop where
  holds : heap.Holds (owned ++ held)
  rest : ∀ q, rest = some q → (Readable q ∧ q.length < ptr.length) ∧ whole

/-- **A parser is safe** on items of a kind, and on readable texts of less than `n` bytes. -/
def SafeBelow (n : ℕ) (kind : JsonItem D → Prop) (R : JsonItem D → JsonItem D → Prop)
    (one : ItemParser D) : Prop :=
  ∀ (item : JsonItem D) (ptr : List UInt8) (heap : JsonHeap) (held : List ℕ), ptr.length < n →
    Readable ptr → kind item → heap.Holds (item.blocks ++ held) →
    ∃ item' rest heap', one item ptr heap = .ok (item', rest, heap') ∧
      LeftSafe ptr held item'.blocks rest heap' (R item item')

/-- The item stands for a value, and has kept its name. -/
def ValueWhole (item item' : JsonItem D) : Prop :=
  (∃ v, item'.value = some v) ∧ item'.string = item.string

/-- The item has a name, and stands for a value. -/
def MemberWhole (_ item' : JsonItem D) : Prop :=
  (∃ name, item'.string = some name) ∧ ∃ v, item'.value = some v

/-- The fields of an item, from which its blocks are read off. -/
def JsonItem.owners (item : JsonItem D) :
    ℕ × Option TextBlock × Option TextBlock × List (JsonItem D) :=
  (item.addr, item.valuestring, item.string, item.child)

theorem JsonItem.blocks_congr {item item' : JsonItem D} (h : item'.owners = item.owners) :
    item'.blocks = item.blocks := by
  simp only [JsonItem.owners, Prod.mk.injEq] at h
  obtain ⟨haddr, hvaluestring, hstring, hchild⟩ := h
  rw [JsonItem.blocks_eq, JsonItem.blocks_eq, haddr, hvaluestring, hstring, hchild]

theorem unnamed_fresh (A : Doubles D) (addr : ℕ) : (JsonItem.fresh A addr).Unnamed :=
  ⟨⟨rfl, rfl⟩, rfl⟩

theorem Readable.charAt {ptr : List UInt8} (h : Readable ptr) :
    ∃ c tail, ptr = c :: tail ∧ charAt ptr = .ok c := by
  obtain ⟨c, tail, rfl⟩ := h.exists_cons
  exact ⟨c, tail, rfl, rfl⟩

variable {A : Doubles D} (mem : ℕ → Bool) {n : ℕ} {one : ItemParser D}

section Chain

variable {kind : JsonItem D → Prop} {R : JsonItem D → JsonItem D → Prop}

/-- The children that were read. -/
def ChainWhole (R : JsonItem D → JsonItem D → Prop) (chain : List (JsonItem D)) : Prop :=
  ∀ child ∈ chain, ∃ item, R item child

/-- **The loop over the children is safe**, if reading one of them is.  By induction on the turns:
each turn goes on in a shorter text. -/
theorem parseChain_safe (hone : SafeBelow n kind R one)
    (hkind : ∀ addr, kind (JsonItem.fresh A addr)) {closing : UInt8} (hclosing : closing ≠ 0)
    (hback : closing ≠ backslash) :
    ∀ (turns : ℕ) (child : JsonItem D) {ptr : List UInt8} {heap : JsonHeap} {held : List ℕ},
      ptr.length ≤ turns → ptr.length < n → Readable ptr → kind child →
      heap.Holds (child.blocks ++ held) →
      ∃ chain rest heap', parseChain A mem one closing turns child ptr heap =
          .ok (chain, rest, heap') ∧
        LeftSafe ptr held (chainBlocks chain) rest heap' (ChainWhole R chain) := by
  intro turns
  induction turns with
  | zero =>
      intro child ptr heap held hle _ hptr
      exact absurd (List.eq_nil_of_length_eq_zero (Nat.le_zero.1 hle)) hptr.ne_nil
  | succ turns ih =>
      intro child ptr heap held hle hlt hptr hchild hheld
      obtain ⟨value, hskip, hvalue, hvalueLe⟩ := skip_readable hptr
      obtain ⟨child', rest, heap', hrun, hsafe⟩ :=
        hone child value heap held (hvalueLe.trans_lt hlt) hvalue hchild hheld
      cases rest with
      | none =>
          -- the child stays in the chain as it is, and is deleted with the tree
          refine ⟨[child'], none, heap', ?_, by simpa using hsafe.holds, by simp⟩
          simp only [parseChain, hskip, bind, Except.bind, hrun]
      | some rest =>
          obtain ⟨⟨hrest, hrestLt⟩, hread⟩ := hsafe.rest rest rfl
          obtain ⟨value', hskip', hvalue', hvalueLe'⟩ := skip_readable hrest
          obtain ⟨c, tail, rfl, hchar⟩ := hvalue'.charAt
          simp only [List.length_cons] at hvalueLe'
          by_cases hcomma : c = 44
          · subst hcomma
            have htail := hvalue'.tail (by decide) (by decide)
            rcases cJsonNewItem_spec A mem hsafe.holds with ⟨heap'', hcall, hheld', -⟩ |
              ⟨addr, heap'', hcall, hheld', -⟩
            · refine ⟨[child'], none, heap'', ?_, by simpa using hheld', by simp⟩
              simp only [parseChain, hskip, bind, Except.bind, hrun, hskip', hchar, if_true, hcall]
            -- the new item is in the chain before anything is read into it
            · obtain ⟨chain, rest', heap₃, hchain, hchainSafe⟩ :=
                ih (.fresh A addr) (by omega) (by omega) htail (hkind addr) hheld'
              refine ⟨child' :: chain, rest', heap₃, ?_, ?_, fun q hq => ?_⟩
              · simp only [parseChain, hskip, bind, Except.bind, hrun, hskip', hchar, if_true,
                  hcall, List.tail_cons, hchain]
              · refine hchainSafe.holds.perm ?_
                rw [chainBlocks_cons, ← List.append_assoc]
                exact List.perm_append_comm.append_right held
              · obtain ⟨⟨hq', hqLt⟩, hall⟩ := hchainSafe.rest q hq
                exact ⟨⟨hq', by omega⟩, List.forall_mem_cons.2 ⟨⟨child, hread⟩, hall⟩⟩
          · by_cases hclose : c = closing
            · subst hclose
              have htail := hvalue'.tail hclosing hback
              refine ⟨[child'], some tail, heap', ?_, by simpa using hsafe.holds, ?_⟩
              · simp only [parseChain, hskip, bind, Except.bind, hrun, hskip', hchar, hcomma,
                  if_false, if_true, List.tail_cons]
              · rintro _ ⟨⟩
                exact ⟨⟨htail, by omega⟩, List.forall_mem_singleton.2 ⟨child, hread⟩⟩
            · refine ⟨[child'], none, heap', ?_, by simpa using hsafe.holds, by simp⟩
              simp only [parseChain, hskip, bind, Except.bind, hrun, hskip', hchar, hcomma,
                hclose, if_false]

/-- **A container is read safely**, if its children are. -/
theorem parseContainer_safe (hone : SafeBelow n kind R one)
    (hkind : ∀ addr, kind (JsonItem.fresh A addr)) {opening closing : UInt8} {type : JsonType}
    (hopening : opening ≠ 0 ∧ opening ≠ backslash) (hclosing : closing ≠ 0 ∧ closing ≠ backslash)
    (htype : ∀ (item : JsonItem D) chain, ChainWhole R chain →
      ∃ v, ({ item with type := type, child := chain } : JsonItem D).value = some v) :
    SafeBelow (n + 1) JsonItem.Fresh ValueWhole
      (parseContainer A mem one opening closing type) := by
  intro item ptr heap held hlt hptr hitem hheld
  obtain ⟨c, tail, rfl, hchar⟩ := hptr.charAt
  simp only [List.length_cons] at hlt
  have htyped : ({ item with type := type } : JsonItem D).blocks = item.blocks :=
    JsonItem.blocks_congr rfl
  by_cases hopen : c = opening
  · subst hopen
    obtain ⟨value, hskip, hvalue, hle⟩ := skip_readable (hptr.tail hopening.1 hopening.2)
    obtain ⟨d, tail', rfl, hchar'⟩ := hvalue.charAt
    by_cases hclose : d = closing
    · subst hclose
      refine ⟨{ item with type := type }, some tail', heap, ?_, htyped ▸ hheld, ?_⟩
      · simp only [parseContainer, hchar, bind, Except.bind, ne_eq, not_true_eq_false, if_false,
          List.tail_cons, hskip, hchar', if_true]
      · rintro _ ⟨⟩
        have hempty : ({ item with type := type } : JsonItem D) =
            { item with type := type, child := [] } := by rw [← hitem.2]
        simp only [List.length_cons] at hle ⊢
        refine ⟨⟨hvalue.tail hclosing.1 hclosing.2, by omega⟩, ?_, rfl⟩
        rw [hempty]
        exact htype item [] (by simp [ChainWhole])
    · rcases cJsonNewItem_spec A mem hheld with ⟨heap', hcall, hheld', -⟩ |
        ⟨addr, heap', hcall, hheld', -⟩
      · refine ⟨{ item with type := type }, none, heap', ?_, htyped ▸ hheld', by simp⟩
        simp only [parseContainer, hchar, bind, Except.bind, ne_eq, not_true_eq_false, if_false,
          List.tail_cons, hskip, hchar', hclose, hcall]
      · obtain ⟨chain, rest, heap'', hrun, hsafe⟩ :=
          parseChain_safe mem hone hkind hclosing.1 hclosing.2 _ (.fresh A addr) le_rfl
            (hle.trans_lt (by omega)) hvalue (hkind addr) hheld'
        refine ⟨{ item with type := type, child := chain }, rest, heap'', ?_, ?_, fun q hq => ?_⟩
        · simp only [parseContainer, hchar, bind, Except.bind, ne_eq, not_true_eq_false, if_false,
            List.tail_cons, hskip, hchar', hclose, hcall, hrun]
        · refine hsafe.holds.perm ?_
          simp only [JsonItem.blocks_eq, hitem.2, chainBlocks_nil, List.nil_append,
            List.append_assoc]
          exact List.Perm.refl _
        · obtain ⟨⟨hq', hqLt⟩, hall⟩ := hsafe.rest q hq
          simp only [List.length_cons] at hle hqLt ⊢
          exact ⟨⟨hq', by omega⟩, htype item chain hall, rfl⟩
  · refine ⟨item, none, heap, ?_, hheld, by simp⟩
    simp only [parseContainer, hchar, bind, Except.bind, ne_eq, hopen, not_false_eq_true, if_true]

end Chain

theorem parseMember_safe (hone : SafeBelow n JsonItem.Fresh ValueWhole one) :
    SafeBelow n JsonItem.Unnamed MemberWhole (parseMember mem one) := by
  intro child ptr heap held hlt hptr hchild hheld
  obtain ⟨child', rest, heap', hrun, hheld', hcases⟩ := parseString_spec mem hptr hchild.1.1 hheld
  rcases hcases with ⟨rfl, rfl⟩ | ⟨q, addr, text, rfl, rfl, hq, hqLt⟩
  · refine ⟨child', none, heap', ?_, hheld', by simp⟩
    simp only [parseMember, hrun, bind, Except.bind]
  · obtain ⟨value, hskip, hvalue, hle⟩ := skip_readable hq
    obtain ⟨c, tail, rfl, hchar⟩ := hvalue.charAt
    have hblocks : (child.setString addr text).nameFromString.blocks =
        (child.setString addr text).blocks := by
      simp [JsonItem.blocks_eq, JsonItem.nameFromString, JsonItem.setString, hchild.2]
    have hnamed : heap'.Holds ((child.setString addr text).nameFromString.blocks ++ held) := by
      rwa [hblocks]
    by_cases hcolon : c = 58
    · subst hcolon
      obtain ⟨value', hskip', hvalue', hle'⟩ :=
        skip_readable (hvalue.tail (by decide) (by decide))
      simp only [List.length_cons] at hle
      have hfresh : (child.setString addr text).nameFromString.Fresh := ⟨rfl, hchild.1.2⟩
      obtain ⟨item, rest, heap'', hrun', hsafe⟩ :=
        hone _ value' heap' held (by omega) hvalue' hfresh hnamed
      refine ⟨item, rest, heap'', ?_, hsafe.holds, fun q hq => ?_⟩
      · simp only [parseMember, hrun, bind, Except.bind, hskip, hchar, ne_eq, not_true_eq_false,
          if_false, List.tail_cons, hskip', hrun']
      · obtain ⟨⟨hread, hltq⟩, hval, hname⟩ := hsafe.rest q hq
        exact ⟨⟨hread, by omega⟩, ⟨_, hname⟩, hval⟩
    · refine ⟨_, none, heap', ?_, hnamed, by simp⟩
      simp only [parseMember, hrun, bind, Except.bind, hskip, hchar, ne_eq, hcolon,
        not_false_eq_true, if_true]

/-- A word without zero and backslash is compared inside a readable text, and where it is found
the text behind it is readable. -/
theorem startsWith_safe {word : CText} (hword : 0 ∉ word ∧ backslash ∉ word ∧ word ≠ [])
    {ptr : List UInt8} (hptr : Readable ptr) {owned held : List ℕ} {heap : JsonHeap}
    (hheld : heap.Holds (owned ++ held)) {whole : Prop} (hwhole : whole) :
    ∃ b, startsWith word ptr = .ok b ∧
      (b = true → LeftSafe ptr held owned (some (ptr.drop word.length)) heap whole) := by
  obtain ⟨b, hb, hrest⟩ := startsWith_readable hword.1 hword.2.1 hptr
  refine ⟨b, hb, fun htrue => ⟨hheld, ?_⟩⟩
  rintro _ ⟨⟩
  obtain ⟨hread, heq⟩ := hrest htrue
  have hpos := List.length_pos_iff.2 hword.2.2
  have hlen := congrArg List.length heq
  rw [List.length_append] at hlen
  exact ⟨⟨hread, by omega⟩, hwhole⟩

theorem chainValues_whole {chain : List (JsonItem D)} (h : ChainWhole ValueWhole chain) :
    ∃ vs, chainValues chain = some vs := by
  induction chain with
  | nil => exact ⟨[], by rw [chainValues]⟩
  | cons child chain ih =>
      obtain ⟨⟨_, ⟨v, hv⟩, -⟩, hrest⟩ := List.forall_mem_cons.1 h
      obtain ⟨vs, hvs⟩ := ih hrest
      exact ⟨v :: vs, by rw [chainValues, hv, hvs]; rfl⟩

theorem chainMembers_whole {chain : List (JsonItem D)} (h : ChainWhole MemberWhole chain) :
    ∃ vs, chainMembers chain = some vs := by
  induction chain with
  | nil => exact ⟨[], by rw [chainMembers]⟩
  | cons child chain ih =>
      obtain ⟨⟨_, ⟨name, hname⟩, v, hv⟩, hrest⟩ := List.forall_mem_cons.1 h
      obtain ⟨vs, hvs⟩ := ih hrest
      exact ⟨(name.text, v) :: vs, by rw [chainMembers, hname, hv, hvs]; rfl⟩

/-- **`parse_value` is safe on a readable text**, and what it returns stands for a value.  By
induction on the depth that it is given. -/
theorem parseValue_safe (A : Doubles D) (mem : ℕ → Bool) :
    ∀ depth, SafeBelow depth JsonItem.Fresh ValueWhole (parseValue A mem depth) := by
  intro depth
  induction depth with
  | zero =>
      intro item ptr heap held hlt
      omega
  | succ depth ih =>
      intro item ptr heap held hlt hptr hitem hheld
      obtain ⟨isNull, hnull, hnullSafe⟩ := startsWith_safe
        (show 0 ∉ literal "null" ∧ backslash ∉ literal "null" ∧ literal "null" ≠ [] by decide)
        hptr hheld (show ValueWhole item { item with type := .null } from
          ⟨⟨_, by rw [JsonItem.value]⟩, rfl⟩)
      obtain ⟨isFalse, hfalse, hfalseSafe⟩ := startsWith_safe
        (show 0 ∉ literal "false" ∧ backslash ∉ literal "false" ∧ literal "false" ≠ [] by decide)
        hptr hheld (show ValueWhole item { item with type := .false } from
          ⟨⟨_, by rw [JsonItem.value]⟩, rfl⟩)
      obtain ⟨isTrue, htrue, htrueSafe⟩ := startsWith_safe
        (show 0 ∉ literal "true" ∧ backslash ∉ literal "true" ∧ literal "true" ≠ [] by decide)
        hptr hheld (show ValueWhole item { item with type := .true, valueint := 1 } from
          ⟨⟨_, by rw [JsonItem.value]⟩, rfl⟩)
      simp only [parseValue, hnull, hfalse, htrue, bind, Except.bind]
      cases isNull with
      | true =>
          have hblocks : ({ item with type := .null } : JsonItem D).blocks = item.blocks :=
            JsonItem.blocks_congr rfl
          exact ⟨_, _, _, if_pos rfl, hblocks ▸ hnullSafe rfl⟩
      | false =>
      cases isFalse with
      | true =>
          have hblocks : ({ item with type := .false } : JsonItem D).blocks = item.blocks :=
            JsonItem.blocks_congr rfl
          exact ⟨_, _, _, rfl, hblocks ▸ hfalseSafe rfl⟩
      | false =>
      cases isTrue with
      | true =>
          have hblocks : ({ item with type := .true, valueint := 1 } : JsonItem D).blocks =
            item.blocks := JsonItem.blocks_congr rfl
          exact ⟨_, _, _, rfl, hblocks ▸ htrueSafe rfl⟩
      | false =>
      obtain ⟨c, tail, rfl, hchar⟩ := hptr.charAt
      simp only [Bool.false_eq_true, if_false, hchar]
      by_cases hquote : c = quote
      · rw [if_pos hquote]
        obtain ⟨item', rest, heap', hrun, hheld', hcases⟩ :=
          parseString_spec mem hptr hitem.1 hheld
        refine ⟨item', rest, heap', hrun, hheld', fun q hq => ?_⟩
        rcases hcases with ⟨rfl, -⟩ | ⟨q', addr, text, rfl, rfl, hread, hqLt⟩
        · simp at hq
        · obtain rfl := Option.some.inj hq
          refine ⟨⟨hread, hqLt⟩, ⟨.string (textOf text), ?_⟩, rfl⟩
          rw [JsonItem.setString, JsonItem.value, Option.map_some, TextBlock.text_of]
      · rw [if_neg hquote]
        by_cases hnumber : c = 45 ∨ isDigit c = true
        · rw [if_pos hnumber]
          obtain ⟨d, q, hrun, hread, hle⟩ := parseNumber_readable A item hptr hnumber
          have hblocks : (item.setNumber A d).blocks = item.blocks := JsonItem.blocks_congr rfl
          refine ⟨item.setNumber A d, some q, heap, by simp only [hrun], hblocks ▸ hheld, ?_⟩
          rintro _ ⟨⟩
          refine ⟨⟨hread, Nat.lt_succ_of_le hle⟩, ⟨.number d, ?_⟩, rfl⟩
          rw [JsonItem.setNumber, JsonItem.value]
        · rw [if_neg hnumber]
          by_cases harray : c = 91
          · rw [if_pos harray]
            refine parseContainer_safe mem ih (fun addr => (unnamed_fresh A addr).1) (by decide)
              (by decide) ?_ item _ heap held hlt hptr hitem hheld
            intro item chain hall
            obtain ⟨vs, hvs⟩ := chainValues_whole hall
            exact ⟨_, by rw [JsonItem.value, hvs, Option.map_some]⟩
          · rw [if_neg harray]
            by_cases hobject : c = 123
            · rw [if_pos hobject]
              refine parseContainer_safe mem (parseMember_safe mem ih) (unnamed_fresh A)
                (by decide) (by decide) ?_ item _ heap held hlt hptr hitem hheld
              intro item chain hall
              obtain ⟨vs, hvs⟩ := chainMembers_whole hall
              exact ⟨_, by rw [JsonItem.value, hvs, Option.map_some]⟩
            · rw [if_neg hobject]
              exact ⟨item, none, heap, rfl, hheld, by simp⟩

/-! ### The entry points -/

/-- What is left of a parse: what is held is the tree if there is one, it stands for a value, and
the pointer behind it leads into the text. -/
structure ParseLeft (held : List ℕ) (out : Option (JsonItem D × List UInt8)) (heap : JsonHeap) :
    Prop where
  none : out = none → heap.Holds held
  tree : ∀ c rest, out = some (c, rest) → heap.Holds (c.blocks ++ held) ∧ Readable rest ∧
    ∃ v, c.value = some v

/-- **`cJSON_ParseWithOpts` on a readable text**, whatever calls of `malloc` fail. -/
theorem cJsonParseWithOpts_left (A : Doubles D) (mem : ℕ → Bool) {value : Option (List UInt8)}
    (hvalue : ∀ ptr, value = some ptr → Readable ptr) (requireNullTerminated : Bool)
    {heap : JsonHeap} {held : List ℕ} (hheld : heap.Holds held) :
    ∃ out heap', cJsonParseWithOpts A mem value requireNullTerminated heap = .ok (out, heap') ∧
      ParseLeft held out heap' := by
  have hdelete : ∀ {c : JsonItem D} {heap : JsonHeap}, heap.Holds (c.blocks ++ held) →
      ParseLeft (D := D) held none (cJsonDelete [c] heap) := by
    intro c heap h
    exact ⟨fun _ => cJsonDelete_holds [c] (by simpa using h), by simp⟩
  unfold cJsonParseWithOpts
  rcases cJsonNewItem_spec A mem hheld with ⟨heap', hcall, hheld', -⟩ |
    ⟨addr, heap', hcall, hheld', -⟩
  · exact ⟨none, heap', by simp only [hcall], fun _ => hheld', by simp⟩
  · simp only [hcall]
    cases value with
    | none => exact ⟨none, _, rfl, hdelete hheld'⟩
    | some ptr =>
        obtain ⟨start, hskip, hstart, -⟩ := skip_readable (hvalue ptr rfl)
        obtain ⟨c, parsed, heap'', hrun, hsafe⟩ :=
          parseValue_safe A mem (start.length + 1) _ start heap' held (Nat.lt_succ_self _) hstart
            (unnamed_fresh A addr).1 hheld'
        simp only [hskip, bind, Except.bind, hrun]
        cases parsed with
        | none => exact ⟨none, _, rfl, hdelete hsafe.holds⟩
        | some parsed =>
            obtain ⟨⟨hparsed, -⟩, hval, -⟩ := hsafe.rest parsed rfl
            have hleft : ∀ {rest}, Readable rest → ParseLeft held (some (c, rest)) heap'' := by
              intro rest hread
              refine ⟨by simp, ?_⟩
              rintro _ _ ⟨⟩
              exact ⟨hsafe.holds, hread, hval⟩
            cases requireNullTerminated with
            | false => exact ⟨some (c, parsed), heap'', rfl, hleft hparsed⟩
            | true =>
                obtain ⟨parsed', hskip', hread, -⟩ := skip_readable hparsed
                obtain ⟨d, tail, rfl, hchar⟩ := hread.charAt
                simp only [hskip', hchar, if_true]
                by_cases hd : d = 0
                · exact ⟨some (c, d :: tail), heap'', by simp [hd], hleft hread⟩
                · exact ⟨none, _, by simp [hd], hdelete hsafe.holds⟩

/-- A text of one line, with an exponent in it. -/
def listText : List UInt8 := literal "[-2E1, \x7b\"a\": [\"b\", null]\x7d]" ++ [0]

theorem readable_listText : Readable listText := by
  refine readable_append (by decide) (by decide) ?_ .stop
  have hexp : ∀ suffix ∈ (literal "[-2E1, \x7b\"a\": [\"b\", null]\x7d]").tails,
      suffix.head? = some 101 ∨ suffix.head? = some 69 →
        exponentOf (suffix.tail ++ [0]) < 2 ^ 31 := by
    decide +kernel
  intro c tail hsuffix hc
  exact hexp (c :: tail) ((List.mem_tails _ _).2 hsuffix) (by simpa using hc)

end Wsn
