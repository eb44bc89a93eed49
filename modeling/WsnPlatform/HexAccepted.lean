/-
**The lines that reach the callback.**

`hex_parser_process_per_line` leaves it to `sscanf` whether a line is well formed.  A `%02x` takes
white space, a sign or a single digit for a byte as well, so a line can be handed over whose
characters are no hexadecimal digits.  What the parser hands over is told here by what the
conversions give, and compared with what the digits of the line say.

Main definitions:

* `Converts` — the conversions of a data record all succeed, with the given values;
* `RecordOf` — a line is a record with some data;
* `OnlyRecords` — what the callback is handed is the record of the line;
* `Misread` — a line that is accepted and has something else than digits in its fields.

Main results:

* `hexParserProcessPerLine_calls_iff` — when the callback is called, and with what;
* `onlyRecords_iff` — only records are handed over, unless the line is misread.
-/

import WsnPlatform.HexLineEnd
import WsnPlatform.HexRecord

set_option relaxedAutoImplicit false
set_option autoImplicit false

namespace Wsn

open CScan

/-! ### What the conversions give -/

/-- The value of the `k`th byte behind a cursor, as a conversion gives it. -/
def unitAt (s : List UInt8) (k : ℕ) : Option UInt32 :=
  (cString (s.drop (hexDataUnitWidth * k))).bind fun text => (scanHex 2 text).map Prod.fst

/-- Bytes one behind the other. -/
def UnitsAt (s : List UInt8) (units : List UInt32) : Prop :=
  ∀ k x, units[k]? = some x → unitAt s k = some x

/-- **The conversions of a data record**: those of the header, of the data bytes and of the
checksum, behind the delimiter. -/
structure Converts (s : List UInt8) (dataLength addr : UInt32) (data : List UInt32)
    (check : UInt32) : Prop where
  header : ∃ text, cString s = some text ∧
    scanHexes [2, 4, 2] text = [dataLength, addr, hexTypeDataRecord]
  length_lt : dataLength.toNat < lineBufSize
  length_data : data.length = dataLength.toNat
  units : UnitsAt (s.drop hexHeaderWidth) (data ++ [check])

/-- The sum over the values, as `unsigned char`. -/
def unitSum (dataLength addr : UInt32) (units : List UInt32) : UInt8 :=
  (dataLength + addr + (addr >>> 8) + hexTypeDataRecord).toUInt8 + (units.map UInt32.toUInt8).sum

theorem unitAt_succ (s : List UInt8) (k : ℕ) :
    unitAt s (k + 1) = unitAt (s.drop hexDataUnitWidth) k := by
  rw [unitAt, unitAt, List.drop_drop, Nat.mul_succ, Nat.add_comm]

theorem unitsAt_nil (s : List UInt8) : UnitsAt s [] := by
  intro k x hx
  cases hx

theorem unitsAt_cons {s : List UInt8} {x : UInt32} {units : List UInt32} :
    UnitsAt s (x :: units) ↔ unitAt s 0 = some x ∧ UnitsAt (s.drop hexDataUnitWidth) units := by
  constructor
  · intro h
    exact ⟨h 0 x rfl, fun k y hy => by rw [← unitAt_succ]; exact h (k + 1) y hy⟩
  · rintro ⟨hfirst, hrest⟩ k y hy
    cases k with
    | zero => cases hy; exact hfirst
    | succ k => rw [unitAt_succ]; exact hrest k y hy

theorem unitsAt_concat {s : List UInt8} {x : UInt32} {units : List UInt32} :
    UnitsAt s (units ++ [x]) ↔
      UnitsAt s units ∧ unitAt (s.drop (hexDataUnitWidth * units.length)) 0 = some x := by
  induction units generalizing s with
  | nil =>
      rw [List.nil_append, unitsAt_cons, List.length_nil, Nat.mul_zero, List.drop_zero,
        and_iff_left (unitsAt_nil _), and_iff_right (unitsAt_nil s)]
  | cons y units ih =>
      rw [List.cons_append, unitsAt_cons, unitsAt_cons, ih, List.drop_drop, List.length_cons,
        Nat.mul_succ, Nat.add_comm, and_assoc]

/-- A conversion that succeeds. -/
theorem unitAt_zero_eq_some {s : List UInt8} {x : UInt32} :
    unitAt s 0 = some x ↔ ∃ text, cString s = some text ∧ scanHexes [2] text = [x] := by
  rw [unitAt, Nat.mul_zero, List.drop_zero, Option.bind_eq_some_iff]
  refine exists_congr fun text => and_congr_right fun _ => ?_
  rw [scanHexes]
  cases scanHex 2 text with
  | none => simp
  | some r => simp [scanHexes]

/-- One byte more in front of the others. -/
theorem exists_unitsAt_succ {n : ℕ} {s : List UInt8} {P : List UInt32 → Prop} :
    (∃ units, units.length = n + 1 ∧ UnitsAt s units ∧ P units) ↔
      ∃ x, unitAt s 0 = some x ∧ ∃ units, units.length = n ∧
        UnitsAt (s.drop hexDataUnitWidth) units ∧ P (x :: units) := by
  constructor
  · rintro ⟨units, hlen, hunits, h⟩
    obtain ⟨x, units, rfl⟩ := List.exists_cons_of_length_eq_add_one hlen
    obtain ⟨hx, hrest⟩ := unitsAt_cons.1 hunits
    exact ⟨x, hx, units, Nat.succ.inj hlen, hrest, h⟩
  · rintro ⟨x, hx, units, hlen, hrest, h⟩
    exact ⟨x :: units, congrArg Nat.succ hlen, unitsAt_cons.2 ⟨hx, hrest⟩, h⟩

/-- **What the loop has read** when it returns. -/
theorem readData_eq_some_iff (n : ℕ) {s dataBuf : List UInt8} {calcSum : UInt8}
    {r : List UInt8 × List UInt8 × UInt8} :
    readData n s dataBuf calcSum = .ok (some r) ↔
      ∃ units, units.length = n ∧ UnitsAt s units ∧ r = (s.drop (hexDataUnitWidth * n),
        dataBuf ++ units.map UInt32.toUInt8, calcSum + (units.map UInt32.toUInt8).sum) := by
  induction n generalizing s dataBuf calcSum with
  | zero =>
      constructor
      · intro h
        cases h
        exact ⟨[], rfl, unitsAt_nil s, by simp⟩
      · rintro ⟨units, hlen, -, rfl⟩
        obtain rfl := List.length_eq_zero_iff.1 hlen
        simp [readData]
  | succ n ih =>
      rw [exists_unitsAt_succ]
      cases hstring : cString s with
      | none => simp [readData_fault n dataBuf calcSum hstring, unitAt, hstring]
      | some text =>
          cases hscan : scanHex 2 text with
          | none => simp [readData_none n dataBuf calcSum hstring hscan, unitAt, hstring, hscan]
          | some x =>
              have hunit : unitAt s 0 = some x.1 := by simp [unitAt, hstring, hscan]
              have hdrop : (s.drop hexDataUnitWidth).drop (hexDataUnitWidth * n) =
                  s.drop (hexDataUnitWidth * (n + 1)) := by
                rw [List.drop_drop, Nat.mul_succ, Nat.add_comm]
              rw [readData_some n dataBuf calcSum hstring hscan, ih, hunit]
              simp only [Option.some.injEq, exists_eq_left', hdrop, List.map_cons, List.sum_cons,
                List.append_assoc, List.singleton_append, add_assoc]

/-! ### When the callback is called -/

theorem unitSum_concat (dataLength addr : UInt32) (data : List UInt32) (check : UInt32) :
    unitSum dataLength addr (data ++ [check]) =
      (dataLength + addr + (addr >>> 8) + hexTypeDataRecord).toUInt8 +
        (data.map UInt32.toUInt8).sum + check.toUInt8 := by
  rw [unitSum, List.map_append, List.sum_append, List.map_singleton, List.sum_singleton,
    ← add_assoc]

/-- A result without another call. -/
theorem ok_ne_called {calls : List LineData} {ret ret' : Ret} {d : LineData} :
    (Except.ok (ret', calls) : Exec _) ≠ .ok (ret, calls ++ [d]) := by
  intro h
  have hlen := congrArg (fun r => r.2.length) (Except.ok.inj h)
  simp at hlen

section Called

variable (thiz : HexParser) (calls : List LineData) {ret : Ret} {d : LineData}

/-- **The callback is called by a data record** whose conversions succeed and sum up to zero. -/
theorem processDataRecord_calls_iff {dataLength addr : UInt32} {s : List UInt8} :
    processDataRecord thiz dataLength addr hexTypeDataRecord s calls = .ok (ret, calls ++ [d]) ↔
      dataLength.toNat < lineBufSize ∧ ∃ data check, data.length = dataLength.toNat ∧
        UnitsAt s (data ++ [check]) ∧ unitSum dataLength addr (data ++ [check]) = 0 ∧
        d = ⟨addr.toInt32, data.map UInt32.toUInt8, dataLength.toInt32⟩ ∧
        ret = thiz.lineDataCb calls d := by
  by_cases hlen : lineBufSize ≤ dataLength.toNat
  · rw [processDataRecord, if_pos hlen]
    exact iff_of_false ok_ne_called fun h => absurd h.1 (by omega)
  rw [processDataRecord_eq thiz calls addr hexTypeDataRecord hlen, and_iff_right (by omega)]
  constructor
  · intro h
    obtain ⟨r, hread, h⟩ := bind_eq_ok.1 h
    cases r with
    | none => exact absurd h ok_ne_called
    | some r =>
        obtain ⟨data, hcount, hdata, rfl⟩ := (readData_eq_some_iff _).1 hread
        obtain ⟨text, htext, h⟩ := bind_eq_ok.1 h
        split at h
        · next check hcheck =>
            split_ifs at h with hsum
            · exact absurd h ok_ne_called
            · have hzero := (checkUnit_and _ check).1 (not_not.1 hsum)
              have hlast := unitAt_zero_eq_some.2 ⟨text, stored_eq_ok.1 htext, hcheck⟩
              rw [← hcount] at hlast
              have hunits := unitsAt_concat.2 ⟨hdata, hlast⟩
              obtain ⟨hret, hd⟩ := Prod.mk.inj (Except.ok.inj h)
              obtain rfl := List.singleton_injective (List.append_cancel_left hd)
              exact ⟨data, check, hcount, hunits, by rw [unitSum_concat, hzero], rfl, hret.symm⟩
        · exact absurd h ok_ne_called
  · rintro ⟨data, check, hcount, hunits, hzero, rfl, rfl⟩
    obtain ⟨hdata, hlast⟩ := unitsAt_concat.1 hunits
    rw [hcount] at hlast
    obtain ⟨text, htext, hcheck⟩ := unitAt_zero_eq_some.1 hlast
    rw [unitSum_concat] at hzero
    have hsum := (checkUnit_and _ check).2 hzero
    rw [(readData_eq_some_iff _).2 ⟨data, hcount, hdata, rfl⟩]
    simp only [ok_bind, htext, stored_some, hcheck, List.nil_append]
    rw [if_neg (not_not.2 hsum)]

/-- **When the callback is called**, and with what. -/
theorem hexParserProcessPerLine_calls_iff {c : UInt8} {s : List UInt8} :
    hexParserProcessPerLine thiz (c :: s) calls = .ok (ret, calls ++ [d]) ↔
      c = hexDelimiter ∧ ∃ dataLength addr data check, Converts s dataLength addr data check ∧
        unitSum dataLength addr (data ++ [check]) = 0 ∧
        d = ⟨addr.toInt32, data.map UInt32.toUInt8, dataLength.toInt32⟩ ∧
        ret = thiz.lineDataCb calls d := by
  by_cases hc : c = hexDelimiter
  · subst hc
    rw [and_iff_right rfl, hexParserProcessPerLine, if_neg (not_not.2 rfl)]
    constructor
    · intro h
      obtain ⟨text, htext, h⟩ := bind_eq_ok.1 h
      split at h
      · next dataLength addr type hheader =>
          split_ifs at h with htype
          · subst htype
            obtain ⟨hlt, data, check, hcount, hunits, hzero, hd, hret⟩ :=
              (processDataRecord_calls_iff thiz calls).1 h
            exact ⟨dataLength, addr, data, check,
              ⟨⟨text, stored_eq_ok.1 htext, hheader⟩, hlt, hcount, hunits⟩, hzero, hd, hret⟩
          · exact absurd h ok_ne_called
          · exact absurd h ok_ne_called
          · exact absurd h ok_ne_called
      · exact absurd h ok_ne_called
    · rintro ⟨dataLength, addr, data, check, hconv, hzero, hd, hret⟩
      obtain ⟨text, htext, hheader⟩ := hconv.header
      rw [htext, stored_some, ok_bind, hheader]
      dsimp only
      rw [if_pos rfl]
      exact (processDataRecord_calls_iff thiz calls).2
        ⟨hconv.length_lt, data, check, hconv.length_data, hconv.units, hzero, hd, hret⟩
  · rw [hexParserProcessPerLine, if_pos hc]
    exact iff_of_false ok_ne_called fun h => hc h.1

end Called

/-! ### Records and other lines -/

/-- A text begins with `m` digits. -/
def DigitsIn (m : ℕ) (text : List UInt8) : Prop :=
  m ≤ text.length ∧ ∀ c ∈ text.take m, hexDigit? c ≠ none

instance (m : ℕ) (text : List UInt8) : Decidable (DigitsIn m text) := instDecidableAnd

/-- **A line is a record** with the data `d`: its digits spell a length, an address, the type of a
data record, as many bytes as the length says and a checksum, and the bytes sum up to zero. -/
def RecordOf (text : List UInt8) (d : LineData) : Prop :=
  ∃ digits rest len hi lo data check, text = hexDelimiter :: (digits ++ rest) ∧
    Spells digits (len :: hi :: lo :: 0 :: (data ++ [check])) ∧ data.length = len.toNat ∧
    len + hi + lo + data.sum + check = 0 ∧ d = lineData hi lo data

/-- **Only records are handed over**: a line on which the callback is called is a record, and what
the callback is handed is its data. -/
def OnlyRecords (text junk : List UInt8) : Prop :=
  ∀ (thiz : HexParser) (calls : List LineData) (ret : Ret) (d : LineData),
    hexParserProcessPerLine thiz (text ++ 0 :: junk) calls = .ok (ret, calls ++ [d]) →
      RecordOf text d

/-- **A line is misread**: all conversions succeed and what they give sums up to zero, but the
places of the record are not filled with digits. -/
def Misread (text junk : List UInt8) : Prop :=
  ∃ body dataLength addr data check, text = hexDelimiter :: body ∧
    Converts (body ++ 0 :: junk) dataLength addr data check ∧
    unitSum dataLength addr (data ++ [check]) = 0 ∧ ¬ DigitsIn (2 * (5 + dataLength.toNat)) body

/-- The digits of a record. -/
theorem RecordOf.digitsIn {body : List UInt8} {d : LineData}
    (h : RecordOf (hexDelimiter :: body) d) : DigitsIn (2 * (5 + d.buf.length)) body := by
  obtain ⟨digits, rest, len, hi, lo, data, check, htext, hspells, -, -, rfl⟩ := h
  obtain rfl := (List.cons.inj htext).2
  have hlength : digits.length = 2 * (5 + data.length) := by
    rw [hspells.length]
    simp only [List.length_cons, List.length_append, List.length_nil]
    omega
  have hbuf : (lineData hi lo data).buf = data := rfl
  rw [hbuf, ← hlength]
  refine ⟨by rw [List.length_append]; omega, fun c hc => ?_⟩
  rw [List.take_left] at hc
  obtain ⟨x, hx⟩ := hspells.hexDigit c hc
  rw [hx]
  exact Option.some_ne_none x

/-- A row of bytes in which a header fits. -/
theorem exists_header {bytes : List UInt8} {m : ℕ} (h : bytes.length = m + 4) :
    ∃ len hi lo ty body, bytes = len :: hi :: lo :: ty :: body ∧ body.length = m := by
  obtain ⟨len, bytes, rfl⟩ := List.exists_cons_of_length_eq_add_one h
  have h₁ := Nat.succ.inj h
  obtain ⟨hi, bytes, rfl⟩ := List.exists_cons_of_length_eq_add_one h₁
  have h₂ := Nat.succ.inj h₁
  obtain ⟨lo, bytes, rfl⟩ := List.exists_cons_of_length_eq_add_one h₂
  have h₃ := Nat.succ.inj h₂
  obtain ⟨ty, body, rfl⟩ := List.exists_cons_of_length_eq_add_one h₃
  exact ⟨len, hi, lo, ty, body, rfl, Nat.succ.inj h₃⟩

/-- **Digits in all places** make a record of a line that is handed over. -/
theorem recordOf_of_digitsIn {thiz : HexParser} {calls : List LineData} {ret : Ret} {d : LineData}
    {body junk : List UInt8} (h : 0 ∉ body) {dataLength addr : UInt32} {data : List UInt32}
    {check : UInt32} (hconv : Converts (body ++ 0 :: junk) dataLength addr data check)
    (hdigits : DigitsIn (2 * (5 + dataLength.toNat)) body)
    (hcall : hexParserProcessPerLine thiz (hexDelimiter :: body ++ 0 :: junk) calls =
      .ok (ret, calls ++ [d])) :
    RecordOf (hexDelimiter :: body) d := by
  obtain ⟨digits, hd⟩ : ∃ digits, digits = body.take (2 * (5 + dataLength.toNat)) := ⟨_, rfl⟩
  obtain ⟨rest, hrest⟩ : ∃ rest, rest = body.drop (2 * (5 + dataLength.toNat)) := ⟨_, rfl⟩
  have hbody : body = digits ++ rest := by rw [hd, hrest, List.take_append_drop]
  have hlength : digits.length = 2 * (5 + dataLength.toNat) := by
    rw [hd, List.length_take, Nat.min_eq_left hdigits.1]
  obtain ⟨bytes, hspells, hcount⟩ := exists_spells hlength (by rw [hd]; exact hdigits.2)
  obtain ⟨len, hi, lo, ty, more, rfl, hmore⟩ :=
    exists_header (m := dataLength.toNat + 1) (hcount.trans (by omega))
  obtain ⟨units, last, rfl, hunits⟩ := exists_concat hmore
  -- the digits of the header are what was converted
  obtain ⟨text, htext, hheader⟩ := hconv.header
  obtain rfl := Option.some.inj ((cString_text h junk).symm.trans htext)
  obtain ⟨-, hscan, -⟩ := scanHexes_header hspells rest
  rw [← hbody, hheader] at hscan
  obtain ⟨hlen, -, hty⟩ : dataLength = len.toUInt32 ∧ _ ∧ hexTypeDataRecord = ty.toUInt32 := by
    simpa using hscan
  obtain rfl : ty = 0 := (UInt8.toUInt32_inj (b := 0)).1 hty.symm
  rw [hlen, UInt8.toNat_toUInt32] at hunits
  have htail : 0 ∉ rest := fun hmem => h (by rw [hbody]; exact List.mem_append_right _ hmem)
  have hline := hexParserProcessPerLine_data thiz hspells hunits (cString_text htail junk) calls
  rw [hbody, List.cons_append, List.append_assoc, hline] at hcall
  split_ifs at hcall with hsum
  · obtain ⟨-, hcalls⟩ := Prod.mk.inj (Except.ok.inj hcall)
    obtain rfl := List.singleton_injective (List.append_cancel_left hcalls)
    exact ⟨digits, rest, len, hi, lo, units, last, by rw [hbody], hspells, hunits, hsum, rfl⟩
  · exact absurd hcall ok_ne_called

/-- **Only records are handed over, unless the line is misread.** -/
theorem onlyRecords_iff (text junk : List UInt8) (h : 0 ∉ text) :
    OnlyRecords text junk ↔ ¬ Misread text junk := by
  constructor
  · rintro honly ⟨body, dataLength, addr, data, check, rfl, hconv, hzero, hno⟩
    have hrecord := honly acceptingParser [] .ok _
      ((hexParserProcessPerLine_calls_iff acceptingParser []).2
        ⟨rfl, dataLength, addr, data, check, hconv, hzero, rfl, rfl⟩)
    have hdigits := hrecord.digitsIn
    rw [List.length_map, hconv.length_data] at hdigits
    exact hno hdigits
  · intro hno thiz calls ret d hcall
    cases text with
    | nil => exact absurd ((hexParserProcessPerLine_calls_iff thiz calls).1 hcall).1 (by decide)
    | cons c body =>
        obtain ⟨rfl, dataLength, addr, data, check, hconv, hzero, -⟩ :=
          (hexParserProcessPerLine_calls_iff thiz calls).1 hcall
        rw [List.mem_cons, not_or] at h
        by_cases hdigits : DigitsIn (2 * (5 + dataLength.toNat)) body
        · exact recordOf_of_digitsIn h.2 hconv hdigits hcall
        · exact absurd ⟨body, dataLength, addr, data, check, rfl, hconv, hzero, hdigits⟩ hno

/-- A record of one byte, with all its digits. -/
theorem onlyRecords_oneByte :
    0 ∉ literal ":0100000001FE" ∧ OnlyRecords (literal ":0100000001FE") [] := by
  refine ⟨by decide, (onlyRecords_iff (literal ":0100000001FE") [] (by decide)).2 ?_⟩
  rintro ⟨body, dataLength, addr, data, check, htext, hconv, -, hno⟩
  obtain rfl : literal "0100000001FE" = body := (List.cons.inj htext).2
  obtain ⟨text, hstring, hheader⟩ := hconv.header
  obtain rfl := Option.some.inj ((cString_text (by decide) []).symm.trans hstring)
  have hlen : dataLength = 1 := (List.cons.inj hheader).1.symm
  have hdigits : DigitsIn 12 (literal "0100000001FE") := by decide +kernel
  rw [hlen] at hno
  exact hno hdigits

/-- **Signs are taken for digits**: `:+0+000+000` is handed over as a record without data. -/
theorem onlyRecords_fails :
    ¬ OnlyRecords (literal ":+0+000+000") [] ∧
      ∀ thiz : HexParser, hexParserProcessPerLine thiz (literal ":+0+000+000" ++ [0]) [] =
        .ok (thiz.lineDataCb [] ⟨0, [], 0⟩, [⟨0, [], 0⟩]) := by
  have hunits : UnitsAt ((literal "+0+000+000" ++ [0]).drop hexHeaderWidth) ([] ++ [0]) :=
    unitsAt_concat.2 ⟨unitsAt_nil _, unitAt_zero_eq_some.2 ⟨literal "00", rfl, rfl⟩⟩
  have hconv : Converts (literal "+0+000+000" ++ [0]) 0 0 [] 0 :=
    ⟨⟨literal "+0+000+000", rfl, rfl⟩, by decide, rfl, hunits⟩
  have hcalled (thiz : HexParser) :
      hexParserProcessPerLine thiz (literal ":+0+000+000" ++ [0]) [] =
        .ok (thiz.lineDataCb [] ⟨0, [], 0⟩, [⟨0, [], 0⟩]) :=
    (hexParserProcessPerLine_calls_iff thiz []).2 ⟨rfl, 0, 0, [], 0, hconv, rfl, rfl, rfl⟩
  refine ⟨fun honly => ?_, hcalled⟩
  have hrecord : RecordOf (hexDelimiter :: literal "+0+000+000") ⟨0, [], 0⟩ :=
    honly ⟨fun _ _ => .ok⟩ [] .ok _ (hcalled _)
  exact absurd hrecord.digitsIn (by decide)

end Wsn
