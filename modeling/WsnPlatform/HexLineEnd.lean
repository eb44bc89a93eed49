/-
**The end of a HEX line.**

The cursor of `hex_parser_process_per_line` goes on by eight characters behind the header and by two
behind each byte, whatever `sscanf` has taken.  A conversion that is content with less can leave the
cursor behind the NUL that ends the line, in what earlier lines left in the buffer.

Main definitions:

* `DataOver` — the cursor passes the end of a text between two conversions;
* `StepsOver` — the lines behind whose NUL the parser reads;
* `StaysInLine` — what stands behind the NUL changes nothing.

Main results:

* `readData_text` — the loop on a text, and on what it reaches behind it;
* `hexParserProcessPerLine_within`, `hexParserProcessPerLine_over` — a line that the parser does not
  leave, and one that it does;
* `staysInLine_iff` — which lines are which.
-/

import WsnPlatform.HexParser
import WsnPlatform.CText

set_option relaxedAutoImplicit false
set_option autoImplicit false

namespace Wsn

open CScan

/-! ### One turn of the loop -/

section Turn

variable {s text : List UInt8} (n : ℕ) (dataBuf : List UInt8) (calcSum : UInt8)

theorem readData_fault (h : cString s = none) :
    readData (n + 1) s dataBuf calcSum = .error .outOfBounds := by
  rw [readData, h]
  rfl

theorem readData_none (h : cString s = some text) (hscan : scanHex 2 text = none) :
    readData (n + 1) s dataBuf calcSum = .ok none := by
  rw [readData, h, stored_some, ok_bind, scanHexes, hscan]

theorem readData_some (h : cString s = some text) {r : UInt32 × List UInt8}
    (hscan : scanHex 2 text = some r) :
    readData (n + 1) s dataBuf calcSum =
      readData n (s.drop hexDataUnitWidth) (dataBuf ++ [r.1.toUInt8]) (calcSum + r.1.toUInt8) := by
  rw [readData, h, stored_some, ok_bind, scanHexes, hscan]
  simp only [scanHexes, addToSum]

end Turn

/-- A text that ends with a NUL is the string at the front. -/
theorem cString_text {text : List UInt8} (h : 0 ∉ text) (junk : List UInt8) :
    cString (text ++ 0 :: junk) = some text := by
  rw [cString_append h, cString_nul, Option.map_some, List.append_nil]

/-! ### Passing the end of a text -/

/-- **The cursor passes the end of a text** while a number of bytes is read from it: it goes on by
two, the text has an odd length, and no conversion in front of its end fails. -/
def DataOver (n : ℕ) (text : List UInt8) : Prop :=
  text.length < 2 * n ∧ text.length % 2 = 1 ∧
    ∀ k, 2 * k < text.length → scanHex 2 (text.drop (2 * k)) ≠ none

theorem dataOver_cons_cons (n : ℕ) {a b : UInt8} {text : List UInt8}
    (h : scanHex 2 (a :: b :: text) ≠ none) :
    DataOver (n + 1) (a :: b :: text) ↔ DataOver n text := by
  unfold DataOver
  rw [List.length_cons, List.length_cons]
  constructor
  · rintro ⟨hlen, hodd, hconv⟩
    refine ⟨by omega, by omega, fun k hk => ?_⟩
    exact hconv (k + 1) (by omega)
  · rintro ⟨hlen, hodd, hconv⟩
    refine ⟨by omega, by omega, fun k hk => ?_⟩
    cases k with
    | zero => exact h
    | succ k => exact hconv k (by omega)

/-- **The loop on a text**: it stays in front of the NUL, and what it returns is told by the text,
or it goes on in what stands behind the NUL. -/
theorem readData_text (n : ℕ) {text : List UInt8} (h : 0 ∉ text) (dataBuf : List UInt8)
    (calcSum : UInt8) :
    (¬ DataOver n text ∧
        ((∀ junk, readData n (text ++ 0 :: junk) dataBuf calcSum = .ok none) ∨
          ∃ rest dataBuf' calcSum', 0 ∉ rest ∧ ∀ junk,
            readData n (text ++ 0 :: junk) dataBuf calcSum =
              .ok (some (rest ++ 0 :: junk, dataBuf', calcSum')))) ∨
      DataOver n text ∧ ∃ m dataBuf' calcSum', ∀ junk,
        readData n (text ++ 0 :: junk) dataBuf calcSum = readData m junk dataBuf' calcSum' := by
  induction n generalizing text dataBuf calcSum with
  | zero =>
      refine Or.inl ⟨fun hover => ?_, Or.inr ⟨text, dataBuf, calcSum, h, fun junk => rfl⟩⟩
      have := hover.1
      omega
  | succ n ih =>
      have hstring := cString_text h
      cases hscan : scanHex 2 text with
      | none =>
          have hnone junk := readData_none n dataBuf calcSum (hstring junk) hscan
          refine Or.inl ⟨fun hover => ?_, Or.inl hnone⟩
          obtain ⟨-, hodd, hconv⟩ := hover
          exact hconv 0 (by omega) hscan
      | some r =>
          have hturn junk := readData_some n dataBuf calcSum (hstring junk) hscan
          match text, h with
          | [], _ => cases hscan
          | [a], _ =>
              -- the second character of the byte would be the NUL
              refine Or.inr ⟨⟨by rw [List.length_singleton]; omega, rfl, fun k hk => ?_⟩, n, _, _,
                hturn⟩
              obtain rfl : k = 0 := by
                rw [List.length_singleton] at hk
                omega
              rw [List.drop_zero, hscan]
              exact Option.some_ne_none r
          | a :: b :: text, h =>
              rw [List.mem_cons, List.mem_cons, not_or, not_or] at h
              have hconv : scanHex 2 (a :: b :: text) ≠ none := by
                rw [hscan]
                exact Option.some_ne_none r
              have hturn' junk : readData (n + 1) (a :: b :: text ++ 0 :: junk) dataBuf calcSum =
                  readData n (text ++ 0 :: junk) (dataBuf ++ [r.1.toUInt8])
                    (calcSum + r.1.toUInt8) := hturn junk
              rw [dataOver_cons_cons n hconv]
              simp only [hturn']
              exact ih h.2.2 (dataBuf ++ [r.1.toUInt8]) (calcSum + r.1.toUInt8)

/-- **Memory without a NUL** is no string. -/
theorem cString_eq_none {s : List UInt8} (h : 0 ∉ s) : cString s = none := if_neg h

/-! ### A data record -/

section Record

variable (thiz : HexParser) (calls : List LineData) (addr type : UInt32) {dataLength : UInt32}
  (hlen : ¬ lineBufSize ≤ dataLength.toNat)
include hlen

/-- The record behind its loop. -/
theorem processDataRecord_eq (s : List UInt8) :
    processDataRecord thiz dataLength addr type s calls =
      (readData dataLength.toNat s [] (dataLength + addr + (addr >>> 8) + type).toUInt8 >>= fun r =>
        match r with
        | none => .ok (.fail, calls)
        | some (s, dataBuf, calcSum) => stored (cString s) >>= fun text =>
            match scanHexes [2] text with
            | [checkSum] =>
                if (calcSum.toUInt32 + checkSum) &&& 0xFF ≠ 0 then .ok (.fail, calls)
                else .ok (thiz.lineDataCb calls ⟨addr.toInt32, dataBuf, dataLength.toInt32⟩,
                  calls ++ [⟨addr.toInt32, dataBuf, dataLength.toInt32⟩])
            | _ => .ok (.fail, calls)) := by
  unfold processDataRecord
  exact if_neg hlen

/-- A record in memory without a NUL is not read. -/
theorem processDataRecord_fault {s : List UInt8} (h : 0 ∉ s) :
    processDataRecord thiz dataLength addr type s calls = .error .outOfBounds := by
  rw [processDataRecord_eq thiz calls addr type hlen]
  cases dataLength.toNat with
  | zero => simp only [readData, ok_bind, cString_eq_none h, stored_none, error_bind]
  | succ n => rw [readData_fault n _ _ (cString_eq_none h), error_bind]

/-- **A record at the front of a text** is told by the text, or the cursor passes its end. -/
theorem processDataRecord_text {text : List UInt8} (h : 0 ∉ text) :
    (¬ DataOver dataLength.toNat text ∧ ∃ r, ∀ junk,
        processDataRecord thiz dataLength addr type (text ++ 0 :: junk) calls = .ok r) ∨
      DataOver dataLength.toNat text ∧ ∀ junk, 0 ∉ junk →
        processDataRecord thiz dataLength addr type (text ++ 0 :: junk) calls =
          .error .outOfBounds := by
  simp only [processDataRecord_eq thiz calls addr type hlen]
  rcases readData_text dataLength.toNat h [] (dataLength + addr + (addr >>> 8) + type).toUInt8 with
    ⟨hin, hnone | ⟨rest, dataBuf, calcSum, hrest, hsome⟩⟩ | ⟨hover, m, dataBuf, calcSum, hmore⟩
  · exact Or.inl ⟨hin, _, fun junk => by rw [hnone, ok_bind]⟩
  · refine Or.inl ⟨hin, ?_⟩
    simp only [hsome, ok_bind, cString_text hrest, stored_some]
    split
    · split_ifs
      · exact ⟨_, fun _ => rfl⟩
      · exact ⟨_, fun _ => rfl⟩
    · exact ⟨_, fun _ => rfl⟩
  · refine Or.inr ⟨hover, fun junk hjunk => ?_⟩
    rw [hmore]
    cases m with
    | zero => simp only [readData, ok_bind, cString_eq_none hjunk, stored_none, error_bind]
    | succ m => rw [readData_fault m _ _ (cString_eq_none hjunk), error_bind]

end Record

/-! ### A line -/

/-- **The lines behind whose NUL the parser reads**: data records of less than 256 bytes whose
header is read from less than eight characters, or whose bytes come to an end inside one of them. -/
def StepsOver (text : List UInt8) : Prop :=
  ∃ body dataLength addr, text = hexDelimiter :: body ∧
    scanHexes [2, 4, 2] body = [dataLength, addr, hexTypeDataRecord] ∧
    dataLength.toNat < lineBufSize ∧
    (body.length < hexHeaderWidth ∨ DataOver dataLength.toNat (body.drop hexHeaderWidth))

/-- **The parser stays in a line**: whatever stands behind its NUL in the buffer, the result and the
calls of the callback are the same. -/
def StaysInLine (text : List UInt8) : Prop :=
  ∀ (thiz : HexParser) (calls : List LineData) (junk junk' : List UInt8),
    (text ++ 0 :: junk).length = lineBufSize → (text ++ 0 :: junk').length = lineBufSize →
      ∃ r, hexParserProcessPerLine thiz (text ++ 0 :: junk) calls = .ok r ∧
        hexParserProcessPerLine thiz (text ++ 0 :: junk') calls = .ok r

section Line

variable (thiz : HexParser) (calls : List LineData)

/-- A line up to its type. -/
theorem hexParserProcessPerLine_body {body : List UInt8} (h : 0 ∉ body) (junk : List UInt8) :
    hexParserProcessPerLine thiz (hexDelimiter :: body ++ 0 :: junk) calls =
      match scanHexes [2, 4, 2] body with
      | [dataLength, addr, type] =>
          if type = hexTypeDataRecord then
            processDataRecord thiz dataLength addr type ((body ++ 0 :: junk).drop hexHeaderWidth)
              calls
          else if type = hexTypeEofRecord then .ok (.stop, calls)
          else if type = hexTypeExtSegAddrRecord ∨ type = hexTypeStartSegAddrRecord ∨
              type = hexTypeExtLineAddrRecord ∨ type = hexTypeStartLineAddrRecord then
            .ok (.ok, calls)
          else .ok (.fail, calls)
      | _ => .ok (.fail, calls) := by
  rw [List.cons_append, hexParserProcessPerLine, if_neg (not_not.2 rfl), cString_text h]
  rfl

/-- **A line that the parser does not leave** is told by its text. -/
theorem hexParserProcessPerLine_within {text : List UInt8} (h : 0 ∉ text) (hin : ¬ StepsOver text) :
    ∃ r, ∀ junk, hexParserProcessPerLine thiz (text ++ 0 :: junk) calls = .ok r := by
  cases text with
  | nil => exact ⟨_, fun junk => rfl⟩
  | cons c body =>
      rw [List.mem_cons, not_or] at h
      by_cases hc : c = hexDelimiter
      · subst hc
        simp only [hexParserProcessPerLine_body thiz calls h.2]
        split
        · next dataLength addr type hheader =>
            split_ifs with htype
            · subst htype
              by_cases hlen : lineBufSize ≤ dataLength.toNat
              · exact ⟨_, fun junk => by rw [processDataRecord, if_pos hlen]⟩
              have hover : ¬ (body.length < hexHeaderWidth ∨
                  DataOver dataLength.toNat (body.drop hexHeaderWidth)) := fun hover =>
                hin ⟨body, dataLength, addr, rfl, hheader, by omega, hover⟩
              rw [not_or] at hover
              have hrest : 0 ∉ body.drop hexHeaderWidth :=
                fun hmem => h.2 (List.mem_of_mem_drop hmem)
              have hdrop junk : (body ++ 0 :: junk).drop hexHeaderWidth =
                  body.drop hexHeaderWidth ++ 0 :: junk :=
                List.drop_append_of_le_length (by omega)
              simp only [hdrop]
              rcases processDataRecord_text thiz calls addr hexTypeDataRecord hlen hrest with
                ⟨-, hr⟩ | ⟨hdata, -⟩
              · exact hr
              · exact absurd hdata hover.2
            · exact ⟨_, fun _ => rfl⟩
            · exact ⟨_, fun _ => rfl⟩
            · exact ⟨_, fun _ => rfl⟩
        · exact ⟨_, fun _ => rfl⟩
      · exact ⟨_, fun junk => by rw [List.cons_append, hexParserProcessPerLine, if_pos hc]⟩

/-- **A line that the parser leaves** is not read in memory without another NUL. -/
theorem hexParserProcessPerLine_over {text : List UInt8} (h : 0 ∉ text) (hover : StepsOver text)
    {junk : List UInt8} (hjunk : 0 ∉ junk) :
    hexParserProcessPerLine thiz (text ++ 0 :: junk) calls = .error .outOfBounds := by
  obtain ⟨body, dataLength, addr, rfl, hheader, hlen, hbody⟩ := hover
  rw [List.mem_cons, not_or] at h
  rw [hexParserProcessPerLine_body thiz calls h.2, hheader]
  dsimp only
  rw [if_pos rfl]
  have hlong : ¬ lineBufSize ≤ dataLength.toNat := by omega
  rcases Nat.lt_or_ge body.length hexHeaderWidth with hshort | hbig
  · -- the header itself was read from too few characters
    obtain ⟨k, hk⟩ : ∃ k, hexHeaderWidth = body.length + (k + 1) :=
      ⟨hexHeaderWidth - body.length - 1, by omega⟩
    have hdrop : (body ++ 0 :: junk).drop hexHeaderWidth = junk.drop k := by
      rw [hk, List.drop_append, Nat.add_sub_cancel_left, List.drop_eq_nil_of_le (by omega),
        List.nil_append, List.drop_succ_cons]
    rw [hdrop]
    exact processDataRecord_fault thiz calls addr hexTypeDataRecord hlong
      fun hmem => hjunk (List.mem_of_mem_drop hmem)
  · have hdata := hbody.resolve_left (by omega)
    have hrest : 0 ∉ body.drop hexHeaderWidth := fun hmem => h.2 (List.mem_of_mem_drop hmem)
    rw [List.drop_append_of_le_length hbig]
    rcases processDataRecord_text thiz calls addr hexTypeDataRecord hlong hrest with
      ⟨hno, -⟩ | ⟨-, hfault⟩
    · exact absurd hdata hno
    · exact hfault junk hjunk

end Line

/-- **Which lines the parser does not leave.** -/
theorem staysInLine_iff (text : List UInt8) (h : 0 ∉ text) (hlen : text.length < lineBufSize) :
    StaysInLine text ↔ ¬ StepsOver text := by
  constructor
  · intro hstays hover
    obtain ⟨junk, hjunk⟩ : ∃ junk, junk = List.replicate (255 - text.length) (1 : UInt8) :=
      ⟨_, rfl⟩
    have hnul : 0 ∉ junk := by
      rw [hjunk]
      intro hmem
      have hone := List.eq_of_mem_replicate hmem
      revert hone
      decide
    have hsize : (text ++ 0 :: junk).length = lineBufSize := by
      rw [lineBufSize] at hlen
      rw [List.length_append, List.length_cons, hjunk, List.length_replicate, lineBufSize]
      omega
    obtain ⟨r, hr, -⟩ := hstays ⟨fun _ _ => .ok⟩ [] junk junk hsize hsize
    rw [hexParserProcessPerLine_over _ _ h hover hnul] at hr
    cases hr
  · intro hin thiz calls junk junk' _ _
    obtain ⟨r, hr⟩ := hexParserProcessPerLine_within thiz calls h hin
    exact ⟨r, hr junk, hr junk'⟩

/-- An end record is not left. -/
theorem staysInLine_endRecord :
    (0 ∉ literal ":00000001FF" ∧ (literal ":00000001FF").length < lineBufSize) ∧
      StaysInLine (literal ":00000001FF") := by
  refine ⟨by decide, (staysInLine_iff (literal ":00000001FF") (by decide) (by decide)).2 ?_⟩
  rintro ⟨body, dataLength, addr, htext, hheader, -⟩
  cases htext
  cases hheader

/-- **A header of five characters**: the checksum of the empty record is read from what stands two
characters behind the NUL. -/
theorem shortHeader_eq (thiz : HexParser) {stale : List UInt8} (hstale : 0 ∉ stale)
    {check : UInt32} (hscan : scanHexes [2] stale = [check]) (rest : List UInt8) :
    hexParserProcessPerLine thiz (literal ":0 0 0" ++ 0 :: 48 :: 48 :: (stale ++ 0 :: rest)) [] =
      if check &&& 0xFF ≠ 0 then .ok (.fail, [])
      else .ok (thiz.lineDataCb [] ⟨0, [], 0⟩, [⟨0, [], 0⟩]) := by
  have hline : literal ":0 0 0" = hexDelimiter :: literal "0 0 0" := rfl
  have hheader : scanHexes [2, 4, 2] (literal "0 0 0") = [0, 0, hexTypeDataRecord] := rfl
  have hdrop : (literal "0 0 0" ++ 0 :: 48 :: 48 :: (stale ++ 0 :: rest)).drop hexHeaderWidth =
      stale ++ 0 :: rest := rfl
  have hzero : (0 : UInt32).toNat = 0 := rfl
  have hsum : ((0 : UInt32) + (0 : UInt32) + ((0 : UInt32) >>> (8 : UInt32)) +
      hexTypeDataRecord).toUInt8.toUInt32 = 0 := rfl
  rw [hline, hexParserProcessPerLine_body thiz [] (by decide), hheader]
  dsimp only
  rw [if_pos rfl, hdrop, processDataRecord_eq thiz [] 0 hexTypeDataRecord (by decide)]
  simp only [hzero, readData, ok_bind, cString_text hstale, stored_some, hscan, hsum]
  rw [UInt32.zero_add]
  rfl

/-- **Two characters of an older line** are taken for the checksum, and decide whether the callback
is called. -/
theorem staysInLine_fails :
    ¬ StaysInLine (literal ":0 0 0") ∧
      (∀ (thiz : HexParser) (rest : List UInt8),
        hexParserProcessPerLine thiz (literal ":0 0 0" ++ 0 :: 48 :: 48 :: ([48, 48] ++ 0 :: rest))
          [] = .ok (thiz.lineDataCb [] ⟨0, [], 0⟩, [⟨0, [], 0⟩])) ∧
      ∀ (thiz : HexParser) (rest : List UInt8),
        hexParserProcessPerLine thiz (literal ":0 0 0" ++ 0 :: 48 :: 48 :: ([48, 49] ++ 0 :: rest))
          [] = .ok (.fail, []) := by
  have hzero : scanHexes [2] [48, 48] = [0] := rfl
  have hone : scanHexes [2] [48, 49] = [1] := rfl
  have hcalled (thiz : HexParser) (rest : List UInt8) :
      hexParserProcessPerLine thiz (literal ":0 0 0" ++ 0 :: 48 :: 48 :: ([48, 48] ++ 0 :: rest))
        [] = .ok (thiz.lineDataCb [] ⟨0, [], 0⟩, [⟨0, [], 0⟩]) :=
    (shortHeader_eq thiz (by decide) hzero rest).trans (if_neg (by decide))
  have hrefused (thiz : HexParser) (rest : List UInt8) :
      hexParserProcessPerLine thiz (literal ":0 0 0" ++ 0 :: 48 :: 48 :: ([48, 49] ++ 0 :: rest))
        [] = .ok (.fail, []) :=
    (shortHeader_eq thiz (by decide) hone rest).trans (if_pos (by decide))
  refine ⟨fun hstays => ?_, hcalled, hrefused⟩
  obtain ⟨rest, hrest⟩ : ∃ rest : List UInt8, rest = List.replicate 244 0 := ⟨_, rfl⟩
  have hsize (stale : List UInt8) (hstale : stale.length = 2) :
      (literal ":0 0 0" ++ 0 :: 48 :: 48 :: (stale ++ 0 :: rest)).length = lineBufSize := by
    have hline : (literal ":0 0 0").length = 6 := rfl
    rw [List.length_append, List.length_cons, List.length_cons, List.length_cons,
      List.length_append, List.length_cons, hline, hstale, hrest, List.length_replicate,
      lineBufSize]
  obtain ⟨r, hr, hr'⟩ := hstays ⟨fun _ _ => .ok⟩ [] _ _ (hsize [48, 48] rfl) (hsize [48, 49] rfl)
  rw [hcalled] at hr
  rw [hrefused] at hr'
  cases hr
  cases hr'

end Wsn
