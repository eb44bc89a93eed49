/-
**The HEX file parser.**

`src/module/hex_parser/hex_parser.c` reads an Intel HEX file line by line and hands the bytes of
each data record to a callback.  A line is a character array; the parser moves a cursor over it by
fixed widths and reads the digits at the cursor with `sscanf`, so the model keeps the array from the
cursor on, what stands behind the terminating NUL included.  The callback belongs to the caller: its
answer may depend on what it was handed before.

Main definitions:

* `hexParserProcessPerLine` — one line; `readData` is its loop over the data bytes;
* `hexParserProcessFile` — the lines of a file, fetched into one buffer.

Main results:

* `readData_spells`, `readData_short` — the loop on digits, and on too few of them;
* `hexParserProcessPerLine_data`, `hexParserProcessPerLine_short`,
  `hexParserProcessPerLine_other` — one line of digits, for every type and every length.
-/

import WsnPlatform.CScan
import WsnPlatform.Common
import WsnPlatform.FixedBuffer

set_option relaxedAutoImplicit false
set_option autoImplicit false

namespace Wsn

open CScan FixedBuffer

/-! ### Constants -/

/-- `LINE_BUF_SIZE`. -/
def lineBufSize : ℕ := 256

/-- `':'`. -/
def hexDelimiter : UInt8 := 58

/-- `HEX_HEADER_WIDTH`. -/
def hexHeaderWidth : ℕ := 8

/-- `HEX_DATA_UNIT_WIDTH`. -/
def hexDataUnitWidth : ℕ := 2

/-- `HEX_TYPE_DATA_RECORD`. -/
def hexTypeDataRecord : UInt32 := 0

/-- `HEX_TYPE_EOF_RECORD`. -/
def hexTypeEofRecord : UInt32 := 1

/-- `HEX_TYPE_EXT_SEG_ADDR_RECORD`. -/
def hexTypeExtSegAddrRecord : UInt32 := 2

/-- `HEX_TYPE_START_SEG_ADDR_RECORD`. -/
def hexTypeStartSegAddrRecord : UInt32 := 3

/-- `HEX_TYPE_EXT_LINE_ADDR_RECORD`. -/
def hexTypeExtLineAddrRecord : UInt32 := 4

/-- `HEX_TYPE_START_LINE_ADDR_RECORD`. -/
def hexTypeStartLineAddrRecord : UInt32 := 5

/-! ### The parser -/

/-- What `line_data_cb` is handed: the address, the bytes stored in `data_buf`, and their number. -/
structure LineData where
  addr : Int32
  buf : List UInt8
  length : Int32
  deriving DecidableEq

/-- `HexParser`: the callback, whose answer may depend on what it was handed before. -/
structure HexParser where
  lineDataCb : List LineData → LineData → Ret

/-- **The loop over the data bytes**: `n` of them are still to read at the cursor `s`. -/
def readData : ℕ → List UInt8 → List UInt8 → UInt8 →
    Exec (Option (List UInt8 × List UInt8 × UInt8))
  | 0, s, dataBuf, calcSum => .ok (some (s, dataBuf, calcSum))
  | n + 1, s, dataBuf, calcSum => do
      let text ← stored (cString s)
      match scanHexes [2] text with
      | [data] =>
          readData n (s.drop hexDataUnitWidth) (dataBuf ++ [data.toUInt8])
            (calcSum.toUInt32 + data).toUInt8
      | _ => .ok none

/-- The case of a data record, with the cursor behind the header. -/
def processDataRecord (thiz : HexParser) (dataLength addr type : UInt32) (s : List UInt8)
    (calls : List LineData) : Exec (Ret × List LineData) :=
  if lineBufSize ≤ dataLength.toNat then .ok (.fail, calls)
  else do
    let calcSum := (dataLength + addr + (addr >>> 8) + type).toUInt8
    match ← readData dataLength.toNat s [] calcSum with
    | none => .ok (.fail, calls)
    | some (s, dataBuf, calcSum) =>
        let text ← stored (cString s)
        match scanHexes [2] text with
        | [checkSum] =>
            if (calcSum.toUInt32 + checkSum) &&& 0xFF ≠ 0 then .ok (.fail, calls)
            else
              let d := { addr := addr.toInt32, buf := dataBuf, length := dataLength.toInt32 }
              .ok (thiz.lineDataCb calls d, calls ++ [d])
        | _ => .ok (.fail, calls)

/-- **`hex_parser_process_per_line`**, on the array that starts at `line_buf`.  The line number is
left out, it is only printed. -/
def hexParserProcessPerLine (thiz : HexParser) (lineBuf : List UInt8) (calls : List LineData) :
    Exec (Ret × List LineData) :=
  match lineBuf with
  | [] => .error .outOfBounds
  | c :: s =>
      if c ≠ hexDelimiter then .ok (.fail, calls)
      else do
        let text ← stored (cString s)
        match scanHexes [2, 4, 2] text with
        | [dataLength, addr, type] =>
            if type = hexTypeDataRecord then
              processDataRecord thiz dataLength addr type (s.drop hexHeaderWidth) calls
            else if type = hexTypeEofRecord then .ok (.stop, calls)
            else if type = hexTypeExtSegAddrRecord ∨ type = hexTypeStartSegAddrRecord ∨
                type = hexTypeExtLineAddrRecord ∨ type = hexTypeStartLineAddrRecord then
              .ok (.ok, calls)
            else .ok (.fail, calls)
        | _ => .ok (.fail, calls)

/-! ### A line of digits -/

/-- **The loop on enough digits**: it stores the bytes and adds them to the sum. -/
theorem readData_spells {text data more rest tail : List UInt8} (h : Spells text (data ++ more))
    (hrest : cString rest = some tail) (dataBuf : List UInt8) (calcSum : UInt8) :
    ∃ text', Spells text' more ∧ readData data.length (text ++ rest) dataBuf calcSum =
      .ok (some (text' ++ rest, dataBuf ++ data, calcSum + data.sum)) := by
  induction data generalizing text dataBuf calcSum with
  | nil => exact ⟨text, h, by simp [readData]⟩
  | cons b data ih =>
      obtain ⟨text', hscan, hdrop, htext'⟩ := h.scanHex tail
      obtain ⟨text'', hmore, hloop⟩ := ih htext' (dataBuf ++ [b]) (calcSum + b)
      refine ⟨text'', hmore, ?_⟩
      simp only [List.length_cons, readData, h.cString hrest, stored_some, ok_bind, scanHexes,
        hscan, hexDataUnitWidth, hdrop]
      simpa [add_assoc] using hloop

/-- **The loop on too few digits** runs into the white space behind them. -/
theorem readData_short {text data rest tail : List UInt8} (h : Spells text data)
    (hrest : cString rest = some tail) (htail : ∀ c ∈ tail, isSpace c = true) {n : ℕ}
    (hn : data.length < n) (dataBuf : List UInt8) (calcSum : UInt8) :
    readData n (text ++ rest) dataBuf calcSum = .ok none := by
  induction data generalizing text n dataBuf calcSum with
  | nil =>
      obtain ⟨n, rfl⟩ : ∃ k, n = k + 1 := ⟨n - 1, by simp at hn; omega⟩
      cases h
      simp [readData, hrest, scanHexes, scanHex_space htail]
  | cons b data ih =>
      obtain ⟨n, rfl⟩ : ∃ k, n = k + 1 := ⟨n - 1, by simp at hn; omega⟩
      obtain ⟨text', hscan, hdrop, htext'⟩ := h.scanHex tail
      have hloop := ih htext' (n := n) (by simpa using hn) (dataBuf ++ [b]) (calcSum + b)
      simp only [readData, h.cString hrest, stored_some, ok_bind, scanHexes, hscan,
        hexDataUnitWidth, hdrop]
      simpa using hloop

/-- The header of a line of digits. -/
theorem scanHexes_header {text body : List UInt8} {len hi lo ty : UInt8}
    (h : Spells text (len :: hi :: lo :: ty :: body)) (tail : List UInt8) :
    ∃ text', scanHexes [2, 4, 2] (text ++ tail) =
        [len.toUInt32, UInt32.ofNat (256 * hi.toNat + lo.toNat), ty.toUInt32] ∧
      (∀ more, (text ++ more).drop hexHeaderWidth = text' ++ more) ∧ Spells text' body := by
  obtain ⟨text₁, hscan₁, hdrop₁, h₁⟩ := h.scanHex tail
  obtain ⟨text₂, hscan₂, hdrop₂, h₂⟩ := h₁.scanHex_four tail
  obtain ⟨text₃, hscan₃, hdrop₃, h₃⟩ := h₂.scanHex tail
  refine ⟨text₃, ?_, fun more => ?_, h₃⟩
  · simp only [scanHexes, hscan₁, hscan₂, hscan₃]
  · have hwidth : hexHeaderWidth = 2 + (4 + 2) := rfl
    rw [hwidth, ← List.drop_drop, ← List.drop_drop, hdrop₁, hdrop₂, hdrop₃]

/-- What the callback is handed for the bytes `data` of a record. -/
def lineData (hi lo : UInt8) (data : List UInt8) : LineData where
  addr := Int32.ofNat (256 * hi.toNat + lo.toNat)
  buf := data
  length := Int32.ofNat data.length

/-- The sum over the header, as `unsigned char`. -/
theorem headerSum (len hi lo : UInt8) :
    (len.toUInt32 + UInt32.ofNat (256 * hi.toNat + lo.toNat) +
      (UInt32.ofNat (256 * hi.toNat + lo.toNat) >>> 8) + hexTypeDataRecord).toUInt8 =
      len + lo + hi := by
  have hlen := len.toNat_lt
  have hhi := hi.toNat_lt
  have hlo := lo.toNat_lt
  have haddr : (UInt32.ofNat (256 * hi.toNat + lo.toNat)).toNat = 256 * hi.toNat + lo.toNat := by
    rw [UInt32.toNat_ofNat']
    omega
  have hshift : (UInt32.ofNat (256 * hi.toNat + lo.toNat) >>> 8).toNat = hi.toNat := by
    rw [UInt32.toNat_shiftRight, haddr, Nat.shiftRight_eq_div_pow]
    simp
    omega
  rw [← UInt8.toNat_inj]
  simp only [hexTypeDataRecord, UInt32.toNat_toUInt8, UInt32.toNat_add, UInt8.toNat_toUInt32,
    haddr, hshift, UInt8.toNat_add, UInt32.toNat_zero]
  omega

/-- The sum of the source is kept modulo 256. -/
theorem addToSum (calcSum : UInt8) (data : UInt32) :
    (calcSum.toUInt32 + data).toUInt8 = calcSum + data.toUInt8 := by
  rw [UInt32.toUInt8_add, UInt8.toUInt8_toUInt32]

/-- The check of the source is a check modulo 256. -/
theorem checkUnit_and (calcSum : UInt8) (check : UInt32) :
    (calcSum.toUInt32 + check) &&& 0xFF = 0 ↔ calcSum + check.toUInt8 = 0 := by
  have hmask : (0xFF : UInt32).toNat = 2 ^ 8 - 1 := rfl
  rw [← addToSum, ← UInt32.toNat_inj, ← UInt8.toNat_inj, UInt32.toNat_and, hmask,
    Nat.and_two_pow_sub_one_eq_mod, UInt32.toNat_toUInt8]
  rfl

theorem checkSum_and (calcSum check : UInt8) :
    (calcSum.toUInt32 + check.toUInt32) &&& 0xFF = 0 ↔ calcSum + check = 0 := by
  rw [checkUnit_and, UInt8.toUInt8_toUInt32]

/-- Two digits always name a length that fits the buffer. -/
theorem not_lineBufSize_le (len : UInt8) : ¬ lineBufSize ≤ len.toNat := by
  have := len.toNat_lt
  simp only [lineBufSize]
  omega

theorem toInt32_toUInt32 (len : UInt8) : len.toUInt32.toInt32 = Int32.ofNat len.toNat := by
  have hlen : len.toUInt32 = UInt32.ofNat len.toNat := by
    rw [← UInt32.toNat_inj, UInt8.toNat_toUInt32, UInt32.toNat_ofNat']
    have := len.toNat_lt
    omega
  rw [hlen, UInt32.toInt32_ofNat']

/-- What a record returns whose type is not that of data. -/
def otherResult (ty : UInt8) : Ret :=
  if ty = 1 then .stop else if ty = 2 ∨ ty = 3 ∨ ty = 4 ∨ ty = 5 then .ok else .fail

/-- A line of digits, up to its type. -/
theorem hexParserProcessPerLine_spells (thiz : HexParser) {text body rest tail : List UInt8}
    {len hi lo ty : UInt8} (h : Spells text (len :: hi :: lo :: ty :: body))
    (hrest : cString rest = some tail) (calls : List LineData) :
    ∃ text', Spells text' body ∧
      hexParserProcessPerLine thiz (hexDelimiter :: (text ++ rest)) calls =
        if ty = 0 then
          processDataRecord thiz len.toUInt32 (UInt32.ofNat (256 * hi.toNat + lo.toNat))
            hexTypeDataRecord (text' ++ rest) calls
        else .ok (otherResult ty, calls) := by
  obtain ⟨text', hscan, hdrop, htext'⟩ := scanHexes_header h tail
  refine ⟨text', htext', ?_⟩
  have h0 : ty.toUInt32 = hexTypeDataRecord ↔ ty = 0 := UInt8.toUInt32_inj (b := 0)
  have h1 : ty.toUInt32 = hexTypeEofRecord ↔ ty = 1 := UInt8.toUInt32_inj (b := 1)
  have h2 : ty.toUInt32 = hexTypeExtSegAddrRecord ↔ ty = 2 := UInt8.toUInt32_inj (b := 2)
  have h3 : ty.toUInt32 = hexTypeStartSegAddrRecord ↔ ty = 3 := UInt8.toUInt32_inj (b := 3)
  have h4 : ty.toUInt32 = hexTypeExtLineAddrRecord ↔ ty = 4 := UInt8.toUInt32_inj (b := 4)
  have h5 : ty.toUInt32 = hexTypeStartLineAddrRecord ↔ ty = 5 := UInt8.toUInt32_inj (b := 5)
  simp only [hexParserProcessPerLine, ne_eq, not_true_eq_false, if_false, h.cString hrest,
    stored_some, ok_bind, hscan, hdrop, h0, h1, h2, h3, h4, h5, otherResult]
  rcases eq_or_ne ty 0 with rfl | hdata
  · rfl
  · rw [if_neg hdata, if_neg hdata]
    split_ifs <;> rfl

/-- **A data record with all its digits** is handed over when its bytes sum up to zero. -/
theorem hexParserProcessPerLine_data (thiz : HexParser)
    {text data more rest tail : List UInt8} {len hi lo check : UInt8}
    (h : Spells text (len :: hi :: lo :: 0 :: (data ++ check :: more)))
    (hlen : data.length = len.toNat) (hrest : cString rest = some tail) (calls : List LineData) :
    hexParserProcessPerLine thiz (hexDelimiter :: (text ++ rest)) calls =
      if len + hi + lo + data.sum + check = 0 then
        .ok (thiz.lineDataCb calls (lineData hi lo data), calls ++ [lineData hi lo data])
      else .ok (.fail, calls) := by
  obtain ⟨text', htext', hline⟩ := hexParserProcessPerLine_spells thiz h hrest calls
  obtain ⟨text'', htext'', hloop⟩ := readData_spells htext' hrest [] (len + lo + hi)
  obtain ⟨_, hscan, -, -⟩ := htext''.scanHex tail
  have haddr : (UInt32.ofNat (256 * hi.toNat + lo.toNat)).toInt32 = (lineData hi lo data).addr := rfl
  have hlength : len.toUInt32.toInt32 = (lineData hi lo data).length := by
    rw [toInt32_toUInt32, ← hlen]
    rfl
  have hsum : len + lo + hi + data.sum + check = len + hi + lo + data.sum + check := by
    rw [add_right_comm len lo hi]
  rw [hlen, List.nil_append] at hloop
  rw [hline, if_pos rfl]
  simp only [processDataRecord, UInt8.toNat_toUInt32, if_neg (not_lineBufSize_le len), headerSum,
    hloop, ok_bind, htext''.cString hrest, stored_some, scanHexes, hscan, checkSum_and, ne_eq, hsum, ite_not,
    hlength, haddr]
  rfl

/-- **A data record with too few digits** is rejected. -/
theorem hexParserProcessPerLine_short (thiz : HexParser) {text body rest tail : List UInt8}
    {len hi lo : UInt8} (h : Spells text (len :: hi :: lo :: 0 :: body))
    (hbody : body.length ≤ len.toNat) (hrest : cString rest = some tail)
    (htail : ∀ c ∈ tail, isSpace c = true) (calls : List LineData) :
    hexParserProcessPerLine thiz (hexDelimiter :: (text ++ rest)) calls = .ok (.fail, calls) := by
  obtain ⟨text', htext', hline⟩ := hexParserProcessPerLine_spells thiz h hrest calls
  rw [hline, if_pos rfl]
  simp only [processDataRecord, UInt8.toNat_toUInt32, if_neg (not_lineBufSize_le len), headerSum]
  rcases Nat.lt_or_ge body.length len.toNat with hshort | hexact
  · rw [readData_short htext' hrest htail hshort]
    rfl
  · -- the digits end with the data, no checksum is left
    have hlen : body.length = len.toNat := le_antisymm hbody hexact
    have hspell : Spells text' (body ++ []) := by rwa [List.append_nil]
    obtain ⟨text'', htext'', hloop⟩ := readData_spells hspell hrest [] (len + lo + hi)
    cases htext''
    rw [hlen] at hloop
    simp only [hloop, ok_bind, List.nil_append, hrest, stored_some, scanHexes, scanHex_space htail]

/-- **A record of another type** is not looked into. -/
theorem hexParserProcessPerLine_other (thiz : HexParser) {text body rest tail : List UInt8}
    {len hi lo ty : UInt8} (h : Spells text (len :: hi :: lo :: ty :: body)) (hty : ty ≠ 0)
    (hrest : cString rest = some tail) (calls : List LineData) :
    hexParserProcessPerLine thiz (hexDelimiter :: (text ++ rest)) calls =
      .ok (otherResult ty, calls) := by
  obtain ⟨_, -, hline⟩ := hexParserProcessPerLine_spells thiz h hrest calls
  rw [hline, if_neg hty]

/-- The loop of `hex_parser_process_file`.  `line_buf` keeps what earlier lines left in it. -/
def processFileLoop (thiz : HexParser) : ℕ → List.Vector UInt8 lineBufSize → List UInt8 →
    List LineData → Exec (Ret × List LineData)
  | 0, _, _, _ => .error .diverges
  | fuel + 1, lineBuf, fd, calls =>
      match fgets lineBufSize fd with
      | none => .ok (.ok, calls)
      | some (line, fd) => do
          let lineBuf ← stored (copyAt lineBuf 0 (line ++ [0]))
          let r ← hexParserProcessPerLine thiz lineBuf.toList calls
          if r.1 ≠ .ok then .ok r else processFileLoop thiz fuel lineBuf fd r.2

/-- **`hex_parser_process_file`**, on a file with the content `fd` and with whatever `line_buf`
holds before the first line.  The result carries the calls of `line_data_cb`, in order. -/
def hexParserProcessFile (thiz : HexParser) (lineBuf : List.Vector UInt8 lineBufSize)
    (fd : List UInt8) (calls : List LineData) : Exec (Ret × List LineData) :=
  processFileLoop thiz (fd.length + 1) lineBuf fd calls

end Wsn
