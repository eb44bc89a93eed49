/-
**Reading a HEX file through a buffer of fixed size.**

`hex_parser_process_file` fetches its lines into `LINE_BUF_SIZE` characters.  A line that fits is
processed as it would be by itself: what an earlier line left in the buffer stands behind the NUL,
and the parser only looks there when the header of a data record is cut short.  A longer line is
cut, and its remainder becomes a further line.

Main definitions:

* `TextLine`, `fileOf` — lines without NUL, and the file they make;
* `processWholeLines` — the lines processed one by one, each by itself;
* `LineFits`, `FitsBuffer` — the lines that the buffer does not spoil;
* `HexRecord`, `RecordLine` — records of every type, and their lines.

Main results:

* `hexParserProcessPerLine_junk` — what stands behind the NUL does not matter;
* `processFile_agrees` — a file whose lines are not spoiled is read as its lines are, and for a file
  of records this is exactly when it is;
* `RecordLine.lineFits_iff` — which records are not spoiled.
-/

import WsnPlatform.HexRecord

set_option relaxedAutoImplicit false
set_option autoImplicit false

namespace Wsn

open CScan FixedBuffer

/-! ### Lines of text -/

/-- **A line of text**: what stands in front of its newline. -/
structure TextLine where
  chars : List UInt8
  no_newline : newline ∉ chars
  no_nul : 0 ∉ chars

/-- The line with its newline. -/
def TextLine.text (l : TextLine) : List UInt8 := l.chars ++ [newline]

/-- The file of these lines. -/
def fileOf (ls : List TextLine) : List UInt8 := ls.flatMap TextLine.text

/-- **The lines processed one by one**, each by itself, up to the first result other than
`RET_OK`. -/
def processWholeLines (thiz : HexParser) : List TextLine → List LineData →
    Exec (Ret × List LineData)
  | [], calls => .ok (.ok, calls)
  | l :: ls, calls => do
      let r ← hexParserProcessPerLine thiz (l.text ++ [0]) calls
      if r.1 ≠ .ok then .ok r else processWholeLines thiz ls r.2

/-! ### What stands behind the NUL -/

/-- The rest of a line at the cursor: nothing, or characters with a newline at the end. -/
def LineRest (s : List UInt8) : Prop := 0 ∉ s ∧ (s = [] ∨ ∃ t, s = t ++ [newline])

theorem TextLine.lineRest (l : TextLine) : LineRest l.text := by
  refine ⟨?_, Or.inr ⟨l.chars, rfl⟩⟩
  have hnul := l.no_nul
  simp [TextLine.text, newline, hnul]

theorem LineRest.drop {s : List UInt8} (h : LineRest s) (k : ℕ) : LineRest (s.drop k) := by
  refine ⟨fun hmem => h.1 (List.mem_of_mem_drop hmem), ?_⟩
  rcases h.2 with rfl | ⟨t, rfl⟩
  · simp
  · rcases Nat.lt_or_ge t.length k with hlt | hle
    · left
      simp
      omega
    · right
      exact ⟨t.drop k, by rw [List.drop_append_of_le_length hle]⟩

theorem LineRest.cString {s : List UInt8} (h : LineRest s) (junk : List UInt8) :
    cString (s ++ 0 :: junk) = some s := by
  rw [cString_append h.1, cString_nul, Option.map_some, List.append_nil]

/-- A conversion needs a digit, and the newline is none: the cursor stays in the line. -/
theorem LineRest.two_le {s : List UInt8} (h : LineRest s) {r : UInt32 × List UInt8}
    (hscan : scanHex 2 s = some r) : 2 ≤ s.length := by
  obtain ⟨c, hc, d, hd⟩ := exists_digit_of_scanHex hscan
  rcases h.2 with rfl | ⟨t, rfl⟩
  · simp at hc
  · have hne : c ≠ newline := hexDigit?_ne hd rfl
    have hct : c ∈ t := by simpa [hne] using hc
    have hpos := List.length_pos_of_mem hct
    simp
    omega

/-- The loop over the data bytes stays in the line. -/
theorem readData_junk {s : List UInt8} (hs : LineRest s) (n : ℕ) (dataBuf : List UInt8)
    (calcSum : UInt8) :
    (∀ junk, readData n (s ++ 0 :: junk) dataBuf calcSum = .ok none) ∨
      ∃ s' dataBuf' calcSum', LineRest s' ∧ ∀ junk, readData n (s ++ 0 :: junk) dataBuf calcSum =
        .ok (some (s' ++ 0 :: junk, dataBuf', calcSum')) := by
  induction n generalizing s dataBuf calcSum with
  | zero => exact Or.inr ⟨s, dataBuf, calcSum, hs, fun _ => rfl⟩
  | succ n ih =>
      cases hscan : scanHex 2 s with
      | none =>
          left
          intro junk
          simp [readData, hs.cString, scanHexes, hscan]
      | some r =>
          have hdrop (junk : List UInt8) : (s ++ 0 :: junk).drop 2 = s.drop 2 ++ 0 :: junk :=
            List.drop_append_of_le_length (hs.two_le hscan)
          have hstep (junk : List UInt8) : readData (n + 1) (s ++ 0 :: junk) dataBuf calcSum =
              readData n (s.drop 2 ++ 0 :: junk) (dataBuf ++ [r.1.toUInt8])
                (calcSum.toUInt32 + r.1).toUInt8 := by
            simp only [readData, hs.cString, stored_some, ok_bind, scanHexes, hscan,
              hexDataUnitWidth, hdrop]
          simp only [hstep]
          exact ih (hs.drop 2) _ _

theorem processDataRecord_junk (thiz : HexParser) (dataLength addr type : UInt32)
    {s : List UInt8} (hs : LineRest s) (calls : List LineData) :
    ∃ r, ∀ junk, processDataRecord thiz dataLength addr type (s ++ 0 :: junk) calls = .ok r := by
  unfold processDataRecord
  split
  · exact ⟨_, fun _ => rfl⟩
  · rcases readData_junk hs dataLength.toNat [] (dataLength + addr + (addr >>> 8) + type).toUInt8
      with hnone | ⟨s', dataBuf, calcSum, hs', hsome⟩
    · simp only [hnone, ok_bind]
      exact ⟨_, fun _ => rfl⟩
    · simp only [hsome, ok_bind, hs'.cString, stored_some]
      split
      · split
        · exact ⟨_, fun _ => rfl⟩
        · exact ⟨_, fun _ => rfl⟩
      · exact ⟨_, fun _ => rfl⟩

/-- **A header cut short**: a line too short for its header that still converts to the header of a
data record.  The cursor then passes the NUL. -/
def HeaderCut (l : TextLine) : Prop :=
  ∃ s dataLength addr, l.text = hexDelimiter :: s ∧ s.length < hexHeaderWidth ∧
    scanHexes [2, 4, 2] s = [dataLength, addr, hexTypeDataRecord] ∧ dataLength.toNat < lineBufSize

/-- **What stands behind the NUL does not matter.** -/
theorem hexParserProcessPerLine_junk (thiz : HexParser) {l : TextLine} (hcut : ¬ HeaderCut l)
    (calls : List LineData) :
    ∃ r, ∀ junk, hexParserProcessPerLine thiz (l.text ++ 0 :: junk) calls = .ok r := by
  obtain ⟨c, s, htext⟩ : ∃ c s, l.text = c :: s :=
    List.exists_cons_of_ne_nil (by simp [TextLine.text])
  have hs : LineRest s := by
    have := l.lineRest.drop 1
    rwa [htext] at this
  simp only [htext, List.cons_append, hexParserProcessPerLine, hs.cString, stored_some, ok_bind]
  split
  · exact ⟨_, fun _ => rfl⟩
  · next hdelimiter =>
      split
      · next dataLength addr type hscan =>
          split
          · next htype =>
              subst htype
              rcases Nat.lt_or_ge s.length hexHeaderWidth with hshort | hlong
              · -- only a length that is rejected at once keeps the cursor from being read
                have hlength : lineBufSize ≤ dataLength.toNat := by
                  by_contra hlt
                  refine hcut ⟨s, dataLength, addr, ?_, hshort, hscan, by omega⟩
                  rw [htext, not_not.1 hdelimiter]
                simp only [processDataRecord, if_pos hlength]
                exact ⟨_, fun _ => rfl⟩
              · have hdrop (junk : List UInt8) : (s ++ 0 :: junk).drop hexHeaderWidth =
                    s.drop hexHeaderWidth ++ 0 :: junk := List.drop_append_of_le_length hlong
                simp only [hdrop]
                exact processDataRecord_junk thiz dataLength addr _ (hs.drop _) calls
          · split_ifs
            · exact ⟨_, fun _ => rfl⟩
            · exact ⟨_, fun _ => rfl⟩
            · exact ⟨_, fun _ => rfl⟩
      · exact ⟨_, fun _ => rfl⟩

/-! ### Fetching lines -/

/-- One turn of the loop over the file: the line stands in the buffer, with a NUL behind it. -/
theorem processFileLoop_step (thiz : HexParser) (fuel : ℕ) {fd fd' line : List UInt8}
    (hfgets : fgets lineBufSize fd = some (line, fd')) (hline : line.length < lineBufSize)
    (buf : List.Vector UInt8 lineBufSize) (calls : List LineData) :
    ∃ (buf' : List.Vector UInt8 lineBufSize) (junk : List UInt8),
      line.length + 1 + junk.length = lineBufSize ∧
        processFileLoop thiz (fuel + 1) buf fd calls =
          (do
            let r ← hexParserProcessPerLine thiz (line ++ 0 :: junk) calls
            if r.1 ≠ .ok then .ok r else processFileLoop thiz fuel buf' fd' r.2) := by
  have hroom : 0 + (line ++ [0]).length ≤ lineBufSize := by simpa using hline
  obtain ⟨buf', hcopy⟩ := copyAt_isSome buf hroom
  refine ⟨buf', buf.toList.drop (line.length + 1), ?_, ?_⟩
  · simp
    omega
  · have htoList : buf'.toList = line ++ 0 :: buf.toList.drop (line.length + 1) := by
      rw [toList_copyAt hcopy]
      simp
    simp only [processFileLoop, hfgets, hcopy, stored_some, ok_bind, htoList]

/-- A line of the file that fits the buffer. -/
theorem processFileLoop_fits (thiz : HexParser) {l : TextLine} (hfit : l.text.length < lineBufSize)
    (hcut : ¬ HeaderCut l) (fuel : ℕ) (buf : List.Vector UInt8 lineBufSize) (rest : List UInt8)
    (calls : List LineData) :
    ∃ buf', processFileLoop thiz (fuel + 1) buf (l.text ++ rest) calls =
      (do
        let r ← hexParserProcessPerLine thiz (l.text ++ [0]) calls
        if r.1 ≠ .ok then .ok r else processFileLoop thiz fuel buf' rest r.2) := by
  have hshort : l.chars.length < lineBufSize - 1 := by
    simp [TextLine.text] at hfit
    omega
  have hfgets : fgets lineBufSize (l.text ++ rest) = some (l.text, rest) := by
    rw [TextLine.text, List.append_assoc, fgets, if_neg (by simp)]
    exact congrArg some (fgetsLine_line l.no_newline hshort rest)
  obtain ⟨buf', junk, -, hstep⟩ := processFileLoop_step thiz fuel hfgets hfit buf calls
  obtain ⟨r, hr⟩ := hexParserProcessPerLine_junk thiz hcut calls
  refine ⟨buf', ?_⟩
  rw [hstep, hr junk, hr []]

/-- A longer line is cut. -/
theorem processFileLoop_cut (thiz : HexParser) {l : TextLine} (hlong : lineBufSize ≤ l.text.length)
    (fuel : ℕ) (buf : List.Vector UInt8 lineBufSize) (rest : List UInt8) (calls : List LineData) :
    ∃ buf', processFileLoop thiz (fuel + 1) buf (l.text ++ rest) calls =
      (do
        let r ← hexParserProcessPerLine thiz (l.text.take (lineBufSize - 1) ++ [0]) calls
        if r.1 ≠ .ok then .ok r
        else processFileLoop thiz fuel buf' (l.text.drop (lineBufSize - 1) ++ rest) r.2) := by
  have hle : lineBufSize - 1 ≤ l.chars.length := by
    simp [TextLine.text] at hlong
    omega
  have htake : l.text.take (lineBufSize - 1) = l.chars.take (lineBufSize - 1) := by
    rw [TextLine.text, List.take_append_of_le_length hle]
  have hdrop : l.text.drop (lineBufSize - 1) = l.chars.drop (lineBufSize - 1) ++ [newline] := by
    rw [TextLine.text, List.drop_append_of_le_length hle]
  have hfgets : fgets lineBufSize (l.text ++ rest) =
      some (l.text.take (lineBufSize - 1), l.text.drop (lineBufSize - 1) ++ rest) := by
    rw [htake, hdrop, List.append_assoc, TextLine.text, List.append_assoc, fgets, if_neg (by simp)]
    exact congrArg some (fgetsLine_cut l.no_newline hle _)
  have hlen : (l.text.take (lineBufSize - 1)).length = lineBufSize - 1 := by
    rw [List.length_take]
    omega
  obtain ⟨buf', junk, hjunk, hstep⟩ := processFileLoop_step thiz fuel hfgets
    (by rw [hlen]; decide) buf calls
  -- a cut line fills the buffer up to the NUL
  have hnil : junk = [] := by
    rw [hlen, lineBufSize] at hjunk
    exact List.length_eq_zero_iff.1 (by omega)
  rw [hnil] at hstep
  exact ⟨buf', hstep⟩

/-! ### Agreement -/

/-- **A line that the buffer does not spoil**: it fits, or its first 255 characters give what the
whole line gives, and that ends the file. -/
def LineFits (thiz : HexParser) (l : TextLine) (calls : List LineData) : Prop :=
  l.text.length < lineBufSize ∧ ¬ HeaderCut l ∨
    lineBufSize ≤ l.text.length ∧
      hexParserProcessPerLine thiz (l.text.take (lineBufSize - 1) ++ [0]) calls =
        hexParserProcessPerLine thiz (l.text ++ [0]) calls ∧
      ∀ calls', hexParserProcessPerLine thiz (l.text ++ [0]) calls ≠ .ok (.ok, calls')

/-- No line that is reached is spoiled. -/
def FitsBuffer (thiz : HexParser) : List TextLine → List LineData → Prop
  | [], _ => True
  | l :: ls, calls => LineFits thiz l calls ∧
      ∀ calls', hexParserProcessPerLine thiz (l.text ++ [0]) calls = .ok (.ok, calls') →
        FitsBuffer thiz ls calls'

/-- The loop reads the lines as they are. -/
def Agrees (thiz : HexParser) (ls : List TextLine) (calls : List LineData) : Prop :=
  ∀ lineBuf, hexParserProcessFile thiz lineBuf (fileOf ls) calls = processWholeLines thiz ls calls

theorem TextLine.text_length_pos (l : TextLine) : 0 < l.text.length := by
  simp [TextLine.text]

theorem FitsBuffer.processFileLoop {thiz : HexParser} {ls : List TextLine} {calls : List LineData}
    (h : FitsBuffer thiz ls calls) {fuel : ℕ} (hfuel : (fileOf ls).length < fuel)
    (buf : List.Vector UInt8 lineBufSize) :
    processFileLoop thiz fuel buf (fileOf ls) calls = processWholeLines thiz ls calls := by
  induction ls generalizing calls fuel buf with
  | nil =>
      obtain ⟨fuel, rfl⟩ : ∃ k, fuel = k + 1 := ⟨fuel - 1, by omega⟩
      rfl
  | cons l ls ih =>
      obtain ⟨fuel, rfl⟩ : ∃ k, fuel = k + 1 := ⟨fuel - 1, by omega⟩
      have hpos := l.text_length_pos
      have hrest : (fileOf ls).length < fuel := by
        simp only [fileOf, List.flatMap_cons, List.length_append] at hfuel ⊢
        omega
      have hfile : fileOf (l :: ls) = l.text ++ fileOf ls := List.flatMap_cons
      rw [hfile, processWholeLines]
      rcases h.1 with ⟨hfit, hcut⟩ | ⟨hlong, heq, hend⟩
      · obtain ⟨buf', hstep⟩ := processFileLoop_fits thiz hfit hcut fuel buf (fileOf ls) calls
        obtain ⟨r, hr⟩ := hexParserProcessPerLine_junk thiz hcut calls
        obtain ⟨ret, calls'⟩ := r
        rw [hstep, hr []]
        by_cases hret : ret = .ok
        · subst hret
          exact ih (h.2 calls' (hr [])) hrest buf'
        · simp [hret]
      · obtain ⟨buf', hstep⟩ := processFileLoop_cut thiz hlong fuel buf (fileOf ls) calls
        rw [hstep, heq]
        cases hr : hexParserProcessPerLine thiz (l.text ++ [0]) calls with
        | error e => rfl
        | ok r =>
            have hret : r.1 ≠ .ok := by
              intro hok
              exact hend r.2 (by rw [hr, ← hok])
            simp [hret]

/-- **A file whose lines are not spoiled is read as its lines are.** -/
theorem FitsBuffer.agrees {thiz : HexParser} {ls : List TextLine} {calls : List LineData}
    (h : FitsBuffer thiz ls calls) : Agrees thiz ls calls := by
  intro lineBuf
  exact h.processFileLoop (Nat.lt_succ_self _) lineBuf

/-! ### Files of records -/

/-- The two bytes of a word, the high byte first. -/
def wordBytes (v : UInt16) : List UInt8 := [(v >>> 8).toUInt8, v.toUInt8]

/-- **A record of the Intel HEX format**, of any type. -/
inductive HexRecord
  | data (r : DataRecord)
  | eof (address : UInt16)
  | extSegAddr (address value : UInt16)
  | startSegAddr (address cs ip : UInt16)
  | extLineAddr (address value : UInt16)
  | startLineAddr (address high low : UInt16)

namespace HexRecord

/-- The bytes of a record, checksum included. -/
def bytes : HexRecord → List UInt8
  | data r => r.bytes
  | eof address => checked (recordFront address 1 [])
  | extSegAddr address value => checked (recordFront address 2 (wordBytes value))
  | startSegAddr address cs ip => checked (recordFront address 3 (wordBytes cs ++ wordBytes ip))
  | extLineAddr address value => checked (recordFront address 4 (wordBytes value))
  | startLineAddr address high low =>
      checked (recordFront address 5 (wordBytes high ++ wordBytes low))

/-- What processing the line of a record does. -/
def processed (thiz : HexParser) : HexRecord → List LineData → Ret × List LineData
  | data r, calls => (thiz.lineDataCb calls r.lineData, calls ++ [r.lineData])
  | eof _, calls => (.stop, calls)
  | _, calls => (.ok, calls)

/-- A record on a line, whatever follows its digits. -/
theorem processPerLine (r : HexRecord) (thiz : HexParser) {digits rest tail : List UInt8}
    (hdigits : Spells digits r.bytes) (hrest : cString rest = some tail) (calls : List LineData) :
    hexParserProcessPerLine thiz (hexDelimiter :: (digits ++ rest)) calls =
      .ok (r.processed thiz calls) := by
  cases r with
  | data r => exact r.processPerLine thiz hdigits hrest calls
  | eof _ => exact hexParserProcessPerLine_other thiz hdigits (by decide) hrest calls
  | extSegAddr _ _ => exact hexParserProcessPerLine_other thiz hdigits (by decide) hrest calls
  | startSegAddr _ _ _ => exact hexParserProcessPerLine_other thiz hdigits (by decide) hrest calls
  | extLineAddr _ _ => exact hexParserProcessPerLine_other thiz hdigits (by decide) hrest calls
  | startLineAddr _ _ _ => exact hexParserProcessPerLine_other thiz hdigits (by decide) hrest calls

/-- Only data records are long. -/
theorem length_bytes_le (r : HexRecord) (h : ∀ d, r ≠ data d) : r.bytes.length ≤ 9 := by
  cases r with
  | data d => exact absurd rfl (h d)
  | _ => simp [bytes, checked, recordFront, wordBytes]

theorem five_le_length_bytes (r : HexRecord) : 5 ≤ r.bytes.length := by
  cases r <;> simp [bytes, DataRecord.bytes, checked, recordFront, wordBytes]

end HexRecord

/-- **The line of a record**: its digits, and perhaps a carriage return. -/
structure RecordLine where
  record : HexRecord
  digits : List UInt8
  spells : Spells digits record.bytes
  carriageReturn : Bool

namespace RecordLine

/-- What stands between the digits and the newline. -/
def pad (l : RecordLine) : List UInt8 := if l.carriageReturn then [13] else []

theorem length_pad_le (l : RecordLine) : l.pad.length ≤ 1 := by
  unfold pad
  split <;> simp

/-- The line as text. -/
def line (l : RecordLine) : TextLine where
  chars := hexDelimiter :: (l.digits ++ l.pad)
  no_newline := by
    have hdigits : (10 : UInt8) ∉ l.digits := l.spells.not_mem rfl
    unfold pad
    split <;> simp [hdigits, newline, hexDelimiter]
  no_nul := by
    have hdigits : (0 : UInt8) ∉ l.digits := l.spells.not_mem rfl
    unfold pad
    split <;> simp [hdigits, hexDelimiter]

theorem text_eq (l : RecordLine) :
    l.line.text = hexDelimiter :: (l.digits ++ (l.pad ++ [newline])) := by
  simp [TextLine.text, line]

/-- A record line is processed like its record. -/
theorem processPerLine (l : RecordLine) (thiz : HexParser) (calls : List LineData) :
    hexParserProcessPerLine thiz (l.line.text ++ [0]) calls = .ok (l.record.processed thiz calls) := by
  have hnul : 0 ∈ l.pad ++ [newline] ++ [0] := by simp
  rw [l.text_eq, List.cons_append, List.append_assoc]
  exact l.record.processPerLine thiz l.spells (if_pos hnul) calls

theorem not_headerCut (l : RecordLine) : ¬ HeaderCut l.line := by
  rintro ⟨s, _, _, htext, hshort, -⟩
  have hlen := l.spells.length
  have hbytes := l.record.five_le_length_bytes
  have hs : l.digits ++ (l.pad ++ [newline]) = s := by
    rw [l.text_eq] at htext
    exact (List.cons.inj htext).2
  have : s.length = l.digits.length + (l.pad.length + 1) := by rw [← hs]; simp
  unfold hexHeaderWidth at hshort
  omega

/-- A record whose line fits. -/
theorem lineFits_of_short (l : RecordLine) (thiz : HexParser) (h : l.record.bytes.length ≤ 126)
    (calls : List LineData) : LineFits thiz l.line calls := by
  have hlen := l.spells.length
  have hpad := l.length_pad_le
  refine Or.inl ⟨?_, l.not_headerCut⟩
  rw [l.text_eq, lineBufSize]
  simp only [List.length_cons, List.length_append, List.length_nil]
  omega

/-- What `fgets` takes of a line that does not fit. -/
theorem take_text (l : RecordLine) (h : 127 ≤ l.record.bytes.length) :
    l.line.text.take (lineBufSize - 1) = hexDelimiter :: l.digits.take (2 * 127) := by
  have hlen := l.spells.length
  have hwidth : lineBufSize - 1 = 2 * 127 + 1 := rfl
  rw [l.text_eq, hwidth, List.take_succ_cons, List.take_append_of_le_length (by omega)]

theorem le_length_text (l : RecordLine) (h : 127 ≤ l.record.bytes.length) :
    lineBufSize ≤ l.line.text.length := by
  have hlen := l.spells.length
  rw [l.text_eq, lineBufSize]
  simp only [List.length_cons, List.length_append, List.length_nil]
  omega

/-- A record with 122 data bytes loses the end of its line only. -/
theorem processPerLine_take_of_eq (l : RecordLine) (thiz : HexParser)
    (h : l.record.bytes.length = 127) (calls : List LineData) :
    hexParserProcessPerLine thiz (l.line.text.take (lineBufSize - 1) ++ [0]) calls =
      .ok (l.record.processed thiz calls) := by
  have hlen := l.spells.length
  rw [l.take_text h.ge, List.take_of_length_le (by omega), List.cons_append]
  exact l.record.processPerLine thiz l.spells (cString_nul []) calls

theorem length_bytes_of_data (l : RecordLine) {r : DataRecord} (hr : l.record = .data r) :
    l.record.bytes.length = r.data.length + 5 := by
  rw [hr]
  simp [HexRecord.bytes, r.bytes_eq]

/-- The digits that fit do not reach the checksum of a record with more data bytes. -/
theorem cut_rejected (l : RecordLine) (thiz : HexParser) {r : DataRecord}
    (hr : l.record = .data r) (h : 123 ≤ r.data.length) (calls : List LineData) :
    hexParserProcessPerLine thiz (hexDelimiter :: (l.digits.take (2 * 127) ++ [0])) calls =
      .ok (.fail, calls) := by
  have hbytes : l.record.bytes = r.bytes := by rw [hr]; rfl
  have hspells := l.spells.take 127
  rw [hbytes, r.bytes_eq] at hspells
  refine hexParserProcessPerLine_short thiz hspells ?_ (cString_nul []) (by simp) calls
  rw [r.toNat_length]
  exact (List.length_take_le _ _).trans h

/-- One with more loses digits, and is rejected. -/
theorem processPerLine_take_of_gt (l : RecordLine) (thiz : HexParser) {r : DataRecord}
    (hr : l.record = .data r) (h : 123 ≤ r.data.length) (calls : List LineData) :
    hexParserProcessPerLine thiz (l.line.text.take (lineBufSize - 1) ++ [0]) calls =
      .ok (.fail, calls) := by
  have hlength := l.length_bytes_of_data hr
  rw [l.take_text (by omega), List.cons_append]
  exact l.cut_rejected thiz hr h calls

/-- **The records that the buffer does not spoil**: at most 121 data bytes, or 122 when the callback
ends the file with them. -/
theorem lineFits_iff (l : RecordLine) (thiz : HexParser) (calls : List LineData) :
    LineFits thiz l.line calls ↔ ∀ r, l.record = .data r →
      r.data.length ≤ 121 ∨ r.data.length = 122 ∧ thiz.lineDataCb calls r.lineData ≠ .ok := by
  by_cases hdata : ∃ r, l.record = .data r
  · obtain ⟨r, hr⟩ := hdata
    have hlength := l.length_bytes_of_data hr
    have hproc : l.record.processed thiz calls =
        (thiz.lineDataCb calls r.lineData, calls ++ [r.lineData]) := by rw [hr]; rfl
    have honly : (∀ r', l.record = .data r' →
        r'.data.length ≤ 121 ∨ r'.data.length = 122 ∧ thiz.lineDataCb calls r'.lineData ≠ .ok) ↔
        (r.data.length ≤ 121 ∨ r.data.length = 122 ∧ thiz.lineDataCb calls r.lineData ≠ .ok) := by
      simp [hr]
    rw [honly]
    rcases Nat.lt_or_ge r.data.length 122 with hshort | hlong
    · exact iff_of_true (l.lineFits_of_short thiz (by omega) calls) (Or.inl (by omega))
    · have htext := l.le_length_text (by omega)
      have hnot : ¬ l.line.text.length < lineBufSize := by omega
      have h121 : ¬ r.data.length ≤ 121 := by omega
      unfold LineFits
      rw [l.processPerLine]
      simp only [hnot, htext, h121, false_and, true_and, false_or]
      rcases eq_or_lt_of_le hlong with h122 | hgt
      · rw [l.processPerLine_take_of_eq thiz (by omega), hproc]
        simp [← h122]
      · rw [l.processPerLine_take_of_gt thiz hr hgt, hproc]
        have hne : r.data.length ≠ 122 := by omega
        simp [hne]
  · have hshort := l.record.length_bytes_le fun d hd => hdata ⟨d, hd⟩
    refine iff_of_true (l.lineFits_of_short thiz (by omega) calls) ?_
    intro r hr
    exact absurd ⟨r, hr⟩ hdata

end RecordLine

/-- **The records processed one by one**, up to the first result other than `RET_OK`. -/
def processRecords (thiz : HexParser) : List HexRecord → List LineData → Ret × List LineData
  | [], calls => (.ok, calls)
  | r :: rs, calls =>
      if (r.processed thiz calls).1 ≠ .ok then r.processed thiz calls
      else processRecords thiz rs (r.processed thiz calls).2

/-- The lines of a file of records are processed like the records. -/
theorem processWholeLines_records (thiz : HexParser) (ls : List RecordLine)
    (calls : List LineData) :
    processWholeLines thiz (ls.map RecordLine.line) calls =
      .ok (processRecords thiz (ls.map RecordLine.record) calls) := by
  induction ls generalizing calls with
  | nil => rfl
  | cons l ls ih =>
      simp only [List.map_cons, processWholeLines, processRecords, l.processPerLine, ok_bind, ih]
      split <;> rfl

/-- A record is handed over or not, earlier calls stay. -/
theorem HexRecord.length_processed (r : HexRecord) (thiz : HexParser) (calls : List LineData) :
    calls.length ≤ (r.processed thiz calls).2.length ∧
      ((r.processed thiz calls).1 = .fail → calls.length < (r.processed thiz calls).2.length) := by
  cases r <;> simp [HexRecord.processed]

/-- Only the callback fails a file of records, and then it was called. -/
theorem length_processRecords (thiz : HexParser) (rs : List HexRecord) (calls : List LineData) :
    calls.length ≤ (processRecords thiz rs calls).2.length ∧
      ((processRecords thiz rs calls).1 = .fail →
        calls.length < (processRecords thiz rs calls).2.length) := by
  induction rs generalizing calls with
  | nil => simp [processRecords]
  | cons r rs ih =>
      have hr := r.length_processed thiz calls
      have hrs := ih (r.processed thiz calls).2
      unfold processRecords
      split
      · exact hr
      · exact ⟨hr.1.trans hrs.1, fun hfail => hr.1.trans_lt (hrs.2 hfail)⟩

/-- What is left of the line of a record with 122 data bytes. -/
def RecordLine.remainder (l : RecordLine) : TextLine where
  chars := l.pad
  no_newline := by
    unfold pad
    split <;> simp [newline]
  no_nul := by
    unfold pad
    split <;> simp

theorem RecordLine.drop_text (l : RecordLine) (h : l.record.bytes.length = 127) :
    l.line.text.drop (lineBufSize - 1) = l.remainder.text := by
  have hlen := l.spells.length
  have hwidth : lineBufSize - 1 = l.digits.length + 1 := by rw [hlen, h]; rfl
  rw [l.text_eq, hwidth, List.drop_succ_cons, List.drop_left]
  rfl

/-- It does not start a record. -/
theorem RecordLine.remainder_rejected (l : RecordLine) (thiz : HexParser) (calls : List LineData) :
    ¬ HeaderCut l.remainder ∧
      hexParserProcessPerLine thiz (l.remainder.text ++ [0]) calls = .ok (.fail, calls) := by
  obtain ⟨c, s, htext, hc⟩ : ∃ c s, l.remainder.text = c :: s ∧ c ≠ hexDelimiter := by
    unfold TextLine.text remainder pad
    split
    · exact ⟨13, [newline], rfl, by decide⟩
    · exact ⟨newline, [], rfl, by decide⟩
  constructor
  · rintro ⟨s', _, _, htext', -⟩
    rw [htext] at htext'
    exact hc (List.cons.inj htext').1
  · rw [htext]
    simp [hexParserProcessPerLine, hc]

/-- **A spoiled record fails the file**: its data was not handed over, or it was and the remainder
of its line is rejected. -/
theorem RecordLine.processFileLoop_spoiled (l : RecordLine) (thiz : HexParser)
    {calls : List LineData} (h : ¬ LineFits thiz l.line calls) (fuel : ℕ)
    (hfuel : l.line.text.length < fuel) (buf : List.Vector UInt8 lineBufSize) (rest : List UInt8) :
    ∃ calls', processFileLoop thiz fuel buf (l.line.text ++ rest) calls = .ok (.fail, calls') ∧
      (calls' = calls ∨
        (l.record.processed thiz calls).1 = .ok ∧ calls' = (l.record.processed thiz calls).2) := by
  rw [l.lineFits_iff] at h
  push Not at h
  obtain ⟨r, hr, hlong, hcb⟩ := h
  have hlength := l.length_bytes_of_data hr
  have htext := l.le_length_text (by omega)
  obtain ⟨fuel, rfl⟩ : ∃ k, fuel = k + 1 + 1 := ⟨fuel - 2, by unfold lineBufSize at htext; omega⟩
  obtain ⟨buf', hcut⟩ := processFileLoop_cut thiz htext (fuel + 1) buf rest calls
  rcases eq_or_lt_of_le (Nat.succ_le_of_lt hlong) with h122 | hgt
  · have hbytes : l.record.bytes.length = 127 := by omega
    have hok : (l.record.processed thiz calls).1 = .ok := by
      rw [hr]
      exact hcb h122.symm
    obtain ⟨hheader, hreject⟩ := l.remainder_rejected thiz (l.record.processed thiz calls).2
    have hfit : l.remainder.text.length < lineBufSize := by
      have := l.length_pad_le
      simp only [TextLine.text, remainder, lineBufSize, List.length_append, List.length_singleton]
      omega
    obtain ⟨buf'', hrest⟩ := processFileLoop_fits thiz hfit hheader fuel buf' rest
      (l.record.processed thiz calls).2
    refine ⟨(l.record.processed thiz calls).2, ?_, Or.inr ⟨hok, rfl⟩⟩
    rw [hcut, l.processPerLine_take_of_eq thiz hbytes, l.drop_text hbytes]
    simp only [ok_bind, hok, ne_eq, not_true_eq_false, if_false, hrest, hreject]
    rfl
  · refine ⟨calls, ?_, Or.inl rfl⟩
    rw [hcut, l.processPerLine_take_of_gt thiz hr hgt]
    rfl

/-- The loop on a file of records agrees with the records only when none of them is spoiled. -/
theorem fitsBuffer_of_processFileLoop {thiz : HexParser} {ls : List RecordLine}
    {calls : List LineData} {fuel : ℕ} {buf : List.Vector UInt8 lineBufSize}
    (hfuel : (fileOf (ls.map RecordLine.line)).length < fuel)
    (h : processFileLoop thiz fuel buf (fileOf (ls.map RecordLine.line)) calls =
      processWholeLines thiz (ls.map RecordLine.line) calls) :
    FitsBuffer thiz (ls.map RecordLine.line) calls := by
  induction ls generalizing calls fuel buf with
  | nil => trivial
  | cons l ls ih =>
      have hpos := l.line.text_length_pos
      have hfile : fileOf ((l :: ls).map RecordLine.line) =
          l.line.text ++ fileOf (ls.map RecordLine.line) := List.flatMap_cons
      rw [hfile, List.length_append] at hfuel
      rw [hfile] at h
      by_cases hfits : LineFits thiz l.line calls
      · refine ⟨hfits, fun calls' hok => ?_⟩
        rcases hfits with ⟨hfit, hcut⟩ | ⟨-, -, hend⟩
        · obtain ⟨fuel, rfl⟩ : ∃ k, fuel = k + 1 := ⟨fuel - 1, by omega⟩
          obtain ⟨buf', hstep⟩ := processFileLoop_fits thiz hfit hcut fuel buf
            (fileOf (ls.map RecordLine.line)) calls
          rw [hstep, List.map_cons, processWholeLines, hok] at h
          exact ih (by omega) h
        · exact absurd hok (hend calls')
      · obtain ⟨calls', hspoiled, hcalls⟩ := l.processFileLoop_spoiled thiz hfits fuel
          (by omega) buf (fileOf (ls.map RecordLine.line))
        have hrun := processWholeLines_records thiz (l :: ls) calls
        rw [← h, hspoiled, Except.ok.injEq] at hrun
        -- the whole lines fail only after one more call than the spoiled file makes
        rcases hcalls with rfl | ⟨hok, rfl⟩
        · have := (length_processRecords thiz ((l :: ls).map RecordLine.record) calls').2
          rw [← hrun] at this
          exact absurd (this rfl) (lt_irrefl _)
        · have := (length_processRecords thiz (ls.map RecordLine.record)
            (l.record.processed thiz calls).2).2
          have hrest : processRecords thiz ((l :: ls).map RecordLine.record) calls =
              processRecords thiz (ls.map RecordLine.record) (l.record.processed thiz calls).2 := by
            simp [processRecords, hok]
          rw [← hrest, ← hrun] at this
          exact absurd (this rfl) (lt_irrefl _)

/-- A file of records with at most 121 data bytes. -/
theorem fitsBuffer_of_short (thiz : HexParser) {ls : List RecordLine}
    (h : ∀ l ∈ ls, l.record.bytes.length ≤ 126) (calls : List LineData) :
    FitsBuffer thiz (ls.map RecordLine.line) calls := by
  induction ls generalizing calls with
  | nil => trivial
  | cons l ls ih =>
      refine ⟨l.lineFits_of_short thiz (h l (by simp)) calls, fun calls' _ => ?_⟩
      exact ih (fun l' hl' => h l' (List.mem_cons_of_mem l hl')) calls'

/-- **Reading a file agrees with parsing its lines** when no line that is reached is spoiled; for a
file of records this is also necessary. -/
theorem processFile_agrees (thiz : HexParser) :
    (∀ ls calls, FitsBuffer thiz ls calls → Agrees thiz ls calls) ∧
      ∀ (ls : List RecordLine) calls, Agrees thiz (ls.map RecordLine.line) calls ↔
        FitsBuffer thiz (ls.map RecordLine.line) calls := by
  constructor
  · intro ls calls h
    exact h.agrees
  · intro ls calls
    constructor
    · intro h
      exact fitsBuffer_of_processFileLoop (Nat.lt_succ_self _)
        (h (List.Vector.replicate lineBufSize 0))
    · intro h
      exact h.agrees

/-- The line of a record in upper case digits. -/
def RecordLine.ofRecord (r : HexRecord) : RecordLine := ⟨r, hexText r.bytes, spells_hexText _, false⟩

/-- A file of one short record. -/
theorem sampleRecord_agrees :
    Agrees acceptingParser [(RecordLine.ofRecord (.data sampleRecord)).line] [] := by
  have hshort : ∀ l ∈ [RecordLine.ofRecord (.data sampleRecord)], l.record.bytes.length ≤ 126 := by
    decide
  exact (processFile_agrees acceptingParser).1 _ _ (fitsBuffer_of_short acceptingParser hshort [])

/-- Any record with more than 122 data bytes is spoiled, whatever the callback answers. -/
theorem longRecord_disagrees (thiz : HexParser) (l : RecordLine) {r : DataRecord}
    (hr : l.record = .data r) (h : 123 ≤ r.data.length) (calls : List LineData) :
    ¬ Agrees thiz [l.line] calls := by
  intro hagrees
  have hfits : FitsBuffer thiz ([l].map RecordLine.line) calls :=
    fitsBuffer_of_processFileLoop (Nat.lt_succ_self _)
      (hagrees (List.Vector.replicate lineBufSize 0))
  rcases (l.lineFits_iff thiz calls).1 hfits.1 r hr with h121 | ⟨h122, -⟩
  · omega
  · omega

/-- A record of as many data bytes as its length can name. -/
def fullRecord : DataRecord := ⟨0, List.replicate 255 0, List.length_replicate.le⟩

/-- The file with this record alone is not read as its line is. -/
theorem fullRecord_disagrees :
    ¬ Agrees acceptingParser [(RecordLine.ofRecord (.data fullRecord)).line] [] :=
  longRecord_disagrees acceptingParser _ rfl
    (by rw [fullRecord, List.length_replicate]; omega) []

end Wsn
