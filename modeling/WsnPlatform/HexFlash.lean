/-
**The flash image of a HEX file.**

A data record names the low sixteen bits of an address; the records of extended addresses before it
name the base.  The parser accepts such a record and does nothing with it, so the callback is handed
the low bits alone.  The module keeps, beside what the callback is handed, the base under which each
data record stands, and says exactly when two bytes of the image end up in one place.

Main definitions:

* `handedRecords` — the data records that reach the callback, with their bases;
* `Placed` — a data byte, its absolute address and the place it is handed over at;
* `PlacesDistinct`, `BasesApart` — the claim on an image, and the condition for it.

Main results:

* `processFile_handed` — a file of records that is not rejected hands over exactly these records;
* `placesDistinct_iff` — distinct bytes stay distinct exactly when no place is used under two bases.
-/

import WsnPlatform.HexFile

set_option relaxedAutoImplicit false
set_option autoImplicit false

namespace Wsn

open CScan FixedBuffer

/-! ### The records that are handed over -/

/-- **The data records that reach the callback, with their bases**: those before the first end of
file record and up to the first answer other than `RET_OK`. -/
def handedRecords (thiz : HexParser) : List HexRecord → List LineData → ℕ → List (ℕ × DataRecord)
  | [], _, _ => []
  | .data r :: rs, calls, base =>
      (base, r) ::
        if thiz.lineDataCb calls r.lineData = .ok then
          handedRecords thiz rs (calls ++ [r.lineData]) base
        else []
  | .eof _ :: _, _, _ => []
  | .extSegAddr _ value :: rs, calls, _ => handedRecords thiz rs calls (value.toNat * 16)
  | .startSegAddr _ _ _ :: rs, calls, base => handedRecords thiz rs calls base
  | .extLineAddr _ value :: rs, calls, _ => handedRecords thiz rs calls (value.toNat * 2 ^ 16)
  | .startLineAddr _ _ _ :: rs, calls, base => handedRecords thiz rs calls base

/-- The calls that processing the records makes. -/
theorem processRecords_calls (thiz : HexParser) (rs : List HexRecord) (calls : List LineData)
    (base : ℕ) :
    (processRecords thiz rs calls).2 =
      calls ++ (handedRecords thiz rs calls base).map fun p => p.2.lineData := by
  induction rs generalizing calls base with
  | nil => simp [processRecords, handedRecords]
  | cons r rs ih =>
      cases r with
      | data r =>
          by_cases hcb : thiz.lineDataCb calls r.lineData = .ok
          · simp [processRecords, HexRecord.processed, handedRecords, hcb, ih _ base]
          · simp [processRecords, HexRecord.processed, handedRecords, hcb]
      | eof _ => simp [processRecords, HexRecord.processed, handedRecords]
      | extSegAddr _ value =>
          simp [processRecords, HexRecord.processed, handedRecords, ih _ (value.toNat * 16)]
      | startSegAddr _ _ _ =>
          simp [processRecords, HexRecord.processed, handedRecords, ih _ base]
      | extLineAddr _ value =>
          simp [processRecords, HexRecord.processed, handedRecords, ih _ (value.toNat * 2 ^ 16)]
      | startLineAddr _ _ _ =>
          simp [processRecords, HexRecord.processed, handedRecords, ih _ base]

/-! ### Files whose last line may lack its newline -/

/-- The file of these records; the last one, when there is one, has no line end. -/
def recordFile (ls : List RecordLine) (last : Option RecordLine) : List UInt8 :=
  fileOf (ls.map RecordLine.line) ++ (last.map fun l => hexDelimiter :: l.digits).getD []

/-- The records of the file. -/
def recordsOf (ls : List RecordLine) (last : Option RecordLine) : List HexRecord :=
  (ls ++ last.toList).map RecordLine.record

theorem RecordLine.newline_not_mem (l : RecordLine) : newline ∉ hexDelimiter :: l.digits := by
  have hdigits : (10 : UInt8) ∉ l.digits := l.spells.not_mem rfl
  simp [newline, hexDelimiter, hdigits]

/-- A last line without a newline, when the buffer holds it. -/
theorem RecordLine.processFileLoop_lastFits (l : RecordLine) (thiz : HexParser)
    (hshort : l.record.bytes.length < 128) (fuel : ℕ) (buf : List.Vector UInt8 lineBufSize)
    (calls : List LineData) :
    processFileLoop thiz (fuel + 2) buf (hexDelimiter :: l.digits) calls =
      .ok (l.record.processed thiz calls) := by
  have hlen := l.spells.length
  have hfit : (hexDelimiter :: l.digits).length < lineBufSize := by
    simp only [List.length_cons, lineBufSize]
    omega
  have hfgets : fgets lineBufSize (hexDelimiter :: l.digits) =
      some (hexDelimiter :: l.digits, []) := by
    rw [fgets, if_neg (by simp)]
    exact congrArg some (fgetsLine_last l.newline_not_mem (by omega))
  obtain ⟨buf', junk, -, hstep⟩ := processFileLoop_step thiz (fuel + 1) hfgets hfit buf calls
  have hline := l.record.processPerLine thiz l.spells (cString_nul junk) calls
  rw [hstep, List.cons_append, hline, ok_bind]
  split
  · rfl
  · next hok =>
      rw [not_not] at hok
      have hend : processFileLoop thiz (fuel + 1) buf' [] (l.record.processed thiz calls).2 =
          .ok (.ok, (l.record.processed thiz calls).2) := rfl
      rw [hend, ← hok]

/-- A last line that is cut is rejected. -/
theorem RecordLine.processFileLoop_lastCut (l : RecordLine) (thiz : HexParser)
    (hlong : 128 ≤ l.record.bytes.length) (fuel : ℕ) (buf : List.Vector UInt8 lineBufSize)
    (calls : List LineData) :
    processFileLoop thiz (fuel + 1) buf (hexDelimiter :: l.digits) calls = .ok (.fail, calls) := by
  have hlen := l.spells.length
  obtain ⟨r, hr⟩ : ∃ r, l.record = .data r := by
    by_contra hdata
    have := l.record.length_bytes_le fun d hd => hdata ⟨d, hd⟩
    omega
  have hdata := l.length_bytes_of_data hr
  have hwidth : lineBufSize - 1 = 2 * 127 + 1 := rfl
  have htake : (hexDelimiter :: l.digits).take (lineBufSize - 1) =
      hexDelimiter :: l.digits.take (2 * 127) := by rw [hwidth, List.take_succ_cons]
  have hfgets : fgets lineBufSize (hexDelimiter :: l.digits) =
      some (hexDelimiter :: l.digits.take (2 * 127),
        (hexDelimiter :: l.digits).drop (lineBufSize - 1)) := by
    have hcut := fgetsLine_cut l.newline_not_mem (m := lineBufSize - 1)
      (by simp only [List.length_cons, lineBufSize]; omega) []
    rw [List.append_nil, List.append_nil, htake] at hcut
    rw [fgets, if_neg (by simp), hcut]
  have hcutlen : (hexDelimiter :: l.digits.take (2 * 127)).length = lineBufSize - 1 := by
    simp only [List.length_cons, List.length_take, lineBufSize]
    omega
  obtain ⟨buf', junk, hjunk, hstep⟩ := processFileLoop_step thiz fuel hfgets
    (by rw [hcutlen]; decide) buf calls
  have hnil : junk = [] := by
    rw [hcutlen, lineBufSize] at hjunk
    exact List.length_eq_zero_iff.1 (by omega)
  rw [hstep, hnil, List.cons_append, l.cut_rejected thiz hr (by omega)]
  rfl

/-- A file of records starts with a line that the buffer does not spoil. -/
theorem RecordLine.processFileLoop_head {l : RecordLine} {thiz : HexParser} {calls : List LineData}
    (hfits : LineFits thiz l.line calls) (fuel : ℕ) (buf : List.Vector UInt8 lineBufSize)
    (rest : List UInt8) :
    ∃ buf', processFileLoop thiz (fuel + 1) buf (l.line.text ++ rest) calls =
      if (l.record.processed thiz calls).1 ≠ .ok then .ok (l.record.processed thiz calls)
      else processFileLoop thiz fuel buf' rest (l.record.processed thiz calls).2 := by
  rcases hfits with ⟨hfit, hcut⟩ | ⟨hlong, heq, hend⟩
  · obtain ⟨buf', hstep⟩ := processFileLoop_fits thiz hfit hcut fuel buf rest calls
    exact ⟨buf', by rw [hstep, l.processPerLine, ok_bind]⟩
  · obtain ⟨buf', hstep⟩ := processFileLoop_cut thiz hlong fuel buf rest calls
    have hne : (l.record.processed thiz calls).1 ≠ .ok := by
      intro hok
      exact hend (l.record.processed thiz calls).2 (by rw [l.processPerLine, ← hok])
    exact ⟨buf', by rw [hstep, heq, l.processPerLine, ok_bind, if_pos hne, if_pos hne]⟩

theorem processRecords_singleton (thiz : HexParser) (r : HexRecord) (calls : List LineData) :
    processRecords thiz [r] calls = r.processed thiz calls := by
  rw [processRecords]
  split
  · rfl
  · next hok =>
      rw [processRecords, ← not_not.1 hok]

/-- The last line of a file of records, which has no newline. -/
theorem processFileLoop_lastRecord {thiz : HexParser} {l : RecordLine}
    {calls calls' : List LineData} {ret : Ret} {fuel : ℕ} {buf : List.Vector UInt8 lineBufSize}
    (hfuel : (recordFile [] (some l)).length < fuel)
    (h : processFileLoop thiz fuel buf (recordFile [] (some l)) calls = .ok (ret, calls'))
    (hret : ret ≠ .fail) : processRecords thiz (recordsOf [] (some l)) calls = (ret, calls') := by
  have hfile : recordFile [] (some l) = hexDelimiter :: l.digits := by
    simp [recordFile, fileOf]
  have hlen := l.spells.length
  have hbytes := l.record.five_le_length_bytes
  rw [hfile] at h hfuel
  rw [List.length_cons] at hfuel
  obtain ⟨fuel, rfl⟩ : ∃ k, fuel = k + 2 := ⟨fuel - 2, by omega⟩
  rcases Nat.lt_or_ge l.record.bytes.length 128 with hshort | hlong
  · rw [l.processFileLoop_lastFits thiz hshort] at h
    have hone : recordsOf [] (some l) = [l.record] := rfl
    rw [hone, processRecords_singleton]
    exact Except.ok.inj h
  · rw [l.processFileLoop_lastCut thiz hlong] at h
    cases h
    exact absurd rfl hret

/-- The loop on a file of records that is not rejected does what the records say. -/
theorem processFileLoop_records {thiz : HexParser} {ls : List RecordLine}
    {last : Option RecordLine} {calls calls' : List LineData} {ret : Ret} {fuel : ℕ}
    {buf : List.Vector UInt8 lineBufSize} (hfuel : (recordFile ls last).length < fuel)
    (h : processFileLoop thiz fuel buf (recordFile ls last) calls = .ok (ret, calls'))
    (hret : ret ≠ .fail) : processRecords thiz (recordsOf ls last) calls = (ret, calls') := by
  induction ls generalizing calls fuel buf with
  | nil =>
      cases last with
      | none =>
          obtain ⟨fuel, rfl⟩ : ∃ k, fuel = k + 1 := ⟨fuel - 1, by omega⟩
          have hempty : processFileLoop thiz (fuel + 1) buf (recordFile [] none) calls =
              .ok (.ok, calls) := rfl
          rw [hempty] at h
          cases h
          rfl
      | some l => exact processFileLoop_lastRecord hfuel h hret
  | cons l ls ih =>
      have hfile : recordFile (l :: ls) last = l.line.text ++ recordFile ls last := by
        simp [recordFile, fileOf]
      have hpos := l.line.text_length_pos
      rw [hfile] at h hfuel
      rw [List.length_append] at hfuel
      obtain ⟨fuel, rfl⟩ : ∃ k, fuel = k + 1 := ⟨fuel - 1, by omega⟩
      by_cases hfits : LineFits thiz l.line calls
      · obtain ⟨buf', hstep⟩ := l.processFileLoop_head hfits fuel buf (recordFile ls last)
        rw [hstep] at h
        have hcons : recordsOf (l :: ls) last = l.record :: recordsOf ls last := rfl
        rw [hcons, processRecords]
        split at h
        · next hne =>
            rw [if_pos hne]
            exact Except.ok.inj h
        · next hok =>
            rw [if_neg hok]
            exact ih (by omega) h
      · obtain ⟨_, hspoiled, -⟩ := l.processFileLoop_spoiled thiz hfits (fuel + 1) (by omega) buf
          (recordFile ls last)
        rw [hspoiled] at h
        cases h
        exact absurd rfl hret

/-- **A file of records that is not rejected hands over its records**, up to the end of file record
or the first answer other than `RET_OK`. -/
theorem processFile_handed {thiz : HexParser} {ls : List RecordLine} {last : Option RecordLine}
    {lineBuf : List.Vector UInt8 lineBufSize} {ret : Ret} {calls : List LineData}
    (h : hexParserProcessFile thiz lineBuf (recordFile ls last) [] = .ok (ret, calls))
    (hret : ret ≠ .fail) :
    calls = (handedRecords thiz (recordsOf ls last) [] 0).map fun p => p.2.lineData := by
  have hrecords := processFileLoop_records (Nat.lt_succ_self _) h hret
  have hcalls := processRecords_calls thiz (recordsOf ls last) [] 0
  rw [hrecords, List.nil_append] at hcalls
  exact hcalls

/-! ### Places of bytes -/

/-- The record `p.2` under the base `p.1`, handed over as `d`, has a byte with the absolute address
`absolute`, and the callback is told to put it at `place`. -/
def Placed (p : ℕ × DataRecord) (d : LineData) (absolute : ℕ) (place : ℤ) : Prop :=
  ∃ j < p.2.data.length, absolute = p.1 + p.2.address.toNat + j ∧ place = d.addr.toInt + j

/-- **Distinct flash bytes stay distinct**: bytes with different absolute addresses are handed over
at different places. -/
def PlacesDistinct (handed : List (ℕ × DataRecord)) (calls : List LineData) : Prop :=
  ∀ x ∈ handed.zip calls, ∀ y ∈ handed.zip calls, ∀ absolute place absolute' place',
    Placed x.1 x.2 absolute place → Placed y.1 y.2 absolute' place' →
      absolute ≠ absolute' → place ≠ place'

/-- **No place is used under two bases**: bytes of records under different bases differ in the
address of their record plus their offset. -/
def BasesApart (handed : List (ℕ × DataRecord)) : Prop :=
  ∀ p ∈ handed, ∀ q ∈ handed, p.1 ≠ q.1 → ∀ j < p.2.data.length, ∀ k < q.2.data.length,
    p.2.address.toNat + j ≠ q.2.address.toNat + k

theorem DataRecord.toInt_addr (r : DataRecord) : r.lineData.addr.toInt = r.address.toNat := by
  have := r.address.toNat_lt
  exact Int32.toInt_ofNat_of_lt (by omega)

theorem mem_zip_handed {handed : List (ℕ × DataRecord)} {p : ℕ × DataRecord} {d : LineData} :
    (p, d) ∈ handed.zip (handed.map fun p => p.2.lineData) ↔ p ∈ handed ∧ d = p.2.lineData := by
  rw [← List.map_prod_left_eq_zip, List.mem_map]
  constructor
  · rintro ⟨q, hq, heq⟩
    cases heq
    exact ⟨hq, rfl⟩
  · rintro ⟨hp, rfl⟩
    exact ⟨p, hp, rfl⟩

theorem placesDistinct_of_handed (handed : List (ℕ × DataRecord)) :
    PlacesDistinct handed (handed.map fun p => p.2.lineData) ↔ BasesApart handed := by
  constructor
  · intro h p hp q hq hbase j hj k hk heq
    have hne : p.1 + p.2.address.toNat + j ≠ q.1 + q.2.address.toNat + k := by omega
    refine h (p, p.2.lineData) (mem_zip_handed.2 ⟨hp, rfl⟩) (q, q.2.lineData)
      (mem_zip_handed.2 ⟨hq, rfl⟩) _ _ _ _ ⟨j, hj, rfl, rfl⟩ ⟨k, hk, rfl, rfl⟩ hne ?_
    rw [p.2.toInt_addr, q.2.toInt_addr]
    omega
  · rintro h ⟨p, d⟩ hx ⟨q, e⟩ hy _ _ _ _ ⟨j, hj, rfl, rfl⟩ ⟨k, hk, rfl, rfl⟩ hne hplace
    obtain ⟨hp, hd⟩ := mem_zip_handed.1 hx
    obtain ⟨hq, he⟩ := mem_zip_handed.1 hy
    simp only [hd, he, DataRecord.toInt_addr] at hplace hne
    have hsame : p.2.address.toNat + j = q.2.address.toNat + k := by omega
    refine h p hp q hq ?_ j hj k hk hsame
    intro hbase
    omega

/-- **Distinct flash bytes stay distinct exactly when no place is used under two bases.** -/
theorem placesDistinct_iff {thiz : HexParser} {ls : List RecordLine} {last : Option RecordLine}
    {lineBuf : List.Vector UInt8 lineBufSize} {ret : Ret} {calls : List LineData}
    (h : hexParserProcessFile thiz lineBuf (recordFile ls last) [] = .ok (ret, calls))
    (hret : ret ≠ .fail) :
    calls = ((handedRecords thiz (recordsOf ls last) [] 0).map fun p => p.2.lineData) ∧
      (PlacesDistinct (handedRecords thiz (recordsOf ls last) [] 0) calls ↔
        BasesApart (handedRecords thiz (recordsOf ls last) [] 0)) := by
  have hcalls := processFile_handed h hret
  refine ⟨hcalls, ?_⟩
  rw [hcalls]
  exact placesDistinct_of_handed _

/-- A record that holds one byte for the address zero. -/
def lowByte : DataRecord := ⟨0, [1], by simp⟩

/-- The byte is given for `0` and, behind an extended linear address, for `0x10000`. -/
def twoBanks : List RecordLine :=
  [.ofRecord (.data lowByte), .ofRecord (.extLineAddr 0 1), .ofRecord (.data lowByte)]

theorem processFile_twoBanks (lineBuf : List.Vector UInt8 lineBufSize) :
    hexParserProcessFile acceptingParser lineBuf (recordFile twoBanks none) [] =
      .ok (.ok, [lowByte.lineData, lowByte.lineData]) := by
  have hshort : ∀ l ∈ twoBanks, l.record.bytes.length ≤ 126 := by decide
  have hfile : recordFile twoBanks none = fileOf (twoBanks.map RecordLine.line) := by
    simp [recordFile]
  have hagrees := (fitsBuffer_of_short acceptingParser hshort []).agrees lineBuf
  rw [hfile, hagrees, processWholeLines_records]
  rfl

theorem twoBanks_places :
    [lowByte.lineData, lowByte.lineData] =
        ((handedRecords acceptingParser (recordsOf twoBanks none) [] 0).map fun p => p.2.lineData) ∧
      (PlacesDistinct (handedRecords acceptingParser (recordsOf twoBanks none) [] 0)
          [lowByte.lineData, lowByte.lineData] ↔
        BasesApart (handedRecords acceptingParser (recordsOf twoBanks none) [] 0)) :=
  placesDistinct_iff (processFile_twoBanks (List.Vector.replicate lineBufSize 0)) (by decide)

/-- The parser accepts the file and puts both bytes in one place. -/
theorem twoBanks_collide :
    hexParserProcessFile acceptingParser (List.Vector.replicate lineBufSize 0)
        (recordFile twoBanks none) [] = .ok (.ok, [lowByte.lineData, lowByte.lineData]) ∧
      ¬ PlacesDistinct (handedRecords acceptingParser (recordsOf twoBanks none) [] 0)
        [lowByte.lineData, lowByte.lineData] := by
  refine ⟨processFile_twoBanks _, fun h => ?_⟩
  have hhanded : handedRecords acceptingParser (recordsOf twoBanks none) [] 0 =
      [(0, lowByte), (65536, lowByte)] := rfl
  rw [hhanded] at h
  exact h ((0, lowByte), lowByte.lineData) (by simp) ((65536, lowByte), lowByte.lineData) (by simp)
    0 0 65536 0 ⟨0, by decide, rfl, rfl⟩ ⟨0, by decide, rfl, rfl⟩ (by decide) rfl

end Wsn
