/-
**Records of a HEX file.**

The module states the Intel HEX format apart from the parser: a record is a row of bytes, its
length, its address, its type, its data and a checksum that makes their sum zero, written with two
digits each behind a `':'`.  On a data record the parser undoes the encoding, whatever follows the
digits.  A digit that was replaced is noticed by the checksum, unless it stands where the checksum
is not looked at or changes what it is taken over.

Main definitions:

* `DataRecord`, `DataRecord.bytes` — a data record and its bytes;
* `DamagePasses` — the replaced digits that the parser does not notice.

Main results:

* `dataRecord_decodes` — a data record is decoded to what was encoded;
* `digitDamage_noticed_iff` — exactly which replaced digits are noticed.
-/

import WsnPlatform.HexParser

set_option relaxedAutoImplicit false
set_option autoImplicit false

namespace Wsn

open CScan

/-! ### Records as bytes -/

/-- Bytes with a checksum behind them, the two's complement of their sum. -/
def checked (front : List UInt8) : List UInt8 := front ++ [-front.sum]

theorem sum_checked (front : List UInt8) : (checked front).sum = 0 := by
  rw [checked, List.sum_append, List.sum_singleton, add_neg_cancel]

/-- The bytes of a record before its checksum. -/
def recordFront (address : UInt16) (type : UInt8) (data : List UInt8) : List UInt8 :=
  UInt8.ofNat data.length :: (address >>> 8).toUInt8 :: address.toUInt8 :: type :: data

/-- **A data record**: an address and at most 255 bytes. -/
structure DataRecord where
  address : UInt16
  data : List UInt8
  fits : data.length ≤ 255

namespace DataRecord

/-- The bytes of the record, checksum included. -/
def bytes (r : DataRecord) : List UInt8 := checked (recordFront r.address 0 r.data)

/-- What the callback is handed for it. -/
def lineData (r : DataRecord) : LineData where
  addr := Int32.ofNat r.address.toNat
  buf := r.data
  length := Int32.ofNat r.data.length

theorem bytes_eq (r : DataRecord) :
    r.bytes = UInt8.ofNat r.data.length :: (r.address >>> 8).toUInt8 :: r.address.toUInt8 :: 0 ::
      (r.data ++ [-(recordFront r.address 0 r.data).sum]) := rfl

theorem sum_bytes (r : DataRecord) : r.bytes.sum = 0 := sum_checked _

theorem toNat_length (r : DataRecord) : (UInt8.ofNat r.data.length).toNat = r.data.length := by
  have := r.fits
  rw [UInt8.toNat_ofNat']
  omega

end DataRecord

/-- The two halves of an address make the address. -/
theorem address_halves (address : UInt16) :
    256 * (address >>> 8).toUInt8.toNat + address.toUInt8.toNat = address.toNat := by
  have hlt := address.toNat_lt
  rw [UInt16.toNat_toUInt8, UInt16.toNat_toUInt8, UInt16.toNat_shiftRight,
    Nat.shiftRight_eq_div_pow]
  simp
  omega

theorem lineData_halves (r : DataRecord) :
    lineData (r.address >>> 8).toUInt8 r.address.toUInt8 r.data = r.lineData := by
  rw [lineData, address_halves]
  rfl

/-! ### Decoding -/

/-- A line of digits whose length fits its digits is judged by the sum of its bytes. -/
theorem hexParserProcessPerLine_exact (thiz : HexParser) {text data rest tail : List UInt8}
    {len hi lo check : UInt8} (h : Spells text (len :: hi :: lo :: 0 :: (data ++ [check])))
    (hlen : data.length = len.toNat) (hrest : cString rest = some tail) (calls : List LineData) :
    hexParserProcessPerLine thiz (hexDelimiter :: (text ++ rest)) calls =
      if (len :: hi :: lo :: 0 :: (data ++ [check])).sum = 0 then
        .ok (thiz.lineDataCb calls (lineData hi lo data), calls ++ [lineData hi lo data])
      else .ok (.fail, calls) := by
  have hsum : (len :: hi :: lo :: 0 :: (data ++ [check])).sum = len + hi + lo + data.sum + check := by
    simp only [List.sum_cons, List.sum_append, List.sum_nil]
    abel
  rw [hexParserProcessPerLine_data thiz h hlen hrest, hsum]

/-- The line of a data record hands its data over. -/
theorem DataRecord.processPerLine (r : DataRecord) (thiz : HexParser) {digits rest tail : List UInt8}
    (hdigits : Spells digits r.bytes) (hrest : cString rest = some tail) (calls : List LineData) :
    hexParserProcessPerLine thiz (hexDelimiter :: (digits ++ rest)) calls =
      .ok (thiz.lineDataCb calls r.lineData, calls ++ [r.lineData]) := by
  have hline := hexParserProcessPerLine_exact thiz hdigits r.toNat_length.symm hrest calls
  rw [← r.bytes_eq, if_pos r.sum_bytes, lineData_halves] at hline
  exact hline

/-- **A data record is decoded to what was encoded**, for digits of either case and whatever
follows them. -/
theorem dataRecord_decodes (thiz : HexParser) (r : DataRecord) {digits : List UInt8}
    (hdigits : Spells digits r.bytes) (trailing : List UInt8) (calls : List LineData) :
    ∃ d : LineData, d.addr.toInt = r.address.toNat ∧ d.buf = r.data ∧
      d.length.toInt = r.data.length ∧
      hexParserProcessPerLine thiz (hexDelimiter :: (digits ++ (trailing ++ [0]))) calls =
        .ok (thiz.lineDataCb calls d, calls ++ [d]) := by
  have hnul : 0 ∈ trailing ++ [0] := by simp
  have hrest : cString (trailing ++ [0]) = some _ := if_pos hnul
  have haddress := r.address.toNat_lt
  have hfits := r.fits
  refine ⟨r.lineData, Int32.toInt_ofNat_of_lt (by omega), rfl, Int32.toInt_ofNat_of_lt (by omega), ?_⟩
  exact r.processPerLine thiz hdigits hrest calls

/-- Two bytes for the address `0x0100`. -/
def sampleRecord : DataRecord := ⟨256, [171, 205], by simp⟩

/-- A callback that accepts everything. -/
def acceptingParser : HexParser := ⟨fun _ _ => .ok⟩

theorem sampleRecord_decodes :
    ∃ d : LineData, d.addr.toInt = sampleRecord.address.toNat ∧ d.buf = sampleRecord.data ∧
      d.length.toInt = sampleRecord.data.length ∧
      hexParserProcessPerLine acceptingParser
          (hexDelimiter :: (hexText sampleRecord.bytes ++ ([newline] ++ [0]))) [] =
        .ok (acceptingParser.lineDataCb [] d, [] ++ [d]) :=
  dataRecord_decodes acceptingParser sampleRecord (spells_hexText _) [newline] []

/-! ### A replaced digit -/

/-- The length that the digit `d` in place `i` makes of the length of `r`. -/
def DataRecord.damagedLength (r : DataRecord) (i d : ℕ) : ℕ :=
  if i = 0 then 16 * d + r.data.length % 16 else 16 * (r.data.length / 16) + d

/-- **The replaced digits that pass**: a type digit that names another type, and a length digit that
shortens the record to a part that sums up to zero. -/
def DamagePasses (r : DataRecord) (i d : ℕ) : Prop :=
  i = 7 ∧ 1 ≤ d ∧ d ≤ 5 ∨
    i < 2 ∧ r.damagedLength i d < r.data.length ∧
      UInt8.ofNat (r.damagedLength i d) + (r.address >>> 8).toUInt8 + r.address.toUInt8 +
        (r.data.take (r.damagedLength i d + 1)).sum = 0

/-- A sum that was zero is not once one of its terms is replaced by another. -/
theorem sum_set_ne_zero {bytes : List UInt8} (hsum : bytes.sum = 0) {k : ℕ} {b b' : UInt8}
    (hb : bytes[k]? = some b) (hne : b' ≠ b) : (bytes.set k b').sum ≠ 0 := by
  obtain ⟨hk, hget⟩ := List.getElem?_eq_some_iff.1 hb
  rw [List.sum_set', dif_pos hk, hget, hsum, zero_add]
  intro hzero
  exact hne (neg_add_eq_zero.1 hzero).symm

theorem exists_concat {n : ℕ} {l : List UInt8} (h : l.length = n + 1) :
    ∃ data check, l = data ++ [check] ∧ data.length = n := by
  have h0 : l ≠ [] := List.ne_nil_of_length_eq_add_one h
  exact ⟨l.dropLast, l.getLast h0, (List.dropLast_append_getLast h0).symm, by simp [h]⟩

/-- Another byte in the address, the data or the checksum leaves the length and the type alone. -/
theorem DataRecord.exists_set (r : DataRecord) (b' : UInt8) {k : ℕ}
    (hk : k = 1 ∨ k = 2 ∨ 4 ≤ k) :
    ∃ hi lo data check, r.bytes.set k b' =
        UInt8.ofNat r.data.length :: hi :: lo :: 0 :: (data ++ [check]) ∧
      data.length = r.data.length := by
  rcases hk with rfl | rfl | hk
  · exact ⟨b', _, _, _, rfl, rfl⟩
  · exact ⟨_, b', _, _, rfl, rfl⟩
  · obtain ⟨j, rfl⟩ := Nat.exists_eq_add_of_le' hk
    have hbody : ((r.data ++ [-(recordFront r.address 0 r.data).sum]).set j b').length =
        r.data.length + 1 := by simp
    obtain ⟨data, check, hset, hlength⟩ := exists_concat hbody
    refine ⟨(r.address >>> 8).toUInt8, r.address.toUInt8, data, check, ?_, hlength⟩
    rw [r.bytes_eq, ← hset]
    rfl

section Damage

variable (thiz : HexParser) {r : DataRecord} {digits rest lineEnd : List UInt8} {b' : UInt8}
  (hrest : cString rest = some lineEnd) (calls : List LineData)

/-- The line is rejected, and the callback is not called. -/
def Noticed (thiz : HexParser) (line : List UInt8) (calls : List LineData) : Prop :=
  hexParserProcessPerLine thiz line calls = .ok (.fail, calls)

include hrest

/-- Another byte in the address, the data or the checksum leaves the length alone and spoils the
sum. -/
theorem noticed_of_sum {k : ℕ} {b : UInt8} (hb : r.bytes[k]? = some b) (hne : b' ≠ b)
    (hk : k = 1 ∨ k = 2 ∨ 4 ≤ k) (h : Spells digits (r.bytes.set k b')) :
    Noticed thiz (hexDelimiter :: (digits ++ rest)) calls := by
  have hsum := sum_set_ne_zero r.sum_bytes hb hne
  obtain ⟨hi, lo, data, check, hset, hlength⟩ := r.exists_set b' hk
  rw [hset] at h hsum
  have hlen : data.length = (UInt8.ofNat r.data.length).toNat := by rw [r.toNat_length, hlength]
  unfold Noticed
  rw [hexParserProcessPerLine_exact thiz h hlen hrest, if_neg hsum]

/-- Another type decides alone. -/
theorem noticed_type_iff (hne : b' ≠ 0) (h : Spells digits (r.bytes.set 3 b')) :
    Noticed thiz (hexDelimiter :: (digits ++ rest)) calls ↔ otherResult b' = .fail := by
  rw [r.bytes_eq] at h
  unfold Noticed
  rw [hexParserProcessPerLine_other thiz h hne hrest]
  simp

/-- A greater length is not matched by digits. -/
theorem noticed_of_longer (hend : ∀ c ∈ lineEnd, isSpace c = true)
    (hlong : r.data.length < b'.toNat) (h : Spells digits (r.bytes.set 0 b')) :
    Noticed thiz (hexDelimiter :: (digits ++ rest)) calls := by
  rw [r.bytes_eq] at h
  refine hexParserProcessPerLine_short thiz h ?_ hrest hend calls
  simpa using hlong

/-- A smaller one takes a byte of the data for the checksum. -/
theorem noticed_shorter_iff (hshort : b'.toNat < r.data.length)
    (h : Spells digits (r.bytes.set 0 b')) :
    Noticed thiz (hexDelimiter :: (digits ++ rest)) calls ↔
      b' + (r.address >>> 8).toUInt8 + r.address.toUInt8 + (r.data.take (b'.toNat + 1)).sum ≠ 0 := by
  have hcut (check : UInt8) : r.data ++ [check] =
      r.data.take b'.toNat ++ r.data[b'.toNat] :: (r.data.drop (b'.toNat + 1) ++ [check]) := by
    rw [← List.cons_append, ← List.append_assoc, ← List.drop_eq_getElem_cons hshort,
      List.take_append_drop]
  have hlen : (r.data.take b'.toNat).length = b'.toNat := by simp; omega
  have hsum : (r.data.take (b'.toNat + 1)).sum = (r.data.take b'.toNat).sum + r.data[b'.toNat] := by
    rw [List.take_add_one, List.getElem?_eq_getElem hshort, List.sum_append]
    simp
  rw [r.bytes_eq, List.set_cons_zero, hcut] at h
  unfold Noticed
  rw [hexParserProcessPerLine_data thiz h hlen hrest, hsum, ← add_assoc]
  split
  · next hzero => simp [hzero]
  · next hne => simp [hne]

end Damage

/-- The byte that a replaced length digit makes. -/
theorem DataRecord.toNat_setHalf_length (r : DataRecord) {i d : ℕ} (hi : i < 2) (hd : d < 16) :
    (setHalf i (UInt8.ofNat r.data.length) d).toNat = r.damagedLength i d := by
  rw [toNat_setHalf i _ hd, r.toNat_length, damagedLength]
  obtain rfl | rfl : i = 0 ∨ i = 1 := by omega
  · rfl
  · rfl

/-- The type that a replaced type digit makes of a data record is accepted in the low digit only. -/
theorem otherResult_setHalf {i d : ℕ} (hi : i = 6 ∨ i = 7) (hd : d < 16) (h0 : d ≠ 0) :
    otherResult (setHalf i 0 d) = .fail ↔ ¬ (i = 7 ∧ 1 ≤ d ∧ d ≤ 5) := by
  have hpos := Nat.pos_of_ne_zero h0
  have hval := toNat_setHalf i 0 hd
  have hfail (b : UInt8) : otherResult b = .fail ↔ ¬ (1 ≤ b.toNat ∧ b.toNat ≤ 5) := by
    simp only [otherResult, ← UInt8.toNat_inj, UInt8.reduceToNat]
    split_ifs <;> simp <;> omega
  rw [hfail, hval]
  rcases hi with rfl | rfl
  · simp
    omega
  · simp

/-- **Exactly the replaced digits of `DamagePasses` go unnoticed.** -/
theorem digitDamage_noticed_iff (thiz : HexParser) (r : DataRecord) {digits : List UInt8}
    (hdigits : Spells digits r.bytes) {i : ℕ} {c c' : UInt8} {d d' : ℕ} (hi : digits[i]? = some c)
    (hd : hexDigit? c = some d) (hd' : hexDigit? c' = some d') (hne : d ≠ d')
    {lineEnd : List UInt8} (hend : ∀ c ∈ lineEnd, isSpace c = true) (junk : List UInt8)
    (calls : List LineData) :
    Noticed thiz (hexDelimiter :: (digits.set i c' ++ (lineEnd ++ 0 :: junk))) calls ↔
      ¬ DamagePasses r i d' := by
  have hnul : 0 ∉ lineEnd := by
    intro hmem
    have := hend 0 hmem
    simp [isSpace] at this
  have hrest : cString (lineEnd ++ 0 :: junk) = some lineEnd := by
    rw [cString_append hnul, cString_nul, Option.map_some, List.append_nil]
  have hd16 := hexDigit?_lt hd'
  obtain ⟨b, hb, hbne, hset⟩ := hdigits.set_digit hi hd hd' hne
  have hfield : i < 2 ∨ i / 2 = 3 ∨ (i / 2 = 1 ∨ i / 2 = 2 ∨ 4 ≤ i / 2) := by omega
  rcases hfield with hlength | htype | hsum
  · -- a length digit
    have h0 : i / 2 = 0 := by omega
    have h7 : i ≠ 7 := by omega
    rw [h0] at hb hset
    obtain rfl : UInt8.ofNat r.data.length = b := by simpa [r.bytes_eq] using hb
    have hval := r.toNat_setHalf_length hlength hd16
    have hofNat : UInt8.ofNat (r.damagedLength i d') = setHalf i (UInt8.ofNat r.data.length) d' := by
      rw [← hval, UInt8.ofNat_toNat]
    have hlen : r.damagedLength i d' ≠ r.data.length := by
      intro heq
      apply hbne
      rw [← UInt8.toNat_inj, hval, heq, r.toNat_length]
    simp only [DamagePasses, h7, hlength, false_and, true_and, false_or, hofNat]
    rcases Nat.lt_or_gt_of_ne hlen with hshort | hlong
    · rw [noticed_shorter_iff thiz hrest calls (by rwa [hval]) hset, hval]
      simp only [hshort, true_and, ne_eq]
    · refine iff_of_true (noticed_of_longer thiz hrest calls hend (by rwa [hval]) hset) ?_
      rintro ⟨hshort, -⟩
      exact absurd hshort (by omega)
  · -- a type digit
    have h2 : ¬ i < 2 := by omega
    rw [htype] at hb hset
    obtain rfl : 0 = b := by simpa [r.bytes_eq] using hb
    have h0 : d' ≠ 0 := by
      rintro rfl
      exact hbne (by simp [setHalf])
    rw [noticed_type_iff thiz hrest calls hbne hset, otherResult_setHalf (by omega) hd16 h0]
    simp only [DamagePasses, h2, false_and, or_false]
  · refine iff_of_true (noticed_of_sum thiz hrest calls hb hbne hsum hset) ?_
    rintro (⟨rfl, -⟩ | ⟨hlt, -⟩)
    · omega
    · omega

/-- The bytes `FF 00` for the address zero. -/
def twoBytes : DataRecord := ⟨0, [255, 0], by simp⟩

/-- Damage in the second data digit of `:02000000FF00FF`. -/
theorem twoBytes_damage_noticed :
    Noticed acceptingParser
        (hexDelimiter :: ((hexText twoBytes.bytes).set 9 65 ++ ([newline] ++ 0 :: []))) [] ↔
      ¬ DamagePasses twoBytes 9 10 :=
  digitDamage_noticed_iff acceptingParser twoBytes (spells_hexText _) (c := 70) (d := 15) rfl rfl rfl
    (by simp) (by simp [isSpace, newline]) [] []

/-- With the length `01` the line hands over `FF` alone, with the type `01` it ends the file. -/
theorem twoBytes_damage_passes :
    ¬ Noticed acceptingParser
        (hexDelimiter :: ((hexText twoBytes.bytes).set 1 49 ++ ([newline] ++ 0 :: []))) [] ∧
      ¬ Noticed acceptingParser
        (hexDelimiter :: ((hexText twoBytes.bytes).set 7 49 ++ ([newline] ++ 0 :: []))) [] := by
  have hlength : hexParserProcessPerLine acceptingParser
      (hexDelimiter :: ((hexText twoBytes.bytes).set 1 49 ++ ([newline] ++ 0 :: []))) [] =
        .ok (.ok, [⟨0, [255], 1⟩]) := by rfl
  have htype : hexParserProcessPerLine acceptingParser
      (hexDelimiter :: ((hexText twoBytes.bytes).set 7 49 ++ ([newline] ++ 0 :: []))) [] =
        .ok (.stop, []) := by rfl
  constructor
  · intro h
    rw [Noticed, hlength] at h
    cases h
  · intro h
    rw [Noticed, htype] at h
    cases h

end Wsn
