/-
**Saved captures: `src/module/pcap/pcap_save_file.c`.**

A capture file is a file header and then, for every packet, a packet header and its bytes.  The
header says how many bytes are there (`caplen`, at most 65535) and how long the packet was (`len`);
it is written by one function, and the bytes by another.

The numbers are in the byte order of the little-endian target, and `struct timeval` is two 32-bit
numbers.  The environment decides what `open`, `write`, `localtime` and `gettimeofday` return.

Main definitions:

* `Wsn.pcapFileCreate`, `Wsn.pcapFileWritePacket` — **the functions**;
* `Wsn.writePackets` — packets written one after the other, every `write` in full;
* `Wsn.readRecord`, `Wsn.readCapture` — a reader of capture files;
* `Wsn.ReadsBack` — the reader finds the packets that were written.

Main results:

* `Wsn.writePackets_eq` — what a run of writes leaves in the file;
* `Wsn.capture_readsBack_iff` — **a capture reads back** exactly when no packet is longer than
  65535.
-/

import WsnPlatform.ByteRecords
import WsnPlatform.Common

set_option relaxedAutoImplicit false
set_option autoImplicit false

namespace Wsn

open ByteRecords

/-! ### The headers -/

@[simp] def fileMagic : UInt32 := 0xa1b2c3d4
@[simp] def maxSnapLen : UInt32 := 65535
@[simp] def majorVersion : UInt16 := 2
@[simp] def minorVersion : UInt16 := 4

/-- `PcapFileHeader`. -/
structure PcapFileHeader where
  magic : UInt32
  versionMajor : UInt16
  versionMinor : UInt16
  thiszone : UInt32
  sigfigs : UInt32
  snaplen : UInt32
  linktype : UInt32

/-- The header in memory. -/
def PcapFileHeader.bytes (h : PcapFileHeader) : List UInt8 :=
  toBytes 4 h.magic.toNat ++ toBytes 2 h.versionMajor.toNat ++ toBytes 2 h.versionMinor.toNat ++
    toBytes 4 h.thiszone.toNat ++ toBytes 4 h.sigfigs.toNat ++ toBytes 4 h.snaplen.toNat ++
      toBytes 4 h.linktype.toNat

/-- `struct timeval`. -/
structure Timeval where
  tvSec : UInt32
  tvUsec : UInt32

/-- `PcapPacketHeader`. -/
structure PcapPacketHeader where
  ts : Timeval
  caplen : UInt32
  len : UInt32

/-- The header in memory. -/
def PcapPacketHeader.bytes (h : PcapPacketHeader) : List UInt8 :=
  toBytes 4 h.ts.tvSec.toNat ++ (toBytes 4 h.ts.tvUsec.toNat ++ (toBytes 4 h.caplen.toNat ++
    toBytes 4 h.len.toNat))

theorem PcapFileHeader.length_bytes (h : PcapFileHeader) : h.bytes.length = 24 := by
  simp [PcapFileHeader.bytes]

theorem PcapPacketHeader.length_bytes (h : PcapPacketHeader) : h.bytes.length = 16 := by
  simp [PcapPacketHeader.bytes]

/-! ### The functions -/

/-- What the environment makes a `write` do: fail, take some of the bytes, or take all of them. -/
inductive WriteChoice
  | error
  | short (k : ℕ)
  | full

/-- `write` at the end of a file: what it returns, and the file after it. -/
def writeFile (choice : WriteChoice) (file bytes : List UInt8) : ℤ × List UInt8 :=
  match choice with
  | .error => (-1, file)
  | .short k => ((bytes.take k).length, file ++ bytes.take k)
  | .full => (bytes.length, file ++ bytes)

/-- `pcap_file_write_file_header`. -/
def pcapFileWriteFileHeader (choice : WriteChoice) (file : List UInt8) (linktype : Int32) :
    ℤ × List UInt8 :=
  let fileHeader : PcapFileHeader :=
    { magic := fileMagic
      versionMajor := majorVersion
      versionMinor := minorVersion
      thiszone := 0
      sigfigs := 0
      snaplen := maxSnapLen
      linktype := linktype.toUInt32 }
  writeFile choice file fileHeader.bytes

/-- `pcap_file_write_packet_header`, at the time `tv`. -/
def pcapFileWritePacketHeader (choice : WriteChoice) (file : List UInt8) (packetLen : UInt32)
    (tv : Timeval) : ℤ × List UInt8 :=
  let capLen := if packetLen > maxSnapLen then maxSnapLen else packetLen
  let packetHeader : PcapPacketHeader := { ts := tv, caplen := capLen, len := packetLen }
  writeFile choice file packetHeader.bytes

/-- The fields of `struct tm` that the name of a file is made of. -/
structure Tm where
  tmYear : ℤ
  tmMon : ℤ
  tmMday : ℤ
  tmHour : ℤ
  tmMin : ℤ
  tmSec : ℤ

/-- The name of the file. -/
def pcapFileName (dir : Option String) (timeStruct : Tm) : String :=
  let buffer := "_".intercalate
    ([timeStruct.tmYear + 1900, timeStruct.tmMon + 1, timeStruct.tmMday, timeStruct.tmHour,
      timeStruct.tmMin, timeStruct.tmSec].map toString) ++ ".pcap"
  match dir with
  | none => buffer
  | some dir => dir ++ "/" ++ buffer

/-- What `pcap_file_create` shows. -/
structure PcapCreated where
  fileName : String
  fd : ℤ
  /-- What is in the file that has been truncated. -/
  file : List UInt8

/-- **`pcap_file_create`**.  The `open` returns `fd`. -/
def pcapFileCreate (dir : Option String) (timeStruct : Tm) (fd : ℤ) (choice : WriteChoice)
    (linktype : Int32) : PcapCreated :=
  let fileName := pcapFileName dir timeStruct
  if fd = -1 then ⟨fileName, -1, []⟩
  else ⟨fileName, fd, (pcapFileWriteFileHeader choice [] linktype).2⟩

/-- **`pcap_file_write_packet`**.  The second `write` reads as many bytes from the packet as its
length says, and not as many as the header does. -/
def pcapFileWritePacket (header body : WriteChoice) (file packet : List UInt8) (packetLen : Int32)
    (tv : Timeval) : Exec (ℤ × List UInt8) :=
  let r := pcapFileWritePacketHeader header file packetLen.toUInt32 tv
  if r.1 = -1 then .ok r
  else
    let count := packetLen.toUInt32.toNat
    if count ≤ packet.length then .ok (writeFile body r.2 (packet.take count))
    else .error .outOfBounds

/-- A packet, and the time at which it is saved. -/
abbrev TimedBytes := Timeval × List UInt8

/-- **Packets saved one after the other**, every `write` in full. -/
def writePackets (file : List UInt8) (packets : List TimedBytes) : Exec (List UInt8) :=
  packets.foldlM (fun file p => do
    let r ← pcapFileWritePacket .full .full file p.2 (Int32.ofNat p.2.length) p.1
    .ok r.2) file

/-! ### A reader -/

/-- What a reader finds in one record. -/
structure PcapRecord where
  tvSec : ℕ
  tvUsec : ℕ
  len : ℕ
  data : List UInt8

/-- One record: a packet header, and as many bytes as its `caplen` says. -/
def readRecord (bs : List UInt8) : Option (PcapRecord × List UInt8) :=
  let caplen := field bs 8 4
  if bs.length < 16 + caplen then none
  else some (⟨field bs 0 4, field bs 4 4, field bs 12 4, (bs.drop 16).take caplen⟩,
    (bs.drop 16).drop caplen)

/-- **The reader**: it skips the file header, and reads records until the end of the file. -/
def readCapture (file : List UInt8) : Option (List PcapRecord) :=
  if file.length < 24 then none else readAll readRecord file.length (file.drop 24)

/-- **A capture reads back**: one record for each packet, in order, with the length of the packet
and its first bytes. -/
def ReadsBack (file : List UInt8) (packets : List TimedBytes) : Prop :=
  ∃ file' records, writePackets file packets = .ok file' ∧ readCapture file' = some records ∧
    records.map (fun r => (r.len, r.data)) =
      packets.map fun p => (p.2.length, p.2.take maxSnapLen.toNat)

/-! ### What is in the file -/

theorem toNat_maxSnapLen : maxSnapLen.toNat = 65535 := rfl

/-- The header that is written for a packet. -/
def packetHeaderOf (p : TimedBytes) : PcapPacketHeader where
  ts := p.1
  caplen := .ofNat (min p.2.length maxSnapLen.toNat)
  len := .ofNat p.2.length

/-- What is written for a packet. -/
def recordBytes (p : TimedBytes) : List UInt8 := (packetHeaderOf p).bytes ++ p.2

theorem length_recordBytes (p : TimedBytes) : (recordBytes p).length = 16 + p.2.length := by
  rw [recordBytes, List.length_append, PcapPacketHeader.length_bytes]

/-- The length of a packet as an `int`, and as the numbers it is converted to. -/
theorem toNat_packetLen {n : ℕ} (hn : n < 2 ^ 31) : (Int32.ofNat n).toUInt32.toNat = n := by
  have hsame : (Int32.ofNat n).toUInt32 = UInt32.ofNat n := rfl
  rw [hsame, UInt32.toNat_ofNat']
  omega

/-- The `caplen` of a packet. -/
theorem capLen_eq {n : ℕ} (hn : n < 2 ^ 31) :
    (if (Int32.ofNat n).toUInt32 > maxSnapLen then maxSnapLen else (Int32.ofNat n).toUInt32) =
      UInt32.ofNat (min n maxSnapLen.toNat) := by
  have hnat := toNat_packetLen hn
  have hgt : (Int32.ofNat n).toUInt32 > maxSnapLen ↔ 65535 < n := by
    rw [gt_iff_lt, UInt32.lt_iff_toNat_lt, hnat, toNat_maxSnapLen]
  rcases Nat.lt_or_ge 65535 n with hlong | hshort
  · rw [if_pos (hgt.2 hlong), toNat_maxSnapLen, Nat.min_eq_right hlong.le]
    rfl
  · rw [if_neg (mt hgt.1 (Nat.not_lt.2 hshort)), toNat_maxSnapLen, Nat.min_eq_left hshort]
    rfl

/-- **One packet** is written behind what is in the file. -/
theorem pcapFileWritePacket_full {p : TimedBytes} (hlen : p.2.length < 2 ^ 31)
    (file : List UInt8) :
    pcapFileWritePacket .full .full file p.2 (Int32.ofNat p.2.length) p.1 =
      .ok (p.2.length, file ++ recordBytes p) := by
  have hnat := toNat_packetLen hlen
  have hheader : pcapFileWritePacketHeader .full file (Int32.ofNat p.2.length).toUInt32 p.1 =
      (16, file ++ (packetHeaderOf p).bytes) := by
    simp only [pcapFileWritePacketHeader, capLen_eq hlen, writeFile, PcapPacketHeader.length_bytes]
    rfl
  simp only [pcapFileWritePacket, hheader, hnat, le_refl, if_true, List.take_length, writeFile,
    recordBytes, List.append_assoc]
  rfl

/-- **A run of writes** leaves the records of the packets, in order. -/
theorem writePackets_eq {packets : List TimedBytes} (hlen : ∀ p ∈ packets, p.2.length < 2 ^ 31)
    (file : List UInt8) :
    writePackets file packets = .ok (file ++ packets.flatMap recordBytes) := by
  induction packets generalizing file with
  | nil => rw [List.flatMap_nil, List.append_nil]; rfl
  | cons p packets ih =>
      have hrest := ih (fun q hq => hlen q (List.mem_cons_of_mem p hq)) (file ++ recordBytes p)
      rw [writePackets] at hrest ⊢
      rw [List.foldlM_cons, pcapFileWritePacket_full (hlen p (by simp)), ok_bind, ok_bind, hrest,
        List.flatMap_cons, List.append_assoc]

/-! ### Reading it -/

/-- The fields of a packet header are read back, in front of anything. -/
theorem PcapPacketHeader.fields (h : PcapPacketHeader) (rest : List UInt8) :
    field (h.bytes ++ rest) 0 4 = h.ts.tvSec.toNat ∧
      field (h.bytes ++ rest) 4 4 = h.ts.tvUsec.toNat ∧
      field (h.bytes ++ rest) 8 4 = h.caplen.toNat ∧
      field (h.bytes ++ rest) 12 4 = h.len.toNat := by
  have hsec := h.ts.tvSec.toNat_lt
  have husec := h.ts.tvUsec.toNat_lt
  have hcap := h.caplen.toNat_lt
  have hlen := h.len.toNat_lt
  simp only [PcapPacketHeader.bytes, List.append_assoc]
  refine ⟨?_, ?_, ?_, ?_⟩
  · have hfirst : h.ts.tvSec.toNat < 256 ^ 4 := hsec
    exact field_append List.length_nil hfirst _
  · exact field_append (length_toBytes 4 _) husec _
  · rw [← List.append_assoc]
    exact field_append (by simp) hcap _
  · rw [← List.append_assoc, ← List.append_assoc]
    exact field_append (by simp) hlen _

/-- What is read for a packet. -/
def recordOf (p : TimedBytes) : PcapRecord :=
  ⟨p.1.tvSec.toNat, p.1.tvUsec.toNat, p.2.length, p.2.take maxSnapLen.toNat⟩

/-- **The record of a packet**, in front of anything: what is left to read starts with the bytes
that the header does not count. -/
theorem readRecord_recordBytes {p : TimedBytes} (hlen : p.2.length < 2 ^ 31) (rest : List UInt8) :
    readRecord (recordBytes p ++ rest) =
      some (recordOf p, p.2.drop maxSnapLen.toNat ++ rest) := by
  obtain ⟨hsec, husec, hcap, hlenField⟩ := (packetHeaderOf p).fields (p.2 ++ rest)
  have hcap' : (packetHeaderOf p).caplen.toNat = min p.2.length maxSnapLen.toNat := by
    rw [packetHeaderOf, UInt32.toNat_ofNat']
    omega
  have hlen' : (packetHeaderOf p).len.toNat = p.2.length := by
    rw [packetHeaderOf, UInt32.toNat_ofNat']
    omega
  have hdrop : ((packetHeaderOf p).bytes ++ (p.2 ++ rest)).drop 16 = p.2 ++ rest :=
    List.drop_left' (packetHeaderOf p).length_bytes
  have hle : min p.2.length maxSnapLen.toNat ≤ p.2.length := Nat.min_le_left _ _
  have hfits : ¬ ((packetHeaderOf p).bytes ++ (p.2 ++ rest)).length <
      16 + min p.2.length maxSnapLen.toNat := by
    rw [List.length_append, PcapPacketHeader.length_bytes, List.length_append]
    omega
  rw [recordBytes, List.append_assoc, readRecord, hsec, husec, hcap, hlenField, hdrop, hcap', hlen']
  simp only [if_neg hfits, List.take_append_of_le_length hle, List.drop_append_of_le_length hle]
  rcases Nat.le_total p.2.length maxSnapLen.toNat with hshort | hlong
  · rw [Nat.min_eq_left hshort, List.take_length, List.drop_length, recordOf,
      List.take_of_length_le hshort, List.drop_of_length_le hshort]
    rfl
  · rw [Nat.min_eq_right hlong]
    rfl

/-- The number of bytes that a record takes. -/
def PcapRecord.size (r : PcapRecord) : ℕ := 16 + r.data.length

/-- A record takes as many bytes as its size says. -/
theorem readRecord_size {bs rest : List UInt8} {r : PcapRecord}
    (h : readRecord bs = some (r, rest)) : bs.length = r.size + rest.length := by
  rw [readRecord] at h
  split at h
  · cases h
  · rename_i hfits
    simp only [Option.some.injEq, Prod.mk.injEq] at h
    obtain ⟨rfl, rfl⟩ := h
    simp only [PcapRecord.size, List.length_take, List.length_drop]
    omega

/-- A file header that is written in full is 24 bytes. -/
theorem length_pcapFileWriteFileHeader (file : List UInt8) (linktype : Int32) :
    (pcapFileWriteFileHeader .full file linktype).2.length = file.length + 24 := by
  rw [pcapFileWriteFileHeader, writeFile, List.length_append, PcapFileHeader.length_bytes]

/-- The file that `pcapFileCreate` leaves is its header. -/
theorem length_pcapFileCreate (dir : Option String) (timeStruct : Tm) {fd : ℤ} (hfd : fd ≠ -1)
    (linktype : Int32) : (pcapFileCreate dir timeStruct fd .full linktype).file.length = 24 := by
  rw [pcapFileCreate, if_neg hfd, length_pcapFileWriteFileHeader, List.length_nil]

/-- The reader skips the header, and reads the records behind it. -/
theorem readCapture_append {header : List UInt8} (hheader : header.length = 24)
    (bs : List UInt8) :
    readCapture (header ++ bs) = readAll readRecord (24 + bs.length) bs := by
  have hlong : ¬ (header ++ bs).length < 24 := by
    rw [List.length_append, hheader]
    omega
  rw [readCapture, if_neg hlong, List.length_append, hheader, List.drop_left' hheader]

/-- Each record takes bytes, so that there are no more records than bytes. -/
theorem length_le_flatMap (packets : List TimedBytes) :
    packets.length ≤ (packets.flatMap recordBytes).length := by
  have hsum := List.length_le_sum_of_one_le (packets.map fun p => (recordBytes p).length)
    fun n hn => by
      obtain ⟨p, -, rfl⟩ := List.mem_map.1 hn
      rw [length_recordBytes]
      omega
  rwa [List.length_map, ← List.length_flatMap] at hsum

/-! ### When a capture reads back -/

/-- The records of packets that fit are read. -/
theorem readAll_records {packets : List TimedBytes} (hfit : ∀ p ∈ packets, p.2.length ≤ 65535)
    {fuel : ℕ} (hfuel : packets.length ≤ fuel) :
    readAll readRecord fuel (packets.flatMap recordBytes) = some (packets.map recordOf) := by
  refine readAll_flatMap (fun p hp => ⟨?_, fun rest => ?_⟩) hfuel
  · refine List.ne_nil_of_length_pos ?_
    rw [length_recordBytes]
    omega
  · have hp := hfit p hp
    rw [readRecord_recordBytes (by omega), toNat_maxSnapLen, List.drop_of_length_le hp,
      List.nil_append]

/-- The record that is read for a packet takes no more bytes than were written for it, and fewer if
the packet is long. -/
theorem size_recordOf_le (p : TimedBytes) : (recordOf p).size ≤ (recordBytes p).length := by
  rw [PcapRecord.size, recordOf, length_recordBytes, List.length_take]
  omega

theorem size_recordOf_lt {p : TimedBytes} (hlong : 65535 < p.2.length) :
    (recordOf p).size < (recordBytes p).length := by
  rw [PcapRecord.size, recordOf, length_recordBytes, List.length_take, toNat_maxSnapLen]
  omega

/-- **The bytes of the records that a reader finds** are as many as the bytes that were written: so
no packet is longer than what its header counts. -/
theorem fits_of_readAll {packets : List TimedBytes} {fuel : ℕ} {records : List PcapRecord}
    (hread : readAll readRecord fuel (packets.flatMap recordBytes) = some records)
    (hdata : records.map (fun r => (r.len, r.data)) =
      packets.map fun p => (p.2.length, p.2.take maxSnapLen.toNat)) :
    ∀ p ∈ packets, p.2.length ≤ 65535 := by
  have hsize := sum_size_of_readAll (fun _ _ _ => readRecord_size) hread
  have hrecords : records.map PcapRecord.size = packets.map fun p => (recordOf p).size := by
    have h := congrArg (List.map fun d : ℕ × List UInt8 => 16 + d.2.length) hdata
    rw [List.map_map, List.map_map] at h
    exact h
  rw [List.length_flatMap, hrecords] at hsize
  by_contra hlong
  push Not at hlong
  obtain ⟨p, hp, hlong⟩ := hlong
  have hlt := List.sum_lt_sum (fun p => (recordOf p).size) (fun p => (recordBytes p).length)
    (fun q _ => size_recordOf_le q) ⟨p, hp, size_recordOf_lt hlong⟩
  exact absurd hsize hlt.ne'

/-- Packets that are read back fit. -/
theorem fits_of_readsBack {header : List UInt8} (hheader : header.length = 24)
    {packets : List TimedBytes} (hlen : ∀ p ∈ packets, p.2.length < 2 ^ 31)
    (h : ReadsBack header packets) : ∀ p ∈ packets, p.2.length ≤ 65535 := by
  obtain ⟨file', records, hwrite, hread, hdata⟩ := h
  rw [writePackets_eq hlen] at hwrite
  cases hwrite
  rw [readCapture_append hheader] at hread
  exact fits_of_readAll hread hdata

/-- Packets that fit are read back. -/
theorem readsBack_of_fits {header : List UInt8} (hheader : header.length = 24)
    {packets : List TimedBytes} (hfit : ∀ p ∈ packets, p.2.length ≤ 65535) :
    ReadsBack header packets := by
  have hlen : ∀ p ∈ packets, p.2.length < 2 ^ 31 := fun p hp => by
    have hp := hfit p hp
    omega
  refine ⟨_, packets.map recordOf, writePackets_eq hlen _, ?_, ?_⟩
  · rw [readCapture_append hheader]
    refine readAll_records hfit ?_
    have hle := length_le_flatMap packets
    omega
  · rw [List.map_map]
    rfl

/-- **A capture reads back** exactly when no packet is longer than what a header counts. -/
theorem capture_readsBack_iff {dir : Option String} {timeStruct : Tm} {fd : ℤ} (hfd : fd ≠ -1)
    {linktype : Int32} {packets : List TimedBytes} (hlen : ∀ p ∈ packets, p.2.length < 2 ^ 31) :
    ReadsBack (pcapFileCreate dir timeStruct fd .full linktype).file packets ↔
      ∀ p ∈ packets, p.2.length ≤ 65535 := by
  have hheader := length_pcapFileCreate dir timeStruct hfd linktype
  exact ⟨fits_of_readsBack hheader hlen, readsBack_of_fits hheader⟩

/-- Two packets, one of them empty. -/
theorem capture_readsBack_two :
    ReadsBack (pcapFileCreate none ⟨124, 0, 1, 0, 0, 0⟩ 3 .full 195).file
      [(⟨0, 0⟩, [1, 2, 3]), (⟨1, 5⟩, [])] := by
  refine (capture_readsBack_iff (by decide) ?_).2 ?_
  · decide
  · decide

/-- **A packet of 65536 bytes** is counted as 65535, and the reader takes its last byte for the next
record. -/
theorem longPacket_not_readsBack :
    ¬ ReadsBack (pcapFileCreate none ⟨124, 0, 1, 0, 0, 0⟩ 3 .full 195).file
      [(⟨0, 0⟩, List.replicate 65536 0)] := by
  obtain ⟨bs, hbs⟩ : ∃ bs, bs = List.replicate 65536 (0 : UInt8) := ⟨_, rfl⟩
  have hlength : bs.length = 65536 := by rw [hbs, List.length_replicate]
  rw [← hbs]
  intro h
  have hlen : ∀ p ∈ [((⟨0, 0⟩ : Timeval), bs)], p.2.length < 2 ^ 31 := fun p hp => by
    rw [List.mem_singleton.1 hp, hlength]
    omega
  have hfit := fits_of_readsBack (length_pcapFileCreate _ _ (by decide) _) hlen h _
    (List.mem_singleton_self _)
  rw [hlength] at hfit
  omega

end Wsn
