/-
**Showing a captured packet: `src/module/pcap/pcap_packet_process.c`.**

`process_packet` prints what is known of a packet, a dump of its bytes, and its Ethernet, IP and TCP
headers.  libpcap hands it as many bytes as were captured (`caplen`), and says how long the packet
was (`len`).  The dump goes by `len`; the printers of the headers go by fixed offsets, whatever the
packet is.

The packet is the memory from its first byte on.  What a call does is a list of events: the offsets
that it reads, and what `printf` makes of its formats.

Main definitions:

* `printPayload` — the dump, and `printLines`, its loop;
* `printEtherHeader`, `printIpHeader`, `printTcpHeader` — the printers of the headers;
* `processPacket` — the function;
* `dumpLines` — the lines of a dump, as they can be read from the output;
* `PacketShown` — the captured bytes alone are read, and the dump shows them in order.

Main results:

* `dumpLines_payload` — what the dump shows;
* `reads_processPacket` — which offsets are read;
* `processPacket_shown_iff` — when a packet is shown as it was captured.
-/

import WsnPlatform.FixedBuffer
import WsnPlatform.PcapFile
import WsnPlatform.Reprogrammer

set_option relaxedAutoImplicit false
set_option autoImplicit false

namespace Wsn

open FixedBuffer

/-! ### Events -/

/-- What a call reads and prints. -/
inductive PrintEvent
  /-- The byte at the offset of the packet is read. -/
  | read (i : ℕ)
  | text (s : String)
  | newline
  /-- `%d` or `%u`. -/
  | decimal (n : ℤ)
  /-- `%02x`. -/
  | hex (b : UInt8)
  /-- `%04x`. -/
  | offset (n : ℕ)
  /-- `%c`. -/
  | character (c : UInt8)
  /-- What `inet_ntop` makes of four bytes. -/
  | address (bytes : List UInt8)

/-- The bytes from an offset on are read. -/
def readsAt (place count : ℕ) : List PrintEvent := (List.range count).map fun k => .read (place + k)

/-- A number that is told by some bytes, on a line of its own. -/
def printNumber (label : String) (place count : ℕ) (value : ℤ) (unit : String) : List PrintEvent :=
  readsAt place count ++ [.text label, .decimal value, .text unit, .newline]

/-- Bytes of the packet, from an offset on. -/
def bytesAt (packet : ℕ → UInt8) (place count : ℕ) : List UInt8 :=
  (List.range count).map fun k => packet (place + k)

/-! ### The dump -/

/-- `isprint` in the C locale. -/
def isPrint (c : UInt8) : Bool := 32 ≤ c ∧ c ≤ 126

/-- The bytes of a line, and extra space behind the eighth. -/
def printHexes (packet : ℕ → UInt8) (payload len : ℕ) : List PrintEvent :=
  (List.range len).flatMap fun i =>
    [.read (payload + i), .hex (packet (payload + i))] ++ if i = 7 then [.text " "] else []

/-- Spaces for the bytes that a line does not have. -/
def printGap (len : ℕ) : List PrintEvent :=
  if len < 16 then
    (if len < 8 then [.text " "] else []) ++ List.replicate (16 - len) (.text "   ")
  else []

/-- The bytes of a line as characters. -/
def printAscii (packet : ℕ → UInt8) (payload len : ℕ) : List PrintEvent :=
  (List.range len).flatMap fun i =>
    [.read (payload + i),
      if isPrint (packet (payload + i)) then .character (packet (payload + i)) else .text "."]

/-- `print_hex_ascii_line`. -/
def printHexAsciiLine (packet : ℕ → UInt8) (payload len offset : ℕ) : List PrintEvent :=
  .offset offset :: .text "   " :: (printHexes packet payload len ++ printGap len ++
    .text "   " :: printAscii packet payload len ++ [.newline])

/-- The loop of `print_payload`, and the line behind it. -/
def printLines (packet : ℕ → UInt8) (lineStart lenRemain offset : ℕ) : List PrintEvent :=
  if 16 < lenRemain then
    printHexAsciiLine packet lineStart 16 offset ++
      printLines packet (lineStart + 16) (lenRemain - 16) (offset + 16)
  else printHexAsciiLine packet lineStart lenRemain offset
termination_by lenRemain

/-- **`print_payload`**. -/
def printPayload (packet : ℕ → UInt8) (len : ℤ) : List PrintEvent :=
  if len ≤ 0 then []
  else
    [.text "---------------------- Payload ------------------------", .newline] ++
      printLines packet 0 len.toNat 0

/-! ### The headers -/

/-- `print_pcap_packet_info`. -/
def printPcapPacketInfo (count : ℤ) (refSec refUsec len : UInt32) : List PrintEvent :=
  [.text "----------------------- Packet ------------------------", .newline,
    .text "packet No: ", .decimal count, .newline,
    .text "packet second: ", .decimal refSec.toNat, .text ".", .decimal refUsec.toNat, .newline,
    .text "packet length: ", .decimal (toInt len.toNat), .newline]

/-- `MAC_ADDR_LEN`. -/
def macAddrLen : ℕ := 6

/-- The loop over an address of the Ethernet header. -/
def printMac (packet : ℕ → UInt8) (place : ℕ) : List PrintEvent :=
  (List.range macAddrLen).flatMap fun k =>
    [.read (place + k), .hex (packet (place + k)),
      if k ≠ macAddrLen - 1 then .text ":" else .newline]

/-- `ntohs` of two bytes of the packet. -/
def shortAt (packet : ℕ → UInt8) (place : ℕ) : ℕ :=
  ntohs ⟨[packet place, packet (place + 1)], rfl⟩

/-- `ntohl` of four bytes of the packet. -/
def longAt (packet : ℕ → UInt8) (place : ℕ) : ℕ :=
  ntohl (bytesAt packet place 4)

/-- The name of an `ether_type`. -/
def etherProtocol (type : ℕ) : String :=
  if type = 0x0800 then "IP protocol"
  else if type = 0x0806 then "ARP protocol"
  else if type = 0x8035 then "RARP protocol"
  else "can not recoginize protocol"

/-- `print_ether_header`. -/
def printEtherHeader (packet : ℕ → UInt8) : List PrintEvent :=
  [readsAt 12 2,
    [.text "------------------- Ethernet Header -------------------", .newline],
    [.text "mac dest address: "],
    printMac packet 0,
    [.text "mac source address: "],
    printMac packet 6,
    [.text "protocol: ", .text (etherProtocol (shortAt packet 12)), .newline]].flatten

/-- The name of an `ip_p`. -/
def ipProtocol (p : UInt8) : String :=
  if p = 6 then "TCP protocol"
  else if p = 17 then "UDP protocol"
  else if p = 1 then "ICMP protocol"
  else if p = 2 then "IGMP protocol"
  else "other protocols"

/-- A flag of `ip_off`, which is looked at in the byte order of the target. -/
def printIpFlag (packet : ℕ → UInt8) (mask : ℕ) (shown : List PrintEvent) : List PrintEvent :=
  let ipOff := (packet 20).toNat + 256 * (packet 21).toNat
  readsAt 20 2 ++ if ipOff &&& 0xe000 &&& mask ≠ 0 then shown else []

/-- An address of the IP header; both lines show `ip_src`. -/
def printIpSrc (packet : ℕ → UInt8) (label : String) : List PrintEvent :=
  readsAt 26 4 ++ [.text label, .address (bytesAt packet 26 4), .newline]

/-- `print_ip_header`. -/
def printIpHeader (packet : ℕ → UInt8) : List PrintEvent :=
  [[.text "--------------------- IP Header -----------------------", .newline],
    printNumber "version: " 14 1 ((packet 14).toNat / 16 : ℕ) "",
    printNumber "header length: " 14 1 ((packet 14).toNat % 16 * 4 : ℕ) " bytes",
    printNumber "type of service: " 15 1 (packet 15).toNat "",
    printNumber "total length: " 16 2 (shortAt packet 16) "",
    printNumber "identification: " 18 2 (shortAt packet 18) "",
    [.text "flags:"],
    printIpFlag packet 0x8000 [.text " RESERVED"],
    printIpFlag packet 0x4000 [.text " DONT", .newline],
    printIpFlag packet 0x2000 [.text " MORE", .newline],
    [.newline],
    printNumber "fragment offset: " 20 2 (shortAt packet 20) "",
    printNumber "time to live: " 22 1 (packet 22).toNat "",
    readsAt 23 1,
    [.text "protocol: [", .decimal (packet 23).toNat, .text "]"],
    readsAt 23 1,
    [.text (ipProtocol (packet 23)), .newline],
    printNumber "checksum: " 24 2 (shortAt packet 24) "",
    printIpSrc packet "source address: ",
    printIpSrc packet "dest address: "].flatten

/-- A flag of the TCP header. -/
def printTcpFlag (packet : ℕ → UInt8) (mask : UInt8) (shown : String) : List PrintEvent :=
  readsAt 47 1 ++ if packet 47 &&& mask ≠ 0 then [.text shown] else []

/-- `print_tcp_header`: behind an IP header of 20 bytes. -/
def printTcpHeader (packet : ℕ → UInt8) : List PrintEvent :=
  [[.text "--------------------- TCP Header ----------------------", .newline],
    printNumber "source port: " 34 2 (shortAt packet 34) "",
    printNumber "destination port: " 36 2 (shortAt packet 36) "",
    printNumber "sequence number: " 38 4 (toInt (longAt packet 38)) "",
    printNumber "acknowledgement number: " 42 4 (toInt (longAt packet 42)) "",
    printNumber "data offset: " 46 1 ((packet 46).toNat / 16 * 4 : ℕ) " bytes",
    printNumber "window size: " 48 2 (shortAt packet 48) "",
    [.text "flags:"],
    printTcpFlag packet 0x01 " FIN",
    printTcpFlag packet 0x02 " SYN",
    printTcpFlag packet 0x04 " RST",
    printTcpFlag packet 0x08 " PUSH",
    printTcpFlag packet 0x10 " ACK",
    printTcpFlag packet 0x20 " URG",
    [.newline],
    printNumber "urgent pointer: " 52 2 (shortAt packet 52) ""].flatten

/-- The `static` variables of `process_packet`. -/
structure PacketProcess where
  packetCount : ℤ
  firstPacketTs : Timeval

/-- The time since the first packet. -/
def PacketProcess.refTime (thiz : PacketProcess) (ts : Timeval) : UInt32 × UInt32 :=
  if thiz.packetCount = 0 then (0, 0)
  else if thiz.firstPacketTs.tvUsec.toInt32 > ts.tvUsec.toInt32 then
    (ts.tvSec - thiz.firstPacketTs.tvSec - 1, 1000000 - thiz.firstPacketTs.tvUsec + ts.tvUsec)
  else (ts.tvSec - thiz.firstPacketTs.tvSec, ts.tvUsec - thiz.firstPacketTs.tvUsec)

/-- What `process_packet` prints behind the dump. -/
def printHeaders (packet : ℕ → UInt8) : List PrintEvent :=
  [printEtherHeader packet, printIpHeader packet, printTcpHeader packet,
    [.text "=======================================================", .newline, .newline]].flatten

/-- **`process_packet`**: what it reads and prints, and its variables behind it. -/
def processPacket (thiz : PacketProcess) (pkthdr : PcapPacketHeader) (packet : ℕ → UInt8) :
    List PrintEvent × PacketProcess :=
  let refTv := thiz.refTime pkthdr.ts
  let firstPacketTs := if thiz.packetCount = 0 then pkthdr.ts else thiz.firstPacketTs
  (.text "=======================================================" :: .newline ::
    (printPcapPacketInfo thiz.packetCount refTv.1 refTv.2 pkthdr.len ++
      (printPayload packet (toInt pkthdr.len.toNat) ++ printHeaders packet)),
    ⟨thiz.packetCount + 1, firstPacketTs⟩)

/-! ### Reading the output -/

/-- The bytes that are shown up to the end of the line. -/
def lineBytes : List PrintEvent → List UInt8
  | [] => []
  | .newline :: _ => []
  | .hex b :: events => b :: lineBytes events
  | _ :: events => lineBytes events

/-- **The lines of a dump**: each starts with an offset. -/
def dumpLines : List PrintEvent → List (ℕ × List UInt8)
  | [] => []
  | .offset n :: events => (n, lineBytes events) :: dumpLines events
  | _ :: events => dumpLines events

@[simp] theorem lineBytes_text (s : String) (events : List PrintEvent) :
    lineBytes (.text s :: events) = lineBytes events := rfl

/-- **A packet is shown as it was captured**: captured bytes alone are read, and the lines of the
dump show all of them in order, at most 16 on a line, at the offsets 0, 16, 32 and so on. -/
structure PacketShown (thiz : PacketProcess) (pkthdr : PcapPacketHeader) (packet : ℕ → UInt8) :
    Prop where
  reads : ∀ i, .read i ∈ (processPacket thiz pkthdr packet).1 → i < pkthdr.caplen.toNat
  bytes : (dumpLines (processPacket thiz pkthdr packet).1).flatMap Prod.snd =
    bytesAt packet 0 pkthdr.caplen.toNat
  width : ∀ line ∈ dumpLines (processPacket thiz pkthdr packet).1, line.2.length ≤ 16
  offsets : (dumpLines (processPacket thiz pkthdr packet).1).map Prod.fst =
    (List.range (dumpLines (processPacket thiz pkthdr packet).1).length).map fun k => 16 * k

/-! ### A line of the dump -/

/-- An event inside a line that shows the bytes from an offset on. -/
def PrintEvent.InLine (payload len : ℕ) : PrintEvent → Prop
  | .read i => payload ≤ i ∧ i < payload + len
  | .newline => False
  | .offset _ => False
  | _ => True

section Line

variable {payload len : ℕ}

/-- Bytes inside a line are shown in front of the rest of it. -/
theorem lineBytes_append {events : List PrintEvent} (h : ∀ e ∈ events, e.InLine payload len)
    (rest : List PrintEvent) : lineBytes (events ++ rest) = lineBytes events ++ lineBytes rest := by
  induction events with
  | nil => rfl
  | cons e events ih =>
      have hevents := ih fun e' he' => h e' (List.mem_cons_of_mem e he')
      cases e with
      | newline => exact absurd (h _ List.mem_cons_self) not_false
      | hex b => rw [List.cons_append, lineBytes, lineBytes, hevents, List.cons_append]
      | _ => exact hevents

/-- What a loop over the places of a line shows. -/
theorem lineBytes_flatMap {places : List ℕ} {f : ℕ → List PrintEvent}
    (h : ∀ e ∈ places.flatMap f, e.InLine payload len) :
    lineBytes (places.flatMap f) = places.flatMap fun i => lineBytes (f i) := by
  induction places with
  | nil => rfl
  | cons i places ih =>
      rw [List.flatMap_cons] at h
      rw [List.flatMap_cons, List.flatMap_cons,
        lineBytes_append fun e he => h e (List.mem_append_left _ he),
        ih fun e he => h e (List.mem_append_right _ he)]

/-- Events without a byte show none. -/
theorem lineBytes_eq_nil {events : List PrintEvent} (h : ∀ b, .hex b ∉ events) :
    lineBytes events = [] := by
  induction events with
  | nil => rfl
  | cons e events ih =>
      have hevents := ih fun b hb => h b (List.mem_cons_of_mem e hb)
      cases e with
      | hex b => exact absurd List.mem_cons_self (h b)
      | newline => rfl
      | _ => exact hevents

/-- Events without an offset show no line. -/
theorem dumpLines_append {events : List PrintEvent} (h : ∀ n, .offset n ∉ events)
    (rest : List PrintEvent) : dumpLines (events ++ rest) = dumpLines rest := by
  induction events with
  | nil => rfl
  | cons e events ih =>
      have hevents := ih fun n hn => h n (List.mem_cons_of_mem e hn)
      cases e with
      | offset n => exact absurd List.mem_cons_self (h n)
      | _ => exact hevents

theorem printHexes_inLine (packet : ℕ → UInt8) :
    ∀ e ∈ printHexes packet payload len, e.InLine payload len := by
  intro e he
  obtain ⟨i, hi, he⟩ := List.mem_flatMap.1 he
  rw [List.mem_range] at hi
  rcases List.mem_append.1 he with he | he
  · rcases List.mem_cons.1 he with he | he
    · rw [he]
      exact ⟨Nat.le_add_right payload i, Nat.add_lt_add_left hi payload⟩
    · rw [List.mem_singleton.1 he]
      exact trivial
  · split at he
    · rw [List.mem_singleton.1 he]
      exact trivial
    · exact absurd he List.not_mem_nil

/-- The first loop of a line shows its bytes. -/
theorem lineBytes_printHexes (packet : ℕ → UInt8) :
    lineBytes (printHexes packet payload len) = bytesAt packet payload len := by
  have hone : ∀ i, lineBytes ([.read (payload + i), .hex (packet (payload + i))] ++
      if i = 7 then [.text " "] else []) = [packet (payload + i)] := by
    intro i
    split
    · rfl
    · rfl
  rw [printHexes, lineBytes_flatMap (printHexes_inLine packet)]
  simp only [hone, bytesAt, List.map_eq_flatMap]

theorem printGap_text {e : PrintEvent} (h : e ∈ printGap len) : ∃ s, e = .text s := by
  rw [printGap] at h
  split at h
  · rcases List.mem_append.1 h with h | h
    · split at h
      · exact ⟨_, List.mem_singleton.1 h⟩
      · exact absurd h List.not_mem_nil
    · exact ⟨_, List.eq_of_mem_replicate h⟩
  · exact absurd h List.not_mem_nil

/-- The second loop of a line reads its bytes again, and shows characters. -/
theorem printAscii_inLine {packet : ℕ → UInt8} {e : PrintEvent}
    (h : e ∈ printAscii packet payload len) : e.InLine payload len ∧ ∀ b, e ≠ .hex b := by
  obtain ⟨i, hi, he⟩ := List.mem_flatMap.1 h
  rw [List.mem_range] at hi
  rcases List.mem_cons.1 he with he | he
  · rw [he]
    exact ⟨⟨Nat.le_add_right payload i, Nat.add_lt_add_left hi payload⟩, nofun⟩
  · rw [List.mem_singleton.1 he]
    split
    · exact ⟨trivial, nofun⟩
    · exact ⟨trivial, nofun⟩

/-- The part of a line between its offset and its end. -/
def lineBody (packet : ℕ → UInt8) (payload len : ℕ) : List PrintEvent :=
  .text "   " :: (printHexes packet payload len ++ printGap len ++
    .text "   " :: printAscii packet payload len)

theorem printHexAsciiLine_eq (packet : ℕ → UInt8) (payload len offset : ℕ) :
    printHexAsciiLine packet payload len offset =
      .offset offset :: (lineBody packet payload len ++ [.newline]) := by
  rw [printHexAsciiLine, lineBody]
  simp only [List.cons_append, List.append_assoc]

theorem lineBody_inLine (packet : ℕ → UInt8) :
    ∀ e ∈ lineBody packet payload len, e.InLine payload len := by
  have htext : ∀ s, (PrintEvent.text s).InLine payload len := fun s => trivial
  rw [lineBody, List.forall_mem_cons, List.forall_mem_append, List.forall_mem_append,
    List.forall_mem_cons]
  refine ⟨htext _, ⟨printHexes_inLine packet, ?_⟩, htext _, fun e he => (printAscii_inLine he).1⟩
  intro e he
  obtain ⟨s, hs⟩ := printGap_text he
  rw [hs]
  exact htext s

/-- What a line shows. -/
theorem lineBytes_lineBody (packet : ℕ → UInt8) (rest : List PrintEvent) :
    lineBytes (lineBody packet payload len ++ .newline :: rest) = bytesAt packet payload len := by
  have hnone : lineBytes (printGap len ++ .text "   " :: printAscii packet payload len) = [] := by
    refine lineBytes_eq_nil fun b hb => ?_
    rcases List.mem_append.1 hb with hb | hb
    · obtain ⟨s, hs⟩ := printGap_text hb
      cases hs
    · rcases List.mem_cons.1 hb with hb | hb
      · cases hb
      · exact (printAscii_inLine hb).2 b rfl
  rw [lineBytes_append (lineBody_inLine packet), lineBytes, List.append_nil, lineBody,
    lineBytes_text, List.append_assoc, lineBytes_append (printHexes_inLine packet),
    lineBytes_printHexes, hnone, List.append_nil]

/-- **A line is read back** as its offset and its bytes. -/
theorem dumpLines_line (packet : ℕ → UInt8) (offset : ℕ) (rest : List PrintEvent) :
    dumpLines (printHexAsciiLine packet payload len offset ++ rest) =
      (offset, bytesAt packet payload len) :: dumpLines rest := by
  have hbody : ∀ n, .offset n ∉ lineBody packet payload len ++ [.newline] := by
    intro n hn
    rcases List.mem_append.1 hn with hn | hn
    · exact lineBody_inLine packet _ hn
    · cases List.mem_singleton.1 hn
  rw [printHexAsciiLine_eq, List.cons_append, dumpLines, dumpLines_append hbody,
    List.append_assoc, List.singleton_append, lineBytes_lineBody]

example : dumpLines (printHexAsciiLine (fun i => UInt8.ofNat i) 32 3 32) = [(32, [32, 33, 34])] := rfl

/-- A line reads its bytes alone. -/
theorem read_printHexAsciiLine {packet : ℕ → UInt8} {offset i : ℕ}
    (h : .read i ∈ printHexAsciiLine packet payload len offset) :
    payload ≤ i ∧ i < payload + len := by
  rw [printHexAsciiLine_eq] at h
  rcases List.mem_cons.1 h with h | h
  · cases h
  · rcases List.mem_append.1 h with h | h
    · exact lineBody_inLine packet _ h
    · cases List.mem_singleton.1 h

end Line

/-! ### The dump -/

/-- Pieces with the offsets at which they start, if all but the last have 16 bytes. -/
def offsetLines : ℕ → List (List UInt8) → List (ℕ × List UInt8)
  | _, [] => []
  | offset, piece :: pieces => (offset, piece) :: offsetLines (offset + 16) pieces

theorem bytes_offsetLines (offset : ℕ) (pieces : List (List UInt8)) :
    (offsetLines offset pieces).flatMap Prod.snd = pieces.flatten := by
  induction pieces generalizing offset with
  | nil => rfl
  | cons piece pieces ih => rw [offsetLines, List.flatMap_cons, ih, List.flatten_cons]

theorem offsets_offsetLines (offset : ℕ) (pieces : List (List UInt8)) :
    (offsetLines offset pieces).map Prod.fst =
      (List.range (offsetLines offset pieces).length).map fun k => offset + 16 * k := by
  induction pieces generalizing offset with
  | nil => rfl
  | cons piece pieces ih =>
      rw [offsetLines, List.map_cons, List.length_cons, List.range_succ_eq_map, List.map_cons,
        List.map_map, ih]
      refine congrArg₂ List.cons (by rw [Nat.mul_zero, Nat.add_zero]) ?_
      refine List.map_congr_left fun k _ => ?_
      rw [Function.comp_apply]
      omega

theorem mem_offsetLines {offset : ℕ} {pieces : List (List UInt8)} {line : ℕ × List UInt8}
    (h : line ∈ offsetLines offset pieces) : line.2 ∈ pieces := by
  induction pieces generalizing offset with
  | nil => exact absurd h List.not_mem_nil
  | cons piece pieces ih =>
      rcases List.mem_cons.1 h with h | h
      · rw [h]
        exact List.mem_cons_self
      · exact List.mem_cons_of_mem piece (ih h)

section Bytes

variable (packet : ℕ → UInt8) (place : ℕ)

@[simp] theorem length_bytesAt (count : ℕ) : (bytesAt packet place count).length = count := by
  rw [bytesAt, List.length_map, List.length_range]

theorem bytesAt_add (n m : ℕ) :
    bytesAt packet place (n + m) = bytesAt packet place n ++ bytesAt packet (place + n) m := by
  rw [bytesAt, List.range_add, List.map_append, List.map_map]
  refine congrArg₂ _ rfl (List.map_congr_left fun k _ => ?_)
  rw [Function.comp_apply, Nat.add_assoc]

end Bytes

/-- **The loop prints a line for each piece** of 16 bytes, and one for the rest. -/
theorem dumpLines_printLines (packet : ℕ → UInt8) {lineStart lenRemain : ℕ} (offset : ℕ)
    (h : 0 < lenRemain) (rest : List PrintEvent) :
    dumpLines (printLines packet lineStart lenRemain offset ++ rest) =
      offsetLines offset (chunksOf 16 (bytesAt packet lineStart lenRemain)) ++ dumpLines rest := by
  induction lineStart, lenRemain, offset using printLines.induct with
  | case1 lineStart lenRemain offset hlong ih =>
      obtain ⟨m, rfl⟩ := Nat.exists_eq_add_of_le hlong.le
      have hlong' : 16 < (bytesAt packet lineStart (16 + m)).length := by rwa [length_bytesAt]
      have htake : (bytesAt packet lineStart (16 + m)).take 16 = bytesAt packet lineStart 16 := by
        rw [bytesAt_add]
        exact List.take_left' (length_bytesAt packet lineStart 16)
      have hdrop : (bytesAt packet lineStart (16 + m)).drop 16 =
          bytesAt packet (lineStart + 16) m := by
        rw [bytesAt_add]
        exact List.drop_left' (length_bytesAt packet lineStart 16)
      rw [Nat.add_sub_cancel_left] at ih
      rw [printLines, if_pos hlong, List.append_assoc, dumpLines_line, Nat.add_sub_cancel_left,
        ih (by omega), chunksOf_of_gt (by decide) hlong', htake, hdrop, offsetLines,
        List.cons_append]
  | case2 lineStart lenRemain offset hshort =>
      have hne : bytesAt packet lineStart lenRemain ≠ [] :=
        List.ne_nil_of_length_pos (by rwa [length_bytesAt])
      have hle : (bytesAt packet lineStart lenRemain).length ≤ 16 := by
        rw [length_bytesAt]
        omega
      rw [printLines, if_neg hshort, dumpLines_line, chunksOf_of_le hne hle, offsetLines,
        offsetLines, List.singleton_append]

/-- The loop reads the bytes of its lines alone. -/
theorem read_printLines {packet : ℕ → UInt8} {lineStart lenRemain offset i : ℕ}
    (h : .read i ∈ printLines packet lineStart lenRemain offset) :
    lineStart ≤ i ∧ i < lineStart + lenRemain := by
  induction lineStart, lenRemain, offset using printLines.induct with
  | case1 lineStart lenRemain offset hlong ih =>
      rw [printLines, if_pos hlong] at h
      rcases List.mem_append.1 h with h | h
      · have hline := read_printHexAsciiLine h
        omega
      · have hrest := ih h
        omega
  | case2 lineStart lenRemain offset hshort =>
      rw [printLines, if_neg hshort] at h
      exact read_printHexAsciiLine h

/-- **What the dump shows**: the packet in lines of 16 bytes, if `len` is positive. -/
theorem dumpLines_payload (packet : ℕ → UInt8) {len : ℤ} (h : 0 < len) (rest : List PrintEvent) :
    dumpLines (printPayload packet len ++ rest) =
      offsetLines 0 (chunksOf 16 (bytesAt packet 0 len.toNat)) ++ dumpLines rest := by
  rw [printPayload, if_neg (not_le.2 h), List.append_assoc]
  exact dumpLines_printLines packet 0 (by omega) rest

/-! ### What the headers read -/

/-- An event of a printer of headers. -/
def PrintEvent.InHeader (size : ℕ) : PrintEvent → Prop
  | .read i => i < size
  | .offset _ => False
  | _ => True

/-- The events of a printer of headers, which reads in front of an offset. -/
def HeaderPart (size : ℕ) (events : List PrintEvent) : Prop := ∀ e ∈ events, e.InHeader size

section HeaderPart

variable {size : ℕ}

@[simp] theorem headerPart_nil : HeaderPart size [] := fun _ he => absurd he List.not_mem_nil

@[simp] theorem headerPart_cons {e : PrintEvent} {events : List PrintEvent} :
    HeaderPart size (e :: events) ↔ e.InHeader size ∧ HeaderPart size events :=
  List.forall_mem_cons

@[simp] theorem headerPart_append {a b : List PrintEvent} :
    HeaderPart size (a ++ b) ↔ HeaderPart size a ∧ HeaderPart size b :=
  List.forall_mem_append

@[simp] theorem headerPart_flatMap {places : List ℕ} {f : ℕ → List PrintEvent} :
    HeaderPart size (places.flatMap f) ↔ ∀ i ∈ places, HeaderPart size (f i) := by
  constructor
  · exact fun h i hi e he => h e (List.mem_flatMap.2 ⟨i, hi, he⟩)
  · intro h e he
    obtain ⟨i, hi, he⟩ := List.mem_flatMap.1 he
    exact h i hi e he

theorem headerPart_ite {p : Prop} [Decidable p] {events : List PrintEvent}
    (h : HeaderPart size events) : HeaderPart size (if p then events else []) := by
  split
  · exact h
  · exact headerPart_nil

theorem headerPart_readsAt {place count : ℕ} (h : place + count ≤ size) :
    HeaderPart size (readsAt place count) := by
  intro e he
  obtain ⟨k, hk, he⟩ := List.mem_map.1 he
  rw [List.mem_range] at hk
  rw [← he]
  exact lt_of_lt_of_le (Nat.add_lt_add_left hk place) h

/-- What is inside a smaller header is inside a larger one. -/
theorem HeaderPart.mono {size' : ℕ} {events : List PrintEvent} (h : HeaderPart size events)
    (hle : size ≤ size') : HeaderPart size' events := by
  intro e he
  have hpart := h e he
  cases e with
  | read i => exact lt_of_lt_of_le hpart hle
  | offset n => exact hpart
  | _ => exact trivial

theorem headerPart_printNumber (label : String) {place count : ℕ} (value : ℤ) (unit : String)
    (h : place + count ≤ size) : HeaderPart size (printNumber label place count value unit) := by
  rw [printNumber, headerPart_append]
  exact ⟨headerPart_readsAt h, by simp [PrintEvent.InHeader]⟩

theorem headerPart_printMac (packet : ℕ → UInt8) {place : ℕ} (h : place + macAddrLen ≤ size) :
    HeaderPart size (printMac packet place) := by
  rw [printMac, headerPart_flatMap]
  intro k hk
  rw [List.mem_range] at hk
  have hread : place + k < size := by omega
  split
  · simpa [PrintEvent.InHeader] using hread
  · simpa [PrintEvent.InHeader] using hread

theorem headerPart_printIpSrc (packet : ℕ → UInt8) (label : String) (h : 30 ≤ size) :
    HeaderPart size (printIpSrc packet label) := by
  rw [printIpSrc, headerPart_append]
  exact ⟨headerPart_readsAt h, by simp [PrintEvent.InHeader]⟩

theorem headerPart_flatten {parts : List (List PrintEvent)}
    (h : ∀ part ∈ parts, HeaderPart size part) : HeaderPart size parts.flatten := by
  intro e he
  obtain ⟨part, hpart, he⟩ := List.mem_flatten.1 he
  exact h part hpart e he

/-- The Ethernet header is read within its 14 bytes. -/
theorem headerPart_etherHeader (packet : ℕ → UInt8) : HeaderPart 14 (printEtherHeader packet) := by
  refine headerPart_flatten ?_
  simp only [List.forall_mem_cons, headerPart_cons, headerPart_nil, PrintEvent.InHeader, true_and,
    and_true, List.not_mem_nil, false_implies, implies_true]
  exact ⟨headerPart_readsAt (by decide), headerPart_printMac packet (by decide),
    headerPart_printMac packet (by decide)⟩

/-- The IP header is read within the 20 bytes behind it. -/
theorem headerPart_ipHeader (packet : ℕ → UInt8) : HeaderPart 34 (printIpHeader packet) := by
  have hnumber : ∀ label place count value unit, place + count ≤ 34 →
      HeaderPart 34 (printNumber label place count value unit) :=
    fun label _ _ value unit h => headerPart_printNumber label value unit h
  have hflag : ∀ mask shown, HeaderPart 34 shown →
      HeaderPart 34 (printIpFlag packet mask shown) := by
    intro mask shown h
    rw [printIpFlag, headerPart_append]
    exact ⟨headerPart_readsAt (by decide), headerPart_ite h⟩
  refine headerPart_flatten ?_
  simp only [List.forall_mem_cons, headerPart_cons, headerPart_nil, PrintEvent.InHeader, true_and,
    and_true, List.not_mem_nil, false_implies, implies_true]
  exact ⟨hnumber _ _ _ _ _ (by decide), hnumber _ _ _ _ _ (by decide),
    hnumber _ _ _ _ _ (by decide), hnumber _ _ _ _ _ (by decide), hnumber _ _ _ _ _ (by decide),
    hflag _ _ (by simp [PrintEvent.InHeader]), hflag _ _ (by simp [PrintEvent.InHeader]),
    hflag _ _ (by simp [PrintEvent.InHeader]), hnumber _ _ _ _ _ (by decide),
    hnumber _ _ _ _ _ (by decide), headerPart_readsAt (by decide), headerPart_readsAt (by decide),
    hnumber _ _ _ _ _ (by decide), headerPart_printIpSrc packet _ (by decide),
    headerPart_printIpSrc packet _ (by decide)⟩

/-- The TCP header is read within 20 bytes more. -/
theorem headerPart_tcpHeader (packet : ℕ → UInt8) : HeaderPart 54 (printTcpHeader packet) := by
  have hnumber : ∀ label place count value unit, place + count ≤ 54 →
      HeaderPart 54 (printNumber label place count value unit) :=
    fun label _ _ value unit h => headerPart_printNumber label value unit h
  have hflag : ∀ mask shown, HeaderPart 54 (printTcpFlag packet mask shown) := by
    intro mask shown
    rw [printTcpFlag, headerPart_append]
    exact ⟨headerPart_readsAt (by decide), headerPart_ite (by simp [PrintEvent.InHeader])⟩
  refine headerPart_flatten ?_
  simp only [List.forall_mem_cons, headerPart_cons, headerPart_nil, PrintEvent.InHeader, true_and,
    and_true, List.not_mem_nil, false_implies, implies_true, hflag]
  exact ⟨hnumber _ _ _ _ _ (by decide), hnumber _ _ _ _ _ (by decide),
    hnumber _ _ _ _ _ (by decide), hnumber _ _ _ _ _ (by decide), hnumber _ _ _ _ _ (by decide),
    hnumber _ _ _ _ _ (by decide), hnumber _ _ _ _ _ (by decide)⟩

theorem headerPart_headers (packet : ℕ → UInt8) : HeaderPart 54 (printHeaders packet) := by
  refine headerPart_flatten ?_
  simp only [List.forall_mem_cons, headerPart_cons, headerPart_nil, PrintEvent.InHeader, and_true,
    List.not_mem_nil, false_implies, implies_true]
  exact ⟨(headerPart_etherHeader packet).mono (by decide),
    (headerPart_ipHeader packet).mono (by decide), headerPart_tcpHeader packet⟩

/-- The last byte that the headers have is read. -/
theorem read_headers (packet : ℕ → UInt8) : .read 53 ∈ printHeaders packet := by
  have hnumber : ∀ label place count value unit i, place ≤ i → i < place + count →
      .read i ∈ printNumber label place count value unit := by
    intro label place count value unit i hle hlt
    refine List.mem_append_left _ (List.mem_map.2 ⟨i - place, List.mem_range.2 (by omega), ?_⟩)
    rw [Nat.add_sub_cancel' hle]
  have htcp : .read 53 ∈ printTcpHeader packet := by
    refine List.mem_flatten.2 ⟨printNumber "urgent pointer: " 52 2 (shortAt packet 52) "", ?_,
      hnumber _ _ _ _ _ _ (by decide) (by decide)⟩
    exact List.mem_of_getLast? rfl
  exact List.mem_flatten.2 ⟨_, List.mem_cons_of_mem _ (List.mem_cons_of_mem _
    List.mem_cons_self), htcp⟩

/-- Headers show no line of a dump. -/
theorem HeaderPart.dumpLines_append {events : List PrintEvent} (h : HeaderPart size events)
    (rest : List PrintEvent) : dumpLines (events ++ rest) = dumpLines rest :=
  Wsn.dumpLines_append (fun _ hn => h _ hn) rest

theorem HeaderPart.dumpLines {events : List PrintEvent} (h : HeaderPart size events) :
    dumpLines events = [] := by
  rw [← List.append_nil events, h.dumpLines_append]
  rfl

end HeaderPart

/-! ### When a packet is shown -/

section Shown

variable (thiz : PacketProcess) (pkthdr : PcapPacketHeader) (packet : ℕ → UInt8)

/-- What is printed in front of the dump. -/
theorem processPacket_events : ∃ info : List PrintEvent, HeaderPart 0 info ∧
    (processPacket thiz pkthdr packet).1 =
      info ++ (printPayload packet (toInt pkthdr.len.toNat) ++ printHeaders packet) := by
  refine ⟨.text "=======================================================" :: .newline ::
    printPcapPacketInfo thiz.packetCount (thiz.refTime pkthdr.ts).1 (thiz.refTime pkthdr.ts).2
      pkthdr.len, ?_, rfl⟩
  simp only [printPcapPacketInfo, headerPart_cons, headerPart_nil, PrintEvent.InHeader, and_self]

/-- **Which offsets are read**: those of the headers, and those that the dump shows. -/
theorem reads_processPacket {i : ℕ} (h : .read i ∈ (processPacket thiz pkthdr packet).1) :
    i < 54 ∨ i < (toInt pkthdr.len.toNat).toNat := by
  obtain ⟨info, hinfo, hrun⟩ := processPacket_events thiz pkthdr packet
  rw [hrun] at h
  rcases List.mem_append.1 h with h | h
  · exact absurd (hinfo _ h) (Nat.not_lt_zero i)
  · rcases List.mem_append.1 h with h | h
    · rw [printPayload] at h
      split at h
      · exact absurd h List.not_mem_nil
      · rcases List.mem_cons.1 h with h | h
        · cases h
        · rcases List.mem_cons.1 h with h | h
          · cases h
          · have hline := read_printLines h
            omega
    · exact Or.inl (headerPart_headers packet _ h)

theorem read_last : .read 53 ∈ (processPacket thiz pkthdr packet).1 := by
  obtain ⟨info, -, hrun⟩ := processPacket_events thiz pkthdr packet
  rw [hrun]
  exact List.mem_append_right _ (List.mem_append_right _ (read_headers packet))

/-- **The lines of the output** are those of the dump. -/
theorem dumpLines_processPacket : dumpLines (processPacket thiz pkthdr packet).1 =
    if 0 < toInt pkthdr.len.toNat then
      offsetLines 0 (chunksOf 16 (bytesAt packet 0 (toInt pkthdr.len.toNat).toNat))
    else [] := by
  obtain ⟨info, hinfo, hrun⟩ := processPacket_events thiz pkthdr packet
  rw [hrun, hinfo.dumpLines_append]
  by_cases hlen : 0 < toInt pkthdr.len.toNat
  · rw [if_pos hlen, dumpLines_payload packet hlen, (headerPart_headers packet).dumpLines,
      List.append_nil]
  · rw [if_neg hlen, printPayload, if_pos (not_lt.1 hlen), List.nil_append,
      (headerPart_headers packet).dumpLines]

/-- How many bytes the dump shows. -/
theorem length_dumpLines :
    ((dumpLines (processPacket thiz pkthdr packet).1).flatMap Prod.snd).length =
      (toInt pkthdr.len.toNat).toNat := by
  rw [dumpLines_processPacket]
  split
  · next hpos =>
      have hne : bytesAt packet 0 (toInt pkthdr.len.toNat).toNat ≠ [] :=
        List.ne_nil_of_length_pos (by rw [length_bytesAt]; omega)
      rw [bytes_offsetLines, flatten_chunksOf (by decide) hne, length_bytesAt]
  · next hpos =>
      rw [List.flatMap_nil, List.length_nil]
      omega

variable {thiz pkthdr packet}

/-- A packet that is shown is as long as its headers, and was captured as far as the dump goes. -/
theorem PacketShown.caplen (h : PacketShown thiz pkthdr packet) :
    54 ≤ pkthdr.caplen.toNat ∧ (toInt pkthdr.len.toNat).toNat = pkthdr.caplen.toNat := by
  refine ⟨h.reads 53 (read_last thiz pkthdr packet), ?_⟩
  rw [← length_dumpLines thiz pkthdr packet, h.bytes, length_bytesAt]

variable (thiz pkthdr packet)

/-- **A packet is shown as it was captured** exactly if its headers and all of its bytes were
captured, and an `int` can hold its length. -/
theorem processPacket_shown_iff :
    PacketShown thiz pkthdr packet ↔
      54 ≤ pkthdr.caplen.toNat ∧ pkthdr.len = pkthdr.caplen ∧ pkthdr.len.toNat ≤ intMax := by
  constructor
  · intro h
    obtain ⟨hcap, hlen⟩ := h.caplen
    have hlt : pkthdr.len.toNat < 2 ^ 32 := pkthdr.len.toNat_lt
    rw [toInt] at hlen
    split at hlen
    · next hint =>
        rw [Int.toNat_natCast] at hlen
        exact ⟨hcap, UInt32.toNat_inj.1 hlen, hint⟩
    · omega
  · rintro ⟨hcap, hlen, hint⟩
    have hnat : toInt pkthdr.len.toNat = pkthdr.caplen.toNat := by rw [toInt, if_pos hint, hlen]
    have hpos : 0 < toInt pkthdr.len.toNat := by omega
    have hne : bytesAt packet 0 pkthdr.caplen.toNat ≠ [] :=
      List.ne_nil_of_length_pos (by rw [length_bytesAt]; omega)
    have hlines := dumpLines_processPacket thiz pkthdr packet
    rw [if_pos hpos, hnat, Int.toNat_natCast] at hlines
    refine ⟨?_, ?_, ?_, ?_⟩
    · intro i hi
      have hread := reads_processPacket thiz pkthdr packet hi
      rw [hnat, Int.toNat_natCast] at hread
      omega
    · rw [hlines, bytes_offsetLines, flatten_chunksOf (by decide) hne]
    · intro line hline
      rw [hlines] at hline
      exact length_le_of_mem_chunksOf (by decide) hne _ (mem_offsetLines hline)
    · rw [hlines, offsets_offsetLines]
      simp only [Nat.zero_add]

end Shown

/-- Before the first packet. -/
def noPacket : PacketProcess := ⟨0, ⟨0, 0⟩⟩

/-- A packet of 42 bytes, as one of ARP is, is read behind its end; of a packet of 1500 bytes, of
which 60 were captured, 1500 are shown. -/
theorem shortPacket_overread :
    ¬ PacketShown noPacket ⟨⟨0, 0⟩, 42, 42⟩ (fun _ => 0) ∧
      ¬ PacketShown noPacket ⟨⟨0, 0⟩, 60, 1500⟩ (fun _ => 0) :=
  ⟨fun h => absurd h.caplen.1 (by decide), fun h => absurd h.caplen.2 (by decide)⟩

end Wsn
