/-
**Responses on their way to the host: `send_response` of `src/app/packet_transfer.c`.**

A response is packed into a buffer from `malloc` and written to the host's socket.  The packet says
how long it is, so the host can cut the stream of packets that it receives.  The check field is a
stub in the source: one of its two bytes is `0`, and the other one is what `malloc` left there.

Main definitions:

* `Wsn.serverPacket` — **the bytes of one packet**, `Wsn.sendResponse` — the call;
* `Wsn.readServerPackets` — a reader of the server layer, after its description in
  `src/app/oint_protocol.h`.

Main results:

* `Wsn.serverPacket_eq_heap`, `Wsn.serverPacket_eq` — the fields of a packet, in order;
* `Wsn.sendResponse_eq_iff` — what a packet shows of the heap;
* `Wsn.serverStream_decodes` — **a stream of packets is read back**.
-/

import WsnPlatform.PacketTransferCalls

set_option relaxedAutoImplicit false
set_option autoImplicit false

namespace Wsn

open FixedBuffer

/-! ### The packet -/

/-- `htons` on the little-endian target. -/
def htons (v : UInt16) : UInt16 := (v <<< 8) ||| (v >>> 8)

/-- The reads of the `memcpy` from `node_packet`, which has `NODE_PACKET_MAX_SIZE` bytes. -/
def Response.readNodePacket (r : Response) : Exec (List UInt8) :=
  if r.nodePacketLen ≤ 256 then .ok r.bytes else .error .outOfBounds

/-- **The packet that `send_response` makes.**  `packetBuf` is what the buffer holds when `malloc`
returns it, if it does; the source does not check that. -/
def serverPacket (r : Response) (packetBuf : Option (ℕ → UInt8)) : Exec (List UInt8) :=
  let packetLen := UInt16.ofNat (respSHeaderLen + r.nodePacketLen + respSCrcWidth)
  match packetBuf with
  | none => .error .nullDeref
  | some heap => do
      let buf : List.Vector UInt8 packetLen.toNat := List.Vector.ofFn fun i => heap i
      -- 1. the length of the packet
      let buf ← stored (copyAt buf 0 (littleEndian16 (htons packetLen)))
      -- 2. the node
      let buf ← stored (copyAt buf respSNodeIdIndex [r.portId + 1])
      -- 3. the length of time stamp and node packet
      let timestampDataLen := UInt16.ofNat (respSTimestampWidth + r.nodePacketLen)
      let buf ← stored (copyAt buf respSTimeNodeLenIndex (littleEndian16 (htons timestampDataLen)))
      -- 4. the time stamp
      let buf ← stored (copyAt buf respSTimestampIndex r.timeStamp.toList)
      -- 5. the node packet
      let nodePacket ← r.readNodePacket
      let buf ← stored (copyAt buf respSHeaderLen nodePacket)
      -- 6. a stub of the check field
      let crcIndex := respSHeaderLen + r.nodePacketLen
      let buf ← stored (copyAt buf crcIndex [0])
      .ok buf.toList

/-- **`send_response`**: the socket and the bytes written to it. -/
def sendResponse (thiz : PacketTransfer) (packetBuf : Option (ℕ → UInt8)) :
    Exec (ℤ × List UInt8) := do
  let packet ← serverPacket thiz.response packetBuf
  .ok (thiz.uploaderSocket, packet)

/-! ### The fields of a packet -/

/-- The two bytes of a 16-bit number, the high one first. -/
def networkOrder16 (n : ℕ) : List UInt8 := [UInt8.ofNat (n / 256), UInt8.ofNat n]

@[simp] theorem length_networkOrder16 (n : ℕ) : (networkOrder16 n).length = 2 := rfl

/-- `htons` exchanges the two bytes. -/
theorem toUInt8_htons (v : UInt16) : (htons v).toUInt8 = (v >>> 8).toUInt8 := by
  rw [← UInt8.toBitVec_inj]
  ext i hi
  simp [htons]

theorem toUInt8_htons_shiftRight (v : UInt16) : (htons v >>> 8).toUInt8 = v.toUInt8 := by
  rw [← UInt8.toBitVec_inj]
  ext i hi
  have hlt : 8 + i < 16 := by omega
  have hge : v.toBitVec.getLsbD (8 + (8 + i)) = false := BitVec.getLsbD_of_ge _ _ (by omega)
  have hget : v.toBitVec[i] = v.toBitVec.getLsbD i := rfl
  simp [htons, hlt, hge, hget]

/-- With the byte order of the target, the high byte comes first. -/
theorem littleEndian16_htons {n : ℕ} (hn : n < 2 ^ 16) :
    littleEndian16 (htons (.ofNat n)) = networkOrder16 n := by
  have hhigh : (UInt16.ofNat n >>> 8).toUInt8 = UInt8.ofNat (n / 256) := by
    rw [← UInt8.toNat_inj]
    simp [Nat.shiftRight_eq_div_pow]
    omega
  rw [littleEndian16, networkOrder16, toUInt8_htons, toUInt8_htons_shiftRight, hhigh]
  simp

/-- The field of the length of the packet. -/
theorem packetLen_field {n : ℕ} (hn : n ≤ 256) :
    littleEndian16 (htons (.ofNat (respSHeaderLen + n + respSCrcWidth))) =
      networkOrder16 (n + 11) := by
  rw [littleEndian16_htons (by simp; omega)]
  simp only [respSHeaderLen, respSCrcWidth]
  congr 1
  omega

/-- The field of the length of the time stamp and the node packet. -/
theorem timeNodeLen_field {n : ℕ} (hn : n ≤ 256) :
    littleEndian16 (htons (.ofNat (respSTimestampWidth + n))) = networkOrder16 (n + 4) := by
  rw [littleEndian16_htons (by simp; omega), respSTimestampWidth, Nat.add_comm]

/-- **The fields of a packet**, in order; its last byte is what `malloc` left there. -/
theorem serverPacket_eq_heap {r : Response} (hlen : r.nodePacketLen ≤ 256) (heap : ℕ → UInt8) :
    serverPacket r (some heap) = .ok (networkOrder16 (r.nodePacketLen + 11) ++
      [r.portId + 1] ++ networkOrder16 (r.nodePacketLen + 4) ++ r.timeStamp.toList ++ r.bytes ++
        [0] ++ [heap (r.nodePacketLen + 10)]) := by
  have hsize : (UInt16.ofNat (respSHeaderLen + r.nodePacketLen + respSCrcWidth)).toNat =
      r.nodePacketLen + 11 := by
    simp
    omega
  have hbytes := Response.length_bytes hlen
  unfold serverPacket
  simp only [packetLen_field hlen, timeNodeLen_field hlen, Response.readNodePacket, if_pos hlen,
    ok_bind]
  generalize UInt16.ofNat (respSHeaderLen + r.nodePacketLen + respSCrcWidth) = packetLen at hsize ⊢
  have hstamp : r.timeStamp.toList.length = 4 := r.timeStamp.toList_length
  -- each store lands behind the one before
  have t₀ : (List.Vector.ofFn fun i : Fin packetLen.toNat => heap i).toList.take 0 = [] :=
    List.take_zero
  obtain ⟨b₁, h₁, t₁⟩ := copyAt_behind (networkOrder16 (r.nodePacketLen + 11)) t₀ (by simp; omega)
  obtain ⟨b₂, h₂, t₂⟩ := copyAt_behind [r.portId + 1] t₁ (by simp; omega)
  obtain ⟨b₃, h₃, t₃⟩ := copyAt_behind (networkOrder16 (r.nodePacketLen + 4)) t₂ (by simp; omega)
  obtain ⟨b₄, h₄, t₄⟩ := copyAt_behind r.timeStamp.toList t₃ (by simp; omega)
  obtain ⟨b₅, h₅, t₅⟩ := copyAt_behind r.bytes t₄ (by simp; omega)
  obtain ⟨b₆, h₆, t₆⟩ := copyAt_behind [0] t₅ (by simp; omega)
  simp only [length_networkOrder16, List.length_singleton, hstamp, hbytes, Nat.zero_add,
    Nat.reduceAdd] at h₁ h₂ h₃ h₄ h₅ h₆ t₆
  -- and none of them reaches the last byte
  have hlast : b₆.toList.drop (9 + r.nodePacketLen + 1) = [heap (r.nodePacketLen + 10)] := by
    rw [drop_copyAt h₆ (by simp), drop_copyAt h₅ (by omega), drop_copyAt h₄ (by omega),
      drop_copyAt h₃ (by simp; omega), drop_copyAt h₂ (by simp; omega),
      drop_copyAt h₁ (by simp; omega), List.Vector.toList_ofFn]
    refine List.ext_getElem (by simp; omega) fun i hi hi' => ?_
    obtain rfl : i = 0 := Nat.lt_one_iff.1 (by simpa using hi')
    simp only [List.getElem_drop, List.getElem_ofFn, List.getElem_cons_zero]
    congr 1
    omega
  have hall : b₆.toList = networkOrder16 (r.nodePacketLen + 11) ++ [r.portId + 1] ++
      networkOrder16 (r.nodePacketLen + 4) ++ r.timeStamp.toList ++ r.bytes ++ [0] ++
        [heap (r.nodePacketLen + 10)] := by
    rw [← hlast, ← List.nil_append (networkOrder16 (r.nodePacketLen + 11)), ← t₆,
      List.take_append_drop]
  simp only [h₁, h₂, h₃, h₄, h₅, h₆, hall, stored_some, ok_bind, respSNodeIdIndex,
    respSTimeNodeLenIndex, respSTimestampIndex, respSHeaderLen]

/-- The fields of a packet, whatever its last byte is. -/
theorem serverPacket_eq {r : Response} (hlen : r.nodePacketLen ≤ 256) (heap : ℕ → UInt8) :
    ∃ last, serverPacket r (some heap) = .ok (networkOrder16 (r.nodePacketLen + 11) ++
      [r.portId + 1] ++ networkOrder16 (r.nodePacketLen + 4) ++ r.timeStamp.toList ++ r.bytes ++
        [0] ++ [last]) :=
  ⟨_, serverPacket_eq_heap hlen heap⟩

/-- **What is sent depends on the last byte that `malloc` left in the buffer**, and on no other. -/
theorem sendResponse_eq_iff (thiz : PacketTransfer) (hlen : thiz.response.nodePacketLen ≤ 256)
    (heap heap' : ℕ → UInt8) :
    sendResponse thiz (some heap) = sendResponse thiz (some heap') ↔
      heap (thiz.response.nodePacketLen + 10) = heap' (thiz.response.nodePacketLen + 10) := by
  rw [sendResponse, sendResponse, serverPacket_eq_heap hlen, serverPacket_eq_heap hlen, ok_bind,
    ok_bind]
  constructor
  · intro h
    have hpackets := congrArg Prod.snd (Except.ok.inj h)
    exact List.singleton_inj.1 (List.append_cancel_left hpackets)
  · intro h
    rw [h]

/-- A response of node 4 with a packet of two bytes. -/
def twoByteResponse : Response :=
  { Response.zero with
    portId := 3
    nodePacketLen := 2
    nodePacket := Response.zero.nodePacket.set 0 nodeDelimiter }

/-- A new object with a connection, which holds an empty response. -/
def connectedObject : PacketTransfer :=
  openConnection (packetTransferCreate willingBoard fun _ => true) 4 []

/-- A response with a node packet of two bytes goes out alike from two buffers that differ in all
their bytes but the last. -/
theorem sendResponse_eq_iff_twoBytes :
    sendResponse { connectedObject with response := twoByteResponse } (some fun _ => 0) =
      sendResponse { connectedObject with response := twoByteResponse }
        (some fun i => if i = 12 then 0 else 0xAA) :=
  (sendResponse_eq_iff { connectedObject with response := twoByteResponse } (by decide)
    (fun _ => 0) fun i => if i = 12 then 0 else 0xAA).2 (by decide)

/-- The second byte of the check field is sent as `malloc` left it. -/
theorem sendResponse_leaks :
    sendResponse connectedObject (some fun _ => 0) =
        .ok (4, [0, 11, 1, 0, 4, 0, 0, 0, 0, 0, 0]) ∧
      sendResponse connectedObject (some fun _ => 0xAA) =
        .ok (4, [0, 11, 1, 0, 4, 0, 0, 0, 0, 0, 0xAA]) := by
  have hlen : connectedObject.response.nodePacketLen ≤ 256 := Nat.zero_le _
  rw [sendResponse, sendResponse, serverPacket_eq_heap hlen, serverPacket_eq_heap hlen, ok_bind,
    ok_bind]
  exact ⟨rfl, rfl⟩

/-! ### A reader -/

/-- What a reader finds in one packet. -/
structure ServerPacket where
  nodeId : ℕ
  timestampDataLen : ℕ
  timeStamp : List UInt8
  nodePacket : List UInt8
  deriving DecidableEq, Repr

/-- The 16-bit number at an offset, the high byte first. -/
def readBigEndian16 (packet : List UInt8) (off : ℕ) : ℕ :=
  bigEndian16 (packet.getD off 0) (packet.getD (off + 1) 0)

/-- The fields of one packet, each at its offset. -/
def readServerPacket (packet : List UInt8) : ServerPacket where
  nodeId := (packet.getD respSNodeIdIndex 0).toNat
  timestampDataLen := readBigEndian16 packet respSTimeNodeLenIndex
  timeStamp := (packet.drop respSTimestampIndex).take respSTimestampWidth
  nodePacket := (packet.drop respSHeaderLen).take
    (readBigEndian16 packet respSTimeNodeLenIndex - respSTimestampWidth)

/-- The packets of a stream that ends with its last packet.  The first argument bounds their
number. -/
def readServerPackets : ℕ → List UInt8 → Option (List ServerPacket)
  | _, [] => some []
  | 0, _ :: _ => none
  | fuel + 1, b :: bs =>
      let packetLen := readBigEndian16 (b :: bs) 0
      if packetLen < respSHeaderLen + respSCrcWidth ∨ (b :: bs).length < packetLen then none
      else (readServerPackets fuel ((b :: bs).drop packetLen)).map
        (readServerPacket ((b :: bs).take packetLen) :: ·)

/-- **The reader**: it takes the length of a packet and advances by that. -/
def readServerStream (stream : List UInt8) : Option (List ServerPacket) :=
  readServerPackets stream.length stream

/-- What a response tells the host. -/
def Response.serverPacket (r : Response) : ServerPacket where
  nodeId := r.portId.toNat + 1
  timestampDataLen := respSTimestampWidth + r.nodePacketLen
  timeStamp := r.timeStamp.toList
  nodePacket := r.bytes

/-! ### Reading back -/

theorem readBigEndian16_append {front rest : List UInt8} {off n : ℕ} (hoff : front.length = off)
    (hn : n < 2 ^ 16) : readBigEndian16 (front ++ networkOrder16 n ++ rest) off = n := by
  subst hoff
  have hhigh : (front ++ networkOrder16 n ++ rest).getD front.length 0 = UInt8.ofNat (n / 256) := by
    simp [networkOrder16]
  have hlow : (front ++ networkOrder16 n ++ rest).getD (front.length + 1) 0 = UInt8.ofNat n := by
    simp [networkOrder16]
  rw [readBigEndian16, hhigh, hlow, bigEndian16]
  simp only [UInt8.toNat_ofNat']
  omega

/-- The reader cuts a packet off that says its own length. -/
theorem readServerPackets_append {packet : List UInt8} (hmin : 11 ≤ packet.length)
    (rest : List UInt8) (hlen : readBigEndian16 (packet ++ rest) 0 = packet.length) (fuel : ℕ) :
    readServerPackets (fuel + 1) (packet ++ rest) =
      (readServerPackets fuel rest).map (readServerPacket packet :: ·) := by
  obtain ⟨b, bs, hcons⟩ : ∃ b bs, packet ++ rest = b :: bs := by
    refine List.exists_cons_of_ne_nil fun hnil => ?_
    rw [(List.append_eq_nil_iff.1 hnil).1] at hmin
    exact absurd hmin (by decide)
  have hfits : ¬ (packet.length < respSHeaderLen + respSCrcWidth ∨
      (packet ++ rest).length < packet.length) := by
    simp only [respSHeaderLen, respSCrcWidth, List.length_append]
    omega
  rw [hcons, readServerPackets, ← hcons, hlen]
  simp only [if_neg hfits, List.drop_left, List.take_left]

/-- **A packet is read back**, whatever its last byte is. -/
theorem readServerPacket_eq {r : Response} (hlen : r.nodePacketLen ≤ 256)
    (hport : r.portId.toNat ≤ 14) (last : UInt8) :
    readServerPacket (networkOrder16 (r.nodePacketLen + 11) ++ [r.portId + 1] ++
      networkOrder16 (r.nodePacketLen + 4) ++ r.timeStamp.toList ++ r.bytes ++ [0] ++ [last]) =
      r.serverPacket := by
  have hbytes := Response.length_bytes hlen
  have hstamp : r.timeStamp.toList.length = 4 := r.timeStamp.toList_length
  set packet := networkOrder16 (r.nodePacketLen + 11) ++ [r.portId + 1] ++
    networkOrder16 (r.nodePacketLen + 4) ++ r.timeStamp.toList ++ r.bytes ++ [0] ++ [last] with hpacket
  have hnode : packet.getD respSNodeIdIndex 0 = r.portId + 1 := by
    simp [hpacket, networkOrder16]
  have hdata : readBigEndian16 packet respSTimeNodeLenIndex = r.nodePacketLen + 4 := by
    have happend : packet = networkOrder16 (r.nodePacketLen + 11) ++ [r.portId + 1] ++
        networkOrder16 (r.nodePacketLen + 4) ++ (r.timeStamp.toList ++ r.bytes ++ [0] ++ [last]) := by
      simp only [hpacket, List.append_assoc]
    rw [happend]
    exact readBigEndian16_append (by simp) (by omega)
  have hbehind : packet.drop respSTimestampIndex =
      r.timeStamp.toList ++ (r.bytes ++ [0] ++ [last]) := by
    simp [hpacket, networkOrder16]
  have hrest : packet.drop respSHeaderLen = r.bytes ++ ([0] ++ [last]) := by
    have hdrop : packet.drop respSHeaderLen = (packet.drop respSTimestampIndex).drop 4 := by
      rw [List.drop_drop]
      rfl
    rw [hdrop, hbehind, List.drop_left' hstamp, List.append_assoc]
  simp only [readServerPacket, hnode, hdata, hbehind, hrest, Response.serverPacket]
  congr 1
  · rw [UInt8.toNat_add]
    simp
    omega
  · exact Nat.add_comm _ _
  · exact List.take_left' hstamp
  · exact List.take_left' (by simp [hbytes])

/-- One response: what is written for it is read back, in front of any other packets. -/
theorem sendResponse_decodes (thiz : PacketTransfer) (hlen : thiz.response.nodePacketLen ≤ 256)
    (hport : thiz.response.portId.toNat ≤ 14) (heap : ℕ → UInt8) :
    ∃ packet, sendResponse thiz (some heap) = .ok (thiz.uploaderSocket, packet) ∧
      0 < packet.length ∧
      ∀ rest fuel, readServerPackets (fuel + 1) (packet ++ rest) =
        (readServerPackets fuel rest).map (thiz.response.serverPacket :: ·) := by
  obtain ⟨last, hpacket⟩ := serverPacket_eq hlen heap
  have hbytes := Response.length_bytes hlen
  refine ⟨_, by rw [sendResponse, hpacket, ok_bind], by simp, fun rest fuel => ?_⟩
  rw [readServerPackets_append ?_ rest ?_, readServerPacket_eq hlen hport]
  · simp [hbytes]
    omega
  · have happend : readBigEndian16 ([] ++ networkOrder16 (thiz.response.nodePacketLen + 11) ++
        ([thiz.response.portId + 1] ++ networkOrder16 (thiz.response.nodePacketLen + 4) ++
          thiz.response.timeStamp.toList ++ thiz.response.bytes ++ [0] ++ [last] ++ rest)) 0 =
        thiz.response.nodePacketLen + 11 := readBigEndian16_append rfl (by omega)
    simp only [List.nil_append, ← List.append_assoc] at happend
    rw [happend]
    simp [hbytes]
    omega

/-- **A stream of packets is read back**: for every response the node, the length, the time stamp
and the bytes of the node packet, and nothing is left over. -/
theorem serverStream_decodes (thiz : PacketTransfer) (responses : List (Response × (ℕ → UInt8)))
    (h : ∀ r ∈ responses, r.1.nodePacketLen ≤ 256 ∧ r.1.portId.toNat ≤ 14) :
    ∃ sent, (responses.mapM fun r => sendResponse { thiz with response := r.1 } (some r.2)) =
        .ok sent ∧
      readServerStream (sent.flatMap Prod.snd) =
        some (responses.map fun r => r.1.serverPacket) := by
  -- the reader needs no more rounds than there are bytes
  suffices hsent : ∃ sent,
      (responses.mapM fun r => sendResponse { thiz with response := r.1 } (some r.2)) = .ok sent ∧
      ∀ fuel, (sent.flatMap Prod.snd).length ≤ fuel →
        readServerPackets fuel (sent.flatMap Prod.snd) =
          some (responses.map fun r => r.1.serverPacket) by
    obtain ⟨sent, hmap, hread⟩ := hsent
    exact ⟨sent, hmap, hread _ le_rfl⟩
  induction responses with
  | nil => exact ⟨[], rfl, fun fuel _ => by cases fuel <;> rfl⟩
  | cons r responses ih =>
      obtain ⟨sent, hmap, hread⟩ := ih fun r' hr' => h r' (List.mem_cons_of_mem r hr')
      obtain ⟨hlen, hport⟩ := h r List.mem_cons_self
      obtain ⟨packet, hsend, hpos, hpacket⟩ :=
        sendResponse_decodes { thiz with response := r.1 } hlen hport r.2
      refine ⟨(thiz.uploaderSocket, packet) :: sent, ?_, fun fuel hfuel => ?_⟩
      · rw [List.mapM_cons, hsend, hmap]
        rfl
      · have hcons : List.flatMap Prod.snd ((thiz.uploaderSocket, packet) :: sent) =
            packet ++ sent.flatMap Prod.snd := List.flatMap_cons
        rw [hcons, List.length_append] at hfuel
        obtain ⟨fuel, rfl⟩ : ∃ k, fuel = k + 1 := ⟨fuel - 1, by omega⟩
        rw [hcons, hpacket, hread fuel (by omega)]
        rfl

/-- Two responses, one of them without a node packet. -/
def sampleResponses : List (Response × (ℕ → UInt8)) :=
  [(twoByteResponse, fun _ => 0xAA),
    ({ Response.zero with portId := 14 }, fun i => UInt8.ofNat i)]

theorem sampleResponses_decode :
    ∃ sent, (sampleResponses.mapM fun r => sendResponse
        { packetTransferCreate willingBoard (fun _ => true) with response := r.1 } (some r.2)) =
        .ok sent ∧
      readServerStream (sent.flatMap Prod.snd) =
        some (sampleResponses.map fun r => r.1.serverPacket) :=
  serverStream_decodes _ sampleResponses (by decide)

end Wsn
