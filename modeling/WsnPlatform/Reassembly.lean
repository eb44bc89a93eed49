/-
**The reassembly of board frames: `process_one_response` of `src/app/packet_transfer.c`.**

The FPGA cuts a node packet into 16-byte frames.  `process_one_response` reads one frame, checks its
parity, and drives a two-state machine (`static int packet_state`) that collects the pieces in the
one `response` buffer of the transfer object.  The read from the board is a TODO in the source, so
the frame is an input here.

The part of the state that this machine reads and writes is `Wsn.Reassembly`.  When a data packet is
complete the source calls `handle_response`, which writes neither `packet_state` nor `response`; the
output `Wsn.Outcome.completed` records that call, and `WsnPlatform/PacketTransfer.lean` makes it.

Main definitions:

* `Wsn.Frame.kind` — the parity check and the classification by the header byte;
* `Wsn.currentPacket`, `Wsn.beginPacket`, `Wsn.extendPacket` — the three ways a frame writes the
  response;
* `Wsn.processOneResponse` — **the step**.

Main results: what one frame of each kind does (`Wsn.step_rejected`, `Wsn.step_current`,
`Wsn.step_head`, `Wsn.step_not_head`, `Wsn.step_extend`, `Wsn.step_close`, `Wsn.step_overrun`).
-/

import WsnPlatform.FaultRun
import WsnPlatform.FixedBuffer
import WsnPlatform.Util

set_option relaxedAutoImplicit false
set_option autoImplicit false

namespace Wsn

open FixedBuffer

/-! ### The frame -/

/-- A board frame: `RESP_B_PACKET_MAX_SIZE` bytes. -/
abbrev Frame := List.Vector UInt8 16

namespace Frame

def header (f : Frame) : UInt8 := f.get ⟨respBPortIdDataLenIndex, by decide⟩

def portId (f : Frame) : UInt8 := respBGetPortId f.header

def dataLen (f : Frame) : UInt8 := respBGetDataLen f.header

def timeStamp (f : Frame) : List.Vector UInt8 4 :=
  window f respBTimeStampIndex respBTimeStampWidth (by decide)

def delimiter (f : Frame) : UInt8 := f.get ⟨respBHeaderLen + nodeDelimiterIndex, by decide⟩

def direction (f : Frame) : UInt8 := f.get ⟨respBHeaderLen + nodeDirectionIndex, by decide⟩

/-- The byte at `RESP_B_TYPE_INDEX`, which is the check byte of the frame. -/
def typeByte (f : Frame) : UInt8 := f.get ⟨respBTypeIndex, by decide⟩

def lastByteOfData (f : Frame) : UInt8 := f.get ⟨respBEvenCheckIndex - 1, by decide⟩

/-- The `data_len` bytes after the header of the frame. -/
def payload (f : Frame) : List UInt8 := slice f respBHeaderLen f.dataLen.toNat

end Frame

/-- What `process_one_response` takes a frame for. -/
inductive FrameKind
  | rejected
  | current
  | data
  deriving DecidableEq, Repr

/-- Steps 2 and 3 of `process_one_response`: the parity check, then the header byte. -/
def Frame.kind (f : Frame) : FrameKind :=
  if evenCheck f.toList = false then .rejected
  else if f.header = respBPacketTypeInvalid ∨
      (f.dataLen > respBDataLenMax ∧ f.dataLen ≠ respBPacketTypeCurrent) then .rejected
  else if f.dataLen = respBPacketTypeCurrent then .current
  else .data

/-- The test that a frame opens a node packet. -/
def Frame.IsHead (f : Frame) : Prop :=
  f.delimiter = nodeDelimiter ∧ f.direction = nodeDirectionFromNode ∧ f.dataLen = respBDataLenMax

instance (f : Frame) : Decidable f.IsHead := inferInstanceAs (Decidable (_ ∧ _))

/-- The test that a frame ends a node packet. -/
def Frame.Closes (f : Frame) : Prop :=
  f.dataLen ≠ respBDataLenMax ∨ f.lastByteOfData = nodeDelimiter

instance (f : Frame) : Decidable f.Closes := inferInstanceAs (Decidable (_ ∨ _))

/-! ### The state -/

/-- `enum _PacketState`. -/
inductive PacketState
  | inPacket
  | outPacket
  deriving DecidableEq, Repr

/-- `struct _Response`.  `node_packet_len` is a `uint16_t`. -/
structure Response where
  portId : UInt8
  type : UInt8
  timeStamp : List.Vector UInt8 4
  nodePacketLen : ℕ
  nodePacket : List.Vector UInt8 256
  isFinished : Bool

/-- `memset(&thiz->response, 0, sizeof(thiz->response))`. -/
def Response.zero : Response where
  portId := 0
  type := 0
  timeStamp := List.Vector.replicate 4 0
  nodePacketLen := 0
  nodePacket := List.Vector.replicate 256 0
  isFinished := false

/-- The node packet that a response holds: the used part of its buffer. -/
def Response.bytes (r : Response) : List UInt8 := r.nodePacket.toList.take r.nodePacketLen

theorem Response.length_bytes {r : Response} (h : r.nodePacketLen ≤ 256) :
    r.bytes.length = r.nodePacketLen := by
  simp [Response.bytes, h]

/-- The variables that `process_one_response` keeps between two frames. -/
structure Reassembly where
  packetState : PacketState
  response : Response

/-- The static initialiser of `packet_state`, and `packet_transfer_create`. -/
def Reassembly.created : Reassembly := ⟨.outPacket, .zero⟩

/-- The return code, and whether the call went through `handle_response`. -/
structure Outcome where
  ret : Ret
  completed : Bool
  deriving DecidableEq, Repr

/-! ### The step -/

/-- A 16-bit value in memory, as `memcpy` copies it on the little-endian target. -/
def littleEndian16 (v : UInt16) : List UInt8 := [v.toUInt8, (v >>> 8).toUInt8]

/-- Fields 1 to 5 of the node packet that stands for a current frame. -/
def currentHeader (p : List.Vector UInt8 256) (portId : UInt8) : List.Vector UInt8 256 :=
  let p := p.set ⟨nodeDelimiterIndex, by decide⟩ nodeDelimiter
  let p := p.set ⟨nodeDirectionIndex, by decide⟩ nodeDirectionFromNode
  let p := p.set ⟨nodeSrcNodeIdIndex, by decide⟩ (portId + 1)
  let p := p.set ⟨nodePayloadLenIndex, by decide⟩
    (UInt8.ofNat (nodePayloadTypeWidth + respBCurrentWidth))
  p.set ⟨nodePayloadTypeIndex, by decide⟩ nodePayloadTypeRespCurrent

/-- The branch of a current frame: a node packet in the standard layout is built in the response. -/
def currentPacket (r : Response) (f : Frame) : Exec Response := do
  let p ← stored (fill r.nodePacket 0 r.nodePacketLen 0)
  let current ← copyWithProcessDelimiter (slice f respBCurrentIndex respBCurrentWidth)
    respBCurrentWidth
  let p ← stored (copyAt (currentHeader p f.portId) nodePayloadDataIndex current)
  let index := nodePayloadDataIndex + current.length
  let crc := littleEndian16 (crc16Width (p.toList.take index))
  let p ← stored (copyAt p index crc)
  let p ← stored (copyAt p (index + crc.length) [nodeDelimiter])
  .ok { r with
    portId := f.portId
    timeStamp := f.timeStamp
    nodePacket := p
    nodePacketLen := index + crc.length + 1
    isFinished := true }

/-- The head of a data packet: the response is reset and the first piece copied. -/
def beginPacket (f : Frame) : Exec Response := do
  let p ← stored (copyAt Response.zero.nodePacket 0 f.payload)
  .ok { Response.zero with
    portId := f.portId
    type := f.typeByte
    timeStamp := f.timeStamp
    nodePacket := p
    nodePacketLen := (0 + f.dataLen.toNat) % 2 ^ 16 }

/-- A further piece of a data packet: copied behind what is there, without a check of the room. -/
def extendPacket (r : Response) (f : Frame) : Exec Response := do
  let p ← stored (copyAt r.nodePacket r.nodePacketLen f.payload)
  .ok { r with
    nodePacket := p
    nodePacketLen := (r.nodePacketLen + f.dataLen.toNat) % 2 ^ 16 }

/-- **`process_one_response`** on one board frame. -/
def processOneResponse (thiz : Reassembly) (fromBoard : Frame) : Exec (Outcome × Reassembly) :=
  match fromBoard.kind with
  | .rejected => .ok (⟨.fail, false⟩, thiz)
  | .current => do
      let response ← currentPacket thiz.response fromBoard
      .ok (⟨.ok, false⟩, ⟨thiz.packetState, response⟩)
  | .data =>
      match thiz.packetState with
      | .outPacket =>
          if fromBoard.IsHead then do
            let response ← beginPacket fromBoard
            .ok (⟨.ok, false⟩, ⟨.inPacket, response⟩)
          else .ok (⟨.fail, false⟩, thiz)
      | .inPacket => do
          let response ← extendPacket thiz.response fromBoard
          if fromBoard.Closes then
            .ok (⟨.ok, true⟩, ⟨.outPacket, { response with isFinished := true }⟩)
          else .ok (⟨.ok, false⟩, ⟨.inPacket, response⟩)

/-! ### The payload of a frame -/

theorem Frame.dataLen_le_of_data {f : Frame} (h : f.kind = .data) : f.dataLen.toNat ≤ 10 := by
  unfold Frame.kind at h
  split_ifs at h with h₁ h₂ h₃
  by_contra hlt
  have hgt : f.dataLen > respBDataLenMax := UInt8.lt_iff_toNat_lt.2 (not_le.1 hlt)
  exact h₂ (Or.inr ⟨hgt, h₃⟩)

theorem Frame.length_payload {f : Frame} (h : f.kind = .data) :
    f.payload.length = f.dataLen.toNat := by
  have := Frame.dataLen_le_of_data h
  exact length_slice _ (by simp only [respBHeaderLen]; omega)

/-- A frame that does not close a packet carries ten bytes. -/
theorem Frame.length_payload_of_not_closes {f : Frame} (h : f.kind = .data) (hc : ¬ f.Closes) :
    f.payload.length = 10 := by
  have hlen : f.dataLen = respBDataLenMax := by
    by_contra hne
    exact hc (Or.inl hne)
  rw [Frame.length_payload h, hlen]
  rfl

theorem Frame.length_payload_of_isHead {f : Frame} (h : f.kind = .data) (hf : f.IsHead) :
    f.payload.length = 10 := by
  rw [Frame.length_payload h, hf.2.2]
  rfl

/-! ### How a frame writes the response -/

/-- A head frame leaves its piece, its port and its time stamp in an empty response. -/
theorem beginPacket_spec {f : Frame} (h : f.kind = .data) (hf : f.IsHead) :
    ∃ r, beginPacket f = .ok r ∧ r.bytes = f.payload ∧ r.nodePacketLen = f.payload.length ∧
      r.portId = f.portId ∧ r.timeStamp = f.timeStamp ∧ r.isFinished = false := by
  have hlen := Frame.length_payload_of_isHead h hf
  have hfit : 0 + f.payload.length ≤ 256 := by omega
  obtain ⟨p, hp⟩ := copyAt_isSome Response.zero.nodePacket hfit
  have hmod : (0 + f.dataLen.toNat) % 2 ^ 16 = f.payload.length := by
    rw [← Frame.length_payload h, hlen]; decide
  refine ⟨{ Response.zero with
    portId := f.portId, type := f.typeByte, timeStamp := f.timeStamp, nodePacket := p
    nodePacketLen := (0 + f.dataLen.toNat) % 2 ^ 16 }, ?_, ?_, hmod, rfl, rfl, rfl⟩
  · rw [beginPacket, hp]; rfl
  · have := take_copyAt hp
    simp only [Response.bytes, hmod]
    simpa using this

/-- A further piece is appended, when there is room for it. -/
theorem extendPacket_spec {r : Response} {f : Frame} (h : f.kind = .data)
    (hfit : r.nodePacketLen + f.payload.length ≤ 256) :
    ∃ r', extendPacket r f = .ok r' ∧ r'.bytes = r.bytes ++ f.payload ∧
      r'.nodePacketLen = r.nodePacketLen + f.payload.length ∧ r'.portId = r.portId ∧
      r'.timeStamp = r.timeStamp ∧ r'.isFinished = r.isFinished := by
  obtain ⟨p, hp⟩ := copyAt_isSome r.nodePacket hfit
  have hmod : (r.nodePacketLen + f.dataLen.toNat) % 2 ^ 16 =
      r.nodePacketLen + f.payload.length := by
    rw [← Frame.length_payload h]
    exact Nat.mod_eq_of_lt (by omega)
  refine ⟨{ r with nodePacket := p, nodePacketLen := r.nodePacketLen + f.payload.length },
    ?_, take_copyAt hp, rfl, rfl, rfl, rfl⟩
  rw [extendPacket, hp, ← hmod]; rfl

/-- The current value of a frame, escaped. -/
def Frame.escapedCurrent (f : Frame) : List UInt8 :=
  (slice f respBCurrentIndex respBCurrentWidth).flatMap escapeByte

/-- The length of the node packet that stands for a current frame. -/
def Frame.currentLen (f : Frame) : ℕ := nodePayloadDataIndex + f.escapedCurrent.length + 3

/-- The escaped current value takes two to four bytes. -/
theorem Frame.currentLen_bounds (f : Frame) : 16 ≤ f.currentLen ∧ f.currentLen ≤ 18 := by
  have hslice : (slice f respBCurrentIndex respBCurrentWidth).length = respBCurrentWidth :=
    length_slice f (by decide)
  obtain ⟨a, b, hab⟩ : ∃ a b, slice f respBCurrentIndex respBCurrentWidth = [a, b] :=
    List.length_eq_two.1 hslice
  have ha := length_escapeByte a
  have hb := length_escapeByte b
  rw [Frame.currentLen, Frame.escapedCurrent, hab]
  simp only [List.flatMap_cons, List.flatMap_nil, List.append_nil, List.length_append,
    nodePayloadDataIndex]
  omega

theorem Frame.copy_current (f : Frame) :
    copyWithProcessDelimiter (slice f respBCurrentIndex respBCurrentWidth) respBCurrentWidth =
      .ok f.escapedCurrent := by
  have hslice : (slice f respBCurrentIndex respBCurrentWidth).length = respBCurrentWidth :=
    length_slice f (by decide)
  have hsmall : (slice f respBCurrentIndex respBCurrentWidth).length < 2 ^ 8 := by
    rw [hslice]; decide
  have hcopy := copyWithProcessDelimiter_eq hsmall
  rwa [hslice] at hcopy

/-- A current frame replaces whatever the response holds by a packet of 16 to 18 bytes. -/
theorem currentPacket_spec {r : Response} (f : Frame) (hr : r.nodePacketLen ≤ 256) :
    ∃ r', currentPacket r f = .ok r' ∧ r'.nodePacketLen = f.currentLen ∧
      r'.portId = f.portId ∧ r'.timeStamp = f.timeStamp ∧ r'.isFinished = true := by
  have hlen := f.currentLen_bounds
  rw [Frame.currentLen, nodePayloadDataIndex] at hlen
  have hfit₀ : 0 + (List.replicate r.nodePacketLen (0 : UInt8)).length ≤ 256 := by simpa using hr
  obtain ⟨p₀, h₀⟩ := copyAt_isSome r.nodePacket hfit₀
  have hfit₁ : nodePayloadDataIndex + f.escapedCurrent.length ≤ 256 := by
    simp only [nodePayloadDataIndex]; omega
  obtain ⟨p₁, h₁⟩ := copyAt_isSome (currentHeader p₀ f.portId) hfit₁
  set crc := littleEndian16
    (crc16Width (p₁.toList.take (nodePayloadDataIndex + f.escapedCurrent.length))) with hcrc
  have hcrcLen : crc.length = 2 := rfl
  have hfit₂ : nodePayloadDataIndex + f.escapedCurrent.length + crc.length ≤ 256 := by
    simp only [nodePayloadDataIndex]; omega
  obtain ⟨p₂, h₂⟩ := copyAt_isSome p₁ hfit₂
  have hfit₃ : nodePayloadDataIndex + f.escapedCurrent.length + crc.length +
      [nodeDelimiter].length ≤ 256 := by
    simp only [nodePayloadDataIndex, List.length_singleton]; omega
  obtain ⟨p₃, h₃⟩ := copyAt_isSome p₂ hfit₃
  refine ⟨{ r with
    portId := f.portId, timeStamp := f.timeStamp, nodePacket := p₃
    nodePacketLen := nodePayloadDataIndex + f.escapedCurrent.length + crc.length + 1
    isFinished := true }, ?_, rfl, rfl, rfl, rfl⟩
  simp only [currentPacket, fill, h₀, h₁, f.copy_current, stored_some, ok_bind, ← hcrc, h₂, h₃]

/-! ### What one frame does -/

section Step

variable {s : Reassembly} {f : Frame}

/-- A rejected frame changes nothing. -/
theorem step_rejected (h : f.kind = .rejected) :
    processOneResponse s f = .ok (⟨.fail, false⟩, s) := by
  simp only [processOneResponse, h]

/-- **A current frame** overwrites the response and leaves the machine where it is. -/
theorem step_current (h : f.kind = .current) (hs : s.response.nodePacketLen ≤ 256) :
    ∃ r, processOneResponse s f = .ok (⟨.ok, false⟩, ⟨s.packetState, r⟩) ∧
      r.nodePacketLen = f.currentLen ∧ r.portId = f.portId ∧ r.timeStamp = f.timeStamp ∧
      r.isFinished = true := by
  obtain ⟨r, hr, hspec⟩ := currentPacket_spec f hs
  exact ⟨r, by simp only [processOneResponse, h, hr, ok_bind], hspec⟩

/-- Outside a packet, a data frame that is no head changes nothing. -/
theorem step_not_head (h : f.kind = .data) (hs : s.packetState = .outPacket) (hf : ¬ f.IsHead) :
    processOneResponse s f = .ok (⟨.fail, false⟩, s) := by
  simp only [processOneResponse, h, hs, if_neg hf]

/-- **A head frame outside a packet** opens one. -/
theorem step_head (h : f.kind = .data) (hs : s.packetState = .outPacket) (hf : f.IsHead) :
    ∃ r, processOneResponse s f = .ok (⟨.ok, false⟩, ⟨.inPacket, r⟩) ∧
      r.bytes = f.payload ∧ r.nodePacketLen = f.payload.length ∧ r.portId = f.portId ∧
      r.timeStamp = f.timeStamp ∧ r.isFinished = false := by
  obtain ⟨r, hr, hspec⟩ := beginPacket_spec h hf
  exact ⟨r, by simp only [processOneResponse, h, hs, if_pos hf, hr, ok_bind], hspec⟩

/-- **A data frame inside a packet** that does not close it is appended to it. -/
theorem step_extend (h : f.kind = .data) (hs : s.packetState = .inPacket) (hc : ¬ f.Closes)
    (hfit : s.response.nodePacketLen + f.payload.length ≤ 256) :
    ∃ r, processOneResponse s f = .ok (⟨.ok, false⟩, ⟨.inPacket, r⟩) ∧
      r.bytes = s.response.bytes ++ f.payload ∧
      r.nodePacketLen = s.response.nodePacketLen + f.payload.length ∧
      r.portId = s.response.portId ∧ r.timeStamp = s.response.timeStamp ∧
      r.isFinished = s.response.isFinished := by
  obtain ⟨r, hr, hspec⟩ := extendPacket_spec h hfit
  exact ⟨r, by simp only [processOneResponse, h, hs, hr, ok_bind, if_neg hc], hspec⟩

/-- **A data frame inside a packet** that is short or ends with a delimiter completes it. -/
theorem step_close (h : f.kind = .data) (hs : s.packetState = .inPacket) (hc : f.Closes)
    (hfit : s.response.nodePacketLen + f.payload.length ≤ 256) :
    ∃ r, processOneResponse s f = .ok (⟨.ok, true⟩, ⟨.outPacket, r⟩) ∧
      r.bytes = s.response.bytes ++ f.payload ∧
      r.nodePacketLen = s.response.nodePacketLen + f.payload.length ∧
      r.portId = s.response.portId ∧ r.timeStamp = s.response.timeStamp ∧
      r.isFinished = true := by
  obtain ⟨r, hr, hbytes, hlen, hport, hstamp, -⟩ := extendPacket_spec h hfit
  refine ⟨{ r with isFinished := true }, ?_, hbytes, hlen, hport, hstamp, rfl⟩
  simp only [processOneResponse, h, hs, hr, ok_bind, if_pos hc]

/-- A data frame inside a packet that has no room left is stored past the end of the buffer. -/
theorem step_overrun (h : f.kind = .data) (hs : s.packetState = .inPacket)
    (hover : 256 < s.response.nodePacketLen + f.payload.length) :
    processOneResponse s f = .error .outOfBounds := by
  simp only [processOneResponse, h, hs, extendPacket, copyAt_eq_none.2 hover, stored_none,
    error_bind]

end Step

end Wsn
