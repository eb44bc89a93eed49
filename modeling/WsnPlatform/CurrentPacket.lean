/-
**The packet that stands for a current frame.**

`process_one_response` turns a current frame into a node packet of the standard layout.  It clears
as many bytes of `node_packet` as the packet before had, and never writes six of the bytes of the
new one; they are zero because the buffer is zero behind the packet that it holds, in every state.

The protocol description gives every current frame the check byte `0x11`.  The parity check is made
on every frame, before the kind of the frame is looked at.

Main definitions:

* `Wsn.Frame.canonicalPacket` — the node packet that stands for a current frame;
* `Wsn.Clean` — the buffer is zero behind the packet that it holds;
* `Wsn.documentedFrame` — a current frame after its description in `src/app/oint_protocol.h`.

Main results:

* `Wsn.Clean.step` — every frame keeps the buffer clean;
* `Wsn.current_packet_canonical` — **after any run the packet is canonical**;
* `Wsn.documentedFrame_accepted_iff` — when a documented frame is accepted.
-/

import WsnPlatform.PacketTransferCalls
import WsnPlatform.ReassemblyCurrent

set_option relaxedAutoImplicit false
set_option autoImplicit false

namespace Wsn

open FixedBuffer FaultRun

/-! ### The canonical packet -/

/-- The node packet that stands for a current frame. -/
def Frame.canonicalPacket (f : Frame) : List UInt8 :=
  [0x7E, 0x45, 0, 0, 0, f.portId + 1, 0, 3, 0, 0, 0x19] ++ f.escapedCurrent ++ [0, 0, 0x7E]

/-- No escaped byte is a delimiter. -/
theorem delimiter_not_mem_escapeByte (value : UInt8) : nodeDelimiter ∉ escapeByte value := by
  unfold escapeByte
  split
  · next h =>
      rcases h with rfl | rfl
      · decide
      · decide
  · next h =>
      rw [List.mem_singleton]
      exact fun hbad => h (Or.inl hbad.symm)

theorem Frame.portId_le (f : Frame) : f.portId.toNat ≤ 15 := by
  have hle : (f.header >>> 4 &&& 0xF).toNat ≤ 15 := by
    rw [UInt8.toNat_and]
    exact Nat.and_le_right
  exact hle

/-- **A canonical packet has delimiters at its two ends only.** -/
theorem Frame.delimiter_not_mem_canonicalPacket (f : Frame) :
    nodeDelimiter ∉ f.canonicalPacket.tail.dropLast := by
  have hinner : f.canonicalPacket.tail.dropLast =
      [0x45, 0, 0, 0, f.portId + 1, 0, 3, 0, 0, 0x19] ++ f.escapedCurrent ++ [0, 0] := by
    have hend : f.canonicalPacket.tail =
        ([0x45, 0, 0, 0, f.portId + 1, 0, 3, 0, 0, 0x19] ++ f.escapedCurrent ++ [0, 0]) ++
          [0x7E] := by
      simp [Frame.canonicalPacket]
    rw [hend, List.dropLast_concat]
  have hport : nodeDelimiter ≠ f.portId + 1 := by
    intro hbad
    have hle := f.portId_le
    have hnat := congrArg UInt8.toNat hbad
    rw [UInt8.toNat_add] at hnat
    simp only [nodeDelimiter, UInt8.reduceToNat] at hnat
    omega
  have hcurrent : nodeDelimiter ∉ f.escapedCurrent := by
    rw [Frame.escapedCurrent, List.mem_flatMap]
    rintro ⟨value, -, hvalue⟩
    exact delimiter_not_mem_escapeByte value hvalue
  rw [hinner]
  simp only [List.mem_append, List.mem_cons, List.not_mem_nil, or_false, hport, hcurrent]
  decide

/-! ### The buffer behind the packet -/

/-- **The buffer is clean**: it is zero behind the packet that it holds. -/
structure Clean (s : Reassembly) : Prop where
  fits : LenFits s
  padded : PaddedWith 0 s.response.nodePacket s.response.bytes

theorem clean_created : Clean .created := ⟨lenFits_created, paddedWith_replicate 0⟩

/-- The fields that are written into an empty buffer. -/
theorem currentHeader_empty (portId : UInt8) :
    PaddedWith 0 (currentHeader (List.Vector.replicate 256 0) portId)
      [0x7E, 0x45, 0, 0, 0, portId + 1, 0, 3, 0, 0, 0x19] := rfl

/-- A response whose buffer is zero behind some bytes holds these bytes. -/
theorem PaddedWith.bytes_eq {r : Response} {bytes : List UInt8}
    (h : PaddedWith 0 r.nodePacket bytes) (hlen : r.nodePacketLen = bytes.length) :
    r.bytes = bytes := by
  rw [Response.bytes, hlen, h.take]

/-- **A current frame over a clean buffer** makes the canonical packet. -/
theorem currentPacket_canonical {r : Response} (f : Frame) (hlen : r.nodePacketLen ≤ 256)
    (hpadded : PaddedWith 0 r.nodePacket r.bytes) :
    ∃ r', currentPacket r f = .ok r' ∧ PaddedWith 0 r'.nodePacket f.canonicalPacket ∧
      r'.nodePacketLen = f.canonicalPacket.length ∧ r'.isFinished = true := by
  have hbounds := f.currentLen_bounds
  rw [Frame.currentLen, nodePayloadDataIndex] at hbounds
  have hbytes := Response.length_bytes hlen
  rw [← hbytes] at hlen
  have hfit₀ : 0 + (List.replicate r.bytes.length (0 : UInt8)).length ≤ 256 := by simpa using hlen
  obtain ⟨p₀, h₀⟩ := copyAt_isSome r.nodePacket hfit₀
  obtain rfl : p₀ = List.Vector.replicate 256 0 := hpadded.fill h₀
  -- the current value, the checksum and the delimiter, each behind what is stored before
  obtain ⟨p₁, h₁, hp₁⟩ := (currentHeader_empty f.portId).store f.escapedCurrent (by
    simp only [List.length_cons, List.length_nil]
    omega)
  change copyAt _ 11 f.escapedCurrent = some p₁ at h₁
  obtain ⟨front, hfront⟩ : ∃ front,
      front = [0x7E, 0x45, 0, 0, 0, f.portId + 1, 0, 3, 0, 0, 0x19] ++ f.escapedCurrent := ⟨_, rfl⟩
  rw [← hfront] at hp₁
  have hlen₁ : 11 + f.escapedCurrent.length = front.length := by
    rw [hfront, List.length_append]
    rfl
  obtain ⟨p₂, h₂, hp₂⟩ := hp₁.store [0, 0] (by
    simp only [List.length_cons, List.length_nil]
    omega)
  have hlen₂ : (front ++ [0, 0]).length = front.length + 2 := List.length_append
  obtain ⟨p₃, h₃, hp₃⟩ := hp₂.store [nodeDelimiter] (by
    simp only [hlen₂, List.length_singleton]
    omega)
  have hcanonical : front ++ [0, 0] ++ [nodeDelimiter] = f.canonicalPacket := by
    rw [hfront, List.append_assoc]
    rfl
  rw [hcanonical] at hp₃
  refine ⟨{ r with
    portId := f.portId, timeStamp := f.timeStamp, nodePacket := p₃
    nodePacketLen := front.length + 2 + 1, isFinished := true }, ?_, hp₃, ?_, rfl⟩
  · have hzero : littleEndian16 0 = [0, 0] := by decide
    have hcrc : ∀ buf, littleEndian16 (crc16Width buf) = [0, 0] := fun _ => hzero
    rw [hbytes] at h₀
    rw [hlen₂] at h₃
    -- the stores of the branch, in order
    simp only [currentPacket, fill, h₀, f.copy_current, stored_some, ok_bind, h₁, hcrc,
      nodePayloadDataIndex, hlen₁, h₂, List.length_cons, List.length_nil, Nat.zero_add, h₃,
      Nat.reduceAdd]
  · rw [← hcanonical, List.length_append, hlen₂, List.length_singleton]

/-- A current frame in a clean state. -/
theorem Clean.step_current {s : Reassembly} (h : Clean s) {f : Frame} (hkind : f.kind = .current) :
    ∃ r, processOneResponse s f = .ok (⟨.ok, false⟩, ⟨s.packetState, r⟩) ∧
      Clean ⟨s.packetState, r⟩ ∧ r.bytes = f.canonicalPacket ∧
      PaddedWith 0 r.nodePacket f.canonicalPacket ∧ r.isFinished = true := by
  obtain ⟨r, hr, hpadded, hlen, hfin⟩ := currentPacket_canonical f h.fits h.padded
  have hbytes : r.bytes = f.canonicalPacket := PaddedWith.bytes_eq hpadded hlen
  have hfits : r.nodePacketLen ≤ 256 := hlen ▸ hpadded.length_le
  refine ⟨r, by simp only [processOneResponse, hkind, hr, ok_bind], ⟨hfits, ?_⟩, hbytes, hpadded,
    hfin⟩
  exact hbytes ▸ hpadded

/-- The head of a data packet leaves a clean buffer. -/
theorem beginPacket_padded {f : Frame} {r : Response} (hkind : f.kind = .data) (hf : f.IsHead)
    (h : beginPacket f = .ok r) : PaddedWith 0 r.nodePacket r.bytes := by
  obtain ⟨r₁, hr₁, hbytes, -⟩ := beginPacket_spec hkind hf
  obtain rfl : r = r₁ := Except.ok.inj (h.symm.trans hr₁)
  rw [hbytes]
  rw [beginPacket] at h
  cases hcopy : copyAt Response.zero.nodePacket 0 f.payload with
  | none =>
      rw [hcopy] at h
      cases h
  | some p =>
      rw [hcopy] at h
      cases h
      exact (paddedWith_replicate 0).copyAt hcopy

/-- A further piece of a data packet does, if the buffer was clean before. -/
theorem extendPacket_padded {r r' : Response} {f : Frame} (hkind : f.kind = .data)
    (hlen : r.nodePacketLen ≤ 256) (hpadded : PaddedWith 0 r.nodePacket r.bytes)
    (h : extendPacket r f = .ok r') : PaddedWith 0 r'.nodePacket r'.bytes := by
  rw [extendPacket] at h
  cases hcopy : copyAt r.nodePacket r.nodePacketLen f.payload with
  | none =>
      rw [hcopy] at h
      cases h
  | some p =>
      have hfit := le_of_copyAt hcopy
      obtain ⟨r₁, hr₁, hbytes, -⟩ := extendPacket_spec hkind hfit
      rw [extendPacket, hcopy] at hr₁
      rw [hcopy] at h
      obtain rfl : r' = r₁ := Except.ok.inj (h.symm.trans hr₁)
      rw [hbytes]
      cases h
      rw [← Response.length_bytes hlen] at hcopy
      exact hpadded.copyAt hcopy

/-- **Every frame keeps the buffer clean.** -/
theorem Clean.step {s : Reassembly} {f : Frame} {o : Outcome × Reassembly} (hs : Clean s)
    (h : processOneResponse s f = .ok o) : Clean o.2 := by
  refine ⟨hs.fits.step h, ?_⟩
  cases hkind : f.kind with
  | rejected =>
      rw [step_rejected hkind] at h
      cases h
      exact hs.padded
  | current =>
      obtain ⟨r, hr, hclean, -⟩ := hs.step_current hkind
      rw [hr] at h
      cases h
      exact hclean.padded
  | data =>
      cases hst : s.packetState with
      | outPacket =>
          by_cases hf : f.IsHead
          · simp only [processOneResponse, hkind, hst, if_pos hf] at h
            obtain ⟨r, hr, ho⟩ := bind_eq_ok.1 h
            cases ho
            exact beginPacket_padded hkind hf hr
          · rw [step_not_head hkind hst hf] at h
            cases h
            exact hs.padded
      | inPacket =>
          simp only [processOneResponse, hkind, hst] at h
          obtain ⟨r, hr, ho⟩ := bind_eq_ok.1 h
          have hpadded := extendPacket_padded hkind hs.fits hs.padded hr
          split at ho
          · cases ho
            exact hpadded
          · cases ho
            exact hpadded

theorem ReachedState.clean (s : ReachedState) : Clean s.1 :=
  s.2.invariant (fun _ _ _ hs h => hs.step h) clean_created

/-- What makes a frame a current frame. -/
theorem kind_eq_current {f : Frame} (heven : evenCheck f.toList = true)
    (hheader : f.header ≠ respBPacketTypeInvalid) (hlen : f.dataLen = respBPacketTypeCurrent) :
    f.kind = .current := by
  have hne : ¬ (f.header = respBPacketTypeInvalid ∨
      (f.dataLen > respBDataLenMax ∧ f.dataLen ≠ respBPacketTypeCurrent)) := by
    rintro (hbad | ⟨-, hbad⟩)
    · exact hheader hbad
    · exact hbad hlen
  rw [Frame.kind, heven, if_neg Bool.false_ne_true.symm, if_neg hne, if_pos hlen]

/-- **After any run, a current frame leaves the canonical packet**, with delimiters at its two ends
only, and nothing but zeros behind it. -/
theorem current_packet_canonical (s : ReachedState) {f : Frame} (heven : evenCheck f.toList = true)
    (hheader : f.header ≠ respBPacketTypeInvalid) (hlen : f.dataLen = respBPacketTypeCurrent) :
    ∃ r, processOneResponse s.1 f = .ok (⟨.ok, false⟩, ⟨s.1.packetState, r⟩) ∧
      r.nodePacket.toList.take r.nodePacketLen =
        [0x7E, 0x45, 0, 0, 0, f.portId + 1, 0, 3, 0, 0, 0x19] ++
          (slice f respBCurrentIndex respBCurrentWidth).flatMap escapeByte ++ [0, 0, 0x7E] ∧
      0x7E ∉ (r.nodePacket.toList.take r.nodePacketLen).tail.dropLast ∧
      (∀ b ∈ r.nodePacket.toList.drop r.nodePacketLen, b = 0) ∧ r.isFinished = true := by
  obtain ⟨r, hr, hclean, hbytes, hpadded, hfin⟩ :=
    s.clean.step_current (kind_eq_current heven hheader hlen)
  have hlen' : r.nodePacketLen = f.canonicalPacket.length := by
    rw [← hbytes, Response.length_bytes hclean.fits]
  refine ⟨r, hr, hbytes, ?_, ?_, hfin⟩
  · change nodeDelimiter ∉ r.bytes.tail.dropLast
    rw [hbytes]
    exact f.delimiter_not_mem_canonicalPacket
  · rw [hlen']
    exact hpadded.drop

/-- A current frame whose two bytes are to be escaped. -/
def escapedCurrent : Frame :=
  ⟨[0x2F, 0, 0, 0, 1, 0x7E, 0x7D, 0, 0, 0, 0, 0, 0, 0, 0, 0x2D], rfl⟩

/-- It comes inside a packet that has begun. -/
theorem escapedCurrent_canonical :
    ∃ s : ReachedState, s.1.packetState = .inPacket ∧ s.1.response.nodePacketLen = 10 ∧
      ∃ r, processOneResponse s.1 escapedCurrent =
          .ok (⟨.ok, false⟩, ⟨s.1.packetState, r⟩) ∧
        r.nodePacket.toList.take r.nodePacketLen =
          [0x7E, 0x45, 0, 0, 0, escapedCurrent.portId + 1, 0, 3, 0, 0, 0x19] ++
            (slice escapedCurrent respBCurrentIndex respBCurrentWidth).flatMap escapeByte ++
              [0, 0, 0x7E] ∧
        0x7E ∉ (r.nodePacket.toList.take r.nodePacketLen).tail.dropLast ∧
        (∀ b ∈ r.nodePacket.toList.drop r.nodePacketLen, b = 0) ∧ r.isFinished = true := by
  obtain ⟨r, hr, -, hlen, -⟩ := step_head (s := .created) (f := headFrame) (by decide) rfl
    (by decide)
  have hrun : trace processOneResponse .created [headFrame] =
      .ok ([⟨⟨.ok, false⟩, ⟨.inPacket, r⟩⟩], ⟨.inPacket, r⟩) := by
    rw [trace, hr]
    rfl
  exact ⟨⟨⟨.inPacket, r⟩, _, _, hrun⟩, rfl, hlen,
    current_packet_canonical _ (by decide) (by decide) (by decide)⟩

/-! ### The frames of the description -/

/-- **A current frame after its description**: the port and `0xF`, the time stamp, the current
value, and `0x11` for the rest of the data and for the check byte. -/
def documentedFrame (port : Fin 8) (stamp : List.Vector UInt8 4) (high low : UInt8) : Frame :=
  ⟨respBHeader (.ofNat port) 0xF ::
      (stamp.toList ++ [high, low] ++ List.replicate 8 0x11) ++ [0x11], by simp⟩

/-- The bytes of a documented frame that are not fixed. -/
def freeBytes (port : Fin 8) (stamp : List.Vector UInt8 4) (high low : UInt8) : List UInt8 :=
  respBHeader (.ofNat port) 0xF :: (stamp.toList ++ [high, low])

section Documented

variable (port : Fin 8) (stamp : List.Vector UInt8 4) (high low : UInt8)

/-- Eight bytes `0x11` cancel out, and the check byte is left. -/
theorem evenCheck_documentedFrame :
    evenCheck (documentedFrame port stamp high low).toList = true ↔
      xorSum (freeBytes port stamp high low) = 0x11 := by
  have hlist : (documentedFrame port stamp high low).toList =
      freeBytes port stamp high low ++ (List.replicate 8 0x11 ++ [0x11]) := by
    simp only [documentedFrame, freeBytes, List.Vector.toList_mk, List.cons_append,
      List.append_assoc]
  have hfixed : xorSum (List.replicate 8 0x11 ++ [0x11]) = 0x11 := by decide
  rw [evenCheck_eq, hlist, xorSum_append, hfixed, beq_iff_eq, UInt8.xor_eq_zero_iff]

theorem header_documentedFrame_ne :
    (documentedFrame port stamp high low).header ≠ respBPacketTypeInvalid := by
  have hports : ∀ p : Fin 8, respBHeader (.ofNat p) 0xF ≠ respBPacketTypeInvalid := by decide
  exact hports port

theorem dataLen_documentedFrame :
    (documentedFrame port stamp high low).dataLen = respBPacketTypeCurrent := by
  have hports : ∀ p : Fin 8, respBGetDataLen (respBHeader (.ofNat p) 0xF) =
      respBPacketTypeCurrent := by decide
  exact hports port

end Documented

/-- **A frame is accepted**: the call returns `RET_OK` with a finished response. -/
def Accepted (thiz : PacketTransfer) (f : Frame) : Prop :=
  ∃ thiz', thiz.processOneResponse f = .ok (.ok, thiz') ∧ thiz'.response.isFinished = true

/-- A frame that fails the parity check is not accepted. -/
theorem not_accepted_of_odd {thiz : PacketTransfer} {f : Frame} (h : evenCheck f.toList = false) :
    ¬ Accepted thiz f := by
  have hkind : f.kind = .rejected := if_pos h
  rintro ⟨thiz', hrun, -⟩
  rw [processOneResponse_quiet (step_rejected hkind) rfl] at hrun
  cases hrun

/-- A current frame is accepted, whatever the object has done before. -/
theorem Sound.accepted_current {thiz : PacketTransfer} (h : Sound thiz) {f : Frame}
    (hkind : f.kind = .current) : Accepted thiz f := by
  obtain ⟨r, hr, -, -, -, hfin⟩ := Wsn.step_current hkind h.lenFits
  exact ⟨_, processOneResponse_quiet hr rfl, hfin⟩

/-- **A documented frame is accepted**, in any state that is reached, exactly when the XOR of its
header, its time stamp and its current value is `0x11`. -/
theorem documentedFrame_accepted_iff {board : GatherBoard} {lists : Fin nodeNum → Bool}
    (thiz : Reached board lists) (port : Fin 8) (stamp : List.Vector UInt8 4) (high low : UInt8) :
    Accepted thiz.1 (documentedFrame port stamp high low) ↔
      xorSum (respBHeader (.ofNat port) 0xF :: (stamp.toList ++ [high, low])) = 0x11 := by
  have heven := evenCheck_documentedFrame port stamp high low
  constructor
  · intro h
    by_contra hne
    have hodd : evenCheck (documentedFrame port stamp high low).toList = false :=
      Bool.eq_false_iff.2 (mt heven.1 hne)
    exact not_accepted_of_odd hodd h
  · intro h
    exact thiz.sound.accepted_current (kind_eq_current (heven.2 h)
      (header_documentedFrame_ne port stamp high low) (dataLen_documentedFrame port stamp high low))

/-- A documented frame of port 0, with time stamp and current value 0, is refused by a new object.
-/
theorem documentedFrame_refused :
    (packetTransferCreate willingBoard fun _ => true).processOneResponse
        (documentedFrame 0 (List.Vector.replicate 4 0) 0 0) =
      .ok (.fail, packetTransferCreate willingBoard fun _ => true) ∧
    ¬ Accepted (packetTransferCreate willingBoard fun _ => true)
      (documentedFrame 0 (List.Vector.replicate 4 0) 0 0) := by
  have hodd : evenCheck (documentedFrame 0 (List.Vector.replicate 4 0) 0 0).toList = false := by
    decide
  have hkind : (documentedFrame 0 (List.Vector.replicate 4 0) 0 0).kind = .rejected := if_pos hodd
  exact ⟨processOneResponse_quiet (step_rejected hkind) rfl, not_accepted_of_odd hodd⟩

end Wsn
