/-
**The type of a response.**

`process_one_response` fills `response.type` when the first frame of a data packet arrives, from the
byte at `RESP_B_TYPE_INDEX`.  The payload type is the eleventh byte of the node packet, so it
travels in the second frame; the byte at that index of the first one is its check byte.

Main definitions:

* `Wsn.NodePacket.payloadType` — the payload type of a node packet;
* `Wsn.TimedPacket.headCheck` — the check byte of the first frame of a packet.

Main results:

* `Wsn.trace_type` — the frames inside a packet leave the type alone;
* `Wsn.response_type_iff` — the type of the response is that of the packet exactly when the check
  byte of its first frame happens to be.
-/

import WsnPlatform.ReassemblyRuns

set_option relaxedAutoImplicit false
set_option autoImplicit false

namespace Wsn

open FixedBuffer FaultRun

/-! ### What one frame does to the type -/

/-- A head frame sets the type to its byte at `RESP_B_TYPE_INDEX`. -/
theorem type_head {s : Reassembly} {f : Frame} {o : Outcome × Reassembly} (hkind : f.kind = .data)
    (hs : s.packetState = .outPacket) (hf : f.IsHead) (h : processOneResponse s f = .ok o) :
    o.2.response.type = f.typeByte := by
  simp only [processOneResponse, hkind, hs, if_pos hf, beginPacket] at h
  obtain ⟨r, hr, ho⟩ := bind_eq_ok.1 h
  obtain ⟨p, -, hp⟩ := bind_eq_ok.1 hr
  cases hp
  cases ho
  rfl

/-- A data frame inside a packet leaves the type alone. -/
theorem type_inside {s : Reassembly} {f : Frame} {o : Outcome × Reassembly} (hkind : f.kind = .data)
    (hs : s.packetState = .inPacket) (h : processOneResponse s f = .ok o) :
    o.2.response.type = s.response.type := by
  simp only [processOneResponse, hkind, hs, extendPacket] at h
  obtain ⟨r, hr, ho⟩ := bind_eq_ok.1 h
  obtain ⟨p, -, hp⟩ := bind_eq_ok.1 hr
  cases hp
  split at ho
  · cases ho
    rfl
  · cases ho
    rfl

/-! ### The run over one packet -/

/-- **The frames inside a packet leave the type alone**, up to the one that completes it. -/
theorem trace_type {fs : List Frame} {pre : List (Outcome × Reassembly)}
    {last : Outcome × Reassembly} : ∀ {s s' : Reassembly}, s.packetState = .inPacket →
      (∀ f ∈ fs, f.kind = .data) → trace processOneResponse s fs = .ok (pre ++ [last], s') →
      (∀ o ∈ pre, StillOpen o) → last.2.response.type = s.response.type := by
  induction fs generalizing pre with
  | nil =>
      intro s s' _ _ h _
      cases pre <;> cases h
  | cons f fs ih =>
      intro s s' hs hkind h hpre
      obtain ⟨o, tr, hstep, htr, hcons⟩ := trace_cons_eq_ok.1 h
      have htype := type_inside (hkind f (by simp)) hs hstep
      cases pre with
      | nil =>
          obtain ⟨rfl, -⟩ := List.cons.inj hcons
          exact htype
      | cons q pre =>
          obtain ⟨rfl, rfl⟩ := List.cons.inj hcons
          have hopen := (hpre q (by simp)).packetState
          rw [ih hopen (fun g hg => hkind g (List.mem_cons_of_mem f hg)) htr
            fun o ho => hpre o (List.mem_cons_of_mem q ho), htype]

/-- The payload type of a node packet: its byte at `NODE_PAYLOAD_TYPE_INDEX`. -/
def NodePacket.payloadType (P : NodePacket) : UInt8 :=
  P.bytes.get ⟨nodePayloadTypeIndex, P.length_bytes_gt⟩

/-- The check byte of the first frame of a packet: the XOR of its header, its time stamp and the
first ten bytes of the packet. -/
def TimedPacket.headCheck (t : TimedPacket) (port : Fin 8) : UInt8 :=
  xorSum (frameBody port t.stamp (t.bytes.take 10))

theorem typeByte_frameOf (port : Fin 8) (stamp : List.Vector UInt8 4) (piece : List UInt8) :
    (frameOf port stamp piece).typeByte = xorSum (frameBody port stamp piece) := by
  have hlen := length_frameBody port stamp piece
  have hget : (frameBody port stamp piece ++ [xorSum (frameBody port stamp piece)])[15]? =
      some (xorSum (frameBody port stamp piece)) := by
    rw [List.getElem?_append_right hlen.le, hlen]
    rfl
  exact (List.getElem?_eq_some_iff.1 hget).2

/-- When a packet is complete, the type of the response is the check byte of its first frame. -/
theorem type_packet {s s' : Reassembly} (hs : s.packetState = .outPacket) (t : TimedPacket)
    (port : Fin 8) {pre : List (Outcome × Reassembly)} {last : Outcome × Reassembly}
    (h : trace processOneResponse s (t.frames port) = .ok (pre ++ [last], s'))
    (hpre : ∀ o ∈ pre, StillOpen o) (hlast : last.1.completed = true) :
    last.2.response.type = t.headCheck port := by
  obtain ⟨stamp, rest, hp, -⟩ := t.pieces_cases
  have hlen : (t.bytes.take 10).length = 10 := by
    rw [List.length_take]
    exact Nat.min_eq_left t.packet.length_bytes_gt.le
  have hframes : t.frames port = frameOf port stamp (t.bytes.take 10) ::
      rest.map fun q => frameOf port q.1 q.2 := by
    rw [TimedPacket.frames, hp, List.map_cons]
  have hcheck : t.headCheck port = (frameOf port stamp (t.bytes.take 10)).typeByte := by
    rw [typeByte_frameOf, TimedPacket.headCheck, TimedPacket.stamp, hp]
  have hdata := t.frames_data port
  rw [hframes] at h hdata
  obtain ⟨o, tr, hstep, htr, hcons⟩ := trace_cons_eq_ok.1 h
  have htype := type_head (hdata _ (by simp)).1 hs (isHead_frameOf port stamp hlen rfl) hstep
  cases pre with
  | nil =>
      -- the head frame completes nothing
      obtain ⟨s₁, hstep₁, -⟩ := collecting_head port hs t stamp
      obtain ⟨rfl, -⟩ := List.cons.inj hcons
      rw [hstep₁] at hstep
      cases hstep
      cases hlast
  | cons q pre =>
      obtain ⟨rfl, rfl⟩ := List.cons.inj hcons
      rw [trace_type (hpre q (by simp)).packetState
        (fun g hg => (hdata g (List.mem_cons_of_mem _ hg)).1) htr
        (fun o ho => hpre o (List.mem_cons_of_mem q ho)), htype, hcheck]

/-- A byte of a response that holds a node packet. -/
theorem get_nodePacket {r : Response} {P : NodePacket} (h : r.bytes = P.bytes) :
    r.nodePacket.get ⟨nodePayloadTypeIndex, by decide⟩ = P.payloadType := by
  have hbyte : r.bytes[nodePayloadTypeIndex]? = some P.payloadType := by
    rw [h]
    exact List.getElem?_eq_getElem P.length_bytes_gt
  have hnode : r.nodePacket.toList[nodePayloadTypeIndex]? = some P.payloadType := by
    rw [Response.bytes, List.getElem?_take] at hbyte
    exact (Option.ite_none_right_eq_some.1 hbyte).2
  exact (List.getElem?_eq_some_iff.1 hnode).2

/-- **The type of a response**, at the frame that completes the packet, is the payload type of the
packet exactly when the check byte of its first frame is. -/
theorem response_type_iff {s : Reassembly} (hs : s.packetState = .outPacket) (t : TimedPacket)
    (port : Fin 8) :
    ∃ pre last s', trace processOneResponse s (t.frames port) = .ok (pre ++ [last], s') ∧
      (∀ o ∈ pre, StillOpen o) ∧ Delivers last (.ofNat port) t.stamp t.bytes ∧
      (last.2.response.type = last.2.response.nodePacket.get ⟨nodePayloadTypeIndex, by decide⟩ ↔
        t.headCheck port = t.packet.payloadType) := by
  obtain ⟨seg, s', htrace, -, -, pre, last, rfl, hpre, hdel⟩ := trace_packet port hs t
  have hlast : last.1.completed = true := by rw [hdel.outcome]
  refine ⟨pre, last, s', htrace, hpre, hdel, ?_⟩
  rw [type_packet hs t port htrace hpre hlast, get_nodePacket hdel.bytes]

/-- A packet of fourteen bytes. -/
def fourteenBytes : TimedPacket where
  packet :=
    { body := List.replicate 11 1
      body_min := by simp
      body_max := by simp
      no_delimiter := fun hmem => delimiter_ne_one (List.eq_of_mem_replicate hmem) }
  pieces :=
    [(List.Vector.replicate 4 0, 0x7E :: 0x45 :: List.replicate 8 1),
      (List.Vector.replicate 4 0, [1, 1, 1, 0x7E])]
  pieces_eq := rfl

theorem fourteenBytes_type :
    ∃ pre last s', trace processOneResponse .created (fourteenBytes.frames firstPort) =
        .ok (pre ++ [last], s') ∧
      (∀ o ∈ pre, StillOpen o) ∧
      Delivers last (.ofNat firstPort) fourteenBytes.stamp fourteenBytes.bytes ∧
      (last.2.response.type = last.2.response.nodePacket.get ⟨nodePayloadTypeIndex, by decide⟩ ↔
        fourteenBytes.headCheck firstPort = fourteenBytes.packet.payloadType) :=
  response_type_iff rfl fourteenBytes firstPort

/-- The payload type of the packet is 1, and the type of the response `0x31`. -/
theorem fourteenBytes_wrong_type :
    ∃ pre last s', trace processOneResponse .created (fourteenBytes.frames firstPort) =
        .ok (pre ++ [last], s') ∧
      Delivers last (.ofNat firstPort) fourteenBytes.stamp fourteenBytes.bytes ∧
      last.2.response.type = 0x31 ∧
      last.2.response.nodePacket.get ⟨nodePayloadTypeIndex, by decide⟩ = 1 := by
  have hout : Reassembly.created.packetState = .outPacket := rfl
  obtain ⟨seg, s', htrace, -, -, pre, last, rfl, hpre, hdel⟩ :=
    trace_packet firstPort hout fourteenBytes
  have hlast : last.1.completed = true := by rw [hdel.outcome]
  have htype := type_packet hout fourteenBytes firstPort htrace hpre hlast
  exact ⟨pre, last, s', htrace, hdel, htype.trans (by decide),
    (get_nodePacket hdel.bytes).trans (by decide)⟩

end Wsn
