/-
**Reassembly undoes fragmentation, as long as the buffer has room.**

Runs of `Wsn.processOneResponse` over the frames of whole packets, and over any frames at all.  The
invariant that carries a packet is `Wsn.Collecting`: the machine is inside a packet and the response
holds the bytes of the pieces seen so far.

Main definitions:

* `Wsn.Collecting`, `Wsn.StillOpen`, `Wsn.Delivers` — the state inside a packet, and what the calls
  on its pieces show;
* `Wsn.deliveries`, `Wsn.Completes` — the data packets that a run completes;
* `Wsn.BurstsFit` — no burst of frames carries more than the buffer holds.

Main results:

* `Wsn.trace_packet` — the run over one packet;
* `Wsn.trace_inside`, `Wsn.trace_glued` — the run over data frames that belong to no packet in
  particular;
* `Wsn.reassembly_undoes_fragmentation` — **every packet of a lossless stream is delivered**;
* `Wsn.no_overrun_iff` — **the copies stay in the buffer exactly when the bursts fit**.
-/

import WsnPlatform.NodePacket

set_option relaxedAutoImplicit false
set_option autoImplicit false

namespace Wsn

open FixedBuffer FaultRun

/-! ### Inside a packet -/

/-- **The machine has collected `acc`** of a packet that began with `port` and `stamp`. -/
structure Collecting (s : Reassembly) (port : UInt8) (stamp : List.Vector UInt8 4)
    (acc : List UInt8) : Prop where
  packetState : s.packetState = .inPacket
  nodePacketLen : s.response.nodePacketLen = acc.length
  bytes : s.response.bytes = acc
  portId : s.response.portId = port
  timeStamp : s.response.timeStamp = stamp
  isFinished : s.response.isFinished = false

/-- A call that accepts a piece and leaves the packet open. -/
structure StillOpen (o : Outcome × Reassembly) : Prop where
  outcome : o.1 = ⟨.ok, false⟩
  packetState : o.2.packetState = .inPacket
  isFinished : o.2.response.isFinished = false

/-- A call that completes a packet. -/
structure Delivers (o : Outcome × Reassembly) (port : UInt8) (stamp : List.Vector UInt8 4)
    (bytes : List UInt8) : Prop where
  outcome : o.1 = ⟨.ok, true⟩
  packetState : o.2.packetState = .outPacket
  nodePacketLen : o.2.response.nodePacketLen = bytes.length
  bytes : o.2.response.bytes = bytes
  portId : o.2.response.portId = port
  timeStamp : o.2.response.timeStamp = stamp
  isFinished : o.2.response.isFinished = true

/-- The data packets that a run completes, as the response holds them then. -/
def deliveries (tr : List (Outcome × Reassembly)) : List Response :=
  tr.filterMap fun o => if o.1.completed then some o.2.response else none

@[simp] theorem deliveries_nil : deliveries [] = [] := rfl

@[simp] theorem deliveries_append (tr tr' : List (Outcome × Reassembly)) :
    deliveries (tr ++ tr') = deliveries tr ++ deliveries tr' :=
  List.filterMap_append

theorem deliveries_cons_of_open {o : Outcome × Reassembly} (h : o.1.completed = false)
    (tr : List (Outcome × Reassembly)) : deliveries (o :: tr) = deliveries tr := by
  simp [deliveries, h]

theorem deliveries_cons_of_completed {o : Outcome × Reassembly} (h : o.1.completed = true)
    (tr : List (Outcome × Reassembly)) :
    deliveries (o :: tr) = o.2.response :: deliveries tr := by
  simp [deliveries, h]

/-- A run whose calls complete nothing delivers nothing. -/
theorem deliveries_eq_nil {tr : List (Outcome × Reassembly)}
    (h : ∀ o ∈ tr, o.1.completed = false) : deliveries tr = [] := by
  rw [deliveries, List.filterMap_eq_nil_iff]
  intro o ho
  simp [h o ho]

/-! ### The run over one packet -/

section Packet

variable (port : Fin 8)

/-- A head frame starts the collection. -/
theorem collecting_head {s : Reassembly} (hs : s.packetState = .outPacket) (t : TimedPacket)
    (stamp : List.Vector UInt8 4) :
    ∃ s', processOneResponse s (frameOf port stamp (t.bytes.take 10)) = .ok (⟨.ok, false⟩, s') ∧
      Collecting s' (.ofNat port) stamp (t.bytes.take 10) := by
  have hlen : (t.bytes.take 10).length = 10 := by
    have := t.packet.length_bytes_gt
    simp only [TimedPacket.bytes, List.length_take]; omega
  have hhead := isHead_frameOf port stamp hlen rfl
  have hpay := payload_frameOf port stamp hlen.le
  obtain ⟨r, hr, hbytes, hrlen, hport, hstamp, hfin⟩ :=
    step_head (kind_frameOf port stamp hlen.le) hs hhead
  refine ⟨⟨.inPacket, r⟩, hr, rfl, ?_, ?_, ?_, ?_, hfin⟩
  · rw [hrlen, hpay]
  · rw [hbytes, hpay]
  · rw [hport, portId_frameOf port stamp hlen.le]
  · rw [hstamp, timeStamp_frameOf]

/-- A full piece without a final delimiter continues it. -/
theorem Collecting.extend {s : Reassembly} {p : UInt8} {stamp₀ : List.Vector UInt8 4}
    {acc piece : List UInt8} (h : Collecting s p stamp₀ acc) (stamp : List.Vector UInt8 4)
    (hopen : ¬ ClosingPiece piece) (hfit : acc.length + piece.length ≤ 256) :
    ∃ s', processOneResponse s (frameOf port stamp piece) = .ok (⟨.ok, false⟩, s') ∧
      Collecting s' p stamp₀ (acc ++ piece) := by
  have hlen : piece.length = 10 := not_not.1 (not_or.1 hopen).1
  have hpay := payload_frameOf port stamp hlen.le
  obtain ⟨r, hr, hbytes, hrlen, hport, hstamp, hfin⟩ :=
    step_extend (kind_frameOf port stamp hlen.le) h.packetState
      (mt (closes_frameOf_iff port stamp hlen.le).1 hopen)
      (by rw [hpay, h.nodePacketLen]; exact hfit)
  refine ⟨⟨.inPacket, r⟩, hr, rfl, ?_, ?_, hport.trans h.portId, hstamp.trans h.timeStamp,
    hfin.trans h.isFinished⟩
  · rw [hrlen, hpay, h.nodePacketLen, List.length_append]
  · rw [hbytes, hpay, h.bytes]

/-- A piece that is short or ends with a delimiter completes it. -/
theorem Collecting.close {s : Reassembly} {p : UInt8} {stamp₀ : List.Vector UInt8 4}
    {acc piece : List UInt8} (h : Collecting s p stamp₀ acc) (stamp : List.Vector UInt8 4)
    (hlen : piece.length ≤ 10) (hclose : ClosingPiece piece)
    (hfit : acc.length + piece.length ≤ 256) :
    ∃ o, processOneResponse s (frameOf port stamp piece) = .ok o ∧
      Delivers o p stamp₀ (acc ++ piece) := by
  have hpay := payload_frameOf port stamp hlen
  obtain ⟨r, hr, hbytes, hrlen, hport, hstamp, hfin⟩ :=
    step_close (kind_frameOf port stamp hlen) h.packetState
      ((closes_frameOf_iff port stamp hlen).2 hclose)
      (by rw [hpay, h.nodePacketLen]; exact hfit)
  refine ⟨(⟨.ok, true⟩, ⟨.outPacket, r⟩), hr, rfl, rfl, ?_, ?_, hport.trans h.portId,
    hstamp.trans h.timeStamp, hfin⟩
  · rw [hrlen, hpay, h.nodePacketLen, List.length_append]
  · rw [hbytes, hpay, h.bytes]

/-- **The run over the rest of a packet**: every piece but the last keeps it open, the last one
delivers it. -/
theorem trace_rest {p : UInt8} {stamp₀ : List.Vector UInt8 4} :
    ∀ (pieces : List (List.Vector UInt8 4 × List UInt8)) (l acc : List UInt8) (s : Reassembly),
      Closing l → pieces.map Prod.snd = chunksOf 10 l → Collecting s p stamp₀ acc →
      acc.length + l.length ≤ 256 →
      ∃ pre last, trace processOneResponse s (pieces.map fun q => frameOf port q.1 q.2) =
          .ok (pre ++ [last], last.2) ∧
        (∀ o ∈ pre, StillOpen o) ∧ Delivers last p stamp₀ (acc ++ l) := by
  intro pieces
  induction pieces with
  | nil =>
      intro l acc s hl hp _ _
      exact absurd hp.symm (chunksOf_ne_nil (by decide) hl.ne_nil)
  | cons q pieces ih =>
      intro l acc s hl hp hs hfit
      rcases Nat.lt_or_ge 10 l.length with hlong | hshort
      · -- a full piece: the rest of the packet is what follows it
        rw [chunksOf_of_gt (by decide) hlong, List.map_cons, List.cons.injEq] at hp
        obtain ⟨hq, hp⟩ := hp
        have hlen : q.2.length = 10 := by rw [hq, List.length_take]; omega
        obtain ⟨s', hstep, hs'⟩ :=
          hs.extend port q.1 (hq ▸ hl.not_closingPiece_take hlong) (by omega)
        obtain ⟨pre, last, htr, hpre, hdel⟩ := ih (l.drop 10) (acc ++ q.2) s' (hl.drop hlong) hp hs'
          (by rw [List.length_append, List.length_drop]; omega)
        refine ⟨(⟨.ok, false⟩, s') :: pre, last, trace_cons_ok hstep htr, ?_, ?_⟩
        · intro o ho
          rcases List.mem_cons.1 ho with rfl | ho
          · exact ⟨rfl, hs'.packetState, hs'.isFinished⟩
          · exact hpre o ho
        · rwa [hq, List.append_assoc, List.take_append_drop] at hdel
      · -- the last piece: it is short, or it is full and ends with the delimiter
        rw [chunksOf_of_le hl.ne_nil hshort, List.map_cons, List.cons.injEq,
          List.map_eq_nil_iff] at hp
        obtain ⟨rfl, rfl⟩ := hp
        obtain ⟨o, hstep, hdel⟩ := hs.close port q.1 hshort (Or.inr hl.getLast?) hfit
        exact ⟨[], o, trace_cons_ok hstep rfl, by simp, hdel⟩

/-- What the calls on the frames of a whole packet show. -/
def DeliveredAs (t : TimedPacket) (seg : List (Outcome × Reassembly)) : Prop :=
  seg.length = (t.frames port).length ∧ ∃ pre last, seg = pre ++ [last] ∧
    (∀ o ∈ pre, StillOpen o) ∧ Delivers last (.ofNat port) t.stamp t.bytes

theorem DeliveredAs.deliveries {t : TimedPacket} {seg : List (Outcome × Reassembly)}
    (h : DeliveredAs port t seg) :
    ∃ r, deliveries seg = [r] ∧ r.bytes = t.bytes ∧ r.portId = .ofNat port := by
  obtain ⟨-, pre, last, rfl, hpre, hlast⟩ := h
  refine ⟨last.2.response, ?_, hlast.bytes, hlast.portId⟩
  have hnil : Wsn.deliveries pre = [] :=
    deliveries_eq_nil fun o ho => by rw [(hpre o ho).outcome]
  have hcomp : last.1.completed = true := by rw [hlast.outcome]
  rw [deliveries_append, hnil, deliveries_cons_of_completed hcomp]
  rfl

/-- **The run over one packet**, from outside a packet to outside a packet. -/
theorem trace_packet {s : Reassembly} (hs : s.packetState = .outPacket) (t : TimedPacket) :
    ∃ seg s', trace processOneResponse s (t.frames port) = .ok (seg, s') ∧
      s'.packetState = .outPacket ∧ DeliveredAs port t seg := by
  obtain ⟨stamp, rest, hp, hrest⟩ := t.pieces_cases
  obtain ⟨s₁, hstep, hs₁⟩ := collecting_head port hs t stamp
  have hlen := t.packet.length_bytes_gt
  have hmax := t.packet.length_bytes_le
  obtain ⟨pre, last, htr, hpre, hdel⟩ := trace_rest port rest (t.bytes.drop 10) _ s₁
    t.packet.closing_drop hrest hs₁ (by
      simp only [TimedPacket.bytes, List.length_take, List.length_drop]; omega)
  have hframes : t.frames port = frameOf port stamp (t.bytes.take 10) ::
      rest.map fun q => frameOf port q.1 q.2 := by
    rw [TimedPacket.frames, hp, List.map_cons]
  have hstamp : t.stamp = stamp := by rw [TimedPacket.stamp, hp]
  have htrace : trace processOneResponse s (t.frames port) =
      .ok ((⟨.ok, false⟩, s₁) :: (pre ++ [last]), last.2) := by
    rw [hframes]; exact trace_cons_ok hstep htr
  refine ⟨_, _, htrace, hdel.packetState, trace_length htrace,
    (⟨.ok, false⟩, s₁) :: pre, last, rfl, ?_, ?_⟩
  · intro o ho
    rcases List.mem_cons.1 ho with rfl | ho
    · exact ⟨rfl, hs₁.packetState, hs₁.isFinished⟩
    · exact hpre o ho
  · rw [hstamp]
    rwa [List.take_append_drop] at hdel

end Packet

/-! ### Data frames inside a packet -/

/-- What a call on a data frame inside a packet can do, when it returns. -/
theorem step_inside {s : Reassembly} {f : Frame} {o : Outcome × Reassembly} (hkind : f.kind = .data)
    (hs : s.packetState = .inPacket) (h : processOneResponse s f = .ok o) :
    o.2.response.bytes = s.response.bytes ++ f.payload ∧
      o.2.response.nodePacketLen = s.response.nodePacketLen + f.payload.length ∧
      s.response.nodePacketLen + f.payload.length ≤ 256 ∧
      (f.Closes → o.1.completed = true ∧ o.2.packetState = .outPacket) ∧
      (¬ f.Closes → o.1.completed = false ∧ o.2.packetState = .inPacket) := by
  rcases Nat.lt_or_ge 256 (s.response.nodePacketLen + f.payload.length) with hover | hfit
  · rw [step_overrun hkind hs hover] at h
    cases h
  · by_cases hc : f.Closes
    · obtain ⟨r, hr, hbytes, hlen, -⟩ := step_close hkind hs hc hfit
      rw [hr] at h
      cases h
      exact ⟨hbytes, hlen, hfit, fun _ => ⟨rfl, rfl⟩, fun hnot => absurd hc hnot⟩
    · obtain ⟨r, hr, hbytes, hlen, -⟩ := step_extend hkind hs hc hfit
      rw [hr] at h
      cases h
      exact ⟨hbytes, hlen, hfit, fun hyes => absurd hyes hc, fun _ => ⟨rfl, rfl⟩⟩

/-- **Data frames that do not close are collected**, wherever they come from. -/
theorem trace_inside {fs : List Frame} :
    ∀ {s s' : Reassembly} {tr : List (Outcome × Reassembly)}, s.packetState = .inPacket →
      (∀ f ∈ fs, f.kind = .data ∧ ¬ f.Closes) → trace processOneResponse s fs = .ok (tr, s') →
      s'.packetState = .inPacket ∧ s'.response.bytes = s.response.bytes ++ fs.flatMap Frame.payload ∧
        s'.response.nodePacketLen =
          s.response.nodePacketLen + (fs.flatMap Frame.payload).length ∧
        deliveries tr = [] := by
  induction fs with
  | nil =>
      intro s s' tr hs _ h
      cases h
      simp [hs]
  | cons f fs ih =>
      intro s s' tr hs hfs h
      obtain ⟨o, tr', hstep, htr, rfl⟩ := trace_cons_eq_ok.1 h
      obtain ⟨hkind, hopen⟩ := hfs f (by simp)
      obtain ⟨hbytes, hlen, -, -, hnot⟩ := step_inside hkind hs hstep
      obtain ⟨hcomp, hin⟩ := hnot hopen
      obtain ⟨hin', hbytes', hlen', hdel⟩ :=
        ih hin (fun g hg => hfs g (List.mem_cons_of_mem f hg)) htr
      refine ⟨hin', ?_, ?_, ?_⟩
      · rw [hbytes', hbytes, List.flatMap_cons, List.append_assoc]
      · rw [hlen', hlen, List.flatMap_cons, List.length_append]; omega
      · rw [deliveries_cons_of_open hcomp, hdel]

/-- **Bytes with a delimiter strictly inside**: what two packets glued together look like. -/
def Glued (l : List UInt8) : Prop := ∃ a c, a ≠ [] ∧ c ≠ [] ∧ l = a ++ nodeDelimiter :: c

theorem Glued.append {l : List UInt8} (h : Glued l) (m : List UInt8) : Glued (l ++ m) := by
  obtain ⟨a, c, ha, hc, rfl⟩ := h
  refine ⟨a, c ++ m, ha, fun hnil => hc (List.append_eq_nil_iff.1 hnil).1, ?_⟩
  rw [List.append_assoc, List.cons_append]

theorem Glued.ne_bytes {l : List UInt8} (h : Glued l) (t : TimedPacket) : l ≠ t.bytes := by
  obtain ⟨a, c, ha, hc, rfl⟩ := h
  exact t.packet.no_inner_delimiter ha hc

/-- **Glued bytes are delivered** by the next frame that closes. -/
theorem trace_glued {fs : List Frame} :
    ∀ {s s' : Reassembly} {tr : List (Outcome × Reassembly)}, s.packetState = .inPacket →
      Glued s.response.bytes → (∀ f ∈ fs, f.kind = .data) → (∃ f ∈ fs, f.Closes) →
      trace processOneResponse s fs = .ok (tr, s') →
      ∃ r rs, deliveries tr = r :: rs ∧ Glued r.bytes := by
  induction fs with
  | nil =>
      intro s s' tr _ _ _ hex _
      obtain ⟨f, hf, -⟩ := hex
      cases hf
  | cons f fs ih =>
      intro s s' tr hs hglued hfs hex h
      obtain ⟨o, tr', hstep, htr, rfl⟩ := trace_cons_eq_ok.1 h
      obtain ⟨hbytes, -, -, hyes, hnot⟩ := step_inside (hfs f (by simp)) hs hstep
      have hglued' : Glued o.2.response.bytes := hbytes ▸ hglued.append _
      by_cases hc : f.Closes
      · exact ⟨_, _, deliveries_cons_of_completed (hyes hc).1 tr', hglued'⟩
      · obtain ⟨hcomp, hin⟩ := hnot hc
        obtain ⟨g, hg, hgc⟩ := hex
        have hg' : g ∈ fs := by
          rcases List.mem_cons.1 hg with rfl | hg
          · exact absurd hgc hc
          · exact hg
        rw [deliveries_cons_of_open hcomp]
        exact ih hin hglued' (fun e he => hfs e (List.mem_cons_of_mem f he)) ⟨g, hg', hgc⟩ htr

/-! ### Runs and what they complete -/

/-- A run from `s` to `s'` that completes the packets `rs`. -/
def Completes (s : Reassembly) (fs : List Frame) (rs : List Response) (s' : Reassembly) : Prop :=
  ∃ tr, trace processOneResponse s fs = .ok (tr, s') ∧ deliveries tr = rs

theorem completes_nil {s s' : Reassembly} {rs : List Response} :
    Completes s [] rs s' ↔ rs = [] ∧ s' = s := by
  constructor
  · rintro ⟨tr, htr, rfl⟩
    cases htr
    exact ⟨rfl, rfl⟩
  · rintro ⟨rfl, rfl⟩
    exact ⟨[], rfl, rfl⟩

theorem completes_append {s s'' : Reassembly} {fs gs : List Frame} {rs : List Response} :
    Completes s (fs ++ gs) rs s'' ↔
      ∃ rs₁ s' rs₂, Completes s fs rs₁ s' ∧ Completes s' gs rs₂ s'' ∧ rs = rs₁ ++ rs₂ := by
  constructor
  · rintro ⟨tr, htr, rfl⟩
    obtain ⟨tr₁, s', tr₂, h₁, h₂, rfl⟩ := trace_append_inv htr
    exact ⟨_, s', _, ⟨tr₁, h₁, rfl⟩, ⟨tr₂, h₂, rfl⟩, deliveries_append tr₁ tr₂⟩
  · rintro ⟨_, s', _, ⟨tr₁, h₁, rfl⟩, ⟨tr₂, h₂, rfl⟩, rfl⟩
    exact ⟨tr₁ ++ tr₂, trace_append h₁ h₂, deliveries_append tr₁ tr₂⟩

theorem Completes.unique {s s₁ s₂ : Reassembly} {fs : List Frame} {rs₁ rs₂ : List Response}
    (h₁ : Completes s fs rs₁ s₁) (h₂ : Completes s fs rs₂ s₂) : rs₁ = rs₂ ∧ s₁ = s₂ := by
  obtain ⟨tr₁, htr₁, rfl⟩ := h₁
  obtain ⟨tr₂, htr₂, rfl⟩ := h₂
  rw [htr₁] at htr₂
  cases htr₂
  exact ⟨rfl, rfl⟩

/-- Inside a packet, frames that do not close are collected. -/
theorem Completes.collected {s s' : Reassembly} {fs : List Frame}
    {rs : List Response} (hs : s.packetState = .inPacket)
    (hfs : ∀ f ∈ fs, f.kind = .data ∧ ¬ f.Closes) (h : Completes s fs rs s') :
    rs = [] ∧ s'.packetState = .inPacket ∧
      s'.response.bytes = s.response.bytes ++ fs.flatMap Frame.payload ∧
      s'.response.nodePacketLen =
        s.response.nodePacketLen + (fs.flatMap Frame.payload).length := by
  obtain ⟨tr, htr, rfl⟩ := h
  obtain ⟨hin, hbytes, hlen, hdel⟩ := trace_inside hs hfs htr
  exact ⟨hdel, hin, hbytes, hlen⟩

/-- Inside a packet, a closing frame completes whatever was collected. -/
theorem Completes.closed {s s' : Reassembly} {f : Frame}
    {rs : List Response} (hs : s.packetState = .inPacket) (hkind : f.kind = .data)
    (hf : f.Closes) (h : Completes s [f] rs s') :
    ∃ r, rs = [r] ∧ s'.packetState = .outPacket ∧ r.bytes = s.response.bytes ++ f.payload ∧
      r.nodePacketLen = s.response.nodePacketLen + f.payload.length ∧ r.nodePacketLen ≤ 256 := by
  obtain ⟨tr, htr, rfl⟩ := h
  obtain ⟨o, tr', hstep, htr', rfl⟩ := trace_cons_eq_ok.1 htr
  cases htr'
  obtain ⟨hbytes, hlen, hfit, hyes, -⟩ := step_inside hkind hs hstep
  exact ⟨o.2.response, deliveries_cons_of_completed (hyes hf).1 [], (hyes hf).2, hbytes, hlen,
    hlen ▸ hfit⟩

/-! ### Lossless streams -/

/-- The frames of a list of packets, each sent by the node at its port. -/
def streamOf (sent : List (Fin 8 × TimedPacket)) : List Frame :=
  sent.flatMap fun p => p.2.frames p.1

/-- The run over whole packets, one after the other. -/
theorem trace_stream (sent : List (Fin 8 × TimedPacket)) :
    ∀ s : Reassembly, s.packetState = .outPacket →
      ∃ segs s', trace processOneResponse s (streamOf sent) = .ok (segs.flatten, s') ∧
        s'.packetState = .outPacket ∧
        List.Forall₂ (fun p seg => DeliveredAs p.1 p.2 seg) sent segs := by
  induction sent with
  | nil => exact fun s hs => ⟨[], s, rfl, hs, .nil⟩
  | cons p sent ih =>
      intro s hs
      obtain ⟨seg, s₁, htr, hs₁, hdel⟩ := trace_packet p.1 hs p.2
      obtain ⟨segs, s₂, htr₂, hs₂, hall⟩ := ih s₁ hs₁
      exact ⟨seg :: segs, s₂, trace_append htr htr₂, hs₂, .cons hdel hall⟩

/-- **Reassembly undoes fragmentation.**  From outside a packet, on the frames of any packets in
order, every call returns `RET_OK`; each packet's frames but the last leave it open, and the last
one delivers its bytes with its port and the time stamp of its head frame. -/
theorem reassembly_undoes_fragmentation (r : Response) (sent : List (Fin 8 × TimedPacket)) :
    ∃ segs s', trace processOneResponse ⟨.outPacket, r⟩ (streamOf sent) = .ok (segs.flatten, s') ∧
      List.Forall₂ (fun p seg => DeliveredAs p.1 p.2 seg) sent segs := by
  obtain ⟨segs, s', htr, -, hall⟩ := trace_stream sent ⟨.outPacket, r⟩ rfl
  exact ⟨segs, s', htr, hall⟩

/-! ### Streams of any content -/

/-- **No burst carries more than the buffer holds.**  A burst is a head frame and the data frames
behind it, up to the one that closes the packet.  The first argument is the number of bytes that
the burst in progress has carried, if there is one; a current frame within a burst makes the count
start again from its own length. -/
def BurstsFit : Option ℕ → List Frame → Prop
  | _, [] => True
  | carried, f :: fs =>
      match f.kind, carried with
      | .rejected, _ => BurstsFit carried fs
      | .current, _ => BurstsFit (carried.map fun _ => f.currentLen) fs
      | .data, none => BurstsFit (if f.IsHead then some 10 else none) fs
      | .data, some n => n + f.dataLen.toNat ≤ 256 ∧
          BurstsFit (if f.Closes then none else some (n + f.dataLen.toNat)) fs

/-- Whether the bursts fit can be computed. -/
instance decidableBurstsFit : ∀ (c : Option ℕ) (fs : List Frame), Decidable (BurstsFit c fs)
  | _, [] => isTrue trivial
  | c, f :: fs =>
      match h : f.kind, c with
      | .rejected, c =>
          have := decidableBurstsFit c fs
          decidable_of_iff (BurstsFit c fs) (by simp only [BurstsFit, h])
      | .current, c =>
          have := decidableBurstsFit (c.map fun _ => f.currentLen) fs
          decidable_of_iff (BurstsFit (c.map fun _ => f.currentLen) fs)
            (by simp only [BurstsFit, h])
      | .data, none =>
          have := decidableBurstsFit (if f.IsHead then some 10 else none) fs
          decidable_of_iff (BurstsFit (if f.IsHead then some 10 else none) fs)
            (by simp only [BurstsFit, h])
      | .data, some n =>
          have := decidableBurstsFit (if f.Closes then none else some (n + f.dataLen.toNat)) fs
          decidable_of_iff (n + f.dataLen.toNat ≤ 256 ∧
              BurstsFit (if f.Closes then none else some (n + f.dataLen.toNat)) fs)
            (by simp only [BurstsFit, h])

/-- The bytes of the burst in progress, as the state of the machine shows them. -/
def carried (s : Reassembly) : Option ℕ :=
  match s.packetState with
  | .inPacket => some s.response.nodePacketLen
  | .outPacket => none

/-- What `node_packet_len` is outside of undefined behaviour. -/
def LenFits (s : Reassembly) : Prop := s.response.nodePacketLen ≤ 256

theorem lenFits_created : LenFits .created := Nat.zero_le _

/-- **One frame, as the burst in progress sees it**: it is stored past the end of the buffer, or the
call returns and the burst has grown as `Wsn.BurstsFit` counts it. -/
theorem burstsFit_cons {s : Reassembly} (hs : LenFits s) (f : Frame) (fs : List Frame) :
    (processOneResponse s f = .error .outOfBounds ∧ ¬ BurstsFit (carried s) (f :: fs)) ∨
      ∃ o, processOneResponse s f = .ok o ∧ LenFits o.2 ∧
        (BurstsFit (carried s) (f :: fs) ↔ BurstsFit (carried o.2) fs) := by
  cases hkind : f.kind with
  | rejected =>
      refine Or.inr ⟨_, step_rejected hkind, hs, ?_⟩
      simp only [BurstsFit, hkind]
  | current =>
      obtain ⟨r, hr, hlen, -⟩ := step_current hkind hs
      refine Or.inr ⟨_, hr, ?_, ?_⟩
      · have := f.currentLen_bounds
        simp only [LenFits, hlen]; omega
      · cases hst : s.packetState <;> simp [BurstsFit, hkind, carried, hst, hlen]
  | data =>
      have hpay := Frame.length_payload hkind
      cases hst : s.packetState with
      | outPacket =>
          by_cases hhead : f.IsHead
          · obtain ⟨r, hr, -, hlen, -⟩ := step_head hkind hst hhead
            have hten := Frame.length_payload_of_isHead hkind hhead
            refine Or.inr ⟨_, hr, ?_, ?_⟩
            · simp only [LenFits, hlen]; omega
            · simp [BurstsFit, hkind, carried, hst, hhead, hlen, hten]
          · refine Or.inr ⟨_, step_not_head hkind hst hhead, hs, ?_⟩
            simp [BurstsFit, hkind, carried, hst, hhead]
      | inPacket =>
          rcases Nat.lt_or_ge 256 (s.response.nodePacketLen + f.payload.length) with hover | hfit
          · refine Or.inl ⟨step_overrun hkind hst hover, ?_⟩
            simp only [BurstsFit, hkind, carried, hst, ← hpay]
            omega
          · by_cases hc : f.Closes
            · obtain ⟨r, hr, -, hlen, -⟩ := step_close hkind hst hc hfit
              refine Or.inr ⟨_, hr, by rw [LenFits, hlen]; exact hfit, ?_⟩
              simp [BurstsFit, hkind, carried, hst, hc, ← hpay, hfit]
            · obtain ⟨r, hr, -, hlen, -⟩ := step_extend hkind hst hc hfit
              refine Or.inr ⟨_, hr, by rw [LenFits, hlen]; exact hfit, ?_⟩
              simp [BurstsFit, hkind, carried, hst, hc, ← hpay, hfit, hlen]

theorem LenFits.step {s : Reassembly} {f : Frame} {o : Outcome × Reassembly} (hs : LenFits s)
    (h : processOneResponse s f = .ok o) : LenFits o.2 := by
  rcases burstsFit_cons hs f [] with ⟨herr, -⟩ | ⟨o', hok, ho', -⟩
  · rw [herr] at h
    cases h
  · rw [hok] at h
    cases h
    exact ho'

/-- A run either meets only bursts that fit, and returns, or stores past the end of the buffer. -/
theorem trace_ok_iff_burstsFit (fs : List Frame) :
    ∀ s, LenFits s → (trace processOneResponse s fs ≠ .error .outOfBounds ↔
      BurstsFit (carried s) fs) := by
  induction fs with
  | nil => intro s _; simp [BurstsFit]
  | cons f fs ih =>
      intro s hs
      rcases burstsFit_cons hs f fs with ⟨herr, hnot⟩ | ⟨o, hok, ho, hiff⟩
      · simp only [trace_cons_error herr, ne_eq, not_true_eq_false, hnot]
      · rw [hiff, ← ih o.2 ho]
        cases htr : trace processOneResponse o.2 fs with
        | error e => rw [trace_cons_error_tail hok htr]
        | ok tr => rw [trace_cons_ok hok htr]; simp

/-- **The bytes of every piece are stored inside `node_packet` exactly when the bursts fit.** -/
theorem no_overrun_iff (fs : List Frame) :
    trace processOneResponse .created fs ≠ .error .outOfBounds ↔ BurstsFit none fs :=
  trace_ok_iff_burstsFit fs .created lenFits_created

/-- A head frame and twenty-five full pieces without a delimiter: 260 bytes. -/
def overlongBurst : List Frame :=
  frameOf firstPort (List.Vector.replicate 4 0) (0x7E :: 0x45 :: List.replicate 8 1) ::
    List.replicate 25 (frameOf firstPort (List.Vector.replicate 4 0) (List.replicate 10 1))

/-- The last piece of a packet that is too long is stored past the end of the buffer. -/
theorem overlongBurst_overruns :
    trace processOneResponse .created overlongBurst = .error .outOfBounds := by
  have hburst : ¬ BurstsFit (carried .created) overlongBurst := by decide
  rw [← trace_ok_iff_burstsFit _ _ lenFits_created, not_not] at hburst
  exact hburst

end Wsn
