/-
**Current frames between the frames of a packet.**

A current frame builds a packet of its own in the response, whatever the response holds, and leaves
`packet_state` alone.  This module compares the run over the frames of a packet with the run over
the same frames with current frames in between, from any state the machine can reach.

Main definitions:

* `Wsn.CurrentFrame` — a frame that `process_one_response` takes for a current frame;
* `Wsn.Gaps` — current frames to insert between the frames of a packet;
* `Wsn.Transparent` — what is completed does not show that they were inserted.

Main result:

* `Wsn.transparent_iff` — **inserted current frames always show**.
-/

import WsnPlatform.ReassemblyRuns

set_option relaxedAutoImplicit false
set_option autoImplicit false

namespace Wsn

open FaultRun

/-! ### The two runs -/

/-- A current frame: it passes the parity check, its data length is `0xF` and its header not
`0xFF`. -/
abbrev CurrentFrame := { f : Frame // f.kind = .current }

/-- A state that the machine reaches from its initial one. -/
abbrev ReachedState := { s : Reassembly // Reaches processOneResponse .created s }

/-- **Current frames between the frames of a packet**: one list for every frame but the first. -/
structure Gaps (t : TimedPacket) where
  gaps : List (List CurrentFrame)
  length_gaps : gaps.length + 1 = t.pieces.length

/-- The frames of the second list, each behind a list of current frames. -/
def weave : List (List CurrentFrame) → List Frame → List Frame
  | gap :: gaps, f :: fs => gap.map Subtype.val ++ f :: weave gaps fs
  | _, fs => fs

/-- The frames of a packet with current frames in between. -/
def Gaps.frames {t : TimedPacket} (g : Gaps t) (port : Fin 8) : List Frame :=
  match t.frames port with
  | [] => []
  | f :: fs => f :: weave g.gaps fs

/-- What the claims about a completed packet look at. -/
def Response.view (r : Response) : UInt8 × List.Vector UInt8 4 × ℕ × List UInt8 :=
  (r.portId, r.timeStamp, r.nodePacketLen, r.bytes)

/-- **Transparency**: what the plain run completes, the run with current frames completes too. -/
def Transparent (s : Reassembly) (port : Fin 8) {t : TimedPacket} (g : Gaps t) : Prop :=
  ∀ rs s₁, Completes s (t.frames port) rs s₁ →
    ∃ rs' s₂, Completes s (g.frames port) rs' s₂ ∧ rs'.map Response.view = rs.map Response.view

/-! ### The length of the packet in progress -/

/-- Outside undefined behaviour, a packet in progress has its head and fits into the buffer. -/
structure LenInvariant (s : Reassembly) : Prop where
  fits : LenFits s
  started : s.packetState = .inPacket → 10 ≤ s.response.nodePacketLen

theorem lenInvariant_created : LenInvariant .created :=
  ⟨lenFits_created, fun h => by cases h⟩

theorem LenInvariant.step {s : Reassembly} {f : Frame} {o : Outcome × Reassembly}
    (hs : LenInvariant s) (h : processOneResponse s f = .ok o) : LenInvariant o.2 := by
  refine ⟨hs.fits.step h, ?_⟩
  cases hkind : f.kind with
  | rejected =>
      rw [step_rejected hkind] at h
      cases h
      exact hs.started
  | current =>
      obtain ⟨r, hr, hlen, -⟩ := step_current hkind hs.fits
      rw [hr] at h
      cases h
      have := f.currentLen_bounds
      exact fun _ => by simp only [hlen]; omega
  | data =>
      cases hst : s.packetState with
      | outPacket =>
          by_cases hhead : f.IsHead
          · obtain ⟨r, hr, -, hlen, -⟩ := step_head hkind hst hhead
            rw [hr] at h
            cases h
            have := Frame.length_payload_of_isHead hkind hhead
            exact fun _ => by simp only [hlen]; omega
          · rw [step_not_head hkind hst hhead] at h
            cases h
            exact hs.started
      | inPacket =>
          obtain ⟨-, hlen, -⟩ := step_inside hkind hst h
          have := hs.started hst
          exact fun _ => by rw [hlen]; omega

theorem ReachedState.lenInvariant (s : ReachedState) : LenInvariant s.1 :=
  s.2.invariant (fun _ _ _ hs h => hs.step h) lenInvariant_created

/-! ### The run with current frames -/

/-- **Current frames inside a packet** complete nothing; if there are any, the packet in progress is
then as long as the packet of the last one. -/
theorem completes_current (gap : List CurrentFrame) :
    ∀ {s : Reassembly}, LenFits s → ∃ s', Completes s (gap.map Subtype.val) [] s' ∧ LenFits s' ∧
      s'.packetState = s.packetState ∧ (gap = [] → s' = s) ∧
      (gap ≠ [] → 16 ≤ s'.response.nodePacketLen ∧ s'.response.nodePacketLen ≤ 18) := by
  induction gap with
  | nil =>
      intro s hs
      exact ⟨s, completes_nil.2 ⟨rfl, rfl⟩, hs, rfl, fun _ => rfl, fun h => absurd rfl h⟩
  | cons f gap ih =>
      intro s hs
      obtain ⟨r, hr, hlen, -⟩ := step_current f.2 hs
      have hbounds := f.1.currentLen_bounds
      have hs₁ : LenFits ⟨s.packetState, r⟩ := by
        simp only [LenFits, hlen]; omega
      obtain ⟨s', ⟨tr, htr, hdel⟩, hfits, hst, hnil, hlen'⟩ := ih hs₁
      refine ⟨s', ⟨_, trace_cons_ok hr htr, ?_⟩, hfits, hst,
        fun h => absurd h (List.cons_ne_nil f gap), fun _ => ?_⟩
      · rw [deliveries_cons_of_open rfl, hdel]
      · by_cases hgap : gap = []
        · rw [hnil hgap]
          exact hlen ▸ hbounds
        · exact hlen' hgap

/-- **The run with current frames falls behind.**  If the plain run has collected `b` bytes when
this run has collected as many or not, then the packet that this run completes is only as long as
the plain one when no current frame was inserted. -/
theorem completes_weave {mid : List Frame} {last : Frame} (hlast : last.kind = .data)
    (hclose : last.Closes) :
    ∀ {gaps : List (List CurrentFrame)} {s s' : Reassembly} {rs : List Response} {b : ℕ},
      (∀ f ∈ mid, f.kind = .data ∧ ¬ f.Closes) → gaps.length = mid.length + 1 →
      s.packetState = .inPacket → LenFits s → (b % 10 = 0 ∨ 20 ≤ b) →
      Completes s (weave gaps (mid ++ [last])) rs s' →
      ∃ r, rs = [r] ∧
        (r.nodePacketLen = b + ((mid ++ [last]).flatMap Frame.payload).length →
          s.response.nodePacketLen = b ∧ ∀ gap ∈ gaps, gap = []) := by
  induction mid with
  | nil =>
      intro gaps s s' rs b _ hgaps hs hfits hb h
      obtain ⟨gap, rfl⟩ := List.length_eq_one_iff.1 hgaps
      obtain ⟨s₁, hgap, -, hst, hnil, hlen⟩ := completes_current gap hfits
      obtain ⟨rs₁, s₂, rs₂, h₁, h₂, rfl⟩ := completes_append.1 h
      obtain ⟨rfl, rfl⟩ := h₁.unique hgap
      obtain ⟨r, rfl, -, -, hr, -⟩ := h₂.closed (hst.trans hs) hlast hclose
      refine ⟨r, rfl, fun hlen' => ?_⟩
      rw [hr, List.nil_append, List.flatMap_singleton, Nat.add_right_cancel_iff] at hlen'
      by_cases hg : gap = []
      · subst hg
        exact ⟨hnil rfl ▸ hlen', by simp⟩
      · have := hlen hg
        omega
  | cons f mid ih =>
      intro gaps s s' rs b hmid hgaps hs hfits hb h
      obtain ⟨gap, gaps, rfl⟩ := List.exists_cons_of_length_pos (l := gaps) (by omega)
      obtain ⟨s₁, hgap, hfits₁, hst, hnil, hlen⟩ := completes_current gap hfits
      obtain ⟨rs₁, s₂, rs₂, h₁, h₂, rfl⟩ := completes_append.1 h
      obtain ⟨rfl, rfl⟩ := h₁.unique hgap
      obtain ⟨tr, htr, rfl⟩ := h₂
      obtain ⟨o, tr', hstep, htr', rfl⟩ := trace_cons_eq_ok.1 htr
      obtain ⟨hkind, hopen⟩ := hmid f (by simp)
      obtain ⟨-, hflen, -, -, hnot⟩ := step_inside hkind (hst.trans hs) hstep
      obtain ⟨hcomp, hin⟩ := hnot hopen
      have hten := Frame.length_payload_of_not_closes hkind hopen
      obtain ⟨r, hr, hrlen⟩ := @ih gaps o.2 s' (deliveries tr') (b + 10)
        (fun g hg => hmid g (List.mem_cons_of_mem f hg)) (by simpa using hgaps) hin
        (hfits₁.step hstep) (by omega) ⟨tr', htr', rfl⟩
      refine ⟨r, by rw [deliveries_cons_of_open hcomp, hr]; rfl, fun hlen' => ?_⟩
      rw [List.cons_append, List.flatMap_cons, List.length_append, hten] at hlen'
      obtain ⟨hb', hgaps'⟩ := hrlen (by omega)
      rw [hflen, hten, Nat.add_right_cancel_iff] at hb'
      by_cases hg : gap = []
      · subst hg
        refine ⟨hnil rfl ▸ hb', fun gap hgap => ?_⟩
        rcases List.mem_cons.1 hgap with rfl | hgap
        · rfl
        · exact hgaps' gap hgap
      · have := hlen hg
        omega

/-! ### The plain run -/

/-- Inside a packet, the frames of another one complete a packet that is as long as both, if there
is room. -/
theorem Completes.packet_inside {s s' : Reassembly} {rs : List Response} {mid : List Frame}
    {last : Frame} (hs : s.packetState = .inPacket) (hmid : ∀ f ∈ mid, f.kind = .data ∧ ¬ f.Closes)
    (hlast : last.kind = .data) (hclose : last.Closes) (h : Completes s (mid ++ [last]) rs s') :
    ∃ r, rs = [r] ∧ r.nodePacketLen ≤ 256 ∧ r.nodePacketLen =
      s.response.nodePacketLen + ((mid ++ [last]).flatMap Frame.payload).length := by
  obtain ⟨rs₁, s₁, rs₂, h₁, h₂, rfl⟩ := completes_append.1 h
  obtain ⟨rfl, hin, -, hlen⟩ := h₁.collected hs hmid
  obtain ⟨r, rfl, -, -, hr, hmax⟩ := h₂.closed hin hlast hclose
  refine ⟨r, rfl, hmax, ?_⟩
  rw [hr, hlen, List.flatMap_append, List.length_append, List.flatMap_singleton, Nat.add_assoc]

/-- And it does complete it then. -/
theorem completes_packet_inside {mid : List Frame} {last : Frame} (hlast : last.kind = .data)
    (hclose : last.Closes) : ∀ {s : Reassembly}, s.packetState = .inPacket →
      (∀ f ∈ mid, f.kind = .data ∧ ¬ f.Closes) →
      s.response.nodePacketLen + ((mid ++ [last]).flatMap Frame.payload).length ≤ 256 →
      ∃ rs s', Completes s (mid ++ [last]) rs s' := by
  induction mid with
  | nil =>
      intro s hs _ hfit
      rw [List.nil_append, List.flatMap_singleton] at hfit
      obtain ⟨r, hr, -⟩ := step_close hlast hs hclose hfit
      exact ⟨_, _, _, trace_cons_ok hr rfl, rfl⟩
  | cons f mid ih =>
      intro s hs hmid hfit
      rw [List.cons_append, List.flatMap_cons, List.length_append] at hfit
      obtain ⟨hkind, hopen⟩ := hmid f (by simp)
      obtain ⟨r, hr, -, hlen, -⟩ := step_extend hkind hs hopen (by omega)
      obtain ⟨rs, s', tr, htr, -⟩ := @ih ⟨.inPacket, r⟩ rfl
        (fun g hg => hmid g (List.mem_cons_of_mem f hg)) (by simp only [hlen]; omega)
      exact ⟨_, s', _, trace_cons_ok hr htr, rfl⟩

/-! ### Current frames always show -/

/-- **The head of a packet, from any state the machine can reach**: if there is room, the packet in
progress is then ten bytes longer, and has a length that no current frame leaves. -/
theorem step_first (s : ReachedState) {f : Frame} (hkind : f.kind = .data) (hf : f.IsHead)
    (hopen : ¬ f.Closes)
    (hfit : s.1.packetState = .inPacket → s.1.response.nodePacketLen + 10 ≤ 256) :
    ∃ o, processOneResponse s.1 f = .ok o ∧ o.1.completed = false ∧ LenFits o.2 ∧
      o.2.packetState = .inPacket ∧ o.2.response.nodePacketLen = (carried s.1).getD 0 + 10 ∧
      (o.2.response.nodePacketLen % 10 = 0 ∨ 20 ≤ o.2.response.nodePacketLen) := by
  have hinv := s.lenInvariant
  have hten := Frame.length_payload_of_isHead hkind hf
  cases hst : s.1.packetState with
  | outPacket =>
      obtain ⟨r, hr, -, hlen, -⟩ := step_head hkind hst hf
      rw [hten] at hlen
      refine ⟨_, hr, rfl, hinv.fits.step hr, rfl, ?_, Or.inl (by simp only [hlen])⟩
      simp only [carried, hst, hlen]
      rfl
  | inPacket =>
      have hten' := hinv.started hst
      have hfit' := hfit hst
      rw [← hten] at hfit'
      obtain ⟨r, hr, -, hlen, -⟩ := step_extend hkind hst hopen hfit'
      rw [hten] at hlen
      refine ⟨_, hr, rfl, hinv.fits.step hr, rfl, ?_, Or.inr (by simp only [hlen]; omega)⟩
      simp only [carried, hst, hlen]
      rfl

theorem weave_of_empty {gaps : List (List CurrentFrame)} :
    ∀ {fs : List Frame}, (∀ gap ∈ gaps, gap = []) → weave gaps fs = fs := by
  induction gaps with
  | nil => exact fun {fs} _ => by cases fs <;> rfl
  | cons gap gaps ih =>
      intro fs h
      cases fs with
      | nil => rfl
      | cons f fs =>
          rw [weave, h gap (by simp), ih fun g hg => h g (List.mem_cons_of_mem gap hg)]
          rfl

/-- The frames of a packet, as the two runs see them. -/
structure Shape (port : Fin 8) (t : TimedPacket) (head : Frame) (mid : List Frame) (last : Frame) :
    Prop where
  frames : t.frames port = head :: (mid ++ [last])
  opensWith : head.kind = .data ∧ head.IsHead
  stayOpen : ∀ f ∈ head :: mid, f.kind = .data ∧ ¬ f.Closes
  closesWith : last.kind = .data ∧ last.Closes
  length : 10 + ((mid ++ [last]).flatMap Frame.payload).length = t.bytes.length

theorem exists_shape (port : Fin 8) (t : TimedPacket) :
    ∃ head mid last, Shape port t head mid last := by
  obtain ⟨head, mid, last, hshape, hhead, -, hopen, hclose⟩ := t.frames_shape port
  have hdata := t.frames_data port
  have hbytes := t.flatMap_payload_frames port
  rw [hshape] at hdata hbytes
  have hkind := (hdata head (by simp)).1
  refine ⟨head, mid, last, hshape, ⟨hkind, hhead⟩, fun f hf => ?_, ⟨(hdata last (by simp)).1, hclose⟩,
    ?_⟩
  · refine ⟨(hdata f ?_).1, hopen f hf⟩
    rw [← List.cons_append]
    exact List.mem_append_left _ hf
  · rw [← hbytes, List.flatMap_cons, List.length_append, Frame.length_payload_of_isHead hkind hhead]

section Packet

variable {port : Fin 8} {t : TimedPacket} {head last : Frame} {mid : List Frame}

theorem Shape.mid_open (hp : Shape port t head mid last) : ∀ f ∈ mid, f.kind = .data ∧ ¬ f.Closes :=
  fun f hf => hp.stayOpen f (List.mem_cons_of_mem head hf)

/-- There is one list of current frames for every frame but the first. -/
theorem Shape.length_gaps (hp : Shape port t head mid last) (g : Gaps t) :
    g.gaps.length = mid.length + 1 := by
  have hlen := g.length_gaps
  have hpieces : (t.frames port).length = t.pieces.length := List.length_map _
  rw [← hpieces, hp.frames] at hlen
  simpa using hlen

/-- **The plain run returns**, if the packet in progress leaves room for the frames. -/
theorem Shape.plain_run (hp : Shape port t head mid last) (s : ReachedState)
    (hroom : ¬ (s.1.packetState = .inPacket ∧
      256 < s.1.response.nodePacketLen + t.bytes.length)) :
    ∃ o, processOneResponse s.1 head = .ok o ∧ o.1.completed = false ∧ LenFits o.2 ∧
      o.2.packetState = .inPacket ∧
      (o.2.response.nodePacketLen % 10 = 0 ∨ 20 ≤ o.2.response.nodePacketLen) ∧
      ∃ rs s₁, Completes o.2 (mid ++ [last]) rs s₁ := by
  have hlen := hp.length
  obtain ⟨o, hstep, hcomp, hfits, hin, ho, hb⟩ := step_first s hp.opensWith.1 hp.opensWith.2
    (hp.stayOpen head (by simp)).2 fun hst => by have := not_and.1 hroom hst; omega
  have hrest : o.2.response.nodePacketLen +
      ((mid ++ [last]).flatMap Frame.payload).length ≤ 256 := by
    have hmax := t.packet.length_bytes_le
    rw [ho]
    cases hst : s.1.packetState with
    | outPacket =>
        simp only [carried, hst, Option.getD_none]
        rw [TimedPacket.bytes] at hlen
        omega
    | inPacket =>
        have := not_and.1 hroom hst
        simp only [carried, hst, Option.getD_some]
        omega
  exact ⟨o, hstep, hcomp, hfits, hin, hb,
    completes_packet_inside hp.closesWith.1 hp.closesWith.2 hin hp.mid_open hrest⟩

/-- **Current frames show**: if the plain run returns, the other one completes a packet of another
length. -/
theorem Shape.gaps_empty (hp : Shape port t head mid last) (s : ReachedState) {g : Gaps t}
    (hroom : ¬ (s.1.packetState = .inPacket ∧
      256 < s.1.response.nodePacketLen + t.bytes.length))
    (h : Transparent s.1 port g) : ∀ gap ∈ g.gaps, gap = [] := by
  simp only [Transparent, Gaps.frames, hp.frames] at h
  obtain ⟨o, hstep, hcomp, hfits, hin, hb, _, s₁, tr, htr, rfl⟩ := hp.plain_run s hroom
  obtain ⟨rs', s₂, ⟨tr₂, htr₂, rfl⟩, hview⟩ := h _ s₁ ⟨_, trace_cons_ok hstep htr, rfl⟩
  obtain ⟨o', tr', hstep', htr', rfl⟩ := trace_cons_eq_ok.1 htr₂
  rw [hstep] at hstep'
  cases hstep'
  obtain ⟨r, hr, -, hrlen⟩ :=
    Completes.packet_inside hin hp.mid_open hp.closesWith.1 hp.closesWith.2 ⟨tr, htr, rfl⟩
  obtain ⟨r', hr', hlen'⟩ := completes_weave hp.closesWith.1 hp.closesWith.2 hp.mid_open
    (hp.length_gaps g) hin hfits hb ⟨tr', htr', rfl⟩
  rw [deliveries_cons_of_open hcomp, deliveries_cons_of_open hcomp, hr, hr', List.map_singleton,
    List.map_singleton, List.singleton_inj] at hview
  have hsame : r'.nodePacketLen = r.nodePacketLen := congrArg (fun v => v.2.2.1) hview
  exact (hlen' (hsame.trans hrlen)).2

/-- Without room, the plain run does not return. -/
theorem Shape.not_completes (hp : Shape port t head mid last) {s s' : Reassembly}
    {rs : List Response} (hst : s.packetState = .inPacket)
    (hover : 256 < s.response.nodePacketLen + t.bytes.length) :
    ¬ Completes s (t.frames port) rs s' := by
  intro h
  rw [hp.frames, ← List.cons_append] at h
  obtain ⟨r, -, hmax, hr⟩ := h.packet_inside hst hp.stayOpen hp.closesWith.1 hp.closesWith.2
  have hlen := hp.length
  rw [List.cons_append, List.flatMap_cons, List.length_append,
    Frame.length_payload_of_isHead hp.opensWith.1 hp.opensWith.2] at hr
  omega

end Packet

/-- **Current frames between the frames of a packet always show in what is completed**, unless there
are none, or the packet in progress leaves no room for the frames themselves. -/
theorem transparent_iff (s : ReachedState) (port : Fin 8) {t : TimedPacket} (g : Gaps t) :
    Transparent s.1 port g ↔ (∀ gap ∈ g.gaps, gap = []) ∨
      (s.1.packetState = .inPacket ∧ 256 < s.1.response.nodePacketLen + t.bytes.length) := by
  obtain ⟨head, mid, last, hp⟩ := exists_shape port t
  constructor
  · intro h
    by_cases hroom : s.1.packetState = .inPacket ∧
        256 < s.1.response.nodePacketLen + t.bytes.length
    · exact Or.inr hroom
    · exact Or.inl (hp.gaps_empty s hroom h)
  · rintro (hempty | ⟨hst, hover⟩) rs s₁ h
    · refine ⟨rs, s₁, ?_, rfl⟩
      rw [Gaps.frames, hp.frames]
      simp only [weave_of_empty hempty]
      rwa [← hp.frames]
    · exact absurd h (hp.not_completes hst hover)

/-- A current frame of port 0, with the value 0. -/
def zeroCurrent : CurrentFrame :=
  ⟨⟨0x0F :: (List.replicate 14 0 ++ [0x0F]), rfl⟩, by decide⟩

/-- One current frame between the two frames of a packet. -/
def oneGap : Gaps (shortPacket 1 delimiter_ne_one) := ⟨[[zeroCurrent]], rfl⟩

/-- The packet that is completed is the tail glued to the packet of the current frame. -/
theorem oneGap_shows :
    (trace processOneResponse .created (oneGap.frames 0)).map
        (fun run => (deliveries run.1).map Response.nodePacketLen) = .ok [17] ∧
      ¬ Transparent .created 0 oneGap := by
  have hrun : (trace processOneResponse .created (oneGap.frames 0)).map
      (fun run => (deliveries run.1).map Response.nodePacketLen) = .ok [17] := by
    decide +kernel
  have hplain : (trace processOneResponse .created ((shortPacket 1 delimiter_ne_one).frames 0)).map
      (fun run => (deliveries run.1).map Response.nodePacketLen) = .ok [11] := by
    decide +kernel
  refine ⟨hrun, fun h => ?_⟩
  obtain ⟨segs, s₁, htr, -⟩ := trace_packet 0 (rfl : Reassembly.created.packetState = .outPacket)
    (shortPacket 1 delimiter_ne_one)
  obtain ⟨rs', s₂, ⟨tr₂, htr₂, rfl⟩, hview⟩ := h _ s₁ ⟨segs, htr, rfl⟩
  rw [htr₂, Except.map, Except.ok.injEq] at hrun
  rw [htr, Except.map, Except.ok.injEq] at hplain
  have hlens := congrArg (List.map fun v => v.2.2.1) hview
  simp only [List.map_map] at hlens
  have hsame : (deliveries tr₂).map Response.nodePacketLen =
      (deliveries segs).map Response.nodePacketLen := hlens
  rw [hrun, hplain] at hsame
  cases hsame

end Wsn
