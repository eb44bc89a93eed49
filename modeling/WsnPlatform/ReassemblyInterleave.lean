/-
**Several nodes behind one board.**

Up to eight nodes report through one FPGA, and `process_one_response` keeps a single `packet_state`
and a single `response` for all of them.  This module runs the machine on interleavings of the frame
streams of the eight ports and says which ones it reassembles without mixing nodes: exactly those in
which the frames of every packet arrive together.

Main definitions:

* `Wsn.Interleaving` — packets for each port, and an order of their frames that keeps each port's
  own order;
* `Wsn.Contiguous` — the frames of every packet arrive together;
* `Wsn.NoMixing` — every packet is completed exactly once, at its own port.

Main result:

* `Wsn.noMixing_iff_contiguous` — **no mixing exactly when the frames are contiguous**.
-/

import WsnPlatform.ReassemblyRuns

set_option relaxedAutoImplicit false
set_option autoImplicit false

namespace Wsn

open FaultRun

/-! ### Interleavings -/

/-- The frames with the port of one node. -/
def framesAt (p : Fin 8) (fs : List Frame) : List Frame := fs.filter fun f => f.portId = .ofNat p

/-- `frames` holds the frames of the packets of every port, each port's frames in order. -/
structure Interleaves (sent : Fin 8 → List TimedPacket) (frames : List Frame) : Prop where
  ports : ∀ f ∈ frames, ∃ p : Fin 8, f.portId = .ofNat p
  order : ∀ p, framesAt p frames = (sent p).flatMap (TimedPacket.frames p)

/-- **An interleaving** of the frame streams of the eight ports. -/
structure Interleaving where
  sent : Fin 8 → List TimedPacket
  frames : List Frame
  interleaves : Interleaves sent frames

/-- **The frames of every packet arrive together**: the stream is a sequence of whole packets. -/
def Contiguous (sent : Fin 8 → List TimedPacket) (frames : List Frame) : Prop :=
  ∃ order : List (Fin 8 × TimedPacket), frames = streamOf order ∧
    ∀ p, (order.filter fun q => q.1 = p).map Prod.snd = sent p

/-- **The packets of every port are completed exactly once**, and nothing else is. -/
def CompletedOnce (sent : Fin 8 → List TimedPacket) (rs : List Response) : Prop :=
  (∀ r ∈ rs, ∃ p : Fin 8, r.portId = .ofNat p) ∧
    ∀ p : Fin 8, ((rs.filter fun r => r.portId = .ofNat p).map Response.bytes).Perm
      ((sent p).map TimedPacket.bytes)

/-- **No mixing of nodes**: the run returns, and completes what was sent at each port. -/
def NoMixing (r : Response) (sent : Fin 8 → List TimedPacket) (frames : List Frame) : Prop :=
  ∃ tr s', trace processOneResponse ⟨.outPacket, r⟩ frames = .ok (tr, s') ∧
    CompletedOnce sent (deliveries tr)

/-- Two ports are told apart by their byte. -/
theorem ofNat_port_inj {p q : Fin 8} : UInt8.ofNat p = UInt8.ofNat q ↔ p = q := by
  revert p q
  decide

/-- A completed packet is one of those sent at its port. -/
theorem CompletedOnce.exists_sent {sent : Fin 8 → List TimedPacket} {rs : List Response}
    (h : CompletedOnce sent rs) {r : Response} (hr : r ∈ rs) :
    ∃ p : Fin 8, r.portId = .ofNat p ∧ ∃ t ∈ sent p, r.bytes = t.bytes := by
  obtain ⟨p, hp⟩ := h.1 r hr
  have hmem : r.bytes ∈ (rs.filter fun r => r.portId = .ofNat p).map Response.bytes := by
    refine List.mem_map_of_mem (List.mem_filter.2 ⟨hr, ?_⟩)
    simp [hp]
  obtain ⟨t, ht, hbytes⟩ := List.mem_map.1 ((h.2 p).mem_iff.1 hmem)
  exact ⟨p, hp, t, ht, hbytes.symm⟩

/-! ### Contiguous frames are not mixed -/

/-- The frames of one node's packet, seen from a port. -/
theorem framesAt_frames (p q : Fin 8) (t : TimedPacket) :
    framesAt q (t.frames p) = if p = q then t.frames p else [] := by
  split
  case isTrue h =>
      subst h
      refine List.filter_eq_self.2 fun f hf => ?_
      simp [(t.frames_data p f hf).2]
  case isFalse h =>
      refine List.filter_eq_nil_iff.2 fun f hf => ?_
      simpa [(t.frames_data p f hf).2, ofNat_port_inj] using h

/-- A delivery for each packet, with its bytes and its port. -/
theorem deliveries_stream {sent : List (Fin 8 × TimedPacket)}
    {segs : List (List (Outcome × Reassembly))}
    (h : List.Forall₂ (fun p seg => DeliveredAs p.1 p.2 seg) sent segs) :
    List.Forall₂ (fun (p : Fin 8 × TimedPacket) r => r.bytes = p.2.bytes ∧ r.portId = .ofNat p.1)
      sent (deliveries segs.flatten) := by
  induction h with
  | nil => exact .nil
  | cons hp _ ih =>
      obtain ⟨r, hr, hspec⟩ := hp.deliveries
      rw [List.flatten_cons, deliveries_append, hr]
      exact .cons hspec ih

/-- What is delivered packet by packet is completed exactly once. -/
theorem completedOnce_of_forall₂ {order : List (Fin 8 × TimedPacket)} {rs : List Response}
    (h : List.Forall₂ (fun (p : Fin 8 × TimedPacket) r => r.bytes = p.2.bytes ∧
      r.portId = .ofNat p.1) order rs) {sent : Fin 8 → List TimedPacket}
    (hsent : ∀ p, (order.filter fun q => q.1 = p).map Prod.snd = sent p) :
    CompletedOnce sent rs := by
  constructor
  · intro r hr
    obtain ⟨i, hi, rfl⟩ := List.getElem_of_mem hr
    exact ⟨_, (h.get (h.length_eq ▸ hi) hi).2⟩
  · intro p
    have heq : (rs.filter fun r => r.portId = .ofNat p).map Response.bytes =
        ((order.filter fun q => q.1 = p).map Prod.snd).map TimedPacket.bytes := by
      clear hsent
      induction h with
      | nil => rfl
      | @cons q r order rs hq _ ih =>
          by_cases hqp : q.1 = p
          · have hr : r.portId = .ofNat p := by rw [hq.2, hqp]
            simp only [List.filter_cons, hr, hqp, decide_true, if_true, List.map_cons, hq.1, ih]
          · have hr : ¬ r.portId = .ofNat p := by rwa [hq.2, ofNat_port_inj]
            simp only [List.filter_cons, hr, hqp, decide_false, Bool.false_eq_true, if_false, ih]
    rw [heq, hsent p]

theorem noMixing_of_contiguous {sent : Fin 8 → List TimedPacket} {frames : List Frame}
    (h : Contiguous sent frames) (r : Response) : NoMixing r sent frames := by
  obtain ⟨order, rfl, hsent⟩ := h
  obtain ⟨segs, s', htr, -, hall⟩ := trace_stream order ⟨.outPacket, r⟩ rfl
  exact ⟨segs.flatten, s', htr, completedOnce_of_forall₂ (deliveries_stream hall) hsent⟩

/-! ### Frames that are not contiguous are mixed -/

/-- Where a list follows the elements of one kind, and where it first leaves them. -/
theorem filter_eq_append_cases {α : Type} (P : α → Prop) [DecidablePred P] (ys : List α) :
    ∀ (xs fs : List α), fs.filter P = xs ++ ys →
      (∃ fs', fs = xs ++ fs' ∧ fs'.filter P = ys) ∨
        ∃ xs₁ xs₂ g fs', xs = xs₁ ++ xs₂ ∧ xs₂ ≠ [] ∧ fs = xs₁ ++ g :: fs' ∧ ¬ P g ∧
          fs'.filter P = xs₂ ++ ys := by
  intro xs
  induction xs with
  | nil => exact fun fs h => Or.inl ⟨fs, rfl, h⟩
  | cons x xs ih =>
      intro fs h
      cases fs with
      | nil => simp at h
      | cons f fs =>
          by_cases hf : P f
          · rw [List.filter_cons_of_pos (by simpa using hf), List.cons_append,
              List.cons.injEq] at h
            obtain ⟨rfl, h⟩ := h
            rcases ih fs h with ⟨fs', rfl, h'⟩ | ⟨xs₁, xs₂, g, fs', rfl, hne, rfl, hg, h'⟩
            · exact Or.inl ⟨fs', rfl, h'⟩
            · exact Or.inr ⟨f :: xs₁, xs₂, g, fs', rfl, hne, rfl, hg, h'⟩
          · rw [List.filter_cons_of_neg (by simpa using hf)] at h
            exact Or.inr ⟨[], x :: xs, f, fs, rfl, by simp, rfl, hf, h⟩

/-- What ends a list that is cut in two. -/
theorem append_eq_concat {α : Type} {xs ys mid : List α} {l : α} (h : xs ++ ys = mid ++ [l])
    (hne : ys ≠ []) : ∃ mid₂, ys = mid₂ ++ [l] ∧ mid = xs ++ mid₂ := by
  obtain ⟨mid₂, y, rfl⟩ : ∃ mid₂ y, ys = mid₂ ++ [y] :=
    ⟨ys.dropLast, ys.getLast hne, (List.dropLast_append_getLast hne).symm⟩
  rw [← List.append_assoc] at h
  obtain ⟨rfl, hy⟩ := List.append_inj' h rfl
  cases hy
  exact ⟨mid₂, rfl, rfl⟩

/-- The first frame of a port is the head of its first packet. -/
theorem sent_of_framesAt_cons {sent : List TimedPacket} {p : Fin 8} {f : Frame} {fs : List Frame}
    (h : f :: fs = sent.flatMap (TimedPacket.frames p)) :
    ∃ t ts, sent = t :: ts ∧ f.IsHead ∧ f.payload.head? = some nodeDelimiter ∧ ¬ f.Closes := by
  cases sent with
  | nil => simp at h
  | cons t ts =>
      obtain ⟨head, mid, last, hshape, hhead, hdelim, hopen, -⟩ := t.frames_shape p
      rw [List.flatMap_cons, hshape, List.cons_append, List.cons.injEq] at h
      obtain ⟨rfl, -⟩ := h
      exact ⟨t, ts, rfl, hhead, hdelim, hopen f (by simp)⟩

/-- Every frame of an interleaving is a data frame. -/
theorem Interleaves.data {sent : Fin 8 → List TimedPacket} {fs : List Frame}
    (h : Interleaves sent fs) : ∀ f ∈ fs, f.kind = .data := by
  intro f hf
  obtain ⟨p, hp⟩ := h.ports f hf
  have hmem : f ∈ framesAt p fs := List.mem_filter.2 ⟨hf, by simpa using hp⟩
  rw [h.order p] at hmem
  obtain ⟨t, -, hft⟩ := List.mem_flatMap.1 hmem
  exact (t.frames_data p f hft).1

/-- What is left of an interleaving behind the first packet of a port. -/
theorem Interleaves.tail {sent : Fin 8 → List TimedPacket} {fs : List Frame} {p : Fin 8}
    {t : TimedPacket} {ts : List TimedPacket} (h : Interleaves sent (t.frames p ++ fs))
    (hp : sent p = t :: ts) : Interleaves (Function.update sent p ts) fs := by
  refine ⟨fun f hf => h.ports f (List.mem_append_right _ hf), fun q => ?_⟩
  have horder := h.order q
  rw [framesAt, List.filter_append, ← framesAt, ← framesAt, framesAt_frames] at horder
  by_cases hqp : p = q
  · subst hqp
    rw [if_pos rfl, hp, List.flatMap_cons, List.append_cancel_left_eq] at horder
    rw [horder, Function.update_self]
  · rw [if_neg hqp, List.nil_append] at horder
    rw [horder, Function.update_of_ne (Ne.symm hqp)]

/-- What is left to complete behind the first packet of a port. -/
theorem CompletedOnce.tail {sent : Fin 8 → List TimedPacket} {r : Response} {rs : List Response}
    {p : Fin 8} {t : TimedPacket} {ts : List TimedPacket} (h : CompletedOnce sent (r :: rs))
    (hp : sent p = t :: ts) (hr : r.bytes = t.bytes) (hport : r.portId = .ofNat p) :
    CompletedOnce (Function.update sent p ts) rs := by
  refine ⟨fun r' hr' => h.1 r' (List.mem_cons_of_mem r hr'), fun q => ?_⟩
  have hperm := h.2 q
  by_cases hqp : p = q
  · subst hqp
    rw [List.filter_cons_of_pos (by simpa using hport), hp, List.map_cons, List.map_cons, hr,
      List.perm_cons] at hperm
    rwa [Function.update_self]
  · rw [List.filter_cons_of_neg (by simpa [hport, ofNat_port_inj] using hqp)] at hperm
    rwa [Function.update_of_ne (Ne.symm hqp)]

/-- A whole packet in front of contiguous frames. -/
theorem Contiguous.cons {sent : Fin 8 → List TimedPacket} {fs : List Frame} {p : Fin 8}
    {t : TimedPacket} {ts : List TimedPacket} (hp : sent p = t :: ts)
    (h : Contiguous (Function.update sent p ts) fs) : Contiguous sent (t.frames p ++ fs) := by
  obtain ⟨order, rfl, hsent⟩ := h
  refine ⟨(p, t) :: order, rfl, fun q => ?_⟩
  by_cases hqp : p = q
  · subst hqp
    rw [List.filter_cons_of_pos (by simp), List.map_cons, hsent, Function.update_self, hp]
  · rw [List.filter_cons_of_neg (by simpa using hqp), hsent, Function.update_of_ne (Ne.symm hqp)]

/-- **An interrupted packet is glued to the head that interrupts it.** -/
theorem trace_interrupted {s s' : Reassembly} {tr : List (Outcome × Reassembly)}
    {head g last : Frame} {mid fs : List Frame} (hs : s.packetState = .outPacket)
    (hhead : head.IsHead) (hkind : head.kind = .data)
    (hmid : ∀ f ∈ mid, f.kind = .data ∧ ¬ f.Closes)
    (hg : g.kind = .data) (hgopen : ¬ g.Closes) (hghead : g.IsHead)
    (hdelim : g.payload.head? = some nodeDelimiter) (hfs : ∀ f ∈ fs, f.kind = .data)
    (hlast : last ∈ fs) (hclose : last.Closes)
    (h : trace processOneResponse s (head :: mid ++ g :: fs) = .ok (tr, s')) :
    ∃ r ∈ deliveries tr, Glued r.bytes := by
  obtain ⟨r, hr, hbytes, hlen, -⟩ := step_head hkind hs hhead
  obtain ⟨o, tr₁, hstep, htr₁, rfl⟩ := trace_cons_eq_ok.1 h
  rw [hr] at hstep
  cases hstep
  obtain ⟨tr₂, s₂, tr₃, hmidtr, htr₃, rfl⟩ := trace_append_inv htr₁
  obtain ⟨hin, hbytes₂, -, -⟩ := trace_inside rfl hmid hmidtr
  obtain ⟨o₃, tr₄, hgstep, htr₄, rfl⟩ := trace_cons_eq_ok.1 htr₃
  obtain ⟨hbytes₃, -, -, -, hnot⟩ := step_inside hg hin hgstep
  -- the head of the other packet lands strictly inside what is collected
  have hglued : Glued o₃.2.response.bytes := by
    have hne : s₂.response.bytes ≠ [] := by
      rw [hbytes₂, hbytes]
      refine List.append_ne_nil_of_left_ne_nil ?_ _
      have := Frame.length_payload_of_isHead hkind hhead
      exact List.ne_nil_of_length_pos (by omega)
    have hten := Frame.length_payload_of_isHead hg hghead
    obtain ⟨x, c, hxc⟩ := List.exists_cons_of_length_pos (l := g.payload) (by omega)
    rw [hxc] at hten hdelim
    have hx : x = nodeDelimiter := by simpa using hdelim
    refine ⟨s₂.response.bytes, c, hne, ?_, by rw [hbytes₃, hxc, hx]⟩
    rintro rfl
    simp at hten
  obtain ⟨r', rs, hdel, hr'⟩ := trace_glued (hnot hgopen).2 hglued hfs ⟨last, hlast, hclose⟩ htr₄
  refine ⟨r', ?_, hr'⟩
  rw [deliveries_cons_of_open rfl, deliveries_append, deliveries_cons_of_open (hnot hgopen).1, hdel]
  simp

/-- **A stream that leaves a packet before its last frame mixes two nodes.** -/
theorem glued_of_interrupted {sent : Fin 8 → List TimedPacket} {s s' : Reassembly}
    {tr : List (Outcome × Reassembly)} {p : Fin 8} {t : TimedPacket} {xs₁ xs₂ rest fs : List Frame}
    {g : Frame} (hint : Interleaves sent (xs₁ ++ g :: fs)) (hs : s.packetState = .outPacket)
    (ht : t.frames p = xs₁ ++ xs₂) (h₁ : xs₁ ≠ []) (h₂ : xs₂ ≠ [])
    (hg : ¬ g.portId = .ofNat p) (hrest : framesAt p fs = xs₂ ++ rest)
    (htr : trace processOneResponse s (xs₁ ++ g :: fs) = .ok (tr, s')) :
    ∃ r ∈ deliveries tr, Glued r.bytes := by
  obtain ⟨head, mid, last, hshape, hhead, -, hopen, hclose⟩ := t.frames_shape p
  obtain ⟨head', mid₁, rfl⟩ := List.exists_cons_of_ne_nil h₁
  rw [hshape, List.cons_append, List.cons.injEq] at ht
  obtain ⟨rfl, ht⟩ := ht
  obtain ⟨mid₂, rfl, rfl⟩ := append_eq_concat ht.symm h₂
  have hsub : ∀ e ∈ head :: mid₁, e ∈ head :: (mid₁ ++ mid₂) := by
    intro e he
    rw [← List.cons_append]
    exact List.mem_append_left _ he
  have hdata₁ : ∀ e ∈ head :: mid₁, e.kind = .data ∧ e.portId = .ofNat p := by
    intro e he
    refine t.frames_data p e ?_
    rw [hshape, ← List.cons_append]
    exact List.mem_append_left _ (hsub e he)
  -- the frame that interrupts is the first one of its port
  obtain ⟨q, hq⟩ := hint.ports g (by simp)
  have hpq : p ≠ q := by
    rintro rfl
    exact hg hq
  have hgq : framesAt q (head :: mid₁ ++ g :: fs) = g :: framesAt q fs := by
    have hnone : framesAt q (head :: mid₁) = [] := by
      refine List.filter_eq_nil_iff.2 fun e he => ?_
      simpa [(hdata₁ e he).2, ofNat_port_inj] using hpq
    rw [framesAt, List.filter_append, ← framesAt, hnone, List.nil_append,
      List.filter_cons_of_pos (by simpa using hq), ← framesAt]
  obtain ⟨-, -, -, hghead, hgdelim, hgopen⟩ := sent_of_framesAt_cons (hgq ▸ hint.order q)
  have hdata := hint.data
  have hlast : last ∈ fs := by
    have hmem : last ∈ framesAt p fs := by rw [hrest]; simp
    exact (List.mem_filter.1 hmem).1
  refine trace_interrupted hs hhead (hdata₁ head (by simp)).1 ?_ (hdata g (by simp)) hgopen hghead
    hgdelim (fun e he => hdata e (by simp [he])) hlast hclose htr
  intro e he
  have he' : e ∈ head :: mid₁ := List.mem_cons_of_mem head he
  exact ⟨(hdata₁ e he').1, hopen e (hsub e he')⟩

/-- **Only contiguous frames are reassembled without mixing**, by induction on the stream. -/
theorem contiguous_of_completedOnce : ∀ (n : ℕ) (sent : Fin 8 → List TimedPacket)
    (fs : List Frame) (s s' : Reassembly) (tr : List (Outcome × Reassembly)),
    fs.length = n → Interleaves sent fs → s.packetState = .outPacket →
    trace processOneResponse s fs = .ok (tr, s') → CompletedOnce sent (deliveries tr) →
    Contiguous sent fs := by
  intro n
  induction n using Nat.strong_induction_on with
  | _ n ih =>
      intro sent fs s s' tr hn hint hs htr honce
      cases fs with
      | nil =>
          refine ⟨[], rfl, fun p => ?_⟩
          cases hp : sent p with
          | nil => rfl
          | cons t ts =>
              obtain ⟨head, mid, last, hshape, -⟩ := t.frames_shape p
              have := hint.order p
              rw [hp, List.flatMap_cons, hshape] at this
              cases this
      | cons f fs =>
          obtain ⟨p, hport⟩ := hint.ports f (by simp)
          have horder := hint.order p
          have hfirst : framesAt p (f :: fs) = f :: framesAt p fs :=
            List.filter_cons_of_pos (by simpa using hport)
          obtain ⟨t, ts, hp, -⟩ := sent_of_framesAt_cons (hfirst ▸ horder)
          rw [hp, List.flatMap_cons] at horder
          rcases filter_eq_append_cases _ _ _ _ horder with
            ⟨fs', hfs, -⟩ | ⟨xs₁, xs₂, g, fs', hxs, h₂, hfs, hg, hrest⟩
          -- the first packet arrives as a whole
          · rw [hfs] at hint htr ⊢
            obtain ⟨tr₁, s₁, tr₂, htr₁, htr₂, rfl⟩ := trace_append_inv htr
            obtain ⟨seg, s₂, hseg, hs₂, hdel⟩ := trace_packet p hs t
            rw [hseg] at htr₁
            cases htr₁
            obtain ⟨r, hr, hbytes, hrport⟩ := hdel.deliveries
            rw [deliveries_append, hr] at honce
            have hlt : fs'.length < n := by
              obtain ⟨head, mid, last, hshape, -⟩ := t.frames_shape p
              rw [← hn, hfs, hshape, List.length_append, List.length_cons]
              omega
            exact Contiguous.cons hp (ih _ hlt _ fs' s₁ s' tr₂ rfl (hint.tail hp) hs₂ htr₂
              (honce.tail hp hbytes hrport))
          -- a frame of another port arrives before it is complete
          · have h₁ : xs₁ ≠ [] := by
              rintro rfl
              rw [List.nil_append, List.cons.injEq] at hfs
              exact hg (hfs.1 ▸ hport)
            rw [hfs] at hint htr
            obtain ⟨r, hr, hglued⟩ := glued_of_interrupted hint hs hxs h₁ h₂ hg hrest htr
            obtain ⟨_, -, t', -, hbytes⟩ := honce.exists_sent hr
            exact absurd hbytes (hglued.ne_bytes t')

/-- **No mixing of nodes.**  The machine completes every packet exactly once at its own port when
the frames of every packet arrive together, and on no other interleaving. -/
theorem noMixing_iff_contiguous (r : Response) (i : Interleaving) :
    NoMixing r i.sent i.frames ↔ Contiguous i.sent i.frames := by
  constructor
  · rintro ⟨tr, s', htr, honce⟩
    exact contiguous_of_completedOnce _ i.sent i.frames _ s' tr rfl i.interleaves rfl htr honce
  · intro h
    exact noMixing_of_contiguous h r

/-- Two nodes that send one packet each. -/
def twoNodes (p : Fin 8) : List TimedPacket :=
  if p = firstPort then [shortPacket 1 delimiter_ne_one]
  else if p = secondPort then [shortPacket 2 delimiter_ne_two]
  else []

/-- The frames of the two packets, taking turns. -/
def turns : List Frame :=
  [frameOf firstPort (List.Vector.replicate 4 0) (0x7E :: 0x45 :: List.replicate 8 1),
    frameOf secondPort (List.Vector.replicate 4 0) (0x7E :: 0x45 :: List.replicate 8 2),
    frameOf firstPort (List.Vector.replicate 4 0) [0x7E],
    frameOf secondPort (List.Vector.replicate 4 0) [0x7E]]

theorem interleaves_turns : Interleaves twoNodes turns where
  ports := by
    rw [turns]
    simp only [List.forall_mem_cons]
    exact ⟨⟨firstPort, portId_frameOf _ _ (by decide)⟩,
      ⟨secondPort, portId_frameOf _ _ (by decide)⟩, ⟨firstPort, portId_frameOf _ _ (by decide)⟩,
      ⟨secondPort, portId_frameOf _ _ (by decide)⟩, List.forall_mem_nil _⟩
  order := by
    intro p
    fin_cases p <;> rfl

/-- Two nodes that send a packet of two frames each, with the frames taking turns. -/
def alternating : Interleaving := ⟨twoNodes, turns, interleaves_turns⟩

/-- The two heads end up in one packet at the first port, and the other node's tail is dropped. -/
theorem alternating_mixes :
    (trace processOneResponse .created alternating.frames).map
        (fun run => (deliveries run.1).map fun r => (r.portId, r.bytes)) =
      .ok [(0, 0x7E :: 0x45 :: List.replicate 8 1 ++ 0x7E :: 0x45 :: List.replicate 8 2 ++
        [0x7E])] ∧
    ¬ NoMixing .zero alternating.sent alternating.frames := by
  have hrun : (trace processOneResponse .created alternating.frames).map
        (fun run => (deliveries run.1).map fun r => (r.portId, r.bytes)) =
      .ok [(0, 0x7E :: 0x45 :: List.replicate 8 1 ++ 0x7E :: 0x45 :: List.replicate 8 2 ++
        [0x7E])] := by
    decide +kernel
  refine ⟨hrun, ?_⟩
  rintro ⟨tr, s', htr, -, hperm⟩
  rw [← Reassembly.created] at htr
  rw [htr, Except.map, Except.ok.injEq] at hrun
  obtain ⟨r, hr, hspec⟩ := List.map_eq_singleton_iff.1 hrun
  rw [hr] at hperm
  -- nothing is completed at the second port
  have hnone : ¬ r.portId = .ofNat ((1 : Fin 8) : ℕ) := by
    rw [(Prod.mk.inj hspec).1]
    decide
  have hlen := (hperm 1).length_eq
  rw [List.filter_cons_of_neg (by simpa using hnone)] at hlen
  cases hlen

end Wsn
