/-
**Frames that do not arrive.**

Some of the frames of a stream are lost on the way, and some arrive damaged and fail the parity
check.  Outside a packet the machine waits for the next head, as its comment says; inside one it
takes whatever data frame comes next for the continuation, a head included.  This module says on
which streams with losses the machine still completes the packets that arrive whole, and only
packets that were sent.

Main definitions:

* `Wsn.Transit` — a packet with the fate of each of its frames;
* `Wsn.DeliversSent` — what the run completes was sent, and what arrives whole is completed;
* `Wsn.Splice` — packets that the machine glues together;
* `Wsn.CutsHarmless` — what is glued together is nevertheless, by chance, a packet that was sent.

Main result:

* `Wsn.deliversSent_iff` — **nothing corrupted is delivered exactly when the cuts are harmless**.
-/

import WsnPlatform.ReassemblyRuns

set_option relaxedAutoImplicit false
set_option autoImplicit false

namespace Wsn

open FaultRun

/-! ### Streams with losses -/

/-- What happens to a frame on its way. -/
inductive Fate
  | received
  | lost
  /-- Another frame arrives in its place, and fails the parity check. -/
  | damaged (g : Frame) (h : evenCheck g.toList = false)

namespace Fate

def isReceived : Fate → Bool
  | received => true
  | lost => false
  | damaged _ _ => false

/-- What arrives of a frame. -/
def arrival (f : Frame) : Fate → List Frame
  | received => [f]
  | lost => []
  | damaged g _ => [g]

end Fate

/-- **A packet on its way**, with the fate of the frame of each piece. -/
structure Transit where
  sent : TimedPacket
  legs : List ((List.Vector UInt8 4 × List UInt8) × Fate)
  legs_eq : legs.map Prod.fst = sent.pieces

namespace Transit

/-- The pieces whose frames arrive undamaged. -/
def received (t : Transit) : List (List.Vector UInt8 4 × List UInt8) :=
  (t.legs.filter fun l => l.2.isReceived).map Prod.fst

def whole (t : Transit) : Bool := t.legs.all fun l => l.2.isReceived

def headReceived (t : Transit) : Bool := t.legs.head?.any fun l => l.2.isReceived

def lastReceived (t : Transit) : Bool := t.legs.getLast?.any fun l => l.2.isReceived

/-- What arrives of the frames of a packet. -/
def arrivals (port : Fin 8) (t : Transit) : List Frame :=
  t.legs.flatMap fun l => l.2.arrival (frameOf port l.1.1 l.1.2)

def receivedFrames (port : Fin 8) (t : Transit) : List Frame :=
  t.received.map fun q => frameOf port q.1 q.2

end Transit

/-- The bytes that arrive of a list of packets. -/
def receivedBytes (ts : List Transit) : List UInt8 :=
  (ts.flatMap Transit.received).flatMap Prod.snd

theorem receivedBytes_append (ts ts' : List Transit) :
    receivedBytes (ts ++ ts') = receivedBytes ts ++ receivedBytes ts' := by
  rw [receivedBytes, List.flatMap_append, List.flatMap_append]
  rfl

/-- **Packets that are glued together**: the head arrives of the first one, and the last frame of
none but the final one, `u`. -/
structure Splice (g : List Transit) (u : Transit) : Prop where
  opens : (g ++ [u]).head?.any Transit.headReceived = true
  inner : ∀ t ∈ g, t.lastReceived = false
  closes : u.lastReceived = true

/-- **The cuts are harmless.**  A packet without its head is dropped, and a whole one is completed.
Of a packet that is cut short behind its head, either nothing is closed any more, and what arrives
fits into the buffer, or the bytes that arrive up to the next closing frame are, by chance, those of
a packet that was sent. -/
inductive CutsHarmless (sent : List Transit) : List Transit → Prop
  | nil : CutsHarmless sent []
  | dropped {t : Transit} {ts : List Transit} : t.headReceived = false → CutsHarmless sent ts →
      CutsHarmless sent (t :: ts)
  | whole {t : Transit} {ts : List Transit} : t.whole = true → CutsHarmless sent ts →
      CutsHarmless sent (t :: ts)
  | unclosed {t : Transit} {ts : List Transit} : t.headReceived = true →
      (∀ u ∈ t :: ts, u.lastReceived = false) → (receivedBytes (t :: ts)).length ≤ 256 →
      CutsHarmless sent (t :: ts)
  | chance {g : List Transit} {u : Transit} {ts : List Transit} : Splice g u → u.whole = false →
      (∃ v ∈ sent, receivedBytes (g ++ [u]) = v.sent.bytes) → CutsHarmless sent ts →
      CutsHarmless sent (g ++ u :: ts)

/-! ### Damaged frames -/

/-- A rejected frame is as good as none. -/
theorem completes_rejected {s s' : Reassembly} {f : Frame} (hf : f.kind = .rejected)
    {rs : List Response} : Completes s [f] rs s' ↔ Completes s [] rs s' := by
  have hone : Completes s [f] [] s :=
    ⟨[(⟨.fail, false⟩, s)], trace_cons_ok (step_rejected hf) rfl, rfl⟩
  rw [completes_nil]
  constructor
  · intro h
    obtain ⟨h₁, h₂⟩ := h.unique hone
    exact ⟨h₁, h₂⟩
  · rintro ⟨rfl, rfl⟩
    exact hone

/-- A leg: a piece of a packet, and the fate of its frame. -/
abbrev Leg := (List.Vector UInt8 4 × List UInt8) × Fate

/-- The frames of some legs that arrive undamaged. -/
def keptFrames (port : Fin 8) (legs : List Leg) : List Frame :=
  ((legs.filter fun l => l.2.isReceived).map Prod.fst).map fun q => frameOf port q.1 q.2

theorem keptFrames_append (port : Fin 8) (ls ls' : List Leg) :
    keptFrames port (ls ++ ls') = keptFrames port ls ++ keptFrames port ls' := by
  rw [keptFrames, List.filter_append, List.map_append, List.map_append]
  rfl

theorem keptFrames_singleton (port : Fin 8) (l : Leg) :
    keptFrames port [l] = if l.2.isReceived then [frameOf port l.1.1 l.1.2] else [] := by
  cases hl : l.2.isReceived <;> simp [keptFrames, hl]

theorem mem_keptFrames {port : Fin 8} {legs : List Leg} {f : Frame} (h : f ∈ keptFrames port legs) :
    ∃ l ∈ legs, f = frameOf port l.1.1 l.1.2 := by
  obtain ⟨q, hq, rfl⟩ := List.mem_map.1 h
  obtain ⟨l, hl, rfl⟩ := List.mem_map.1 hq
  exact ⟨l, (List.mem_filter.1 hl).1, rfl⟩

/-- The machine completes from what arrives of a leg what it completes from it undamaged. -/
theorem completes_leg (port : Fin 8) (l : Leg) {s s' : Reassembly} {rs : List Response} :
    Completes s (l.2.arrival (frameOf port l.1.1 l.1.2)) rs s' ↔
      Completes s (keptFrames port [l]) rs s' := by
  obtain ⟨q, fate⟩ := l
  cases fate with
  | received => exact Iff.rfl
  | lost => exact Iff.rfl
  | damaged g hg =>
      have hrej : g.kind = .rejected := by simp [Frame.kind, hg]
      exact completes_rejected hrej

theorem completes_legs (port : Fin 8) (legs : List Leg) :
    ∀ {s s' : Reassembly} {rs : List Response},
      Completes s (legs.flatMap fun l => l.2.arrival (frameOf port l.1.1 l.1.2)) rs s' ↔
        Completes s (keptFrames port legs) rs s' := by
  induction legs with
  | nil => exact Iff.rfl
  | cons l legs ih =>
      intro s s' rs
      rw [← List.singleton_append, keptFrames_append, List.flatMap_append, List.flatMap_singleton,
        completes_append, completes_append]
      simp only [ih, completes_leg]

/-- The machine completes from the frames that arrive what it completes from those that arrive
undamaged. -/
theorem completes_arrivals (port : Fin 8) (ts : List Transit) :
    ∀ {s s' : Reassembly} {rs : List Response},
      Completes s (ts.flatMap (Transit.arrivals port)) rs s' ↔
        Completes s (ts.flatMap (Transit.receivedFrames port)) rs s' := by
  induction ts with
  | nil => exact Iff.rfl
  | cons t ts ih =>
      intro s s' rs
      rw [List.flatMap_cons, List.flatMap_cons, completes_append, completes_append]
      simp only [ih]
      exact exists_congr fun rs₁ => exists_congr fun s₁ => exists_congr fun rs₂ =>
        and_congr_left' (completes_legs port t.legs)

/-! ### What arrives of a packet -/

/-- **The frames that arrive of a packet**: those of `h` open it, those of `l` close it, and those
of `m` do neither. -/
structure Arrived (port : Fin 8) (t : Transit) (h m l : List Frame) : Prop where
  frames : t.receivedFrames port = h ++ (m ++ l)
  opens : ∀ f ∈ h ++ m, f.kind = .data ∧ ¬ f.Closes
  closes : ∀ f ∈ l, f.kind = .data ∧ f.Closes
  notHead : ∀ f ∈ m ++ l, ¬ f.IsHead
  head : t.headReceived = true → ∃ f, h = [f] ∧ f.IsHead ∧ f.payload.head? = some nodeDelimiter
  noHead : t.headReceived = false → h = []
  last : t.lastReceived = true → ∃ f, l = [f]
  noLast : t.lastReceived = false → l = []

/-- The legs of a packet are those of its head, of its middle pieces and of its last piece. -/
theorem Transit.legs_shape (t : Transit) :
    ∃ lh lm ll, t.legs = lh :: (lm ++ [ll]) ∧ lh.1.2 = t.sent.bytes.take 10 ∧
      (∀ l ∈ t.legs, l.1.2.length ≤ 10) ∧ (∀ l ∈ lh :: lm, ¬ ClosingPiece l.1.2) ∧
      ClosingPiece ll.1.2 ∧ ∀ l ∈ lm ++ [ll], ¬ HeadPiece l.1.2 := by
  obtain ⟨head, mid, last, hp, hhead, hopen, hclose, hnot⟩ := t.sent.pieces_shape
  have hlegs := t.legs_eq
  rw [hp] at hlegs
  obtain ⟨lh, rest, hl, rfl, hrest⟩ := List.map_eq_cons_iff.1 hlegs
  obtain ⟨lm, ll', rfl, rfl, hlast⟩ := List.map_eq_append_iff.1 hrest
  obtain ⟨ll, rfl, rfl⟩ := List.map_eq_singleton_iff.1 hlast
  refine ⟨lh, lm, ll, hl, hhead, fun l hmem => ?_, fun l hmem => ?_, hclose, fun l hmem => ?_⟩
  · exact t.sent.length_piece_le l.1 (t.legs_eq ▸ List.mem_map_of_mem hmem)
  · refine hopen l.1 ?_
    rw [← List.map_cons]
    exact List.mem_map_of_mem hmem
  · refine hnot l.1 ?_
    rw [← List.map_singleton (f := Prod.fst), ← List.map_append]
    exact List.mem_map_of_mem hmem

theorem exists_arrived (port : Fin 8) (t : Transit) : ∃ h m l, Arrived port t h m l := by
  obtain ⟨lh, lm, ll, hl, hhead, hlen, hopen, hclose, hnot⟩ := t.legs_shape
  have hten : lh.1.2.length = 10 := by
    rw [hhead, List.length_take]
    exact Nat.min_eq_left t.sent.packet.length_bytes_gt.le
  rw [hl] at hlen
  have hopens : ∀ l ∈ lh :: lm, l ∈ lh :: (lm ++ [ll]) := by
    intro l hmem
    rw [← List.cons_append]
    exact List.mem_append_left _ hmem
  have hheadR : t.headReceived = lh.2.isReceived := by simp [Transit.headReceived, hl]
  have hlastR : t.lastReceived = ll.2.isReceived := by
    simp [Transit.lastReceived, hl, List.getLast?_cons]
  refine ⟨keptFrames port [lh], keptFrames port lm, keptFrames port [ll], ?_, ?_, ?_, ?_, ?_, ?_,
    ?_, ?_⟩
  · rw [← keptFrames_append, ← keptFrames_append, List.singleton_append, ← hl]
    rfl
  · intro f hf
    rw [← keptFrames_append] at hf
    obtain ⟨l, hmem, rfl⟩ := mem_keptFrames hf
    have hshort := hlen l (hopens l hmem)
    exact ⟨kind_frameOf port l.1.1 hshort,
      mt (closes_frameOf_iff port l.1.1 hshort).1 (hopen l hmem)⟩
  · intro f hf
    obtain ⟨l, hmem, rfl⟩ := mem_keptFrames hf
    rw [List.mem_singleton] at hmem
    subst hmem
    have hshort := hlen l (by simp)
    exact ⟨kind_frameOf port l.1.1 hshort, (closes_frameOf_iff port l.1.1 hshort).2 hclose⟩
  · intro f hf hbad
    rw [← keptFrames_append] at hf
    obtain ⟨l, hmem, rfl⟩ := mem_keptFrames hf
    have hshort := hlen l (List.mem_cons_of_mem _ hmem)
    exact hnot l hmem (isHead_frameOf_inv port l.1.1 hshort hbad)
  · intro h
    rw [hheadR] at h
    refine ⟨frameOf port lh.1.1 lh.1.2, ?_, isHead_frameOf port lh.1.1 hten hhead, ?_⟩
    · rw [keptFrames_singleton, if_pos h]
    · rw [payload_frameOf port lh.1.1 hten.le, hhead]
      rfl
  · intro h
    rw [hheadR] at h
    rw [keptFrames_singleton, h]
    rfl
  · intro h
    rw [hlastR] at h
    exact ⟨frameOf port ll.1.1 ll.1.2, by rw [keptFrames_singleton, if_pos h]⟩
  · intro h
    rw [hlastR] at h
    rw [keptFrames_singleton, h]
    rfl

/-- Of a whole packet every frame arrives, the head and the last one among them. -/
theorem Transit.receivedFrames_of_whole {t : Transit} (h : t.whole = true) (port : Fin 8) :
    t.receivedFrames port = t.sent.frames port ∧ t.headReceived = true ∧
      t.lastReceived = true := by
  have hall : ∀ l ∈ t.legs, l.2.isReceived = true := List.all_eq_true.1 h
  have hne : t.legs ≠ [] := by
    intro hnil
    obtain ⟨stamp, rest, hp, -⟩ := t.sent.pieces_cases
    have := t.legs_eq
    rw [hnil, hp] at this
    cases this
  refine ⟨?_, ?_, ?_⟩
  · rw [receivedFrames, received, List.filter_eq_self.2 hall, t.legs_eq, TimedPacket.frames]
  · rw [headReceived, List.head?_eq_some_head hne]
    exact hall _ (List.head_mem hne)
  · rw [lastReceived, List.getLast?_eq_some_getLast hne]
    exact hall _ (List.getLast_mem hne)

theorem Transit.whole_of_not_headReceived {t : Transit} (h : t.headReceived = false) :
    t.whole = false := by
  by_contra hw
  rw [(t.receivedFrames_of_whole (by simpa using hw) firstPort).2.1] at h
  cases h

/-- Of a packet without its last frame something is missing. -/
theorem Transit.whole_of_not_lastReceived {t : Transit} (h : t.lastReceived = false) :
    t.whole = false := by
  by_contra hw
  rw [(t.receivedFrames_of_whole (by simpa using hw) firstPort).2.2] at h
  cases h

theorem filter_whole_of_noneClosed {ts : List Transit} (h : ∀ u ∈ ts, u.lastReceived = false) :
    ts.filter Transit.whole = [] := by
  refine List.filter_eq_nil_iff.2 fun u hu => ?_
  simp [Transit.whole_of_not_lastReceived (h u hu)]

/-- The frames that arrive carry the bytes that arrive. -/
theorem payload_received (port : Fin 8) (ts : List Transit) :
    (ts.flatMap (Transit.receivedFrames port)).flatMap Frame.payload = receivedBytes ts := by
  induction ts with
  | nil => rfl
  | cons t ts ih =>
      have hpieces : (t.receivedFrames port).flatMap Frame.payload =
          t.received.flatMap Prod.snd := by
        rw [Transit.receivedFrames, List.flatMap_map]
        refine List.flatMap_congr fun q hq => ?_
        obtain ⟨l, hl, rfl⟩ := List.mem_map.1 hq
        have hpiece : l.1 ∈ t.sent.pieces := by
          rw [← t.legs_eq]
          exact List.mem_map_of_mem (List.mem_filter.1 hl).1
        exact payload_frameOf port l.1.1 (t.sent.length_piece_le l.1 hpiece)
      rw [List.flatMap_cons, List.flatMap_append, ih, hpieces, receivedBytes, receivedBytes,
        List.flatMap_cons, List.flatMap_append]

/-- A head that arrives is the first frame that arrives of its packet. -/
theorem receivedFrames_of_headReceived (port : Fin 8) {t : Transit} (h : t.headReceived = true) :
    ∃ f fs, t.receivedFrames port = f :: fs ∧ f.kind = .data ∧ f.IsHead ∧
      f.payload.head? = some nodeDelimiter := by
  obtain ⟨hd, m, l, harr⟩ := exists_arrived port t
  obtain ⟨f, rfl, hf, hdelim⟩ := harr.head h
  exact ⟨f, m ++ l, harr.frames, (harr.opens f (by simp)).1, hf, hdelim⟩

theorem receivedBytes_of_headReceived {t : Transit} (h : t.headReceived = true) :
    ∃ d, d ≠ [] ∧ receivedBytes [t] = nodeDelimiter :: d := by
  obtain ⟨f, fs, hframes, hkind, hf, hdelim⟩ := receivedFrames_of_headReceived firstPort h
  have hten := Frame.length_payload_of_isHead hkind hf
  obtain ⟨x, d, hxd⟩ := List.exists_cons_of_length_pos (l := f.payload) (by omega)
  rw [hxd] at hten hdelim
  have hx : x = nodeDelimiter := by simpa using hdelim
  have hd : d ≠ [] := by
    rintro rfl
    simp at hten
  refine ⟨d ++ fs.flatMap Frame.payload, List.append_ne_nil_of_left_ne_nil hd _, ?_⟩
  rw [← payload_received firstPort, List.flatMap_singleton, hframes, List.flatMap_cons, hxd, hx,
    List.cons_append]

/-- A head that arrives behind something else makes the bytes glued. -/
theorem Splice.glued {t : Transit} {g : List Transit} {u : Transit} (h : Splice (t :: g) u)
    (hu : u.headReceived = true) : Glued (receivedBytes (t :: g ++ [u])) := by
  have ht : t.headReceived = true := by simpa using h.opens
  obtain ⟨d, -, hbytes⟩ := receivedBytes_of_headReceived ht
  obtain ⟨c, hc, hbytes'⟩ := receivedBytes_of_headReceived hu
  refine ⟨receivedBytes (t :: g), c, ?_, hc, by rw [receivedBytes_append, hbytes']⟩
  rw [← List.singleton_append, receivedBytes_append, hbytes]
  exact List.cons_ne_nil _ _

/-- Without closing frames, all that arrives is collected. -/
theorem open_of_noneClosed (port : Fin 8) {ts : List Transit}
    (hlast : ∀ u ∈ ts, u.lastReceived = false) :
    ∀ f ∈ ts.flatMap (Transit.receivedFrames port), f.kind = .data ∧ ¬ f.Closes := by
  intro f hf
  obtain ⟨u, hu, hfu⟩ := List.mem_flatMap.1 hf
  obtain ⟨hd, m, l, harr⟩ := exists_arrived port u
  rw [harr.frames, harr.noLast (hlast u hu), List.append_nil] at hfu
  exact harr.opens f hfu

/-- From packets of which nothing is closed arrive a head and frames that are collected. -/
theorem unclosed_frames (port : Fin 8) {t : Transit} {ts : List Transit}
    (hhead : t.headReceived = true) (hlast : ∀ u ∈ t :: ts, u.lastReceived = false) :
    ∃ f fs, (t :: ts).flatMap (Transit.receivedFrames port) = f :: fs ∧ f.kind = .data ∧
      f.IsHead ∧ ∀ e ∈ fs, e.kind = .data ∧ ¬ e.Closes := by
  have hopen := open_of_noneClosed port hlast
  obtain ⟨f, fs, hframes, hkind, hf, -⟩ := receivedFrames_of_headReceived port hhead
  rw [List.flatMap_cons, hframes, List.cons_append] at hopen ⊢
  exact ⟨f, _, rfl, hkind, hf, fun e he => hopen e (List.mem_cons_of_mem f he)⟩

/-- From packets that are glued together arrive a head, frames that are collected, and one that
closes. -/
theorem Splice.frames (port : Fin 8) {g : List Transit} {u : Transit} (h : Splice g u) :
    ∃ f fs c, (g ++ [u]).flatMap (Transit.receivedFrames port) = f :: (fs ++ [c]) ∧
      f.kind = .data ∧ f.IsHead ∧ (∀ e ∈ fs, e.kind = .data ∧ ¬ e.Closes) ∧
      c.kind = .data ∧ c.Closes := by
  obtain ⟨hd, m, l, harr⟩ := exists_arrived port u
  obtain ⟨c, rfl⟩ := harr.last h.closes
  obtain ⟨hckind, hc⟩ := harr.closes c (by simp)
  have hopens := h.opens
  cases g with
  | nil =>
      have hu : u.headReceived = true := by simpa using hopens
      obtain ⟨f, rfl, hf, -⟩ := harr.head hu
      refine ⟨f, m, c, ?_, (harr.opens f (by simp)).1, hf, fun e he => harr.opens e (by simp [he]),
        hckind, hc⟩
      rw [List.nil_append, List.flatMap_singleton, harr.frames, List.singleton_append]
  | cons t g =>
      have ht : t.headReceived = true := by simpa using hopens
      obtain ⟨f, fs, hframes, hkind, hf, hfs⟩ := unclosed_frames port ht h.inner
      refine ⟨f, fs ++ (hd ++ m), c, ?_, hkind, hf, ?_, hckind, hc⟩
      · rw [List.flatMap_append, hframes, List.flatMap_singleton, harr.frames]
        simp only [List.cons_append, List.append_assoc]
      · intro e he
        rcases List.mem_append.1 he with he | he
        · exact hfs e he
        · exact harr.opens e he

/-- Behind a head, nothing is closed, or what is glued together ends at the first closing frame. -/
theorem noneClosed_or_splice {t : Transit} (hhead : t.headReceived = true) (ts : List Transit) :
    (∀ u ∈ t :: ts, u.lastReceived = false) ∨
      ∃ g u rest, t :: ts = g ++ u :: rest ∧ Splice g u := by
  cases hfind : (t :: ts).find? Transit.lastReceived with
  | none => exact Or.inl (by simpa using List.find?_eq_none.1 hfind)
  | some u =>
      obtain ⟨hu, g, rest, hsplit, hg⟩ := List.find?_eq_some_iff_append.1 hfind
      refine Or.inr ⟨g, u, rest, hsplit, ?_, by simpa using hg, hu⟩
      cases g with
      | nil =>
          obtain ⟨rfl, rfl⟩ := List.cons.inj hsplit
          simp [hhead]
      | cons t' g =>
          obtain ⟨rfl, -⟩ := List.cons.inj hsplit
          simp [hhead]

/-! ### One packet, from outside -/

section OnePacket

variable {s : Reassembly} {port : Fin 8} {t : Transit}

/-- Outside a packet, one without its head is dropped. -/
theorem completes_of_not_headReceived (hs : s.packetState = .outPacket)
    (ht : t.headReceived = false) : Completes s (t.receivedFrames port) [] s := by
  obtain ⟨h, m, l, harr⟩ := exists_arrived port t
  rw [harr.frames, harr.noHead ht, List.nil_append]
  have hstep : ∀ f ∈ m ++ l, processOneResponse s f = .ok (⟨.fail, false⟩, s) := by
    intro f hf
    have hkind : f.kind = .data := by
      rcases List.mem_append.1 hf with hm | hl
      · exact (harr.opens f (List.mem_append_right h hm)).1
      · exact (harr.closes f hl).1
    exact step_not_head hkind hs (harr.notHead f hf)
  refine ⟨_, trace_of_stutter (fun _ => ⟨.fail, false⟩) hstep, deliveries_eq_nil fun o ho => ?_⟩
  obtain ⟨f, -, rfl⟩ := List.mem_map.1 ho
  rfl

/-- Outside a packet, a whole one is completed. -/
theorem completes_of_whole (hs : s.packetState = .outPacket) (ht : t.whole = true) :
    ∃ r s', Completes s (t.receivedFrames port) [r] s' ∧ s'.packetState = .outPacket ∧
      r.bytes = t.sent.bytes := by
  obtain ⟨seg, s', htr, hs', hdel⟩ := trace_packet port hs t.sent
  obtain ⟨r, hr, hbytes, -⟩ := hdel.deliveries
  rw [(t.receivedFrames_of_whole ht port).1]
  exact ⟨r, s', ⟨seg, htr, hr⟩, hs', hbytes⟩

end OnePacket

/-! ### Frames behind a head -/

/-- Frames that do not close are collected as long as they fit. -/
theorem completes_open {fs : List Frame} :
    ∀ {s : Reassembly}, s.packetState = .inPacket → (∀ f ∈ fs, f.kind = .data ∧ ¬ f.Closes) →
      s.response.nodePacketLen + (fs.flatMap Frame.payload).length ≤ 256 →
      ∃ s', Completes s fs [] s' := by
  induction fs with
  | nil => exact fun {s} _ _ _ => ⟨s, completes_nil.2 ⟨rfl, rfl⟩⟩
  | cons f fs ih =>
      intro s hs hfs hfit
      rw [List.flatMap_cons, List.length_append] at hfit
      obtain ⟨hkind, hopen⟩ := hfs f (by simp)
      obtain ⟨r, hr, -, hlen, -⟩ := step_extend hkind hs hopen (by omega)
      obtain ⟨s', tr, htr, hdel⟩ := @ih ⟨.inPacket, r⟩ rfl
        (fun g hg => hfs g (List.mem_cons_of_mem f hg)) (by simp only [hlen]; omega)
      exact ⟨s', _, trace_cons_ok hr htr, by rw [deliveries_cons_of_open rfl, hdel]⟩

section Head

variable {s s' : Reassembly} {f c : Frame} {fs : List Frame} {rs : List Response}

/-- Outside a packet, a head opens one; what follows decides what is completed. -/
theorem completes_head_cons (hkind : f.kind = .data) (hf : f.IsHead)
    (hs : s.packetState = .outPacket) :
    ∃ s₁ : Reassembly, s₁.packetState = .inPacket ∧ s₁.response.bytes = f.payload ∧
      s₁.response.nodePacketLen = f.payload.length ∧
      ∀ fs rs s', Completes s (f :: fs) rs s' ↔ Completes s₁ fs rs s' := by
  obtain ⟨r, hr, hbytes, hlen, -⟩ := step_head hkind hs hf
  refine ⟨⟨.inPacket, r⟩, rfl, hbytes, hlen, fun fs rs s' => ?_⟩
  constructor
  · rintro ⟨tr, htr, rfl⟩
    obtain ⟨o, tr', hstep, htr', rfl⟩ := trace_cons_eq_ok.1 htr
    rw [hr] at hstep
    cases hstep
    exact ⟨tr', htr', (deliveries_cons_of_open rfl tr').symm⟩
  · rintro ⟨tr, htr, rfl⟩
    exact ⟨_, trace_cons_ok hr htr, deliveries_cons_of_open rfl tr⟩

variable (hs : s.packetState = .outPacket) (hkind : f.kind = .data) (hf : f.IsHead)
  (hfs : ∀ e ∈ fs, e.kind = .data ∧ ¬ e.Closes)

include hs hkind hf hfs

/-- Behind a head, frames that do not close complete nothing. -/
theorem completes_unclosed (hfit : ((f :: fs).flatMap Frame.payload).length ≤ 256) :
    ∃ s', Completes s (f :: fs) [] s' := by
  obtain ⟨s₁, hs₁, -, hlen, hrun⟩ := completes_head_cons hkind hf hs
  rw [List.flatMap_cons, List.length_append, ← hlen] at hfit
  obtain ⟨s', h⟩ := completes_open hs₁ hfs hfit
  exact ⟨s', (hrun fs [] s').2 h⟩

/-- When the run over them returns, they fit. -/
theorem Completes.unclosed_fits (h : Completes s (f :: fs) rs s') :
    ((f :: fs).flatMap Frame.payload).length ≤ 256 := by
  obtain ⟨s₁, hs₁, -, hlen, hrun⟩ := completes_head_cons hkind hf hs
  rw [hrun] at h
  obtain ⟨-, -, -, hlen'⟩ := h.collected hs₁ hfs
  obtain ⟨tr, htr, -⟩ := h
  have hten := Frame.length_payload_of_isHead hkind hf
  have hfits : LenFits s₁ := by
    rw [LenFits, hlen, hten]
    decide
  have hfits' : LenFits s' := trace_invariant (fun _ _ _ h hstep => h.step hstep) hfits htr
  rw [List.flatMap_cons, List.length_append, ← hlen, ← hlen']
  exact hfits'

/-- **The next closing frame completes all that was collected.** -/
theorem Completes.spliced (hckind : c.kind = .data) (hc : c.Closes)
    (h : Completes s (f :: (fs ++ [c])) rs s') :
    ∃ r, rs = [r] ∧ s'.packetState = .outPacket ∧
      r.bytes = (f :: (fs ++ [c])).flatMap Frame.payload := by
  obtain ⟨s₁, hs₁, hbytes, -, hrun⟩ := completes_head_cons hkind hf hs
  rw [hrun] at h
  obtain ⟨rs₁, s₂, rs₂, h₁, h₂, rfl⟩ := completes_append.1 h
  obtain ⟨rfl, hs₂, hbytes₂, -⟩ := h₁.collected hs₁ hfs
  obtain ⟨r, rfl, hout, hr, -⟩ := h₂.closed hs₂ hckind hc
  refine ⟨r, rfl, hout, ?_⟩
  rw [hr, hbytes₂, hbytes, List.flatMap_cons, List.flatMap_append, List.flatMap_singleton,
    List.append_assoc]

/-- The run up to it returns when everything fits. -/
theorem completes_spliced (hckind : c.kind = .data) (hc : c.Closes)
    (hfit : ((f :: (fs ++ [c])).flatMap Frame.payload).length ≤ 256) :
    ∃ rs s', Completes s (f :: (fs ++ [c])) rs s' := by
  obtain ⟨s₁, hs₁, -, hlen, hrun⟩ := completes_head_cons hkind hf hs
  rw [List.flatMap_cons, List.flatMap_append, List.flatMap_singleton, List.length_append,
    List.length_append, ← hlen] at hfit
  obtain ⟨s₂, h₁⟩ := completes_open hs₁ hfs (by omega)
  obtain ⟨-, hs₂, -, hlen₂⟩ := h₁.collected hs₁ hfs
  obtain ⟨r, hr, -⟩ := step_close hckind hs₂ hc (by omega)
  have hlast : Completes s₂ [c] [r] ⟨.outPacket, r⟩ := ⟨_, trace_cons_ok hr rfl, rfl⟩
  exact ⟨_, _, (hrun _ _ _).2 (completes_append.2 ⟨_, _, _, h₁, hlast, rfl⟩)⟩

end Head

/-- **Packets that are glued together are completed as one**, with the bytes that arrive of them. -/
theorem Splice.completed {s s' : Reassembly} {g : List Transit} {u : Transit} (h : Splice g u)
    (port : Fin 8) (hs : s.packetState = .outPacket) {rs : List Response}
    (hrun : Completes s ((g ++ [u]).flatMap (Transit.receivedFrames port)) rs s') :
    ∃ r, rs = [r] ∧ s'.packetState = .outPacket ∧ r.bytes = receivedBytes (g ++ [u]) := by
  obtain ⟨f, fs, c, hframes, hkind, hf, hfs, hckind, hc⟩ := h.frames port
  rw [← payload_received port, hframes]
  rw [hframes] at hrun
  exact hrun.spliced hs hkind hf hfs hckind hc

theorem Splice.completes {s : Reassembly} {g : List Transit} {u : Transit} (h : Splice g u)
    (port : Fin 8) (hs : s.packetState = .outPacket)
    (hfit : (receivedBytes (g ++ [u])).length ≤ 256) :
    ∃ r s', Completes s ((g ++ [u]).flatMap (Transit.receivedFrames port)) [r] s' ∧
      s'.packetState = .outPacket ∧ r.bytes = receivedBytes (g ++ [u]) := by
  have hrun : ∃ rs s', Completes s ((g ++ [u]).flatMap (Transit.receivedFrames port)) rs s' := by
    obtain ⟨f, fs, c, hframes, hkind, hf, hfs, hckind, hc⟩ := h.frames port
    rw [← payload_received port, hframes] at hfit
    rw [hframes]
    exact completes_spliced hs hkind hf hfs hckind hc hfit
  obtain ⟨rs, s', hrun⟩ := hrun
  obtain ⟨r, rfl, hout, hr⟩ := h.completed port hs hrun
  exact ⟨r, s', hrun, hout, hr⟩

/-! ### Whole streams -/

/-- **Every packet that is completed was sent, and every packet that arrives whole is completed**,
in order. -/
def DeliversSent (r : Response) (port : Fin 8) (ts : List Transit) : Prop :=
  ∃ rs s', Completes ⟨.outPacket, r⟩ (ts.flatMap (Transit.arrivals port)) rs s' ∧
    (∀ x ∈ rs, ∃ t ∈ ts, x.bytes = t.sent.bytes) ∧
    ((ts.filter Transit.whole).map fun t => t.sent.bytes).Sublist (rs.map Response.bytes)

/-- When the cuts are harmless, the run completes packets that were sent, the whole ones among
them. -/
theorem CutsHarmless.completes {sent ts : List Transit} (h : CutsHarmless sent ts) (port : Fin 8) :
    ∀ s : Reassembly, s.packetState = .outPacket → (∀ t ∈ ts, t ∈ sent) →
      ∃ rs s', Completes s (ts.flatMap (Transit.receivedFrames port)) rs s' ∧
        (∀ x ∈ rs, ∃ t ∈ sent, x.bytes = t.sent.bytes) ∧
        ((ts.filter Transit.whole).map fun t => t.sent.bytes).Sublist (rs.map Response.bytes) := by
  induction h with
  | nil =>
      intro s _ _
      exact ⟨[], s, completes_nil.2 ⟨rfl, rfl⟩, by simp, List.Sublist.refl _⟩
  | @dropped t ts hhead _ ih =>
      intro s hs hsub
      obtain ⟨rs, s', h, hsent, hwhole⟩ :=
        ih s hs fun u hu => hsub u (List.mem_cons_of_mem t hu)
      have hone : Completes s (t.receivedFrames port) [] s := completes_of_not_headReceived hs hhead
      refine ⟨rs, s', ?_, hsent, ?_⟩
      · rw [List.flatMap_cons]
        exact completes_append.2 ⟨[], s, rs, hone, h, rfl⟩
      · rwa [List.filter_cons_of_neg (by simp [Transit.whole_of_not_headReceived hhead])]
  | @whole t ts hw _ ih =>
      intro s hs hsub
      obtain ⟨r, s₁, hone, hs₁, hbytes⟩ : ∃ r s', Completes s (t.receivedFrames port) [r] s' ∧
          s'.packetState = .outPacket ∧ r.bytes = t.sent.bytes := completes_of_whole hs hw
      obtain ⟨rs, s', h, hsent, hwhole⟩ :=
        ih s₁ hs₁ fun u hu => hsub u (List.mem_cons_of_mem t hu)
      refine ⟨r :: rs, s', ?_, ?_, ?_⟩
      · rw [List.flatMap_cons]
        exact completes_append.2 ⟨[r], s₁, rs, hone, h, rfl⟩
      · exact List.forall_mem_cons.2 ⟨⟨t, hsub t (by simp), hbytes⟩, hsent⟩
      · rw [List.filter_cons_of_pos hw, List.map_cons, List.map_cons, hbytes]
        exact hwhole.cons_cons _
  | @unclosed t ts hhead hlast hfit =>
      intro s hs _
      obtain ⟨f, fs, hframes, hkind, hf, hfs⟩ := unclosed_frames port hhead hlast
      rw [← payload_received port, hframes] at hfit
      rw [hframes]
      obtain ⟨s', h⟩ := completes_unclosed hs hkind hf hfs hfit
      refine ⟨[], s', h, by simp, ?_⟩
      rw [filter_whole_of_noneClosed hlast]
      exact List.nil_sublist _
  | @chance g u ts hsplice hcut hv _ ih =>
      intro s hs hsub
      obtain ⟨v, hvmem, hv⟩ := hv
      have hlen : v.sent.bytes.length ≤ 256 := v.sent.packet.length_bytes_le
      rw [← hv] at hlen
      obtain ⟨r, s₁, hone, hs₁, hr⟩ := hsplice.completes port hs hlen
      obtain ⟨rs, s', h, hsent, hwhole⟩ := ih s₁ hs₁ fun t ht => hsub t (by simp [ht])
      refine ⟨r :: rs, s', ?_, ?_, ?_⟩
      · rw [List.append_cons, List.flatMap_append]
        exact completes_append.2 ⟨[r], s₁, rs, hone, h, rfl⟩
      · exact List.forall_mem_cons.2 ⟨⟨v, hvmem, hr.trans hv⟩, hsent⟩
      · rw [List.filter_append, filter_whole_of_noneClosed hsplice.inner, List.nil_append,
          List.filter_cons_of_neg (by simp [hcut])]
        exact hwhole.cons _

/-- **A run that completes only packets that were sent has harmless cuts.** -/
theorem cutsHarmless_of_completes (port : Fin 8) (sent : List Transit) (n : ℕ) :
    ∀ (ts : List Transit) {s s' : Reassembly} {rs : List Response}, ts.length = n →
      s.packetState = .outPacket →
      Completes s (ts.flatMap (Transit.receivedFrames port)) rs s' →
      (∀ x ∈ rs, ∃ t ∈ sent, x.bytes = t.sent.bytes) → CutsHarmless sent ts := by
  -- induction on the length, since a closing frame may take several packets off the list
  induction n using Nat.strong_induction_on with
  | _ n ih =>
      intro ts s s' rs hn hs h hsent
      cases ts with
      | nil => exact .nil
      | cons t ts =>
          rw [List.length_cons] at hn
          cases hhead : t.headReceived with
          | false =>
              have hone : Completes s (t.receivedFrames port) [] s :=
                completes_of_not_headReceived hs hhead
              obtain ⟨rs₁, s₁, rs₂, h₁, h₂, rfl⟩ := completes_append.1 h
              obtain ⟨rfl, rfl⟩ := h₁.unique hone
              exact .dropped hhead (ih ts.length (by omega) ts rfl hs h₂ hsent)
          | true =>
              rcases noneClosed_or_splice hhead ts with hlast | ⟨g, u, rest, hsplit, hsplice⟩
              · refine .unclosed hhead hlast ?_
                obtain ⟨f, fs, hframes, hkind, hf, hfs⟩ := unclosed_frames port hhead hlast
                rw [← payload_received port, hframes]
                rw [hframes] at h
                exact h.unclosed_fits hs hkind hf hfs
              · have hlen := congrArg List.length hsplit
                rw [List.length_cons, List.length_append, List.length_cons] at hlen
                rw [hsplit] at h ⊢
                rw [List.append_cons, List.flatMap_append] at h
                obtain ⟨rs₁, s₁, rs₂, h₁, h₂, rfl⟩ := completes_append.1 h
                obtain ⟨r, rfl, hs₁, hr⟩ := hsplice.completed port hs h₁
                obtain ⟨v, hvmem, hv⟩ := hsent r (by simp)
                have hrest : CutsHarmless sent rest :=
                  ih rest.length (by omega) rest rfl hs₁ h₂ fun x hx => hsent x (by simp [hx])
                cases hcut : u.whole with
                | false => exact .chance hsplice hcut ⟨v, hvmem, hr ▸ hv⟩ hrest
                | true =>
                    cases g with
                    | nil => exact .whole hcut hrest
                    | cons t' g =>
                        -- the head of `u` would lie within the bytes of `v`
                        have hhead' := (u.receivedFrames_of_whole hcut firstPort).2.1
                        exact absurd (hr ▸ hv) ((hsplice.glued hhead').ne_bytes v.sent)

/-- **What is completed was sent, and what arrives whole is completed, exactly when the cuts are
harmless.** -/
theorem deliversSent_iff (r : Response) (port : Fin 8) (ts : List Transit) :
    DeliversSent r port ts ↔ CutsHarmless ts ts := by
  simp only [DeliversSent, completes_arrivals]
  constructor
  · rintro ⟨rs, s', h, hsent, -⟩
    exact cutsHarmless_of_completes port ts ts.length ts rfl rfl h hsent
  · intro h
    exact h.completes port ⟨.outPacket, r⟩ rfl fun t ht => ht

/-- A packet whose tail is lost, and a packet that arrives whole. -/
def tailLost : List Transit :=
  [{  sent := shortPacket 1 delimiter_ne_one
      legs :=
        [((List.Vector.replicate 4 0, 0x7E :: 0x45 :: List.replicate 8 1), .received),
          ((List.Vector.replicate 4 0, [0x7E]), .lost)]
      legs_eq := rfl },
    { sent := shortPacket 2 delimiter_ne_two
      legs :=
        [((List.Vector.replicate 4 0, 0x7E :: 0x45 :: List.replicate 8 2), .received),
          ((List.Vector.replicate 4 0, [0x7E]), .received)]
      legs_eq := rfl }]

/-- What the machine makes of `Wsn.tailLost`. -/
def gluedBytes : List UInt8 :=
  0x7E :: 0x45 :: List.replicate 8 1 ++ 0x7E :: 0x45 :: List.replicate 8 2 ++ [0x7E]

/-- The one packet that is completed was not sent, and the one that arrives whole is not
completed. -/
theorem tailLost_glued :
    (trace processOneResponse .created (tailLost.flatMap (Transit.arrivals 0))).map
        (fun run => (deliveries run.1).map Response.bytes) = .ok [gluedBytes] ∧
      (∀ t ∈ tailLost, t.sent.bytes ≠ gluedBytes) ∧ ¬ DeliversSent .zero 0 tailLost := by
  have hrun : (trace processOneResponse .created (tailLost.flatMap (Transit.arrivals 0))).map
      (fun run => (deliveries run.1).map Response.bytes) = .ok [gluedBytes] := by
    decide +kernel
  have hnone : ∀ t ∈ tailLost, t.sent.bytes ≠ gluedBytes := by
    decide
  refine ⟨hrun, hnone, ?_⟩
  rintro ⟨rs, s', ⟨tr, htr, rfl⟩, hsent, -⟩
  rw [← Reassembly.created] at htr
  rw [htr, Except.map, Except.ok.injEq] at hrun
  obtain ⟨x, hx, hbytes⟩ := List.mem_map.1 (hrun ▸ List.mem_singleton_self gluedBytes)
  obtain ⟨t, ht, hxt⟩ := hsent x hx
  exact hnone t ht (hxt.symm.trans hbytes)

end Wsn
