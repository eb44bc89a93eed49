/-
**Two ends of libtelnet.**

Two applications talk to each other, each through an end of libtelnet.  At any time either may write
data, commands or subnegotiations, may ask for an option to be turned on or off, and may take some of
the bytes on the way to it, wherever the network has cut them.  Both ends may ask at once, and change
their minds while a request is on the way.

For each option, and for each of its two directions, the ends and what is on the way between them
are a link of the Q method.  One thing is missing in the source: an end that has asked for an option
to be turned off and by now wants it on does not ask again when it hears that it is off.

The results are for two ends whose allocations succeed, and for `maxTracked` options at most: the
table of an end counts no more.

Main definitions:

* `Peer`, `Peers` — an end, and both with the bytes on the way;
* `PeersReach` — runs, in any order of the calls;
* `Peers.link` — what is negotiated about an option;
* `Peers.Inv` — the invariant.

Main results:

* `peers_seen` — **each application sees what the other one writes, in order**;
* `peers_said_le` — **at most two commands are sent for a request**;
* `peers_not_opposed` — no option is on at one end and off at the other;
* `peers_agree` — **with nothing on the way the ends agree**, if no application asks for an option
  again before it was told that it is off.
-/

import WsnPlatform.TelnetRequests

set_option relaxedAutoImplicit false
set_option autoImplicit false

namespace Wsn

open QMethod (State)

/-! ### The system -/

/-- What an application does with its end. -/
inductive PeerCall
  /-- `telnet_negotiate`. -/
  | negotiate (cmd : Verb) (telopt : UInt8)
  /-- One of the functions that write something else. -/
  | write (item : TelnetItem)
  /-- `telnet_recv`, for the first bytes on the way. -/
  | recv (count : ℕ)

/-- **An end of libtelnet** with its history: what its application has called, what it has seen (data
byte by byte) and the buffers that were sent.  `wire` are the bytes that it has sent and the other
end has not yet read. -/
structure Peer where
  telnet : Telnet
  calls : List PeerCall
  seen : List TelnetEvent
  sent : List (List UInt8)
  wire : List UInt8

/-- An end before its first call. -/
def Peer.start (telopts : List Telopt) : Peer := ⟨telnetInit telopts false, [], [], [], []⟩

/-- The end has done what a function of libtelnet says. -/
def Peer.does (peer : Peer) (r : Telnet × List TelnetEvent) : Peer :=
  { peer with
    telnet := r.1
    seen := peer.seen ++ seenOf r.2
    sent := peer.sent ++ sends r.2
    wire := peer.wire ++ sentBytes r.2 }

/-- The application has made the call. -/
def Peer.called (peer : Peer) (call : PeerCall) : Peer := { peer with calls := peer.calls ++ [call] }

/-- Two ends. -/
structure Peers where
  near : Peer
  far : Peer

/-- The view from the other end. -/
def Peers.swap (p : Peers) : Peers := ⟨p.far, p.near⟩

/-- **The near application makes a call.** -/
def Peers.nearCalls (mem : ℕ → Bool) (p : Peers) (call : PeerCall) : Peers :=
  match call with
  | .negotiate cmd telopt =>
      ⟨(p.near.does (telnetNegotiate mem p.near.telnet cmd telopt)).called call, p.far⟩
  | .write item => ⟨(p.near.does (p.near.telnet, item.events)).called call, p.far⟩
  | .recv count =>
      ⟨(p.near.does (telnetRecv mem p.near.telnet (p.far.wire.take count))).called call,
        { p.far with wire := p.far.wire.drop count }⟩

/-- The application may make the call: it asks for options of `opts` only, and with `patient` it does
not ask for one to be turned on while it waits to hear that it is off. -/
def PeerCall.Allowed (opts : List UInt8) (patient : Bool) (telnet : Telnet) : PeerCall → Prop
  | .negotiate cmd telopt => telopt ∈ opts ∧
      (patient = true → cmd = .doIt → (telnet.getRfc1143 telopt).him ≠ .wantNo)
  | .write item => item.Silent
  | .recv _ => True

/-- **Runs**, in any order of the calls. -/
inductive PeersReach (mem : ℕ → Bool) (opts : List UInt8) (patient : Bool) : Peers → Prop
  | start {nearTelopts farTelopts : List Telopt}
      (hnear : (telnetInit nearTelopts false).SupportsOnly opts)
      (hfar : (telnetInit farTelopts false).SupportsOnly opts) :
      PeersReach mem opts patient ⟨.start nearTelopts, .start farTelopts⟩
  | near {p : Peers} {call : PeerCall} (hcall : call.Allowed opts patient p.near.telnet) :
      PeersReach mem opts patient p → PeersReach mem opts patient (p.nearCalls mem call)
  | far {p : Peers} {call : PeerCall} (hcall : call.Allowed opts patient p.far.telnet) :
      PeersReach mem opts patient p → PeersReach mem opts patient (p.swap.nearCalls mem call).swap

/-! ### What is counted -/

/-- What an application has written, as the other one is to see it. -/
def PeerCall.shows : PeerCall → List TelnetEvent
  | .write item => item.seen
  | _ => []

def Peer.written (peer : Peer) : List TelnetEvent := peer.calls.flatMap PeerCall.shows

/-- A call that asks for the half of the caller, or for the half of the other end. -/
def PeerCall.asks (telopt : UInt8) (ours : Bool) : PeerCall → Bool
  | .negotiate cmd o => telopt = o ∧ ours = !cmd.ours
  | _ => false

/-- A buffer that speaks about the half of the sender, or about the half of the other end. -/
def speaks (telopt : UInt8) (ours : Bool) (buffer : List UInt8) : Bool :=
  buffer = negotiationBytes (sayVerb ours true) telopt ∨
    buffer = negotiationBytes (sayVerb ours false) telopt

/-- How often the applications have asked for the option, with the near end's half of it. -/
def Peers.asked (p : Peers) (telopt : UInt8) (ours : Bool) : ℕ :=
  p.near.calls.countP (PeerCall.asks telopt ours) + p.far.calls.countP (PeerCall.asks telopt !ours)

/-- How many commands about the option were sent. -/
def Peers.said (p : Peers) (telopt : UInt8) (ours : Bool) : ℕ :=
  p.near.sent.countP (speaks telopt ours) + p.far.sent.countP (speaks telopt !ours)

/-! ### The invariant -/

/-- The requests about the half. -/
def about (telopt : UInt8) (ours : Bool) (requests : List (Verb × UInt8)) : List Bool :=
  (requests.filter fun r => r.2 = telopt ∧ r.1.ours = ours).map fun r => r.1.on

/-- **What is negotiated about an option**: about the near end's half of it if `ours`, else about the
far end's. -/
def Peers.link (mem : ℕ → Bool) (p : Peers) (telopt : UInt8) (ours : Bool) : QMethod.Link where
  near := (p.near.telnet.getRfc1143 telopt).half ours
  far := (p.far.telnet.getRfc1143 telopt).half !ours
  there := about telopt (!ours) (p.far.telnet.requests mem p.near.wire)
  back := about telopt ours (p.near.telnet.requests mem p.far.wire)

/-- An end that is not a proxy and tracks options of `opts`; with `patient` it does not want an
option on that it has asked to be turned off. -/
structure Telnet.Keeps (telnet : Telnet) (opts : List UInt8) (patient : Bool) : Prop where
  proxy : telnet.proxy = false
  tracks : telnet.Tracks opts
  supports : telnet.SupportsOnly opts
  patient : patient = true → ∀ telopt, (telnet.getRfc1143 telopt).him ≠ .wantNoOp

/-- With what is on the way from it, the other end has read all that `a` has written. -/
structure Carries (mem : ℕ → Bool) (a b : Peer) : Prop where
  ready : (Transducer.run (Telnet.feed mem) b.telnet a.wire).1.Ready
  seen : b.seen ++ seenOf (Transducer.run (Telnet.feed mem) b.telnet a.wire).2 = a.written

/-- **The invariant.** -/
structure Peers.Inv (mem : ℕ → Bool) (opts : List UInt8) (patient : Bool) (p : Peers) : Prop where
  near : p.near.telnet.Keeps opts patient
  far : p.far.telnet.Keeps opts patient
  there : Carries mem p.near p.far
  back : Carries mem p.far p.near
  link : ∀ telopt ours, ∃ heard, QMethod.Reaches patient (p.link mem telopt ours)
    (p.asked telopt ours) heard ∧
      p.said telopt ours =
        heard + (p.link mem telopt ours).there.length + (p.link mem telopt ours).back.length

theorem Peers.link_swap (mem : ℕ → Bool) (p : Peers) (telopt : UInt8) (ours : Bool) :
    p.swap.link mem telopt ours = (p.link mem telopt !ours).swap := by
  simp [Peers.link, Peers.swap, QMethod.Link.swap]

theorem Peers.Inv.swap {mem : ℕ → Bool} {opts : List UInt8} {patient : Bool} {p : Peers}
    (h : p.Inv mem opts patient) : p.swap.Inv mem opts patient := by
  refine ⟨h.far, h.near, h.back, h.there, ?_⟩
  intro telopt ours
  obtain ⟨heard, hreach, hsaid⟩ := h.link telopt !ours
  rw [Peers.link_swap]
  refine ⟨heard, ?_, ?_⟩
  · have hasked : p.swap.asked telopt ours = p.asked telopt !ours := by
      simp [Peers.asked, Peers.swap, Nat.add_comm]
    rw [hasked]
    exact hreach.swap
  · have hsame : p.swap.said telopt ours = p.said telopt !ours := by
      simp [Peers.said, Peers.swap, Nat.add_comm]
    rw [hsame, hsaid]
    simp only [QMethod.Link.swap]
    omega

/-! ### What is written is read -/

section

variable {mem : ℕ → Bool} {telnet : Telnet} {wire : List UInt8}

/-- An answer behind the bytes on the way is one more request, and nothing more is seen. -/
theorem reads_answer (hmem : ∀ n, mem n = true)
    (h : (Transducer.run (Telnet.feed mem) telnet wire).1.Ready)
    (ours : Bool) (telopt : UInt8) (on : Option Bool) :
    let wire' := wire ++ (answerSends ours telopt on).flatten
    let run' := Transducer.run (Telnet.feed mem) telnet wire'
    run'.1.Ready ∧ seenOf run'.2 = seenOf (Transducer.run (Telnet.feed mem) telnet wire).2 ∧
      telnet.requests mem wire' =
        telnet.requests mem wire ++ on.toList.map fun on => (sayVerb ours on, telopt) := by
  cases on with
  | none => simpa [answerSends] using h
  | some on =>
      have hbytes : (answerSends ours telopt (some on)).flatten =
          negotiationBytes (sayVerb ours on) telopt := List.append_nil _
      obtain ⟨hready, hseen⟩ := run_feed_item hmem h
        (show (TelnetItem.negotiation (sayVerb ours on) telopt).Plain from trivial)
      have hitem : sentBytes (TelnetItem.negotiation (sayVerb ours on) telopt).events =
          negotiationBytes (sayVerb ours on) telopt := rfl
      rw [hitem] at hready hseen
      simp only [hbytes, Transducer.run_append, requests_append, requests_negotiation h.state,
        seenOf_append, hseen]
      exact ⟨hready, List.append_nil _, rfl⟩

/-- An item behind the bytes on the way is no request, and is seen. -/
theorem reads_item (hmem : ∀ n, mem n = true)
    (h : (Transducer.run (Telnet.feed mem) telnet wire).1.Ready) {item : TelnetItem}
    (hsilent : item.Silent) :
    let wire' := wire ++ sentBytes item.events
    let run' := Transducer.run (Telnet.feed mem) telnet wire'
    run'.1.Ready ∧
      seenOf run'.2 = seenOf (Transducer.run (Telnet.feed mem) telnet wire).2 ++ item.seen ∧
      telnet.requests mem wire' = telnet.requests mem wire := by
  obtain ⟨hready, hseen⟩ := run_feed_item hmem h hsilent.plain
  simp only [Transducer.run_append, requests_append, requests_item h.state hsilent, seenOf_append,
    hseen, List.append_nil]
  exact ⟨hready, trivial, trivial⟩

end

/-! ### What is counted, for an answer and for an item -/

theorem speaks_negotiation (telopt o : UInt8) (ours ours' on : Bool) :
    speaks o ours' (negotiationBytes (sayVerb ours on) telopt) =
      decide (o = telopt ∧ ours' = ours) := by
  have hverb : ∀ v w : Verb, v.byte = w.byte ↔ v = w := by
    intro v w
    cases v <;> cases w <;> decide
  simp only [speaks, negotiationBytes, List.cons.injEq, and_true, true_and, hverb]
  cases ours <;> cases ours' <;> cases on <;> simp [sayVerb, eq_comm]

/-- An answer speaks about its option. -/
theorem countP_answerSends (telopt o : UInt8) (ours ours' : Bool) (on : Option Bool) :
    (answerSends ours telopt on).countP (speaks o ours') =
      if o = telopt ∧ ours' = ours then on.toList.length else 0 := by
  cases on with
  | none => simp [answerSends]
  | some on => simp [answerSends, speaks_negotiation]

/-- A buffer of three bytes that starts like a negotiation. -/
theorem speaks_eq_false {buffer : List UInt8} (h : ∀ v telopt, buffer ≠ negotiationBytes v telopt)
    (o : UInt8) (ours : Bool) : speaks o ours buffer = false := by
  simp [speaks, h]

theorem not_negotiation_of_notMem {buffer : List UInt8} (h : telnetIac ∉ buffer) (v : Verb)
    (telopt : UInt8) : buffer ≠ negotiationBytes v telopt := by
  rintro rfl
  exact h List.mem_cons_self

/-- A text is sent in buffers that speak about nothing. -/
theorem speaks_sendEvents {pending : List UInt8} (hpending : telnetIac ∉ pending) (text : CText)
    (o : UInt8) (ours : Bool) : ∀ buffer ∈ sendEvents pending text, speaks o ours buffer = false := by
  have hflushed : ∀ pending : List UInt8, telnetIac ∉ pending →
      ∀ buffer ∈ flushed pending, speaks o ours buffer = false := by
    intro pending hpending buffer hbuffer
    unfold flushed at hbuffer
    split at hbuffer
    · cases hbuffer
    · rw [List.mem_singleton] at hbuffer
      exact speaks_eq_false (not_negotiation_of_notMem (hbuffer ▸ hpending)) o ours
  induction text generalizing pending with
  | nil => exact hflushed pending hpending
  | cons c text ih =>
      intro buffer hbuffer
      rw [sendEvents] at hbuffer
      split at hbuffer
      · rcases List.mem_append.1 hbuffer with hbuffer | hbuffer
        · exact hflushed pending hpending buffer hbuffer
        · rcases List.mem_cons.1 hbuffer with rfl | hbuffer
          · exact speaks_eq_false (by simp [negotiationBytes]) o ours
          · exact ih List.not_mem_nil buffer hbuffer
      · next hc => exact ih (by simp [hpending, Ne.symm hc]) buffer hbuffer

/-- An item that is no request speaks about nothing. -/
theorem countP_item {item : TelnetItem} (hsilent : item.Silent) (o : UInt8) (ours : Bool) :
    (sends item.events).countP (speaks o ours) = 0 := by
  rw [List.countP_eq_zero]
  intro buffer hbuffer
  rw [Bool.not_eq_true]
  have htext : ∀ text, buffer ∈ sends (telnetSendEvents text) → speaks o ours buffer = false := by
    intro text hmem
    rw [telnetSendEvents, sends_map_send] at hmem
    exact speaks_sendEvents List.not_mem_nil text o ours buffer hmem
  cases item with
  | data text => exact htext text hbuffer
  | command cmd =>
      have htwo : buffer = [telnetIac, cmd] := List.mem_singleton.1 hbuffer
      exact speaks_eq_false (by simp [htwo, negotiationBytes]) o ours
  | negotiation cmd telopt => exact absurd hsilent id
  | subnegotiation telopt text =>
      rw [TelnetItem.events, telnetSubnegotiation, sends_append, sends_append, List.mem_append,
        List.mem_append] at hbuffer
      rcases hbuffer with (hbuffer | hbuffer) | hbuffer
      · have hbegin : buffer = [telnetIac, telnetSb, telopt] := List.mem_singleton.1 hbuffer
        refine speaks_eq_false (fun v o' hv => ?_) o ours
        rw [hbegin] at hv
        cases v <;> simp [negotiationBytes, Verb.byte, telnetSb] at hv
      · exact htext text hbuffer
      · have hend : buffer = [telnetIac, telnetSe] := List.mem_singleton.1 hbuffer
        exact speaks_eq_false (by simp [hend, negotiationBytes]) o ours

/-- The requests of an answer. -/
theorem about_answer (telopt o : UInt8) (ours ours' : Bool) (requests : List (Verb × UInt8))
    (on : Option Bool) :
    about o (!ours') (requests ++ on.toList.map fun on => (sayVerb ours on, telopt)) =
      about o (!ours') requests ++ if o = telopt ∧ ours' = ours then on.toList else [] := by
  rw [about, List.filter_append, List.map_append, ← about]
  congr 1
  cases on with
  | none => simp
  | some on =>
      rcases eq_or_ne o telopt with rfl | hne
      · cases ours <;> cases ours' <;> cases on <;> simp [sayVerb, Verb.ours, Verb.on]
      · simp [hne, hne.symm]

/-- The first request. -/
theorem about_cons (telopt o : UInt8) (ours : Bool) (cmd : Verb) (requests : List (Verb × UInt8)) :
    about o ours ((cmd, telopt) :: requests) =
      (if o = telopt ∧ ours = cmd.ours then [cmd.on] else []) ++ about o ours requests := by
  by_cases heq : o = telopt ∧ ours = cmd.ours
  · obtain ⟨rfl, rfl⟩ := heq
    simp [about]
  · have hnot : ¬ (telopt = o ∧ cmd.ours = ours) := fun h => heq ⟨h.1.symm, h.2.symm⟩
    simp [about, heq, hnot]

/-! ### What a call leaves of an end -/

section

variable {mem : ℕ → Bool} {telnet telnet' : Telnet} {opts : List UInt8} {patient : Bool}

theorem Telnet.keeps_init {telopts : List Telopt}
    (hsupports : (telnetInit telopts false).SupportsOnly opts) :
    (telnetInit telopts false).Keeps opts patient :=
  ⟨rfl, Telnet.tracks_init opts telopts false, hsupports, fun _ _ => by simp [telnetInit,
    Telnet.getRfc1143]⟩

/-- A byte that completes no request leaves the options alone. -/
theorem Telnet.Keeps.congr (h : telnet.Keeps opts patient) (hsame : SameAnswers telnet telnet') :
    telnet'.Keeps opts patient := by
  obtain ⟨heads, htable, hsub⟩ := h.tracks
  refine ⟨hsame.proxy.trans h.proxy, ⟨heads, hsame.q ▸ htable, hsub⟩,
    h.supports.congr hsame.telopts, ?_⟩
  intro hpatient telopt
  rw [Telnet.getRfc1143, hsame.q]
  exact h.patient hpatient telopt

theorem answer_ne_wantNoOp : ∀ again allowed on : Bool, ∀ s : State,
    (QMethod.answer again allowed s on).1 ≠ .wantNoOp := by
  decide

theorem ask_eq_wantNoOp : ∀ on : Bool, ∀ s : State, (QMethod.ask s on).1 = .wantNoOp →
    s = .wantNoOp ∨ (on = true ∧ s = .wantNo) := by
  decide

/-- When the opposite is not wanted, it does not matter whether the end asks again. -/
theorem answer_again : ∀ again again' allowed on : Bool, ∀ s : State, s ≠ .wantNoOp →
    QMethod.answer again allowed s on = QMethod.answer again' allowed s on := by
  decide

theorem Telnet.Keeps.negotiate (h : telnet.Keeps opts patient) (hmem : ∀ n, mem n = true)
    (hopts : opts.length ≤ maxTracked) (cmd : Verb) (telopt : UInt8) :
    (telnet.negotiate mem cmd telopt).1.Keeps opts patient := by
  have hsame := sameReceiver_negotiate mem telnet cmd telopt
  refine ⟨hsame.proxy.trans h.proxy, h.tracks.negotiate hopts h.supports mem cmd telopt,
    h.supports.congr hsame.telopts, ?_⟩
  intro hpatient o
  have hhalf := telnet.half_negotiate hmem h.proxy h.tracks hopts h.supports cmd telopt o false
  show ((telnet.negotiate mem cmd telopt).1.getRfc1143 o).half false ≠ _
  rw [hhalf]
  split
  · exact answer_ne_wantNoOp _ _ _ _
  · exact h.patient hpatient o

theorem sayVerb_ours (cmd : Verb) : sayVerb (!cmd.ours) cmd.on = cmd := by
  cases cmd <;> rfl

theorem eq_doIt {cmd : Verb} (hours : cmd.ours = true) (hon : cmd.on = true) : cmd = .doIt := by
  cases cmd <;> first
    | rfl
    | exact absurd hours (by decide)
    | exact absurd hon (by decide)

/-- What a request of the application comes to. -/
theorem Telnet.Keeps.telnetNegotiate (h : telnet.Keeps opts patient) (hmem : ∀ n, mem n = true)
    (hopts : opts.length ≤ maxTracked) {cmd : Verb} {telopt : UInt8} (ho : telopt ∈ opts)
    (hpatient : patient = true → cmd = .doIt → (telnet.getRfc1143 telopt).him ≠ .wantNo) :
    let r := telnetNegotiate mem telnet cmd telopt
    let turn := QMethod.ask ((telnet.getRfc1143 telopt).half !cmd.ours) cmd.on
    r.1.Keeps opts patient ∧ SameReceiver telnet r.1 ∧
      sends r.2 = answerSends (!cmd.ours) telopt turn.2 ∧
      ∀ o ours, (r.1.getRfc1143 o).half ours =
        if o = telopt ∧ ours = !cmd.ours then turn.1 else (telnet.getRfc1143 o).half ours := by
  intro r turn
  obtain ⟨hsaved, hsends⟩ := telnetNegotiate_eq mem telnet telopt h.proxy (!cmd.ours) cmd.on
  rw [sayVerb_ours] at hsaved hsends
  have hsame := hsaved.sameReceiver
  have hhalf := hsaved.half h.tracks hopts (Or.inl ho) (hmem _)
  refine ⟨⟨hsame.proxy.trans h.proxy, hsaved.tracks h.tracks hopts (Or.inl ho),
    h.supports.congr hsame.telopts, ?_⟩, hsame, hsends, hhalf⟩
  intro hp o
  show (r.1.getRfc1143 o).half false ≠ _
  rw [hhalf o false]
  split
  · next heq =>
      have hours : cmd.ours = true := by simpa using heq.2
      intro hask
      rcases ask_eq_wantNoOp _ _ hask with hwant | ⟨hon, hwant⟩
      · rw [hours] at hwant
        exact h.patient hp telopt hwant
      · rw [hours] at hwant
        exact hpatient hp (eq_doIt hours hon) hwant
  · exact h.patient hp o

end

/-! ### What a call preserves -/

section

variable {mem : ℕ → Bool} {opts : List UInt8} {patient : Bool} {p : Peers}

theorem written_called (peer : Peer) (call : PeerCall) :
    (peer.called call).written = peer.written ++ call.shows := by
  simp [Peer.called, Peer.written]

theorem plain_telnetNegotiate (telnet : Telnet) (cmd : Verb) (telopt : UInt8) :
    ∀ e ∈ (telnetNegotiate mem telnet cmd telopt).2, e.plain = false := by
  unfold telnetNegotiate
  dsimp only
  split
  · simp [sendNegotiate, TelnetEvent.plain]
  · split <;> first
      | exact plain_save (by simp [sendNegotiate, TelnetEvent.plain])
      | simp

/-- A call is counted if it asks for the option. -/
theorem asked_nearCalls (mem : ℕ → Bool) (p : Peers) (call : PeerCall) (telopt : UInt8) (ours : Bool) :
    (p.nearCalls mem call).asked telopt ours =
      p.asked telopt ours + if call.asks telopt ours then 1 else 0 := by
  cases call <;> simp only [Peers.nearCalls, Peers.asked, Peer.called, Peer.does,
    List.countP_append, List.countP_singleton] <;> omega

/-- What the near end sends is counted. -/
theorem said_append (p : Peers) (peer : Peer) {buffers : List (List UInt8)}
    (hsent : peer.sent = p.near.sent ++ buffers) (wire : List UInt8) (telopt : UInt8) (ours : Bool) :
    (Peers.mk peer { p.far with wire := wire }).said telopt ours =
      p.said telopt ours + buffers.countP (speaks telopt ours) := by
  simp only [Peers.said, hsent, List.countP_append]
  omega

/-- **The near application asks for an option.** -/
theorem Peers.Inv.negotiate (h : p.Inv mem opts patient) (hmem : ∀ n, mem n = true)
    (hopts : opts.length ≤ maxTracked) {cmd : Verb} {telopt : UInt8}
    (hcall : (PeerCall.negotiate cmd telopt).Allowed opts patient p.near.telnet) :
    (p.nearCalls mem (.negotiate cmd telopt)).Inv mem opts patient := by
  let r := telnetNegotiate mem p.near.telnet cmd telopt
  let turn := QMethod.ask ((p.near.telnet.getRfc1143 telopt).half !cmd.ours) cmd.on
  obtain ⟨hkeeps, hsame, hsends, hhalf⟩ := h.near.telnetNegotiate hmem hopts hcall.1 hcall.2
  have hplain : seenOf r.2 = [] := seenOf_eq_nil (plain_telnetNegotiate p.near.telnet cmd telopt)
  obtain ⟨hready, hseen, hrequests⟩ :=
    reads_answer hmem h.there.ready (!cmd.ours) telopt turn.2
  obtain ⟨hline, hback⟩ := run_feed_congr hmem hsame.sameLine p.far.wire
  rw [← hsends] at hready hseen hrequests
  refine ⟨hkeeps, h.far, ⟨hready, ?_⟩, ⟨hline.line.ready h.back.ready, ?_⟩, ?_⟩
  · have hwritten : (p.near.called (.negotiate cmd telopt)).written = p.near.written := by
      rw [written_called]
      exact List.append_nil _
    exact (congrArg (p.far.seen ++ ·) hseen).trans (h.there.seen.trans hwritten.symm)
  · have hnear : p.near.seen ++ seenOf r.2 ++
        seenOf (Transducer.run (Telnet.feed mem) r.1 p.far.wire).2 = p.far.written := by
      rw [hplain, List.append_nil, hline.seen]
      exact h.back.seen
    exact hnear
  · intro o ours
    obtain ⟨heard, hreach, hsaid⟩ := h.link o ours
    have hthere := about_answer telopt o (!cmd.ours) ours
      (p.far.telnet.requests mem p.near.wire) turn.2
    rw [← hrequests] at hthere
    have hcounted := countP_answerSends telopt o (!cmd.ours) ours turn.2
    rw [← hsends] at hcounted
    have hasked := asked_nearCalls mem p (.negotiate cmd telopt) o ours
    have hsaid' := said_append p ((p.near.does r).called (.negotiate cmd telopt)) rfl p.far.wire o ours
    rw [hcounted] at hsaid'
    by_cases heq : o = telopt ∧ ours = !cmd.ours
    · rw [if_pos heq] at hthere hsaid'
      have hasks : (PeerCall.negotiate cmd telopt).asks o ours = true := decide_eq_true heq
      have hask : (QMethod.ask (p.link mem o ours).near cmd.on) = turn := by
        rw [heq.1, heq.2]
        rfl
      have hlink : (p.nearCalls mem (.negotiate cmd telopt)).link mem o ours =
          (p.link mem o ours).nearAsks cmd.on := by
        rw [QMethod.Link.nearAsks, hask]
        exact QMethod.Link.ext ((hhalf o ours).trans (if_pos heq)) rfl hthere
          (congrArg (about o ours) hback)
      refine ⟨heard, ?_, ?_⟩
      · rw [hlink, hasked, if_pos hasks]
        exact hreach.nearAsks cmd.on
      · refine hsaid'.trans ?_
        rw [hlink, QMethod.Link.nearAsks, hask, List.length_append, hsaid]
        dsimp only
        omega
    · rw [if_neg heq, List.append_nil] at hthere
      rw [if_neg heq] at hsaid'
      have hlink : (p.nearCalls mem (.negotiate cmd telopt)).link mem o ours = p.link mem o ours := by
        refine QMethod.Link.ext ?_ rfl hthere (congrArg (about o ours) hback)
        exact (hhalf o ours).trans (if_neg heq)
      refine ⟨heard, ?_, ?_⟩
      · rw [hlink, hasked, if_neg (by simpa [PeerCall.asks] using heq)]
        exact hreach
      · rw [hlink]
        exact hsaid'.trans hsaid

/-- What is sent is not seen by the sender. -/
theorem seenOf_item (item : TelnetItem) : seenOf item.events = [] := by
  refine seenOf_eq_nil ?_
  have htext : ∀ text, ∀ e ∈ telnetSendEvents text, e.plain = false := by
    intro text e he
    obtain ⟨buffer, -, rfl⟩ := List.mem_map.1 he
    rfl
  intro e he
  cases item with
  | data text => exact htext text e he
  | command cmd =>
      rw [List.mem_singleton.1 he]
      rfl
  | negotiation cmd telopt =>
      rw [List.mem_singleton.1 he]
      rfl
  | subnegotiation telopt text =>
      rw [TelnetItem.events, telnetSubnegotiation, List.mem_append, List.mem_append] at he
      rcases he with (he | he) | he
      · rw [List.mem_singleton.1 he]
        rfl
      · exact htext text e he
      · rw [List.mem_singleton.1 he]
        rfl

/-- **The near application writes.** -/
theorem Peers.Inv.write (h : p.Inv mem opts patient) (hmem : ∀ n, mem n = true) {item : TelnetItem}
    (hsilent : item.Silent) : (p.nearCalls mem (.write item)).Inv mem opts patient := by
  obtain ⟨hready, hseen, hrequests⟩ := reads_item hmem h.there.ready hsilent
  refine ⟨h.near, h.far, ⟨hready, ?_⟩, ⟨h.back.ready, ?_⟩, ?_⟩
  · have hfar : p.far.seen ++ (seenOf (Transducer.run (Telnet.feed mem) p.far.telnet p.near.wire).2 ++
        item.seen) = (p.near.called (.write item)).written := by
      rw [← List.append_assoc, h.there.seen, written_called]
      rfl
    exact (congrArg (p.far.seen ++ ·) hseen).trans hfar
  · have hnear : p.near.seen ++ seenOf item.events ++
        seenOf (Transducer.run (Telnet.feed mem) p.near.telnet p.far.wire).2 = p.far.written := by
      rw [seenOf_item, List.append_nil]
      exact h.back.seen
    exact hnear
  · intro o ours
    obtain ⟨heard, hreach, hsaid⟩ := h.link o ours
    have hasked := asked_nearCalls mem p (.write item) o ours
    have hsaid' := said_append p ((p.near.does (p.near.telnet, item.events)).called (.write item)) rfl
      p.far.wire o ours
    rw [countP_item hsilent] at hsaid'
    have hlink : (p.nearCalls mem (.write item)).link mem o ours = p.link mem o ours :=
      QMethod.Link.ext rfl rfl (congrArg (about o !ours) hrequests) rfl
    refine ⟨heard, ?_, ?_⟩
    · rw [hlink, hasked]
      exact hreach
    · rw [hlink]
      exact hsaid'.trans hsaid

/-! ### Bytes that are read -/

/-- The near end has read `bytes`, and `wire` is left on the way to it. -/
def Peers.nearReads (mem : ℕ → Bool) (p : Peers) (bytes wire : List UInt8) : Peers :=
  ⟨p.near.does (Transducer.run (Telnet.feed mem) p.near.telnet bytes), { p.far with wire := wire }⟩

/-- What is read is no longer on the way. -/
theorem Carries.read {a b : Peer} (h : Carries mem a b) {byte : UInt8} {wire : List UInt8}
    (hwire : a.wire = byte :: wire) :
    Carries mem { a with wire := wire } (b.does (b.telnet.feed mem byte)) := by
  have hready := h.ready
  have hseen := h.seen
  rw [hwire, Transducer.run_cons] at hready hseen
  refine ⟨hready, ?_⟩
  rw [seenOf_append, ← List.append_assoc] at hseen
  exact hseen

theorem nearReads_singleton (p : Peers) (byte : UInt8) (wire : List UInt8) :
    p.nearReads mem [byte] wire =
      ⟨p.near.does (p.near.telnet.feed mem byte), { p.far with wire := wire }⟩ := by
  rw [Peers.nearReads, Transducer.run_singleton]

/-- A byte that completes no request. -/
theorem Peers.Inv.reads_silent (h : p.Inv mem opts patient) {byte : UInt8} {wire : List UInt8}
    (hwire : p.far.wire = byte :: wire) (hstate : ∀ cmd, p.near.telnet.state ≠ .negotiating cmd)
    (hsilent : Silent p.near.telnet (p.near.telnet.feed mem byte)) :
    (p.nearReads mem [byte] wire).Inv mem opts patient := by
  rw [nearReads_singleton]
  have hbytes : sentBytes (p.near.telnet.feed mem byte).2 = [] := by
    rw [sentBytes, hsilent.sends, List.flatten_nil]
  have hnear : (p.near.does (p.near.telnet.feed mem byte)).wire = p.near.wire := by
    show p.near.wire ++ sentBytes _ = _
    rw [hbytes, List.append_nil]
  have hrequests : p.near.telnet.requests mem p.far.wire =
      (p.near.telnet.feed mem byte).1.requests mem wire := by
    rw [hwire, Telnet.requests, request_eq_nil hstate, List.nil_append]
  refine ⟨h.near.congr hsilent.same, h.far, ⟨?_, ?_⟩, h.back.read hwire, ?_⟩
  · rw [hnear]
    exact h.there.ready
  · rw [hnear]
    exact h.there.seen
  · intro o ours
    obtain ⟨heard, hreach, hsaid⟩ := h.link o ours
    have hlink : Peers.link mem ⟨p.near.does (p.near.telnet.feed mem byte),
        { p.far with wire := wire }⟩ o ours = p.link mem o ours := by
      refine QMethod.Link.ext ?_ rfl ?_ (congrArg (about o ours) hrequests.symm)
      · show ((p.near.telnet.feed mem byte).1.getRfc1143 o).half ours = _
        rw [Telnet.getRfc1143, hsilent.same.q]
        rfl
      · show about o (!ours) (p.far.telnet.requests mem _) = _
        rw [hnear]
        rfl
    have hsaid' := said_append p (p.near.does (p.near.telnet.feed mem byte)) rfl wire o ours
    rw [hsilent.sends, List.countP_nil] at hsaid'
    rw [hlink]
    exact ⟨heard, hreach, hsaid'.trans hsaid⟩

/-- A byte that completes a request. -/
theorem Peers.Inv.reads_request (h : p.Inv mem opts patient) (hmem : ∀ n, mem n = true)
    (hopts : opts.length ≤ maxTracked) {byte : UInt8} {wire : List UInt8}
    (hwire : p.far.wire = byte :: wire) {cmd : Verb}
    (hstate : p.near.telnet.state = .negotiating cmd)
    (hfeed : p.near.telnet.feed mem byte =
      ((p.near.telnet.negotiate mem cmd byte).1.goto .data,
        (p.near.telnet.negotiate mem cmd byte).2)) :
    (p.nearReads mem [byte] wire).Inv mem opts patient := by
  let turn := QMethod.answer cmd.ours (p.near.telnet.checkTelopt byte cmd.ours)
    ((p.near.telnet.getRfc1143 byte).half cmd.ours) cmd.on
  have hsends := (p.near.telnet.negotiate_eq mem byte h.near.proxy cmd).2
  have hhalf := p.near.telnet.half_negotiate hmem h.near.proxy h.near.tracks hopts h.near.supports
    cmd byte
  have hsends' : sends (p.near.telnet.feed mem byte).2 = answerSends cmd.ours byte turn.2 := by
    rw [hfeed]
    exact hsends
  have hrequest : p.near.telnet.request byte = [(cmd, byte)] := by rw [Telnet.request, hstate]
  have hrequests : p.near.telnet.requests mem p.far.wire =
      (cmd, byte) :: (p.near.telnet.feed mem byte).1.requests mem wire := by
    rw [hwire, Telnet.requests, hrequest, List.singleton_append]
  obtain ⟨hready, hseen, hthere⟩ := reads_answer hmem h.there.ready cmd.ours byte turn.2
  rw [← hsends'] at hready hseen hthere
  rw [nearReads_singleton]
  refine ⟨?_, h.far, ⟨hready, ?_⟩, h.back.read hwire, ?_⟩
  · show Telnet.Keeps (p.near.telnet.feed mem byte).1 opts patient
    rw [hfeed]
    exact (h.near.negotiate hmem hopts cmd byte).congr ⟨rfl, rfl, rfl⟩
  · exact (congrArg (p.far.seen ++ ·) hseen).trans h.there.seen
  · intro o ours
    obtain ⟨heard, hreach, hsaid⟩ := h.link o ours
    have hnew : ((p.near.telnet.feed mem byte).1.getRfc1143 o).half ours =
        if o = byte ∧ ours = cmd.ours then turn.1 else (p.near.telnet.getRfc1143 o).half ours := by
      rw [hfeed]
      exact hhalf o ours
    have hthere' := about_answer byte o cmd.ours ours (p.far.telnet.requests mem p.near.wire) turn.2
    rw [← hthere] at hthere'
    have hback := about_cons byte o ours cmd ((p.near.telnet.feed mem byte).1.requests mem wire)
    rw [← hrequests] at hback
    have hsaid' := said_append p (p.near.does (p.near.telnet.feed mem byte)) rfl wire o ours
    rw [hsends', countP_answerSends] at hsaid'
    by_cases heq : o = byte ∧ ours = cmd.ours
    · rw [if_pos heq] at hnew hthere' hback hsaid'
      obtain ⟨again, hagain, hanswer⟩ : ∃ again, (patient = true → again = true) ∧
          QMethod.answer again (p.near.telnet.checkTelopt byte cmd.ours) (p.link mem o ours).near
            cmd.on = turn := by
        have hnear : (p.link mem o ours).near = (p.near.telnet.getRfc1143 byte).half cmd.ours := by
          rw [heq.1, heq.2]
          rfl
        rw [hnear]
        cases hours : cmd.ours with
        | true => exact ⟨true, fun _ => rfl, by simp [turn, hours]⟩
        | false =>
            cases hpatient : patient with
            | false => exact ⟨false, fun h => h, by simp [turn, hours]⟩
            | true =>
                -- an end that does not want the opposite has nothing to ask again
                have hhim := h.near.patient hpatient byte
                refine ⟨true, fun _ => rfl, ?_⟩
                simp only [turn, hours]
                exact answer_again _ _ _ _ _ hhim
      have hlink : Peers.link mem ⟨p.near.does (p.near.telnet.feed mem byte),
          { p.far with wire := wire }⟩ o ours =
            (p.link mem o ours).nearHears again (p.near.telnet.checkTelopt byte cmd.ours) cmd.on
              (about o ours ((p.near.telnet.feed mem byte).1.requests mem wire)) := by
        rw [QMethod.Link.nearHears, hanswer]
        exact QMethod.Link.ext hnew rfl hthere' rfl
      refine ⟨heard + 1, ?_, ?_⟩
      · rw [hlink]
        exact hreach.nearHears _ hagain hback
      · have hlen := congrArg List.length hback
        refine hsaid'.trans ?_
        rw [hlink, QMethod.Link.nearHears, hanswer, List.length_append, hsaid]
        rw [List.length_append, List.length_singleton] at hlen
        show heard + _ + (about o ours (p.near.telnet.requests mem p.far.wire)).length + _ = _
        rw [hlen]
        dsimp only
        omega
    · rw [if_neg heq] at hnew hsaid'
      rw [if_neg heq, List.append_nil] at hthere'
      rw [if_neg heq, List.nil_append] at hback
      have hlink : Peers.link mem ⟨p.near.does (p.near.telnet.feed mem byte),
          { p.far with wire := wire }⟩ o ours = p.link mem o ours :=
        QMethod.Link.ext hnew rfl hthere' hback.symm
      rw [hlink]
      exact ⟨heard, hreach, hsaid'.trans hsaid⟩

theorem nearReads_cons (p : Peers) (byte : UInt8) (bytes wire : List UInt8) :
    p.nearReads mem (byte :: bytes) wire =
      (p.nearReads mem [byte] (bytes ++ wire)).nearReads mem bytes wire := by
  simp [Peers.nearReads, Peer.does, Transducer.run_cons, sentBytes_append]

/-- **The near end reads some of the bytes on the way to it.** -/
theorem Peers.Inv.reads (h : p.Inv mem opts patient) (hmem : ∀ n, mem n = true)
    (hopts : opts.length ≤ maxTracked) {bytes wire : List UInt8}
    (hwire : p.far.wire = bytes ++ wire) : (p.nearReads mem bytes wire).Inv mem opts patient := by
  induction bytes generalizing p with
  | nil =>
      have hsame : p.nearReads mem [] wire = p := by
        have hfar : p.far.wire = wire := hwire
        simp [Peers.nearReads, Peer.does, sends, sentBytes, seenOf, ← hfar]
      rw [hsame]
      exact h
  | cons byte bytes ih =>
      have hfirst : (p.nearReads mem [byte] (bytes ++ wire)).Inv mem opts patient := by
        rcases feed_cases mem p.near.telnet byte with ⟨cmd, hstate, hfeed⟩ | ⟨hstate, hsilent⟩
        · exact h.reads_request hmem hopts hwire hstate hfeed
        · exact h.reads_silent hwire hstate hsilent
      rw [nearReads_cons]
      exact ih hfirst rfl

/-- However the bytes are cut, they are read as if one by one. -/
theorem does_telnetRecv (peer : Peer) (bytes : List UInt8) :
    peer.does (telnetRecv mem peer.telnet bytes) =
      peer.does (Transducer.run (Telnet.feed mem) peer.telnet bytes) := by
  obtain ⟨hstate, hevents⟩ := telnetRecv_cuts mem peer.telnet bytes
  have hsends : sends (telnetRecv mem peer.telnet bytes).2 =
      sends (Transducer.run (Telnet.feed mem) peer.telnet bytes).2 := by
    rw [← sends_atoms, hevents, sends_atoms]
  have hseen : seenOf (telnetRecv mem peer.telnet bytes).2 =
      seenOf (Transducer.run (Telnet.feed mem) peer.telnet bytes).2 := by
    rw [seenOf, hevents, seenOf]
  rw [Peer.does, Peer.does, hstate, hseen, sentBytes, hsends]
  rfl

/-- A call that writes nothing and asks for nothing. -/
theorem Peers.Inv.called (h : p.Inv mem opts patient) {call : PeerCall} (hshows : call.shows = [])
    (hasks : ∀ telopt ours, call.asks telopt ours = false) :
    Peers.Inv mem opts patient ⟨p.near.called call, p.far⟩ := by
  refine ⟨h.near, h.far, ⟨h.there.ready, ?_⟩, ⟨h.back.ready, h.back.seen⟩, ?_⟩
  · rw [written_called, hshows, List.append_nil]
    exact h.there.seen
  · intro telopt ours
    have hasked : (Peers.mk (p.near.called call) p.far).asked telopt ours = p.asked telopt ours := by
      simp [Peers.asked, Peer.called, List.countP_append, hasks]
    rw [hasked]
    exact h.link telopt ours

theorem Peers.Inv.recv (h : p.Inv mem opts patient) (hmem : ∀ n, mem n = true)
    (hopts : opts.length ≤ maxTracked) (count : ℕ) :
    (p.nearCalls mem (.recv count)).Inv mem opts patient := by
  have hread := h.reads hmem hopts (List.take_append_drop count p.far.wire).symm
  show Peers.Inv mem opts patient ⟨(p.near.does _).called _, _⟩
  rw [does_telnetRecv]
  exact hread.called rfl fun _ _ => rfl

/-- **A call of the near application keeps the invariant.** -/
theorem Peers.Inv.nearCalls (h : p.Inv mem opts patient) (hmem : ∀ n, mem n = true)
    (hopts : opts.length ≤ maxTracked) {call : PeerCall}
    (hcall : call.Allowed opts patient p.near.telnet) :
    (p.nearCalls mem call).Inv mem opts patient := by
  cases call with
  | negotiate cmd telopt => exact h.negotiate hmem hopts hcall
  | write item => exact h.write hmem hcall
  | recv count => exact h.recv hmem hopts count

theorem Peers.inv_start (nearTelopts farTelopts : List Telopt)
    (hnear : (telnetInit nearTelopts false).SupportsOnly opts)
    (hfar : (telnetInit farTelopts false).SupportsOnly opts) :
    Peers.Inv mem opts patient ⟨.start nearTelopts, .start farTelopts⟩ := by
  refine ⟨Telnet.keeps_init hnear, Telnet.keeps_init hfar, ⟨Telnet.ready_init _ _, rfl⟩,
    ⟨Telnet.ready_init _ _, rfl⟩, ?_⟩
  intro telopt ours
  have hlink : Peers.link mem ⟨.start nearTelopts, .start farTelopts⟩ telopt ours =
      QMethod.Link.start := by
    refine QMethod.Link.ext ?_ ?_ rfl rfl
    · cases ours <;> rfl
    · cases ours <;> rfl
  rw [hlink]
  exact ⟨0, QMethod.Reaches.start, rfl⟩

/-- **The invariant holds in every run.** -/
theorem PeersReach.inv (h : PeersReach mem opts patient p) (hmem : ∀ n, mem n = true)
    (hopts : opts.length ≤ maxTracked) : p.Inv mem opts patient := by
  induction h with
  | start hnear hfar => exact Peers.inv_start _ _ hnear hfar
  | near hcall _ ih => exact ih.nearCalls hmem hopts hcall
  | far hcall _ ih => exact (ih.swap.nearCalls hmem hopts hcall).swap

end

/-! ### Results -/

section

variable {mem : ℕ → Bool} {opts : List UInt8} {p : Peers}

/-- **Each application sees what the other one writes, in order**, whatever is negotiated meanwhile;
when nothing is on the way, it has seen everything. -/
theorem peers_seen {patient : Bool} (h : PeersReach mem opts patient p) (hmem : ∀ n, mem n = true)
    (hopts : opts.length ≤ maxTracked) :
    p.far.seen <+: p.near.written ∧ p.near.seen <+: p.far.written ∧
      (p.near.wire = [] → p.far.seen = p.near.written) ∧
      (p.far.wire = [] → p.near.seen = p.far.written) := by
  have hinv := h.inv hmem hopts
  have hall : ∀ a b : Peer, Carries mem a b →
      b.seen <+: a.written ∧ (a.wire = [] → b.seen = a.written) := by
    intro a b hcarries
    refine ⟨⟨_, hcarries.seen⟩, ?_⟩
    intro hwire
    have hseen := hcarries.seen
    rw [hwire, Transducer.run_nil] at hseen
    exact (List.append_nil _).symm.trans hseen
  exact ⟨(hall _ _ hinv.there).1, (hall _ _ hinv.back).1, (hall _ _ hinv.there).2,
    (hall _ _ hinv.back).2⟩

/-- **At most two commands are sent for a request**, however the calls interleave. -/
theorem peers_said_le {patient : Bool} (h : PeersReach mem opts patient p)
    (hmem : ∀ n, mem n = true) (hopts : opts.length ≤ maxTracked) (telopt : UInt8) (ours : Bool) :
    p.said telopt ours ≤ 2 * p.asked telopt ours := by
  obtain ⟨heard, hreach, hsaid⟩ := (h.inv hmem hopts).link telopt ours
  have hle := hreach.heard_le
  omega

/-- **No option is on at one end and off at the other.** -/
theorem peers_not_opposed {patient : Bool} (h : PeersReach mem opts patient p)
    (hmem : ∀ n, mem n = true) (hopts : opts.length ≤ maxTracked) (telopt : UInt8) (ours : Bool) :
    let near := (p.near.telnet.getRfc1143 telopt).half ours
    let far := (p.far.telnet.getRfc1143 telopt).half !ours
    ¬ (near = .yes ∧ far = .no) ∧ ¬ (near = .no ∧ far = .yes) := by
  obtain ⟨heard, hreach, -⟩ := (h.inv hmem hopts).link telopt ours
  exact hreach.not_opposed

/-- **With nothing on the way the ends agree** about every option, and none of them waits, if no
application asks for an option again before it was told that it is off. -/
theorem peers_agree (h : PeersReach mem opts true p) (hmem : ∀ n, mem n = true)
    (hopts : opts.length ≤ maxTracked) (hquiet : p.near.wire = [] ∧ p.far.wire = []) (telopt : UInt8)
    (ours : Bool) :
    let near := (p.near.telnet.getRfc1143 telopt).half ours
    let far := (p.far.telnet.getRfc1143 telopt).half !ours
    (near = .no ∧ far = .no) ∨ (near = .yes ∧ far = .yes) := by
  obtain ⟨heard, hreach, -⟩ := (h.inv hmem hopts).link telopt ours
  refine hreach.agree ⟨?_, ?_⟩
  · show about telopt (!ours) (p.far.telnet.requests mem p.near.wire) = []
    rw [hquiet.1]
    rfl
  · show about telopt ours (p.near.telnet.requests mem p.far.wire) = []
    rw [hquiet.2]
    rfl

end

/-! ### A run -/

/-- The near end wants the other one to echo, and the far end is willing to. -/
def echoPeers : Peers :=
  ⟨.start [⟨1, Verb.wont.byte, Verb.doIt.byte⟩], .start [⟨1, Verb.will.byte, Verb.dont.byte⟩]⟩

/-- The near end asks, writes a text, and both read. -/
def echoCalls : List (Bool × PeerCall) :=
  [(true, .negotiate .doIt 1), (true, .write (.data [104, 105])), (false, .recv 2), (false, .recv 3),
    (true, .recv 3)]

/-- The calls, `true` for those of the near application. -/
def Peers.run (mem : ℕ → Bool) (p : Peers) (calls : List (Bool × PeerCall)) : Peers :=
  calls.foldl (fun p call =>
    if call.1 then p.nearCalls mem call.2 else (p.swap.nearCalls mem call.2).swap) p

theorem echoPeers_reach (patient : Bool) :
    PeersReach (fun _ => true) [1] patient (echoPeers.run (fun _ => true) echoCalls) := by
  have hstart : PeersReach (fun _ => true) [1] patient echoPeers :=
    .start (supportsOnly_telopts [⟨1, Verb.wont.byte, Verb.doIt.byte⟩])
      (supportsOnly_telopts [⟨1, Verb.will.byte, Verb.dont.byte⟩])
  have hask : (PeerCall.negotiate .doIt 1).Allowed [1] patient echoPeers.near.telnet :=
    ⟨by decide, fun _ _ => by decide⟩
  have hwrite : ∀ telnet, (PeerCall.write (.data [104, 105])).Allowed [1] patient telnet :=
    fun _ => trivial
  have hrecv : ∀ count telnet, (PeerCall.recv count).Allowed [1] patient telnet :=
    fun _ _ => trivial
  have hasked := hstart.near hask
  have hwritten := hasked.near (hwrite _)
  have hread := (hwritten.far (hrecv 2 _)).far (hrecv 3 _)
  exact hread.near (hrecv 3 _)

theorem peers_seen_echo :
    (echoPeers.run (fun _ => true) echoCalls).far.seen = dataAtoms [104, 105] :=
  (peers_seen (echoPeers_reach false) (fun _ => rfl) (by decide)).2.2.1 (by decide)

theorem peers_said_le_echo :
    (echoPeers.run (fun _ => true) echoCalls).said 1 false ≤ 2 :=
  peers_said_le (echoPeers_reach false) (fun _ => rfl) (by decide) 1 false

theorem peers_not_opposed_echo :
    ((echoPeers.run (fun _ => true) echoCalls).far.telnet.getRfc1143 1).half true ≠ .no := by
  intro hno
  exact (peers_not_opposed (echoPeers_reach false) (fun _ => rfl) (by decide) 1 false).1
    ⟨by decide, hno⟩

theorem peers_agree_echo :
    ((echoPeers.run (fun _ => true) echoCalls).far.telnet.getRfc1143 1).half true = .yes := by
  rcases peers_agree (echoPeers_reach true) (fun _ => rfl) (by decide) ⟨by decide, by decide⟩ 1 false
    with ⟨hno, -⟩ | ⟨-, hyes⟩
  · exact absurd hno (by decide)
  · exact hyes

/-- An application that asks again too soon is not told: its end waits for an answer to a request
that it has never sent. -/
example :
    let p := echoPeers.run (fun _ => true) [(true, .negotiate .doIt 1), (false, .recv 3),
      (true, .recv 3), (true, .negotiate .dont 1), (true, .negotiate .doIt 1), (false, .recv 3),
      (true, .recv 3)]
    p.near.wire = [] ∧ p.far.wire = [] ∧ (p.near.telnet.getRfc1143 1).him = .wantYes ∧
      (p.far.telnet.getRfc1143 1).us = .no := by
  decide

end Wsn
