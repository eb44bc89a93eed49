/-
**An end that only answers.**

The receiver of libtelnet sends nothing by itself but answers to negotiations, each of three bytes
for a command of three bytes.  The telnet commander asks for no option either: it lets the target
negotiate, and its event handler adds the type of the terminal.  So whatever the target sends, an
option is on or off and never half negotiated, only options of the table of the commander are ever
on, and the table of libtelnet stays small.

Main definitions:

* `TelnetRecvState.credit` — what has been received of a command that may be answered;
* `Telnet.Settled` — no option is half negotiated, and only what is agreed to is on;
* `Says` — what an end says when it agrees to nothing but what is in its table.

Main results:

* `feed_cases` — a byte completes a negotiation, or sends nothing;
* `telnetRecv_sends_le` — **no more bytes are sent than received**;
* `telnetRecv_settled` — **an end that only answers is settled at any time**;
* `telnetRecv_client` — it does what a client with a switch for each option does.
-/

import WsnPlatform.TelnetCommander

set_option relaxedAutoImplicit false
set_option autoImplicit false

namespace Wsn

open QMethod (State)

/-! ### What a byte sends -/

theorem sends_environTelnet {mem : ℕ → Bool} {telnet : Telnet} {type : UInt8}
    {r : Telnet × List TelnetEvent × Bool} (h : environTelnet mem telnet type = some r) :
    sends r.2.1 = [] := by
  unfold environTelnet environArguments at h
  repeat' split at h
  all_goals first
    | (cases h; rfl)
    | skip
  simp only [Option.bind_eq_bind, Option.bind_eq_some_iff] at h
  obtain ⟨⟨slots, c⟩, -, hr⟩ := h
  cases hr
  rfl

theorem sends_msspTelnet {mem : ℕ → Bool} {telnet : Telnet} {r : Telnet × List TelnetEvent}
    (h : msspTelnet mem telnet = some r) : sends r.2 = [] := by
  unfold msspTelnet at h
  repeat' split at h
  all_goals first
    | (cases h; rfl)
    | skip
  simp only [Option.bind_eq_bind, Option.bind_eq_some_iff] at h
  obtain ⟨outcome, -, hr⟩ := h
  cases hr
  cases outcome <;> rfl

theorem sends_zmpTelnet (mem : ℕ → Bool) (telnet : Telnet) :
    sends (zmpTelnet mem telnet).2 = [] := by
  unfold zmpTelnet
  repeat' split
  all_goals rfl

theorem sends_ttypeTelnet (mem : ℕ → Bool) (telnet : Telnet) :
    sends (ttypeTelnet mem telnet).2 = [] := by
  unfold ttypeTelnet
  repeat' split
  all_goals rfl

/-- A subnegotiation is not answered by libtelnet. -/
theorem sends_subnegotiate (mem : ℕ → Bool) (telnet : Telnet) :
    sends (telnet.subnegotiate mem).2.1 = [] := by
  obtain ⟨r, hr⟩ := Option.isSome_iff_exists.1 (subnegotiateOption_isSome mem telnet)
  unfold Telnet.subnegotiate
  rw [hr]
  show sends r.2.1 = []
  unfold Telnet.subnegotiateOption at hr
  split at hr
  · cases hr
    exact sends_zmpTelnet mem telnet
  · split at hr
    · cases hr
      exact sends_ttypeTelnet mem telnet
    · split at hr
      · exact sends_environTelnet hr
      · split at hr
        · obtain ⟨r', hr', rfl⟩ := Option.map_eq_some_iff.1 hr
          exact sends_msspTelnet hr'
        · cases hr
          rfl

/-- The fields with which requests are answered. -/
structure SameAnswers (telnet telnet' : Telnet) : Prop where
  telopts : telnet'.telopts = telnet.telopts
  proxy : telnet'.proxy = telnet.proxy
  q : telnet'.q = telnet.q

/-- How much has been received of a command that may be answered. -/
def TelnetRecvState.credit : TelnetRecvState → ℕ
  | .data => 0
  | .iac => 1
  | _ => 2

theorem credit_le (state : TelnetRecvState) {n : ℕ} (h : 1 ≤ n) : state.credit ≤ n + 1 := by
  have htwo : state.credit ≤ 2 := by cases state <;> simp [TelnetRecvState.credit]
  exact htwo.trans (Nat.succ_le_succ h)

/-- What a byte does that completes no negotiation: it sends nothing, and answers stay the same. -/
structure Silent (telnet : Telnet) (r : Telnet × List TelnetEvent) : Prop where
  sends : sends r.2 = []
  same : SameAnswers telnet r.1
  credit : r.1.state.credit ≤ telnet.state.credit + 1

theorem silent_processIac {telnet : Telnet} (h : 1 ≤ telnet.state.credit) (byte : UInt8) :
    Silent telnet (telnet.processIac byte) := by
  unfold Telnet.processIac
  repeat' split
  all_goals exact ⟨rfl, ⟨rfl, rfl, rfl⟩, credit_le _ h⟩

theorem silent_processSbByte {telnet : Telnet} (h : 1 ≤ telnet.state.credit) (mem : ℕ → Bool)
    (byte : UInt8) : Silent telnet (telnet.processSbByte mem byte) := by
  have hbuffer : sends (telnet.bufferByte mem byte).2.1 = [] ∧
      SameAnswers telnet (telnet.bufferByte mem byte).1 := by
    unfold Telnet.bufferByte
    repeat' split
    all_goals exact ⟨rfl, rfl, rfl, rfl⟩
  unfold Telnet.processSbByte
  dsimp only
  split
  · exact ⟨hbuffer.1, ⟨hbuffer.2.telopts, hbuffer.2.proxy, hbuffer.2.q⟩, credit_le _ h⟩
  · exact ⟨hbuffer.1, ⟨hbuffer.2.telopts, hbuffer.2.proxy, hbuffer.2.q⟩, credit_le _ h⟩

/-- `_subnegotiate` leaves the answers alone. -/
theorem sameAnswers_subnegotiate (mem : ℕ → Bool) (telnet : Telnet) (state : TelnetRecvState) :
    SameAnswers telnet ((telnet.goto state).subnegotiate mem).1 := by
  have hsame := sameShape_subnegotiate mem (telnet.goto state)
  exact ⟨hsame.telopts, hsame.proxy, hsame.q⟩

theorem silent_processSbIac {telnet : Telnet} (h : 1 ≤ telnet.state.credit) (mem : ℕ → Bool)
    (byte : UInt8) :
    Silent telnet ((telnet.processSbIac mem byte).1, (telnet.processSbIac mem byte).2.1) := by
  have hsame := fun state => sameAnswers_subnegotiate mem telnet state
  have hsends := fun state => sends_subnegotiate mem (telnet.goto state)
  unfold Telnet.processSbIac
  split
  · exact ⟨hsends .data, hsame .data, credit_le _ h⟩
  · split
    · exact silent_processSbByte h mem telnetIac
    · dsimp only
      split
      · exact ⟨hsends .iac, hsame .iac, credit_le _ h⟩
      · have hiac : ((telnet.goto .iac).subnegotiate mem).1.state = .iac :=
          (sameShape_subnegotiate mem (telnet.goto .iac)).state
        have hsilent := silent_processIac
          (show 1 ≤ ((telnet.goto .iac).subnegotiate mem).1.state.credit by rw [hiac]; decide) byte
        refine ⟨?_, ⟨?_, ?_, ?_⟩, credit_le _ h⟩
        · show sends (_ :: _ ++ _) = []
          rw [sends_append, hsilent.sends, List.append_nil]
          exact hsends .iac
        · exact hsilent.same.telopts.trans (hsame .iac).telopts
        · exact hsilent.same.proxy.trans (hsame .iac).proxy
        · exact hsilent.same.q.trans (hsame .iac).q

/-- **A byte completes a negotiation, or sends nothing.** -/
theorem feed_cases (mem : ℕ → Bool) (telnet : Telnet) (byte : UInt8) :
    (∃ cmd, telnet.state = .negotiating cmd ∧
      telnet.feed mem byte = ((telnet.negotiate mem cmd byte).1.goto .data,
        (telnet.negotiate mem cmd byte).2)) ∨
    (∀ cmd, telnet.state ≠ .negotiating cmd) ∧ Silent telnet (telnet.feed mem byte) := by
  cases hstate : telnet.state with
  | negotiating cmd =>
      refine Or.inl ⟨cmd, rfl, ?_⟩
      rw [Telnet.feed, if_neg (by simp [hstate]), Telnet.command, hstate]
  | data =>
      refine Or.inr ⟨by simp, ?_⟩
      rw [Telnet.feed, if_pos hstate]
      split
      · exact ⟨rfl, ⟨rfl, rfl, rfl⟩, by rw [hstate]; exact le_refl 1⟩
      · exact ⟨rfl, ⟨rfl, rfl, rfl⟩, Nat.le_succ _⟩
  | iac =>
      refine Or.inr ⟨by simp, ?_⟩
      rw [Telnet.feed, if_neg (by simp [hstate]), Telnet.command, hstate]
      exact silent_processIac (by rw [hstate]; decide) byte
  | sb =>
      refine Or.inr ⟨by simp, ?_⟩
      rw [Telnet.feed, if_neg (by simp [hstate]), Telnet.command, hstate]
      exact ⟨rfl, ⟨rfl, rfl, rfl⟩, credit_le _ (by rw [hstate]; decide)⟩
  | sbData =>
      refine Or.inr ⟨by simp, ?_⟩
      rw [Telnet.feed, if_neg (by simp [hstate]), Telnet.command, hstate]
      dsimp only
      split
      · exact ⟨rfl, ⟨rfl, rfl, rfl⟩, credit_le _ (by rw [hstate]; decide)⟩
      · exact silent_processSbByte (by rw [hstate]; decide) mem byte
  | sbDataIac =>
      refine Or.inr ⟨by simp, ?_⟩
      rw [Telnet.feed, if_neg (by simp [hstate]), Telnet.command, hstate]
      exact silent_processSbIac (by rw [hstate]; decide) mem byte

/-! ### No more is sent than received -/

theorem length_answerSends (ours : Bool) (telopt : UInt8) (on : Option Bool) :
    (answerSends ours telopt on).flatten.length ≤ 3 := by
  cases on <;> simp [answerSends, negotiationBytes]

/-- A command is answered by one command at most. -/
theorem length_sentBytes_negotiate (mem : ℕ → Bool) (telnet : Telnet) (cmd : Verb)
    (telopt : UInt8) : (sentBytes (telnet.negotiate mem cmd telopt).2).length ≤ 3 := by
  cases hproxy : telnet.proxy with
  | true =>
      rw [Telnet.negotiate.eq_def, if_pos hproxy]
      exact Nat.zero_le 3
  | false =>
      rw [sentBytes, (telnet.negotiate_eq mem telopt hproxy cmd).2]
      exact length_answerSends ..

theorem length_sentBytes_feed (mem : ℕ → Bool) (telnet : Telnet) (byte : UInt8) :
    (sentBytes (telnet.feed mem byte).2).length + (telnet.feed mem byte).1.state.credit ≤
      telnet.state.credit + 1 := by
  rcases feed_cases mem telnet byte with ⟨cmd, hstate, hfeed⟩ | ⟨-, hsilent⟩
  · rw [hfeed, hstate]
    exact length_sentBytes_negotiate mem telnet cmd byte
  · rw [sentBytes, hsilent.sends, List.flatten_nil, List.length_nil, Nat.zero_add]
    exact hsilent.credit

theorem length_sentBytes_run (mem : ℕ → Bool) (telnet : Telnet) (bytes : List UInt8) :
    (sentBytes (Transducer.run (Telnet.feed mem) telnet bytes).2).length +
        (Transducer.run (Telnet.feed mem) telnet bytes).1.state.credit ≤
      telnet.state.credit + bytes.length := by
  induction bytes generalizing telnet with
  | nil => exact le_of_eq (Nat.zero_add _)
  | cons byte bytes ih =>
      have hfirst := length_sentBytes_feed mem telnet byte
      have hrest := ih (telnet.feed mem byte).1
      rw [Transducer.run_cons, sentBytes_append, List.length_append, List.length_cons]
      dsimp only
      omega

/-- Breaking data down does not touch what is sent. -/
theorem sends_atoms (events : List TelnetEvent) :
    sends (events.flatMap TelnetEvent.atoms) = sends events := by
  induction events with
  | nil => rfl
  | cons e events ih =>
      have hone : sends e.atoms = sends [e] := by
        cases e with
        | data buffer =>
            rw [TelnetEvent.atoms, sends, List.filterMap_map]
            exact List.filterMap_eq_nil_iff.2 fun _ _ => rfl
        | _ => rfl
      rw [List.flatMap_cons, sends_append, ih, hone, ← sends_append, List.singleton_append]

/-- What is sent does not depend on how the stream is cut. -/
theorem sends_telnetRecv (mem : ℕ → Bool) (telnet : Telnet) (pieces : List (List UInt8)) :
    sends (Transducer.run (telnetRecv mem) telnet pieces).2 =
      sends (Transducer.run (Telnet.feed mem) telnet pieces.flatten).2 := by
  rw [← sends_atoms, ((telnetRecv_cuts mem).run_flatten telnet pieces).2, sends_atoms]

/-- **No more bytes are sent than received**: in whatever state, whatever is received, and also when
memory is short.  A command of which some bytes had come before counts whole. -/
theorem telnetRecv_sends_le (mem : ℕ → Bool) (telnet : Telnet) (pieces : List (List UInt8)) :
    (sentBytes (Transducer.run (telnetRecv mem) telnet pieces).2).length ≤
      telnet.state.credit + pieces.flatten.length := by
  have hrun := length_sentBytes_run mem telnet pieces.flatten
  rw [sentBytes, sends_telnetRecv, ← sentBytes]
  omega

/-! ### An end that only answers -/

/-- No option is half negotiated, and only what is agreed to is on. -/
def Telnet.Settled (telnet : Telnet) : Prop :=
  ∀ telopt ours, (telnet.getRfc1143 telopt).half ours = .no ∨
    ((telnet.getRfc1143 telopt).half ours = .yes ∧ telnet.checkTelopt telopt ours = true)

/-- What an end says that agrees to nothing but what is in the table `telopts`. -/
def Says (telopts : List Telopt) (buffer : List UInt8) : Prop :=
  ∃ ours on telopt, buffer = negotiationBytes (sayVerb ours on) telopt ∧
    (on = true → (telnetInit telopts false).checkTelopt telopt ours = true)

/-- An end with the table `telopts` that only answers, and tracks some of the options `opts`. -/
structure Telnet.Answering (telnet : Telnet) (telopts : List Telopt) (opts : List UInt8) : Prop where
  telopts : telnet.telopts = telopts
  proxy : telnet.proxy = false
  tracks : telnet.Tracks opts
  settled : telnet.Settled

theorem Telnet.answering_init (telopts : List Telopt) (opts : List UInt8) :
    (telnetInit telopts false).Answering telopts opts := by
  refine ⟨rfl, rfl, Telnet.tracks_init opts telopts false, ?_⟩
  intro telopt ours
  left
  cases ours <;> rfl

/-- What is settled stays settled in a turn, and is turned on only if that is agreed to. -/
theorem answer_settled : ∀ again allowed on : Bool, ∀ s : State,
    s = .no ∨ (s = .yes ∧ allowed = true) →
      QMethod.answer again allowed s on =
        (if on && allowed then .yes else .no,
          if on = (s == .yes) then none else some (on && allowed)) := by
  decide

section

variable {mem : ℕ → Bool} {telnet telnet' : Telnet} {telopts : List Telopt} {opts : List UInt8}
  {telopt : UInt8} {ours : Bool} {s : State}

theorem Telnet.checkTelopt_congr (h : telnet'.telopts = telnet.telopts) (telopt : UInt8)
    (ours : Bool) : telnet'.checkTelopt telopt ours = telnet.checkTelopt telopt ours := by
  rw [Telnet.checkTelopt, Telnet.checkTelopt, h]

/-- Without memory a turn may leave everything as it was. -/
theorem Saved.half_or (h : Saved mem telnet telopt ours s telnet') (htracks : telnet.Tracks opts)
    (hopts : opts.length ≤ maxTracked)
    (ho : telopt ∈ opts ∨ telopt ∈ telnet.q.map Rfc1143.telopt) (o : UInt8) (ours' : Bool) :
    (telnet'.getRfc1143 o).half ours' = (telnet.getRfc1143 o).half ours' ∨
      o = telopt ∧ ours' = ours ∧ (telnet'.getRfc1143 o).half ours' = s := by
  have hkept : ∀ telnet'' : Telnet, Saved (fun _ => true) telnet telopt ours s telnet'' →
      (telnet''.getRfc1143 o).half ours' = (telnet.getRfc1143 o).half ours' ∨
        o = telopt ∧ ours' = ours ∧ (telnet''.getRfc1143 o).half ours' = s := by
    intro telnet'' hsaved
    have hhalf := hsaved.half htracks hopts ho rfl o ours'
    by_cases heq : o = telopt ∧ ours' = ours
    · rw [if_pos heq] at hhalf
      exact Or.inr ⟨heq.1, heq.2, hhalf⟩
    · rw [if_neg heq] at hhalf
      exact Or.inl hhalf
  rcases h with hsame | rfl
  · exact hkept telnet' (Or.inl hsame)
  · have htrue := hkept _ (Or.inr rfl)
    unfold Telnet.setRfc1143 at htrue ⊢
    split
    · next q hq =>
        simp only [hq] at htrue
        exact htrue
    · next hq =>
        split
        · simp only [hq] at htrue
          exact htrue
        · exact Or.inl rfl

/-- The option is tracked, or the request about it changes nothing. -/
theorem Telnet.SupportsOnly.turn (hsupports : telnet.SupportsOnly opts) (mem : ℕ → Bool)
    (cmd : Verb) (telopt : UInt8) :
    (telopt ∈ opts ∨ telopt ∈ telnet.q.map Rfc1143.telopt) ∨
      telnet.checkTelopt telopt cmd.ours = false ∧
        (telnet.getRfc1143 telopt).half cmd.ours = .no ∧
        (telnet.negotiate mem cmd telopt).1 = telnet := by
  by_cases hallowed : telnet.checkTelopt telopt cmd.ours = true
  · exact Or.inl (Or.inl (hsupports telopt cmd.ours hallowed))
  · have hrefused : telnet.checkTelopt telopt cmd.ours = false := by simpa using hallowed
    by_cases hno : (telnet.getRfc1143 telopt).half cmd.ours = .no
    · exact Or.inr ⟨hrefused, hno, telnet.negotiate_refused mem telopt cmd hrefused hno⟩
    · exact Or.inl (Or.inr (mem_of_half_ne_no hno))

theorem answer_refused : ∀ again on : Bool, (QMethod.answer again false .no on).1 = .no := by
  decide

/-- **A request changes the half that it is about as the Q method has it, and no other.** -/
theorem Telnet.half_negotiate (hmem : ∀ n, mem n = true) (hproxy : telnet.proxy = false)
    (htracks : telnet.Tracks opts) (hopts : opts.length ≤ maxTracked)
    (hsupports : telnet.SupportsOnly opts) (cmd : Verb) (telopt o : UInt8) (ours : Bool) :
    ((telnet.negotiate mem cmd telopt).1.getRfc1143 o).half ours =
      if o = telopt ∧ ours = cmd.ours then
        (QMethod.answer cmd.ours (telnet.checkTelopt telopt cmd.ours)
          ((telnet.getRfc1143 telopt).half cmd.ours) cmd.on).1
      else (telnet.getRfc1143 o).half ours := by
  have hsaved := (telnet.negotiate_eq mem telopt hproxy cmd).1
  rcases hsupports.turn mem cmd telopt with ho | ⟨hnot, hno, hrefused⟩
  · exact hsaved.half htracks hopts ho (hmem _) o ours
  · rw [hrefused, hnot, hno, answer_refused]
    split
    · next heq => rw [heq.1, heq.2, hno]
    · rfl

theorem Telnet.Answering.supportsOnly (h : telnet.Answering telopts opts)
    (hsupports : (telnetInit telopts false).SupportsOnly opts) : telnet.SupportsOnly opts :=
  hsupports.congr h.telopts

/-- **A request leaves an answering end settled**, also when it cannot be saved. -/
theorem Telnet.Answering.negotiate (h : telnet.Answering telopts opts)
    (hopts : opts.length ≤ maxTracked) (hsupports : (telnetInit telopts false).SupportsOnly opts)
    (mem : ℕ → Bool) (cmd : Verb) (telopt : UInt8) :
    (telnet.negotiate mem cmd telopt).1.Answering telopts opts ∧
      ∀ buffer ∈ sends (telnet.negotiate mem cmd telopt).2, Says telopts buffer := by
  have hsame := sameReceiver_negotiate mem telnet cmd telopt
  have hsupports' := h.supportsOnly hsupports
  obtain ⟨hsaved, hsends⟩ := telnet.negotiate_eq mem telopt h.proxy cmd
  have hturn := answer_settled cmd.ours (telnet.checkTelopt telopt cmd.ours) cmd.on _
    (h.settled telopt cmd.ours)
  rw [hturn] at hsaved hsends
  have hcheck : telnet.checkTelopt telopt cmd.ours =
      (telnetInit telopts false).checkTelopt telopt cmd.ours :=
    @Telnet.checkTelopt_congr (telnetInit telopts false) telnet h.telopts telopt cmd.ours
  refine ⟨⟨hsame.telopts.trans h.telopts, hsame.proxy.trans h.proxy,
    h.tracks.negotiate hopts hsupports' mem cmd telopt, ?_⟩, ?_⟩
  · intro o ours
    rw [Telnet.checkTelopt_congr hsame.telopts o ours]
    rcases hsupports'.turn mem cmd telopt with ho | ⟨-, -, hrefused⟩
    · rcases hsaved.half_or h.tracks hopts ho o ours with hkept | ⟨rfl, rfl, hhalf⟩
      · rw [hkept]
        exact h.settled o ours
      · rw [hhalf]
        cases hon : cmd.on && telnet.checkTelopt o cmd.ours with
        | true => exact Or.inr ⟨rfl, (Bool.and_eq_true_iff.1 hon).2⟩
        | false => exact Or.inl rfl
    · rw [hrefused]
      exact h.settled o ours
  · intro buffer hbuffer
    rw [hsends] at hbuffer
    dsimp only at hbuffer
    split at hbuffer
    · cases hbuffer
    · rw [answerSends, Option.toList_some, List.map_singleton, List.mem_singleton] at hbuffer
      refine ⟨cmd.ours, _, telopt, hbuffer, ?_⟩
      intro hon
      rw [← hcheck]
      exact (Bool.and_eq_true_iff.1 hon).2

theorem Telnet.Answering.congr (h : telnet.Answering telopts opts)
    (hsame : SameAnswers telnet telnet') : telnet'.Answering telopts opts := by
  refine ⟨hsame.telopts.trans h.telopts, hsame.proxy.trans h.proxy, ?_, ?_⟩
  · obtain ⟨heads, htable, hsub⟩ := h.tracks
    exact ⟨heads, by rw [hsame.q]; exact htable, hsub⟩
  · intro o ours
    rw [Telnet.checkTelopt_congr hsame.telopts, Telnet.getRfc1143, hsame.q, ← Telnet.getRfc1143]
    exact h.settled o ours

theorem Telnet.Answering.feed (h : telnet.Answering telopts opts)
    (hopts : opts.length ≤ maxTracked) (hsupports : (telnetInit telopts false).SupportsOnly opts)
    (mem : ℕ → Bool) (byte : UInt8) :
    (telnet.feed mem byte).1.Answering telopts opts ∧
      ∀ e ∈ (telnet.feed mem byte).2, ∀ buffer ∈ e.sent, Says telopts buffer := by
  rcases feed_cases mem telnet byte with ⟨cmd, -, hfeed⟩ | ⟨-, hsilent⟩
  · obtain ⟨hanswering, hsays⟩ := h.negotiate hopts hsupports mem cmd byte
    rw [hfeed]
    refine ⟨hanswering.congr ⟨rfl, rfl, rfl⟩, ?_⟩
    intro e he buffer hbuffer
    exact hsays buffer (List.mem_filterMap.2 ⟨e, he, hbuffer⟩)
  · refine ⟨h.congr hsilent.same, ?_⟩
    intro e he buffer hbuffer
    have hmem : buffer ∈ sends (telnet.feed mem byte).2 := List.mem_filterMap.2 ⟨e, he, hbuffer⟩
    rw [hsilent.sends] at hmem
    cases hmem

end

/-- What is agreed to is in the table. -/
theorem supportsOnly_telopts (telopts : List Telopt) :
    (telnetInit telopts false).SupportsOnly (telopts.map Telopt.telopt) := by
  intro telopt us hcheck
  unfold Telnet.checkTelopt at hcheck
  cases hfind : telopts.find? (fun e => e.telopt = telopt) with
  | none => simp [telnetInit, hfind] at hcheck
  | some e =>
      have htelopt : e.telopt = telopt := by simpa using List.find?_some hfind
      exact List.mem_map.2 ⟨e, List.mem_of_find?_eq_some hfind, htelopt⟩

/-- **An end that only answers is settled at any time**, whatever the peer sends and also when memory
is short, if its table has `maxTracked` options at most: no option is half negotiated, what is on is
in the table, `telnet_recv` tells the peer nothing else, and no more entries are kept than four for
an option of the table. -/
theorem telnetRecv_settled (mem : ℕ → Bool) {telopts : List Telopt}
    (htelopts : telopts.length ≤ maxTracked) (pieces : List (List UInt8)) :
    let run := Transducer.run (telnetRecv mem) (telnetInit telopts false) pieces
    run.1.Settled ∧ run.1.q.length ≤ 4 * telopts.length ∧
      ∀ buffer ∈ sends run.2, Says telopts buffer := by
  intro run
  have hopts : (telopts.map Telopt.telopt).length ≤ maxTracked := by simpa using htelopts
  obtain ⟨hstate, -⟩ := (telnetRecv_cuts mem).run_flatten (telnetInit telopts false) pieces
  have hstep := fun (telnet : Telnet) byte
      (h : telnet.Answering telopts (telopts.map Telopt.telopt)) =>
    h.feed hopts (supportsOnly_telopts telopts) mem byte
  obtain ⟨hlast, hsays⟩ := Transducer.run_invariant hstep
    (Telnet.answering_init telopts _) pieces.flatten
  rw [← hstate] at hlast
  refine ⟨hlast.settled, ?_, ?_⟩
  · obtain ⟨heads, htable, hsub⟩ := hlast.tracks
    have hlen := (htable.1.subperm hsub).length_le
    rw [List.length_map] at hlen
    rw [htable.length]
    omega
  · intro buffer hbuffer
    rw [sends_telnetRecv] at hbuffer
    obtain ⟨e, he, hsent⟩ := List.mem_filterMap.1 hbuffer
    exact hsays e he buffer hsent

/-! ### The client that it is -/

/-- The request that a byte completes. -/
def Telnet.request (telnet : Telnet) (byte : UInt8) : List (Verb × UInt8) :=
  match telnet.state with
  | .negotiating cmd => [(cmd, byte)]
  | _ => []

/-- The requests of a stream: what is handed to `_negotiate`, in order. -/
def Telnet.requests (mem : ℕ → Bool) : Telnet → List UInt8 → List (Verb × UInt8)
  | _, [] => []
  | telnet, byte :: bytes =>
      telnet.request byte ++ Telnet.requests mem (telnet.feed mem byte).1 bytes

/-- Which options are on, at the other end and at one's own. -/
abbrev OnTable := UInt8 → Bool → Bool

/-- An option is turned on or off. -/
def OnTable.turn (table : OnTable) (telopt : UInt8) (ours on : Bool) : OnTable :=
  fun o ours' => if o = telopt ∧ ours' = ours then on else table o ours'

/-- **What a client makes of a request** that only answers: it does what it agrees to, and answers if
it was asked for something new. -/
def answerRequest (allowed : OnTable) (table : OnTable) (request : Verb × UInt8) :
    OnTable × List (List UInt8) :=
  let ours := request.1.ours
  let on := request.1.on && allowed request.2 ours
  (table.turn request.2 ours on,
    if request.1.on = table request.2 ours then []
    else [negotiationBytes (sayVerb ours on) request.2])

/-- The last request about the option, if there was one, asked for it to be turned on. -/
def lastWord (requests : List (Verb × UInt8)) (telopt : UInt8) (ours : Bool) : Bool :=
  ((requests.filter fun r => r.2 = telopt ∧ r.1.ours = ours).getLast?.map fun r => r.1.on).getD false

/-- **The last word counts.** -/
theorem run_answerRequest (allowed : OnTable) (requests : List (Verb × UInt8)) (telopt : UInt8)
    (ours : Bool) :
    (Transducer.run (answerRequest allowed) (fun _ _ => false) requests).1 telopt ours =
      (lastWord requests telopt ours && allowed telopt ours) := by
  induction requests using List.reverseRecOn with
  | nil => rfl
  | append_singleton requests r ih =>
      rw [Transducer.run_append, Transducer.run_singleton]
      show (if telopt = r.2 ∧ ours = r.1.ours then _ else _) = _
      rw [lastWord, List.filter_append]
      by_cases heq : telopt = r.2 ∧ ours = r.1.ours
      · obtain ⟨rfl, rfl⟩ := heq
        simp
      · have hnone : ([r].filter fun r => r.2 = telopt ∧ r.1.ours = ours) = [] := by
          simp only [List.filter_eq_nil_iff, List.mem_singleton, decide_eq_true_eq]
          rintro _ rfl ⟨rfl, rfl⟩
          exact heq ⟨rfl, rfl⟩
        rw [if_neg heq, ih, hnone, List.append_nil, lastWord]

/-- The end is in the state of the client. -/
def Telnet.InTable (telnet : Telnet) (table : OnTable) : Prop :=
  ∀ telopt ours, (telnet.getRfc1143 telopt).half ours = if table telopt ours then .yes else .no

section

variable {mem : ℕ → Bool} {telnet : Telnet} {telopts : List Telopt} {opts : List UInt8}
  {table : OnTable}

/-- **A request is answered as the client does.** -/
theorem Telnet.InTable.negotiate (htable : telnet.InTable table)
    (h : telnet.Answering telopts opts) (hmem : ∀ n, mem n = true)
    (hopts : opts.length ≤ maxTracked) (hsupports : (telnetInit telopts false).SupportsOnly opts)
    (cmd : Verb) (telopt : UInt8) :
    let client := answerRequest (telnetInit telopts false).checkTelopt table (cmd, telopt)
    (telnet.negotiate mem cmd telopt).1.InTable client.1 ∧
      sends (telnet.negotiate mem cmd telopt).2 = client.2 := by
  intro client
  have hsends := (telnet.negotiate_eq mem telopt h.proxy cmd).2
  have hhalf := telnet.half_negotiate hmem h.proxy h.tracks hopts (h.supportsOnly hsupports) cmd telopt
  have hturn := answer_settled cmd.ours (telnet.checkTelopt telopt cmd.ours) cmd.on _
    (h.settled telopt cmd.ours)
  have hcheck : telnet.checkTelopt telopt cmd.ours =
      (telnetInit telopts false).checkTelopt telopt cmd.ours :=
    @Telnet.checkTelopt_congr (telnetInit telopts false) telnet h.telopts telopt cmd.ours
  rw [hturn, hcheck] at hsends hhalf
  constructor
  · intro o ours
    show _ = if (if o = telopt ∧ ours = cmd.ours then _ else _) = true then _ else _
    rw [hhalf o ours]
    split
    · rfl
    · exact htable o ours
  · rw [hsends]
    show answerSends _ _ (if _ then _ else _) = if _ then _ else _
    rw [htable telopt cmd.ours]
    cases hon : table telopt cmd.ours <;> cases cmd.on <;> simp [answerSends]

theorem Telnet.InTable.feed (htable : telnet.InTable table) (h : telnet.Answering telopts opts)
    (hmem : ∀ n, mem n = true) (hopts : opts.length ≤ maxTracked)
    (hsupports : (telnetInit telopts false).SupportsOnly opts) (byte : UInt8) :
    let client := Transducer.run (answerRequest (telnetInit telopts false).checkTelopt) table
      (telnet.request byte)
    (telnet.feed mem byte).1.InTable client.1 ∧ sends (telnet.feed mem byte).2 = client.2 := by
  intro client
  rcases feed_cases mem telnet byte with ⟨cmd, hstate, hfeed⟩ | ⟨hstate, hsilent⟩
  · have hrequest : telnet.request byte = [(cmd, byte)] := by rw [Telnet.request, hstate]
    have hclient : client =
        answerRequest (telnetInit telopts false).checkTelopt table (cmd, byte) := by
      show Transducer.run _ table (telnet.request byte) = _
      rw [hrequest, Transducer.run_singleton]
    rw [hclient, hfeed]
    exact htable.negotiate h hmem hopts hsupports cmd byte
  · have hrequest : telnet.request byte = [] := by
      unfold Telnet.request
      split
      · next cmd hcmd => exact absurd hcmd (hstate cmd)
      · rfl
    have hclient : client = (table, []) := by
      show Transducer.run _ table (telnet.request byte) = _
      rw [hrequest, Transducer.run_nil]
    rw [hclient]
    refine ⟨?_, hsilent.sends⟩
    intro o ours
    rw [Telnet.getRfc1143, hsilent.same.q, ← Telnet.getRfc1143]
    exact htable o ours

/-- **The end and the client run together.** -/
theorem Telnet.InTable.run (htable : telnet.InTable table) (h : telnet.Answering telopts opts)
    (hmem : ∀ n, mem n = true) (hopts : opts.length ≤ maxTracked)
    (hsupports : (telnetInit telopts false).SupportsOnly opts) (bytes : List UInt8) :
    let client := Transducer.run (answerRequest (telnetInit telopts false).checkTelopt) table
      (telnet.requests mem bytes)
    let run := Transducer.run (Telnet.feed mem) telnet bytes
    run.1.InTable client.1 ∧ sends run.2 = client.2 := by
  induction bytes generalizing telnet table with
  | nil => exact ⟨htable, rfl⟩
  | cons byte bytes ih =>
      obtain ⟨hfirst, hsends⟩ := htable.feed h hmem hopts hsupports byte
      obtain ⟨hrest, hsends'⟩ := ih hfirst (h.feed hopts hsupports mem byte).1
      rw [Telnet.requests, Transducer.run_append, Transducer.run_cons]
      refine ⟨hrest, ?_⟩
      rw [sends_append, hsends, hsends']

end

/-- The run, and its client, of an end with the table `telopts`. -/
theorem telnetRecv_run {mem : ℕ → Bool} (hmem : ∀ n, mem n = true) {telopts : List Telopt}
    (htelopts : telopts.length ≤ maxTracked) (pieces : List (List UInt8)) :
    let requests := (telnetInit telopts false).requests mem pieces.flatten
    let client := Transducer.run (answerRequest (telnetInit telopts false).checkTelopt)
      (fun _ _ => false) requests
    let run := Transducer.run (telnetRecv mem) (telnetInit telopts false) pieces
    run.1.InTable client.1 ∧ sends run.2 = client.2 := by
  intro requests client run
  obtain ⟨hstate, -⟩ := (telnetRecv_cuts mem).run_flatten (telnetInit telopts false) pieces
  have hstart : (telnetInit telopts false).InTable fun _ _ => false := by
    intro telopt ours
    cases ours <;> rfl
  obtain ⟨htable, hsends⟩ := hstart.run (Telnet.answering_init telopts _) hmem
    (by simpa using htelopts) (supportsOnly_telopts telopts) pieces.flatten
  rw [← hstate] at htable
  exact ⟨htable, (sends_telnetRecv mem _ pieces).trans hsends⟩

/-- **An end that only answers is a client with a switch for each option**, when no allocation fails
and its table has `maxTracked` options at most: what it sends is what the client answers to the
requests, and an option is on if it is agreed to and the last request about it asked for that. -/
theorem telnetRecv_client {mem : ℕ → Bool} (hmem : ∀ n, mem n = true) {telopts : List Telopt}
    (htelopts : telopts.length ≤ maxTracked) (pieces : List (List UInt8)) :
    let requests := (telnetInit telopts false).requests mem pieces.flatten
    let run := Transducer.run (telnetRecv mem) (telnetInit telopts false) pieces
    sends run.2 = (Transducer.run (answerRequest (telnetInit telopts false).checkTelopt)
        (fun _ _ => false) requests).2 ∧
      ∀ telopt ours, (run.1.getRfc1143 telopt).half ours =
        if lastWord requests telopt ours && (telnetInit telopts false).checkTelopt telopt ours then .yes
        else .no := by
  intro requests run
  obtain ⟨htable, hsends⟩ := telnetRecv_run hmem htelopts pieces
  refine ⟨hsends, ?_⟩
  intro telopt ours
  rw [htable telopt ours, run_answerRequest]

/-! ### The table of the commander -/

/-- A target that wants to echo, to be told the window size and the terminal. -/
theorem telnetRecv_settled_commander :
    (Transducer.run (telnetRecv fun _ => true) (telnetInit commanderTelopts false)
        [[255, 251, 1, 255], [253, 31, 255, 253, 24]]).1.Settled :=
  (telnetRecv_settled (fun _ => true) (by decide) _).1

theorem telnetRecv_client_commander :
    sends (Transducer.run (telnetRecv fun _ => true) (telnetInit commanderTelopts false)
        [[255, 251, 1, 255], [253, 31, 255, 253, 24]]).2 =
      [[255, 253, 1], [255, 252, 31], [255, 251, 24]] :=
  (telnetRecv_client (fun _ => rfl) (by decide) _).1.trans (by decide)

end Wsn
