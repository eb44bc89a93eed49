/-
**What libtelnet writes, it reads.**

An application writes data, commands, negotiations and subnegotiations.  The sending functions put
`TELNET_IAC` in front of what is no data, and double it in what is.  The receiver of another
libtelnet gets the same things out of the bytes, in the same order, whatever the network does to the
boundaries; only a subnegotiation of more than 16384 bytes is lost, and its tail taken for data.

Main definitions:

* `telnetSendEvents`, `telnetIacEvents`, `telnetSubnegotiation`, `telnetSendZmp` — the sending
  functions of the source;
* `TelnetItem` — what an application writes, `TelnetItem.seen` — what the other one sees of it.

Main results:

* `sentBytes_telnetSendZmp` — the arguments of `ZMP` are written as one subnegotiation;
* `telnetRecv_items` — **the receiver sees what was written**.
-/

import WsnPlatform.TelnetReceiver
import WsnPlatform.TelnetSend

set_option relaxedAutoImplicit false
set_option autoImplicit false

namespace Wsn

/-! ### The sending functions -/

/-- `telnet_iac`. -/
def telnetIacEvents (cmd : UInt8) : List TelnetEvent := [.send [telnetIac, cmd]]

/-- **`telnet_send`**: its buffers as events. -/
def telnetSendEvents (buffer : List UInt8) : List TelnetEvent := (sendEvents [] buffer).map .send

/-- `telnet_begin_sb`. -/
def telnetBeginSb (telopt : UInt8) : List TelnetEvent := [.send [telnetIac, telnetSb, telopt]]

/-- `telnet_finish_sb`. -/
def telnetFinishSb : List TelnetEvent := telnetIacEvents telnetSe

/-- **`telnet_subnegotiation`.** -/
def telnetSubnegotiation (telopt : UInt8) (buffer : List UInt8) : List TelnetEvent :=
  telnetBeginSb telopt ++ telnetSendEvents buffer ++ [.send [telnetIac, telnetSe]]

/-- `telnet_zmp_arg`: the argument and its NUL. -/
def telnetZmpArg (arg : CText) : List TelnetEvent := telnetSendEvents (arg ++ [0])

/-- `telnet_send_zmp`, with `telnet_begin_zmp` and `telnet_finish_zmp`. -/
def telnetSendZmp (argv : List CText) : List TelnetEvent :=
  telnetBeginSb teloptZmp ++ argv.flatMap telnetZmpArg ++ telnetFinishSb

theorem escapeIac_append (l l' : List UInt8) : escapeIac (l ++ l') = escapeIac l ++ escapeIac l' :=
  List.flatMap_append

theorem escapeIac_cons (b : UInt8) (l : List UInt8) :
    escapeIac (b :: l) = (if b = telnetIac then [telnetIac, telnetIac] else [b]) ++ escapeIac l :=
  rfl

theorem sends_map_send (buffers : List (List UInt8)) : sends (buffers.map .send) = buffers := by
  rw [sends, List.filterMap_map]
  exact List.filterMap_some

/-- The bytes of a text are the text with its `TELNET_IAC` doubled. -/
theorem sentBytes_telnetSendEvents (buffer : List UInt8) :
    sentBytes (telnetSendEvents buffer) = escapeIac buffer := by
  rw [sentBytes, telnetSendEvents, sends_map_send, flatten_sendEvents, List.nil_append]

theorem sentBytes_telnetSubnegotiation (telopt : UInt8) (buffer : List UInt8) :
    sentBytes (telnetSubnegotiation telopt buffer) =
      [telnetIac, telnetSb, telopt] ++ escapeIac buffer ++ [telnetIac, telnetSe] := by
  rw [telnetSubnegotiation, sentBytes_append, sentBytes_append, sentBytes_telnetSendEvents]
  rfl

/-- The arguments are escaped one by one, which is the same. -/
theorem sentBytes_telnetSendZmp (argv : List CText) :
    sentBytes (telnetSendZmp argv) =
      [telnetIac, telnetSb, teloptZmp] ++ escapeIac (zmpBytes argv) ++ [telnetIac, telnetSe] := by
  have hargs : sentBytes (argv.flatMap telnetZmpArg) = escapeIac (zmpBytes argv) := by
    induction argv with
    | nil => rfl
    | cons arg argv ih =>
        rw [List.flatMap_cons, sentBytes_append, ih, telnetZmpArg, sentBytes_telnetSendEvents,
          ← escapeIac_append]
        rfl
  rw [telnetSendZmp, sentBytes_append, sentBytes_append, hargs]
  rfl

/-! ### What an application writes -/

/-- What an application writes. -/
inductive TelnetItem
  | data (text : List UInt8)
  | command (cmd : UInt8)
  | negotiation (cmd : Verb) (telopt : UInt8)
  | subnegotiation (telopt : UInt8) (buffer : List UInt8)

/-- The events with which it is written. -/
def TelnetItem.events : TelnetItem → List TelnetEvent
  | .data text => telnetSendEvents text
  | .command cmd => telnetIacEvents cmd
  | .negotiation cmd telopt => [sendNegotiate cmd telopt]
  | .subnegotiation telopt buffer => telnetSubnegotiation telopt buffer

/-- A command that is not the start of something else. -/
def PlainCommand (cmd : UInt8) : Prop :=
  cmd ≠ telnetSb ∧ (∀ v : Verb, cmd ≠ v.byte) ∧ cmd ≠ telnetIac

/-- The commands among the items are plain. -/
def TelnetItem.Plain : TelnetItem → Prop
  | .command cmd => PlainCommand cmd
  | _ => True

/-- What the other application sees of data: a byte at a time. -/
def dataAtoms (text : List UInt8) : List TelnetEvent := text.map fun b => .data [b]

/-- What the other application sees of an item, but for negotiations.  A subnegotiation for which
there is no room is lost with the byte that finds none; what comes behind that is taken for data, and
its end for a command. -/
def TelnetItem.seen : TelnetItem → List TelnetEvent
  | .data text => dataAtoms text
  | .command cmd => [.iac cmd]
  | .negotiation _ _ => []
  | .subnegotiation telopt buffer =>
      if buffer.length ≤ maxBufferSize then [.subnegotiation telopt buffer]
      else dataAtoms (buffer.drop (maxBufferSize + 1)) ++ [.iac telnetSe]

/-- An event is data, a command or a subnegotiation. -/
def TelnetEvent.plain : TelnetEvent → Bool
  | .data _ => true
  | .iac _ => true
  | .subnegotiation _ _ => true
  | _ => false

/-! ### Reading data and commands -/

section

variable {mem : ℕ → Bool} {telnet : Telnet}

@[simp] theorem goto_goto (state state' : TelnetRecvState) :
    (telnet.goto state).goto state' = telnet.goto state' := rfl

theorem goto_self {state : TelnetRecvState} (h : telnet.state = state) :
    telnet.goto state = telnet := by
  subst h
  rfl

theorem feed_iac (h : telnet.state = .data) : telnet.feed mem telnetIac = (telnet.goto .iac, []) := by
  rw [Telnet.feed, if_pos h, if_pos rfl]

theorem feed_goto {state : TelnetRecvState} (hstate : state ≠ .data) (byte : UInt8) :
    (telnet.goto state).feed mem byte = (((telnet.goto state).command mem byte).1,
      ((telnet.goto state).command mem byte).2.1) := by
  exact if_neg hstate

/-- Data is read back byte by byte, and leaves the state alone. -/
theorem run_feed_data (h : telnet.state = .data) (text : List UInt8) :
    Transducer.run (Telnet.feed mem) telnet (escapeIac text) = (telnet, dataAtoms text) := by
  induction text with
  | nil => rfl
  | cons b text ih =>
      rw [escapeIac_cons, Transducer.run_append, dataAtoms, List.map_cons, ← dataAtoms]
      split
      · next hiac =>
          have hback : (telnet.goto .iac).feed mem telnetIac = (telnet, [.data [telnetIac]]) := by
            have hcommand : (telnet.goto .iac).command mem telnetIac =
                (telnet.goto .data, [.data [telnetIac]], false) := rfl
            rw [feed_goto (by simp), hcommand, goto_self h]
          rw [Transducer.run_cons, feed_iac h, Transducer.run_singleton, hback, ih, hiac]
          rfl
      · next hiac =>
          have hfeed : telnet.feed mem b = (telnet, [.data [b]]) := by
            rw [Telnet.feed, if_pos h, if_neg hiac]
          rw [Transducer.run_singleton, hfeed, ih]
          rfl

theorem processIac_plain {cmd : UInt8} (hplain : PlainCommand cmd) :
    telnet.processIac cmd = (telnet.goto .data, [.iac cmd]) := by
  obtain ⟨hsb, hverb, hiac⟩ := hplain
  simp [Telnet.processIac, hsb, hverb, hiac]

theorem processIac_verb (cmd : Verb) :
    telnet.processIac cmd.byte = (telnet.goto (.negotiating cmd), []) := by
  cases cmd <;> rfl

/-- A command is read back. -/
theorem run_feed_command (h : telnet.state = .data) {cmd : UInt8} (hplain : PlainCommand cmd) :
    Transducer.run (Telnet.feed mem) telnet [telnetIac, cmd] = (telnet, [.iac cmd]) := by
  rw [Transducer.run_cons, feed_iac h, Transducer.run_singleton, feed_goto (by simp)]
  show (((telnet.goto .iac).processIac cmd).1, _ ++ ((telnet.goto .iac).processIac cmd).2) = _
  rw [processIac_plain hplain, goto_goto, goto_self h]
  rfl

/-- A negotiation is handed to `_negotiate`. -/
theorem run_feed_negotiation (h : telnet.state = .data) (cmd : Verb) (telopt : UInt8) :
    Transducer.run (Telnet.feed mem) telnet (negotiationBytes cmd telopt) =
      (((telnet.goto (.negotiating cmd)).negotiate mem cmd telopt).1.goto .data,
        ((telnet.goto (.negotiating cmd)).negotiate mem cmd telopt).2) := by
  have hverb : (telnet.goto .iac).feed mem cmd.byte = (telnet.goto (.negotiating cmd), []) := by
    rw [feed_goto (by simp)]
    show (((telnet.goto .iac).processIac cmd.byte).1, ((telnet.goto .iac).processIac cmd.byte).2) = _
    rw [processIac_verb]
    rfl
  rw [negotiationBytes, Transducer.run_cons, feed_iac h, Transducer.run_cons, hverb,
    Transducer.run_singleton, feed_goto (by simp)]
  rfl

theorem plain_setRfc1143 (telopt : UInt8) (us him : QMethod.State) :
    ∀ e ∈ (telnet.setRfc1143 mem telopt us him).2, e.plain = false := by
  intro e he
  unfold Telnet.setRfc1143 at he
  repeat' split at he
  all_goals simp at he
  rw [he]
  rfl

theorem plain_save {telopt : UInt8} {us him : QMethod.State} {events : List TelnetEvent}
    (h : ∀ e ∈ events, e.plain = false) :
    ∀ e ∈ (telnet.save mem telopt us him events).2, e.plain = false := by
  intro e he
  rcases List.mem_append.1 he with he | he
  · exact plain_setRfc1143 telopt us him e he
  · exact h e he

/-- A negotiation is neither data nor a command nor a subnegotiation. -/
theorem plain_negotiate (cmd : Verb) (telopt : UInt8) :
    ∀ e ∈ (telnet.negotiate mem cmd telopt).2, e.plain = false := by
  unfold Telnet.negotiate
  split
  · simp [TelnetEvent.plain]
  · cases cmd with
    | will =>
        dsimp only [Telnet.negotiateWill]
        cases (telnet.getRfc1143 telopt).him with
        | no =>
            dsimp only
            split
            · exact plain_save (by simp [sendNegotiate, TelnetEvent.plain])
            · simp [sendNegotiate, TelnetEvent.plain]
        | yes => simp
        | _ => exact plain_save (by simp [sendNegotiate, answeredWarning, TelnetEvent.plain])
    | wont =>
        dsimp only [Telnet.negotiateWont]
        cases (telnet.getRfc1143 telopt).him with
        | no => simp
        | _ => exact plain_save (by simp [sendNegotiate, TelnetEvent.plain])
    | doIt =>
        dsimp only [Telnet.negotiateDo]
        cases (telnet.getRfc1143 telopt).us with
        | no =>
            dsimp only
            split
            · exact plain_save (by simp [sendNegotiate, TelnetEvent.plain])
            · simp [sendNegotiate, TelnetEvent.plain]
        | yes => simp
        | _ => exact plain_save (by simp [sendNegotiate, answeredWarning, TelnetEvent.plain])
    | dont =>
        dsimp only [Telnet.negotiateDont]
        cases (telnet.getRfc1143 telopt).us with
        | no => simp
        | _ => exact plain_save (by simp [sendNegotiate, TelnetEvent.plain])

end

/-! ### Reading a subnegotiation -/

/-- `telnet` has received the bytes of a subnegotiation so far. -/
structure Telnet.InSb (telnet : Telnet) (telopt : UInt8) (buffer : List UInt8) : Prop where
  state : telnet.state = .sbData
  sbTelopt : telnet.sbTelopt = telopt
  buffer : telnet.buffer = buffer
  room : telnet.Room

/-- `telnet` is in between two items. -/
structure Telnet.Ready (telnet : Telnet) : Prop where
  state : telnet.state = .data
  room : telnet.Room

section

variable {mem : ℕ → Bool} {telnet : Telnet} {telopt : UInt8} {buffer : List UInt8}

theorem run_feed_beginSb (h : telnet.Ready) (telopt : UInt8) :
    ∃ telnet', Transducer.run (Telnet.feed mem) telnet [telnetIac, telnetSb, telopt] = (telnet', []) ∧
      telnet'.InSb telopt [] := by
  have hsb : (telnet.goto .iac).feed mem telnetSb = (telnet.goto .sb, []) := by
    rw [feed_goto (by simp)]
    rfl
  refine ⟨{ telnet with sbTelopt := telopt, buffer := [], state := .sbData }, ?_,
    rfl, rfl, rfl, Nat.zero_le _, h.room.size⟩
  rw [Transducer.run_cons, feed_iac h.state, Transducer.run_cons, hsb, Transducer.run_singleton,
    feed_goto (by simp)]
  rfl

/-- A byte of a subnegotiation, escaped or not, is stored by `_buffer_byte`. -/
theorem run_feed_sbByte (h : telnet.state = .sbData) (b : UInt8) :
    ∃ state, Transducer.run (Telnet.feed mem) telnet (escapeIac [b]) =
      (telnet.goto state).processSbByte mem b := by
  have hself := goto_self h
  rw [escapeIac_cons, show escapeIac [] = [] from rfl, List.append_nil]
  split
  · next hiac =>
      refine ⟨.sbDataIac, ?_⟩
      have hiac' : telnet.feed mem telnetIac = (telnet.goto .sbDataIac, []) := by
        rw [← hself, feed_goto (by simp)]
        rfl
      rw [Transducer.run_cons, hiac', Transducer.run_singleton, feed_goto (by simp), hiac]
      rfl
  · next hiac =>
      refine ⟨.sbData, ?_⟩
      have hcommand : (telnet.goto .sbData).command mem b =
          (((telnet.goto .sbData).processSbByte mem b).1,
            ((telnet.goto .sbData).processSbByte mem b).2, false) := if_neg hiac
      rw [Transducer.run_singleton]
      conv_lhs => rw [← hself]
      rw [feed_goto (by simp), hcommand]

/-- While there is room, a byte is stored. -/
theorem run_feed_sbByte_stored (hmem : ∀ n, mem n = true) (h : telnet.InSb telopt buffer)
    (hlt : buffer.length < maxBufferSize) (b : UInt8) :
    ∃ telnet', Transducer.run (Telnet.feed mem) telnet (escapeIac [b]) = (telnet', []) ∧
      telnet'.InSb telopt (buffer ++ [b]) := by
  obtain ⟨state, hrun⟩ := run_feed_sbByte h.state b
  have hroom : (telnet.goto state).Room := h.room.congr rfl rfl
  have hroom' := hroom.processSbByte mem b
  have hstores := hroom.bufferByte mem b
  rw [hrun]
  unfold Telnet.processSbByte at hroom' ⊢
  generalize (telnet.goto state).bufferByte mem b = r at hroom' hstores ⊢
  cases hstores with
  | stored telnet' hlt hbuffer hsize htelopts hproxy hq hstate hsb =>
      refine ⟨(telnet'.pushByte b).goto .sbData, rfl, rfl, ?_, ?_, hroom'⟩
      · exact hsb.trans h.sbTelopt
      · show telnet'.buffer ++ [b] = buffer ++ [b]
        rw [hbuffer]
        exact congrArg (· ++ [b]) h.buffer
  | full hfull =>
      have hlen : (telnet.goto state).buffer = buffer := h.buffer
      rw [hlen] at hfull
      omega
  | noMemory hno =>
      rw [hmem] at hno
      cases hno

/-- Without room, a byte ends the subnegotiation. -/
theorem run_feed_sbByte_full (h : telnet.InSb telopt buffer) (hfull : buffer.length = maxBufferSize)
    (b : UInt8) :
    ∃ telnet', Transducer.run (Telnet.feed mem) telnet (escapeIac [b]) =
        (telnet', [.warning "subnegotiation buffer size limit reached"]) ∧
      telnet'.Ready := by
  obtain ⟨state, hrun⟩ := run_feed_sbByte h.state b
  have hroom : (telnet.goto state).Room := h.room.congr rfl rfl
  have hbuffer : (telnet.goto state).buffer = buffer := h.buffer
  have hstores := hroom.bufferByte mem b
  rw [hrun]
  unfold Telnet.processSbByte
  have hsize : (telnet.goto state).bufferSize = maxBufferSize := by
    refine le_antisymm (le_maxBufferSize hroom.size) ?_
    rw [← hfull, ← hbuffer]
    exact hroom.le
  have hrefused : (telnet.goto state).bufferByte mem b = (telnet.goto state,
      [.warning "subnegotiation buffer size limit reached"], false) := by
    unfold Telnet.bufferByte
    rw [if_pos (by rw [hbuffer, hsize, hfull]), hsize]
    rfl
  rw [hrefused]
  exact ⟨(telnet.goto state).goto .data, rfl, rfl, hroom.congr rfl rfl⟩

/-- The bytes of a subnegotiation are collected. -/
theorem run_feed_sbBytes (hmem : ∀ n, mem n = true) (h : telnet.InSb telopt buffer)
    {text : List UInt8} (hle : buffer.length + text.length ≤ maxBufferSize) :
    ∃ telnet', Transducer.run (Telnet.feed mem) telnet (escapeIac text) = (telnet', []) ∧
      telnet'.InSb telopt (buffer ++ text) := by
  induction text generalizing telnet buffer with
  | nil => exact ⟨telnet, rfl, by simpa using h⟩
  | cons b text ih =>
      rw [List.length_cons] at hle
      obtain ⟨telnet₁, hrun₁, h₁⟩ := run_feed_sbByte_stored hmem h (by omega) b
      obtain ⟨telnet₂, hrun₂, h₂⟩ := ih h₁ (by rw [List.length_append, List.length_singleton]; omega)
      refine ⟨telnet₂, ?_, by simpa using h₂⟩
      rw [← List.singleton_append, escapeIac_append, Transducer.run_append, hrun₁, hrun₂]
      rfl

/-- The end of a subnegotiation hands it on. -/
theorem run_feed_finishSb (h : telnet.InSb telopt buffer) :
    Transducer.run (Telnet.feed mem) telnet [telnetIac, telnetSe] =
      (((telnet.goto .data).subnegotiate mem).1, ((telnet.goto .data).subnegotiate mem).2.1) := by
  have hiac : telnet.feed mem telnetIac = (telnet.goto .sbDataIac, []) := by
    rw [← goto_self h.state, feed_goto (by simp)]
    rfl
  rw [Transducer.run_cons, hiac, Transducer.run_singleton, feed_goto (by simp)]
  rfl

end

/-! ### Reading items -/

/-- What the application sees of the events: data byte by byte, commands and subnegotiations. -/
def seenOf (events : List TelnetEvent) : List TelnetEvent :=
  (events.flatMap TelnetEvent.atoms).filter TelnetEvent.plain

@[simp] theorem seenOf_append (es fs : List TelnetEvent) :
    seenOf (es ++ fs) = seenOf es ++ seenOf fs := by
  simp [seenOf]

theorem seenOf_dataAtoms (text : List UInt8) : seenOf (dataAtoms text) = dataAtoms text := by
  induction text with
  | nil => rfl
  | cons b text ih =>
      have hsplit : dataAtoms (b :: text) = [.data [b]] ++ dataAtoms text := rfl
      rw [hsplit, seenOf_append, ih]
      rfl

theorem seenOf_eq_nil {events : List TelnetEvent} (h : ∀ e ∈ events, e.plain = false) :
    seenOf events = [] := by
  induction events with
  | nil => rfl
  | cons e events ih =>
      have hsplit : e :: events = [e] ++ events := rfl
      rw [hsplit, seenOf_append, ih fun f hf => h f (List.mem_cons_of_mem e hf), List.append_nil]
      have he := h e List.mem_cons_self
      cases e <;> first | rfl | cases he

section

variable {mem : ℕ → Bool} {telnet : Telnet}

theorem plain_environTelnet {type : UInt8} {r : Telnet × List TelnetEvent × Bool}
    (h : environTelnet mem telnet type = some r) : ∀ e ∈ r.2.1, e.plain = false := by
  unfold environTelnet environArguments at h
  repeat' split at h
  all_goals first
    | (cases h; simp [subnegWarning, callocFailed, TelnetEvent.plain])
    | skip
  simp only [Option.bind_eq_bind, Option.bind_eq_some_iff] at h
  obtain ⟨⟨slots, c⟩, -, hr⟩ := h
  cases hr
  simp [TelnetEvent.plain]

theorem plain_msspTelnet {r : Telnet × List TelnetEvent} (h : msspTelnet mem telnet = some r) :
    ∀ e ∈ r.2, e.plain = false := by
  unfold msspTelnet at h
  repeat' split at h
  all_goals first
    | (cases h; simp [callocFailed, TelnetEvent.plain])
    | skip
  simp only [Option.bind_eq_bind, Option.bind_eq_some_iff] at h
  obtain ⟨outcome, -, hr⟩ := h
  cases hr
  cases outcome <;> simp [MsspOutcome.finish, TelnetEvent.plain]

theorem plain_subnegotiateOption {r : Telnet × List TelnetEvent × Bool}
    (h : telnet.subnegotiateOption mem = some r) : ∀ e ∈ r.2.1, e.plain = false := by
  unfold Telnet.subnegotiateOption at h
  split at h
  · cases h
    unfold zmpTelnet
    repeat' split
    all_goals simp [callocFailed, TelnetEvent.plain]
  · split at h
    · cases h
      unfold ttypeTelnet
      repeat' split
      all_goals simp [TelnetEvent.plain]
    · split at h
      · exact plain_environTelnet h
      · split at h
        · obtain ⟨r', hr', rfl⟩ := Option.map_eq_some_iff.1 h
          exact plain_msspTelnet hr'
        · cases h
          simp

/-- A subnegotiation is seen once. -/
theorem seenOf_subnegotiate : seenOf (telnet.subnegotiate mem).2.1 =
    [.subnegotiation telnet.sbTelopt telnet.buffer] := by
  obtain ⟨r, hr⟩ := Option.isSome_iff_exists.1 (subnegotiateOption_isSome mem telnet)
  have hsplit : (telnet.subnegotiate mem).2.1 =
      [.subnegotiation telnet.sbTelopt telnet.buffer] ++ r.2.1 := by
    unfold Telnet.subnegotiate
    rw [hr]
    rfl
  rw [hsplit, seenOf_append, seenOf_eq_nil (plain_subnegotiateOption hr)]
  rfl

theorem ready_subnegotiate {telopt : UInt8} {buffer : List UInt8} (h : telnet.InSb telopt buffer) :
    ((telnet.goto .data).subnegotiate mem).1.Ready := by
  have hshape := sameShape_subnegotiate mem (telnet.goto .data)
  have hroom : (telnet.goto .data).Room := h.room.congr rfl rfl
  exact ⟨hshape.state, hroom.subnegotiate mem⟩

/-- A subnegotiation for which there is room is handed on as it was written. -/
theorem run_feed_subnegotiation_fits (hmem : ∀ n, mem n = true) (h : telnet.Ready) (telopt : UInt8)
    {buffer : List UInt8} (hle : buffer.length ≤ maxBufferSize) :
    ∃ telnet' : Telnet, telnet'.InSb telopt buffer ∧
      Transducer.run (Telnet.feed mem) telnet
          ([telnetIac, telnetSb, telopt] ++ escapeIac buffer ++ [telnetIac, telnetSe]) =
        (((telnet'.goto .data).subnegotiate mem).1, ((telnet'.goto .data).subnegotiate mem).2.1) := by
  obtain ⟨telnet₁, hrun₁, h₁⟩ := run_feed_beginSb h telopt
  obtain ⟨telnet₂, hrun₂, h₂⟩ := run_feed_sbBytes hmem h₁ (by simpa using hle)
  refine ⟨telnet₂, h₂, ?_⟩
  rw [Transducer.run_append, Transducer.run_append, hrun₁]
  dsimp only
  rw [hrun₂, run_feed_finishSb h₂]
  rfl

/-- Without room for it, a subnegotiation is lost up to the byte that finds no room. -/
theorem run_feed_subnegotiation_overflow (hmem : ∀ n, mem n = true) (h : telnet.Ready)
    (telopt : UInt8) {buffer : List UInt8} (hlt : maxBufferSize < buffer.length) :
    ∃ telnet' : Telnet, telnet'.Ready ∧
      Transducer.run (Telnet.feed mem) telnet
          ([telnetIac, telnetSb, telopt] ++ escapeIac buffer ++ [telnetIac, telnetSe]) =
        (telnet', .warning "subnegotiation buffer size limit reached" ::
          dataAtoms (buffer.drop (maxBufferSize + 1)) ++ [.iac telnetSe]) := by
  obtain ⟨telnet₁, hrun₁, h₁⟩ := run_feed_beginSb h telopt
  obtain ⟨b, hb⟩ : ∃ b, buffer.drop maxBufferSize = b :: buffer.drop (maxBufferSize + 1) :=
    ⟨buffer[maxBufferSize], List.drop_eq_getElem_cons hlt⟩
  have hsplit : buffer = buffer.take maxBufferSize ++ ([b] ++ buffer.drop (maxBufferSize + 1)) := by
    rw [List.singleton_append, ← hb, List.take_append_drop]
  have hlen : (buffer.take maxBufferSize).length = maxBufferSize := by
    rw [List.length_take, min_eq_left hlt.le]
  obtain ⟨telnet₂, hrun₂, h₂⟩ := run_feed_sbBytes hmem h₁
    (by rw [hlen]; simp)
  obtain ⟨telnet₃, hrun₃, h₃⟩ := run_feed_sbByte_full h₂
    (by rw [List.nil_append, hlen]) b
  have hrest : Transducer.run (Telnet.feed mem) telnet₁ (escapeIac buffer) =
      (telnet₃, .warning "subnegotiation buffer size limit reached" ::
        dataAtoms (buffer.drop (maxBufferSize + 1))) := by
    conv_lhs => rw [hsplit]
    rw [escapeIac_append, escapeIac_append, Transducer.run_append, Transducer.run_append, hrun₂,
      hrun₃, run_feed_data h₃.state]
    rfl
  have hse : PlainCommand telnetSe := ⟨by decide, by intro v; cases v <;> decide, by decide⟩
  refine ⟨telnet₃, h₃, ?_⟩
  rw [Transducer.run_append, Transducer.run_append, hrun₁]
  dsimp only
  rw [hrest, run_feed_command h₃.state hse]
  rfl

/-- A subnegotiation is read back, or what is left of it without room. -/
theorem run_feed_subnegotiation (hmem : ∀ n, mem n = true) (h : telnet.Ready) (telopt : UInt8)
    (buffer : List UInt8) :
    let run := Transducer.run (Telnet.feed mem) telnet
      ([telnetIac, telnetSb, telopt] ++ escapeIac buffer ++ [telnetIac, telnetSe])
    run.1.Ready ∧ seenOf run.2 = (TelnetItem.subnegotiation telopt buffer).seen := by
  rw [TelnetItem.seen]
  by_cases hle : buffer.length ≤ maxBufferSize
  · obtain ⟨telnet', h', hrun⟩ := run_feed_subnegotiation_fits hmem h telopt hle
    rw [hrun, if_pos hle]
    refine ⟨ready_subnegotiate h', ?_⟩
    rw [seenOf_subnegotiate]
    show [TelnetEvent.subnegotiation telnet'.sbTelopt telnet'.buffer] = _
    rw [h'.sbTelopt, h'.buffer]
  · obtain ⟨telnet', h', hrun⟩ :=
      run_feed_subnegotiation_overflow hmem h telopt (not_le.1 hle)
    rw [hrun, if_neg hle]
    refine ⟨h', ?_⟩
    rw [seenOf_append, ← List.singleton_append, seenOf_append, seenOf_dataAtoms]
    rfl

/-- **An item is read back.** -/
theorem run_feed_item (hmem : ∀ n, mem n = true) (h : telnet.Ready) {item : TelnetItem}
    (hplain : item.Plain) :
    let run := Transducer.run (Telnet.feed mem) telnet (sentBytes item.events)
    run.1.Ready ∧ seenOf run.2 = item.seen := by
  cases item with
  | data text =>
      rw [TelnetItem.events, sentBytes_telnetSendEvents, run_feed_data h.state]
      exact ⟨h, seenOf_dataAtoms text⟩
  | command cmd =>
      have hbytes : sentBytes (TelnetItem.command cmd).events = [telnetIac, cmd] := rfl
      rw [hbytes, run_feed_command h.state hplain]
      exact ⟨h, rfl⟩
  | negotiation cmd telopt =>
      have hbytes : sentBytes (TelnetItem.negotiation cmd telopt).events =
          negotiationBytes cmd telopt := rfl
      have hsame := sameReceiver_negotiate mem (telnet.goto (.negotiating cmd)) cmd telopt
      rw [hbytes, run_feed_negotiation h.state]
      refine ⟨⟨rfl, ?_⟩, seenOf_eq_nil (plain_negotiate cmd telopt)⟩
      exact h.room.congr (congrArg List.length hsame.buffer) hsame.bufferSize
  | subnegotiation telopt buffer =>
      rw [TelnetItem.events, sentBytes_telnetSubnegotiation]
      exact run_feed_subnegotiation hmem h telopt buffer

end

/-- Items are read back one after the other. -/
theorem run_feed_items {mem : ℕ → Bool} (hmem : ∀ n, mem n = true) {telnet : Telnet}
    (h : telnet.Ready) {items : List TelnetItem} (hplain : ∀ item ∈ items, item.Plain) :
    let run := Transducer.run (Telnet.feed mem) telnet (sentBytes (items.flatMap TelnetItem.events))
    run.1.Ready ∧ seenOf run.2 = items.flatMap TelnetItem.seen := by
  induction items generalizing telnet with
  | nil => exact ⟨h, rfl⟩
  | cons item items ih =>
      obtain ⟨hready, hseen⟩ := run_feed_item hmem h (hplain item List.mem_cons_self)
      obtain ⟨hready', hseen'⟩ := ih hready fun i hi => hplain i (List.mem_cons_of_mem item hi)
      simp only [List.flatMap_cons, sentBytes_append, Transducer.run_append, seenOf_append]
      rw [hseen, hseen']
      exact ⟨hready', rfl⟩

theorem Telnet.ready_init (telopts : List Telopt) (proxy : Bool) :
    (telnetInit telopts proxy).Ready :=
  ⟨rfl, Telnet.room_init telopts proxy⟩

/-- **What libtelnet writes, it reads**, when no allocation fails: whatever an application writes,
and in whatever pieces it arrives, the other application sees the same data, commands and
subnegotiations in the same order, and is in between two items at the end. -/
theorem telnetRecv_items {mem : ℕ → Bool} (hmem : ∀ n, mem n = true) (telopts : List Telopt)
    (proxy : Bool) {items : List TelnetItem} (hplain : ∀ item ∈ items, item.Plain)
    {pieces : List (List UInt8)}
    (hpieces : pieces.flatten = sentBytes (items.flatMap TelnetItem.events)) :
    let run := Transducer.run (telnetRecv mem) (telnetInit telopts proxy) pieces
    run.1.state = .data ∧ seenOf run.2 = items.flatMap TelnetItem.seen := by
  obtain ⟨hstate, hevents⟩ := (telnetRecv_cuts mem).run_flatten (telnetInit telopts proxy) pieces
  obtain ⟨hready, hseen⟩ := run_feed_items hmem (Telnet.ready_init telopts proxy) hplain
  rw [hpieces] at hstate hevents
  refine ⟨?_, ?_⟩
  · rw [hstate]
    exact hready.state
  · rw [seenOf, hevents]
    exact hseen

theorem telnetRecv_items_mixed :
    seenOf (Transducer.run (telnetRecv fun _ => true) (telnetInit [] false)
        [[104, 255], [255, 255, 251], [1, 255, 250, 200, 7, 255], [240, 105]]).2 =
      [.data [104], .data [255], .subnegotiation 200 [7], .data [105]] :=
  (telnetRecv_items (fun _ => rfl) [] false
    (show ∀ item ∈ [TelnetItem.data [104, 255], .negotiation .will 1, .subnegotiation 200 [7],
      .data [105]], item.Plain by simp [TelnetItem.Plain]) (by decide)).2

end Wsn
