/-
**What is still to be read.**

The bytes on the way to an end hold requests, and things that its application will see.  What they
hold depends on what the receiver has kept of the bytes before, but neither on the table of options
nor on how often memory was asked for.  So an end can negotiate while a command is only half
received, and what is on the way means the same to it before and after.

Main definitions:

* `Telnet.Ending` — the bytes are read up to the end of an item;
* `TelnetItem.Silent` — an item that is no request.

Main results:

* `run_feed_congr` — the table of options does not change what a stream holds;
* `requests_negotiation`, `requests_item` — what is written holds the requests that were made.
-/

import WsnPlatform.TelnetPassive
import WsnPlatform.TelnetWire

set_option relaxedAutoImplicit false
set_option autoImplicit false

namespace Wsn

/-! ### The table of options does not matter -/

/-- The bytes of a subnegotiation are collected. -/
def TelnetRecvState.collects : TelnetRecvState → Bool
  | .sbData => true
  | .sbDataIac => true
  | _ => false

/-- Two ends that have received the same, whatever they have negotiated. -/
structure SameLine (telnet telnet' : Telnet) : Prop where
  state : telnet'.state = telnet.state
  bufferSize : telnet'.bufferSize = telnet.bufferSize
  length : telnet'.buffer.length = telnet.buffer.length
  collected : telnet.state.collects = true →
    telnet'.buffer = telnet.buffer ∧ telnet'.sbTelopt = telnet.sbTelopt

theorem SameLine.ready {telnet telnet' : Telnet} (h : SameLine telnet telnet') (hr : telnet.Ready) :
    telnet'.Ready :=
  ⟨h.state.trans hr.state, hr.room.congr h.length h.bufferSize⟩

theorem SameReceiver.sameLine {telnet telnet' : Telnet} (h : SameReceiver telnet telnet') :
    SameLine telnet telnet' :=
  ⟨h.state, h.bufferSize, congrArg List.length h.buffer, fun _ => ⟨h.buffer, h.sbTelopt⟩⟩

/-- `_environ_telnet` takes the bytes apart. -/
def environAccepts : List UInt8 → Bool
  | [] => false
  | cmd :: args =>
      if cmd ≠ environSend ∧ cmd ≠ environIs ∧ cmd ≠ environInfo then false
      else
        match args with
        | [] => true
        | kind :: _ => startsVar kind && !(args.getLast? = some environEsc)

section

variable {mem : ℕ → Bool} {telnet telnet' : Telnet}

theorem environTelnet_flag (hmem : ∀ n, mem n = true) {type : UInt8}
    {r : Telnet × List TelnetEvent × Bool} (h : environTelnet mem telnet type = some r) :
    r.2.2 = environAccepts telnet.buffer := by
  unfold environTelnet environArguments at h
  cases hbuffer : telnet.buffer with
  | nil =>
      rw [hbuffer] at h
      cases h
      rfl
  | cons cmd args =>
      rw [hbuffer] at h
      dsimp only at h
      rw [environAccepts.eq_def]
      dsimp only
      split at h
      · next hinvalid =>
          cases h
          rw [if_pos hinvalid]
      · next hvalid =>
          rw [if_neg hvalid]
          cases args with
          | nil =>
              cases h
              rfl
          | cons kind rest =>
              simp only [hmem, Bool.true_eq_false, if_false] at h
              split at h
              · next hkind =>
                  cases h
                  simp [hkind]
              · next hkind =>
                  split at h
                  · next hlast =>
                      cases h
                      simp [hlast]
                  · next hlast =>
                      simp only [Option.bind_eq_bind, Option.bind_eq_some_iff] at h
                      obtain ⟨⟨slots, c⟩, -, hr⟩ := h
                      cases hr
                      simp only [Bool.not_eq_false] at hkind
                      simp [hkind, hlast]

/-- Whether the rest of the bytes is handed to a call of its own. -/
theorem subnegotiate_flag (hmem : ∀ n, mem n = true) (telnet : Telnet) :
    (telnet.subnegotiate mem).2.2 =
      ((telnet.sbTelopt = teloptEnviron ∨ telnet.sbTelopt = teloptNewEnviron) &&
        environAccepts telnet.buffer) := by
  obtain ⟨r, hr⟩ := Option.isSome_iff_exists.1 (subnegotiateOption_isSome mem telnet)
  unfold Telnet.subnegotiate
  rw [hr]
  show r.2.2 = _
  unfold Telnet.subnegotiateOption at hr
  split at hr
  · next h =>
      cases hr
      rw [h]
      rfl
  · split at hr
    · next h =>
        cases hr
        rw [h]
        rfl
    · split at hr
      · next h => rw [environTelnet_flag hmem hr, decide_eq_true h, Bool.true_and]
      · next h =>
          rw [decide_eq_false h, Bool.false_and]
          split at hr
          · obtain ⟨r', -, rfl⟩ := Option.map_eq_some_iff.1 hr
            rfl
          · cases hr
            rfl

/-- The same is done on the line, and the same is seen. -/
structure SameStep (r r' : Telnet × List TelnetEvent) : Prop where
  line : SameLine r.1 r'.1
  seen : seenOf r'.2 = seenOf r.2

theorem seenOf_warning (msg : String) (events : List TelnetEvent) :
    seenOf (.warning msg :: events) = seenOf events := rfl

/-- Behind a subnegotiation its bytes do not matter. -/
theorem SameLine.goto (h : SameLine telnet telnet') {state : TelnetRecvState}
    (hstate : state.collects = false) : SameLine (telnet.goto state) (telnet'.goto state) := by
  refine ⟨rfl, h.bufferSize, h.length, ?_⟩
  intro hcollects
  rw [show (telnet.goto state).state = state from rfl, hstate] at hcollects
  cases hcollects

theorem sameStep_processIac (h : SameLine telnet telnet') (byte : UInt8) :
    SameStep (telnet.processIac byte) (telnet'.processIac byte) := by
  unfold Telnet.processIac
  repeat' split
  all_goals exact ⟨h.goto rfl, rfl⟩

theorem sameLine_negotiate (h : SameLine telnet telnet') (cmd : Verb) (telopt : UInt8) :
    SameLine ((telnet.negotiate mem cmd telopt).1.goto .data)
      ((telnet'.negotiate mem cmd telopt).1.goto .data) := by
  have hsame := sameReceiver_negotiate mem telnet cmd telopt
  have hsame' := sameReceiver_negotiate mem telnet' cmd telopt
  refine ⟨rfl, hsame'.bufferSize.trans (h.bufferSize.trans hsame.bufferSize.symm), ?_,
    fun hcollects => by cases hcollects⟩
  show (telnet'.negotiate mem cmd telopt).1.buffer.length = _
  rw [hsame'.buffer, h.length, ← hsame.buffer]
  rfl

section

variable (hmem : ∀ n, mem n = true)
include hmem

theorem sameStep_processSbByte (h : SameLine telnet telnet')
    (hcollects : telnet.state.collects = true) (byte : UInt8) :
    SameStep (telnet.processSbByte mem byte) (telnet'.processSbByte mem byte) := by
  obtain ⟨hbuffer, hsb⟩ := h.collected hcollects
  unfold Telnet.processSbByte Telnet.bufferByte
  rw [hbuffer, h.bufferSize]
  split
  · split
    · exact ⟨h.goto rfl, rfl⟩
    · rw [if_pos (hmem _), if_pos (hmem _)]
      have hpushed : telnet'.buffer ++ [byte] = telnet.buffer ++ [byte] := by rw [hbuffer]
      exact ⟨⟨rfl, rfl, congrArg List.length hpushed, fun _ => ⟨hpushed, hsb⟩⟩, rfl⟩
  · have hpushed : telnet'.buffer ++ [byte] = telnet.buffer ++ [byte] := by rw [hbuffer]
    exact ⟨⟨rfl, h.bufferSize, congrArg List.length hpushed, fun _ => ⟨hpushed, hsb⟩⟩, rfl⟩

/-- `_subnegotiate` does the same, and hands on the same result. -/
theorem sameStep_subnegotiate (h : SameLine telnet telnet')
    (hcollects : telnet.state.collects = true) {state : TelnetRecvState}
    (hstate : state.collects = false) :
    let r := (telnet.goto state).subnegotiate mem
    let r' := (telnet'.goto state).subnegotiate mem
    SameStep (r.1, r.2.1) (r'.1, r'.2.1) ∧ r'.2.2 = r.2.2 := by
  intro r r'
  obtain ⟨hbuffer, hsb⟩ := h.collected hcollects
  have hshape := sameShape_subnegotiate mem (telnet.goto state)
  have hshape' := sameShape_subnegotiate mem (telnet'.goto state)
  refine ⟨⟨⟨hshape'.state.trans hshape.state.symm, ?_, ?_, ?_⟩, ?_⟩, ?_⟩
  · exact hshape'.bufferSize.trans (h.bufferSize.trans hshape.bufferSize.symm)
  · exact hshape'.length.trans (h.length.trans hshape.length.symm)
  · intro hcollects'
    have hnone : r.1.state.collects = false := (congrArg _ hshape.state).trans hstate
    rw [hnone] at hcollects'
    cases hcollects'
  · show seenOf r'.2.1 = seenOf r.2.1
    rw [seenOf_subnegotiate, seenOf_subnegotiate]
    show [TelnetEvent.subnegotiation telnet'.sbTelopt telnet'.buffer] = _
    rw [hbuffer, hsb]
    rfl
  · show ((telnet'.goto state).subnegotiate mem).2.2 = ((telnet.goto state).subnegotiate mem).2.2
    rw [subnegotiate_flag hmem, subnegotiate_flag hmem]
    show ((telnet'.sbTelopt = _ ∨ telnet'.sbTelopt = _ : Bool) && environAccepts telnet'.buffer) = _
    rw [hbuffer, hsb]
    rfl

theorem sameStep_processSbIac (h : SameLine telnet telnet')
    (hcollects : telnet.state.collects = true) (byte : UInt8) :
    let r := telnet.processSbIac mem byte
    let r' := telnet'.processSbIac mem byte
    SameStep (r.1, r.2.1) (r'.1, r'.2.1) := by
  intro r r'
  unfold r r' Telnet.processSbIac
  split
  · exact (sameStep_subnegotiate hmem h hcollects rfl).1
  · split
    · exact sameStep_processSbByte hmem h hcollects telnetIac
    · obtain ⟨hsame, hflag⟩ := sameStep_subnegotiate hmem h hcollects
        (show TelnetRecvState.collects .iac = false from rfl)
      dsimp only at hsame hflag ⊢
      rw [hflag]
      split
      · exact ⟨hsame.line, hsame.seen⟩
      · have hiac := sameStep_processIac hsame.line byte
        refine ⟨hiac.line, ?_⟩
        simp only [List.cons_append, seenOf_warning, seenOf_append]
        rw [hiac.seen, hsame.seen]

/-- **A byte does the same, whatever has been negotiated.** -/
theorem feed_congr (h : SameLine telnet telnet') (byte : UInt8) :
    SameStep (telnet.feed mem byte) (telnet'.feed mem byte) ∧
      telnet'.request byte = telnet.request byte := by
  have hrequest : telnet'.request byte = telnet.request byte := by
    rw [Telnet.request, Telnet.request, h.state]
  refine ⟨?_, hrequest⟩
  unfold Telnet.feed
  rw [h.state]
  cases hstate : telnet.state with
  | data =>
      rw [if_pos rfl, if_pos rfl]
      split
      · exact ⟨h.goto rfl, rfl⟩
      · exact ⟨h, rfl⟩
  | iac =>
      rw [if_neg (by simp), if_neg (by simp), Telnet.command, Telnet.command, h.state, hstate]
      exact sameStep_processIac h byte
  | negotiating cmd =>
      rw [if_neg (by simp), if_neg (by simp), Telnet.command, Telnet.command, h.state, hstate]
      refine ⟨sameLine_negotiate h cmd byte, ?_⟩
      exact (seenOf_eq_nil (plain_negotiate cmd byte)).trans
        (seenOf_eq_nil (plain_negotiate cmd byte)).symm
  | sb =>
      rw [if_neg (by simp), if_neg (by simp), Telnet.command, Telnet.command, h.state, hstate]
      exact ⟨⟨rfl, h.bufferSize, rfl, fun _ => ⟨rfl, rfl⟩⟩, rfl⟩
  | sbData =>
      rw [if_neg (by simp), if_neg (by simp), Telnet.command, Telnet.command, h.state, hstate]
      have hcollects : telnet.state.collects = true := by rw [hstate]; rfl
      dsimp only
      split
      · exact ⟨⟨rfl, h.bufferSize, h.length, fun _ => h.collected hcollects⟩, rfl⟩
      · exact sameStep_processSbByte hmem h hcollects byte
  | sbDataIac =>
      rw [if_neg (by simp), if_neg (by simp), Telnet.command, Telnet.command, h.state, hstate]
      have hcollects : telnet.state.collects = true := by rw [hstate]; rfl
      exact sameStep_processSbIac hmem h hcollects byte

/-- **What a stream holds does not depend on what has been negotiated.** -/
theorem run_feed_congr (h : SameLine telnet telnet') (bytes : List UInt8) :
    SameStep (Transducer.run (Telnet.feed mem) telnet bytes)
        (Transducer.run (Telnet.feed mem) telnet' bytes) ∧
      telnet'.requests mem bytes = telnet.requests mem bytes := by
  induction bytes generalizing telnet telnet' with
  | nil => exact ⟨⟨h, rfl⟩, rfl⟩
  | cons byte bytes ih =>
      obtain ⟨hfirst, hrequest⟩ := feed_congr hmem h byte
      obtain ⟨hrest, hrequests⟩ := ih hfirst.line
      refine ⟨⟨hrest.line, ?_⟩, ?_⟩
      · rw [Transducer.run_cons, Transducer.run_cons, seenOf_append, seenOf_append, hfirst.seen,
          hrest.seen]
      · rw [Telnet.requests, Telnet.requests, hrequest, hrequests]

end

end

/-! ### The requests in what is written -/

/-- An item that is no request. -/
def TelnetItem.Silent : TelnetItem → Prop
  | .negotiation _ _ => False
  | .command cmd => PlainCommand cmd
  | _ => True

theorem TelnetItem.Silent.plain {item : TelnetItem} (h : item.Silent) : item.Plain := by
  cases item with
  | command cmd => exact h
  | _ => trivial

/-- The bytes are read up to the end of one of a text. -/
def Telnet.Ending (telnet : Telnet) : Prop := telnet.state = .data ∨ telnet.state = .sbData

section

variable {mem : ℕ → Bool} {telnet : Telnet}

theorem requests_append (telnet : Telnet) (l l' : List UInt8) :
    telnet.requests mem (l ++ l') =
      telnet.requests mem l ++ (Transducer.run (Telnet.feed mem) telnet l).1.requests mem l' := by
  induction l generalizing telnet with
  | nil => rfl
  | cons byte l ih =>
      rw [List.cons_append, Telnet.requests, Telnet.requests, ih, Transducer.run_cons,
        List.append_assoc]

theorem requests_singleton (telnet : Telnet) (byte : UInt8) :
    telnet.requests mem [byte] = telnet.request byte :=
  List.append_nil _

/-- A negotiation is one request. -/
theorem requests_negotiation (h : telnet.state = .data) (cmd : Verb) (telopt : UInt8) :
    telnet.requests mem (negotiationBytes cmd telopt) = [(cmd, telopt)] := by
  have hverb : ((telnet.goto .iac).feed mem cmd.byte).1 = telnet.goto (.negotiating cmd) := by
    rw [feed_goto (by simp)]
    show ((telnet.goto .iac).processIac cmd.byte).1 = _
    rw [processIac_verb]
    rfl
  have hfirst : telnet.request telnetIac = [] := by rw [Telnet.request, h]
  rw [negotiationBytes, Telnet.requests, feed_iac h, Telnet.requests, hverb, requests_singleton,
    hfirst]
  rfl

theorem request_eq_nil (h : ∀ cmd, telnet.state ≠ .negotiating cmd) (byte : UInt8) :
    telnet.request byte = [] := by
  unfold Telnet.request
  split
  · next cmd hcmd => exact absurd hcmd (h cmd)
  · rfl

/-- A byte of a text, escaped or not, is no request. -/
theorem requests_textByte (h : telnet.Ending) (b : UInt8) :
    telnet.requests mem (escapeIac [b]) = [] ∧
      (Transducer.run (Telnet.feed mem) telnet (escapeIac [b])).1.Ending := by
  have hfirst : ∀ byte, telnet.request byte = [] :=
    request_eq_nil (by rcases h with h | h <;> simp [h])
  have hiac : ∀ byte, (telnet.feed mem telnetIac).1.request byte = [] := by
    refine request_eq_nil ?_
    rcases h with h | h
    · simp [feed_iac h, Telnet.goto]
    · simp [Telnet.feed, Telnet.command, h, Telnet.goto]
  constructor
  · rw [escapeIac_cons]
    split
    · simp [Telnet.requests, escapeIac, hfirst, hiac]
    · simp [Telnet.requests, escapeIac, hfirst]
  · rcases h with h | h
    · rw [run_feed_data h]
      exact Or.inl h
    · obtain ⟨state, hrun⟩ := run_feed_sbByte h b
      rw [hrun]
      unfold Telnet.processSbByte
      dsimp only
      split
      · exact Or.inr rfl
      · exact Or.inl rfl

theorem requests_text (h : telnet.Ending) (text : List UInt8) :
    telnet.requests mem (escapeIac text) = [] ∧
      (Transducer.run (Telnet.feed mem) telnet (escapeIac text)).1.Ending := by
  induction text generalizing telnet with
  | nil => exact ⟨rfl, h⟩
  | cons b text ih =>
      obtain ⟨hfirst, hending⟩ := requests_textByte h b
      obtain ⟨hrest, hlast⟩ := ih hending
      rw [← List.singleton_append, escapeIac_append, requests_append, Transducer.run_append, hfirst,
        hrest]
      exact ⟨rfl, hlast⟩

/-- A command that is no request. -/
theorem requests_command (h : telnet.Ending) {cmd : UInt8} :
    telnet.requests mem [telnetIac, cmd] = [] := by
  have hfirst : telnet.request telnetIac = [] :=
    request_eq_nil (by rcases h with h | h <;> simp [h]) telnetIac
  have hiac : (telnet.feed mem telnetIac).1.request cmd = [] := by
    refine request_eq_nil ?_ cmd
    rcases h with h | h
    · simp [feed_iac h, Telnet.goto]
    · simp [Telnet.feed, Telnet.command, h, Telnet.goto]
  rw [Telnet.requests, requests_singleton, hfirst, hiac]
  rfl

/-- **What is no request is read as none.** -/
theorem requests_item (h : telnet.state = .data) {item : TelnetItem} (hsilent : item.Silent) :
    telnet.requests mem (sentBytes item.events) = [] := by
  cases item with
  | data text =>
      rw [TelnetItem.events, sentBytes_telnetSendEvents]
      exact (requests_text (Or.inl h) text).1
  | command cmd => exact requests_command (Or.inl h)
  | negotiation cmd telopt => exact absurd hsilent id
  | subnegotiation telopt buffer =>
      have hsb : (telnet.goto .iac).feed mem telnetSb = (telnet.goto .sb, []) := by
        rw [feed_goto (by simp)]
        rfl
      have hbegin : telnet.requests mem [telnetIac, telnetSb, telopt] = [] := by
        have hfirst : telnet.request telnetIac = [] := by rw [Telnet.request, h]
        rw [Telnet.requests, feed_iac h, Telnet.requests, hsb, requests_singleton, hfirst]
        rfl
      have hsbData : (Transducer.run (Telnet.feed mem) telnet
          [telnetIac, telnetSb, telopt]).1.Ending := by
        right
        rw [Transducer.run_cons, feed_iac h, Transducer.run_cons, hsb, Transducer.run_singleton,
          feed_goto (by simp)]
        rfl
      obtain ⟨htext, hending⟩ := @requests_text mem _ hsbData buffer
      rw [TelnetItem.events, sentBytes_telnetSubnegotiation, requests_append, requests_append,
        hbegin, htext, Transducer.run_append]
      exact requests_command hending

end

end Wsn
