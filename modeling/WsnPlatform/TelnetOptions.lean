/-
**The options of libtelnet.**

`src/deployer/lib/libtelnet/libtelnet.c` negotiates options after RFC 1143.  What it has settled for
an option, with itself and with the peer, stands in a table.  The table grows by four entries for
each option that is tracked: the entry and three of zeros.  Its length is an `unsigned char`.

What a function does is the list of the events that it hands to the event handler, in order; bytes
for the peer are an event too.  The handler of the commander leaves the state alone.  The calls of
`realloc`, `calloc` and `malloc` are counted, and `mem` tells which of them succeed.

Main definitions:

* `Telnet` — `struct telnet_t`, and `TelnetEvent` — what is handed to the event handler;
* `Telnet.getRfc1143`, `Telnet.setRfc1143` — the table;
* `Telnet.negotiate` — `_negotiate`, what is made of a request of the peer;
* `telnetNegotiate` — `telnet_negotiate`, what is made of a request of the application.

Main results:

* `TableFor.getRfc1143_setRfc1143` — what is saved is found again, and other options are left alone;
* `negotiate_eq`, `telnetNegotiate_eq` — both functions are a turn of the Q method on one half of
  an entry, and say the answer to the peer.
-/

import WsnPlatform.CText
import WsnPlatform.QMethod

set_option relaxedAutoImplicit false
set_option autoImplicit false

namespace Wsn

open QMethod (State)

/-! ### Commands and events -/

/-- `TELNET_IAC`. -/
def telnetIac : UInt8 := 255

/-- The four commands of a negotiation. -/
inductive Verb
  | will
  | wont
  | doIt
  | dont
  deriving DecidableEq, Repr

/-- `TELNET_WILL`, `TELNET_WONT`, `TELNET_DO` and `TELNET_DONT`. -/
def Verb.byte : Verb → UInt8
  | .will => 251
  | .wont => 252
  | .doIt => 253
  | .dont => 254

/-- `struct telnet_environ_t`. -/
structure EnvironValue where
  type : UInt8
  var : CText
  value : CText
  deriving DecidableEq, Repr

/-- `telnet_event_t`.  The four events of a negotiation are one, and `TELNET_EV_TTYPE` has a name if
its command is `TELNET_TTYPE_IS`.  An entry of `TELNET_EV_MSSP` that was not filled is `none`. -/
inductive TelnetEvent
  | data (buffer : List UInt8)
  | send (buffer : List UInt8)
  | iac (cmd : UInt8)
  | neg (cmd : Verb) (telopt : UInt8)
  | subnegotiation (telopt : UInt8) (buffer : List UInt8)
  | zmp (argv : List CText)
  | ttype (name : Option CText)
  | environ (cmd : UInt8) (values : List EnvironValue)
  | mssp (values : List (Option (CText × CText)))
  | warning (msg : String)
  deriving DecidableEq, Repr

/-! ### The state -/

/-- `enum telnet_state_t`; the four states of a negotiation are one. -/
inductive TelnetRecvState
  | data
  | iac
  | negotiating (cmd : Verb)
  | sb
  | sbData
  | sbDataIac
  deriving DecidableEq, Repr

/-- `telnet_telopt_t`: an option, and what is agreed to for it. -/
structure Telopt where
  telopt : UInt8
  us : UInt8
  him : UInt8
  deriving DecidableEq, Repr

/-- `telnet_rfc1143_t`, with the two halves of its byte apart. -/
structure Rfc1143 where
  telopt : UInt8
  us : State
  him : State
  deriving DecidableEq, Repr

/-- An entry of zeros. -/
def Rfc1143.zero : Rfc1143 := ⟨0, .no, .no⟩

/-- **`struct telnet_t`.**  The list `telopts` ends where the table of the source has its end marker;
`q` are the entries below `q_size`, and `buffer` the bytes below `buffer_pos`. -/
structure Telnet where
  telopts : List Telopt
  /-- `TELNET_FLAG_PROXY` is set. -/
  proxy : Bool
  q : List Rfc1143
  buffer : List UInt8
  bufferSize : ℕ
  state : TelnetRecvState
  sbTelopt : UInt8
  /-- How often memory has been asked for. -/
  allocs : ℕ

/-- `telnet_init`. -/
def telnetInit (telopts : List Telopt) (proxy : Bool) : Telnet :=
  ⟨telopts, proxy, [], [], 0, .data, 0, 0⟩

/-! ### The tables -/

/-- `_check_telopt`: the first entry for the option decides. -/
def Telnet.checkTelopt (telnet : Telnet) (telopt : UInt8) (us : Bool) : Bool :=
  match telnet.telopts.find? fun e => e.telopt = telopt with
  | none => false
  | some e => if us then e.us = Verb.will.byte else e.him = Verb.doIt.byte

/-- `_get_rfc1143`. -/
def Telnet.getRfc1143 (telnet : Telnet) (telopt : UInt8) : Rfc1143 :=
  (telnet.q.find? fun e => e.telopt = telopt).getD ⟨telopt, .no, .no⟩

/-- The loop of `_set_rfc1143`: it finds the entry, or not. -/
def setEntry (telopt : UInt8) (us him : State) : List Rfc1143 → Option (List Rfc1143)
  | [] => none
  | e :: q =>
      if e.telopt = telopt then some (⟨e.telopt, us, him⟩ :: q)
      else (setEntry telopt us him q).map (e :: ·)

/-- The four entries by which the table grows. -/
def newEntries (telopt : UInt8) (us him : State) : List Rfc1143 :=
  [⟨telopt, us, him⟩, .zero, .zero, .zero]

/-- The text of `strerror(ENOMEM)`. -/
def strerrorNomem : String := "Cannot allocate memory"

/-- **`_set_rfc1143`.**  The length of the table is kept in an `unsigned char`. -/
def Telnet.setRfc1143 (mem : ℕ → Bool) (telnet : Telnet) (telopt : UInt8) (us him : State) :
    Telnet × List TelnetEvent :=
  match setEntry telopt us him telnet.q with
  | some q => ({ telnet with q := q }, [])
  | none =>
      if mem telnet.allocs then
        ({ telnet with
            q := (telnet.q ++ newEntries telopt us him).take ((telnet.q.length + 4) % 256)
            allocs := telnet.allocs + 1 }, [])
      else
        ({ telnet with allocs := telnet.allocs + 1 },
          [.warning ("realloc() failed: " ++ strerrorNomem)])

/-! ### Negotiations -/

/-- The bytes of a negotiation. -/
def negotiationBytes (cmd : Verb) (telopt : UInt8) : List UInt8 := [telnetIac, cmd.byte, telopt]

/-- `_send_negotiate`. -/
def sendNegotiate (cmd : Verb) (telopt : UInt8) : TelnetEvent := .send (negotiationBytes cmd telopt)

/-- The warning of `_negotiate`. -/
def answeredWarning (msg : String) : TelnetEvent := .warning msg

/-- `_set_rfc1143`, and the events behind it. -/
def Telnet.save (mem : ℕ → Bool) (telnet : Telnet) (telopt : UInt8) (us him : State)
    (events : List TelnetEvent) : Telnet × List TelnetEvent :=
  ((telnet.setRfc1143 mem telopt us him).1, (telnet.setRfc1143 mem telopt us him).2 ++ events)

/-- `_negotiate` in `TELNET_STATE_WILL`: a request to enable an option on the remote end, or the
confirmation of a `DO`. -/
def Telnet.negotiateWill (mem : ℕ → Bool) (telnet : Telnet) (telopt : UInt8) :
    Telnet × List TelnetEvent :=
  let q := telnet.getRfc1143 telopt
  match q.him with
  | .no =>
      if telnet.checkTelopt telopt false then
        telnet.save mem telopt q.us .yes [sendNegotiate .doIt telopt, .neg .will telopt]
      else (telnet, [sendNegotiate .dont telopt])
  | .wantNo =>
      telnet.save mem telopt q.us .no
        [.neg .wont telopt, answeredWarning "DONT answered by WILL"]
  | .wantNoOp =>
      telnet.save mem telopt q.us .yes
        [.neg .will telopt, answeredWarning "DONT answered by WILL"]
  | .wantYes => telnet.save mem telopt q.us .yes [.neg .will telopt]
  | .wantYesOp =>
      telnet.save mem telopt q.us .wantNo [sendNegotiate .dont telopt, .neg .will telopt]
  | .yes => (telnet, [])

/-- `_negotiate` in `TELNET_STATE_WONT`: a request to disable an option on the remote end, the
confirmation of a `DONT`, or the rejection of a `DO`. -/
def Telnet.negotiateWont (mem : ℕ → Bool) (telnet : Telnet) (telopt : UInt8) :
    Telnet × List TelnetEvent :=
  let q := telnet.getRfc1143 telopt
  match q.him with
  | .yes => telnet.save mem telopt q.us .no [sendNegotiate .dont telopt, .neg .wont telopt]
  | .wantNo => telnet.save mem telopt q.us .no [.neg .wont telopt]
  -- unlike its counterpart in `TELNET_STATE_DONT`, this case sends nothing
  | .wantNoOp => telnet.save mem telopt q.us .wantYes [.neg .doIt telopt]
  | .wantYes => telnet.save mem telopt q.us .no []
  | .wantYesOp => telnet.save mem telopt q.us .no []
  | .no => (telnet, [])

/-- `_negotiate` in `TELNET_STATE_DO`: a request to enable an option on the local end, or the
confirmation of a `WILL`. -/
def Telnet.negotiateDo (mem : ℕ → Bool) (telnet : Telnet) (telopt : UInt8) :
    Telnet × List TelnetEvent :=
  let q := telnet.getRfc1143 telopt
  match q.us with
  | .no =>
      if telnet.checkTelopt telopt true then
        telnet.save mem telopt .yes q.him [sendNegotiate .will telopt, .neg .doIt telopt]
      else (telnet, [sendNegotiate .wont telopt])
  | .wantNo =>
      telnet.save mem telopt .no q.him
        [.neg .dont telopt, answeredWarning "WONT answered by DO"]
  | .wantNoOp =>
      telnet.save mem telopt .yes q.him
        [.neg .doIt telopt, answeredWarning "WONT answered by DO"]
  | .wantYes => telnet.save mem telopt .yes q.him [.neg .doIt telopt]
  | .wantYesOp =>
      telnet.save mem telopt .wantNo q.him [sendNegotiate .wont telopt, .neg .doIt telopt]
  | .yes => (telnet, [])

/-- `_negotiate` in `TELNET_STATE_DONT`: a request to disable an option on the local end, the
confirmation of a `WONT`, or the rejection of a `WILL`. -/
def Telnet.negotiateDont (mem : ℕ → Bool) (telnet : Telnet) (telopt : UInt8) :
    Telnet × List TelnetEvent :=
  let q := telnet.getRfc1143 telopt
  match q.us with
  | .yes => telnet.save mem telopt .no q.him [sendNegotiate .wont telopt, .neg .dont telopt]
  | .wantNo => telnet.save mem telopt .no q.him [.neg .wont telopt]
  | .wantNoOp =>
      telnet.save mem telopt .wantYes q.him [sendNegotiate .will telopt, .neg .will telopt]
  | .wantYes => telnet.save mem telopt .no q.him []
  | .wantYesOp => telnet.save mem telopt .no q.him []
  | .no => (telnet, [])

/-- **`_negotiate`.**  As a proxy, libtelnet hands the request on and does nothing. -/
def Telnet.negotiate (mem : ℕ → Bool) (telnet : Telnet) (cmd : Verb) (telopt : UInt8) :
    Telnet × List TelnetEvent :=
  if telnet.proxy then (telnet, [.neg cmd telopt])
  else
    match cmd with
    | .will => telnet.negotiateWill mem telopt
    | .wont => telnet.negotiateWont mem telopt
    | .doIt => telnet.negotiateDo mem telopt
    | .dont => telnet.negotiateDont mem telopt

/-- **`telnet_negotiate`.** -/
def telnetNegotiate (mem : ℕ → Bool) (telnet : Telnet) (cmd : Verb) (telopt : UInt8) :
    Telnet × List TelnetEvent :=
  let q := telnet.getRfc1143 telopt
  if telnet.proxy then (telnet, [sendNegotiate cmd telopt])
  else
    match cmd, q.us, q.him with
    | .will, .no, him => telnet.save mem telopt .wantYes him [sendNegotiate .will telopt]
    | .will, .wantNo, him => telnet.save mem telopt .wantNoOp him []
    | .will, .wantYesOp, him => telnet.save mem telopt .wantYes him []
    | .wont, .yes, him => telnet.save mem telopt .wantNo him [sendNegotiate .wont telopt]
    | .wont, .wantYes, him => telnet.save mem telopt .wantYesOp him []
    | .wont, .wantNoOp, him => telnet.save mem telopt .wantNo him []
    | .doIt, us, .no => telnet.save mem telopt us .wantYes [sendNegotiate .doIt telopt]
    | .doIt, us, .wantNo => telnet.save mem telopt us .wantNoOp []
    | .doIt, us, .wantYesOp => telnet.save mem telopt us .wantYes []
    | .dont, us, .yes => telnet.save mem telopt us .wantNo [sendNegotiate .dont telopt]
    | .dont, us, .wantYes => telnet.save mem telopt us .wantYesOp []
    | .dont, us, .wantNoOp => telnet.save mem telopt us .wantNo []
    | _, _, _ => (telnet, [])

/-! ### The table keeps what is saved -/

section

variable {telopt o : UInt8} {us him : State} {q q' : List Rfc1143}

theorem setEntry_eq_none : setEntry telopt us him q = none ↔ telopt ∉ q.map Rfc1143.telopt := by
  induction q with
  | nil => simp [setEntry]
  | cons e q ih =>
      rw [setEntry]
      split
      · next h => simp [h]
      · next h => simp [ih, Ne.symm h]

theorem map_telopt_setEntry (h : setEntry telopt us him q = some q') :
    q'.map Rfc1143.telopt = q.map Rfc1143.telopt := by
  induction q generalizing q' with
  | nil => simp [setEntry] at h
  | cons e q ih =>
      rw [setEntry] at h
      split at h
      · cases h; rfl
      · obtain ⟨q'', hq, rfl⟩ := Option.map_eq_some_iff.1 h
        simp [ih hq]

theorem find_setEntry (h : setEntry telopt us him q = some q') :
    q'.find? (fun e => e.telopt = o) =
      if o = telopt then some ⟨telopt, us, him⟩ else q.find? fun e => e.telopt = o := by
  induction q generalizing q' with
  | nil => simp [setEntry] at h
  | cons e q ih =>
      rw [setEntry] at h
      split at h
      · next he =>
          cases h
          rcases eq_or_ne o telopt with rfl | ho
          · simp [he]
          · simp [he, ho, ho.symm]
      · next he =>
          obtain ⟨q'', hq, rfl⟩ := Option.map_eq_some_iff.1 h
          rw [List.find?_cons, List.find?_cons, ih hq]
          rcases eq_or_ne o telopt with rfl | ho
          · simp [he]
          · simp [ho]

end

/-- The options that have an entry of their own, in the order in which they came. -/
def TableFor (heads : List UInt8) (q : List Rfc1143) : Prop :=
  heads.Nodup ∧ q.map Rfc1143.telopt = heads.flatMap fun o => [o, 0, 0, 0]

theorem TableFor.length {heads : List UInt8} {q : List Rfc1143} (h : TableFor heads q) :
    q.length = 4 * heads.length := by
  rw [← List.length_map Rfc1143.telopt, h.2]
  simp [List.length_flatMap, Nat.mul_comm]

/-- The table tracks some of the options `opts`. -/
def Telnet.Tracks (opts : List UInt8) (telnet : Telnet) : Prop :=
  ∃ heads, TableFor heads telnet.q ∧ heads ⊆ opts

/-- With one option more, the length of the table would not fit its `unsigned char`. -/
def maxTracked : ℕ := 63

theorem Telnet.tracks_init (opts : List UInt8) (telopts : List Telopt) (proxy : Bool) :
    (telnetInit telopts proxy).Tracks opts :=
  ⟨[], ⟨List.nodup_nil, rfl⟩, List.nil_subset opts⟩

theorem TableFor.snoc {heads : List UInt8} {q : List Rfc1143} (h : TableFor heads q) {telopt : UInt8}
    (hnew : telopt ∉ q.map Rfc1143.telopt) (us him : State) :
    TableFor (heads ++ [telopt]) (q ++ newEntries telopt us him) := by
  have hhead : telopt ∉ heads := by
    intro hmem
    refine hnew ?_
    rw [h.2, List.mem_flatMap]
    exact ⟨telopt, hmem, List.mem_cons_self⟩
  constructor
  · exact (List.nodup_append_comm.1 (by simpa using ⟨hhead, h.1⟩))
  · rw [List.map_append, h.2, List.flatMap_append]
    rfl

section

variable {mem : ℕ → Bool} {telnet : Telnet} {opts : List UInt8} {telopt : UInt8} {us him : State}

/-- A table that has room grows by four entries. -/
theorem Telnet.Tracks.grow (h : telnet.Tracks opts) (hopts : opts.length ≤ maxTracked)
    (ho : telopt ∈ opts) (hnew : telopt ∉ telnet.q.map Rfc1143.telopt) (us him : State) :
    (telnet.q ++ newEntries telopt us him).take ((telnet.q.length + 4) % 256) =
        telnet.q ++ newEntries telopt us him ∧
      ∃ heads, TableFor heads (telnet.q ++ newEntries telopt us him) ∧ heads ⊆ opts := by
  obtain ⟨heads, htable, hsub⟩ := h
  have hsnoc := htable.snoc hnew us him
  have hsub' : heads ++ [telopt] ⊆ opts := by simp [hsub, ho]
  have hlen : (heads ++ [telopt]).length ≤ opts.length := (hsnoc.1.subperm hsub').length_le
  have hq := htable.length
  rw [List.length_append, List.length_singleton] at hlen
  unfold maxTracked at hopts
  refine ⟨?_, heads ++ [telopt], hsnoc, hsub'⟩
  rw [Nat.mod_eq_of_lt (by omega)]
  refine List.take_of_length_le ?_
  simp [newEntries]

/-- Saving keeps the table within its options, also when there is no memory. -/
theorem Telnet.Tracks.setRfc1143 (h : telnet.Tracks opts) (hopts : opts.length ≤ maxTracked)
    (ho : telopt ∈ opts ∨ telopt ∈ telnet.q.map Rfc1143.telopt) :
    (telnet.setRfc1143 mem telopt us him).1.Tracks opts := by
  unfold Telnet.setRfc1143
  split
  · next q hq =>
      obtain ⟨heads, htable, hsub⟩ := h
      exact ⟨heads, ⟨htable.1, (map_telopt_setEntry hq).trans htable.2⟩, hsub⟩
  · next hq =>
      rw [setEntry_eq_none] at hq
      split
      · obtain ⟨htake, heads, htable, hsub⟩ := h.grow hopts (ho.resolve_right hq) hq us him
        refine ⟨heads, ?_, hsub⟩
        simp only [htake]
        exact htable
      · exact h

/-- **What is saved is found again, and the other options are left alone.** -/
theorem Telnet.Tracks.getRfc1143_setRfc1143 (h : telnet.Tracks opts)
    (hopts : opts.length ≤ maxTracked)
    (ho : telopt ∈ opts ∨ telopt ∈ telnet.q.map Rfc1143.telopt)
    (hmem : mem telnet.allocs = true) (o : UInt8) :
    (telnet.setRfc1143 mem telopt us him).1.getRfc1143 o =
      if o = telopt then ⟨telopt, us, him⟩ else telnet.getRfc1143 o := by
  unfold Telnet.setRfc1143 Telnet.getRfc1143
  split
  · next q hq =>
      simp only [find_setEntry hq]
      split <;> rfl
  · next hq =>
      rw [setEntry_eq_none] at hq
      rw [if_pos hmem]
      simp only [(h.grow hopts (ho.resolve_right hq) hq us him).1, List.find?_append]
      rcases eq_or_ne o telopt with rfl | hne
      · have hnone : telnet.q.find? (fun e => e.telopt = o) = none := by
          rw [List.find?_eq_none]
          intro e he
          simpa using fun heq => hq (List.mem_map.2 ⟨e, he, heq⟩)
        simp [hnone, newEntries]
      · rw [if_neg hne]
        cases hfind : telnet.q.find? (fun e => e.telopt = o) with
        | some e => simp
        | none =>
            rcases eq_or_ne o 0 with rfl | hzero
            · simp [newEntries, Rfc1143.zero, hne.symm]
            · simp [newEntries, Rfc1143.zero, hne.symm, hzero.symm]

end

/-! ### Negotiations as turns of the Q method -/

/-- A received command is about the half of the local end: `DO` and `DONT`. -/
def Verb.ours : Verb → Bool
  | .doIt => true
  | .dont => true
  | _ => false

/-- The command asks for the option, or tells that it is on. -/
def Verb.on : Verb → Bool
  | .will => true
  | .doIt => true
  | _ => false

/-- What an end says about its own half, or asks of the other end. -/
def sayVerb (ours on : Bool) : Verb :=
  if ours then (if on then .will else .wont) else (if on then .doIt else .dont)

/-- The half of an entry. -/
def Rfc1143.half (e : Rfc1143) (ours : Bool) : State := if ours then e.us else e.him

/-- An entry with one half replaced. -/
def Rfc1143.withHalf (e : Rfc1143) (ours : Bool) (s : State) : Rfc1143 :=
  if ours then { e with us := s } else { e with him := s }

@[simp] theorem Rfc1143.telopt_withHalf (e : Rfc1143) (ours : Bool) (s : State) :
    (e.withHalf ours s).telopt = e.telopt := by
  cases ours <;> rfl

/-- The buffer of a `TELNET_EV_SEND`. -/
def TelnetEvent.sent : TelnetEvent → Option (List UInt8)
  | .send buffer => some buffer
  | _ => none

/-- The buffers for the peer. -/
def sends (events : List TelnetEvent) : List (List UInt8) := events.filterMap TelnetEvent.sent

/-- The bytes for the peer. -/
def sentBytes (events : List TelnetEvent) : List UInt8 := (sends events).flatten

@[simp] theorem sends_append (es fs : List TelnetEvent) : sends (es ++ fs) = sends es ++ sends fs :=
  List.filterMap_append

@[simp] theorem sentBytes_append (es fs : List TelnetEvent) :
    sentBytes (es ++ fs) = sentBytes es ++ sentBytes fs := by
  rw [sentBytes, sends_append, List.flatten_append]
  rfl

/-- The buffer of an answer, if there is one. -/
def answerSends (ours : Bool) (telopt : UInt8) (on : Option Bool) : List (List UInt8) :=
  on.toList.map fun on => negotiationBytes (sayVerb ours on) telopt

section

variable (mem : ℕ → Bool) (telnet : Telnet) (telopt : UInt8)

theorem sends_setRfc1143 (us him : State) :
    sends (telnet.setRfc1143 mem telopt us him).2 = [] := by
  unfold Telnet.setRfc1143
  split
  · rfl
  · split <;> rfl

theorem sends_save (us him : State) (events : List TelnetEvent) :
    sends (telnet.save mem telopt us him events).2 = sends events := by
  rw [Telnet.save, sends_append, sends_setRfc1143, List.nil_append]

/-- The state behind a turn: nothing is saved, or the half that the turn is about. -/
def Saved (ours : Bool) (s : State) (telnet' : Telnet) : Prop :=
  (telnet' = telnet ∧ s = (telnet.getRfc1143 telopt).half ours) ∨
    telnet' = (telnet.setRfc1143 mem telopt ((telnet.getRfc1143 telopt).withHalf ours s).us
      ((telnet.getRfc1143 telopt).withHalf ours s).him).1

/-- **What is made of a request of the peer**: a turn of the Q method on the half that it is about.
Only for the local half is the opposite asked for when it is wanted. -/
theorem Telnet.negotiate_eq (hproxy : telnet.proxy = false) (cmd : Verb) :
    let turn := QMethod.answer cmd.ours (telnet.checkTelopt telopt cmd.ours)
      ((telnet.getRfc1143 telopt).half cmd.ours) cmd.on
    Saved mem telnet telopt cmd.ours turn.1 (telnet.negotiate mem cmd telopt).1 ∧
      sends (telnet.negotiate mem cmd telopt).2 = answerSends cmd.ours telopt turn.2 := by
  cases cmd with
  | will =>
      simp only [Verb.ours, Verb.on, Telnet.negotiate, hproxy, Bool.false_eq_true, if_false,
        Telnet.negotiateWill, Rfc1143.half]
      cases hq : (telnet.getRfc1143 telopt).him with
      | no =>
          simp only [QMethod.answer]
          split
          · exact ⟨Or.inr rfl, sends_save ..⟩
          · exact ⟨Or.inl ⟨rfl, hq.symm⟩, rfl⟩
      | yes => exact ⟨Or.inl ⟨rfl, hq.symm⟩, rfl⟩
      | _ => exact ⟨Or.inr rfl, sends_save ..⟩
  | wont =>
      simp only [Verb.ours, Verb.on, Telnet.negotiate, hproxy, Bool.false_eq_true, if_false,
        Telnet.negotiateWont, Rfc1143.half]
      cases hq : (telnet.getRfc1143 telopt).him with
      | no => exact ⟨Or.inl ⟨rfl, hq.symm⟩, rfl⟩
      | _ => exact ⟨Or.inr rfl, sends_save ..⟩
  | doIt =>
      simp only [Verb.ours, Verb.on, Telnet.negotiate, hproxy, Bool.false_eq_true, if_false,
        Telnet.negotiateDo, Rfc1143.half, if_true]
      cases hq : (telnet.getRfc1143 telopt).us with
      | no =>
          simp only [QMethod.answer]
          split
          · exact ⟨Or.inr rfl, sends_save ..⟩
          · exact ⟨Or.inl ⟨rfl, hq.symm⟩, rfl⟩
      | yes => exact ⟨Or.inl ⟨rfl, hq.symm⟩, rfl⟩
      | _ => exact ⟨Or.inr rfl, sends_save ..⟩
  | dont =>
      simp only [Verb.ours, Verb.on, Telnet.negotiate, hproxy, Bool.false_eq_true, if_false,
        Telnet.negotiateDont, Rfc1143.half, if_true]
      cases hq : (telnet.getRfc1143 telopt).us with
      | no => exact ⟨Or.inl ⟨rfl, hq.symm⟩, rfl⟩
      | _ => exact ⟨Or.inr rfl, sends_save ..⟩

/-- A request to turn on what is off and not agreed to leaves the state as it is, and so does one to
turn off what is off. -/
theorem Telnet.negotiate_refused (cmd : Verb)
    (hallowed : telnet.checkTelopt telopt cmd.ours = false)
    (hno : (telnet.getRfc1143 telopt).half cmd.ours = .no) :
    (telnet.negotiate mem cmd telopt).1 = telnet := by
  unfold Telnet.negotiate
  split
  · rfl
  · cases cmd <;> simp only [Verb.ours, Rfc1143.half, Bool.false_eq_true, if_false, if_true] at *
      <;> simp [Telnet.negotiateWill, Telnet.negotiateWont, Telnet.negotiateDo,
        Telnet.negotiateDont, hno, hallowed]

/-- **What is made of a request of the application.** -/
theorem telnetNegotiate_eq (hproxy : telnet.proxy = false) (ours on : Bool) :
    let turn := QMethod.ask ((telnet.getRfc1143 telopt).half ours) on
    Saved mem telnet telopt ours turn.1 (telnetNegotiate mem telnet (sayVerb ours on) telopt).1 ∧
      sends (telnetNegotiate mem telnet (sayVerb ours on) telopt).2 =
        answerSends ours telopt turn.2 := by
  cases ours with
  | true =>
      cases hq : (telnet.getRfc1143 telopt).us <;> cases on <;>
        simp only [sayVerb, telnetNegotiate, hproxy, Rfc1143.half, hq, Bool.false_eq_true, if_false,
          if_true] <;>
        first
        | exact ⟨Or.inr rfl, sends_save ..⟩
        | exact ⟨Or.inl ⟨rfl, hq.symm⟩, rfl⟩
  | false =>
      cases hq : (telnet.getRfc1143 telopt).him <;> cases on <;>
        simp only [sayVerb, telnetNegotiate, hproxy, Rfc1143.half, hq, Bool.false_eq_true, if_false,
          if_true] <;>
        first
        | exact ⟨Or.inr rfl, sends_save ..⟩
        | exact ⟨Or.inl ⟨rfl, hq.symm⟩, rfl⟩

end

/-! ### What a turn leaves of the state -/

/-- The fields that negotiations leave alone. -/
structure SameReceiver (telnet telnet' : Telnet) : Prop where
  telopts : telnet'.telopts = telnet.telopts
  proxy : telnet'.proxy = telnet.proxy
  buffer : telnet'.buffer = telnet.buffer
  bufferSize : telnet'.bufferSize = telnet.bufferSize
  state : telnet'.state = telnet.state
  sbTelopt : telnet'.sbTelopt = telnet.sbTelopt

theorem SameReceiver.refl (telnet : Telnet) : SameReceiver telnet telnet :=
  ⟨rfl, rfl, rfl, rfl, rfl, rfl⟩

theorem sameReceiver_setRfc1143 (mem : ℕ → Bool) (telnet : Telnet) (telopt : UInt8)
    (us him : State) : SameReceiver telnet (telnet.setRfc1143 mem telopt us him).1 := by
  unfold Telnet.setRfc1143
  split
  · exact ⟨rfl, rfl, rfl, rfl, rfl, rfl⟩
  · split <;> exact ⟨rfl, rfl, rfl, rfl, rfl, rfl⟩

theorem mem_of_half_ne_no {telnet : Telnet} {telopt : UInt8} {ours : Bool}
    (h : (telnet.getRfc1143 telopt).half ours ≠ .no) : telopt ∈ telnet.q.map Rfc1143.telopt := by
  by_contra hnot
  have hnone : telnet.q.find? (fun e => e.telopt = telopt) = none := by
    rw [List.find?_eq_none]
    intro e he
    simpa using fun heq => hnot (List.mem_map.2 ⟨e, he, heq⟩)
  refine h ?_
  rw [Telnet.getRfc1143, hnone]
  cases ours <;> rfl

section

variable {mem : ℕ → Bool} {telnet telnet' : Telnet} {opts : List UInt8} {telopt : UInt8}
  {ours : Bool} {s : State}

theorem Saved.sameReceiver (h : Saved mem telnet telopt ours s telnet') :
    SameReceiver telnet telnet' := by
  rcases h with ⟨rfl, -⟩ | rfl
  · exact SameReceiver.refl _
  · exact sameReceiver_setRfc1143 ..

theorem Saved.tracks (h : Saved mem telnet telopt ours s telnet') (htracks : telnet.Tracks opts)
    (hopts : opts.length ≤ maxTracked)
    (ho : telopt ∈ opts ∨ telopt ∈ telnet.q.map Rfc1143.telopt) : telnet'.Tracks opts := by
  rcases h with ⟨rfl, -⟩ | rfl
  · exact htracks
  · exact htracks.setRfc1143 hopts ho

/-- **A turn changes the half that it is about, and no other.** -/
theorem Saved.half (h : Saved mem telnet telopt ours s telnet') (htracks : telnet.Tracks opts)
    (hopts : opts.length ≤ maxTracked)
    (ho : telopt ∈ opts ∨ telopt ∈ telnet.q.map Rfc1143.telopt)
    (hmem : mem telnet.allocs = true) (o : UInt8) (ours' : Bool) :
    (telnet'.getRfc1143 o).half ours' =
      if o = telopt ∧ ours' = ours then s else (telnet.getRfc1143 o).half ours' := by
  rcases h with ⟨rfl, hs⟩ | rfl
  · split
    · next heq => rw [heq.1, heq.2, hs]
    · rfl
  · rw [htracks.getRfc1143_setRfc1143 hopts ho hmem]
    rcases eq_or_ne o telopt with rfl | hne
    · simp only [if_true, true_and]
      cases ours <;> cases ours' <;> rfl
    · simp [hne]

/-- The options that are agreed to are among `opts`. -/
def Telnet.SupportsOnly (opts : List UInt8) (telnet : Telnet) : Prop :=
  ∀ telopt us, telnet.checkTelopt telopt us = true → telopt ∈ opts

theorem Telnet.SupportsOnly.congr {opts : List UInt8} {telnet telnet' : Telnet}
    (h : telnet.SupportsOnly opts) (htelopts : telnet'.telopts = telnet.telopts) :
    telnet'.SupportsOnly opts := by
  intro telopt us hcheck
  unfold Telnet.checkTelopt at hcheck
  rw [htelopts] at hcheck
  exact h telopt us hcheck

/-- **No request of the peer makes the table track another option.** -/
theorem Telnet.Tracks.negotiate (htracks : telnet.Tracks opts) (hopts : opts.length ≤ maxTracked)
    (hsupports : telnet.SupportsOnly opts) (mem : ℕ → Bool) (cmd : Verb) (telopt : UInt8) :
    (telnet.negotiate mem cmd telopt).1.Tracks opts := by
  cases hproxy : telnet.proxy with
  | true =>
      rw [Telnet.negotiate.eq_def, if_pos hproxy]
      exact htracks
  | false =>
      have hsaved := (telnet.negotiate_eq mem telopt hproxy cmd).1
      by_cases hallowed : telnet.checkTelopt telopt cmd.ours = true
      · exact hsaved.tracks htracks hopts (Or.inl (hsupports telopt cmd.ours hallowed))
      · by_cases hno : (telnet.getRfc1143 telopt).half cmd.ours = .no
        · rw [telnet.negotiate_refused mem telopt cmd (by simpa using hallowed) hno]
          exact htracks
        · exact hsaved.tracks htracks hopts (Or.inr (mem_of_half_ne_no hno))

/-- No request of the peer touches what the receiver keeps. -/
theorem sameReceiver_negotiate (mem : ℕ → Bool) (telnet : Telnet) (cmd : Verb) (telopt : UInt8) :
    SameReceiver telnet (telnet.negotiate mem cmd telopt).1 := by
  cases hproxy : telnet.proxy with
  | true =>
      rw [Telnet.negotiate.eq_def, if_pos hproxy]
      exact SameReceiver.refl telnet
  | false => exact (telnet.negotiate_eq mem telopt hproxy cmd).1.sameReceiver

end

end Wsn
