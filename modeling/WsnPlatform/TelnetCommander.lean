/-
**The telnet commander.**

`src/deployer/telnet_commander.c` talks to a target over a socket: it waits for one of some prompts,
and sends texts through libtelnet.  It keeps the handle of libtelnet and the socket in two fields;
`telnet_commander_create` sets the socket alone.

What is received is handed to libtelnet, and its event handler sends replies over the same socket:
the answers to negotiations, and the type of the terminal.  What `send` is handed is therefore kept
apart, as texts of the commander and replies.

A call is given what its `recv` calls are going to return.  It may wait for more than the server
sends, and then does not return.  `send` takes everything: otherwise the process ends.

Main definitions:

* `telnetCommanderConnect`, `telnetCommanderLogin`, `telnetCommanderSendOneLine`,
  `telnetCommanderClose` — the calls of the source;
* `recvUntilMatch` — the loop that waits for a prompt, `eventHandler` — the replies;
* `Wire.Handles` — the messages that do no harm;
* `Segmented` — what the callers of the loop rely on, for a stream cut into pieces.

Main results:

* `recvLoop_eq`, `recvLoop_fault` — what the loop does;
* `segmented_iff` — when the loop returns with the right piece.
-/

import WsnPlatform.Common
import WsnPlatform.Ledger
import WsnPlatform.PatternSearch
import WsnPlatform.TelnetReceiver

set_option relaxedAutoImplicit false
set_option autoImplicit false

namespace Wsn

open PatternSearch

/-! ### Texts -/

/-- `PROMPT`. -/
def prompt : CText := literal "]#"

/-- `LOGIN`. -/
def login : CText := literal "login:"

/-- `PASSWORD`. -/
def password : CText := literal "password:"

/-- `LOGIN_FAIL`. -/
def loginFail : CText := literal "incorrect"

/-- `RECV_BUFFER_SIZE`. -/
def recvBufferSize : ℕ := 1024

/-! ### The state -/

/-- What the field `telnet` holds.  A handle is told by its number: it counts the handles that
`telnet_init` returned before it. -/
inductive TelnetField
  | unassigned
  | null
  | handle (n : ℕ)
  deriving DecidableEq

/-- `struct _TelnetCommander`.  A socket is told by its number in the ledger of sockets; `none` is
`-1`. -/
structure TelnetCommander where
  telnet : TelnetField
  socket : Option ℕ
  deriving DecidableEq

/-- `telnet_commander_create`, when its `malloc` succeeds. -/
def telnetCommanderCreate : TelnetCommander := ⟨.unassigned, none⟩

/-- What one `recv` returns: no byte (`rs <= 0`), or some, at most as many as the buffer holds. -/
inductive RecvResult
  | failed
  | data (bytes : { b : List UInt8 // b ≠ [] ∧ b.length ≤ recvBufferSize })

/-- What `send` is handed: by a call of the commander, or by the event handler. -/
inductive Sent
  | text (bytes : List UInt8)
  | reply (bytes : List UInt8)
  deriving DecidableEq

/-- **The connection of a call**: what `recv` is going to return, and what was sent. -/
structure Wire where
  recvs : List RecvResult
  /-- The state of libtelnet that the handle leads to. -/
  receiver : Telnet
  /-- Which of its allocations succeed. -/
  mem : ℕ → Bool
  /-- `getenv("TERM")`. -/
  term : Option CText
  sent : List Sent

/-- Why a call does not return. -/
inductive TelnetHalt
  /-- It waits in `recv`. -/
  | waiting
  /-- The field `telnet` is read before it was assigned. -/
  | unassigned
  /-- libtelnet is handed `NULL` and reads a field through it. -/
  | nullHandle
  /-- The NUL behind the received bytes is stored outside `recv_buffer`. -/
  | outOfBounds
  /-- `strlen` is handed `NULL`. -/
  | nullText
  deriving DecidableEq

/-- A call that talks to the target. -/
abbrev Talk := Except (TelnetHalt × Wire)

/-! ### Sending and receiving -/

/-- What `telnet_send` makes of a text: `TELNET_IAC` is doubled. -/
def escapeIac (text : CText) : List UInt8 :=
  text.flatMap fun c => if c = telnetIac then [telnetIac, telnetIac] else [c]

/-- `send` is handed these. -/
def Wire.send (w : Wire) (sent : List Sent) : Wire := { w with sent := w.sent ++ sent }

@[simp] theorem Wire.term_send (w : Wire) (sent : List Sent) : (w.send sent).term = w.term := rfl

theorem Wire.send_send (w : Wire) (sent sent' : List Sent) :
    (w.send sent).send sent' = w.send (sent ++ sent') := by
  simp [send]

theorem Wire.send_nil (w : Wire) : w.send [] = w := by
  simp [send]

/-- `telnet_send`. -/
def telnetSend (telnet : TelnetField) (text : CText) (w : Wire) : Talk Wire :=
  match telnet with
  | .unassigned => .error (.unassigned, w)
  | .null => if text = [] then .ok w else .error (.nullHandle, w)
  | .handle _ => .ok (w.send [.text (escapeIac text)])

/-- `telnet_ttype_is`, for the text that `getenv("TERM")` leads to. -/
def telnetTtypeIs (ttype : Option CText) (w : Wire) : Talk Wire := do
  let w := w.send [.reply [telnetIac, telnetSb, teloptTtype, ttypeIs]]
  match ttype with
  | none => .error (.nullText, w)
  | some ttype => .ok (w.send [.reply ttype, .reply [telnetIac, telnetSe]])

/-- **`event_handler`**.  Of `TELNET_EV_TTYPE`, the one without a name is `TELNET_TTYPE_SEND`; events
of the type `TELNET_EV_ERROR`, with which the process ends, do not occur without compression. -/
def eventHandler (ev : TelnetEvent) (w : Wire) : Talk Wire :=
  match ev with
  | .send buffer => .ok (w.send [.reply buffer])
  | .ttype none => telnetTtypeIs w.term w
  | _ => .ok w

/-- The events are handled one after the other. -/
def handleEvents : List TelnetEvent → Wire → Talk Wire
  | [], w => .ok w
  | ev :: events, w => do
      let w ← eventHandler ev w
      handleEvents events w

/-- The loop of `match`.  `matchIndex` is what the pointer leads to; `none` is `NULL`. -/
def matchLoop (comparer : CText) : List CText → ℤ → Option ℤ → Bool × Option ℤ
  | [], _, matchIndex => (false, matchIndex)
  | desire :: desireList, index, matchIndex =>
      if strstr comparer desire then (true, matchIndex.map fun _ => index)
      else matchLoop comparer desireList (index + 1) matchIndex

/-- `match`. -/
def matchText (comparer : CText) (desireList : List CText) (matchIndex : Option ℤ) :
    Bool × Option ℤ :=
  matchLoop comparer desireList 0 matchIndex

/-- `telnet_recv`, with what the event handler does for it. -/
def recvHandled (telnet : TelnetField) (bytes : List UInt8) (w : Wire) : Talk Wire :=
  match telnet with
  | .unassigned => .error (.unassigned, w)
  | .null => .error (.nullHandle, w)
  | .handle _ =>
      handleEvents (telnetRecv w.mem w.receiver bytes).2
        { w with receiver := (telnetRecv w.mem w.receiver bytes).1 }

/-- One turn of the loop with received bytes, up to the call of `match`: the NUL is stored behind
the bytes, and `telnet_recv` is called. -/
def recvBytes (telnet : TelnetField) (bytes : List UInt8) (w : Wire) : Talk (CText × Wire) :=
  if bytes.length = recvBufferSize then .error (.outOfBounds, w)
  else do
    let w ← recvHandled telnet bytes w
    .ok (textOf bytes, w)

/-- The messages that are left are these. -/
def Wire.withRecvs (w : Wire) (recvs : List RecvResult) : Wire := { w with recvs := recvs }

/-- The loop of `telnet_commander_recv_until_match`. -/
def recvLoop (telnet : TelnetField) (desireList : List CText) (matchIndex : Option ℤ) :
    List RecvResult → Wire → Talk ((Ret × Option ℤ) × Wire)
  | [], w => .error (.waiting, w.withRecvs [])
  | .failed :: recvs, w => .ok ((.fail, matchIndex), w.withRecvs recvs)
  | .data bytes :: recvs, w =>
      match recvBytes telnet bytes.val (w.withRecvs recvs) with
      | .error e => .error e
      | .ok r =>
          if (matchText r.1 desireList matchIndex).1 then
            .ok ((.ok, (matchText r.1 desireList matchIndex).2), r.2)
          else recvLoop telnet desireList (matchText r.1 desireList matchIndex).2 recvs r.2

/-- **`telnet_commander_recv_until_match`**: its result, and what `match_index` leads to.  A `recv`
on the socket `-1` fails. -/
def recvUntilMatch (thiz : TelnetCommander) (desireList : List CText) (matchIndex : Option ℤ)
    (w : Wire) : Talk ((Ret × Option ℤ) × Wire) :=
  match thiz.socket with
  | none => .ok ((.fail, matchIndex), w)
  | some _ => recvLoop thiz.telnet desireList matchIndex w.recvs w

/-! ### The calls -/

/-- `telnet_commander_login` behind the request for a password. -/
def loginWithPassword (thiz : TelnetCommander) (pass : CText) (w : Wire) : Talk (Ret × Wire) := do
  if pass.length = 1 then .ok (.fail, w)
  else
    let w ← telnetSend thiz.telnet pass w
    let w ← telnetSend thiz.telnet crlf w
    let matchIndex : ℤ := -1
    -- `NULL` is passed where the address of `match_index` is meant
    let (r, w) ← recvUntilMatch thiz [loginFail, prompt] none w
    if r.1 ≠ .ok then .ok (.fail, w)
    else if matchIndex = 0 then .ok (.fail, w)
    else .ok (.ok, w)

/-- `telnet_commander_login` behind the prompt for a user name. -/
def loginWithUsername (thiz : TelnetCommander) (username pass : CText) (w : Wire) :
    Talk (Ret × Wire) := do
  let w ← telnetSend thiz.telnet username w
  let w ← telnetSend thiz.telnet crlf w
  let (r, w) ← recvUntilMatch thiz [password, prompt] (some (-1)) w
  if r.1 ≠ .ok then .ok (.fail, w)
  else if r.2 = some 0 then loginWithPassword thiz pass w
  else .ok (.ok, w)

/-- **`telnet_commander_login`**. -/
def telnetCommanderLogin (thiz : TelnetCommander) (username pass : Option CText) (w : Wire) :
    Talk (Ret × Wire) :=
  match username, pass with
  | some username, some pass => do
      let (r, w) ← recvUntilMatch thiz [login] none w
      if r.1 ≠ .ok then .ok (.fail, w) else loginWithUsername thiz username pass w
  | _, _ => .ok (.invalidParams, w)

/-- **`telnet_commander_send_one_line`**. -/
def telnetCommanderSendOneLine (thiz : TelnetCommander) (input : Option CText) (w : Wire) :
    Talk (Ret × Wire) :=
  match input with
  | none => .ok (.invalidParams, w)
  | some input => do
      let w ← telnetSend thiz.telnet input w
      let (r, w) ← recvUntilMatch thiz [prompt] none w
      if r.1 ≠ .ok then .ok (.fail, w) else .ok (.ok, w)

/-- The sockets and the handles, and the fields of the commander. -/
structure TelnetState where
  thiz : TelnetCommander
  sockets : Ledger
  handles : Ledger

/-- **`telnet_commander_close`**. -/
def telnetCommanderClose (s : TelnetState) : Except TelnetHalt (Ret × TelnetState) :=
  let sockets := match s.thiz.socket with
    | none => s.sockets
    | some socket => s.sockets.release socket
  match s.thiz.telnet with
  | .unassigned => .error .unassigned
  | .null => .ok (.ok, ⟨⟨.null, none⟩, sockets, s.handles⟩)
  | .handle n => .ok (.ok, ⟨⟨.null, none⟩, sockets, s.handles.release n⟩)

/-- The answers to the calls of `telnet_commander_connect`: whether `socket`, `telnet_init` and
`connect` succeed. -/
structure TelnetConnectEnv where
  socket : Bool
  telnetInit : Bool
  connect : Bool

/-- What `telnet_commander_connect` does once it has a socket, up to `connect`. -/
def telnetOpen (s : TelnetState) (telnetInit : Bool) : TelnetState where
  thiz :=
    { telnet := if telnetInit then .handle s.handles.issued else .null
      socket := some s.sockets.issued }
  sockets := s.sockets.issue
  handles := if telnetInit then s.handles.issue else s.handles

/-- Its label `fail`. -/
def telnetConnectFail (s : TelnetState) : Except TelnetHalt (Ret × TelnetState) := do
  let r ← telnetCommanderClose s
  .ok (.fail, r.2)

/-- `socket` has failed. -/
def TelnetState.withoutSocket (s : TelnetState) : TelnetState :=
  { s with thiz := { s.thiz with socket := none } }

/-- **`telnet_commander_connect`**. -/
def telnetCommanderConnect (ipAddress : Option CText) (env : TelnetConnectEnv) (s : TelnetState) :
    Except TelnetHalt (Ret × TelnetState) :=
  if ipAddress = none then .ok (.invalidParams, s)
  else if env.socket = false then telnetConnectFail s.withoutSocket
  else if env.connect then .ok (.ok, telnetOpen s env.telnetInit)
  else telnetConnectFail (telnetOpen s env.telnetInit)

/-! ### Matching -/

theorem matchLoop_of_shows {comparer : CText} {desireList : List CText} {index : ℤ}
    {matchIndex : Option ℤ} (h : Shows desireList comparer) :
    (matchLoop comparer desireList index matchIndex).1 = true := by
  induction desireList generalizing index with
  | nil => exact absurd h (not_shows_nil comparer)
  | cons desire desireList ih =>
      rw [matchLoop]
      split
      · rfl
      · next hno =>
          rw [strstr_eq_true] at hno
          exact ih ((shows_cons.1 h).resolve_left hno)

theorem matchLoop_of_not_shows {comparer : CText} {desireList : List CText} {index : ℤ}
    {matchIndex : Option ℤ} (h : ¬ Shows desireList comparer) :
    matchLoop comparer desireList index matchIndex = (false, matchIndex) := by
  induction desireList generalizing index with
  | nil => rfl
  | cons desire desireList ih =>
      rw [shows_cons, not_or] at h
      rw [matchLoop, if_neg (by rw [strstr_eq_true]; exact h.1), ih h.2]

/-- With two patterns, the index tells whether the first of them occurs. -/
theorem matchText_pair {comparer first second : CText} (h : Shows [first, second] comparer)
    (index : ℤ) :
    matchText comparer [first, second] (some index) =
      (true, some (if first <:+: comparer then 0 else 1)) := by
  by_cases hfirst : first <:+: comparer
  · simp [matchText, matchLoop, hfirst]
  · have hsecond : second <:+: comparer := by simpa [Shows, hfirst] using h
    simp [matchText, matchLoop, hfirst, hsecond]

/-! ### Waiting for a prompt -/

/-- **What a reader that waits for the patterns comes to**: one message after the other, until one
shows a pattern. -/
inductive Awaited
  | silent
  | lost (rest : List RecvResult)
  | found (text : CText) (rest : List RecvResult)

/-- The messages that are left. -/
def Awaited.rest : Awaited → List RecvResult
  | .silent => []
  | .lost rest => rest
  | .found _ rest => rest

/-- The messages are looked at one by one. -/
def await (patterns : List CText) : List RecvResult → Awaited
  | [] => .silent
  | .failed :: rest => .lost rest
  | .data bytes :: rest =>
      if Shows patterns (textOf bytes.val) then .found (textOf bytes.val) rest
      else await patterns rest

/-- What the event handler sends for an event. -/
def repliesTo (term : Option CText) : TelnetEvent → List Sent
  | .send buffer => [.reply buffer]
  | .ttype none =>
      [.reply [telnetIac, telnetSb, teloptTtype, ttypeIs], .reply (term.getD []),
        .reply [telnetIac, telnetSe]]
  | _ => []

/-- **A message does no harm**: it leaves room for a NUL in the buffer, and what libtelnet reads in
it is no request for the type of the terminal, unless `TERM` is set. -/
structure Wire.Handles (w : Wire) (bytes : List UInt8) : Prop where
  room : bytes.length < recvBufferSize
  term : .ttype none ∈ (telnetRecv w.mem w.receiver bytes).2 → w.term ≠ none

/-- The connection behind such a message. -/
def Wire.handled (w : Wire) (bytes : List UInt8) : Wire :=
  { w with receiver := (telnetRecv w.mem w.receiver bytes).1 }.send
    ((telnetRecv w.mem w.receiver bytes).2.flatMap (repliesTo w.term))

/-- The messages that are looked at do no harm. -/
def Fits (patterns : List CText) : List RecvResult → Wire → Prop
  | [], _ => True
  | .failed :: _, _ => True
  | .data bytes :: rest, w => (w.withRecvs rest).Handles bytes.val ∧
      (¬ Shows patterns (textOf bytes.val) →
        Fits patterns rest ((w.withRecvs rest).handled bytes.val))

/-- The connection behind the messages that are looked at. -/
def wireAfter (patterns : List CText) : List RecvResult → Wire → Wire
  | [], w => w.withRecvs []
  | .failed :: rest, w => w.withRecvs rest
  | .data bytes :: rest, w =>
      if Shows patterns (textOf bytes.val) then (w.withRecvs rest).handled bytes.val
      else wireAfter patterns rest ((w.withRecvs rest).handled bytes.val)

theorem shows_of_found {patterns : List CText} {recvs rest : List RecvResult} {text : CText}
    (h : await patterns recvs = .found text rest) : Shows patterns text := by
  induction recvs with
  | nil => cases h
  | cons r recvs ih =>
      cases r with
      | failed => cases h
      | data bytes =>
          rw [await] at h
          split at h
          · next hshows => cases h; exact hshows
          · exact ih h

/-- The events of a message that does no harm. -/
theorem handleEvents_eq {events : List TelnetEvent} {w : Wire}
    (h : .ttype none ∈ events → w.term ≠ none) :
    handleEvents events w = .ok (w.send (events.flatMap (repliesTo w.term))) := by
  induction events generalizing w with
  | nil => rw [List.flatMap_nil, Wire.send_nil, handleEvents]
  | cons ev events ih =>
      have hstep : eventHandler ev w = .ok (w.send (repliesTo w.term ev)) := by
        unfold eventHandler
        split
        · rfl
        · -- a request for the type of the terminal, which is answered with `TERM`
          obtain ⟨ttype, hterm⟩ := Option.ne_none_iff_exists'.1 (h List.mem_cons_self)
          simp [hterm, telnetTtypeIs, repliesTo, Wire.send_send]
        · next hsend httype =>
            have hnone : repliesTo w.term ev = [] := by
              unfold repliesTo
              split
              · next buffer => exact absurd rfl (hsend buffer)
              · exact absurd rfl httype
              · rfl
            rw [hnone, Wire.send_nil]
      have hrest := ih (w := w.send (repliesTo w.term ev))
        fun hmem => h (List.mem_cons_of_mem ev hmem)
      simp only [handleEvents, hstep, bind, Except.bind]
      rw [hrest, Wire.send_send, Wire.term_send, List.flatMap_cons]

/-- Without `TERM`, a request for the type of the terminal is not survived. -/
theorem handleEvents_null {events : List TelnetEvent} {w : Wire} (h : .ttype none ∈ events)
    (hterm : w.term = none) : ∃ w', handleEvents events w = .error (.nullText, w') := by
  induction events generalizing w with
  | nil => cases h
  | cons ev events ih =>
      rw [handleEvents]
      by_cases hev : ev = .ttype none
      · subst hev
        simp [eventHandler, telnetTtypeIs, hterm, bind, Except.bind]
      · have hrest := (List.mem_cons.1 h).resolve_left (Ne.symm hev)
        have hstep : ∃ w', eventHandler ev w = .ok w' ∧ w'.term = none := by
          unfold eventHandler
          split
          · exact ⟨_, rfl, hterm⟩
          · exact absurd rfl hev
          · exact ⟨w, rfl, hterm⟩
        obtain ⟨w', hw', hterm'⟩ := hstep
        obtain ⟨w'', hw''⟩ := ih hrest hterm'
        exact ⟨w'', by simp [hw', hw'', bind, Except.bind]⟩

theorem recvBytes_handle {n : ℕ} {bytes : List UInt8} {w : Wire} (h : w.Handles bytes) :
    recvBytes (.handle n) bytes w = .ok (textOf bytes, w.handled bytes) := by
  have hevents := handleEvents_eq (w := { w with
    receiver := (telnetRecv w.mem w.receiver bytes).1 }) h.term
  rw [recvBytes, if_neg h.room.ne, recvHandled, hevents]
  rfl

/-- **The faults of a message**: the NUL is stored outside the buffer, or `strlen` is handed `NULL`.
-/
theorem recvBytes_fault (n : ℕ) {bytes : List UInt8} {w : Wire} (hle : bytes.length ≤ recvBufferSize)
    (h : ¬ w.Handles bytes) :
    ∃ halt w', recvBytes (.handle n) bytes w = .error (halt, w') ∧
      (halt = .outOfBounds ∨ halt = .nullText) := by
  by_cases hroom : bytes.length < recvBufferSize
  · have hrequest : ¬ (.ttype none ∈ (telnetRecv w.mem w.receiver bytes).2 → w.term ≠ none) :=
      fun hterm => h ⟨hroom, hterm⟩
    rw [Classical.not_imp, not_not] at hrequest
    obtain ⟨w', hw'⟩ := handleEvents_null (w := { w with
      receiver := (telnetRecv w.mem w.receiver bytes).1 }) hrequest.1 hrequest.2
    refine ⟨.nullText, w', ?_, Or.inr rfl⟩
    rw [recvBytes, if_neg hroom.ne, recvHandled, hw']
    rfl
  · exact ⟨.outOfBounds, w, by rw [recvBytes, if_pos (le_antisymm hle (not_lt.1 hroom))],
      Or.inl rfl⟩

/-- How the loop ends, when what it comes to is known. -/
def recvEnd (desireList : List CText) (matchIndex : Option ℤ) (w : Wire) :
    Awaited → Talk ((Ret × Option ℤ) × Wire)
  | .silent => .error (.waiting, w)
  | .lost _ => .ok ((.fail, matchIndex), w)
  | .found text _ => .ok ((.ok, (matchText text desireList matchIndex).2), w)

/-- **The loop waits for a message that shows a pattern.** -/
theorem recvLoop_eq (n : ℕ) (desireList : List CText) (matchIndex : Option ℤ)
    {recvs : List RecvResult} {w : Wire} (h : Fits desireList recvs w) :
    recvLoop (.handle n) desireList matchIndex recvs w =
      recvEnd desireList matchIndex (wireAfter desireList recvs w) (await desireList recvs) := by
  induction recvs generalizing w with
  | nil => rfl
  | cons r recvs ih =>
      cases r with
      | failed => rfl
      | data bytes =>
          obtain ⟨hhandles, hrest⟩ := h
          rw [recvLoop, recvBytes_handle hhandles, await, wireAfter]
          by_cases hshows : Shows desireList (textOf bytes.val)
          · rw [if_pos hshows, if_pos hshows]
            exact if_pos (matchLoop_of_shows hshows)
          · rw [if_neg hshows, if_neg hshows, ← ih (hrest hshows)]
            simp only [matchText, matchLoop_of_not_shows hshows, Bool.false_eq_true, if_false]

/-- A message that does harm. -/
theorem recvLoop_fault (n : ℕ) {desireList : List CText} (matchIndex : Option ℤ)
    {recvs : List RecvResult} {w : Wire} (h : ¬ Fits desireList recvs w) :
    ∃ halt w', recvLoop (.handle n) desireList matchIndex recvs w = .error (halt, w') ∧
      (halt = .outOfBounds ∨ halt = .nullText) := by
  induction recvs generalizing w with
  | nil => exact absurd trivial h
  | cons r recvs ih =>
      cases r with
      | failed => exact absurd trivial h
      | data bytes =>
          rw [recvLoop]
          by_cases hhandles : (w.withRecvs recvs).Handles bytes.val
          · have hrest : ¬ (¬ Shows desireList (textOf bytes.val) →
                Fits desireList recvs ((w.withRecvs recvs).handled bytes.val)) :=
              fun hrest => h ⟨hhandles, hrest⟩
            rw [Classical.not_imp] at hrest
            obtain ⟨hshows, hfits⟩ := hrest
            rw [recvBytes_handle hhandles]
            simp only [matchText, matchLoop_of_not_shows hshows, Bool.false_eq_true, if_false]
            exact ih hfits
          · obtain ⟨halt, w', hrun, hhalt⟩ := recvBytes_fault n bytes.property.2 hhandles
            rw [hrun]
            exact ⟨halt, w', rfl, hhalt⟩

/-- What is left to be received behind the messages that are looked at. -/
theorem recvs_wireAfter (patterns : List CText) (recvs : List RecvResult) (w : Wire) :
    (wireAfter patterns recvs w).recvs = (await patterns recvs).rest := by
  induction recvs generalizing w with
  | nil => rfl
  | cons r recvs ih =>
      cases r with
      | failed => rfl
      | data bytes =>
          rw [await, wireAfter]
          split
          · rfl
          · exact ih _

/-! ### Streams cut into pieces -/

/-- What one `recv` returns of a text without NUL and `TELNET_IAC`. -/
abbrev TextChunk : Type :=
  { b : List UInt8 // b ≠ [] ∧ b.length < recvBufferSize ∧ 0 ∉ b ∧ telnetIac ∉ b }

def TextChunk.received (c : TextChunk) : RecvResult := .data ⟨c.val, c.2.1, c.2.2.1.le⟩

theorem TextChunk.textOf_val (c : TextChunk) : textOf c.val = c.val := by
  rw [textOf, List.takeWhile_eq_self_iff]
  intro b hb
  rw [bne_iff_ne]
  rintro rfl
  exact c.2.2.2.1 hb

/-- The text that the pieces make up. -/
def textOfChunks (chunks : List TextChunk) : CText := (chunks.map Subtype.val).flatten

/-- A piece does no harm and brings no reply, when libtelnet is between two commands. -/
theorem TextChunk.handled (c : TextChunk) {w : Wire} (h : w.receiver.state = .data) :
    w.Handles c.val ∧ w.handled c.val = w := by
  have hrecv := telnetRecv_plain w.mem h c.2.2.2.2
  refine ⟨⟨c.2.2.1, fun hmem => ?_⟩, ?_⟩
  · rw [hrecv, pendingData] at hmem
    split at hmem <;> simp at hmem
  · have hnone : (pendingData c.val 0 c.val.length).flatMap (repliesTo w.term) = [] := by
      rw [pendingData]
      split <;> rfl
    rw [Wire.handled, hrecv, hnone, Wire.send_nil]

theorem fits_received (patterns : List CText) (chunks : List TextChunk) {w : Wire}
    (h : w.receiver.state = .data) : Fits patterns (chunks.map TextChunk.received) w := by
  induction chunks generalizing w with
  | nil => trivial
  | cons c chunks ih =>
      have hc := c.handled (w := w.withRecvs (chunks.map TextChunk.received)) h
      refine ⟨hc.1, fun _ => ?_⟩
      rw [hc.2]
      exact ih h

/-- Of the connection, the pieces leave what is still to come. -/
theorem wireAfter_received (patterns : List CText) (chunks : List TextChunk) {w : Wire}
    (h : w.receiver.state = .data) :
    wireAfter patterns (chunks.map TextChunk.received) w =
      w.withRecvs (await patterns (chunks.map TextChunk.received)).rest := by
  induction chunks generalizing w with
  | nil => rfl
  | cons c chunks ih =>
      have hc := c.handled (w := w.withRecvs (chunks.map TextChunk.received)) h
      rw [List.map_cons, TextChunk.received, wireAfter, await, hc.2]
      split
      · rfl
      · exact ih (w := w.withRecvs (chunks.map TextChunk.received)) h

/-- Pieces that show no pattern by themselves are passed over. -/
theorem await_skip {patterns : List CText} {pre : List TextChunk} (post : List TextChunk)
    (hpre : ∀ d ∈ pre, ¬ Shows patterns d.val) :
    await patterns ((pre ++ post).map TextChunk.received) =
      await patterns (post.map TextChunk.received) := by
  induction pre with
  | nil => rfl
  | cons d pre ih =>
      rw [List.cons_append, List.map_cons, TextChunk.received, await,
        if_neg (by rw [d.textOf_val]; exact hpre d List.mem_cons_self)]
      exact ih fun e he => hpre e (List.mem_cons_of_mem d he)

/-- The first piece that shows a pattern by itself. -/
theorem await_received {patterns : List CText} {pre post : List TextChunk} {c : TextChunk}
    (hpre : ∀ d ∈ pre, ¬ Shows patterns d.val) (hc : Shows patterns c.val) :
    await patterns ((pre ++ c :: post).map TextChunk.received) =
      .found c.val (post.map TextChunk.received) := by
  have htext := c.textOf_val
  rw [await_skip _ hpre, List.map_cons, TextChunk.received, await, if_pos (by rwa [htext]), htext]

theorem await_received_silent {patterns : List CText} {chunks : List TextChunk}
    (h : ∀ d ∈ chunks, ¬ Shows patterns d.val) :
    await patterns (chunks.map TextChunk.received) = .silent := by
  have hskip := await_skip [] h
  rwa [List.append_nil] at hskip

/-- What is found takes at least one message. -/
theorem length_lt_of_found {patterns : List CText} {recvs rest : List RecvResult} {text : CText}
    (h : await patterns recvs = .found text rest) : rest.length < recvs.length := by
  induction recvs with
  | nil => cases h
  | cons r recvs ih =>
      cases r with
      | failed => cases h
      | data bytes =>
          rw [await] at h
          split at h
          · cases h; exact Nat.lt_succ_self _
          · exact (ih h).trans (Nat.lt_succ_self _)

/-- A text that shows no pattern has no piece that does. -/
theorem not_shows_of_mem {patterns : List CText} {chunks : List TextChunk}
    (h : ¬ Shows patterns (textOfChunks chunks)) {d : TextChunk} (hd : d ∈ chunks) :
    ¬ Shows patterns d.val :=
  fun hshows => h (hshows.flatten (List.mem_map_of_mem hd))

/-- **What the callers rely on**, for a stream that arrives in the pieces: the loop returns with the
piece with which the text received so far first shows a pattern, and waits if there is none. -/
def Segmented (thiz : TelnetCommander) (patterns : List CText) (matchIndex : Option ℤ)
    (chunks : List TextChunk) (w : Wire) : Prop :=
  (∀ pre c post, chunks = pre ++ c :: post → ¬ Shows patterns (textOfChunks pre) →
    Shows patterns (textOfChunks pre ++ c.val) →
      ∃ index, recvUntilMatch thiz patterns matchIndex
          (w.withRecvs (chunks.map TextChunk.received)) =
        .ok ((.ok, index), w.withRecvs (post.map TextChunk.received))) ∧
  (¬ Shows patterns (textOfChunks chunks) →
    recvUntilMatch thiz patterns matchIndex (w.withRecvs (chunks.map TextChunk.received)) =
      .error (.waiting, w.withRecvs []))

/-- **When the loop returns with the right piece**: exactly if no pattern that straddles a border
between two pieces is the first to be seen.  libtelnet is between two commands, as it is from
`telnet_init` on in a stream without `TELNET_IAC`. -/
theorem segmented_iff {patterns : List CText} (hne : ∀ p ∈ patterns, p ≠ []) (n socket : ℕ)
    (matchIndex : Option ℤ) (chunks : List TextChunk) {w : Wire}
    (hstate : w.receiver.state = .data) :
    Segmented ⟨.handle n, some socket⟩ patterns matchIndex chunks w ↔
      WholeFirst patterns (chunks.map Subtype.val) := by
  have hrun : recvUntilMatch ⟨.handle n, some socket⟩ patterns matchIndex
      (w.withRecvs (chunks.map TextChunk.received)) =
        recvEnd patterns matchIndex
          (w.withRecvs (await patterns (chunks.map TextChunk.received)).rest)
          (await patterns (chunks.map TextChunk.received)) := by
    have hstate' : (w.withRecvs (chunks.map TextChunk.received)).receiver.state = .data := hstate
    have hloop := recvLoop_eq n patterns matchIndex (fits_received patterns chunks hstate')
    rw [wireAfter_received patterns chunks hstate'] at hloop
    exact hloop
  rw [← shows_piece_iff hne, Segmented, hrun]
  constructor
  · rintro ⟨hfound, -⟩ pre piece post hpieces hpre hfirst
    obtain ⟨pre, rest, rfl, rfl, hrest⟩ := List.map_eq_append_iff.1 hpieces
    obtain ⟨c, post, rfl, rfl, rfl⟩ := List.map_eq_cons_iff.1 hrest
    by_contra hc
    -- the loop passes over the piece as well, and returns with a later one or not at all
    have hskip : ∀ d ∈ pre ++ [c], ¬ Shows patterns d.val := by
      intro d hd
      rcases List.mem_append.1 hd with hd | hd
      · exact not_shows_of_mem hpre hd
      · rwa [List.mem_singleton.1 hd]
    obtain ⟨index, hend⟩ := hfound pre c post rfl hpre hfirst
    rw [List.append_cons, await_skip post hskip] at hend
    cases hawait : await patterns (post.map TextChunk.received) with
    | silent => rw [hawait] at hend; cases hend
    | lost rest => rw [hawait] at hend; cases hend
    | found text rest =>
        rw [hawait] at hend
        cases hend
        exact (length_lt_of_found hawait).false
  · intro h
    refine ⟨fun pre c post hchunks hpre hfirst => ?_, fun hnone => ?_⟩
    · have hc : Shows patterns c.val :=
        h (pre.map Subtype.val) c.val (post.map Subtype.val) (by simp [hchunks]) hpre hfirst
      rw [hchunks, await_received (fun d hd => not_shows_of_mem hpre hd) hc]
      exact ⟨_, rfl⟩
    · rw [await_received_silent fun d hd => not_shows_of_mem hnone hd]
      rfl

/-- The table `telopts` of the telnet commander: `ECHO`, `TTYPE`, `COMPRESS2` and `MSSP`. -/
def commanderTelopts : List Telopt :=
  [⟨1, Verb.wont.byte, Verb.doIt.byte⟩, ⟨teloptTtype, Verb.will.byte, Verb.dont.byte⟩,
    ⟨86, Verb.wont.byte, Verb.doIt.byte⟩, ⟨teloptMssp, Verb.wont.byte, Verb.doIt.byte⟩]

/-- The connection as `telnet_commander_connect` leaves it, without `TERM`. -/
def newWire (recvs : List RecvResult) : Wire where
  recvs := recvs
  receiver := telnetInit commanderTelopts false
  mem := fun _ => true
  term := none
  sent := []

/-- A prompt, and the first character of another one, which ends in the second piece. -/
def twoPrompts : List TextChunk := [⟨literal "ls ]# ]", by decide⟩, ⟨literal "# ", by decide⟩]

/-- A prompt that straddles is not noticed, but the one in front of it is. -/
theorem twoPrompts_segmented :
    Segmented ⟨.handle 0, some 0⟩ [prompt] none twoPrompts (newWire []) := by
  refine (segmented_iff (by decide) 0 0 none twoPrompts rfl).2 fun pre piece post h _ => ?_
  refine ⟨literal "ls ]# ]", ?_, by decide⟩
  cases pre with
  | nil => cases h; exact List.mem_cons_self
  | cons d pre =>
      have hd : literal "ls ]# ]" = d := (List.cons.inj h).1
      rw [hd]
      exact List.mem_cons_self

/-- The two characters of the prompt in two pieces. -/
def splitPrompt : List TextChunk := [⟨literal "]", by decide⟩, ⟨literal "#", by decide⟩]

/-- A prompt that arrives in two pieces is not noticed: the loop waits for more. -/
theorem splitPrompt_missed :
    ¬ Segmented ⟨.handle 0, some 0⟩ [prompt] none splitPrompt (newWire []) := by
  rintro ⟨hfound, -⟩
  obtain ⟨index, hrun⟩ := hfound [⟨literal "]", by decide⟩] ⟨literal "#", by decide⟩ [] rfl
    (by decide) (by decide)
  have hwaits : recvUntilMatch ⟨.handle 0, some 0⟩ [prompt] none
      ((newWire []).withRecvs (splitPrompt.map TextChunk.received)) =
        .error (.waiting, (newWire []).withRecvs []) := rfl
  rw [hwaits] at hrun
  cases hrun

end Wsn
