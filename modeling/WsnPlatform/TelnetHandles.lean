/-
**The handle of the telnet commander.**

`telnet_init` returns a handle that `telnet_commander_close` is to free.  Between the two the handle
is in the field `telnet`; `telnet_commander_create` leaves this field unset, and a `connect` that
succeeds in `socket` overwrites it.

Main definitions:

* `TelnetCall`, `telnetStep` — a call on the commander;
* `HandlesKept` — what a call does to the handles if it is right about them;
* `InOrder` — the rows of calls that the commander can work with;
* `FindsField` — the calls that find the field in a state they can work with.

Main results:

* `telnetCommanderClose_handles`, `telnetCommanderConnect_handles` — what closing and connecting do
  to the handles;
* `InOrder.findsField` — calls in order find the field as they need it;
* `telnet_handles_kept` — in a run of calls in order, every call is right about the handles.
-/

import WsnPlatform.TelnetCommander
import WsnPlatform.FaultRun

set_option relaxedAutoImplicit false
set_option autoImplicit false

namespace Wsn

open FaultRun

/-! ### Calls -/

/-- A call on a telnet commander, with what the calls that it makes return, and the connection that
it finds. -/
inductive TelnetCall
  | connect (ipAddress : Option CText) (env : TelnetConnectEnv)
  | login (username pass : Option CText) (w : Wire)
  | sendOneLine (input : Option CText) (w : Wire)
  | close

/-- A call that talks to the target, apart from what it sends. -/
def talkStep (s : TelnetState) (talk : Talk (Ret × Wire)) : Except TelnetHalt (Ret × TelnetState) :=
  match talk with
  | .error e => .error e.1
  | .ok r => .ok (r.1, s)

/-- **A call on the commander.** -/
def telnetStep (s : TelnetState) : TelnetCall → Except TelnetHalt (Ret × TelnetState)
  | .connect ipAddress env => telnetCommanderConnect ipAddress env s
  | .login username pass w => talkStep s (telnetCommanderLogin s.thiz username pass w)
  | .sendOneLine input w => talkStep s (telnetCommanderSendOneLine s.thiz input w)
  | .close => telnetCommanderClose s

/-- The commander after `telnet_commander_create`. -/
def telnetStart : TelnetState := ⟨telnetCommanderCreate, .empty, .empty⟩

/-- The handle in the field. -/
def TelnetField.held : TelnetField → List ℕ
  | .handle n => [n]
  | _ => []

/-- The call runs `telnet_commander_close`, directly or on a failure to connect. -/
def Closes : TelnetCall → Ret → Prop
  | .connect _ _, ret => ret = .fail
  | .close, _ => True
  | _, _ => False

/-- **A call that is right about the handles**: it does not read the field before it was assigned;
it frees only handles that `telnet_init` returned, and none twice; and closing frees every handle.
-/
def HandlesKept (s : TelnetState) (call : TelnetCall) : Prop :=
  telnetStep s call ≠ .error .unassigned ∧
  ∀ o, telnetStep s call = .ok o →
    o.2.handles.Sound ∧ (Closes call o.1 → o.2.handles.Settled)

/-- **The calls that find the field as they need it**: it was assigned, unless the call assigns it
or does not come to read it; and no handle is in it when another one is stored there. -/
def FindsField (s : TelnetState) : TelnetCall → Prop
  | .connect ipAddress env => ipAddress ≠ none →
      if env.socket then s.thiz.telnet.held = [] else s.thiz.telnet ≠ .unassigned
  | .login _ _ _ => True
  | .sendOneLine input _ => input ≠ none → s.thiz.telnet ≠ .unassigned
  | .close => s.thiz.telnet ≠ .unassigned

/-! ### Calls in order -/

/-- A `connect` that succeeds in `socket`: it assigns the field. -/
def TelnetCall.opens : TelnetCall → Bool
  | .connect (some _) env => env.socket
  | _ => false

/-- A `connect` that fails in `socket`. -/
def TelnetCall.failsInSocket : TelnetCall → Bool
  | .connect (some _) env => !env.socket
  | _ => false

/-- A call that reads the field at once: `close`, `send_one_line`, and a `connect` that fails in
`socket`. -/
def TelnetCall.reads : TelnetCall → Bool
  | .sendOneLine (some _) _ => true
  | .close => true
  | call => call.failsInSocket

/-- A `connect` that leaves a handle in the field. -/
def TelnetCall.leavesHandle : TelnetCall → Bool
  | .connect (some _) env => env.socket && env.telnetInit && env.connect
  | _ => false

/-- A call that closes what was left: `close`, and a `connect` that fails in `socket`. -/
def TelnetCall.closes : TelnetCall → Bool
  | .close => true
  | call => call.failsInSocket

/-- Behind a `connect` that leaves a handle, none succeeds in `socket` before a call that closes. -/
def OneHandle : List TelnetCall → Prop
  | [] => True
  | call :: calls =>
      (call.leavesHandle = true → ∀ c ∈ calls.takeWhile fun c => !c.closes, c.opens = false) ∧
        OneHandle calls

/-- **Calls in order**: none that reads the field stands in front of the first `connect` that
succeeds in `socket`, and there is one handle at a time. -/
structure InOrder (calls : List TelnetCall) : Prop where
  assigned : ∀ c ∈ calls.takeWhile fun c => !c.opens, c.reads = false
  oneHandle : OneHandle calls

/-! ### Closing and connecting -/

theorem telnetCommanderClose_eq {s : TelnetState} (h : s.thiz.telnet ≠ .unassigned) :
    ∃ s', telnetCommanderClose s = .ok (.ok, s') ∧ s'.thiz = ⟨.null, none⟩ := by
  rw [telnetCommanderClose]
  cases htelnet : s.thiz.telnet with
  | unassigned => exact absurd htelnet h
  | null => exact ⟨_, rfl, rfl⟩
  | handle n => exact ⟨_, rfl, rfl⟩

/-- What closing leaves of the commander, when it returns. -/
theorem telnetCommanderClose_thiz {s : TelnetState} {o : Ret × TelnetState}
    (h : telnetCommanderClose s = .ok o) : o.2.thiz = ⟨.null, none⟩ := by
  have htelnet : s.thiz.telnet ≠ .unassigned := by
    intro hun
    rw [telnetCommanderClose, hun] at h
    cases h
  obtain ⟨s', hclose, hthiz⟩ := telnetCommanderClose_eq htelnet
  rw [hclose] at h
  cases h
  exact hthiz

/-- **Closing frees the handle.** -/
theorem telnetCommanderClose_handles {s : TelnetState} {o : Ret × TelnetState}
    (hs : s.handles.Holds s.thiz.telnet.held) (h : telnetCommanderClose s = .ok o) :
    o.2.thiz = ⟨.null, none⟩ ∧ o.2.handles.Holds [] := by
  rw [telnetCommanderClose] at h
  cases htelnet : s.thiz.telnet with
  | unassigned => rw [htelnet] at h; cases h
  | null =>
      rw [htelnet] at h hs
      cases h
      exact ⟨rfl, hs⟩
  | handle n =>
      rw [htelnet] at h hs
      cases h
      exact ⟨rfl, hs.release⟩

/-- Closing closes the socket. -/
theorem telnetCommanderClose_sockets {s : TelnetState} {o : Ret × TelnetState} {others : List ℕ}
    (hs : s.sockets.Holds (s.thiz.socket.toList ++ others)) (h : telnetCommanderClose s = .ok o) :
    o.2.sockets.Holds others := by
  rw [telnetCommanderClose] at h
  cases hsocket : s.thiz.socket with
  | none =>
    rw [hsocket] at h hs
    cases htelnet : s.thiz.telnet <;> rw [htelnet] at h <;> cases h <;> exact hs
  | some socket =>
    rw [hsocket] at h hs
    cases htelnet : s.thiz.telnet <;> rw [htelnet] at h <;> cases h <;> exact hs.release

/-- The handle of a new connection is in the field. -/
theorem telnetOpen_handles {s : TelnetState} (hs : s.handles.Holds []) (telnetInit : Bool) :
    (telnetOpen s telnetInit).handles.Holds (telnetOpen s telnetInit).thiz.telnet.held := by
  cases telnetInit with
  | false => exact hs
  | true => exact hs.issue

theorem telnetOpen_telnet (s : TelnetState) (telnetInit : Bool) :
    (telnetOpen s telnetInit).thiz.telnet ≠ .unassigned := by
  cases telnetInit <;> exact TelnetField.noConfusion

theorem telnetConnectFail_eq_ok {s : TelnetState} {o : Ret × TelnetState}
    (h : telnetConnectFail s = .ok o) :
    o.1 = .fail ∧ ∃ r, telnetCommanderClose s = .ok r ∧ r.2 = o.2 := by
  rw [telnetConnectFail] at h
  cases hclose : telnetCommanderClose s with
  | error e => rw [hclose] at h; cases h
  | ok r => rw [hclose] at h; cases h; exact ⟨rfl, r, rfl, rfl⟩

theorem telnetConnectFail_thiz {s : TelnetState} {o : Ret × TelnetState}
    (h : telnetConnectFail s = .ok o) : o.2.thiz = ⟨.null, none⟩ := by
  obtain ⟨-, r, hclose, hr⟩ := telnetConnectFail_eq_ok h
  rw [← hr]
  exact telnetCommanderClose_thiz hclose

theorem telnetConnectFail_ne {s : TelnetState} (h : s.thiz.telnet ≠ .unassigned) :
    telnetConnectFail s ≠ .error .unassigned := by
  obtain ⟨s', hclose, -⟩ := telnetCommanderClose_eq h
  rw [telnetConnectFail, hclose]
  exact fun h => by cases h

/-- **Connecting**: the handle of the connection is in the field, or every handle is freed. -/
theorem telnetCommanderConnect_handles {ipAddress : Option CText} {env : TelnetConnectEnv}
    {s : TelnetState} {o : Ret × TelnetState} (hs : s.handles.Holds s.thiz.telnet.held)
    (hfield : FindsField s (.connect ipAddress env))
    (h : telnetCommanderConnect ipAddress env s = .ok o) :
    o.2.handles.Holds o.2.thiz.telnet.held ∧ (o.1 = .fail → o.2.handles.Holds []) := by
  rw [telnetCommanderConnect] at h
  split at h
  · cases h
    exact ⟨hs, fun hfail => by cases hfail⟩
  · next hip =>
      have hfree : env.socket = true → s.handles.Holds [] := by
        intro hsocket
        have hheld := hfield hip
        rw [if_pos hsocket] at hheld
        rwa [hheld] at hs
      split at h
      · have hs' : s.withoutSocket.handles.Holds s.withoutSocket.thiz.telnet.held := hs
        obtain ⟨hret, r, hclose, hr⟩ := telnetConnectFail_eq_ok h
        obtain ⟨hthiz, hhandles⟩ := telnetCommanderClose_handles hs' hclose
        rw [← hr, hthiz]
        exact ⟨hhandles, fun _ => hhandles⟩
      · next hsocket =>
          have hopen := telnetOpen_handles (hfree (by simpa using hsocket)) env.telnetInit
          split at h
          · cases h
            exact ⟨hopen, fun hfail => by cases hfail⟩
          · obtain ⟨hret, r, hclose, hr⟩ := telnetConnectFail_eq_ok h
            obtain ⟨hthiz, hhandles⟩ := telnetCommanderClose_handles hopen hclose
            rw [← hr, hthiz]
            exact ⟨hhandles, fun _ => hhandles⟩

/-! ### Talking -/

/-- A call does not end because the field was not assigned. -/
def ReadsAssigned {α : Type} (talk : Talk α) : Prop := ∀ w, talk ≠ .error (.unassigned, w)

theorem readsAssigned_ok {α : Type} (a : α) : ReadsAssigned (.ok a) := by
  intro w h
  cases h

theorem ReadsAssigned.bind {α β : Type} {talk : Talk α} {f : α → Talk β} (h : ReadsAssigned talk)
    (hf : ∀ a, ReadsAssigned (f a)) : ReadsAssigned (talk >>= f) := by
  cases talk with
  | error e =>
      intro w heq
      cases heq
      exact h w rfl
  | ok a => exact hf a

theorem readsAssigned_send {telnet : TelnetField} (h : telnet ≠ .unassigned) (text : CText)
    (w : Wire) : ReadsAssigned (telnetSend telnet text w) := by
  intro w' heq
  cases telnet with
  | unassigned => exact h rfl
  | null =>
      rw [telnetSend] at heq
      split at heq <;> cases heq
  | handle n => cases heq

theorem readsAssigned_events (events : List TelnetEvent) (w : Wire) :
    ReadsAssigned (handleEvents events w) := by
  induction events generalizing w with
  | nil => exact readsAssigned_ok _
  | cons ev events ih =>
      refine ReadsAssigned.bind ?_ ih
      unfold eventHandler
      split
      · exact readsAssigned_ok _
      · intro w' heq
        simp only [telnetTtypeIs] at heq
        split at heq <;> cases heq
      · exact readsAssigned_ok _

theorem readsAssigned_bytes {telnet : TelnetField} (h : telnet ≠ .unassigned)
    (bytes : List UInt8) (w : Wire) : ReadsAssigned (recvBytes telnet bytes w) := by
  unfold recvBytes
  split
  · intro w' heq
    cases heq
  · refine ReadsAssigned.bind ?_ fun w => readsAssigned_ok _
    cases telnet with
    | unassigned => exact absurd rfl h
    | null =>
        intro w' heq
        cases heq
    | handle n => exact readsAssigned_events _ _

theorem readsAssigned_recv {thiz : TelnetCommander}
    (h : thiz.socket ≠ none → thiz.telnet ≠ .unassigned) (desireList : List CText)
    (matchIndex : Option ℤ) (w : Wire) :
    ReadsAssigned (recvUntilMatch thiz desireList matchIndex w) := by
  rw [recvUntilMatch]
  cases hsocket : thiz.socket with
  | none => exact readsAssigned_ok _
  | some socket =>
      have htelnet := h (by rw [hsocket]; exact Option.some_ne_none socket)
      dsimp only
      generalize w.recvs = recvs
      induction recvs generalizing matchIndex w with
      | nil => intro w' heq; cases heq
      | cons r recvs ih =>
          cases r with
          | failed => exact readsAssigned_ok _
          | data bytes =>
              rw [recvLoop]
              have hbytes := readsAssigned_bytes htelnet bytes.val (w.withRecvs recvs)
              cases hrun : recvBytes thiz.telnet bytes.val (w.withRecvs recvs) with
              | error e =>
                  rw [hrun] at hbytes
                  intro w' heq
                  cases heq
                  exact hbytes w' rfl
              | ok r =>
                  dsimp only
                  split
                  · exact readsAssigned_ok _
                  · exact ih _ _

/-- Sending one line reads the field at once. -/
theorem readsAssigned_sendOneLine {thiz : TelnetCommander} {input : Option CText}
    (h : input ≠ none → thiz.telnet ≠ .unassigned) (w : Wire) :
    ReadsAssigned (telnetCommanderSendOneLine thiz input w) := by
  cases input with
  | none => exact readsAssigned_ok _
  | some input =>
      have htelnet := h (Option.some_ne_none input)
      refine (readsAssigned_send htelnet input w).bind fun w => ?_
      refine (readsAssigned_recv (fun _ => htelnet) [prompt] none w).bind fun r => ?_
      dsimp only
      split <;> exact readsAssigned_ok _

theorem readsAssigned_password {thiz : TelnetCommander} (h : thiz.telnet ≠ .unassigned)
    (pass : CText) (w : Wire) : ReadsAssigned (loginWithPassword thiz pass w) := by
  rw [loginWithPassword]
  split
  · exact readsAssigned_ok _
  · refine (readsAssigned_send h pass w).bind fun w => ?_
    refine (readsAssigned_send h crlf w).bind fun w => ?_
    refine (readsAssigned_recv (fun _ => h) [loginFail, prompt] none w).bind fun r => ?_
    dsimp only
    split <;> [skip; split] <;> exact readsAssigned_ok _

theorem readsAssigned_username {thiz : TelnetCommander} (h : thiz.telnet ≠ .unassigned)
    (username pass : CText) (w : Wire) :
    ReadsAssigned (loginWithUsername thiz username pass w) := by
  refine (readsAssigned_send h username w).bind fun w => ?_
  refine (readsAssigned_send h crlf w).bind fun w => ?_
  refine (readsAssigned_recv (fun _ => h) [password, prompt] (some (-1)) w).bind fun r => ?_
  dsimp only
  split
  · exact readsAssigned_ok _
  · split
    · exact readsAssigned_password h pass _
    · exact readsAssigned_ok _

/-- A login reads the field once it has received something, for which it needs a socket. -/
theorem readsAssigned_login {thiz : TelnetCommander}
    (h : thiz.socket ≠ none → thiz.telnet ≠ .unassigned) (username pass : Option CText) (w : Wire) :
    ReadsAssigned (telnetCommanderLogin thiz username pass w) := by
  rcases username with - | username
  · exact readsAssigned_ok _
  rcases pass with - | pass
  · exact readsAssigned_ok _
  cases hsocket : thiz.socket with
  | none =>
      -- `recv` fails on the socket `-1`, so that the call ends before it sends something
      rw [telnetCommanderLogin, recvUntilMatch, hsocket]
      exact readsAssigned_ok _
  | some socket =>
      have htelnet := h (by rw [hsocket]; exact Option.some_ne_none socket)
      refine (readsAssigned_recv h [login] none w).bind fun r => ?_
      dsimp only
      split
      · exact readsAssigned_ok _
      · exact readsAssigned_username htelnet username pass _

/-! ### Runs -/

/-- **Between two calls**: the handle that is not freed is in the field, and a commander with a
socket has assigned it. -/
structure HandleHeld (s : TelnetState) : Prop where
  holds : s.handles.Holds s.thiz.telnet.held
  assigned : s.thiz.socket ≠ none → s.thiz.telnet ≠ .unassigned

theorem handleHeld_start : HandleHeld telnetStart :=
  ⟨Ledger.holds_empty, fun h => absurd rfl h⟩

section Step

variable {s : TelnetState} {ipAddress : Option CText} {env : TelnetConnectEnv}
  {o : Ret × TelnetState}

theorem HandleHeld.close (hs : HandleHeld s) (h : telnetCommanderClose s = .ok o) :
    HandleHeld o.2 ∧ o.2.handles.Settled := by
  obtain ⟨hthiz, hhandles⟩ := telnetCommanderClose_handles hs.holds h
  refine ⟨⟨by rw [hthiz]; exact hhandles, fun hne => ?_⟩, hhandles.settled_iff.2 rfl⟩
  rw [hthiz] at hne
  exact absurd rfl hne

/-- A socket that is left after connecting comes with a field that was assigned. -/
theorem telnetCommanderConnect_assigned (hs : s.thiz.socket ≠ none → s.thiz.telnet ≠ .unassigned)
    (h : telnetCommanderConnect ipAddress env s = .ok o) :
    o.2.thiz.socket ≠ none → o.2.thiz.telnet ≠ .unassigned := by
  have hfail : ∀ t : TelnetState, telnetConnectFail t = .ok o →
      o.2.thiz.socket ≠ none → o.2.thiz.telnet ≠ .unassigned := by
    intro t ht hne
    rw [telnetConnectFail_thiz ht] at hne
    exact absurd rfl hne
  rw [telnetCommanderConnect] at h
  split at h
  · cases h; exact hs
  · split at h
    · exact hfail _ h
    · split at h
      · cases h; exact fun _ => telnetOpen_telnet s env.telnetInit
      · exact hfail _ h

theorem HandleHeld.connect (hs : HandleHeld s) (hfield : FindsField s (.connect ipAddress env))
    (h : telnetCommanderConnect ipAddress env s = .ok o) :
    HandleHeld o.2 ∧ (o.1 = .fail → o.2.handles.Settled) := by
  obtain ⟨hholds, hfail⟩ := telnetCommanderConnect_handles hs.holds hfield h
  exact ⟨⟨hholds, telnetCommanderConnect_assigned hs.assigned h⟩,
    fun hret => (hfail hret).settled_iff.2 rfl⟩

/-- Connecting reads the field only when it was assigned. -/
theorem telnetCommanderConnect_ne (hfield : FindsField s (.connect ipAddress env)) :
    telnetCommanderConnect ipAddress env s ≠ .error .unassigned := by
  rw [telnetCommanderConnect]
  split
  · exact fun h => by cases h
  · next hip =>
      have hfield := hfield hip
      split
      · next hsocket =>
          rw [hsocket, if_neg Bool.false_ne_true] at hfield
          have hwithout : s.withoutSocket.thiz.telnet ≠ .unassigned := hfield
          exact telnetConnectFail_ne hwithout
      · split
        · exact fun h => by cases h
        · exact telnetConnectFail_ne (telnetOpen_telnet s env.telnetInit)

theorem talkStep_eq_ok {talk : Talk (Ret × Wire)} (h : talkStep s talk = .ok o) : o.2 = s := by
  cases talk with
  | error e => cases h
  | ok r => cases h; rfl

theorem talkStep_ne {talk : Talk (Ret × Wire)} (h : ReadsAssigned talk) :
    talkStep s talk ≠ .error .unassigned := by
  intro heq
  cases talk with
  | error e =>
      obtain ⟨halt, w⟩ := e
      cases heq
      exact h w rfl
  | ok r => cases heq

/-- **A call keeps what holds between two calls**, and closing frees every handle. -/
theorem HandleHeld.step {call : TelnetCall} (hs : HandleHeld s) (hfield : FindsField s call)
    (h : telnetStep s call = .ok o) :
    HandleHeld o.2 ∧ (Closes call o.1 → o.2.handles.Settled) := by
  cases call with
  | connect ipAddress env => exact hs.connect hfield h
  | login username pass w =>
      rw [talkStep_eq_ok h]
      exact ⟨hs, False.elim⟩
  | sendOneLine input w =>
      rw [talkStep_eq_ok h]
      exact ⟨hs, False.elim⟩
  | close =>
      obtain ⟨hheld, hsettled⟩ := hs.close h
      exact ⟨hheld, fun _ => hsettled⟩

/-- A call that finds the field as it needs it is right about the handles. -/
theorem HandleHeld.handlesKept {call : TelnetCall} (hs : HandleHeld s)
    (hfield : FindsField s call) : HandlesKept s call := by
  refine ⟨?_, fun o ho => ?_⟩
  · cases call with
    | connect ipAddress env => exact telnetCommanderConnect_ne hfield
    | login username pass w =>
        exact talkStep_ne (readsAssigned_login hs.assigned username pass _)
    | sendOneLine input w => exact talkStep_ne (readsAssigned_sendOneLine hfield _)
    | close =>
        obtain ⟨s', hclose, -⟩ := telnetCommanderClose_eq hfield
        rw [telnetStep, hclose]
        exact fun h => by cases h
  · obtain ⟨hheld, hsettled⟩ := hs.step hfield ho
    exact ⟨hheld.holds.sound, hsettled⟩

end Step

/-! ### Rows of calls -/

section Order

variable {s : TelnetState} {call : TelnetCall} {o : Ret × TelnetState}

/-- **What a call does to the field**: behind it the field is unassigned only if it was before and
the call does not open; and it holds a handle only if the call has left it there, or if it was there
before and the call does not close. -/
theorem telnetStep_field (h : telnetStep s call = .ok o) :
    (o.2.thiz.telnet = .unassigned → s.thiz.telnet = .unassigned ∧ call.opens = false) ∧
      (o.2.thiz.telnet.held ≠ [] →
        call.leavesHandle = true ∨ s.thiz.telnet.held ≠ [] ∧ call.closes = false) := by
  have hclosed : o.2.thiz = ⟨.null, none⟩ →
      (o.2.thiz.telnet = .unassigned → s.thiz.telnet = .unassigned ∧ call.opens = false) ∧
        (o.2.thiz.telnet.held ≠ [] →
          call.leavesHandle = true ∨ s.thiz.telnet.held ≠ [] ∧ call.closes = false) := by
    intro hthiz
    rw [hthiz]
    exact ⟨(by intro hun; cases hun), fun hheld => absurd rfl hheld⟩
  cases call with
  | connect ipAddress env =>
      cases ipAddress with
      | none =>
          cases h
          exact ⟨fun hun => ⟨hun, rfl⟩, fun hheld => Or.inr ⟨hheld, rfl⟩⟩
      | some ipAddress =>
          rw [telnetStep, telnetCommanderConnect, if_neg (Option.some_ne_none ipAddress)] at h
          split_ifs at h with hsocket hconnect
          · exact hclosed (telnetConnectFail_thiz h)
          · cases h
            refine ⟨fun hun => absurd hun (telnetOpen_telnet s env.telnetInit), fun hheld => ?_⟩
            left
            cases hinit : env.telnetInit with
            | false =>
                rw [telnetOpen, hinit] at hheld
                exact absurd rfl hheld
            | true => simp [TelnetCall.leavesHandle, hinit, hconnect, hsocket]
          · -- what was opened is closed again, as `connect` has failed
            exact hclosed (telnetConnectFail_thiz h)
  | login username pass w =>
      rw [talkStep_eq_ok h]
      exact ⟨fun hun => ⟨hun, rfl⟩, fun hheld => Or.inr ⟨hheld, rfl⟩⟩
  | sendOneLine input w =>
      rw [talkStep_eq_ok h]
      exact ⟨fun hun => ⟨hun, rfl⟩, fun hheld => Or.inr ⟨hheld, rfl⟩⟩
  | close =>
      rw [telnetStep] at h
      exact hclosed (telnetCommanderClose_thiz h)

/-- What opens does not read. -/
theorem reads_of_opens (h : call.opens = true) : call.reads = false := by
  cases call with
  | connect ipAddress env =>
      cases ipAddress with
      | none => rfl
      | some ipAddress =>
          have hsocket : env.socket = true := h
          simp [TelnetCall.reads, TelnetCall.failsInSocket, hsocket]
  | login username pass w => cases h
  | sendOneLine input w => cases h
  | close => cases h

/-- What closes does not open. -/
theorem opens_of_closes (h : call.closes = true) : call.opens = false := by
  cases call with
  | connect ipAddress env =>
      cases ipAddress with
      | none => rfl
      | some ipAddress =>
          have hsocket : env.socket = false := by
            simpa [TelnetCall.closes, TelnetCall.failsInSocket] using h
          exact hsocket
  | login username pass w => cases h
  | sendOneLine input w => cases h
  | close => rfl

/-- A call that does not read an unassigned field, and opens only when no handle is in it. -/
theorem findsField_of_reads (hreads : s.thiz.telnet = .unassigned → call.reads = false)
    (hopens : s.thiz.telnet.held ≠ [] → call.opens = false) : FindsField s call := by
  cases call with
  | connect ipAddress env =>
      intro hip
      obtain ⟨ipAddress, rfl⟩ := Option.ne_none_iff_exists'.1 hip
      cases hsocket : env.socket with
      | true =>
          rw [if_pos rfl]
          by_contra hheld
          simp [TelnetCall.opens, hsocket] at hopens
          exact hheld hopens
      | false =>
          rw [if_neg Bool.false_ne_true]
          intro hun
          simp [TelnetCall.reads, TelnetCall.failsInSocket, hsocket] at hreads
          exact hreads hun
  | login username pass w => trivial
  | sendOneLine input w =>
      intro hinput hun
      obtain ⟨input, rfl⟩ := Option.ne_none_iff_exists'.1 hinput
      cases hreads hun
  | close =>
      intro hun
      cases hreads hun

/-- **Calls in order find the field as they need it.** -/
theorem findsField_along {calls : List TelnetCall} (hone : OneHandle calls)
    (hreads : s.thiz.telnet = .unassigned →
      ∀ c ∈ calls.takeWhile fun c => !c.opens, c.reads = false)
    (hopens : s.thiz.telnet.held ≠ [] →
      ∀ c ∈ calls.takeWhile fun c => !c.closes, c.opens = false) :
    Along telnetStep FindsField s calls := by
  induction calls generalizing s with
  | nil => trivial
  | cons call calls ih =>
      have hfinds : FindsField s call := by
        refine findsField_of_reads (fun hun => ?_) fun hheld => ?_
        · by_cases hcall : call.opens = true
          · exact reads_of_opens hcall
          · exact hreads hun call (by simp [hcall])
        · by_cases hcall : call.closes = true
          · exact opens_of_closes hcall
          · exact hopens hheld call (by simp [hcall])
      -- behind the call, the field comes from the call or was so before it
      refine ⟨hfinds, fun o ho => ih hone.2 (fun hun c hc => ?_) fun hheld c hc => ?_⟩
      · obtain ⟨hbefore, hcall⟩ := (telnetStep_field ho).1 hun
        exact hreads hbefore c (by simp [hcall, hc])
      · rcases (telnetStep_field ho).2 hheld with hleaves | ⟨hbefore, hcall⟩
        · exact hone.1 hleaves c hc
        · exact hopens hbefore c (by simp [hcall, hc])

theorem InOrder.findsField {calls : List TelnetCall} (h : InOrder calls) :
    Along telnetStep FindsField telnetStart calls :=
  findsField_along h.oneHandle (fun _ => h.assigned) fun hheld => absurd rfl hheld

end Order

/-- **The handles of a run.**  When the calls are in order, no call reads the field before it was
assigned, only handles of `telnet_init` are freed, none twice, and closing frees every one. -/
theorem telnet_handles_kept (calls : List TelnetCall) (h : InOrder calls) :
    Along telnetStep HandlesKept telnetStart calls :=
  h.findsField.of_kept (fun _ _ _ hs hfield ho => (hs.step hfield ho).1)
    (fun _ _ hs hfield => hs.handlesKept hfield) handleHeld_start

/-- A login in vain, and two sessions, the second of which fails in `socket`. -/
def twoSessions : List TelnetCall :=
  [.login (some (literal "root")) (some []) (newWire []),
    .connect (some (literal "10.0.0.1")) ⟨true, true, true⟩,
    .sendOneLine (some (literal "ls")) (newWire [.data ⟨prompt, by decide⟩]), .close,
    .connect (some (literal "10.0.0.1")) ⟨false, true, true⟩, .close]

theorem twoSessions_kept : Along telnetStep HandlesKept telnetStart twoSessions := by
  refine telnet_handles_kept twoSessions ⟨by decide, ?_⟩
  exact ⟨by decide, by decide, by decide, by decide, by decide, by decide, trivial⟩

/-- A first `connect` that fails in `socket` reads the field, which nothing has assigned. -/
theorem failedSocket_reads :
    ¬ Along telnetStep HandlesKept telnetStart
      [.connect (some (literal "10.0.0.1")) ⟨false, true, true⟩] := by
  rintro ⟨⟨hreads, -⟩, -⟩
  exact hreads rfl

end Wsn
