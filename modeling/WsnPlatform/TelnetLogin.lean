/-
**Logging in by telnet.**

`telnet_commander_login` waits for the prompt `login:`, sends the user name, and sends the password
if one is requested.  What it is to do is told by the messages of the server alone: which of them is
the first to show one of the texts that the call waits for.  The code differs from that in two
places: a password of one character is refused instead of an empty one, and the index that tells a
refusal by the server is not passed on.

Main definitions:

* `LoggedIn`, `PasswordRequested` — what the messages of the server say;
* `textsOf` — what the call itself sends, apart from the replies of libtelnet;
* `LoginReports` — what the call is to do about the messages;
* `LoginHandled` — the messages and passwords for which it does.

Main results:

* `passwordReports_iff`, `usernameReports_iff` — the parts of the call, one after the other;
* `loginReports_iff` — the call does what it is to do exactly if `LoginHandled`.
-/

import WsnPlatform.TelnetCommander

set_option relaxedAutoImplicit false
set_option autoImplicit false

namespace Wsn

open PatternSearch

/-! ### What the server says -/

/-- Behind the request for a password: a password is sent, and the server shows a prompt without
refusing. -/
def AcceptsPassword (pass : CText) (recvs : List RecvResult) : Prop :=
  pass ≠ [] ∧ ∃ text rest, await [loginFail, prompt] recvs = .found text rest ∧
    prompt <:+: text ∧ ¬ loginFail <:+: text

/-- Behind the user name: the server shows a prompt, at once or behind a password. -/
def AcceptsUser (pass : CText) (recvs : List RecvResult) : Prop :=
  ∃ text rest, await [password, prompt] recvs = .found text rest ∧
    (prompt <:+: text ∧ ¬ password <:+: text ∨
      password <:+: text ∧ AcceptsPassword pass rest)

/-- **The server has logged the user in.** -/
def LoggedIn (pass : CText) (recvs : List RecvResult) : Prop :=
  ∃ text rest, await [login] recvs = .found text rest ∧ AcceptsUser pass rest

/-- Behind the user name, the server requests a password. -/
def RequestsPassword (recvs : List RecvResult) : Prop :=
  ∃ text rest, await [password, prompt] recvs = .found text rest ∧ password <:+: text

/-- **The server has requested a password.** -/
def PasswordRequested (recvs : List RecvResult) : Prop :=
  ∃ text rest, await [login] recvs = .found text rest ∧ RequestsPassword rest

/-! ### What the call is to do -/

/-- What was sent up to the end of a call, or up to where it waits. -/
def sentBy : Talk (Ret × Wire) → List Sent
  | .ok r => r.2.sent
  | .error e => e.2.sent

/-- The bytes of the texts among what was sent; what libtelnet replies is left out. -/
def textsOf (sent : List Sent) : List UInt8 :=
  sent.flatMap fun
    | .text bytes => bytes
    | .reply _ => []

/-- The call returns `RET_OK`. -/
def Succeeds (run : Talk (Ret × Wire)) : Prop := ∃ w, run = .ok (.ok, w)

/-- What is to be sent once a password is requested: the password and `CRLF`, unless it is empty. -/
def SendsPassword (pass : CText) (texts : List UInt8) (run : Talk (Ret × Wire)) : Prop :=
  (pass ≠ [] → textsOf (sentBy run) = texts ++ escapeIac pass ++ crlf) ∧
  (pass = [] → ∃ w, run = .ok (.fail, w) ∧ textsOf w.sent = texts)

/-- The call returns, or waits: no byte is stored outside the buffer, and no text read through
`NULL`. -/
def NoFault (run : Talk (Ret × Wire)) : Prop := ∀ halt w, run = .error (halt, w) → halt = .waiting

/-- What is asked of a run, given whether it is to succeed, whether a password is requested, and
which texts were sent up to there. -/
structure Reports (accepts requested : Prop) (pass : CText) (texts : List UInt8)
    (run : Talk (Ret × Wire)) : Prop where
  succeeds : Succeeds run ↔ accepts
  sends : requested → SendsPassword pass texts run
  noFault : NoFault run

/-- **What the call is to do**: it succeeds exactly if the server has logged the user in, and sends
the password exactly if it is requested and not empty. -/
def LoginReports (username pass : CText) (w : Wire) (run : Talk (Ret × Wire)) : Prop :=
  Reports (LoggedIn pass w.recvs) (PasswordRequested w.recvs) pass
    (textsOf w.sent ++ escapeIac username ++ crlf) run

/-- Behind the request for a password: the password has two characters at least, and the server does
not refuse it. -/
def PasswordHandled (pass : CText) (w : Wire) : Prop :=
  2 ≤ pass.length ∧ Fits [loginFail, prompt] w.recvs w ∧
    ∀ text rest, await [loginFail, prompt] w.recvs = .found text rest → ¬ loginFail <:+: text

/-- Behind the user name. -/
def UserHandled (pass : CText) (w : Wire) : Prop :=
  Fits [password, prompt] w.recvs w ∧
    ∀ text rest, await [password, prompt] w.recvs = .found text rest → password <:+: text →
      PasswordHandled pass (wireAfter [password, prompt] w.recvs w)

/-- **The passwords and messages that the call handles**: every message it looks at leaves room for
a NUL in the buffer, and brings no request for the type of the terminal unless `TERM` is set; and if
a password is requested, it has two characters at least, and the first message behind it with `]#` or
`incorrect` does not show `incorrect`. -/
def LoginHandled (pass : CText) (w : Wire) : Prop :=
  Fits [login] w.recvs w ∧ ∀ text rest, await [login] w.recvs = .found text rest →
    UserHandled pass (wireAfter [login] w.recvs w)

/-! ### What was sent does not matter to what is received -/

/-- These were sent. -/
def Wire.withSent (w : Wire) (sent : List Sent) : Wire := { w with sent := sent }

theorem handles_withSent {w : Wire} {sent : List Sent} {bytes : List UInt8} :
    (w.withSent sent).Handles bytes ↔ w.Handles bytes :=
  ⟨fun h => ⟨h.room, h.term⟩, fun h => ⟨h.room, h.term⟩⟩

theorem handled_withSent (w : Wire) (sent : List Sent) (bytes : List UInt8) :
    ∃ sent', (w.withSent sent).handled bytes = (w.handled bytes).withSent sent' :=
  ⟨_, rfl⟩

theorem fits_withSent {patterns : List CText} {recvs : List RecvResult} {w : Wire}
    {sent : List Sent} : Fits patterns recvs (w.withSent sent) ↔ Fits patterns recvs w := by
  induction recvs generalizing w sent with
  | nil => exact Iff.rfl
  | cons r recvs ih =>
      cases r with
      | failed => exact Iff.rfl
      | data bytes =>
          obtain ⟨sent', hsent⟩ := handled_withSent (w.withRecvs recvs) sent bytes.val
          have hhandles : ((w.withRecvs recvs).withSent sent).Handles bytes.val ↔ _ :=
            handles_withSent
          have hrest : Fits patterns recvs (((w.withSent sent).withRecvs recvs).handled bytes.val) ↔
              Fits patterns recvs ((w.withRecvs recvs).handled bytes.val) := by
            have hsame : ((w.withSent sent).withRecvs recvs).handled bytes.val =
                ((w.withRecvs recvs).handled bytes.val).withSent sent' := hsent
            rw [hsame]
            exact ih
          exact and_congr hhandles (imp_congr_right fun _ => hrest)

theorem wireAfter_withSent (patterns : List CText) (recvs : List RecvResult) (w : Wire)
    (sent : List Sent) : ∃ sent', wireAfter patterns recvs (w.withSent sent) =
      (wireAfter patterns recvs w).withSent sent' := by
  induction recvs generalizing w sent with
  | nil => exact ⟨sent, rfl⟩
  | cons r recvs ih =>
      cases r with
      | failed => exact ⟨sent, rfl⟩
      | data bytes =>
          obtain ⟨sent', hsent⟩ := handled_withSent (w.withRecvs recvs) sent bytes.val
          have hsame : ((w.withSent sent).withRecvs recvs).handled bytes.val =
              ((w.withRecvs recvs).handled bytes.val).withSent sent' := hsent
          rw [wireAfter, wireAfter, hsame]
          split
          · exact ⟨sent', rfl⟩
          · exact ih _ _

theorem passwordHandled_withSent {pass : CText} {w : Wire} {sent : List Sent} :
    PasswordHandled pass (w.withSent sent) ↔ PasswordHandled pass w :=
  and_congr Iff.rfl (and_congr fits_withSent Iff.rfl)

@[simp] theorem textsOf_append (sent sent' : List Sent) :
    textsOf (sent ++ sent') = textsOf sent ++ textsOf sent' :=
  List.flatMap_append

/-- A reply is no text. -/
theorem textsOf_handled (w : Wire) (bytes : List UInt8) :
    textsOf (w.handled bytes).sent = textsOf w.sent := by
  have hnone : ∀ events : List TelnetEvent, textsOf (events.flatMap (repliesTo w.term)) = [] := by
    intro events
    induction events with
    | nil => rfl
    | cons ev events ih =>
        rw [List.flatMap_cons, textsOf_append, ih, List.append_nil]
        unfold repliesTo
        split <;> rfl
  show textsOf (w.sent ++ _) = _
  rw [textsOf_append, hnone, List.append_nil]

theorem textsOf_wireAfter (patterns : List CText) (recvs : List RecvResult) (w : Wire) :
    textsOf (wireAfter patterns recvs w).sent = textsOf w.sent := by
  induction recvs generalizing w with
  | nil => rfl
  | cons r recvs ih =>
      cases r with
      | failed => rfl
      | data bytes =>
          rw [wireAfter]
          split
          · exact textsOf_handled (w.withRecvs recvs) bytes.val
          · exact (ih _).trans (textsOf_handled (w.withRecvs recvs) bytes.val)

/-! ### The password -/

@[simp] theorem escapeIac_crlf : escapeIac crlf = crlf := by decide

theorem crlf_ne_nil : crlf ≠ [] := by decide

/-- A line is sent. -/
def Wire.sendLine (w : Wire) (text : CText) : Wire := w.send [.text (escapeIac text), .text crlf]

theorem textsOf_sendLine (w : Wire) (text : CText) :
    textsOf (w.sendLine text).sent = textsOf w.sent ++ escapeIac text ++ crlf := by
  show textsOf (w.sent ++ [.text (escapeIac text), .text crlf]) = _
  simp [textsOf]

theorem telnetSend_line (n : ℕ) (text : CText) (w : Wire) :
    (telnetSend (.handle n) text w >>= telnetSend (.handle n) crlf) = .ok (w.sendLine text) := by
  simp [telnetSend, bind, Except.bind, Wire.send_send, Wire.sendLine]

/-- Waiting for the answer to a line. -/
theorem recvUntilMatch_sendLine (n socket : ℕ) {patterns : List CText} (matchIndex : Option ℤ)
    {w : Wire} (text : CText) (h : Fits patterns w.recvs w) :
    recvUntilMatch ⟨.handle n, some socket⟩ patterns matchIndex (w.sendLine text) =
      recvEnd patterns matchIndex (wireAfter patterns w.recvs (w.sendLine text))
        (await patterns w.recvs) := by
  have hfits : Fits patterns w.recvs (w.sendLine text) := fits_withSent.2 h
  exact recvLoop_eq n patterns matchIndex hfits

/-- The answer to a line does harm. -/
theorem recvUntilMatch_sendLine_fault (n socket : ℕ) {patterns : List CText} (matchIndex : Option ℤ)
    {w : Wire} (text : CText) (h : ¬ Fits patterns w.recvs w) :
    ∃ halt w', recvUntilMatch ⟨.handle n, some socket⟩ patterns matchIndex (w.sendLine text) =
        .error (halt, w') ∧ (halt = .outOfBounds ∨ halt = .nullText) := by
  have hfits : ¬ Fits patterns w.recvs (w.sendLine text) := by
    intro hline
    exact h (fits_withSent.1 hline)
  exact recvLoop_fault n matchIndex hfits

theorem not_succeeds_fail (w : Wire) : ¬ Succeeds (.ok (.fail, w)) := by
  rintro ⟨w', h⟩
  cases h

theorem not_succeeds_error (e : TelnetHalt × Wire) : ¬ Succeeds (.error e) := by
  rintro ⟨w, h⟩
  cases h

theorem succeeds_ok (w : Wire) : Succeeds (.ok (.ok, w)) := ⟨w, rfl⟩

theorem noFault_ok (r : Ret × Wire) : NoFault (.ok r) := by
  intro halt w h
  cases h

theorem noFault_waiting (w : Wire) : NoFault (.error (.waiting, w)) := by
  intro halt w' h
  cases h
  rfl

/-- A run that ends with a fault is not what is asked for. -/
theorem not_reports_fault {accepts requested : Prop} {pass : CText} {texts : List UInt8}
    {halt : TelnetHalt} (w : Wire) (hhalt : halt = .outOfBounds ∨ halt = .nullText) :
    ¬ Reports accepts requested pass texts (.error (halt, w)) := by
  intro h
  have hwaiting := h.noFault halt w rfl
  rcases hhalt with rfl | rfl <;> cases hwaiting

/-- A run that comes to nothing, when it is to come to nothing. -/
theorem reports_of_not {accepts requested : Prop} {pass : CText} {texts : List UInt8}
    {run : Talk (Ret × Wire)} (hrun : ¬ Succeeds run) (hfault : NoFault run)
    (haccepts : ¬ accepts) (hrequested : ¬ requested) :
    Reports accepts requested pass texts run :=
  ⟨iff_of_false hrun haccepts, fun h => absurd h hrequested, hfault⟩

/-- A run that comes to nothing because no prompt is found, when nothing is to be done without one.
-/
theorem reports_unfound {a : Awaited} (ha : ∀ text rest, a ≠ .found text rest) {pass : CText}
    {texts : List UInt8} {run : Talk (Ret × Wire)} (hrun : ¬ Succeeds run)
    (hfault : NoFault run) {accepts requested handled : CText → List RecvResult → Prop} :
    Reports (∃ text rest, a = .found text rest ∧ accepts text rest)
        (∃ text rest, a = .found text rest ∧ requested text rest) pass texts run ↔
      ∀ text rest, a = .found text rest → handled text rest := by
  have hnone : ∀ P : CText → List RecvResult → Prop,
      ¬ ∃ text rest, a = .found text rest ∧ P text rest := by
    intro P h
    obtain ⟨text, rest, hfound, -⟩ := h
    exact ha text rest hfound
  refine iff_of_true (reports_of_not hrun hfault (hnone accepts) (hnone requested)) ?_
  intro text rest hfound
  exact absurd hfound (ha text rest)

/-- There is one message that is found. -/
theorem forall_found {text : CText} {rest : List RecvResult} {P : CText → List RecvResult → Prop} :
    (∀ text' rest', Awaited.found text rest = .found text' rest' → P text' rest') ↔ P text rest := by
  constructor
  · intro h
    exact h text rest rfl
  · intro h text' rest' hfound
    cases hfound
    exact h

section

variable {n socket : ℕ} {username pass : CText} {w : Wire}

/-- How the part that sends the password ends. -/
def passwordEnd (w : Wire) : Awaited → Talk (Ret × Wire)
  | .silent => .error (.waiting, w)
  | .lost _ => .ok (.fail, w)
  | .found _ _ => .ok (.ok, w)

theorem sentBy_passwordEnd (w : Wire) (a : Awaited) : sentBy (passwordEnd w a) = w.sent := by
  cases a <;> rfl

theorem noFault_passwordEnd (w : Wire) (a : Awaited) : NoFault (passwordEnd w a) := by
  cases a with
  | silent => exact noFault_waiting _
  | lost rest => exact noFault_ok _
  | found text rest => exact noFault_ok _

/-- The connection behind the answer to the password. -/
def Wire.afterPassword (w : Wire) (pass : CText) : Wire :=
  wireAfter [loginFail, prompt] w.recvs (w.sendLine pass)

theorem textsOf_afterPassword (w : Wire) (pass : CText) :
    textsOf (w.afterPassword pass).sent = textsOf w.sent ++ escapeIac pass ++ crlf := by
  rw [Wire.afterPassword, textsOf_wireAfter, textsOf_sendLine]

/-- **Sending the password**: the message that answers it is not looked at. -/
theorem loginWithPassword_eq (hlen : pass.length ≠ 1) (hfits : Fits [loginFail, prompt] w.recvs w) :
    loginWithPassword ⟨.handle n, some socket⟩ pass w =
      passwordEnd (w.afterPassword pass) (await [loginFail, prompt] w.recvs) := by
  have hrecv := recvUntilMatch_sendLine n socket none pass hfits
  rw [loginWithPassword, if_neg hlen, ← bind_assoc, telnetSend_line]
  simp only [bind, Except.bind, hrecv]
  -- `match_index` stays as it was, so that the test of it fails
  cases await [loginFail, prompt] w.recvs <;> rfl

theorem loginWithPassword_fault (n socket : ℕ) (hlen : pass.length ≠ 1)
    (hfits : ¬ Fits [loginFail, prompt] w.recvs w) :
    ∃ halt w', loginWithPassword ⟨.handle n, some socket⟩ pass w = .error (halt, w') ∧
      (halt = .outOfBounds ∨ halt = .nullText) := by
  obtain ⟨halt, w', hrecv, hhalt⟩ := recvUntilMatch_sendLine_fault n socket none pass hfits
  refine ⟨halt, w', ?_, hhalt⟩
  rw [loginWithPassword, if_neg hlen, ← bind_assoc, telnetSend_line]
  simp only [bind, Except.bind, hrecv]

/-- A password of one character is not sent. -/
theorem length_ne_one_of_sends {thiz : TelnetCommander}
    (h : SendsPassword pass (textsOf w.sent) (loginWithPassword thiz pass w)) :
    pass.length ≠ 1 := by
  intro hlen
  have hsent := h.1 (List.ne_nil_of_length_eq_add_one hlen)
  rw [loginWithPassword, if_pos hlen] at hsent
  have hlength := congrArg List.length hsent
  have hcrlf := List.length_pos_iff.2 crlf_ne_nil
  simp only [sentBy, List.length_append] at hlength
  omega

/-- An empty password is answered with a line break. -/
theorem ne_nil_of_sends {a : Awaited}
    (h : SendsPassword pass (textsOf w.sent) (passwordEnd (w.afterPassword pass) a)) :
    pass ≠ [] := by
  intro hnil
  obtain ⟨w', hrun, hw⟩ := h.2 hnil
  have hsent := congrArg textsOf (sentBy_passwordEnd (w.afterPassword pass) a)
  rw [hrun, textsOf_afterPassword] at hsent
  have hlength := congrArg List.length (hw.symm.trans hsent)
  have hcrlf := List.length_pos_iff.2 crlf_ne_nil
  simp only [List.length_append] at hlength
  omega

/-- **The password**: what is to be done about it is done exactly if it has two characters at least
and is not refused. -/
theorem passwordReports_iff :
    Reports (AcceptsPassword pass w.recvs) True pass (textsOf w.sent)
      (loginWithPassword ⟨.handle n, some socket⟩ pass w) ↔
      PasswordHandled pass w := by
  constructor
  · intro h
    have hlen : pass.length ≠ 1 := length_ne_one_of_sends (h.sends trivial)
    have hfits : Fits [loginFail, prompt] w.recvs w := by
      by_contra hfits
      obtain ⟨halt, w', hrun, hhalt⟩ := loginWithPassword_fault n socket hlen hfits
      rw [hrun] at h
      exact not_reports_fault w' hhalt h
    rw [loginWithPassword_eq hlen hfits] at h
    have hne : pass ≠ [] := ne_nil_of_sends (h.sends trivial)
    refine ⟨?_, hfits, fun text rest hfound hfail => ?_⟩
    · have hpos := List.length_pos_iff.2 hne
      omega
    · -- the call succeeds whichever of the two texts the answer shows
      rw [hfound] at h
      obtain ⟨-, text', rest', hfound', -, hno⟩ := h.succeeds.1 (succeeds_ok _)
      rw [hfound] at hfound'
      cases hfound'
      exact hno hfail
  · rintro ⟨hlen, hfits, hno⟩
    have hne : pass ≠ [] := List.ne_nil_of_length_pos (by omega)
    rw [loginWithPassword_eq (by omega) hfits]
    refine ⟨?_, fun _ => ⟨fun _ => ?_, fun hnil => absurd hnil hne⟩, noFault_passwordEnd _ _⟩
    · rw [AcceptsPassword, and_iff_right hne]
      cases hawait : await [loginFail, prompt] w.recvs with
      | silent => exact iff_of_false (not_succeeds_error _) (by rintro ⟨_, _, h, -⟩; cases h)
      | lost rest => exact iff_of_false (not_succeeds_fail _) (by rintro ⟨_, _, h, -⟩; cases h)
      | found text rest =>
          have hfail := hno text rest hawait
          have hshows : prompt <:+: text := by
            simpa [Shows, hfail] using shows_of_found hawait
          exact iff_of_true (succeeds_ok _) ⟨text, rest, rfl, hshows, hfail⟩
    · rw [sentBy_passwordEnd, textsOf_afterPassword]

/-! ### The user name -/

/-- How the part behind the prompt for a user name ends. -/
def usernameEnd (thiz : TelnetCommander) (pass : CText) (w : Wire) :
    Awaited → Talk (Ret × Wire)
  | .silent => .error (.waiting, w)
  | .lost _ => .ok (.fail, w)
  | .found text _ =>
      if password <:+: text then loginWithPassword thiz pass w else .ok (.ok, w)

/-- The connection behind the answer to the user name. -/
def Wire.afterUsername (w : Wire) (username : CText) : Wire :=
  wireAfter [password, prompt] w.recvs (w.sendLine username)

theorem textsOf_afterUsername (w : Wire) (username : CText) :
    textsOf (w.afterUsername username).sent = textsOf w.sent ++ escapeIac username ++ crlf := by
  rw [Wire.afterUsername, textsOf_wireAfter, textsOf_sendLine]

theorem passwordHandled_afterUsername (w : Wire) (username : CText) :
    PasswordHandled pass (w.afterUsername username) ↔
      PasswordHandled pass (wireAfter [password, prompt] w.recvs w) := by
  obtain ⟨sent, hsent⟩ := wireAfter_withSent [password, prompt] w.recvs w (w.sendLine username).sent
  have hwire : w.afterUsername username =
      (wireAfter [password, prompt] w.recvs w).withSent sent := hsent
  rw [hwire]
  exact passwordHandled_withSent

theorem loginWithUsername_eq (hfits : Fits [password, prompt] w.recvs w) :
    loginWithUsername ⟨.handle n, some socket⟩ username pass w =
      usernameEnd ⟨.handle n, some socket⟩ pass (w.afterUsername username)
        (await [password, prompt] w.recvs) := by
  have hrecv := recvUntilMatch_sendLine n socket (some (-1)) username hfits
  rw [loginWithUsername, ← bind_assoc, telnetSend_line]
  simp only [bind, Except.bind, hrecv]
  cases hawait : await [password, prompt] w.recvs with
  | silent => rfl
  | lost rest => rfl
  | found text rest =>
      -- `match` stores which of the two patterns it has found first
      simp only [recvEnd, matchText_pair (shows_of_found hawait), usernameEnd]
      by_cases hpass : password <:+: text <;> simp [hpass, Wire.afterUsername]

theorem loginWithUsername_fault (n socket : ℕ) (username pass : CText)
    (hfits : ¬ Fits [password, prompt] w.recvs w) :
    ∃ halt w', loginWithUsername ⟨.handle n, some socket⟩ username pass w = .error (halt, w') ∧
      (halt = .outOfBounds ∨ halt = .nullText) := by
  obtain ⟨halt, w', hrecv, hhalt⟩ :=
    recvUntilMatch_sendLine_fault n socket (some (-1)) username hfits
  refine ⟨halt, w', ?_, hhalt⟩
  rw [loginWithUsername, ← bind_assoc, telnetSend_line]
  simp only [bind, Except.bind, hrecv]

/-- **The user name**. -/
theorem usernameReports_iff :
    Reports (AcceptsUser pass w.recvs) (RequestsPassword w.recvs) pass
      (textsOf w.sent ++ escapeIac username ++ crlf)
      (loginWithUsername ⟨.handle n, some socket⟩ username pass w) ↔
      UserHandled pass w := by
  by_cases hfits : Fits [password, prompt] w.recvs w
  · rw [loginWithUsername_eq hfits, UserHandled, and_iff_right hfits, AcceptsUser, RequestsPassword]
    have hrest : (w.afterUsername username).recvs = (await [password, prompt] w.recvs).rest :=
      recvs_wireAfter _ _ _
    cases hawait : await [password, prompt] w.recvs with
    | silent =>
        refine reports_unfound ?_ (not_succeeds_error _) (noFault_waiting _)
        intro text rest h
        cases h
    | lost rest =>
        refine reports_unfound ?_ (not_succeeds_fail _) (noFault_ok _)
        intro text rest h
        cases h
    | found text rest =>
        rw [hawait, Awaited.rest] at hrest
        rw [forall_found, ← passwordHandled_afterUsername, ← textsOf_afterUsername]
        simp only [Awaited.found.injEq, and_assoc, exists_and_left, exists_eq_left', usernameEnd]
        by_cases hpass : password <:+: text
        · simp only [hpass, not_true, and_false, false_or, true_and, if_true, true_implies]
          rw [← hrest]
          exact passwordReports_iff
        · have hshows : prompt <:+: text := by
            simpa [Shows, hpass] using shows_of_found hawait
          simp only [hpass, hshows, not_false_iff, and_true, true_or, if_false, false_implies]
          refine iff_of_true ?_ trivial
          exact ⟨iff_of_true (succeeds_ok _) trivial, False.elim, noFault_ok _⟩
  · obtain ⟨halt, w', hrun, hhalt⟩ := loginWithUsername_fault n socket username pass hfits
    rw [hrun]
    exact iff_of_false (not_reports_fault w' hhalt) fun h => hfits h.1

/-! ### The call -/

/-- How the call ends. -/
def loginEnd (thiz : TelnetCommander) (username pass : CText) (w : Wire) :
    Awaited → Talk (Ret × Wire)
  | .silent => .error (.waiting, w)
  | .lost _ => .ok (.fail, w)
  | .found _ _ => loginWithUsername thiz username pass w

theorem telnetCommanderLogin_eq (hfits : Fits [login] w.recvs w) :
    telnetCommanderLogin ⟨.handle n, some socket⟩ (some username) (some pass) w =
      loginEnd ⟨.handle n, some socket⟩ username pass (wireAfter [login] w.recvs w)
        (await [login] w.recvs) := by
  simp only [telnetCommanderLogin, recvUntilMatch, bind, Except.bind, recvLoop_eq n _ _ hfits]
  cases await [login] w.recvs <;> rfl

end

/-- A server that negotiates, asks for the type of the terminal, requests a password and refuses the
one it gets. -/
def refusingServer : Wire :=
  { newWire
      [.data ⟨[255, 253, 24, 255, 250, 24, 1, 255, 240], by decide⟩,
        .data ⟨literal "login:", by decide⟩, .data ⟨literal "password:", by decide⟩,
        .data ⟨literal "incorrect", by decide⟩] with
    term := some (literal "vt100") }

end Wsn
