/-
**The sockets of the FTP uploader.**

`ftp_uploader_close` finds out from two flags which sockets to close.  A call that fails between a
`socket` and the place where its flag is set leaves a socket that no flag tells of.  And where the
transfer flag is still set, `ftp_uploader_close` clears the other flag in its place, before it looks
at it.

Main definitions:

* `FtpCall`, `ftpStep` — a call on the uploader;
* `OneConnect` — there is at most one `connect` between two closes;
* `SocketsClosed` — what a call does to the sockets if it is right about them;
* `FtpConnects` — the calls that fail with no socket open that they have opened.

Main results:

* `ftpUploaderConnect_sockets`, `ftpUploaderPut_sockets`, `ftpUploaderClose_sockets` — what the
  calls do to the sockets and the flags;
* `ftp_sockets_closed` — in a run of such calls, every call is right about the sockets.
-/

import WsnPlatform.FtpPut
import WsnPlatform.FaultRun

set_option relaxedAutoImplicit false
set_option autoImplicit false

namespace Wsn

open FaultRun

/-! ### Calls -/

/-- A call on an uploader, with what the calls that it makes return. -/
inductive FtpCall
  | connect (ipAddress : Option CText) (env : FtpConnectEnv)
  | login (userName pass : Option CText) (env : FtpLoginEnv)
  | setBinaryMode (reply : Reply)
  | put (fileName : Option CText) (file : List UInt8) (env : FtpPutEnv)
  | close (reply : Reply)

/-- **A call on the uploader.** -/
def ftpStep (s : FtpState) : FtpCall → Exec (Ret × FtpState)
  | .connect ipAddress env => ftpUploaderConnect ipAddress env s
  | .login userName pass env => ftpUploaderLogin userName pass env s
  | .setBinaryMode reply => ftpUploaderSetBinaryMode reply s
  | .put fileName file env => ftpUploaderPut fileName file env s
  | .close reply => ftpUploaderClose reply s

/-- The uploader after `ftp_uploader_create`. -/
def ftpStart (junk : FtpUnassigned) : FtpState := ⟨ftpUploaderCreate junk, .empty, [], []⟩

/-- **At most one `connect` between two closes**; the flag tells whether there was one since the
last close. -/
def OneConnect : Bool → List FtpCall → Prop
  | _, [] => True
  | since, .connect _ _ :: calls => since = false ∧ OneConnect true calls
  | _, .close _ :: calls => OneConnect false calls
  | since, _ :: calls => OneConnect since calls

/-- **A call that is right about the sockets**: no socket has been closed twice; and after a close
both flags are `FALSE` and every socket that was opened has been closed. -/
def SocketsClosed (s : FtpState) (call : FtpCall) : Prop :=
  ∀ o, ftpStep s call = .ok o →
    o.2.sockets.Sound ∧
      ∀ reply, call = .close reply →
        o.2.thiz.isConnected = false ∧ o.2.thiz.isTransfered = false ∧ o.2.sockets.Settled

/-- **A call that has opened a socket connects it**, and a `put` that has is not refused by the
reply to `STOR`. -/
def FtpConnects (s : FtpState) : FtpCall → Prop
  | .connect ipAddress env => ipAddress ≠ none → env.socket = true → env.connect = true
  | .put fileName _ env => Passive fileName env s → env.socket = true →
      env.connect = true ∧ judge env.stor ≠ some .fail
  | _ => True

/-! ### What the calls do to the sockets -/

/-- **The sockets and the flags are the same.** -/
def SameSockets (s t : FtpState) : Prop :=
  t.sockets = s.sockets ∧ ∃ response, t.thiz = { s.thiz with response := response }

theorem SameSockets.refl (s : FtpState) : SameSockets s s := ⟨rfl, s.thiz.response, rfl⟩

theorem SameSockets.trans {s t u : FtpState} (h : SameSockets s t) (h' : SameSockets t u) :
    SameSockets s u := by
  obtain ⟨hsockets, response, hthiz⟩ := h
  obtain ⟨hsockets', response', hthiz'⟩ := h'
  exact ⟨hsockets'.trans hsockets, response', by rw [hthiz', hthiz]⟩

theorem SameSockets.isConnected {s t : FtpState} (h : SameSockets s t) :
    t.thiz.isConnected = s.thiz.isConnected := by
  obtain ⟨-, response, hthiz⟩ := h
  rw [hthiz]

theorem sameSockets_command (s : FtpState) (text : CText) : SameSockets s (s.command text) :=
  ⟨rfl, s.thiz.response, rfl⟩

theorem sameSockets_read {reply : Reply} {s : FtpState} {r : Ret × FtpState}
    (h : readResponse reply s = .ok r) : SameSockets s r.2 := by
  obtain ⟨response, hr⟩ := readResponse_frame h
  rw [hr]
  exact ⟨rfl, response, rfl⟩

section Calls

variable {s : FtpState} {r : Ret × FtpState}

/-- A command that is answered. -/
theorem sameSockets_answered {reply : Reply} {text : CText}
    (h : readResponse reply (s.command text) = .ok r) : SameSockets s r.2 :=
  (sameSockets_command s text).trans (sameSockets_read h)

theorem ftpUploaderLogin_sockets {userName pass : Option CText} {env : FtpLoginEnv}
    (h : ftpUploaderLogin userName pass env s = .ok r) : SameSockets s r.2 := by
  rw [ftpUploaderLogin.eq_def] at h
  split at h
  · dsimp only at h
    split_ifs at h
    · cases h; exact .refl s
    · cases h; exact .refl s
    · cases h; exact .refl s
    · obtain ⟨u, huser, h⟩ := bind_eq_ok.1 h
      have hsame := sameSockets_answered huser
      split_ifs at h
      · cases h; exact hsame
      · obtain ⟨p, hpass, h⟩ := bind_eq_ok.1 h
        have hsame' := hsame.trans (sameSockets_answered hpass)
        cases h
        exact hsame'
  · cases h; exact .refl s

theorem ftpUploaderSetBinaryMode_sockets {reply : Reply}
    (h : ftpUploaderSetBinaryMode reply s = .ok r) : SameSockets s r.2 := by
  obtain ⟨b, hbinary, h⟩ := bind_eq_ok.1 h
  have hsame := sameSockets_answered hbinary
  cases h
  exact hsame

/-- What `ftp_uploader_connect` does to the sockets and the flags. -/
inductive ConnectSockets (ipAddress : Option CText) (env : FtpConnectEnv) (s : FtpState) :
    Ret × FtpState → Prop
  | noAddress : ipAddress = none → ConnectSockets ipAddress env s (.invalidParams, s)
  | noConnection : ipAddress ≠ none → env.socket = false ∨ env.connect = false →
      ConnectSockets ipAddress env s
        (.fail, s.withCommandSocket (openSocket env.socket s.sockets))
  | connected {r : Ret × FtpState} : ipAddress ≠ none → env.socket = true → env.connect = true →
      SameSockets (s.withCommandSocket (some s.sockets.issued, s.sockets.issue)).connected r.2 →
      ConnectSockets ipAddress env s r

theorem ftpUploaderConnect_sockets {ipAddress : Option CText} {env : FtpConnectEnv}
    (h : ftpUploaderConnect ipAddress env s = .ok r) : ConnectSockets ipAddress env s r := by
  rw [ftpUploaderConnect] at h
  split_ifs at h with hip hopen
  · cases h; exact .noAddress hip
  · cases h; exact .noConnection hip hopen
  · have hopened : env.socket = true ∧ env.connect = true := by simpa using hopen
    obtain ⟨b, hbanner, h⟩ := bind_eq_ok.1 h
    cases h
    have hsame := sameSockets_read hbanner
    rw [hopened.1] at hsame
    exact .connected hip hopened.1 hopened.2 hsame

/-- What `ftp_uploader_put` does to the sockets and the flags. -/
inductive PutSockets (fileName : Option CText) (env : FtpPutEnv) (s : FtpState) :
    Ret × FtpState → Prop
  | early {r : Ret × FtpState} : r.1 ≠ .ok → SameSockets s r.2 → PutSockets fileName env s r
  | noConnection {r : Ret × FtpState} : Passive fileName env s → r.1 = .fail →
      env.socket = false ∨ env.connect = false →
      SameSockets (s.withDataSocket (openSocket env.socket s.sockets)) r.2 →
      PutSockets fileName env s r
  | refused {r : Ret × FtpState} : Passive fileName env s → r.1 = .fail →
      env.socket = true → judge env.stor = some .fail →
      SameSockets (s.withDataSocket (some s.sockets.issued, s.sockets.issue)).transfering r.2 →
      PutSockets fileName env s r
  | copied {r : Ret × FtpState} (c : CopyState) :
      SameSockets ((s.withDataSocket (some s.sockets.issued, s.sockets.issue)).copied c) r.2 →
      PutSockets fileName env s r

/-- Behind the reply to `STOR`. -/
theorem putFile_sockets {file : List UInt8} {env : FtpPutEnv} (h : putFile file env s = .ok r) :
    ∃ c, SameSockets (s.copied c) r.2 := by
  obtain ⟨c, -, h⟩ := bind_eq_ok.1 h
  obtain ⟨f, hfinal, h⟩ := bind_eq_ok.1 h
  have hsame := sameSockets_read hfinal
  cases h
  exact ⟨c, hsame⟩

theorem copied_sameSockets {t : FtpState} (c : CopyState) (h : SameSockets s t) :
    SameSockets (s.copied c) (t.copied c) := by
  obtain ⟨hsockets, response, hthiz⟩ := h
  refine ⟨?_, response, ?_⟩
  · simp only [FtpState.copied, hsockets, hthiz]
  · simp only [FtpState.copied, hthiz]

/-- Behind the parser of the port. -/
theorem putConnection_sockets {fileName : Option CText} {name : CText} {file : List UInt8}
    {env : FtpPutEnv} {t : FtpState} (hpassive : Passive fileName env s) (hsame : SameSockets s t)
    (h : putConnection name file env t = .ok r) : PutSockets fileName env s r := by
  have hwith : ∀ opened, SameSockets (s.withDataSocket opened) (t.withDataSocket opened) := by
    intro opened
    obtain ⟨-, response, hthiz⟩ := hsame
    exact ⟨rfl, response, by simp only [FtpState.withDataSocket, hthiz]⟩
  rw [putConnection, hsame.1] at h
  split_ifs at h with hopen
  · cases h
    exact .noConnection hpassive rfl hopen (hwith _)
  · have hopened : env.socket = true ∧ env.connect = true := by simpa using hopen
    rw [hopened.1] at h
    have htransfer : SameSockets
        (s.withDataSocket (some s.sockets.issued, s.sockets.issue)).transfering
        (t.withDataSocket (openSocket true s.sockets)).transfering := by
      obtain ⟨hsockets, response, hthiz⟩ := hwith (openSocket true s.sockets)
      exact ⟨hsockets, response, by simp only [FtpState.transfering, hthiz]; rfl⟩
    obtain ⟨r', hstor, h⟩ := bind_eq_ok.1 h
    have hsame' := htransfer.trans (sameSockets_answered hstor)
    split_ifs at h with hret
    · cases h
      refine .refused hpassive rfl hopened.1 ?_ hsame'
      obtain ⟨-, response, hthiz⟩ := hsame
      have hsocket : t.thiz.commandSocket ≠ none := by
        rw [hthiz]
        exact hpassive.commandSocket
      refine readResponse_negative ?_ hstor hret
      exact hsocket
    · obtain ⟨c, hcopied⟩ := putFile_sockets h
      exact .copied c ((copied_sameSockets c hsame').trans hcopied)

theorem ftpUploaderPut_sockets {fileName : Option CText} {file : List UInt8} {env : FtpPutEnv}
    (h : ftpUploaderPut fileName file env s = .ok r) : PutSockets fileName env s r := by
  cases fileName with
  | none =>
      cases h
      exact .early (by intro h; cases h) (.refl s)
  | some name =>
      obtain ⟨p, hpasv, h⟩ := bind_eq_ok.1 h
      have hsame := sameSockets_answered hpasv
      split_ifs at h with hret
      · cases h
        exact .early (by intro h; cases h) hsame
      · obtain ⟨hsocket, hjudge, response, hstore, hframe⟩ :=
          readResponse_positive hpasv (not_not.1 hret)
        obtain ⟨port, hport, h⟩ := bind_eq_ok.1 h
        cases port with
        | none =>
            cases h
            exact .early (by intro h; cases h) hsame
        | some port =>
            rw [hframe] at hport
            have hpassive : Passive (some name) env s :=
              ⟨Option.some_ne_none name, hsocket, hjudge, response, port, hstore, hport⟩
            exact putConnection_sockets hpassive hsame h

theorem closeSockets_sameSockets {t : FtpState} (h : SameSockets s t) :
    SameSockets (closeSockets s) (closeSockets t) := by
  obtain ⟨thiz, sockets, written, accepted⟩ := t
  obtain ⟨rfl, response, rfl⟩ := h
  unfold closeSockets
  cases htransfered : s.thiz.isTransfered with
  | true => exact ⟨by simp [htransfered], response, by simp [htransfered]⟩
  | false =>
      cases hconnected : s.thiz.isConnected with
      | true =>
          exact ⟨by simp [htransfered, hconnected], response, by simp [htransfered, hconnected]⟩
      | false =>
          exact ⟨by simp [htransfered, hconnected], response, by simp [htransfered, hconnected]⟩

/-- `ftp_uploader_close` is about the sockets, whatever the reply to `QUIT` is. -/
theorem ftpUploaderClose_sockets {reply : Reply} (h : ftpUploaderClose reply s = .ok r) :
    r.1 = .ok ∧ SameSockets (closeSockets s) r.2 := by
  obtain ⟨q, hquit, h⟩ := bind_eq_ok.1 h
  obtain ⟨hsockets, response, hthiz⟩ := closeSockets_sameSockets (sameSockets_answered hquit)
  cases h
  refine ⟨rfl, hsockets, List.Vector.replicate respBufferSize 0, ?_⟩
  dsimp only
  rw [hthiz]

end Calls

/-! ### Runs -/

/-- The socket that the connection flag tells of. -/
def FtpUploader.held (thiz : FtpUploader) : List ℕ :=
  if thiz.isConnected then thiz.commandSocket.toList else []

/-- **Between two calls**: no transfer is under way, and the socket that is not closed is the
command socket of an uploader that is connected. -/
structure SocketHeld (s : FtpState) : Prop where
  notTransfered : s.thiz.isTransfered = false
  holds : s.sockets.Holds s.thiz.held

theorem socketHeld_start (junk : FtpUnassigned) : SocketHeld (ftpStart junk) :=
  ⟨rfl, Ledger.holds_empty⟩

theorem SocketHeld.same {s t : FtpState} (hs : SocketHeld s) (h : SameSockets s t) :
    SocketHeld t := by
  obtain ⟨hsockets, response, hthiz⟩ := h
  refine ⟨?_, ?_⟩
  · rw [hthiz]
    exact hs.notTransfered
  · rw [hsockets, hthiz]
    exact hs.holds

theorem closeSocket_holds {socket : Option ℕ} {sockets : Ledger} {held : List ℕ}
    (h : sockets.Holds (socket.toList ++ held)) : (closeSocket socket sockets).Holds held := by
  cases socket with
  | none => exact h
  | some socket => exact h.release

/-- Where a socket that is opened is connected, a connection fails for want of a socket. -/
theorem not_opened {socket connect : Bool} (hconnects : socket = true → connect = true)
    (hfails : socket = false ∨ connect = false) : socket = false := by
  cases hsocket : socket with
  | false => rfl
  | true =>
      rw [hsocket, hconnects hsocket] at hfails
      exact hfails.elim id id

section Step

variable {s : FtpState} {r : Ret × FtpState}

/-- **Closing**: both flags are cleared, and no socket is left. -/
theorem SocketHeld.close (hs : SocketHeld s) :
    (closeSockets s).thiz.isConnected = false ∧ (closeSockets s).thiz.isTransfered = false ∧
      (closeSockets s).sockets.Holds [] := by
  have hholds := hs.holds
  unfold FtpUploader.held at hholds
  simp only [closeSockets, hs.notTransfered, Bool.false_eq_true, if_false]
  cases hconnected : s.thiz.isConnected with
  | false =>
      rw [hconnected] at hholds
      exact ⟨hconnected, hs.notTransfered, hholds⟩
  | true =>
      rw [hconnected, if_pos rfl] at hholds
      have hclosed : (closeSocket s.thiz.commandSocket s.sockets).Holds [] :=
        closeSocket_holds (by rw [List.append_nil]; exact hholds)
      exact ⟨rfl, rfl, hclosed⟩

/-- **Connecting** an uploader that is not connected, when the connection that is tried is made. -/
theorem SocketHeld.connect {ipAddress : Option CText} {env : FtpConnectEnv} (hs : SocketHeld s)
    (hno : s.thiz.isConnected = false) (hconnects : FtpConnects s (.connect ipAddress env))
    (h : ftpUploaderConnect ipAddress env s = .ok r) : SocketHeld r.2 := by
  have hnone : s.sockets.Holds [] := by simpa [FtpUploader.held, hno] using hs.holds
  cases ftpUploaderConnect_sockets h with
  | noAddress hip => exact hs
  | noConnection hip hfails =>
      have hsocket : env.socket = false := not_opened (hconnects hip) hfails
      have hheld : SocketHeld (s.withCommandSocket (none, s.sockets)) :=
        ⟨hs.notTransfered, by simpa [FtpUploader.held, FtpState.withCommandSocket, hno] using hnone⟩
      rw [hsocket]
      exact hheld
  | connected hip hsocket hconnect hsame =>
      have hconnected : SocketHeld
          (s.withCommandSocket (some s.sockets.issued, s.sockets.issue)).connected :=
        ⟨hs.notTransfered, hnone.issue⟩
      exact hconnected.same hsame

/-- **Putting a file**, when the connection that is tried is made and not refused: the data socket
is closed, and the command socket is left. -/
theorem SocketHeld.put {fileName : Option CText} {file : List UInt8} {env : FtpPutEnv}
    (hs : SocketHeld s) (hconnects : FtpConnects s (.put fileName file env))
    (h : ftpUploaderPut fileName file env s = .ok r) :
    SocketHeld r.2 ∧ r.2.thiz.isConnected = s.thiz.isConnected := by
  cases ftpUploaderPut_sockets h with
  | early hret hsame =>
      exact ⟨hs.same hsame, hsame.isConnected⟩
  | noConnection hpassive hret hfails hsame =>
      have hsocket : env.socket = false :=
        not_opened (fun hopen => (hconnects hpassive hopen).1) hfails
      rw [hsocket] at hsame
      have hheld : SocketHeld (s.withDataSocket (none, s.sockets)) := ⟨hs.notTransfered, hs.holds⟩
      exact ⟨hheld.same hsame, hsame.isConnected⟩
  | refused hpassive hret hopen hstor hsame =>
      exact absurd hstor (hconnects hpassive hopen).2
  | copied c hsame =>
      have hheld : SocketHeld
          ((s.withDataSocket (some s.sockets.issued, s.sockets.issue)).copied c) :=
        ⟨rfl, hs.holds.issue.release⟩
      exact ⟨hheld.same hsame, hsame.isConnected⟩

/-- **A call keeps what holds between two calls**, in the absence of a connection when it connects.
-/
theorem SocketHeld.step {call : FtpCall} (hs : SocketHeld s) (hconnects : FtpConnects s call)
    (hno : ∀ ipAddress env, call = .connect ipAddress env → s.thiz.isConnected = false)
    (h : ftpStep s call = .ok r) : SocketHeld r.2 := by
  cases call with
  | connect ipAddress env => exact hs.connect (hno ipAddress env rfl) hconnects h
  | login userName pass env => exact hs.same (ftpUploaderLogin_sockets h)
  | setBinaryMode reply => exact hs.same (ftpUploaderSetBinaryMode_sockets h)
  | put fileName file env => exact (hs.put hconnects h).1
  | close reply =>
      obtain ⟨-, hsame⟩ := ftpUploaderClose_sockets h
      obtain ⟨hconnected, htransfered, hholds⟩ := hs.close
      have hheld : SocketHeld (closeSockets s) :=
        ⟨htransfered, by simpa [FtpUploader.held, hconnected] using hholds⟩
      exact hheld.same hsame

/-- Such a call is right about the sockets. -/
theorem SocketHeld.socketsClosed {call : FtpCall} (hs : SocketHeld s)
    (hconnects : FtpConnects s call)
    (hno : ∀ ipAddress env, call = .connect ipAddress env → s.thiz.isConnected = false) :
    SocketsClosed s call := by
  intro o ho
  refine ⟨(hs.step hconnects hno ho).holds.sound, ?_⟩
  rintro reply rfl
  obtain ⟨-, hsockets, response, hthiz⟩ := ftpUploaderClose_sockets ho
  obtain ⟨hconnected, htransfered, hholds⟩ := hs.close
  rw [hsockets, hthiz]
  exact ⟨hconnected, htransfered, hholds.settled_iff.2 rfl⟩

/-- No other call than `ftp_uploader_connect` sets the flag. -/
theorem ftpStep_isConnected {call : FtpCall} (hs : SocketHeld s) (hconnects : FtpConnects s call)
    (hconnect : ∀ ipAddress env, call ≠ .connect ipAddress env)
    (hno : s.thiz.isConnected = false) (h : ftpStep s call = .ok r) :
    r.2.thiz.isConnected = false := by
  cases call with
  | connect ipAddress env => exact absurd rfl (hconnect ipAddress env)
  | login userName pass env => rw [(ftpUploaderLogin_sockets h).isConnected, hno]
  | setBinaryMode reply => rw [(ftpUploaderSetBinaryMode_sockets h).isConnected, hno]
  | put fileName file env => rw [(hs.put hconnects h).2, hno]
  | close reply => rw [(ftpUploaderClose_sockets h).2.isConnected, hs.close.1]

end Step

/-- A run from a state between two calls. -/
theorem SocketHeld.run {calls : List FtpCall} {since : Bool} {s : FtpState} (hs : SocketHeld s)
    (hsince : since = false → s.thiz.isConnected = false) (hone : OneConnect since calls)
    (h : Along ftpStep FtpConnects s calls) : Along ftpStep SocketsClosed s calls := by
  induction calls generalizing since s with
  | nil => trivial
  | cons call calls ih =>
      obtain ⟨hconnects, hrest⟩ := h
      have hno : ∀ ipAddress env, call = .connect ipAddress env →
          s.thiz.isConnected = false := by
        rintro ipAddress env rfl
        exact hsince hone.1
      refine ⟨hs.socketsClosed hconnects hno, fun o ho => ?_⟩
      have hs' := hs.step hconnects hno ho
      have hkeep : (∀ ipAddress env, call ≠ .connect ipAddress env) → since = false →
          o.2.thiz.isConnected = false :=
        fun hne hfalse => ftpStep_isConnected hs hconnects hne (hsince hfalse) ho
      cases call with
      | connect ipAddress env => exact ih hs' Bool.noConfusion hone.2 (hrest o ho)
      | login userName pass env =>
          exact ih hs' (hkeep (by intro _ _ heq; cases heq)) hone (hrest o ho)
      | setBinaryMode reply =>
          exact ih hs' (hkeep (by intro _ _ heq; cases heq)) hone (hrest o ho)
      | put fileName file env =>
          exact ih hs' (hkeep (by intro _ _ heq; cases heq)) hone (hrest o ho)
      | close reply =>
          have hclosed : o.2.thiz.isConnected = false := by
            rw [(ftpUploaderClose_sockets ho).2.isConnected, hs.close.1]
          exact ih hs' (fun _ => hclosed) hone (hrest o ho)

/-- **The sockets of a run.**  With at most one `connect` between two closes, and every call
connecting the socket that it has opened, no socket is closed twice, and a close leaves both flags
cleared and no socket open. -/
theorem ftp_sockets_closed (junk : FtpUnassigned) (calls : List FtpCall)
    (hone : OneConnect false calls) (h : Along ftpStep FtpConnects (ftpStart junk) calls) :
    Along ftpStep SocketsClosed (ftpStart junk) calls :=
  (socketHeld_start junk).run (fun _ => rfl) hone h

def readyReply : Reply := .data ⟨literal "220 ", by decide⟩

def refusalReply : Reply := .data ⟨literal "550 ", by decide⟩

/-- A session that uploads a file of two bytes. -/
def uploadSession : List FtpCall :=
  [.connect (some (literal "10.0.0.1")) ⟨true, true, readyReply⟩,
    .put (some (literal "a")) [1, 2]
      ⟨passiveReply, true, true, startReply, [⟨.bytes 4, some 2⟩, ⟨.bytes 4, none⟩], [], [],
        doneReply⟩,
    .close .closed]

/-- A session whose upload is refused by the reply to `STOR`. -/
def refusedSession : List FtpCall :=
  [.connect (some (literal "10.0.0.1")) ⟨true, true, readyReply⟩,
    .put (some (literal "a")) [1, 2]
      ⟨passiveReply, true, true, refusalReply, [], [], [], .closed⟩] ++
    [.close .closed]

/-- The uninitialised fields, when they hold no open descriptor. -/
def zeroUnassigned : FtpUnassigned := ⟨none, none, List.Vector.replicate respBufferSize 0⟩

theorem uploadSession_closed :
    Along ftpStep SocketsClosed (ftpStart zeroUnassigned) uploadSession := by
  refine ftp_sockets_closed zeroUnassigned uploadSession ⟨rfl, trivial⟩ ?_
  refine ⟨fun _ _ => rfl, fun _ _ => ⟨fun _ _ => ⟨rfl, ?_⟩, fun _ _ => ⟨trivial, fun _ _ => trivial⟩⟩⟩
  decide

/-- The transfer flag is still set behind the close, and the command socket is still open. -/
theorem refusedSession_left :
    ¬ Along ftpStep SocketsClosed (ftpStart zeroUnassigned) refusedSession := by
  have hflag : (trace ftpStep (ftpStart zeroUnassigned) refusedSession).map
      (fun r => r.2.thiz.isTransfered) = .ok true := by decide +kernel
  intro h
  cases hrun : trace ftpStep (ftpStart zeroUnassigned) refusedSession with
  | error e => rw [hrun] at hflag; cases hflag
  | ok r =>
      rw [hrun] at hflag
      have hset : r.2.thiz.isTransfered = true := Except.ok.inj hflag
      obtain ⟨u, o, hclosed, hstep⟩ := h.last hrun
      have hclear := ((hclosed _ hstep).2 .closed rfl).2.1
      rw [hset] at hclear
      cases hclear

end Wsn
