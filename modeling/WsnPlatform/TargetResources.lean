/-
**What a target leaves open.**

`deployer_do_one_target` makes its calls in a row, and leaves at the first that fails.  What it has
opened by then is closed only in the row itself: no close stands at its label `fail`.

Main definitions:

* `TargetCall`, `targetCallStep` — a call that is made for a target, on the sockets and handles;
* `targetCalls` — the row of calls of a target;
* `targetSession`, `deployTarget` — one target;
* `NothingLeft` — a target leaves no socket and no handle open, and has closed none twice;
* `Harmless` — the calls at which a target may be left.

Main results:

* `targetCalls_triple` — what is open where a target is left;
* `deploy_released_iff` — in a deployment no target leaves anything open exactly if every target is
  left at such calls only.
-/

import WsnPlatform.CallRow
import WsnPlatform.Deployer
import WsnPlatform.FtpSockets
import WsnPlatform.TelnetHandles

set_option relaxedAutoImplicit false
set_option autoImplicit false

namespace Wsn

open FaultRun

/-! ### The calls of a target -/

/-- Why `deployer_do_one_target` does not return. -/
inductive TargetHalt
  | ftp (e : Fault)
  | telnet (halt : TelnetHalt)

/-- The uploader and the commander, with their sockets and handles. -/
structure TargetState where
  ftp : FtpState
  telnet : TelnetState

/-- A call that is made for a target: on the uploader, on the commander, or `dlist_foreach` over the
commands. -/
inductive TargetCall
  | ftp (call : FtpCall)
  | telnet (call : TelnetCall)
  | commands (telnetCommandList : Option (List CText)) (wires : ℕ → Wire)

/-- The loop of `dlist_foreach` over the commands, from the `i`th on. -/
def commandLoop (wires : ℕ → Wire) :
    Ret → List CText → ℕ → TelnetState → Except TelnetHalt (Ret × TelnetState)
  | ret, [], _, s => .ok (ret, s)
  | ret, command :: commands, i, s =>
      if ret ≠ .stop then do
        let r ← telnetStep s (.sendOneLine (some command) (wires i))
        commandLoop wires r.1 commands (i + 1) r.2
      else .ok (ret, s)

/-- `dlist_foreach` over the commands. -/
def foreachCommand (telnetCommandList : Option (List CText)) (wires : ℕ → Wire)
    (s : TelnetState) : Except TelnetHalt (Ret × TelnetState) :=
  match telnetCommandList with
  | none => .ok (.invalidParams, s)
  | some commands => commandLoop wires .ok commands 0 s

/-- A call on the uploader, within the state of the target. -/
def TargetState.withFtp (s : TargetState) (r : Exec (Ret × FtpState)) :
    Except TargetHalt (Ret × TargetState) :=
  match r with
  | .error e => .error (.ftp e)
  | .ok r => .ok (r.1, { s with ftp := r.2 })

/-- A call on the commander, within the state of the target. -/
def TargetState.withTelnet (s : TargetState) (r : Except TelnetHalt (Ret × TelnetState)) :
    Except TargetHalt (Ret × TargetState) :=
  match r with
  | .error halt => .error (.telnet halt)
  | .ok r => .ok (r.1, { s with telnet := r.2 })

def targetCallStep (s : TargetState) : TargetCall → Except TargetHalt (Ret × TargetState)
  | .ftp call => s.withFtp (ftpStep s.ftp call)
  | .telnet call => s.withTelnet (telnetStep s.telnet call)
  | .commands telnetCommandList wires =>
      s.withTelnet (foreachCommand telnetCommandList wires s.telnet)

/-- **What the calls for one target get**: the answers to the system calls, and the files. -/
structure TargetAnswers where
  ftpConnect : FtpConnectEnv
  ftpLogin : FtpLoginEnv
  ftpSetBinaryMode : Reply
  readlink : ℕ → Option { path : CText // path.length < pathMaxLength }
  file : ℕ → List UInt8
  ftpPut : ℕ → FtpPutEnv
  ftpClose : Reply
  telnetConnect : TelnetConnectEnv
  telnetLogin : Wire
  telnetSendOneLine : ℕ → Wire

/-- The uploads, from the `i`th file on. -/
def putCalls (a : TargetAnswers) : List ℤ → ℕ → List TargetCall
  | [], _ => []
  | fd :: fds, i =>
      .ftp (.put (deployName fd (a.readlink i)) (a.file i) (a.ftpPut i)) :: putCalls a fds (i + 1)

/-- **The row of calls of `deployer_do_one_target`.**  The first that does not return `RET_OK` is
followed by `goto fail`.  This is not so for `ftp_uploader_close`, which always returns it. -/
def targetCalls (thiz : Deployer) (ipAddress : CText) (a : TargetAnswers) : List TargetCall :=
  [TargetCall.ftp (.connect (some ipAddress) a.ftpConnect)] ++
    ([TargetCall.ftp (.login thiz.ftpUsername thiz.ftpPassword a.ftpLogin)] ++
      ([TargetCall.ftp (.setBinaryMode a.ftpSetBinaryMode)] ++
        (putCalls a thiz.deployFileList 0 ++
          ([TargetCall.ftp (.close a.ftpClose)] ++
            ([TargetCall.telnet (.connect (some ipAddress) a.telnetConnect)] ++
              ([TargetCall.telnet (.login thiz.telnetUsername thiz.telnetPassword a.telnetLogin)] ++
                ([TargetCall.commands thiz.telnetCommandList a.telnetSendOneLine] ++
                  [TargetCall.telnet .close])))))))

/-- **`deployer_do_one_target`**, apart from the event callback: the call at which it is left, with
what that has returned. -/
def targetSession (thiz : Deployer) (ipAddress : CText) (a : TargetAnswers) (s : TargetState) :
    Except TargetHalt (Option (TargetCall × Ret) × TargetState) :=
  CallRow.run targetCallStep (· = .ok) s (targetCalls thiz ipAddress a)

/-- The turn of the loop of `deployer_do_deploy` for an entry of `deploy_target_list`. -/
def deployTarget (thiz : Deployer) (s : TargetState) (target : Option CText × TargetAnswers) :
    Except TargetHalt (Option (TargetCall × Ret) × TargetState) :=
  match target.1 with
  | none => .ok (none, s)
  | some ipAddress => targetSession thiz ipAddress target.2 s

/-- The entries of `deploy_target_list`, with what the calls for each get. -/
def deployTargets (thiz : Deployer) (answers : ℕ → TargetAnswers) :
    List (Option CText × TargetAnswers) :=
  thiz.deployTargetList.zipIdx.map fun p => (p.1, answers p.2)

/-- The uploader and the commander as `deployer_init` creates them. -/
def deployStart (junk : FtpUnassigned) : TargetState := ⟨ftpStart junk, telnetStart⟩

/-! ### What is open -/

/-- **Every socket was closed and every handle freed, each exactly once.** -/
structure Released (s : TargetState) : Prop where
  ftpSockets : s.ftp.sockets.Sound ∧ s.ftp.sockets.Settled
  telnetSockets : s.telnet.sockets.Sound ∧ s.telnet.sockets.Settled
  handles : s.telnet.handles.Sound ∧ s.telnet.handles.Settled

/-- **A target that leaves nothing open.** -/
def NothingLeft (thiz : Deployer) (s : TargetState) (target : Option CText × TargetAnswers) : Prop :=
  ∀ o, deployTarget thiz s target = .ok o → Released o.2

/-- **The calls at which a target may be left**: `ftp_uploader_connect` when its `socket` fails, and
`telnet_commander_connect`. -/
def Harmless : TargetCall → Prop
  | .ftp (.connect _ env) => env.socket = false
  | .telnet (.connect _ _) => True
  | _ => False

/-- **The first call of the row that does not return `RET_OK`** is one of these. -/
def LeftHarmlessly (thiz : Deployer) (s : TargetState) (target : Option CText × TargetAnswers) :
    Prop :=
  ∀ ipAddress, target.1 = some ipAddress →
    ∀ pre c post t r, targetCalls thiz ipAddress target.2 = pre ++ c :: post →
      CallRow.Passes targetCallStep (· = .ok) s pre t → targetCallStep t c = .ok r → r.1 ≠ .ok →
        Harmless c

/-- The uploader holds no socket. -/
structure FtpIdle (s : FtpState) : Prop extends SocketHeld s where
  notConnected : s.thiz.isConnected = false

/-- The uploader holds a socket. -/
structure FtpOpen (s : FtpState) : Prop extends SocketHeld s where
  connected : s.thiz.isConnected = true
  commandSocket : s.thiz.commandSocket ≠ none

/-- The commander holds nothing. -/
structure TelnetIdle (s : TelnetState) : Prop where
  socket : s.thiz.socket = none
  telnet : s.thiz.telnet.held = []
  sockets : s.sockets.Holds []
  handles : s.handles.Holds []

/-- The commander holds a socket. -/
structure TelnetOpen (s : TelnetState) : Prop where
  socket : s.thiz.socket ≠ none
  telnet : s.thiz.telnet ≠ .unassigned
  sockets : s.sockets.Holds s.thiz.socket.toList
  handles : s.handles.Holds s.thiz.telnet.held

/-! ### The uploader -/

section Uploader

variable {s : FtpState} {r : Ret × FtpState}

theorem FtpIdle.holds_nil (hs : FtpIdle s) : s.sockets.Holds [] := by
  simpa [FtpUploader.held, hs.notConnected] using hs.holds

theorem FtpOpen.exists_holds (hs : FtpOpen s) : ∃ n, s.sockets.Holds [n] := by
  obtain ⟨n, hn⟩ := Option.ne_none_iff_exists'.1 hs.commandSocket
  exact ⟨n, by simpa [FtpUploader.held, hs.connected, hn] using hs.holds⟩

/-- A socket that is held has not been closed. -/
theorem not_settled_cons {sockets : Ledger} {n : ℕ} {held : List ℕ} (h : sockets.Holds (n :: held)) :
    ¬ sockets.Settled := by
  rw [h.settled_iff]
  exact List.cons_ne_nil n held

theorem FtpOpen.same {t : FtpState} (hs : FtpOpen s) (h : SameSockets s t) : FtpOpen t := by
  refine ⟨hs.toSocketHeld.same h, by rw [h.isConnected, hs.connected], ?_⟩
  obtain ⟨-, response, hthiz⟩ := h
  rw [hthiz]
  exact hs.commandSocket

theorem FtpOpen.not_settled (hs : FtpOpen s) : ¬ s.sockets.Settled := by
  obtain ⟨n, hn⟩ := hs.exists_holds
  exact not_settled_cons hn

/-- **Connecting**: the command socket is held afterwards, unless `socket` has failed. -/
theorem FtpIdle.connect {ipAddress : CText} {env : FtpConnectEnv} (hs : FtpIdle s)
    (h : ftpUploaderConnect (some ipAddress) env s = .ok r) :
    (r.1 = .ok → FtpOpen r.2) ∧
      (r.1 ≠ .ok → (env.socket = false → FtpIdle r.2) ∧
        (env.socket ≠ false → ¬ r.2.sockets.Settled)) := by
  have hopen : ∀ t : FtpState, SameSockets
      (s.withCommandSocket (some s.sockets.issued, s.sockets.issue)).connected t → FtpOpen t := by
    intro t ht
    have hconnected : FtpOpen
        (s.withCommandSocket (some s.sockets.issued, s.sockets.issue)).connected :=
      ⟨⟨hs.notTransfered, hs.holds_nil.issue⟩, rfl, Option.some_ne_none _⟩
    exact hconnected.same ht
  cases ftpUploaderConnect_sockets h with
  | noAddress hip => cases hip
  | noConnection hip hfails =>
      refine ⟨(by intro hok; cases hok), fun _ => ⟨fun hsocket => ?_, fun hsocket => ?_⟩⟩
      · have hidle : FtpIdle (s.withCommandSocket (none, s.sockets)) :=
          ⟨⟨hs.notTransfered, by
            simpa [FtpUploader.held, FtpState.withCommandSocket, hs.notConnected] using
              hs.holds_nil⟩, hs.notConnected⟩
        rw [hsocket]
        exact hidle
      · rw [Bool.eq_true_of_not_eq_false hsocket]
        exact not_settled_cons hs.holds_nil.issue
  | connected hip hsocket hconnect hsame =>
      refine ⟨fun _ => hopen r.2 hsame, fun _ => ⟨fun hno => ?_, fun _ => ?_⟩⟩
      · rw [hsocket] at hno
        cases hno
      · exact (hopen r.2 hsame).not_settled

/-- **Putting a file**: the command socket is held afterwards. -/
theorem FtpOpen.put {fileName : Option CText} {file : List UInt8} {env : FtpPutEnv}
    (hs : FtpOpen s) (h : ftpUploaderPut fileName file env s = .ok r) :
    (r.1 = .ok → FtpOpen r.2) ∧ (r.1 ≠ .ok → ¬ r.2.sockets.Settled) := by
  obtain ⟨n, hn⟩ := hs.exists_holds
  cases ftpUploaderPut_sockets h with
  | early hret hsame =>
      exact ⟨fun hok => absurd hok hret, fun _ => (hs.same hsame).not_settled⟩
  | noConnection hpassive hret hfails hsame =>
      refine ⟨(by rw [hret]; intro hok; cases hok), fun _ => ?_⟩
      rw [hsame.1]
      cases hsocket : env.socket with
      | false => exact not_settled_cons hn
      | true => exact not_settled_cons hn.issue
  | refused hpassive hret hopen hstor hsame =>
      refine ⟨(by rw [hret]; intro hok; cases hok), fun _ => ?_⟩
      rw [hsame.1]
      exact not_settled_cons hn.issue
  | copied c hsame =>
      have hcopied : FtpOpen
          ((s.withDataSocket (some s.sockets.issued, s.sockets.issue)).copied c) :=
        ⟨⟨rfl, hs.holds.issue.release⟩, hs.connected, hs.commandSocket⟩
      exact ⟨fun _ => hcopied.same hsame, fun _ => (hcopied.same hsame).not_settled⟩

/-- **Closing** an uploader between two calls leaves it idle. -/
theorem FtpOpen.close {reply : Reply} (hs : FtpOpen s) (h : ftpUploaderClose reply s = .ok r) :
    r.1 = .ok ∧ FtpIdle r.2 := by
  obtain ⟨hret, hsame⟩ := ftpUploaderClose_sockets h
  obtain ⟨hconnected, htransfered, hholds⟩ := hs.toSocketHeld.close
  have hheld : SocketHeld (closeSockets s) :=
    ⟨htransfered, by simpa [FtpUploader.held, hconnected] using hholds⟩
  exact ⟨hret, hheld.same hsame, by rw [hsame.isConnected, hconnected]⟩

end Uploader

/-! ### The commander -/

section Commander

variable {s : TelnetState} {r : Ret × TelnetState}

theorem TelnetOpen.not_settled (hs : TelnetOpen s) : ¬ s.sockets.Settled := by
  obtain ⟨n, hn⟩ := Option.ne_none_iff_exists'.1 hs.socket
  have hholds := hs.sockets
  rw [hn] at hholds
  exact not_settled_cons hholds

/-- **Closing** leaves the commander idle. -/
theorem telnetCommanderClose_idle (hsockets : s.sockets.Holds s.thiz.socket.toList)
    (hhandles : s.handles.Holds s.thiz.telnet.held) (h : telnetCommanderClose s = .ok r) :
    TelnetIdle r.2 := by
  obtain ⟨hthiz, hfreed⟩ := telnetCommanderClose_handles hhandles h
  have hclosed : r.2.sockets.Holds [] :=
    telnetCommanderClose_sockets (by rw [List.append_nil]; exact hsockets) h
  exact ⟨by rw [hthiz], by rw [hthiz]; rfl, hclosed, hfreed⟩

theorem telnetOpen_open (hs : TelnetIdle s) (telnetInit : Bool) :
    TelnetOpen (telnetOpen s telnetInit) :=
  ⟨Option.some_ne_none _, telnetOpen_telnet s telnetInit, hs.sockets.issue,
    telnetOpen_handles hs.handles telnetInit⟩

/-- **Connecting** an idle commander leaves it open, or idle when it fails. -/
theorem TelnetIdle.connect {ipAddress : CText} {env : TelnetConnectEnv} (hs : TelnetIdle s)
    (h : telnetCommanderConnect (some ipAddress) env s = .ok r) :
    (r.1 = .ok → TelnetOpen r.2) ∧ (r.1 ≠ .ok → TelnetIdle r.2) := by
  have hfail : ∀ t : TelnetState, t.sockets.Holds t.thiz.socket.toList →
      t.handles.Holds t.thiz.telnet.held → telnetConnectFail t = .ok r →
      (r.1 = .ok → TelnetOpen r.2) ∧ (r.1 ≠ .ok → TelnetIdle r.2) := by
    intro t hsockets hhandles ht
    obtain ⟨hret, o, hclose, ho⟩ := telnetConnectFail_eq_ok ht
    rw [← ho, hret]
    exact ⟨(by intro hok; cases hok),
      fun _ => telnetCommanderClose_idle hsockets hhandles hclose⟩
  rw [telnetCommanderConnect, if_neg (Option.some_ne_none ipAddress)] at h
  split_ifs at h with hsocket hconnect
  · refine hfail s.withoutSocket hs.sockets ?_ h
    have hhandles : s.handles.Holds s.thiz.telnet.held := by
      rw [hs.telnet]
      exact hs.handles
    exact hhandles
  · cases h
    exact ⟨fun _ => telnetOpen_open hs env.telnetInit, fun hne => absurd rfl hne⟩
  · have hopen := telnetOpen_open hs env.telnetInit
    exact hfail _ hopen.sockets hopen.handles h

/-- The commands leave the sockets and handles as they are. -/
theorem commandLoop_state {wires : ℕ → Wire} {ret : Ret} {commands : List CText} {i : ℕ}
    (h : commandLoop wires ret commands i s = .ok r) : r.2 = s := by
  induction commands generalizing ret i s with
  | nil => cases h; rfl
  | cons command commands ih =>
      rw [commandLoop] at h
      split_ifs at h
      · cases hstep : telnetStep s (.sendOneLine (some command) (wires i)) with
        | error e => rw [hstep] at h; cases h
        | ok o =>
            rw [hstep] at h
            have hstate : o.2 = s := talkStep_eq_ok hstep
            rw [ih h, hstate]
      · cases h; rfl

theorem foreachCommand_state {telnetCommandList : Option (List CText)} {wires : ℕ → Wire}
    (h : foreachCommand telnetCommandList wires s = .ok r) : r.2 = s := by
  cases telnetCommandList with
  | none => cases h; rfl
  | some commands => exact commandLoop_state h

end Commander

/-! ### The row -/

/-- Nothing is open. -/
def NothingOpen (s : TargetState) : Prop := FtpIdle s.ftp ∧ TelnetIdle s.telnet

/-- The uploader holds a socket, the commander nothing. -/
def Uploading (s : TargetState) : Prop := FtpOpen s.ftp ∧ TelnetIdle s.telnet

/-- The commander holds a socket, the uploader nothing. -/
def Commanding (s : TargetState) : Prop := FtpIdle s.ftp ∧ TelnetOpen s.telnet

/-- **What is open where a target is left**: nothing at the harmless calls, something at the others.
-/
def LeftAt (c : TargetCall) (s : TargetState) : Prop :=
  (Harmless c → NothingOpen s) ∧ (¬ Harmless c → ¬ Released s)

theorem NothingOpen.released {s : TargetState} (hs : NothingOpen s) : Released s := by
  obtain ⟨hftp, htelnet⟩ := hs
  exact ⟨⟨hftp.holds_nil.sound, hftp.holds_nil.settled_iff.2 rfl⟩,
    ⟨htelnet.sockets.sound, htelnet.sockets.settled_iff.2 rfl⟩,
    ⟨htelnet.handles.sound, htelnet.handles.settled_iff.2 rfl⟩⟩

/-- A triple for a row of calls of a target. -/
abbrev Row (P : TargetState → Prop) (calls : List TargetCall) (Q : TargetState → Prop) : Prop :=
  CallRow.Triple targetCallStep (· = .ok) P calls Q LeftAt

/-- A call on the uploader, while the commander is idle. -/
theorem row_ftp {call : FtpCall} {P Q : FtpState → Prop}
    (hgood : ∀ s r, P s → ftpStep s call = .ok r → r.1 = .ok → Q r.2)
    (hbad : ∀ s r t, P s → TelnetIdle t → ftpStep s call = .ok r → r.1 ≠ .ok →
      LeftAt (.ftp call) ⟨r.2, t⟩) :
    Row (fun s => P s.ftp ∧ TelnetIdle s.telnet) [.ftp call]
      (fun s => Q s.ftp ∧ TelnetIdle s.telnet) := by
  have hstep : ∀ s r, targetCallStep s (.ftp call) = .ok r →
      ∃ f, ftpStep s.ftp call = .ok f ∧ r = (f.1, { s with ftp := f.2 }) := by
    intro s r h
    rw [targetCallStep] at h
    cases hcall : ftpStep s.ftp call with
    | error e => rw [hcall] at h; cases h
    | ok f => rw [hcall] at h; cases h; exact ⟨f, rfl, rfl⟩
  refine CallRow.Triple.one (fun s r hP h hret => ?_) (fun s r hP h hret => ?_)
  · obtain ⟨f, hf, rfl⟩ := hstep s r h
    exact ⟨hgood s.ftp f hP.1 hf hret, hP.2⟩
  · obtain ⟨f, hf, rfl⟩ := hstep s r h
    exact hbad s.ftp f s.telnet hP.1 hP.2 hf hret

/-- A call on the commander, while the uploader is idle. -/
theorem row_telnet {c : TargetCall} (call : TelnetState → Except TelnetHalt (Ret × TelnetState))
    {P Q : TelnetState → Prop} (hc : ∀ s, targetCallStep s c = s.withTelnet (call s.telnet))
    (hgood : ∀ s r, P s → call s = .ok r → r.1 = .ok → Q r.2)
    (hbad : ∀ s r f, P s → FtpIdle f → call s = .ok r → r.1 ≠ .ok → LeftAt c ⟨f, r.2⟩) :
    Row (fun s => FtpIdle s.ftp ∧ P s.telnet) [c] (fun s => FtpIdle s.ftp ∧ Q s.telnet) := by
  have hstep : ∀ s r, targetCallStep s c = .ok r →
      ∃ t, call s.telnet = .ok t ∧ r = (t.1, { s with telnet := t.2 }) := by
    intro s r h
    rw [hc] at h
    cases hcall : call s.telnet with
    | error e => rw [hcall] at h; cases h
    | ok t => rw [hcall] at h; cases h; exact ⟨t, rfl, rfl⟩
  refine CallRow.Triple.one (fun s r hP h hret => ?_) (fun s r hP h hret => ?_)
  · obtain ⟨t, ht, rfl⟩ := hstep s r h
    exact ⟨hP.1, hgood s.telnet t hP.2 ht hret⟩
  · obtain ⟨t, ht, rfl⟩ := hstep s r h
    exact hbad s.telnet t s.ftp hP.2 hP.1 ht hret

/-- Left with an open socket of the uploader. -/
theorem leftAt_ftp {c : TargetCall} {s : TargetState} (hc : ¬ Harmless c)
    (h : ¬ s.ftp.sockets.Settled) : LeftAt c s :=
  ⟨fun hharmless => absurd hharmless hc, fun _ hreleased => h hreleased.ftpSockets.2⟩

/-- Left with an open socket of the commander. -/
theorem leftAt_telnet {c : TargetCall} {s : TargetState} (hc : ¬ Harmless c)
    (h : TelnetOpen s.telnet) : LeftAt c s :=
  ⟨fun hharmless => absurd hharmless hc,
    fun _ hreleased => h.not_settled hreleased.telnetSockets.2⟩

theorem row_ftpConnect (ipAddress : CText) (env : FtpConnectEnv) :
    Row NothingOpen [.ftp (.connect (some ipAddress) env)] Uploading := by
  refine row_ftp (fun s r hs h hret => (hs.connect h).1 hret) fun s r t hs ht h hret => ?_
  obtain ⟨hidle, hopen⟩ := (hs.connect h).2 hret
  exact ⟨fun hsocket => ⟨hidle hsocket, ht⟩,
    fun hsocket hreleased => hopen hsocket hreleased.ftpSockets.2⟩

theorem row_ftpLogin (userName pass : Option CText) (env : FtpLoginEnv) :
    Row Uploading [.ftp (.login userName pass env)] Uploading := by
  refine row_ftp (fun s r hs h _ => hs.same (ftpUploaderLogin_sockets h))
    fun s r t hs ht h hret => ?_
  exact leftAt_ftp not_false (hs.same (ftpUploaderLogin_sockets h)).not_settled

theorem row_ftpSetBinaryMode (reply : Reply) :
    Row Uploading [.ftp (.setBinaryMode reply)] Uploading := by
  refine row_ftp (fun s r hs h _ => hs.same (ftpUploaderSetBinaryMode_sockets h))
    fun s r t hs ht h hret => ?_
  exact leftAt_ftp not_false (hs.same (ftpUploaderSetBinaryMode_sockets h)).not_settled

theorem row_ftpPut (fileName : Option CText) (file : List UInt8) (env : FtpPutEnv) :
    Row Uploading [.ftp (.put fileName file env)] Uploading :=
  row_ftp (fun _ _ hs h hret => (hs.put h).1 hret)
    fun _ _ _ hs _ h hret => leftAt_ftp not_false ((hs.put h).2 hret)

/-- The uploads. -/
theorem row_putCalls (a : TargetAnswers) (fds : List ℤ) (i : ℕ) :
    Row Uploading (putCalls a fds i) Uploading := by
  induction fds generalizing i with
  | nil => exact .nil
  | cons fd fds ih => exact (row_ftpPut _ _ _).append (ih (i + 1))

theorem row_ftpClose (reply : Reply) : Row Uploading [.ftp (.close reply)] NothingOpen :=
  row_ftp (fun _ _ hs h _ => (hs.close h).2) fun _ _ _ hs _ h hret => absurd (hs.close h).1 hret

theorem row_telnetConnect (ipAddress : CText) (env : TelnetConnectEnv) :
    Row NothingOpen [.telnet (.connect (some ipAddress) env)] Commanding :=
  row_telnet (fun s => telnetStep s (.connect (some ipAddress) env)) (fun _ => rfl)
    (fun _ _ hs h hret => (hs.connect h).1 hret)
    fun _ _ _ hs hf h hret =>
      ⟨fun _ => ⟨hf, (hs.connect h).2 hret⟩, fun hno => absurd trivial hno⟩

theorem row_telnetLogin (username pass : Option CText) (w : Wire) :
    Row Commanding [.telnet (.login username pass w)] Commanding := by
  refine row_telnet (fun s => telnetStep s (.login username pass w)) (fun _ => rfl)
    (fun s r hs h _ => ?_) fun s r f hs hf h hret => ?_
  · rw [talkStep_eq_ok h]
    exact hs
  · rw [talkStep_eq_ok h]
    exact leftAt_telnet not_false hs

theorem row_commands (telnetCommandList : Option (List CText)) (wires : ℕ → Wire) :
    Row Commanding [.commands telnetCommandList wires] Commanding := by
  refine row_telnet (foreachCommand telnetCommandList wires) (fun _ => rfl)
    (fun s r hs h _ => ?_) fun s r f hs hf h hret => ?_
  · rw [foreachCommand_state h]
    exact hs
  · rw [foreachCommand_state h]
    exact leftAt_telnet not_false hs

theorem row_telnetClose : Row Commanding [.telnet .close] NothingOpen := by
  refine row_telnet (fun s => telnetStep s .close) (fun _ => rfl)
    (fun s r hs h _ => telnetCommanderClose_idle hs.sockets hs.handles h)
    fun s r f hs hf h hret => ?_
  obtain ⟨s', hclose, -⟩ := telnetCommanderClose_eq hs.telnet
  have hr : telnetCommanderClose s = .ok r := h
  rw [hclose] at hr
  cases hr
  exact absurd rfl hret

/-- **The row of a target** comes from and to a state in which nothing is open. -/
theorem targetCalls_triple (thiz : Deployer) (ipAddress : CText) (a : TargetAnswers) :
    Row NothingOpen (targetCalls thiz ipAddress a) NothingOpen :=
  (row_ftpConnect ipAddress a.ftpConnect).append <|
    (row_ftpLogin thiz.ftpUsername thiz.ftpPassword a.ftpLogin).append <|
    (row_ftpSetBinaryMode a.ftpSetBinaryMode).append <|
    (row_putCalls a thiz.deployFileList 0).append <|
    (row_ftpClose a.ftpClose).append <|
    (row_telnetConnect ipAddress a.telnetConnect).append <|
    (row_telnetLogin thiz.telnetUsername thiz.telnetPassword a.telnetLogin).append <|
    (row_commands thiz.telnetCommandList a.telnetSendOneLine).append row_telnetClose

/-! ### Deployments -/

section Deployments

variable {thiz : Deployer} {s : TargetState} {target : Option CText × TargetAnswers}

/-- The target is left at that call. -/
theorem leftHarmlessly_iff : LeftHarmlessly thiz s target ↔
    ∀ c ret s', deployTarget thiz s target = .ok (some (c, ret), s') → Harmless c := by
  obtain ⟨entry, a⟩ := target
  cases entry with
  | none =>
      constructor
      · intro _ c ret s' h
        cases h
      · intro _ ipAddress hip
        cases hip
  | some ipAddress =>
      constructor
      · intro hleft c ret s' h
        obtain ⟨pre, post, t, hrow, hpasses, hstep, hret⟩ := CallRow.run_eq_stopped.1 h
        exact hleft ipAddress rfl pre c post t (ret, s') hrow hpasses hstep hret
      · intro hleft ip hip pre c post t r hrow hpasses hstep hret
        cases hip
        exact hleft c r.1 r.2 (CallRow.run_eq_stopped.2 ⟨pre, post, t, hrow, hpasses, hstep, hret⟩)

/-- A target that is left at a harmless call leaves nothing open. -/
theorem NothingOpen.deployTarget {o : Option (TargetCall × Ret) × TargetState}
    (hs : NothingOpen s) (hleft : LeftHarmlessly thiz s target)
    (h : deployTarget thiz s target = .ok o) : NothingOpen o.2 := by
  obtain ⟨entry, a⟩ := target
  cases entry with
  | none => cases h; exact hs
  | some ipAddress =>
      have htriple := targetCalls_triple thiz ipAddress a
      obtain ⟨left, s'⟩ := o
      cases left with
      | none => exact htriple.ends s s' hs h
      | some stop =>
          obtain ⟨c, ret⟩ := stop
          exact (htriple.stops s c ret s' hs h).1 (leftHarmlessly_iff.1 hleft c ret s' h)

/-- **A target leaves nothing open exactly if it is left at a harmless call**, if at all. -/
theorem nothingLeft_iff (hs : NothingOpen s) :
    NothingLeft thiz s target ↔ LeftHarmlessly thiz s target := by
  constructor
  · intro hnothing
    rw [leftHarmlessly_iff]
    intro c ret s' h
    obtain ⟨entry, a⟩ := target
    cases entry with
    | none => cases h
    | some ipAddress =>
        by_contra hno
        have hstops := (targetCalls_triple thiz ipAddress a).stops s c ret s' hs h
        exact hstops.2 hno (hnothing _ h)
  · intro hleft o h
    exact (hs.deployTarget hleft h).released

theorem nothingOpen_start (junk : FtpUnassigned) : NothingOpen (deployStart junk) :=
  ⟨⟨socketHeld_start junk, rfl⟩, rfl, rfl, Ledger.holds_empty, Ledger.holds_empty⟩

/-- No target leaves anything open, and nothing is open behind the last one. -/
def DeployReleased (thiz : Deployer) (junk : FtpUnassigned) (answers : ℕ → TargetAnswers) : Prop :=
  Along (deployTarget thiz) (NothingLeft thiz) (deployStart junk) (deployTargets thiz answers) ∧
    ∀ tr s, trace (deployTarget thiz) (deployStart junk) (deployTargets thiz answers) = .ok (tr, s) →
      Released s

end Deployments

/-- **When a deployment leaves nothing open**: exactly when, for every target, the first call that
does not return `RET_OK` is a harmless one. -/
theorem deploy_released_iff (thiz : Deployer) (junk : FtpUnassigned) (answers : ℕ → TargetAnswers) :
    DeployReleased thiz junk answers ↔
      Along (deployTarget thiz) (LeftHarmlessly thiz) (deployStart junk)
        (deployTargets thiz answers) := by
  have hkept : ∀ s target o, NothingOpen s → LeftHarmlessly thiz s target →
      deployTarget thiz s target = .ok o → NothingOpen o.2 :=
    fun _ _ _ hs hleft ho => hs.deployTarget hleft ho
  have hiff : Along (deployTarget thiz) (LeftHarmlessly thiz) (deployStart junk)
      (deployTargets thiz answers) ↔
        Along (deployTarget thiz) (NothingLeft thiz) (deployStart junk)
          (deployTargets thiz answers) :=
    along_iff_of_kept hkept (fun _ _ hs => (nothingLeft_iff hs).symm) (nothingOpen_start junk) _
  constructor
  · intro h
    exact hiff.2 h.1
  · intro h
    refine ⟨hiff.1 h, fun tr s hrun => ?_⟩
    have hopen : NothingOpen s := h.trace_invariant hkept (nothingOpen_start junk) hrun
    exact hopen.released

/-- A deployment to one target. -/
def oneTarget : Deployer where
  ftpUsername := some (literal "root")
  ftpPassword := some []
  telnetUsername := some (literal "root")
  telnetPassword := some []
  telnetCommandList := some []
  deployTargetList := [some (literal "10.0.0.1")]
  deployFileList := []

/-- The target cannot be reached: `connect` fails for both of its sockets. -/
def unreachable : TargetAnswers where
  ftpConnect := ⟨true, false, .closed⟩
  ftpLogin := ⟨true, .closed, .closed⟩
  ftpSetBinaryMode := .closed
  readlink := fun _ => none
  file := fun _ => []
  ftpPut := fun _ => ⟨.closed, true, false, .closed, [], [], [], .closed⟩
  ftpClose := .closed
  telnetConnect := ⟨true, true, false⟩
  telnetLogin := newWire []
  telnetSendOneLine := fun _ => newWire []

/-- The command socket of the target is left open. -/
theorem unreachable_left : ¬ DeployReleased oneTarget zeroUnassigned fun _ => unreachable := by
  rintro ⟨⟨hleft, -⟩, -⟩
  have hsettled := (hleft _ rfl).ftpSockets.2 0 Nat.zero_lt_one
  cases hsettled

end Wsn
