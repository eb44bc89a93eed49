/-
**The codes of a target.**

`deployer_do_one_target` is modelled twice: with the return codes of its calls as the environment,
for what it reports, and with the sockets and handles, for what it leaves open.  When the codes are
those that the calls on the sockets return, both make the same calls, and return the same.

Main definitions:

* `sessionEnv` — the codes that the calls of a session return;
* `SameCall` — a call and a step that stand for the same call of the source.

Main results:

* `targetCalls_steps` — the calls of a session are those of the steps;
* `targetSteps_codes` — the steps return the codes of the session;
* `deployerDoOneTarget_session` — both return the same.
-/

import WsnPlatform.TargetResources

set_option relaxedAutoImplicit false
set_option autoImplicit false

namespace Wsn

open CallRow

/-! ### The codes of the calls -/

/-- The code of a call; `RET_OK` stands for that of a call that does not return. -/
def codeOf {ε σ : Type} : Except ε (Ret × σ) → Ret
  | .error _ => .ok
  | .ok r => r.1

/-- The codes of `telnet_commander_send_one_line` for the commands. -/
def sendCodes (telnetCommandList : Option (List CText)) (wires : ℕ → Wire)
    (s : TelnetState) (k : ℕ) : Ret :=
  codeOf (telnetStep s (.sendOneLine (telnetCommandList.getD [])[k]? (wires k)))

/-- The code of a call for a target. -/
def targetCode (s : TargetState) : TargetCall → Ret
  | .ftp call => codeOf (ftpStep s.ftp call)
  | .telnet call => codeOf (telnetStep s.telnet call)
  | .commands telnetCommandList wires =>
      (dlistForeach telnetCommandList
        (fun k _ => (sendCodes telnetCommandList wires s.telnet k, k + 1)) 0).1

/-- **The codes that the calls of a session return**, each in the state that those before it leave.
-/
def sessionEnv (thiz : Deployer) (ipAddress : CText) (a : TargetAnswers) (s : TargetState) :
    TargetEnv :=
  let connect := TargetCall.ftp (.connect (some ipAddress) a.ftpConnect)
  let login := TargetCall.ftp (.login thiz.ftpUsername thiz.ftpPassword a.ftpLogin)
  let setBinaryMode := TargetCall.ftp (.setBinaryMode a.ftpSetBinaryMode)
  let puts := putCalls a thiz.deployFileList 0
  let telnetConnect := TargetCall.telnet (.connect (some ipAddress) a.telnetConnect)
  let telnetLogin :=
    TargetCall.telnet (.login thiz.telnetUsername thiz.telnetPassword a.telnetLogin)
  let s₁ := next targetCallStep s connect
  let s₂ := next targetCallStep s₁ login
  let s₃ := next targetCallStep s₂ setBinaryMode
  let s₄ := next targetCallStep (after targetCallStep s₃ puts) (.ftp (.close a.ftpClose))
  let s₅ := next targetCallStep s₄ telnetConnect
  let s₆ := next targetCallStep s₅ telnetLogin
  { ftpConnect := targetCode s connect
    ftpLogin := targetCode s₁ login
    ftpSetBinaryMode := targetCode s₂ setBinaryMode
    readlink := a.readlink
    ftpPut := fun i => (codes targetCallStep targetCode s₃ puts).getD i .ok
    telnetConnect := targetCode s₄ telnetConnect
    telnetLogin := targetCode s₅ telnetLogin
    telnetSendOneLine := sendCodes thiz.telnetCommandList a.telnetSendOneLine s₆.telnet }

/-! ### What the calls return -/

section Calls

variable {s : TelnetState} {r : Ret × TelnetState}

/-- The loop over the commands returns what it does on their codes. -/
theorem commandLoop_code {commands : List CText} {wires : ℕ → Wire} (pre rest : List CText)
    (hcommands : commands = pre ++ rest) {ret : Ret}
    (h : commandLoop wires ret rest pre.length s = .ok r) :
    r.1 = (foreachLoop (fun k _ => (sendCodes (some commands) wires s k, k + 1)) ret rest
      pre.length).1 := by
  induction rest generalizing pre ret with
  | nil => cases h; rfl
  | cons command rest ih =>
      rw [commandLoop] at h
      rw [foreachLoop]
      split_ifs at h ⊢
      · cases hstep : telnetStep s (.sendOneLine (some command) (wires pre.length)) with
        | error e => rw [hstep] at h; cases h
        | ok o =>
            have hcode : sendCodes (some commands) wires s pre.length = o.1 := by
              have hget : commands[pre.length]? = some command := by
                rw [hcommands, List.getElem?_append_right le_rfl, Nat.sub_self,
                  List.getElem?_cons_zero]
              rw [sendCodes, Option.getD_some, hget, hstep, codeOf]
            have hstate : o.2 = s := talkStep_eq_ok hstep
            rw [hstep] at h
            have hnext : commandLoop wires o.1 rest (pre.length + 1) o.2 = .ok r := h
            have hrest : commandLoop wires o.1 rest (pre ++ [command]).length s = .ok r := by
              rw [hstate] at hnext
              rw [List.length_append, List.length_singleton, hnext]
            have hih := ih (pre ++ [command]) (by rw [hcommands, List.append_cons]) hrest
            rw [List.length_append, List.length_singleton] at hih
            dsimp only
            rw [hcode]
            exact hih
      · cases h; rfl

theorem foreachCommand_code {telnetCommandList : Option (List CText)} {wires : ℕ → Wire}
    (h : foreachCommand telnetCommandList wires s = .ok r) :
    r.1 = (dlistForeach telnetCommandList
      (fun k _ => (sendCodes telnetCommandList wires s k, k + 1)) 0).1 := by
  cases telnetCommandList with
  | none => cases h; rfl
  | some commands => exact commandLoop_code [] commands rfl h

end Calls

/-- **A call that returns, returns its code.** -/
theorem targetCode_eq {s : TargetState} {call : TargetCall} {r : Ret × TargetState}
    (h : targetCallStep s call = .ok r) : r.1 = targetCode s call := by
  cases call with
  | ftp call =>
      rw [targetCallStep] at h
      rw [targetCode]
      cases hcall : ftpStep s.ftp call with
      | error e => rw [hcall] at h; cases h
      | ok t => rw [hcall] at h; cases h; rfl
  | telnet call =>
      rw [targetCallStep] at h
      rw [targetCode]
      cases hcall : telnetStep s.telnet call with
      | error e => rw [hcall] at h; cases h
      | ok t => rw [hcall] at h; cases h; rfl
  | commands telnetCommandList wires =>
      rw [targetCallStep] at h
      cases hforeach : foreachCommand telnetCommandList wires s.telnet with
      | error e => rw [hforeach] at h; cases h
      | ok t =>
          rw [hforeach] at h
          cases h
          exact foreachCommand_code hforeach

/-! ### The steps -/

/-- The steps of the files have the codes that the environment gives. -/
theorem fileSteps_codes {env : TargetEnv} {fds : List ℤ} {rets : List Ret} {i : ℕ}
    (hlen : rets.length = fds.length) (hput : ∀ k, env.ftpPut (i + k) = rets.getD k .ok) :
    (fileSteps env fds i).map Step.ret = rets := by
  induction fds generalizing i rets with
  | nil => rw [List.length_eq_zero_iff.1 hlen]; rfl
  | cons fd fds ih =>
      cases rets with
      | nil => cases hlen
      | cons ret rets =>
          have hhead : env.ftpPut i = ret := hput 0
          have htail : ∀ k, env.ftpPut (i + 1 + k) = rets.getD k .ok := by
            intro k
            have hk := hput (k + 1)
            rwa [List.getD_cons_succ, ← Nat.add_assoc, Nat.add_right_comm] at hk
          rw [fileSteps, List.map_cons, hhead, ih (Nat.succ.inj hlen) htail]

theorem length_putCalls (a : TargetAnswers) (fds : List ℤ) (i : ℕ) :
    (putCalls a fds i).length = fds.length := by
  induction fds generalizing i with
  | nil => rfl
  | cons fd fds ih => exact congrArg (· + 1) (ih (i + 1))

/-- The step of the commands has the code of the loop over their codes. -/
theorem foreachLoop_sendCommand (env : TargetEnv) (commands : List CText) (ret : Ret)
    (calls : List StepCall) (k : ℕ) :
    (foreachLoop (sendCommand env) ret commands (calls, k)).1 =
      (foreachLoop (fun k _ => (env.telnetSendOneLine k, k + 1)) ret commands k).1 := by
  induction commands generalizing ret calls k with
  | nil => rfl
  | cons command commands ih =>
      rw [foreachLoop, foreachLoop]
      split_ifs
      · exact ih _ _ _
      · rfl

theorem commandStep_code (thiz : Deployer) (env : TargetEnv) :
    (commandStep thiz env).ret =
      (dlistForeach thiz.telnetCommandList (fun k _ => (env.telnetSendOneLine k, k + 1)) 0).1 := by
  rw [commandStep]
  cases thiz.telnetCommandList with
  | none => rfl
  | some commands => exact foreachLoop_sendCommand env commands .ok [] 0

/-- Closing the uploader has the code `RET_OK`. -/
theorem targetCode_ftpClose (s : TargetState) (reply : Reply) :
    targetCode s (.ftp (.close reply)) = .ok := by
  rw [targetCode]
  cases hclose : ftpStep s.ftp (.close reply) with
  | error e => rfl
  | ok r => exact (ftpUploaderClose_sockets hclose).1

/-- Closing the commander has the code `RET_OK`. -/
theorem targetCode_telnetClose (s : TargetState) : targetCode s (.telnet .close) = .ok := by
  have hclose : targetCode s (.telnet .close) = codeOf (telnetCommanderClose s.telnet) := rfl
  rw [hclose, telnetCommanderClose]
  cases s.telnet.thiz.telnet with
  | unassigned => rfl
  | null => rfl
  | handle n => rfl

/-- **The steps return what the calls of the session do.** -/
theorem targetSteps_codes (thiz : Deployer) (ipAddress : CText) (a : TargetAnswers)
    (s : TargetState) :
    (targetSteps thiz ipAddress (sessionEnv thiz ipAddress a s)).map Step.ret =
      codes targetCallStep targetCode s (targetCalls thiz ipAddress a) := by
  have hone : ∀ t c, codes targetCallStep targetCode t [c] = [targetCode t c] := fun _ _ => rfl
  have hafter : ∀ t c, after targetCallStep t [c] = next targetCallStep t c := fun _ _ => rfl
  simp only [targetSteps, targetCalls, List.map_append, codes_append, hone, hafter, List.map_cons,
    List.map_nil, targetCode_ftpClose, targetCode_telnetClose, commandStep_code]
  refine congrArg₂ (· ++ ·) rfl (congrArg₂ (· ++ ·) rfl (congrArg₂ (· ++ ·) rfl
    (congrArg₂ (· ++ ·) ?_ rfl)))
  refine fileSteps_codes ?_ fun k => ?_
  · rw [length_codes, length_putCalls]
  · rw [Nat.zero_add]
    rfl

/-- **A call and a step that stand for the same call** of `deployer_do_one_target`; those of the
commands send a part of the list. -/
inductive SameCall : TargetCall → Step → Prop
  | ftpConnect (ipAddress : CText) (env : FtpConnectEnv) (ret : Ret) :
      SameCall (.ftp (.connect (some ipAddress) env)) ⟨.ftpConnect, [.ftpConnect ipAddress], ret⟩
  | ftpLogin (userName pass : Option CText) (env : FtpLoginEnv) (ret : Ret) :
      SameCall (.ftp (.login userName pass env)) ⟨.ftpLogin, [.ftpLogin userName pass], ret⟩
  | ftpSetBinaryMode (reply : Reply) (ret : Ret) :
      SameCall (.ftp (.setBinaryMode reply)) ⟨.ftpSetType, [.ftpSetBinaryMode], ret⟩
  | ftpPut (fd : ℤ) (fileName : Option CText) (file : List UInt8) (env : FtpPutEnv) (ret : Ret) :
      SameCall (.ftp (.put fileName file env))
        ⟨.ftpPutFile, [.lseek fd, .ftpPut fd fileName], ret⟩
  | ftpClose (reply : Reply) (ret : Ret) :
      SameCall (.ftp (.close reply)) ⟨.ftpClose, [.ftpClose], ret⟩
  | telnetConnect (ipAddress : CText) (env : TelnetConnectEnv) (ret : Ret) :
      SameCall (.telnet (.connect (some ipAddress) env))
        ⟨.telnetConnect, [.telnetConnect ipAddress], ret⟩
  | telnetLogin (username pass : Option CText) (w : Wire) (ret : Ret) :
      SameCall (.telnet (.login username pass w))
        ⟨.telnetLogin, [.telnetLogin username pass], ret⟩
  | commands (telnetCommandList : Option (List CText)) (wires : ℕ → Wire)
      {sent : List CText} (hsent : sent <+: telnetCommandList.getD []) (ret : Ret) :
      SameCall (.commands telnetCommandList wires)
        ⟨.telnetCommand, sent.map .telnetSendOneLine, ret⟩
  | telnetClose (ret : Ret) : SameCall (.telnet .close) ⟨.telnetClose, [.telnetClose], ret⟩

/-- The loop sends a part of the commands. -/
theorem foreachLoop_sent (env : TargetEnv) (commands : List CText) (ret : Ret)
    (calls : List StepCall) (k : ℕ) :
    ∃ sent, sent <+: commands ∧
      (foreachLoop (sendCommand env) ret commands (calls, k)).2.1 =
        calls ++ sent.map .telnetSendOneLine := by
  induction commands generalizing ret calls k with
  | nil => exact ⟨[], List.prefix_refl _, (List.append_nil calls).symm⟩
  | cons command commands ih =>
      rw [foreachLoop]
      split_ifs
      · obtain ⟨sent, hprefix, hsent⟩ :=
          ih (env.telnetSendOneLine k) (calls ++ [.telnetSendOneLine command]) (k + 1)
        refine ⟨command :: sent, List.cons_prefix_cons.2 ⟨rfl, hprefix⟩, ?_⟩
        rw [List.map_cons, List.append_cons]
        exact hsent
      · exact ⟨[], List.nil_prefix, (List.append_nil calls).symm⟩

theorem sameCall_commands (thiz : Deployer) (env : TargetEnv) (wires : ℕ → Wire) :
    SameCall (.commands thiz.telnetCommandList wires) (commandStep thiz env) := by
  rw [commandStep]
  cases thiz.telnetCommandList with
  | none => exact .commands none wires List.nil_prefix _
  | some commands =>
      obtain ⟨sent, hprefix, hsent⟩ := foreachLoop_sent env commands .ok [] 0
      have hcalls : (dlistForeach (some commands) (sendCommand env) ([], 0)).2.1 =
          sent.map .telnetSendOneLine := hsent
      rw [hcalls]
      exact .commands (some commands) wires hprefix _

theorem sameCall_puts {env : TargetEnv} {a : TargetAnswers} (h : env.readlink = a.readlink)
    (fds : List ℤ) (i : ℕ) : List.Forall₂ SameCall (putCalls a fds i) (fileSteps env fds i) := by
  induction fds generalizing i with
  | nil => exact .nil
  | cons fd fds ih =>
      rw [putCalls, fileSteps, h]
      exact .cons (.ftpPut fd _ _ _ _) (ih (i + 1))

/-- **Both make the same calls** in the same order. -/
theorem targetCalls_steps (thiz : Deployer) (ipAddress : CText) (a : TargetAnswers)
    (s : TargetState) :
    List.Forall₂ SameCall (targetCalls thiz ipAddress a)
      (targetSteps thiz ipAddress (sessionEnv thiz ipAddress a s)) := by
  have hone : ∀ {c : TargetCall} {step : Step}, SameCall c step →
      List.Forall₂ SameCall [c] [step] := fun h => .cons h .nil
  refine List.rel_append (hone (.ftpConnect _ _ _)) ?_
  refine List.rel_append (hone (.ftpLogin _ _ _ _)) ?_
  refine List.rel_append (hone (.ftpSetBinaryMode _ _)) ?_
  refine List.rel_append (sameCall_puts rfl thiz.deployFileList 0) ?_
  refine List.rel_append (hone (.ftpClose _ _)) ?_
  refine List.rel_append (hone (.telnetConnect _ _ _)) ?_
  refine List.rel_append (hone (.telnetLogin _ _ _ _)) ?_
  exact List.rel_append (hone (sameCall_commands thiz _ _)) (hone (.telnetClose _))

/-! ### What both return -/

/-- With the codes alone, the function returns the first that is not `RET_OK`. -/
theorem deployerDoOneTarget_code (thiz : Deployer) (ipAddress : CText) (env : TargetEnv)
    {d : Deployment} (h : d.ctx.target = some ipAddress) :
    (deployerDoOneTarget thiz ipAddress env d).1 =
      (((targetSteps thiz ipAddress env).map Step.ret).find? (fun ret => ¬ ret = .ok)).getD .ok := by
  have hruns := doSteps_runs thiz ipAddress env h
  have hnone : ∀ steps : List Step, (∀ step ∈ steps, step.ret = .ok) →
      (steps.map Step.ret).find? (fun ret => ¬ ret = .ok) = none := by
    intro steps hok
    rw [List.find?_eq_none]
    intro ret hret
    obtain ⟨step, hstep, rfl⟩ := List.mem_map.1 hret
    simpa using hok step hstep
  rw [deployerDoOneTarget]
  cases hsteps : doSteps thiz ipAddress env d with
  | ok d' =>
      rw [hsteps] at hruns
      rw [hnone _ hruns.1]
      rfl
  | error e =>
      rw [hsteps] at hruns
      obtain ⟨front, last, rest, events, happend, hfront, hret, hne, -⟩ := hruns
      rw [happend, List.map_append, List.find?_append, hnone front hfront, List.map_cons,
        List.find?_cons_of_pos (by rw [hret]; simpa using hne), hret]
      rfl

/-- **Both return the same**: `RET_OK` when the session comes to its end, and else the code of the
call at which it is left. -/
theorem deployerDoOneTarget_session (thiz : Deployer) (ipAddress : CText) (a : TargetAnswers)
    {s : TargetState} {o : Option (TargetCall × Ret) × TargetState} {d : Deployment}
    (h : targetSession thiz ipAddress a s = .ok o) (hd : d.ctx.target = some ipAddress) :
    (deployerDoOneTarget thiz ipAddress (sessionEnv thiz ipAddress a s) d).1 =
      (o.1.map Prod.snd).getD .ok := by
  have hcode : ∀ t c r, targetCallStep t c = .ok r → r.1 = targetCode t c :=
    fun _ _ _ hr => targetCode_eq hr
  rw [deployerDoOneTarget_code thiz ipAddress _ hd, targetSteps_codes, find_codes hcode h]

end Wsn
