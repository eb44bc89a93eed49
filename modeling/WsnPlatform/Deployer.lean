/-
**The deployer.**

`src/deployer/deployer.c` puts files on a list of targets by FTP and has commands run there by
Telnet, and reports every step to an event callback through one mutable context.  The FTP and Telnet
calls are the environment: each answers with a return code.  The model keeps a log of these calls
and of the context at each call of the callback, in the order in which they happen.

A target is a row of steps, run up to the first that fails.  That the log tells this is stated for
the row of steps of a target, and holds for every list of targets.

Main definitions:

* `deployerDoOneTarget`, `deployerDoDeploy` — the calls of the source;
* `Step`, `targetSteps` — the steps of a target, with the answers of its calls;
* `TargetTrace` — what the log of one target is to look like.

Main results:

* `Runs.bind` — a row of steps followed by another;
* `deployerDoOneTarget_trace` — one target runs its steps up to the first failure;
* `deployerDoDeploy_trace` — the log of a deployment is one such trace for each target.
-/

import WsnPlatform.Common
import WsnPlatform.CText

set_option relaxedAutoImplicit false
set_option autoImplicit false

namespace Wsn

/-! ### The deployer and its environment -/

/-- `DeployerEvent`. -/
inductive DeployerEvent
  | init
  | targetStart
  | ftpConnect
  | ftpLogin
  | ftpSetType
  | ftpPutFile
  | ftpClose
  | telnetConnect
  | telnetLogin
  | telnetCommand
  | telnetClose
  | targetEnd
  deriving DecidableEq

/-- `DeployerEventResult`. -/
inductive DeployerEventResult
  | init
  | success
  | fail
  deriving DecidableEq

/-- `DeployerEventContext`; `none` is `NULL`. -/
structure DeployerEventContext where
  event : DeployerEvent
  result : DeployerEventResult
  target : Option CText
  file : Option CText
  command : Option CText

/-- **The deployer**: the parts of its configuration that a deployment uses. -/
structure Deployer where
  ftpUsername : Option CText
  ftpPassword : Option CText
  telnetUsername : Option CText
  telnetPassword : Option CText
  /-- The items of `telnet_command_list`; `none` when there is no list. -/
  telnetCommandList : Option (List CText)
  /-- `deploy_target_list`, with its `NULL` entries. -/
  deployTargetList : List (Option CText)
  /-- The descriptors of `deploy_file_list`. -/
  deployFileList : List ℤ

/-- The calls that a deployment makes. -/
inductive StepCall
  | ftpConnect (ipAddress : CText)
  | ftpLogin (userName password : Option CText)
  | ftpSetBinaryMode
  | lseek (fd : ℤ)
  | ftpPut (fd : ℤ) (fileName : Option CText)
  | ftpClose
  | telnetConnect (ipAddress : CText)
  | telnetLogin (userName password : Option CText)
  | telnetSendOneLine (command : CText)
  | telnetClose

/-- What is logged: a call, or the context handed to the event callback. -/
inductive LogEntry
  | call (c : StepCall)
  | event (c : DeployerEventContext)

/-- `PATH_MAX_LENGTH`. -/
def pathMaxLength : ℕ := 4096

/-- **The answers of the calls for one target.**  The two close calls are not among them, they
return `RET_OK`.  A path that `readlink` delivers leaves room for the NUL. -/
structure TargetEnv where
  ftpConnect : Ret
  ftpLogin : Ret
  ftpSetBinaryMode : Ret
  readlink : ℕ → Option { path : CText // path.length < pathMaxLength }
  ftpPut : ℕ → Ret
  telnetConnect : Ret
  telnetLogin : Ret
  telnetSendOneLine : ℕ → Ret

/-- The state of a deployment: the event context and the log. -/
structure Deployment where
  ctx : DeployerEventContext
  log : List LogEntry

namespace Deployment

/-- A call is made. -/
def called (s : Deployment) (c : StepCall) : Deployment := { s with log := s.log ++ [.call c] }

/-- The event callback is called. -/
def reported (s : Deployment) : Deployment := { s with log := s.log ++ [.event s.ctx] }

def setEvent (s : Deployment) (event : DeployerEvent) : Deployment :=
  { s with ctx := { s.ctx with event := event } }

def setResult (s : Deployment) (result : DeployerEventResult) : Deployment :=
  { s with ctx := { s.ctx with result := result } }

def setTarget (s : Deployment) (target : CText) : Deployment :=
  { s with ctx := { s.ctx with target := some target } }

def setFile (s : Deployment) (file : Option CText) : Deployment :=
  { s with ctx := { s.ctx with file := file } }

def setCommand (s : Deployment) (command : CText) : Deployment :=
  { s with ctx := { s.ctx with command := some command } }

end Deployment

/-! ### One target -/

/-- What a step does once its call has returned: the callback is called, or `goto fail` with the
return code. -/
def checkStep (ret : Ret) (s : Deployment) : Except (Ret × Deployment) Deployment :=
  if ret ≠ .ok then .error (ret, s) else .ok s.reported

/-- A step of one call. -/
def oneCall (event : DeployerEvent) (c : StepCall) (ret : Ret) (s : Deployment) :
    Except (Ret × Deployment) Deployment :=
  checkStep ret ((s.setEvent event).called c)

/-- The last component of a path, as the loop over `strtok_r` finds it. -/
def lastComponent (path : CText) : Option CText :=
  (((path.takeWhile fun c => c != 0).splitOn 47).filter fun s => s ≠ []).getLast?

/-- `DEFAULT_DEPLOY_NAME`, followed by the descriptor. -/
def defaultDeployName (fd : ℤ) : CText :=
  ("default_deploy_name_" ++ toString fd).toUTF8.toList

/-- `deploy_name` of a file. -/
def deployName (fd : ℤ) (path : Option { path : CText // path.length < pathMaxLength }) :
    Option CText :=
  match path with
  | none => some (defaultDeployName fd)
  | some path => lastComponent path

/-- The loop over the files, from the `i`th on. -/
def putFiles (env : TargetEnv) : List ℤ → ℕ → Deployment → Except (Ret × Deployment) Deployment
  | [], _, s => .ok s
  | fd :: fds, i, s => do
      let name := deployName fd (env.readlink i)
      let s := ((s.called (.lseek fd)).setFile name).called (.ftpPut fd name)
      let s ← checkStep (env.ftpPut i) s
      putFiles env fds (i + 1) s

/-- The loop of `dlist_foreach`. -/
def foreachLoop {σ δ : Type} (visit : σ → δ → Ret × σ) : Ret → List δ → σ → Ret × σ
  | ret, [], ctx => (ret, ctx)
  | ret, item :: items, ctx =>
      if ret ≠ .stop then foreachLoop visit (visit ctx item).1 items (visit ctx item).2
      else (ret, ctx)

/-- **`dlist_foreach`** over the items of a list. -/
def dlistForeach {σ δ : Type} (items : Option (List δ)) (visit : σ → δ → Ret × σ) (ctx : σ) :
    Ret × σ :=
  match items with
  | none => (.invalidParams, ctx)
  | some items => foreachLoop visit .ok items ctx

/-- `visit_telnet_command_list`.  The number counts the commands sent so far. -/
def visitTelnetCommandList (env : TargetEnv) (ctx : Deployment × ℕ) (command : CText) :
    Ret × Deployment × ℕ :=
  (env.telnetSendOneLine ctx.2,
    ((ctx.1.setCommand command).called (.telnetSendOneLine command), ctx.2 + 1))

/-- The steps of `deployer_do_one_target`, up to its `return ret` or a `goto fail`. -/
def doSteps (thiz : Deployer) (ipAddress : CText) (env : TargetEnv) (s : Deployment) :
    Except (Ret × Deployment) Deployment := do
  let s := s.setResult .success
  let s ← oneCall .ftpConnect (.ftpConnect ipAddress) env.ftpConnect s
  let s ← oneCall .ftpLogin (.ftpLogin thiz.ftpUsername thiz.ftpPassword) env.ftpLogin s
  let s ← oneCall .ftpSetType .ftpSetBinaryMode env.ftpSetBinaryMode s
  let s ← putFiles env thiz.deployFileList 0 (s.setEvent .ftpPutFile)
  let s := (((s.setEvent .ftpClose).setFile none).called .ftpClose).reported
  let s ← oneCall .telnetConnect (.telnetConnect ipAddress) env.telnetConnect s
  let s ← oneCall .telnetLogin (.telnetLogin thiz.telnetUsername thiz.telnetPassword)
    env.telnetLogin s
  let sent := dlistForeach thiz.telnetCommandList (visitTelnetCommandList env)
    (s.setEvent .telnetCommand, 0)
  let s ← checkStep sent.1 sent.2.1
  oneCall .telnetClose .telnetClose .ok s

/-- **`deployer_do_one_target`**. -/
def deployerDoOneTarget (thiz : Deployer) (ipAddress : CText) (env : TargetEnv) (s : Deployment) :
    Ret × Deployment :=
  match doSteps thiz ipAddress env s with
  | .ok s => (.ok, s)
  | .error (ret, s) => (ret, (s.setResult .fail).reported)

/-- The loop of `deployer_do_deploy`, over the targets that are left. -/
def deployLoop (thiz : Deployer) : List (Option CText) → (ℕ → TargetEnv) → Deployment → Deployment
  | [], _, s => s
  | none :: targets, env, s => deployLoop thiz targets (fun i => env (i + 1)) s
  | some target :: targets, env, s =>
      let s := ((s.setTarget target).setEvent .targetStart).reported
      let r := deployerDoOneTarget thiz target (env 0) s
      let s := ((r.2.setEvent .targetEnd).setResult
        (if r.1 = .ok then .success else .fail)).reported
      deployLoop thiz targets (fun i => env (i + 1)) s

/-- **`deployer_do_deploy`**, with the answers for each entry of the target list. -/
def deployerDoDeploy (thiz : Deployer) (env : ℕ → TargetEnv) (s : Deployment) : Deployment :=
  deployLoop thiz thiz.deployTargetList env s

/-! ### What the log of a target tells -/

/-- **A step of a target**: its event, the calls it makes, and what the call that decides about it
returns. -/
structure Step where
  event : DeployerEvent
  calls : List StepCall
  ret : Ret

/-- Sending the commands, apart from the state of the deployment: the calls, and how many. -/
def sendCommand (env : TargetEnv) (ctx : List StepCall × ℕ) (command : CText) :
    Ret × List StepCall × ℕ :=
  (env.telnetSendOneLine ctx.2, ctx.1 ++ [.telnetSendOneLine command], ctx.2 + 1)

/-- The steps of the files, from the `i`th on. -/
def fileSteps (env : TargetEnv) : List ℤ → ℕ → List Step
  | [], _ => []
  | fd :: fds, i =>
      ⟨.ftpPutFile, [.lseek fd, .ftpPut fd (deployName fd (env.readlink i))], env.ftpPut i⟩ ::
        fileSteps env fds (i + 1)

/-- The step of the commands; `dlist_foreach` decides about it. -/
def commandStep (thiz : Deployer) (env : TargetEnv) : Step :=
  let sent := dlistForeach thiz.telnetCommandList (sendCommand env) ([], 0)
  ⟨.telnetCommand, sent.2.1, sent.1⟩

/-- **The steps of a target**, in order, with the answers of its calls. -/
def targetSteps (thiz : Deployer) (target : CText) (env : TargetEnv) : List Step :=
  [⟨.ftpConnect, [.ftpConnect target], env.ftpConnect⟩] ++
    ([⟨.ftpLogin, [.ftpLogin thiz.ftpUsername thiz.ftpPassword], env.ftpLogin⟩] ++
      ([⟨.ftpSetType, [.ftpSetBinaryMode], env.ftpSetBinaryMode⟩] ++
        (fileSteps env thiz.deployFileList 0 ++
          ([⟨.ftpClose, [.ftpClose], .ok⟩] ++
            ([⟨.telnetConnect, [.telnetConnect target], env.telnetConnect⟩] ++
              ([⟨.telnetLogin, [.telnetLogin thiz.telnetUsername thiz.telnetPassword],
                  env.telnetLogin⟩] ++
                ([commandStep thiz env] ++ [⟨.telnetClose, [.telnetClose], .ok⟩])))))))

theorem fileSteps_events (env : TargetEnv) (fds : List ℤ) (i : ℕ) :
    (fileSteps env fds i).map Step.event = List.replicate fds.length .ftpPutFile := by
  induction fds generalizing i with
  | nil => rfl
  | cons fd fds ih => simp [fileSteps, ih, List.replicate_succ]

/-- The order of the steps; there is one `FTP_PUT_FILE` for each file. -/
theorem targetSteps_events (thiz : Deployer) (target : CText) (env : TargetEnv) :
    (targetSteps thiz target env).map Step.event =
      [.ftpConnect, .ftpLogin, .ftpSetType] ++
        List.replicate thiz.deployFileList.length .ftpPutFile ++
        [.ftpClose, .telnetConnect, .telnetLogin, .telnetCommand, .telnetClose] := by
  simp [targetSteps, fileSteps_events, commandStep]

/-- The context with which a step is reported: success exactly if its call returned `RET_OK`. -/
def Reported (target : CText) (step : Step) (c : DeployerEventContext) : Prop :=
  c.event = step.event ∧ c.target = some target ∧
    c.result = if step.ret = .ok then .success else .fail

/-- The log of a step: its calls, then its event. -/
def stepLog (p : Step × DeployerEventContext) : List LogEntry := p.1.calls.map .call ++ [.event p.2]

/-- **The log of one target.**  The steps `done` are the steps of the target up to the first
failure; they are reported with `events`, between `start` and `final`. -/
structure TraceOf (target : CText) (steps done : List Step) (events : List DeployerEventContext)
    (start final : DeployerEventContext) (log : List LogEntry) : Prop where
  nonempty : done ≠ []
  done_steps : done <+: steps
  /-- Only the last step can fail. -/
  before_last : ∀ step ∈ done.dropLast, step.ret = .ok
  /-- A target without a failure runs all its steps. -/
  complete : (∀ step ∈ done, step.ret = .ok) → done = steps
  reported : List.Forall₂ (Reported target) done events
  starts : start.event = .targetStart ∧ start.target = some target
  ends : final.event = .targetEnd ∧ final.target = some target
  succeeds : final.result = .success ↔ ∀ c ∈ events, c.result ≠ .fail
  fails : final.result = .fail ↔ ∃ c ∈ events, c.result = .fail
  log_eq : log = .event start :: ((done.zip events).flatMap stepLog ++ [.event final])

/-- Some steps, events and ends make `log` the log of the target. -/
def TargetTrace (target : CText) (steps : List Step) (log : List LogEntry) : Prop :=
  ∃ done events start final, TraceOf target steps done events start final log

/-! ### Rows of steps -/

/-- Between two steps: no failure so far. -/
def Ready (target : CText) (s : Deployment) : Prop :=
  s.ctx.result = .success ∧ s.ctx.target = some target

/-- **A row of steps was run from `s`**: to its end, or up to a step that failed. -/
def Runs (target : CText) (steps : List Step) (s : Deployment) :
    Except (Ret × Deployment) Deployment → Prop
  | .ok s' => (∀ step ∈ steps, step.ret = .ok) ∧ Ready target s' ∧
      ∃ events, List.Forall₂ (Reported target) steps events ∧
        s'.log = s.log ++ (steps.zip events).flatMap stepLog
  | .error (ret, s') => ∃ front last rest events, steps = front ++ last :: rest ∧
      (∀ step ∈ front, step.ret = .ok) ∧ last.ret = ret ∧ ret ≠ .ok ∧
      s'.ctx.event = last.event ∧ s'.ctx.target = some target ∧
      List.Forall₂ (Reported target) front events ∧
      s'.log = s.log ++ (front.zip events).flatMap stepLog ++ last.calls.map .call

theorem Runs.nil {target : CText} {s : Deployment} (h : Ready target s) :
    Runs target [] s (.ok s) :=
  ⟨by simp, h, [], .nil, by simp⟩

theorem flatMap_zip_append {front steps : List Step} {events events' : List DeployerEventContext}
    (h : front.length = events.length) :
    ((front ++ steps).zip (events ++ events')).flatMap stepLog =
      (front.zip events).flatMap stepLog ++ (steps.zip events').flatMap stepLog := by
  rw [List.zip_append h, List.flatMap_append]

/-- **A row of steps followed by another.** -/
theorem Runs.bind {target : CText} {steps steps' : List Step} {s : Deployment}
    {x : Except (Ret × Deployment) Deployment}
    {f : Deployment → Except (Ret × Deployment) Deployment} (h : Runs target steps s x)
    (hf : ∀ s', x = .ok s' → Ready target s' → Runs target steps' s' (f s')) :
    Runs target (steps ++ steps') s (x >>= f) := by
  cases x with
  | error e =>
      obtain ⟨front, last, rest, events, hsteps, hrun⟩ := h
      refine ⟨front, last, rest ++ steps', events, ?_, hrun⟩
      rw [hsteps, List.append_assoc, List.cons_append]
  | ok s' =>
      obtain ⟨hok, hready, events, hreported, hlog⟩ := h
      have hrest := hf s' rfl hready
      have hbind : (Except.ok s' >>= f) = f s' := rfl
      rw [hbind]
      cases hx : f s' with
      | error e =>
          rw [hx] at hrest
          obtain ⟨front, last, rest, events', hsteps, hfront, hret, hne, hevent, htarget, hreported',
            hlog'⟩ := hrest
          refine ⟨steps ++ front, last, rest, events ++ events', ?_, ?_, hret, hne, hevent, htarget,
            List.rel_append hreported hreported', ?_⟩
          · rw [hsteps, List.append_assoc]
          · intro step hstep
            rcases List.mem_append.1 hstep with hstep | hstep
            · exact hok step hstep
            · exact hfront step hstep
          · rw [hlog', hlog, flatMap_zip_append hreported.length_eq]
            simp only [List.append_assoc]
      | ok s'' =>
          rw [hx] at hrest
          obtain ⟨hok', hready', events', hreported', hlog'⟩ := hrest
          refine ⟨?_, hready', events ++ events', List.rel_append hreported hreported', ?_⟩
          · intro step hstep
            rcases List.mem_append.1 hstep with hstep | hstep
            · exact hok step hstep
            · exact hok' step hstep
          · rw [hlog', hlog, flatMap_zip_append hreported.length_eq, List.append_assoc]

theorem checkStep_eq_ok {ret : Ret} {s s' : Deployment} (h : checkStep ret s = .ok s') :
    s' = s.reported := by
  unfold checkStep at h
  split at h
  · cases h
  · exact (Except.ok.inj h).symm

/-- One step, once its calls are made and its event is set. -/
theorem Runs.one {target : CText} (step : Step) {s s' : Deployment} (hready : Ready target s')
    (hevent : s'.ctx.event = step.event) (hlog : s'.log = s.log ++ step.calls.map .call) :
    Runs target [step] s (checkStep step.ret s') := by
  unfold checkStep
  split
  · next hne =>
      exact ⟨[], step, [], [], rfl, by simp, rfl, hne, hevent, hready.2, .nil, by simp [hlog]⟩
  · next hok =>
      rw [not_not] at hok
      have hreported : Reported target step s'.ctx := ⟨hevent, hready.2, by rw [hready.1, if_pos hok]⟩
      refine ⟨by simpa using hok, hready, [s'.ctx], .cons hreported .nil, ?_⟩
      simp [Deployment.reported, hlog, stepLog]

theorem Runs.oneCall {target : CText} {s : Deployment} (h : Ready target s) (event : DeployerEvent)
    (c : StepCall) (ret : Ret) : Runs target [⟨event, [c], ret⟩] s (oneCall event c ret s) := by
  have hcalled : Ready target ((s.setEvent event).called c) := h
  exact Runs.one ⟨event, [c], ret⟩ hcalled rfl rfl

/-! ### The steps of the source -/

/-- The loop over the files runs their steps; the event stays what it was set to before the loop. -/
theorem Runs.putFiles {target : CText} (env : TargetEnv) (fds : List ℤ) (i : ℕ) {s : Deployment}
    (h : Ready target s) (hevent : s.ctx.event = .ftpPutFile) :
    Runs target (fileSteps env fds i) s (putFiles env fds i s) := by
  induction fds generalizing i s with
  | nil => exact Runs.nil h
  | cons fd fds ih =>
      have hput : Ready target (((s.called (.lseek fd)).setFile
          (deployName fd (env.readlink i))).called (.ftpPut fd (deployName fd (env.readlink i)))) := h
      have hfirst := Runs.one (s := s) ⟨.ftpPutFile,
        [.lseek fd, .ftpPut fd (deployName fd (env.readlink i))], env.ftpPut i⟩ hput hevent
        (by simp [Deployment.called, Deployment.setFile])
      refine hfirst.bind fun s' hs' hready => ?_
      rw [checkStep_eq_ok hs'] at hready ⊢
      exact ih (i + 1) hready hevent

/-- Sending the commands logs the calls and leaves the event, the result and the target alone. -/
theorem foreachLoop_visit (env : TargetEnv) (items : List CText) {ret : Ret} {s s₀ : Deployment}
    {calls : List StepCall} {k : ℕ} (hlog : s.log = s₀.log ++ calls.map .call) :
    ∃ s' k', foreachLoop (visitTelnetCommandList env) ret items (s, k) =
        ((foreachLoop (sendCommand env) ret items (calls, k)).1, s', k') ∧
      s'.log = s₀.log ++ (foreachLoop (sendCommand env) ret items (calls, k)).2.1.map .call ∧
      s'.ctx.event = s.ctx.event ∧ s'.ctx.result = s.ctx.result ∧ s'.ctx.target = s.ctx.target := by
  induction items generalizing ret s calls k with
  | nil => exact ⟨s, k, rfl, hlog, rfl, rfl, rfl⟩
  | cons item items ih =>
      unfold foreachLoop
      split
      · have hsent : ((s.setCommand item).called (.telnetSendOneLine item)).log =
            s₀.log ++ (calls ++ [StepCall.telnetSendOneLine item]).map .call := by
          simp [Deployment.called, Deployment.setCommand, hlog]
        exact ih hsent
      · exact ⟨s, k, rfl, hlog, rfl, rfl, rfl⟩

theorem dlistForeach_visit (env : TargetEnv) (items : Option (List CText)) (s : Deployment) :
    ∃ s' k', dlistForeach items (visitTelnetCommandList env) (s, 0) =
        ((dlistForeach items (sendCommand env) ([], 0)).1, s', k') ∧
      s'.log = s.log ++ (dlistForeach items (sendCommand env) ([], 0)).2.1.map .call ∧
      s'.ctx.event = s.ctx.event ∧ s'.ctx.result = s.ctx.result ∧ s'.ctx.target = s.ctx.target := by
  cases items with
  | none => exact ⟨s, 0, rfl, by simp [dlistForeach], rfl, rfl, rfl⟩
  | some items => exact foreachLoop_visit env items (by simp)

/-- The step of the commands. -/
theorem Runs.commands {target : CText} (thiz : Deployer) (env : TargetEnv) {s : Deployment}
    (h : Ready target s) :
    Runs target [commandStep thiz env] s
      (checkStep (dlistForeach thiz.telnetCommandList (visitTelnetCommandList env)
          (s.setEvent .telnetCommand, 0)).1
        (dlistForeach thiz.telnetCommandList (visitTelnetCommandList env)
          (s.setEvent .telnetCommand, 0)).2.1) := by
  obtain ⟨s', k', hsend, hlog, hevent, hresult, htarget⟩ :=
    dlistForeach_visit env thiz.telnetCommandList (s.setEvent .telnetCommand)
  have hready : Ready target s' := ⟨hresult.trans h.1, htarget.trans h.2⟩
  rw [hsend]
  exact Runs.one (commandStep thiz env) hready hevent hlog

/-- The steps behind the upload. -/
theorem Runs.telnet {target : CText} (thiz : Deployer) (env : TargetEnv) {s : Deployment}
    (h : Ready target s) :
    Runs target
      ([⟨.telnetConnect, [.telnetConnect target], env.telnetConnect⟩] ++
        ([⟨.telnetLogin, [.telnetLogin thiz.telnetUsername thiz.telnetPassword],
            env.telnetLogin⟩] ++
          ([commandStep thiz env] ++ [⟨.telnetClose, [.telnetClose], .ok⟩]))) s
      (do
        let s ← Wsn.oneCall .telnetConnect (.telnetConnect target) env.telnetConnect s
        let s ← Wsn.oneCall .telnetLogin (.telnetLogin thiz.telnetUsername thiz.telnetPassword)
          env.telnetLogin s
        let sent := dlistForeach thiz.telnetCommandList (visitTelnetCommandList env)
          (s.setEvent .telnetCommand, 0)
        let s ← checkStep sent.1 sent.2.1
        Wsn.oneCall .telnetClose .telnetClose .ok s) := by
  refine (Runs.oneCall h _ _ _).bind fun s₁ _ h₁ => ?_
  refine (Runs.oneCall h₁ _ _ _).bind fun s₂ _ h₂ => ?_
  refine (Runs.commands thiz env h₂).bind fun s₃ _ h₃ => ?_
  exact Runs.oneCall h₃ _ _ _

/-- **One target runs its steps**, up to the first failure. -/
theorem doSteps_runs (thiz : Deployer) (target : CText) (env : TargetEnv) {s : Deployment}
    (h : s.ctx.target = some target) :
    Runs target (targetSteps thiz target env) (s.setResult .success) (doSteps thiz target env s) := by
  have hready : Ready target (s.setResult .success) := ⟨rfl, h⟩
  refine (Runs.oneCall hready _ _ _).bind fun s₁ _ h₁ => ?_
  refine (Runs.oneCall h₁ _ _ _).bind fun s₂ _ h₂ => ?_
  refine (Runs.oneCall h₂ _ _ _).bind fun s₃ _ h₃ => ?_
  have hfiles : Ready target (s₃.setEvent .ftpPutFile) := h₃
  refine (Runs.putFiles env thiz.deployFileList 0 hfiles rfl).bind fun s₄ _ h₄ => ?_
  -- the return code of the close is not looked at: it counts as a step that succeeds
  have hclosed : Ready target (((s₄.setEvent .ftpClose).setFile none).called .ftpClose) := h₄
  have hclose : Runs target [⟨.ftpClose, [.ftpClose], .ok⟩] s₄
      (checkStep .ok (((s₄.setEvent .ftpClose).setFile none).called .ftpClose)) :=
    Runs.one ⟨.ftpClose, [.ftpClose], .ok⟩ hclosed rfl rfl
  exact hclose.bind fun s₅ _ h₅ => Runs.telnet thiz env h₅

/-- The calls of `deployer_do_one_target` and the report of their failure. -/
theorem deployerDoOneTarget_trace (thiz : Deployer) (target : CText) (env : TargetEnv)
    {s : Deployment} (h : s.ctx.target = some target) :
    ∃ done events, done ≠ [] ∧ done <+: targetSteps thiz target env ∧
      (∀ step ∈ done.dropLast, step.ret = .ok) ∧
      ((∀ step ∈ done, step.ret = .ok) → done = targetSteps thiz target env) ∧
      List.Forall₂ (Reported target) done events ∧
      ((deployerDoOneTarget thiz target env s).1 = .ok ↔ ∀ step ∈ done, step.ret = .ok) ∧
      (deployerDoOneTarget thiz target env s).2.ctx.target = some target ∧
      (deployerDoOneTarget thiz target env s).2.log =
        s.log ++ (done.zip events).flatMap stepLog := by
  have hruns := doSteps_runs thiz target env h
  unfold deployerDoOneTarget
  cases hx : doSteps thiz target env s with
  | ok s' =>
      rw [hx] at hruns
      obtain ⟨hok, hready, events, hreported, hlog⟩ := hruns
      refine ⟨targetSteps thiz target env, events, ?_, List.prefix_refl _, ?_, fun _ => rfl, hreported,
        iff_of_true rfl hok, hready.2, hlog⟩
      · simp [targetSteps]
      · exact fun step hstep => hok step (List.mem_of_mem_dropLast hstep)
  | error e =>
      obtain ⟨ret, s'⟩ := e
      rw [hx] at hruns
      obtain ⟨front, last, rest, events, hsteps, hfront, hret, hne, hevent, htarget, hreported,
        hlog⟩ := hruns
      have hlast : Reported target last (s'.setResult .fail).ctx :=
        ⟨hevent, htarget, by rw [hret, if_neg hne]; rfl⟩
      have hnot : ¬ ∀ step ∈ front ++ [last], step.ret = .ok :=
        fun hall => hne (hret ▸ hall last (by simp))
      refine ⟨front ++ [last], events ++ [(s'.setResult .fail).ctx], by simp, ⟨rest, ?_⟩, ?_,
        fun hall => absurd hall hnot, List.rel_append hreported (.cons hlast .nil),
        iff_of_false hne hnot, htarget, ?_⟩
      · rw [hsteps, List.append_assoc, List.singleton_append]
      · rwa [List.dropLast_concat]
      · have hlog' : s'.log = s.log ++ (front.zip events).flatMap stepLog ++
            last.calls.map .call := hlog
        rw [flatMap_zip_append hreported.length_eq]
        simp [Deployment.reported, Deployment.setResult, hlog', stepLog]

/-! ### A deployment -/

theorem Reported.result_fail_iff {target : CText} {step : Step} {c : DeployerEventContext}
    (h : Reported target step c) : c.result = .fail ↔ step.ret ≠ .ok := by
  rw [h.2.2]
  split
  · next hok => simp [hok]
  · next hne => simp [hne]

/-- A step event has the result `FAIL` exactly if a step failed. -/
theorem exists_fail_iff {target : CText} {done : List Step} {events : List DeployerEventContext}
    (h : List.Forall₂ (Reported target) done events) :
    (∃ c ∈ events, c.result = .fail) ↔ ¬ ∀ step ∈ done, step.ret = .ok := by
  induction h with
  | nil => simp
  | cons hc _ ih =>
      simp only [List.mem_cons, exists_eq_or_imp, forall_eq_or_imp, ih, hc.result_fail_iff, ne_eq]
      exact Decidable.not_and_iff_not_or_not.symm

/-- The targets that are not `NULL`, in order, with their answers. -/
def activeTargets : List (Option CText) → (ℕ → TargetEnv) → List (CText × TargetEnv)
  | [], _ => []
  | none :: targets, env => activeTargets targets fun i => env (i + 1)
  | some target :: targets, env => (target, env 0) :: activeTargets targets fun i => env (i + 1)

/-- The log of one turn of the loop over the targets. -/
theorem targetTrace_turn (thiz : Deployer) (target : CText) (env : TargetEnv) (s : Deployment) :
    ∃ trace, TargetTrace target (targetSteps thiz target env) trace ∧
      (((deployerDoOneTarget thiz target env
            ((s.setTarget target).setEvent .targetStart).reported).2.setEvent .targetEnd).setResult
          (if (deployerDoOneTarget thiz target env
            ((s.setTarget target).setEvent .targetStart).reported).1 = .ok
            then .success else .fail)).reported.log = s.log ++ trace := by
  obtain ⟨done, events, hne, hdone, hbefore, hcomplete, hreported, hret, htarget, hlog⟩ :=
    deployerDoOneTarget_trace thiz target env
      (s := ((s.setTarget target).setEvent .targetStart).reported) rfl
  generalize deployerDoOneTarget thiz target env
    ((s.setTarget target).setEvent .targetStart).reported = r at hret htarget hlog ⊢
  have hfail := exists_fail_iff hreported
  refine ⟨_, ⟨done, events, ((s.setTarget target).setEvent .targetStart).ctx,
    ((r.2.setEvent .targetEnd).setResult (if r.1 = .ok then .success else .fail)).ctx,
    { nonempty := hne, done_steps := hdone, before_last := hbefore, complete := hcomplete
      reported := hreported, starts := ⟨rfl, rfl⟩, ends := ⟨rfl, htarget⟩
      succeeds := ?_, fails := ?_, log_eq := rfl }⟩, ?_⟩
  · have hsucceeds : (if r.1 = .ok then DeployerEventResult.success else .fail) = .success ↔
        r.1 = .ok := by split <;> simp_all
    have hnone : (∀ c ∈ events, c.result ≠ .fail) ↔ ¬ ∃ c ∈ events, c.result = .fail := by
      push Not
      rfl
    rw [hnone, hfail, not_not, ← hret]
    exact hsucceeds
  · have hfails : (if r.1 = .ok then DeployerEventResult.success else .fail) = .fail ↔
        r.1 ≠ .ok := by split <;> simp_all
    rw [hfail, ← hret]
    exact hfails
  · have hlog' : r.2.log = s.log ++ [.event ((s.setTarget target).setEvent .targetStart).ctx] ++
        (done.zip events).flatMap stepLog := hlog
    simp only [Deployment.reported, Deployment.setResult, Deployment.setEvent, hlog',
      List.append_assoc, List.cons_append, List.nil_append]

theorem deployLoop_trace (thiz : Deployer) (targets : List (Option CText)) (env : ℕ → TargetEnv)
    (s : Deployment) :
    ∃ traces, (deployLoop thiz targets env s).log = s.log ++ traces.flatten ∧
      List.Forall₂ (fun p trace => TargetTrace p.1 (targetSteps thiz p.1 p.2) trace)
        (activeTargets targets env) traces := by
  induction targets generalizing env s with
  | nil => exact ⟨[], by simp [deployLoop], .nil⟩
  | cons target targets ih =>
      cases target with
      | none => exact ih (fun i => env (i + 1)) s
      | some target =>
          obtain ⟨trace, htrace, hlog⟩ := targetTrace_turn thiz target (env 0) s
          obtain ⟨traces, hlogs, htraces⟩ := ih (fun i => env (i + 1)) _
          refine ⟨trace :: traces, ?_, .cons htrace htraces⟩
          rw [deployLoop, hlogs, hlog, List.flatten_cons, List.append_assoc]

/-- **The deployment event trace tells the truth**: the log of a deployment is, for each target that
is not `NULL` and in the order of the list, the trace of the steps of this target, with nothing
between them.  The answers for one target decide about its trace alone. -/
theorem deployerDoDeploy_trace (thiz : Deployer) (env : ℕ → TargetEnv) (s : Deployment) :
    ∃ traces, (deployerDoDeploy thiz env s).log = s.log ++ traces.flatten ∧
      List.Forall₂ (fun p trace => TargetTrace p.1 (targetSteps thiz p.1 p.2) trace)
        (activeTargets thiz.deployTargetList env) traces :=
  deployLoop_trace thiz thiz.deployTargetList env s

end Wsn
