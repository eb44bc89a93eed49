/-
**The commands of a target.**

`deployer_do_one_target` has `dlist_foreach` visit the command list; the visitor sends one command
and returns what `telnet_commander_send_one_line` does.  The loop of `dlist_foreach` ends early on
`RET_STOP` alone, and returns what the last visit returned, so a command that fails with `RET_FAIL`
is forgotten as soon as another one follows it.

Main definitions:

* `FailureEndsRun` — what a deployment relies on: success is that of every command, and nothing is
  sent behind a failure.

Main results:

* `foreachLoop_commands` — how far the loop comes, and what it returns;
* `failureEndsRun_iff` — when the loop does what is relied on.
-/

import WsnPlatform.Deployer

set_option relaxedAutoImplicit false
set_option autoImplicit false

namespace Wsn

/-! ### How far the loop comes -/

/-- The log entry of a command. -/
def sendEntry (command : CText) : LogEntry := .call (.telnetSendOneLine command)

/-- **The loop over the commands.**  It sends the first `sent` of them, each but the last without a
`RET_STOP`, and stops before the end only at a `RET_STOP`.  It returns the last result. -/
theorem foreachLoop_commands (env : TargetEnv) (commands : List CText) {ret : Ret}
    (hret : ret ≠ .stop) (s : Deployment) (k : ℕ) :
    ∃ sent ≤ commands.length,
      (foreachLoop (visitTelnetCommandList env) ret commands (s, k)).2.1.log =
        s.log ++ (commands.take sent).map sendEntry ∧
      (foreachLoop (visitTelnetCommandList env) ret commands (s, k)).1 =
        (if sent = 0 then ret else env.telnetSendOneLine (k + sent - 1)) ∧
      (∀ i, i + 1 < sent → env.telnetSendOneLine (k + i) ≠ .stop) ∧
      (sent < commands.length → 0 < sent ∧ env.telnetSendOneLine (k + sent - 1) = .stop) := by
  induction commands generalizing ret s k with
  | nil => exact ⟨0, le_rfl, by simp [foreachLoop], rfl, by omega, by simp⟩
  | cons command commands ih =>
      rw [foreachLoop, if_pos hret]
      by_cases hstop : env.telnetSendOneLine k = .stop
      · -- the loop ends behind this command
        have hend : foreachLoop (visitTelnetCommandList env) (env.telnetSendOneLine k) commands
            (visitTelnetCommandList env (s, k) command).2 =
              (env.telnetSendOneLine k, (visitTelnetCommandList env (s, k) command).2) := by
          cases commands with
          | nil => rfl
          | cons c cs => rw [foreachLoop, if_neg (not_not.2 hstop)]
        refine ⟨1, by simp, ?_, ?_, by omega, fun _ => ⟨Nat.one_pos, hstop⟩⟩
        · have hlog := congrArg (fun r => r.2.1.log) hend
          exact hlog
        · exact congrArg Prod.fst hend
      · obtain ⟨sent, hle, hlog, hfst, hbefore, hearly⟩ :=
          ih hstop (visitTelnetCommandList env (s, k) command).2.1 (k + 1)
        refine ⟨sent + 1, Nat.succ_le_succ hle, ?_, ?_, ?_, ?_⟩
        · rw [List.take_succ_cons, List.map_cons, List.append_cons]
          exact hlog
        · refine hfst.trans ?_
          rw [if_neg (Nat.succ_ne_zero sent)]
          split
          · next hzero => rw [hzero]; rfl
          · next hpos => congr 1; omega
        · intro i hi
          cases i with
          | zero => exact hstop
          | succ i =>
              have hne := hbefore i (by omega)
              rwa [show k + (i + 1) = k + 1 + i by omega]
        · intro hlt
          obtain ⟨hpos, hsend⟩ := hearly (by simpa using hlt)
          exact ⟨Nat.succ_pos sent, by rwa [show k + (sent + 1) - 1 = k + 1 + sent - 1 by omega]⟩

/-! ### What a deployment relies on -/

/-- **A failed command is not reported as success, and nothing is sent behind it**: the visit of the
list succeeds exactly if every command does, and the commands sent end with the first that fails. -/
def FailureEndsRun (commands : List CText) (env : TargetEnv) (s : Deployment) : Prop :=
  ((dlistForeach (some commands) (visitTelnetCommandList env) (s, 0)).1 = .ok ↔
    ∀ i < commands.length, env.telnetSendOneLine i = .ok) ∧
  ∃ sent ≤ commands.length,
    (dlistForeach (some commands) (visitTelnetCommandList env) (s, 0)).2.1.log =
      s.log ++ (commands.take sent).map sendEntry ∧
    ∀ i < commands.length, env.telnetSendOneLine i ≠ .ok → sent ≤ i + 1

/-- The first command that fails is the last of the list, or ends the loop with `RET_STOP`. -/
def OnlyLastFails (commands : List CText) (env : TargetEnv) : Prop :=
  ∀ i, i + 1 < commands.length → (∀ j < i, env.telnetSendOneLine j = .ok) →
    env.telnetSendOneLine i = .ok ∨ env.telnetSendOneLine i = .stop

/-- The log tells how many commands were sent. -/
theorem sent_unique {commands : List CText} {log : List LogEntry} {n m : ℕ}
    (hn : n ≤ commands.length) (hm : m ≤ commands.length)
    (h : log ++ (commands.take n).map sendEntry = log ++ (commands.take m).map sendEntry) :
    n = m := by
  have hlen := congrArg List.length (List.append_cancel_left h)
  simpa [Nat.min_eq_left hn, Nat.min_eq_left hm] using hlen

/-- A failure has a first one in front of it, or is the first. -/
theorem exists_first_failure {results : ℕ → Ret} {i : ℕ} (h : results i ≠ .ok) :
    ∃ j ≤ i, results j ≠ .ok ∧ ∀ l < j, results l = .ok := by
  have hex : ∃ j, results j ≠ .ok := ⟨i, h⟩
  refine ⟨Nat.find hex, Nat.find_min' hex h, Nat.find_spec hex, fun l hl => ?_⟩
  exact not_not.1 (Nat.find_min hex hl)

/-- **When a failed command is noticed**: exactly if only the last command fails. -/
theorem failureEndsRun_iff (commands : List CText) (env : TargetEnv) (s : Deployment) :
    FailureEndsRun commands env s ↔ OnlyLastFails commands env := by
  have hok : Ret.ok ≠ .stop := by decide
  obtain ⟨sent, hle, hlog, hfst, hbefore, hearly⟩ := foreachLoop_commands env commands hok s 0
  simp only [Nat.zero_add] at hfst hbefore hearly
  constructor
  · rintro ⟨-, sent', hle', hlog', hlast⟩ i hi hfront
    obtain rfl := sent_unique hle hle' (hlog.symm.trans hlog')
    refine or_iff_not_imp_left.2 fun hfail => ?_
    have hsent := hlast i (by omega) hfail
    obtain ⟨hpos, hstop⟩ := hearly (by omega)
    -- the command that ended the loop is the `i`th: those in front of it succeeded
    have hi' : sent - 1 = i := by
      by_contra hne
      rw [hfront (sent - 1) (by omega)] at hstop
      exact hok hstop
    rwa [hi'] at hstop
  · intro honly
    -- a failure ends the loop, or is that of the last command
    have hfirst : ∀ i < commands.length, env.telnetSendOneLine i ≠ .ok →
        (∀ j < i, env.telnetSendOneLine j = .ok) →
          sent ≤ i + 1 ∧ env.telnetSendOneLine (sent - 1) ≠ .ok ∧ sent ≠ 0 := by
      intro i hi hfail hfront
      rcases Nat.lt_or_ge sent commands.length with hlt | hge
      · obtain ⟨hpos, hstop⟩ := hearly hlt
        refine ⟨?_, by rw [hstop]; exact hok.symm, hpos.ne'⟩
        by_contra hgt
        have hne := hbefore i (by omega)
        exact (honly i (by omega) hfront).elim hfail hne
      · have hsent : sent = commands.length := by omega
        have hlast : i + 1 = commands.length := by
          by_contra hne
          exact (honly i (by omega) hfront).elim hfail (hbefore i (by omega))
        refine ⟨by omega, ?_, by omega⟩
        rwa [hsent, ← hlast, Nat.add_sub_cancel]
    refine ⟨⟨fun h i hi => ?_, fun hall => ?_⟩, sent, hle, hlog, fun i hi hfail => ?_⟩
    · by_contra hfail
      obtain ⟨j, hj, hjfail, hfront⟩ := exists_first_failure hfail
      obtain ⟨-, hne, hpos⟩ := hfirst j (by omega) hjfail hfront
      exact hne (by rw [dlistForeach, hfst, if_neg hpos] at h; exact h)
    · rw [dlistForeach, hfst]
      split
      · rfl
      · next hpos => exact hall (sent - 1) (by omega)
    · obtain ⟨j, hj, hjfail, hfront⟩ := exists_first_failure hfail
      have hsent := (hfirst j (by omega) hjfail hfront).1
      omega

/-- The answers of a target whose first command fails and whose other calls all succeed. -/
def firstCommandFails : TargetEnv where
  ftpConnect := .ok
  ftpLogin := .ok
  ftpSetBinaryMode := .ok
  readlink _ := none
  ftpPut _ := .ok
  telnetConnect := .ok
  telnetLogin := .ok
  telnetSendOneLine i := if i = 0 then .fail else .ok

/-- Two commands of which the first fails: both are sent, and the visit succeeds. -/
theorem firstCommandFails_forgotten :
    ¬ FailureEndsRun ["a\r\n".toUTF8.toList, "b\r\n".toUTF8.toList] firstCommandFails
      ⟨⟨.init, .init, none, none, none⟩, []⟩ := by
  rintro ⟨hret, -⟩
  have hall := hret.1 rfl 0 (by decide)
  exact absurd hall (by decide)

end Wsn
