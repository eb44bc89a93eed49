/-
**The gather board on its driver.**

The functions of `gather_board.c` reach the lines of the board through the driver only.  Here their
calls of `ioctl` are handed to it, and what it answers is handed back, so that a run of them has an
outcome on the pins.  A guard that refuses what it should let through decides then what a line can
ever be.

Main definitions:

* `gatherBoardResetFpga` — the reset, with the switch that it asks to be turned off;
* `boardOn`, `boardStep` — a call of the board, and what it does to the chip.

Main results:

* `boardStep_spec` — what one call does to the lines;
* `boardStep_run` — **what a run can do to the lines**: the LEDs stay as they are, the switch is
  turned on by a value that is neither on nor off, and is never turned off.
-/

import WsnPlatform.GpioDriver

set_option relaxedAutoImplicit false
set_option autoImplicit false

namespace Wsn

open FaultRun

/-! ### The calls -/

/-- **`gather_board_reset_fpga`**: the return code and the calls issued.  What becomes of the switch
is not looked at. -/
def gatherBoardResetFpga (thiz : Option GatherBoard) : Exec (Ret × List Ioctl) :=
  match thiz with
  | none => .ok (.invalidParams, [])
  | some thiz => do
      let (_, off) ← gatherBoardCurrentSwitch (some thiz) currSwitchOff
      let enable : Ioctl := ⟨thiz.gpioFd, ointGpioIocFpgaReset, 0⟩
      if thiz.driver enable = -1 then .ok (.fail, off ++ [enable])
      else
        let disable : Ioctl := ⟨thiz.gpioFd, ointGpioIocFpgaReset, 1⟩
        if thiz.driver disable = -1 then .ok (.fail, off ++ [enable, disable])
        else .ok (.ok, off ++ [enable, disable])

/-- A call of `ioctl`, as the driver gets it. -/
def Ioctl.gpioCall (call : Ioctl) : GpioCall := ⟨call.command, call.value, true, fun _ => false⟩

/-- **A board on the driver**: an answer below zero becomes `-1`. -/
def boardOn (fd : ℤ) : GatherBoard :=
  ⟨fd, fun call => if call.gpioCall.reply.1 < 0 then -1 else call.gpioCall.reply.1⟩

inductive BoardCall
  | ledRed (ledIndex value : ℤ)
  | ledGreen (ledIndex value : ℤ)
  | currentSwitch (value : ℤ)
  | resetFpga

/-- The function that is called. -/
def BoardCall.issue (thiz : GatherBoard) : BoardCall → Exec (Ret × List Ioctl)
  | .ledRed ledIndex value => gatherBoardLedRed (some thiz) ledIndex value
  | .ledGreen ledIndex value => gatherBoardLedGreen (some thiz) ledIndex value
  | .currentSwitch value => gatherBoardCurrentSwitch (some thiz) value
  | .resetFpga => gatherBoardResetFpga (some thiz)

/-- **A call of the board**: its return code, the levels of the reset line behind each `ioctl`, and
the chip. -/
def boardStep (fd : ℤ) (chip : GpioChip) (call : BoardCall) :
    Exec ((Ret × List Bool) × GpioChip) := do
  let (ret, calls) ← call.issue (boardOn fd)
  let (tr, chip) ← trace ointGpioIoctl chip (calls.map Ioctl.gpioCall)
  .ok ((ret, tr.map fun r => r.2.line 17), chip)

/-! ### What is issued -/

/-- The values that the guard of `gather_board_current_switch` lets through: those that are neither
on nor off. -/
def PassesSwitch (value : ℤ) : Prop := value ≠ currSwitchOff ∧ value ≠ currSwitchOn

instance (value : ℤ) : Decidable (PassesSwitch value) :=
  inferInstanceAs (Decidable (value ≠ currSwitchOff ∧ value ≠ currSwitchOn))

theorem boardOn_driver (fd : ℤ) {index : ℕ} (hlt : index < 18) (value : ℤ) :
    (boardOn fd).driver ⟨fd, iow index, value⟩ = 0 := by
  have hmem : iow index ∈ outputCommands := List.mem_map_of_mem (List.mem_range.2 hlt)
  simp [boardOn, Ioctl.gpioCall, GpioCall.reply, hmem]

theorem currentSwitch_issue (fd value : ℤ) :
    gatherBoardCurrentSwitch (some (boardOn fd)) value =
      if PassesSwitch value then .ok (.ok, [⟨fd, iow 16, value⟩])
      else .ok (.invalidParams, []) := by
  have hdriver := boardOn_driver fd (show 16 < 18 by decide) value
  rw [gatherBoardCurrentSwitch]
  by_cases hpasses : PassesSwitch value
  · rw [if_pos hpasses, if_neg (show ¬ ¬ (value ≠ currSwitchOff ∧ value ≠ currSwitchOn) from
      not_not.2 hpasses)]
    simp only [ointGpioIocCurrSwitch, show (boardOn fd).gpioFd = fd from rfl, hdriver]
    rfl
  · rw [if_neg hpasses,
      if_pos (show ¬ (value ≠ currSwitchOff ∧ value ≠ currSwitchOn) from hpasses)]

theorem resetFpga_issue (fd : ℤ) : gatherBoardResetFpga (some (boardOn fd)) =
    .ok (.ok, [⟨fd, iow 17, 0⟩, ⟨fd, iow 17, 1⟩]) := by
  -- the guard of the switch refuses the value that the reset hands to it
  have hoff : ¬ PassesSwitch currSwitchOff := fun h => h.1 rfl
  have hdriver := boardOn_driver fd (show 17 < 18 by decide)
  rw [gatherBoardResetFpga, currentSwitch_issue, if_neg hoff]
  simp only [ok_bind, ointGpioIocFpgaReset, show (boardOn fd).gpioFd = fd from rfl, hdriver]
  rfl

/-! ### What becomes of the lines -/

/-- **What a call makes of a line.** -/
def BoardCall.line (index : ℕ) (level : Bool) : BoardCall → Bool
  | .currentSwitch value => if index = 16 ∧ PassesSwitch value then true else level
  | .resetFpga => if index = 17 then true else level
  | _ => level

/-- **A call of the board on its driver**: it never faults, and a reset pulls the line of the FPGA
down and up again. -/
theorem boardStep_spec (fd : ℤ) (chip : GpioChip) (call : BoardCall) :
    ∃ out chip', boardStep fd chip call = .ok (out, chip') ∧ SameWiring chip chip' ∧
      (∀ index < 18, chip'.line index = call.line index (chip.line index)) ∧
      (call = .resetFpga → out = (.ok, [false, true])) := by
  cases call with
  | ledRed ledIndex value =>
      refine ⟨(.invalidParams, []), chip, ?_, sameWiring_refl chip, fun _ _ => rfl, by simp⟩
      simp [boardStep, BoardCall.issue, gatherBoardLedRed, gatherBoardLedControl_eq]
  | ledGreen ledIndex value =>
      refine ⟨(.invalidParams, []), chip, ?_, sameWiring_refl chip, fun _ _ => rfl, by simp⟩
      simp [boardStep, BoardCall.issue, gatherBoardLedGreen, gatherBoardLedControl_eq]
  | currentSwitch value =>
      by_cases hpasses : PassesSwitch value
      · obtain ⟨chip', hcall, hwiring, hline⟩ :=
          ointGpioIoctl_spec chip (Ioctl.gpioCall ⟨fd, iow 16, value⟩)
        refine ⟨(.ok, [chip'.line 17]), chip', ?_, hwiring, fun index hlt => ?_, by simp⟩
        · simp [boardStep, BoardCall.issue, currentSwitch_issue, hpasses, trace, hcall]
        · have hne : value ≠ 0 := hpasses.1
          rw [hline index hlt, lastWritten_iow (show 16 < 18 by decide) hlt rfl]
          simp [BoardCall.line, hpasses, Ioctl.gpioCall, hne]
      · refine ⟨(.invalidParams, []), chip, ?_, sameWiring_refl chip, fun index _ => ?_, by simp⟩
        · simp [boardStep, BoardCall.issue, currentSwitch_issue, hpasses]
        · simp [BoardCall.line, hpasses]
  | resetFpga =>
      obtain ⟨chip₁, hlow, hwiring₁, hline₁⟩ :=
        ointGpioIoctl_spec chip (Ioctl.gpioCall ⟨fd, iow 17, 0⟩)
      obtain ⟨chip₂, hhigh, hwiring₂, hline₂⟩ :=
        ointGpioIoctl_spec chip₁ (Ioctl.gpioCall ⟨fd, iow 17, 1⟩)
      refine ⟨(.ok, [chip₁.line 17, chip₂.line 17]), chip₂, ?_, hwiring₁.trans hwiring₂,
        fun index hlt => ?_, fun _ => ?_⟩
      · simp [boardStep, BoardCall.issue, resetFpga_issue, trace, hlow, hhigh]
      · rw [hline₂ index hlt, hline₁ index hlt, lastWritten_iow (show 17 < 18 by decide) hlt rfl,
          lastWritten_iow (show 17 < 18 by decide) hlt rfl]
        by_cases hreset : index = 17
        · simp [BoardCall.line, hreset, Ioctl.gpioCall]
        · simp [BoardCall.line, hreset]
      · have hlow : chip₁.line 17 = false := by
          rw [hline₁ 17 (by decide), lastWritten_iow (show 17 < 18 by decide) (by decide) rfl]
          rfl
        have hhigh : chip₂.line 17 = true := by
          rw [hline₂ 17 (by decide), lastWritten_iow (show 17 < 18 by decide) (by decide) rfl]
          rfl
        rw [hlow, hhigh]

/-- **A run of the board.**  By induction on its calls. -/
theorem boardStep_trace (fd : ℤ) (chip : GpioChip) (calls : List BoardCall) :
    ∃ tr chip', trace (boardStep fd) chip calls = .ok (tr, chip') ∧ SameWiring chip chip' ∧
      ∀ index < 18, chip'.line index =
        calls.foldl (fun level call => call.line index level) (chip.line index) := by
  induction calls generalizing chip with
  | nil => exact ⟨[], chip, rfl, sameWiring_refl chip, fun _ _ => rfl⟩
  | cons call calls ih =>
      obtain ⟨out, chip₁, hcall, hwiring, hline, -⟩ := boardStep_spec fd chip call
      obtain ⟨tr, chip₂, hrun, hwiring', hline'⟩ := ih chip₁
      refine ⟨_, chip₂, trace_cons_ok hcall hrun, hwiring.trans hwiring', fun index hlt => ?_⟩
      rw [hline' index hlt, hline index hlt]
      rfl

/-- A line that no call is about. -/
theorem boardLine_other {index : ℕ} (hlt : index < 16) (calls : List BoardCall) (level : Bool) :
    calls.foldl (fun level call => call.line index level) level = level := by
  induction calls generalizing level with
  | nil => rfl
  | cons call calls ih =>
      have hline : call.line index level = level := by
        cases call with
        | ledRed ledIndex value => rfl
        | ledGreen ledIndex value => rfl
        | currentSwitch value => simp [BoardCall.line, show index ≠ 16 by omega]
        | resetFpga => simp [BoardCall.line, show index ≠ 17 by omega]
      rw [List.foldl_cons, hline, ih]

/-- **The switch** is on if it was, or if a value has passed the guard. -/
theorem boardLine_switch (calls : List BoardCall) (level : Bool) :
    calls.foldl (fun level call => call.line 16 level) level = true ↔
      level = true ∨ ∃ value, .currentSwitch value ∈ calls ∧ PassesSwitch value := by
  induction calls generalizing level with
  | nil => simp
  | cons call calls ih =>
      rw [List.foldl_cons, ih]
      cases call with
      | ledRed ledIndex value => simp [BoardCall.line]
      | ledGreen ledIndex value => simp [BoardCall.line]
      | resetFpga => simp [BoardCall.line]
      | currentSwitch value =>
          by_cases hpasses : PassesSwitch value
          · refine iff_of_true (Or.inl ?_) (Or.inr ⟨value, List.mem_cons_self, hpasses⟩)
            simp [BoardCall.line, hpasses]
          · have hline : BoardCall.line 16 level (.currentSwitch value) = level := by
              simp [BoardCall.line, hpasses]
            rw [hline]
            -- a value that was refused is not the one that has passed
            refine or_congr_right (exists_congr fun value' => ?_)
            rw [List.mem_cons]
            constructor
            · rintro ⟨hmem, hvalue⟩
              exact ⟨Or.inr hmem, hvalue⟩
            · rintro ⟨heq | hmem, hvalue⟩
              · cases heq
                exact absurd hvalue hpasses
              · exact ⟨hmem, hvalue⟩

theorem boardLine_reset (calls : List BoardCall) :
    calls.foldl (fun level call => call.line 17 level) true = true := by
  induction calls with
  | nil => rfl
  | cons call calls ih =>
      have hline : call.line 17 true = true := by
        cases call <;> simp [BoardCall.line]
      rw [List.foldl_cons, hline, ih]

/-- **What a run of the board can do**, after the module was loaded, whatever is called with
whatever values: no LED is ever lit, the switch is on exactly if it was given a value that is
neither on nor off, and the FPGA is not left in its reset. -/
theorem boardStep_run (fd : ℤ) {free : ℕ → ℤ} {registered : ℤ} {start chip : GpioChip}
    (h : ointGpioInit free registered start = (0, chip)) (calls : List BoardCall) :
    ∃ tr chip', trace (boardStep fd) chip calls = .ok (tr, chip') ∧ SameWiring chip chip' ∧
      (∀ index < 16, chip'.line index = true) ∧
      (chip'.line 16 = true ↔ ∃ value, .currentSwitch value ∈ calls ∧ PassesSwitch value) ∧
      chip'.line 17 = true := by
  obtain ⟨tr, chip', hrun, hwiring, hline⟩ := boardStep_trace fd chip calls
  refine ⟨tr, chip', hrun, hwiring, fun index hlt => ?_, ?_, ?_⟩
  · have hne : index ≠ 16 := by omega
    rw [hline index (by omega), boardLine_other hlt, ointGpioInit_line h (by omega)]
    simp [hne]
  · rw [hline 16 (by decide), boardLine_switch, ointGpioInit_line h (by decide)]
    simp
  · rw [hline 17 (by decide), ointGpioInit_line h (by decide)]
    exact boardLine_reset calls

/-- The switch is turned on by a seven; a zero, a reset and a LED change nothing. -/
theorem boardStep_run_seven :
    ointGpioInit (fun _ => 0) 0 idleChip = (0, loadedChip) ∧
      ∃ tr chip, trace (boardStep 3) loadedChip
          [.ledRed 1 0, .currentSwitch 7, .currentSwitch 0, .resetFpga] = .ok (tr, chip) ∧
        (∀ index < 16, chip.line index = true) ∧ chip.line 16 = true ∧ chip.line 17 = true := by
  obtain ⟨tr, chip, hrun, -, hleds, hswitch, hreset⟩ := boardStep_run 3 loadedChip_loaded
    [.ledRed 1 0, .currentSwitch 7, .currentSwitch 0, .resetFpga]
  refine ⟨loadedChip_loaded, tr, chip, hrun, hleds, hswitch.2 ⟨7, ?_, by decide⟩, hreset⟩
  exact List.mem_cons_of_mem _ List.mem_cons_self

end Wsn
