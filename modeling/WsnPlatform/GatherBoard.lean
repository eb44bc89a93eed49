/-
**The LEDs of the gather board: `src/app/gather_board.c`.**

`packet_transfer.c` lights the LEDs of a node through `gather_board_led_red` and
`gather_board_led_green`.  An `ioctl` is recorded with the file, the command and the value it is
issued with; what the driver answers is given.

Main definitions: `Wsn.gatherBoardLedControl`, the function behind both calls;
`Wsn.gatherBoardCurrentSwitch`.

Main result: `Wsn.gatherBoardLedControl_eq`: its two guards refuse every request, so no `ioctl` is
ever issued.
-/

import WsnPlatform.Common

set_option relaxedAutoImplicit false
set_option autoImplicit false

namespace Wsn

/-! ### The driver interface -/

@[simp] def ledOn : ℤ := 0
@[simp] def ledOff : ℤ := 1

@[simp] def ledMinIndex : ℤ := 1
@[simp] def ledMaxIndex : ℤ := 8

@[simp] def currSwitchOff : ℤ := 0
@[simp] def currSwitchOn : ℤ := 1

/-- `_IOW('o', nr, int)`: direction, size, magic number and number. -/
def iow (nr : ℕ) : ℕ := 1 <<< 30 ||| 4 <<< 16 ||| 0x6F <<< 8 ||| nr

/-- The table `led_ioctl_command`: the eight red LEDs, then the eight green ones. -/
def ledIoctlCommand : List ℕ := (List.range 16).map iow

/-- `OINT_GPIO_IOC_CURR_SWITCH`. -/
def ointGpioIocCurrSwitch : ℕ := iow 16

/-- An `ioctl` call. -/
structure Ioctl where
  fd : ℤ
  command : ℕ
  value : ℤ

/-- `struct _GatherBoard`, with what the GPIO driver answers to a call. -/
structure GatherBoard where
  gpioFd : ℤ
  driver : Ioctl → ℤ

/-- A board whose driver accepts every call. -/
def willingBoard : GatherBoard := ⟨3, fun _ => 0⟩

/-! ### The calls -/

/-- **`gather_board_led_control`**: the return code and the calls issued. -/
def gatherBoardLedControl (thiz : Option GatherBoard) (ledIndex value : ℤ) (red : Bool) :
    Exec (Ret × List Ioctl) :=
  match thiz with
  | none => .ok (.invalidParams, [])
  | some thiz =>
      if ¬ (value ≠ ledOn ∧ value ≠ ledOn) then .ok (.invalidParams, [])
      else if ¬ (ledIndex < ledMinIndex ∧ ledIndex > ledMaxIndex) then .ok (.invalidParams, [])
      else
        let index := (if red then 0 else ledMaxIndex) + ledIndex - 1
        match if index < 0 then none else ledIoctlCommand[index.toNat]? with
        | none => .error .outOfBounds
        | some command =>
            let call : Ioctl := ⟨thiz.gpioFd, command, value⟩
            if thiz.driver call = -1 then .ok (.fail, [call]) else .ok (.ok, [call])

def gatherBoardLedRed (thiz : Option GatherBoard) (ledIndex value : ℤ) : Exec (Ret × List Ioctl) :=
  gatherBoardLedControl thiz ledIndex value true

def gatherBoardLedGreen (thiz : Option GatherBoard) (ledIndex value : ℤ) :
    Exec (Ret × List Ioctl) :=
  gatherBoardLedControl thiz ledIndex value false

/-- **`gather_board_current_switch`**. -/
def gatherBoardCurrentSwitch (thiz : Option GatherBoard) (value : ℤ) : Exec (Ret × List Ioctl) :=
  match thiz with
  | none => .ok (.invalidParams, [])
  | some thiz =>
      if ¬ (value ≠ currSwitchOff ∧ value ≠ currSwitchOn) then .ok (.invalidParams, [])
      else
        let call : Ioctl := ⟨thiz.gpioFd, ointGpioIocCurrSwitch, value⟩
        if thiz.driver call = -1 then .ok (.fail, [call]) else .ok (.ok, [call])

/-- **Every request is refused**: no index is below the least and above the greatest one. -/
theorem gatherBoardLedControl_eq (thiz : Option GatherBoard) (ledIndex value : ℤ) (red : Bool) :
    gatherBoardLedControl thiz ledIndex value red = .ok (.invalidParams, []) := by
  cases thiz with
  | none => rfl
  | some thiz =>
      have hindex : ¬ (ledIndex < ledMinIndex ∧ ledIndex > ledMaxIndex) := by
        simp only [ledMinIndex, ledMaxIndex]
        omega
      by_cases hvalue : value ≠ ledOn ∧ value ≠ ledOn
      · simp only [gatherBoardLedControl, if_neg (not_not.2 hvalue), if_pos hindex]
      · simp only [gatherBoardLedControl, if_pos hvalue]

end Wsn
