/-
**The GPIO driver: `src/drivers/gpio/oint_gpio.c`.**

The lines of the gather board are pins of the chip: the LEDs, the switch of the current sampling,
the reset of the FPGA, and one input.  An `ioctl` on the device file carries a number, which is
taken apart into a direction, a type and the index of a line.  The table of the pins is looked up
with that index, so that a number from user space decides where the driver reads.

Main definitions:

* `ointGpios`, `GpioChip` — the pins in the order of their lines, and what the chip holds;
* `ointGpioIoctl` — the request of user space;
* `ointGpioInit` — the module is loaded;
* `GpioChip.line`, `lastWritten` — a line, and what was written to it last.

Main results:

* `ointGpioIoctl_spec` — what a request does: it sets one line, or nothing;
* `initPins_requested`, `ointGpioInit_line` — what a load of the module leaves;
* `ointGpioIoctl_run` — **whatever user space asks for**, each line has the level last written to
  it;
* `ointGpioInit_again` — **a load that fails in the middle makes every later one fail**.
-/

import WsnPlatform.FaultRun
import WsnPlatform.GatherBoard

set_option relaxedAutoImplicit false
set_option autoImplicit false

namespace Wsn

open FaultRun

/-! ### The pins -/

/-- The banks of the chip in which the board has pins. -/
inductive GpioBank
  | e
  | l
  | m
  | n
  | q
  deriving DecidableEq

/-- A pin: `S3C64XX_GPE(1)` and so on. -/
structure GpioPin where
  bank : GpioBank
  number : ℕ
  deriving DecidableEq

/-- `oint_gpios`: the red LEDs, the green ones, the switch, the reset and the input. -/
def ointGpios : List GpioPin :=
  [⟨.e, 1⟩, ⟨.e, 3⟩, ⟨.m, 0⟩, ⟨.m, 2⟩, ⟨.m, 4⟩, ⟨.q, 1⟩, ⟨.q, 3⟩, ⟨.q, 5⟩,
    ⟨.e, 2⟩, ⟨.e, 4⟩, ⟨.m, 1⟩, ⟨.m, 3⟩, ⟨.m, 5⟩, ⟨.q, 2⟩, ⟨.q, 4⟩, ⟨.q, 6⟩,
    ⟨.n, 9⟩, ⟨.n, 11⟩, ⟨.l, 8⟩]

/-- `GPIO_NUM`. -/
def gpioNum : ℕ := ointGpios.length

inductive GpioPull
  | up
  | none

inductive GpioDirection
  | input
  | output

/-- **What the chip holds**: the pins that are taken, how they are set up, and the level that a pin
is driven to. -/
structure GpioChip where
  requested : List GpioPin
  pull : GpioPin → Option GpioPull
  direction : GpioPin → Option GpioDirection
  level : GpioPin → Bool

/-- `gpio_set_value`. -/
def GpioChip.setValue (chip : GpioChip) (pin : GpioPin) (value : ℤ) : GpioChip :=
  { chip with level := Function.update chip.level pin (decide (value ≠ 0)) }

/-- `s3c_gpio_setpull`. -/
def GpioChip.setPull (chip : GpioChip) (pin : GpioPin) (pull : GpioPull) : GpioChip :=
  { chip with pull := Function.update chip.pull pin (some pull) }

/-- `gpio_direction_output`. -/
def GpioChip.directionOutput (chip : GpioChip) (pin : GpioPin) (value : ℤ) : GpioChip :=
  { chip.setValue pin value with
    direction := Function.update chip.direction pin (some .output) }

/-- `gpio_direction_input`. -/
def GpioChip.directionInput (chip : GpioChip) (pin : GpioPin) : GpioChip :=
  { chip with direction := Function.update chip.direction pin (some .input) }

/-! ### Requests of user space -/

/-- `_IOC_NR`. -/
def iocNr (cmd : ℕ) : ℕ := cmd &&& 0xFF

/-- `_IOC_TYPE`. -/
def iocType (cmd : ℕ) : ℕ := cmd >>> 8 &&& 0xFF

/-- `_IOC_DIR`. -/
def iocDir (cmd : ℕ) : ℕ := cmd >>> 30 &&& 3

/-- `_IOR('o', nr, int)`. -/
def ior (nr : ℕ) : ℕ := 2 <<< 30 ||| 4 <<< 16 ||| 0x6F <<< 8 ||| nr

/-- `OINT_GPIO_IOC_FPGA_RESET`. -/
def ointGpioIocFpgaReset : ℕ := iow 17

/-- `OINT_GPIO_IOC_FPGA_SDRAM_STATUS`. -/
def ointGpioIocFpgaSdramStatus : ℕ := ior 18

/-- The requests that set a line. -/
def outputCommands : List ℕ := (List.range 18).map iow

def einval : ℤ := -22

def efault : ℤ := -14

def ebusy : ℤ := -16

/-- **A call of `ioctl`**, with the answer of `access_ok` and the levels at the inputs. -/
structure GpioCall where
  command : ℕ
  arg : ℤ
  accessOk : Bool
  sense : GpioPin → Bool

/-- **`oint_gpio_ioctl`**: its result, and what `put_user` stores.  The two tests of the direction
ask for the same bit, so that the second one never finds it. -/
def ointGpioIoctl (chip : GpioChip) (call : GpioCall) : Exec ((ℤ × Option Bool) × GpioChip) :=
  if iocType call.command ≠ 0x6F then .ok ((einval, none), chip)
  else if iocNr call.command > gpioNum then .ok ((einval, none), chip)
  else if iocDir call.command &&& 2 ≠ 0 ∧ call.accessOk = false then .ok ((efault, none), chip)
  else if call.command ∈ outputCommands then do
    let pin ← stored ointGpios[iocNr call.command]?
    .ok ((0, none), chip.setValue pin call.arg)
  else if call.command = ointGpioIocFpgaSdramStatus then do
    let pin ← stored ointGpios[iocNr call.command]?
    .ok ((0, some (call.sense pin)), chip)
  else .ok ((einval, none), chip)

/-! ### Loading the module -/

/-- `gpio_request`; `free` is its answer for a pin that is not taken. -/
def GpioChip.request (chip : GpioChip) (pin : GpioPin) (free : ℤ) : ℤ × GpioChip :=
  if pin ∈ chip.requested then (ebusy, chip)
  else if free = 0 then (0, { chip with requested := pin :: chip.requested })
  else (free, chip)

/-- How the line of an index is set up; `FPGA_RESET_DISABLE` is `1`. -/
def setUpLine (index : ℕ) (pin : GpioPin) (chip : GpioChip) : GpioChip :=
  if index < 16 then (chip.setPull pin .up).directionOutput pin ledOff
  else if index = 16 then (chip.setPull pin .up).directionOutput pin currSwitchOff
  else if index = 17 then (chip.setPull pin .up).directionOutput pin 1
  else if index = 18 then (chip.setPull pin .none).directionInput pin
  else chip

/-- The loop of `oint_gpio_init`.  A pin that cannot be had ends it, and those before are kept. -/
def initPins (free : ℕ → ℤ) : List GpioPin → ℕ → GpioChip → ℤ × GpioChip
  | [], _, chip => (0, chip)
  | pin :: pins, index, chip =>
      match chip.request pin (free index) with
      | (ret, chip) =>
          if ret ≠ 0 then (ret, chip) else initPins free pins (index + 1) (setUpLine index pin chip)

/-- **`oint_gpio_init`**; `registered` is the answer of `misc_register`. -/
def ointGpioInit (free : ℕ → ℤ) (registered : ℤ) (chip : GpioChip) : ℤ × GpioChip :=
  match initPins free ointGpios 0 chip with
  | (ret, chip) => if ret ≠ 0 then (ret, chip) else (registered, chip)

/-- `oint_gpio_cleanup`. -/
def ointGpioCleanup (chip : GpioChip) : GpioChip :=
  { chip with requested := chip.requested.filter (· ∉ ointGpios) }

/-- The module in the kernel: whether it is there, and the chip. -/
structure GpioModule where
  loaded : Bool
  chip : GpioChip

inductive ModuleCall
  | load (free : ℕ → ℤ) (registered : ℤ)
  | unload

/-- **Loading and unloading.**  A module whose `init` fails is not loaded, and nothing calls its
`exit`. -/
def GpioModule.step (m : GpioModule) : ModuleCall → GpioModule
  | .load free registered =>
      if m.loaded then m
      else
        match ointGpioInit free registered m.chip with
        | (ret, chip) => ⟨decide (ret = 0), chip⟩
  | .unload => if m.loaded then ⟨false, ointGpioCleanup m.chip⟩ else m

/-! ### The lines -/

/-- **A line of the board**, by its index. -/
def GpioChip.line (chip : GpioChip) (index : ℕ) : Bool :=
  (ointGpios[index]?.map chip.level).getD false

/-- **The level last written to a line** by a list of calls. -/
def lastWritten (index : ℕ) (calls : List GpioCall) (level : Bool) : Bool :=
  calls.foldl (fun level call => if call.command = iow index then decide (call.arg ≠ 0) else level)
    level

/-- Two chips that are set up alike, and drive alike what is not a line for output. -/
structure SameWiring (chip chip' : GpioChip) : Prop where
  requested : chip'.requested = chip.requested
  pull : chip'.pull = chip.pull
  direction : chip'.direction = chip.direction
  others : ∀ pin, pin ∉ ointGpios.take 18 → chip'.level pin = chip.level pin

theorem sameWiring_refl (chip : GpioChip) : SameWiring chip chip :=
  ⟨rfl, rfl, rfl, fun _ _ => rfl⟩

theorem SameWiring.trans {chip chip' chip'' : GpioChip} (h : SameWiring chip chip')
    (h' : SameWiring chip' chip'') : SameWiring chip chip'' :=
  ⟨h'.requested.trans h.requested, h'.pull.trans h.pull, h'.direction.trans h.direction,
    fun pin hpin => (h'.others pin hpin).trans (h.others pin hpin)⟩

/-- A request that sets a line, taken apart. -/
theorem iow_fields : ∀ index < 18,
    iocType (iow index) = 0x6F ∧ iocNr (iow index) = index ∧ iocDir (iow index) &&& 2 = 0 := by
  decide

theorem iow_inj {index index' : ℕ} (hlt : index < 18) (hlt' : index' < 18)
    (h : iow index = iow index') : index = index' := by
  have hnr := congrArg iocNr h
  rwa [(iow_fields index hlt).2.1, (iow_fields index' hlt').2.1] at hnr

/-- One request for a line. -/
theorem lastWritten_iow {index index' : ℕ} (hlt : index < 18) (hlt' : index' < 18)
    {call : GpioCall} (h : call.command = iow index) (level : Bool) :
    lastWritten index' [call] level = if index' = index then decide (call.arg ≠ 0) else level := by
  by_cases hsame : index' = index
  · simp [lastWritten, hsame, h]
  · have hne : iow index ≠ iow index' := fun heq => hsame (iow_inj hlt hlt' heq).symm
    simp [lastWritten, hsame, h, hne]

theorem ior_fields : iocType (ior 18) = 0x6F ∧ iocNr (ior 18) = 18 ∧
    iocDir (ior 18) &&& 2 ≠ 0 ∧ ior 18 ∉ outputCommands := by
  decide

theorem ointGpios_nodup : ointGpios.Nodup := by decide

/-- The line that a pin is. -/
theorem line_pin (chip : GpioChip) {index : ℕ} {pin : GpioPin}
    (h : ointGpios[index]? = some pin) : chip.line index = chip.level pin := by
  rw [GpioChip.line, h]
  rfl

/-- **Setting a line** leaves the others as they are. -/
theorem line_setValue (chip : GpioChip) {index : ℕ} {pin : GpioPin}
    (h : ointGpios[index]? = some pin) (value : ℤ) {index' : ℕ} (hlt : index' < 18) :
    (chip.setValue pin value).line index' =
      if index' = index then decide (value ≠ 0) else chip.line index' := by
  obtain ⟨pin', h'⟩ : ∃ pin', ointGpios[index']? = some pin' :=
    ⟨_, List.getElem?_eq_getElem (show index' < ointGpios.length from hlt.trans (by decide))⟩
  rw [line_pin _ h', line_pin _ h', GpioChip.setValue]
  by_cases heq : index' = index
  · subst heq
    cases h.symm.trans h'
    rw [if_pos rfl]
    exact Function.update_self ..
  · rw [if_neg heq]
    -- no pin stands twice in the table
    refine Function.update_of_ne ?_ _ _
    rintro rfl
    exact heq ((List.getElem?_inj (List.getElem?_eq_some_iff.1 h').1 ointGpios_nodup).1
      (h'.trans h.symm))

/-- **The answer to a request**, which does not depend on the chip. -/
def GpioCall.reply (call : GpioCall) : ℤ × Option Bool :=
  if call.command ∈ outputCommands then (0, none)
  else if iocType call.command = 0x6F ∧ iocNr call.command ≤ gpioNum ∧
      iocDir call.command &&& 2 ≠ 0 ∧ call.accessOk = false then (efault, none)
  else if call.command = ointGpioIocFpgaSdramStatus then (0, some (call.sense ⟨.l, 8⟩))
  else (einval, none)

/-- A request that sets no line leaves the chip as it is. -/
theorem ointGpioIoctl_other (chip : GpioChip) {call : GpioCall}
    (houtput : call.command ∉ outputCommands) :
    ointGpioIoctl chip call = .ok (call.reply, chip) := by
  by_cases hstatus : call.command = ointGpioIocFpgaSdramStatus
  · obtain ⟨htype, hnr, hdir, -⟩ := ior_fields
    have hpin : ointGpios[18]? = some ⟨.l, 8⟩ := rfl
    rw [← ointGpioIocFpgaSdramStatus, ← hstatus] at htype hnr hdir
    have hnum : ¬ 18 > gpioNum := by decide
    -- the only request with the bit for reading, so that `access_ok` is asked
    cases haccess : call.accessOk with
    | false =>
        simp only [ointGpioIoctl, GpioCall.reply, houtput, htype, hnr, hnum, hdir, haccess, ne_eq,
          not_true_eq_false, not_false_eq_true, if_false, if_true, and_self, not_lt.1 hnum]
    | true =>
        simp only [ointGpioIoctl, GpioCall.reply, houtput, htype, hnr, hnum, haccess, ne_eq,
          not_true_eq_false, if_false, and_false, Bool.true_eq_false, if_pos hstatus, hpin,
          stored_some, ok_bind]
  · by_cases htype : iocType call.command = 0x6F
    · by_cases hnr : iocNr call.command ≤ gpioNum
      · by_cases haccess : iocDir call.command &&& 2 ≠ 0 ∧ call.accessOk = false
        · simp only [ointGpioIoctl, GpioCall.reply, houtput, htype, hnr, not_lt.2 hnr, haccess,
            ne_eq, not_true_eq_false, not_false_eq_true, and_self, if_false, if_true]
        · simp only [ointGpioIoctl, GpioCall.reply, houtput, htype, hnr, not_lt.2 hnr, haccess,
            hstatus, ne_eq, not_true_eq_false, and_false, if_false]
      · simp only [ointGpioIoctl, GpioCall.reply, houtput, htype, hnr, not_le.1 hnr, hstatus, ne_eq,
          not_true_eq_false, if_false, if_true, false_and, and_false]
    · simp only [ointGpioIoctl, GpioCall.reply, houtput, htype, hstatus, ne_eq, not_false_eq_true,
        if_true, if_false, false_and]

/-- **What a request does**: it is one that sets a line, and sets it, or leaves the chip as it
is. -/
theorem ointGpioIoctl_spec (chip : GpioChip) (call : GpioCall) :
    ∃ chip', ointGpioIoctl chip call = .ok (call.reply, chip') ∧ SameWiring chip chip' ∧
      ∀ index < 18, chip'.line index = lastWritten index [call] (chip.line index) := by
  by_cases houtput : call.command ∈ outputCommands
  · obtain ⟨index, hindex, heq⟩ := List.mem_map.1 houtput
    have hlt : index < 18 := List.mem_range.1 hindex
    have hlength : index < ointGpios.length := hlt.trans (by decide)
    have hpin : ointGpios[index]? = some ointGpios[index] := List.getElem?_eq_getElem hlength
    obtain ⟨htype, hnr, hdir⟩ := iow_fields index hlt
    rw [heq] at htype hnr hdir
    refine ⟨chip.setValue ointGpios[index] call.arg, ?_, ⟨rfl, rfl, rfl, fun pin hother => ?_⟩, ?_⟩
    · have hnum : ¬ index > gpioNum := Nat.not_lt.2 hlength.le
      simp only [ointGpioIoctl, GpioCall.reply, htype, hnr, hdir, hnum, houtput, ne_eq,
        not_true_eq_false, if_false, if_true, false_and, hpin, stored_some, ok_bind]
    · refine Function.update_of_ne ?_ _ _
      rintro rfl
      exact hother (List.mem_take_iff_getElem.2 ⟨index, by simp [hlt, hlength], rfl⟩)
    · intro index' hlt'
      rw [line_setValue chip hpin _ hlt', lastWritten_iow hlt hlt' heq.symm]
  · refine ⟨chip, ointGpioIoctl_other chip houtput, sameWiring_refl chip, fun index hlt => ?_⟩
    have hne : call.command ≠ iow index := by
      intro heq
      exact houtput (heq ▸ List.mem_map_of_mem (List.mem_range.2 hlt))
    simp [lastWritten, hne]

/-- **A run of requests.**  By induction on the calls. -/
theorem ointGpioIoctl_trace (chip : GpioChip) (calls : List GpioCall) :
    ∃ tr chip', trace ointGpioIoctl chip calls = .ok (tr, chip') ∧
      tr.map Prod.fst = calls.map GpioCall.reply ∧ SameWiring chip chip' ∧
      ∀ index < 18, chip'.line index = lastWritten index calls (chip.line index) := by
  induction calls generalizing chip with
  | nil => exact ⟨[], chip, rfl, rfl, sameWiring_refl chip, fun _ _ => rfl⟩
  | cons call calls ih =>
      obtain ⟨chip₁, hcall, hwiring, hline⟩ := ointGpioIoctl_spec chip call
      obtain ⟨tr, chip₂, hrun, hreply, hwiring', hline'⟩ := ih chip₁
      refine ⟨_, chip₂, trace_cons_ok hcall hrun, ?_, hwiring.trans hwiring', fun index hlt => ?_⟩
      · rw [List.map_cons, List.map_cons, hreply]
      · rw [hline' index hlt, hline index hlt]
        rfl

/-! ### What a load of the module leaves -/

/-- Setting up a line concerns its pin, and takes none. -/
theorem setUpLine_spec (index : ℕ) (pin : GpioPin) (chip : GpioChip) :
    (setUpLine index pin chip).requested = chip.requested ∧
      (∀ pin' ≠ pin, (setUpLine index pin chip).level pin' = chip.level pin') ∧
      (index < 18 → (setUpLine index pin chip).level pin = decide (index ≠ 16)) := by
  have hother : ∀ (level : GpioPin → Bool) (value : Bool), ∀ pin' ≠ pin,
      Function.update level pin value pin' = level pin' :=
    fun level value pin' hne => Function.update_of_ne hne value level
  unfold setUpLine
  split
  · refine ⟨rfl, hother _ _, fun _ => ?_⟩
    have hne : index ≠ 16 := by omega
    simp [GpioChip.directionOutput, GpioChip.setValue, hne]
  split
  · refine ⟨rfl, hother _ _, fun _ => ?_⟩
    simp [GpioChip.directionOutput, GpioChip.setValue, *]
  split
  · refine ⟨rfl, hother _ _, fun _ => ?_⟩
    simp [GpioChip.directionOutput, GpioChip.setValue, *]
  split
  · exact ⟨rfl, fun _ _ => rfl, fun hlt => by omega⟩
  · exact ⟨rfl, fun _ _ => rfl, fun hlt => by omega⟩

/-- **How the loop ends**: the pins before the one that could not be had are taken. -/
theorem initPins_requested (free : ℕ → ℤ) (pins : List GpioPin) (index : ℕ) (chip : GpioChip) :
    ∃ n ≤ pins.length, (initPins free pins index chip).2.requested =
        (pins.take n).reverse ++ chip.requested ∧
      ((initPins free pins index chip).1 = 0 → n = pins.length) := by
  induction pins generalizing index chip with
  | nil => exact ⟨0, le_rfl, rfl, fun _ => rfl⟩
  | cons pin pins ih =>
      rw [initPins, GpioChip.request]
      by_cases htaken : pin ∈ chip.requested
      · exact ⟨0, Nat.zero_le _, by simp [htaken, ebusy], by simp [htaken, ebusy]⟩
      by_cases hfree : free index = 0
      · obtain ⟨n, hn, hrequested, hall⟩ := ih (index + 1)
          (setUpLine index pin { chip with requested := pin :: chip.requested })
        refine ⟨n + 1, Nat.succ_le_succ hn, ?_, ?_⟩
        · simp [htaken, hfree, hrequested, (setUpLine_spec _ _ _).1]
        · simpa [htaken, hfree] using hall
      · exact ⟨0, Nat.zero_le _, by simp [htaken, hfree], by simp [htaken, hfree]⟩

/-- **The levels behind a loop that ends well.**  By induction on the pins, none of which comes
twice. -/
theorem initPins_level {free : ℕ → ℤ} {pins : List GpioPin} (hnodup : pins.Nodup) {index : ℕ}
    {chip chip' : GpioChip} (h : initPins free pins index chip = (0, chip')) :
    (∀ pin ∉ pins, chip'.level pin = chip.level pin) ∧
      ∀ (j : ℕ) (pin : GpioPin), pins[j]? = some pin → index + j < 18 →
        chip'.level pin = decide (index + j ≠ 16) := by
  induction pins generalizing index chip with
  | nil =>
      cases h
      exact ⟨fun _ _ => rfl, fun j pin hj => by simp at hj⟩
  | cons pin pins ih =>
      rw [List.nodup_cons] at hnodup
      rw [initPins, GpioChip.request] at h
      by_cases htaken : pin ∈ chip.requested
      · simp [htaken, ebusy] at h
      by_cases hfree : free index = 0
      · simp only [htaken, hfree, if_false, if_true, ne_eq, not_true_eq_false] at h
        obtain ⟨-, hsame, hset⟩ := setUpLine_spec index pin
          { chip with requested := pin :: chip.requested }
        obtain ⟨hothers, hlevels⟩ := ih hnodup.2 h
        constructor
        · intro pin' hpin'
          rw [List.mem_cons, not_or] at hpin'
          rw [hothers pin' hpin'.2, hsame pin' hpin'.1]
        · intro j pin' hj hlt
          cases j with
          | zero =>
              cases hj
              rw [hothers pin hnodup.1, hset hlt]
              rfl
          | succ j =>
              rw [List.getElem?_cons_succ] at hj
              have hlevel := hlevels j pin' hj (by omega)
              rwa [Nat.add_right_comm, Nat.add_assoc] at hlevel
      · simp [htaken, hfree] at h

theorem ointGpioInit_eq (free : ℕ → ℤ) (registered : ℤ) (chip : GpioChip) :
    ointGpioInit free registered chip =
      if (initPins free ointGpios 0 chip).1 ≠ 0 then initPins free ointGpios 0 chip
      else (registered, (initPins free ointGpios 0 chip).2) := rfl

/-- **The lines of a module that was loaded**: the LEDs are off, the switch is off, and the FPGA is
not reset. -/
theorem ointGpioInit_line {free : ℕ → ℤ} {registered : ℤ} {chip chip' : GpioChip}
    (h : ointGpioInit free registered chip = (0, chip')) {index : ℕ} (hlt : index < 18) :
    chip'.line index = decide (index ≠ 16) := by
  have hlength : index < ointGpios.length := hlt.trans (by decide)
  have hpin : ointGpios[index]? = some ointGpios[index] := List.getElem?_eq_getElem hlength
  have hinit : initPins free ointGpios 0 chip = (0, chip') := by
    rw [ointGpioInit_eq] at h
    by_cases hret : (initPins free ointGpios 0 chip).1 = 0
    · rw [if_neg (not_not.2 hret)] at h
      exact Prod.ext hret (Prod.mk.inj h).2
    · rwa [if_pos hret] at h
  have hlevel := (initPins_level ointGpios_nodup hinit).2 index _ hpin (by omega)
  rw [line_pin _ hpin, hlevel, Nat.zero_add]

/-- **Whatever user space asks for**, with any numbers, in any order, after the module was loaded:
the driver looks up no pin outside its table, answers every request, drives no pin but those of its
lines for output, and each of these has the level last written to it. -/
theorem ointGpioIoctl_run {free : ℕ → ℤ} {registered : ℤ} {start chip : GpioChip}
    (h : ointGpioInit free registered start = (0, chip)) (calls : List GpioCall) :
    ∃ tr chip', trace ointGpioIoctl chip calls = .ok (tr, chip') ∧
      tr.map Prod.fst = calls.map GpioCall.reply ∧ SameWiring chip chip' ∧
      ∀ index < 18, chip'.line index = lastWritten index calls (decide (index ≠ 16)) := by
  obtain ⟨tr, chip', hrun, hreply, hwiring, hline⟩ := ointGpioIoctl_trace chip calls
  refine ⟨tr, chip', hrun, hreply, hwiring, fun index hlt => ?_⟩
  rw [hline index hlt, ointGpioInit_line h hlt]

/-- The chip before the module is loaded. -/
def idleChip : GpioChip := ⟨[], fun _ => none, fun _ => none, fun _ => false⟩

/-- The chip behind a load that gets everything. -/
def loadedChip : GpioChip := (ointGpioInit (fun _ => 0) 0 idleChip).2

theorem loadedChip_loaded : ointGpioInit (fun _ => 0) 0 idleChip = (0, loadedChip) :=
  Prod.ext rfl rfl

/-- A request for the first red LED, and one with a number behind the table. -/
def twoRequests : List GpioCall :=
  [⟨iow 0, 0, true, fun _ => true⟩, ⟨iow 19, 0, true, fun _ => true⟩]

theorem ointGpioIoctl_run_twoRequests :
    ointGpioInit (fun _ => 0) 0 idleChip = (0, loadedChip) ∧
      ∃ tr chip, trace ointGpioIoctl loadedChip twoRequests = .ok (tr, chip) ∧
        tr.map Prod.fst = [(0, none), (einval, none)] ∧ SameWiring loadedChip chip ∧
        ∀ index < 18, chip.line index = lastWritten index twoRequests (decide (index ≠ 16)) := by
  obtain ⟨tr, chip, hrun, hreply, hwiring, hline⟩ :=
    ointGpioIoctl_run loadedChip_loaded twoRequests
  exact ⟨loadedChip_loaded, tr, chip, hrun, hreply.trans (by decide), hwiring, hline⟩

/-! ### A load that fails -/

/-- A load that gets its first pin keeps it. -/
theorem ointGpioInit_first {free : ℕ → ℤ} (hfree : free 0 = 0) (registered : ℤ) {chip : GpioChip}
    (hfirst : ⟨.e, 1⟩ ∉ chip.requested) :
    ⟨.e, 1⟩ ∈ (ointGpioInit free registered chip).2.requested := by
  have hpins : ⟨.e, 1⟩ ∈ (initPins free ointGpios 0 chip).2.requested := by
    have hsplit : ointGpios = ⟨.e, 1⟩ :: ointGpios.tail := rfl
    rw [hsplit, initPins, GpioChip.request, if_neg hfirst, if_pos hfree]
    obtain ⟨n, -, hrequested, -⟩ := initPins_requested free ointGpios.tail 1
      (setUpLine 0 ⟨.e, 1⟩ { chip with requested := ⟨.e, 1⟩ :: chip.requested })
    have hmem : (⟨.e, 1⟩ : GpioPin) ∈ (ointGpios.tail.take n).reverse ++
        (⟨.e, 1⟩ :: chip.requested) := List.mem_append_right _ List.mem_cons_self
    rw [(setUpLine_spec _ _ _).1] at hrequested
    rw [← hrequested] at hmem
    simpa using hmem
  rw [ointGpioInit_eq]
  split
  · exact hpins
  · exact hpins

/-- A load that finds its first pin taken changes nothing. -/
theorem ointGpioInit_busy (free : ℕ → ℤ) (registered : ℤ) {chip : GpioChip}
    (hfirst : ⟨.e, 1⟩ ∈ chip.requested) : ointGpioInit free registered chip = (ebusy, chip) := by
  have hpins : initPins free ointGpios 0 chip = (ebusy, chip) := by
    rw [ointGpios, initPins, GpioChip.request, if_pos hfirst]
    rfl
  rw [ointGpioInit_eq, hpins]
  rfl

/-- **A load that fails behind its first pin is the last one.**  What it has taken is not given
back, so that the module is never loaded again, however often it is tried and whatever the pins and
the device answer by then. -/
theorem ointGpioInit_again {m : GpioModule} (hloaded : m.loaded = false)
    (hfirst : ⟨.e, 1⟩ ∉ m.chip.requested) {free : ℕ → ℤ} (hfree : free 0 = 0) {registered : ℤ}
    (hfail : (m.step (.load free registered)).loaded = false) (calls : List ModuleCall) :
    calls.foldl GpioModule.step (m.step (.load free registered)) =
      m.step (.load free registered) := by
  have hkept : ⟨.e, 1⟩ ∈ (m.step (.load free registered)).chip.requested := by
    simp only [GpioModule.step, hloaded, Bool.false_eq_true, if_false]
    exact ointGpioInit_first hfree registered hfirst
  generalize m.step (.load free registered) = m' at hfail hkept
  have hstep : ∀ call : ModuleCall, m'.step call = m' := by
    intro call
    cases m'
    cases hfail
    cases call with
    | load free registered =>
        simp [GpioModule.step, ointGpioInit_busy free registered hkept, ebusy]
    | unload => rfl
  induction calls with
  | nil => rfl
  | cons call calls ih => rw [List.foldl_cons, hstep call, ih]

/-- A load to which the second pin is refused. -/
def refusedLoad : ModuleCall := .load (fun index => if index = 1 then einval else 0) 0

theorem ointGpioInit_again_refused :
    (GpioModule.step ⟨false, idleChip⟩ refusedLoad).loaded = false ∧
      [.load (fun _ => 0) 0, .unload, .load (fun _ => 0) 0].foldl GpioModule.step
          (GpioModule.step ⟨false, idleChip⟩ refusedLoad) =
        GpioModule.step ⟨false, idleChip⟩ refusedLoad := by
  have hfirst : ⟨.e, 1⟩ ∉ idleChip.requested := List.not_mem_nil
  have hfail : (GpioModule.step ⟨false, idleChip⟩ refusedLoad).loaded = false := rfl
  exact ⟨hfail, @ointGpioInit_again ⟨false, idleChip⟩ rfl hfirst _ rfl 0 hfail _⟩

end Wsn
