/-
**Requests to the gather board.**

The LEDs have the indices 1 to 8, and each is switched on or off; so is the current switch.  The
guards of the calls in `src/app/gather_board.c` are conditions for a bad request, under a macro that
returns unless its condition holds.  For the LEDs they refuse every request, and for the switch they
let the bad ones through.

Main definitions:

* `ledCommand` — the entry of the table for an LED;
* `LedExact`, `SwitchExact` — a request is issued if it is valid, and refused if it is not;
* `GreenLit` — `handle_response` switches the green LED of the node on.

Main results:

* `ledCommand_isSome`, `ledCommand_injective` — the table has an entry of its own for each LED;
* `boardRequests_exact_iff` — which requests are treated as they should be.
-/

import WsnPlatform.PacketTransfer

set_option relaxedAutoImplicit false
set_option autoImplicit false

namespace Wsn

/-! ### The table of the LEDs -/

/-- The entry of `led_ioctl_command` for an LED of a colour. -/
def ledCommand (red : Bool) (ledIndex : ℤ) : Option ℕ :=
  let index := (if red then 0 else ledMaxIndex) + ledIndex - 1
  if index < 0 then none else ledIoctlCommand[index.toNat]?

/-- The LEDs there are. -/
def LedPresent (ledIndex : ℤ) : Prop := ledMinIndex ≤ ledIndex ∧ ledIndex ≤ ledMaxIndex

/-- Where an LED stands in the table. -/
theorem ledCommand_eq (red : Bool) {ledIndex : ℤ} (h : LedPresent ledIndex) :
    ∃ k : ℕ, k < 16 ∧ (k : ℤ) = (if red then 0 else 8) + ledIndex - 1 ∧
      ledCommand red ledIndex = some (iow k) := by
  obtain ⟨hmin, hmax⟩ := h
  rw [ledMinIndex] at hmin
  rw [ledMaxIndex] at hmax
  refine ⟨((if red then 0 else 8) + ledIndex - 1).toNat, ?_, ?_, ?_⟩
  · split <;> omega
  · split <;> omega
  · have hindex : ¬ (if red then 0 else ledMaxIndex) + ledIndex - 1 < 0 := by
      rw [ledMaxIndex]
      split <;> omega
    have hlt : ((if red then 0 else 8) + ledIndex - 1).toNat < 16 := by
      split <;> omega
    rw [ledCommand, if_neg hindex, ledIoctlCommand, List.getElem?_map, ledMaxIndex,
      List.getElem?_range hlt, Option.map_some]

/-- **Each LED has an entry.** -/
theorem ledCommand_isSome (red : Bool) {ledIndex : ℤ} (h : LedPresent ledIndex) :
    ∃ command, ledCommand red ledIndex = some command := by
  obtain ⟨k, -, -, hk⟩ := ledCommand_eq red h
  exact ⟨iow k, hk⟩

theorem iow_injective : ∀ i < 16, ∀ j < 16, iow i = iow j → i = j := by decide

/-- **Different LEDs have different entries.** -/
theorem ledCommand_injective {red red' : Bool} {ledIndex ledIndex' : ℤ} (h : LedPresent ledIndex)
    (h' : LedPresent ledIndex') (heq : ledCommand red ledIndex = ledCommand red' ledIndex') :
    red = red' ∧ ledIndex = ledIndex' := by
  obtain ⟨k, hk, hplace, hcommand⟩ := ledCommand_eq red h
  obtain ⟨k', hk', hplace', hcommand'⟩ := ledCommand_eq red' h'
  rw [hcommand, hcommand'] at heq
  obtain rfl := iow_injective k hk k' hk' (Option.some.inj heq)
  obtain ⟨hmin, hmax⟩ := h
  obtain ⟨hmin', hmax'⟩ := h'
  simp only [ledMinIndex, ledMaxIndex] at hmin hmax hmin' hmax'
  cases red <;> cases red' <;> simp at hplace hplace' ⊢ <;> omega

/-! ### Valid requests -/

/-- **The valid requests for an LED.** -/
def ValidLed (ledIndex value : ℤ) : Prop :=
  LedPresent ledIndex ∧ (value = ledOn ∨ value = ledOff)

/-- The valid requests for the current switch. -/
def ValidSwitch (value : ℤ) : Prop := value = currSwitchOff ∨ value = currSwitchOn

/-- **A request for an LED is treated exactly**: a valid one issues the `ioctl` of the LED with the
value, and another one is refused without a call. -/
def LedExact (call : Option GatherBoard → ℤ → ℤ → Exec (Ret × List Ioctl)) (red : Bool)
    (thiz : GatherBoard) (ledIndex value : ℤ) : Prop :=
  (ValidLed ledIndex value → ∃ command ret, ledCommand red ledIndex = some command ∧
    call (some thiz) ledIndex value = .ok (ret, [⟨thiz.gpioFd, command, value⟩])) ∧
  (¬ ValidLed ledIndex value → call (some thiz) ledIndex value = .ok (.invalidParams, []))

/-- **A request for the current switch is treated exactly.** -/
def SwitchExact (thiz : GatherBoard) (value : ℤ) : Prop :=
  (ValidSwitch value → ∃ ret, gatherBoardCurrentSwitch (some thiz) value =
    .ok (ret, [⟨thiz.gpioFd, ointGpioIocCurrSwitch, value⟩])) ∧
  (¬ ValidSwitch value → gatherBoardCurrentSwitch (some thiz) value = .ok (.invalidParams, []))

/-- A call that refuses everything treats the invalid requests as it should. -/
theorem ledExact_iff_of_refuses {call : Option GatherBoard → ℤ → ℤ → Exec (Ret × List Ioctl)}
    (h : ∀ thiz ledIndex value, call thiz ledIndex value = .ok (.invalidParams, [])) (red : Bool)
    (thiz : GatherBoard) (ledIndex value : ℤ) :
    LedExact call red thiz ledIndex value ↔ ¬ ValidLed ledIndex value := by
  constructor
  · intro hexact hvalid
    obtain ⟨command, ret, -, hcall⟩ := hexact.1 hvalid
    rw [h] at hcall
    cases hcall
  · intro hvalid
    exact ⟨fun hyes => absurd hyes hvalid, fun _ => h (some thiz) ledIndex value⟩

/-- The switch is refused the valid values, -/
theorem gatherBoardCurrentSwitch_valid (thiz : GatherBoard) {value : ℤ} (h : ValidSwitch value) :
    gatherBoardCurrentSwitch (some thiz) value = .ok (.invalidParams, []) := by
  have hguard : ¬ (value ≠ currSwitchOff ∧ value ≠ currSwitchOn) := by
    rintro ⟨hoff, hon⟩
    exact h.elim hoff hon
  exact if_pos hguard

/-- and set to the others. -/
theorem gatherBoardCurrentSwitch_invalid (thiz : GatherBoard) {value : ℤ}
    (h : ¬ ValidSwitch value) :
    ∃ ret, gatherBoardCurrentSwitch (some thiz) value =
      .ok (ret, [⟨thiz.gpioFd, ointGpioIocCurrSwitch, value⟩]) := by
  have hguard : ¬ ¬ (value ≠ currSwitchOff ∧ value ≠ currSwitchOn) := not_not.2 (not_or.1 h)
  rw [gatherBoardCurrentSwitch]
  dsimp only
  rw [if_neg hguard]
  split_ifs
  · exact ⟨_, rfl⟩
  · exact ⟨_, rfl⟩

/-- **No value is treated as it should be.** -/
theorem not_switchExact (thiz : GatherBoard) (value : ℤ) : ¬ SwitchExact thiz value := by
  rintro ⟨hissued, hrefused⟩
  by_cases hvalid : ValidSwitch value
  · obtain ⟨ret, hcall⟩ := hissued hvalid
    rw [gatherBoardCurrentSwitch_valid thiz hvalid] at hcall
    cases hcall
  · obtain ⟨ret, hcall⟩ := gatherBoardCurrentSwitch_invalid thiz hvalid
    rw [hrefused hvalid] at hcall
    cases hcall

/-! ### The LEDs of a response -/

/-- The calls that `handle_response` issues for the LEDs of the node. -/
def responseLeds (thiz : PacketTransfer) : Exec (List Ioctl) := do
  let led : ℤ := thiz.response.portId.toNat + 1
  let mut calls := []
  if thiz.response.type = nodePayloadTypeRespNodeId then
    let red ← gatherBoardLedRed (some thiz.gatherBoard) led ledOn
    calls := red.2
  let green ← gatherBoardLedGreen (some thiz.gatherBoard) led ledOn
  return calls ++ green.2

/-- `handle_response` behind the LEDs: the command that was answered is deleted. -/
def deleteAnswered (thiz : PacketTransfer) : Exec PacketTransfer := do
  let i ← commandSetIndex thiz.response.portId
  let commandType := nodeTypeConvertRespToCmd thiz.response.type
  let targetIndex ← dlistFind thiz.mem (thiz.commandSet i) (responseFindCb commandType)
  let r ← dlistDelete thiz.mem (thiz.commandSet i) targetIndex
  .ok { thiz with mem := r.2.1, commandSet := Function.update thiz.commandSet i r.2.2 }

/-- The LEDs come first. -/
theorem handleResponse_leds (thiz : PacketTransfer) :
    handleResponse thiz = responseLeds thiz >>= fun _ => deleteAnswered thiz := by
  unfold handleResponse responseLeds
  simp only [gatherBoardLedRed, gatherBoardLedGreen, gatherBoardLedControl_eq, ok_bind]
  split
  · rfl
  · rfl

/-- **The green LED is switched on** for the packet in `response`, that of the node behind its
port. -/
def GreenLit (thiz : PacketTransfer) : Prop :=
  ∃ calls command, responseLeds thiz = .ok calls ∧
    ledCommand false (thiz.response.portId.toNat + 1) = some command ∧
    ⟨thiz.gatherBoard.gpioFd, command, ledOn⟩ ∈ calls

/-- No call is issued for a response. -/
theorem responseLeds_eq (thiz : PacketTransfer) : responseLeds thiz = .ok [] := by
  unfold responseLeds
  simp only [gatherBoardLedRed, gatherBoardLedGreen, gatherBoardLedControl_eq, ok_bind]
  split
  · rfl
  · rfl

/-- **No green LED is switched on.** -/
theorem not_greenLit (thiz : PacketTransfer) : ¬ GreenLit thiz := by
  rintro ⟨calls, command, hleds, -, hmem⟩
  rw [responseLeds_eq] at hleds
  cases hleds
  cases hmem

/-! ### All requests -/

/-- **Which requests are treated as they should be**: for the LEDs those that are not valid, for the
current switch none; and no LED shows a packet.  The table is right: it has an entry of its own for
each LED. -/
theorem boardRequests_exact_iff (board : GatherBoard) (thiz : PacketTransfer)
    (ledIndex value : ℤ) :
    (∀ red, LedPresent ledIndex → ∃ command, ledCommand red ledIndex = some command) ∧
    (∀ red red' ledIndex', LedPresent ledIndex → LedPresent ledIndex' →
      ledCommand red ledIndex = ledCommand red' ledIndex' → red = red' ∧ ledIndex = ledIndex') ∧
    (LedExact gatherBoardLedRed true board ledIndex value ↔ ¬ ValidLed ledIndex value) ∧
    (LedExact gatherBoardLedGreen false board ledIndex value ↔ ¬ ValidLed ledIndex value) ∧
    ¬ SwitchExact board value ∧ ¬ GreenLit thiz := by
  refine ⟨?_, ?_, ?_, ?_, not_switchExact board value, not_greenLit thiz⟩
  · intro red h
    exact ledCommand_isSome red h
  · intro red red' ledIndex' h h' heq
    exact ledCommand_injective h h' heq
  · exact ledExact_iff_of_refuses (fun thiz ledIndex value =>
      gatherBoardLedControl_eq thiz ledIndex value true) true board ledIndex value
  · exact ledExact_iff_of_refuses (fun thiz ledIndex value =>
      gatherBoardLedControl_eq thiz ledIndex value false) false board ledIndex value

/-- **The first green LED is not switched on**, and the current switch takes any other value than
its two. -/
theorem firstGreen_refused :
    ¬ LedExact gatherBoardLedGreen false willingBoard 1 ledOn ∧
      gatherBoardLedGreen (some willingBoard) 1 ledOn = .ok (.invalidParams, []) ∧
      gatherBoardCurrentSwitch (some willingBoard) currSwitchOn = .ok (.invalidParams, []) ∧
      gatherBoardCurrentSwitch (some willingBoard) 2 =
        .ok (.ok, [⟨3, ointGpioIocCurrSwitch, 2⟩]) := by
  refine ⟨?_, rfl, rfl, rfl⟩
  intro hexact
  have hvalid : ValidLed 1 ledOn := ⟨⟨by decide, by decide⟩, Or.inl rfl⟩
  obtain ⟨command, ret, -, hcall⟩ := hexact.1 hvalid
  cases hcall

end Wsn
