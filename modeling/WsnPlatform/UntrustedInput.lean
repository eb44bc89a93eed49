/-
**What the host and the board may choose.**

Three numbers come from outside and are used without a check: the length of a command, which becomes
the count of a `read` into fifty bytes, and the ports of a command and of a response, which become
subscripts of `command_set`.  This module says for every run when they do no harm.

Main definitions:

* `Wsn.LengthSafe`, `Wsn.LengthFits` — a body stays inside its packet; its length is at most fifty;
* `Wsn.IndexSafe`, `Wsn.BadPort` — `command_set` is subscripted inside its bounds and bad ports are
  rejected; a call that meets a bad port.

Main results:

* `Wsn.lengthSafe_iff_lengthFits`, `Wsn.indexSafe_iff_not_badPort` — one call;
* `Wsn.lengths_safe_iff`, `Wsn.indices_safe_iff` — **every run**.
-/

import WsnPlatform.PacketTransferCalls

set_option relaxedAutoImplicit false
set_option autoImplicit false

namespace Wsn

open FixedBuffer FaultRun

/-! ### Lengths -/

/-- **A call keeps the body inside the packet**: it stores nothing outside, it asks for no more than
there is room for, and it fails when the command is longer. -/
def LengthSafe (thiz : PacketTransfer) : Event → Prop
  | .command env =>
      processOneCommand thiz env ≠ .error .outOfBounds ∧
      (∀ o, processOneCommand thiz env = .ok o →
        ∀ n, o.1.bodyCount = some n → n ≤ cmdBPacketMaxSize) ∧
      ∀ len, (received env thiz.pending).length? = some len → cmdBPacketMaxSize < len →
        ∃ o, processOneCommand thiz env = .ok o ∧ o.1.ret = .fail
  | _ => True

/-- **The length that arrives is that of a packet.** -/
def LengthFits (thiz : PacketTransfer) : Event → Prop
  | .command env => ∀ len, (received env thiz.pending).length? = some len → len ≤ cmdBPacketMaxSize
  | _ => True

section Lengths

variable {thiz : PacketTransfer} {env : CallEnv}

/-- A call that returns, on a length that fits. -/
theorem LengthFits.safe_of_ok (hfits : LengthFits thiz (.command env))
    {o : CommandOutcome × PacketTransfer} (hrun : processOneCommand thiz env = .ok o)
    (hcount : ∀ n, o.1.bodyCount = some n → n ≤ cmdBPacketMaxSize) :
    LengthSafe thiz (.command env) := by
  refine ⟨?_, ?_, ?_⟩
  · rw [hrun]
    exact ok_ne_error _ _
  · rintro o' ho
    rw [hrun] at ho
    cases ho
    exact hcount
  · exact fun len hlen hlong => absurd (hfits len hlen) (not_le.2 hlong)

/-- A length that fits keeps the body inside the packet. -/
theorem LengthFits.safe (h : Sound thiz) (hfits : LengthFits thiz (.command env)) :
    LengthSafe thiz (.command env) := by
  rcases h.processOneCommand_cases env with
    ⟨o, hrun, -, hcount, -⟩ | ⟨record, len, body, hrec, hover, -⟩ | ⟨_, _, _, _, -, -, hrun⟩
  · exact hfits.safe_of_ok hrun fun n hn => hfits n (hcount ▸ hn)
  · -- the body is no longer than its length
    have hlen : len ≤ cmdBPacketMaxSize := hfits len (by rw [hrec]; rfl)
    have := received_command_le hrec
    omega
  · refine ⟨?_, ?_, ?_⟩
    · rw [hrun]
      exact error_ne_error Fault.noConfusion
    · intro o ho
      rw [hrun] at ho
      cases ho
    · exact fun len hlen hlong => absurd (hfits len hlen) (not_le.2 hlong)

/-- **A longer command** does not fail before its body is asked for. -/
theorem LengthSafe.fits (h : Sound thiz) (hsafe : LengthSafe thiz (.command env)) :
    LengthFits thiz (.command env) := by
  obtain ⟨-, hcount, hfail⟩ := hsafe
  intro len hlen
  by_contra hlong
  obtain ⟨o, hrun, -⟩ := hfail len hlen (not_le.1 hlong)
  rcases h.processOneCommand_cases env with
    ⟨o', hok, -, hcount', -⟩ | ⟨_, _, _, -, -, herr⟩ | ⟨_, _, _, _, -, -, herr⟩
  · exact hlong (hcount o' hok len (hcount'.trans hlen))
  · rw [herr] at hrun
    cases hrun
  · rw [herr] at hrun
    cases hrun

end Lengths

/-- **One call**: the body stays inside the packet exactly when its length is at most fifty. -/
theorem lengthSafe_iff_lengthFits (thiz : PacketTransfer) (event : Event) (h : Sound thiz) :
    LengthSafe thiz event ↔ LengthFits thiz event := by
  cases event with
  | command env => exact ⟨LengthSafe.fits h, LengthFits.safe h⟩
  | connect socket stream => exact Iff.rfl
  | frame f => exact Iff.rfl
  | disconnect => exact Iff.rfl

/-- **In every run, every body stays inside its packet** as long as no longer one arrives. -/
theorem lengths_safe_iff (board : GatherBoard) (lists : Fin nodeNum → Bool) (events : List Event) :
    Along PacketTransfer.step LengthSafe (packetTransferCreate board lists) events ↔
      Along PacketTransfer.step LengthFits (packetTransferCreate board lists) events :=
  along_iff Sound.step lengthSafe_iff_lengthFits (sound_create board lists) events

/-- An environment that delivers all that is asked for. -/
def generousEnv : CallEnv :=
  ⟨some ⟨List.Vector.replicate 2 0, List.Vector.replicate cmdBPacketMaxSize 0⟩, .bytes 2,
    .bytes (2 ^ 16), none⟩

/-- Fifty-one bytes for the first port. -/
def longBody : List UInt8 := 0 :: 51 :: List.replicate 51 1

/-- The last of them is stored behind the packet. -/
theorem longBody_overruns :
    ¬ Along PacketTransfer.step LengthSafe (packetTransferCreate willingBoard fun _ => true)
      [.connect 4 longBody, .command generousEnv] := by
  rintro ⟨-, h⟩
  obtain ⟨⟨hsafe, -⟩, -⟩ := h _ rfl
  have hrec : received generousEnv longBody =
      .command ⟨List.Vector.replicate 2 0, List.Vector.replicate cmdBPacketMaxSize 0⟩ 51
        (List.replicate 51 1) := rfl
  exact hsafe (processOneCommand_overrun hrec (by decide))

/-! ### Ports -/

/-- **A call that meets a bad port**: the first byte of a command is not one of 1 to 8, or a frame
completes a packet whose port is not one of 0 to 7. -/
def BadPort (thiz : PacketTransfer) : Event → Prop
  | .command env => ∃ record len b bs,
      received env thiz.pending = .command record len (b :: bs) ∧ ¬ (1 ≤ b.toNat ∧ b.toNat ≤ 8)
  | .frame f =>
      (f.kind = .data ∧ thiz.packetState = .inPacket ∧ f.Closes ∧
        thiz.response.nodePacketLen + f.payload.length ≤ 256) ∧
      ¬ thiz.response.portId.toNat < nodeNum
  | _ => False

/-- **A call subscripts `command_set` inside its bounds**, and rejects a bad port without an effect
on any list. -/
def IndexSafe (thiz : PacketTransfer) (event : Event) : Prop :=
  thiz.step event ≠ .error .badIndex ∧
  (BadPort thiz event → ∃ thiz', thiz.step event = .ok (.fail, thiz') ∧
    thiz'.commandSet = thiz.commandSet ∧ thiz'.mem = thiz.mem)

section Ports

variable {thiz : PacketTransfer} {env : CallEnv} {f : Frame}

/-- A command of a bad port is not rejected. -/
theorem not_rejected_of_badPort (h : Sound thiz) (hbad : BadPort thiz (.command env))
    (thiz' : PacketTransfer) : thiz.step (.command env) ≠ .ok (.fail, thiz') := by
  obtain ⟨record, len, b, bs, hrec, -⟩ := hbad
  intro hstep
  obtain ⟨o, hrun, hret⟩ := bind_eq_ok.1 hstep
  have hfailed : o.1.ret = .fail := (Prod.mk.inj (Except.ok.inj hret)).1
  rcases h.processOneCommand_cases env with
    ⟨o', hok, -, -, hfail⟩ | ⟨_, _, _, -, -, herr⟩ | ⟨_, _, _, _, -, -, herr⟩
  · rw [hok] at hrun
    cases hrun
    exact hfail hfailed record len (b :: bs) hrec
  · rw [herr] at hrun
    cases hrun
  · rw [herr] at hrun
    cases hrun

/-- A command of a good port does not subscript `command_set` outside its bounds. -/
theorem command_ne_badIndex (h : Sound thiz) (hgood : ¬ BadPort thiz (.command env)) :
    thiz.step (.command env) ≠ .error .badIndex := by
  rcases h.processOneCommand_cases env with
    ⟨o, hrun, -⟩ | ⟨_, _, _, -, -, hrun⟩ | ⟨record, len, b, bs, hrec, hport, -⟩
  · rw [PacketTransfer.step, hrun, ok_bind]
    exact ok_ne_error _ _
  · rw [PacketTransfer.step, hrun, error_bind]
    exact error_ne_error Fault.noConfusion
  · exact absurd ⟨record, len, b, bs, hrec, hport⟩ hgood

/-- A frame that completes a packet closes one that is open and has room for it. -/
theorem completed_frame {s : Reassembly} {r : Outcome × Reassembly} (hs : LenFits s)
    (hrun : processOneResponse s f = .ok r) (hr : r.1.completed = true) :
    (f.kind = .data ∧ s.packetState = .inPacket ∧ f.Closes ∧
      s.response.nodePacketLen + f.payload.length ≤ 256) ∧
    r.2.response.portId = s.response.portId := by
  cases hkind : f.kind with
  | rejected =>
      rw [step_rejected hkind] at hrun
      cases hrun
      cases hr
  | current =>
      obtain ⟨_, hspec, -⟩ := step_current hkind hs
      rw [hspec] at hrun
      cases hrun
      cases hr
  | data =>
      cases hstate : s.packetState with
      | outPacket =>
          by_cases hhead : f.IsHead
          · obtain ⟨_, hspec, -⟩ := step_head hkind hstate hhead
            rw [hspec] at hrun
            cases hrun
            cases hr
          · rw [step_not_head hkind hstate hhead] at hrun
            cases hrun
            cases hr
      | inPacket =>
          rcases Nat.lt_or_ge 256 (s.response.nodePacketLen + f.payload.length) with hover | hfit
          · rw [step_overrun hkind hstate hover] at hrun
            cases hrun
          · by_cases hcloses : f.Closes
            · obtain ⟨_, hspec, -, -, hport, -⟩ := step_close hkind hstate hcloses hfit
              rw [hspec] at hrun
              cases hrun
              exact ⟨⟨rfl, rfl, hcloses, hfit⟩, hport⟩
            · obtain ⟨_, hspec, -⟩ := step_extend hkind hstate hcloses hfit
              rw [hspec] at hrun
              cases hrun
              cases hr

/-- A packet of a bad port is not rejected either: it is looked up. -/
theorem frame_badIndex (hbad : BadPort thiz (.frame f)) :
    thiz.step (.frame f) = .error .badIndex := by
  obtain ⟨⟨hkind, hstate, hcloses, hfit⟩, hport⟩ := hbad
  obtain ⟨r, hrun, -, -, hr, -⟩ := step_close (s := thiz.reassembly) hkind hstate hcloses hfit
  have hbad : ¬ (thiz.withReassembly ⟨.outPacket, r⟩).response.portId.toNat < nodeNum := by
    change ¬ r.portId.toNat < nodeNum
    rw [hr]
    exact hport
  rw [PacketTransfer.step, processOneResponse_completes hrun rfl, handleResponse_badIndex hbad,
    error_bind]

/-- A packet of a good port is looked up inside the bounds. -/
theorem frame_ne_badIndex (h : Sound thiz) (hgood : ¬ BadPort thiz (.frame f)) :
    thiz.step (.frame f) ≠ .error .badIndex := by
  change thiz.processOneResponse f ≠ .error .badIndex
  rcases burstsFit_cons h.lenFits f [] with ⟨herr, -⟩ | ⟨r, hrun, -, -⟩
  · rw [PacketTransfer.processOneResponse, herr, error_bind]
    exact error_ne_error Fault.noConfusion
  · cases hr : r.1.completed with
    | false =>
        rw [processOneResponse_quiet hrun hr]
        exact ok_ne_error _ _
    | true =>
        obtain ⟨hcompletes, hsame⟩ := completed_frame h.lenFits hrun hr
        have hport : (thiz.withReassembly r.2).response.portId.toNat < nodeNum := by
          change r.2.response.portId.toNat < nodeNum
          rw [hsame]
          exact not_not.1 fun hport => hgood ⟨hcompletes, hport⟩
        have hnext : Sound (thiz.withReassembly r.2) := ⟨h.holds, h.lenFits.step hrun⟩
        rw [processOneResponse_completes hrun hr]
        rcases hnext.handleResponse_cases with ⟨thiz', hok, -⟩ | herr | ⟨-, hbad⟩
        · rw [hok, ok_bind]
          exact ok_ne_error _ _
        · rw [herr, error_bind]
          exact error_ne_error Fault.noConfusion
        · exact absurd hport hbad

end Ports

/-- **One call** is safe exactly when it meets no bad port. -/
theorem indexSafe_iff_not_badPort (thiz : PacketTransfer) (event : Event) (h : Sound thiz) :
    IndexSafe thiz event ↔ ¬ BadPort thiz event := by
  constructor
  · rintro ⟨hindex, hreject⟩ hbad
    obtain ⟨thiz', hstep, -⟩ := hreject hbad
    cases event with
    | command env => exact not_rejected_of_badPort h hbad thiz' hstep
    | frame f => exact hindex (frame_badIndex hbad)
    | connect socket stream => exact hbad
    | disconnect => exact hbad
  · intro hgood
    refine ⟨?_, fun hbad => absurd hbad hgood⟩
    cases event with
    | command env => exact command_ne_badIndex h hgood
    | frame f => exact frame_ne_badIndex h hgood
    | connect socket stream => exact ok_ne_error _ _
    | disconnect => exact ok_ne_error _ _

/-- **In every run, `command_set` is subscripted inside its bounds** and bad ports are rejected, as
long as none arrives. -/
theorem indices_safe_iff (board : GatherBoard) (lists : Fin nodeNum → Bool) (events : List Event) :
    Along PacketTransfer.step IndexSafe (packetTransferCreate board lists) events ↔
      Along PacketTransfer.step (fun thiz event => ¬ BadPort thiz event)
        (packetTransferCreate board lists) events :=
  along_iff Sound.step indexSafe_iff_not_badPort (sound_create board lists) events

/-- Thirteen bytes for a port counted from 0. -/
def portZero : List UInt8 := 0 :: 13 :: List.replicate 13 0

/-- The port wraps around to 255. -/
theorem portZero_badIndex :
    ¬ Along PacketTransfer.step IndexSafe (packetTransferCreate willingBoard fun _ => true)
      [.connect 4 portZero, .command generousEnv] := by
  rintro ⟨-, h⟩
  obtain ⟨⟨hindex, -⟩, -⟩ := h _ rfl
  exact hindex rfl

end Wsn
