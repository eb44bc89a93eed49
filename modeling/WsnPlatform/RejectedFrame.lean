/-
**Frames that are rejected.**

`process_one_response` leaves with `RET_FAIL` from several places: the parity check, the test of the
header byte, and the test for the head of a packet.  All of them come before the first write.

Main results:

* `Wsn.processOneResponse_fail` — a call that returns `RET_FAIL` changes nothing;
* `Wsn.kind_damaged` — one changed byte makes a frame that passes the parity check a bad one;
* `Wsn.rejected_frames` — **a rejected frame has no effect, and a damaged one is rejected**.
-/

import WsnPlatform.PacketTransferCalls

set_option relaxedAutoImplicit false
set_option autoImplicit false

namespace Wsn

/-! ### No effect -/

/-- A call on the reassembly that returns `RET_FAIL` changes nothing, and completes nothing. -/
theorem reassembly_fail {s : Reassembly} {f : Frame} {o : Outcome × Reassembly}
    (h : processOneResponse s f = .ok o) (hret : o.1.ret = .fail) :
    o = (⟨.fail, false⟩, s) := by
  cases hkind : f.kind with
  | rejected =>
      rw [step_rejected hkind] at h
      exact (Except.ok.inj h).symm
  | current =>
      simp only [processOneResponse, hkind] at h
      obtain ⟨r, -, ho⟩ := bind_eq_ok.1 h
      cases ho
      cases hret
  | data =>
      cases hst : s.packetState with
      | outPacket =>
          by_cases hf : f.IsHead
          · obtain ⟨r, hr, -⟩ := step_head hkind hst hf
            rw [hr] at h
            cases h
            cases hret
          · rw [step_not_head hkind hst hf] at h
            exact (Except.ok.inj h).symm
      | inPacket =>
          simp only [processOneResponse, hkind, hst] at h
          obtain ⟨r, -, ho⟩ := bind_eq_ok.1 h
          split at ho
          · cases ho
            cases hret
          · cases ho
            cases hret

/-- **A call that returns `RET_FAIL` changes nothing.** -/
theorem processOneResponse_fail {thiz thiz' : PacketTransfer} {f : Frame}
    (h : thiz.processOneResponse f = .ok (.fail, thiz')) : thiz' = thiz := by
  obtain ⟨r, hr, ho⟩ := bind_eq_ok.1 h
  split at ho
  · -- a completed packet returns what the reassembly returns
    next hcompleted =>
      obtain ⟨t, -, ht⟩ := bind_eq_ok.1 ho
      have hret := congrArg Prod.fst (Except.ok.inj ht)
      rw [reassembly_fail hr hret] at hcompleted
      cases hcompleted
  · have hret := congrArg Prod.fst (Except.ok.inj ho)
    rw [reassembly_fail hr hret] at ho
    exact (congrArg Prod.snd (Except.ok.inj ho)).symm

/-! ### Damage -/

/-- **One changed byte** makes a frame that passes the parity check a bad one. -/
theorem kind_damaged {f : Frame} (heven : evenCheck f.toList = true) {i : Fin 16} {x : UInt8}
    (hx : x ≠ f.get i) : Frame.kind (f.set i x) = .rejected := by
  have hi : i.val < f.toList.length := by
    rw [f.toList_length]
    exact i.isLt
  have hodd : evenCheck (f.set i x).toList = false := by
    rw [List.Vector.toList_set]
    exact evenCheck_set hi hx heven
  exact if_pos hodd

/-- **A rejected frame has no effect, and a damaged one is rejected**: a call that returns
`RET_FAIL` leaves the packet state, the response and the lists as they are, and it returns that for
every frame that differs in one byte from a frame that passes the parity check. -/
theorem rejected_frames :
    (∀ (thiz thiz' : PacketTransfer) (f : Frame),
      thiz.processOneResponse f = .ok (.fail, thiz') → thiz' = thiz) ∧
    ∀ (thiz : PacketTransfer) (f : Frame) (i : Fin 16) (x : UInt8),
      evenCheck f.toList = true → x ≠ f.get i →
        thiz.processOneResponse (f.set i x) = .ok (.fail, thiz) := by
  refine ⟨fun thiz thiz' f h => processOneResponse_fail h, fun thiz f i x heven hx => ?_⟩
  exact processOneResponse_quiet (step_rejected (kind_damaged heven hx)) rfl

/-- A packet has begun, and its head comes again with one byte changed. -/
theorem damagedHead_rejected :
    ∃ thiz thiz' : PacketTransfer,
      (packetTransferCreate willingBoard fun _ => true).processOneResponse headFrame =
          .ok (.ok, thiz) ∧
        thiz.packetState = .inPacket ∧ thiz.response.nodePacketLen = 10 ∧
        thiz.processOneResponse (headFrame.set 3 1) = .ok (.fail, thiz') ∧ thiz' = thiz := by
  obtain ⟨r, hr, -, hlen, -⟩ := step_head (s := .created) (f := headFrame) (by decide) rfl
    (by decide)
  have hbegun := @processOneResponse_quiet (packetTransferCreate willingBoard fun _ => true) _ _
    hr rfl
  have hfail := rejected_frames.2
    ((packetTransferCreate willingBoard fun _ => true).withReassembly ⟨.inPacket, r⟩) headFrame 3 1
    (by decide) (by decide)
  exact ⟨_, _, hbegun, rfl, hlen, hfail, rejected_frames.1 _ _ _ hfail⟩

end Wsn
