/-
**One call on the packet transfer object.**

`process_one_command` reads a length field and then a body, each with one `read`.  What arrives is
decided by the bytes that the host has sent and by the environment, not by the object; this module
says what arrives, what the call does with it, and what every call keeps.

Main definitions:

* `Wsn.received` — what a call of `process_one_command` receives;
* `Wsn.Sound`, `Wsn.Reached` — the invariant of the object, and the states of its runs.

Main results:

* `Wsn.processOneCommand_nothing`, `_length`, `_overrun`, `_command` — a call, by what it receives;
* `Wsn.Sound.processOneCommand_cases` — how a call can end;
* `Wsn.processOneResponse_completes`, `_quiet` — a board frame, by what it completes;
* `Wsn.Sound.step` — **every call keeps the invariant**.
-/

import WsnPlatform.CommandSet
import WsnPlatform.ReassemblyRuns

set_option relaxedAutoImplicit false
set_option autoImplicit false

namespace Wsn

open FixedBuffer FaultRun

/-! ### What a `read` delivers -/

/-- The bytes that a `read` delivers: none when it fails, and none at the end of the stream. -/
def ReadChoice.delivers (choice : ReadChoice) (count : ℕ) (pending : List UInt8) : List UInt8 :=
  match choice with
  | .error => []
  | .bytes k => pending.take (min count (max 1 k))

/-- What is left to read behind them. -/
def ReadChoice.leaves (choice : ReadChoice) (count : ℕ) (pending : List UInt8) : List UInt8 :=
  pending.drop (choice.delivers count pending).length

theorem ReadChoice.length_delivers_le (choice : ReadChoice) (count : ℕ) (pending : List UInt8) :
    (choice.delivers count pending).length ≤ count := by
  cases choice with
  | error => exact Nat.zero_le _
  | bytes k =>
      rw [delivers, List.length_take]
      omega

/-- A `read` that may take everything that is asked for takes it, if it is there. -/
theorem ReadChoice.delivers_append {k count : ℕ} {front : List UInt8} (hk : count ≤ max 1 k)
    (hlen : front.length = count) (back : List UInt8) :
    (ReadChoice.bytes k).delivers count (front ++ back) = front := by
  rw [delivers, min_eq_left hk, ← hlen, List.take_left]

theorem readSocket_of_delivers {choice : ReadChoice} {count : ℕ} {pending : List UInt8} {b : UInt8}
    {bs : List UInt8} (h : choice.delivers count pending = b :: bs) :
    readSocket choice count pending = some (b :: bs, choice.leaves count pending) := by
  cases choice with
  | error => cases h
  | bytes k =>
      have hdrop : pending.drop (min count (max 1 k)) =
          pending.drop (pending.take (min count (max 1 k))).length := by
        rw [List.length_take]
        rcases Nat.le_total (min count (max 1 k)) pending.length with hle | hle
        · rw [min_eq_left hle]
        · rw [min_eq_right hle, List.drop_length, List.drop_eq_nil_of_le hle]
      rw [ReadChoice.leaves, ← h, readSocket, ReadChoice.delivers, hdrop]

theorem readSocket_of_not_delivers {choice : ReadChoice} {count : ℕ} {pending : List UInt8}
    (h : choice.delivers count pending = []) :
    readSocket choice count pending = none ∨
      ∃ left, readSocket choice count pending = some ([], left) := by
  cases choice with
  | error => exact Or.inl rfl
  | bytes k =>
      rw [ReadChoice.delivers] at h
      exact Or.inr ⟨pending.drop (min count (max 1 k)), by rw [readSocket, h]⟩

/-! ### What a call receives -/

/-- Two bytes in network order. -/
def bigEndian16 (high low : UInt8) : ℕ := high.toNat * 256 + low.toNat

/-- The length field: where `read` does not deliver its second byte, the `old` one stays. -/
def receivedLength (old : List.Vector UInt8 2) (high : UInt8) (low : List UInt8) : ℕ :=
  bigEndian16 high (low.headD old.tail.head)

/-- What arrives during a call of `process_one_command`. -/
inductive Received
  /-- No record is allocated, or no byte of the length arrives. -/
  | nothing
  /-- A length, but no byte of the body. -/
  | length (len : ℕ)
  /-- A length and some of the body, for a record that holds the given bytes before. -/
  | command (record : Uninitialised) (len : ℕ) (body : List UInt8)

/-- **What a call receives** when `pending` is what the host has sent. -/
def received (env : CallEnv) (pending : List UInt8) : Received :=
  match env.record, env.header.delivers cmdSHeaderLen pending with
  | none, _ => .nothing
  | some _, [] => .nothing
  | some record, high :: low =>
      let len := receivedLength record.toBoardPacketLen high low
      match env.body.delivers len (env.header.leaves cmdSHeaderLen pending) with
      | [] => .length len
      | b :: bs => .command record len (b :: bs)

/-- The length of the command, if one arrives. -/
def Received.length? : Received → Option ℕ
  | .nothing => none
  | .length len => some len
  | .command _ len _ => some len

section Received

variable {env : CallEnv} {pending : List UInt8}

theorem received_eq_nothing (h : received env pending = .nothing) :
    env.record = none ∨ env.header.delivers cmdSHeaderLen pending = [] := by
  unfold received at h
  split at h
  · next _ _ hrecord => exact Or.inl hrecord
  · next hheader => exact Or.inr hheader
  · dsimp only at h
    split at h <;> cases h

theorem received_eq_length {len : ℕ} (h : received env pending = .length len) :
    ∃ record high low, env.record = some record ∧
      env.header.delivers cmdSHeaderLen pending = high :: low ∧
      receivedLength record.toBoardPacketLen high low = len ∧
      env.body.delivers len (env.header.leaves cmdSHeaderLen pending) = [] := by
  unfold received at h
  split at h
  · cases h
  · cases h
  · next record high low hrecord hheader =>
      dsimp only at h
      split at h
      · next hbody =>
          cases h
          exact ⟨record, high, low, hrecord, hheader, rfl, hbody⟩
      · cases h

theorem received_eq_command {record : Uninitialised} {len : ℕ} {body : List UInt8}
    (h : received env pending = .command record len body) :
    ∃ high low, env.record = some record ∧
      env.header.delivers cmdSHeaderLen pending = high :: low ∧
      receivedLength record.toBoardPacketLen high low = len ∧
      env.body.delivers len (env.header.leaves cmdSHeaderLen pending) = body ∧ body ≠ [] := by
  unfold received at h
  split at h
  · cases h
  · cases h
  · next record high low hrecord hheader =>
      dsimp only at h
      split at h
      · cases h
      · next hbody =>
          cases h
          exact ⟨high, low, hrecord, hheader, rfl, hbody, List.cons_ne_nil _ _⟩

/-- No more of the body arrives than was asked for. -/
theorem received_command_le {record : Uninitialised} {len : ℕ} {body : List UInt8}
    (h : received env pending = .command record len body) : body.length ≤ len := by
  obtain ⟨_, _, _, _, _, hbody, _⟩ := received_eq_command h
  rw [← hbody]
  exact ReadChoice.length_delivers_le _ _ _

end Received

/-- The two objects hold the same commands and the same response. -/
structure SameHeld (thiz thiz' : PacketTransfer) : Prop where
  mem : thiz'.mem = thiz.mem
  commandSet : thiz'.commandSet = thiz.commandSet
  reassembly : thiz'.reassembly = thiz.reassembly

/-! ### What a call does with it -/

section Command

variable {thiz : PacketTransfer} {env : CallEnv}

/-- The length field as the code reads it. -/
theorem ntohs_of_copyAt (old : List.Vector UInt8 2) {high : UInt8} {low : List UInt8}
    (hlen : (high :: low).length ≤ cmdSHeaderLen) :
    ∃ field, copyAt old 0 (high :: low) = some field ∧
      ntohs field = receivedLength old high low := by
  obtain ⟨a, rest, rfl⟩ := old.exists_eq_cons
  obtain ⟨b, rest, rfl⟩ := rest.exists_eq_cons
  match low with
  | [] => exact ⟨_, rfl, rfl⟩
  | [_] => exact ⟨_, rfl, rfl⟩
  | _ :: _ :: _ =>
      simp only [List.length_cons, cmdSHeaderLen] at hlen
      omega

/-- The object after a call that fails before it has read anything: its record is freed. -/
def released (thiz : PacketTransfer) (env : CallEnv) : PacketTransfer :=
  match env.record with
  | none => thiz
  | some _ =>
      { thiz with allocated := thiz.allocated + 1, freed := thiz.freed ++ [thiz.allocated] }

theorem sameHeld_released (thiz : PacketTransfer) (env : CallEnv) :
    SameHeld thiz (released thiz env) := by
  unfold released
  cases env.record <;> exact ⟨rfl, rfl, rfl⟩

/-- The record of a call that receives nothing. -/
theorem processOneCommand_nothing_eq (h : received env thiz.pending = .nothing) :
    processOneCommand thiz env = .ok (⟨.fail, none, none, []⟩, released thiz env) := by
  cases hrecord : env.record with
  | none => simp only [processOneCommand, hrecord, released]
  | some record =>
      rcases received_eq_nothing h with hnone | hheader
      · rw [hnone] at hrecord
        cases hrecord
      · rcases readSocket_of_not_delivers hheader with hread | ⟨left, hread⟩
        · simp only [processOneCommand, hrecord, hread, failCommand, released]
        · simp only [processOneCommand, hrecord, hread, failCommand, released]

/-- **Nothing is received**: the call fails. -/
theorem processOneCommand_nothing (h : received env thiz.pending = .nothing) :
    ∃ thiz', processOneCommand thiz env = .ok (⟨.fail, none, none, []⟩, thiz') ∧
      SameHeld thiz thiz' :=
  ⟨_, processOneCommand_nothing_eq h, sameHeld_released thiz env⟩

/-- The object after the length has been read. -/
def afterHeader (thiz : PacketTransfer) (env : CallEnv) : PacketTransfer :=
  { thiz with
    allocated := thiz.allocated + 1, pending := env.header.leaves cmdSHeaderLen thiz.pending }

/-- The record of a call that receives a length only. -/
theorem processOneCommand_length_eq {len : ℕ} (h : received env thiz.pending = .length len) :
    processOneCommand thiz env = .ok (⟨.fail, some len, none, []⟩, { released thiz env with
      pending := env.header.leaves cmdSHeaderLen thiz.pending }) := by
  obtain ⟨record, high, low, hrecord, hheader, rfl, hbody⟩ := received_eq_length h
  have hshort : (high :: low).length ≤ cmdSHeaderLen :=
    hheader ▸ ReadChoice.length_delivers_le _ _ _
  obtain ⟨field, hfield, hlen⟩ := ntohs_of_copyAt record.toBoardPacketLen hshort
  rcases readSocket_of_not_delivers hbody with hread | ⟨left, hread⟩
  · simp only [processOneCommand, hrecord, readSocket_of_delivers hheader, hfield, stored_some,
      ok_bind, hlen, hread, failCommand, released]
  · simp only [processOneCommand, hrecord, readSocket_of_delivers hheader, hfield, stored_some,
      ok_bind, hlen, hread, failCommand, released]

/-- **A length without a body**: the call fails. -/
theorem processOneCommand_length {len : ℕ} (h : received env thiz.pending = .length len) :
    ∃ thiz', processOneCommand thiz env = .ok (⟨.fail, some len, none, []⟩, thiz') ∧
      SameHeld thiz thiz' := by
  obtain ⟨hmem, hset, hreassembly⟩ := sameHeld_released thiz env
  exact ⟨_, processOneCommand_length_eq h, hmem, hset, hreassembly⟩

/-- The object after the body has been read. -/
def afterBody (thiz : PacketTransfer) (env : CallEnv) (len : ℕ) : PacketTransfer :=
  { afterHeader thiz env with
    pending := env.body.leaves len (env.header.leaves cmdSHeaderLen thiz.pending) }

/-- What the call does when a command arrives. -/
theorem processOneCommand_received {record : Uninitialised} {len : ℕ} {body : List UInt8}
    (h : received env thiz.pending = .command record len body) :
    processOneCommand thiz env = (do
      let packet ← stored (copyAt record.toBoardPacket 0 body)
      let r ← handleCommand (afterBody thiz env len) (commandFrom thiz.allocated len packet)
        env.place
      .ok (⟨.ok, some len, some (commandFrom thiz.allocated len packet), r.1⟩, r.2)) := by
  obtain ⟨high, low, hrecord, hheader, rfl, hbody, hne⟩ := received_eq_command h
  have hshort : (high :: low).length ≤ cmdSHeaderLen :=
    hheader ▸ ReadChoice.length_delivers_le _ _ _
  obtain ⟨field, hfield, hlen⟩ := ntohs_of_copyAt record.toBoardPacketLen hshort
  obtain ⟨b, bs, rfl⟩ := List.exists_cons_of_ne_nil hne
  simp only [processOneCommand, hrecord, readSocket_of_delivers hheader, hfield, stored_some,
    ok_bind, hlen, readSocket_of_delivers hbody, afterBody, afterHeader, commandFrom]

/-- **A body that is longer than the packet** is stored outside it. -/
theorem processOneCommand_overrun {record : Uninitialised} {len : ℕ} {body : List UInt8}
    (h : received env thiz.pending = .command record len body)
    (hlong : cmdBPacketMaxSize < body.length) :
    processOneCommand thiz env = .error .outOfBounds := by
  have hcopy : copyAt record.toBoardPacket 0 body = none := copyAt_eq_none.2 (by omega)
  rw [processOneCommand_received h, hcopy, stored_none, error_bind]

/-- **A body that fits** is handed to `handle_command`. -/
theorem processOneCommand_command {record : Uninitialised} {len : ℕ} {body : List UInt8}
    (h : received env thiz.pending = .command record len body)
    (hfit : body.length ≤ cmdBPacketMaxSize) :
    ∃ packet : List.Vector UInt8 cmdBPacketMaxSize,
      packet.toList = body ++ record.toBoardPacket.toList.drop body.length ∧
      processOneCommand thiz env = (do
        let r ← handleCommand (afterBody thiz env len) (commandFrom thiz.allocated len packet)
          env.place
        .ok (⟨.ok, some len, some (commandFrom thiz.allocated len packet), r.1⟩, r.2)) := by
  have hroom : 0 + body.length ≤ cmdBPacketMaxSize := by omega
  obtain ⟨packet, hpacket⟩ := copyAt_isSome record.toBoardPacket hroom
  refine ⟨packet, ?_, ?_⟩
  · rw [toList_copyAt hpacket, List.take_zero, List.nil_append, Nat.zero_add]
  · rw [processOneCommand_received h, hpacket, stored_some, ok_bind]

end Command

/-! ### Commands and responses of a bad port -/

/-- The port that a command is made of. -/
theorem portId_commandFrom {block len : ℕ} {packet : List.Vector UInt8 cmdBPacketMaxSize}
    {b : UInt8} {bs : List UInt8} (h : packet.toList = b :: bs) :
    (commandFrom block len packet).portId = b - 1 := by
  obtain ⟨l, hl⟩ := packet
  obtain rfl : l = b :: bs := h
  rfl

/-- The first byte of a command counts the ports from 1. -/
theorem port_lt_iff (b : UInt8) : (b - 1).toNat < nodeNum ↔ 1 ≤ b.toNat ∧ b.toNat ≤ 8 := by
  have hb := b.toNat_lt
  rw [UInt8.toNat_sub]
  simp only [nodeNum, UInt8.reduceToNat]
  omega

/-- A power switch command goes to the board without a look at the lists. -/
theorem handleCommand_powerSwitch (thiz : PacketTransfer) {c : Command} (place : Option Addr)
    (htype : c.type = nodePayloadTypeCmdPowerSwitch) :
    handleCommand thiz c place = .ok ([powerSwitchToBoard c], thiz) := if_pos htype

/-- Every other command of a bad port subscripts `command_set` with it. -/
theorem handleCommand_badIndex (thiz : PacketTransfer) {c : Command} (place : Option Addr)
    (htype : c.type ≠ nodePayloadTypeCmdPowerSwitch) (hport : ¬ c.portId.toNat < nodeNum) :
    handleCommand thiz c place = .error .badIndex := by
  have hindex : commandSetIndex c.portId = .error .badIndex := dif_neg hport
  simp only [handleCommand, if_neg htype, waitForResponse_eq, if_true, hindex, error_bind]

/-- So does a response of a bad port. -/
theorem handleResponse_badIndex {thiz : PacketTransfer}
    (hport : ¬ thiz.response.portId.toNat < nodeNum) :
    handleResponse thiz = .error .badIndex := by
  have hindex : commandSetIndex thiz.response.portId = .error .badIndex := dif_neg hport
  rw [handleResponse_eq, hindex, error_bind]

/-! ### What every call keeps -/

/-- **The lists hold commands**, and the response ends inside its buffer. -/
structure Sound (thiz : PacketTransfer) : Prop where
  holds : ∃ cells, Holds thiz.mem thiz.commandSet cells
  lenFits : LenFits thiz.reassembly

theorem Sound.congr {thiz thiz' : PacketTransfer} (h : Sound thiz) (hsame : SameHeld thiz thiz') :
    Sound thiz' := by
  obtain ⟨⟨cells, hcells⟩, hlen⟩ := h
  obtain ⟨hmem, hset, hreassembly⟩ := hsame
  exact ⟨⟨cells, by rwa [hmem, hset]⟩, by rwa [hreassembly]⟩

theorem sound_create (board : GatherBoard) (lists : Fin nodeNum → Bool) :
    Sound (packetTransferCreate board lists) :=
  ⟨⟨_, holds_create board lists⟩, lenFits_created⟩

section Cases

variable {thiz : PacketTransfer}

/-- `handle_command` returns and keeps the invariant, or subscripts `command_set` with a bad
port. -/
theorem Sound.handleCommand_cases (h : Sound thiz) (c : Command) (place : Option Addr) :
    (∃ r, handleCommand thiz c place = .ok r ∧ Sound r.2) ∨
      (handleCommand thiz c place = .error .badIndex ∧ ¬ c.portId.toNat < nodeNum) := by
  by_cases hport : c.portId.toNat < nodeNum
  · obtain ⟨cells, hcells⟩ := h.holds
    obtain ⟨_, m', set', cells', hrun, hholds, -⟩ := handleCommand_spec hcells ⟨c, hport⟩ place
    exact Or.inl ⟨_, hrun, ⟨cells', hholds⟩, h.lenFits⟩
  · by_cases htype : c.type = nodePayloadTypeCmdPowerSwitch
    · exact Or.inl ⟨_, handleCommand_powerSwitch thiz place htype, h⟩
    · exact Or.inr ⟨handleCommand_badIndex thiz place htype hport, hport⟩

/-- `handle_response` returns and keeps the invariant, or meets an empty list, or a bad port. -/
theorem Sound.handleResponse_cases (h : Sound thiz) :
    (∃ thiz', handleResponse thiz = .ok thiz' ∧ Sound thiz') ∨
      handleResponse thiz = .error .nullDeref ∨
      (handleResponse thiz = .error .badIndex ∧ ¬ thiz.response.portId.toNat < nodeNum) := by
  by_cases hport : thiz.response.portId.toNat < nodeNum
  · obtain ⟨cells, hcells⟩ := h.holds
    by_cases hempty : cells (PortResponse.port ⟨thiz.response, hport⟩) = []
    · exact Or.inr (Or.inl (handleResponse_empty thiz hcells ⟨_, hport⟩ rfl hempty))
    · have hset := mt (hcells.missing _) hempty
      obtain ⟨m', set', hrun, hholds, -⟩ :=
        handleResponse_spec thiz hcells ⟨_, hport⟩ rfl hset hempty
      exact Or.inl ⟨_, hrun, ⟨_, hholds⟩, h.lenFits⟩
  · exact Or.inr (Or.inr ⟨handleResponse_badIndex hport, hport⟩)

/-- **A call of `process_one_command`** returns and keeps the invariant; or it stores a body outside
the packet; or it meets a bad port. -/
theorem Sound.processOneCommand_cases (h : Sound thiz) (env : CallEnv) :
    (∃ o, processOneCommand thiz env = .ok o ∧ Sound o.2 ∧
      o.1.bodyCount = (received env thiz.pending).length? ∧
      (o.1.ret = .fail → ∀ record len body,
        received env thiz.pending ≠ .command record len body)) ∨
    (∃ record len body, received env thiz.pending = .command record len body ∧
      cmdBPacketMaxSize < body.length ∧ processOneCommand thiz env = .error .outOfBounds) ∨
    ∃ record len b bs, received env thiz.pending = .command record len (b :: bs) ∧
      ¬ (1 ≤ b.toNat ∧ b.toNat ≤ 8) ∧ processOneCommand thiz env = .error .badIndex := by
  cases hrec : received env thiz.pending with
  | nothing =>
      obtain ⟨thiz', hrun, hsame⟩ := processOneCommand_nothing hrec
      exact Or.inl ⟨_, hrun, h.congr hsame, rfl, fun _ _ _ _ hbad => by cases hbad⟩
  | length len =>
      obtain ⟨thiz', hrun, hsame⟩ := processOneCommand_length hrec
      exact Or.inl ⟨_, hrun, h.congr hsame, rfl, fun _ _ _ _ hbad => by cases hbad⟩
  | command record len body =>
      rcases Nat.lt_or_ge cmdBPacketMaxSize body.length with hover | hfit
      · exact Or.inr (Or.inl ⟨record, len, body, rfl, hover, processOneCommand_overrun hrec hover⟩)
      · obtain ⟨_, _, _, _, _, _, hne⟩ := received_eq_command hrec
        obtain ⟨b, bs, rfl⟩ := List.exists_cons_of_ne_nil hne
        obtain ⟨packet, hpacket, hrun⟩ := processOneCommand_command hrec hfit
        have hread : Sound (afterBody thiz env len) := h.congr ⟨rfl, rfl, rfl⟩
        rcases hread.handleCommand_cases (commandFrom thiz.allocated len packet) env.place with
          ⟨r, hr, hsound⟩ | ⟨hr, hport⟩
        · rw [hr, ok_bind] at hrun
          exact Or.inl ⟨_, hrun, hsound, rfl, fun hret => by cases hret⟩
        · rw [hr, error_bind] at hrun
          rw [portId_commandFrom hpacket, port_lt_iff] at hport
          exact Or.inr (Or.inr ⟨record, len, b, bs, rfl, hport, hrun⟩)

end Cases

/-- The object after the reassembly has taken a frame. -/
def PacketTransfer.withReassembly (thiz : PacketTransfer) (s : Reassembly) : PacketTransfer :=
  { thiz with packetState := s.packetState, response := s.response }

/-- A frame that completes no packet changes the reassembly only. -/
theorem processOneResponse_quiet {thiz : PacketTransfer} {f : Frame} {r : Outcome × Reassembly}
    (h : processOneResponse thiz.reassembly f = .ok r) (hr : r.1.completed = false) :
    thiz.processOneResponse f = .ok (r.1.ret, thiz.withReassembly r.2) := by
  simp only [PacketTransfer.processOneResponse, h, ok_bind, hr, Bool.false_eq_true, if_false,
    PacketTransfer.withReassembly]

/-- A frame that completes a packet goes through `handle_response`. -/
theorem processOneResponse_completes {thiz : PacketTransfer} {f : Frame} {r : Outcome × Reassembly}
    (h : processOneResponse thiz.reassembly f = .ok r) (hr : r.1.completed = true) :
    thiz.processOneResponse f = (do
      let thiz' ← handleResponse (thiz.withReassembly r.2)
      .ok (r.1.ret, thiz')) := by
  simp only [PacketTransfer.processOneResponse, h, ok_bind, hr, if_true,
    PacketTransfer.withReassembly]

/-- **What a frame has done**, if the call returns: it has changed the reassembly only, or a packet
was complete and has gone through `handle_response`. -/
theorem processOneResponse_inv {thiz : PacketTransfer} {f : Frame} {o : Ret × PacketTransfer}
    (hrun : thiz.processOneResponse f = .ok o) :
    ∃ r, Wsn.processOneResponse thiz.reassembly f = .ok r ∧
      (o.2 = thiz.withReassembly r.2 ∨ handleResponse (thiz.withReassembly r.2) = .ok o.2) := by
  cases hframe : Wsn.processOneResponse thiz.reassembly f with
  | error e =>
      rw [PacketTransfer.processOneResponse, hframe, error_bind] at hrun
      cases hrun
  | ok r =>
      refine ⟨r, rfl, ?_⟩
      cases hr : r.1.completed with
      | false =>
          rw [processOneResponse_quiet hframe hr] at hrun
          cases hrun
          exact Or.inl rfl
      | true =>
          rw [processOneResponse_completes hframe hr] at hrun
          obtain ⟨thiz', hhandle, hret⟩ := bind_eq_ok.1 hrun
          cases hret
          exact Or.inr hhandle

theorem Sound.processOneResponse {thiz : PacketTransfer} {f : Frame} {o : Ret × PacketTransfer}
    (h : Sound thiz) (hrun : thiz.processOneResponse f = .ok o) : Sound o.2 := by
  obtain ⟨r, hframe, hquiet | hhandle⟩ := processOneResponse_inv hrun
  · rw [hquiet]
    exact ⟨h.holds, h.lenFits.step hframe⟩
  · have hnext : Sound (thiz.withReassembly r.2) := ⟨h.holds, h.lenFits.step hframe⟩
    rcases hnext.handleResponse_cases with ⟨_, hok, hsound⟩ | herr | ⟨herr, -⟩
    · rw [hok] at hhandle
      cases hhandle
      exact hsound
    · rw [herr] at hhandle
      cases hhandle
    · rw [herr] at hhandle
      cases hhandle

/-- **Every call keeps the invariant.** -/
theorem Sound.step (thiz : PacketTransfer) (event : Event) (o : Ret × PacketTransfer)
    (h : Sound thiz) (hstep : thiz.step event = .ok o) : Sound o.2 := by
  cases event with
  | connect socket stream =>
      cases hstep
      exact h.congr ⟨rfl, rfl, rfl⟩
  | command env =>
      rw [PacketTransfer.step, bind_eq_ok] at hstep
      obtain ⟨r, hrun, hret⟩ := hstep
      cases hret
      rcases h.processOneCommand_cases env with
        ⟨o, hok, hsound, -⟩ | ⟨_, _, _, -, -, herr⟩ | ⟨_, _, _, _, -, -, herr⟩
      · rw [hok] at hrun
        cases hrun
        exact hsound
      · rw [herr] at hrun
        cases hrun
      · rw [herr] at hrun
        cases hrun
  | frame f => exact h.processOneResponse hstep
  | disconnect =>
      cases hstep
      exact h.congr ⟨rfl, rfl, rfl⟩

/-- A state that the calls reach from a new object, some of whose lists may not exist. -/
abbrev Reached (board : GatherBoard) (lists : Fin nodeNum → Bool) :=
  { thiz : PacketTransfer // Reaches PacketTransfer.step (packetTransferCreate board lists) thiz }

theorem Reached.sound {board : GatherBoard} {lists : Fin nodeNum → Bool}
    (thiz : Reached board lists) : Sound thiz.1 :=
  Reaches.invariant Sound.step (sound_create board lists) thiz.2

end Wsn
