/-
**The bytes of a command that are looked at.**

`process_one_command` takes the port from the first byte of the packet and the type from its
twelfth; of a power switch command `handle_command` takes the thirteenth as well.  The packet lies
in a record from `malloc`, and nothing compares the number of bytes that the `read` of the body has
delivered with these offsets.

Main definitions:

* `Wsn.Command.inspected`, `Wsn.Command.view` — the offsets that are looked at, and what is seen;
* `Wsn.InspectsReceived` — only bytes that have been delivered are looked at;
* `Wsn.HandledAlike` — a second call to which the same bytes are delivered sees the same;
* `Wsn.LongEnough` — enough bytes have been delivered.

Main results:

* `Wsn.processOneCommand_ok_cases` — a call that returns `RET_OK`;
* `Wsn.received_bytes_iff` — **what is seen comes from the stream** exactly when enough bytes have
  been delivered.
-/

import WsnPlatform.PacketTransferCalls

set_option relaxedAutoImplicit false
set_option autoImplicit false

namespace Wsn

open FixedBuffer

/-! ### What is looked at -/

/-- The offsets of the bytes of a packet that are looked at. -/
def Command.inspected (c : Command) : List ℕ :=
  if c.type = nodePayloadTypeCmdPowerSwitch then
    [cmdBPortIdIndex, cmdBPayloadTypeIndex, cmdBPayloadTypeIndex + nodePayloadTypeWidth]
  else [cmdBPortIdIndex, cmdBPayloadTypeIndex]

/-- The bytes that are seen. -/
def Command.view (c : Command) : List (Option UInt8) :=
  c.inspected.map fun i => c.toBoardPacket.toList[i]?

/-- The bytes that the `read` of the body delivers. -/
def Received.body : Received → List UInt8
  | .command _ _ body => body
  | _ => []

/-- **Only bytes of the body are looked at.** -/
def InspectsReceived (body : List UInt8) (o : CommandOutcome) : Prop :=
  ∀ c, o.handled = some c → ∀ i ∈ c.inspected,
    ∃ b, body[i]? = some b ∧ c.toBoardPacket.toList[i]? = some b

/-- **Any other call that receives the same body sees the same**, whatever its record held before.
-/
def HandledAlike (body : List UInt8) (o : CommandOutcome) : Prop :=
  ∀ (thiz' : PacketTransfer) (env' : CallEnv) (o' : CommandOutcome × PacketTransfer),
    processOneCommand thiz' env' = .ok o' → o'.1.ret = .ok →
      (received env' thiz'.pending).body = body →
        o'.1.handled.map Command.view = o.handled.map Command.view

/-- **The body is long enough**: it has a twelfth byte, and a thirteenth if that makes it a power
switch command. -/
def LongEnough (body : List UInt8) : Prop :=
  cmdBPayloadTypeIndex < body.length ∧
    (body[cmdBPayloadTypeIndex]? = some nodePayloadTypeCmdPowerSwitch →
      cmdBPayloadTypeIndex + nodePayloadTypeWidth < body.length)

/-! ### A call that returns `RET_OK` -/

/-- **A call that returns `RET_OK`** has received a body, stored it over the record, and made a
command of it. -/
theorem processOneCommand_ok_cases {thiz : PacketTransfer} {env : CallEnv}
    {o : CommandOutcome × PacketTransfer} (hrun : processOneCommand thiz env = .ok o)
    (hret : o.1.ret = .ok) :
    ∃ record len body, ∃ packet : List.Vector UInt8 cmdBPacketMaxSize,
      received env thiz.pending = .command record len body ∧ body ≠ [] ∧
      body.length ≤ cmdBPacketMaxSize ∧
      packet.toList = body ++ record.toBoardPacket.toList.drop body.length ∧
      o.1.handled = some (commandFrom thiz.allocated len packet) := by
  cases hrec : received env thiz.pending with
  | nothing =>
      rw [processOneCommand_nothing_eq hrec] at hrun
      cases hrun
      cases hret
  | length len =>
      rw [processOneCommand_length_eq hrec] at hrun
      cases hrun
      cases hret
  | command record len body =>
      rcases Nat.lt_or_ge cmdBPacketMaxSize body.length with hover | hfit
      · rw [processOneCommand_overrun hrec hover] at hrun
        cases hrun
      · obtain ⟨_, _, _, _, _, _, hne⟩ := received_eq_command hrec
        obtain ⟨packet, hpacket, hcall⟩ := processOneCommand_command hrec hfit
        rw [hcall] at hrun
        obtain ⟨r, -, ho⟩ := bind_eq_ok.1 hrun
        cases ho
        exact ⟨record, len, body, packet, rfl, hne, hfit, hpacket, rfl⟩

section Packet

variable {record : Uninitialised} {body : List UInt8} {packet : List.Vector UInt8 cmdBPacketMaxSize}

/-- A byte of the packet that has been delivered. -/
theorem getElem?_delivered
    (h : packet.toList = body ++ record.toBoardPacket.toList.drop body.length)
    {i : ℕ} (hi : i < body.length) : packet.toList[i]? = body[i]? := by
  rw [h, List.getElem?_append_left hi]

/-- A byte that has not been delivered is the one that was in the record. -/
theorem getElem?_stale (h : packet.toList = body ++ record.toBoardPacket.toList.drop body.length)
    {i : ℕ} (hi : body.length ≤ i) : packet.toList[i]? = record.toBoardPacket.toList[i]? := by
  rw [h, List.getElem?_append_right hi, List.getElem?_drop, Nat.add_sub_cancel' hi]

/-- The type of the command is the twelfth byte of the packet. -/
theorem getElem?_type (block len : ℕ) (packet : List.Vector UInt8 cmdBPacketMaxSize) :
    packet.toList[cmdBPayloadTypeIndex]? = some (commandFrom block len packet).type := by
  have hlt : cmdBPayloadTypeIndex < packet.toList.length := by
    rw [packet.toList_length]
    decide
  exact List.getElem?_eq_getElem hlt

variable (block len : ℕ)

/-- With a long enough body the type is one of its bytes. -/
theorem LongEnough.getElem?_type (h : LongEnough body)
    (hpacket : packet.toList = body ++ record.toBoardPacket.toList.drop body.length) :
    body[cmdBPayloadTypeIndex]? = some (commandFrom block len packet).type := by
  rw [← getElem?_delivered hpacket h.1, Wsn.getElem?_type block len packet]

/-- And so is every byte that is looked at. -/
theorem LongEnough.lt_length (h : LongEnough body)
    (hpacket : packet.toList = body ++ record.toBoardPacket.toList.drop body.length) :
    ∀ i ∈ (commandFrom block len packet).inspected, i < body.length := by
  have htype := h.getElem?_type block len hpacket
  have hzero : cmdBPortIdIndex < body.length := Nat.lt_of_le_of_lt (Nat.zero_le _) h.1
  unfold Command.inspected
  split
  · next hpower =>
      have hdata := h.2 (by rw [htype, hpower])
      simp only [List.mem_cons, List.not_mem_nil, or_false]
      rintro i (rfl | rfl | rfl)
      · exact hzero
      · exact h.1
      · exact hdata
  · simp only [List.mem_cons, List.not_mem_nil, or_false]
    rintro i (rfl | rfl)
    · exact hzero
    · exact h.1

end Packet

/-- **Only bytes of the body are looked at** exactly when it is long enough. -/
theorem inspectsReceived_iff {body : List UInt8} {o : CommandOutcome} {record : Uninitialised}
    {block len : ℕ} {packet : List.Vector UInt8 cmdBPacketMaxSize}
    (hpacket : packet.toList = body ++ record.toBoardPacket.toList.drop body.length)
    (ho : o.handled = some (commandFrom block len packet)) :
    InspectsReceived body o ↔ LongEnough body := by
  constructor
  · intro h
    have hbyte : ∀ i ∈ (commandFrom block len packet).inspected, i < body.length := by
      intro i hi
      obtain ⟨b, hb, -⟩ := h _ ho i hi
      exact (List.getElem?_eq_some_iff.1 hb).1
    have htype : cmdBPayloadTypeIndex < body.length := by
      refine hbyte _ ?_
      unfold Command.inspected
      split <;> simp
    refine ⟨htype, fun hpower => hbyte _ ?_⟩
    rw [← getElem?_delivered hpacket htype, getElem?_type block len packet,
      Option.some_inj] at hpower
    rw [Command.inspected, if_pos hpower]
    simp
  · intro h c hc i hi
    rw [ho] at hc
    obtain rfl := Option.some.inj hc
    have hlt := h.lt_length _ _ hpacket i hi
    refine ⟨body[i], List.getElem?_eq_getElem hlt, ?_⟩
    rw [← List.getElem?_eq_getElem hlt]
    exact getElem?_delivered hpacket hlt

/-- Two commands whose packets start with the same long enough body look the same. -/
theorem LongEnough.view_eq {body : List UInt8} (h : LongEnough body)
    {record record' : Uninitialised} {packet packet' : List.Vector UInt8 cmdBPacketMaxSize}
    {block block' len len' : ℕ}
    (hpacket : packet.toList = body ++ record.toBoardPacket.toList.drop body.length)
    (hpacket' : packet'.toList = body ++ record'.toBoardPacket.toList.drop body.length) :
    (commandFrom block' len' packet').view = (commandFrom block len packet).view := by
  have htype : (commandFrom block' len' packet').type = (commandFrom block len packet).type := by
    have htype₁ := h.getElem?_type block len hpacket
    have htype₂ := h.getElem?_type block' len' hpacket'
    exact Option.some.inj (htype₂.symm.trans htype₁)
  have hinspected : (commandFrom block' len' packet').inspected =
      (commandFrom block len packet).inspected := by
    rw [Command.inspected, Command.inspected, htype]
  rw [Command.view, Command.view, hinspected]
  refine List.map_congr_left fun i hi => ?_
  have hlt := h.lt_length _ _ hpacket i hi
  exact (getElem?_delivered hpacket' hlt).trans (getElem?_delivered hpacket hlt).symm

/-- The same call with another record, whose length field is the same, receives the same. -/
theorem received_withRecord {env : CallEnv} {pending : List UInt8} {record : Uninitialised}
    {len : ℕ} {body : List UInt8} (h : received env pending = .command record len body)
    (packet : List.Vector UInt8 cmdBPacketMaxSize) :
    received { env with record := some ⟨record.toBoardPacketLen, packet⟩ } pending =
      .command ⟨record.toBoardPacketLen, packet⟩ len body := by
  obtain ⟨high, low, -, hheader, hlen, hbody, hne⟩ := received_eq_command h
  obtain ⟨b, bs, rfl⟩ := List.exists_cons_of_ne_nil hne
  simp only [received, hheader, hlen, hbody]

/-- The data byte lies in the packet. -/
theorem dataIndex_lt : cmdBPayloadTypeIndex + nodePayloadTypeWidth < cmdBPacketMaxSize := by
  decide

/-- Bytes for a record that make a power switch command of every packet that leaves them alone. -/
def powerSwitchRecord (data : UInt8) : List.Vector UInt8 cmdBPacketMaxSize :=
  (List.Vector.replicate cmdBPacketMaxSize nodePayloadTypeCmdPowerSwitch).set
    ⟨cmdBPayloadTypeIndex + nodePayloadTypeWidth, dataIndex_lt⟩ data

/-- **A body that is too short** leaves the type or the data byte to the record: the same call, with
another record, makes a power switch command with any data byte. -/
theorem exists_powerSwitch {thiz : PacketTransfer} {env : CallEnv} {record : Uninitialised}
    {len : ℕ} {body : List UInt8} (hrec : received env thiz.pending = .command record len body)
    (hshort : ¬ LongEnough body) (data : UInt8) :
    ∃ record' o' c', processOneCommand thiz { env with record := some record' } = .ok o' ∧
      o'.1.ret = .ok ∧ o'.1.handled = some c' ∧
      (received { env with record := some record' } thiz.pending).body = body ∧
      c'.view[2]? = some (some data) := by
  have hle : body.length ≤ cmdBPayloadTypeIndex + nodePayloadTypeWidth := by
    by_contra hlong
    have hlt : cmdBPayloadTypeIndex + nodePayloadTypeWidth < body.length := Nat.lt_of_not_le hlong
    exact hshort ⟨Nat.lt_of_succ_lt hlt, fun _ => hlt⟩
  have hrec' := received_withRecord hrec (powerSwitchRecord data)
  obtain ⟨packet, hpacket, hcall⟩ :=
    processOneCommand_command hrec' (hle.trans (by decide))
  -- the type is stale, or it is the last byte that has been delivered
  have htype : packet.toList[cmdBPayloadTypeIndex]? = some nodePayloadTypeCmdPowerSwitch := by
    rcases Nat.lt_or_ge cmdBPayloadTypeIndex body.length with hlt | hge
    · rw [getElem?_delivered hpacket hlt]
      by_contra hother
      exact hshort ⟨hlt, fun hpower => absurd hpower hother⟩
    · rw [getElem?_stale hpacket hge]
      rfl
  have hdata : packet.toList[cmdBPayloadTypeIndex + nodePayloadTypeWidth]? = some data := by
    rw [getElem?_stale hpacket hle]
    rfl
  have hpower : (commandFrom thiz.allocated len packet).type = nodePayloadTypeCmdPowerSwitch := by
    rw [getElem?_type thiz.allocated len packet] at htype
    exact Option.some.inj htype
  rw [handleCommand_powerSwitch _ _ hpower, ok_bind] at hcall
  refine ⟨_, _, _, hcall, rfl, rfl, by rw [hrec']; rfl, ?_⟩
  rw [Command.view, Command.inspected, if_pos hpower]
  exact congrArg some hdata

/-- **What is seen of a command comes from the stream**, and not from the record, exactly when the
body is long enough: then only bytes are looked at that have been delivered, and any other call that
receives the same body sees the same. -/
theorem received_bytes_iff {thiz : PacketTransfer} {env : CallEnv}
    {o : CommandOutcome × PacketTransfer} (hrun : processOneCommand thiz env = .ok o)
    (hret : o.1.ret = .ok) :
    (InspectsReceived (received env thiz.pending).body o.1 ↔
      LongEnough (received env thiz.pending).body) ∧
    (HandledAlike (received env thiz.pending).body o.1 ↔
      LongEnough (received env thiz.pending).body) := by
  obtain ⟨record, len, body, packet, hrec, -, -, hpacket, hhandled⟩ :=
    processOneCommand_ok_cases hrun hret
  have hbody : (received env thiz.pending).body = body := by rw [hrec]; rfl
  rw [hbody]
  refine ⟨inspectsReceived_iff hpacket hhandled, fun halike => ?_, fun hlong => ?_⟩
  · -- two records with different data bytes would look the same
    by_contra hshort
    obtain ⟨r₀, o₀, c₀, hrun₀, hret₀, hhandled₀, hbody₀, hview₀⟩ := exists_powerSwitch hrec hshort 0
    obtain ⟨r₁, o₁, c₁, hrun₁, hret₁, hhandled₁, hbody₁, hview₁⟩ := exists_powerSwitch hrec hshort 1
    have hsame := (halike _ _ _ hrun₀ hret₀ hbody₀).trans (halike _ _ _ hrun₁ hret₁ hbody₁).symm
    rw [hhandled₀, hhandled₁, Option.map_some, Option.map_some, Option.some_inj] at hsame
    rw [hsame, hview₁] at hview₀
    exact absurd (Option.some.inj (Option.some.inj hview₀)) (by decide)
  · intro thiz' env' o' hrun' hret' hbody'
    obtain ⟨record', len', body', packet', hrec', -, -, hpacket', hhandled'⟩ :=
      processOneCommand_ok_cases hrun' hret'
    obtain rfl : body' = body := by
      rw [← hbody', hrec']
      rfl
    rw [hhandled, hhandled', Option.map_some, Option.map_some, hlong.view_eq hpacket hpacket']

/-- An object to which the host has sent a command of one byte. -/
def oneByteObject : PacketTransfer :=
  openConnection (packetTransferCreate willingBoard fun _ => true) 4 [0, 1, 1]

/-- The record of the call holds the type of a power switch command, and a data byte. -/
def oneByteEnv (data : UInt8) : CallEnv where
  record := some ⟨List.Vector.replicate 2 0, powerSwitchRecord data⟩
  header := .bytes 2
  body := .bytes 50
  place := none

theorem oneByte_bytes :
    ∃ o, processOneCommand oneByteObject (oneByteEnv 0) = .ok o ∧
      (InspectsReceived (received (oneByteEnv 0) oneByteObject.pending).body o.1 ↔
        LongEnough (received (oneByteEnv 0) oneByteObject.pending).body) ∧
      (HandledAlike (received (oneByteEnv 0) oneByteObject.pending).body o.1 ↔
        LongEnough (received (oneByteEnv 0) oneByteObject.pending).body) :=
  ⟨_, rfl, received_bytes_iff rfl rfl⟩

/-- The command of one byte switches the node off or on, as the record happens to say. -/
theorem oneByte_stale :
    (∃ o, processOneCommand oneByteObject (oneByteEnv 0) = .ok o ∧ o.1.ret = .ok ∧
      o.1.toBoard = [0x40] ∧ (received (oneByteEnv 0) oneByteObject.pending).body = [1] ∧
      ¬ InspectsReceived [1] o.1 ∧ ¬ HandledAlike [1] o.1) ∧
    ∃ o, processOneCommand oneByteObject (oneByteEnv 1) = .ok o ∧ o.1.ret = .ok ∧
      o.1.toBoard = [0x30] ∧ (received (oneByteEnv 1) oneByteObject.pending).body = [1] := by
  refine ⟨⟨_, rfl, rfl, rfl, rfl, fun h => ?_, fun h => ?_⟩, ⟨_, rfl, rfl, rfl, rfl⟩⟩
  · obtain ⟨b, hb, -⟩ := h _ rfl cmdBPayloadTypeIndex (by decide)
    cases hb
  · have hviews := h oneByteObject (oneByteEnv 1) _ rfl rfl rfl
    exact absurd hviews (by decide)

end Wsn
