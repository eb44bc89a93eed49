/-
**The byte stream of the host.**

The host sends commands one after the other: a length in two bytes, then as many bytes, the first of
which is the port.  Abstractly, the commands that are handled are the commands that are sent.  A
stream socket may cut the bytes anywhere, so a `read` may deliver less than it is asked for; the
program makes one `read` for a length and one for a body.  This module says for which deliveries
the commands sent are the commands handled.

Main definitions:

* `Wsn.HostCommand` — a command of the host, `Wsn.HostCommand.wire` its bytes on the stream;
* `Wsn.Delivery` — how the stream is cut;
* `Wsn.ParsedAlike` — two deliveries of one stream are handled alike, and as sent;
* `Wsn.FullReads` — every `read` delivers what it is asked for.

Main results:

* `Wsn.processOneCommand_full`, `Wsn.processOneCommand_cut` — one command, by how it is delivered;
* `Wsn.handlesAll_iff` — one delivery, command after command;
* `Wsn.parsedAlike_iff` — **the cuts do not matter exactly when there are none**.
-/

import WsnPlatform.PacketTransferCalls

set_option relaxedAutoImplicit false
set_option autoImplicit false

namespace Wsn

open FixedBuffer FaultRun

/-! ### What the host sends -/

/-- A command of the host: its port, counted from 1, and 12 to 49 bytes behind it. -/
structure HostCommand where
  first : UInt8
  rest : List UInt8
  first_ge : 1 ≤ first.toNat
  first_le : first.toNat ≤ 8
  length_ge : 12 ≤ rest.length
  length_le : rest.length ≤ 49

/-- What is handled of a command. -/
structure Parsed where
  portId : UInt8
  type : UInt8
  bytes : List UInt8
  deriving DecidableEq

def Command.parsed (c : Command) : Parsed :=
  ⟨c.portId, c.type, c.toBoardPacket.toList.take c.toBoardPacketLen⟩

namespace HostCommand

def bytes (c : HostCommand) : List UInt8 := c.first :: c.rest

/-- The command on the stream. -/
def wire (c : HostCommand) : List UInt8 := 0 :: UInt8.ofNat c.bytes.length :: c.bytes

/-- What should be handled: ports count from 0 in the program, and the type is the 12th byte. -/
def parsed (c : HostCommand) : Parsed :=
  ⟨c.first - 1, c.rest.get ⟨10, Nat.lt_of_lt_of_le (by decide) c.length_ge⟩, c.bytes⟩

theorem length_bytes (c : HostCommand) : 13 ≤ c.bytes.length ∧ c.bytes.length ≤ 50 := by
  have hge := c.length_ge
  have hle := c.length_le
  simp only [bytes, List.length_cons]
  omega

/-- The two bytes before a command are its length in network order. -/
theorem bigEndian16_length (c : HostCommand) :
    bigEndian16 0 (UInt8.ofNat c.bytes.length) = c.bytes.length := by
  have hlen := c.length_bytes
  simp only [bigEndian16, UInt8.reduceToNat, UInt8.toNat_ofNat']
  omega

end HostCommand

/-- How the stream is cut: the most that each `read` of a length, and of a body, delivers.  It
delivers at least one byte, and never more than it is asked for or than is there. -/
structure Delivery where
  header : ℕ → ℕ
  body : ℕ → ℕ

/-- The environment that delivers so, with records that hold `junk`. -/
def Delivery.env (d : Delivery) (junk : ℕ → Uninitialised) (place : ℕ → Option Addr) (i : ℕ) :
    CallEnv :=
  ⟨some (junk i), .bytes (d.header i), .bytes (d.body i), place i⟩

/-- The delivery of what follows the first command. -/
def Delivery.next (d : Delivery) : Delivery := ⟨fun i => d.header (i + 1), fun i => d.body (i + 1)⟩

/-- The commands that are handled. -/
def handledBy (os : List CommandOutcome) : List Parsed :=
  (os.filterMap CommandOutcome.handled).map Command.parsed

/-- A connection over which the host sends `stream` ends, and `ps` has been handled. -/
def HandledOver (thiz : PacketTransfer) (socket : ℕ) (stream : List UInt8) (env : ℕ → CallEnv)
    (ps : List Parsed) : Prop :=
  ∃ os thiz', packetTransferProcess thiz socket stream env = .ok (.ok, os, thiz') ∧
    handledBy os = ps

/-- **Two deliveries of what the host sends are handled alike**, and as it was sent, whatever the
records hold and wherever the nodes are. -/
def ParsedAlike (thiz : PacketTransfer) (socket : ℕ) (sent : List HostCommand)
    (d₁ d₂ : Delivery) : Prop :=
  ∀ junk₁ place₁ junk₂ place₂, ∃ ps,
    HandledOver thiz socket (sent.flatMap HostCommand.wire) (d₁.env junk₁ place₁) ps ∧
    HandledOver thiz socket (sent.flatMap HostCommand.wire) (d₂.env junk₂ place₂) ps ∧
    ps = sent.map HostCommand.parsed

/-- **Every `read` delivers what it is asked for.** -/
def FullReads (d : Delivery) (sent : List HostCommand) : Prop :=
  ∀ i c, sent[i]? = some c → 2 ≤ d.header i ∧ c.bytes.length ≤ d.body i

theorem fullReads_nil (d : Delivery) : FullReads d [] := by
  intro i c hc
  cases hc

theorem fullReads_cons {d : Delivery} {c : HostCommand} {sent : List HostCommand} :
    FullReads d (c :: sent) ↔
      (2 ≤ d.header 0 ∧ c.bytes.length ≤ d.body 0) ∧ FullReads d.next sent := by
  constructor
  · intro h
    exact ⟨h 0 c rfl, fun i c' hc' => h (i + 1) c' hc'⟩
  · rintro ⟨h₀, h⟩ i c' hc'
    cases i with
    | zero => cases hc'; exact h₀
    | succ i => exact h i c' hc'

/-! ### One command -/

section One

variable {thiz : PacketTransfer} (c : HostCommand) (rest : List UInt8) {kh : ℕ} (kb : ℕ)
  (junk : Uninitialised) (place : Option Addr)

/-- A length that is delivered whole. -/
theorem delivers_header (hkh : 2 ≤ kh) :
    (ReadChoice.bytes kh).delivers cmdSHeaderLen (c.wire ++ rest) =
      [0, UInt8.ofNat c.bytes.length] ∧
    (ReadChoice.bytes kh).leaves cmdSHeaderLen (c.wire ++ rest) = c.bytes ++ rest := by
  have hmax : cmdSHeaderLen ≤ max 1 kh := le_max_of_le_right hkh
  have hheader : (ReadChoice.bytes kh).delivers cmdSHeaderLen (c.wire ++ rest) =
      [0, UInt8.ofNat c.bytes.length] := by
    have hwire : c.wire ++ rest = [0, UInt8.ofNat c.bytes.length] ++ (c.bytes ++ rest) := rfl
    rw [hwire]
    exact ReadChoice.delivers_append hmax rfl _
  exact ⟨hheader, by rw [ReadChoice.leaves, hheader]; rfl⟩

/-- A body, asked for with its length. -/
theorem delivers_body :
    (ReadChoice.bytes kb).delivers c.bytes.length (c.bytes ++ rest) = c.bytes.take (max 1 kb) := by
  rw [ReadChoice.delivers, List.take_append_of_le_length (min_le_left _ _)]
  rcases Nat.le_total c.bytes.length (max 1 kb) with hle | hle
  · rw [min_eq_left hle, List.take_length, List.take_of_length_le hle]
  · rw [min_eq_right hle]

/-- What is received of a command whose length is delivered whole. -/
theorem received_header (hkh : 2 ≤ kh) :
    received ⟨some junk, .bytes kh, .bytes kb, place⟩ (c.wire ++ rest) =
      .command junk c.bytes.length (c.bytes.take (max 1 kb)) := by
  obtain ⟨hheader, hleaves⟩ := delivers_header c rest hkh
  have hbody := delivers_body c rest kb
  obtain ⟨b, bs, hbs⟩ : ∃ b bs, c.bytes.take (max 1 kb) = b :: bs := by
    obtain ⟨k, hk⟩ : ∃ k, max 1 kb = k + 1 := ⟨max 1 kb - 1, by omega⟩
    exact ⟨c.first, c.rest.take k, by rw [hk, HostCommand.bytes, List.take_succ_cons]⟩
  unfold received
  simp only [hheader, hleaves, receivedLength, List.headD_cons, c.bigEndian16_length, hbody, hbs]

/-- What is received of a command whose length is cut: nothing more, if the record holds `0` where
the second byte should be. -/
theorem received_cut (hkh : ¬ 2 ≤ kh) (hjunk : junk.toBoardPacketLen.tail.head = 0) :
    received ⟨some junk, .bytes kh, .bytes kb, place⟩ (c.wire ++ rest) = .length 0 := by
  have hmin : min cmdSHeaderLen (max 1 kh) = 1 := by
    simp only [cmdSHeaderLen]
    omega
  have hheader : (ReadChoice.bytes kh).delivers cmdSHeaderLen (c.wire ++ rest) = [0] := by
    rw [ReadChoice.delivers, hmin]
    rfl
  have hlen : receivedLength junk.toBoardPacketLen 0 [] = 0 := by
    rw [receivedLength, List.headD_nil, hjunk]
    rfl
  have hbody : ∀ pending, (ReadChoice.bytes kb).delivers 0 pending = [] := by
    intro pending
    rw [ReadChoice.delivers, Nat.zero_min, List.take_zero]
  unfold received
  simp only [hheader, hlen, hbody]

variable {c rest kb}

/-- What is handled, when the packet starts with the bytes of the command. -/
theorem parsed_commandFrom {block : ℕ} {packet : List.Vector UInt8 cmdBPacketMaxSize}
    {tail : List UInt8} (h : packet.toList = c.bytes ++ tail) :
    (commandFrom block c.bytes.length packet).parsed = c.parsed := by
  obtain ⟨l, hl⟩ := packet
  obtain rfl : l = c.bytes ++ tail := h
  have hten : 10 < c.rest.length := Nat.lt_of_lt_of_le (by decide) c.length_ge
  have hten' : 10 < (c.rest ++ tail).length := by
    rw [List.length_append]
    omega
  have htype : (c.rest ++ tail)[10] = c.rest[10] := List.getElem_append_left hten
  have hbytes : (c.bytes ++ tail).take c.bytes.length = c.bytes := List.take_left
  exact congrArg₂ (Parsed.mk (c.first - 1)) htype hbytes

/-- **A command that is delivered whole** is handled as it was sent, and what follows is left. -/
theorem processOneCommand_full (h : Sound thiz) (hpending : thiz.pending = c.wire ++ rest)
    (hkh : 2 ≤ kh) (hkb : c.bytes.length ≤ kb) :
    ∃ o thiz', processOneCommand thiz ⟨some junk, .bytes kh, .bytes kb, place⟩ = .ok (o, thiz') ∧
      o.ret = .ok ∧ o.handled.map Command.parsed = some c.parsed ∧ Sound thiz' ∧
      thiz'.pending = rest := by
  have hlen := c.length_bytes
  have hrec := received_header c rest kb junk place hkh
  have hwhole : c.bytes.take (max 1 kb) = c.bytes :=
    List.take_of_length_le (hkb.trans (le_max_right 1 kb))
  rw [hwhole, ← hpending] at hrec
  obtain ⟨packet, hpacket, hrun⟩ := processOneCommand_command hrec hlen.2
  set command := commandFrom thiz.allocated c.bytes.length packet with hcommand
  have hport : command.portId = c.first - 1 := portId_commandFrom hpacket
  have hlt : command.portId.toNat < nodeNum := by
    rw [hport, port_lt_iff]
    exact ⟨c.first_ge, c.first_le⟩
  have hread : Sound (afterBody thiz ⟨some junk, .bytes kh, .bytes kb, place⟩ c.bytes.length) :=
    h.congr ⟨rfl, rfl, rfl⟩
  obtain ⟨cells, hcells⟩ := hread.holds
  obtain ⟨toBoard, m', set', cells', hhandle, hholds, -⟩ :=
    handleCommand_spec hcells ⟨command, hlt⟩ place
  rw [hhandle, ok_bind] at hrun
  refine ⟨_, _, hrun, rfl, ?_, ⟨⟨cells', hholds⟩, h.lenFits⟩, ?_⟩
  · exact congrArg some (parsed_commandFrom hpacket)
  · have hleaves := (delivers_header c rest hkh).2
    have hbody := delivers_body c rest kb
    rw [hwhole] at hbody
    change (ReadChoice.bytes kb).leaves c.bytes.length
      ((ReadChoice.bytes kh).leaves cmdSHeaderLen thiz.pending) = rest
    rw [hpending, hleaves, ReadChoice.leaves, hbody, List.drop_left]

variable {junk place}

/-- **A command whose body is cut** is handled with what the record held before. -/
theorem processOneCommand_cut {o : CommandOutcome × PacketTransfer}
    (hpending : thiz.pending = c.wire ++ rest) (hkh : 2 ≤ kh) (hkb : ¬ c.bytes.length ≤ kb)
    (hjunk : junk.toBoardPacket =
      List.Vector.replicate cmdBPacketMaxSize (c.bytes.getD (max 1 kb) 0 + 1))
    (hrun : processOneCommand thiz ⟨some junk, .bytes kh, .bytes kb, place⟩ = .ok o) :
    ∃ p, o.1.handled.map Command.parsed = some p ∧ p ≠ c.parsed := by
  have hlen := c.length_bytes
  have hrec := received_header c rest kb junk place hkh
  rw [← hpending] at hrec
  have hshort : (c.bytes.take (max 1 kb)).length = max 1 kb := by
    rw [List.length_take]
    omega
  have hfit : (c.bytes.take (max 1 kb)).length ≤ cmdBPacketMaxSize := by
    rw [hshort, cmdBPacketMaxSize]
    omega
  obtain ⟨packet, hpacket, hspec⟩ := processOneCommand_command hrec hfit
  rw [hspec, bind_eq_ok] at hrun
  obtain ⟨r, -, hret⟩ := hrun
  cases hret
  refine ⟨_, rfl, fun hbad => ?_⟩
  have hbytes : packet.toList.take c.bytes.length = c.bytes := congrArg Parsed.bytes hbad
  -- the first byte that did not arrive is not the one that was sent
  have hk : max 1 kb < c.bytes.length := by omega
  have hsent : c.bytes[max 1 kb]? = some (c.bytes.getD (max 1 kb) 0) := by
    rw [List.getD_eq_getElem?_getD, List.getElem?_eq_getElem hk, Option.getD_some]
  have hold : junk.toBoardPacket.toList =
      List.replicate cmdBPacketMaxSize (c.bytes.getD (max 1 kb) 0 + 1) := by
    rw [hjunk]
    rfl
  have hstored : packet.toList[max 1 kb]? = some (c.bytes.getD (max 1 kb) 0 + 1) := by
    rw [hpacket, List.getElem?_append_right hshort.le, hshort, Nat.sub_self, List.getElem?_drop,
      hold, Nat.add_zero, List.getElem?_replicate, if_pos]
    rw [cmdBPacketMaxSize]
    omega
  have htake := List.getElem?_take_of_lt (l := packet.toList) hk
  rw [hbytes, hsent, hstored] at htake
  have hnat := congrArg UInt8.toNat (Option.some.inj htake)
  rw [UInt8.toNat_add] at hnat
  simp only [UInt8.reduceToNat] at hnat
  omega

end One

/-! ### Command after command -/

theorem handledBy_cons (o : CommandOutcome) (os : List CommandOutcome) :
    handledBy (o :: os) = (o.handled.map Command.parsed).toList ++ handledBy os := by
  cases hhandled : o.handled with
  | none => simp [handledBy, hhandled]
  | some c => simp [handledBy, hhandled]

section Loop

variable {thiz : PacketTransfer} (env : ℕ → CallEnv) {fuel : ℕ}

/-- The loop ends with the first command that fails. -/
theorem processCommands_fail {r : CommandOutcome × PacketTransfer}
    (h : processOneCommand thiz (env 0) = .ok r) (hret : r.1.ret ≠ .ok) :
    processCommands (fuel + 1) thiz env = .ok ([r.1], r.2) := by
  rw [processCommands, h, ok_bind, if_pos hret]

/-- It goes on behind one that does not. -/
theorem processCommands_ok {r : CommandOutcome × PacketTransfer}
    (h : processOneCommand thiz (env 0) = .ok r) (hret : r.1.ret = .ok) :
    processCommands (fuel + 1) thiz env = (do
      let rest ← processCommands fuel r.2 fun i => env (i + 1)
      .ok (r.1 :: rest.1, rest.2)) := by
  rw [processCommands, h, ok_bind, if_neg (not_not.2 hret)]

theorem processCommands_eq_ok {os : List CommandOutcome} {thiz' : PacketTransfer}
    (h : processCommands (fuel + 1) thiz env = .ok (os, thiz')) :
    ∃ r os', processOneCommand thiz (env 0) = .ok r ∧ os = r.1 :: os' := by
  rw [processCommands, bind_eq_ok] at h
  obtain ⟨r, hrun, h⟩ := h
  by_cases hret : r.1.ret ≠ .ok
  · rw [if_pos hret] at h
    cases h
    exact ⟨r, [], hrun, rfl⟩
  · rw [if_neg hret, bind_eq_ok] at h
    obtain ⟨rest, -, h⟩ := h
    cases h
    exact ⟨r, rest.1, hrun, rfl⟩

/-- A loop whose first command is handled, seen from behind that command. -/
theorem handles_cons_iff {r : CommandOutcome × PacketTransfer} {p : Parsed} {ps : List Parsed}
    (h : processOneCommand thiz (env 0) = .ok r) (hret : r.1.ret = .ok)
    (hp : r.1.handled.map Command.parsed = some p) :
    (∃ os thiz', processCommands (fuel + 1) thiz env = .ok (os, thiz') ∧ handledBy os = p :: ps) ↔
      ∃ os thiz', processCommands fuel r.2 (fun i => env (i + 1)) = .ok (os, thiz') ∧
        handledBy os = ps := by
  rw [processCommands_ok env h hret]
  constructor
  · rintro ⟨os, thiz', hrun, hps⟩
    obtain ⟨rest, hrest, hos⟩ := bind_eq_ok.1 hrun
    cases hos
    rw [handledBy_cons, hp] at hps
    exact ⟨rest.1, rest.2, hrest, (List.cons.inj hps).2⟩
  · rintro ⟨os, thiz', hrun, hps⟩
    refine ⟨r.1 :: os, thiz', by rw [hrun, ok_bind], ?_⟩
    rw [handledBy_cons, hp, hps]
    rfl

end Loop

/-- The loop handles what was sent, whatever the records hold and wherever the nodes are. -/
def HandlesAll (fuel : ℕ) (thiz : PacketTransfer) (d : Delivery) (sent : List HostCommand) : Prop :=
  ∀ junk place, ∃ os thiz', processCommands fuel thiz (d.env junk place) = .ok (os, thiz') ∧
    handledBy os = sent.map HostCommand.parsed

/-- A first command that is cut is not handled as it was sent. -/
theorem not_handlesAll_of_cut {fuel : ℕ} {thiz : PacketTransfer} {d : Delivery} {c : HostCommand}
    {sent : List HostCommand} {rest : List UInt8} (hpending : thiz.pending = c.wire ++ rest)
    (hcut : ¬ (2 ≤ d.header 0 ∧ c.bytes.length ≤ d.body 0)) :
    ¬ HandlesAll (fuel + 1) thiz d (c :: sent) := by
  intro hall
  by_cases hkh : 2 ≤ d.header 0
  · have hkb : ¬ c.bytes.length ≤ d.body 0 := fun hkb => hcut ⟨hkh, hkb⟩
    obtain ⟨os, thiz', hrun, hps⟩ := hall
      (fun _ => ⟨List.Vector.replicate 2 0,
        List.Vector.replicate cmdBPacketMaxSize (c.bytes.getD (max 1 (d.body 0)) 0 + 1)⟩)
      fun _ => none
    obtain ⟨r, os', hone, rfl⟩ := processCommands_eq_ok _ hrun
    obtain ⟨p, hp, hne⟩ := processOneCommand_cut hpending hkh hkb rfl hone
    rw [handledBy_cons, hp, List.map_cons] at hps
    exact hne (List.cons.inj hps).1
  · obtain ⟨os, thiz', hrun, hps⟩ := hall
      (fun _ => ⟨List.Vector.replicate 2 0, List.Vector.replicate cmdBPacketMaxSize 0⟩)
      fun _ => none
    have hrec := received_cut c rest (d.body 0)
      ⟨List.Vector.replicate 2 0, List.Vector.replicate cmdBPacketMaxSize 0⟩ none hkh rfl
    rw [← hpending] at hrec
    obtain ⟨thiz'', hone, -⟩ := processOneCommand_length hrec
    rw [processCommands_fail _ hone Ret.noConfusion] at hrun
    cases hrun
    cases hps

/-- **One delivery** is handled as it was sent exactly when every `read` is full. -/
theorem handlesAll_iff (sent : List HostCommand) : ∀ {fuel : ℕ} {thiz : PacketTransfer}
    {d : Delivery}, Sound thiz → sent.length < fuel →
    thiz.pending = sent.flatMap HostCommand.wire →
    (HandlesAll fuel thiz d sent ↔ FullReads d sent) := by
  induction sent with
  | nil =>
      intro fuel thiz d _ hfuel hpending
      refine ⟨fun _ => fullReads_nil d, fun _ junk place => ?_⟩
      obtain ⟨fuel, rfl⟩ : ∃ n, fuel = n + 1 := ⟨fuel - 1, by simp at hfuel; omega⟩
      -- the host has closed the connection
      have hrec : received (d.env junk place 0) thiz.pending = .nothing := by
        rw [hpending]
        simp [received, Delivery.env, ReadChoice.delivers]
      obtain ⟨thiz', hone, -⟩ := processOneCommand_nothing hrec
      exact ⟨_, _, processCommands_fail _ hone Ret.noConfusion, rfl⟩
  | cons c sent ih =>
      intro fuel thiz d h hfuel hpending
      obtain ⟨fuel, rfl⟩ : ∃ n, fuel = n + 1 := ⟨fuel - 1, by simp at hfuel; omega⟩
      rw [List.length_cons, Nat.succ_lt_succ_iff] at hfuel
      rw [List.flatMap_cons] at hpending
      by_cases hfull : 2 ≤ d.header 0 ∧ c.bytes.length ≤ d.body 0
      · rw [fullReads_cons, and_iff_right hfull]
        constructor
        · intro hall
          -- any record will do for the first command
          let junk₀ : Uninitialised :=
            ⟨List.Vector.replicate 2 0, List.Vector.replicate cmdBPacketMaxSize 0⟩
          obtain ⟨o, thiz', hone, hret, hp, h', hpending'⟩ :=
            processOneCommand_full junk₀ none h hpending hfull.1 hfull.2
          refine (ih h' hfuel hpending').1 fun junk place => ?_
          exact (handles_cons_iff (d.env (Stream'.cons junk₀ junk) (Stream'.cons none place)) hone
            hret hp).1 (hall _ _)
        · intro hreads junk place
          obtain ⟨o, thiz', hone, hret, hp, h', hpending'⟩ :=
            processOneCommand_full (junk 0) (place 0) h hpending hfull.1 hfull.2
          refine (handles_cons_iff (d.env junk place) hone hret hp).2 ?_
          exact (ih h' hfuel hpending').2 hreads (fun i => junk (i + 1)) fun i => place (i + 1)
      · rw [fullReads_cons]
        exact iff_of_false (not_handlesAll_of_cut hpending hfull) fun hreads => hfull hreads.1

/-! ### A connection -/

theorem length_le_flatMap_wire (sent : List HostCommand) :
    sent.length ≤ (sent.flatMap HostCommand.wire).length := by
  induction sent with
  | nil => exact Nat.zero_le _
  | cons c sent ih =>
      rw [List.flatMap_cons, List.length_append, List.length_cons]
      simp only [HostCommand.wire, List.length_cons]
      omega

/-- A connection is the loop between its opening and its closing. -/
theorem handledOver_iff {thiz : PacketTransfer} {socket : ℕ} {stream : List UInt8}
    {env : ℕ → CallEnv} {ps : List Parsed} :
    HandledOver thiz socket stream env ps ↔
      ∃ os thiz', processCommands (stream.length + 1) (openConnection thiz socket stream) env =
        .ok (os, thiz') ∧ handledBy os = ps := by
  have hsocket : (socket : ℤ) ≠ -1 := by omega
  rw [HandledOver, packetTransferProcess, if_neg hsocket]
  constructor
  · rintro ⟨os, thiz', hrun, hps⟩
    obtain ⟨r, hloop, hret⟩ := bind_eq_ok.1 hrun
    cases hret
    exact ⟨r.1, r.2, hloop, hps⟩
  · rintro ⟨os, thiz', hloop, hps⟩
    exact ⟨os, closeConnection thiz', by rw [hloop, ok_bind], hps⟩

/-- One delivery over a connection. -/
theorem handledOver_all_iff {thiz : PacketTransfer} (h : Sound thiz) (socket : ℕ)
    (sent : List HostCommand) (d : Delivery) :
    (∀ junk place, HandledOver thiz socket (sent.flatMap HostCommand.wire) (d.env junk place)
      (sent.map HostCommand.parsed)) ↔ FullReads d sent := by
  have hopen : Sound (openConnection thiz socket (sent.flatMap HostCommand.wire)) :=
    h.congr ⟨rfl, rfl, rfl⟩
  rw [← handlesAll_iff sent hopen (Nat.lt_succ_of_le (length_le_flatMap_wire sent)) rfl]
  exact forall₂_congr fun junk place => handledOver_iff

/-- **What the host sends is handled independently of how the stream is cut** exactly when it is not
cut inside a length or a body. -/
theorem parsedAlike_iff {board : GatherBoard} {lists : Fin nodeNum → Bool}
    (thiz : Reached board lists) (socket : ℕ) (sent : List HostCommand) (d₁ d₂ : Delivery) :
    ParsedAlike thiz.1 socket sent d₁ d₂ ↔ FullReads d₁ sent ∧ FullReads d₂ sent := by
  rw [← handledOver_all_iff thiz.sound socket sent d₁,
    ← handledOver_all_iff thiz.sound socket sent d₂]
  let junk₀ : ℕ → Uninitialised := fun _ =>
    ⟨List.Vector.replicate 2 0, List.Vector.replicate cmdBPacketMaxSize 0⟩
  constructor
  · intro h
    constructor
    · intro junk place
      obtain ⟨_, h₁, -, rfl⟩ := h junk place junk₀ fun _ => none
      exact h₁
    · intro junk place
      obtain ⟨_, -, h₂, rfl⟩ := h junk₀ (fun _ => none) junk place
      exact h₂
  · rintro ⟨h₁, h₂⟩ junk₁ place₁ junk₂ place₂
    exact ⟨_, h₁ junk₁ place₁, h₂ junk₂ place₂, rfl⟩

/-- A command for the first port. -/
def shortCommand : HostCommand where
  first := 1
  rest := List.replicate 12 0
  first_ge := by decide
  first_le := by decide
  length_ge := by decide
  length_le := by decide

/-- A length that arrives in two pieces shifts what follows. -/
theorem cutLength_shifts :
    ¬ ParsedAlike (packetTransferCreate willingBoard fun _ => true) 4 [shortCommand]
      ⟨fun _ => 1, fun _ => 50⟩ ⟨fun _ => 2, fun _ => 50⟩ := by
  intro h
  have hreads := (handledOver_all_iff (sound_create willingBoard fun _ => true) 4 [shortCommand]
    ⟨fun _ => 1, fun _ => 50⟩).1 fun junk place => by
      obtain ⟨_, h₁, -, rfl⟩ := h junk place junk place
      exact h₁
  exact absurd (hreads 0 shortCommand rfl).1 (by decide)

end Wsn
