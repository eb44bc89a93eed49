/-
**The packet transfer object: `src/app/packet_transfer.c`.**

`struct _PacketTransfer` holds the connection to the host, eight lists of commands that wait for a
response, the response in progress and the gather board.  This module translates the functions that
work on it, with everything around the object that they touch: the `static` packet state, the nodes
of the lists, the command records, and what the host has sent and the program not yet read.

The program's environment decides what `malloc` and `read` return; its decisions during one call are
an input of that call.  The reads from and writes to the board are TODOs in the source, so a frame
from the board is an input, and what a command would send to the board is an output.

Main definitions:

* `Wsn.PacketTransfer` — the state;
* `Wsn.handleCommand`, `Wsn.processOneCommand`, `Wsn.packetTransferProcess` — commands of the host;
* `Wsn.handleResponse`, `Wsn.PacketTransfer.processOneResponse` — responses of the board;
* `Wsn.packetTransferCreate`, `Wsn.packetTransferReset`;
* `Wsn.PacketTransfer.step` — **one call, chosen by the environment**.
-/

import WsnPlatform.DList
import WsnPlatform.GatherBoard
import WsnPlatform.Reassembly

set_option relaxedAutoImplicit false
set_option autoImplicit false

namespace Wsn

open FixedBuffer

/-! ### The state -/

@[simp] def nodeNum : ℕ := 8

/-- `struct _Command`.  `block` tells the records apart: it counts the allocations before it. -/
structure Command where
  block : ℕ
  portId : UInt8
  type : UInt8
  toBoardPacketLen : ℕ
  toBoardPacket : List.Vector UInt8 cmdBPacketMaxSize

/-- `struct _PacketTransfer` and what its functions touch around it. -/
structure PacketTransfer where
  uploaderSocket : ℤ
  commandSet : Fin nodeNum → Option DList
  response : Response
  gatherBoard : GatherBoard
  /-- `static int packet_state` of `process_one_response`. -/
  packetState : PacketState
  /-- The nodes of the lists, and the commands that `command_destroy_cb` has freed. -/
  mem : Mem Command
  /-- The number of command records allocated so far. -/
  allocated : ℕ
  /-- The command records freed because a command could not be read. -/
  freed : List ℕ
  /-- What the host has sent and the program not yet read. -/
  pending : List UInt8
  /-- The sockets closed so far. -/
  closed : List ℤ

/-- The part of the state that the reassembly of frames works on. -/
def PacketTransfer.reassembly (thiz : PacketTransfer) : Reassembly :=
  ⟨thiz.packetState, thiz.response⟩

/-- `packet_transfer_create` on a gather board, when its own `malloc` succeeds; `lists` says for
which ports that of `dlist_create` does. -/
def packetTransferCreate (gatherBoard : GatherBoard) (lists : Fin nodeNum → Bool) :
    PacketTransfer where
  uploaderSocket := -1
  commandSet i := if lists i then some (dlistCreate true) else none
  response := .zero
  gatherBoard := gatherBoard
  packetState := .outPacket
  mem := .empty
  allocated := 0
  freed := []
  pending := []
  closed := []

/-- A subscript of `command_set`. -/
def commandSetIndex (portId : UInt8) : Exec (Fin nodeNum) :=
  if h : portId.toNat < nodeNum then .ok ⟨portId.toNat, h⟩ else .error .badIndex

/-! ### Commands of the host -/

/-- The `switch` of `handle_command`.  The case of the two types that need no response has no
`break`, so the default case undoes it. -/
def waitForResponse (type : UInt8) : Bool :=
  let case := fun wait : Bool =>
    if type = nodePayloadTypeCmdCurrent ∨ type = nodePayloadTypeCmdPowerSwitch then false else wait
  let default := fun _ : Bool => true
  default (case true)

/-- The byte that a power switch command would send to the board. -/
def powerSwitchToBoard (command : Command) : UInt8 :=
  let payloadData := command.toBoardPacket.get
    ⟨cmdBPayloadTypeIndex + nodePayloadTypeWidth, by decide⟩
  if payloadData = 0 then getBoardCmdWithPortId cmdBNodeCloseBase command.portId
  else getBoardCmdWithPortId cmdBNodeOpenBase command.portId

/-- **`handle_command`**: what it would send to the board, and the new state.  `place` is what the
`malloc` of the list node returns; the return code of `dlist_append` is not looked at. -/
def handleCommand (thiz : PacketTransfer) (command : Command) (place : Option Addr) :
    Exec (List UInt8 × PacketTransfer) :=
  if command.type = nodePayloadTypeCmdPowerSwitch then
    .ok ([powerSwitchToBoard command], thiz)
  else
    let toBoard := command.toBoardPacket.toList.take command.toBoardPacketLen
    if waitForResponse command.type then do
      let i ← commandSetIndex command.portId
      let r ← dlistAppend thiz.mem (thiz.commandSet i) place command
      .ok (toBoard, { thiz with
        mem := r.2.1, commandSet := Function.update thiz.commandSet i r.2.2 })
    else .ok (toBoard, thiz)

/-- What the environment makes a `read` do: fail, or deliver up to `k` bytes. -/
inductive ReadChoice
  | error
  | bytes (k : ℕ)

/-- `read` from the host: what it delivers and what is left.  It delivers at least one byte, if
there is one and room for it, and never more than asked for; at the end of the stream it delivers
nothing. -/
def readSocket (choice : ReadChoice) (count : ℕ) (pending : List UInt8) :
    Option (List UInt8 × List UInt8) :=
  match choice with
  | .error => none
  | .bytes k =>
      let n := min count (max 1 k)
      some (pending.take n, pending.drop n)

/-- A record as `malloc` returns it, with whatever it holds. -/
structure Uninitialised where
  toBoardPacketLen : List.Vector UInt8 2
  toBoardPacket : List.Vector UInt8 cmdBPacketMaxSize

/-- The decisions of the environment during one call of `process_one_command`. -/
structure CallEnv where
  /-- The record that `malloc` returns, if it does. -/
  record : Option Uninitialised
  header : ReadChoice
  body : ReadChoice
  /-- The place that the `malloc` of the list node returns, if it does. -/
  place : Option Addr

/-- What one call of `process_one_command` shows. -/
structure CommandOutcome where
  ret : Ret
  /-- The count passed to the second `read`, if it is reached. -/
  bodyCount : Option ℕ
  /-- The command passed to `handle_command`, if it is called. -/
  handled : Option Command
  /-- What would be sent to the board. -/
  toBoard : List UInt8

/-- `ntohs` of the two bytes of a length field. -/
def ntohs (field : List.Vector UInt8 2) : ℕ := (field.get 0).toNat * 256 + (field.get 1).toNat

/-- Step 3 of `process_one_command`: the command that is made of a packet.  The ports count from 1
there. -/
def commandFrom (block len : ℕ) (packet : List.Vector UInt8 cmdBPacketMaxSize) : Command where
  block := block
  portId := packet.get ⟨cmdBPortIdIndex, by decide⟩ - 1
  type := packet.get ⟨cmdBPayloadTypeIndex, by decide⟩
  toBoardPacketLen := len
  toBoardPacket := packet

/-- The end of `process_one_command` behind the label `fail`. -/
def failCommand (thiz : PacketTransfer) (block : ℕ) (bodyCount : Option ℕ) :
    Exec (CommandOutcome × PacketTransfer) :=
  .ok (⟨.fail, bodyCount, none, []⟩, { thiz with freed := thiz.freed ++ [block] })

/-- **`process_one_command`**. -/
def processOneCommand (thiz : PacketTransfer) (env : CallEnv) :
    Exec (CommandOutcome × PacketTransfer) :=
  match env.record with
  | none => .ok (⟨.fail, none, none, []⟩, thiz)
  | some record =>
      let block := thiz.allocated
      let thiz := { thiz with allocated := thiz.allocated + 1 }
      -- 1. the length of the packet for the board
      match readSocket env.header cmdSHeaderLen thiz.pending with
      | some (b :: bs, pending) => do
          let thiz := { thiz with pending := pending }
          let field ← stored (copyAt record.toBoardPacketLen 0 (b :: bs))
          let len := ntohs field
          -- 2. the packet for the board
          match readSocket env.body len thiz.pending with
          | some (c :: cs, pending) => do
              let thiz := { thiz with pending := pending }
              let packet ← stored (copyAt record.toBoardPacket 0 (c :: cs))
              -- 3. the command
              let command := commandFrom block len packet
              let r ← handleCommand thiz command env.place
              .ok (⟨.ok, some len, some command, r.1⟩, r.2)
          | _ => failCommand thiz block (some len)
      | _ => failCommand thiz block none

/-- The loop of `packet_transfer_process`: commands are processed until one fails. -/
def processCommands : ℕ → PacketTransfer → (ℕ → CallEnv) →
    Exec (List CommandOutcome × PacketTransfer)
  | 0, _, _ => .error .diverges
  | fuel + 1, thiz, env => do
      let r ← processOneCommand thiz (env 0)
      if r.1.ret ≠ .ok then .ok ([r.1], r.2)
      else do
        let rest ← processCommands fuel r.2 fun i => env (i + 1)
        .ok (r.1 :: rest.1, rest.2)

/-- The host has connected, and will send `stream`. -/
def openConnection (thiz : PacketTransfer) (socket : ℤ) (stream : List UInt8) : PacketTransfer :=
  { thiz with uploaderSocket := socket, pending := stream }

/-- The connection is closed. -/
def closeConnection (thiz : PacketTransfer) : PacketTransfer :=
  { thiz with
    closed := thiz.closed ++ [thiz.uploaderSocket], uploaderSocket := -1, pending := [] }

/-- **`packet_transfer_process`** on a connection over which the host sends `stream`.  Every command
takes bytes from the stream, which bounds the number of iterations. -/
def packetTransferProcess (thiz : PacketTransfer) (socket : ℤ) (stream : List UInt8)
    (env : ℕ → CallEnv) : Exec (Ret × List CommandOutcome × PacketTransfer) :=
  if socket = -1 then .ok (.invalidParams, [], thiz)
  else do
    let r ← processCommands (stream.length + 1) (openConnection thiz socket stream) env
    .ok (.ok, r.1, closeConnection r.2)

/-! ### Responses of the board -/

/-- `response_find_cb`.  The context points to an `int`; its lowest byte is read. -/
def responseFindCb (commandType : ℕ) (command : Command) : Bool :=
  command.type == UInt8.ofNat commandType

/-- **`handle_response`**.  The return codes of the LED calls are not looked at. -/
def handleResponse (thiz : PacketTransfer) : Exec PacketTransfer := do
  let led : ℤ := thiz.response.portId.toNat + 1
  if thiz.response.type = nodePayloadTypeRespNodeId then
    let _ ← gatherBoardLedRed (some thiz.gatherBoard) led ledOn
  let _ ← gatherBoardLedGreen (some thiz.gatherBoard) led ledOn
  let i ← commandSetIndex thiz.response.portId
  let commandType := nodeTypeConvertRespToCmd thiz.response.type
  let targetIndex ← dlistFind thiz.mem (thiz.commandSet i) (responseFindCb commandType)
  let r ← dlistDelete thiz.mem (thiz.commandSet i) targetIndex
  .ok { thiz with mem := r.2.1, commandSet := Function.update thiz.commandSet i r.2.2 }

/-- **`process_one_response`** on the whole object. -/
def PacketTransfer.processOneResponse (thiz : PacketTransfer) (fromBoard : Frame) :
    Exec (Ret × PacketTransfer) := do
  let r ← Wsn.processOneResponse thiz.reassembly fromBoard
  let thiz := { thiz with packetState := r.2.packetState, response := r.2.response }
  if r.1.completed then
    let thiz ← handleResponse thiz
    .ok (r.1.ret, thiz)
  else .ok (r.1.ret, thiz)

/-! ### Reset -/

/-- A `size_t` assigned to an `int`. -/
def toInt (n : ℕ) : ℤ := if n ≤ intMax then n else n - 2 ^ 32

/-- The inner loop of `packet_transfer_reset`, whose condition is `i < size`.  The first argument is
how often `j` can still be incremented. -/
def resetInner (i : ℕ) (size : ℤ) : ℕ → Mem Command → Option DList →
    Exec (Mem Command × Option DList)
  | 0, mem, list =>
      if (i : ℤ) < size then do
        let _ ← dlistDelete mem list intMax
        .error .signedOverflow
      else .ok (mem, list)
  | left + 1, mem, list =>
      if (i : ℤ) < size then do
        let r ← dlistDelete mem list (intMax - (left + 1))
        resetInner i size left r.2.1 r.2.2
      else .ok (mem, list)

/-- The outer loop of `packet_transfer_reset`, over the ports that are left. -/
def resetLists : List (Fin nodeNum) → PacketTransfer → Exec PacketTransfer
  | [], thiz => .ok thiz
  | i :: is, thiz => do
      let length ← dlistLength (thiz.commandSet i)
      let r ← resetInner i (toInt length) intMax thiz.mem (thiz.commandSet i)
      resetLists is { thiz with mem := r.1, commandSet := Function.update thiz.commandSet i r.2 }

/-- **`packet_transfer_reset`**. -/
def packetTransferReset (thiz : PacketTransfer) : Exec (Ret × PacketTransfer) := do
  let thiz ← resetLists (List.finRange nodeNum) thiz
  let thiz := { thiz with response := .zero }
  let thiz := if thiz.uploaderSocket ≠ -1 then
    { thiz with closed := thiz.closed ++ [thiz.uploaderSocket] } else thiz
  .ok (.ok, { thiz with uploaderSocket := -1 })

/-! ### Runs -/

/-- The calls that the environment can make. -/
inductive Event
  | connect (socket : ℤ) (stream : List UInt8)
  | command (env : CallEnv)
  | frame (fromBoard : Frame)
  | disconnect

/-- **One call.** -/
def PacketTransfer.step (thiz : PacketTransfer) : Event → Exec (Ret × PacketTransfer)
  | .connect socket stream => .ok (.ok, openConnection thiz socket stream)
  | .command env => do
      let r ← processOneCommand thiz env
      .ok (r.1.ret, r.2)
  | .frame fromBoard => thiz.processOneResponse fromBoard
  | .disconnect => .ok (.ok, closeConnection thiz)

end Wsn
