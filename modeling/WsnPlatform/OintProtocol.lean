/-
**The three packet layouts of `src/app/oint_protocol.h`.**

* Node layer: `0x7E | direction | 0 | destination (2) | source (2) | payload length | group | AM
  type | payload | CRC (2) | 0x7E`; the first payload byte is its type.
* Board layer: a command is a port byte before a node packet; a response is 16 bytes, `port and data
  length | time stamp (4) | data (10) | check byte`.
* Server layer: a command is a 2-byte big-endian length before a board packet; a response is `packet
  length (2) | node id | time stamp and node length (2) | time stamp (4) | node packet | CRC (2)`.

Widths and indices are natural numbers, byte values are `UInt8`.  They unfold under `simp`.
-/

import Mathlib

set_option relaxedAutoImplicit false
set_option autoImplicit false

namespace Wsn

/-! ### Node layer -/

@[simp] def nodeDelimiterIndex : ℕ := 0
@[simp] def nodeDirectionIndex : ℕ := 1
@[simp] def nodeSrcNodeIdIndex : ℕ := 5
@[simp] def nodePayloadLenIndex : ℕ := 7
@[simp] def nodePayloadTypeIndex : ℕ := 10
@[simp] def nodePayloadDataIndex : ℕ := 11
@[simp] def nodePayloadTypeWidth : ℕ := 1

@[simp] def nodeDirectionFromNode : UInt8 := 0x45
@[simp] def nodeDelimiter : UInt8 := 0x7E
@[simp] def nodeEscape : UInt8 := 0x7D

/-- `0x7E` becomes `0x5E`, `0x7D` becomes `0x5D`. -/
def nodeDelimiterTransfer (c : UInt8) : UInt8 := c - 0x20

/-- The command a response answers, as the `int` that the macro computes. -/
def nodeTypeConvertRespToCmd (resp : UInt8) : ℕ := resp.toNat + 0x20

@[simp] def nodePayloadTypeRespNodeId : UInt8 := 0x13
@[simp] def nodePayloadTypeRespCurrent : UInt8 := 0x19
@[simp] def nodePayloadTypeCmdCurrent : UInt8 := 0x39
@[simp] def nodePayloadTypeCmdPowerSwitch : UInt8 := 0x54

/-! ### Board layer -/

@[simp] def cmdBPacketMaxSize : ℕ := 50
@[simp] def cmdBHeaderLen : ℕ := 1
@[simp] def cmdBPortIdIndex : ℕ := 0
@[simp] def cmdBPayloadTypeIndex : ℕ := nodePayloadTypeIndex + cmdBHeaderLen

/-- `Base + PortID`, the one-byte commands that address the FPGA itself. -/
def getBoardCmdWithPortId (base id : UInt8) : UInt8 := base + id

@[simp] def cmdBNodeOpenBase : UInt8 := 0x30
@[simp] def cmdBNodeCloseBase : UInt8 := 0x40

@[simp] def respBPacketMaxSize : ℕ := 16
@[simp] def respBDataLenMax : UInt8 := 10
@[simp] def respBHeaderLen : ℕ := 5
@[simp] def respBPortIdDataLenIndex : ℕ := 0
@[simp] def respBTimeStampIndex : ℕ := 1
@[simp] def respBTimeStampWidth : ℕ := 4
@[simp] def respBCurrentIndex : ℕ := respBHeaderLen
@[simp] def respBCurrentWidth : ℕ := 2
@[simp] def respBTypeIndex : ℕ := respBHeaderLen + nodePayloadTypeIndex
@[simp] def respBEvenCheckIndex : ℕ := respBPacketMaxSize - 1

@[simp] def respBPacketTypeInvalid : UInt8 := 0xFF
@[simp] def respBPacketTypeCurrent : UInt8 := 0xF

def respBGetPortId (header : UInt8) : UInt8 := (header >>> 4) &&& 0xF

def respBGetDataLen (header : UInt8) : UInt8 := header &&& 0xF

/-- The header byte of a board response: port in the high nibble, data length in the low one. -/
def respBHeader (port len : UInt8) : UInt8 := (port <<< 4) ||| len

/-- Both nibbles of a header are read back. -/
theorem respBHeader_fields : ∀ port < 16, ∀ len < 16,
    respBGetPortId (respBHeader (.ofNat port) (.ofNat len)) = .ofNat port ∧
      respBGetDataLen (respBHeader (.ofNat port) (.ofNat len)) = .ofNat len := by
  decide

/-! ### Server layer -/

@[simp] def cmdSHeaderLen : ℕ := 2

@[simp] def respSHeaderLen : ℕ := 9
@[simp] def respSNodeIdIndex : ℕ := 2
@[simp] def respSTimeNodeLenIndex : ℕ := 3
@[simp] def respSTimestampIndex : ℕ := 5
@[simp] def respSTimestampWidth : ℕ := 4
@[simp] def respSCrcWidth : ℕ := 2

end Wsn
