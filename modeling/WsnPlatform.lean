import WsnPlatform.FaultRun
import WsnPlatform.FixedBuffer
import WsnPlatform.Util
import WsnPlatform.NodePacket
import WsnPlatform.ReassemblyRuns
import WsnPlatform.ReassemblyInterleave
import WsnPlatform.ReassemblyLoss
import WsnPlatform.ReassemblyCurrent
import WsnPlatform.ResponseType
import WsnPlatform.CurrentPacket
import WsnPlatform.RejectedFrame
import WsnPlatform.DList
import WsnPlatform.DListRuns
import WsnPlatform.DListAccess
import WsnPlatform.GatherBoard
import WsnPlatform.PacketTransfer
import WsnPlatform.CommandSet
import WsnPlatform.HostStream
import WsnPlatform.UntrustedInput
import WsnPlatform.CommandBytes
import WsnPlatform.CommandRecords
import WsnPlatform.Reset
import WsnPlatform.ServerPacket
import WsnPlatform.CScan
import WsnPlatform.CText
import WsnPlatform.PrintfDouble
import WsnPlatform.HexParser
import WsnPlatform.HexRecord
import WsnPlatform.HexFile
import WsnPlatform.HexFlash
import WsnPlatform.Reprogrammer
import WsnPlatform.Deployer
import WsnPlatform.CommandRun
import WsnPlatform.PatternSearch
import WsnPlatform.Ledger
import WsnPlatform.TelnetCommander
import WsnPlatform.TelnetLogin
import WsnPlatform.TelnetHandles
import WsnPlatform.FtpUploader
import WsnPlatform.FtpReplies
import WsnPlatform.FtpPut
import WsnPlatform.FtpSockets
import WsnPlatform.CallRow
import WsnPlatform.TargetResources
import WsnPlatform.TargetCodes
import WsnPlatform.CommandFile
import WsnPlatform.ConfigJson
import WsnPlatform.ByteRecords
import WsnPlatform.PcapFile
import WsnPlatform.DeployerOwnership
import WsnPlatform.ByteStuffing
import WsnPlatform.Escaping
import WsnPlatform.PassivePort
import WsnPlatform.PassiveReply
import WsnPlatform.CommandBuffer
import WsnPlatform.HexReception
import WsnPlatform.HexLineEnd
import WsnPlatform.HexAccepted
import WsnPlatform.PartialTransfer
import WsnPlatform.TelnetSend
import WsnPlatform.BoardRequests
import WsnPlatform.FtpCommands
import WsnPlatform.PcapPacket
import WsnPlatform.ReceiveBuffers
import WsnPlatform.QMethod
import WsnPlatform.TelnetOptions
import WsnPlatform.InPlace
import WsnPlatform.TelnetSubnegotiation
import WsnPlatform.TelnetMssp
import WsnPlatform.TelnetReceiver
import WsnPlatform.TelnetWire
import WsnPlatform.TelnetMessages
import WsnPlatform.TelnetPassive
import WsnPlatform.TelnetRequests
import WsnPlatform.TelnetPeers
import WsnPlatform.JsonItem
import WsnPlatform.JsonString
import WsnPlatform.JsonParser
import WsnPlatform.JsonGrammar
import WsnPlatform.JsonPrinter
import WsnPlatform.JsonRoundTrip
import WsnPlatform.JsonConfig
import WsnPlatform.GpioDriver
import WsnPlatform.BoardLines
