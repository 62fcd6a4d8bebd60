import CcController.Lib.Heap
import CcController.Lib.Run
import CcController.Error
import CcController.Queue
import CcController.HashTable
import CcController.Xid
import CcController.ByteOrder
import CcController.OpenFlow
import CcController.OfMsgCheck
import CcController.MessageBounds
import CcController.Buffer
import CcController.OfMsgCreate
import CcController.OfMsgRecv
import CcController.SecureChannel
import CcController.Dispatch
import CcController.Requests
import CcController.Transmission
import CcController.Rejection
import CcController.ErrorMaps
import CcController.HostOrder
import CcController.OfAction
import CcController.Builders
import CcController.BuilderXid
import CcController.Encoding
import CcController.BuilderMessages
import CcController.BuilderResults
import CcController.BuilderAccepted
import CcController.ReplyAccepted
import CcController.Lib.Ending
import CcController.Termination
import CcController.Acceptance
import CcController.FlowStats
import CcController.HandlerReads
import CcController.RequestXids
import CcController.Outstanding
import CcController.ThreadRoutine
import CcController.HashDelete
import CcController.ActionLengths
import CcController.PortMod
import CcController.ReplyBodies
import CcController.PacketQueues
import CcController.RoundTrip
import CcController.Conversions
import CcController.SingleLink
import CcController.QueueDelete
import CcController.BufferMemory
import CcController.Ether
import CcController.ActionsToString
import CcController.Receiving
import CcController.Handshake
import CcController.FeaturesReply
import CcController.Lib.OnesComplement
import CcController.Checksum
import CcController.XidChains
import CcController.Lib.Frame
import CcController.Connection
import CcController.Turns
import CcController.Interleaving
import CcController.Sending
import CcController.Exchange
import CcController.Ownership
import CcController.Shutdown
import CcController.HashDestroy
import CcController.ListRelease
import CcController.Lib.Descriptors
import CcController.Server
import CcController.Processes
import CcController.Listening
import CcController.Isolation
import CcController.Survival
import CcController.Finalize
