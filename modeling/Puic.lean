import Puic.Lib.Run
import Puic.Lib.WakeList
import Puic.Lib.GapList
import Puic.Lib.Links
import Puic.Lib.Indexed
import Puic.Lib.Wire
import Puic.Lib.LinkedMap
import Puic.Lib.IntervalSet
import Puic.Lib.Halting
import Puic.Lib.Duplex
import Puic.Lib.SortedMap
import Puic.SendPool
import Puic.ConnTable
import Puic.Dialer
import Puic.Listener
import Puic.Endpoints
import Puic.SequencerBuffer
import Puic.BufferRead
import Puic.ReadBytes
import Puic.BufferMap
import Puic.ReadableRegions
import Puic.Sequencer
import Puic.Relay
import Puic.RelaySpec
import Puic.RelayPinned
import Puic.RelayFidelity
import Puic.RelayShutdown
import Puic.SendStream
import Puic.Backpressure
import Puic.StreamSendBuffer
import Puic.PendingRetransmissions
import Puic.WriteScheduler
import Puic.ReadyLists
import Puic.BatchWrite
import Puic.Session
import Puic.SessionMoves
import Puic.SessionSound
import Puic.SessionSteps
import Puic.SessionRegistry
import Puic.SessionPreset
import Puic.SessionCounts
import Puic.SessionWake
import Puic.DialerClose
import Puic.ServerConn
import Puic.PublicHeader
import Puic.Demux
import Puic.ReceiveWindow
import Puic.ReceiveStream
import Puic.ReceiveSane
import Puic.StreamWindow
import Puic.SessionWindow
import Puic.FinalSize
import Puic.PacketNumberQueue
import Puic.PacketNumberSet
import Puic.Replay
import Puic.UnackedPacketMap
import Puic.SentPackets
import Puic.SentMoves
import Puic.FrameCustody
import Puic.SentAccounting
import Puic.FrameAcks
import Puic.LossDetection
import Puic.Epoch
import Puic.UFloat16
import Puic.AckParse
import Puic.AckEncode
import Puic.AckTruncation
import Puic.Frames
import Puic.PacketNumberLength
import Puic.AckState
import Puic.AckExchange
import Puic.PacketCreator
import Puic.PacketGenerator
import Puic.SendTermination
import Puic.PacketSize
import Puic.BufferedPacketStore
import Puic.HandshakeMessage
import Puic.CryptoFramer
import Puic.CachedState
import Puic.SourceAddressToken
import Puic.BbrSender
import Puic.WindowedFilter
