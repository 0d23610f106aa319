import Sstoraged.Overlay
import Sstoraged.BufferChain
import Sstoraged.Common
import Sstoraged.WriteSegment
import Sstoraged.DiskWriter
import Sstoraged.Runs
import Sstoraged.LbaIndex
import Sstoraged.WriteCache
import Sstoraged.WriteCacheMerge
import Sstoraged.WriteBack
import Sstoraged.Iscsi
import Sstoraged.CommonBuf
import Sstoraged.Volume
import Sstoraged.Task
import Sstoraged.SendCache
import Sstoraged.Session
import Sstoraged.DataIn
import Sstoraged.ReadHandler
import Sstoraged.ReadTiling
import Sstoraged.ReadPlan
import Sstoraged.ReadReply
import Sstoraged.ReadFormat
import Sstoraged.ReadYourWrites
import Sstoraged.SendQueue
import Sstoraged.SortedMap
import Sstoraged.VolumeMap
import Sstoraged.HandleMap
import Sstoraged.AioDiskWriter
import Sstoraged.DiskView
import Sstoraged.AioIocbs
import Sstoraged.AioQueue
import Sstoraged.AioLedger
import Sstoraged.AioAccounting
import Sstoraged.AioCompletion
import Sstoraged.AioDisk
import Sstoraged.DataSegment
import Sstoraged.WriteHandler
import Sstoraged.DataOut
import Sstoraged.WriteTransfer
import Sstoraged.ScsiHandlers
import Sstoraged.Beside
import Sstoraged.WriteBounds
import Sstoraged.IovecContainer
import Sstoraged.Tokenizer
import Sstoraged.TokenCursors
import Sstoraged.TokenStream
import Sstoraged.TokenWindow
import Sstoraged.TokenData
import Sstoraged.TokenRuns
import Sstoraged.Receiver
import Sstoraged.Framing
import Sstoraged.Connections
import Sstoraged.SessionSendTask
import Sstoraged.CommandWindow
import Sstoraged.R2TFlow
import Sstoraged.ReplyFraming
import Sstoraged.PairGenerator
import Sstoraged.WriteReplies
import Sstoraged.OutgoingFraming
import Sstoraged.Store
import Sstoraged.ReportLuns
import Sstoraged.ReplyData
import Sstoraged.ReplyLeaks
import Sstoraged.CdbBytes
import Sstoraged.Tsih
import Sstoraged.IntervalMap
import Sstoraged.IndexOrder
import Sstoraged.CacheTiling
import Sstoraged.CacheDelivery
import Sstoraged.Outcome
import Sstoraged.LoginSession
import Sstoraged.KeyValue
import Sstoraged.KeySteps
import Sstoraged.Target
import Sstoraged.Login
import Sstoraged.Logout
import Sstoraged.TargetRuns
import Sstoraged.LoginSteps
import Sstoraged.LoginRequired
import Sstoraged.LoginFixed
import Sstoraged.ReactorHandOff
import Sstoraged.CidLookup
import Sstoraged.Transfer
import Sstoraged.SendBuffers
import Sstoraged.SendfileRange
import Sstoraged.Backing
import Sstoraged.FifoTraversal
import Sstoraged.DiskWork
import Sstoraged.DiskFlush
import Sstoraged.AioSubmission
import Sstoraged.IocbBounds
import Sstoraged.ConnectionRemoval
import Sstoraged.WriterSetup
import Sstoraged.ReceiveRing
import Sstoraged.SelectiveFold
import Sstoraged.Negotiation
import Sstoraged.PoolLimits
import Sstoraged.ReplyBounds
import Sstoraged.PairSegment
import Sstoraged.PairBounds
import Sstoraged.Text
import Sstoraged.PairReturns
import Sstoraged.SelectLoop
import Sstoraged.Json
import Sstoraged.InitiatorInfo
import Sstoraged.PeerAuth
import Sstoraged.InitiatorReload
import Sstoraged.Counter
import Sstoraged.BufferCapacity
import Sstoraged.TokenAccounting
import Sstoraged.ConfigBinder
import Sstoraged.OrderedMap
import Sstoraged.TaggedConfigurator
import Sstoraged.RealVolume
import Sstoraged.VolumeInfo
import Sstoraged.Requests
import Sstoraged.StatSn
import Sstoraged.JsonValue
import Sstoraged.JsonReader
import Sstoraged.JsonTokens
import Sstoraged.JsonGrammar
import Sstoraged.JsonParsing
import Sstoraged.JsonErrors
import Sstoraged.JsonWriter
import Sstoraged.JsonNumbers
import Sstoraged.JsonRoundTrip
import Sstoraged.JsonSurvival
import Sstoraged.JsonProper
import Sstoraged.JsonMessages
import Sstoraged.JsonPlain
import Sstoraged.ConfiguratorImpl
import Sstoraged.ConfigFiles
import Sstoraged.SegmentWrites
import Sstoraged.CachedVolume
import Sstoraged.BlockDevice
import Sstoraged.DeviceRuns
