import Libanet.Proofs.BufferCodec
import Libanet.Proofs.BufferString
import Libanet.Proofs.ConnTeardown
import Libanet.Proofs.EPollAgreement
import Libanet.Proofs.GracefulShutdown
import Libanet.Proofs.InetAddress
import Libanet.Proofs.LogTimeCache
import Libanet.Proofs.LoopStart
import Libanet.Proofs.DisabledChannels
import Libanet.Proofs.Ownership
import Libanet.Proofs.ServerDestroy
import Libanet.Proofs.TimerArming
import Libanet.Proofs.TimerIdentity
import Libanet.Proofs.ZoneFileSafety
import Libanet.Proofs.AsyncLog
import Libanet.Proofs.BlockingQueue
import Libanet.Proofs.ThreadPool
import Libanet.Proofs.CountDownLatch
import Libanet.Proofs.GregorianCalendar
import Libanet.Proofs.StreamMemory
import Libanet.Proofs.AppendFile
import Libanet.Proofs.LogFile
import Libanet.Proofs.SendBuffer
import Libanet.Proofs.StaleCancel
import Libanet.Proofs.EventLoopThreadPool
import Libanet.Proofs.SelfConnect
import Libanet.Proofs.ProcName
import Libanet.Proofs.ActiveChannels
import Libanet.Proofs.AddressText
import Libanet.Proofs.LogPipeline
import Libanet.Proofs.PollReports
import Libanet.Lib.Descriptors
import Libanet.Net.Acceptor
import Libanet.Proofs.Acceptor
import Libanet.Base.BlockingQueue
import Libanet.Proofs.UnboundedQueue
import Libanet.Proofs.FlowControl
import Libanet.Proofs.ManySenders
import Libanet.Lib.SortedText
import Libanet.Base.IsoString
import Libanet.Proofs.TextOrder
import Libanet.Base.ReadSmallFile
import Libanet.Proofs.ReadSmallFile
import Libanet.Proofs.EventsGrowth
import Libanet.Proofs.PieceOrder
import Libanet.Net.ReceiveBuffer
import Libanet.Proofs.Delivery
import Libanet.Net.DelayedClose
import Libanet.Proofs.DelayedClose
import Libanet.Lib.Search
import Libanet.Net.BufferSearch
import Libanet.Proofs.BufferSearch
