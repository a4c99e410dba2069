import FxServer.ProcessBus.Reopen
import FxServer.ProcessBus.Mapped
import FxServer.ProcessBusManager.Sharing
import FxServer.Buffer.Queue
import FxServer.BlockingQueue
import FxServer.Headcount
import FxServer.Machine
import FxServer.MixedRadix
import FxServer.TimerWheel.Deadlines
import FxServer.TimerWheel.Wraparound
import FxServer.TimerWheel.EarlyTimers
import FxServer.TimerWheel.Rewind
import FxServer.TimerWheel.SleepQueue
import FxServer.TimerWheel.Narrowing
import FxServer.TimerWheel.Indices
import FxServer.TimerWheel.FindPos
import FxServer.TimerWheel.Order
import FxServer.TimerWheel.Conservation
import FxServer.RingBuffer.Messages
import FxServer.RingBuffer.Shared
import FxServer.RingBuffer.Delivery
import FxServer.RingBuffer.Admission
import FxServer.ProcessBus.Attach
import FxServer.ProcessBus.Crash
import FxServer.EventLoop.WakeUp
import FxServer.EventLoop.Timeout
import FxServer.EventLoop.Iterations
import FxServer.EventLoopThreadPool
import FxServer.TcpConnection.Output
import FxServer.TcpConnection.Input
import FxServer.TcpConnection.Ends
import FxServer.TcpConnection.Interest
import FxServer.System.Lifecycle
import FxServer.System.ReadAfterClose
import FxServer.System.Flush
import FxServer.System.Poller
import FxServer.System.Callbacks
import FxServer.System.Connecting
import FxServer.System.Refused
import FxServer.System.Connected
import FxServer.System.Dispatch
import FxServer.Slice.Find
import FxServer.Slice.Table
import FxServer.Slice.InternalFind
import FxServer.HTTPCodec.Assertions
import FxServer.HTTPCodec.HeaderLines
import FxServer.HTTPServer.Verdict
import FxServer.HTTPServer.DocumentRoot
import FxServer.HTTPServer.Candidates
import FxServer.HTTPServer.Framing
import FxServer.HTTPServer.Answers
import FxServer.HTTPServer.Served
import FxServer.HTTPServer.Download
