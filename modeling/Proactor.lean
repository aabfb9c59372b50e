import Proactor.Core.Transition
import Proactor.Core.Loop
import Proactor.Core.Chain
import Proactor.Core.RingIndex
import Proactor.Core.Chunked
import Proactor.Output.SendQueue
import Proactor.Output.SendQueueSpec
import Proactor.Output.HandOut
import Proactor.Output.WriteContext
import Proactor.Output.WriteRun
import Proactor.Output.Progress
import Proactor.Output.Full
import Proactor.Input.ChunkPool
import Proactor.Input.ChunkPoolSpec
import Proactor.Input.InputChainBuffer
import Proactor.Input.InputChainSpec
import Proactor.Input.InputRun
import Proactor.Input.View
import Proactor.Input.Consumption
import Proactor.Connection.ReadContext
import Proactor.Connection.BufferRefinement
import Proactor.Connection.Session
import Proactor.Connection.Moves
import Proactor.Connection.ReadProtocol
import Proactor.Connection.ReadBackpressure
import Proactor.Connection.BufferExhaustion
import Proactor.Connection.WriteProtocol
import Proactor.Connection.Placement
import Proactor.Connection.Wakeup
import Proactor.Connection.WriteBackpressure
import Proactor.Connection.Lifetime
import Proactor.Connection.LoopCoroutine
import Proactor.Connection.FinishedCoroutine
import Proactor.Connection.ClosedFd
import Proactor.Connection.Holding
import Proactor.Connection.OpenRun
import Proactor.Connection.Echo
import Proactor.Connection.Delivery
import Proactor.Connection.EchoProgram
import Proactor.Connection.EchoServers
import Proactor.Connection.SharedPool
import Proactor.Connection.Requests
import Proactor.Connection.Pinning
import Proactor.Connection.Awaits
import Proactor.Connection.EchoProgress
import Proactor.Connection.EchoAnswers
import Proactor.Core.Slots
import Proactor.IoUring.SubmitQueue
import Proactor.IoUring.Drain
import Proactor.Connection.SharedLoop
import Proactor.Core.Tagged
import Proactor.Connection.SharedQueues
import Proactor.IoUring.EventLoop
import Proactor.IoUring.PendingFunctors
import Proactor.IoUring.Quit
import Proactor.IoUring.LoopThread
import Proactor.IoUring.ThreadEnd
import Proactor.Pool.ThreadPool
import Proactor.Pool.Shutdown
import Proactor.Pool.Resumption
import Proactor.Pool.SwitchThread
import Proactor.Pool.Coroutines
import Proactor.Core.OrderedMap
import Proactor.Timer.TimerQueue
import Proactor.Timer.HandleRead
import Proactor.Timer.Cancel
import Proactor.Timer.Period
import Proactor.Timer.Handoff
import Proactor.Timer.TimerStore
import Proactor.Timer.Representation
import Proactor.Core.Checked
import Proactor.Timer.Timeout
import Proactor.Coroutine.Task
import Proactor.Server.Acceptor
import Proactor.Server.TcpServer
import Proactor.Server.ConnectionTable
import Proactor.Server.Attendance
import Proactor.Server.Boot
import Proactor.Server.Descriptors
import Proactor.Server.Ownership
import Proactor.Server.Teardown
