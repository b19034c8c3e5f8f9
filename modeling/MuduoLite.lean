import MuduoLite.Library.Transition
import MuduoLite.Buffer.Disclosure
import MuduoLite.Buffer.Capacity
import MuduoLite.Buffer.Sized
import MuduoLite.Loop.FunctorQueue
import MuduoLite.Loop.DisabledChannel
import MuduoLite.Loop.PollingLoop
import MuduoLite.Loop.EventLoopThread
import MuduoLite.Loop.FirstPoll
import MuduoLite.Loop.ThreadEnd
import MuduoLite.Pool.Assignment
import MuduoLite.Pool.ThreadPool
import MuduoLite.Connection.CallerStorage
import MuduoLite.Connection.FileOrder
import MuduoLite.Connection.FileChain
import MuduoLite.Connection.WriteComplete
import MuduoLite.Connection.Quiescence
import MuduoLite.Connection.StateOrder
import MuduoLite.Connection.HalfClose
import MuduoLite.Connection.FileHalfClose
import MuduoLite.Connection.FileRetry
import MuduoLite.Connection.CallOrder
import MuduoLite.Connection.Callbacks
import MuduoLite.Connection.Polling
import MuduoLite.Connection.HighWater
import MuduoLite.Timer.Arming
import MuduoLite.Timer.Cancel
import MuduoLite.Timer.Requests
import MuduoLite.Timer.Deadline
import MuduoLite.Timer.Repeat
import MuduoLite.Timer.Teardown
import MuduoLite.Server.DeferredCalls
import MuduoLite.Server.Lifecycle
import MuduoLite.Server.DestroyedServer
import MuduoLite.Server.Registry
import MuduoLite.Server.Streams
import MuduoLite.Server.InetAddress
import MuduoLite.Server.Startup
import MuduoLite.Server.Idle
