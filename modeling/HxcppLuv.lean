import HxcppLuv.Core.Machine
import HxcppLuv.Core.Collected
import HxcppLuv.Core.Ledger
import HxcppLuv.Core.Nested
import HxcppLuv.File.ReadWhole
import HxcppLuv.File.Fence
import HxcppLuv.Directory.Close
import HxcppLuv.Directory.Iter
import HxcppLuv.Directory.Overlap
import HxcppLuv.Tcp.Server
import HxcppLuv.Process.Output
import HxcppLuv.Process.Spawn
import HxcppLuv.Process.Command
import HxcppLuv.Process.Inputs
import HxcppLuv.Process.Child
import HxcppLuv.Process.Wiring
import HxcppLuv.Process.Reports
import HxcppLuv.Process.Parent
import HxcppLuv.Process.Pairs
import HxcppLuv.Process.Start
import HxcppLuv.Process.Program
import HxcppLuv.Asio.Operations
import HxcppLuv.Stream.Model
import HxcppLuv.Stream.Subscription
import HxcppLuv.Signal.Watcher
import HxcppLuv.Request.Model
import HxcppLuv.Request.Ledger
import HxcppLuv.Gc.Model
import HxcppLuv.Gc.Zone
import HxcppLuv.Loop.Memory
import HxcppLuv.Loop.Data
import HxcppLuv.Loop.Construct
import HxcppLuv.Loop.Advance
import HxcppLuv.Loop.Shutdown
import HxcppLuv.Loop.Release
import HxcppLuv.File.Chain
import HxcppLuv.File.Position
import HxcppLuv.Timer.Model
import HxcppLuv.Timer.View
import HxcppLuv.Timer.Lifecycle
import HxcppLuv.Request.Buffers
import HxcppLuv.Timer.Repeat
import HxcppLuv.Stream.Write
import HxcppLuv.Stream.WriteQueue
import HxcppLuv.Pool.Model
import HxcppLuv.Pool.Works
import HxcppLuv.Pool.Schedule
import HxcppLuv.Pool.Progress
import HxcppLuv.Async.Model
import HxcppLuv.Async.Steps
import HxcppLuv.Async.Wakeup
import HxcppLuv.Async.Progress
import HxcppLuv.Core.BinaryHeap
import HxcppLuv.Core.Calls
import HxcppLuv.Core.Descriptors
import HxcppLuv.Heap.Model
import HxcppLuv.Heap.Ring
import HxcppLuv.Heap.Contents
import HxcppLuv.Timer.Refine
import HxcppLuv.Process.Reports
import HxcppLuv.Process.Parent
import HxcppLuv.Process.Pairs
import HxcppLuv.Process.Start
import HxcppLuv.Process.Program
