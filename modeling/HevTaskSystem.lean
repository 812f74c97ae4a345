import HevTaskSystem.Foundation.Loop
import HevTaskSystem.Foundation.RedBlack
import HevTaskSystem.RBTree.Memory
import HevTaskSystem.RBTree.Representation
import HevTaskSystem.RBTree.Insert
import HevTaskSystem.RBTree.EraseColor
import HevTaskSystem.RBTree.Erase
import HevTaskSystem.RBTree.Operations
import HevTaskSystem.RBTree.Navigate
import HevTaskSystem.RBTree.Cached
import HevTaskSystem.RBTree.Sorted
import HevTaskSystem.Scheduler.Context
import HevTaskSystem.Scheduler.Invariant
import HevTaskSystem.Scheduler.Polling
import HevTaskSystem.Scheduler.System
import HevTaskSystem.Scheduler.Pool
import HevTaskSystem.Foundation.Linked
import HevTaskSystem.List.HevList
import HevTaskSystem.Channel.Ring
import HevTaskSystem.Channel.Channel
import HevTaskSystem.Channel.System
import HevTaskSystem.Channel.Effect
import HevTaskSystem.Channel.Invariant
import HevTaskSystem.Channel.Lists
import HevTaskSystem.Channel.Run
import HevTaskSystem.Channel.Delivery
import HevTaskSystem.Channel.Synchronous
import HevTaskSystem.Channel.Wakeup
import HevTaskSystem.Channel.Readiness
import HevTaskSystem.Channel.Sleep
import HevTaskSystem.Sync.Cond
import HevTaskSystem.Sync.System
import HevTaskSystem.Sync.Invariant
import HevTaskSystem.Sync.Waiters
import HevTaskSystem.Sync.Run
import HevTaskSystem.Buffer.Circular
import HevTaskSystem.Task.Join
import HevTaskSystem.Foundation.FairQueue
import HevTaskSystem.Scheduler.Keys
import HevTaskSystem.Scheduler.Fairness
import HevTaskSystem.Scheduler.Shares
import HevTaskSystem.Foundation.Chain
import HevTaskSystem.Foundation.Ledger
import HevTaskSystem.Memory.Slice
import HevTaskSystem.Memory.SliceCache
import HevTaskSystem.Memory.SliceRun
import HevTaskSystem.Time.Clock
import HevTaskSystem.Time.Timer
import HevTaskSystem.Time.TimerSystem
import HevTaskSystem.Time.TimerInvariant
import HevTaskSystem.Time.Wakeups
import HevTaskSystem.Time.Timestamp
import HevTaskSystem.Time.TimedWait
import HevTaskSystem.Channel.Lifetime
import HevTaskSystem.Memory.SliceSize
import HevTaskSystem.Scheduler.WakeOrder
import HevTaskSystem.Reactor.FdRegistry
import HevTaskSystem.Reactor.Tokens
import HevTaskSystem.RBTree.Search
import HevTaskSystem.Reactor.Iocp
import HevTaskSystem.Reactor.IocpInvariant
import HevTaskSystem.Reactor.IocpSystem
import HevTaskSystem.Reactor.Backends
import HevTaskSystem.Reactor.Retarget
import HevTaskSystem.Foundation.Script
import HevTaskSystem.Io.Socket
import HevTaskSystem.Foundation.Relay
import HevTaskSystem.Io.Splice
import HevTaskSystem.Aide.Aide
import HevTaskSystem.Aide.Lifetime
import HevTaskSystem.Dns.Proxy
import HevTaskSystem.Dns.Invariant
import HevTaskSystem.Dns.Protocol
import HevTaskSystem.Channel.Layout
import HevTaskSystem.Io.Ancillary
import HevTaskSystem.Time.Timeout
import HevTaskSystem.Time.SleepTime
import HevTaskSystem.Reactor.Allocation
import HevTaskSystem.RBTree.Iterate
import HevTaskSystem.RBTree.Rebalance
import HevTaskSystem.Foundation.Edge
import HevTaskSystem.Io.Calls
import HevTaskSystem.Io.Wakeups
import HevTaskSystem.Foundation.Footprint
import HevTaskSystem.Foundation.Owners
import HevTaskSystem.Sys.Sockets
import HevTaskSystem.Task.Lifecycle
import HevTaskSystem.RBTree.Height
import HevTaskSystem.Reactor.Agreement
import HevTaskSystem.Sys.Poll
import HevTaskSystem.Foundation.Align
import HevTaskSystem.Foundation.Symbolic
import HevTaskSystem.Task.Execute
import HevTaskSystem.Task.Stack
import HevTaskSystem.Task.StackRange
