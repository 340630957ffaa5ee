import RedisSmq.Lib.Js.Arithmetic
import RedisSmq.Lib.Js.Decimal
import RedisSmq.Lib.Js.Json
import RedisSmq.Lib.Js.LowerCase
import RedisSmq.Lib.Js.Number
import RedisSmq.Lib.Js.Properties
import RedisSmq.Lib.Js.Strings
import RedisSmq.Lib.Js.Value
import RedisSmq.Lib.Machine
import RedisSmq.Lib.Timers
import RedisSmq.Lib.Callbacks
import RedisSmq.Lib.Tokens
import RedisSmq.Lib.SortedSet
import RedisSmq.Lib.Bags
import RedisSmq.Lib.Ranges
import RedisSmq.Lib.ListKeys
import RedisSmq.Lib.Objects
import RedisSmq.Message
import RedisSmq.MessageText
import RedisSmq.RedisKeys
import RedisSmq.Db
import RedisSmq.Effects
import RedisSmq.Scheduler.Timestamp
import RedisSmq.Scheduler.Cron
import RedisSmq.MessageManager
import RedisSmq.Broker
import RedisSmq.Scheduler.Repeat
import RedisSmq.Queue.System
import RedisSmq.Queue.Steps
import RedisSmq.Queue.Origin
import RedisSmq.Queue.Scheduled
import RedisSmq.Scheduler.Tick
import RedisSmq.Queue.Hands
import RedisSmq.Queue.Board
import RedisSmq.Queue.OneCopy
import RedisSmq.Queue.PriorityStore
import RedisSmq.Queue.Modes
import RedisSmq.Queue.Deletion
import RedisSmq.Queue.Reader
import RedisSmq.Queue.Pagination
import RedisSmq.Queue.Requests
import RedisSmq.Queue.Copies
import RedisSmq.Queue.Retries
import RedisSmq.Queue.RetryDelay
import RedisSmq.Queue.Home
import RedisSmq.Queue.DueTime
import RedisSmq.Queue.Finished
import RedisSmq.Queue.Stages
import RedisSmq.Queue.Turns
import RedisSmq.Queue.ActorTurns
import RedisSmq.Queue.Lives
import RedisSmq.Queue.Verdicts
import RedisSmq.Queue.Progress
import RedisSmq.Management.Calls
import RedisSmq.Management.Reports
import RedisSmq.Stats.Data
import RedisSmq.Gc.Worker
import RedisSmq.Gc.Recovery
import RedisSmq.Gc.Namespaces
import RedisSmq.Gc.System
import RedisSmq.Gc.Liveness
import RedisSmq.Consumer.Delivery
import RedisSmq.Consumer.System
import RedisSmq.Consumer.Settlement
import RedisSmq.Lib.Connection
import RedisSmq.Consumer.Heartbeat
import RedisSmq.Queue.Equivalence
import RedisSmq.Queue.Stores
import RedisSmq.Queue.PriorityOrder
import RedisSmq.Queue.Orphans
import RedisSmq.RedisClient.Scripts
import RedisSmq.RedisClient.ListMove
import RedisSmq.RedisClient.Instances
import RedisSmq.Common.Names
import RedisSmq.Common.NameGrammar
import RedisSmq.Common.KeyText
import RedisSmq.Stats.QueueSize
import RedisSmq.Stats.Worker
import RedisSmq.Stats.Rates
import RedisSmq.Stats.CleanUp
import RedisSmq.Stats.Totals
import RedisSmq.Deployment.System
import RedisSmq.Deployment.Expiry
import RedisSmq.Process.System
import RedisSmq.Process.Isolation
import RedisSmq.Common.EntryPoints
import RedisSmq.Common.Ticker
import RedisSmq.Tickers.System
import RedisSmq.Tickers.Safety
import RedisSmq.Common.LockManager
import RedisSmq.Locks.System
import RedisSmq.Locks.Follows
import RedisSmq.Locks.Quit
import RedisSmq.Queue.SequenceId
import RedisSmq.Common.WorkerRunner
import RedisSmq.Workers.System
import RedisSmq.Workers.Phases
import RedisSmq.Workers.Quit
import RedisSmq.Workers.Exclusion
import RedisSmq.Workers.OnTick
import RedisSmq.Workers.Ticking
import RedisSmq.LifeCycle.System
import RedisSmq.LifeCycle.StartUp
import RedisSmq.LifeCycle.Calls
import RedisSmq.LifeCycle.Produce
import RedisSmq.LifeCycle.Restarts
import RedisSmq.Lib.KeySpace
import RedisSmq.MessageJson
import RedisSmq.DbText
import RedisSmq.Queue.Texts
import RedisSmq.Lib.Deque
import RedisSmq.Queue.LifoOrder
import RedisSmq.Stats.MessageRate
import RedisSmq.Monitor.System
import RedisSmq.Monitor.Rates
import RedisSmq.Deployment.Orderly
import RedisSmq.Deployment.Refinement
