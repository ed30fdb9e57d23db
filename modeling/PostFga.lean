import PostFga.Lib.CString
import PostFga.Lib.HashTable
import PostFga.Lib.Transition
import PostFga.Lib.Simulation
import PostFga.Lib.Lru
import PostFga.Cache.Key
import PostFga.Cache.L2
import PostFga.Cache.L2Inv
import PostFga.Cache.L1
import PostFga.Cache.Victim
import PostFga.Cache.Recency
import PostFga.Cache.TwoLevel
import PostFga.Cache.KeyDetermined
import PostFga.Cache.Sound
import PostFga.Payload
import PostFga.Client.Calls
import PostFga.Client.Batch
import PostFga.Sql.Request
import PostFga.Sql.Check
import PostFga.Sql.Wire
import PostFga.Lib.SList
import PostFga.Channel.Queue
import PostFga.Channel.Fifo
import PostFga.Channel.Slot
import PostFga.Channel.Wait
import PostFga.Channel.Handshake
import PostFga.Channel.System
import PostFga.Channel.Effects
import PostFga.Channel.TenancyWorker
import PostFga.Channel.Isolation
import PostFga.Channel.Stranded
import PostFga.Channel.Accounting
import PostFga.Worker.Reload
import PostFga.Lib.Merge
import PostFga.Client.Completion
import PostFga.Lib.PgTry
import PostFga.Sql.ErrorPaths
import PostFga.Worker.Latch
import PostFga.Lib.Smear
import PostFga.Channel.Capacity
import PostFga.Sql.Effective
import PostFga.Worker.Completions
import PostFga.Lib.Delimited
import PostFga.Cache.KeyEncoding
import PostFga.Sql.KeyLimits
import PostFga.Sql.TypedIds
import PostFga.Lib.WrappedCounter
import PostFga.Cache.Clock
import PostFga.Lib.Layout
import PostFga.Shmem.Size
import PostFga.Channel.Sizing
import PostFga.Shmem.Layout
import PostFga.Lib.Potential
import PostFga.Channel.SlotPid
import PostFga.Channel.BackendLatch
import PostFga.Channel.Order
import PostFga.Channel.WorkBound
import PostFga.Channel.Progress
import PostFga.Channel.RequestIds
import PostFga.Channel.EndToEnd
import PostFga.Lib.SecondChance
import PostFga.Cache.Eviction
import PostFga.Channel.Service
import PostFga.Channel.Atomic
import PostFga.Fdw.Options
import PostFga.Fdw.Scan
import PostFga.Lib.Totals
import PostFga.Cache.Stats
import PostFga.Channel.Orphans
import PostFga.Worker.Lifetimes
import PostFga.Worker.Replacements
