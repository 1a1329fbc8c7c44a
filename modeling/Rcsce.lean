import Rcsce.Lib.Machine
import Rcsce.Lib.OrderedDict
import Rcsce.Lib.Json
import Rcsce.Lib.TaskList
import Rcsce.Lib.Simulation
import Rcsce.Lib.Window
import Rcsce.Lib.JsonString
import Rcsce.Lib.JsonSyntax
import Rcsce.Lib.JsonPrefix
import Rcsce.Cache.LRUCache
import Rcsce.Cache.LayerScanCache
import Rcsce.Cache.RedisCoherence
import Rcsce.Cache.WarmRestart
import Rcsce.Scheduler.Job
import Rcsce.Scheduler.RedisQueue
import Rcsce.Scheduler.QueueCrash
import Rcsce.Scheduler.JobQueue
import Rcsce.Scheduler.WorkerRegistry
import Rcsce.Scheduler.WorkerPool
import Rcsce.Scheduler.Service
import Rcsce.Scheduler.ServiceMoves
import Rcsce.Scheduler.PoolMoves
import Rcsce.Scheduler.PoolSize
import Rcsce.Scheduler.LeastLoaded
import Rcsce.Scheduler.Tokens
import Rcsce.Scheduler.SingleExecution
import Rcsce.Scheduler.WorkerDeath
import Rcsce.Lib.PyM
import Rcsce.Cache.Provenance
import Rcsce.Scheduler.WorkerNode
import Rcsce.ControlPlane.StateStore
import Rcsce.ControlPlane.DockerListener
import Rcsce.ControlPlane.ScanPipeline
import Rcsce.ControlPlane.Masters
import Rcsce.ControlPlane.MirroredCritical
import Rcsce.ControlPlane.ActiveMaster
import Rcsce.Lib.Bisect
import Rcsce.Cache.HashRing
import Rcsce.Cache.CacheClient
import Rcsce.Cache.Copies
import Rcsce.Cache.CacheNode
import Rcsce.Cache.Superseded
import Rcsce.Cache.WriteThrough
import Rcsce.Cache.CacheTasks
import Rcsce.Cache.TtlSoundness
import Rcsce.Cache.LostWrite
import Rcsce.Cache.SharedRedis
import Rcsce.Scheduler.JobRequest
import Rcsce.ControlPlane.LayerKeys
import Rcsce.ControlPlane.ScanOnce
import Rcsce.Scheduler.SharedQueue
import Rcsce.Scheduler.Interchange
import Rcsce.Scheduler.RedisOutage
import Rcsce.ControlPlane.MasterStores
import Rcsce.ControlPlane.SharedSnapshot
import Rcsce.ControlPlane.LateAnswers
import Rcsce.ControlPlane.MirrorConvergence
import Rcsce.ControlPlane.AuditMirror
import Rcsce.Scheduler.RegistryGrowth
import Rcsce.ControlPlane.WorkerView
import Rcsce.ControlPlane.Persistence
import Rcsce.ControlPlane.CrashSave
import Rcsce.Cache.Disruption
import Rcsce.Cache.ClockwiseWalk
import Rcsce.Cache.ReaddedOwner
import Rcsce.ControlPlane.Promotion
import Rcsce.ControlPlane.LogMonitor
import Rcsce.Lib.Utf8
import Rcsce.Lib.PyText
import Rcsce.ControlPlane.LogStream
import Rcsce.ControlPlane.Replicas
import Rcsce.ControlPlane.ReplicaNames
import Rcsce.ControlPlane.Cascade
import Rcsce.ControlPlane.RecordedStatus
import Rcsce.ControlPlane.StartBranch
import Rcsce.Lib.Recency
import Rcsce.Cache.LruOrder
import Rcsce.Scheduler.LoadAccounting
import Rcsce.Lib.LiveList
import Rcsce.ControlPlane.Broadcast
import Rcsce.ControlPlane.CriticalFlag
import Rcsce.ControlPlane.FailedFailover
import Rcsce.ControlPlane.Restore
import Rcsce.Cache.ForeignWrites
import Rcsce.Cache.Statistics
import Rcsce.ControlPlane.CacheKeys
import Rcsce.Cache.StorageLru
import Rcsce.Lib.SortedJoin
import Rcsce.Scheduler.CompletedRetention
import Rcsce.Shared.ImageHash
import Rcsce.Lib.Board
import Rcsce.Scheduler.JobBoard
import Rcsce.Lib.Progress
import Rcsce.Scheduler.Drain
import Rcsce.Scheduler.FailureDetector
import Rcsce.Lib.Fifo
import Rcsce.Scheduler.DispatchOrder
import Rcsce.Lib.Reading
import Rcsce.ControlPlane.Delivery
import Rcsce.Scheduler.ScanCounts
import Rcsce.Cache.Retention
import Rcsce.Cache.ClientRouting
import Rcsce.ControlPlane.ReplicaLines
import Rcsce.Scheduler.EvenShares
import Rcsce.Lib.Origin
import Rcsce.ControlPlane.StoreCalls
import Rcsce.ControlPlane.Origins
import Rcsce.ControlPlane.StartLedger
import Rcsce.ControlPlane.Takeover
import Rcsce.ControlPlane.BroadcastRounds
import Rcsce.ControlPlane.QueueDepth
import Rcsce.ControlPlane.ScanResults
