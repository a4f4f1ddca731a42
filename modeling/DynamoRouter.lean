import DynamoRouter.Lib.Lts
import DynamoRouter.Lib.LazyLru
import DynamoRouter.Lib.RadixTree
import DynamoRouter.Lib.ChainFamily
import DynamoRouter.Lib.Recency
import DynamoRouter.Lib.HeapSize
import DynamoRouter.Lib.PointUpdates
import DynamoRouter.Lib.ListLoops
import DynamoRouter.Protocol.Chain
import DynamoRouter.MockTriton.Cache
import DynamoRouter.MockTriton.Service
import DynamoRouter.Lib.ListSums
import DynamoRouter.Lib.Amortized
import DynamoRouter.Lib.HeapWork
import DynamoRouter.Lib.Replay
import DynamoRouter.MockTriton.Replica
import DynamoRouter.MockTriton.Atomic
import DynamoRouter.MockTriton.Reference
import DynamoRouter.Router.PrefixCache
import DynamoRouter.Router.PrefixRefinement
import DynamoRouter.Router.PrefixEviction
import DynamoRouter.Router.Scheduler
import DynamoRouter.Router.SchedulerInvariant
import DynamoRouter.Router.HeapBound
import DynamoRouter.Router.HeapWork
import DynamoRouter.Router.RoundRobin
import DynamoRouter.Router.Mirror
import DynamoRouter.Router.Affinity
import DynamoRouter.Router.Decision
import DynamoRouter.Router.Server
import DynamoRouter.Router.PromptAgreement
import DynamoRouter.Router.Handlers
import DynamoRouter.Router.Moves
import DynamoRouter.Router.System
import DynamoRouter.Router.Prober
import DynamoRouter.Router.Inflight
import DynamoRouter.Router.Gauges
import DynamoRouter.Router.Retry
import DynamoRouter.Router.Health
import DynamoRouter.Router.Counters
import DynamoRouter.Router.UnaryAlone
import DynamoRouter.Router.Relay
import DynamoRouter.Lib.ChainSets
import DynamoRouter.Cluster.Network
import DynamoRouter.Cluster.Calls
import DynamoRouter.Cluster.Deployment
import DynamoRouter.Cluster.Awaited
import DynamoRouter.Cluster.Executions
import DynamoRouter.Cluster.Picture
import DynamoRouter.Cluster.Smooth
import DynamoRouter.Cluster.HitRate
import DynamoRouter.Cluster.Answers
import DynamoRouter.Cluster.Fifo
import DynamoRouter.Loadgen.Trace
import DynamoRouter.Loadgen.Replay
import DynamoRouter.Cluster.Benchmark
import DynamoRouter.Cluster.Load
import DynamoRouter.Cluster.Progress
import DynamoRouter.Cluster.RouterSteps
import DynamoRouter.Cluster.ReplicaSteps
import DynamoRouter.Cluster.Refinement
import DynamoRouter.Cluster.Owners
