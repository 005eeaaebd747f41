import RpcFramework.Framing
import RpcFramework.ChannelClose
import RpcFramework.ChannelStream
import RpcFramework.TcpConnection
import RpcFramework.ConnectionThreads
import RpcFramework.GracefulShutdown
import RpcFramework.ConnectionProgress
import RpcFramework.Server
import RpcFramework.ServerLedger
import RpcFramework.Progress
import RpcFramework.ServerProgress
import RpcFramework.ChannelOutcome
import RpcFramework.ChannelFinal
import RpcFramework.ChannelResult
import RpcFramework.ChannelLocks
import RpcFramework.ChannelSockets
import RpcFramework.Session
import RpcFramework.SmoothRuns
import RpcFramework.SessionSmooth
import RpcFramework.ChannelProgress
import RpcFramework.SessionProgress
import RpcFramework.ServerShare
import RpcFramework.Clients
import RpcFramework.ClientLaws
import RpcFramework.Execution
import RpcFramework.ServerThreads
import RpcFramework.FramingLimits
import RpcFramework.BufferQueue
import RpcFramework.BufferSize
import RpcFramework.LoadBalancer
import RpcFramework.RoundRobin
import RpcFramework.WeightedSelect
import RpcFramework.Locks
import RpcFramework.ServiceRegistry
import RpcFramework.ChildNames
import RpcFramework.ServiceNames
import RpcFramework.RegistryCache
import RpcFramework.RegistryLocks
import RpcFramework.RegistryRounds
import RpcFramework.RegistryWatch
import RpcFramework.Poller
import RpcFramework.TcpServer
import RpcFramework.ServerLife
import RpcFramework.ServerTables
import RpcFramework.ServerCallbacks
import RpcFramework.PolledServer
import RpcFramework.LoopPointers
import RpcFramework.InputMemory
import RpcFramework.ServerTeardown
import RpcFramework.TeardownLaws
import RpcFramework.HashRing
import RpcFramework.ConsistentHash
import RpcFramework.HashAffinity
import RpcFramework.HashCollisions
import RpcFramework.PollerOps
import RpcFramework.ThreadPool
import RpcFramework.PoolTasks
import RpcFramework.PoolProgress
import RpcFramework.PoolShutdown
import RpcFramework.LoopThreads
import RpcFramework.LoopWakeup
import RpcFramework.LoopQuit
import RpcFramework.LoopTurns
import RpcFramework.TransientErrors
