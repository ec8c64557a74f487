import Iocoro.TransitionSystem
import Iocoro.Ledger
import Iocoro.WakeState
import Iocoro.PostedQueue
import Iocoro.EventLoop
import Iocoro.Strand
import Iocoro.BinaryHeap
import Iocoro.FdRegistry
import Iocoro.TimerRegistry
import Iocoro.Handles
import Iocoro.IoContext
import Iocoro.Epoll
import Iocoro.StreamConnect
import Iocoro.FdResource
import Iocoro.SocketCancel
import Iocoro.SocketClose
import Iocoro.ConditionEvent
import Iocoro.WhenAny
import Iocoro.CancelJoin
import Iocoro.EdgeReadiness
import Iocoro.AddFd
import Iocoro.NextWait
import Iocoro.StopChain
import Iocoro.StopPropagation
import Iocoro.ConditionWaiter
import Iocoro.ConditionResume
import Iocoro.AwaitSuspend
import Iocoro.ExecutorAffinity
import Iocoro.SocketLifecycle
import Iocoro.FdCustody
import Iocoro.FdOwnership
import Iocoro.SocketMoves
import Iocoro.SocketLocks
import Iocoro.ReleaseGuard
import Iocoro.ThreadPool
import Iocoro.ThreadPoolWake
import Iocoro.ThreadPoolTasks
import Iocoro.RemoveFdSync
import Iocoro.GuardedRun
import Iocoro.BackendFailure
import Iocoro.Uring
import Iocoro.UringRing
import Iocoro.UringQuiescence
import Iocoro.UringReports
import Iocoro.UringWakeup
import Iocoro.EpollFilter
import Iocoro.PostedRun
import Iocoro.TimerExpiry
import Iocoro.RelativeTimeout
import Iocoro.SteadyTimer
import Iocoro.WhenAll
import Iocoro.ListSearch
import Iocoro.ReadUntil
import Iocoro.SocketReset
import Iocoro.ByteOrder
import Iocoro.IpEndpoint
import Iocoro.TransferAll
import Iocoro.RegistryInvariant
import Iocoro.TimerInvariant
import Iocoro.FanIn
import Iocoro.WakeToken
import Iocoro.WinnerCompletes
import Iocoro.SpawnResult
import Iocoro.EndpointGrammar
import Iocoro.DatagramSource
import Iocoro.StreamWaits
import Iocoro.WaitsApart
import Iocoro.FdWaits
import Iocoro.Acceptor
import Iocoro.AcceptOrder
import Iocoro.Race
import Iocoro.Resolver
import Iocoro.ResolveOnce
import Iocoro.CallStack
import Iocoro.Coroutine
import Iocoro.CoroutineChains
import Iocoro.CoroutineRuns
import Iocoro.ObjectMemory
import Iocoro.UniqueFunction
import Iocoro.FunctionSlots
import Iocoro.EchoSession
import Iocoro.EchoRounds
import Iocoro.WithTimeout
import Iocoro.LocalEndpoint
import Iocoro.WorkGuard
