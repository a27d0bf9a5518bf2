import LaunchManager.Library.Debounce
import LaunchManager.Library.DictHeap
import LaunchManager.Library.DictTree
import LaunchManager.Library.DoublyLinked
import LaunchManager.Library.LinkedTree
import LaunchManager.Library.LockTable
import LaunchManager.Library.PackedWord
import LaunchManager.Library.Runs
import LaunchManager.Library.UnorderedMap
import LaunchManager.Library.Wavefront
import LaunchManager.FixedSizeQueue
import LaunchManager.DependencyGraph
import LaunchManager.Traverse
import LaunchManager.Transition
import LaunchManager.TransitionSetup
import LaunchManager.TransitionPhase
import LaunchManager.TransitionSteps
import LaunchManager.TransitionRun
import LaunchManager.StopOrder
import LaunchManager.Graph
import LaunchManager.ProcessGroupManager
import LaunchManager.JobInvariant
import LaunchManager.JobAccounting
import LaunchManager.ComponentEffects
import LaunchManager.Shutdown
import LaunchManager.Recovery
import LaunchManager.RunTargetControl
import LaunchManager.PushErrors
import LaunchManager.PendingRequest
import LaunchManager.ActiveRunTarget
import LaunchManager.EventQueue
import LaunchManager.ClientRequests
import LaunchManager.SafeProcessMap
import LaunchManager.SafeProcessMap.Shape
import LaunchManager.SafeProcessMap.Refinement
import LaunchManager.SafeProcessMap.Calls
import LaunchManager.SafeProcessMap.SearchTree
import LaunchManager.ProcessInfoNode
import LaunchManager.ProcessInfoNode.Steps
import LaunchManager.ProcessInfoNode.Tracking
import LaunchManager.ProcessInfoNode.UnexpectedTermination
import LaunchManager.ProcessInfoNode.Deactivation
import LaunchManager.ProcessInfoNode.Crash
import LaunchManager.ProcessInfoNode.Attempts
import LaunchManager.ProcessInfoNode.Activation
import LaunchManager.ProcessInfoNode.Signals
import LaunchManager.AliveMonitor.TimeSortingBuffer
import LaunchManager.AliveMonitor.Alive
import LaunchManager.AliveMonitor.Transitions
import LaunchManager.AliveMonitor.Rounds
import LaunchManager.AliveMonitor.CycleTracking
import LaunchManager.AliveMonitor.Expiry
import LaunchManager.AliveMonitor.Restart
import LaunchManager.AliveMonitor.CyclicExecutor
import LaunchManager.AliveMonitor.ClockFailure
import LaunchManager.AliveMonitor.Iterations
import LaunchManager.AliveMonitor.RingBuffer
import LaunchManager.AliveMonitor.ObservableEventReader
import LaunchManager.AliveMonitor.MonitorIfDaemon
import LaunchManager.AliveMonitor.Forwarding
import LaunchManager.HealthMonitor.Common
import LaunchManager.HealthMonitor.DeadlineMonitor
import LaunchManager.HealthMonitor.HeartbeatMonitor
import LaunchManager.MPMCConcurrentQueue
import LaunchManager.Configuration.CyclicDependencies
import LaunchManager.Configuration.CreateDependencyGraph
import LaunchManager.Configuration.PreprocessDefaults
import LaunchManager.Configuration.PreprocessRefinement
import LaunchManager.Configuration.DefaultsPrecedence
import LaunchManager.HealthMonitor.DeadlineCalls
import LaunchManager.HealthMonitor.DeadlineArithmetic
import LaunchManager.HealthMonitor.LogicMonitor
import LaunchManager.HealthMonitor.Worker
import LaunchManager.HealthMonitor.Ownership
import LaunchManager.ControlProvider
import LaunchManager.LmControlImpl
import LaunchManager.RunningHandshake
import LaunchManager.Watchdog
import LaunchManager.ProcessInfoNode.Readiness
import LaunchManager.ProcessInfoNode.RunningReport
import LaunchManager.ProcessInfoNode.StopToken
import LaunchManager.Component
import LaunchManager.Component.Terminations
import LaunchManager.Component.ReportRunning
