import Rtic.Library.Transition
import Rtic.Library.BoundedDeque
import Rtic.Library.Buckets
import Rtic.Library.OrderedMap
import Rtic.Library.Returns
import Rtic.Library.PriorityCeiling
import Rtic.Library.WaitLine
import Rtic.Library.StableOrder
import Rtic.Library.FifoLock
import Rtic.Library.Chain
import Rtic.Library.BitBank
import Rtic.Library.NestedMask
import Rtic.Library.Cancellation
import Rtic.Library.TokenParser
import Rtic.Library.Accumulate
import Rtic.Library.JoinedWords
import Rtic.Library.Borrows
import Rtic.Library.Turns
import Rtic.Library.Behaviors
import Rtic.Executor.AsyncTaskExecutor
import Rtic.Executor.Liveness
import Rtic.Executor.Wakeups
import Rtic.Executor.Progress
import Rtic.Syntax.Ast
import Rtic.Syntax.Syn
import Rtic.Syntax.ParseUtil
import Rtic.Syntax.ParseLocals
import Rtic.Syntax.ParseApp
import Rtic.Syntax.ParseArgs
import Rtic.Syntax.ArgumentOrder
import Rtic.Syntax.Uniqueness
import Rtic.Syntax.Check
import Rtic.Syntax.Analyze
import Rtic.Syntax.Ownership
import Rtic.Syntax.SendTypes
import Rtic.Syntax.Exclusivity
import Rtic.Syntax.AcceptedApp
import Rtic.Syntax.ParseAppArgs
import Rtic.Syntax.AppArguments
import Rtic.Syntax.ParseInput
import Rtic.Export.Preemption
import Rtic.Export.Ceilings
import Rtic.Export.Blocking
import Rtic.Codegen.Program
import Rtic.Codegen.Dispatchers
import Rtic.Export.Esp32
import Rtic.Export.Esp32Wiring
import Rtic.Export.CortexBasepri
import Rtic.Export.CortexWiring
import Rtic.Export.CortexBlocking
import Rtic.Export.SourceMask
import Rtic.Export.CortexSourceMask
import Rtic.Export.SourceMaskLocks
import Rtic.Export.SourceMaskExclusion
import Rtic.Export.SourceMaskRestore
import Rtic.Export.RiscvSlic
import Rtic.Codegen.Generator
import Rtic.Export.SlicWiring
import Rtic.Codegen.InternalNames
import Rtic.Codegen.RawIdentifiers
import Rtic.Codegen.Execution
import Rtic.Codegen.References
import Rtic.Codegen.Aliasing
import Rtic.Codegen.StartUp
import Rtic.Common.WakerRegistration
import Rtic.Common.PollHistory
import Rtic.Common.WaitQueue
import Rtic.Common.DoublyLinkedList
import Rtic.Common.WaitUntil
import Rtic.Sync.Channel
import Rtic.Sync.ChannelSlots
import Rtic.Sync.ChannelContents
import Rtic.Sync.ChannelValues
import Rtic.Sync.ChannelConservation
import Rtic.Sync.ChannelCalls
import Rtic.Sync.ChannelDelivery
import Rtic.Sync.ChannelClosing
import Rtic.Sync.ChannelResplit
import Rtic.Sync.ChannelWaiting
import Rtic.Sync.ChannelWaking
import Rtic.Sync.ChannelProgress
import Rtic.Sync.ChannelReception
import Rtic.Sync.TaskReception
import Rtic.Sync.Arbiter
import Rtic.Sync.ArbiterOwnership
import Rtic.Sync.ArbiterOrder
import Rtic.Sync.ArbiterProgress
import Rtic.Sync.Signal
import Rtic.Sync.SignalReader
import Rtic.Sync.Watch
import Rtic.Sync.WatchUpdates
import Rtic.Sync.GrantedWakers
import Rtic.Sync.ArbiterSpi
import Rtic.Sync.BusSharing
import Rtic.Sync.SpiSharing
import Rtic.Sync.ArbiterI2c
import Rtic.Time.HalfPeriodCounter
import Rtic.Time.Ticks
import Rtic.Time.LinkedList
import Rtic.Time.TimerQueue
import Rtic.Time.PriorityList
import Rtic.Time.TimerLinks
import Rtic.Time.TimerArmed
import Rtic.Time.DelayFuture
import Rtic.Time.DelayPrecision
import Rtic.Time.DelayWakers
import Rtic.Monotonics.Systick
import Rtic.Monotonics.HalfPeriodClock
import Rtic.Monotonics.CompareValue
import Rtic.Monotonics.CompareTimer
import Rtic.Monotonics.CompareArmed
import Rtic.Monotonics.SplitCounter
import Rtic.Monotonics.Esp32Systimer
import Rtic.Codegen.Expansion
