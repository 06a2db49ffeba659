import Eos.Analysis.AlarmExactness
import Eos.Analysis.AlarmQueue
import Eos.Analysis.AlarmRing
import Eos.Analysis.Alarms
import Eos.Analysis.Bitmap
import Eos.Analysis.BlockedTasks
import Eos.Analysis.Clock
import Eos.Analysis.ConditionVariable
import Eos.Analysis.Consistent
import Eos.Analysis.ContextCopy
import Eos.Analysis.ContextRoundTrip
import Eos.Analysis.ContextRoutines
import Eos.Analysis.CriticalSections
import Eos.Analysis.Dispatch
import Eos.Analysis.DueAlarms
import Eos.Analysis.Exclusion
import Eos.Analysis.FifoQueues
import Eos.Analysis.FirstDispatch
import Eos.Analysis.FirstTask
import Eos.Analysis.FormatScan
import Eos.Analysis.FormatText
import Eos.Analysis.InterruptDispatch
import Eos.Analysis.InterruptReturn
import Eos.Analysis.Lists
import Eos.Analysis.LiveStack
import Eos.Analysis.LostWakeups
import Eos.Analysis.MessageQueue
import Eos.Analysis.Monitor
import Eos.Analysis.Moves
import Eos.Analysis.NewTasks
import Eos.Analysis.Numbers
import Eos.Analysis.Orderly
import Eos.Analysis.PendingAlarms
import Eos.Analysis.PeriodicTasks
import Eos.Analysis.PointerRuns
import Eos.Analysis.Preemption
import Eos.Analysis.PrintedText
import Eos.Analysis.PriorityQueues
import Eos.Analysis.QueueCapacity
import Eos.Analysis.ReadyPlaces
import Eos.Analysis.ReadyQueues
import Eos.Analysis.ReadyStructure
import Eos.Analysis.Residue
import Eos.Analysis.RoundRobin
import Eos.Analysis.Runs
import Eos.Analysis.Schedule
import Eos.Analysis.Selection
import Eos.Analysis.SemaphoreCounts
import Eos.Analysis.SerialLine
import Eos.Analysis.SerialPrint
import Eos.Analysis.Spinlock
import Eos.Analysis.Startup
import Eos.Analysis.Statements
import Eos.Analysis.Suspension
import Eos.Analysis.SyncRuns
import Eos.Analysis.TaskLives
import Eos.Analysis.TickCalls
import Eos.Analysis.Ticks
import Eos.Analysis.TimeShift
import Eos.Analysis.TimedWait
import Eos.Analysis.Timeless
import Eos.Analysis.TriggerLoop
import Eos.Analysis.Turns
import Eos.Analysis.Twins
import Eos.Analysis.TwoCounters
import Eos.Analysis.UpcomingAlarms
import Eos.Interface.AlarmHistory
import Eos.Interface.Apart
import Eos.Interface.FormatText
import Eos.Interface.NumberText
import Eos.Interface.Refinement
import Eos.Interface.Rings
import Eos.Interface.SerialText
import Eos.Interface.StatementRuns
import Eos.Interface.SyncRefinement
import Eos.Interface.TaskLife
import Eos.Lib.AArch64
import Eos.Lib.Exclusive
import Eos.Lib.Fifo
import Eos.Lib.LeadsTo
import Eos.Lib.Numeral
import Eos.Lib.Processor
import Eos.Lib.Refine
import Eos.Lib.Ring
import Eos.Lib.RingBuffer
import Eos.Lib.Scan
import Eos.Lib.Total
import Eos.Model.AlarmSteps
import Eos.Model.Clock
import Eos.Model.Common
import Eos.Model.Context
import Eos.Model.Format
import Eos.Model.HandlerRuns
import Eos.Model.Interrupt
import Eos.Model.Kernel
import Eos.Model.LockedSections
import Eos.Model.MessageQueue
import Eos.Model.Monitor
import Eos.Model.Operations
import Eos.Model.Scheduler
import Eos.Model.SemaphoreTasks
import Eos.Model.Serial
import Eos.Model.Spinlock
import Eos.Model.Startup
import Eos.Model.Statements
import Eos.Model.Sync
import Eos.Model.SyncSteps
import Eos.Model.Task
import Eos.Model.TaskMemory
import Eos.Model.TimedCalls
import Eos.Model.Timer
import Eos.Model.Uart
