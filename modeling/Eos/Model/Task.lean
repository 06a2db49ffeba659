import Eos.Model.Scheduler
import Eos.Model.Timer

/-!
# Tasks and the scheduler of `core/task.c`

Every function of `core/task.c` that is filled in, translated in the order of its
statements.  A call of `eos_schedule` that switches tasks is one step from the state
before the call to the state in which the next task has been dispatched; what the
caller does when it is resumed is the business of the layers that model calls in
progress.  A computation has no result (`none`) where the code follows a `NULL`
pointer or a list loop does not end.
-/

set_option autoImplicit false

namespace Eos.Model

namespace Kernel

variable {Q : Type → Type → Type} [NodeLists Q] {T : Type} [DecidableEq T]

/-! ## List routines on the task nodes -/

/-- `*head` -/
def head (k : Kernel Q T) (h : QueueHead) : Option T := NodeLists.head k.queue h

/-- `_os_add_node_tail(head, &task->queue_node)` -/
def addNodeTail (k : Kernel Q T) (h : QueueHead) (t : T) : Option (Kernel Q T) := do
  return k.setQueue (← NodeLists.osAddNodeTail k.queue h t)

/-- `_os_add_node_ordered(head, &task->queue_node)` -/
def addNodeOrdered [Fintype T] (k : Kernel Q T) (h : QueueHead) (t : T) :
    Option (Kernel Q T) := do
  return k.setQueue (← NodeLists.osAddNodeOrdered k.queue k.vars.orderVal h t)

/-- `_os_remove_node(head, &task->queue_node)` -/
def removeNode (k : Kernel Q T) (h : QueueHead) (t : T) : Option (Kernel Q T) := do
  return k.setQueue (← NodeLists.osRemoveNode k.queue h t)

/-- `if (!_os_ready_queue[p]) _os_unset_ready(p)` -/
def unsetIfEmpty (k : Kernel Q T) (p : Nat) : Kernel Q T :=
  if k.head (.ready p) = none then k.osUnsetReady p else k

/-- Add a task at the tail of its ready queue and set the bit of its priority. -/
def addReady (k : Kernel Q T) (t : T) : Option (Kernel Q T) := do
  let k' ← k.addNodeTail (.ready (k.priority t)) t
  return k'.osSetReady (k.priority t)

/-- Take a task out of its ready queue and unset the bit of its priority if that was the
last one. -/
def removeReady (k : Kernel Q T) (t : T) : Option (Kernel Q T) := do
  let k' ← k.removeNode (.ready (k.priority t)) t
  return k'.unsetIfEmpty (k.priority t)

/-! ## `eos_schedule` (core/task.c:88-139) -/

/-- A running current task goes back to its ready queue. -/
def requeueCurrent (k : Kernel Q T) : Option (Kernel Q T) :=
  match k.vars.currentTask with
  | none => some k
  | some current =>
    if k.status current = .running then do
      let k ← k.addReady current
      return k.setStatus current .ready
    else
      some k

/-- The next task is taken from its ready queue and made the current one. -/
def dispatchNext (k : Kernel Q T) : Option (Kernel Q T) := do
  let highestPriority := k.vars.readyList.osGetHighestPriority
  let node ← k.head (.ready highestPriority)
  let nextTask ← k.vars.pnode node
  let k' ← k.removeNode (.ready (k.priority nextTask)) node
  let k' := k'.unsetIfEmpty (k.priority nextTask)
  return (k'.setStatus nextTask .running).setCurrent (some nextTask)

/-- `eos_schedule` (core/task.c:88-139). -/
def eosSchedule (k : Kernel Q T) : Option (Kernel Q T) :=
  if k.vars.schedulerLock = locked then
    some k
  else do
    let k ← k.requeueCurrent
    k.dispatchNext

/-- `_os_restore_scheduler` (core/scheduler.c:61-67). -/
def osRestoreScheduler (k : Kernel Q T) (schedulerState : UInt8) : Option (Kernel Q T) :=
  (k.setLock schedulerState).eosSchedule

/-! ## The task routines -/

/-- `eos_create_task` with its return code (core/task.c:34-79).  The context it stores in
the TCB is built in the hardware layer. -/
def eosCreateTask (k : Kernel Q T) (task : Option T) (sblockStart sblockSize entry : UInt64)
    (priority : Nat) : Option (UInt32 × Kernel Q T) :=
  match task with
  | none => some (errorCode, k)
  | some task =>
    if entry = 0 then some (errorCode, k)
    else if priority > lowestPriority then some (errorCode, k)
    else if sblockStart = 0 ∨ sblockSize < minStackSize then some (errorCode, k)
    else do
      let k := k.setTcb task fun b =>
        { b with priority := priority, period := 0, wakeupTime := 0 }
      let k := (k.setPnode task).setOrderVal task priority
      let k ← k.addReady task
      let k ← (k.setStatus task .ready).eosSchedule
      return (0, k)

/-- A ready task moves from its ready queue to that of another priority: the first part of
`eos_change_priority`. -/
def moveReady (k : Kernel Q T) (t : T) (priority : Nat) : Option (Kernel Q T) := do
  let k ← k.removeReady t
  let k ← k.addNodeTail (.ready priority) t
  return k.osSetReady priority

/-- `eos_change_priority` (core/task.c:148-172). -/
def eosChangePriority (k : Kernel Q T) (task : Option T) (priority : Nat) :
    Option (Kernel Q T) :=
  match task with
  | none => some k
  | some task =>
    if priority > lowestPriority then some k
    else do
      let k ← (if k.status task = .ready then k.moveReady task priority else some k)
      let k := k.setTcb task fun b => { b with priority := priority }
      (k.setOrderVal task priority).eosSchedule

/-- `eos_set_period` (core/task.c:181-186). -/
def eosSetPeriod (k : Kernel Q T) (task : T) (period : UInt32) : Kernel Q T :=
  k.setTcb task fun b => { b with period := period, wakeupTime := k.tick }

/-- `eos_suspend_task` with its return code (core/task.c:195-209). -/
def eosSuspendTask (k : Kernel Q T) (task : Option T) : Option (UInt32 × Kernel Q T) :=
  match task with
  | none => some (errorCode, k)
  | some task =>
    if k.status task = .ready then do
      let k ← k.removeReady task
      return (0, k.setStatus task .suspended)
    else
      some (0, k)

/-- `eos_resume_task` with its return code (core/task.c:212-226). -/
def eosResumeTask (k : Kernel Q T) (task : Option T) : Option (UInt32 × Kernel Q T) :=
  match task with
  | none => some (errorCode, k)
  | some task =>
    if k.status task = .suspended then do
      let k ← k.addReady task
      let k ← (k.setStatus task .ready).eosSchedule
      return (0, k)
    else
      some (0, k)

/-! ## Alarms of tasks -/

variable [Fintype T]

/-- `eos_set_alarm(eos_get_system_timer(), &task->alarm, timeout, entry, arg)` -/
def setAlarm (k : Kernel Q T) (task : T) (timeout : UInt32) (entry : Option Handler)
    (arg : Option T) : Option (Kernel Q T) := do
  return k.setTimers (← Model.eosSetAlarm k.timers systemTimer task timeout entry arg)

/-- The current task sets its alarm, goes to the `WAITING` state and gives up the processor:
the end of `eos_sleep`. -/
def sleepFor (k : Kernel Q T) (current : T) (timeout : UInt32) : Option (Kernel Q T) := do
  let k ← k.setAlarm current timeout (some .osWakeupFromAlarmQueue) (some current)
  (k.setStatus current .waiting).eosSchedule

/-- `eos_sleep` (core/task.c:229-256). -/
def eosSleep (k : Kernel Q T) (tick : UInt32) : Option (Kernel Q T) :=
  if k.vars.schedulerLock = locked then some k
  else do
    let current ← k.vars.currentTask
    if tick = 0 ∧ (k.vars.tcb current).period ≠ 0 then
      let k := k.setTcb current fun b => { b with wakeupTime := b.wakeupTime + b.period }
      if (k.vars.tcb current).wakeupTime ≤ k.tick then some k
      else k.sleepFor current ((k.vars.tcb current).wakeupTime - k.tick)
    else
      k.sleepFor current tick

/-- A task is taken out of the queue its `wait_queue_owner` names, which is cleared then: the
first part of `_os_wakeup_from_alarm_queue`. -/
def leaveWaitQueue (k : Kernel Q T) (t : T) : Option (Kernel Q T) :=
  match k.waitQueueOwner t with
  | some owner => do
    let k ← k.removeNode (.wait owner) t
    return k.setOwner t none
  | none => some k

/-- `_os_wakeup_from_alarm_queue` (core/task.c:325-340). -/
def osWakeupFromAlarmQueue (k : Kernel Q T) (arg : Option T) : Option (Kernel Q T) := do
  let task ← arg
  let k ← k.leaveWaitQueue task
  let k ← k.addReady task
  return k.setStatus task .ready

/-- Call the handler of an alarm.  A handler of the program leaves the kernel alone here; those that
call it are modelled with the runs of handlers. -/
def callHandler (k : Kernel Q T) : Handler → Option T → Option (Kernel Q T)
  | .osWakeupFromAlarmQueue, arg => k.osWakeupFromAlarmQueue arg
  | .user _, _ => some k

/-- The part of `eos_trigger_counter(eos_get_system_timer())` before its final
`eos_schedule` (core/timer.c:67-90). -/
def triggerAlarms (k : Kernel Q T) : Option (Kernel Q T) :=
  triggerLoop timers setTimers callHandler systemTimer (Fintype.card T + 1)
    (k.setTimers (incrementTick k.timers systemTimer))

/-- A tick of the system timer: `eos_trigger_counter` (core/timer.c:60-92), as
`timer_interrupt_handler` calls it. -/
def eosTriggerCounter (k : Kernel Q T) : Option (Kernel Q T) := do
  let k ← k.triggerAlarms
  k.eosSchedule

/-! ## Wait queues -/

/-- Insert the current task's node into a wait queue: the first branch of
`_os_wait_in_queue`. -/
def addWaiter (k : Kernel Q T) (q : WaitQueue) (queueType : UInt8) (t : T) :
    Option (Kernel Q T) :=
  if queueType = 0 then k.addNodeTail (.wait q) t else k.addNodeOrdered (.wait q) t

/-- `_os_wait_in_queue` (core/task.c:273-297). -/
def osWaitInQueue (k : Kernel Q T) (q : WaitQueue) (queueType : UInt8) :
    Option (Kernel Q T) := do
  let current ← k.vars.currentTask
  let k ← k.addWaiter q queueType current
  let k := k.setOwner current (some q)
  let k := k.setStatus current .waiting
  k.eosSchedule

/-- `_os_wakeup_from_queue` (core/task.c:300-316). -/
def osWakeupFromQueue (k : Kernel Q T) (q : WaitQueue) : Option (Kernel Q T) :=
  match k.head (.wait q) with
  | none => some k
  | some node => do
    let task ← k.vars.pnode node
    let k ← k.removeNode (.wait q) task
    let k ← k.addReady task
    let k := k.setStatus task .ready
    k.eosSchedule

end Kernel

end Eos.Model
