import Eos.Model.Task

/-!
# Kernel operations and their runs

The operations a run of the task, timer and scheduler-lock code is made of, each one
step, and the state they start from: `_os_init` up to the call of `eos_user_main`
(core/init.c:22-44).  `start` is the end of `_os_init`, which starts multitasking.
-/

set_option autoImplicit false

namespace Eos.Model

/-- The operations of the task, timer and scheduler-lock code. -/
inductive Op (T : Type)
  | createTask (task : Option T) (sblockStart sblockSize entry : UInt64) (priority : Nat)
  | schedule
  | changePriority (task : Option T) (priority : Nat)
  | setPeriod (task : T) (period : UInt32)
  | suspendTask (task : Option T)
  | resumeTask (task : Option T)
  | sleep (tick : UInt32)
  | lockScheduler
  | restoreScheduler (schedulerState : UInt8)
  | waitInQueue (q : WaitQueue) (queueType : UInt8)
  | wakeupFromQueue (q : WaitQueue)
  | tick
  | start
  deriving DecidableEq, Repr

namespace Kernel

variable {Q : Type → Type → Type} [NodeLists Q] {T : Type} [DecidableEq T] [Fintype T]

/-- The effect of an operation. -/
def exec (k : Kernel Q T) : Op T → Option (Kernel Q T)
  | .createTask task start size entry priority =>
    (k.eosCreateTask task start size entry priority).map Prod.snd
  | .schedule => k.eosSchedule
  | .changePriority task priority => k.eosChangePriority task priority
  | .setPeriod task period => some (k.eosSetPeriod task period)
  | .suspendTask task => (k.eosSuspendTask task).map Prod.snd
  | .resumeTask task => (k.eosResumeTask task).map Prod.snd
  | .sleep tick => k.eosSleep tick
  | .lockScheduler => some k.osLockScheduler.2
  | .restoreScheduler schedulerState => k.osRestoreScheduler schedulerState
  | .waitInQueue q queueType => k.osWaitInQueue q queueType
  | .wakeupFromQueue q => k.osWakeupFromQueue q
  | .tick => k.eosTriggerCounter
  | .start => k.osRestoreScheduler unlocked

omit [Fintype T] [DecidableEq T] in
/-- The kernel in zeroed memory, with the given semaphores and condition variables. -/
def zeroed (semaphore : Nat → Semaphore) (condition : Nat → Condition) : Kernel Q T where
  queue := NodeLists.empty
  timers :=
    { alarmQueue := NodeLists.empty
      fields := ⟨fun _ => 0, fun _ => 0, fun _ => none, fun _ => none, fun _ => none, fun _ => 0⟩ }
  vars :=
    { tcb := fun _ => .zero, pnode := fun _ => none, orderVal := fun _ => 0, currentTask := none,
      readyList := .empty, schedulerLock := 0, semaphore := semaphore, condition := condition }

omit [Fintype T] in
/-- `_os_init` up to `eos_user_main` (core/init.c:22-44): the scheduler is locked and the idle
task created.  Its stack and its entry have addresses, which are not `NULL`. -/
def osInit (idle : T) (semaphore : Nat → Semaphore) (condition : Nat → Condition) :
    Option (Kernel Q T) :=
  (((zeroed semaphore condition).setLock locked).eosCreateTask (some idle) 1 8096 1
    lowestPriority).map Prod.snd

end Kernel

end Eos.Model
