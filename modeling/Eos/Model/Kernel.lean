import Eos.Model.Common
import Mathlib.Data.BitVec
import Mathlib.Logic.Function.Basic
import Mathlib.Tactic.Simps.Basic

/-!
# The data of the kernel

The task control blocks, the ready queue and its bitmap, the semaphores, condition
variables, counters and alarms of the kernel (core/eos.h, core/eos_internal.h and the
static variables of core/task.c, core/scheduler.c and core/timer.c).

A TCB embeds one `queue_node` and one `alarm`, so tasks name both.  `Kernel Q T` keeps
its lists in a representation `Q`; every other field is plain data.  A task's saved
context (`tcb->sp`) belongs to the hardware layer and is not part of this state, and
priorities, which are stored and compared but never computed with, are numbers.
-/

set_option autoImplicit false

namespace Eos.Model

/-! ## Constants -/

/-- `LOCKED` (core/eos_internal.h) -/
def locked : UInt8 := 1

/-- `UNLOCKED` (core/eos_internal.h) -/
def unlocked : UInt8 := 0

/-- `LOWEST_PRIORITY` (core/eos_internal.h) -/
def lowestPriority : Nat := 63

/-- `MIN_STACK_SIZE` (core/task.c:18) -/
def minStackSize : UInt64 := 1024

/-- The error code `(int32u_t)-1` of the task routines. -/
def errorCode : UInt32 := 0xffffffff

/-! ## Tasks -/

/-- The values of `tcb->status` (core/task.c:13-16); a zeroed TCB has none of the four. -/
inductive Status
  | zeroed
  | ready
  | running
  | waiting
  | suspended
  deriving DecidableEq, Repr

/-- The `wait_queue` field of a semaphore or of a condition variable. -/
inductive WaitQueue
  | semaphore (s : Nat)
  | condition (c : Nat)
  deriving DecidableEq, Repr

/-- The head cells task nodes are linked from: `_os_ready_queue[p]` and the wait queues. -/
inductive QueueHead
  | ready (p : Nat)
  | wait (q : WaitQueue)
  deriving DecidableEq, Repr

/-- `eos_tcb_t`, without its nodes and its saved context. -/
structure Tcb where
  status : Status
  priority : Nat
  period : UInt32
  wakeupTime : UInt32
  waitQueueOwner : Option WaitQueue
  deriving DecidableEq, Repr

/-- A TCB in zeroed memory. -/
def Tcb.zero : Tcb := ⟨.zeroed, 0, 0, 0, none⟩

/-! ## Semaphores, condition variables and the ready bitmap -/

/-- `eos_semaphore_t`, without its wait queue; the count is an `int8s_t`. -/
structure Semaphore where
  count : Int
  queueType : UInt8
  deriving DecidableEq, Repr

/-- The value an integer has after it is stored in an `int8s_t`. -/
def int8 (x : Int) : Int := x.bmod 256

/-- `eos_condition_t`, without its wait queue. -/
structure Condition where
  queueType : UInt8
  deriving DecidableEq, Repr

/-- `_os_ready_group` and `_os_ready_table` (core/scheduler.c:13-14). -/
structure ReadyList where
  group : BitVec 8
  table : Nat → BitVec 8

/-! ## Counters and alarms -/

/-- The fields of `eos_counter_t` and `eos_alarm_t` outside of their lists, for alarms `A`,
handlers `F` and handler arguments `P`. -/
structure AlarmFields (A F P : Type) where
  tick : Nat → UInt32
  timeout : A → UInt32
  handler : A → Option F
  arg : A → Option P
  pnode : A → Option A
  orderVal : A → Nat

/-- The counters and alarms, with the alarm queue of every counter. -/
structure Timers (Q : Type → Type → Type) (A F P : Type) where
  alarmQueue : Q Nat A
  fields : AlarmFields A F P

/-- The counter of `eos_get_system_timer`. -/
def systemTimer : Nat := 0

/-- The alarm handlers: that of the kernel, and those of the program. -/
inductive Handler
  | osWakeupFromAlarmQueue
  | user (n : Nat)
  deriving DecidableEq, Repr

/-! ## The kernel -/

/-- The fields of the kernel outside of its lists. -/
structure Vars (T : Type) where
  tcb : T → Tcb
  pnode : T → Option T
  orderVal : T → Nat
  currentTask : Option T
  readyList : ReadyList
  schedulerLock : UInt8
  semaphore : Nat → Semaphore
  condition : Nat → Condition

/-- The state of the kernel. -/
structure Kernel (Q : Type → Type → Type) (T : Type) where
  queue : Q QueueHead T
  timers : Timers Q T Handler T
  vars : Vars T

namespace Kernel

variable {Q : Type → Type → Type} {T : Type} [DecidableEq T]

/-- `task->status` -/
def status (k : Kernel Q T) (t : T) : Status := (k.vars.tcb t).status

/-- `task->priority` -/
def priority (k : Kernel Q T) (t : T) : Nat := (k.vars.tcb t).priority

/-- `task->wait_queue_owner` -/
def waitQueueOwner (k : Kernel Q T) (t : T) : Option WaitQueue := (k.vars.tcb t).waitQueueOwner

/-- `eos_get_system_timer()->tick` -/
def tick (k : Kernel Q T) : UInt32 := k.timers.fields.tick systemTimer

/-- Replace the lists of task nodes. -/
@[simps] def setQueue (k : Kernel Q T) (queue : Q QueueHead T) : Kernel Q T :=
  { k with queue := queue }

/-- Replace the counters and alarms. -/
@[simps] def setTimers (k : Kernel Q T) (timers : Timers Q T Handler T) : Kernel Q T :=
  { k with timers := timers }

/-- Write fields of a TCB. -/
@[simps] def setTcb (k : Kernel Q T) (t : T) (f : Tcb → Tcb) : Kernel Q T :=
  { k with vars := { k.vars with tcb := Function.update k.vars.tcb t (f (k.vars.tcb t)) } }

/-- `task->status = s` -/
@[simps!] def setStatus (k : Kernel Q T) (t : T) (s : Status) : Kernel Q T :=
  k.setTcb t fun b => { b with status := s }

/-- `task->wait_queue_owner = q` -/
@[simps!] def setOwner (k : Kernel Q T) (t : T) (q : Option WaitQueue) : Kernel Q T :=
  k.setTcb t fun b => { b with waitQueueOwner := q }

/-- `task->queue_node.order_val = n` -/
@[simps] def setOrderVal (k : Kernel Q T) (t : T) (n : Nat) : Kernel Q T :=
  { k with vars := { k.vars with orderVal := Function.update k.vars.orderVal t n } }

/-- `task->queue_node.pnode = task` -/
@[simps] def setPnode (k : Kernel Q T) (t : T) : Kernel Q T :=
  { k with vars := { k.vars with pnode := Function.update k.vars.pnode t (some t) } }

/-- `_os_current_task = t` -/
@[simps] def setCurrent (k : Kernel Q T) (t : Option T) : Kernel Q T :=
  { k with vars := { k.vars with currentTask := t } }

/-- `_os_scheduler_lock = v` -/
@[simps] def setLock (k : Kernel Q T) (v : UInt8) : Kernel Q T :=
  { k with vars := { k.vars with schedulerLock := v } }

/-- Write the bitmap. -/
@[simps] def setReadyList (k : Kernel Q T) (r : ReadyList) : Kernel Q T :=
  { k with vars := { k.vars with readyList := r } }

/-- `sem->count = n`, an `int8s_t`. -/
@[simps] def setCount (k : Kernel Q T) (s : Nat) (n : Int) : Kernel Q T :=
  { k with vars := { k.vars with
      semaphore := Function.update k.vars.semaphore s
        { k.vars.semaphore s with count := int8 n } } }

/-! ### The fields of a TCB after an update -/

/-- A field of the TCBs that the write leaves as it is. -/
theorem field_setTcb {X : Type} (g : Tcb → X) {k : Kernel Q T} {t : T} {f : Tcb → Tcb}
    (hg : g (f (k.vars.tcb t)) = g (k.vars.tcb t)) (u : T) :
    g ((k.setTcb t f).vars.tcb u) = g (k.vars.tcb u) := by
  by_cases h : u = t
  · subst h
    rwa [setTcb_vars_tcb, Function.update_self]
  · rw [setTcb_vars_tcb, Function.update_of_ne h]

section Updates

variable (k : Kernel Q T) (t u : T) (s : Status) (q : Option WaitQueue) (v : Option T) (n : Nat)
  (l : UInt8) (r : ReadyList) (x : Q QueueHead T) (m : Timers Q T Handler T)

/-- A new status is that of its task only. -/
@[simp] theorem status_setStatus :
    (k.setStatus t s).status u = if u = t then s else k.status u := by
  by_cases h : u = t
  · subst h; simp [status]
  · simp [status, h]

/-- A new owner changes no status. -/
@[simp] theorem status_setOwner :
    (k.setOwner t q).status u = k.status u := field_setTcb Tcb.status rfl u

/-- A new status changes no priority. -/
@[simp] theorem priority_setStatus :
    (k.setStatus t s).priority u = k.priority u := field_setTcb Tcb.priority rfl u

/-- A new owner changes no priority. -/
@[simp] theorem priority_setOwner :
    (k.setOwner t q).priority u = k.priority u := field_setTcb Tcb.priority rfl u

/-- A new status changes no owner. -/
@[simp] theorem waitQueueOwner_setStatus :
    (k.setStatus t s).waitQueueOwner u = k.waitQueueOwner u :=
  field_setTcb Tcb.waitQueueOwner rfl u

/-- A new owner is that of its task only. -/
@[simp] theorem waitQueueOwner_setOwner :
    (k.setOwner t q).waitQueueOwner u = if u = t then q else k.waitQueueOwner u := by
  by_cases h : u = t
  · subst h; simp [waitQueueOwner]
  · simp [waitQueueOwner, h]

/-- A new key changes no status. -/
@[simp] theorem status_setOrderVal : (k.setOrderVal t n).status u = k.status u := rfl
/-- A new key changes no priority. -/
@[simp] theorem priority_setOrderVal : (k.setOrderVal t n).priority u = k.priority u := rfl
/-- A new key changes no owner. -/
@[simp] theorem waitQueueOwner_setOrderVal :
    (k.setOrderVal t n).waitQueueOwner u = k.waitQueueOwner u := rfl

/-- A new node pointer changes no status. -/
@[simp] theorem status_setPnode : (k.setPnode t).status u = k.status u := rfl
/-- A new node pointer changes no priority. -/
@[simp] theorem priority_setPnode : (k.setPnode t).priority u = k.priority u := rfl
/-- A new node pointer changes no owner. -/
@[simp] theorem waitQueueOwner_setPnode :
    (k.setPnode t).waitQueueOwner u = k.waitQueueOwner u := rfl

omit [DecidableEq T] in
/-- New lists change no status. -/
@[simp] theorem status_setQueue : (k.setQueue x).status u = k.status u := rfl
omit [DecidableEq T] in
/-- New lists change no priority. -/
@[simp] theorem priority_setQueue : (k.setQueue x).priority u = k.priority u := rfl
omit [DecidableEq T] in
/-- New lists change no owner. -/
@[simp] theorem waitQueueOwner_setQueue :
    (k.setQueue x).waitQueueOwner u = k.waitQueueOwner u := rfl

omit [DecidableEq T] in
/-- New timers change no status. -/
@[simp] theorem status_setTimers : (k.setTimers m).status u = k.status u := rfl
omit [DecidableEq T] in
/-- New timers change no priority. -/
@[simp] theorem priority_setTimers : (k.setTimers m).priority u = k.priority u := rfl
omit [DecidableEq T] in
/-- New timers change no owner. -/
@[simp] theorem waitQueueOwner_setTimers :
    (k.setTimers m).waitQueueOwner u = k.waitQueueOwner u := rfl

omit [DecidableEq T] in
/-- A new bitmap changes no status. -/
@[simp] theorem status_setReadyList : (k.setReadyList r).status u = k.status u := rfl
omit [DecidableEq T] in
/-- A new bitmap changes no priority. -/
@[simp] theorem priority_setReadyList : (k.setReadyList r).priority u = k.priority u := rfl
omit [DecidableEq T] in
/-- A new bitmap changes no owner. -/
@[simp] theorem waitQueueOwner_setReadyList :
    (k.setReadyList r).waitQueueOwner u = k.waitQueueOwner u := rfl

omit [DecidableEq T] in
/-- Another current task changes no status. -/
@[simp] theorem status_setCurrent : (k.setCurrent v).status u = k.status u := rfl
omit [DecidableEq T] in
/-- Another current task changes no priority. -/
@[simp] theorem priority_setCurrent : (k.setCurrent v).priority u = k.priority u := rfl
omit [DecidableEq T] in
/-- Another current task changes no owner. -/
@[simp] theorem waitQueueOwner_setCurrent :
    (k.setCurrent v).waitQueueOwner u = k.waitQueueOwner u := rfl

omit [DecidableEq T] in
/-- Another value of the scheduler lock changes no status. -/
@[simp] theorem status_setLock : (k.setLock l).status u = k.status u := rfl
omit [DecidableEq T] in
/-- Another value of the scheduler lock changes no priority. -/
@[simp] theorem priority_setLock : (k.setLock l).priority u = k.priority u := rfl
omit [DecidableEq T] in
/-- Another value of the scheduler lock changes no owner. -/
@[simp] theorem waitQueueOwner_setLock : (k.setLock l).waitQueueOwner u = k.waitQueueOwner u := rfl

end Updates

end Kernel

end Eos.Model
