import Eos.Interface.Rings
import Eos.Model.Operations

/-!
# The kernel over pointer lists refines the kernel over sequences

The kernel code is written once, over any representation of its lists.  `Repr k a`
relates a kernel `k` whose lists are links in memory to a kernel `a` whose lists are
sequences: all plain fields agree, and the links represent the sequences.  Every
operation of the pointer kernel refines the same operation of the sequence kernel
(`exec_refines`), so what is proved about runs over sequences holds in memory: no
`NULL` pointer is followed and every list stays a well-formed circle.
-/

set_option autoImplicit false

namespace Eos.Interface

open Eos.Lib (LinkMem RingsOk Refines map_snd_bind map_snd_bind₂)
open Eos.Model

/-- The lists of `a` are the sequences that the links of `k` represent; all other fields
agree. -/
structure Repr {T : Type} (k : Kernel LinkMem T) (a : Kernel Rings T) : Prop where
  vars : k.vars = a.vars
  queue : RingsOk k.queue a.queue.ring
  fields : k.timers.fields = a.timers.fields
  alarms : RingsOk k.timers.alarmQueue a.timers.alarmQueue.ring

namespace Repr

variable {T : Type} [DecidableEq T] {k : Kernel LinkMem T} {a : Kernel Rings T}

omit [DecidableEq T] in
/-- Both kernels have the same status of every task. -/
theorem status (hr : Repr k a) (t : T) : k.status t = a.status t := by
  rw [Kernel.status, Kernel.status, hr.vars]

omit [DecidableEq T] in
/-- Both kernels have the same priority of every task. -/
theorem priority (hr : Repr k a) (t : T) : k.priority t = a.priority t := by
  rw [Kernel.priority, Kernel.priority, hr.vars]

omit [DecidableEq T] in
/-- Both kernels have the same owner of every task. -/
theorem waitQueueOwner (hr : Repr k a) (t : T) : k.waitQueueOwner t = a.waitQueueOwner t := by
  rw [Kernel.waitQueueOwner, Kernel.waitQueueOwner, hr.vars]

omit [DecidableEq T] in
/-- Both kernels have the same tick. -/
theorem tick (hr : Repr k a) : k.tick = a.tick := by
  rw [Kernel.tick, Kernel.tick, hr.fields]

omit [DecidableEq T] in
/-- One pointer kernel represents the sequences. -/
theorem unique {k' : Kernel LinkMem T} (hr : Repr k a) (hr' : Repr k' a) : k = k' := by
  have hvars : k.vars = k'.vars := hr.vars.trans hr'.vars.symm
  have hfields : k.timers.fields = k'.timers.fields := hr.fields.trans hr'.fields.symm
  have hqueue : k.queue = k'.queue := hr.queue.unique hr'.queue
  have halarms : k.timers.alarmQueue = k'.timers.alarmQueue := hr.alarms.unique hr'.alarms
  obtain ⟨queue, ⟨alarmQueue, fields⟩, vars⟩ := k
  obtain ⟨queue', ⟨alarmQueue', fields'⟩, vars'⟩ := k'
  simp only at hvars hfields hqueue halarms
  rw [hvars, hfields, hqueue, halarms]

omit [DecidableEq T] in
/-- A head cell holds the first node of its sequence. -/
theorem head (hr : Repr k a) (h : QueueHead) : k.head h = a.head h := hr.queue.head h

omit [DecidableEq T] in
/-- The same change of plain fields on both sides. -/
theorem withVars (hr : Repr k a) {v w : Vars T} (hv : v = w) :
    Repr { k with vars := v } { a with vars := w } :=
  ⟨hv, hr.queue, hr.fields, hr.alarms⟩

omit [DecidableEq T] in
/-- A change of the timers that agrees on both sides. -/
theorem withTimers (hr : Repr k a) {t : Timers LinkMem T Handler T} {u : Timers Rings T Handler T}
    (hf : t.fields = u.fields) (hq : RingsOk t.alarmQueue u.alarmQueue.ring) :
    Repr (k.setTimers t) (a.setTimers u) :=
  ⟨hr.vars, hr.queue, hf, hq⟩

/-- The same change of a TCB on both sides. -/
theorem setTcb (hr : Repr k a) (t : T) (f : Tcb → Tcb) : Repr (k.setTcb t f) (a.setTcb t f) :=
  hr.withVars (by rw [hr.vars])

/-- The same key is written in both. -/
theorem setOrderVal (hr : Repr k a) (t : T) (n : Nat) :
    Repr (k.setOrderVal t n) (a.setOrderVal t n) :=
  hr.withVars (by rw [hr.vars])

/-- The same node pointer is written in both. -/
theorem setPnode (hr : Repr k a) (t : T) : Repr (k.setPnode t) (a.setPnode t) :=
  hr.withVars (by rw [hr.vars])

/-- The same status is written in both. -/
theorem setStatus (hr : Repr k a) (t : T) (s : Status) :
    Repr (k.setStatus t s) (a.setStatus t s) :=
  hr.setTcb t _

/-- The same owner is written in both. -/
theorem setOwner (hr : Repr k a) (t : T) (q : Option WaitQueue) :
    Repr (k.setOwner t q) (a.setOwner t q) :=
  hr.setTcb t _

omit [DecidableEq T] in
/-- The same task becomes the current one in both. -/
theorem setCurrent (hr : Repr k a) (t : Option T) : Repr (k.setCurrent t) (a.setCurrent t) :=
  hr.withVars (by rw [hr.vars])

omit [DecidableEq T] in
/-- The scheduler lock is written in both. -/
theorem setLock (hr : Repr k a) (v : UInt8) : Repr (k.setLock v) (a.setLock v) :=
  hr.withVars (by rw [hr.vars])

omit [DecidableEq T] in
/-- The same count is written in both. -/
theorem setCount (hr : Repr k a) (s : Nat) (n : Int) : Repr (k.setCount s n) (a.setCount s n) :=
  hr.withVars (by rw [hr.vars])

omit [DecidableEq T] in
/-- The bit of a priority is set in both. -/
theorem osSetReady (hr : Repr k a) (p : Nat) : Repr (k.osSetReady p) (a.osSetReady p) :=
  hr.withVars (by rw [hr.vars])

omit [DecidableEq T] in
/-- The bit of a priority is cleared in both. -/
theorem osUnsetReady (hr : Repr k a) (p : Nat) : Repr (k.osUnsetReady p) (a.osUnsetReady p) :=
  hr.withVars (by rw [hr.vars])

omit [DecidableEq T] in
/-- A ready queue is empty in both or in neither. -/
theorem unsetIfEmpty (hr : Repr k a) (p : Nat) : Repr (k.unsetIfEmpty p) (a.unsetIfEmpty p) := by
  unfold Kernel.unsetIfEmpty
  rw [hr.head]
  split
  · exact hr.osUnsetReady p
  · exact hr

/-! ## List routines -/

/-- `_os_add_node_tail` refines the appending of a task. -/
theorem addNodeTail (hr : Repr k a) (h : QueueHead) (t : T) :
    Refines Repr (k.addNodeTail h t) (a.addNodeTail h t) :=
  (osAddNodeTail_refines hr.queue).bind fun _ _ hq => .some ⟨hr.vars, hq, hr.fields, hr.alarms⟩

/-- `_os_add_node_ordered` refines the insertion of a task by its key. -/
theorem addNodeOrdered [Fintype T] (hr : Repr k a) (h : QueueHead) (t : T) :
    Refines Repr (k.addNodeOrdered h t) (a.addNodeOrdered h t) := by
  unfold Kernel.addNodeOrdered
  rw [show k.vars.orderVal = a.vars.orderVal by rw [hr.vars]]
  exact (osAddNodeOrdered_refines hr.queue).bind fun _ _ hq =>
    .some ⟨hr.vars, hq, hr.fields, hr.alarms⟩

/-- `_os_remove_node` refines the removal of a task. -/
theorem removeNode (hr : Repr k a) (h : QueueHead) (t : T) :
    Refines Repr (k.removeNode h t) (a.removeNode h t) :=
  (osRemoveNode_refines hr.queue).bind fun _ _ hq => .some ⟨hr.vars, hq, hr.fields, hr.alarms⟩

/-- A task goes to its ready queue in both. -/
theorem addReady (hr : Repr k a) (t : T) : Refines Repr (k.addReady t) (a.addReady t) := by
  unfold Kernel.addReady
  rw [hr.priority]
  exact (hr.addNodeTail _ t).bind fun _ _ hr => .some (hr.osSetReady _)

/-- A task leaves its ready queue in both. -/
theorem removeReady (hr : Repr k a) (t : T) : Refines Repr (k.removeReady t) (a.removeReady t) := by
  unfold Kernel.removeReady
  rw [hr.priority]
  exact (hr.removeNode _ t).bind fun _ _ hr => .some (hr.unsetIfEmpty _)

/-! ## Scheduling -/

/-- The running task goes back to its ready queue in both. -/
theorem requeueCurrent (hr : Repr k a) : Refines Repr k.requeueCurrent a.requeueCurrent := by
  unfold Kernel.requeueCurrent
  rw [hr.vars]
  cases a.vars.currentTask with
  | none => exact .some hr
  | some current =>
    simp only [hr.status]
    exact .ite (fun _ => (hr.addReady current).bind fun _ _ hr => .some (hr.setStatus _ _))
      fun _ => .some hr

/-- Both dispatch the same task. -/
theorem dispatchNext (hr : Repr k a) : Refines Repr k.dispatchNext a.dispatchNext := by
  unfold Kernel.dispatchNext
  simp only [hr.vars, hr.head]
  refine .bind_same fun node _ => .bind_same fun nextTask _ => ?_
  rw [hr.priority]
  exact (hr.removeNode _ node).bind fun _ _ hr =>
    .some (((hr.unsetIfEmpty _).setStatus _ _).setCurrent _)

/-- `eos_schedule` (core/task.c:88-139) -/
theorem eosSchedule (hr : Repr k a) : Refines Repr k.eosSchedule a.eosSchedule := by
  unfold Kernel.eosSchedule
  rw [hr.vars]
  exact .ite (fun _ => .some hr) fun _ => hr.requeueCurrent.bind fun _ _ hr => hr.dispatchNext

/-- The lock is written, and both reschedule. -/
theorem osRestoreScheduler (hr : Repr k a) (v : UInt8) :
    Refines Repr (k.osRestoreScheduler v) (a.osRestoreScheduler v) :=
  (hr.setLock v).eosSchedule

/-! ## Task routines -/

/-- `eos_create_task` (core/task.c:34-79) -/
theorem eosCreateTask (hr : Repr k a) (task : Option T) (start size entry : UInt64) (p : Nat) :
    Refines Repr ((k.eosCreateTask task start size entry p).map Prod.snd)
      ((a.eosCreateTask task start size entry p).map Prod.snd) := by
  cases task with
  | none => exact .some hr
  | some t =>
    simp only [Kernel.eosCreateTask, apply_ite (Option.map Prod.snd), Option.map_some]
    refine .ite (fun _ => .some hr) fun _ => .ite (fun _ => .some hr) fun _ =>
      .ite (fun _ => .some hr) fun _ => ?_
    rw [map_snd_bind₂, map_snd_bind₂]
    exact ((((hr.setTcb t _).setPnode t).setOrderVal t p).addReady t).bind fun _ _ hr =>
      (hr.setStatus t .ready).eosSchedule

/-- `eos_change_priority` (core/task.c:148-172) -/
theorem eosChangePriority (hr : Repr k a) (task : Option T) (p : Nat) :
    Refines Repr (k.eosChangePriority task p) (a.eosChangePriority task p) := by
  cases task with
  | none => exact .some hr
  | some t =>
    unfold Kernel.eosChangePriority
    refine .ite (fun _ => .some hr) fun _ => Refines.bind (R := Repr) ?_ fun _ _ hr =>
      ((hr.setTcb t _).setOrderVal t p).eosSchedule
    rw [hr.status]
    exact .ite (fun _ => (hr.removeReady t).bind fun _ _ hr => (hr.addNodeTail _ t).bind
      fun _ _ hr => .some (hr.osSetReady _)) fun _ => .some hr

/-- `eos_set_period` (core/task.c:181-186) -/
theorem eosSetPeriod (hr : Repr k a) (t : T) (p : UInt32) :
    Repr (k.eosSetPeriod t p) (a.eosSetPeriod t p) := by
  unfold Kernel.eosSetPeriod
  rw [hr.tick]
  exact hr.setTcb t _

/-- `eos_suspend_task` (core/task.c:195-209) -/
theorem eosSuspendTask (hr : Repr k a) (task : Option T) :
    Refines Repr ((k.eosSuspendTask task).map Prod.snd)
      ((a.eosSuspendTask task).map Prod.snd) := by
  cases task with
  | none => exact .some hr
  | some t =>
    simp only [Kernel.eosSuspendTask, hr.status, apply_ite (Option.map Prod.snd), Option.map_some]
    refine .ite (fun _ => ?_) fun _ => .some hr
    rw [map_snd_bind, map_snd_bind]
    exact (hr.removeReady t).bind fun _ _ hr => .some (hr.setStatus _ _)

/-- `eos_resume_task` (core/task.c:212-226) -/
theorem eosResumeTask (hr : Repr k a) (task : Option T) :
    Refines Repr ((k.eosResumeTask task).map Prod.snd) ((a.eosResumeTask task).map Prod.snd) := by
  cases task with
  | none => exact .some hr
  | some t =>
    simp only [Kernel.eosResumeTask, hr.status, apply_ite (Option.map Prod.snd), Option.map_some]
    refine .ite (fun _ => ?_) fun _ => .some hr
    rw [map_snd_bind₂, map_snd_bind₂]
    exact (hr.addReady t).bind fun _ _ hr => (hr.setStatus t .ready).eosSchedule

/-! ## Alarms -/

variable [Fintype T]

/-- `eos_set_alarm` (core/timer.c:29-52) -/
theorem setAlarm (hr : Repr k a) (t : T) (timeout : UInt32) (entry : Option Handler)
    (arg : Option T) :
    Refines Repr (k.setAlarm t timeout entry arg) (a.setAlarm t timeout entry arg) := by
  unfold Kernel.setAlarm Model.eosSetAlarm
  simp only [bind_assoc, hr.fields]
  refine (osRemoveNode_refines hr.alarms).bind fun m r hok => ?_
  by_cases hc : timeout = 0 ∨ entry.isNone
  · simp only [hc, if_true, pure_bind]
    exact .some (hr.withTimers rfl hok)
  · simp only [hc, if_false, bind_assoc, pure_bind]
    exact (osAddNodeOrdered_refines hok).bind fun _ _ hok' => .some (hr.withTimers rfl hok')

/-- `eos_sleep` (core/task.c:229-256) -/
theorem eosSleep (hr : Repr k a) (tick : UInt32) :
    Refines Repr (k.eosSleep tick) (a.eosSleep tick) := by
  unfold Kernel.eosSleep
  rw [hr.vars]
  refine .ite (fun _ => .some hr) fun _ => .bind_same fun t _ => ?_
  have hblock : ∀ {k : Kernel LinkMem T} {a : Kernel Rings T} (timeout : UInt32), Repr k a →
      Refines Repr (k.sleepFor t timeout) (a.sleepFor t timeout) :=
    fun timeout hr => (hr.setAlarm t timeout _ _).bind fun _ _ hr =>
      (hr.setStatus t .waiting).eosSchedule
  have hr' := hr.setTcb t fun b => { b with wakeupTime := b.wakeupTime + b.period }
  simp only [hr'.vars, hr'.tick]
  exact .ite (fun _ => .ite (fun _ => .some hr') fun _ => hblock _ hr') fun _ => hblock _ hr

omit [Fintype T] in
/-- `_os_wakeup_from_alarm_queue` (core/task.c:325-340) -/
theorem osWakeupFromAlarmQueue (hr : Repr k a) (arg : Option T) :
    Refines Repr (k.osWakeupFromAlarmQueue arg) (a.osWakeupFromAlarmQueue arg) := by
  unfold Kernel.osWakeupFromAlarmQueue
  refine .bind_same fun t _ => Refines.bind (R := Repr) ?_ fun _ _ hr =>
    (hr.addReady t).bind fun _ _ hr => .some (hr.setStatus _ _)
  unfold Kernel.leaveWaitQueue
  rw [hr.waitQueueOwner]
  cases a.waitQueueOwner t with
  | none => exact .some hr
  | some owner => exact (hr.removeNode _ t).bind fun _ _ hr => .some (hr.setOwner _ _)

omit [Fintype T] in
/-- The call of a handler (core/timer.c:82) -/
theorem callHandler (hr : Repr k a) (handler : Handler) (arg : Option T) :
    Refines Repr (k.callHandler handler arg) (a.callHandler handler arg) := by
  cases handler with
  | osWakeupFromAlarmQueue => exact hr.osWakeupFromAlarmQueue arg
  | user n => exact .some hr

omit [Fintype T] [DecidableEq T] in
/-- Both loops of `eos_trigger_counter` take the same alarm next. -/
theorem expiredAlarm (hr : Repr k a) (c : Nat) :
    Model.expiredAlarm k.timers c = Model.expiredAlarm a.timers c := by
  unfold Model.expiredAlarm
  rw [hr.fields, show NodeLists.head k.timers.alarmQueue c = NodeLists.head a.timers.alarmQueue c
    from hr.alarms.head c]

omit [Fintype T] in
/-- The loop of `eos_trigger_counter` (core/timer.c:75-88) -/
theorem triggerLoop (hr : Repr k a) (c fuel : Nat) :
    Refines Repr
      (Model.triggerLoop Kernel.timers Kernel.setTimers Kernel.callHandler c fuel k)
      (Model.triggerLoop Kernel.timers Kernel.setTimers Kernel.callHandler c fuel a) := by
  induction fuel generalizing k a with
  | zero => exact .none _
  | succ fuel ih =>
    unfold Model.triggerLoop
    rw [hr.expiredAlarm]
    cases Model.expiredAlarm a.timers c with
    | none => exact .some hr
    | some alarm =>
      refine (osRemoveNode_refines hr.alarms).bind fun m r hok => ?_
      simp only [hr.fields]
      refine .bind_same fun handler _ => ?_
      exact ((hr.withTimers rfl hok).callHandler handler _).bind fun _ _ hr => ih hr

/-- The alarms of a tick (core/timer.c:67-90) -/
theorem triggerAlarms (hr : Repr k a) : Refines Repr k.triggerAlarms a.triggerAlarms :=
  (hr.withTimers (t := incrementTick k.timers systemTimer)
    (u := incrementTick a.timers systemTimer) (by simp only [incrementTick, hr.fields])
    hr.alarms).triggerLoop _ _

/-- `eos_trigger_counter` (core/timer.c:60-92) -/
theorem eosTriggerCounter (hr : Repr k a) :
    Refines Repr k.eosTriggerCounter a.eosTriggerCounter :=
  hr.triggerAlarms.bind fun _ _ hr => hr.eosSchedule

/-! ## Wait queues -/

/-- A task goes to the same wait queue in both. -/
theorem addWaiter (hr : Repr k a) (q : WaitQueue) (queueType : UInt8) (t : T) :
    Refines Repr (k.addWaiter q queueType t) (a.addWaiter q queueType t) :=
  .ite (fun _ => hr.addNodeTail _ t) fun _ => hr.addNodeOrdered _ t

/-- `_os_wait_in_queue` (core/task.c:273-297) -/
theorem osWaitInQueue (hr : Repr k a) (q : WaitQueue) (queueType : UInt8) :
    Refines Repr (k.osWaitInQueue q queueType) (a.osWaitInQueue q queueType) := by
  unfold Kernel.osWaitInQueue
  rw [hr.vars]
  exact .bind_same fun t _ => (hr.addWaiter q queueType t).bind fun _ _ hr =>
    ((hr.setOwner t _).setStatus t _).eosSchedule

omit [Fintype T] in
/-- `_os_wakeup_from_queue` (core/task.c:300-316) -/
theorem osWakeupFromQueue (hr : Repr k a) (q : WaitQueue) :
    Refines Repr (k.osWakeupFromQueue q) (a.osWakeupFromQueue q) := by
  unfold Kernel.osWakeupFromQueue
  rw [hr.head, hr.vars]
  cases a.head (.wait q) with
  | none => exact .some hr
  | some node =>
    exact .bind_same fun t _ => (hr.removeNode _ t).bind fun _ _ hr =>
      (hr.addReady t).bind fun _ _ hr => (hr.setStatus t _).eosSchedule

end Repr

/-! ## All operations -/

section Exec

variable {T : Type} [DecidableEq T] [Fintype T] {k : Kernel LinkMem T} {a : Kernel Rings T}

/-- **Every operation of the pointer kernel refines the same operation over sequences.** -/
theorem exec_refines (hr : Repr k a) (o : Op T) : Refines Repr (k.exec o) (a.exec o) := by
  cases o with
  | createTask task start size entry p => exact hr.eosCreateTask task start size entry p
  | schedule => exact hr.eosSchedule
  | changePriority task p => exact hr.eosChangePriority task p
  | setPeriod t p => exact .some (hr.eosSetPeriod t p)
  | suspendTask task => exact hr.eosSuspendTask task
  | resumeTask task => exact hr.eosResumeTask task
  | sleep tick => exact hr.eosSleep tick
  | lockScheduler => exact .some (hr.setLock locked)
  | restoreScheduler v => exact hr.osRestoreScheduler v
  | waitInQueue q queueType => exact hr.osWaitInQueue q queueType
  | wakeupFromQueue q => exact hr.osWakeupFromQueue q
  | tick => exact hr.eosTriggerCounter
  | start => exact hr.osRestoreScheduler unlocked

omit [Fintype T] [DecidableEq T] in
/-- Zeroed memory represents empty lists. -/
theorem zeroed_repr (semaphore : Nat → Semaphore) (condition : Nat → Condition) :
    Repr (T := T) (Kernel.zeroed semaphore condition) (Kernel.zeroed semaphore condition) :=
  ⟨rfl, RingsOk.empty, rfl, RingsOk.empty⟩

omit [Fintype T] in
/-- `_os_init` up to `eos_user_main` (core/init.c:22-44) -/
theorem osInit_refines (idle : T) (semaphore : Nat → Semaphore) (condition : Nat → Condition) :
    Refines Repr (Kernel.osInit (Q := LinkMem) idle semaphore condition)
      (Kernel.osInit (Q := Rings) idle semaphore condition) :=
  ((zeroed_repr semaphore condition).setLock locked).eosCreateTask _ _ _ _ _

end Exec

end Eos.Interface
