import Eos.Model.SyncSteps

/-!
# The kernel routines statement by statement

`_os_wait_in_queue`, `_os_wakeup_from_queue`, `eos_sleep`, `eos_resume_task` and
`eos_schedule` (core/task.c) run with interrupts enabled, up to the test of the scheduler
lock at the start of `eos_schedule`.  Here one step is one statement of theirs, or one step
of a semaphore call (`SyncSteps`), and the timer interrupt may come between any two steps.
Its handler runs with interrupts disabled, so a tick is one step; a task that its
`eos_schedule` switches away from goes on at the statement it was interrupted at.

Run without interruption, the statements do what the routines of `Kernel` do
(`Interface.StatementRuns`).
-/

set_option autoImplicit false

namespace Eos.Model

/-- The statements of the routines.  A parameter is a local variable of the routine. -/
inductive Statement (T : Type)
  /-- `_os_add_node_tail` or `_os_add_node_ordered` for the current task -/
  | waitAdd (q : WaitQueue) (queueType : UInt8)
  /-- `_os_current_task->wait_queue_owner = wait_queue` -/
  | waitOwner (q : WaitQueue)
  /-- `_os_current_task->status = WAITING`, before a call of `eos_schedule` -/
  | waitStatus
  /-- `if (*wait_queue == NULL) return` -/
  | wakeTest (q : WaitQueue)
  /-- `task = (*wait_queue)->pnode` -/
  | wakeTask (q : WaitQueue)
  /-- `_os_remove_node(wait_queue, &task->queue_node)` -/
  | wakeRemove (q : WaitQueue) (task : T)
  /-- `if (eos_get_scheduler_lock() == LOCKED) return` -/
  | sleepLock (tick : UInt32)
  /-- `if (tick == 0)` and `if (_os_current_task->period != 0)` -/
  | sleepPeriod (tick : UInt32)
  /-- `_os_current_task->wakeup_time += _os_current_task->period` -/
  | sleepAdvance
  /-- `if (_os_current_task->wakeup_time <= eos_get_system_timer()->tick) return` -/
  | sleepDue
  /-- `timeout = _os_current_task->wakeup_time - eos_get_system_timer()->tick` -/
  | sleepTimeout
  /-- `eos_set_alarm` for the current task -/
  | sleepAlarm (timeout : UInt32)
  /-- `_os_current_task->status = WAITING`, before a call of `eos_schedule` -/
  | sleepStatus
  /-- `if (task == NULL) return` and `if (task->status == SUSPENDED)` -/
  | resumeTest (task : Option T)
  /-- `_os_add_node_tail` of a task to its ready queue -/
  | readyAdd (task : T)
  /-- `_os_set_ready(task->priority)` -/
  | readySet (task : T)
  /-- `task->status = READY`, before a call of `eos_schedule` -/
  | readyStatus (task : T)
  /-- the section with the test of the scheduler lock -/
  | scheduleLock
  /-- `if (_os_current_task->status == RUNNING)` -/
  | scheduleTest
  /-- `_os_add_node_tail` of the current task to its ready queue -/
  | requeueAdd
  /-- `_os_set_ready(_os_current_task->priority)` -/
  | requeueSet
  /-- `_os_current_task->status = READY` -/
  | requeueStatus
  /-- the context of the current task is saved -/
  | save
  /-- `highest_priority = _os_get_highest_priority()` -/
  | highest
  /-- `node = _os_ready_queue[highest_priority]` -/
  | firstNode (highestPriority : Nat)
  /-- `next_task = node->pnode` -/
  | pickTask (node : T)
  /-- `_os_remove_node(&_os_ready_queue[next_task->priority], node)` -/
  | remove (node nextTask : T)
  /-- `if (!_os_ready_queue[next_task->priority])` -/
  | unsetTest (nextTask : T)
  /-- `_os_unset_ready(next_task->priority)` -/
  | unset (nextTask : T)
  /-- `next_task->status = RUNNING` -/
  | setRunning (nextTask : T)
  /-- `_os_current_task = next_task`, and its context is restored -/
  | setCurrent (nextTask : T)
  deriving DecidableEq

namespace Statement

variable {Q : Type → Type → Type} [NodeLists Q] {T : Type} [DecidableEq T] [Fintype T]

/-- The current task executes a statement.  The result names the next statement, or none when
the routine returns, which it does behind a switch to another task too. -/
def exec (k : Kernel Q T) (current : T) : Statement T → Option (Kernel Q T × Option (Statement T))
  -- `_os_wait_in_queue` (core/task.c:283-296)
  | .waitAdd q queueType => do return (← k.addWaiter q queueType current, some (.waitOwner q))
  | .waitOwner q => some (k.setOwner current (some q), some .waitStatus)
  | .waitStatus => some (k.setStatus current .waiting, some .scheduleLock)
  -- `_os_wakeup_from_queue` (core/task.c:303-315)
  | .wakeTest q => some (k, if k.head (.wait q) = none then none else some (.wakeTask q))
  | .wakeTask q => do
    let node ← k.head (.wait q)
    return (k, some (.wakeRemove q (← k.vars.pnode node)))
  | .wakeRemove q task => do return (← k.removeNode (.wait q) task, some (.readyAdd task))
  -- `eos_sleep` (core/task.c:233-255)
  | .sleepLock tick =>
    some (k, if k.vars.schedulerLock = locked then none else some (.sleepPeriod tick))
  | .sleepPeriod tick =>
    some (k, some (if tick = 0 ∧ (k.vars.tcb current).period ≠ 0 then .sleepAdvance
      else .sleepAlarm tick))
  | .sleepAdvance =>
    some (k.setTcb current fun b => { b with wakeupTime := b.wakeupTime + b.period },
      some .sleepDue)
  | .sleepDue =>
    some (k, if (k.vars.tcb current).wakeupTime ≤ k.tick then none else some .sleepTimeout)
  | .sleepTimeout => some (k, some (.sleepAlarm ((k.vars.tcb current).wakeupTime - k.tick)))
  | .sleepAlarm timeout => do
    let k ← k.setAlarm current timeout (some .osWakeupFromAlarmQueue) (some current)
    return (k, some .sleepStatus)
  | .sleepStatus => some (k.setStatus current .waiting, some .scheduleLock)
  -- `eos_resume_task` (core/task.c:214-224)
  | .resumeTest none => some (k, none)
  | .resumeTest (some task) =>
    some (k, if k.status task = .suspended then some (.readyAdd task) else none)
  -- the end of both routines that make a task ready
  | .readyAdd task => do
    return (← k.addNodeTail (.ready (k.priority task)) task, some (.readySet task))
  | .readySet task => some (k.osSetReady (k.priority task), some (.readyStatus task))
  | .readyStatus task => some (k.setStatus task .ready, some .scheduleLock)
  -- `eos_schedule` (core/task.c:91-136)
  | .scheduleLock =>
    some (k, if k.vars.schedulerLock = locked then none else some .scheduleTest)
  | .scheduleTest =>
    some (k, some (if k.status current = .running then .requeueAdd else .save))
  | .requeueAdd => do
    return (← k.addNodeTail (.ready (k.priority current)) current, some .requeueSet)
  | .requeueSet => some (k.osSetReady (k.priority current), some .requeueStatus)
  | .requeueStatus => some (k.setStatus current .ready, some .save)
  | .save => some (k, some .highest)
  | .highest => some (k, some (.firstNode k.vars.readyList.osGetHighestPriority))
  | .firstNode highestPriority => do
    return (k, some (.pickTask (← k.head (.ready highestPriority))))
  | .pickTask node => do return (k, some (.remove node (← k.vars.pnode node)))
  | .remove node nextTask => do
    return (← k.removeNode (.ready (k.priority nextTask)) node, some (.unsetTest nextTask))
  | .unsetTest nextTask =>
    some (k, some (if k.head (.ready (k.priority nextTask)) = none then .unset nextTask
      else .setRunning nextTask))
  | .unset nextTask => some (k.osUnsetReady (k.priority nextTask), some (.setRunning nextTask))
  | .setRunning nextTask => some (k.setStatus nextTask .running, some (.setCurrent nextTask))
  | .setCurrent nextTask => some (k.setCurrent (some nextTask), none)

omit [DecidableEq T] [Fintype T] in
/-- The task that a list routine has moved, until the statement after which its status agrees
with its place again. -/
def moving (current : T) : Statement T → Option T
  | .waitOwner _ | .waitStatus => some current
  | .readySet task | .readyStatus task => some task
  | .requeueSet | .requeueStatus => some current
  | .unsetTest nextTask | .unset nextTask | .setRunning nextTask => some nextTask
  | _ => none

/-- The statements from one on, without interruption, up to the return. -/
def run (current : T) : Nat → Statement T → Kernel Q T → Option (Kernel Q T)
  | 0, _, _ => none
  | fuel + 1, s, k => do
    match ← s.exec k current with
    | (k, some next) => run current fuel next k
    | (k, none) => return k

end Statement

/-! ## The system -/

/-- Where a task stands: in its own code, in a semaphore call, or at a statement of a routine,
which returns to its own code or to the `eos_acquire_semaphore` that has called it. -/
inductive Control (T : Type)
  | own
  | acquire (f : AcquireFrame)
  | release (f : ReleaseFrame)
  | routine (s : Statement T) (caller : Option AcquireFrame)
  deriving DecidableEq

/-- Where a task stands when a routine has returned. -/
def Control.back {T : Type} : Option AcquireFrame → Control T
  | none => .own
  | some f => .acquire f

/-- A kernel, and where each of its tasks stands. -/
structure StatementSystem (Q : Type → Type → Type) (T : Type) where
  kernel : Kernel Q T
  control : T → Control T

/-- The calls of a task.  `_os_wait_in_queue` and `_os_wakeup_from_queue` are called for a
condition variable, as `eos_wait_condition` and `eos_notify_condition` do. -/
inductive Invocation (T : Type)
  | acquire (sem : Nat) (timeout : Int32)
  | release (sem : Nat)
  | waitInQueue (c : Nat)
  | wakeupFromQueue (c : Nat)
  | sleep (tick : UInt32)
  | resumeTask (task : Option T)
  | schedule
  | lockScheduler
  | restoreScheduler (schedulerState : UInt8)
  deriving DecidableEq

/-- What happens next: the current task makes a call or takes the next step of one, or the timer
interrupt comes. -/
inductive Turn (T : Type)
  | invoke (i : Invocation T)
  | next
  | tick
  deriving DecidableEq

namespace StatementSystem

variable {Q : Type → Type → Type} [NodeLists Q] {T : Type} [DecidableEq T] [Fintype T]

omit [NodeLists Q] [Fintype T] in
/-- The kernel and the place of the current task have changed. -/
def put (s : StatementSystem Q T) (current : T) (k : Kernel Q T) (p : Control T) :
    StatementSystem Q T :=
  ⟨k, Function.update s.control current p⟩

omit [Fintype T] in
/-- A call enters a routine. -/
def enter (k : Kernel Q T) : Invocation T → Kernel Q T × Control T
  | .acquire sem timeout => (k, .acquire (.entry sem timeout))
  | .release sem => (k, .release (.entry sem))
  | .waitInQueue c => (k, .routine (.waitAdd (.condition c) (k.vars.condition c).queueType) none)
  | .wakeupFromQueue c => (k, .routine (.wakeTest (.condition c)) none)
  | .sleep tick => (k, .routine (.sleepLock tick) none)
  | .resumeTask task => (k, .routine (.resumeTest task) none)
  | .schedule => (k, .routine .scheduleLock none)
  | .lockScheduler => (k.osLockScheduler.2, .own)
  | .restoreScheduler schedulerState => (k.setLock schedulerState, .routine .scheduleLock none)

/-- The current task takes a step of the call it is in. -/
def advance (k : Kernel Q T) (current : T) : Control T → Option (Kernel Q T × Control T)
  | .own => none
  | .acquire f => do
    match ← f.step k with
    | (k, .goto g) => return (k, .acquire g)
    | (k, .wait g) =>
      return (k, .routine (.waitAdd (.semaphore g.sem) (k.vars.semaphore g.sem).queueType) (some g))
    | (k, _) => return (k, .own)
  | .release f =>
    match f.step k with
    | (k, .goto g) => some (k, .release g)
    | (k, _) =>
      some (k, if k.head (.wait (.semaphore f.sem)) = none then .own
        else .routine (.wakeTest (.semaphore f.sem)) none)
  | .routine s caller => do
    match ← s.exec k current with
    | (k, some next) => return (k, .routine next caller)
    | (k, none) => return (k, .back caller)

/-- The effect of a turn. -/
def exec (s : StatementSystem Q T) : Turn T → Option (StatementSystem Q T)
  | .invoke i => do
    let current ← s.kernel.vars.currentTask
    if s.control current = .own then
      let (k, p) := enter s.kernel i
      return s.put current k p
    else none
  | .next => do
    let current ← s.kernel.vars.currentTask
    let (k, p) ← advance s.kernel current (s.control current)
    return s.put current k p
  | .tick => do return { s with kernel := ← s.kernel.eosTriggerCounter }

/-! ## What a turn does -/

/-- What a step of a call does, one case for each way on. -/
inductive Advance (k : Kernel Q T) (current : T) : Control T → Kernel Q T → Control T → Prop
  | goto {f g : AcquireFrame} {k' : Kernel Q T} (hst : f.step k = some (k', .goto g)) :
      Advance k current (.acquire f) k' (.acquire g)
  | wait {f g : AcquireFrame} {k' : Kernel Q T} (hst : f.step k = some (k', .wait g)) :
      Advance k current (.acquire f) k' (.routine
        (.waitAdd (.semaphore g.sem) (k'.vars.semaphore g.sem).queueType) (some g))
  | leave {f : AcquireFrame} {k' : Kernel Q T} {v : UInt32}
      (hst : f.step k = some (k', .returned v)) : Advance k current (.acquire f) k' .own
  | increment (sem : Nat) : Advance k current (.release ⟨sem, .increment⟩)
      (k.setCount sem (k.count sem + 1)) (.release ⟨sem, .wake⟩)
  | wakeNone {sem : Nat} (hempty : k.head (.wait (.semaphore sem)) = none) :
      Advance k current (.release ⟨sem, .wake⟩) k .own
  | wake {sem : Nat} (hhead : k.head (.wait (.semaphore sem)) ≠ none) :
      Advance k current (.release ⟨sem, .wake⟩) k (.routine (.wakeTest (.semaphore sem)) none)
  | statement {st next : Statement T} {caller : Option AcquireFrame} {k' : Kernel Q T}
      (hst : st.exec k current = some (k', some next)) :
      Advance k current (.routine st caller) k' (.routine next caller)
  | back {st : Statement T} {caller : Option AcquireFrame} {k' : Kernel Q T}
      (hst : st.exec k current = some (k', none)) :
      Advance k current (.routine st caller) k' (.back caller)

variable {s s' : StatementSystem Q T} {k k' : Kernel Q T} {current : T} {p p' : Control T}

/-- A statement that has a result is one of those of `Advance`. -/
theorem advance_cases (h : advance k current p = some (k', p')) : Advance k current p k' p' := by
  cases p with
  | own => cases h
  | acquire f =>
    obtain ⟨⟨k₁, n⟩, hst, h⟩ := Option.bind_eq_some_iff.mp h
    cases n with
    | goto g =>
      cases h
      exact .goto hst
    | wait g =>
      cases h
      exact .wait hst
    | wake =>
      rcases AcquireFrame.step_cases hst with
        ⟨-, hn | ⟨g, -, hn | hn⟩⟩ | ⟨g, -, hn, -⟩ | ⟨hn, -⟩ <;> cases hn
    | returned v =>
      cases h
      exact .leave hst
  | release f =>
    obtain ⟨sem, point⟩ := f
    cases point with
    | increment =>
      cases h
      exact .increment sem
    | wake =>
      cases h
      split
      · next hempty => exact .wakeNone hempty
      · next hhead => exact .wake hhead
  | routine st caller =>
    obtain ⟨⟨k₁, r⟩, hst, h⟩ := Option.bind_eq_some_iff.mp h
    cases r with
    | none =>
      cases h
      exact .back hst
    | some next =>
      cases h
      exact .statement hst

/-- A call is made by the current task, from its own code. -/
theorem invoke_cases {i : Invocation T} (h : s.exec (.invoke i) = some s') :
    ∃ c, s.kernel.vars.currentTask = some c ∧ s.control c = .own ∧
      s' = s.put c (enter s.kernel i).1 (enter s.kernel i).2 := by
  obtain ⟨c, hc, h⟩ := Option.bind_eq_some_iff.mp h
  split at h
  · next hown => exact ⟨c, hc, hown, (Option.some.inj h).symm⟩
  · cases h

/-- The current task takes the next step. -/
theorem next_cases (h : s.exec .next = some s') :
    ∃ c k' p, s.kernel.vars.currentTask = some c ∧
      advance s.kernel c (s.control c) = some (k', p) ∧ s' = s.put c k' p := by
  obtain ⟨c, hc, h⟩ := Option.bind_eq_some_iff.mp h
  obtain ⟨⟨k', p⟩, hadv, h⟩ := Option.bind_eq_some_iff.mp h
  exact ⟨c, k', p, hc, hadv, (Option.some.inj h).symm⟩

/-- A tick in the middle of a call is one of the kernel, and the call stays where it is. -/
theorem tick_cases (h : s.exec .tick = some s') :
    ∃ k', s.kernel.eosTriggerCounter = some k' ∧ s' = { s with kernel := k' } := by
  obtain ⟨k', hk', h⟩ := Option.bind_eq_some_iff.mp h
  exact ⟨k', hk', (Option.some.inj h).symm⟩

end StatementSystem

end Eos.Model
