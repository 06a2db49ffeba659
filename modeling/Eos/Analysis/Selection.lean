import Eos.Interface.Rings
import Eos.Model.Sync

/-!
# The task that a call leads to

Which task executes when a call of the kernel is over can be told from the state before it.  A call
that does not get to `eos_schedule` leads back to its caller.  `eos_schedule` selects the first task
of the most urgent ready queue (core/task.c:88-139); before it the call may have put a task at the
end of its ready queue, and a caller that is still running goes to the end of its own.

`selects` says it for every call of a task or a handler, from the ready queues, the bitmap, the
statuses and the lists that the call finds; `exec_selects` that the code gets there.
-/

set_option autoImplicit false

namespace Eos.Analysis

open Eos.Lib (LinkMem)
open Eos.Model
open Eos.Interface (osAddNodeTail_head osAddNodeOrdered_head)

variable {T : Type} [DecidableEq T]

/-! ## What is selected -/

section Defs

/-- The first task of the most urgent ready queue. -/
def firstReady (k : Kernel LinkMem T) : Option T :=
  (k.head (.ready k.vars.readyList.osGetHighestPriority)).bind k.vars.pnode

/-- What `eos_schedule` selects. -/
def selected (k : Kernel LinkMem T) : Option T :=
  if k.vars.schedulerLock = locked then k.vars.currentTask else k.requeueCurrent.bind firstReady

/-- What it selects when the caller is not running any more. -/
def selectedWaiting (k : Kernel LinkMem T) : Option T :=
  if k.vars.schedulerLock = locked then k.vars.currentTask else firstReady k

/-- A call of `_os_wakeup_from_queue`: the first waiter goes to its ready queue. -/
def wakeSelects (k : Kernel LinkMem T) (q : WaitQueue) : Option T :=
  match k.head (.wait q) with
  | none => k.vars.currentTask
  | some node => do
    let task ← k.vars.pnode node
    let k ← k.removeNode (.wait q) task
    let k ← k.addReady task
    selected (k.setStatus task .ready)

/-- A call of `eos_create_task`: the new task goes to its ready queue, unless it is refused. -/
def createSelects (k : Kernel LinkMem T) (task : Option T) (sblockStart sblockSize entry : UInt64)
    (priority : Nat) : Option T :=
  match task with
  | none => k.vars.currentTask
  | some task =>
    if entry = 0 ∨ priority > lowestPriority ∨ sblockStart = 0 ∨ sblockSize < minStackSize then
      k.vars.currentTask
    else do
      let k := k.setTcb task fun b =>
        { b with priority := priority, period := 0, wakeupTime := 0 }
      let k ← ((k.setPnode task).setOrderVal task priority).addReady task
      selected (k.setStatus task .ready)

/-- A call of `eos_change_priority`: a ready task goes to its new ready queue. -/
def changeSelects (k : Kernel LinkMem T) (task : Option T) (priority : Nat) : Option T :=
  match task with
  | none => k.vars.currentTask
  | some task =>
    if priority > lowestPriority then k.vars.currentTask
    else do
      let k ← (if k.status task = .ready then k.moveReady task priority else some k)
      selected ((k.setTcb task fun b => { b with priority := priority }).setOrderVal task priority)

/-- A call of `eos_resume_task`: a suspended task goes to its ready queue. -/
def resumeSelects (k : Kernel LinkMem T) (task : Option T) : Option T :=
  match task with
  | none => k.vars.currentTask
  | some task =>
    if k.status task = .suspended then do
      let k ← k.addReady task
      selected (k.setStatus task .ready)
    else k.vars.currentTask

/-- A call of `eos_sleep`: the caller waits, unless the next period has begun. -/
def sleepSelects (k : Kernel LinkMem T) (tick : UInt32) : Option T := do
  let current ← k.vars.currentTask
  let b := k.vars.tcb current
  if tick = 0 ∧ b.period ≠ 0 ∧ b.wakeupTime + b.period ≤ k.tick then k.vars.currentTask
  else selectedWaiting k

/-- A call of `eos_acquire_semaphore`: the caller waits, unless the semaphore is free. -/
def acquireSelects (k : Kernel LinkMem T) (s : Nat) (timeout : Int32) : Option T :=
  if k.vars.schedulerLock ≠ 0 ∨ 0 < k.count s ∨ timeout < 0 then k.vars.currentTask
  else selectedWaiting k

/-- Such a call that goes on behind `_os_wait_in_queue`. -/
def retrySelects (k : Kernel LinkMem T) (s : Nat) (timeout : Int32) (absTimeout : UInt32) :
    Option T :=
  if timeout ≠ 0 ∧ absTimeout ≤ k.tick ∨ 0 < k.count s then k.vars.currentTask
  else selectedWaiting k

variable [Fintype T]

/-- A call of `eos_wait_condition` that goes on behind `eos_release_semaphore`: the caller waits. If
it is selected itself, it goes on to `eos_acquire_semaphore`. -/
def conditionSelects (k : Kernel LinkMem T) (c m : Nat) : Option T :=
  if selectedWaiting k = k.vars.currentTask then do
    acquireSelects (← k.osWaitInQueue (.condition c) (k.vars.condition c).queueType) m 0
  else selectedWaiting k

/-- The task that executes when a call is over. -/
def selects (s : System LinkMem T) : Call T → Option T
  | .kernel (.createTask task start size entry priority) =>
    createSelects s.kernel task start size entry priority
  | .kernel .schedule => selected s.kernel
  | .kernel (.changePriority task priority) => changeSelects s.kernel task priority
  | .kernel (.resumeTask task) => resumeSelects s.kernel task
  | .kernel (.sleep tick) => sleepSelects s.kernel tick
  | .kernel (.restoreScheduler schedulerState) => selected (s.kernel.setLock schedulerState)
  | .kernel .start => selected (s.kernel.setLock unlocked)
  | .kernel (.waitInQueue ..) => selectedWaiting s.kernel
  | .kernel (.wakeupFromQueue q) => wakeSelects s.kernel q
  | .kernel .tick => s.kernel.triggerAlarms.bind selected
  | .kernel (.setPeriod ..) | .kernel (.suspendTask _) | .kernel .lockScheduler =>
    s.kernel.vars.currentTask
  | .acquire sem timeout => acquireSelects s.kernel sem timeout
  | .release sem =>
    wakeSelects (s.kernel.setCount sem (s.kernel.count sem + 1)) (.semaphore sem)
  | .notifyCondition c => wakeSelects s.kernel (.condition c)
  | .waitCondition c m => do
    let k ← s.kernel.eosReleaseSemaphore m
    if k.vars.currentTask = s.kernel.vars.currentTask then conditionSelects k c m
    else k.vars.currentTask
  | .goOn => do
    match s.resume (← s.kernel.vars.currentTask) with
    | .user => none
    | .acquire sem timeout absTimeout => retrySelects s.kernel sem timeout absTimeout
    | .released c m => conditionSelects s.kernel c m
    | .notified m => acquireSelects s.kernel m 0

end Defs

/-! ## The routines -/

variable {k k' : Kernel LinkMem T}

/-- `eos_schedule` (core/task.c:88-139) -/
theorem eosSchedule_selected (hk : k.eosSchedule = some k') :
    k'.vars.currentTask = selected k := by
  unfold Kernel.eosSchedule at hk
  unfold selected
  split at hk
  · next hlock =>
    cases hk
    rw [if_pos hlock]
  · next hlock =>
    obtain ⟨k₁, hk₁, hk⟩ := Option.bind_eq_some_iff.mp hk
    obtain ⟨node, hnode, hk⟩ := Option.bind_eq_some_iff.mp hk
    obtain ⟨next, hnext, hk⟩ := Option.bind_eq_some_iff.mp hk
    obtain ⟨k₂, -, hk⟩ := Option.bind_eq_some_iff.mp hk
    cases hk
    rw [if_neg hlock, hk₁, Option.bind_some, firstReady, hnode, Option.bind_some, hnext]
    rfl

/-- A caller that is not running is not selected from its own place. -/
theorem selected_waiting {c : T} (hc : k.vars.currentTask = some c) (hs : k.status c ≠ .running) :
    selected k = selectedWaiting k := by
  rw [selected, selectedWaiting, Kernel.requeueCurrent, hc]
  simp only [if_neg hs, Option.bind_some]

/-- `_os_wakeup_from_queue` (core/task.c:300-316) -/
theorem osWakeupFromQueue_selects {q : WaitQueue} (hk : k.osWakeupFromQueue q = some k') :
    k'.vars.currentTask = wakeSelects k q := by
  unfold Kernel.osWakeupFromQueue at hk
  unfold wakeSelects
  cases hhead : k.head (.wait q) with
  | none =>
    rw [hhead] at hk
    cases hk
    rfl
  | some node =>
    rw [hhead] at hk
    obtain ⟨task, htask, hk⟩ := Option.bind_eq_some_iff.mp hk
    obtain ⟨k₁, hk₁, hk⟩ := Option.bind_eq_some_iff.mp hk
    obtain ⟨k₂, hk₂, hk⟩ := Option.bind_eq_some_iff.mp hk
    simp only [htask, Option.bind_eq_bind, Option.bind_some, hk₁, hk₂]
    exact eosSchedule_selected hk

/-- `eos_create_task` (core/task.c:34-79) -/
theorem eosCreateTask_selects {task : Option T} {start size entry : UInt64} {p : Nat} {r : UInt32}
    (hk : k.eosCreateTask task start size entry p = some (r, k')) :
    k'.vars.currentTask = createSelects k task start size entry p := by
  cases task with
  | none =>
    cases hk
    rfl
  | some task =>
    have hrefuse (h : entry = 0 ∨ p > lowestPriority ∨ start = 0 ∨ size < minStackSize) :
        createSelects k (some task) start size entry p = k.vars.currentTask := if_pos h
    simp only [Kernel.eosCreateTask] at hk
    split at hk
    · next h =>
      cases hk
      exact (hrefuse (.inl h)).symm
    split at hk
    · next h =>
      cases hk
      exact (hrefuse (.inr (.inl h))).symm
    split at hk
    · next h =>
      cases hk
      exact (hrefuse (.inr (.inr h))).symm
    next hentry hp hblock =>
    obtain ⟨k₁, hk₁, hk⟩ := Option.bind_eq_some_iff.mp hk
    obtain ⟨k₂, hk₂, hk⟩ := Option.bind_eq_some_iff.mp hk
    cases hk
    have haccepted : ¬(entry = 0 ∨ p > lowestPriority ∨ start = 0 ∨ size < minStackSize) :=
      not_or.mpr ⟨hentry, not_or.mpr ⟨hp, hblock⟩⟩
    simp only [createSelects, if_neg haccepted, hk₁, Option.bind_eq_bind, Option.bind_some]
    exact eosSchedule_selected hk₂

/-- `eos_change_priority` (core/task.c:148-172) -/
theorem eosChangePriority_selects {task : Option T} {p : Nat}
    (hk : k.eosChangePriority task p = some k') :
    k'.vars.currentTask = changeSelects k task p := by
  cases task with
  | none =>
    cases hk
    rfl
  | some task =>
    unfold Kernel.eosChangePriority at hk
    unfold changeSelects
    by_cases hp : p > lowestPriority
    · simp only [if_pos hp] at hk ⊢
      cases hk
      rfl
    · simp only [if_neg hp] at hk ⊢
      obtain ⟨k₁, hk₁, hk⟩ := Option.bind_eq_some_iff.mp hk
      rw [hk₁]
      exact eosSchedule_selected hk

/-- `eos_resume_task` (core/task.c:212-226) -/
theorem eosResumeTask_selects {task : Option T} {r : UInt32}
    (hk : k.eosResumeTask task = some (r, k')) :
    k'.vars.currentTask = resumeSelects k task := by
  cases task with
  | none =>
    cases hk
    rfl
  | some task =>
    unfold Kernel.eosResumeTask at hk
    unfold resumeSelects
    by_cases hs : k.status task = .suspended
    · simp only [if_pos hs] at hk ⊢
      obtain ⟨k₁, hk₁, hk⟩ := Option.bind_eq_some_iff.mp hk
      obtain ⟨k₂, hk₂, hk⟩ := Option.bind_eq_some_iff.mp hk
      cases hk
      rw [hk₁]
      exact eosSchedule_selected hk₂
    · simp only [if_neg hs] at hk ⊢
      cases hk
      rfl

/-- A task that is not suspended, or is suspended by the call, leaves the processor to the caller
(core/task.c:195-209). -/
theorem eosSuspendTask_current {task : Option T} {r : UInt32}
    (hk : k.eosSuspendTask task = some (r, k')) : k'.vars.currentTask = k.vars.currentTask := by
  cases task with
  | none =>
    cases hk
    rfl
  | some task =>
    simp only [Kernel.eosSuspendTask] at hk
    split at hk
    · obtain ⟨k₁, hk₁, hk⟩ := Option.bind_eq_some_iff.mp hk
      cases hk
      unfold Kernel.removeReady Kernel.removeNode at hk₁
      obtain ⟨k₂, hk₂, hk₁⟩ := Option.bind_eq_some_iff.mp hk₁
      obtain ⟨queue, -, hk₂⟩ := Option.bind_eq_some_iff.mp hk₂
      cases hk₂
      cases hk₁
      unfold Kernel.unsetIfEmpty
      split
      · rfl
      · rfl
    · cases hk
      rfl

/-! ## Waiting -/

omit [DecidableEq T] in
/-- What is selected depends on the ready queues, the bitmap and the nodes. -/
theorem selectedWaiting_congr (hhead : ∀ p, k'.head (.ready p) = k.head (.ready p))
    (hready : k'.vars.readyList = k.vars.readyList) (hpnode : k'.vars.pnode = k.vars.pnode)
    (hlock : k'.vars.schedulerLock = k.vars.schedulerLock)
    (hcurrent : k'.vars.currentTask = k.vars.currentTask) :
    selectedWaiting k' = selectedWaiting k := by
  rw [selectedWaiting, selectedWaiting, firstReady, firstReady, hready, hhead, hpnode, hlock,
    hcurrent]

variable [Fintype T]

/-- `_os_wait_in_queue` (core/task.c:273-297) -/
theorem osWaitInQueue_selects {q : WaitQueue} {queueType : UInt8}
    (hk : k.osWaitInQueue q queueType = some k') :
    k'.vars.currentTask = selectedWaiting k := by
  obtain ⟨c, hc, hk⟩ := Option.bind_eq_some_iff.mp hk
  obtain ⟨k₁, hk₁, hk⟩ := Option.bind_eq_some_iff.mp hk
  have hkept : k₁.vars = k.vars ∧ ∀ p, k₁.head (.ready p) = k.head (.ready p) := by
    unfold Kernel.addWaiter at hk₁
    split at hk₁
    · obtain ⟨queue, hqueue, hk₁⟩ := Option.bind_eq_some_iff.mp hk₁
      cases hk₁
      exact ⟨rfl, fun p => osAddNodeTail_head hqueue (by simp)⟩
    · obtain ⟨queue, hqueue, hk₁⟩ := Option.bind_eq_some_iff.mp hk₁
      cases hk₁
      exact ⟨rfl, fun p => osAddNodeOrdered_head hqueue (by simp)⟩
  obtain ⟨hvars, hhead⟩ := hkept
  have hcur : ((k₁.setOwner c (some q)).setStatus c .waiting).vars.currentTask = some c := by
    rw [← hc, ← hvars]
    rfl
  have hstatus : ((k₁.setOwner c (some q)).setStatus c .waiting).status c ≠ .running := by
    simp
  rw [eosSchedule_selected hk, selected_waiting hcur hstatus]
  apply selectedWaiting_congr
  · exact hhead
  · show k₁.vars.readyList = k.vars.readyList
    rw [hvars]
  · show k₁.vars.pnode = k.vars.pnode
    rw [hvars]
  · show k₁.vars.schedulerLock = k.vars.schedulerLock
    rw [hvars]
  · show k₁.vars.currentTask = k.vars.currentTask
    rw [hvars]

/-- The end of `eos_sleep` -/
theorem sleepFor_selects {c : T} {timeout : UInt32} (hc : k.vars.currentTask = some c)
    (hk : k.sleepFor c timeout = some k') : k'.vars.currentTask = selectedWaiting k := by
  obtain ⟨k₁, hk₁, hk⟩ := Option.bind_eq_some_iff.mp hk
  obtain ⟨m, -, hk₁⟩ := Option.bind_eq_some_iff.mp hk₁
  cases hk₁
  have hcur : ((k.setTimers m).setStatus c .waiting).vars.currentTask = some c := hc
  have hstatus : ((k.setTimers m).setStatus c .waiting).status c ≠ .running := by simp
  rw [eosSchedule_selected hk, selected_waiting hcur hstatus]
  rfl

/-- `eos_sleep` (core/task.c:229-256) -/
theorem eosSleep_selects {tick : UInt32} (hk : k.eosSleep tick = some k') :
    k'.vars.currentTask = sleepSelects k tick := by
  unfold Kernel.eosSleep at hk
  unfold sleepSelects
  split at hk
  · next hlock =>
    cases hk
    simp only [selectedWaiting, if_pos hlock, ite_self]
    cases k.vars.currentTask with
    | none => rfl
    | some c => rfl
  · obtain ⟨c, hc, hk⟩ := Option.bind_eq_some_iff.mp hk
    simp only [hc, Option.bind_eq_bind, Option.bind_some]
    split at hk
    · next hperiod =>
      have hwake : ((k.setTcb c fun b => { b with wakeupTime := b.wakeupTime + b.period }).vars.tcb
          c).wakeupTime = (k.vars.tcb c).wakeupTime + (k.vars.tcb c).period := by simp
      dsimp only at hk
      rw [hwake] at hk
      split at hk
      · next hle =>
        cases hk
        rw [if_pos ⟨hperiod.1, hperiod.2, hle⟩]
        exact hc
      · next hlt =>
        rw [if_neg fun h => hlt h.2.2]
        exact sleepFor_selects (k := k.setTcb c _) hc hk
    · next hperiod =>
      rw [if_neg fun h => hperiod ⟨h.1, h.2.1⟩]
      exact sleepFor_selects hc hk

/-- `eos_acquire_semaphore` (core/sync.c:25-75) -/
theorem eosAcquireSemaphore_selects {sem : Nat} {timeout : Int32} {r : CallResult}
    (hk : k.eosAcquireSemaphore sem timeout = some (r, k')) :
    k'.vars.currentTask = acquireSelects k sem timeout := by
  unfold Kernel.eosAcquireSemaphore at hk
  unfold acquireSelects
  split at hk
  · next hlock =>
    cases hk
    rw [if_pos (.inl hlock)]
  dsimp only at hk
  split at hk
  · next hlock hcount =>
    split at hk
    · next hneg =>
      cases hk
      rw [if_pos (.inr (.inr hneg))]
    · next hneg =>
      obtain ⟨c, hc, hk⟩ := Option.bind_eq_some_iff.mp hk
      obtain ⟨k₁, hk₁, hk⟩ := Option.bind_eq_some_iff.mp hk
      obtain ⟨k₂, hk₂, hk⟩ := Option.bind_eq_some_iff.mp hk
      cases hk
      unfold Kernel.setAlarm at hk₁
      obtain ⟨m, -, hk₁⟩ := Option.bind_eq_some_iff.mp hk₁
      cases hk₁
      have hwaits : ¬(k.vars.schedulerLock ≠ 0 ∨ 0 < k.count sem ∨ timeout < 0) := by
        rintro (h | h | h)
        · exact hlock h
        · omega
        · exact hneg h
      rw [if_neg hwaits]
      exact osWaitInQueue_selects (k := k.setTimers m) hk₂
  · next hcount =>
    cases hk
    rw [if_pos (.inr (.inl (not_le.mp hcount)))]
    rfl

/-- `eos_acquire_semaphore` behind `_os_wait_in_queue` (core/sync.c:58-75) -/
theorem acquireRetry_selects {sem : Nat} {timeout : Int32} {absTimeout : UInt32} {r : CallResult}
    (hk : k.acquireRetry sem timeout absTimeout = some (r, k')) :
    k'.vars.currentTask = retrySelects k sem timeout absTimeout := by
  unfold Kernel.acquireRetry at hk
  unfold retrySelects
  split at hk
  · next hlate =>
    cases hk
    rw [if_pos (.inl hlate)]
  · next hlate =>
    split at hk
    · next hcount =>
      obtain ⟨k₁, hk₁, hk⟩ := Option.bind_eq_some_iff.mp hk
      cases hk
      rw [if_neg (not_or.mpr ⟨hlate, not_lt.mpr hcount⟩)]
      exact osWaitInQueue_selects hk₁
    · next hcount =>
      obtain ⟨c, hc, hk⟩ := Option.bind_eq_some_iff.mp hk
      obtain ⟨k₁, hk₁, hk⟩ := Option.bind_eq_some_iff.mp hk
      cases hk
      unfold Kernel.setAlarm at hk₁
      obtain ⟨m, -, hk₁⟩ := Option.bind_eq_some_iff.mp hk₁
      cases hk₁
      rw [if_pos (.inr (not_le.mp hcount))]
      rfl

/-- `eos_wait_condition` behind `eos_release_semaphore` (core/sync.c:121-126) -/
theorem waitCondition_selects {c m : Nat} {r : CallResult}
    (hk : k.waitCondition c m = some (r, k')) : k'.vars.currentTask = conditionSelects k c m := by
  obtain ⟨k₁, hk₁, hk⟩ := Option.bind_eq_some_iff.mp hk
  have hcur := osWaitInQueue_selects hk₁
  unfold conditionSelects
  rw [← hcur]
  split at hk
  · next hsame =>
    rw [if_pos hsame, hk₁]
    exact eosAcquireSemaphore_selects hk
  · next hother =>
    cases hk
    rw [if_neg hother]

/-- The operations of `core/task.c`, the scheduler lock and the tick -/
theorem op_selects {s : System LinkMem T} {o : Op T} (hk : s.kernel.exec o = some k') :
    k'.vars.currentTask = selects s (.kernel o) := by
  cases o with
  | createTask =>
    obtain ⟨⟨r, k₁⟩, hk₁, rfl⟩ := Option.map_eq_some_iff.mp hk
    exact eosCreateTask_selects hk₁
  | schedule => exact eosSchedule_selected hk
  | changePriority => exact eosChangePriority_selects hk
  | setPeriod | lockScheduler =>
    cases hk
    rfl
  | suspendTask =>
    obtain ⟨⟨r, k₁⟩, hk₁, rfl⟩ := Option.map_eq_some_iff.mp hk
    exact eosSuspendTask_current hk₁
  | resumeTask =>
    obtain ⟨⟨r, k₁⟩, hk₁, rfl⟩ := Option.map_eq_some_iff.mp hk
    exact eosResumeTask_selects hk₁
  | sleep => exact eosSleep_selects hk
  | restoreScheduler | start => exact eosSchedule_selected hk
  | waitInQueue => exact osWaitInQueue_selects hk
  | wakeupFromQueue => exact osWakeupFromQueue_selects hk
  | tick =>
    obtain ⟨k₁, hk₁, hk⟩ := Option.bind_eq_some_iff.mp hk
    show _ = s.kernel.triggerAlarms.bind selected
    rw [hk₁]
    exact eosSchedule_selected hk

omit [Fintype T] in
/-- `eos_release_semaphore` (core/sync.c:78-94) -/
theorem eosReleaseSemaphore_selects {sem : Nat} (hk : k.eosReleaseSemaphore sem = some k') :
    k'.vars.currentTask = wakeSelects (k.setCount sem (k.count sem + 1)) (.semaphore sem) := by
  unfold Kernel.eosReleaseSemaphore at hk
  dsimp only at hk
  split at hk
  · next hhead =>
    cases hk
    rw [wakeSelects, hhead]
  · exact osWakeupFromQueue_selects hk

/-- **The task that a call leads to** is the one that can be told before it. -/
theorem exec_selects {s s' : System LinkMem T} {call : Call T} (h : s.exec call = some s') :
    s'.kernel.vars.currentTask = selects s call := by
  cases System.exec_effect h with
  | kernel hk => exact op_selects hk
  | release hk => exact eosReleaseSemaphore_selects hk
  | notify hk => exact osWakeupFromQueue_selects hk
  | @part _ caller r k hc hr =>
    rw [System.leave_kernel]
    cases call with
    | acquire => exact eosAcquireSemaphore_selects hr
    | waitCondition c m =>
      obtain ⟨k₁, hk₁, hr⟩ := Option.bind_eq_some_iff.mp hr
      show _ = (s.kernel.eosReleaseSemaphore m).bind _
      rw [hk₁, Option.bind_some]
      split at hr
      · next hsame =>
        rw [if_pos hsame]
        exact waitCondition_selects hr
      · next hother =>
        cases hr
        rw [if_neg hother]
    | goOn =>
      show _ = s.kernel.vars.currentTask.bind _
      rw [hc, Option.bind_some]
      change s.kernel.goOn (s.resume caller) = some (r, k) at hr
      cases hresume : s.resume caller with
      | user =>
        rw [hresume] at hr
        cases hr
      | acquire sem timeout absTimeout =>
        rw [hresume] at hr
        exact acquireRetry_selects hr
      | released c m =>
        rw [hresume] at hr
        exact waitCondition_selects hr
      | notified m =>
        rw [hresume] at hr
        exact eosAcquireSemaphore_selects hr
    | kernel | release | notifyCondition => cases hr

end Eos.Analysis
