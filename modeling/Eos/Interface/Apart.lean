import Eos.Model.Operations

/-!
# Parts of the kernel that scheduling leaves alone

The routines of core/task.c move tasks between the lists and mark them.  What does not depend on
the lists, the timers and these marks stays as it is (`Apart`): the counts of the semaphores, and
the period and the wakeup time of a task.
-/

set_option autoImplicit false

namespace Eos.Interface

open Eos.Model

variable {Q : Type → Type → Type} {T X : Type} [DecidableEq T]

/-- What is seen of a kernel does not depend on the lists and the marks of the tasks. -/
structure Apart (obs : Kernel Q T → X) : Prop where
  setQueue : ∀ k queue, obs (k.setQueue queue) = obs k
  setTimers : ∀ k timers, obs (k.setTimers timers) = obs k
  setTcb : ∀ k t f, (∀ b : Tcb, (f b).period = b.period ∧ (f b).wakeupTime = b.wakeupTime) →
    obs (k.setTcb t f) = obs k
  setPnode : ∀ k t, obs (k.setPnode t) = obs k
  setOrderVal : ∀ k t n, obs (k.setOrderVal t n) = obs k
  setCurrent : ∀ k t, obs (k.setCurrent t) = obs k
  setLock : ∀ k v, obs (k.setLock v) = obs k
  setReadyList : ∀ k r, obs (k.setReadyList r) = obs k

/-- `task->period` and `task->wakeup_time` -/
def job (t : T) (k : Kernel Q T) : UInt32 × UInt32 :=
  ((k.vars.tcb t).period, (k.vars.tcb t).wakeupTime)

/-- The semaphores, without their wait queues. -/
theorem apart_semaphore : Apart fun k : Kernel Q T => k.vars.semaphore :=
  ⟨fun _ _ => rfl, fun _ _ => rfl, fun _ _ _ _ => rfl, fun _ _ => rfl, fun _ _ _ => rfl,
    fun _ _ => rfl, fun _ _ => rfl, fun _ _ => rfl⟩

/-- The period of a task and the start of its next one. -/
theorem apart_job (t : T) : Apart (job t : Kernel Q T → UInt32 × UInt32) where
  setQueue _ _ := rfl
  setTimers _ _ := rfl
  setPnode _ _ := rfl
  setOrderVal _ _ _ := rfl
  setCurrent _ _ := rfl
  setLock _ _ := rfl
  setReadyList _ _ := rfl
  setTcb k u f hf := by
    unfold job
    by_cases ht : t = u
    · subst ht
      simp [hf]
    · simp [ht]

namespace Apart

variable [NodeLists Q] {obs : Kernel Q T → X} {k k' : Kernel Q T} {t : T} {h : QueueHead}
  {p : Nat} {q : WaitQueue}

omit [NodeLists Q] in
/-- A new status. -/
theorem setStatus (ho : Apart obs) (k : Kernel Q T) (t : T) (s : Status) :
    obs (k.setStatus t s) = obs k := ho.setTcb k t _ fun _ => ⟨rfl, rfl⟩

omit [NodeLists Q] in
/-- A new owner. -/
theorem setOwner (ho : Apart obs) (k : Kernel Q T) (t : T) (q : Option WaitQueue) :
    obs (k.setOwner t q) = obs k := ho.setTcb k t _ fun _ => ⟨rfl, rfl⟩

/-! ## Moves of the lists -/

/-- `_os_add_node_tail` -/
theorem addNodeTail (ho : Apart obs) (hk : k.addNodeTail h t = some k') : obs k' = obs k := by
  obtain ⟨queue, -, hk⟩ := Option.bind_eq_some_iff.mp hk
  cases hk
  exact ho.setQueue k queue

/-- `_os_add_node_ordered` -/
theorem addNodeOrdered [Fintype T] (ho : Apart obs) (hk : k.addNodeOrdered h t = some k') :
    obs k' = obs k := by
  obtain ⟨queue, -, hk⟩ := Option.bind_eq_some_iff.mp hk
  cases hk
  exact ho.setQueue k queue

/-- `_os_remove_node` -/
theorem removeNode (ho : Apart obs) (hk : k.removeNode h t = some k') : obs k' = obs k := by
  obtain ⟨queue, -, hk⟩ := Option.bind_eq_some_iff.mp hk
  cases hk
  exact ho.setQueue k queue

/-- The bit of an empty ready queue is cleared. -/
theorem unsetIfEmpty (ho : Apart obs) (k : Kernel Q T) (p : Nat) :
    obs (k.unsetIfEmpty p) = obs k := by
  unfold Kernel.unsetIfEmpty
  split
  · exact ho.setReadyList k _
  · rfl

/-- A task goes to its ready queue. -/
theorem addReady (ho : Apart obs) (hk : k.addReady t = some k') : obs k' = obs k := by
  obtain ⟨k₁, hk₁, hk⟩ := Option.bind_eq_some_iff.mp hk
  cases hk
  exact (ho.setReadyList k₁ _).trans (ho.addNodeTail hk₁)

/-- A task leaves its ready queue. -/
theorem removeReady (ho : Apart obs) (hk : k.removeReady t = some k') : obs k' = obs k := by
  obtain ⟨k₁, hk₁, hk⟩ := Option.bind_eq_some_iff.mp hk
  cases hk
  exact (ho.unsetIfEmpty k₁ _).trans (ho.removeNode hk₁)

/-- A task goes to a wait queue. -/
theorem addWaiter [Fintype T] {queueType : UInt8} (ho : Apart obs)
    (hk : k.addWaiter q queueType t = some k') : obs k' = obs k := by
  unfold Kernel.addWaiter at hk
  split at hk
  · exact ho.addNodeTail hk
  · exact ho.addNodeOrdered hk

/-! ## The routines -/

/-- `eos_schedule` (core/task.c:88-139) -/
theorem eosSchedule (ho : Apart obs) (hk : k.eosSchedule = some k') : obs k' = obs k := by
  unfold Kernel.eosSchedule at hk
  split at hk
  · cases hk
    rfl
  obtain ⟨k₁, hk₁, hk⟩ := Option.bind_eq_some_iff.mp hk
  have hrequeue : obs k₁ = obs k := by
    unfold Kernel.requeueCurrent at hk₁
    split at hk₁
    · cases hk₁
      rfl
    split at hk₁
    · obtain ⟨k₂, hk₂, hk₁⟩ := Option.bind_eq_some_iff.mp hk₁
      cases hk₁
      exact (ho.setStatus k₂ _ _).trans (ho.addReady hk₂)
    · cases hk₁
      rfl
  obtain ⟨node, -, hk⟩ := Option.bind_eq_some_iff.mp hk
  obtain ⟨next, -, hk⟩ := Option.bind_eq_some_iff.mp hk
  obtain ⟨k₂, hk₂, hk⟩ := Option.bind_eq_some_iff.mp hk
  cases hk
  calc obs _ = obs ((k₂.unsetIfEmpty _).setStatus next .running) := ho.setCurrent _ _
    _ = obs k₂ := (ho.setStatus _ _ _).trans (ho.unsetIfEmpty k₂ _)
    _ = obs k := (ho.removeNode hk₂).trans hrequeue

/-- `eos_create_task` (core/task.c:34-79), for what does not depend on the TCB of the new task -/
theorem eosCreateTask {task : Option T} {start size entry : UInt64} {v : UInt32}
    (ho : Apart obs) (hnew : ∀ u ∈ task, ∀ k f, obs (k.setTcb u f) = obs k)
    (hk : k.eosCreateTask task start size entry p = some (v, k')) : obs k' = obs k := by
  unfold Kernel.eosCreateTask at hk
  split at hk
  · cases hk
    rfl
  next u =>
  split at hk
  · cases hk
    rfl
  split at hk
  · cases hk
    rfl
  split at hk
  · cases hk
    rfl
  obtain ⟨k₁, hk₁, hk⟩ := Option.bind_eq_some_iff.mp hk
  obtain ⟨k₂, hk₂, hk⟩ := Option.bind_eq_some_iff.mp hk
  cases hk
  calc obs k' = obs _ := ho.eosSchedule hk₂
    _ = obs k₁ := ho.setStatus k₁ _ _
    _ = obs _ := ho.addReady hk₁
    _ = obs _ := ho.setOrderVal _ _ _
    _ = obs _ := ho.setPnode _ _
    _ = obs k := hnew u rfl k _

/-- `eos_change_priority` (core/task.c:148-172) -/
theorem eosChangePriority {task : Option T} (ho : Apart obs)
    (hk : k.eosChangePriority task p = some k') : obs k' = obs k := by
  unfold Kernel.eosChangePriority at hk
  split at hk
  · cases hk
    rfl
  split at hk
  · cases hk
    rfl
  obtain ⟨k₁, hk₁, hk⟩ := Option.bind_eq_some_iff.mp hk
  have hmove : obs k₁ = obs k := by
    split at hk₁
    · obtain ⟨k₂, hk₂, hk₁⟩ := Option.bind_eq_some_iff.mp hk₁
      obtain ⟨k₃, hk₃, hk₁⟩ := Option.bind_eq_some_iff.mp hk₁
      cases hk₁
      exact (ho.setReadyList k₃ _).trans ((ho.addNodeTail hk₃).trans (ho.removeReady hk₂))
    · cases hk₁
      rfl
  calc obs k' = obs _ := ho.eosSchedule hk
    _ = obs _ := ho.setOrderVal _ _ _
    _ = obs k₁ := ho.setTcb k₁ _ _ fun _ => ⟨rfl, rfl⟩
    _ = obs k := hmove

/-- `eos_suspend_task` (core/task.c:195-209) -/
theorem eosSuspendTask {task : Option T} {v : UInt32} (ho : Apart obs)
    (hk : k.eosSuspendTask task = some (v, k')) : obs k' = obs k := by
  unfold Kernel.eosSuspendTask at hk
  split at hk
  · cases hk
    rfl
  split at hk
  · obtain ⟨k₁, hk₁, hk⟩ := Option.bind_eq_some_iff.mp hk
    cases hk
    exact (ho.setStatus k₁ _ _).trans (ho.removeReady hk₁)
  · cases hk
    rfl

/-- `eos_resume_task` (core/task.c:212-226) -/
theorem eosResumeTask {task : Option T} {v : UInt32} (ho : Apart obs)
    (hk : k.eosResumeTask task = some (v, k')) : obs k' = obs k := by
  unfold Kernel.eosResumeTask at hk
  split at hk
  · cases hk
    rfl
  split at hk
  · obtain ⟨k₁, hk₁, hk⟩ := Option.bind_eq_some_iff.mp hk
    obtain ⟨k₂, hk₂, hk⟩ := Option.bind_eq_some_iff.mp hk
    cases hk
    exact (ho.eosSchedule hk₂).trans ((ho.setStatus k₁ _ _).trans (ho.addReady hk₁))
  · cases hk
    rfl

/-- `_os_wait_in_queue` (core/task.c:273-297) -/
theorem osWaitInQueue [Fintype T] {queueType : UInt8} (ho : Apart obs)
    (hk : k.osWaitInQueue q queueType = some k') : obs k' = obs k := by
  obtain ⟨current, -, hk⟩ := Option.bind_eq_some_iff.mp hk
  obtain ⟨k₁, hk₁, hk⟩ := Option.bind_eq_some_iff.mp hk
  calc obs k' = obs _ := ho.eosSchedule hk
    _ = obs _ := ho.setStatus _ _ _
    _ = obs k₁ := ho.setOwner k₁ _ _
    _ = obs k := ho.addWaiter hk₁

/-- `_os_wakeup_from_queue` (core/task.c:300-316) -/
theorem osWakeupFromQueue (ho : Apart obs) (hk : k.osWakeupFromQueue q = some k') :
    obs k' = obs k := by
  unfold Kernel.osWakeupFromQueue at hk
  split at hk
  · cases hk
    rfl
  obtain ⟨task, -, hk⟩ := Option.bind_eq_some_iff.mp hk
  obtain ⟨k₁, hk₁, hk⟩ := Option.bind_eq_some_iff.mp hk
  obtain ⟨k₂, hk₂, hk⟩ := Option.bind_eq_some_iff.mp hk
  calc obs k' = obs _ := ho.eosSchedule hk
    _ = obs k₂ := ho.setStatus k₂ _ _
    _ = obs k := (ho.addReady hk₂).trans (ho.removeNode hk₁)

/-- The handler of an alarm (core/task.c:325-340) -/
theorem callHandler {f : Handler} {arg : Option T} (ho : Apart obs)
    (hk : k.callHandler f arg = some k') : obs k' = obs k := by
  cases f with
  | user =>
    cases hk
    rfl
  | osWakeupFromAlarmQueue =>
    obtain ⟨t, -, hk⟩ := Option.bind_eq_some_iff.mp hk
    obtain ⟨k₁, hk₁, hk⟩ := Option.bind_eq_some_iff.mp hk
    obtain ⟨k₂, hk₂, hk⟩ := Option.bind_eq_some_iff.mp hk
    cases hk
    have hleave : obs k₁ = obs k := by
      unfold Kernel.leaveWaitQueue at hk₁
      split at hk₁
      · obtain ⟨k₃, hk₃, hk₁⟩ := Option.bind_eq_some_iff.mp hk₁
        cases hk₁
        exact (ho.setOwner k₃ _ _).trans (ho.removeNode hk₃)
      · cases hk₁
        rfl
    exact (ho.setStatus k₂ _ _).trans ((ho.addReady hk₂).trans hleave)

variable [Fintype T]

/-- The end of `eos_sleep` (core/task.c:246-255) -/
theorem sleepFor {timeout : UInt32} (ho : Apart obs) (hk : k.sleepFor t timeout = some k') :
    obs k' = obs k := by
  obtain ⟨k₁, hk₁, hk⟩ := Option.bind_eq_some_iff.mp hk
  obtain ⟨timers, -, hk₁⟩ := Option.bind_eq_some_iff.mp hk₁
  cases hk₁
  exact (ho.eosSchedule hk).trans ((ho.setStatus _ _ _).trans (ho.setTimers k timers))

/-- A tick (core/timer.c:60-92) -/
theorem eosTriggerCounter (ho : Apart obs) (hk : k.eosTriggerCounter = some k') :
    obs k' = obs k := by
  obtain ⟨k₁, hk₁, hk⟩ := Option.bind_eq_some_iff.mp hk
  have hloop : obs k₁ = obs k := by
    refine (triggerLoop_invariant (I := fun u => obs u = obs k) ?_ (ho.setTimers k _) hk₁).1
    rintro s _ s' alarm queue handler hs - - rfl - hs'
    exact (ho.callHandler hs').trans ((ho.setTimers s _).trans hs)
  exact (ho.eosSchedule hk).trans hloop

end Apart

end Eos.Interface
