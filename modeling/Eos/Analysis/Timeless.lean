import Eos.Lib.Refine
import Eos.Model.TimedCalls

/-!
# What does not depend on the time

Every routine that neither reads the tick nor sets an alarm leaves the timers alone, and does the
same with other timers and with other times at which tasks wake up (`retime`).  In the same way it
does not depend on what it does not read of a TCB (`recast`).
-/

set_option autoImplicit false

namespace Eos.Analysis

open Eos.Lib (map_snd_bind map_snd_bind₂)
open Eos.Model

/-! ## Computations that agree up to a map -/

/-- Two computations, one after the other, that both agree with others up to a map. -/
theorem bind_eq_map {A A' B B' : Type} {g : A → A'} {g' : B → B'} {x : Option A} {x' : Option A'}
    {f : A → Option B} {f' : A' → Option B'} (hx : x' = x.map g)
    (hf : ∀ a, x = some a → f' (g a) = (f a).map g') : x' >>= f' = (x >>= f).map g' := by
  subst hx
  cases x with
  | none => rfl
  | some a => exact hf a rfl

/-- So do they if the first ones are equal. -/
theorem bind_same_eq_map {A B B' : Type} {g' : B → B'} {x : Option A} {f : A → Option B}
    {f' : A → Option B'} (hf : ∀ a, x = some a → f' a = (f a).map g') :
    x >>= f' = (x >>= f).map g' := by
  cases x with
  | none => rfl
  | some a => exact hf a rfl

/-- A result to which a constant is added. -/
theorem map_fst_pair {A B : Type} (x : Option A) (b : B) :
    (do let a ← x; return (a, b) : Option (A × B)).map Prod.fst = x := by
  cases x <;> rfl

/-! ## Other timers and other TCBs -/

section Recast

variable {Q : Type → Type → Type} {T : Type}

/-- Other timers, and other TCBs. -/
def recast (m : Timers Q T Handler T) (g : T → Tcb → Tcb) (k : Kernel Q T) : Kernel Q T :=
  { k with timers := m, vars := { k.vars with tcb := fun t => g t (k.vars.tcb t) } }

/-- The scheduler does not see the difference between the TCBs. -/
structure Unseen (g : T → Tcb → Tcb) : Prop where
  status : ∀ t b, (g t b).status = b.status
  priority : ∀ t b, (g t b).priority = b.priority
  setStatus : ∀ t b s, { g t b with status := s } = g t { b with status := s }

/-- Nor do the routines that read and write the `wait_queue_owner` of task `t`. -/
structure KeepsOwner (g : T → Tcb → Tcb) (t : T) : Prop where
  owner : ∀ b, (g t b).waitQueueOwner = b.waitQueueOwner
  setOwner : ∀ b q, { g t b with waitQueueOwner := q } = g t { b with waitQueueOwner := q }

/-- Other timers, and a shift of the times at which tasks wake up. -/
def retime (m : Timers Q T Handler T) (c : UInt32) (k : Kernel Q T) : Kernel Q T :=
  { k with timers := m, vars := { k.vars with tcb := fun t => (k.vars.tcb t).shift c } }

/-- Leaving the TCBs alone is not seen. -/
theorem unseen_same : Unseen (T := T) fun _ b => b :=
  ⟨fun _ _ => rfl, fun _ _ => rfl, fun _ _ _ => rfl⟩

/-- It keeps every owner. -/
theorem keepsOwner_same (t : T) : KeepsOwner (fun _ b => b) t := ⟨fun _ => rfl, fun _ _ => rfl⟩

/-- A shift of the wake-up times is not seen by routines that do not read them. -/
theorem unseen_shift (c : UInt32) : Unseen (T := T) fun _ => Tcb.shift c :=
  ⟨fun _ _ => rfl, fun _ _ => rfl, fun _ _ _ => rfl⟩

/-- It keeps every owner. -/
theorem keepsOwner_shift (c : UInt32) (t : T) : KeepsOwner (fun _ => Tcb.shift c) t :=
  ⟨fun _ => rfl, fun _ _ => rfl⟩

/-- Other timers, with the same wake-up times. -/
theorem retime_zero (m : Timers Q T Handler T) (k : Kernel Q T) : retime m 0 k = k.setTimers m := by
  have htcb : (fun t => (k.vars.tcb t).shift 0) = k.vars.tcb := by
    funext t
    simp only [Tcb.shift, UInt32.add_zero]
  simp only [retime, htcb]
  rfl

/-- The same timers and wake-up times. -/
theorem retime_timers (k : Kernel Q T) : retime k.timers 0 k = k := retime_zero k.timers k

/-- A shift of all ticks is a special case. -/
theorem retime_shift (c : UInt32) (k : Kernel Q T) :
    retime (k.timers.shift c) c k = k.shift c := rfl

/-- A function leaves the timers alone, and is the same at any time. -/
structure Timeless (f : Kernel Q T → Option (Kernel Q T)) : Prop where
  timers : ∀ k k', f k = some k' → k'.timers = k.timers
  shift : ∀ c k, f (k.shift c) = (f k).map (Kernel.shift c)

/-- A routine that does not read the timers does not change them. -/
theorem timers_of_retime {f : Kernel Q T → Option (Kernel Q T)}
    (h : ∀ m k, f (retime m 0 k) = (f k).map (retime m 0)) {k k' : Kernel Q T}
    (hk' : f k = some k') : k'.timers = k.timers := by
  have hk := h k.timers k
  rw [retime_timers, hk', Option.map_some] at hk
  have heq := Option.some.inj hk
  exact (congrArg Kernel.timers heq).trans rfl

/-- A routine that commutes with every change of the times is timeless. -/
theorem Timeless.of_retime {f : Kernel Q T → Option (Kernel Q T)}
    (h : ∀ m c k, f (retime m c k) = (f k).map (retime m c)) : Timeless f := by
  have htimers : ∀ k k', f k = some k' → k'.timers = k.timers :=
    fun k k' => timers_of_retime fun m k => h m 0 k
  refine ⟨htimers, fun c k => ?_⟩
  rw [← retime_shift, h]
  cases hf : f k with
  | none => rfl
  | some k' =>
    rw [Option.map_some, Option.map_some, ← retime_shift, htimers k k' hf]

end Recast

namespace Recast

variable {Q : Type → Type → Type} [NodeLists Q] {T : Type} [DecidableEq T]
  {g g' : T → Tcb → Tcb} (hg : Unseen g) (m : Timers Q T Handler T) (k : Kernel Q T)

omit [NodeLists Q] in
/-- The same change of a TCB, after which the TCBs may differ in another way. -/
theorem setTcb_other (t : T) {f : Tcb → Tcb} (hg' : ∀ u ≠ t, g' u = g u)
    (hf : ∀ b, f (g t b) = g' t (f b)) :
    (recast m g k).setTcb t f = recast m g' (k.setTcb t f) := by
  simp only [Kernel.setTcb, recast, Kernel.mk.injEq, true_and, Vars.mk.injEq, and_true]
  funext u
  by_cases hu : u = t
  · subst hu
    simp only [Function.update_self, hf]
  · simp only [Function.update_of_ne hu, hg' u hu]

omit [NodeLists Q] in
/-- A write to a TCB. -/
theorem setTcb (t : T) {f : Tcb → Tcb} (hf : ∀ b, f (g t b) = g t (f b)) :
    (recast m g k).setTcb t f = recast m g (k.setTcb t f) :=
  setTcb_other m k t (fun _ _ => rfl) hf

omit [NodeLists Q] in
include hg in
/-- A new status. -/
theorem setStatus (t : T) (s : Status) :
    (recast m g k).setStatus t s = recast m g (k.setStatus t s) :=
  setTcb m k t fun b => hg.setStatus t b s

omit [NodeLists Q] in
/-- A new owner. -/
theorem setOwner {t : T} (ht : KeepsOwner g t) (q : Option WaitQueue) :
    (recast m g k).setOwner t q = recast m g (k.setOwner t q) :=
  setTcb m k t fun b => ht.setOwner b q

/-- `_os_add_node_tail` -/
theorem addNodeTail (h : QueueHead) (t : T) :
    (recast m g k).addNodeTail h t = (k.addNodeTail h t).map (recast m g) :=
  bind_same_eq_map fun _ _ => rfl

/-- `_os_remove_node` -/
theorem removeNode (h : QueueHead) (t : T) :
    (recast m g k).removeNode h t = (k.removeNode h t).map (recast m g) :=
  bind_same_eq_map fun _ _ => rfl

omit [DecidableEq T] in
/-- The bit of an empty ready queue is cleared. -/
theorem unsetIfEmpty (p : Nat) : (recast m g k).unsetIfEmpty p = recast m g (k.unsetIfEmpty p) := by
  unfold Kernel.unsetIfEmpty
  split
  · next h => rw [if_pos (show k.head (.ready p) = none from h)]; rfl
  · next h => rw [if_neg (show ¬k.head (.ready p) = none from h)]

include hg

omit [NodeLists Q] [DecidableEq T] in
/-- The status of a task is the same. -/
theorem status (t : T) : (recast m g k).status t = k.status t := hg.status t _

omit [NodeLists Q] [DecidableEq T] in
/-- The priority of a task is the same. -/
theorem priority (t : T) : (recast m g k).priority t = k.priority t := hg.priority t _

/-- A task goes to its ready queue. -/
theorem addReady (t : T) : (recast m g k).addReady t = (k.addReady t).map (recast m g) := by
  unfold Kernel.addReady
  rw [priority hg]
  exact bind_eq_map (addNodeTail m k _ t) fun _ _ => rfl

/-- The running task goes back to its ready queue. -/
theorem requeueCurrent : (recast m g k).requeueCurrent = k.requeueCurrent.map (recast m g) := by
  unfold Kernel.requeueCurrent
  rw [show (recast m g k).vars.currentTask = k.vars.currentTask from rfl]
  cases k.vars.currentTask with
  | none => rfl
  | some current =>
    simp only [status hg]
    by_cases hs : k.status current = .running
    · simp only [if_pos hs]
      exact bind_eq_map (addReady hg m k current) fun k' _ =>
        congrArg some (setStatus hg m k' current .ready)
    · simp only [if_neg hs]
      rfl

/-- The next task is dispatched. -/
theorem dispatchNext : (recast m g k).dispatchNext = k.dispatchNext.map (recast m g) := by
  unfold Kernel.dispatchNext
  refine bind_same_eq_map fun node _ => bind_same_eq_map fun nextTask _ => ?_
  rw [priority hg]
  refine bind_eq_map (removeNode m k _ node) fun k' _ => ?_
  simp only [unsetIfEmpty, setStatus hg]
  rfl

/-- `eos_schedule` (core/task.c:88-139) -/
theorem eosSchedule : (recast m g k).eosSchedule = k.eosSchedule.map (recast m g) := by
  unfold Kernel.eosSchedule
  by_cases hl : k.vars.schedulerLock = locked
  · rw [if_pos hl, if_pos (show (recast m g k).vars.schedulerLock = locked from hl)]
    rfl
  · rw [if_neg hl, if_neg (show ¬(recast m g k).vars.schedulerLock = locked from hl)]
    exact bind_eq_map (requeueCurrent hg m k) fun k' _ => dispatchNext hg m k'

/-- A task leaves its ready queue. -/
theorem removeReady (t : T) :
    (recast m g k).removeReady t = (k.removeReady t).map (recast m g) := by
  unfold Kernel.removeReady
  rw [priority hg]
  exact bind_eq_map (removeNode m k _ t) fun k' _ => congrArg some (unsetIfEmpty m k' _)

/-! ## The task routines -/

/-- A task goes to another ready queue. -/
theorem moveReady (t : T) (p : Nat) :
    (recast m g k).moveReady t p = (k.moveReady t p).map (recast m g) :=
  bind_eq_map (removeReady hg m k t) fun k₁ _ =>
    bind_eq_map (addNodeTail m k₁ (.ready p) t) fun _ _ => rfl

/-- `eos_change_priority` (core/task.c:148-172) -/
theorem eosChangePriority (task : Option T) (p : Nat)
    (hp : ∀ t b, { g t b with priority := p } = g t { b with priority := p }) :
    (recast m g k).eosChangePriority task p = (k.eosChangePriority task p).map (recast m g) := by
  cases task with
  | none => rfl
  | some t =>
    unfold Kernel.eosChangePriority
    by_cases hlow : p > lowestPriority
    · simp only [if_pos hlow]
      rfl
    · simp only [if_neg hlow, status hg]
      refine bind_eq_map (g := recast m g) ?_ fun k₁ _ => ?_
      · by_cases hs : k.status t = .ready
        · rw [if_pos hs, if_pos hs]
          exact moveReady hg m k t p
        · rw [if_neg hs, if_neg hs]
          rfl
      · rw [setTcb m k₁ t (hp t)]
        exact eosSchedule hg m ((k₁.setTcb t fun b => { b with priority := p }).setOrderVal t p)

/-- `eos_suspend_task` (core/task.c:195-209) -/
theorem eosSuspendTask (task : Option T) :
    ((recast m g k).eosSuspendTask task).map Prod.snd =
      ((k.eosSuspendTask task).map Prod.snd).map (recast m g) := by
  cases task with
  | none => rfl
  | some t =>
    unfold Kernel.eosSuspendTask
    simp only [status hg]
    by_cases hs : k.status t = .ready
    · simp only [if_pos hs]
      rw [map_snd_bind, map_snd_bind]
      exact bind_eq_map (removeReady hg m k t) fun k₁ _ =>
        congrArg some (setStatus hg m k₁ t .suspended)
    · simp only [if_neg hs]
      rfl

/-- `eos_resume_task` (core/task.c:212-226) -/
theorem eosResumeTask (task : Option T) :
    ((recast m g k).eosResumeTask task).map Prod.snd =
      ((k.eosResumeTask task).map Prod.snd).map (recast m g) := by
  cases task with
  | none => rfl
  | some t =>
    unfold Kernel.eosResumeTask
    simp only [status hg]
    by_cases hs : k.status t = .suspended
    · simp only [if_pos hs]
      rw [map_snd_bind₂, map_snd_bind₂]
      refine bind_eq_map (addReady hg m k t) fun k₁ _ => ?_
      rw [setStatus hg]
      exact eosSchedule hg m _
    · simp only [if_neg hs]
      rfl

/-- What the creation of a task writes, it writes into any TCB. -/
theorem eosCreateTask (task : Option T) (start size entry : UInt64) (p : Nat)
    (hnew : ∀ t b, { g t b with priority := p, period := 0, wakeupTime := 0 } =
      g t { b with priority := p, period := 0, wakeupTime := 0 }) :
    ((recast m g k).eosCreateTask task start size entry p).map Prod.snd =
      ((k.eosCreateTask task start size entry p).map Prod.snd).map (recast m g) := by
  cases task with
  | none => rfl
  | some t =>
    simp only [Kernel.eosCreateTask, apply_ite (Option.map Prod.snd),
      apply_ite (Option.map (recast m g)), Option.map_some]
    refine if_congr Iff.rfl rfl (if_congr Iff.rfl rfl (if_congr Iff.rfl rfl ?_))
    rw [map_snd_bind₂, map_snd_bind₂, setTcb m k t (hnew t)]
    refine bind_eq_map (addReady hg m (((k.setTcb t fun b =>
      { b with priority := p, period := 0, wakeupTime := 0 }).setPnode t).setOrderVal t p) t)
      fun k₁ _ => ?_
    rw [setStatus hg]
    exact eosSchedule hg m _

/-! ## Wait queues -/

omit hg in
/-- A task leaves the queue that its owner names. -/
theorem leaveWaitQueue {t : T} (ht : KeepsOwner g t) :
    (recast m g k).leaveWaitQueue t = (k.leaveWaitQueue t).map (recast m g) := by
  unfold Kernel.leaveWaitQueue
  have howner : (recast m g k).waitQueueOwner t = k.waitQueueOwner t := ht.owner _
  rw [howner]
  cases k.waitQueueOwner t with
  | none => rfl
  | some owner =>
    exact bind_eq_map (removeNode m k _ t) fun k' _ => congrArg some (setOwner m k' ht none)

/-- The end of `_os_wakeup_from_alarm_queue` -/
theorem addWoken (t : T) :
    (do let k₁ ← (recast m g k).addReady t; return k₁.setStatus t .ready) =
      (do let k₁ ← k.addReady t; return k₁.setStatus t .ready).map (recast m g) :=
  bind_eq_map (addReady hg m k t) fun k₁ _ => congrArg some (setStatus hg m k₁ t .ready)

/-- `_os_wakeup_from_alarm_queue` (core/task.c:325-340) -/
theorem osWakeupFromAlarmQueue (arg : Option T) (harg : ∀ t ∈ arg, KeepsOwner g t) :
    (recast m g k).osWakeupFromAlarmQueue arg =
      (k.osWakeupFromAlarmQueue arg).map (recast m g) :=
  bind_same_eq_map fun t ht => bind_eq_map (leaveWaitQueue m k (harg t ht)) fun k₁ _ =>
    addWoken hg m k₁ t

/-- `_os_wakeup_from_queue` (core/task.c:300-316) -/
theorem osWakeupFromQueue (q : WaitQueue) :
    (recast m g k).osWakeupFromQueue q = (k.osWakeupFromQueue q).map (recast m g) := by
  unfold Kernel.osWakeupFromQueue
  rw [show (recast m g k).head (.wait q) = k.head (.wait q) from rfl]
  cases k.head (.wait q) with
  | none => rfl
  | some node =>
    refine bind_same_eq_map fun t _ => bind_eq_map (removeNode m k _ t) fun k₁ _ =>
      bind_eq_map (addReady hg m k₁ t) fun k₂ _ => ?_
    simp only [setStatus hg]
    exact eosSchedule hg m _

/-- `eos_release_semaphore` (core/sync.c:78-94) -/
theorem eosReleaseSemaphore (s : Nat) :
    (recast m g k).eosReleaseSemaphore s = (k.eosReleaseSemaphore s).map (recast m g) := by
  have hcount : (recast m g k).setCount s ((recast m g k).count s + 1) =
      recast m g (k.setCount s (k.count s + 1)) := rfl
  unfold Kernel.eosReleaseSemaphore
  rw [hcount]
  generalize k.setCount s (k.count s + 1) = k'
  by_cases hh : k'.head (.wait (.semaphore s)) = none
  · simp only [if_pos hh, if_pos (show (recast m g k').head (.wait (.semaphore s)) = none from hh)]
    rfl
  · simp only [if_neg hh, if_neg (show ¬(recast m g k').head (.wait (.semaphore s)) = none from hh)]
    exact osWakeupFromQueue hg m k' _

omit hg in
/-- A task goes to a wait queue. -/
theorem addWaiter [Fintype T] (q : WaitQueue) (queueType : UInt8) (t : T) :
    (recast m g k).addWaiter q queueType t = (k.addWaiter q queueType t).map (recast m g) := by
  unfold Kernel.addWaiter
  split
  · exact addNodeTail m k _ t
  · exact bind_same_eq_map fun _ _ => rfl

omit hg in
/-- The TCBs may differ in another way when the owner of the current task has been written. -/
theorem osWaitInQueue [Fintype T] (hg' : Unseen g') (q : WaitQueue) (queueType : UInt8)
    (howner : ∀ t, k.vars.currentTask = some t → (∀ u ≠ t, g' u = g u) ∧
      ∀ b, { g t b with waitQueueOwner := some q } = g' t { b with waitQueueOwner := some q }) :
    (recast m g k).osWaitInQueue q queueType =
      (k.osWaitInQueue q queueType).map (recast m g') := by
  refine bind_same_eq_map fun t ht => bind_eq_map (addWaiter m k q queueType t) fun k₁ _ => ?_
  have hset : (recast m g k₁).setOwner t (some q) = recast m g' (k₁.setOwner t (some q)) :=
    setTcb_other m k₁ t (howner t ht).1 (howner t ht).2
  simp only [hset, setStatus hg']
  exact eosSchedule hg' m _

end Recast

/-! ## The routines -/

section Routines

variable {Q : Type → Type → Type} [NodeLists Q] {T : Type} [DecidableEq T]

/-- `eos_schedule` reads no tick. -/
theorem eosSchedule_timeless : Timeless fun k : Kernel Q T => k.eosSchedule :=
  .of_retime fun m c k => Recast.eosSchedule (unseen_shift c) m k

/-- `eos_release_semaphore` reads no tick. -/
theorem eosReleaseSemaphore_timeless (s : Nat) :
    Timeless fun k : Kernel Q T => k.eosReleaseSemaphore s :=
  .of_retime fun m c k => Recast.eosReleaseSemaphore (unseen_shift c) m k s

/-- `_os_wait_in_queue` reads no tick. -/
theorem osWaitInQueue_timeless [Fintype T] (q : WaitQueue) (queueType : UInt8) :
    Timeless fun k : Kernel Q T => k.osWaitInQueue q queueType :=
  .of_retime fun m c k => Recast.osWaitInQueue m k (unseen_shift c) q queueType fun _ _ =>
    ⟨fun _ _ => rfl, fun _ => rfl⟩

/-- `_os_wakeup_from_alarm_queue` reads no tick. -/
theorem osWakeupFromAlarmQueue_timeless (arg : Option T) :
    Timeless fun k : Kernel Q T => k.osWakeupFromAlarmQueue arg :=
  .of_retime fun m c k => Recast.osWakeupFromAlarmQueue (unseen_shift c) m k arg fun t _ =>
    keepsOwner_shift c t

/-- No handler that is called here reads a tick. -/
theorem callHandler_timeless (handler : Handler) (arg : Option T) :
    Timeless fun k : Kernel Q T => k.callHandler handler arg := by
  cases handler with
  | osWakeupFromAlarmQueue => exact osWakeupFromAlarmQueue_timeless arg
  | user n => exact .of_retime fun _ _ _ => rfl

/-- Waiting for a semaphore reads no tick. -/
theorem waitSemaphore_timeless [Fintype T] (s : Nat) :
    Timeless fun k : Kernel Q T => k.waitSemaphore s where
  timers _ _ hk := (osWaitInQueue_timeless _ _).timers _ _ hk
  shift c k := (osWaitInQueue_timeless _ _).shift c k

/-- `_os_wakeup_from_queue` reads no tick. -/
theorem osWakeupFromQueue_timeless (q : WaitQueue) :
    Timeless fun k : Kernel Q T => k.osWakeupFromQueue q :=
  .of_retime fun m c k => Recast.osWakeupFromQueue (unseen_shift c) m k q

/-- `eos_change_priority` reads no tick. -/
theorem eosChangePriority_timeless (task : Option T) (p : Nat) :
    Timeless fun k : Kernel Q T => k.eosChangePriority task p :=
  .of_retime fun m c k => Recast.eosChangePriority (unseen_shift c) m k task p fun _ _ => rfl

/-- `eos_suspend_task` reads no tick. -/
theorem eosSuspendTask_timeless (task : Option T) :
    Timeless fun k : Kernel Q T => (k.eosSuspendTask task).map Prod.snd :=
  .of_retime fun m c k => Recast.eosSuspendTask (unseen_shift c) m k task

/-- `eos_resume_task` reads no tick. -/
theorem eosResumeTask_timeless (task : Option T) :
    Timeless fun k : Kernel Q T => (k.eosResumeTask task).map Prod.snd :=
  .of_retime fun m c k => Recast.eosResumeTask (unseen_shift c) m k task

/-- The operations that set no alarm and do not trigger any. -/
def leavesTimers : Op T → Bool
  | .sleep _ | .tick => false
  | _ => true

/-- **Such an operation leaves the timers alone.** -/
theorem exec_timers [Fintype T] {k k' : Kernel Q T} {o : Op T} (ho : leavesTimers o = true)
    (hk' : k.exec o = some k') : k'.timers = k.timers := by
  cases o with
  | createTask task start size entry p =>
    exact timers_of_retime (f := fun k => (k.eosCreateTask task start size entry p).map Prod.snd)
      (fun m k => Recast.eosCreateTask (unseen_shift 0) m k task start size entry p fun _ _ => by
        simp only [Tcb.shift, UInt32.add_zero]) hk'
  | schedule => exact eosSchedule_timeless.timers _ _ hk'
  | changePriority task p =>
    exact (eosChangePriority_timeless task p).timers _ _ hk'
  | setPeriod task period =>
    cases hk'
    rfl
  | suspendTask task =>
    exact (eosSuspendTask_timeless task).timers _ _ hk'
  | resumeTask task =>
    exact (eosResumeTask_timeless task).timers _ _ hk'
  | sleep => cases ho
  | lockScheduler =>
    cases hk'
    rfl
  | restoreScheduler v => exact eosSchedule_timeless.timers (k.setLock v) _ hk'
  | waitInQueue q queueType => exact (osWaitInQueue_timeless q queueType).timers _ _ hk'
  | wakeupFromQueue q => exact (osWakeupFromQueue_timeless q).timers _ _ hk'
  | tick => cases ho
  | start => exact eosSchedule_timeless.timers (k.setLock unlocked) _ hk'

end Routines

end Eos.Analysis
