import Eos.Analysis.PendingAlarms
import Eos.Analysis.SyncRuns
import Eos.Analysis.Timeless

/-!
# Kernels in lockstep

`Twin t k k'` says that `k'` differs from `k` in what the creation of task `t` may have left there:
the `wait_queue_owner` of `t`, which is `NULL` in `k` then, and alarms that are not pending.  Every
call does the same in both, or in neither has a result (`TwinSystem.exec`).

The owner is read when the alarm of the task fires.  If it is `NULL` in `k`, the task sleeps and is
in no list; so the removal from the list that the owner names in `k'` does nothing
(core/task.c:325-340).
-/

set_option autoImplicit false

namespace Eos.Analysis

open Eos.Lib (LinkMem rel_bind rel_bind_same rel_ite)
open Eos.Model
open Eos.Interface (Rings Repr)

/-! ## Kernels that differ in what a new TCB holds -/

section Twins

variable {T : Type} [DecidableEq T] {t : T} {k k' : Kernel LinkMem T}

/-- Another `wait_queue_owner` of task `t`. -/
def ownedBy (t : T) (w : Option WaitQueue) (u : T) (b : Tcb) : Tcb :=
  if u = t then { b with waitQueueOwner := w } else b

/-- Another owner is not seen by routines that do not read it. -/
theorem unseen_ownedBy (t : T) (w : Option WaitQueue) : Unseen (ownedBy t w) := by
  refine ⟨fun u b => ?_, fun u b => ?_, fun u b s => ?_⟩
  all_goals unfold ownedBy
  all_goals split
  all_goals rfl

/-- The kernels have the same pending alarms, and agree on everything else but the owner of `t`, if
it is `NULL` in the first one. -/
def Twin (t : T) (k k' : Kernel LinkMem T) : Prop :=
  ∃ m w, k' = recast m (ownedBy t w) k ∧ SameAlarms k.timers m ∧
    (w = k.waitQueueOwner t ∨ k.waitQueueOwner t = none)

/-- The owner that a task has. -/
theorem recast_owner (t : T) (m : Timers LinkMem T Handler T) (k : Kernel LinkMem T) :
    recast m (ownedBy t (k.waitQueueOwner t)) k = k.setTimers m := by
  have htcb : (fun u => ownedBy t (k.waitQueueOwner t) u (k.vars.tcb u)) = k.vars.tcb := by
    funext u
    unfold ownedBy
    split
    · next hu =>
      subst hu
      rfl
    · rfl
  simp only [recast, htcb]
  rfl

/-- The other owner is the one given. -/
theorem waitQueueOwner_recast (t : T) (m : Timers LinkMem T Handler T) (w : Option WaitQueue)
    (k : Kernel LinkMem T) : (recast m (ownedBy t w) k).waitQueueOwner t = w := by
  simp [recast, Kernel.waitQueueOwner, ownedBy]

/-- A new owner replaces the other one. -/
theorem recast_setOwner (t : T) (m : Timers LinkMem T Handler T) (w w' : Option WaitQueue)
    (k : Kernel LinkMem T) :
    (recast m (ownedBy t w) k).setOwner t w' = recast m (ownedBy t w') k := by
  simp only [Kernel.setOwner, Kernel.setTcb, recast, Kernel.mk.injEq, true_and, Vars.mk.injEq,
    and_true]
  funext u
  by_cases hu : u = t
  · subst hu
    simp [ownedBy]
  · simp [ownedBy, hu]

/-- `_os_remove_node` does nothing to a node with a `NULL` link. -/
theorem removeNode_null {u : T} (hu : k.queue.next u = none) (h : QueueHead) :
    k.removeNode h u = some k := by
  have hnothing : (osRemoveNode k.queue h u).1 = k.queue := by
    unfold osRemoveNode
    rw [hu]
  show some (k.setQueue (osRemoveNode k.queue h u).1) = some k
  rw [hnothing]
  rfl

/-- The other tasks keep their owners. -/
theorem ownedBy_other {u : T} (hu : u ≠ t) (w : Option WaitQueue) :
    ownedBy t w u = fun b => b := by
  funext b
  rw [ownedBy, if_neg hu]

/-- Their owners are written in both. -/
theorem keepsOwner_ownedBy {u : T} (hu : u ≠ t) (w : Option WaitQueue) :
    KeepsOwner (ownedBy t w) u :=
  ⟨fun b => by rw [ownedBy, if_neg hu], fun b q => by rw [ownedBy, if_neg hu, ownedBy, if_neg hu]⟩

/-- A task whose alarm is due, and whose owner is `NULL`, is in no list of tasks. -/
theorem next_none_of_expired {a : Kernel Rings T} (hr : Repr k a) (h : Consistent a)
    (he : expiredAlarm a.timers systemTimer = some t) (hnone : k.waitQueueOwner t = none) :
    k.queue.next t = none := by
  rw [hr.waitQueueOwner] at hnone
  obtain ⟨-, -, -, howner⟩ := popped_consistent h he
  have hwaits : a.status t = .waiting := by
    by_contra hw
    exact howner hw hnone
  refine hr.queue.next_eq_none_iff.mpr fun hd hmem => ?_
  cases hd with
  | ready p =>
    have hready := (((h.placed t).ready p).mp hmem).1
    rw [hwaits] at hready
    cases hready
  | wait q =>
    have howned := ((h.placed t).waiting q hmem).2
    rw [hnone] at howned
    cases howned

/-- A routine that neither reads nor writes what may differ does the same. -/
theorem Twin.of_recast {f : Kernel LinkMem T → Option (Kernel LinkMem T)} (h : Twin t k k')
    (hf : ∀ m w, f (recast m (ownedBy t w) k) = (f k).map (recast m (ownedBy t w))) :
    Option.Rel (Twin t) (f k) (f k') := by
  obtain ⟨m, w, rfl, hm, hw⟩ := h
  rw [hf]
  -- the timers and the owner stay as they are, since any others would, too
  have hself : f k = (f k).map (recast k.timers (ownedBy t (k.waitQueueOwner t))) := by
    rw [← hf, recast_owner]
    rfl
  cases hk : f k with
  | none => exact .none
  | some b =>
    rw [hk] at hself
    have hb : b = recast k.timers (ownedBy t (k.waitQueueOwner t)) b := Option.some.inj hself
    have htimers : b.timers = k.timers := by
      rw [hb]
      rfl
    have howner : b.waitQueueOwner t = k.waitQueueOwner t := by
      rw [hb]
      exact waitQueueOwner_recast t _ _ b
    refine .some ⟨m, w, rfl, ?_, ?_⟩
    · rw [htimers]
      exact hm
    · rw [howner]
      exact hw

/-- A routine after which only the timers differ. -/
theorem rel_setTimers {x : Option (Kernel LinkMem T)} {m : Timers LinkMem T Handler T}
    (hm : SameAlarms k.timers m) (hx : ∀ b, x = some b → b.timers = k.timers) :
    Option.Rel (Twin t) x (x.map fun b => b.setTimers m) := by
  cases x with
  | none => exact .none
  | some b =>
    refine .some ⟨m, b.waitQueueOwner t, (recast_owner t m b).symm, ?_, .inl rfl⟩
    rw [hx b rfl]
    exact hm

namespace Twin

/-- A write that neither reads nor writes what may differ. -/
theorem congr {f : Kernel LinkMem T → Kernel LinkMem T} (h : Twin t k k')
    (hf : ∀ m w, f (recast m (ownedBy t w) k) = recast m (ownedBy t w) (f k)) :
    Twin t (f k) (f k') := by
  have hrel := h.of_recast (f := fun k => some (f k)) fun m w => congrArg some (hf m w)
  cases hrel with
  | some h => exact h

/-! ### What is read -/

/-- The TCB of a task is the same but for its owner. -/
theorem tcb (h : Twin t k k') (u : T) :
    ∃ w, k'.vars.tcb u = { k.vars.tcb u with waitQueueOwner := w } := by
  obtain ⟨m, w, rfl, -⟩ := h
  show ∃ w', ownedBy t w u (k.vars.tcb u) = _
  unfold ownedBy
  split
  · exact ⟨w, rfl⟩
  · exact ⟨_, rfl⟩

/-- Twins have the same tick. -/
theorem tick (h : Twin t k k') : k'.tick = k.tick := by
  obtain ⟨m, w, rfl, ⟨xs, hm⟩, -⟩ := h
  exact hm.tick

/-- They have the same current task. -/
theorem currentTask (h : Twin t k k') : k'.vars.currentTask = k.vars.currentTask := by
  obtain ⟨m, w, rfl, -⟩ := h
  rfl

/-- They have the same scheduler lock. -/
theorem schedulerLock (h : Twin t k k') : k'.vars.schedulerLock = k.vars.schedulerLock := by
  obtain ⟨m, w, rfl, -⟩ := h
  rfl

/-- They have the same semaphores. -/
theorem semaphore (h : Twin t k k') : k'.vars.semaphore = k.vars.semaphore := by
  obtain ⟨m, w, rfl, -⟩ := h
  rfl

/-- They have the same condition variables. -/
theorem condition (h : Twin t k k') : k'.vars.condition = k.vars.condition := by
  obtain ⟨m, w, rfl, -⟩ := h
  rfl

/-! ### The routines -/

/-- The same status is written in both. -/
theorem setStatus (h : Twin t k k') (u : T) (s : Status) :
    Twin t (k.setStatus u s) (k'.setStatus u s) :=
  h.congr (f := fun k => k.setStatus u s) fun m w => Recast.setStatus (unseen_ownedBy t w) m k u s

/-- The same count is written in both. -/
theorem setCount (h : Twin t k k') (s : Nat) (n : Int) :
    Twin t (k.setCount s n) (k'.setCount s n) :=
  h.congr (f := fun k => k.setCount s n) fun _ _ => rfl

/-- A write to a TCB that does not depend on the owner. -/
theorem setTcb (h : Twin t k k') (u : T) {f : Tcb → Tcb}
    (hf : ∀ b w, f { b with waitQueueOwner := w } = { f b with waitQueueOwner := w }) :
    Twin t (k.setTcb u f) (k'.setTcb u f) :=
  h.congr (f := fun k => k.setTcb u f) fun m w => Recast.setTcb m k u fun b => by
    unfold ownedBy
    split
    · exact hf b w
    · rfl

/-- `eos_schedule` (core/task.c:88-139) -/
theorem eosSchedule (h : Twin t k k') : Option.Rel (Twin t) k.eosSchedule k'.eosSchedule :=
  h.of_recast fun m w => Recast.eosSchedule (unseen_ownedBy t w) m k

/-- `_os_wakeup_from_queue` (core/task.c:300-316) -/
theorem osWakeupFromQueue (h : Twin t k k') (q : WaitQueue) :
    Option.Rel (Twin t) (k.osWakeupFromQueue q) (k'.osWakeupFromQueue q) :=
  h.of_recast (f := fun k => k.osWakeupFromQueue q) fun m w =>
    Recast.osWakeupFromQueue (unseen_ownedBy t w) m k q

/-- `eos_release_semaphore` (core/sync.c:78-94) -/
theorem eosReleaseSemaphore (h : Twin t k k') (s : Nat) :
    Option.Rel (Twin t) (k.eosReleaseSemaphore s) (k'.eosReleaseSemaphore s) :=
  h.of_recast (f := fun k => k.eosReleaseSemaphore s) fun m w =>
    Recast.eosReleaseSemaphore (unseen_ownedBy t w) m k s

/-- A task that waits writes its owner. -/
theorem osWaitInQueue [Fintype T] (h : Twin t k k') (q : WaitQueue) (queueType : UInt8) :
    Option.Rel (Twin t) (k.osWaitInQueue q queueType) (k'.osWaitInQueue q queueType) := by
  by_cases hc : k.vars.currentTask = some t
  · obtain ⟨m, w, rfl, hm, -⟩ := h
    have hsame := Recast.osWaitInQueue (g := ownedBy t w) m k (unseen_same (T := T)) q queueType
      fun u hu => by
        obtain rfl : u = t := Option.some.inj (hu.symm.trans hc)
        exact ⟨fun v hv => (ownedBy_other hv w).symm, fun b => by rw [ownedBy, if_pos rfl]⟩
    rw [hsame]
    exact rel_setTimers hm fun b hb => (osWaitInQueue_timeless q queueType).timers k b hb
  · refine h.of_recast (f := fun k => k.osWaitInQueue q queueType) fun m w => ?_
    refine Recast.osWaitInQueue m k (unseen_ownedBy t w) q queueType fun u hu => ?_
    have hut : u ≠ t := fun e => hc (e ▸ hu)
    exact ⟨fun _ _ => rfl, fun b => (keepsOwner_ownedBy hut w).setOwner b _⟩

/-- A task whose alarm fires leaves its wait queue; with a `NULL` owner it is in no list. -/
theorem leaveWaitQueue (h : Twin t k k') (u : T)
    (hfree : u = t → k.waitQueueOwner t = none → k.queue.next t = none) :
    Option.Rel (Twin t) (k.leaveWaitQueue u) (k'.leaveWaitQueue u) := by
  by_cases hut : u = t
  · subst hut
    obtain ⟨m, w, rfl, hm, hw⟩ := h
    by_cases howner : w = k.waitQueueOwner u
    · subst howner
      rw [recast_owner]
      have hsame := Recast.leaveWaitQueue (g := fun _ b => b) m k (keepsOwner_same u)
      have htimers : Timeless fun k : Kernel LinkMem T => k.leaveWaitQueue u :=
        .of_retime fun m c k => Recast.leaveWaitQueue m k (keepsOwner_shift c u)
      refine Eq.mp (congrArg _ hsame.symm) (rel_setTimers hm fun b hb => htimers.timers k b hb)
    · have hnone := hw.resolve_left howner
      rw [hnone] at howner
      obtain ⟨q, rfl⟩ := Option.ne_none_iff_exists'.mp howner
      -- the removal through the owner does nothing
      have hstay : k.leaveWaitQueue u = some k := by
        rw [Kernel.leaveWaitQueue, hnone]
      have hclear : (recast m (ownedBy u (some q)) k).leaveWaitQueue u =
          some (recast m (ownedBy u none) k) := by
        rw [Kernel.leaveWaitQueue, waitQueueOwner_recast]
        simp only [removeNode_null (k := recast m (ownedBy u (some q)) k) (hfree rfl hnone),
          Option.bind_eq_bind, Option.bind_some]
        exact congrArg some (recast_setOwner u m (some q) none k)
      rw [hstay, hclear]
      exact .some ⟨m, none, rfl, hm, .inl hnone.symm⟩
  · exact h.of_recast (f := fun k => k.leaveWaitQueue u) fun m w =>
      Recast.leaveWaitQueue m k (keepsOwner_ownedBy hut w)

/-- `_os_wakeup_from_alarm_queue` reads the owner; where it is `NULL` in the first kernel, the task
is in no list (core/task.c:325-340). -/
theorem osWakeupFromAlarmQueue (h : Twin t k k') (arg : Option T)
    (hfree : arg = some t → k.waitQueueOwner t = none → k.queue.next t = none) :
    Option.Rel (Twin t) (k.osWakeupFromAlarmQueue arg) (k'.osWakeupFromAlarmQueue arg) := by
  refine rel_bind_same fun u hu => rel_bind (h.leaveWaitQueue u fun e => hfree (e ▸ hu)) ?_
  intro k₁ _ _ h
  exact h.of_recast (f := fun k => do let k₂ ← k.addReady u; return k₂.setStatus u .ready)
    fun m w => Recast.addWoken (unseen_ownedBy t w) m k₁ u

/-! ### The tick -/

/-- **The loop of `eos_trigger_counter`** calls the same handlers (core/timer.c:75-88). -/
theorem triggerLoop {idle : T} {k₀ : Kernel LinkMem T} {a₀ : Kernel Rings T} (hr : Repr k₀ a₀)
    (hs : Scheduled idle a₀) (hk : TickState k₀ k) (h : Twin t k k') (fuel : Nat) :
    Option.Rel (Twin t)
      (Model.triggerLoop Kernel.timers Kernel.setTimers Kernel.callHandler systemTimer fuel k)
      (Model.triggerLoop Kernel.timers Kernel.setTimers Kernel.callHandler systemTimer fuel k') :=
    by
  induction fuel generalizing k k' with
  | zero => exact .none
  | succ fuel ih =>
    obtain ⟨m, w, rfl, ⟨xs, hm⟩, hw⟩ := id h
    unfold Model.triggerLoop
    rw [show expiredAlarm (recast m (ownedBy t w) k).timers systemTimer =
      expiredAlarm k.timers systemTimer from hm.expiredAlarm]
    cases he : expiredAlarm k.timers systemTimer with
    | none => exact .some h
    | some u =>
      have hf := hm.fields u (hm.mem_of_expired he)
      have hpop : popAlarm k = some (u, k.setTimers { k.timers with
          alarmQueue := (osRemoveNode k.timers.alarmQueue systemTimer u).1 }) := by
        simp only [popAlarm, he, Option.bind_eq_bind, Option.bind_some]
        rfl
      obtain ⟨a, hra, ha⟩ := hk.ticking hr hs
      obtain ⟨hea, -, hhandler, harg⟩ := popAlarm_repr hra ha.alarms hpop
      have htwin : Twin t (k.setTimers { k.timers with
            alarmQueue := (osRemoveNode k.timers.alarmQueue systemTimer u).1 })
          ((recast m (ownedBy t w) k).setTimers { m with
            alarmQueue := (osRemoveNode m.alarmQueue systemTimer u).1 }) :=
        ⟨_, w, rfl, ⟨_, hm.remove u⟩, hw⟩
      refine rel_bind (.some ⟨rfl, rfl⟩ : Option.Rel (fun q q' =>
        q = (osRemoveNode k.timers.alarmQueue systemTimer u).1 ∧
          q' = (osRemoveNode m.alarmQueue systemTimer u).1) _ _) ?_
      rintro _ _ - ⟨rfl, rfl⟩
      show Option.Rel (Twin t) (k.timers.fields.handler u >>= _) (m.fields.handler u >>= _)
      rw [hf.handler]
      refine rel_bind_same fun handler hh => ?_
      obtain rfl : handler = .osWakeupFromAlarmQueue := Option.some.inj (hh.symm.trans hhandler)
      show Option.Rel (Twin t) (Kernel.osWakeupFromAlarmQueue _ (k.timers.fields.arg u) >>= _)
        (Kernel.osWakeupFromAlarmQueue _ (m.fields.arg u) >>= _)
      rw [hf.arg]
      refine rel_bind (htwin.osWakeupFromAlarmQueue _ fun hut hnone => ?_) fun b b' hb hbb => ?_
      · obtain rfl : u = t := Option.some.inj (harg.symm.trans hut)
        exact next_none_of_expired (k := k) hra ha.toConsistent hea hnone
      · exact ih (.call hk hpop hh hb) hbb

variable [Fintype T]

/-- The same alarm is set in both. -/
theorem setAlarm (h : Twin t k k') (u : T) (timeout : UInt32) (entry : Option Handler)
    (arg : Option T) :
    Option.Rel (Twin t) (k.setAlarm u timeout entry arg) (k'.setAlarm u timeout entry arg) := by
  obtain ⟨m, w, rfl, hm, hw⟩ := h
  exact rel_bind (hm.eosSetAlarm u timeout entry arg) fun _ n _ hn => .some ⟨n, w, rfl, hn, hw⟩

/-- The end of `eos_sleep`. -/
theorem sleepFor (h : Twin t k k') (u : T) (timeout : UInt32) :
    Option.Rel (Twin t) (k.sleepFor u timeout) (k'.sleepFor u timeout) :=
  rel_bind (h.setAlarm u timeout _ _) fun _ _ _ h => (h.setStatus u .waiting).eosSchedule

/-- `eos_sleep` (core/task.c:229-256) -/
theorem eosSleep (h : Twin t k k') (tick : UInt32) :
    Option.Rel (Twin t) (k.eosSleep tick) (k'.eosSleep tick) := by
  unfold Kernel.eosSleep
  rw [h.schedulerLock, h.currentTask]
  refine rel_ite (fun _ => .some h) fun _ => rel_bind_same fun u _ => ?_
  have hnext := h.setTcb u (f := fun b => { b with wakeupTime := b.wakeupTime + b.period })
    fun _ _ => rfl
  obtain ⟨w, hu⟩ := h.tcb u
  obtain ⟨w', hu'⟩ := hnext.tcb u
  simp only [hu, hu', hnext.tick]
  exact rel_ite (fun _ => rel_ite (fun _ => .some hnext) fun _ => hnext.sleepFor u _)
    fun _ => h.sleepFor u tick

/-- A tick (core/timer.c:60-92) -/
theorem eosTriggerCounter {idle : T} {a : Kernel Rings T} (hr : Repr k a) (hs : Scheduled idle a)
    (h : Twin t k k') : Option.Rel (Twin t) k.eosTriggerCounter k'.eosTriggerCounter := by
  have hstart : Twin t (k.setTimers (incrementTick k.timers systemTimer))
      (k'.setTimers (incrementTick k'.timers systemTimer)) := by
    obtain ⟨m, w, rfl, ⟨xs, hm⟩, hw⟩ := h
    exact ⟨_, w, rfl, ⟨xs, hm.incrementTick⟩, hw⟩
  exact rel_bind (hstart.triggerLoop hr hs .start _) fun _ _ _ h => h.eosSchedule

/-- **The operations of `core/task.c`**, and the tick -/
theorem exec {idle : T} {a : Kernel Rings T} (hr : Repr k a) (hs : Scheduled idle a)
    (h : Twin t k k') (o : Op T) : Option.Rel (Twin t) (k.exec o) (k'.exec o) := by
  have hg := unseen_ownedBy t
  cases o with
  | createTask task start size entry p =>
    refine h.of_recast (f := fun k => k.exec (.createTask task start size entry p)) fun m w => ?_
    exact Recast.eosCreateTask (hg w) m k task start size entry p fun u b => by
      unfold ownedBy
      split <;> rfl
  | schedule => exact h.eosSchedule
  | changePriority task p =>
    refine h.of_recast (f := fun k => k.exec (.changePriority task p)) fun m w => ?_
    exact Recast.eosChangePriority (hg w) m k task p fun u b => by
      unfold ownedBy
      split <;> rfl
  | setPeriod u period =>
    simp only [Kernel.exec, Kernel.eosSetPeriod, h.tick]
    exact .some (h.setTcb u fun _ _ => rfl)
  | suspendTask task =>
    exact h.of_recast (f := fun k => k.exec (.suspendTask task)) fun m w =>
      Recast.eosSuspendTask (hg w) m k task
  | resumeTask task =>
    exact h.of_recast (f := fun k => k.exec (.resumeTask task)) fun m w =>
      Recast.eosResumeTask (hg w) m k task
  | sleep tick => exact h.eosSleep tick
  | lockScheduler => exact .some (h.congr (f := fun k => k.setLock locked) fun _ _ => rfl)
  | restoreScheduler v =>
    exact (h.congr (f := fun k => k.setLock v) fun _ _ => rfl).eosSchedule
  | waitInQueue q queueType => exact h.osWaitInQueue q queueType
  | wakeupFromQueue q => exact h.osWakeupFromQueue q
  | tick => exact h.eosTriggerCounter hr hs
  | start => exact (h.congr (f := fun k => k.setLock unlocked) fun _ _ => rfl).eosSchedule

/-! ### Semaphores and condition variables -/

/-- The same result, and kernels that differ in what a new TCB holds -/
def Results (t : T) (r r' : CallResult × Kernel LinkMem T) : Prop := r'.1 = r.1 ∧ Twin t r.2 r'.2

/-- Waiting for a semaphore (core/sync.c:55). -/
theorem waitSemaphore (h : Twin t k k') (s : Nat) :
    Option.Rel (Twin t) (k.waitSemaphore s) (k'.waitSemaphore s) := by
  unfold Kernel.waitSemaphore
  rw [h.semaphore]
  exact h.osWaitInQueue _ _

/-- `eos_acquire_semaphore` (core/sync.c:25-75) -/
theorem eosAcquireSemaphore (h : Twin t k k') (s : Nat) (timeout : Int32) :
    Option.Rel (Results t) (k.eosAcquireSemaphore s timeout)
      (k'.eosAcquireSemaphore s timeout) := by
  unfold Kernel.eosAcquireSemaphore Kernel.count
  rw [h.schedulerLock, h.semaphore, h.tick, h.currentTask]
  refine rel_ite (fun _ => .some ⟨rfl, h⟩) fun _ => rel_ite (fun _ => rel_ite
    (fun _ => .some ⟨rfl, h⟩) fun _ => rel_bind_same fun u _ => ?_)
    fun _ => .some ⟨rfl, h.setCount _ _⟩
  exact rel_bind (h.setAlarm u _ _ _) fun _ _ _ h => rel_bind (h.waitSemaphore s) fun _ _ _ h =>
    .some ⟨rfl, h⟩

/-- `eos_acquire_semaphore` behind `_os_wait_in_queue` (core/sync.c:58-75) -/
theorem acquireRetry (h : Twin t k k') (s : Nat) (timeout : Int32) (absTimeout : UInt32) :
    Option.Rel (Results t) (k.acquireRetry s timeout absTimeout)
      (k'.acquireRetry s timeout absTimeout) := by
  unfold Kernel.acquireRetry Kernel.count
  rw [h.semaphore, h.tick, h.currentTask]
  refine rel_ite (fun _ => .some ⟨rfl, h⟩) fun _ => rel_ite (fun _ => ?_) fun _ =>
    rel_bind_same fun u _ => ?_
  · exact rel_bind (h.waitSemaphore s) fun _ _ _ h => .some ⟨rfl, h⟩
  · refine rel_bind (h.setAlarm u _ _ _) fun b b' _ h => ?_
    simp only [h.semaphore]
    exact .some ⟨rfl, h.setCount _ _⟩

/-- `eos_wait_condition` behind the release of the mutex (core/sync.c:121-126) -/
theorem waitCondition (h : Twin t k k') (c m : Nat) :
    Option.Rel (Results t) (k.waitCondition c m) (k'.waitCondition c m) := by
  unfold Kernel.waitCondition
  rw [h.condition, h.currentTask]
  refine rel_bind (h.osWaitInQueue _ _) fun b b' _ h => ?_
  rw [h.currentTask]
  exact rel_ite (fun _ => h.eosAcquireSemaphore m 0) fun _ => .some ⟨rfl, h⟩

/-- `eos_wait_condition` (core/sync.c:113-126) -/
theorem eosWaitCondition (h : Twin t k k') (c m : Nat) :
    Option.Rel (Results t) (k.eosWaitCondition c m) (k'.eosWaitCondition c m) := by
  unfold Kernel.eosWaitCondition
  rw [h.currentTask]
  refine rel_bind (h.eosReleaseSemaphore m) fun b b' _ h => ?_
  rw [h.currentTask]
  exact rel_ite (fun _ => h.waitCondition c m) fun _ => .some ⟨rfl, h⟩

/-- A call goes on at the same point in both. -/
theorem goOn (h : Twin t k k') (r : Resume) : Option.Rel (Results t) (k.goOn r) (k'.goOn r) := by
  cases r with
  | user => exact .none
  | acquire s timeout absTimeout => exact h.acquireRetry s timeout absTimeout
  | released c m => exact h.waitCondition c m
  | notified m => exact h.eosAcquireSemaphore m 0

end Twin

/-- The systems differ in what a new TCB holds. -/
structure TwinSystem (t : T) (s s' : System LinkMem T) : Prop where
  kernel : Twin t s.kernel s'.kernel
  resume : s'.resume = s.resume

/-- **Every call** does the same in both systems. -/
theorem TwinSystem.exec [Fintype T] {idle : T} {s s' : System LinkMem T} {x : System Rings T}
    (hs : SystemOk idle s x) (h : TwinSystem t s s') (call : Call T) :
    Option.Rel (TwinSystem t) (s.exec call) (s'.exec call) := by
  have hpart : ∀ call, (∀ u, Option.Rel (Twin.Results t) (s.part u call) (s'.part u call)) →
      Option.Rel (TwinSystem t)
        (do let u ← s.kernel.vars.currentTask; return s.leave u (← s.part u call))
        (do let u ← s'.kernel.vars.currentTask; return s'.leave u (← s'.part u call)) := by
    intro call hcall
    rw [h.kernel.currentTask]
    refine rel_bind_same fun u _ => rel_bind (hcall u) ?_
    rintro ⟨r, k⟩ ⟨r', k'⟩ - ⟨hrr, hk⟩
    obtain rfl : r' = r := hrr
    cases r' with
    | returned v => exact .some ⟨hk, by rw [System.leave, System.leave, h.resume]⟩
    | switched r => exact .some ⟨hk, by rw [System.leave, System.leave, h.resume]⟩
  cases call with
  | kernel o =>
    exact rel_bind (h.kernel.exec hs.kernel hs.scheduled o) fun _ _ _ hk => .some ⟨hk, h.resume⟩
  | release sem =>
    exact rel_bind (h.kernel.eosReleaseSemaphore sem) fun _ _ _ hk => .some ⟨hk, h.resume⟩
  | notifyCondition c =>
    exact rel_bind (h.kernel.osWakeupFromQueue (.condition c)) fun _ _ _ hk => .some ⟨hk, h.resume⟩
  | acquire sem timeout => exact hpart _ fun _ => h.kernel.eosAcquireSemaphore sem timeout
  | waitCondition c m => exact hpart _ fun _ => h.kernel.eosWaitCondition c m
  | goOn =>
    refine hpart _ fun u => ?_
    show Option.Rel _ (s.kernel.goOn (s.resume u)) (s'.kernel.goOn (s'.resume u))
    rw [h.resume]
    exact h.kernel.goOn _

end Twins

end Eos.Analysis
