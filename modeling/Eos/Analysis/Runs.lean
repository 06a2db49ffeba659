import Eos.Analysis.Ticks
import Eos.Model.Operations

/-!
# The invariant of runs of the task, timer and scheduler-lock operations

`Scheduled idle a` adds to the consistency of the lists what the scheduler relies on:
the idle task is ready or running, only the current task runs, and it does whenever the
scheduler is unlocked.  `Sleeping a` says that a task with a pending alarm waits and is
in no wait queue, which holds while alarms are only set by `eos_sleep`.

Every operation of `core/task.c` and `core/scheduler.c` has a result in a scheduled
state and keeps both properties (`exec_step`), given that it does not block the idle task
and that a task that calls `_os_wait_in_queue` is in no queue.  A tick does so in a state
that is `Sleeping` (`tick_step`).
-/

set_option autoImplicit false

namespace Eos.Analysis

open Eos.Model
open Eos.Interface (Rings Linked)

variable {T : Type} [DecidableEq T]

/-- The lists are consistent, the idle task could run and only the current task runs. -/
structure Scheduled (idle : T) (a : Kernel Rings T) : Prop extends Consistent a where
  idleRuns : a.status idle = .ready ∨ a.status idle = .running
  runs : ∀ t, a.status t = .running → a.vars.currentTask = some t
  started : a.vars.schedulerLock ≠ locked →
    ∃ c, a.vars.currentTask = some c ∧ a.status c = .running

/-- A task with a pending alarm waits and is in no wait queue. -/
def Sleeping (a : Kernel Rings T) : Prop :=
  ∀ t, Pending a.timers t → a.status t = .waiting ∧ ∀ q, t ∉ a.queue.ring (.wait q)

variable {idle t : T} {a b : Kernel Rings T}

/-- How an operation leads from `a` to `b`: it does not reschedule and no task starts or stops
running; or it dispatches a task; or the scheduler is locked, and no task starts or stops
running unless the operation makes the current task wait. -/
inductive Outcome (waits : Prop) (a b : Kernel Rings T) : Prop
  | quiet (hcur : b.vars.currentTask = a.vars.currentTask)
      (hlock : b.vars.schedulerLock = a.vars.schedulerLock ∨ b.vars.schedulerLock = locked)
      (hrun : ∀ t, b.status t = .running ↔ a.status t = .running)
      (hready : ∀ t, b.status t = .ready → a.status t = .ready)
      (hprio : ∀ t, b.priority t = a.priority t)
  | dispatched (m : Kernel Rings T) (next : T) (hd : Dispatched m b next)
  | held (hlock : b.vars.schedulerLock = locked)
      (hcur : b.vars.currentTask = a.vars.currentTask)
      (hrun : waits ∧ a.vars.schedulerLock = locked ∨
        ∀ t, b.status t = .running ↔ a.status t = .running)

/-- What an operation does that may wake a task from the queue `woken`: it keeps the invariant,
every other task without a pending alarm stays in its wait queue, and only the current task's
alarm may become pending. -/
structure Advance (idle : T) (woken : Option WaitQueue) (a b : Kernel Rings T) : Prop where
  scheduled : Scheduled idle b
  stays : ∀ q u, woken ≠ some q → ¬Pending a.timers u → u ∈ a.queue.ring (.wait q) →
    u ∈ b.queue.ring (.wait q)
  pending : ∀ u, Pending b.timers u → Pending a.timers u ∨ a.vars.currentTask = some u

/-- What an operation does while alarms are only set by `eos_sleep`. -/
structure Step (idle : T) (waits : Prop) (woken : Option WaitQueue) (a b : Kernel Rings T) :
    Prop extends Advance idle woken a b where
  outcome : Outcome waits a b
  sleeping : Sleeping a → Sleeping b

/-- An operation that changes nothing. -/
theorem Scheduled.refl (h : Scheduled idle a) (waits : Prop) (woken : Option WaitQueue) :
    Step idle waits woken a a :=
  ⟨⟨h, fun _ _ _ _ => id, fun _ => Or.inl⟩,
    .quiet rfl (Or.inl rfl) (fun _ => Iff.rfl) (fun _ => id) fun _ => rfl, id⟩

namespace Scheduled

/-- **Rescheduling**: in a consistent state where the idle task could run and no other task than
the current one runs, `eos_schedule` has a result and establishes the invariant. -/
theorem reschedule (hc : Consistent a) (hi : a.status idle = .ready ∨ a.status idle = .running)
    (hr : ∀ t, a.status t = .running → a.vars.currentTask = some t) :
    ∃ b, a.eosSchedule = some b ∧ Scheduled idle b ∧ (Sleeping a → Sleeping b) ∧
      (∀ q, b.queue.ring (.wait q) = a.queue.ring (.wait q)) ∧ b.timers = a.timers ∧
      (a.vars.schedulerLock = locked ∧ b = a ∨
        a.vars.schedulerLock ≠ locked ∧ ∃ next, Dispatched a b next) := by
  by_cases hl : a.vars.schedulerLock = locked
  · exact ⟨a, eosSchedule_locked hl, ⟨hc, hi, hr, fun hn => absurd hl hn⟩, id, fun _ => rfl, rfl,
      Or.inl ⟨hl, rfl⟩⟩
  · obtain ⟨b, next, hb, hd⟩ := eosSchedule_dispatched hc hl hi hr
    refine ⟨b, hb, ⟨hd.consistent, hd.runnable hi fun h => hr idle h, fun t ht => ?_,
      fun _ => ⟨next, hd.current, hd.running⟩⟩, fun hs t ht => ?_, hd.wait, hd.timers,
      Or.inr ⟨hl, next, hd⟩⟩
    · rw [hd.only_running hr ht, hd.current]
    · rw [hd.timers] at ht
      obtain ⟨hw, hq⟩ := hs t ht
      refine ⟨?_, fun q => by rw [hd.wait]; exact hq q⟩
      rw [hd.status_eq (by simp [hw]) (by simp [hw]), hw]

/-- What `reschedule` asks for, after a move of task `t`. -/
theorem moved_runs (h : Scheduled idle a) {m : Kernel Rings T} (hm : Moved a m t)
    (hidle : t = idle → m.status t = .ready ∨ m.status t = .running)
    (hrun : m.status t = .running → a.status t = .running) :
    (m.status idle = .ready ∨ m.status idle = .running) ∧
      ∀ u, m.status u = .running → m.vars.currentTask = some u := by
  constructor
  · by_cases hti : t = idle
    · subst hti; exact hidle rfl
    · rw [hm.status (Ne.symm hti)]; exact h.idleRuns
  · intro u hu
    rw [hm.currentTask]
    by_cases hut : u = t
    · subst hut; exact h.runs u (hrun hu)
    · exact h.runs u (by rwa [hm.status hut] at hu)

/-- A move of task `t` that ends in a call of `eos_schedule`. -/
theorem moved_advance (h : Scheduled idle a) (woken : Option WaitQueue) {m : Kernel Rings T}
    (hm : Moved a m t) (hidle : t = idle → m.status t = .ready ∨ m.status t = .running)
    (hrun : m.status t = .running → a.status t = .running)
    (hstays : ∀ q, woken ≠ some q → t ∈ a.queue.ring (.wait q) → t ∈ m.queue.ring (.wait q))
    (hpend : Pending m.timers t → Pending a.timers t ∨ a.vars.currentTask = some t) :
    ∃ b, m.eosSchedule = some b ∧ Advance idle woken a b ∧ (Sleeping m → Sleeping b) ∧
      (∀ q, b.queue.ring (.wait q) = m.queue.ring (.wait q)) ∧ b.timers = m.timers ∧
      b.vars.schedulerLock = a.vars.schedulerLock ∧
      (m.vars.schedulerLock = locked ∧ b = m ∨
        m.vars.schedulerLock ≠ locked ∧ ∃ next, Dispatched m b next) := by
  obtain ⟨hi, hr⟩ := h.moved_runs hm hidle hrun
  obtain ⟨b, hb, hsb, hsl, hwb, htb, hout⟩ := reschedule hm.consistent hi hr
  have hlb : b.vars.schedulerLock = a.vars.schedulerLock := by
    rcases hout with ⟨-, rfl⟩ | ⟨-, next, hd⟩
    · exact hm.lock
    · exact hd.lock.trans hm.lock
  refine ⟨b, hb, ⟨hsb, fun q u hq _ hu => ?_, fun u hu => ?_⟩, hsl, hwb, htb, hlb, hout⟩
  · rw [hwb]
    by_cases hut : u = t
    · subst hut; exact hstays q hq hu
    · exact (hm.wait u hut q).mpr hu
  · rw [htb] at hu
    by_cases hut : u = t
    · subst hut; exact hpend hu
    · exact Or.inl (hm.pending u hut hu)

/-- The step of such a move. -/
theorem moved (h : Scheduled idle a) (waits : Prop) (woken : Option WaitQueue)
    {m : Kernel Rings T} (hm : Moved a m t)
    (hidle : t = idle → m.status t = .ready ∨ m.status t = .running)
    (hrun : m.status t = .running → a.status t = .running)
    (hkeep : waits ∨ a.vars.schedulerLock ≠ locked ∨
      (a.status t = .running → m.status t = .running))
    (hsleep : Sleeping a → Pending m.timers t →
      m.status t = .waiting ∧ ∀ q, t ∉ m.queue.ring (.wait q))
    (hstays : ∀ q, woken ≠ some q → t ∈ a.queue.ring (.wait q) → t ∈ m.queue.ring (.wait q))
    (hpend : Pending m.timers t → Pending a.timers t ∨ a.vars.currentTask = some t) :
    ∃ b, m.eosSchedule = some b ∧ Step idle waits woken a b ∧
      (∀ q, b.queue.ring (.wait q) = m.queue.ring (.wait q)) ∧ b.timers = m.timers ∧
      b.vars.schedulerLock = a.vars.schedulerLock ∧
      (a.vars.schedulerLock = locked ∨ ∃ next, Dispatched m b next) := by
  obtain ⟨b, hb, hadv, hsl, hwb, htb, hlb, hout⟩ := h.moved_advance woken hm hidle hrun hstays hpend
  refine ⟨b, hb, ⟨hadv, ?_, fun hs => hsl fun u hu => ?_⟩, hwb, htb, hlb, ?_⟩
  · rcases hout with ⟨hl, rfl⟩ | ⟨-, next, hd⟩
    · refine .held hl hm.currentTask ?_
      rcases hkeep with hk | hk | hk
      · exact Or.inl ⟨hk, hm.lock ▸ hl⟩
      · exact absurd (hm.lock ▸ hl) hk
      · refine Or.inr fun u => ?_
        by_cases hut : u = t
        · subst hut; exact ⟨hrun, hk⟩
        · rw [hm.status hut]
    · exact .dispatched m next hd
  · by_cases hut : u = t
    · subst hut; exact hsleep hs hu
    · obtain ⟨hw, hq⟩ := hs u (hm.pending u hut hu)
      exact ⟨by rw [hm.status hut, hw], fun q hc => hq q ((hm.wait u hut q).mp hc)⟩
  · rcases hout with ⟨hl, -⟩ | ⟨-, next, hd⟩
    · exact Or.inl (hm.lock ▸ hl)
    · exact Or.inr ⟨next, hd⟩

/-- Writing fields of a TCB that no list depends on. -/
theorem setTcb (h : Scheduled idle a) (f : Tcb → Tcb)
    (hs : (f (a.vars.tcb t)).status = a.status t)
    (hp : (f (a.vars.tcb t)).priority = a.priority t)
    (ho : (f (a.vars.tcb t)).waitQueueOwner = a.waitQueueOwner t) :
    Scheduled idle (a.setTcb t f) ∧ (∀ u, (a.setTcb t f).status u = a.status u) ∧
      ∀ u, (a.setTcb t f).priority u = a.priority u := by
  have hs' : ∀ u, (a.setTcb t f).status u = a.status u := Kernel.field_setTcb Tcb.status hs
  have hp' : ∀ u, (a.setTcb t f).priority u = a.priority u :=
    Kernel.field_setTcb Tcb.priority hp
  refine ⟨⟨h.toConsistent.setTcb f (by rw [hp]; exact h.priority t) hs ho fun _ => hp, ?_, ?_,
    ?_⟩, hs', hp'⟩
  · rw [hs']; exact h.idleRuns
  · exact fun u hu => h.runs u (by rwa [hs'] at hu)
  · intro hl
    obtain ⟨c, hc, hr⟩ := h.started hl
    exact ⟨c, hc, by rw [hs', hr]⟩

/-- The step of writing such fields. -/
theorem setTcb_step (h : Scheduled idle a) (f : Tcb → Tcb)
    (hs : (f (a.vars.tcb t)).status = a.status t)
    (hp : (f (a.vars.tcb t)).priority = a.priority t)
    (ho : (f (a.vars.tcb t)).waitQueueOwner = a.waitQueueOwner t) (waits : Prop)
    (woken : Option WaitQueue) : Step idle waits woken a (a.setTcb t f) := by
  obtain ⟨h', hs', hp'⟩ := h.setTcb f hs hp ho
  exact ⟨⟨h', fun _ _ _ _ => id, fun _ => Or.inl⟩,
    .quiet rfl (Or.inl rfl) (fun u => by rw [hs']) (fun u => by rw [hs']; exact id) hp',
    fun hsl u hu => ⟨by rw [hs']; exact (hsl u hu).1, (hsl u hu).2⟩⟩

end Scheduled

/-- A step seen from a state with the same statuses, priorities, scheduler, wait queues and
alarms. -/
theorem Step.congr {waits : Prop} {woken : Option WaitQueue} {a' : Kernel Rings T}
    (h : Step idle waits woken a' b) (hs : ∀ t, a'.status t = a.status t)
    (hp : ∀ t, a'.priority t = a.priority t) (hc : a'.vars.currentTask = a.vars.currentTask)
    (hl : a'.vars.schedulerLock = a.vars.schedulerLock) (hq : a'.queue = a.queue)
    (ht : a'.timers = a.timers) : Step idle waits woken a b where
  scheduled := h.scheduled
  outcome := by
    cases h.outcome with
    | quiet hcur hlock hrun hready hprio =>
      exact .quiet (hcur.trans hc) (hl ▸ hlock) (fun t => by rw [hrun, hs])
        (fun t ht => by rw [← hs]; exact hready t ht) fun t => (hprio t).trans (hp t)
    | dispatched m next hd => exact .dispatched m next hd
    | held hlock hcur hrun =>
      exact .held hlock (hcur.trans hc)
        (hrun.imp (fun h => ⟨h.1, hl ▸ h.2⟩) fun h t => by rw [h, hs])
  sleeping hsl := h.sleeping fun u hu => by
    rw [ht] at hu
    rw [hs, hq]
    exact hsl u hu
  stays q u hw hn hu := h.stays q u hw (by rwa [ht]) (by rwa [hq])
  pending u hu := by
    have := h.pending u hu
    rwa [ht, hc] at this

/-! ## The operations -/

/-- A task whose queue node is in no queue. -/
def Status.unqueued : Status → Bool
  | .running | .suspended => true
  | _ => false

/-- The operations a run may apply: `eos_create_task` only to a zeroed TCB; the idle task is
neither suspended nor put to sleep, and does not wait; a task that waits is in no queue. -/
def Admitted (idle : T) (v : Vars T) : Op T → Prop
  | .createTask task _ _ _ _ => task.all fun t => v.tcb t = .zero
  | .suspendTask task => task ≠ some idle
  | .sleep _ => v.currentTask ≠ some idle
  | .waitInQueue _ _ =>
    v.currentTask ≠ some idle ∧ v.currentTask.any fun c => Status.unqueued (v.tcb c).status
  | _ => True

instance (idle : T) (v : Vars T) : DecidablePred (Admitted idle v)
  | .createTask task _ _ _ _ =>
    inferInstanceAs (Decidable ((task.all fun t => v.tcb t = .zero) = true))
  | .suspendTask task => inferInstanceAs (Decidable (task ≠ some idle))
  | .sleep _ => inferInstanceAs (Decidable (v.currentTask ≠ some idle))
  | .waitInQueue _ _ =>
    inferInstanceAs (Decidable (v.currentTask ≠ some idle ∧
      (v.currentTask.any fun c => Status.unqueued (v.tcb c).status) = true))
  | .schedule | .changePriority _ _ | .setPeriod _ _ | .resumeTask _ | .lockScheduler
  | .restoreScheduler _ | .wakeupFromQueue _ | .tick | .start => .isTrue trivial

/-- The operation makes the current task wait in a queue. -/
def waits : Op T → Prop
  | .waitInQueue _ _ => True
  | _ => False

/-- The queue an operation wakes a task from. -/
def wakes : Op T → Option WaitQueue
  | .wakeupFromQueue q => some q
  | _ => none

/-- The step of an operation. -/
abbrev OpStep (idle : T) (o : Op T) (a b : Kernel Rings T) : Prop :=
  Step idle (waits o) (wakes o) a b

/-- `eos_schedule` (core/task.c:88-139) -/
theorem eosSchedule_step (h : Scheduled idle a) (o : Op T) :
    ∃ b, a.eosSchedule = some b ∧ OpStep idle o a b := by
  obtain ⟨b, hb, hsb, hsl, hwb, htb, hout⟩ :=
    Scheduled.reschedule h.toConsistent h.idleRuns h.runs
  refine ⟨b, hb, ⟨hsb, fun q u _ _ hu => hwb q ▸ hu, fun u hu => Or.inl (htb ▸ hu)⟩, ?_, hsl⟩
  rcases hout with ⟨hl, rfl⟩ | ⟨-, next, hd⟩
  · exact .held hl rfl (Or.inr fun _ => Iff.rfl)
  · exact .dispatched a next hd

/-- `_os_restore_scheduler` (core/scheduler.c:61-67) -/
theorem osRestoreScheduler_step (h : Scheduled idle a) (o : Op T) (v : UInt8) :
    ∃ b, a.osRestoreScheduler v = some b ∧ OpStep idle o a b := by
  obtain ⟨b, hb, hsb, hsl, hwb, htb, hout⟩ :=
    Scheduled.reschedule (a := a.setLock v) (h.toConsistent.congr rfl rfl rfl rfl rfl) h.idleRuns
      h.runs
  refine ⟨b, hb, ⟨hsb, fun q u _ _ hu => ?_, fun u hu => Or.inl (htb ▸ hu)⟩, ?_, hsl⟩
  · rw [hwb]
    exact hu
  · rcases hout with ⟨hl, rfl⟩ | ⟨-, next, hd⟩
    · exact .held hl rfl (Or.inr fun _ => Iff.rfl)
    · exact .dispatched _ next hd

/-- `eos_create_task` (core/task.c:34-79) -/
theorem createTask_step [Fintype T] (h : Scheduled idle a) {task : Option T}
    {start size entry : UInt64} {p : Nat} (ho : task.all fun t => a.vars.tcb t = .zero) :
    ∃ b, a.exec (.createTask task start size entry p) = some b ∧
      OpStep idle (.createTask task start size entry p) a b := by
  cases task with
  | none => exact ⟨a, rfl, h.refl _ _⟩
  | some t =>
    have hz : a.vars.tcb t = .zero := by simpa using ho
    by_cases he : entry = 0
    · exact ⟨a, by simp [Kernel.exec, Kernel.eosCreateTask, he], h.refl _ _⟩
    by_cases hp : p ≤ 63
    · by_cases hst : start = 0 ∨ size < minStackSize
      · refine ⟨a, ?_, h.refl _ _⟩
        simp [Kernel.exec, Kernel.eosCreateTask, he, lowestPriority, Nat.not_lt.mpr hp, hst]
      · obtain ⟨m, hm, hmv, hs, hnp, -⟩ := eosCreateTask_moved h.toConsistent hz he hp hst
        have hzs : a.status t = .zeroed := by simp [Kernel.status, hz, Tcb.zero]
        obtain ⟨b, hb, hstep, -⟩ := h.moved _ _ hmv (fun _ => Or.inl hs) (by simp [hs])
          (Or.inr (Or.inr (by simp [hzs]))) (fun _ hc => absurd hc hnp)
          (fun q _ hq => by rw [((h.placed t).waiting q hq).1] at hzs; cases hzs)
          fun hc => absurd hc hnp
        exact ⟨b, hm.trans hb, hstep⟩
    · refine ⟨a, ?_, h.refl _ _⟩
      simp [Kernel.exec, Kernel.eosCreateTask, he, lowestPriority, Nat.not_le.mp hp]

/-- `eos_change_priority` (core/task.c:148-172) -/
theorem changePriority_step [Fintype T] (h : Scheduled idle a) (task : Option T) (p : Nat) :
    ∃ b, a.exec (.changePriority task p) = some b ∧ OpStep idle (.changePriority task p) a b := by
  cases task with
  | none => exact ⟨a, rfl, h.refl _ _⟩
  | some t =>
    by_cases hp : p ≤ 63
    · obtain ⟨m, hm, hmv, hs, -, hq, htm, -⟩ := eosChangePriority_moved (t := t)
        h.toConsistent hp
      obtain ⟨b, hb, hstep, -⟩ := h.moved _ _ hmv (fun hti => by rw [hs, hti]; exact h.idleRuns)
        (by rw [hs]; exact id) (Or.inr (Or.inr (by rw [hs]; exact id)))
        (fun hsl hc => by
          rw [htm] at hc
          rw [hs]
          exact ⟨(hsl t hc).1, fun q => by rw [hq]; exact (hsl t hc).2 q⟩)
        (fun q _ hc => by rw [hq]; exact hc) fun hc => Or.inl (htm ▸ hc)
      exact ⟨b, hm.trans hb, hstep⟩
    · exact ⟨a, eosChangePriority_eq_self hp, h.refl _ _⟩

/-- `eos_suspend_task` on any task but the idle one (core/task.c:195-209) -/
theorem suspendTask_step [Fintype T] (h : Scheduled idle a) {task : Option T}
    (ho : task ≠ some idle) :
    ∃ b, a.exec (.suspendTask task) = some b ∧ OpStep idle (.suspendTask task) a b := by
  cases task with
  | none => exact ⟨a, rfl, h.refl _ _⟩
  | some t =>
    by_cases hs : a.status t = .ready
    · obtain ⟨b, hb, hmv, hsb, htm, hpr⟩ := eosSuspendTask_moved h.toConsistent hs
      have hne : ∀ u, a.status u = .running → u ≠ t := fun u hu hut => by
        rw [hut, hs] at hu; cases hu
      have hti : idle ≠ t := fun e => ho (by rw [e])
      refine ⟨b, hb, ⟨⟨hmv.consistent, ?_, ?_, ?_⟩, fun q u _ _ hu => ?_,
        fun u hu => Or.inl (htm ▸ hu)⟩, .quiet hmv.currentTask (Or.inl hmv.lock) (fun u => ?_)
        (fun u hu => ?_) hpr, fun hsl u hu => ?_⟩
      · rw [hmv.status hti]; exact h.idleRuns
      · intro u hu
        rw [hmv.status fun hut => by rw [hut, hsb] at hu; cases hu] at hu
        exact hmv.currentTask.trans (h.runs u hu)
      · intro hl
        obtain ⟨c, hc, hr⟩ := h.started (hmv.lock ▸ hl)
        exact ⟨c, hmv.currentTask.trans hc, by rw [hmv.status (hne c hr), hr]⟩
      · have hut : u ≠ t := fun e => by
          have := ((h.placed u).waiting q hu).1
          rw [e, hs] at this
          cases this
        exact (hmv.wait u hut q).mpr hu
      · by_cases hut : u = t
        · subst hut; simp [hsb, hs]
        · rw [hmv.status hut]
      · by_cases hut : u = t
        · subst hut; exact hs
        · rwa [hmv.status hut] at hu
      · rw [htm] at hu
        obtain ⟨huw, huq⟩ := hsl u hu
        have hut : u ≠ t := fun e => by rw [e, hs] at huw; cases huw
        exact ⟨by rw [hmv.status hut, huw], fun q hc => huq q ((hmv.wait u hut q).mp hc)⟩
    · exact ⟨a, eosSuspendTask_eq_self hs, h.refl _ _⟩

/-- `eos_resume_task` (core/task.c:212-226) -/
theorem resumeTask_step [Fintype T] (h : Scheduled idle a) (task : Option T) :
    ∃ b, a.exec (.resumeTask task) = some b ∧ OpStep idle (.resumeTask task) a b := by
  cases task with
  | none => exact ⟨a, rfl, h.refl _ _⟩
  | some t =>
    by_cases hs : a.status t = .suspended
    · obtain ⟨m, hm, hmv, hsm, htm, -⟩ := eosResumeTask_moved h.toConsistent hs
      obtain ⟨b, hb, hstep, -⟩ := h.moved _ _ hmv (fun _ => Or.inl hsm) (by simp [hsm])
        (Or.inr (Or.inr (by simp [hs])))
        (fun hsl hc => by
          rw [htm] at hc
          rw [(hsl t hc).1] at hs
          cases hs)
        (fun q _ hq => by rw [((h.placed t).waiting q hq).1] at hs; cases hs)
        fun hc => Or.inl (htm ▸ hc)
      exact ⟨b, hm.trans hb, hstep⟩
    · exact ⟨a, eosResumeTask_eq_self hs, h.refl _ _⟩

variable [Fintype T]

/-- The end of `eos_sleep`, where the running task blocks until its alarm
(core/task.c:246-255). -/
theorem sleepFor_step (h : Scheduled idle a) (hl : a.vars.schedulerLock ≠ locked)
    (hc : a.vars.currentTask = some t) (hr : a.status t = .running) (hti : t ≠ idle)
    (timeout : UInt32) (o : Op T) :
    ∃ b, a.sleepFor t timeout = some b ∧ OpStep idle o a b := by
  have hf := h.free (t := t) (by simp [hr]) (by simp [hr])
  obtain ⟨m, hm, hmv, hsm, hqm, -, -⟩ := sleepFor_moved h.toConsistent hf (by simp [hr]) timeout
  obtain ⟨b, hb, hstep, -⟩ := h.moved _ _ hmv (fun e => absurd e hti) (by simp [hsm])
    (Or.inr (Or.inl hl)) (fun _ _ => ⟨hsm, fun q hc => hf ⟨_, by rw [← hqm]; exact hc⟩⟩)
    (fun q _ hq => absurd ⟨_, hq⟩ hf) fun _ => Or.inr hc
  exact ⟨b, hm.trans hb, hstep⟩

/-- `eos_sleep` by any task but the idle one (core/task.c:229-256) -/
theorem sleep_step (h : Scheduled idle a) (tick : UInt32)
    (ho : a.vars.currentTask ≠ some idle) :
    ∃ b, a.exec (.sleep tick) = some b ∧ OpStep idle (.sleep tick) a b := by
  by_cases hl : a.vars.schedulerLock = locked
  · exact ⟨a, by simp [Kernel.exec, Kernel.eosSleep, hl], h.refl _ _⟩
  obtain ⟨c, hc, hr⟩ := h.started hl
  have hci : c ≠ idle := fun e => ho (e ▸ hc)
  simp only [Kernel.exec, Kernel.eosSleep, hl, if_false, hc, Option.bind_eq_bind, Option.bind_some]
  by_cases hper : tick = 0 ∧ (a.vars.tcb c).period ≠ 0
  · rw [if_pos hper]
    let f (b : Tcb) : Tcb := { b with wakeupTime := b.wakeupTime + b.period }
    obtain ⟨h', hs', hp'⟩ := h.setTcb (t := c) f rfl rfl rfl
    split
    · exact ⟨_, rfl, h.setTcb_step (t := c) f rfl rfl rfl _ _⟩
    · obtain ⟨b, hb, hstep⟩ := sleepFor_step h' hl hc (by rw [hs', hr]) hci _ (.sleep tick)
      exact ⟨b, hb, hstep.congr hs' hp' rfl rfl rfl rfl⟩
  · rw [if_neg hper]
    exact sleepFor_step h hl hc hr hci tick _

/-- `_os_wait_in_queue` by a task in no queue but the idle one (core/task.c:273-297) -/
theorem waitInQueue_step (h : Scheduled idle a) (q : WaitQueue) (queueType : UInt8)
    (hc : a.vars.currentTask = some t) (hti : t ≠ idle) (hr : Status.unqueued (a.status t))
    (woken : Option WaitQueue) :
    ∃ b, a.osWaitInQueue q queueType = some b ∧ Step idle True woken a b ∧
      t ∈ b.queue.ring (.wait q) ∧ b.timers = a.timers ∧
      b.vars.schedulerLock = a.vars.schedulerLock ∧
      (a.vars.schedulerLock = locked ∨ b.vars.currentTask ≠ some t) := by
  have hne : a.status t ≠ .ready ∧ a.status t ≠ .waiting ∧ a.status t ≠ .zeroed := by
    refine ⟨?_, ?_, ?_⟩ <;> (intro hs; rw [hs] at hr; cases hr)
  have hf := h.free hne.1 hne.2.1
  obtain ⟨m, hm, hmv, hsm, htq, htm, -⟩ := osWaitInQueue_moved h.toConsistent hc hf hne.2.2
    q queueType
  obtain ⟨b, hb, hstep, hwb, htb, hlb, hout⟩ := h.moved True woken hmv
    (fun e => absurd e hti) (by simp [hsm]) (Or.inl trivial)
    (fun hsl hp => by
      rw [htm] at hp
      exact absurd (hsl t hp).1 hne.2.1)
    (fun q' _ hq' => absurd ⟨_, hq'⟩ hf) fun hp => Or.inl (htm ▸ hp)
  refine ⟨b, hm.trans hb, hstep, hwb q ▸ htq, htb.trans htm, hlb, hout.imp id ?_⟩
  rintro ⟨next, hd⟩ hcb
  have hnext : next = t := by rwa [hd.current, Option.some.injEq] at hcb
  have hrun := hd.running
  rw [hnext, hd.status_eq (by simp [hsm]) (by simp [hsm]), hsm] at hrun
  cases hrun

omit [Fintype T] in
/-- `_os_wakeup_from_queue` (core/task.c:300-316) -/
theorem wakeupFromQueue_step (h : Scheduled idle a) (q : WaitQueue) (waits : Prop) :
    ∃ b, a.osWakeupFromQueue q = some b ∧ Step idle waits (some q) a b ∧
      b.vars.schedulerLock = a.vars.schedulerLock := by
  cases hq : a.queue.ring (.wait q) with
  | nil => exact ⟨a, osWakeupFromQueue_eq_self hq, h.refl _ _, rfl⟩
  | cons t rest =>
    have ht : t ∈ a.queue.ring (.wait q) := by rw [hq]; exact List.mem_cons_self
    have hw := ((h.placed t).waiting q ht).1
    obtain ⟨m, hm, hmv, hsm, -, htm, -⟩ := osWakeupFromQueue_moved h.toConsistent hq
    obtain ⟨b, hb, hstep, -, -, hlb, -⟩ := h.moved waits (some q) hmv
      (fun _ => Or.inl hsm) (by simp [hsm]) (Or.inr (Or.inr (by simp [hw])))
      (fun hsl hp => absurd ht ((hsl t (htm ▸ hp)).2 q))
      (fun q' hne hq' => by
        have := h.eq_of_mem ht hq'
        cases this
        exact absurd rfl hne)
      fun hp => Or.inl (htm ▸ hp)
    exact ⟨b, hm.trans hb, hstep, hlb⟩

/-- **Every admitted operation but a tick has a result and keeps the invariant.** -/
theorem exec_step (h : Scheduled idle a) {o : Op T} (ho : Admitted idle a.vars o)
    (hot : o ≠ .tick) : ∃ b, a.exec o = some b ∧ OpStep idle o a b := by
  cases o with
  | createTask task start size entry p => exact createTask_step h ho
  | schedule => exact eosSchedule_step h _
  | changePriority task p => exact changePriority_step h task p
  | setPeriod t p =>
    exact ⟨_, rfl, h.setTcb_step (t := t) (fun b => { b with period := p, wakeupTime := a.tick })
      rfl rfl rfl _ _⟩
  | suspendTask task => exact suspendTask_step h ho
  | resumeTask task => exact resumeTask_step h task
  | sleep tick => exact sleep_step h tick ho
  | lockScheduler =>
    exact ⟨_, rfl, ⟨⟨h.toConsistent.congr rfl rfl rfl rfl rfl, h.idleRuns, h.runs,
      fun hn => absurd rfl hn⟩, fun _ _ _ _ => id, fun _ => Or.inl⟩,
      .quiet rfl (Or.inr rfl) (fun _ => Iff.rfl) (fun _ => id) fun _ => rfl, id⟩
  | restoreScheduler v => exact osRestoreScheduler_step h _ v
  | waitInQueue q queueType =>
    obtain ⟨hci, hrun⟩ := ho
    cases hc : a.vars.currentTask with
    | none => simp [hc] at hrun
    | some c =>
      rw [hc] at hci hrun
      obtain ⟨b, hb, hstep, -⟩ := waitInQueue_step h q queueType hc (fun e => hci (e ▸ rfl)) hrun _
      exact ⟨b, hb, hstep⟩
  | wakeupFromQueue q =>
    obtain ⟨b, hb, hstep, -⟩ := wakeupFromQueue_step h q _
    exact ⟨b, hb, hstep⟩
  | tick => exact absurd rfl hot
  | start => exact osRestoreScheduler_step h _ unlocked

/-! ## Ticks -/

/-- The alarm of task `t` fires: it is the first one of the queue, which it leaves, and the task
becomes ready. -/
structure Fired (a b : Kernel Rings T) (t : T) : Prop where
  alarms : AlarmsOk a.timers
  expired : expiredAlarm a.timers systemTimer = some t
  status : b.status t = .ready
  others : ∀ u ≠ t, b.status u = a.status u
  timers : b.timers = dropAlarm a.timers t

/-- **The alarms of a tick** wake sleeping tasks up: the loop has a result, keeps the invariant
and whatever else the firing of an alarm keeps, and starts or stops no running task
(core/timer.c:67-90). -/
theorem triggerAlarms_sleeping {J : Kernel Rings T → Prop}
    (hJ : ∀ a b t, Fired a b t → J a → J b) (h : Scheduled idle a) (hs : Sleeping a)
    (hj : J (a.setTimers (incrementTick a.timers systemTimer))) :
    ∃ b, a.triggerAlarms = some b ∧ Scheduled idle b ∧ Sleeping b ∧
      b.vars.currentTask = a.vars.currentTask ∧
      (∀ t, b.status t = .running ↔ a.status t = .running) ∧
      (∀ q u, u ∈ a.queue.ring (.wait q) → u ∈ b.queue.ring (.wait q)) ∧
      (∀ u, Pending b.timers u → Pending a.timers u) ∧ J b ∧
      expiredAlarm b.timers systemTimer = none := by
  let I (b : Kernel Rings T) : Prop := Scheduled idle b ∧ Sleeping b ∧
    b.vars.currentTask = a.vars.currentTask ∧
    (∀ t, b.status t = .running ↔ a.status t = .running) ∧
    (∀ q u, u ∈ a.queue.ring (.wait q) → u ∈ b.queue.ring (.wait q)) ∧
    (∀ u, Pending b.timers u → Pending a.timers u) ∧ J b
  have h0 : I (a.setTimers (incrementTick a.timers systemTimer)) :=
    ⟨⟨h.toConsistent.setTimers h.alarms.incrementTick_ok fun _ => id, h.idleRuns, h.runs,
      h.started⟩, hs, rfl, fun _ => Iff.rfl, fun _ _ => id, fun _ => id, hj⟩
  suffices hstep : ∀ b t, I b → expiredAlarm b.timers systemTimer = some t →
      ∃ c, fireAlarm b t = some c ∧ I c ∧ c.timers = dropAlarm b.timers t by
    obtain ⟨b, hb, ⟨hsb, hslb, hcur, hrun, hstay, hpend, hjb⟩, hend⟩ :=
      triggerLoop_total (I := I) (fun b hb => hb.1.alarms) hstep h0
        (Nat.lt_succ_of_le h.alarms.length_le_card)
    exact ⟨b, hb, hsb, hslb, hcur, hrun, hstay, hpend, hjb, hend⟩
  rintro b t ⟨hb, hsb, hcur, hrun, hstay, hpend, hj⟩ he
  obtain ⟨rest, hrest⟩ := hb.alarms.expiredAlarm_eq_some he
  have hp : Pending b.timers t := ⟨systemTimer, by rw [hrest]; exact List.mem_cons_self⟩
  obtain ⟨hw, hq⟩ := hsb t hp
  have hpd := fun u => hb.alarms.pending_dropAlarm (t := t) (u := u)
  have hcons : Consistent (b.setTimers (dropAlarm b.timers t)) :=
    hb.toConsistent.setTimers hb.alarms.dropAlarm_ok fun u hu => ((hpd u).mp hu).1
  obtain ⟨c, hc, hm, hst, htm, -⟩ := wakeup_moved hcons (t := t)
    (by simp [hw]) (by simp [hw]) fun hc => ((hpd t).mp hc).2 rfl
  have hcs : ∀ u ≠ t, c.status u = b.status u := fun u hu => hm.status hu
  have hne : ∀ u, b.status u ≠ .waiting → u ≠ t := fun u hu hut => hu (hut ▸ hw)
  refine ⟨c, hc, ⟨⟨hm.consistent, ?_, ?_, ?_⟩, fun u hu => ?_, hm.currentTask.trans hcur,
    fun u => ?_, fun q u hu => ?_, fun u hu => ?_, hJ b c t ⟨hb.alarms, he, hst, hcs, htm⟩ hj⟩,
    htm⟩
  · rw [hcs idle (hne idle (by rcases hb.idleRuns with h | h <;> simp [h]))]
    exact hb.idleRuns
  · intro u hu
    rw [hcs u fun hut => by rw [hut, hst] at hu; cases hu] at hu
    exact hm.currentTask.trans (hb.runs u hu)
  · intro hl
    obtain ⟨x, hx, hxr⟩ := hb.started (hm.lock ▸ hl)
    exact ⟨x, hm.currentTask.trans hx, by rw [hcs x (hne x (by simp [hxr])), hxr]⟩
  · rw [htm] at hu
    obtain ⟨hub, hut⟩ := (hpd u).mp hu
    obtain ⟨huw, huq⟩ := hsb u hub
    exact ⟨by rw [hcs u hut, huw], fun q hc => huq q ((hm.wait u hut q).mp hc)⟩
  · rw [← hrun u]
    by_cases hut : u = t
    · subst hut; simp [hst, hw]
    · rw [hcs u hut]
  · have hut : u ≠ t := fun e => hq q (e ▸ hstay q u hu)
    exact (hm.wait u hut q).mpr (hstay q u hu)
  · rw [htm] at hu
    exact hpend u ((hpd u).mp hu).1

/-- A tick of the system timer (core/timer.c:60-92) -/
theorem tick_step (h : Scheduled idle a) (hs : Sleeping a) :
    ∃ b, a.exec .tick = some b ∧ OpStep idle .tick a b := by
  obtain ⟨m, hm, hsm, hslm, hcur, hrun, hstay, hpend, -⟩ :=
    triggerAlarms_sleeping (J := fun _ => True) (fun _ _ _ _ => id) h hs trivial
  have heq : a.exec .tick = m.eosSchedule := by
    simp only [Kernel.exec, Kernel.eosTriggerCounter, hm, Option.bind_eq_bind, Option.bind_some]
  obtain ⟨b, hb, hsb, hsl, hwb, htb, hout⟩ :=
    Scheduled.reschedule hsm.toConsistent hsm.idleRuns hsm.runs
  refine ⟨b, heq.trans hb, ⟨hsb, fun q u _ _ hu => hwb q ▸ hstay q u hu,
    fun u hu => Or.inl (hpend u (htb ▸ hu))⟩, ?_, fun _ => hsl hslm⟩
  rcases hout with ⟨hl, rfl⟩ | ⟨-, next, hd⟩
  · exact .held hl hcur (Or.inr hrun)
  · exact .dispatched m next hd

/-- **Every admitted operation has a result and keeps the invariant**, while alarms are only set
by `eos_sleep`. -/
theorem exec_sleeping (h : Scheduled idle a) (hs : Sleeping a) {o : Op T}
    (ho : Admitted idle a.vars o) : ∃ b, a.exec o = some b ∧ OpStep idle o a b := by
  by_cases hot : o = .tick
  · subst hot
    exact tick_step h hs
  · exact exec_step h ho hot

/-! ## The initial state -/

omit [Fintype T] [DecidableEq T] in
/-- No alarm is pending in zeroed memory. -/
theorem not_pending_zeroed (semaphore : Nat → Semaphore) (condition : Nat → Condition) (t : T) :
    ¬Pending (Kernel.zeroed (Q := Rings) (T := T) semaphore condition).timers t := by
  rintro ⟨c, hc⟩
  exact absurd hc List.not_mem_nil

omit [Fintype T] [DecidableEq T] in
/-- The kernel in zeroed memory is consistent. -/
theorem zeroed_consistent (semaphore : Nat → Semaphore) (condition : Nat → Condition) :
    Consistent ((Kernel.zeroed (Q := Rings) (T := T) semaphore condition).setLock locked) :=
  have hnone := not_pending_zeroed (T := T) semaphore condition
  { nodup := fun _ => List.nodup_nil
    bitmap := Represents.empty.congr fun _ _ => ⟨False.elim, fun h => h rfl⟩
    alarms := ⟨fun _ => List.nodup_nil, fun c t hc => absurd hc List.not_mem_nil,
      fun t hp => absurd hp (hnone t), fun t hp => absurd hp (hnone t),
      fun t hp => absurd hp (hnone t)⟩
    priority := fun t => Nat.zero_le _
    pnode := fun t ht => absurd rfl ht
    placed := fun t =>
      ⟨fun p => iff_of_false List.not_mem_nil (fun hc => by cases hc.1),
        fun q hq => absurd hq List.not_mem_nil, fun hp => absurd hp (hnone t),
        fun hp => absurd hp (hnone t)⟩ }

omit [Fintype T] in
/-- **`_os_init` up to `eos_user_main`** has a result: the idle task is ready, no task runs and
the scheduler is locked (core/init.c:22-44). -/
theorem osInit_running (idle : T) (semaphore : Nat → Semaphore) (condition : Nat → Condition) :
    ∃ a, Kernel.osInit (Q := Rings) idle semaphore condition = some a ∧ Scheduled idle a ∧
      Sleeping a ∧ a.vars.currentTask = none ∧ a.vars.schedulerLock = locked := by
  have hnone := not_pending_zeroed (T := T) semaphore condition
  obtain ⟨m, hm, hmv, hs, hnp, -⟩ := eosCreateTask_moved (t := idle)
    (zeroed_consistent semaphore condition) rfl
    (show (1 : UInt64) ≠ 0 by decide) (show lowestPriority ≤ 63 by decide)
    (show ¬((1 : UInt64) = 0 ∨ (8096 : UInt64) < minStackSize) by decide)
  have hml : m.vars.schedulerLock = locked := hmv.lock
  have hmc : m.vars.currentTask = none := hmv.currentTask
  have hmo : ∀ u ≠ idle, m.status u = .zeroed := fun u hu => by
    rw [hmv.status hu]
    rfl
  refine ⟨m, hm.trans (eosSchedule_locked hml), ⟨hmv.consistent, Or.inl hs, fun u hu => ?_,
    fun hl => absurd hml hl⟩, fun u hu => ?_, hmc, hml⟩
  · by_cases hui : u = idle
    · rw [hui, hs] at hu; cases hu
    · rw [hmo u hui] at hu; cases hu
  · by_cases hui : u = idle
    · exact absurd (hui ▸ hu) hnp
    · exact absurd (hmv.pending u hui hu) (hnone u)

end Eos.Analysis
