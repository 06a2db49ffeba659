import Eos.Analysis.Schedule
import Eos.Lib.Refine

/-!
# What the task routines do before they reschedule

Every routine of `core/task.c` moves at most one task and then calls `eos_schedule`.
`Moved a b t` says that `b` is consistent and that nothing but the place and the TCB of
task `t` differs from `a`.  For every routine there is one theorem that says in which
state it calls `eos_schedule` and how that state has moved.
-/

set_option autoImplicit false

namespace Eos.Analysis

open Eos.Model
open Eos.Interface (Rings Linked)
open Eos.Lib (map_snd_bind map_snd_bind₂)

variable {T : Type} [DecidableEq T]

/-- The state `b` is consistent, and only task `t` was moved or had its TCB or its alarm
changed. -/
structure Moved (a b : Kernel Rings T) (t : T) : Prop where
  consistent : Consistent b
  others : ∀ u ≠ t, b.vars.tcb u = a.vars.tcb u
  wait : ∀ u ≠ t, ∀ q, u ∈ b.queue.ring (.wait q) ↔ u ∈ a.queue.ring (.wait q)
  pending : ∀ u ≠ t, Pending b.timers u → Pending a.timers u
  currentTask : b.vars.currentTask = a.vars.currentTask
  lock : b.vars.schedulerLock = a.vars.schedulerLock
  semaphore : b.vars.semaphore = a.vars.semaphore
  condition : b.vars.condition = a.vars.condition

variable {a b : Kernel Rings T} {t u : T}

omit [DecidableEq T] in
/-- The other tasks keep their status. -/
theorem Moved.status (h : Moved a b t) (hu : u ≠ t) : b.status u = a.status u := by
  rw [Kernel.status, h.others u hu, Kernel.status]

omit [DecidableEq T] in
/-- A task with a back pointer is no fresh one. -/
theorem Consistent.not_pending_of_zero (h : Consistent a) (hz : a.vars.tcb t = .zero) :
    ¬Pending a.timers t := by
  intro hp
  have := (h.placed t).alarm hp
  simp [Kernel.status, Kernel.waitQueueOwner, hz, Tcb.zero] at this

omit [DecidableEq T] in
/-- A ready task with a pending alarm has a wait queue owner. -/
theorem Consistent.owner_of_pending (h : Consistent a) (hs : a.status t ≠ .waiting) :
    Pending a.timers t → a.waitQueueOwner t ≠ none :=
  fun hp => ((h.placed t).alarm hp).resolve_left hs

/-- A status that is written again. -/
theorem setStatus_self {s : Status} (hs : a.status t = s) : a.setStatus t s = a := by
  have : Function.update a.vars.tcb t { a.vars.tcb t with status := s } = a.vars.tcb := by
    rw [← hs]
    exact Function.update_eq_self t a.vars.tcb
  unfold Kernel.setStatus Kernel.setTcb
  rw [this]

/-- **`eos_create_task`** with valid parameters, on a TCB that is linked nowhere, makes the task
ready and reschedules (core/task.c:34-79). -/
theorem Detached.eosCreateTask_moved (h : Detached a t) (hnp : ¬Pending a.timers t)
    {start size entry : UInt64} {p : Nat} (he : entry ≠ 0) (hp : p ≤ 63)
    (hst : ¬(start = 0 ∨ size < minStackSize)) :
    ∃ b, (a.eosCreateTask (some t) start size entry p).map Prod.snd = b.eosSchedule ∧
      Moved a b t ∧ b.status t = .ready ∧ ¬Pending b.timers t ∧ b.timers = a.timers := by
  have hd := ((h.setTcb (fun b => { b with priority := p, period := 0, wakeupTime := 0 }) hp
    fun hs => h.pnode t hs).setPnode).setOrderVal p
  refine ⟨_, ?_, ⟨hd.attach_ready (by simp) fun hp => absurd hp hnp, ?_, ?_, fun _ _ => id,
    rfl, rfl, rfl, rfl⟩, by simp, hnp, rfl⟩
  · simp only [Kernel.eosCreateTask, he, if_false, hst, lowestPriority, gt_iff_lt,
      not_lt.mpr hp, map_snd_bind₂, addReady_eq hd.free]
    rfl
  · intro u hu
    simp [attachReady, append, Kernel.osSetReady, hu]
  · intro u hu q
    simp [attachReady, append, Kernel.osSetReady]

/-- So it does on a fresh TCB. -/
theorem eosCreateTask_moved (h : Consistent a) (hz : a.vars.tcb t = .zero)
    {start size entry : UInt64} {p : Nat} (he : entry ≠ 0) (hp : p ≤ 63)
    (hst : ¬(start = 0 ∨ size < minStackSize)) :
    ∃ b, (a.eosCreateTask (some t) start size entry p).map Prod.snd = b.eosSchedule ∧
      Moved a b t ∧ b.status t = .ready ∧ ¬Pending b.timers t ∧ b.timers = a.timers := by
  have hf : ¬Linked a.queue t := h.free (by simp [Kernel.status, hz, Tcb.zero])
    (by simp [Kernel.status, hz, Tcb.zero])
  exact (h.detached hf).eosCreateTask_moved (h.not_pending_of_zero hz) he hp hst

/-- **`eos_change_priority`** moves a ready task to the end of its new ready queue, changes the
priority of any other task in place, and reschedules (core/task.c:148-172). -/
theorem eosChangePriority_moved (h : Consistent a) {p : Nat} (hp : p ≤ 63) :
    ∃ b, a.eosChangePriority (some t) p = b.eosSchedule ∧ Moved a b t ∧
      (∀ u, b.status u = a.status u) ∧ b.waitQueueOwner t = a.waitQueueOwner t ∧
      (∀ q, b.queue.ring (.wait q) = a.queue.ring (.wait q)) ∧ b.timers = a.timers ∧
      ∀ u, b.priority u = if u = t then p else a.priority u := by
  by_cases hs : a.status t = .ready
  · have hd := h.detach_ready hs
    have hal := h.owner_of_pending (t := t) (by simp [hs])
    have hpn := h.pnode t (by simp [hs])
    have hrem := removeReady_eq (h.mem_ready hs)
    obtain ⟨r, hr⟩ := detachReady_eq a t
    rw [hr] at hd hrem
    have hd' := (hd.setTcb (fun b => { b with priority := p }) hp fun _ => hpn).setOrderVal p
    have hb := hd'.attach_ready hpn fun hpend => by
      simpa [Kernel.waitQueueOwner, detach] using hal hpend
    have hself : (attachReady (((detach a (.ready (a.priority t)) t).setReadyList r).setTcb t
        (fun b => { b with priority := p }) |>.setOrderVal t p) t).status t = .ready := by
      simpa [attachReady, append, Kernel.osSetReady, Kernel.status, detach] using hs
    rw [setStatus_self hself] at hb
    refine ⟨_, ?_, ⟨hb, ?_, ?_, fun _ _ => id, rfl, rfl, rfl, rfl⟩, ?_, ?_, ?_, rfl, ?_⟩
    · simp only [Kernel.eosChangePriority, lowestPriority, gt_iff_lt, not_lt.mpr hp, if_false, hs,
        if_true, Kernel.moveReady, hrem, Option.bind_eq_bind, Option.bind_some,
        addNodeTail_eq hd.free]
      simp only [attachReady, Kernel.priority_setOrderVal]
      have hpr : (((detach a (.ready (a.priority t)) t).setReadyList r).setTcb t
          fun b => { b with priority := p }).priority t = p := by simp [Kernel.priority]
      rw [hpr]
      rfl
    · intro u hu
      simp [attachReady, append, Kernel.osSetReady, detach, hu]
    · intro u hu q
      simp [attachReady, append, Kernel.osSetReady, detach]
    · intro u
      by_cases hu : u = t
      · subst hu; simp [attachReady, append, Kernel.osSetReady, detach, Kernel.status]
      · simp [attachReady, append, Kernel.osSetReady, detach, Kernel.status, hu]
    · simp [attachReady, append, Kernel.osSetReady, detach, Kernel.waitQueueOwner]
    · intro q
      simp [attachReady, append, Kernel.osSetReady, detach]
    · intro u
      by_cases hu : u = t
      · subst hu; simp [attachReady, append, Kernel.osSetReady, detach, Kernel.priority]
      · simp [attachReady, append, Kernel.osSetReady, detach, Kernel.priority, hu]
  · have hb := h.setTcb (t := t) (fun b => { b with priority := p }) hp rfl rfl
      fun hc => absurd hc hs
    refine ⟨(a.setTcb t fun b => { b with priority := p }).setOrderVal t p, ?_,
      ⟨hb.congr rfl rfl rfl rfl rfl, ?_, fun _ _ _ => Iff.rfl, fun _ _ => id, rfl, rfl, rfl, rfl⟩,
      ?_, ?_, fun _ => rfl, rfl, ?_⟩
    · simp only [Kernel.eosChangePriority, lowestPriority, gt_iff_lt, not_lt.mpr hp, if_false, hs]
      rfl
    · intro u hu
      simp [hu]
    · intro u
      by_cases hu : u = t
      · subst hu; simp [Kernel.status]
      · simp [Kernel.status, hu]
    · simp [Kernel.waitQueueOwner]
    · intro u
      by_cases hu : u = t
      · subst hu; simp [Kernel.priority]
      · simp [Kernel.priority, hu]

/-- It changes nothing for a priority out of range. -/
theorem eosChangePriority_eq_self {p : Nat} (hp : ¬p ≤ 63) :
    a.eosChangePriority (some t) p = some a := by
  simp [Kernel.eosChangePriority, lowestPriority, Nat.not_le.mp hp]

/-- **`eos_suspend_task`** on a ready task takes it out of its ready queue
(core/task.c:195-209). -/
theorem eosSuspendTask_moved (h : Consistent a) (hs : a.status t = .ready) :
    ∃ b, (a.eosSuspendTask (some t)).map Prod.snd = some b ∧ Moved a b t ∧
      b.status t = .suspended ∧ b.timers = a.timers ∧ ∀ u, b.priority u = a.priority u := by
  have hd := h.detach_ready hs
  have hal := h.owner_of_pending (t := t) (by simp [hs])
  have hrem := removeReady_eq (h.mem_ready hs)
  obtain ⟨r, hr⟩ := detachReady_eq a t
  rw [hr] at hd hrem
  have hb := hd.settle (s := .suspended) (h.pnode t (by simp [hs])) (by simp) (by simp)
    fun hp => Or.inr (hal hp)
  refine ⟨_, ?_, ⟨hb, ?_, ?_, fun _ _ => id, rfl, rfl, rfl, rfl⟩, by simp, rfl, ?_⟩
  · simp only [Kernel.eosSuspendTask, hs, if_true, map_snd_bind, hrem]
    rfl
  · intro u hu
    simp [detach, hu]
  · intro u hu q
    simp [detach]
  · intro u
    simp [detach]

/-- Only a READY task is suspended. -/
theorem eosSuspendTask_eq_self (hs : a.status t ≠ .ready) :
    (a.eosSuspendTask (some t)).map Prod.snd = some a := by
  simp [Kernel.eosSuspendTask, hs]

/-- **`eos_resume_task`** on a suspended task makes it ready and reschedules
(core/task.c:212-226). -/
theorem eosResumeTask_moved (h : Consistent a) (hs : a.status t = .suspended) :
    ∃ b, (a.eosResumeTask (some t)).map Prod.snd = b.eosSchedule ∧ Moved a b t ∧
      b.status t = .ready ∧ b.timers = a.timers ∧ ∀ u, b.priority u = a.priority u := by
  have hf := h.free (t := t) (by simp [hs]) (by simp [hs])
  have hb := (h.detached hf).attach_ready (h.pnode t (by simp [hs]))
    (h.owner_of_pending (by simp [hs]))
  refine ⟨_, ?_, ⟨hb, ?_, ?_, fun _ _ => id, rfl, rfl, rfl, rfl⟩, by simp, rfl, ?_⟩
  · simp only [Kernel.eosResumeTask, hs, if_true, map_snd_bind₂, addReady_eq hf]
    rfl
  · intro u hu
    simp [attachReady, append, Kernel.osSetReady, hu]
  · intro u hu q
    simp [attachReady, append, Kernel.osSetReady]
  · intro u
    simp [attachReady, append, Kernel.osSetReady]

/-- Only a suspended task is resumed. -/
theorem eosResumeTask_eq_self (hs : a.status t ≠ .suspended) :
    (a.eosResumeTask (some t)).map Prod.snd = some a := by
  simp [Kernel.eosResumeTask, hs]

variable [Fintype T]

/-- The alarm of a task that is linked nowhere is set, and the task goes to the `WAITING` state:
the end of `eos_sleep` (core/task.c:246-255). -/
theorem sleepFor_moved (h : Consistent a) (hf : ¬Linked a.queue t) (hs : a.status t ≠ .zeroed)
    (timeout : UInt32) :
    ∃ b, a.sleepFor t timeout = b.eosSchedule ∧ Moved a b t ∧ b.status t = .waiting ∧
      b.queue = a.queue ∧ (∀ u, b.priority u = a.priority u) ∧
      ∀ u, Pending b.timers u ↔ (Pending a.timers u ∧ u ≠ t) ∨ u = t ∧ timeout ≠ 0 := by
  obtain ⟨m, hm, hok, hpend, -⟩ := h.alarms.eosSetAlarm_ok (t := t) timeout
  have hd := (h.detached hf).setTimers hok fun u hu hp => by
    rcases (hpend u).mp hp with hp | hp
    · exact hp.1
    · exact absurd hp.1 hu
  have hb := hd.settle (s := .waiting) (h.pnode t hs) (by simp) (by simp) fun _ => Or.inl rfl
  refine ⟨_, ?_, ⟨hb, ?_, fun _ _ _ => Iff.rfl, fun u hu hp => ?_, rfl, rfl, rfl, rfl⟩, by simp,
    rfl, fun u => by simp, hpend⟩
  · simp only [Kernel.sleepFor, Kernel.setAlarm, hm]
    rfl
  · intro u hu
    simp [hu]
  · rcases (hpend u).mp hp with hp | hp
    · exact hp.1
    · exact absurd hp.1 hu

/-- **`_os_wait_in_queue`** by a task that is linked nowhere links it in the queue
(core/task.c:273-297). -/
theorem osWaitInQueue_moved (h : Consistent a) (hc : a.vars.currentTask = some t)
    (hf : ¬Linked a.queue t) (hs : a.status t ≠ .zeroed) (q : WaitQueue) (queueType : UInt8) :
    ∃ b, a.osWaitInQueue q queueType = b.eosSchedule ∧ Moved a b t ∧ b.status t = .waiting ∧
      t ∈ b.queue.ring (.wait q) ∧ b.timers = a.timers ∧ ∀ u, b.priority u = a.priority u := by
  obtain ⟨xs, hxs, hmem, hb⟩ := (h.detached hf).attach_wait (h.pnode t hs) q queueType
  refine ⟨_, ?_, ⟨hb, ?_, ?_, fun _ _ => id, rfl, rfl, rfl, rfl⟩, by simp, ?_, rfl, ?_⟩
  · simp only [Kernel.osWaitInQueue, hc, Option.bind_eq_bind, Option.bind_some, hxs]
  · intro u hu
    simp [hu]
  · intro u hu q'
    show u ∈ (a.queue.set (.wait q) xs).ring (.wait q') ↔ _
    rw [mem_set, hmem]
    by_cases hq : q' = q
    · subst hq; simp [hu]
    · simp [hq]
  · show t ∈ (a.queue.set (.wait q) xs).ring (.wait q)
    rw [mem_set, hmem]
    exact Or.inl ⟨rfl, Or.inl rfl⟩
  · intro u
    simp

omit [Fintype T] in
/-- **`_os_wakeup_from_queue`** makes the first waiting task ready and reschedules
(core/task.c:300-316). -/
theorem osWakeupFromQueue_moved (h : Consistent a) {q : WaitQueue} {rest : List T}
    (hq : a.queue.ring (.wait q) = t :: rest) :
    ∃ b, a.osWakeupFromQueue q = b.eosSchedule ∧ Moved a b t ∧ b.status t = .ready ∧
      b.waitQueueOwner t = some q ∧ b.timers = a.timers ∧ ∀ u, b.priority u = a.priority u := by
  have ht : t ∈ a.queue.ring (.wait q) := by rw [hq]; exact List.mem_cons_self
  obtain ⟨hs, ho⟩ := (h.placed t).waiting q ht
  have hpn := h.pnode t (by simp [hs])
  have hd := h.detach_wait ht
  have hb := hd.attach_ready hpn fun _ => by
    show a.waitQueueOwner t ≠ none
    simp [ho]
  have hhead : a.head (.wait q) = some t := by
    show (a.queue.ring _).head? = _
    rw [hq, List.head?_cons]
  refine ⟨_, ?_, ⟨hb, ?_, ?_, fun _ _ => id, rfl, rfl, rfl, rfl⟩, by simp, ?_, rfl, ?_⟩
  · simp only [Kernel.osWakeupFromQueue, hhead, hpn, Option.bind_eq_bind, Option.bind_some,
      removeNode_eq ht, addReady_eq hd.free]
  · intro u hu
    simp [attachReady, append, Kernel.osSetReady, detach, hu]
  · intro u hu q'
    have : u ∈ (detach a (.wait q) t).queue.ring (.wait q') ↔ _ := h.mem_detach hu
    rw [← this]
    simp [attachReady, append, Kernel.osSetReady]
  · simpa [attachReady, append, Kernel.osSetReady, detach] using ho
  · intro u
    simp [attachReady, append, Kernel.osSetReady, detach]

omit [Fintype T] in
/-- It does nothing when no task waits. -/
theorem osWakeupFromQueue_eq_self {q : WaitQueue} (hq : a.queue.ring (.wait q) = []) :
    a.osWakeupFromQueue q = some a := by
  have hhead : a.head (.wait q) = none := by
    show (a.queue.ring _).head? = _
    rw [hq, List.head?_nil]
  simp [Kernel.osWakeupFromQueue, hhead]

end Eos.Analysis
