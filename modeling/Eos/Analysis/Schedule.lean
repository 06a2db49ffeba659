import Eos.Analysis.Consistent

/-!
# `eos_schedule` on a consistent state

With the scheduler unlocked and some task ready or running, `eos_schedule`
(core/task.c:88-139) finds a non-empty ready queue, leads to a consistent state, and the
task it dispatches has the smallest priority value of all tasks that could run
(`eosSchedule_dispatched`).  Beside the status of two tasks, the current task and the
bitmap it changes only ready queues.
-/

set_option autoImplicit false

namespace Eos.Analysis

open Eos.Model
open Eos.Interface (Rings Linked)

variable {T : Type} [DecidableEq T]

/-- The effect of a call of `eos_schedule` that dispatches `next`. -/
structure Dispatched (a a' : Kernel Rings T) (next : T) : Prop where
  consistent : Consistent a'
  current : a'.vars.currentTask = some next
  running : a'.status next = .running
  was : a.status next = .ready ∨ a.vars.currentTask = some next ∧ a.status next = .running
  others : ∀ t ≠ next, a'.status t =
    if a.vars.currentTask = some t ∧ a.status t = .running then .ready else a.status t
  tcb : ∀ t, a'.vars.tcb t = { a.vars.tcb t with status := a'.status t }
  least : ∀ t, a'.status t = .ready → a'.priority next ≤ a'.priority t
  timers : a'.timers = a.timers
  wait : ∀ q, a'.queue.ring (.wait q) = a.queue.ring (.wait q)
  lock : a'.vars.schedulerLock = a.vars.schedulerLock
  semaphore : a'.vars.semaphore = a.vars.semaphore
  condition : a'.vars.condition = a.vars.condition
  orderVal : a'.vars.orderVal = a.vars.orderVal

namespace Dispatched

variable {a a' : Kernel Rings T} {next t : T}

/-- Priorities stay. -/
theorem priority (h : Dispatched a a' next) (t : T) : a'.priority t = a.priority t := by
  rw [Kernel.priority, h.tcb t, Kernel.priority]

/-- The wait queue owners stay. -/
theorem waitQueueOwner (h : Dispatched a a' next) (t : T) :
    a'.waitQueueOwner t = a.waitQueueOwner t := by
  rw [Kernel.waitQueueOwner, h.tcb t, Kernel.waitQueueOwner]

/-- Waiting, suspended and uncreated tasks are not concerned. -/
theorem status_eq (h : Dispatched a a' next) (hr : a.status t ≠ .ready)
    (hn : a.status t ≠ .running) : a'.status t = a.status t := by
  have hne : t ≠ next := by
    rintro rfl
    exact h.was.elim hr fun hc => hn hc.2
  rw [h.others t hne, if_neg fun hc => hn hc.2]

/-- A task that could run before still can. -/
theorem runnable (h : Dispatched a a' next) (hr : a.status t = .ready ∨ a.status t = .running)
    (hc : a.status t = .running → a.vars.currentTask = some t) :
    a'.status t = .ready ∨ a'.status t = .running := by
  by_cases hne : t = next
  · subst hne; exact Or.inr h.running
  · rw [h.others t hne]
    rcases hr with hr | hr
    · simp [hr]
    · simp [hr, hc hr]

/-- The dispatched task is the only one that runs, if no other task than the current one did
before. -/
theorem only_running (h : Dispatched a a' next)
    (hc : ∀ t, a.status t = .running → a.vars.currentTask = some t) (ht : a'.status t = .running) :
    t = next := by
  by_contra hne
  rw [h.others t hne] at ht
  split at ht
  · cases ht
  · next hn => exact hn ⟨hc t ht, ht⟩

end Dispatched

variable {a : Kernel Rings T} {t : T}

omit [DecidableEq T] in
/-- The ready queue that the bitmap leads to has the ready tasks of smallest priority value. -/
theorem highest_ready (h : Consistent a) (hr : a.status t = .ready) :
    ∃ next rest, a.queue.ring (.ready a.vars.readyList.osGetHighestPriority) = next :: rest ∧
      a.status next = .ready ∧ a.priority next = a.vars.readyList.osGetHighestPriority ∧
      ∀ u, a.status u = .ready → a.priority next ≤ a.priority u := by
  have hne : ∀ u, a.status u = .ready → a.queue.ring (.ready (a.priority u)) ≠ [] :=
    fun u hu => List.ne_nil_of_mem (h.mem_ready hu)
  obtain ⟨-, hhigh, hleast⟩ := h.bitmap.osGetHighestPriority (h.priority t) (hne t hr)
  obtain ⟨next, rest, hring⟩ := List.exists_cons_of_ne_nil hhigh
  have hnext := ((h.placed next).ready _).mp (by rw [hring]; exact List.mem_cons_self)
  refine ⟨next, rest, hring, hnext.1, hnext.2, fun u hu => ?_⟩
  rw [hnext.2]
  exact hleast _ (h.priority u) (hne u hu)

/-- **The second half of `eos_schedule`** takes the first task of that queue
(core/task.c:119-136). -/
theorem dispatchNext_eq (h : Consistent a) (hr : a.status t = .ready) :
    ∃ next, a.dispatchNext =
        some (((detachReady a next).setStatus next .running).setCurrent (some next)) ∧
      (∃ rest, a.queue.ring (.ready (a.priority next)) = next :: rest) ∧
      a.status next = .ready ∧ ∀ u, a.status u = .ready → a.priority next ≤ a.priority u := by
  obtain ⟨next, rest, hring, hs, hp, hleast⟩ := highest_ready h hr
  refine ⟨next, ?_, ⟨rest, by rw [hp, hring]⟩, hs, hleast⟩
  have hhead : a.head (.ready a.vars.readyList.osGetHighestPriority) = some next := by
    show (a.queue.ring _).head? = _
    rw [hring, List.head?_cons]
  have hpn : a.vars.pnode next = some next := h.pnode next (by simp [hs])
  unfold Kernel.dispatchNext
  simp only [hhead, hpn, Option.bind_eq_bind, Option.bind_some, removeNode_eq (h.mem_ready hs)]
  rfl

/-- The state `dispatchNext` leads to. -/
theorem dispatchNext_dispatched (h : Consistent a) (hr : a.status t = .ready)
    (hc : ∀ u, a.vars.currentTask = some u → a.status u ≠ .running) :
    ∃ a' next, a.dispatchNext = some a' ∧ Dispatched a a' next := by
  obtain ⟨next, heq, -, hs, hleast⟩ := dispatchNext_eq h hr
  have hpn : a.vars.pnode next = some next := h.pnode next (by simp [hs])
  have hdet := h.detach_ready hs
  obtain ⟨r, hr'⟩ := detachReady_eq a next
  rw [hr'] at heq hdet
  refine ⟨_, next, heq, ?_⟩
  have hset := hdet.settle (s := .running) hpn (by simp) (by simp) fun hp => by
    have := (h.placed next).alarm hp
    rw [hs] at this
    exact Or.inr (this.resolve_left (by simp))
  constructor
  · exact hset.congr rfl rfl rfl rfl rfl
  · rfl
  · simp
  · exact Or.inl hs
  · intro u hu
    have : ¬(a.vars.currentTask = some u ∧ a.status u = .running) := fun hcu => hc u hcu.1 hcu.2
    simp [hu, this, detach]
  · intro u
    by_cases hu : u = next
    · subst hu; simp [detach]
    · simp [hu, detach, Kernel.status]
  · intro u hu
    by_cases hun : u = next
    · subst hun; simp at hu
    · simp only [Kernel.status_setCurrent, Kernel.status_setStatus, hun, if_false] at hu
      simpa [detach] using hleast u hu
  all_goals first | rfl | intro q; simp [detach]

/-- A running current task goes back to its ready queue (core/task.c:99-105). -/
theorem requeueCurrent_eq (h : Consistent a) {c : T} (hc : a.vars.currentTask = some c)
    (hs : a.status c = .running) :
    a.requeueCurrent = some ((attachReady a c).setStatus c .ready) ∧
      Consistent ((attachReady a c).setStatus c .ready) := by
  have hf := h.free (t := c) (by simp [hs]) (by simp [hs])
  constructor
  · simp only [Kernel.requeueCurrent, hc, hs, if_true, addReady_eq hf]
    rfl
  · refine (h.detached hf).attach_ready (h.pnode c (by simp [hs])) fun hp => ?_
    have := (h.placed c).alarm hp
    rw [hs] at this
    exact this.resolve_left (by simp)

/-- **`eos_schedule` with the scheduler unlocked** (core/task.c:88-139) always finds a task
when one is ready or running. -/
theorem eosSchedule_dispatched (h : Consistent a) (hl : a.vars.schedulerLock ≠ locked)
    (hr : a.status t = .ready ∨ a.status t = .running)
    (hrun : ∀ u, a.status u = .running → a.vars.currentTask = some u) :
    ∃ a' next, a.eosSchedule = some a' ∧ Dispatched a a' next := by
  unfold Kernel.eosSchedule
  rw [if_neg hl]
  by_cases hcur : ∃ c, a.vars.currentTask = some c ∧ a.status c = .running
  · obtain ⟨c, hc, hs⟩ := hcur
    obtain ⟨heq, hcons⟩ := requeueCurrent_eq h hc hs
    have hst : ∀ u, ((attachReady a c).setStatus c .ready).status u =
        if u = c then .ready else a.status u := fun u => by
      simp [attachReady, append, Kernel.osSetReady]
    obtain ⟨a', next, heq', hd⟩ := dispatchNext_dispatched hcons (t := c) (by simp)
      fun u hu => by
        have hu' : a.vars.currentTask = some u := hu
        rw [hc, Option.some.injEq] at hu'
        simp [hu']
    refine ⟨a', next, by rw [heq]; exact heq', ?_⟩
    have htcb : ∀ u, ((attachReady a c).setStatus c .ready).vars.tcb u =
        { a.vars.tcb u with status := ((attachReady a c).setStatus c .ready).status u } := by
      intro u
      by_cases hu : u = c
      · subst hu; simp [attachReady, append, Kernel.osSetReady]
      · simp [attachReady, append, Kernel.osSetReady, hu, Kernel.status]
    constructor
    · exact hd.consistent
    · exact hd.current
    · exact hd.running
    · rcases hd.was with hw | hw
      · rw [hst] at hw
        by_cases hnc : next = c
        · subst hnc; exact Or.inr ⟨hc, hs⟩
        · rw [if_neg hnc] at hw
          exact Or.inl hw
      · rw [hst] at hw
        by_cases hnc : next = c
        · subst hnc; exact Or.inr ⟨hc, hs⟩
        · rw [if_neg hnc] at hw
          exact Or.inr hw
    · intro u hu
      rw [hd.others u hu, hst]
      by_cases huc : u = c
      · subst huc; simp [hc, hs]
      · have h1 : ¬(a.vars.currentTask = some u ∧ a.status u = .running) := fun hcu =>
          huc (by rw [hc, Option.some.injEq] at hcu; exact hcu.1.symm)
        have h2 : ¬(((attachReady a c).setStatus c .ready).vars.currentTask = some u ∧
            (if u = c then Status.ready else a.status u) = .running) := by
          rw [if_neg huc]
          exact h1
        rw [if_neg h1, if_neg h2, if_neg huc]
    · intro u
      rw [hd.tcb u, htcb u]
    · exact hd.least
    · exact hd.timers
    · intro q
      rw [hd.wait q]
      simp [attachReady, append, Kernel.osSetReady]
    · exact hd.lock
    · exact hd.semaphore
    · exact hd.condition
    · exact hd.orderVal
  · have hnr : ∀ u, a.vars.currentTask = some u → a.status u ≠ .running :=
      fun u hu hs => hcur ⟨u, hu, hs⟩
    have heq : a.requeueCurrent = some a := by
      unfold Kernel.requeueCurrent
      cases hc : a.vars.currentTask with
      | none => rfl
      | some c => simp [hnr c hc]
    have hr' : a.status t = .ready := hr.resolve_right fun hs => hnr t (hrun t hs) hs
    obtain ⟨a', next, heq', hd⟩ := dispatchNext_dispatched h hr' hnr
    exact ⟨a', next, by rw [heq]; exact heq', hd⟩

/-- **`eos_schedule` with the scheduler locked** does nothing (core/task.c:90-96). -/
theorem eosSchedule_locked (hl : a.vars.schedulerLock = locked) :
    a.eosSchedule = some a := by
  rw [Kernel.eosSchedule, if_pos hl]

end Eos.Analysis
