import Eos.Analysis.SyncRuns
import Eos.Interface.TaskLife

/-!
# Every task lives its life

In a run of the kernel every task goes through a life as `Interface.LifeStep` lists its
moves: a call of a routine moves the task it is about, and `eos_schedule` preempts one
task and dispatches another (`call_lives`).  What is proved about lives is then true of
every task in every run.
-/

set_option autoImplicit false

namespace Eos.Analysis

open Eos.Lib (LinkMem)
open Eos.Model
open Eos.Interface (Rings Linked Repr TaskView LifeEvent LifeStep Lives)

variable {T : Type} {ok : T → LifeEvent → Prop} {a b c : Kernel Rings T} {t : T}

/-- A task of a kernel from outside. -/
def view (a : Kernel Rings T) (t : T) : TaskView :=
  ⟨a.status t, { q | t ∈ a.queue.ring (.wait q) }, Pending a.timers t⟩

/-- Every task lives on, from kernel `a` to kernel `b`, under the same scheduler lock. -/
structure AllLive (ok : T → LifeEvent → Prop) (a b : Kernel Rings T) : Prop where
  lives : ∀ t, Lives (ok t) (view a t) (view b t)
  lock : b.vars.schedulerLock = a.vars.schedulerLock

namespace AllLive

/-- Nothing has happened to any task. -/
theorem refl (ok : T → LifeEvent → Prop) (a : Kernel Rings T) : AllLive ok a a :=
  ⟨fun _ => .refl, rfl⟩

/-- What happens to the tasks over two steps. -/
theorem trans (h : AllLive ok a b) (h' : AllLive ok b c) : AllLive ok a c :=
  ⟨fun t => (h.lives t).trans (h'.lives t), h'.lock.trans h.lock⟩

/-- A step after which every task looks the same. -/
theorem of_eq (h : ∀ t, view b t = view a t)
    (hl : b.vars.schedulerLock = a.vars.schedulerLock) : AllLive ok a b := by
  refine ⟨fun t => ?_, hl⟩
  rw [h]

end AllLive

/-- How a task looks depends on its status, its queues and its alarm. -/
theorem view_eq (hs : b.status t = a.status t)
    (hq : ∀ q, t ∈ b.queue.ring (.wait q) ↔ t ∈ a.queue.ring (.wait q))
    (hp : Pending b.timers t ↔ Pending a.timers t) : view b t = view a t :=
  TaskView.ext hs (Set.ext hq) (propext hp)

/-- Only waiting tasks are in wait queues. -/
theorem queues_eq_empty (h : Consistent a) (hs : a.status t ≠ .waiting) :
    (view a t).queues = ∅ :=
  Set.eq_empty_of_forall_notMem fun q hq => hs ((h.placed t).waiting q hq).1

/-- A waiting task is in one queue at most. -/
theorem queues_eq_singleton (h : Consistent a) {q : WaitQueue} (hq : t ∈ a.queue.ring (.wait q)) :
    (view a t).queues = {q} := by
  refine Set.eq_singleton_iff_unique_mem.mpr ⟨hq, fun q' hq' => ?_⟩
  cases h.eq_of_mem hq hq'
  rfl

/-- A change of the status of a task that is in no wait queue before or after. -/
theorem view_status (ha : Consistent a) (hb : Consistent b) (has : a.status t ≠ .waiting)
    (hbs : b.status t ≠ .waiting) (hp : Pending b.timers t ↔ Pending a.timers t) :
    view b t = { view a t with status := b.status t } :=
  TaskView.ext rfl ((queues_eq_empty hb hbs).trans (queues_eq_empty ha has).symm) (propext hp)

/-! ## The routines -/

variable [DecidableEq T]

omit [DecidableEq T] in
/-- A new count. -/
theorem setCount_lives (a : Kernel Rings T) (s : Nat) (n : Int) : AllLive ok a (a.setCount s n) :=
  ⟨fun _ => .refl, rfl⟩

/-- **`eos_schedule`** preempts the running task and dispatches the next one. -/
theorem Dispatched.allLive {next : T} (h : Dispatched a b next) : AllLive ok a b := by
  refine ⟨fun t => ?_, h.lock⟩
  have hq : (view b t).queues = (view a t).queues := by
    ext q
    show t ∈ b.queue.ring _ ↔ t ∈ a.queue.ring _
    rw [h.wait]
  have hp : (view b t).armed = (view a t).armed := by
    show Pending b.timers t = Pending a.timers t
    rw [h.timers]
  by_cases hn : t = next
  · subst hn
    rcases h.was with hs | ⟨-, hs⟩
    · have hv : view b t = { view a t with status := .running } := TaskView.ext h.running hq hp
      rw [hv]
      exact .single (.dispatch hs)
    · rw [TaskView.ext (h.running.trans hs.symm) hq hp]
  · have hs := h.others t hn
    by_cases hc : a.vars.currentTask = some t ∧ a.status t = .running
    · rw [if_pos hc] at hs
      have hv : view b t = { view a t with status := .ready } := TaskView.ext hs hq hp
      rw [hv]
      exact .single (.preempt hc.2)
    · rw [if_neg hc] at hs
      rw [TaskView.ext hs hq hp]

/-- A routine that moves task `t`. -/
theorem Moved.allLive (h : Moved a b t) (hp : ∀ u ≠ t, Pending b.timers u ↔ Pending a.timers u)
    (ht : Lives (ok t) (view a t) (view b t)) : AllLive ok a b := by
  refine ⟨fun u => ?_, h.lock⟩
  by_cases hu : u = t
  · subst hu
    exact ht
  · rw [view_eq (h.status hu) (h.wait u hu) (hp u hu)]

/-- `eos_create_task` on a zeroed TCB does nothing, or makes the task ready and reschedules
(core/task.c:34-79). -/
theorem eosCreateTask_cases [Fintype T] (h : Consistent a) {task : Option T}
    {start size entry : UInt64} {p : Nat} (hz : ∀ t ∈ task, a.vars.tcb t = .zero)
    (hb : a.exec (.createTask task start size entry p) = some b) :
    a = b ∨ ∃ t m, a.status t = .zeroed ∧ m.eosSchedule = some b ∧ Moved a m t ∧
      view m t = { view a t with status := .ready } ∧ m.status t = .ready ∧
      m.timers = a.timers := by
  cases task with
  | none => exact .inl (Option.some.inj hb)
  | some t =>
    have hzt := hz t rfl
    by_cases hval : entry = 0 ∨ p > lowestPriority ∨ start = 0 ∨ size < minStackSize
    · have hsame : a.exec (.createTask (some t) start size entry p) = some a := by
        simp only [Kernel.exec, Kernel.eosCreateTask]
        split
        · rfl
        split
        · rfl
        split
        · rfl
        · next h₁ h₂ h₃ => exact absurd hval (not_or.mpr ⟨h₁, not_or.mpr ⟨h₂, h₃⟩⟩)
      exact .inl (Option.some.inj (hsame.symm.trans hb))
    · rw [not_or, not_or] at hval
      obtain ⟨he, hp, hst⟩ := hval
      obtain ⟨m, hm, hmv, hsm, -, htm⟩ := eosCreateTask_moved h hzt he (Nat.not_lt.mp hp) hst
      have hs : a.status t = .zeroed := by rw [Kernel.status, hzt]; rfl
      have hv := view_status (t := t) h hmv.consistent (by simp [hs]) (by simp [hsm]) (by rw [htm])
      rw [hsm] at hv
      exact .inr ⟨t, m, hs, hm.symm.trans hb, hmv, hv, hsm, htm⟩

namespace Scheduled

variable {idle : T}

/-- `eos_schedule` (core/task.c:88-139) -/
theorem schedule_lives (h : Scheduled idle a) (hb : a.eosSchedule = some b) : AllLive ok a b := by
  obtain ⟨b', hb', -, -, -, -, hout⟩ := reschedule h.toConsistent h.idleRuns h.runs
  obtain rfl : b' = b := Option.some.inj (hb'.symm.trans hb)
  rcases hout with ⟨-, rfl⟩ | ⟨-, next, hd⟩
  · exact .refl ok _
  · exact hd.allLive

/-- A routine that moves task `t` and reschedules. -/
theorem moved_lives (h : Scheduled idle a) {m : Kernel Rings T} (hm : Moved a m t)
    (hidle : t = idle → m.status t = .ready ∨ m.status t = .running)
    (hrun : m.status t = .running → a.status t = .running)
    (hp : ∀ u ≠ t, Pending m.timers u ↔ Pending a.timers u)
    (ht : Lives (ok t) (view a t) (view m t)) (hb : m.eosSchedule = some b) : AllLive ok a b := by
  obtain ⟨hi, hr⟩ := h.moved_runs hm hidle hrun
  obtain ⟨b', hb', -, -, -, -, hout⟩ := reschedule hm.consistent hi hr
  obtain rfl : b' = b := Option.some.inj (hb'.symm.trans hb)
  refine (hm.allLive hp ht).trans ?_
  rcases hout with ⟨-, rfl⟩ | ⟨-, next, hd⟩
  · exact .refl ok _
  · exact hd.allLive

/-- `eos_create_task` on zeroed TCBs (core/task.c:34-79) -/
theorem createTask_lives [Fintype T] (h : Scheduled idle a) {task : Option T}
    {start size entry : UInt64} {p : Nat} (hz : ∀ t ∈ task, a.vars.tcb t = .zero)
    (hb : a.exec (.createTask task start size entry p) = some b) : AllLive ok a b := by
  rcases eosCreateTask_cases h.toConsistent hz hb with rfl | ⟨t, m, hs, hm, hmv, hv, hsm, htm⟩
  · exact .refl ok _
  · apply h.moved_lives hmv (fun _ => .inl hsm) (by simp [hsm]) (fun u _ => by rw [htm]) ?_ hm
    rw [hv]
    exact .single (.create hs)

/-- `eos_change_priority` (core/task.c:148-172) -/
theorem changePriority_lives (h : Scheduled idle a) {task : Option T} {p : Nat}
    (hb : a.eosChangePriority task p = some b) : AllLive ok a b := by
  cases task with
  | none =>
    cases hb
    exact .refl ok a
  | some t =>
    by_cases hp : p ≤ 63
    · obtain ⟨m, hm, hmv, hsm, -, hwm, htm, -⟩ := eosChangePriority_moved (t := t) h.toConsistent hp
      have hv : ∀ u, view m u = view a u := fun u =>
        view_eq (hsm u) (fun q => by rw [hwm]) (by rw [htm])
      apply h.moved_lives hmv (fun e => by rw [hsm, e]; exact h.idleRuns)
        (fun hr => hsm t ▸ hr) (fun u _ => by rw [htm]) ?_ (hm.symm.trans hb)
      rw [hv]
    · obtain rfl : a = b := Option.some.inj ((eosChangePriority_eq_self hp).symm.trans hb)
      exact .refl ok a

omit [DecidableEq T] in
/-- `eos_suspend_task` (core/task.c:195-209) -/
theorem suspendTask_lives [DecidableEq T] (h : Scheduled idle a) {task : Option T}
    (hok : ∀ t ∈ task, a.status t = .ready → ok t (.suspend (Pending a.timers t)))
    (hb : (a.eosSuspendTask task).map Prod.snd = some b) : AllLive ok a b := by
  cases task with
  | none =>
    cases hb
    exact .refl ok a
  | some t =>
    by_cases hs : a.status t = .ready
    · obtain ⟨m, hm, hmv, hsm, htm, -⟩ := eosSuspendTask_moved h.toConsistent hs
      obtain rfl : m = b := Option.some.inj (hm.symm.trans hb)
      have hv := view_status (t := t) h.toConsistent hmv.consistent (by simp [hs]) (by simp [hsm])
        (by rw [htm])
      apply hmv.allLive (fun u _ => by rw [htm])
      rw [hv, hsm]
      exact .single (.suspend hs (hok t rfl hs))
    · obtain rfl : a = b := Option.some.inj ((eosSuspendTask_eq_self hs).symm.trans hb)
      exact .refl ok a

/-- `eos_resume_task` (core/task.c:212-226) -/
theorem resumeTask_lives (h : Scheduled idle a) {task : Option T}
    (hok : ∀ t ∈ task, ok t .resume) (hb : (a.eosResumeTask task).map Prod.snd = some b) :
    AllLive ok a b := by
  cases task with
  | none =>
    cases hb
    exact .refl ok a
  | some t =>
    by_cases hs : a.status t = .suspended
    · obtain ⟨m, hm, hmv, hsm, htm, -⟩ := eosResumeTask_moved h.toConsistent hs
      have hv := view_status (t := t) h.toConsistent hmv.consistent (by simp [hs]) (by simp [hsm])
        (by rw [htm])
      apply h.moved_lives hmv (fun _ => .inl hsm) (by simp [hsm]) (fun u _ => by rw [htm]) ?_
        (hm.symm.trans hb)
      rw [hv, hsm]
      exact .single (.resume hs (hok t rfl))
    · obtain rfl : a = b := Option.some.inj ((eosResumeTask_eq_self hs).symm.trans hb)
      exact .refl ok a

/-- `_os_wakeup_from_queue` (core/task.c:300-316) -/
theorem wakeupFromQueue_lives (h : Scheduled idle a) {q : WaitQueue}
    (hb : a.osWakeupFromQueue q = some b) : AllLive ok a b := by
  cases hq : a.queue.ring (.wait q) with
  | nil =>
    obtain rfl : a = b := Option.some.inj ((osWakeupFromQueue_eq_self hq).symm.trans hb)
    exact .refl ok a
  | cons t rest =>
    have ht : t ∈ a.queue.ring (.wait q) := hq ▸ List.mem_cons_self
    have hw := ((h.placed t).waiting q ht).1
    obtain ⟨m, hm, hmv, hsm, -, htm, -⟩ := osWakeupFromQueue_moved h.toConsistent hq
    have hv : view m t = ⟨.ready, ∅, (view a t).armed⟩ := by
      refine TaskView.ext hsm (queues_eq_empty hmv.consistent (by simp [hsm])) ?_
      show Pending m.timers t = Pending a.timers t
      rw [htm]
    apply h.moved_lives hmv (fun _ => .inl hsm) (by simp [hsm]) (fun u _ => by rw [htm]) ?_
      (hm.symm.trans hb)
    rw [hv]
    exact .single (.release hw ht)

/-- `eos_release_semaphore` (core/sync.c:78-94) -/
theorem release_lives (h : Scheduled idle a) {s : Nat} (hb : a.eosReleaseSemaphore s = some b) :
    AllLive ok a b := by
  have hs := h.setCount s (a.count s + 1)
  simp only [Kernel.eosReleaseSemaphore] at hb
  split at hb
  · cases hb
    exact setCount_lives a s _
  · exact (setCount_lives a s _).trans (hs.wakeupFromQueue_lives hb)

variable [Fintype T]

/-- The end of `eos_sleep` (core/task.c:246-255) -/
theorem sleepFor_lives (h : Scheduled idle a) (hr : a.status t = .running) (hti : t ≠ idle)
    {timeout : UInt32} (hok : ok t (.sleep (timeout ≠ 0))) (hb : a.sleepFor t timeout = some b) :
    AllLive ok a b := by
  have hf := h.free (t := t) (by simp [hr]) (by simp [hr])
  obtain ⟨m, hm, hmv, hsm, hqm, -, hpm⟩ := sleepFor_moved h.toConsistent hf (by simp [hr]) timeout
  have hv : view m t = ⟨.waiting, (view a t).queues, timeout ≠ 0⟩ := by
    refine TaskView.ext hsm ?_ (propext ?_)
    · show { q | t ∈ m.queue.ring (.wait q) } = _
      rw [hqm]
      rfl
    · show Pending m.timers t ↔ _
      simp [hpm]
  apply h.moved_lives hmv (fun e => absurd e hti) (by simp [hsm]) (fun u hu => by simp [hpm, hu]) ?_
    (hm.symm.trans hb)
  rw [hv]
  exact .single (.sleep hr hok)

/-- `eos_sleep` (core/task.c:229-256) -/
theorem sleep_lives (h : Scheduled idle a) (hl : a.vars.schedulerLock ≠ locked)
    (hc : a.vars.currentTask = some t) (hti : t ≠ idle) {tick : UInt32}
    (hok : ∀ armed : Prop, (armed ∨ tick = 0 ∧ (a.vars.tcb t).period = 0) → ok t (.sleep armed))
    (hb : a.eosSleep tick = some b) : AllLive ok a b := by
  obtain ⟨hr, -⟩ := h.caller hl hc
  simp only [Kernel.eosSleep, hl, if_false, hc, Option.bind_eq_bind, Option.bind_some] at hb
  split at hb
  · obtain ⟨h', hs', -⟩ := h.setTcb (t := t)
      (fun b => { b with wakeupTime := b.wakeupTime + b.period }) rfl rfl rfl
    have hsame : AllLive ok a
        (a.setTcb t fun b => { b with wakeupTime := b.wakeupTime + b.period }) :=
      .of_eq (fun u => view_eq (hs' u) (fun _ => Iff.rfl) Iff.rfl) rfl
    split at hb
    · cases hb
      exact hsame
    · next hlt =>
      refine hsame.trans (sleepFor_lives h' (hs' t ▸ hr) hti (hok _ (.inl fun he => hlt ?_)) hb)
      have heq : ∀ v w : UInt32, v - w = 0 → v ≤ w := by
        intro v w hvw
        have hvw' : v = w := by grind
        exact hvw' ▸ UInt32.le_refl v
      exact heq _ _ he
  · next hper =>
    refine sleepFor_lives h hr hti (hok _ ?_) hb
    by_cases h0 : tick = 0
    · exact .inr ⟨h0, by_contra fun hne => hper ⟨h0, hne⟩⟩
    · exact .inl h0

/-- `_os_wait_in_queue` (core/task.c:273-297) -/
theorem waitInQueue_lives (h : Scheduled idle a) (hl : a.vars.schedulerLock ≠ locked)
    (hc : a.vars.currentTask = some t) (hti : t ≠ idle) {q : WaitQueue} {queueType : UInt8}
    (hok : ok t (.wait q)) (hb : a.osWaitInQueue q queueType = some b) : AllLive ok a b := by
  obtain ⟨hr, hf⟩ := h.caller hl hc
  obtain ⟨m, hm, hmv, hsm, hqm, htm, -⟩ := osWaitInQueue_moved h.toConsistent hc hf (by simp [hr]) q
    queueType
  have hv : view m t = ⟨.waiting, {q}, (view a t).armed⟩ := by
    refine TaskView.ext hsm (queues_eq_singleton hmv.consistent hqm) ?_
    show Pending m.timers t = Pending a.timers t
    rw [htm]
  apply h.moved_lives hmv (fun e => absurd e hti) (by simp [hsm]) (fun u _ => by rw [htm]) ?_
    (hm.symm.trans hb)
  rw [hv]
  exact .single (.wait hr hok)

/-- `eos_acquire_semaphore` (core/sync.c:25-75) -/
theorem acquire_lives (h : Scheduled idle a) (hc : a.vars.currentTask = some t) (hti : t ≠ idle)
    {s : Nat} {timeout : Int32} (hok : ok t (.wait (.semaphore s))) {r : CallResult}
    (hb : a.eosAcquireSemaphore s timeout = some (r, b)) : AllLive ok a b := by
  unfold Kernel.eosAcquireSemaphore at hb
  split at hb
  · cases hb
    exact .refl ok a
  next hl =>
  have hl' : a.vars.schedulerLock ≠ locked := by rw [not_not.mp hl]; decide
  obtain ⟨hr, hf⟩ := h.caller hl' hc
  simp only at hb
  split at hb
  · split at hb
    · cases hb
      exact .refl ok a
    · obtain ⟨m, hm, hmv, hsm, hqm, hpm⟩ := setAlarm_wait_moved h.toConsistent hc hf (by simp [hr])
        timeout.toUInt32 s
      have hm' : m.eosSchedule = some b := by
        rw [← hm]
        rw [hc] at hb
        simp only [Option.bind_eq_bind, Option.bind_some] at hb
        obtain ⟨c, hc', hb⟩ := Option.bind_eq_some_iff.mp hb
        obtain ⟨d, hd, hb⟩ := Option.bind_eq_some_iff.mp hb
        cases hb
        exact Option.bind_eq_some_iff.mpr ⟨c, hc', hd⟩
      have hv : view m t = ⟨.waiting, {.semaphore s}, timeout.toUInt32 ≠ 0⟩ := by
        refine TaskView.ext hsm (queues_eq_singleton hmv.consistent hqm) (propext ?_)
        show Pending m.timers t ↔ _
        simp [hpm]
      apply h.moved_lives hmv (fun e => absurd e hti) (by simp [hsm])
        (fun u hu => by simp [hpm, hu]) ?_ hm'
      rw [hv]
      have harm : LifeStep (ok t) (view a t) { view a t with armed := timeout.toUInt32 ≠ 0 } :=
        .setAlarm _ hr
      exact .tail (.single harm) (.wait hr hok)
  · cases hb
    exact setCount_lives a s _

/-- `eos_acquire_semaphore` behind `_os_wait_in_queue` (core/sync.c:58-75) -/
theorem retry_lives (h : Scheduled idle a) (hl : a.vars.schedulerLock ≠ locked)
    (hc : a.vars.currentTask = some t) (hti : t ≠ idle) {s : Nat} {timeout : Int32}
    {absTimeout : UInt32} (hok : ok t (.wait (.semaphore s))) {r : CallResult}
    (hb : a.acquireRetry s timeout absTimeout = some (r, b)) : AllLive ok a b := by
  obtain ⟨hr, -⟩ := h.caller hl hc
  unfold Kernel.acquireRetry at hb
  split at hb
  · cases hb
    exact .refl ok a
  split at hb
  · obtain ⟨c, hc', hb⟩ := Option.bind_eq_some_iff.mp hb
    cases hb
    exact h.waitInQueue_lives hl hc hti hok hc'
  · obtain ⟨hcancel, -, -⟩ := h.cancelAlarm t
    simp only [hc, Option.bind_eq_bind, Option.bind_some, hcancel] at hb
    cases hb
    refine ⟨fun u => ?_, rfl⟩
    have hpd : Pending (popped a t).timers u ↔ Pending a.timers u ∧ u ≠ t :=
      h.alarms.pending_dropAlarm
    by_cases hu : u = t
    · subst hu
      have hv : view ((popped a u).setCount s (a.count s - 1)) u =
          { view a u with armed := False } :=
        TaskView.ext rfl rfl (propext (hpd.trans ⟨fun hp => hp.2 rfl, False.elim⟩))
      refine .single ?_
      show LifeStep _ _ (view ((popped a u).setCount s (a.count s - 1)) u)
      rw [hv]
      exact .setAlarm False hr
    · have hv : view ((popped a t).setCount s (a.count s - 1)) u = view a u :=
        view_eq rfl (fun _ => Iff.rfl) (hpd.trans (and_iff_left hu))
      show Lives _ _ (view ((popped a t).setCount s (a.count s - 1)) u)
      rw [hv]

/-- `eos_wait_condition` behind `eos_release_semaphore` (core/sync.c:121-126) -/
theorem waitCondition_lives (h : Scheduled idle a) (hl : a.vars.schedulerLock ≠ locked)
    (hc : a.vars.currentTask = some t) (hti : t ≠ idle) {c m : Nat}
    (hok : ok t (.wait (.condition c))) {r : CallResult}
    (hb : a.waitCondition c m = some (r, b)) : AllLive ok a b := by
  obtain ⟨hr, -⟩ := h.caller hl hc
  obtain ⟨d, hd, -, -, -, -, hcd⟩ := waitInQueue_step h (.condition c)
    (a.vars.condition c).queueType hc hti (by rw [hr]; rfl) none
  simp only [Kernel.waitCondition, hd, Option.bind_eq_bind, Option.bind_some] at hb
  rw [if_neg (hc ▸ hcd.resolve_left hl)] at hb
  cases hb
  exact h.waitInQueue_lives hl hc hti hok hd

/-- `eos_wait_condition` (core/sync.c:113-126) -/
theorem eosWaitCondition_lives (h : Scheduled idle a) (hl : a.vars.schedulerLock ≠ locked)
    (hc : a.vars.currentTask = some t) (hti : t ≠ idle) {c m : Nat}
    (hok : ok t (.wait (.condition c))) {r : CallResult}
    (hb : a.eosWaitCondition c m = some (r, b)) : AllLive ok a b := by
  obtain ⟨d, hd, hadv, hld⟩ := h.release_advance m
  have hlives : AllLive ok a d := h.release_lives hd
  simp only [Kernel.eosWaitCondition, hd, Option.bind_eq_bind, Option.bind_some] at hb
  split at hb
  · next hcd =>
    exact hlives.trans (hadv.scheduled.waitCondition_lives (hld ▸ hl) (hcd.trans hc) hti hok hb)
  · cases hb
    exact hlives

end Scheduled

/-- A call of the handler of an alarm (core/timer.c:75-88) -/
theorem expire_lives (h : Consistent a) (he : expiredAlarm a.timers systemTimer = some t)
    (hm : Moved (popped a t) b t) (hs : b.status t = .ready) (ht : b.timers = (popped a t).timers) :
    AllLive ok a b := by
  have hpd : ∀ u, Pending b.timers u ↔ Pending a.timers u ∧ u ≠ t := by
    intro u
    rw [ht]
    exact h.alarms.pending_dropAlarm
  have hv : view b t = ⟨.ready, ∅, False⟩ :=
    TaskView.ext hs (queues_eq_empty hm.consistent (by simp [hs]))
      (propext ((hpd t).trans ⟨fun hp => hp.2 rfl, False.elim⟩))
  refine ⟨fun u => ?_, hm.lock⟩
  by_cases hu : u = t
  · subst hu
    rw [hv]
    exact .single (.expire (popped_consistent h he).2.2.1 (pending_of_expired h.alarms he))
  · have hsame : view b u = view a u :=
      view_eq (hm.status hu) (hm.wait u hu) ((hpd u).trans (and_iff_left hu))
    rw [hsame]

/-! ## The calls -/

section Calls

/-- The queue the current task may enter in a step. -/
def waitsFor {Q : Type → Type → Type} (s : System Q T) (t : T) : Call T → Option WaitQueue
  | .acquire sem _ => some (.semaphore sem)
  | .waitCondition c _ => some (.condition c)
  | .goOn =>
    match s.resume t with
    | .user => none
    | .acquire sem _ _ => some (.semaphore sem)
    | .released c _ => some (.condition c)
    | .notified m => some (.semaphore m)
  | _ => none

/-- What a step may do to a task by calls that are meant for it. -/
def Permits (x : System Rings T) (call : Call T) (t : T) : LifeEvent → Prop
  | .suspend armed => call = .kernel (.suspendTask (some t)) ∧ x.kernel.status t = .ready ∧
      (armed ↔ Pending x.kernel.timers t)
  | .resume => call = .kernel (.resumeTask (some t))
  | .wait q => waitsFor x t call = some q
  | .sleep armed => ∃ tick, call = .kernel (.sleep tick) ∧ x.kernel.vars.currentTask = some t ∧
      (armed ∨ tick = 0 ∧ (x.kernel.vars.tcb t).period = 0)

variable [Fintype T] {idle : T} {s s' : System LinkMem T} {x x' : System Rings T}

/-- **In every step of a run every task lives on.** -/
theorem call_lives (h : SystemOk idle s x) {call : Call T} (ho : Admissible idle s call)
    (hs' : s.exec call = some s') (hx' : x.exec call = some x') :
    AllLive (Permits x call) x.kernel x'.kernel := by
  have hl : x.kernel.vars.schedulerLock ≠ locked := by
    rw [← h.kernel.vars, ho.1]
    decide
  obtain ⟨t, hc, -⟩ := h.scheduled.started hl
  have hidle : s.kernel.vars.currentTask ≠ some idle → t ≠ idle :=
    fun hn e => hn (by rw [h.kernel.vars, hc, e])
  cases System.exec_effect hx' with
  | @kernel o b hb =>
    obtain ⟨-, hcall, ha, -⟩ := ho
    have hk := h.scheduled
    cases o with
    | createTask task start size entry p =>
      refine hk.createTask_lives (fun t ht => ?_) hb
      rw [← h.kernel.vars]
      obtain rfl := Option.mem_def.mp ht
      exact of_decide_eq_true ha
    | schedule => exact hk.schedule_lives hb
    | changePriority task p => exact hk.changePriority_lives hb
    | setPeriod t p =>
      cases hb
      obtain ⟨-, hs, -⟩ := hk.setTcb (t := t)
        (fun b => { b with period := p, wakeupTime := x.kernel.tick }) rfl rfl rfl
      exact .of_eq (fun u => view_eq (hs u) (fun _ => Iff.rfl) Iff.rfl) rfl
    | suspendTask task =>
      refine hk.suspendTask_lives (fun t ht hs => ?_) hb
      obtain rfl := Option.mem_def.mp ht
      exact ⟨rfl, hs, Iff.rfl⟩
    | resumeTask task =>
      refine hk.resumeTask_lives (fun t ht => ?_) hb
      obtain rfl := Option.mem_def.mp ht
      rfl
    | sleep tick => exact hk.sleep_lives hl hc (hidle ha) (fun _ ha => ⟨tick, rfl, hc, ha⟩) hb
    | tick =>
      obtain ⟨k', hk', -⟩ := Option.bind_eq_some_iff.mp hs'
      obtain ⟨m, hm, -⟩ := Option.bind_eq_some_iff.mp hk'
      obtain ⟨m', hm', -, ht, hlives⟩ := triggerAlarms_simulates
        (I := AllLive (Permits x (.kernel .tick)) x.kernel)
        (fun a t b hca he hmv hst htm hlive => hlive.trans (expire_lives hca he hmv hst htm))
        h.kernel hk ⟨fun _ => .refl, rfl⟩ hm
      obtain ⟨b', hb', -, -, -, -, hout⟩ := Scheduled.reschedule ht.toConsistent ht.idleRuns ht.runs
      have hsame : b' = b := by
        simp only [Kernel.exec, Kernel.eosTriggerCounter, hm', Option.bind_eq_bind,
          Option.bind_some, hb', Option.some.injEq] at hb
        exact hb
      subst hsame
      rcases hout with ⟨-, rfl⟩ | ⟨-, next, hd⟩
      · exact hlives
      · exact hlives.trans hd.allLive
    | lockScheduler | restoreScheduler _ | waitInQueue _ _ | wakeupFromQueue _ | start =>
      cases hcall
  | release hb => exact h.scheduled.release_lives hb
  | notify hb => exact h.scheduled.wakeupFromQueue_lives hb
  | @part _ t' r b hc' hb =>
    obtain rfl : t = t' := Option.some.inj (hc.symm.trans hc')
    rw [System.leave_kernel]
    cases call with
    | acquire sem timeout => exact h.scheduled.acquire_lives hc (hidle ho.2.2) rfl hb
    | waitCondition c m => exact h.scheduled.eosWaitCondition_lives hl hc (hidle ho.2.2) rfl hb
    | goOn =>
      simp only [System.part] at hb
      have hti : t ≠ idle := by
        rintro rfl
        rw [h.idleUser] at hb
        cases hb
      have hwait : ∀ q, waitsFor x t .goOn = some q → Permits x .goOn t (.wait q) :=
        fun _ hq => hq
      cases hr : x.resume t with
      | user =>
        rw [hr] at hb
        cases hb
      | acquire sem timeout absTimeout =>
        rw [hr] at hb
        exact h.scheduled.retry_lives hl hc hti (hwait _ (by simp only [waitsFor, hr])) hb
      | released c m =>
        rw [hr] at hb
        exact h.scheduled.waitCondition_lives hl hc hti (hwait _ (by simp only [waitsFor, hr])) hb
      | notified m =>
        rw [hr] at hb
        exact h.scheduled.acquire_lives hc hti (hwait _ (by simp only [waitsFor, hr])) hb
    | kernel | release | notifyCondition => cases hb

/-- When multitasking starts no task waits, none is suspended, none is in a call, and the scheduler
is not locked. -/
theorem Booted.fresh (h : Booted idle s) : ∃ x, SystemOk idle s x ∧
    (∀ t, x.kernel.status t ≠ .waiting ∧ x.kernel.status t ≠ .suspended) ∧
    (∀ t, x.resume t = .user) ∧ s.kernel.vars.schedulerLock = unlocked := by
  have huser : ∀ t, s.resume t = .user := by
    obtain ⟨-, -, -, -, k, -, -, -, rfl⟩ := h
    exact fun _ => rfl
  obtain ⟨x, hx, hs⟩ := h.invariant
    (J := fun a => a.vars.schedulerLock = locked ∧
      ∀ t, a.status t ≠ .waiting ∧ a.status t ≠ .suspended)
    (K := fun b => (∀ t, b.status t ≠ .waiting ∧ b.status t ≠ .suspended) ∧
      b.vars.schedulerLock = unlocked)
    (fun _ _ => ⟨rfl, fun _ => ⟨nofun, nofun⟩⟩)
    (by
      rintro a b task start size entry p hc ⟨hl, hs⟩ hz hb
      rcases eosCreateTask_cases hc hz hb with rfl | ⟨t, m, -, hm, hmv, -, hsm, -⟩
      · exact ⟨hl, hs⟩
      · have hlm : m.vars.schedulerLock = locked := hmv.lock.trans hl
        rw [eosSchedule_locked hlm] at hm
        obtain rfl := Option.some.inj hm
        refine ⟨hlm, fun u => ?_⟩
        by_cases hu : u = t
        · simp [hu, hsm]
        · rw [hmv.status hu]
          exact hs u)
    (by
      rintro a b ha ⟨-, hs⟩ hb
      obtain ⟨b', hb', -, -, -, -, hout⟩ := Scheduled.reschedule (a := a.setLock unlocked)
        (ha.toConsistent.congr rfl rfl rfl rfl rfl) ha.idleRuns ha.runs
      obtain rfl : b' = b := Option.some.inj (hb'.symm.trans hb)
      rcases hout with ⟨hl, -⟩ | ⟨-, next, hd⟩
      · cases hl
      · have hlive : AllLive (fun _ _ => False) (a.setLock unlocked) b' := hd.allLive
        exact ⟨fun t => (hlive.lives t).runnable (fun _ => id) (hs t), hlive.lock⟩)
  exact ⟨x, hx, hs.1, fun t => by rw [← hx.resume, huser], hx.kernel.vars ▸ hs.2⟩

end Calls

end Eos.Analysis
