import Eos.Analysis.TickCalls
import Eos.Interface.SyncRefinement

/-!
# The invariant of runs with semaphores and condition variables

Every part of a call of `core/sync.c` moves at most two tasks: a release or notification
wakes a waiter up, and the caller may enter a wait queue.  `Advance` says what such a part
does to the wait queues and alarms, and every step of a system is one (`call_advance`).

A system starts when multitasking does (`Booted`); its tasks call the kernel with the
scheduler unlocked (`Admissible`).
-/

set_option autoImplicit false

namespace Eos.Analysis

open Eos.Lib (LinkMem Reach runList)
open Eos.Model
open Eos.Interface (Rings Linked Repr SameResult SystemRepr exec_refines osInit_refines
  system_exec_refines)

/-! ## The parts of calls, over sequences -/

section Parts

variable {T : Type} [DecidableEq T] {idle t : T} {a b c : Kernel Rings T}

omit [DecidableEq T] in
/-- Two parts of one call of a task that is in no wait queue. -/
theorem Advance.trans {woken : Option WaitQueue} (h : Advance idle woken a b)
    (h' : Advance idle none b c) (hc : a.vars.currentTask = some t)
    (hb : b.vars.currentTask = some t) (hq : ∀ q, t ∉ a.queue.ring (.wait q)) :
    Advance idle woken a c where
  scheduled := h'.scheduled
  stays q u hw hu hm := by
    refine h'.stays q u (by simp) (fun hp => ?_) (h.stays q u hw hu hm)
    rcases h.pending u hp with hp | hp
    · exact hu hp
    · rw [hc, Option.some.injEq] at hp
      exact hq q (hp ▸ hm)
  pending u hp := by
    rcases h'.pending u hp with hp | hp
    · exact h.pending u hp
    · rw [hb] at hp
      exact Or.inr (hc.trans hp)

omit [DecidableEq T] in
/-- A state that differs in the semaphores only. -/
theorem Advance.of_eq {woken : Option WaitQueue} (h : Scheduled idle b) (hq : b.queue = a.queue)
    (ht : ∀ u, Pending b.timers u → Pending a.timers u) : Advance idle woken a b :=
  ⟨h, fun _ _ _ _ hu => hq ▸ hu, fun u hu => Or.inl (ht u hu)⟩

namespace Scheduled

omit [DecidableEq T] in
/-- A new count changes nothing that the scheduler reads. -/
theorem setCount (h : Scheduled idle a) (s : Nat) (n : Int) : Scheduled idle (a.setCount s n) :=
  ⟨h.toConsistent.congr rfl rfl rfl rfl rfl, h.idleRuns, h.runs, h.started⟩

omit [DecidableEq T] in
/-- The current task runs, unless the scheduler is locked; then it is in no queue. -/
theorem caller (h : Scheduled idle a) (hl : a.vars.schedulerLock ≠ locked)
    (hc : a.vars.currentTask = some t) :
    a.status t = .running ∧ ¬Linked a.queue t := by
  obtain ⟨c, hc', hr⟩ := h.started hl
  obtain rfl : c = t := Option.some.inj (hc'.symm.trans hc)
  exact ⟨hr, h.free (by simp [hr]) (by simp [hr])⟩

/-- `eos_release_semaphore` (core/sync.c:78-94) -/
theorem release_advance (h : Scheduled idle a) (s : Nat) :
    ∃ b, a.eosReleaseSemaphore s = some b ∧ Advance idle (some (.semaphore s)) a b ∧
      b.vars.schedulerLock = a.vars.schedulerLock := by
  have hs := h.setCount s (a.count s + 1)
  simp only [Kernel.eosReleaseSemaphore]
  split
  · exact ⟨_, rfl, .of_eq hs rfl fun _ => id, rfl⟩
  · obtain ⟨b, hb, hstep, hlb⟩ := wakeupFromQueue_step hs (.semaphore s) False
    exact ⟨b, hb, ⟨hstep.scheduled, hstep.stays, hstep.pending⟩, hlb⟩

variable [Fintype T]

/-- `eos_set_alarm` with timeout 0 takes the alarm of a task out of the queue. -/
theorem cancelAlarm (h : Scheduled idle a) (t : T) :
    a.setAlarm t 0 none none = some (popped a t) ∧ Scheduled idle (popped a t) ∧
      ∀ u, Pending (popped a t).timers u → Pending a.timers u := by
  have hp : ∀ u, Pending (popped a t).timers u → Pending a.timers u :=
    fun u hu => (h.alarms.pending_dropAlarm.mp hu).1
  refine ⟨?_, ⟨h.toConsistent.setTimers h.alarms.dropAlarm_ok hp, h.idleRuns, h.runs, h.started⟩,
    hp⟩
  simp only [Kernel.setAlarm, h.alarms.eosSetAlarm_cancel (t := t) (Or.inl rfl)]
  rfl

/-- Setting the alarm of a task that is linked nowhere and linking it in a wait queue. -/
theorem setAlarm_wait_moved (h : Consistent a) (hc : a.vars.currentTask = some t)
    (hf : ¬Linked a.queue t) (hs : a.status t ≠ .zeroed) (timeout : UInt32) (s : Nat) :
    ∃ m, (a.setAlarm t timeout (some .osWakeupFromAlarmQueue) (some t)).bind
        (fun k => k.waitSemaphore s) = m.eosSchedule ∧
      Moved a m t ∧ m.status t = .waiting ∧ t ∈ m.queue.ring (.wait (.semaphore s)) ∧
      ∀ u, Pending m.timers u ↔ (Pending a.timers u ∧ u ≠ t) ∨ u = t ∧ timeout ≠ 0 := by
  obtain ⟨m, hm, hok, hpend, -⟩ := h.alarms.eosSetAlarm_ok (t := t) timeout
  have hother : ∀ u ≠ t, Pending m u → Pending a.timers u := fun u hu hp =>
    ((hpend u).mp hp).elim And.left fun hp => absurd hp.1 hu
  obtain ⟨xs, hxs, hmem, hb⟩ := ((h.detached hf).setTimers hok hother).attach_wait (h.pnode t hs)
    (.semaphore s) (a.vars.semaphore s).queueType
  refine ⟨_, ?_, ⟨hb, fun u hu => ?_, fun u hu q => ?_, hother, rfl, rfl, rfl, rfl⟩, by simp, ?_,
    hpend⟩
  · simp only [Kernel.setAlarm, hm, Kernel.waitSemaphore, Kernel.osWaitInQueue]
    simp only [Option.pure_def, Option.bind_eq_bind, Option.bind_some,
      Kernel.setTimers_vars, hc, hxs]
  · simp [hu]
  · show u ∈ (a.queue.set (.wait (.semaphore s)) xs).ring (.wait q) ↔ _
    rw [mem_set, hmem]
    by_cases hq : q = .semaphore s
    · subst hq; simp [hu]
    · simp [hq]
  · show t ∈ (a.queue.set (.wait (.semaphore s)) xs).ring (.wait (.semaphore s))
    rw [mem_set, hmem]
    exact .inl ⟨rfl, .inl rfl⟩

/-- **`eos_acquire_semaphore`** has a result (core/sync.c:25-75). -/
theorem acquire_advance (h : Scheduled idle a) (hc : a.vars.currentTask = some t)
    (hti : t ≠ idle) (s : Nat) (timeout : Int32) :
    ∃ r b, a.eosAcquireSemaphore s timeout = some (r, b) ∧ Advance idle none a b := by
  unfold Kernel.eosAcquireSemaphore
  by_cases hl : a.vars.schedulerLock = 0
  · have hl' : a.vars.schedulerLock ≠ locked := by rw [hl]; decide
    obtain ⟨hr, hf⟩ := h.caller hl' hc
    rw [if_neg (fun hn => hn hl)]
    split
    · split
      · exact ⟨.returned 0, a, rfl, .of_eq h rfl fun _ => id⟩
      · obtain ⟨m, hm, hmv, hsm, -⟩ := setAlarm_wait_moved h.toConsistent hc hf (by simp [hr])
          timeout.toUInt32 s
        obtain ⟨b, hb, hadv, -⟩ := h.moved_advance none hmv (fun e => absurd e hti) (by simp [hsm])
          (fun q _ hq => absurd ⟨_, hq⟩ hf) fun _ => Or.inr hc
        obtain ⟨a', ha', hw⟩ := Option.bind_eq_some_iff.mp (hm.trans hb)
        refine ⟨.switched (.acquire s timeout (a.tick + timeout.toUInt32)), b, ?_, hadv⟩
        simp only [hc, Option.bind_eq_bind, Option.bind_some, ha', hw]
        rfl
    · exact ⟨.returned 1, _, rfl, .of_eq (h.setCount _ _) rfl fun _ => id⟩
  · rw [if_pos hl]
    exact ⟨.returned 0, a, rfl, .of_eq h rfl fun _ => id⟩

/-- The loop of `eos_acquire_semaphore` behind `_os_wait_in_queue` (core/sync.c:58-75) -/
theorem retry_advance (h : Scheduled idle a) (hl : a.vars.schedulerLock ≠ locked)
    (hc : a.vars.currentTask = some t) (hti : t ≠ idle) (s : Nat) (timeout : Int32)
    (absTimeout : UInt32) :
    ∃ r b, a.acquireRetry s timeout absTimeout = some (r, b) ∧ Advance idle none a b := by
  unfold Kernel.acquireRetry
  split
  · exact ⟨.returned 0, a, rfl, .of_eq h rfl fun _ => id⟩
  split
  · obtain ⟨hr, -⟩ := h.caller hl hc
    obtain ⟨b, hb, hstep, -⟩ := waitInQueue_step h (.semaphore s) (a.vars.semaphore s).queueType hc
      hti (by rw [hr]; rfl) none
    refine ⟨.switched (.acquire s timeout absTimeout), b, ?_, hstep.toAdvance⟩
    simp only [Kernel.waitSemaphore, hb]
    rfl
  · obtain ⟨hcancel, hs, hp⟩ := h.cancelAlarm t
    refine ⟨.returned 1, _, ?_, .of_eq (hs.setCount s (a.count s - 1)) rfl hp⟩
    simp only [hc, Option.bind_eq_bind, Option.bind_some, hcancel]
    rfl

/-- `eos_wait_condition` behind `eos_release_semaphore` (core/sync.c:121-126): the caller is in
the queue of the condition variable when it has been switched away from. -/
theorem waitCondition_advance (h : Scheduled idle a) (hl : a.vars.schedulerLock ≠ locked)
    (hc : a.vars.currentTask = some t) (hti : t ≠ idle) (c m : Nat) :
    ∃ b, a.waitCondition c m = some (.switched (.notified m), b) ∧ Advance idle none a b ∧
      t ∈ b.queue.ring (.wait (.condition c)) ∧ b.timers = a.timers := by
  obtain ⟨hr, hf⟩ := h.caller hl hc
  obtain ⟨b, hb, hstep, htq, htm, -, hcb⟩ := waitInQueue_step h (.condition c)
    (a.vars.condition c).queueType hc hti (by rw [hr]; rfl) none
  refine ⟨b, ?_, hstep.toAdvance, htq, htm⟩
  simp only [Kernel.waitCondition, hb, Option.bind_eq_bind, Option.bind_some]
  rw [if_neg (hc ▸ hcb.resolve_left hl)]
  rfl

/-- **`eos_wait_condition`** has a result (core/sync.c:113-126). -/
theorem eosWaitCondition_advance (h : Scheduled idle a) (hl : a.vars.schedulerLock ≠ locked)
    (hc : a.vars.currentTask = some t) (hti : t ≠ idle) (c m : Nat) :
    ∃ r b, a.eosWaitCondition c m = some (r, b) ∧ Advance idle (some (.semaphore m)) a b := by
  obtain ⟨-, hf⟩ := h.caller hl hc
  obtain ⟨b, hb, hadv, hlb⟩ := h.release_advance m
  simp only [Kernel.eosWaitCondition, hb, Option.bind_eq_bind, Option.bind_some]
  split
  · next hcb =>
    obtain ⟨d, hd, hadv', -⟩ :=
      hadv.scheduled.waitCondition_advance (hlb ▸ hl) (hcb.trans hc) hti c m
    exact ⟨_, d, hd, hadv.trans hadv' hc (hcb.trans hc) fun q hq => hf ⟨_, hq⟩⟩
  · exact ⟨.switched (.released c m), b, rfl, hadv⟩

end Scheduled

end Parts

/-! ## Systems -/

section Systems

variable {T : Type} [DecidableEq T]

/-- Calls of `eos_create_task` on zeroed TCBs. -/
def Creates (k : Kernel LinkMem T) : Op T → Prop
  | .createTask task _ _ _ _ => task.all fun t => k.vars.tcb t = .zero
  | _ => False

instance (k : Kernel LinkMem T) : DecidablePred (Creates k)
  | .createTask task _ _ _ _ =>
    inferInstanceAs (Decidable ((task.all fun t => k.vars.tcb t = .zero) = true))
  | .schedule | .changePriority _ _ | .setPeriod _ _ | .suspendTask _ | .resumeTask _ | .sleep _
  | .lockScheduler | .restoreScheduler _ | .waitInQueue _ _ | .wakeupFromQueue _ | .tick
  | .start => .isFalse id

/-- The operations of `core/task.c` a task may call by itself, and the tick. -/
def isTaskCall : Op T → Bool
  | .lockScheduler | .restoreScheduler _ | .waitInQueue _ _ | .wakeupFromQueue _ | .start => false
  | _ => true

omit [DecidableEq T] in
/-- The current task executes its own code. -/
def inUser {Q : Type → Type → Type} (s : System Q T) : Bool :=
  s.kernel.vars.currentTask.all fun c => s.resume c = .user

/-- The steps of a run.  The scheduler is not locked; a task in a call of the kernel only goes
on with it; the idle task makes no blocking call. -/
def Admissible (idle : T) (s : System LinkMem T) (call : Call T) : Prop :=
  s.kernel.vars.schedulerLock = unlocked ∧
    match call with
    | .kernel o =>
      isTaskCall o = true ∧ Admitted idle s.kernel.vars o ∧ (o = .tick ∨ inUser s = true)
    | .acquire _ _ | .waitCondition _ _ =>
      inUser s = true ∧ s.kernel.vars.currentTask ≠ some idle
    | .release _ | .notifyCondition _ => inUser s = true
    | .goOn => True

instance (idle : T) (s : System LinkMem T) : DecidablePred (Admissible idle s) := fun call => by
  unfold Admissible
  cases call <;> infer_instance

variable [Fintype T]

/-- A system in which multitasking has just started: `_os_init`, calls of `eos_create_task` by
`eos_user_main`, and the start (core/init.c:22-44). -/
def Booted (idle : T) (s : System LinkMem T) : Prop :=
  ∃ semaphore condition k₀ k₁ k, Kernel.osInit idle semaphore condition = some k₀ ∧
    Reach Kernel.exec Creates k₀ k₁ ∧ k₁.exec .start = some k ∧ s = ⟨k, fun _ => .user⟩

/-- The system after given calls of `eos_create_task`. -/
def boot (idle : T) (semaphore : Nat → Semaphore) (condition : Nat → Condition)
    (creations : List (Op T)) : Option (System LinkMem T) := do
  let k₀ ← Kernel.osInit idle semaphore condition
  let k₁ ← runList (fun k o => if Creates k o then k.exec o else none) k₀ creations
  return ⟨← k₁.exec .start, fun _ => .user⟩

/-- The examples' system is one that has started. -/
theorem booted_of_boot {idle : T} {semaphore : Nat → Semaphore} {condition : Nat → Condition}
    {creations : List (Op T)} {s : System LinkMem T}
    (h : boot idle semaphore condition creations = some s) : Booted idle s := by
  simp only [boot, Option.bind_eq_bind, Option.bind_eq_some_iff] at h
  obtain ⟨k₀, hk₀, k₁, hk₁, k, hk, h⟩ := h
  exact ⟨semaphore, condition, k₀, k₁, k, hk₀, .of_runList hk₁, hk, (Option.some.inj h).symm⟩

/-- What `eos_create_task` and the start of multitasking leave alone is as in zeroed memory. -/
theorem boot_keeps {X : Type} {obs : Kernel LinkMem T → X}
    (hcreate : ∀ k k' task start size entry p,
      Kernel.exec k (.createTask task start size entry p) = some k' → obs k' = obs k)
    (hstart : ∀ k k', Kernel.exec k .start = some k' → obs k' = obs k)
    {idle : T} {semaphore : Nat → Semaphore} {condition : Nat → Condition}
    {creations : List (Op T)} {s : System LinkMem T}
    (h : boot idle semaphore condition creations = some s) :
    obs s.kernel = obs ((Kernel.zeroed semaphore condition).setLock locked) := by
  simp only [boot, Option.bind_eq_bind, Option.bind_eq_some_iff] at h
  obtain ⟨k₀, hk₀, k₁, hk₁, k, hk, h⟩ := h
  cases h
  have hrun : Reach Kernel.exec Creates k₀ k₁ := .of_runList hk₁
  have hcreated : obs k₁ = obs k₀ := by
    refine hrun.invariant (I := fun k => obs k = obs k₀) rfl fun u v o hu ho hv => ?_
    cases o with
    | createTask task start size entry p => exact (hcreate u v task start size entry p hv).trans hu
    | _ => exact absurd ho id
  calc obs k = obs k₁ := hstart k₁ k hk
    _ = obs k₀ := hcreated
    _ = _ := hcreate _ k₀ _ _ _ _ _ hk₀

/-- The system `s` represents `x`, which keeps the invariant of the scheduler, and its idle task
is in no call. -/
structure SystemOk (idle : T) (s : System LinkMem T) (x : System Rings T) : Prop
    extends SystemRepr s x where
  scheduled : Scheduled idle x.kernel
  idleUser : x.resume idle = .user

/-- The queue a step wakes a task from. -/
def callWakes : Call T → Option WaitQueue
  | .release s => some (.semaphore s)
  | .waitCondition _ m => some (.semaphore m)
  | .notifyCondition c => some (.condition c)
  | _ => none

/-- **Multitasking starts** after any calls of `eos_create_task`, in a state of the invariant. -/
theorem boot_systemOk (idle : T) (semaphore : Nat → Semaphore) (condition : Nat → Condition) :
    ∃ k₀, Kernel.osInit idle semaphore condition = some k₀ ∧
      ∀ k₁, Reach Kernel.exec Creates k₀ k₁ →
        ∃ k, k₁.exec .start = some k ∧ ∃ x, SystemOk idle ⟨k, fun _ => .user⟩ x := by
  obtain ⟨a₀, ha₀, hrun₀, -⟩ := osInit_running idle semaphore condition
  obtain ⟨k₀, hk₀, hr₀⟩ := osInit_refines idle semaphore condition a₀ ha₀
  have hstep : ∀ k a o, Repr k a → Scheduled idle a → o ≠ .tick → Admitted idle a.vars o →
      ∃ k' b, k.exec o = some k' ∧ Repr k' b ∧ Scheduled idle b := by
    intro k a o hr ha hot ho
    obtain ⟨b, hb, hstep⟩ := exec_step ha ho hot
    obtain ⟨k', hk', hrep⟩ := exec_refines hr o b hb
    exact ⟨k', b, hk', hrep, hstep.scheduled⟩
  refine ⟨k₀, hk₀, fun k₁ hk₁ => ?_⟩
  obtain ⟨a₁, hr₁, hrun₁⟩ := hk₁.invariant (I := fun k => ∃ a, Repr k a ∧ Scheduled idle a)
    ⟨a₀, hr₀, hrun₀⟩
    (by
      rintro k k' o ⟨a, hr, ha⟩ ho hk'
      cases o with
      | createTask task start size entry p =>
        obtain ⟨k'', b, hk'', hrep⟩ :=
          hstep k a (.createTask task start size entry p) hr ha (by simp) (hr.vars ▸ ho)
        exact ⟨b, Option.some.inj (hk''.symm.trans hk') ▸ hrep⟩
      | _ => exact absurd ho id)
  obtain ⟨k, b, hk, hr, hb⟩ := hstep k₁ a₁ .start hr₁ hrun₁ (by simp) trivial
  exact ⟨k, hk, ⟨b, fun _ => .user⟩, ⟨hr, rfl⟩, hb, rfl⟩

variable {idle : T} {s s' : System LinkMem T} {x : System Rings T}

/-- **What the creation of tasks preserves** holds when multitasking is started. -/
theorem Booted.invariant (h : Booted idle s) {J K : Kernel Rings T → Prop}
    (hzero : ∀ semaphore condition, J ((Kernel.zeroed semaphore condition).setLock locked))
    (hcreate : ∀ a b task start size entry p, Consistent a → J a →
      (∀ t ∈ task, a.vars.tcb t = .zero) →
      a.exec (.createTask task start size entry p) = some b → J b)
    (hstart : ∀ a b, Scheduled idle a → J a → a.exec .start = some b → K b) :
    ∃ x, SystemOk idle s x ∧ K x.kernel := by
  obtain ⟨semaphore, condition, k₀, k₁, k, hk₀, hk₁, hk, rfl⟩ := h
  obtain ⟨a₀, ha₀, hs₀, -⟩ := osInit_running idle semaphore condition
  obtain ⟨k₀', hk₀', hr₀⟩ := osInit_refines idle semaphore condition a₀ ha₀
  obtain rfl : k₀' = k₀ := Option.some.inj (hk₀'.symm.trans hk₀)
  have hj₀ : J a₀ :=
    hcreate _ a₀ (some idle) 1 8096 1 lowestPriority (zeroed_consistent semaphore condition)
      (hzero semaphore condition) (fun _ _ => rfl) ha₀
  obtain ⟨a₁, hr₁, hs₁, hj₁⟩ := hk₁.invariant
    (I := fun k => ∃ a, Repr k a ∧ Scheduled idle a ∧ J a) ⟨a₀, hr₀, hs₀, hj₀⟩ (by
      rintro k k' o ⟨a, hr, ha, hj⟩ ho hk'
      cases o with
      | createTask task start size entry p =>
        change (task.all fun t => k.vars.tcb t = .zero) = true at ho
        rw [hr.vars] at ho
        have hz : ∀ t ∈ task, a.vars.tcb t = .zero := by
          rintro t rfl
          exact of_decide_eq_true ho
        obtain ⟨b, hb, hstep⟩ : ∃ b, a.exec (.createTask task start size entry p) = some b ∧
          OpStep idle (.createTask task start size entry p) a b := createTask_step ha ho
        obtain ⟨k'', hk'', hrep⟩ := exec_refines hr _ b hb
        obtain rfl : k'' = k' := Option.some.inj (hk''.symm.trans hk')
        exact ⟨b, hrep, hstep.scheduled,
          hcreate a b task start size entry p ha.toConsistent hj hz hb⟩
      | _ => exact absurd ho id)
  obtain ⟨b, hb, hstep⟩ := osRestoreScheduler_step hs₁ .start unlocked
  obtain ⟨k', hk', hr⟩ := exec_refines hr₁ .start b hb
  obtain rfl : k' = k := Option.some.inj (hk'.symm.trans hk)
  exact ⟨⟨b, fun _ => .user⟩, ⟨⟨hr, rfl⟩, hstep.scheduled, rfl⟩, hstart a₁ b hs₁ hj₁ hb⟩

/-- **Every step of a run** is one over sequences and keeps the invariant; tasks without an alarm
stay in their wait queue unless the step wakes a task from it. -/
theorem call_simulates (h : SystemOk idle s x) {call : Call T} (ho : Admissible idle s call)
    (hs' : s.exec call = some s') :
    ∃ x', x.exec call = some x' ∧ SystemOk idle s' x' ∧
      Advance idle (callWakes call) x.kernel x'.kernel := by
  have hl : x.kernel.vars.schedulerLock ≠ locked := by
    rw [← h.kernel.vars, ho.1]
    decide
  have hexec : ∀ x', x.exec call = some x' → x'.resume idle = .user →
      Advance idle (callWakes call) x.kernel x'.kernel →
      ∃ x', x.exec call = some x' ∧ SystemOk idle s' x' ∧
        Advance idle (callWakes call) x.kernel x'.kernel := by
    intro x' hx' hi hadv
    obtain ⟨s'', hs'', hrep⟩ := system_exec_refines h.toSystemRepr call x' hx'
    obtain rfl : s'' = s' := Option.some.inj (hs''.symm.trans hs')
    exact ⟨x', hx', ⟨hrep, hadv.scheduled, hi⟩, hadv⟩
  have hpart : ∀ t, x.kernel.vars.currentTask = some t → t ≠ idle →
      x.exec call = (do
        let caller ← x.kernel.vars.currentTask
        return x.leave caller (← x.part caller call)) →
      (∃ r b, x.part t call = some (r, b) ∧ Advance idle (callWakes call) x.kernel b) →
      ∃ x', x.exec call = some x' ∧ SystemOk idle s' x' ∧
        Advance idle (callWakes call) x.kernel x'.kernel := by
    rintro t hc hti hcall ⟨r, b, hb, hadv⟩
    refine hexec (x.leave t (r, b)) ?_ ?_ (by cases r <;> exact hadv)
    · rw [hcall, hc]
      simp only [Option.bind_eq_bind, Option.bind_some, hb]
      rfl
    · cases r <;> simp [System.leave, Ne.symm hti, h.idleUser]
  obtain ⟨t, hc, -⟩ := h.scheduled.started hl
  have hidle : s.kernel.vars.currentTask ≠ some idle → t ≠ idle :=
    fun hn e => hn (by rw [h.kernel.vars, hc, e])
  cases call with
  | kernel o =>
    obtain ⟨hplain, ho, -⟩ := ho.2
    rw [h.kernel.vars] at ho
    by_cases hot : o = .tick
    · subst hot
      obtain ⟨k', hk', hs'⟩ := Option.bind_eq_some_iff.mp hs'
      obtain ⟨b, hb, hr, hadv⟩ := tick_simulates h.kernel h.scheduled hk'
      obtain rfl : { s with kernel := k' } = s' := Option.some.inj hs'
      refine ⟨⟨b, x.resume⟩, ?_, ⟨⟨hr, h.resume⟩, hadv.scheduled, h.idleUser⟩, hadv⟩
      simp only [System.exec, Kernel.exec, hb]
      rfl
    · obtain ⟨b, hb, hstep⟩ := exec_step h.scheduled ho hot
      refine hexec ⟨b, x.resume⟩ ?_ h.idleUser ?_
      · simp only [System.exec, hb]
        rfl
      · have hw : wakes o = none := by cases o <;> first | rfl | cases hplain
        have hadv := hstep.toAdvance
        rwa [hw] at hadv
  | acquire sem timeout =>
    have hti := hidle ho.2.2
    exact hpart t hc hti rfl (h.scheduled.acquire_advance hc hti sem timeout)
  | release sem =>
    obtain ⟨b, hb, hadv, -⟩ := h.scheduled.release_advance sem
    refine hexec ⟨b, x.resume⟩ ?_ h.idleUser hadv
    simp only [System.exec, hb]
    rfl
  | waitCondition c m =>
    have hti := hidle ho.2.2
    exact hpart t hc hti rfl (h.scheduled.eosWaitCondition_advance hl hc hti c m)
  | notifyCondition c =>
    obtain ⟨b, hb, hstep, -⟩ :=
      wakeupFromQueue_step h.scheduled (.condition c) False
    refine hexec ⟨b, x.resume⟩ ?_ h.idleUser hstep.toAdvance
    simp only [System.exec, Kernel.eosNotifyCondition, hb]
    rfl
  | goOn =>
    have hne : x.resume t ≠ .user := fun hu => by
      have hnone : s.part t .goOn = none := by
        simp only [System.part, h.resume, hu]
        rfl
      simp only [System.exec, h.kernel.vars, hc, Option.bind_eq_bind, Option.bind_some,
        hnone] at hs'
      cases hs'
    have hti : t ≠ idle := fun e => hne (e ▸ h.idleUser)
    refine hpart t hc hti rfl ?_
    simp only [System.part]
    cases hr : x.resume t with
    | user => exact absurd hr hne
    | acquire sem timeout absTimeout =>
      exact h.scheduled.retry_advance hl hc hti sem timeout absTimeout
    | released c m =>
      obtain ⟨b, hb, hadv, -⟩ := h.scheduled.waitCondition_advance hl hc hti c m
      exact ⟨_, b, hb, hadv⟩
    | notified m => exact h.scheduled.acquire_advance hc hti m 0

/-- **The step lemma** for what a step does to the tasks. -/
theorem call_advance (h : SystemOk idle s x) {call : Call T} (ho : Admissible idle s call)
    (hs' : s.exec call = some s') :
    ∃ x', SystemOk idle s' x' ∧ Advance idle (callWakes call) x.kernel x'.kernel :=
  (call_simulates h ho hs').imp fun _ => And.right

/-- The invariant holds in every state of a run. -/
theorem Reach.systemOk {ok : System LinkMem T → Call T → Prop}
    (hok : ∀ s call, ok s call → Admissible idle s call) (h : SystemOk idle s x)
    (hs' : Reach System.exec ok s s') : ∃ x', SystemOk idle s' x' :=
  hs'.invariant (I := fun s => ∃ x, SystemOk idle s x) ⟨x, h⟩ fun _ _ _ ⟨_, hx⟩ ho hv =>
    (call_advance hx (hok _ _ ho) hv).imp fun _ => And.left

end Systems

end Eos.Analysis
