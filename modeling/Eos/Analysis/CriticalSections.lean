import Eos.Analysis.TaskLives
import Eos.Model.LockedSections

/-!
# The scheduler lock as a critical section

Between `eos_lock_scheduler` and the matching `eos_restore_scheduler` the calling task is to
stay the current one, running and in no queue.  `eos_schedule` returns at once under the
lock, but `eos_wait_condition` does not ask for it: it links its caller in the wait queue,
sets `WAITING`, goes on in the same task, and is refused the mutex
(`criticalSections_violated`).

`criticalSections` is the property for runs without such calls under the lock.  A task that
locks the scheduler while an alarm of its own is still pending (after a wait whose deadline
has wrapped around) is the other exception: a tick would make it ready.
-/

set_option autoImplicit false

namespace Eos.Analysis

open Eos.Lib (LinkMem RingsOk Reach runList)
open Eos.Model
open Eos.Interface (Rings Linked Repr exec_refines)

/-! ## The property -/

section Property

variable {T : Type} [DecidableEq T]

/-- The calls of a task from its own code under the lock, and the tick. -/
def UnderLock (idle : T) (v : Vars T) : Call T → Prop
  | .kernel o => isTaskCall o = true ∧ Admitted idle v o
  | .goOn => False
  | _ => True

instance (idle : T) (v : Vars T) : DecidablePred (UnderLock idle v)
  | .kernel o => inferInstanceAs (Decidable (isTaskCall o = true ∧ Admitted idle v o))
  | .goOn => .isFalse id
  | .acquire .. | .release _ | .waitCondition .. | .notifyCondition _ => .isTrue trivial

/-- The steps of a run.  Without the lock they are those of `Admissible`; under the lock the
current task makes any call from its own code. -/
def LockAdmissible (idle : T) (s : LockSystem LinkMem T) : LockCall T → Prop
  | .call c =>
    if s.flags = [] then Admissible idle s.system c else UnderLock idle s.kernel.vars c
  | .send _ _ | .receive _ _ | .restoreScheduler => s.flags ≠ []
  | .lockScheduler => inUser s.system = true

instance (idle : T) (s : LockSystem LinkMem T) : DecidablePred (LockAdmissible idle s)
  | .call c => inferInstanceAs (Decidable
      (if s.flags = [] then Admissible idle s.system c else UnderLock idle s.kernel.vars c))
  | .send _ _ | .receive _ _ | .restoreScheduler => inferInstanceAs (Decidable (s.flags ≠ []))
  | .lockScheduler => inferInstanceAs (Decidable (inUser s.system = true))

/-- Task `A` is the current task, runs, and its queue node is in no queue; a call of
`eos_wait_condition` by it returns with the mutex. -/
structure InSection [Fintype T] (ok : LockSystem LinkMem T → LockCall T → Prop) (A : T)
    (s : LockSystem LinkMem T) : Prop where
  current : s.kernel.vars.currentTask = some A
  running : s.kernel.status A = .running
  unlinked : ∃ ring, RingsOk s.kernel.queue ring ∧ ∀ h, A ∉ ring h
  mutex : ∀ c m r k, ok s (.call (.waitCondition c m)) →
    s.kernel.eosWaitCondition c m = some (r, k) → r = .returned 1

/-- In every run from `s₀`, a running task that locks the scheduler is in its section until the
matching `eos_restore_scheduler`. -/
def CriticalSections [Fintype T] (ok : LockSystem LinkMem T → LockCall T → Prop)
    (s₀ : LockSystem LinkMem T) : Prop :=
  ∀ A s₁ s₂ s₃, Reach LockSystem.exec ok s₀ s₁ → s₁.kernel.vars.currentTask = some A →
    s₁.kernel.status A = .running → ok s₁ .lockScheduler → s₁.exec .lockScheduler = some s₂ →
    Reach LockSystem.exec (fun s c => ok s c ∧
      (c = .restoreScheduler → s₁.flags.length + 1 < s.flags.length)) s₂ s₃ →
    InSection ok A s₃

/-- No `eos_wait_condition` under the lock, and a task that locks the scheduler has no alarm
pending. -/
def KeepsRunning (s : LockSystem LinkMem T) : LockCall T → Prop
  | .call (.waitCondition _ _) => s.flags = []
  | .lockScheduler => ∀ t ∈ s.kernel.vars.currentTask, s.kernel.timers.alarmQueue.next t = none
  | _ => True

instance (s : LockSystem LinkMem T) : DecidablePred (KeepsRunning s)
  | .call (.waitCondition _ _) => inferInstanceAs (Decidable (s.flags = []))
  | .lockScheduler => inferInstanceAs (Decidable (∀ t ∈ s.kernel.vars.currentTask,
      s.kernel.timers.alarmQueue.next t = none))
  | .call (.kernel _) | .call (.acquire ..) | .call (.release _) | .call (.notifyCondition _)
  | .call .goOn | .send .. | .receive .. | .restoreScheduler => .isTrue trivial

end Property

/-! ## What the routines do under the lock -/

section Routines

variable {T : Type} {idle A t : T} {a b c : Kernel Rings T}

/-- Task `A` is still the current one, with the same status, and no alarm was set for it. -/
structure Kept (A : T) (a b : Kernel Rings T) : Prop where
  currentTask : b.vars.currentTask = a.vars.currentTask
  lock : b.vars.schedulerLock = a.vars.schedulerLock
  status : b.status A = a.status A
  pending : Pending b.timers A → Pending a.timers A

namespace Kept

/-- Nothing has changed. -/
theorem refl (A : T) (a : Kernel Rings T) : Kept A a a :=
  ⟨rfl, rfl, rfl, id⟩

/-- What two steps keep, both together keep. -/
theorem trans (h : Kept A a b) (h' : Kept A b c) : Kept A a c :=
  ⟨h'.currentTask.trans h.currentTask, h'.lock.trans h.lock, h'.status.trans h.status,
    h.pending ∘ h'.pending⟩

variable [DecidableEq T]

omit [DecidableEq T] in
/-- A routine that moves another task keeps what the section relies on. -/
theorem of_moved (h : Moved a b t) (hA : A ≠ t) : Kept A a b :=
  ⟨h.currentTask, h.lock, h.status hA, h.pending A hA⟩

/-- `eos_schedule` does nothing. -/
theorem schedule (hl : a.vars.schedulerLock = locked) (hb : a.eosSchedule = some b) : b = a :=
  Option.some.inj (hb.symm.trans (eosSchedule_locked hl))

/-- A routine that moves another task than `A`. -/
theorem moved {m : Kernel Rings T} (hl : a.vars.schedulerLock = locked) (h : Moved a m t)
    (hA : A ≠ t) (hb : m.eosSchedule = some b) : Kept A a b := by
  obtain rfl := schedule (h.lock.trans hl) hb
  exact of_moved h hA

variable [Fintype T]

/-- **The operations of `core/task.c`** leave the running task alone under the lock. -/
theorem exec (h : Consistent a) (hl : a.vars.schedulerLock = locked) (hr : a.status A = .running)
    {o : Op T} (ho : isTaskCall o = true) (ha : Admitted idle a.vars o) (hot : o ≠ .tick)
    (hb : a.exec o = some b) : Kept A a b := by
  have hne : ∀ {t : T} {st : Status}, a.status t = st → st ≠ .running → A ≠ t := by
    rintro t st hs hst rfl
    exact hst (hs.symm.trans hr)
  cases o with
  | createTask task start size entry p =>
    have hz : ∀ t ∈ task, a.vars.tcb t = .zero := by
      rintro t rfl
      exact of_decide_eq_true ha
    rcases eosCreateTask_cases h hz hb with rfl | ⟨t, m, hs, hm, hmv, -⟩
    · exact .refl A _
    · exact moved hl hmv (hne hs (by simp)) hm
  | schedule => exact schedule hl hb ▸ .refl A a
  | changePriority task p =>
    cases task with
    | none => cases hb; exact .refl A a
    | some t =>
      by_cases hp : p ≤ 63
      · obtain ⟨m, hm, hmv, hsm, -, -, htm, -⟩ := eosChangePriority_moved (t := t) h hp
        have hm' : m.eosSchedule = some b := hm.symm.trans hb
        obtain rfl := schedule (hmv.lock.trans hl) hm'
        exact ⟨hmv.currentTask, hmv.lock, hsm A, fun hpd => htm ▸ hpd⟩
      · obtain rfl : a = b := Option.some.inj ((eosChangePriority_eq_self hp).symm.trans hb)
        exact .refl A a
  | setPeriod t p =>
    cases hb
    exact ⟨rfl, rfl, Kernel.field_setTcb Tcb.status rfl A, id⟩
  | suspendTask task =>
    cases task with
    | none => cases hb; exact .refl A a
    | some t =>
      by_cases hs : a.status t = .ready
      · obtain ⟨m, hm, hmv, -⟩ := eosSuspendTask_moved h hs
        obtain rfl : m = b := Option.some.inj (hm.symm.trans hb)
        exact of_moved hmv (hne hs (by simp))
      · obtain rfl : a = b := Option.some.inj ((eosSuspendTask_eq_self hs).symm.trans hb)
        exact .refl A a
  | resumeTask task =>
    cases task with
    | none => cases hb; exact .refl A a
    | some t =>
      by_cases hs : a.status t = .suspended
      · obtain ⟨m, hm, hmv, -⟩ := eosResumeTask_moved h hs
        exact moved hl hmv (hne hs (by simp)) (hm.symm.trans hb)
      · obtain rfl : a = b := Option.some.inj ((eosResumeTask_eq_self hs).symm.trans hb)
        exact .refl A a
  | sleep tick =>
    have hsame : a.eosSleep tick = some a := by simp [Kernel.eosSleep, hl]
    obtain rfl : a = b := Option.some.inj (hsame.symm.trans hb)
    exact .refl A a
  | tick => exact absurd rfl hot
  | lockScheduler | restoreScheduler _ | waitInQueue _ _ | wakeupFromQueue _ | start => cases ho

omit [Fintype T] in
/-- `_os_wakeup_from_queue` (core/task.c:300-316) -/
theorem osWakeupFromQueue (h : Consistent a) (hl : a.vars.schedulerLock = locked)
    (hr : a.status A = .running) {q : WaitQueue} (hb : a.osWakeupFromQueue q = some b) :
    Kept A a b := by
  cases hq : a.queue.ring (.wait q) with
  | nil =>
    obtain rfl : a = b := Option.some.inj ((osWakeupFromQueue_eq_self hq).symm.trans hb)
    exact .refl A a
  | cons t rest =>
    have hw := ((h.placed t).waiting q (hq ▸ List.mem_cons_self)).1
    obtain ⟨m, hm, hmv, -⟩ := osWakeupFromQueue_moved h hq
    refine moved hl hmv (fun e => ?_) (hm.symm.trans hb)
    rw [← e, hr] at hw
    cases hw

omit [Fintype T] in
/-- `eos_release_semaphore` (core/sync.c:78-94) -/
theorem release (h : Scheduled idle a) (hl : a.vars.schedulerLock = locked)
    (hr : a.status A = .running) {s : Nat} (hb : a.eosReleaseSemaphore s = some b) :
    Kept A a b := by
  have hset : Kept A a (a.setCount s (a.count s + 1)) := ⟨rfl, rfl, rfl, id⟩
  simp only [Kernel.eosReleaseSemaphore] at hb
  split at hb
  · cases hb
    exact hset
  · exact hset.trans (osWakeupFromQueue (h.setCount s _).toConsistent hl hr hb)

/-- **A tick** leaves the running task alone, unless its own alarm is pending. -/
theorem tick {k k' : Kernel LinkMem T} (hrep : Repr k a) (h : Scheduled idle a)
    (hl : a.vars.schedulerLock = locked) (hp : ¬Pending a.timers A)
    (hk : k.eosTriggerCounter = some k') (hb : a.eosTriggerCounter = some b) : Kept A a b := by
  obtain ⟨m, hm, -⟩ := Option.bind_eq_some_iff.mp hk
  obtain ⟨m', hm', -, -, hkept⟩ := triggerAlarms_simulates (I := Kept A a)
    (fun c t d hc he hmv _ htm hkept => by
      have hpt := pending_of_expired hc.alarms he
      have hA : A ≠ t := fun e => hp (hkept.pending (e ▸ hpt))
      exact hkept.trans ⟨hmv.currentTask, hmv.lock, hmv.status hA, fun hd =>
        (hc.alarms.pending_dropAlarm.mp (htm ▸ hd)).1⟩)
    hrep h ⟨rfl, rfl, rfl, id⟩ hm
  simp only [Kernel.eosTriggerCounter, hm', Option.bind_eq_bind, Option.bind_some] at hb
  exact schedule (hkept.lock.trans hl) hb ▸ hkept

end Kept

/-- `eos_acquire_semaphore` is refused under the lock (core/sync.c:33-37). -/
theorem acquire_locked {Q : Type → Type → Type} [NodeLists Q] [DecidableEq T] [Fintype T]
    {k : Kernel Q T} (hl : k.vars.schedulerLock = locked) (s : Nat) (timeout : Int32) :
    k.eosAcquireSemaphore s timeout = some (.returned 0, k) := by
  rw [Kernel.eosAcquireSemaphore, if_pos (by rw [hl]; decide)]

end Routines

/-! ## Runs -/

section Runs

variable {T : Type} [DecidableEq T] {idle A : T} {x x' : System Rings T}

/-- Task `A` is current and runs, in no call and with no alarm pending. -/
structure Entered (A : T) (x : System Rings T) : Prop where
  current : x.kernel.vars.currentTask = some A
  running : x.kernel.status A = .running
  unarmed : ¬Pending x.kernel.timers A
  user : x.resume A = .user

omit [DecidableEq T] in
/-- A task stays inside a section. -/
theorem Entered.kept (h : Entered A x) (hk : Kept A x.kernel x'.kernel)
    (hr : x'.resume = x.resume) :
    Entered A x' :=
  ⟨hk.currentTask.trans h.current, hk.status.trans h.running, h.unarmed ∘ hk.pending,
    hr ▸ h.user⟩

/-- The nested flags and the lock fit together: every flag but the last one says `LOCKED`. -/
def Nested (flags : List UInt8) (lock : UInt8) : Prop :=
  flags = [] ∧ lock = unlocked ∨
    lock = locked ∧ ∃ n, flags = List.replicate n locked ++ [unlocked]

/-- The states of a run: the flags are nested, and a task is in its section while there are any. -/
structure LockOk (idle : T) (s : LockSystem LinkMem T) (x : System Rings T) : Prop
    extends SystemOk idle s.system x where
  nested : Nested s.flags x.kernel.vars.schedulerLock
  entered : s.flags ≠ [] → ∃ A, Entered A x

omit [DecidableEq T] in
/-- Inside a section the scheduler is locked. -/
theorem LockOk.lock_held {s : LockSystem LinkMem T} (h : LockOk idle s x) (hf : s.flags ≠ []) :
    x.kernel.vars.schedulerLock = locked :=
  h.nested.elim (fun hn => absurd hn.1 hf) And.left

variable [Fintype T] {s s' : LockSystem LinkMem T}

/-- Every call under the lock is one over sequences, keeps the invariant of the scheduler and
leaves the task of the section alone. -/
theorem locked_simulates {r r' : System LinkMem T} (h : SystemOk idle r x)
    (hl : x.kernel.vars.schedulerLock = locked) (hA : Entered A x) {call : Call T}
    (ho : UnderLock idle r.kernel.vars call) (hw : ∀ c m, call ≠ .waitCondition c m)
    (hr' : r.exec call = some r') :
    ∃ x', SystemOk idle r' x' ∧ Kept A x.kernel x'.kernel ∧ x'.resume = x.resume := by
  have hkernel : ∀ k' b, Repr k' b → Scheduled idle b → Kept A x.kernel b →
      r' = { r with kernel := k' } →
      ∃ x', SystemOk idle r' x' ∧ Kept A x.kernel x'.kernel ∧ x'.resume = x.resume := by
    rintro k' b hrep hs hkept rfl
    exact ⟨⟨b, x.resume⟩, ⟨⟨hrep, h.resume⟩, hs, h.idleUser⟩, hkept, rfl⟩
  cases call with
  | kernel o =>
    obtain ⟨k', hk', hend⟩ := Option.bind_eq_some_iff.mp hr'
    obtain ⟨hcall, ha⟩ := ho
    rw [h.kernel.vars] at ha
    by_cases hot : o = .tick
    · rw [hot] at hk'
      obtain ⟨b, hb, hrep, hadv⟩ := tick_simulates h.kernel h.scheduled hk'
      exact hkernel k' b hrep hadv.scheduled
        (Kept.tick h.kernel h.scheduled hl hA.unarmed hk' hb) (Option.some.inj hend).symm
    · obtain ⟨b, hb, hstep⟩ := exec_step h.scheduled ha hot
      obtain ⟨k'', hk'', hrep⟩ := exec_refines h.kernel o b hb
      obtain rfl : k'' = k' := Option.some.inj (hk''.symm.trans hk')
      exact hkernel k'' b hrep hstep.scheduled
        (Kept.exec h.scheduled.toConsistent hl hA.running hcall ha hot hb)
        (Option.some.inj hend).symm
  | acquire sem timeout =>
    have hlr : r.kernel.vars.schedulerLock = locked := h.kernel.vars ▸ hl
    have hcr : r.kernel.vars.currentTask = some A := h.kernel.vars ▸ hA.current
    have huser : r.resume A = .user := h.resume ▸ hA.user
    have hsame : r.exec (.acquire sem timeout) = some r := by
      simp only [System.exec, System.part, hcr, Option.bind_eq_bind, Option.bind_some,
        acquire_locked hlr]
      show some (r.leave A (.returned 0, r.kernel)) = some r
      rw [System.leave, ← huser, Function.update_eq_self]
    obtain rfl : r = r' := Option.some.inj (hsame.symm.trans hr')
    exact ⟨x, h, .refl A _, rfl⟩
  | release sem =>
    obtain ⟨k', hk', hr'⟩ := Option.bind_eq_some_iff.mp hr'
    obtain ⟨b, hb, hadv, -⟩ := h.scheduled.release_advance sem
    obtain ⟨k'', hk'', hrep⟩ := h.kernel.eosReleaseSemaphore sem b hb
    obtain rfl : k'' = k' := Option.some.inj (hk''.symm.trans hk')
    exact hkernel k'' b hrep hadv.scheduled (Kept.release h.scheduled hl hA.running hb)
      (Option.some.inj hr').symm
  | notifyCondition c =>
    obtain ⟨k', hk', hr'⟩ := Option.bind_eq_some_iff.mp hr'
    obtain ⟨b, hb, hstep, -⟩ := wakeupFromQueue_step h.scheduled (.condition c) False
    obtain ⟨k'', hk'', hrep⟩ := h.kernel.eosNotifyCondition c b hb
    obtain rfl : k'' = k' := Option.some.inj (hk''.symm.trans hk')
    exact hkernel k'' b hrep hstep.scheduled
      (Kept.osWakeupFromQueue h.scheduled.toConsistent hl hA.running hb) (Option.some.inj hr').symm
  | goOn => exact absurd ho id
  | waitCondition c m => exact absurd rfl (hw c m)

omit [Fintype T] in
/-- Locking and restoring keep the invariant of the scheduler. -/
theorem restore_simulates {r : System LinkMem T} (h : SystemOk idle r x) (flag : UInt8)
    {k' : Kernel LinkMem T} (hk' : r.kernel.osRestoreScheduler flag = some k') :
    ∃ x', SystemOk idle { r with kernel := k' } x' ∧ x'.kernel.vars.schedulerLock = flag ∧
      (flag = locked → x'.kernel = x.kernel.setLock flag) ∧ x'.resume = x.resume := by
  obtain ⟨b, hb, hsb, -, -, -, hout⟩ := Scheduled.reschedule (a := x.kernel.setLock flag)
    (h.scheduled.toConsistent.congr rfl rfl rfl rfl rfl) h.scheduled.idleRuns h.scheduled.runs
  obtain ⟨k'', hk'', hrep⟩ := h.kernel.osRestoreScheduler flag b hb
  obtain rfl : k'' = k' := Option.some.inj (hk''.symm.trans hk')
  refine ⟨⟨b, x.resume⟩, ⟨⟨hrep, h.resume⟩, hsb, h.idleUser⟩, ?_, fun hf => ?_, rfl⟩
  · rcases hout with ⟨-, rfl⟩ | ⟨-, next, hd⟩
    · rfl
    · exact hd.lock
  · rcases hout with ⟨-, rfl⟩ | ⟨hl, -⟩
    · rfl
    · exact absurd hf hl

/-- **Every step** keeps the invariant, and a task is in its section until the lock is taken from
it. -/
theorem LockOk.step (h : LockOk idle s x) {call : LockCall T} (ho : LockAdmissible idle s call)
    (hc : KeepsRunning s call) (hs' : s.exec call = some s') :
    ∃ x', LockOk idle s' x' ∧
      (s.flags ≠ [] → s'.flags ≠ [] → ∀ A, Entered A x → Entered A x') := by
  have hrefused : ∀ sem timeout, s.flags ≠ [] → s.refused sem timeout = some s' →
      ∃ x', LockOk idle s' x' ∧
        (s.flags ≠ [] → s'.flags ≠ [] → ∀ A, Entered A x → Entered A x') := by
    intro sem timeout hf hs'
    have hl : s.kernel.vars.schedulerLock = locked := h.kernel.vars ▸ h.lock_held hf
    have hsame : s.refused sem timeout = some s := by
      simp only [LockSystem.refused, acquire_locked hl, Option.bind_eq_bind, Option.bind_some]
      rfl
    obtain rfl : s = s' := Option.some.inj (hsame.symm.trans hs')
    exact ⟨x, h, fun _ _ _ => id⟩
  cases call with
  | send putsem timeout => exact hrefused putsem timeout ho hs'
  | receive getsem timeout => exact hrefused getsem timeout ho hs'
  | call c =>
    obtain ⟨r', hr', hs'⟩ := Option.bind_eq_some_iff.mp hs'
    obtain rfl := Option.some.inj hs'
    simp only [LockAdmissible] at ho
    by_cases hf : s.flags = []
    · rw [if_pos hf] at ho
      obtain ⟨x', hx', hok, -⟩ := call_simulates h.toSystemOk ho hr'
      have hlock := (call_lives h.toSystemOk ho hr' hx').lock
      refine ⟨x', ⟨hok, ?_, fun hn => absurd hf hn⟩, fun hn => absurd hf hn⟩
      rw [hlock]
      exact h.nested
    · rw [if_neg hf] at ho
      have hl := h.lock_held hf
      have hwait : ∀ v m, c ≠ .waitCondition v m := by
        rintro v m rfl
        exact hf hc
      obtain ⟨A, hA⟩ := h.entered hf
      obtain ⟨x', hok, hkept, hres⟩ := locked_simulates h.toSystemOk hl hA ho hwait hr'
      refine ⟨x', ⟨hok, by rw [hkept.lock]; exact h.nested, fun _ => ⟨A, hA.kept hkept hres⟩⟩,
        fun _ _ B hB => ?_⟩
      obtain rfl : A = B := Option.some.inj (hA.current.symm.trans hB.current)
      exact hA.kept hkept hres
  | lockScheduler =>
    obtain rfl := Option.some.inj hs'
    have hrep : SystemOk idle { s.system with kernel := s.kernel.setLock locked }
        { x with kernel := x.kernel.setLock locked } :=
      ⟨⟨h.kernel.setLock locked, h.resume⟩, ⟨h.scheduled.toConsistent.congr rfl rfl rfl rfl rfl,
        h.scheduled.idleRuns, h.scheduled.runs, fun hn => absurd rfl hn⟩, h.idleUser⟩
    refine ⟨{ x with kernel := x.kernel.setLock locked }, ⟨hrep, ?_, fun _ => ?_⟩,
      fun _ _ B hB => ⟨hB.current, hB.running, hB.unarmed, hB.user⟩⟩
    · refine .inr ⟨rfl, ?_⟩
      rcases h.nested with ⟨hf, hl⟩ | ⟨hl, n, hf⟩
      · refine ⟨0, ?_⟩
        show s.kernel.vars.schedulerLock :: s.flags = _
        rw [h.kernel.vars, hl, hf]
        rfl
      · refine ⟨n + 1, ?_⟩
        show s.kernel.vars.schedulerLock :: s.flags = _
        rw [h.kernel.vars, hl, hf, List.replicate_succ, List.cons_append]
    · by_cases hf : s.flags = []
      · have hl : x.kernel.vars.schedulerLock ≠ locked := by
          rcases h.nested with ⟨-, hl⟩ | ⟨-, n, hn⟩
          · rw [hl]; decide
          · rw [hf] at hn
            simp at hn
        obtain ⟨A, hA, hr⟩ := h.scheduled.started hl
        have hAs : s.kernel.vars.currentTask = some A := h.kernel.vars ▸ hA
        have hnext := hc A hAs
        have huser : s.system.resume A = .user := by
          have hu : (s.kernel.vars.currentTask.all fun c => s.system.resume c = .user) = true := ho
          rw [hAs] at hu
          exact of_decide_eq_true hu
        exact ⟨A, hA, hr, fun ⟨c, hp⟩ => h.kernel.alarms.next_eq_none_iff.mp hnext c hp,
          h.resume ▸ huser⟩
      · obtain ⟨A, hA⟩ := h.entered hf
        exact ⟨A, hA.current, hA.running, hA.unarmed, hA.user⟩
  | restoreScheduler =>
    cases hf : s.flags with
    | nil => exact absurd hf ho
    | cons flag flags =>
      simp only [LockSystem.exec, hf] at hs'
      obtain ⟨k', hk', hs'⟩ := Option.bind_eq_some_iff.mp hs'
      obtain rfl := Option.some.inj hs'
      obtain ⟨x', hok, hlock, hsame, hres⟩ := restore_simulates h.toSystemOk flag hk'
      obtain ⟨-, n, hn⟩ : _ ∧ ∃ n, s.flags = _ :=
        h.nested.resolve_left fun hn => by rw [hf] at hn; cases hn.1
      rw [hf] at hn
      cases n with
      | zero =>
        obtain ⟨rfl, rfl⟩ : flag = unlocked ∧ flags = [] := by simpa using hn
        exact ⟨x', ⟨hok, .inl ⟨rfl, hlock⟩, fun hn => absurd rfl hn⟩, fun _ hn => absurd rfl hn⟩
      | succ n =>
        rw [List.replicate_succ, List.cons_append] at hn
        obtain ⟨rfl, rfl⟩ := List.cons.inj hn
        have hentered : ∀ B, Entered B x → Entered B x' := by
          intro B hB
          refine hB.kept ?_ hres
          rw [hsame rfl]
          exact ⟨rfl, (h.lock_held (by simp [hf])).symm, rfl, id⟩
        obtain ⟨A, hA⟩ := h.entered (by simp [hf])
        exact ⟨x', ⟨hok, .inr ⟨hlock, n, rfl⟩, fun _ => ⟨A, hentered A hA⟩⟩,
          fun _ _ B => hentered B⟩

/-- A step that restores nothing takes no flag away. -/
theorem length_flags {call : LockCall T} (hs' : s.exec call = some s') :
    s.flags.length ≤ s'.flags.length ∨
      call = .restoreScheduler ∧ s.flags.length ≤ s'.flags.length + 1 := by
  have hrefused : ∀ sem timeout, s.refused sem timeout = some s' → s'.flags = s.flags := by
    intro sem timeout hs'
    obtain ⟨⟨r, k⟩, -, hs'⟩ := Option.bind_eq_some_iff.mp hs'
    simp only at hs'
    split at hs'
    · cases hs'
      rfl
    · cases hs'
  cases call with
  | call c =>
    obtain ⟨r, -, hs'⟩ := Option.bind_eq_some_iff.mp hs'
    cases hs'
    exact .inl le_rfl
  | send putsem timeout => exact .inl (hrefused _ _ hs' ▸ le_rfl)
  | receive getsem timeout => exact .inl (hrefused _ _ hs' ▸ le_rfl)
  | lockScheduler =>
    cases hs'
    exact .inl (Nat.le_succ _)
  | restoreScheduler =>
    refine .inr ⟨rfl, ?_⟩
    cases hf : s.flags with
    | nil => simp
    | cons flag flags =>
      simp only [LockSystem.exec, hf] at hs'
      obtain ⟨k, -, hs'⟩ := Option.bind_eq_some_iff.mp hs'
      cases hs'
      simp

/-- **The scheduler lock is a critical section** in every run in which no task calls
`eos_wait_condition` under it or takes it while an alarm of its own is pending. -/
theorem criticalSections {s₀ : LockSystem LinkMem T} (h₀ : Booted idle s₀.system)
    (hf₀ : s₀.flags = []) :
    CriticalSections (fun s c => LockAdmissible idle s c ∧ KeepsRunning s c) s₀ := by
  intro A s₁ s₂ s₃ hs₁ hA _ hlock hs₂ hs₃
  obtain ⟨x₀, hx₀, -, -, hl₀⟩ := h₀.fresh
  obtain ⟨x₁, hx₁⟩ := hs₁.invariant (I := fun s => ∃ x, LockOk idle s x)
    ⟨x₀, hx₀, .inl ⟨hf₀, hx₀.kernel.vars ▸ hl₀⟩, fun hn => absurd hf₀ hn⟩
    fun s s' c ⟨x, hx⟩ ⟨ho, hc⟩ hs' => (hx.step ho hc hs').imp fun _ => And.left
  obtain ⟨x₂, hx₂, -⟩ := hx₁.step hlock.1 hlock.2 hs₂
  obtain rfl := Option.some.inj hs₂
  obtain ⟨B, hB⟩ := hx₂.entered (by simp)
  have hBA : B = A := by
    have hcur := hx₂.kernel.vars ▸ hB.current
    exact Option.some.inj (hcur.symm.trans hA)
  subst hBA
  obtain ⟨hlen, x₃, hx₃, hB₃⟩ := hs₃.invariant
    (I := fun s => s₁.flags.length + 1 ≤ s.flags.length ∧ ∃ x, LockOk idle s x ∧ Entered B x)
    ⟨by simp, x₂, hx₂, hB⟩ (by
      rintro s s' c ⟨hlen, x, hx, hBx⟩ ⟨⟨ho, hc⟩, hrestore⟩ hs'
      have hlen' : s₁.flags.length + 1 ≤ s'.flags.length := by
        rcases length_flags hs' with hle | ⟨hcall, hle⟩
        · exact hlen.trans hle
        · have hlt := hrestore hcall
          omega
      obtain ⟨x', hx', hkeep⟩ := hx.step ho hc hs'
      refine ⟨hlen', x', hx', hkeep ?_ ?_ B hBx⟩
      · exact List.ne_nil_of_length_pos (by omega)
      · exact List.ne_nil_of_length_pos (by omega))
  have hne : s₃.flags ≠ [] := List.ne_nil_of_length_pos (by omega)
  have hfree := hx₃.scheduled.free (t := B) (by simp [hB₃.running]) (by simp [hB₃.running])
  exact ⟨hx₃.kernel.vars ▸ hB₃.current, by rw [hx₃.kernel.status, hB₃.running],
    ⟨x₃.kernel.queue.ring, hx₃.kernel.queue, fun h hmem => hfree ⟨h, hmem⟩⟩,
    fun c m r k ho => absurd ho.2 hne⟩

end Runs

/-! ## Two runs -/

section Examples

/-- Task `t` has started; semaphore 0 is a mutex. -/
def mutexOwner {T : Type} [DecidableEq T] [Fintype T] (idle t : T) :
    Option (LockSystem LinkMem T) :=
  (boot idle (fun _ => ⟨1, 0⟩) (fun _ => ⟨0⟩) [.createTask (some t) 4096 4096 4096 5]).map
    fun s => ⟨s, []⟩

/-- The example starts from `_os_init`, outside of every section. -/
theorem mutexOwner_booted {T : Type} [DecidableEq T] [Fintype T] {idle t : T}
    {s : LockSystem LinkMem T} (h : mutexOwner idle t = some s) :
    Booted idle s.system ∧ s.flags = [] := by
  obtain ⟨r, hr, rfl⟩ := Option.map_eq_some_iff.mp h
  exact ⟨booted_of_boot hr, rfl⟩

/-- Task `t` acquires the mutex, locks the scheduler and makes some calls in its section, as far as
`ok` admits them: the systems at the start, ahead of the section, at its beginning, and behind the
calls. -/
def sectionRun {T : Type} [DecidableEq T] [Fintype T] (idle t : T)
    (ok : LockSystem LinkMem T → LockCall T → Prop) [∀ s c, Decidable (ok s c)]
    (calls : List (LockCall T)) :
    Option (LockSystem LinkMem T × LockSystem LinkMem T × LockSystem LinkMem T ×
      LockSystem LinkMem T) := do
  let s₀ ← mutexOwner idle t
  let s₁ ← runList (fun s c => if ok s c then s.exec c else none) s₀ [.call (.acquire 0 0)]
  let s₂ ← (if ok s₁ .lockScheduler then s₁.exec .lockScheduler else none)
  let s₃ ← runList (fun s c =>
    if ok s c ∧ (c = .restoreScheduler → s₁.flags.length + 1 < s.flags.length) then s.exec c
    else none) s₂ calls
  return (s₀, s₁, s₂, s₃)

/-- An evaluated run of the example reaches its states. -/
theorem sectionRun_reaches {T : Type} [DecidableEq T] [Fintype T] {idle t : T}
    {ok : LockSystem LinkMem T → LockCall T → Prop} [∀ s c, Decidable (ok s c)]
    {calls : List (LockCall T)} {s₀ s₁ s₂ s₃ : LockSystem LinkMem T}
    (h : sectionRun idle t ok calls = some (s₀, s₁, s₂, s₃)) :
    (Booted idle s₀.system ∧ s₀.flags = []) ∧ Reach LockSystem.exec ok s₀ s₁ ∧
      (ok s₁ .lockScheduler ∧ s₁.exec .lockScheduler = some s₂) ∧
      Reach LockSystem.exec (fun s c => ok s c ∧
        (c = .restoreScheduler → s₁.flags.length + 1 < s.flags.length)) s₂ s₃ := by
  simp only [sectionRun, Option.bind_eq_bind, Option.bind_eq_some_iff] at h
  obtain ⟨t₀, h₀, t₁, h₁, t₂, h₂, t₃, h₃, h⟩ := h
  cases h
  refine ⟨mutexOwner_booted h₀, .of_runList h₁, ?_, .of_runList h₃⟩
  split at h₂
  · next hok => exact ⟨hok, h₂⟩
  · cases h₂

/-- **A task leaves its section** by `eos_wait_condition`: task 0 acquires the mutex, locks the
scheduler and waits for condition 0; then it waits, but is still the current task. -/
theorem criticalSections_violated :
    ∃ s₀ : LockSystem LinkMem (Fin 2), Booted 1 s₀.system ∧ s₀.flags = [] ∧
      ¬CriticalSections (LockAdmissible 1) s₀ := by
  obtain ⟨⟨s₀, s₁, s₂, s₃⟩, hsome, hs⟩ := (Option.any_eq_true _ _).mp
    (show ((sectionRun (1 : Fin 2) 0 (LockAdmissible 1) [.call (.waitCondition 0 0)]).any fun p =>
      p.2.1.kernel.vars.currentTask = some 0 ∧ p.2.1.kernel.status 0 = .running ∧
      p.2.2.2.kernel.status 0 = .waiting) = true by decide +kernel)
  obtain ⟨hcur, hrun, hwait⟩ := of_decide_eq_true hs
  obtain ⟨⟨hbooted, hnil⟩, hs₁, ⟨hok, hexec⟩, hs₃⟩ := sectionRun_reaches hsome
  refine ⟨s₀, hbooted, hnil, fun h => ?_⟩
  have hlast := (h 0 s₁ s₂ s₃ hs₁ hcur hrun hok hexec hs₃).running
  rw [hwait] at hlast
  cases hlast

/-- What task 0 may do in its section: release the mutex, be interrupted by a tick, lock again and
send a message. -/
def sectionCalls : List (LockCall (Fin 2)) :=
  [.call (.release 0), .call (.kernel .tick), .lockScheduler, .send 1 0, .restoreScheduler]

/-- Task 0 is in its section after such calls. -/
theorem criticalSections_nested :
    ∃ s₀ s₃ : LockSystem LinkMem (Fin 2), Booted 1 s₀.system ∧ s₃.kernel.tick = 1 ∧
      s₃.flags = [unlocked] ∧
      InSection (fun s c => LockAdmissible 1 s c ∧ KeepsRunning s c) 0 s₃ := by
  obtain ⟨⟨s₀, s₁, s₂, s₃⟩, hsome, hs⟩ := (Option.any_eq_true _ _).mp
    (show ((sectionRun (1 : Fin 2) 0 (fun s c => LockAdmissible 1 s c ∧ KeepsRunning s c)
      sectionCalls).any fun p =>
        p.2.1.kernel.vars.currentTask = some 0 ∧ p.2.1.kernel.status 0 = .running ∧
        p.2.2.2.kernel.tick = 1 ∧ p.2.2.2.flags = [unlocked]) = true by decide +kernel)
  obtain ⟨hcur, hrun, htick, hlast⟩ := of_decide_eq_true hs
  obtain ⟨⟨hbooted, hnil⟩, hs₁, ⟨hok, hexec⟩, hs₃⟩ := sectionRun_reaches hsome
  exact ⟨s₀, s₃, hbooted, htick, hlast,
    criticalSections hbooted hnil 0 s₁ s₂ s₃ hs₁ hcur hrun hok hexec hs₃⟩

end Examples

end Eos.Analysis
