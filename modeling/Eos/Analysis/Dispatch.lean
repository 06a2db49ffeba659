import Eos.Analysis.Runs
import Eos.Interface.Refinement

/-!
# Fixed-priority dispatch

Whenever no kernel call is in progress and the scheduler is unlocked, the current task
runs and no ready task is more urgent.  The property survives locked stretches, in which
tasks may be made ready or re-prioritised, because `_os_restore_scheduler` reschedules
(core/scheduler.c:61-67).

It fails after a task has called `_os_wait_in_queue` with the scheduler locked and then
waits once more, or is woken and waits again, before the lock is released: unlike
`eos_sleep` and `eos_acquire_semaphore`, `_os_wait_in_queue` (core/task.c:273-297) does
not look at the lock, and it links the node of a task that is already linked.
`dispatch_violated` is such a run, and `dispatch_reachable` says that these calls are
the only obstacle: the property holds in every run in which each task that calls
`_os_wait_in_queue` is `RUNNING`, or `SUSPENDED`, and so in no queue.
-/

set_option autoImplicit false

namespace Eos.Analysis

open Eos.Lib (LinkMem Reach runList)
open Eos.Model
open Eos.Interface (Rings Repr exec_refines osInit_refines)

section Property

variable {T : Type} [DecidableEq T]

/-- The current task runs and no ready task is more urgent, unless the scheduler is locked. -/
def Dispatches (k : Kernel LinkMem T) : Prop :=
  ∀ c, k.vars.currentTask = some c → k.vars.schedulerLock = unlocked →
    k.status c = .running ∧ ∀ t, k.status t = .ready → ¬k.priority t < k.priority c

/-- The operations of a run: `eos_create_task` on zeroed TCBs, the idle task is never blocked,
and the lock is restored to a value `eos_lock_scheduler` can return. -/
def DispatchOps (idle : T) (k : Kernel LinkMem T) : Op T → Prop
  | .waitInQueue _ _ => k.vars.currentTask ≠ some idle
  | .restoreScheduler v => v = locked ∨ v = unlocked
  | o => Admitted idle k.vars o

instance (idle : T) (k : Kernel LinkMem T) : DecidablePred (DispatchOps idle k)
  | .waitInQueue _ _ => inferInstanceAs (Decidable (k.vars.currentTask ≠ some idle))
  | .restoreScheduler v => inferInstanceAs (Decidable (v = locked ∨ v = unlocked))
  | .createTask task start size entry p =>
    inferInstanceAs (Decidable (Admitted idle k.vars (.createTask task start size entry p)))
  | .suspendTask task => inferInstanceAs (Decidable (Admitted idle k.vars (.suspendTask task)))
  | .sleep tick => inferInstanceAs (Decidable (Admitted idle k.vars (.sleep tick)))
  | .schedule | .changePriority _ _ | .setPeriod _ _ | .resumeTask _ | .lockScheduler
  | .wakeupFromQueue _ | .tick | .start => .isTrue trivial

/-- A task that calls `_os_wait_in_queue` is not `WAITING` or `READY`: it has not been linked
in a queue before, in the same locked stretch. -/
def WaiterUnqueued (k : Kernel LinkMem T) : Op T → Prop
  | .waitInQueue _ _ => ∀ c, k.vars.currentTask = some c → Status.unqueued (k.status c)
  | _ => True

omit [DecidableEq T] in
/-- In a state of the invariant such an operation is admitted, if it has a result. -/
theorem DispatchOps.admitted [DecidableEq T] [Fintype T] {idle : T} {k k' : Kernel LinkMem T}
    {a : Kernel Rings T} (hr : Repr k a) {o : Op T} (ho : DispatchOps idle k o)
    (hw : WaiterUnqueued k o) (hk' : k.exec o = some k') : Admitted idle a.vars o := by
  rw [← hr.vars]
  cases o with
  | waitInQueue q queueType =>
    refine ⟨ho, ?_⟩
    cases hc : k.vars.currentTask with
    | none => simp [Kernel.exec, Kernel.osWaitInQueue, hc] at hk'
    | some c => exact hw c hc
  | restoreScheduler v => trivial
  | _ => exact ho

end Property

/-! ## A run that violates it -/

section Violation

/-- Five tasks: 0 to 3 of priority 5, and 4, the idle task.  Tasks 2 and 1 wait on the queues
of two condition variables; then task 0 locks the scheduler and waits on both queues. -/
def violation : List (Op (Fin 5)) :=
  let create (t : Fin 5) : Op (Fin 5) := .createTask (some t) 4096 4096 4096 5
  [create 2, create 1, create 0, .start,
   .waitInQueue (.condition 0) 0, .waitInQueue (.condition 1) 0,
   .lockScheduler, .waitInQueue (.condition 0) 0, .waitInQueue (.condition 1) 0,
   .wakeupFromQueue (.condition 0), .wakeupFromQueue (.condition 0), create 3,
   .wakeupFromQueue (.condition 1), .restoreScheduler unlocked, .sleep 0, .sleep 0]

/-- **The dispatch property fails**: the run ends in the idle task while two tasks of priority 5
are ready, and the scheduler is unlocked. -/
theorem dispatch_violated :
    ∃ k₀ k, Kernel.osInit (T := Fin 5) 4 (fun _ => ⟨0, 0⟩) (fun _ => ⟨0⟩) = some k₀ ∧
      Reach Kernel.exec (DispatchOps 4) k₀ k ∧ ¬Dispatches k := by
  let step (k : Kernel LinkMem (Fin 5)) (o : Op (Fin 5)) : Option (Kernel LinkMem (Fin 5)) :=
    if DispatchOps 4 k o then k.exec o else none
  let final : Option (Kernel LinkMem (Fin 5)) :=
    (Kernel.osInit 4 (fun _ => ⟨0, 0⟩) fun _ => ⟨0⟩).bind fun k₀ => runList step k₀ violation
  have hrun : (final.any fun k => k.vars.currentTask = some 4 ∧
      k.vars.schedulerLock = unlocked ∧ k.status 3 = .ready ∧
        k.priority 3 < k.priority 4) = true := by
    decide +kernel
  obtain ⟨k, hk, hbad⟩ : ∃ k, final = some k ∧ _ := by
    cases hf : final with
    | none => rw [hf] at hrun; cases hrun
    | some k => exact ⟨k, rfl, of_decide_eq_true (by rw [hf] at hrun; exact hrun)⟩
  obtain ⟨k₀, hk₀, hk'⟩ := Option.bind_eq_some_iff.mp hk
  exact ⟨k₀, k, hk₀, .of_runList hk', fun h => (h 4 hbad.1 hbad.2.1).2 3 hbad.2.2.1 hbad.2.2.2⟩

end Violation

/-! ## The runs in which it holds -/

section Reachable

variable {T : Type} [DecidableEq T] [Fintype T]

/-- The dispatch property over sequences: with the scheduler unlocked, the current task is one
of smallest priority value. -/
def Urgent (a : Kernel Rings T) : Prop :=
  a.vars.schedulerLock ≠ locked → ∀ c, a.vars.currentTask = some c →
    ∀ t, a.status t = .ready → a.priority c ≤ a.priority t

omit [Fintype T] in
/-- One operation keeps the current task the most urgent one: it reschedules, or it makes no
task ready and changes no priority, or it leaves the scheduler locked. -/
theorem Outcome.urgent {a b : Kernel Rings T} {o : Op T}
    (hout : Outcome (waits o) a b) (h : Urgent a) : Urgent b := by
  intro hl c hc t ht
  cases hout with
  | quiet hcur hlock _ hready hprio =>
    rw [hprio, hprio]
    refine h (fun hal => ?_) c (hcur ▸ hc) t (hready t ht)
    rcases hlock with hb | hb
    · exact hl (hb.trans hal)
    · exact hl hb
  | dispatched m next hd =>
    rw [hd.current, Option.some.injEq] at hc
    exact hc ▸ hd.least t ht
  | held hb _ _ => exact absurd hb hl

/-- **Fixed-priority dispatch** holds in every state of every run in which each task that calls
`_os_wait_in_queue` is in no queue. -/
theorem dispatch_reachable (idle : T) (semaphore : Nat → Semaphore) (condition : Nat → Condition) :
    ∃ k₀, Kernel.osInit idle semaphore condition = some k₀ ∧
      ∀ k, Reach Kernel.exec (fun k o => DispatchOps idle k o ∧ WaiterUnqueued k o) k₀ k →
        Dispatches k := by
  obtain ⟨a₀, ha₀, hrun₀, hsl₀, -, hlock⟩ := osInit_running idle semaphore condition
  obtain ⟨k₀, hk₀, hr₀⟩ := osInit_refines idle semaphore condition a₀ ha₀
  refine ⟨k₀, hk₀, fun k hk => ?_⟩
  obtain ⟨a, hr, h, -, hurg⟩ := hk.invariant
    (I := fun k => ∃ a, Repr k a ∧ Scheduled idle a ∧ Sleeping a ∧ Urgent a)
    ⟨a₀, hr₀, hrun₀, hsl₀, fun hl => absurd hlock hl⟩
    (by
      rintro k k' o ⟨a, hr, h, hsl, hurg⟩ ⟨ho, hw⟩ hk'
      obtain ⟨b, hb, hstep⟩ := exec_sleeping h hsl (ho.admitted hr hw hk')
      obtain ⟨k'', hk'', hrep⟩ := exec_refines hr o b hb
      rw [hk', Option.some.injEq] at hk''
      exact ⟨b, hk'' ▸ hrep, hstep.scheduled, hstep.sleeping hsl, hstep.outcome.urgent hurg⟩)
  intro c hc hl
  have hla : a.vars.schedulerLock ≠ locked := by
    rw [← hr.vars, hl]
    decide
  rw [hr.vars] at hc
  obtain ⟨c', hc', hs⟩ := h.started hla
  rw [hc, Option.some.injEq] at hc'
  rw [hr.status]
  refine ⟨hc' ▸ hs, fun t ht => ?_⟩
  rw [hr.priority, hr.priority]
  exact Nat.not_lt.mpr (hurg hla c hc t (hr.status t ▸ ht))

end Reachable

end Eos.Analysis
