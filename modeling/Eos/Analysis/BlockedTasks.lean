import Eos.Analysis.ConditionVariable
import Eos.Analysis.PointerRuns
import Eos.Analysis.TaskLives

/-!
# Blocked tasks: what can wake them up

A task that has gone to the `WAITING` state is linked in the wait queue of a semaphore or
has its alarm pending, unless it is an aperiodic task that has called `eos_sleep(0)`: for
such a task `eos_sleep` passes the timeout 0 on to `eos_set_alarm`, which sets no alarm
then, and the task sleeps forever (`canWake_violated`).

`canWake` is the property for all runs of the semaphore, sleep and timer calls without
such a call, in which no tick finds an alarm of a ready task due whose handler would take
that task out of the wrong queue.
-/

set_option autoImplicit false

namespace Eos.Analysis

open Eos.Lib (LinkMem RingsOk Reach)
open Eos.Model
open Eos.Interface (Rings Lives Wakeable)

/-! ## The property -/

section Property

variable {T : Type} [DecidableEq T]

/-- The alarm of a task is in the alarm queue of the system timer. -/
def AlarmQueued (k : Kernel LinkMem T) (t : T) : Prop :=
  ∃ ring, RingsOk k.timers.alarmQueue ring ∧ t ∈ ring systemTimer

/-- Every waiting task is in the wait queue of a semaphore, or its alarm is pending. -/
def CanWake (k : Kernel LinkMem T) : Prop :=
  ∀ t, k.status t = .waiting → (∃ s, Queued k (.semaphore s) t) ∨ AlarmQueued k t

/-- The calls of a run: `eos_set_period`, `eos_sleep`, `eos_acquire_semaphore`,
`eos_release_semaphore` and ticks. -/
def isSleepCall : Call T → Bool
  | .kernel (.setPeriod ..) | .kernel (.sleep _) | .kernel .tick | .acquire .. | .release _
  | .goOn => true
  | _ => false

/-- An aperiodic task does not call `eos_sleep(0)`. -/
def SleepsPeriodic (k : Kernel LinkMem T) (call : Call T) : Prop :=
  call = .kernel (.sleep 0) → ∀ t ∈ k.vars.currentTask, (k.vars.tcb t).period ≠ 0

instance (k : Kernel LinkMem T) : DecidablePred (SleepsPeriodic k) :=
  fun call => inferInstanceAs (Decidable (call = .kernel (.sleep 0) →
    ∀ t ∈ k.vars.currentTask, (k.vars.tcb t).period ≠ 0))

end Property

/-! ## Runs -/

section Runs

variable {T : Type} [DecidableEq T] {idle : T}

/-- The task waits for a semaphore, if it waits in a call. -/
def inSemaphore : Resume → Bool
  | .user | .acquire .. => true
  | _ => false

variable [Fintype T]

omit [DecidableEq T] [Fintype T] in
/-- A call that is left at a point in `eos_acquire_semaphore`, or has returned. -/
theorem leave_resume [DecidableEq T] {Q : Type → Type → Type} {x : System Q T} {t : T}
    {r : CallResult}
    {k : Kernel Q T} (hr : ∀ u, inSemaphore (x.resume u))
    (hres : ∀ resume, r = .switched resume → inSemaphore resume) (u : T) :
    inSemaphore ((x.leave t (r, k)).resume u) := by
  cases r with
  | returned v =>
    by_cases hu : u = t
    · simp [System.leave, hu, inSemaphore]
    · simp [System.leave, hu, hr u]
  | switched resume =>
    by_cases hu : u = t
    · simp [System.leave, hu, hres resume rfl]
    · simp [System.leave, hu, hr u]

/-- A part of `eos_acquire_semaphore` leaves its caller in the loop, if anywhere. -/
theorem acquire_resume {a b : Kernel Rings T} {s : Nat} {timeout : Int32} {resume : Resume}
    (hb : a.eosAcquireSemaphore s timeout = some (.switched resume, b)) : inSemaphore resume := by
  unfold Kernel.eosAcquireSemaphore at hb
  split at hb
  · cases hb
  simp only at hb
  split at hb
  · split at hb
    · cases hb
    · obtain ⟨t, -, hb⟩ := Option.bind_eq_some_iff.mp hb
      obtain ⟨c, -, hb⟩ := Option.bind_eq_some_iff.mp hb
      obtain ⟨d, -, hb⟩ := Option.bind_eq_some_iff.mp hb
      cases hb
      rfl
  · cases hb

/-- A retry that blocks again does so in `eos_acquire_semaphore`. -/
theorem retry_resume {a b : Kernel Rings T} {s : Nat} {timeout : Int32} {absTimeout : UInt32}
    {resume : Resume} (hb : a.acquireRetry s timeout absTimeout = some (.switched resume, b)) :
    inSemaphore resume := by
  unfold Kernel.acquireRetry at hb
  split at hb
  · cases hb
  split at hb
  · obtain ⟨c, -, hb⟩ := Option.bind_eq_some_iff.mp hb
    cases hb
    rfl
  · obtain ⟨t, -, hb⟩ := Option.bind_eq_some_iff.mp hb
    obtain ⟨c, -, hb⟩ := Option.bind_eq_some_iff.mp hb
    cases hb

/-- In these runs tasks only wait for semaphores. -/
theorem inSemaphore_step {x x' : System Rings T} (hr : ∀ u, inSemaphore (x.resume u))
    {call : Call T} (hcall : isSleepCall call) (hx' : x.exec call = some x') (u : T) :
    inSemaphore (x'.resume u) := by
  cases System.exec_effect hx' with
  | kernel | release => exact hr u
  | notify => cases hcall
  | @part _ t r b hc hb =>
    refine leave_resume hr (fun resume he => ?_) u
    cases call with
    | acquire s timeout => exact acquire_resume (he ▸ hb)
    | goOn =>
      have ht := hr t
      simp only [System.part] at hb
      cases hres : x.resume t with
      | user =>
        rw [hres] at hb
        cases hb
      | acquire s timeout absTimeout =>
        rw [hres, he] at hb
        exact retry_resume hb
      | released c m =>
        rw [hres] at ht
        cases ht
      | notified m =>
        rw [hres] at ht
        cases ht
    | waitCondition c m => cases hcall
    | kernel | release | notifyCondition => cases hb

/-- The wait queues of the semaphores. -/
def semaphoreQueues : Set WaitQueue := { q | ∃ s, q = .semaphore s }

variable {s₀ s : System LinkMem T} {x x' : System Rings T}

/-- **A blocked task can be woken up**, in every state of a run in which no aperiodic task calls
`eos_sleep(0)` and ticks find the due alarms of ready tasks in order; and every further such step
has a result. -/
theorem canWake (h₀ : Booted idle s₀)
    (hs : Reach System.exec (fun s call => Admissible idle s call ∧ isSleepCall call ∧
      TicksInOrder s.kernel call ∧ SleepsPeriodic s.kernel call) s₀ s) :
    CanWake s.kernel ∧ ∀ call, Admissible idle s call →
      call = .kernel .tick ∨ TaskCall s call → TicksInOrder s.kernel call →
        ∃ s', s.exec call = some s' := by
  obtain ⟨x₀, hx₀, hstatus, huser, -⟩ := h₀.fresh
  have hfresh : ∀ t, Wakeable semaphoreQueues (view x₀.kernel t) :=
    fun t ht => absurd ht (hstatus t).1
  obtain ⟨x, hx, hw, -⟩ := hs.invariant (I := fun s => ∃ x, SystemOk idle s x ∧
      (∀ t, Wakeable semaphoreQueues (view x.kernel t)) ∧ ∀ t, inSemaphore (x.resume t))
    ⟨x₀, hx₀, hfresh, fun t => by rw [huser]; rfl⟩ (by
    rintro s s' call ⟨x, hx, hw, hr⟩ ⟨hadm, hcall, -, hsleep⟩ hs'
    obtain ⟨x', hx', hok, -⟩ := call_simulates hx hadm hs'
    refine ⟨x', hok, fun t => ?_, inSemaphore_step hr hcall hx'⟩
    apply ((call_lives hx hadm hs' hx').lives t).wakeable ?_ ?_ (hw t)
    · intro q hq
      have ht := hr t
      cases call with
      | acquire sem timeout => exact ⟨sem, (Option.some.inj hq).symm⟩
      | goOn =>
        simp only [Permits, waitsFor] at hq
        cases hres : x.resume t with
        | user => simp [hres] at hq
        | acquire sem timeout absTimeout => exact ⟨sem, by simpa [hres] using hq.symm⟩
        | released c m => rw [hres] at ht; cases ht
        | notified m => rw [hres] at ht; cases ht
      | waitCondition c m => cases hcall
      | kernel | release | notifyCondition => cases hq
    · rintro armed ⟨tick, rfl, hc, ha⟩
      refine ha.resolve_right ?_
      rintro ⟨h0, hper⟩
      rw [← hx.kernel.vars] at hc hper
      exact hsleep (by rw [h0]) t hc hper)
  refine ⟨fun t ht => ?_, fun call => call_total hx⟩
  rw [hx.kernel.status] at ht
  rcases hw t ht with ⟨-, ⟨sem, rfl⟩, hq⟩ | hp
  · exact .inl ⟨sem, x.kernel.queue.ring, hx.kernel.queue, hq⟩
  · exact .inr ⟨x.kernel.timers.alarmQueue.ring, hx.kernel.alarms,
      hx.scheduled.alarms.pending_iff.mp hp⟩

end Runs

/-! ## Two runs -/

section Examples

/-- One task besides the idle one has started. -/
def sleeper {T : Type} [DecidableEq T] [Fintype T] (idle t : T) : Option (System LinkMem T) :=
  boot idle (fun _ => ⟨0, 0⟩) (fun _ => ⟨0⟩) [.createTask (some t) 4096 4096 4096 5]

/-- A task of period 10 that sleeps until its next period has its alarm pending, and the next tick
has a result. -/
theorem canWake_periodic :
    ∃ s₀ s, Booted (1 : Fin 2) s₀ ∧ Reach System.exec (Admissible 1) s₀ s ∧
      s.kernel.status 0 = .waiting ∧ s.kernel.tick = 1 ∧ CanWake s.kernel ∧
      ∃ s', s.exec (.kernel .tick) = some s' := by
  obtain ⟨s₀, s, hs₀, hrun, hwait, htick, hadm, hdue⟩ := Reach.of_decide System.exec
    (fun s call => Admissible 1 s call ∧ isSleepCall call ∧ TicksInOrder s.kernel call ∧
      SleepsPeriodic s.kernel call)
    (sleeper (1 : Fin 2) 0) [.kernel (.setPeriod 0 10), .kernel (.sleep 0), .kernel .tick]
    (fun _ s => s.kernel.status 0 = .waiting ∧ s.kernel.tick = 1 ∧
      Admissible 1 s (.kernel .tick) ∧ TicksInOrder s.kernel (.kernel .tick)) (by decide +kernel)
  obtain ⟨hwake, hnext⟩ := canWake (booted_of_boot hs₀) hrun
  exact ⟨s₀, s, booted_of_boot hs₀, hrun.mono fun _ _ => And.left, hwait, htick, hwake,
    hnext _ hadm (.inl rfl) hdue⟩

/-- **An aperiodic task sleeps forever** after `eos_sleep(0)`: it waits, and its nodes are linked
nowhere. -/
theorem canWake_violated :
    ∃ s₀ s, Booted (1 : Fin 2) s₀ ∧
      Reach System.exec (fun s call => Admissible 1 s call ∧ isSleepCall call) s₀ s ∧
      ¬CanWake s.kernel := by
  obtain ⟨s₀, s, hs₀, hrun, hwait, hnext, halarm⟩ := Reach.of_decide System.exec
    (fun s call => Admissible 1 s call ∧ isSleepCall call) (sleeper (1 : Fin 2) 0)
    [.kernel (.sleep 0)]
    (fun _ s => s.kernel.status 0 = .waiting ∧ s.kernel.queue.next 0 = none ∧
      s.kernel.timers.alarmQueue.next 0 = none) (by decide +kernel)
  refine ⟨s₀, s, booted_of_boot hs₀, hrun, fun h => ?_⟩
  rcases h 0 hwait with ⟨sem, ring, hok, hmem⟩ | ⟨ring, hok, hmem⟩
  · exact hok.next_eq_none_iff.mp hnext _ hmem
  · exact hok.next_eq_none_iff.mp halarm _ hmem

end Examples

end Eos.Analysis
