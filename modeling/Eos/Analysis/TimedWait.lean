import Eos.Analysis.SyncRuns

/-!
# Timed waits: the alarm against the release

A task that waits for a semaphore with a timeout can be woken by a release and by its
alarm.  A release does not clear `wait_queue_owner` (core/task.c:300-316), so that
`_os_wakeup_from_alarm_queue` (core/task.c:325-340) of a task that a release has made
ready unlinks its queue node through the head cell of the semaphore's wait queue.

The lists survive this exactly if the task is not the first one of its ready queue
(`timedWait_reachable`).  `timedWait_violated` is a run in which it is: the first ready
queue keeps a head without links, through which the task is then added.
-/

set_option autoImplicit false

namespace Eos.Analysis

open Eos.Lib (LinkMem RingsOk Reach runList)
open Eos.Model
open Eos.Interface (Rings Repr exec_refines osInit_refines)

/-! ## The property -/

section Property

variable {T : Type} [DecidableEq T]

/-- In a tick of `k`, `_os_wakeup_from_alarm_queue(task)` is called in state `k'`. -/
def HandlerCall (k k' : Kernel LinkMem T) (task : T) : Prop :=
  ∃ s alarm, TickState k s ∧ popAlarm s = some (alarm, k') ∧
    k'.timers.fields.handler alarm = some .osWakeupFromAlarmQueue ∧
    k'.timers.fields.arg alarm = some task

/-- A call of `_os_wakeup_from_alarm_queue` moves a waiting task from the queue it is linked in
to the end of the ready queue of its priority, and keeps the members of every queue if the
task is ready.  It follows no `NULL` link. -/
structure WakesUp (k : Kernel LinkMem T) (task : T) : Prop where
  waiting : k.status task = .waiting → ∃ b ring ring',
    k.osWakeupFromAlarmQueue (some task) = some b ∧ RingsOk k.queue ring ∧
      RingsOk b.queue ring' ∧ ∀ h, ring' h =
        if h = .ready (k.priority task) then ring h ++ [task] else (ring h).erase task
  ready : k.status task = .ready → ∃ b ring ring',
    k.osWakeupFromAlarmQueue (some task) = some b ∧ RingsOk k.queue ring ∧
      RingsOk b.queue ring' ∧ ∀ h u, u ∈ ring' h ↔ u ∈ ring h

end Property

/-! ## A run that violates it -/

section Violation

/-- The steps of runs in which tasks only acquire with a positive timeout and release. -/
def TimedSteps (idle : Fin 3) (s : System LinkMem (Fin 3)) (call : Call (Fin 3)) : Prop :=
  Admissible idle s call ∧
    match call with
    | .kernel o => o = .tick
    | .acquire _ timeout => 0 < timeout
    | .release _ | .goOn => True
    | _ => False

instance (idle : Fin 3) (s : System LinkMem (Fin 3)) : DecidablePred (TimedSteps idle s) :=
  fun call => by
    unfold TimedSteps
    cases call <;> infer_instance

/-- Task 1, of priority 3, waits for semaphore 1 until tick 1, and task 0, of priority 5, for
semaphore 0 until tick 2; task 1 times out and releases semaphore 0. -/
def violatingCalls : List (Call (Fin 3)) :=
  [.acquire 1 1, .acquire 0 2, .kernel .tick, .goOn, .release 0]

/-- Creation of the two tasks. -/
def creations : List (Op (Fin 3)) :=
  [.createTask (some 0) 4096 4096 4096 5, .createTask (some 1) 4096 4096 4096 3]

/-- **The alarm of a ready task damages the lists**: in the next tick the handler is called for
task 0, which is ready and the first one of its ready queue, and follows a `NULL` link. -/
theorem timedWait_violated :
    ∃ s₀ s k, Booted (2 : Fin 3) s₀ ∧ Reach System.exec (TimedSteps 2) s₀ s ∧
      HandlerCall s.kernel k 0 ∧ ¬WakesUp k 0 := by
  let step (s : System LinkMem (Fin 3)) (call : Call (Fin 3)) : Option (System LinkMem (Fin 3)) :=
    if TimedSteps 2 s call then s.exec call else none
  let tick (k : Kernel LinkMem (Fin 3)) : Kernel LinkMem (Fin 3) :=
    k.setTimers (incrementTick k.timers systemTimer)
  let run : Option (System LinkMem (Fin 3) × System LinkMem (Fin 3) × Fin 3 ×
      Kernel LinkMem (Fin 3)) := do
    let s₀ ← boot 2 (fun _ => ⟨0, 0⟩) (fun _ => ⟨0⟩) creations
    let s ← runList step s₀ violatingCalls
    return (s₀, s, ← popAlarm (tick s.kernel))
  have hrun : (run.any fun (_, _, t, k) => t = 0 ∧
      k.timers.fields.handler t = some .osWakeupFromAlarmQueue ∧
      k.timers.fields.arg t = some 0 ∧ k.status 0 = .ready ∧
      (k.osWakeupFromAlarmQueue (some 0)).isNone) = true := by
    decide +kernel
  obtain ⟨⟨s₀, s, t, k⟩, hsome, hk⟩ := (Option.any_eq_true _ _).mp hrun
  obtain ⟨rfl, hh, harg, hs, hnone⟩ := of_decide_eq_true hk
  simp only [run, Option.bind_eq_bind, Option.bind_eq_some_iff] at hsome
  obtain ⟨s₀', hs₀, s', hs', p, hp, hsome⟩ := hsome
  obtain ⟨rfl, rfl, rfl⟩ : s₀' = s₀ ∧ s' = s ∧ p = (0, k) := by simpa using hsome
  refine ⟨s₀', s', k, booted_of_boot hs₀, .of_runList hs', ⟨_, 0, .start, hp, hh, harg⟩,
    fun h => ?_⟩
  obtain ⟨b, -, -, hb, -⟩ := h.ready hs
  rw [hb] at hnone
  cases hnone

end Violation

/-! ## When it holds -/

section Reachable

variable {T : Type} [DecidableEq T] {idle : T}

/-- The calls of the handler in a tick of a scheduled kernel. -/
theorem wakesUp_iff {k k' : Kernel LinkMem T} {a : Kernel Rings T} (hr : Repr k a)
    (h : Scheduled idle a) {task : T} (hc : HandlerCall k k' task) :
    WakesUp k' task ↔
      (k'.status task = .ready → k'.head (.ready (k'.priority task)) ≠ some task) := by
  obtain ⟨s, alarm, hts, hpop, -, harg⟩ := hc
  obtain ⟨b, hrs, ht⟩ := hts.ticking hr h
  obtain ⟨he, hrp, -, harg'⟩ := popAlarm_repr hrs ht.alarms hpop
  obtain rfl : alarm = task := Option.some.inj (harg'.symm.trans harg)
  obtain ⟨hcons, hnp, hz, ho⟩ := popped_consistent ht.toConsistent he
  have hhead : k'.head (.ready (k'.priority alarm)) =
      (b.queue.ring (.ready (b.priority alarm))).head? := by
    rw [hrp.priority, hrp.head]
    rfl
  rw [hrp.status, hhead]
  constructor
  · intro hw hs hfst
    obtain ⟨c, ring, ring', hres, -⟩ := hw.ready (by rw [hrp.status]; exact hs)
    rw [wakeup_first_pointers hrp (hcons.mem_ready hs)
      (ho (by rw [show b.status alarm = .ready from hs]; simp))
      hfst] at hres
    cases hres
  · intro hcond
    constructor
    · intro hs
      rw [hrp.status] at hs
      obtain ⟨c, hc, -, -, -, hring⟩ := wakeup_moved hcons (by simp [hs]) hz hnp
      obtain ⟨c', hc', hrc⟩ := hrp.osWakeupFromAlarmQueue _ c hc
      refine ⟨c', _, _, hc', hrp.queue, hrc.queue, fun h' => ?_⟩
      rw [hring, hrp.priority]
    · intro hs
      rw [hrp.status] at hs
      obtain ⟨c, hc, -, -, -, -, hring⟩ := wakeup_ready_moved hcons hs
        (ho (by rw [show b.status alarm = .ready from hs]; simp)) hnp (hcond hs)
      obtain ⟨c', hc', hrc⟩ := hrp.osWakeupFromAlarmQueue _ c hc
      refine ⟨c', _, _, hc', hrp.queue, hrc.queue, fun h' u => ?_⟩
      rw [hring]
      by_cases hh : h' = .ready ((popped b alarm).priority alarm)
      · subst hh
        have hmem := hcons.mem_ready hs
        rw [Function.update_self, List.mem_append, List.mem_singleton,
          (hcons.nodup _).mem_erase_iff]
        constructor
        · rintro (hu | rfl)
          · exact hu.2
          · exact hmem
        · intro hu
          by_cases hua : u = alarm
          · exact Or.inr hua
          · exact Or.inl ⟨hua, hu⟩
      · rw [Function.update_of_ne hh]

/-- **Timed waits against releases**: in every state of every run, a call of
`_os_wakeup_from_alarm_queue` does what it should exactly if the task is not both ready and the
first one of its ready queue. -/
theorem timedWait_reachable [Fintype T] (idle : T) (semaphore : Nat → Semaphore)
    (condition : Nat → Condition) :
    ∃ k₀, Kernel.osInit idle semaphore condition = some k₀ ∧
      ∀ k₁, Reach Kernel.exec Creates k₀ k₁ → ∃ k, k₁.exec .start = some k ∧
        ∀ s, Reach System.exec (Admissible idle) ⟨k, fun _ => .user⟩ s →
          ∀ k' task, HandlerCall s.kernel k' task →
            (WakesUp k' task ↔
              ¬(k'.status task = .ready ∧
                k'.head (.ready (k'.priority task)) = some task)) := by
  obtain ⟨k₀, hk₀, hboot⟩ := boot_systemOk idle semaphore condition
  refine ⟨k₀, hk₀, fun k₁ hk₁ => ?_⟩
  obtain ⟨k, hk, x, hx⟩ := hboot k₁ hk₁
  refine ⟨k, hk, fun s hs k' task hc => ?_⟩
  obtain ⟨y, hy⟩ := Reach.systemOk (fun _ _ => id) hx hs
  rw [wakesUp_iff hy.kernel hy.scheduled hc, not_and]

end Reachable

end Eos.Analysis
