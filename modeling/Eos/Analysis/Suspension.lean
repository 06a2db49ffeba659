import Eos.Analysis.TaskLives

/-!
# Suspended tasks: the alarm against the suspension

A task that a release has woken from a timed wait is `READY` with its alarm still pending
(core/task.c:300-316).  If `eos_suspend_task` suspends it then, the alarm makes it `READY`
again without any `eos_resume_task` (`suspensionLasts_violated`).

If tasks are only suspended while their alarm is not pending, a suspension lasts
(`suspensionLasts`).
-/

set_option autoImplicit false

namespace Eos.Analysis

open Eos.Lib (LinkMem RingsOk Reach runList)
open Eos.Model
open Eos.Interface (Rings Lives Unarmed)

/-! ## The property -/

section Property

variable {T : Type} [DecidableEq T]

/-- A task is suspended, in no ready queue and not the current task. -/
def IsSuspended (k : Kernel LinkMem T) (t : T) : Prop :=
  k.status t = .suspended ∧ (∃ ring, RingsOk k.queue ring ∧ ∀ p, t ∉ ring (.ready p)) ∧
    k.vars.currentTask ≠ some t

/-- In every run from `s₀`, a suspended task stays so until `eos_resume_task` is called on it. -/
def SuspensionLasts [Fintype T] (ok : System LinkMem T → Call T → Prop) (s₀ : System LinkMem T) :
    Prop :=
  ∀ t s₁ s₂, Reach System.exec ok s₀ s₁ → s₁.kernel.status t = .suspended →
    Reach System.exec (fun s call => ok s call ∧ call ≠ .kernel (.resumeTask (some t))) s₁ s₂ →
    IsSuspended s₂.kernel t

/-- A ready task is only suspended while its alarm is in no alarm queue. -/
def SuspendsUnarmed (k : Kernel LinkMem T) : Call T → Prop
  | .kernel (.suspendTask (some t)) => k.status t = .ready → k.timers.alarmQueue.next t = none
  | _ => True

instance (k : Kernel LinkMem T) : DecidablePred (SuspendsUnarmed k)
  | .kernel (.suspendTask (some t)) =>
    inferInstanceAs (Decidable (k.status t = .ready → k.timers.alarmQueue.next t = none))
  | .kernel (.suspendTask none) | .kernel (.changePriority ..) | .kernel (.createTask ..)
  | .kernel .schedule | .kernel (.setPeriod ..) | .kernel (.resumeTask _)
  | .kernel (.sleep _) | .kernel .lockScheduler | .kernel (.restoreScheduler _)
  | .kernel (.waitInQueue ..) | .kernel (.wakeupFromQueue _) | .kernel .tick | .kernel .start
  | .acquire .. | .release _ | .waitCondition .. | .notifyCondition _ | .goOn => .isTrue trivial

end Property

/-! ## Runs -/

section Runs

variable {T : Type} [DecidableEq T] [Fintype T] {idle t : T} {s₀ s s' : System LinkMem T}
  {x : System Rings T}

omit [DecidableEq T] [Fintype T] in
/-- A suspended task as the lists have it. -/
theorem isSuspended_of_view (hx : SystemOk idle s x) (hl : s.kernel.vars.schedulerLock ≠ locked)
    (h : (view x.kernel t).status = .suspended) : IsSuspended s.kernel t := by
  have hs : x.kernel.status t = .suspended := h
  refine ⟨by rw [hx.kernel.status, hs], ⟨x.kernel.queue.ring, hx.kernel.queue, fun p hp => ?_⟩,
    fun hc => ?_⟩
  · have hr := (((hx.scheduled.placed t).ready p).mp hp).1
    rw [hs] at hr
    cases hr
  · rw [hx.kernel.vars] at hc hl
    rw [(hx.scheduled.caller hl hc).1] at hs
    cases hs

/-- **A suspension lasts** until the task is resumed, in every run in which no task is suspended
while its alarm is pending. -/
theorem suspensionLasts (h₀ : Booted idle s₀) :
    SuspensionLasts (fun s call => Admissible idle s call ∧ SuspendsUnarmed s.kernel call) s₀ := by
  intro t s₁ s₂ hs₁ hsus hs₂
  obtain ⟨x₀, hx₀, hstatus, -, hl₀⟩ := h₀.fresh
  have hfresh : ∀ t, Unarmed (view x₀.kernel t) := fun t ht => absurd ht (hstatus t).2
  obtain ⟨x₁, hx₁, hunarmed, hl₁⟩ := hs₁.invariant
    (I := fun s => ∃ x, SystemOk idle s x ∧ (∀ t, Unarmed (view x.kernel t)) ∧
      x.kernel.vars.schedulerLock = unlocked) ⟨x₀, hx₀, hfresh, hx₀.kernel.vars ▸ hl₀⟩ (by
      rintro s s' call ⟨x, hx, hu, hl⟩ ⟨hadm, hcond⟩ hs'
      obtain ⟨x', hx', hok, -⟩ := call_simulates hx hadm hs'
      have hlive := call_lives hx hadm hs' hx'
      refine ⟨x', hok, fun t => (hlive.lives t).unarmed ?_ (hu t), hlive.lock.trans hl⟩
      rintro armed ⟨rfl, hr, harmed⟩ ha
      obtain ⟨c, hc⟩ := harmed.mp ha
      rw [← hx.kernel.status] at hr
      exact hx.kernel.alarms.next_eq_none_iff.mp (hcond hr) c hc)
  rw [hx₁.kernel.status] at hsus
  obtain ⟨x₂, hx₂, hview, hl₂⟩ := hs₂.invariant
    (I := fun s => ∃ x, SystemOk idle s x ∧ ((view x.kernel t).status = .suspended ∧
      ¬(view x.kernel t).armed) ∧ x.kernel.vars.schedulerLock = unlocked)
    ⟨x₁, hx₁, ⟨hsus, hunarmed t hsus⟩, hl₁⟩ (by
      rintro s s' call ⟨x, hx, hv, hl⟩ ⟨⟨hadm, -⟩, hcall⟩ hs'
      obtain ⟨x', hx', hok, -⟩ := call_simulates hx hadm hs'
      have hlive := call_lives hx hadm hs' hx'
      exact ⟨x', hok, (hlive.lives t).suspended hcall hv, hlive.lock.trans hl⟩)
  exact isSuspended_of_view hx₂ (by rw [hx₂.kernel.vars, hl₂]; decide) hview.1

end Runs

/-! ## Two runs -/

section Examples

/-- Task 0, of priority 5, waits for semaphore 0 until tick 3; task 1, of priority 3, wakes up at
tick 1. -/
def timedWaiter (rest : List (Call (Fin 3))) : List (Call (Fin 3)) :=
  .kernel (.sleep 1) :: .acquire 0 3 :: .kernel .tick :: rest

/-- The three tasks, the idle one among them. -/
def threeTasks {T : Type} [DecidableEq T] [Fintype T] (idle t u : T) : Option (System LinkMem T) :=
  boot idle (fun _ => ⟨0, 0⟩) (fun _ => ⟨0⟩)
    [.createTask (some t) 4096 4096 4096 5, .createTask (some u) 4096 4096 4096 3]

/-- **A release and a tick end the suspension**: task 1 releases the semaphore and suspends task 0,
whose alarm makes it ready two ticks later. -/
theorem suspensionLasts_violated :
    ∃ s₀, Booted (2 : Fin 3) s₀ ∧ ¬SuspensionLasts (Admissible 2) s₀ := by
  let quiet (s : System LinkMem (Fin 3)) (call : Call (Fin 3)) :
      Option (System LinkMem (Fin 3)) :=
    if Admissible 2 s call ∧ call ≠ .kernel (.resumeTask (some 0)) then s.exec call else none
  obtain ⟨s₀, s₁, hs₀, hrun, hsus, hquiet⟩ :=
    Reach.of_decide System.exec (Admissible 2) (threeTasks (2 : Fin 3) 0 1)
      (timedWaiter [.release 0, .kernel (.suspendTask (some 0))])
      (fun _ s₁ => s₁.kernel.status 0 = .suspended ∧
        (runList quiet s₁ [.kernel .tick, .kernel .tick]).any
          (fun s₂ => s₂.kernel.status 0 = .ready) = true) (by decide +kernel)
  obtain ⟨s₂, hrun₂, hready⟩ := Reach.of_any hquiet
  refine ⟨s₀, booted_of_boot hs₀, fun h => ?_⟩
  have hlast := (h 0 s₁ s₂ hrun hsus hrun₂).1
  rw [of_decide_eq_true hready] at hlast
  cases hlast

/-- Task 1 suspends task 0 after its alarm has made it ready. -/
theorem suspensionLasts_unarmed :
    ∃ s₀ s₁ s₂ : System LinkMem (Fin 3), Booted 2 s₀ ∧ Reach System.exec (Admissible 2) s₀ s₁ ∧
      s₁.kernel.status 0 = .suspended ∧ s₂.kernel.tick = 4 ∧ IsSuspended s₂.kernel 0 := by
  let quiet (s : System LinkMem (Fin 3)) (call : Call (Fin 3)) :
      Option (System LinkMem (Fin 3)) :=
    if (Admissible 2 s call ∧ SuspendsUnarmed s.kernel call) ∧
      call ≠ .kernel (.resumeTask (some 0)) then s.exec call else none
  obtain ⟨s₀, s₁, hs₀, hrun, hsus, hquiet⟩ := Reach.of_decide System.exec
    (fun s call => Admissible 2 s call ∧ SuspendsUnarmed s.kernel call) (threeTasks (2 : Fin 3) 0 1)
    (timedWaiter [.kernel .tick, .kernel .tick, .kernel (.suspendTask (some 0))])
    (fun _ s₁ => s₁.kernel.status 0 = .suspended ∧
      (runList quiet s₁ [.kernel .tick]).any (fun s₂ => s₂.kernel.tick = 4) = true)
    (by decide +kernel)
  obtain ⟨s₂, hrun₂, htick⟩ := Reach.of_any hquiet
  exact ⟨s₀, s₁, s₂, booted_of_boot hs₀, hrun.mono fun _ _ => And.left, hsus,
    of_decide_eq_true htick, suspensionLasts (booted_of_boot hs₀) 0 s₁ s₂ hrun hsus hrun₂⟩

end Examples

end Eos.Analysis
