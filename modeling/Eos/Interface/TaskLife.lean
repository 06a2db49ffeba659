import Eos.Model.Kernel
import Mathlib.Data.Set.Basic
import Mathlib.Logic.Relation

/-!
# The life of a task

What the kernel is for, seen from one task.  A `TaskView` is its status, the wait queues
it is linked in and whether its alarm is pending; `LifeStep` lists the moves the kernel
makes with it.  A task is suspended, resumed, put to sleep or made to wait only by calls
that mean this task, so these moves need the leave of `ok`.

The theorems are about lives of any length: what wakes a blocked task up (`Wakeable`), and
what ends a suspension.
-/

set_option autoImplicit false

namespace Eos.Interface

open Eos.Model (Status WaitQueue)

/-- A task from outside. -/
@[ext] structure TaskView where
  status : Status
  queues : Set WaitQueue
  armed : Prop

/-- The moves that only calls for this task may make. -/
inductive LifeEvent
  /-- `eos_suspend_task`, with the alarm pending or not -/
  | suspend (armed : Prop)
  | resume
  | wait (q : WaitQueue)
  /-- `eos_sleep`, which sets the alarm or not -/
  | sleep (armed : Prop)

/-- One move. -/
inductive LifeStep (ok : LifeEvent → Prop) : TaskView → TaskView → Prop
  | create {v : TaskView} (h : v.status = .zeroed) : LifeStep ok v { v with status := .ready }
  | preempt {v : TaskView} (h : v.status = .running) : LifeStep ok v { v with status := .ready }
  | dispatch {v : TaskView} (h : v.status = .ready) : LifeStep ok v { v with status := .running }
  /-- the task is taken out of a wait queue -/
  | release {v : TaskView} {q : WaitQueue} (h : v.status = .waiting) (hq : q ∈ v.queues) :
    LifeStep ok v ⟨.ready, ∅, v.armed⟩
  /-- the handler of the alarm is called -/
  | expire {v : TaskView} (h : v.status ≠ .zeroed) (ha : v.armed) : LifeStep ok v ⟨.ready, ∅, False⟩
  /-- `eos_set_alarm` for the running task -/
  | setAlarm {v : TaskView} (armed : Prop) (h : v.status = .running) :
    LifeStep ok v { v with armed := armed }
  | wait {v : TaskView} {q : WaitQueue} (h : v.status = .running) (hok : ok (.wait q)) :
    LifeStep ok v ⟨.waiting, {q}, v.armed⟩
  | sleep {v : TaskView} {armed : Prop} (h : v.status = .running) (hok : ok (.sleep armed)) :
    LifeStep ok v ⟨.waiting, v.queues, armed⟩
  | suspend {v : TaskView} (h : v.status = .ready) (hok : ok (.suspend v.armed)) :
    LifeStep ok v { v with status := .suspended }
  | resume {v : TaskView} (h : v.status = .suspended) (hok : ok .resume) :
    LifeStep ok v { v with status := .ready }

/-- A life: any number of moves. -/
abbrev Lives (ok : LifeEvent → Prop) : TaskView → TaskView → Prop :=
  Relation.ReflTransGen (LifeStep ok)

variable {ok : LifeEvent → Prop} {v w : TaskView}

/-- **What every move keeps** holds through a life. -/
theorem Lives.invariant {I : TaskView → Prop} (hstep : ∀ v w, I v → LifeStep ok v w → I w)
    (h : Lives ok v w) (hv : I v) : I w := by
  induction h with
  | refl => exact hv
  | tail _ hmove ih => exact hstep _ _ ih hmove

/-! ## Blocked tasks -/

/-- A waiting task is linked in one of the given queues, or its alarm is pending. -/
def Wakeable (queues : Set WaitQueue) (v : TaskView) : Prop :=
  v.status = .waiting → (∃ q ∈ queues, q ∈ v.queues) ∨ v.armed

/-- **A blocked task can be woken up**, if it only waits in the given queues and every sleep
sets the alarm. -/
theorem Lives.wakeable {queues : Set WaitQueue} (hwait : ∀ q, ok (.wait q) → q ∈ queues)
    (hsleep : ∀ armed, ok (.sleep armed) → armed) (h : Lives ok v w) (hv : Wakeable queues v) :
    Wakeable queues w := by
  refine h.invariant (fun v w hv hmove => ?_) hv
  cases hmove with
  | wait hr hok => exact fun _ => .inl ⟨_, hwait _ hok, rfl⟩
  | sleep hr hok => exact fun _ => .inr (hsleep _ hok)
  | setAlarm armed hr =>
    intro hw
    rw [show v.status = _ from hw] at hr
    cases hr
  | create | preempt | dispatch | release | expire | suspend | resume => intro hw; cases hw

/-- No task waits or is suspended that was not asked to. -/
theorem Lives.runnable (hok : ∀ e, ¬ok e) (h : Lives ok v w)
    (hv : v.status ≠ .waiting ∧ v.status ≠ .suspended) :
    w.status ≠ .waiting ∧ w.status ≠ .suspended := by
  refine h.invariant (I := fun v => v.status ≠ .waiting ∧ v.status ≠ .suspended)
    (fun v w hv hmove => ?_) hv
  cases hmove with
  | setAlarm => exact hv
  | wait _ hw | sleep _ hw | suspend _ hw | resume _ hw => exact absurd hw (hok _)
  | create | preempt | dispatch | release | expire => exact ⟨nofun, nofun⟩

/-! ## Suspended tasks -/

/-- The alarm of a suspended task is not pending. -/
def Unarmed (v : TaskView) : Prop := v.status = .suspended → ¬v.armed

/-- Suspended tasks have no alarm pending, if none is suspended while its alarm is. -/
theorem Lives.unarmed (hsuspend : ∀ armed, ok (.suspend armed) → ¬armed) (h : Lives ok v w)
    (hv : Unarmed v) : Unarmed w := by
  refine h.invariant (fun v w hv hmove => ?_) hv
  cases hmove with
  | suspend hr hok => exact fun _ => hsuspend _ hok
  | setAlarm armed hr =>
    intro hw
    rw [show v.status = _ from hw] at hr
    cases hr
  | create | preempt | dispatch | release | expire | wait | sleep | resume => intro hw; cases hw

/-- **A suspension lasts** until the task is resumed, if its alarm is not pending. -/
theorem Lives.suspended (hresume : ¬ok .resume) (h : Lives ok v w)
    (hv : v.status = .suspended ∧ ¬v.armed) : w.status = .suspended ∧ ¬w.armed := by
  refine h.invariant (I := fun v => v.status = .suspended ∧ ¬v.armed) (fun v w hv hmove => ?_) hv
  obtain ⟨hs, ha⟩ := hv
  cases hmove with
  | expire _ harmed => exact absurd harmed ha
  | resume _ hok => exact absurd hok hresume
  | create h | preempt h | dispatch h | release h | setAlarm _ h | wait h | sleep h | suspend h =>
    rw [hs] at h
    cases h

end Eos.Interface
