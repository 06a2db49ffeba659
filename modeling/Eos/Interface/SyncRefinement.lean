import Eos.Interface.Refinement
import Eos.Model.Sync

/-!
# The pointer code of semaphores and condition variables refines that over sequences

The parts of `core/sync.c` are put together from the operations of the kernel, so they
refine each other on the two representations of the lists, with equal results.
-/

set_option autoImplicit false

namespace Eos.Interface

open Eos.Lib (LinkMem Refines)
open Eos.Model

variable {T : Type} [DecidableEq T]

/-- Equal results and related kernels. -/
def SameResult (x : CallResult × Kernel LinkMem T) (y : CallResult × Kernel Rings T) : Prop :=
  x.1 = y.1 ∧ Repr x.2 y.2

namespace Repr

variable {k : Kernel LinkMem T} {a : Kernel Rings T}

/-- `eos_release_semaphore` (core/sync.c:78-94) -/
theorem eosReleaseSemaphore (hr : Repr k a) (s : Nat) :
    Refines Repr (k.eosReleaseSemaphore s) (a.eosReleaseSemaphore s) := by
  unfold Kernel.eosReleaseSemaphore Kernel.count
  have hr' := hr.setCount s ((a.vars.semaphore s).count + 1)
  rw [hr.vars]
  simp only [hr'.head]
  exact .ite (fun _ => .some hr') fun _ => hr'.osWakeupFromQueue _

/-- `eos_notify_condition` (core/sync.c:129-138) -/
theorem eosNotifyCondition (hr : Repr k a) (c : Nat) :
    Refines Repr (k.eosNotifyCondition c) (a.eosNotifyCondition c) :=
  hr.osWakeupFromQueue _

variable [Fintype T]

/-- Waiting for a semaphore (core/sync.c:55). -/
theorem waitSemaphore (hr : Repr k a) (s : Nat) :
    Refines Repr (k.waitSemaphore s) (a.waitSemaphore s) := by
  unfold Kernel.waitSemaphore
  rw [hr.vars]
  exact hr.osWaitInQueue _ _

/-- `eos_acquire_semaphore` (core/sync.c:25-75) -/
theorem eosAcquireSemaphore (hr : Repr k a) (s : Nat) (timeout : Int32) :
    Refines SameResult (k.eosAcquireSemaphore s timeout) (a.eosAcquireSemaphore s timeout) := by
  unfold Kernel.eosAcquireSemaphore Kernel.count
  rw [hr.vars, hr.tick]
  refine .ite (fun _ => .some ⟨rfl, hr⟩) fun _ => .ite (fun _ => .ite (fun _ => .some ⟨rfl, hr⟩)
    fun _ => .bind_same fun t _ => ?_) fun _ => .some ⟨rfl, hr.setCount _ _⟩
  exact (hr.setAlarm t _ _ _).bind fun _ _ hr => (hr.waitSemaphore s).bind fun _ _ hr =>
    .some ⟨rfl, hr⟩

/-- The loop of `eos_acquire_semaphore` (core/sync.c:58-75) -/
theorem acquireRetry (hr : Repr k a) (s : Nat) (timeout : Int32) (absTimeout : UInt32) :
    Refines SameResult (k.acquireRetry s timeout absTimeout)
      (a.acquireRetry s timeout absTimeout) := by
  unfold Kernel.acquireRetry Kernel.count
  rw [hr.vars, hr.tick]
  refine .ite (fun _ => .some ⟨rfl, hr⟩) fun _ => .ite (fun _ => ?_) fun _ =>
    .bind_same fun t _ => ?_
  · exact (hr.waitSemaphore s).bind fun _ _ hr => .some ⟨rfl, hr⟩
  · refine (hr.setAlarm t _ _ _).bind fun k' a' hr' => ?_
    simp only [hr'.vars]
    exact .some ⟨rfl, hr'.setCount _ _⟩

/-- `eos_wait_condition` behind the release of the mutex (core/sync.c:121-126) -/
theorem waitCondition (hr : Repr k a) (c m : Nat) :
    Refines SameResult (k.waitCondition c m) (a.waitCondition c m) := by
  unfold Kernel.waitCondition
  rw [hr.vars]
  refine (hr.osWaitInQueue _ _).bind fun k' a' hr' => ?_
  rw [hr'.vars]
  exact .ite (fun _ => hr'.eosAcquireSemaphore m 0) fun _ => .some ⟨rfl, hr'⟩

/-- `eos_wait_condition` (core/sync.c:113-126) -/
theorem eosWaitCondition (hr : Repr k a) (c m : Nat) :
    Refines SameResult (k.eosWaitCondition c m) (a.eosWaitCondition c m) := by
  unfold Kernel.eosWaitCondition
  rw [hr.vars]
  refine (hr.eosReleaseSemaphore m).bind fun k' a' hr' => ?_
  rw [hr'.vars]
  exact .ite (fun _ => hr'.waitCondition c m) fun _ => .some ⟨rfl, hr'⟩

/-- A call goes on at the same point in both. -/
theorem goOn (hr : Repr k a) (r : Resume) : Refines SameResult (k.goOn r) (a.goOn r) := by
  cases r with
  | user => exact .none _
  | acquire s timeout absTimeout => exact hr.acquireRetry s timeout absTimeout
  | released c m => exact hr.waitCondition c m
  | notified m => exact hr.eosAcquireSemaphore m 0

end Repr

/-- The kernels of two systems are related and their tasks go on at the same points. -/
structure SystemRepr (s : System LinkMem T) (x : System Rings T) : Prop where
  kernel : Repr s.kernel x.kernel
  resume : s.resume = x.resume

/-- **Every step of the pointer system refines the same step over sequences.** -/
theorem system_exec_refines [Fintype T] {s : System LinkMem T} {x : System Rings T}
    (hr : SystemRepr s x) (call : Call T) : Refines SystemRepr (s.exec call) (x.exec call) := by
  have hpart : ∀ c, (∀ t, Refines SameResult (s.part t c) (x.part t c)) →
      Refines SystemRepr
        (do let t ← s.kernel.vars.currentTask; return s.leave t (← s.part t c))
        (do let t ← x.kernel.vars.currentTask; return x.leave t (← x.part t c)) := by
    intro c hc
    rw [hr.kernel.vars]
    refine .bind_same fun t _ => (hc t).bind ?_
    rintro ⟨r, k⟩ ⟨r', a⟩ ⟨hrr, hka⟩
    obtain rfl : r = r' := hrr
    cases r with
    | returned v => exact .some ⟨hka, by rw [System.leave, System.leave, hr.resume]⟩
    | switched r => exact .some ⟨hka, by rw [System.leave, System.leave, hr.resume]⟩
  cases call with
  | kernel o =>
    exact (exec_refines hr.kernel o).bind fun _ _ hka => .some ⟨hka, hr.resume⟩
  | release sem =>
    exact (hr.kernel.eosReleaseSemaphore sem).bind fun _ _ hka => .some ⟨hka, hr.resume⟩
  | notifyCondition c =>
    exact (hr.kernel.eosNotifyCondition c).bind fun _ _ hka => .some ⟨hka, hr.resume⟩
  | acquire sem timeout => exact hpart _ fun _ => hr.kernel.eosAcquireSemaphore sem timeout
  | waitCondition c m => exact hpart _ fun _ => hr.kernel.eosWaitCondition c m
  | goOn =>
    refine hpart _ fun t => ?_
    show Refines _ (s.kernel.goOn (s.resume t)) (x.kernel.goOn (x.resume t))
    rw [hr.resume]
    exact hr.kernel.goOn _

end Eos.Interface
