import Eos.Model.Operations
import Mathlib.Data.Int.Basic

/-!
# Semaphores and condition variables of `core/sync.c`

A call that blocks is cut at its context switches.  Each part below runs from the
entry of the call, or from the point where the caller is resumed, up to the next switch
to another task; it either returns to the caller or leaves a `Resume`, the point at which
the call goes on.  A call of `eos_schedule` that dispatches the caller itself ends no part.

`System` is a kernel together with the resume points of its tasks, and a `Call` is one
part executed by the current task, another operation of the kernel, or a tick.
-/

set_option autoImplicit false

namespace Eos.Model

/-- Where a task goes on when it is dispatched. -/
inductive Resume
  /-- in its own code -/
  | user
  /-- in the loop of `eos_acquire_semaphore`, behind `_os_wait_in_queue` -/
  | acquire (s : Nat) (timeout : Int32) (absTimeout : UInt32)
  /-- in `eos_wait_condition`, behind `eos_release_semaphore` -/
  | released (c m : Nat)
  /-- in `eos_wait_condition`, behind `_os_wait_in_queue` -/
  | notified (m : Nat)
  deriving DecidableEq

/-- How a part of a call ends. -/
inductive CallResult
  | returned (value : UInt32)
  | switched (resume : Resume)
  deriving DecidableEq

namespace Kernel

variable {Q : Type → Type → Type} [NodeLists Q] {T : Type} [DecidableEq T] [Fintype T]

/-- `sem->count` -/
def count (k : Kernel Q T) (s : Nat) : Int := (k.vars.semaphore s).count

/-- `_os_wait_in_queue(&sem->wait_queue, sem->queue_type)` -/
def waitSemaphore (k : Kernel Q T) (s : Nat) : Option (Kernel Q T) :=
  k.osWaitInQueue (.semaphore s) (k.vars.semaphore s).queueType

/-- `eos_acquire_semaphore` from its entry (core/sync.c:25-75). -/
def eosAcquireSemaphore (k : Kernel Q T) (s : Nat) (timeout : Int32) :
    Option (CallResult × Kernel Q T) :=
  if k.vars.schedulerLock ≠ 0 then some (.returned 0, k)
  else
    let absTimeout := k.tick + timeout.toUInt32
    if k.count s ≤ 0 then
      if timeout < 0 then some (.returned 0, k)
      else do
        let current ← k.vars.currentTask
        let k ← k.setAlarm current timeout.toUInt32 (some .osWakeupFromAlarmQueue) (some current)
        let k ← k.waitSemaphore s
        return (.switched (.acquire s timeout absTimeout), k)
    else some (.returned 1, k.setCount s (k.count s - 1))

/-- `eos_acquire_semaphore` from behind the call of `_os_wait_in_queue` (core/sync.c:58-75). -/
def acquireRetry (k : Kernel Q T) (s : Nat) (timeout : Int32) (absTimeout : UInt32) :
    Option (CallResult × Kernel Q T) :=
  if timeout ≠ 0 ∧ absTimeout ≤ k.tick then some (.returned 0, k)
  else if k.count s ≤ 0 then do
    let k ← k.waitSemaphore s
    return (.switched (.acquire s timeout absTimeout), k)
  else do
    let current ← k.vars.currentTask
    let k ← k.setAlarm current 0 none none
    return (.returned 1, k.setCount s (k.count s - 1))

omit [Fintype T] in
/-- `eos_release_semaphore` (core/sync.c:78-94). -/
def eosReleaseSemaphore (k : Kernel Q T) (s : Nat) : Option (Kernel Q T) :=
  let k := k.setCount s (k.count s + 1)
  if k.head (.wait (.semaphore s)) = none then some k
  else k.osWakeupFromQueue (.semaphore s)

/-- `eos_wait_condition` from behind the call of `eos_release_semaphore`
(core/sync.c:121-126). -/
def waitCondition (k : Kernel Q T) (c m : Nat) : Option (CallResult × Kernel Q T) := do
  let k' ← k.osWaitInQueue (.condition c) (k.vars.condition c).queueType
  if k'.vars.currentTask = k.vars.currentTask then k'.eosAcquireSemaphore m 0
  else return (.switched (.notified m), k')

/-- `eos_wait_condition` from its entry (core/sync.c:113-126). -/
def eosWaitCondition (k : Kernel Q T) (c m : Nat) : Option (CallResult × Kernel Q T) := do
  let k' ← k.eosReleaseSemaphore m
  if k'.vars.currentTask = k.vars.currentTask then k'.waitCondition c m
  else return (.switched (.released c m), k')

omit [Fintype T] in
/-- `eos_notify_condition` (core/sync.c:129-138). -/
def eosNotifyCondition (k : Kernel Q T) (c : Nat) : Option (Kernel Q T) :=
  k.osWakeupFromQueue (.condition c)

/-- The current task goes on with the call it was switched away from. -/
def goOn (k : Kernel Q T) : Resume → Option (CallResult × Kernel Q T)
  | .user => none
  | .acquire s timeout absTimeout => k.acquireRetry s timeout absTimeout
  | .released c m => k.waitCondition c m
  | .notified m => k.eosAcquireSemaphore m 0

end Kernel

/-! ## The system -/

/-- A kernel and the point at which each of its tasks goes on. -/
structure System (Q : Type → Type → Type) (T : Type) where
  kernel : Kernel Q T
  resume : T → Resume

/-- What happens in one step: the current task calls the kernel or goes on with a call, or the
system timer ticks. -/
inductive Call (T : Type)
  | kernel (o : Op T)
  | acquire (s : Nat) (timeout : Int32)
  | release (s : Nat)
  | waitCondition (c m : Nat)
  | notifyCondition (c : Nat)
  | goOn
  deriving DecidableEq

namespace System

variable {Q : Type → Type → Type} [NodeLists Q] {T : Type} [DecidableEq T] [Fintype T]

/-- The result of the part of a blocking call that the current task executes. -/
def part (s : System Q T) (current : T) : Call T → Option (CallResult × Kernel Q T)
  | .acquire sem timeout => s.kernel.eosAcquireSemaphore sem timeout
  | .waitCondition c m => s.kernel.eosWaitCondition c m
  | .goOn => s.kernel.goOn (s.resume current)
  | _ => none

omit [NodeLists Q] [Fintype T] in
/-- The caller returns to its own code, or is left at a resume point. -/
def leave (s : System Q T) (caller : T) : CallResult × Kernel Q T → System Q T
  | (.returned _, k) => ⟨k, Function.update s.resume caller .user⟩
  | (.switched r, k) => ⟨k, Function.update s.resume caller r⟩

omit [NodeLists Q] [Fintype T] in
/-- Leaving a call changes resume points only. -/
@[simp] theorem leave_kernel (s : System Q T) (caller : T) (r : CallResult × Kernel Q T) :
    (s.leave caller r).kernel = r.2 := by
  obtain ⟨r | r, k⟩ := r <;> rfl

/-- The effect of a step. -/
def exec (s : System Q T) : Call T → Option (System Q T)
  | .kernel o => do return { s with kernel := ← s.kernel.exec o }
  | .release sem => do return { s with kernel := ← s.kernel.eosReleaseSemaphore sem }
  | .notifyCondition c => do return { s with kernel := ← s.kernel.eosNotifyCondition c }
  | call => do
    let caller ← s.kernel.vars.currentTask
    return s.leave caller (← s.part caller call)

/-- What a step does: a routine that returns, or a part of a call that blocks. -/
inductive Effect (s : System Q T) : Call T → System Q T → Prop
  | kernel {o : Op T} {k : Kernel Q T} (hk : s.kernel.exec o = some k) :
      Effect s (.kernel o) { s with kernel := k }
  | release {sem : Nat} {k : Kernel Q T} (hk : s.kernel.eosReleaseSemaphore sem = some k) :
      Effect s (.release sem) { s with kernel := k }
  | notify {c : Nat} {k : Kernel Q T} (hk : s.kernel.eosNotifyCondition c = some k) :
      Effect s (.notifyCondition c) { s with kernel := k }
  | part {call : Call T} {caller : T} {r : CallResult} {k : Kernel Q T}
      (hc : s.kernel.vars.currentTask = some caller) (hr : s.part caller call = some (r, k)) :
      Effect s call (s.leave caller (r, k))

/-- Every step has one of the effects. -/
theorem exec_effect {s s' : System Q T} {call : Call T} (h : s.exec call = some s') :
    Effect s call s' := by
  have hpart : (do let caller ← s.kernel.vars.currentTask
                   return s.leave caller (← s.part caller call)) = some s' → Effect s call s' := by
    intro h
    obtain ⟨caller, hc, h⟩ := Option.bind_eq_some_iff.mp h
    obtain ⟨⟨r, k⟩, hr, h⟩ := Option.bind_eq_some_iff.mp h
    cases h
    exact .part hc hr
  cases call with
  | kernel o =>
    obtain ⟨k, hk, h⟩ := Option.bind_eq_some_iff.mp h
    cases h
    exact .kernel hk
  | release sem =>
    obtain ⟨k, hk, h⟩ := Option.bind_eq_some_iff.mp h
    cases h
    exact .release hk
  | notifyCondition c =>
    obtain ⟨k, hk, h⟩ := Option.bind_eq_some_iff.mp h
    cases h
    exact .notify hk
  | acquire | waitCondition | goOn => exact hpart h

end System

end Eos.Model
