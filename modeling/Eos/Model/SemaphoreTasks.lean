import Eos.Lib.Processor
import Eos.Model.SyncSteps

/-!
# Tasks that contend for semaphores

Any number of tasks that call `eos_acquire_semaphore`, and `eos_release_semaphore` for
what they have acquired, on one processor.  The calls take the steps of core/sync.c;
wherever interrupts are enabled the processor may switch to any task.  So a task that
waits goes on at any time after its call of `_os_wait_in_queue`, whoever wakes it up,
and the kinds and orders of the wait queues do not matter.
-/

set_option autoImplicit false

namespace Eos.Model

open Eos.Lib (Program)

/-- The counts of the semaphores, the system timer and the scheduler lock. -/
structure Cpu where
  semaphore : Nat → Int
  tick : UInt32
  schedulerLock : UInt8

instance : SyncState Cpu where
  count s sem := s.semaphore sem
  setCount s sem n := { s with semaphore := Function.update s.semaphore sem (int8 n) }
  tick := Cpu.tick
  schedulerLock := Cpu.schedulerLock
  setAlarm s _ _ := some s

/-- What a task does: its own code or a call in progress. -/
inductive Activity
  | user
  | acquire (f : AcquireFrame)
  | release (f : ReleaseFrame)
  deriving DecidableEq

/-- A task with the number of times it has acquired every semaphore and not called its release. -/
structure Holder where
  held : Nat → Nat
  activity : Activity

/-- The operations of a task: call a semaphore function, or go on with the call. -/
inductive SemaphoreOp
  | acquire (sem : Nat) (timeout : Int32)
  | release (sem : Nat)
  | step

namespace Holder

/-- A task executes an operation.  It only releases what it has acquired. -/
def exec (s : Cpu) (l : Holder) : SemaphoreOp → Option (Cpu × Holder)
  | .acquire sem timeout =>
    if l.activity = .user then some (s, { l with activity := .acquire (.entry sem timeout) })
    else none
  | .release sem =>
    if l.activity = .user ∧ 0 < l.held sem then
      some (s, ⟨Function.update l.held sem (l.held sem - 1), .release (.entry sem)⟩)
    else none
  | .step =>
    match l.activity with
    | .user => none
    | .acquire f => do
      match ← f.step s with
      | (s, .goto g) | (s, .wait g) => return (s, { l with activity := .acquire g })
      | (s, .returned v) =>
        let held := if v = 0 then l.held else Function.update l.held f.sem (l.held f.sem + 1)
        return (s, ⟨held, .user⟩)
      | (_, .wake) => none
    | .release f =>
      match f.step s with
      | (s, .goto g) => some (s, { l with activity := .release g })
      | (s, _) => some (s, { l with activity := .user })

/-- How often a task is between the decrement of a successful acquire and the increment of the
matching release. -/
def units (sem : Nat) (l : Holder) : Nat :=
  l.held sem + if l.activity = .release ⟨sem, .increment⟩ then 1 else 0

end Holder

/-- The program of the tasks. -/
def semaphoreTasks (T : Type) : Program Cpu Holder T SemaphoreOp where
  exec _ o s l := l.exec s o
  preemptible s := s.schedulerLock ≠ locked
  interrupt s := { s with tick := s.tick + 1 }

end Eos.Model
