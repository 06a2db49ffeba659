import Eos.Model.SemaphoreTasks

/-!
# Tasks in a monitor

Any number of tasks that use a semaphore as a mutex and condition variables with it, on one
processor: `eos_acquire_semaphore` to enter, `eos_wait_condition` inside (core/sync.c:113-126), and
`eos_release_semaphore` to leave.  The calls take the steps of core/sync.c, and wherever interrupts
are enabled the processor may switch to any task.  So a task that has called `_os_wait_in_queue`
goes on at any time, whoever notifies it, and notifications need no steps of their own.

Inside, a task reads the data that the monitor protects and writes what it has made of them, in two
steps.  A task may lock the scheduler in its own code; it calls `eos_wait_condition` with the
scheduler unlocked, as the semaphore calls demand that are behind it.
-/

set_option autoImplicit false

namespace Eos.Model

open Eos.Lib (Program)

/-- The semaphores, the data of the monitor, and the tasks that have written them so far. -/
structure MonitorState (T D : Type) where
  cpu : Cpu
  data : D
  log : List T

/-- What a task does: its own code outside or inside the monitor, or a call in progress. -/
inductive MonitorAt
  | outside
  | inside
  | enter (f : AcquireFrame)
  | leave (f : ReleaseFrame)
  /-- in `eos_wait_condition`, in the call of `eos_release_semaphore` -/
  | waitRelease (f : ReleaseFrame)
  /-- before the call of `_os_wait_in_queue` returns -/
  | waitInQueue
  /-- in the call of `eos_acquire_semaphore` -/
  | waitAcquire (f : AcquireFrame)
  deriving DecidableEq

/-- A task and its copy of the data. -/
structure MonitorTask (D : Type) where
  point : MonitorAt
  copy : Option D

/-- The operations of a task: calls, accesses to the data, or the next step of a call. -/
inductive MonitorOp
  | enter (timeout : Int32)
  | leave
  | waitCondition
  | read
  | write
  | lockScheduler
  | restoreScheduler (schedulerState : UInt8)
  | step

namespace MonitorTask

variable {T D : Type}

/-- The next step of a call in progress. -/
def step (mutex : Nat) (s : MonitorState T D) (l : MonitorTask D) :
    Option (MonitorState T D × MonitorTask D) :=
  match l.point with
  | .outside | .inside => none
  | .enter f => do
    match ← f.step s.cpu with
    | (cpu, .goto g) | (cpu, .wait g) =>
      return ({ s with cpu := cpu }, { l with point := .enter g })
    | (cpu, .returned v) =>
      return ({ s with cpu := cpu }, { l with point := if v = 0 then .outside else .inside })
    | (_, .wake) => none
  | .leave f =>
    match f.step s.cpu with
    | (cpu, .goto g) => some ({ s with cpu := cpu }, { l with point := .leave g })
    | (cpu, _) => some ({ s with cpu := cpu }, { l with point := .outside })
  | .waitRelease f =>
    match f.step s.cpu with
    | (cpu, .goto g) => some ({ s with cpu := cpu }, { l with point := .waitRelease g })
    | (cpu, _) => some ({ s with cpu := cpu }, { l with point := .waitInQueue })
  | .waitInQueue => some (s, { l with point := .waitAcquire (.entry mutex 0) })
  | .waitAcquire f => do
    match ← f.step s.cpu with
    | (cpu, .goto g) | (cpu, .wait g) =>
      return ({ s with cpu := cpu }, { l with point := .waitAcquire g })
    -- `eos_wait_condition` returns whatever the result is
    | (cpu, .returned _) => return ({ s with cpu := cpu }, { l with point := .inside })
    | (_, .wake) => none

/-- The effect of an operation of task `t`, which makes `update t d` of the data `d`.  The task
leaves or waits only between its accesses, and restores the scheduler to a state that
`eos_lock_scheduler` returns. -/
def exec (mutex : Nat) (update : T → D → D) (t : T) (s : MonitorState T D) (l : MonitorTask D) :
    MonitorOp → Option (MonitorState T D × MonitorTask D)
  | .enter timeout =>
    if l.point = .outside then some (s, { l with point := .enter (.entry mutex timeout) }) else none
  | .leave =>
    match l.copy with
    | none =>
      if l.point = .inside then some (s, { l with point := .leave (.entry mutex) }) else none
    | some _ => none
  | .waitCondition =>
    match l.copy with
    | none =>
      if l.point = .inside ∧ s.cpu.schedulerLock = unlocked then
        some (s, { l with point := .waitRelease (.entry mutex) })
      else none
    | some _ => none
  | .read => if l.point = .inside then some (s, { l with copy := some s.data }) else none
  | .write =>
    match l.copy with
    | some d => some ({ s with data := update t d, log := s.log ++ [t] }, { l with copy := none })
    | none => none
  | .lockScheduler =>
    if l.point = .outside ∨ l.point = .inside then
      some ({ s with cpu := { s.cpu with schedulerLock := locked } }, l)
    else none
  | .restoreScheduler schedulerState =>
    if (l.point = .outside ∨ l.point = .inside) ∧
        (schedulerState = locked ∨ schedulerState = unlocked) then
      some ({ s with cpu := { s.cpu with schedulerLock := schedulerState } }, l)
    else none
  | .step => l.step mutex s

end MonitorTask

/-- The program of the tasks. -/
def monitorTasks {T D : Type} (mutex : Nat) (update : T → D → D) :
    Program (MonitorState T D) (MonitorTask D) T MonitorOp where
  exec t o s l := l.exec mutex update t s o
  preemptible s := s.cpu.schedulerLock ≠ locked
  interrupt s := { s with cpu := { s.cpu with tick := s.cpu.tick + 1 } }

end Eos.Model
