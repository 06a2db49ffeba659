import Eos.Model.Sync

/-!
# Sections under the scheduler lock

Runs in which tasks also call `eos_lock_scheduler` and `eos_restore_scheduler`
(core/sync.c:140-149).  `flags` are the values that calls of `eos_lock_scheduler` have
returned and that are not restored yet, the innermost first, so that every
`eos_restore_scheduler` matches the last `eos_lock_scheduler`.

A call of `eos_send_message` or `eos_receive_message` under the lock ends at its first
statement (core/comm.c:44-46, 85-87).  Without the lock such a call is made of calls that
are listed here anyway; what it does with the messages is modelled with the message queue.
-/

set_option autoImplicit false

namespace Eos.Model

/-- A system, and what the nested calls of `eos_lock_scheduler` have returned. -/
structure LockSystem (Q : Type → Type → Type) (T : Type) where
  system : System Q T
  flags : List UInt8

/-- A step of such a run. -/
inductive LockCall (T : Type)
  | call (c : Call T)
  /-- `eos_send_message(mq, message, timeout)`, by the semaphore `mq->putsem` -/
  | send (putsem : Nat) (timeout : Int32)
  /-- `eos_receive_message(mq, message, timeout)`, by the semaphore `mq->getsem` -/
  | receive (getsem : Nat) (timeout : Int32)
  | lockScheduler
  | restoreScheduler
  deriving DecidableEq

namespace LockSystem

variable {Q : Type → Type → Type} [NodeLists Q] {T : Type} [DecidableEq T] [Fintype T]

/-- The kernel of the system. -/
abbrev kernel (s : LockSystem Q T) : Kernel Q T := s.system.kernel

omit [NodeLists Q] [DecidableEq T] [Fintype T] in
/-- The same flags and resume points with another kernel. -/
def setKernel (s : LockSystem Q T) (k : Kernel Q T) : LockSystem Q T :=
  { s with system := { s.system with kernel := k } }

/-- A message call whose `eos_acquire_semaphore` is refused returns 0. -/
def refused (s : LockSystem Q T) (sem : Nat) (timeout : Int32) : Option (LockSystem Q T) := do
  let (r, k) ← s.kernel.eosAcquireSemaphore sem timeout
  if r = .returned 0 then some (s.setKernel k) else none

/-- The effect of a step. -/
def exec (s : LockSystem Q T) : LockCall T → Option (LockSystem Q T)
  | .call c => do return { s with system := ← s.system.exec c }
  | .send putsem timeout => s.refused putsem timeout
  | .receive getsem timeout => s.refused getsem timeout
  | .lockScheduler =>
    let (flag, k) := s.kernel.osLockScheduler
    some { s.setKernel k with flags := flag :: s.flags }
  | .restoreScheduler =>
    match s.flags with
    | [] => none
    | flag :: flags => do
      return { s.setKernel (← s.kernel.osRestoreScheduler flag) with flags := flags }

end LockSystem

end Eos.Model
