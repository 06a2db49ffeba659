import Eos.Lib.Exclusive

/-!
# The spinlock of `hal/aarch64/lock.c`

Sections between `_os_lock_sync` and `_os_unlock_sync` (core/scheduler.c), on any number of cores.
One step is one instruction of the lock; what a section does with the data it protects is a load
of the data and a store of what the core has made of it.  The memory is sequentially consistent,
as far as the lock and the data are concerned, because of `ldaxr` and `stlr`.
-/

set_option autoImplicit false

namespace Eos.Model

open Eos.Lib (Exclusive)

/-- `SPINLOCK_UNLOCKED` -/
def spinlockUnlocked : UInt32 := 0

/-- `SPINLOCK_LOCKED` -/
def spinlockLocked : UInt32 := 1

/-- What a core executes next. -/
inductive SpinPoint
  /-- `flag = hal_disable_interrupt()`, in a call of `_os_lock_sync` -/
  | idle
  /-- `ldaxr loaded, [lock]` -/
  | load
  /-- `cbnz loaded, 1f` -/
  | test
  /-- `stxr status, one, [lock]` -/
  | store
  /-- `while (loaded != 0 || status != 0)` -/
  | check
  /-- the section reads the data -/
  | read
  /-- the section writes the data -/
  | write
  /-- `stlr wzr, [lock]` -/
  | unlock
  /-- `hal_restore_interrupt(flag)` -/
  | restore
  deriving DecidableEq

/-- The variables of a core; `masked` is the interrupt mask of its `PSTATE`. -/
structure SpinCore (D : Type) where
  point : SpinPoint
  loaded : UInt32
  status : UInt32
  masked : Bool
  flag : Bool
  copy : D

/-- The lock, the data it protects, the cores, and whose sections have written the data. -/
structure SpinSystem (C D : Type) where
  lock : Exclusive C UInt32
  data : D
  core : C → SpinCore D
  log : List C

/-- A core executes its next instruction, or it loses its monitor.  What the architecture leaves
open is `ok`: whether a store-exclusive whose monitor is set has success, and whether a core
keeps its own monitor when it writes. -/
inductive SpinEvent (C : Type)
  | run (c : C) (ok : Bool)
  | clear (c : C)

namespace SpinSystem

variable {C D : Type} [DecidableEq C]

/-- The variables of one core. -/
def setCore (s : SpinSystem C D) (c : C) (core : SpinCore D) : SpinSystem C D :=
  { s with core := Function.update s.core c core }

/-- The next instruction of the core `c`, which makes `update c` of the data. -/
def run (update : C → D → D) (s : SpinSystem C D) (c : C) (ok : Bool) : SpinSystem C D :=
  let core := s.core c
  match core.point with
  | .idle => s.setCore c { core with point := .load, flag := core.masked, masked := true }
  | .load =>
    { s with lock := s.lock.load c }.setCore c { core with point := .test, loaded := s.lock.value }
  | .test => s.setCore c { core with point := if core.loaded ≠ 0 then .check else .store }
  | .store =>
    { s with lock := s.lock.store c spinlockLocked ok }.setCore c
      { core with point := .check, status := if s.lock.Succeeds c ok then 0 else 1 }
  | .check =>
    s.setCore c { core with point := if core.loaded ≠ 0 ∨ core.status ≠ 0 then .load else .read }
  | .read => s.setCore c { core with point := .write, copy := s.data }
  | .write =>
    { s with data := update c core.copy, log := s.log ++ [c] }.setCore c
      { core with point := .unlock }
  | .unlock =>
    { s with lock := s.lock.write c spinlockUnlocked ok }.setCore c { core with point := .restore }
  | .restore => s.setCore c { core with point := .idle, masked := core.flag }

/-- The lock is free and no core uses it. -/
structure Starts (s : SpinSystem C D) : Prop where
  value_eq : s.lock.value = spinlockUnlocked
  idle : ∀ c, (s.core c).point = .idle
  log_eq : s.log = []

/-- What an event does. -/
def event (update : C → D → D) (s : SpinSystem C D) : SpinEvent C → SpinSystem C D
  | .run c ok => s.run update c ok
  | .clear c => { s with lock := s.lock.clear c }

end SpinSystem

end Eos.Model
