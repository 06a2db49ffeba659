import Eos.Model.Kernel

/-!
# The bitmap scheduler of `core/scheduler.c`

A priority `p` has bit `p & 7` of `_os_ready_table[p >> 3]`, and bit `p >> 3` of
`_os_ready_group` summarises the byte.  `_os_unmap_table` finds the lowest set bit of a
byte, so two lookups find the smallest priority value that is set.
-/

set_option autoImplicit false

namespace Eos.Model

/-- `_os_map_table` (core/scheduler.c:21-22). -/
def osMapTable (i : Nat) : BitVec 8 := 1#8 <<< i

/-- `_os_unmap_table` (core/scheduler.c:30-47). -/
def osUnmapTable : List Nat :=
  [0, 0, 1, 0, 2, 0, 1, 0, 3, 0, 1, 0, 2, 0, 1, 0,
   4, 0, 1, 0, 2, 0, 1, 0, 3, 0, 1, 0, 2, 0, 1, 0,
   5, 0, 1, 0, 2, 0, 1, 0, 3, 0, 1, 0, 2, 0, 1, 0,
   4, 0, 1, 0, 2, 0, 1, 0, 3, 0, 1, 0, 2, 0, 1, 0,
   6, 0, 1, 0, 2, 0, 1, 0, 3, 0, 1, 0, 2, 0, 1, 0,
   4, 0, 1, 0, 2, 0, 1, 0, 3, 0, 1, 0, 2, 0, 1, 0,
   5, 0, 1, 0, 2, 0, 1, 0, 3, 0, 1, 0, 2, 0, 1, 0,
   4, 0, 1, 0, 2, 0, 1, 0, 3, 0, 1, 0, 2, 0, 1, 0,
   7, 0, 1, 0, 2, 0, 1, 0, 3, 0, 1, 0, 2, 0, 1, 0,
   4, 0, 1, 0, 2, 0, 1, 0, 3, 0, 1, 0, 2, 0, 1, 0,
   5, 0, 1, 0, 2, 0, 1, 0, 3, 0, 1, 0, 2, 0, 1, 0,
   4, 0, 1, 0, 2, 0, 1, 0, 3, 0, 1, 0, 2, 0, 1, 0,
   6, 0, 1, 0, 2, 0, 1, 0, 3, 0, 1, 0, 2, 0, 1, 0,
   4, 0, 1, 0, 2, 0, 1, 0, 3, 0, 1, 0, 2, 0, 1, 0,
   5, 0, 1, 0, 2, 0, 1, 0, 3, 0, 1, 0, 2, 0, 1, 0,
   4, 0, 1, 0, 2, 0, 1, 0, 3, 0, 1, 0, 2, 0, 1, 0]

/-- `_os_unmap_table[value]` -/
def osUnmap (v : BitVec 8) : Nat := osUnmapTable.getD v.toNat 0

/-- The `int8u_t` parameter the bitmap routines take a priority as. -/
def int8u (n : Nat) : Nat := n % 256

namespace ReadyList

/-- The bitmap after `_os_init_scheduler` (core/scheduler.c:81-100). -/
def empty : ReadyList := ⟨0#8, fun _ => 0#8⟩

/-- `_os_set_ready` (core/scheduler.c:111-118). -/
def osSetReady (r : ReadyList) (priority : Nat) : ReadyList where
  group := r.group ||| osMapTable (priority >>> 3)
  table := Function.update r.table (priority >>> 3)
    (r.table (priority >>> 3) ||| osMapTable (priority &&& 7))

/-- `_os_unset_ready` (core/scheduler.c:121-129). -/
def osUnsetReady (r : ReadyList) (priority : Nat) : ReadyList :=
  let byte := r.table (priority >>> 3) &&& ~~~osMapTable (priority &&& 7)
  { table := Function.update r.table (priority >>> 3) byte
    group := if byte = 0#8 then r.group &&& ~~~osMapTable (priority >>> 3) else r.group }

/-- `_os_get_highest_priority` (core/scheduler.c:103-108). -/
def osGetHighestPriority (r : ReadyList) : Nat :=
  let y := osUnmap r.group
  (y <<< 3) + osUnmap (r.table y)

end ReadyList

namespace Kernel

variable {Q : Type → Type → Type} {T : Type} [DecidableEq T]

/-- `_os_set_ready(priority)` on the kernel's bitmap. -/
def osSetReady (k : Kernel Q T) (priority : Nat) : Kernel Q T :=
  k.setReadyList (k.vars.readyList.osSetReady (int8u priority))

/-- `_os_unset_ready(priority)` on the kernel's bitmap. -/
def osUnsetReady (k : Kernel Q T) (priority : Nat) : Kernel Q T :=
  k.setReadyList (k.vars.readyList.osUnsetReady (int8u priority))

/-- `_os_lock_scheduler`: the previous value of the lock, and the locked kernel
(core/scheduler.c:50-58). -/
def osLockScheduler (k : Kernel Q T) : UInt8 × Kernel Q T :=
  (k.vars.schedulerLock, k.setLock locked)

end Kernel

end Eos.Model
