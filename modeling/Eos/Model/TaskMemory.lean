import Eos.Model.Sync

/-!
# The memory of a TCB

`eos_create_task` gets a TCB that the program has allocated, with any contents: an `eos_tcb_t`
(core/eos.h:241-253) embeds a list node and an alarm, which embeds another node.  `fill` puts such
contents into the memory of a kernel.
-/

set_option autoImplicit false

namespace Eos.Model

open Eos.Lib (LinkMem RingAt)

/-- The contents of an `_os_node_t` (core/eos_internal.h). -/
structure NodeMemory (T : Type) where
  prev : Option T
  next : Option T
  pnode : Option T
  orderVal : Nat

/-- The contents of an `eos_alarm_t` (core/eos.h). -/
structure AlarmMemory (T : Type) where
  timeout : UInt32
  handler : Option Handler
  arg : Option T
  node : NodeMemory T

/-- The contents of an `eos_tcb_t`, without its saved context. -/
structure TcbMemory (T : Type) where
  tcb : Tcb
  alarm : AlarmMemory T
  queueNode : NodeMemory T

/-- A TCB in zeroed memory. -/
def TcbMemory.zero {T : Type} : TcbMemory T :=
  ⟨.zero, ⟨0, none, none, ⟨none, none, none, 0⟩⟩, ⟨none, none, none, 0⟩⟩

section

variable {H T : Type} [DecidableEq T]

/-- Write the links of a node. -/
def NodeMemory.write (c : NodeMemory T) (m : LinkMem H T) (t : T) : LinkMem H T :=
  (m.setPrev t c.prev).setNext t c.next

/-- Write the fields of an alarm. -/
def AlarmMemory.write (c : AlarmMemory T) (m : Timers LinkMem T Handler T) (t : T) :
    Timers LinkMem T Handler T where
  alarmQueue := c.node.write m.alarmQueue t
  fields :=
    { m.fields with
      timeout := Function.update m.fields.timeout t c.timeout
      handler := Function.update m.fields.handler t c.handler
      arg := Function.update m.fields.arg t c.arg
      pnode := Function.update m.fields.pnode t c.node.pnode
      orderVal := Function.update m.fields.orderVal t c.node.orderVal }

namespace Kernel

/-- The kernel when the TCB of `t` has the given contents. -/
def fill (k : Kernel LinkMem T) (t : T) (c : TcbMemory T) : Kernel LinkMem T where
  queue := c.queueNode.write k.queue t
  timers := c.alarm.write k.timers t
  vars :=
    { k.vars with
      tcb := Function.update k.vars.tcb t c.tcb
      pnode := Function.update k.vars.pnode t c.queueNode.pnode
      orderVal := Function.update k.vars.orderVal t c.queueNode.orderVal }

omit [DecidableEq T] in
/-- The nodes of a TCB are linked in no list of the kernel. -/
def Unlinked (k : Kernel LinkMem T) (t : T) : Prop :=
  (∀ h xs, RingAt k.queue h xs → t ∉ xs) ∧ ∀ c xs, RingAt k.timers.alarmQueue c xs → t ∉ xs

end Kernel

namespace System

/-- The system when the TCB of `t` has the given contents. -/
def fill (s : System LinkMem T) (t : T) (c : TcbMemory T) : System LinkMem T :=
  { s with kernel := s.kernel.fill t c }

/-- A call of `eos_create_task` with its return code; the new task starts in its own code. -/
def create {Q : Type → Type → Type} [NodeLists Q] (s : System Q T) (t : T)
    (start size entry : UInt64) (p : Nat) : Option (UInt32 × System Q T) := do
  let r ← s.kernel.eosCreateTask (some t) start size entry p
  return (r.1, ⟨r.2, Function.update s.resume t .user⟩)

end System

end

end Eos.Model
