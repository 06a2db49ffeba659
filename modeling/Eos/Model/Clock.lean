import Eos.Model.Operations

/-!
# The clock behind the system timer

The physical timer of the processor (`CNTP`) and what hal/aarch64/timer.c does with it:
`_os_init_hal` starts it, and every interrupt sets it anew before it makes a tick
(`timer_interrupt_handler`, core/timer.c:94-99).

`CNTPCT_EL0` counts up at all times, and the timer asks for an interrupt once it has come to
`CNTP_CVAL_EL0`; a write of `CNTP_TVAL_EL0` sets that to the count plus the value, a signed 32-bit
number.  The counter takes years to wrap and does not do so here.  How long an interrupt waits
until it is taken is open.
-/

set_option autoImplicit false

namespace Eos.Model

open Eos.Lib (LinkMem)

/-- The registers of the physical timer. -/
structure GenericTimer where
  /-- `CNTPCT_EL0` -/
  count : Nat
  /-- `CNTP_CVAL_EL0` -/
  compare : Int
  /-- `CNTP_CTL_EL0` -/
  control : UInt32
  deriving DecidableEq

namespace GenericTimer

/-- `write_cntp_tval_el0` (hal/aarch64/timer.c:34-38) -/
def writeCntpTval (timer : GenericTimer) (val : UInt32) : GenericTimer :=
  { timer with compare := timer.count + val.toInt32.toInt }

/-- `write_cntp_ctl_el0` (hal/aarch64/timer.c:40-44) -/
def writeCntpCtl (timer : GenericTimer) (val : UInt32) : GenericTimer :=
  { timer with control := val }

/-- The timer is enabled, its interrupt not masked, and the count has come to the compare value. -/
def Asserted (timer : GenericTimer) : Prop :=
  timer.control &&& 3 = 1 ∧ timer.compare ≤ timer.count

instance (timer : GenericTimer) : Decidable timer.Asserted := inferInstanceAs (Decidable (_ ∧ _))

end GenericTimer

/-- The value of `_reload`, for the frequency in `CNTFRQ_EL0` and `TICK_HZ`
(hal/aarch64/timer.c:55-64). -/
def reloadValue (tickHz : UInt32) (freq : UInt64) : UInt32 :=
  if tickHz = 0 then freq.toUInt32
  else
    let reload := (freq / tickHz.toUInt64).toUInt32
    if reload = 0 then 1 else reload

/-- A kernel with the timer and `_reload`. -/
structure ClockedKernel (T : Type) where
  timer : GenericTimer
  reload : UInt32
  kernel : Kernel LinkMem T

/-- What happens next: counts pass, the kernel does something other than a tick, or the interrupt
of the timer is taken. -/
inductive ClockEvent (T : Type)
  | pass (counts : Nat)
  | operation (o : Op T)
  | interrupt

namespace ClockedKernel

variable {T : Type}

/-- `_timer_rearm` (hal/aarch64/timer.c:49-52) -/
def timerRearm (s : ClockedKernel T) : ClockedKernel T :=
  { s with timer := s.timer.writeCntpTval s.reload }

/-- `_os_init_hal` as far as the timer goes (hal/aarch64/timer.c:54-75). -/
def osInitHal (s : ClockedKernel T) (tickHz : UInt32) (freq : UInt64) : ClockedKernel T :=
  let reload := reloadValue tickHz freq
  let timer := s.timer.writeCntpCtl 0
  let timer := timer.writeCntpTval reload
  { s with timer := timer.writeCntpCtl 1, reload := reload }

variable [DecidableEq T] [Fintype T]

/-- `timer_interrupt_handler` (core/timer.c:94-99) -/
def timerInterruptHandler (s : ClockedKernel T) : Option (ClockedKernel T) := do
  let s := s.timerRearm
  return { s with kernel := ← s.kernel.eosTriggerCounter }

/-- The effect of an event. -/
def event (s : ClockedKernel T) : ClockEvent T → Option (ClockedKernel T)
  | .pass counts => some { s with timer := { s.timer with count := s.timer.count + counts } }
  | .operation .tick => none
  | .operation o => do return { s with kernel := ← s.kernel.exec o }
  | .interrupt => if s.timer.Asserted then s.timerInterruptHandler else none

end ClockedKernel

end Eos.Model
