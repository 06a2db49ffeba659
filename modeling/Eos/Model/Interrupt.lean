import Eos.Model.Context

/-!
# Interrupt dispatch of `core/interrupt.c`

The table of interrupt control blocks, for handlers `F` and arguments `P`.  The vector code
(`el1_irq_spx_handler`, hal/aarch64/entry.S:154-165) reads `GICC_IAR` into `w0` and calls
`_os_common_interrupt_handler` with it as it is.  An access outside of the table has no
result.
-/

set_option autoImplicit false

namespace Eos.Model

open Eos.Lib.AArch64 (Memory Word)

/-- `IRQ_MAX` (core/eos_internal.h) -/
def irqMax : Nat := 32

/-- `_os_icb_t` (core/interrupt.c:15-19). -/
structure Icb (F P : Type) where
  irqnum : Int8
  handler : Option F
  arg : Option P

/-- `_os_icb_table` -/
abbrev IcbTable (F P : Type) := Fin irqMax → Icb F P

variable {F P : Type}

/-- `_os_init_icb_table` (core/interrupt.c:27-37). -/
def osInitIcbTable : IcbTable F P := fun i => ⟨Int8.ofNat i, none, none⟩

/-- `&_os_icb_table[i]` for a read -/
def icbAt (table : IcbTable F P) (i : Nat) : Option (Icb F P) :=
  if h : i < irqMax then some (table ⟨i, h⟩) else none

/-- `eos_set_interrupt_handler` with its return code (core/interrupt.c:100-115). -/
def eosSetInterruptHandler (table : IcbTable F P) (irqnum : Int8) (handler : Option F)
    (arg : Option P) : Int8 × IcbTable F P :=
  if h : irqnum.toInt < 0 ∨ irqnum.toInt ≥ irqMax then (-1, table)
  else
    let i : Fin irqMax := ⟨irqnum.toInt.toNat, by omega⟩
    (0, Function.update table i { table i with handler := handler, arg := arg })

/-- `hal_ack_irq`: the values written to `GICC_EOIR` and `GICC_DIR`
(hal/aarch64/interrupt.c:82-90). -/
def halAckIrq (irq : UInt32) : UInt32 × UInt32 := (irq, irq &&& 0x3FF)

/-- A call of a handler with its arguments. -/
structure IrqCall (F P : Type) where
  handler : F
  irqnum : Int8
  arg : Option P

/-- What `_os_common_interrupt_handler` has done when it calls the handler, or returns. -/
structure IrqDelivery (F P : Type) where
  ack : UInt32 × UInt32
  memory : Memory
  call : Option (IrqCall F P)

/-- `_os_common_interrupt_handler` (core/interrupt.c:86-97), where `tcb` is the address of the field
`sp` of the current task. -/
def osCommonInterruptHandler (table : IcbTable F P) (m : Memory) (tcb : Option Word)
    (irqNum : UInt32) (savedContextPtr : Word) : Option (IrqDelivery F P) := do
  let ack := halAckIrq irqNum
  let p ← icbAt table irqNum.toNat
  match p.handler with
  | some handler =>
    return ⟨ack, saveCurrentTaskSp m tcb savedContextPtr,
      some ⟨handler, irqNum.toUInt8.toInt8, p.arg⟩⟩
  | none => return ⟨ack, m, none⟩

end Eos.Model
