import Eos.Model.Interrupt

/-!
# Interrupt dispatch

The value of `GICC_IAR` holds an interrupt id in its low ten bits and, for a software
generated interrupt, the number of the source CPU above them.  It reaches
`_os_icb_table` unmasked and unchecked, so dispatch is exact for the values below
`IRQ_MAX` and leaves the table for all others, such as the spurious id 1023.
-/

set_option autoImplicit false

namespace Eos.Analysis

open Eos.Lib.AArch64 (Memory Word)
open Eos.Model

/-- The arguments of a call of `eos_set_interrupt_handler`. -/
structure Registration (F P : Type) where
  irqnum : Int8
  handler : Option F
  arg : Option P

variable {F P : Type}

/-- The table after a sequence of registrations. -/
def icbTable (calls : List (Registration F P)) : IcbTable F P :=
  calls.foldl (fun table c => (eosSetInterruptHandler table c.irqnum c.handler c.arg).2)
    osInitIcbTable

/-- The handler last registered for an interrupt, with its argument, unless it was unregistered. -/
def registered (calls : List (Registration F P)) (irq : Nat) : Option (F × Option P) := do
  let c ← calls.reverse.find? fun c => c.irqnum.toInt = (irq : Int)
  return (← c.handler, c.arg)

/-- The interrupt id in a value of `GICC_IAR`. -/
def interruptId (iar : UInt32) : Nat := (iar &&& 0x3FF).toNat

/-- The call that is due for a value of `GICC_IAR`. -/
def dueCall (calls : List (Registration F P)) (iar : UInt32) : Option (IrqCall F P) :=
  if interruptId iar < irqMax then do
    let (handler, arg) ← registered calls (interruptId iar)
    return ⟨handler, Int8.ofNat (interruptId iar), arg⟩
  else none

/-- **Dispatch is in bounds and exact** for a value of `GICC_IAR`: the table is not left, and
exactly the due handler is called. -/
def DispatchExact (calls : List (Registration F P)) (iar : UInt32) : Prop :=
  ∀ (m : Memory) (tcb : Option Word) (sp : Word), ∃ d,
    osCommonInterruptHandler (icbTable calls) m tcb iar sp = some d ∧ d.call = dueCall calls iar

/-- The table holds what was registered last. -/
theorem icbTable_registered (calls : List (Registration F P)) (i : Fin irqMax) :
    (do return (← (icbTable calls i).handler, (icbTable calls i).arg)) = registered calls i := by
  induction calls using List.reverseRecOn with
  | nil => rfl
  | append_singleton calls c ih =>
    have htable : icbTable (calls ++ [c]) =
        (eosSetInterruptHandler (icbTable calls) c.irqnum c.handler c.arg).2 := by
      rw [icbTable, List.foldl_append]
      rfl
    rw [htable]
    unfold registered at ih ⊢
    rw [List.reverse_append, List.reverse_singleton, List.singleton_append]
    unfold eosSetInterruptHandler
    split
    · next hinvalid =>
      have hne : c.irqnum.toInt ≠ i := by
        have := i.isLt
        omega
      rw [List.find?_cons_of_neg (by simpa using hne)]
      exact ih
    · next hvalid =>
      by_cases hi : c.irqnum.toInt = i
      · have hself : (⟨c.irqnum.toInt.toNat, by omega⟩ : Fin irqMax) = i := Fin.ext (by simp [hi])
        rw [List.find?_cons_of_pos (by simpa using hi)]
        simp only [hself, Function.update_self]
        rfl
      · have hne : i ≠ ⟨c.irqnum.toInt.toNat, by omega⟩ := by
          intro e
          have := congrArg Fin.val e
          simp only at this
          omega
        rw [List.find?_cons_of_neg (by simpa using hi)]
        simp only [Function.update_of_ne hne]
        exact ih

/-- A value below `IRQ_MAX` is its own interrupt id. -/
theorem interruptId_of_lt {iar : UInt32} (h : iar.toNat < irqMax) :
    interruptId iar = iar.toNat := by
  unfold interruptId irqMax at *
  rw [UInt32.toNat_and, show (0x3FF : UInt32).toNat = 2 ^ 10 - 1 from rfl,
    Nat.and_two_pow_sub_one_eq_mod]
  omega

/-- A value from `IRQ_MAX` on indexes outside of the table. -/
theorem DispatchExact.lt {calls : List (Registration F P)} {iar : UInt32}
    (h : DispatchExact calls iar) : iar.toNat < irqMax := by
  obtain ⟨d, hd, -⟩ := h (fun _ => 0) none 0
  obtain ⟨p, hp, -⟩ := Option.bind_eq_some_iff.mp hd
  unfold icbAt at hp
  split at hp
  · next hlt => exact hlt
  · cases hp

/-- **Dispatch is exact exactly below `IRQ_MAX`**, for every sequence of registrations and every
value read from `GICC_IAR`. -/
theorem dispatchExact_iff (calls : List (Registration F P)) (iar : UInt32) :
    DispatchExact calls iar ↔ iar.toNat < irqMax := by
  refine ⟨DispatchExact.lt, fun h m tcb sp => ?_⟩
  have hid := interruptId_of_lt h
  have hreg := icbTable_registered calls ⟨iar.toNat, h⟩
  unfold osCommonInterruptHandler dueCall icbAt
  rw [dif_pos h, if_pos (hid ▸ h), hid, ← hreg]
  simp only [Option.bind_eq_bind, Option.bind_some]
  cases (icbTable calls ⟨iar.toNat, h⟩).handler with
  | none => exact ⟨_, rfl, rfl⟩
  | some handler => exact ⟨_, rfl, rfl⟩

/-- **The spurious interrupt 1023 leaves the table**, which nothing was registered in. -/
theorem dispatch_spurious : ¬DispatchExact ([] : List (Registration Unit Unit)) 1023 := by
  intro h
  exact absurd h.lt (by decide)

end Eos.Analysis
