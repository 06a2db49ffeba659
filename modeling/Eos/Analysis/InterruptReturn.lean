import Eos.Analysis.ContextRoutines

/-!
# Return from an interrupt

`el1_irq_spx_handler` is to return to the point of interruption with all registers as they
were.  Three slips are in the way.

* Its `bl _os_save_context` overwrites `x30` before the frame is written.
* It goes on to `_os_restore_and_eret` with what the C function leaves in `x0`, which need
  not be the pointer to the frame: the function returns nothing.
* `_os_restore_and_eret` loads the stack pointer into `x10` after it has restored `x10`.

`transparent_iff` says for which interrupted states, and which words at the address in `x0`,
the return is as it should be.
-/

set_option autoImplicit false

namespace Eos.Analysis

open Eos.Lib.AArch64
open Eos.Model

/-- The context that the stub saves. -/
def irqContext (l : Layout) (m : Machine) : Context :=
  ⟨Function.update m.x 30 (l.el1IrqSpxHandler + 4), m.sp, m.pc, m.pstate⟩

/-- The machine at the call of `_os_common_interrupt_handler`. -/
def handlerEntry (l : Layout) (m : Machine) : Machine :=
  let frame := frameBelow m.sp
  let mem := storeContext m.mem frame (irqContext l m)
  let x := Function.update (Function.update (Function.update (Function.update m.x 30
    (l.el1IrqSpxHandler + 4)) 0 frame) 1 frame) 2 giccIar
  ⟨Function.update (Function.update x 0 (load32 mem giccIar)) 30 (l.el1IrqSpxHandler + 20), frame,
    l.osCommonInterruptHandler, m.pstate ||| daif, m.pc, m.pstate, mem⟩

variable {l : Layout} {code : Code} {f : Machine → Machine}

/-- The stub saves the context, with its own return address in `x30`. -/
theorem runs_stubSave (hl : Loaded l code) (m : Machine) :
    Runs code f (l.irq m)
      ⟨Function.update (Function.update m.x 30 (l.el1IrqSpxHandler + 4)) 0 (frameBelow m.sp),
        frameBelow m.sp, l.el1IrqSpxHandler + 4, m.pstate ||| daif, m.pc, m.pstate,
        storeContext m.mem (frameBelow m.sp) (irqContext l m)⟩ := by
  have hirq : l.irq m = ⟨m.x, m.sp, l.vectorsEl1 + 0x280, m.pstate ||| daif, m.pc, m.pstate,
      m.mem⟩ := by simp only [Layout.irq, Machine.takeIrq]
  have hvector := Runs.b (f := f) (m := ⟨m.x, m.sp, _, m.pstate ||| daif, m.pc, m.pstate,
    m.mem⟩) hl.vector
  have hstub := Runs.bl (f := f) (m := ⟨m.x, m.sp, _, m.pstate ||| daif, m.pc, m.pstate,
    m.mem⟩) hl.handler.1
  have hsave := runs_osSaveContext (f := f) (m := ⟨Function.update m.x 30
    (l.el1IrqSpxHandler + 4), m.sp, _, m.pstate ||| daif, m.pc, m.pstate, m.mem⟩) hl rfl
  simp only [Function.update_self] at hsave
  rw [hirq]
  exact hvector.trans (hstub.trans hsave)

/-- The stub calls the C function with its fifth instruction. -/
theorem stub_return (l : Layout) :
    l.el1IrqSpxHandler + 4 + 4 + 4 + 4 + 4 = l.el1IrqSpxHandler + 20 := by
  simp only [BitVec.add_assoc]
  rfl

/-- The stub passes the interrupt number and the pointer to the frame. -/
theorem runs_stubCall (hl : Loaded l code) {m : Machine} (hpc : m.pc = l.el1IrqSpxHandler + 4) :
    Runs code f m { m with
      x := Function.update (Function.update (Function.update (Function.update m.x 1 (m.x 0)) 2
        giccIar) 0 (load32 m.mem giccIar)) 30 (l.el1IrqSpxHandler + 20)
      pc := l.osCommonInterruptHandler } := by
  obtain ⟨x, sp, pc, pstate, elr, spsr, mem⟩ := m
  subst hpc
  have hlist : Listing code (l.el1IrqSpxHandler + 4) ([.mov (.x 1) (.x 0),
      .ldrLiteral 2 giccIar, .ldrw 0 (.x 2)] ++ [.bl l.osCommonInterruptHandler,
      .b l.osRestoreAndEret]) := hl.handler.2
  obtain ⟨hrun, hcall, -⟩ := Runs.listing (f := f)
    (m := ⟨x, sp, _, pstate, elr, spsr, mem⟩) hlist (by decide)
  have hbl := hrun.trans (Runs.bl hcall)
  simp only [execAll, Instr.exec, Machine.read, Machine.write, Machine.next, stub_return,
    Function.update_self] at hbl
  exact hbl

/-- Behind the call the stub goes on to `_os_restore_and_eret`. -/
theorem stub_restore (hl : Loaded l code) :
    code (l.el1IrqSpxHandler + 20) = some (.b l.osRestoreAndEret) :=
  stub_return l ▸ hl.handler.2.2.2.2.2.1

/-- **Where an interrupt returns to**: to the context that is at the address in `x0` when the C
function returns. -/
theorem erets_irq (hl : Loaded l code) (m : Machine) {m' : Machine} {c : Context}
    (hm' : f (handlerEntry l m) = m') (hret : Aapcs64 (handlerEntry l m) m')
    (hc : loadContext m'.mem (m'.x 0) = c) :
    Erets code f (l.irq m) ⟨Function.update c.x 10 c.sp, c.sp, c.elrEl1, c.spsrEl1, c.elrEl1,
      c.spsrEl1, m'.mem⟩ := by
  have hentry : Runs code f (l.irq m) (handlerEntry l m) :=
    (runs_stubSave hl m).trans (runs_stubCall hl rfl)
  have hcall := Runs.of_call (f := f) (m := handlerEntry l m) hl.external
  rw [hm'] at hcall
  have hpc : m'.pc = l.el1IrqSpxHandler + 20 := by
    rw [hret.pc]
    simp only [handlerEntry, Function.update_self]
  have hb := Runs.b (f := f) (m := m') (hpc ▸ stub_restore hl)
  have hback := erets_osRestoreAndEret (f := f) (m := ⟨m'.x, m'.sp, l.osRestoreAndEret, m'.pstate,
    m'.elr, m'.spsr, m'.mem⟩) hl rfl hc
  exact hback.of_runs (hentry.trans (hcall.trans hb))

/-! ## The property -/

/-- The interrupted program goes on in `m'` as if nothing had happened in `m`. -/
def Resumes (m m' : Machine) : Prop :=
  m'.x = m.x ∧ m'.sp = m.sp ∧ m'.pc = m.pc ∧ m'.pstate = m.pstate

/-- The interrupted context, but for `x10`, is at the address that the C function has left in
`x0`; and `x10` is the stack pointer. -/
def Recovered (m m' : Machine) : Prop :=
  let c := loadContext m'.mem (m'.x 0)
  (∀ i, i ≠ 10 → c.x i = m.x i) ∧ c.sp = m.sp ∧ c.elrEl1 = m.pc ∧ c.spsrEl1 = m.pstate ∧
    m.x 10 = m.sp

/-- With the pointer to the saved frame in `x0`, only `x10` and `x30` matter. -/
theorem recovered_iff_of_frame {m m' : Machine} (hret : Aapcs64 (handlerEntry l m) m')
    (hx : m'.x 0 = frameBelow m.sp) :
    Recovered m m' ↔ m.x 10 = m.sp ∧ m.x 30 = l.el1IrqSpxHandler + 4 := by
  have hc : loadContext m'.mem (m'.x 0) = irqContext l m := by
    rw [hx, ← loadContext_storeContext m.mem (frameBelow m.sp) (irqContext l m)]
    exact loadContext_congr hret.frame
  simp only [Recovered, hc, irqContext, true_and]
  constructor
  · rintro ⟨hx, h10⟩
    refine ⟨h10, ?_⟩
    rw [← hx 30 (by decide), Function.update_self]
  · rintro ⟨h10, h30⟩
    refine ⟨fun i _ => ?_, h10⟩
    rw [← h30, Function.update_eq_self]

/-- **Interrupt transparency without a switch**: an interrupt whose C function returns ends in an
`eret`; it resumes the interrupted program if and only if the interrupted context is where `x0`
points to then, and `x10` was the stack pointer.  If `x0` points to the saved frame, it is if
and only if `x10` was the stack pointer and `x30` the address behind the stub's first `bl`. -/
theorem transparent_iff (hl : Loaded l code) (m : Machine)
    (hret : Aapcs64 (handlerEntry l m) (f (handlerEntry l m))) :
    ∃ m', Erets code f (l.irq m) m' ∧
      (Resumes m m' ↔ Recovered m (f (handlerEntry l m))) ∧
      ((f (handlerEntry l m)).x 0 = frameBelow m.sp →
        (Resumes m m' ↔ m.x 10 = m.sp ∧ m.x 30 = l.el1IrqSpxHandler + 4)) := by
  have hiff : ∀ c : Context, (Function.update c.x 10 c.sp = m.x ∧ c.sp = m.sp ∧ c.elrEl1 = m.pc ∧
      c.spsrEl1 = m.pstate) ↔ (∀ i, i ≠ 10 → c.x i = m.x i) ∧ c.sp = m.sp ∧ c.elrEl1 = m.pc ∧
      c.spsrEl1 = m.pstate ∧ m.x 10 = m.sp := by
    intro c
    rw [Function.update_eq_iff]
    constructor
    · rintro ⟨⟨h10, hx⟩, hsp, hpc, hps⟩
      exact ⟨hx, hsp, hpc, hps, h10.symm.trans hsp⟩
    · rintro ⟨hx, hsp, hpc, hps, h10⟩
      exact ⟨⟨hsp.trans h10.symm, hx⟩, hsp, hpc, hps⟩
  refine ⟨_, erets_irq hl m rfl hret rfl, hiff _, fun hx => ?_⟩
  exact (hiff _).trans (recovered_iff_of_frame hret hx)

/-! ## A concrete image -/

/-- A program at EL1h with interrupts enabled. -/
def interrupted (x : Fin 31 → Word) : Machine := ⟨x, 0x90000, 0x85000, 0x5, 0, 0, fun _ => 0⟩

/-- A C function that returns with its second argument in `x0`. -/
def returnFrame (m : Machine) : Machine :=
  { m with pc := m.x 30, x := Function.update m.x 0 (m.x 1) }

/-- The function keeps what the procedure call standard asks for. -/
theorem returnFrame_aapcs64 (m : Machine) : Aapcs64 m (returnFrame m) := by
  refine ⟨rfl, rfl, fun i hi _ => Function.update_of_ne ?_ _ _, fun _ _ => rfl⟩
  rintro rfl
  exact absurd hi (by decide)

/-- **Interrupts are not transparent**, even if the C function leaves the pointer to the frame in
`x0`: here they turn `x10` from zero into the stack pointer. -/
theorem transparent_violated :
    ∃ m', Aapcs64 (handlerEntry imageLayout (interrupted fun _ => 0))
        (returnFrame (handlerEntry imageLayout (interrupted fun _ => 0))) ∧
      Erets imageLayout.code returnFrame (imageLayout.irq (interrupted fun _ => 0)) m' ∧
      ¬Resumes (interrupted fun _ => 0) m' := by
  have hret := returnFrame_aapcs64 (handlerEntry imageLayout (interrupted fun _ => 0))
  refine ⟨_, hret, erets_irq imageLayout_loaded _ rfl hret rfl, ?_⟩
  rintro ⟨hx, hsp, -, -⟩
  have h10 := congrFun hx 10
  simp only [Function.update_self] at h10 hsp
  rw [hsp] at h10
  exact absurd h10 (by decide)

/-- An interrupted program for which the two clobbered registers hold what they are clobbered
with. -/
theorem transparent_iff_clobbered :
    ∃ m', Erets imageLayout.code returnFrame (imageLayout.irq (interrupted fun i =>
        if i = 10 then 0x90000 else 0x81004)) m' ∧
      Resumes (interrupted fun i => if i = 10 then 0x90000 else 0x81004) m' := by
  obtain ⟨m', hm', -, hframe⟩ := transparent_iff (f := returnFrame) imageLayout_loaded
    (interrupted fun i => if i = 10 then 0x90000 else 0x81004) (returnFrame_aapcs64 _)
  refine ⟨m', hm', (hframe ?_).mpr ⟨rfl, rfl⟩⟩
  simp only [returnFrame, handlerEntry, Function.update_self]
  rfl

end Eos.Analysis
