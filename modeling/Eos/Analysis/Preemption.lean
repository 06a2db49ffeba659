import Eos.Analysis.InterruptReturn

/-!
# What is kept of a preempted task

A preemption saves two contexts of the task: one in `el1_irq_spx_handler`, which
`save_current_task_sp` copies to the frame `tcb->sp` points to, and one in `eos_schedule`,
to which it then sets `tcb->sp`.  The second pairs the point of interruption, which is still
in `ELR_EL1` and `SPSR_EL1`, with the registers and the stack pointer of `eos_schedule`.  So
the task goes on at the point of interruption with a stack pointer that is lower by the first
frame and by what the C functions use (`Preemption.context`), and `tcb->sp` never describes the
interrupted context (`preempted_context_lost`).
-/

set_option autoImplicit false

namespace Eos.Analysis

open Eos.Lib.AArch64
open Eos.Model

/-- The bytes of the field `sp` of a TCB and of a frame. -/
def TcbOrFrame (tcb frame a : Word) : Prop := (a - tcb).toNat < 8 ∨ (a - frame).toNat < ctxSize

/-- A task whose field `tcb->sp` is at `tcb` is interrupted in state `m`, the handler calls
`eos_schedule`, and this switches to another task, which goes on in state `m'`. -/
structure Preemption (l : Layout) (tcb : Word) (m m' : Machine) where
  /-- the stack of the C functions above `eos_schedule`'s call of `_os_save_context` -/
  depth : Nat
  depth_lt : ctxSize + depth < 2 ^ 64
  saved : Machine
  /-- `_os_common_interrupt_handler` up to the return of `save_current_task_sp` -/
  common : CompiledC (TcbOrFrame tcb (frameBelow m.sp))
    (saveCurrentTaskSp · (some tcb) ((handlerEntry l m).x 1)) (handlerEntry l m) saved
  scheduling : Machine
  /-- the handler, `eos_trigger_counter`, and `eos_schedule` up to `_os_save_context` -/
  trigger : CompiledC (TcbOrFrame tcb (frameBelow m.sp)) id saved scheduling
  stack : scheduling.sp = (handlerEntry l m).sp - BitVec.ofNat 64 depth
  switching : Machine
  /-- the test of `sp`, the assignment to `tcb->sp`, and the choice of the next task -/
  switch : let m₁ := execAll scheduling (osSaveContextBody ++ [.ret])
    m₁.x 0 ≠ 0 ∧
      CompiledC (TcbOrFrame tcb (m₁.x 0)) (store · tcb (m₁.x 0)) m₁ switching
  /-- the TCB is not on the stack -/
  tcb_disjoint : let frame := frameBelow scheduling.sp
    8 ≤ (frame - tcb).toNat ∧ (frame - tcb).toNat ≤ 2 ^ 64 - ctxSize
  /-- `_os_restore_and_eret(next_task->sp)` -/
  restored : m' = execAll switching (osRestoreAndEretBody ++ [.eret])

/-- A frame describes the point of interruption, but for the link register. -/
def Describes (m : Machine) (c : Context) : Prop :=
  c.elrEl1 = m.pc ∧ c.spsrEl1 = m.pstate ∧ c.sp = m.sp ∧ ∀ i, i ≠ 30 → c.x i = m.x i

variable {l : Layout} {tcb : Word} {m m' : Machine}

/-- Storing `tcb->sp` leaves a frame elsewhere alone. -/
theorem loadContext_store_tcb {mem : Memory} {frame v : Word} (h : 8 ≤ (frame - tcb).toNat)
    (h' : (frame - tcb).toNat ≤ 2 ^ 64 - ctxSize) :
    loadContext (store mem tcb v) frame = loadContext mem frame := by
  apply loadContext_congr
  intro i hi
  unfold ctxSize at h' hi
  have hd : (frame + BitVec.ofNat 64 i - tcb).toNat = (frame - tcb).toNat + i := by bv_omega
  exact if_neg (by omega)

/-- `_os_save_context`, called from C code. -/
theorem execAll_osSaveContext (m : Machine) :
    execAll m (osSaveContextBody ++ [.ret]) = ⟨Function.update m.x 0 (frameBelow m.sp),
      frameBelow m.sp, m.x 30, m.pstate, m.elr, m.spsr,
      storeContext m.mem (frameBelow m.sp) ⟨m.x, m.sp, m.elr, m.spsr⟩⟩ := by
  obtain ⟨pc, hbody⟩ := execAll_osSaveContextBody m
  rw [execAll_append, hbody]
  rfl

/-- `_os_restore_and_eret` writes no memory. -/
theorem execAll_osRestoreAndEret_mem (m : Machine) :
    (execAll m (osRestoreAndEretBody ++ [.eret])).mem = m.mem := by
  obtain ⟨pc, hbody⟩ := execAll_osRestoreAndEretBody m rfl
  rw [execAll_append, hbody]
  rfl

/-- **What `tcb->sp` points to** after the preemption: the registers of `eos_schedule`, its
stack pointer, and the point of interruption. -/
theorem Preemption.context (p : Preemption l tcb m m') :
    loadContext m'.mem (load m'.mem tcb) =
      ⟨p.scheduling.x, frameBelow m.sp - BitVec.ofNat 64 p.depth, m.pc, m.pstate⟩ := by
  obtain ⟨-, hswitch⟩ := p.switch
  obtain ⟨hdis, hdis'⟩ := p.tcb_disjoint
  have helr : p.scheduling.elr = m.pc := p.trigger.elr.trans p.common.elr
  have hspsr : p.scheduling.spsr = m.pstate := p.trigger.spsr.trans p.common.spsr
  have hmem : m'.mem = p.switching.mem :=
    (congrArg Machine.mem p.restored).trans (execAll_osRestoreAndEret_mem _)
  simp only [execAll_osSaveContext, Function.update_self] at hswitch
  generalize hframe : frameBelow p.scheduling.sp = frame at hswitch hdis hdis'
  -- the field points to the frame
  have hsp : load m'.mem tcb = frame := by
    rw [hmem, load_congr fun i hi => hswitch.mem _ (.inl (by bv_omega)), load_store]
  -- and the frame is as `_os_save_context` has written it
  have hkept : loadContext m'.mem frame = loadContext (store (storeContext p.scheduling.mem frame
      ⟨p.scheduling.x, p.scheduling.sp, p.scheduling.elr, p.scheduling.spsr⟩) tcb frame) frame := by
    rw [hmem]
    exact loadContext_congr fun i hi => hswitch.mem _ (.inr (by unfold ctxSize at hi ⊢; bv_omega))
  rw [hsp, hkept, loadContext_store_tcb hdis hdis', loadContext_storeContext, helr, hspsr, p.stack]
  rfl

/-- The saved stack pointer is not the interrupted one. -/
theorem Preemption.sp_ne (p : Preemption l tcb m m') :
    (loadContext m'.mem (load m'.mem tcb)).sp ≠ m.sp := by
  have hdepth := p.depth_lt
  rw [p.context]
  unfold frameBelow ctxSize at *
  bv_omega

/-! ## A preemption -/

/-- Compiled C code that does nothing but what its source says. -/
theorem exists_preemption (l : Layout) (tcb : Word) (m : Machine) (depth : Nat)
    (hdepth : ctxSize + depth < 2 ^ 64)
    (hframe : frameBelow (frameBelow m.sp - BitVec.ofNat 64 depth) ≠ 0)
    (hdis : let frame := frameBelow (frameBelow m.sp - BitVec.ofNat 64 depth)
      8 ≤ (frame - tcb).toNat ∧ (frame - tcb).toNat ≤ 2 ^ 64 - ctxSize) :
    ∃ m', Nonempty (Preemption l tcb m m') := by
  let saved := { handlerEntry l m with
    mem := saveCurrentTaskSp (handlerEntry l m).mem (some tcb) ((handlerEntry l m).x 1) }
  let scheduling := { saved with
    sp := frameBelow m.sp - BitVec.ofNat 64 depth, pc := l.osSaveContext }
  obtain ⟨m₁, hm₁⟩ : ∃ m₁, execAll scheduling (osSaveContextBody ++ [.ret]) = m₁ := ⟨_, rfl⟩
  have hx : m₁.x 0 = frameBelow scheduling.sp := by
    simp only [← hm₁, execAll_osSaveContext, Function.update_self]
  have hswitch : m₁.x 0 ≠ 0 ∧ CompiledC (TcbOrFrame tcb (m₁.x 0)) (store · tcb (m₁.x 0)) m₁
      { m₁ with mem := store m₁.mem tcb (m₁.x 0), pc := l.osRestoreAndEret } :=
    ⟨hx ▸ hframe, rfl, rfl, fun _ _ => rfl⟩
  exact ⟨_, ⟨depth, hdepth, saved, ⟨rfl, rfl, fun _ _ => rfl⟩, scheduling,
    ⟨rfl, rfl, fun _ _ => rfl⟩, rfl, _, hm₁ ▸ hswitch, hdis, rfl⟩⟩

/-- A preemption after which `tcb->sp` does not describe the point of interruption: the C functions
use 64 bytes of stack. -/
theorem preemption_violated :
    ∃ m', Nonempty (Preemption imageLayout 0x100000 (interrupted fun _ => 0) m') ∧
      ¬Describes (interrupted fun _ => 0) (loadContext m'.mem (load m'.mem 0x100000)) := by
  obtain ⟨m', ⟨p⟩⟩ := exists_preemption imageLayout 0x100000 (interrupted fun _ => 0) 64
    (by decide) (by decide) (by decide)
  exact ⟨m', ⟨p⟩, fun h => p.sp_ne h.2.2.1⟩

/-! ## The property fails always -/

/-- **The preempted context is lost**: the frame `tcb->sp` points to never describes the point of
interruption, since its stack pointer is a different one, and a later
`_os_restore_and_eret(tcb->sp)` resumes the task with this stack pointer. -/
theorem preempted_context_lost (p : Preemption l tcb m m') :
    ¬Describes m (loadContext m'.mem (load m'.mem tcb)) ∧
      ∀ m₁ : Machine, m₁.x 0 = load m'.mem tcb → m₁.mem = m'.mem →
        (execAll m₁ (osRestoreAndEretBody ++ [.eret])).sp ≠ m.sp := by
  refine ⟨fun h => p.sp_ne h.2.2.1, fun m₁ hx hmem => ?_⟩
  obtain ⟨pc, hbody⟩ := execAll_osRestoreAndEretBody m₁ rfl
  rw [execAll_append, hbody, hx, hmem]
  exact p.sp_ne

/-- A task that is interrupted with all registers 0. -/
theorem preempted_context_lost_plain :
    ∃ m' : Machine, ¬Describes (interrupted fun _ => 0)
      (loadContext m'.mem (load m'.mem 0x100000)) := by
  obtain ⟨m', ⟨p⟩⟩ := exists_preemption imageLayout 0x100000 (interrupted fun _ => 0) 64
    (by decide) (by decide) (by decide)
  exact ⟨m', (preempted_context_lost p).1⟩

end Eos.Analysis
