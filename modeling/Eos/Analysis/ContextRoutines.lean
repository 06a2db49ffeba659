import Eos.Model.Context

/-!
# What the context routines do

`_os_save_context` leaves all general registers but `x0` alone and moves the stack pointer
down by one frame; the frame it writes has the link register as it is at its call, and the
point of interruption that is in `ELR_EL1` and `SPSR_EL1`.  `_os_restore_and_eret` loads
everything from the frame `x0` points to, and then `x10` once more, with the stack pointer.
-/

set_option autoImplicit false

namespace Eos.Analysis

open Eos.Lib.AArch64
open Eos.Model

/-- The frame that `_os_save_context` allocates. -/
def frameBelow (sp : Word) : Word := sp - BitVec.ofNat 64 ctxSize

/-- `_os_save_context` up to its `ret`: a frame below the stack pointer, and its address in `x0`. -/
theorem execAll_osSaveContextBody (m : Machine) :
    ∃ pc, execAll m osSaveContextBody = ⟨Function.update m.x 0 (frameBelow m.sp), frameBelow m.sp,
      pc, m.pstate, m.elr, m.spsr,
      storeContext m.mem (frameBelow m.sp) ⟨m.x, m.sp, m.elr, m.spsr⟩⟩ := by
  have hsp : m.sp - BitVec.ofNat 64 ctxSize + BitVec.ofNat 64 ctxSize = m.sp :=
    BitVec.sub_add_cancel _ _
  refine ⟨(execAll m osSaveContextBody).pc, ?_⟩
  simp only [osSaveContextBody, execAll, Instr.exec, Machine.read, Machine.write, Machine.next,
    Machine.storeAt, Machine.readSys, hsp, Machine.mk.injEq, true_and, Function.update_idem,
    Function.update_self]
  exact ⟨rfl, rfl, rfl⟩

/-- `_os_restore_and_eret` up to its `eret`: the registers of the frame, but the frame's `SP` in
`x10`. -/
theorem execAll_osRestoreAndEretBody (m : Machine) {c : Context}
    (hc : loadContext m.mem (m.x 0) = c) :
    ∃ pc, execAll m osRestoreAndEretBody = ⟨Function.update c.x 10 c.sp, c.sp, pc, m.pstate,
      c.elrEl1, c.spsrEl1, m.mem⟩ := by
  subst hc
  have hsplit : osRestoreAndEretBody = osRestoreAndEretBody.take 5 ++
    ((osRestoreAndEretBody.drop 5).take 17 ++ osRestoreAndEretBody.drop 22) := rfl
  -- the system registers, with `x9` as the base
  obtain ⟨m₁, hm₁, hx, hps, hmem, helr, hspsr⟩ : ∃ m₁,
      execAll m (osRestoreAndEretBody.take 5) = m₁ ∧ m₁.x 9 = m.x 0 ∧ m₁.pstate = m.pstate ∧
      m₁.mem = m.mem ∧ m₁.elr = (loadContext m.mem (m.x 0)).elrEl1 ∧
      m₁.spsr = (loadContext m.mem (m.x 0)).spsrEl1 := ⟨_, rfl, rfl, rfl, rfl, rfl, rfl⟩
  obtain ⟨⟨pc, hl⟩, hbase⟩ := execAll_loads (n := 9)
    (show ∀ i ∈ (osRestoreAndEretBody.drop 5).take 17, isLoad 9 i = true by decide) m₁
  rw [hx, hmem] at hl hbase
  rw [hsplit, execAll_append, execAll_append, hm₁, hl]
  -- `x8` and `x10` are loaded last, and `x9` after them
  have hlookup : ∀ i : Fin 31, i ≠ 9 →
      (((osRestoreAndEretBody.drop 5).take 17).flatMap loads).reverse.lookup i =
        some (if i = 10 then ctxOffSp else 8 * i.val) := by decide
  generalize ((osRestoreAndEretBody.drop 5).take 17).flatMap loads = l at hlookup hbase ⊢
  refine ⟨pc + 4 + 4 + 4, Machine.ext (funext fun i => ?_) ?_ rfl hps helr hspsr rfl⟩
  · show Function.update (loadAll m.mem (m.x 0) m₁.x l) 9 (load m.mem
        (loadAll m.mem (m.x 0) m₁.x l 9 + BitVec.ofNat 64 (4 * 16 + 8))) i =
      Function.update (loadContext m.mem (m.x 0)).x 10 (loadContext m.mem (m.x 0)).sp i
    by_cases h9 : i = 9
    · subst h9
      rw [Function.update_self, hbase]
      rfl
    · rw [Function.update_of_ne h9, loadAll_apply (hlookup i h9)]
      by_cases h10 : i = 10
      · subst h10
        rfl
      · rw [if_neg h10, Function.update_of_ne h10]
        rfl
  · exact loadAll_apply (hlookup 10 (by decide))

variable {l : Layout} {code : Code} {f : Machine → Machine} {m : Machine}

/-- **`_os_save_context`** returns with a frame of its caller's registers below the stack, and
with the stack pointer at the frame. -/
theorem runs_osSaveContext (hl : Loaded l code) (hpc : m.pc = l.osSaveContext) :
    Runs code f m ⟨Function.update m.x 0 (frameBelow m.sp), frameBelow m.sp, m.x 30, m.pstate,
      m.elr, m.spsr, storeContext m.mem (frameBelow m.sp) ⟨m.x, m.sp, m.elr, m.spsr⟩⟩ := by
  obtain ⟨hrun, hret⟩ := Runs.listing (f := f) (hpc ▸ hl.save) (by decide)
  obtain ⟨pc, hbody⟩ := execAll_osSaveContextBody m
  rw [hbody] at hrun hret
  exact hrun.trans (Runs.instr hret.1 (by simp))

/-- **`_os_restore_and_eret`** goes on as the frame says, but with the stack pointer in `x10`. -/
theorem erets_osRestoreAndEret (hl : Loaded l code) (hpc : m.pc = l.osRestoreAndEret) {c : Context}
    (hc : loadContext m.mem (m.x 0) = c) :
    Erets code f m ⟨Function.update c.x 10 c.sp, c.sp, c.elrEl1, c.spsrEl1, c.elrEl1,
      c.spsrEl1, m.mem⟩ := by
  obtain ⟨hrun, heret⟩ := Runs.listing (f := f) (hpc ▸ hl.restore) (by decide)
  obtain ⟨pc, hbody⟩ := execAll_osRestoreAndEretBody m hc
  rw [hbody] at hrun heret
  exact ⟨_, hrun, heret.1, rfl⟩

/-! ## A concrete image -/

/-- Some addresses for the routines. -/
def imageLayout : Layout := ⟨0x80000, 0x81000, 0x82000, 0x83000, 0x84000⟩

/-- The code of the image is where the layout says. -/
theorem imageLayout_loaded : Loaded imageLayout imageLayout.code := by
  refine ⟨?_, ?_, ?_, ?_, ?_⟩ <;> decide +kernel

end Eos.Analysis
