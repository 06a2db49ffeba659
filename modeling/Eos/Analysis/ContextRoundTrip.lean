import Eos.Analysis.ContextRoutines

/-!
# Round trips through a saved context

Whether a frame written by `_os_save_context` takes its caller back, and whether
`_os_restore_and_eret` reads a frame back.

* `_os_save_context` is to return twice, the second time with 0, like `setjmp`.  The frame
  has the caller's `x0`, and as the point to go on at what is in `ELR_EL1`, not `x30`; so the
  second return is right only if `ELR_EL1` and `x0` happen to have the right values
  (`roundTrip_iff`).
* `_os_restore_and_eret` ends with `x10` used for the stack pointer, so it reads back only
  frames that have the same word in both places (`readBack_iff`).
-/

set_option autoImplicit false

namespace Eos.Analysis

open Eos.Lib.AArch64
open Eos.Model

variable {l : Layout} {code : Code} {f : Machine → Machine} {m : Machine}

/-! ## A voluntary switch -/

/-- The second return of a call of `_os_save_context` in state `m`: to the address in `x30`, with
0, the stack pointer and the callee-saved registers. -/
def ReturnsAgain (m m' : Machine) : Prop :=
  m'.pc = m.x 30 ∧ m'.x 0 = 0 ∧ m'.sp = m.sp ∧ ∀ i : Fin 31, 19 ≤ i → i ≤ 29 → m'.x i = m.x i

/-- The context of a call of `_os_save_context`. -/
def callContext (m : Machine) : Context := ⟨m.x, m.sp, m.elr, m.spsr⟩

/-- The machine when the call returns for the first time. -/
def firstReturn (m : Machine) : Machine :=
  ⟨Function.update m.x 0 (frameBelow m.sp), frameBelow m.sp, m.x 30, m.pstate, m.elr, m.spsr,
    storeContext m.mem (frameBelow m.sp) (callContext m)⟩

/-- The machine when the context is restored. -/
def secondReturn (m : Machine) (mem : Memory) : Machine :=
  ⟨Function.update m.x 10 m.sp, m.sp, m.elr, m.spsr, m.elr, m.spsr, mem⟩

/-- `_os_restore_and_eret` on the saved frame leads to the second return. -/
theorem erets_secondReturn (hl : Loaded l code) {m₂ : Machine} (hpc : m₂.pc = l.osRestoreAndEret)
    (hx : m₂.x 0 = frameBelow m.sp) (hframe : ∀ i < ctxSize,
      m₂.mem (frameBelow m.sp + BitVec.ofNat 64 i) =
        (firstReturn m).mem (frameBelow m.sp + BitVec.ofNat 64 i)) :
    Erets code f m₂ (secondReturn m m₂.mem) := by
  have hc : loadContext m₂.mem (m₂.x 0) = callContext m := by
    rw [hx, loadContext_congr hframe]
    exact loadContext_storeContext m.mem (frameBelow m.sp) (callContext m)
  exact erets_osRestoreAndEret hl hpc hc

/-- The second return is one to the caller with 0 in `x0` if and only if `ELR_EL1` was the return
address and `x0` was 0. -/
theorem secondReturn_iff (mem : Memory) :
    ReturnsAgain m (secondReturn m mem) ↔ m.elr = m.x 30 ∧ m.x 0 = 0 := by
  have hx : ∀ i : Fin 31, i ≠ 10 → (secondReturn m mem).x i = m.x i :=
    fun i hi => Function.update_of_ne hi _ _
  constructor
  · rintro ⟨hpc, h0, -, -⟩
    rw [hx 0 (by decide)] at h0
    exact ⟨hpc, h0⟩
  · rintro ⟨hpc, h0⟩
    refine ⟨hpc, (hx 0 (by decide)).trans h0, rfl, fun i hi _ => hx i ?_⟩
    rintro rfl
    exact absurd hi (by decide)

/-- **The round trip of a voluntary switch**: the first return is always right, and the second one
is if and only if `ELR_EL1` was the return address and `x0` was 0 at the call. -/
theorem roundTrip_iff (hl : Loaded l code) (hpc : m.pc = l.osSaveContext) :
    ∃ m₁, Runs code f m m₁ ∧ m₁.pc = m.x 30 ∧ m₁.x 0 = frameBelow m.sp ∧
      ∀ m₂ : Machine, m₂.pc = l.osRestoreAndEret → m₂.x 0 = m₁.x 0 →
        (∀ i < ctxSize, m₂.mem (m₁.x 0 + BitVec.ofNat 64 i) =
          m₁.mem (m₁.x 0 + BitVec.ofNat 64 i)) →
        ∃ m₃, Erets code f m₂ m₃ ∧ (ReturnsAgain m m₃ ↔ m.elr = m.x 30 ∧ m.x 0 = 0) := by
  have hx : (firstReturn m).x 0 = frameBelow m.sp := by
    simp only [firstReturn, Function.update_self]
  refine ⟨firstReturn m, runs_osSaveContext hl hpc, rfl, hx, fun m₂ hpc₂ hx₂ hframe => ?_⟩
  rw [hx] at hx₂ hframe
  exact ⟨_, erets_secondReturn hl hpc₂ hx₂ hframe, secondReturn_iff m₂.mem⟩

/-- A call of `_os_save_context` by a task with `ELR_EL1 = elr`, which is to return to `0x86000`. -/
def saveCall (elr : Word) : Machine :=
  ⟨Function.update (fun _ => 0) 30 0x86000, 0x90000, 0x82000, 0x5, elr, 0x5, fun _ => 0⟩

/-- The restoring of its frame, with the memory as it was. -/
def restoreCall (elr : Word) : Machine :=
  ⟨fun _ => frameBelow 0x90000, 0x70000, 0x83000, 0x5, 0, 0, (firstReturn (saveCall elr)).mem⟩

/-- **A second return to the wrong place**: the task was interrupted at `0x85000` before. -/
theorem roundTrip_violated :
    Runs imageLayout.code id (saveCall 0x85000) (firstReturn (saveCall 0x85000)) ∧
      ∃ m₃, Erets imageLayout.code id (restoreCall 0x85000) m₃ ∧
        ¬ReturnsAgain (saveCall 0x85000) m₃ := by
  refine ⟨runs_osSaveContext imageLayout_loaded rfl, _,
    erets_secondReturn imageLayout_loaded rfl rfl fun _ _ => rfl, ?_⟩
  rw [secondReturn_iff]
  rintro ⟨helr, -⟩
  exact absurd helr (by decide)

/-- A task whose last exception was taken where `_os_save_context` is to return to. -/
theorem roundTrip_iff_stale :
    ∃ m₁ m₃, Runs imageLayout.code id (saveCall 0x86000) m₁ ∧
      Erets imageLayout.code id { m₁ with pc := 0x83000 } m₃ ∧
      ReturnsAgain (saveCall 0x86000) m₃ := by
  obtain ⟨m₁, hrun, -, -, hback⟩ := roundTrip_iff (f := id) imageLayout_loaded
    (show (saveCall 0x86000).pc = imageLayout.osSaveContext from rfl)
  obtain ⟨m₃, herets, hiff⟩ := hback { m₁ with pc := 0x83000 } rfl rfl fun _ _ => rfl
  exact ⟨m₁, m₃, hrun, herets, hiff.mpr ⟨rfl, rfl⟩⟩

/-! ## Reading a frame back -/

/-- The registers hold what a context says. -/
def Holds (c : Context) (m : Machine) : Prop :=
  m.x = c.x ∧ m.sp = c.sp ∧ m.pc = c.elrEl1 ∧ m.pstate = c.spsrEl1

/-- The restored machine holds the context except for `x10`, which holds its `SP`. -/
theorem holds_restored_iff (c : Context) (mem : Memory) :
    Holds c ⟨Function.update c.x 10 c.sp, c.sp, c.elrEl1, c.spsrEl1, c.elrEl1, c.spsrEl1, mem⟩ ↔
      c.x 10 = c.sp := by
  constructor
  · rintro ⟨hx, -⟩
    have h10 : Function.update c.x 10 c.sp 10 = c.x 10 := congrFun hx 10
    rw [Function.update_self] at h10
    exact h10.symm
  · intro h10
    refine ⟨?_, rfl, rfl, rfl⟩
    rw [← h10, Function.update_eq_self]

/-- **The whole frame**: `_os_restore_and_eret` reads it back if and only if its words for `x10` and
the stack pointer are the same; and `_os_save_context` writes every register to its field. -/
theorem readBack_iff (hl : Loaded l code) :
    (∀ (m : Machine) (a : Word) (c : Context), m.pc = l.osRestoreAndEret → m.x 0 = a →
      loadContext m.mem a = c →
      ∃ m', Erets code f m m' ∧ (Holds c m' ↔ c.x 10 = c.sp)) ∧
    ∀ m : Machine, m.pc = l.osSaveContext →
      ∃ m', Runs code f m m' ∧ m'.pc = m.x 30 ∧
        loadContext m'.mem (m'.x 0) = ⟨m.x, m.sp, m.elr, m.spsr⟩ := by
  constructor
  · rintro m _ c hpc rfl hc
    exact ⟨_, erets_osRestoreAndEret hl hpc hc, holds_restored_iff c m.mem⟩
  · intro m hpc
    refine ⟨firstReturn m, runs_osSaveContext hl hpc, rfl, ?_⟩
    simp only [firstReturn, Function.update_self]
    exact loadContext_storeContext m.mem (frameBelow m.sp) (callContext m)

/-- **A frame that is not read back**: 0 for every register, and a stack pointer. -/
theorem readBack_violated :
    ∃ (m m' : Machine) (c : Context), m.pc = imageLayout.osRestoreAndEret ∧
      loadContext m.mem (m.x 0) = c ∧ Erets imageLayout.code id m m' ∧ ¬Holds c m' := by
  let c : Context := ⟨fun _ => 0, 0x90000, 0x85000, 0x5⟩
  let m : Machine := ⟨fun _ => 0x8f000, 0x70000, 0x83000, 0x5, 0, 0,
    storeContext (fun _ => 0) 0x8f000 c⟩
  have hc : loadContext m.mem (m.x 0) = c := loadContext_storeContext _ _ _
  refine ⟨m, _, c, rfl, hc, erets_osRestoreAndEret imageLayout_loaded rfl hc, ?_⟩
  rw [holds_restored_iff]
  exact (by decide : (0 : Word) ≠ 0x90000)

/-- A frame with the stack pointer in `x10` is read back. -/
theorem readBack_iff_same :
    ∃ m' : Machine, Holds ⟨fun _ => 0x90000, 0x90000, 0x85000, 0x5⟩ m' := by
  let c : Context := ⟨fun _ => 0x90000, 0x90000, 0x85000, 0x5⟩
  let m : Machine := ⟨fun _ => 0x8f000, 0x70000, 0x83000, 0x5, 0, 0,
    storeContext (fun _ => 0) 0x8f000 c⟩
  obtain ⟨m', -, hiff⟩ := (readBack_iff (f := id) imageLayout_loaded).1 m 0x8f000 c rfl rfl
    (loadContext_storeContext _ _ _)
  exact ⟨m', hiff.mpr rfl⟩

end Eos.Analysis
