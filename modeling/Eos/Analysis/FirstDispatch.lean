import Eos.Analysis.ContextRoutines
import Eos.Model.Kernel

/-!
# The first dispatch of a task

`_os_create_context` builds the frame that `_os_restore_and_eret` dispatches a new task from.
It lies below the last 16-byte boundary of the stack block and is all the routine writes
(`osCreateContext_of_le`); read back, it is `newContext`.
-/

set_option autoImplicit false

namespace Eos.Analysis

open Eos.Lib.AArch64
open Eos.Model

variable {m : Memory} {base size entry arg : Word}

/-! ## Clearing -/

/-- A byte after `memset`. -/
theorem memset_apply {p : Word} {val : BitVec 32} {n : Nat} (hn : n ≤ 2 ^ 64) (a : Word) :
    memset m p val n a = if (a - p).toNat < n then val.setWidth 8 else m a := by
  induction n generalizing m p with
  | zero => rfl
  | succ n ih =>
    rw [memset, ih (by omega)]
    by_cases hap : a = p
    · subst hap
      rw [Function.update_self, ite_self, if_pos (by bv_omega)]
    · rw [Function.update_of_ne hap]
      exact if_congr (by bv_omega) rfl rfl

/-- The words of a cleared block. -/
theorem load_memset_zero {p : Word} {n i : Nat} (hn : n ≤ 2 ^ 64) (hi : 8 * i + 8 ≤ n) :
    load (memset m p 0 n) (p + BitVec.ofNat 64 (8 * i)) = 0 := by
  have hbyte : ∀ k < 8, memset m p 0 n (p + BitVec.ofNat 64 (8 * i) + BitVec.ofNat 64 k) =
      byte 0 k := by
    intro k hk
    rw [memset_apply hn, if_pos (by bv_omega)]
    exact BitVec.eq_of_toNat_eq (by simp [byte])
  exact (ofBytes_congr hbyte).trans (ofBytes_byte 0)

/-! ## The frame -/

/-- The last 16-byte boundary of a block. -/
def stackTop (base size : Word) : Word := (base + size) &&& ~~~(0xF : Word)

/-- What a new task starts with. -/
def newContext (top entry arg : Word) : Context :=
  ⟨Function.update (fun _ => 0) 0 arg, top, entry, 0x5⟩

/-- All registers but `x0` start with 0. -/
theorem newContext_x {top : Word} {i : Fin 31} (hi : i ≠ 0) :
    (newContext top entry arg).x i = 0 := by
  show Function.update (fun _ => (0 : Word)) 0 arg i = 0
  rw [Function.update_of_ne hi]

/-- Clearing the four lowest bits rounds down to a multiple of 16. -/
theorem toNat_and_not_fifteen (x : Word) : (x &&& ~~~(0xF : Word)).toNat = x.toNat / 16 * 16 := by
  have hmask : ∀ i : Fin 64, (~~~(0xF : Word)).getLsbD i = decide (4 ≤ i.val) := by decide
  have hshift : x &&& ~~~(0xF : Word) = (x >>> 4) <<< 4 := by
    apply BitVec.eq_of_getLsbD_eq
    intro i hi
    rw [BitVec.getLsbD_and, hmask ⟨i, hi⟩, BitVec.getLsbD_shiftLeft, BitVec.getLsbD_ushiftRight]
    by_cases h4 : 4 ≤ i
    · simp [h4, hi, Nat.not_lt.mpr h4]
    · simp [h4, Nat.not_le.mp h4]
  have hlt : x.toNat / 16 * 16 < 2 ^ 64 := by
    have := x.isLt
    omega
  rw [hshift, BitVec.toNat_shiftLeft, BitVec.toNat_ushiftRight, Nat.shiftLeft_eq,
    Nat.shiftRight_eq_div_pow, Nat.mod_eq_of_lt hlt]

/-- Where the stack pointer of a new task is. -/
theorem stackTop_toNat (hfit : base.toNat + size.toNat < 2 ^ 64) :
    (stackTop base size).toNat = (base.toNat + size.toNat) / 16 * 16 := by
  rw [stackTop, toNat_and_not_fifteen, BitVec.toNat_add, Nat.mod_eq_of_lt hfit]

/-- The context is right below the top of the stack. -/
theorem osCreateContext_fst :
    (osCreateContext m base size entry arg).1 =
      stackTop base size - BitVec.ofNat 64 ctxSize := rfl

/-- **The frame is read back.** -/
theorem loadContext_osCreateContext :
    loadContext (osCreateContext m base size entry arg).2
      (osCreateContext m base size entry arg).1 = newContext (stackTop base size) entry arg := by
  rw [osCreateContext_fst]
  unfold osCreateContext
  simp only
  rw [← stackTop]
  generalize stackTop base size - BitVec.ofNat 64 ctxSize = ctx
  refine Context.ext (funext fun i => ?_) ?_ ?_ ?_
  · show load _ (ctx + BitVec.ofNat 64 (8 * i.val)) = _
    rw [load_store_of_ne (by omega) (by omega) (by omega),
      load_store_of_ne (by omega) (by omega) (by omega),
      load_store_of_ne (by omega) (by omega) (by omega)]
    by_cases hi : i = 0
    · subst hi
      exact load_store _ _ _
    · have hne : 0 ≠ i.val := fun h => hi (Fin.ext h.symm)
      rw [load_store_of_ne (by omega) (by omega) hne,
        load_memset_zero (by decide) (by unfold ctxSize; omega)]
      exact (newContext_x hi).symm
  · show load _ (ctx + BitVec.ofNat 64 (8 * 31)) = _
    rw [load_store_of_ne (by decide) (by decide) (by decide),
      load_store_of_ne (by decide) (by decide) (by decide), load_store]
    rfl
  · show load _ (ctx + BitVec.ofNat 64 (8 * 32)) = _
    rw [load_store_of_ne (by decide) (by decide) (by decide), load_store]
    rfl
  · exact load_store _ _ _

/-- **Only the frame is written.** -/
theorem osCreateContext_of_le {a : Word}
    (h : ctxSize ≤ (a - (osCreateContext m base size entry arg).1).toNat) :
    (osCreateContext m base size entry arg).2 a = m a := by
  rw [osCreateContext_fst] at h
  unfold osCreateContext
  simp only
  rw [← stackTop]
  generalize stackTop base size - BitVec.ofNat 64 ctxSize = ctx at h ⊢
  have hword : ∀ i < 34, 8 ≤ (a - (ctx + BitVec.ofNat 64 (8 * i))).toNat := by
    intro i hi
    unfold ctxSize at h
    bv_omega
  rw [store_of_le (hword 33 (by decide)), store_of_le (hword 32 (by decide)),
    store_of_le (hword 31 (by decide)), store_of_le (hword 0 (by decide)),
    memset_apply (by decide), if_neg (Nat.not_lt.mpr h)]

/-! ## The dispatch -/

/-- A new task starts at its entry, with its argument and cleared callee-saved registers, at EL1h
with interrupts enabled, and with an aligned stack pointer at the top of its block. -/
structure StartsFresh (base size entry arg : Word) (m : Machine) : Prop where
  pc : m.pc = entry
  arg : m.x 0 = arg
  cleared : ∀ i : Fin 31, 19 ≤ i → m.x i = 0
  /-- `PSTATE.M` is EL1h -/
  mode : m.pstate &&& 0x1f = 0x5
  unmasked : m.pstate &&& daif = 0
  aligned : 16 ∣ m.sp.toNat
  sp_gt : base.toNat < m.sp.toNat
  sp_le : m.sp.toNat ≤ base.toNat + size.toNat
  top_le : base.toNat + size.toNat ≤ m.sp.toNat + 15

/-- The machine behind the `eret`. -/
def dispatched (top entry arg : Word) (mem : Memory) : Machine :=
  let c := newContext top entry arg
  ⟨Function.update c.x 10 c.sp, c.sp, c.elrEl1, c.spsrEl1, c.elrEl1, c.spsrEl1, mem⟩

/-- A task that is restored from its new context starts at its entry, with its argument. -/
theorem dispatched_starts (hsize : minStackSize.toNat ≤ size.toNat)
    (hfit : base.toNat + size.toNat < 2 ^ 64) (mem : Memory) :
    StartsFresh base size entry arg (dispatched (stackTop base size) entry arg mem) := by
  have hsp : (dispatched (stackTop base size) entry arg mem).sp.toNat =
      (base.toNat + size.toNat) / 16 * 16 := stackTop_toNat hfit
  have hmin : 1024 ≤ size.toNat := hsize
  constructor
  · rfl
  · rfl
  · intro i hi
    have h10 : i ≠ 10 := by
      rintro rfl
      exact absurd hi (by decide)
    have h0 : i ≠ 0 := by
      rintro rfl
      exact absurd hi (by decide)
    exact (Function.update_of_ne h10 _ _).trans (newContext_x h0)
  · exact (by decide : (0x5 : Word) &&& 0x1f = 0x5)
  · exact (by decide : (0x5 : Word) &&& daif = 0)
  · rw [hsp]
    exact Nat.dvd_mul_left 16 _
  all_goals omega

variable {l : Layout} {code : Code} {f : Machine → Machine}

/-- **The first dispatch**: for every block that `eos_create_task` accepts, `_os_create_context`
writes inside the block only, and `_os_restore_and_eret` starts the task from the frame at the
address that it returns. -/
theorem firstDispatch (hl : Loaded l code) (hsize : minStackSize.toNat ≤ size.toNat)
    (hfit : base.toNat + size.toNat < 2 ^ 64) (entry arg : Word) (m : Memory) :
    (∀ a : Word, ¬(base.toNat ≤ a.toNat ∧ a.toNat < base.toNat + size.toNat) →
      (osCreateContext m base size entry arg).2 a = m a) ∧
    ∀ m₀ : Machine, m₀.pc = l.osRestoreAndEret →
      m₀.x 0 = (osCreateContext m base size entry arg).1 →
      (∀ i < ctxSize, m₀.mem (m₀.x 0 + BitVec.ofNat 64 i) =
        (osCreateContext m base size entry arg).2 (m₀.x 0 + BitVec.ofNat 64 i)) →
      ∃ m₁, Erets code f m₀ m₁ ∧ StartsFresh base size entry arg m₁ := by
  constructor
  · intro a ha
    have htop := stackTop_toNat hfit
    have hmin : 1024 ≤ size.toNat := hsize
    apply osCreateContext_of_le
    rw [osCreateContext_fst]
    unfold ctxSize
    bv_omega
  · intro m₀ hpc hx hframe
    have hc : loadContext m₀.mem (m₀.x 0) = newContext (stackTop base size) entry arg := by
      rw [loadContext_congr hframe, hx, loadContext_osCreateContext]
    exact ⟨_, erets_osRestoreAndEret hl hpc hc, dispatched_starts hsize hfit m₀.mem⟩

/-- A block of the least size, that does not end at a 16-byte boundary. -/
theorem firstDispatch_least :
    ∃ m₁, Erets imageLayout.code id
        ⟨fun _ => (osCreateContext (fun _ => 0) 0x90008 1024 0x85000 7).1, 0x70000, 0x83000, 0x3c5,
          0, 0, (osCreateContext (fun _ => 0) 0x90008 1024 0x85000 7).2⟩ m₁ ∧
      StartsFresh 0x90008 1024 0x85000 7 m₁ :=
  (firstDispatch imageLayout_loaded (by decide) (by decide) 0x85000 7 fun _ => 0).2 _ rfl rfl
    fun _ _ => rfl

end Eos.Analysis
