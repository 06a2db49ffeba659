import Eos.Analysis.ContextCopy
import Eos.Analysis.InterruptReturn

/-!
# The stack of an interrupted task

`save_current_task_sp` copies the context that the IRQ stub has saved below the stack pointer
to the frame that the task was last resumed from.  That frame ends where the stack pointer
was then; so what the task has pushed since lies in it, and is overwritten.

`liveStack_iff` says when no live byte changes.
-/

set_option autoImplicit false

namespace Eos.Analysis

open Eos.Lib.AArch64
open Eos.Model

/-! ## The live stack -/

/-- Byte `k` of a context. -/
def contextByte (c : Context) (k : Nat) : BitVec 8 := byte (c.words.getD (k / 8) 0) (k % 8)

/-- The bytes of a stored context. -/
theorem storeContext_apply {m : Memory} {a : Word} {c : Context} {k : Nat} (hk : k < ctxSize) :
    storeContext m a c (a + BitVec.ofNat 64 k) = contextByte c k := by
  have hlen := c.length_words
  have hi : k / 8 < c.words.length := by unfold ctxSize at hk; omega
  have hword := load_storeWords (m := m) (a := a) (n := 0)
    (show 8 * (0 + c.words.length) ≤ 2 ^ 64 by omega) (k / 8) hi
  have haddr : a + BitVec.ofNat 64 k =
      a + BitVec.ofNat 64 (8 * (0 + k / 8)) + BitVec.ofNat 64 (k % 8) := by
    rw [BitVec.add_assoc, ← BitVec.ofNat_add]
    congr 2
    omega
  have hbyte := byte_load (m := storeWords m a 0 c.words)
    (a := a + BitVec.ofNat 64 (8 * (0 + k / 8))) (Nat.mod_lt k (show 8 > 0 by omega))
  rw [haddr, storeContext, ← hbyte, hword, contextByte, List.getD_eq_getElem?_getD,
    List.getElem?_eq_getElem hi, Option.getD_some]

/-- A stored context changes no other byte. -/
theorem storeContext_of_le {m : Memory} {a b : Word} {c : Context} (h : ctxSize ≤ (b - a).toNat) :
    storeContext m a c b = m b := by
  apply storeWords_of_le
  rw [c.length_words]
  exact h

/-- The current task, whose field `tcb->sp` is at `tcb`, was last resumed from the context at
`frame`, and has pushed `n` bytes since; its stack ends at `top`. -/
structure Pushed (tcb frame : Word) (n top : Nat) (m : Machine) : Prop where
  frame_eq : load m.mem tcb = frame
  sp : m.sp.toNat + n = frame.toNat + ctxSize
  frame_le : frame.toNat + ctxSize ≤ top
  top_le : top ≤ 2 ^ 64
  /-- the stub's frame is in the stack, and the TCB is not in this frame -/
  room : ctxSize ≤ m.sp.toNat
  tcb_disjoint : 8 ≤ (frameBelow m.sp - tcb).toNat ∧
    (frameBelow m.sp - tcb).toNat ≤ 2 ^ 64 - ctxSize

/-- The live bytes of a stack. -/
def Live (m : Machine) (top : Nat) (a : Word) : Prop := m.sp.toNat ≤ a.toNat ∧ a.toNat < top

variable {l : Layout} {m saved : Machine} {tcb frame : Word} {n top : Nat}

/-- The C function gets the address of the frame as its second argument. -/
theorem handlerEntry_x_one (l : Layout) (m : Machine) :
    (handlerEntry l m).x 1 = frameBelow m.sp := by
  unfold handlerEntry
  simp only
  rw [Function.update_of_ne (by decide), Function.update_of_ne (by decide),
    Function.update_of_ne (by decide), Function.update_self]

/-- The stub saves the context below the live bytes. -/
theorem Pushed.handlerEntry_mem (hp : Pushed tcb frame n top m) {a : Word} (ha : Live m top a) :
    (handlerEntry l m).mem a = m.mem a := by
  have hroom := hp.room
  have hsp := ha.1
  apply storeContext_of_le
  unfold frameBelow ctxSize at *
  bv_omega

/-- The stub does not change `tcb->sp`. -/
theorem Pushed.load_tcb (hp : Pushed tcb frame n top m) :
    load (handlerEntry l m).mem tcb = frame := by
  obtain ⟨hdis, hdis'⟩ := hp.tcb_disjoint
  rw [← hp.frame_eq]
  apply load_congr
  intro i hi
  apply storeContext_of_le
  unfold ctxSize at *
  bv_omega

/-- **What `save_current_task_sp` does to a live byte**. -/
theorem Pushed.saved_apply (hp : Pushed tcb frame n top m) {a : Word} (ha : Live m top a) :
    saveCurrentTaskSp (handlerEntry l m).mem (some tcb) ((handlerEntry l m).x 1) a =
      if frameBelow m.sp ≠ 0 ∧ (a - frame).toNat < ctxSize then
        contextByte (irqContext l m) (a - frame).toNat
      else m.mem a := by
  have hsp := hp.sp
  have hroom := hp.room
  have htop := hp.frame_le.trans hp.top_le
  have hkept := hp.handlerEntry_mem (l := l) ha
  have hlive := ha.1
  unfold saveCurrentTaskSp
  simp only [hp.load_tcb, handlerEntry_x_one]
  by_cases hzero : frameBelow m.sp = 0
  · have hnot : ¬(frameBelow m.sp ≠ 0 ∧ (a - frame).toNat < ctxSize) := fun h => h.1 hzero
    rw [if_neg hnot, ← hkept]
    split
    · rfl
    · simp only [copyContext, hzero, or_true, if_true]
  · have hne : frame ≠ 0 := by
      unfold frameBelow ctxSize at *
      bv_omega
    have hframe : (frameBelow m.sp).toNat + ctxSize ≤ 2 ^ 64 := by
      unfold frameBelow ctxSize at *
      bv_omega
    rw [if_neg hne, copyContext_eq_move hframe htop hne hzero, move_apply]
    by_cases hin : (a - frame).toNat < ctxSize
    · rw [if_pos hin, if_pos ⟨hzero, hin⟩]
      have hk := storeContext_apply (m := m.mem) (a := frameBelow m.sp) (c := irqContext l m) hin
      rwa [BitVec.ofNat_toNat, BitVec.setWidth_eq] at hk
    · rw [if_neg hin, if_neg (fun h => hin h.2), hkept]

/-- **The live stack** of an interrupted task is left alone if and only if every live byte in
the frame that it was last resumed from is equal to the byte of its context that is
copied there; so it is if the task has pushed nothing. -/
theorem liveStack_iff (hp : Pushed tcb frame n top m)
    (hc : CompiledC (Live m top) (saveCurrentTaskSp · (some tcb) ((handlerEntry l m).x 1))
      (handlerEntry l m) saved) :
    (∀ a, Live m top a → saved.mem a = m.mem a) ↔
      n = 0 ∨ frameBelow m.sp = 0 ∨ ∀ k < ctxSize, m.sp.toNat ≤ frame.toNat + k →
        m.mem (frame + BitVec.ofNat 64 k) = contextByte (irqContext l m) k := by
  have hsp := hp.sp
  have hroom := hp.room
  have htop := hp.frame_le.trans hp.top_le
  constructor
  · intro h
    by_cases hzero : frameBelow m.sp = 0
    · exact .inr (.inl hzero)
    refine .inr (.inr fun k hk hle => ?_)
    have hadd : (frame + BitVec.ofNat 64 k).toNat = frame.toNat + k := by
      unfold ctxSize at *
      bv_omega
    have hsub : (frame + BitVec.ofNat 64 k - frame).toNat = k := by
      unfold ctxSize at *
      bv_omega
    have ha : Live m top (frame + BitVec.ofNat 64 k) := by
      have := hp.frame_le
      exact ⟨by omega, by omega⟩
    rw [← h _ ha, hc.mem _ ha, hp.saved_apply ha, hsub, if_pos ⟨hzero, hk⟩]
  · intro h a ha
    rw [hc.mem a ha, hp.saved_apply ha]
    split
    · next hin =>
      obtain ⟨hzero, hin⟩ := hin
      have hle : m.sp.toNat ≤ frame.toNat + (a - frame).toNat := by
        have := ha.1
        unfold ctxSize at *
        bv_omega
      obtain rfl | h | h := h
      · unfold ctxSize at *
        have := ha.1
        bv_omega
      · exact absurd h hzero
      · have hb := h _ hin hle
        rw [BitVec.ofNat_toNat, BitVec.setWidth_eq, add_sub_cancel] at hb
        exact hb.symm
    · rfl

/-- A task, last resumed from `frame`, is interrupted with the stack pointer `0x90000`. -/
def interruptedSince (frame : Word) : Machine :=
  { interrupted fun _ => 0 with mem := store (fun _ => 0) 0x100000 frame }

/-- The C code does what its source says. -/
def savedSince (m : Machine) : Machine :=
  let entry := handlerEntry imageLayout m
  { entry with mem := saveCurrentTaskSp entry.mem (some 0x100000) (entry.x 1) }

/-- The example's machine is one that the C code may end in. -/
theorem savedSince_compiled (m : Machine) (top : Nat) :
    CompiledC (Live m top)
      (saveCurrentTaskSp · (some 0x100000) ((handlerEntry imageLayout m).x 1))
      (handlerEntry imageLayout m) (savedSince m) :=
  ⟨rfl, rfl, fun _ _ => rfl⟩

/-- **An overwritten stack**: the task has pushed 16 bytes, and the two words of them turn from zero
into the saved `ELR_EL1` and the saved `SPSR_EL1`. -/
theorem liveStack_violated :
    Pushed 0x100000 0x8ff00 16 0x90010 (interruptedSince 0x8ff00) ∧
      ¬∀ a, Live (interruptedSince 0x8ff00) 0x90010 a →
        (savedSince (interruptedSince 0x8ff00)).mem a = (interruptedSince 0x8ff00).mem a := by
  have hp : Pushed 0x100000 0x8ff00 16 0x90010 (interruptedSince 0x8ff00) :=
    ⟨load_store _ _ _, by decide, by decide, by decide, by decide, by decide, by decide⟩
  have ha : Live (interruptedSince 0x8ff00) 0x90010 0x90008 := ⟨by decide, by decide⟩
  refine ⟨hp, fun h => ?_⟩
  have hbyte := ((savedSince_compiled _ 0x90010).mem _ ha).symm.trans (h _ ha)
  rw [hp.saved_apply ha, if_pos (by decide)] at hbyte
  exact absurd hbyte (by decide)

/-- A task that has pushed its `ELR_EL1` and its `SPSR_EL1`. -/
def pushedSame : Machine :=
  let m := interruptedSince 0x8ff00
  { m with mem := store (store m.mem 0x90000 m.pc) 0x90008 m.pstate }

/-- A task that has pushed what its context has at the same offsets. -/
theorem liveStack_iff_pushed :
    Pushed 0x100000 0x8ff00 16 0x90010 pushedSame ∧
      ∀ a, Live pushedSame 0x90010 a → (savedSince pushedSame).mem a = pushedSame.mem a := by
  have hp : Pushed 0x100000 0x8ff00 16 0x90010 pushedSame :=
    ⟨by decide, by decide, by decide, by decide, by decide, by decide, by decide⟩
  have hiff := liveStack_iff hp (savedSince_compiled pushedSame 0x90010)
  refine ⟨hp, hiff.mpr (.inr (.inr fun k hk hle => ?_))⟩
  -- only the last two words of the frame are live
  have hpushed : ∀ j < 16, pushedSame.mem (0x8ff00 + BitVec.ofNat 64 (256 + j)) =
      contextByte (irqContext imageLayout pushedSame) (256 + j) := by decide
  have hk' : 256 ≤ k := by
    have hsp : pushedSame.sp.toNat = 0x90000 := rfl
    have hframe : (0x8ff00 : Word).toNat = 0x8ff00 := rfl
    omega
  obtain ⟨j, rfl⟩ := Nat.exists_eq_add_of_le hk'
  unfold ctxSize at hk
  exact hpushed j (by omega)

end Eos.Analysis
