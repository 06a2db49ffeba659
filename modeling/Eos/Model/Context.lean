import Eos.Lib.AArch64
import Mathlib.Data.List.OfFn

/-!
# Contexts on AArch64

The routines of `hal/aarch64/context_asm.S` and the IRQ path of `hal/aarch64/entry.S`,
instruction by instruction, and what `core/interrupt.c` does with the contexts they save.
The addresses of the routines are a `Layout`.
-/

set_option autoImplicit false

namespace Eos.Model

open Eos.Lib.AArch64

/-! ## The frame -/

/-- `_os_context_t` (hal/aarch64/context.h:13-18). -/
@[ext]
structure Context where
  x : Fin 31 → Word
  sp : Word
  elrEl1 : Word
  spsrEl1 : Word

/-- `CTX_SIZE` -/
def ctxSize : Nat := 272

/-- `CTX_OFF_SP` -/
def ctxOffSp : Nat := 248

/-- `CTX_OFF_ELR` -/
def ctxOffElr : Nat := 256

/-- `CTX_OFF_SPSR` -/
def ctxOffSpsr : Nat := 264

/-- The words of a frame. -/
def Context.words (c : Context) : List Word := List.ofFn c.x ++ [c.sp, c.elrEl1, c.spsrEl1]

/-- The frame at an address. -/
def loadContext (m : Memory) (a : Word) : Context where
  x i := load m (a + BitVec.ofNat 64 (8 * i))
  sp := load m (a + BitVec.ofNat 64 ctxOffSp)
  elrEl1 := load m (a + BitVec.ofNat 64 ctxOffElr)
  spsrEl1 := load m (a + BitVec.ofNat 64 ctxOffSpsr)

/-- Write a frame. -/
def storeContext (m : Memory) (a : Word) (c : Context) : Memory := storeWords m a 0 c.words

/-- A context has 31 general registers, `SP`, `ELR_EL1` and `SPSR_EL1`. -/
theorem Context.length_words (c : Context) : c.words.length = 34 := by simp [words]

/-- **A frame is read back.** -/
theorem loadContext_storeContext (m : Memory) (a : Word) (c : Context) :
    loadContext (storeContext m a c) a = c := by
  have hword : ∀ i (hi : i < c.words.length),
      load (storeContext m a c) (a + BitVec.ofNat 64 (8 * i)) = c.words[i] := fun i hi => by
    have hload := load_storeWords (m := m) (a := a) (n := 0)
      (show 8 * (0 + c.words.length) ≤ 2 ^ 64 by rw [c.length_words]; omega) i hi
    rwa [Nat.zero_add] at hload
  have hlen := c.length_words
  refine Context.ext (funext fun i => ?_) ?_ ?_ ?_
  · refine (hword i (by omega)).trans ?_
    unfold Context.words
    rw [List.getElem_append_left (by simp), List.getElem_ofFn]
  · exact hword 31 (by omega)
  · exact hword 32 (by omega)
  · exact hword 33 (by omega)

/-- A frame depends on its own bytes only. -/
theorem loadContext_congr {m m' : Memory} {a : Word}
    (h : ∀ i < ctxSize, m (a + BitVec.ofNat 64 i) = m' (a + BitVec.ofNat 64 i)) :
    loadContext m a = loadContext m' a := by
  have hword : ∀ k, k + 8 ≤ ctxSize →
      load m (a + BitVec.ofNat 64 k) = load m' (a + BitVec.ofNat 64 k) := fun k hk => by
    apply load_congr
    intro i hi
    have hadd : a + BitVec.ofNat 64 k + BitVec.ofNat 64 i = a + BitVec.ofNat 64 (k + i) := by
      rw [BitVec.add_assoc, BitVec.ofNat_add]
    rw [hadd]
    exact h (k + i) (by omega)
  refine Context.ext (funext fun i => ?_) ?_ ?_ ?_
  · exact hword (8 * i) (by unfold ctxSize; omega)
  · exact hword ctxOffSp (by decide)
  · exact hword ctxOffElr (by decide)
  · exact hword ctxOffSpsr (by decide)

/-! ## The context of a new task -/

/-- `memset` (hal/aarch64/context.c:16-20), from `p` on. -/
def memset (m : Memory) (p : Word) (val : BitVec 32) : Nat → Memory
  | 0 => m
  | n + 1 => memset (Function.update m p (val.setWidth 8)) (p + 1) val n

/-- `_os_create_context` (hal/aarch64/context.c:45-63): the address of the context and the memory.
The fields are where the compiler puts the words of `_os_context_t`. -/
def osCreateContext (m : Memory) (stackBase stackSize entry arg : Word) : Word × Memory :=
  let sp := (stackBase + stackSize) &&& ~~~(0xF : Word)
  let ctx := sp - BitVec.ofNat 64 ctxSize
  let m := memset m ctx 0 ctxSize
  let m := store m (ctx + BitVec.ofNat 64 (8 * 0)) arg
  let m := store m (ctx + BitVec.ofNat 64 (8 * 31)) sp
  let m := store m (ctx + BitVec.ofNat 64 (8 * 32)) entry
  let m := store m (ctx + BitVec.ofNat 64 (8 * 33)) 0x5
  (ctx, m)

/-! ## The routines -/

/-- `_os_save_context` (hal/aarch64/context_asm.S:10-44), up to its `ret`. -/
def osSaveContextBody : List Instr :=
  [.sub .sp .sp ctxSize,
   .stp 0 1 .sp (0 * 16), .stp 2 3 .sp (1 * 16), .stp 4 5 .sp (2 * 16), .stp 6 7 .sp (3 * 16),
   .stp 8 9 .sp (4 * 16), .stp 10 11 .sp (5 * 16), .stp 12 13 .sp (6 * 16),
   .stp 14 15 .sp (7 * 16), .stp 16 17 .sp (8 * 16), .stp 18 19 .sp (9 * 16),
   .stp 20 21 .sp (10 * 16), .stp 22 23 .sp (11 * 16), .stp 24 25 .sp (12 * 16),
   .stp 26 27 .sp (13 * 16), .stp 28 29 .sp (14 * 16), .str 30 .sp (15 * 16),
   .add (.x 0) .sp ctxSize, .str 0 .sp ctxOffSp,
   .mrs 0 .elr, .str 0 .sp ctxOffElr,
   .mrs 0 .spsr, .str 0 .sp ctxOffSpsr,
   .mov (.x 0) .sp]

/-- `_os_restore_and_eret` (hal/aarch64/context_asm.S:46-81), up to its `eret`. -/
def osRestoreAndEretBody : List Instr :=
  [.mov (.x 9) (.x 0),
   .ldr 10 (.x 9) ctxOffElr, .ldr 11 (.x 9) ctxOffSpsr, .msr .elr 10, .msr .spsr 11,
   .ldp 0 1 (.x 9) (0 * 16), .ldp 2 3 (.x 9) (1 * 16), .ldp 4 5 (.x 9) (2 * 16),
   .ldp 6 7 (.x 9) (3 * 16),
   .ldp 10 11 (.x 9) (5 * 16), .ldp 12 13 (.x 9) (6 * 16), .ldp 14 15 (.x 9) (7 * 16),
   .ldp 16 17 (.x 9) (8 * 16), .ldp 18 19 (.x 9) (9 * 16), .ldp 20 21 (.x 9) (10 * 16),
   .ldp 22 23 (.x 9) (11 * 16), .ldp 24 25 (.x 9) (12 * 16), .ldp 26 27 (.x 9) (13 * 16),
   .ldp 28 29 (.x 9) (14 * 16), .ldr 30 (.x 9) (15 * 16),
   .ldr 8 (.x 9) (4 * 16), .ldr 10 (.x 9) ctxOffSp, .ldr 9 (.x 9) (4 * 16 + 8),
   .mov .sp (.x 10),
   .isb]

/-- Where the routines are. -/
structure Layout where
  vectorsEl1 : Word
  el1IrqSpxHandler : Word
  osSaveContext : Word
  osRestoreAndEret : Word
  osCommonInterruptHandler : Word

/-- `GICC_IAR`, the register that `el1_irq_spx_handler` reads. -/
def giccIar : Word := 0x0801000C

/-- `el1_irq_spx_handler` (hal/aarch64/entry.S:153-165). -/
def el1IrqSpxHandlerBody (l : Layout) : List Instr :=
  [.bl l.osSaveContext,
   .mov (.x 1) (.x 0), .ldrLiteral 2 giccIar, .ldrw 0 (.x 2), .bl l.osCommonInterruptHandler,
   .b l.osRestoreAndEret]

/-- The routines are in their places; the C code is known by its effect. -/
structure Loaded (l : Layout) (code : Code) : Prop where
  vector : code (l.vectorsEl1 + 0x280) = some (.b l.el1IrqSpxHandler)
  handler : Listing code l.el1IrqSpxHandler (el1IrqSpxHandlerBody l)
  save : Listing code l.osSaveContext (osSaveContextBody ++ [.ret])
  restore : Listing code l.osRestoreAndEret (osRestoreAndEretBody ++ [.eret])
  external : code l.osCommonInterruptHandler = none

/-- The routines in their places. -/
def Layout.code (l : Layout) : Code := fun a =>
  (place (l.vectorsEl1 + 0x280) [.b l.el1IrqSpxHandler] a).or <|
  (place l.el1IrqSpxHandler (el1IrqSpxHandlerBody l) a).or <|
  (place l.osSaveContext (osSaveContextBody ++ [.ret]) a).or <|
  place l.osRestoreAndEret (osRestoreAndEretBody ++ [.eret]) a

/-- An IRQ is taken while the processor is in state `m`. -/
def Layout.irq (l : Layout) (m : Machine) : Machine := m.takeIrq (l.vectorsEl1 + 0x280)

/-- What the IRQ path relies on when `_os_common_interrupt_handler(w0, x1)`, entered in state `m`,
returns in state `m'`: AAPCS64, and no write to the saved frame. -/
structure Aapcs64 (m m' : Machine) : Prop where
  pc : m'.pc = m.x 30
  sp : m'.sp = m.sp
  callee_saved : ∀ i : Fin 31, 19 ≤ i → i ≤ 29 → m'.x i = m.x i
  frame : ∀ i < ctxSize, m'.mem (m.x 1 + BitVec.ofNat 64 i) = m.mem (m.x 1 + BitVec.ofNat 64 i)

/-! ## What `core/interrupt.c` does with contexts -/

/-- `dst_words[i] = src_words[i]` -/
def copyWord (dst src : Word) (m : Memory) (i : Nat) : Memory :=
  store m (dst + BitVec.ofNat 64 (8 * i)) (load m (src + BitVec.ofNat 64 (8 * i)))

/-- `copy_context` (core/interrupt.c:39-66). -/
def copyContext (m : Memory) (dst src : Word) : Memory :=
  if dst = 0 ∨ src = 0 then m
  else
    let wordCount := ctxSize / 8
    if dst = src then m
    else if src < dst ∧ dst < src + BitVec.ofNat 64 ctxSize then
      (List.range wordCount).reverse.foldl (copyWord dst src) m
    else (List.range wordCount).foldl (copyWord dst src) m

/-- `save_current_task_sp` (core/interrupt.c:68-83), where `tcb` is the address of the field `sp`
of the current task. -/
def saveCurrentTaskSp (m : Memory) (tcb : Option Word) (sp : Word) : Memory :=
  match tcb with
  | none => m
  | some tcb =>
    let dest := load m tcb
    if dest = 0 then m else copyContext m dest sp

/-- Compiled C code takes the machine from `m` to `m'` without an exception.  On the bytes at
`keep` it has the effect that its source says; it may change all registers, and memory elsewhere,
such as its stack. -/
structure CompiledC (keep : Word → Prop) (effect : Memory → Memory) (m m' : Machine) : Prop where
  elr : m'.elr = m.elr
  spsr : m'.spsr = m.spsr
  mem : ∀ a, keep a → m'.mem a = effect m.mem a

end Eos.Model
