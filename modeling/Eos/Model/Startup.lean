import Eos.Lib.AArch64

/-!
# The startup code of `hal/aarch64/entry.S`

From `_start` to the call of `_os_init` (entry.S:8-79), instruction by instruction, with the symbols
that linker.ld defines.  The code lies apart from the data, so that the point of execution is
the list of the instructions that follow; a branch leads to those behind its label.  Only the
registers that the code reads or writes are there, with `CurrentEL` as the number of the
exception level.
-/

set_option autoImplicit false

namespace Eos.Model

open Eos.Lib.AArch64 (Memory Word store daif)

/-- The symbols of linker.ld, and the address of `el1_entry`. -/
structure LinkerSymbols where
  bssStart : Word
  bssEnd : Word
  vectorsStart : Word
  stackTop : Word
  el1Entry : Word

/-- The system registers of the startup code. -/
inductive StartReg
  | hcrEl2
  | spsrEl2
  | elrEl2
  | spEl1
  | cpacrEl1
  | cnthctlEl2
  | cntkctlEl1
  | vbarEl1
  deriving DecidableEq

/-- The labels of the startup code. -/
inductive StartLabel
  | el1Entry
  | bssClearLoop
  | bssClearDone
  deriving DecidableEq

/-- The instructions of the startup code; `Xn` is register `n`. -/
inductive StartInstr
  /-- `msr DAIFSet, #0xf` -/
  | daifSet
  /-- `mrs Xt, CurrentEL` -/
  | mrsCurrentEl (t : Fin 31)
  | mrs (t : Fin 31) (r : StartReg)
  | msr (r : StartReg) (t : Fin 31)
  /-- `msr r, xzr` -/
  | msrZero (r : StartReg)
  /-- `mov Xd, #imm`, `adr Xd, label` and `ldr Xd, =symbol` -/
  | load (d : Fin 31) (v : Word)
  | lsr (d n : Fin 31) (shift : Nat)
  /-- `and Xd, Xn, #imm`, also for `bic` -/
  | and (d n : Fin 31) (imm : Word)
  | orr (d n : Fin 31) (imm : Word)
  /-- `mov sp, Xn` -/
  | movSp (n : Fin 31)
  | cmpImm (n : Fin 31) (imm : Word)
  | cmp (n m : Fin 31)
  /-- `b.ne` -/
  | bNe (label : StartLabel)
  /-- `b.hs` -/
  | bHs (label : StartLabel)
  | b (label : StartLabel)
  /-- `str xzr, [Xn], #8` -/
  | strZero (n : Fin 31)
  | isb
  | eret
  /-- `bl _os_init` -/
  | blOsInit
  deriving DecidableEq

/-- The state of the processor. -/
structure Startup where
  /-- what is executed next -/
  todo : List StartInstr
  currentEl : Nat
  pstate : Word
  x : Fin 31 → Word
  sp : Word
  /-- the flags of the last comparison -/
  zero : Bool
  carry : Bool
  sys : StartReg → Word
  mem : Memory

/-- `bss_clear_done` (entry.S:71-79). -/
def bssClearDone (l : LinkerSymbols) : List StartInstr :=
  [.load 0 l.vectorsStart, .msr .vbarEl1 0, .isb, .blOsInit]

/-- `bss_clear_loop` (entry.S:65-69). -/
def bssClearLoop (l : LinkerSymbols) : List StartInstr :=
  [.cmp 1 2, .bHs .bssClearDone, .strZero 1, .b .bssClearLoop] ++ bssClearDone l

/-- `el1_entry` (entry.S:55-63). -/
def el1Entry (l : LinkerSymbols) : List StartInstr :=
  [.load 0 l.stackTop, .and 0 0 (-16), .movSp 0, .load 1 l.bssStart, .load 2 l.bssEnd] ++
    bssClearLoop l

/-- The instructions behind a label. -/
def startText (l : LinkerSymbols) : StartLabel → List StartInstr
  | .el1Entry => el1Entry l
  | .bssClearLoop => bssClearLoop l
  | .bssClearDone => bssClearDone l

/-- `_start` (entry.S:8-53). -/
def startCode (l : LinkerSymbols) : List StartInstr :=
  [.daifSet, .mrsCurrentEl 0, .lsr 0 0 2, .cmpImm 0 2, .bNe .el1Entry,
   .load 1 ((1 : Word) <<< 31), .msr .hcrEl2 1, .load 1 0x3C5, .msr .spsrEl2 1,
   .load 1 l.el1Entry, .and 1 1 (~~~0b11), .isb, .msr .elrEl2 1,
   .load 1 l.stackTop, .and 1 1 (-16), .msr .spEl1 1,
   .mrs 0 .cpacrEl1, .orr 0 0 ((3 : Word) <<< 20), .msr .cpacrEl1 0, .isb,
   .mrs 0 .cnthctlEl2, .orr 0 0 ((1 : Word) <<< 0), .orr 0 0 ((1 : Word) <<< 1), .msr .cnthctlEl2 0,
   .msrZero .cntkctlEl1, .eret] ++ el1Entry l

namespace Startup

variable (s : Startup)

/-- Write a general register. -/
def write (d : Fin 31) (v : Word) : Startup := { s with x := Function.update s.x d v }

/-- Write a system register. -/
def writeSys (r : StartReg) (v : Word) : Startup := { s with sys := Function.update s.sys r v }

/-- The flags of a comparison. -/
def compare (v w : Word) : Startup :=
  { s with zero := decide (v = w), carry := decide (w.toNat ≤ v.toNat) }

/-- Go on at a label. -/
def goto (l : LinkerSymbols) (label : StartLabel) : Startup := { s with todo := startText l label }

/-- The effect of an instruction, with the instructions behind it in `todo`.  The call of `_os_init`
ends the startup code.  An `eret` is known only from EL2, with `ELR_EL2` at `el1_entry`; EL1 has to
be in AArch64 (`HCR_EL2.RW`), and `SPSR_EL2` to ask for EL1h in AArch64 (bit 4 is clear). -/
def exec (l : LinkerSymbols) : StartInstr → Option Startup
  | .daifSet => some { s with pstate := s.pstate ||| daif }
  | .mrsCurrentEl t => some (s.write t (BitVec.ofNat 64 (s.currentEl <<< 2)))
  | .mrs t r => some (s.write t (s.sys r))
  | .msr r t => some (s.writeSys r (s.x t))
  | .msrZero r => some (s.writeSys r 0)
  | .load d v => some (s.write d v)
  | .lsr d n shift => some (s.write d (s.x n >>> shift))
  | .and d n imm => some (s.write d (s.x n &&& imm))
  | .orr d n imm => some (s.write d (s.x n ||| imm))
  | .movSp n => some { s with sp := s.x n }
  | .cmpImm n imm => some (s.compare (s.x n) imm)
  | .cmp n m => some (s.compare (s.x n) (s.x m))
  | .bNe label => some (if s.zero = true then s else s.goto l label)
  | .bHs label => some (if s.carry = true then s.goto l label else s)
  | .b label => some (s.goto l label)
  | .strZero n => some ({ s with mem := store s.mem (s.x n) 0 }.write n (s.x n + 8))
  | .isb => some s
  | .eret =>
    if s.currentEl = 2 ∧ s.sys .elrEl2 = l.el1Entry ∧ (s.sys .hcrEl2).getLsbD 31 = true ∧
        s.sys .spsrEl2 &&& 0x1F = 5 then
      some ({ s with
        currentEl := 1, pstate := s.sys .spsrEl2, sp := s.sys .spEl1 }.goto l .el1Entry)
    else none
  | .blOsInit => none

/-- The next instruction. -/
def step (l : LinkerSymbols) (s : Startup) : Option Startup :=
  match s.todo with
  | [] => none
  | i :: is => exec { s with todo := is } l i

/-- The processor is about to call `_os_init`. -/
def CallsOsInit (s : Startup) : Prop := s.todo = [.blOsInit]

instance (s : Startup) : Decidable s.CallsOsInit := inferInstanceAs (Decidable (_ = _))

end Startup

end Eos.Model
