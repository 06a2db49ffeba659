import Mathlib.Data.BitVec
import Mathlib.Data.List.Induction
import Mathlib.Logic.Function.Basic

/-!
# A small AArch64 machine

The general registers, the stack pointer and the system registers that exceptions use, a
memory of bytes, and the instructions that save and restore contexts.  Code lies apart from
the memory, as a partial map from addresses to instructions; an address without one is the
entry of code that is known by its effect `f` only.

Words are stored with the least significant byte first, at any address, and addresses wrap
around at `2^64`; `load_storeWords` reads back a block of words, and `Runs.listing`
runs the straight part of a routine.
-/

set_option autoImplicit false

namespace Eos.Lib.AArch64

/-- A 64-bit word. -/
abbrev Word := BitVec 64

/-! ## Memory -/

section Memory

/-- A memory of bytes. -/
abbrev Memory := Word → BitVec 8

/-- Byte `i` of a word. -/
def byte (v : Word) (i : Nat) : BitVec 8 := v.extractLsb' (8 * i) 8

/-- The word of eight bytes. -/
def ofBytes (b : Nat → BitVec 8) : Word :=
  (b 7 ++ b 6 ++ b 5 ++ b 4 ++ b 3 ++ b 2 ++ b 1 ++ b 0 : BitVec 64)

/-- The word at an address. -/
def load (m : Memory) (a : Word) : Word := ofBytes fun i => m (a + BitVec.ofNat 64 i)

/-- Load four bytes and extend them with zeros. -/
def load32 (m : Memory) (a : Word) : Word :=
  ofBytes fun i => if i < 4 then m (a + BitVec.ofNat 64 i) else 0

/-- The memory with a word stored at an address. -/
def store (m : Memory) (a v : Word) : Memory :=
  fun c => if (c - a).toNat < 8 then byte v (c - a).toNat else m c

/-- Store words one after the other, from word `n` of a block on. -/
def storeWords (m : Memory) (a : Word) : Nat → List Word → Memory
  | _, [] => m
  | n, v :: vs => storeWords (store m (a + BitVec.ofNat 64 (8 * n)) v) a (n + 1) vs

/-- Move `n` bytes as if through a copy of them, whether the ranges overlap or not. -/
def move (m : Memory) (dst src : Word) (n : Nat) : Memory :=
  fun c => if (c - dst).toNat < n then m (src + (c - dst)) else m c

variable {m m' : Memory} {a b v : Word}

/-- A word is made of its bytes. -/
theorem ofBytes_byte (v : Word) : ofBytes (byte v) = v := by
  apply BitVec.eq_of_getLsbD_eq
  intro i hi
  unfold ofBytes byte
  simp only [BitVec.getLsbD_append, BitVec.getLsbD_extractLsb']
  grind

/-- Only the first eight bytes count. -/
theorem ofBytes_congr {b c : Nat → BitVec 8} (h : ∀ i < 8, b i = c i) : ofBytes b = ofBytes c := by
  unfold ofBytes
  rw [h 0 (by omega), h 1 (by omega), h 2 (by omega), h 3 (by omega), h 4 (by omega),
    h 5 (by omega), h 6 (by omega), h 7 (by omega)]

/-- The bytes of a word that was put together from bytes. -/
theorem byte_ofBytes {b : Nat → BitVec 8} {i : Nat} (hi : i < 8) : byte (ofBytes b) i = b i := by
  apply BitVec.eq_of_getLsbD_eq
  intro j hj
  unfold ofBytes byte
  simp only [BitVec.getLsbD_append, BitVec.getLsbD_extractLsb', hj, decide_true, Bool.true_and]
  grind

/-- The bytes of a loaded word are those in memory. -/
theorem byte_load {i : Nat} (hi : i < 8) : byte (load m a) i = m (a + BitVec.ofNat 64 i) :=
  byte_ofBytes hi

/-- Equal bytes give equal words. -/
theorem load_congr (h : ∀ i < 8, m (a + BitVec.ofNat 64 i) = m' (a + BitVec.ofNat 64 i)) :
    load m a = load m' a := ofBytes_congr h

/-- A word that was stored is loaded again. -/
theorem load_store (m : Memory) (a v : Word) : load (store m a v) a = v := by
  rw [← ofBytes_byte v, load]
  apply ofBytes_congr
  intro i hi
  have hd : (a + BitVec.ofNat 64 i - a).toNat = i := by bv_omega
  simp only [store, hd, hi, if_true, ofBytes_byte]

/-- A store leaves the words alone that it does not overlap. -/
theorem load_store_of_disjoint (h : 8 ≤ (b - a).toNat) (h' : (b - a).toNat ≤ 2 ^ 64 - 8) :
    load (store m a v) b = load m b := by
  apply load_congr
  intro i hi
  have hd : (b + BitVec.ofNat 64 i - a).toNat = (b - a).toNat + i := by bv_omega
  exact if_neg (by omega)

/-- The bytes that a store does not overlap stay. -/
theorem store_of_le (h : 8 ≤ (b - a).toNat) : store m a v b = m b := if_neg (Nat.not_lt.mpr h)

/-- A store to a block leaves its other words alone. -/
theorem load_store_of_ne {i j : Nat} (hi : 8 * i + 8 ≤ 2 ^ 64) (hj : 8 * j + 8 ≤ 2 ^ 64)
    (hne : i ≠ j) :
    load (store m (a + BitVec.ofNat 64 (8 * i)) v) (a + BitVec.ofNat 64 (8 * j)) =
      load m (a + BitVec.ofNat 64 (8 * j)) := by
  apply load_store_of_disjoint <;> bv_omega

/-- The words of a block that are not stored stay. -/
theorem load_storeWords_of_lt {n k : Nat} {vs : List Word} (hk : k < n)
    (hn : 8 * (n + vs.length) ≤ 2 ^ 64) :
    load (storeWords m a n vs) (a + BitVec.ofNat 64 (8 * k)) =
      load m (a + BitVec.ofNat 64 (8 * k)) := by
  induction vs generalizing m n with
  | nil => rfl
  | cons v vs ih =>
    rw [List.length_cons] at hn
    rw [storeWords, ih (by omega) (by omega)]
    apply load_store_of_disjoint <;> bv_omega

/-- The bytes behind a block stay. -/
theorem storeWords_of_le {n : Nat} {vs : List Word} (h : 8 * (n + vs.length) ≤ (b - a).toNat) :
    storeWords m a n vs b = m b := by
  induction vs generalizing m n with
  | nil => rfl
  | cons v vs ih =>
    rw [List.length_cons] at h
    rw [storeWords, ih (by omega)]
    exact if_neg (by bv_omega)

/-- **A block of words is read back.** -/
theorem load_storeWords {n : Nat} {vs : List Word} (hn : 8 * (n + vs.length) ≤ 2 ^ 64) (i : Nat)
    (hi : i < vs.length) :
    load (storeWords m a n vs) (a + BitVec.ofNat 64 (8 * (n + i))) = vs[i] := by
  induction vs generalizing m n i with
  | nil => exact absurd hi (Nat.not_lt_zero i)
  | cons v vs ih =>
    rw [List.length_cons] at hn hi
    cases i with
    | zero =>
      rw [storeWords, Nat.add_zero n, load_storeWords_of_lt (by omega) (by omega), load_store,
        List.getElem_cons_zero]
    | succ i =>
      have hi' := ih (m := store m (a + BitVec.ofNat 64 (8 * n)) v) (n := n + 1) (by omega) i
        (by omega)
      rwa [Nat.add_right_comm] at hi'

/-- A byte after a move: from the source inside the destination, and the old one elsewhere. -/
theorem move_apply (m : Memory) (dst src : Word) (n : Nat) (c : Word) :
    move m dst src n c = if (c - dst).toNat < n then m (src + (c - dst)) else m c := rfl

/-- The destination of a move has what was at the source. -/
theorem move_at {dst src : Word} {n k : Nat} (hn : n ≤ 2 ^ 64) (hk : k < n) :
    move m dst src n (dst + BitVec.ofNat 64 k) = m (src + BitVec.ofNat 64 k) := by
  have hd : dst + BitVec.ofNat 64 k - dst = BitVec.ofNat 64 k := by bv_omega
  have hlt : (BitVec.ofNat 64 k).toNat < n := by
    rw [BitVec.toNat_ofNat, Nat.mod_eq_of_lt (by omega)]
    exact hk
  rw [move_apply, hd, if_pos hlt]

/-- A move changes its destination only. -/
theorem move_of_le {dst src : Word} {n : Nat} (h : n ≤ (b - dst).toNat) :
    move m dst src n b = m b := if_neg (Nat.not_lt.mpr h)

end Memory

/-! ## Instructions -/

section Machine

/-- There are general registers; the numerals `0` to `30` name them. -/
instance registers_neZero : NeZero 31 := ⟨by decide⟩

/-- The state of the processor at EL1, with `SP_EL1` as its stack pointer. -/
@[ext]
structure Machine where
  x : Fin 31 → Word
  sp : Word
  pc : Word
  pstate : Word
  elr : Word
  spsr : Word
  mem : Memory

/-- A general register or the stack pointer. -/
inductive Reg
  | x (i : Fin 31)
  | sp
  deriving DecidableEq

/-- The system registers that keep the point of an exception. -/
inductive SysReg
  | elr
  | spsr
  deriving DecidableEq

/-- The instructions of the code that is modelled. -/
inductive Instr
  | add (d n : Reg) (imm : Nat)
  | sub (d n : Reg) (imm : Nat)
  | mov (d n : Reg)
  /-- `ldr Xd, =v` -/
  | ldrLiteral (d : Fin 31) (v : Word)
  /-- `ldr Wd, [Xn]` -/
  | ldrw (d : Fin 31) (n : Reg)
  | ldr (t : Fin 31) (n : Reg) (imm : Nat)
  | str (t : Fin 31) (n : Reg) (imm : Nat)
  | ldp (t u : Fin 31) (n : Reg) (imm : Nat)
  | stp (t u : Fin 31) (n : Reg) (imm : Nat)
  | mrs (t : Fin 31) (s : SysReg)
  | msr (s : SysReg) (t : Fin 31)
  | isb
  | b (target : Word)
  | bl (target : Word)
  | ret
  | eret
  deriving DecidableEq

/-- `PSTATE.{D,A,I,F}` -/
def daif : Word := 0x3c0

namespace Machine

variable (m : Machine)

/-- Read a register. -/
def read : Reg → Word
  | .x i => m.x i
  | .sp => m.sp

/-- Write a register. -/
def write (v : Word) : Reg → Machine
  | .x i => { m with x := Function.update m.x i v }
  | .sp => { m with sp := v }

/-- Read a system register. -/
def readSys : SysReg → Word
  | .elr => m.elr
  | .spsr => m.spsr

/-- Write a system register. -/
def writeSys (v : Word) : SysReg → Machine
  | .elr => { m with elr := v }
  | .spsr => { m with spsr := v }

/-- Store a word relative to a base register. -/
def storeAt (n : Reg) (offset : Nat) (v : Word) : Machine :=
  { m with mem := store m.mem (m.read n + BitVec.ofNat 64 offset) v }

/-- Load a word relative to a base register. -/
def loadAt (n : Reg) (offset : Nat) : Word := load m.mem (m.read n + BitVec.ofNat 64 offset)

/-- Go on with the next instruction. -/
def next : Machine := { m with pc := m.pc + 4 }

/-- An IRQ is taken at EL1h: the point of interruption goes to `ELR_EL1` and `SPSR_EL1`, and
interrupts are masked. -/
def takeIrq (vector : Word) : Machine :=
  { m with elr := m.pc, spsr := m.pstate, pc := vector, pstate := m.pstate ||| daif }

end Machine

open Machine in
/-- The effect of an instruction.  An `eret` takes every `SPSR_EL1` as one of EL1h: the processor
stays at EL1 with the same stack pointer register, whatever mode the bits of `SPSR_EL1` name. -/
def Instr.exec (m : Machine) : Instr → Machine
  | .add d n imm => (m.write (m.read n + BitVec.ofNat 64 imm) d).next
  | .sub d n imm => (m.write (m.read n - BitVec.ofNat 64 imm) d).next
  | .mov d n => (m.write (m.read n) d).next
  | .ldrLiteral d v => (m.write v (.x d)).next
  | .ldrw d n => (m.write (load32 m.mem (m.read n)) (.x d)).next
  | .ldr t n imm => (m.write (m.loadAt n imm) (.x t)).next
  | .str t n imm => (m.storeAt n imm (m.x t)).next
  | .ldp t u n imm => ((m.write (m.loadAt n imm) (.x t)).write (m.loadAt n (imm + 8)) (.x u)).next
  | .stp t u n imm => ((m.storeAt n imm (m.x t)).storeAt n (imm + 8) (m.x u)).next
  | .mrs t s => (m.write (m.readSys s) (.x t)).next
  | .msr s t => (m.writeSys (m.x t) s).next
  | .isb => m.next
  | .b target => { m with pc := target }
  | .bl target => { m with x := Function.update m.x 30 (m.pc + 4), pc := target }
  | .ret => { m with pc := m.x 30 }
  | .eret => { m with pc := m.elr, pstate := m.spsr }

/-- The instruction does not branch. -/
def Instr.straight : Instr → Bool
  | .b _ | .bl _ | .ret | .eret => false
  | _ => true

/-- An instruction that does not branch leads to the one behind it. -/
theorem Instr.exec_pc {i : Instr} (h : i.straight = true) (m : Machine) :
    (i.exec m).pc = m.pc + 4 := by
  cases i with
  | add d n | sub d n | mov d n => cases d <;> rfl
  | msr s t => cases s <;> rfl
  | b | bl | ret | eret => cases h
  | _ => rfl

end Machine

/-! ## Execution -/

section Execution

/-- Where instructions are. -/
abbrev Code := Word → Option Instr

/-- One instruction, or the effect of the code that is called. -/
def step (code : Code) (f : Machine → Machine) (m : Machine) : Machine :=
  match code m.pc with
  | some i => i.exec m
  | none => f m

/-- A routine starts at an address. -/
def Listing (code : Code) (a : Word) : List Instr → Prop
  | [] => True
  | i :: is => code a = some i ∧ Listing code (a + 4) is

instance (code : Code) : ∀ a is, Decidable (Listing code a is)
  | _, [] => .isTrue trivial
  | a, i :: is =>
    have : Decidable (Listing code (a + 4) is) := instDecidableListing code (a + 4) is
    inferInstanceAs (Decidable (code a = some i ∧ Listing code (a + 4) is))

/-- A routine at an address. -/
def place (a : Word) (is : List Instr) : Code := fun b =>
  if (b - a).toNat % 4 = 0 then is[(b - a).toNat / 4]? else none

/-- The effect of instructions one after the other. -/
def execAll (m : Machine) : List Instr → Machine
  | [] => m
  | i :: is => execAll (i.exec m) is

variable {code : Code} {f : Machine → Machine} {m : Machine}

/-- The machine runs from one state to another without an `eret`. -/
inductive Runs (code : Code) (f : Machine → Machine) : Machine → Machine → Prop
  | refl (m : Machine) : Runs code f m m
  | step {m m' : Machine} (h : code m.pc ≠ some .eret)
    (hr : Runs code f (step code f m) m') : Runs code f m m'

/-- The first `eret` the machine reaches takes it to `m'`. -/
def Erets (code : Code) (f : Machine → Machine) (m m' : Machine) : Prop :=
  ∃ m₁, Runs code f m m₁ ∧ code m₁.pc = some .eret ∧ m' = Instr.eret.exec m₁

/-- Two runs, one after the other. -/
theorem Runs.trans {m m₁ m₂ : Machine} (h : Runs code f m m₁) (h' : Runs code f m₁ m₂) :
    Runs code f m m₂ := by
  induction h with
  | refl => exact h'
  | step hne _ ih => exact .step hne (ih h')

/-- A call runs to where it returns. -/
theorem Runs.of_call (h : code m.pc = none) : Runs code f m (f m) := by
  apply Runs.step (by simp [h])
  rw [AArch64.step, h]
  exact .refl _

/-- A run of one instruction of the code. -/
theorem Runs.instr {i : Instr} (h : code m.pc = some i) (hi : i ≠ .eret) :
    Runs code f m (i.exec m) := by
  apply Runs.step (by simp [h, hi])
  rw [AArch64.step, h]
  exact .refl _

/-- A branch. -/
theorem Runs.b {target : Word} (h : code m.pc = some (.b target)) :
    Runs code f m { m with pc := target } := Runs.instr h (by simp)

/-- A branch that leaves the return address in `x30`. -/
theorem Runs.bl {target : Word} (h : code m.pc = some (.bl target)) :
    Runs code f m { m with x := Function.update m.x 30 (m.pc + 4), pc := target } :=
  Runs.instr h (by simp)

/-- **The straight part of a routine** runs to what follows it. -/
theorem Runs.listing {is js : List Instr} (hl : Listing code m.pc (is ++ js))
    (hs : ∀ i ∈ is, i.straight = true) :
    Runs code f m (execAll m is) ∧ Listing code (execAll m is).pc js := by
  induction is generalizing m with
  | nil => exact ⟨.refl m, hl⟩
  | cons i is ih =>
    have hi := hs i List.mem_cons_self
    obtain ⟨hrun, hrest⟩ := ih (m := i.exec m) (by rw [Instr.exec_pc hi]; exact hl.2)
      fun j hj => hs j (List.mem_cons_of_mem i hj)
    refine ⟨(Runs.instr hl.1 ?_).trans hrun, hrest⟩
    rintro rfl
    cases hi

/-- Steps without an `eret` in front of those that lead to one. -/
theorem Erets.of_runs {m m₁ m' : Machine} (h : Runs code f m m₁) (h' : Erets code f m₁ m') :
    Erets code f m m' := by
  obtain ⟨m₂, hr, he, hm'⟩ := h'
  exact ⟨m₂, h.trans hr, he, hm'⟩

end Execution

/-! ## Sequences of loads -/

section Loads

/-- Straight code in two parts. -/
theorem execAll_append (m : Machine) (is js : List Instr) :
    execAll m (is ++ js) = execAll (execAll m is) js := by
  induction is generalizing m with
  | nil => rfl
  | cons i is ih => exact ih _

/-- A load with base `Xn` that keeps the base. -/
def isLoad (n : Fin 31) : Instr → Bool
  | .ldr t (.x k) _ => k = n ∧ t ≠ n
  | .ldp t u (.x k) _ => k = n ∧ t ≠ n ∧ u ≠ n
  | _ => false

/-- The registers a load writes, with the offsets of their words. -/
def loads : Instr → List (Fin 31 × Nat)
  | .ldr t _ imm => [(t, imm)]
  | .ldp t u _ imm => [(t, imm), (u, imm + 8)]
  | _ => []

/-- Load registers with the words of a block. -/
def loadAll (m : Memory) (a : Word) (x : Fin 31 → Word) (l : List (Fin 31 × Nat)) : Fin 31 → Word :=
  l.foldl (fun x p => Function.update x p.1 (load m (a + BitVec.ofNat 64 p.2))) x

/-- A list of loads in two parts. -/
theorem loadAll_append (m : Memory) (a : Word) (x : Fin 31 → Word) (l l' : List (Fin 31 × Nat)) :
    loadAll m a x (l ++ l') = loadAll m a (loadAll m a x l) l' := List.foldl_append

/-- A register holds the word of its last load. -/
theorem loadAll_apply {m : Memory} {a : Word} {x : Fin 31 → Word} {l : List (Fin 31 × Nat)}
    {i : Fin 31} {o : Nat} (h : l.reverse.lookup i = some o) :
    loadAll m a x l i = load m (a + BitVec.ofNat 64 o) := by
  induction l using List.reverseRecOn with
  | nil => cases h
  | append_singleton l p ih =>
    rw [List.reverse_append, List.reverse_singleton, List.singleton_append, List.lookup_cons] at h
    rw [loadAll_append]
    by_cases hp : i = p.1
    · subst hp
      simp only [beq_self_eq_true, Option.some.injEq] at h
      rw [← h]
      exact Function.update_self ..
    · rw [beq_false_of_ne hp] at h
      exact (Function.update_of_ne hp _ _).trans (ih h)

/-- A load through `Xn` changes the registers it names, and those only. -/
theorem exec_load {m : Machine} {n : Fin 31} {i : Instr} (h : isLoad n i = true) :
    i.exec m = { m with x := loadAll m.mem (m.x n) m.x (loads i), pc := m.pc + 4 } ∧
      loadAll m.mem (m.x n) m.x (loads i) n = m.x n := by
  cases i with
  | ldr t r imm =>
    cases r with
    | sp => cases h
    | x k =>
      obtain ⟨rfl, ht⟩ := of_decide_eq_true h
      exact ⟨rfl, Function.update_of_ne ht.symm _ _⟩
  | ldp t u r imm =>
    cases r with
    | sp => cases h
    | x k =>
      obtain ⟨rfl, ht, hu⟩ := of_decide_eq_true h
      exact ⟨rfl, (Function.update_of_ne hu.symm _ _).trans (Function.update_of_ne ht.symm _ _)⟩
  | _ => cases h

/-- **A sequence of loads** with one base, which it keeps. -/
theorem execAll_loads {n : Fin 31} {is : List Instr} (h : ∀ i ∈ is, isLoad n i = true)
    (m : Machine) :
    (∃ pc, execAll m is =
      { m with x := loadAll m.mem (m.x n) m.x (is.flatMap loads), pc := pc }) ∧
      loadAll m.mem (m.x n) m.x (is.flatMap loads) n = m.x n := by
  induction is generalizing m with
  | nil => exact ⟨⟨m.pc, rfl⟩, rfl⟩
  | cons i is ih =>
    obtain ⟨he, hb⟩ := exec_load (m := m) (h i List.mem_cons_self)
    obtain ⟨⟨pc, ih⟩, ihb⟩ := ih (fun j hj => h j (List.mem_cons_of_mem i hj)) (i.exec m)
    rw [List.flatMap_cons, loadAll_append]
    rw [he] at ih ihb
    simp only [hb] at ih ihb
    exact ⟨⟨pc, by rw [execAll, he, ih]⟩, ihb⟩

end Loads

end Eos.Lib.AArch64
