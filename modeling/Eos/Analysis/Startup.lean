import Eos.Analysis.FirstDispatch
import Eos.Model.Startup
import Mathlib.Logic.Relation

/-!
# The startup code ends in a call of `_os_init`

From any state in which the processor may be at `_start`, at EL1 or EL2, the code gets to the call
of `_os_init` at EL1, with interrupts masked, an aligned stack pointer and the vectors in their
place, and the section of zeroed data really is zero (`startup_ready`).  The loop that clears it
stores whole words, and leaves the rest of the memory alone because linker.ld aligns both
ends of the section to words.
-/

set_option autoImplicit false

namespace Eos.Analysis

open Eos.Lib.AArch64 (Memory Word store byte daif store_of_le)
open Eos.Model

variable {l : LinkerSymbols} {s s' : Startup}

/-- The processor runs from one state to another. -/
def StartupRuns (l : LinkerSymbols) : Startup → Startup → Prop :=
  Relation.ReflTransGen fun s s' => s.step l = some s'

/-- An instruction, and the run behind it. -/
theorem StartupRuns.instr {i : StartInstr} {is : List StartInstr} {s₁ : Startup}
    (hi : s.todo = i :: is) (h : Startup.exec { s with todo := is } l i = some s₁)
    (hr : StartupRuns l s₁ s') : StartupRuns l s s' := by
  refine Relation.ReflTransGen.head ?_ hr
  rw [Startup.step, hi]
  exact h

/-- The first `n` instructions of a run. -/
def steps (l : LinkerSymbols) : Nat → Startup → Option Startup
  | 0, s => some s
  | n + 1, s => (s.step l).bind (steps l n)

/-- Evaluated steps are a run. -/
theorem StartupRuns.of_steps {n : Nat} (h : steps l n s = some s') : StartupRuns l s s' := by
  induction n generalizing s with
  | zero =>
    cases h
    exact .refl
  | succ n ih =>
    obtain ⟨s₁, hs, hrest⟩ := Option.bind_eq_some_iff.mp h
    exact .head hs (ih hrest)

/-! ## The loop -/

/-- A memory with `n` words of zeros from `a` on. -/
def cleared (m : Memory) (a : Word) (n : Nat) : Memory :=
  fun c => if (c - a).toNat < 8 * n then 0 else m c

/-- The bytes of zero are zero. -/
theorem byte_zero (i : Nat) : byte 0 i = 0 := by
  simp [byte]

/-- One more word in front. -/
theorem cleared_store {m : Memory} {a : Word} {n : Nat} (h : a.toNat + 8 * (n + 1) ≤ 2 ^ 64) :
    cleared (store m a 0) (a + 8) n = cleared m a (n + 1) := by
  funext c
  unfold cleared
  by_cases hc : (c - (a + 8)).toNat < 8 * n
  · rw [if_pos hc, if_pos (by bv_omega)]
  · rw [if_neg hc]
    by_cases hword : (c - a).toNat < 8
    · rw [store, if_pos hword, byte_zero, if_pos (by omega)]
    · rw [store_of_le (by omega), if_neg (by bv_omega)]

/-- **The loop** clears the words from `x1` on up to `x2` (entry.S:65-69). -/
theorem bssClearLoop_runs {n : Nat} (hs : s.todo = bssClearLoop l)
    (hn : (s.x 2).toNat - (s.x 1).toNat ≤ 8 * n ∧ 8 * n < (s.x 2).toNat - (s.x 1).toNat + 8)
    (hend : (s.x 2).toNat + 8 ≤ 2 ^ 64) :
    ∃ x zero carry, StartupRuns l s { s with
      todo := bssClearDone l, x := x, zero := zero, carry := carry,
      mem := cleared s.mem (s.x 1) n } := by
  induction n generalizing s with
  | zero =>
    have hle : (s.x 2).toNat ≤ (s.x 1).toNat := by omega
    have hmem : cleared s.mem (s.x 1) 0 = s.mem := by
      funext c
      exact if_neg (Nat.not_lt_zero _)
    rw [hmem]
    refine ⟨s.x, decide (s.x 1 = s.x 2), decide ((s.x 2).toNat ≤ (s.x 1).toNat), ?_⟩
    refine .instr hs rfl (.instr rfl (congrArg some (if_pos ?_)) .refl)
    exact decide_eq_true hle
  | succ n ih =>
    have hlt : ¬(s.x 2).toNat ≤ (s.x 1).toNat := by omega
    -- one round: the word at `x1` is cleared, and `x1` moves on
    let r : Startup := { s with
      todo := bssClearLoop l, x := Function.update s.x 1 (s.x 1 + 8),
      zero := decide (s.x 1 = s.x 2), carry := decide ((s.x 2).toNat ≤ (s.x 1).toNat),
      mem := store s.mem (s.x 1) 0 }
    have hround : StartupRuns l s r := by
      refine .instr hs rfl (.instr rfl (congrArg some (if_neg ?_)) ?_)
      · exact fun hc => hlt (of_decide_eq_true hc)
      · exact .instr rfl rfl (.instr rfl rfl .refl)
    have hr1 : r.x 1 = s.x 1 + 8 := Function.update_self 1 (s.x 1 + 8) s.x
    have hr2 : r.x 2 = s.x 2 := rfl
    have hadd : (s.x 1 + 8).toNat = (s.x 1).toNat + 8 := by bv_omega
    obtain ⟨x, zero, carry, hrest⟩ := ih (s := r) rfl (by rw [hr1, hr2, hadd]; omega)
      (by rw [hr2]; exact hend)
    refine ⟨x, zero, carry, hround.trans ?_⟩
    rw [hr1, cleared_store (by omega)] at hrest
    exact hrest

/-! ## The code -/

/-- `el1_entry` runs to the call of `_os_init` (entry.S:55-79). -/
theorem el1Entry_runs (hs : s.todo = el1Entry l) (hend : l.bssEnd.toNat + 8 ≤ 2 ^ 64) :
    ∃ x zero carry, StartupRuns l s { s with
      todo := [.blOsInit], x := x, zero := zero, carry := carry, sp := l.stackTop &&& -16,
      sys := Function.update s.sys .vbarEl1 l.vectorsStart,
      mem := cleared s.mem l.bssStart ((l.bssEnd.toNat - l.bssStart.toNat + 7) / 8) } := by
  let x₀ := Function.update (Function.update s.x 0 l.stackTop) 0 (l.stackTop &&& -16)
  let r : Startup := { s with
    todo := bssClearLoop l, sp := l.stackTop &&& -16,
    x := Function.update (Function.update x₀ 1 l.bssStart) 2 l.bssEnd }
  have hentry : StartupRuns l s r :=
    .instr hs rfl (.instr rfl rfl (.instr rfl rfl (.instr rfl rfl (.instr rfl rfl .refl))))
  have hr1 : r.x 1 = l.bssStart := rfl
  have hr2 : r.x 2 = l.bssEnd := rfl
  obtain ⟨x, zero, carry, hloop⟩ := bssClearLoop_runs (s := r) (l := l)
    (n := (l.bssEnd.toNat - l.bssStart.toNat + 7) / 8) rfl (by rw [hr1, hr2]; omega)
    (by rw [hr2]; exact hend)
  refine ⟨Function.update x 0 l.vectorsStart, zero, carry, (hentry.trans hloop).trans ?_⟩
  exact StartupRuns.instr rfl rfl (.instr rfl rfl (.instr rfl rfl .refl))

/-- Bits that have been set are set. -/
theorem or_and_self (v w : Word) : (v ||| w) &&& w = w := by
  ext i hi
  rw [BitVec.getElem_and, BitVec.getElem_or]
  cases v[i] <;> cases w[i] <;> rfl

/-- At EL2 the code sets `HCR_EL2.RW` and puts a state at EL1 with interrupts masked into
`SPSR_EL2`, with `el1_entry` behind it (entry.S:17-53). -/
theorem startCode_runs_eret (hs : s.todo = startCode l) (hel : s.currentEl = 2)
    (hentry : l.el1Entry &&& ~~~0b11 = l.el1Entry) :
    ∃ s', StartupRuns l s s' ∧ s'.todo = .eret :: el1Entry l ∧ s'.currentEl = 2 ∧
      s'.sys .elrEl2 = l.el1Entry ∧ s'.sys .hcrEl2 = (1 : Word) <<< 31 ∧
      s'.sys .spsrEl2 = 0x3C5 ∧ s'.mem = s.mem := by
  have heq : decide (BitVec.ofNat 64 (s.currentEl <<< 2) >>> 2 = 2) = true := by
    rw [hel]
    decide
  have hhead : StartupRuns l s _ :=
    .instr hs rfl (.instr rfl rfl (.instr rfl rfl (.instr rfl rfl (.instr rfl
      (congrArg some (if_pos heq)) .refl))))
  exact ⟨_, hhead.trans (StartupRuns.of_steps (n := 20) rfl), rfl, hel, hentry, rfl, rfl, rfl⟩

/-- **`_start`** at EL1 or EL2 runs to `el1_entry` at EL1, with interrupts masked. -/
theorem startCode_runs (hs : s.todo = startCode l) (hel : s.currentEl = 1 ∨ s.currentEl = 2)
    (hentry : l.el1Entry &&& ~~~0b11 = l.el1Entry) :
    ∃ s', StartupRuns l s s' ∧ s'.todo = el1Entry l ∧ s'.currentEl = 1 ∧
      s'.pstate &&& daif = daif ∧ s'.mem = s.mem := by
  rcases hel with hel | hel
  · have hne : ¬decide (BitVec.ofNat 64 (s.currentEl <<< 2) >>> 2 = 2) = true := by
      rw [hel]
      decide
    have hbranch : StartupRuns l s _ :=
      .instr hs rfl (.instr rfl rfl (.instr rfl rfl (.instr rfl rfl (.instr rfl
        (congrArg some (if_neg hne)) .refl))))
    exact ⟨_, hbranch, rfl, hel, or_and_self s.pstate daif, rfl⟩
  · obtain ⟨r, hruns, htodo, hel', helr, hhcr, hspsr, hmem⟩ := startCode_runs_eret hs hel hentry
    have hwidth : (r.sys .hcrEl2).getLsbD 31 = true := by
      rw [hhcr]
      decide
    have hlevel : r.sys .spsrEl2 &&& 0x1F = 5 := by
      rw [hspsr]
      decide
    refine ⟨_, hruns.trans (StartupRuns.instr htodo
      (if_pos ⟨hel', helr, hwidth, hlevel⟩) .refl), rfl, rfl, ?_, hmem⟩
    show r.sys .spsrEl2 &&& daif = daif
    rw [hspsr]
    decide

/-! ## The result -/

/-- The words between two aligned addresses are the bytes between them. -/
theorem cleared_within {m : Memory} {a b c : Word} (h : a.toNat ≤ b.toNat)
    (hwords : 8 ∣ b.toNat - a.toNat) :
    cleared m a ((b.toNat - a.toNat + 7) / 8) c =
      if a.toNat ≤ c.toNat ∧ c.toNat < b.toNat then 0 else m c := by
  unfold cleared
  by_cases hc : a.toNat ≤ c.toNat ∧ c.toNat < b.toNat
  · rw [if_pos hc, if_pos (by bv_omega)]
  · rw [if_neg hc, if_neg (by bv_omega)]

/-- **The kernel is entered in order.**  From any state at `_start`, at EL1 or EL2, the startup code
gets to the call of `_os_init` at EL1, with all exceptions masked, the stack pointer at the top of
the stack and a multiple of 16, the vectors in place, and with the memory changed in one thing: the
section of zeroed data is zero. -/
theorem startup_ready (hs : s.todo = startCode l) (hel : s.currentEl = 1 ∨ s.currentEl = 2)
    (hentry : l.el1Entry &&& ~~~0b11 = l.el1Entry) (hbss : l.bssStart.toNat ≤ l.bssEnd.toNat)
    (hstart : 8 ∣ l.bssStart.toNat) (hend : 8 ∣ l.bssEnd.toNat)
    (hfit : l.bssEnd.toNat + 8 ≤ 2 ^ 64) :
    ∃ s', StartupRuns l s s' ∧ s'.CallsOsInit ∧ s'.currentEl = 1 ∧ s'.pstate &&& daif = daif ∧
      s'.sp = l.stackTop &&& -16 ∧ 16 ∣ s'.sp.toNat ∧ s'.sys .vbarEl1 = l.vectorsStart ∧
      ∀ c, s'.mem c =
        if l.bssStart.toNat ≤ c.toNat ∧ c.toNat < l.bssEnd.toNat then 0 else s.mem c := by
  obtain ⟨r, hruns, htodo, hel', hmask, hmem⟩ := startCode_runs hs hel hentry
  obtain ⟨x, zero, carry, hrest⟩ := el1Entry_runs htodo hfit
  refine ⟨_, hruns.trans hrest, rfl, hel', hmask, rfl, ?_,
    Function.update_self StartReg.vbarEl1 l.vectorsStart r.sys, ?_⟩
  · exact Dvd.intro_left _ (toNat_and_not_fifteen l.stackTop).symm
  · intro c
    show cleared r.mem l.bssStart _ c = _
    rw [hmem]
    exact cleared_within hbss (Nat.dvd_sub hend hstart)

/-- The processor comes up at EL2 with a memory of ones, and two words are to be cleared. -/
theorem startup_ready_two :
    ∃ s', StartupRuns ⟨0x40081000, 0x40081010, 0x40081800, 0x40086000, 0x40080068⟩
      { todo := startCode ⟨0x40081000, 0x40081010, 0x40081800, 0x40086000, 0x40080068⟩,
        currentEl := 2, pstate := 0x9, x := fun _ => 0, sp := 0, zero := false, carry := false,
        sys := fun _ => 0, mem := fun _ => 1 } s' ∧
      s'.CallsOsInit ∧ s'.currentEl = 1 ∧ s'.pstate &&& daif = daif ∧
      s'.sp = (0x40086000 : Word) &&& -16 ∧ 16 ∣ s'.sp.toNat ∧ s'.sys .vbarEl1 = 0x40081800 ∧
      ∀ c, s'.mem c = if (0x40081000 : Word).toNat ≤ c.toNat ∧ c.toNat < (0x40081010 : Word).toNat
        then 0 else 1 :=
  startup_ready (l := ⟨0x40081000, 0x40081010, 0x40081800, 0x40086000, 0x40080068⟩) rfl
    (.inr rfl) (by decide) (by decide) (by decide) (by decide) (by decide)

end Eos.Analysis
