import Eos.Model.SemaphoreTasks

/-!
# A semaphore lets in as many tasks as its initial count says

What tasks have acquired and not released, together with the count, stays the initial
count of the semaphore (`exclusion`), in every run of any number of tasks and wherever
they are switched.  The step that decrements the count has tested it with interrupts
disabled, so no other task can come between.
-/

set_option autoImplicit false

namespace Eos.Analysis

open Eos.Lib (Processor Move Reach runList sum_update le_sum)
open Eos.Model

/-- A count in the range of `int8s_t` is stored as it is. -/
theorem int8_eq {n : Int} (hl : -128 ≤ n) (hu : n ≤ 127) : int8 n = n := by
  unfold int8
  exact Int.bmod_eq_of_le (by omega) (by omega)

/-- A number that is stored in an `int8s_t` does not grow, unless it is below its range. -/
theorem int8_bounds {n : Int} (hn : -128 ≤ n) : -128 ≤ int8 n ∧ int8 n ≤ 127 ∧ int8 n ≤ n := by
  unfold int8
  have hl : -128 ≤ Int.bmod n 256 := Int.le_bmod (by decide)
  have hu : Int.bmod n 256 < 128 := Int.bmod_lt (by decide)
  refine ⟨hl, by omega, ?_⟩
  rw [Int.bmod_def]
  split <;> omega

variable {T : Type} [DecidableEq T] [Fintype T]

/-- The tasks between the decrement of a successful acquire and the increment of the matching
release. -/
def holders (p : Processor Cpu Holder T) (sem : Nat) : Finset T :=
  Finset.univ.filter fun t => 0 < (p.task t).units sem

/-- The initial count `c` of a semaphore is divided into its count and what the tasks hold. -/
def Balanced (sem c : Nat) (p : Processor Cpu Holder T) : Prop :=
  p.shared.semaphore sem + ∑ t, (p.task t).units sem = c ∧ 0 ≤ p.shared.semaphore sem

/-- One operation of a task moves one unit between the count and the task, or none. -/
theorem exec_balanced {sem : Nat} {s s' : Cpu} {l l' : Holder} {o : SemaphoreOp}
    (hcount : 0 ≤ s.semaphore sem) (hmax : s.semaphore sem + l.units sem ≤ 127)
    (h : l.exec s o = some (s', l')) :
    s'.semaphore sem + l'.units sem = s.semaphore sem + l.units sem ∧ 0 ≤ s'.semaphore sem := by
  cases o with
  | acquire sem' timeout =>
    simp only [Holder.exec, Option.ite_none_right_eq_some, Option.some.injEq, Prod.mk.injEq] at h
    obtain ⟨hu, rfl, rfl⟩ := h
    refine ⟨?_, hcount⟩
    simp [Holder.units, hu]
  | release sem' =>
    simp only [Holder.exec, Option.ite_none_right_eq_some, Option.some.injEq, Prod.mk.injEq] at h
    obtain ⟨⟨hu, hheld⟩, rfl, rfl⟩ := h
    refine ⟨?_, hcount⟩
    by_cases hs : sem = sem'
    · subst hs
      have hunits : l.held sem - 1 + 1 = l.held sem := by omega
      simp [Holder.units, hu, ReleaseFrame.entry, hunits]
    · simp [Holder.units, hu, ReleaseFrame.entry, hs, Ne.symm hs]
  | step =>
    cases hl : l.activity with
    | user => simp [Holder.exec, hl] at h
    | acquire f =>
      have hunits : l.units sem = l.held sem := by simp [Holder.units, hl]
      rw [hunits] at hmax ⊢
      simp only [Holder.exec, hl] at h
      obtain ⟨⟨s₁, n⟩, hf, hres⟩ := Option.bind_eq_some_iff.mp h
      rcases AcquireFrame.step_cases hf with
        ⟨rfl, hn⟩ | ⟨g, -, rfl, hs₁⟩ | ⟨rfl, hpos, s₂, hs₂, rfl⟩
      · -- the state has not changed: the call goes on, or returns 0
        rcases hn with rfl | ⟨g, -, rfl | rfl⟩ <;> cases hres <;> simp [Holder.units, hcount]
      · cases hres
        cases hs₁
        simp [Holder.units, hcount]
      · -- the call returns 1
        obtain rfl : s₂ = s := hs₂.elim id fun hs => (Option.some.inj hs).symm
        cases hres
        change 0 < s₂.semaphore f.sem at hpos
        by_cases hs : sem = f.sem
        · subst hs
          have h8 := int8_eq (n := s₂.semaphore f.sem - 1) (by omega) (by omega)
          simp [Holder.units, SyncState.setCount, SyncState.count, h8]
          omega
        · simp [Holder.units, SyncState.setCount, hs, hcount]
    | release f =>
      obtain ⟨fsem, point⟩ := f
      cases point with
      | increment =>
        simp only [Holder.exec, hl, ReleaseFrame.step] at h
        cases h
        by_cases hs : sem = fsem
        · subst hs
          have hunits : l.units sem = l.held sem + 1 := by simp [Holder.units, hl]
          rw [hunits] at hmax ⊢
          have h8 := int8_eq (n := s.semaphore sem + 1) (by omega) (by omega)
          simp [Holder.units, SyncState.setCount, SyncState.count, h8]
          omega
        · simp [Holder.units, hl, SyncState.setCount, hs, Ne.symm hs, hcount]
      | wake =>
        simp only [Holder.exec, hl, ReleaseFrame.step] at h
        cases h
        simp [Holder.units, hl, hcount]

/-- A processor on which no task has called anything yet. -/
def Fresh (sem c : Nat) (p : Processor Cpu Holder T) : Prop :=
  p.shared.semaphore sem = c ∧ ∀ t, p.task t = ⟨fun _ => 0, .user⟩

/-- The balance is kept in every run. -/
theorem runs_balanced {sem c : Nat} (hc : c ≤ 127) {p q : Processor Cpu Holder T}
    (h0 : Fresh sem c p) (h : (semaphoreTasks T).Runs p q) : Balanced sem c q := by
  refine h.invariant (I := Balanced sem c) ?_ (fun p t hp _ => hp) (fun p hp => hp) ?_
  · intro p o s l ⟨hsum, hcount⟩ hexec
    have hle := le_sum p.task (Holder.units sem) p.current
    have hupd := sum_update p.task p.current l (Holder.units sem)
    obtain ⟨heq, hcount'⟩ :=
      exec_balanced (show 0 ≤ p.shared.semaphore sem from hcount) (by omega) hexec
    refine ⟨?_, hcount'⟩
    show s.semaphore sem +
      ((∑ u, Holder.units sem (Function.update p.task p.current l u) : ℕ) : ℤ) = c
    omega
  · obtain ⟨hcount, htask⟩ := h0
    constructor
    · simp [htask, Holder.units, hcount]
    · rw [hcount]
      omega

/-- **Semaphore exclusion**: at any time at most `c` tasks are between a successful acquire and
the matching release; the count is what `c` exceeds their number by, where a task counts as often
as it has acquired, and it is never negative. -/
theorem exclusion {sem c : Nat} (hc : 1 ≤ c ∧ c ≤ 127) {p q : Processor Cpu Holder T}
    (h0 : Fresh sem c p) (h : (semaphoreTasks T).Runs p q) :
    (holders q sem).card ≤ c ∧ q.shared.semaphore sem = c - ∑ t, (q.task t).units sem ∧
      0 ≤ q.shared.semaphore sem ∧
      ((∀ t, (q.task t).units sem ≤ 1) → q.shared.semaphore sem = c - (holders q sem).card) := by
  obtain ⟨hsum, hcount⟩ := runs_balanced hc.2 h0 h
  have hcard : (holders q sem).card ≤ ∑ t, (q.task t).units sem := by
    rw [Finset.card_eq_sum_ones]
    calc ∑ t ∈ holders q sem, 1 ≤ ∑ t ∈ holders q sem, (q.task t).units sem :=
          Finset.sum_le_sum fun t ht => (Finset.mem_filter.mp ht).2
      _ ≤ ∑ t, (q.task t).units sem :=
          Finset.sum_le_sum_of_subset (Finset.subset_univ _)
  refine ⟨by omega, by omega, hcount, fun hone => ?_⟩
  have hholders : (holders q sem).card = ∑ t, (q.task t).units sem := by
    rw [holders, Finset.card_filter]
    refine Finset.sum_congr rfl fun t _ => ?_
    have := hone t
    split <;> omega
  omega

/-- Two tasks and a semaphore with count 1, which task 0 acquires. -/
theorem exclusion_one_holder :
    ∃ q : Processor Cpu Holder (Fin 2), (q.task 0).units 0 = 1 ∧ (holders q 0).card ≤ 1 ∧
      q.shared.semaphore 0 = 1 - ∑ t, (q.task t).units 0 ∧ 0 ≤ q.shared.semaphore 0 ∧
      ((∀ t, (q.task t).units 0 ≤ 1) → q.shared.semaphore 0 = 1 - (holders q 0).card) := by
  let p : Processor Cpu Holder (Fin 2) := ⟨⟨fun _ => 1, 0, 0⟩, fun _ => ⟨fun _ => 0, .user⟩, 0⟩
  let moves : List (Move (Fin 2) SemaphoreOp) :=
    [.run (.acquire 0 5), .run .step, .switch 1, .interrupt, .switch 0, .run .step, .run .step]
  obtain ⟨q, hq, hu⟩ := (Option.any_eq_true _ _).mp (show
    ((runList (fun p o => if True then (semaphoreTasks (Fin 2)).move p o else none) p moves).any
      fun q => (q.task 0).units 0 = 1) = true by decide)
  exact ⟨q, of_decide_eq_true hu, exclusion (by decide) ⟨rfl, fun _ => rfl⟩ (.of_runList hq)⟩

end Eos.Analysis
