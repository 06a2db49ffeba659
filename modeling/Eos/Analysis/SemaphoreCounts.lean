import Eos.Analysis.Exclusion
import Eos.Analysis.Turns
import Eos.Interface.Apart
import Eos.Interface.StatementRuns

/-!
# The count of a semaphore and the calls that change it

`eos_release_semaphore` increments the count and a successful `eos_acquire_semaphore` takes
one from it (core/sync.c:25-94).  The count is an `int8s_t` and nothing bounds it, so that a
release at 127 makes it -128: 256 releases are lost, and the semaphore looks taken.

`Ledger` runs the statements with a count of both calls.  The law holds along every run in
which no release comes at 127.
-/

set_option autoImplicit false

namespace Eos.Analysis

open Eos.Lib (LinkMem Reach)
open Eos.Model
open Eos.Model.StatementSystem (invoke_cases next_cases tick_cases advance_cases)
open Eos.Interface

/-! ## The calls that change a count -/

section Defs

variable {Q : Type → Type → Type} [NodeLists Q] {T : Type} [DecidableEq T] [Fintype T]

/-- The current task is about to increment the count in `eos_release_semaphore`. -/
def releases (sem : Nat) (s : StatementSystem Q T) : Turn T → Bool
  | .next =>
    match s.kernel.vars.currentTask.map s.control with
    | some (.release f) => f = ⟨sem, .increment⟩
    | _ => false
  | _ => false

/-- The current task is about to return 1 from `eos_acquire_semaphore`. -/
def acquires (sem : Nat) (s : StatementSystem Q T) : Turn T → Bool
  | .next =>
    match s.kernel.vars.currentTask.map s.control with
    | some (.acquire f) =>
      match f.step s.kernel with
      | some (_, .returned v) => f.sem = sem ∧ v = 1
      | _ => false
    | _ => false
  | _ => false

/-- A system with the number of releases and of successful acquires of a semaphore so far, and
whether the last turn was a release. -/
structure Ledger (Q : Type → Type → Type) (T : Type) where
  system : StatementSystem Q T
  released : Nat
  acquired : Nat
  justReleased : Bool

/-- The effect of a turn, with the entry it makes. -/
def Ledger.exec (sem : Nat) (l : Ledger Q T) (o : Turn T) : Option (Ledger Q T) := do
  return { system := ← l.system.exec o
           released := l.released + if releases sem l.system o then 1 else 0
           acquired := l.acquired + if acquires sem l.system o then 1 else 0
           justReleased := releases sem l.system o }

/-- **No release is swallowed**: the count is what was released more than acquired, and right after
a release that finds no task to wake, an acquire that does not block succeeds. -/
structure NotSwallowed (sem : Nat) (c : Int) (l : Ledger Q T) : Prop where
  count : l.system.kernel.count sem = c + l.released - l.acquired
  succeeds : l.justReleased → l.system.kernel.head (.wait (.semaphore sem)) = none →
    l.system.kernel.vars.schedulerLock = unlocked → ∀ timeout < 0,
      ∃ k, l.system.kernel.eosAcquireSemaphore sem timeout = some (.returned 1, k)

/-- No release comes when the count is at the end of its range. -/
def BelowLimit (sem : Nat) (l : Ledger Q T) (o : Turn T) : Prop :=
  releases sem l.system o → l.system.kernel.count sem ≠ 127

end Defs

variable {Q : Type → Type → Type} [NodeLists Q] {T : Type} [DecidableEq T] [Fintype T] {sem : Nat}
  {s s' : StatementSystem Q T} {o : Turn T} {l l' : Ledger Q T} {k' : Kernel Q T} {p : Control T}
  {current : T}

/-! ## One turn -/

/-- What a turn does to the count. -/
structure Booked (sem : Nat) (s : StatementSystem Q T) (o : Turn T) (s' : StatementSystem Q T) :
    Prop where
  released : releases sem s o → s'.kernel.count sem = int8 (s.kernel.count sem + 1)
  acquired : acquires sem s o → 0 < s.kernel.count sem ∧
    s'.kernel.count sem = int8 (s.kernel.count sem - 1)
  other : releases sem s o = false → acquires sem s o = false →
    s'.kernel.count sem = s.kernel.count sem
  once : ¬(releases sem s o ∧ acquires sem s o)

/-- A turn that is neither call. -/
theorem booked_other (hr : releases sem s o = false) (ha : acquires sem s o = false)
    (h : s'.kernel.count sem = s.kernel.count sem) : Booked sem s o s' where
  released hr' := by simp [hr] at hr'
  acquired ha' := by simp [ha] at ha'
  other _ _ := h
  once := by simp [hr]

/-- A step of `eos_acquire_semaphore`. -/
theorem booked_acquire {f : AcquireFrame} {n : Next AcquireFrame}
    (hc : s.kernel.vars.currentTask = some current) (hf : s.control current = .acquire f)
    (hn : f.step s.kernel = some (k', n)) : Booked sem s .next (s.put current k' p) := by
  have hr : releases sem s .next = false := by simp [releases, hc, hf]
  have hacq : (∀ v, n ≠ .returned v) → acquires sem s .next = false := by
    intro hne
    simp only [acquires, hc, Option.map_some, hf, hn]
    cases n with
    | returned v => exact absurd rfl (hne v)
    | _ => rfl
  rcases AcquireFrame.step_cases hn with
    ⟨rfl, rfl | ⟨g, -, rfl | rfl⟩⟩ | ⟨g, -, rfl, hset⟩ | ⟨rfl, hpos, k₂, hk₂, rfl⟩
  · exact booked_other hr (by simp [acquires, hc, hf, hn]) rfl
  · exact booked_other hr (hacq fun v => by simp) rfl
  · exact booked_other hr (hacq fun v => by simp) rfl
  · exact booked_other hr (hacq fun v => by simp) (setAlarm_count hset sem)
  · have hcount : ∀ m, k₂.count m = s.kernel.count m := by
      intro m
      obtain rfl | hset := hk₂
      · rfl
      · exact setAlarm_count hset m
    have ha : acquires sem s .next = decide (f.sem = sem) := by
      simp [acquires, hc, hf, hn]
    by_cases hm : sem = f.sem
    · subst hm
      refine ⟨fun hr' => by simp [hr] at hr', fun _ => ⟨hpos, ?_⟩, fun _ ha' => ?_, by simp [hr]⟩
      · refine (count_setCount k₂ f.sem f.sem _).trans ?_
        rw [if_pos rfl]
        exact congrArg (fun x => int8 (x - 1)) (hcount f.sem)
      · rw [ha] at ha'
        simp at ha'
    · refine booked_other hr (ha.trans (decide_eq_false (Ne.symm hm))) ?_
      refine (count_setCount k₂ sem f.sem _).trans ?_
      rw [if_neg hm]
      exact hcount sem

/-- `sem->count++` -/
theorem booked_increment {m : Nat} (hc : s.kernel.vars.currentTask = some current)
    (hf : s.control current = .release ⟨m, .increment⟩) :
    Booked sem s .next (s.put current (s.kernel.setCount m (s.kernel.count m + 1)) p) := by
  have ha : acquires sem s .next = false := by simp [acquires, hc, hf]
  have hr : releases sem s .next = decide (m = sem) := by simp [releases, hc, hf]
  by_cases hm : sem = m
  · subst hm
    refine ⟨fun _ => ?_, fun ha' => by simp [ha] at ha', fun hr' => ?_, by simp [ha]⟩
    · exact (count_setCount s.kernel sem sem _).trans (if_pos rfl)
    · rw [hr] at hr'
      simp at hr'
  · refine booked_other (hr.trans (decide_eq_false (Ne.symm hm))) ha ?_
    exact (count_setCount s.kernel sem m _).trans (if_neg hm)

/-- **What a turn does to the count.** -/
theorem exec_booked (h : s.exec o = some s') : Booked sem s o s' := by
  cases o with
  | invoke i =>
    obtain ⟨current, -, -, rfl⟩ := invoke_cases h
    refine booked_other rfl rfl ?_
    cases i <;> rfl
  | tick =>
    obtain ⟨k', hk', rfl⟩ := tick_cases h
    refine booked_other rfl rfl ?_
    rw [Kernel.count, apart_semaphore.eosTriggerCounter hk', Kernel.count]
  | next =>
    obtain ⟨current, k', p, hc, hadv, rfl⟩ := next_cases h
    generalize hp : s.control current = place at hadv
    cases advance_cases hadv with
    | goto hst => exact booked_acquire hc hp hst
    | wait hst => exact booked_acquire hc hp hst
    | leave hst => exact booked_acquire hc hp hst
    | increment => exact booked_increment hc hp
    | wakeNone | wake =>
      exact booked_other (by simp [releases, hc, hp]) (by simp [acquires, hc, hp]) rfl
    | statement hst | back hst =>
      refine booked_other (by simp [releases, hc, hp]) (by simp [acquires, hc, hp]) ?_
      show k'.count sem = s.kernel.count sem
      rw [Kernel.count, exec_semaphore hst, Kernel.count]

/-! ## Runs -/

/-- What holds of a ledger in which no release came at 127. -/
structure Tallied (sem : Nat) (c : Int) (l : Ledger Q T) : Prop where
  count : l.system.kernel.count sem = c + l.released - l.acquired
  nonneg : 0 ≤ l.system.kernel.count sem
  le : l.system.kernel.count sem ≤ 127
  pos : l.justReleased → 0 < l.system.kernel.count sem

/-- A turn below the limit keeps the balance. -/
theorem Tallied.exec {c : Int} (h : Tallied sem c l) (hlimit : BelowLimit sem l o)
    (hs : l.exec sem o = some l') : Tallied sem c l' := by
  obtain ⟨s', hs', hl⟩ := Option.bind_eq_some_iff.mp hs
  cases hl
  have hbook : Booked sem l.system o s' := exec_booked hs'
  have hcount := h.count
  have hnonneg := h.nonneg
  have hle := h.le
  cases hr : releases sem l.system o with
  | true =>
    have hne := hlimit hr
    have ha : acquires sem l.system o = false := by
      have := hbook.once
      simpa [hr] using this
    have hnew := hbook.released hr
    rw [int8_eq (by omega) (by omega)] at hnew
    refine ⟨?_, ?_, ?_, fun _ => ?_⟩ <;> simp only [ha, if_true, Bool.false_eq_true, if_false] <;>
      omega
  | false =>
    cases ha : acquires sem l.system o with
    | true =>
      obtain ⟨hpos, hnew⟩ := hbook.acquired ha
      rw [int8_eq (by omega) (by omega)] at hnew
      refine ⟨?_, ?_, ?_, fun hj => by cases hj⟩ <;>
        simp only [if_true, Bool.false_eq_true, if_false] <;> omega
    | false =>
      have hnew := hbook.other hr ha
      refine ⟨?_, ?_, ?_, fun hj => by cases hj⟩ <;>
        simp only [Bool.false_eq_true, if_false] <;> omega

/-- A positive count is taken at once. -/
theorem Tallied.notSwallowed {c : Int} (h : Tallied sem c l) : NotSwallowed sem c l where
  count := h.count
  succeeds hj _ hl timeout _ := by
    have hpos := h.pos hj
    unfold Kernel.eosAcquireSemaphore
    rw [if_neg (by simp [hl, unlocked]), if_neg (by omega)]
    exact ⟨_, rfl⟩

/-- **Releases are not swallowed** in any run in which none comes at 127. -/
theorem releases_counted (hc : 0 ≤ s.kernel.count sem) (hmax : s.kernel.count sem ≤ 127)
    (h : Reach (Ledger.exec sem) (BelowLimit sem) ⟨s, 0, 0, false⟩ l) :
    NotSwallowed sem (s.kernel.count sem) l := by
  have hstart : Tallied sem (s.kernel.count sem) (⟨s, 0, 0, false⟩ : Ledger Q T) :=
    ⟨by simp, hc, hmax, fun hj => by cases hj⟩
  exact (Reach.invariant hstart (fun u v o hu hok hv => hu.exec hok hv) h).notSwallowed

section Examples

instance (sem : Nat) (l : Ledger LinkMem T) : DecidablePred (BelowLimit sem l) := fun o =>
  inferInstanceAs (Decidable (releases sem l.system o → l.system.kernel.count sem ≠ 127))

/-- One task, and semaphores with a count. -/
def oneTask (count : Int) : Option (Ledger LinkMem (Fin 2)) :=
  (boot 1 (fun _ => ⟨count, 0⟩) (fun _ => ⟨0⟩) [.createTask (some 0) 4096 4096 4096 5]).map
    fun s => ⟨⟨s.kernel, fun _ => .own⟩, 0, 0, false⟩

/-- The task releases twice and acquires once. -/
theorem releases_counted_two : ∃ (s : StatementSystem LinkMem (Fin 2)) (l : Ledger LinkMem (Fin 2)),
    Reach (Ledger.exec 0) (BelowLimit 0) ⟨s, 0, 0, false⟩ l ∧ l.released = 2 ∧ l.acquired = 1 ∧
      NotSwallowed 0 (s.kernel.count 0) l := by
  let release : List (Turn (Fin 2)) := [.invoke (.release 0), .next, .next]
  obtain ⟨⟨s, r, a, j⟩, l, -, hrun, ⟨hr, ha, hj, hc, hmax⟩, hrel, hacq⟩ :=
    Reach.of_decide (Ledger.exec 0) (BelowLimit 0) (oneTask 0)
      (release ++ release ++ [.invoke (.acquire 0 (-1)), .next, .next, .next])
      (fun l l' => (l.released = 0 ∧ l.acquired = 0 ∧ l.justReleased = false ∧
        0 ≤ l.system.kernel.count 0 ∧ l.system.kernel.count 0 ≤ 127) ∧
        l'.released = 2 ∧ l'.acquired = 1) (by decide +kernel)
  subst hr ha hj
  exact ⟨s, l, hrun, hrel, hacq, releases_counted hc hmax hrun⟩

/-- **A release at 127 is swallowed**, and 255 others with it. -/
theorem release_swallowed : ∃ (s : StatementSystem LinkMem (Fin 2)) (l : Ledger LinkMem (Fin 2)),
    0 ≤ s.kernel.count 0 ∧ s.kernel.count 0 ≤ 127 ∧
      Reach (Ledger.exec 0) (fun _ _ => True) ⟨s, 0, 0, false⟩ l ∧
        ¬NotSwallowed 0 (s.kernel.count 0) l := by
  obtain ⟨⟨s, r, a, j⟩, l, -, hrun, ⟨hr, ha, hj, hc⟩, hrel, hacq, hc'⟩ :=
    Reach.of_decide (Ledger.exec 0) (fun _ _ => True) (oneTask 127)
      [.invoke (.release 0), .next]
      (fun l l' => (l.released = 0 ∧ l.acquired = 0 ∧ l.justReleased = false ∧
        l.system.kernel.count 0 = 127) ∧ l'.released = 1 ∧ l'.acquired = 0 ∧
        l'.system.kernel.count 0 = -128) (by decide +kernel)
  subst hr ha hj
  have hc : s.kernel.count 0 = 127 := hc
  refine ⟨s, l, by omega, by omega, hrun, fun h => ?_⟩
  have hcount : l.system.kernel.count 0 = s.kernel.count 0 + l.released - l.acquired := h.count
  rw [hc, hrel, hacq, hc'] at hcount
  omega

end Examples

end Eos.Analysis
