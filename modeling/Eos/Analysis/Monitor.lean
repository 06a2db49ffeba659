import Eos.Analysis.Exclusion
import Eos.Model.Monitor

/-!
# At most one task is in a monitor

A task that waits for a condition gives the mutex back and takes it again before it goes on.
`eos_wait_condition` does not look at the result of this second `eos_acquire_semaphore`
(core/sync.c:125); it is always 1, because a call without a timeout returns 0 only if the
scheduler is locked.  So whoever is notified, and whatever comes between, the task is alone in
the monitor when `eos_wait_condition` returns (`monitor_exclusive`), and nothing that tasks write
there gets lost.
-/

set_option autoImplicit false

namespace Eos.Analysis

open Eos.Lib (Processor Move Reach runList sum_update le_sum)
open Eos.Model

/-! ## The calls -/

/-- What a step of `eos_acquire_semaphore` does to the counts; without a timeout it fails only if
the scheduler is locked. -/
theorem acquire_cases {f : AcquireFrame} {s s' : Cpu} {n : Next AcquireFrame}
    (h : f.step s = some (s', n)) :
    (s' = s ∧ ((∃ g : AcquireFrame, (g.sem = f.sem ∧ g.timeout = f.timeout) ∧
        (n = .goto g ∨ n = .wait g)) ∨
      n = .returned 0 ∧ (f.timeout = 0 → s.schedulerLock ≠ unlocked))) ∨
    (n = .returned 1 ∧ 0 < s.semaphore f.sem ∧
      s' = { s with
        semaphore := Function.update s.semaphore f.sem (int8 (s.semaphore f.sem - 1)) }) := by
  have hstay : ∀ p a, (⟨f.sem, f.timeout, a, p⟩ : AcquireFrame).sem = f.sem ∧
      (⟨f.sem, f.timeout, a, p⟩ : AcquireFrame).timeout = f.timeout := fun _ _ => ⟨rfl, rfl⟩
  unfold AcquireFrame.step at h
  split at h
  · split at h
    · next hlock =>
      cases h
      exact .inl ⟨rfl, .inr ⟨rfl, fun _ => hlock⟩⟩
    · cases h
      exact .inl ⟨rfl, .inl ⟨_, hstay .deadline f.absTimeout, .inl rfl⟩⟩
  · cases h
    exact .inl ⟨rfl, .inl ⟨_, hstay .test _, .inl rfl⟩⟩
  · split at h
    · split at h
      · next hneg =>
        cases h
        refine .inl ⟨rfl, .inr ⟨rfl, fun h0 => ?_⟩⟩
        rw [h0] at hneg
        exact absurd hneg (by decide)
      · cases h
        exact .inl ⟨rfl, .inl ⟨_, hstay .wait f.absTimeout, .inl rfl⟩⟩
    · next hc =>
      cases h
      exact .inr ⟨rfl, not_le.mp hc, rfl⟩
  · cases h
    exact .inl ⟨rfl, .inl ⟨_, hstay .timeoutTest f.absTimeout, .inr rfl⟩⟩
  · split at h
    · next hlate =>
      cases h
      exact .inl ⟨rfl, .inr ⟨rfl, fun h0 => absurd h0 hlate.1⟩⟩
    · cases h
      exact .inl ⟨rfl, .inl ⟨_, hstay .retest f.absTimeout, .inl rfl⟩⟩
  · split at h
    · cases h
      exact .inl ⟨rfl, .inl ⟨_, hstay .wait f.absTimeout, .inl rfl⟩⟩
    · next hc =>
      cases h
      exact .inr ⟨rfl, not_le.mp hc, rfl⟩

/-! ## What a task has -/

section Tasks

variable {T D : Type}

/-- How often a task is between the decrement and the increment of the count of the mutex. -/
def hasMutex (l : MonitorTask D) : Nat :=
  match l.point with
  | .inside => 1
  | .leave f | .waitRelease f => if f.point = .increment then 1 else 0
  | _ => 0

/-- The task is in a call of `eos_wait_condition`. -/
def InWait (l : MonitorTask D) : Prop :=
  match l.point with
  | .waitRelease _ | .waitInQueue | .waitAcquire _ => True
  | _ => False

/-- The calls are on the mutex, the one in `eos_wait_condition` without a timeout, and a copy of
the data is had only inside. -/
structure TaskOk (mutex : Nat) (l : MonitorTask D) : Prop where
  enter : ∀ f, l.point = .enter f → f.sem = mutex
  release : ∀ f, l.point = .leave f ∨ l.point = .waitRelease f → f.sem = mutex
  acquire : ∀ f, l.point = .waitAcquire f → f.sem = mutex ∧ f.timeout = 0
  copy : l.copy ≠ none → l.point = .inside

/-- The scheduler is locked by a task in its own code, or not at all. -/
def LockFits (s : MonitorState T D) (l : MonitorTask D) : Prop :=
  s.cpu.schedulerLock = unlocked ∨ s.cpu.schedulerLock = locked ∧ ¬InWait l

/-- What a step of task `t` does to the data: nothing but read them, or write what it makes of its
copy. -/
inductive DataStep (update : T → D → D) (t : T) (s : MonitorState T D) (l : MonitorTask D)
    (s' : MonitorState T D) (l' : MonitorTask D) : Prop
  | keep : s'.data = s.data → s'.log = s.log → (l'.copy = l.copy ∨ l'.copy = some s.data) →
      DataStep update t s l s' l'
  | write {d : D} : l.copy = some d → s'.data = update t d → s'.log = s.log ++ [t] →
      l'.copy = none → DataStep update t s l s' l'

/-- What a step keeps, for the count of the mutex and the task together. -/
structure TaskStep (mutex : Nat) (update : T → D → D) (t : T) (s : MonitorState T D)
    (l : MonitorTask D) (s' : MonitorState T D) (l' : MonitorTask D) : Prop where
  balance : s'.cpu.semaphore mutex + hasMutex l' = s.cpu.semaphore mutex + hasMutex l
  count : 0 ≤ s'.cpu.semaphore mutex
  task : TaskOk mutex l'
  lock : LockFits s' l'
  data : DataStep update t s l s' l'

variable {mutex : Nat} {update : T → D → D} {t : T} {s s' : MonitorState T D}
  {l l' : MonitorTask D}

/-- A task that is not inside has no copy of the data. -/
theorem TaskOk.copy_eq_none (h : TaskOk mutex l) (hp : l.point ≠ .inside) : l.copy = none := by
  by_contra hc
  exact hp (h.copy hc)

/-- Outside and inside of the monitor, no task is in `eos_wait_condition`. -/
theorem not_inWait (hp : l.point = .outside ∨ l.point = .inside) : ¬InWait l := by
  rcases hp with hp | hp <;> rw [InWait, hp] <;> exact id

/-- A task goes on at another point. -/
theorem TaskOk.move {point : MonitorAt} (hc : l.copy = none ∨ point = .inside)
    (henter : ∀ f, point = .enter f → f.sem = mutex)
    (hrelease : ∀ f, point = .leave f ∨ point = .waitRelease f → f.sem = mutex)
    (hacquire : ∀ f, point = .waitAcquire f → f.sem = mutex ∧ f.timeout = 0) :
    TaskOk mutex { l with point := point } :=
  ⟨henter, hrelease, hacquire, fun h => hc.resolve_left h⟩

/-- A task moves between points at which it is in no call for the mutex. -/
theorem TaskOk.move_user {point : MonitorAt} (hc : l.copy = none ∨ point = .inside)
    (hp : point = .outside ∨ point = .inside ∨ point = .waitInQueue) :
    TaskOk mutex { l with point := point } := by
  apply TaskOk.move hc
  · rintro f rfl
    rcases hp with hp | hp | hp <;> cases hp
  · rintro f (rfl | rfl) <;> rcases hp with hp | hp | hp <;> cases hp
  · rintro f rfl
    rcases hp with hp | hp | hp <;> cases hp

/-- A step of a call, or between calls, that leaves the data and the scheduler lock alone. -/
theorem TaskStep.move {cpu : Cpu} {point : MonitorAt} (hlock : LockFits s l)
    (hsched : cpu.schedulerLock = s.cpu.schedulerLock)
    (hwait : InWait { l with point := point } → InWait l ∨ s.cpu.schedulerLock = unlocked)
    (hcount : 0 ≤ cpu.semaphore mutex)
    (hbal : cpu.semaphore mutex + hasMutex { l with point := point } =
      s.cpu.semaphore mutex + hasMutex l)
    (hok : TaskOk mutex { l with point := point }) :
    TaskStep mutex update t s l { s with cpu := cpu } { l with point := point } := by
  refine ⟨hbal, hcount, hok, ?_, .keep rfl rfl (.inl rfl)⟩
  rcases hlock with hl | ⟨hl, hw⟩
  · exact .inl (hsched.trans hl)
  · refine .inr ⟨hsched.trans hl, fun hin => ?_⟩
    rcases hwait hin with h | h
    · exact hw h
    · rw [hl] at h
      exact absurd h (by decide)

/-- The count of the mutex goes up by one, as far as it fits. -/
theorem semaphore_increment {cpu : Cpu} (hmin : 0 ≤ cpu.semaphore mutex)
    (hmax : cpu.semaphore mutex ≤ 1) :
    (SyncState.setCount cpu mutex (SyncState.count cpu mutex + 1)).semaphore mutex =
      cpu.semaphore mutex + 1 := by
  have h8 : int8 (cpu.semaphore mutex + 1) = cpu.semaphore mutex + 1 :=
    int8_eq (by omega) (by omega)
  simp only [SyncState.setCount, SyncState.count, Function.update_self, h8]

/-- The mutex is taken: its count goes from 1 to 0. -/
theorem semaphore_decrement {cpu : Cpu} (hmin : 0 < cpu.semaphore mutex)
    (hmax : cpu.semaphore mutex ≤ 1) :
    Function.update cpu.semaphore mutex (int8 (cpu.semaphore mutex - 1)) mutex =
      cpu.semaphore mutex - 1 := by
  have h8 : int8 (cpu.semaphore mutex - 1) = cpu.semaphore mutex - 1 :=
    int8_eq (by omega) (by omega)
  rw [Function.update_self, h8]

/-- A task gets the mutex. -/
theorem TaskStep.acquire {sem : Nat} (hsem : sem = mutex) (hmax : s.cpu.semaphore mutex ≤ 1)
    (hpos : 0 < s.cpu.semaphore sem) (hhas : hasMutex l = 0) (hlock : LockFits s l) :
    TaskStep mutex update t s l
      { s with cpu := { s.cpu with
        semaphore := Function.update s.cpu.semaphore sem (int8 (s.cpu.semaphore sem - 1)) } }
      { l with point := .inside } := by
  subst hsem
  have hdec := semaphore_decrement hpos hmax
  refine TaskStep.move hlock rfl (fun hw => absurd hw id) ?_ ?_ ?_
  · dsimp only
    rw [hdec]
    omega
  · have hone : hasMutex { l with point := .inside } = 1 := rfl
    rw [hhas, hone]
    dsimp only
    rw [hdec]
    omega
  · exact TaskOk.move_user (.inr rfl) (.inr (.inl rfl))

/-- A task gives the mutex back. -/
theorem TaskStep.release {point : MonitorAt} (hmax : s.cpu.semaphore mutex + 1 ≤ 1)
    (hcount : 0 ≤ s.cpu.semaphore mutex) (hhas : hasMutex l = 1)
    (hzero : hasMutex { l with point := point } = 0) (hlock : LockFits s l)
    (hwait : InWait { l with point := point } → InWait l)
    (hok : TaskOk mutex { l with point := point }) :
    TaskStep mutex update t s l
      { s with cpu := SyncState.setCount s.cpu mutex (SyncState.count s.cpu mutex + 1) }
      { l with point := point } := by
  have hinc := semaphore_increment hcount (by omega)
  refine TaskStep.move hlock rfl (fun hw => .inl (hwait hw)) ?_ ?_ hok
  · rw [hinc]
    omega
  · rw [hinc, hhas, hzero]
    omega

/-- **The next step of a call** keeps the balance: the mutex is in the count, or a task has it. -/
theorem step_balanced (hmax : s.cpu.semaphore mutex + hasMutex l ≤ 1)
    (hcount : 0 ≤ s.cpu.semaphore mutex) (hok : TaskOk mutex l) (hlock : LockFits s l)
    (h : l.step mutex s = some (s', l')) : TaskStep mutex update t s l s' l' := by
  unfold MonitorTask.step at h
  cases hp : l.point with
  | outside => simp only [hp] at h; cases h
  | inside => simp only [hp] at h; cases h
  | enter f =>
    simp only [hp] at h
    have hsem := hok.enter f hp
    have hcopy := hok.copy_eq_none (by rw [hp]; exact MonitorAt.noConfusion)
    have hhas : hasMutex l = 0 := by rw [hasMutex, hp]
    obtain ⟨⟨cpu, n⟩, hf, hres⟩ := Option.bind_eq_some_iff.mp h
    obtain ⟨rfl, ⟨g, ⟨hg, -⟩, hn⟩ | ⟨rfl, -⟩⟩ | ⟨rfl, hpos, rfl⟩ := acquire_cases hf
    · have hstep : TaskStep mutex update t s l s { l with point := .enter g } := by
        refine TaskStep.move hlock rfl (fun hw => absurd hw id) hcount (by rw [hhas]; rfl) ?_
        refine TaskOk.move (.inl hcopy) ?_ ?_ ?_
        · rintro f' ⟨⟩
          exact hg.trans hsem
        · rintro f' (h | h) <;> cases h
        · rintro f' ⟨⟩
      rcases hn with rfl | rfl <;> cases hres <;> exact hstep
    · cases hres
      exact TaskStep.move hlock rfl (fun hw => absurd hw id) hcount (by rw [hhas]; rfl)
        (TaskOk.move_user (.inl hcopy) (.inl rfl))
    · cases hres
      exact .acquire hsem (by omega) hpos hhas hlock
  | leave f =>
    simp only [hp] at h
    have hsem := hok.release f (.inl hp)
    have hcopy := hok.copy_eq_none (by rw [hp]; exact MonitorAt.noConfusion)
    obtain ⟨sem, point⟩ := f
    cases hsem
    cases point with
    | increment =>
      cases h
      have hhas : hasMutex l = 1 := by rw [hasMutex, hp]; rfl
      rw [hhas] at hmax
      refine TaskStep.release hmax hcount hhas rfl hlock (fun hw => absurd hw id) ?_
      refine TaskOk.move (.inl hcopy) ?_ ?_ ?_
      · rintro f' ⟨⟩
      · rintro f' (⟨⟨⟩⟩ | h)
        · rfl
        · cases h
      · rintro f' ⟨⟩
    | wake =>
      cases h
      have hhas : hasMutex l = 0 := by rw [hasMutex, hp]; rfl
      exact TaskStep.move hlock rfl (fun hw => absurd hw id) hcount (by rw [hhas]; rfl)
        (TaskOk.move_user (.inl hcopy) (.inl rfl))
  | waitRelease f =>
    simp only [hp] at h
    have hsem := hok.release f (.inr hp)
    have hcopy := hok.copy_eq_none (by rw [hp]; exact MonitorAt.noConfusion)
    have hin : InWait l := by
      rw [InWait, hp]
      trivial
    obtain ⟨sem, point⟩ := f
    cases hsem
    cases point with
    | increment =>
      cases h
      have hhas : hasMutex l = 1 := by rw [hasMutex, hp]; rfl
      rw [hhas] at hmax
      refine TaskStep.release hmax hcount hhas rfl hlock (fun _ => hin) ?_
      refine TaskOk.move (.inl hcopy) ?_ ?_ ?_
      · rintro f' ⟨⟩
      · rintro f' (h | ⟨⟨⟩⟩)
        · cases h
        · rfl
      · rintro f' ⟨⟩
    | wake =>
      cases h
      have hhas : hasMutex l = 0 := by rw [hasMutex, hp]; rfl
      exact TaskStep.move hlock rfl (fun _ => .inl hin) hcount (by rw [hhas]; rfl)
        (TaskOk.move_user (.inl hcopy) (.inr (.inr rfl)))
  | waitInQueue =>
    simp only [hp] at h
    have hcopy := hok.copy_eq_none (by rw [hp]; exact MonitorAt.noConfusion)
    have hin : InWait l := by
      rw [InWait, hp]
      trivial
    have hhas : hasMutex l = 0 := by rw [hasMutex, hp]
    cases h
    refine TaskStep.move hlock rfl (fun _ => .inl hin) hcount (by rw [hhas]; rfl) ?_
    refine TaskOk.move (.inl hcopy) ?_ ?_ ?_
    · rintro f' ⟨⟩
    · rintro f' (h | h) <;> cases h
    · rintro f' ⟨⟩
      exact ⟨rfl, rfl⟩
  | waitAcquire f =>
    simp only [hp] at h
    obtain ⟨hsem, htimeout⟩ := hok.acquire f hp
    have hcopy := hok.copy_eq_none (by rw [hp]; exact MonitorAt.noConfusion)
    have hin : InWait l := by
      rw [InWait, hp]
      trivial
    have hhas : hasMutex l = 0 := by rw [hasMutex, hp]
    obtain ⟨⟨cpu, n⟩, hf, hres⟩ := Option.bind_eq_some_iff.mp h
    obtain ⟨rfl, ⟨g, ⟨hg, hg'⟩, hn⟩ | ⟨rfl, hfail⟩⟩ | ⟨rfl, hpos, rfl⟩ := acquire_cases hf
    · have hstep : TaskStep mutex update t s l s { l with point := .waitAcquire g } := by
        refine TaskStep.move hlock rfl (fun _ => .inl hin) hcount (by rw [hhas]; rfl) ?_
        refine TaskOk.move (.inl hcopy) ?_ ?_ ?_
        · rintro f' ⟨⟩
        · rintro f' (h | h) <;> cases h
        · rintro f' ⟨⟩
          exact ⟨hg.trans hsem, hg'.trans htimeout⟩
      rcases hn with rfl | rfl <;> cases hres <;> exact hstep
    · -- a call without a timeout fails only if the scheduler is locked
      rcases hlock with hl | ⟨-, hw⟩
      · exact absurd hl (hfail htimeout)
      · exact absurd hin hw
    · cases hres
      exact .acquire hsem (by omega) hpos hhas hlock

/-- **An operation of a task** keeps the balance, writes the data only from a copy, and locks the
scheduler only in the task's own code. -/
theorem exec_taskStep {o : MonitorOp} (hmax : s.cpu.semaphore mutex + hasMutex l ≤ 1)
    (hcount : 0 ≤ s.cpu.semaphore mutex) (hok : TaskOk mutex l) (hlock : LockFits s l)
    (h : l.exec mutex update t s o = some (s', l')) : TaskStep mutex update t s l s' l' := by
  cases o with
  | enter timeout =>
    simp only [MonitorTask.exec, Option.ite_none_right_eq_some, Option.some.injEq,
      Prod.mk.injEq] at h
    obtain ⟨hp, rfl, rfl⟩ := h
    have hcopy := hok.copy_eq_none (by rw [hp]; exact MonitorAt.noConfusion)
    have hhas : hasMutex l = 0 := by rw [hasMutex, hp]
    refine TaskStep.move hlock rfl (fun hw => absurd hw id) hcount (by rw [hhas]; rfl) ?_
    refine TaskOk.move (.inl hcopy) ?_ ?_ ?_
    · rintro f ⟨⟩
      rfl
    · rintro f (h | h) <;> cases h
    · rintro f ⟨⟩
  | leave =>
    cases hcopy : l.copy with
    | some d => simp only [MonitorTask.exec, hcopy] at h; cases h
    | none =>
      simp only [MonitorTask.exec, hcopy, Option.ite_none_right_eq_some, Option.some.injEq,
        Prod.mk.injEq] at h
      obtain ⟨hp, rfl, rfl⟩ := h
      have hhas : hasMutex l = 1 := by rw [hasMutex, hp]
      have heq : { l with point := .leave (.entry mutex) } =
          (⟨.leave (.entry mutex), none⟩ : MonitorTask D) := by rw [hcopy]
      rw [← heq]
      refine TaskStep.move hlock rfl (fun hw => absurd hw id) hcount (by rw [hhas]; rfl) ?_
      refine TaskOk.move (.inl hcopy) ?_ ?_ ?_
      · rintro f ⟨⟩
      · rintro f (⟨⟨⟩⟩ | h)
        · rfl
        · cases h
      · rintro f ⟨⟩
  | waitCondition =>
    cases hcopy : l.copy with
    | some d => simp only [MonitorTask.exec, hcopy] at h; cases h
    | none =>
      simp only [MonitorTask.exec, hcopy, Option.ite_none_right_eq_some, Option.some.injEq,
        Prod.mk.injEq] at h
      obtain ⟨⟨hp, hl⟩, rfl, rfl⟩ := h
      have hhas : hasMutex l = 1 := by rw [hasMutex, hp]
      have heq : { l with point := .waitRelease (.entry mutex) } =
          (⟨.waitRelease (.entry mutex), none⟩ : MonitorTask D) := by rw [hcopy]
      rw [← heq]
      refine TaskStep.move hlock rfl (fun _ => .inr hl) hcount (by rw [hhas]; rfl) ?_
      refine TaskOk.move (.inl hcopy) ?_ ?_ ?_
      · rintro f ⟨⟩
      · rintro f (h | ⟨⟨⟩⟩)
        · cases h
        · rfl
      · rintro f ⟨⟩
  | read =>
    simp only [MonitorTask.exec, Option.ite_none_right_eq_some, Option.some.injEq,
      Prod.mk.injEq] at h
    obtain ⟨hp, rfl, rfl⟩ := h
    exact ⟨rfl, hcount, ⟨hok.enter, hok.release, hok.acquire, fun _ => hp⟩, hlock,
      .keep rfl rfl (.inr rfl)⟩
  | write =>
    cases hcopy : l.copy with
    | none => simp only [MonitorTask.exec, hcopy] at h; cases h
    | some d =>
      simp only [MonitorTask.exec, hcopy, Option.some.injEq, Prod.mk.injEq] at h
      obtain ⟨rfl, rfl⟩ := h
      exact ⟨rfl, hcount, ⟨hok.enter, hok.release, hok.acquire, fun h => absurd rfl h⟩, hlock,
        .write hcopy rfl rfl rfl⟩
  | lockScheduler =>
    simp only [MonitorTask.exec, Option.ite_none_right_eq_some, Option.some.injEq,
      Prod.mk.injEq] at h
    obtain ⟨hp, rfl, rfl⟩ := h
    exact ⟨rfl, hcount, hok, .inr ⟨rfl, not_inWait hp⟩, .keep rfl rfl (.inl rfl)⟩
  | restoreScheduler schedulerState =>
    simp only [MonitorTask.exec, Option.ite_none_right_eq_some, Option.some.injEq,
      Prod.mk.injEq] at h
    obtain ⟨⟨hp, hstate⟩, rfl, rfl⟩ := h
    refine ⟨rfl, hcount, hok, ?_, .keep rfl rfl (.inl rfl)⟩
    rcases hstate with rfl | rfl
    · exact .inr ⟨rfl, not_inWait hp⟩
    · exact .inl rfl
  | step => exact step_balanced hmax hcount hok hlock h

end Tasks

/-! ## Runs -/

section Runs

variable {T D : Type} [Fintype T] {mutex : Nat} {update : T → D → D}

/-- What holds at any time: the mutex is in its count or one task has it, every copy of the data is
a copy of what they are now, and the data are what the tasks have made of them one after the
other. -/
structure MonitorOk (mutex : Nat) (update : T → D → D) (d₀ : D)
    (p : Processor (MonitorState T D) (MonitorTask D) T) : Prop where
  balance : p.shared.cpu.semaphore mutex + ∑ t, hasMutex (p.task t) = 1
  count : 0 ≤ p.shared.cpu.semaphore mutex
  task : ∀ t, TaskOk mutex (p.task t)
  lock : LockFits p.shared (p.task p.current)
  copy : ∀ t d, (p.task t).copy = some d → d = p.shared.data
  data : p.shared.data = p.shared.log.foldl (fun d t => update t d) d₀

/-- Two tasks are never inside at once. -/
theorem MonitorOk.eq_of_inside {d₀ : D} {p : Processor (MonitorState T D) (MonitorTask D) T}
    (h : MonitorOk mutex update d₀ p) {t u : T} (ht : (p.task t).point = .inside)
    (hu : (p.task u).point = .inside) : t = u := by
  by_contra hne
  have hsum := Finset.add_le_sum (f := fun v => hasMutex (p.task v)) (fun _ _ => Nat.zero_le _)
    (Finset.mem_univ t) (Finset.mem_univ u) hne
  have ht' : hasMutex (p.task t) = 1 := by rw [hasMutex, ht]
  have hu' : hasMutex (p.task u) = 1 := by rw [hasMutex, hu]
  rw [ht', hu'] at hsum
  have hbal := h.balance
  have hcount := h.count
  omega

variable [DecidableEq T]

/-- The current task takes a step. -/
theorem MonitorOk.run {d₀ : D} {p : Processor (MonitorState T D) (MonitorTask D) T}
    {s : MonitorState T D} {l : MonitorTask D} (h : MonitorOk mutex update d₀ p)
    (hstep : TaskStep mutex update p.current p.shared (p.task p.current) s l) :
    MonitorOk mutex update d₀ ⟨s, Function.update p.task p.current l, p.current⟩ := by
  have hupd := sum_update p.task p.current l hasMutex
  have hle := le_sum p.task hasMutex p.current
  have hother : ∀ t, t ≠ p.current → Function.update p.task p.current l t = p.task t :=
    fun t ht => Function.update_of_ne ht l p.task
  have hself : Function.update p.task p.current l p.current = l := Function.update_self ..
  refine ⟨?_, hstep.count, fun t => ?_, ?_, fun t d hd => ?_, ?_⟩
  · have hbal := h.balance
    have hmove := hstep.balance
    dsimp only
    omega
  · dsimp only
    by_cases ht : t = p.current
    · rw [ht, hself]
      exact hstep.task
    · rw [hother t ht]
      exact h.task t
  · dsimp only
    rw [hself]
    exact hstep.lock
  · dsimp only at hd ⊢
    cases hstep.data with
    | keep hdata _ hcopy =>
      rw [hdata]
      by_cases ht : t = p.current
      · subst ht
        rw [hself] at hd
        rcases hcopy with hc | hc
        · exact h.copy _ d (hc ▸ hd)
        · exact (Option.some.inj (hc.symm.trans hd)).symm
      · rw [hother t ht] at hd
        exact h.copy t d hd
    | write hc _ _ hnone =>
      -- who has a copy is inside, so nobody else has one
      by_cases ht : t = p.current
      · subst ht
        rw [hself, hnone] at hd
        cases hd
      · rw [hother t ht] at hd
        have hcur := (h.task p.current).copy fun hn => by rw [hc] at hn; cases hn
        have hin := (h.task t).copy fun hn => by rw [hd] at hn; cases hn
        exact absurd (h.eq_of_inside hin hcur) ht
  · dsimp only
    cases hstep.data with
    | keep hdata hlog _ =>
      rw [hdata, hlog]
      exact h.data
    | write hc hdata hlog _ =>
      rw [hdata, hlog, List.foldl_append, ← h.data, h.copy _ _ hc]
      rfl

/-- The count of the mutex is one, and all tasks are outside. -/
structure MonitorStart (mutex : Nat) (p : Processor (MonitorState T D) (MonitorTask D) T) :
    Prop where
  count : p.shared.cpu.semaphore mutex = 1
  lock : p.shared.cpu.schedulerLock = unlocked
  log : p.shared.log = []
  task : ∀ t, p.task t = ⟨.outside, none⟩

omit [DecidableEq T] in
/-- The invariant holds at the start. -/
theorem MonitorStart.ok {p : Processor (MonitorState T D) (MonitorTask D) T}
    (h : MonitorStart mutex p) : MonitorOk mutex update p.shared.data p := by
  refine ⟨?_, ?_, fun t => ?_, .inl h.lock, fun t d hd => ?_, ?_⟩
  · have hzero : ∀ t, hasMutex (p.task t) = 0 := fun t => by
      rw [h.task t]
      rfl
    simp only [hzero, Finset.sum_const_zero, h.count]
    rfl
  · rw [h.count]
    decide
  · rw [h.task t]
    exact ⟨fun _ hf => (by cases hf), fun _ hf => (by cases hf <;> next hf => cases hf),
      fun _ hf => (by cases hf), fun hc => absurd rfl hc⟩
  · rw [h.task t] at hd
    cases hd
  · rw [h.log]
    rfl

/-- **Every run** of the tasks keeps the mutex and the data in order. -/
theorem monitorTasks_ok {d₀ : D} {p q : Processor (MonitorState T D) (MonitorTask D) T}
    (hp : MonitorOk mutex update d₀ p) (h : (monitorTasks mutex update).Runs p q) :
    MonitorOk mutex update d₀ q := by
  refine h.invariant ?_ ?_ ?_ hp
  · intro p o s l hp hexec
    refine hp.run (exec_taskStep ?_ hp.count (hp.task _) hp.lock hexec)
    have hle := le_sum p.task hasMutex p.current
    have hbal := hp.balance
    omega
  · intro p t hp hfree
    -- the processor switches only while the scheduler is unlocked
    refine ⟨hp.balance, hp.count, hp.task, .inl ?_, hp.copy, hp.data⟩
    have hne : p.shared.cpu.schedulerLock ≠ locked := of_decide_eq_true hfree
    rcases hp.lock with hl | ⟨hl, -⟩
    · exact hl
    · exact absurd hl hne
  · intro p hp
    exact ⟨hp.balance, hp.count, hp.task, hp.lock, hp.copy, hp.data⟩

end Runs

end Eos.Analysis
