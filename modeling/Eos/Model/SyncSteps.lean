import Eos.Model.Sync

/-!
# Semaphore calls between interrupts

`eos_acquire_semaphore` and `eos_release_semaphore` (core/sync.c:25-94), cut wherever
interrupts are enabled: one step is one statement, or a stretch from
`hal_disable_interrupt` to `hal_restore_interrupt`, in which nothing else can happen.
What the steps read and write is a `SyncState`; the calls of `_os_wait_in_queue` and
`_os_wakeup_from_queue` are left to the machine that runs them.

Run without interruption on a kernel, the steps up to the first call of
`_os_wait_in_queue` do what `Kernel.eosAcquireSemaphore` does (`acquireSteps_eq`).
-/

set_option autoImplicit false

namespace Eos.Model

/-- What the semaphore calls of the current task read and write. -/
class SyncState (S : Type) where
  /-- `sem->count` -/
  count : S → Nat → Int
  /-- `sem->count = n` -/
  setCount : S → Nat → Int → S
  /-- `eos_get_system_timer()->tick` -/
  tick : S → UInt32
  /-- `_os_scheduler_lock` -/
  schedulerLock : S → UInt8
  /-- `eos_set_alarm` for the alarm of the current task -/
  setAlarm : S → UInt32 → Option Handler → Option S

/-- The points of `eos_acquire_semaphore` with interrupts enabled. -/
inductive AcquireAt
  /-- the test of the scheduler lock -/
  | lockTest
  /-- the computation of `abs_timeout` -/
  | deadline
  /-- the first section, from `hal_disable_interrupt` to the loop or the return -/
  | test
  /-- the call of `_os_wait_in_queue` -/
  | wait
  /-- the test of the deadline -/
  | timeoutTest
  /-- the section in the loop, up to its condition or to the return -/
  | retest
  deriving DecidableEq

/-- A call of `eos_acquire_semaphore`. -/
structure AcquireFrame where
  sem : Nat
  timeout : Int32
  absTimeout : UInt32
  point : AcquireAt
  deriving DecidableEq

/-- The points of `eos_release_semaphore` with interrupts enabled. -/
inductive ReleaseAt
  /-- the section that increments the count -/
  | increment
  /-- the test of the wait queue and the call of `_os_wakeup_from_queue` -/
  | wake
  deriving DecidableEq

/-- A call of `eos_release_semaphore`. -/
structure ReleaseFrame where
  sem : Nat
  point : ReleaseAt
  deriving DecidableEq

/-- What a call does next. -/
inductive Next (F : Type)
  | goto (f : F)
  /-- call `_os_wait_in_queue`, then go on -/
  | wait (f : F)
  /-- call `_os_wakeup_from_queue` if a task waits, then return -/
  | wake
  | returned (value : UInt32)

/-- The entry of `eos_acquire_semaphore`. -/
def AcquireFrame.entry (sem : Nat) (timeout : Int32) : AcquireFrame :=
  ⟨sem, timeout, 0, .lockTest⟩

/-- The entry of `eos_release_semaphore`. -/
def ReleaseFrame.entry (sem : Nat) : ReleaseFrame := ⟨sem, .increment⟩

section Steps

variable {S : Type} [SyncState S]

open SyncState

/-- A step of `eos_acquire_semaphore` (core/sync.c:33-75). -/
def AcquireFrame.step (f : AcquireFrame) (s : S) : Option (S × Next AcquireFrame) :=
  match f.point with
  | .lockTest =>
    if schedulerLock s ≠ 0 then some (s, .returned 0)
    else some (s, .goto { f with point := .deadline })
  | .deadline =>
    some (s, .goto { f with absTimeout := tick s + f.timeout.toUInt32, point := .test })
  | .test =>
    if count s f.sem ≤ 0 then
      if f.timeout < 0 then some (s, .returned 0)
      else do
        let s ← setAlarm s f.timeout.toUInt32 (some .osWakeupFromAlarmQueue)
        return (s, .goto { f with point := .wait })
    else some (setCount s f.sem (count s f.sem - 1), .returned 1)
  | .wait => some (s, .wait { f with point := .timeoutTest })
  | .timeoutTest =>
    if f.timeout ≠ 0 ∧ f.absTimeout ≤ tick s then some (s, .returned 0)
    else some (s, .goto { f with point := .retest })
  | .retest =>
    if count s f.sem ≤ 0 then some (s, .goto { f with point := .wait })
    else do
      let s ← setAlarm s 0 none
      return (setCount s f.sem (count s f.sem - 1), .returned 1)

/-- A step of `eos_release_semaphore` (core/sync.c:86-93). -/
def ReleaseFrame.step (f : ReleaseFrame) (s : S) : S × Next ReleaseFrame :=
  match f.point with
  | .increment => (setCount s f.sem (count s f.sem + 1), .goto { f with point := .wake })
  | .wake => (s, .wake)

/-- What a step of `eos_acquire_semaphore` does to the state: the lock test, the deadline and a
failure leave it alone, waiting and success may set or cancel the alarm, and only success takes
one from a positive count. -/
theorem AcquireFrame.step_cases {f : AcquireFrame} {s s' : S} {n : Next AcquireFrame}
    (h : f.step s = some (s', n)) :
    (s' = s ∧ (n = .returned 0 ∨ ∃ g : AcquireFrame, g.sem = f.sem ∧ (n = .goto g ∨ n = .wait g))) ∨
    (∃ g : AcquireFrame, g.sem = f.sem ∧ n = .goto g ∧
      setAlarm s f.timeout.toUInt32 (some .osWakeupFromAlarmQueue) = some s') ∨
    (n = .returned 1 ∧ 0 < count s f.sem ∧ ∃ s₁, (s₁ = s ∨ setAlarm s 0 none = some s₁) ∧
      s' = setCount s₁ f.sem (count s₁ f.sem - 1)) := by
  have hstay : ∀ p a, (⟨f.sem, f.timeout, a, p⟩ : AcquireFrame).sem = f.sem := fun _ _ => rfl
  unfold AcquireFrame.step at h
  split at h
  · split at h <;> cases h
    · exact .inl ⟨rfl, .inl rfl⟩
    · exact .inl ⟨rfl, .inr ⟨_, hstay .deadline f.absTimeout, .inl rfl⟩⟩
  · cases h
    exact .inl ⟨rfl, .inr ⟨_, hstay .test _, .inl rfl⟩⟩
  · split at h
    · split at h
      · cases h
        exact .inl ⟨rfl, .inl rfl⟩
      · obtain ⟨s₁, hs₁, h⟩ := Option.bind_eq_some_iff.mp h
        cases h
        exact .inr (.inl ⟨_, hstay .wait f.absTimeout, rfl, hs₁⟩)
    · next hc =>
      cases h
      exact .inr (.inr ⟨rfl, by omega, s, .inl rfl, rfl⟩)
  · cases h
    exact .inl ⟨rfl, .inr ⟨_, hstay .timeoutTest f.absTimeout, .inr rfl⟩⟩
  · split at h <;> cases h
    · exact .inl ⟨rfl, .inl rfl⟩
    · exact .inl ⟨rfl, .inr ⟨_, hstay .retest f.absTimeout, .inl rfl⟩⟩
  · split at h
    · cases h
      exact .inl ⟨rfl, .inr ⟨_, hstay .wait f.absTimeout, .inl rfl⟩⟩
    · next hc =>
      obtain ⟨s₁, hs₁, h⟩ := Option.bind_eq_some_iff.mp h
      cases h
      exact .inr (.inr ⟨rfl, by omega, s₁, .inr hs₁, rfl⟩)

end Steps

/-! ## On a kernel -/

section Kernel

variable {Q : Type → Type → Type} [NodeLists Q] {T : Type} [DecidableEq T] [Fintype T]

instance : SyncState (Kernel Q T) where
  count := Kernel.count
  setCount := Kernel.setCount
  tick := Kernel.tick
  schedulerLock k := k.vars.schedulerLock
  setAlarm k timeout entry := do
    let current ← k.vars.currentTask
    k.setAlarm current timeout entry (entry.bind fun _ => some current)

/-- The steps of a call, up to a call of `_os_wait_in_queue`, which is executed, or to the
return. -/
def acquireSteps : Nat → AcquireFrame → Kernel Q T → Option (CallResult × Kernel Q T)
  | 0, _, _ => none
  | fuel + 1, f, k => do
    match ← f.step k with
    | (k, .goto f) => acquireSteps fuel f k
    | (k, .wait f) =>
      return (.switched (.acquire f.sem f.timeout f.absTimeout), ← k.waitSemaphore f.sem)
    | (k, .wake) => return (.returned 0, k)
    | (k, .returned v) => return (.returned v, k)

/-- **The steps of `eos_acquire_semaphore`** do what the whole stretch does. -/
theorem acquireSteps_eq (k : Kernel Q T) (sem : Nat) (timeout : Int32) :
    acquireSteps 4 (.entry sem timeout) k = k.eosAcquireSemaphore sem timeout := by
  unfold Kernel.eosAcquireSemaphore
  simp only [acquireSteps, AcquireFrame.entry, AcquireFrame.step, SyncState.schedulerLock]
  by_cases hl : k.vars.schedulerLock ≠ 0
  · simp [hl]
  · simp only [hl, if_false, Option.bind_eq_bind, Option.bind_some, SyncState.count,
      SyncState.tick, SyncState.setAlarm, SyncState.setCount]
    by_cases hc : k.count sem ≤ 0
    · by_cases ht : timeout < 0
      · simp [hc, ht]
      · simp only [hc, ht, if_true, if_false]
        cases k.vars.currentTask with
        | none => rfl
        | some t =>
          simp only [Option.bind_some]
          cases k.setAlarm t timeout.toUInt32 (some .osWakeupFromAlarmQueue) (some t) with
          | none => rfl
          | some k => rfl
    · simp [hc]

/-- The steps of the loop, from behind a call of `_os_wait_in_queue`. -/
theorem acquireSteps_retry (k : Kernel Q T) (sem : Nat) (timeout : Int32) (absTimeout : UInt32) :
    acquireSteps 3 ⟨sem, timeout, absTimeout, .timeoutTest⟩ k =
      k.acquireRetry sem timeout absTimeout := by
  unfold Kernel.acquireRetry
  simp only [acquireSteps, AcquireFrame.step, SyncState.tick]
  by_cases ht : timeout ≠ 0 ∧ absTimeout ≤ k.tick
  · simp [ht]
  · simp only [ht, if_false, Option.bind_eq_bind, Option.bind_some, SyncState.count,
      SyncState.setAlarm, SyncState.setCount]
    by_cases hc : k.count sem ≤ 0
    · simp only [hc, if_true, Option.bind_some]
    · simp only [hc, if_false]
      cases k.vars.currentTask with
      | none => rfl
      | some t =>
        simp only [Option.bind_some, Option.bind_none]
        cases k.setAlarm t 0 none none with
        | none => rfl
        | some k => rfl

end Kernel

end Eos.Model
