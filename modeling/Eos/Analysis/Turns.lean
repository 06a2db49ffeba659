import Eos.Analysis.Statements
import Eos.Analysis.TaskLives

/-!
# Ticks in the middle of a call

`Between s a c` is what holds of a system between two turns: its kernel represents the
sequences of `a`, its current task `c` stands where the kernel is in order or a routine is
about to put it in order, and no other task was interrupted in such a place.  Every guarded
turn keeps it (`Between.turn`), so the queues are in order in every run of guarded turns.

A turn that is not guarded breaks them: a tick between the two statements in which
`_os_wait_in_queue` links its caller and writes its status.
-/

set_option autoImplicit false

namespace Eos.Analysis

open Eos.Lib (LinkMem RingsOk Reach)
open Eos.Model
open Eos.Interface (Rings Linked Repr)

/-! ## The property and the condition -/

section Defs

variable {T : Type}

/-- **The queues are in order**: the links close well-formed circles, no node is in two rings or
twice in one, and every ready task is in its ready ring unless a kernel call is moving it. -/
def QueuesOk (s : StatementSystem LinkMem T) : Prop :=
  ∃ ring, RingsOk s.kernel.queue ring ∧ ∀ t, s.kernel.status t = .ready →
    (∀ u, moving u (s.control u) ≠ some t) → t ∈ ring (.ready (s.kernel.priority t))

/-- The turns that do no harm: no tick comes between a list routine and the status write that
belongs to it, or finds the alarm of a ready task due that has no wait queue owner or is the first
one of its ready queue; and a call goes on with a task only if it is still as it was found. -/
def Guarded (s : StatementSystem LinkMem T) : Turn T → Prop
  | .tick => (∀ c, s.kernel.vars.currentTask = some c → moving c (s.control c) = none) ∧
      DueInOrder s.kernel
  | .next => ∀ c, s.kernel.vars.currentTask = some c → StillChosen s.kernel (s.control c)
  | .invoke _ => True

/-- The turns there are in a state: a task in its own code makes a call, one in a call goes on, and
a tick comes while there is a task to go on with. -/
def Takes (s : StatementSystem LinkMem T) : Turn T → Prop
  | .invoke _ => ∃ c, s.kernel.vars.currentTask = some c ∧ s.control c = .own
  | .next => ∃ c, s.kernel.vars.currentTask = some c ∧ s.control c ≠ .own
  | .tick => Dispatchable s.kernel

/-- A state in which every task is in its own code: the queues have any contents, and with the
scheduler unlocked the current task runs. -/
def Settled (s : StatementSystem LinkMem T) : Prop :=
  (∃ a c, Repr s.kernel a ∧ Consistent a ∧ a.vars.currentTask = some c ∧
    (a.vars.schedulerLock ≠ locked → a.status c = .running)) ∧ ∀ t, s.control t = .own

instance (k : Kernel LinkMem T) : DecidablePred (StillChosen k)
  | .own | .acquire _ | .release _ => .isTrue trivial
  | .routine (.waitAdd _ _) _ =>
    inferInstanceAs (Decidable (∀ c ∈ k.vars.currentTask, k.status c = .running))
  | .routine (.readyAdd _) _ => inferInstanceAs (Decidable (_ ∨ _ ∧ _))
  | .routine (.wakeRemove _ _) _ => inferInstanceAs (Decidable (_ ∧ _ ∧ _))
  | .routine (.wakeTask _) _ => inferInstanceAs (Decidable (_ ≠ _))
  | .routine (.firstNode _) _ => inferInstanceAs (Decidable (_ ≠ _))
  | .routine (.remove _ _) _ => inferInstanceAs (Decidable (_ = _))
  | .routine (.setCurrent _) _ => inferInstanceAs (Decidable (_ = _))
  | .routine (.waitOwner _) _ | .routine .waitStatus _
  | .routine (.wakeTest _) _ | .routine (.sleepLock _) _
  | .routine (.sleepPeriod _) _ | .routine .sleepAdvance _ | .routine .sleepDue _
  | .routine .sleepTimeout _ | .routine (.sleepAlarm _) _ | .routine .sleepStatus _
  | .routine (.resumeTest _) _ | .routine (.readySet _) _ | .routine (.readyStatus _) _
  | .routine .scheduleLock _ | .routine .scheduleTest _ | .routine .requeueAdd _
  | .routine .requeueSet _ | .routine .requeueStatus _ | .routine .save _ | .routine .highest _
  | .routine (.pickTask _) _ | .routine (.unsetTest _) _
  | .routine (.unset _) _ | .routine (.setRunning _) _ => .isTrue trivial

end Defs

variable {T : Type} [DecidableEq T] [Fintype T] {a a' : Kernel Rings T} {k k' : Kernel LinkMem T}
  {c t u : T} {st : Statement T}

instance (s : StatementSystem LinkMem T) : DecidablePred (Guarded s)
  | .tick => inferInstanceAs (Decidable ((∀ c, s.kernel.vars.currentTask = some c →
      moving c (s.control c) = none) ∧ DueInOrder s.kernel))
  | .next => inferInstanceAs (Decidable (∀ c, s.kernel.vars.currentTask = some c →
      StillChosen s.kernel (s.control c)))
  | .invoke _ => .isTrue trivial

/-! ## Where a task stands -/

/-- What holds where the current task stands. -/
def Stands (a : Kernel Rings T) (c : T) : Control T → Prop
  | .own | .release _ => Orderly a ∧ Awake a c
  | .acquire f => Orderly a ∧ Awake a c ∧ (f.point ≠ .lockTest → a.vars.schedulerLock ≠ locked)
  | .routine st caller => Before a c st ∧ (caller.isSome → a.vars.schedulerLock ≠ locked)

omit [Fintype T] in
/-- Where no task is being moved the kernel is orderly. -/
theorem Before.orderly (hb : Before a c st) (hm : st.moving c = none) : Orderly a := by
  cases st with
  | waitAdd | sleepPeriod | sleepAdvance | sleepDue | sleepTimeout | sleepAlarm | sleepStatus
  | requeueAdd | wakeTest | sleepLock | resumeTest => exact hb.1
  | scheduleTest | save | highest | firstNode | pickTask | remove | setCurrent => exact hb.1
  | wakeTask | wakeRemove | readyAdd | scheduleLock => exact hb
  | waitOwner | waitStatus | readySet | readyStatus | requeueSet | requeueStatus | unsetTest
  | unset | setRunning => cases hm

omit [Fintype T] in
/-- With the scheduler locked, a statement may be executed in any orderly state. -/
theorem Before.of_locked (hb : Before a c st) (hm : st.moving c = none) (h : Orderly a')
    (hl : a.vars.schedulerLock = locked) (hl' : a'.vars.schedulerLock = locked) :
    Before a' c st := by
  cases st with
  | sleepPeriod | sleepAdvance | sleepDue | sleepTimeout | sleepAlarm | sleepStatus | requeueAdd =>
    exact absurd hl hb.2.1
  | scheduleTest | save | highest | firstNode | pickTask | remove | setCurrent =>
    exact absurd hl hb.2
  | waitAdd | wakeTest | sleepLock | resumeTest => exact ⟨h, fun hn => absurd hl' hn⟩
  | wakeTask | wakeRemove | readyAdd | scheduleLock => exact h
  | waitOwner | waitStatus | readySet | readyStatus | requeueSet | requeueStatus | unsetTest
  | unset | setRunning => cases hm

namespace Stands

variable {p : Control T}

omit [Fintype T] in
/-- A kernel in which no task is being moved is orderly. -/
theorem orderly (h : Stands a c p) (hm : moving c p = none) : Orderly a := by
  cases p with
  | own | release | acquire => exact h.1
  | routine st caller => exact h.1.orderly hm

omit [Fintype T] in
/-- A task that was dispatched may go on wherever no task is being moved. -/
theorem of_running (h : Orderly a) (hl : a.vars.schedulerLock ≠ locked)
    (hs : a.status c = .running) (hm : moving c p = none) : Stands a c p := by
  cases p with
  | own | release => exact ⟨h, fun _ => hs⟩
  | acquire f => exact ⟨h, fun _ => hs, fun _ => hl⟩
  | routine st caller => exact ⟨.of_running h hl hs hm, fun _ => hl⟩

omit [Fintype T] in
/-- With the scheduler locked, the current task may go on in any orderly state. -/
theorem of_locked (hp : Stands a c p) (hm : moving c p = none) (h : Orderly a')
    (hl : a.vars.schedulerLock = locked) (hl' : a'.vars.schedulerLock = locked) :
    Stands a' c p := by
  have hw : Awake a' c := fun hn => absurd hl' hn
  cases p with
  | own | release => exact ⟨h, hw⟩
  | acquire f => exact ⟨h, hw, fun hf => absurd hl (hp.2.2 hf)⟩
  | routine st caller => exact ⟨hp.1.of_locked hm h hl hl', fun hc => absurd hl (hp.2 hc)⟩

omit [Fintype T] in
/-- A routine returns to the current task. -/
theorem back (h : Orderly a) (hw : Awake a c) {caller : Option AcquireFrame}
    (hl : caller.isSome → a.vars.schedulerLock ≠ locked) : Stands a c (.back caller) := by
  cases caller with
  | none => exact ⟨h, hw⟩
  | some f => exact ⟨h, hw, fun _ => hl rfl⟩

end Stands

/-- What holds of a system between two turns: its kernel represents the sequences of `a`, `c` is
its current task, and no other task's call is moving a task. -/
structure Between (s : StatementSystem LinkMem T) (a : Kernel Rings T) (c : T) : Prop where
  repr : Repr s.kernel a
  current : a.vars.currentTask = some c
  stands : Stands a c (s.control c)
  others : ∀ t ≠ c, moving t (s.control t) = none
  matched : ∀ t st caller, s.control t = .routine st caller → Matched a st

omit [DecidableEq T] [Fintype T] in
/-- At the end of a call no task is being moved. -/
theorem moving_back (c : T) (caller : Option AcquireFrame) : moving c (.back caller) = none := by
  cases caller <;> rfl

omit [DecidableEq T] [Fintype T] in
/-- A statement stays matched while no task goes back to zeroed memory. -/
theorem Matched.mono (h : Matched a st) (hz : ∀ t, a'.status t = .zeroed → a.status t = .zeroed) :
    Matched a' st := by
  cases st with
  | pickTask node => exact fun hc => h (hz node hc)
  | remove node t => exact h
  | _ => trivial

/-! ## One turn -/

/-- A task enters a wait queue: `_os_wait_in_queue` is about to add it. -/
def Enters (s : StatementSystem LinkMem T) (q : WaitQueue) (t : T) : Prop :=
  ∃ queueType caller, s.control t = .routine (.waitAdd q queueType) caller

/-- What a turn does: it keeps the invariant, and only the current task may enter a wait queue. -/
def Turns (s : StatementSystem LinkMem T) (a : Kernel Rings T) (c : T)
    (s' : StatementSystem LinkMem T) : Prop :=
  ∃ a' c', Between s' a' c' ∧ ∀ q t, t ∈ a'.queue.ring (.wait q) →
    t ∈ a.queue.ring (.wait q) ∨ t = c ∧ Enters s q t

variable {s s' : StatementSystem LinkMem T} {p : Control T}

omit [Fintype T] in
/-- The caller is at its new point. -/
@[simp] theorem put_control_self (s : StatementSystem LinkMem T) (c : T) (k : Kernel LinkMem T)
    (p : Control T) : (s.put c k p).control c = p := Function.update_self ..

omit [Fintype T] in
/-- The other tasks stay where they are. -/
theorem put_control_of_ne (s : StatementSystem LinkMem T) (k : Kernel LinkMem T) (p : Control T)
    (ht : t ≠ c) : (s.put c k p).control t = s.control t := Function.update_of_ne ht ..

omit [Fintype T] in
/-- What holds of every task's place behind a step is what holds of the current task's new one and
of the others' old ones. -/
theorem forall_control_put {P : T → Control T → Prop} (hself : P c p)
    (hother : ∀ t ≠ c, P t (s.control t)) (t : T) : P t ((s.put c k' p).control t) := by
  by_cases htc : t = c
  · subst htc
    rwa [put_control_self]
  · rw [put_control_of_ne s k' p htc]
    exact hother t htc

omit [Fintype T] in
/-- The current task stays the current one, and its place and the kernel change. -/
theorem Between.put (h : Between s a c) (hr : Repr k' a') (hc : a'.vars.currentTask = some c)
    (hz : ∀ t, a'.status t = .zeroed → a.status t = .zeroed) (hp : Stands a' c p)
    (hm : ∀ st caller, p = .routine st caller → Matched a' st) : Between (s.put c k' p) a' c := by
  refine ⟨hr, hc, by rwa [put_control_self], fun t ht => ?_, ?_⟩
  · rw [put_control_of_ne s k' p ht]
    exact h.others t ht
  · apply forall_control_put
      (P := fun _ p => ∀ st caller, p = .routine st caller → Matched a' st) hm
    intro t _ st caller hst
    exact (h.matched t st caller hst).mono hz

omit [Fintype T] in
/-- The current task makes a call. -/
theorem Between.invoke (h : Between s a c) (hown : s.control c = .own) (i : Invocation T) :
    Turns s a c (s.put c (StatementSystem.enter s.kernel i).1
      (StatementSystem.enter s.kernel i).2) := by
  have hst : Orderly a ∧ Awake a c := by
    have := h.stands
    rwa [hown] at this
  have hsame : ∀ p, Stands a c p → (∀ st caller, p = .routine st caller → Matched a st) →
      Turns s a c (s.put c s.kernel p) := fun p hp hm =>
    ⟨a, c, h.put h.repr h.current (fun _ => id) hp hm, fun _ _ => .inl⟩
  cases i with
  | acquire sem timeout => exact hsame _ ⟨hst.1, hst.2, fun hf => absurd rfl hf⟩ nofun
  | release sem => exact hsame _ hst nofun
  | waitInQueue q => exact hsame _ ⟨hst, nofun⟩ fun st caller he => by cases he; trivial
  | wakeupFromQueue q => exact hsame _ ⟨hst, nofun⟩ fun st caller he => by cases he; trivial
  | sleep tick => exact hsame _ ⟨hst, nofun⟩ fun st caller he => by cases he; trivial
  | resumeTask task => exact hsame _ ⟨hst, nofun⟩ fun st caller he => by cases he; trivial
  | schedule => exact hsame _ ⟨hst.1, nofun⟩ fun st caller he => by cases he; trivial
  | lockScheduler =>
    exact ⟨_, c, h.put (h.repr.setLock locked) h.current (fun _ => id)
      ⟨hst.1.congr rfl rfl rfl rfl rfl, fun hn => absurd rfl hn⟩ nofun, fun _ _ => .inl⟩
  | restoreScheduler v =>
    exact ⟨_, c, h.put (h.repr.setLock v) h.current (fun _ => id)
      ⟨hst.1.congr rfl rfl rfl rfl rfl, nofun⟩ fun st caller he => by cases he; trivial,
      fun _ _ => .inl⟩

/-- **A tick** between two statements: no task enters a wait queue, and the semaphores are left
alone. -/
theorem Between.tick (h : Between s a c) (hg : Guarded s .tick)
    (hk : s.kernel.eosTriggerCounter = some k') :
    ∃ a' c', Between { s with kernel := k' } a' c' ∧
      (∀ q t, t ∈ a'.queue.ring (.wait q) → t ∈ a.queue.ring (.wait q)) ∧
      k'.vars.semaphore = s.kernel.vars.semaphore := by
  obtain ⟨hmove, hdue⟩ := hg
  have hmove := hmove c (h.repr.vars ▸ h.current)
  obtain ⟨a', hr', ht⟩ := tick_turned h.repr (h.stands.orderly hmove) hdue hk
  have hmatched : ∀ t st caller, s.control t = .routine st caller → Matched a' st :=
    fun t st caller hst => (h.matched t st caller hst).mono ht.created
  have hsem : k'.vars.semaphore = s.kernel.vars.semaphore := by
    rw [hr'.vars, ht.semaphore, h.repr.vars]
  obtain ⟨hl, hc⟩ | ⟨hl, next, hc, hs⟩ := ht.dispatched
  · exact ⟨a', c, ⟨hr', hc.trans h.current, h.stands.of_locked hmove ht.orderly hl
      (ht.lock.trans hl), h.others, hmatched⟩, ht.wait, hsem⟩
  · have hrest : ∀ t, moving t (s.control t) = none := fun t => by
      by_cases htc : t = c
      · exact htc ▸ hmove
      · exact h.others t htc
    exact ⟨a', next, ⟨hr', hc, .of_running ht.orderly (ht.lock ▸ hl) hs (hrest next),
      fun t _ => hrest t, hmatched⟩, ht.wait, hsem⟩

/-- A step of a semaphore call changes alarms and counts only. -/
structure Calls (a a' : Kernel Rings T) : Prop where
  orderly : Orderly a'
  queue : a'.queue = a.queue
  tcb : a'.vars.tcb = a.vars.tcb
  lock : a'.vars.schedulerLock = a.vars.schedulerLock
  current : a'.vars.currentTask = a.vars.currentTask

omit [Fintype T] [DecidableEq T] in
/-- A call keeps its caller awake. -/
theorem Calls.awake (h : Calls a a') (hw : Awake a c) : Awake a' c := by
  intro hl
  rw [Kernel.status, h.tcb]
  exact hw (h.lock ▸ hl)

omit [Fintype T] [DecidableEq T] in
/-- A call creates no task. -/
theorem Calls.created (h : Calls a a') (t : T) (hz : a'.status t = .zeroed) :
    a.status t = .zeroed := by
  rwa [Kernel.status, h.tcb] at hz

omit [Fintype T] [DecidableEq T] in
/-- Doing nothing is such a call. -/
theorem calls_self (h : Orderly a) : Calls a a := ⟨h, rfl, rfl, rfl, rfl⟩

omit [Fintype T] [DecidableEq T] in
/-- A count is written. -/
theorem calls_setCount (h : Orderly a) (sem : Nat) (n : Int) : Calls a (a.setCount sem n) :=
  ⟨h.congr rfl rfl rfl rfl rfl, rfl, rfl, rfl, rfl⟩

/-- **A step of `eos_acquire_semaphore`** (core/sync.c:33-75). -/
theorem acquire_calls (hr : Repr k a) (hc : a.vars.currentTask = some c) {f : AcquireFrame}
    (hp : Stands a c (.acquire f)) {n : Next AcquireFrame} (hst : f.step k = some (k', n)) :
    ∃ a', Repr k' a' ∧ Calls a a' ∧
      ∀ g, n = .goto g ∨ n = .wait g → a'.vars.schedulerLock ≠ locked := by
  obtain ⟨ho, hw, hl⟩ := hp
  have hck : k.vars.currentTask = some c := by rw [hr.vars, hc]
  have hcount : ∀ sem, k.count sem = a.count sem := fun sem => by
    rw [Kernel.count, hr.vars, Kernel.count]
  unfold AcquireFrame.step at hst
  cases hpt : f.point with
  | lockTest =>
    simp only [hpt] at hst
    split at hst
    · cases hst
      exact ⟨a, hr, calls_self ho, fun g hg => by cases hg <;> contradiction⟩
    · next hlock =>
      cases hst
      have hlock : a.vars.schedulerLock = 0 := by
        rw [← hr.vars]
        exact not_not.mp hlock
      exact ⟨a, hr, calls_self ho, fun _ _ => by rw [hlock]; decide⟩
  | deadline | wait =>
    simp only [hpt] at hst
    cases hst
    exact ⟨a, hr, calls_self ho, fun _ _ => hl (by simp [hpt])⟩
  | test =>
    have hl := hl (by simp [hpt])
    have hs := hw hl
    simp only [hpt] at hst
    split at hst
    · split at hst
      · cases hst
        exact ⟨a, hr, calls_self ho, fun _ _ => hl⟩
      · obtain ⟨k₁, hk₁, hst⟩ := Option.bind_eq_some_iff.mp hst
        cases hst
        obtain ⟨m, hm, ho'⟩ := ho.setAlarm (t := c) (by simp [hs]) f.timeout.toUInt32
        obtain ⟨k₂, hk₂, hra⟩ := hr.setAlarm c f.timeout.toUInt32 _ _ _ hm
        simp only [SyncState.setAlarm, hck, Option.bind_eq_bind, Option.bind_some] at hk₁
        obtain rfl := Option.some.inj (hk₂.symm.trans hk₁)
        exact ⟨_, hra, ⟨ho', rfl, rfl, rfl, rfl⟩, fun _ _ => hl⟩
    · cases hst
      refine ⟨_, ?_, calls_setCount ho f.sem (a.count f.sem - 1), fun _ _ => hl⟩
      rw [← hcount]
      exact hr.setCount _ _
  | timeoutTest =>
    simp only [hpt] at hst
    split at hst
    · cases hst
      exact ⟨a, hr, calls_self ho, fun _ _ => hl (by simp [hpt])⟩
    · cases hst
      exact ⟨a, hr, calls_self ho, fun _ _ => hl (by simp [hpt])⟩
  | retest =>
    have hl := hl (by simp [hpt])
    simp only [hpt] at hst
    split at hst
    · cases hst
      exact ⟨a, hr, calls_self ho, fun _ _ => hl⟩
    · obtain ⟨k₁, hk₁, hst⟩ := Option.bind_eq_some_iff.mp hst
      cases hst
      obtain ⟨m, hm, ho'⟩ := ho.cancelAlarm c
      obtain ⟨k₂, hk₂, hra⟩ := hr.setAlarm c 0 none none _ hm
      simp only [SyncState.setAlarm, hck, Option.bind_eq_bind, Option.bind_some,
        Option.bind_none] at hk₁
      obtain rfl := Option.some.inj (hk₂.symm.trans hk₁)
      have hset := calls_setCount ho' f.sem (a.count f.sem - 1)
      refine ⟨_, ?_, ⟨hset.orderly, rfl, rfl, rfl, rfl⟩, fun _ _ => hl⟩
      have hcount' : SyncState.count k₂ f.sem = a.count f.sem := by
        show k₂.count f.sem = _
        rw [Kernel.count, hra.vars]
        rfl
      rw [hcount']
      exact hra.setCount _ _

/-- A step of `eos_acquire_semaphore` is a turn. -/
theorem Between.acquire (h : Between s a c) {f : AcquireFrame} (hf : s.control c = .acquire f)
    (hs : StatementSystem.advance s.kernel c (.acquire f) = some (k', p)) :
    Turns s a c (s.put c k' p) := by
  have hst := h.stands
  rw [hf] at hst
  obtain ⟨⟨k₁, n⟩, hk₁, hs⟩ := Option.bind_eq_some_iff.mp hs
  obtain ⟨a', hr', hcalls, hnext⟩ := acquire_calls h.repr h.current hst hk₁
  have hw := hcalls.awake hst.2.1
  have hc := hcalls.current.trans h.current
  have hring : ∀ q t, t ∈ a'.queue.ring (.wait q) → t ∈ a.queue.ring (.wait q) ∨
      t = c ∧ Enters s q t := fun q t ht => .inl (by rwa [hcalls.queue] at ht)
  cases n with
  | goto g =>
    cases hs
    exact ⟨a', c, h.put hr' hc hcalls.created ⟨hcalls.orderly, hw, fun _ => hnext g (.inl rfl)⟩
      nofun, hring⟩
  | wait g =>
    cases hs
    have hl := hnext g (.inr rfl)
    exact ⟨a', c, h.put hr' hc hcalls.created ⟨⟨hcalls.orderly, hw⟩, fun _ => hl⟩
      fun st caller he => by cases he; trivial, hring⟩
  | wake =>
    cases hs
    exact ⟨a', c, h.put hr' hc hcalls.created ⟨hcalls.orderly, hw⟩ nofun, hring⟩
  | returned v =>
    cases hs
    exact ⟨a', c, h.put hr' hc hcalls.created ⟨hcalls.orderly, hw⟩ nofun, hring⟩

/-- A step of `eos_release_semaphore` is a turn (core/sync.c:78-94). -/
theorem Between.release (h : Between s a c) {f : ReleaseFrame} (hf : s.control c = .release f)
    (hs : StatementSystem.advance s.kernel c (.release f) = some (k', p)) :
    Turns s a c (s.put c k' p) := by
  have hst := h.stands
  rw [hf] at hst
  unfold StatementSystem.advance ReleaseFrame.step at hs
  cases hpt : f.point with
  | increment =>
    simp only [hpt] at hs
    cases hs
    have hcalls := calls_setCount hst.1 f.sem (a.count f.sem + 1)
    have hcount : SyncState.count s.kernel f.sem = a.count f.sem := by
      show s.kernel.count f.sem = _
      rw [Kernel.count, h.repr.vars, Kernel.count]
    rw [hcount]
    exact ⟨_, c, h.put (h.repr.setCount _ _) h.current hcalls.created
      ⟨hcalls.orderly, hcalls.awake hst.2⟩ nofun, fun _ _ => .inl⟩
  | wake =>
    simp only [hpt] at hs
    cases hs
    split
    · exact ⟨a, c, h.put h.repr h.current (fun _ => id) hst nofun, fun _ _ => .inl⟩
    · exact ⟨a, c, h.put h.repr h.current (fun _ => id) ⟨hst, nofun⟩
        fun st caller he => by cases he; trivial, fun _ _ => .inl⟩

/-- A statement of a routine is a turn. -/
theorem Between.statement (h : Between s a c) {caller : Option AcquireFrame}
    (hf : s.control c = .routine st caller) (hch : StillChosen s.kernel (s.control c))
    (hs : StatementSystem.advance s.kernel c (.routine st caller) = some (k', p)) :
    Turns s a c (s.put c k' p) := by
  have hst := h.stands
  rw [hf] at hst hch
  obtain ⟨⟨k₁, r⟩, hk₁, hs⟩ := Option.bind_eq_some_iff.mp hs
  obtain ⟨a', hr', hafter, hl, hz, hring⟩ := hst.1.step h.repr (h.matched c st caller hf)
    (by cases st <;> exact hch) h.current hk₁
  have hring' : ∀ q t, t ∈ a'.queue.ring (.wait q) → t ∈ a.queue.ring (.wait q) ∨
      t = c ∧ Enters s q t := by
    intro q t ht
    refine (hring q t ht).imp_right ?_
    rintro ⟨rfl, queueType, rfl⟩
    exact ⟨rfl, queueType, caller, hf⟩
  cases r with
  | some next =>
    cases hs
    obtain ⟨hc, hb, hm⟩ := hafter
    exact ⟨a', c, h.put hr' hc hz ⟨hb, fun hn => hl ▸ hst.2 hn⟩
      fun st caller he => by cases he; exact hm, hring'⟩
  | none =>
    cases hs
    obtain ⟨ho, t, hc, hw, hne⟩ := hafter
    have hback : ∀ st cl, Control.back caller = .routine st cl → Matched a' st := by
      intro st cl he
      cases caller <;> cases he
    by_cases htc : t = c
    · subst htc
      exact ⟨a', t, h.put hr' hc hz (.back ho hw fun hn => hl ▸ hst.2 hn) hback, hring'⟩
    · refine ⟨a', t, ⟨hr', hc, ?_, ?_, ?_⟩, hring'⟩
      · rw [put_control_of_ne s k' _ htc]
        exact .of_running ho (hne htc) (hw (hne htc)) (h.others t htc)
      · apply forall_control_put (P := fun u p => u ≠ t → moving u p = none)
        · exact fun _ => moving_back c caller
        · exact fun u huc _ => h.others u huc
      · apply forall_control_put
          (P := fun _ p => ∀ st cl, p = .routine st cl → Matched a' st) hback
        intro u _ st cl hu
        exact (h.matched u st cl hu).mono hz

/-- **Every guarded turn** keeps the invariant. -/
theorem Between.turn (h : Between s a c) {o : Turn T} (hg : Guarded s o) (hs : s.exec o = some s') :
    Turns s a c s' := by
  have hcur : s.kernel.vars.currentTask = some c := by rw [h.repr.vars, h.current]
  cases o with
  | invoke i =>
    obtain ⟨c', hc', hown, rfl⟩ := StatementSystem.invoke_cases hs
    obtain rfl := Option.some.inj (hcur.symm.trans hc')
    exact h.invoke hown i
  | next =>
    obtain ⟨c', k', p, hc', hadv, rfl⟩ := StatementSystem.next_cases hs
    obtain rfl := Option.some.inj (hcur.symm.trans hc')
    have hch := hg c hcur
    cases hp : s.control c with
    | own =>
      rw [hp] at hadv
      cases hadv
    | acquire f => exact h.acquire hp (hp ▸ hadv)
    | release f => exact h.release hp (hp ▸ hadv)
    | routine st caller => exact h.statement hp hch (hp ▸ hadv)
  | tick =>
    obtain ⟨k', hk', rfl⟩ := StatementSystem.tick_cases hs
    obtain ⟨a', c', hb, hring, -⟩ := h.tick hg hk'
    exact ⟨a', c', hb, fun q t ht => .inl (hring q t ht)⟩

/-- No step of `eos_acquire_semaphore` gets stuck. -/
theorem acquire_progress (hr : Repr k a) (hc : a.vars.currentTask = some c) {f : AcquireFrame}
    (hp : Stands a c (.acquire f)) : ∃ r, f.step k = some r := by
  obtain ⟨ho, hw, hl⟩ := hp
  have hck : k.vars.currentTask = some c := by rw [hr.vars, hc]
  unfold AcquireFrame.step
  cases hpt : f.point with
  | lockTest => exact Option.isSome_iff_exists.mp (by dsimp only; split <;> rfl)
  | deadline | wait => exact ⟨_, rfl⟩
  | timeoutTest => exact Option.isSome_iff_exists.mp (by dsimp only; split <;> rfl)
  | test =>
    obtain ⟨m, hm, -⟩ := ho.setAlarm (t := c) (by simp [hw (hl (by simp [hpt]))]) f.timeout.toUInt32
    obtain ⟨k₁, hk₁, -⟩ := hr.setAlarm c _ _ _ _ hm
    have hset : SyncState.setAlarm k f.timeout.toUInt32 (some .osWakeupFromAlarmQueue) =
        some k₁ := by
      simp only [SyncState.setAlarm, hck, Option.bind_eq_bind, Option.bind_some]
      exact hk₁
    apply Option.isSome_iff_exists.mp
    dsimp only
    rw [hset]
    split
    · split <;> rfl
    · rfl
  | retest =>
    obtain ⟨m, hm, -⟩ := ho.cancelAlarm c
    obtain ⟨k₁, hk₁, -⟩ := hr.setAlarm c 0 none none _ hm
    have hset : SyncState.setAlarm k 0 none = some k₁ := by
      simp only [SyncState.setAlarm, hck, Option.bind_eq_bind, Option.bind_some, Option.bind_none]
      exact hk₁
    apply Option.isSome_iff_exists.mp
    dsimp only
    rw [hset]
    split <;> rfl

/-- **Every guarded turn that there is** has a result. -/
theorem Between.progress (h : Between s a c) {o : Turn T} (ho : Takes s o) (hg : Guarded s o) :
    ∃ s', s.exec o = some s' := by
  have hcur : s.kernel.vars.currentTask = some c := by rw [h.repr.vars, h.current]
  cases o with
  | invoke i =>
    obtain ⟨c', hc', hown⟩ := ho
    obtain rfl := Option.some.inj (hcur.symm.trans hc')
    refine ⟨s.put c (StatementSystem.enter s.kernel i).1 (StatementSystem.enter s.kernel i).2, ?_⟩
    simp only [StatementSystem.exec, hcur, Option.bind_eq_bind, Option.bind_some, if_pos hown]
    rfl
  | tick =>
    obtain ⟨k', hk'⟩ := tick_runs h.repr (h.stands.orderly (hg.1 c hcur)) hg.2 ho
    refine ⟨{ s with kernel := k' }, ?_⟩
    rw [StatementSystem.exec, hk']
    rfl
  | next =>
    obtain ⟨c', hc', hown⟩ := ho
    obtain rfl := Option.some.inj (hcur.symm.trans hc')
    suffices ∃ r, StatementSystem.advance s.kernel c (s.control c) = some r by
      obtain ⟨r, hr⟩ := this
      refine ⟨s.put c r.1 r.2, ?_⟩
      simp only [StatementSystem.exec, hcur, Option.bind_eq_bind, Option.bind_some, hr]
      rfl
    have hst := h.stands
    have hch := hg c hcur
    cases hp : s.control c with
    | own => exact absurd hp hown
    | acquire f =>
      rw [hp] at hst
      obtain ⟨⟨k', n⟩, hn⟩ := acquire_progress h.repr h.current hst
      apply Option.isSome_iff_exists.mp
      rw [StatementSystem.advance, hn, Option.bind_eq_bind, Option.bind_some]
      cases n <;> rfl
    | release f =>
      cases hn : f.step s.kernel with
      | mk k' n =>
        apply Option.isSome_iff_exists.mp
        rw [StatementSystem.advance, hn]
        cases n <;> rfl
    | routine st caller =>
      rw [hp] at hst hch
      obtain ⟨k', r, hn⟩ := hst.1.progress h.repr (h.matched c st caller hp)
        (by cases st <;> exact hch) h.current
      apply Option.isSome_iff_exists.mp
      rw [StatementSystem.advance, hn, Option.bind_eq_bind, Option.bind_some]
      cases r <;> rfl

/-! ## Runs -/

/-- The systems that guarded turns lead to. -/
abbrev Guardedly (s : StatementSystem LinkMem T) : StatementSystem LinkMem T → Prop :=
  Reach StatementSystem.exec Guarded s

omit [Fintype T] in
/-- What holds where every task is in its own code. -/
theorem Settled.between (h : Settled s) : ∃ a c, Between s a c := by
  obtain ⟨⟨a, c, hr, hcons, hc, hw⟩, hown⟩ := h
  refine ⟨a, c, hr, hc, ?_, fun t _ => ?_, fun t st caller hst => ?_⟩
  · rw [hown]
    exact ⟨hcons.orderly, hw⟩
  · rw [hown]
    rfl
  · rw [hown] at hst
    cases hst

/-- **The run lemma.** -/
theorem Guardedly.between (h : Settled s) (hrun : Guardedly s s') : ∃ a c, Between s' a c := by
  refine Reach.invariant (I := fun s => ∃ a c, Between s a c) h.between ?_ hrun
  rintro u v o ⟨a, c, hu⟩ hg hv
  obtain ⟨a', c', hv', -⟩ := hu.turn hg hv
  exact ⟨a', c', hv'⟩

omit [Fintype T] in
/-- While a routine moves one task, the other ones are in order. -/
theorem Before.others (hb : Before a c st) (hm : st.moving c = some u) :
    ∃ b, Orderly b ∧ b.queue = a.queue ∧
      ∀ t ≠ u, b.status t = a.status t ∧ b.priority t = a.priority t := by
  have hset : ∀ {b : Kernel Rings T} {x : Status}, Orderly (b.setStatus u x) →
      b.queue = a.queue → (∀ t ≠ u, b.status t = a.status t ∧ b.priority t = a.priority t) →
      ∃ b, Orderly b ∧ b.queue = a.queue ∧
        ∀ t ≠ u, b.status t = a.status t ∧ b.priority t = a.priority t := by
    intro b x ho hq hsame
    refine ⟨_, ho, hq, fun t ht => ?_⟩
    rw [Kernel.status_setStatus, if_neg ht, Kernel.priority_setStatus]
    exact hsame t ht
  cases st with
  | waitOwner q =>
    cases hm
    exact hset hb rfl fun t _ => ⟨Kernel.status_setOwner .., Kernel.priority_setOwner ..⟩
  | waitStatus =>
    cases hm
    exact hset hb rfl fun _ _ => ⟨rfl, rfl⟩
  | readySet t | readyStatus t =>
    cases hm
    exact hset hb rfl fun _ _ => ⟨rfl, rfl⟩
  | requeueSet | requeueStatus =>
    cases hm
    exact hset hb.1 rfl fun _ _ => ⟨rfl, rfl⟩
  | unsetTest t =>
    cases hm
    obtain ⟨r, hr⟩ := unsetIfEmpty_eq a (a.priority u)
    have ho := hb.1
    rw [hr] at ho
    exact hset ho rfl fun _ _ => ⟨rfl, rfl⟩
  | unset t | setRunning t =>
    cases hm
    exact hset hb.1 rfl fun _ _ => ⟨rfl, rfl⟩
  | _ => cases hm

omit [Fintype T] in
/-- The queues are in order between any two turns. -/
theorem Between.queuesOk (h : Between s a c) : QueuesOk s := by
  refine ⟨a.queue.ring, h.repr.queue, fun t hs hm => ?_⟩
  rw [h.repr.status] at hs
  rw [h.repr.priority]
  cases hmove : moving c (s.control c) with
  | none => exact (h.stands.orderly hmove).mem_ready hs
  | some u =>
    have htu : t ≠ u := fun e => hm c (by rw [hmove, e])
    cases hp : s.control c with
    | own | acquire | release =>
      rw [hp] at hmove
      cases hmove
    | routine st caller =>
      have hst := h.stands
      rw [hp] at hst hmove
      obtain ⟨b, ho, hq, hsame⟩ := hst.1.others hmove
      obtain ⟨hsb, hpb⟩ := hsame t htu
      have := ho.mem_ready (hsb.trans hs)
      rwa [hq, hpb] at this

/-- **Kernel queues survive a tick in the middle of a call**: they are in order in every state of
every run whose turns are guarded, whatever the queues hold at its start, and every further guarded
turn has a result. -/
theorem queues_survive (h : Settled s) (hrun : Guardedly s s') :
    QueuesOk s' ∧ ∀ o, Takes s' o → Guarded s' o → ∃ s'', s'.exec o = some s'' := by
  obtain ⟨a, c, hs⟩ := hrun.between h
  exact ⟨hs.queuesOk, fun o => hs.progress⟩

section Examples

/-- When multitasking starts, every task is in its own code. -/
theorem Booted.settled {idle : T} {s : System LinkMem T} (h : Booted idle s) :
    Settled ⟨s.kernel, fun _ => .own⟩ := by
  obtain ⟨x, hx, -, -, hl⟩ := h.fresh
  have hne : x.kernel.vars.schedulerLock ≠ locked := by
    rw [← hx.kernel.vars, hl]
    decide
  obtain ⟨c, hc, hs⟩ := hx.scheduled.started hne
  exact ⟨⟨x.kernel, c, hx.kernel, hx.scheduled.toConsistent, hc, fun _ => hs⟩, fun _ => rfl⟩

/-- Task `t` of priority 5 and task `u` of another one, and semaphores that nobody has released. -/
def contenders {T : Type} [DecidableEq T] [Fintype T] (idle t u : T) (priority : Nat) :
    Option (StatementSystem LinkMem T) :=
  (boot idle (fun _ => ⟨0, 0⟩) (fun _ => ⟨0⟩)
    [.createTask (some t) 4096 4096 4096 5, .createTask (some u) 4096 4096 4096 priority]).map
    fun s => ⟨s.kernel, fun _ => .own⟩

omit [Fintype T] in
/-- The example starts with no call in progress. -/
theorem contenders_settled [Fintype T] {idle : T} {priority : Nat} {s : StatementSystem LinkMem T}
    (h : contenders idle t u priority = some s) : Settled s := by
  obtain ⟨r, hr, rfl⟩ := Option.map_eq_some_iff.mp h
  exact (booted_of_boot hr).settled

/-- The turns of a call of `eos_acquire_semaphore` up to the enqueue, with a tick at a place. -/
def acquireWith {T : Type} (before after : List (Turn T)) : List (Turn T) :=
  [.invoke (.acquire 0 0), .next, .next, .next, .next] ++ before ++ .next :: after

/-- Ticks right before the enqueue and in the middle of `eos_schedule`: task 0 waits in order. -/
theorem queues_survive_tick :
    ∃ s s' : StatementSystem LinkMem (Fin 3), Settled s ∧ Guardedly s s' ∧ s'.kernel.tick = 2 ∧
      s'.kernel.status 0 = .waiting ∧ s'.kernel.vars.currentTask = some 1 ∧ QueuesOk s' ∧
      ∃ s'', s'.exec .tick = some s'' := by
  obtain ⟨s, s', hs, hrun, htick, hwait, hcur, hg, hd⟩ :=
    Reach.of_decide StatementSystem.exec Guarded (contenders (2 : Fin 3) 0 1 7)
      (acquireWith [.tick] (List.replicate 8 .next ++ [.tick]))
      (fun _ s' => s'.kernel.tick = 2 ∧ s'.kernel.status 0 = .waiting ∧
        s'.kernel.vars.currentTask = some 1 ∧ Guarded s' .tick ∧ s'.kernel.status 1 = .running)
      (by decide +kernel)
  obtain ⟨hok, hnext⟩ := queues_survive (contenders_settled hs) hrun
  exact ⟨s, s', contenders_settled hs, hrun, htick, hwait, hcur, hok,
    hnext .tick (.inr ⟨1, .inr ⟨hcur, hd⟩⟩) hg⟩

/-- **A tick behind the enqueue breaks the queues**: task 0 is linked in the wait queue and still
runs, so the `eos_schedule` of the tick links it in its ready queue too, and takes it out there. -/
theorem queues_broken :
    ∃ s s' : StatementSystem LinkMem (Fin 3), Settled s ∧
      Reach StatementSystem.exec (fun _ _ => True) s s' ∧ ¬QueuesOk s' := by
  obtain ⟨s, s', hs, hrun, hhead, hnext⟩ :=
    Reach.of_decide StatementSystem.exec (fun _ _ => True) (contenders (2 : Fin 3) 0 1 7)
      (acquireWith [] [.tick])
      (fun _ s' => s'.kernel.queue.head (.wait (.semaphore 0)) = some 0 ∧
        s'.kernel.queue.next 0 = none) (by decide +kernel)
  refine ⟨s, s', contenders_settled hs, hrun, ?_⟩
  rintro ⟨ring, hok, -⟩
  have hmem : 0 ∈ ring (.wait (.semaphore 0)) :=
    List.mem_of_mem_head? ((hok.head _).symm.trans hhead)
  exact hok.next_eq_none_iff.mp hnext _ hmem

end Examples

end Eos.Analysis
