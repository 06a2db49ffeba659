import Eos.Analysis.DueAlarms
import Eos.Analysis.SemaphoreCounts

/-!
# What `eos_acquire_semaphore` leaves behind

`eos_acquire_semaphore` sets the alarm of its caller before the loop and cancels it when it
succeeds.  When it fails at the deadline it takes the alarm for fired (core/sync.c:55-58):
`abs_timeout` and the due tick of the alarm are computed separately, with interrupts enabled in
between, and both may wrap around.  If a release wakes the caller at the deadline, the alarm of a
call that was interrupted there is pending when the call returns.

A run keeps account of what each call does to the count.  In every run whose calls set their alarm
for `abs_timeout`, before it has wrapped around, nothing is left behind.
-/

set_option autoImplicit false

namespace Eos.Analysis

open Eos.Lib (LinkMem RingsOk Reach)
open Eos.Model
open Eos.Model.StatementSystem (invoke_cases next_cases tick_cases advance_cases)
open Eos.Interface (Rings Linked Repr apart_semaphore inSleep exec_inSleep)

/-! ## Calls and what they change -/

section Defs

variable {T : Type} [DecidableEq T] [Fintype T]

/-- The call of `eos_acquire_semaphore` a task is in. -/
def acquireCall : Control T → Option AcquireFrame
  | .acquire f | .routine _ (some f) => some f
  | _ => none

/-- The task that a turn makes return from `eos_acquire_semaphore`, with the value. -/
def returning (s : StatementSystem LinkMem T) : Turn T → Option (T × UInt32)
  | .next => do
    let current ← s.kernel.vars.currentTask
    match s.control current with
    | .acquire f =>
      match ← f.step s.kernel with
      | (_, .returned v) => some (current, v)
      | _ => none
    | _ => none
  | _ => none

/-- A system with the change that the call of each task has made to the count of its semaphore, and
the call that has just returned. -/
structure CallRun (T : Type) where
  system : StatementSystem LinkMem T
  change : T → Int
  returned : Option (T × UInt32)

/-- A turn, or a call of `eos_acquire_semaphore` with the semaphore `NULL`. -/
inductive CallTurn (T : Type)
  | turn (o : Turn T)
  | acquireNull
  deriving DecidableEq

/-- The changes after a turn from `s` to `s'`. -/
def changeAfter (s s' : StatementSystem LinkMem T) (change : T → Int) : Turn T → T → Int
  | .tick => change
  | .invoke _ => s.kernel.vars.currentTask.elim change fun c => Function.update change c 0
  | .next => s.kernel.vars.currentTask.elim change fun c =>
    (acquireCall (s.control c)).elim change fun f =>
      Function.update change c (change c + (s'.kernel.count f.sem - s.kernel.count f.sem))

/-- The effect of a turn; a call with `NULL` returns 0 at once (core/sync.c:28-31). -/
def CallRun.exec (r : CallRun T) : CallTurn T → Option (CallRun T)
  | .turn o => do
    let system ← r.system.exec o
    return ⟨system, changeAfter r.system system r.change o, returning r.system o⟩
  | .acquireNull => do
    let current ← r.system.kernel.vars.currentTask
    if r.system.control current = .own then
      return ⟨r.system, Function.update r.change current 0, some (current, 0)⟩
    else none

/-- **Nothing is left behind**: a task that has just returned is linked in no wait queue, its alarm
is not pending, and it has taken one from the count if the value is 1, and nothing if it is 0. -/
def NoResidue (r : CallRun T) : Prop :=
  ∀ t v, r.returned = some (t, v) →
    (∃ ring, RingsOk r.system.kernel.queue ring ∧ ∀ q, t ∉ ring (.wait q)) ∧
      r.system.kernel.timers.alarmQueue.next t = none ∧
      (v = 1 ∧ r.change t = -1 ∨ v = 0 ∧ r.change t = 0)

/-- A task calls with nothing left behind by an earlier call. -/
def MayAcquire (k : Kernel LinkMem T) : Prop :=
  ∀ c ∈ k.vars.currentTask, k.status c ≠ .waiting ∧ k.timers.alarmQueue.next c = none

/-- The alarm of a call is about to be set for `abs_timeout`, which is still to come. -/
def OnDeadline (k : Kernel LinkMem T) : Control T → Prop
  | .acquire f => f.point = .test → k.count f.sem ≤ 0 → 0 < f.timeout →
    f.absTimeout = k.tick + f.timeout.toUInt32 ∧ k.tick < f.absTimeout
  | _ => True

/-- The turns that leave the queues in order, and calls by tasks that have left nothing behind. -/
def Undisturbed (r : CallRun T) : CallTurn T → Prop
  | .turn (.invoke (.acquire _ _)) | .acquireNull => MayAcquire r.system.kernel
  | .turn o => Guarded r.system o

/-- And a call sets its alarm for its deadline. -/
def Punctually (r : CallRun T) (o : CallTurn T) : Prop :=
  Undisturbed r o ∧ ∀ c ∈ r.system.kernel.vars.currentTask, o = .turn .next →
    OnDeadline r.system.kernel (r.system.control c)

end Defs

variable {T : Type} [DecidableEq T] [Fintype T] {k k' : Kernel LinkMem T}
  {s s' : StatementSystem LinkMem T} {ring ring' : Nat → List T} {c t : T} {o : Turn T}
  {f : AcquireFrame} {p : Control T} {v : UInt32}

/-! ## The alarm of a call -/

/-- The alarm of a task, if it is pending, will fire at the deadline of its call. -/
def FiresAt (k : Kernel LinkMem T) (ring : Nat → List T) (t : T) (due : UInt32) : Prop :=
  t ∈ ring systemTimer → k.timers.fields.timeout t = due ∧ k.tick < due

/-- The alarm of a task that is in a call: it is not pending before it is set. -/
def AlarmFits (k : Kernel LinkMem T) (ring : Nat → List T) (t : T) : Control T → Prop
  | .acquire f =>
    (f.point = .lockTest ∨ f.point = .deadline ∨ f.point = .test → t ∉ ring systemTimer) ∧
      FiresAt k ring t f.absTimeout
  | .routine st (some f) =>
    inSleep st = false ∧ f.point = .timeoutTest ∧ FiresAt k ring t f.absTimeout
  | _ => True

/-- From `k` to `k'` only the alarm of task `c` may be set. -/
structure SetsOwn (k k' : Kernel LinkMem T) (ring ring' : Nat → List T) (c : T) : Prop where
  ordered : DueOrdered k'.timers ring'
  tick : k'.tick = k.tick
  others : ∀ t ∈ ring' systemTimer, t ≠ c →
    t ∈ ring systemTimer ∧ k'.timers.fields.timeout t = k.timers.fields.timeout t

omit [Fintype T] [DecidableEq T] in
/-- Where the timers stay, no alarm is set. -/
theorem setsOwn_of_eq (h : DueOrdered k.timers ring) (ht : k'.timers = k.timers) :
    SetsOwn k k' ring ring c := by
  refine ⟨by rwa [ht], ?_, fun t hr _ => ⟨hr, by rw [ht]⟩⟩
  rw [Kernel.tick, ht, Kernel.tick]

omit [Fintype T] [DecidableEq T] in
/-- An alarm is pending where the timers stay. -/
theorem firesAt_of_eq {due : UInt32} (h : FiresAt k ring c due) (ht : k'.timers = k.timers) :
    FiresAt k' ring c due := by
  intro hmem
  rw [Kernel.tick, ht]
  exact h hmem

/-- `eos_set_alarm` for the alarm of task `c` -/
theorem setsOwn_setAlarm (h : DueOrdered k.timers ring) {timeout : UInt32}
    {entry : Option Handler} {arg : Option T} (hk : k.setAlarm c timeout entry arg = some k') :
    ∃ ring', SetsOwn k k' ring ring' c ∧ (c ∈ ring' systemTimer → ¬(timeout = 0 ∨ entry.isNone) ∧
      k'.timers.fields.timeout c = k.tick + timeout) := by
  obtain ⟨m, hm, hk⟩ := Option.bind_eq_some_iff.mp hk
  cases hk
  obtain ⟨ring', h', htick, hmem⟩ := h.eosSetAlarm hm
  refine ⟨ring', ⟨h', congrFun htick systemTimer, fun t ht hne => ?_⟩, fun hc => ?_⟩
  · obtain ⟨-, ht, hsame⟩ | ⟨he, -⟩ := hmem t ht
    · exact ⟨ht, hsame⟩
    · exact absurd he hne
  · obtain ⟨hne, -⟩ | ⟨-, hset⟩ := hmem c hc
    · exact absurd rfl hne
    · exact hset

/-- What holds of the alarm behind a step of the call. -/
def NextFits (k : Kernel LinkMem T) (ring : Nat → List T) (c : T) : Next AcquireFrame → Prop
  | .goto g => AlarmFits k ring c (.acquire g)
  | .wait g => g.point = .timeoutTest ∧ FiresAt k ring c g.absTimeout
  | .wake => True
  | .returned _ => c ∉ ring systemTimer

/-- **A step of `eos_acquire_semaphore`** (core/sync.c:33-75). -/
theorem acquire_setsOwn (h : DueOrdered k.timers ring) (hc : k.vars.currentTask = some c)
    (hf : AlarmFits k ring c (.acquire f)) (hd : OnDeadline k (.acquire f))
    {n : Next AcquireFrame} (hst : f.step k = some (k', n)) :
    ∃ ring', SetsOwn k k' ring ring' c ∧ NextFits k' ring' c n := by
  obtain ⟨hnone, hfires⟩ := hf
  have hself : SetsOwn k k ring ring c := setsOwn_of_eq h rfl
  unfold AcquireFrame.step at hst
  cases hpt : f.point with
  | lockTest =>
    have hn := hnone (.inl hpt)
    simp only [hpt] at hst
    split at hst <;> cases hst
    · exact ⟨ring, hself, hn⟩
    · exact ⟨ring, hself, fun _ => hn, fun hr => absurd hr hn⟩
  | deadline =>
    have hn := hnone (.inr (.inl hpt))
    simp only [hpt] at hst
    cases hst
    exact ⟨ring, hself, fun _ => hn, fun hr => absurd hr hn⟩
  | test =>
    have hn := hnone (.inr (.inr hpt))
    simp only [hpt] at hst
    split at hst
    · next hcount =>
      split at hst
      · cases hst
        exact ⟨ring, hself, hn⟩
      · next hneg =>
        obtain ⟨k₁, hk₁, hst⟩ := Option.bind_eq_some_iff.mp hst
        cases hst
        simp only [SyncState.setAlarm, hc, Option.bind_eq_bind, Option.bind_some] at hk₁
        obtain ⟨ring', hsets, hset⟩ := setsOwn_setAlarm h hk₁
        refine ⟨ring', hsets, fun hp => by simp at hp, fun hr => ?_⟩
        obtain ⟨hne, hdue⟩ := hset hr
        have hpos : 0 < f.timeout := by
          rcases Int32.lt_or_eq_of_le (Int32.not_lt.mp hneg) with hlt | heq
          · exact hlt
          · exact absurd (.inl (by rw [← heq]; rfl)) hne
        obtain ⟨habs, hlt⟩ := hd hpt hcount hpos
        exact ⟨hdue.trans habs.symm, by rw [hsets.tick]; exact hlt⟩
    · cases hst
      exact ⟨ring, setsOwn_of_eq h rfl, hn⟩
  | wait =>
    simp only [hpt] at hst
    cases hst
    exact ⟨ring, hself, rfl, hfires⟩
  | timeoutTest =>
    simp only [hpt] at hst
    split at hst <;> cases hst
    · next hlate =>
      -- at the deadline the alarm has fired
      exact ⟨ring, hself, fun hr => UInt32.not_lt.mpr hlate.2 (hfires hr).2⟩
    · exact ⟨ring, hself, fun hp => by simp at hp, hfires⟩
  | retest =>
    simp only [hpt] at hst
    split at hst
    · cases hst
      exact ⟨ring, hself, fun hp => by simp at hp, hfires⟩
    · obtain ⟨k₁, hk₁, hst⟩ := Option.bind_eq_some_iff.mp hst
      cases hst
      simp only [SyncState.setAlarm, hc, Option.bind_eq_bind, Option.bind_some,
        Option.bind_none] at hk₁
      obtain ⟨ring', hsets, hset⟩ := setsOwn_setAlarm h hk₁
      exact ⟨ring', ⟨hsets.ordered, hsets.tick, hsets.others⟩, fun hr => (hset hr).1 (.inl rfl)⟩

/-- A statement sets no alarm but that of the current task. -/
theorem exec_setsOwn (h : DueOrdered k.timers ring) {st : Statement T} {r : Option (Statement T)}
    (hst : st.exec k c = some (k', r)) : ∃ ring', SetsOwn k k' ring ring' c := by
  cases hin : inSleep st with
  | false => exact ⟨ring, setsOwn_of_eq h (exec_inSleep hst hin).1⟩
  | true =>
    cases st with
    | sleepAlarm timeout =>
      obtain ⟨k₁, hk₁, hst⟩ := Option.bind_eq_some_iff.mp hst
      cases hst
      obtain ⟨ring', hsets, -⟩ := setsOwn_setAlarm h hk₁
      exact ⟨ring', hsets⟩
    | sleepLock | sleepPeriod | sleepAdvance | sleepDue | sleepTimeout =>
      cases hst
      exact ⟨ring, setsOwn_of_eq h rfl⟩
    | _ => cases hin

/-- What holds of the alarms between two turns. -/
structure InTime (s : StatementSystem LinkMem T) (ring : Nat → List T) : Prop where
  ordered : DueOrdered s.kernel.timers ring
  fits : ∀ t, AlarmFits s.kernel ring t (s.control t)

omit [DecidableEq T] [Fintype T] in
/-- An alarm that stays pending and is not due yet. -/
theorem AlarmFits.mono (h : AlarmFits k ring t p)
    (hr : t ∈ ring' systemTimer →
      t ∈ ring systemTimer ∧ k'.timers.fields.timeout t = k.timers.fields.timeout t)
    (ht : ∀ due, t ∈ ring' systemTimer → k.timers.fields.timeout t = due → k.tick < due →
      k'.tick < due) : AlarmFits k' ring' t p := by
  have hfires : ∀ due, FiresAt k ring t due → FiresAt k' ring' t due := by
    intro due hf hmem
    obtain ⟨hold, hsame⟩ := hr hmem
    obtain ⟨hdue, hlt⟩ := hf hold
    exact ⟨hsame.trans hdue, ht due hmem hdue hlt⟩
  cases p with
  | own | release => trivial
  | acquire f => exact ⟨fun hp hmem => h.1 hp (hr hmem).1, hfires _ h.2⟩
  | routine st caller =>
    cases caller with
    | none => trivial
    | some f => exact ⟨h.1, h.2.1, hfires _ h.2.2⟩

omit [Fintype T] in
/-- A step of the current task -/
theorem InTime.put (h : InTime s ring) (hsets : SetsOwn s.kernel k' ring ring' c)
    (hp : AlarmFits k' ring' c p) : InTime (s.put c k' p) ring' := by
  refine ⟨hsets.ordered, forall_control_put (P := AlarmFits k' ring') hp fun t htc => ?_⟩
  refine (h.fits t).mono (fun hmem => hsets.others t hmem htc) fun due _ _ hlt => ?_
  exact hsets.tick.symm ▸ hlt

/-- **Every turn keeps the alarms in order**, if the calls set them for their deadlines. -/
theorem InTime.turn (h : InTime s ring)
    (hcall : ∀ sem timeout, o = .invoke (.acquire sem timeout) → MayAcquire s.kernel)
    (hd : ∀ c ∈ s.kernel.vars.currentTask, o = .next → OnDeadline s.kernel (s.control c))
    (hs : s.exec o = some s') : ∃ ring', InTime s' ring' := by
  cases o with
  | invoke i =>
    obtain ⟨c, hc, -, rfl⟩ := invoke_cases hs
    have ht : (StatementSystem.enter s.kernel i).1.timers = s.kernel.timers := by
      cases i <;> rfl
    refine ⟨ring, h.put (setsOwn_of_eq h.ordered ht) ?_⟩
    cases i with
    | acquire sem timeout =>
      have hn : c ∉ ring systemTimer := fun hmem =>
        h.ordered.mem_iff.mp hmem (hcall sem timeout rfl c hc).2
      exact ⟨fun _ => hn, fun hr => absurd hr hn⟩
    | _ => trivial
  | next =>
    obtain ⟨c, k', p, hc, hadv, rfl⟩ := next_cases hs
    have hd := hd c hc rfl
    have hfits := h.fits c
    generalize s.control c = place at hadv hd hfits
    cases advance_cases hadv with
    | goto hst =>
      obtain ⟨ring', hsets, hnext⟩ := acquire_setsOwn h.ordered hc hfits hd hst
      exact ⟨ring', h.put hsets hnext⟩
    | wait hst =>
      obtain ⟨ring', hsets, hnext⟩ := acquire_setsOwn h.ordered hc hfits hd hst
      exact ⟨ring', h.put hsets ⟨rfl, hnext⟩⟩
    | leave hst =>
      obtain ⟨ring', hsets, -⟩ := acquire_setsOwn h.ordered hc hfits hd hst
      exact ⟨ring', h.put hsets trivial⟩
    | increment | wakeNone | wake => exact ⟨ring, h.put (setsOwn_of_eq h.ordered rfl) trivial⟩
    | @statement st next caller _ hst =>
      cases caller with
      | none =>
        obtain ⟨ring', hsets⟩ := exec_setsOwn h.ordered hst
        exact ⟨ring', h.put hsets trivial⟩
      | some f =>
        obtain ⟨hin, hpt, hfires⟩ := hfits
        obtain ⟨ht, hnext⟩ := exec_inSleep hst hin
        have hsets := setsOwn_of_eq (c := c) h.ordered ht
        exact ⟨ring, h.put hsets ⟨hnext next rfl, hpt, firesAt_of_eq hfires ht⟩⟩
    | @back st caller _ hst =>
      cases caller with
      | none =>
        obtain ⟨ring', hsets⟩ := exec_setsOwn h.ordered hst
        exact ⟨ring', h.put hsets trivial⟩
      | some f =>
        obtain ⟨hin, hpt, hfires⟩ := hfits
        obtain ⟨ht, -⟩ := exec_inSleep hst hin
        have hsets := setsOwn_of_eq (c := c) h.ordered ht
        exact ⟨ring, h.put hsets ⟨fun hp => by simp [hpt] at hp,
          firesAt_of_eq hfires ht⟩⟩
  | tick =>
    obtain ⟨k', hk', rfl⟩ := tick_cases hs
    obtain ⟨ring', hord, -, hsame, hmem⟩ := h.ordered.tick hk'
    refine ⟨ring', hord, fun t => (h.fits t).mono (fun hr => ⟨(hmem t hr).1, by rw [hsame]⟩) ?_⟩
    rintro due hr rfl -
    rw [← hsame]
    exact (hmem t hr).2

/-- **The alarm of a call that returns** is not pending. -/
theorem InTime.returning (h : InTime s ring) (hcur : s.kernel.vars.currentTask = some c)
    (hd : OnDeadline s.kernel (s.control c)) (hf : s.control c = .acquire f)
    (hst : f.step s.kernel = some (k', .returned v)) : k'.timers.alarmQueue.next c = none := by
  have hfits := h.fits c
  rw [hf] at hd hfits
  obtain ⟨ring', hsets, hn⟩ := acquire_setsOwn h.ordered hcur hfits hd hst
  by_contra hc
  exact hn (hsets.ordered.mem_iff.mpr hc)

/-! ## The wait queues -/

variable {a : Kernel Rings T}

/-- A task that has just called is linked in no wait queue. -/
def Entering (s : StatementSystem LinkMem T) (a : Kernel Rings T) : Prop :=
  ∀ t f, s.control t = .acquire f → f.point = .lockTest → ∀ q, t ∉ a.queue.ring (.wait q)

omit [Fintype T] in
/-- A task that takes a step of a call runs. -/
theorem Between.not_waiting (h : Between s a c) (he : Entering s a) (hf : s.control c = .acquire f)
    (q : WaitQueue) : c ∉ a.queue.ring (.wait q) := by
  by_cases hpt : f.point = .lockTest
  · exact he c f hf hpt q
  · have hst := h.stands
    rw [hf] at hst
    obtain ⟨ho, hw, hl⟩ := hst
    have hs := hw (hl hpt)
    exact fun hq => ho.free (by simp [hs]) (by simp [hs]) ⟨_, hq⟩

/-- **Every guarded turn**, by a task that runs when it calls -/
theorem Between.enters (h : Between s a c) (he : Entering s a) (hin : InTime s ring)
    (hg : Guarded s o)
    (hcall : ∀ sem timeout, o = .invoke (.acquire sem timeout) → MayAcquire s.kernel)
    (hs : s.exec o = some s') :
    ∃ a' c', Between s' a' c' ∧ Entering s' a' ∧
      (∀ f q, s.control c = .acquire f → c ∉ a'.queue.ring (.wait q)) := by
  obtain ⟨a', c', h', hring⟩ := h.turn hg hs
  have hcur : s.kernel.vars.currentTask = some c := by rw [h.repr.vars, h.current]
  have hout : ∀ t q, (∀ st caller, s.control t ≠ .routine st caller) →
      t ∉ a.queue.ring (.wait q) → t ∉ a'.queue.ring (.wait q) := by
    intro t q hno hn hmem
    obtain hold | ⟨-, queueType, caller, hr⟩ := hring q t hmem
    · exact hn hold
    · exact hno _ _ hr
  have hsame : ∀ t f, s.control t = .acquire f → f.point = .lockTest →
      ∀ q, t ∉ a'.queue.ring (.wait q) := fun t f hf hpt q =>
    hout t q (by simp [hf]) (he t f hf hpt q)
  have hself : ∀ f q, s.control c = .acquire f → c ∉ a'.queue.ring (.wait q) := fun f q hf =>
    hout c q (by simp [hf]) (h.not_waiting he hf q)
  refine ⟨a', c', h', ?_, hself⟩
  have hput : ∀ k' p, s' = s.put c k' p →
      (∀ f, p = .acquire f → f.point = .lockTest → ∀ q, c ∉ a'.queue.ring (.wait q)) →
      Entering s' a' := by
    rintro k' p rfl hp
    exact forall_control_put (P := fun t p => ∀ f, p = .acquire f → f.point = .lockTest →
      ∀ q, t ∉ a'.queue.ring (.wait q)) hp fun t _ => hsame t
  cases o with
  | tick =>
    obtain ⟨k', -, rfl⟩ := tick_cases hs
    exact hsame
  | invoke i =>
    obtain ⟨c₁, hc₁, hown, rfl⟩ := invoke_cases hs
    obtain rfl := Option.some.inj (hcur.symm.trans hc₁)
    refine hput _ _ rfl fun f hf _ q => hout c q (by simp [hown]) fun hmem => ?_
    cases i with
    | acquire sem timeout =>
      have hst := h.stands
      rw [hown] at hst
      have hwait := (hst.1.waiting hmem).1
      rw [← h.repr.status] at hwait
      exact (hcall sem timeout rfl c hcur).1 hwait
    | _ => cases hf
  | next =>
    obtain ⟨c₁, k', p, hc₁, hadv, rfl⟩ := next_cases hs
    obtain rfl := Option.some.inj (hcur.symm.trans hc₁)
    refine hput k' p rfl fun g hg hpt q => ?_
    have hfits := hin.fits c
    generalize hp : s.control c = place at hadv hfits
    cases advance_cases hadv with
    | goto | wait | leave => exact hself _ q hp
    | increment | wakeNone | wake | statement => cases hg
    | @back st caller =>
      cases caller with
      | none => cases hg
      | some f =>
        -- a routine returns to the test of the deadline
        cases hg
        rw [hfits.2.1] at hpt
        cases hpt

/-! ## The counts -/

/-- An `int8s_t` is at most 127. -/
theorem int8_le (n : Int) : int8 n ≤ 127 := by
  have hu : Int.bmod n 256 < 128 := Int.bmod_lt (by decide)
  unfold int8
  omega

/-- The counts are those of an `int8s_t`, and a call that has not returned has changed nothing. -/
structure Accounted (s : StatementSystem LinkMem T) (change : T → Int) : Prop where
  le : ∀ sem, s.kernel.count sem ≤ 127
  unchanged : ∀ t, acquireCall (s.control t) ≠ none → change t = 0

/-- A turn keeps the counts in their range. -/
theorem count_le (h : ∀ sem, s.kernel.count sem ≤ 127) (hs : s.exec o = some s') (sem : Nat) :
    s'.kernel.count sem ≤ 127 := by
  have hbook : Booked sem s o s' := exec_booked hs
  cases hr : releases sem s o with
  | true =>
    rw [hbook.released hr]
    exact int8_le _
  | false =>
    cases ha : acquires sem s o with
    | true =>
      rw [(hbook.acquired ha).2]
      exact int8_le _
    | false =>
      rw [hbook.other hr ha]
      exact h sem

/-- A step of a call changes the count when it returns 1, and by one. -/
theorem count_call (h : ∀ sem, s.kernel.count sem ≤ 127)
    (hcur : s.kernel.vars.currentTask = some c) (hf : acquireCall (s.control c) = some f)
    (hs : s.exec .next = some s') :
    s'.kernel.count f.sem - s.kernel.count f.sem = if acquires f.sem s .next then -1 else 0 := by
  have hbook : Booked f.sem s .next s' := exec_booked hs
  have hr : releases f.sem s .next = false := by
    simp only [releases, hcur, Option.map_some]
    cases hp : s.control c with
    | release g =>
      rw [hp] at hf
      cases hf
    | _ => rfl
  cases ha : acquires f.sem s .next with
  | true =>
    obtain ⟨hpos, hnew⟩ := hbook.acquired ha
    have hle := h f.sem
    rw [hnew, int8_eq (by omega) (by omega), if_pos rfl]
    omega
  | false =>
    rw [hbook.other hr ha, if_neg (by simp)]
    omega

/-- A task that is still in a call has been in it, and has not succeeded. -/
theorem acquireCall_next (hcur : s.kernel.vars.currentTask = some c) (hs : s.exec .next = some s')
    (hcall : acquireCall (s'.control c) ≠ none) :
    ∃ f, acquireCall (s.control c) = some f ∧ acquires f.sem s .next = false := by
  obtain ⟨c₁, k', p, hc₁, hadv, rfl⟩ := next_cases hs
  obtain rfl := Option.some.inj (hcur.symm.trans hc₁)
  rw [put_control_self] at hcall
  generalize hp : s.control c = place at hadv
  cases advance_cases hadv with
  | goto hst | wait hst =>
    exact ⟨_, rfl, by simp only [acquires, hcur, Option.map_some, hp, hst]⟩
  | leave | increment | wakeNone | wake => exact absurd rfl hcall
  | @statement st next caller | @back st caller =>
    cases caller with
    | none => exact absurd rfl hcall
    | some f => exact ⟨f, rfl, by simp only [acquires, hcur, Option.map_some, hp]⟩

/-- **Every turn**: the changes that are kept account of are made at a return only. -/
theorem Accounted.turn {change : T → Int} (h : Accounted s change) (hs : s.exec o = some s') :
    Accounted s' (changeAfter s s' change o) := by
  refine ⟨count_le h.le hs, fun t ht => ?_⟩
  cases o with
  | tick =>
    obtain ⟨k', -, rfl⟩ := tick_cases hs
    exact h.unchanged t ht
  | invoke i =>
    obtain ⟨c, hc, -, rfl⟩ := invoke_cases hs
    simp only [changeAfter, hc, Option.elim_some]
    by_cases htc : t = c
    · rw [htc, Function.update_self]
    · rw [Function.update_of_ne htc]
      exact h.unchanged t (by rwa [put_control_of_ne s _ _ htc] at ht)
  | next =>
    have hnext := hs
    obtain ⟨c, k', p, hc, -, rfl⟩ := next_cases hs
    simp only [changeAfter, hc, Option.elim_some]
    by_cases htc : t = c
    · subst htc
      obtain ⟨f, hf, ha⟩ := acquireCall_next hc hnext ht
      rw [hf, Option.elim_some, Function.update_self, count_call h.le hc hf hnext,
        if_neg (by simp [ha]), h.unchanged t (by simp [hf])]
      rfl
    · have hold := h.unchanged t (by rwa [put_control_of_ne s k' p htc] at ht)
      cases acquireCall (s.control c) with
      | none => exact hold
      | some f =>
        rw [Option.elim_some, Function.update_of_ne htc]
        exact hold

/-- The step that returns. -/
theorem returning_eq (h : returning s o = some (t, v)) :
    o = .next ∧ s.kernel.vars.currentTask = some t ∧
      ∃ f k', s.control t = .acquire f ∧ f.step s.kernel = some (k', .returned v) := by
  cases o with
  | invoke | tick => cases h
  | next =>
    obtain ⟨c, hc, h⟩ := Option.bind_eq_some_iff.mp h
    split at h
    · next f hf =>
      obtain ⟨⟨k', n⟩, hst, h⟩ := Option.bind_eq_some_iff.mp h
      cases n with
      | returned w =>
        cases h
        exact ⟨rfl, hc, f, k', hf, hst⟩
      | _ => cases h
    · cases h

/-- A call that returns has taken one from the count, or nothing. -/
theorem Accounted.returning {change : T → Int} (h : Accounted s change)
    (hs : s.exec .next = some s')
    (hcur : s.kernel.vars.currentTask = some t) (hf : s.control t = .acquire f)
    (hst : f.step s.kernel = some (k', .returned v)) :
    v = 1 ∧ changeAfter s s' change .next t = -1 ∨ v = 0 ∧ changeAfter s s' change .next t = 0 := by
  have hcall : acquireCall (s.control t) = some f := by rw [hf]; rfl
  have ha : acquires f.sem s .next = decide (v = 1) := by
    simp only [acquires, hcur, Option.map_some, hf, hst, true_and]
  simp only [changeAfter, hcur, hcall, Option.elim_some, Function.update_self,
    count_call h.le hcur hcall hs, ha, h.unchanged t (by simp [hcall])]
  rcases AcquireFrame.step_cases hst with ⟨-, hv | ⟨g, -, hg⟩⟩ | ⟨g, -, hg, -⟩ | ⟨hv, -⟩
  · cases hv
    exact .inr ⟨rfl, rfl⟩
  · rcases hg with hg | hg <;> cases hg
  · cases hg
  · cases hv
    exact .inl ⟨rfl, rfl⟩

/-! ## Runs -/

/-- What holds between two turns of a run. -/
structure Tidy (r : CallRun T) : Prop where
  lists : ∃ a c, Between r.system a c ∧ Entering r.system a
  alarms : ∃ ring, InTime r.system ring
  counts : Accounted r.system r.change
  residue : NoResidue r

/-- **Every punctual turn** leaves nothing behind. -/
theorem Tidy.exec {r r' : CallRun T} {o : CallTurn T} (h : Tidy r) (ho : Punctually r o)
    (hr : r.exec o = some r') : Tidy r' := by
  obtain ⟨a, c, hb, he⟩ := h.lists
  obtain ⟨ring, hin⟩ := h.alarms
  obtain ⟨hund, hd⟩ := ho
  have hcur : r.system.kernel.vars.currentTask = some c := by rw [hb.repr.vars, hb.current]
  cases o with
  | acquireNull =>
    obtain ⟨c₁, hc₁, hr⟩ := Option.bind_eq_some_iff.mp hr
    obtain rfl := Option.some.inj (hcur.symm.trans hc₁)
    split at hr
    · next hown =>
      cases hr
      refine ⟨⟨a, c, hb, he⟩, ⟨ring, hin⟩, ⟨h.counts.le, fun t ht => ?_⟩, ?_⟩
      · show Function.update r.change c 0 t = 0
        by_cases htc : t = c
        · rw [htc, Function.update_self]
        · rw [Function.update_of_ne htc]
          exact h.counts.unchanged t ht
      · intro t v ht
        cases ht
        obtain ⟨hwait, hnone⟩ := hund c hcur
        refine ⟨⟨a.queue.ring, hb.repr.queue, fun q hmem => ?_⟩, hnone,
          .inr ⟨rfl, Function.update_self c 0 r.change⟩⟩
        have hst := hb.stands
        rw [hown] at hst
        rw [hb.repr.status] at hwait
        exact hwait (hst.1.waiting hmem).1
    · cases hr
  | turn o =>
    obtain ⟨s', hs', hr⟩ := Option.bind_eq_some_iff.mp hr
    cases hr
    have hcall : ∀ sem timeout, o = .invoke (.acquire sem timeout) →
        MayAcquire r.system.kernel := by
      rintro sem timeout rfl
      exact hund
    have hg : Guarded r.system o := by
      cases o with
      | invoke => trivial
      | next | tick => exact hund
    have hd : ∀ c ∈ r.system.kernel.vars.currentTask, o = .next →
        OnDeadline r.system.kernel (r.system.control c) := fun c hc hn => hd c hc (by rw [hn])
    obtain ⟨a', c', hb', he', hout⟩ := hb.enters he hin hg hcall hs'
    refine ⟨⟨a', c', hb', he'⟩, hin.turn hcall hd hs', h.counts.turn hs', ?_⟩
    intro t v ht
    obtain ⟨rfl, ht, f, k', hf, hst⟩ := returning_eq ht
    obtain rfl := Option.some.inj (hcur.symm.trans ht)
    refine ⟨⟨a'.queue.ring, hb'.repr.queue, fun q => hout f q hf⟩, ?_,
      h.counts.returning hs' hcur hf hst⟩
    have hkernel : s'.kernel = k' := by
      obtain ⟨c₁, k₁, p, hc₁, hadv, rfl⟩ := next_cases hs'
      obtain rfl := Option.some.inj (hcur.symm.trans hc₁)
      rw [hf] at hadv
      obtain ⟨⟨k₂, n⟩, hst', hadv⟩ := Option.bind_eq_some_iff.mp hadv
      obtain ⟨rfl, rfl⟩ := Prod.mk.inj (Option.some.inj (hst.symm.trans hst'))
      cases hadv
      rfl
    rw [hkernel]
    exact hin.returning hcur (hd c hcur rfl) hf hst

/-- A state from which a run may start: every task is in its own code, the alarms are queued in the
order of their due ticks, and the counts are those of an `int8s_t`.  The tick is any. -/
structure Starts (s : StatementSystem LinkMem T) : Prop where
  settled : Settled s
  alarms : ∃ ring, DueOrdered s.kernel.timers ring
  counts : ∀ sem, s.kernel.count sem ≤ 127

/-- **`eos_acquire_semaphore` leaves nothing behind** in any run in which every call sets its alarm
for its deadline. -/
theorem no_residue {r : CallRun T} (h : Starts s)
    (hrun : Reach CallRun.exec Punctually ⟨s, fun _ => 0, none⟩ r) : NoResidue r := by
  obtain ⟨a, c, hb⟩ := h.settled.between
  obtain ⟨ring, halarms⟩ := h.alarms
  have hown : ∀ t, s.control t = .own := h.settled.2
  have hstart : Tidy (⟨s, fun _ => 0, none⟩ : CallRun T) := by
    refine ⟨⟨a, c, hb, fun t f hf => ?_⟩, ⟨ring, halarms, fun t => ?_⟩,
      ⟨h.counts, fun t _ => rfl⟩, fun t v ht => by cases ht⟩
    · rw [hown] at hf
      cases hf
    · rw [hown]
      trivial
  exact (hrun.invariant hstart fun u v o hu ho hv => hu.exec ho hv).residue

section Examples

/-- When multitasking starts no alarm is set, and the counts are the given ones. -/
theorem contenders_starts {idle u : T} {priority : Nat}
    (h : contenders idle t u priority = some s) : Starts s := by
  refine ⟨contenders_settled h, ⟨fun _ => [], ?_⟩, fun sem => ?_⟩
  · obtain ⟨x, hx, rfl⟩ := Option.map_eq_some_iff.mp h
    have ht := boot_keeps (fun k k' task start size entry p hk => exec_timers rfl hk)
      (fun k k' hk => exec_timers rfl hk) hx
    show DueOrdered x.kernel.timers _
    rw [ht]
    exact ⟨timed_zeroed (fun _ => ⟨0, 0⟩) fun _ => ⟨0⟩, List.Pairwise.nil⟩
  · obtain ⟨x, hx, rfl⟩ := Option.map_eq_some_iff.mp h
    have hcreate : ∀ (k k' : Kernel LinkMem T) task start size entry p,
        k.exec (.createTask task start size entry p) = some k' →
        k'.vars.semaphore = k.vars.semaphore := by
      intro k k' task start size entry p hk
      obtain ⟨⟨v, k₁⟩, hk₁, rfl⟩ := Option.map_eq_some_iff.mp hk
      exact apart_semaphore.eosCreateTask (fun _ _ _ _ => rfl) hk₁
    have hsem := boot_keeps hcreate
      (fun k k' hk => apart_semaphore.eosSchedule (k := k.setLock unlocked) hk) hx
    show (x.kernel.vars.semaphore sem).count ≤ 127
    rw [hsem]
    show (0 : Int) ≤ 127
    decide

instance (k : Kernel LinkMem T) : Decidable (MayAcquire k) :=
  inferInstanceAs (Decidable (∀ c ∈ k.vars.currentTask,
    k.status c ≠ .waiting ∧ k.timers.alarmQueue.next c = none))

instance (k : Kernel LinkMem T) : DecidablePred (OnDeadline k)
  | .acquire f => inferInstanceAs (Decidable (f.point = .test → k.count f.sem ≤ 0 → 0 < f.timeout →
      f.absTimeout = k.tick + f.timeout.toUInt32 ∧ k.tick < f.absTimeout))
  | .own | .release _ | .routine _ _ => .isTrue trivial

instance (r : CallRun T) : DecidablePred (Undisturbed r)
  | .turn (.invoke (.acquire _ _)) | .acquireNull =>
    inferInstanceAs (Decidable (MayAcquire r.system.kernel))
  | .turn (.invoke (.release _)) | .turn (.invoke (.waitInQueue _))
  | .turn (.invoke (.wakeupFromQueue _)) | .turn (.invoke (.sleep _))
  | .turn (.invoke (.resumeTask _)) | .turn (.invoke .schedule)
  | .turn (.invoke .lockScheduler) | .turn (.invoke (.restoreScheduler _)) => .isTrue trivial
  | .turn .next => inferInstanceAs (Decidable (Guarded r.system .next))
  | .turn .tick => inferInstanceAs (Decidable (Guarded r.system .tick))

instance (r : CallRun T) : DecidablePred (Punctually r) := fun o =>
  inferInstanceAs (Decidable (Undisturbed r o ∧ ∀ c ∈ r.system.kernel.vars.currentTask,
    o = .turn .next → OnDeadline r.system.kernel (r.system.control c)))

/-- Task 0 calls with a timeout, and waits. -/
def acquireWaits {T : Type} (timeout : Int32) (late : List (Turn T)) : List (Turn T) :=
  [.invoke (.acquire 0 timeout), .next, .next] ++ late ++ List.replicate 16 .next

/-- Task 0 waits until its alarm fires at tick 2, and returns 0. -/
theorem no_residue_timeout : ∃ (s : StatementSystem LinkMem (Fin 3)) (r : CallRun (Fin 3)),
    Starts s ∧ Reach CallRun.exec Punctually ⟨s, fun _ => 0, none⟩ r ∧
      r.system.kernel.tick = 2 ∧ r.returned = some (0, 0) ∧ NoResidue r := by
  let turns : List (Turn (Fin 3)) := acquireWaits 2 [] ++ [.tick, .tick, .next]
  obtain ⟨r₀, r, hr₀, hrun, htick, hret⟩ := Reach.of_decide CallRun.exec Punctually
    ((contenders (2 : Fin 3) 0 1 7).map fun s => ⟨s, fun _ => 0, none⟩) (turns.map .turn)
    (fun _ r => r.system.kernel.tick = 2 ∧ r.returned = some (0, 0)) (by decide +kernel)
  obtain ⟨s, hs, rfl⟩ := Option.map_eq_some_iff.mp hr₀
  exact ⟨s, r, contenders_starts hs, hrun, htick, hret, no_residue (contenders_starts hs) hrun⟩

/-- **An alarm is left behind**: a tick comes between the computation of `abs_timeout`, which is 1,
and the call of `eos_set_alarm`, for tick 2.  A release wakes the task at tick 1, and it returns 0
with the alarm pending. -/
theorem residue_left : ∃ (s : StatementSystem LinkMem (Fin 3)) (r : CallRun (Fin 3)),
    Starts s ∧ Reach CallRun.exec Undisturbed ⟨s, fun _ => 0, none⟩ r ∧ ¬NoResidue r := by
  let turns : List (Turn (Fin 3)) :=
    acquireWaits 1 [.tick] ++ .invoke (.release 0) :: List.replicate 23 .next
  obtain ⟨r₀, r, hr₀, hrun, hret, hpending⟩ := Reach.of_decide CallRun.exec Undisturbed
    ((contenders (2 : Fin 3) 0 1 7).map fun s => ⟨s, fun _ => 0, none⟩) (turns.map .turn)
    (fun _ r => r.returned = some (0, 0) ∧ r.system.kernel.timers.alarmQueue.next 0 ≠ none)
    (by decide +kernel)
  obtain ⟨s, hs, rfl⟩ := Option.map_eq_some_iff.mp hr₀
  exact ⟨s, r, contenders_starts hs, hrun, fun h => hpending (h 0 0 hret).2.1⟩

end Examples

end Eos.Analysis
