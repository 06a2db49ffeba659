import Eos.Analysis.UpcomingAlarms
import Eos.Interface.Apart
import Eos.Interface.Refinement

/-!
# Periodic tasks do not drift

`eos_sleep(0)` adds the period of a task to its `wakeup_time` and makes it sleep until then
(core/task.c:226-256).  The release times are accumulated in the TCB, turned into a timeout and by
`eos_set_alarm` into a due tick again; a release that has passed already costs no sleep.  However
often that happens, and whatever the other tasks do, the `n`-th release is `n` periods after the
call of `eos_set_period`.
-/

set_option autoImplicit false

namespace Eos.Analysis

open Eos.Lib (LinkMem Reach runList)
open Eos.Model
open Eos.Interface (Rings Linked Repr job apart_job exec_refines osInit_refines)

/-! ## Runs of a periodic task -/

section Defs

variable {T : Type} [DecidableEq T] [Fintype T]

/-- The operations of a run in which ticks and due ticks stay below 2^32. -/
def Within (idle : T) (k : Kernel LinkMem T) (o : Op T) : Prop :=
  Admitted idle k.vars o ∧
    match o with
    | .tick => k.tick.toNat + 1 < 2 ^ 32
    | .sleep tick => k.tick.toNat + tick.toNat < 2 ^ 32
    | _ => True

/-- A call of `eos_sleep(0)` by task `t` with the scheduler unlocked. -/
def sleepsToPeriod (t : T) (k : Kernel LinkMem T) (o : Op T) : Bool :=
  o = .sleep 0 ∧ k.vars.currentTask = some t ∧ k.vars.schedulerLock ≠ locked

/-- A kernel with the number of these calls so far. -/
structure PeriodicRun (T : Type) where
  kernel : Kernel LinkMem T
  sleeps : Nat

/-- The effect of an operation. -/
def PeriodicRun.exec (t : T) (r : PeriodicRun T) (o : Op T) : Option (PeriodicRun T) := do
  return ⟨← r.kernel.exec o, r.sleeps + if sleepsToPeriod t r.kernel o then 1 else 0⟩

/-- The period of task `t` is not set again, and its `wakeup_time` stays below 2^32 too. -/
def WithinPeriod (idle t : T) (r : PeriodicRun T) (o : Op T) : Prop :=
  Within idle r.kernel o ∧ (∀ period, o ≠ .setPeriod t period) ∧
    (sleepsToPeriod t r.kernel o →
      (r.kernel.vars.tcb t).wakeupTime.toNat + (r.kernel.vars.tcb t).period.toNat < 2 ^ 32)

/-- In every run task `t` sleeps until the tick `due` is made, and it becomes ready in the trigger
that makes it. -/
def SleepsUntil (idle t : T) (due : Nat) (k : Kernel LinkMem T) : Prop :=
  ∀ k', Reach Kernel.exec (Within idle) k k' → k'.tick.toNat < due →
    k'.status t = .waiting ∧
      (k'.tick.toNat + 1 = due → ∃ k'', k'.triggerAlarms = some k'' ∧ k''.status t = .ready)

/-- What a call of `eos_sleep(0)` does, from `k` to `k'`. -/
structure Releases (idle t : T) (due : Nat) (k k' : Kernel LinkMem T) : Prop where
  wakeupTime : (k'.vars.tcb t).wakeupTime.toNat = due
  /-- It returns at once. -/
  overrun : due ≤ k.tick.toNat ↔ k'.vars.currentTask = some t ∧ k'.status t = .running
  sleeps : k.tick.toNat < due → SleepsUntil idle t due k'

/-- **The releases do not drift**: the next one, too, is a whole number of periods after `t₀`. -/
structure NoDrift (idle t : T) (t₀ period : Nat) (r : PeriodicRun T) : Prop where
  wakeupTime : (r.kernel.vars.tcb t).wakeupTime.toNat = t₀ + r.sleeps * period
  next : r.kernel.vars.currentTask = some t → r.kernel.vars.schedulerLock ≠ locked →
    t₀ + (r.sleeps + 1) * period < 2 ^ 32 →
      ∃ k', r.kernel.eosSleep 0 = some k' ∧
        Releases idle t (t₀ + (r.sleeps + 1) * period) r.kernel k'

end Defs

variable {T : Type} [DecidableEq T] [Fintype T] {idle t u c : T} {a b : Kernel Rings T}
  {k k' : Kernel LinkMem T} {o : Op T} {timeout tick : UInt32}

/-! ## Period and wakeup time -/

/-- `eos_sleep` moves the wakeup time of its caller when it is called for the next period. -/
theorem eosSleep_job (hp : (k.vars.tcb t).period ≠ 0) (hk : k.eosSleep tick = some k') :
    job t k' = if sleepsToPeriod t k (.sleep tick) then
      ((k.vars.tcb t).period, (k.vars.tcb t).wakeupTime + (k.vars.tcb t).period) else job t k := by
  unfold Kernel.eosSleep at hk
  split at hk
  · next hl =>
    cases hk
    simp [sleepsToPeriod, hl]
  next hl =>
  obtain ⟨c, hc, hk⟩ := Option.bind_eq_some_iff.mp hk
  -- the TCB of the caller is written, then the rest leaves it alone
  have hadvance : ∀ f : Tcb → Tcb, t ≠ c → job t (k.setTcb c f) = job t k := by
    intro f ht
    simp [job, ht]
  split at hk
  · next hper =>
    have h0 := hper.1
    have hjob : job t k' =
        job t (k.setTcb c fun b => { b with wakeupTime := b.wakeupTime + b.period }) := by
      simp only at hk
      split at hk
      · cases hk
        rfl
      · exact (apart_job t).sleepFor hk
    rw [hjob]
    by_cases ht : t = c
    · subst ht
      simp [sleepsToPeriod, h0, hc, hl, job]
    · rw [hadvance _ ht]
      simp [sleepsToPeriod, hc, Ne.symm ht]
  · next hper =>
    rw [(apart_job t).sleepFor hk]
    by_cases ht : t = c
    · subst ht
      have htick : tick ≠ 0 := fun h0 => hper ⟨h0, hp⟩
      simp [sleepsToPeriod, htick]
    · simp [sleepsToPeriod, hc, Ne.symm ht]

/-- **Only such a call moves the wakeup time** of a task whose period is not set again. -/
theorem exec_job (hp : (k.vars.tcb t).period ≠ 0) (ho : Admitted idle k.vars o)
    (hset : ∀ period, o ≠ .setPeriod t period) (hk : k.exec o = some k') :
    job t k' = if sleepsToPeriod t k o then
      ((k.vars.tcb t).period, (k.vars.tcb t).wakeupTime + (k.vars.tcb t).period) else job t k := by
  have hj := apart_job (Q := LinkMem) t
  cases o with
  | sleep tick => exact eosSleep_job hp hk
  | createTask task start size entry p =>
    obtain ⟨⟨v, k₁⟩, hk₁, rfl⟩ := Option.map_eq_some_iff.mp hk
    refine hj.eosCreateTask (fun u hu m f => ?_) hk₁
    obtain rfl := Option.mem_def.mp hu
    have hzero : k.vars.tcb u = .zero := of_decide_eq_true ho
    have htu : t ≠ u := by
      rintro rfl
      rw [hzero] at hp
      exact hp rfl
    simp [job, htu]
  | schedule => exact hj.eosSchedule hk
  | changePriority task p => exact hj.eosChangePriority hk
  | setPeriod u period =>
    cases hk
    have hu : t ≠ u := by
      rintro rfl
      exact hset period rfl
    simp [job, Kernel.eosSetPeriod, hu, sleepsToPeriod]
  | suspendTask task =>
    obtain ⟨⟨v, k₁⟩, hk₁, rfl⟩ := Option.map_eq_some_iff.mp hk
    exact hj.eosSuspendTask hk₁
  | resumeTask task =>
    obtain ⟨⟨v, k₁⟩, hk₁, rfl⟩ := Option.map_eq_some_iff.mp hk
    exact hj.eosResumeTask hk₁
  | lockScheduler =>
    cases hk
    exact hj.setLock k _
  | restoreScheduler v => exact (hj.eosSchedule hk).trans (hj.setLock k v)
  | waitInQueue q queueType => exact hj.osWaitInQueue hk
  | wakeupFromQueue q => exact hj.osWakeupFromQueue hk
  | tick => exact hj.eosTriggerCounter hk
  | start => exact (hj.eosSchedule (k := k.setLock unlocked) hk).trans (hj.setLock k _)

/-! ## One operation -/

/-- The alarms that are pending stay so, with their due ticks. -/
def KeepsAlarms (m m' : Timers Rings T Handler T) : Prop :=
  ∀ u, Pending m u → Pending m' u ∧ m'.fields.timeout u = m.fields.timeout u

/-- The end of `eos_sleep` (core/task.c:246-255) by a task whose alarm is not pending -/
theorem sleepFor_upcoming (ha : AlarmsOk a.timers) (hu : Upcoming a.timers)
    (hc : ¬Pending a.timers c) (hfit : a.tick.toNat + timeout.toNat < 2 ^ 32)
    (hb : a.sleepFor c timeout = some b) :
    Upcoming b.timers ∧ b.tick = a.tick ∧ KeepsAlarms a.timers b.timers ∧
      (timeout ≠ 0 → Pending b.timers c ∧ b.timers.fields.timeout c = a.tick + timeout) := by
  obtain ⟨b₁, hb₁, hb⟩ := Option.bind_eq_some_iff.mp hb
  obtain ⟨m, hm, hb₁⟩ := Option.bind_eq_some_iff.mp hb₁
  cases hb₁
  have ht : b.timers = m := eosSchedule_timeless.timers _ _ hb
  have hne : ∀ u, Pending a.timers u → u ≠ c := fun u hp e => hc (e ▸ hp)
  unfold Kernel.tick
  rw [ht]
  by_cases h0 : timeout = 0
  · rw [ha.eosSetAlarm_cancel (.inl h0)] at hm
    cases hm
    exact ⟨hu.drop c, rfl, fun u hp => ⟨ha.pending_dropAlarm.mpr ⟨hp, hne u hp⟩, rfl⟩,
      fun hn => absurd h0 hn⟩
  · obtain ⟨hup, htick, hpend, hdue, hother⟩ := hu.set ha h0 hfit hm
    refine ⟨hup, by rw [htick], fun u hp => ?_, fun _ => ⟨hpend, hdue⟩⟩
    obtain ⟨hpu, htu⟩ := hother u (hne u hp)
    exact ⟨hpu.mpr hp, htu⟩

/-- `eos_sleep` (core/task.c:226-256) -/
theorem eosSleep_upcoming (h : Scheduled idle a) (hs : Sleeping a) (hu : Upcoming a.timers)
    (hfit : a.tick.toNat + tick.toNat < 2 ^ 32) (hb : a.eosSleep tick = some b) :
    Upcoming b.timers ∧ b.tick = a.tick ∧ KeepsAlarms a.timers b.timers := by
  have hkeep : KeepsAlarms a.timers a.timers := fun u hp => ⟨hp, rfl⟩
  unfold Kernel.eosSleep at hb
  split at hb
  · cases hb
    exact ⟨hu, rfl, hkeep⟩
  next hl =>
  obtain ⟨c, hc, hr⟩ := h.started hl
  simp only [hc, Option.bind_eq_bind, Option.bind_some] at hb
  have hfree : ¬Pending a.timers c := by
    intro hp
    rw [(hs c hp).1] at hr
    cases hr
  split at hb
  · split at hb
    · cases hb
      exact ⟨hu, rfl, hkeep⟩
    · next hlt =>
      -- the time to a later tick
      generalize ha' : a.setTcb c (fun b => { b with wakeupTime := b.wakeupTime + b.period }) = a'
        at hb hlt
      have ht : a'.timers = a.timers := by
        rw [← ha']
        rfl
      have hk : a'.tick = a.tick := by
        rw [← ha']
        rfl
      obtain ⟨hup, htick, hkept, -⟩ := sleepFor_upcoming (ht ▸ h.alarms) (ht ▸ hu) (ht ▸ hfree)
        (by
          have hle := UInt32.le_of_lt (UInt32.not_le.mp hlt)
          have := (a'.vars.tcb c).wakeupTime.toNat_lt
          have hle' := UInt32.le_iff_toNat_le.mp hle
          rw [UInt32.toNat_sub_of_le _ _ hle]
          omega) hb
      exact ⟨hup, htick.trans hk, ht ▸ hkept⟩
  · obtain ⟨hup, htick, hkept, -⟩ := sleepFor_upcoming h.alarms hu hfree hfit hb
    exact ⟨hup, htick, hkept⟩

/-- What holds between the operations of such a run. -/
structure Timely (idle : T) (k : Kernel LinkMem T) (a : Kernel Rings T) : Prop where
  repr : Repr k a
  scheduled : Scheduled idle a
  sleeping : Sleeping a
  upcoming : Upcoming a.timers

omit [DecidableEq T] [Fintype T] in
/-- Both kernels have the same tick. -/
theorem Timely.tick_eq (h : Timely idle k a) : k.tick = a.tick := h.repr.tick

/-- **Every operation has a result** and keeps the alarms that are not due then. -/
theorem Timely.exec (h : Timely idle k a) (ho : Within idle k o) :
    ∃ k' a', k.exec o = some k' ∧ a.exec o = some a' ∧ Timely idle k' a' ∧
      k.tick.toNat ≤ k'.tick.toNat ∧ ∀ u, Pending a.timers u →
        k'.tick.toNat < (a.timers.fields.timeout u).toNat →
        Pending a'.timers u ∧ a'.timers.fields.timeout u = a.timers.fields.timeout u := by
  obtain ⟨hadm, hfit⟩ := ho
  rw [h.repr.vars] at hadm
  obtain ⟨a', ha', hstep⟩ := exec_sleeping h.scheduled h.sleeping hadm
  obtain ⟨k', hk', hr'⟩ := exec_refines h.repr o a' ha'
  have htimely : Upcoming a'.timers → Timely idle k' a' :=
    fun hu => ⟨hr', hstep.scheduled, hstep.sleeping h.sleeping, hu⟩
  have htick := h.tick_eq
  by_cases hot : o = .tick
  · subst hot
    rw [htick] at hfit
    obtain ⟨b, hb, -, -, hup, hbt, hall⟩ :=
      triggerAlarms_wakes h.scheduled h.sleeping h.upcoming hfit
    obtain ⟨b', hb', hsched⟩ := Option.bind_eq_some_iff.mp ha'
    obtain rfl : b = b' := Option.some.inj (hb.symm.trans hb')
    have ht : a'.timers = b.timers := eosSchedule_timeless.timers _ _ hsched
    have hsucc : (a.tick + 1).toNat = a.tick.toNat + 1 := by
      rw [UInt32.toNat_add]
      exact Nat.mod_eq_of_lt hfit
    have hnext : k'.tick = a.tick + 1 := by
      rw [hr'.tick, ← hbt, Kernel.tick, ht, Kernel.tick]
    refine ⟨k', a', hk', ha', htimely (ht ▸ hup), by rw [hnext, htick]; omega, fun u hp hlt => ?_⟩
    rw [ht]
    refine (hall u hp).2 fun he => ?_
    rw [he, hnext] at hlt
    exact lt_irrefl _ hlt
  · have hkeeps : Upcoming a'.timers ∧ a'.tick = a.tick ∧ KeepsAlarms a.timers a'.timers := by
      by_cases hl : leavesTimers o = true
      · have ht := exec_timers hl ha'
        unfold Kernel.tick
        rw [ht]
        exact ⟨h.upcoming, rfl, fun u hp => ⟨hp, rfl⟩⟩
      · cases o with
        | sleep tick =>
          exact eosSleep_upcoming h.scheduled h.sleeping h.upcoming (htick ▸ hfit) ha'
        | tick => exact absurd rfl hot
        | _ => exact absurd rfl hl
    obtain ⟨hup, hsame, hkept⟩ := hkeeps
    refine ⟨k', a', hk', ha', htimely hup, ?_, fun u hp _ => hkept u hp⟩
    rw [hr'.tick, hsame, htick]

/-- **A task whose alarm is pending** sleeps until its due tick is made. -/
theorem Timely.sleepsUntil (h : Timely idle k a) (hp : Pending a.timers t) :
    SleepsUntil idle t (a.timers.fields.timeout t).toNat k := by
  set due := (a.timers.fields.timeout t).toNat with hdue
  intro k' hrun hlt
  -- the alarm stays in the queue up to its due tick
  obtain ⟨a', h', hkept⟩ := hrun.invariant
    (I := fun k' => ∃ a', Timely idle k' a' ∧ (k'.tick.toNat < due →
      Pending a'.timers t ∧ (a'.timers.fields.timeout t).toNat = due))
    ⟨a, h, fun _ => ⟨hp, rfl⟩⟩ (by
      rintro u v o ⟨a₁, h₁, hkept⟩ ho hv
      obtain ⟨v', a₂, hv', -, h₂, hle, hall⟩ := h₁.exec ho
      obtain rfl : v' = v := Option.some.inj (hv'.symm.trans hv)
      refine ⟨a₂, h₂, fun hlt => ?_⟩
      obtain ⟨hp₁, hdue₁⟩ := hkept (by omega)
      obtain ⟨hp₂, hsame⟩ := hall t hp₁ (by omega)
      exact ⟨hp₂, by rw [hsame, hdue₁]⟩)
  obtain ⟨hp', hdue'⟩ := hkept hlt
  refine ⟨by rw [h'.repr.status]; exact (h'.sleeping t hp').1, fun hnext => ?_⟩
  have hlt32 := (a'.timers.fields.timeout t).toNat_lt
  rw [h'.tick_eq] at hnext
  have hfit : a'.tick.toNat + 1 < 2 ^ 32 := by omega
  obtain ⟨b, hb, -, -, -, -, hall⟩ :=
    triggerAlarms_wakes h'.scheduled h'.sleeping h'.upcoming hfit
  obtain ⟨k'', hk'', hr⟩ := h'.repr.triggerAlarms b hb
  refine ⟨k'', hk'', ?_⟩
  rw [hr.status]
  refine (hall t hp').1 (UInt32.toNat_inj.mp ?_)
  rw [UInt32.toNat_add, hdue', ← hnext]
  exact (Nat.mod_eq_of_lt hfit).symm

/-! ## The releases -/

/-- **A call of `eos_sleep(0)`** releases the task again when its wakeup time comes. -/
theorem Timely.releases (h : Timely idle k a) (hti : t ≠ idle)
    (hc : k.vars.currentTask = some t) (hl : k.vars.schedulerLock ≠ locked)
    (hp : (k.vars.tcb t).period ≠ 0)
    (hfit : (k.vars.tcb t).wakeupTime.toNat + (k.vars.tcb t).period.toNat < 2 ^ 32) :
    ∃ k', k.eosSleep 0 = some k' ∧
      Releases idle t ((k.vars.tcb t).wakeupTime.toNat + (k.vars.tcb t).period.toNat) k k' := by
  set w := (k.vars.tcb t).wakeupTime + (k.vars.tcb t).period with hw
  have hdue : (k.vars.tcb t).wakeupTime.toNat + (k.vars.tcb t).period.toNat = w.toNat := by
    rw [hw, UInt32.toNat_add]
    exact (Nat.mod_eq_of_lt hfit).symm
  rw [hdue]
  have hadm : Within idle k (.sleep 0) := by
    refine ⟨?_, k.tick.toNat_lt⟩
    show k.vars.currentTask ≠ some idle
    rw [hc]
    exact fun e => hti (Option.some.inj e)
  obtain ⟨k', a', hk', ha', h', -, -⟩ := h.exec hadm
  have hk' : k.eosSleep 0 = some k' := hk'
  have ha' : a.eosSleep 0 = some a' := ha'
  have hwake : (k'.vars.tcb t).wakeupTime = w := by
    have hjob := eosSleep_job hp hk'
    have hs : sleepsToPeriod t k (.sleep 0) = true := by simp [sleepsToPeriod, hc, hl]
    rw [if_pos hs] at hjob
    exact (Prod.ext_iff.mp hjob).2
  have hreleases : (w ≤ a.tick → a'.vars.currentTask = some t ∧ a'.status t = .running) →
      (a.tick < w → Pending a'.timers t ∧ a'.timers.fields.timeout t = w) →
      Releases idle t w.toNat k k' := by
    intro hover hsleep
    have htick := h.tick_eq
    refine ⟨by rw [hwake], ⟨fun hle => ?_, fun hrun => ?_⟩, fun hlt => ?_⟩
    · rw [h'.repr.vars, h'.repr.status]
      exact hover (UInt32.le_iff_toNat_le.mpr (htick ▸ hle))
    · by_contra hlt
      obtain ⟨hpend, -⟩ := hsleep (UInt32.lt_iff_toNat_lt.mpr (by rw [← htick]; omega))
      have hwait := (h'.sleeping t hpend).1
      rw [h'.repr.status, hwait] at hrun
      cases hrun.2
    · obtain ⟨hpend, hdue⟩ := hsleep (UInt32.lt_iff_toNat_lt.mpr (htick ▸ hlt))
      have := h'.sleepsUntil hpend
      rwa [hdue] at this
  refine ⟨k', hk', ?_⟩
  -- the same call over sequences
  have hvars := h.repr.vars
  rw [hvars] at hl hc hp
  obtain ⟨c, hcur, hrun⟩ := h.scheduled.started hl
  obtain rfl : t = c := Option.some.inj (hc.symm.trans hcur)
  have hfree : ¬Pending a.timers t := by
    intro hpend
    rw [(h.sleeping t hpend).1] at hrun
    cases hrun
  have hw' : (a.vars.tcb t).wakeupTime + (a.vars.tcb t).period = w := by rw [hw, hvars]
  have hself : ((a.setTcb t fun b => { b with wakeupTime := b.wakeupTime + b.period }).vars.tcb
      t).wakeupTime = w := by simp [hw']
  unfold Kernel.eosSleep at ha'
  simp only [if_neg hl, hc, Option.bind_eq_bind, Option.bind_some, if_pos, hp, ne_eq,
    not_false_eq_true, and_self, hself] at ha'
  split at ha'
  · next hle =>
    cases ha'
    refine hreleases (fun _ => ⟨hc, ?_⟩) fun hlt => absurd hlt (UInt32.not_lt.mpr hle)
    simpa [Kernel.status] using hrun
  · next hle =>
    have hlt : a.tick < w := UInt32.not_le.mp hle
    have hsub : a.tick + (w - a.tick) = w := by
      rw [UInt32.add_comm, UInt32.sub_add_cancel]
    have hne : w - a.tick ≠ 0 := by
      intro he
      rw [he, UInt32.add_zero] at hsub
      rw [hsub] at hlt
      exact UInt32.lt_irrefl _ hlt
    have hnat : (w - a.tick).toNat = w.toNat - a.tick.toNat :=
      UInt32.toNat_sub_of_le _ _ (UInt32.le_of_lt hlt)
    have := w.toNat_lt
    obtain ⟨-, -, -, hset⟩ := sleepFor_upcoming
      (a := a.setTcb t fun b => { b with wakeupTime := b.wakeupTime + b.period })
      h.scheduled.alarms h.upcoming hfree (by
      show a.tick.toNat + (w - a.tick).toNat < _
      rw [hnat]
      have := UInt32.lt_iff_toNat_lt.mp hlt
      omega) ha'
    obtain ⟨hpend, hdue⟩ := hset hne
    exact hreleases (fun hle' => absurd hle' hle) fun _ => ⟨hpend, hdue.trans hsub⟩

/-! ## Whole runs -/

omit [Fintype T] in
/-- When the system has started no alarm is set. -/
theorem timely_osInit {semaphore : Nat → Semaphore} {condition : Nat → Condition}
    (hk : Kernel.osInit idle semaphore condition = some k) : ∃ a, Timely idle k a := by
  obtain ⟨a, ha, hs, hsl, -⟩ := osInit_running (T := T) idle semaphore condition
  obtain ⟨k₁, hk₁, hr⟩ := osInit_refines idle semaphore condition a ha
  obtain rfl : k₁ = k := Option.some.inj (hk₁.symm.trans hk)
  have ht : a.timers =
      ((Kernel.zeroed (Q := Rings) (T := T) semaphore condition).setLock locked).timers :=
    timers_of_retime (f := fun k => (k.eosCreateTask (some idle) _ _ _ _).map Prod.snd)
      (fun m k => Recast.eosCreateTask (unseen_shift 0) m k _ _ _ _ _ fun _ _ => by
        simp only [Tcb.shift, UInt32.add_zero]) ha
  have hempty : ∀ u, u ∉ a.timers.alarmQueue.ring systemTimer := by
    intro u hu
    rw [ht] at hu
    exact List.not_mem_nil hu
  refine ⟨a, hr, hs, hsl, ?_, fun u hu => absurd hu (hempty u), fun u hu => absurd hu (hempty u)⟩
  rw [ht]
  exact List.Pairwise.nil

/-- **The run lemma.** -/
theorem Timely.of_run (h : Timely idle k a) (hrun : Reach Kernel.exec (Within idle) k k') :
    ∃ a', Timely idle k' a' := by
  refine hrun.invariant (I := fun k => ∃ a, Timely idle k a) ⟨a, h⟩ ?_
  rintro u v o ⟨b, hb⟩ ho hv
  obtain ⟨v', b', hv', -, hb', -⟩ := hb.exec ho
  obtain rfl : v' = v := Option.some.inj (hv'.symm.trans hv)
  exact ⟨b', hb'⟩

omit [Fintype T] in
/-- `eos_set_period` leaves status, priority and queues of the task alone. -/
theorem Timely.eosSetPeriod (h : Timely idle k a) (t : T) (period : UInt32) :
    Timely idle (k.eosSetPeriod t period) (a.eosSetPeriod t period) := by
  obtain ⟨hs, hst, -⟩ := h.scheduled.setTcb (t := t)
    (fun b => { b with period := period, wakeupTime := a.tick }) rfl rfl rfl
  refine ⟨h.repr.eosSetPeriod t period, hs, fun u hu => ?_, h.upcoming⟩
  obtain ⟨hw, hq⟩ := h.sleeping u hu
  exact ⟨(hst u).trans hw, hq⟩

/-- What holds between the operations of a periodic task. -/
structure OnTime (idle t : T) (t₀ : Nat) (period : UInt32) (r : PeriodicRun T) : Prop where
  timely : ∃ a, Timely idle r.kernel a
  job : (r.kernel.vars.tcb t).period = period
  wakeupTime : (r.kernel.vars.tcb t).wakeupTime.toNat = t₀ + r.sleeps * period.toNat

/-- **One operation** of any task, or one tick -/
theorem OnTime.exec {t₀ : Nat} {period : UInt32} {r r' : PeriodicRun T}
    (h : OnTime idle t t₀ period r) (hp : period ≠ 0) (ho : WithinPeriod idle t r o)
    (hr : r.exec t o = some r') : OnTime idle t t₀ period r' := by
  obtain ⟨a, ha⟩ := h.timely
  obtain ⟨hwithin, hset, hfit⟩ := ho
  obtain ⟨k', a', hk', -, ha', -⟩ := ha.exec hwithin
  rw [PeriodicRun.exec, hk'] at hr
  cases hr
  have hjob := exec_job (h.job ▸ hp) hwithin.1 hset hk'
  refine ⟨⟨a', ha'⟩, ?_, ?_⟩
  · have hper := (Prod.ext_iff.mp hjob).1
    refine Eq.trans hper ?_
    split
    · exact h.job
    · exact h.job
  · have hwake := (Prod.ext_iff.mp hjob).2
    show (k'.vars.tcb t).wakeupTime.toNat = _
    have hwake : (k'.vars.tcb t).wakeupTime = _ := hwake
    rw [hwake]
    by_cases hs : sleepsToPeriod t r.kernel o = true
    · have hlt := hfit hs
      rw [if_pos hs, if_pos hs]
      show ((r.kernel.vars.tcb t).wakeupTime + (r.kernel.vars.tcb t).period).toNat = _
      rw [UInt32.toNat_add, Nat.mod_eq_of_lt hlt, h.wakeupTime, h.job, Nat.add_mul,
        Nat.one_mul, Nat.add_assoc]
    · rw [if_neg hs, if_neg hs]
      exact h.wakeupTime

/-- A task is released in every period. -/
theorem OnTime.noDrift {t₀ : Nat} {period : UInt32} {r : PeriodicRun T}
    (h : OnTime idle t t₀ period r) (hti : t ≠ idle) (hp : period ≠ 0) :
    NoDrift idle t t₀ period.toNat r := by
  obtain ⟨a, ha⟩ := h.timely
  refine ⟨h.wakeupTime, fun hc hl hfit => ?_⟩
  have hdue : (r.kernel.vars.tcb t).wakeupTime.toNat + (r.kernel.vars.tcb t).period.toNat =
      t₀ + (r.sleeps + 1) * period.toNat := by
    rw [h.wakeupTime, h.job, Nat.add_mul, Nat.one_mul, Nat.add_assoc]
  have := ha.releases hti hc hl (h.job ▸ hp) (by rw [hdue]; exact hfit)
  rwa [hdue] at this

/-- **Periodic tasks do not drift**: after `n` calls of `eos_sleep(0)` the wakeup time is `n`
periods after the tick of `eos_set_period`; the next one returns at once if its release has
passed, and otherwise the task becomes ready in the trigger that makes that tick. -/
theorem noDrift_of_run {semaphore : Nat → Semaphore} {condition : Nat → Condition}
    {k₀ : Kernel LinkMem T} {period : UInt32} {r : PeriodicRun T}
    (hk₀ : Kernel.osInit idle semaphore condition = some k₀)
    (hk : Reach Kernel.exec (Within idle) k₀ k) (hti : t ≠ idle) (hp : period ≠ 0)
    (hr : Reach (PeriodicRun.exec t) (WithinPeriod idle t) ⟨k.eosSetPeriod t period, 0⟩ r) :
    NoDrift idle t k.tick.toNat period.toNat r := by
  obtain ⟨a₀, h₀⟩ := timely_osInit hk₀
  obtain ⟨a, ha⟩ := h₀.of_run hk
  have hstart : OnTime idle t k.tick.toNat period ⟨k.eosSetPeriod t period, 0⟩ := by
    refine ⟨⟨_, ha.eosSetPeriod t period⟩, ?_, ?_⟩
    · simp [Kernel.eosSetPeriod]
    · simp [Kernel.eosSetPeriod]
  have hend := hr.invariant hstart fun u v o hu ho hv => hu.exec hp ho hv
  exact hend.noDrift hti hp

section Examples

instance (idle : T) (k : Kernel LinkMem T) : (o : Op T) → Decidable (Within idle k o)
  | .tick => inferInstanceAs (Decidable (_ ∧ k.tick.toNat + 1 < 2 ^ 32))
  | .sleep tick => inferInstanceAs (Decidable (_ ∧ k.tick.toNat + tick.toNat < 2 ^ 32))
  | .createTask _ _ _ _ _ | .schedule | .changePriority _ _ | .setPeriod _ _ | .suspendTask _
  | .resumeTask _ | .lockScheduler | .restoreScheduler _ | .waitInQueue _ _
  | .wakeupFromQueue _ | .start => inferInstanceAs (Decidable (_ ∧ True))

/-- The operation sets the period of task `t`. -/
def setsPeriod (t : T) : Op T → Bool
  | .setPeriod u _ => u = t
  | _ => false

omit [Fintype T] in
/-- The operation does not set the period of the task. -/
theorem setsPeriod_eq_false : setsPeriod t o = false ↔ ∀ period, o ≠ .setPeriod t period := by
  cases o <;> simp [setsPeriod]

instance (idle t : T) (r : PeriodicRun T) : DecidablePred (WithinPeriod idle t r) := fun _ =>
  decidable_of_iff (_ ∧ setsPeriod t _ = false ∧ _)
    (and_congr_right fun _ => and_congr_left fun _ => setsPeriod_eq_false)

/-- A task with period 3 that misses its second release: it sleeps until tick 4, works until
tick 8, gets the release of tick 7 at once and sleeps until tick 10. -/
theorem noDrift_of_run_three : ∃ (k : Kernel LinkMem Bool) (r : PeriodicRun Bool),
    k.tick = 1 ∧ r.kernel.tick = 8 ∧ r.sleeps = 3 ∧ (r.kernel.vars.tcb true).wakeupTime = 10 ∧
      r.kernel.status true = .waiting ∧ NoDrift false true 1 3 r := by
  let boot (k : Kernel LinkMem Bool) (o : Op Bool) :=
    if Within false k o then k.exec o else none
  let step (r : PeriodicRun Bool) (o : Op Bool) :=
    if WithinPeriod false true r o then r.exec true o else none
  let run := do
    let k₀ ← Kernel.osInit (Q := LinkMem) false (fun _ => ⟨0, 0⟩) fun _ => ⟨0⟩
    let k ← runList boot k₀ [.createTask (some true) 1 8096 1 5, .start, .tick]
    let r ← runList step ⟨k.eosSetPeriod true 3, 0⟩
      [.sleep 0, .tick, .tick, .tick, .tick, .tick, .tick, .tick, .sleep 0, .sleep 0]
    return (k₀, k, r)
  obtain ⟨⟨k₀, k, r⟩, hsome, hend⟩ := (Option.any_eq_true _ _).mp
    (show (run.any fun p => p.2.1.tick = 1 ∧ p.2.2.kernel.tick = 8 ∧ p.2.2.sleeps = 3 ∧
      (p.2.2.kernel.vars.tcb true).wakeupTime = 10 ∧
      p.2.2.kernel.status true = .waiting) = true by decide +kernel)
  obtain ⟨htick, hnow, hsleeps, hwake, hwait⟩ := of_decide_eq_true hend
  obtain ⟨k₀', hk₀, k', hk, r', hr, hsome⟩ : ∃ k₀', Kernel.osInit _ _ _ = some k₀' ∧
      ∃ k', runList boot k₀' _ = some k' ∧
        ∃ r', runList step ⟨k'.eosSetPeriod true 3, 0⟩ _ = some r' ∧
          (k₀', k', r') = (k₀, k, r) := by
    simpa only [run, Option.bind_eq_bind, Option.bind_eq_some_iff, Option.pure_def,
      Option.some.injEq] using hsome
  cases hsome
  have hrun := noDrift_of_run hk₀ (.of_runList hk) (t := true) (by decide) (by decide)
    (.of_runList hr)
  rw [htick] at hrun
  exact ⟨k, r, htick, hnow, hsleeps, hwake, hwait, hrun⟩

end Examples

end Eos.Analysis
