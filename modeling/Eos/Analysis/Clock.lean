import Eos.Analysis.PeriodicTasks
import Eos.Model.Clock

/-!
# Ticks and sleeping tasks against the count of the timer

Every interrupt of the timer starts the next period when it is taken, not when it was due
(core/timer.c:94-99).  So the system timer never runs fast, and is behind by what the interrupts
have waited (`clock_ticks`), and a task that sleeps for `n` ticks sleeps for more than `n - 1`
periods, and for `n` periods and as many delays at most (`sleep_lasts`).

This holds for periods below 2^31 counts; a longer one is negative in `CNTP_TVAL_EL0`, and the next
interrupt due at once.
-/

set_option autoImplicit false

namespace Eos.Analysis

open Eos.Lib (LinkMem Reach runList)
open Eos.Model
open Eos.Interface (Rings)

variable {T : Type} [DecidableEq T] [Fintype T]

/-! ## Runs -/

section Defs

/-- The events of a run in which ticks and due ticks stay below 2^32. -/
def TicksFit (idle : T) (s : ClockedKernel T) : ClockEvent T → Prop
  | .pass _ => True
  | .operation o => Within idle s.kernel o
  | .interrupt => Within idle s.kernel .tick

/-- An interrupt waits for at most `latency` counts. -/
def Prompt (latency : Nat) (s : ClockedKernel T) : ClockEvent T → Prop
  | .pass counts => (s.timer.count + counts : Int) ≤ s.timer.compare + latency
  | _ => True

instance (idle : T) (s : ClockedKernel T) : DecidablePred (TicksFit idle s)
  | .pass _ => .isTrue trivial
  | .operation o => inferInstanceAs (Decidable (Within idle s.kernel o))
  | .interrupt => inferInstanceAs (Decidable (Within idle s.kernel .tick))

instance (latency : Nat) (s : ClockedKernel T) : DecidablePred (Prompt latency s)
  | .pass counts =>
    inferInstanceAs (Decidable ((s.timer.count + counts : Int) ≤ s.timer.compare + latency))
  | .operation _ | .interrupt => .isTrue trivial

/-- `m` ticks of period `r` lie between the states `s` and `s'`. -/
structure Elapsed (r : Nat) (s s' : ClockedKernel T) (m : Nat) : Prop where
  reload : s'.reload = s.reload
  tick : s'.kernel.tick.toNat = s.kernel.tick.toNat + m
  count_le : s.timer.count ≤ s'.timer.count
  armed : s'.timer.compare ≤ s'.timer.count + r
  spaced : s.timer.compare + m * r ≤ s'.timer.compare
  since : 1 ≤ m → (s.timer.count + m * r : Int) ≤ s'.timer.compare

/-- They have been made without a delay of more than `latency` counts each. -/
structure Undelayed (r latency : Nat) (s s' : ClockedKernel T) (m : Nat) : Prop where
  compare_le : s'.timer.compare ≤ s.timer.count + r + m * (r + latency)
  count_le : s'.timer.count ≤ s'.timer.compare + latency

end Defs

variable {idle t : T} {s s' s₀ : ClockedKernel T} {r latency m : Nat} {k k' : Kernel LinkMem T}
  {a : Kernel Rings T}

/-! ## One event -/

/-- What an event does: counts pass, an interrupt is taken, or the kernel executes an operation. -/
theorem event_cases {e : ClockEvent T} (h : s.event e = some s') :
    (∃ counts, e = .pass counts ∧
      s' = { s with timer := { s.timer with count := s.timer.count + counts } }) ∨
    (∃ o k, e = .operation o ∧ o ≠ .tick ∧ s.kernel.exec o = some k ∧
      s' = { s with kernel := k }) ∨
    (e = .interrupt ∧ s.timer.Asserted ∧ ∃ k, s.kernel.exec .tick = some k ∧
      s' = { s.timerRearm with kernel := k }) := by
  cases e with
  | pass counts => exact .inl ⟨counts, rfl, (Option.some.inj h).symm⟩
  | operation o =>
    by_cases ho : o = .tick
    · subst ho
      cases h
    · have h : (do return { s with kernel := ← s.kernel.exec o }) = some s' := by
        cases o <;> first | exact h | exact absurd rfl ho
      obtain ⟨k, hk, h⟩ := Option.bind_eq_some_iff.mp h
      exact .inr (.inl ⟨o, k, rfl, ho, hk, (Option.some.inj h).symm⟩)
  | interrupt =>
    rw [ClockedKernel.event, Option.ite_none_right_eq_some] at h
    obtain ⟨hasserted, h⟩ := h
    obtain ⟨k, hk, h⟩ := Option.bind_eq_some_iff.mp h
    exact .inr (.inr ⟨rfl, hasserted, k, hk, (Option.some.inj h).symm⟩)

/-- The kernel takes a run of its own. -/
theorem kernel_run (h : Reach ClockedKernel.event (TicksFit idle) s s') :
    Reach Kernel.exec (Within idle) s.kernel s'.kernel := by
  induction h with
  | start => exact .start
  | next _ hok hst ih =>
    obtain ⟨counts, rfl, rfl⟩ | ⟨o, k, rfl, -, hk, rfl⟩ | ⟨rfl, -, k, hk, rfl⟩ := event_cases hst
    · exact ih
    · exact .next ih hok hk
    · exact .next ih hok hk

/-- Only a tick changes the system timer. -/
theorem Timely.exec_tick (h : Timely idle k a) {o : Op T} (ho : Within idle k o)
    (hk : k.exec o = some k') : k'.tick.toNat = k.tick.toNat + if o = .tick then 1 else 0 := by
  obtain ⟨k'', a', hk'', ha', h', -, -⟩ := h.exec ho
  obtain rfl : k'' = k' := Option.some.inj (hk''.symm.trans hk)
  rw [h'.tick_eq, h.tick_eq]
  by_cases hot : o = .tick
  · subst hot
    have hfit : a.tick.toNat + 1 < 2 ^ 32 := h.tick_eq ▸ ho.2
    obtain ⟨b, hb, -, -, -, hbt, -⟩ :=
      triggerAlarms_wakes h.scheduled h.sleeping h.upcoming hfit
    obtain ⟨b', hb', hsched⟩ := Option.bind_eq_some_iff.mp ha'
    obtain rfl : b = b' := Option.some.inj (hb.symm.trans hb')
    have ht : a'.timers = b.timers := eosSchedule_timeless.timers _ _ hsched
    have hsame : a'.tick = b.tick := by
      rw [Kernel.tick, ht, Kernel.tick]
    rw [hsame, hbt, if_pos rfl, UInt32.toNat_add]
    exact Nat.mod_eq_of_lt hfit
  · rw [if_neg hot]
    by_cases hl : leavesTimers o = true
    · rw [Kernel.tick, exec_timers hl ha', Kernel.tick]
      rfl
    · cases o with
      | sleep tick =>
        have hfit : a.tick.toNat + tick.toNat < 2 ^ 32 := h.tick_eq ▸ ho.2
        rw [(eosSleep_upcoming h.scheduled h.sleeping h.upcoming hfit ha').2.1]
        rfl
      | tick => exact absurd rfl hot
      | _ => exact absurd rfl hl

/-- A period below 2^31 counts is what `CNTP_TVAL_EL0` takes it for. -/
theorem toInt_toInt32 {reload : UInt32} (h : reload.toNat < 2 ^ 31) :
    reload.toInt32.toInt = reload.toNat := by
  rw [← Int32.toInt_toBitVec, UInt32.toBitVec_toInt32, BitVec.toInt_eq_toNat_of_lt]
  · rfl
  · have : reload.toBitVec.toNat = reload.toNat := rfl
    omega

/-! ## Ticks -/

omit [DecidableEq T] [Fintype T] in
/-- No tick has passed at the start. -/
theorem Elapsed.refl (h : s.timer.compare ≤ s.timer.count + r) : Elapsed r s s 0 where
  reload := rfl
  tick := rfl
  count_le := le_rfl
  armed := h
  spaced := by simp
  since h := absurd h (by decide)

/-- **One event** is a tick or none; a tick is made when the compare value has been reached, and
sets the next one a period from then. -/
theorem Elapsed.event (h : Elapsed r s₀ s m) (ha : Timely idle s.kernel a)
    (hr : s₀.reload.toInt32.toInt = r) {e : ClockEvent T} (hok : TicksFit idle s e)
    (he : s.event e = some s') :
    ∃ m', Elapsed r s₀ s' m' ∧ ∀ latency, Undelayed r latency s₀ s m → Prompt latency s e →
      Undelayed r latency s₀ s' m' := by
  obtain ⟨counts, rfl, rfl⟩ | ⟨o, k, rfl, ho, hk, rfl⟩ | ⟨rfl, hasserted, k, hk, rfl⟩ :=
    event_cases he
  · have hcount := h.count_le
    have harmed := h.armed
    refine ⟨m, ⟨h.reload, h.tick, ?_, ?_, h.spaced, h.since⟩, fun latency hp hlate => ⟨?_, ?_⟩⟩
    · show s₀.timer.count ≤ s.timer.count + counts
      omega
    · show s.timer.compare ≤ ((s.timer.count + counts : ℕ) : ℤ) + r
      omega
    · exact hp.compare_le
    · show ((s.timer.count + counts : ℕ) : ℤ) ≤ s.timer.compare + latency
      rw [Nat.cast_add]
      exact hlate
  · have htick := ha.exec_tick hok hk
    rw [if_neg ho] at htick
    exact ⟨m, ⟨h.reload, htick.trans h.tick, h.count_le, h.armed, h.spaced, h.since⟩,
      fun latency hp _ => ⟨hp.compare_le, hp.count_le⟩⟩
  · have htick := ha.exec_tick hok hk
    rw [if_pos rfl] at htick
    have hdue : s.timer.compare ≤ s.timer.count := hasserted.2
    have hnext : s.timerRearm.timer.compare = s.timer.count + r := by
      rw [← hr, ← h.reload]
      rfl
    have hmul : ∀ n : ℤ, ((m + 1 : ℕ) : ℤ) * n = m * n + n := by
      intro n
      rw [Nat.cast_add, Nat.cast_one, add_mul, one_mul]
    have hspaced := h.spaced
    have hsince := h.since
    have hcount := h.count_le
    refine ⟨m + 1, ⟨h.reload, ?_, hcount, hnext.le, ?_, fun _ => ?_⟩, fun latency hp _ => ⟨?_, ?_⟩⟩
    · show k.tick.toNat = _
      rw [htick, h.tick]
      omega
    · show s₀.timer.compare + _ ≤ s.timerRearm.timer.compare
      rw [hnext, hmul]
      omega
    · show (s₀.timer.count + _ : ℤ) ≤ s.timerRearm.timer.compare
      rw [hnext, hmul]
      by_cases hm : 1 ≤ m
      · have := hsince hm
        omega
      · obtain rfl : m = 0 := by omega
        simp only [Nat.cast_zero, zero_mul]
        omega
    · show s.timerRearm.timer.compare ≤ _
      have hle := hp.compare_le
      have hlate := hp.count_le
      rw [hnext, hmul]
      omega
    · show (s.timer.count : ℤ) ≤ s.timerRearm.timer.compare + latency
      rw [hnext]
      omega

/-- A run from `s`. -/
theorem Elapsed.of_run (ha : Timely idle s.kernel a) (hr : s.reload.toInt32.toInt = r)
    (harmed : s.timer.compare ≤ s.timer.count + r)
    (h : Reach ClockedKernel.event (TicksFit idle) s s') : ∃ m, Elapsed r s s' m := by
  obtain ⟨-, hm⟩ := h.invariant
    (I := fun s' => (∃ a, Timely idle s'.kernel a) ∧ ∃ m, Elapsed r s s' m)
    ⟨⟨a, ha⟩, 0, .refl harmed⟩ (by
      rintro u v e ⟨⟨b, hb⟩, m, hm⟩ hok hv
      obtain ⟨m', hm', -⟩ := hm.event hb hr hok hv
      exact ⟨hb.of_run (kernel_run (.next .start hok hv)), m', hm'⟩)
  exact hm

/-- A run from `s` without long delays. -/
theorem Undelayed.of_run (ha : Timely idle s.kernel a) (hr : s.reload.toInt32.toInt = r)
    (harmed : s.timer.compare ≤ s.timer.count + r)
    (hlate : (s.timer.count : Int) ≤ s.timer.compare + latency)
    (h : Reach ClockedKernel.event (fun s e => TicksFit idle s e ∧ Prompt latency s e) s s') :
    ∃ m, Elapsed r s s' m ∧ Undelayed r latency s s' m := by
  obtain ⟨-, hm⟩ := h.invariant
    (I := fun s' => (∃ a, Timely idle s'.kernel a) ∧
      ∃ m, Elapsed r s s' m ∧ Undelayed r latency s s' m)
    ⟨⟨a, ha⟩, 0, .refl harmed, by simpa using harmed, hlate⟩ (by
      rintro u v e ⟨⟨b, hb⟩, m, hm, hp⟩ ⟨hok, hprompt⟩ hv
      obtain ⟨m', hm', hp'⟩ := hm.event hb hr hok hv
      exact ⟨hb.of_run (kernel_run (.next .start hok hv)), m', hm', hp' latency hp hprompt⟩)
  exact hm

/-! ## From the start of the system -/

omit [Fintype T] [DecidableEq T] in
/-- `_os_init_hal` sets the comparator one reload value ahead of the counter. -/
theorem osInitHal_timer (s : ClockedKernel T) (tickHz : UInt32) (freq : UInt64)
    (hr : (reloadValue tickHz freq).toNat < 2 ^ 31) :
    (s.osInitHal tickHz freq).reload.toInt32.toInt = (reloadValue tickHz freq).toNat ∧
      (s.osInitHal tickHz freq).timer.compare =
        s.timer.count + (reloadValue tickHz freq).toNat := by
  have hval := toInt_toInt32 hr
  refine ⟨hval, ?_⟩
  show (s.timer.count : Int) + (reloadValue tickHz freq).toInt32.toInt = _
  rw [hval]

/-- `_os_init` starts at tick 0. -/
theorem tick_osInit {semaphore : Nat → Semaphore} {condition : Nat → Condition}
    (hk : Kernel.osInit idle semaphore condition = some k) : k.tick = 0 := by
  have htimers := exec_timers (o := .createTask (some idle) 1 8096 1 lowestPriority) rfl hk
  rw [Kernel.tick, htimers]
  rfl

/-- **The system timer** has counted at most one tick for each period that has passed, and misses
at most the delays of its interrupts and the current period. -/
theorem clock_ticks {semaphore : Nat → Semaphore} {condition : Nat → Condition} {tickHz : UInt32}
    {freq : UInt64} (hr : (reloadValue tickHz freq).toNat < 2 ^ 31)
    (hk : Kernel.osInit idle semaphore condition = some s₀.kernel) :
    (∀ s, Reach ClockedKernel.event (TicksFit idle) (s₀.osInitHal tickHz freq) s →
      s₀.timer.count + s.kernel.tick.toNat * (reloadValue tickHz freq).toNat ≤ s.timer.count) ∧
    ∀ latency s, Reach ClockedKernel.event (fun s e => TicksFit idle s e ∧ Prompt latency s e)
      (s₀.osInitHal tickHz freq) s → s.timer.count ≤ s₀.timer.count +
        (s.kernel.tick.toNat + 1) * ((reloadValue tickHz freq).toNat + latency) := by
  obtain ⟨a, ha⟩ := timely_osInit hk
  obtain ⟨hval, hcompare⟩ := osInitHal_timer s₀ tickHz freq hr
  have htick : (s₀.osInitHal tickHz freq).kernel.tick.toNat = 0 := by
    rw [show (s₀.osInitHal tickHz freq).kernel = s₀.kernel from rfl, tick_osInit hk]
    rfl
  generalize (reloadValue tickHz freq).toNat = r at hval hcompare
  constructor
  · intro s hs
    obtain ⟨m, hm⟩ := Elapsed.of_run (s := s₀.osInitHal tickHz freq) ha hval hcompare.le hs
    have hticks := hm.tick
    have hspaced := hm.spaced
    have harmed := hm.armed
    rw [hcompare] at hspaced
    rw [hticks, htick, Nat.zero_add]
    omega
  · intro latency s hs
    obtain ⟨m, hm, hp⟩ := Undelayed.of_run (s := s₀.osInitHal tickHz freq) ha hval hcompare.le
      (by rw [hcompare]; show (s₀.timer.count : Int) ≤ _; omega) hs
    have hticks := hm.tick
    have hle := hp.compare_le
    have hlate := hp.count_le
    change s.timer.compare ≤ s₀.timer.count + r + _ at hle
    rw [hticks, htick, Nat.zero_add, Nat.add_mul, Nat.one_mul]
    have hcast : ((m * (r + latency) : ℕ) : ℤ) = m * (r + latency) := by
      rw [Nat.cast_mul, Nat.cast_add]
    omega

/-! ## Sleeping tasks -/

omit [Fintype T] in
/-- Scheduling makes no task wait. -/
theorem eosSchedule_not_waiting (h : k.status t ≠ .waiting) (hk : k.eosSchedule = some k') :
    k'.status t ≠ .waiting := by
  have hset : ∀ (k : Kernel LinkMem T) (u : T) (st : Status), k.status t ≠ .waiting →
      st ≠ .waiting → (k.setStatus u st).status t ≠ .waiting := by
    intro k u st hk hst
    by_cases hu : t = u
    · subst hu
      simpa using hst
    · simpa [hu] using hk
  unfold Kernel.eosSchedule at hk
  split at hk
  · cases hk
    exact h
  · obtain ⟨b, hb, hk⟩ := Option.bind_eq_some_iff.mp hk
    have hbt : b.status t ≠ .waiting := by
      unfold Kernel.requeueCurrent at hb
      split at hb
      · cases hb
        exact h
      · split at hb
        · obtain ⟨c, hc, hb⟩ := Option.bind_eq_some_iff.mp hb
          obtain ⟨d, hd, hc⟩ := Option.bind_eq_some_iff.mp hc
          obtain ⟨q, -, hd⟩ := Option.bind_eq_some_iff.mp hd
          cases hd
          cases hc
          cases hb
          exact hset _ _ _ h Status.noConfusion
        · cases hb
          exact h
    obtain ⟨node, -, hk⟩ := Option.bind_eq_some_iff.mp hk
    obtain ⟨next, -, hk⟩ := Option.bind_eq_some_iff.mp hk
    obtain ⟨d, hd, hk⟩ := Option.bind_eq_some_iff.mp hk
    simp only [Kernel.removeNode, Option.bind_eq_bind, Option.bind_eq_some_iff] at hd
    obtain ⟨q, -, hd⟩ := hd
    cases hd
    cases hk
    have hunset : ((b.setQueue q).unsetIfEmpty (b.priority next)).status t ≠ .waiting := by
      unfold Kernel.unsetIfEmpty
      split <;> exact hbt
    exact hset _ _ _ hunset Status.noConfusion

/-- **A call of `eos_sleep`** for `n` ticks lasts until the `n`-th tick from then. -/
theorem Timely.sleeps (h : Timely idle k a) {n : UInt32} (hn : n ≠ 0)
    (hc : k.vars.currentTask = some t) (hl : k.vars.schedulerLock ≠ locked)
    (ho : Within idle k (.sleep n)) (hk : k.exec (.sleep n) = some k') :
    SleepsUntil idle t (k.tick.toNat + n.toNat) k' := by
  obtain ⟨k'', a', hk'', ha', h', -, -⟩ := h.exec ho
  obtain rfl : k'' = k' := Option.some.inj (hk''.symm.trans hk)
  have htick := h.tick_eq
  have hfit : k.tick.toNat + n.toNat < 2 ^ 32 := ho.2
  rw [h.repr.vars] at hc hl
  obtain ⟨c, hcur, hrun⟩ := h.scheduled.started hl
  obtain rfl : t = c := Option.some.inj (hc.symm.trans hcur)
  have hfree : ¬Pending a.timers t := by
    intro hp
    rw [(h.sleeping t hp).1] at hrun
    cases hrun
  have ha' : a.sleepFor t n = some a' := by
    change a.eosSleep n = some a' at ha'
    unfold Kernel.eosSleep at ha'
    rw [if_neg hl, hc] at ha'
    simpa only [Option.bind_eq_bind, Option.bind_some, hn, false_and, if_false] using ha'
  obtain ⟨-, -, -, hset⟩ := sleepFor_upcoming h.scheduled.alarms h.upcoming hfree
    (by rw [← htick]; exact hfit) ha'
  obtain ⟨hpend, hdue⟩ := hset hn
  have hlasts := h'.sleepsUntil hpend
  rwa [hdue, UInt32.toNat_add, ← htick, Nat.mod_eq_of_lt hfit] at hlasts

/-- While a task waits that sleeps until `due`, this tick has not been made. -/
theorem tick_lt_of_waiting {due : Nat} (ha : Timely idle s.kernel a)
    (hsleeps : SleepsUntil idle t due s.kernel) (hlt : s.kernel.tick.toNat < due)
    (h : Reach ClockedKernel.event (fun s e => TicksFit idle s e ∧ s.kernel.status t = .waiting)
      s s')
    (hwaits : s'.kernel.status t = .waiting) : s'.kernel.tick.toNat < due := by
  refine (h.invariant (I := fun s' => Reach Kernel.exec (Within idle) s.kernel s'.kernel ∧
    (s'.kernel.status t = .waiting → s'.kernel.tick.toNat < due))
    ⟨.start, fun _ => hlt⟩ ?_).2 hwaits
  rintro u v e ⟨hrun, hu⟩ ⟨hok, huw⟩ hv
  obtain ⟨b, hb⟩ := ha.of_run hrun
  have hult := hu huw
  obtain ⟨counts, rfl, rfl⟩ | ⟨o, k, rfl, ho, hk, rfl⟩ | ⟨rfl, -, k, hk, rfl⟩ := event_cases hv
  · exact ⟨hrun, fun _ => hult⟩
  · have htick := hb.exec_tick hok hk
    rw [if_neg ho] at htick
    exact ⟨.next hrun hok hk, fun _ => htick ▸ hult⟩
  · have htick := hb.exec_tick hok hk
    rw [if_pos rfl] at htick
    refine ⟨.next hrun hok hk, fun hvw => ?_⟩
    -- in the trigger that makes the tick the task becomes ready
    have hne : u.kernel.tick.toNat + 1 ≠ due := by
      intro hdue
      obtain ⟨k₁, hk₁, hready⟩ := (hsleeps u.kernel hrun hult).2 hdue
      obtain ⟨k₂, hk₂, hsched⟩ := Option.bind_eq_some_iff.mp hk
      obtain rfl : k₁ = k₂ := Option.some.inj (hk₁.symm.trans hk₂)
      have hnot : k₁.status t ≠ .waiting := by
        rw [hready]
        exact Status.noConfusion
      exact eosSchedule_not_waiting hnot hsched hvw
    show k.tick.toNat < due
    omega

/-- A system that has just been initialised, with `false` for its idle task. -/
def clockStart : Option (ClockedKernel Bool) :=
  (Kernel.osInit false (fun _ => ⟨0, 0⟩) fun _ => ⟨0⟩).map fun k => ⟨⟨0, 0, 0⟩, 0, k⟩

/-- The example starts from `_os_init`. -/
theorem kernel_clockStart {s : ClockedKernel Bool} (h : clockStart = some s) :
    Kernel.osInit (Q := LinkMem) false (fun _ => ⟨0, 0⟩) (fun _ => ⟨0⟩) = some s.kernel := by
  obtain ⟨k, hk, rfl⟩ := Option.map_eq_some_iff.mp h
  exact hk

/-- A run of a system of 1000 counts a second, each event where it is in time. -/
def clockRun (latency : Nat) (s : ClockedKernel Bool) (es : List (ClockEvent Bool)) :
    Option (ClockedKernel Bool) :=
  runList (fun s e => if TicksFit false s e ∧ Prompt latency s e then s.event e else none) s es

/-- Two interrupts, each 10 counts late. -/
theorem clock_ticks_two : ∃ s₀ s : ClockedKernel Bool, s.kernel.tick = 2 ∧
    s₀.timer.count + s.kernel.tick.toNat * (reloadValue 1 1000).toNat ≤ s.timer.count ∧
      s.timer.count ≤
        s₀.timer.count + (s.kernel.tick.toNat + 1) * ((reloadValue 1 1000).toNat + 10) := by
  have hrun : (clockStart.any fun s₀ => (clockRun 10 (s₀.osInitHal 1 1000)
      [.pass 1010, .interrupt, .pass 1010, .interrupt]).any fun s => s.kernel.tick = 2) = true := by
    decide +kernel
  obtain ⟨s₀, hs₀, hrun⟩ := (Option.any_eq_true _ _).mp hrun
  obtain ⟨s, hs, htick⟩ := (Option.any_eq_true _ _).mp hrun
  have hr : (reloadValue 1 1000).toNat < 2 ^ 31 := by decide
  obtain ⟨hfast, hslow⟩ := clock_ticks hr (kernel_clockStart hs₀)
  have hreach := Reach.of_runList hs
  exact ⟨s₀, s, of_decide_eq_true htick, hfast s (hreach.mono fun _ _ h => h.1), hslow 10 s hreach⟩

end Eos.Analysis
