import Eos.Analysis.AlarmRing
import Mathlib.Logic.Relation

/-!
# Exactness of alarms

As long as no tick passes `2^32`, the alarm queue of a counter is at any time the ring of its
pending alarms, and `eos_trigger_counter` fires just the alarms that are due, in the order of
their settings; its loop ends, also when handlers set alarms (`alarms_exact`).
-/

set_option autoImplicit false

namespace Eos.Analysis

open Eos.Lib (LinkMem RingsOk)
open Eos.Model
open Eos.Interface

variable {A F P : Type} [DecidableEq A]

/-! ## Runs -/

/-- **What holds in every state** of a run whose ticks fit. -/
structure Punctual (counter tick : Nat) (s : AlarmRun A F P) : Prop where
  fits : Fits tick s.events
  ring : ∃ ring, AlarmRing counter tick s.timers s.events ring
  early : ∀ a p, setting s.events a = some p → triggers s.events ≤ p.due
  rest : s.phase = .outside → ∀ a p, setting s.events a = some p → triggers s.events < p.due
  exact : Exact s.events

/-- A counter without alarms, as `eos_init_counter` leaves it, and no alarm is linked. -/
structure InitialAlarms (counter tick : Nat) (s : AlarmRun A F P) : Prop where
  unlinked : RingsOk s.timers.alarmQueue fun _ => []
  tick : (s.timers.fields.tick counter).toNat = tick
  phase : s.phase = .outside
  events : s.events = []

variable [Fintype A] {counter tick : Nat} {s s' : AlarmRun A F P}

omit [Fintype A] in
/-- Nothing is pending at the start. -/
theorem InitialAlarms.punctual (h : InitialAlarms counter tick s) : Punctual counter tick s := by
  have hnone : ∀ a, setting s.events a = none := fun a => by rw [h.events]; rfl
  refine ⟨by rw [h.events]; trivial, ⟨_, ⟨h.unlinked, fun _ _ => rfl, fun a => ?_, .nil,
    fun a p hp => ?_, ?_⟩⟩, fun a p hp => ?_, fun _ a p hp => ?_, by rw [h.events]; exact .nil⟩
  · simp [hnone]
  · rw [hnone] at hp
    cases hp
  · rw [h.tick, h.events]
    rfl
  · rw [hnone] at hp
    cases hp
  · rw [hnone] at hp
    cases hp

/-- `eos_set_alarm` has a result and keeps the invariant, unless its due tick wraps around. -/
theorem Punctual.setAlarm (h : Punctual counter tick s) (hphase : s.phase ≠ .loop)
    (call : SetAlarm A F P) :
    ∃ s', s.setAlarm counter call = some s' ∧ AlarmStep counter s s' ∧ s'.phase = s.phase ∧
      s'.events = .set call.alarm call.delay :: s.events ∧
      (Fits tick s'.events → Punctual counter tick s') := by
  obtain ⟨ring, hring⟩ := h.ring
  obtain ⟨t', ht', hkeep⟩ := hring.eosSetAlarm call
  have hcall : s.setAlarm counter call =
      some (s.record t' s.phase (.set call.alarm call.delay)) := by
    rw [AlarmRun.setAlarm, ht']
    rfl
  have hpending : ∀ a p, setting (.set call.alarm call.delay :: s.events) a = some p →
      setting s.events a = some p ∨ triggers s.events < p.due := by
    intro a p hp
    by_cases ha : a = call.alarm
    · rw [ha, setting_set_self] at hp
      split at hp
      · cases hp
      · cases hp
        exact .inr (by simp only; omega)
    · exact .inl ((setting_set_of_ne ha).symm.trans hp)
  refine ⟨_, hcall, .setAlarm call hphase hcall, rfl, rfl, fun hfit =>
    ⟨hfit, hkeep hfit.1, fun a p hp => ?_, fun hrest a p hp => ?_,
      h.exact.cons fun a ha => by cases ha⟩⟩
  · obtain hp | hlt := hpending a p hp
    · exact h.early a p hp
    · exact hlt.le
  · obtain hp | hlt := hpending a p hp
    · exact h.rest hrest a p hp
    · exact hlt

omit [Fintype A] in
/-- The start of `eos_trigger_counter`: the tick is incremented. -/
theorem Punctual.trigger (h : Punctual counter tick s) (hphase : s.phase = .outside)
    (hfit : Fits tick (s.trigger counter).events) : Punctual counter tick (s.trigger counter) := by
  obtain ⟨ring, hring⟩ := h.ring
  refine ⟨hfit, ⟨ring, hring.incrementTick hfit.1⟩, fun a p hp => h.rest hphase a p hp,
    fun hrest => ?_, h.exact.cons fun a ha => by cases ha⟩
  cases hrest

omit [Fintype A] in
/-- The alarm that expires has a handler, and is the right one. -/
theorem Punctual.fire (h : Punctual counter tick s) {alarm : A}
    (he : expiredAlarm s.timers counter = some alarm) :
    Firing s.events alarm ∧ (s.timers.fields.handler alarm).isSome ∧
      ∃ queue, NodeLists.osRemoveNode s.timers.alarmQueue counter alarm = some queue ∧
        Punctual counter tick (s.fire counter { s.timers with alarmQueue := queue }) := by
  obtain ⟨ring, hring⟩ := h.ring
  have hfiring := hring.of_expired he h.early
  obtain ⟨p, hp, -⟩ := id hfiring
  obtain ⟨queue, hqueue, hok⟩ := hring.osRemoveNode alarm
  have hfire : s.fire counter { s.timers with alarmQueue := queue } =
      s.record { s.timers with alarmQueue := queue } .handler (.fire alarm) := by
    rw [AlarmRun.fire, he]
  have hpending : ∀ a q, setting (.fire alarm :: s.events) a = some q →
      setting s.events a = some q := by
    intro a q hq
    by_cases ha : a = alarm
    · rw [ha, setting_fire_self] at hq
      cases hq
    · exact (setting_fire_of_ne ha).symm.trans hq
  refine ⟨hfiring, (hring.armed alarm p hp).handler, queue, hqueue, ?_⟩
  rw [hfire]
  refine ⟨h.fits, ⟨_, hring.erase hok setting_fire_self (fun b hb => setting_fire_of_ne hb) rfl⟩,
    fun a q hq => h.early a q (hpending a q hq), fun hrest => ?_, h.exact.cons fun a ha => ?_⟩
  · cases hrest
  · cases ha
    exact hfiring

omit [Fintype A] in
/-- A handler returns to the loop. -/
theorem Punctual.next (h : Punctual counter tick s) :
    Punctual counter tick { s with phase := .loop } := by
  refine ⟨h.fits, h.ring, h.early, fun hrest => ?_, h.exact⟩
  cases hrest

omit [Fintype A] in
/-- The loop ends where no alarm is due. -/
theorem Punctual.finish (h : Punctual counter tick s) (he : expiredAlarm s.timers counter = none) :
    Punctual counter tick { s with phase := .outside } := by
  obtain ⟨ring, hring⟩ := h.ring
  exact ⟨h.fits, h.ring, h.early, fun _ a p hp => hring.of_not_expired he hp, h.exact⟩

/-- Events are only added. -/
theorem fits_of_step (h : AlarmStep counter s s') (hfit : Fits tick s'.events) :
    Fits tick s.events := by
  cases h with
  | setAlarm call hphase h =>
    rw [AlarmRun.setAlarm, Option.bind_eq_bind, Option.bind_eq_some_iff] at h
    obtain ⟨t, -, ht⟩ := h
    cases ht
    exact hfit.2
  | trigger => exact hfit.2
  | fire _ hexpired =>
    rw [AlarmRun.fire, hexpired] at hfit
    exact hfit
  | next => exact hfit
  | finish => exact hfit

/-- **The step lemma.** -/
theorem Punctual.step (h : Punctual counter tick s) (hstep : AlarmStep counter s s')
    (hfit : Fits tick s'.events) : Punctual counter tick s' := by
  cases hstep with
  | setAlarm call hphase hcall =>
    obtain ⟨s₁, hs₁, -, -, -, hkeep⟩ := h.setAlarm hphase call
    rw [hcall] at hs₁
    cases hs₁
    exact hkeep hfit
  | trigger hphase => exact h.trigger hphase hfit
  | fire _ hexpired hqueue _ =>
    obtain ⟨-, -, queue, hqueue', hkeep⟩ := h.fire hexpired
    rw [hqueue] at hqueue'
    cases hqueue'
    exact hkeep
  | next => exact h.next
  | finish _ hexpired => exact h.finish hexpired

/-- A run of a counter. -/
abbrev AlarmRuns (counter : Nat) : AlarmRun A F P → AlarmRun A F P → Prop :=
  Relation.ReflTransGen (AlarmStep counter)

/-- **The run lemma.** -/
theorem Punctual.runs (h : Punctual counter tick s) (hrun : AlarmRuns counter s s')
    (hfit : Fits tick s'.events) : Punctual counter tick s' := by
  induction hrun with
  | refl => exact h
  | tail _ hstep ih => exact (ih (fits_of_step hstep hfit)).step hstep hfit

/-! ## The loop ends -/

/-- A run leads to a state whose ticks do not fit. -/
def Overflows (counter tick : Nat) (s : AlarmRun A F P) : Prop :=
  ∃ s', AlarmRuns counter s s' ∧ ¬Fits tick s'.events

/-- Where a later state of a run leads to an overflow, so does an earlier one. -/
theorem Overflows.of_runs (hrun : AlarmRuns counter s s') (h : Overflows counter tick s') :
    Overflows counter tick s := by
  obtain ⟨s₁, hrun', hfit⟩ := h
  exact ⟨s₁, hrun.trans hrun', hfit⟩

/-- The calls of a handler. -/
theorem Punctual.setAlarms (h : Punctual counter tick s) (hphase : s.phase = .handler)
    (calls : List (SetAlarm A F P)) :
    (∃ s', calls.foldlM (AlarmRun.setAlarm counter) s = some s' ∧ AlarmRuns counter s s' ∧
      s'.phase = .handler ∧ Punctual counter tick s' ∧
      (dueAlarms s'.events).card ≤ (dueAlarms s.events).card) ∨ Overflows counter tick s := by
  induction calls generalizing s with
  | nil => exact .inl ⟨s, rfl, .refl, hphase, h, le_rfl⟩
  | cons call calls ih =>
    obtain ⟨s₁, hcall, hstep, hphase₁, hevents, hkeep⟩ := h.setAlarm (by simp [hphase]) call
    by_cases hfit : Fits tick s₁.events
    · obtain ⟨s', hs', hrun, hphase', hp, hcard⟩ | hover := ih (hkeep hfit) (hphase₁.trans hphase)
      · refine .inl ⟨s', ?_, .head hstep hrun, hphase', hp, hcard.trans ?_⟩
        · rw [List.foldlM_cons, hcall]
          exact hs'
        · rw [hevents]
          exact Finset.card_le_card (dueAlarms_set _ _ _)
      · exact .inr (hover.of_runs (.single hstep))
    · exact .inr ⟨s₁, .single hstep, hfit⟩

/-- **The loop of `eos_trigger_counter` ends**: with each firing there is one due alarm less. -/
theorem Punctual.triggerLoop (h : Punctual counter tick s) (hphase : s.phase = .loop)
    (script : List (Event A) → F → Option P → List (SetAlarm A F P)) {fuel : Nat}
    (hfuel : (dueAlarms s.events).card < fuel) :
    (∃ s', Model.triggerLoop AlarmRun.timers (AlarmRun.fire counter)
        (AlarmRun.callHandler counter script) counter fuel s = some s' ∧ AlarmRuns counter s s' ∧
      s'.phase = .loop ∧ expiredAlarm s'.timers counter = none) ∨ Overflows counter tick s := by
  induction fuel generalizing s with
  | zero => exact absurd hfuel (Nat.not_lt_zero _)
  | succ fuel ih =>
    unfold Model.triggerLoop
    cases he : expiredAlarm s.timers counter with
    | none => exact .inl ⟨s, rfl, .refl, hphase, he⟩
    | some alarm =>
      obtain ⟨hfiring, hhandler, queue, hqueue, hp⟩ := h.fire he
      have hstep := AlarmStep.fire hphase he hqueue hhandler
      obtain ⟨handler, hhandler⟩ := Option.isSome_iff_exists.mp hhandler
      have hfire : s.fire counter { s.timers with alarmQueue := queue } =
          s.record { s.timers with alarmQueue := queue } .handler (.fire alarm) := by
        rw [AlarmRun.fire, he]
      simp only [Option.bind_eq_bind, hqueue, Option.bind_some]
      rw [hfire] at hp hstep ⊢
      have hcard := card_dueAlarms_fire hfiring
      simp only [AlarmRun.record] at hp hstep ⊢
      rw [hhandler, Option.bind_some]
      obtain ⟨s₁, hs₁, hrun, hphase₁, hp₁, hcard₁⟩ | hover := hp.setAlarms rfl
        (script (.fire alarm :: s.events) handler (s.timers.fields.arg alarm))
      · have hnext : AlarmStep counter _ _ := .next hphase₁
        obtain ⟨s', hs', hrun', hend⟩ | hover := ih hp₁.next rfl (by simp only at hcard₁ ⊢; omega)
        · refine .inl ⟨s', ?_, .head hstep (hrun.trans (.head hnext hrun')), hend⟩
          rw [AlarmRun.callHandler, hs₁]
          exact hs'
        · exact .inr (hover.of_runs (.head hstep (hrun.tail hnext)))
      · exact .inr (hover.of_runs (.single hstep))

/-- **A trigger returns** with no alarm due any more, unless a due tick overflows. -/
theorem Punctual.triggerAlarms (h : Punctual counter tick s) (hphase : s.phase = .outside)
    (script : List (Event A) → F → Option P → List (SetAlarm A F P)) :
    (∃ s', s.triggerAlarms counter script = some s' ∧ AlarmRuns counter (s.trigger counter) s' ∧
      s'.phase = .outside ∧ expiredAlarm s'.timers counter = none) ∨
    Overflows counter tick s := by
  have hstep : AlarmStep counter s (s.trigger counter) := .trigger hphase
  by_cases hfit : Fits tick (s.trigger counter).events
  · obtain ⟨s', hs', hrun, hloop, he⟩ | hover := (h.trigger hphase hfit).triggerLoop rfl script
      (Nat.lt_succ_of_le (Finset.card_le_univ _))
    · refine .inl ⟨{ s' with phase := .outside }, ?_, hrun.tail (.finish hloop he), rfl, he⟩
      rw [AlarmRun.triggerAlarms, hs']
      rfl
    · exact .inr (hover.of_runs (.single hstep))
  · exact .inr ⟨_, .single hstep, hfit⟩

/-! ## The property -/

/-- **What alarms promise** in a state of a counter that has started at `tick`. -/
structure AlarmsExact (counter tick : Nat) (s : AlarmRun A F P) : Prop where
  /-- the queue is the ring of the pending alarms, by due tick and order of setting -/
  ring : ∃ ring, RingsOk s.timers.alarmQueue ring ∧
    (∀ a, a ∈ ring counter ↔ ∃ p, setting s.events a = some p) ∧
    (ring counter).Pairwise (InOrder s.events) ∧
    ∀ a p, setting s.events a = some p → (s.timers.fields.timeout a).toNat = tick + p.due
  /-- an alarm fires only while it is pending, in the trigger it was set for -/
  fires : ∀ es' es a, s.events = es' ++ .fire a :: es →
    ∃ p, setting es a = some p ∧ p.due = triggers es
  /-- since its latest setting it has fired at most once, and once if it is due -/
  once : ∀ es' es a timeout, s.events = es' ++ .set a timeout :: es →
    (∀ timeout, .set a timeout ∉ es') → es'.count (.fire a) ≤ 1 ∧ (timeout = 0 → .fire a ∉ es') ∧
      (s.phase = .outside → timeout ≠ 0 → timeout ≤ triggers es' → .fire a ∈ es')
  /-- alarms that fire in one trigger do so by due tick and order of setting -/
  order : ∀ es₃ b es₂ a es₁, s.events = es₃ ++ .fire b :: es₂ ++ .fire a :: es₁ →
    .trigger ∉ es₂ →
    ∃ p q, setting es₁ a = some p ∧ setting (es₂ ++ .fire a :: es₁) b = some q ∧ p.Before q
  /-- `eos_set_alarm` returns -/
  setAlarm : ∀ call, s.phase ≠ .loop → ∃ s', s.setAlarm counter call = some s'
  /-- the loop calls a handler with each alarm it takes out -/
  fire : ∀ a, s.phase = .loop → expiredAlarm s.timers counter = some a →
    ∃ s', AlarmStep counter s s' ∧ s'.events = .fire a :: s.events
  /-- `eos_trigger_counter` counts and returns with no alarm due, unless a due tick overflows -/
  trigger : s.phase = .outside → ∀ script, (∃ s', s.triggerAlarms counter script = some s' ∧
    AlarmRuns counter (s.trigger counter) s' ∧ s'.phase = .outside ∧
    expiredAlarm s'.timers counter = none) ∨ Overflows counter tick s

/-- **Alarm exactness**, for any calls of `eos_set_alarm` by tasks and handlers, and any number of
triggers. -/
theorem alarms_exact {s₀ : AlarmRun A F P} (hinit : InitialAlarms counter tick s₀)
    (hrun : AlarmRuns counter s₀ s) (hfit : Fits tick s.events) : AlarmsExact counter tick s := by
  have h := hinit.punctual.runs hrun hfit
  obtain ⟨ring, hring⟩ := h.ring
  constructor
  · exact ⟨ring, hring.rings, hring.mem, hring.sorted, fun a p hp => (hring.armed a p hp).timeout⟩
  · intro es' es a hes
    obtain ⟨p, hp, hdue, -⟩ := h.exact es' es a hes
    exact ⟨p, hp, hdue⟩
  · intro es' es a timeout hes hset
    have hexact := h.exact
    rw [hes] at hexact
    obtain ⟨hone, hzero, -⟩ := hexact.count_fire hset
    refine ⟨hone, hzero, fun hphase hne hle => ?_⟩
    by_contra hfire
    have hpending : setting s.events a = some ⟨triggers es + timeout, es.length⟩ := by
      rw [hes, setting_append hset hfire, setting_set_self, if_neg hne]
    have hlt := h.rest hphase a _ hpending
    rw [hes, triggers_append] at hlt
    simp only [triggers] at hlt
    omega
  · intro es₃ b es₂ a es₁ hes ht
    exact Exact.firing_order (hes ▸ h.exact) ht
  · intro call hphase
    obtain ⟨s', hs', -⟩ := h.setAlarm hphase call
    exact ⟨s', hs'⟩
  · intro a hphase he
    obtain ⟨-, hhandler, queue, hqueue, -⟩ := h.fire he
    refine ⟨_, .fire hphase he hqueue hhandler, ?_⟩
    rw [AlarmRun.fire, he]
    rfl
  · exact fun hphase script => h.triggerAlarms hphase script

/-- A counter at tick 5 with two alarms, which are not set. -/
def counterAtFive : AlarmRun (Fin 2) Unit Unit :=
  ⟨⟨LinkMem.empty, ⟨fun _ => 5, fun _ => 0, fun _ => none, fun _ => none, fun _ => none,
    fun _ => 0⟩⟩, .outside, []⟩

/-- Both alarms are set with timeout 1, and fire in the next trigger in the order of their settings;
the handler of the first one sets it again, so that it fires in the trigger behind that. -/
theorem alarms_exact_tie :
    ∃ s, s.events = [.fire 0, .trigger, .fire 1, .set 0 1, .fire 0, .trigger, .set 1 1, .set 0 1] ∧
      AlarmsExact 0 5 (s : AlarmRun (Fin 2) Unit Unit) := by
  have hset : AlarmRuns 0 counterAtFive _ := .tail (.single
    (.setAlarm ⟨0, 1, some (), none⟩ (by decide) rfl))
    (.setAlarm ⟨1, 1, some (), none⟩ (by decide) rfl)
  have hfirst : AlarmRuns 0 counterAtFive _ := ((hset.tail (.trigger rfl)).tail
    (.fire rfl rfl rfl rfl)).tail (.setAlarm ⟨0, 1, some (), none⟩ (by decide) rfl)
  have hsecond : AlarmRuns 0 counterAtFive _ := ((hfirst.tail (.next rfl)).tail
    (.fire rfl rfl rfl rfl)).tail (.next rfl)
  have hagain : AlarmRuns 0 counterAtFive _ := ((hsecond.tail (.finish rfl rfl)).tail
    (.trigger rfl)).tail (.fire rfl rfl rfl rfl)
  refine ⟨_, rfl, alarms_exact ⟨RingsOk.empty, rfl, rfl, rfl⟩ hagain ?_⟩
  -- the second trigger and the two settings of the first alarm, read at tick 6 and at tick 5
  have hlate : 5 + 1 + 1 < 2 ^ 32 := by omega
  have hearly : 5 + 0 + 1 < 2 ^ 32 := by omega
  exact ⟨hlate, hlate, hearly, hearly, hearly, trivial⟩

end Eos.Analysis
