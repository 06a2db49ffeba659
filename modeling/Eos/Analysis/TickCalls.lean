import Eos.Analysis.Runs
import Eos.Interface.Refinement

/-!
# The states a tick goes through

`TickState k s` says that the loop of `eos_trigger_counter` (core/timer.c:75-88), started
from kernel `k`, comes to its head in state `s`; `popAlarm s` is the alarm it takes there
and the state in which the handler of this alarm is called.

A ready task that is the first of its ready queue and still has a wait queue owner has
no result in `_os_wakeup_from_alarm_queue`: the pointer code follows a `NULL` link.  Up to
such a call the states of the loop represent sequences that keep the invariant `Ticking`.
-/

set_option autoImplicit false

namespace Eos.Analysis

open Eos.Lib (LinkMem RingsOk)
open Eos.Model
open Eos.Interface (Rings Linked Repr osRemoveNode_refines)

/-! ## The loop -/

section Loop

variable {Q : Type → Type → Type} [NodeLists Q] {T : Type} [DecidableEq T]

/-- The alarm the loop takes next, and the state after it has left the alarm queue. -/
def popAlarm (k : Kernel Q T) : Option (T × Kernel Q T) := do
  let alarm ← expiredAlarm k.timers systemTimer
  let queue ← NodeLists.osRemoveNode k.timers.alarmQueue systemTimer alarm
  return (alarm, k.setTimers { k.timers with alarmQueue := queue })

/-- The states at the head of the loop of a tick of `k`. -/
inductive TickState (k : Kernel Q T) : Kernel Q T → Prop
  | start : TickState k (k.setTimers (incrementTick k.timers systemTimer))
  | call {s s' b : Kernel Q T} {alarm : T} {handler : Handler} : TickState k s →
      popAlarm s = some (alarm, s') → s'.timers.fields.handler alarm = some handler →
      s'.callHandler handler (s'.timers.fields.arg alarm) = some b → TickState k b

/-- The loop ends in a state at its head, where no alarm is due. -/
theorem triggerLoop_tickState {k s b : Kernel Q T} {fuel : Nat} (h : TickState k s)
    (hb : triggerLoop Kernel.timers Kernel.setTimers Kernel.callHandler systemTimer fuel s =
      some b) : TickState k b ∧ expiredAlarm b.timers systemTimer = none := by
  refine triggerLoop_invariant ?_ h hb
  rintro s _ s' alarm queue handler hs he hq rfl hh hs'
  refine .call hs ?_ hh hs'
  simp only [popAlarm, he, hq, Option.bind_eq_bind, Option.bind_some]
  rfl

end Loop

/-! ## The invariant over sequences -/

section Invariant

variable {T : Type} [DecidableEq T] {idle t : T} {a₀ a b : Kernel Rings T}

/-- What holds of a state `a` in the loop of a tick of `a₀`. -/
structure Ticking (idle : T) (a₀ a : Kernel Rings T) : Prop extends Consistent a where
  idleRuns : a.status idle = .ready ∨ a.status idle = .running
  runs : ∀ t, a.status t = .running → a.vars.currentTask = some t
  current : a.vars.currentTask = a₀.vars.currentTask
  stays : ∀ q u, ¬Pending a₀.timers u → u ∈ a₀.queue.ring (.wait q) → u ∈ a.queue.ring (.wait q)
  pending : ∀ u, Pending a.timers u → Pending a₀.timers u

omit [DecidableEq T] in
/-- A tick begins. -/
theorem Scheduled.ticking (h : Scheduled idle a) :
    Ticking idle a (a.setTimers (incrementTick a.timers systemTimer)) :=
  ⟨h.toConsistent.setTimers h.alarms.incrementTick_ok fun _ => id, h.idleRuns, h.runs, rfl,
    fun _ _ _ => id, fun _ => id⟩

/-- The state in which the handler is called for task `t`. -/
abbrev popped (a : Kernel Rings T) (t : T) : Kernel Rings T :=
  a.setTimers (dropAlarm a.timers t)

omit [DecidableEq T] in
/-- An alarm that is taken is pending. -/
theorem pending_of_expired (h : AlarmsOk a.timers)
    (he : expiredAlarm a.timers systemTimer = some t) : Pending a.timers t := by
  obtain ⟨rest, hrest⟩ := h.expiredAlarm_eq_some he
  exact ⟨systemTimer, by rw [hrest]; exact List.mem_cons_self⟩

/-- The state in which a handler is called is consistent; the alarm of the task is not pending
any more, but what its queue node needed while it was still holds. -/
theorem popped_consistent (h : Consistent a) (he : expiredAlarm a.timers systemTimer = some t) :
    Consistent (popped a t) ∧ ¬Pending (popped a t).timers t ∧ a.status t ≠ .zeroed ∧
      (a.status t ≠ .waiting → a.waitQueueOwner t ≠ none) := by
  have hp := pending_of_expired h.alarms he
  refine ⟨h.setTimers h.alarms.dropAlarm_ok fun u hu => (h.alarms.pending_dropAlarm.mp hu).1,
    fun hc => (h.alarms.pending_dropAlarm.mp hc).2 rfl, (h.placed t).created hp,
    fun hw => h.owner_of_pending hw hp⟩

/-- **A call of the handler** has a result, in which only this task has moved, unless the task
is ready and the first of its ready queue. -/
theorem handler_moved (h : Consistent a) (he : expiredAlarm a.timers systemTimer = some t)
    (hfst : a.status t = .ready → (a.queue.ring (.ready (a.priority t))).head? ≠ some t) :
    ∃ b, (popped a t).osWakeupFromAlarmQueue (some t) = some b ∧ Moved (popped a t) b t ∧
      b.status t = .ready ∧ b.timers = (popped a t).timers := by
  obtain ⟨hc, hnp, hz, ho⟩ := popped_consistent h he
  by_cases hs : a.status t = .ready
  · obtain ⟨b, hb, hm, hst, htm, -, -⟩ :=
      wakeup_ready_moved hc hs (ho (by simp [hs])) hnp (hfst hs)
    exact ⟨b, hb, hm, hst, htm⟩
  · obtain ⟨b, hb, hm, hst, htm, -⟩ := wakeup_moved hc hs hz hnp
    exact ⟨b, hb, hm, hst, htm⟩

/-- One call of a handler keeps the invariant. -/
theorem Ticking.handler (h : Ticking idle a₀ a)
    (he : expiredAlarm a.timers systemTimer = some t)
    (hfst : a.status t = .ready → (a.queue.ring (.ready (a.priority t))).head? ≠ some t) :
    ∃ b, (popped a t).osWakeupFromAlarmQueue (some t) = some b ∧ Ticking idle a₀ b := by
  obtain ⟨b, hb, hm, hst, htm⟩ := handler_moved h.toConsistent he hfst
  refine ⟨b, hb, hm.consistent, ?_, fun u hu => ?_, hm.currentTask.trans h.current,
    fun q u hu hq => ?_, fun u hu => ?_⟩
  · by_cases hi : idle = t
    · exact Or.inl (hi ▸ hst)
    · rw [hm.status hi]
      exact h.idleRuns
  · have hut : u ≠ t := fun e => by rw [e, hst] at hu; cases hu
    rw [hm.status hut] at hu
    exact hm.currentTask.trans (h.runs u hu)
  · have hut : u ≠ t := fun e => hu (h.pending u (e ▸ pending_of_expired h.alarms he))
    exact (hm.wait u hut q).mpr (h.stays q u hu hq)
  · rw [htm] at hu
    exact h.pending u (h.alarms.pending_dropAlarm.mp hu).1

end Invariant

/-! ## What a tick may find due -/

section Due

variable {T : Type} [DecidableEq T]

/-- A tick finds the alarm of a ready task due only if the task still has a wait queue owner and is
not the first one of its ready queue.  Without an owner the handler would link its node a second
time; of the first task it would leave a head cell without links behind. -/
def DueInOrder (k : Kernel LinkMem T) : Prop :=
  ∀ t, k.timers.alarmQueue.next t ≠ none → k.timers.fields.timeout t ≤ k.tick + 1 →
    k.status t = .ready →
      k.waitQueueOwner t ≠ none ∧ k.head (.ready (k.priority t)) ≠ some t

instance [Fintype T] (k : Kernel LinkMem T) : Decidable (DueInOrder k) :=
  inferInstanceAs (Decidable (∀ _, _ → _ → _ → _ ∧ _))

/-- The same over sequences, in the loop of a tick. -/
def DueOk (a : Kernel Rings T) : Prop :=
  ∀ t, Pending a.timers t → a.timers.fields.timeout t ≤ a.tick → a.status t = .ready →
    a.waitQueueOwner t ≠ none ∧ (a.queue.ring (.ready (a.priority t))).head? ≠ some t

omit [DecidableEq T] in
/-- The loop starts with the alarms in order if the kernel was. -/
theorem DueInOrder.dueOk {k : Kernel LinkMem T} {a : Kernel Rings T} (hr : Repr k a)
    (h : DueInOrder k) : DueOk (a.setTimers (incrementTick a.timers systemTimer)) := by
  intro t hp hdue hs
  have hnext : k.timers.alarmQueue.next t ≠ none := by
    obtain ⟨n, ht⟩ := hp
    exact fun hnone => hr.alarms.next_eq_none_iff.mp hnone n ht
  have htick : (a.setTimers (incrementTick a.timers systemTimer)).tick = a.tick + 1 := by
    simp only [Kernel.tick, Kernel.setTimers_timers, incrementTick, Function.update_self]
  rw [htick] at hdue
  obtain ⟨ho, hhead⟩ := h t hnext (by rw [hr.fields, hr.tick]; exact hdue)
    ((hr.status t).trans hs)
  rw [hr.waitQueueOwner] at ho
  rw [hr.priority, hr.head] at hhead
  exact ⟨ho, hhead⟩

end Due

/-! ## The pointer code -/

section Pointers

variable {T : Type} [DecidableEq T] {idle t : T} {k s b : Kernel LinkMem T}
  {a₀ a : Kernel Rings T}

omit [DecidableEq T] in
/-- Removing a linked node clears its links and leaves every other head cell alone. -/
theorem osRemoveNode_clears {H N : Type} [DecidableEq H] [DecidableEq N] {m : LinkMem H N}
    {n next prev : N} (hn : m.next n = some next) (hp : m.prev n = some prev) (h : H) :
    (osRemoveNode m h n).1.prev n = none ∧
      ∀ h' ≠ h, (osRemoveNode m h n).1.head h' = m.head h' := by
  simp only [osRemoveNode, hn, hp]
  refine ⟨by simp, fun h' hh => ?_⟩
  split
  · simp [hh]
  · split <;> simp [hh]

omit [DecidableEq T] in
/-- A node cannot be added behind a first node that is itself and has no links. -/
theorem osAddNodeTail_none {H N : Type} [DecidableEq H] [DecidableEq N] {m : LinkMem H N}
    {h : H} {n : N} (hh : m.head h = some n) (hp : m.prev n = none) :
    Model.osAddNodeTail m h n = none := by
  simp [Model.osAddNodeTail, hh, linkBefore, hp]

/-- **The handler follows a `NULL` link** for a ready task that is the first of its ready queue
and has a wait queue owner. -/
theorem wakeup_first_pointers (hr : Repr k a)
    (hmem : t ∈ a.queue.ring (.ready (a.priority t))) (ho : a.waitQueueOwner t ≠ none)
    (hfst : (a.queue.ring (.ready (a.priority t))).head? = some t) :
    k.osWakeupFromAlarmQueue (some t) = none := by
  obtain ⟨q, hq⟩ := Option.ne_none_iff_exists'.mp ho
  obtain ⟨⟨next, -, hnext⟩, prev, -, hprev⟩ := (hr.queue.isRing _).links hmem
  obtain ⟨hnp, hnh⟩ := osRemoveNode_clears hnext hprev (.wait q)
  have hhead := (hnh (.ready (a.priority t)) (by simp)).trans ((hr.queue.head _).trans hfst)
  have hnone := osAddNodeTail_none hhead hnp
  have hrm : k.leaveWaitQueue t =
      some ((k.setQueue (osRemoveNode k.queue (.wait q) t).1).setOwner t none) := by
    simp only [Kernel.leaveWaitQueue, hr.waitQueueOwner, hq]
    rfl
  have hpr : ((k.setQueue (osRemoveNode k.queue (.wait q) t).1).setOwner t none).priority t =
      a.priority t := by simp [hr.priority]
  have hadd : ((k.setQueue (osRemoveNode k.queue (.wait q) t).1).setOwner t none).addReady t =
      none := by
    simp only [Kernel.addReady, hpr, Kernel.addNodeTail]
    show (do let k' ← (do return Kernel.setQueue _ (← Model.osAddNodeTail _ _ _)); _) = none
    rw [Kernel.setOwner_queue, Kernel.setQueue_queue, hnone]
    rfl
  simp only [Kernel.osWakeupFromAlarmQueue, Option.bind_eq_bind, Option.bind_some, hrm, hadd,
    Option.bind_none]

/-- The loop takes the same alarm on both representations, with the same handler. -/
theorem popAlarm_repr (hr : Repr s a) (h : AlarmsOk a.timers) {t : T} {s' : Kernel LinkMem T}
    (hp : popAlarm s = some (t, s')) :
    expiredAlarm a.timers systemTimer = some t ∧ Repr s' (popped a t) ∧
      s'.timers.fields.handler t = some .osWakeupFromAlarmQueue ∧
      s'.timers.fields.arg t = some t := by
  obtain ⟨alarm, he, hp⟩ := Option.bind_eq_some_iff.mp hp
  obtain ⟨queue, hq, hp⟩ := Option.bind_eq_some_iff.mp hp
  obtain ⟨rfl, rfl⟩ : alarm = t ∧ _ = s' := by simpa using hp
  rw [hr.expiredAlarm] at he
  obtain ⟨queue', hq', hok⟩ := osRemoveNode_refines hr.alarms _ (h.osRemoveNode_eq (t := alarm))
  obtain rfl : queue = queue' := Option.some.inj (hq.symm.trans hq')
  have hpend := pending_of_expired h he
  refine ⟨he, hr.withTimers hr.fields hok, ?_, ?_⟩
  · show s.timers.fields.handler alarm = _
    rw [hr.fields, h.handler _ hpend]
  · show s.timers.fields.arg alarm = _
    rw [hr.fields, h.arg _ hpend]

/-- One round of the loop, on sequences: the handler of the first alarm is called for its task. -/
theorem triggerLoop_round (hr : Repr s a) (h : AlarmsOk a.timers) {b : Kernel LinkMem T}
    {fuel : Nat} (hb : triggerLoop Kernel.timers Kernel.setTimers Kernel.callHandler systemTimer
      (fuel + 1) s = some b) :
    expiredAlarm a.timers systemTimer = none ∧ s = b ∨
      ∃ t s' c, expiredAlarm a.timers systemTimer = some t ∧ Repr s' (popped a t) ∧
        s'.osWakeupFromAlarmQueue (some t) = some c ∧
        triggerLoop Kernel.timers Kernel.setTimers Kernel.callHandler systemTimer fuel c =
          some b := by
  rw [triggerLoop, hr.expiredAlarm] at hb
  cases he : expiredAlarm a.timers systemTimer with
  | none =>
    rw [he] at hb
    exact .inl ⟨rfl, Option.some.inj hb⟩
  | some t =>
    rw [he] at hb
    obtain ⟨queue, hq, hb⟩ := Option.bind_eq_some_iff.mp hb
    obtain ⟨handler, hh, hb⟩ := Option.bind_eq_some_iff.mp hb
    obtain ⟨c, hc, hend⟩ := Option.bind_eq_some_iff.mp hb
    have hpop : popAlarm s = some (t, s.setTimers { s.timers with alarmQueue := queue }) := by
      simp only [popAlarm, hr.expiredAlarm, he, hq, Option.bind_eq_bind, Option.bind_some]
      rfl
    obtain ⟨-, hrp, hhp, harg⟩ := popAlarm_repr hr h hpop
    rw [hhp, Option.some.injEq] at hh
    subst hh
    rw [harg] at hc
    exact .inr ⟨t, _, c, rfl, hrp, hc, hend⟩

/-- **The states of a tick** represent sequences with the invariant of the loop. -/
theorem TickState.ticking (hr : Repr k a₀) (h : Scheduled idle a₀) (hs : TickState k s) :
    ∃ a, Repr s a ∧ Ticking idle a₀ a := by
  induction hs with
  | start =>
    exact ⟨a₀.setTimers (incrementTick a₀.timers systemTimer),
      hr.withTimers (by simp only [incrementTick, hr.fields]) hr.alarms, h.ticking⟩
  | @call s s' b alarm handler _ hpop hh hb ih =>
    obtain ⟨a, hra, ha⟩ := ih
    obtain ⟨he, hrp, hhp, harg⟩ := popAlarm_repr hra ha.alarms hpop
    rw [hhp, Option.some.injEq] at hh
    subst hh
    rw [harg] at hb
    by_cases hfst : a.status alarm = .ready ∧
        (a.queue.ring (.ready (a.priority alarm))).head? = some alarm
    · obtain ⟨hc, -, -, ho⟩ := popped_consistent ha.toConsistent he
      cases (wakeup_first_pointers hrp (hc.mem_ready hfst.1) (ho (by simp [hfst.1]))
        hfst.2).symm.trans hb
    · obtain ⟨b', hb', hbt⟩ := ha.handler he fun hs hf => hfst ⟨hs, hf⟩
      obtain ⟨c, hc, hrc⟩ := hrp.osWakeupFromAlarmQueue _ b' hb'
      obtain rfl : c = b := Option.some.inj (hc.symm.trans hb)
      exact ⟨b', hrc, hbt⟩

/-- The loop over sequences has a result where the pointer code has one, and keeps what every call
of the handler keeps. -/
theorem triggerLoop_simulates {I : Kernel Rings T → Prop}
    (hI : ∀ a t b, Consistent a → expiredAlarm a.timers systemTimer = some t →
      Moved (popped a t) b t → b.status t = .ready → b.timers = (popped a t).timers → I a → I b)
    (hr : Repr s a) (h : Ticking idle a₀ a) (hi : I a) {fuel : Nat}
    (hb : triggerLoop Kernel.timers Kernel.setTimers Kernel.callHandler systemTimer fuel s =
      some b) :
    ∃ b', triggerLoop Kernel.timers Kernel.setTimers Kernel.callHandler systemTimer fuel a =
      some b' ∧ Repr b b' ∧ Ticking idle a₀ b' ∧ I b' := by
  induction fuel generalizing s a with
  | zero => cases hb
  | succ fuel ih =>
    rw [triggerLoop]
    obtain ⟨he, rfl⟩ | ⟨t, s', c, he, hrp, hc, hb⟩ := triggerLoop_round hr h.alarms hb
    · exact ⟨a, by rw [he], hr, h, hi⟩
    · rw [he]
      by_cases hfst : a.status t = .ready ∧ (a.queue.ring (.ready (a.priority t))).head? = some t
      · obtain ⟨hcons, -, -, ho⟩ := popped_consistent h.toConsistent he
        cases (wakeup_first_pointers hrp (hcons.mem_ready hfst.1) (ho (by simp [hfst.1]))
          hfst.2).symm.trans hc
      · have hnot : a.status t = .ready → (a.queue.ring (.ready (a.priority t))).head? ≠ some t :=
          fun hs hf => hfst ⟨hs, hf⟩
        obtain ⟨c', hc', ht⟩ := h.handler he hnot
        obtain ⟨c₁, hc₁, hmv, hst, htm⟩ := handler_moved h.toConsistent he hnot
        obtain rfl : c₁ = c' := Option.some.inj (hc₁.symm.trans hc')
        obtain ⟨c'', hc'', hrc⟩ := hrp.osWakeupFromAlarmQueue _ c₁ hc'
        obtain rfl : c'' = c := Option.some.inj (hc''.symm.trans hc)
        obtain ⟨b', hb', hend⟩ := ih hrc ht (hI a t c₁ h.toConsistent he hmv hst htm hi) hb
        refine ⟨b', ?_, hend⟩
        have hpend := pending_of_expired h.alarms he
        simp only [h.alarms.osRemoveNode_eq, Option.bind_eq_bind, Option.bind_some]
        show ((popped a t).timers.fields.handler t).bind _ = _
        rw [show (popped a t).timers.fields.handler t = _ from h.alarms.handler t hpend]
        show ((popped a t).osWakeupFromAlarmQueue ((popped a t).timers.fields.arg t)).bind _ = _
        rw [show (popped a t).timers.fields.arg t = _ from h.alarms.arg t hpend, hc']
        exact hb'

variable [Fintype T]

/-- The same for the part of `eos_trigger_counter` before its `eos_schedule`. -/
theorem triggerAlarms_simulates {I : Kernel Rings T → Prop}
    (hI : ∀ a t b, Consistent a → expiredAlarm a.timers systemTimer = some t →
      Moved (popped a t) b t → b.status t = .ready → b.timers = (popped a t).timers → I a → I b)
    (hr : Repr k a) (h : Scheduled idle a)
    (hi : I (a.setTimers (incrementTick a.timers systemTimer))) (hb : k.triggerAlarms = some b) :
    ∃ b', a.triggerAlarms = some b' ∧ Repr b b' ∧ Ticking idle a b' ∧ I b' := by
  have hr' : Repr (k.setTimers (incrementTick k.timers systemTimer))
      (a.setTimers (incrementTick a.timers systemTimer)) :=
    hr.withTimers (by simp only [incrementTick, hr.fields]) hr.alarms
  exact triggerLoop_simulates hI hr' h.ticking hi hb

/-- **A tick** that has a result has one over sequences, keeps the invariant and leaves the waiting
tasks without an alarm where they are (core/timer.c:60-92). -/
theorem tick_simulates (hr : Repr k a) (h : Scheduled idle a)
    (hb : k.eosTriggerCounter = some b) :
    ∃ b', a.eosTriggerCounter = some b' ∧ Repr b b' ∧ Advance idle none a b' := by
  obtain ⟨m, hm, hb⟩ := Option.bind_eq_some_iff.mp hb
  obtain ⟨m', hm', hrm, ht, -⟩ := triggerAlarms_simulates (I := fun _ => True)
    (fun _ _ _ _ _ _ _ _ => id) hr h trivial hm
  obtain ⟨b', hb', hsb, -, hwb, htb, -⟩ :=
    Scheduled.reschedule ht.toConsistent ht.idleRuns ht.runs
  obtain ⟨c, hc, hrc⟩ := hrm.eosSchedule b' hb'
  rw [hb, Option.some.injEq] at hc
  refine ⟨b', ?_, hc ▸ hrc, hsb, fun q u _ hu hq => hwb q ▸ ht.stays q u hu hq,
    fun u hu => Or.inl (ht.pending u (htb ▸ hu))⟩
  simp only [Kernel.eosTriggerCounter, hm', Option.bind_eq_bind, Option.bind_some, hb']

end Pointers

end Eos.Analysis
