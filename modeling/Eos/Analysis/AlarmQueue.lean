import Eos.Analysis.SyncRuns
import Eos.Analysis.Timeless

/-!
# The alarm queue in memory

`Timed` says that the alarms of the system timer are queued with their due ticks as keys.  A call of
the kernel sets at most one alarm, with a timeout that depends on its arguments (`call_sets`); so
what `eos_set_alarm` keeps, every call keeps.
-/

set_option autoImplicit false

namespace Eos.Analysis

open Eos.Lib (LinkMem RingsOk Reach)
open Eos.Model
open Eos.Interface

/-! ## The queue -/

section Queue

variable {A F P : Type} [DecidableEq A]

/-- The alarms of the system timer are queued with their due ticks as keys. -/
structure Timed (t : Timers LinkMem A F P) (ring : Nat → List A) : Prop where
  rings : RingsOk t.alarmQueue ring
  other : ∀ counter, counter ≠ systemTimer → ring counter = []
  pnode : ∀ a ∈ ring systemTimer, t.fields.pnode a = some a
  orderVal : ∀ a ∈ ring systemTimer, t.fields.orderVal a = (t.fields.timeout a).toNat

variable {t : Timers LinkMem A F P} {ring : Nat → List A} {a : A}

omit [DecidableEq A] in
/-- An alarm is pending if and only if its links are not `NULL`. -/
theorem Timed.mem_iff (h : Timed t ring) : a ∈ ring systemTimer ↔ t.alarmQueue.next a ≠ none := by
  rw [ne_eq, h.rings.next_eq_none_iff, not_forall_not]
  constructor
  · exact fun ha => ⟨_, ha⟩
  · rintro ⟨counter, ha⟩
    by_cases hc : counter = systemTimer
    · exact hc ▸ ha
    · rw [h.other counter hc] at ha
      cases ha

/-- An alarm is taken out of the queue, if it is in it. -/
theorem Timed.remove (h : Timed t ring) (a : A) :
    Timed { t with alarmQueue := (osRemoveNode t.alarmQueue systemTimer a).1 }
      (Function.update ring systemTimer ((ring systemTimer).erase a)) := by
  refine ⟨osRemoveNode_only h.rings h.other a, fun counter hc => ?_, fun b hb => ?_, fun b hb => ?_⟩
  · rw [Function.update_of_ne hc, h.other counter hc]
  · rw [Function.update_self] at hb
    exact h.pnode b (List.mem_of_mem_erase hb)
  · rw [Function.update_self] at hb
    exact h.orderVal b (List.mem_of_mem_erase hb)

/-- The fields of an alarm that is set for `timeout` ticks from now. -/
structure SetFor (t t' : Timers LinkMem A F P) (a : A) (timeout : UInt32) : Prop where
  tick : t'.fields.tick = t.fields.tick
  timeout : t'.fields.timeout =
    Function.update t.fields.timeout a (t.fields.tick systemTimer + timeout)

/-- **`eos_set_alarm` keeps the queue**: the alarm is taken out, and comes to its place again unless
it is cancelled. -/
theorem Timed.eosSetAlarm_cases [Fintype A] (h : Timed t ring) {timeout : UInt32} {entry : Option F}
    {arg : Option P} {t' : Timers LinkMem A F P}
    (ht : Model.eosSetAlarm t systemTimer a timeout entry arg = some t') :
    (t'.fields = t.fields ∧
      Timed t' (Function.update ring systemTimer ((ring systemTimer).erase a))) ∨
    ¬(timeout = 0 ∨ entry.isNone) ∧ SetFor t t' a timeout ∧
      Timed t' (Function.update ring systemTimer
        (insertOrdered t'.fields.orderVal a ((ring systemTimer).erase a))) := by
  have hr := h.remove a
  unfold Model.eosSetAlarm at ht
  obtain ⟨m, hm, ht⟩ := Option.bind_eq_some_iff.mp ht
  cases hm
  by_cases hc : timeout = 0 ∨ entry.isNone
  · rw [if_pos hc] at ht
    cases ht
    exact .inl ⟨rfl, hr⟩
  · rw [if_neg hc] at ht
    obtain ⟨m', hm', ht⟩ := Option.bind_eq_some_iff.mp ht
    cases ht
    have hfree : ∀ counter, a ∉ Function.update ring systemTimer ((ring systemTimer).erase a)
        counter := by
      intro counter ha
      by_cases hcc : counter = systemTimer
      · subst hcc
        rw [Function.update_self] at ha
        exact (h.rings.nodup systemTimer).not_mem_erase ha
      · rw [hr.other counter hcc] at ha
        cases ha
    obtain ⟨m'', hm'', hok⟩ := osAddNodeOrdered_free (h := systemTimer) hr.rings hfree
      (Function.update t.fields.orderVal a (t.fields.tick systemTimer + timeout).toNat)
    obtain rfl : m'' = m' := Option.some.inj (hm''.symm.trans hm')
    rw [Function.update_self, Function.update_idem] at hok
    refine .inr ⟨hc, ⟨rfl, rfl⟩, hok, fun counter hcc => ?_, fun b hb => ?_, fun b hb => ?_⟩
    · rw [Function.update_of_ne hcc, h.other counter hcc]
    · rw [Function.update_self, mem_insertOrdered] at hb
      by_cases hba : b = a
      · simp [hba]
      · simpa [hba] using h.pnode b (List.mem_of_mem_erase (hb.resolve_left hba))
    · rw [Function.update_self, mem_insertOrdered] at hb
      by_cases hba : b = a
      · simp [hba]
      · simpa [hba] using h.orderVal b (List.mem_of_mem_erase (hb.resolve_left hba))

/-- `eos_set_alarm` keeps the queue well formed. -/
theorem Timed.eosSetAlarm [Fintype A] (h : Timed t ring) {timeout : UInt32} {entry : Option F}
    {arg : Option P} {t' : Timers LinkMem A F P}
    (ht : Model.eosSetAlarm t systemTimer a timeout entry arg = some t') :
    ∃ ring', Timed t' ring' := by
  obtain ⟨-, ht⟩ | ⟨-, -, ht⟩ := h.eosSetAlarm_cases ht
  · exact ⟨_, ht⟩
  · exact ⟨_, ht⟩

end Queue

/-! ## The alarm of a call -/

section Sets

variable {Q : Type → Type → Type} [NodeLists Q] {T : Type} [DecidableEq T] [Fintype T]
  {k k' : Kernel Q T} {d : UInt32 → Prop}

/-- The timers are left alone, or one alarm is set, with a timeout that satisfies `d`. -/
def SetsAlarm (d : UInt32 → Prop) (m m' : Timers Q T Handler T) : Prop :=
  m' = m ∨
    ∃ a timeout entry arg, d timeout ∧ eosSetAlarm m systemTimer a timeout entry arg = some m'

/-- A task sets its own alarm. -/
theorem setAlarm_sets {t : T} {timeout : UInt32} {entry : Option Handler} {arg : Option T}
    (hk : k.setAlarm t timeout entry arg = some k') (hd : d timeout) :
    SetsAlarm d k.timers k'.timers := by
  obtain ⟨m, hm, hk⟩ := Option.bind_eq_some_iff.mp hk
  cases hk
  exact .inr ⟨t, timeout, entry, arg, hd, hm⟩

/-- The end of `eos_sleep` sets the alarm of the caller. -/
theorem sleepFor_sets {t : T} {timeout : UInt32} (hk : k.sleepFor t timeout = some k')
    (hd : d timeout) : SetsAlarm d k.timers k'.timers := by
  obtain ⟨k₁, hk₁, hk⟩ := Option.bind_eq_some_iff.mp hk
  have ht := eosSchedule_timeless.timers (k₁.setStatus t .waiting) k' hk
  rw [ht]
  exact (setAlarm_sets hk₁ hd :)

/-- `eos_sleep` sets an alarm for its argument, or for the time to the next period. -/
theorem eosSleep_sets {tick : UInt32} (hk : k.eosSleep tick = some k') (hd : d tick)
    (hperiod : ∀ w, k.tick < w → d (w - k.tick)) : SetsAlarm d k.timers k'.timers := by
  unfold Kernel.eosSleep at hk
  split at hk
  · cases hk
    exact .inl rfl
  obtain ⟨t, -, hk⟩ := Option.bind_eq_some_iff.mp hk
  split at hk
  · simp only at hk
    split at hk
    · cases hk
      exact .inl rfl
    · next hlt => exact sleepFor_sets (k := k.setTcb t _) hk (hperiod _ (UInt32.not_le.mp hlt))
  · exact sleepFor_sets hk hd

/-- `eos_acquire_semaphore` sets an alarm for its timeout, if it has to wait. -/
theorem acquire_sets {s : Nat} {timeout : Int32} {r : CallResult}
    (hk : k.eosAcquireSemaphore s timeout = some (r, k'))
    (hd : k.count s ≤ 0 → ¬timeout < 0 → d timeout.toUInt32) : SetsAlarm d k.timers k'.timers := by
  unfold Kernel.eosAcquireSemaphore at hk
  split at hk
  · cases hk
    exact .inl rfl
  simp only at hk
  split at hk
  · next hcount =>
    split at hk
    · cases hk
      exact .inl rfl
    · next hneg =>
      obtain ⟨t, -, hk⟩ := Option.bind_eq_some_iff.mp hk
      obtain ⟨k₁, hk₁, hk⟩ := Option.bind_eq_some_iff.mp hk
      obtain ⟨k₂, hk₂, hk⟩ := Option.bind_eq_some_iff.mp hk
      cases hk
      have ht := (waitSemaphore_timeless s).timers _ _ hk₂
      rw [ht]
      exact setAlarm_sets hk₁ (hd hcount hneg)
  · cases hk
    exact .inl rfl

/-- The alarm is only cancelled when the call goes on. -/
theorem retry_sets {s : Nat} {timeout : Int32} {absTimeout : UInt32} {r : CallResult}
    (hk : k.acquireRetry s timeout absTimeout = some (r, k')) (hd : d 0) :
    SetsAlarm d k.timers k'.timers := by
  unfold Kernel.acquireRetry at hk
  split at hk
  · cases hk
    exact .inl rfl
  split at hk
  · obtain ⟨k₁, hk₁, hk⟩ := Option.bind_eq_some_iff.mp hk
    cases hk
    exact .inl ((waitSemaphore_timeless s).timers _ _ hk₁)
  · obtain ⟨t, -, hk⟩ := Option.bind_eq_some_iff.mp hk
    obtain ⟨k₁, hk₁, hk⟩ := Option.bind_eq_some_iff.mp hk
    cases hk
    exact (setAlarm_sets hk₁ hd :)

/-- `eos_wait_condition` sets no alarm, but the acquisition of the mutex may cancel one. -/
theorem waitCondition_sets {q m : Nat} {r : CallResult}
    (hk : k.waitCondition q m = some (r, k')) (hd : d 0) : SetsAlarm d k.timers k'.timers := by
  obtain ⟨k₁, hk₁, hk⟩ := Option.bind_eq_some_iff.mp hk
  have ht := (osWaitInQueue_timeless _ _).timers _ _ hk₁
  rw [← ht]
  split at hk
  · exact acquire_sets hk fun _ _ => hd
  · cases hk
    exact .inl rfl

/-- The same from the entry of `eos_wait_condition`. -/
theorem eosWaitCondition_sets {q m : Nat} {r : CallResult}
    (hk : k.eosWaitCondition q m = some (r, k')) (hd : d 0) : SetsAlarm d k.timers k'.timers := by
  obtain ⟨k₁, hk₁, hk⟩ := Option.bind_eq_some_iff.mp hk
  have ht := (eosReleaseSemaphore_timeless m).timers _ _ hk₁
  rw [← ht]
  split at hk
  · exact waitCondition_sets hk hd
  · cases hk
    exact .inl rfl

/-- A call that goes on sets no alarm either. -/
theorem goOn_sets {resume : Resume} {r : CallResult} (hk : k.goOn resume = some (r, k'))
    (hd : d 0) : SetsAlarm d k.timers k'.timers := by
  cases resume with
  | user => cases hk
  | acquire s timeout absTimeout => exact retry_sets hk hd
  | released q m => exact waitCondition_sets hk hd
  | notified m => exact acquire_sets hk fun _ _ => hd

/-- The timeout that is an argument of a call satisfies `d`. -/
def Arms (k : Kernel Q T) (d : UInt32 → Prop) : Call T → Prop
  | .kernel (.sleep tick) => d tick
  | .acquire s timeout => k.count s ≤ 0 → ¬timeout < 0 → d timeout.toUInt32
  | _ => True

instance {Q : Type → Type → Type} {T : Type} (k : Kernel Q T) (d : UInt32 → Prop)
    [DecidablePred d] : DecidablePred (Arms k d)
  | .kernel (.sleep tick) => inferInstanceAs (Decidable (d tick))
  | .acquire s timeout =>
    inferInstanceAs (Decidable (k.count s ≤ 0 → ¬timeout < 0 → d timeout.toUInt32))
  | .kernel (.createTask ..) | .kernel .schedule | .kernel (.changePriority ..)
  | .kernel (.setPeriod ..) | .kernel (.suspendTask _) | .kernel (.resumeTask _)
  | .kernel .lockScheduler | .kernel (.restoreScheduler _) | .kernel (.waitInQueue ..)
  | .kernel (.wakeupFromQueue _) | .kernel .tick | .kernel .start | .release _
  | .waitCondition .. | .notifyCondition _ | .goOn => .isTrue trivial

omit [NodeLists Q] [DecidableEq T] [Fintype T] in
/-- Where every timeout is allowed, so is that of a call. -/
theorem arms_of_forall (k : Kernel Q T) (hd : ∀ timeout, d timeout) (call : Call T) :
    Arms k d call := by
  unfold Arms
  split
  · exact hd _
  · exact fun _ _ => hd _
  · trivial

/-- **A call sets at most one alarm.** -/
theorem call_sets {s s' : System Q T} {call : Call T} (hs' : s.exec call = some s')
    (ht : call ≠ .kernel .tick) (hd : Arms s.kernel d call) (hzero : d 0)
    (hperiod : ∀ w, s.kernel.tick < w → d (w - s.kernel.tick)) :
    SetsAlarm d s.kernel.timers s'.kernel.timers := by
  cases System.exec_effect hs' with
  | @kernel o k hk =>
    by_cases ho : leavesTimers o = true
    · exact .inl (exec_timers ho hk)
    · cases o with
      | sleep tick => exact eosSleep_sets hk hd hperiod
      | tick => exact absurd rfl ht
      | _ => exact absurd rfl ho
  | release hk => exact .inl ((eosReleaseSemaphore_timeless _).timers _ _ hk)
  | notify hk => exact .inl ((osWakeupFromQueue_timeless (.condition _)).timers _ _ hk)
  | part hc hr =>
    rw [System.leave_kernel]
    cases call with
    | acquire sem timeout => exact acquire_sets hr hd
    | waitCondition c m => exact eosWaitCondition_sets hr hzero
    | goOn => exact goOn_sets hr hzero
    | kernel | release | notifyCondition => cases hr

end Sets

/-! ## Kernels -/

section Kernels

variable {T : Type} [DecidableEq T] [Fintype T] {k k' : Kernel LinkMem T}

/-- The alarm queue of a kernel is in order. -/
def WellTimed (k : Kernel LinkMem T) : Prop := ∃ ring, Timed k.timers ring

omit [DecidableEq T] [Fintype T] in
/-- Only the timers count. -/
theorem WellTimed.of_eq (h : WellTimed k) (ht : k'.timers = k.timers) : WellTimed k' := by
  unfold WellTimed
  rw [ht]
  exact h

/-- **What sets an alarm keeps the queue.** -/
theorem WellTimed.of_sets (h : WellTimed k) (hs : SetsAlarm (fun _ => True) k.timers k'.timers) :
    WellTimed k' := by
  obtain ht | ⟨a, timeout, entry, arg, -, ht⟩ := hs
  · exact h.of_eq ht
  · obtain ⟨ring, hring⟩ := h
    exact hring.eosSetAlarm ht

omit [DecidableEq T] [Fintype T] in
/-- In zeroed memory no alarm is pending. -/
theorem timed_zeroed (semaphore : Nat → Semaphore) (condition : Nat → Condition) :
    Timed (Kernel.zeroed semaphore condition : Kernel LinkMem T).timers fun _ => [] :=
  ⟨RingsOk.empty, fun _ _ => rfl, fun _ ha => absurd ha List.not_mem_nil,
    fun _ ha => absurd ha List.not_mem_nil⟩

/-- When multitasking starts, the alarm queue is in order. -/
theorem Booted.wellTimed {idle : T} {s : System LinkMem T} (h : Booted idle s) :
    WellTimed s.kernel := by
  obtain ⟨semaphore, condition, k₀, k₁, k, hk₀, hk₁, hk, rfl⟩ := h
  have htimers₀ : k₀.timers = (Kernel.zeroed semaphore condition : Kernel LinkMem T).timers :=
    exec_timers (k := (Kernel.zeroed semaphore condition).setLock locked)
      (o := .createTask (some idle) 1 8096 1 lowestPriority) rfl hk₀
  have h₀ : WellTimed k₀ := ⟨fun _ => [], htimers₀ ▸ timed_zeroed semaphore condition⟩
  have h₁ : WellTimed k₁ := hk₁.invariant h₀ fun k k' o hk ho hk' => by
    cases o with
    | createTask => exact hk.of_eq (exec_timers rfl hk')
    | _ => cases ho
  exact h₁.of_eq (exec_timers rfl hk)

end Kernels

end Eos.Analysis
