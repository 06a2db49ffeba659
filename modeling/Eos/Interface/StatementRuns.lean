import Eos.Lib.Refine
import Eos.Model.Statements

/-!
# The statements of a routine do what the routine does

The atomic routines of `Kernel` and the statements of `Model.Statements` are two
translations of core/task.c.  For each routine there is one theorem: its statements, run
one after the other without interruption, have the result of the atomic routine.
-/

set_option autoImplicit false

namespace Eos.Interface

open Eos.Lib (map_snd_bind₂)
open Eos.Model Eos.Model.Statement

variable {Q : Type → Type → Type} [NodeLists Q] {T : Type} [DecidableEq T] [Fintype T]
  {k k' : Kernel Q T} {c : T} {n : Nat} {s u : Statement T}

/-! ## One statement -/

/-- A statement with another one behind it. -/
theorem run_goto (h : s.exec k c = some (k', some u)) : run c (n + 1) s k = run c n u k' := by
  simp only [run, h, Option.bind_eq_bind, Option.bind_some]

/-- The last statement. -/
theorem run_return (h : s.exec k c = some (k', none)) : run c (n + 1) s k = some k' := by
  simp only [run, h, Option.bind_eq_bind, Option.bind_some, Option.pure_def]

/-- A statement that calls a routine. -/
theorem run_bind {x : Option (Kernel Q T)}
    (h : s.exec k c = x >>= fun k' => some (k', some u)) :
    run c (n + 1) s k = x >>= run c n u := by
  simp only [run, h]
  cases x <;> rfl

/-- The statements behind the removal of the next task from its ready queue. -/
theorem run_unsetTest {t : T} : run c (n + 4) (.unsetTest t) k =
    some (((k.unsetIfEmpty (k.priority t)).setStatus t .running).setCurrent (some t)) := by
  unfold Kernel.unsetIfEmpty
  by_cases hh : k.head (.ready (k.priority t)) = none
  · have htest : (unsetTest t).exec k c = some (k, some (.unset t)) := by
      simp only [exec, hh, if_true]
    rw [run_goto htest, run_goto (s := .unset t) rfl, run_goto (s := .setRunning t) rfl,
      run_return (s := .setCurrent t) rfl, if_pos hh]
  · have htest : (unsetTest t).exec k c = some (k, some (.setRunning t)) := by
      simp only [exec, hh, if_false]
    rw [run_goto htest, run_goto (s := .setRunning t) rfl, run_return (s := .setCurrent t) rfl,
      if_neg hh]

/-- The statements of `eos_schedule` from the choice of the next task on. -/
theorem run_highest : run c (n + 8) .highest k = k.dispatchNext := by
  rw [run_goto rfl]
  unfold Kernel.dispatchNext
  simp only
  cases hh : k.head (.ready k.vars.readyList.osGetHighestPriority) with
  | none => simp only [run, exec, hh, Option.bind_eq_bind, Option.bind_none]
  | some node =>
    have hfirst : (firstNode k.vars.readyList.osGetHighestPriority).exec k c =
        some (k, some (.pickTask node)) := by
      simp only [exec, hh, Option.bind_eq_bind, Option.bind_some, Option.pure_def]
    rw [run_goto hfirst]
    cases hp : k.vars.pnode node with
    | none => simp only [run, exec, hp, Option.bind_eq_bind, Option.bind_none, Option.bind_some]
    | some nextTask =>
      have hpick : (pickTask node).exec k c = some (k, some (.remove node nextTask)) := by
        simp only [exec, hp, Option.bind_eq_bind, Option.bind_some, Option.pure_def]
      rw [run_goto hpick, run_bind (s := .remove node nextTask) rfl]
      simp only [Kernel.removeNode, hp, Option.bind_eq_bind, Option.bind_some]
      cases NodeLists.osRemoveNode k.queue (.ready (k.priority nextTask)) node with
      | none => rfl
      | some queue =>
        simp only [Option.bind_some, Option.pure_def]
        rw [run_unsetTest]
        rfl

/-- The statements of `eos_schedule` (core/task.c:88-139) -/
theorem run_scheduleLock (hc : k.vars.currentTask = some c) :
    run c (n + 14) .scheduleLock k = k.eosSchedule := by
  by_cases hl : k.vars.schedulerLock = locked
  · have hlock : scheduleLock.exec k c = some (k, none) := by simp only [exec, hl, if_true]
    rw [run_return hlock, Kernel.eosSchedule, if_pos hl]
  have hlock : scheduleLock.exec k c = some (k, some .scheduleTest) := by
    simp only [exec, hl, if_false]
  rw [run_goto hlock]
  simp only [Kernel.eosSchedule, if_neg hl, Kernel.requeueCurrent, hc]
  by_cases hs : k.status c = .running
  · have htest : scheduleTest.exec k c = some (k, some .requeueAdd) := by
      simp only [exec, hs, if_true]
    rw [run_goto htest, run_bind (s := .requeueAdd) rfl]
    simp only [if_pos hs, Kernel.addReady, Kernel.addNodeTail, Option.bind_eq_bind]
    cases NodeLists.osAddNodeTail k.queue (.ready (k.priority c)) c with
    | none => simp only [Option.bind_none]
    | some queue =>
      simp only [Option.bind_some, Option.pure_def]
      rw [run_goto (s := .requeueSet) rfl, run_goto (s := .requeueStatus) rfl,
        run_goto (s := .save) rfl, run_highest]
      rfl
  · have htest : scheduleTest.exec k c = some (k, some .save) := by simp only [exec, hs, if_false]
    rw [run_goto htest, run_goto (s := .save) rfl, run_highest]
    simp only [if_neg hs, Option.bind_eq_bind, Option.bind_some]

/-- Waiting in a queue changes lists only. -/
theorem addWaiter_vars {q : WaitQueue} {queueType : UInt8}
    (h : k.addWaiter q queueType c = some k') : k'.vars = k.vars := by
  unfold Kernel.addWaiter at h
  split at h
  · obtain ⟨queue, -, h⟩ := Option.bind_eq_some_iff.mp h
    cases h
    rfl
  · obtain ⟨queue, -, h⟩ := Option.bind_eq_some_iff.mp h
    cases h
    rfl

/-- The statements of a task that becomes ready, up to the call of `eos_schedule`. -/
theorem run_readyAdd (hc : k.vars.currentTask = some c) (t : T) :
    run c (n + 17) (.readyAdd t) k =
      k.addReady t >>= fun k => (k.setStatus t .ready).eosSchedule := by
  rw [run_bind (s := .readyAdd t) rfl]
  simp only [Kernel.addReady, Kernel.addNodeTail, Option.bind_eq_bind]
  cases NodeLists.osAddNodeTail k.queue (.ready (k.priority t)) t with
  | none => simp only [Option.bind_none]
  | some queue =>
    rw [Option.pure_def, Option.bind_some, Option.bind_some, Option.bind_some,
      run_goto (s := .readySet t) rfl, run_goto (s := .readyStatus t) rfl]
    exact run_scheduleLock (by exact hc)

/-- The statements of `_os_wait_in_queue` (core/task.c:273-297) -/
theorem run_waitAdd (hc : k.vars.currentTask = some c) (q : WaitQueue) (queueType : UInt8) :
    run c (n + 17) (.waitAdd q queueType) k = k.osWaitInQueue q queueType := by
  rw [run_bind (s := .waitAdd q queueType) rfl]
  simp only [Kernel.osWaitInQueue, hc, Option.bind_eq_bind, Option.bind_some]
  cases ha : k.addWaiter q queueType c with
  | none => simp only [Option.bind_none]
  | some k' =>
    have hc' : k'.vars.currentTask = some c := by
      rw [(addWaiter_vars ha), hc]
    rw [Option.bind_some, Option.bind_some, run_goto (s := .waitOwner q) rfl,
      run_goto (s := .waitStatus) rfl]
    exact run_scheduleLock (by exact hc')

/-- The statements of `_os_wakeup_from_queue` (core/task.c:300-316) -/
theorem run_wakeTest (hc : k.vars.currentTask = some c) (q : WaitQueue) :
    run c (n + 20) (.wakeTest q) k = k.osWakeupFromQueue q := by
  unfold Kernel.osWakeupFromQueue
  cases hh : k.head (.wait q) with
  | none =>
    have htest : (wakeTest q).exec k c = some (k, none) := by simp only [exec, hh, if_true]
    rw [run_return htest]
  | some node =>
    have htest : (wakeTest q).exec k c = some (k, some (.wakeTask q)) := by simp [exec, hh]
    rw [run_goto htest]
    cases hp : k.vars.pnode node with
    | none => simp only [run, exec, hh, hp, Option.bind_eq_bind, Option.bind_none, Option.bind_some]
    | some t =>
      have htask : (wakeTask q).exec k c = some (k, some (.wakeRemove q t)) := by
        simp only [exec, hh, hp, Option.bind_eq_bind, Option.bind_some, Option.pure_def]
      rw [run_goto htask, run_bind (s := .wakeRemove q t) rfl]
      simp only [hp, Kernel.removeNode, Option.bind_eq_bind, Option.bind_some]
      cases NodeLists.osRemoveNode k.queue (.wait q) t with
      | none => simp only [Option.bind_none]
      | some queue => exact run_readyAdd (k := k.setQueue queue) hc t

/-- The statements of `eos_resume_task` (core/task.c:212-226) -/
theorem run_resumeTest (hc : k.vars.currentTask = some c) (task : Option T) :
    run c (n + 18) (.resumeTest task) k = (k.eosResumeTask task).map Prod.snd := by
  cases task with
  | none => rfl
  | some t =>
    unfold Kernel.eosResumeTask
    by_cases hs : k.status t = .suspended
    · have htest : (resumeTest (some t)).exec k c = some (k, some (.readyAdd t)) := by
        simp only [exec, hs, if_true]
      rw [run_goto htest, run_readyAdd hc]
      simp only [if_pos hs]
      rw [map_snd_bind₂]
    · have htest : (resumeTest (some t)).exec k c = some (k, none) := by
        simp only [exec, hs, if_false]
      rw [run_return htest]
      simp only [if_neg hs, Option.map_some]

/-- The statements of `eos_sleep` (core/task.c:229-256) -/
theorem run_sleepLock (hc : k.vars.currentTask = some c) (tick : UInt32) :
    run c (n + 21) (.sleepLock tick) k = k.eosSleep tick := by
  have halarm : ∀ (k : Kernel Q T) (m : Nat) (timeout : UInt32), k.vars.currentTask = some c →
      run c (m + 16) (.sleepAlarm timeout) k = k.sleepFor c timeout := by
    intro k m timeout hc
    rw [run_bind (s := .sleepAlarm timeout) (u := .sleepStatus) rfl]
    simp only [Kernel.sleepFor, Kernel.setAlarm, Option.bind_eq_bind]
    cases eosSetAlarm k.timers systemTimer c timeout (some .osWakeupFromAlarmQueue) (some c) with
    | none => simp only [Option.bind_none]
    | some timers =>
      rw [Option.pure_def, Option.bind_some, Option.bind_some, Option.bind_some,
        run_goto (s := .sleepStatus) rfl]
      exact run_scheduleLock (by exact hc)
  unfold Kernel.eosSleep
  by_cases hl : k.vars.schedulerLock = locked
  · have htest : (sleepLock tick).exec k c = some (k, none) := by simp only [exec, hl, if_true]
    rw [run_return htest, if_pos hl]
  have htest : (sleepLock tick).exec k c = some (k, some (.sleepPeriod tick)) := by
    simp only [exec, hl, if_false]
  rw [run_goto htest, if_neg hl]
  simp only [hc, Option.bind_eq_bind, Option.bind_some]
  by_cases hp : tick = 0 ∧ (k.vars.tcb c).period ≠ 0
  · have hperiod : (sleepPeriod tick).exec k c = some (k, some .sleepAdvance) := by
      simp only [exec, if_pos hp]
    rw [run_goto hperiod, run_goto (s := .sleepAdvance) rfl, if_pos hp]
    generalize hk' : k.setTcb c (fun b => { b with wakeupTime := b.wakeupTime + b.period }) = k'
    have hc' : k'.vars.currentTask = some c := hk' ▸ hc
    by_cases hd : (k'.vars.tcb c).wakeupTime ≤ k'.tick
    · have hdue : sleepDue.exec k' c = some (k', none) := by simp only [exec, if_pos hd]
      rw [run_return hdue, if_pos hd]
    · have hdue : sleepDue.exec k' c = some (k', some .sleepTimeout) := by
        simp only [exec, if_neg hd]
      rw [run_goto hdue, run_goto (s := .sleepTimeout) rfl, if_neg hd, halarm k' n _ hc']
  · have hperiod : (sleepPeriod tick).exec k c = some (k, some (.sleepAlarm tick)) := by
      simp only [exec, if_neg hp]
    rw [run_goto hperiod, if_neg hp, halarm k (n + 3) tick hc]

/-! ## What the statements leave alone -/

section Frame

variable {st : Statement T} {r : Option (Statement T)}

/-- A routine enqueues its caller first or not at all. -/
theorem exec_next (h : st.exec k c = some (k', r)) (q : WaitQueue) (queueType : UInt8) :
    r ≠ some (.waitAdd q queueType) := by
  rintro rfl
  cases st with
  | resumeTest task => cases task <;> simp [Statement.exec] at h
  | sleepPeriod | scheduleTest | unsetTest =>
    simp only [Statement.exec, Option.some.injEq, Prod.mk.injEq] at h
    obtain ⟨-, h⟩ := h
    split at h <;> cases h
  | _ => simp [Statement.exec, Option.bind_eq_some_iff] at h

/-- The counts belong to the semaphore calls. -/
theorem exec_semaphore (h : st.exec k c = some (k', r)) :
    k'.vars.semaphore = k.vars.semaphore := by
  cases st with
  | waitAdd q queueType =>
    obtain ⟨k₁, hk₁, h⟩ := Option.bind_eq_some_iff.mp h
    cases h
    rw [addWaiter_vars hk₁]
  | readyAdd | requeueAdd | wakeRemove | remove | sleepAlarm =>
    obtain ⟨k₁, hk₁, h⟩ := Option.bind_eq_some_iff.mp h
    obtain ⟨lists, -, hk₁⟩ := Option.bind_eq_some_iff.mp hk₁
    cases hk₁
    cases h
    rfl
  | firstNode | pickTask =>
    obtain ⟨node, -, h⟩ := Option.bind_eq_some_iff.mp h
    cases h
    rfl
  | wakeTask =>
    obtain ⟨node, -, h⟩ := Option.bind_eq_some_iff.mp h
    obtain ⟨task, -, h⟩ := Option.bind_eq_some_iff.mp h
    cases h
    rfl
  | resumeTest task => cases task <;> cases h <;> rfl
  | _ =>
    cases h
    rfl

/-- A statement of `eos_sleep`, in front of the one that sets the alarm. -/
def inSleep : Statement T → Bool
  | .sleepLock _ | .sleepPeriod _ | .sleepAdvance | .sleepDue | .sleepTimeout
  | .sleepAlarm _ => true
  | _ => false

/-- The alarm is set in `eos_sleep` only. -/
theorem exec_inSleep (h : st.exec k c = some (k', r)) (hst : inSleep st = false) :
    k'.timers = k.timers ∧ ∀ next, r = some next → inSleep next = false := by
  cases st with
  | waitAdd q queueType =>
    obtain ⟨k₁, hk₁, h⟩ := Option.bind_eq_some_iff.mp h
    cases h
    refine ⟨?_, fun next hn => by cases hn; rfl⟩
    unfold Kernel.addWaiter at hk₁
    split at hk₁
    · obtain ⟨queue, -, hk₁⟩ := Option.bind_eq_some_iff.mp hk₁
      cases hk₁
      rfl
    · obtain ⟨queue, -, hk₁⟩ := Option.bind_eq_some_iff.mp hk₁
      cases hk₁
      rfl
  | readyAdd | requeueAdd | wakeRemove | remove =>
    obtain ⟨k₁, hk₁, h⟩ := Option.bind_eq_some_iff.mp h
    obtain ⟨lists, -, hk₁⟩ := Option.bind_eq_some_iff.mp hk₁
    cases hk₁
    cases h
    exact ⟨rfl, fun next hn => by cases hn; rfl⟩
  | firstNode | pickTask =>
    obtain ⟨node, -, h⟩ := Option.bind_eq_some_iff.mp h
    cases h
    exact ⟨rfl, fun next hn => by cases hn; rfl⟩
  | wakeTask =>
    obtain ⟨node, -, h⟩ := Option.bind_eq_some_iff.mp h
    obtain ⟨task, -, h⟩ := Option.bind_eq_some_iff.mp h
    cases h
    exact ⟨rfl, fun next hn => by cases hn; rfl⟩
  | resumeTest task =>
    cases task with
    | none =>
      cases h
      exact ⟨rfl, fun next hn => by cases hn⟩
    | some t =>
      cases h
      refine ⟨rfl, fun next hn => ?_⟩
      split at hn <;> cases hn
      rfl
  | wakeTest | scheduleLock =>
    cases h
    refine ⟨rfl, fun next hn => ?_⟩
    split at hn <;> cases hn
    rfl
  | scheduleTest | unsetTest =>
    cases h
    refine ⟨rfl, fun next hn => ?_⟩
    cases hn
    split <;> rfl
  | sleepLock | sleepPeriod | sleepAdvance | sleepDue | sleepTimeout | sleepAlarm => cases hst
  | setCurrent =>
    cases h
    exact ⟨rfl, fun next hn => by cases hn⟩
  | _ =>
    cases h
    exact ⟨rfl, fun next hn => by cases hn; rfl⟩

omit [Fintype T] [DecidableEq T] [NodeLists Q] in
/-- The count of a semaphore after one was written. -/
theorem count_setCount (k : Kernel Q T) (sem m : Nat) (x : Int) :
    (k.setCount m x).count sem = if sem = m then int8 x else k.count sem := by
  by_cases hm : sem = m
  · subst hm; simp [Kernel.count]
  · simp [Kernel.count, hm]

/-- The alarm of the current task leaves the counts alone. -/
theorem setAlarm_count {timeout : UInt32} {entry : Option Handler}
    (h : SyncState.setAlarm k timeout entry = some k') (m : Nat) : k'.count m = k.count m := by
  obtain ⟨current, -, h⟩ := Option.bind_eq_some_iff.mp h
  obtain ⟨timers, -, h⟩ := Option.bind_eq_some_iff.mp h
  cases h
  rfl

end Frame

end Eos.Interface
