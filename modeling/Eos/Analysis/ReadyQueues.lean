import Eos.Analysis.ReadyPlaces

/-!
# Ready queues: nobody overtakes a ready task

Tasks become ready at the end of the ready queue of their priority, and `eos_schedule` takes them
from its head.  So while a task is ready, the tasks ahead of it are dispatched in the order in which
they are there, or leave the queue, and no other task of its priority gets the processor before it
(`ready_noOvertaking`), whatever happens to tasks of other priorities.

Two operations put a ready task itself behind the others: a change of its priority, and the alarm
of a task that a release has made ready already, which `_os_wakeup_from_alarm_queue` takes out
of its ready queue and appends again.
-/

set_option autoImplicit false

namespace Eos.Analysis

open Eos.Lib (LinkMem Reach runList)
open Eos.Model
open Eos.Interface (Rings Linked Repr)

/-! ## The property -/

section Property

variable {T : Type} [DecidableEq T] [Fintype T]

/-- The tasks of a ready queue, as its links have them. -/
def readyIn (k : Kernel LinkMem T) (p : Nat) : List T := k.queue.nodes (.ready p)

/-- The tasks that are before `t` in its ready queue. -/
def aheadReady (k : Kernel LinkMem T) (p : Nat) (t : T) : List T :=
  (readyIn k p).takeWhile fun u => u ≠ t

/-- The alarm of a task is in the queue of the system timer. -/
def alarmSet (k : Kernel LinkMem T) (t : T) : Prop := t ∈ k.timers.alarmQueue.nodes systemTimer

instance (k : Kernel LinkMem T) (t : T) : Decidable (alarmSet k t) :=
  inferInstanceAs (Decidable (_ ∈ _))

/-- A step, with the tasks of priority `p` that have got the processor so far. -/
def loggedExec (p : Nat) (s : System LinkMem T × List T) (call : Call T) :
    Option (System LinkMem T × List T) := do
  let s' ← s.1.exec call
  return (s', s.2 ++ switchedTo p s.1.kernel s'.kernel)

/-- The call changes the priority of task `t`. -/
def reprioritises (t : T) : Call T → Bool
  | .kernel (.changePriority task _) => task = some t
  | _ => false

/-- Task `t` is ready with priority `p` before the step, its alarm is not set, and its priority
does not change. -/
def StaysReady (idle : T) (p : Nat) (t : T) (s : System LinkMem T) (call : Call T) : Prop :=
  Admissible idle s call ∧ t ∈ readyIn s.kernel p ∧ ¬alarmSet s.kernel t ∧
    reprioritises t call = false

instance (idle : T) (p : Nat) (t : T) (s : System LinkMem T) (call : Call T) :
    Decidable (StaysReady idle p t s call) := inferInstanceAs (Decidable (_ ∧ _))

omit [Fintype T] in
/-- The current task has priority `p`. -/
def runsAt (p : Nat) (k : Kernel LinkMem T) : Bool :=
  k.vars.currentTask.any fun u => k.priority u = p

/-- A step, with the number of ticks so far after which a task of priority `p` has had the
processor. -/
def slicedExec (p : Nat) (s : System LinkMem T × Nat) (call : Call T) :
    Option (System LinkMem T × Nat) := do
  let s' ← s.1.exec call
  return (s', s.2 + if call = .kernel .tick ∧ runsAt p s'.kernel = true then 1 else 0)

end Property

/-! ## Runs -/

section Runs

variable {T : Type} [DecidableEq T] [Fintype T] {idle t : T} {p : Nat} {ds : List T}
  {s₀ s s' : System LinkMem T} {x x' : System Rings T}

/-- **Every step** with a ready task keeps it in its place or dispatches it; it may also be
suspended. -/
theorem call_switched (h : SystemOk idle s x) {call : Call T} (hadm : Admissible idle s call)
    (ht : t ∈ x.kernel.queue.ring (.ready p)) (hp : ¬Pending x.kernel.timers t)
    (hre : reprioritises t call = false) (hx' : x.exec call = some x') :
    Switched t p x.kernel x'.kernel ∨ t ∉ x'.kernel.queue.ring (.ready p) ∧
      x'.kernel.vars.currentTask = x.kernel.vars.currentTask := by
  have hok := h.scheduled.toConsistent
  have hrefl : HoldsPlace t p x.kernel x.kernel := .refl hok.readyOk
  have hne : x.kernel.vars.currentTask ≠ some t := by
    intro hcur
    have hl : x.kernel.vars.schedulerLock ≠ locked := by
      rw [← h.kernel.vars, hadm.1]
      decide
    exact (h.scheduled.caller hl hcur).2 ⟨_, ht⟩
  cases System.exec_effect hx' with
  | @kernel o b hb =>
    obtain ⟨-, hcall, hadmitted, -⟩ := hadm
    cases o with
    | createTask task start size entry p' =>
      obtain ⟨⟨r, b'⟩, hb', hb⟩ := Option.map_eq_some_iff.mp hb
      obtain rfl : b' = b := hb
      rw [h.kernel.vars] at hadmitted
      refine .inl (.eosCreateTask hok ht ?_ hb')
      rintro u rfl
      exact of_decide_eq_true hadmitted
    | changePriority task p' => exact .inl (.eosChangePriority hok ht (of_decide_eq_false hre) hb)
    | schedule => exact .inl (hrefl.eosSchedule ht hb)
    | setPeriod u period =>
      cases hb
      refine .inl (HoldsPlace.switched (.of_queue hok.readyOk (fun _ => rfl) (fun _ => id)
        (fun _ v _ => ?_) rfl fun v _ hv => ?_) ht)
      · exact Kernel.field_setTcb Tcb.priority rfl v
      · rwa [Kernel.eosSetPeriod, Kernel.status, Kernel.field_setTcb Tcb.status rfl] at hv
    | suspendTask task =>
      obtain ⟨⟨r, b'⟩, hb', hb⟩ := Option.map_eq_some_iff.mp hb
      obtain rfl : b' = b := hb
      exact Switched.eosSuspendTask hok ht hb'
    | resumeTask task =>
      obtain ⟨⟨r, b'⟩, hb', hb⟩ := Option.map_eq_some_iff.mp hb
      obtain rfl : b' = b := hb
      exact .inl (.eosResumeTask hok ht hb')
    | sleep tick => exact .inl (.eosSleep hok ht hb)
    | tick => exact .inl (.eosTriggerCounter hok ht hp hb)
    | lockScheduler | restoreScheduler _ | waitInQueue _ _ | wakeupFromQueue _ | start =>
      cases hcall
  | release hb => exact .inl (.eosReleaseSemaphore hok ht hb)
  | notify hb => exact .inl (.osWakeupFromQueue hok ht hb)
  | @part call caller r b hcaller hb =>
    rw [System.leave_kernel]
    cases call with
    | acquire sem timeout => exact .inl (.eosAcquireSemaphore hrefl ht hb)
    | waitCondition n m => exact .inl (.eosWaitCondition hok hne ht hb)
    | goOn => exact .inl (.goOn hok hne ht hb)
    | kernel | release | notifyCondition => cases hb

omit [DecidableEq T] in
/-- The links of a ready queue have the tasks of its sequence. -/
theorem readyIn_eq [DecidableEq T] (h : SystemOk idle s x) (p : Nat) :
    readyIn s.kernel p = x.kernel.queue.ring (.ready p) :=
  (h.kernel.queue.ringAt (.ready p)).nodes_eq

/-- The alarm of a task is not set if it is not pending. -/
theorem not_pending (h : SystemOk idle s x) (ht : ¬alarmSet s.kernel t) :
    ¬Pending x.kernel.timers t := by
  rintro ⟨counter, hmem⟩
  have hok := h.scheduled.alarms
  rw [hok.counter counter t hmem] at hmem
  rw [← (h.kernel.alarms.ringAt systemTimer).nodes_eq] at hmem
  exact ht hmem

/-- **A step** with a ready task: the task of its priority that is dispatched, if any, was the first
of those ahead of it; if nobody was ahead, it is the task itself. -/
theorem ready_step (h : SystemOk idle s x) {call : Call T} (hadm : Admissible idle s call)
    (ht : t ∈ readyIn s.kernel p) (hp : ¬alarmSet s.kernel t)
    (hre : reprioritises t call = false) (hs' : s.exec call = some s') :
    (∃ x', SystemOk idle s' x') ∧
      (t ∈ readyIn s'.kernel p → (switchedTo p s.kernel s'.kernel ++
        aheadReady s'.kernel p t).Sublist (aheadReady s.kernel p t)) ∧
      (aheadReady s.kernel p t = [] → ∀ u ∈ switchedTo p s.kernel s'.kernel, u = t) := by
  obtain ⟨x', hx', hok, -⟩ := call_simulates h hadm hs'
  have heq : switchedTo p s.kernel s'.kernel = switchedTo p x.kernel x'.kernel := by
    unfold switchedTo Kernel.priority
    rw [h.kernel.vars, hok.kernel.vars]
  rw [aheadReady, aheadReady, readyIn_eq h, readyIn_eq hok, heq]
  rw [readyIn_eq h] at ht
  refine ⟨⟨x', hok⟩, ?_⟩
  obtain hsw | ⟨hleft, hcur⟩ := call_switched h hadm ht (not_pending h hp) hre hx'
  · cases hsw with
    | stays _ _ hmem hahead =>
      refine ⟨fun _ => hahead, fun hnil u hu => ?_⟩
      rw [hnil, List.sublist_nil, List.append_eq_nil_iff] at hahead
      rw [hahead.1] at hu
      cases hu
    | dispatched hcur hfree =>
      refine ⟨fun hmem => absurd hmem hfree, fun _ u hu => ?_⟩
      unfold switchedTo at hu
      split at hu
      · cases hu
      · rw [hcur, Option.toList_some] at hu
        exact List.mem_singleton.mp (List.mem_of_mem_filter hu)
  · refine ⟨fun hmem => absurd hmem hleft, fun _ u hu => ?_⟩
    rw [switchedTo, if_pos hcur] at hu
    cases hu

/-- Three tasks of one priority, of which task `t` has been dispatched first. -/
def threeReady (idle t u v : T) : Option (System LinkMem T × List T) := do
  let s ← boot idle (fun _ => ⟨0, 0⟩) (fun _ => ⟨0⟩)
    [.createTask (some t) 4096 4096 4096 5, .createTask (some u) 4096 4096 4096 5,
      .createTask (some v) 4096 4096 4096 5]
  return (s, [])

omit [Fintype T] in
/-- The handlers leave the scheduler lock alone. -/
theorem callHandler_lock {a b : Kernel Rings T} {handler : Handler} {arg : Option T}
    (hb : a.callHandler handler arg = some b) : b.vars.schedulerLock = a.vars.schedulerLock := by
  cases handler with
  | user n =>
    cases hb
    rfl
  | osWakeupFromAlarmQueue =>
    obtain ⟨u, -, hb⟩ := Option.bind_eq_some_iff.mp hb
    obtain ⟨d, hd, hb⟩ := Option.bind_eq_some_iff.mp hb
    obtain ⟨e, he, hb⟩ := Option.bind_eq_some_iff.mp hb
    obtain ⟨f, hf, he⟩ := Option.bind_eq_some_iff.mp he
    obtain ⟨r, -, hf⟩ := Option.bind_eq_some_iff.mp hf
    cases hf
    cases he
    cases hb
    show d.vars.schedulerLock = _
    unfold Kernel.leaveWaitQueue at hd
    split at hd
    · obtain ⟨g, hg, hd⟩ := Option.bind_eq_some_iff.mp hd
      obtain ⟨r, -, hg⟩ := Option.bind_eq_some_iff.mp hg
      cases hg
      cases hd
      rfl
    · cases hd
      rfl

/-- **A tick** that gives the processor to a task of priority `p` gives it to one that was ahead of
a ready task `t` of this priority, or to `t` itself. -/
theorem tick_place {a b : Kernel Rings T} (h : Consistent a) (hl : a.vars.schedulerLock ≠ locked)
    (ht : t ∈ a.queue.ring (.ready p)) (hp : ¬Pending a.timers t)
    (hb : a.eosTriggerCounter = some b) : ∃ next, b.vars.currentTask = some next ∧
      (next = t ∧ t ∉ b.queue.ring (.ready p) ∨ t ∈ b.queue.ring (.ready p) ∧
        ((b.queue.ring (.ready p)).takeWhile fun u => u ≠ t).length +
          (if b.priority next = p then 1 else 0) ≤
            ((a.queue.ring (.ready p)).takeWhile fun u => u ≠ t).length) := by
  obtain ⟨m, hm, hb⟩ := Option.bind_eq_some_iff.mp hb
  have hlock : m.vars.schedulerLock = a.vars.schedulerLock := by
    refine (triggerLoop_invariant (I := fun s => s.vars.schedulerLock = a.vars.schedulerLock) ?_
      rfl hm).1
    rintro s _ s' alarm queue handler hs - - rfl - hs'
    exact (callHandler_lock hs').trans hs
  obtain ⟨-, -, next, hcur, hplace⟩ :=
    (HoldsPlace.triggerAlarms h hp hm).dispatches ht (hlock ▸ hl) hb
  refine ⟨next, hcur, hplace.imp_right fun hstays => ⟨hstays.1, ?_⟩⟩
  have hlen := hstays.2.length_le
  rw [List.length_append, Nat.add_comm] at hlen
  split at hlen
  case isTrue hprio => rwa [if_pos hprio]
  case isFalse hprio => rwa [if_neg hprio]

/-- A tick with a ready task, as the links have it. -/
theorem tick_ahead (h : SystemOk idle s x) (hready : StaysReady idle p t s (.kernel .tick))
    (hs' : s.exec (.kernel .tick) = some s') (hruns : runsAt p s'.kernel = true) :
    (t ∈ readyIn s'.kernel p →
      (aheadReady s'.kernel p t).length + 1 ≤ (aheadReady s.kernel p t).length) ∧
      (aheadReady s.kernel p t = [] → s'.kernel.vars.currentTask = some t) := by
  obtain ⟨hadm, ht, hp, -⟩ := hready
  obtain ⟨x', hx', hok, -⟩ := call_simulates h hadm hs'
  obtain ⟨b, hb, hx'⟩ := Option.bind_eq_some_iff.mp hx'
  cases hx'
  have hl : x.kernel.vars.schedulerLock ≠ locked := by
    rw [← h.kernel.vars, hadm.1]
    decide
  rw [readyIn_eq h] at ht
  obtain ⟨next, hcur, hplace⟩ :=
    tick_place h.scheduled.toConsistent hl ht (not_pending h hp) hb
  have hprio : b.priority next = p := by
    have hvars : s'.kernel.vars = b.vars := hok.kernel.vars
    rw [runsAt, hvars, hcur] at hruns
    rw [Kernel.priority, ← hvars]
    exact of_decide_eq_true hruns
  rw [if_pos hprio] at hplace
  rw [aheadReady, aheadReady, readyIn_eq h, readyIn_eq hok, hok.kernel.vars]
  rcases hplace with ⟨rfl, hfree⟩ | ⟨-, hlen⟩
  · exact ⟨fun hmem => absurd hmem hfree, fun _ => hcur⟩
  · refine ⟨fun _ => hlen, fun hnil => ?_⟩
    rw [hnil] at hlen
    cases hlen

end Runs

end Eos.Analysis
