import Eos.Analysis.PointerRuns

/-!
# Priority wait queues: the order against `eos_change_priority`

`_os_add_node_ordered` keeps a wait queue of type `PRIORITY` sorted by the keys in its
nodes, which are copies of the priorities (core/common.c:42-66).  `eos_change_priority`
writes the priority and the key of a waiting task and leaves its node where it is
(core/task.c:148-172), so a release may wake a task while a more urgent one waits
(`mostUrgentFirst_violated`).

`mostUrgentFirst` is the property for runs in which no such call takes a waiting task
past its neighbours in the queue, and no tick finds an alarm of a ready task due whose
handler would take that task out of the wrong queue.  Every other part of the kernel only
takes tasks out of the wait queues (`Thinned`) or inserts one by its key.
-/

set_option autoImplicit false

namespace Eos.Analysis

open Eos.Lib (LinkMem RingsOk IsRing Reach isRing_cons_iff)
open Eos.Model
open Eos.Interface (Rings Linked Repr insertOrdered)

/-! ## The property -/

section Property

variable {T : Type} [DecidableEq T]

/-- The `queue_type` that belongs to a wait queue. -/
def queueType (v : Vars T) : WaitQueue → UInt8
  | .semaphore s => (v.semaphore s).queueType
  | .condition c => (v.condition c).queueType

/-- `_os_wakeup_from_queue` wakes task `t` and no other one. -/
def Wakes (k : Kernel LinkMem T) (q : WaitQueue) (t : T) : Prop :=
  ∃ k', k.osWakeupFromQueue q = some k' ∧ k'.status t ≠ .waiting ∧
    ∀ u ≠ t, k.status u = .waiting → k'.status u = .waiting

/-- Every wait queue of type `PRIORITY` is sorted by the priorities of its tasks, and a task that
is woken from it is a most urgent one. -/
def MostUrgentFirst (k : Kernel LinkMem T) : Prop :=
  ∃ ring, RingsOk k.queue ring ∧ ∀ q, queueType k.vars q ≠ 0 →
    (ring (.wait q)).Pairwise (fun t u => k.priority t ≤ k.priority u) ∧
    (ring (.wait q) ≠ [] → ∃ t ∈ ring (.wait q), Wakes k q t ∧
      ∀ u ∈ ring (.wait q), k.priority t ≤ k.priority u)

/-- A priority of a waiting task that is not below the one of the task before it in its queue,
and not above the one of the task behind it. -/
def FitsBetween (k : Kernel LinkMem T) (t : T) (priority : Nat) (q : WaitQueue) : Prop :=
  (∀ n ∈ k.queue.next t, k.head (.wait q) ≠ some n → priority ≤ k.priority n) ∧
    ∀ p ∈ k.queue.prev t, k.head (.wait q) ≠ some t → k.priority p ≤ priority

instance (k : Kernel LinkMem T) (t : T) (priority : Nat) (q : WaitQueue) :
    Decidable (FitsBetween k t priority q) := inferInstanceAs (Decidable (_ ∧ _))

/-- A call of `eos_change_priority` on a task that waits in a queue of type `PRIORITY` leaves it
between its neighbours. -/
def KeepsPlace (k : Kernel LinkMem T) : Call T → Prop
  | .kernel (.changePriority (some t) priority) =>
    priority ≤ lowestPriority → k.status t = .waiting →
      ∀ q ∈ k.waitQueueOwner t, queueType k.vars q ≠ 0 → FitsBetween k t priority q
  | _ => True

instance (k : Kernel LinkMem T) : DecidablePred (KeepsPlace k)
  | .kernel (.changePriority (some t) priority) =>
    inferInstanceAs (Decidable (priority ≤ lowestPriority → k.status t = .waiting →
      ∀ q ∈ k.waitQueueOwner t, queueType k.vars q ≠ 0 → FitsBetween k t priority q))
  | .kernel (.changePriority none _) | .kernel (.createTask ..) | .kernel .schedule
  | .kernel (.setPeriod ..) | .kernel (.suspendTask _) | .kernel (.resumeTask _)
  | .kernel (.sleep _) | .kernel .lockScheduler | .kernel (.restoreScheduler _)
  | .kernel (.waitInQueue ..) | .kernel (.wakeupFromQueue _) | .kernel .tick | .kernel .start
  | .acquire .. | .release _ | .waitCondition .. | .notifyCondition _ | .goOn => .isTrue trivial

end Property

/-! ## What leaves the order of the wait queues alone -/

section Thinned

variable {T : Type} [DecidableEq T] {a b c : Kernel Rings T} {t : T}

/-- The keys are the priorities, and the wait queues of type `PRIORITY` are sorted. -/
structure Ordered (a : Kernel Rings T) : Prop where
  key : ∀ t, a.vars.orderVal t = a.priority t
  sorted : ∀ q, queueType a.vars q ≠ 0 →
    (a.queue.ring (.wait q)).Pairwise fun t u => a.priority t ≤ a.priority u

/-- No key, priority or queue type has changed, and no task was added to a wait queue. -/
structure Thinned (a b : Kernel Rings T) : Prop where
  orderVal : b.vars.orderVal = a.vars.orderVal
  priority : ∀ t, b.priority t = a.priority t
  type : ∀ q, queueType b.vars q = queueType a.vars q
  wait : ∀ q, (b.queue.ring (.wait q)).Sublist (a.queue.ring (.wait q))

namespace Thinned

omit [DecidableEq T] in
/-- Nothing has happened. -/
theorem refl (a : Kernel Rings T) : Thinned a a :=
  ⟨rfl, fun _ => rfl, fun _ => rfl, fun _ => .refl _⟩

omit [DecidableEq T] in
/-- Two such steps, one after the other. -/
theorem trans (h : Thinned a b) (h' : Thinned b c) : Thinned a c where
  orderVal := h'.orderVal.trans h.orderVal
  priority t := (h'.priority t).trans (h.priority t)
  type q := (h'.type q).trans (h.type q)
  wait q := (h'.wait q).trans (h.wait q)

omit [DecidableEq T] in
/-- Sorted queues stay sorted. -/
theorem ordered (h : Thinned a b) (ha : Ordered a) : Ordered b where
  key t := by rw [h.orderVal, h.priority, ha.key]
  sorted q hq := by
    rw [h.type] at hq
    simpa only [h.priority] using (ha.sorted q hq).sublist (h.wait q)

omit [DecidableEq T] in
/-- Plain fields other than keys, priorities and queue types. -/
theorem of_vars (hq : b.queue = a.queue) (hk : b.vars.orderVal = a.vars.orderVal)
    (hp : ∀ t, b.priority t = a.priority t) (hs : b.vars.semaphore = a.vars.semaphore)
    (hc : b.vars.condition = a.vars.condition) : Thinned a b where
  orderVal := hk
  priority := hp
  type q := by cases q <;> simp only [queueType, hs, hc]
  wait q := by rw [hq]

omit [DecidableEq T] in
/-- A new count. -/
theorem setCount (a : Kernel Rings T) (s : Nat) (n : Int) : Thinned a (a.setCount s n) where
  orderVal := rfl
  priority _ := rfl
  type q := by
    cases q with
    | semaphore s' =>
      by_cases h : s' = s
      · subst h; simp [queueType]
      · simp [queueType, h]
    | condition c => rfl
  wait _ := .refl _

/-- A new status. -/
theorem setStatus (a : Kernel Rings T) (t : T) (s : Status) : Thinned a (a.setStatus t s) :=
  .of_vars rfl rfl (fun u => by simp) rfl rfl

/-- A new owner. -/
theorem setOwner (a : Kernel Rings T) (t : T) (q : Option WaitQueue) :
    Thinned a (a.setOwner t q) :=
  .of_vars rfl rfl (fun u => by simp) rfl rfl

omit [DecidableEq T] in
/-- New timers. -/
theorem setTimers (a : Kernel Rings T) (m : Timers Rings T Handler T) :
    Thinned a (a.setTimers m) :=
  .of_vars rfl rfl (fun _ => rfl) rfl rfl

omit [DecidableEq T] in
/-- Taking a node out takes it out of one sequence at most. -/
theorem remove_sublist [DecidableEq T] {r r' : Rings QueueHead T} {h : QueueHead}
    (hr : r.remove h t = some r') (h' : QueueHead) : (r'.ring h').Sublist (r.ring h') := by
  have hset : ∀ h₁, ((r.set h₁ ((r.ring h₁).erase t)).ring h').Sublist (r.ring h') := by
    intro h₁
    by_cases hh : h' = h₁
    · subst hh
      rw [Rings.set_ring, Function.update_self]
      exact List.erase_sublist
    · rw [Rings.set_ring, Function.update_of_ne hh]
  unfold Rings.remove at hr
  split at hr
  · cases hr
    exact hset h
  · split at hr
    · split at hr
      · cases hr
      · cases hr
        exact hset _
    · cases hr
      exact .refl _

/-- A task leaves a list. -/
theorem removeNode {h : QueueHead} (hb : a.removeNode h t = some b) : Thinned a b := by
  obtain ⟨r, hr, hb⟩ := Option.bind_eq_some_iff.mp hb
  cases hb
  exact ⟨rfl, fun _ => rfl, fun _ => rfl, fun q => remove_sublist hr _⟩

omit [DecidableEq T] in
/-- The bit of an empty ready queue is cleared. -/
theorem unsetIfEmpty (a : Kernel Rings T) (p : Nat) : Thinned a (a.unsetIfEmpty p) := by
  unfold Kernel.unsetIfEmpty
  split
  · exact .of_vars rfl rfl (fun _ => rfl) rfl rfl
  · exact .refl a

/-- A task is appended to a ready queue. -/
theorem addNodeTail {p : Nat} (hb : a.addNodeTail (.ready p) t = some b) : Thinned a b := by
  obtain ⟨r, hr, hb⟩ := Option.bind_eq_some_iff.mp hb
  cases hb
  refine ⟨rfl, fun _ => rfl, fun _ => rfl, fun q => ?_⟩
  change Rings.addTail _ _ _ = some r at hr
  unfold Rings.addTail at hr
  split at hr
  · cases hr
  · cases hr
    simp

/-- A task goes to its ready queue. -/
theorem addReady (hb : a.addReady t = some b) : Thinned a b := by
  obtain ⟨c, hc, hb⟩ := Option.bind_eq_some_iff.mp hb
  cases hb
  exact (addNodeTail hc).trans (.of_vars rfl rfl (fun _ => rfl) rfl rfl)

/-- A task leaves its ready queue. -/
theorem removeReady (hb : a.removeReady t = some b) : Thinned a b := by
  obtain ⟨c, hc, hb⟩ := Option.bind_eq_some_iff.mp hb
  cases hb
  exact (removeNode hc).trans (unsetIfEmpty c _)

/-- `eos_schedule` (core/task.c:88-139) -/
theorem eosSchedule (hb : a.eosSchedule = some b) : Thinned a b := by
  unfold Kernel.eosSchedule at hb
  split at hb
  · cases hb
    exact .refl a
  · obtain ⟨c, hc, hb⟩ := Option.bind_eq_some_iff.mp hb
    have hac : Thinned a c := by
      unfold Kernel.requeueCurrent at hc
      split at hc
      · cases hc
        exact .refl a
      · split at hc
        · obtain ⟨d, hd, hc⟩ := Option.bind_eq_some_iff.mp hc
          cases hc
          exact (addReady hd).trans (setStatus d _ _)
        · cases hc
          exact .refl a
    obtain ⟨node, -, hb⟩ := Option.bind_eq_some_iff.mp hb
    obtain ⟨next, -, hb⟩ := Option.bind_eq_some_iff.mp hb
    obtain ⟨d, hd, hb⟩ := Option.bind_eq_some_iff.mp hb
    cases hb
    apply hac.trans
    apply (removeNode hd).trans
    apply (unsetIfEmpty d _).trans
    apply (setStatus _ next .running).trans
    exact .of_vars rfl rfl (fun _ => rfl) rfl rfl

/-- `eos_suspend_task` (core/task.c:195-209) -/
theorem eosSuspendTask {task : Option T} {r : UInt32} (hb : a.eosSuspendTask task = some (r, b)) :
    Thinned a b := by
  cases task with
  | none => cases hb; exact .refl a
  | some t =>
    unfold Kernel.eosSuspendTask at hb
    simp only at hb
    split at hb
    · obtain ⟨c, hc, hb⟩ := Option.bind_eq_some_iff.mp hb
      cases hb
      exact (removeReady hc).trans (setStatus c t _)
    · cases hb
      exact .refl a

/-- `eos_resume_task` (core/task.c:212-226) -/
theorem eosResumeTask {task : Option T} {r : UInt32} (hb : a.eosResumeTask task = some (r, b)) :
    Thinned a b := by
  cases task with
  | none => cases hb; exact .refl a
  | some t =>
    unfold Kernel.eosResumeTask at hb
    simp only at hb
    split at hb
    · obtain ⟨c, hc, hb⟩ := Option.bind_eq_some_iff.mp hb
      obtain ⟨d, hd, hb⟩ := Option.bind_eq_some_iff.mp hb
      cases hb
      exact ((addReady hc).trans (setStatus c t _)).trans (eosSchedule hd)
    · cases hb
      exact .refl a

/-- `_os_wakeup_from_alarm_queue` (core/task.c:325-340) -/
theorem osWakeupFromAlarmQueue {arg : Option T} (hb : a.osWakeupFromAlarmQueue arg = some b) :
    Thinned a b := by
  obtain ⟨t, -, hb⟩ := Option.bind_eq_some_iff.mp hb
  obtain ⟨c, hc, hb⟩ := Option.bind_eq_some_iff.mp hb
  obtain ⟨d, hd, hb⟩ := Option.bind_eq_some_iff.mp hb
  cases hb
  have hac : Thinned a c := by
    unfold Kernel.leaveWaitQueue at hc
    split at hc
    · obtain ⟨e, he, hc⟩ := Option.bind_eq_some_iff.mp hc
      cases hc
      exact (removeNode he).trans (setOwner e t none)
    · cases hc
      exact .refl a
  exact (hac.trans (addReady hd)).trans (setStatus d t _)

/-- `_os_wakeup_from_queue` (core/task.c:300-316) -/
theorem osWakeupFromQueue {q : WaitQueue} (hb : a.osWakeupFromQueue q = some b) :
    Thinned a b := by
  unfold Kernel.osWakeupFromQueue at hb
  split at hb
  · cases hb
    exact .refl a
  · obtain ⟨t, -, hb⟩ := Option.bind_eq_some_iff.mp hb
    obtain ⟨c, hc, hb⟩ := Option.bind_eq_some_iff.mp hb
    obtain ⟨d, hd, hb⟩ := Option.bind_eq_some_iff.mp hb
    exact (((removeNode hc).trans (addReady hd)).trans (setStatus d t _)).trans (eosSchedule hb)

/-- `eos_release_semaphore` (core/sync.c:78-94) -/
theorem eosReleaseSemaphore {s : Nat} (hb : a.eosReleaseSemaphore s = some b) : Thinned a b := by
  unfold Kernel.eosReleaseSemaphore at hb
  simp only at hb
  split at hb
  · cases hb
    exact setCount a s _
  · exact (setCount a s _).trans (osWakeupFromQueue hb)

/-- The call of a handler (core/timer.c:82) -/
theorem callHandler {handler : Handler} {arg : Option T} (hb : a.callHandler handler arg = some b) :
    Thinned a b := by
  cases handler with
  | osWakeupFromAlarmQueue => exact osWakeupFromAlarmQueue hb
  | user n =>
    cases hb
    exact .refl _

/-- The loop of `eos_trigger_counter` (core/timer.c:75-88) -/
theorem triggerLoop {fuel : Nat}
    (hb : Model.triggerLoop Kernel.timers Kernel.setTimers Kernel.callHandler systemTimer fuel a =
      some b) : Thinned a b := by
  refine (triggerLoop_invariant (I := Thinned a) ?_ (.refl a) hb).1
  rintro s _ s' alarm queue handler hs - - rfl - hs'
  exact hs.trans ((setTimers s _).trans (callHandler hs'))

variable [Fintype T]

/-- A tick (core/timer.c:60-92) -/
theorem eosTriggerCounter (hb : a.eosTriggerCounter = some b) : Thinned a b := by
  obtain ⟨c, hc, hb⟩ := Option.bind_eq_some_iff.mp hb
  exact ((setTimers a _).trans (triggerLoop hc)).trans (eosSchedule hb)

/-- A task sets its alarm. -/
theorem setAlarm {timeout : UInt32} {entry : Option Handler} {arg : Option T}
    (hb : a.setAlarm t timeout entry arg = some b) : Thinned a b := by
  obtain ⟨m, -, hb⟩ := Option.bind_eq_some_iff.mp hb
  cases hb
  exact setTimers a m

/-- The end of `eos_sleep`. -/
theorem sleepFor {timeout : UInt32} (hb : a.sleepFor t timeout = some b) : Thinned a b := by
  obtain ⟨c, hc, hb⟩ := Option.bind_eq_some_iff.mp hb
  exact ((setAlarm hc).trans (setStatus c t _)).trans (eosSchedule hb)

/-- `eos_sleep` (core/task.c:229-256) -/
theorem eosSleep {tick : UInt32} (hb : a.eosSleep tick = some b) : Thinned a b := by
  unfold Kernel.eosSleep at hb
  split at hb
  · cases hb
    exact .refl a
  · obtain ⟨t, -, hb⟩ := Option.bind_eq_some_iff.mp hb
    have htcb : Thinned a
        (a.setTcb t fun b => { b with wakeupTime := b.wakeupTime + b.period }) :=
      .of_vars rfl rfl (Kernel.field_setTcb Tcb.priority rfl) rfl rfl
    simp only at hb
    split at hb
    · split at hb
      · cases hb
        exact htcb
      · exact htcb.trans (sleepFor hb)
    · exact sleepFor hb

end Thinned

end Thinned

/-! ## What inserts tasks and changes priorities -/

section Ordered

variable {T : Type} [DecidableEq T] {idle t : T} {a b : Kernel Rings T}

namespace Ordered

/-- A task gets another priority and the key that goes with it. -/
theorem setPriority (h : Ordered a) (hnd : ∀ q, (a.queue.ring (.wait q)).Nodup) {p : Nat}
    (f : Tcb → Tcb)
    (hf : (f (a.vars.tcb t)).priority = p)
    (hfit : ∀ q xs ys, queueType a.vars q ≠ 0 → a.queue.ring (.wait q) = xs ++ t :: ys →
      (∀ x ∈ xs, a.priority x ≤ p) ∧ ∀ y ∈ ys, p ≤ a.priority y) :
    Ordered ((a.setTcb t f).setOrderVal t p) := by
  have hself : ((a.setTcb t f).setOrderVal t p).priority t = p := by simp [Kernel.priority, hf]
  have hother : ∀ u ≠ t, ((a.setTcb t f).setOrderVal t p).priority u = a.priority u := by
    intro u hu
    simp [Kernel.priority, hu]
  constructor
  · intro u
    by_cases hu : u = t
    · subst hu
      rw [hself]
      simp
    · rw [hother u hu, ← h.key u]
      simp [hu]
  · intro q hq
    have hsorted := h.sorted q hq
    show (a.queue.ring (.wait q)).Pairwise _
    by_cases ht : t ∈ a.queue.ring (.wait q)
    · obtain ⟨xs, ys, hxs⟩ := List.append_of_mem ht
      obtain ⟨hle, hge⟩ := hfit q xs ys hq hxs
      have hn := hnd q
      rw [hxs] at hn hsorted ⊢
      have htx : ∀ u ∈ xs, u ≠ t := fun u hu e =>
        (List.nodup_append.mp hn).2.2 u hu t List.mem_cons_self e
      have hty : ∀ u ∈ ys, u ≠ t := fun u hu e =>
        (List.nodup_cons.mp (List.nodup_append.mp hn).2.1).1 (e ▸ hu)
      rw [List.pairwise_append, List.pairwise_cons] at hsorted ⊢
      obtain ⟨hx, ⟨-, hy⟩, hxy⟩ := hsorted
      refine ⟨hx.imp_of_mem fun hu hv huv => ?_,
        ⟨fun y hy => ?_, hy.imp_of_mem fun hu hv huv => ?_⟩,
        fun x hx y hy => ?_⟩
      · rwa [hother _ (htx _ hu), hother _ (htx _ hv)]
      · rw [hself, hother y (hty y hy)]
        exact hge y hy
      · rwa [hother _ (hty _ hu), hother _ (hty _ hv)]
      · rw [hother x (htx x hx)]
        obtain rfl | hy := List.mem_cons.mp hy
        · rw [hself]
          exact hle x hx
        · rw [hother y (hty y hy)]
          exact hxy x hx y (List.mem_cons_of_mem _ hy)
    · refine hsorted.imp_of_mem fun {u v} hu hv huv => ?_
      have hut : u ≠ t := fun e => ht (e ▸ hu)
      have hvt : v ≠ t := fun e => ht (e ▸ hv)
      rwa [hother u hut, hother v hvt]

/-- `eos_create_task` on a task in no wait queue (core/task.c:34-79) -/
theorem eosCreateTask (h : Ordered a) (hnd : ∀ q, (a.queue.ring (.wait q)).Nodup) {task : Option T}
    (ht : ∀ t ∈ task, ∀ q, t ∉ a.queue.ring (.wait q)) {start size entry : UInt64} {p : Nat}
    {r : UInt32} (hb : a.eosCreateTask task start size entry p = some (r, b)) : Ordered b := by
  unfold Kernel.eosCreateTask at hb
  split at hb
  · cases hb
    exact h
  · next t =>
    split at hb
    · cases hb
      exact h
    split at hb
    · cases hb
      exact h
    split at hb
    · cases hb
      exact h
    · obtain ⟨c, hc, hb⟩ := Option.bind_eq_some_iff.mp hb
      obtain ⟨d, hd, hb⟩ := Option.bind_eq_some_iff.mp hb
      cases hb
      have hpn : Ordered (a.setPnode t) := ⟨h.key, h.sorted⟩
      have hpr := hpn.setPriority (t := t) hnd (p := p)
        (fun b => { b with priority := p, period := 0, wakeupTime := 0 }) rfl fun q xs ys _ hx =>
          absurd (show t ∈ a.queue.ring (.wait q) by
            rw [show a.queue.ring (.wait q) = _ from hx]; simp) (ht t rfl q)
      exact (((Thinned.addReady hc).trans (.setStatus c t _)).trans (.eosSchedule hd)).ordered hpr

/-- **`eos_change_priority`** keeps the order if the task is in no wait queue or stays between its
neighbours (core/task.c:148-172). -/
theorem eosChangePriority (h : Ordered a) (hnd : ∀ q, (a.queue.ring (.wait q)).Nodup) {p : Nat}
    (hr : a.status t = .ready → ∀ q, t ∉ a.queue.ring (.wait q))
    (hfit : p ≤ lowestPriority → ∀ q xs ys, queueType a.vars q ≠ 0 →
      a.queue.ring (.wait q) = xs ++ t :: ys →
      (∀ x ∈ xs, a.priority x ≤ p) ∧ ∀ y ∈ ys, p ≤ a.priority y)
    (hb : a.eosChangePriority (some t) p = some b) : Ordered b := by
  unfold Kernel.eosChangePriority at hb
  simp only at hb
  split at hb
  · cases hb
    exact h
  · next hp =>
    obtain ⟨c, hc, hb⟩ := Option.bind_eq_some_iff.mp hb
    have hac : Thinned a c ∧ ((∀ q, t ∉ c.queue.ring (.wait q)) ∨ c = a) := by
      split at hc
      · next hs =>
        obtain ⟨d, hd, hc⟩ := Option.bind_eq_some_iff.mp hc
        obtain ⟨e, he, hc⟩ := Option.bind_eq_some_iff.mp hc
        cases hc
        have hth := ((Thinned.removeReady hd).trans (.addNodeTail he)).trans
          (.of_vars rfl rfl (fun _ => rfl) rfl rfl : Thinned e (e.osSetReady p))
        exact ⟨hth, .inl fun q hq => hr hs q ((hth.wait q).subset hq)⟩
      · cases hc
        exact ⟨.refl a, .inr rfl⟩
    obtain ⟨hth, hplace⟩ := hac
    have hpr := (hth.ordered h).setPriority (t := t) (fun q => (hth.wait q).nodup (hnd q)) (p := p)
      (fun b => { b with priority := p }) rfl fun q xs ys hq hx => by
        rcases hplace with hfree | rfl
        · exact absurd (hx ▸ by simp) (hfree q)
        · exact hfit (Nat.not_lt.mp hp) q xs ys hq hx
    exact (Thinned.eosSchedule hb).ordered hpr

variable [Fintype T]

/-- `_os_wait_in_queue` (core/task.c:273-297) -/
theorem osWaitInQueue (h : Ordered a) {q : WaitQueue}
    (hb : a.osWaitInQueue q (queueType a.vars q) = some b) : Ordered b := by
  obtain ⟨t, -, hb⟩ := Option.bind_eq_some_iff.mp hb
  obtain ⟨c, hc, hb⟩ := Option.bind_eq_some_iff.mp hb
  have hordered : Ordered c := by
    unfold Kernel.addWaiter at hc
    split at hc
    · next hfifo =>
      obtain ⟨r, hr, hc⟩ := Option.bind_eq_some_iff.mp hc
      cases hc
      change Rings.addTail _ _ _ = some r at hr
      unfold Rings.addTail at hr
      split at hr
      · cases hr
      · cases hr
        refine ⟨h.key, fun q' hq' => ?_⟩
        have hne : q' ≠ q := fun e => hq' (e ▸ hfifo)
        have hsorted := h.sorted q' hq'
        simpa [hne] using hsorted
    · obtain ⟨r, hr, hc⟩ := Option.bind_eq_some_iff.mp hc
      cases hc
      change Rings.addOrdered _ _ _ _ = some r at hr
      unfold Rings.addOrdered at hr
      split at hr
      · cases hr
      · cases hr
        refine ⟨h.key, fun q' hq' => ?_⟩
        have hsorted := h.sorted q' hq'
        by_cases hqq : q' = q
        · subst hqq
          have hkey : a.vars.orderVal = a.priority := funext h.key
          have hins : (insertOrdered a.vars.orderVal t (a.queue.ring (.wait q'))).Pairwise
              fun u v => a.priority u ≤ a.priority v :=
            pairwise_insertOrdered hsorted (fun x _ y _ hxy => hkey ▸ hxy) (fun _ _ _ _ => id)
              (fun x _ hx => hkey ▸ hx) fun x _ hx => hkey ▸ hx.le
          simpa using hins
        · simpa [hqq] using hsorted
  have hth := ((Thinned.setOwner c t (some q)).trans (.setStatus _ t .waiting)).trans
    (.eosSchedule hb)
  exact hth.ordered hordered

/-- `eos_acquire_semaphore` (core/sync.c:25-75) -/
theorem eosAcquireSemaphore (h : Ordered a) {s : Nat} {timeout : Int32} {r : CallResult}
    (hb : a.eosAcquireSemaphore s timeout = some (r, b)) : Ordered b := by
  unfold Kernel.eosAcquireSemaphore at hb
  split at hb
  · cases hb
    exact h
  simp only at hb
  split at hb
  · split at hb
    · cases hb
      exact h
    · obtain ⟨t, -, hb⟩ := Option.bind_eq_some_iff.mp hb
      obtain ⟨c, hc, hb⟩ := Option.bind_eq_some_iff.mp hb
      obtain ⟨d, hd, hb⟩ := Option.bind_eq_some_iff.mp hb
      cases hb
      exact ((Thinned.setAlarm hc).ordered h).osWaitInQueue hd
  · cases hb
    exact (Thinned.setCount a s _).ordered h

/-- `eos_acquire_semaphore` behind `_os_wait_in_queue` (core/sync.c:58-75) -/
theorem acquireRetry (h : Ordered a) {s : Nat} {timeout : Int32} {absTimeout : UInt32}
    {r : CallResult} (hb : a.acquireRetry s timeout absTimeout = some (r, b)) : Ordered b := by
  unfold Kernel.acquireRetry at hb
  split at hb
  · cases hb
    exact h
  split at hb
  · obtain ⟨c, hc, hb⟩ := Option.bind_eq_some_iff.mp hb
    cases hb
    exact h.osWaitInQueue hc
  · obtain ⟨t, -, hb⟩ := Option.bind_eq_some_iff.mp hb
    obtain ⟨c, hc, hb⟩ := Option.bind_eq_some_iff.mp hb
    cases hb
    exact ((Thinned.setAlarm hc).trans (.setCount c s _)).ordered h

/-- `eos_wait_condition` behind `eos_release_semaphore` (core/sync.c:121-126) -/
theorem waitCondition (h : Ordered a) {c m : Nat} {r : CallResult}
    (hb : a.waitCondition c m = some (r, b)) : Ordered b := by
  obtain ⟨d, hd, hb⟩ := Option.bind_eq_some_iff.mp hb
  have hordered := h.osWaitInQueue hd
  split at hb
  · exact hordered.eosAcquireSemaphore hb
  · cases hb
    exact hordered

/-- `eos_wait_condition` (core/sync.c:113-126) -/
theorem eosWaitCondition (h : Ordered a) {c m : Nat} {r : CallResult}
    (hb : a.eosWaitCondition c m = some (r, b)) : Ordered b := by
  obtain ⟨d, hd, hb⟩ := Option.bind_eq_some_iff.mp hb
  have hordered := (Thinned.eosReleaseSemaphore hd).ordered h
  split at hb
  · exact hordered.waitCondition hb
  · cases hb
    exact hordered

/-- A call goes on. -/
theorem goOn (h : Ordered a) {resume : Resume} {r : CallResult}
    (hb : a.goOn resume = some (r, b)) : Ordered b := by
  cases resume with
  | user => cases hb
  | acquire s timeout absTimeout => exact h.acquireRetry hb
  | released c m => exact h.waitCondition hb
  | notified m => exact h.eosAcquireSemaphore hb

end Ordered

end Ordered

/-! ## Runs -/

section Runs

variable {T : Type} [DecidableEq T] {idle t : T} {a : Kernel Rings T} {k : Kernel LinkMem T}

omit [DecidableEq T] in
/-- In a sorted queue, a priority that fits between the neighbours fits between all tasks before
and behind. -/
theorem FitsBetween.fits {ring : QueueHead → List T} (hok : RingsOk k.queue ring) {q : WaitQueue}
    {p : Nat} (h : FitsBetween k t p q) {xs ys : List T} (hxs : ring (.wait q) = xs ++ t :: ys)
    (hsorted : (ring (.wait q)).Pairwise fun u v => k.priority u ≤ k.priority v) :
    (∀ x ∈ xs, k.priority x ≤ p) ∧ ∀ y ∈ ys, p ≤ k.priority y := by
  obtain ⟨hnext, hprev⟩ := h
  have hring := hok.isRing (.wait q)
  have hnd := hok.nodup (.wait q)
  have hhead : k.head (.wait q) = (ring (.wait q)).head? := hok.head (.wait q)
  rw [hxs] at hring hnd hsorted hhead
  rw [List.pairwise_append, List.pairwise_cons] at hsorted
  obtain ⟨hx, ⟨-, hy⟩, -⟩ := hsorted
  obtain ⟨-, hndt, hdisj⟩ := List.nodup_append.mp hnd
  constructor
  · intro x hmem
    have hne : xs ≠ [] := List.ne_nil_of_mem hmem
    have hlast : xs = xs.dropLast ++ [xs.getLast hne] := (List.dropLast_append_getLast hne).symm
    rw [hlast, List.append_assoc] at hring
    have hp := hprev _ hring.linked.2 fun hc => by
      rw [hhead, List.head?_append_of_ne_nil _ hne] at hc
      exact hdisj t (List.mem_of_mem_head? hc) t List.mem_cons_self rfl
    rw [hlast, List.mem_append, List.mem_singleton] at hmem
    rcases hmem with hmem | rfl
    · rw [hlast, List.pairwise_append] at hx
      exact (hx.2.2 x hmem _ (List.mem_singleton_self _)).trans hp
    · exact hp
  · intro y hmem
    cases ys with
    | nil => cases hmem
    | cons n ys =>
      have hn := hnext n hring.linked.1 fun hc => by
        rw [hhead] at hc
        cases xs with
        | nil =>
          rw [List.nil_append, List.head?_cons, Option.some.injEq] at hc
          exact (List.nodup_cons.mp hndt).1 (hc ▸ List.mem_cons_self)
        | cons x xs =>
          rw [List.cons_append, List.head?_cons, Option.some.injEq] at hc
          exact hdisj x List.mem_cons_self n (List.mem_cons_of_mem _ List.mem_cons_self) hc
      obtain rfl | hmem := List.mem_cons.mp hmem
      · exact hn
      · exact hn.trans ((List.pairwise_cons.mp hy).1 y hmem)

variable [Fintype T] {s₀ s : System LinkMem T} {x x' : System Rings T}

/-- **Every step** that lets waiting tasks keep their places keeps the order. -/
theorem Ordered.call (ho : Ordered x.kernel) (h : SystemOk idle s x) {call : Call T}
    (hadm : Admissible idle s call) (hkeep : KeepsPlace s.kernel call)
    (hx' : x.exec call = some x') : Ordered x'.kernel := by
  have hnd : ∀ q, (x.kernel.queue.ring (.wait q)).Nodup := fun q => h.scheduled.nodup _
  cases System.exec_effect hx' with
  | @kernel o b hb =>
    obtain ⟨-, hcall, ha, -⟩ := hadm
    cases o with
    | createTask task start size entry p =>
      obtain ⟨⟨r, b'⟩, hb', hb⟩ := Option.map_eq_some_iff.mp hb
      obtain rfl : b' = b := hb
      refine ho.eosCreateTask hnd (fun t ht q hq => ?_) hb'
      have hz : x.kernel.vars.tcb t = .zero := by
        rw [← h.kernel.vars]
        obtain rfl := Option.mem_def.mp ht
        exact of_decide_eq_true ha
      have hw := ((h.scheduled.placed t).waiting q hq).1
      rw [Kernel.status, hz] at hw
      cases hw
    | changePriority task p =>
      cases task with
      | none =>
        cases hb
        exact ho
      | some t =>
        have hw : ∀ q, t ∈ x.kernel.queue.ring (.wait q) → x.kernel.status t = .waiting ∧
            x.kernel.waitQueueOwner t = some q := fun q => (h.scheduled.placed t).waiting q
        refine ho.eosChangePriority hnd (fun hr q hq => ?_) (fun hp q xs ys hq hxs => ?_) hb
        · rw [(hw q hq).1] at hr
          cases hr
        · obtain ⟨hs, howner⟩ := hw q (hxs ▸ by simp)
          have hprio : ∀ u, s.kernel.priority u = x.kernel.priority u := h.kernel.priority
          have hfit := hkeep hp (by rw [h.kernel.status, hs]) q
            (by rw [Option.mem_def, h.kernel.waitQueueOwner, howner]) (by rwa [h.kernel.vars])
          have hfits := hfit.fits h.kernel.queue hxs (by simpa only [hprio] using ho.sorted q hq)
          simpa only [hprio] using hfits
    | schedule => exact (Thinned.eosSchedule hb).ordered ho
    | setPeriod t p =>
      cases hb
      have hth : Thinned x.kernel (x.kernel.eosSetPeriod t p) :=
        .of_vars rfl rfl (Kernel.field_setTcb Tcb.priority rfl) rfl rfl
      exact hth.ordered ho
    | suspendTask task =>
      obtain ⟨⟨r, b'⟩, hb', hb⟩ := Option.map_eq_some_iff.mp hb
      obtain rfl : b' = b := hb
      exact (Thinned.eosSuspendTask hb').ordered ho
    | resumeTask task =>
      obtain ⟨⟨r, b'⟩, hb', hb⟩ := Option.map_eq_some_iff.mp hb
      obtain rfl : b' = b := hb
      exact (Thinned.eosResumeTask hb').ordered ho
    | sleep tick => exact (Thinned.eosSleep hb).ordered ho
    | tick => exact (Thinned.eosTriggerCounter hb).ordered ho
    | lockScheduler | restoreScheduler _ | waitInQueue _ _ | wakeupFromQueue _ | start =>
      cases hcall
  | release hb => exact (Thinned.eosReleaseSemaphore hb).ordered ho
  | notify hb => exact (Thinned.osWakeupFromQueue hb).ordered ho
  | part hc hb =>
    rw [System.leave_kernel]
    cases call with
    | acquire sem timeout => exact ho.eosAcquireSemaphore hb
    | waitCondition c m => exact ho.eosWaitCondition hb
    | goOn => exact ho.goOn hb
    | kernel | release | notifyCondition => cases hb

/-- The queues are ordered when multitasking starts. -/
theorem Booted.ordered (h : Booted idle s) : ∃ x, SystemOk idle s x ∧ Ordered x.kernel := by
  apply h.invariant (J := Ordered)
  · exact fun _ _ => ⟨fun _ => rfl, fun _ _ => .nil⟩
  · intro a b task start size entry p hc ho hz hb
    obtain ⟨⟨r, b'⟩, hb', hb⟩ := Option.map_eq_some_iff.mp hb
    obtain rfl : b' = b := hb
    refine ho.eosCreateTask (fun q => hc.nodup _) (fun t ht q hq => ?_) hb'
    have hw := ((hc.placed t).waiting q hq).1
    rw [Kernel.status, hz t ht] at hw
    cases hw
  · intro a b _ ho hb
    have hth : Thinned a (a.setLock unlocked) := .of_vars rfl rfl (fun _ => rfl) rfl rfl
    exact (hth.trans (.eosSchedule hb)).ordered ho

omit [Fintype T] in
/-- `_os_wakeup_from_queue` wakes the first task of the queue. -/
theorem wakes_first (hr : Repr k a) (h : Scheduled idle a) {q : WaitQueue} {rest : List T}
    (hq : a.queue.ring (.wait q) = t :: rest) : Wakes k q t := by
  have ht : t ∈ a.queue.ring (.wait q) := hq ▸ List.mem_cons_self
  obtain ⟨m, hm, hmv, hsm, -, htm, -⟩ := osWakeupFromQueue_moved h.toConsistent hq
  obtain ⟨b, hb, -, -, -, -, -, hout⟩ := h.moved_advance (some q) hmv (fun _ => .inl hsm)
    (by simp [hsm]) (fun q' hne hq' => absurd (by cases h.eq_of_mem ht hq'; rfl) hne)
    fun hp => .inl (htm ▸ hp)
  obtain ⟨k', hk', hr'⟩ := hr.osWakeupFromQueue q b (hm.trans hb)
  refine ⟨k', hk', ?_, fun u hu hw => ?_⟩
  · rw [hr'.status]
    rcases hout with ⟨-, rfl⟩ | ⟨-, next, hd⟩
    · simp [hsm]
    · by_cases hn : t = next
      · simp [hn, hd.running]
      · rw [hd.others t hn, hsm]
        split <;> simp
  · rw [hr.status] at hw
    rw [hr'.status, ← hw, ← hmv.status hu]
    rw [← hmv.status hu] at hw
    rcases hout with ⟨-, rfl⟩ | ⟨-, next, hd⟩
    · rfl
    · exact hd.status_eq (by simp [hw]) (by simp [hw])

omit [Fintype T] in
/-- In an ordered state, `_os_wakeup_from_queue` wakes a most urgent task. -/
theorem Ordered.wakes_most_urgent (ho : Ordered x.kernel) (h : SystemOk idle s x) :
    MostUrgentFirst s.kernel := by
  have hprio : ∀ u, s.kernel.priority u = x.kernel.priority u := h.kernel.priority
  refine ⟨x.kernel.queue.ring, h.kernel.queue, fun q hq => ?_⟩
  rw [h.kernel.vars] at hq
  have hsorted := ho.sorted q hq
  simp only [hprio]
  refine ⟨hsorted, fun hne => ?_⟩
  obtain ⟨t, rest, hring⟩ := List.exists_cons_of_ne_nil hne
  refine ⟨t, hring ▸ List.mem_cons_self, wakes_first h.kernel h.scheduled hring, fun u hu => ?_⟩
  rw [hring] at hu hsorted
  obtain rfl | hu := List.mem_cons.mp hu
  · exact le_rfl
  · exact (List.pairwise_cons.mp hsorted).1 u hu

/-- **The wait queues wake the most urgent task first**, in every state of a run in which no
`eos_change_priority` takes a waiting task past its neighbours in a queue of type `PRIORITY` and
ticks find the due alarms of ready tasks in order; and every further such step has a result. -/
theorem mostUrgentFirst (h₀ : Booted idle s₀)
    (hs : Reach System.exec (fun s call => Admissible idle s call ∧ TicksInOrder s.kernel call ∧
      KeepsPlace s.kernel call) s₀ s) :
    MostUrgentFirst s.kernel ∧ ∀ call, Admissible idle s call →
      call = .kernel .tick ∨ TaskCall s call → TicksInOrder s.kernel call →
        ∃ s', s.exec call = some s' := by
  obtain ⟨x, hx, ho⟩ := hs.invariant (I := fun s => ∃ x, SystemOk idle s x ∧ Ordered x.kernel)
    h₀.ordered (by
      rintro s s' call ⟨x, hx, ho⟩ ⟨hadm, -, hkeep⟩ hs'
      obtain ⟨x', hx', hok, -⟩ := call_simulates hx hadm hs'
      exact ⟨x', hok, ho.call hx hadm hkeep hx'⟩)
  exact ⟨ho.wakes_most_urgent hx, fun call => call_total hx⟩

end Runs

/-! ## A run that violates the property -/

section Violation

/-- Three tasks, the idle one and two that wait for semaphore 0, of type `PRIORITY`. -/
def waiters {T : Type} [DecidableEq T] [Fintype T] (idle t u : T) : Option (System LinkMem T) :=
  boot idle (fun _ => ⟨0, 1⟩) (fun _ => ⟨1⟩)
    [.createTask (some t) 4096 4096 4096 5, .createTask (some u) 4096 4096 4096 7]

/-- Both tasks wait, and `t` gets priority `p`. -/
def reprioritised {T : Type} (t : T) (p : Nat) : List (Call T) :=
  [.acquire 0 0, .acquire 0 0, .kernel (.changePriority (some t) p)]

/-- With priority 6, task 0 stays before task 1, a tick lets both wait on, and a second tick has a
result. -/
theorem mostUrgentFirst_kept :
    ∃ s₀ s, Booted (2 : Fin 3) s₀ ∧ Reach System.exec (Admissible 2) s₀ s ∧
      s.kernel.priority 0 = 6 ∧ s.kernel.tick = 1 ∧ MostUrgentFirst s.kernel ∧
      ∃ s', s.exec (.kernel .tick) = some s' := by
  obtain ⟨s₀, s, hs₀, hrun, hp, htick, hadm, hdue⟩ := Reach.of_decide System.exec
    (fun s call => Admissible 2 s call ∧ TicksInOrder s.kernel call ∧ KeepsPlace s.kernel call)
    (waiters (2 : Fin 3) 0 1) (reprioritised 0 6 ++ [.kernel .tick])
    (fun _ s => s.kernel.priority 0 = 6 ∧ s.kernel.tick = 1 ∧ Admissible 2 s (.kernel .tick) ∧
      TicksInOrder s.kernel (.kernel .tick)) (by decide +kernel)
  obtain ⟨hmost, hnext⟩ := mostUrgentFirst (booted_of_boot hs₀) hrun
  exact ⟨s₀, s, booted_of_boot hs₀, hrun.mono fun _ _ => And.left, hp, htick, hmost,
    hnext _ hadm (.inl rfl) hdue⟩

/-- **A release wakes the wrong task**: task 0 gets priority 9 while it waits, and is still woken
before task 1, of priority 7. -/
theorem mostUrgentFirst_violated :
    ∃ s₀ s, Booted (2 : Fin 3) s₀ ∧ Reach System.exec (Admissible 2) s₀ s ∧
      ¬MostUrgentFirst s.kernel := by
  obtain ⟨s₀, s, hs₀, hrun, htype, hhead, hnext, hp₀, hp₁⟩ :=
    Reach.of_decide System.exec (Admissible 2) (waiters (2 : Fin 3) 0 1) (reprioritised 0 9)
      (fun _ s => queueType s.kernel.vars (.semaphore 0) = 1 ∧
        s.kernel.head (.wait (.semaphore 0)) = some 0 ∧ s.kernel.queue.next 0 = some 1 ∧
        s.kernel.priority 0 = 9 ∧ s.kernel.priority 1 = 7) (by decide +kernel)
  refine ⟨s₀, s, booted_of_boot hs₀, hrun, ?_⟩
  rintro ⟨ring, hok, h⟩
  obtain ⟨hsorted, -⟩ := h (.semaphore 0) (by rw [htype]; decide)
  have hring := hok.isRing (.wait (.semaphore 0))
  have hfirst := (hok.head (.wait (.semaphore 0))).symm.trans hhead
  obtain ⟨rest, hxs⟩ := List.head?_eq_some_iff.mp hfirst
  rw [hxs] at hring hsorted
  cases rest with
  | nil =>
    have hself := (isRing_cons_iff.mp hring).2.1
    rw [List.getLast_singleton, hnext] at hself
    cases hself
  | cons u rest =>
    have hlink := (show IsRing s.kernel.queue ([] ++ 0 :: u :: rest) from hring).linked.1
    rw [hnext, Option.some.injEq] at hlink
    have hle := (List.pairwise_cons.mp hsorted).1 u List.mem_cons_self
    rw [← hlink, hp₀, hp₁] at hle
    omega

end Violation

end Eos.Analysis
