import Eos.Analysis.TickCalls
import Eos.Analysis.Timeless

/-!
# Ticks between the statements of a routine

When a tick comes between two statements of a routine, less holds than between two calls:
a task may have an alarm pending before it waits, and a task that has lost the processor in
`eos_schedule` may keep the status `RUNNING`.  `Orderly a` is what is left: every queue node
is linked as its TCB says, whatever alarms are pending, and the alarms are in order.

If the alarms that a tick finds due are in order (`DueInOrder`), their handlers come to an end,
and the tick leads to an orderly state (`tick_turned`).
-/

set_option autoImplicit false

namespace Eos.Analysis

open Eos.Lib (LinkMem RingsOk Refines)
open Eos.Model
open Eos.Interface (Rings Linked Repr osRemoveNode_refines)

variable {T : Type} [DecidableEq T] {a a' b : Kernel Rings T} {t u c : T}
  {k k' s : Kernel LinkMem T}

/-! ## Orderly states -/

/-- The kernel with no alarm pending. -/
def calm (a : Kernel Rings T) : Kernel Rings T :=
  a.setTimers { a.timers with alarmQueue := ⟨fun _ => []⟩ }

/-- Every queue node is linked as its TCB says, and the alarms are in order. -/
structure Orderly (a : Kernel Rings T) : Prop where
  lists : Consistent (calm a)
  alarms : AlarmsOk a.timers
  created : ∀ t, Pending a.timers t → a.status t ≠ .zeroed

omit [DecidableEq T] in
/-- In a calmed kernel no alarm is pending. -/
theorem not_pending_calm : ¬Pending (calm a).timers t := by
  rintro ⟨_, hc⟩
  cases hc

omit [DecidableEq T] in
/-- Its alarms are in order, since there are none. -/
theorem alarmsOk_calm (a : Kernel Rings T) : AlarmsOk (calm a).timers where
  nodup _ := List.nodup_nil
  counter _ _ hc := by cases hc
  pnode _ hp := absurd hp not_pending_calm
  handler _ hp := absurd hp not_pending_calm
  arg _ hp := absurd hp not_pending_calm

omit [DecidableEq T] in
/-- A consistent state is orderly. -/
theorem Consistent.orderly (h : Consistent a) : Orderly a :=
  ⟨h.setTimers (alarmsOk_calm a) fun _ hp => absurd hp not_pending_calm, h.alarms,
    fun t => (h.placed t).created⟩

/-- A status that is written is not that of zeroed memory. -/
theorem zeroed_setStatus {st : Status} (hst : st ≠ .zeroed) :
    (a.setStatus t st).status u = .zeroed → a.status u = .zeroed := by
  intro hu
  rw [Kernel.status_setStatus] at hu
  split at hu
  · exact absurd hu hst
  · exact hu

namespace Orderly

omit [DecidableEq T] in
/-- The alarms are the same, and no task is back in zeroed memory. -/
theorem of_lists (h : Orderly a) (hl : Consistent (calm a')) (ht : a'.timers = a.timers)
    (hz : ∀ t, a'.status t = .zeroed → a.status t = .zeroed) : Orderly a' :=
  ⟨hl, by rw [ht]; exact h.alarms, fun t hp hc => h.created t (by rwa [ht] at hp) (hz t hc)⟩

omit [DecidableEq T] in
/-- A ready task is in the ready queue of its priority. -/
theorem mem_ready (h : Orderly a) (hs : a.status t = .ready) :
    t ∈ a.queue.ring (.ready (a.priority t)) := h.lists.mem_ready hs

omit [DecidableEq T] in
/-- A task in a wait queue waits there. -/
theorem waiting (h : Orderly a) {q : WaitQueue} (hq : t ∈ a.queue.ring (.wait q)) :
    a.status t = .waiting ∧ a.waitQueueOwner t = some q := (h.lists.placed t).waiting q hq

omit [DecidableEq T] in
/-- A task that is neither ready nor waiting is linked nowhere. -/
theorem free (h : Orderly a) (hr : a.status t ≠ .ready) (hw : a.status t ≠ .waiting) :
    ¬Linked a.queue t := h.lists.free hr hw

omit [DecidableEq T] in
/-- Other fields of the kernel change. -/
theorem congr (h : Orderly a) (hq : a'.queue = a.queue) (ht : a'.timers = a.timers)
    (hv : a'.vars.tcb = a.vars.tcb) (hp : a'.vars.pnode = a.vars.pnode)
    (hr : a'.vars.readyList = a.vars.readyList) : Orderly a' := by
  refine h.of_lists (h.lists.congr hq ?_ hv hp hr) ht fun t hc => ?_
  · simp only [calm, Kernel.setTimers_timers, ht]
  · rwa [Kernel.status, hv] at hc

omit [DecidableEq T] in
/-- The alarms change. -/
theorem setTimers (h : Orderly a) {m : Timers Rings T Handler T} (hm : AlarmsOk m)
    (hz : ∀ t, Pending m t → a.status t ≠ .zeroed) : Orderly (a.setTimers m) :=
  ⟨h.lists.setTimers (alarmsOk_calm (a.setTimers m)) fun _ hp => absurd hp not_pending_calm, hm, hz⟩

omit [DecidableEq T] in
/-- An alarm leaves the alarm queue. -/
theorem pop [DecidableEq T] (h : Orderly a) (t : T) : Orderly (popped a t) :=
  ⟨h.lists, h.alarms.dropAlarm_ok, fun u hu => h.created u (h.alarms.pending_dropAlarm.mp hu).1⟩

end Orderly

/-! ## From the calm kernel to the kernel -/

omit [DecidableEq T] in
/-- A function that leaves the timers alone does with alarms what it does without. -/
theorem calm_lift {f : Kernel Rings T → Option (Kernel Rings T)}
    (hf : ∀ m k, f (retime m 0 k) = (f k).map (retime m 0)) (h : f (calm a) = some b) :
    f a = some (b.setTimers a.timers) ∧ calm (b.setTimers a.timers) = b := by
  have hback : retime a.timers 0 (calm a) = a := retime_zero a.timers (calm a)
  constructor
  · have := hf a.timers (calm a)
    rwa [hback, h, Option.map_some, retime_zero] at this
  · have htm : b.timers = (calm a).timers := timers_of_retime hf h
    show b.setTimers { a.timers with alarmQueue := ⟨fun _ => []⟩ } = b
    rw [show { a.timers with alarmQueue := ⟨fun _ => []⟩ } = (calm a).timers from rfl, ← htm]
    rfl

/-! ## Moves -/

namespace Orderly

/-- A task that runs or is made ready is appended to its ready queue; once its bit is set and its
status written the kernel is orderly. -/
theorem add_ready (h : Orderly a) (hf : ¬Linked a.queue t) (hz : a.status t ≠ .zeroed) :
    a.addNodeTail (.ready (a.priority t)) t = some (append a (.ready (a.priority t)) t) ∧
      Orderly (((append a (.ready (a.priority t)) t).osSetReady (a.priority t)).setStatus t
        .ready) := by
  refine ⟨addNodeTail_eq hf _, h.of_lists ((h.lists.detached hf).attach_ready (h.lists.pnode t hz)
    fun hp => absurd hp not_pending_calm) rfl fun u => zeroed_setStatus (by simp)⟩

/-- A ready task is taken out of its ready queue; once the bitmap is updated and its status
written the kernel is orderly. -/
theorem remove_ready (h : Orderly a) (hs : a.status t = .ready) :
    a.removeNode (.ready (a.priority t)) t = some (detach a (.ready (a.priority t)) t) ∧
      Orderly (((detach a (.ready (a.priority t)) t).unsetIfEmpty (a.priority t)).setStatus t
        .running) := by
  have hpn := h.lists.pnode t (by rw [show (calm a).status t = .ready from hs]; simp)
  have hdet := h.lists.detach_ready hs
  have hcalm : calm (((detach a (.ready (a.priority t)) t).unsetIfEmpty (a.priority t)).setStatus t
      .running) = (detachReady (calm a) t).setStatus t .running := by
    unfold detachReady Kernel.unsetIfEmpty
    rw [show (detach (calm a) (.ready ((calm a).priority t)) t).head
      (.ready ((calm a).priority t)) =
        (detach a (.ready (a.priority t)) t).head (.ready (a.priority t)) from rfl]
    split <;> rfl
  obtain ⟨r, hr⟩ := detachReady_eq (calm a) t
  rw [hr] at hdet
  have hset := hdet.settle (s := .running) hpn (by simp) (by simp)
    fun hp => absurd hp not_pending_calm
  refine ⟨removeNode_eq (h.mem_ready hs), h.of_lists (hcalm ▸ hr ▸ hset) ?_ fun u hu => ?_⟩
  · simp [detach]
  · have hu := zeroed_setStatus (by simp) hu
    obtain ⟨r', hr'⟩ := unsetIfEmpty_eq (detach a (.ready (a.priority t)) t) (a.priority t)
    rwa [hr', Kernel.status_setReadyList] at hu

/-- A task is taken out of its wait queue. -/
theorem leave_wait (h : Orderly a) {q : WaitQueue} (hq : t ∈ a.queue.ring (.wait q)) :
    a.removeNode (.wait q) t = some (detach a (.wait q) t) ∧ Orderly (detach a (.wait q) t) := by
  have hs := (h.waiting hq).1
  have hset := (h.lists.detach_wait hq).settle (s := .waiting)
    (h.lists.pnode t (by rw [show (calm a).status t = .waiting from hs]; simp)) (by simp) (by simp)
    fun hp => absurd hp not_pending_calm
  rw [setStatus_self (show (detach (calm a) (.wait q) t).status t = .waiting from hs)] at hset
  exact ⟨removeNode_eq hq, h.of_lists hset rfl fun u hu => hu⟩

/-- A task that is linked nowhere enters a wait queue; once its owner and its status are written
the kernel is orderly. -/
theorem add_wait [Fintype T] (h : Orderly a) (hf : ¬Linked a.queue t) (hz : a.status t ≠ .zeroed)
    (q : WaitQueue) (queueType : UInt8) :
    ∃ xs, a.addWaiter q queueType t = some (a.setQueue (a.queue.set (.wait q) xs)) ∧
      (∀ u, u ∈ xs ↔ u = t ∨ u ∈ a.queue.ring (.wait q)) ∧
      Orderly (((a.setQueue (a.queue.set (.wait q) xs)).setOwner t (some q)).setStatus t
        .waiting) := by
  obtain ⟨xs, hxs, hmem, hc⟩ := (h.lists.detached hf).attach_wait (h.lists.pnode t hz) q queueType
  obtain ⟨hlift, -⟩ := calm_lift (a := a) (f := fun k => k.addWaiter q queueType t)
    (b := (calm a).setQueue ((calm a).queue.set (.wait q) xs))
    (fun m k => Recast.addWaiter m k q queueType t) hxs
  refine ⟨xs, hlift, hmem, h.of_lists hc rfl fun u hu => ?_⟩
  have hu := zeroed_setStatus (by simp) hu
  rwa [Kernel.status_setOwner] at hu

/-- A running task goes to the `WAITING` state. -/
theorem block (h : Orderly a) (hs : a.status t = .running) : Orderly (a.setStatus t .waiting) := by
  have hf := h.free (t := t) (by simp [hs]) (by simp [hs])
  refine h.of_lists ((h.lists.detached hf).settle
    (h.lists.pnode t (by rw [show (calm a).status t = .running from hs]; simp)) (by simp) (by simp)
    fun hp => absurd hp not_pending_calm) rfl fun u => zeroed_setStatus (by simp)

/-- The times of a task are written. -/
theorem setTcb (h : Orderly a) (f : Tcb → Tcb)
    (hf : ∀ b, (f b).status = b.status ∧ (f b).priority = b.priority ∧
      (f b).waitQueueOwner = b.waitQueueOwner) : Orderly (a.setTcb t f) := by
  obtain ⟨hs, hp, ho⟩ := hf (a.vars.tcb t)
  have hprio : (f ((calm a).vars.tcb t)).priority ≤ lowestPriority := by
    rw [show (calm a).vars.tcb t = a.vars.tcb t from rfl, hp]
    exact h.lists.priority t
  refine h.of_lists (h.lists.setTcb f hprio hs ho fun _ => hp) rfl fun u hu => ?_
  by_cases hut : u = t
  · subst hut
    simpa [Kernel.status, hs] using hu
  · simpa [Kernel.status, hut] using hu

/-- The alarm of a task is set. -/
theorem setAlarm [Fintype T] (h : Orderly a) (hz : a.status t ≠ .zeroed) (timeout : UInt32) :
    ∃ m, a.setAlarm t timeout (some .osWakeupFromAlarmQueue) (some t) = some (a.setTimers m) ∧
      Orderly (a.setTimers m) := by
  obtain ⟨m, hm, hok, hpend, -⟩ := h.alarms.eosSetAlarm_ok (t := t) timeout
  refine ⟨m, by simp only [Kernel.setAlarm, hm]; rfl, h.setTimers hok fun u hu => ?_⟩
  obtain ⟨hu, -⟩ | ⟨rfl, -⟩ := (hpend u).mp hu
  · exact h.created u hu
  · exact hz

/-- The alarm of a task is cancelled. -/
theorem cancelAlarm [Fintype T] (h : Orderly a) (t : T) :
    ∃ m, a.setAlarm t 0 none none = some (a.setTimers m) ∧ Orderly (a.setTimers m) := by
  refine ⟨dropAlarm a.timers t, ?_, h.pop t⟩
  simp only [Kernel.setAlarm, h.alarms.eosSetAlarm_cancel (Or.inl rfl)]
  rfl

end Orderly

/-! ## A turn of the scheduler -/

/-- What `eos_schedule` and a tick do: no task starts to wait or enters a wait queue, and with the
scheduler unlocked a task is dispatched. -/
structure Turned (a a' : Kernel Rings T) : Prop where
  orderly : Orderly a'
  lock : a'.vars.schedulerLock = a.vars.schedulerLock
  semaphore : a'.vars.semaphore = a.vars.semaphore
  waits : ∀ t, a'.status t = .waiting → a.status t = .waiting
  wait : ∀ q t, t ∈ a'.queue.ring (.wait q) → t ∈ a.queue.ring (.wait q)
  created : ∀ t, a'.status t = .zeroed → a.status t = .zeroed
  dispatched : a.vars.schedulerLock = locked ∧ a'.vars.currentTask = a.vars.currentTask ∨
    a.vars.schedulerLock ≠ locked ∧
      ∃ next, a'.vars.currentTask = some next ∧ a'.status next = .running

/-- The next task is dispatched, from a state in which the current task does not run. -/
theorem Orderly.dispatchNext (hr : Repr k a) (h : Orderly a)
    (hc : ∀ u, a.vars.currentTask = some u → a.status u ≠ .running)
    (hk : k.dispatchNext = some k') :
    ∃ a' next, Repr k' a' ∧ Orderly a' ∧ a'.vars.currentTask = some next ∧
      a'.status next = .running ∧ a'.vars.schedulerLock = a.vars.schedulerLock ∧
      a'.vars.semaphore = a.vars.semaphore ∧
      (∀ t, a'.status t = .waiting → a.status t = .waiting) ∧
      (∀ q, a'.queue.ring (.wait q) = a.queue.ring (.wait q)) ∧
      ∀ t, a'.status t = .zeroed → a.status t = .zeroed := by
  obtain ⟨node, hnode, -⟩ := Option.bind_eq_some_iff.mp hk
  rw [hr.head] at hnode
  have hmem : node ∈ a.queue.ring (.ready k.vars.readyList.osGetHighestPriority) :=
    List.mem_of_mem_head? hnode
  have hs := ((h.lists.placed node).ready _).mp hmem
  obtain ⟨b, next, hb, hd⟩ := dispatchNext_dispatched h.lists hs.1 hc
  obtain ⟨hlift, hcalm⟩ := calm_lift (fun m k => Recast.dispatchNext (unseen_shift 0) m k) hb
  obtain ⟨c, hck, hrc⟩ := hr.dispatchNext _ hlift
  obtain rfl := Option.some.inj (hck.symm.trans hk)
  have hz : ∀ t, b.status t = .zeroed → a.status t = .zeroed := by
    intro t ht
    by_cases hne : t = next
    · rw [hne, hd.running] at ht
      cases ht
    · rw [hd.others t hne, if_neg fun hcu => hc t hcu.1 hcu.2] at ht
      exact ht
  refine ⟨_, next, hrc, h.of_lists (hcalm ▸ hd.consistent) rfl hz, hd.current, hd.running, hd.lock,
    hd.semaphore, fun t ht => ?_, hd.wait, hz⟩
  have hne : t ≠ next := by
    rintro rfl
    rw [Kernel.status_setTimers, hd.running] at ht
    cases ht
  rw [Kernel.status_setTimers, hd.others t hne, if_neg fun hcu => hc t hcu.1 hcu.2] at ht
  exact ht

/-- What `eos_schedule` does before it saves the context: the current task does not run any more,
and a running one is ready. -/
structure Requeued (a b : Kernel Rings T) : Prop where
  orderly : Orderly b
  blocked : ∀ u, b.vars.currentTask = some u → b.status u ≠ .running
  lock : b.vars.schedulerLock = a.vars.schedulerLock
  semaphore : b.vars.semaphore = a.vars.semaphore
  waits : ∀ t, b.status t = .waiting → a.status t = .waiting
  wait : ∀ q, b.queue.ring (.wait q) = a.queue.ring (.wait q)
  created : ∀ t, b.status t = .zeroed → a.status t = .zeroed
  ready : ∀ t, a.status t = .ready ∨ a.vars.currentTask = some t ∧ a.status t = .running →
    b.status t = .ready

/-- The current task is put back into its ready queue (core/task.c:99-107). -/
theorem Orderly.requeueCurrent (h : Orderly a) :
    ∃ b, a.requeueCurrent = some b ∧ Requeued a b := by
  unfold Kernel.requeueCurrent
  cases hc : a.vars.currentTask with
  | none =>
    refine ⟨a, rfl, h, fun u hu => ?_, rfl, rfl, fun _ => id, fun _ => rfl, fun _ => id,
      fun t ht => ?_⟩
    · rw [hc] at hu
      cases hu
    · obtain ht | ⟨ht, -⟩ := ht
      · exact ht
      · rw [hc] at ht
        cases ht
  | some c =>
    by_cases hs : a.status c = .running
    · obtain ⟨-, hcons⟩ := requeueCurrent_eq h.lists hc hs
      have hf := h.free (t := c) (by simp [hs]) (by simp [hs])
      have hz : ∀ t, ((attachReady a c).setStatus c .ready).status t = .zeroed →
          a.status t = .zeroed := fun t => zeroed_setStatus (by simp)
      refine ⟨(attachReady a c).setStatus c .ready, ?_, h.of_lists hcons rfl hz,
        fun u hu => ?_, rfl, rfl, fun t ht => ?_, fun q => by
          simp [attachReady, append, Kernel.osSetReady], hz, fun t ht => ?_⟩
      · simp only [if_pos hs, addReady_eq hf]
        rfl
      · obtain rfl := Option.some.inj (hc.symm.trans hu)
        simp
      · rw [Kernel.status_setStatus] at ht
        split at ht
        · cases ht
        · exact ht
      · rw [Kernel.status_setStatus]
        split
        · rfl
        · next htc =>
          obtain ht | ⟨ht, -⟩ := ht
          · exact ht
          · exact absurd (Option.some.inj (ht.symm.trans hc)) htc
    · refine ⟨a, if_neg hs, h, fun u hu => ?_, rfl, rfl, fun _ => id, fun _ => rfl, fun _ => id,
        fun t ht => ?_⟩
      · obtain rfl := Option.some.inj (hc.symm.trans hu)
        exact hs
      · obtain ht | ⟨ht, hst⟩ := ht
        · exact ht
        · obtain rfl := Option.some.inj (hc.symm.trans ht)
          exact absurd hst hs

/-- **`eos_schedule`** in an orderly state (core/task.c:88-139). -/
theorem Orderly.eosSchedule (hr : Repr k a) (h : Orderly a) (hk : k.eosSchedule = some k') :
    ∃ a', Repr k' a' ∧ Turned a a' := by
  by_cases hl : a.vars.schedulerLock = locked
  · rw [Kernel.eosSchedule, hr.vars, if_pos hl] at hk
    cases hk
    exact ⟨a, hr, h, rfl, rfl, fun _ => id, fun _ _ => id, fun _ => id, .inl ⟨hl, rfl⟩⟩
  rw [Kernel.eosSchedule, hr.vars, if_neg hl] at hk
  obtain ⟨k₁, hk₁, hk⟩ := Option.bind_eq_some_iff.mp hk
  obtain ⟨b, hb, hq⟩ := h.requeueCurrent
  obtain ⟨k₂, hk₂, hrb⟩ := hr.requeueCurrent b hb
  obtain rfl := Option.some.inj (hk₂.symm.trans hk₁)
  obtain ⟨a', next, hra, hoa, hca, hsa, hla, hsem, hwa, hqa, hza⟩ :=
    hq.orderly.dispatchNext hrb hq.blocked hk
  exact ⟨a', hra, hoa, hla.trans hq.lock, hsem.trans hq.semaphore,
    fun t ht => hq.waits t (hwa t ht), fun q t ht => by rwa [hqa, hq.wait] at ht,
    fun t ht => hq.created t (hza t ht), .inr ⟨hl, next, hca, hsa⟩⟩

/-- There is a task to go on with: the scheduler is locked, a task is ready, or the current one
runs. -/
def Dispatchable {Q : Type → Type → Type} {T : Type} (k : Kernel Q T) : Prop :=
  k.vars.schedulerLock = locked ∨
    ∃ t, k.status t = .ready ∨ k.vars.currentTask = some t ∧ k.status t = .running

omit [DecidableEq T] in
/-- What can be dispatched can be dispatched in both representations. -/
theorem Dispatchable.of_repr (h : Dispatchable k) (hr : Repr k a) : Dispatchable a := by
  refine h.imp (fun hl => by rwa [hr.vars] at hl) fun ⟨t, ht⟩ => ⟨t, ?_⟩
  rwa [hr.status, hr.vars] at ht

/-- `eos_schedule` comes to its end where there is a task to go on with. -/
theorem Orderly.eosSchedule_total (hr : Repr k a) (h : Orderly a) (hd : Dispatchable a) :
    ∃ k', k.eosSchedule = some k' := by
  rw [Kernel.eosSchedule, hr.vars]
  split
  · exact ⟨k, rfl⟩
  · next hl =>
    obtain ⟨t, ht⟩ := hd.resolve_left hl
    obtain ⟨b, hb, hq⟩ := h.requeueCurrent
    obtain ⟨k₁, hk₁, hrb⟩ := hr.requeueCurrent b hb
    obtain ⟨c, next, hc, -⟩ := dispatchNext_dispatched hq.orderly.lists (hq.ready t ht) hq.blocked
    obtain ⟨hlift, -⟩ := calm_lift (fun m k => Recast.dispatchNext (unseen_shift 0) m k) hc
    obtain ⟨k₂, hk₂, -⟩ := hrb.dispatchNext _ hlift
    exact ⟨k₂, by rw [hk₁, Option.bind_eq_bind, Option.bind_some, hk₂]⟩

/-! ## A tick -/

omit [DecidableEq T] in
/-- The first member of a list stays the first one when others are appended. -/
theorem head?_append_some {xs : List T} (h : xs.head? = some u) (ys : List T) :
    (xs ++ ys).head? = some u := by
  rw [List.head?_append, h]
  rfl

/-- The first member of a list stays the first one when another one is taken out. -/
theorem head?_erase_some {xs : List T} (h : xs.head? = some u) (hu : u ≠ t) :
    (xs.erase t).head? = some u := by
  obtain ⟨rest, rfl⟩ := List.head?_eq_some_iff.mp h
  rw [List.erase_cons_tail (by simpa using hu)]
  rfl

/-- The ready queues that are not empty keep their first tasks. -/
def KeepsHeads (a b : Kernel Rings T) : Prop :=
  ∀ p u, (a.queue.ring (.ready p)).head? = some u → (b.queue.ring (.ready p)).head? = some u

/-- The handler with no alarm pending keeps the first tasks of the ready queues. -/
theorem wakeup_keepsHeads (h : Consistent a) (hp : ¬Pending a.timers t)
    (hz : a.status t ≠ .zeroed)
    (hd : a.status t = .ready → a.waitQueueOwner t ≠ none ∧
      (a.queue.ring (.ready (a.priority t))).head? ≠ some t) :
    ∃ b, a.osWakeupFromAlarmQueue (some t) = some b ∧ Moved a b t ∧ b.status t = .ready ∧
      KeepsHeads a b := by
  by_cases hr : a.status t = .ready
  · obtain ⟨ho, hfst⟩ := hd hr
    obtain ⟨b, hb, hm, hs, -, -, hring⟩ := wakeup_ready_moved h hr ho hp hfst
    refine ⟨b, hb, hm, hs, fun p u hu => ?_⟩
    rw [hring]
    by_cases hpt : p = a.priority t
    · subst hpt
      rw [Function.update_self]
      have hut : u ≠ t := by
        rintro rfl
        exact hfst hu
      exact head?_append_some (head?_erase_some hu hut) [t]
    · rwa [Function.update_of_ne fun e => hpt (QueueHead.ready.inj e)]
  · obtain ⟨b, hb, hm, hs, -, hring⟩ := wakeup_moved h hr hz hp
    refine ⟨b, hb, hm, hs, fun p u hu => ?_⟩
    have hut : u ≠ t := by
      rintro rfl
      exact hr (((h.placed u).ready p).mp (List.mem_of_mem_head? hu)).1
    rw [hring]
    split
    · exact head?_append_some hu [t]
    · exact head?_erase_some hu hut

/-- **A call of the handler** in an orderly state (core/task.c:325-340). -/
theorem Orderly.handler (h : Orderly a) (he : expiredAlarm a.timers systemTimer = some t)
    (hd : a.status t = .ready → a.waitQueueOwner t ≠ none ∧
      (a.queue.ring (.ready (a.priority t))).head? ≠ some t) :
    ∃ b, fireAlarm a t = some b ∧ Orderly b ∧ Moved (calm a) (calm b) t ∧ b.status t = .ready ∧
      b.timers = dropAlarm a.timers t ∧ KeepsHeads a b := by
  have hz := h.created t (pending_of_expired h.alarms he)
  obtain ⟨b, hb, hm, hs, hheads⟩ := wakeup_keepsHeads h.lists not_pending_calm hz hd
  obtain ⟨hlift, hcalm⟩ := calm_lift (a := popped a t)
    (f := fun k => k.osWakeupFromAlarmQueue (some t)) (b := b)
    (fun m k => Recast.osWakeupFromAlarmQueue (unseen_shift 0) m k (some t)
      fun u _ => keepsOwner_shift 0 u) hb
  refine ⟨_, hlift, (h.pop t).of_lists (hcalm ▸ hm.consistent) rfl fun u hu => ?_,
    hcalm ▸ hm, hs, rfl, hheads⟩
  by_cases hut : u = t
  · rw [hut, Kernel.status_setTimers, hs] at hu
    cases hu
  · rw [Kernel.status_setTimers, hm.status hut] at hu
    exact hu

/-- What the alarms of a tick do: tasks become ready, no task enters a wait queue, and the current
task, the lock and the semaphores stay. -/
structure Handled (a b : Kernel Rings T) : Prop where
  orderly : Orderly b
  due : DueOk b
  current : b.vars.currentTask = a.vars.currentTask
  lock : b.vars.schedulerLock = a.vars.schedulerLock
  semaphore : b.vars.semaphore = a.vars.semaphore
  status : ∀ t, b.status t = a.status t ∨ b.status t = .ready
  wait : ∀ q t, t ∈ b.queue.ring (.wait q) → t ∈ a.queue.ring (.wait q)

omit [DecidableEq T] in
/-- No task starts to wait, or gets out of another status, but for the ready ones. -/
theorem Handled.of_status (h : Handled a b) {x : Status} (hx : x ≠ .ready)
    (ht : b.status t = x) : a.status t = x := by
  obtain hs | hs := h.status t
  · exact hs ▸ ht
  · exact absurd (ht.symm.trans hs) hx

omit [DecidableEq T] in
/-- There still is a task to go on with. -/
theorem Handled.dispatchable (h : Handled a b) (hd : Dispatchable a) : Dispatchable b := by
  refine hd.imp (fun hl => h.lock.trans hl) ?_
  rintro ⟨t, ht⟩
  refine ⟨t, ?_⟩
  rw [h.current]
  obtain hs | hs := h.status t
  · rwa [hs]
  · exact .inl hs

/-- **One round of the loop** of `eos_trigger_counter` has a result and keeps this. -/
theorem Handled.fire (h : Handled a b) (he : expiredAlarm b.timers systemTimer = some t) :
    ∃ c, fireAlarm b t = some c ∧ Handled a c ∧ c.timers = dropAlarm b.timers t := by
  have hal := h.orderly.alarms
  have hp := pending_of_expired hal he
  obtain ⟨c, hc, hoc, hm, hst, htm, hheads⟩ :=
    h.orderly.handler he (h.due t hp (hal.due_of_expired he))
  have hstatus : ∀ u, c.status u ≠ .ready → c.status u = b.status u := fun u hu =>
    hm.status (u := u) fun e => hu (e ▸ hst)
  refine ⟨c, hc, ⟨hoc, fun u hu hdue hsu => ?_, hm.currentTask.trans h.current,
    hm.lock.trans h.lock, hm.semaphore.trans h.semaphore, fun u => ?_, fun q u hu => ?_⟩, htm⟩
  · rw [htm] at hu hdue
    obtain ⟨hpu, hut⟩ := hal.pending_dropAlarm.mp hu
    have htick : c.tick = b.tick := by rw [Kernel.tick, htm, Kernel.tick]; rfl
    have htcb : c.vars.tcb u = b.vars.tcb u := hm.others u hut
    have hsu : b.status u = .ready := by rwa [Kernel.status, htcb] at hsu
    obtain ⟨ho, hfst⟩ := h.due u hpu (htick ▸ hdue) hsu
    rw [Kernel.waitQueueOwner, Kernel.priority, htcb]
    refine ⟨ho, fun hhead => hfst ?_⟩
    -- the queue of a ready task is not empty, so that its first task is another one, and stays
    obtain ⟨x, rest, hring⟩ :=
      List.exists_cons_of_ne_nil (List.ne_nil_of_mem (h.orderly.mem_ready hsu))
    have hx := hheads (b.priority u) x (by rw [hring]; rfl)
    rw [hring, ← Option.some.inj (hx.symm.trans hhead)]
    rfl
  · by_cases hcu : c.status u = .ready
    · exact .inr hcu
    · exact (h.status u).imp ((hstatus u hcu).trans) ((hstatus u hcu).trans)
  · have hut : u ≠ t := by
      rintro rfl
      have hw := (hoc.waiting hu).1
      rw [hst] at hw
      cases hw
    exact h.wait q u ((hm.wait u hut q).mp hu)

variable [Fintype T]

/-- **The loop of `eos_trigger_counter`** comes to its end in an orderly state
(core/timer.c:75-88). -/
theorem Orderly.triggerAlarms (h : Orderly a)
    (hd : DueOk (a.setTimers (incrementTick a.timers systemTimer))) :
    ∃ b, a.triggerAlarms = some b ∧ Handled a b := by
  have hstart : Handled a (a.setTimers (incrementTick a.timers systemTimer)) :=
    ⟨h.setTimers h.alarms.incrementTick_ok h.created, hd, rfl, rfl, rfl, fun _ => .inl rfl,
      fun _ _ => id⟩
  obtain ⟨b, hb, hhandled, -⟩ := triggerLoop_total (I := Handled a)
    (fun _ hb => hb.orderly.alarms) (fun _ _ hb he => hb.fire he) hstart
    (Nat.lt_succ_of_le h.alarms.length_le_card)
  exact ⟨b, hb, hhandled⟩

/-- In memory it does too. -/
theorem alarms_handled (hr : Repr k a) (h : Orderly a) (hd : DueInOrder k) :
    ∃ m b, k.triggerAlarms = some m ∧ Repr m b ∧ Handled a b := by
  obtain ⟨b, hb, hh⟩ := h.triggerAlarms (hd.dueOk hr)
  obtain ⟨m, hm, hrb⟩ := hr.triggerAlarms b hb
  exact ⟨m, b, hm, hrb, hh⟩

/-- **A tick comes to its end** where there is a task to go on with. -/
theorem tick_runs (hr : Repr k a) (h : Orderly a) (hd : DueInOrder k) (hn : Dispatchable k) :
    ∃ k', k.eosTriggerCounter = some k' := by
  obtain ⟨m, b, hm, hrb, hh⟩ := alarms_handled hr h hd
  obtain ⟨k', hk'⟩ := hh.orderly.eosSchedule_total hrb (hh.dispatchable (hn.of_repr hr))
  exact ⟨k', by rw [Kernel.eosTriggerCounter, hm, Option.bind_eq_bind, Option.bind_some, hk']⟩

/-- **A tick** in an orderly state (core/timer.c:60-92). -/
theorem tick_turned (hr : Repr k a) (h : Orderly a) (hd : DueInOrder k)
    (hk : k.eosTriggerCounter = some k') : ∃ a', Repr k' a' ∧ Turned a a' := by
  obtain ⟨m, b, hm, hrb, hh⟩ := alarms_handled hr h hd
  obtain ⟨m', hm', hk⟩ := Option.bind_eq_some_iff.mp hk
  obtain rfl : m = m' := Option.some.inj (hm.symm.trans hm')
  obtain ⟨a', hra, ht⟩ := hh.orderly.eosSchedule hrb hk
  refine ⟨a', hra, ht.orderly, ht.lock.trans hh.lock, ht.semaphore.trans hh.semaphore,
    fun t hw => hh.of_status (by simp) (ht.waits t hw),
    fun q t hq => hh.wait q t (ht.wait q t hq),
    fun t hz => hh.of_status (by simp) (ht.created t hz), ?_⟩
  obtain ⟨hl, hc⟩ | ⟨hl, hc⟩ := ht.dispatched
  · exact .inl ⟨hh.lock ▸ hl, hc.trans hh.current⟩
  · exact .inr ⟨hh.lock ▸ hl, hc⟩

end Eos.Analysis
