import Eos.Analysis.Orderly
import Eos.Model.Statements

/-!
# What holds at a statement

The statements of `_os_wait_in_queue`, `eos_resume_task` and `eos_schedule` (core/task.c) put
a queue node into a ring, or take it out, before they write the status of its task.  A tick
in between finds a `RUNNING` task whose node is linked, and the `eos_schedule` of the tick
links it a second time.

`Before a c st` is what holds of a kernel `a` when its current task `c` is about to execute
statement `st`.  Where a list routine has moved a task, it says that the kernel will be
orderly once the statements up to the status write are executed; elsewhere the kernel is
orderly already, so that a tick leads to an orderly kernel again.
-/

set_option autoImplicit false

namespace Eos.Analysis

open Eos.Lib (LinkMem)
open Eos.Model
open Eos.Interface (Rings Linked Repr)

/-! ## Tasks that are being worked on -/

section Defs

variable {T : Type}

/-- The task that a list routine has moved in a call of task `u`, and whose status is still to be
written. -/
def moving (u : T) : Control T → Option T
  | .routine st _ => st.moving u
  | _ => none

/-- What a statement goes on with is still as an earlier one found it: the task runs when it is
enqueued or was dispatched, it still waits for being made ready, it is still in the wait queue, or
it is still ready; and the queue whose first node is read still has one. -/
def StillChosen (k : Kernel LinkMem T) : Control T → Prop
  | .routine (.waitAdd _ _) _ => ∀ c, k.vars.currentTask = some c → k.status c = .running
  | .routine (.readyAdd t) _ =>
    k.status t = .suspended ∨ k.status t = .waiting ∧ k.queue.next t = none
  | .routine (.wakeRemove q t) _ =>
    k.status t = .waiting ∧ k.waitQueueOwner t = some q ∧ k.queue.next t ≠ none
  | .routine (.wakeTask q) _ => k.head (.wait q) ≠ none
  | .routine (.firstNode p) _ => k.head (.ready p) ≠ none
  | .routine (.remove _ t) _ => k.status t = .ready
  | .routine (.setCurrent t) _ => k.status t = .running
  | _ => True

end Defs

variable {T : Type} [DecidableEq T] {a a' : Kernel Rings T} {k k' : Kernel LinkMem T} {c t u : T}
  {st : Statement T}

/-! ## What holds at a statement -/

/-- With the scheduler unlocked the current task runs. -/
def Awake (a : Kernel Rings T) (c : T) : Prop :=
  a.vars.schedulerLock ≠ locked → a.status c = .running

/-- What holds when task `c` is about to execute a statement. -/
def Before (a : Kernel Rings T) (c : T) : Statement T → Prop
  | .sleepPeriod _ | .sleepAdvance | .sleepDue | .sleepTimeout | .sleepAlarm _ | .sleepStatus
  | .requeueAdd =>
    Orderly a ∧ a.vars.schedulerLock ≠ locked ∧ a.status c = .running
  | .waitAdd _ _ | .wakeTest _ | .sleepLock _ | .resumeTest _ => Orderly a ∧ Awake a c
  | .wakeTask _ | .wakeRemove _ _ | .readyAdd _ | .scheduleLock => Orderly a
  | .waitOwner q => Orderly ((a.setOwner c (some q)).setStatus c .waiting)
  | .waitStatus => Orderly (a.setStatus c .waiting)
  | .readySet t => Orderly ((a.osSetReady (a.priority t)).setStatus t .ready)
  | .readyStatus t => Orderly (a.setStatus t .ready)
  | .scheduleTest | .save | .highest | .firstNode _ | .pickTask _ | .remove _ _ | .setCurrent _ =>
    Orderly a ∧ a.vars.schedulerLock ≠ locked
  | .requeueSet =>
    Orderly ((a.osSetReady (a.priority c)).setStatus c .ready) ∧ a.vars.schedulerLock ≠ locked
  | .requeueStatus => Orderly (a.setStatus c .ready) ∧ a.vars.schedulerLock ≠ locked
  | .unsetTest t => Orderly ((a.unsetIfEmpty (a.priority t)).setStatus t .running) ∧
      a.vars.schedulerLock ≠ locked
  | .unset t => Orderly ((a.osUnsetReady (a.priority t)).setStatus t .running) ∧
      a.vars.schedulerLock ≠ locked
  | .setRunning t => Orderly (a.setStatus t .running) ∧ a.vars.schedulerLock ≠ locked

/-- The node that `eos_schedule` has read is that of a task, and it removes that of its next
task. -/
def Matched (a : Kernel Rings T) : Statement T → Prop
  | .pickTask node => a.status node ≠ .zeroed
  | .remove node t => node = t
  | _ => True

/-- What holds behind a statement: the next one may be executed, or the routine has returned,
perhaps behind a switch to another task. -/
def After (a : Kernel Rings T) (c : T) : Option (Statement T) → Prop
  | some next => a.vars.currentTask = some c ∧ Before a c next ∧ Matched a next
  | none => Orderly a ∧ ∃ t, a.vars.currentTask = some t ∧ Awake a t ∧
      (t ≠ c → a.vars.schedulerLock ≠ locked)

omit [DecidableEq T] in
/-- A task that was dispatched may go on wherever no task is being moved. -/
theorem Before.of_running [DecidableEq T] (h : Orderly a) (hl : a.vars.schedulerLock ≠ locked)
    (hs : a.status c = .running) (hm : st.moving c = none) : Before a c st := by
  cases st with
  | sleepPeriod | sleepAdvance | sleepDue | sleepTimeout | sleepAlarm | sleepStatus | requeueAdd =>
    exact ⟨h, hl, hs⟩
  | waitAdd | wakeTest | sleepLock | resumeTest => exact ⟨h, fun _ => hs⟩
  | wakeTask | wakeRemove | readyAdd | scheduleLock => exact h
  | scheduleTest | save | highest | firstNode | pickTask | remove | setCurrent => exact ⟨h, hl⟩
  | waitOwner | waitStatus | readySet | readyStatus | requeueSet | requeueStatus | unsetTest
  | unset | setRunning => cases hm

/-! ## One statement -/

/-- What a statement does: it has a result over sequences too, behind which the next statement may
be executed, and no other task than one that `_os_wait_in_queue` adds enters a wait queue. -/
def Executed (a : Kernel Rings T) (c : T) (st : Statement T) (k' : Kernel LinkMem T)
    (r : Option (Statement T)) : Prop :=
  ∃ a', Repr k' a' ∧ After a' c r ∧ a'.vars.schedulerLock = a.vars.schedulerLock ∧
    (∀ t, a'.status t = .zeroed → a.status t = .zeroed) ∧
    ∀ q t, t ∈ a'.queue.ring (.wait q) → t ∈ a.queue.ring (.wait q) ∨
      t = c ∧ ∃ queueType, st = .waitAdd q queueType

/-- A statement that leaves the kernel alone. -/
theorem executed_same {r : Option (Statement T)} (hr : Repr k a) (h : After a c r) :
    Executed a c st k r :=
  ⟨a, hr, h, rfl, fun _ => id, fun _ _ => .inl⟩

/-- A statement that changes no list. -/
theorem executed_quiet {r : Option (Statement T)} (hr : Repr k' a') (h : After a' c r)
    (hl : a'.vars.schedulerLock = a.vars.schedulerLock) (hq : a'.queue = a.queue)
    (hz : ∀ t, a'.status t = .zeroed → a.status t = .zeroed) : Executed a c st k' r :=
  ⟨a', hr, h, hl, hz, fun q t ht => .inl (by rwa [hq] at ht)⟩

/-- A statement that writes a status. -/
theorem executed_status {r : Option (Statement T)} (hr : Repr k a) {x : Status} (hx : x ≠ .zeroed)
    (h : After (a.setStatus t x) c r) : Executed a c st (k.setStatus t x) r :=
  executed_quiet (hr.setStatus t x) h rfl rfl fun _ => zeroed_setStatus hx

/-- The routine returns to the current task. -/
theorem After.back (h : Orderly a) (hc : a.vars.currentTask = some c) (hw : Awake a c) :
    After a c none :=
  ⟨h, c, hc, hw, fun hne => absurd rfl hne⟩

/-- A task is appended to its ready queue. -/
theorem append_executed (next : Statement T) (hr : Repr k a) (hf : ¬Linked a.queue t)
    {r : Option (Statement T)}
    (hst : (do return (← k.addNodeTail (.ready (k.priority t)) t, some next)) = some (k', r))
    (hafter : After (append a (.ready (a.priority t)) t) c (some next)) : Executed a c st k' r := by
  obtain ⟨k₁, hk₁, hst⟩ := Option.bind_eq_some_iff.mp hst
  cases hst
  rw [hr.priority] at hk₁
  obtain ⟨k₂, hk₂, hra⟩ := hr.addNodeTail _ t _ (addNodeTail_eq hf _)
  obtain rfl := Option.some.inj (hk₂.symm.trans hk₁)
  refine ⟨_, hra, hafter, rfl, fun _ => id, fun q u hu => .inl ?_⟩
  obtain hu | ⟨hq, -⟩ := Detached.mem_append.mp hu
  · exact hu
  · cases hq

/-- A task is taken out of a queue. -/
theorem detach_executed (next : Statement T) (hr : Repr k a) {h : QueueHead}
    (ht : t ∈ a.queue.ring h) {r : Option (Statement T)}
    (hst : (do return (← k.removeNode h t, some next)) = some (k', r))
    (hafter : After (detach a h t) c (some next)) : Executed a c st k' r := by
  obtain ⟨k₁, hk₁, hst⟩ := Option.bind_eq_some_iff.mp hst
  cases hst
  obtain ⟨k₂, hk₂, hra⟩ := hr.removeNode h t _ (removeNode_eq ht)
  obtain rfl := Option.some.inj (hk₂.symm.trans hk₁)
  refine ⟨_, hra, hafter, rfl, fun _ => id, fun q u hu => .inl ?_⟩
  obtain ⟨rfl, hu⟩ | ⟨-, hu⟩ := mem_set.mp hu
  · exact List.mem_of_mem_erase hu
  · exact hu

omit [DecidableEq T] in
/-- The task that `_os_wakeup_from_queue` goes on with is in its queue. -/
theorem Orderly.mem_chosen (hr : Repr k a) (ho : Orderly a) {q : WaitQueue}
    {caller : Option AcquireFrame} (hch : StillChosen k (.routine (.wakeRemove q t) caller)) :
    t ∈ a.queue.ring (.wait q) := by
  obtain ⟨hs, howner, hn⟩ := hch
  rw [hr.status] at hs
  rw [hr.waitQueueOwner] at howner
  have hlinked := mt hr.queue.next_eq_none_iff.mpr hn
  push Not at hlinked
  obtain ⟨hd, ht⟩ := hlinked
  cases hd with
  | ready p =>
    have := (((ho.lists.placed t).ready p).mp ht).1
    cases this.symm.trans hs
  | wait q' =>
    have := (ho.waiting ht).2
    obtain rfl : q' = q := Option.some.inj (this.symm.trans howner)
    exact ht

variable [Fintype T] {r : Option (Statement T)}

/-- `_os_wait_in_queue` adds its caller to the queue. -/
theorem waitAdd_executed (hr : Repr k a) (ho : Orderly a) (hs : a.status c = .running)
    (hc : a.vars.currentTask = some c) {q : WaitQueue} {queueType : UInt8}
    (hst : (Statement.waitAdd q queueType).exec k c = some (k', r)) :
    Executed a c (.waitAdd q queueType) k' r := by
  have hf : ¬Linked a.queue c := ho.free (by simp [hs]) (by simp [hs])
  obtain ⟨xs, hxs, hmem, hadd⟩ := ho.add_wait hf (by simp [hs]) q queueType
  obtain ⟨k₁, hk₁, hst⟩ := Option.bind_eq_some_iff.mp hst
  cases hst
  obtain ⟨k₂, hk₂, hra⟩ := hr.addWaiter q queueType c _ hxs
  obtain rfl := Option.some.inj (hk₂.symm.trans hk₁)
  refine ⟨_, hra, ⟨hc, hadd, trivial⟩, rfl, fun _ => id, fun q' t ht => ?_⟩
  rw [Kernel.setQueue_queue, mem_set] at ht
  obtain ⟨hq, ht⟩ | ⟨-, ht⟩ := ht
  · cases hq
    exact ((hmem t).mp ht).symm.imp_right fun e => ⟨e, queueType, rfl⟩
  · exact .inl ht

/-- `eos_sleep` sets the alarm of its caller. -/
theorem sleepAlarm_executed (hr : Repr k a) (ho : Orderly a) (hl : a.vars.schedulerLock ≠ locked)
    (hs : a.status c = .running) (hc : a.vars.currentTask = some c) {timeout : UInt32}
    (hst : (Statement.sleepAlarm timeout).exec k c = some (k', r)) :
    Executed a c (.sleepAlarm timeout) k' r := by
  obtain ⟨m, hm, ho'⟩ := ho.setAlarm (t := c) (by simp [hs]) timeout
  obtain ⟨k₁, hk₁, hst⟩ := Option.bind_eq_some_iff.mp hst
  cases hst
  obtain ⟨k₂, hk₂, hra⟩ := hr.setAlarm c timeout _ _ _ hm
  obtain rfl := Option.some.inj (hk₂.symm.trans hk₁)
  exact executed_quiet hra ⟨hc, ⟨ho', hl, hs⟩, trivial⟩ rfl rfl fun _ => id

/-- **A statement** of a routine leads to what its next statement needs. -/
theorem Before.step (hr : Repr k a) (hb : Before a c st) (hm : Matched a st)
    (hch : StillChosen k (.routine st none)) (hc : a.vars.currentTask = some c)
    (hst : st.exec k c = some (k', r)) : Executed a c st k' r := by
  cases st with
  | waitAdd q queueType =>
    have hs := hch c (by rw [hr.vars, hc])
    rw [hr.status] at hs
    exact waitAdd_executed hr hb.1 hs hc hst
  | waitOwner q =>
    cases hst
    exact executed_quiet (hr.setOwner c _) ⟨hc, hb, trivial⟩ rfl rfl fun t ht => by
      rwa [Kernel.status_setOwner] at ht
  | waitStatus =>
    cases hst
    exact executed_status hr (by simp) ⟨hc, hb, trivial⟩
  | wakeTest q =>
    cases hst
    split
    · exact executed_same hr (.back hb.1 hc hb.2)
    · exact executed_same hr ⟨hc, hb.1, trivial⟩
  | wakeTask q =>
    obtain ⟨node, -, hst⟩ := Option.bind_eq_some_iff.mp hst
    obtain ⟨task, -, hst⟩ := Option.bind_eq_some_iff.mp hst
    cases hst
    exact executed_same hr ⟨hc, hb, trivial⟩
  | wakeRemove q t =>
    have ht := Orderly.mem_chosen hr hb hch
    exact detach_executed (.readyAdd t) hr ht hst ⟨hc, (hb.leave_wait ht).2, trivial⟩
  | sleepLock tick =>
    cases hst
    split
    · exact executed_same hr (.back hb.1 hc hb.2)
    · next hl =>
      rw [hr.vars] at hl
      exact executed_same hr ⟨hc, ⟨hb.1, hl, hb.2 hl⟩, trivial⟩
  | sleepPeriod tick =>
    cases hst
    split
    · exact executed_same hr ⟨hc, hb, trivial⟩
    · exact executed_same hr ⟨hc, hb, trivial⟩
  | sleepAdvance =>
    cases hst
    have hs : ∀ t, (a.setTcb c fun b => { b with wakeupTime := b.wakeupTime + b.period }).status t =
        a.status t := Kernel.field_setTcb Tcb.status rfl
    exact executed_quiet (hr.setTcb c _) ⟨hc, ⟨hb.1.setTcb _ fun b => ⟨rfl, rfl, rfl⟩, hb.2.1,
      (hs c).trans hb.2.2⟩, trivial⟩ rfl rfl fun t ht => (hs t).symm.trans ht
  | sleepDue =>
    cases hst
    split
    · exact executed_same hr (.back hb.1 hc fun _ => hb.2.2)
    · exact executed_same hr ⟨hc, hb, trivial⟩
  | sleepTimeout =>
    cases hst
    exact executed_same hr ⟨hc, hb, trivial⟩
  | sleepAlarm timeout => exact sleepAlarm_executed hr hb.1 hb.2.1 hb.2.2 hc hst
  | sleepStatus =>
    cases hst
    exact executed_status hr (by simp) ⟨hc, hb.1.block hb.2.2, trivial⟩
  | resumeTest task =>
    cases task with
    | none =>
      cases hst
      exact executed_same hr (.back hb.1 hc hb.2)
    | some t =>
      cases hst
      split
      · exact executed_same hr ⟨hc, hb.1, trivial⟩
      · exact executed_same hr (.back hb.1 hc hb.2)
  | readyAdd t =>
    have hf : ¬Linked a.queue t := by
      obtain hs | ⟨hs, hn⟩ := hch
      · rw [hr.status] at hs
        exact hb.free (by simp [hs]) (by simp [hs])
      · rintro ⟨h, ht⟩
        exact hr.queue.next_eq_none_iff.mp hn h ht
    have hz : a.status t ≠ .zeroed := by
      obtain hs | ⟨hs, -⟩ := hch <;> rw [hr.status] at hs <;> simp [hs]
    exact append_executed (.readySet t) hr hf hst ⟨hc, (hb.add_ready hf hz).2, trivial⟩
  | readySet t =>
    cases hst
    rw [hr.priority]
    exact executed_quiet (hr.osSetReady _) ⟨hc, hb, trivial⟩ rfl rfl fun _ => id
  | readyStatus t =>
    cases hst
    exact executed_status hr (by simp) ⟨hc, hb, trivial⟩
  | scheduleLock =>
    cases hst
    split
    · next hl =>
      rw [hr.vars] at hl
      exact executed_same hr (.back hb hc fun hn => absurd hl hn)
    · next hl =>
      rw [hr.vars] at hl
      exact executed_same hr ⟨hc, ⟨hb, hl⟩, trivial⟩
  | scheduleTest =>
    cases hst
    split
    · next hs =>
      rw [hr.status] at hs
      exact executed_same hr ⟨hc, ⟨hb.1, hb.2, hs⟩, trivial⟩
    · exact executed_same hr ⟨hc, hb, trivial⟩
  | requeueAdd =>
    obtain ⟨ho, hl, hs⟩ := hb
    have hf : ¬Linked a.queue c := ho.free (by simp [hs]) (by simp [hs])
    exact append_executed .requeueSet hr hf hst
      ⟨hc, ⟨(ho.add_ready hf (by simp [hs])).2, hl⟩, trivial⟩
  | requeueSet =>
    cases hst
    rw [hr.priority]
    exact executed_quiet (hr.osSetReady _) ⟨hc, hb, trivial⟩ rfl rfl fun _ => id
  | requeueStatus =>
    cases hst
    exact executed_status hr (by simp) ⟨hc, hb, trivial⟩
  | save | highest =>
    cases hst
    exact executed_same hr ⟨hc, hb, trivial⟩
  | firstNode p =>
    obtain ⟨node, hn, hst⟩ := Option.bind_eq_some_iff.mp hst
    cases hst
    rw [hr.head] at hn
    have hs := (((hb.1.lists.placed node).ready p).mp (List.mem_of_mem_head? hn)).1
    exact executed_same hr ⟨hc, hb, fun hz => by cases hs.symm.trans hz⟩
  | pickTask node =>
    obtain ⟨task, ht, hst⟩ := Option.bind_eq_some_iff.mp hst
    cases hst
    rw [hr.vars] at ht
    have hp : a.vars.pnode node = some node := hb.1.lists.pnode node hm
    exact executed_same hr ⟨hc, hb, Option.some.inj (hp.symm.trans ht)⟩
  | remove node t =>
    obtain rfl : node = t := hm
    have hs : k.status node = .ready := hch
    rw [hr.status] at hs
    have hst : (do return (← k.removeNode (.ready (k.priority node)) node,
      some (Statement.unsetTest node))) = some (k', r) := hst
    rw [hr.priority] at hst
    exact detach_executed _ hr (hb.1.mem_ready hs) hst
      ⟨hc, ⟨(hb.1.remove_ready hs).2, hb.2⟩, trivial⟩
  | unsetTest t =>
    cases hst
    rw [hr.head, hr.priority]
    split
    · next hh =>
      have := hb.1
      unfold Kernel.unsetIfEmpty at this
      rw [if_pos hh] at this
      exact executed_same hr ⟨hc, ⟨this, hb.2⟩, trivial⟩
    · next hh =>
      have := hb.1
      unfold Kernel.unsetIfEmpty at this
      rw [if_neg hh] at this
      exact executed_same hr ⟨hc, ⟨this, hb.2⟩, trivial⟩
  | unset t =>
    cases hst
    rw [hr.priority]
    exact executed_quiet (hr.osUnsetReady _) ⟨hc, hb, trivial⟩ rfl rfl fun _ => id
  | setRunning t =>
    cases hst
    exact executed_status hr (by simp) ⟨hc, hb, trivial⟩
  | setCurrent t =>
    cases hst
    have hs : k.status t = .running := hch
    rw [hr.status] at hs
    exact executed_quiet (hr.setCurrent _) ⟨hb.1.congr rfl rfl rfl rfl rfl, t, rfl, fun _ => hs,
      fun _ => hb.2⟩ rfl rfl fun _ => id

/-- **No statement gets stuck** that goes on with what is still as it was found. -/
theorem Before.progress (hr : Repr k a) (hb : Before a c st) (hm : Matched a st)
    (hch : StillChosen k (.routine st none)) (hc : a.vars.currentTask = some c) :
    ∃ k' r, st.exec k c = some (k', r) := by
  cases st with
  | waitAdd q queueType =>
    have hs := hch c (by rw [hr.vars, hc])
    rw [hr.status] at hs
    have hf : ¬Linked a.queue c := hb.1.free (by simp [hs]) (by simp [hs])
    obtain ⟨xs, hxs, -⟩ := hb.1.add_wait hf (by simp [hs]) q queueType
    obtain ⟨k₁, hk₁, -⟩ := hr.addWaiter q queueType c _ hxs
    exact ⟨k₁, _, by rw [Statement.exec, hk₁]; rfl⟩
  | wakeTask q =>
    obtain ⟨node, hnode⟩ := Option.ne_none_iff_exists'.mp hch
    have hmem : node ∈ a.queue.ring (.wait q) :=
      List.mem_of_mem_head? ((hr.head _).symm.trans hnode)
    have hs : (calm a).status node = .waiting := (hb.waiting hmem).1
    have hpn : k.vars.pnode node = some node := by
      rw [hr.vars]
      exact hb.lists.pnode node (by simp [hs])
    refine ⟨k, some (.wakeRemove q node), ?_⟩
    rw [Statement.exec, hnode, Option.bind_eq_bind, Option.bind_some, hpn]
    rfl
  | wakeRemove q t =>
    obtain ⟨k₁, hk₁, -⟩ := hr.removeNode _ t _ (removeNode_eq (Orderly.mem_chosen hr hb hch))
    exact ⟨k₁, _, by rw [Statement.exec, hk₁]; rfl⟩
  | sleepAlarm timeout =>
    obtain ⟨m, hset, -⟩ := hb.1.setAlarm (t := c) (by simp [hb.2.2]) timeout
    obtain ⟨k₁, hk₁, -⟩ := hr.setAlarm c timeout _ _ _ hset
    exact ⟨k₁, _, by rw [Statement.exec, hk₁]; rfl⟩
  | readyAdd t =>
    have hf : ¬Linked a.queue t := by
      obtain hs | ⟨hs, hn⟩ := hch
      · rw [hr.status] at hs
        exact hb.free (by simp [hs]) (by simp [hs])
      · rintro ⟨h, ht⟩
        exact hr.queue.next_eq_none_iff.mp hn h ht
    obtain ⟨k₁, hk₁, -⟩ := hr.addNodeTail (.ready (a.priority t)) t _ (addNodeTail_eq hf _)
    exact ⟨k₁, _, by rw [Statement.exec, hr.priority, hk₁]; rfl⟩
  | requeueAdd =>
    have hf : ¬Linked a.queue c := hb.1.free (by simp [hb.2.2]) (by simp [hb.2.2])
    obtain ⟨k₁, hk₁, -⟩ := hr.addNodeTail (.ready (a.priority c)) c _ (addNodeTail_eq hf _)
    exact ⟨k₁, _, by rw [Statement.exec, hr.priority, hk₁]; rfl⟩
  | firstNode p =>
    obtain ⟨node, hnode⟩ := Option.ne_none_iff_exists'.mp hch
    exact ⟨k, _, by rw [Statement.exec, hnode]; rfl⟩
  | pickTask node =>
    have hpn : k.vars.pnode node = some node := by
      rw [hr.vars]
      exact hb.1.lists.pnode node hm
    exact ⟨k, _, by rw [Statement.exec, hpn]; rfl⟩
  | remove node t =>
    obtain rfl : node = t := hm
    have hs : k.status node = .ready := hch
    rw [hr.status] at hs
    obtain ⟨k₁, hk₁, -⟩ := hr.removeNode _ node _ (removeNode_eq (hb.1.mem_ready hs))
    exact ⟨k₁, _, by rw [Statement.exec, hr.priority, hk₁]; rfl⟩
  | resumeTest task => cases task <;> exact ⟨_, _, rfl⟩
  | _ => exact ⟨_, _, rfl⟩

end Eos.Analysis
