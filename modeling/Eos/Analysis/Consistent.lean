import Eos.Analysis.Alarms
import Eos.Analysis.Bitmap

/-!
# The consistent states of the kernel

`Placed a t` says that the queue node of task `t` is linked as its TCB says: in the
ready queue of its priority exactly if it is `READY`, in a wait queue only while it is
`WAITING` and has this queue as `wait_queue_owner`.  A state is `Consistent` if every
task is placed, the bitmap agrees with the ready queues and the alarms are in order.

Every operation moves one task at a time, and every move goes through a state in which
this task is `Detached`: linked nowhere, everything else consistent.  The theorems of
this file are the moves into and out of such a state; the operations of the kernel are
put together from them.
-/

set_option autoImplicit false

namespace Eos.Analysis

open Eos.Model
open Eos.Interface (Rings Linked)

variable {T : Type} [DecidableEq T]

/-- The queue node of `t` is linked as its TCB says, and `wait_queue_owner` names a queue
whenever an alarm of a task that does not wait is pending. -/
structure Placed (a : Kernel Rings T) (t : T) : Prop where
  ready : ∀ p, t ∈ a.queue.ring (.ready p) ↔ a.status t = .ready ∧ a.priority t = p
  waiting : ∀ q, t ∈ a.queue.ring (.wait q) → a.status t = .waiting ∧ a.waitQueueOwner t = some q
  alarm : Pending a.timers t → a.status t = .waiting ∨ a.waitQueueOwner t ≠ none
  created : Pending a.timers t → a.status t ≠ .zeroed

/-- What a consistent state says beside the places of its tasks. -/
structure Sound (a : Kernel Rings T) : Prop where
  nodup : ∀ h, (a.queue.ring h).Nodup
  bitmap : Represents a.vars.readyList fun p => a.queue.ring (.ready p) ≠ []
  alarms : AlarmsOk a.timers
  priority : ∀ t, a.priority t ≤ 63
  pnode : ∀ t, a.status t ≠ .zeroed → a.vars.pnode t = some t

/-- Every task is placed as its TCB says. -/
structure Consistent (a : Kernel Rings T) : Prop extends Sound a where
  placed : ∀ t, Placed a t

/-- Task `t` is linked nowhere, and every other task is placed as its TCB says. -/
structure Detached (a : Kernel Rings T) (t : T) : Prop extends Sound a where
  free : ¬Linked a.queue t
  placed : ∀ u ≠ t, Placed a u

/-! ## Moves of the lists -/

/-- Put a task at the end of a queue. -/
def append (a : Kernel Rings T) (h : QueueHead) (t : T) : Kernel Rings T :=
  a.setQueue (a.queue.set h (a.queue.ring h ++ [t]))

/-- Take a task out of a queue. -/
def detach (a : Kernel Rings T) (h : QueueHead) (t : T) : Kernel Rings T :=
  a.setQueue (a.queue.set h ((a.queue.ring h).erase t))

/-- Append a task to the ready queue of its priority and set the bit. -/
def attachReady (a : Kernel Rings T) (t : T) : Kernel Rings T :=
  (append a (.ready (a.priority t)) t).osSetReady (a.priority t)

/-- Take a task out of the ready queue of its priority and unset the bit if that was the last
one. -/
noncomputable def detachReady (a : Kernel Rings T) (t : T) : Kernel Rings T :=
  (detach a (.ready (a.priority t)) t).unsetIfEmpty (a.priority t)

omit [DecidableEq T] in
/-- Members of a queue after one queue has been replaced. -/
theorem mem_set {r : Rings QueueHead T} {h h' : QueueHead} {xs : List T} {u : T} :
    u ∈ (r.set h xs).ring h' ↔ h' = h ∧ u ∈ xs ∨ h' ≠ h ∧ u ∈ r.ring h' := by
  by_cases hh : h' = h
  · subst hh; simp
  · simp [hh]

variable {a a' : Kernel Rings T} {t u : T}

omit [DecidableEq T] in
/-- A task is placed in a state that agrees on everything that concerns it. -/
theorem Placed.congr (hp : Placed a u) (hring : ∀ h, u ∈ a'.queue.ring h ↔ u ∈ a.queue.ring h)
    (hs : a'.status u = a.status u) (hpr : a'.priority u = a.priority u)
    (ho : a'.waitQueueOwner u = a.waitQueueOwner u)
    (hal : Pending a'.timers u → Pending a.timers u) : Placed a' u := by
  constructor
  · intro p
    rw [hring, hs, hpr, hp.ready]
  · intro q hq
    rw [hs, ho]
    exact hp.waiting q ((hring _).mp hq)
  · intro hpend
    rw [hs, ho]
    exact hp.alarm (hal hpend)
  · intro hpend
    rw [hs]
    exact hp.created (hal hpend)

omit [DecidableEq T] in
/-- The bit of a ready queue is unset if the queue has become empty. -/
theorem unsetIfEmpty_bitmap {p : Nat} (hp : p ≤ 63) {S : Nat → Prop}
    (h : Represents a.vars.readyList S) (hpS : S p)
    (hS : ∀ q ≠ p, S q ↔ a.queue.ring (.ready q) ≠ []) :
    Represents (a.unsetIfEmpty p).vars.readyList fun q => a.queue.ring (.ready q) ≠ [] := by
  have hhead : a.head (.ready p) = none ↔ a.queue.ring (.ready p) = [] :=
    List.head?_eq_none_iff
  unfold Kernel.unsetIfEmpty
  split
  · next he =>
    rw [hhead] at he
    refine (h.osUnsetReady hp).congr fun q _ => ?_
    by_cases hq : q = p
    · simp [hq, he]
    · simp [hq, hS q hq]
  · next he =>
    rw [hhead] at he
    refine h.congr fun q _ => ?_
    by_cases hq : q = p
    · simp [hq, he, hpS]
    · exact hS q hq

omit [DecidableEq T] in
/-- Unsetting a bit changes the bitmap only. -/
theorem unsetIfEmpty_eq (a : Kernel Rings T) (p : Nat) :
    ∃ r, a.unsetIfEmpty p = a.setReadyList r := by
  unfold Kernel.unsetIfEmpty
  split
  · exact ⟨_, rfl⟩
  · exact ⟨a.vars.readyList, rfl⟩

omit [DecidableEq T] in
/-- Clearing a bit changes no list. -/
@[simp] theorem unsetIfEmpty_queue (a : Kernel Rings T) (p : Nat) :
    (a.unsetIfEmpty p).queue = a.queue := by
  obtain ⟨r, hr⟩ := unsetIfEmpty_eq a p
  rw [hr, Kernel.setReadyList_queue]

omit [DecidableEq T] in
/-- Clearing a bit changes no alarm. -/
@[simp] theorem unsetIfEmpty_timers (a : Kernel Rings T) (p : Nat) :
    (a.unsetIfEmpty p).timers = a.timers := by
  obtain ⟨r, hr⟩ := unsetIfEmpty_eq a p
  rw [hr, Kernel.setReadyList_timers]

/-- Taking a task out of its ready queue changes its queue and the bitmap only. -/
theorem detachReady_eq (a : Kernel Rings T) (t : T) :
    ∃ r, detachReady a t = (detach a (.ready (a.priority t)) t).setReadyList r :=
  unsetIfEmpty_eq _ _

/-! ## The list routines have a result -/

/-- Adding a task that is linked nowhere at a tail. -/
theorem addNodeTail_eq (hf : ¬Linked a.queue t) (h : QueueHead) :
    a.addNodeTail h t = some (append a h t) := by
  have : NodeLists.osAddNodeTail a.queue h t =
      some (a.queue.set h (a.queue.ring h ++ [t])) := by
    show Rings.addTail _ _ _ = _
    rw [Rings.addTail, if_neg hf]
  simp only [Kernel.addNodeTail, this]
  rfl

/-- Adding a task that is linked nowhere to its ready queue. -/
theorem addReady_eq (hf : ¬Linked a.queue t) : a.addReady t = some (attachReady a t) := by
  simp only [Kernel.addReady, addNodeTail_eq hf]
  rfl

/-- Removing a task through the head cell that leads to it. -/
theorem removeNode_eq {h : QueueHead} (ht : t ∈ a.queue.ring h) :
    a.removeNode h t = some (detach a h t) := by
  have : NodeLists.osRemoveNode a.queue h t = some (a.queue.set h ((a.queue.ring h).erase t)) := by
    show Rings.remove _ _ _ = _
    rw [Rings.remove, if_pos ht]
  simp only [Kernel.removeNode, this]
  rfl

/-- Removing a task that is linked nowhere changes nothing. -/
theorem removeNode_free (hf : ¬Linked a.queue t) (h : QueueHead) :
    a.removeNode h t = some a := by
  have : NodeLists.osRemoveNode a.queue h t = some a.queue := by
    show Rings.remove _ _ _ = _
    rw [Rings.remove, if_neg fun hc => hf ⟨h, hc⟩, dif_neg hf]
  simp only [Kernel.removeNode, this]
  rfl

/-- Removing a task from its ready queue. -/
theorem removeReady_eq (ht : t ∈ a.queue.ring (.ready (a.priority t))) :
    a.removeReady t = some (detachReady a t) := by
  simp only [Kernel.removeReady, removeNode_eq ht]
  rfl

/-! ## Leaving a queue -/

namespace Consistent

omit [DecidableEq T] in
/-- A task that is neither `READY` nor `WAITING` is linked nowhere. -/
theorem free (h : Consistent a) (hr : a.status t ≠ .ready) (hw : a.status t ≠ .waiting) :
    ¬Linked a.queue t := by
  rintro ⟨hd | hd, ht⟩
  · exact hr (((h.placed t).ready _).mp ht).1
  · exact hw ((h.placed t).waiting _ ht).1

omit [DecidableEq T] in
/-- A `READY` task is in the ready queue of its priority. -/
theorem mem_ready (h : Consistent a) (hr : a.status t = .ready) :
    t ∈ a.queue.ring (.ready (a.priority t)) :=
  ((h.placed t).ready _).mpr ⟨hr, rfl⟩

omit [DecidableEq T] in
/-- No task is in two queues. -/
theorem eq_of_mem (h : Consistent a) {h₁ h₂ : QueueHead} (h1 : t ∈ a.queue.ring h₁)
    (h2 : t ∈ a.queue.ring h₂) : h₁ = h₂ := by
  have hp := h.placed t
  cases h₁ with
  | ready p =>
    obtain ⟨hs, rfl⟩ := (hp.ready p).mp h1
    cases h₂ with
    | ready p' => rw [((hp.ready p').mp h2).2]
    | wait q =>
      rw [(hp.waiting q h2).1] at hs
      cases hs
  | wait q =>
    obtain ⟨hs, ho⟩ := hp.waiting q h1
    cases h₂ with
    | ready p' =>
      rw [((hp.ready p').mp h2).1] at hs
      cases hs
    | wait q' =>
      rw [(hp.waiting q' h2).2, Option.some.injEq] at ho
      rw [ho]

omit [DecidableEq T] in
/-- A task that is linked nowhere may be regarded as detached. -/
theorem detached (h : Consistent a) (hf : ¬Linked a.queue t) : Detached a t :=
  ⟨h.toSound, hf, fun u _ => h.placed u⟩

/-- A task taken out of its queue is linked nowhere. -/
theorem not_linked_detach (h : Consistent a) {hd : QueueHead} (ht : t ∈ a.queue.ring hd) :
    ¬Linked (detach a hd t).queue t := by
  rintro ⟨h', hc⟩
  rw [detach, Kernel.setQueue_queue, mem_set] at hc
  rcases hc with ⟨-, hc⟩ | ⟨hne, hc⟩
  · exact ((h.nodup hd).mem_erase_iff.mp hc).1 rfl
  · exact hne (h.eq_of_mem hc ht)

/-- The other members of the queues are not concerned when a task is taken out of one. -/
theorem mem_detach (h : Consistent a) {hd h' : QueueHead} (hne : u ≠ t) :
    u ∈ (detach a hd t).queue.ring h' ↔ u ∈ a.queue.ring h' := by
  rw [detach, Kernel.setQueue_queue, mem_set]
  constructor
  · rintro (⟨rfl, hc⟩ | ⟨-, hc⟩)
    · exact List.mem_of_mem_erase hc
    · exact hc
  · intro hc
    by_cases hh : h' = hd
    · subst hh
      exact Or.inl ⟨rfl, (h.nodup _).mem_erase_iff.mpr ⟨hne, hc⟩⟩
    · exact Or.inr ⟨hh, hc⟩

/-- Every queue repeats no task after one was taken out. -/
theorem nodup_detach (h : Consistent a) (hd h' : QueueHead) :
    ((detach a hd t).queue.ring h').Nodup := by
  by_cases hh : h' = hd
  · subst hh
    simpa [detach] using (h.nodup h').erase t
  · simpa [detach, hh] using h.nodup h'

/-- **A waiting task leaves its wait queue.** -/
theorem detach_wait (h : Consistent a) {q : WaitQueue} (ht : t ∈ a.queue.ring (.wait q)) :
    Detached (detach a (.wait q) t) t where
  nodup := h.nodup_detach _
  bitmap := h.bitmap.congr fun p _ => by simp [detach]
  alarms := h.alarms
  priority := h.priority
  pnode := h.pnode
  free := h.not_linked_detach ht
  placed u hu := (h.placed u).congr (fun _ => h.mem_detach hu) rfl rfl rfl id

/-- **A ready task leaves its ready queue.** -/
theorem detach_ready (h : Consistent a) (hr : a.status t = .ready) :
    Detached (detachReady a t) t := by
  have ht := h.mem_ready hr
  have hbit : Represents (detachReady a t).vars.readyList
      fun q => (detachReady a t).queue.ring (.ready q) ≠ [] := by
    have := unsetIfEmpty_bitmap (a := detach a (.ready (a.priority t)) t) (h.priority t)
      h.bitmap (List.ne_nil_of_mem ht) fun q hq => by simp [detach, hq]
    simpa [detachReady] using this
  obtain ⟨r, hr'⟩ := detachReady_eq a t
  rw [hr'] at hbit ⊢
  exact
    { nodup := h.nodup_detach _
      bitmap := hbit
      alarms := h.alarms
      priority := h.priority
      pnode := h.pnode
      free := h.not_linked_detach ht
      placed := fun u hu => (h.placed u).congr (fun _ => h.mem_detach hu) rfl rfl rfl id }

omit [DecidableEq T] in
/-- The alarms change, but no alarm becomes pending. -/
theorem setTimers (h : Consistent a) {m : Timers Rings T Handler T} (hm : AlarmsOk m)
    (hp : ∀ u, Pending m u → Pending a.timers u) : Consistent (a.setTimers m) where
  nodup := h.nodup
  bitmap := h.bitmap
  alarms := hm
  priority := h.priority
  pnode := h.pnode
  placed u := (h.placed u).congr (fun _ => Iff.rfl) rfl rfl rfl (hp u)

/-- A change of a TCB that keeps its status and owner, and its priority unless the task is not
ready. -/
theorem setTcb (h : Consistent a) (f : Tcb → Tcb) (hp : (f (a.vars.tcb t)).priority ≤ 63)
    (hs : (f (a.vars.tcb t)).status = a.status t)
    (ho : (f (a.vars.tcb t)).waitQueueOwner = a.waitQueueOwner t)
    (hr : a.status t = .ready → (f (a.vars.tcb t)).priority = a.priority t) :
    Consistent (a.setTcb t f) := by
  have hs' : ∀ u, (a.setTcb t f).status u = a.status u := Kernel.field_setTcb Tcb.status hs
  have ho' : ∀ u, (a.setTcb t f).waitQueueOwner u = a.waitQueueOwner u :=
    Kernel.field_setTcb Tcb.waitQueueOwner ho
  have hp' : ∀ u, (a.setTcb t f).priority u =
      if u = t then (f (a.vars.tcb t)).priority else a.priority u := fun u => by
    by_cases hu : u = t
    · subst hu; simp [Kernel.priority]
    · simp [Kernel.priority, hu]
  exact
    { nodup := h.nodup
      bitmap := h.bitmap
      alarms := h.alarms
      priority := fun u => by
        rw [hp']
        split
        · exact hp
        · exact h.priority u
      pnode := fun u hu => h.pnode u (by rwa [hs'] at hu)
      placed := fun u =>
        { ready := fun p => by
            rw [hs', hp']
            refine ((h.placed u).ready p).trans (and_congr_right fun hur => ?_)
            split
            · next hut => subst hut; rw [hr hur]
            · rfl
          waiting := fun q hq => by
            rw [hs', ho']
            exact (h.placed u).waiting q hq
          alarm := fun hpend => by
            rw [hs', ho']
            exact (h.placed u).alarm hpend
          created := fun hpend => by
            rw [hs']
            exact (h.placed u).created hpend } }

omit [DecidableEq T] in
/-- A change of fields that no placement depends on. -/
theorem congr (h : Consistent a) (hq : a'.queue = a.queue) (ht : a'.timers = a.timers)
    (hv : a'.vars.tcb = a.vars.tcb) (hp : a'.vars.pnode = a.vars.pnode)
    (hr : a'.vars.readyList = a.vars.readyList) : Consistent a' := by
  have hs : ∀ t, a'.status t = a.status t := fun t => by rw [Kernel.status, hv, Kernel.status]
  have hpr : ∀ t, a'.priority t = a.priority t := fun t => by
    rw [Kernel.priority, hv, Kernel.priority]
  have ho : ∀ t, a'.waitQueueOwner t = a.waitQueueOwner t := fun t => by
    rw [Kernel.waitQueueOwner, hv, Kernel.waitQueueOwner]
  exact
    { nodup := fun hd => by rw [hq]; exact h.nodup hd
      bitmap := by rw [hr, hq]; exact h.bitmap
      alarms := by rw [ht]; exact h.alarms
      priority := fun t => by rw [hpr]; exact h.priority t
      pnode := fun t => by rw [hs, hp]; exact h.pnode t
      placed := fun t => (h.placed t).congr (fun _ => by rw [hq]) (hs t) (hpr t) (ho t)
        (by rw [ht]; exact id) }

end Consistent

/-! ## Entering a queue -/

namespace Detached

/-- A change of the TCB of a detached task that keeps its priority in range. -/
theorem setTcb (h : Detached a t) (f : Tcb → Tcb) (hp : (f (a.vars.tcb t)).priority ≤ 63)
    (hn : (f (a.vars.tcb t)).status ≠ .zeroed → a.vars.pnode t = some t) :
    Detached (a.setTcb t f) t where
  nodup := h.nodup
  bitmap := h.bitmap
  alarms := h.alarms
  priority u := by
    by_cases hu : u = t
    · subst hu; simpa [Kernel.priority] using hp
    · simpa [Kernel.priority, hu] using h.priority u
  pnode u hs := by
    by_cases hu : u = t
    · subst hu; exact hn (by simpa [Kernel.status] using hs)
    · exact h.pnode u (by simpa [Kernel.status, hu] using hs)
  free := h.free
  placed u hu := (h.placed u hu).congr (fun _ => Iff.rfl) (by simp [Kernel.status, hu])
    (by simp [Kernel.priority, hu]) (by simp [Kernel.waitQueueOwner, hu]) id

/-- The back pointer of a detached task is set. -/
theorem setPnode (h : Detached a t) : Detached (a.setPnode t) t where
  nodup := h.nodup
  bitmap := h.bitmap
  alarms := h.alarms
  priority := h.priority
  pnode u hs := by
    by_cases hu : u = t
    · subst hu; simp
    · simpa [hu] using h.pnode u hs
  free := h.free
  placed u hu := (h.placed u hu).congr (fun _ => Iff.rfl) rfl rfl rfl id

/-- The key of a detached task is set. -/
theorem setOrderVal (h : Detached a t) (n : Nat) : Detached (a.setOrderVal t n) t where
  nodup := h.nodup
  bitmap := h.bitmap
  alarms := h.alarms
  priority := h.priority
  pnode := h.pnode
  free := h.free
  placed u hu := (h.placed u hu).congr (fun _ => Iff.rfl) rfl rfl rfl id

omit [DecidableEq T] in
/-- The alarms change, but no other task's alarm becomes pending. -/
theorem setTimers (h : Detached a t) {m : Timers Rings T Handler T} (hm : AlarmsOk m)
    (hp : ∀ u ≠ t, Pending m u → Pending a.timers u) : Detached (a.setTimers m) t where
  nodup := h.nodup
  bitmap := h.bitmap
  alarms := hm
  priority := h.priority
  pnode := h.pnode
  free := h.free
  placed u hu := (h.placed u hu).congr (fun _ => Iff.rfl) rfl rfl rfl (hp u hu)

omit [DecidableEq T] in
/-- Members of the queues after a detached task was appended to one. -/
theorem mem_append {h' hd : QueueHead} :
    u ∈ (append a hd t).queue.ring h' ↔ u ∈ a.queue.ring h' ∨ h' = hd ∧ u = t := by
  rw [append, Kernel.setQueue_queue, mem_set]
  by_cases hh : h' = hd
  · subst hh; simp
  · simp [hh]

/-- **A detached task becomes ready**: it is appended to the ready queue of its priority, and
the bit of this priority is set. -/
theorem attach_ready (h : Detached a t) (hn : a.vars.pnode t = some t)
    (hal : Pending a.timers t → a.waitQueueOwner t ≠ none) :
    Consistent ((attachReady a t).setStatus t .ready) where
  nodup hd := by
    by_cases hh : hd = .ready (a.priority t)
    · subst hh
      have hnm : t ∉ a.queue.ring (.ready (a.priority t)) := fun hc => h.free ⟨_, hc⟩
      have := List.nodup_append.mpr ⟨h.nodup (.ready (a.priority t)), List.nodup_singleton t,
        fun x hx y hy e => hnm (e.trans (List.mem_singleton.mp hy) ▸ hx)⟩
      simpa [attachReady, append, Kernel.osSetReady] using this
    · simpa [attachReady, append, Kernel.osSetReady, hh] using h.nodup hd
  bitmap := by
    refine (h.bitmap.osSetReady (h.priority t)).congr fun q _ => ?_
    by_cases hq : q = a.priority t
    · simp [attachReady, append, Kernel.osSetReady, hq]
    · simp [attachReady, append, Kernel.osSetReady, hq]
  alarms := h.alarms
  priority u := by simpa [attachReady, append, Kernel.osSetReady] using h.priority u
  pnode u hs := by
    by_cases hu : u = t
    · subst hu; exact hn
    · exact h.pnode u (by simpa [attachReady, append, Kernel.osSetReady, hu] using hs)
  placed u := by
    have hmem : ∀ h', u ∈ ((attachReady a t).setStatus t .ready).queue.ring h' ↔
        u ∈ a.queue.ring h' ∨ h' = .ready (a.priority t) ∧ u = t := fun _ => mem_append
    by_cases hu : u = t
    · subst hu
      constructor
      · intro p
        rw [hmem]
        constructor
        · rintro (hc | ⟨hc, -⟩)
          · exact absurd ⟨_, hc⟩ h.free
          · cases hc
            simp [attachReady, append, Kernel.osSetReady]
        · rintro ⟨-, rfl⟩
          simp [attachReady, append, Kernel.osSetReady]
      · intro q hq
        rw [hmem] at hq
        rcases hq with hc | ⟨hc, -⟩
        · exact absurd ⟨_, hc⟩ h.free
        · cases hc
      · intro hp
        exact Or.inr (by simpa [attachReady, append, Kernel.osSetReady] using hal hp)
      · intro _
        simp
    · refine (h.placed u hu).congr (fun h' => ?_) ?_ ?_ ?_ id
      · rw [hmem]
        simp [hu]
      all_goals simp [attachReady, append, Kernel.osSetReady, hu]

/-- **A detached task blocks without a queue**, is suspended or runs: its status changes to one
that is not `READY`. -/
theorem settle (h : Detached a t) (hn : a.vars.pnode t = some t) {s : Status} (hs : s ≠ .ready)
    (hz : s ≠ .zeroed) (hal : Pending a.timers t → s = .waiting ∨ a.waitQueueOwner t ≠ none) :
    Consistent (a.setStatus t s) where
  nodup := h.nodup
  bitmap := h.bitmap
  alarms := h.alarms
  priority u := by simpa using h.priority u
  pnode u hu := by
    by_cases hut : u = t
    · subst hut; exact hn
    · exact h.pnode u (by simpa [hut] using hu)
  placed u := by
    by_cases hu : u = t
    · subst hu
      refine ⟨fun p => ?_, fun q hq => absurd ⟨_, hq⟩ h.free, by simpa using hal, by simp [hz]⟩
      exact iff_of_false (fun hc => h.free ⟨_, hc⟩) (by simp [hs])
    · exact (h.placed u hu).congr (fun _ => Iff.rfl) (by simp [hu]) (by simp) (by simp) id

/-- **A detached task enters a wait queue**, at its end or at the place of its key. -/
theorem attach_wait [Fintype T] (h : Detached a t) (hn : a.vars.pnode t = some t) (q : WaitQueue)
    (queueType : UInt8) :
    ∃ xs, a.addWaiter q queueType t = some (a.setQueue (a.queue.set (.wait q) xs)) ∧
      (∀ u, u ∈ xs ↔ u = t ∨ u ∈ a.queue.ring (.wait q)) ∧
      Consistent (((a.setQueue (a.queue.set (.wait q) xs)).setOwner t (some q)).setStatus t
        .waiting) := by
  obtain ⟨xs, hxs, hperm⟩ : ∃ xs, a.addWaiter q queueType t =
      some (a.setQueue (a.queue.set (.wait q) xs)) ∧ xs.Perm (t :: a.queue.ring (.wait q)) := by
    unfold Kernel.addWaiter
    split
    · exact ⟨_, addNodeTail_eq h.free _, List.perm_append_singleton _ _⟩
    · refine ⟨_, ?_, Eos.Analysis.insertOrdered_perm a.vars.orderVal t _⟩
      have : NodeLists.osAddNodeOrdered a.queue a.vars.orderVal (.wait q) t =
          some (a.queue.set (.wait q)
            (Eos.Interface.insertOrdered a.vars.orderVal t (a.queue.ring (.wait q)))) := by
        show Rings.addOrdered _ _ _ _ = _
        rw [Rings.addOrdered, if_neg h.free]
      simp only [Kernel.addNodeOrdered, this]
      rfl
  have hmem : ∀ u, u ∈ xs ↔ u = t ∨ u ∈ a.queue.ring (.wait q) := fun u => by
    rw [hperm.mem_iff, List.mem_cons]
  have hset : ∀ {h' : QueueHead} {u : T}, u ≠ t →
      (u ∈ (a.queue.set (.wait q) xs).ring h' ↔ u ∈ a.queue.ring h') := by
    intro h' u hu
    rw [mem_set, hmem]
    by_cases hh : h' = .wait q
    · subst hh; simp [hu]
    · simp [hh]
  refine ⟨xs, hxs, hmem, ?_⟩
  constructor
  · constructor
    · intro hd
      by_cases hh : hd = .wait q
      · subst hh
        have := hperm.nodup_iff.mpr (List.nodup_cons.mpr ⟨fun hc => h.free ⟨_, hc⟩, h.nodup _⟩)
        simpa using this
      · simpa [hh] using h.nodup hd
    · exact h.bitmap.congr fun p _ => by simp
    · exact h.alarms
    · exact fun u => by simpa using h.priority u
    · intro u hs
      by_cases hu : u = t
      · subst hu; exact hn
      · exact h.pnode u (by simpa [hu] using hs)
  · intro u
    by_cases hu : u = t
    · subst hu
      constructor
      · refine fun p => iff_of_false (fun hc => ?_) (by simp)
        rw [Kernel.setStatus_queue, Kernel.setOwner_queue, Kernel.setQueue_queue, mem_set] at hc
        rcases hc with ⟨hc, -⟩ | ⟨-, hc⟩
        · cases hc
        · exact h.free ⟨_, hc⟩
      · intro q' hq'
        rw [Kernel.setStatus_queue, Kernel.setOwner_queue, Kernel.setQueue_queue, mem_set] at hq'
        rcases hq' with ⟨hc, -⟩ | ⟨-, hc⟩
        · cases hc
          simp
        · exact absurd ⟨_, hc⟩ h.free
      · intro _
        simp
      · intro _
        simp
    · exact (h.placed u hu).congr (fun h' => hset hu) (by simp [hu]) (by simp) (by simp [hu]) id

end Detached

end Eos.Analysis
