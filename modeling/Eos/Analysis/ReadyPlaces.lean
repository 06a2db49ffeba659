import Eos.Analysis.FifoQueues
import Eos.Analysis.Timeless

/-!
# Places in the ready queues

A ready task keeps its place in its ready queue while the kernel appends others at the end and takes
others out (`HoldsPlace`).  `eos_schedule` takes the first task of a queue, which may be the
one itself (`Switched`).  Every routine of core/task.c, core/sync.c and core/timer.c is a sequence
of such steps, except that `eos_change_priority` moves the task it is called for, and the alarm
of a ready task moves this task.
-/

set_option autoImplicit false

namespace Eos.Analysis

open Eos.Model
open Eos.Interface (Rings Linked)

/-! ## Places -/

section Places

variable {T : Type} [DecidableEq T] {a b d : Kernel Rings T} {t u : T} {p : Nat}

/-- The task that the processor has switched to, if it has priority `p`. -/
def switchedTo {Q : Type → Type → Type} (p : Nat) (k k' : Kernel Q T) : List T :=
  if k'.vars.currentTask = k.vars.currentTask then []
  else k'.vars.currentTask.toList.filter fun u => k'.priority u = p

omit [DecidableEq T] in
/-- The tasks in the ready queues can be dispatched. -/
structure ReadyOk (a : Kernel Rings T) : Prop where
  pnode : ∀ p u, u ∈ a.queue.ring (.ready p) → a.vars.pnode u = some u
  priority : ∀ p u, u ∈ a.queue.ring (.ready p) → a.priority u = p
  nodup : ∀ p, (a.queue.ring (.ready p)).Nodup
  running : ∀ u, a.vars.currentTask = some u → a.status u = .running → a.vars.pnode u = some u

omit [DecidableEq T] in
/-- The ready queues of a consistent kernel are in order. -/
theorem Consistent.readyOk (h : Consistent a) : ReadyOk a where
  pnode p u hu := h.pnode u (by rw [(((h.placed u).ready p).mp hu).1]; exact Status.noConfusion)
  priority p u hu := (((h.placed u).ready p).mp hu).2
  nodup p := h.nodup (.ready p)
  running u _ hu := h.pnode u (by rw [hu]; exact Status.noConfusion)

/-- Taking out a task leaves the others where they are. -/
theorem mem_of_remove {r r' : Rings QueueHead T} {hd hd' : QueueHead} (hr : r.remove hd u = some r')
    (hne : u ≠ t) (ht : t ∈ r.ring hd') : t ∈ r'.ring hd' := by
  have herase : ∀ h₁, t ∈ (r.set h₁ ((r.ring h₁).erase u)).ring hd' := by
    intro h₁
    by_cases hh : hd' = h₁
    · subst hh
      rw [Rings.set_ring, Function.update_self]
      exact (List.mem_erase_of_ne hne.symm).mpr ht
    · rwa [Rings.set_ring, Function.update_of_ne hh]
  unfold Rings.remove at hr
  split at hr
  · cases hr
    exact herase hd
  · split at hr
    · split at hr
      · cases hr
      · cases hr
        exact herase _
    · cases hr
      exact ht

/-- From `a` to `b` the processor has not been switched, and task `t`, if it was in the ready queue
of priority `p`, still is, with nobody new ahead. -/
structure HoldsPlace (t : T) (p : Nat) (a b : Kernel Rings T) : Prop where
  queues : ReadyOk b
  current : b.vars.currentTask = a.vars.currentTask
  links : ∀ u, a.vars.pnode u = some u → b.vars.pnode u = some u
  mem : t ∈ a.queue.ring (.ready p) → t ∈ b.queue.ring (.ready p)
  ahead : t ∈ a.queue.ring (.ready p) →
    ((b.queue.ring (.ready p)).takeWhile fun u => u ≠ t).Sublist
      ((a.queue.ring (.ready p)).takeWhile fun u => u ≠ t)

namespace HoldsPlace

/-- A task holds its place while nothing happens. -/
theorem refl (h : ReadyOk a) : HoldsPlace t p a a := ⟨h, rfl, fun _ => id, id, fun _ => .refl _⟩

/-- It holds its place over two steps if it does over each. -/
theorem trans (h : HoldsPlace t p a b) (h' : HoldsPlace t p b d) : HoldsPlace t p a d where
  queues := h'.queues
  current := h'.current.trans h.current
  links u hu := h'.links u (h.links u hu)
  mem ht := h'.mem (h.mem ht)
  ahead ht := (h'.ahead (h.mem ht)).trans (h.ahead ht)

/-- The ready queues have not changed, and the tasks in them have their priority. -/
theorem of_queue (h : ReadyOk a) (hq : ∀ p, b.queue.ring (.ready p) = a.queue.ring (.ready p))
    (hn : ∀ u, a.vars.pnode u = some u → b.vars.pnode u = some u)
    (hp : ∀ p u, u ∈ a.queue.ring (.ready p) → b.priority u = a.priority u)
    (hc : b.vars.currentTask = a.vars.currentTask)
    (hs : ∀ u, a.vars.currentTask = some u → b.status u = .running → a.status u = .running) :
    HoldsPlace t p a b where
  queues :=
    { pnode := fun p u hu => hn u (h.pnode p u (hq p ▸ hu))
      priority := fun p u hu => (hp p u (hq p ▸ hu)).trans (h.priority p u (hq p ▸ hu))
      nodup := fun p => by rw [hq]; exact h.nodup p
      running := fun u hu hr => hn u (h.running u (hc ▸ hu) (hs u (hc ▸ hu) hr)) }
  current := hc
  links := hn
  mem := by rw [hq]; exact id
  ahead _ := by rw [hq]

/-- New timers. -/
theorem setTimers (h : ReadyOk a) (m : Timers Rings T Handler T) :
    HoldsPlace t p a (a.setTimers m) :=
  of_queue h (fun _ => rfl) (fun _ => id) (fun _ _ _ => rfl) rfl fun _ _ => id

/-- A new count. -/
theorem setCount (h : ReadyOk a) (s : Nat) (n : Int) : HoldsPlace t p a (a.setCount s n) :=
  of_queue h (fun _ => rfl) (fun _ => id) (fun _ _ _ => rfl) rfl fun _ _ => id

/-- A new owner. -/
theorem setOwner (h : ReadyOk a) (u : T) (q : Option WaitQueue) :
    HoldsPlace t p a (a.setOwner u q) :=
  of_queue h (fun _ => rfl) (fun _ => id) (fun _ _ _ => by simp) rfl fun _ _ => by simp

/-- A new status of a task that is not dispatched. -/
theorem setStatus (h : ReadyOk a) (u : T) {s : Status} (hs : s ≠ .running) :
    HoldsPlace t p a (a.setStatus u s) := by
  refine of_queue h (fun _ => rfl) (fun _ => id) (fun _ _ _ => by simp) rfl fun v _ hv => ?_
  rw [Kernel.status_setStatus] at hv
  split at hv
  · exact absurd hv hs
  · exact hv

/-- A task that is in no ready queue is appended to that of its priority. -/
theorem of_append (h : ReadyOk a) (hfree : ∀ p, u ∉ a.queue.ring (.ready p))
    (hq : ∀ p, b.queue.ring (.ready p) =
      a.queue.ring (.ready p) ++ if p = b.priority u then [u] else [])
    (hn : ∀ v, a.vars.pnode v = some v → b.vars.pnode v = some v) (hnu : b.vars.pnode u = some u)
    (hp : ∀ v ≠ u, b.priority v = a.priority v)
    (hc : b.vars.currentTask = a.vars.currentTask)
    (hs : ∀ u, a.vars.currentTask = some u → b.status u = .running → a.status u = .running) :
    HoldsPlace t p a b := by
  have hmem : ∀ p' v, v ∈ b.queue.ring (.ready p') →
      v ∈ a.queue.ring (.ready p') ∨ p' = b.priority u ∧ v = u := by
    intro p' v hv
    rw [hq] at hv
    rcases List.mem_append.mp hv with hv | hv
    · exact .inl hv
    · split at hv
      · next hp' => exact .inr ⟨hp', List.mem_singleton.mp hv⟩
      · cases hv
  refine ⟨⟨fun p' v hv => ?_, fun p' v hv => ?_, fun p' => ?_, fun v hv hr => ?_⟩, hc, hn,
    fun ht => ?_, fun ht => ?_⟩
  · rcases hmem p' v hv with hv | ⟨-, rfl⟩
    · exact hn v (h.pnode p' v hv)
    · exact hnu
  · rcases hmem p' v hv with hv | ⟨rfl, rfl⟩
    · have hvu : v ≠ u := fun e => hfree p' (e ▸ hv)
      exact (hp v hvu).trans (h.priority p' v hv)
    · rfl
  · rw [hq]
    refine (h.nodup p').append (by split <;> simp) fun v hv hv' => ?_
    split at hv'
    · exact hfree p' (List.mem_singleton.mp hv' ▸ hv)
    · cases hv'
  · exact hn v (h.running v (hc ▸ hv) (hs v (hc ▸ hv) hr))
  · rw [hq]
    exact List.mem_append_left _ ht
  · have htu : t ≠ u := fun e => hfree p (e ▸ ht)
    have hsub : (b.queue.ring (.ready p)).Sublist
        (a.queue.ring (.ready p) ++ if p = b.priority u then [u] else []) := by rw [hq]
    refine takeWhile_sublist hsub ht ?_ (h.nodup p) ?_
    · rw [hq]
      exact List.mem_append_left _ ht
    · split
      · exact fun hmem => htu (List.mem_singleton.mp hmem)
      · exact List.not_mem_nil

/-- Another task goes behind it. -/
theorem addReady (h : ReadyOk a) (hn : a.vars.pnode u = some u) (hb : a.addReady u = some b) :
    HoldsPlace t p a b := by
  by_cases hfree : Linked a.queue u
  · have hnone : a.addReady u = none := by
      have hr : Rings.addTail a.queue (.ready (a.priority u)) u = none := by
        rw [Rings.addTail, if_pos hfree]
      show Option.bind (Option.bind (Rings.addTail _ _ _) _) _ = _
      rw [hr]
      rfl
    rw [hnone] at hb
    cases hb
  · rw [addReady_eq hfree] at hb
    cases hb
    refine of_append h (fun p hu => hfree ⟨_, hu⟩) (fun p' => ?_) (fun _ => id) hn (fun _ _ => rfl)
      rfl fun _ _ => id
    by_cases hp : p' = a.priority u
    · subst hp
      simp [attachReady, append, Kernel.osSetReady]
    · simp [attachReady, append, Kernel.osSetReady, hp]

/-- Another task is taken out of a queue. -/
theorem removeNode {hd : QueueHead} (h : ReadyOk a) (hne : u ≠ t)
    (hb : a.removeNode hd u = some b) : HoldsPlace t p a b := by
  obtain ⟨r, hr, hb⟩ := Option.bind_eq_some_iff.mp hb
  cases hb
  change a.queue.remove hd u = some r at hr
  have hsub : ∀ p', (r.ring (.ready p')).Sublist (a.queue.ring (.ready p')) :=
    fun p' => Thinned.remove_sublist hr _
  have hkeep : ∀ p', t ∈ a.queue.ring (.ready p') → t ∈ r.ring (.ready p') :=
    fun p' ht => mem_of_remove hr hne ht
  refine ⟨⟨fun p' v hv => h.pnode p' v ((hsub p').subset hv),
    fun p' v hv => h.priority p' v ((hsub p').subset hv), fun p' => (h.nodup p').sublist (hsub p'),
    h.running⟩, rfl, fun _ => id, hkeep p, fun ht => ?_⟩
  refine takeWhile_sublist (?_ : (r.ring (.ready p)).Sublist (_ ++ [])) ht (hkeep p ht) (h.nodup p)
    List.not_mem_nil
  rw [List.append_nil]
  exact hsub p

/-- The bit of an empty ready queue is cleared. -/
theorem unsetIfEmpty (h : ReadyOk a) (p' : Nat) :
    HoldsPlace t p a (a.unsetIfEmpty p') := by
  obtain ⟨r, hr⟩ := unsetIfEmpty_eq a p'
  rw [hr]
  exact of_queue h (fun _ => rfl) (fun _ => id) (fun _ _ _ => rfl) rfl fun _ _ => id

/-- Another task leaves its ready queue. -/
theorem removeReady (h : ReadyOk a) (hne : u ≠ t) (hb : a.removeReady u = some b) :
    HoldsPlace t p a b := by
  obtain ⟨d, hd, hb⟩ := Option.bind_eq_some_iff.mp hb
  cases hb
  have hrem : HoldsPlace t p a d := removeNode h hne hd
  exact hrem.trans (unsetIfEmpty hrem.queues _)

/-- A running current task goes back to its ready queue (core/task.c:99-105). -/
theorem requeueCurrent (h : ReadyOk a) (hb : a.requeueCurrent = some b) : HoldsPlace t p a b := by
  unfold Kernel.requeueCurrent at hb
  split at hb
  · cases hb
    exact refl h
  · next c hc =>
    split at hb
    · next hrun =>
      obtain ⟨d, hd, hb⟩ := Option.bind_eq_some_iff.mp hb
      cases hb
      have hadd : HoldsPlace t p a d := addReady h (h.running c hc hrun) hd
      exact hadd.trans (setStatus hadd.queues c Status.noConfusion)
    · cases hb
      exact refl h

end HoldsPlace

/-- The processor may have been switched: task `t` is still in its ready queue, behind fewer tasks
by those of its priority that have been dispatched; or it has been dispatched itself. -/
inductive Switched (t : T) (p : Nat) (a b : Kernel Rings T) : Prop
  | stays (hok : ReadyOk b) (hlinks : ∀ u, a.vars.pnode u = some u → b.vars.pnode u = some u)
      (hmem : t ∈ b.queue.ring (.ready p))
      (hahead : (switchedTo p a b ++ (b.queue.ring (.ready p)).takeWhile fun u => u ≠ t).Sublist
        ((a.queue.ring (.ready p)).takeWhile fun u => u ≠ t))
  | dispatched (hcur : b.vars.currentTask = some t) (hfree : t ∉ b.queue.ring (.ready p))

/-- **The second half of `eos_schedule`** takes the first task of a ready queue
(core/task.c:119-136). -/
theorem dispatchNext_place (h : ReadyOk a) (ht : t ∈ a.queue.ring (.ready p))
    (hb : a.dispatchNext = some b) : ReadyOk b ∧ b.vars.pnode = a.vars.pnode ∧
      ∃ next, b.vars.currentTask = some next ∧
      (next = t ∧ t ∉ b.queue.ring (.ready p) ∨ t ∈ b.queue.ring (.ready p) ∧
        ((if b.priority next = p then [next] else []) ++
          (b.queue.ring (.ready p)).takeWhile fun u => u ≠ t).Sublist
            ((a.queue.ring (.ready p)).takeWhile fun u => u ≠ t)) := by
  obtain ⟨node, hnode, hb⟩ := Option.bind_eq_some_iff.mp hb
  obtain ⟨next, hnext, hb⟩ := Option.bind_eq_some_iff.mp hb
  obtain ⟨d, hd, hb⟩ := Option.bind_eq_some_iff.mp hb
  cases hb
  change (a.queue.ring (.ready a.vars.readyList.osGetHighestPriority)).head? = some node at hnode
  obtain ⟨rest, hring⟩ := List.head?_eq_some_iff.mp hnode
  have hmem : node ∈ a.queue.ring (.ready a.vars.readyList.osGetHighestPriority) :=
    hring ▸ List.mem_cons_self
  -- the node of the task that is dispatched leads back to it
  obtain rfl : node = next := Option.some.inj ((h.pnode _ node hmem).symm.trans hnext)
  have hprio := h.priority _ node hmem
  generalize a.vars.readyList.osGetHighestPriority = y at *
  rw [hprio, removeNode_eq hmem] at hd
  cases hd
  obtain ⟨r, hr⟩ := unsetIfEmpty_eq (detach a (.ready y) node) (a.priority node)
  have hprio' : ((((detach a (.ready y) node).unsetIfEmpty (a.priority node)).setStatus node
      .running).setCurrent (some node)).priority node = y := by
    rw [hr, ← hprio]
    simp [detach]
  have hring' : ∀ p', ((((detach a (.ready y) node).unsetIfEmpty (a.priority node)).setStatus node
      .running).setCurrent (some node)).queue.ring (.ready p') =
        if p' = y then rest else a.queue.ring (.ready p') := by
    intro p'
    rw [hr]
    by_cases hp : p' = y
    · subst hp
      simp [detach, hring]
    · simp [detach, hp]
  have hold : ∀ p' v, v ∈ (if p' = y then rest else a.queue.ring (.ready p')) →
      v ∈ a.queue.ring (.ready p') := by
    intro p' v hv
    split at hv
    · next hp =>
      rw [hp, hring]
      exact List.mem_cons_of_mem node hv
    · exact hv
  refine ⟨⟨fun p' v hv => ?_, fun p' v hv => ?_, fun p' => ?_, fun v hv _ => ?_⟩,
    by rw [hr]; rfl, node, rfl, ?_⟩
  · rw [hr]
    exact h.pnode p' v (hold p' v (hring' p' ▸ hv))
  · rw [hr]
    simpa [detach] using h.priority p' v (hold p' v (hring' p' ▸ hv))
  · rw [hring']
    split
    · next hp => exact (List.nodup_cons.mp (hring ▸ h.nodup y)).2
    · exact h.nodup p'
  · cases hv
    rw [hr]
    exact h.pnode y node hmem
  rw [hprio', hring']
  by_cases hp : p = y
  · subst hp
    rw [if_pos rfl, if_pos rfl, hring]
    have hnd := hring ▸ h.nodup p
    by_cases hnt : node = t
    · subst hnt
      exact .inl ⟨rfl, (List.nodup_cons.mp hnd).1⟩
    · have htr : t ∈ rest := (List.mem_cons.mp (hring ▸ ht)).resolve_left fun e => hnt e.symm
      rw [List.takeWhile_cons_of_pos (by simpa using hnt)]
      exact .inr ⟨htr, .refl _⟩
  · rw [if_neg hp, if_neg fun e => hp e.symm, List.nil_append]
    exact .inr ⟨ht, .refl _⟩

/-- Nothing has been dispatched. -/
theorem HoldsPlace.switched (h : HoldsPlace t p a b) (ht : t ∈ a.queue.ring (.ready p)) :
    Switched t p a b := by
  refine .stays h.queues h.links (h.mem ht) ?_
  rw [switchedTo, if_pos h.current]
  exact h.ahead ht

/-- `eos_schedule` with the scheduler unlocked dispatches task `t`, or one that does not pass it. -/
theorem HoldsPlace.dispatches {m : Kernel Rings T} (h : HoldsPlace t p a m)
    (ht : t ∈ a.queue.ring (.ready p)) (hl : m.vars.schedulerLock ≠ locked)
    (hb : m.eosSchedule = some b) : ReadyOk b ∧
      (∀ u, a.vars.pnode u = some u → b.vars.pnode u = some u) ∧
      ∃ next, b.vars.currentTask = some next ∧
        (next = t ∧ t ∉ b.queue.ring (.ready p) ∨ t ∈ b.queue.ring (.ready p) ∧
          ((if b.priority next = p then [next] else []) ++
            (b.queue.ring (.ready p)).takeWhile fun u => u ≠ t).Sublist
              ((a.queue.ring (.ready p)).takeWhile fun u => u ≠ t)) := by
  unfold Kernel.eosSchedule at hb
  rw [if_neg hl] at hb
  obtain ⟨d, hd, hb⟩ := Option.bind_eq_some_iff.mp hb
  have hreq : HoldsPlace t p a d := h.trans (.requeueCurrent h.queues hd)
  obtain ⟨hok, hlinks, next, hcur, hplace⟩ := dispatchNext_place hreq.queues (hreq.mem ht) hb
  refine ⟨hok, fun u hu => hlinks ▸ hreq.links u hu, next, hcur, ?_⟩
  rcases hplace with hleft | ⟨hmem, hahead⟩
  · exact .inl hleft
  · exact .inr ⟨hmem, hahead.trans (hreq.ahead ht)⟩

/-- **`eos_schedule`** (core/task.c:88-139) -/
theorem HoldsPlace.eosSchedule {m : Kernel Rings T} (h : HoldsPlace t p a m)
    (ht : t ∈ a.queue.ring (.ready p)) (hb : m.eosSchedule = some b) : Switched t p a b := by
  by_cases hl : m.vars.schedulerLock = locked
  · rw [eosSchedule_locked hl] at hb
    cases hb
    exact h.switched ht
  · obtain ⟨hok, hlinks, next, hcur, ⟨rfl, hfree⟩ | ⟨hmem, hahead⟩⟩ := h.dispatches ht hl hb
    · exact .dispatched hcur hfree
    · refine .stays hok hlinks hmem ((List.Sublist.append_right ?_ _).trans hahead)
      unfold switchedTo
      split
      · exact List.nil_sublist _
      · rw [hcur, Option.toList_some]
        by_cases hp : b.priority next = p
        · simp [hp]
        · simp [hp]

/-- After a step that leaves the current task on the processor. -/
theorem Switched.holdsPlace (h : Switched t p a b) (hcur : b.vars.currentTask = a.vars.currentTask)
    (hne : a.vars.currentTask ≠ some t) : HoldsPlace t p a b := by
  cases h with
  | stays hok hlinks hmem hahead =>
    rw [switchedTo, if_pos hcur] at hahead
    exact ⟨hok, hcur, hlinks, fun _ => hmem, fun _ => hahead⟩
  | dispatched hcur' => exact absurd (hcur.symm.trans hcur') hne

end Places

/-! ## The operations -/

section Operations

variable {T : Type} [DecidableEq T] {a b m : Kernel Rings T} {t u : T} {p : Nat}

namespace Switched

/-- `eos_create_task` on a zeroed TCB (core/task.c:34-79) -/
theorem eosCreateTask {task : Option T} {start size entry : UInt64} {p' : Nat} {r : UInt32}
    (h : Consistent a) (ht : t ∈ a.queue.ring (.ready p))
    (hz : ∀ u ∈ task, a.vars.tcb u = .zero)
    (hb : a.eosCreateTask task start size entry p' = some (r, b)) : Switched t p a b := by
  have hrefl : HoldsPlace t p a a := .refl h.readyOk
  unfold Kernel.eosCreateTask at hb
  split at hb
  · cases hb
    exact hrefl.switched ht
  · next u =>
    split at hb
    · cases hb
      exact hrefl.switched ht
    split at hb
    · cases hb
      exact hrefl.switched ht
    split at hb
    · cases hb
      exact hrefl.switched ht
    · obtain ⟨d, hd, hb⟩ := Option.bind_eq_some_iff.mp hb
      obtain ⟨e, he, hb⟩ := Option.bind_eq_some_iff.mp hb
      cases hb
      have hzero := hz u rfl
      have hinit : HoldsPlace t p a (((a.setTcb u fun b =>
          { b with priority := p', period := 0, wakeupTime := 0 }).setPnode
            u).setOrderVal u p') := by
        refine .of_queue h.readyOk (fun _ => rfl) (fun v hv => ?_) (fun p'' v hv => ?_) rfl
          fun v _ hv => ?_
        · by_cases hvu : v = u
          · subst hvu
            simp
          · simpa [hvu] using hv
        · have hvu : v ≠ u := by
            rintro rfl
            have hstatus := (((h.placed v).ready p'').mp hv).1
            rw [Kernel.status, hzero] at hstatus
            cases hstatus
          simp [Kernel.priority, hvu]
        · rwa [Kernel.status_setOrderVal, Kernel.status_setPnode, Kernel.status,
            Kernel.field_setTcb Tcb.status rfl] at hv
      have hadd : HoldsPlace t p _ d := .addReady hinit.queues (by simp) hd
      have hready : HoldsPlace t p d (d.setStatus u .ready) :=
        .setStatus hadd.queues u Status.noConfusion
      exact ((hinit.trans hadd).trans hready).eosSchedule ht he

/-- `eos_change_priority` on another task (core/task.c:148-172) -/
theorem eosChangePriority {task : Option T} {p' : Nat} (h : Consistent a)
    (ht : t ∈ a.queue.ring (.ready p)) (hne : task ≠ some t)
    (hb : a.eosChangePriority task p' = some b) : Switched t p a b := by
  have hrefl : HoldsPlace t p a a := .refl h.readyOk
  cases task with
  | none =>
    cases hb
    exact hrefl.switched ht
  | some u =>
    have hut : u ≠ t := fun e => hne (e ▸ rfl)
    unfold Kernel.eosChangePriority at hb
    simp only at hb
    split at hb
    · cases hb
      exact hrefl.switched ht
    obtain ⟨d, hd, hb⟩ := Option.bind_eq_some_iff.mp hb
    refine HoldsPlace.eosSchedule ?_ ht hb
    split at hd
    · next hready =>
      obtain ⟨e, he, hd⟩ := Option.bind_eq_some_iff.mp hd
      obtain ⟨f, hf, hd⟩ := Option.bind_eq_some_iff.mp hd
      cases hd
      have hrem : HoldsPlace t p a e := .removeReady h.readyOk hut he
      have hdetach := removeReady_eq (h.mem_ready hready)
      rw [he] at hdetach
      obtain ⟨r, hr⟩ := detachReady_eq a u
      have he' := (Option.some.inj hdetach).trans hr
      subst he'
      have hfree : ¬Linked ((detach a (.ready (a.priority u)) u).setReadyList r).queue u :=
        h.not_linked_detach (h.mem_ready hready)
      rw [addNodeTail_eq hfree] at hf
      cases hf
      refine hrem.trans (.of_append hrem.queues (fun p hu => hfree ⟨_, hu⟩) (fun p'' => ?_)
        (fun _ => id) (h.pnode u (by rw [hready]; exact Status.noConfusion)) (fun v hv => ?_) rfl
        fun v _ hv => ?_)
      · have hp : ((((append ((detach a (.ready (a.priority u)) u).setReadyList r) (.ready p')
            u).osSetReady p').setTcb u fun b => { b with priority := p' }).setOrderVal u
              p').priority u = p' := by simp [Kernel.priority]
        rw [hp]
        by_cases hpp : p'' = p'
        · subst hpp
          simp [append, Kernel.osSetReady]
        · simp [append, Kernel.osSetReady, hpp]
      · simp [Kernel.priority, append, Kernel.osSetReady, hv]
      · rwa [Kernel.status_setOrderVal, Kernel.status, Kernel.field_setTcb Tcb.status rfl] at hv
    · next hready =>
      cases hd
      refine .of_queue h.readyOk (fun _ => rfl) (fun _ => id) (fun p'' v hv => ?_) rfl
        fun v _ hv => ?_
      · have hvu : v ≠ u := by
          rintro rfl
          exact hready (((h.placed v).ready p'').mp hv).1
        simp [Kernel.priority, hvu]
      · rwa [Kernel.status_setOrderVal, Kernel.status, Kernel.field_setTcb Tcb.status rfl] at hv

/-- `eos_suspend_task` (core/task.c:195-209) -/
theorem eosSuspendTask {task : Option T} {r : UInt32} (h : Consistent a)
    (ht : t ∈ a.queue.ring (.ready p)) (hb : a.eosSuspendTask task = some (r, b)) :
    Switched t p a b ∨
      t ∉ b.queue.ring (.ready p) ∧ b.vars.currentTask = a.vars.currentTask := by
  have hrefl : HoldsPlace t p a a := .refl h.readyOk
  cases task with
  | none =>
    cases hb
    exact .inl (hrefl.switched ht)
  | some u =>
    unfold Kernel.eosSuspendTask at hb
    simp only at hb
    split at hb
    · next hready =>
      obtain ⟨d, hd, hb⟩ := Option.bind_eq_some_iff.mp hb
      cases hb
      by_cases hut : u = t
      · subst hut
        have hdetach := removeReady_eq (h.mem_ready hready)
        rw [hd] at hdetach
        obtain ⟨r, hr⟩ := detachReady_eq a u
        have hd' := (Option.some.inj hdetach).trans hr
        subst hd'
        exact .inr ⟨fun hu => h.not_linked_detach (h.mem_ready hready) ⟨_, hu⟩, rfl⟩
      · have hrem : HoldsPlace t p a d := .removeReady h.readyOk hut hd
        exact .inl ((hrem.trans (.setStatus hrem.queues u Status.noConfusion)).switched ht)
    · cases hb
      exact .inl (hrefl.switched ht)

/-- `eos_resume_task` (core/task.c:212-226) -/
theorem eosResumeTask {task : Option T} {r : UInt32} (h : Consistent a)
    (ht : t ∈ a.queue.ring (.ready p)) (hb : a.eosResumeTask task = some (r, b)) :
    Switched t p a b := by
  have hrefl : HoldsPlace t p a a := .refl h.readyOk
  cases task with
  | none =>
    cases hb
    exact hrefl.switched ht
  | some u =>
    unfold Kernel.eosResumeTask at hb
    simp only at hb
    split at hb
    · next hsusp =>
      obtain ⟨d, hd, hb⟩ := Option.bind_eq_some_iff.mp hb
      obtain ⟨e, he, hb⟩ := Option.bind_eq_some_iff.mp hb
      cases hb
      have hadd : HoldsPlace t p a d :=
        .addReady h.readyOk (h.pnode u (by rw [hsusp]; exact Status.noConfusion)) hd
      exact (hadd.trans (.setStatus hadd.queues u Status.noConfusion)).eosSchedule ht he
    · cases hb
      exact hrefl.switched ht

/-- `_os_wakeup_from_queue` (core/task.c:300-316) -/
theorem osWakeupFromQueue {q : WaitQueue} (h : Consistent a) (ht : t ∈ a.queue.ring (.ready p))
    (hb : a.osWakeupFromQueue q = some b) : Switched t p a b := by
  unfold Kernel.osWakeupFromQueue at hb
  split at hb
  · cases hb
    exact (HoldsPlace.refl h.readyOk).switched ht
  · next node hnode =>
    obtain ⟨u, hu, hb⟩ := Option.bind_eq_some_iff.mp hb
    obtain ⟨d, hd, hb⟩ := Option.bind_eq_some_iff.mp hb
    obtain ⟨e, he, hb⟩ := Option.bind_eq_some_iff.mp hb
    obtain ⟨rest, hring⟩ := List.head?_eq_some_iff.mp
      (show (a.queue.ring (.wait q)).head? = some node from hnode)
    have hmem : node ∈ a.queue.ring (.wait q) := hring ▸ List.mem_cons_self
    have hpn : a.vars.pnode node = some node := by
      apply h.pnode node
      rw [((h.placed node).waiting q hmem).1]
      exact Status.noConfusion
    obtain rfl : node = u := Option.some.inj (hpn.symm.trans hu)
    have hne : node ≠ t := by
      rintro rfl
      exact QueueHead.noConfusion (h.eq_of_mem hmem ht)
    have hrem : HoldsPlace t p a d := .removeNode h.readyOk hne hd
    have hpnd : d.vars.pnode node = some node := by
      rw [removeNode_eq hmem] at hd
      cases hd
      exact hpn
    have hadd : HoldsPlace t p d e := .addReady hrem.queues hpnd he
    exact ((hrem.trans hadd).trans (.setStatus hadd.queues node Status.noConfusion)).eosSchedule
      ht hb

/-- `eos_release_semaphore` (core/sync.c:78-94) -/
theorem eosReleaseSemaphore {s : Nat} (h : Consistent a) (ht : t ∈ a.queue.ring (.ready p))
    (hb : a.eosReleaseSemaphore s = some b) : Switched t p a b := by
  have hcount : HoldsPlace t p a (a.setCount s (a.count s + 1)) := .setCount h.readyOk s _
  unfold Kernel.eosReleaseSemaphore at hb
  simp only at hb
  split at hb
  · cases hb
    exact hcount.switched ht
  · have hok : Consistent (a.setCount s (a.count s + 1)) := h.congr rfl rfl rfl rfl rfl
    cases osWakeupFromQueue hok ht hb with
    | stays hok' hlinks hmem hahead => exact .stays hok' hlinks hmem hahead
    | dispatched hcur hfree => exact .dispatched hcur hfree

end Switched

/-- `_os_wakeup_from_alarm_queue` for another task (core/task.c:325-340) -/
theorem HoldsPlace.osWakeupFromAlarmQueue (h : ReadyOk a) (hne : u ≠ t)
    (hn : a.vars.pnode u = some u) (hb : a.osWakeupFromAlarmQueue (some u) = some b) :
    HoldsPlace t p a b := by
  obtain ⟨d, hd, hb⟩ := Option.bind_eq_some_iff.mp hb
  obtain ⟨e, he, hb⟩ := Option.bind_eq_some_iff.mp hb
  cases hb
  have hleave : HoldsPlace t p a d := by
    unfold Kernel.leaveWaitQueue at hd
    split at hd
    · obtain ⟨f, hf, hd⟩ := Option.bind_eq_some_iff.mp hd
      cases hd
      have hrem : HoldsPlace t p a f := .removeNode h hne hf
      exact hrem.trans (.setOwner hrem.queues u none)
    · cases hd
      exact .refl h
  have hadd : HoldsPlace t p d e := .addReady hleave.queues (hleave.links u hn) he
  exact (hleave.trans hadd).trans (.setStatus hadd.queues u Status.noConfusion)

section Alarms

variable [Fintype T]

/-- **The alarms of a tick**, if that of task `t` is not among them (core/timer.c:67-90) -/
theorem HoldsPlace.triggerAlarms (h : Consistent a) (ht : ¬Pending a.timers t)
    (hb : a.triggerAlarms = some b) : HoldsPlace t p a b := by
  let I (s : Kernel Rings T) : Prop := HoldsPlace t p a s ∧ AlarmsOk s.timers ∧
    (∀ u, Pending s.timers u → Pending a.timers u)
  have hround : ∀ s s₁ s' alarm queue handler, I s →
      expiredAlarm s.timers systemTimer = some alarm →
      NodeLists.osRemoveNode s.timers.alarmQueue systemTimer alarm = some queue →
      s₁ = s.setTimers { s.timers with alarmQueue := queue } →
      s₁.timers.fields.handler alarm = some handler →
      s₁.callHandler handler (s₁.timers.fields.arg alarm) = some s' → I s' := by
    rintro s _ s' alarm queue handler ⟨hs, hal, hpend⟩ he hq rfl hh hs'
    have hp := pending_of_expired hal he
    have hne : alarm ≠ t := fun e => ht (hpend t (e ▸ hp))
    rw [hal.osRemoveNode_eq] at hq
    cases hq
    obtain rfl : Handler.osWakeupFromAlarmQueue = handler :=
      Option.some.inj ((hal.handler alarm hp).symm.trans hh)
    have hcall : (popped s alarm).osWakeupFromAlarmQueue (some alarm) = some s' := by
      rw [← hs', ← hal.arg alarm hp]
      rfl
    have hpop : HoldsPlace t p s (popped s alarm) := .setTimers hs.queues _
    have hlink : (popped s alarm).vars.pnode alarm = some alarm :=
      hs.links alarm (h.pnode alarm ((h.placed alarm).created (hpend alarm hp)))
    have hwake : HoldsPlace t p (popped s alarm) s' :=
      .osWakeupFromAlarmQueue hpop.queues hne hlink hcall
    have htimers : s'.timers = (popped s alarm).timers :=
      (osWakeupFromAlarmQueue_timeless (some alarm)).timers _ _ hcall
    refine ⟨(hs.trans hpop).trans hwake, ?_, fun u hu => ?_⟩
    · rw [htimers]
      exact hal.dropAlarm_ok
    · rw [htimers] at hu
      exact hpend u (hal.pending_dropAlarm.mp hu).1
  have hstart : I (a.setTimers (incrementTick a.timers systemTimer)) :=
    ⟨.setTimers h.readyOk _, h.alarms.incrementTick_ok, fun _ => id⟩
  exact (triggerLoop_invariant hround hstart hb).1.1

/-- A task sets its alarm. -/
theorem HoldsPlace.setAlarm {timeout : UInt32} {entry : Option Handler} {arg : Option T}
    (h : ReadyOk a) (hb : a.setAlarm u timeout entry arg = some b) : HoldsPlace t p a b := by
  obtain ⟨m, -, hb⟩ := Option.bind_eq_some_iff.mp hb
  cases hb
  exact .setTimers h m

end Alarms

namespace Switched

variable [Fintype T]

/-- A tick (core/timer.c:60-92) -/
theorem eosTriggerCounter (h : Consistent a) (ht : t ∈ a.queue.ring (.ready p))
    (hp : ¬Pending a.timers t) (hb : a.eosTriggerCounter = some b) : Switched t p a b := by
  obtain ⟨d, hd, hb⟩ := Option.bind_eq_some_iff.mp hb
  exact (HoldsPlace.triggerAlarms h hp hd).eosSchedule ht hb

/-- Another task goes to sleep, and the processor is given away. -/
theorem sleepFor {timeout : UInt32} (h : HoldsPlace t p a m) (ht : t ∈ a.queue.ring (.ready p))
    (hb : m.sleepFor u timeout = some b) : Switched t p a b := by
  obtain ⟨d, hd, hb⟩ := Option.bind_eq_some_iff.mp hb
  have hset : HoldsPlace t p m d := .setAlarm h.queues hd
  exact ((h.trans hset).trans (.setStatus hset.queues u Status.noConfusion)).eosSchedule ht hb

/-- `eos_sleep` (core/task.c:229-256) -/
theorem eosSleep {tick : UInt32} (h : Consistent a) (ht : t ∈ a.queue.ring (.ready p))
    (hb : a.eosSleep tick = some b) : Switched t p a b := by
  have hrefl : HoldsPlace t p a a := .refl h.readyOk
  unfold Kernel.eosSleep at hb
  split at hb
  · cases hb
    exact hrefl.switched ht
  · obtain ⟨u, -, hb⟩ := Option.bind_eq_some_iff.mp hb
    have htcb : HoldsPlace t p a
        (a.setTcb u fun b => { b with wakeupTime := b.wakeupTime + b.period }) := by
      refine .of_queue h.readyOk (fun _ => rfl) (fun _ => id) (fun _ v _ => ?_) rfl fun v _ hv => ?_
      · exact Kernel.field_setTcb Tcb.priority rfl v
      · rwa [Kernel.status, Kernel.field_setTcb Tcb.status rfl] at hv
    simp only at hb
    split at hb
    · split at hb
      · cases hb
        exact htcb.switched ht
      · exact sleepFor htcb ht hb
    · exact sleepFor hrefl ht hb

/-- `_os_wait_in_queue` (core/task.c:273-297) -/
theorem osWaitInQueue {q : WaitQueue} {queueType : UInt8} (h : HoldsPlace t p a m)
    (ht : t ∈ a.queue.ring (.ready p)) (hb : m.osWaitInQueue q queueType = some b) :
    Switched t p a b := by
  obtain ⟨c, -, hb⟩ := Option.bind_eq_some_iff.mp hb
  obtain ⟨d, hd, hb⟩ := Option.bind_eq_some_iff.mp hb
  have hadd : HoldsPlace t p m d := by
    unfold Kernel.addWaiter at hd
    split at hd
    · obtain ⟨r, hr, hd⟩ := Option.bind_eq_some_iff.mp hd
      cases hd
      change Rings.addTail _ _ _ = some r at hr
      unfold Rings.addTail at hr
      split at hr
      · cases hr
      · cases hr
        exact .of_queue h.queues (fun p => by simp) (fun _ => id) (fun _ _ _ => rfl) rfl
          fun _ _ => id
    · obtain ⟨r, hr, hd⟩ := Option.bind_eq_some_iff.mp hd
      cases hd
      change Rings.addOrdered _ _ _ _ = some r at hr
      unfold Rings.addOrdered at hr
      split at hr
      · cases hr
      · cases hr
        exact .of_queue h.queues (fun p => by simp) (fun _ => id) (fun _ _ _ => rfl) rfl
          fun _ _ => id
  have howner : HoldsPlace t p d (d.setOwner c (some q)) := .setOwner hadd.queues c _
  exact (((h.trans hadd).trans howner).trans
    (.setStatus howner.queues c Status.noConfusion)).eosSchedule ht hb

/-- `eos_acquire_semaphore` (core/sync.c:25-75) -/
theorem eosAcquireSemaphore {s : Nat} {timeout : Int32} {r : CallResult} (h : HoldsPlace t p a m)
    (ht : t ∈ a.queue.ring (.ready p)) (hb : m.eosAcquireSemaphore s timeout = some (r, b)) :
    Switched t p a b := by
  unfold Kernel.eosAcquireSemaphore at hb
  split at hb
  · cases hb
    exact h.switched ht
  simp only at hb
  split at hb
  · split at hb
    · cases hb
      exact h.switched ht
    · obtain ⟨c, -, hb⟩ := Option.bind_eq_some_iff.mp hb
      obtain ⟨d, hd, hb⟩ := Option.bind_eq_some_iff.mp hb
      obtain ⟨e, he, hb⟩ := Option.bind_eq_some_iff.mp hb
      cases hb
      exact osWaitInQueue (h.trans (.setAlarm h.queues hd)) ht he
  · cases hb
    exact (h.trans (.setCount h.queues s _)).switched ht

/-- `eos_acquire_semaphore` behind `_os_wait_in_queue` (core/sync.c:58-75) -/
theorem acquireRetry {s : Nat} {timeout : Int32} {absTimeout : UInt32} {r : CallResult}
    (h : HoldsPlace t p a m) (ht : t ∈ a.queue.ring (.ready p))
    (hb : m.acquireRetry s timeout absTimeout = some (r, b)) : Switched t p a b := by
  unfold Kernel.acquireRetry at hb
  split at hb
  · cases hb
    exact h.switched ht
  split at hb
  · obtain ⟨d, hd, hb⟩ := Option.bind_eq_some_iff.mp hb
    cases hb
    exact osWaitInQueue h ht hd
  · obtain ⟨c, -, hb⟩ := Option.bind_eq_some_iff.mp hb
    obtain ⟨d, hd, hb⟩ := Option.bind_eq_some_iff.mp hb
    cases hb
    have hset : HoldsPlace t p m d := .setAlarm h.queues hd
    exact ((h.trans hset).trans (.setCount hset.queues s _)).switched ht

/-- `eos_wait_condition` behind `eos_release_semaphore` (core/sync.c:121-126) -/
theorem waitCondition {n k : Nat} {r : CallResult} (h : HoldsPlace t p a m)
    (hne : a.vars.currentTask ≠ some t) (ht : t ∈ a.queue.ring (.ready p))
    (hb : m.waitCondition n k = some (r, b)) : Switched t p a b := by
  obtain ⟨d, hd, hb⟩ := Option.bind_eq_some_iff.mp hb
  have hwait : Switched t p a d := osWaitInQueue h ht hd
  split at hb
  · next hcur =>
    exact eosAcquireSemaphore (hwait.holdsPlace (hcur.trans h.current) hne) ht hb
  · cases hb
    exact hwait

/-- `eos_wait_condition` (core/sync.c:113-126) -/
theorem eosWaitCondition {n k : Nat} {r : CallResult} (h : Consistent a)
    (hne : a.vars.currentTask ≠ some t) (ht : t ∈ a.queue.ring (.ready p))
    (hb : a.eosWaitCondition n k = some (r, b)) : Switched t p a b := by
  obtain ⟨d, hd, hb⟩ := Option.bind_eq_some_iff.mp hb
  have hrelease : Switched t p a d := eosReleaseSemaphore h ht hd
  split at hb
  · next hcur => exact waitCondition (hrelease.holdsPlace hcur hne) hne ht hb
  · cases hb
    exact hrelease

/-- A call goes on. -/
theorem goOn {resume : Resume} {r : CallResult} (h : Consistent a)
    (hne : a.vars.currentTask ≠ some t) (ht : t ∈ a.queue.ring (.ready p))
    (hb : a.goOn resume = some (r, b)) : Switched t p a b := by
  have hrefl : HoldsPlace t p a a := .refl h.readyOk
  cases resume with
  | user => cases hb
  | acquire s timeout absTimeout => exact acquireRetry hrefl ht hb
  | released n k => exact waitCondition hrefl hne ht hb
  | notified k => exact eosAcquireSemaphore hrefl ht hb

end Switched

end Operations

end Eos.Analysis
