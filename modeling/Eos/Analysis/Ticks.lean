import Eos.Analysis.Moves

/-!
# The alarms of a tick

`_os_wakeup_from_alarm_queue` (core/task.c:325-340) is called for a task whose alarm has
just left the alarm queue.  For a task that is not `READY` it has one effect: the task
leaves the wait queue it is linked in, if any, and becomes ready.  For a task that is
already `READY` it removes the node through the head cell of the wait queue the task was
in before, which goes well exactly if the task is not the first one of its ready queue.

The loop of `eos_trigger_counter` (core/timer.c:75-88) ends, since every call is for an
alarm that has left the queue; `triggerLoop_total` carries an invariant through it.
-/

set_option autoImplicit false

namespace Eos.Analysis

open Eos.Model
open Eos.Interface (Rings Linked)

variable {T : Type} [DecidableEq T] {a b : Kernel Rings T} {t u : T}

/-! ## The handler -/

/-- In state `d` task `t` has left every queue of `a`; nothing else has changed but its
`wait_queue_owner`. -/
structure Left (a d : Kernel Rings T) (t : T) : Prop where
  detached : Detached d t
  others : ∀ u ≠ t, d.vars.tcb u = a.vars.tcb u
  ring : ∀ h, d.queue.ring h = (a.queue.ring h).erase t
  timers : d.timers = a.timers
  pnode : d.vars.pnode = a.vars.pnode
  priority : ∀ u, d.priority u = a.priority u
  currentTask : d.vars.currentTask = a.vars.currentTask
  lock : d.vars.schedulerLock = a.vars.schedulerLock
  semaphore : d.vars.semaphore = a.vars.semaphore
  condition : d.vars.condition = a.vars.condition

/-- The first part of the handler, for a task that is not ready. -/
theorem leaveWaitQueue_left (h : Consistent a) (hs : a.status t ≠ .ready)
    (hz : a.status t ≠ .zeroed) : ∃ d, a.leaveWaitQueue t = some d ∧ Left a d t := by
  have hpn := h.pnode t hz
  have herase : ∀ h, t ∉ a.queue.ring h → a.queue.ring h = (a.queue.ring h).erase t :=
    fun h ht => (List.erase_of_not_mem ht).symm
  have hfree : (∀ q, a.waitQueueOwner t = some q → t ∉ a.queue.ring (.wait q)) →
      ¬Linked a.queue t := by
    rintro hn ⟨hd | hd, hc⟩
    · exact hs (((h.placed t).ready _).mp hc).1
    · exact hn _ ((h.placed t).waiting _ hc).2 hc
  unfold Kernel.leaveWaitQueue
  cases ho : a.waitQueueOwner t with
  | none =>
    have hf := hfree fun q hq => by rw [ho] at hq; cases hq
    exact ⟨a, rfl, h.detached hf, fun u _ => rfl, fun h => herase h fun hc => hf ⟨h, hc⟩, rfl, rfl,
      fun _ => rfl, rfl, rfl, rfl, rfl⟩
  | some owner =>
    by_cases ht : t ∈ a.queue.ring (.wait owner)
    · have hd := (h.detach_wait ht).setTcb (fun b => { b with waitQueueOwner := none })
        (h.priority t) fun _ => hpn
      refine ⟨(detach a (.wait owner) t).setOwner t none, by simp only [removeNode_eq ht]; rfl,
        hd, fun u hu => by simp [detach, hu], fun h' => ?_, rfl, rfl,
        fun u => Kernel.priority_setOwner (detach a (.wait owner) t) t u none, rfl, rfl, rfl, rfl⟩
      by_cases hh : h' = .wait owner
      · subst hh; simp [detach]
      · have hn : t ∉ a.queue.ring h' := fun hc => hh (h.eq_of_mem hc ht)
        simpa [detach, hh] using herase h' hn
    · have hf := hfree fun q hq => by
        rw [ho, Option.some.injEq] at hq
        exact hq ▸ ht
      have hd := (h.detached hf).setTcb (fun b => { b with waitQueueOwner := none })
        (h.priority t) fun _ => hpn
      exact ⟨a.setOwner t none, by simp only [removeNode_free hf]; rfl, hd,
        fun u hu => by simp [hu], fun h => herase h fun hc => hf ⟨h, hc⟩, rfl, rfl,
        fun u => Kernel.priority_setOwner a t u none, rfl, rfl, rfl, rfl⟩

/-- **The handler for a task that is not ready** takes it out of its wait queue and makes it
ready. -/
theorem wakeup_moved (h : Consistent a) (hs : a.status t ≠ .ready) (hz : a.status t ≠ .zeroed)
    (hp : ¬Pending a.timers t) :
    ∃ b, a.osWakeupFromAlarmQueue (some t) = some b ∧ Moved a b t ∧ b.status t = .ready ∧
      b.timers = a.timers ∧ ∀ h, b.queue.ring h =
        if h = .ready (a.priority t) then a.queue.ring h ++ [t] else (a.queue.ring h).erase t := by
  obtain ⟨d, hd, hl⟩ := leaveWaitQueue_left h hs hz
  have hb := hl.detached.attach_ready (hl.pnode ▸ h.pnode t hz) fun hp' =>
    absurd (hl.timers ▸ hp') hp
  have hring : ∀ h', ((attachReady d t).setStatus t .ready).queue.ring h' =
      if h' = .ready (a.priority t) then a.queue.ring h' ++ [t] else (a.queue.ring h').erase t := by
    intro h'
    have hn : t ∉ a.queue.ring (.ready (a.priority t)) := fun hc =>
      hs (((h.placed t).ready _).mp hc).1
    by_cases hh : h' = .ready (a.priority t)
    · subst hh
      simp [attachReady, append, Kernel.osSetReady, hl.priority, hl.ring, List.erase_of_not_mem hn]
    · simp [attachReady, append, Kernel.osSetReady, hl.priority, hh, hl.ring]
  refine ⟨_, ?_, ⟨hb, fun u hu => ?_, fun u hu q => ?_, fun u _ hp' => hl.timers ▸ hp',
    hl.currentTask, hl.lock, hl.semaphore, hl.condition⟩, by simp, hl.timers, hring⟩
  · simp only [Kernel.osWakeupFromAlarmQueue, Option.bind_eq_bind, Option.bind_some, hd,
      addReady_eq hl.detached.free]
    rfl
  · simpa [attachReady, append, Kernel.osSetReady, hu] using hl.others u hu
  · rw [hring, if_neg (by simp), List.mem_erase_of_ne hu]

/-- Removing a ready task through the head cell of a wait queue takes it out of its ready
queue, if it is not the first one there. -/
theorem removeNode_foreign (h : Consistent a) (hs : a.status t = .ready)
    (hfst : (a.queue.ring (.ready (a.priority t))).head? ≠ some t) (q : WaitQueue) :
    a.removeNode (.wait q) t = some (detach a (.ready (a.priority t)) t) := by
  have hmem := h.mem_ready hs
  have hn : t ∉ a.queue.ring (.wait q) := fun hc => by
    have := ((h.placed t).waiting _ hc).1
    rw [hs] at this
    cases this
  have hl : Linked a.queue t := ⟨_, hmem⟩
  have hch : hl.choose = .ready (a.priority t) := h.eq_of_mem hl.choose_spec hmem
  have : NodeLists.osRemoveNode a.queue (.wait q) t =
      some (a.queue.set (.ready (a.priority t))
        ((a.queue.ring (.ready (a.priority t))).erase t)) := by
    show Rings.remove _ _ _ = _
    rw [Rings.remove, if_neg hn, dif_pos hl, hch, if_neg hfst]
  simp only [Kernel.removeNode, this]
  rfl

/-- **The handler for a task that is ready, but not the first of its ready queue**, moves it to
the end of this queue. -/
theorem wakeup_ready_moved (h : Consistent a) (hs : a.status t = .ready)
    (ho : a.waitQueueOwner t ≠ none) (hp : ¬Pending a.timers t)
    (hfst : (a.queue.ring (.ready (a.priority t))).head? ≠ some t) :
    ∃ b, a.osWakeupFromAlarmQueue (some t) = some b ∧ Moved a b t ∧ b.status t = .ready ∧
      b.timers = a.timers ∧ (∀ u, b.priority u = a.priority u) ∧
      b.queue.ring = Function.update a.queue.ring (.ready (a.priority t))
        ((a.queue.ring (.ready (a.priority t))).erase t ++ [t]) := by
  obtain ⟨q, hq⟩ := Option.ne_none_iff_exists'.mp ho
  have hmem := h.mem_ready hs
  have hpn := h.pnode t (by simp [hs])
  have hrest : (a.queue.ring (.ready (a.priority t))).erase t ≠ [] := by
    obtain ⟨x, xs, hxs⟩ := List.exists_cons_of_ne_nil (List.ne_nil_of_mem hmem)
    rw [hxs] at hfst hmem ⊢
    have hxt : x ≠ t := fun e => hfst (by simp [e])
    simp [hxt]
  have hd : Detached (detach a (.ready (a.priority t)) t) t :=
    { nodup := h.nodup_detach _
      bitmap := h.bitmap.congr fun p _ => by
        by_cases hpp : p = a.priority t
        · subst hpp
          simp [detach, hrest, List.ne_nil_of_mem hmem]
        · simp [detach, hpp]
      alarms := h.alarms
      priority := h.priority
      pnode := h.pnode
      free := h.not_linked_detach hmem
      placed := fun u hu => (h.placed u).congr (fun _ => h.mem_detach hu) rfl rfl rfl id }
  have hd' := hd.setTcb (fun b => { b with waitQueueOwner := none }) (h.priority t) fun _ => hpn
  have hb := hd'.attach_ready hpn fun hc => absurd hc hp
  refine ⟨_, ?_, ⟨hb, ?_, ?_, fun _ _ => id, rfl, rfl, rfl, rfl⟩, by simp, rfl, ?_, ?_⟩
  · simp only [Kernel.osWakeupFromAlarmQueue, Kernel.leaveWaitQueue, hq,
      removeNode_foreign h hs hfst, Option.bind_eq_bind, Option.bind_some, Kernel.setOwner,
      Option.pure_def, addReady_eq hd'.free]
  · intro u hu
    simp [attachReady, append, Kernel.osSetReady, detach, hu]
  · intro u hu q
    simp [attachReady, append, Kernel.osSetReady, detach]
  · intro u
    have : ((detach a (.ready (a.priority t)) t).setOwner t none).priority u = a.priority u :=
      Kernel.priority_setOwner _ _ _ _
    simpa [attachReady, append, Kernel.osSetReady, Kernel.setOwner] using this
  · have : ((detach a (.ready (a.priority t)) t).setOwner t none).priority t = a.priority t :=
      Kernel.priority_setOwner _ _ _ _
    simp only [Kernel.setOwner] at this
    simp only [attachReady, this]
    simp [append, Kernel.osSetReady, detach]

/-! ## The loop -/

/-- The body of the loop for one alarm: it leaves the queue and its handler is called. -/
noncomputable def fireAlarm (a : Kernel Rings T) (t : T) : Option (Kernel Rings T) :=
  (a.setTimers (dropAlarm a.timers t)).osWakeupFromAlarmQueue (some t)

/-- One more round of the loop. -/
theorem triggerLoop_succ (h : AlarmsOk a.timers) (fuel : Nat) :
    triggerLoop Kernel.timers Kernel.setTimers Kernel.callHandler systemTimer (fuel + 1) a =
      match expiredAlarm a.timers systemTimer with
      | none => some a
      | some t => fireAlarm a t >>=
        triggerLoop Kernel.timers Kernel.setTimers Kernel.callHandler systemTimer fuel := by
  rw [triggerLoop]
  cases he : expiredAlarm a.timers systemTimer with
  | none => rfl
  | some t =>
    obtain ⟨rest, hrest⟩ := h.expiredAlarm_eq_some he
    have hp : Pending a.timers t := ⟨systemTimer, by rw [hrest]; exact List.mem_cons_self⟩
    simp only [h.osRemoveNode_eq, Option.bind_eq_bind, Option.bind_some, Kernel.setTimers_timers,
      h.handler t hp, h.arg t hp]
    rfl

/-- **The loop rule.** If every call of a handler has a result, which keeps the invariant and
the remaining alarms, then the loop ends, with no alarm that is due, and keeps the invariant. -/
theorem triggerLoop_total {I : Kernel Rings T → Prop} (hok : ∀ a, I a → AlarmsOk a.timers)
    (hI : ∀ a t, I a → expiredAlarm a.timers systemTimer = some t →
      ∃ b, fireAlarm a t = some b ∧ I b ∧ b.timers = dropAlarm a.timers t)
    {fuel : Nat} (ha : I a) (hf : (a.timers.alarmQueue.ring systemTimer).length < fuel) :
    ∃ b, triggerLoop Kernel.timers Kernel.setTimers Kernel.callHandler systemTimer fuel a =
      some b ∧ I b ∧ expiredAlarm b.timers systemTimer = none := by
  induction fuel generalizing a with
  | zero => omega
  | succ fuel ih =>
    rw [triggerLoop_succ (hok a ha)]
    cases he : expiredAlarm a.timers systemTimer with
    | none => exact ⟨a, rfl, ha, he⟩
    | some t =>
      obtain ⟨rest, hrest⟩ := (hok a ha).expiredAlarm_eq_some he
      obtain ⟨b, hb, hIb, htb⟩ := hI a t ha he
      simp only [hb, Option.bind_eq_bind, Option.bind_some]
      refine ih hIb ?_
      rw [htb, dropAlarm, Rings.set_ring, Function.update_self, hrest, List.erase_cons_head]
      rw [hrest, List.length_cons] at hf
      omega

end Eos.Analysis
