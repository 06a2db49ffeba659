import Eos.Analysis.PriorityQueues

/-!
# FIFO wait queues: nobody overtakes a waiting task

`_os_wait_in_queue` puts a task at the end of a wait queue of type `FIFO`, and nothing else puts
tasks into it; the other parts of the kernel only take tasks out (`QueueMoves`).  So the tasks ahead
of a waiting one become fewer with every wake-up of its queue, and no task ever gets ahead of it
(`fifo_noOvertaking`), whatever priorities the tasks have or are given meanwhile, and whichever
of them give up on a timeout.
-/

set_option autoImplicit false

namespace Eos.Analysis

open Eos.Lib (LinkMem Reach runList)
open Eos.Model
open Eos.Interface (Rings Linked Repr)

/-! ## The property -/

section Property

variable {T : Type} [DecidableEq T] [Fintype T]

/-- The tasks of a wait queue, as its links have them. -/
def waitingIn (k : Kernel LinkMem T) (q : WaitQueue) : List T := k.queue.nodes (.wait q)

/-- The tasks that are before `t` in the queue. -/
def ahead (k : Kernel LinkMem T) (q : WaitQueue) (t : T) : List T :=
  (waitingIn k q).takeWhile fun u => u ≠ t

/-- A step, with the number of wake-ups of the queue so far. -/
def countedExec (q : WaitQueue) (s : System LinkMem T × Nat) (call : Call T) :
    Option (System LinkMem T × Nat) := do
  return (← s.1.exec call, s.2 + if callWakes call = some q then 1 else 0)

/-- Task `t` is in the queue before the step. -/
def StaysIn (idle : T) (q : WaitQueue) (t : T) (s : System LinkMem T × Nat) (call : Call T) :
    Prop :=
  Admissible idle s.1 call ∧ t ∈ waitingIn s.1.kernel q

instance (idle : T) (q : WaitQueue) (t : T) (s : System LinkMem T × Nat) (call : Call T) :
    Decidable (StaysIn idle q t s call) := inferInstanceAs (Decidable (_ ∧ _))

end Property

/-! ## Places in a sequence -/

section Places

variable {T : Type} [DecidableEq T] {t : T} {xs ys zs : List T}

/-- What is ahead of `t` in a sequence that has lost some elements and got others at its end was
ahead of it before. -/
theorem takeWhile_sublist (h : ys.Sublist (xs ++ zs)) (hxs : t ∈ xs) (hys : t ∈ ys)
    (hnd : xs.Nodup) (hzs : t ∉ zs) :
    (ys.takeWhile fun u => u ≠ t).Sublist (xs.takeWhile fun u => u ≠ t) := by
  have hsplit : ∀ ls rs : List T, t ∉ ls →
      (ls ++ t :: rs).takeWhile (fun u => u ≠ t) = ls := by
    intro ls rs hls
    rw [List.takeWhile_append_of_pos fun u hu => by simpa using fun e : u = t => hls (e ▸ hu)]
    simp
  obtain ⟨ls, rs, rfl⟩ := List.append_of_mem hxs
  have hls : t ∉ ls := fun hc =>
    (List.nodup_append.mp hnd).2.2 t hc t List.mem_cons_self rfl
  have hrs : t ∉ rs := (List.nodup_cons.mp (List.nodup_append.mp hnd).2.1).1
  rw [List.append_assoc, List.cons_append] at h
  obtain ⟨ls', rs', rfl, hl, hr⟩ := List.sublist_append_iff.mp h
  have hls' : t ∉ ls' := fun hc => hls (hl.subset hc)
  have ht : t ∈ rs' := (List.mem_append.mp hys).resolve_left hls'
  obtain hr | ⟨rs', rfl, hr⟩ := List.sublist_cons_iff.mp hr
  · exact absurd (List.mem_append.mp (hr.subset ht)) (not_or.mpr ⟨hrs, hzs⟩)
  · rw [hsplit ls rs hls, hsplit ls' rs' hls']
    exact hl

/-- Without the first element, one less is ahead. -/
theorem takeWhile_tail (h : t ∈ xs.tail) (hnd : xs.Nodup) :
    (xs.tail.takeWhile fun u => u ≠ t).Sublist (xs.takeWhile fun u => u ≠ t) ∧
      (xs.tail.takeWhile fun u => u ≠ t).length + 1 = (xs.takeWhile fun u => u ≠ t).length := by
  cases xs with
  | nil => cases h
  | cons x xs =>
    have hx : x ≠ t := fun e => (List.nodup_cons.mp hnd).1 (e ▸ h)
    rw [List.takeWhile_cons_of_pos (by simpa using hx)]
    exact ⟨List.sublist_cons_self _ _, rfl⟩

end Places

/-! ## What happens to the queues -/

section QueueMoves

variable {T : Type} [DecidableEq T] {a b d : Kernel Rings T} {idle c : T} {woken : Option WaitQueue}

/-- A sequence, without its first element if the queue is one a task is woken from. -/
def dequeued (woken : Option WaitQueue) (q : WaitQueue) (xs : List T) : List T :=
  if woken = some q then xs.tail else xs

/-- Task `c` may have been appended to a `FIFO` queue, and tasks have been taken out: the first one
of the queue `woken` is among them. -/
structure QueueMoves (c : T) (woken : Option WaitQueue) (a b : Kernel Rings T) : Prop where
  type : ∀ q, queueType b.vars q = queueType a.vars q
  wait : ∀ q, queueType a.vars q = 0 → ∃ zs, (b.queue.ring (.wait q)).Sublist
    (dequeued woken q (a.queue.ring (.wait q)) ++ zs) ∧ ∀ z ∈ zs, z = c

namespace QueueMoves

omit [DecidableEq T] in
/-- The queues have lost tasks only, the woken one among them. -/
theorem of_sublist (ht : ∀ q, queueType b.vars q = queueType a.vars q)
    (hw : ∀ q, (b.queue.ring (.wait q)).Sublist (dequeued woken q (a.queue.ring (.wait q)))) :
    QueueMoves c woken a b :=
  ⟨ht, fun q _ => ⟨[], by rw [List.append_nil]; exact hw q, fun _ hz => absurd hz List.not_mem_nil⟩⟩

omit [DecidableEq T] in
/-- Tasks have left the queues, and nothing else. -/
theorem of_thinned (h : Thinned a b) : QueueMoves c none a b :=
  of_sublist h.type fun q => by
    rw [dequeued, if_neg (Option.some_ne_none q).symm]
    exact h.wait q

omit [DecidableEq T] in
/-- Two steps, of which the second wakes nobody. -/
theorem trans (h : QueueMoves c woken a b) (h' : QueueMoves c none b d) :
    QueueMoves c woken a d where
  type q := (h'.type q).trans (h.type q)
  wait q hq := by
    obtain ⟨zs, hzs, hz⟩ := h.wait q hq
    obtain ⟨zs', hzs', hz'⟩ := h'.wait q ((h.type q).trans hq)
    rw [dequeued, if_neg (Option.some_ne_none q).symm] at hzs'
    refine ⟨zs ++ zs', ?_, fun z hmem => (List.mem_append.mp hmem).elim (hz z) (hz' z)⟩
    rw [← List.append_assoc]
    exact hzs'.trans (hzs.append (.refl zs'))

omit [DecidableEq T] in
/-- Other fields have changed first, from `a` to `b`. -/
theorem of_thinned_queue (h : Thinned b d) (hq : b.queue = a.queue)
    (hs : b.vars.semaphore = a.vars.semaphore) (hc : b.vars.condition = a.vars.condition) :
    QueueMoves c none a d := by
  have htype : ∀ q, queueType b.vars q = queueType a.vars q := by
    intro q
    cases q <;> simp only [queueType, hs, hc]
  refine of_sublist (fun q => (h.type q).trans (htype q)) fun q => ?_
  rw [dequeued, if_neg (Option.some_ne_none q).symm, ← hq]
  exact h.wait q

/-- `eos_create_task` (core/task.c:34-79) -/
theorem eosCreateTask {task : Option T} {start size entry : UInt64} {p : Nat} {r : UInt32}
    (hb : a.eosCreateTask task start size entry p = some (r, b)) : QueueMoves c none a b := by
  unfold Kernel.eosCreateTask at hb
  split at hb
  · cases hb
    exact .of_thinned (.refl a)
  · next t =>
    split at hb
    · cases hb
      exact .of_thinned (.refl a)
    split at hb
    · cases hb
      exact .of_thinned (.refl a)
    split at hb
    · cases hb
      exact .of_thinned (.refl a)
    · obtain ⟨e, he, hb⟩ := Option.bind_eq_some_iff.mp hb
      obtain ⟨f, hf, hb⟩ := Option.bind_eq_some_iff.mp hb
      cases hb
      have hth := ((Thinned.addReady he).trans (.setStatus e t _)).trans (.eosSchedule hf)
      exact of_thinned_queue hth rfl rfl rfl

/-- `eos_change_priority` (core/task.c:148-172) -/
theorem eosChangePriority {task : Option T} {p : Nat} (hb : a.eosChangePriority task p = some b) :
    QueueMoves c none a b := by
  cases task with
  | none =>
    cases hb
    exact .of_thinned (.refl a)
  | some t =>
    unfold Kernel.eosChangePriority at hb
    simp only at hb
    split at hb
    · cases hb
      exact .of_thinned (.refl a)
    · obtain ⟨d, hd, hb⟩ := Option.bind_eq_some_iff.mp hb
      have had : Thinned a d := by
        split at hd
        · obtain ⟨e, he, hd⟩ := Option.bind_eq_some_iff.mp hd
          obtain ⟨f, hf, hd⟩ := Option.bind_eq_some_iff.mp hd
          cases hd
          exact ((Thinned.removeReady he).trans (.addNodeTail hf)).trans
            (.of_vars rfl rfl (fun _ => rfl) rfl rfl)
        · cases hd
          exact .refl a
      exact (of_thinned had).trans (of_thinned_queue (.eosSchedule hb) rfl rfl rfl)

/-- **`_os_wakeup_from_queue`** takes the first task out of its queue (core/task.c:300-316). -/
theorem osWakeupFromQueue {q : WaitQueue} (h : Consistent a) (hb : a.osWakeupFromQueue q = some b) :
    QueueMoves c (some q) a b := by
  have hth := Thinned.osWakeupFromQueue hb
  refine of_sublist hth.type fun q' => ?_
  unfold dequeued
  split
  · next hqq =>
    obtain rfl := Option.some.inj hqq
    cases hring : a.queue.ring (.wait q) with
    | nil => simpa [hring] using hth.wait q
    | cons t rest =>
      have ht : t ∈ a.queue.ring (.wait q) := hring ▸ List.mem_cons_self
      have hhead : a.head (.wait q) = some t := by
        show (a.queue.ring _).head? = _
        rw [hring, List.head?_cons]
      have hpn : a.vars.pnode t = some t := by
        apply h.pnode t
        rw [((h.placed t).waiting q ht).1]
        exact Status.noConfusion
      simp only [Kernel.osWakeupFromQueue, hhead, hpn, Option.bind_eq_bind, Option.bind_some,
        removeNode_eq ht] at hb
      obtain ⟨e, he, hb⟩ := Option.bind_eq_some_iff.mp hb
      have hrest : (detach a (.wait q) t).queue.ring (.wait q) = rest := by
        simp [detach, hring]
      have hleft := ((Thinned.addReady he).trans (.setStatus e t _)).trans (.eosSchedule hb)
      rw [List.tail_cons, ← hrest]
      exact hleft.wait q
  · exact hth.wait q'

/-- `eos_release_semaphore` (core/sync.c:78-94) -/
theorem eosReleaseSemaphore {s : Nat} (h : Scheduled idle a)
    (hb : a.eosReleaseSemaphore s = some b) : QueueMoves c (some (.semaphore s)) a b := by
  have hcount := Thinned.setCount a s (a.count s + 1)
  unfold Kernel.eosReleaseSemaphore at hb
  simp only at hb
  split at hb
  · next hhead =>
    cases hb
    have hnil : a.queue.ring (.wait (.semaphore s)) = [] := List.head?_eq_none_iff.mp hhead
    refine of_sublist hcount.type fun q => ?_
    unfold dequeued
    split
    · next hq =>
      obtain rfl := Option.some.inj hq
      show (a.queue.ring _).Sublist _
      rw [hnil]
      exact .refl []
    · exact .refl _
  · have hwake := osWakeupFromQueue (c := c) (h.setCount s _).toConsistent hb
    exact ⟨fun q => (hwake.type q).trans (hcount.type q),
      fun q hq => hwake.wait q ((hcount.type q).trans hq)⟩

variable [Fintype T]

/-- **`_os_wait_in_queue`** appends the current task (core/task.c:273-297). -/
theorem osWaitInQueue {q : WaitQueue} (hc : a.vars.currentTask = some c)
    (hb : a.osWaitInQueue q (queueType a.vars q) = some b) : QueueMoves c none a b := by
  obtain ⟨t, ht, hb⟩ := Option.bind_eq_some_iff.mp hb
  obtain rfl : c = t := Option.some.inj (hc.symm.trans ht)
  obtain ⟨d, hd, hb⟩ := Option.bind_eq_some_iff.mp hb
  have hadd : QueueMoves c none a d := by
    unfold Kernel.addWaiter at hd
    split at hd
    · obtain ⟨r, hr, hd⟩ := Option.bind_eq_some_iff.mp hd
      cases hd
      change Rings.addTail _ _ _ = some r at hr
      unfold Rings.addTail at hr
      split at hr
      · cases hr
      · cases hr
        refine ⟨fun _ => rfl, fun q' _ => ⟨[c], ?_, fun z hz => List.mem_singleton.mp hz⟩⟩
        rw [dequeued, if_neg (Option.some_ne_none q').symm]
        by_cases hqq : q' = q
        · subst hqq
          simp
        · simp [hqq]
    · next htype =>
      obtain ⟨r, hr, hd⟩ := Option.bind_eq_some_iff.mp hd
      cases hd
      change Rings.addOrdered _ _ _ _ = some r at hr
      unfold Rings.addOrdered at hr
      split at hr
      · cases hr
      · cases hr
        refine ⟨fun _ => rfl, fun q' hq' => ⟨[], ?_, fun z hz => absurd hz List.not_mem_nil⟩⟩
        have hqq : q' ≠ q := fun e => htype (e ▸ hq')
        simp [dequeued, hqq]
  apply hadd.trans
  apply of_thinned
  exact ((Thinned.setOwner d c (some q)).trans (.setStatus _ c .waiting)).trans (.eosSchedule hb)

/-- `eos_acquire_semaphore` (core/sync.c:25-75) -/
theorem eosAcquireSemaphore {s : Nat} {timeout : Int32} {r : CallResult}
    (hc : a.vars.currentTask = some c) (hb : a.eosAcquireSemaphore s timeout = some (r, b)) :
    QueueMoves c none a b := by
  unfold Kernel.eosAcquireSemaphore at hb
  split at hb
  · cases hb
    exact .of_thinned (.refl a)
  simp only at hb
  split at hb
  · split at hb
    · cases hb
      exact .of_thinned (.refl a)
    · obtain ⟨t, -, hb⟩ := Option.bind_eq_some_iff.mp hb
      obtain ⟨d, hd, hb⟩ := Option.bind_eq_some_iff.mp hb
      obtain ⟨e, he, hb⟩ := Option.bind_eq_some_iff.mp hb
      cases hb
      have hcd : d.vars.currentTask = some c := by
        obtain ⟨m, -, hd⟩ := Option.bind_eq_some_iff.mp hd
        cases hd
        exact hc
      exact (of_thinned (.setAlarm hd)).trans (osWaitInQueue hcd he)
  · cases hb
    exact .of_thinned (.setCount a s _)

/-- `eos_acquire_semaphore` behind `_os_wait_in_queue` (core/sync.c:58-75) -/
theorem acquireRetry {s : Nat} {timeout : Int32} {absTimeout : UInt32} {r : CallResult}
    (hc : a.vars.currentTask = some c)
    (hb : a.acquireRetry s timeout absTimeout = some (r, b)) : QueueMoves c none a b := by
  unfold Kernel.acquireRetry at hb
  split at hb
  · cases hb
    exact .of_thinned (.refl a)
  split at hb
  · obtain ⟨d, hd, hb⟩ := Option.bind_eq_some_iff.mp hb
    cases hb
    exact osWaitInQueue hc hd
  · obtain ⟨t, -, hb⟩ := Option.bind_eq_some_iff.mp hb
    obtain ⟨d, hd, hb⟩ := Option.bind_eq_some_iff.mp hb
    cases hb
    exact of_thinned ((Thinned.setAlarm hd).trans (.setCount d s _))

/-- `eos_wait_condition` behind `eos_release_semaphore` (core/sync.c:121-126) -/
theorem waitCondition {n m : Nat} {r : CallResult} (hc : a.vars.currentTask = some c)
    (hb : a.waitCondition n m = some (r, b)) : QueueMoves c none a b := by
  obtain ⟨d, hd, hb⟩ := Option.bind_eq_some_iff.mp hb
  have hqueued := osWaitInQueue (q := .condition n) hc hd
  split at hb
  · next hcur => exact hqueued.trans (eosAcquireSemaphore (hcur.trans hc) hb)
  · cases hb
    exact hqueued

/-- `eos_wait_condition` (core/sync.c:113-126) -/
theorem eosWaitCondition {n m : Nat} {r : CallResult} (h : Scheduled idle a)
    (hc : a.vars.currentTask = some c) (hb : a.eosWaitCondition n m = some (r, b)) :
    QueueMoves c (some (.semaphore m)) a b := by
  obtain ⟨d, hd, hb⟩ := Option.bind_eq_some_iff.mp hb
  have hqueued := eosReleaseSemaphore (c := c) h hd
  split at hb
  · next hcur => exact hqueued.trans (waitCondition (hcur.trans hc) hb)
  · cases hb
    exact hqueued

/-- A call goes on. -/
theorem goOn {resume : Resume} {r : CallResult} (hc : a.vars.currentTask = some c)
    (hb : a.goOn resume = some (r, b)) : QueueMoves c none a b := by
  cases resume with
  | user => cases hb
  | acquire s timeout absTimeout => exact acquireRetry hc hb
  | released n m => exact waitCondition hc hb
  | notified m => exact eosAcquireSemaphore hc hb

end QueueMoves

end QueueMoves

/-! ## Runs -/

section Runs

variable {T : Type} [DecidableEq T] [Fintype T] {idle c t : T} {q : WaitQueue} {n : Nat}
  {s₀ s s' : System LinkMem T} {x x' : System Rings T}

/-- **Every step** only appends the current task, and takes a task from the queue it wakes one
from. -/
theorem call_queued (h : SystemOk idle s x) {call : Call T} (hadm : Admissible idle s call)
    (hc : x.kernel.vars.currentTask = some c) (hx' : x.exec call = some x') :
    QueueMoves c (callWakes call) x.kernel x'.kernel := by
  cases System.exec_effect hx' with
  | @kernel o b hb =>
    obtain ⟨-, hcall, -, -⟩ := hadm
    cases o with
    | createTask task start size entry p =>
      obtain ⟨⟨r, b'⟩, hb', hb⟩ := Option.map_eq_some_iff.mp hb
      obtain rfl : b' = b := hb
      exact .eosCreateTask hb'
    | changePriority task p => exact .eosChangePriority hb
    | schedule => exact .of_thinned (.eosSchedule hb)
    | setPeriod t p =>
      cases hb
      exact .of_thinned (.of_vars rfl rfl (Kernel.field_setTcb Tcb.priority rfl) rfl rfl)
    | suspendTask task =>
      obtain ⟨⟨r, b'⟩, hb', hb⟩ := Option.map_eq_some_iff.mp hb
      obtain rfl : b' = b := hb
      exact .of_thinned (.eosSuspendTask hb')
    | resumeTask task =>
      obtain ⟨⟨r, b'⟩, hb', hb⟩ := Option.map_eq_some_iff.mp hb
      obtain rfl : b' = b := hb
      exact .of_thinned (.eosResumeTask hb')
    | sleep tick => exact .of_thinned (.eosSleep hb)
    | tick => exact .of_thinned (.eosTriggerCounter hb)
    | lockScheduler | restoreScheduler _ | waitInQueue _ _ | wakeupFromQueue _ | start =>
      cases hcall
  | release hb => exact .eosReleaseSemaphore h.scheduled hb
  | notify hb => exact .osWakeupFromQueue h.scheduled.toConsistent hb
  | @part call caller r b hcaller hb =>
    rw [System.leave_kernel]
    cases call with
    | acquire sem timeout => exact .eosAcquireSemaphore hc hb
    | waitCondition n m => exact .eosWaitCondition h.scheduled hc hb
    | goOn => exact .goOn hc hb
    | kernel | release | notifyCondition => cases hb

omit [DecidableEq T] in
/-- The links of a wait queue have the tasks of its sequence. -/
theorem waitingIn_eq [DecidableEq T] (h : SystemOk idle s x) (q : WaitQueue) :
    waitingIn s.kernel q = x.kernel.queue.ring (.wait q) :=
  (h.kernel.queue.ringAt (.wait q)).nodes_eq

/-- **A step** with a task in a `FIFO` queue before and after it: nobody gets ahead of the task,
and one who was ahead is gone if a task was woken from the queue. -/
theorem ahead_step (h : SystemOk idle s x) (hq : queueType s.kernel.vars q = 0) {call : Call T}
    (hadm : Admissible idle s call) (hs' : s.exec call = some s') :
    queueType s'.kernel.vars q = 0 ∧ (∃ x', SystemOk idle s' x') ∧
      (t ∈ waitingIn s.kernel q → t ∈ waitingIn s'.kernel q →
        (ahead s'.kernel q t).Sublist (ahead s.kernel q t) ∧
        (ahead s'.kernel q t).length + (if callWakes call = some q then 1 else 0) ≤
          (ahead s.kernel q t).length) := by
  obtain ⟨x', hx', hok, -⟩ := call_simulates h hadm hs'
  have hl : x.kernel.vars.schedulerLock ≠ locked := by
    rw [← h.kernel.vars, hadm.1]
    decide
  obtain ⟨c, hc, -⟩ := h.scheduled.started hl
  obtain ⟨-, hfree⟩ := h.scheduled.caller hl hc
  have hqueued := call_queued h hadm hc hx'
  rw [h.kernel.vars] at hq
  rw [ahead, ahead, waitingIn_eq h, waitingIn_eq hok, hok.kernel.vars, hqueued.type]
  refine ⟨hq, ⟨x', hok⟩, fun ht ht' => ?_⟩
  have hnd := h.scheduled.nodup (.wait q)
  obtain ⟨zs, hsub, hzs⟩ := hqueued.wait q hq
  -- the task that is appended is the current one, which was in no queue
  have htz : t ∉ zs := fun hmem => hfree ⟨_, hzs t hmem ▸ ht⟩
  by_cases hw : callWakes call = some q
  · rw [dequeued, if_pos hw] at hsub
    have htail : t ∈ (x.kernel.queue.ring (.wait q)).tail :=
      (List.mem_append.mp (hsub.subset ht')).resolve_right htz
    obtain ⟨hle, hlen⟩ := takeWhile_tail htail hnd
    have hplace := takeWhile_sublist hsub htail ht' (hnd.sublist (List.tail_sublist _)) htz
    have hshort := hplace.length_le
    rw [if_pos hw]
    exact ⟨hplace.trans hle, by omega⟩
  · rw [dequeued, if_neg hw] at hsub
    have hplace := takeWhile_sublist hsub ht ht' hnd htz
    rw [if_neg hw]
    exact ⟨hplace, hplace.length_le⟩

omit [Fintype T] in
/-- A task that nobody is ahead of is the first one. -/
theorem eq_cons_of_takeWhile {xs : List T} (h : t ∈ xs)
    (hnil : (xs.takeWhile fun u => u ≠ t) = []) : ∃ rest, xs = t :: rest := by
  cases xs with
  | nil => cases h
  | cons y xs =>
    by_cases hy : y = t
    · exact ⟨xs, by rw [hy]⟩
    · rw [List.takeWhile_cons_of_pos (by simpa using hy)] at hnil
      cases hnil

/-- Two tasks that wait for semaphore 0, of type `FIFO`, task `u` behind task `t`. -/
def bothWait (idle t u : T) : Option (System LinkMem T × Nat) := do
  let s₀ ← boot idle (fun _ => ⟨0, 0⟩) (fun _ => ⟨0⟩)
    [.createTask (some t) 4096 4096 4096 5, .createTask (some u) 4096 4096 4096 7]
  let s ← runList (fun s call => if Admissible idle s call then s.exec call else none) s₀
    [.acquire 0 0, .acquire 0 0]
  return (s, 0)

end Runs

end Eos.Analysis
