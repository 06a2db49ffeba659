import Eos.Analysis.Runs
import Eos.Interface.Refinement
import Mathlib.Data.List.Rotate

/-!
# Round robin

When no task is more urgent than the current one, `eos_schedule` appends it to the ready queue
of its priority and dispatches the first task there.  So the current task, followed by its
ready queue, is a sequence of tasks that every call rotates by one place (`InTurn.step`), and
as many calls as there are tasks lead back to the kernel they started from.
-/

set_option autoImplicit false

namespace Eos.Analysis

open Eos.Lib (LinkMem RingAt Refines Reach isRing_cons_iff)
open Eos.Model
open Eos.Interface (Rings Linked Repr exec_refines osInit_refines)

variable {T : Type} [DecidableEq T]

/-- The current task `c` runs, the tasks `r` are in the ready queue of its priority, and no ready
task is more urgent. -/
structure InTurn (a : Kernel Rings T) (c : T) (r : List T) : Prop extends Consistent a where
  unlocked : a.vars.schedulerLock ≠ locked
  current : a.vars.currentTask = some c
  running : a.status c = .running
  ring : a.queue.ring (.ready (a.priority c)) = r
  least : ∀ t, a.status t = .ready → a.priority c ≤ a.priority t

/-- The kernel when the tasks `xs` of priority `p` are in this order: the first one runs, and the
others are in the ready queue. -/
def turn (a : Kernel Rings T) (p : Nat) (xs : List T) : Kernel Rings T where
  queue := a.queue.set (.ready p) xs.tail
  timers := a.timers
  vars :=
    { a.vars with
      tcb := fun t =>
        if t ∈ xs then
          { a.vars.tcb t with status := if xs.head? = some t then .running else .ready }
        else a.vars.tcb t
      currentTask := xs.head? }

variable {a b : Kernel Rings T} {c x t : T} {p : Nat} {r rest xs ys : List T}

/-! ## The sequence of the tasks -/

omit [DecidableEq T] in
/-- Kernels with the same fields are the same. -/
theorem kernel_eq (hq : a.queue.ring = b.queue.ring) (ht : a.timers = b.timers)
    (htcb : a.vars.tcb = b.vars.tcb) (hp : a.vars.pnode = b.vars.pnode)
    (ho : a.vars.orderVal = b.vars.orderVal) (hc : a.vars.currentTask = b.vars.currentTask)
    (hr : a.vars.readyList = b.vars.readyList) (hl : a.vars.schedulerLock = b.vars.schedulerLock)
    (hs : a.vars.semaphore = b.vars.semaphore) (hd : a.vars.condition = b.vars.condition) :
    a = b := by
  obtain ⟨⟨ring⟩, timers, tcb, pnode, orderVal, current, readyList, lock, semaphore, condition⟩ := a
  simp only at hq ht htcb hp ho hc hr hl hs hd
  subst hq ht htcb hp ho hc hr hl hs hd
  rfl

/-- A second order replaces the first one. -/
theorem turn_turn (hmem : ∀ t, t ∈ xs ↔ t ∈ ys) : turn (turn a p xs) p ys = turn a p ys := by
  apply kernel_eq
  · exact Function.update_idem _ _ _
  · rfl
  · funext t
    by_cases ht : t ∈ ys
    · have htx : t ∈ xs := (hmem t).mpr ht
      simp [turn, ht, htx]
    · have htx : t ∉ xs := fun h => ht ((hmem t).mp h)
      simp [turn, ht, htx]
  all_goals rfl

omit [DecidableEq T] in
/-- The first task of a rotated sequence goes to its end. -/
theorem rotate_next {xs s : List T} {d : T} {i : Nat} (hrot : xs.rotate i = d :: s) :
    ∃ x rest, s ++ [d] = x :: rest ∧ xs.rotate (i + 1) = x :: rest := by
  obtain ⟨x, rest, hnext⟩ : ∃ x rest, s ++ [d] = x :: rest :=
    List.exists_cons_of_ne_nil (by simp)
  refine ⟨x, rest, hnext, ?_⟩
  rw [← List.rotate_rotate, hrot, List.rotate_cons_succ, List.rotate_zero, hnext]

namespace InTurn

omit [DecidableEq T] in
/-- The waiting tasks are ready. -/
theorem status_of_mem (h : InTurn a c r) (ht : t ∈ r) :
    a.status t = .ready ∧ a.priority t = a.priority c :=
  ((h.placed t).ready _).mp (h.ring ▸ ht)

omit [DecidableEq T] in
/-- The current task is not in its ready queue. -/
theorem not_mem (h : InTurn a c r) : c ∉ r := by
  intro hc
  have hs := (h.status_of_mem hc).1
  rw [h.running] at hs
  cases hs

omit [DecidableEq T] in
/-- No task has two turns. -/
theorem turns_nodup (h : InTurn a c r) : (c :: r).Nodup :=
  List.nodup_cons.mpr ⟨h.not_mem, h.ring ▸ h.toSound.nodup _⟩

/-- The kernel has the order of its own. -/
theorem turn_self (h : InTurn a c r) : turn a (a.priority c) (c :: r) = a := by
  apply kernel_eq
  · show Function.update a.queue.ring (.ready (a.priority c)) r = a.queue.ring
    rw [← h.ring, Function.update_eq_self]
  · rfl
  · funext t
    by_cases htc : t = c
    · subst htc
      have hs : (a.vars.tcb t).status = .running := h.running
      simp [turn, ← hs]
    · by_cases htr : t ∈ r
      · have hs : (a.vars.tcb t).status = .ready := (h.status_of_mem htr).1
        simp [turn, htr, Ne.symm htc, ← hs]
      · simp [turn, htc, htr]
  · rfl
  · rfl
  · exact h.current.symm
  all_goals rfl

end InTurn

/-! ## One call -/

/-- The kernel when the running task `c` has gone back to its ready queue. -/
def requeued (a : Kernel Rings T) (c : T) : Kernel Rings T := (attachReady a c).setStatus c .ready

/-- The kernel when `x` has been dispatched behind that. -/
noncomputable def passed (a : Kernel Rings T) (c x : T) : Kernel Rings T :=
  ((detachReady (requeued a c) x).setStatus x .running).setCurrent (some x)

/-- The running task is behind the others of its ready queue. -/
theorem requeued_ring (hring : a.queue.ring (.ready (a.priority c)) = r) :
    (requeued a c).queue = a.queue.set (.ready (a.priority c)) (r ++ [c]) := by
  subst hring
  rfl

/-- The task that was running is READY. -/
theorem requeued_status : (requeued a c).status t = if t = c then .ready else a.status t :=
  Kernel.status_setStatus _ _ _ _

/-- Requeueing changes no priority. -/
theorem requeued_priority : (requeued a c).priority t = a.priority t :=
  Kernel.priority_setStatus _ _ _ _

omit [DecidableEq T] in
/-- Only the first eight bytes of the bitmap are used. -/
theorem unsetIfEmpty_behind {y : Nat} (hp : p ≤ 63) (hy : 8 ≤ y) :
    (a.unsetIfEmpty p).vars.readyList.table y = a.vars.readyList.table y := by
  unfold Kernel.unsetIfEmpty
  split
  · exact (Represents.table_behind hp hy).2
  · rfl

/-- The bytes behind the table of the bitmap stay. -/
theorem passed_behind (hc : a.priority c ≤ 63) (hx : a.priority x ≤ 63) {y : Nat} (hy : 8 ≤ y) :
    (passed a c x).vars.readyList.table y = a.vars.readyList.table y := by
  show (detachReady (requeued a c) x).vars.readyList.table y = _
  unfold detachReady
  rw [unsetIfEmpty_behind (by rwa [requeued_priority]) hy]
  exact (Represents.table_behind hc hy).1

/-- The next task is no longer in the ready queue. -/
theorem passed_queue (hring : a.queue.ring (.ready (a.priority c)) = r)
    (hnext : r ++ [c] = x :: rest) (hp : a.priority x = a.priority c) :
    (passed a c x).queue.ring = Function.update a.queue.ring (.ready (a.priority c)) rest := by
  show (detachReady (requeued a c) x).queue.ring = _
  unfold detachReady
  rw [unsetIfEmpty_queue, requeued_priority, hp, detach, Kernel.setQueue_queue, requeued_ring hring,
    Rings.set_ring, Rings.set_ring, Function.update_idem, Function.update_self, hnext,
    List.erase_cons_head]

/-- The fields outside of the queues and the bitmap. -/
theorem passed_vars : ∃ readyList, (passed a c x).vars =
    { (((a.setStatus c .ready).setStatus x .running).setCurrent (some x)).vars with
      readyList := readyList } ∧ (passed a c x).timers = a.timers := by
  obtain ⟨l, hl⟩ := detachReady_eq (requeued a c) x
  refine ⟨l, ?_, ?_⟩
  · rw [passed, hl]
    rfl
  · rw [passed, hl]
    rfl

namespace InTurn

/-- The call dispatches the next task. -/
theorem dispatches (h : InTurn a c r) (hnext : r ++ [c] = x :: rest) :
    a.eosSchedule = some (passed a c x) ∧ Dispatched (requeued a c) (passed a c x) x := by
  obtain ⟨heq, hcons⟩ := requeueCurrent_eq h.toConsistent h.current h.running
  change a.requeueCurrent = some (requeued a c) at heq
  change Consistent (requeued a c) at hcons
  have hready : (requeued a c).status c = .ready := by rw [requeued_status, if_pos rfl]
  obtain ⟨next, hdisp, ⟨rest', hhead⟩, hs, hleast⟩ := dispatchNext_eq hcons hready
  -- the next task is as urgent as the current one
  have hle : a.priority next ≤ a.priority c := by
    have hc := hleast c hready
    rwa [requeued_priority, requeued_priority] at hc
  have hge : a.priority c ≤ a.priority next := by
    rw [requeued_status] at hs
    split at hs
    · next hnc => rw [hnc]
    · exact h.least next hs
  have hp : a.priority next = a.priority c := le_antisymm hle hge
  rw [requeued_priority, hp, requeued_ring h.ring, Rings.set_ring, Function.update_self,
    hnext] at hhead
  obtain ⟨rfl, -⟩ := List.cons_eq_cons.mp hhead
  have hcur : ∀ u, (requeued a c).vars.currentTask = some u →
      (requeued a c).status u ≠ .running := by
    intro u hu
    have hcu : c = u := Option.some.inj (h.current.symm.trans hu)
    rw [← hcu, hready]
    simp
  obtain ⟨b, next, hb, hd⟩ := dispatchNext_dispatched hcons hready hcur
  obtain rfl : passed a c x = b := Option.some.inj (hdisp.symm.trans hb)
  obtain rfl : x = next := Option.some.inj hd.current
  refine ⟨?_, hd⟩
  rw [Kernel.eosSchedule, if_neg h.unlocked, heq]
  exact hdisp

omit [DecidableEq T] in
/-- The queue with the running task behind it has the same tasks as the next round. -/
theorem mem_next (hnext : r ++ [c] = x :: rest) : t ∈ x :: rest ↔ t ∈ r ∨ t = c := by
  rw [← hnext, List.mem_append, List.mem_singleton]

/-- Two statuses have changed. -/
theorem passed_tcb (h : InTurn a c r) (hnext : r ++ [c] = x :: rest) :
    ((a.setStatus c .ready).setStatus x .running).vars.tcb =
      (turn a (a.priority c) (x :: rest)).vars.tcb := by
  funext t
  by_cases htx : t = x
  · subst htx
    by_cases htc : t = c
    · subst htc
      simp [turn]
    · simp [turn, htc]
  · by_cases htc : t = c
    · subst htc
      have hmem : t ∈ x :: rest := (mem_next hnext).mpr (.inr rfl)
      simp [turn, htx, Ne.symm htx, (List.mem_cons.mp hmem).resolve_left htx]
    · by_cases htr : t ∈ r
      · have hmem : t ∈ x :: rest := (mem_next hnext).mpr (.inl htr)
        have hs : (a.vars.tcb t).status = .ready := (h.status_of_mem htr).1
        simp [turn, htx, htc, Ne.symm htx, (List.mem_cons.mp hmem).resolve_left htx, ← hs]
      · have hmem : t ∉ x :: rest := fun hc => ((mem_next hnext).mp hc).elim htr htc
        simp [turn, htx, htc, List.not_mem_of_not_mem_cons hmem]

/-- The bitmap is the same: the queue of the priority is as long as it was. -/
theorem passed_readyList (h : InTurn a c r) (hnext : r ++ [c] = x :: rest)
    (hcons : Consistent (passed a c x)) (hp : a.priority x = a.priority c) :
    (passed a c x).vars.readyList = a.vars.readyList := by
  have hlen : rest.length = r.length := by
    have := congrArg List.length hnext
    simp only [List.length_append, List.length_cons, List.length_nil] at this
    omega
  have hsame : ∀ q ≤ 63,
      (passed a c x).queue.ring (.ready q) ≠ [] ↔ a.queue.ring (.ready q) ≠ [] := by
    intro q _
    rw [passed_queue h.ring hnext hp]
    by_cases hq : q = a.priority c
    · rw [hq, Function.update_self, h.ring, ← List.length_pos_iff, ← List.length_pos_iff, hlen]
    · have hne : QueueHead.ready q ≠ .ready (a.priority c) := fun e => hq (QueueHead.ready.inj e)
      rw [Function.update_of_ne hne]
  exact (hcons.bitmap.congr hsame).unique h.bitmap fun y hy =>
    passed_behind (h.priority c) (h.priority x) hy

/-- The state after a switch is the next turn. -/
theorem passed_eq (h : InTurn a c r) (hnext : r ++ [c] = x :: rest)
    (hcons : Consistent (passed a c x)) :
    passed a c x = turn a (a.priority c) (x :: rest) := by
  have hp : a.priority x = a.priority c := by
    obtain hx | rfl := (mem_next hnext).mp List.mem_cons_self
    · exact (h.status_of_mem hx).2
    · rfl
  obtain ⟨l, hvars, htimers⟩ := passed_vars (a := a) (c := c) (x := x)
  apply kernel_eq
  · exact passed_queue h.ring hnext hp
  · exact htimers
  · rw [hvars]
    exact h.passed_tcb hnext
  · rw [hvars]
    rfl
  · rw [hvars]
    rfl
  · rw [hvars]
    rfl
  · exact h.passed_readyList hnext hcons hp
  all_goals
    rw [hvars]
    rfl

/-- **One call** of `eos_schedule` (core/task.c:88-139) passes the turn to the next task. -/
theorem step (h : InTurn a c r) (hnext : r ++ [c] = x :: rest) :
    a.eosSchedule = some (turn a (a.priority c) (x :: rest)) ∧
      InTurn (turn a (a.priority c) (x :: rest)) x rest ∧
      (turn a (a.priority c) (x :: rest)).priority x = a.priority c := by
  obtain ⟨heq, hd⟩ := h.dispatches hnext
  rw [h.passed_eq hnext hd.consistent] at heq hd
  have hp : (turn a (a.priority c) (x :: rest)).priority x = a.priority c := by
    rw [hd.priority, requeued_priority]
    obtain hx | rfl := (mem_next hnext).mp List.mem_cons_self
    · exact (h.status_of_mem hx).2
    · rfl
  refine ⟨heq, ⟨hd.consistent, h.unlocked, rfl, hd.running, ?_, hd.least⟩, hp⟩
  rw [hp]
  exact Function.update_self _ _ _

/-- One call, seen from the kernel where the round began. -/
theorem turn_step {d : T} {s : List T} (h : InTurn (turn a p (d :: s)) d s)
    (hp : (turn a p (d :: s)).priority d = p) (hnext : s ++ [d] = x :: rest) :
    (turn a p (d :: s)).eosSchedule = some (turn a p (x :: rest)) ∧
      InTurn (turn a p (x :: rest)) x rest ∧ (turn a p (x :: rest)).priority x = p := by
  have hmem : ∀ t, t ∈ d :: s ↔ t ∈ x :: rest := by
    intro t
    rw [mem_next hnext, List.mem_cons, or_comm]
  have hstep := h.step hnext
  rwa [hp, turn_turn hmem] at hstep

/-! ## A round -/

/-- Behind `i` calls the sequence is rotated by `i` places. -/
theorem turn_rotate (h : InTurn a c r) (i : Nat) :
    ∃ d s, (c :: r).rotate i = d :: s ∧ InTurn (turn a (a.priority c) (d :: s)) d s ∧
      (turn a (a.priority c) (d :: s)).priority d = a.priority c := by
  induction i with
  | zero => exact ⟨c, r, List.rotate_zero _, by rwa [h.turn_self], by rw [h.turn_self]⟩
  | succ i ih =>
    obtain ⟨d, s, hrot, hturn, hp⟩ := ih
    obtain ⟨x, rest, hnext, hrot'⟩ := rotate_next hrot
    exact ⟨x, rest, hrot', (hturn.turn_step hp hnext).2⟩

/-- **The turns of a round.** -/
theorem turn_rotate_step (h : InTurn a c r) (i : Nat) :
    (turn a (a.priority c) ((c :: r).rotate i)).eosSchedule =
      some (turn a (a.priority c) ((c :: r).rotate (i + 1))) := by
  obtain ⟨d, s, hrot, hturn, hp⟩ := h.turn_rotate i
  obtain ⟨x, rest, hnext, hrot'⟩ := rotate_next hrot
  rw [hrot, hrot']
  exact (hturn.turn_step hp hnext).1

end InTurn

/-- **Round robin among equals**: when the current task runs with the scheduler unlocked, and the
tasks `r` of its ready queue and itself are the most urgent ones, the following calls of
`eos_schedule` dispatch each of them once, in the order of the queue and the current task last;
then the kernel is as it was.  The queues of other priorities and the other tasks stay as they
are throughout. -/
theorem roundRobin {k : Kernel LinkMem T} (hr : Repr k a) (h : Consistent a)
    (hunlocked : k.vars.schedulerLock ≠ locked) (hcurrent : k.vars.currentTask = some c)
    (hrunning : k.status c = .running) (hring : RingAt k.queue (.ready (k.priority c)) r)
    (hleast : ∀ t, k.status t = .ready → k.priority c ≤ k.priority t) :
    (r ++ [c]).Nodup ∧ ∃ run : Nat → Kernel LinkMem T,
      run 0 = k ∧ run (r.length + 1) = k ∧
      (∀ i, (run i).eosSchedule = some (run (i + 1))) ∧
      (∀ i x, (r ++ [c])[i]? = some x →
        (run (i + 1)).vars.currentTask = some x ∧ (run (i + 1)).status x = .running) ∧
      ∀ i, (∀ q, q ≠ .ready (k.priority c) → RingAt (run i).queue q (a.queue.ring q)) ∧
        ∀ t, t ∉ r ++ [c] → (run i).vars.tcb t = k.vars.tcb t := by
  have hturn : InTurn a c r :=
    { toConsistent := h
      unlocked := hr.vars ▸ hunlocked
      current := hr.vars ▸ hcurrent
      running := hr.status c ▸ hrunning
      ring := by
        rw [hr.priority] at hring
        exact (hr.queue.ringAt _).unique hring
      least := fun t ht => by
        rw [← hr.priority, ← hr.priority]
        exact hleast t (hr.status t ▸ ht) }
  have hnodup : (r ++ [c]).Nodup :=
    (List.perm_append_singleton c r).nodup_iff.mpr hturn.turns_nodup
  have hstart : turn a (a.priority c) ((c :: r).rotate 0) = a := by
    rw [List.rotate_zero, hturn.turn_self]
  have hend : turn a (a.priority c) ((c :: r).rotate (r.length + 1)) = a := by
    rw [← List.length_cons (a := c), List.rotate_length, hturn.turn_self]
  obtain ⟨run, hrun, hstep, hrepr⟩ := Refines.exists_run
    (fun _ _ hr => Repr.eosSchedule hr) (fun i => turn a (a.priority c) ((c :: r).rotate i))
    hturn.turn_rotate_step (hstart.symm ▸ hr)
  refine ⟨hnodup, run, hrun, ?_, hstep, fun i x hx => ?_, fun i => ⟨fun q hq => ?_, fun t ht => ?_⟩⟩
  · have hlast := hrepr (r.length + 1)
    rw [hend] at hlast
    exact hlast.unique hr
  · obtain ⟨d, s, hrot, hd, -⟩ := hturn.turn_rotate (i + 1)
    have hi : i < (r ++ [c]).length := (List.getElem?_eq_some_iff.mp hx).1
    have hdx : some d = some x := by
      rw [← hx, ← List.head?_rotate hi, ← List.rotate_cons_succ, hrot, List.head?_cons]
    cases hdx
    rw [(hrepr (i + 1)).vars, (hrepr (i + 1)).status]
    simp only [hrot]
    exact ⟨hd.current, hd.running⟩
  · have hring := (hrepr i).queue.ringAt q
    rw [hr.priority] at hq
    rwa [show (turn a (a.priority c) ((c :: r).rotate i)).queue.ring q = a.queue.ring q from
      Function.update_of_ne hq _ _] at hring
  · have hmem : t ∉ (c :: r).rotate i := by
      rw [List.mem_rotate, List.mem_cons, or_comm]
      simpa using ht
    rw [(hrepr i).vars, hr.vars]
    exact if_neg hmem

/-! ## A state of a run -/

section Reachable

variable [Fintype T]

/-- Runs lead to consistent states. -/
theorem scheduled_of_reach {idle : T} {semaphore : Nat → Semaphore} {condition : Nat → Condition}
    {k₀ k : Kernel LinkMem T} (hk₀ : Kernel.osInit idle semaphore condition = some k₀)
    (hk : Reach Kernel.exec (fun k o => Admitted idle k.vars o) k₀ k) :
    ∃ a, Repr k a ∧ Scheduled idle a ∧ Sleeping a := by
  obtain ⟨a₀, ha₀, hrun₀, hsl₀, -⟩ := osInit_running idle semaphore condition
  obtain ⟨k₀', hk₀', hr₀⟩ := osInit_refines idle semaphore condition a₀ ha₀
  obtain rfl : k₀ = k₀' := Option.some.inj (hk₀.symm.trans hk₀')
  apply hk.invariant (I := fun k => ∃ a, Repr k a ∧ Scheduled idle a ∧ Sleeping a)
    ⟨a₀, hr₀, hrun₀, hsl₀⟩
  rintro k k' o ⟨a, hr, h, hsl⟩ ho hk'
  obtain ⟨b, hb, hstep⟩ := exec_sleeping h hsl (hr.vars ▸ ho)
  obtain ⟨k'', hk'', hrep⟩ := exec_refines hr o b hb
  rw [hk', Option.some.injEq] at hk''
  exact ⟨b, hk'' ▸ hrep, hstep.scheduled, hstep.sleeping hsl⟩

end Reachable

/-- Two tasks of priority 5 take turns, and the idle task waits. -/
theorem roundRobin_two : ∃ run : Nat → Kernel LinkMem (Fin 3),
    (run 0).vars.currentTask = some 0 ∧ (run 0).eosSchedule = some (run 1) ∧
      (run 1).vars.currentTask = some 1 ∧ (run 1).eosSchedule = some (run 2) ∧ run 2 = run 0 := by
  let create (t : Fin 3) : Op (Fin 3) := .createTask (some t) 4096 4096 4096 5
  obtain ⟨k₀, k, hk₀, hk, hlock, hcurrent, hrunning, hprio, hhead, hprev, hnext, hleast⟩ :=
    Reach.of_decide Kernel.exec (fun (k : Kernel LinkMem (Fin 3)) o => Admitted 2 k.vars o)
      (Kernel.osInit 2 (fun _ => ⟨0, 0⟩) fun _ => ⟨0⟩) [create 0, create 1, .start]
      (fun _ k => k.vars.schedulerLock ≠ locked ∧ k.vars.currentTask = some 0 ∧
        k.status 0 = .running ∧ k.priority 0 = 5 ∧ k.queue.head (.ready 5) = some 1 ∧
        k.queue.prev 1 = some 1 ∧ k.queue.next 1 = some 1 ∧
        ∀ t, k.status t = .ready → 5 ≤ k.priority t) (by decide +kernel)
  obtain ⟨a, hr, h, -⟩ := scheduled_of_reach hk₀ hk
  have hring : RingAt k.queue (.ready 5) [1] :=
    ⟨hhead, isRing_cons_iff.mpr ⟨.singleton 1, hnext, hprev⟩, List.nodup_singleton 1⟩
  rw [← hprio] at hring hleast
  obtain ⟨-, run, hzero, htwo, hstep, hturns, -⟩ :=
    roundRobin hr h.toConsistent hlock hcurrent hrunning hring hleast
  exact ⟨run, hzero ▸ hcurrent, hstep 0, (hturns 0 1 rfl).1, hstep 1, htwo.trans hzero.symm⟩

end Eos.Analysis
