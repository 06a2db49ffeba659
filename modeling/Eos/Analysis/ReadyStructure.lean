import Eos.Analysis.Runs
import Eos.Interface.Refinement

/-!
# The ready queues, the bitmap and the task states agree

The three redundant structures of the scheduler, the ready queues, the bitmap and the
status of every task, agree in every state that a run of kernel operations reaches from
`_os_init`, for any number of tasks and any order of operations
(`readyStructure_reachable`).  In such a state every operation has a result: no list
routine follows a `NULL` link, no list loop runs on, and `eos_schedule` finds a task in
the ready queue the bitmap leads it to.
-/

set_option autoImplicit false

namespace Eos.Analysis

open Eos.Lib (LinkMem RingsOk Reach)
open Eos.Model
open Eos.Interface (Rings Linked Repr exec_refines osInit_refines)

variable {T : Type} [DecidableEq T] [Fintype T]

/-- The ready queues, bitmap and task states of `k` agree, where the links of `k` close the
sequence `ring h` into a circle for every head cell `h`. -/
structure ReadyStructure (k : Kernel LinkMem T) (ring : QueueHead → List T) : Prop where
  /-- The links close every sequence into a circle; no task is linked twice. -/
  rings : RingsOk k.queue ring
  /-- Every ready task is linked in the ready queue of its priority. -/
  ready : ∀ t, k.status t = .ready → t ∈ ring (.ready (k.priority t))
  /-- The ready queue of a priority has only ready tasks of this priority. -/
  members : ∀ p t, t ∈ ring (.ready p) → k.status t = .ready ∧ k.priority t = p
  /-- The bitmap has exactly the priorities whose ready queue is not empty. -/
  bitmap : Represents k.vars.readyList fun p => ring (.ready p) ≠ []
  /-- The current task is the only one that runs. -/
  current : ∀ c, k.vars.currentTask = some c → ∀ t, k.status t = .running ↔ t = c
  /-- The current task is in no ready queue. -/
  unlinked : ∀ c, k.vars.currentTask = some c → ∀ p, c ∉ ring (.ready p)

/-- The operations of a run: those admitted, where `_os_wait_in_queue` is only called with the
scheduler unlocked. -/
def ReadyOps (idle : T) (k : Kernel LinkMem T) : Op T → Prop
  | .waitInQueue _ _ => k.vars.schedulerLock ≠ locked ∧ k.vars.currentTask ≠ some idle
  | o => Admitted idle k.vars o

omit [Fintype T] [DecidableEq T] in
/-- In a state of the invariant these operations are admitted. -/
theorem ReadyOps.admitted {idle : T} {k : Kernel LinkMem T} {a : Kernel Rings T}
    (hr : Repr k a) (h : Scheduled idle a) {o : Op T} (ho : ReadyOps idle k o) :
    Admitted idle a.vars o := by
  rw [← hr.vars]
  cases o with
  | waitInQueue q queueType =>
    obtain ⟨hl, hci⟩ := ho
    obtain ⟨c, hc, hs⟩ := h.started (hr.vars ▸ hl)
    refine ⟨hci, ?_⟩
    rw [hr.vars, hc]
    show Status.unqueued (a.status c) = true
    rw [hs]
    rfl
  | _ => exact ho

omit [Fintype T] in
/-- One operation keeps the current task running, unless it is a call of `_os_wait_in_queue`
with the scheduler locked. -/
theorem Outcome.current {a b : Kernel Rings T} {o : Op T} (hout : Outcome (waits o) a b)
    (hcur : ∀ c, a.vars.currentTask = some c → a.status c = .running)
    (ho : ∀ q queueType, o = .waitInQueue q queueType → a.vars.schedulerLock ≠ locked) :
    ∀ c, b.vars.currentTask = some c → b.status c = .running := by
  intro c hc
  cases hout with
  | quiet hcur' _ hrun _ _ => exact (hrun c).mpr (hcur c (hcur' ▸ hc))
  | dispatched m next hd =>
    rw [hd.current, Option.some.injEq] at hc
    exact hc ▸ hd.running
  | held _ hcur' hrun =>
    rcases hrun with ⟨hw, hl⟩ | hrun
    · cases o with
      | waitInQueue q queueType => exact absurd hl (ho q queueType rfl)
      | _ => exact hw.elim
    · exact (hrun c).mpr (hcur c (hcur' ▸ hc))

omit [DecidableEq T] [Fintype T] in
/-- What the invariant says about the pointer kernel. -/
theorem Scheduled.readyStructure {idle : T} {k : Kernel LinkMem T} {a : Kernel Rings T}
    (hr : Repr k a) (h : Scheduled idle a)
    (hcur : ∀ c, a.vars.currentTask = some c → a.status c = .running) :
    ReadyStructure k a.queue.ring where
  rings := hr.queue
  ready t ht := by
    rw [hr.priority]
    exact h.mem_ready (hr.status t ▸ ht)
  members p t ht := by
    rw [hr.status, hr.priority]
    exact ((h.placed t).ready p).mp ht
  bitmap := hr.vars ▸ h.bitmap
  current c hc t := by
    rw [hr.vars] at hc
    rw [hr.status]
    refine ⟨fun ht => ?_, fun ht => ht ▸ hcur c hc⟩
    have := h.runs t ht
    rw [hc, Option.some.injEq] at this
    exact this.symm
  unlinked c hc p hcp := by
    rw [hr.vars] at hc
    have := (((h.placed c).ready p).mp hcp).1
    rw [hcur c hc] at this
    cases this

/-- **The ready-structure invariant.** From `_os_init`, which has a result, every run of
operations leads to states in which the ready queues, the bitmap and the task states agree,
and in which the next operation has a result again: `eos_schedule` never finds an empty ready
queue and no `NULL` link is followed. -/
theorem readyStructure_reachable (idle : T) (semaphore : Nat → Semaphore)
    (condition : Nat → Condition) :
    ∃ k₀, Kernel.osInit idle semaphore condition = some k₀ ∧
      ∀ k, Reach Kernel.exec (ReadyOps idle) k₀ k →
        (∃ ring, ReadyStructure k ring) ∧ ∀ o, ReadyOps idle k o → ∃ k', k.exec o = some k' := by
  obtain ⟨a₀, ha₀, hrun₀, hsl₀, hnone, -⟩ := osInit_running idle semaphore condition
  obtain ⟨k₀, hk₀, hr₀⟩ := osInit_refines idle semaphore condition a₀ ha₀
  refine ⟨k₀, hk₀, fun k hk => ?_⟩
  obtain ⟨a, hr, h, hsl, hcur⟩ := hk.invariant (I := fun k => ∃ a, Repr k a ∧ Scheduled idle a ∧
      Sleeping a ∧ ∀ c, a.vars.currentTask = some c → a.status c = .running)
    ⟨a₀, hr₀, hrun₀, hsl₀, fun c hc => by rw [hnone] at hc; cases hc⟩
    (by
      rintro k k' o ⟨a, hr, h, hsl, hcur⟩ ho hk'
      obtain ⟨b, hb, hstep⟩ := exec_sleeping h hsl (ho.admitted hr h)
      obtain ⟨k'', hk'', hrep⟩ := exec_refines hr o b hb
      rw [hk', Option.some.injEq] at hk''
      refine ⟨b, hk'' ▸ hrep, hstep.scheduled, hstep.sleeping hsl, hstep.outcome.current hcur ?_⟩
      rintro q queueType rfl
      exact hr.vars ▸ ho.1)
  refine ⟨⟨_, h.readyStructure hr hcur⟩, fun o ho => ?_⟩
  obtain ⟨b, hb, -⟩ := exec_sleeping h hsl (ho.admitted hr h)
  obtain ⟨k', hk', -⟩ := exec_refines hr o b hb
  exact ⟨k', hk'⟩

end Eos.Analysis
