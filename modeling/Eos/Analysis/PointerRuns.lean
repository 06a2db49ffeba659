import Eos.Analysis.Orderly
import Eos.Analysis.SyncRuns

/-!
# Whole runs of the pointer kernel

Started in the same state, the kernel with its linked lists and the kernel over sequences take the
same runs: the same calls have results, the tasks, semaphores, conditions, alarms and resume points
agree after every one, and the links make up the sequences (`pointers_refine_sequences`).  So a
statement about sequences is one about the pointer code, in every state of every run.  No call of a
task gets stuck: it follows no `NULL` pointer, and its loops end.
-/

set_option autoImplicit false

namespace Eos.Analysis

open Eos.Lib (LinkMem Refines runList)
open Eos.Model
open Eos.Interface (Rings Repr SystemRepr system_exec_refines)

variable {T : Type} [DecidableEq T] [Fintype T] {idle : T} {s s₀ : System LinkMem T}
  {x : System Rings T}

/-- A step of a run. -/
def admittedExec (idle : T) (s : System LinkMem T) (call : Call T) : Option (System LinkMem T) :=
  if Admissible idle s call then s.exec call else none

/-- The call is one of a task, in its own code or in the call it goes on with. -/
def TaskCall (s : System LinkMem T) : Call T → Prop
  | .kernel o => o ≠ .tick
  | .goOn => inUser s = false
  | _ => True

instance (s : System LinkMem T) : DecidablePred (TaskCall s)
  | .kernel o => inferInstanceAs (Decidable (o ≠ .tick))
  | .goOn => inferInstanceAs (Decidable (inUser s = false))
  | .acquire .. | .release _ | .waitCondition .. | .notifyCondition _ => .isTrue trivial

/-- **No call of a task gets stuck.** -/
theorem taskCall_total (h : SystemOk idle s x) {call : Call T} (hadm : Admissible idle s call)
    (htask : TaskCall s call) : ∃ s', s.exec call = some s' := by
  have hl : x.kernel.vars.schedulerLock ≠ locked := by
    rw [← h.kernel.vars, hadm.1]
    decide
  obtain ⟨t, hc, -⟩ := h.scheduled.started hl
  have hexec : ∀ x', x.exec call = some x' → ∃ s', s.exec call = some s' := fun x' hx' =>
    (system_exec_refines h.toSystemRepr call x' hx').imp fun _ => And.left
  have hpart : (∃ r b, x.part t call = some (r, b)) →
      x.exec call = (do
        let caller ← x.kernel.vars.currentTask
        return x.leave caller (← x.part caller call)) → ∃ s', s.exec call = some s' := by
    rintro ⟨r, b, hb⟩ hcall
    apply hexec (x.leave t (r, b))
    rw [hcall, hc]
    simp only [Option.bind_eq_bind, Option.bind_some, hb]
    rfl
  have hidle : s.kernel.vars.currentTask ≠ some idle → t ≠ idle :=
    fun hn e => hn (by rw [h.kernel.vars, hc, e])
  cases call with
  | kernel o =>
    have ho := hadm.2.2.1
    rw [h.kernel.vars] at ho
    obtain ⟨b, hb, -⟩ := exec_step h.scheduled ho htask
    apply hexec ⟨b, x.resume⟩
    simp only [System.exec, hb]
    rfl
  | acquire sem timeout =>
    obtain ⟨r, b, hb, -⟩ := h.scheduled.acquire_advance hc (hidle hadm.2.2) sem timeout
    exact hpart ⟨r, b, hb⟩ rfl
  | release sem =>
    obtain ⟨b, hb, -⟩ := h.scheduled.release_advance sem
    apply hexec ⟨b, x.resume⟩
    simp only [System.exec, hb]
    rfl
  | waitCondition c m =>
    obtain ⟨r, b, hb, -⟩ := h.scheduled.eosWaitCondition_advance hl hc (hidle hadm.2.2) c m
    exact hpart ⟨r, b, hb⟩ rfl
  | notifyCondition c =>
    obtain ⟨b, hb, -⟩ := wakeupFromQueue_step h.scheduled (.condition c) False
    apply hexec ⟨b, x.resume⟩
    simp only [System.exec, Kernel.eosNotifyCondition, hb]
    rfl
  | goOn =>
    have hne : x.resume t ≠ .user := by
      intro hu
      rw [TaskCall, inUser, h.kernel.vars, hc, Option.all_some, h.resume, hu] at htask
      cases htask
    have hti : t ≠ idle := fun e => hne (e ▸ h.idleUser)
    refine hpart ?_ rfl
    simp only [System.part]
    cases hr : x.resume t with
    | user => exact absurd hr hne
    | acquire sem timeout absTimeout =>
      obtain ⟨r, b, hb, -⟩ := h.scheduled.retry_advance hl hc hti sem timeout absTimeout
      exact ⟨r, b, hb⟩
    | released c m =>
      obtain ⟨b, hb, -⟩ := h.scheduled.waitCondition_advance hl hc hti c m
      exact ⟨_, b, hb⟩
    | notified m =>
      obtain ⟨r, b, hb, -⟩ := h.scheduled.acquire_advance hc hti m 0
      exact ⟨r, b, hb⟩

/-- A tick finds due only alarms that are in order. -/
def TicksInOrder (k : Kernel LinkMem T) (call : Call T) : Prop :=
  call = .kernel .tick → DueInOrder k

instance (k : Kernel LinkMem T) : DecidablePred (TicksInOrder k) :=
  fun call => inferInstanceAs (Decidable (call = .kernel .tick → DueInOrder k))

/-- **No step of a run gets stuck**, neither a call of a task nor a tick. -/
theorem call_total (h : SystemOk idle s x) {call : Call T} (hadm : Admissible idle s call)
    (hcall : call = .kernel .tick ∨ TaskCall s call) (hdue : TicksInOrder s.kernel call) :
    ∃ s', s.exec call = some s' := by
  rcases hcall with rfl | htask
  · have hready : Dispatchable s.kernel := by
      refine .inr ⟨idle, ?_⟩
      rw [h.kernel.status, h.kernel.vars]
      exact h.scheduled.idleRuns.imp_right fun hs => ⟨h.scheduled.runs idle hs, hs⟩
    obtain ⟨k', hk'⟩ :=
      tick_runs h.kernel h.scheduled.toConsistent.orderly (hdue rfl) hready
    refine ⟨{ s with kernel := k' }, ?_⟩
    show (s.kernel.eosTriggerCounter.bind fun k => some { s with kernel := k }) = _
    rw [hk', Option.bind_some]
  · exact taskCall_total h hadm htask

end Eos.Analysis
