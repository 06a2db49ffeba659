import Eos.Analysis.ReadyQueues

/-!
# The first task

`_os_init` creates the idle task, lets `eos_user_main` create the tasks of the application with the
scheduler locked, unlocks it and calls `eos_schedule` (core/init.c:21-53).  Whatever
`eos_user_main` creates, the first task that runs is the one created first among the most
urgent ones, and all the others stand in their ready queues in the order in which they
were created (`multitasking_starts`).
-/

set_option autoImplicit false

namespace Eos.Analysis

open Eos.Lib (LinkMem Reach runList map_snd_bind₂)
open Eos.Model
open Eos.Interface (Rings Linked Repr exec_refines osInit_refines)

variable {T : Type} [DecidableEq T]

/-! ## The property -/

/-- The operation is a call of `eos_create_task`. -/
def isCreation : Op T → Bool
  | .createTask _ _ _ _ _ => true
  | _ => false

/-- The TCB that a call of `eos_create_task` is given. -/
def creationTask : Op T → Option T
  | .createTask task _ _ _ _ => task
  | _ => none

/-- The task that a call of `eos_create_task` accepts, with its priority (core/task.c:36-48). -/
def acceptedTask : Op T → Option (T × Nat)
  | .createTask (some task) sblockStart sblockSize entry priority =>
    if entry = 0 ∨ priority > lowestPriority ∨ sblockStart = 0 ∨ sblockSize < minStackSize then none
    else some (task, priority)
  | _ => none

/-- The tasks there are when multitasking starts, in the order of their creation, with
their priorities. -/
def createdTasks (idle : T) (creations : List (Op T)) : List (T × Nat) :=
  (idle, lowestPriority) :: creations.filterMap acceptedTask

/-- Those of priority `p`. -/
def ofPriority (p : Nat) (ts : List (T × Nat)) : List T := (ts.filter fun u => u.2 = p).map Prod.fst

/-! ## The calls of `eos_create_task` -/

/-- During the initialisation the created tasks stand in their ready queues in the order of their
creation, no task runs, and the other TCBs are as at the start. -/
structure Initialising (a : Kernel Rings T) (ts : List (T × Nat)) : Prop where
  consistent : Consistent a
  lock : a.vars.schedulerLock = locked
  current : a.vars.currentTask = none
  ready : ∀ p, a.queue.ring (.ready p) = ofPriority p ts
  fresh : ∀ t, t ∉ ts.map Prod.fst → a.vars.tcb t = .zero

omit [DecidableEq T] in
/-- The tasks of one priority, in two parts. -/
theorem ofPriority_append (p : Nat) (ts us : List (T × Nat)) :
    ofPriority p (ts ++ us) = ofPriority p ts ++ ofPriority p us := by
  rw [ofPriority, List.filter_append, List.map_append]
  rfl

omit [DecidableEq T] in
/-- A single task. -/
theorem ofPriority_singleton (q : Nat) (t : T) (p : Nat) :
    ofPriority q [(t, p)] = if p = q then [t] else [] := by
  unfold ofPriority
  by_cases hq : p = q
  · simp [hq]
  · simp [hq]

variable {a : Kernel Rings T} {t : T} {ts : List (T × Nat)}

/-- The ready queues after a call of `eos_create_task` that accepts its task. -/
theorem eosCreateTask_ready (hf : ¬Linked a.queue t) (hl : a.vars.schedulerLock = locked)
    {start size entry : UInt64} {p : Nat} (he : entry ≠ 0) (hp : p ≤ 63)
    (hst : ¬(start = 0 ∨ size < minStackSize)) :
    ∃ b, (a.eosCreateTask (some t) start size entry p).map Prod.snd = some b ∧
      ∀ q, b.queue.ring (.ready q) = a.queue.ring (.ready q) ++ if p = q then [t] else [] := by
  let d := ((a.setTcb t fun b => { b with priority := p, period := 0, wakeupTime := 0 }).setPnode
    t).setOrderVal t p
  have hdp : d.priority t = p := by
    show (Function.update a.vars.tcb t _ t).priority = p
    rw [Function.update_self]
  have hfree : ¬Linked d.queue t := hf
  have hlock : ((attachReady d t).setStatus t .ready).vars.schedulerLock = locked := hl
  refine ⟨(attachReady d t).setStatus t .ready, ?_, fun q => ?_⟩
  · simp only [Kernel.eosCreateTask, he, if_false, hst, lowestPriority, gt_iff_lt,
      not_lt.mpr hp, map_snd_bind₂]
    show (d.addReady t).bind (fun k => (k.setStatus t .ready).eosSchedule) = _
    rw [addReady_eq hfree]
    exact eosSchedule_locked hlock
  · show (d.queue.set (.ready (d.priority t)) _).ring (.ready q) = _
    rw [hdp]
    by_cases hq : p = q
    · subst hq
      simp [d]
    · simp [d, hq, Ne.symm hq]

variable [Fintype T]

/-- **One call of `eos_create_task`** puts the task behind those of its priority, or does
nothing (core/task.c:34-79). -/
theorem Initialising.create (h : Initialising a ts) {o : Op T} (ho : isCreation o = true)
    (hnew : ∀ t ∈ creationTask o, t ∉ ts.map Prod.fst) :
    ∃ b, a.exec o = some b ∧ Initialising b (ts ++ (acceptedTask o).toList) := by
  cases o with
  | createTask task start size entry p =>
    have hrefused : (a.eosCreateTask task start size entry p).map Prod.snd = some a →
        acceptedTask (.createTask task start size entry p) = none →
        ∃ b, a.exec (.createTask task start size entry p) = some b ∧
          Initialising b (ts ++ (acceptedTask (.createTask task start size entry p)).toList) := by
      intro heq hacc
      refine ⟨a, heq, ?_⟩
      rw [hacc, Option.toList_none, List.append_nil]
      exact h
    cases task with
    | none => exact hrefused rfl rfl
    | some t =>
      by_cases he : entry = 0
      · exact hrefused (by simp [Kernel.eosCreateTask, he]) (if_pos (.inl he))
      by_cases hp : p > lowestPriority
      · exact hrefused (by simp [Kernel.eosCreateTask, he, hp]) (if_pos (.inr (.inl hp)))
      by_cases hst : start = 0 ∨ size < minStackSize
      · exact hrefused (by simp [Kernel.eosCreateTask, he, hp, hst]) (if_pos (.inr (.inr hst)))
      have hacc : acceptedTask (.createTask (some t) start size entry p) = some (t, p) :=
        if_neg fun hbad => hbad.elim he fun hbad => hbad.elim hp hst
      have hz : a.vars.tcb t = .zero := h.fresh t (hnew t rfl)
      have hf : ¬Linked a.queue t :=
        h.consistent.free (by rw [Kernel.status, hz]; decide) (by rw [Kernel.status, hz]; decide)
      obtain ⟨b, hb, hready⟩ := eosCreateTask_ready hf h.lock he (Nat.not_lt.mp hp) hst
      obtain ⟨m, hm, hmoved, -, -, -⟩ :=
        eosCreateTask_moved h.consistent hz he (Nat.not_lt.mp hp) hst
      rw [eosSchedule_locked (hmoved.lock.trans h.lock), hb, Option.some.injEq] at hm
      subst hm
      refine ⟨b, hb, hmoved.consistent, hmoved.lock.trans h.lock,
        hmoved.currentTask.trans h.current, fun q => ?_, fun u hu => ?_⟩
      · rw [hready, h.ready, hacc, ofPriority_append, Option.toList_some, ofPriority_singleton]
      · rw [hacc, Option.toList_some, List.map_append, List.mem_append, not_or] at hu
        rw [hmoved.others u fun e => hu.2 (List.mem_singleton.mpr e)]
        exact h.fresh u hu.1
  | _ => cases ho

omit [DecidableEq T] [Fintype T] in
/-- The task that is accepted is the one that is given. -/
theorem acceptedTask_sublist (o : Op T) :
    ((acceptedTask o).toList.map Prod.fst).Sublist (creationTask o).toList := by
  cases o with
  | createTask task start size entry p =>
    cases task with
    | none => exact .refl _
    | some t =>
      by_cases hbad : entry = 0 ∨ p > lowestPriority ∨ start = 0 ∨ size < minStackSize
      · rw [acceptedTask, if_pos hbad]
        exact List.nil_sublist _
      · rw [acceptedTask, if_neg hbad]
        exact .refl _
  | _ => exact List.nil_sublist _

omit [DecidableEq T] [Fintype T] in
/-- What a first call adds is in front. -/
theorem filterMap_cons_toList {X : Type} (f : Op T → Option X) (o : Op T) (os : List (Op T)) :
    (o :: os).filterMap f = (f o).toList ++ os.filterMap f := by
  rw [List.filterMap_cons]
  cases f o <;> rfl

/-- **`eos_user_main`** may call `eos_create_task` any number of times, on different TCBs. -/
theorem creations_run {os : List (Op T)} {k : Kernel LinkMem T} (hr : Repr k a)
    (h : Initialising a ts) (hos : ∀ o ∈ os, isCreation o = true)
    (hnew : (ts.map Prod.fst ++ os.filterMap creationTask).Nodup) :
    ∃ k' a', runList (fun k o => if Creates k o then k.exec o else none) k os = some k' ∧
      Repr k' a' ∧ Initialising a' (ts ++ os.filterMap acceptedTask) := by
  induction os generalizing k a ts with
  | nil => exact ⟨k, a, rfl, hr, by rwa [List.filterMap_nil, List.append_nil]⟩
  | cons o os ih =>
    have ho : isCreation o = true := hos o List.mem_cons_self
    have hnewTask : ∀ t ∈ creationTask o, t ∉ ts.map Prod.fst := by
      intro t ht hmem
      refine (List.nodup_append.mp hnew).2.2 t hmem t ?_ rfl
      exact List.mem_filterMap.mpr ⟨o, List.mem_cons_self, ht⟩
    have hcreates : Creates k o := by
      cases o with
      | createTask task start size entry p =>
        cases task with
        | none => rfl
        | some t =>
          refine decide_eq_true ?_
          rw [hr.vars]
          exact h.fresh t (hnewTask t rfl)
      | _ => cases ho
    obtain ⟨b, hb, hinit⟩ := h.create ho hnewTask
    obtain ⟨k₁, hk₁, hr₁⟩ := exec_refines hr o b hb
    have hrest : ((ts ++ (acceptedTask o).toList).map Prod.fst ++
        os.filterMap creationTask).Nodup := by
      refine hnew.sublist ?_
      rw [filterMap_cons_toList, List.map_append, List.append_assoc]
      exact ((acceptedTask_sublist o).append_right _).append_left _
    obtain ⟨k', a', hrun, hr', h'⟩ :=
      ih hr₁ hinit (fun o' ho' => hos o' (List.mem_cons_of_mem o ho')) hrest
    refine ⟨k', a', ?_, hr', ?_⟩
    · rw [runList, List.foldlM_cons, if_pos hcreates, hk₁]
      exact hrun
    · rw [filterMap_cons_toList, ← List.append_assoc]
      exact h'

/-! ## The start -/

omit [DecidableEq T] [Fintype T] in
/-- The first task of a priority, and those before and behind it. -/
theorem ofPriority_eq_cons {p : Nat} {next : T} {rest : List T}
    (h : ofPriority p ts = next :: rest) :
    ∃ before behind, ts = before ++ (next, p) :: behind ∧ ofPriority p before = [] ∧
      ofPriority p behind = rest := by
  obtain ⟨u, us, hfilter, hu, hus⟩ := List.map_eq_cons_iff.mp h
  obtain ⟨before, behind, hts, hbefore, hp, hbehind⟩ := List.filter_eq_cons_iff.mp hfilter
  have hup : u = (next, p) := by
    rw [← hu, ← of_decide_eq_true hp]
  subst hup
  refine ⟨before, behind, hts, ?_, ?_⟩
  · rw [ofPriority, List.filter_eq_nil_iff.mpr hbefore]
    rfl
  · rw [ofPriority, hbehind, hus]

omit [DecidableEq T] [Fintype T] in
/-- The tasks created so far are READY, with the priorities they were created with. -/
theorem Initialising.status_ready (h : Initialising a ts) {u : T × Nat} (hu : u ∈ ts) :
    a.status u.1 = .ready ∧ a.priority u.1 = u.2 := by
  refine ((h.consistent.placed u.1).ready u.2).mp ?_
  rw [h.ready]
  exact List.mem_map_of_mem (List.mem_filter.mpr ⟨hu, decide_eq_true rfl⟩)

/-- **The start of multitasking** dispatches the first of the most urgent tasks. -/
theorem Initialising.start (h : Initialising a ts) {u : T × Nat} (hu : u ∈ ts) :
    ∃ b next p before behind, a.exec .start = some b ∧ ts = before ++ (next, p) :: behind ∧
      (∀ v ∈ before, p < v.2) ∧ (∀ v ∈ behind, p ≤ v.2) ∧
      b.vars.currentTask = some next ∧ b.status next = .running ∧
      ∀ q, b.queue.ring (.ready q) = ofPriority q (before ++ behind) := by
  have hcons : Consistent (a.setLock unlocked) := h.consistent.congr rfl rfl rfl rfl rfl
  have hready : (a.setLock unlocked).status u.1 = .ready := (h.status_ready hu).1
  obtain ⟨next, hb, ⟨rest, hring⟩, -, hleast⟩ := dispatchNext_eq hcons hready
  have hexec : a.exec .start = (a.setLock unlocked).dispatchNext := by
    have hrequeue : (a.setLock unlocked).requeueCurrent = some (a.setLock unlocked) := by
      rw [Kernel.requeueCurrent, show (a.setLock unlocked).vars.currentTask = none from h.current]
    show (a.setLock unlocked).eosSchedule = _
    have hunlocked : (a.setLock unlocked).vars.schedulerLock ≠ locked :=
      show unlocked ≠ locked by decide
    rw [Kernel.eosSchedule, if_neg hunlocked, hrequeue]
    rfl
  change a.queue.ring (.ready (a.priority next)) = next :: rest at hring
  obtain ⟨before, behind, hts, hbefore, hbehind⟩ :=
    ofPriority_eq_cons ((h.ready _).symm.trans hring)
  have hmin : ∀ v ∈ ts, a.priority next ≤ v.2 := by
    intro v hv
    obtain ⟨hs, hp⟩ := h.status_ready hv
    exact hp ▸ hleast v.1 hs
  refine ⟨_, next, a.priority next, before, behind, hexec.trans hb, hts, fun v hv => ?_,
    fun v hv => ?_, rfl, by simp, fun q => ?_⟩
  · refine lt_of_le_of_ne (hmin v (hts ▸ List.mem_append_left _ hv)) fun hp => ?_
    have hmem : v.1 ∈ ofPriority (a.priority next) before :=
      List.mem_map_of_mem (List.mem_filter.mpr ⟨hv, decide_eq_true hp.symm⟩)
    rw [hbefore] at hmem
    cases hmem
  · exact hmin v (hts ▸ List.mem_append_right before (List.mem_cons_of_mem _ hv))
  · obtain ⟨r, hr⟩ := detachReady_eq (a.setLock unlocked) next
    rw [hr, ofPriority_append]
    show (a.queue.set (.ready (a.priority next)) _).ring (.ready q) = _
    by_cases hq : q = a.priority next
    · subst hq
      simp [hring, hbefore, hbehind]
    · have hne : QueueHead.ready q ≠ .ready (a.priority next) := fun e => hq (QueueHead.ready.inj e)
      rw [Rings.set_ring, Function.update_of_ne hne]
      show a.queue.ring (.ready q) = _
      rw [h.ready, hts, ofPriority_append, ← List.singleton_append, ofPriority_append,
        ofPriority_singleton, if_neg (Ne.symm hq), List.nil_append]

/-- **The first task.**  When `eos_user_main` has made any calls of `eos_create_task` on different
TCBs, refused ones among them, multitasking starts with the task that was created first
among the most urgent ones; the others, the idle task among them, stand in their ready
queues in the order of their creation. -/
theorem multitasking_starts (idle : T) (semaphore : Nat → Semaphore) (condition : Nat → Condition)
    {creations : List (Op T)} (hcalls : ∀ o ∈ creations, isCreation o = true)
    (hnew : (idle :: creations.filterMap creationTask).Nodup) :
    ∃ s next p before behind, boot idle semaphore condition creations = some s ∧
      createdTasks idle creations = before ++ (next, p) :: behind ∧
      (∀ u ∈ before, p < u.2) ∧ (∀ u ∈ behind, p ≤ u.2) ∧
      s.kernel.vars.currentTask = some next ∧ s.kernel.status next = .running ∧
      ∀ q, readyIn s.kernel q = ofPriority q (before ++ behind) := by
  have hzero : Initialising
      ((Kernel.zeroed (Q := Rings) (T := T) semaphore condition).setLock locked) [] :=
    ⟨zeroed_consistent semaphore condition, rfl, rfl, fun _ => rfl, fun _ _ => rfl⟩
  obtain ⟨a₀, ha₀, h₀⟩ := hzero.create (o := .createTask (some idle) 1 8096 1 lowestPriority) rfl
    fun _ _ => List.not_mem_nil
  obtain ⟨k₀, hk₀, hr₀⟩ := osInit_refines idle semaphore condition a₀ ha₀
  obtain ⟨k₁, a₁, hk₁, hr₁, h₁⟩ := creations_run hr₀ h₀ hcalls hnew
  obtain ⟨a, next, p, before, behind, ha, hts, hbefore, hbehind, hcur, hstatus, hready⟩ :=
    h₁.start (u := (idle, lowestPriority)) List.mem_cons_self
  obtain ⟨k, hk, hr⟩ := exec_refines hr₁ .start a ha
  refine ⟨⟨k, fun _ => .user⟩, next, p, before, behind, ?_, hts, hbefore, hbehind, ?_, ?_,
    fun q => ?_⟩
  · unfold boot
    rw [hk₀, Option.bind_eq_bind, Option.bind_some, hk₁, Option.bind_some, hk]
    rfl
  · rw [hr.vars]
    exact hcur
  · rw [hr.status]
    exact hstatus
  · rw [← hready, readyIn]
    exact (hr.queue.ringAt (.ready q)).nodes_eq

/-- The second of four calls is refused, and the fourth creates a task as urgent as the first. -/
theorem multitasking_starts_four :
    ∃ (s : System LinkMem (Fin 5)) (next : Fin 5) (p : Nat) (before behind : List (Fin 5 × Nat)),
      boot 4 (fun _ => ⟨0, 0⟩) (fun _ => ⟨0⟩) [.createTask (some 2) 4096 4096 4096 9,
        .createTask (some 1) 4096 4096 4096 64, .createTask (some 0) 4096 4096 4096 5,
        .createTask (some 3) 4096 4096 4096 5] = some s ∧
      [(4, 63), (2, 9), (0, 5), (3, 5)] = before ++ (next, p) :: behind ∧
      (∀ u ∈ before, p < u.2) ∧ (∀ u ∈ behind, p ≤ u.2) ∧
      s.kernel.vars.currentTask = some next ∧ s.kernel.status next = .running ∧
      ∀ q, readyIn s.kernel q = ofPriority q (before ++ behind) :=
  multitasking_starts 4 (fun _ => ⟨0, 0⟩) (fun _ => ⟨0⟩) (by decide) (by decide)

end Eos.Analysis
