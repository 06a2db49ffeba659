import Eos.Analysis.Twins

/-!
# What the TCB of a new task has held

`eos_create_task` (core/task.c:34-79) does not write the alarm of the TCB, nor its
`wait_queue_owner`.  What they have held is not seen later, unless both links of the node of the
alarm were set: then the first `eos_set_alarm` takes the node out of a list it is not in.

A new task whose owner is `NULL` has two twins, one for each memory.  They stay in lockstep with it
in every run (`created_alike`).
-/

set_option autoImplicit false

namespace Eos.Analysis

open Eos.Lib (LinkMem RingAt Reach runList rel_bind rel_ite exists_of_rel exists_of_rel')
open Eos.Model
open Eos.Interface (Rings Linked Repr exec_refines osInit_refines)

/-! ## The creation of a task -/

section Creation

variable {T : Type} [DecidableEq T] {t : T} {k : Kernel LinkMem T} {a : Kernel Rings T}

/-- Linking a node in overwrites its links. -/
theorem osAddNodeTail_write {H : Type} [DecidableEq H] {m : LinkMem H T} {h : H} {xs : List T}
    (hr : RingAt m h xs) (ht : t ∉ xs) (c : NodeMemory T) :
    osAddNodeTail (c.write m t) h t = osAddNodeTail m h t := by
  have hhead : (c.write m t).head h = xs.head? := hr.head
  unfold osAddNodeTail
  rw [hhead, hr.head]
  cases xs with
  | nil => simp [linkAlone, NodeMemory.write, LinkMem.setHead, LinkMem.setPrev, LinkMem.setNext]
  | cons x xs =>
    have hxt : x ≠ t := fun e => ht (e ▸ List.mem_cons_self)
    obtain ⟨-, p, -, hp⟩ := hr.links (n := x) List.mem_cons_self
    have hnext : Function.update (Function.update (Function.update m.next t c.next) p (some t)) t
        (some x) = Function.update (Function.update m.next p (some t)) t (some x) := by
      funext u
      by_cases hu : u = t
      · simp [hu]
      · by_cases hup : u = p
        · subst hup
          simp [hu]
        · simp [hu, hup]
    simp [linkBefore, NodeMemory.write, LinkMem.setPrev, LinkMem.setNext, hxt, hp, hnext]

/-- What `eos_create_task` writes into a TCB before it links its node. -/
def prepared (k : Kernel LinkMem T) (t : T) (p : Nat) : Kernel LinkMem T :=
  ((k.setTcb t fun b => { b with priority := p, period := 0, wakeupTime := 0 }).setPnode
    t).setOrderVal t p

/-- The priority is that of the call. -/
theorem prepared_priority (k : Kernel LinkMem T) (t : T) (p : Nat) :
    (prepared k t p).priority t = p := by
  simp [prepared, Kernel.priority]

/-- When the task is ready, only its owner and its alarm depend on what the TCB has held. -/
theorem addReady_fill {xs : List T} {p : Nat} (hr : RingAt k.queue (.ready p) xs) (ht : t ∉ xs)
    (c : TcbMemory T) :
    (do let k₁ ← (prepared (k.fill t c) t p).addReady t; return k₁.setStatus t .ready) =
      (do let k₁ ← (prepared (k.setOwner t none) t p).addReady t; return k₁.setStatus t .ready).map
        (recast (c.alarm.write k.timers t) (ownedBy t c.tcb.waitQueueOwner)) := by
  unfold Kernel.addReady Kernel.addNodeTail
  simp only [prepared_priority]
  have hqueue : NodeLists.osAddNodeTail (prepared (k.fill t c) t p).queue (.ready p) t =
      NodeLists.osAddNodeTail (prepared (k.setOwner t none) t p).queue (.ready p) t :=
    osAddNodeTail_write hr ht c.queueNode
  rw [hqueue]
  cases NodeLists.osAddNodeTail (prepared (k.setOwner t none) t p).queue (.ready p) t with
  | none => rfl
  | some q =>
    refine congrArg some ?_
    simp only [prepared, recast, Kernel.fill, Kernel.setOwner, Kernel.setStatus, Kernel.setTcb,
      Kernel.setPnode, Kernel.setOrderVal, Kernel.setQueue, Kernel.osSetReady, Kernel.setReadyList,
      Kernel.mk.injEq, Vars.mk.injEq, true_and, and_true]
    refine ⟨?_, ?_, ?_⟩
    all_goals
      funext u
      by_cases hu : u = t
      · subst hu
        simp [ownedBy]
      · simp [ownedBy, hu]

/-- The two tasks become ready in lockstep. -/
theorem addReady_twin {xs ys : List T} {p : Nat} (hr : RingAt k.queue (.ready p) xs) (ht : t ∉ xs)
    {c : TcbMemory T} (hm : SamePending ys k.timers (c.alarm.write k.timers t)) :
    Option.Rel (Twin t)
      (do let k₁ ← (prepared (k.setOwner t none) t p).addReady t; return k₁.setStatus t .ready)
      (do let k₁ ← (prepared (k.fill t c) t p).addReady t; return k₁.setStatus t .ready) := by
  rw [addReady_fill hr ht]
  cases hk : (prepared (k.setOwner t none) t p).addReady t with
  | none => exact .none
  | some k₁ =>
    obtain ⟨k₂, hk₂, hk₁⟩ := Option.bind_eq_some_iff.mp hk
    obtain ⟨q, -, hk₂⟩ := Option.bind_eq_some_iff.mp hk₂
    cases hk₂
    cases hk₁
    refine .some ⟨_, _, rfl, ⟨ys, hm⟩, .inr ?_⟩
    simp [prepared, Kernel.osSetReady, Kernel.waitQueueOwner]

/-- **`eos_create_task`** on a TCB with any contents, of which one link of the alarm is `NULL`, does
the same as on one whose owner is `NULL` (core/task.c:34-79). -/
theorem eosCreateTask_twin {ys : List T} (hr : ∀ p, ∃ xs, RingAt k.queue (.ready p) xs ∧ t ∉ xs)
    {c : TcbMemory T} (hm : SamePending ys k.timers (c.alarm.write k.timers t))
    (start size entry : UInt64) (p : Nat) :
    Option.Rel (fun r r' => r'.1 = r.1 ∧ (r.1 = 0 → Twin t r.2 r'.2))
      ((k.setOwner t none).eosCreateTask (some t) start size entry p)
      ((k.fill t c).eosCreateTask (some t) start size entry p) := by
  have herror : errorCode ≠ 0 := by decide
  have hfailed : ∀ {b b' : Kernel LinkMem T}, Option.Rel
      (fun r r' => r'.1 = r.1 ∧ (r.1 = 0 → Twin t r.2 r'.2)) (some (errorCode, b))
        (some (errorCode, b')) := .some ⟨rfl, fun h => absurd h herror⟩
  unfold Kernel.eosCreateTask
  refine rel_ite (fun _ => hfailed) fun _ => rel_ite (fun _ => hfailed) fun _ =>
    rel_ite (fun _ => hfailed) fun _ => ?_
  obtain ⟨xs, hxs, ht⟩ := hr p
  have hready := addReady_twin hxs ht hm
  have hrest := rel_bind hready fun _ _ _ h => rel_bind h.eosSchedule fun b b' _ h =>
    (.some ⟨rfl, fun _ => h⟩ : Option.Rel (fun (r r' : UInt32 × Kernel LinkMem T) =>
      r'.1 = r.1 ∧ (r.1 = 0 → Twin t r.2 r'.2)) (some (0, b)) (some (0, b')))
  rw [bind_assoc, bind_assoc] at hrest
  exact hrest

omit [DecidableEq T] in
/-- The memory of a run shows the pending alarms. -/
theorem samePending_refl (hr : Repr k a) (h : AlarmsOk a.timers) :
    SamePending (a.timers.alarmQueue.ring systemTimer) k.timers k.timers := by
  have hlist : AlarmList k.timers.alarmQueue (a.timers.alarmQueue.ring systemTimer) := by
    refine ⟨hr.alarms.ringAt systemTimer, fun u hu => .inl ?_⟩
    exact hr.alarms.next_eq_none_iff.mpr fun c hc => hu (h.counter c u hc ▸ hc)
  refine ⟨hlist, hlist, rfl, fun u hu => ⟨rfl, rfl, rfl, ?_, rfl⟩⟩
  rw [hr.fields, h.pnode u ⟨systemTimer, hu⟩]
  exact ⟨rfl, rfl⟩

end Creation

/-! ## Runs -/

section Runs

variable {T : Type} [DecidableEq T] [Fintype T] {idle t : T} {s s' : System LinkMem T}
  {x : System Rings T}

/-- The calls before multitasking starts, and its start. -/
def BeforeStart (idle : T) (s : System LinkMem T) (call : Call T) : Prop :=
  s.kernel.vars.schedulerLock = locked ∧
    match call with
    | .kernel o => (o = .start ∨ isTaskCall o = true) ∧ Admitted idle s.kernel.vars o
    | .release _ => True
    | _ => False

instance (idle : T) (s : System LinkMem T) : DecidablePred (BeforeStart idle s)
  | .kernel o => inferInstanceAs (Decidable (s.kernel.vars.schedulerLock = locked ∧
      (o = .start ∨ isTaskCall o = true) ∧ Admitted idle s.kernel.vars o))
  | .release _ => inferInstanceAs (Decidable (s.kernel.vars.schedulerLock = locked ∧ True))
  | .acquire _ _ | .waitCondition _ _ | .notifyCondition _ | .goOn =>
    inferInstanceAs (Decidable (s.kernel.vars.schedulerLock = locked ∧ False))

/-- The steps of a run from `_os_init` on. -/
def Allowed (idle : T) (s : System LinkMem T) (call : Call T) : Prop :=
  Admissible idle s call ∨ BeforeStart idle s call

instance (idle : T) (s : System LinkMem T) : DecidablePred (Allowed idle s) := fun _ =>
  inferInstanceAs (Decidable (_ ∨ _))

/-- A state of a run from `_os_init` on. -/
def Reached (idle : T) (s : System LinkMem T) : Prop :=
  ∃ semaphore condition k₀, Kernel.osInit idle semaphore condition = some k₀ ∧
    Reach System.exec (Allowed idle) ⟨k₀, fun _ => .user⟩ s

/-- Such a step keeps the invariant. -/
theorem SystemOk.allowed (h : SystemOk idle s x) {call : Call T} (ho : Allowed idle s call)
    (hs' : s.exec call = some s') : ∃ x', SystemOk idle s' x' := by
  obtain ho | ⟨-, ho⟩ := ho
  · exact (call_advance h ho hs').imp fun _ => And.left
  · cases call with
    | kernel o =>
      obtain ⟨-, ho⟩ := ho
      rw [h.kernel.vars] at ho
      obtain ⟨k', hk', hs'⟩ := Option.bind_eq_some_iff.mp hs'
      cases hs'
      by_cases hot : o = .tick
      · subst hot
        obtain ⟨b, -, hr, hadv⟩ := tick_simulates h.kernel h.scheduled hk'
        exact ⟨⟨b, x.resume⟩, ⟨hr, h.resume⟩, hadv.scheduled, h.idleUser⟩
      · obtain ⟨b, hb, hstep⟩ := exec_step h.scheduled ho hot
        obtain ⟨k'', hk'', hr⟩ := exec_refines h.kernel o b hb
        obtain rfl : k'' = k' := Option.some.inj (hk''.symm.trans hk')
        exact ⟨⟨b, x.resume⟩, ⟨hr, h.resume⟩, hstep.scheduled, h.idleUser⟩
    | release sem =>
      obtain ⟨k', hk', hs'⟩ := Option.bind_eq_some_iff.mp hs'
      cases hs'
      obtain ⟨b, hb, hadv, -⟩ := h.scheduled.release_advance sem
      obtain ⟨k'', hk'', hr⟩ := h.kernel.eosReleaseSemaphore sem b hb
      obtain rfl : k'' = k' := Option.some.inj (hk''.symm.trans hk')
      exact ⟨⟨b, x.resume⟩, ⟨hr, h.resume⟩, hadv.scheduled, h.idleUser⟩
    | _ => exact absurd ho id

/-- The states of a run keep the invariant. -/
theorem Reached.systemOk (h : Reached idle s) : ∃ x, SystemOk idle s x := by
  obtain ⟨semaphore, condition, k₀, hk₀, hrun⟩ := h
  obtain ⟨a₀, ha₀, hs₀, -⟩ := osInit_running idle semaphore condition
  obtain ⟨k, hk, hr⟩ := osInit_refines idle semaphore condition a₀ ha₀
  obtain rfl : k = k₀ := Option.some.inj (hk.symm.trans hk₀)
  have hstart : ∃ x, SystemOk idle ⟨k, fun _ => .user⟩ x :=
    ⟨⟨a₀, fun _ => .user⟩, ⟨hr, rfl⟩, hs₀, rfl⟩
  exact hrun.invariant (I := fun s => ∃ x, SystemOk idle s x) hstart
    fun _ _ _ ⟨_, hx⟩ ho hv => hx.allowed ho hv

omit [Fintype T] in
/-- A zeroed TCB is one in both kernels. -/
theorem Twin.zero {k k' : Kernel LinkMem T} (h : Twin t k k') {u : T}
    (hu : k'.vars.tcb u = .zero) : k.vars.tcb u = .zero := by
  obtain ⟨m, w, rfl, -, hw⟩ := h
  change ownedBy t w u (k.vars.tcb u) = .zero at hu
  unfold ownedBy at hu
  split at hu
  · next hut =>
    subst hut
    have hnone : w = none := congrArg Tcb.waitQueueOwner hu
    have howner : (k.vars.tcb u).waitQueueOwner = none := by
      obtain hw | hw := hw
      · exact hw.symm.trans hnone
      · exact hw
    rw [← hu, hnone, ← howner]
  · exact hu

omit [Fintype T] in
/-- What is allowed in a system is allowed in its twin with a `NULL` owner. -/
theorem TwinSystem.allowed (h : TwinSystem t s s') {call : Call T} (ho : Allowed idle s' call) :
    Allowed idle s call := by
  have hlock := h.kernel.schedulerLock
  have hcur := h.kernel.currentTask
  have huser : inUser s' = inUser s := by
    unfold inUser
    rw [hcur, h.resume]
  have hadmitted : ∀ o : Op T, isTaskCall o = true ∨ o = .start → Admitted idle s'.kernel.vars o →
      Admitted idle s.kernel.vars o := by
    intro o hcall ho
    cases o with
    | createTask task =>
      cases task with
      | none => rfl
      | some u => exact decide_eq_true (h.kernel.zero (of_decide_eq_true ho))
    | sleep tick =>
      unfold Admitted at ho ⊢
      rwa [hcur] at ho
    | waitInQueue q queueType => cases hcall <;> contradiction
    | _ => exact ho
  unfold Allowed Admissible BeforeStart at ho ⊢
  rw [hlock, huser, hcur] at ho
  cases call with
  | kernel o =>
    obtain ⟨hl, hcall, ho, hu⟩ | ⟨hl, hcall, ho⟩ := ho
    · exact .inl ⟨hl, hcall, hadmitted o (.inl hcall) ho, hu⟩
    · exact .inr ⟨hl, hcall, hadmitted o hcall.symm ho⟩
  | _ => exact ho

/-- A run of allowed calls. -/
def runAllowed (idle : T) (s : System LinkMem T) (calls : List (Call T)) :
    Option (System LinkMem T) :=
  runList (fun s call => if Allowed idle s call then s.exec call else none) s calls

/-- **Runs in lockstep**: two systems that both differ from a third one in what a new TCB holds
make the same runs. -/
theorem run_alike {s₁ s₂ : System LinkMem T} (hs : SystemOk idle s x) (h₁ : TwinSystem t s s₁)
    (h₂ : TwinSystem t s s₂) {calls : List (Call T)} {u₁ : System LinkMem T}
    (hrun : runAllowed idle s₁ calls = some u₁) :
    ∃ u y u₂, SystemOk idle u y ∧ TwinSystem t u u₁ ∧ TwinSystem t u u₂ ∧
      runList System.exec s₂ calls = some u₂ := by
  induction calls generalizing s x s₁ s₂ with
  | nil =>
    cases hrun
    exact ⟨s, x, s₂, hs, h₁, h₂, rfl⟩
  | cons call calls ih =>
    simp only [runAllowed, runList, List.foldlM_cons] at hrun
    obtain ⟨v₁, hv₁, hrun⟩ := Option.bind_eq_some_iff.mp hrun
    split at hv₁
    · next ho =>
      obtain ⟨v, hv, hvv₁⟩ := exists_of_rel (h₁.exec hs call) hv₁
      obtain ⟨v₂, hv₂, hvv₂⟩ := exists_of_rel' (h₂.exec hs call) hv
      obtain ⟨y, hy⟩ := hs.allowed (h₁.allowed ho) hv
      obtain ⟨u, z, u₂, hu, hu₁, hu₂, hrun₂⟩ := ih hy hvv₁ hvv₂ hrun
      refine ⟨u, z, u₂, hu, hu₁, hu₂, ?_⟩
      simp only [runList, List.foldlM_cons, Option.bind_eq_bind]
      rw [hv₂, Option.bind_some]
      exact hrun₂
    · cases hv₁

/-! ## What is seen of a kernel -/

/-- The same ready queues, the same pending alarms with the same times, and the same current
task. -/
structure SameView (k k' : Kernel LinkMem T) : Prop where
  ready : ∀ p, ∃ xs, RingAt k.queue (.ready p) xs ∧ RingAt k'.queue (.ready p) xs
  alarms : ∃ xs, RingAt k.timers.alarmQueue systemTimer xs ∧
    RingAt k'.timers.alarmQueue systemTimer xs ∧
      ∀ u ∈ xs, k'.timers.fields.timeout u = k.timers.fields.timeout u
  current : k'.vars.currentTask = k.vars.currentTask

omit [Fintype T] in
/-- Two kernels that differ from one in what a creation leaves look the same. -/
theorem Twin.sameView {k k₁ k₂ : Kernel LinkMem T} {a : Kernel Rings T} (hr : Repr k a)
    (h₁ : Twin t k k₁) (h₂ : Twin t k k₂) : SameView k₁ k₂ := by
  obtain ⟨m₁, w₁, rfl, ⟨xs, hm₁⟩, -⟩ := h₁
  obtain ⟨m₂, w₂, rfl, ⟨ys, hm₂⟩, -⟩ := h₂
  obtain rfl : xs = ys := hm₁.left.ring.unique hm₂.left.ring
  refine ⟨fun p => ⟨_, hr.queue.ringAt _, hr.queue.ringAt _⟩,
    ⟨xs, hm₁.right.ring, hm₂.right.ring, fun u hu => ?_⟩, rfl⟩
  exact (hm₂.fields u hu).timeout.trans (hm₁.fields u hu).timeout.symm

/-! ## The creation in a run -/

omit [Fintype T] in
/-- The return code 0 says that the parameters were valid. -/
theorem valid_of_created {k k' : Kernel LinkMem T} {start size entry : UInt64} {p : Nat}
    (h : k.eosCreateTask (some t) start size entry p = some (0, k')) :
    entry ≠ 0 ∧ p ≤ 63 ∧ ¬(start = 0 ∨ size < minStackSize) := by
  have herror : ∀ b : Kernel LinkMem T, some (errorCode, b) ≠ some (0, k') := by
    intro b hb
    have hcode : errorCode = 0 := congrArg Prod.fst (Option.some.inj hb)
    exact absurd hcode (by decide)
  simp only [Kernel.eosCreateTask] at h
  split at h
  · exact absurd h (herror k)
  next he =>
  split at h
  · exact absurd h (herror k)
  next hp =>
  split at h
  · exact absurd h (herror k)
  next hst =>
  exact ⟨he, Nat.not_lt.mp hp, hst⟩

omit [Fintype T] in
/-- The state after the creation of a task keeps the invariant, whatever was in its TCB but for its
owner. -/
theorem SystemOk.created (h : SystemOk idle s x) (hq : ∀ hd, t ∉ x.kernel.queue.ring hd)
    (hnp : ¬Pending x.kernel.timers t) {start size entry : UInt64} {p : Nat}
    {k : Kernel LinkMem T}
    (hk : (s.kernel.setOwner t none).eosCreateTask (some t) start size entry p = some (0, k)) :
    ∃ y, SystemOk idle ⟨k, Function.update s.resume t .user⟩ y := by
  obtain ⟨he, hp, hst⟩ := valid_of_created hk
  have hcons := h.scheduled.toConsistent
  have hfree : ¬Linked x.kernel.queue t := fun ⟨hd, hc⟩ => hq hd hc
  have hd : Detached (x.kernel.setOwner t none) t :=
    (hcons.detached hfree).setTcb _ (hcons.priority t) fun hz => hcons.pnode t hz
  obtain ⟨m, hm, hmv, hready, hnpm, -⟩ := hd.eosCreateTask_moved hnp he hp hst
  have hmoved : Moved x.kernel m t :=
    ⟨hmv.consistent, fun u hu => (hmv.others u hu).trans (by simp [hu]), hmv.wait, hmv.pending,
      hmv.currentTask, hmv.lock, hmv.semaphore, hmv.condition⟩
  obtain ⟨b, hb, hadv, -⟩ := h.scheduled.moved_advance none hmoved (fun _ => .inl hready)
    (fun hr => by rw [hready] at hr; cases hr) (fun q _ hc => absurd hc (hq _))
    fun hc => absurd hc hnpm
  obtain ⟨k', hk', hr⟩ := (h.kernel.setOwner t none).eosCreateTask (some t) start size entry p b
    (hm.trans hb)
  obtain rfl : k = k' := by
    rw [hk] at hk'
    exact Option.some.inj hk'
  refine ⟨⟨b, Function.update x.resume t .user⟩, ⟨hr, ?_⟩, hadv.scheduled, ?_⟩
  · rw [h.resume]
  · by_cases hi : idle = t
    · subst hi
      exact Function.update_self _ _ _
    · exact (Function.update_of_ne hi _ _).trans h.idleUser

/-- **A task behaves the same whatever its TCB has held**, if one link of its alarm was `NULL`: in
memories that differ in the contents of an unlinked TCB only, the successful calls of
`eos_create_task` for it are followed by the same runs. -/
theorem created_alike (hs : Reached idle s) (ht : s.kernel.Unlinked t) {c c' : TcbMemory T}
    (hc : c.alarm.node.next = none ∨ c.alarm.node.prev = none)
    (hc' : c'.alarm.node.next = none ∨ c'.alarm.node.prev = none) {start size entry : UInt64}
    {p : Nat} {s₁ : System LinkMem T}
    (hnew : (s.fill t c).create t start size entry p = some (0, s₁)) :
    ∃ s₂, (s.fill t c').create t start size entry p = some (0, s₂) ∧
      ∀ calls u₁, runAllowed idle s₁ calls = some u₁ →
        ∃ u₂, runList System.exec s₂ calls = some u₂ ∧ SameView u₁.kernel u₂.kernel := by
  obtain ⟨x, hx⟩ := hs.systemOk
  have hq : ∀ hd, t ∉ x.kernel.queue.ring hd := fun hd => ht.1 hd _ (hx.kernel.queue.ringAt hd)
  have hnp : ¬Pending x.kernel.timers t :=
    fun ⟨n, hmem⟩ => ht.2 n _ (hx.kernel.alarms.ringAt n) hmem
  have hsame := samePending_refl hx.kernel hx.scheduled.alarms
  have hfree : t ∉ x.kernel.timers.alarmQueue.ring systemTimer := fun hmem => hnp ⟨_, hmem⟩
  have hready : ∀ p, ∃ xs, RingAt s.kernel.queue (.ready p) xs ∧ t ∉ xs := fun p =>
    ⟨_, hx.kernel.queue.ringAt _, hq _⟩
  have h₁ := eosCreateTask_twin hready (hsame.write hfree hc) start size entry p
  have h₂ := eosCreateTask_twin hready (hsame.write hfree hc') start size entry p
  -- the creation of the task with a `NULL` owner is the third one, which both agree with
  obtain ⟨⟨v, k₁⟩, hk₁, hnew⟩ := Option.bind_eq_some_iff.mp hnew
  cases hnew
  obtain ⟨⟨v, k⟩, hk, hv, htwin₁⟩ := exists_of_rel h₁ hk₁
  obtain rfl : 0 = v := hv
  obtain ⟨⟨v, k₂⟩, hk₂, hv, htwin₂⟩ := exists_of_rel' h₂ hk
  obtain rfl : v = 0 := hv
  obtain ⟨y, hy⟩ := hx.created hq hnp hk
  have hsys₁ : TwinSystem t ⟨k, Function.update s.resume t .user⟩
      ⟨k₁, Function.update s.resume t .user⟩ := ⟨htwin₁ rfl, rfl⟩
  have hsys₂ : TwinSystem t ⟨k, Function.update s.resume t .user⟩
      ⟨k₂, Function.update s.resume t .user⟩ := ⟨htwin₂ rfl, rfl⟩
  refine ⟨⟨k₂, Function.update s.resume t .user⟩, ?_, fun calls u₁ hrun => ?_⟩
  · show (do let r ← (s.kernel.fill t c').eosCreateTask (some t) start size entry p; _) = _
    rw [hk₂]
    rfl
  · obtain ⟨u, z, u₂, hu, hu₁, hu₂, hrun₂⟩ := run_alike hy hsys₁ hsys₂ hrun
    exact ⟨u₂, hrun₂, hu₁.kernel.sameView hu.kernel hu₂.kernel⟩

section Examples

omit [Fintype T] [DecidableEq T] in
/-- A node with a `NULL` link is in no list. -/
theorem unlinked_of_null {k : Kernel LinkMem T} (hq : k.queue.next t = none)
    (hm : k.timers.alarmQueue.next t = none) : k.Unlinked t := by
  constructor
  · intro h xs hr hmem
    obtain ⟨⟨u, -, hu⟩, -⟩ := hr.links hmem
    rw [hq] at hu
    cases hu
  · intro c xs hr hmem
    obtain ⟨⟨u, -, hu⟩, -⟩ := hr.links hmem
    rw [hm] at hu
    cases hu

/-- Task `u` has been created, then task `t` in two memories, and the same calls follow: the system
before `t` was created, and for each memory the return code and the systems before and after the
calls. -/
def comparison (idle u t : T) (c c' : TcbMemory T) (calls : List (Call T)) :
    Option (System LinkMem T × ((UInt32 × System LinkMem T) × System LinkMem T) ×
      (UInt32 × System LinkMem T) × System LinkMem T) := do
  let k ← Kernel.osInit idle (fun _ => ⟨0, 0⟩) fun _ => ⟨0⟩
  let s ← runAllowed idle ⟨k, fun _ => .user⟩ [.kernel (.createTask (some u) 1 4096 1 5)]
  let r₁ ← (s.fill t c).create t 1 4096 1 7
  let r₂ ← (s.fill t c').create t 1 4096 1 7
  return (s, (r₁, ← runAllowed idle r₁.2 calls), r₂, ← runAllowed idle r₂.2 calls)

/-- An evaluated comparison reaches its states. -/
theorem comparison_reached {u : T} {c c' : TcbMemory T} {calls : List (Call T)}
    {r₁ r₂ : UInt32 × System LinkMem T} {u₁ u₂ : System LinkMem T}
    (h : comparison idle u t c c' calls = some (s, (r₁, u₁), r₂, u₂)) :
    Reached idle s ∧ (s.fill t c).create t 1 4096 1 7 = some r₁ ∧
      (s.fill t c').create t 1 4096 1 7 = some r₂ ∧ runAllowed idle r₁.2 calls = some u₁ ∧
        runAllowed idle r₂.2 calls = some u₂ := by
  simp only [comparison, Option.bind_eq_bind, Option.bind_eq_some_iff] at h
  obtain ⟨k, hk, s', hs, r₁', hr₁, r₂', hr₂, u₁', hu₁, u₂', hu₂, h⟩ := h
  cases h
  exact ⟨⟨_, _, k, hk, .of_runList hs⟩, hr₁, hr₂, hu₁, hu₂⟩

/-- A TCB with a stale owner and alarm, one link of which is `NULL`, and zeroed memory. -/
theorem created_alike_stale : ∃ (s s₁ : System LinkMem (Fin 3)) (c : TcbMemory (Fin 3))
    (calls : List (Call (Fin 3))), c.tcb.waitQueueOwner = some (.semaphore 0) ∧
      c.alarm.node.prev = some 0 ∧ calls.length = 6 ∧
      (s.fill 1 c).create 1 1 4096 1 7 = some (0, s₁) ∧
      ∃ s₂, (s.fill 1 .zero).create 1 1 4096 1 7 = some (0, s₂) ∧
        ∃ u₁ u₂, runAllowed 2 s₁ calls = some u₁ ∧ runList System.exec s₂ calls = some u₂ ∧
          SameView u₁.kernel u₂.kernel := by
  let c : TcbMemory (Fin 3) :=
    ⟨⟨.suspended, 9, 5, 6, some (.semaphore 0)⟩,
      ⟨77, some (.user 3), some 0, ⟨some 0, none, some 0, 4⟩⟩, ⟨some 0, some 0, some 2, 8⟩⟩
  let calls : List (Call (Fin 3)) :=
    [.kernel .start, .kernel (.sleep 1), .kernel (.sleep 5), .kernel .tick, .acquire 0 3,
      .kernel .tick]
  obtain ⟨⟨s, ⟨⟨v₁, s₁⟩, u₁⟩, ⟨v₂, s₂⟩, u₂⟩, hsome, hp⟩ := (Option.any_eq_true _ _).mp
    (show ((comparison (2 : Fin 3) 0 1 c .zero calls).any fun p => p.2.1.1.1 = 0 ∧
      p.1.kernel.queue.next 1 = none ∧ p.1.kernel.timers.alarmQueue.next 1 = none) = true by
        decide +kernel)
  obtain ⟨hv, hq, hm⟩ := of_decide_eq_true hp
  obtain rfl : v₁ = 0 := hv
  obtain ⟨hreached, hr₁, hr₂, hu₁, hu₂⟩ := comparison_reached hsome
  have hc : c.alarm.node.next = none ∨ c.alarm.node.prev = none := .inl rfl
  have hzero : (TcbMemory.zero (T := Fin 3)).alarm.node.next = none ∨
      (TcbMemory.zero (T := Fin 3)).alarm.node.prev = none := .inl rfl
  obtain ⟨s₂, hs₂, hruns⟩ := created_alike hreached (unlinked_of_null hq hm) hc hzero hr₁
  obtain ⟨u₂, hu₂, hview⟩ := hruns calls u₁ hu₁
  exact ⟨s, s₁, c, calls, rfl, rfl, rfl, hr₁, s₂, hs₂, u₁, u₂, hu₁, hu₂, hview⟩

/-- **A task behaves otherwise**: the alarm of its TCB is linked to itself.  The first `eos_sleep`
of the task takes it out of the alarm queue, which is empty then, and the alarm of another task is
lost. -/
theorem created_unlike : ∃ (s s₁ s₂ u₁ u₂ : System LinkMem (Fin 3)) (c : TcbMemory (Fin 3))
    (calls : List (Call (Fin 3))), Reached 2 s ∧ s.kernel.Unlinked 1 ∧
      (s.fill 1 .zero).create 1 1 4096 1 7 = some (0, s₁) ∧
      (s.fill 1 c).create 1 1 4096 1 7 = some (0, s₂) ∧
      runAllowed 2 s₁ calls = some u₁ ∧ runAllowed 2 s₂ calls = some u₂ ∧
      ¬SameView u₁.kernel u₂.kernel := by
  let c : TcbMemory (Fin 3) :=
    { TcbMemory.zero with alarm := ⟨0, none, none, ⟨some 1, some 1, none, 0⟩⟩ }
  let calls : List (Call (Fin 3)) :=
    [.kernel .start, .kernel (.sleep 1), .kernel (.sleep 5), .kernel .tick]
  obtain ⟨⟨s, ⟨⟨v₁, s₁⟩, u₁⟩, ⟨v₂, s₂⟩, u₂⟩, hsome, hp⟩ := (Option.any_eq_true _ _).mp
    (show ((comparison (2 : Fin 3) 0 1 .zero c calls).any fun p => p.2.1.1.1 = 0 ∧
      p.2.2.1.1 = 0 ∧ p.1.kernel.queue.next 1 = none ∧ p.1.kernel.timers.alarmQueue.next 1 = none ∧
        p.2.2.2.kernel.vars.currentTask ≠ p.2.1.2.kernel.vars.currentTask) = true by decide +kernel)
  obtain ⟨hv₁, hv₂, hq, hm, hcur⟩ := of_decide_eq_true hp
  obtain rfl : v₁ = 0 := hv₁
  obtain rfl : v₂ = 0 := hv₂
  obtain ⟨hreached, hr₁, hr₂, hu₁, hu₂⟩ := comparison_reached hsome
  exact ⟨s, s₁, s₂, u₁, u₂, c, calls, hreached, unlinked_of_null hq hm, hr₁, hr₂, hu₁, hu₂,
    fun h => hcur h.current⟩

end Examples

end Runs

end Eos.Analysis
