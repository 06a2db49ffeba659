import Eos.Analysis.AlarmQueue
import Eos.Analysis.Selection
import Eos.Model.HandlerRuns

/-!
# Due alarms behind a switch

The loop of `eos_trigger_counter` handles every alarm that is due, but a handler of the program
may call a routine that switches to another task before the loop has come to its end
(core/timer.c:75-88).  Then this task runs although alarms are due (`noAlarmLeftBehind_violated`).

No alarm is left behind in runs in which such a call only switches to a task's own code when no
other alarm is due, and no due tick wraps around (`noAlarmLeftBehind`).
-/

set_option autoImplicit false

namespace Eos.Analysis

open Eos.Lib (LinkMem RingsOk Reach runList)
open Eos.Model
open Eos.Interface (insertOrdered mem_insertOrdered)

/-! ## The property -/

section Property

/-- No alarm in the queue of the system timer is due. -/
def NoneDue {A F P : Type} (t : Timers LinkMem A F P) : Prop :=
  ∃ ring, RingsOk t.alarmQueue ring ∧
    ∀ a ∈ ring systemTimer, t.fields.tick systemTimer < t.fields.timeout a

variable {T : Type} [DecidableEq T]

/-- The steps of a run: the scheduler is not locked, the tick does not wrap around, and code that is
in a call of the kernel only goes on with it. -/
def HandlerAdmissible (s : HandlerSystem LinkMem T) : HandlerStep T → Prop
  | .call c => s.kernel.vars.schedulerLock = unlocked ∧
    match c with
    | .kernel o => isTaskCall o = true ∧ o ≠ .tick ∧ inUser s.system = true
    | .goOn => True
    | _ => inUser s.system = true
  | .setAlarm .. => inUser s.system = true
  | .interrupt => s.kernel.tick.toNat + 1 < 2 ^ 32
  | .fire | .handlerReturns | .finish => True

instance (s : HandlerSystem LinkMem T) : DecidablePred (HandlerAdmissible s)
  | .call (.kernel o) => inferInstanceAs (Decidable (s.kernel.vars.schedulerLock = unlocked ∧
      isTaskCall o = true ∧ o ≠ .tick ∧ inUser s.system = true))
  | .call .goOn => inferInstanceAs (Decidable (s.kernel.vars.schedulerLock = unlocked ∧ True))
  | .call (.acquire ..) | .call (.release _) | .call (.waitCondition ..)
  | .call (.notifyCondition _) => inferInstanceAs
      (Decidable (s.kernel.vars.schedulerLock = unlocked ∧ inUser s.system = true))
  | .setAlarm .. => inferInstanceAs (Decidable (inUser s.system = true))
  | .interrupt => inferInstanceAs (Decidable (s.kernel.tick.toNat + 1 < 2 ^ 32))
  | .fire | .handlerReturns | .finish => .isTrue trivial

variable [Fintype T]

/-- In every run from `s₀`, no alarm is due while a task, and not the timer handler, executes. -/
def NoAlarmLeftBehind (ok : HandlerSystem LinkMem T → HandlerStep T → Prop)
    (s₀ : HandlerSystem LinkMem T) : Prop :=
  ∀ s t, Reach HandlerSystem.exec ok s₀ s → s.kernel.vars.currentTask = some t →
    s.frames t = [] → NoneDue s.kernel.timers

/-- What `eos_user_main` may do: create tasks and set alarms. -/
def Prepares (s : HandlerSystem LinkMem T) : HandlerStep T → Prop
  | .call (.kernel o) => Creates s.kernel o
  | .setAlarm .. => True
  | _ => False

instance (s : HandlerSystem LinkMem T) : DecidablePred (Prepares s)
  | .call (.kernel o) => inferInstanceAs (Decidable (Creates s.kernel o))
  | .setAlarm .. => .isTrue trivial
  | .call (.acquire ..) | .call (.release _) | .call (.waitCondition ..)
  | .call (.notifyCondition _) | .call .goOn | .interrupt | .fire | .handlerReturns
  | .finish => .isFalse id

/-- A system in which multitasking has just started (core/init.c:22-44). -/
def Started (idle : T) (s : HandlerSystem LinkMem T) : Prop :=
  ∃ semaphore condition k₀ s₁, Kernel.osInit idle semaphore condition = some k₀ ∧
    Reach HandlerSystem.exec Prepares ⟨⟨k₀, fun _ => .user⟩, fun _ => []⟩ s₁ ∧
      s₁.exec (.call (.kernel .start)) = some s

/-- An alarm for `timeout` ticks from now is due before the tick wraps around. -/
def DueFits {Q : Type → Type → Type} (k : Kernel Q T) (timeout : UInt32) : Prop :=
  k.tick.toNat + timeout.toNat < 2 ^ 32

instance {Q : Type → Type → Type} (k : Kernel Q T) : DecidablePred (DueFits k) := fun timeout =>
  inferInstanceAs (Decidable (k.tick.toNat + timeout.toNat < 2 ^ 32))

/-- If a call leads to a task that is in its own code, then the alarm that it sets is due before the
tick wraps around, and no alarm is due when a handler makes the call. -/
def Careful (s : HandlerSystem LinkMem T) : HandlerStep T → Prop
  | .call c => (∀ t ∈ selects s.system c, s.frames t = []) →
    Arms s.kernel (DueFits s.kernel) c ∧
      (s.frame ≠ none → expiredAlarm s.kernel.timers systemTimer = none)
  | .setAlarm _ timeout entry _ =>
    s.frame = none → timeout = 0 ∨ entry.isNone ∨ DueFits s.kernel timeout
  | _ => True

instance (s : HandlerSystem LinkMem T) : DecidablePred (Careful s)
  | .call c => inferInstanceAs (Decidable ((∀ t ∈ selects s.system c, s.frames t = []) →
      Arms s.kernel (DueFits s.kernel) c ∧
        (s.frame ≠ none → expiredAlarm s.kernel.timers systemTimer = none)))
  | .setAlarm _ timeout entry _ => inferInstanceAs
      (Decidable (s.frame = none → timeout = 0 ∨ entry.isNone ∨ DueFits s.kernel timeout))
  | .interrupt | .fire | .handlerReturns | .finish => .isTrue trivial

end Property

/-! ## The queue by due ticks -/

section Queue

variable {A F P : Type} [DecidableEq A]

/-- The queue of the system timer, sorted by the ticks at which its alarms are due. -/
structure DueOrdered (t : Timers LinkMem A F P) (ring : Nat → List A) : Prop
    extends Timed t ring where
  sorted : (ring systemTimer).Pairwise fun a b => t.fields.timeout a ≤ t.fields.timeout b

variable {t t' : Timers LinkMem A F P} {ring : Nat → List A} {a : A}

/-- A queue without one of its alarms is still sorted. -/
theorem DueOrdered.remove (h : DueOrdered t ring) (a : A) :
    DueOrdered { t with alarmQueue := (osRemoveNode t.alarmQueue systemTimer a).1 }
      (Function.update ring systemTimer ((ring systemTimer).erase a)) where
  toTimed := h.toTimed.remove a
  sorted := by
    rw [Function.update_self]
    exact h.sorted.sublist List.erase_sublist

omit [DecidableEq A] in
/-- The next tick. -/
theorem DueOrdered.incrementTick (h : DueOrdered t ring) :
    DueOrdered (incrementTick t systemTimer) ring :=
  ⟨⟨h.rings, h.other, h.pnode, h.orderVal⟩, h.sorted⟩

omit [DecidableEq A] in
/-- The loop ends when no alarm is due. -/
theorem DueOrdered.expiredAlarm_eq_none (h : DueOrdered t ring)
    (he : expiredAlarm t systemTimer = none) :
    ∀ a ∈ ring systemTimer, t.fields.tick systemTimer < t.fields.timeout a :=
  later_of_expiredAlarm (h.rings.head systemTimer) (fun a ha => h.pnode a ha) h.sorted he

/-- **`eos_set_alarm`** keeps the queue sorted, and no other alarm enters it or moves. -/
theorem DueOrdered.eosSetAlarm [Fintype A] (h : DueOrdered t ring) {timeout : UInt32}
    {entry : Option F} {arg : Option P}
    (ht : Model.eosSetAlarm t systemTimer a timeout entry arg = some t') :
    ∃ ring', DueOrdered t' ring' ∧ t'.fields.tick = t.fields.tick ∧
      ∀ b ∈ ring' systemTimer,
        b ≠ a ∧ b ∈ ring systemTimer ∧ t'.fields.timeout b = t.fields.timeout b ∨
          b = a ∧ ¬(timeout = 0 ∨ entry.isNone) ∧
            t'.fields.timeout b = t.fields.tick systemTimer + timeout := by
  have hne : ∀ b ∈ (ring systemTimer).erase a, b ≠ a := fun b hb e =>
    (h.rings.nodup systemTimer).not_mem_erase (e ▸ hb)
  obtain ⟨hf, htimed⟩ | ⟨hc, hset, htimed⟩ := h.toTimed.eosSetAlarm_cases ht
  · refine ⟨_, ⟨htimed, ?_⟩, by rw [hf], fun b hb => .inl ?_⟩
    · rw [hf, Function.update_self]
      exact h.sorted.sublist List.erase_sublist
    · rw [Function.update_self] at hb
      exact ⟨hne b hb, List.mem_of_mem_erase hb, by rw [hf]⟩
  · have hother : ∀ b ∈ (ring systemTimer).erase a,
        b ∈ ring systemTimer ∧ t'.fields.timeout b = t.fields.timeout b := by
      intro b hb
      refine ⟨List.mem_of_mem_erase hb, ?_⟩
      rw [hset.timeout, Function.update_of_ne (hne b hb)]
    have hkey : ∀ b, b = a ∨ b ∈ (ring systemTimer).erase a →
        t'.fields.orderVal b = (t'.fields.timeout b).toNat := by
      intro b hb
      apply htimed.orderVal
      rw [Function.update_self, mem_insertOrdered]
      exact hb
    refine ⟨_, ⟨htimed, ?_⟩, hset.tick, fun b hb => ?_⟩
    · rw [Function.update_self]
      apply pairwise_insertOrdered (h.sorted.sublist List.erase_sublist)
      · intro x hx y hy hxy
        rw [hkey x (.inr hx), hkey y (.inr hy), (hother x hx).2, (hother y hy).2]
        exact UInt32.le_iff_toNat_le.mp hxy
      · intro x hx y hy hxy
        rw [(hother x hx).2, (hother y hy).2]
        exact hxy
      · intro x hx hle
        rw [hkey x (.inr hx), hkey a (.inl rfl)] at hle
        exact UInt32.le_iff_toNat_le.mpr hle
      · intro x hx hlt
        rw [hkey x (.inr hx), hkey a (.inl rfl)] at hlt
        exact UInt32.le_iff_toNat_le.mpr hlt.le
    · rw [Function.update_self, mem_insertOrdered] at hb
      obtain rfl | hb := hb
      · exact .inr ⟨rfl, hc, by rw [hset.timeout, Function.update_self]⟩
      · exact .inl ⟨hne b hb, hother b hb⟩

end Queue

/-! ## Steps -/

section Steps

variable {T : Type} [DecidableEq T] [Fintype T] {s s' : HandlerSystem LinkMem T}
  {ring : Nat → List T} {idle t : T}

/-- A due tick that does not wrap around is a later one. -/
theorem lt_add_of_fits {tick timeout : UInt32} (h0 : timeout ≠ 0)
    (hfit : tick.toNat + timeout.toNat < 2 ^ 32) : tick < tick + timeout := by
  have hpos : timeout.toNat ≠ 0 := fun h => h0 (UInt32.toNat_inj.mp h)
  rw [UInt32.lt_iff_toNat_lt, UInt32.toNat_add, Nat.mod_eq_of_lt hfit]
  omega

/-- What is set is not due if its due tick does not wrap around. -/
theorem DueOrdered.sets {m m' : Timers LinkMem T Handler T} (h : DueOrdered m ring)
    {d : UInt32 → Prop} (hs : SetsAlarm d m m') :
    ∃ ring', DueOrdered m' ring' ∧ m'.fields.tick = m.fields.tick ∧
      ((∀ timeout, d timeout → (m.fields.tick systemTimer).toNat + timeout.toNat < 2 ^ 32) →
        (∀ a ∈ ring systemTimer, m.fields.tick systemTimer < m.fields.timeout a) →
          ∀ a ∈ ring' systemTimer, m'.fields.tick systemTimer < m'.fields.timeout a) := by
  obtain rfl | ⟨a, timeout, entry, arg, hd, hs⟩ := hs
  · exact ⟨ring, h, rfl, fun _ hnone => hnone⟩
  · obtain ⟨ring', h', htick, hmem⟩ := h.eosSetAlarm hs
    refine ⟨ring', h', htick, fun hfit hnone b hb => ?_⟩
    rw [htick]
    obtain ⟨-, hb, hsame⟩ | ⟨-, hc, hdue⟩ := hmem b hb
    · rw [hsame]
      exact hnone b hb
    · rw [hdue]
      exact lt_add_of_fits (not_or.mp hc).1 (hfit timeout hd)

omit [DecidableEq T] [Fintype T] in
/-- Timeout 0 asks for no later tick. -/
theorem dueFits_zero (k : Kernel LinkMem T) : DueFits k 0 := k.tick.toNat_lt

omit [DecidableEq T] [Fintype T] in
/-- The time to a later tick. -/
theorem dueFits_sub {k : Kernel LinkMem T} {w : UInt32} (hw : k.tick < w) :
    DueFits k (w - k.tick) := by
  have hlt := UInt32.lt_iff_toNat_lt.mp hw
  have hfit := w.toNat_lt
  rw [DueFits, UInt32.toNat_sub_of_le _ _ (UInt32.le_of_lt hw)]
  omega

omit [Fintype T] in
/-- **The loop of `eos_trigger_counter`** takes alarms out of the queue until none is due
(core/timer.c:75-88). -/
theorem DueOrdered.triggerLoop {k k' : Kernel LinkMem T} (h : DueOrdered k.timers ring) {fuel : Nat}
    (hk : triggerLoop Kernel.timers Kernel.setTimers Kernel.callHandler systemTimer fuel k =
      some k') :
    ∃ ring', DueOrdered k'.timers ring' ∧ k'.timers.fields = k.timers.fields ∧
      ∀ t ∈ ring' systemTimer, t ∈ ring systemTimer ∧ k'.tick < k'.timers.fields.timeout t := by
  -- what is left in the queue was in it
  have hloop : (∃ ring', DueOrdered k'.timers ring' ∧ k'.timers.fields = k.timers.fields ∧
      ∀ t ∈ ring' systemTimer, t ∈ ring systemTimer) ∧
      expiredAlarm k'.timers systemTimer = none := by
    refine triggerLoop_invariant (I := fun u => ∃ ring', DueOrdered u.timers ring' ∧
      u.timers.fields = k.timers.fields ∧ ∀ t ∈ ring' systemTimer, t ∈ ring systemTimer) ?_
      ⟨ring, h, rfl, fun _ => id⟩ hk
    rintro u _ u' alarm queue handler ⟨r, hr, hfields, hmem⟩ - hq rfl - hu'
    cases hq
    have ht := (callHandler_timeless handler _).timers _ _ hu'
    refine ⟨_, (congrArg (DueOrdered · _) ht).mpr (hr.remove alarm), by rw [ht]; exact hfields,
      fun t htr => ?_⟩
    rw [Function.update_self] at htr
    exact hmem t (List.mem_of_mem_erase htr)
  obtain ⟨⟨ring', h', hfields, hmem⟩, hend⟩ := hloop
  exact ⟨ring', h', hfields, fun t ht => ⟨hmem t ht, h'.expiredAlarm_eq_none hend t ht⟩⟩

/-- **A tick** leaves the alarms in the queue that are due later (core/timer.c:60-92). -/
theorem DueOrdered.tick {k k' : Kernel LinkMem T} (h : DueOrdered k.timers ring)
    (hk : k.eosTriggerCounter = some k') :
    ∃ ring', DueOrdered k'.timers ring' ∧ k'.tick = k.tick + 1 ∧
      k'.timers.fields.timeout = k.timers.fields.timeout ∧
      ∀ t ∈ ring' systemTimer, t ∈ ring systemTimer ∧ k'.tick < k'.timers.fields.timeout t := by
  obtain ⟨k₁, hk₁, hk⟩ := Option.bind_eq_some_iff.mp hk
  have ht : k'.timers = k₁.timers := eosSchedule_timeless.timers _ _ hk
  obtain ⟨ring', h', hfields, hmem⟩ := h.incrementTick.triggerLoop hk₁
  unfold Kernel.tick at hmem ⊢
  rw [ht]
  refine ⟨ring', h', ?_, by rw [hfields]; rfl, hmem⟩
  rw [hfields]
  simp only [Kernel.setTimers_timers, Model.incrementTick, Function.update_self]

/-- **The invariant**: the queue is sorted, and no alarm is due outside of the timer handler. -/
structure NoneLeft (s : HandlerSystem LinkMem T) (ring : Nat → List T) : Prop where
  ordered : DueOrdered s.kernel.timers ring
  none_due : s.frame = none →
    ∀ a ∈ ring systemTimer, s.kernel.tick < s.kernel.timers.fields.timeout a

omit [Fintype T] in
/-- The kernel's own handler leaves the current task alone. -/
theorem osWakeupFromAlarmQueue_current {Q : Type → Type → Type} [NodeLists Q] {k k' : Kernel Q T}
    {arg : Option T} (hk : k.osWakeupFromAlarmQueue arg = some k') :
    k'.vars.currentTask = k.vars.currentTask := by
  obtain ⟨t, -, hk⟩ := Option.bind_eq_some_iff.mp hk
  obtain ⟨k₁, hk₁, hk⟩ := Option.bind_eq_some_iff.mp hk
  obtain ⟨k₂, hk₂, hk⟩ := Option.bind_eq_some_iff.mp hk
  cases hk
  have h₂ : k₂.vars.currentTask = k₁.vars.currentTask := by
    obtain ⟨k₃, hk₃, hk₂⟩ := Option.bind_eq_some_iff.mp hk₂
    obtain ⟨queue, -, hk₃⟩ := Option.bind_eq_some_iff.mp hk₃
    cases hk₃
    cases hk₂
    rfl
  have h₁ : k₁.vars.currentTask = k.vars.currentTask := by
    unfold Kernel.leaveWaitQueue at hk₁
    split at hk₁
    · obtain ⟨k₃, hk₃, hk₁⟩ := Option.bind_eq_some_iff.mp hk₁
      obtain ⟨queue, -, hk₃⟩ := Option.bind_eq_some_iff.mp hk₃
      cases hk₃
      cases hk₁
      rfl
    · cases hk₁
      rfl
  exact h₂.trans h₁

/-- A call of the kernel, by a task or by a handler. -/
theorem NoneLeft.call (h : NoneLeft s ring) {c : Call T} (htick : c ≠ .kernel .tick)
    (hc : Careful s (.call c)) (hs' : s.exec (.call c) = some s') :
    ∃ ring', NoneLeft s' ring' := by
  obtain ⟨x, hx, rfl⟩ := HandlerSystem.call_cases hs'
  by_cases hframe : HandlerSystem.frame ⟨x, s.frames⟩ = none
  · have hown : ∀ t ∈ selects s.system c, s.frames t = [] := by
      intro t ht
      have hcur : x.kernel.vars.currentTask = some t := (exec_selects hx).trans ht
      rw [HandlerSystem.frame, hcur, Option.bind_some] at hframe
      exact List.head?_eq_none_iff.mp hframe
    obtain ⟨harms, hnone⟩ := hc hown
    have hsets := call_sets hx htick harms (dueFits_zero s.kernel) fun w => dueFits_sub
    obtain ⟨ring', h', -, hdue⟩ := h.ordered.sets hsets
    refine ⟨ring', h', fun _ => hdue (fun _ hd => hd) ?_⟩
    by_cases hframe₀ : s.frame = none
    · exact h.none_due hframe₀
    · exact h.ordered.expiredAlarm_eq_none (hnone hframe₀)
  · have hsets := call_sets (d := fun _ => True) hx htick (arms_of_forall _ (fun _ => trivial) c)
      trivial fun _ _ => trivial
    obtain ⟨ring', h', -⟩ := h.ordered.sets hsets
    exact ⟨ring', h', fun hn => absurd hn hframe⟩

/-- A call of `eos_set_alarm`. -/
theorem NoneLeft.setAlarm (h : NoneLeft s ring) {alarm : T} {timeout : UInt32}
    {entry : Option Handler} {arg : Option T}
    (hc : Careful s (.setAlarm alarm timeout entry arg))
    (hs' : s.exec (.setAlarm alarm timeout entry arg) = some s') :
    ∃ ring', NoneLeft s' ring' := by
  obtain ⟨m, hm, rfl⟩ := HandlerSystem.setAlarm_cases hs'
  obtain ⟨ring', h', htick, hmem⟩ := h.ordered.eosSetAlarm hm
  refine ⟨ring', h', fun hframe b hb => ?_⟩
  have hframe : s.frame = none := hframe
  show m.fields.tick systemTimer < m.fields.timeout b
  rw [htick]
  obtain ⟨-, hb, hsame⟩ | ⟨-, hset, hdue⟩ := hmem b hb
  · rw [hsame]
    exact h.none_due hframe b hb
  · rw [not_or] at hset
    have hfit := ((hc hframe).resolve_left hset.1).resolve_left hset.2
    rw [hdue]
    exact lt_add_of_fits hset.1 hfit

omit [Fintype T] in
/-- A handler that is called or returns leaves the timer handler in progress. -/
theorem frame_setHandler (hcur : s.kernel.vars.currentTask = some t) {f : TriggerFrame}
    (hf : (s.frames t).head? = some f) (b : Bool) : (s.setHandler t b).frame ≠ none := by
  have hhead : ((s.setHandler t b).frames t).head? = some { f with inHandler := b } := by
    simp only [HandlerSystem.setHandler, Function.update_self, List.head?_modifyHead, hf,
      Option.map_some]
  have hcur' : (s.setHandler t b).kernel.vars.currentTask = some t := hcur
  rw [HandlerSystem.frame, hcur', Option.bind_some, hhead]
  exact Option.some_ne_none _

/-- An alarm fires. -/
theorem NoneLeft.fire (h : NoneLeft s ring) (hs' : s.exec .fire = some s') :
    ∃ ring', NoneLeft s' ring' := by
  obtain ⟨t, hcur, hs'⟩ := Option.bind_eq_some_iff.mp hs'
  split at hs'
  · cases hs'
  · next hloop =>
    obtain ⟨alarm, -, hs'⟩ := Option.bind_eq_some_iff.mp hs'
    unfold HandlerSystem.fire at hs'
    obtain ⟨queue, hqueue, hs'⟩ := Option.bind_eq_some_iff.mp hs'
    cases hqueue
    obtain ⟨handler, -, hs'⟩ := Option.bind_eq_some_iff.mp hs'
    have hr := h.ordered.remove alarm
    obtain ⟨f, hf⟩ : ∃ f, (s.frames t).head? = some f := by
      have hne : s.frame ≠ none := fun hn => hloop (by rw [HandlerSystem.mayCall, hn]; rfl)
      rw [HandlerSystem.frame, hcur, Option.bind_some] at hne
      exact Option.ne_none_iff_exists'.mp hne
    cases handler with
    | osWakeupFromAlarmQueue =>
      obtain ⟨k, hk, hs'⟩ := Option.bind_eq_some_iff.mp hs'
      cases hs'
      have htimers := (osWakeupFromAlarmQueue_timeless _).timers _ _ hk
      have hcur' : k.vars.currentTask = some t := (osWakeupFromAlarmQueue_current hk).trans hcur
      refine ⟨_, (congrArg (DueOrdered · _) htimers).mpr hr, fun hn => ?_⟩
      change k.vars.currentTask.bind _ = none at hn
      rw [hcur', Option.bind_some, show ((s.setKernel k).frames t).head? = some f from hf] at hn
      cases hn
    | user n =>
      cases hs'
      exact ⟨_, hr, fun hn => absurd hn (frame_setHandler (s := s.setKernel _) hcur hf true)⟩

/-- **The step lemma.** -/
theorem NoneLeft.step (h : NoneLeft s ring) {call : HandlerStep T}
    (htick : call ≠ .call (.kernel .tick)) (hc : Careful s call) (hs' : s.exec call = some s') :
    ∃ ring', NoneLeft s' ring' := by
  cases call with
  | call c => exact h.call (fun e => htick (by rw [e])) hc hs'
  | setAlarm => exact h.setAlarm hc hs'
  | interrupt =>
    obtain ⟨t, hcur, hs'⟩ := Option.bind_eq_some_iff.mp hs'
    cases hs'
    refine ⟨ring, h.ordered.incrementTick, fun hn => ?_⟩
    change s.kernel.vars.currentTask.bind _ = none at hn
    rw [hcur, Option.bind_some] at hn
    simp only [Function.update_self, List.head?_cons] at hn
    cases hn
  | fire => exact h.fire hs'
  | handlerReturns =>
    obtain ⟨t, hcur, hs'⟩ := Option.bind_eq_some_iff.mp hs'
    obtain ⟨f, hf, hs'⟩ := Option.bind_eq_some_iff.mp hs'
    split at hs'
    · cases hs'
      exact ⟨ring, h.ordered, fun hn => absurd hn (frame_setHandler hcur hf false)⟩
    · cases hs'
  | finish =>
    obtain ⟨t, hcur, hs'⟩ := Option.bind_eq_some_iff.mp hs'
    obtain ⟨f, hf, hs'⟩ := Option.bind_eq_some_iff.mp hs'
    split at hs'
    · next hend =>
      obtain ⟨k, hk, hs'⟩ := Option.bind_eq_some_iff.mp hs'
      cases hs'
      have htimers := eosSchedule_timeless.timers _ _ hk
      refine ⟨ring, ?_, fun _ => ?_⟩
      · show DueOrdered k.timers ring
        rw [htimers]
        exact h.ordered
      · show ∀ a ∈ ring systemTimer, k.timers.fields.tick systemTimer < k.timers.fields.timeout a
        rw [htimers]
        exact h.ordered.expiredAlarm_eq_none hend.2
    · cases hs'

/-! ## The start -/

/-- What holds while `eos_user_main` runs. -/
structure Preparing (s : HandlerSystem LinkMem T) (ring : Nat → List T) : Prop
    extends NoneLeft s ring where
  tick : s.kernel.tick = 0
  frames : ∀ t, s.frames t = []

omit [DecidableEq T] [Fintype T] in
/-- Without calls in progress, the current task is in its own code. -/
theorem frame_eq_none (hframes : ∀ t, s.frames t = []) : s.frame = none := by
  simp [HandlerSystem.frame, hframes]

/-- A call by a task that sets no other alarm than its arguments say. -/
theorem careful_of_frame (hframe : s.frame = none) {c : Call T}
    (harms : Arms s.kernel (DueFits s.kernel) c) : Careful s (.call c) :=
  fun _ => ⟨harms, fun hne => absurd hframe hne⟩

/-- **The steps of `eos_user_main`**: tick 0 stays, and no handler runs. -/
theorem Preparing.step (h : Preparing s ring) {call : HandlerStep T} (hprep : Prepares s call)
    (hs' : s.exec call = some s') : ∃ ring', Preparing s' ring' := by
  have hframe : s.frame = none := frame_eq_none h.frames
  cases call with
  | call c =>
    cases c with
    | kernel o =>
      cases o with
      | createTask task start size entry p =>
        have hcareful : Careful s (.call (.kernel (.createTask task start size entry p))) :=
          careful_of_frame hframe trivial
        obtain ⟨ring', h'⟩ := h.toNoneLeft.step (by simp) hcareful hs'
        obtain ⟨x, hx, rfl⟩ := HandlerSystem.call_cases hs'
        obtain ⟨k, hk, hx⟩ := Option.bind_eq_some_iff.mp hx
        cases hx
        have htimers := exec_timers (o := .createTask task start size entry p) rfl hk
        refine ⟨ring', h', ?_, h.frames⟩
        rw [← h.tick]
        exact congrArg (fun m => m.fields.tick systemTimer) htimers
      | _ => exact absurd hprep id
    | _ => exact absurd hprep id
  | setAlarm alarm timeout entry arg =>
    have hfits : DueFits s.kernel timeout := by
      rw [DueFits, h.tick]
      simpa using timeout.toNat_lt
    have hcareful : Careful s (.setAlarm alarm timeout entry arg) := fun _ => .inr (.inr hfits)
    obtain ⟨ring', h'⟩ := h.toNoneLeft.step (by simp) hcareful hs'
    obtain ⟨m, hm, rfl⟩ := HandlerSystem.setAlarm_cases hs'
    obtain ⟨-, -, htick, -⟩ := h.ordered.eosSetAlarm hm
    refine ⟨ring', h', ?_, h.frames⟩
    rw [← h.tick]
    exact congrFun htick systemTimer
  | _ => exact absurd hprep id

/-- **When multitasking starts**, no alarm is due. -/
theorem Started.noneLeft (h : Started idle s) : ∃ ring, NoneLeft s ring := by
  obtain ⟨semaphore, condition, k₀, s₁, hk₀, hs₁, hs⟩ := h
  have htimers₀ : k₀.timers = (Kernel.zeroed semaphore condition : Kernel LinkMem T).timers :=
    exec_timers (k := (Kernel.zeroed semaphore condition).setLock locked)
      (o := .createTask (some idle) 1 8096 1 lowestPriority) rfl hk₀
  have hordered₀ : DueOrdered k₀.timers fun _ => [] := by
    rw [htimers₀]
    exact ⟨timed_zeroed semaphore condition, List.Pairwise.nil⟩
  have htick₀ : k₀.tick = 0 := by
    rw [Kernel.tick, htimers₀]
    rfl
  obtain ⟨ring, hring⟩ := hs₁.invariant (I := fun s => ∃ ring, Preparing s ring)
    ⟨fun _ => [], ⟨hordered₀, fun _ a ha => absurd ha List.not_mem_nil⟩, htick₀, fun _ => rfl⟩
    (by
      rintro s s' call ⟨ring, hring⟩ hprep hs'
      exact hring.step hprep hs')
  have hcareful : Careful s₁ (.call (.kernel .start)) :=
    careful_of_frame (frame_eq_none hring.frames) trivial
  exact hring.toNoneLeft.step (by simp) hcareful hs

/-- **No due alarm is left behind** in a run whose steps are all careful. -/
theorem noAlarmLeftBehind {s₀ : HandlerSystem LinkMem T} (h₀ : Started idle s₀) :
    NoAlarmLeftBehind (fun s call => HandlerAdmissible s call ∧ Careful s call) s₀ := by
  intro s t hs hcur hframes
  obtain ⟨ring, hring⟩ := hs.invariant (I := fun s => ∃ ring, NoneLeft s ring) h₀.noneLeft
    (by
      rintro s s' call ⟨ring, hring⟩ ⟨hadm, hcareful⟩ hs'
      refine hring.step ?_ hcareful hs'
      rintro rfl
      exact hadm.2.2.1 rfl)
  have hframe : s.frame = none := by
    rw [HandlerSystem.frame, hcur, Option.bind_some, hframes]
    rfl
  exact ⟨ring, hring.ordered.rings, hring.none_due hframe⟩

end Steps

/-! ## Two runs -/

section Examples

/-- Task `t` has started, and an alarm of the program has been set. -/
def starter {T : Type} [DecidableEq T] [Fintype T] (idle t alarm : T) :
    Option (HandlerSystem LinkMem T) := do
  let k₀ ← Kernel.osInit idle (fun _ => ⟨0, 0⟩) (fun _ => ⟨0⟩)
  let s₁ ← runList (fun s call => if Prepares s call then s.exec call else none)
    ⟨⟨k₀, fun _ => .user⟩, fun _ => []⟩
    [.call (.kernel (.createTask (some t) 4096 4096 4096 3)),
      .setAlarm alarm 1 (some (.user 0)) none]
  s₁.exec (.call (.kernel .start))

/-- The example is one of a system that has just started. -/
theorem starter_started {T : Type} [DecidableEq T] [Fintype T] {idle t alarm : T}
    {s : HandlerSystem LinkMem T} (h : starter idle t alarm = some s) : Started idle s := by
  unfold starter at h
  obtain ⟨k₀, hk₀, h⟩ := Option.bind_eq_some_iff.mp h
  obtain ⟨s₁, hs₁, h⟩ := Option.bind_eq_some_iff.mp h
  exact ⟨_, _, k₀, s₁, hk₀, .of_runList hs₁, h⟩

/-- **An alarm is left behind**: task 0 waits for a semaphore, which the handler of alarm 2
releases; the same tick was to fire alarm 3 as well, but task 0 runs first. -/
theorem noAlarmLeftBehind_violated :
    ∃ s₀ : HandlerSystem LinkMem (Fin 4), Started 1 s₀ ∧
      ¬NoAlarmLeftBehind HandlerAdmissible s₀ := by
  obtain ⟨s₀, s, hs₀, hrun, hcur, hframes, hhead, hdue⟩ :=
    Reach.of_decide HandlerSystem.exec HandlerAdmissible (starter (1 : Fin 4) 0 2)
      [.setAlarm 3 1 (some (.user 1)) none, .call (.acquire 0 0), .interrupt, .fire,
        .call (.release 0)]
      (fun _ s => s.kernel.vars.currentTask = some 0 ∧ s.frames 0 = [] ∧
        s.kernel.timers.alarmQueue.head systemTimer = some 3 ∧
        s.kernel.timers.fields.timeout 3 = s.kernel.timers.fields.tick systemTimer)
      (by decide +kernel)
  refine ⟨s₀, starter_started hs₀, fun h => ?_⟩
  obtain ⟨ring, hrings, hnone⟩ := h s 0 hrun hcur hframes
  have hmem : 3 ∈ ring systemTimer := List.mem_of_mem_head? ((hrings.head _).symm.trans hhead)
  have hlt := hnone 3 hmem
  rw [hdue] at hlt
  exact absurd hlt (UInt32.lt_irrefl _)

/-- The handler of the only alarm releases the semaphore; task 0 runs and waits again, and the loop
ends. -/
theorem noAlarmLeftBehind_alone :
    ∃ s₀ s : HandlerSystem LinkMem (Fin 4), Started 1 s₀ ∧
      Reach HandlerSystem.exec HandlerAdmissible s₀ s ∧ s.kernel.vars.currentTask = some 0 ∧
      s.kernel.tick = 1 ∧ s.frames 1 ≠ [] ∧ NoneDue s.kernel.timers := by
  obtain ⟨s₀, s, hs₀, hrun, hcur, hframes, htick, hwaits⟩ :=
    Reach.of_decide HandlerSystem.exec (fun s call => HandlerAdmissible s call ∧ Careful s call)
      (starter (1 : Fin 4) 0 2)
      [.setAlarm 3 2 (some (.user 1)) none, .call (.acquire 0 0), .interrupt, .fire,
        .call (.release 0)]
      (fun _ s => s.kernel.vars.currentTask = some 0 ∧ s.frames 0 = [] ∧ s.kernel.tick = 1 ∧
        s.frames 1 ≠ []) (by decide +kernel)
  exact ⟨s₀, s, starter_started hs₀, hrun.mono fun _ _ => And.left, hcur, htick, hwaits,
    noAlarmLeftBehind (starter_started hs₀) s 0 hrun hcur hframes⟩

end Examples

end Eos.Analysis
