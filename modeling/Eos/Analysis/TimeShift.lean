import Eos.Analysis.AlarmQueue

/-!
# Shifts of the time

Whether the kernel behaves the same at any time.  Tick values are added modulo `2^32`, but
compared as they are (core/common.c:50-58, core/timer.c:77, core/sync.c:58, core/task.c:242); so
a due tick past the wrap is taken for one that has gone by (`timeShift_violated`).  As long as
a shift carries all values that a call compares past the wrap, or none, it changes nothing
(`timeShift_uniform`).
-/

set_option autoImplicit false

namespace Eos.Analysis

open Eos.Lib (LinkMem RingsOk map_snd_bind₂)
open Eos.Model
open Eos.Interface

/-! ## Comparisons -/

/-- A shift past the wrap or not changes no comparison. -/
theorem add_le_add_iff_of_side {c v w : UInt32}
    (h : 2 ^ 32 ≤ v.toNat + c.toNat ↔ 2 ^ 32 ≤ w.toNat + c.toNat) : v + c ≤ w + c ↔ v ≤ w := by
  have hv := v.toNat_lt
  have hw := w.toNat_lt
  have hc := c.toNat_lt
  rw [UInt32.le_iff_toNat_le, UInt32.le_iff_toNat_le, UInt32.toNat_add, UInt32.toNat_add]
  omega

/-! ## The alarm queue -/

section Alarms

variable {A F P : Type} [DecidableEq A] {t : Timers LinkMem A F P} {ring : Nat → List A}
  {c : UInt32} {a : A}

/-- The fields of an alarm that is set at another time. -/
theorem shift_armed (f : AlarmFields A F P) (counter : Nat) (a : A) (timeout : UInt32)
    (entry : Option F) (arg : Option P) :
    AlarmFields.mk (f.shift c).tick
        (Function.update (f.shift c).timeout a ((f.shift c).tick counter + timeout))
        (Function.update (f.shift c).handler a entry) (Function.update (f.shift c).arg a arg)
        (Function.update (f.shift c).pnode a (some a))
        (Function.update (f.shift c).orderVal a ((f.shift c).tick counter + timeout).toNat) =
      (AlarmFields.mk f.tick (Function.update f.timeout a (f.tick counter + timeout))
        (Function.update f.handler a entry) (Function.update f.arg a arg)
        (Function.update f.pnode a (some a))
        (Function.update f.orderVal a (f.tick counter + timeout).toNat)).shift c := by
  have hdue : f.tick counter + c + timeout = f.tick counter + timeout + c := by
    rw [UInt32.add_assoc, UInt32.add_comm c, UInt32.add_assoc]
  simp only [AlarmFields.shift, AlarmFields.mk.injEq, true_and]
  constructor
  · funext b
    by_cases hb : b = a
    · simp [hb, hdue]
    · simp [hb]
  · funext b
    by_cases hb : b = a
    · simp [hb, hdue]
    · simp [hb]

/-- A queued alarm is among those whose due ticks are compared. -/
theorem Timed.timeout_mem [Fintype A] (h : Timed t ring) (ha : a ∈ ring systemTimer)
    {except : Option A} (hne : some a ≠ except) : t.fields.timeout a ∈ t.dueTicks except :=
  Finset.mem_image_of_mem _ (Finset.mem_filter.mpr ⟨Finset.mem_univ a, hne, h.mem_iff.mp ha⟩)

/-- **`eos_set_alarm` at another time**: the alarm comes to the same place of the queue. -/
theorem Timed.shift_eosSetAlarm [Fintype A] (h : Timed t ring) {timeout : UInt32}
    {entry : Option F} {arg : Option P}
    (hu : ¬(timeout = 0 ∨ entry.isNone) →
      Uniform c (t.queueCompares a (t.fields.tick systemTimer + timeout))) :
    Model.eosSetAlarm (t.shift c) systemTimer a timeout entry arg =
      (Model.eosSetAlarm t systemTimer a timeout entry arg).map (Timers.shift c) := by
  unfold Model.eosSetAlarm
  refine bind_same_eq_map fun m hm => ?_
  have hr := h.remove a
  cases hm
  by_cases hc : timeout = 0 ∨ entry.isNone
  · simp only [if_pos hc]
    rfl
  simp only [if_neg hc]
  have hfields := shift_armed (c := c) t.fields systemTimer a timeout entry arg
  simp only [Timers.shift] at hfields ⊢
  have hcongr : NodeLists.osAddNodeOrdered (osRemoveNode t.alarmQueue systemTimer a).1
      (Function.update (t.fields.shift c).orderVal a
        ((t.fields.shift c).tick systemTimer + timeout).toNat) systemTimer a =
      NodeLists.osAddNodeOrdered (osRemoveNode t.alarmQueue systemTimer a).1
        (Function.update t.fields.orderVal a (t.fields.tick systemTimer + timeout).toNat)
        systemTimer a := by
    apply osAddNodeOrdered_congr hr.rings
    intro x hx
    rw [Function.update_self] at hx
    have hxa : x ≠ a := fun e => (h.rings.nodup systemTimer).not_mem_erase (e ▸ hx)
    have hxr := List.mem_of_mem_erase hx
    have hside := add_le_add_iff_of_side (hu hc _
      (Finset.mem_insert_of_mem (h.timeout_mem hxr fun e => hxa (Option.some.inj e))) _
      (Finset.mem_insert_self ..))
    have hdue : t.fields.tick systemTimer + c + timeout =
        t.fields.tick systemTimer + timeout + c := by
      rw [UInt32.add_assoc, UInt32.add_comm c, UInt32.add_assoc]
    rw [UInt32.le_iff_toNat_le, UInt32.le_iff_toNat_le] at hside
    simp only [AlarmFields.shift, Function.update_self, Function.update_of_ne hxa,
      h.orderVal x hxr, UInt32.ofNat_toNat, hdue]
    exact hside
  rw [hfields, hcongr]
  exact bind_same_eq_map fun _ _ => rfl

/-- The loop of `eos_trigger_counter` sees the same alarm at another time. -/
theorem Timed.shift_expiredAlarm [Fintype A] (h : Timed t ring)
    (hu : Uniform c (insert (t.fields.tick systemTimer) (t.dueTicks none))) :
    expiredAlarm (t.shift c) systemTimer = expiredAlarm t systemTimer := by
  rw [expiredAlarm_eq (t := t.shift c) (h.rings.head systemTimer) h.pnode,
    expiredAlarm_eq (h.rings.head systemTimer) h.pnode]
  cases hr : ring systemTimer with
  | nil => rfl
  | cons a rest =>
    have ha : a ∈ ring systemTimer := by rw [hr]; exact List.mem_cons_self
    have hside : (t.shift c).fields.timeout a ≤ (t.shift c).fields.tick systemTimer ↔
        t.fields.timeout a ≤ t.fields.tick systemTimer :=
      add_le_add_iff_of_side (hu _ (Finset.mem_insert_of_mem (h.timeout_mem ha (by simp))) _
        (Finset.mem_insert_self ..))
    simp only [List.head?_cons, Option.filter, hside]

end Alarms

/-! ## The calls -/

section Calls

variable {T : Type} [DecidableEq T] [Fintype T] {k k' : Kernel LinkMem T} {ring : Nat → List T}
  {c : UInt32}

/-- `eos_set_alarm` sets the shifted alarm if the comparisons of its insertion come out the same. -/
theorem WellTimed.shift_setAlarm (h : WellTimed k) (t : T) {timeout : UInt32}
    {entry : Option Handler} (arg : Option T)
    (hu : ¬(timeout = 0 ∨ entry.isNone) →
      Uniform c (k.timers.queueCompares t (k.tick + timeout))) :
    (k.shift c).setAlarm t timeout entry arg =
      (k.setAlarm t timeout entry arg).map (Kernel.shift c) := by
  obtain ⟨ring, hring⟩ := h
  exact bind_eq_map (hring.shift_eosSetAlarm hu) fun _ _ => rfl

omit [Fintype T] in
/-- A new status. -/
theorem setStatus_shift (k : Kernel LinkMem T) (t : T) (s : Status) :
    (k.shift c).setStatus t s = (k.setStatus t s).shift c :=
  Recast.setStatus (unseen_shift c) (k.timers.shift c) k t s

/-! ### `eos_sleep` -/

/-- The end of `eos_sleep`. -/
theorem WellTimed.shift_sleepFor (h : WellTimed k) (t : T) {timeout : UInt32}
    (hu : timeout ≠ 0 → Uniform c (k.timers.queueCompares t (k.tick + timeout))) :
    (k.shift c).sleepFor t timeout = (k.sleepFor t timeout).map (Kernel.shift c) := by
  refine bind_eq_map (h.shift_setAlarm t (some t) fun hc => hu fun h0 => hc (.inl h0))
    fun k₁ _ => ?_
  rw [setStatus_shift]
  exact eosSchedule_timeless.shift c _

/-- The next wake-up time of a periodic task. -/
def nextPeriod (k : Kernel LinkMem T) (t : T) : Kernel LinkMem T :=
  k.setTcb t fun b => { b with wakeupTime := b.wakeupTime + b.period }

/-- **`eos_sleep` at another time.** -/
theorem WellTimed.shift_eosSleep (h : WellTimed k) {tick : UInt32}
    (hu : ∀ t, k.vars.currentTask = some t → Uniform c (k.sleepCompares t tick)) :
    (k.shift c).eosSleep tick = (k.eosSleep tick).map (Kernel.shift c) := by
  unfold Kernel.eosSleep
  by_cases hl : k.vars.schedulerLock = locked
  · rw [if_pos hl, if_pos (show (k.shift c).vars.schedulerLock = locked from hl)]
    rfl
  rw [if_neg hl, if_neg (show ¬(k.shift c).vars.schedulerLock = locked from hl)]
  refine bind_same_eq_map fun t ht => ?_
  have hu := hu t ht
  rw [Kernel.sleepCompares, if_neg hl] at hu
  by_cases hp : tick = 0 ∧ (k.vars.tcb t).period ≠ 0
  · have hp' : tick = 0 ∧ ((k.shift c).vars.tcb t).period ≠ 0 := hp
    simp only [if_pos hp, if_pos hp'] at hu ⊢
    have hnext : (k.shift c).setTcb t (fun b => { b with wakeupTime := b.wakeupTime + b.period }) =
        (nextPeriod k t).shift c := by
      refine Recast.setTcb (k.timers.shift c) k t fun b => ?_
      simp only [Tcb.shift, Tcb.mk.injEq, true_and, and_true]
      rw [UInt32.add_assoc, UInt32.add_comm c, UInt32.add_assoc]
    have hwake : ((nextPeriod k t).vars.tcb t).wakeupTime =
        (k.vars.tcb t).wakeupTime + (k.vars.tcb t).period := by
      simp only [nextPeriod, Kernel.setTcb_vars_tcb, Function.update_self]
    rw [← hwake] at hu
    have hboth : ((nextPeriod k t).vars.tcb t).wakeupTime ∈ (if
        ((nextPeriod k t).vars.tcb t).wakeupTime ≤ k.tick then
          {k.tick, ((nextPeriod k t).vars.tcb t).wakeupTime}
        else insert k.tick (k.timers.queueCompares t ((nextPeriod k t).vars.tcb t).wakeupTime)) ∧
        k.tick ∈ (if ((nextPeriod k t).vars.tcb t).wakeupTime ≤ k.tick then
          {k.tick, ((nextPeriod k t).vars.tcb t).wakeupTime}
        else insert k.tick (k.timers.queueCompares t
          ((nextPeriod k t).vars.tcb t).wakeupTime)) := by
      split <;> simp [Timers.queueCompares]
    have hside := add_le_add_iff_of_side (hu _ hboth.1 _ hboth.2)
    rw [hnext]
    change (if ((nextPeriod k t).vars.tcb t).wakeupTime + c ≤ k.tick + c then _ else
      ((nextPeriod k t).shift c).sleepFor t (((nextPeriod k t).vars.tcb t).wakeupTime + c -
        (k.tick + c))) = Option.map _ (if ((nextPeriod k t).vars.tcb t).wakeupTime ≤ k.tick then
      some (nextPeriod k t) else (nextPeriod k t).sleepFor t
        (((nextPeriod k t).vars.tcb t).wakeupTime - k.tick))
    generalize ((nextPeriod k t).vars.tcb t).wakeupTime = w at hu hside ⊢
    have hsub : w + c - (k.tick + c) = w - k.tick := by grind
    by_cases hle : w ≤ k.tick
    · rw [if_pos hle, if_pos (hside.mpr hle)]
      rfl
    · rw [if_neg hle, if_neg (fun hc => hle (hside.mp hc)), hsub]
      have hn : WellTimed (nextPeriod k t) := h.of_eq rfl
      apply hn.shift_sleepFor
      have hadd : (nextPeriod k t).tick + (w - k.tick) = w := by
        show k.tick + (w - k.tick) = w
        grind
      rw [hadd]
      rw [if_neg hle] at hu
      exact fun _ => hu.mono (Finset.subset_insert ..)
  · have hp' : ¬(tick = 0 ∧ ((k.shift c).vars.tcb t).period ≠ 0) := hp
    simp only [if_neg hp, if_neg hp'] at hu ⊢
    refine h.shift_sleepFor t fun hne => ?_
    rwa [if_neg hne] at hu

/-! ### `eos_acquire_semaphore` -/

/-- A result at another time. -/
abbrev shiftResult (c : UInt32) : CallResult × Kernel LinkMem T → CallResult × Kernel LinkMem T :=
  Prod.map (CallResult.shift c) (Kernel.shift c)

omit [DecidableEq T] [Fintype T] in
/-- Due ticks are shifted like the tick. -/
theorem add_right_comm (k : Kernel LinkMem T) (v : UInt32) :
    (k.shift c).tick + v = k.tick + v + c := by
  show k.tick + c + v = k.tick + v + c
  rw [UInt32.add_assoc, UInt32.add_comm c, UInt32.add_assoc]

/-- `eos_acquire_semaphore` (core/sync.c:25-75) -/
theorem WellTimed.shift_acquire (h : WellTimed k) {s : Nat} {timeout : Int32}
    (hu : ∀ t, k.vars.currentTask = some t → k.vars.schedulerLock = 0 → k.count s ≤ 0 →
      0 < timeout → Uniform c (k.timers.queueCompares t (k.tick + timeout.toUInt32))) :
    (k.shift c).eosAcquireSemaphore s timeout =
      (k.eosAcquireSemaphore s timeout).map (shiftResult c) := by
  unfold Kernel.eosAcquireSemaphore
  simp only [add_right_comm]
  by_cases hl : k.vars.schedulerLock ≠ 0
  · rw [if_pos hl, if_pos (show (k.shift c).vars.schedulerLock ≠ 0 from hl)]
    rfl
  rw [if_neg hl, if_neg (show ¬(k.shift c).vars.schedulerLock ≠ 0 from hl)]
  by_cases hcount : k.count s ≤ 0
  · rw [if_pos hcount, if_pos (show (k.shift c).count s ≤ 0 from hcount)]
    split
    · rfl
    next hneg =>
    refine bind_same_eq_map fun t ht => bind_eq_map (h.shift_setAlarm t (some t) fun hc => ?_)
      fun k₁ _ => bind_eq_map ((waitSemaphore_timeless s).shift c k₁) fun _ _ => rfl
    refine hu t ht (not_not.mp hl) hcount (Int32.lt_iff_le_and_ne.mpr ⟨?_, ?_⟩)
    · exact Int32.not_lt.mp hneg
    · rintro rfl
      exact hc (.inl rfl)
  · rw [if_neg hcount, if_neg (show ¬(k.shift c).count s ≤ 0 from hcount)]
    rfl

/-- Such a call behind `_os_wait_in_queue` compares the tick with its deadline. -/
theorem WellTimed.shift_retry (h : WellTimed k) {s : Nat} {timeout : Int32} {absTimeout : UInt32}
    (hu : timeout ≠ 0 → Uniform c {k.tick, absTimeout}) :
    (k.shift c).acquireRetry s timeout (absTimeout + c) =
      (k.acquireRetry s timeout absTimeout).map (shiftResult c) := by
  unfold Kernel.acquireRetry
  have hside : timeout ≠ 0 ∧ absTimeout + c ≤ (k.shift c).tick ↔
      timeout ≠ 0 ∧ absTimeout ≤ k.tick :=
    and_congr_right fun hne => add_le_add_iff_of_side
      (hu hne _ (Finset.mem_insert_of_mem (Finset.mem_singleton_self _)) _
        (Finset.mem_insert_self ..))
  simp only [hside]
  split
  · rfl
  by_cases hcount : k.count s ≤ 0
  · rw [if_pos hcount, if_pos (show (k.shift c).count s ≤ 0 from hcount)]
    exact bind_eq_map ((waitSemaphore_timeless s).shift c k) fun _ _ => rfl
  · rw [if_neg hcount, if_neg (show ¬(k.shift c).count s ≤ 0 from hcount)]
    exact bind_same_eq_map fun t _ => bind_eq_map
      (h.shift_setAlarm t none fun hc => absurd (.inl rfl) hc) fun _ _ => rfl

/-! ### Going on -/

/-- `eos_wait_condition` behind the release of the mutex compares no ticks. -/
theorem WellTimed.shift_waitCondition (h : WellTimed k) (q m : Nat) :
    (k.shift c).waitCondition q m = (k.waitCondition q m).map (shiftResult c) := by
  unfold Kernel.waitCondition
  refine bind_eq_map ((osWaitInQueue_timeless _ _).shift c k) fun k₁ hk₁ => ?_
  have h₁ : WellTimed k₁ := h.of_eq ((osWaitInQueue_timeless _ _).timers _ _ hk₁)
  by_cases hc : k₁.vars.currentTask = k.vars.currentTask
  · rw [if_pos hc,
      if_pos (show (k₁.shift c).vars.currentTask = (k.shift c).vars.currentTask from hc)]
    exact h₁.shift_acquire fun _ _ _ _ hpos => absurd hpos (by decide)
  · rw [if_neg hc,
      if_neg (show ¬(k₁.shift c).vars.currentTask = (k.shift c).vars.currentTask from hc)]
    rfl

/-- A call that goes on. -/
theorem WellTimed.shift_goOn (h : WellTimed k) {resume : Resume}
    (hu : ∀ s timeout absTimeout, resume = .acquire s timeout absTimeout → timeout ≠ 0 →
      Uniform c {k.tick, absTimeout}) :
    (k.shift c).goOn (resume.shift c) = (k.goOn resume).map (shiftResult c) := by
  cases resume with
  | user => rfl
  | acquire s timeout absTimeout => exact h.shift_retry (hu s timeout absTimeout rfl)
  | released q m => exact h.shift_waitCondition q m
  | notified m => exact h.shift_acquire fun _ _ _ _ hpos => absurd hpos (by decide)

/-! ### The tick -/

omit [Fintype T] in
/-- The loop with the alarms that fire is the loop. -/
theorem firedLoop_fst (fuel : Nat) (s : Kernel LinkMem T × List T) :
    (firedLoop fuel s).map Prod.fst =
      triggerLoop Kernel.timers Kernel.setTimers Kernel.callHandler systemTimer fuel s.1 := by
  unfold firedLoop
  induction fuel generalizing s with
  | zero => rfl
  | succ fuel ih =>
    unfold triggerLoop
    cases expiredAlarm s.1.timers systemTimer with
    | none => rfl
    | some alarm =>
      refine (bind_same_eq_map fun m _ => bind_same_eq_map fun handler _ => ?_).symm
      exact bind_eq_map (g := Prod.fst) (map_fst_pair _ _).symm fun s' _ => (ih s').symm

/-- The kernel behind the loop is that of the trigger. -/
theorem firedAlarms_fst (k : Kernel LinkMem T) : k.firedAlarms.map Prod.fst = k.triggerAlarms :=
  firedLoop_fst _ _

/-- An alarm is taken out of the queue. -/
def unqueue (k : Kernel LinkMem T) (alarm : T) : Kernel LinkMem T :=
  k.setTimers { k.timers with alarmQueue := (osRemoveNode k.timers.alarmQueue systemTimer alarm).1 }

omit [Fintype T] in
/-- The loop keeps the queue well formed. -/
theorem WellTimed.firedLoop (h : WellTimed k) {fuel : Nat} {ts : List T}
    {s' : Kernel LinkMem T × List T} (hs' : firedLoop fuel (k, ts) = some s') : WellTimed s'.1 := by
  refine (triggerLoop_invariant (I := fun u => WellTimed u.1) ?_ h hs').1
  rintro u _ u' alarm queue handler ⟨ring, hring⟩ - hq rfl - hu'
  have hpop : WellTimed (unqueue u.1 alarm) := ⟨_, hring.remove alarm⟩
  obtain ⟨k₁, hk₁, hu'⟩ := Option.bind_eq_some_iff.mp hu'
  cases hq
  cases hu'
  exact hpop.of_eq ((callHandler_timeless handler _).timers _ _ hk₁)

/-- The alarms that are left are still queued for the same times. -/
theorem Timed.uniform_unqueue (h : Timed k.timers ring)
    (hu : Uniform c (insert k.tick (k.timers.dueTicks none))) (alarm : T) :
    Uniform c (insert (unqueue k alarm).tick ((unqueue k alarm).timers.dueTicks none)) := by
  have hr := h.remove alarm
  refine hu.mono fun v hv => ?_
  obtain rfl | hv := Finset.mem_insert.mp hv
  · exact Finset.mem_insert_self ..
  · obtain ⟨a, ha, rfl⟩ := Finset.mem_image.mp hv
    have hmem := hr.mem_iff.mpr (Finset.mem_filter.mp ha).2.2
    rw [Function.update_self] at hmem
    exact Finset.mem_insert_of_mem (h.timeout_mem (List.mem_of_mem_erase hmem) (by simp))

/-- **The loop of `eos_trigger_counter` at another time**: the same alarms fire. -/
theorem WellTimed.shift_firedLoop (h : WellTimed k)
    (hu : Uniform c (insert k.tick (k.timers.dueTicks none))) (fuel : Nat) (ts : List T) :
    Model.firedLoop fuel (k.shift c, ts) =
      (Model.firedLoop fuel (k, ts)).map (Prod.map (Kernel.shift c) id) := by
  unfold Model.firedLoop
  induction fuel generalizing k ts with
  | zero => rfl
  | succ fuel ih =>
    obtain ⟨ring, hring⟩ := h
    have hexpired : expiredAlarm (k.shift c).timers systemTimer =
        expiredAlarm k.timers systemTimer := hring.shift_expiredAlarm hu
    unfold triggerLoop
    simp only [hexpired]
    cases he : expiredAlarm k.timers systemTimer with
    | none => rfl
    | some alarm =>
      have hu' := hring.uniform_unqueue hu alarm
      have hpop : WellTimed (unqueue k alarm) := ⟨_, hring.remove alarm⟩
      refine bind_same_eq_map fun m hm => bind_same_eq_map fun handler _ => ?_
      have htimeless := callHandler_timeless (Q := LinkMem) handler (k.timers.fields.arg alarm)
      cases hm
      refine bind_eq_map (g := Prod.map (Kernel.shift c) id)
        (bind_eq_map (htimeless.shift c (unqueue k alarm)) fun _ _ => rfl) fun s hs => ?_
      obtain ⟨k₁, hk₁, hs⟩ := Option.bind_eq_some_iff.mp hs
      cases hs
      have ht : k₁.timers = (unqueue k alarm).timers := htimeless.timers _ _ hk₁
      refine ih (hpop.of_eq ht) ?_ _
      rw [Kernel.tick, ht]
      exact hu'

omit [DecidableEq T] [Fintype T] in
/-- So does the next tick. -/
theorem WellTimed.incrementTick (h : WellTimed k) :
    WellTimed (k.setTimers (Model.incrementTick k.timers systemTimer)) := by
  obtain ⟨ring, hring⟩ := h
  exact ⟨ring, hring.rings, hring.other, hring.pnode, hring.orderVal⟩

omit [DecidableEq T] [Fintype T] in
/-- The next tick is shifted like the tick before. -/
theorem shift_incrementTick (k : Kernel LinkMem T) :
    (k.shift c).setTimers (incrementTick (k.shift c).timers systemTimer) =
      (k.setTimers (incrementTick k.timers systemTimer)).shift c := by
  have htick : Function.update (fun counter => k.timers.fields.tick counter + c) systemTimer
      (k.timers.fields.tick systemTimer + c + 1) = fun counter =>
      Function.update k.timers.fields.tick systemTimer (k.timers.fields.tick systemTimer + 1)
        counter + c := by
    funext counter
    by_cases hc : counter = systemTimer
    · subst hc
      simp only [Function.update_self]
      rw [UInt32.add_assoc, UInt32.add_comm c, UInt32.add_assoc]
    · simp only [Function.update_of_ne hc]
  simp only [Kernel.shift, Kernel.setTimers, incrementTick, Timers.shift, AlarmFields.shift, htick]

/-! ### All calls -/

variable {s s' : System LinkMem T}

/-- What is seen of a call at another time. -/
abbrev shiftSeen (c : UInt32) : Observed T × System LinkMem T → Observed T × System LinkMem T :=
  Prod.map id (System.shift c)

omit [Fintype T] in
/-- The caller is left at the shifted point. -/
theorem leave_shift (s : System LinkMem T) (caller : T) (r : CallResult × Kernel LinkMem T) :
    (s.shift c).leave caller (shiftResult c r) = (s.leave caller r).shift c := by
  have hupdate : ∀ r : Resume, Function.update (fun t => (s.resume t).shift c) caller (r.shift c) =
      fun t => (Function.update s.resume caller r t).shift c := by
    intro r
    funext t
    by_cases ht : t = caller
    · subst ht
      simp only [Function.update_self]
    · simp only [Function.update_of_ne ht]
  obtain ⟨r, k⟩ := r
  cases r with
  | returned v => exact congrArg (System.mk _) (hupdate .user)
  | switched r => exact congrArg (System.mk _) (hupdate r)

/-- What is seen of a call that blocks. -/
theorem observePart_shift {call : Call T} (hpart : ∀ t, s.kernel.vars.currentTask = some t →
      (s.shift c).part t call = (s.part t call).map (shiftResult c)) :
    (s.shift c).observePart call = (s.observePart call).map (shiftSeen c) := by
  refine bind_same_eq_map fun t ht => bind_eq_map (hpart t ht) fun r _ => ?_
  have hvalue : (shiftResult c r).1.value = r.1.value := by
    obtain ⟨r, k⟩ := r
    cases r <;> rfl
  rw [leave_shift, hvalue]
  rfl

/-- **Every call at another time**, if the shift carries all the values that it compares past the
wrap, or none: the same can be seen. -/
theorem observe_shift (h : WellTimed s.kernel) {call : TimedCall T}
    (hu : Uniform c (s.compares call)) :
    (s.shift c).observe call = (s.observe call).map (shiftSeen c) := by
  cases call with
  | setAlarm alarm timeout entry arg =>
    refine bind_eq_map (h.shift_setAlarm alarm arg fun hc => ?_) fun _ _ => rfl
    rwa [System.compares, if_neg hc] at hu
  | sleep tick =>
    refine bind_eq_map (h.shift_eosSleep fun t ht => ?_) fun _ _ => rfl
    rwa [System.compares, ht] at hu
  | acquire sem timeout =>
    refine observePart_shift fun t _ => h.shift_acquire fun u hc hl hcount hpos => ?_
    rw [System.compares, hc] at hu
    exact hu.mono (by rw [Option.elim_some, if_pos ⟨hl, hcount, hpos⟩])
  | release sem =>
    exact bind_eq_map ((eosReleaseSemaphore_timeless sem).shift c s.kernel) fun _ _ => rfl
  | tick =>
    have hnow : (s.kernel.setTimers (incrementTick s.kernel.timers systemTimer)).tick =
        s.kernel.tick + 1 := by
      simp only [Kernel.tick, Kernel.setTimers_timers, incrementTick, Function.update_self]
    have hfired : (s.kernel.shift c).firedAlarms =
        s.kernel.firedAlarms.map (Prod.map (Kernel.shift c) id) := by
      unfold Kernel.firedAlarms
      rw [shift_incrementTick]
      refine h.incrementTick.shift_firedLoop ?_ _ _
      rw [hnow]
      exact hu
    exact bind_eq_map hfired fun r _ =>
      bind_eq_map (eosSchedule_timeless.shift c r.1) fun _ _ => rfl
  | goOn =>
    refine observePart_shift fun t ht => h.shift_goOn fun sem timeout absTimeout hr hne => ?_
    simp only [System.compares, ht, Option.elim_some, hr, if_neg hne] at hu
    exact hu

/-- A step keeps the queue well formed. -/
theorem WellTimed.observe (h : WellTimed s.kernel) {call : TimedCall T} {o : Observed T}
    (hs' : s.observe call = some (o, s')) : WellTimed s'.kernel := by
  have hpart : ∀ {call : Call T}, s.observePart call = some (o, s') →
      (∀ t r k', s.part t call = some (r, k') → WellTimed k') → WellTimed s'.kernel := by
    intro call hs' hkeep
    obtain ⟨t, -, hs'⟩ := Option.bind_eq_some_iff.mp hs'
    obtain ⟨⟨r, k'⟩, hr, hs'⟩ := Option.bind_eq_some_iff.mp hs'
    cases hs'
    rw [System.leave_kernel]
    exact hkeep t r k' hr
  cases call with
  | setAlarm alarm timeout entry arg =>
    obtain ⟨k', hk', hs'⟩ := Option.bind_eq_some_iff.mp hs'
    cases hs'
    exact h.of_sets (setAlarm_sets hk' trivial)
  | sleep tick =>
    obtain ⟨k', hk', hs'⟩ := Option.bind_eq_some_iff.mp hs'
    cases hs'
    exact h.of_sets (eosSleep_sets hk' trivial fun _ _ => trivial)
  | acquire sem timeout =>
    exact hpart hs' fun t r k' hr => h.of_sets (acquire_sets hr fun _ _ => trivial)
  | release sem =>
    obtain ⟨k', hk', hs'⟩ := Option.bind_eq_some_iff.mp hs'
    cases hs'
    exact h.of_eq ((eosReleaseSemaphore_timeless sem).timers _ _ hk')
  | tick =>
    obtain ⟨r, hr, hs'⟩ := Option.bind_eq_some_iff.mp hs'
    obtain ⟨k', hk', hs'⟩ := Option.bind_eq_some_iff.mp hs'
    cases hs'
    exact (h.incrementTick.firedLoop hr).of_eq (eosSchedule_timeless.timers _ _ hk')
  | goOn => exact hpart hs' fun t r k' hr => h.of_sets (goOn_sets hr trivial)

/-- **Time-shift invariance**: a shift that carries all the values that a call compares past the
wrap, or none, in every call of a sequence, changes nothing that can be seen. -/
theorem timeShift_uniform (h : WellTimed s.kernel) {calls : List (TimedCall T)}
    (hu : s.UniformAll c calls) :
    (s.shift c).observeAll calls = (s.observeAll calls).map (Prod.map id (System.shift c)) := by
  induction calls generalizing s with
  | nil => rfl
  | cons call calls ih =>
    obtain ⟨hcall, hcalls⟩ := hu
    unfold System.observeAll
    refine bind_eq_map (observe_shift h hcall) fun r hr => ?_
    exact bind_eq_map (ih (h.observe hr) (hcalls r hr)) fun _ _ => rfl

end Calls

/-! ## A wrap -/

/-- The alarms that fire in a sequence of calls. -/
def firedIn {T : Type} [DecidableEq T] [Fintype T] (s : System LinkMem T)
    (calls : List (TimedCall T)) : Option (List (List T)) :=
  (s.observeAll calls).map fun r => r.1.map Observed.fired

/-- **A due tick past the wrap** is taken for one that has gone by: a task that sleeps for 5 ticks
is woken in the first one, 3 ticks before the wrap. -/
theorem timeShift_violated :
    ∃ s : System LinkMem (Fin 3), Booted 2 s ∧
      firedIn s [.sleep 5, .tick] = some [[], []] ∧
      firedIn (s.shift 0xfffffffd) [.sleep 5, .tick] = some [[], [1]] := by
  have hrun : ((boot (2 : Fin 3) (fun _ => ⟨0, 0⟩) (fun _ => ⟨0⟩)
      [.createTask (some 1) 4096 4096 4096 3]).any fun s =>
        firedIn s [.sleep 5, .tick] = some [[], []] ∧
          firedIn (s.shift 0xfffffffd) [.sleep 5, .tick] = some [[], [1]]) = true := by
    decide +kernel
  obtain ⟨s, hs, hfired⟩ := (Option.any_eq_true _ _).mp hrun
  exact ⟨s, booted_of_boot hs, of_decide_eq_true hfired⟩

/-- Two tasks and the idle one. -/
def timedTasks {T : Type} [DecidableEq T] [Fintype T] (idle t u : T) : Option (System LinkMem T) :=
  boot idle (fun _ => ⟨0, 0⟩) (fun _ => ⟨0⟩)
    [.createTask (some t) 4096 4096 4096 3, .createTask (some u) 4096 4096 4096 5]

/-- Task 0 sleeps for 3 ticks and task 1 waits for a semaphore for 2 of them.  One tick before the
wrap, where all the due ticks lie behind it, they are woken as at tick 0. -/
theorem timeShift_uniform_wrap :
    ∃ s : System LinkMem (Fin 3), Booted 2 s ∧
      ∃ calls : List (TimedCall (Fin 3)), firedIn s calls = some [[], [], [], [1], [], [0]] ∧
        (s.shift 0xffffffff).observeAll calls =
          (s.observeAll calls).map (Prod.map id (System.shift 0xffffffff)) := by
  have hrun : ((timedTasks (2 : Fin 3) 0 1).any fun s =>
      s.UniformAll 0xffffffff [.sleep 3, .acquire 0 2, .tick, .tick, .goOn, .tick] ∧
        firedIn s [.sleep 3, .acquire 0 2, .tick, .tick, .goOn, .tick] =
          some [[], [], [], [1], [], [0]]) = true := by
    decide +kernel
  obtain ⟨s, hs, hrun⟩ := (Option.any_eq_true _ _).mp hrun
  obtain ⟨huniform, hfired⟩ := of_decide_eq_true hrun
  have hb := booted_of_boot hs
  exact ⟨s, hb, _, hfired, timeShift_uniform hb.wellTimed huniform⟩

end Eos.Analysis
