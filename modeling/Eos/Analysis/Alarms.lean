import Eos.Interface.Rings
import Eos.Model.Task

/-!
# The alarm queue of the system timer

`AlarmsOk` says what every pending alarm looks like: it is a task's own alarm, queued
once on the system timer, with `_os_wakeup_from_alarm_queue` as its handler and the
task as argument.  `eos_set_alarm` (core/timer.c:29-52) and the pop in the loop of
`eos_trigger_counter` (core/timer.c:75-88) keep it, and always have a result.
-/

set_option autoImplicit false

namespace Eos.Analysis

open Eos.Model
open Eos.Interface (Rings Linked insertOrdered mem_insertOrdered)

variable {T : Type} [DecidableEq T]

/-- The alarm of a task is in an alarm queue. -/
def Pending (m : Timers Rings T Handler T) (t : T) : Prop := Linked m.alarmQueue t

/-- Every pending alarm is a task's alarm on the system timer that wakes this task up. -/
structure AlarmsOk (m : Timers Rings T Handler T) : Prop where
  nodup : ∀ c, (m.alarmQueue.ring c).Nodup
  counter : ∀ c t, t ∈ m.alarmQueue.ring c → c = systemTimer
  pnode : ∀ t, Pending m t → m.fields.pnode t = some t
  handler : ∀ t, Pending m t → m.fields.handler t = some .osWakeupFromAlarmQueue
  arg : ∀ t, Pending m t → m.fields.arg t = some t

/-- The queue of the system timer with one alarm dropped. -/
def dropAlarm (m : Timers Rings T Handler T) (t : T) : Timers Rings T Handler T :=
  { m with alarmQueue := m.alarmQueue.set systemTimer ((m.alarmQueue.ring systemTimer).erase t) }

omit [DecidableEq T] in
/-- An ordered insertion rearranges the sequence with the new node in front. -/
theorem insertOrdered_perm (key : T → Nat) (n : T) (xs : List T) :
    (insertOrdered key n xs).Perm (n :: xs) := by
  unfold insertOrdered
  refine List.perm_middle.trans (List.Perm.cons n ?_)
  rw [List.takeWhile_append_dropWhile]

omit [DecidableEq T] in
/-- An ordered insertion of a new node repeats no node. -/
theorem nodup_insertOrdered {key : T → Nat} {n : T} {xs : List T} (hx : xs.Nodup) (hn : n ∉ xs) :
    (insertOrdered key n xs).Nodup :=
  (insertOrdered_perm key n xs).nodup_iff.mpr (List.nodup_cons.mpr ⟨hn, hx⟩)

omit [DecidableEq T] in
/-- An ordered insertion keeps a sequence sorted, also by a relation that refines the one it was
sorted by. -/
theorem pairwise_insertOrdered {R R' : T → T → Prop} {key : T → Nat} {a : T}
    {xs : List T} (hs : xs.Pairwise R) (hkey : ∀ x ∈ xs, ∀ y ∈ xs, R x y → key x ≤ key y)
    (hkept : ∀ x ∈ xs, ∀ y ∈ xs, R x y → R' x y)
    (hbehind : ∀ x ∈ xs, key x ≤ key a → R' x a)
    (hahead : ∀ x ∈ xs, key a < key x → R' a x) :
    (insertOrdered key a xs).Pairwise R' := by
  induction xs with
  | nil => exact List.pairwise_singleton _ a
  | cons x xs ih =>
    obtain ⟨hx, hxs⟩ := List.pairwise_cons.mp hs
    have hkey' : ∀ y ∈ xs, key x ≤ key y := fun y hy =>
      hkey x List.mem_cons_self y (List.mem_cons_of_mem x hy) (hx y hy)
    have hkept' : ∀ y ∈ xs, R' x y := fun y hy =>
      hkept x List.mem_cons_self y (List.mem_cons_of_mem x hy) (hx y hy)
    have ih := ih hxs
      (fun y hy z hz => hkey y (List.mem_cons_of_mem x hy) z (List.mem_cons_of_mem x hz))
      (fun y hy z hz => hkept y (List.mem_cons_of_mem x hy) z (List.mem_cons_of_mem x hz))
      (fun y hy => hbehind y (List.mem_cons_of_mem x hy))
      fun y hy => hahead y (List.mem_cons_of_mem x hy)
    by_cases hle : key x ≤ key a
    · have hcons : insertOrdered key a (x :: xs) = x :: insertOrdered key a xs := by
        simp [insertOrdered, hle]
      rw [hcons, List.pairwise_cons]
      refine ⟨fun y hy => ?_, ih⟩
      obtain rfl | hy := mem_insertOrdered.mp hy
      · exact hbehind x List.mem_cons_self hle
      · exact hkept' y hy
    · have hcons : insertOrdered key a (x :: xs) = a :: x :: xs := by simp [insertOrdered, hle]
      rw [hcons, List.pairwise_cons, List.pairwise_cons]
      refine ⟨fun y hy => ?_, hkept', ?_⟩
      · obtain rfl | hy' := List.mem_cons.mp hy
        · exact hahead y hy (by omega)
        · exact hahead y hy (by have := hkey' y hy'; omega)
      · exact hxs.imp_of_mem fun hy hz =>
          hkept _ (List.mem_cons_of_mem x hy) _ (List.mem_cons_of_mem x hz)

namespace AlarmsOk

variable {m : Timers Rings T Handler T} {t : T}

omit [DecidableEq T] in
/-- An alarm is pending exactly if the system timer's queue has it. -/
theorem pending_iff (h : AlarmsOk m) : Pending m t ↔ t ∈ m.alarmQueue.ring systemTimer :=
  ⟨fun ⟨c, hc⟩ => h.counter c t hc ▸ hc, fun ht => ⟨_, ht⟩⟩

/-- Dropping an alarm leaves the other ones pending. -/
theorem pending_dropAlarm (h : AlarmsOk m) {u : T} :
    Pending (dropAlarm m t) u ↔ Pending m u ∧ u ≠ t := by
  rw [h.pending_iff]
  constructor
  · rintro ⟨c, hc⟩
    by_cases hcs : c = systemTimer
    · subst hcs
      simp only [dropAlarm, Rings.set_ring, Function.update_self] at hc
      rw [(h.nodup _).mem_erase_iff] at hc
      exact ⟨hc.2, hc.1⟩
    · simp only [dropAlarm, Rings.set_ring, Function.update_of_ne hcs] at hc
      exact absurd (h.counter c u hc) hcs
  · rintro ⟨hu, hne⟩
    refine ⟨systemTimer, ?_⟩
    simp only [dropAlarm, Rings.set_ring, Function.update_self]
    exact (h.nodup _).mem_erase_iff.mpr ⟨hne, hu⟩

/-- Dropping an alarm keeps the queue in order. -/
theorem dropAlarm_ok (h : AlarmsOk m) : AlarmsOk (dropAlarm m t) where
  nodup c := by
    by_cases hc : c = systemTimer
    · subst hc
      simpa [dropAlarm] using (h.nodup systemTimer).erase t
    · simpa [dropAlarm, hc] using h.nodup c
  counter c u hu := by
    by_contra hc
    simp only [dropAlarm, Rings.set_ring, Function.update_of_ne hc] at hu
    exact hc (h.counter c u hu)
  pnode u hu := h.pnode u (h.pending_dropAlarm.mp hu).1
  handler u hu := h.handler u (h.pending_dropAlarm.mp hu).1
  arg u hu := h.arg u (h.pending_dropAlarm.mp hu).1

/-- `_os_remove_node` on the alarm queue drops the alarm, pending or not. -/
theorem osRemoveNode_eq (h : AlarmsOk m) :
    NodeLists.osRemoveNode m.alarmQueue systemTimer t = some (dropAlarm m t).alarmQueue := by
  show Rings.remove m.alarmQueue systemTimer t = _
  unfold Rings.remove
  split
  · rfl
  · next hn =>
    have hl : ¬Linked m.alarmQueue t := fun hc => hn (h.pending_iff.mp hc)
    rw [dif_neg hl, dropAlarm, List.erase_of_not_mem hn]
    congr 1
    show m.alarmQueue = Rings.set _ _ _
    rw [Rings.set, Function.update_eq_self]

variable [Fintype T]

/-- **Cancelling an alarm**: `eos_set_alarm` with a timeout of 0 or a `NULL` handler. -/
theorem eosSetAlarm_cancel (h : AlarmsOk m) {timeout : UInt32} {entry : Option Handler}
    {arg : Option T} (hc : timeout = 0 ∨ entry.isNone) :
    eosSetAlarm m systemTimer t timeout entry arg = some (dropAlarm m t) := by
  unfold eosSetAlarm
  rw [h.osRemoveNode_eq]
  exact if_pos hc

/-- **Setting an alarm**: `eos_set_alarm` with a handler always has a result, in which the alarm
is pending unless the timeout is 0; the other alarms stay as they were, and the tick too. -/
theorem eosSetAlarm_ok (h : AlarmsOk m) (timeout : UInt32) :
    ∃ m', eosSetAlarm m systemTimer t timeout (some .osWakeupFromAlarmQueue) (some t) = some m' ∧
      AlarmsOk m' ∧ (∀ u, Pending m' u ↔ (Pending m u ∧ u ≠ t) ∨ u = t ∧ timeout ≠ 0) ∧
      m'.fields.tick = m.fields.tick := by
  by_cases h0 : timeout = 0
  · refine ⟨_, h.eosSetAlarm_cancel (Or.inl h0), h.dropAlarm_ok, fun u => ?_, rfl⟩
    simp [h.pending_dropAlarm, h0]
  · have hd := h.dropAlarm_ok (t := t)
    have hnl : ¬Linked (dropAlarm m t).alarmQueue t := fun hc => (h.pending_dropAlarm.mp hc).2 rfl
    generalize hfields : (AlarmFields.mk m.fields.tick
      (Function.update m.fields.timeout t (m.fields.tick systemTimer + timeout))
      (Function.update m.fields.handler t (some .osWakeupFromAlarmQueue))
      (Function.update m.fields.arg t (some t)) (Function.update m.fields.pnode t (some t))
      (Function.update m.fields.orderVal t (m.fields.tick systemTimer + timeout).toNat)) = f
    have hadd : NodeLists.osAddNodeOrdered (dropAlarm m t).alarmQueue f.orderVal systemTimer t =
        some ((dropAlarm m t).alarmQueue.set systemTimer
          (insertOrdered f.orderVal t ((dropAlarm m t).alarmQueue.ring systemTimer))) := by
      show Rings.addOrdered _ _ _ _ = _
      rw [Rings.addOrdered, if_neg hnl]
    have hpend : ∀ u, Pending (Timers.mk ((dropAlarm m t).alarmQueue.set systemTimer
        (insertOrdered f.orderVal t ((dropAlarm m t).alarmQueue.ring systemTimer))) f) u ↔
        (Pending m u ∧ u ≠ t) ∨ u = t := by
      intro u
      rw [← h.pending_dropAlarm]
      constructor
      · rintro ⟨c, hc⟩
        by_cases hcs : c = systemTimer
        · subst hcs
          simp only [Rings.set_ring, Function.update_self, mem_insertOrdered] at hc
          exact hc.elim Or.inr fun hc => Or.inl ⟨_, hc⟩
        · simp only [Rings.set_ring, Function.update_of_ne hcs] at hc
          exact Or.inl ⟨c, hc⟩
      · intro hu
        refine ⟨systemTimer, ?_⟩
        simp only [Rings.set_ring, Function.update_self, mem_insertOrdered]
        exact hu.elim (fun hu => Or.inr (hd.pending_iff.mp hu)) Or.inl
    have hfield : ∀ u, (Pending m u ∧ u ≠ t) ∨ u = t → f.pnode u = some u ∧
        f.handler u = some .osWakeupFromAlarmQueue ∧ f.arg u = some u := by
      rintro u (⟨hu, hne⟩ | rfl)
      · simp only [← hfields, Function.update_of_ne hne]
        exact ⟨h.pnode u hu, h.handler u hu, h.arg u hu⟩
      · simp only [← hfields, Function.update_self, and_self]
    refine ⟨_, ?_, ⟨?_, ?_, fun u hu => (hfield u ((hpend u).mp hu)).1,
      fun u hu => (hfield u ((hpend u).mp hu)).2.1, fun u hu => (hfield u ((hpend u).mp hu)).2.2⟩,
      fun u => by simp [hpend, h0], by rw [← hfields]⟩
    · unfold eosSetAlarm
      rw [h.osRemoveNode_eq]
      refine (if_neg (by simp [h0])).trans ?_
      have horder : f.orderVal = Function.update m.fields.orderVal t
          (m.fields.tick systemTimer + timeout).toNat := by rw [← hfields]
      simp only [hfields]
      rw [← horder, hadd]
      rfl
    · intro c
      by_cases hc : c = systemTimer
      · subst hc
        simp only [Rings.set_ring, Function.update_self]
        exact nodup_insertOrdered (hd.nodup _) fun hc => hnl ⟨_, hc⟩
      · simpa [hc] using hd.nodup c
    · intro c u hu
      by_contra hc
      simp only [Rings.set_ring, Function.update_of_ne hc] at hu
      exact hc (hd.counter c u hu)

omit [Fintype T] [DecidableEq T] in
/-- The alarm that the loop of `eos_trigger_counter` takes is the first one of the queue. -/
theorem expiredAlarm_eq_some (h : AlarmsOk m) (he : expiredAlarm m systemTimer = some t) :
    ∃ rest, m.alarmQueue.ring systemTimer = t :: rest :=
  (first_of_expiredAlarm rfl (fun u hu => h.pnode u ⟨systemTimer, hu⟩) he).1

omit [Fintype T] [DecidableEq T] in
/-- It is due. -/
theorem due_of_expired (h : AlarmsOk m) (he : expiredAlarm m systemTimer = some t) :
    m.fields.timeout t ≤ m.fields.tick systemTimer :=
  (first_of_expiredAlarm rfl (fun u hu => h.pnode u ⟨systemTimer, hu⟩) he).2

omit [Fintype T] [DecidableEq T] in
/-- Every queued alarm is one of finitely many. -/
theorem length_le_card [Fintype T] (h : AlarmsOk m) :
    (m.alarmQueue.ring systemTimer).length ≤ Fintype.card T :=
  (h.nodup systemTimer).length_le_card

omit [Fintype T] [DecidableEq T] in
/-- The next tick changes no queue. -/
theorem incrementTick_ok (h : AlarmsOk m) : AlarmsOk (incrementTick m systemTimer) :=
  ⟨h.nodup, h.counter, h.pnode, h.handler, h.arg⟩

end AlarmsOk

end Eos.Analysis
