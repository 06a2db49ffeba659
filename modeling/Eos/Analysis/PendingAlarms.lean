import Eos.Analysis.TickCalls
import Eos.Model.TaskMemory

/-!
# Memories with the same pending alarms

`eos_set_alarm` and the loop of `eos_trigger_counter` (core/timer.c:29-92) read the fields of
pending alarms, and the links of the alarm that is set, which say whether it is pending: a node
with a `NULL` link is in no list.  So they do the same in two memories that hold the same pending
alarms, if every other alarm has such a node (`SameAlarms`).
-/

set_option autoImplicit false

namespace Eos.Analysis

open Eos.Lib (LinkMem RingAt rel_bind rel_ite)
open Eos.Model
open Eos.Interface (insertOrdered mem_insertOrdered osRemoveNode_at osAddNodeOrdered_at
  osRemoveNode_links dropWhile_keys)

variable {T : Type} [DecidableEq T]

/-! ## One memory -/

/-- The system timer leads to the circle of `xs`, and every other node has a `NULL` link. -/
structure AlarmList (q : LinkMem Nat T) (xs : List T) : Prop where
  ring : RingAt q systemTimer xs
  null : ∀ u ∉ xs, q.next u = none ∨ q.prev u = none

variable {q : LinkMem Nat T} {xs : List T} {t u : T}

/-- `_os_remove_node` takes out an alarm that is pending, and does nothing to another one
(core/common.c:69-88). -/
theorem AlarmList.remove (h : AlarmList q xs) (u : T) :
    AlarmList (osRemoveNode q systemTimer u).1 (xs.erase u) := by
  by_cases hu : u ∈ xs
  · obtain ⟨hring, hsame⟩ := osRemoveNode_at h.ring hu
    refine ⟨hring, fun v hv => ?_⟩
    by_cases hvu : v = u
    · subst hvu
      obtain ⟨⟨next, -, hnext⟩, prev, -, hprev⟩ := h.ring.links hu
      obtain ⟨-, -, hnone⟩ := osRemoveNode_links (m := q) (n := v) (by simp [hnext])
        (by simp [hprev]) systemTimer
      exact .inl hnone
    · have hvx : v ∉ xs := fun hc => hv ((List.mem_erase_of_ne hvu).mpr hc)
      rw [(hsame.links v hvx).1, (hsame.links v hvx).2]
      exact h.null v hvx
  · have hnothing : (osRemoveNode q systemTimer u).1 = q := by
      unfold osRemoveNode
      obtain hn | hn := h.null u hu
      · rw [hn]
      · rw [hn]
        cases q.next u <;> rfl
    rw [hnothing, List.erase_of_not_mem hu]
    exact h

/-- `_os_add_node_ordered` links an alarm that is not pending, whatever its links hold
(core/common.c:43-66). -/
theorem AlarmList.add [Fintype T] (h : AlarmList q xs) (hu : u ∉ xs) (key : T → Nat) :
    ∃ q', osAddNodeOrdered q key systemTimer u = some q' ∧
      AlarmList q' (insertOrdered key u xs) := by
  obtain ⟨q', hq', hring, hsame⟩ := osAddNodeOrdered_at h.ring hu key
  refine ⟨q', hq', hring, fun v hv => ?_⟩
  rw [mem_insertOrdered, not_or] at hv
  have hlinks := hsame.links v fun hc => (List.mem_cons.mp hc).elim hv.1 hv.2
  rw [hlinks.1, hlinks.2]
  exact h.null v hv.2

/-! ## Two memories -/

/-- The fields of an alarm are the same in both memories. -/
structure SameFields (f f' : AlarmFields T Handler T) (u : T) : Prop where
  timeout : f'.timeout u = f.timeout u
  handler : f'.handler u = f.handler u
  arg : f'.arg u = f.arg u
  pnode : f.pnode u = some u ∧ f'.pnode u = some u
  orderVal : f'.orderVal u = f.orderVal u

/-- The alarms `xs` are pending in both memories, with the same fields. -/
structure SamePending (xs : List T) (m m' : Timers LinkMem T Handler T) : Prop where
  left : AlarmList m.alarmQueue xs
  right : AlarmList m'.alarmQueue xs
  tick : m'.fields.tick systemTimer = m.fields.tick systemTimer
  fields : ∀ u ∈ xs, SameFields m.fields m'.fields u

/-- The same alarms are pending in both memories. -/
def SameAlarms (m m' : Timers LinkMem T Handler T) : Prop := ∃ xs, SamePending xs m m'

omit [DecidableEq T] in
/-- An ordered insertion reads the keys of the new node and of those in the sequence. -/
theorem insertOrdered_keys {key key' : T → Nat} (h : ∀ x ∈ xs, key x ≤ key u ↔ key' x ≤ key' u) :
    insertOrdered key u xs = insertOrdered key' u xs := by
  unfold insertOrdered
  rw [dropWhile_keys h]
  congr 1
  induction xs with
  | nil => rfl
  | cons x xs ih =>
    have hx := h x List.mem_cons_self
    have ih := ih fun y hy => h y (List.mem_cons_of_mem x hy)
    simp only [List.takeWhile_cons, hx, ih]

variable {m m' : Timers LinkMem T Handler T}

/-- An alarm is taken out of both queues. -/
theorem SamePending.remove (h : SamePending xs m m') (u : T) :
    SamePending (xs.erase u)
      { m with alarmQueue := (osRemoveNode m.alarmQueue systemTimer u).1 }
      { m' with alarmQueue := (osRemoveNode m'.alarmQueue systemTimer u).1 } :=
  ⟨h.left.remove u, h.right.remove u, h.tick, fun v hv => h.fields v (List.mem_of_mem_erase hv)⟩

omit [DecidableEq T] in
/-- The loop of `eos_trigger_counter` takes the same alarm. -/
theorem SamePending.expiredAlarm (h : SamePending xs m m') :
    Model.expiredAlarm m' systemTimer = Model.expiredAlarm m systemTimer := by
  unfold Model.expiredAlarm
  rw [show NodeLists.head m'.alarmQueue systemTimer = xs.head? from h.right.ring.head,
    show NodeLists.head m.alarmQueue systemTimer = xs.head? from h.left.ring.head, h.tick]
  cases xs with
  | nil => rfl
  | cons x xs =>
    have hx := h.fields x List.mem_cons_self
    simp only [List.head?_cons, Option.bind_some, hx.pnode.1, hx.pnode.2, hx.timeout]

omit [DecidableEq T] in
/-- An alarm that is taken is pending. -/
theorem SamePending.mem_of_expired (h : SamePending xs m m')
    (hu : Model.expiredAlarm m systemTimer = some u) : u ∈ xs := by
  unfold Model.expiredAlarm at hu
  rw [show NodeLists.head m.alarmQueue systemTimer = xs.head? from h.left.ring.head] at hu
  cases xs with
  | nil => cases hu
  | cons x xs =>
    have hx := h.fields x List.mem_cons_self
    simp only [List.head?_cons, Option.bind_some, hx.pnode.1] at hu
    split at hu
    · cases hu
    · cases hu
      exact List.mem_cons_self

omit [DecidableEq T] in
/-- The tick of the system timer -/
theorem SamePending.incrementTick (h : SamePending xs m m') :
    SamePending xs (Model.incrementTick m systemTimer) (Model.incrementTick m' systemTimer) :=
  ⟨h.left, h.right, by simp only [Model.incrementTick, Function.update_self, h.tick],
    fun u hu => ⟨(h.fields u hu).timeout, (h.fields u hu).handler, (h.fields u hu).arg,
      (h.fields u hu).pnode, (h.fields u hu).orderVal⟩⟩

/-- An alarm that is pending in neither memory is linked at the same place if its key is the
same. -/
theorem SamePending.add [Fintype T] (h : SamePending xs m m') (hu : u ∉ xs) (key : Nat) :
    ∃ ys, (∀ v ∈ ys, v = u ∨ v ∈ xs) ∧
      Option.Rel (fun q q' => AlarmList q ys ∧ AlarmList q' ys)
        (osAddNodeOrdered m.alarmQueue (Function.update m.fields.orderVal u key) systemTimer u)
        (osAddNodeOrdered m'.alarmQueue (Function.update m'.fields.orderVal u key) systemTimer
          u) := by
  obtain ⟨q, hq, hl⟩ := h.left.add hu (Function.update m.fields.orderVal u key)
  obtain ⟨q', hq', hl'⟩ := h.right.add hu (Function.update m'.fields.orderVal u key)
  have hkeys : insertOrdered (Function.update m'.fields.orderVal u key) u xs =
      insertOrdered (Function.update m.fields.orderVal u key) u xs := by
    apply insertOrdered_keys
    intro v hv
    have hvu : v ≠ u := fun e => hu (e ▸ hv)
    rw [Function.update_self, Function.update_self, Function.update_of_ne hvu,
      Function.update_of_ne hvu, (h.fields v hv).orderVal]
  rw [hkeys] at hl'
  refine ⟨insertOrdered (Function.update m.fields.orderVal u key) u xs,
    fun v hv => mem_insertOrdered.mp hv, ?_⟩
  rw [hq, hq']
  exact .some ⟨hl, hl'⟩

/-- **`eos_set_alarm`** does the same in both memories (core/timer.c:29-52). -/
theorem SameAlarms.eosSetAlarm [Fintype T] (h : SameAlarms m m') (u : T) (timeout : UInt32)
    (entry : Option Handler) (arg : Option T) :
    Option.Rel SameAlarms (Model.eosSetAlarm m systemTimer u timeout entry arg)
      (Model.eosSetAlarm m' systemTimer u timeout entry arg) := by
  obtain ⟨xs, h⟩ := h
  unfold Model.eosSetAlarm
  refine rel_bind (R := fun q q' => SamePending (xs.erase u) { m with alarmQueue := q }
    { m' with alarmQueue := q' }) (.some (h.remove u)) fun q q' _ hr => ?_
  refine rel_ite (fun _ => .some ⟨_, hr⟩) fun _ => ?_
  have hu : u ∉ xs.erase u := fun hmem => (h.left.ring.nodup.mem_erase_iff.mp hmem).1 rfl
  simp only [h.tick]
  generalize m.fields.tick systemTimer + timeout = due
  obtain ⟨ys, hys, hadd⟩ := hr.add hu due.toNat
  refine rel_bind hadd fun _ _ _ hl => .some ⟨ys, hl.1, hl.2, h.tick, fun v hv => ?_⟩
  by_cases hvu : v = u
  · subst hvu
    exact ⟨by simp, by simp, by simp, by simp, by simp⟩
  · have hf := h.fields v (List.mem_of_mem_erase ((hys v hv).resolve_left hvu))
    exact ⟨by simp [hvu, hf.timeout], by simp [hvu, hf.handler], by simp [hvu, hf.arg],
      by simp [hvu, hf.pnode], by simp [hvu, hf.orderVal]⟩

/-- What the alarm of a new TCB holds is not seen, if one of its links is `NULL`. -/
theorem SamePending.write (h : SamePending xs m m') (ht : t ∉ xs) {c : AlarmMemory T}
    (hc : c.node.next = none ∨ c.node.prev = none) : SamePending xs m (c.write m' t) := by
  have hne : ∀ u ∈ xs, u ≠ t := fun u hu e => ht (e ▸ hu)
  refine ⟨h.left, ⟨⟨h.right.ring.head, ?_, h.right.ring.nodup⟩, fun u hu => ?_⟩, h.tick,
    fun u hu => ?_⟩
  · refine h.right.ring.isRing.congr (fun u hu => ?_) fun u hu => ?_
    · simp [AlarmMemory.write, NodeMemory.write, hne u hu]
    · simp [AlarmMemory.write, NodeMemory.write, hne u hu]
  · by_cases hut : u = t
    · subst hut
      simpa [AlarmMemory.write, NodeMemory.write] using hc
    · simpa [AlarmMemory.write, NodeMemory.write, hut] using h.right.null u hu
  · have hf := h.fields u hu
    simp only [AlarmMemory.write]
    exact ⟨by simp [hne u hu, hf.timeout], by simp [hne u hu, hf.handler],
      by simp [hne u hu, hf.arg], by simp [hne u hu, hf.pnode], by simp [hne u hu, hf.orderVal]⟩

end Eos.Analysis
