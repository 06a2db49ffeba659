import Eos.Interface.Rings
import Eos.Model.Timer

/-!
# Re-arming an alarm on another counter

`eos_set_alarm` (core/timer.c:28-52) takes an alarm out of the queue it is in through the
head cell of the counter it is about to be set on.  That works through a foreign head cell
unless the alarm is the first of its queue: then the head cell of its queue still leads to
it, and if it was alone there, the foreign queue is lost.  This is so for an alarm of the
first counter and for one of any third counter.
-/

set_option autoImplicit false

namespace Eos.Analysis

open Eos.Lib (LinkMem RingAt SameBut)
open Eos.Model
open Eos.Interface

/-! ## Two queues -/

section Defs

variable {A F P : Type}

/-- Two counters with well-formed alarm queues. -/
structure TwoQueues (m : LinkMem Nat A) (c d : Nat) (xs ys : List A) : Prop where
  first : RingAt m c xs
  second : RingAt m d ys
  disjoint : xs.Disjoint ys

/-- An alarm is pending in the well-formed queue of a third counter. -/
def OnThird (m : LinkMem Nat A) (c d : Nat) (xs ys : List A) (a : A) : Prop :=
  ∃ e zs, e ≠ c ∧ e ≠ d ∧ RingAt m e zs ∧ a ∈ zs ∧ xs.Disjoint zs ∧ ys.Disjoint zs

/-- An alarm is pending on one of the two counters or on a third one, or its links are null. -/
def OnOneOf (m : LinkMem Nat A) (c d : Nat) (xs ys : List A) (a : A) : Prop :=
  a ∈ xs ∨ a ∈ ys ∨ (m.next a = none ∨ m.prev a = none) ∨ OnThird m c d xs ys a

/-- **The alarm was moved** to counter `d`: it is queued once, there, no other counter leads to it,
and the other alarms of both counters stay in their order. -/
def Rearmed [DecidableEq A] (t' : Option (Timers LinkMem A F P)) (c d : Nat) (xs ys : List A)
    (a : A) : Prop :=
  ∃ t ys', t' = some t ∧ TwoQueues t.alarmQueue c d (xs.erase a) ys' ∧ a ∈ ys' ∧
    ys'.erase a = ys.erase a ∧ ∀ e ≠ d, t.alarmQueue.head e ≠ some a

end Defs

variable {A F P : Type} [DecidableEq A] {m m' : LinkMem Nat A} {c d : Nat} {xs ys : List A} {a : A}
  {t : Timers LinkMem A F P} {timeout : UInt32} {entry : Option F} {arg : Option P}

/-! ## The routines on one of the queues -/

/-- Taking an inserted node out again. -/
theorem erase_insertOrdered {key : A → Nat} (ha : a ∉ xs) :
    (insertOrdered key a xs).erase a = xs := by
  have hnot : a ∉ xs.takeWhile fun x => key x ≤ key a :=
    fun hc => ha ((List.takeWhile_prefix _).subset hc)
  rw [insertOrdered, List.erase_append_right _ hnot, List.erase_cons_head,
    List.takeWhile_append_dropWhile]

/-- Adding an alarm that is in neither queue to the second one. -/
theorem TwoQueues.add [Fintype A] (h : TwoQueues m c d xs ys) (hcd : c ≠ d) (hx : a ∉ xs)
    (hy : a ∉ ys) (key : A → Nat) : ∃ m', osAddNodeOrdered m key d a = some m' ∧
      TwoQueues m' c d xs (insertOrdered key a ys) := by
  obtain ⟨m', hm', hr, hs⟩ := osAddNodeOrdered_at h.second hy key
  refine ⟨m', hm', h.first.frame hs hcd fun b hb hc => ?_, hr, fun b hb hc => ?_⟩
  · obtain rfl | hc := List.mem_cons.mp hc
    · exact hx hb
    · exact h.disjoint hb hc
  · obtain rfl | hc := mem_insertOrdered.mp hc
    · exact hx hb
    · exact h.disjoint hb hc

/-- Removing an alarm through the head cell of the second queue, when it is not the first one of
another queue. -/
theorem TwoQueues.remove (h : TwoQueues m c d xs ys) (hcd : c ≠ d) (ha : OnOneOf m c d xs ys a)
    (hfirst : ∀ e ≠ d, m.head e ≠ some a) :
    TwoQueues (osRemoveNode m d a).1 c d (xs.erase a) (ys.erase a) := by
  have hdisj : (xs.erase a).Disjoint (ys.erase a) := fun b hx hy =>
    h.disjoint (List.mem_of_mem_erase hx) (List.mem_of_mem_erase hy)
  have hd : a ∉ ys → m.head d ≠ some a := by
    intro hy hc
    rw [h.second.head] at hc
    exact hy (List.mem_of_mem_head? hc)
  by_cases hx : a ∈ xs
  · have hy : a ∉ ys := fun hc => h.disjoint hx hc
    obtain ⟨hr, hs, -⟩ :=
      osRemoveNode_inner h.first hx (by rw [← h.first.head]; exact hfirst c hcd) (hd hy)
    have hother := h.second.frame hs hcd.symm fun b hb hc => h.disjoint hc hb
    rw [← List.erase_of_not_mem hy] at hother
    exact ⟨hr, hother, hdisj⟩
  by_cases hy : a ∈ ys
  · obtain ⟨hr, hs⟩ := osRemoveNode_at h.second hy
    have hother := h.first.frame hs hcd fun b hb hc => h.disjoint hb hc
    rw [← List.erase_of_not_mem hx] at hother
    exact ⟨hother, hr, hdisj⟩
  rw [List.erase_of_not_mem hx, List.erase_of_not_mem hy]
  obtain hnull | ⟨e, zs, hec, hed, hz, haz, hxz, hyz⟩ := (ha.resolve_left hx).resolve_left hy
  · have hsame : (osRemoveNode m d a).1 = m := by
      unfold osRemoveNode
      split
      · next hn hp => simp [hn, hp] at hnull
      · rfl
    rw [hsame]
    exact h
  · -- the links of the third queue are no links of the two
    obtain ⟨-, hs, -⟩ :=
      osRemoveNode_inner hz haz (by rw [← hz.head]; exact hfirst e hed) (hd hy)
    exact ⟨h.first.frame hs hec.symm fun b hb hc => hxz hb hc,
      h.second.frame hs hed.symm fun b hb hc => hyz hb hc, h.disjoint⟩

/-! ## `eos_set_alarm` -/

/-- The fields once an alarm is set. -/
def armedFields (f : AlarmFields A F P) (a : A) (due : UInt32) (entry : Option F) (arg : Option P) :
    AlarmFields A F P :=
  { f with
    timeout := Function.update f.timeout a due
    handler := Function.update f.handler a entry
    arg := Function.update f.arg a arg
    pnode := Function.update f.pnode a (some a)
    orderVal := Function.update f.orderVal a due.toNat }

/-- Setting an alarm takes it out of a queue and inserts it at its due tick. -/
theorem eosSetAlarm_eq [Fintype A] (htimeout : timeout ≠ 0) (hentry : entry ≠ none) :
    eosSetAlarm t d a timeout entry arg =
      (osAddNodeOrdered (osRemoveNode t.alarmQueue d a).1
        (armedFields t.fields a (t.fields.tick d + timeout) entry arg).orderVal d a).map
          fun m => ⟨m, armedFields t.fields a (t.fields.tick d + timeout) entry arg⟩ := by
  have hset : ¬(timeout = 0 ∨ entry.isNone) := by
    rintro (hc | hc)
    · exact htimeout hc
    · exact hentry (Option.isNone_iff_eq_none.mp hc)
  simp only [eosSetAlarm, NodeLists.osRemoveNode, NodeLists.osAddNodeOrdered, Option.bind_eq_bind,
    Option.bind_some, if_neg hset, Option.pure_def]
  exact Option.map_eq_bind.symm

/-- **An alarm is re-armed on another counter** exactly if it is not the first one in the queue of
a counter other than that. -/
theorem rearmed_iff [Fintype A] (h : TwoQueues t.alarmQueue c d xs ys) (hcd : c ≠ d)
    (ha : OnOneOf t.alarmQueue c d xs ys a) (htimeout : timeout ≠ 0) (hentry : entry ≠ none) :
    Rearmed (eosSetAlarm t d a timeout entry arg) c d xs ys a ↔
      ∀ e ≠ d, t.alarmQueue.head e ≠ some a := by
  rw [eosSetAlarm_eq htimeout hentry]
  -- the head cells of the other counters stay as they are
  have hheads : ∀ m', osAddNodeOrdered (osRemoveNode t.alarmQueue d a).1
      (armedFields t.fields a (t.fields.tick d + timeout) entry arg).orderVal d a = some m' →
      ∀ e ≠ d, m'.head e = t.alarmQueue.head e := fun m' hm' e hed => by
    rw [osAddNodeOrdered_head hm' hed, osRemoveNode_head _ _ hed]
  constructor
  · rintro ⟨t', ys', ht', -, -, -, hnone⟩ e hed
    obtain ⟨m', hm', rfl⟩ := Option.map_eq_some_iff.mp ht'
    rw [← hheads m' hm' e hed]
    exact hnone e hed
  · intro hfirst
    have hremove := h.remove hcd ha hfirst
    have hx : a ∉ xs.erase a := fun hc => (h.first.nodup.mem_erase_iff.mp hc).1 rfl
    have hy : a ∉ ys.erase a := fun hc => (h.second.nodup.mem_erase_iff.mp hc).1 rfl
    obtain ⟨m', hm', hadd⟩ := hremove.add hcd hx hy
      (armedFields t.fields a (t.fields.tick d + timeout) entry arg).orderVal
    refine ⟨_, _, by rw [hm']; rfl, hadd, mem_insertOrdered.mpr (.inl rfl), erase_insertOrdered hy,
      fun e hed => ?_⟩
    rw [hheads m' hm' e hed]
    exact hfirst e hed

/-- **An alarm that is alone on its counter** is alone on the counter it is set on too: the head
cell of that one is cleared first, and the alarms queued there are lost. -/
theorem rearm_loses [Fintype A] {e : Nat} (h : RingAt t.alarmQueue e [a])
    (htimeout : timeout ≠ 0) (hentry : entry ≠ none) :
    ∃ t', eosSetAlarm t d a timeout entry arg = some t' ∧ RingAt t'.alarmQueue d [a] := by
  have hself : t.alarmQueue.next a = some a ∧ t.alarmQueue.prev a = some a := by
    obtain ⟨hnext, hprev⟩ := h.links List.mem_cons_self
    obtain ⟨b, hb, hnb⟩ := hnext
    obtain ⟨b', hb', hpb⟩ := hprev
    rw [List.mem_singleton] at hb hb'
    exact ⟨hb ▸ hnb, hb' ▸ hpb⟩
  have hempty : (osRemoveNode t.alarmQueue d a).1.head d = none := by
    unfold osRemoveNode
    simp [hself.1, hself.2]
  have hadd : osAddNodeOrdered (osRemoveNode t.alarmQueue d a).1
      (armedFields t.fields a (t.fields.tick d + timeout) entry arg).orderVal d a =
        some (linkAlone (osRemoveNode t.alarmQueue d a).1 d a) := by
    unfold osAddNodeOrdered
    rw [hempty]
  refine ⟨_, by rw [eosSetAlarm_eq htimeout hentry, hadd]; rfl, ?_⟩
  exact Eos.Lib.ringAt_singleton _ d a

/-! ## Two alarms on counter 0 -/

/-- A counter 0 with a queue, and nothing on counter 1. -/
def oneQueue {A : Type} (m : LinkMem Nat A) : Timers LinkMem A Unit Unit :=
  ⟨m, ⟨fun _ => 0, fun _ => 0, fun _ => none, fun _ => none, fun _ => none, fun _ => 0⟩⟩

/-- Alarm 0 alone on counter 0. -/
theorem twoQueues_alone : TwoQueues (linkAlone LinkMem.empty 0 (0 : Fin 2)) 0 1 [0] [] where
  first := Eos.Lib.ringAt_singleton LinkMem.empty 0 0
  second := ⟨rfl, trivial, List.nodup_nil⟩
  disjoint := by simp

/-- **An alarm that is alone on its counter** stays first there when it is set on another one. -/
theorem rearm_alone : ∃ t : Timers LinkMem (Fin 2) Unit Unit,
    TwoQueues t.alarmQueue 0 1 [0] [] ∧
      ¬Rearmed (eosSetAlarm t 1 0 1 (some ()) none) 0 1 [0] [] 0 := by
  refine ⟨oneQueue (linkAlone LinkMem.empty 0 0), twoQueues_alone, ?_⟩
  rintro ⟨t', ys', ht', hq, -⟩
  have hhead : (eosSetAlarm (oneQueue (linkAlone LinkMem.empty 0 (0 : Fin 2))) 1 0 1 (some ())
      none).map (fun t => t.alarmQueue.head 0) = some (some 0) := by decide
  rw [ht', Option.map_some, Option.some.injEq, hq.first.head] at hhead
  simp at hhead

/-- Alarms 0 and 1 on counter 0, alarm 2 on counter 1, and alarms 3 and 4 on counter 2. -/
def threeQueues : LinkMem Nat (Fin 6) where
  head := ([some 0, some 2, some 3][·]?.join)
  next := ([1, 0, 2, 4, 3][·.val]?)
  prev := ([1, 0, 2, 4, 3][·.val]?)

/-- Alarm 4, pending behind alarm 3 on counter 2, moves to counter 1, where alarm 2 is pending. -/
theorem rearm_second : ∃ t : Timers LinkMem (Fin 6) Unit Unit,
    TwoQueues t.alarmQueue 0 1 [0, 1] [2] ∧ RingAt t.alarmQueue 2 [3, 4] ∧
      Rearmed (eosSetAlarm t 1 4 1 (some ()) none) 0 1 [0, 1] [2] 4 := by
  have hq : TwoQueues threeQueues 0 1 [0, 1] [2] :=
    ⟨⟨rfl, by simp [Eos.Lib.IsRing, LinkMem.Linked, threeQueues], by decide⟩,
      ⟨rfl, by simp [Eos.Lib.IsRing, LinkMem.Linked, threeQueues], by decide⟩, by simp⟩
  have hz : RingAt threeQueues 2 [3, 4] :=
    ⟨rfl, by simp [Eos.Lib.IsRing, LinkMem.Linked, threeQueues], by decide⟩
  have hthird : OnThird threeQueues 0 1 [0, 1] [2] 4 :=
    ⟨2, [3, 4], by decide, by decide, hz, by decide, by simp, by simp⟩
  refine ⟨oneQueue threeQueues, hq, hz, (rearmed_iff hq (by decide) (.inr (.inr (.inr hthird)))
    (by decide) (by simp)).mpr fun e _ => ?_⟩
  show threeQueues.head e ≠ some 4
  rcases e with _ | _ | _ | e
  · decide
  · decide
  · decide
  · simp [threeQueues]

end Eos.Analysis
