import Eos.Analysis.Alarms
import Eos.Model.AlarmSteps

/-!
# The alarm queue of a counter

`AlarmRing` says that the alarm queue is the ring of the pending alarms, by due tick and order
of setting.  `eos_set_alarm` (core/timer.c:28-52) keeps it, and so does the removal of an alarm
in `eos_trigger_counter`, which finds the alarms that are due at the front.
-/

set_option autoImplicit false

namespace Eos.Analysis

open Eos.Lib (LinkMem RingsOk)
open Eos.Model
open Eos.Interface

variable {A F P : Type} [DecidableEq A]

/-! ## Sorted queues -/

/-- Settings of two alarms are in order. -/
def InOrder (es : List (Event A)) (a b : A) : Prop :=
  ∀ p q, setting es a = some p → setting es b = some q → p.Before q

/-! ## The queue of a counter -/

/-- The fields of a pending alarm, when the counter has started at `tick`. -/
structure Armed (tick : Nat) (f : AlarmFields A F P) (a : A) (p : Setting) : Prop where
  pnode : f.pnode a = some a
  handler : (f.handler a).isSome
  timeout : (f.timeout a).toNat = tick + p.due
  orderVal : f.orderVal a = tick + p.due

/-- **The queue of a counter** that has started at `tick`: the ring of its pending alarms, by due
tick and order of setting. -/
structure AlarmRing (counter tick : Nat) (t : Timers LinkMem A F P) (es : List (Event A))
    (ring : Nat → List A) : Prop where
  rings : RingsOk t.alarmQueue ring
  other : ∀ c, c ≠ counter → ring c = []
  mem : ∀ a, a ∈ ring counter ↔ ∃ p, setting es a = some p
  sorted : (ring counter).Pairwise (InOrder es)
  armed : ∀ a p, setting es a = some p → Armed tick t.fields a p
  tick : (t.fields.tick counter).toNat = tick + triggers es

namespace AlarmRing

variable {counter tick : Nat} {t : Timers LinkMem A F P} {es : List (Event A)}
  {ring : Nat → List A} {a : A}

/-- `_os_remove_node` on the alarm queue. -/
theorem osRemoveNode (h : AlarmRing counter tick t es ring) (a : A) :
    ∃ m, NodeLists.osRemoveNode t.alarmQueue counter a = some m ∧
      RingsOk m (Function.update ring counter ((ring counter).erase a)) := by
  exact ⟨_, rfl, osRemoveNode_only h.rings h.other a⟩

/-- The alarms that stay when one is taken out. -/
theorem mem_erase (h : AlarmRing counter tick t es ring) {b : A} :
    b ∈ (ring counter).erase a ↔ b ≠ a ∧ ∃ p, setting es b = some p := by
  rw [(h.rings.nodup counter).mem_erase_iff, h.mem]

/-- An alarm is taken out by an event that ends its setting and no other. -/
theorem erase (h : AlarmRing counter tick t es ring) {es' : List (Event A)} {m : LinkMem Nat A}
    (hm : RingsOk m (Function.update ring counter ((ring counter).erase a)))
    (hnone : setting es' a = none) (hne : ∀ b, b ≠ a → setting es' b = setting es b)
    (ht : triggers es' = triggers es) :
    AlarmRing counter tick { t with alarmQueue := m } es'
      (Function.update ring counter ((ring counter).erase a)) where
  rings := hm
  other c hc := by rw [Function.update_of_ne hc, h.other c hc]
  mem b := by
    rw [Function.update_self, h.mem_erase]
    by_cases hb : b = a
    · simp [hb, hnone]
    · simp [hb, hne b hb]
  sorted := by
    rw [Function.update_self]
    refine (h.sorted.sublist List.erase_sublist).imp_of_mem fun hb hc hbc p q hp hq => ?_
    rw [hne _ (h.mem_erase.mp hb).1] at hp
    rw [hne _ (h.mem_erase.mp hc).1] at hq
    exact hbc p q hp hq
  armed b p hp := by
    have hb : b ≠ a := by
      rintro rfl
      rw [hnone] at hp
      cases hp
    exact h.armed b p ((hne b hb).symm.trans hp)
  tick := by rw [ht]; exact h.tick

/-- The next tick, at which no setting is older than before. -/
theorem incrementTick (h : AlarmRing counter tick t es ring)
    (hfit : tick + triggers es + 1 < 2 ^ 32) :
    AlarmRing counter tick (Model.incrementTick t counter) (.trigger :: es) ring := by
  refine ⟨h.rings, h.other, h.mem, h.sorted, fun a p hp => ?_, ?_⟩
  · have ha := h.armed a p hp
    exact ⟨ha.pnode, ha.handler, ha.timeout, ha.orderVal⟩
  · have htick := h.tick
    have hone : (1 : UInt32).toNat = 1 := rfl
    simp only [Model.incrementTick, Function.update_self, UInt32.toNat_add, triggers]
    rw [htick, hone, Nat.mod_eq_of_lt hfit, Nat.add_assoc]

/-- The loop of `eos_trigger_counter` looks at the first alarm of the queue. -/
theorem expiredAlarm_eq (h : AlarmRing counter tick t es ring) :
    expiredAlarm t counter =
      (ring counter).head?.filter fun a => decide (t.fields.timeout a ≤ t.fields.tick counter) := by
  refine Model.expiredAlarm_eq (h.rings.head counter) fun a ha => ?_
  obtain ⟨p, hp⟩ := (h.mem a).mp ha
  exact (h.armed a p hp).pnode

/-- **The next alarm** is the first of the pending ones, and it is due. -/
theorem of_expired (h : AlarmRing counter tick t es ring) (he : expiredAlarm t counter = some a)
    (hearly : ∀ b p, setting es b = some p → triggers es ≤ p.due) : Firing es a := by
  rw [h.expiredAlarm_eq] at he
  obtain ⟨hhead, hle⟩ := Option.filter_eq_some_iff.mp he
  obtain ⟨rest, hr⟩ : ∃ rest, ring counter = a :: rest := List.head?_eq_some_iff.mp hhead
  obtain ⟨p, hp⟩ := (h.mem a).mp (by rw [hr]; exact List.mem_cons_self)
  have hdue : p.due ≤ triggers es := by
    have hle := UInt32.le_iff_toNat_le.mp (of_decide_eq_true hle)
    rw [(h.armed a p hp).timeout, h.tick] at hle
    omega
  refine ⟨p, hp, le_antisymm hdue (hearly a p hp), fun b q hb hq => ?_⟩
  have hmem := (h.mem b).mpr ⟨q, hq⟩
  have hsorted := h.sorted
  rw [hr] at hmem hsorted
  exact (List.pairwise_cons.mp hsorted).1 b ((List.mem_cons.mp hmem).resolve_left hb) p q hp hq

/-- **Nothing is left behind** when the loop ends. -/
theorem of_not_expired (h : AlarmRing counter tick t es ring) (he : expiredAlarm t counter = none)
    {p : Setting} (hp : setting es a = some p) : triggers es < p.due := by
  rw [h.expiredAlarm_eq] at he
  have hmem := (h.mem a).mpr ⟨p, hp⟩
  cases hr : ring counter with
  | nil =>
    rw [hr] at hmem
    cases hmem
  | cons b rest =>
    obtain ⟨q, hq⟩ := (h.mem b).mp (by rw [hr]; exact List.mem_cons_self)
    have hlt : triggers es < q.due := by
      rw [hr, List.head?_cons, Option.filter_eq_none_iff] at he
      have hgt := he b rfl
      rw [decide_eq_true_eq, UInt32.le_iff_toNat_le, (h.armed b q hq).timeout, h.tick] at hgt
      omega
    have hsorted := h.sorted
    rw [hr] at hmem hsorted
    obtain rfl | hmem := List.mem_cons.mp hmem
    · rw [hq] at hp
      cases hp
      exact hlt
    · obtain h | ⟨h, -⟩ := (List.pairwise_cons.mp hsorted).1 a hmem q p hq hp <;> omega

/-- The setting of an alarm that has been taken out. -/
theorem add (h : AlarmRing counter tick t (.set a 0 :: es) ring) {delay : Nat} (hdelay : delay ≠ 0)
    {f : AlarmFields A F P} {m : LinkMem Nat A}
    (hm : RingsOk m (Function.update ring counter (insertOrdered f.orderVal a (ring counter))))
    (hself : Armed tick f a ⟨triggers es + delay, es.length⟩)
    (hother : ∀ b p, b ≠ a → Armed tick t.fields b p → Armed tick f b p)
    (htick : f.tick counter = t.fields.tick counter) :
    AlarmRing counter tick ⟨m, f⟩ (.set a delay :: es)
      (Function.update ring counter (insertOrdered f.orderVal a (ring counter))) := by
  have hnone : setting (.set a 0 :: es) a = none := setting_set_self
  have hne : ∀ b ∈ ring counter, b ≠ a := by
    rintro b hb rfl
    obtain ⟨p, hp⟩ := (h.mem b).mp hb
    rw [hnone] at hp
    cases hp
  have hsetting : ∀ b, b ≠ a → setting (.set a delay :: es) b = setting (.set a 0 :: es) b :=
    fun b hb => (setting_set_of_ne hb).trans (setting_set_of_ne hb).symm
  have hnew : setting (.set a delay :: es) a = some ⟨triggers es + delay, es.length⟩ := by
    rw [setting_set_self, if_neg hdelay]
  have hkey : ∀ b ∈ ring counter, ∃ p, setting (.set a 0 :: es) b = some p ∧
      f.orderVal b = tick + p.due := by
    intro b hb
    obtain ⟨p, hp⟩ := (h.mem b).mp hb
    exact ⟨p, hp, (hother b p (hne b hb) (h.armed b p hp)).orderVal⟩
  have hkeya := hself.orderVal
  refine ⟨hm, fun c hc => by rw [Function.update_of_ne hc, h.other c hc], fun b => ?_, ?_,
    fun b p hp => ?_, by simpa only [htick, triggers] using h.tick⟩
  · rw [Function.update_self, mem_insertOrdered, h.mem]
    by_cases hb : b = a
    · simp [hb, hnew]
    · simp [hb, hsetting b hb]
  · rw [Function.update_self]
    apply pairwise_insertOrdered h.sorted
    · intro x hx y hy hxy
      obtain ⟨p, hp, hpkey⟩ := hkey x hx
      obtain ⟨q, hq, hqkey⟩ := hkey y hy
      obtain hlt | ⟨heq, -⟩ := hxy p q hp hq <;> omega
    · intro x hx y hy hxy p q hp hq
      rw [hsetting x (hne x hx)] at hp
      rw [hsetting y (hne y hy)] at hq
      exact hxy p q hp hq
    · intro x hx hle p q hp hq
      rw [hsetting x (hne x hx)] at hp
      rw [hnew] at hq
      cases hq
      obtain ⟨p', hp', hpkey⟩ := hkey x hx
      rw [hp] at hp'
      cases hp'
      rw [setting_set_of_ne (hne x hx)] at hp
      have hold := order_lt hp
      have hdue : p.due ≤ triggers es + delay := by simp only at hkeya; omega
      exact (Nat.lt_or_eq_of_le hdue).imp_right fun heq => ⟨heq, hold⟩
    · intro x hx hlt p q hp hq
      rw [hsetting x (hne x hx)] at hq
      rw [hnew] at hp
      cases hp
      obtain ⟨q', hq', hqkey⟩ := hkey x hx
      rw [hq] at hq'
      cases hq'
      exact .inl (by simp only at hkeya ⊢; omega)
  · by_cases hb : b = a
    · subst hb
      rw [hnew] at hp
      cases hp
      exact hself
    · rw [hsetting b hb] at hp
      exact hother b p hb (h.armed b p hp)

/-- **`eos_set_alarm`** has a result, and keeps the queue if the due tick fits. -/
theorem eosSetAlarm [Fintype A] (h : AlarmRing counter tick t es ring) (call : SetAlarm A F P) :
    ∃ t', Model.eosSetAlarm t counter call.alarm call.timeout call.entry call.arg = some t' ∧
      (tick + triggers es + call.delay < 2 ^ 32 →
        ∃ ring', AlarmRing counter tick t' (.set call.alarm call.delay :: es) ring') := by
  obtain ⟨m, hm, hok⟩ := h.osRemoveNode call.alarm
  have hnone : setting (.set call.alarm 0 :: es) call.alarm = none := if_pos rfl
  have herase := h.erase hok hnone (fun b hb => setting_set_of_ne hb) rfl
  unfold Model.eosSetAlarm
  rw [hm]
  by_cases hc : call.timeout = 0 ∨ call.entry.isNone
  · have hdelay : call.delay = 0 := if_pos hc
    rw [hdelay]
    exact ⟨_, if_pos hc, fun _ => ⟨_, herase⟩⟩
  · have hdelay : call.delay = call.timeout.toNat := if_neg hc
    rw [not_or] at hc
    generalize hf : (AlarmFields.mk t.fields.tick
      (Function.update t.fields.timeout call.alarm (t.fields.tick counter + call.timeout))
      (Function.update t.fields.handler call.alarm call.entry)
      (Function.update t.fields.arg call.alarm call.arg)
      (Function.update t.fields.pnode call.alarm (some call.alarm))
      (Function.update t.fields.orderVal call.alarm
        (t.fields.tick counter + call.timeout).toNat)) = f
    have hfree : ∀ c, call.alarm ∉
        Function.update ring counter ((ring counter).erase call.alarm) c := by
      intro c hmem
      by_cases hcc : c = counter
      · subst hcc
        obtain ⟨p, hp⟩ := (herase.mem call.alarm).mp hmem
        rw [setting_set_self] at hp
        cases hp
      · rw [herase.other c hcc] at hmem
        cases hmem
    obtain ⟨m', hm', hok'⟩ := osAddNodeOrdered_free (h := counter) hok hfree f.orderVal
    refine ⟨⟨m', f⟩, ?_, fun hfit => ⟨_, herase.add ?_ hok' ?_ ?_ (by rw [← hf])⟩⟩
    · refine (if_neg (by simpa using hc)).trans ?_
      subst hf
      show ((Model.osAddNodeOrdered m _ counter call.alarm).bind _) = _
      rw [hm']
      rfl
    · exact fun hzero => hc.1 (UInt32.toNat_inj.mp (hdelay.symm.trans hzero))
    · have hdue : (t.fields.tick counter + call.timeout).toNat =
          tick + (triggers es + call.delay) := by
        rw [UInt32.toNat_add, h.tick, ← hdelay, Nat.mod_eq_of_lt hfit, Nat.add_assoc]
      subst hf
      constructor
      · simp only [Function.update_self]
      · simp only [Function.update_self]
        exact Option.isSome_iff_ne_none.mpr fun hnone => hc.2 (by rw [hnone]; rfl)
      · simp only [Function.update_self, hdue]
      · simp only [Function.update_self, hdue]
    · intro b p hb harmed
      subst hf
      constructor
      · exact (Function.update_of_ne hb _ _).trans harmed.pnode
      · simpa only [Function.update_of_ne hb] using harmed.handler
      · simpa only [Function.update_of_ne hb] using harmed.timeout
      · exact (Function.update_of_ne hb _ _).trans harmed.orderVal

end AlarmRing

end Eos.Analysis
