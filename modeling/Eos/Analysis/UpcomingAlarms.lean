import Eos.Analysis.Runs
import Eos.Analysis.Timeless
import Eos.Analysis.TwoCounters

/-!
# Alarms that are still to come

The alarm queue of the system timer between ticks, while no due tick wraps: it is sorted, and no
alarm in it is due (`Upcoming`).  So the next tick makes exactly those tasks ready that sleep
until then (`triggerAlarms_wakes`), and every other sleeping task sleeps on.
-/

set_option autoImplicit false

namespace Eos.Analysis

open Eos.Model
open Eos.Interface

variable {T : Type} [DecidableEq T]

/-- The queue of the system timer is sorted by the ticks at which its alarms are due, and these are
still to come. -/
structure Upcoming (m : Timers Rings T Handler T) : Prop where
  sorted : (m.alarmQueue.ring systemTimer).Pairwise fun t u =>
    m.fields.timeout t ≤ m.fields.timeout u
  orderVal : ∀ t ∈ m.alarmQueue.ring systemTimer, m.fields.orderVal t = (m.fields.timeout t).toNat
  later : ∀ t ∈ m.alarmQueue.ring systemTimer, m.fields.tick systemTimer < m.fields.timeout t

variable {m m' : Timers Rings T Handler T} {t u : T} {idle : T} {a b : Kernel Rings T}
  {timeout : UInt32}

/-! ## Setting an alarm -/

/-- Without one of its alarms, the others are still due later. -/
theorem Upcoming.drop (h : Upcoming m) (t : T) : Upcoming (dropAlarm m t) := by
  have hring : (dropAlarm m t).alarmQueue.ring systemTimer =
      (m.alarmQueue.ring systemTimer).erase t := by simp [dropAlarm]
  refine ⟨?_, fun u hu => ?_, fun u hu => ?_⟩
  · rw [hring]
    exact h.sorted.sublist List.erase_sublist
  · rw [hring] at hu
    exact h.orderVal u (List.mem_of_mem_erase hu)
  · rw [hring] at hu
    exact h.later u (List.mem_of_mem_erase hu)

/-- The timers once the alarm of a task is set. -/
theorem AlarmsOk.eosSetAlarm_eq [Fintype T] (h : AlarmsOk m) (h0 : timeout ≠ 0) :
    eosSetAlarm m systemTimer t timeout (some .osWakeupFromAlarmQueue) (some t) =
      let fields := armedFields m.fields t (m.fields.tick systemTimer + timeout)
        (some .osWakeupFromAlarmQueue) (some t)
      some ⟨(dropAlarm m t).alarmQueue.set systemTimer (insertOrdered fields.orderVal t
        ((m.alarmQueue.ring systemTimer).erase t)), fields⟩ := by
  have hfree : ¬Linked (dropAlarm m t).alarmQueue t := fun hc => (h.pending_dropAlarm.mp hc).2 rfl
  have hring : (dropAlarm m t).alarmQueue.ring systemTimer =
      (m.alarmQueue.ring systemTimer).erase t := by simp [dropAlarm]
  unfold eosSetAlarm
  rw [h.osRemoveNode_eq, Option.bind_eq_bind, Option.bind_some, if_neg (by simp [h0])]
  show (Rings.addOrdered _ _ _ _).bind _ = _
  rw [Rings.addOrdered, if_neg hfree, hring]
  rfl

/-- **A task that goes to sleep** comes to its place in the queue, and no other one moves. -/
theorem Upcoming.set [Fintype T] (ha : AlarmsOk m) (h : Upcoming m) (h0 : timeout ≠ 0)
    (hfit : (m.fields.tick systemTimer).toNat + timeout.toNat < 2 ^ 32)
    (hm : eosSetAlarm m systemTimer t timeout (some .osWakeupFromAlarmQueue) (some t) = some m') :
    Upcoming m' ∧ m'.fields.tick = m.fields.tick ∧ Pending m' t ∧
      m'.fields.timeout t = m.fields.tick systemTimer + timeout ∧
      ∀ u ≠ t, (Pending m' u ↔ Pending m u) ∧ m'.fields.timeout u = m.fields.timeout u := by
  obtain ⟨m₁, hm₁, -, hpend, -⟩ := ha.eosSetAlarm_ok (t := t) timeout
  obtain rfl : m₁ = m' := Option.some.inj (hm₁.symm.trans hm)
  rw [ha.eosSetAlarm_eq h0] at hm
  simp only [Option.some.injEq] at hm
  generalize hfields : armedFields m.fields t (m.fields.tick systemTimer + timeout)
    (some .osWakeupFromAlarmQueue) (some t) = fields at hm
  have hself : fields.timeout t = m.fields.tick systemTimer + timeout ∧
      fields.orderVal t = (fields.timeout t).toNat := by
    subst hfields
    simp [armedFields]
  have hother : ∀ u ≠ t, fields.timeout u = m.fields.timeout u ∧
      fields.orderVal u = m.fields.orderVal u := by
    intro u hu
    subst hfields
    simp [armedFields, hu]
  have htick : fields.tick = m.fields.tick := by
    subst hfields
    rfl
  have hrest : ∀ u ∈ (m.alarmQueue.ring systemTimer).erase t,
      u ∈ m.alarmQueue.ring systemTimer ∧ u ≠ t := by
    intro u hu
    exact ⟨List.mem_of_mem_erase hu, fun e => (ha.nodup systemTimer).not_mem_erase (e ▸ hu)⟩
  have hkey : ∀ u, u = t ∨ u ∈ (m.alarmQueue.ring systemTimer).erase t →
      fields.orderVal u = (fields.timeout u).toNat := by
    rintro u (rfl | hu)
    · exact hself.2
    · obtain ⟨hu, hut⟩ := hrest u hu
      rw [(hother u hut).1, (hother u hut).2]
      exact h.orderVal u hu
  refine ⟨?_, by rw [← hm, htick], (hpend t).mpr (.inr ⟨rfl, h0⟩), by rw [← hm, hself.1],
    fun u hu => ⟨?_, by rw [← hm, (hother u hu).1]⟩⟩
  · subst hm
    refine ⟨?_, fun u hu => ?_, fun u hu => ?_⟩
    · simp only [Rings.set_ring, Function.update_self]
      apply pairwise_insertOrdered (h.sorted.sublist List.erase_sublist)
      · intro x hx y hy hxy
        rw [hkey x (.inr hx), hkey y (.inr hy), (hother x (hrest x hx).2).1,
          (hother y (hrest y hy).2).1]
        exact UInt32.le_iff_toNat_le.mp hxy
      · intro x hx y hy hxy
        rw [(hother x (hrest x hx).2).1, (hother y (hrest y hy).2).1]
        exact hxy
      · intro x hx hle
        rw [hkey x (.inr hx), hkey t (.inl rfl)] at hle
        exact UInt32.le_iff_toNat_le.mpr hle
      · intro x hx hlt
        rw [hkey x (.inr hx), hkey t (.inl rfl)] at hlt
        exact UInt32.le_iff_toNat_le.mpr hlt.le
    · simp only [Rings.set_ring, Function.update_self, mem_insertOrdered] at hu
      exact hkey u hu
    · simp only [Rings.set_ring, Function.update_self, mem_insertOrdered] at hu
      simp only [htick]
      obtain rfl | hu := hu
      · rw [hself.1]
        have hpos : timeout.toNat ≠ 0 := fun he => h0 (UInt32.toNat_inj.mp he)
        rw [UInt32.lt_iff_toNat_lt, UInt32.toNat_add, Nat.mod_eq_of_lt hfit]
        omega
      · obtain ⟨hu, hut⟩ := hrest u hu
        rw [(hother u hut).1]
        exact h.later u hu
  · rw [hpend u]
    simp [hu]

/-! ## The alarms of a tick -/

variable [Fintype T]

/-- **The next tick** wakes the tasks up that sleep until then, and no other one. -/
theorem triggerAlarms_wakes (h : Scheduled idle a) (hs : Sleeping a) (hu : Upcoming a.timers)
    (hfit : a.tick.toNat + 1 < 2 ^ 32) :
    ∃ b, a.triggerAlarms = some b ∧ Scheduled idle b ∧ Sleeping b ∧ Upcoming b.timers ∧
      b.tick = a.tick + 1 ∧
      ∀ t, Pending a.timers t →
        (a.timers.fields.timeout t = a.tick + 1 → b.status t = .ready) ∧
        (a.timers.fields.timeout t ≠ a.tick + 1 → Pending b.timers t ∧
          b.timers.fields.timeout t = a.timers.fields.timeout t) := by
  set m := incrementTick a.timers systemTimer with hm
  have htick : m.fields.tick systemTimer = a.tick + 1 := by
    simp [hm, incrementTick, Kernel.tick]
  let J (b : Kernel Rings T) : Prop := b.timers.fields = m.fields ∧
    (b.timers.alarmQueue.ring systemTimer).Sublist (m.alarmQueue.ring systemTimer) ∧
    ∀ t, Pending a.timers t →
      Pending b.timers t ∨ b.status t = .ready ∧ m.fields.timeout t ≤ m.fields.tick systemTimer
  have hJ : ∀ b c t, Fired b c t → J b → J c := by
    rintro b c t hf ⟨hfields, hsub, hall⟩
    have hdue := hf.alarms.due_of_expired hf.expired
    refine ⟨by rw [hf.timers]; exact hfields, ?_, fun u hu => ?_⟩
    · rw [hf.timers]
      refine List.Sublist.trans ?_ hsub
      simp only [dropAlarm, Rings.set_ring, Function.update_self]
      exact List.erase_sublist
    · by_cases hut : u = t
      · subst hut
        rw [hfields] at hdue
        exact .inr ⟨hf.status, hdue⟩
      · rw [hf.timers, hf.alarms.pending_dropAlarm, hf.others u hut]
        exact (hall u hu).imp_left fun hp => ⟨hp, hut⟩
  obtain ⟨b, hb, hsb, hslb, -, -, -, -, ⟨hfields, hsub, hall⟩, hend⟩ :=
    triggerAlarms_sleeping hJ h hs ⟨rfl, List.Sublist.refl _, fun t ht => .inl ht⟩
  have hsorted : (b.timers.alarmQueue.ring systemTimer).Pairwise fun t u =>
      b.timers.fields.timeout t ≤ b.timers.fields.timeout u := by
    rw [hfields]
    exact hu.sorted.sublist hsub
  have hlater := later_of_expiredAlarm rfl (fun t ht => hsb.alarms.pnode t ⟨systemTimer, ht⟩)
    hsorted hend
  have htickb : b.timers.fields.tick systemTimer = a.tick + 1 := by rw [hfields, htick]
  refine ⟨b, hb, hsb, hslb, ⟨hsorted, fun t ht => ?_, hlater⟩, htickb, fun t ht => ⟨?_, ?_⟩⟩
  · rw [hfields]
    exact hu.orderVal t (hsub.subset ht)
  · intro hdue
    refine ((hall t ht).resolve_left fun hp => ?_).1
    have hlt := hlater t (hsb.alarms.pending_iff.mp hp)
    rw [htickb, hfields] at hlt
    exact UInt32.lt_irrefl _ (hdue ▸ hlt)
  · intro hne
    have hlt := hu.later t (h.alarms.pending_iff.mp ht)
    refine ⟨(hall t ht).resolve_right fun hr => hne ?_, by rw [hfields]; rfl⟩
    have hle := hr.2
    rw [htick] at hle
    have hle : a.timers.fields.timeout t ≤ a.tick + 1 := hle
    have hlt : a.tick < a.timers.fields.timeout t := hlt
    rw [UInt32.le_iff_toNat_le] at hle
    rw [UInt32.lt_iff_toNat_lt] at hlt
    have hsucc : (a.tick + 1).toNat = a.tick.toNat + 1 := by
      rw [UInt32.toNat_add]
      exact Nat.mod_eq_of_lt hfit
    exact UInt32.toNat_inj.mp (by omega)

end Eos.Analysis
