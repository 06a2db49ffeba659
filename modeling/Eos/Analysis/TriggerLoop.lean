import Eos.Analysis.Alarms
import Eos.Analysis.TwoCounters
import Eos.Model.AlarmSteps
import Mathlib.Data.List.TakeWhile

/-!
# The loop of `eos_trigger_counter` with handlers that re-arm

The loop (core/timer.c:73-89) takes alarms off the front of the queue while they are due, and
a handler may put its own alarm back.  An alarm whose new due tick lies behind the current
one is not looked at again.  But the due tick is computed modulo 2^32: if it wraps, the
alarm is due at once and its handler is called a second time in the same trigger.

`NoWrap` says that this does not happen to the alarms that are due, and the loop ends with
one call for each of them exactly then.
-/

set_option autoImplicit false

namespace Eos.Analysis

open Eos.Lib (LinkMem RingAt)
open Eos.Model
open Eos.Interface

/-! ## What is claimed of the loop, and the condition -/

section Defs

variable {A F P : Type}

/-- A counter with a well-formed alarm queue `xs`, sorted by the ticks its alarms are due at; every
handler can tell its alarm. -/
structure SortedQueue (owner : F → Option P → A) (counter : Nat) (t : Timers LinkMem A F P)
    (xs : List A) : Prop where
  ring : RingAt t.alarmQueue counter xs
  sorted : xs.Pairwise fun a b => (t.fields.timeout a).toNat ≤ (t.fields.timeout b).toNat
  pnode : ∀ a ∈ xs, t.fields.pnode a = some a
  orderVal : ∀ a ∈ xs, t.fields.orderVal a = (t.fields.timeout a).toNat
  handler : ∀ a ∈ xs, ∃ f, t.fields.handler a = some f ∧ owner f (t.fields.arg a) = a

/-- **The loop ends and calls every handler at most once.** -/
def EndsOnce [DecidableEq A] [Fintype A] (owner : F → Option P → A)
    (rearm : List A → A → Option UInt32) (counter : Nat) (t : Timers LinkMem A F P) : Prop :=
  ∃ fuel s, RearmRun.triggerCounter owner rearm counter fuel t = some s ∧ s.calls.Nodup

/-- No timeout that a handler in the sequence asks for leads beyond the last tick, when the handlers
are called one after the other. -/
def NoWrap (rearm : List A → A → Option UInt32) (tick : UInt32) : List A → List A → Prop
  | _, [] => True
  | calls, a :: rest =>
    (∀ timeout, rearm calls a = some timeout → tick.toNat + timeout.toNat < 2 ^ 32) ∧
      NoWrap rearm tick (a :: calls) rest

/-- The alarms that are due when the tick is incremented. -/
def dueAt (counter : Nat) (t : Timers LinkMem A F P) (xs : List A) : List A :=
  xs.takeWhile fun a => t.fields.timeout a ≤ t.fields.tick counter + 1

end Defs

variable {A F P : Type} [DecidableEq A] [Fintype A] {owner : F → Option P → A}
  {rearm : List A → A → Option UInt32} {counter fuel : Nat} {t : Timers LinkMem A F P}
  {s s' : RearmRun A F P} {xs ys later : List A} {a b : A}

/-! ## One alarm -/

omit [Fintype A] [DecidableEq A] in
/-- The loop looks at the first alarm. -/
theorem SortedQueue.expired (h : SortedQueue owner counter t (a :: xs))
    (hdue : t.fields.timeout a ≤ t.fields.tick counter) : expiredAlarm t counter = some a := by
  rw [expiredAlarm_eq h.ring.head h.pnode]
  simp [Option.filter, hdue]

omit [Fintype A] [DecidableEq A] in
/-- The loop ends in front of an alarm that is not due. -/
theorem SortedQueue.not_expired (h : SortedQueue owner counter t xs)
    (hlater : ∀ a ∈ xs, t.fields.tick counter < t.fields.timeout a) :
    expiredAlarm t counter = none := by
  rw [expiredAlarm_eq h.ring.head h.pnode]
  cases xs with
  | nil => rfl
  | cons a xs => simpa [Option.filter] using hlater a List.mem_cons_self

omit [DecidableEq A] [Fintype A] in
/-- Where the first alarm of a queue is not due, none is. -/
theorem none_due {tick : UInt32} {f : A → UInt32}
    (hsorted : (a :: xs).Pairwise fun a b => (f a).toNat ≤ (f b).toNat) (ha : tick < f a) :
    ∀ b ∈ a :: xs, tick < f b := by
  intro b hb
  obtain rfl | hb := List.mem_cons.mp hb
  · exact ha
  · have hle := (List.pairwise_cons.mp hsorted).1 b hb
    rw [UInt32.lt_iff_toNat_lt] at ha ⊢
    omega

omit [DecidableEq A] [Fintype A] in
/-- The queue without its first alarm. -/
theorem SortedQueue.tail [DecidableEq A] (h : SortedQueue owner counter t (a :: xs))
    {m : LinkMem Nat A} (hm : RingAt m counter xs) :
    SortedQueue owner counter { t with alarmQueue := m } xs where
  ring := hm
  sorted := (List.pairwise_cons.mp h.sorted).2
  pnode b hb := h.pnode b (List.mem_cons_of_mem a hb)
  orderVal b hb := h.orderVal b (List.mem_cons_of_mem a hb)
  handler b hb := h.handler b (List.mem_cons_of_mem a hb)

/-- A handler sets its own alarm again. -/
theorem SortedQueue.set (h : SortedQueue owner counter t xs) (ha : a ∉ xs)
    (hnull : t.alarmQueue.next a = none) {timeout : UInt32} (htimeout : timeout ≠ 0) {f : F}
    {arg : Option P} (hf : owner f arg = a) :
    ∃ m, eosSetAlarm t counter a timeout (some f) arg =
        some ⟨m, armedFields t.fields a (t.fields.tick counter + timeout) (some f) arg⟩ ∧
      SortedQueue owner counter
        ⟨m, armedFields t.fields a (t.fields.tick counter + timeout) (some f) arg⟩
        (insertOrdered
          (armedFields t.fields a (t.fields.tick counter + timeout) (some f) arg).orderVal a
          xs) := by
  have hsame : (osRemoveNode t.alarmQueue counter a).1 = t.alarmQueue := by
    simp [osRemoveNode, hnull]
  rw [eosSetAlarm_eq htimeout (by simp), hsame]
  generalize hfields :
    armedFields t.fields a (t.fields.tick counter + timeout) (some f) arg = fields
  have hself : fields.pnode a = some a ∧ fields.orderVal a = (fields.timeout a).toNat ∧
      ∃ f, fields.handler a = some f ∧ owner f (fields.arg a) = a := by
    subst hfields
    simp [armedFields, hf]
  have hother : ∀ b ∈ xs, fields.pnode b = some b ∧ fields.orderVal b = (fields.timeout b).toNat ∧
      (∃ f, fields.handler b = some f ∧ owner f (fields.arg b) = b) ∧
        fields.timeout b = t.fields.timeout b := by
    intro b hb
    have hba : b ≠ a := fun e => ha (e ▸ hb)
    subst hfields
    simpa [armedFields, hba] using ⟨h.pnode b hb, h.orderVal b hb, h.handler b hb⟩
  obtain ⟨m, hm, hr, -⟩ := osAddNodeOrdered_at h.ring ha fields.orderVal
  refine ⟨m, by rw [hm]; rfl, hr, ?_, fun b hb => ?_, fun b hb => ?_, fun b hb => ?_⟩
  · refine pairwise_insertOrdered h.sorted (fun b hb c hc hbc => ?_) (fun b hb c hc hbc => ?_)
      (fun b hb hle => ?_) fun b hb hlt => ?_
    · rw [(hother b hb).2.1, (hother c hc).2.1, (hother b hb).2.2.2, (hother c hc).2.2.2]
      exact hbc
    · rw [(hother b hb).2.2.2, (hother c hc).2.2.2]
      exact hbc
    · rwa [(hother b hb).2.1, hself.2.1] at hle
    · rw [(hother b hb).2.1, hself.2.1] at hlt
      exact hlt.le
  · obtain rfl | hb := mem_insertOrdered.mp hb
    · exact hself.1
    · exact (hother b hb).1
  · obtain rfl | hb := mem_insertOrdered.mp hb
    · exact hself.2.1
    · exact (hother b hb).2.1
  · obtain rfl | hb := mem_insertOrdered.mp hb
    · exact hself.2.2
    · exact (hother b hb).2.2.1

/-- What a pass through the loop does with the first alarm `a` of the queue. -/
structure Called (owner : F → Option P → A) (rearm : List A → A → Option UInt32) (counter : Nat)
    (s s' : RearmRun A F P) (a : A) (xs zs : List A) : Prop where
  queue : SortedQueue owner counter s'.timers zs
  calls : s'.calls = a :: s.calls
  tick : s'.timers.fields.tick = s.timers.fields.tick
  others : ∀ b ≠ a, s'.timers.fields.timeout b = s.timers.fields.timeout b
  /-- The alarm is not set again. -/
  idle : (∀ timeout, rearm s.calls a = some timeout → timeout = 0) → zs = xs
  /-- The alarm is set again. -/
  armed : ∀ timeout, rearm s.calls a = some timeout → timeout ≠ 0 →
    s'.timers.fields.timeout a = s.timers.fields.tick counter + timeout ∧
      ∃ key : A → Nat, (∀ b, b = a ∨ b ∈ xs → key b = (s'.timers.fields.timeout b).toNat) ∧
        zs = insertOrdered key a xs

/-- **One pass through the loop.** -/
theorem loop_step (rearm : List A → A → Option UInt32)
    (h : SortedQueue owner counter s.timers (a :: xs))
    (hdue : s.timers.fields.timeout a ≤ s.timers.fields.tick counter) :
    ∃ s' zs, (∀ fuel, RearmRun.loop owner rearm counter (fuel + 1) s =
        RearmRun.loop owner rearm counter fuel s') ∧
      Called owner rearm counter s s' a xs zs := by
  obtain ⟨f, hf, howner⟩ := h.handler a List.mem_cons_self
  obtain ⟨hr, -⟩ := osRemoveNode_at h.ring List.mem_cons_self
  rw [List.erase_cons_head] at hr
  obtain ⟨⟨q, -, hq⟩, p, -, hp⟩ := h.ring.links List.mem_cons_self
  obtain ⟨-, -, hnull⟩ :=
    osRemoveNode_links (n := a) (by rw [hq]; simp) (by rw [hp]; simp) counter
  have hax : a ∉ xs := (List.nodup_cons.mp h.ring.nodup).1
  have htail := h.tail hr
  -- the pass up to the call of the handler
  have hpass : ∀ fuel, RearmRun.loop owner rearm counter (fuel + 1) s =
      (RearmRun.callHandler owner rearm counter
        ⟨{ s.timers with alarmQueue := (osRemoveNode s.timers.alarmQueue counter a).1 }, s.calls⟩ f
          (s.timers.fields.arg a)).bind (RearmRun.loop owner rearm counter fuel) := by
    intro fuel
    unfold RearmRun.loop
    rw [triggerLoop, h.expired hdue]
    simp only [NodeLists.osRemoveNode, hf, Option.bind_eq_bind, Option.bind_some]
  generalize (osRemoveNode s.timers.alarmQueue counter a).1 = m at *
  have hskip : ∀ s', RearmRun.callHandler owner rearm counter ⟨{ s.timers with alarmQueue := m },
      s.calls⟩ f (s.timers.fields.arg a) = some s' → ∀ fuel,
        RearmRun.loop owner rearm counter (fuel + 1) s =
          RearmRun.loop owner rearm counter fuel s' := by
    intro s' hs' fuel
    rw [hpass, hs', Option.bind_some]
  unfold RearmRun.callHandler at hskip
  simp only [howner] at hskip
  cases hre : rearm s.calls a with
  | none =>
    rw [hre] at hskip
    refine ⟨_, xs, hskip _ rfl, htail, rfl, rfl, fun _ _ => rfl, fun _ => rfl, fun timeout he => ?_⟩
    rw [hre] at he
    cases he
  | some timeout =>
    rw [hre] at hskip
    by_cases hz : timeout = 0
    · have hset : eosSetAlarm { s.timers with alarmQueue := m } counter a timeout (some f)
          (s.timers.fields.arg a) = some { s.timers with alarmQueue := m } := by
        simp [eosSetAlarm, NodeLists.osRemoveNode, osRemoveNode, hnull, hz]
      simp only [hset, Option.bind_eq_bind, Option.bind_some, Option.pure_def] at hskip
      refine ⟨_, xs, hskip _ rfl, htail, rfl, rfl, fun _ _ => rfl, fun _ => rfl, fun u he hne => ?_⟩
      rw [hre] at he
      exact absurd (Option.some.inj he ▸ hz) hne
    · obtain ⟨m', hset, hq'⟩ := htail.set hax hnull hz howner
      simp only [hset, Option.bind_eq_bind, Option.bind_some, Option.pure_def] at hskip
      refine ⟨_, _, hskip _ rfl, hq', rfl, rfl, fun b hb => ?_, fun he => ?_, fun u he hne => ?_⟩
      · simp [armedFields, hb]
      · exact absurd (he timeout hre) hz
      · obtain rfl : timeout = u := Option.some.inj (hre.symm.trans he)
        refine ⟨by simp [armedFields], _, fun b hb => ?_, rfl⟩
        exact hq'.orderVal b (mem_insertOrdered.mpr hb)

/-! ## The alarms that are due, one after the other -/

omit [DecidableEq A] [Fintype A] in
/-- A due tick that does not wrap is behind the current one. -/
theorem lt_due {tick timeout : UInt32} (hne : timeout ≠ 0)
    (hwrap : tick.toNat + timeout.toNat < 2 ^ 32) : tick < tick + timeout := by
  have hpos : 0 < timeout.toNat :=
    Nat.pos_of_ne_zero fun he => hne (UInt32.toNat.inj (by rw [he]; rfl))
  rw [UInt32.lt_iff_toNat_lt, UInt32.toNat_add, Nat.mod_eq_of_lt hwrap]
  omega

omit [DecidableEq A] [Fintype A] in
/-- A due tick that wraps has passed already. -/
theorem due_le {tick timeout : UInt32} (hwrap : ¬tick.toNat + timeout.toNat < 2 ^ 32) :
    tick + timeout ≤ tick := by
  have htick := tick.toNat_lt
  have htimeout := timeout.toNat_lt
  rw [UInt32.le_iff_toNat_le, UInt32.toNat_add]
  omega

omit [Fintype A] [DecidableEq A] in
/-- An alarm that is not due yet goes behind those that are due. -/
theorem insertOrdered_later {key : A → Nat} {due : List A} (h : ∀ b ∈ due, key b ≤ key a) :
    insertOrdered key a (due ++ later) = due ++ insertOrdered key a later := by
  have hall : ∀ b ∈ due, decide (key b ≤ key a) = true := fun b hb => decide_eq_true (h b hb)
  unfold insertOrdered
  rw [List.takeWhile_append_of_pos hall, List.dropWhile_append_of_pos hall, List.append_assoc]

omit [Fintype A] [DecidableEq A] in
/-- Without a wrap, a pass leaves the alarms that are still due at the front. -/
theorem Called.rest {due zs : List A} (hc : Called owner rearm counter s s' a (due ++ later) zs)
    (ha : a ∉ due ++ later)
    (hdue : ∀ b ∈ due, s.timers.fields.timeout b ≤ s.timers.fields.tick counter)
    (hwrap : ∀ timeout, rearm s.calls a = some timeout →
      (s.timers.fields.tick counter).toNat + timeout.toNat < 2 ^ 32) :
    ∃ later', zs = due ++ later' ∧
      ∀ b ∈ later', b ∈ later ∨ s.timers.fields.tick counter < s'.timers.fields.timeout b := by
  by_cases hidle : ∀ timeout, rearm s.calls a = some timeout → timeout = 0
  · exact ⟨later, hc.idle hidle, fun b hb => .inl hb⟩
  push Not at hidle
  obtain ⟨timeout, hre, hne⟩ := hidle
  obtain ⟨htimeout, key, hkey, hzs⟩ := hc.armed timeout hre hne
  have hafter : s.timers.fields.tick counter < s'.timers.fields.timeout a := by
    rw [htimeout]
    exact lt_due hne (hwrap timeout hre)
  refine ⟨insertOrdered key a later, ?_, fun b hb => ?_⟩
  · rw [hzs]
    apply insertOrdered_later
    intro b hb
    have hmem : b ∈ due ++ later := List.mem_append_left later hb
    have hle := hdue b hb
    rw [hkey b (.inr hmem), hkey a (.inl rfl), hc.others b fun e => ha (e ▸ hmem)]
    rw [UInt32.le_iff_toNat_le] at hle
    rw [UInt32.lt_iff_toNat_lt] at hafter
    omega
  · obtain rfl | hb := mem_insertOrdered.mp hb
    · exact .inr hafter
    · exact .inl hb

/-- **The loop ends after the alarms that are due**, when none of their new due ticks wraps. -/
theorem loop_ends {due : List A} (h : SortedQueue owner counter s.timers (due ++ later))
    (hdue : ∀ b ∈ due, s.timers.fields.timeout b ≤ s.timers.fields.tick counter)
    (hlater : ∀ b ∈ later, s.timers.fields.tick counter < s.timers.fields.timeout b)
    (hwrap : NoWrap rearm (s.timers.fields.tick counter) s.calls due) :
    ∃ s', RearmRun.loop owner rearm counter (due.length + 1) s = some s' ∧
      s'.calls = due.reverse ++ s.calls := by
  induction due generalizing s later with
  | nil =>
    refine ⟨s, ?_, rfl⟩
    unfold RearmRun.loop
    rw [triggerLoop, h.not_expired hlater]
  | cons a due ih =>
    have ha : a ∉ due ++ later := (List.nodup_cons.mp h.ring.nodup).1
    obtain ⟨s₁, zs, hloop, hc⟩ := loop_step rearm h (hdue a List.mem_cons_self)
    obtain ⟨later', rfl, hlater'⟩ :=
      hc.rest ha (fun b hb => hdue b (List.mem_cons_of_mem a hb)) hwrap.1
    have hother : ∀ b, b ∈ due ∨ b ∈ later →
        s₁.timers.fields.timeout b = s.timers.fields.timeout b :=
      fun b hb => hc.others b fun e => ha (e ▸ List.mem_append.mpr hb)
    obtain ⟨s', hs', hcalls⟩ := ih (s := s₁) hc.queue
      (fun b hb => by
        rw [hother b (.inl hb), hc.tick]
        exact hdue b (List.mem_cons_of_mem a hb))
      (fun b hb => by
        rw [hc.tick]
        obtain hb | hb := hlater' b hb
        · rw [hother b (.inr hb)]
          exact hlater b hb
        · exact hb)
      (by
        rw [hc.tick, hc.calls]
        exact hwrap.2)
    refine ⟨s', ?_, ?_⟩
    · rw [List.length_cons, hloop, hs']
    · rw [hcalls, hc.calls, List.reverse_cons, List.append_assoc, List.singleton_append]

/-! ## An alarm whose new due tick has passed already -/

/-- The calls only get more. -/
theorem loop_calls (h : SortedQueue owner counter s.timers xs)
    (hs : RearmRun.loop owner rearm counter fuel s = some s') : s.calls <:+ s'.calls := by
  induction fuel generalizing s xs with
  | zero => cases hs
  | succ fuel ih =>
    have hend (hlater : ∀ a ∈ xs, s.timers.fields.tick counter < s.timers.fields.timeout a) :
        s = s' := by
      unfold RearmRun.loop at hs
      rw [triggerLoop, h.not_expired hlater] at hs
      exact Option.some.inj hs
    cases xs with
    | nil => exact hend (fun a ha => by cases ha) ▸ List.suffix_rfl
    | cons a xs =>
      by_cases hdue : s.timers.fields.timeout a ≤ s.timers.fields.tick counter
      · obtain ⟨s₁, zs, hloop, hc⟩ := loop_step rearm h hdue
        rw [hloop] at hs
        have hsuffix := ih hc.queue hs
        rw [hc.calls] at hsuffix
        exact (List.suffix_cons a s.calls).trans hsuffix
      · rw [UInt32.not_le] at hdue
        exact hend (none_due h.sorted hdue) ▸ List.suffix_rfl

/-- **An alarm that is due again is called again**, if the loop ends at all. -/
theorem called_again (h : SortedQueue owner counter s.timers xs) (ha : a ∈ xs)
    (hdue : s.timers.fields.timeout a ≤ s.timers.fields.tick counter) (hcalled : a ∈ s.calls)
    (hs : RearmRun.loop owner rearm counter fuel s = some s') : ¬s'.calls.Nodup := by
  induction fuel generalizing s xs with
  | zero => cases hs
  | succ fuel ih =>
    cases xs with
    | nil => cases ha
    | cons b xs =>
      have hle : s.timers.fields.timeout b ≤ s.timers.fields.timeout a := by
        obtain rfl | ha := List.mem_cons.mp ha
        · exact UInt32.le_refl _
        · exact UInt32.le_iff_toNat_le.mpr ((List.pairwise_cons.mp h.sorted).1 a ha)
      obtain ⟨s₁, zs, hloop, hc⟩ :=
        loop_step rearm h (UInt32.le_trans hle hdue)
      rw [hloop] at hs
      by_cases hab : a = b
      · subst hab
        intro hnodup
        have hsub := (loop_calls hc.queue hs).sublist
        rw [hc.calls] at hsub
        exact (List.nodup_cons.mp (hnodup.sublist hsub)).1 hcalled
      · have hxs : a ∈ xs := (List.mem_cons.mp ha).resolve_left hab
        refine ih hc.queue ?_ ?_ ?_ hs
        · by_cases hidle : ∀ timeout, rearm s.calls b = some timeout → timeout = 0
          · rw [hc.idle hidle]
            exact hxs
          · push Not at hidle
            obtain ⟨timeout, hre, hne⟩ := hidle
            obtain ⟨-, key, -, hzs⟩ := hc.armed timeout hre hne
            rw [hzs]
            exact mem_insertOrdered.mpr (.inr hxs)
        · rw [hc.others a hab, hc.tick]
          exact hdue
        · rw [hc.calls]
          exact List.mem_cons_of_mem b hcalled

/-- A loop that ends with one call for each alarm has met no wrap. -/
theorem noWrap_of_loop {due : List A} (h : SortedQueue owner counter s.timers (due ++ later))
    (hdue : ∀ b ∈ due, s.timers.fields.timeout b ≤ s.timers.fields.tick counter)
    (hs : RearmRun.loop owner rearm counter fuel s = some s') (hnodup : s'.calls.Nodup) :
    NoWrap rearm (s.timers.fields.tick counter) s.calls due := by
  induction due generalizing s later fuel with
  | nil => trivial
  | cons a due ih =>
    have ha : a ∉ due ++ later := (List.nodup_cons.mp h.ring.nodup).1
    obtain ⟨s₁, zs, hloop, hc⟩ := loop_step rearm h (hdue a List.mem_cons_self)
    cases fuel with
    | zero => cases hs
    | succ fuel =>
      rw [hloop] at hs
      have hwrap : ∀ timeout, rearm s.calls a = some timeout →
          (s.timers.fields.tick counter).toNat + timeout.toNat < 2 ^ 32 := by
        intro timeout hre
        by_contra hwrap
        have hne : timeout ≠ 0 := by
          rintro rfl
          exact hwrap (by simpa using (s.timers.fields.tick counter).toNat_lt)
        obtain ⟨htimeout, key, -, hzs⟩ := hc.armed timeout hre hne
        refine called_again hc.queue (a := a) ?_ ?_ ?_ hs hnodup
        · rw [hzs]
          exact mem_insertOrdered.mpr (.inl rfl)
        · rw [htimeout, hc.tick]
          exact due_le hwrap
        · rw [hc.calls]
          exact List.mem_cons_self
      have hrest : ∀ b ∈ due, s.timers.fields.timeout b ≤ s.timers.fields.tick counter :=
        fun b hb => hdue b (List.mem_cons_of_mem a hb)
      obtain ⟨later', rfl, -⟩ := hc.rest ha hrest hwrap
      have hind := ih hc.queue (fun b hb => by
        rw [hc.tick, hc.others b fun e => ha (e ▸ List.mem_append_left later hb)]
        exact hrest b hb) hs
      rw [hc.tick, hc.calls] at hind
      exact ⟨hwrap, hind⟩

/-! ## The whole call -/

/-- **The trigger loop ends with one call for each alarm exactly when no new due tick wraps.** -/
theorem endsOnce_iff (h : SortedQueue owner counter t xs) :
    EndsOnce owner rearm counter t ↔
      NoWrap rearm (t.fields.tick counter + 1) [] (dueAt counter t xs) := by
  set s : RearmRun A F P := ⟨incrementTick t counter, []⟩ with hs
  have htick : s.timers.fields.tick counter = t.fields.tick counter + 1 := by
    simp [hs, incrementTick]
  have hdue : ∀ b ∈ dueAt counter t xs,
      s.timers.fields.timeout b ≤ s.timers.fields.tick counter := by
    intro b hb
    rw [htick]
    unfold dueAt at hb
    have hle := List.mem_takeWhile_imp hb
    exact of_decide_eq_true hle
  -- the due alarms come first
  set later := xs.dropWhile fun a => t.fields.timeout a ≤ t.fields.tick counter + 1 with hlater
  have hqueue : SortedQueue owner counter s.timers (dueAt counter t xs ++ later) := by
    rw [hlater, dueAt, List.takeWhile_append_dropWhile]
    exact ⟨h.ring, h.sorted, h.pnode, h.orderVal, h.handler⟩
  constructor
  · rintro ⟨fuel, s', hs', hnodup⟩
    rw [← htick]
    exact noWrap_of_loop hqueue hdue hs' hnodup
  · intro hwrap
    rw [← htick] at hwrap
    have hafter : ∀ b ∈ later, s.timers.fields.tick counter < s.timers.fields.timeout b := by
      have hsorted : later.Pairwise fun a b =>
          (t.fields.timeout a).toNat ≤ (t.fields.timeout b).toNat :=
        h.sorted.sublist (List.dropWhile_sublist _)
      have hhead := List.head?_dropWhile_not
        (fun a => decide (t.fields.timeout a ≤ t.fields.tick counter + 1)) xs
      rw [← hlater] at hhead
      rw [htick]
      cases hl : later with
      | nil => exact fun b hb => by cases hb
      | cons a later =>
        rw [hl] at hhead hsorted
        apply none_due hsorted
        exact UInt32.not_le.mp (of_decide_eq_false hhead)
    obtain ⟨s', hs', hcalls⟩ := loop_ends hqueue hdue hafter hwrap
    refine ⟨_, s', hs', ?_⟩
    rw [hcalls, List.append_nil, List.nodup_reverse]
    exact hqueue.ring.nodup.sublist (List.sublist_append_left _ _)

/-- One alarm, set for the next tick at the given one. -/
def oneAlarm (tick : UInt32) : Timers LinkMem Unit Unit Unit where
  alarmQueue := linkAlone LinkMem.empty 0 ()
  fields :=
    { tick := fun _ => tick
      timeout := fun _ => tick + 1
      handler := fun _ => some ()
      arg := fun _ => none
      pnode := fun _ => some ()
      orderVal := fun _ => (tick + 1).toNat }

/-- Its queue is well formed. -/
theorem sortedQueue_oneAlarm (tick : UInt32) :
    SortedQueue (fun _ _ => ()) 0 (oneAlarm tick) [()] where
  ring := Eos.Lib.ringAt_singleton LinkMem.empty 0 ()
  sorted := List.pairwise_singleton _ _
  pnode _ _ := rfl
  orderVal _ _ := rfl
  handler _ _ := ⟨(), rfl, rfl⟩

/-- The due ticks of three alarms. -/
def dueOfThree (a : Fin 3) : UInt32 := if a.val = 2 then 8 else 6

/-- At tick 5 there are three alarms, two of which are due at the next tick.  The handler of the
first one sets it again with timeout 1: two handlers are called, each once. -/
theorem endsOnce_three : ∃ t : Timers LinkMem (Fin 3) (Fin 3) Unit,
    SortedQueue (fun f _ => f) 0 t [0, 1, 2] ∧ dueAt 0 t [0, 1, 2] = [0, 1] ∧
      EndsOnce (fun f _ => f) (fun _ a => if a = 0 then some 1 else none) 0 t := by
  obtain ⟨m, hm⟩ := exists_ringAt 0 (show [(0 : Fin 3), 1, 2].Nodup by decide)
  let t : Timers LinkMem (Fin 3) (Fin 3) Unit :=
    ⟨m, ⟨fun _ => 5, dueOfThree, some, fun _ => none, some, fun a => (dueOfThree a).toNat⟩⟩
  have hsorted : [0, 1, 2].Pairwise fun a b => (dueOfThree a).toNat ≤ (dueOfThree b).toNat := by
    decide
  have hqueue : SortedQueue (fun f _ => f) 0 t [0, 1, 2] :=
    ⟨hm, hsorted, fun _ _ => rfl, fun _ _ => rfl, fun a _ => ⟨a, rfl, rfl⟩⟩
  have hdue : dueAt 0 t [0, 1, 2] = [0, 1] := rfl
  refine ⟨t, hqueue, hdue, (endsOnce_iff hqueue).mpr ?_⟩
  rw [hdue]
  refine ⟨fun timeout h => ?_, fun timeout h => ?_, trivial⟩
  · cases h
    show (5 + 1 : UInt32).toNat + (1 : UInt32).toNat < 2 ^ 32
    decide
  · cases h

/-- **At the last tick the handler's alarm is due again at once**, and the loop does not end with
one call. -/
theorem endsOnce_last_tick : ∃ t : Timers LinkMem Unit Unit Unit,
    SortedQueue (fun _ _ => ()) 0 t [()] ∧
      ¬EndsOnce (fun _ _ => ()) (fun _ _ => some 1) 0 t := by
  refine ⟨oneAlarm 0xFFFFFFFE, sortedQueue_oneAlarm _, ?_⟩
  rintro ⟨fuel, s', hs', hnodup⟩
  have h := sortedQueue_oneAlarm 0xFFFFFFFE
  have hqueue : SortedQueue (fun _ _ => ()) 0 (incrementTick (oneAlarm 0xFFFFFFFE) 0)
      ([()] ++ []) :=
    ⟨h.ring, h.sorted, h.pnode, h.orderVal, h.handler⟩
  have hwrap := noWrap_of_loop hqueue (by decide) hs' hnodup
  exact absurd (hwrap.1 1 rfl) (by decide)

end Eos.Analysis
