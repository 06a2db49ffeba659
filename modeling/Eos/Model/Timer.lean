import Eos.Model.Kernel

/-!
# Counters and alarms of `core/timer.c`

`eos_set_alarm` and the loop of `eos_trigger_counter`, for any type of alarms, of
handlers and of handler arguments.  The loop calls handlers, which work on the whole
system state `S`; so it is written over any state that the timers are a part of, given
by how they are read and written there and what a call of a handler does.  The counter
and alarm pointers are never `NULL` here.
-/

set_option autoImplicit false

namespace Eos.Model

variable {Q : Type → Type → Type} [NodeLists Q] {A F P : Type} [DecidableEq A]

/-- `eos_set_alarm` (core/timer.c:29-52). -/
def eosSetAlarm [Fintype A] (t : Timers Q A F P) (counter : Nat) (alarm : A) (timeout : UInt32)
    (entry : Option F) (arg : Option P) : Option (Timers Q A F P) := do
  let queue ← NodeLists.osRemoveNode t.alarmQueue counter alarm
  if timeout = 0 ∨ entry.isNone then
    return { t with alarmQueue := queue }
  else
    let due := t.fields.tick counter + timeout
    let fields : AlarmFields A F P :=
      { t.fields with
        timeout := Function.update t.fields.timeout alarm due
        handler := Function.update t.fields.handler alarm entry
        arg := Function.update t.fields.arg alarm arg
        pnode := Function.update t.fields.pnode alarm (some alarm)
        orderVal := Function.update t.fields.orderVal alarm due.toNat }
    return { alarmQueue := ← NodeLists.osAddNodeOrdered queue fields.orderVal counter alarm
             fields := fields }

/-- `counter->tick++` -/
def incrementTick (t : Timers Q A F P) (counter : Nat) : Timers Q A F P :=
  { t with fields :=
      { t.fields with tick := Function.update t.fields.tick counter (t.fields.tick counter + 1) } }

/-- The alarm the loop of `eos_trigger_counter` takes next: the first one of the queue, unless
there is none or it is not due yet (core/timer.c:74-79,83-87). -/
def expiredAlarm (t : Timers Q A F P) (counter : Nat) : Option A :=
  match (NodeLists.head t.alarmQueue counter).bind t.fields.pnode with
  | some alarm => if t.fields.timeout alarm > t.fields.tick counter then none else some alarm
  | none => none

section Expired

variable {t : Timers Q A F P} {counter : Nat} {a : A} {xs : List A}
  (hhead : NodeLists.head t.alarmQueue counter = xs.head?)
  (hpnode : ∀ a ∈ xs, t.fields.pnode a = some a)

include hhead hpnode

omit [DecidableEq A] in
/-- The loop looks at the first alarm of the queue. -/
theorem expiredAlarm_eq : expiredAlarm t counter =
    xs.head?.filter fun a => decide (t.fields.timeout a ≤ t.fields.tick counter) := by
  unfold expiredAlarm
  rw [hhead]
  cases xs with
  | nil => rfl
  | cons a rest =>
    simp only [List.head?_cons, Option.bind_some, hpnode a List.mem_cons_self, Option.filter]
    by_cases hle : t.fields.timeout a ≤ t.fields.tick counter
    · simp [hle, UInt32.not_lt.mpr hle]
    · simp [hle, UInt32.not_le.mp hle]

omit [DecidableEq A] in
/-- An alarm that the loop takes is the first one, and it is due. -/
theorem first_of_expiredAlarm (he : expiredAlarm t counter = some a) :
    (∃ rest, xs = a :: rest) ∧ t.fields.timeout a ≤ t.fields.tick counter := by
  rw [expiredAlarm_eq hhead hpnode] at he
  obtain ⟨hfirst, hle⟩ := Option.filter_eq_some_iff.mp he
  exact ⟨List.head?_eq_some_iff.mp hfirst, of_decide_eq_true hle⟩

omit [DecidableEq A] in
/-- The loop ends in front of the first alarm that is not due, and no later one is due then. -/
theorem later_of_expiredAlarm
    (hs : xs.Pairwise fun a b => t.fields.timeout a ≤ t.fields.timeout b)
    (he : expiredAlarm t counter = none) :
    ∀ a ∈ xs, t.fields.tick counter < t.fields.timeout a := by
  rw [expiredAlarm_eq hhead hpnode] at he
  intro a ha
  cases xs with
  | nil => cases ha
  | cons x rest =>
    have hlt : t.fields.tick counter < t.fields.timeout x := by
      simpa [Option.filter] using he
    obtain rfl | hmem := List.mem_cons.mp ha
    · exact hlt
    · exact UInt32.lt_of_lt_of_le hlt (List.rel_of_pairwise_cons hs hmem)

end Expired

section Trigger

variable {S : Type} (timers : S → Timers Q A F P) (put : S → Timers Q A F P → S)
  (call : S → F → Option P → Option S)

/-- The `while` loop of `eos_trigger_counter` (core/timer.c:75-88).  The fuel bounds the
number of alarms it looks at. -/
def triggerLoop (counter : Nat) : Nat → S → Option S
  | 0, _ => none
  | fuel + 1, s =>
    match expiredAlarm (timers s) counter with
    | none => some s
    | some alarm => do
      let queue ← NodeLists.osRemoveNode (timers s).alarmQueue counter alarm
      let s := put s { timers s with alarmQueue := queue }
      let handler ← (timers s).fields.handler alarm
      let s ← call s handler ((timers s).fields.arg alarm)
      triggerLoop counter fuel s

variable {timers put call}

/-- **The rule of the loop**: what every round keeps holds behind it, where no alarm is due. -/
theorem triggerLoop_invariant {I : S → Prop} {counter fuel : Nat} {s s' : S}
    (hround : ∀ s s₁ s' alarm queue handler, I s → expiredAlarm (timers s) counter = some alarm →
      NodeLists.osRemoveNode (timers s).alarmQueue counter alarm = some queue →
      s₁ = put s { timers s with alarmQueue := queue } →
      (timers s₁).fields.handler alarm = some handler →
      call s₁ handler ((timers s₁).fields.arg alarm) = some s' → I s')
    (hs : I s) (h : triggerLoop timers put call counter fuel s = some s') :
    I s' ∧ expiredAlarm (timers s') counter = none := by
  induction fuel generalizing s with
  | zero => cases h
  | succ fuel ih =>
    rw [triggerLoop] at h
    cases he : expiredAlarm (timers s) counter with
    | none =>
      rw [he] at h
      cases h
      exact ⟨hs, he⟩
    | some alarm =>
      rw [he] at h
      obtain ⟨queue, hq, h⟩ := Option.bind_eq_some_iff.mp h
      obtain ⟨handler, hh, h⟩ := Option.bind_eq_some_iff.mp h
      obtain ⟨u, hu, h⟩ := Option.bind_eq_some_iff.mp h
      exact ih (hround s _ u alarm queue handler hs he hq rfl hh hu) h

end Trigger

end Eos.Model
