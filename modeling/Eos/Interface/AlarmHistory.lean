import Mathlib.Data.Finset.Card
import Mathlib.Data.Fintype.Basic
import Mathlib.Data.List.Count

/-!
# What a counter's alarms are for

A history of settings, triggers and firings, latest event first, and what it should look
like: an alarm fires in the trigger that its latest setting asks for, unless it has been
cancelled or set anew before, and alarms that fire in one trigger do so in the order of their
settings.  `Firing` says it for one firing; the theorems derive what it means for whole
histories.
-/

set_option autoImplicit false

namespace Eos.Interface

/-- What happens to alarms `A`. -/
inductive Event (A : Type)
  /-- an alarm is set to fire in the `timeout`-th trigger from now on; 0 cancels it -/
  | set (alarm : A) (timeout : Nat)
  | trigger
  | fire (alarm : A)
  deriving DecidableEq

/-- A setting of an alarm that has not fired yet. -/
@[ext]
structure Setting where
  /-- the number of the trigger in which the alarm is to fire -/
  due : Nat
  /-- the number of events before the setting -/
  order : Nat
  deriving DecidableEq

variable {A : Type}

/-- The triggers of a history. -/
def triggers : List (Event A) → Nat
  | [] => 0
  | .trigger :: es => triggers es + 1
  | _ :: es => triggers es

variable [DecidableEq A]

/-- The setting of an alarm that is pending. -/
def setting : List (Event A) → A → Option Setting
  | [], _ => none
  | .set b timeout :: es, a =>
    if a = b then
      if timeout = 0 then none else some ⟨triggers es + timeout, es.length⟩
    else setting es a
  | .trigger :: es, a => setting es a
  | .fire b :: es, a => if a = b then none else setting es a

/-- Earlier due, or as early and set earlier. -/
def Setting.Before (p q : Setting) : Prop := p.due < q.due ∨ p.due = q.due ∧ p.order < q.order

/-- An alarm may fire next: it is pending and due, and before all others. -/
def Firing (es : List (Event A)) (a : A) : Prop :=
  ∃ p, setting es a = some p ∧ p.due = triggers es ∧
    ∀ b q, b ≠ a → setting es b = some q → p.Before q

/-- Every firing was one of the right alarm at the right time. -/
def Exact (es : List (Event A)) : Prop :=
  ∀ es₂ es₁ a, es = es₂ ++ .fire a :: es₁ → Firing es₁ a

/-- Starting at `tick`, neither the tick nor a due tick passes `2^32`. -/
def Fits (tick : Nat) : List (Event A) → Prop
  | [] => True
  | .set _ timeout :: es => tick + triggers es + timeout < 2 ^ 32 ∧ Fits tick es
  | .trigger :: es => tick + triggers es + 1 < 2 ^ 32 ∧ Fits tick es
  | .fire _ :: es => Fits tick es

/-! ## Settings -/

variable {es : List (Event A)} {a b : A} {p q : Setting} {timeout : Nat}

omit [DecidableEq A] in
/-- The triggers of two parts of a history. -/
theorem triggers_append (es' es : List (Event A)) :
    triggers (es' ++ es) = triggers es' + triggers es := by
  induction es' with
  | nil => simp [triggers]
  | cons e es' ih =>
    cases e with
    | trigger => simp only [List.cons_append, triggers, ih, Nat.add_right_comm]
    | set | fire => exact ih

/-- A setting replaces the one before it, or cancels it. -/
theorem setting_set_self :
    setting (.set a timeout :: es) a =
      if timeout = 0 then none else some ⟨triggers es + timeout, es.length⟩ := if_pos rfl

/-- A setting of another alarm changes nothing. -/
theorem setting_set_of_ne (h : b ≠ a) : setting (.set a timeout :: es) b = setting es b := if_neg h

/-- An alarm that has just fired is not pending. -/
theorem setting_fire_self : setting (.fire a :: es) a = none := if_pos rfl

/-- The firing of another alarm changes nothing. -/
theorem setting_fire_of_ne (h : b ≠ a) : setting (.fire a :: es) b = setting es b := if_neg h

/-- A setting is one of the events. -/
theorem order_lt (h : setting es a = some p) : p.order < es.length := by
  induction es with
  | nil => cases h
  | cons e es ih =>
    rw [List.length_cons]
    cases e with
    | trigger => exact Nat.lt_succ_of_lt (ih h)
    | fire b =>
      unfold setting at h
      split at h
      · cases h
      · exact Nat.lt_succ_of_lt (ih h)
    | set b timeout =>
      unfold setting at h
      split at h
      · split at h
        · cases h
        · cases h
          exact Nat.lt_succ_self _
      · exact Nat.lt_succ_of_lt (ih h)

/-- A setting that is older than some of the events was pending before them. -/
theorem setting_of_order_lt {es' : List (Event A)} (h : setting (es' ++ es) a = some p)
    (hp : p.order < es.length) : setting es a = some p := by
  induction es' with
  | nil => exact h
  | cons e es' ih =>
    rw [List.cons_append] at h
    cases e with
    | trigger => exact ih h
    | fire b =>
      unfold setting at h
      split at h
      · cases h
      · exact ih h
    | set b timeout =>
      unfold setting at h
      split at h
      · split at h
        · cases h
        · cases h
          simp only [List.length_append] at hp
          omega
      · exact ih h

/-- Without other events on the alarm, it stays pending. -/
theorem setting_append {es' : List (Event A)} (hset : ∀ timeout, .set a timeout ∉ es')
    (hfire : .fire a ∉ es') : setting (es' ++ es) a = setting es a := by
  induction es' with
  | nil => rfl
  | cons e es' ih =>
    have ih := ih (fun timeout hc => hset timeout (List.mem_cons_of_mem e hc))
      fun hc => hfire (List.mem_cons_of_mem e hc)
    cases e with
    | trigger => exact ih
    | fire b =>
      have hne : a ≠ b := fun hc => hfire (by simp [hc])
      exact (setting_fire_of_ne hne).trans ih
    | set b timeout =>
      have hne : a ≠ b := fun hc => hset timeout (by simp [hc])
      exact (setting_set_of_ne hne).trans ih

/-! ## Exact histories -/

/-- What came before was exact. -/
theorem Exact.tail {e : Event A} (h : Exact (e :: es)) : Exact es :=
  fun es₂ es₁ a hes => h (e :: es₂) es₁ a (by rw [hes, List.cons_append])

/-- Nothing has fired at the start. -/
theorem Exact.nil : Exact ([] : List (Event A)) := fun es₂ _ _ h => by simp at h

/-- Only firings can go wrong. -/
theorem Exact.cons {e : Event A} (h : Exact es) (he : ∀ a, e = .fire a → Firing es a) :
    Exact (e :: es) := by
  intro es₂ es₁ a hes
  cases es₂ with
  | nil =>
    cases hes
    exact he a rfl
  | cons e' es₂ =>
    cases hes
    exact h es₂ es₁ a rfl

/-- **No second firing**: an alarm that is not pending does not fire until it is set. -/
theorem Exact.not_fired {es' : List (Event A)} (h : Exact (es' ++ es)) (hnone : setting es a = none)
    (hset : ∀ timeout, .set a timeout ∉ es') : .fire a ∉ es' := by
  induction es' with
  | nil => exact List.not_mem_nil
  | cons e es' ih =>
    have hset' : ∀ timeout, .set a timeout ∉ es' := fun timeout hc =>
      hset timeout (List.mem_cons_of_mem e hc)
    have hfire := ih (Exact.tail h) hset'
    rw [List.mem_cons, not_or]
    refine ⟨?_, hfire⟩
    rintro rfl
    have hfiring : Firing (es' ++ es) a := h [] _ a rfl
    obtain ⟨p, hp, -⟩ := hfiring
    rw [setting_append hset' hfire, hnone] at hp
    cases hp

/-- **Once for each setting**: since its latest setting with timeout `t` an alarm has fired at most
once, and then in the `t`-th trigger; not at all if `t = 0`. -/
theorem Exact.count_fire {es' : List (Event A)} (h : Exact (es' ++ .set a timeout :: es))
    (hset : ∀ timeout, .set a timeout ∉ es') :
    es'.count (.fire a) ≤ 1 ∧ (timeout = 0 → .fire a ∉ es') ∧
      ∀ es₂ es₁, es' = es₂ ++ .fire a :: es₁ → triggers es₁ = timeout := by
  have hzero : timeout = 0 → .fire a ∉ es' := by
    intro h0
    exact h.not_fired (by rw [setting_set_self, if_pos h0]) hset
  have hsplit : ∀ es₂ es₁, es' = es₂ ++ .fire a :: es₁ → .fire a ∉ es₂ := by
    rintro es₂ es₁ rfl
    rw [List.append_assoc, List.cons_append] at h
    exact h.not_fired setting_fire_self fun timeout hc =>
      hset timeout (List.mem_append_left _ hc)
  have hfirst : ∀ es₂ es₁, es' = es₂ ++ .fire a :: es₁ → .fire a ∉ es₁ := by
    intro es₂ es₁ hes hc
    obtain ⟨es₄, es₃, rfl⟩ := List.append_of_mem hc
    have hmem := hsplit (es₂ ++ .fire a :: es₄) es₃ (by rw [hes]; simp)
    exact hmem (by simp)
  refine ⟨?_, hzero, ?_⟩
  · by_cases hmem : .fire a ∈ es'
    · obtain ⟨es₂, es₁, hes⟩ := List.append_of_mem hmem
      have h₂ := List.count_eq_zero_of_not_mem (hsplit es₂ es₁ hes)
      have h₁ := List.count_eq_zero_of_not_mem (hfirst es₂ es₁ hes)
      rw [hes, List.count_append, List.count_cons_self, h₂, h₁]
    · rw [List.count_eq_zero_of_not_mem hmem]
      exact Nat.zero_le 1
  · intro es₂ es₁ hes
    have hset₁ : ∀ timeout, .set a timeout ∉ es₁ := by
      intro timeout hc
      exact hset timeout (by rw [hes]; simp [hc])
    obtain ⟨p, hp, hdue, -⟩ := h es₂ (es₁ ++ .set a timeout :: es) a (by rw [hes]; simp)
    rw [setting_append hset₁ (hfirst es₂ es₁ hes), setting_set_self] at hp
    split at hp
    · cases hp
    · cases hp
      rw [triggers_append] at hdue
      simp only [triggers] at hdue
      omega

/-- **The order in a trigger**: of two alarms that fire in one trigger, the one that fires first has
been set first, and is due no later. -/
theorem Exact.firing_order {es₁ es₂ es₃ : List (Event A)}
    (h : Exact (es₃ ++ .fire b :: es₂ ++ .fire a :: es₁)) (ht : .trigger ∉ es₂) :
    ∃ p q, setting es₁ a = some p ∧ setting (es₂ ++ .fire a :: es₁) b = some q ∧ p.Before q := by
  have hsame : triggers (es₂ ++ .fire a :: es₁) = triggers es₁ := by
    have hzero : triggers es₂ = 0 := by
      clear h
      induction es₂ with
      | nil => rfl
      | cons e es₂ ih =>
        rw [List.mem_cons, not_or] at ht
        cases e with
        | trigger => exact absurd rfl ht.1
        | set | fire => exact ih ht.2
    rw [triggers_append, hzero, Nat.zero_add]
    rfl
  obtain ⟨p, hp, hpdue, hpbefore⟩ := h (es₃ ++ .fire b :: es₂) es₁ a (by simp)
  obtain ⟨q, hq, hqdue, -⟩ := h es₃ (es₂ ++ .fire a :: es₁) b (by simp)
  refine ⟨p, q, hp, hq, ?_⟩
  by_cases hold : q.order < es₁.length + 1
  · have hold := setting_of_order_lt hq (by rw [List.length_cons]; exact hold)
    have hne : b ≠ a := by
      rintro rfl
      rw [setting_fire_self] at hold
      cases hold
    rw [setting_fire_of_ne hne] at hold
    exact hpbefore b q hne hold
  · have := order_lt hp
    exact .inr ⟨by omega, by omega⟩

/-! ## Due alarms -/

section Due

variable [Fintype A]

/-- The alarms that a trigger still has to fire. -/
def dueAlarms (es : List (Event A)) : Finset A :=
  Finset.univ.filter fun a => ∃ p ∈ setting es a, p.due ≤ triggers es

/-- The alarms that are pending, and due by now. -/
theorem mem_dueAlarms : a ∈ dueAlarms es ↔ ∃ p, setting es a = some p ∧ p.due ≤ triggers es := by
  simp [dueAlarms]

/-- A setting is due in a later trigger. -/
theorem dueAlarms_set (es : List (Event A)) (b : A) (timeout : Nat) :
    dueAlarms (.set b timeout :: es) ⊆ dueAlarms es := by
  intro a ha
  rw [mem_dueAlarms] at ha ⊢
  obtain ⟨p, hp, hdue⟩ := ha
  by_cases hab : a = b
  · subst hab
    rw [setting_set_self] at hp
    split at hp
    · cases hp
    · cases hp
      simp only [triggers] at hdue
      omega
  · exact ⟨p, (setting_set_of_ne hab).symm.trans hp, hdue⟩

/-- A firing leaves one alarm less to fire. -/
theorem card_dueAlarms_fire (h : Firing es b) :
    (dueAlarms (.fire b :: es)).card < (dueAlarms es).card := by
  obtain ⟨p, hp, hdue, -⟩ := h
  apply Finset.card_lt_card
  refine Finset.ssubset_iff_subset_ne.mpr ⟨fun a ha => ?_, fun heq => ?_⟩
  · rw [mem_dueAlarms] at ha ⊢
    obtain ⟨q, hq, hle⟩ := ha
    have hne : a ≠ b := by
      rintro rfl
      rw [setting_fire_self] at hq
      cases hq
    exact ⟨q, (setting_fire_of_ne hne).symm.trans hq, hle⟩
  · have hb : b ∈ dueAlarms (.fire b :: es) := by
      rw [heq, mem_dueAlarms]
      exact ⟨p, hp, hdue.le⟩
    obtain ⟨q, hq, -⟩ := mem_dueAlarms.mp hb
    rw [setting_fire_self] at hq
    cases hq

end Due

end Eos.Interface
