import Eos.Analysis.Exclusion
import Eos.Analysis.Turns
import Eos.Interface.StatementRuns
import Mathlib.Data.Fintype.Card

/-!
# No lost wake-up on semaphores

`eos_acquire_semaphore` (core/sync.c:25-75) tests the count and enqueues its caller in two
steps, with interrupts enabled in between.  A release in the gap finds the wait queue empty
and wakes nobody; then the caller waits although the count is positive.  A woken task that
finds its deadline passed returns without a look at the count.

`helpers` are the tasks that take care of a positive count: those that were woken and have
still to test it, and those in a release that has still to wake a task.  While the wait
queue is not empty the count does not exceed their number, in every run in which neither of
the two steps above is taken with a positive count.
-/

set_option autoImplicit false

namespace Eos.Analysis

open Eos.Lib (LinkMem RingsOk Reach)
open Eos.Model
open Eos.Interface (Rings Linked Repr exec_next exec_semaphore count_setCount setAlarm_count)

section Defs

variable {T : Type}

/-- The task is in `eos_acquire_semaphore`, at or behind the enqueue, and has still to test the
count. -/
def Behind (sem : Nat) : Control T → Prop
  | .acquire f => f.sem = sem ∧ (f.point = .timeoutTest ∨ f.point = .retest)
  | .routine (.waitAdd _ _) _ => False
  | .routine _ (some f) => f.sem = sem
  | _ => False

/-- The task is in `eos_release_semaphore`, between the increment and the removal of the task to
wake from the wait queue. -/
def Releasing (sem : Nat) : Control T → Prop
  | .release f => f.sem = sem ∧ f.point = .wake
  | .routine (.wakeTest q) none | .routine (.wakeTask q) none | .routine (.wakeRemove q _) none =>
    q = .semaphore sem
  | _ => False

/-- A positive count while a task waits is taken care of, in the rings the links stand for: a task
woken from the queue has still to test the count, or a release has still to wake a task. -/
def NoLostWakeup (sem : Nat) (s : StatementSystem LinkMem T) : Prop :=
  ∃ ring, RingsOk s.kernel.queue ring ∧
    (0 < s.kernel.count sem → ring (.wait (.semaphore sem)) ≠ [] →
      (∃ t, Behind sem (s.control t) ∧ t ∉ ring (.wait (.semaphore sem))) ∨
        ∃ t, Releasing sem (s.control t))

/-- The semaphore in whose queue the task is about to be linked. -/
def enqueues : Control T → Option Nat
  | .routine (.waitAdd (.semaphore sem) _) _ => some sem
  | _ => none

/-- The semaphore of a call that is about to return because its deadline has passed. -/
def givesUp (tick : UInt32) : Control T → Option Nat
  | .acquire f =>
    if f.point = .timeoutTest ∧ f.timeout ≠ 0 ∧ f.absTimeout ≤ tick then some f.sem else none
  | _ => none

/-- The turns that lose no wake-up: they leave the queues in order; a task is not linked in the
queue of a semaphore whose count is positive; and a woken task does not give up while the count is
positive and a task waits. -/
def Attentive (s : StatementSystem LinkMem T) (o : Turn T) : Prop :=
  Guarded s o ∧ ∀ c ∈ s.kernel.vars.currentTask, o = .next →
    (∀ sem ∈ enqueues (s.control c), s.kernel.count sem ≤ 0) ∧
      ∀ sem ∈ givesUp s.kernel.tick (s.control c),
        s.kernel.count sem ≤ 0 ∨ s.kernel.queue.head (.wait (.semaphore sem)) = none

end Defs

variable {T : Type} {sem : Nat} {a a' : Kernel Rings T} {c t : T} {s s' : StatementSystem LinkMem T}
  {k k' : Kernel LinkMem T} {st : Statement T} {p : Control T}

/-! ## The tasks that take care of the count -/

/-- A task is not in two calls at once. -/
theorem Behind.not_releasing (h : Behind sem p) : ¬Releasing sem p := by
  intro hr
  cases p with
  | own | acquire => exact hr
  | release => exact h
  | routine st caller =>
    cases caller with
    | none => cases st <;> exact h
    | some f => cases st <;> exact hr

/-- The wait queue of the semaphore. -/
abbrev waitersOf (sem : Nat) (a : Kernel Rings T) : List T := a.queue.ring (.wait (.semaphore sem))

/-- The task takes care of a positive count. -/
def Helps (sem : Nat) (s : StatementSystem LinkMem T) (a : Kernel Rings T) (t : T) : Prop :=
  Behind sem (s.control t) ∧ t ∉ waitersOf sem a ∨ Releasing sem (s.control t)

variable [Fintype T]

open Classical in
/-- The tasks that take care of a positive count. -/
noncomputable def helpers (sem : Nat) (s : StatementSystem LinkMem T) (a : Kernel Rings T) :
    Finset T :=
  Finset.univ.filter (Helps sem s a)

/-- The helpers are the tasks that help. -/
theorem mem_helpers : t ∈ helpers sem s a ↔ Helps sem s a t := by
  simp [helpers]

/-- Every helper of the first state that is not one of the second has been replaced. -/
theorem card_helpers_le {u : T} (hkeep : ∀ t ≠ c, Helps sem s a t → Helps sem s' a' t)
    (hu : ¬Helps sem s a u) (hu' : Helps sem s' a' u) :
    (helpers sem s a).card ≤ (helpers sem s' a').card := by
  classical
  have hsub : insert u ((helpers sem s a).erase c) ⊆ helpers sem s' a' := by
    intro t ht
    rw [Finset.mem_insert, Finset.mem_erase] at ht
    obtain rfl | ⟨htc, ht⟩ := ht
    · exact mem_helpers.mpr hu'
    · exact mem_helpers.mpr (hkeep t htc (mem_helpers.mp ht))
  have hnot : u ∉ (helpers sem s a).erase c := fun hc =>
    hu (mem_helpers.mp (Finset.mem_of_mem_erase hc))
  have hcard := Finset.card_le_card hsub
  rw [Finset.card_insert_of_notMem hnot] at hcard
  have herase := Finset.pred_card_le_card_erase (s := helpers sem s a) (a := c)
  omega

/-- All helpers stay. -/
theorem card_helpers_mono (hkeep : ∀ t, Helps sem s a t → Helps sem s' a' t) :
    (helpers sem s a).card ≤ (helpers sem s' a').card :=
  Finset.card_le_card fun t ht => mem_helpers.mpr (hkeep t (mem_helpers.mp ht))

/-- All helpers but one stay. -/
theorem card_helpers_pred [DecidableEq T] (hkeep : ∀ t ≠ c, Helps sem s a t → Helps sem s' a' t) :
    (helpers sem s a).card ≤ (helpers sem s' a').card + 1 := by
  have hsub : (helpers sem s a).erase c ⊆ helpers sem s' a' := by
    intro t ht
    rw [Finset.mem_erase] at ht
    exact mem_helpers.mpr (hkeep t ht.1 (mem_helpers.mp ht.2))
  have hcard := Finset.card_le_card hsub
  have herase := Finset.pred_card_le_card_erase (s := helpers sem s a) (a := c)
  omega

/-- A helper comes. -/
theorem card_helpers_succ (hkeep : ∀ t, Helps sem s a t → Helps sem s' a' t)
    (hc : ¬Helps sem s a c) (hc' : Helps sem s' a' c) :
    (helpers sem s a).card + 1 ≤ (helpers sem s' a').card := by
  classical
  have hsub : insert c (helpers sem s a) ⊆ helpers sem s' a' := by
    intro t ht
    rw [Finset.mem_insert] at ht
    obtain rfl | ht := ht
    · exact mem_helpers.mpr hc'
    · exact mem_helpers.mpr (hkeep t (mem_helpers.mp ht))
  have hnot : c ∉ helpers sem s a := fun h => hc (mem_helpers.mp h)
  have hcard := Finset.card_le_card hsub
  rwa [Finset.card_insert_of_notMem hnot] at hcard

/-! ## The invariant -/

/-- A task that is about to be linked in the queue of a semaphore is in a call of
`eos_acquire_semaphore` for it, and every routine that such a call has called returns to its test of
the deadline. -/
def InCall : Control T → Prop
  | .routine (.waitAdd (.semaphore _) _) none => False
  | .routine (.waitAdd (.semaphore sem) _) (some f) => f.sem = sem ∧ f.point = .timeoutTest
  | .routine _ (some f) => f.point = .timeoutTest
  | _ => True

/-- What holds of a semaphore between two turns: whoever is linked in its queue is behind the
enqueue of its call, and while a task is linked there are helpers enough for the count. -/
structure Attended [DecidableEq T] (sem : Nat) (s : StatementSystem LinkMem T) (a : Kernel Rings T)
    (c : T) : Prop extends Between s a c where
  inCall : ∀ t, InCall (s.control t)
  linked : ∀ t ∈ waitersOf sem a, Behind sem (s.control t)
  covered : waitersOf sem a ≠ [] → s.kernel.count sem ≤ (helpers sem s a).card
  bound : -128 ≤ s.kernel.count sem

/-- How a step of the current task to `p` and a kernel `k'` keeps the count covered. -/
inductive Balance (sem : Nat) (s : StatementSystem LinkMem T) (a : Kernel Rings T) (c : T)
    (k' : Kernel LinkMem T) (p : Control T) : Prop
  /-- The count is not positive. -/
  | low (h : k'.count sem ≤ 0)
  /-- No task waits. -/
  | empty (h : waitersOf sem a = [])
  /-- The task helps on if it did. -/
  | kept (hc : k'.count sem ≤ s.kernel.count sem)
      (hb : Behind sem (s.control c) → Behind sem p)
      (hr : Releasing sem (s.control c) → Releasing sem p)
  /-- The task takes one from the count. -/
  | taken (hc : k'.count sem ≤ s.kernel.count sem - 1)
  /-- The task adds one to the count, and starts to help. -/
  | raised (hc : k'.count sem ≤ s.kernel.count sem + 1) (hb : ¬Behind sem (s.control c))
      (hr : ¬Releasing sem (s.control c)) (hp : Releasing sem p)
  /-- The task takes another one out of the queue, which helps from now on. -/
  | passed (hc : k'.count sem ≤ s.kernel.count sem) (t : T) (ht : t ∈ waitersOf sem a)
      (htc : t ≠ c) (hn : k'.queue.next t = none)

variable [DecidableEq T]

/-- **The accounting**: a balanced step keeps the count covered. -/
theorem Balance.covered (hb : Balance sem s a c k' p) (h : Attended sem s a c)
    (he : ¬Enters s (.semaphore sem) c ∨ k'.count sem ≤ 0) (hr : Repr k' a')
    (hring : ∀ t ∈ waitersOf sem a', t ∈ waitersOf sem a ∨ t = c ∧ Enters s (.semaphore sem) t)
    (hne : waitersOf sem a' ≠ []) :
    k'.count sem ≤ (helpers sem (s.put c k' p) a').card := by
  by_cases hlow : k'.count sem ≤ 0
  · omega
  have he := he.resolve_right hlow
  have hsub : ∀ t ∈ waitersOf sem a', t ∈ waitersOf sem a := fun t ht =>
    (hring t ht).resolve_right fun ⟨htc, hent⟩ => he (htc ▸ hent)
  obtain ⟨w, hw⟩ := List.exists_mem_of_ne_nil _ hne
  have hcov := h.covered (List.ne_nil_of_mem (hsub w hw))
  have hother : ∀ t ≠ c, (s.put c k' p).control t = s.control t :=
    fun _ => put_control_of_ne s k' p
  have hself : (s.put c k' p).control c = p := put_control_self s c k' p
  have hkeep : ∀ t ≠ c, Helps sem s a t → Helps sem (s.put c k' p) a' t := by
    intro t ht hh
    unfold Helps at hh ⊢
    rw [hother t ht]
    exact hh.imp_left (And.imp_right fun hn hc => hn (hsub t hc))
  cases hb with
  | low h => omega
  | empty h0 => exact absurd h0 (List.ne_nil_of_mem (hsub w hw))
  | kept hc hb hrel =>
    have hall : ∀ t, Helps sem s a t → Helps sem (s.put c k' p) a' t := by
      intro t hh
      by_cases htc : t = c
      · subst htc
        unfold Helps at hh ⊢
        rw [hself]
        exact hh.imp (And.imp hb fun hn hc => hn (hsub t hc)) hrel
      · exact hkeep t htc hh
    have := card_helpers_mono hall
    omega
  | taken hc =>
    have := card_helpers_pred hkeep
    omega
  | raised hc hb hrel hp =>
    have hnot : ¬Helps sem s a c := by
      rintro (⟨hh, -⟩ | hh)
      · exact hb hh
      · exact hrel hh
    have : (helpers sem s a).card + 1 ≤ (helpers sem (s.put c k' p) a').card :=
      card_helpers_succ (fun t hh => hkeep t (fun e => hnot (e ▸ hh)) hh) hnot
        (.inr (by rwa [hself]))
    omega
  | passed hc t ht htc hn =>
    have hgone : t ∉ waitersOf sem a' := hr.queue.next_eq_none_iff.mp hn _
    have hbehind := h.linked t ht
    have hnot : ¬Helps sem s a t := by
      rintro (⟨-, hn⟩ | hrel)
      · exact hn ht
      · exact hbehind.not_releasing hrel
    have hhelps : Helps sem (s.put c k' p) a' t := by
      refine .inl ⟨?_, hgone⟩
      rwa [hother t htc]
    have := card_helpers_le hkeep hnot hhelps
    omega

/-- A step of the current task keeps the invariant. -/
theorem Attended.put (h : Attended sem s a c) (hturn : Turns s a c (s.put c k' p)) (hin : InCall p)
    (hlinked : c ∈ waitersOf sem a ∨ Enters s (.semaphore sem) c → Behind sem p)
    (hb : Balance sem s a c k' p) (he : ¬Enters s (.semaphore sem) c ∨ k'.count sem ≤ 0)
    (hbound : -128 ≤ k'.count sem) : ∃ a' c', Attended sem (s.put c k' p) a' c' := by
  obtain ⟨a', c', hbet, hring⟩ := hturn
  refine ⟨a', c', hbet, forall_control_put (P := fun _ => InCall) hin fun t _ => h.inCall t,
    forall_control_put (P := fun t p => t ∈ waitersOf sem a' → Behind sem p) ?_ ?_,
    hb.covered h he hbet.repr (hring _), hbound⟩
  · intro hc
    exact hlinked ((hring _ c hc).imp_right And.right)
  · intro t htc ht
    exact h.linked t ((hring _ t ht).resolve_right fun hc => htc hc.1)

/-! ## The counts -/

omit [Fintype T] [DecidableEq T] in
/-- A count that is taken from or added to. -/
theorem count_step (sem m : Nat) (hb : -128 ≤ k.count sem) {d : Int}
    (hd : d = -1 ∧ 0 < k.count m ∨ d = 1) :
    -128 ≤ (k.setCount m (k.count m + d)).count sem ∧
      (sem = m → (k.setCount m (k.count m + d)).count sem ≤ k.count sem + d) ∧
      (sem ≠ m → (k.setCount m (k.count m + d)).count sem = k.count sem) := by
  rw [count_setCount]
  by_cases hm : sem = m
  · subst hm
    obtain ⟨hl, -, hle⟩ := int8_bounds (n := k.count sem + d) (by omega)
    rw [if_pos rfl]
    exact ⟨hl, fun _ => hle, fun hne => absurd rfl hne⟩
  · rw [if_neg hm]
    exact ⟨hb, fun e => absurd e hm, fun _ => rfl⟩

/-! ## The turns -/

/-- A task that is not behind the enqueue is not linked in the queue. -/
theorem Attended.not_linked (h : Attended sem s a c) (hb : ¬Behind sem (s.control c)) :
    c ∉ waitersOf sem a := fun hc => hb (h.linked c hc)

omit [DecidableEq T] [Fintype T] in
/-- A routine that `eos_acquire_semaphore` has called returns to its test of the deadline. -/
theorem InCall.point [DecidableEq T] {f : AcquireFrame} (h : InCall (.routine st (some f))) :
    f.point = .timeoutTest := by
  cases st with
  | waitAdd q queueType =>
    cases q with
    | semaphore m => exact h.2
    | condition m => exact h
  | _ => exact h

omit [Fintype T] [DecidableEq T] in
/-- The next statement of a routine that links no waiter. -/
theorem inCall_next {next : Statement T} {caller : Option AcquireFrame}
    (hn : ∀ q queueType, some next ≠ some (.waitAdd q queueType))
    (hc : ∀ f ∈ caller, f.point = .timeoutTest) : InCall (.routine next caller) := by
  cases next with
  | waitAdd q queueType => exact absurd rfl (hn q queueType)
  | _ => 
    cases caller with
    | none => trivial
    | some f => exact hc f rfl

omit [Fintype T] [DecidableEq T] in
/-- A call behind the enqueue stays behind it. -/
theorem behind_next {next : Statement T} {f : AcquireFrame}
    (hn : ∀ q queueType, some next ≠ some (.waitAdd q queueType)) (hf : f.sem = sem) :
    Behind sem (.routine next (some f)) := by
  cases next with
  | waitAdd q queueType => exact absurd rfl (hn q queueType)
  | _ => exact hf

omit [Fintype T] [DecidableEq T] in
/-- Such a call is one for the semaphore. -/
theorem behind_called {f : AcquireFrame} (h : Behind sem (.routine st (some f))) : f.sem = sem := by
  cases st with
  | waitAdd q queueType => exact h.elim
  | _ => exact h

omit [Fintype T] [DecidableEq T] in
/-- A routine that `eos_acquire_semaphore` has called releases nothing. -/
theorem not_releasing_called {f : AcquireFrame} : ¬Releasing sem (.routine st (some f)) := by
  cases st <;> exact id

/-- A wait queue whose head is `NULL` is empty. -/
theorem Attended.empty (h : Attended sem s a c)
    (hh : s.kernel.head (.wait (.semaphore sem)) = none) : waitersOf sem a = [] :=
  List.head?_eq_none_iff.mp ((h.repr.queue.head _).symm.trans hh)

/-- A step of a task that neither waits for the semaphore nor is about to. -/
theorem Attended.put_out (h : Attended sem s a c) (hturn : Turns s a c (s.put c k' p))
    (hout : c ∉ waitersOf sem a) (hne : ¬Enters s (.semaphore sem) c) (hin : InCall p)
    (hb : Balance sem s a c k' p) (hbound : -128 ≤ k'.count sem) :
    ∃ a' c', Attended sem (s.put c k' p) a' c' :=
  h.put hturn hin (fun hc => hc.elim (fun hc => absurd hc hout) fun hc => absurd hc hne) hb
    (.inl hne) hbound

omit [Fintype T] [DecidableEq T] in
/-- Only a routine enqueues. -/
theorem not_enters (hc : ∀ st caller, s.control c ≠ .routine st caller) (q : WaitQueue) :
    ¬Enters s q c := by
  rintro ⟨queueType, caller, he⟩
  exact hc _ _ he

/-- A call is entered. -/
theorem Attended.invoke (h : Attended sem s a c) (hown : s.control c = .own) (i : Invocation T) :
    ∃ a' c', Attended sem (s.put c (StatementSystem.enter s.kernel i).1
      (StatementSystem.enter s.kernel i).2) a' c' := by
  have hnb : ¬Behind sem (s.control c) := by
    rw [hown]
    exact id
  have hnr : ¬Releasing sem (s.control c) := by
    rw [hown]
    exact id
  have hcount : (StatementSystem.enter s.kernel i).1.count sem = s.kernel.count sem := by
    cases i <;> rfl
  apply h.put_out (h.toBetween.invoke hown i) (h.not_linked hnb) (not_enters (by simp [hown]) _)
  · cases i <;> trivial
  · exact .kept hcount.le (fun hb => absurd hb hnb) fun hr => absurd hr hnr
  · exact hcount ▸ h.bound

/-- A step of `eos_acquire_semaphore`. -/
theorem Attended.acquire (h : Attended sem s a c) {f : AcquireFrame} (hf : s.control c = .acquire f)
    (hatt : ∀ m ∈ givesUp s.kernel.tick (s.control c),
      s.kernel.count m ≤ 0 ∨ s.kernel.queue.head (.wait (.semaphore m)) = none)
    (hs : StatementSystem.advance s.kernel c (.acquire f) = some (k', p)) :
    ∃ a' c', Attended sem (s.put c k' p) a' c' := by
  have hturn := h.toBetween.acquire hf hs
  have hnr : ¬Releasing sem (s.control c) := by
    rw [hf]
    exact id
  have hstands := h.stands
  rw [hf] at hstands
  have hout : c ∉ waitersOf sem a := by
    intro hc
    have hb := h.linked c hc
    rw [hf] at hb
    have hl := hstands.2.2 (by rcases hb.2 with hp | hp <;> simp [hp])
    have hw := (hstands.1.waiting hc).1
    cases hw.symm.trans (hstands.2.1 hl)
  have hput := h.put_out hturn hout (not_enters (by simp [hf]) _)
  -- a step of a task that does not help
  have hidle : ¬Behind sem (s.control c) → k'.count sem ≤ s.kernel.count sem →
      Balance sem s a c k' p :=
    fun hb hc => .kept hc (fun hh => absurd hh hb) fun hh => absurd hh hnr
  obtain ⟨⟨k₁, n⟩, hk₁, hs⟩ := Option.bind_eq_some_iff.mp hs
  unfold AcquireFrame.step at hk₁
  cases hpt : f.point with
  | lockTest =>
    have hb : ¬Behind sem (s.control c) := by simp [hf, Behind, hpt]
    simp only [hpt] at hk₁
    split at hk₁ <;> cases hk₁ <;> cases hs
    · exact hput trivial (hidle hb le_rfl) h.bound
    · exact hput trivial (hidle hb le_rfl) h.bound
  | deadline =>
    have hb : ¬Behind sem (s.control c) := by simp [hf, Behind, hpt]
    simp only [hpt] at hk₁
    cases hk₁
    cases hs
    exact hput trivial (hidle hb le_rfl) h.bound
  | test =>
    have hb : ¬Behind sem (s.control c) := by simp [hf, Behind, hpt]
    simp only [hpt] at hk₁
    split at hk₁
    · split at hk₁
      · cases hk₁
        cases hs
        exact hput trivial (hidle hb le_rfl) h.bound
      · obtain ⟨k₂, hk₂, hk₁⟩ := Option.bind_eq_some_iff.mp hk₁
        cases hk₁
        cases hs
        have hcount := setAlarm_count hk₂ sem
        exact hput trivial (hidle hb hcount.le) (hcount ▸ h.bound)
    · next hpos =>
      cases hk₁
      cases hs
      obtain ⟨hl, hle, heq⟩ := count_step sem f.sem h.bound
        (.inl ⟨rfl, not_le.mp (show ¬s.kernel.count f.sem ≤ 0 from hpos)⟩)
      refine hput trivial (hidle hb ?_) hl
      by_cases hm : sem = f.sem
      · have := hle hm
        show (s.kernel.setCount f.sem (s.kernel.count f.sem + -1)).count sem ≤ _
        omega
      · exact (heq hm).le
  | wait =>
    have hb : ¬Behind sem (s.control c) := by simp [hf, Behind, hpt]
    simp only [hpt] at hk₁
    cases hk₁
    cases hs
    exact hput ⟨rfl, rfl⟩ (hidle hb le_rfl) h.bound
  | timeoutTest =>
    simp only [hpt] at hk₁
    split at hk₁
    · next hlate =>
      cases hk₁
      cases hs
      refine hput trivial ?_ h.bound
      by_cases hm : f.sem = sem
      · have hgive : givesUp s.kernel.tick (s.control c) = some sem := by
          rw [hf]
          simp only [givesUp, hpt, hm]
          exact if_pos ⟨trivial, hlate⟩
        obtain hlow | hempty := hatt sem hgive
        · exact .low hlow
        · exact .empty (h.empty hempty)
      · exact hidle (fun hb => hm (by rw [hf] at hb; exact hb.1)) le_rfl
    · cases hk₁
      cases hs
      refine hput trivial (.kept le_rfl (fun hb => ?_) fun hh => absurd hh hnr) h.bound
      rw [hf] at hb
      exact ⟨hb.1, .inr rfl⟩
  | retest =>
    simp only [hpt] at hk₁
    split at hk₁
    · next hle =>
      cases hk₁
      cases hs
      refine hput trivial ?_ h.bound
      by_cases hm : f.sem = sem
      · exact .low (hm ▸ hle)
      · exact hidle (fun hb => hm (by rw [hf] at hb; exact hb.1)) le_rfl
    · next hpos =>
      obtain ⟨k₂, hk₂, hk₁⟩ := Option.bind_eq_some_iff.mp hk₁
      cases hk₁
      cases hs
      have hcount := setAlarm_count hk₂
      obtain ⟨hl, hle, heq⟩ := count_step (k := k₂) sem f.sem
        (by rw [hcount]; exact h.bound)
        (.inl ⟨rfl, by rw [hcount]; exact not_le.mp (show ¬s.kernel.count f.sem ≤ 0 from hpos)⟩)
      refine hput trivial ?_ hl
      by_cases hm : sem = f.sem
      · have hlt : _ ≤ k₂.count sem + -1 := hle hm
        rw [hcount sem] at hlt
        exact .taken hlt
      · have hsame := (heq hm).trans (hcount sem)
        exact hidle (fun hb => hm (by rw [hf] at hb; exact hb.1.symm)) hsame.le

/-- A step of `eos_release_semaphore`. -/
theorem Attended.release (h : Attended sem s a c) {f : ReleaseFrame} (hf : s.control c = .release f)
    (hs : StatementSystem.advance s.kernel c (.release f) = some (k', p)) :
    ∃ a' c', Attended sem (s.put c k' p) a' c' := by
  have hnb : ¬Behind sem (s.control c) := by
    rw [hf]
    exact id
  have hput :=
    h.put_out (h.toBetween.release hf hs) (h.not_linked hnb) (not_enters (by simp [hf]) _)
  -- a step that leaves the task among the helpers, or outside
  have hkeep : k'.count sem ≤ s.kernel.count sem →
      (f.sem = sem → f.point = .wake → Releasing sem p) → Balance sem s a c k' p := by
    intro hc hr
    refine .kept hc (fun hb => absurd hb hnb) fun hrel => ?_
    rw [hf] at hrel
    exact hr hrel.1 hrel.2
  unfold StatementSystem.advance ReleaseFrame.step at hs
  cases hpt : f.point with
  | increment =>
    simp only [hpt] at hs
    cases hs
    obtain ⟨hl, hle, heq⟩ := count_step sem f.sem h.bound (.inr rfl)
    refine hput trivial ?_ hl
    by_cases hm : sem = f.sem
    · exact .raised (hle hm) hnb (by simp [hf, Releasing, hpt]) ⟨hm.symm, rfl⟩
    · exact hkeep (heq hm).le fun e => absurd e.symm hm
  | wake =>
    simp only [hpt] at hs
    split at hs <;> cases hs
    · next hempty =>
      refine hput trivial ?_ h.bound
      by_cases hm : f.sem = sem
      · subst hm
        exact .empty (h.empty hempty)
      · exact hkeep le_rfl fun e => absurd e hm
    · exact hput trivial (hkeep le_rfl fun e _ => congrArg _ e) h.bound

/-- A step of a routine that a semaphore call has called. -/
theorem Attended.called (h : Attended sem s a c) {f : AcquireFrame}
    (hf : s.control c = .routine st (some f)) (hch : StillChosen s.kernel (s.control c))
    (hatt : ∀ m ∈ enqueues (s.control c), s.kernel.count m ≤ 0)
    (hs : StatementSystem.advance s.kernel c (.routine st (some f)) = some (k', p)) :
    ∃ a' c', Attended sem (s.put c k' p) a' c' := by
  have hturn := h.toBetween.statement hf hch hs
  obtain ⟨⟨k₁, r⟩, hk₁, hs⟩ := Option.bind_eq_some_iff.mp hs
  have hcount : k₁.count sem = s.kernel.count sem := by
    rw [Kernel.count, exec_semaphore hk₁, Kernel.count]
  have hin := h.inCall c
  rw [hf] at hin
  have hpt : f.point = .timeoutTest := hin.point
  have hp : k₁ = k' ∧ InCall p ∧ (f.sem = sem → Behind sem p) := by
    cases r with
    | none =>
      cases hs
      exact ⟨rfl, trivial, fun e => ⟨e, .inl hpt⟩⟩
    | some next =>
      cases hs
      have hnext := fun q queueType => exec_next hk₁ q queueType
      exact ⟨rfl, inCall_next hnext fun g hg => Option.some.inj hg ▸ hpt, behind_next hnext⟩
  obtain ⟨rfl, hin', hbehind⟩ := hp
  have hsem : Behind sem (s.control c) → f.sem = sem := by
    rw [hf]
    exact behind_called
  have henter : Enters s (.semaphore sem) c → f.sem = sem ∧ s.kernel.count sem ≤ 0 := by
    rintro ⟨queueType, caller, he⟩
    cases hf.symm.trans he
    exact ⟨hin.1, hatt sem (by rw [hf]; rfl)⟩
  refine h.put hturn hin' (fun hc => hbehind ?_) ?_ ?_ (hcount ▸ h.bound)
  · exact hc.elim (fun hc => hsem (h.linked c hc)) fun hc => (henter hc).1
  · refine .kept hcount.le (fun hb => hbehind (hsem hb)) fun hr => ?_
    rw [hf] at hr
    exact absurd hr not_releasing_called
  · by_cases he : Enters s (.semaphore sem) c
    · exact .inr (hcount ▸ (henter he).2)
    · exact .inl he

/-- A statement of a routine that no semaphore call has called, with what follows it. -/
theorem Attended.balance (h : Attended sem s a c) (hf : s.control c = .routine st none)
    (hch : StillChosen s.kernel (s.control c)) (hout : c ∉ waitersOf sem a)
    {r : Option (Statement T)} (hst : st.exec s.kernel c = some (k', r))
    (hp : p = r.elim .own fun next => .routine next none) : Balance sem s a c k' p := by
  have hcount : k'.count sem = s.kernel.count sem := by
    rw [Kernel.count, exec_semaphore hst, Kernel.count]
  have hb := h.stands
  rw [hf] at hch hb
  have hkeep : (Releasing sem (.routine st none) → Releasing sem p) → Balance sem s a c k' p := by
    intro hr
    refine .kept hcount.le (fun hb => ?_) (hf ▸ hr)
    rw [hf] at hb
    cases st <;> exact hb.elim
  cases st with
  | wakeTest q =>
    simp only [Statement.exec] at hst
    split at hst <;> cases hst
    · next hempty =>
      by_cases hq : q = .semaphore sem
      · exact .empty (h.empty (hq ▸ hempty))
      · exact hkeep fun hr => absurd hr hq
    · subst hp
      exact hkeep id
  | wakeTask q =>
    obtain ⟨node, -, hst⟩ := Option.bind_eq_some_iff.mp hst
    obtain ⟨task, -, hst⟩ := Option.bind_eq_some_iff.mp hst
    cases hst
    subst hp
    exact hkeep id
  | wakeRemove q t =>
    by_cases hq : q = .semaphore sem
    · subst hq
      have ht := Orderly.mem_chosen h.repr hb.1 hch
      obtain ⟨k₁, hk₁, hra⟩ := h.repr.removeNode _ t _ (removeNode_eq ht)
      have hst : (do return (← s.kernel.removeNode (.wait (.semaphore sem)) t,
        some (Statement.readyAdd t))) = some (k', r) := hst
      rw [hk₁] at hst
      cases hst
      have hgone : ¬Linked (detach a (.wait (.semaphore sem)) t).queue t :=
        hb.1.lists.not_linked_detach ht
      refine .passed hcount.le t ht (fun e => hout (e ▸ ht)) ?_
      exact hra.queue.next_eq_none_iff.mpr fun hd hm => hgone ⟨hd, hm⟩
    · exact hkeep fun hr => absurd hr hq
  | _ => exact hkeep fun hr => absurd hr id

/-- A step of a routine that a task has called from its own code or from a release. -/
theorem Attended.uncalled (h : Attended sem s a c) (hf : s.control c = .routine st none)
    (hch : StillChosen s.kernel (s.control c))
    (hs : StatementSystem.advance s.kernel c (.routine st none) = some (k', p)) :
    ∃ a' c', Attended sem (s.put c k' p) a' c' := by
  have hturn := h.toBetween.statement hf hch hs
  have hnb : ¬Behind sem (s.control c) := by
    rw [hf]
    cases st <;> exact id
  have hout := h.not_linked hnb
  have hne : ¬Enters s (.semaphore sem) c := by
    rintro ⟨queueType, caller, he⟩
    have hin := h.inCall c
    cases hf.symm.trans he
    rw [hf] at hin
    exact hin
  obtain ⟨⟨k₁, r⟩, hk₁, hs⟩ := Option.bind_eq_some_iff.mp hs
  have hcount : k₁.count sem = s.kernel.count sem := by
    rw [Kernel.count, exec_semaphore hk₁, Kernel.count]
  have hbal := fun p => h.balance (p := p) hf hch hout hk₁
  cases r with
  | none =>
    cases hs
    exact h.put_out hturn hout hne trivial (hbal _ rfl) (hcount ▸ h.bound)
  | some next =>
    cases hs
    have hin : InCall (.routine next none) :=
      inCall_next (fun q queueType => exec_next hk₁ q queueType) fun f hf => by cases hf
    exact h.put_out hturn hout hne hin (hbal _ rfl) (hcount ▸ h.bound)

/-- A tick: nobody enters a wait queue, no count changes, and every task stays where it is. -/
theorem Attended.tick (h : Attended sem s a c) (hg : Guarded s .tick)
    (hk : s.kernel.eosTriggerCounter = some k') :
    ∃ a' c', Attended sem { s with kernel := k' } a' c' := by
  obtain ⟨a', c', hbet, hring, hsem⟩ := h.toBetween.tick hg hk
  have hsub : ∀ t ∈ waitersOf sem a', t ∈ waitersOf sem a := hring _
  have hcount : k'.count sem = s.kernel.count sem := by
    rw [Kernel.count, hsem, Kernel.count]
  refine ⟨a', c', hbet, h.inCall, fun t ht => h.linked t (hsub t ht), fun hne => ?_,
    hcount ▸ h.bound⟩
  obtain ⟨w, hw⟩ := List.exists_mem_of_ne_nil _ hne
  have hcov := h.covered (List.ne_nil_of_mem (hsub w hw))
  have hmono : (helpers sem s a).card ≤ (helpers sem { s with kernel := k' } a').card :=
    card_helpers_mono fun t ht => ht.imp_left (And.imp_right fun hn hc => hn (hsub t hc))
  rw [hcount]
  omega

/-- **Every attentive turn** keeps the invariant. -/
theorem Attended.turn (h : Attended sem s a c) {o : Turn T} (ha : Attentive s o)
    (hs : s.exec o = some s') : ∃ a' c', Attended sem s' a' c' := by
  have hcur : s.kernel.vars.currentTask = some c := by rw [h.repr.vars, h.current]
  obtain ⟨hg, hatt⟩ := ha
  cases o with
  | invoke i =>
    obtain ⟨c', hc', hown, rfl⟩ := StatementSystem.invoke_cases hs
    obtain rfl := Option.some.inj (hcur.symm.trans hc')
    exact h.invoke hown i
  | next =>
    obtain ⟨c', k', p, hc', hadv, rfl⟩ := StatementSystem.next_cases hs
    obtain rfl := Option.some.inj (hcur.symm.trans hc')
    have hch := hg c hcur
    obtain ⟨henq, hgive⟩ := hatt c hcur rfl
    cases hp : s.control c with
    | own =>
      rw [hp] at hadv
      cases hadv
    | acquire f => exact h.acquire hp hgive (hp ▸ hadv)
    | release f => exact h.release hp (hp ▸ hadv)
    | routine st caller =>
      cases caller with
      | none => exact h.uncalled hp hch (hp ▸ hadv)
      | some f => exact h.called hp hch henq (hp ▸ hadv)
  | tick =>
    obtain ⟨k', hk', rfl⟩ := StatementSystem.tick_cases hs
    exact h.tick hg hk'

/-! ## Runs -/

/-- The systems that attentive turns lead to. -/
abbrev Attentively (s : StatementSystem LinkMem T) : StatementSystem LinkMem T → Prop :=
  Reach StatementSystem.exec Attentive s

/-- No task waits where every task is in its own code and the queue is empty. -/
theorem Settled.attended (h : Settled s)
    (hh : s.kernel.queue.head (.wait (.semaphore sem)) = none) (hc : 0 ≤ s.kernel.count sem) :
    ∃ a c, Attended sem s a c := by
  obtain ⟨a, c, hb⟩ := h.between
  have hempty : waitersOf sem a = [] :=
    List.head?_eq_none_iff.mp ((hb.repr.queue.head _).symm.trans hh)
  refine ⟨a, c, hb, fun t => ?_, fun t ht => ?_, fun hne => absurd hempty hne, by omega⟩
  · rw [h.2]
    trivial
  · rw [hempty] at ht
    cases ht

/-- A positive count while a task waits leaves a helper. -/
theorem Attended.noLostWakeup (h : Attended sem s a c) : NoLostWakeup sem s := by
  refine ⟨a.queue.ring, h.repr.queue, fun hpos hne => ?_⟩
  have hcov := h.covered hne
  obtain ⟨t, ht⟩ := Finset.card_pos.mp (show 0 < (helpers sem s a).card by omega)
  obtain hb | hr := mem_helpers.mp ht
  · exact .inl ⟨t, hb⟩
  · exact .inr ⟨t, hr⟩

/-- **No lost wake-up on semaphores**: in every run of attentive turns from a semaphore in whose
queue nobody waits. -/
theorem no_lost_wakeup (h : Settled s)
    (hh : s.kernel.queue.head (.wait (.semaphore sem)) = none) (hc : 0 ≤ s.kernel.count sem)
    (hrun : Attentively s s') : NoLostWakeup sem s' := by
  have hinv : ∃ a c, Attended sem s' a c := by
    refine Reach.invariant (I := fun s => ∃ a c, Attended sem s a c) (h.attended hh hc) ?_ hrun
    rintro u v o ⟨a, c, hu⟩ hg hv
    exact hu.turn hg hv
  obtain ⟨a, c, hs⟩ := hinv
  exact hs.noLostWakeup

section Examples

instance (s : StatementSystem LinkMem T) : DecidablePred (Attentive s) := fun o =>
  inferInstanceAs (Decidable (Guarded s o ∧ ∀ c ∈ s.kernel.vars.currentTask, o = .next →
    (∀ sem ∈ enqueues (s.control c), s.kernel.count sem ≤ 0) ∧
      ∀ sem ∈ givesUp s.kernel.tick (s.control c),
        s.kernel.count sem ≤ 0 ∨ s.kernel.queue.head (.wait (.semaphore sem)) = none))

/-- The turns of two tasks, the first of which calls `eos_acquire_semaphore` and the second
`eos_release_semaphore`, up to the increment. -/
def acquireRelease {T : Type} (between : List (Turn T)) : List (Turn T) :=
  [.invoke (.acquire 0 0), .next, .next, .next] ++ between ++ [.invoke (.release 0), .next]

/-- Task 0 waits, and task 1 has incremented the count and has still to wake it. -/
theorem no_lost_wakeup_release :
    ∃ s s' : StatementSystem LinkMem (Fin 3), Settled s ∧ Attentively s s' ∧
      s'.kernel.count 0 = 1 ∧ s'.kernel.queue.head (.wait (.semaphore 0)) = some 0 ∧
      NoLostWakeup 0 s' := by
  obtain ⟨s, s', hs, hrun, ⟨hempty, hcount⟩, hone, hhead⟩ :=
    Reach.of_decide StatementSystem.exec Attentive (contenders (2 : Fin 3) 0 1 5)
      (acquireRelease (List.replicate 15 .next))
      (fun s s' => (s.kernel.queue.head (.wait (.semaphore 0)) = none ∧ 0 ≤ s.kernel.count 0) ∧
        s'.kernel.count 0 = 1 ∧ s'.kernel.queue.head (.wait (.semaphore 0)) = some 0)
      (by decide +kernel)
  exact ⟨s, s', contenders_settled hs, hrun, hone, hhead,
    no_lost_wakeup (contenders_settled hs) hempty hcount hrun⟩

/-- **A wake-up is lost** when a release comes between the test of the count and the enqueue: task 1
finds nobody to wake, and task 0 waits with the count at one. -/
theorem wakeup_lost :
    ∃ s s' : StatementSystem LinkMem (Fin 3), Settled s ∧
      s.kernel.queue.head (.wait (.semaphore 0)) = none ∧ 0 ≤ s.kernel.count 0 ∧
      Guardedly s s' ∧ ¬NoLostWakeup 0 s' := by
  obtain ⟨s, s', hs, hrun, ⟨hempty, hcount⟩, hpos, hhead, hown, hc⟩ :=
    Reach.of_decide StatementSystem.exec Guarded (contenders (2 : Fin 3) 0 1 5)
      (acquireRelease [.tick] ++ [.next, .tick, .next, .next])
      (fun s s' => (s.kernel.queue.head (.wait (.semaphore 0)) = none ∧ 0 ≤ s.kernel.count 0) ∧
        0 < s'.kernel.count 0 ∧ s'.kernel.queue.head (.wait (.semaphore 0)) = some 0 ∧
        (∀ t ≠ 0, s'.control t = .own) ∧ s'.control 0 =
          .routine (.waitOwner (.semaphore 0)) (some ⟨0, 0, 0, .timeoutTest⟩))
      (by decide +kernel)
  refine ⟨s, s', contenders_settled hs, hempty, hcount, hrun, ?_⟩
  rintro ⟨ring, hok, h⟩
  have hmem : 0 ∈ ring (.wait (.semaphore 0)) :=
    List.mem_of_mem_head? ((hok.head _).symm.trans hhead)
  obtain ⟨t, hb, hn⟩ | ⟨t, hr⟩ := h hpos (List.ne_nil_of_mem hmem)
  · have ht : t ≠ 0 := fun e => hn (e ▸ hmem)
    rw [hown t ht] at hb
    exact hb
  · by_cases ht : t = 0
    · rw [ht, hc] at hr
      exact hr
    · rw [hown t ht] at hr
      exact hr

end Examples

end Eos.Analysis
