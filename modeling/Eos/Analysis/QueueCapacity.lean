import Eos.Analysis.Exclusion
import Eos.Model.MessageQueue

/-!
# How many messages a queue takes

The capacity of a queue stands twice: `queue_size` is the size of the ring, and the initial count
of `putsem` (core/comm.c:13-30).  The count is an `int8s_t`, so that it is `queue_size` only up
to 127.  A larger queue takes as many messages as the count allows, which is none at all for a
`queue_size` from 128 to 256.

Calls that do not block follow one another, so `Counts` says what the two counts are between them.
-/

set_option autoImplicit false

namespace Eos.Analysis

open Eos.Model

/-! ## What is claimed of the capacity -/

section Defs

variable {T : Type}

/-- The states that is with a negative timeout lead to, with what they have returned, the last
one first. -/
inductive Unblocked (s₀ : QueueState T) : List (Direction × UInt8) → QueueState T → Prop
  | none : Unblocked s₀ [] s₀
  | call {hist : List (Direction × UInt8)} {s s' : QueueState T} {v : UInt8} (t : T)
    (c : QueueCall) (h : Unblocked s₀ hist s) (hc : c.timeout < 0)
    (hs : s.call t hist.length c = some (s', v)) : Unblocked s₀ ((c.direction, v) :: hist) s'

/-- How many calls in a direction have succeeded. -/
def successes (d : Direction) (hist : List (Direction × UInt8)) : Nat :=
  hist.countP fun e => e.1 = d ∧ e.2 ≠ 0

/-- How many messages are stored. -/
def stored (hist : List (Direction × UInt8)) : Int :=
  successes .send hist - successes .receive hist

/-- With `k` messages stored there is room for one more in a queue of size `n`, or one to take. -/
def Possible (n k : Int) : Direction → Prop
  | .send => k < n
  | .receive => 0 < k

/-- **A queue of size `n`**: a call returns, with success if and only if it is possible, and so
many sends in a row succeed on the initialised queue. -/
structure Capacity (n : Nat) (s₀ : QueueState T) : Prop where
  decides : ∀ hist s, Unblocked s₀ hist s → ∀ (t : T) (c : QueueCall), c.timeout < 0 →
    ∃ s' v, s.call t hist.length c = some (s', v) ∧
      (v ≠ 0 ↔ Possible n (stored hist) c.direction)
  fills : ∀ hist s, Unblocked s₀ hist s → (∀ e ∈ hist, e.1 = .send) →
    stored hist = min hist.length n

end Defs

variable {T : Type} {t : T} {i : Nat} {s s' s₀ : QueueState T} {f : Transfer} {c : QueueCall}
  {hist : List (Direction × UInt8)} {k : Int}

/-! ## One call -/

/-- A call that goes on by one step. -/
theorem finish_step {f' : Transfer} (h : f.step t i s = some (s', .inl f')) (fuel : Nat) :
    f.finish t i (fuel + 1) s = f'.finish t i fuel s' := by
  rw [Transfer.finish, h]
  rfl

/-- A call that returns. -/
theorem finish_return {v : UInt8} (h : f.step t i s = some (s', .inr v)) (fuel : Nat) :
    f.finish t i (fuel + 1) s = some (s', v) := by
  rw [Transfer.finish, h]
  rfl

/-- The copy loop copies its bytes and touches no count. -/
theorem finish_copy (v : UInt8) (offset : Nat) (j : UInt8) (n fuel : Nat)
    (hf : f.point = .copy v offset j) (hi : j.toNat + n = s.mq.msgSize.toNat) :
    ∃ (f' : Transfer) (s' : QueueState T), f.finish t i (fuel + n + 1) s = f'.finish t i fuel s' ∧
      f'.direction = f.direction ∧ f'.point = .restoreScheduler v ∧ s'.toCpu = s.toCpu ∧
        s'.mq = s.mq := by
  induction n generalizing f s j with
  | zero =>
    have hlt : ¬j < s.mq.msgSize := by
      rw [UInt8.lt_iff_toNat_lt]
      omega
    refine ⟨{ f with point := .restoreScheduler v },
      { s with log := Function.update s.log f.direction (s.log f.direction ++
        [⟨t, i, (List.range s.mq.msgSize.toNat).map f.message⟩]) },
      finish_step ?_ fuel, rfl, rfl, rfl, rfl⟩
    rw [Transfer.step, hf]
    exact if_neg hlt
  | succ n ih =>
    have hlt : j < s.mq.msgSize := by
      rw [UInt8.lt_iff_toNat_lt]
      omega
    have hnext : (j + 1).toNat = j.toNat + 1 := by
      have := s.mq.msgSize.toNat_lt
      rw [UInt8.toNat_add]
      exact Nat.mod_eq_of_lt (by simp; omega)
    have hstep : f.step t i s =
        some ({ s with memory := (f.direction.copyByte s.memory f.message offset j.toNat).1 },
          .inl { f with
            message := (f.direction.copyByte s.memory f.message offset j.toNat).2
            point := .copy v offset (j + 1) }) := by
      rw [Transfer.step, hf]
      exact if_pos hlt
    obtain ⟨f', s', hfin, hd, hp, hcpu, hmq⟩ := ih (j + 1) (f := { f with
      message := (f.direction.copyByte s.memory f.message offset j.toNat).2
      point := .copy v offset (j + 1) }) (s := { s with
        memory := (f.direction.copyByte s.memory f.message offset j.toNat).1 }) rfl
        (by rw [hnext, ← hi]; omega)
    refine ⟨f', s', ?_, hd, hp, hcpu, hmq⟩
    rw [← hfin]
    exact finish_step hstep (fuel + n + 1)

/-- A call tests the count first, with the scheduler unlocked. -/
theorem finish_test (hl : s.schedulerLock = 0) (fuel : Nat) (d : Direction)
    (message : Nat → UInt8) (timeout : Int32) :
    (Transfer.entry d message timeout).finish t i (fuel + 2) s =
      Transfer.finish t i fuel
        ⟨d, message, .acquire ⟨d.acquired, timeout, s.tick + timeout.toUInt32, .test⟩⟩ s := by
  have hlock : (Transfer.entry d message timeout).step t i s =
      some (s, .inl ⟨d, message, .acquire ⟨d.acquired, timeout, 0, .deadline⟩⟩) := by
    simp [Transfer.entry, AcquireFrame.entry, Transfer.step, AcquireFrame.step,
      SyncState.schedulerLock, hl]
  rw [finish_step hlock]
  exact finish_step rfl fuel

/-- A call that does not block fails where the count is not positive, and leaves everything as it
is. -/
theorem call_fails (hl : s.schedulerLock = 0) (ht : c.timeout < 0)
    (hc : s.semaphore c.direction.acquired ≤ 0) : s.call t i c = some (s, 0) := by
  have htest : (⟨c.direction, c.message, .acquire ⟨c.direction.acquired, c.timeout,
      s.tick + c.timeout.toUInt32, .test⟩⟩ : Transfer).step t i s = some (s, .inr 0) := by
    simp [Transfer.step, AcquireFrame.step, SyncState.count, hc, ht]
  exact (finish_test hl _ _ _ _).trans (finish_return htest _)

/-- Where the count is positive a call moves one unit from its semaphore to the other. -/
theorem call_succeeds (hl : s.schedulerLock = 0)
    (hc : 0 < s.semaphore c.direction.acquired) :
    ∃ s', s.call t i c = some (s', s.mq.msgSize) ∧ s'.mq.msgSize = s.mq.msgSize ∧
      s'.schedulerLock = 0 ∧
      s'.semaphore c.direction.acquired = int8 (s.semaphore c.direction.acquired - 1) ∧
      s'.semaphore c.direction.released = int8 (s.semaphore c.direction.released + 1) := by
  set d := c.direction with hd
  have hne : d.released ≠ d.acquired := by cases d <;> decide
  -- the acquire, and the steps up to the copy
  set s₁ : QueueState T := SyncState.setCount s d.acquired (s.semaphore d.acquired - 1) with hs₁
  have htest : (⟨d, c.message, .acquire ⟨d.acquired, c.timeout,
      s.tick + c.timeout.toUInt32, .test⟩⟩ : Transfer).step t i s =
        some (s₁, .inl ⟨d, c.message, .lockScheduler⟩) := by
    have hnot : ¬s.semaphore d.acquired ≤ 0 := by omega
    simp [Transfer.step, AcquireFrame.step, SyncState.count, hnot, hs₁]
  set s₂ : QueueState T := { s₁ with schedulerLock := locked, mq := s₁.mq.advance d } with hs₂
  set offset := s₁.mq.msgSize.toNat * (d.index s₁.mq).toNat
  have hmsg : s₂.mq.msgSize = s.mq.msgSize := by
    simp only [hs₂, MessageQueue.advance, hs₁]
    cases d <;> rfl
  obtain ⟨f', s₃, hcopy, hdir, hpoint, hcpu, hmq⟩ := finish_copy (t := t) (i := i) (s := s₂)
    (f := ⟨d, c.message, .copy s₁.schedulerLock offset 0⟩) s₁.schedulerLock offset 0
      s.mq.msgSize.toNat 3 rfl (by simp [hmsg])
  -- the release
  set s₄ : QueueState T :=
    SyncState.setCount { s₃ with schedulerLock := s₁.schedulerLock } d.released
      (s₃.semaphore d.released + 1) with hs₄
  have hrestore : f'.step t i s₃ = some ({ s₃ with schedulerLock := s₁.schedulerLock },
      .inl { f' with point := .release (.entry f'.direction.released) }) := by
    rw [Transfer.step, hpoint]
  have hincrement : ({ f' with point := .release (.entry f'.direction.released) } :
      Transfer).step t i { s₃ with schedulerLock := s₁.schedulerLock } =
        some (s₄, .inl { f' with point := .release ⟨d.released, .wake⟩ }) := by
    rw [hdir]
    rfl
  have hwake : ({ f' with point := .release ⟨d.released, .wake⟩ } : Transfer).step t i s₄ =
      some (s₄, .inr s₄.mq.msgSize) := rfl
  have hmsg₄ : s₄.mq.msgSize = s.mq.msgSize := by
    rw [← hmsg, ← hmq]
    rfl
  have hsem : s₃.semaphore = Function.update s.semaphore d.acquired
      (int8 (s.semaphore d.acquired - 1)) := by
    rw [hcpu]
    rfl
  refine ⟨s₄, ?_, hmsg₄, hl, ?_, ?_⟩
  · unfold QueueState.call
    rw [show s.mq.msgSize.toNat + 10 = (3 + s.mq.msgSize.toNat + 1) + 3 + 1 + 2 by omega,
      finish_test hl, finish_step htest, finish_step rfl, finish_step rfl, finish_step rfl]
    rw [hmsg₄] at hwake
    exact hcopy.trans ((finish_step hrestore 2).trans
      ((finish_step hincrement 1).trans (finish_return hwake 0)))
  · show Function.update s₃.semaphore d.released _ d.acquired = _
    rw [Function.update_of_ne hne.symm, hsem, Function.update_self]
  · show Function.update s₃.semaphore d.released _ d.released = _
    rw [Function.update_self, hsem, Function.update_of_ne hne]

/-! ## The two counts -/

/-- One more call, which stores or fetches a message if it has success. -/
theorem stored_cons (d : Direction) (v : UInt8) (hist : List (Direction × UInt8)) :
    stored ((d, v) :: hist) =
      stored hist + if v = 0 then 0 else if d = .send then 1 else -1 := by
  unfold stored successes
  by_cases hv : v = 0
  · simp [hv]
  · cases d <;> simp [hv] <;> omega

/-- What holds between two calls when the initial count of `putsem` was `n` and `k` messages are
stored. -/
structure Counts (n k : Int) (s : QueueState T) : Prop where
  unlocked : s.schedulerLock = 0
  msgSize : s.mq.msgSize ≠ 0
  put : s.semaphore putsem = n - k
  get : s.semaphore getsem = k
  nonneg : 0 ≤ k
  le : 0 < k → k ≤ n

/-- **A call that does not block** returns, with success if and only if the count allows it. -/
theorem Counts.call {n : Int} (h : Counts n (stored hist) s) (hn : -128 ≤ n ∧ n ≤ 127) (t : T)
    (c : QueueCall) (hc : c.timeout < 0) :
    ∃ s' v, s.call t hist.length c = some (s', v) ∧
      (v ≠ 0 ↔ Possible n (stored hist) c.direction) ∧
      Counts n (stored ((c.direction, v) :: hist)) s' := by
  have hput := h.put
  have hget := h.get
  have hnonneg := h.nonneg
  have hle := h.le
  by_cases hpos : 0 < s.semaphore c.direction.acquired
  · obtain ⟨s', hs', hmsg, hl, hacq, hrel⟩ :=
      call_succeeds (t := t) (i := hist.length) h.unlocked hpos
    refine ⟨s', s.mq.msgSize, hs', ?_⟩
    rw [stored_cons, if_neg h.msgSize]
    have hmsg' : s'.mq.msgSize ≠ 0 := by
      rw [hmsg]
      exact h.msgSize
    cases hd : c.direction with
    | send =>
      rw [hd] at hpos hacq hrel
      simp only [Direction.acquired, Direction.released] at hpos hacq hrel
      rw [int8_eq (by omega) (by omega)] at hacq hrel
      have hroom : stored hist < n := by omega
      refine ⟨iff_of_true h.msgSize hroom, hl, hmsg', ?_, ?_, ?_, ?_⟩ <;> simp only [if_true] <;>
        omega
    | receive =>
      rw [hd] at hpos hacq hrel
      simp only [Direction.acquired, Direction.released] at hpos hacq hrel
      rw [int8_eq (by omega) (by omega)] at hacq hrel
      have hsome : 0 < stored hist := by omega
      refine ⟨iff_of_true h.msgSize hsome, hl, hmsg', ?_, ?_, ?_, ?_⟩ <;>
        simp only [reduceCtorEq, if_false] <;> omega
  · refine ⟨s, 0, call_fails h.unlocked hc (by omega), ?_, ?_⟩
    · refine iff_of_false (by simp) fun hp => hpos ?_
      cases hd : c.direction with
      | send =>
        rw [hd] at hp
        have hp : stored hist < n := hp
        simp only [Direction.acquired]
        omega
      | receive =>
        rw [hd] at hp
        have hp : 0 < stored hist := hp
        simp only [Direction.acquired]
        omega
    · rw [stored_cons, if_pos rfl, add_zero]
      exact h

/-- What holds between two calls of a history. -/
theorem Unblocked.counts {n : Int} (h : Unblocked s₀ hist s) (h₀ : Counts n 0 s₀)
    (hn : -128 ≤ n ∧ n ≤ 127) : Counts n (stored hist) s := by
  induction h with
  | none => exact h₀
  | call t c h hc hs ih =>
    obtain ⟨s', v, hs', -, hcounts⟩ := ih.call hn t c hc
    cases hs'.symm.trans hs
    exact hcounts

/-- Sends can be called in a row. -/
theorem exists_sends [Nonempty T] {n : Int} (h₀ : Counts n 0 s₀) (hn : -128 ≤ n ∧ n ≤ 127)
    (j : Nat) : ∃ hist s, Unblocked s₀ hist s ∧ (∀ e ∈ hist, e.1 = .send) ∧ hist.length = j := by
  induction j with
  | zero => exact ⟨[], s₀, .none, List.forall_mem_nil _, rfl⟩
  | succ j ih =>
    obtain ⟨hist, s, hcalls, hsend, hlen⟩ := ih
    obtain ⟨t⟩ := ‹Nonempty T›
    let c : QueueCall := ⟨.send, fun _ => 0, -1⟩
    have hc : c.timeout < 0 := by decide
    obtain ⟨s', v, hs', -, -⟩ := (hcalls.counts h₀ hn).call hn t c hc
    refine ⟨(.send, v) :: hist, s', .call t c hcalls hc hs', fun e he => ?_, by simp [hlen]⟩
    obtain rfl | he := List.mem_cons.mp he
    · rfl
    · exact hsend e he

/-- What holds of the initialised queue. -/
theorem counts_init (queueSize : UInt16) (msgSize : UInt8) (hl : s.schedulerLock = 0)
    (hq : queueSize ≠ 0) (hm : msgSize ≠ 0) :
    Counts (int8 queueSize.toNat) 0 (s.eosInitMqueue queueSize msgSize) := by
  unfold QueueState.eosInitMqueue
  rw [if_neg (by simp [hq, hm])]
  refine ⟨hl, hm, ?_, ?_, le_rfl, fun h => absurd h (lt_irrefl 0)⟩
  · simp [QueueState.eosInitSemaphore, putsem, getsem]
  · simp [QueueState.eosInitSemaphore, getsem, int8]

/-! ## The capacity -/

/-- A queue whose `putsem` starts at its size has that capacity. -/
theorem capacity_of_counts {n : Nat} (h₀ : Counts n 0 s₀) (hn : n ≤ 127) : Capacity n s₀ where
  decides hist s h t c hc := by
    obtain ⟨s', v, hs', hv, -⟩ := (h.counts h₀ (by omega)).call (by omega) t c hc
    exact ⟨s', v, hs', hv⟩
  fills hist s h hsend := by
    induction h with
    | none => simp [stored, successes]
    | @call hist s s' v t c h hc hs ih =>
      obtain ⟨s₁, w, hs₁, hw, -⟩ := (h.counts h₀ (by omega)).call (by omega) t c hc
      cases hs₁.symm.trans hs
      have hd : c.direction = .send := hsend _ List.mem_cons_self
      have hlen := ih fun e he => hsend e (List.mem_cons_of_mem _ he)
      have hroom : v ≠ 0 ↔ stored hist < n := by
        rw [hw, hd]
        exact Iff.rfl
      rw [stored_cons, hd, if_pos rfl, List.length_cons]
      split
      · next hv =>
        have : ¬stored hist < n := fun hlt => hroom.mpr hlt hv
        omega
      · next hv =>
        have := hroom.mp hv
        omega

/-- **The capacity of a queue is its size** exactly when the size fits the count of `putsem`. -/
theorem capacity_iff [Nonempty T] (queueSize : UInt16) (msgSize : UInt8)
    (hl : s.schedulerLock = unlocked) (hq : queueSize ≠ 0) (hm : msgSize ≠ 0) :
    Capacity queueSize.toNat (s.eosInitMqueue queueSize msgSize) ↔ queueSize.toNat ≤ 127 := by
  have h₀ := counts_init queueSize msgSize hl hq hm
  constructor
  · intro hcap
    by_contra hlarge
    obtain ⟨hlow, hhigh, -⟩ := int8_bounds (n := (queueSize.toNat : Int)) (by omega)
    generalize int8 queueSize.toNat = n at *
    obtain ⟨hist, s', hcalls, hsend, hlen⟩ := exists_sends h₀ ⟨hlow, hhigh⟩ (max n 0).toNat.succ
    have hle := (hcalls.counts h₀ ⟨hlow, hhigh⟩).le
    rw [hcap.fills hist s' hcalls hsend, hlen] at hle
    omega
  · intro hsmall
    rw [int8_eq (by omega) (by omega)] at h₀
    exact capacity_of_counts h₀ hsmall

/-- A queue before its initialisation. -/
def bareQueue : QueueState Unit :=
  ⟨⟨fun _ => 0, 0, unlocked⟩, ⟨0, 0, 0, 0⟩, fun _ => 0, fun _ => [], []⟩

/-- A queue of two messages of four bytes. -/
theorem capacity_two : Capacity 2 (bareQueue.eosInitMqueue 2 4) :=
  (capacity_iff 2 4 rfl (by decide) (by decide)).mpr (by decide)

/-- **A queue of 128 messages** takes none: the count of its `putsem` starts at -128. -/
theorem capacity_lost : ¬Capacity 128 (bareQueue.eosInitMqueue 128 1) := by
  intro hcap
  have h₀ := counts_init (s := bareQueue) 128 1 rfl (by decide) (by decide)
  rw [show int8 (UInt16.toNat 128) = -128 by decide] at h₀
  obtain ⟨hist, s, hcalls, hsend, hlen⟩ := exists_sends h₀ (by decide) 1
  have hle := (hcalls.counts h₀ (by decide)).le
  rw [hcap.fills hist s hcalls hsend, hlen] at hle
  omega

end Eos.Analysis
