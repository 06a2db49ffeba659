import Eos.Analysis.Exclusion
import Eos.Lib.RingBuffer
import Eos.Model.MessageQueue

/-!
# Message queues deliver every message once, complete and in order

`queue_safe` holds in every run of any number of senders and receivers: what receivers
have copied out is a prefix of what senders have copied in, and the messages in between
are intact in the buffer.  Three invariants carry it.

* `ControlOk`: only the current task is between `eos_lock_scheduler` and
  `eos_restore_scheduler`, so the copies follow one another.
* `TokensOk`: the counts of `putsem` and `getsem`, what the calls hold of them, and the
  number of messages in the queue add up to the initial count of `putsem`.
* `DataOk`: the indices, and the slots of the messages in the queue.

The initial count is `queue_size` as an `int8s_t`, which is never more than `queue_size`;
this is all that the buffer needs.
-/

set_option autoImplicit false

namespace Eos.Analysis

open Eos.Lib (Processor Move Reach runList sum_update le_sum slot slot_update slot_eq_map
  mod_ne_of_window succ_mod)
open Eos.Model

/-! ## What a step of a call does -/

section Steps

variable {T : Type} {t : T} {call : Nat} {f : Transfer} {s s' : QueueState T}

/-- The steps of a call. -/
inductive Stepped (t : T) (call : Nat) (f : Transfer) (s : QueueState T) :
    QueueState T → Transfer ⊕ UInt8 → Prop
  | acquiring (g g' : AcquireFrame) (hp : f.point = .acquire g) (hg : g'.sem = g.sem) :
    Stepped t call f s s (.inl { f with point := .acquire g' })
  | refused (g : AcquireFrame) (hp : f.point = .acquire g) : Stepped t call f s s (.inr 0)
  | acquired (g : AcquireFrame) (hp : f.point = .acquire g) (hc : 0 < s.semaphore g.sem) :
    Stepped t call f s (SyncState.setCount s g.sem (s.semaphore g.sem - 1))
      (.inl { f with point := .lockScheduler })
  | locking (hp : f.point = .lockScheduler) :
    Stepped t call f s { s with schedulerLock := locked }
      (.inl { f with point := .setPointers s.schedulerLock })
  | pointing (v : UInt8) (hp : f.point = .setPointers v) :
    Stepped t call f s s (.inl { f with
      point := .advance v (s.mq.msgSize.toNat * (f.direction.index s.mq).toNat) })
  | advancing (v : UInt8) (offset : Nat) (hp : f.point = .advance v offset) :
    Stepped t call f s { s with mq := s.mq.advance f.direction }
      (.inl { f with point := .copy v offset 0 })
  | copying (v : UInt8) (offset : Nat) (i : UInt8) (hp : f.point = .copy v offset i)
      (hi : i < s.mq.msgSize) :
    Stepped t call f s
      { s with memory := (f.direction.copyByte s.memory f.message offset i.toNat).1 }
      (.inl { f with
        message := (f.direction.copyByte s.memory f.message offset i.toNat).2
        point := .copy v offset (i + 1) })
  | copied (v : UInt8) (offset : Nat) (i : UInt8) (hp : f.point = .copy v offset i)
      (hi : ¬i < s.mq.msgSize) :
    Stepped t call f s
      { s with log := Function.update s.log f.direction (s.log f.direction ++
          [⟨t, call, (List.range s.mq.msgSize.toNat).map f.message⟩]) }
      (.inl { f with point := .restoreScheduler v })
  | restoring (v : UInt8) (hp : f.point = .restoreScheduler v) :
    Stepped t call f s { s with schedulerLock := v }
      (.inl { f with point := .release (.entry f.direction.released) })
  | releasing (sem : Nat) (hp : f.point = .release ⟨sem, .increment⟩) :
    Stepped t call f s (SyncState.setCount s sem (s.semaphore sem + 1))
      (.inl { f with point := .release ⟨sem, .wake⟩ })
  | returning (sem : Nat) (hp : f.point = .release ⟨sem, .wake⟩) :
    Stepped t call f s s (.inr s.mq.msgSize)

/-- Every step of a call is one of `Stepped`. -/
theorem step_stepped {r : Transfer ⊕ UInt8} (h : f.step t call s = some (s', r)) :
    Stepped t call f s s' r := by
  unfold Transfer.step at h
  split at h
  case h_1 g hp =>
    obtain ⟨⟨s₁, n⟩, hg, hr⟩ := Option.bind_eq_some_iff.mp h
    rcases AcquireFrame.step_cases hg with
      ⟨rfl, hn⟩ | ⟨g', hg', rfl, hs₁⟩ | ⟨rfl, hpos, s₂, hs₂, rfl⟩
    · rcases hn with rfl | ⟨g', hg', rfl | rfl⟩ <;> cases hr
      · exact .refused g hp
      · exact .acquiring g g' hp hg'
      · exact .acquiring g g' hp hg'
    · cases hs₁
      cases hr
      exact .acquiring g g' hp hg'
    · obtain rfl : s₂ = s := hs₂.elim id fun hs => (Option.some.inj hs).symm
      cases hr
      exact .acquired g hp hpos
  case h_2 hp => cases h; exact .locking hp
  case h_3 v hp => cases h; exact .pointing v hp
  case h_4 v offset hp => cases h; exact .advancing v offset hp
  case h_5 v offset i hp =>
    split at h
    · next hi => cases h; exact .copying v offset i hp hi
    · next hi => cases h; exact .copied v offset i hp hi
  case h_6 v hp => cases h; exact .restoring v hp
  case h_7 g hp =>
    obtain ⟨sem, point⟩ := g
    cases point with
    | increment => cases h; exact .releasing sem hp
    | wake => cases h; exact .returning sem hp

/-- What an operation of a task does: it enters a call, goes on with one, or returns. -/
theorem exec_cases {l l' : Caller} {o : QueueOp} (h : l.exec t s o = some (s', l')) :
    (l.transfer = none ∧ s' = s ∧ ∃ d message timeout,
      l' = { l with transfer := some (.entry d message timeout) }) ∨
    (∃ f f', l.transfer = some f ∧ Stepped t l.calls f s s' (.inl f') ∧
      l' = { l with transfer := some f' }) ∨
    ∃ f v, l.transfer = some f ∧ l' = ⟨l.calls + 1, none⟩ ∧
      ∃ s₁, Stepped t l.calls f s s₁ (.inr v) ∧
        s' = { s₁ with results := s₁.results ++ [(t, l.calls, v)] } := by
  cases o with
  | send message timeout =>
    simp only [Caller.exec, Option.isNone_iff_eq_none, Option.ite_none_right_eq_some,
      Option.some.injEq, Prod.mk.injEq] at h
    obtain ⟨hn, rfl, rfl⟩ := h
    exact .inl ⟨hn, rfl, .send, message, timeout, rfl⟩
  | receive message timeout =>
    simp only [Caller.exec, Option.isNone_iff_eq_none, Option.ite_none_right_eq_some,
      Option.some.injEq, Prod.mk.injEq] at h
    obtain ⟨hn, rfl, rfl⟩ := h
    exact .inl ⟨hn, rfl, .receive, message, timeout, rfl⟩
  | step =>
    obtain ⟨f, hf, h⟩ := Option.bind_eq_some_iff.mp h
    obtain ⟨⟨s₁, r⟩, hs, h⟩ := Option.bind_eq_some_iff.mp h
    cases r with
    | inl f' =>
      cases h
      exact .inr (.inl ⟨f, f', hf, step_stepped hs, rfl⟩)
    | inr v =>
      cases h
      exact .inr (.inr ⟨f, v, hf, rfl, s₁, step_stepped hs, rfl⟩)

end Steps

/-! ## Control: one locked section at a time -/

section Control

/-- The points between `eos_lock_scheduler` and `eos_restore_scheduler`. -/
def inSection : TransferAt → Bool
  | .setPointers _ | .advance _ _ | .copy _ _ _ | .restoreScheduler _ => true
  | _ => false

/-- A task is in its locked section. -/
def locks (l : Caller) : Bool := l.transfer.any fun f => inSection f.point

/-- A call uses the semaphores of its direction, and its lock flag is that of an unlocked
scheduler. -/
def FrameOk (f : Transfer) : Prop :=
  match f.point with
  | .acquire g => g.sem = f.direction.acquired
  | .lockScheduler => True
  | .setPointers v | .advance v _ | .copy v _ _ | .restoreScheduler v => v = unlocked
  | .release g => g.sem = f.direction.released

/-- What the control invariant says of the current task. -/
def CurrentOk {T : Type} (s : QueueState T) (l : Caller) : Prop :=
  (∀ f, l.transfer = some f → FrameOk f) ∧
    s.schedulerLock = if locks l then locked else unlocked

variable {T : Type} {t : T} {s s' : QueueState T} {l l' : Caller} {o : QueueOp}

/-- Entering, going on with and leaving a locked section. -/
theorem exec_currentOk (h : CurrentOk s l) (hexec : l.exec t s o = some (s', l')) :
    CurrentOk s' l' := by
  obtain ⟨hframe, hlock⟩ := h
  rcases exec_cases hexec with ⟨hn, rfl, d, message, timeout, rfl⟩ | ⟨f, f', hf, hstep, rfl⟩ |
      ⟨f, v, hf, rfl, s₁, hstep, rfl⟩
  · refine ⟨fun f hf => ?_, ?_⟩
    · cases hf
      rfl
    · simpa [locks, hn, inSection, Transfer.entry] using hlock
  · have hok := hframe f hf
    simp only [locks, hf, Option.any_some] at hlock
    cases hstep with
    | acquiring g g' hp hg =>
      simp only [FrameOk, hp, inSection] at hok hlock
      exact ⟨fun f' hf' => (by cases hf'; exact hg.trans hok), hlock⟩
    | acquired g hp hc =>
      simp only [FrameOk, hp, inSection] at hok hlock
      exact ⟨fun f' hf' => (by cases hf'; trivial), hlock⟩
    | locking hp =>
      simp only [hp, inSection] at hlock
      exact ⟨fun f' hf' => (by cases hf'; exact hlock), rfl⟩
    | pointing v hp =>
      simp only [FrameOk, hp, inSection] at hok hlock
      exact ⟨fun f' hf' => (by cases hf'; exact hok), hlock⟩
    | advancing v offset hp =>
      simp only [FrameOk, hp, inSection] at hok hlock
      exact ⟨fun f' hf' => (by cases hf'; exact hok), hlock⟩
    | copying v offset i hp hi =>
      simp only [FrameOk, hp, inSection] at hok hlock
      exact ⟨fun f' hf' => (by cases hf'; exact hok), hlock⟩
    | copied v offset i hp hi =>
      simp only [FrameOk, hp, inSection] at hok hlock
      exact ⟨fun f' hf' => (by cases hf'; exact hok), hlock⟩
    | restoring v hp =>
      simp only [FrameOk, hp] at hok
      exact ⟨fun f' hf' => (by cases hf'; rfl), hok⟩
    | releasing sem hp =>
      simp only [FrameOk, hp, inSection] at hok hlock
      exact ⟨fun f' hf' => (by cases hf'; exact hok), hlock⟩
  · simp only [locks, hf, Option.any_some] at hlock
    refine ⟨fun f' hf' => (by cases hf'), ?_⟩
    cases hstep with
    | refused g hp => simpa [hp, inSection, locks] using hlock
    | returning sem hp => simpa [hp, inSection, locks] using hlock

/-- **Only the current task is in its locked section.** -/
structure ControlOk {T : Type} (s : QueueState T) (task : T → Caller) (cur : T) : Prop where
  current : CurrentOk s (task cur)
  frames : ∀ t f, (task t).transfer = some f → FrameOk f
  section_current : ∀ t, locks (task t) = true → t = cur

/-- **The step lemma** for where the calls are. -/
theorem ControlOk.exec [DecidableEq T] {task : T → Caller} (h : ControlOk s task t)
    (hexec : (task t).exec t s o = some (s', l')) :
    ControlOk s' (Function.update task t l') t := by
  have hcur := exec_currentOk h.current hexec
  refine ⟨(Function.update_self t l' task).symm ▸ hcur, fun u f hf => ?_, fun u hu => ?_⟩
  · by_cases hc : u = t
    · subst hc
      rw [Function.update_self] at hf
      exact hcur.1 f hf
    · rw [Function.update_of_ne hc] at hf
      exact h.frames u f hf
  · by_contra hc
    rw [Function.update_of_ne hc] at hu
    exact hc (h.section_current u hu)

end Control

/-! ## Tokens: the counts of the semaphores -/

section Tokens

/-- The points between the success of `eos_acquire_semaphore` and the end of the copy. -/
def beforeCopy : TransferAt → Bool
  | .lockScheduler | .setPointers _ | .advance _ _ | .copy _ _ _ => true
  | _ => false

/-- The points between the end of the copy and the increment of the released semaphore. -/
def afterCopy : TransferAt → Bool
  | .restoreScheduler _ | .release ⟨_, .increment⟩ => true
  | _ => false

/-- What a task holds of the semaphore that calls of direction `d` acquire. -/
def tokens (d : Direction) (l : Caller) : Nat :=
  match l.transfer with
  | none => 0
  | some f =>
    if f.direction = d then (if beforeCopy f.point then 1 else 0)
    else (if afterCopy f.point then 1 else 0)

/-- The number of messages in the queue. -/
def fill {T : Type} (s : QueueState T) : Int :=
  (s.log .send).length - (s.log .receive).length

variable {T : Type} {t : T} {s s' : QueueState T} {l l' : Caller} {o : QueueOp}

/-- **One operation keeps the balance** of both semaphores, and makes no count negative. -/
theorem exec_tokens (hok : CurrentOk s l) (hexec : l.exec t s o = some (s', l'))
    (hmax : ∀ d : Direction, s.semaphore d.acquired + tokens d l ≤ 127)
    (hmin : ∀ d : Direction, -128 ≤ s.semaphore d.acquired) :
    s'.semaphore putsem + tokens .send l' + fill s' =
        s.semaphore putsem + tokens .send l + fill s ∧
      s'.semaphore getsem + tokens .receive l' - fill s' =
        s.semaphore getsem + tokens .receive l - fill s ∧
      ∀ d : Direction, s.semaphore d.acquired ≤ s'.semaphore d.acquired ∨
        0 ≤ s'.semaphore d.acquired := by
  have hsame : ∀ d : Direction, s.semaphore d.acquired ≤ s.semaphore d.acquired ∨
      0 ≤ s.semaphore d.acquired := fun _ => .inl le_rfl
  have hput := hmax .send
  have hget := hmax .receive
  have hput' := hmin .send
  have hget' := hmin .receive
  simp only [Direction.acquired] at hput hget hput' hget'
  have hpg : getsem ≠ putsem := by decide
  rcases exec_cases hexec with ⟨hn, rfl, d, message, timeout, rfl⟩ | ⟨f, f', hf, hstep, rfl⟩ |
      ⟨f, v, hf, rfl, s₁, hstep, rfl⟩
  · refine ⟨?_, ?_, hsame⟩ <;> simp [tokens, hn, Transfer.entry, beforeCopy, afterCopy]
  · have hframe := hok.1 f hf
    cases hstep with
    | acquiring g g' hp hg =>
      refine ⟨?_, ?_, hsame⟩ <;> simp [tokens, hf, hp, beforeCopy, afterCopy]
    | locking hp =>
      refine ⟨?_, ?_, hsame⟩ <;> simp [tokens, hf, hp, beforeCopy, afterCopy, fill]
    | pointing v hp =>
      refine ⟨?_, ?_, hsame⟩ <;> simp [tokens, hf, hp, beforeCopy, afterCopy]
    | advancing v offset hp =>
      refine ⟨?_, ?_, hsame⟩ <;> simp [tokens, hf, hp, beforeCopy, afterCopy, fill]
    | copying v offset i hp hi =>
      refine ⟨?_, ?_, hsame⟩ <;> simp [tokens, hf, hp, beforeCopy, afterCopy, fill]
    | restoring v hp =>
      refine ⟨?_, ?_, hsame⟩ <;>
        simp [tokens, hf, hp, beforeCopy, afterCopy, fill, ReleaseFrame.entry]
    | acquired g hp hc =>
      simp only [FrameOk, hp] at hframe
      rw [hframe] at hc ⊢
      cases hd : f.direction with
      | send =>
        simp only [hd, Direction.acquired] at hc ⊢
        have h8 := int8_eq (n := s.semaphore putsem - 1) (by omega) (by omega)
        refine ⟨?_, ?_, ?_⟩
        · simp [tokens, hf, hp, hd, beforeCopy, h8, fill, SyncState.setCount]
        · simp [tokens, hf, hp, hd, afterCopy, hpg, fill, SyncState.setCount]
        · rintro (_ | _)
          · refine .inr ?_
            simp [SyncState.setCount, h8]
            omega
          · simp [SyncState.setCount, hpg]
      | receive =>
        simp only [hd, Direction.acquired] at hc ⊢
        have h8 := int8_eq (n := s.semaphore getsem - 1) (by omega) (by omega)
        refine ⟨?_, ?_, ?_⟩
        · simp [tokens, hf, hp, hd, afterCopy, hpg.symm, fill, SyncState.setCount]
        · simp [tokens, hf, hp, hd, beforeCopy, h8, fill, SyncState.setCount]
        · rintro (_ | _)
          · simp [SyncState.setCount, hpg.symm]
          · refine .inr ?_
            simp [SyncState.setCount, h8]
            omega
    | copied v offset i hp hi =>
      refine ⟨?_, ?_, hsame⟩ <;> cases hd : f.direction <;>
        simp [tokens, hf, hp, hd, beforeCopy, afterCopy, fill] <;> omega
    | releasing sem hp =>
      simp only [FrameOk, hp] at hframe
      subst hframe
      cases hd : f.direction with
      | send =>
        have htok : tokens .receive l = 1 := by simp [tokens, hf, hp, hd, afterCopy]
        rw [htok] at hget
        simp only [Direction.released]
        have h8 := int8_eq (n := s.semaphore getsem + 1) (by omega) (by omega)
        refine ⟨?_, ?_, ?_⟩
        · simp [tokens, hf, hp, hd, beforeCopy, hpg.symm, fill, SyncState.setCount]
        · simp [tokens, hf, hp, hd, afterCopy, h8, fill, SyncState.setCount]
        · rintro (_ | _)
          · simp [SyncState.setCount, Direction.acquired, hpg.symm]
          · exact .inl (by simp [SyncState.setCount, Direction.acquired, h8])
      | receive =>
        have htok : tokens .send l = 1 := by simp [tokens, hf, hp, hd, afterCopy]
        rw [htok] at hput
        simp only [Direction.released]
        have h8 := int8_eq (n := s.semaphore putsem + 1) (by omega) (by omega)
        refine ⟨?_, ?_, ?_⟩
        · simp [tokens, hf, hp, hd, afterCopy, h8, fill, SyncState.setCount]
        · simp [tokens, hf, hp, hd, beforeCopy, hpg, fill, SyncState.setCount]
        · rintro (_ | _)
          · exact .inl (by simp [SyncState.setCount, Direction.acquired, h8])
          · simp [SyncState.setCount, Direction.acquired, hpg]
  · cases hstep with
    | refused g hp =>
      refine ⟨?_, ?_, hsame⟩ <;> simp [tokens, hf, hp, beforeCopy, afterCopy, fill]
    | returning sem hp =>
      refine ⟨?_, ?_, hsame⟩ <;> simp [tokens, hf, hp, beforeCopy, afterCopy, fill]

end Tokens

/-! ## Data: the indices and the buffer -/

section Data

/-- A task has advanced the index of direction `d` and not ended its copy. -/
def copies (d : Direction) (l : Caller) : Nat :=
  match l.transfer with
  | some ⟨d', _, .copy _ _ _⟩ => if d' = d then 1 else 0
  | _ => 0

variable {T : Type}

/-- The indices, the slots of the messages in the queue and the copy in progress, with slots of
`m` bytes in a queue of size `q`. -/
structure DataOk (q m : Nat) (s : QueueState T) (l : Caller) : Prop where
  queueSize : s.mq.queueSize.toNat = q
  msgSize : s.mq.msgSize.toNat = m
  index : ∀ d : Direction, (d.index s.mq).toNat = ((s.log d).length + copies d l) % q
  pointers : ∀ f v offset, l.transfer = some f → f.point = .advance v offset →
    offset = m * (f.direction.index s.mq).toNat
  copied : ∀ f v offset i, l.transfer = some f → f.point = .copy v offset i →
    offset = m * ((s.log f.direction).length % q) ∧ i.toNat ≤ m ∧
      ∀ j < i.toNat, s.memory (offset + j) = f.message j
  kept : ∀ n, ∀ h : n < (s.log .send).length, (s.log .receive).length ≤ n →
    slot s.memory q m n = ((s.log .send)[n]).bytes
  received : (s.log .receive).map Entry.bytes =
    ((s.log .send).map Entry.bytes).take (s.log .receive).length

variable {t : T} {s s' : QueueState T} {l l' : Caller} {o : QueueOp} {q m : Nat}

/-- Steps outside the copy. -/
theorem DataOk.congr (h : DataOk q m s l) (hmq : s'.mq = s.mq) (hmem : s'.memory = s.memory)
    (hlog : s'.log = s.log) (hl : ∀ d, copies d l = 0)
    (hf : ∀ f, l'.transfer = some f → (∀ v offset, f.point ≠ .advance v offset) ∧
      ∀ v offset i, f.point ≠ .copy v offset i) : DataOk q m s' l' := by
  have hl' : ∀ d, copies d l' = 0 := by
    intro d
    unfold copies
    split
    · next d' message v offset i hf' => exact absurd rfl ((hf _ hf').2 v offset i)
    · rfl
  refine ⟨hmq ▸ h.queueSize, hmq ▸ h.msgSize, fun d => ?_,
    fun f v offset hf' hp => absurd hp ((hf f hf').1 v offset),
    fun f v offset i hf' hp => absurd hp ((hf f hf').2 v offset i), ?_, ?_⟩
  · rw [hmq, hlog, hl', ← hl d]
    exact h.index d
  · rw [hmem, hlog]
    exact h.kept
  · rw [hlog]
    exact h.received

/-- Advancing an index by one slot. -/
theorem advance_index {mq : MessageQueue} {d : Direction} {n : Nat} (hq : 0 < q)
    (hs : mq.queueSize.toNat = q) (hi : (d.index mq).toNat = n % q) :
    (d.index (mq.advance d)).toNat = (n + 1) % q := by
  have hself : ∀ v, d.index (d.setIndex mq v) = v := by cases d <;> exact fun _ => rfl
  have hlt := Nat.mod_lt n hq
  have hle : q < 65536 := hs ▸ mq.queueSize.toNat_lt
  have hadd : (d.index mq + 1).toNat = n % q + 1 := by
    rw [UInt16.toNat_add, hi, UInt16.toNat_one]
    exact Nat.mod_eq_of_lt (by omega)
  simp only [MessageQueue.advance, hself]
  rw [succ_mod hq]
  by_cases he : d.index mq + 1 = mq.queueSize
  · rw [if_pos he, if_pos (by rw [← hadd, he, hs])]
    rfl
  · rw [if_neg he, if_neg fun hc => he (UInt16.toNat_inj.mp (by rw [hadd, hs, hc])), hadd]

/-- A task that copies in one direction counts in this direction only. -/
theorem copies_of_copy {f : Transfer} {v : UInt8} {offset : Nat} {i : UInt8}
    (hf : l.transfer = some f) (hp : f.point = .copy v offset i) (d : Direction) :
    copies d l = if f.direction = d then 1 else 0 := by
  obtain ⟨fd, message, point⟩ := f
  simp only at hp
  subst hp
  simp only [copies, hf]

/-- A task that does not copy counts in neither direction. -/
theorem copies_eq_zero {f : Transfer} (hf : l.transfer = some f)
    (hp : ∀ v offset i, f.point ≠ .copy v offset i) (d : Direction) : copies d l = 0 := by
  unfold copies
  split
  · next d' message v offset i hf' =>
    exact absurd rfl ((Option.some.inj (hf.symm.trans hf')) ▸ hp v offset i)
  · rfl

/-- A message is complete when the copy loop ends; the slot of a sent message then holds it. -/
theorem DataOk.complete (h : DataOk q m s l) {f : Transfer} {v : UInt8} {offset : Nat} {i : UInt8}
    (hf : l.transfer = some f) (hp : f.point = .copy v offset i) (hi : ¬i < s.mq.msgSize) :
    slot s.memory q m (s.log f.direction).length =
      (List.range s.mq.msgSize.toNat).map f.message := by
  obtain ⟨rfl, hle, hcopy⟩ := h.copied f v offset i hf hp
  have hi' : i.toNat = m := by
    have := UInt8.lt_iff_toNat_lt.not.mp hi
    have := h.msgSize
    omega
  rw [h.msgSize]
  exact slot_eq_map fun j hj => hcopy j (by omega)

/-- The step that sets the pointers. -/
theorem DataOk.pointing (h : DataOk q m s l) {f : Transfer} {v : UInt8} (hf : l.transfer = some f)
    (hp : f.point = .setPointers v) :
    DataOk q m s { l with transfer := some { f with
      point := .advance v (s.mq.msgSize.toNat * (f.direction.index s.mq).toNat) } } := by
  have hl := copies_eq_zero hf (by simp [hp])
  refine ⟨h.queueSize, h.msgSize, fun d => ?_, fun f' v' offset' hf' hp' => ?_,
    fun f' v' offset' i' hf' hp' => ?_, h.kept, h.received⟩
  · rw [copies_eq_zero rfl (by simp), ← hl d]
    exact h.index d
  · cases hf'
    cases hp'
    rw [h.msgSize]
  · cases hf'
    cases hp'

/-- The step that advances the index. -/
theorem DataOk.advancing (h : DataOk q m s l) (hq : 0 < q) {f : Transfer} {v : UInt8}
    {offset : Nat} (hf : l.transfer = some f) (hp : f.point = .advance v offset) :
    DataOk q m { s with mq := s.mq.advance f.direction }
      { l with transfer := some { f with point := .copy v offset 0 } } := by
  have hl := copies_eq_zero hf (by simp [hp])
  have hsize : (s.mq.advance f.direction).queueSize = s.mq.queueSize ∧
      (s.mq.advance f.direction).msgSize = s.mq.msgSize := by
    cases f.direction <;> exact ⟨rfl, rfl⟩
  refine ⟨hsize.1 ▸ h.queueSize, hsize.2 ▸ h.msgSize, fun d => ?_, fun f' v' offset' hf' hp' => ?_,
    fun f' v' offset' i' hf' hp' => ?_, h.kept, h.received⟩
  · have hidx := h.index d
    rw [hl, Nat.add_zero] at hidx
    rw [copies_of_copy rfl rfl]
    by_cases hd : f.direction = d
    · subst hd
      simpa using advance_index hq h.queueSize hidx
    · have hother : d.index (s.mq.advance f.direction) = d.index s.mq := by
        cases hfd : f.direction <;> cases d <;> first | rfl | exact absurd hfd hd
      simpa [hd, hother] using hidx
  · cases hf'
    cases hp'
  · cases hf'
    cases hp'
    refine ⟨?_, Nat.zero_le _, fun j hj => absurd hj (Nat.not_lt_zero j)⟩
    rw [h.pointers f v offset hf hp, h.index, hl, Nat.add_zero]

/-- One turn of the copy loop.  A sender writes to the slot behind the window. -/
theorem DataOk.copying (h : DataOk q m s l) {f : Transfer} {v : UInt8} {offset : Nat} {i : UInt8}
    (hf : l.transfer = some f) (hp : f.point = .copy v offset i) (hi : i < s.mq.msgSize)
    (hroom : f.direction = .send → (s.log .send).length < (s.log .receive).length + q) :
    DataOk q m { s with memory := (f.direction.copyByte s.memory f.message offset i.toNat).1 }
      { l with transfer := some { f with
        message := (f.direction.copyByte s.memory f.message offset i.toNat).2
        point := .copy v offset (i + 1) } } := by
  obtain ⟨rfl, hle, hcopy⟩ := h.copied f v offset i hf hp
  have him : i.toNat < m := by
    have := UInt8.lt_iff_toNat_lt.mp hi
    have := h.msgSize
    omega
  have hsucc : (i + 1).toNat = i.toNat + 1 := by
    have := s.mq.msgSize.toNat_lt
    have := h.msgSize
    rw [UInt8.toNat_add, UInt8.toNat_one]
    omega
  refine ⟨h.queueSize, h.msgSize, fun d => ?_, fun f' v' offset' hf' hp' => ?_,
    fun f' v' offset' i' hf' hp' => ?_, fun n hn hr => ?_, h.received⟩
  · rw [copies_of_copy rfl rfl, ← copies_of_copy hf hp]
    exact h.index d
  · cases hf'
    cases hp'
  · cases hf'
    cases hp'
    refine ⟨rfl, by omega, fun j hj => ?_⟩
    -- the byte of this turn, or one of those before
    rcases Nat.lt_succ_iff_lt_or_eq.mp (hsucc ▸ hj) with hj | rfl
    · have hold := hcopy j hj
      cases hd : f.direction with
      | send =>
        rw [hd] at hold
        exact (Function.update_of_ne (by omega) _ _).trans hold
      | receive =>
        rw [hd] at hold
        exact hold.trans (Function.update_of_ne (Nat.ne_of_lt hj) _ f.message).symm
    · cases hd : f.direction with
      | send => exact Function.update_self _ _ _
      | receive => exact (Function.update_self i.toNat _ f.message).symm
  · change (s.log .receive).length ≤ n at hr
    have hold := h.kept n hn hr
    cases hd : f.direction with
    | send =>
      have hlt : (s.log .send).length < n + q := by
        have := hroom hd
        omega
      exact (slot_update (mod_ne_of_window hn hlt) him _).trans hold
    | receive => exact hold

/-- The end of a copy, with the message in the log of its direction. -/
theorem DataOk.logged (h : DataOk q m s l) {f : Transfer} {v : UInt8} {offset : Nat} {i : UInt8}
    (hf : l.transfer = some f) (hp : f.point = .copy v offset i) {d : Direction}
    (hd : f.direction = d) {log : Direction → List (Entry T)} {e : Entry T}
    (hlog : log = Function.update s.log d (s.log d ++ [e]))
    (hkept : ∀ n, ∀ hn : n < (log .send).length, (log .receive).length ≤ n →
      slot s.memory q m n = ((log .send)[n]).bytes)
    (hreceived : (log .receive).map Entry.bytes =
      ((log .send).map Entry.bytes).take (log .receive).length) :
    DataOk q m { s with log := log }
      { l with transfer := some { f with point := .restoreScheduler v } } := by
  refine ⟨h.queueSize, h.msgSize, fun d' => ?_, fun f' v' offset' hf' hp' => ?_,
    fun f' v' offset' i' hf' hp' => ?_, hkept, hreceived⟩
  · have hidx := h.index d'
    rw [copies_of_copy hf hp, hd] at hidx
    rw [copies_eq_zero rfl (by simp), hlog]
    cases d <;> cases d' <;> simpa using hidx
  · cases hf'
    cases hp'
  · cases hf'
    cases hp'

/-- The end of the copy of a message to the buffer. -/
theorem DataOk.sent (h : DataOk q m s l) {f : Transfer} {v : UInt8} {offset : Nat} {i : UInt8}
    (hf : l.transfer = some f) (hp : f.point = .copy v offset i) (hi : ¬i < s.mq.msgSize)
    (hd : f.direction = .send) (hle : (s.log .receive).length ≤ (s.log .send).length)
    (t : T) (call : Nat) :
    DataOk q m { s with log := Function.update s.log .send (s.log .send ++
        [⟨t, call, (List.range s.mq.msgSize.toNat).map f.message⟩]) }
      { l with transfer := some { f with point := .restoreScheduler v } } := by
  have hslot := h.complete hf hp hi
  rw [hd] at hslot
  refine h.logged hf hp hd rfl (fun n hn hr => ?_) ?_
  · simp only [Function.update_self, List.length_append, List.length_singleton] at hn
    simp only [ne_eq, reduceCtorEq, not_false_eq_true, Function.update_of_ne] at hr
    simp only [Function.update_self]
    rcases Nat.lt_succ_iff_lt_or_eq.mp hn with hn | rfl
    · rw [List.getElem_append_left hn]
      exact h.kept n hn hr
    · rw [List.getElem_append_right le_rfl]
      simpa using hslot
  · simp only [ne_eq, reduceCtorEq, not_false_eq_true, Function.update_of_ne, Function.update_self,
      List.map_append]
    rw [List.take_append_of_le_length (by simpa using hle)]
    exact h.received

/-- The end of the copy of a message from the buffer. -/
theorem DataOk.taken (h : DataOk q m s l) {f : Transfer} {v : UInt8} {offset : Nat} {i : UInt8}
    (hf : l.transfer = some f) (hp : f.point = .copy v offset i) (hi : ¬i < s.mq.msgSize)
    (hd : f.direction = .receive) (hlt : (s.log .receive).length < (s.log .send).length)
    (t : T) (call : Nat) :
    DataOk q m { s with log := Function.update s.log .receive (s.log .receive ++
        [⟨t, call, (List.range s.mq.msgSize.toNat).map f.message⟩]) }
      { l with transfer := some { f with point := .restoreScheduler v } } := by
  have hslot := h.complete hf hp hi
  rw [hd, h.kept _ hlt le_rfl] at hslot
  refine h.logged hf hp hd rfl (fun n hn hr => ?_) ?_
  · simp only [ne_eq, reduceCtorEq, not_false_eq_true, Function.update_of_ne] at hn
    simp only [Function.update_self, List.length_append, List.length_singleton] at hr
    exact h.kept n hn (by omega)
  · simp only [ne_eq, reduceCtorEq, not_false_eq_true, Function.update_of_ne, Function.update_self,
      List.map_append, List.length_append, List.length_singleton, List.map_cons, List.map_nil]
    rw [h.received, ← hslot, ← List.map_take, ← List.map_take, ← List.take_append_getElem hlt,
      List.map_append, List.map_singleton]

/-- **The data invariant** is kept if there is room for what is sent and something for what is
received. -/
theorem exec_dataOk (h : DataOk q m s l) (hq : 0 < q) (hexec : l.exec t s o = some (s', l'))
    (hfill : 0 ≤ fill s) (hroom : tokens .send l = 1 → fill s + 1 ≤ q)
    (hsome : tokens .receive l = 1 → 1 ≤ fill s) : DataOk q m s' l' := by
  unfold fill at hfill hroom hsome
  rcases exec_cases hexec with ⟨hn, rfl, d, message, timeout, rfl⟩ | ⟨f, f', hf, hstep, rfl⟩ |
      ⟨f, v, hf, rfl, s₁, hstep, rfl⟩
  · exact h.congr rfl rfl rfl (fun d => by simp [copies, hn]) (by simp [Transfer.entry])
  · cases hstep with
    | acquiring g g' hp hg | acquired g hp hc | locking hp | releasing sem hp | restoring v hp =>
      exact h.congr rfl rfl rfl (copies_eq_zero hf (by simp [hp])) (by simp)
    | pointing v hp => exact h.pointing hf hp
    | advancing v offset hp => exact h.advancing hq hf hp
    | copying v offset i hp hi =>
      refine h.copying hf hp hi fun hd => ?_
      have := hroom (by simp [tokens, hf, hp, hd, beforeCopy])
      omega
    | copied v offset i hp hi =>
      obtain ⟨d, message, point⟩ := f
      simp only at hp
      cases d with
      | send => exact h.sent hf hp hi rfl (by omega) t l.calls
      | receive =>
        have := hsome (by simp [tokens, hf, hp, beforeCopy])
        exact h.taken hf hp hi rfl (by omega) t l.calls
  · cases hstep with
    | refused g hp | returning sem hp =>
      exact h.congr rfl rfl rfl (copies_eq_zero hf (by simp [hp])) (by simp)

end Data

/-! ## Contributions: what a call leaves in the histories -/

section Contributions

variable {T : Type} [DecidableEq T]

/-- The points behind the copy. -/
def isDone : TransferAt → Bool
  | .restoreScheduler _ | .release _ => true
  | _ => false

/-- How many messages the call in progress has copied. -/
def done (l : Caller) : Nat := if l.transfer.any fun f => isDone f.point then 1 else 0

/-- How many messages call number `n` of task `t` has copied. -/
def contributions (s : QueueState T) (t : T) (n : Nat) : Nat :=
  (s.log .send ++ s.log .receive).countP fun e => decide (e.task = t ∧ e.call = n)

/-- One more entry of the log counts for its own call. -/
theorem contributions_append (s : QueueState T) (d : Direction) (e : Entry T) (t : T) (n : Nat) :
    contributions { s with log := Function.update s.log d (s.log d ++ [e]) } t n =
      contributions s t n + if e.task = t ∧ e.call = n then 1 else 0 := by
  unfold contributions
  cases d <;> simp [List.countP_append, List.countP_cons] <;> omega

variable {t : T} {s s' : QueueState T} {l l' : Caller} {o : QueueOp}

/-- **A call copies one message**, unless it returns 0. -/
theorem exec_contributions (hm : s.mq.msgSize ≠ 0) (hexec : l.exec t s o = some (s', l')) :
    (l'.calls = l.calls ∧ s'.results = s.results ∧
      (∀ t' n, ¬(t = t' ∧ l.calls = n) → contributions s' t' n = contributions s t' n) ∧
      contributions s' t l.calls + done l = contributions s t l.calls + done l') ∨
    (∃ v, l' = ⟨l.calls + 1, none⟩ ∧ s'.results = s.results ++ [(t, l.calls, v)] ∧
      s'.log = s.log ∧ done l = if v = 0 then 0 else 1) := by
  have hkeep : ∀ {s₁ : QueueState T} {l₁ : Caller}, s₁.log = s.log → s₁.results = s.results →
      l₁.calls = l.calls → done l₁ = done l →
      (l₁.calls = l.calls ∧ s₁.results = s.results ∧
        (∀ t' n, ¬(t = t' ∧ l.calls = n) → contributions s₁ t' n = contributions s t' n) ∧
        contributions s₁ t l.calls + done l = contributions s t l.calls + done l₁) := by
    intro s₁ l₁ hlog hres hcalls hdone
    refine ⟨hcalls, hres, fun t' n _ => ?_, ?_⟩ <;> simp only [contributions, hlog, hdone]
  rcases exec_cases hexec with ⟨hn, rfl, d, message, timeout, rfl⟩ | ⟨f, f', hf, hstep, rfl⟩ |
      ⟨f, v, hf, rfl, s₁, hstep, rfl⟩
  · exact .inl (hkeep rfl rfl rfl (by simp [done, hn, Transfer.entry, isDone]))
  · refine .inl ?_
    cases hstep with
    | acquiring g g' hp hg | acquired g hp hc | locking hp | releasing sem hp | restoring v hp
    | pointing v hp | advancing v offset hp | copying v offset i hp hi =>
      exact hkeep rfl rfl rfl (by simp [done, hf, hp, isDone])
    | copied v offset i hp hi =>
      have happend := contributions_append s f.direction
        ⟨t, l.calls, (List.range s.mq.msgSize.toNat).map f.message⟩
      refine ⟨rfl, rfl, fun t' n hne => ?_, ?_⟩
      · rw [happend, if_neg hne, Nat.add_zero]
      · rw [happend]
        simp [done, hf, hp, isDone]
  · cases hstep with
    | refused g hp => exact .inr ⟨0, rfl, rfl, rfl, by simp [done, hf, hp, isDone]⟩
    | returning sem hp =>
      exact .inr ⟨_, rfl, rfl, rfl, by simp [done, hf, hp, isDone, hm]⟩

/-- What every call has copied: one message if it has returned its size, none if it has
returned 0 or not begun. -/
structure CallsOk (s : QueueState T) (task : T → Caller) : Prop where
  returned : ∀ t n v, (t, n, v) ∈ s.results → n < (task t).calls ∧
    contributions s t n = if v = 0 then 0 else 1
  current : ∀ t, contributions s t (task t).calls = done (task t)
  later : ∀ t n, (task t).calls < n → contributions s t n = 0

/-- **The step lemma** for what the calls have contributed. -/
theorem CallsOk.exec {task : T → Caller} (h : CallsOk s task) (hm : s.mq.msgSize ≠ 0)
    (hexec : (task t).exec t s o = some (s', l')) :
    CallsOk s' (Function.update task t l') := by
  rcases exec_contributions hm hexec with ⟨hcalls, hres, hother, hown⟩ | ⟨v, rfl, hres, hlog, hdone⟩
  · have htask : ∀ u, (Function.update task t l' u).calls = (task u).calls := by
      intro u
      by_cases hu : u = t
      · subst hu
        rw [Function.update_self, hcalls]
      · rw [Function.update_of_ne hu]
    refine ⟨fun u n v hr => ?_, fun u => ?_, fun u n hn => ?_⟩
    · rw [hres] at hr
      obtain ⟨hlt, hc⟩ := h.returned u n v hr
      rw [htask]
      exact ⟨hlt, (hother u n (by rintro ⟨rfl, rfl⟩; omega)).trans hc⟩
    · rw [htask]
      by_cases hu : u = t
      · subst hu
        have hcur := h.current u
        rw [Function.update_self]
        omega
      · rw [Function.update_of_ne hu, hother u _ fun hc => hu hc.1.symm]
        exact h.current u
    · rw [htask] at hn
      exact (hother u n (by rintro ⟨rfl, rfl⟩; omega)).trans (h.later u n hn)
  · have hcon : ∀ u n, contributions s' u n = contributions s u n := fun u n => by
      simp only [contributions, hlog]
    refine ⟨fun u n w hr => ?_, fun u => ?_, fun u n hn => ?_⟩
    · rw [hres] at hr
      rw [hcon]
      rcases List.mem_append.mp hr with hr | hr
      · obtain ⟨hlt, hc⟩ := h.returned u n w hr
        refine ⟨?_, hc⟩
        by_cases hu : u = t
        · subst hu
          rw [Function.update_self]
          exact Nat.lt_succ_of_lt hlt
        · rwa [Function.update_of_ne hu]
      · simp only [List.mem_singleton, Prod.mk.injEq] at hr
        obtain ⟨rfl, rfl, rfl⟩ := hr
        rw [Function.update_self]
        exact ⟨Nat.lt_succ_self _, (h.current u).trans hdone⟩
    · rw [hcon]
      by_cases hu : u = t
      · subst hu
        rw [Function.update_self]
        exact h.later u _ (Nat.lt_succ_self _)
      · rw [Function.update_of_ne hu]
        exact h.current u
    · rw [hcon]
      by_cases hu : u = t
      · subst hu
        rw [Function.update_self] at hn
        exact h.later u n (Nat.lt_of_succ_lt hn)
      · rw [Function.update_of_ne hu] at hn
        exact h.later u n hn

end Contributions

/-! ## Runs -/

section Runs

variable {T : Type} [DecidableEq T] [Fintype T]

/-- **The invariant of a message queue** with slots of `m` bytes in a queue of size `q`, whose
`putsem` starts at `c`. -/
structure QueueOk (c : Int) (q m : Nat) (p : Processor (QueueState T) Caller T) : Prop where
  control : ControlOk p.shared p.task p.current
  putBalance : p.shared.semaphore putsem + ∑ t, tokens .send (p.task t) + fill p.shared = c
  getBalance : p.shared.semaphore getsem + ∑ t, tokens .receive (p.task t) = fill p.shared
  putMin : min 0 c ≤ p.shared.semaphore putsem
  getMin : 0 ≤ p.shared.semaphore getsem
  data : DataOk q m p.shared (p.task p.current)
  calls : CallsOk p.shared p.task

variable {c : Int} {q m : Nat} {p : Processor (QueueState T) Caller T}

/-- The number of messages in the queue. -/
theorem QueueOk.fill_bounds (h : QueueOk c q m p) (hcq : c ≤ q) :
    0 ≤ fill p.shared ∧ fill p.shared ≤ q := by
  obtain ⟨-, hput, hget, hputMin, hgetMin, -, -⟩ := h
  have hsum : ∀ d, 0 ≤ ((∑ t, tokens d (p.task t) : ℕ) : ℤ) := fun d => Int.natCast_nonneg _
  have hsend := hsum .send
  have hrecv := hsum .receive
  omega

/-- One operation keeps the invariant. -/
theorem QueueOk.exec (h : QueueOk c q m p) (hq : 0 < q) (hm : 0 < m) (hcq : c ≤ q)
    (hc : -128 ≤ c ∧ c ≤ 127) {o : QueueOp} {s : QueueState T} {l : Caller}
    (hexec : (p.task p.current).exec p.current p.shared o = some (s, l)) :
    QueueOk c q m ⟨s, Function.update p.task p.current l, p.current⟩ := by
  have hfill := h.fill_bounds hcq
  have hput := h.putBalance
  have hget := h.getBalance
  have hputMin := h.putMin
  have hgetMin := h.getMin
  have hle : ∀ d, tokens d (p.task p.current) ≤ ∑ t, tokens d (p.task t) :=
    fun d => le_sum p.task (tokens d) p.current
  have hupd : ∀ d, ∑ t, tokens d (Function.update p.task p.current l t) +
      tokens d (p.task p.current) = ∑ t, tokens d (p.task t) + tokens d l :=
    fun d => sum_update p.task p.current l (tokens d)
  have hles := hle .send
  have hler := hle .receive
  have hupds := hupd .send
  have hupdr := hupd .receive
  obtain ⟨hput', hget', hmin'⟩ := exec_tokens h.control.current hexec
    (fun d => by cases d <;> simp only [Direction.acquired] <;> omega)
    (fun d => by cases d <;> simp only [Direction.acquired] <;> omega)
  have hminSend := hmin' .send
  have hminReceive := hmin' .receive
  simp only [Direction.acquired] at hminSend hminReceive
  have hsize : p.shared.mq.msgSize ≠ 0 := fun h0 => by
    have := h.data.msgSize
    rw [h0, UInt8.toNat_zero] at this
    omega
  refine ⟨h.control.exec hexec, ?_, ?_, ?_, ?_, ?_, h.calls.exec hsize hexec⟩
  · show s.semaphore putsem + ((∑ t, tokens .send (Function.update p.task p.current l t) : ℕ) : ℤ) +
      fill s = c
    omega
  · show s.semaphore getsem +
      ((∑ t, tokens .receive (Function.update p.task p.current l t) : ℕ) : ℤ) = fill s
    omega
  · show min 0 c ≤ s.semaphore putsem
    omega
  · show 0 ≤ s.semaphore getsem
    omega
  · show DataOk q m s (Function.update p.task p.current l p.current)
    rw [Function.update_self]
    exact exec_dataOk h.data hq hexec hfill.1 (fun _ => by omega) (fun _ => by omega)

/-- A switch, which only happens outside the locked sections. -/
theorem QueueOk.switch (h : QueueOk c q m p) (hlock : p.shared.schedulerLock ≠ locked) (t : T) :
    QueueOk c q m { p with current := t } := by
  have hcur : locks (p.task p.current) = false :=
    Bool.eq_false_iff.mpr fun hc => hlock (by rw [h.control.current.2, hc]; rfl)
  have hnone : ∀ u, locks (p.task u) = false := fun u =>
    Bool.eq_false_iff.mpr fun hu => by
      have := h.control.section_current u hu
      rw [this, hcur] at hu
      exact Bool.noConfusion hu
  have hpoint : ∀ u f, (p.task u).transfer = some f → inSection f.point = false := fun u f hf => by
    have := hnone u
    rwa [locks, hf] at this
  refine ⟨⟨⟨h.control.frames t, ?_⟩, h.control.frames, fun u hu => ?_⟩, h.putBalance,
    h.getBalance, h.putMin, h.getMin, ?_, ⟨h.calls.returned, h.calls.current, h.calls.later⟩⟩
  · rw [hnone t, h.control.current.2, hcur]
  · rw [hnone u] at hu
    exact Bool.noConfusion hu
  · refine h.data.congr rfl rfl rfl (fun d => ?_) fun f hf => ?_
    · cases hf : (p.task p.current).transfer with
      | none => simp [copies, hf]
      | some f =>
        refine copies_eq_zero hf (fun v offset i hp => ?_) d
        have := hpoint _ f hf
        rw [hp] at this
        exact Bool.noConfusion this
    · have := hpoint t f hf
      refine ⟨fun v offset hp => ?_, fun v offset i hp => ?_⟩ <;> rw [hp] at this <;>
        exact Bool.noConfusion this

/-- **The run lemma.** -/
theorem runs_queueOk (hq : 0 < q) (hm : 0 < m) (hcq : c ≤ q) (hc : -128 ≤ c ∧ c ≤ 127)
    {p p' : Processor (QueueState T) Caller T} (hp : QueueOk c q m p)
    (h : (queueTasks T).Runs p p') : QueueOk c q m p' := by
  refine h.invariant (fun p o s l hp hexec => hp.exec hq hm hcq hc hexec)
    (fun p t hp ht => hp.switch (of_decide_eq_true ht) t) (fun p hp => ?_) hp
  obtain ⟨⟨hcur, hframes, hsection⟩, hput, hget, hputMin, hgetMin, hdata, hcalls⟩ := hp
  exact ⟨⟨hcur, hframes, hsection⟩, hput, hget, hputMin, hgetMin,
    ⟨hdata.queueSize, hdata.msgSize, hdata.index, hdata.pointers, hdata.copied, hdata.kept,
      hdata.received⟩, ⟨hcalls.returned, hcalls.current, hcalls.later⟩⟩

/-- `eos_init_mqueue` has returned and no task has called anything yet. -/
def FreshQueue (queueSize : UInt16) (msgSize : UInt8) (p : Processor (QueueState T) Caller T) :
    Prop :=
  (∃ s : QueueState T, p.shared = s.eosInitMqueue queueSize msgSize ∧
    s.schedulerLock = unlocked ∧ (∀ d, s.log d = []) ∧ s.results = []) ∧
  ∀ t, p.task t = ⟨0, none⟩

/-- What `eos_init_mqueue` establishes.  A `queue_size` that is not an `int8s_t` gives `putsem` a
smaller count, or a negative one. -/
theorem FreshQueue.queueOk {queueSize : UInt16} {msgSize : UInt8} (hq : queueSize ≠ 0)
    (hm : msgSize ≠ 0) (h : FreshQueue queueSize msgSize p) :
    QueueOk (int8 queueSize.toNat) queueSize.toNat msgSize.toNat p := by
  obtain ⟨⟨s, hs, hlock, hlog, hres⟩, htask⟩ := h
  have hinit : s.eosInitMqueue queueSize msgSize =
      ({ s with mq := ⟨queueSize, msgSize, 0, 0⟩ }.eosInitSemaphore putsem
        queueSize.toNat).eosInitSemaphore getsem 0 := if_neg (by simp [hq, hm])
  rw [hinit] at hs
  have hput : p.shared.semaphore putsem = int8 queueSize.toNat := by
    rw [hs]
    simp [QueueState.eosInitSemaphore, putsem, getsem]
  have hget : p.shared.semaphore getsem = 0 := by
    rw [hs]
    simp [QueueState.eosInitSemaphore, int8]
  have hlog' : ∀ d, p.shared.log d = [] := fun d => by
    rw [hs]
    exact hlog d
  have hfill : fill p.shared = 0 := by simp [fill, hlog']
  have hnone : ∀ t f, (p.task t).transfer ≠ some f := fun t f hf => by
    rw [htask] at hf
    cases hf
  have hmq : p.shared.mq = ⟨queueSize, msgSize, 0, 0⟩ := by rw [hs]; rfl
  refine ⟨⟨⟨fun f hf => absurd hf (hnone _ f), ?_⟩, fun t f hf => absurd hf (hnone t f),
    fun t ht => ?_⟩, ?_, ?_, ?_, ?_, ⟨?_, ?_, fun d => ?_,
    fun f v offset hf => absurd hf (hnone _ f),
    fun f v offset i hf => absurd hf (hnone _ f), fun n hn => ?_, ?_⟩, ⟨fun t n v hr => ?_,
    fun t => ?_, fun t n _ => ?_⟩⟩
  · rw [htask, hs]
    exact hlock
  · rw [htask] at ht
    cases ht
  · rw [hput, hfill]
    simp [htask, tokens]
  · rw [hget, hfill]
    simp [htask, tokens]
  · rw [hput]
    omega
  · rw [hget]
  · rw [hmq]
  · rw [hmq]
  · rw [hmq, hlog', htask]
    cases d <;> simp [copies, Direction.index]
  · rw [hlog'] at hn
    exact absurd hn (Nat.not_lt_zero n)
  · simp [hlog']
  · rw [hs] at hr
    change (t, n, v) ∈ s.results at hr
    rw [hres] at hr
    cases hr
  · simp [contributions, hlog', htask, done]
  · simp [contributions, hlog']

/-- The messages copied in one direction. -/
def messages (s : QueueState T) (d : Direction) : List (List UInt8) := (s.log d).map Entry.bytes

omit [DecidableEq T] [Fintype T] in
/-- What has been received is what has been sent first. -/
theorem DataOk.received_isPrefix {s : QueueState T} {l : Caller} (h : DataOk q m s l) :
    messages s .receive <+: messages s .send := by
  unfold messages
  rw [h.received]
  exact List.take_prefix _ _

omit [DecidableEq T] [Fintype T] in
/-- The indices stay below the size of the queue. -/
theorem DataOk.index_lt {s : QueueState T} {l : Caller} (h : DataOk q m s l) (hq : 0 < q)
    (d : Direction) : d.index s.mq < s.mq.queueSize := by
  rw [UInt16.lt_iff_toNat_lt, h.index, h.queueSize]
  exact Nat.mod_lt _ hq

/-- **Message queues are safe**, for every size of queue and of messages: in every run the
messages received are the first of those sent; the others, at most `queue_size`, are intact in
their slots; at most one task is in its locked section; the indices are in range; and a call has
copied one message if it has returned the message size, none if it has returned 0. -/
theorem queue_safe {queueSize : UInt16} {msgSize : UInt8} (hq : queueSize ≠ 0) (hm : msgSize ≠ 0)
    {p p' : Processor (QueueState T) Caller T} (h0 : FreshQueue queueSize msgSize p)
    (h : (queueTasks T).Runs p p') :
    messages p'.shared .receive <+: messages p'.shared .send ∧
      (∀ n, (messages p'.shared .receive).length ≤ n →
        ∀ hn : n < (messages p'.shared .send).length,
          slot p'.shared.memory queueSize.toNat msgSize.toNat n = (messages p'.shared .send)[n]) ∧
      (messages p'.shared .send).length ≤
        (messages p'.shared .receive).length + queueSize.toNat ∧
      (∀ t, locks (p'.task t) = true → t = p'.current) ∧
      p'.shared.mq.front < queueSize ∧ p'.shared.mq.rear < queueSize ∧
      ∀ t n v, (t, n, v) ∈ p'.shared.results →
        contributions p'.shared t n = if v = 0 then 0 else 1 := by
  have hq0 : 0 < queueSize.toNat := Nat.pos_of_ne_zero fun hz => hq (UInt16.toNat_inj.mp hz)
  have hm0 : 0 < msgSize.toNat := Nat.pos_of_ne_zero fun hz => hm (UInt8.toNat_inj.mp hz)
  obtain ⟨hl, hu, hle⟩ := int8_bounds (n := (queueSize.toNat : Int)) (by omega)
  have hok := runs_queueOk hq0 hm0 hle ⟨hl, hu⟩ (h0.queueOk hq hm) h
  have hfill := hok.fill_bounds hle
  have hsize : p'.shared.mq.queueSize = queueSize := UInt16.toNat_inj.mp hok.data.queueSize
  refine ⟨hok.data.received_isPrefix, fun n hr hn => ?_, ?_, hok.control.section_current, ?_, ?_,
    fun t n v hr => (hok.calls.returned t n v hr).2⟩
  · simp only [messages, List.length_map, List.getElem_map] at hr hn ⊢
    exact hok.data.kept n hn hr
  · simp only [messages, List.length_map]
    unfold fill at hfill
    omega
  · exact hsize ▸ hok.data.index_lt hq0 .receive
  · exact hsize ▸ hok.data.index_lt hq0 .send

/-- Task 0 sends a message of two bytes through a queue of size one, task 1 receives it. -/
theorem queue_safe_one_message :
    ∃ p : Processor (QueueState (Fin 2)) Caller (Fin 2),
      messages p.shared .send = [[7, 8]] ∧ messages p.shared .receive = [[7, 8]] ∧
      p.shared.results = [(0, 0, 2), (1, 0, 2)] ∧
      messages p.shared .receive <+: messages p.shared .send ∧
      (∀ n, (messages p.shared .receive).length ≤ n → ∀ hn : n < (messages p.shared .send).length,
        slot p.shared.memory 1 2 n = (messages p.shared .send)[n]) ∧
      (messages p.shared .send).length ≤ (messages p.shared .receive).length + 1 ∧
      (∀ t, locks (p.task t) = true → t = p.current) ∧
      p.shared.mq.front < 1 ∧ p.shared.mq.rear < 1 ∧
      ∀ t n v, (t, n, v) ∈ p.shared.results →
        contributions p.shared t n = if v = 0 then 0 else 1 := by
  let s : QueueState (Fin 2) :=
    ⟨⟨fun _ => 0, 0, unlocked⟩, ⟨0, 0, 0, 0⟩, fun _ => 0, fun _ => [], []⟩
  let p : Processor (QueueState (Fin 2)) Caller (Fin 2) :=
    ⟨s.eosInitMqueue 1 2, fun _ => ⟨0, none⟩, 0⟩
  let steps (n : Nat) : List (Move (Fin 2) QueueOp) := List.replicate n (.run .step)
  let moves : List (Move (Fin 2) QueueOp) :=
    [.run (.send (fun i => if i = 0 then 7 else 8) 5)] ++ steps 6 ++ [.interrupt] ++ steps 6 ++
      [.switch 1, .run (.receive (fun _ => 0) 5)] ++ steps 12
  obtain ⟨p', hp', hb⟩ := (Option.any_eq_true _ _).mp (show
    ((runList (fun p o => if True then (queueTasks (Fin 2)).move p o else none) p moves).any
      fun p' => messages p'.shared .send = [[7, 8]] ∧ messages p'.shared .receive = [[7, 8]] ∧
        p'.shared.results = [(0, 0, 2), (1, 0, 2)]) = true by decide +kernel)
  obtain ⟨hs, hr, hres⟩ := of_decide_eq_true hb
  exact ⟨p', hs, hr, hres, @queue_safe (Fin 2) _ _ 1 2 (by decide) (by decide) _ _
    ⟨⟨s, rfl, rfl, fun _ => rfl, rfl⟩, fun _ => rfl⟩ (.of_runList hp')⟩

end Runs

end Eos.Analysis
