import Eos.Interface.SerialText
import Eos.Model.Format
import Eos.Lib.LeadsTo
import Eos.Lib.Processor

/-!
# Printing over the serial line

Whatever the order of events, the bytes of a task that the controller accepts are in the order
of its text, and none is sent twice (`sends_inOrder`).  A byte is lost only if another task writes
between the test of the flag register and the write; without that each text comes out whole
(`sends_whole`).  In a fair run every task ends, and the line delivers all that was accepted
(`sends_ends`).
-/

set_option autoImplicit false

namespace Eos.Analysis

open Eos.Lib (Reach Fifo LeadsTo Recurs sum_update)
open Eos.Model
open Eos.Interface

variable {T : Type} [DecidableEq T] {depth : Nat} {text : T → List UInt8}

/-! ## Text and bytes -/

/-- Nothing is sent for an empty text. -/
@[simp] theorem crlf_nil : crlf [] = [] := rfl

/-- What is sent for the first character, and for the others. -/
theorem crlf_cons (c : UInt8) (text : List UInt8) :
    crlf (c :: text) =
      (if c = '\n'.toUInt8 then ['\r'.toUInt8, '\n'.toUInt8] else [c]) ++ crlf text := rfl

/-- No `\n` is sent without a `\r` of its own. -/
theorem crlf_head (text : List UInt8) : (crlf text).head? ≠ some '\n'.toUInt8 := by
  cases text with
  | nil =>
    intro h
    cases h
  | cons c text =>
    rw [crlf_cons]
    split
    case isTrue => exact fun h => absurd (Option.some.inj h) (by decide)
    case isFalse hc => exact fun h => hc (Option.some.inj h)

/-- A byte that is not the `\r` of a line end stands for itself. -/
theorem fromLine_cons {c : UInt8} {bytes : List UInt8}
    (h : c ≠ '\r'.toUInt8 ∨ bytes.head? ≠ some '\n'.toUInt8) :
    fromLine (c :: bytes) = c :: fromLine bytes := by
  cases bytes with
  | nil => rfl
  | cons d bytes =>
    rw [fromLine, if_neg]
    rintro ⟨rfl, rfl⟩
    exact h.elim (fun h => h rfl) fun h => h rfl

/-- **The receiver gets the text back.** -/
theorem fromLine_crlf (text : List UInt8) : fromLine (crlf text) = text := by
  induction text with
  | nil => rfl
  | cons c text ih =>
    rw [crlf_cons]
    split
    case isTrue hc =>
      subst hc
      rw [List.cons_append, List.cons_append, List.nil_append, fromLine, if_pos ⟨rfl, rfl⟩, ih]
    case isFalse hc =>
      rw [List.singleton_append, fromLine_cons (Or.inr (crlf_head text)), ih]

/-- At the start a task has all bytes of its text to write. -/
theorem remaining_start (text : List UInt8) : remaining (.start text) = crlf text := by
  cases text with
  | nil => rfl
  | cons c text =>
    rw [crlf_cons, Putting.start, List.headD_cons, startPutc]
    by_cases hc : c = '\n'.toUInt8
    · rw [if_pos hc, if_pos hc, hc]
      rfl
    · rw [if_neg hc, if_neg hc]
      rfl

/-- At the start it does not write yet. -/
theorem not_writes_start (text : List UInt8) : ¬(Putting.start text).Writes := by
  rintro ⟨-, h⟩
  rw [Putting.start, startPutc] at h
  split at h
  · exact h.elim PutcPoint.noConfusion PutcPoint.noConfusion
  · exact h.elim PutcPoint.noConfusion PutcPoint.noConfusion

/-- Nothing remains exactly at the end of the text. -/
theorem remaining_eq_nil {p : Putting} : remaining p = [] ↔ p.text = [] := by
  rw [remaining]
  split
  case h_1 h => exact iff_of_true rfl h
  case h_2 c text h =>
    rw [h]
    split <;> exact iff_of_false (List.cons_ne_nil _ _) (List.cons_ne_nil _ _)

/-! ## One access -/

/-- The flag that the driver tests. -/
theorem uartFr_and (full : Bool) (flags : UInt32) :
    uartFr full flags &&& frTxff ≠ 0 ↔ full = true := by
  rw [uartFr]
  cases full with
  | true =>
    have h : (flags ||| frTxff) &&& frTxff = frTxff := by
      rw [UInt32.and_comm, UInt32.or_comm]
      apply UInt32.toBitVec_inj.mp
      rw [UInt32.toBitVec_and, UInt32.toBitVec_or]
      ext i hi
      simp only [BitVec.getElem_and, BitVec.getElem_or]
      grind
    rw [if_pos rfl, h]
    exact iff_of_true (by decide) rfl
  | false =>
    have h : flags &&& ~~~frTxff &&& frTxff = 0 := by
      have hnone : ~~~frTxff &&& frTxff = 0 := by decide
      rw [UInt32.and_assoc, hnone, UInt32.and_zero]
    rw [if_neg Bool.false_ne_true, h]
    exact iff_of_false (fun h => h rfl) Bool.false_ne_true

/-- The flag register is read before a `\r`. -/
theorem access_waitReturn (c : UInt8) (text : List UInt8) (fr : UInt32) :
    (⟨c :: text, .waitReturn⟩ : Putting).access fr =
      (⟨c :: text, if fr &&& frTxff ≠ 0 then .waitReturn else .writeReturn⟩, none) := rfl

/-- The flag register is read before a character. -/
theorem access_wait (c : UInt8) (text : List UInt8) (fr : UInt32) :
    (⟨c :: text, .wait⟩ : Putting).access fr =
      (⟨c :: text, if fr &&& frTxff ≠ 0 then .wait else .write⟩, none) := rfl

/-- **What an access does**: it writes the next byte, or it writes nothing and leaves the rest
as it is; room that the task finds is there. -/
theorem access_cases (p : Putting) (full : Bool) (flags : UInt32) :
    (∃ c, (p.access (uartFr full flags)).2 = some c ∧ p.Writes ∧
      remaining p = c :: remaining (p.access (uartFr full flags)).1 ∧
      ¬(p.access (uartFr full flags)).1.Writes) ∨
    ((p.access (uartFr full flags)).2 = none ∧ ¬p.Writes ∧
      remaining (p.access (uartFr full flags)).1 = remaining p ∧
      ((p.access (uartFr full flags)).1.Writes ↔ p.text ≠ [] ∧ full = false)) := by
  have hpoll : ∀ waits found : PutcPoint,
      (if uartFr full flags &&& frTxff ≠ 0 then waits else found) =
        if full = true then waits else found := by
    intro waits found
    simp only [uartFr_and]
  obtain ⟨text, point⟩ := p
  cases text with
  | nil =>
    refine Or.inr ⟨rfl, fun h => h.1 rfl, rfl, ?_⟩
    exact iff_of_false (fun h => h.1 rfl) fun h => h.1 rfl
  | cons c text =>
    cases point with
    | writeReturn =>
      refine Or.inl ⟨_, rfl, ⟨List.cons_ne_nil _ _, Or.inl rfl⟩, rfl, ?_⟩
      exact fun h => h.2.elim PutcPoint.noConfusion PutcPoint.noConfusion
    | write =>
      refine Or.inl ⟨_, rfl, ⟨List.cons_ne_nil _ _, Or.inr rfl⟩, ?_, not_writes_start text⟩
      show c :: crlf text = c :: remaining (.start text)
      rw [remaining_start]
    | waitReturn =>
      refine Or.inr ⟨rfl, fun h => h.2.elim PutcPoint.noConfusion PutcPoint.noConfusion, ?_, ?_⟩
      · rw [access_waitReturn, hpoll]
        cases full <;> rfl
      · rw [access_waitReturn, hpoll]
        cases full <;> simp [Putting.Writes]
    | wait =>
      refine Or.inr ⟨rfl, fun h => h.2.elim PutcPoint.noConfusion PutcPoint.noConfusion, ?_, ?_⟩
      · rw [access_wait, hpoll]
        cases full <;> rfl
      · rw [access_wait, hpoll]
        cases full <;> simp [Putting.Writes]

/-! ## Every run -/

/-- What holds whatever the order of events: the bytes of a task that are accepted or left are
in the order of its text, and all that are missing are counted. -/
structure Sending (depth : Nat) (text : T → List UInt8) (s : SerialLine T) : Prop where
  fits : s.fifo.waiting.length ≤ depth
  inOrder : ∀ t, (bytesOf t s.fifo.accepted ++ remaining (s.task t)).Sublist (crlf (text t))
  accounted : ∀ t, (bytesOf t s.fifo.accepted).length + (bytesOf t s.fifo.lost).length +
    (remaining (s.task t)).length = (crlf (text t)).length

/-- The bytes of one task, in two parts. -/
theorem bytesOf_append (t : T) (bytes bytes' : List (T × UInt8)) :
    bytesOf t (bytes ++ bytes') = bytesOf t bytes ++ bytesOf t bytes' := by
  rw [bytesOf, List.filter_append, List.map_append, ← bytesOf, ← bytesOf]

/-- A single byte is one of its own task. -/
theorem bytesOf_singleton (t u : T) (c : UInt8) :
    bytesOf t [(u, c)] = if u = t then [c] else [] := by
  by_cases h : u = t
  · simp [bytesOf, h]
  · simp [bytesOf, h]

/-- What a task writes is nothing to the others. -/
theorem bytesOf_push_of_ne {t u : T} (hu : u ≠ t) (f : Fifo (T × UInt8)) (c : UInt8) :
    bytesOf u (f.push depth (t, c)).accepted = bytesOf u f.accepted ∧
      bytesOf u (f.push depth (t, c)).lost = bytesOf u f.lost := by
  have hnone : bytesOf u [(t, c)] = [] := by rw [bytesOf_singleton, if_neg hu.symm]
  by_cases hroom : f.waiting.length < depth
  · rw [Fifo.accepted_push hroom, bytesOf_append, hnone, List.append_nil, Fifo.push_of_lt hroom]
    exact ⟨rfl, rfl⟩
  · rw [Fifo.push_of_le (Nat.not_lt.mp hroom)]
    refine ⟨rfl, ?_⟩
    rw [bytesOf_append, hnone, List.append_nil]

/-- A byte is accepted or lost. -/
theorem bytesOf_push_self (depth : Nat) (t : T) (f : Fifo (T × UInt8)) (c : UInt8) :
    (bytesOf t (f.push depth (t, c)).accepted = bytesOf t f.accepted ++ [c] ∧
      (f.push depth (t, c)).lost = f.lost) ∨
    (bytesOf t (f.push depth (t, c)).accepted = bytesOf t f.accepted ∧
      bytesOf t (f.push depth (t, c)).lost = bytesOf t f.lost ++ [c]) := by
  have hone : bytesOf t [(t, c)] = [c] := by rw [bytesOf_singleton, if_pos rfl]
  by_cases hroom : f.waiting.length < depth
  · rw [Fifo.accepted_push hroom, bytesOf_append, hone, Fifo.push_of_lt hroom]
    exact Or.inl ⟨rfl, rfl⟩
  · rw [Fifo.push_of_le (Nat.not_lt.mp hroom)]
    refine Or.inr ⟨rfl, ?_⟩
    rw [bytesOf_append, hone]

/-- What an access of a task changes. -/
theorem event_access (s : SerialLine T) (t : T) (flags : UInt32) :
    s.event depth (.access t flags) =
      { fifo := match ((s.task t).access
            (uartFr (decide (depth ≤ s.fifo.waiting.length)) flags)).2 with
          | none => s.fifo
          | some c => s.fifo.push depth (t, c)
        task := Function.update s.task t
          ((s.task t).access (uartFr (decide (depth ≤ s.fifo.waiting.length)) flags)).1 } := rfl

/-- An access is a write or a poll. -/
theorem event_access_cases (depth : Nat) (s : SerialLine T) (t : T) (flags : UInt32) :
    (∃ c p, s.event depth (.access t flags) =
        ⟨s.fifo.push depth (t, c), Function.update s.task t p⟩ ∧
      (s.task t).Writes ∧ remaining (s.task t) = c :: remaining p ∧ ¬p.Writes) ∨
    (∃ p, s.event depth (.access t flags) = ⟨s.fifo, Function.update s.task t p⟩ ∧
      ¬(s.task t).Writes ∧ remaining p = remaining (s.task t) ∧
      (p.Writes ↔ (s.task t).text ≠ [] ∧ s.fifo.waiting.length < depth)) := by
  rw [event_access]
  obtain ⟨c, hc, hwrites, hrest, hnot⟩ | ⟨hnone, hwrites, hrest, hiff⟩ :=
    access_cases (s.task t) (decide (depth ≤ s.fifo.waiting.length)) flags
  · rw [hc]
    exact Or.inl ⟨c, _, rfl, hwrites, hrest, hnot⟩
  · rw [hnone]
    rw [decide_eq_false_iff_not, Nat.not_le] at hiff
    exact Or.inr ⟨_, rfl, hwrites, hrest, hiff⟩

/-- The invariant holds at the start. -/
theorem sending_start (text : T → List UInt8) : Sending depth text (.start text) where
  fits := Nat.zero_le _
  inOrder t := by
    rw [SerialLine.start, remaining_start]
    exact List.Sublist.refl _
  accounted t := by
    rw [SerialLine.start, remaining_start]
    exact Nat.zero_add _

/-- A task whose bytes are left as they are. -/
theorem remaining_update {s : SerialLine T} {t : T} {p : Putting}
    (h : remaining p = remaining (s.task t)) (u : T) :
    remaining (Function.update s.task t p u) = remaining (s.task u) := by
  by_cases hu : u = t
  · rw [hu, Function.update_self, h]
  · rw [Function.update_of_ne hu]

/-- An event keeps order and number. -/
theorem sending_event {s : SerialLine T} (h : Sending depth text s) (e : SerialEvent T) :
    Sending depth text (s.event depth e) := by
  cases e with
  | send =>
    refine ⟨Fifo.length_pop_le.trans h.fits, fun t => ?_, fun t => ?_⟩
    · rw [SerialLine.event, Fifo.accepted_pop]
      exact h.inOrder t
    · rw [SerialLine.event, Fifo.accepted_pop, Fifo.lost_pop]
      exact h.accounted t
  | access t flags =>
    obtain ⟨c, p, hevent, -, hrest, -⟩ | ⟨p, hevent, -, hrest, -⟩ :=
      event_access_cases depth s t flags
    · rw [hevent]
      refine ⟨Fifo.length_push_le h.fits, fun u => ?_, fun u => ?_⟩
      · dsimp only
        by_cases hu : u = t
        · subst hu
          have hkeep := h.inOrder u
          rw [hrest] at hkeep
          rw [Function.update_self]
          obtain ⟨haccepted, -⟩ | ⟨haccepted, -⟩ :=
            bytesOf_push_self depth u s.fifo c
          · rw [haccepted, List.append_assoc, List.singleton_append]
            exact hkeep
          · rw [haccepted]
            exact ((List.sublist_cons_self c _).append_left _).trans hkeep
        · rw [Function.update_of_ne hu, (bytesOf_push_of_ne hu s.fifo c).1]
          exact h.inOrder u
      · dsimp only
        by_cases hu : u = t
        · subst hu
          have hkeep := h.accounted u
          rw [hrest, List.length_cons] at hkeep
          rw [Function.update_self]
          obtain ⟨haccepted, hlost⟩ | ⟨haccepted, hlost⟩ :=
            bytesOf_push_self depth u s.fifo c
          · rw [haccepted, hlost, List.length_append, List.length_singleton]
            omega
          · rw [haccepted, hlost, List.length_append, List.length_singleton]
            omega
        · rw [Function.update_of_ne hu, (bytesOf_push_of_ne hu s.fifo c).1,
            (bytesOf_push_of_ne hu s.fifo c).2]
          exact h.accounted u
    · rw [hevent]
      refine ⟨h.fits, fun u => ?_, fun u => ?_⟩
      · rw [remaining_update hrest]
        exact h.inOrder u
      · rw [remaining_update hrest]
        exact h.accounted u

/-- **The run lemma** for what is sent. -/
theorem sending_of_sends {ok : SerialLine T → SerialEvent T → Prop} {s : SerialLine T}
    (h : Sends depth ok text s) : Sending depth text s := by
  refine Reach.invariant (sending_start text) ?_ h
  rintro u v e hu - hv
  obtain rfl := Option.some.inj hv
  exact sending_event hu e

/-- **Bytes stay in order**: in every run, with tasks switched anywhere, the bytes of a task that
the line has delivered are in the order of its text and come at most once, and the FIFO takes no
more than it has room for. -/
theorem sends_inOrder {s : SerialLine T} (h : Sends depth (fun _ _ => True) text s) (t : T) :
    (bytesOf t s.fifo.delivered).Sublist (crlf (text t)) ∧ s.fifo.waiting.length ≤ depth := by
  have hs := sending_of_sends h
  refine ⟨?_, hs.fits⟩
  have hkeep := hs.inOrder t
  rw [Fifo.accepted, bytesOf_append, List.append_assoc] at hkeep
  exact (List.sublist_append_left _ _).trans hkeep

/-- Two tasks that have both found the same room: the second byte is lost. -/
theorem sends_inOrder_lost :
    ∃ s : SerialLine Bool, (s.fifo.lost = [(true, 'a'.toUInt8)] ∧
      (bytesOf false s.fifo.delivered).Sublist (crlf (chars "b"))) ∧
      s.fifo.waiting.length ≤ 1 := by
  obtain ⟨_, s, ⟨⟩, hs, hlost⟩ := Reach.of_decide (fun s e => some (SerialLine.event 1 s e))
    (fun _ _ => True) (some (.start fun t => if t then chars "a" else chars "b"))
    [.access true 0, .access false 0, .access false 0, .access true 0, .send]
    (fun _ s => s.fifo.lost = [(true, 'a'.toUInt8)]) (by decide)
  obtain ⟨horder, hfits⟩ := sends_inOrder hs false
  exact ⟨s, ⟨hlost, horder⟩, hfits⟩

/-! ## WritesAlone runs -/

/-- Nothing is lost, and a task that has found room still has it. -/
structure Lossless (depth : Nat) (s : SerialLine T) : Prop where
  lost_eq : s.fifo.lost = []
  room : ∀ t, (s.task t).Writes → s.fifo.waiting.length < depth

omit [DecidableEq T] in
/-- Nothing is lost at the start. -/
theorem lossless_start : Lossless depth (.start text) where
  lost_eq := rfl
  room t h := absurd h (not_writes_start (text t))

/-- **The step lemma**: a task that writes alone finds the room it has seen. -/
theorem lossless_event {s : SerialLine T} (h : Lossless depth s) {e : SerialEvent T}
    (hok : WritesAlone s e) : Lossless depth (s.event depth e) := by
  cases e with
  | send =>
    refine ⟨?_, fun t ht => ?_⟩
    · rw [SerialLine.event, Fifo.lost_pop]
      exact h.lost_eq
    · exact Fifo.length_pop_le.trans_lt (h.room t ht)
  | access t flags =>
    obtain ⟨c, p, hevent, hwrites, -, hnot⟩ | ⟨p, hevent, -, -, hiff⟩ :=
      event_access_cases depth s t flags
    · rw [hevent, Fifo.push_of_lt (h.room t hwrites)]
      refine ⟨h.lost_eq, fun u hu => ?_⟩
      dsimp only at hu
      -- no other task has found room, and this one has written
      by_cases hut : u = t
      · rw [hut, Function.update_self] at hu
        exact absurd hu hnot
      · rw [Function.update_of_ne hut] at hu
        exact absurd hu (hok hwrites u hut)
    · rw [hevent]
      refine ⟨h.lost_eq, fun u hu => ?_⟩
      dsimp only at hu
      by_cases hut : u = t
      · rw [hut, Function.update_self] at hu
        exact (hiff.mp hu).2
      · rw [Function.update_of_ne hut] at hu
        exact h.room u hu

/-- What is accepted and what is left is the whole text. -/
theorem accepted_remaining {s : SerialLine T} (h : Sending depth text s) (hlost : s.fifo.lost = [])
    (t : T) : bytesOf t s.fifo.accepted ++ remaining (s.task t) = crlf (text t) := by
  have hcount := h.accounted t
  rw [hlost] at hcount
  apply (h.inOrder t).eq_of_length
  rw [List.length_append]
  exact hcount

/-- **The run lemma** for what is lost. -/
theorem lossless_of_sends {s : SerialLine T} (h : Sends depth WritesAlone text s) :
    Lossless depth s := by
  refine Reach.invariant lossless_start ?_ h
  rintro u v e hu hok hv
  obtain rfl := Option.some.inj hv
  exact lossless_event hu hok

/-- What is accepted of a task and what it has still to write are its text. -/
theorem accepted_of_sends {s : SerialLine T} (h : Sends depth WritesAlone text s) (t : T) :
    bytesOf t s.fifo.accepted ++ remaining (s.task t) = crlf (text t) :=
  accepted_remaining (sending_of_sends h) (lossless_of_sends h).lost_eq t

/-- **Texts come out whole**: without a write of another task between the test of the flag register
and the write, no byte is lost, and what the line has delivered of each task, what waits and what
the task has still to write are its text. -/
theorem sends_whole {s : SerialLine T} (h : Sends depth WritesAlone text s) :
    s.fifo.lost = [] ∧ ∀ t, bytesOf t s.fifo.delivered ++ bytesOf t s.fifo.waiting ++
      remaining (s.task t) = crlf (text t) := by
  refine ⟨(lossless_of_sends h).lost_eq, fun t => ?_⟩
  rw [← bytesOf_append]
  exact accepted_of_sends h t

/-- A task that prints a line and another one that prints behind it. -/
theorem sends_whole_two :
    ∃ s : SerialLine Bool, s.fifo.lost = [] ∧
      bytesOf true s.fifo.delivered ++ bytesOf true s.fifo.waiting ++ remaining (s.task true) =
        crlf (chars "a\n") := by
  obtain ⟨_, s, ⟨⟩, hs, -⟩ := Reach.of_decide (fun s e => some (SerialLine.event 2 s e))
    WritesAlone (some (.start fun t => if t then chars "a\n" else chars "b"))
    [.access true 0, .access true 0, .access false 0xFF, .access false 0, .access true 0, .send,
      .access true 0, .access true 0] (fun _ _ => True) (by decide)
  obtain ⟨hlost, htext⟩ := sends_whole hs
  exact ⟨s, hlost, htext true⟩

/-! ## Fair runs end -/

section

variable [Fintype T] {ok : SerialLine T → SerialEvent T → Prop} {run : Nat → SerialLine T}
  {event : Nat → SerialEvent T}

/-- How many bytes the tasks have still to write. -/
def left (s : SerialLine T) : Nat := ∑ t, (remaining (s.task t)).length

/-- A task that has written a byte has one less to write. -/
theorem left_update {s : SerialLine T} {t : T} {p : Putting} {c : UInt8}
    (h : remaining (s.task t) = c :: remaining p) (fifo : Fifo (T × UInt8)) :
    left ⟨fifo, Function.update s.task t p⟩ + 1 = left s := by
  have hsum := sum_update s.task t p fun q => (remaining q).length
  rw [h, List.length_cons] at hsum
  rw [left, left]
  dsimp only
  omega

/-- **Progress**: an event writes a byte, or it leaves everything as it is except that the FIFO may
get shorter and that a task may find room. -/
theorem left_event (depth : Nat) (s : SerialLine T) (e : SerialEvent T) :
    left (s.event depth e) < left s ∨
      ((∀ t, remaining ((s.event depth e).task t) = remaining (s.task t)) ∧
        (s.event depth e).fifo.waiting.length ≤ s.fifo.waiting.length ∧
        ∀ t, (s.task t).Writes → ((s.event depth e).task t).Writes) := by
  cases e with
  | send => exact Or.inr ⟨fun _ => rfl, Fifo.length_pop_le, fun _ h => h⟩
  | access t flags =>
    obtain ⟨c, p, hevent, -, hrest, -⟩ | ⟨p, hevent, hwrites, hrest, -⟩ :=
      event_access_cases depth s t flags
    · rw [hevent, ← left_update hrest (s.fifo.push depth (t, c))]
      exact Or.inl (Nat.lt_succ_self _)
    · rw [hevent]
      refine Or.inr ⟨fun u => remaining_update hrest u, le_rfl, fun u hu => ?_⟩
      have hut : u ≠ t := by
        rintro rfl
        exact hwrites hu
      dsimp only
      rw [Function.update_of_ne hut]
      exact hu

omit [DecidableEq T] in
/-- As long as no byte is written, a task that has something to write still has. -/
theorem left_eq_of_remaining {s s' : SerialLine T}
    (h : ∀ t, remaining (s'.task t) = remaining (s.task t)) : left s' = left s := by
  rw [left, left]
  exact Finset.sum_congr rfl fun t _ => by rw [h t]

/-- `n` bytes are left, some of them of the task `t`. -/
def Waiting (n : Nat) (t : T) (s : SerialLine T) : Prop := left s = n ∧ remaining (s.task t) ≠ []

/-- While a task waits, an event brings the end nearer, or it does not fill the FIFO. -/
theorem waiting_event (depth : Nat) {s : SerialLine T} {n : Nat} {t : T} (h : Waiting n t s)
    (e : SerialEvent T) : left (s.event depth e) < n ∨ (Waiting n t (s.event depth e) ∧
      (s.event depth e).fifo.waiting.length ≤ s.fifo.waiting.length ∧
      ((s.task t).Writes → ((s.event depth e).task t).Writes)) := by
  obtain hlt | ⟨hrest, hle, hwrites⟩ := left_event depth s e
  · exact Or.inl (h.1 ▸ hlt)
  · refine Or.inr ⟨⟨(left_eq_of_remaining hrest).trans h.1, ?_⟩, hle, hwrites t⟩
    rw [hrest t]
    exact h.2

/-- The FIFO gets empty unless a byte is written. -/
theorem waiting_drains (hrun : SendingRun depth ok text run event)
    (hsend : Recurs event (· = .send)) (n : Nat) (t : T) :
    LeadsTo run (Waiting n t)
      fun s => left s < n ∨ (Waiting n t s ∧ s.fifo.waiting.length = 0) := by
  apply LeadsTo.of_variant fun s => s.fifo.waiting.length
  intro m
  by_cases hm : m = 0
  · exact LeadsTo.of_imp fun s hs => Or.inr (Or.inr ⟨hs.1, hs.2.trans hm⟩)
  · apply LeadsTo.of_recurs hsend
    · intro i hi
      rw [hrun.next_eq i]
      obtain hlt | ⟨hwaiting, hle, -⟩ := waiting_event depth hi.1 (event i)
      · exact Or.inr (Or.inr (Or.inl hlt))
      · rw [hi.2] at hle
        obtain heq | hlt := Nat.eq_or_lt_of_le hle
        · exact Or.inl ⟨hwaiting, heq⟩
        · exact Or.inr (Or.inl ⟨hwaiting, hlt⟩)
    · intro i hi he
      rw [hrun.next_eq i, he]
      refine Or.inl ⟨hi.1, ?_⟩
      show (run i).fifo.pop.waiting.length < m
      rw [Fifo.waiting_pop, List.length_tail]
      omega

/-- A task that has something to write finds room in the empty FIFO, unless a byte is written. -/
theorem waiting_finds (hrun : SendingRun depth ok text run event) (hdepth : 0 < depth)
    (n : Nat) (t : T) (haccess : Recurs event fun e => ∃ flags, e = .access t flags) :
    LeadsTo run (fun s => Waiting n t s ∧ s.fifo.waiting.length = 0)
      fun s => left s < n ∨ (Waiting n t s ∧ (s.task t).Writes) := by
  apply LeadsTo.of_recurs haccess
  · intro i hi
    rw [hrun.next_eq i]
    obtain hlt | ⟨hwaiting, hle, -⟩ := waiting_event depth hi.1 (event i)
    · exact Or.inr (Or.inl hlt)
    · exact Or.inl ⟨hwaiting, Nat.le_zero.mp (hi.2 ▸ hle)⟩
  · rintro i ⟨hi, hempty⟩ ⟨flags, he⟩
    rw [hrun.next_eq i, he]
    obtain hlt | ⟨hwaiting, -, hkeep⟩ := waiting_event depth hi (.access t flags)
    · exact Or.inl hlt
    · refine Or.inr ⟨hwaiting, ?_⟩
      obtain ⟨c, p, -, hwrites, -, -⟩ | ⟨p, hevent, -, -, hiff⟩ :=
        event_access_cases depth (run i) t flags
      · exact hkeep hwrites
      · rw [hevent]
        dsimp only
        rw [Function.update_self]
        exact hiff.mpr ⟨fun h => hi.2 (remaining_eq_nil.mpr h), hempty ▸ hdepth⟩

/-- A task that has found room writes. -/
theorem waiting_writes (hrun : SendingRun depth ok text run event) (n : Nat) (t : T)
    (haccess : Recurs event fun e => ∃ flags, e = .access t flags) :
    LeadsTo run (fun s => Waiting n t s ∧ (s.task t).Writes) fun s => left s < n := by
  apply LeadsTo.of_recurs haccess
  · intro i hi
    rw [hrun.next_eq i]
    obtain hlt | ⟨hwaiting, -, hkeep⟩ := waiting_event depth hi.1 (event i)
    · exact Or.inr hlt
    · exact Or.inl ⟨hwaiting, hkeep hi.2⟩
  · rintro i ⟨hi, hwrites⟩ ⟨flags, he⟩
    rw [hrun.next_eq i, he]
    obtain hlt | ⟨hwaiting, -, -⟩ := waiting_event depth hi (.access t flags)
    · exact hlt
    · obtain ⟨c, p, hevent, -, hrest, -⟩ | ⟨p, -, hnot, -, -⟩ :=
        event_access_cases depth (run i) t flags
      · rw [hevent, ← hi.1, ← left_update hrest ((run i).fifo.push depth (t, c))]
        exact Nat.lt_succ_self _
      · exact absurd hwrites hnot

/-- The tasks write all they have to. -/
theorem left_ends (hrun : SendingRun depth ok text run event) (hdepth : 0 < depth)
    (hsend : Recurs event (· = .send))
    (haccess : ∀ t, Recurs event fun e => ∃ flags, e = .access t flags) :
    LeadsTo run (fun _ => True) fun s => left s = 0 := by
  apply LeadsTo.of_variant left
  rintro n i ⟨-, hleft⟩
  by_cases hn : n = 0
  · exact ⟨i, le_rfl, Or.inr (hleft.trans hn)⟩
  · obtain ⟨t, -, ht⟩ : ∃ t ∈ Finset.univ, (remaining ((run i).task t)).length ≠ 0 := by
      apply Finset.exists_ne_zero_of_sum_ne_zero
      exact fun h => hn (hleft.symm.trans h)
    have hwaiting : Waiting n t (run i) := ⟨hleft, fun h => ht (by rw [h, List.length_nil])⟩
    have hwrites := waiting_writes hrun n t (haccess t)
    have hsmaller : LeadsTo run (fun s => left s < n) fun s => left s < n :=
      LeadsTo.of_imp fun _ h => h
    have hfinds := (waiting_finds hrun hdepth n t (haccess t)).trans (hsmaller.or hwrites)
    obtain ⟨j, hij, hj⟩ :=
      ((waiting_drains hrun hsend n t).trans (hsmaller.or hfinds)) i hwaiting
    exact ⟨j, hij, Or.inl ⟨trivial, hj⟩⟩

omit [DecidableEq T] in
/-- Nothing is left when every task has written its text. -/
theorem left_eq_zero {s : SerialLine T} : left s = 0 ↔ ∀ t, remaining (s.task t) = [] := by
  rw [left, Finset.sum_eq_zero_iff]
  constructor
  · exact fun h t => List.length_eq_zero_iff.mp (h t (Finset.mem_univ t))
  · exact fun h t _ => by rw [h t, List.length_nil]

/-- Nothing is left and nothing waits. -/
def Ended (s : SerialLine T) : Prop := left s = 0 ∧ s.fifo.waiting.length = 0

/-- At the end nothing is written any more. -/
theorem ended_event {s : SerialLine T} (h : Ended s) (e : SerialEvent T) :
    Ended (s.event depth e) := by
  obtain hlt | ⟨hrest, hle, -⟩ := left_event depth s e
  · exact absurd (h.1 ▸ hlt) (Nat.not_lt_zero _)
  · exact ⟨(left_eq_of_remaining hrest).trans h.1, Nat.le_zero.mp (h.2 ▸ hle)⟩

/-- The controller sends what waits. -/
theorem fifo_drains (hrun : SendingRun depth ok text run event)
    (hsend : Recurs event (· = .send)) : LeadsTo run (fun s => left s = 0) Ended := by
  apply LeadsTo.of_variant fun s => s.fifo.waiting.length
  intro m
  by_cases hm : m = 0
  · exact LeadsTo.of_imp fun s hs => Or.inr ⟨hs.1, hs.2.trans hm⟩
  · apply LeadsTo.of_recurs hsend
    · intro i hi
      rw [hrun.next_eq i]
      obtain hlt | ⟨hrest, hle, -⟩ := left_event depth (run i) (event i)
      · exact absurd (hi.1 ▸ hlt) (Nat.not_lt_zero _)
      · have hleft := (left_eq_of_remaining hrest).trans hi.1
        rw [hi.2] at hle
        obtain heq | hlt := Nat.eq_or_lt_of_le hle
        · exact Or.inl ⟨hleft, heq⟩
        · exact Or.inr (Or.inl ⟨hleft, hlt⟩)
    · intro i hi he
      rw [hrun.next_eq i, he]
      refine Or.inl ⟨hi.1, ?_⟩
      show (run i).fifo.pop.waiting.length < m
      rw [Fifo.waiting_pop, List.length_tail]
      omega

omit [Fintype T] in
/-- The states of an infinite run. -/
theorem sends_run (hrun : SendingRun depth ok text run event) (i : Nat) :
    Sends depth ok text (run i) := by
  induction i with
  | zero =>
    rw [hrun.start_eq]
    exact .start
  | succ i ih =>
    rw [hrun.next_eq i]
    exact .next ih (hrun.ok i) rfl

/-- A fair run ends. -/
theorem run_ends (hrun : SendingRun depth ok text run event) (hdepth : 0 < depth)
    (hsend : Recurs event (· = .send))
    (haccess : ∀ t, Recurs event fun e => ∃ flags, e = .access t flags) :
    ∃ n, ∀ m, n ≤ m → Ended (run m) := by
  obtain ⟨n, -, hn⟩ :=
    ((left_ends hrun hdepth hsend haccess).trans (fifo_drains hrun hsend)) 0 trivial
  refine ⟨n, fun m hm => ?_⟩
  induction m, hm using Nat.le_induction with
  | base => exact hn
  | succ m _ ih =>
    rw [hrun.next_eq m]
    exact ended_event ih (event m)

/-- At the end the receiver reads every text. -/
theorem received_of_ended {s : SerialLine T} (h : Sends depth WritesAlone text s)
    (hended : Ended s) (t : T) : fromLine (bytesOf t s.fifo.delivered) = text t := by
  have hwhole := accepted_of_sends h t
  rw [Fifo.accepted, List.length_eq_zero_iff.mp hended.2, left_eq_zero.mp hended.1 t,
    List.append_nil, List.append_nil] at hwhole
  rw [hwhole, fromLine_crlf]

/-- **Printing ends**: in a run in which the controller and every task go on again and again, and
no task writes while another one has found room, the line has delivered every text from some time
on, and it is what the receiver reads. -/
theorem sends_ends (hrun : SendingRun depth WritesAlone text run event) (hdepth : 0 < depth)
    (hsend : Recurs event (· = .send))
    (haccess : ∀ t, Recurs event fun e => ∃ flags, e = .access t flags) :
    ∃ n, ∀ m, n ≤ m → ∀ t, ((run m).task t).text = [] ∧
      fromLine (bytesOf t (run m).fifo.delivered) = text t := by
  obtain ⟨n, hn⟩ := run_ends hrun hdepth hsend haccess
  refine ⟨n, fun m hm t => ⟨?_, received_of_ended (sends_run hrun m) (hn m hm) t⟩⟩
  exact remaining_eq_nil.mp (left_eq_zero.mp (hn m hm).1 t)

end

/-! ## Turns -/

/-- Each task in turn finds room and writes, and then the controller sends. -/
def turnEvent {T : Type} (turn : Nat → T) (i : Nat) : SerialEvent T :=
  if i % 3 = 2 then .send else .access (turn (i / 3)) 0

/-- The tasks print their texts in turn. -/
def turnRun (depth : Nat) (text : T → List UInt8) (turn : Nat → T) : Nat → SerialLine T
  | 0 => .start text
  | i + 1 => (turnRun depth text turn i).event depth (turnEvent turn i)

/-- No task has found room without writing, and at most `n` characters wait. -/
def Quiet (n : Nat) (s : SerialLine T) : Prop :=
  (∀ u, ¬(s.task u).Writes) ∧ s.fifo.waiting.length ≤ n

/-- A task finds room, if it has something to write. -/
theorem Quiet.poll {s : SerialLine T} (h : Quiet 0 s) (hdepth : 0 < depth) (t : T)
    (flags : UInt32) : let s' := s.event depth (.access t flags)
    (∀ u ≠ t, ¬(s'.task u).Writes) ∧ s'.fifo.waiting.length ≤ 0 ∧
      (remaining (s'.task t) ≠ [] → (s'.task t).Writes) := by
  intro s'
  obtain ⟨c, p, -, hwrites, -, -⟩ | ⟨p, hevent, -, hrest, hiff⟩ :=
    event_access_cases depth s t flags
  · exact absurd hwrites (h.1 t)
  · have hs' : s' = ⟨s.fifo, Function.update s.task t p⟩ := hevent
    rw [hs']
    refine ⟨fun u hu => ?_, h.2, fun hne => ?_⟩
    · dsimp only
      rw [Function.update_of_ne hu]
      exact h.1 u
    · dsimp only at hne ⊢
      rw [Function.update_self] at hne ⊢
      rw [hrest] at hne
      exact hiff.mpr ⟨fun ht => hne (remaining_eq_nil.mpr ht), h.2.trans_lt hdepth⟩

/-- It writes. -/
theorem quiet_write {s : SerialLine T} {t : T} (hother : ∀ u ≠ t, ¬(s.task u).Writes)
    (hempty : s.fifo.waiting.length ≤ 0) (hwrites : remaining (s.task t) ≠ [] → (s.task t).Writes)
    (flags : UInt32) : Quiet 1 (s.event depth (.access t flags)) := by
  have hquiet : ∀ p : Putting, ¬p.Writes → ∀ u, ¬(Function.update s.task t p u).Writes := by
    intro p hp u
    by_cases hu : u = t
    · rw [hu, Function.update_self]
      exact hp
    · rw [Function.update_of_ne hu]
      exact hother u hu
  obtain ⟨c, p, hevent, -, -, hnot⟩ | ⟨p, hevent, hnone, hrest, hiff⟩ :=
    event_access_cases depth s t flags
  · rw [hevent]
    refine ⟨hquiet p hnot, ?_⟩
    dsimp only
    by_cases hroom : s.fifo.waiting.length < depth
    · rw [Fifo.push_of_lt hroom]
      dsimp only
      rw [List.length_append, List.length_singleton]
      omega
    · rw [Fifo.push_of_le (Nat.not_lt.mp hroom)]
      exact hempty.trans (Nat.zero_le 1)
  · rw [hevent]
    refine ⟨hquiet p fun hp => ?_, hempty.trans (Nat.zero_le 1)⟩
    have hne : remaining (s.task t) ≠ [] := fun hnil =>
      (hiff.mp hp).1 (remaining_eq_nil.mp hnil)
    exact hnone (hwrites hne)

/-- The controller sends what it has written. -/
theorem Quiet.send {s : SerialLine T} (h : Quiet 1 s) : Quiet 0 (s.event depth .send) := by
  refine ⟨h.1, ?_⟩
  show s.fifo.pop.waiting.length ≤ 0
  have hone := h.2
  rw [Fifo.waiting_pop, List.length_tail]
  omega

omit [DecidableEq T] in
/-- The events of a turn. -/
theorem turnEvent_eq (turn : Nat → T) (n : Nat) :
    turnEvent turn (3 * n) = .access (turn n) 0 ∧
      turnEvent turn (3 * n + 1) = .access (turn n) 0 ∧ turnEvent turn (3 * n + 2) = .send := by
  refine ⟨?_, ?_, ?_⟩
  · rw [turnEvent, if_neg (by omega), Nat.mul_div_cancel_left n (by decide)]
  · rw [turnEvent, if_neg (by omega), show (3 * n + 1) / 3 = n by omega]
  · rw [turnEvent, if_pos (by omega)]

/-- Between two turns nothing is left over. -/
theorem turnRun_quiet (hdepth : 0 < depth) (turn : Nat → T) (n : Nat) :
    Quiet 0 (turnRun depth text turn (3 * n)) := by
  induction n with
  | zero => exact ⟨fun t => not_writes_start (text t), le_rfl⟩
  | succ n ih =>
    obtain ⟨h₀, h₁, h₂⟩ := turnEvent_eq turn n
    obtain ⟨hother, hempty, hwrites⟩ := ih.poll hdepth (turn n) 0
    have hsent : Quiet 0 ((((turnRun depth text turn (3 * n)).event depth
        (.access (turn n) 0)).event depth (.access (turn n) 0)).event depth .send) :=
      (quiet_write hother hempty hwrites 0).send
    have hrun : turnRun depth text turn (3 * (n + 1)) =
        (((turnRun depth text turn (3 * n)).event depth (turnEvent turn (3 * n))).event depth
          (turnEvent turn (3 * n + 1))).event depth (turnEvent turn (3 * n + 2)) := rfl
    rw [hrun, h₀, h₁, h₂]
    exact hsent

/-- **Turns do not disturb each other.** -/
theorem turnRun_sending (hdepth : 0 < depth) (text : T → List UInt8) (turn : Nat → T) :
    SendingRun depth WritesAlone text (turnRun depth text turn) (turnEvent turn) := by
  refine ⟨rfl, fun i => ?_, fun _ => rfl⟩
  obtain ⟨n, hn⟩ : ∃ n, i = 3 * n ∨ i = 3 * n + 1 ∨ i = 3 * n + 2 := ⟨i / 3, by omega⟩
  obtain ⟨h₀, h₁, h₂⟩ := turnEvent_eq turn n
  have hquiet : Quiet 0 (turnRun depth text turn (3 * n)) := turnRun_quiet hdepth turn n
  obtain rfl | rfl | rfl := hn
  · rw [h₀]
    exact fun hwrites => absurd hwrites (hquiet.1 (turn n))
  · have hother := (hquiet.poll hdepth (turn n) 0).1
    rw [← h₀] at hother
    rw [h₁]
    exact fun _ => hother
  · rw [h₂]
    trivial

omit [DecidableEq T] in
/-- The controller sends again and again. -/
theorem turnEvent_send (turn : Nat → T) : Recurs (turnEvent turn) (· = .send) :=
  fun i => ⟨3 * i + 2, by omega, (turnEvent_eq turn i).2.2⟩

omit [DecidableEq T] in
/-- A task that has its turn again and again goes on again and again. -/
theorem turnEvent_access {turn : Nat → T} {t : T} (h : Recurs turn (· = t)) :
    Recurs (turnEvent turn) fun e => ∃ flags, e = .access t flags := by
  intro i
  obtain ⟨n, hn, hturn⟩ := h i
  exact ⟨3 * n, by omega, 0, by rw [(turnEvent_eq turn n).1, hturn]⟩

/-- Two tasks have their turns one after the other. -/
def bothTurn (n : Nat) : Bool := n % 2 = 1

/-- Each of them again and again. -/
theorem recurs_bothTurn (t : Bool) : Recurs bothTurn (· = t) := by
  intro i
  cases t with
  | false => exact ⟨2 * i, by omega, decide_eq_false (by omega)⟩
  | true => exact ⟨2 * i + 1, by omega, decide_eq_true (by omega)⟩

/-- What two tasks print. -/
def lines (t : Bool) : List UInt8 := if t then chars "eos\n" else chars "HAL\n"

/-- Two tasks print a line each. -/
theorem sends_ends_line :
    ∃ n, ∀ m, n ≤ m → ∀ t, ((turnRun 16 lines bothTurn m).task t).text = [] ∧
      fromLine (bytesOf t (turnRun 16 lines bothTurn m).fifo.delivered) = lines t :=
  sends_ends (turnRun_sending (by decide) lines bothTurn) (by decide) (turnEvent_send bothTurn)
    fun t => turnEvent_access (recurs_bothTurn t)

end Eos.Analysis
