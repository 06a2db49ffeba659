import Mathlib.Data.List.Basic

/-!
# A bounded buffer in front of a line

What is pushed waits in a buffer of bounded depth until the line takes it; what is pushed while
the buffer is full is lost.  What has been accepted is what has been delivered and what waits: it
only grows at its end (`accepted_push`, `accepted_pop`).
-/

set_option autoImplicit false

namespace Eos.Lib

/-- A buffer with what the line has taken from it, and what has been lost. -/
structure Fifo (A : Type) where
  waiting : List A
  delivered : List A
  lost : List A

namespace Fifo

variable {A : Type} {depth : Nat} {f : Fifo A} {a : A}

/-- Nothing waits, and nothing has been delivered or lost. -/
def empty : Fifo A := ⟨[], [], []⟩

/-- The buffer takes `a` if there is room. -/
def push (depth : Nat) (f : Fifo A) (a : A) : Fifo A :=
  if f.waiting.length < depth then { f with waiting := f.waiting ++ [a] }
  else { f with lost := f.lost ++ [a] }

/-- The line takes the oldest element, if there is one. -/
def pop (f : Fifo A) : Fifo A :=
  match f.waiting with
  | [] => f
  | a :: waiting => { f with waiting := waiting, delivered := f.delivered ++ [a] }

/-- What the buffer has taken, in order. -/
def accepted (f : Fifo A) : List A := f.delivered ++ f.waiting

/-- Where there is room, an element waits at the end. -/
theorem push_of_lt (h : f.waiting.length < depth) :
    f.push depth a = { f with waiting := f.waiting ++ [a] } := if_pos h

/-- Without room, it is lost. -/
theorem push_of_le (h : depth ≤ f.waiting.length) :
    f.push depth a = { f with lost := f.lost ++ [a] } := if_neg (Nat.not_lt.mpr h)

/-- An element there is room for is accepted. -/
theorem accepted_push (h : f.waiting.length < depth) :
    (f.push depth a).accepted = f.accepted ++ [a] := by
  rw [push_of_lt h, accepted, accepted, List.append_assoc]

/-- Taking an element out does not change what has been accepted. -/
@[simp] theorem accepted_pop : f.pop.accepted = f.accepted := by
  rw [pop]
  split
  case h_1 => rfl
  case h_2 a waiting h => simp only [accepted, h, List.append_assoc, List.singleton_append]

/-- Taking an element out loses none. -/
@[simp] theorem lost_pop : f.pop.lost = f.lost := by
  rw [pop]
  split <;> rfl

/-- The first element is taken out. -/
theorem waiting_pop : f.pop.waiting = f.waiting.tail := by
  rw [pop]
  split
  case h_1 h => rw [h, List.tail_nil]
  case h_2 a waiting h => rw [h, List.tail_cons]

/-- No more elements wait after one was taken out. -/
theorem length_pop_le : f.pop.waiting.length ≤ f.waiting.length := by
  rw [waiting_pop, List.length_tail]
  exact Nat.sub_le _ _

/-- The buffer never holds more than its depth. -/
theorem length_push_le (h : f.waiting.length ≤ depth) :
    (f.push depth a).waiting.length ≤ depth := by
  rw [push]
  split
  case isTrue hlt =>
    rw [List.length_append, List.length_singleton]
    exact hlt
  case isFalse => exact h

end Fifo

end Eos.Lib
