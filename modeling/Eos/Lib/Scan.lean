import Mathlib.Data.List.Basic

/-!
# Reading a sequence from a position on

A scanner is at a position of the sequence it reads.  `Ahead fmt p rest` says what it has still
ahead of it; reading and stepping follow the constructors of `rest`.
-/

set_option autoImplicit false

namespace Eos.Lib

variable {A : Type} {fmt rest rest' : List A} {p : Nat} {a : A}

/-- From the position `p` on there is `rest`. -/
def Ahead (fmt : List A) (p : Nat) (rest : List A) : Prop := fmt.drop p = rest

namespace Ahead

/-- At the start the whole format lies ahead. -/
theorem start (fmt : List A) : Ahead fmt 0 fmt := List.drop_zero

/-- What is read next. -/
theorem read (h : Ahead fmt p (a :: rest)) : fmt[p]? = some a := by
  rw [← List.head?_drop, h, List.head?_cons]

/-- Behind the end there is nothing to read. -/
theorem read_nil (h : Ahead fmt p []) : fmt[p]? = none := by
  rw [← List.head?_drop, h, List.head?_nil]

/-- What is read is the first of what lies ahead. -/
theorem read_head (h : Ahead fmt p rest) : fmt[p]? = rest.head? := by
  rw [← List.head?_drop, h]

/-- One step. -/
theorem next (h : Ahead fmt p (a :: rest)) : Ahead fmt (p + 1) rest := by
  rw [Ahead, ← List.drop_drop, h, List.drop_one, List.tail_cons]

/-- Several steps. -/
theorem skip (h : Ahead fmt p (rest ++ rest')) : Ahead fmt (p + rest.length) rest' := by
  rw [Ahead, ← List.drop_drop, h, List.drop_left]

end Ahead

end Eos.Lib
