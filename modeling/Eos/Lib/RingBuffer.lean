import Mathlib.Data.List.Basic
import Mathlib.Logic.Function.Basic
import Mathlib.Data.Nat.ModEq

/-!
# Ring buffers of blocks

A buffer is divided into `q` slots of `m` cells; block `n` of an endless sequence of blocks
lies in slot `n % q`.  Blocks less than `q` apart lie in different slots, so writing the
next block cell by cell leaves the blocks of the window behind it alone.
-/

set_option autoImplicit false

namespace Eos.Lib

variable {C : Type}

/-- The cells of the slot of block `n`. -/
def slot (buffer : Nat → C) (q m n : Nat) : List C :=
  (List.range m).map fun i => buffer (m * (n % q) + i)

/-- The slot of the next block, with the wrap at the end of the buffer. -/
theorem succ_mod {q : Nat} (hq : 0 < q) (n : Nat) :
    (n + 1) % q = if n % q + 1 = q then 0 else n % q + 1 := by
  have hlt := Nat.mod_lt n hq
  rw [Nat.add_mod_eq_ite]
  by_cases h1 : q = 1
  · subst h1
    simp [Nat.mod_one]
  · have hone : 1 % q = 1 := Nat.mod_eq_of_lt (by omega)
    rw [hone]
    split <;> split <;> omega

/-- Different blocks of a window of `q` blocks lie in different slots. -/
theorem mod_ne_of_window {q n k : Nat} (hnk : n < k) (hk : k < n + q) : n % q ≠ k % q := by
  intro he
  have hd : q ∣ k - n := (Nat.modEq_iff_dvd' (by omega)).mp he
  have := Nat.le_of_dvd (by omega) hd
  omega

/-- Writing a cell of one slot leaves the other slots alone. -/
theorem slot_update {buffer : Nat → C} {q m n k i : Nat} (hne : n % q ≠ k % q) (hi : i < m)
    (v : C) : slot (Function.update buffer (m * (k % q) + i) v) q m n = slot buffer q m n := by
  refine List.map_congr_left fun j hj => ?_
  have hjm := List.mem_range.mp hj
  refine Function.update_of_ne (fun he => hne ?_) _ _
  have hdiv : ∀ a x, x < m → (m * a + x) / m = a := fun a x hx => by
    rw [Nat.mul_add_div (by omega), Nat.div_eq_of_lt hx, Nat.add_zero]
  rw [← hdiv (n % q) j hjm, ← hdiv (k % q) i hi, he]

/-- The cells of a slot that agree with those of a block. -/
theorem slot_eq_map {buffer block : Nat → C} {q m n : Nat}
    (h : ∀ i < m, buffer (m * (n % q) + i) = block i) :
    slot buffer q m n = (List.range m).map block :=
  List.map_congr_left fun i hi => h i (List.mem_range.mp hi)

end Eos.Lib
