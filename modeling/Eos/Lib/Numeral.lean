import Mathlib.Data.Nat.Digits.Lemmas

/-!
# Positional numerals

A numeral is a sequence of characters, the most significant digit first.  What a character
stands for is a partial map `value`; `readNumeral` is the number that a numeral stands for in
a base, if it is one.  A numeral that is written from the least significant digit on is read
back (`readNumeral_reverse`).
-/

set_option autoImplicit false

namespace Eos.Lib

variable {C : Type} {value : C → Option Nat} {base n : Nat} {c : C} {cs : List C}

/-- One more digit behind the number `n`. -/
def readDigit (value : C → Option Nat) (base n : Nat) (c : C) : Option Nat :=
  (value c).bind fun d => if d < base then some (n * base + d) else none

/-- The number a numeral stands for. -/
def readNumeral (value : C → Option Nat) (base : Nat) (cs : List C) : Option Nat :=
  cs.foldlM (readDigit value base) 0

/-- The last digit is read behind all others. -/
theorem readNumeral_append_singleton :
    readNumeral value base (cs ++ [c]) =
      (readNumeral value base cs).bind fun n => readDigit value base n c := by
  simp only [readNumeral, List.foldlM_append, List.foldlM_cons, List.foldlM_nil, bind_pure]
  rfl

/-- A digit that is less than the base is appended to the number. -/
theorem readDigit_eq {d : Nat} (hv : value c = some d) (hd : d < base) :
    readDigit value base n c = some (n * base + d) := by
  rw [readDigit, hv, Option.bind_some, if_pos hd]

/-- **Digits are read back**: the characters of the digits `ds`, the last one written first. -/
theorem readNumeral_reverse {table : Nat → C} (htable : ∀ d < base, value (table d) = some d)
    {ds : List Nat} (hds : ∀ d ∈ ds, d < base) :
    readNumeral value base (ds.map table).reverse = some (Nat.ofDigits base ds) := by
  induction ds with
  | nil => rfl
  | cons d ds ih =>
    have hd : d < base := hds d List.mem_cons_self
    have ih := ih fun e he => hds e (List.mem_cons_of_mem d he)
    rw [List.map_cons, List.reverse_cons, readNumeral_append_singleton, ih, Option.bind_some,
      readDigit_eq (htable d hd) hd, Nat.ofDigits_cons, Nat.mul_comm, Nat.add_comm]

/-- How many digits a number has. -/
def numeralLength (base n : Nat) : Nat := max 1 (Nat.digits base n).length

/-- A number other than 0 has as many digits as `Nat.digits` says. -/
theorem numeralLength_of_ne_zero (hn : n ≠ 0) :
    numeralLength base n = (Nat.digits base n).length := by
  have hne : Nat.digits base n ≠ [] := Nat.digits_ne_nil_iff_ne_zero.mpr hn
  exact max_eq_right (List.length_pos_iff.mpr hne)

/-- No number below `2 ^ k` has more than `k` digits. -/
theorem numeralLength_le {k : Nat} (hb : 1 < base) (hk : 0 < k) (hn : n < 2 ^ k) :
    numeralLength base n ≤ k := by
  apply max_le hk
  rw [Nat.digits_length_le_iff hb]
  exact hn.trans_le (Nat.pow_le_pow_left hb k)

/-- The digits of a number, the last one first; zero has one digit. -/
def numeralDigits (base n : Nat) : List Nat := if n = 0 then [0] else Nat.digits base n

/-- The numeral of a number. -/
def numeral (table : Nat → C) (base n : Nat) : List C :=
  ((numeralDigits base n).map table).reverse

/-- A numeral is as long as its number has digits. -/
theorem length_numeral (table : Nat → C) :
    (numeral table base n).length = numeralLength base n := by
  rw [numeral, List.length_reverse, List.length_map, numeralDigits]
  split
  case isTrue h =>
    rw [h, numeralLength, Nat.digits_zero]
    rfl
  case isFalse h => rw [numeralLength_of_ne_zero h]

/-- **A numeral is read back.** -/
theorem readNumeral_numeral (hb : 1 < base) {table : Nat → C}
    (htable : ∀ d < base, value (table d) = some d) :
    readNumeral value base (numeral table base n) = some n := by
  have hdigits : ∀ d ∈ numeralDigits base n, d < base := by
    intro d hd
    rw [numeralDigits] at hd
    split at hd
    · rw [List.mem_singleton] at hd
      omega
    · exact Nat.digits_lt_base hb hd
  rw [numeral, readNumeral_reverse htable hdigits, numeralDigits]
  split
  case isTrue h => rw [h, Nat.ofDigits_singleton]
  case isFalse => rw [Nat.ofDigits_digits]

/-- Zeros in front change nothing. -/
theorem readNumeral_replicate {zero : C} (hb : 0 < base) (hzero : value zero = some 0) (k : Nat) :
    readNumeral value base (List.replicate k zero ++ cs) = readNumeral value base cs := by
  induction k with
  | zero => rfl
  | succ k ih =>
    have hdigit : readDigit value base 0 zero = some 0 := by
      rw [readDigit_eq hzero hb, Nat.zero_mul]
    rw [← ih, List.replicate_succ, List.cons_append, readNumeral, List.foldlM_cons, hdigit]
    rfl

/-- The digits of a number, the last one first; as long as there is `room`. -/
def writeDigits (table : Nat → C) (base : Nat) : Nat → Nat → List C → List C
  | 0, _, cs => cs
  | room + 1, n, cs =>
    if n = 0 then cs else writeDigits table base room (n / base) (cs ++ [table (n % base)])

/-- With enough room all digits are written. -/
theorem writeDigits_eq {table : Nat → C} (hb : 1 < base) {room : Nat}
    (hroom : (Nat.digits base n).length ≤ room) :
    writeDigits table base room n cs = cs ++ (Nat.digits base n).map table := by
  induction room generalizing n cs with
  | zero =>
    have hnil := List.eq_nil_of_length_eq_zero (Nat.le_zero.mp hroom)
    rw [writeDigits, hnil, List.map_nil, List.append_nil]
  | succ room ih =>
    rw [writeDigits]
    by_cases hn : n = 0
    · rw [if_pos hn, hn, Nat.digits_zero, List.map_nil, List.append_nil]
    · have hsplit := Nat.digits_def' hb (Nat.pos_of_ne_zero hn)
      rw [hsplit, List.length_cons] at hroom
      rw [if_neg hn, hsplit, ih (Nat.le_of_succ_le_succ hroom), List.map_cons, List.append_assoc,
        List.singleton_append]

end Eos.Lib
