import Eos.Interface.NumberText

/-!
# Printed numbers

`number` prints what it was given (`number_prints`), unless its counter wraps around
(`number_pads`).  Its digits are those of the magnitude, as the division is unsigned
(`digitLoop_eq`).  Its one counter `size` ends up with what the width leaves for padding
(`counter_toInt`), and which of the three loops consumes it depends on the flags; the loops
behind that one find a negative counter (`padWhile_snd`).
-/

set_option autoImplicit false

namespace Eos.Analysis

open Eos.Lib (readNumeral readNumeral_reverse numeralLength numeralLength_le
  numeralLength_of_ne_zero)
open Eos.Model
open Eos.Interface

variable {str tmp digits : List UInt8} {num : Int64}
  {base size precision type : Int32}
  {c : UInt8} {n bound : Int32}

/-! ## Padding -/

/-- The loop appends as many characters as the counter exceeds the bound. -/
theorem padWhile_fst :
    (padWhile c bound str n).1 = str ++ List.replicate (n.toInt - bound.toInt).toNat c := by
  fun_induction padWhile with
  | case1 str n h ih =>
    have hlt : bound.toInt < n.toInt := Int32.lt_iff_toInt_lt.mp h
    have hone : (n.toInt - bound.toInt).toNat = (n.toInt - 1 - bound.toInt).toNat + 1 := by omega
    rw [ih, toInt_pred h, hone, List.replicate_succ, List.append_assoc, List.singleton_append]
  | case2 str n h =>
    have hle : n.toInt ≤ bound.toInt := by
      rw [Int32.lt_iff_toInt_lt] at h
      omega
    rw [Int.toNat_of_nonpos (by omega), List.replicate_zero, List.append_nil]

/-- A counter that can still be decremented is negative behind its loop. -/
theorem padWhile_snd (hn : -2 ^ 31 < n.toInt) :
    (padWhile c 0 str n).2.toInt = min (-1) (n.toInt - 1) := by
  have hone : (1 : Int32).toInt = 1 := rfl
  have hzero : (0 : Int32).toInt = 0 := rfl
  have hhi := n.toInt_lt
  fun_induction padWhile with
  | case1 str n h ih =>
    have hpos : 0 < n.toInt := Int32.lt_iff_toInt_lt.mp h
    have hpred := toInt_pred h
    rw [ih (by omega) (by omega), hpred]
    omega
  | case2 str n h =>
    have hle : n.toInt ≤ 0 := by
      rw [Int32.lt_iff_toInt_lt, hzero] at h
      omega
    rw [Int32.toInt_sub, hone, Int.bmod_eq_of_le (by omega) (by omega)]
    omega

/-! ## Flags -/

/-- The flags without `ZEROPAD` if `LEFT` is set. -/
def paddingFlags (type : Int32) : Int32 :=
  if type &&& Flag.left ≠ 0 then type &&& ~~~Flag.zeropad else type

/-- The other flags stay. -/
theorem paddingFlags_and {flag : Int32} (hflag : ~~~Flag.zeropad &&& flag = flag) :
    paddingFlags type &&& flag = type &&& flag := by
  rw [paddingFlags]
  split
  · rw [Int32.and_assoc, hflag]
  · rfl

/-- `LEFT` stays. -/
theorem paddingFlags_left : paddingFlags type &&& Flag.left = type &&& Flag.left :=
  paddingFlags_and (by decide)

/-- `ZEROPAD` counts only without `LEFT`. -/
theorem paddingFlags_zeropad :
    paddingFlags type &&& Flag.zeropad = 0 ↔
      type &&& Flag.left ≠ 0 ∨ type &&& Flag.zeropad = 0 := by
  rw [paddingFlags]
  split
  case isTrue h =>
    have hnone : ~~~Flag.zeropad &&& Flag.zeropad = 0 := by decide
    rw [Int32.and_assoc, hnone, Int32.and_zero]
    exact iff_of_true rfl (Or.inl h)
  case isFalse h => exact (or_iff_right h).symm

/-- Neither of two flags is set. -/
theorem and_add_flags {flags : Int32} :
    flags &&& (Flag.zeropad + Flag.left) = 0 ↔
      flags &&& Flag.zeropad = 0 ∧ flags &&& Flag.left = 0 := by
  have hsum : Flag.zeropad + Flag.left = Flag.zeropad ||| Flag.left := by decide
  have hzeropad : (Flag.zeropad ||| Flag.left) &&& Flag.zeropad = Flag.zeropad := by decide
  have hleft : (Flag.zeropad ||| Flag.left) &&& Flag.left = Flag.left := by decide
  rw [hsum]
  constructor
  · intro h
    constructor
    · rw [← hzeropad, ← Int32.and_assoc, h, Int32.zero_and]
    · rw [← hleft, ← Int32.and_assoc, h, Int32.zero_and]
  · rintro ⟨h1, h2⟩
    have hor : flags &&& (Flag.zeropad ||| Flag.left) =
        flags &&& Flag.zeropad ||| flags &&& Flag.left :=
      Int32.toBitVec_inj.mp BitVec.and_or_distrib_left
    rw [hor, h1, h2]
    rfl

/-! ## Digits -/

/-- The digit of a value. -/
def digit (digits : List UInt8) (d : Nat) : UInt8 := digits.getD d 0

/-- A base that `number` prints in. -/
theorem base_range (hb : 2 ≤ base.toInt ∧ base.toInt ≤ 36) : ¬(base < 2 ∨ base > 36) := by
  have htwo : (2 : Int32).toInt = 2 := rfl
  have hmax : (36 : Int32).toInt = 36 := rfl
  rw [gt_iff_lt, Int32.lt_iff_toInt_lt, Int32.lt_iff_toInt_lt, htwo, hmax]
  omega

/-- The base as the divisor of the digit loop. -/
theorem base_toNat (hb : 2 ≤ base.toInt) :
    base.toUInt32.toUInt64.toNat = base.toInt.toNat := by
  have hbase : base.toInt = base.toBitVec.toInt := rfl
  have hnat : base.toUInt32.toUInt64.toNat = base.toBitVec.toNat := UInt32.toNat_toUInt64 _
  rw [hbase, BitVec.toInt_eq_toNat_cond] at hb ⊢
  rw [hnat]
  have hlt := base.toBitVec.isLt
  split at hb <;> omega

/-- The remainder is that of the unsigned number. -/
theorem doDiv_fst (hb : 2 ≤ base.toInt) :
    (doDiv num base).1.toNat = num.toUInt64.toNat % base.toInt.toNat := by
  rw [doDiv, UInt64.toNat_mod, base_toNat hb]

/-- The quotient is that of the unsigned number. -/
theorem doDiv_snd (hb : 2 ≤ base.toInt) :
    (doDiv num base).2.toUInt64.toNat = num.toUInt64.toNat / base.toInt.toNat := by
  rw [doDiv, UInt64.toUInt64_toInt64, UInt64.toNat_div, base_toNat hb]

/-- Zero is zero as an unsigned number, and no other number is. -/
theorem toUInt64_eq_zero : num.toUInt64.toNat = 0 ↔ num = 0 := by
  constructor
  · intro h
    exact Int64.toBitVec_inj.mp (BitVec.eq_of_toNat_eq h)
  · rintro rfl
    rfl

/-- **The digit loop** writes the digits of the number as it is without a sign, the last one
first, if there is room for them. -/
theorem digitLoop_eq (hdigits : digits.length = 36) (hb : 2 ≤ base.toInt ∧ base.toInt ≤ 36)
    {room : Nat} (hroom : (Nat.digits base.toInt.toNat num.toUInt64.toNat).length ≤ room) :
    digitLoop digits base room num tmp =
      some (tmp ++ (Nat.digits base.toInt.toNat num.toUInt64.toNat).map (digit digits)) := by
  induction room generalizing num tmp with
  | zero =>
    have hnil := List.eq_nil_of_length_eq_zero (Nat.le_zero.mp hroom)
    have hnum : num = 0 := toUInt64_eq_zero.mp (Nat.digits_eq_nil_iff_eq_zero.mp hnil)
    rw [digitLoop, if_pos hnum, hnil, List.map_nil, List.append_nil]
  | succ room ih =>
    rw [digitLoop]
    by_cases hnum : num = 0
    · rw [if_pos hnum, toUInt64_eq_zero.mpr hnum, Nat.digits_zero, List.map_nil, List.append_nil]
    · have hpos : 0 < num.toUInt64.toNat :=
        Nat.pos_of_ne_zero fun h => hnum (toUInt64_eq_zero.mp h)
      have hsplit := Nat.digits_def' (b := base.toInt.toNat) (by omega) hpos
      rw [hsplit, List.length_cons, ← doDiv_snd hb.1] at hroom
      have hrem : (doDiv num base).1.toNat < digits.length := by
        rw [doDiv_fst hb.1, hdigits]
        have := Nat.mod_lt num.toUInt64.toNat (y := base.toInt.toNat) (by omega)
        omega
      have hget : digits[(doDiv num base).1.toNat]? =
          some (digit digits (num.toUInt64.toNat % base.toInt.toNat)) := by
        rw [digit, ← doDiv_fst hb.1, List.getD_eq_getElem?_getD,
          List.getElem?_eq_getElem hrem, Option.getD_some]
      have hrest : ∀ tmp, digitLoop digits base room (doDiv num base).2 tmp = some (tmp ++
          (Nat.digits base.toInt.toNat (doDiv num base).2.toUInt64.toNat).map (digit digits)) :=
        fun tmp => ih (Nat.le_of_succ_le_succ hroom)
      rw [if_neg hnum, hsplit, List.map_cons, List.append_cons, ← doDiv_snd hb.1, ← hrest]
      simp only [hget, Option.bind_eq_bind, Option.bind_some]

/-- What `tmp` has behind the loop. -/
def lastFirst (base n : Nat) : List Nat := if n = 0 then [0] else Nat.digits base n

/-- There are as many digits as the number has. -/
theorem length_lastFirst {b m : Nat} : (lastFirst b m).length = numeralLength b m := by
  rw [lastFirst]
  split
  case isTrue h => rw [h, numeralLength, Nat.digits_zero]; rfl
  case isFalse h => rw [numeralLength_of_ne_zero h]

/-- The digits are less than the base. -/
theorem lastFirst_lt {b m : Nat} (hb : 2 ≤ b) : ∀ d ∈ lastFirst b m, d < b := by
  intro d hd
  rw [lastFirst] at hd
  split at hd
  · rw [List.mem_singleton] at hd
    omega
  · exact Nat.digits_lt_base hb hd

/-- The digits are those of the number. -/
theorem ofDigits_lastFirst {b m : Nat} : Nat.ofDigits b (lastFirst b m) = m := by
  rw [lastFirst]
  split
  case isTrue h => rw [h, Nat.ofDigits_singleton]
  case isFalse h => exact Nat.ofDigits_digits b m

/-- Both tables have digits up to 35. -/
theorem digitTable_length : (digitTable type).length = 36 := by
  rw [digitTable]
  split <;> rfl

/-- No number has more digits than `tmp` has room for. -/
theorem numberDigits_eq (hb : 2 ≤ base.toInt ∧ base.toInt ≤ 36) :
    numberDigits (digitTable type) num base =
      some ((lastFirst base.toInt.toNat num.toUInt64.toNat).map (digit (digitTable type))) := by
  have hfirst : digit (digitTable type) 0 = '0'.toUInt8 := by
    rw [digitTable]
    split <;> rfl
  have hzero : num.toUInt64.toNat = 0 ↔ num = 0 := toUInt64_eq_zero
  rw [numberDigits, lastFirst]
  by_cases hnum : num = 0
  · rw [if_pos hnum, if_pos (hzero.mpr hnum)]
    rw [List.map_singleton, hfirst]
  · have hne : num.toUInt64.toNat ≠ 0 := fun h => hnum (hzero.mp h)
    have hlength : (Nat.digits base.toInt.toNat num.toUInt64.toNat).length ≤ 64 := by
      rw [← numeralLength_of_ne_zero hne]
      exact numeralLength_le (by omega) (by omega) num.toUInt64.toNat_lt
    rw [if_neg hnum, if_neg hne, digitLoop_eq digitTable_length hb (hlength.trans (by omega)),
      List.nil_append]

/-- The characters of both tables read back as their digits. -/
theorem digitValue_digit :
    ∀ d < 36, digitValue (digit (digitTable type) d) = some d := by
  rw [digitTable]
  split <;> decide

/-! ## Sign and prefix -/

/-- The opposite of a negative number, as an unsigned one, is its magnitude. -/
theorem toUInt64_neg_of_neg (h : num < 0) : (-num).toUInt64.toNat = num.toInt.natAbs := by
  have hneg : (-num).toUInt64.toNat = (-num.toBitVec).toNat := rfl
  have hint : num.toInt = num.toBitVec.toInt := rfl
  have hlt : num.toInt < 0 := Int64.lt_iff_toInt_lt.mp h
  rw [hint, BitVec.toInt_eq_toNat_cond] at hlt ⊢
  rw [hneg, BitVec.toNat_neg]
  have hbound := num.toBitVec.isLt
  split at hlt <;> omega

/-- A number that is not negative is its own magnitude. -/
theorem toUInt64_of_not_neg (h : ¬num < 0) : num.toUInt64.toNat = num.toInt.natAbs := by
  have hnat : num.toUInt64.toNat = num.toBitVec.toNat := rfl
  have hint : num.toInt = num.toBitVec.toInt := rfl
  have hle : ¬num.toInt < 0 := fun hlt => h (Int64.lt_iff_toInt_lt.mpr hlt)
  rw [hint, BitVec.toInt_eq_toNat_cond] at hle ⊢
  rw [hnat]
  have hbound := num.toBitVec.isLt
  split at hle <;> omega

/-- The sign as it is put in front, if there is one. -/
theorem numberSign_fst {flags : Int32} :
    (if (numberSign num size flags).1 ≠ 0 then str ++ [(numberSign num size flags).1] else str) =
      str ++ signText num flags := by
  have hminus : '-'.toUInt8 ≠ 0 := by decide
  have hplus : '+'.toUInt8 ≠ 0 := by decide
  have hspace : ' '.toUInt8 ≠ 0 := by decide
  rw [numberSign, signText]
  split_ifs <;> simp_all

/-- What is divided is the magnitude, also that of the most negative number. -/
theorem numberSign_num {flags : Int32} :
    (numberSign num size flags).2.1.toUInt64.toNat = magnitude num flags := by
  by_cases hsign : flags &&& Flag.sign = 0
  · rw [numberSign, if_neg (not_not.mpr hsign), magnitude, if_pos hsign]
  · rw [numberSign, if_pos hsign, magnitude, if_neg hsign]
    by_cases hneg : num < 0
    · rw [if_pos hneg]
      exact toUInt64_neg_of_neg hneg
    · rw [if_neg hneg, ← toUInt64_of_not_neg hneg]
      split_ifs <;> rfl

/-- A sign takes one character of the width. -/
theorem numberSign_size {flags : Int32} :
    (numberSign num size flags).2.2 = size - Int32.ofNat (signText num flags).length := by
  have hnone : size = size - Int32.ofNat ([] : List UInt8).length := (Int32.sub_zero size).symm
  by_cases hsign : flags &&& Flag.sign = 0
  · rw [numberSign, if_neg (not_not.mpr hsign), signText, if_pos hsign]
    exact hnone
  · rw [numberSign, if_pos hsign, signText, if_neg hsign]
    split_ifs
    iterate 3 rfl
    exact hnone

/-- A prefix takes its length of the width. -/
theorem numberSpecial_eq {flags : Int32} :
    numberSpecial base size flags = size - Int32.ofNat (specialText base flags).length := by
  have hnone : size = size - Int32.ofNat ([] : List UInt8).length := (Int32.sub_zero size).symm
  by_cases hspecial : flags &&& Flag.special = 0
  · rw [numberSpecial, if_neg (not_not.mpr hspecial), specialText, if_pos hspecial]
    exact hnone
  · rw [numberSpecial, if_pos hspecial, specialText, if_neg hspecial]
    by_cases hhex : base = 16
    · subst hhex
      rfl
    · rw [if_neg hhex, if_neg hhex]
      split
      · rfl
      · exact hnone

/-- The prefix as it is put in front, if there is one. -/
theorem putSpecial_eq {flags : Int32} (hlarge : flags &&& Flag.large = type &&& Flag.large) :
    putSpecial (digitTable type) base flags str = some (str ++ specialText base flags) := by
  have hletter : (digitTable type)[33]? =
      some (if flags &&& Flag.large ≠ 0 then 'X'.toUInt8 else 'x'.toUInt8) := by
    rw [hlarge, digitTable]
    split <;> rfl
  by_cases hspecial : flags &&& Flag.special = 0
  · rw [putSpecial, if_neg (not_not.mpr hspecial), specialText, if_pos hspecial, List.append_nil]
  · rw [putSpecial, if_pos hspecial, specialText, if_neg hspecial]
    by_cases hoctal : base = 8
    · rw [if_pos hoctal, if_pos hoctal]
    · rw [if_neg hoctal, if_neg hoctal]
      by_cases hhex : base = 16
      · rw [if_pos hhex, if_pos hhex, hletter, Option.bind_eq_bind, Option.bind_some,
          List.append_assoc, List.singleton_append]
        rfl
      · rw [if_neg hhex, if_neg hhex, List.append_nil]

/-! ## The text -/

/-- The digits are put in the opposite order. -/
theorem putDigits_eq {i : Nat} (hi : i ≤ tmp.length) :
    putDigits tmp i str = some (str ++ (tmp.take i).reverse) := by
  induction i generalizing str with
  | zero => rw [putDigits, List.take_zero, List.reverse_nil, List.append_nil]
  | succ i ih =>
    have hget : tmp[i]? = some tmp[i] := List.getElem?_eq_getElem hi
    have htake : tmp.take (i + 1) = tmp.take i ++ [tmp[i]] := List.take_succ_eq_append_getElem hi
    rw [putDigits, hget, htake, List.reverse_append, List.reverse_singleton,
      ← List.append_assoc, ← ih (Nat.le_of_succ_le hi)]
    rfl

/-- The digits of a number as they are printed. -/
def digitText (num : Int64) (base type : Int32) : List UInt8 :=
  ((lastFirst base.toInt.toNat (magnitude num type)).map (digit (digitTable type))).reverse

/-- The digits put are those of the magnitude. -/
theorem length_digitText :
    (digitText num base type).length = numeralLength base.toInt.toNat (magnitude num type) := by
  rw [digitText, List.length_reverse, List.length_map, length_lastFirst]

/-- A magnitude is a 64-bit number. -/
theorem magnitude_lt : magnitude num type < 2 ^ 64 := by
  rw [magnitude]
  split
  · exact num.toUInt64.toNat_lt
  · have hlo := num.le_toInt
    have hhi := num.toInt_lt
    omega

/-- The number of digits fits an `int`. -/
theorem digitText_toInt (hb : 2 ≤ base.toInt) :
    (Int32.ofNat (digitText num base type).length).toInt = (digitText num base type).length := by
  have hlength : (digitText num base type).length ≤ 64 := by
    rw [length_digitText]
    exact numeralLength_le (by omega) (by omega) magnitude_lt
  exact Int32.toInt_ofNat_of_lt (by omega)

/-- `precision` behind the digits. -/
def leastDigits (num : Int64) (base precision type : Int32) : Int32 :=
  if Int32.ofNat (digitText num base type).length > precision then
    Int32.ofNat (digitText num base type).length
  else precision

/-- `precision` behind the digits is the larger of both. -/
theorem leastDigits_toInt (hb : 2 ≤ base.toInt) :
    (leastDigits num base precision type).toInt =
      max precision.toInt (digitText num base type).length := by
  rw [leastDigits]
  split
  case isTrue h =>
    rw [gt_iff_lt, Int32.lt_iff_toInt_lt, digitText_toInt hb] at h
    rw [digitText_toInt hb]
    omega
  case isFalse h =>
    rw [gt_iff_lt, Int32.lt_iff_toInt_lt, digitText_toInt hb] at h
    omega

/-- `size` ahead of the padding. -/
def counter (num : Int64) (base size precision type : Int32) : Int32 :=
  size - Int32.ofNat (signText num type).length - Int32.ofNat (specialText base type).length -
    leastDigits num base precision type

/-- A sign is one character at most. -/
theorem signText_length_le : (signText num type).length ≤ 1 := by
  rw [signText]
  split_ifs <;> decide

/-- A prefix is two characters at most. -/
theorem specialText_length_le : (specialText base type).length ≤ 2 := by
  rw [specialText]
  split_ifs <;> simp

/-- A difference that is not out of range below. -/
theorem sub_toInt {a b : Int32} (hb : 0 ≤ b.toInt) (hfit : -2 ^ 31 ≤ a.toInt - b.toInt) :
    (a - b).toInt = a.toInt - b.toInt := by
  have ha := a.toInt_lt
  rw [Int32.toInt_sub, Int.bmod_eq_of_le (by omega) (by omega)]

/-- The characters of a number are its sign, its prefix and its digits with their zeros. -/
theorem contentLength_eq :
    contentLength num base precision type =
      (signText num type).length + (specialText base type).length +
        max precision.toInt (digitText num base type).length := by
  rw [length_digitText, contentLength]

/-- The contributions to the counter leave what the width has for padding. -/
theorem counter_toInt (hb : 2 ≤ base.toInt)
    (hfit : -2 ^ 31 ≤ size.toInt - contentLength num base precision type) :
    (counter num base size precision type).toInt =
      size.toInt - contentLength num base precision type := by
  have hsign : (Int32.ofNat (signText num type).length).toInt = (signText num type).length :=
    Int32.toInt_ofNat_of_lt (signText_length_le.trans_lt (by decide))
  have hspecial : (Int32.ofNat (specialText base type).length).toInt =
      (specialText base type).length :=
    Int32.toInt_ofNat_of_lt (specialText_length_le.trans_lt (by decide))
  have hleast : (leastDigits num base precision type).toInt =
      max precision.toInt (digitText num base type).length := leastDigits_toInt hb
  rw [contentLength_eq] at hfit ⊢
  have hfirst : (size - Int32.ofNat (signText num type).length).toInt =
      size.toInt - (signText num type).length := by
    rw [sub_toInt (by omega) (by omega), hsign]
  have hsecond : (size - Int32.ofNat (signText num type).length -
      Int32.ofNat (specialText base type).length).toInt =
      size.toInt - (signText num type).length - (specialText base type).length := by
    rw [sub_toInt (by omega) (by omega), hfirst, hspecial]
  rw [counter, sub_toInt (by omega) (by omega), hsecond, hleast]
  omega

/-- `ZEROPAD` does not change the sign. -/
theorem signText_paddingFlags : signText num (paddingFlags type) = signText num type := by
  simp (disch := decide) only [signText, paddingFlags_and]

/-- `ZEROPAD` does not change the prefix. -/
theorem specialText_paddingFlags :
    specialText base (paddingFlags type) = specialText base type := by
  simp (disch := decide) only [specialText, paddingFlags_and]

/-- `ZEROPAD` does not change the magnitude. -/
theorem magnitude_paddingFlags : magnitude num (paddingFlags type) = magnitude num type := by
  simp (disch := decide) only [magnitude, paddingFlags_and]

/-- `number` with its parts; the three loops that consume the counter are left. -/
theorem number_eq (hb : 2 ≤ base.toInt ∧ base.toInt ≤ 36) :
    number str num base size precision type =
      let flags := paddingFlags type
      let c := if flags &&& Flag.zeropad ≠ 0 then '0'.toUInt8 else ' '.toUInt8
      let size := counter num base size precision type
      let spaces :=
        if flags &&& (Flag.zeropad + Flag.left) = 0 then padWhile ' '.toUInt8 0 str size
        else (str, size)
      let front := spaces.1 ++ signText num type ++ specialText base type
      let zeros :=
        if flags &&& Flag.left = 0 then padWhile c 0 front spaces.2 else (front, spaces.2)
      let missing := (precision.toInt - (digitText num base type).length).toNat
      some (padWhile ' '.toUInt8 0
        (zeros.1 ++ List.replicate missing '0'.toUInt8 ++ digitText num base type) zeros.2).1 := by
  have hlarge : paddingFlags type &&& Flag.large = type &&& Flag.large :=
    paddingFlags_and (by decide)
  have hflags : (if type &&& Flag.left ≠ 0 then type &&& ~~~Flag.zeropad else type) =
      paddingFlags type := rfl
  have htmp : numberDigits (digitTable type) (numberSign num size (paddingFlags type)).2.1 base =
      some (digitText num base type).reverse := by
    rw [numberDigits_eq hb, numberSign_num, magnitude_paddingFlags, digitText, List.reverse_reverse]
  have hcounter : numberSpecial base (numberSign num size (paddingFlags type)).2.2
      (paddingFlags type) - leastDigits num base precision type =
      counter num base size precision type := by
    rw [numberSpecial_eq, numberSign_size, signText_paddingFlags, specialText_paddingFlags, counter]
  have hmissing : ∀ front : List UInt8, (padWhile '0'.toUInt8
      (Int32.ofNat (digitText num base type).length) front
      (leastDigits num base precision type)).1 = front ++
        List.replicate (precision.toInt - (digitText num base type).length).toNat '0'.toUInt8 := by
    intro front
    have hcount : max precision.toInt (digitText num base type).length -
        (digitText num base type).length =
        max (precision.toInt - (digitText num base type).length) 0 := by omega
    rw [padWhile_fst, leastDigits_toInt hb.1, digitText_toInt hb.1, hcount]
    congr 2
    omega
  have hdigits : ∀ front : List UInt8, putDigits (digitText num base type).reverse
      (digitText num base type).length front = some (front ++ digitText num base type) := by
    intro front
    have hlength : (digitText num base type).reverse.length = (digitText num base type).length :=
      List.length_reverse
    rw [putDigits_eq hlength.ge, ← hlength, List.take_length, List.reverse_reverse]
  simp only [number, hflags, if_neg (base_range hb), htmp, Option.bind_eq_bind, Option.bind_some,
    List.length_reverse, ← leastDigits.eq_1, hcounter, numberSign_fst, putSpecial_eq hlarge,
    signText_paddingFlags, specialText_paddingFlags, hmissing, hdigits]
  rfl

/-! ## Where the padding is -/

/-- The text with `before` and `after` spaces, and `extra` zeros for padding. -/
def paddedText (num : Int64) (base precision type : Int32) (before extra after : Nat) :
    NumberText where
  before := before
  sign := signText num type
  special := specialText base type
  zeros := extra + (precision.toInt - (digitText num base type).length).toNat
  digits := digitText num base type
  after := after

/-- A counter that is not positive pads nothing. -/
theorem padWhile_fst_of_nonpos (hn : n.toInt ≤ 0) : (padWhile c 0 str n).1 = str := by
  have hzero : (0 : Int32).toInt = 0 := rfl
  rw [padWhile_fst, hzero, Int.toNat_of_nonpos (by omega), List.replicate_zero, List.append_nil]

/-- With `LEFT` the third loop has the padding. -/
theorem number_of_left (hb : 2 ≤ base.toInt ∧ base.toInt ≤ 36) (hleft : type &&& Flag.left ≠ 0)
    (hfit : -2 ^ 31 ≤ size.toInt - contentLength num base precision type) :
    number str num base size precision type =
      some (str ++ (paddedText num base precision type 0 0
        (size.toInt - contentLength num base precision type).toNat).text) := by
  have hnone : ¬paddingFlags type &&& (Flag.zeropad + Flag.left) = 0 := by
    rw [and_add_flags, paddingFlags_left]
    exact fun h => hleft h.2
  have hright : ¬paddingFlags type &&& Flag.left = 0 := by
    rw [paddingFlags_left]
    exact hleft
  have hzero : (0 : Int32).toInt = 0 := rfl
  simp only [number_eq hb, if_neg hnone, if_neg hright, padWhile_fst, counter_toInt hb.1 hfit,
    hzero, Int.sub_zero, NumberText.text, paddedText, List.replicate_zero, List.nil_append,
    Nat.zero_add, List.append_assoc]

/-- With `ZEROPAD` alone the second loop has it. -/
theorem number_of_zeropad (hb : 2 ≤ base.toInt ∧ base.toInt ≤ 36)
    (hleft : type &&& Flag.left = 0) (hzeropad : type &&& Flag.zeropad ≠ 0)
    (hfit : -2 ^ 31 < size.toInt - contentLength num base precision type) :
    number str num base size precision type =
      some (str ++ (paddedText num base precision type 0
        (size.toInt - contentLength num base precision type).toNat 0).text) := by
  have hzeros : paddingFlags type &&& Flag.zeropad ≠ 0 := by
    rw [Ne, paddingFlags_zeropad]
    simp [hleft, hzeropad]
  have hnone : ¬paddingFlags type &&& (Flag.zeropad + Flag.left) = 0 := by
    rw [and_add_flags]
    exact fun h => hzeros h.1
  have hright : paddingFlags type &&& Flag.left = 0 := by
    rw [paddingFlags_left]
    exact hleft
  have hzero : (0 : Int32).toInt = 0 := rfl
  have hcounter := counter_toInt hb.1 hfit.le
  have hbehind : ∀ front, (padWhile '0'.toUInt8 0 front
      (counter num base size precision type)).2.toInt ≤ 0 := by
    intro front
    rw [padWhile_snd (by omega)]
    omega
  simp only [number_eq hb, if_neg hnone, if_pos hright, if_pos hzeros,
    padWhile_fst_of_nonpos (hbehind _), padWhile_fst, hcounter,
    hzero, Int.sub_zero, NumberText.text, paddedText, List.replicate_zero, List.nil_append,
    List.append_nil, List.replicate_add, List.append_assoc]

/-- Without both all three loops print spaces. -/
theorem number_eq_spaces (hb : 2 ≤ base.toInt ∧ base.toInt ≤ 36)
    (hleft : type &&& Flag.left = 0) (hzeropad : type &&& Flag.zeropad = 0) :
    number str num base size precision type =
      let first := padWhile ' '.toUInt8 0 str (counter num base size precision type)
      let second := padWhile ' '.toUInt8 0
        (first.1 ++ signText num type ++ specialText base type) first.2
      let missing := (precision.toInt - (digitText num base type).length).toNat
      some (padWhile ' '.toUInt8 0
        (second.1 ++ List.replicate missing '0'.toUInt8 ++ digitText num base type)
        second.2).1 := by
  have hspaces : paddingFlags type &&& Flag.zeropad = 0 :=
    paddingFlags_zeropad.mpr (Or.inr hzeropad)
  have hright : paddingFlags type &&& Flag.left = 0 := by
    rw [paddingFlags_left]
    exact hleft
  have hboth : paddingFlags type &&& (Flag.zeropad + Flag.left) = 0 :=
    and_add_flags.mpr ⟨hspaces, hright⟩
  simp only [number_eq hb, if_pos hboth, if_pos hright, hspaces, ne_eq, not_true_eq_false, if_false]

/-- The first of them has the padding. -/
theorem number_of_plain (hb : 2 ≤ base.toInt ∧ base.toInt ≤ 36)
    (hleft : type &&& Flag.left = 0) (hzeropad : type &&& Flag.zeropad = 0)
    (hfit : -2 ^ 31 + 1 < size.toInt - contentLength num base precision type) :
    number str num base size precision type =
      some (str ++ (paddedText num base precision type
        (size.toInt - contentLength num base precision type).toNat 0 0).text) := by
  have hzero : (0 : Int32).toInt = 0 := rfl
  have hcounter : (counter num base size precision type).toInt =
      size.toInt - contentLength num base precision type := counter_toInt hb.1 (by omega)
  have hfirst : (padWhile ' '.toUInt8 0 str (counter num base size precision type)).2.toInt =
      min (-1) (size.toInt - contentLength num base precision type - 1) := by
    rw [padWhile_snd (by omega), hcounter]
  have hsecond : ∀ front, (padWhile ' '.toUInt8 0 front
      (padWhile ' '.toUInt8 0 str (counter num base size precision type)).2).2.toInt ≤ 0 := by
    intro front
    rw [padWhile_snd (by omega)]
    omega
  have hnonpos :
      (padWhile ' '.toUInt8 0 str (counter num base size precision type)).2.toInt ≤ 0 := by
    omega
  simp only [number_eq_spaces hb hleft hzeropad, padWhile_fst_of_nonpos (hsecond _),
    padWhile_fst_of_nonpos hnonpos, padWhile_fst, hcounter, hzero, Int.sub_zero, NumberText.text,
    paddedText, List.replicate_zero, List.append_nil, Nat.zero_add, List.append_assoc]

/-- The digits read back as the magnitude. -/
theorem readNumeral_digitText (hb : 2 ≤ base.toInt ∧ base.toInt ≤ 36) :
    readNumeral digitValue base.toInt.toNat (digitText num base type) =
      some (magnitude num type) := by
  have htable : ∀ d < base.toInt.toNat, digitValue (digit (digitTable type) d) = some d := by
    intro d hd
    exact digitValue_digit d (by omega)
  rw [digitText, readNumeral_reverse htable (lastFirst_lt (by omega)), ofDigits_lastFirst]

/-- Text with the padding that the width leaves, on the side that the flags ask for. -/
theorem prints_paddedText {before extra after : Nat}
    (hb : 2 ≤ base.toInt ∧ base.toInt ≤ 36)
    (hsum : before + extra + after = (size.toInt - contentLength num base precision type).toNat)
    (hbefore : 0 < before → type &&& Flag.left = 0 ∧ type &&& Flag.zeropad = 0)
    (hextra : 0 < extra → type &&& Flag.left = 0 ∧ type &&& Flag.zeropad ≠ 0)
    (hafter : 0 < after → type &&& Flag.left ≠ 0) :
    Prints num base size precision type
      (paddedText num base precision type before extra after) where
  sign_eq := rfl
  special_eq := rfl
  read_back := readNumeral_digitText hb
  digits_length := length_digitText
  precision_le := by
    simp only [paddedText]
    omega
  text_length := by
    rw [contentLength_eq] at hsum ⊢
    simp only [paddedText, NumberText.text, List.length_append, List.length_replicate]
    omega
  before_of := hbefore
  zeros_of := by
    intro h
    simp only [paddedText] at h
    exact hextra (by omega)
  after_of := hafter

/-- **`number` prints what it was given**, if neither `size - precision` nor a decrement that is
tested again overflows.  It has a result, so it indexes neither `tmp` nor the digits out of range,
and the result is the text of the number. -/
theorem number_prints (hb : 2 ≤ base.toInt ∧ base.toInt ≤ 36)
    (hfit : -2 ^ 31 ≤
      size.toInt - contentLength num base precision type - furtherTests type) :
    ∃ t, number str num base size precision type = some (str ++ t.text) ∧
      Prints num base size precision type t := by
  rw [furtherTests] at hfit
  by_cases hleft : type &&& Flag.left = 0
  · rw [if_neg (not_not.mpr hleft)] at hfit
    by_cases hzeropad : type &&& Flag.zeropad = 0
    · rw [if_neg (not_not.mpr hzeropad)] at hfit
      refine ⟨_, number_of_plain hb hleft hzeropad (by omega), prints_paddedText hb rfl ?_ ?_ ?_⟩
      · exact fun _ => ⟨hleft, hzeropad⟩
      · exact fun h => absurd h (lt_irrefl 0)
      · exact fun h => absurd h (lt_irrefl 0)
    · rw [if_pos hzeropad] at hfit
      refine ⟨_, number_of_zeropad hb hleft hzeropad (by omega),
        prints_paddedText hb (by omega) ?_ ?_ ?_⟩
      · exact fun h => absurd h (lt_irrefl 0)
      · exact fun _ => ⟨hleft, hzeropad⟩
      · exact fun h => absurd h (lt_irrefl 0)
  · rw [if_pos hleft] at hfit
    refine ⟨_, number_of_left hb hleft (by omega), prints_paddedText hb (by omega) ?_ ?_ ?_⟩
    · exact fun h => absurd h (lt_irrefl 0)
    · exact fun h => absurd h (lt_irrefl 0)
    · exact fun _ => hleft

/-- The most negative number, with zeros in front. -/
theorem number_prints_least :
    ∃ t, number [] Int64.minValue 10 25 (-1) (Flag.sign ||| Flag.zeropad) = some ([] ++ t.text) ∧
      Prints Int64.minValue 10 25 (-1) (Flag.sign ||| Flag.zeropad) t :=
  number_prints (by decide) (by decide)

/-! ## A decrement that wraps around -/

/-- A counter that cannot be decremented is the greatest one behind its loop. -/
theorem padWhile_snd_of_least (hn : n.toInt = -2 ^ 31) :
    (padWhile c 0 str n).2.toInt = 2 ^ 31 - 1 := by
  have hone : (1 : Int32).toInt = 1 := rfl
  have hzero : (0 : Int32).toInt = 0 := rfl
  rw [padWhile, if_neg]
  · rw [Int32.toInt_sub, hone, hn]
    rfl
  · rw [Int32.lt_iff_toInt_lt, hzero, hn]
    decide

/-- Without `LEFT` and `ZEROPAD`, a counter that cannot be decremented makes the second loop print
`2^31 - 1` spaces behind the prefix, whatever the width is. -/
theorem number_of_least (hb : 2 ≤ base.toInt ∧ base.toInt ≤ 36)
    (hleft : type &&& Flag.left = 0) (hzeropad : type &&& Flag.zeropad = 0)
    (hleast : size.toInt - contentLength num base precision type = -2 ^ 31) :
    number str num base size precision type =
      some (str ++ signText num type ++ specialText base type ++
        List.replicate (2 ^ 31 - 1) ' '.toUInt8 ++
        List.replicate (precision.toInt - (digitText num base type).length).toNat '0'.toUInt8 ++
        digitText num base type) := by
  have hzero : (0 : Int32).toInt = 0 := rfl
  have hcounter : (counter num base size precision type).toInt = -2 ^ 31 :=
    (counter_toInt hb.1 (by omega)).trans hleast
  have hnonpos : (counter num base size precision type).toInt ≤ 0 := by
    rw [hcounter]
    decide
  have hwrapped : (padWhile ' '.toUInt8 0 str (counter num base size precision type)).2.toInt =
      2 ^ 31 - 1 := padWhile_snd_of_least hcounter
  have hsecond : ∀ front, (padWhile ' '.toUInt8 0 front
      (padWhile ' '.toUInt8 0 str (counter num base size precision type)).2).1 =
      front ++ List.replicate (2 ^ 31 - 1) ' '.toUInt8 := by
    intro front
    rw [padWhile_fst, hwrapped, hzero]
    rfl
  have hthird : ∀ front, (padWhile ' '.toUInt8 0 front
      (padWhile ' '.toUInt8 0 str (counter num base size precision type)).2).2.toInt ≤ 0 := by
    intro front
    rw [padWhile_snd (by omega)]
    omega
  simp only [number_eq_spaces hb hleft hzeropad, hsecond, padWhile_fst_of_nonpos hnonpos,
    padWhile_fst_of_nonpos (hthird _)]

/-- **The test `size-- > 0` overflows** with width -1 and precision 2147483647, where the difference
is in range: behind the first loop `size` is 2147483647, and as many spaces too many follow. -/
theorem number_pads :
    (-1 : Int32).toInt - (2147483647 : Int32).toInt = -2 ^ 31 ∧
      ¬∃ t, number [] 0 10 (-1) 2147483647 0 = some t.text ∧ Prints 0 10 (-1) 2147483647 0 t := by
  refine ⟨by decide, ?_⟩
  rintro ⟨t, ht, hprints⟩
  have hdigits : (digitText 0 10 0).length = 1 := by decide
  have hcontent : contentLength 0 10 2147483647 0 = 2 ^ 31 - 1 := by decide
  have hleast : (-1 : Int32).toInt - contentLength 0 10 2147483647 0 = -2 ^ 31 := by
    rw [hcontent]
    rfl
  have hnumber : number [] 0 10 (-1) 2147483647 0 = _ :=
    number_of_least (by decide) (by decide) (by decide) hleast
  have hspaces := congrArg List.length (Option.some.inj (ht.symm.trans hnumber))
  have hlength := hprints.text_length
  have hprecision : (2147483647 : Int32).toInt = 2 ^ 31 - 1 := rfl
  have hsize : (-1 : Int32).toInt = -1 := rfl
  simp only [List.length_append, List.length_replicate, hdigits] at hspaces
  rw [hcontent, hsize] at hlength
  omega

end Eos.Analysis
