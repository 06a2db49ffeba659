import Mathlib.Data.List.Basic

/-!
# Formatted output of `core/common.c`

`vsprintf` and the routines it uses.  A string is a buffer of characters, and a read behind the
end of a buffer has no result; the buffer that is printed to has what lies between `buf` and
`str`.  Strings, buffers and the memory that `%n` writes to do not overlap.  A `va_list` is a
sequence of words, of which each `va_arg` takes the next one.

The integers are those of the machine: an `int` has 32 bits and a `long` 64, a `char` is
unsigned, and arithmetic wraps around.
-/

set_option autoImplicit false

namespace Eos.Model

/-- The characters of a string constant. -/
def chars (s : String) : List UInt8 := s.toList.map Char.toUInt8

/-- `is_digit` -/
def isDigit (c : UInt8) : Bool := '0'.toUInt8 ≤ c && c ≤ '9'.toUInt8

namespace Flag

/-- `ZEROPAD`: pad with zero -/
def zeropad : Int32 := 1

/-- `SIGN`: unsigned/signed long -/
def sign : Int32 := 2

/-- `PLUS`: show plus -/
def plus : Int32 := 4

/-- `SPACE`: space if plus -/
def space : Int32 := 8

/-- `LEFT`: left justified -/
def left : Int32 := 16

/-- `SPECIAL`: 0x -/
def special : Int32 := 32

/-- `LARGE`: use 'ABCDEF' instead of 'abcdef' -/
def large : Int32 := 64

end Flag

/-! ## Padding -/

/-- An `int` that is greater than another one can be decremented. -/
theorem toInt_pred {n bound : Int32} (h : bound < n) : (n - 1).toInt = n.toInt - 1 := by
  have hlo := bound.le_toInt
  have hhi := n.toInt_lt
  have hone : (1 : Int32).toInt = 1 := rfl
  rw [Int32.lt_iff_toInt_lt] at h
  rw [Int32.toInt_sub, hone, Int.bmod_eq_of_le (by omega) (by omega)]

/-- `while (bound < n--) *str++ = c;`: the text, and `n` behind the loop. -/
def padWhile (c : UInt8) (bound : Int32) (str : List UInt8) (n : Int32) : List UInt8 × Int32 :=
  if bound < n then padWhile c bound (str ++ [c]) (n - 1) else (str, n - 1)
termination_by (n.toInt - bound.toInt).toNat
decreasing_by
  rename_i h
  rw [toInt_pred h]
  rw [Int32.lt_iff_toInt_lt] at h
  omega

/-- `while (--n > 0) *str++ = ' ';`: the text, and `n` behind the loop. -/
def padBefore (str : List UInt8) (n : Int32) : List UInt8 × Int32 :=
  if 0 < n - 1 then padBefore (str ++ [' '.toUInt8]) (n - 1) else (str, n - 1)
termination_by (n - 1).toInt.toNat
decreasing_by
  rename_i h
  rw [toInt_pred h]
  have hzero : (0 : Int32).toInt = 0 := rfl
  rw [Int32.lt_iff_toInt_lt, hzero] at h
  omega

/-! ## `number` (core/common.c:136-214) -/

/-- `digits`, the digits of all bases. -/
def digitTable (type : Int32) : List UInt8 :=
  if type &&& Flag.large ≠ 0 then chars "0123456789ABCDEFGHIJKLMNOPQRSTUVWXYZ"
  else chars "0123456789abcdefghijklmnopqrstuvwxyz"

/-- `do_div`: the remainder, and `n` divided (core/common.c:102-106). -/
def doDiv (n : Int64) (base : Int32) : UInt64 × Int64 :=
  (n.toUInt64 % base.toUInt32.toUInt64, (n.toUInt64 / base.toUInt32.toUInt64).toInt64)

/-- The sign (core/common.c:152-165): `sign`, `num` and `size` behind it. -/
def numberSign (num : Int64) (size type : Int32) : UInt8 × Int64 × Int32 :=
  if type &&& Flag.sign ≠ 0 then
    if num < 0 then ('-'.toUInt8, -num, size - 1)
    else if type &&& Flag.plus ≠ 0 then ('+'.toUInt8, num, size - 1)
    else if type &&& Flag.space ≠ 0 then (' '.toUInt8, num, size - 1)
    else (0, num, size)
  else (0, num, size)

/-- The room for the prefix (core/common.c:167-173). -/
def numberSpecial (base size type : Int32) : Int32 :=
  if type &&& Flag.special ≠ 0 then
    if base = 16 then size - 2
    else if base = 8 then size - 1
    else size
  else size

/-- `while (num != 0) tmp[i++] = digits[do_div(num,base)];`, where `tmp` has the characters so far
and room for `room` more. -/
def digitLoop (digits : List UInt8) (base : Int32) :
    Nat → Int64 → List UInt8 → Option (List UInt8)
  | room, num, tmp =>
    if num = 0 then some tmp
    else
      match room with
      | 0 => none
      | room + 1 => do
        let (rem, num) := doDiv num base
        let c ← digits[rem.toNat]?
        digitLoop digits base room num (tmp ++ [c])

/-- The digits, the last one first (core/common.c:175-181); `tmp` has 66 characters. -/
def numberDigits (digits : List UInt8) (num : Int64) (base : Int32) : Option (List UInt8) :=
  if num = 0 then some ['0'.toUInt8] else digitLoop digits base 66 num []

/-- The prefix (core/common.c:191-198). -/
def putSpecial (digits : List UInt8) (base type : Int32) (str : List UInt8) :
    Option (List UInt8) :=
  if type &&& Flag.special ≠ 0 then
    if base = 8 then some (str ++ ['0'.toUInt8])
    else if base = 16 then do
      let c ← digits[33]?
      return str ++ ['0'.toUInt8] ++ [c]
    else some str
  else some str

/-- `while (i-- > 0) *str++ = tmp[i];` -/
def putDigits (tmp : List UInt8) : Nat → List UInt8 → Option (List UInt8)
  | 0, str => some str
  | i + 1, str => do
    let c ← tmp[i]?
    putDigits tmp i (str ++ [c])

/-- `number` (core/common.c:136-214).  There is no result for a base out of range, for which it
returns `NULL`. -/
def number (str : List UInt8) (num : Int64) (base size precision type : Int32) :
    Option (List UInt8) :=
  let digits := digitTable type
  let type := if type &&& Flag.left ≠ 0 then type &&& ~~~Flag.zeropad else type
  if base < 2 ∨ base > 36 then none
  else do
    let c := if type &&& Flag.zeropad ≠ 0 then '0'.toUInt8 else ' '.toUInt8
    let (sign, num, size) := numberSign num size type
    let size := numberSpecial base size type
    let tmp ← numberDigits digits num base
    let i := Int32.ofNat tmp.length
    let precision := if i > precision then i else precision
    let size := size - precision
    let (str, size) :=
      if type &&& (Flag.zeropad + Flag.left) = 0 then padWhile ' '.toUInt8 0 str size
      else (str, size)
    let str := if sign ≠ 0 then str ++ [sign] else str
    let str ← putSpecial digits base type str
    let (str, size) :=
      if type &&& Flag.left = 0 then padWhile c 0 str size else (str, size)
    let (str, _) := padWhile '0'.toUInt8 i str precision
    let str ← putDigits tmp tmp.length str
    let (str, _) := padWhile ' '.toUInt8 0 str size
    return str

/-! ## `strnlen` and `skip_atoi` (core/common.c:109-133) -/

/-- `strnlen`: at most `count` characters of `s` are read. -/
def strnlen : List UInt8 → UInt64 → Option Nat
  | s, count =>
    if count = 0 then some 0
    else
      match s with
      | [] => none
      | c :: s => if c = 0 then some 0 else (strnlen s (count - 1)).map (· + 1)

/-- A character as an `int`. -/
def charInt (c : UInt8) : Int32 := Int32.ofNat c.toNat

/-- A character that is read is there. -/
theorem lt_length_of_read {fmt : List UInt8} {p : Nat} {c : UInt8} (h : fmt[p]? = some c) :
    p < fmt.length :=
  (List.getElem?_eq_some_iff.mp h).choose

/-- `skip_atoi` from the position `p` of the format on, where `i` has been read: the position behind
the number, and the number. -/
def skipAtoi (fmt : List UInt8) (p : Nat) (i : Int32) : Option (Nat × Int32) :=
  match h : fmt[p]? with
  | none => none
  | some c =>
    if isDigit c then skipAtoi fmt (p + 1) (i * 10 + charInt c - charInt '0'.toUInt8)
    else some (p, i)
termination_by fmt.length - p
decreasing_by
  have hlt := lt_length_of_read h
  omega

/-! ## `vsprintf` (core/common.c:217-395) -/

/-- A value that `%n` writes. -/
inductive Store where
  | long (ip : UInt64) (value : Int64)
  | int (ip : UInt64) (value : Int32)
  deriving DecidableEq

/-- The variables of the main loop: where it is in the format, how many arguments it has taken, and
what it has written. -/
structure Printer where
  fmt : Nat
  taken : Nat
  str : List UInt8
  stores : List Store
  deriving DecidableEq

/-- What stands between a `%` and the conversion at `fmt`. -/
structure Spec where
  fmt : Nat
  taken : Nat
  flags : Int32
  fieldWidth : Int32
  precision : Int32
  qualifier : Int32
  deriving DecidableEq

/-- The arguments: the words of the `va_list`, and what is in the memory behind the pointers to
strings. -/
structure Args where
  word : Nat → UInt64
  string : UInt64 → List UInt8

/-- `va_arg(args, int)` -/
def Args.int (args : Args) (taken : Nat) : Int32 := (args.word taken).toUInt32.toInt32

/-- The flag that a character stands for, or 0 (core/common.c:242-248). -/
def flagOf (c : UInt8) : Int32 :=
  if c = '-'.toUInt8 then Flag.left
  else if c = '+'.toUInt8 then Flag.plus
  else if c = ' '.toUInt8 then Flag.space
  else if c = '#'.toUInt8 then Flag.special
  else if c = '0'.toUInt8 then Flag.zeropad
  else 0

/-- The flags (core/common.c:238-248): `repeat` from the position `p` on, which it skips. -/
def repeatFlags (fmt : List UInt8) (p : Nat) (flags : Int32) : Option (Nat × Int32) :=
  match h : fmt[p + 1]? with
  | none => none
  | some c =>
    if flagOf c ≠ 0 then repeatFlags fmt (p + 1) (flags ||| flagOf c) else some (p + 1, flags)
termination_by fmt.length - p
decreasing_by
  have hlt := lt_length_of_read h
  omega

/-- The field width (core/common.c:250-262). -/
def getFieldWidth (fmt : List UInt8) (args : Args) (spec : Spec) : Option Spec := do
  let c ← fmt[spec.fmt]?
  if isDigit c then
    let (p, width) ← skipAtoi fmt spec.fmt 0
    return { spec with fmt := p, fieldWidth := width }
  else if c = '*'.toUInt8 then
    let width := args.int spec.taken
    let spec := { spec with fmt := spec.fmt + 1, taken := spec.taken + 1 }
    if width < 0 then
      return { spec with fieldWidth := -width, flags := spec.flags ||| Flag.left }
    else return { spec with fieldWidth := width }
  else return { spec with fieldWidth := -1 }

/-- The precision behind the `.` (core/common.c:268-274). -/
def getPrecisionValue (fmt : List UInt8) (args : Args) (spec : Spec) : Option Spec := do
  let c ← fmt[spec.fmt]?
  if isDigit c then
    let (p, precision) ← skipAtoi fmt spec.fmt 0
    return { spec with fmt := p, precision := precision }
  else if c = '*'.toUInt8 then
    return { spec with
      fmt := spec.fmt + 1, taken := spec.taken + 1, precision := args.int spec.taken }
  else return { spec with precision := -1 }

/-- The precision (core/common.c:264-277). -/
def getPrecision (fmt : List UInt8) (args : Args) (spec : Spec) : Option Spec := do
  let c ← fmt[spec.fmt]?
  if c = '.'.toUInt8 then
    let spec ← getPrecisionValue fmt args { spec with fmt := spec.fmt + 1 }
    return if spec.precision < 0 then { spec with precision := 0 } else spec
  else return { spec with precision := -1 }

/-- The conversion qualifier (core/common.c:279-284). -/
def getQualifier (fmt : List UInt8) (spec : Spec) : Option Spec := do
  let c ← fmt[spec.fmt]?
  if c = 'h'.toUInt8 ∨ c = 'l'.toUInt8 ∨ c = 'L'.toUInt8 then
    return { spec with fmt := spec.fmt + 1, qualifier := charInt c }
  else return { spec with qualifier := -1 }

/-- From a `%` at the position `p` to the conversion (core/common.c:238-284). -/
def getSpec (fmt : List UInt8) (args : Args) (p taken : Nat) : Option Spec := do
  let (p, flags) ← repeatFlags fmt p 0
  let spec ← getFieldWidth fmt args
    { fmt := p, taken := taken, flags := flags, fieldWidth := -1, precision := -1, qualifier := -1 }
  let spec ← getPrecision fmt args spec
  getQualifier fmt spec

/-- `for (i = 0; i < len; ++i) *str++ = *s++;` -/
def copyChars : Nat → List UInt8 → List UInt8 → Option (List UInt8)
  | 0, _, str => some str
  | _ + 1, [], _ => none
  | n + 1, c :: s, str => copyChars n s (str ++ [c])

/-- `%c` (core/common.c:290-300) -/
def convertChar (args : Args) (spec : Spec) (str : List UInt8) : List UInt8 :=
  let (str, width) :=
    if spec.flags &&& Flag.left = 0 then padBefore str spec.fieldWidth
    else (str, spec.fieldWidth)
  let str := str ++ [(args.word spec.taken).toUInt8]
  (padBefore str width).1

/-- `%s` (core/common.c:302-320) -/
def convertString (args : Args) (spec : Spec) (str : List UInt8) : Option (List UInt8) := do
  let ptr := args.word spec.taken
  let s := if ptr = 0 then chars "<NULL>" ++ [0] else args.string ptr
  let n ← strnlen s spec.precision.toInt64.toUInt64
  let len := Int32.ofNat n
  let (str, width) :=
    if spec.flags &&& Flag.left = 0 then padWhile ' '.toUInt8 len str spec.fieldWidth
    else (str, spec.fieldWidth)
  let str ← copyChars len.toInt.toNat s str
  return (padWhile ' '.toUInt8 len str width).1

/-- `%p` (core/common.c:322-332) -/
def convertPointer (args : Args) (spec : Spec) (str : List UInt8) : Option (List UInt8) :=
  let ptr := (args.word spec.taken).toInt64
  if spec.fieldWidth = -1 then
    number str ptr 16 (2 * 8) spec.precision (spec.flags ||| Flag.zeropad)
  else number str ptr 16 spec.fieldWidth spec.precision spec.flags

/-- `%n` (core/common.c:334-343) -/
def convertCount (args : Args) (spec : Spec) (str : List UInt8) : Store :=
  let ip := args.word spec.taken
  if spec.qualifier = charInt 'l'.toUInt8 then .long ip (Int64.ofNat str.length)
  else .int ip (Int32.ofNat str.length)

/-- The argument of an integer conversion (core/common.c:377-387). -/
def integerArg (args : Args) (spec : Spec) (flags : Int32) : Int64 :=
  let word := args.word spec.taken
  if spec.qualifier = charInt 'l'.toUInt8 then word.toInt64
  else if spec.qualifier = charInt 'h'.toUInt8 then
    if flags &&& Flag.sign ≠ 0 then word.toUInt16.toInt16.toInt64
    else word.toUInt16.toUInt64.toInt64
  else if flags &&& Flag.sign ≠ 0 then word.toUInt32.toInt32.toInt64
  else word.toUInt32.toUInt64.toInt64

/-- An integer conversion (core/common.c:377-389). -/
def convertInteger (args : Args) (spec : Spec) (base flags : Int32) (str : List UInt8) :
    Option (List UInt8) :=
  number str (integerArg args spec flags) base spec.fieldWidth spec.precision flags

/-- The conversion at `spec.fmt` (core/common.c:286-389). -/
def convert (fmt : List UInt8) (args : Args) (spec : Spec) (str : List UInt8)
    (stores : List Store) : Option Printer := do
  let c ← fmt[spec.fmt]?
  -- a conversion that takes an argument and writes `str`
  let one (str : List UInt8) : Printer := ⟨spec.fmt, spec.taken + 1, str, stores⟩
  if c = 'c'.toUInt8 then return one (convertChar args spec str)
  else if c = 's'.toUInt8 then (convertString args spec str).map one
  else if c = 'p'.toUInt8 then (convertPointer args spec str).map one
  else if c = 'n'.toUInt8 then
    return ⟨spec.fmt, spec.taken + 1, str, stores ++ [convertCount args spec str]⟩
  else if c = '%'.toUInt8 then return ⟨spec.fmt, spec.taken, str ++ ['%'.toUInt8], stores⟩
  else if c = 'o'.toUInt8 then (convertInteger args spec 8 spec.flags str).map one
  else if c = 'X'.toUInt8 then
    (convertInteger args spec 16 (spec.flags ||| Flag.large) str).map one
  else if c = 'x'.toUInt8 then (convertInteger args spec 16 spec.flags str).map one
  else if c = 'd'.toUInt8 ∨ c = 'i'.toUInt8 then
    (convertInteger args spec 10 (spec.flags ||| Flag.sign) str).map one
  else if c = 'u'.toUInt8 then (convertInteger args spec 10 spec.flags str).map one
  else if c ≠ 0 then return ⟨spec.fmt, spec.taken, str ++ ['%'.toUInt8] ++ [c], stores⟩
  else return ⟨spec.fmt - 1, spec.taken, str ++ ['%'.toUInt8], stores⟩

/-- One round of the main loop, at a character that is not the terminator
(core/common.c:233-389). -/
def formatRound (fmt : List UInt8) (args : Args) (c : UInt8) (s : Printer) : Option Printer :=
  if c ≠ '%'.toUInt8 then some { s with str := s.str ++ [c] }
  else do
    let spec ← getSpec fmt args s.fmt s.taken
    convert fmt args spec s.str s.stores

/-- The main loop (core/common.c:232-390); each round takes one unit of fuel. -/
def formatLoop (fmt : List UInt8) (args : Args) : Nat → Printer → Option Printer
  | 0, _ => none
  | fuel + 1, s => do
    let c ← fmt[s.fmt]?
    if c = 0 then return s
    else do
      let s ← formatRound fmt args c s
      formatLoop fmt args fuel { s with fmt := s.fmt + 1 }

/-- What `vsprintf` leaves: the buffer, what `%n` has written, and the value it returns. -/
structure Printed where
  buf : List UInt8
  stores : List Store
  returned : Int32
  deriving DecidableEq

/-- `vsprintf` (core/common.c:217-395) -/
def vsprintf (fmt : List UInt8) (args : Args) (fuel : Nat) : Option Printed := do
  let s ← formatLoop fmt args fuel ⟨0, 0, [], []⟩
  return ⟨s.str ++ [0], s.stores, Int32.ofNat s.str.length⟩

end Eos.Model
