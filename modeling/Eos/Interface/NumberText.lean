import Eos.Lib.Numeral
import Eos.Model.Format

/-!
# What a printed number is to look like

`NumberText` has the parts of a printed number: padding, sign, prefix, zeros, digits and padding.
`Prints` says which parts belong to a number and the arguments it is printed with: its digits
are read back as its magnitude, its sign and its prefix are those that the flags ask for, and
it fills its width with as many spaces or zeros as it needs, on the one side they ask for.
-/

set_option autoImplicit false

namespace Eos.Interface

open Eos.Lib (readNumeral numeralLength)
open Eos.Model

/-- What a character stands for as a digit. -/
def digitValue (c : UInt8) : Option Nat :=
  if isDigit c then some (c.toNat - '0'.toNat)
  else if 'a'.toUInt8 ≤ c ∧ c ≤ 'z'.toUInt8 then some (c.toNat - 'a'.toNat + 10)
  else if 'A'.toUInt8 ≤ c ∧ c ≤ 'Z'.toUInt8 then some (c.toNat - 'A'.toNat + 10)
  else none

/-- The parts of a printed number. -/
structure NumberText where
  /-- the spaces in front -/
  before : Nat
  sign : List UInt8
  special : List UInt8
  zeros : Nat
  digits : List UInt8
  /-- the spaces behind -/
  after : Nat

/-- The text. -/
def NumberText.text (t : NumberText) : List UInt8 :=
  List.replicate t.before ' '.toUInt8 ++ t.sign ++ t.special ++
    List.replicate t.zeros '0'.toUInt8 ++ t.digits ++ List.replicate t.after ' '.toUInt8

/-- The sign of a number. -/
def signText (num : Int64) (type : Int32) : List UInt8 :=
  if type &&& Flag.sign = 0 then []
  else if num < 0 then ['-'.toUInt8]
  else if type &&& Flag.plus ≠ 0 then ['+'.toUInt8]
  else if type &&& Flag.space ≠ 0 then [' '.toUInt8]
  else []

/-- The prefix of a base. -/
def specialText (base type : Int32) : List UInt8 :=
  if type &&& Flag.special = 0 then []
  else if base = 8 then ['0'.toUInt8]
  else if base = 16 then
    ['0'.toUInt8, if type &&& Flag.large ≠ 0 then 'X'.toUInt8 else 'x'.toUInt8]
  else []

/-- The magnitude of a number, which is signed or not. -/
def magnitude (num : Int64) (type : Int32) : Nat :=
  if type &&& Flag.sign = 0 then num.toUInt64.toNat else num.toInt.natAbs

/-- How many characters a number has without padding. -/
def contentLength (num : Int64) (base precision type : Int32) : Int :=
  (signText num type).length + (specialText base type).length +
    max precision.toInt (numeralLength base.toInt.toNat (magnitude num type))

/-- How often the counter `size` is tested again behind the loop that consumes the padding; each
loop that ends has decremented it once more. -/
def furtherTests (type : Int32) : Int :=
  if type &&& Flag.left ≠ 0 then 0 else if type &&& Flag.zeropad ≠ 0 then 1 else 2

/-- The parts belong to the number `num` in base `base`, printed with a width, a precision and
flags. -/
structure Prints (num : Int64) (base size precision type : Int32) (t : NumberText) : Prop where
  sign_eq : t.sign = signText num type
  special_eq : t.special = specialText base type
  /-- the digits are read back -/
  read_back : readNumeral digitValue base.toInt.toNat t.digits = some (magnitude num type)
  /-- there are no more digits than needed -/
  digits_length : t.digits.length = numeralLength base.toInt.toNat (magnitude num type)
  precision_le : precision.toInt ≤ t.zeros + t.digits.length
  text_length : (t.text.length : Int) = max size.toInt (contentLength num base precision type)
  /-- spaces in front only if neither `LEFT` nor `ZEROPAD` is set -/
  before_of : 0 < t.before → type &&& Flag.left = 0 ∧ type &&& Flag.zeropad = 0
  /-- more zeros than the precision asks for only if `ZEROPAD` is set and `LEFT` is not -/
  zeros_of : max precision.toInt t.digits.length < t.zeros + t.digits.length →
    type &&& Flag.left = 0 ∧ type &&& Flag.zeropad ≠ 0
  /-- spaces behind only if `LEFT` is set -/
  after_of : 0 < t.after → type &&& Flag.left ≠ 0

end Eos.Interface
