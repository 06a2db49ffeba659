import Eos.Interface.NumberText

/-!
# What a format is to print

A format of `vsprintf` is a sequence of pieces: characters, and directives with flags, a width,
a precision, a qualifier and a conversion.  `FormatSpells` says which pieces a format consists of;
a directive may be cut by the end of the format.  `FormatPiece.print` is what a piece stands for
with the arguments that are next.
-/

set_option autoImplicit false

namespace Eos.Interface

open Eos.Lib (readNumeral numeral)
open Eos.Model

/-! ## Directives -/

/-- A width or a precision: the digits of a number, or `*` for an argument. -/
inductive Amount
  | digits (ds : List UInt8)
  | star
  deriving DecidableEq

namespace Amount

/-- How an amount is written. -/
def spelling : Amount → List UInt8
  | digits ds => ds
  | star => ['*'.toUInt8]

/-- How many arguments it takes. -/
def takes : Amount → Nat
  | digits _ => 0
  | star => 1

/-- The number; `arg` is the next argument. -/
def value (arg : Int) : Amount → Int
  | digits ds => (readNumeral digitValue 10 ds).getD 0
  | star => arg

end Amount

/-- What stands between a `%` and the conversion, and the conversion. -/
structure Directive where
  flags : List UInt8
  width : Option Amount
  /-- what stands behind the `.`, if there is one -/
  precision : Option (Option Amount)
  qualifier : Option UInt8
  conversion : UInt8
  deriving DecidableEq

/-- A condition on the next character. -/
def NextIs (rest : List UInt8) (ok : UInt8 → Prop) : Prop := ∀ c ∈ rest.head?, ok c

/-- An optional amount is read from a format where `rest` is left behind it: there are digits up
to the first other character, or a `*`, or neither of both. -/
def AmountReads (amount : Option Amount) (rest : List UInt8) : Prop :=
  match amount with
  | none => NextIs rest fun c => ¬isDigit c ∧ c ≠ '*'.toUInt8
  | some (.digits ds) => ds ≠ [] ∧ (∀ c ∈ ds, isDigit c) ∧ NextIs rest fun c => ¬isDigit c
  | some .star => True

namespace Directive

/-- How the width is written. -/
def widthSpelling (d : Directive) : List UInt8 := (d.width.map Amount.spelling).getD []

/-- How the precision is written, with its dot. -/
def precisionSpelling (d : Directive) : List UInt8 :=
  match d.precision with
  | none => []
  | some amount => '.'.toUInt8 :: (amount.map Amount.spelling).getD []

/-- All up to the conversion. -/
def spelling (d : Directive) : List UInt8 :=
  '%'.toUInt8 :: (d.flags ++ (d.widthSpelling ++ (d.precisionSpelling ++ d.qualifier.toList)))

/-- The parts of a directive are read one after the other, each one as far as it goes; the
conversion is the first character of `rest`. -/
structure Reads (d : Directive) (rest : List UInt8) : Prop where
  flags : ∀ c ∈ d.flags, flagOf c ≠ 0
  flags_end : NextIs (d.widthSpelling ++ (d.precisionSpelling ++ (d.qualifier.toList ++ rest)))
    fun c => flagOf c = 0
  width : AmountReads d.width (d.precisionSpelling ++ (d.qualifier.toList ++ rest))
  precision_none : d.precision = none →
    NextIs (d.qualifier.toList ++ rest) fun c => c ≠ '.'.toUInt8
  precision_some : ∀ amount, d.precision = some amount →
    AmountReads amount (d.qualifier.toList ++ rest)
  qualifier_none : d.qualifier = none → NextIs rest fun c => c ∉ chars "hlL"
  qualifier_some : ∀ c, d.qualifier = some c → c ∈ chars "hlL"
  conversion : rest.head? = some d.conversion

end Directive

/-! ## Formats -/

/-- A piece of a format. -/
inductive FormatPiece
  | text (c : UInt8)
  | directive (d : Directive)
  deriving DecidableEq

/-- The pieces of a format, with its terminator. -/
inductive FormatSpells : List FormatPiece → List UInt8 → Prop
  | nil : FormatSpells [] [0]
  | text {c : UInt8} {ps : List FormatPiece} {fmt : List UInt8} : c ≠ 0 → c ≠ '%'.toUInt8 →
      FormatSpells ps fmt → FormatSpells (.text c :: ps) (c :: fmt)
  | directive {d : Directive} {ps : List FormatPiece} {fmt : List UInt8} : d.conversion ≠ 0 →
      d.Reads (d.conversion :: fmt) → FormatSpells ps fmt →
      FormatSpells (.directive d :: ps) (d.spelling ++ d.conversion :: fmt)
  /-- the format ends within a directive -/
  | cut {d : Directive} : d.Reads [0] → FormatSpells [.directive d] (d.spelling ++ [0])

/-! ## Meaning -/

/-- A directive with its arguments: its flags, its width and its precision, and how many arguments
have been taken for them. -/
structure Field where
  flags : Int32
  width : Int
  precision : Int
  taken : Nat

namespace Directive

/-- The flags, and `LEFT` for a negative width. -/
def field (args : Args) (taken : Nat) (d : Directive) : Field :=
  let flags := d.flags.foldl (fun flags c => flags ||| flagOf c) 0
  let arg := (args.int taken).toInt
  let behind := taken + (d.width.map Amount.takes).getD 0
  let precision := (args.int behind).toInt
  { flags := if d.width = some .star ∧ arg < 0 then flags ||| Flag.left else flags
    width := match d.width with
      | none => -1
      | some (.digits ds) => (Amount.digits ds).value 0
      | some .star => |arg|
    precision := match d.precision with
      | none => -1
      | some none => 0
      | some (some amount) => max 0 (amount.value precision)
    taken := match d.precision with
      | some (some amount) => behind + amount.takes
      | _ => behind }

end Directive

/-- The text of a number with a width and a precision: `LEFT` has the padding behind it, `ZEROPAD`
as zeros, and without both it is in front. -/
def numberText (num : Int64) (base type : Int32) (width precision : Int) : List UInt8 :=
  let digits := numeral (fun d => (digitTable type).getD d 0) base.toInt.toNat (magnitude num type)
  let sign := signText num type
  let special := specialText base type
  let zeros := (precision - digits.length).toNat
  let room := (width - (sign.length + special.length + zeros + digits.length : Nat)).toNat
  let left := decide (type &&& Flag.left ≠ 0)
  let zeropad := decide (type &&& Flag.zeropad ≠ 0)
  NumberText.text
    { before := if left || zeropad then 0 else room
      sign := sign
      special := special
      zeros := if !left && zeropad then room + zeros else zeros
      digits := digits
      after := if left then room else 0 }

/-- A text that fills its width with spaces, behind it if `LEFT` is set. -/
def filled (flags : Int32) (width : Int) (text : List UInt8) : List UInt8 :=
  let spaces := List.replicate (width - text.length).toNat ' '.toUInt8
  if flags &&& Flag.left ≠ 0 then text ++ spaces else spaces ++ text

/-- The string behind a pointer, up to its terminator and as far as the precision goes. -/
def stringText (args : Args) (ptr : UInt64) (precision : Int) : List UInt8 :=
  let s := if ptr = 0 then chars "<NULL>" else (args.string ptr).takeWhile fun c => c ≠ 0
  if precision < 0 then s else s.take precision.toNat

/-- How many arguments have been taken, what has been printed and what `%n` has written. -/
structure Rendering where
  taken : Nat
  str : List UInt8
  stores : List Store
  deriving DecidableEq

namespace Rendering

/-- More text, without an argument. -/
def put (r : Rendering) (text : List UInt8) : Rendering := { r with str := r.str ++ text }

/-- The text of an argument. -/
def putArg (r : Rendering) (field : Field) (text : List UInt8) : Rendering :=
  { r with taken := field.taken + 1, str := r.str ++ text }

end Rendering

/-- An integer argument, as wide as the qualifier says. -/
def integerValue (word : UInt64) (qualifier : Option UInt8) (flags : Int32) : Int64 :=
  if qualifier = some 'l'.toUInt8 then word.toInt64
  else if qualifier = some 'h'.toUInt8 then
    if flags &&& Flag.sign ≠ 0 then word.toUInt16.toInt16.toInt64
    else word.toUInt16.toUInt64.toInt64
  else if flags &&& Flag.sign ≠ 0 then word.toUInt32.toInt32.toInt64
  else word.toUInt32.toUInt64.toInt64

/-- The base of an integer conversion, and the flag that it stands for. -/
def integerBase (c : UInt8) : Option (Int32 × Int32) :=
  if c = 'o'.toUInt8 then some (8, 0)
  else if c = 'X'.toUInt8 then some (16, Flag.large)
  else if c = 'x'.toUInt8 then some (16, 0)
  else if c = 'd'.toUInt8 ∨ c = 'i'.toUInt8 then some (10, Flag.sign)
  else if c = 'u'.toUInt8 then some (10, 0)
  else none

/-- The meaning of a directive. -/
def Directive.print (args : Args) (r : Rendering) (d : Directive) : Rendering :=
  let f := d.field args r.taken
  let word := args.word f.taken
  let c := d.conversion
  if c = 'c'.toUInt8 then r.putArg f (filled f.flags f.width [word.toUInt8])
  else if c = 's'.toUInt8 then
    r.putArg f (filled f.flags f.width (stringText args word f.precision))
  else if c = 'p'.toUInt8 then
    -- without a width, a pointer has all its digits
    if f.width = -1 then
      r.putArg f (numberText word.toInt64 16 (f.flags ||| Flag.zeropad) 16 f.precision)
    else r.putArg f (numberText word.toInt64 16 f.flags f.width f.precision)
  else if c = 'n'.toUInt8 then
    { r with
      taken := f.taken + 1
      stores := r.stores ++ [if d.qualifier = some 'l'.toUInt8 then
        .long word (Int64.ofNat r.str.length) else .int word (Int32.ofNat r.str.length)] }
  else if c = '%'.toUInt8 then { r with taken := f.taken, str := r.str ++ ['%'.toUInt8] }
  else
    match integerBase c with
    | some (base, flag) =>
      r.putArg f (numberText (integerValue word d.qualifier (f.flags ||| flag)) base
        (f.flags ||| flag) f.width f.precision)
    | none =>
      { r with
        taken := f.taken
        str := r.str ++ if c = 0 then ['%'.toUInt8] else ['%'.toUInt8, c] }

/-- The meaning of a piece. -/
def FormatPiece.print (args : Args) (r : Rendering) : FormatPiece → Rendering
  | text c => { r with str := r.str ++ [c] }
  | directive d => d.print args r

/-- What a sequence of pieces prints. -/
def printAll (args : Args) (ps : List FormatPiece) (r : Rendering) : Rendering :=
  ps.foldl (FormatPiece.print args) r

/-! ## The range of `int` -/

/-- A number that is written out fits an `int`, also with the last character before `'0'` is
subtracted from it. -/
def AmountFits (amount : Option Amount) : Prop :=
  ∀ ds, amount = some (.digits ds) → (Amount.digits ds).value 0 + 48 < 2 ^ 31

namespace Directive

/-- The conversion prints a number. -/
def IsNumber (d : Directive) : Prop :=
  d.conversion = 'p'.toUInt8 ∨ (integerBase d.conversion).isSome

/-- The conversion prints a string. -/
def IsString (d : Directive) : Prop := d.conversion = 's'.toUInt8

instance (d : Directive) : Decidable d.IsString := inferInstanceAs (Decidable (_ = _))

/-- The conversion fills its width. -/
def Fills (d : Directive) : Prop := d.conversion = 'c'.toUInt8 ∨ d.IsString ∨ d.IsNumber

/-- A precision that is written out fits an `int`. -/
def PrecisionFits (d : Directive) : Prop :=
  ∀ amount, d.precision = some amount → AmountFits amount

/-- The string argument is terminated, or has as many characters as the precision asks for. -/
def StringEnds (args : Args) (taken : Nat) (d : Directive) : Prop :=
  args.word (d.field args taken).taken ≠ 0 →
    0 ∈ args.string (args.word (d.field args taken).taken) ∨
      0 ≤ (d.field args taken).precision ∧ (d.field args taken).precision ≤
        (args.string (args.word (d.field args taken).taken)).length

/-- Widths, precisions and lengths with which `int` arithmetic does not overflow: those that the
conversion reads. -/
structure Fits (args : Args) (taken : Nat) (d : Directive) : Prop where
  width : d.Fills → AmountFits d.width
  width_arg : d.Fills → d.width = some .star → -2 ^ 31 < (args.int taken).toInt
  precision : d.IsString ∨ d.IsNumber → d.PrecisionFits
  /-- `size - precision`, with sign and prefix -/
  precision_le : d.IsNumber → (d.field args taken).precision ≤ 2 ^ 31 - 6
  string_ends : d.IsString → d.StringEnds args taken
  string_length : d.IsString → (stringText args (args.word (d.field args taken).taken)
    (d.field args taken).precision).length < 2 ^ 31

/-- A string is terminated or as long as its precision, and a precision that is written out for it
fits an `int`. -/
def StringFits (args : Args) (taken : Nat) (d : Directive) : Prop :=
  d.IsString → d.PrecisionFits ∧ d.StringEnds args taken

end Directive

/-- Every directive of a format has a property, with the arguments that are next. -/
def EachDirective (property : Args → Nat → Directive → Prop) (args : Args) :
    Rendering → List FormatPiece → Prop
  | _, [] => True
  | r, p :: ps => (∀ d, p = .directive d → property args r.taken d) ∧
      EachDirective property args (p.print args r) ps

/-- All directives fit. -/
def FormatFits : Args → Rendering → List FormatPiece → Prop := EachDirective Directive.Fits

/-- All strings do. -/
def StringsFit : Args → Rendering → List FormatPiece → Prop := EachDirective Directive.StringFits

end Eos.Interface
