import Eos.Lib.Refine
import Eos.Lib.Numeral
import Eos.Model.Serial
import Eos.Model.Uart
import Mathlib.Data.Fintype.Defs

/-!
# What a serial line is to carry

A text goes over the line with `\r\n` for each `\n` (`crlf`); the receiver gets the text back with
`fromLine`.  Of the bytes of several tasks, `bytesOf t` are those of the task `t`.

`SerialSpells` reads a format of `_os_serial_printf` as a list of pieces, and `serialOutput` is
what they stand for.
-/

set_option autoImplicit false

namespace Eos.Interface

open Eos.Lib (Reach numeral)
open Eos.Model

/-- The bytes that are sent for a text. -/
def crlf (text : List UInt8) : List UInt8 :=
  text.flatMap fun c => if c = '\n'.toUInt8 then ['\r'.toUInt8, '\n'.toUInt8] else [c]

/-- The text that bytes are sent for. -/
def fromLine : List UInt8 → List UInt8
  | [] => []
  | [c] => [c]
  | c :: d :: bytes =>
    if c = '\r'.toUInt8 ∧ d = '\n'.toUInt8 then d :: fromLine bytes
    else c :: fromLine (d :: bytes)

/-- The bytes a task has still to write. -/
def remaining (p : Putting) : List UInt8 :=
  match p.text with
  | [] => []
  | c :: text =>
    match p.point with
    | .waitReturn | .writeReturn => '\r'.toUInt8 :: c :: crlf text
    | .wait | .write => c :: crlf text

section

variable {T : Type} [DecidableEq T]

/-- The bytes of one task. -/
def bytesOf (t : T) (bytes : List (T × UInt8)) : List UInt8 :=
  (bytes.filter fun b => b.1 = t).map Prod.snd

/-- No task writes while another one has found room and has not written yet. -/
def WritesAlone (s : SerialLine T) : SerialEvent T → Prop
  | .send => True
  | .access t _ => (s.task t).Writes → ∀ u, u ≠ t → ¬(s.task u).Writes

instance (s : SerialLine T) [Fintype T] : DecidablePred (WritesAlone s)
  | .send => inferInstanceAs (Decidable True)
  | .access t _ =>
    inferInstanceAs (Decidable ((s.task t).Writes → ∀ u, u ≠ t → ¬(s.task u).Writes))

/-- The states of runs in which tasks print their texts, where every event meets `ok`. -/
def Sends (depth : Nat) (ok : SerialLine T → SerialEvent T → Prop) (text : T → List UInt8) :
    SerialLine T → Prop :=
  Reach (fun s e => some (s.event depth e)) ok (.start text)

/-- An infinite run in which tasks print their texts. -/
structure SendingRun (depth : Nat) (ok : SerialLine T → SerialEvent T → Prop)
    (text : T → List UInt8) (run : Nat → SerialLine T) (event : Nat → SerialEvent T) : Prop where
  start_eq : run 0 = .start text
  ok : ∀ i, ok (run i) (event i)
  next_eq : ∀ i, run (i + 1) = (run i).event depth (event i)

end

/-! ## Formats of `_os_serial_printf` -/

/-- A piece of a format: a character, a `%` with the character behind it, or `%lx`. -/
inductive SerialPiece
  | text (c : UInt8)
  | conversion (c : UInt8)
  | longHex
  deriving DecidableEq

/-- A format that consists of pieces, with `tail` behind them. -/
inductive SerialSpells (tail : List UInt8) : List SerialPiece → List UInt8 → Prop
  | nil : SerialSpells tail [] tail
  | text {c : UInt8} {ps : List SerialPiece} {fmt : List UInt8} : c ≠ 0 → c ≠ '%'.toUInt8 →
      SerialSpells tail ps fmt → SerialSpells tail (.text c :: ps) (c :: fmt)
  | conversion {c : UInt8} {ps : List SerialPiece} {fmt : List UInt8} : c ≠ 0 →
      (c = 'l'.toUInt8 → fmt.head? ≠ some 'x'.toUInt8) →
      SerialSpells tail ps fmt → SerialSpells tail (.conversion c :: ps) ('%'.toUInt8 :: c :: fmt)
  | longHex {ps : List SerialPiece} {fmt : List UInt8} : SerialSpells tail ps fmt →
      SerialSpells tail (.longHex :: ps) ('%'.toUInt8 :: 'l'.toUInt8 :: 'x'.toUInt8 :: fmt)

/-- The digits that `uart_put_hex` and `uart_put_dec` print. -/
def serialDigit (d : Nat) : UInt8 := (chars "0123456789ABCDEF").getD d 0

/-- A hexadecimal number with at least `width` digits; zero has one all the same. -/
def hexText (val width : Nat) : List UInt8 :=
  if val = 0 then ['0'.toUInt8]
  else List.replicate (width - (numeral serialDigit 16 val).length) '0'.toUInt8 ++
    numeral serialDigit 16 val

/-- The conversions that take an argument. -/
def serialTakes (c : UInt8) : Bool := c ∈ chars "scduxX"

namespace SerialPiece

/-- How many arguments a piece takes. -/
def takes : SerialPiece → Nat
  | .text _ => 0
  | .conversion c => if serialTakes c then 1 else 0
  | .longHex => 1

/-- What a piece stands for, if `word` is the next argument. -/
def output (args : Args) (word : UInt64) : SerialPiece → List UInt8
  | .text c => [c]
  | .longHex => hexText word.toNat 16
  | .conversion c =>
    if c = 's'.toUInt8 then
      if word = 0 then chars "(null)" else (args.string word).takeWhile (· ≠ 0)
    else if c = 'c'.toUInt8 then [word.toUInt8]
    else if c = 'd'.toUInt8 ∨ c = 'u'.toUInt8 then numeral serialDigit 10 word.toUInt32.toNat
    else if c = 'x'.toUInt8 ∨ c = 'X'.toUInt8 then hexText word.toUInt32.toNat 0
    else if c = 'l'.toUInt8 then []
    else if c = '%'.toUInt8 then ['%'.toUInt8]
    else ['?'.toUInt8]

/-- A string that is printed is terminated. -/
def StringEnds (args : Args) (word : UInt64) (p : SerialPiece) : Prop :=
  p = .conversion 's'.toUInt8 → word ≠ 0 → 0 ∈ args.string word

end SerialPiece

/-- What the pieces stand for, where `taken` arguments have been taken. -/
def serialOutput (args : Args) : Nat → List SerialPiece → List UInt8
  | _, [] => []
  | taken, p :: ps => p.output args (args.word taken) ++ serialOutput args (taken + p.takes) ps

/-- All strings that are printed are terminated. -/
def SerialStringsEnd (args : Args) : Nat → List SerialPiece → Prop
  | _, [] => True
  | taken, p :: ps =>
    p.StringEnds args (args.word taken) ∧ SerialStringsEnd args (taken + p.takes) ps

end Eos.Interface
