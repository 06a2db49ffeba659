import Eos.Model.Format

/-!
# Output over the serial line

The routines of `hal/aarch64/uart.c` that print with `early_uart_putc`, and `eos_printf`
(core/common.c).  They do not read what the controller does, so a routine is the sequence of the
characters that it calls `early_uart_putc` with.  There is no result where a routine reads behind
the end of a string or writes behind the end of a buffer of its own.
-/

set_option autoImplicit false

namespace Eos.Model

/-- `while (*s) early_uart_putc(*s++);` -/
def putsLoop : List UInt8 → Option (List UInt8)
  | [] => none
  | c :: s => if c = 0 then some [] else (putsLoop s).map (c :: ·)

/-- `early_uart_puts` (hal/aarch64/uart.c:94-98); there is no string behind `NULL`. -/
def earlyUartPuts (s : Option (List UInt8)) : Option (List UInt8) :=
  match s with
  | none => some []
  | some s => putsLoop s

/-- How many characters `buf` has, in `uart_put_hex` and `uart_put_dec`. -/
def bufSize : Nat := 32

/-- `while (val && i < 16)` (hal/aarch64/uart.c:119-122), with room for `room` more digits. -/
def hexLoop : Nat → UInt64 → List UInt8 → Option (List UInt8)
  | 0, _, buf => some buf
  | room + 1, val, buf =>
    if val = 0 then some buf
    else do
      let c ← (chars "0123456789ABCDEF" ++ [0])[(val &&& 0xF).toNat]?
      hexLoop room (val >>> 4) (buf ++ [c])

/-- `while (i < width) buf[i++] = '0';` -/
def padHex (width : UInt32) (buf : List UInt8) : Option (List UInt8) :=
  if buf.length < width.toNat then
    if buf.length < bufSize then padHex width (buf ++ ['0'.toUInt8]) else none
  else some buf
termination_by width.toNat - buf.length
decreasing_by
  rw [List.length_append, List.length_singleton]
  omega

/-- `uart_put_hex` (hal/aarch64/uart.c:108-127) -/
def uartPutHex (val : UInt64) (width : UInt32) : Option (List UInt8) :=
  if val = 0 then some ['0'.toUInt8]
  else do
    let buf ← hexLoop 16 val []
    let buf ← padHex width buf
    putDigits buf buf.length []

/-- `while (val && i < 20)` (hal/aarch64/uart.c:140-143), with room for `room` more digits. -/
def decLoop : Nat → UInt64 → List UInt8 → List UInt8
  | 0, _, buf => buf
  | room + 1, val, buf =>
    if val = 0 then buf
    else decLoop room (val / 10) (buf ++ [(val % 10).toUInt8 + '0'.toUInt8])

/-- `uart_put_dec` (hal/aarch64/uart.c:130-147) -/
def uartPutDec (val : UInt64) : Option (List UInt8) :=
  if val = 0 then some ['0'.toUInt8]
  else
    let buf := decLoop 20 val []
    putDigits buf buf.length []

/-! ## `_os_serial_printf` (hal/aarch64/uart.c:154-209) -/

/-- Where `_os_serial_printf` is in its format, how many arguments it has taken, and what it has
put. -/
structure SerialPrinter where
  fmt : Nat
  taken : Nat
  out : List UInt8
  deriving DecidableEq

/-- A string argument (hal/aarch64/uart.c:169-173). -/
def serialString (args : Args) (taken : Nat) : Option (List UInt8) :=
  let s := args.word taken
  earlyUartPuts (some (if s = 0 then chars "(null)" ++ [0] else args.string s))

/-- The `switch` at the character behind a `%` (hal/aarch64/uart.c:168-205). -/
def serialConversion (fmt : List UInt8) (args : Args) (s : SerialPrinter) :
    Option SerialPrinter := do
  let c ← fmt[s.fmt]?
  -- a conversion that takes an argument
  let one (out : List UInt8) : SerialPrinter := ⟨s.fmt, s.taken + 1, s.out ++ out⟩
  if c = 's'.toUInt8 then (serialString args s.taken).map one
  else if c = 'c'.toUInt8 then return one [(args.word s.taken).toUInt8]
  else if c = 'd'.toUInt8 ∨ c = 'u'.toUInt8 then
    (uartPutDec (args.word s.taken).toUInt32.toUInt64).map one
  else if c = 'x'.toUInt8 ∨ c = 'X'.toUInt8 then
    (uartPutHex (args.word s.taken).toUInt32.toUInt64 0).map one
  else if c = 'l'.toUInt8 then do
    let d ← fmt[s.fmt + 1]?
    if d = 'x'.toUInt8 then do
      let out ← uartPutHex (args.word s.taken) 16
      return ⟨s.fmt + 1, s.taken + 1, s.out ++ out⟩
    else return s
  else if c = '%'.toUInt8 then return { s with out := s.out ++ ['%'.toUInt8] }
  else return { s with out := s.out ++ ['?'.toUInt8] }

/-- The main loop; each round takes one unit of fuel. -/
def serialLoop (fmt : List UInt8) (args : Args) : Nat → SerialPrinter → Option SerialPrinter
  | 0, _ => none
  | fuel + 1, s => do
    let c ← fmt[s.fmt]?
    if c = 0 then return s
    else if c ≠ '%'.toUInt8 then
      serialLoop fmt args fuel { s with fmt := s.fmt + 1, out := s.out ++ [c] }
    else do
      let s ← serialConversion fmt args { s with fmt := s.fmt + 1 }
      serialLoop fmt args fuel { s with fmt := s.fmt + 1 }

/-- `_os_serial_printf` -/
def osSerialPrintf (fmt : List UInt8) (args : Args) (fuel : Nat) : Option (List UInt8) := do
  let s ← serialLoop fmt args fuel ⟨0, 0, []⟩
  return s.out

/-! ## `eos_printf` (core/common.c:14-24) -/

/-- `PRINT_BUFFER_SIZE` -/
def printBufferSize : Nat := 256

/-- `eos_printf`: what `vsprintf` has written to `printbuffer` is printed. -/
def eosPrintf (fmt : List UInt8) (args : Args) (fuel : Nat) : Option (List UInt8) := do
  let printed ← vsprintf fmt args fuel
  if printed.buf.length ≤ printBufferSize then earlyUartPuts (some printed.buf) else none

end Eos.Model
