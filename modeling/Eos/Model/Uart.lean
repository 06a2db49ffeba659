import Eos.Lib.Fifo
import Mathlib.Logic.Function.Basic

/-!
# The polling driver of `hal/aarch64/uart.c`

`early_uart_putc` reads the flag register of the PL011 until its transmit FIFO has room, and writes
the character to the data register.  The controller sends from the FIFO meanwhile, and a task may
be interrupted at any point, so one step is one access to a register.  A character that is
written to a full FIFO is lost.

The characters in the FIFO carry the task that has written them.
-/

set_option autoImplicit false

namespace Eos.Model

open Eos.Lib (Fifo)

/-- `FR_TXFF`: the transmit FIFO is full. -/
def frTxff : UInt32 := (1 : UInt32) <<< 5

/-- The flag register; `flags` are the bits the driver does not test. -/
def uartFr (full : Bool) (flags : UInt32) : UInt32 :=
  if full then flags ||| frTxff else flags &&& ~~~frTxff

/-- Where a task is in `early_uart_putc` (hal/aarch64/uart.c:80-92). -/
inductive PutcPoint
  /-- `while (mmio_read32(base + UARTFR) & FR_TXFF)` ahead of a `\r` -/
  | waitReturn
  /-- `mmio_write32(base + UARTDR, '\r')` -/
  | writeReturn
  /-- `while (mmio_read32(base + UARTFR) & FR_TXFF)` ahead of the character -/
  | wait
  /-- `mmio_write32(base + UARTDR, (int32u_t)(unsigned char)c)` -/
  | write
  deriving DecidableEq

/-- The first access of `early_uart_putc(c)`: a `\n` is sent as `\r\n`. -/
def startPutc (c : UInt8) : PutcPoint := if c = '\n'.toUInt8 then .waitReturn else .wait

/-- A task that puts characters: those that are left, of which it is putting the first one. -/
structure Putting where
  text : List UInt8
  point : PutcPoint
  deriving DecidableEq

namespace Putting

/-- The calls of `early_uart_putc` for the characters of a text. -/
def start (text : List UInt8) : Putting := ⟨text, startPutc (text.headD 0)⟩

/-- The next access to a register, where the flag register reads `fr`: the task behind it, and the
character it has written to the data register. -/
def access (fr : UInt32) (p : Putting) : Putting × Option UInt8 :=
  match p.text with
  | [] => (p, none)
  | c :: text =>
    match p.point with
    | .waitReturn =>
      ({ p with point := if fr &&& frTxff ≠ 0 then .waitReturn else .writeReturn }, none)
    | .writeReturn => ({ p with point := .wait }, some '\r'.toUInt8)
    | .wait => ({ p with point := if fr &&& frTxff ≠ 0 then .wait else .write }, none)
    | .write => (start text, some c)

/-- The task has found room and has not written yet. -/
def Writes (p : Putting) : Prop := p.text ≠ [] ∧ (p.point = .writeReturn ∨ p.point = .write)

instance (p : Putting) : Decidable p.Writes := inferInstanceAs (Decidable (_ ∧ _))

end Putting

/-- The controller and the tasks that print. -/
structure SerialLine (T : Type) where
  fifo : Fifo (T × UInt8)
  task : T → Putting

/-- What happens next: the controller sends a character, or a task accesses a register. -/
inductive SerialEvent (T : Type)
  | send
  | access (t : T) (flags : UInt32)

namespace SerialLine

variable {T : Type}

/-- Every task begins to print its text. -/
def start (text : T → List UInt8) : SerialLine T := ⟨.empty, fun t => .start (text t)⟩

variable [DecidableEq T]

/-- An event, with a FIFO of `depth` characters. -/
def event (depth : Nat) (s : SerialLine T) : SerialEvent T → SerialLine T
  | .send => { s with fifo := s.fifo.pop }
  | .access t flags =>
    let fr := uartFr (decide (depth ≤ s.fifo.waiting.length)) flags
    let (p, written) := (s.task t).access fr
    { fifo := match written with
        | none => s.fifo
        | some c => s.fifo.push depth (t, c)
      task := Function.update s.task t p }

end SerialLine

end Eos.Model
