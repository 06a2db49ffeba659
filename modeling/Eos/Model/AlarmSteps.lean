import Eos.Interface.AlarmHistory
import Eos.Model.Timer

/-!
# Runs of one counter

A counter whose alarms are set by tasks, and by handlers while `eos_trigger_counter` is in its
loop (core/timer.c:28-92).  `AlarmStep` takes one call of `eos_set_alarm`, one test of the loop
or one firing at a time, and keeps the history; what a handler does besides is left open.
`triggerAlarms` is the whole loop, for handlers that choose their calls by the history.
-/

set_option autoImplicit false

namespace Eos.Model

open Eos.Lib (LinkMem)
open Eos.Interface (Event)

variable {A F P : Type} [DecidableEq A]

/-- The arguments of `eos_set_alarm`. -/
structure SetAlarm (A F P : Type) where
  alarm : A
  timeout : UInt32
  entry : Option F
  arg : Option P

/-- What is asked for: a timeout of 0 and a `NULL` handler cancel the alarm. -/
def SetAlarm.delay (call : SetAlarm A F P) : Nat :=
  if call.timeout = 0 ∨ call.entry.isNone then 0 else call.timeout.toNat

/-- Where `eos_trigger_counter` is. -/
inductive TriggerPhase
  /-- not called -/
  | outside
  /-- at the head of the loop -/
  | loop
  /-- in the handler of an alarm -/
  | handler
  deriving DecidableEq

/-- A counter with its alarms, and its history. -/
structure AlarmRun (A F P : Type) where
  timers : Timers LinkMem A F P
  phase : TriggerPhase
  events : List (Event A)

namespace AlarmRun

/-- The next event. -/
def record (s : AlarmRun A F P) (timers : Timers LinkMem A F P) (phase : TriggerPhase)
    (e : Event A) : AlarmRun A F P := ⟨timers, phase, e :: s.events⟩

variable [Fintype A]

/-- A call of `eos_set_alarm`. -/
def setAlarm (counter : Nat) (s : AlarmRun A F P) (call : SetAlarm A F P) :
    Option (AlarmRun A F P) := do
  let timers ← eosSetAlarm s.timers counter call.alarm call.timeout call.entry call.arg
  return s.record timers s.phase (.set call.alarm call.delay)

omit [Fintype A] in
/-- The call of `eos_trigger_counter` up to its loop. -/
def trigger (counter : Nat) (s : AlarmRun A F P) : AlarmRun A F P :=
  s.record (incrementTick s.timers counter) .loop .trigger

/-- The alarm that expires is taken out of the queue, and its handler is called. -/
def fire (counter : Nat) (s : AlarmRun A F P) (timers : Timers LinkMem A F P) : AlarmRun A F P :=
  match expiredAlarm s.timers counter with
  | some alarm => s.record timers .handler (.fire alarm)
  | none => s

/-- A handler that makes the calls `script` says, given the history. -/
def callHandler (counter : Nat) (script : List (Event A) → F → Option P → List (SetAlarm A F P))
    (s : AlarmRun A F P) (handler : F) (arg : Option P) : Option (AlarmRun A F P) := do
  let s ← (script s.events handler arg).foldlM (setAlarm counter) s
  return { s with phase := .loop }

/-- `eos_trigger_counter` up to its `eos_schedule`. -/
def triggerAlarms (counter : Nat) (script : List (Event A) → F → Option P → List (SetAlarm A F P))
    (s : AlarmRun A F P) : Option (AlarmRun A F P) := do
  let s ← triggerLoop timers (fire counter) (callHandler counter script) counter
    (Fintype.card A + 1) (s.trigger counter)
  return { s with phase := .outside }

end AlarmRun

/-- One step of a counter's life. -/
inductive AlarmStep [Fintype A] (counter : Nat) : AlarmRun A F P → AlarmRun A F P → Prop
  /-- a task or a handler sets an alarm -/
  | setAlarm {s s' : AlarmRun A F P} (call : SetAlarm A F P) (hphase : s.phase ≠ .loop)
    (h : s.setAlarm counter call = some s') : AlarmStep counter s s'
  | trigger {s : AlarmRun A F P} (hphase : s.phase = .outside) :
      AlarmStep counter s (s.trigger counter)
  /-- the first alarm of the queue is due (core/timer.c:76-82) -/
  | fire {s : AlarmRun A F P} {alarm : A} {queue : LinkMem Nat A} (hphase : s.phase = .loop)
    (hexpired : expiredAlarm s.timers counter = some alarm)
    (hqueue : NodeLists.osRemoveNode s.timers.alarmQueue counter alarm = some queue)
    (hhandler : (s.timers.fields.handler alarm).isSome) :
    AlarmStep counter s (s.fire counter { s.timers with alarmQueue := queue })
  /-- the handler returns -/
  | next {s : AlarmRun A F P} (hphase : s.phase = .handler) :
    AlarmStep counter s { s with phase := .loop }
  /-- no alarm is due any more -/
  | finish {s : AlarmRun A F P} (hphase : s.phase = .loop)
    (hexpired : expiredAlarm s.timers counter = none) :
    AlarmStep counter s { s with phase := .outside }

/-! ## Handlers that re-arm their own alarm -/

/-- A counter in the loop of `eos_trigger_counter`, with the alarms whose handlers were called, the
last one first. -/
structure RearmRun (A F P : Type) where
  timers : Timers LinkMem A F P
  calls : List A

namespace RearmRun

variable [Fintype A] (owner : F → Option P → A) (rearm : List A → A → Option UInt32)

/-- A handler does nothing or sets its own alarm again, given the calls before. -/
def callHandler (counter : Nat) (s : RearmRun A F P) (handler : F) (arg : Option P) :
    Option (RearmRun A F P) :=
  let alarm := owner handler arg
  match rearm s.calls alarm with
  | none => some { s with calls := alarm :: s.calls }
  | some timeout => do
    return ⟨← eosSetAlarm s.timers counter alarm timeout (some handler) arg, alarm :: s.calls⟩

/-- The loop of `eos_trigger_counter`. -/
def loop (counter : Nat) : Nat → RearmRun A F P → Option (RearmRun A F P) :=
  triggerLoop timers (fun s t => { s with timers := t }) (callHandler owner rearm counter) counter

/-- `eos_trigger_counter` up to its `eos_schedule` (core/timer.c:60-90), with so much fuel for its
loop. -/
def triggerCounter (counter fuel : Nat) (t : Timers LinkMem A F P) : Option (RearmRun A F P) :=
  loop owner rearm counter fuel ⟨incrementTick t counter, []⟩

end RearmRun

end Eos.Model
