import Eos.Model.Sync

/-!
# Calls that depend on the time

The calls that read the tick, with what can be observed of them, and the shift of all tick values
of a system by a constant.
-/

set_option autoImplicit false

namespace Eos.Model

/-- The calls of tasks that set alarms or are woken by them, and the tick. -/
inductive TimedCall (T : Type)
  | setAlarm (alarm : T) (timeout : UInt32) (entry : Option Handler) (arg : Option T)
  | sleep (tick : UInt32)
  | acquire (s : Nat) (timeout : Int32)
  | release (s : Nat)
  | tick
  /-- the current task goes on with its call -/
  | goOn
  deriving DecidableEq

/-- What can be seen of a call: the alarms that fire, the value that `eos_acquire_semaphore`
returns, and the state of the tasks. -/
structure Observed (T : Type) where
  fired : List T
  returned : Option UInt32
  status : T → Status
  current : Option T

/-- The value that a part of a call returns. -/
def CallResult.value : CallResult → Option UInt32
  | .returned value => some value
  | .switched _ => none

section

variable {Q : Type → Type → Type} [NodeLists Q] {T : Type} [DecidableEq T] [Fintype T]

/-- The loop of `eos_trigger_counter` with the alarms that fire. -/
def firedLoop (fuel : Nat) (s : Kernel Q T × List T) : Option (Kernel Q T × List T) :=
  triggerLoop (fun s => s.1.timers)
    (fun s timers => (s.1.setTimers timers, s.2 ++ (expiredAlarm s.1.timers systemTimer).toList))
    (fun s handler arg => do return (← s.1.callHandler handler arg, s.2)) systemTimer fuel s

/-- `Kernel.triggerAlarms` with the alarms that fire. -/
def Kernel.firedAlarms (k : Kernel Q T) : Option (Kernel Q T × List T) :=
  firedLoop (Fintype.card T + 1) (k.setTimers (incrementTick k.timers systemTimer), [])

namespace System

omit [NodeLists Q] [DecidableEq T] [Fintype T] in
/-- A system with what is seen of the call that has led to it. -/
def seen (s : System Q T) (fired : List T) (returned : Option UInt32) :
    Observed T × System Q T :=
  (⟨fired, returned, s.kernel.status, s.kernel.vars.currentTask⟩, s)

/-- A part of `eos_acquire_semaphore`. -/
def observePart (s : System Q T) (call : Call T) : Option (Observed T × System Q T) := do
  let caller ← s.kernel.vars.currentTask
  let r ← s.part caller call
  return (s.leave caller r).seen [] r.1.value

/-- The effect of a call. -/
def observe (s : System Q T) : TimedCall T → Option (Observed T × System Q T)
  | .setAlarm alarm timeout entry arg => do
    return seen { s with kernel := ← s.kernel.setAlarm alarm timeout entry arg } [] none
  | .sleep tick => do return seen { s with kernel := ← s.kernel.eosSleep tick } [] none
  | .acquire sem timeout => s.observePart (.acquire sem timeout)
  | .release sem => do return seen { s with kernel := ← s.kernel.eosReleaseSemaphore sem } [] none
  | .tick => do
    let r ← s.kernel.firedAlarms
    return seen { s with kernel := ← r.1.eosSchedule } r.2 none
  | .goOn => s.observePart .goOn

/-- The effect of a sequence of calls. -/
def observeAll (s : System Q T) : List (TimedCall T) → Option (List (Observed T) × System Q T)
  | [] => some ([], s)
  | call :: calls => do
    let (o, s) ← s.observe call
    let (os, s) ← s.observeAll calls
    return (o :: os, s)

end System

end

/-! ## Shifts -/

section Shift

variable {Q : Type → Type → Type} {T : Type}

/-- Add a constant to the tick values of counters and alarms. -/
def AlarmFields.shift {A F P : Type} (c : UInt32) (f : AlarmFields A F P) : AlarmFields A F P :=
  { f with
    tick := fun counter => f.tick counter + c
    timeout := fun a => f.timeout a + c
    orderVal := fun a => (UInt32.ofNat (f.orderVal a) + c).toNat }

/-- Add a constant to the tick values of the counters and alarms. -/
def Timers.shift {A F P : Type} (c : UInt32) (t : Timers Q A F P) : Timers Q A F P :=
  { t with fields := t.fields.shift c }

/-- Add a constant to the wake-up time of a task. -/
def Tcb.shift (c : UInt32) (b : Tcb) : Tcb := { b with wakeupTime := b.wakeupTime + c }

/-- Add a constant to every tick value of a kernel. -/
def Kernel.shift (c : UInt32) (k : Kernel Q T) : Kernel Q T :=
  { k with
    timers := k.timers.shift c
    vars := { k.vars with tcb := fun t => (k.vars.tcb t).shift c } }

/-- The deadline of a call of `eos_acquire_semaphore` is a tick value. -/
def Resume.shift (c : UInt32) : Resume → Resume
  | .acquire s timeout absTimeout => .acquire s timeout (absTimeout + c)
  | r => r

/-- Add a constant to the deadline that a call is left with. -/
def CallResult.shift (c : UInt32) : CallResult → CallResult
  | .returned value => .returned value
  | .switched r => .switched (r.shift c)

/-- Add a constant to every tick value of a system. -/
def System.shift (c : UInt32) (s : System Q T) : System Q T :=
  ⟨s.kernel.shift c, fun t => (s.resume t).shift c⟩

end Shift

/-! ## The tick values that a call compares -/

section Compared

open Eos.Lib (LinkMem)

variable {A F P : Type} [DecidableEq A] [Fintype A]

/-- The due ticks of the queued alarms, but for one alarm. -/
def Timers.dueTicks (t : Timers LinkMem A F P) (except : Option A) : Finset UInt32 :=
  (Finset.univ.filter fun a => some a ≠ except ∧ t.alarmQueue.next a ≠ none).image t.fields.timeout

/-- The tick values that are compared when an alarm is queued for tick `due`. -/
def Timers.queueCompares (t : Timers LinkMem A F P) (alarm : A) (due : UInt32) : Finset UInt32 :=
  insert due (t.dueTicks (some alarm))

variable {T : Type} [DecidableEq T] [Fintype T]

/-- The tick values that `eos_sleep` of task `t` compares: those of its next wake-up in a periodic
sleep, and those of the alarm queue if it sets an alarm. -/
def Kernel.sleepCompares (k : Kernel LinkMem T) (t : T) (tick : UInt32) : Finset UInt32 :=
  if k.vars.schedulerLock = locked then ∅
  else
    let b := k.vars.tcb t
    if tick = 0 ∧ b.period ≠ 0 then
      let wakeupTime := b.wakeupTime + b.period
      if wakeupTime ≤ k.tick then {k.tick, wakeupTime}
      else insert k.tick (k.timers.queueCompares t wakeupTime)
    else if tick = 0 then ∅
    else k.timers.queueCompares t (k.tick + tick)

/-- The tick values that a call compares with each other. -/
def System.compares (s : System LinkMem T) : TimedCall T → Finset UInt32
  | .setAlarm alarm timeout entry _ =>
    if timeout = 0 ∨ entry.isNone then ∅
    else s.kernel.timers.queueCompares alarm (s.kernel.tick + timeout)
  | .sleep tick => s.kernel.vars.currentTask.elim ∅ fun t => s.kernel.sleepCompares t tick
  | .acquire sem timeout => s.kernel.vars.currentTask.elim ∅ fun t =>
    if s.kernel.vars.schedulerLock = 0 ∧ s.kernel.count sem ≤ 0 ∧ 0 < timeout then
      s.kernel.timers.queueCompares t (s.kernel.tick + timeout.toUInt32)
    else ∅
  | .release _ => ∅
  | .tick => insert (s.kernel.tick + 1) (s.kernel.timers.dueTicks none)
  | .goOn => s.kernel.vars.currentTask.elim ∅ fun t =>
    match s.resume t with
    | .acquire _ timeout absTimeout => if timeout = 0 then ∅ else {s.kernel.tick, absTimeout}
    | _ => ∅

/-- A shift carries all these values past `2^32`, or none of them. -/
def Uniform (c : UInt32) (S : Finset UInt32) : Prop :=
  ∀ v ∈ S, ∀ w ∈ S, 2 ^ 32 ≤ v.toNat + c.toNat ↔ 2 ^ 32 ≤ w.toNat + c.toNat

-- only the elements of the set are tried, not all ticks
instance (c : UInt32) (S : Finset UInt32) : Decidable (Uniform c S) :=
  @Finset.decidableDforallFinset _ S _ fun _ _ => Finset.decidableDforallFinset

/-- What holds of all values holds of some of them. -/
theorem Uniform.mono {c : UInt32} {S S' : Finset UInt32} (h : Uniform c S') (hs : S ⊆ S') :
    Uniform c S :=
  fun v hv w hw => h v (hs hv) w (hs hw)

/-- So does it with the values that each call of a sequence compares. -/
def System.UniformAll (c : UInt32) (s : System LinkMem T) : List (TimedCall T) → Prop
  | [] => True
  | call :: calls => Uniform c (s.compares call) ∧ ∀ r ∈ s.observe call, r.2.UniformAll c calls

instance System.decidableUniformAll (c : UInt32) :
    (calls : List (TimedCall T)) → (s : System LinkMem T) → Decidable (s.UniformAll c calls)
  | [], _ => .isTrue trivial
  | call :: calls, s =>
    haveI := fun r : Observed T × System LinkMem T => decidableUniformAll c calls r.2
    inferInstanceAs (Decidable (Uniform c (s.compares call) ∧
      ∀ r ∈ s.observe call, r.2.UniformAll c calls))

end Compared

end Eos.Model
