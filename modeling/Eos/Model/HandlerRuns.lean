import Eos.Model.Sync

/-!
# Runs of alarm handlers

The timer interrupt calls `eos_trigger_counter`, whose loop calls the handlers of the alarms that
are due (core/timer.c:60-101).  A handler of the program may call the kernel, and each such call
may switch to another task; the rest of the loop then waits until the interrupted task runs again.

So a call of `eos_trigger_counter` is not one step here: `frames` has the calls that wait in each
task, the innermost first.  An interrupt may come between any two steps, since a handler that has
been switched away from goes on with interrupts enabled.

The alarms that the program declares are elements of `T` as well, which no task is created in.
-/

set_option autoImplicit false

namespace Eos.Model

/-- A call of `eos_trigger_counter` that has interrupted a task. -/
structure TriggerFrame where
  /-- the handler of an alarm has been called and has not returned -/
  inHandler : Bool
  /-- where the interrupted code goes on -/
  interrupted : Resume
  deriving DecidableEq

/-- A system with the calls of `eos_trigger_counter` that are in progress in its tasks. -/
structure HandlerSystem (Q : Type → Type → Type) (T : Type) where
  system : System Q T
  frames : T → List TriggerFrame

/-- A step of the current task, or of the handlers that run in it. -/
inductive HandlerStep (T : Type)
  | call (c : Call T)
  /-- `eos_set_alarm(eos_get_system_timer(), alarm, timeout, entry, arg)` -/
  | setAlarm (alarm : T) (timeout : UInt32) (entry : Option Handler) (arg : Option T)
  /-- the timer interrupt, up to the loop of `eos_trigger_counter` -/
  | interrupt
  /-- an alarm is due and its handler is called -/
  | fire
  | handlerReturns
  /-- no alarm is due, and `eos_trigger_counter` calls `eos_schedule` -/
  | finish
  deriving DecidableEq

namespace HandlerSystem

variable {Q : Type → Type → Type} [NodeLists Q] {T : Type} [DecidableEq T] [Fintype T]

/-- The kernel of the system. -/
abbrev kernel (s : HandlerSystem Q T) : Kernel Q T := s.system.kernel

omit [NodeLists Q] [DecidableEq T] [Fintype T] in
/-- The same calls in progress with another kernel. -/
def setKernel (s : HandlerSystem Q T) (k : Kernel Q T) : HandlerSystem Q T :=
  { s with system := { s.system with kernel := k } }

omit [NodeLists Q] [DecidableEq T] [Fintype T] in
/-- The call of `eos_trigger_counter` that the current task is in. -/
def frame (s : HandlerSystem Q T) : Option TriggerFrame :=
  s.kernel.vars.currentTask.bind fun t => (s.frames t).head?

omit [NodeLists Q] [DecidableEq T] [Fintype T] in
/-- The current task executes its own code or that of a handler, and not the loop of
`eos_trigger_counter`. -/
def mayCall (s : HandlerSystem Q T) : Bool := s.frame.all TriggerFrame.inHandler

omit [NodeLists Q] [Fintype T] in
/-- Whether the innermost handler of task `t` is running. -/
def setHandler (s : HandlerSystem Q T) (t : T) (inHandler : Bool) : HandlerSystem Q T :=
  let frames := (s.frames t).modifyHead fun f => { f with inHandler := inHandler }
  { s with frames := Function.update s.frames t frames }

/-- The first alarm of the queue is taken out and its handler called (core/timer.c:80-82). -/
def fire (s : HandlerSystem Q T) (t alarm : T) : Option (HandlerSystem Q T) := do
  let queue ← NodeLists.osRemoveNode s.kernel.timers.alarmQueue systemTimer alarm
  let k := s.kernel.setTimers { s.kernel.timers with alarmQueue := queue }
  match ← k.timers.fields.handler alarm with
  | .osWakeupFromAlarmQueue =>
    return s.setKernel (← k.osWakeupFromAlarmQueue (k.timers.fields.arg alarm))
  | .user _ => return (s.setKernel k).setHandler t true

/-- The effect of a step. -/
def exec (s : HandlerSystem Q T) : HandlerStep T → Option (HandlerSystem Q T)
  | .call c =>
    if s.mayCall then do return { s with system := ← s.system.exec c } else none
  | .setAlarm alarm timeout entry arg =>
    if s.mayCall then do return s.setKernel (← s.kernel.setAlarm alarm timeout entry arg) else none
  | .interrupt => do
    let t ← s.kernel.vars.currentTask
    let system := ⟨s.kernel.setTimers (incrementTick s.kernel.timers systemTimer),
      Function.update s.system.resume t .user⟩
    return ⟨system, Function.update s.frames t (⟨false, s.system.resume t⟩ :: s.frames t)⟩
  | .fire => do
    let t ← s.kernel.vars.currentTask
    if s.mayCall then none else s.fire t (← expiredAlarm s.kernel.timers systemTimer)
  | .handlerReturns => do
    let t ← s.kernel.vars.currentTask
    let f ← (s.frames t).head?
    if f.inHandler ∧ s.system.resume t = .user then some (s.setHandler t false) else none
  | .finish => do
    let t ← s.kernel.vars.currentTask
    let f ← (s.frames t).head?
    if f.inHandler = false ∧ expiredAlarm s.kernel.timers systemTimer = none then do
      let system := ⟨← s.kernel.eosSchedule, Function.update s.system.resume t f.interrupted⟩
      return ⟨system, Function.update s.frames t (s.frames t).tail⟩
    else none

variable {s s' : HandlerSystem Q T}

/-- A call is one of the system, and the calls in progress stay. -/
theorem call_cases {c : Call T} (h : s.exec (.call c) = some s') :
    ∃ system, s.system.exec c = some system ∧ s' = { s with system := system } := by
  simp only [exec] at h
  split at h
  · obtain ⟨system, hsystem, h⟩ := Option.bind_eq_some_iff.mp h
    exact ⟨system, hsystem, (Option.some.inj h).symm⟩
  · cases h

/-- A call of `eos_set_alarm` changes the timers only. -/
theorem setAlarm_cases {alarm : T} {timeout : UInt32} {entry : Option Handler} {arg : Option T}
    (h : s.exec (.setAlarm alarm timeout entry arg) = some s') :
    ∃ m, eosSetAlarm s.kernel.timers systemTimer alarm timeout entry arg = some m ∧
      s' = s.setKernel (s.kernel.setTimers m) := by
  simp only [exec] at h
  split at h
  · obtain ⟨k, hk, h⟩ := Option.bind_eq_some_iff.mp h
    obtain ⟨m, hm, hk⟩ := Option.bind_eq_some_iff.mp hk
    cases hk
    exact ⟨m, hm, (Option.some.inj h).symm⟩
  · cases h

end HandlerSystem

end Eos.Model
