import Eos.Model.SemaphoreTasks

/-!
# Message queues of `core/comm.c`

`eos_send_message` and `eos_receive_message`, cut wherever interrupts are enabled, with
every byte copied in a step of its own.  The two functions differ in the semaphores they
acquire and release, the index they advance and the direction of the copy, so they are
one `Transfer` in two directions.

The log of a direction keeps the messages copied, in the order in which their copies end;
`results` keeps what the calls return.  No function reads them.
-/

set_option autoImplicit false

namespace Eos.Model

open Eos.Lib (Program)

/-! ## The data -/

/-- `eos_mqueue_t`, without its semaphores and the start of its buffer. -/
structure MessageQueue where
  queueSize : UInt16
  msgSize : UInt8
  front : UInt16
  rear : UInt16
  deriving DecidableEq

/-- Into the queue or out of it. -/
inductive Direction
  | send
  | receive
  deriving DecidableEq

/-- The message a call has copied. -/
structure Entry (T : Type) where
  task : T
  call : Nat
  bytes : List UInt8

/-- The message queue, its buffer from `mq->queue_start` on, and the histories. -/
structure QueueState (T : Type) extends Cpu where
  mq : MessageQueue
  memory : Nat → UInt8
  log : Direction → List (Entry T)
  results : List (T × Nat × UInt8)

variable {T : Type}

instance : SyncState (QueueState T) where
  count s := SyncState.count s.toCpu
  setCount s sem n := { s with toCpu := SyncState.setCount s.toCpu sem n }
  tick s := s.tick
  schedulerLock s := s.schedulerLock
  setAlarm s _ _ := some s

/-- `mq->putsem` -/
def putsem : Nat := 0

/-- `mq->getsem` -/
def getsem : Nat := 1

/-- `eos_init_semaphore` (core/sync.c:13-23); the initial count is an `int8s_t`. -/
def QueueState.eosInitSemaphore (s : QueueState T) (sem : Nat) (initialCount : Int) :
    QueueState T :=
  { s with semaphore := Function.update s.semaphore sem (int8 initialCount) }

/-- `eos_init_mqueue` with pointers that are not `NULL` (core/comm.c:13-30). -/
def QueueState.eosInitMqueue (s : QueueState T) (queueSize : UInt16) (msgSize : UInt8) :
    QueueState T :=
  if queueSize = 0 ∨ msgSize = 0 then s
  else
    ({ s with mq := ⟨queueSize, msgSize, 0, 0⟩ }.eosInitSemaphore putsem
      queueSize.toNat).eosInitSemaphore getsem 0

/-! ## What differs between the two directions -/

namespace Direction

/-- The other direction. -/
def flip : Direction → Direction
  | send => receive
  | receive => send

/-- The semaphore a call acquires. -/
def acquired : Direction → Nat
  | send => putsem
  | receive => getsem

/-- The semaphore a call releases. -/
def released : Direction → Nat
  | send => getsem
  | receive => putsem

/-- `mq->rear` or `mq->front` -/
def index (mq : MessageQueue) : Direction → UInt16
  | send => mq.rear
  | receive => mq.front

/-- Write `mq->rear` or `mq->front`. -/
def setIndex (mq : MessageQueue) (n : UInt16) : Direction → MessageQueue
  | send => { mq with rear := n }
  | receive => { mq with front := n }

/-- `dest[i] = src[i]`, where one of them is the message and the other starts at `offset` in the
buffer: the buffer and the message after it. -/
def copyByte (memory message : Nat → UInt8) (offset i : Nat) :
    Direction → (Nat → UInt8) × (Nat → UInt8)
  | send => (Function.update memory (offset + i) (message i), message)
  | receive => (memory, Function.update message i (memory (offset + i)))

end Direction

/-- Advance an index and wrap it: the increment and the test behind it. -/
def MessageQueue.advance (mq : MessageQueue) (d : Direction) : MessageQueue :=
  let n := d.index mq + 1
  d.setIndex mq (if n = mq.queueSize then 0 else n)

/-! ## The calls -/

/-- The points of a call with interrupts enabled. -/
inductive TransferAt
  | acquire (f : AcquireFrame)
  /-- `lock_flag = eos_lock_scheduler()` -/
  | lockScheduler
  /-- the assignments of `dest` and `src` -/
  | setPointers (lockFlag : UInt8)
  /-- the increment of the index and its wrap -/
  | advance (lockFlag : UInt8) (offset : Nat)
  /-- the head of the copy loop -/
  | copy (lockFlag : UInt8) (offset : Nat) (i : UInt8)
  /-- `eos_restore_scheduler(lock_flag)` -/
  | restoreScheduler (lockFlag : UInt8)
  | release (f : ReleaseFrame)

/-- A call, with the message that it sends or the buffer that it receives to. -/
structure Transfer where
  direction : Direction
  message : Nat → UInt8
  point : TransferAt

/-- The entry of a call. -/
def Transfer.entry (d : Direction) (message : Nat → UInt8) (timeout : Int32) : Transfer :=
  ⟨d, message, .acquire (.entry d.acquired timeout)⟩

/-- `eos_send_message` (core/comm.c:33-71). -/
def eosSendMessage (message : Nat → UInt8) (timeout : Int32) : Transfer :=
  .entry .send message timeout

/-- `eos_receive_message` (core/comm.c:74-111). -/
def eosReceiveMessage (message : Nat → UInt8) (timeout : Int32) : Transfer :=
  .entry .receive message timeout

/-- A step of call number `call` of a task: the call goes on, or returns. -/
def Transfer.step (t : T) (call : Nat) (f : Transfer) (s : QueueState T) :
    Option (QueueState T × (Transfer ⊕ UInt8)) :=
  match f.point with
  | .acquire g => do
    match ← g.step s with
    | (s, .goto g) | (s, .wait g) => return (s, .inl { f with point := .acquire g })
    | (s, .returned v) =>
      if v = 0 then return (s, .inr 0) else return (s, .inl { f with point := .lockScheduler })
    | (_, .wake) => none
  | .lockScheduler =>
    some ({ s with schedulerLock := locked },
      .inl { f with point := .setPointers s.schedulerLock })
  | .setPointers lockFlag =>
    let offset := s.mq.msgSize.toNat * (f.direction.index s.mq).toNat
    some (s, .inl { f with point := .advance lockFlag offset })
  | .advance lockFlag offset =>
    some ({ s with mq := s.mq.advance f.direction },
      .inl { f with point := .copy lockFlag offset 0 })
  | .copy lockFlag offset i =>
    if i < s.mq.msgSize then
      let (memory, message) := f.direction.copyByte s.memory f.message offset i.toNat
      some ({ s with memory := memory },
        .inl { f with message := message, point := .copy lockFlag offset (i + 1) })
    else
      let e : Entry T := ⟨t, call, (List.range s.mq.msgSize.toNat).map f.message⟩
      some ({ s with log := Function.update s.log f.direction (s.log f.direction ++ [e]) },
        .inl { f with point := .restoreScheduler lockFlag })
  | .restoreScheduler lockFlag =>
    some ({ s with schedulerLock := lockFlag },
      .inl { f with point := .release (.entry f.direction.released) })
  | .release g =>
    match g.step s with
    | (s, .goto g) => some (s, .inl { f with point := .release g })
    | (s, _) => some (s, .inr s.mq.msgSize)

/-! ## The tasks -/

/-- A task with the number of calls it has finished and the call in progress. -/
structure Caller where
  calls : Nat
  transfer : Option Transfer

/-- The operations of a task: call one of the two functions, or go on with the call. -/
inductive QueueOp
  | send (message : Nat → UInt8) (timeout : Int32)
  | receive (message : Nat → UInt8) (timeout : Int32)
  | step

/-- A task executes an operation. -/
def Caller.exec (t : T) (s : QueueState T) (l : Caller) : QueueOp → Option (QueueState T × Caller)
  | .send message timeout =>
    if l.transfer.isNone then some (s, { l with transfer := some (eosSendMessage message timeout) })
    else none
  | .receive message timeout =>
    if l.transfer.isNone then
      some (s, { l with transfer := some (eosReceiveMessage message timeout) })
    else none
  | .step => do
    match ← (← l.transfer).step t l.calls s with
    | (s, .inl f) => return (s, { l with transfer := some f })
    | (s, .inr v) =>
      return ({ s with results := s.results ++ [(t, l.calls, v)] }, ⟨l.calls + 1, none⟩)

/-- The program of the tasks. -/
def queueTasks (T : Type) : Program (QueueState T) Caller T QueueOp where
  exec t o s l := l.exec t s o
  preemptible s := s.schedulerLock ≠ locked
  interrupt s := { s with tick := s.tick + 1 }

/-! ## A call without interruption -/

/-- The steps of a call up to its return, so many at most. -/
def Transfer.finish (t : T) (call : Nat) : Nat → Transfer → QueueState T →
    Option (QueueState T × UInt8)
  | 0, _, _ => none
  | fuel + 1, f, s => do
    match ← f.step t call s with
    | (s, .inl f) => Transfer.finish t call fuel f s
    | (s, .inr v) => return (s, v)

/-- The arguments of a call. -/
structure QueueCall where
  direction : Direction
  message : Nat → UInt8
  timeout : Int32

/-- Call number `n` of a task, from its entry to its return: ten steps and one for each byte. -/
def QueueState.call (s : QueueState T) (t : T) (n : Nat) (c : QueueCall) :
    Option (QueueState T × UInt8) :=
  (Transfer.entry c.direction c.message c.timeout).finish t n (s.mq.msgSize.toNat + 10) s

end Eos.Model
