import Mathlib.Data.Prod.Lex
import Mathlib.Data.Int.Order.Basic
import Libanet.Base.Assert
import Libanet.Base.Timestamp
import Libanet.Lib.Machine
import Libanet.Lib.OrdSet

/-!
# `net/Timer.cc` and `net/TimerQueue.cc`

The timers of a loop. They are kept twice: in `timers`, in the order they
expire, and in `activeTimers`, by address and sequence number, which is what
a `TimerId` holds. Timers that have expired are in neither while their
callbacks run, and are then deleted, or restarted and put back into both.

A `Timer *` is an address, and `heap` says which timer is there. Following
a pointer to an address without a timer, or deleting one, is a fault; the
allocator may use an address again once it is free. The timerfd keeps the
deadline it was last armed with, on the same clock as the expirations: the
source reads that clock whenever it arms the timerfd, so the operations that
may do so take the reading as an argument.

`handleRead` is cut at the callbacks it runs. `handleReadBegin` is all up to
the first, `runNext` starts the next one, and `handleReadEnd` is what comes
after the last; what a callback does to the queue are operations between
these. `phase` says which timers of the batch have been started and which
have not. `ran`, `added`, `cancelled` and `settimes` are kept for the record.
-/

namespace Libanet.Net

/-! ## Timers -/

/-- `interval` is `static_cast<int64_t>(interval_ * kMicroSecondsPerSecond)`,
what `addTime` makes of the source's `double`. -/
structure Timer where
  expiration : Timestamp
  interval : Int
  repeat_ : Bool
  sequence : Nat
  deriving DecidableEq, Repr

def Timer.restart (now : Timestamp) (t : Timer) : Timer :=
  if t.repeat_ then { t with expiration := addTime now t.interval }
  else { t with expiration := Timestamp.invalid }

/-- `std::pair<Timestamp, Timer *>`, with the order of pairs. -/
abbrev Entry := Int ×ₗ Nat

/-- `std::pair<Timer *, int64_t>`, which is also what a `TimerId` holds. -/
abbrev ActiveTimer := Nat ×ₗ Nat

def Entry.mk (when_ : Timestamp) (timer : Nat) : Entry := toLex (when_, timer)

def Entry.when_ (e : Entry) : Timestamp := (ofLex e).1

def Entry.timer (e : Entry) : Nat := (ofLex e).2

def ActiveTimer.mk (timer sequence : Nat) : ActiveTimer := toLex (timer, sequence)

/-- `UINTPTR_MAX`. -/
def UINTPTR_MAX : Nat := 0xffffffffffffffff

/-! ## The timerfd -/

structure Timespec where
  tv_sec : Int
  tv_nsec : Int
  deriving DecidableEq, Repr

/-- A one-shot timerfd. Once fired, it is readable until it is read. -/
inductive Timerfd where
  | disarmed
  | armed (deadline : Timestamp)
  | fired (deadline : Timestamp)
  deriving DecidableEq, Repr

/-- A call of `timerfd_settime`, with the clock it was computed from. -/
structure Settime where
  now : Timestamp
  expiration : Timestamp
  value : Timespec
  deriving DecidableEq, Repr

/-- `now` is what `Timestamp::now()` answers. -/
def howMuchTimeFromNow (when_ now : Timestamp) : Timespec :=
  let microseconds := when_ - now
  let microseconds := if microseconds < 100 then 100 else microseconds
  { tv_sec := microseconds.tdiv Timestamp.kMicroSecondsPerSecond
    tv_nsec := microseconds.tmod Timestamp.kMicroSecondsPerSecond * 1000 }

/-- What `timerfd_settime` makes of a relative value at time `now`: zero
disarms, and anything else fires that much later. -/
def timerfd_settime (now : Timestamp) (value : Timespec) : Timerfd :=
  if value.tv_sec = 0 ∧ value.tv_nsec = 0 then .disarmed
  else .armed (now + value.tv_sec * Timestamp.kMicroSecondsPerSecond +
    value.tv_nsec.tdiv 1000)

/-! ## The queue -/

/-- Where the loop thread stands. -/
inductive TimerPhase where
  | idle
  /-- Inside `handleRead`, with these timers of the batch started and these
  still to come. -/
  | calling (now : Timestamp) (started rest : List Entry)

/-- A callback that was started, with its timer as it was then. -/
structure TimerRun where
  now : Timestamp
  addr : Nat
  timer : Timer
  deriving DecidableEq, Repr

structure TimerQueue where
  heap : Nat → Option Timer
  numCreated : Nat
  /-- Created by `addTimer`, with `addTimerInLoop` still to come. -/
  unadded : List Nat
  timers : OrdSet Entry
  activeTimers : OrdSet ActiveTimer
  callingExpiredTimers : Bool
  cancelingTimers : OrdSet ActiveTimer
  timerfd : Timerfd
  phase : TimerPhase
  added : List ActiveTimer
  cancelled : List ActiveTimer
  ran : List TimerRun
  settimes : List Settime

namespace TimerQueue

def new : TimerQueue where
  heap := fun _ => none
  numCreated := 0
  unadded := []
  timers := .empty
  activeTimers := .empty
  callingExpiredTimers := false
  cancelingTimers := .empty
  timerfd := .disarmed
  phase := .idle
  added := []
  cancelled := []
  ran := []
  settimes := []

/-- Following a `Timer *`. -/
def deref (timer : Nat) (q : TimerQueue) : Except Fault Timer :=
  match q.heap timer with
  | some t => .ok t
  | none => .error .useAfterFree

def setHeap (timer : Nat) (t : Option Timer) (q : TimerQueue) : TimerQueue :=
  { q with heap := fun a => if a = timer then t else q.heap a }

def delete (timer : Nat) (q : TimerQueue) : Except Fault TimerQueue :=
  match q.heap timer with
  | some _ => .ok (q.setHeap timer none)
  | none => .error .doubleDelete

def resetTimerfd (expiration clock : Timestamp) (q : TimerQueue) : TimerQueue :=
  let value := howMuchTimeFromNow expiration clock
  { q with
    timerfd := timerfd_settime clock value
    settimes := q.settimes ++ [⟨clock, expiration, value⟩] }

/-- `insert`, with its answer whether the earliest timer has changed. -/
def insert (timer : Nat) (q : TimerQueue) : Except Fault (TimerQueue × Bool) := do
  assertThat (q.timers.size = q.activeTimers.size)
  let t ← q.deref timer
  let earliestChanged :=
    match q.timers.begin with
    | none => true
    | some e => t.expiration < e.when_
  let entry := Entry.mk t.expiration timer
  assertThat (entry ∉ q.timers)
  let active := ActiveTimer.mk timer t.sequence
  assertThat (active ∉ q.activeTimers)
  let q := { q with
    timers := q.timers.insert entry
    activeTimers := q.activeTimers.insert active }
  assertThat (q.timers.size = q.activeTimers.size)
  return (q, earliestChanged)

/-- The constructor call of `addTimer`, on any thread. `repeat_` is whether the
`double` that `interval` was made of is positive. -/
def newTimer (timer : Nat) (when_ : Timestamp) (interval : Int) (repeat_ : Bool)
    (q : TimerQueue) : TimerQueue :=
  let t : Timer := ⟨when_, interval, repeat_, q.numCreated + 1⟩
  { q.setHeap timer (some t) with
    numCreated := q.numCreated + 1
    unadded := q.unadded ++ [timer] }

def addTimerInLoop (timer : Nat) (clock : Timestamp) (q : TimerQueue) :
    Except Fault TimerQueue := do
  let t ← q.deref timer
  let (q, earliestChanged) ← { q with
    unadded := q.unadded.erase timer
    added := q.added ++ [ActiveTimer.mk timer t.sequence] }.insert timer
  if earliestChanged then
    let t ← q.deref timer
    return q.resetTimerfd t.expiration clock
  else return q

def cancelInLoop (timerId : ActiveTimer) (q : TimerQueue) : Except Fault TimerQueue := do
  assertThat (q.timers.size = q.activeTimers.size)
  let timer := (ofLex timerId).1
  let q := { q with cancelled := q.cancelled ++ [timerId] }
  let q ←
    if timerId ∈ q.activeTimers then do
      let t ← q.deref timer
      let entry := Entry.mk t.expiration timer
      assertThat (entry ∈ q.timers)
      let q ← { q with timers := q.timers.erase entry }.delete timer
      pure { q with activeTimers := q.activeTimers.erase timerId }
    else if q.callingExpiredTimers then
      pure { q with cancelingTimers := q.cancelingTimers.insert timerId }
    else pure q
  assertThat (q.timers.size = q.activeTimers.size)
  return q

/-- The loop of `getExpired` that takes the expired timers out of
`activeTimers`. -/
def eraseExpired : List Entry → TimerQueue → Except Fault TimerQueue
  | [], q => .ok q
  | e :: expired, q => do
      let t ← q.deref e.timer
      let timer := ActiveTimer.mk e.timer t.sequence
      assertThat (timer ∈ q.activeTimers)
      eraseExpired expired { q with activeTimers := q.activeTimers.erase timer }

def getExpired (now : Timestamp) (q : TimerQueue) :
    Except Fault (TimerQueue × List Entry) := do
  assertThat (q.timers.size = q.activeTimers.size)
  let sentry := Entry.mk now UINTPTR_MAX
  let expired := q.timers.below sentry
  let end_ := (q.timers.above sentry).begin
  assertThat (∀ e ∈ end_, now < e.when_)
  let q ← eraseExpired expired { q with timers := q.timers.above sentry }
  assertThat (q.timers.size = q.activeTimers.size)
  return (q, expired)

/-- `handleRead` up to its first callback. Reading the timerfd takes its
expiration, if there is one. -/
def handleReadBegin (now : Timestamp) (q : TimerQueue) : Except Fault TimerQueue := do
  let (q, expired) ← { q with
    timerfd := match q.timerfd with | .fired _ => .disarmed | fd => fd }.getExpired now
  return { q with
    callingExpiredTimers := true
    cancelingTimers := .empty
    phase := .calling now [] expired }

/-- `it.second->run()`, up to where the callback starts. -/
def runNext (q : TimerQueue) : Except Fault TimerQueue :=
  match q.phase with
  | .calling now started (e :: rest) => do
      let t ← q.deref e.timer
      return { q with
        phase := .calling now (started ++ [e]) rest
        ran := q.ran ++ [⟨now, e.timer, t⟩] }
  | _ => .ok q

/-- The loop of `reset`. -/
def resetExpired (now : Timestamp) : List Entry → TimerQueue → Except Fault TimerQueue
  | [], q => .ok q
  | e :: expired, q => do
      let t ← q.deref e.timer
      let timer := ActiveTimer.mk e.timer t.sequence
      if t.repeat_ ∧ timer ∉ q.cancelingTimers then
        let (q, _) ← (q.setHeap e.timer (some (t.restart now))).insert e.timer
        resetExpired now expired q
      else
        let q ← q.delete e.timer
        resetExpired now expired q

/-- The expiration of the first timer, or `Timestamp()`. -/
def nextExpire (q : TimerQueue) : Except Fault Timestamp :=
  match q.timers.begin with
  | some e => do
      let t ← q.deref e.timer
      return t.expiration
  | none => .ok Timestamp.invalid

def reset (expired : List Entry) (now clock : Timestamp) (q : TimerQueue) :
    Except Fault TimerQueue := do
  let q ← resetExpired now expired q
  let nextExpire ← q.nextExpire
  if nextExpire.valid then return q.resetTimerfd nextExpire clock
  else return q

/-- `handleRead` after its last callback. -/
def handleReadEnd (clock : Timestamp) (q : TimerQueue) : Except Fault TimerQueue :=
  match q.phase with
  | .calling now started _ =>
      { q with callingExpiredTimers := false, phase := .idle }.reset started now clock
  | .idle => .ok q

end TimerQueue

/-! ## The loop thread -/

inductive TimerAction where
  | newTimer (timer : Nat) (when_ : Timestamp) (interval : Int) (repeat_ : Bool)
  | addTimerInLoop (timer : Nat) (clock : Timestamp)
  | cancelInLoop (timerId : ActiveTimer)
  | handleReadBegin (now : Timestamp)
  | runNext
  | handleReadEnd (clock : Timestamp)
  | timerfdFires

namespace TimerQueue

/-- The loop thread may run user code: it is not inside `handleRead`, or it
is inside a callback. -/
def userCode (q : TimerQueue) : Bool :=
  match q.phase with
  | .idle => true
  | .calling _ started _ => !started.isEmpty

def guard (q : TimerQueue) : TimerAction → Bool
  | .newTimer timer _ _ _ =>
      (q.heap timer).isNone && timer ≠ 0 && timer < UINTPTR_MAX
  | .addTimerInLoop timer _ => q.userCode && q.unadded.contains timer
  | .cancelInLoop _ => q.userCode
  | .handleReadBegin _ => match q.phase with | .idle => true | _ => false
  | .runNext => match q.phase with | .calling _ _ (_ :: _) => true | _ => false
  | .handleReadEnd _ => match q.phase with | .calling _ _ [] => true | _ => false
  | .timerfdFires => match q.timerfd with | .armed _ => true | _ => false

def exec : TimerAction → TimerQueue → Except Fault TimerQueue
  | .newTimer timer when_ interval repeat_, q => .ok (q.newTimer timer when_ interval repeat_)
  | .addTimerInLoop timer clock, q => q.addTimerInLoop timer clock
  | .cancelInLoop timerId, q => q.cancelInLoop timerId
  | .handleReadBegin now, q => q.handleReadBegin now
  | .runNext, q => q.runNext
  | .handleReadEnd clock, q => q.handleReadEnd clock
  | .timerfdFires, q => .ok { q with
      timerfd := match q.timerfd with | .armed deadline => .fired deadline | fd => fd }

def machine : Machine TimerQueue TimerAction Fault := ⟨guard, exec⟩

end TimerQueue

/-! ## One queue among several -/

/-- `s_numCreated_` counts the timers of all queues. -/
inductive SharedTimerAction where
  | own (a : TimerAction)
  | createdElsewhere

namespace TimerQueue

def sharedMachine : Machine TimerQueue SharedTimerAction Fault where
  guard
    | q, .own a => q.guard a
    | _, .createdElsewhere => true
  exec
    | .own a, q => exec a q
    | .createdElsewhere, q => .ok { q with numCreated := q.numCreated + 1 }

end TimerQueue

end Libanet.Net
