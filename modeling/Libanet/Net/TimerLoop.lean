import Libanet.Net.EventLoop
import Libanet.Net.TimerQueue

/-!
# An `EventLoop` and its `TimerQueue`

`runAt`, `runAfter`, `runEvery` and `cancel` may be called on any thread.
The first three are `addTimer`, which makes the timer where it is called and
hands `addTimerInLoop` to `runInLoop`; `cancel` hands over `cancelInLoop`.
What `runInLoop` does depends on the thread: on the loop thread the functor
is run at once, whatever user code the loop thread is in, and on any other
thread it goes to the end of the loop's queue.

A thread is an `Option Tid`, where `none` is the loop thread. An `addTimer`
is not one step. Other threads may take theirs between its `new` and its
`runInLoop`; and on a thread other than the loop's, the `TimerId` is made
after that, from a timer the loop may have got hold of in the meantime.
`returned` keeps for every call both the timer it made and the `TimerId` it
answered. `cancel` takes any `TimerId`.

The loop thread is inside `handleRead` only while it is in a handler. The
functors of the timers take no step of their own inside `doPendingFunctors`:
they call nothing, so they are run from their start to their end.
-/

namespace Libanet.Net

/-- What the queue of the loop holds, as far as timers go. -/
inductive TimerFunctor where
  | addTimerInLoop (timer : Nat)
  | cancelInLoop (timerId : ActiveTimer)
  | user
  deriving DecidableEq

def TimerQueue.runFunctor (clock : Timestamp) (q : TimerQueue) :
    TimerFunctor → Except Fault TimerQueue
  | .addTimerInLoop timer => q.addTimerInLoop timer clock
  | .cancelInLoop timerId => q.cancelInLoop timerId
  | .user => .ok q

structure TimerLoop (Tid : Type) where
  loop : EventLoop Tid TimerFunctor
  timerQueue : TimerQueue
  /-- The threads inside `addTimer`, between its `new` and its `runInLoop`. -/
  created : List (Option Tid × ActiveTimer)
  /-- The threads inside `addTimer` that have pushed and not returned yet. -/
  queued : List (Tid × ActiveTimer)
  /-- The calls of `addTimer` that have returned. -/
  returned : List (ActiveTimer × ActiveTimer)

inductive TimerLoopAction (Tid : Type) where
  /-- A step that has nothing to do with timers. -/
  | loop (a : LoopAction Tid TimerFunctor)
  /-- `addTimer`, up to its `runInLoop`. -/
  | newTimer (t : Option Tid) (timer : Nat) (when_ : Timestamp) (interval : Int)
      (repeat_ : Bool)
  /-- The `runInLoop` of `addTimer`. -/
  | addTimer (t : Option Tid) (timerId : ActiveTimer) (clock : Timestamp)
  /-- The end of `addTimer`, on a thread other than the loop's. -/
  | addTimerReturn (t : Tid) (timerId : ActiveTimer)
  | cancel (t : Option Tid) (timerId : ActiveTimer)
  /-- `doPendingFunctors` runs a functor of the timers. -/
  | runFunctor (clock : Timestamp)
  /-- A step of `handleRead`, or of the timerfd. -/
  | timer (a : TimerAction)

namespace TimerLoop

variable {Tid : Type}

def new : TimerLoop Tid where
  loop := .new
  timerQueue := .new
  created := []
  queued := []
  returned := []

variable [DecidableEq Tid]

def inAddTimer (t : Option Tid) (s : TimerLoop Tid) : Bool :=
  s.created.any (fun c => c.1 = t) || s.queued.any (fun c => some c.1 = t)

/-- The thread is in code of the user, between two calls. -/
def inUserCode (t : Option Tid) (s : TimerLoop Tid) : Bool :=
  !s.inAddTimer t &&
    match t with
    | none => s.loop.pc.userCode && !s.loop.inQueueInLoop && s.timerQueue.userCode
    | some t => s.loop.thread t = .idle

def handleReadDone (s : TimerLoop Tid) : Bool :=
  match s.timerQueue.phase with
  | .idle => true
  | .calling _ _ _ => false

/-- What the loop or a thread must not be in the middle of. -/
def loopGuard (s : TimerLoop Tid) : LoopAction Tid TimerFunctor → Bool
  | .push t f => f = .user && s.inUserCode (some t)
  | .quit t => s.inUserCode (some t)
  | .queueInLoop f => f = .user && s.inUserCode none
  | .quitInLoop => s.inUserCode none
  | .loop | .handlerReturn | .functorReturn => !s.inAddTimer none && s.handleReadDone
  | .runFunctor => match s.loop.pc with | .batch (.user :: _) => true | _ => false
  | _ => true

def timerGuard (s : TimerLoop Tid) : TimerAction → Bool
  | .handleReadBegin _ =>
      s.inUserCode none && match s.loop.pc with | .handler _ => true | _ => false
  | .runNext | .handleReadEnd _ => !s.inAddTimer none && !s.loop.inQueueInLoop
  | .timerfdFires => true
  | _ => false

def guard (s : TimerLoop Tid) : TimerLoopAction Tid → Bool
  | .loop a => s.loop.guard a && s.loopGuard a
  | .newTimer t timer when_ interval repeat_ =>
      s.inUserCode t && s.timerQueue.guard (.newTimer timer when_ interval repeat_)
  | .addTimer t timerId _ =>
      s.created.contains (t, timerId) &&
        match t with
        | none => s.timerQueue.userCode
        | some t => s.loop.thread t = .idle
  | .addTimerReturn t timerId =>
      s.queued.contains (t, timerId) && s.loop.thread t = .idle
  | .cancel t _ => s.inUserCode t
  | .runFunctor _ =>
      match s.loop.pc with | .batch (f :: _) => f ≠ .user | _ => false
  | .timer a => s.timerQueue.guard a && s.timerGuard a

def exec : TimerLoopAction Tid → TimerLoop Tid → Except Fault (TimerLoop Tid)
  | .loop a, s => do
      let loop ← EventLoop.exec a s.loop
      return { s with loop := loop }
  | .newTimer t timer when_ interval repeat_, s =>
      .ok { s with
        timerQueue := s.timerQueue.newTimer timer when_ interval repeat_
        created := s.created ++ [(t, ActiveTimer.mk timer (s.timerQueue.numCreated + 1))] }
  | .addTimer none timerId clock, s => do
      let q ← s.timerQueue.addTimerInLoop (ofLex timerId).1 clock
      let timer ← q.deref (ofLex timerId).1
      return { s with
        timerQueue := q
        created := s.created.erase (none, timerId)
        returned := s.returned ++
          [(timerId, ActiveTimer.mk (ofLex timerId).1 timer.sequence)] }
  | .addTimer (some t) timerId _, s => do
      let loop ← EventLoop.exec (.push t (.addTimerInLoop (ofLex timerId).1)) s.loop
      return { s with
        loop := loop
        created := s.created.erase (some t, timerId)
        queued := s.queued ++ [(t, timerId)] }
  | .addTimerReturn t timerId, s => do
      let timer ← s.timerQueue.deref (ofLex timerId).1
      return { s with
        queued := s.queued.erase (t, timerId)
        returned := s.returned ++
          [(timerId, ActiveTimer.mk (ofLex timerId).1 timer.sequence)] }
  | .cancel none timerId, s => do
      let q ← s.timerQueue.cancelInLoop timerId
      return { s with timerQueue := q }
  | .cancel (some t) timerId, s => do
      let loop ← EventLoop.exec (.push t (.cancelInLoop timerId)) s.loop
      return { s with loop := loop }
  | .runFunctor clock, s =>
      match s.loop.pc with
      | .batch (f :: _) => do
          let loop ← EventLoop.exec .runFunctor s.loop
          let q ← s.timerQueue.runFunctor clock f
          let loop ← EventLoop.exec .functorReturn loop
          return { s with loop := loop, timerQueue := q }
      | _ => .ok s
  | .timer a, s => do
      let q ← TimerQueue.exec a s.timerQueue
      return { s with timerQueue := q }

def machine : Machine (TimerLoop Tid) (TimerLoopAction Tid) Fault := ⟨guard, exec⟩

end TimerLoop

end Libanet.Net
