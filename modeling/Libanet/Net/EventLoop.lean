import Libanet.Base.Assert
import Libanet.Lib.Machine

/-!
# `net/EventLoop.cc`

An event loop and the threads around it. The loop thread runs `loop()`: it
polls, dispatches the active channels, runs the functors that other threads
or its own handlers have queued, and polls again. Any thread may queue a
functor; all but the loop thread also wake the poller up, through an
eventfd whose counter a write increases and a read sets back to zero.

Nothing here is atomic that the source does not make atomic. A push is one
critical section and the `wakeup` that follows it another step, so pushes
and wakeups of several threads fall anywhere between the steps of the loop;
the loop thread's own `queueInLoop` is cut in two in the same way. `LoopPc`
says where in `loop()` the loop thread stands. What functors and handlers
do is up to the user: they are steps of the loop thread during which it may
call `queueInLoop` and `quit` any number of times.
-/

namespace Libanet.Net

/-- A channel the poller reports: the loop's own eventfd, or another. -/
inductive ActiveChannel where
  | wakeupChannel
  | other
  deriving DecidableEq, Repr

/-- Where the loop thread stands. -/
inductive LoopPc (F : Type) where
  -- not inside `loop()`
  | outside
  -- at the condition of the `while`
  | whileTest
  -- inside `poller_->poll`
  | poll
  -- in the loop over `activeChannels_`, these still to come
  | dispatch (active : List ActiveChannel)
  -- inside the handler of a channel other than the loop's own
  | handler (active : List ActiveChannel)
  -- inside `doPendingFunctors`, before the swap
  | beforeSwap
  -- in the loop over `functors`, these still to come
  | batch (functors : List F)
  -- inside one of them
  | functor (functors : List F)

namespace LoopPc

variable {F : Type}

/-- The loop thread is running user code. -/
def userCode : LoopPc F → Bool
  | outside | handler _ | functor _ => true
  | _ => false

/-- The part of the batch that has not been run yet. -/
def rest : LoopPc F → List F
  | batch functors | functor functors => functors
  | _ => []

end LoopPc

/-- Where a thread that is not the loop thread stands. -/
inductive ThreadPc where
  | idle
  -- inside `queueInLoop`, pushed, the `wakeup` still to come
  | pushed
  -- inside `quit`, `quit_` set, the `wakeup` still to come
  | quitting
  deriving DecidableEq, Repr

structure EventLoop (Tid F : Type) where
  looping : Bool
  quit : Bool
  eventHandling : Bool
  callingPendingFunctors : Bool
  iteration : Nat
  pendingFunctors : List F
  /-- The counter of the eventfd behind `wakeupFd_`. -/
  wakeupCounter : Nat
  pc : LoopPc F
  /-- The loop thread is inside `queueInLoop`, past its push. -/
  inQueueInLoop : Bool
  thread : Tid → ThreadPc
  /-- A `doPendingFunctors` of this call of `loop()` has completed. -/
  completedFunctors : Bool
  /-- All functors pushed so far, in the order of the pushes. -/
  pushed : List F
  /-- All functors run so far, in the order they were run. -/
  executed : List F

/-- A step of the loop thread or of another thread. -/
inductive LoopAction (Tid F : Type) where
  | push (t : Tid) (f : F)
  | quit (t : Tid)
  | wakeup (t : Tid)
  | queueInLoop (f : F)
  | queueInLoopReturn
  | quitInLoop
  | loop
  | whileTest
  | pollReturn (active : List ActiveChannel)
  | handleEvent
  | handlerReturn
  | dispatchDone
  | swap
  | runFunctor
  | functorReturn
  | functorsDone

namespace EventLoop

variable {Tid F : Type}

/-- The constructor. -/
def new : EventLoop Tid F where
  looping := false
  quit := false
  eventHandling := false
  callingPendingFunctors := false
  iteration := 0
  pendingFunctors := []
  wakeupCounter := 0
  pc := .outside
  inQueueInLoop := false
  thread := fun _ => .idle
  completedFunctors := false
  pushed := []
  executed := []

/-- The critical section of `queueInLoop`. -/
def push (f : F) (l : EventLoop Tid F) : EventLoop Tid F :=
  { l with
    pendingFunctors := l.pendingFunctors ++ [f]
    pushed := l.pushed ++ [f] }

/-- `wakeup`: the eventfd adds the 1 that is written. -/
def wakeup (l : EventLoop Tid F) : EventLoop Tid F :=
  { l with wakeupCounter := l.wakeupCounter + 1 }

/-- `handleRead`: the read sets the eventfd back to 0. -/
def handleRead (l : EventLoop Tid F) : EventLoop Tid F :=
  { l with wakeupCounter := 0 }

/-- What `queueInLoop` does after its critical section. -/
def wakeupIfNeeded (isInLoopThread : Bool) (l : EventLoop Tid F) :
    EventLoop Tid F :=
  if !isInLoopThread || l.callingPendingFunctors then l.wakeup else l

def setThread [DecidableEq Tid] (t : Tid) (pc : ThreadPc)
    (l : EventLoop Tid F) : EventLoop Tid F :=
  { l with thread := fun u => if u = t then pc else l.thread u }

variable [DecidableEq Tid]

def guard (l : EventLoop Tid F) : LoopAction Tid F → Bool
  | .push t _ => l.thread t = .idle
  | .quit t => l.thread t = .idle
  | .wakeup t => l.thread t ≠ .idle
  | .queueInLoop _ => l.pc.userCode && !l.inQueueInLoop
  | .queueInLoopReturn => l.inQueueInLoop
  | .quitInLoop => l.pc.userCode && !l.inQueueInLoop
  | .loop => match l.pc with | .outside => !l.inQueueInLoop | _ => false
  | .whileTest => match l.pc with | .whileTest => true | _ => false
  | .pollReturn _ => match l.pc with | .poll => true | _ => false
  | .handleEvent => match l.pc with | .dispatch (_ :: _) => true | _ => false
  | .handlerReturn =>
      match l.pc with | .handler _ => !l.inQueueInLoop | _ => false
  | .dispatchDone => match l.pc with | .dispatch [] => true | _ => false
  | .swap => match l.pc with | .beforeSwap => true | _ => false
  | .runFunctor => match l.pc with | .batch (_ :: _) => true | _ => false
  | .functorReturn =>
      match l.pc with | .functor _ => !l.inQueueInLoop | _ => false
  | .functorsDone => match l.pc with | .batch [] => true | _ => false

def exec : LoopAction Tid F → EventLoop Tid F → Except Fault (EventLoop Tid F)
  | .push t f, l => .ok ((l.push f).setThread t .pushed)
  | .quit t, l => .ok ({ l with quit := true }.setThread t .quitting)
  | .wakeup t, l => .ok ((l.wakeupIfNeeded false).setThread t .idle)
  | .queueInLoop f, l => .ok { l.push f with inQueueInLoop := true }
  | .queueInLoopReturn, l =>
      .ok { l.wakeupIfNeeded true with inQueueInLoop := false }
  | .quitInLoop, l => .ok { l with quit := true }
  | .loop, l => do
      assertThat (l.looping = false)
      return { l with
        looping := true, quit := false, pc := .whileTest
        completedFunctors := false }
  | .whileTest, l =>
      if !l.quit then .ok { l with pc := .poll }
      else .ok { l with looping := false, pc := .outside }
  | .pollReturn active, l =>
      .ok { l with
        iteration := l.iteration + 1, eventHandling := true
        pc := .dispatch active }
  | .handleEvent, l =>
      match l.pc with
      | .dispatch (.wakeupChannel :: active) =>
          .ok { l.handleRead with pc := .dispatch active }
      | .dispatch (.other :: active) => .ok { l with pc := .handler active }
      | _ => .ok l
  | .handlerReturn, l => .ok { l with
      pc := match l.pc with | .handler active => .dispatch active | pc => pc }
  | .dispatchDone, l =>
      .ok { l with
        eventHandling := false, callingPendingFunctors := true
        pc := .beforeSwap }
  | .swap, l =>
      .ok { l with pendingFunctors := [], pc := .batch l.pendingFunctors }
  | .runFunctor, l =>
      match l.pc with
      | .batch (f :: functors) =>
          .ok { l with executed := l.executed ++ [f], pc := .functor functors }
      | _ => .ok l
  | .functorReturn, l => .ok { l with
      pc := match l.pc with | .functor functors => .batch functors | pc => pc }
  | .functorsDone, l =>
      .ok { l with
        callingPendingFunctors := false, completedFunctors := true
        pc := .whileTest }

def machine : Machine (EventLoop Tid F) (LoopAction Tid F) Fault :=
  ⟨guard, exec⟩

end EventLoop

end Libanet.Net
