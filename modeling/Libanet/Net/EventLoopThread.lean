import Libanet.Net.EventLoop

/-!
# `net/EventLoopThread.cc`

A thread with an event loop of its own. `threadFunc` makes the loop, shows it
to the callback, and stores its address in `loop_`, for which `startLoop` has
been waiting: from then on other threads may call `queueInLoop` and `quit`,
and the destructor calls `quit` and joins the thread. Only then does
`threadFunc` enter `loop()`, once, and when that returns the loop is gone.

Before `loop()` the thread runs code of the user, which may queue functors and
quit as it may in a handler. Both sides of the publication are open to it.
-/

namespace Libanet.Net

/-- Where `threadFunc` stands. -/
inductive ThreadFuncPc where
  /-- The loop has been made, and `callback_` is being run. -/
  | callback
  /-- `loop_` has been set. -/
  | published
  /-- Inside `loop()`. -/
  | looping
  | returned
  deriving DecidableEq, Repr

structure EventLoopThread (Tid F : Type) where
  loop : EventLoop Tid F
  pc : ThreadFuncPc

inductive ThreadAction (Tid F : Type) where
  /-- `loop_ = &loop`. -/
  | publish
  | loop (a : LoopAction Tid F)

namespace EventLoopThread

variable {Tid F : Type}

def new : EventLoopThread Tid F := ⟨.new, .callback⟩

/-- Other threads know the loop while `loop_` is set, and `loop()` is called
once. -/
def loopGuard (s : EventLoopThread Tid F) : LoopAction Tid F → Bool
  | .push _ _ | .quit _ => s.pc = .published ∨ s.pc = .looping
  | .queueInLoop _ | .quitInLoop => s.pc ≠ .returned
  | .loop => s.pc = .published
  | _ => true

variable [DecidableEq Tid]

def guard (s : EventLoopThread Tid F) : ThreadAction Tid F → Bool
  | .publish => s.pc = .callback && !s.loop.inQueueInLoop
  | .loop a => s.loop.guard a && s.loopGuard a

def exec : ThreadAction Tid F → EventLoopThread Tid F → Except Fault (EventLoopThread Tid F)
  | .publish, s => .ok { s with pc := .published }
  | .loop a, s => do
      let loop ← EventLoop.exec a s.loop
      let pc := match a with
        | .loop => .looping
        | .whileTest => if s.loop.quit then .returned else s.pc
        | _ => s.pc
      return { s with loop := loop, pc := pc }

def machine : Machine (EventLoopThread Tid F) (ThreadAction Tid F) Fault := ⟨guard, exec⟩

end EventLoopThread

end Libanet.Net
