import Libanet.Net.TcpServer

/-!
# `net/EventLoopThreadPool.cc`

The pool as it is set up: how many threads it is told to have, the threads
that `start` makes, and the loops it then hands out. `EventLoopThreadPool` is
the part of it that a running server uses.

What a new thread's loop is comes in from outside. `startLoop` says which loop
`EventLoopThread::startLoop` answers for the thread with this number: a loop of
its own, and never the base loop. Everything here is called on the base
loop's thread. `initialised` is kept for the record: the loops that the thread
init callback has been called with.
-/

namespace Libanet.Net

/-- The loops of new threads. -/
structure NewLoops (baseLoop : Nat) where
  startLoop : Nat → Nat
  injective : Function.Injective startLoop
  ne_baseLoop : ∀ i, startLoop i ≠ baseLoop

/-- An `EventLoopThreadPool` with the fields that are for setting it up. -/
structure LoopPool extends EventLoopThreadPool where
  name : String
  started : Bool
  /-- An `int`. -/
  numThread : Int
  /-- The names of `threads_`. -/
  threads : List String
  initialised : List Nat

namespace LoopPool

/-- The constructor. -/
def new (baseLoop : Nat) (nameArg : String) : LoopPool where
  baseLoop := baseLoop
  loops := []
  next := 0
  name := nameArg
  started := false
  numThread := 0
  threads := []
  initialised := []

/-- The source has `void setThreadNum(int numThreads) {}`. -/
def setThreadNum (_numThreads : Int) (p : LoopPool) : LoopPool := p

/-- One turn of the loop in `start`. `cb` is whether there is a callback. -/
def startThread (cb : Bool) {baseLoop : Nat} (news : NewLoops baseLoop) (p : LoopPool)
    (i : Nat) : LoopPool :=
  let loop := news.startLoop i
  { p with
    threads := p.threads ++ [p.name ++ toString i]
    initialised := if cb then p.initialised ++ [loop] else p.initialised
    loops := p.loops ++ [loop] }

def start (cb : Bool) {baseLoop : Nat} (news : NewLoops baseLoop) (p : LoopPool) :
    Except Fault LoopPool := do
  assertThat (p.started = false)
  let p := { p with started := true }
  let p := (List.range p.numThread.toNat).foldl (startThread cb news) p
  if p.numThread = 0 ∧ cb then return { p with initialised := p.initialised ++ [p.baseLoop] }
  else return p

def getNextLoop (p : LoopPool) : Except Fault (Nat × LoopPool) := do
  assertThat (p.started = true)
  let (loop, q) ← p.toEventLoopThreadPool.getNextLoop
  return (loop, { p with toEventLoopThreadPool := q })

def getAllLoops (p : LoopPool) : Except Fault (List Nat) := do
  assertThat (p.started = true)
  if p.loops.isEmpty then return [p.baseLoop] else return p.loops

/-- That many calls of `getNextLoop`, with what they answer. -/
def getNextLoops : Nat → LoopPool → Except Fault (List Nat × LoopPool)
  | 0, p => .ok ([], p)
  | m + 1, p => do
      let (loops, p) ← getNextLoops m p
      let (loop, p) ← p.getNextLoop
      return (loops ++ [loop], p)

end LoopPool

/-- What a `TcpServer` is made of until it is started. -/
structure ServerSetup where
  threadPool : LoopPool
  /-- There is a `threadInitCallback_`. -/
  threadInitCallback : Bool
  started : Bool
  /-- `acceptor_->listening()`. -/
  listening : Bool

namespace ServerSetup

/-- The constructor. -/
def new (loop : Nat) (nameArg : String) (threadInitCallback : Bool) : ServerSetup where
  threadPool := .new loop nameArg
  threadInitCallback := threadInitCallback
  started := false
  listening := false

def setThreadNum (numThreads : Int) (s : ServerSetup) : Except Fault ServerSetup := do
  assertThat (0 ≤ numThreads)
  return { s with threadPool := s.threadPool.setThreadNum numThreads }

/-- `loop_->runInLoop` calls `Acceptor::listen` at once. -/
def start {baseLoop : Nat} (news : NewLoops baseLoop) (s : ServerSetup) :
    Except Fault ServerSetup :=
  if s.started then .ok s
  else do
    let threadPool ← s.threadPool.start s.threadInitCallback news
    assertThat (s.listening = false)
    return { s with threadPool := threadPool, started := true, listening := true }

end ServerSetup

end Libanet.Net
