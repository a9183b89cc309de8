import Libanet.Net.InetAddress
import Libanet.Net.TcpConnection

/-!
# `net/TcpServer.cc` and `net/EventLoopThreadPool.cc`

A server accepts connections on its base loop, hands each to a loop of its
pool, and keeps it in a map until it is closed. Three messages make up the
life of a connection here: `connectEstablished`, from the base loop to the
loop of the connection; `removeConnectionInLoop`, back to the base loop
when the connection is closed; and `connectDestroyed`, again to the loop of
the connection. Each travels through the target loop's functor queue, or is
run at once when the target is the loop that sends it; only
`connectDestroyed` is always queued.

Loops are numbered, and so are connections, in the order they are accepted:
a `TcpConnectionPtr` is a number, and `conn` says what it points to. All
functors of a loop are in one queue, those its connections put there
included. `removed` and `history` are kept for the record: which
`removeConnectionInLoop`s have run, and what each connection has run, on
which loop.
-/

namespace Libanet.Net

/-! ## `EventLoopThreadPool` -/

structure EventLoopThreadPool where
  baseLoop : Nat
  loops : List Nat
  next : Nat

/-- The next loop, and the pool after taking it. -/
def EventLoopThreadPool.getNextLoop (p : EventLoopThreadPool) :
    Except Fault (Nat × EventLoopThreadPool) :=
  if p.loops.isEmpty then .ok (p.baseLoop, p)
  else
    match p.loops[p.next]? with
    | none => .error .outOfBounds
    | some loop =>
        .ok (loop, { p with
          next := if p.next + 1 ≥ p.loops.length then 0 else p.next + 1 })

/-! ## The server and the loops around it -/

/-- What is queued on a loop. -/
inductive ServerFunctor where
  | connectEstablished (id : Nat)
  | connFunctor (id : Nat) (f : ConnFunctor)
  | removeConnectionInLoop (id : Nat)
  | connectDestroyed (id : Nat)
  deriving DecidableEq

/-- What a loop runs of a connection. -/
inductive ConnRun where
  | connectEstablished
  | handleEvent
  | functor (f : ConnFunctor)
  | close
  | connectDestroyed
  deriving DecidableEq

structure TcpServer where
  threadPool : EventLoopThreadPool
  name : String
  ipPort : String
  hasWriteCompleteCallback : Bool
  /-- An `int`. -/
  nextConnId : Int
  connections : String → Option Nat
  accepted : Nat
  conn : Nat → TcpConnection
  queue : Nat → List ServerFunctor
  removed : List Nat
  history : Nat → List (Nat × ConnRun)

namespace TcpServer

/-- The constructor, with the pool already started. -/
def new (baseLoop : Nat) (loops : List Nat) (listenAddr : InetAddress)
    (nameArg : String) (wcc : Bool) : Except Fault TcpServer := do
  let ipPort ← listenAddr.toIpPort
  return {
    threadPool := ⟨baseLoop, loops, 0⟩
    name := nameArg
    ipPort := ipPort
    hasWriteCompleteCallback := wcc
    nextConnId := 1
    connections := fun _ => none
    accepted := 0
    conn := fun _ => TcpConnection.new baseLoop "" false false
    queue := fun _ => []
    removed := []
    history := fun _ => [] }

def loop (s : TcpServer) : Nat := s.threadPool.baseLoop

/-- `l->queueInLoop(f)`. -/
def queueInLoop (l : Nat) (f : ServerFunctor) (s : TcpServer) : TcpServer :=
  { s with queue := fun k => if k = l then s.queue k ++ [f] else s.queue k }

/-- The connection as a call has left it. What it has queued is now in its
loop's queue. -/
def store (id : Nat) (c : TcpConnection) (s : TcpServer) : TcpServer :=
  { s with
    conn := fun k => if k = id then { c with posted := [] } else s.conn k
    queue := fun k =>
      if k = c.loop then s.queue k ++ c.posted.map (.connFunctor id) else s.queue k }

def record (l id : Nat) (r : ConnRun) (s : TcpServer) : TcpServer :=
  { s with
    history := fun k => if k = id then s.history k ++ [(l, r)] else s.history k }

/-! ## Closing -/

def removeConnectionInLoop (l id : Nat) (s : TcpServer) : Except Fault TcpServer := do
  assertThat (l = s.loop)
  let conn := s.conn id
  let n := if (s.connections conn.name).isSome then 1 else 0
  let connections := fun k => if k = conn.name then none else s.connections k
  assertThat (n = 1)
  return { s with connections := connections, removed := s.removed ++ [id] }.queueInLoop
    conn.loop (.connectDestroyed id)

/-- `loop_->runInLoop(removeConnectionInLoop)`, called on loop `l`. -/
def removeConnection (l id : Nat) (s : TcpServer) : Except Fault TcpServer :=
  if l = s.loop then s.removeConnectionInLoop l id
  else .ok (s.queueInLoop s.loop (.removeConnectionInLoop id))

/-- The connection has called `closeCallback_` this many times. -/
def closeCallbacks (l id : Nat) : Nat → TcpServer → Except Fault TcpServer
  | 0, s => .ok s
  | n + 1, s => (s.record l id .close).removeConnection l id >>= closeCallbacks l id n

/-- Loop `l` has run `r` of a connection, which has left it as `c`. -/
def ran (l id : Nat) (r : ConnRun) (c : TcpConnection) (s : TcpServer) :
    Except Fault TcpServer :=
  ((s.store id c).record l id r).closeCallbacks l id
    (c.log.count .closeCallback - (s.conn id).log.count .closeCallback)

/-! ## What the loops run -/

def connectEstablished (l id : Nat) (up : List Call) (s : TcpServer) :
    Except Fault TcpServer := do
  assertThat ((s.conn id).loop = l)
  let c ← (s.conn id).connectEstablished up
  s.ran l id .connectEstablished c

def connectDestroyed (l id : Nat) (down : List Call) (s : TcpServer) :
    Except Fault TcpServer := do
  assertThat ((s.conn id).loop = l)
  let c ← (s.conn id).connectDestroyed down
  s.ran l id .connectDestroyed c

/-- Of the functors of a connection, only the user callbacks do not begin
with `assertInLoopThread`. -/
def runConnFunctor (l id : Nat) (f : ConnFunctor) (w : WriteResult)
    (ks down close : List Call) (s : TcpServer) : Except Fault TcpServer := do
  if !f.isCallback then assertThat ((s.conn id).loop = l)
  let c ← (s.conn id).runFunctor f w ks down close
  s.ran l id (.functor f) c

/-- The `snprintf` into `char buf[64]`. -/
def connSuffix (ipPort : String) (nextConnId : Int) : String :=
  String.ofList (snprintf 64 ('-' :: ipPort.toList ++ '#' :: formatD nextConnId))

/-- `newConnection`. `up` is what the user's callback calls if the
connection is established on the spot. -/
def newConnection (up : List Call) (s : TcpServer) : Except Fault TcpServer := do
  let (ioLoop, threadPool) ← s.threadPool.getNextLoop
  let connName := s.name ++ connSuffix s.ipPort s.nextConnId
  let id := s.accepted
  let conn := TcpConnection.new ioLoop connName s.hasWriteCompleteCallback false
  let s := { s with
    threadPool := threadPool
    nextConnId := Int.bmod (s.nextConnId + 1) 0x100000000
    accepted := id + 1
    conn := fun k => if k = id then conn else s.conn k
    connections := fun k => if k = connName then some id else s.connections k }
  if ioLoop = s.loop then s.connectEstablished ioLoop id up
  else return s.queueInLoop ioLoop (.connectEstablished id)

/-- Loop `l` runs the first functor of its queue. -/
def runFunctor (l : Nat) (w : WriteResult) (ks down close : List Call)
    (s : TcpServer) : Except Fault TcpServer :=
  match s.queue l with
  | [] => .ok s
  | f :: fs =>
      let s := { s with queue := fun k => if k = l then fs else s.queue k }
      match f with
      | .connectEstablished id => s.connectEstablished l id ks
      | .connFunctor id f => s.runConnFunctor l id f w ks down close
      | .removeConnectionInLoop id => s.removeConnectionInLoop l id
      | .connectDestroyed id => s.connectDestroyed l id down

/-- The channel of a connection reports an event, on the loop it is on. -/
def handleEvent (id : Nat) (e : TcpConnection.EventScript) (locked : Bool)
    (revents : EventMask) (receiveTime : Timestamp) (s : TcpServer) :
    Except Fault TcpServer := do
  let c ← (s.conn id).handleEvent e locked revents receiveTime
  s.ran (s.conn id).loop id .handleEvent c

/-- A user calls, from any thread. -/
def call (id : Nat) (k : Call) (s : TcpServer) : Except Fault TcpServer := do
  let c ← (s.conn id).call k
  return s.store id c

end TcpServer

end Libanet.Net
