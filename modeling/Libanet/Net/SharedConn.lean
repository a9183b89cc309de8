import Libanet.Lib.Machine
import Libanet.Net.TcpServer

/-!
# Who owns a connection

A `TcpConnection` lives as long as somebody holds a `shared_ptr` to it: the map
of the server, a user, or a functor that was bound to `shared_from_this()` or
to the `conn` of the server. `sendInLoop`, `shutdownInLoop`, `startReadInLoop`
and `stopReadInLoop` are bound to `this` and hold nothing.

The model is of one connection, its loop, the base loop and any number of
threads. A thread that calls `send` or `shutdown` tests `state_` first and puts
its functor on the queue afterwards, and everything else may happen in between.
`doPendingFunctors` swaps the whole queue out and destroys the functors
together, after the last of them has run: until then they hold what they are
bound to. The same is true of the base loop, where the functor of the
connection is `removeConnectionInLoop`. Where the connection lives on the base
loop, both messages of the server are not sent but run on the spot.
-/

namespace Libanet.Net

/-- Bound to `this`. -/
def ConnFunctor.isRaw : ConnFunctor → Bool
  | .sendInLoop _ => true
  | .shutdownInLoop => true
  | .startReadInLoop => true
  | .stopReadInLoop => true
  | _ => false

/-- A functor of the connection on the queue of its loop. -/
inductive ConnWork where
  | connectEstablished
  | connFunctor (f : ConnFunctor)
  | connectDestroyed
  deriving DecidableEq, Repr

def ConnWork.isRaw : ConnWork → Bool
  | .connFunctor f => f.isRaw
  | _ => false

/-- A holder of a `shared_ptr` to the connection. -/
inductive Owner (Tid : Type) where
  | connections
  | handle (t : Tid)
  | functor (f : ConnWork)
  | removeConnectionInLoop
  deriving DecidableEq, Repr

/-- A call of a thread that is not the loop's. -/
def Call.fromThread : Call → Bool
  | .send inLoop _ _ => !inLoop
  | .shutdown inLoop => !inLoop
  | .forceClose => true
  | .startRead inLoop => !inLoop
  | .stopRead inLoop => !inLoop

/-- A call of a callback, which the loop runs. -/
def Call.fromLoop : Call → Bool
  | .send inLoop _ _ => inLoop
  | .shutdown inLoop => inLoop
  | .forceClose => true
  | .startRead inLoop => inLoop
  | .stopRead inLoop => inLoop

structure SharedConn (Tid : Type) where
  conn : TcpConnection
  /-- The loop of the connection is the base loop. -/
  onBaseLoop : Bool
  /-- The server has not been destroyed. -/
  alive : Bool
  /-- The connection is in `connections_`. -/
  mapped : Bool
  /-- The threads that hold a `TcpConnectionPtr`, once for each they hold. -/
  handles : List Tid
  /-- What a thread inside a call has still to put on the queue. -/
  calling : Tid → Option (List ConnFunctor)
  pendingFunctors : List ConnWork
  callingPendingFunctors : Bool
  /-- The local vector of `doPendingFunctors`, and the part of it that has not
  been run. -/
  functors : List ConnWork
  todo : List ConnWork
  /-- The `removeConnectionInLoop`s on the queue of the base loop, and those
  that have run there and are not destroyed yet. -/
  removing : Nat
  removed : Nat

namespace SharedConn

variable {Tid : Type}

def owners (s : SharedConn Tid) : List (Owner Tid) :=
  (if s.mapped then [.connections] else []) ++ s.handles.map .handle ++
    ((s.pendingFunctors ++ s.functors).filter (!·.isRaw)).map .functor ++
    List.replicate (s.removing + s.removed) .removeConnectionInLoop

def queueInLoop (f : ConnWork) (s : SharedConn Tid) : SharedConn Tid :=
  { s with pendingFunctors := s.pendingFunctors ++ [f] }

/-- The connection as its loop has left it, what it has queued on the queue. -/
def store (c : TcpConnection) (s : SharedConn Tid) : SharedConn Tid :=
  { s with
    conn := { c with posted := [] }
    pendingFunctors := s.pendingFunctors ++ c.posted.map .connFunctor }

/-! ## The server -/

def removeConnectionInLoop (s : SharedConn Tid) : Except Fault (SharedConn Tid) :=
  if !s.alive then .error .useAfterFree
  else do
    assertThat (s.mapped = true)
    return { s with mapped := false }.queueInLoop .connectDestroyed

def removeConnection (s : SharedConn Tid) : Except Fault (SharedConn Tid) :=
  if !s.alive then .error .useAfterFree
  else if s.onBaseLoop then s.removeConnectionInLoop
  else .ok { s with removing := s.removing + 1 }

/-- The connection has called `closeCallback_` this many times. -/
def closeCallbacks : Nat → SharedConn Tid → Except Fault (SharedConn Tid)
  | 0, s => .ok s
  | n + 1, s => s.removeConnection >>= closeCallbacks n

/-- The loop has run something of the connection, which has left it as `c`. -/
def ran (c : TcpConnection) (s : SharedConn Tid) : Except Fault (SharedConn Tid) :=
  (s.store c).closeCallbacks (c.log.count .closeCallback - s.conn.log.count .closeCallback)

/-- The server has accepted the connection. -/
def newConnection (conn : TcpConnection) (onBaseLoop : Bool) (up : List Call) :
    Except Fault (SharedConn Tid) :=
  let s : SharedConn Tid :=
    ⟨conn, onBaseLoop, true, true, [], fun _ => none, [], false, [], [], 0, 0⟩
  if onBaseLoop then conn.connectEstablished up >>= fun c => s.ran c
  else .ok (s.queueInLoop .connectEstablished)

/-- `~TcpServer`, as far as it is about this connection. -/
def destroyServer (down : List Call) (s : SharedConn Tid) : Except Fault (SharedConn Tid) :=
  if !s.alive then .error .doubleDelete
  else
    let s' := { s with alive := false, mapped := false }
    if s.mapped then
      if s.onBaseLoop then s.conn.connectDestroyed down >>= fun c => s'.ran c
      else .ok (s'.queueInLoop .connectDestroyed)
    else .ok s'

/-! ## The loop -/

/-- What a functor brings in from outside. -/
structure WorkInput where
  write : WriteResult
  up : List Call
  user : List Call
  down : List Call
  close : List Call

/-- A functor bound to `this` follows the pointer, whether there is a connection
or not. -/
def runWork (e : WorkInput) (s : SharedConn Tid) : ConnWork → Except Fault (SharedConn Tid)
  | .connectEstablished => s.conn.connectEstablished e.up >>= fun c => s.ran c
  | .connFunctor f =>
      if f.isRaw && s.owners.isEmpty then .error .useAfterFree
      else s.conn.runFunctor f e.write e.user e.down e.close >>= fun c => s.ran c
  | .connectDestroyed => s.conn.connectDestroyed e.down >>= fun c => s.ran c

end SharedConn

inductive SharedAction (Tid : Type) where
  /-- A thread copies a `TcpConnectionPtr`. -/
  | take (t : Tid)
  | drop (t : Tid)
  /-- A thread calls, and gets as far as the queue. -/
  | call (t : Tid) (k : Call)
  /-- It puts its functor there, and the call returns. -/
  | push (t : Tid)
  | handleEvent (e : TcpConnection.EventScript) (revents : EventMask)
      (receiveTime : Timestamp)
  /-- `doPendingFunctors` swaps the queue out. -/
  | swap
  | runFunctor (e : SharedConn.WorkInput)
  /-- It returns, and the functors are destroyed. -/
  | functorsDone
  /-- The base loop runs a `removeConnectionInLoop`. -/
  | removeConnectionInLoop
  /-- The base loop returns from its `doPendingFunctors`. -/
  | baseFunctorsDone
  | destroyServer (down : List Call)

namespace SharedConn

variable {Tid : Type} [DecidableEq Tid]

def guard (s : SharedConn Tid) : SharedAction Tid → Bool
  | .take _ => !s.owners.isEmpty
  | .drop t => s.handles.contains t && (s.calling t).isNone
  | .call t k => s.handles.contains t && (s.calling t).isNone && k.fromThread
  | .push t => (s.calling t).isSome
  | .handleEvent e _ _ =>
      !s.callingPendingFunctors && !s.conn.channel.isNoneEvent &&
        (e.message ++ e.down ++ e.close).all Call.fromLoop
  | .swap => !s.callingPendingFunctors
  | .runFunctor e =>
      !s.todo.isEmpty && (e.up ++ e.user ++ e.down ++ e.close).all Call.fromLoop
  | .functorsDone => s.callingPendingFunctors && s.todo.isEmpty
  | .removeConnectionInLoop => 0 < s.removing
  | .baseFunctorsDone => true
  | .destroyServer down => down.all Call.fromLoop

def setCalling (t : Tid) (fs : Option (List ConnFunctor)) (s : SharedConn Tid) :
    SharedConn Tid :=
  { s with calling := fun u => if u = t then fs else s.calling u }

def exec : SharedAction Tid → SharedConn Tid → Except Fault (SharedConn Tid)
  | .take t, s => .ok { s with handles := s.handles ++ [t] }
  | .drop t, s => .ok { s with handles := s.handles.erase t }
  | .call t k, s => do
      let c ← s.conn.call k
      return { s with conn := { c with posted := [] } }.setCalling t (some c.posted)
  | .push t, s =>
      .ok ({ s with pendingFunctors :=
        s.pendingFunctors ++ ((s.calling t).getD []).map ConnWork.connFunctor }.setCalling t none)
  | .handleEvent e revents receiveTime, s => do
      let c ← s.conn.handleEvent e (!s.owners.isEmpty) revents receiveTime
      s.ran c
  | .swap, s =>
      .ok { s with
        pendingFunctors := [], callingPendingFunctors := true
        functors := s.pendingFunctors, todo := s.pendingFunctors }
  | .runFunctor e, s =>
      match s.todo with
      | [] => .ok s
      | f :: todo => { s with todo := todo }.runWork e f
  | .functorsDone, s => .ok { s with callingPendingFunctors := false, functors := [] }
  | .removeConnectionInLoop, s =>
      { s with removing := s.removing - 1, removed := s.removed + 1 }.removeConnectionInLoop
  | .baseFunctorsDone, s => .ok { s with removed := 0 }
  | .destroyServer down, s => s.destroyServer down

def machine : Machine (SharedConn Tid) (SharedAction Tid) Fault := ⟨guard, exec⟩

end SharedConn

end Libanet.Net
