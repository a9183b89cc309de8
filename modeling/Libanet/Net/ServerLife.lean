import Libanet.Lib.Machine
import Libanet.Net.TcpServer
import Mathlib.Data.List.Sort

/-!
# The life of a server: dispatch, removal and `~TcpServer`

A server on its loops, from `start` until after its destructor has run. The
loops dispatch the channels their pollers report and run the functors queued
on them; user code runs inside the callbacks and may call any connection it
holds, and on the base loop it may destroy the server. Unlike a connection on
its own, a callback here acts on the whole system, so the functions that call
one are written out again over it: what comes before the callback, the
callback, and what comes after.

`~TcpServer` sends `connectDestroyed` to the loop of every connection that is
still in the map. To the loop that destroys the server it does not send: the
connection is destroyed at once, its channel taken from the poller. Then the
members go. The acceptor takes its channel from the poller; the threads of the
pool are told to quit, and a loop that leaves does not run what is queued on
it (`leaveLoop`).

A step runs one handler or one functor to its end. Up to where it posts to
another loop, a handler touches only what its own loop owns, and `~TcpServer`
none of that: a destruction in the middle of a close is one before it.

Three ways to stop are told apart. `EventLoop::removeChannel` has an assert of
its own about the channels that are being dispatched. A server that is gone is
called again (`serverGone`). Everything else is a fault as elsewhere.
-/

namespace Libanet.Net

/-- What a loop can find in `activeChannels_`. -/
inductive LoopChannel where
  | acceptChannel
  | connection (id : Nat)
  /-- The loop's own, or one of the user's. -/
  | other (n : Nat)
  deriving DecidableEq, Repr

inductive ServerFault where
  /-- The assert of `EventLoop::removeChannel`. -/
  | removeChannel (ch : LoopChannel)
  /-- A function of the server was entered after `~TcpServer`. -/
  | serverGone
  | fault (f : Fault)
  deriving DecidableEq, Repr

/-- What the rest of the model computes, here. -/
def inCode {α : Type} : Except Fault α → Except ServerFault α
  | .ok a => .ok a
  | .error f => .error (.fault f)

/-- The poller has the channel in its map: the last it was told of it is an
update. -/
def Channel.registered (c : Channel) : Bool :=
  match c.told.getLast? with
  | some (.updateChannel _) => true
  | _ => false

/-- `setState(kDisconnected); channel_->disableAll()`, and what
`connectionCallback_` is then shown. -/
def TcpConnection.goDown (c : TcpConnection) : TcpConnection :=
  let c := c.setState .kDisconnected
  let c := { c with channel := c.channel.disableAll }
  c.emit (.connectionCallback c.connected)

/-- Where a loop is in its iteration. `todo` is the part of `activeChannels_`
that the `for` has not come to. -/
structure Dispatch where
  eventHandling : Bool
  activeChannels : List LoopChannel
  currentActiveChannel : Option LoopChannel
  todo : List LoopChannel
  deriving DecidableEq

/-- What `EventLoop::removeChannel` asserts while events are handled. -/
def Dispatch.mayRemove (d : Dispatch) (ch : LoopChannel) : Bool :=
  !d.eventHandling ||
    (d.currentActiveChannel == some ch || !d.activeChannels.contains ch)

/-- What user code does in a callback. The connections a `~TcpServer` takes
down run their DOWN callback, and `down` says which calls these make. -/
inductive UserAct where
  | call (id : Nat) (k : Call)
  | destroy (down : Nat → List (Nat × Call))

/-- What a handler or a functor brings in from outside: the kernel's answers,
and what the user's callbacks do. -/
structure LoopInput where
  revents : EventMask
  receiveTime : Timestamp
  /-- `tie_.lock()` still finds the owner. -/
  locked : Bool
  /-- `accept` returned a descriptor. -/
  accepts : Bool
  read : ReadResult
  write : WriteResult
  up : List UserAct
  message : List UserAct
  down : List UserAct
  /-- Any other callback: of a timer, or of a write that is complete. -/
  user : List UserAct

structure ServerLife where
  server : TcpServer
  alive : Bool
  acceptChannel : Channel
  dispatch : Nat → Dispatch

namespace ServerLife

/-- A server that has been started, and its acceptor listening. -/
def start (baseLoop : Nat) (loops : List Nat) (listenAddr : InetAddress)
    (nameArg : String) (wcc : Bool) : Except Fault ServerLife := do
  let server ← TcpServer.new baseLoop loops listenAddr nameArg wcc
  return ⟨server, true, Channel.new.enableReading, fun _ => ⟨false, [], none, []⟩⟩

def conn (s : ServerLife) (id : Nat) : TcpConnection := s.server.conn id

def store (id : Nat) (c : TcpConnection) (s : ServerLife) : ServerLife :=
  { s with server := s.server.store id c }

def record (l id : Nat) (r : ConnRun) (s : ServerLife) : ServerLife :=
  { s with server := s.server.record l id r }

/-- `poller_->hasChannel(ch)`. -/
def hasChannel (s : ServerLife) : LoopChannel → Bool
  | .acceptChannel => s.acceptChannel.registered
  | .connection id => (s.conn id).channel.registered
  | .other _ => true

/-- The asserts of `EventLoop::removeChannel`, and of the poller it passes the
channel on to. -/
def removeChannel (l : Nat) (ch : LoopChannel) (s : ServerLife) : Except ServerFault Unit :=
  if (s.dispatch l).mayRemove ch then inCode (assertThat (s.hasChannel ch = true))
  else .error (.removeChannel ch)

/-! ## Calls of the user -/

def call (id : Nat) (k : Call) (s : ServerLife) : Except ServerFault ServerLife := do
  let c ← inCode ((s.conn id).call k)
  return s.store id c

def calls : List (Nat × Call) → ServerLife → Except ServerFault ServerLife
  | [], s => .ok s
  | (id, k) :: ks, s => s.call id k >>= calls ks

/-! ## `connectDestroyed` -/

/-- The `if` of `connectDestroyed`. -/
def leaveConnected (id : Nat) (callback : ServerLife → Except ServerFault ServerLife)
    (s : ServerLife) : Except ServerFault ServerLife :=
  if (s.conn id).state = .kConnected then callback (s.store id (s.conn id).goDown)
  else .ok s

def connectDestroyed (l id : Nat) (callback : ServerLife → Except ServerFault ServerLife)
    (s : ServerLife) : Except ServerFault ServerLife := do
  inCode (assertThat ((s.conn id).loop = l))
  let s ← s.leaveConnected id callback
  let channel ← inCode (s.conn id).channel.remove
  s.removeChannel l (.connection id)
  return (s.store id { s.conn id with channel := channel }).record l id .connectDestroyed

/-! ## `~TcpServer` -/

/-- The connections in the map, in the order of their names. -/
def connectionList (s : ServerLife) : List Nat :=
  ((List.range s.server.accepted).filter fun id =>
    s.server.connections (s.conn id).name = some id).insertionSort
    fun i j => (s.conn i).name ≤ (s.conn j).name

/-- `item.second.reset()`. -/
def reset (id : Nat) (s : ServerLife) : ServerLife :=
  { s with server := { s.server with
    connections := fun k => if k = (s.conn id).name then none else s.server.connections k } }

/-- One round of the `for` in the destructor. -/
def dropConnection (l : Nat) (down : Nat → List (Nat × Call)) (s : ServerLife) (id : Nat) :
    Except ServerFault ServerLife :=
  let s := s.reset id
  if (s.conn id).loop = l then s.connectDestroyed l id (calls (down id))
  else .ok { s with server :=
    s.server.queueInLoop (s.conn id).loop (.connectDestroyed id) }

/-- `~Acceptor`, and the `~Channel` of its channel, which may not be in its
`handleEvent`. -/
def destroyAcceptor (l : Nat) (s : ServerLife) : Except ServerFault ServerLife := do
  let s := { s with acceptChannel := s.acceptChannel.disableAll }
  let channel ← inCode s.acceptChannel.remove
  s.removeChannel l .acceptChannel
  inCode (assertThat ((s.dispatch l).currentActiveChannel ≠ some .acceptChannel))
  return { s with acceptChannel := channel }

def destroy (l : Nat) (down : Nat → List (Nat × Call)) (s : ServerLife) :
    Except ServerFault ServerLife := do
  if !s.alive then .error (.fault .doubleDelete)
  inCode (assertThat (l = s.server.loop))
  let s ← s.connectionList.foldlM (dropConnection l down) s
  { s with alive := false }.destroyAcceptor l

/-! ## User code on a loop -/

def act (l : Nat) : UserAct → ServerLife → Except ServerFault ServerLife
  | .call id k, s => s.call id k
  | .destroy down, s => s.destroy l down

def userCode (l : Nat) : List UserAct → ServerLife → Except ServerFault ServerLife
  | [], s => .ok s
  | a :: as, s => s.act l a >>= userCode l as

/-! ## Closing -/

def removeConnectionInLoop (l id : Nat) (s : ServerLife) : Except ServerFault ServerLife :=
  if s.alive then do
    let server ← inCode (s.server.removeConnectionInLoop l id)
    return { s with server := server }
  else .error .serverGone

def removeConnection (l id : Nat) (s : ServerLife) : Except ServerFault ServerLife :=
  if s.alive then do
    let server ← inCode (s.server.removeConnection l id)
    return { s with server := server }
  else .error .serverGone

def handleClose (l id : Nat) (down : List UserAct) (s : ServerLife) :
    Except ServerFault ServerLife := do
  inCode (assertThat ((s.conn id).state = .kConnected ∨ (s.conn id).state = .kDisconnecting))
  let s ← (s.store id (s.conn id).goDown).userCode l down
  ((s.store id ((s.conn id).emit .closeCallback)).record l id .close).removeConnection l id

/-! ## The channel of a connection -/

def handleRead (l id : Nat) (e : LoopInput) (s : ServerLife) :
    Except ServerFault ServerLife :=
  match e.read with
  | .data =>
      (s.store id ((s.conn id).emit (.messageCallback e.receiveTime))).userCode l e.message
  | .eof => s.handleClose l id e.down
  | .failed => .ok s

def handleWrite (id : Nat) (w : WriteResult) (s : ServerLife) :
    Except ServerFault ServerLife := do
  let c ← inCode ((s.conn id).handleWrite w)
  return s.store id c

/-- `if (revents_ & …) callback()`. -/
def fire (cond : Bool) (callback : ServerLife → Except ServerFault ServerLife)
    (s : ServerLife) : Except ServerFault ServerLife :=
  if cond then callback s else .ok s

/-- `handleError` only logs. -/
def handleEventWithGuard (l id : Nat) (e : LoopInput) (s : ServerLife) :
    Except ServerFault ServerLife := do
  let s ← s.fire (e.revents.has POLLHUP && !e.revents.has POLLIN) (handleClose l id e.down)
  let s ← s.fire (e.revents.has (POLLIN ||| POLLPRI ||| POLLRDHUP)) (handleRead l id e)
  s.fire (e.revents.has POLLOUT) (handleWrite id e.write)

/-! ## The channel of the acceptor -/

def connectEstablished (l id : Nat) (up : List UserAct) (s : ServerLife) :
    Except ServerFault ServerLife := do
  inCode (assertThat ((s.conn id).loop = l))
  inCode (assertThat ((s.conn id).state = .kConnecting))
  let c := (s.conn id).setState .kConnected
  let c := { c with channel := c.channel.tie.enableReading }
  let s := (s.store id (c.emit (.connectionCallback c.connected))).record l id
    .connectEstablished
  s.userCode l up

/-- The connection is made and put into the map. -/
def accept (ioLoop : Nat) (threadPool : EventLoopThreadPool) (s : ServerLife) : ServerLife :=
  let connName := s.server.name ++ TcpServer.connSuffix s.server.ipPort s.server.nextConnId
  let id := s.server.accepted
  let conn := TcpConnection.new ioLoop connName s.server.hasWriteCompleteCallback false
  { s with server := { s.server with
    threadPool := threadPool
    nextConnId := Int.bmod (s.server.nextConnId + 1) 0x100000000
    accepted := id + 1
    conn := fun k => if k = id then conn else s.server.conn k
    connections := fun k => if k = connName then some id else s.server.connections k } }

def newConnection (l : Nat) (up : List UserAct) (s : ServerLife) :
    Except ServerFault ServerLife := do
  inCode (assertThat (l = s.server.loop))
  let (ioLoop, threadPool) ← inCode s.server.threadPool.getNextLoop
  let id := s.server.accepted
  let s := s.accept ioLoop threadPool
  if ioLoop = l then s.connectEstablished l id up
  else return { s with server := s.server.queueInLoop ioLoop (.connectEstablished id) }

/-- `Acceptor::handleRead`, of an acceptor that is there. -/
def acceptorHandleRead (l : Nat) (e : LoopInput) (s : ServerLife) :
    Except ServerFault ServerLife :=
  if !s.alive then .error (.fault .useAfterFree)
  else if e.accepts then s.newConnection l e.up
  else .ok s

/-! ## What the loops run -/

/-- `channel->handleEvent(pollReturnTime_)`. The acceptor's channel is not
tied and has no callback but for reading. -/
def handleChannel (l : Nat) (e : LoopInput) (s : ServerLife) :
    LoopChannel → Except ServerFault ServerLife
  | .acceptChannel =>
      s.fire (e.revents.has (POLLIN ||| POLLPRI ||| POLLRDHUP)) (acceptorHandleRead l e)
  | .connection id =>
      s.fire (!(s.conn id).channel.tied || e.locked) (handleEventWithGuard l id e)
  | .other _ => s.userCode l e.user

def forceCloseInLoop (l id : Nat) (down : List UserAct) (s : ServerLife) :
    Except ServerFault ServerLife :=
  if (s.conn id).state = .kConnected ∨ (s.conn id).state = .kDisconnecting then
    s.handleClose l id down
  else .ok s

/-- A functor of a connection. Only the user callbacks do not begin with
`assertInLoopThread`. -/
def runConnFunctor (l id : Nat) (e : LoopInput) (s : ServerLife) :
    ConnFunctor → Except ServerFault ServerLife
  | .writeCompleteCallback => s.userCode l e.user
  | .highWaterMarkCallback _ => s.userCode l e.user
  | .forceCloseInLoop => do
      inCode (assertThat ((s.conn id).loop = l))
      s.forceCloseInLoop l id e.down
  | f => do
      inCode (assertThat ((s.conn id).loop = l))
      let c ← inCode ((s.conn id).runFunctor f e.write [] [] [])
      return s.store id c

def setDispatch (l : Nat) (d : Dispatch) (s : ServerLife) : ServerLife :=
  { s with dispatch := fun k => if k = l then d else s.dispatch k }

/-- `l` runs the functor it has taken from its queue. -/
def runServerFunctor (l : Nat) (e : LoopInput) (s : ServerLife) :
    ServerFunctor → Except ServerFault ServerLife
  | .connectEstablished id => s.connectEstablished l id e.up
  | .connFunctor id f => s.runConnFunctor l id e f
  | .removeConnectionInLoop id => s.removeConnectionInLoop l id
  | .connectDestroyed id => s.connectDestroyed l id (userCode l e.down)

def setQueue (l : Nat) (fs : List ServerFunctor) (s : ServerLife) : ServerLife :=
  { s with server := { s.server with
    queue := fun k => if k = l then fs else s.server.queue k } }

end ServerLife

/-! ## The machine -/

/-- A step of one of the loops, or of a thread that has a connection. -/
inductive LifeAction where
  /-- `poll` has returned. -/
  | poll (l : Nat) (active : List LoopChannel)
  /-- The `for` over `activeChannels_` comes to its next channel. -/
  | handleEvent (l : Nat) (e : LoopInput)
  /-- It has come to the end. -/
  | dispatchDone (l : Nat)
  | runFunctor (l : Nat) (e : LoopInput)
  /-- User code on the base loop: a functor of its own, or before `loop()`. -/
  | userCode (as : List UserAct)
  /-- A user calls, from any thread. -/
  | call (id : Nat) (k : Call)
  /-- A loop of the pool leaves `loop()` because its thread was told to quit. -/
  | leaveLoop (l : Nat)

namespace ServerLife

/-- The channel is of the loop `l`. -/
def ofLoop (s : ServerLife) (l : Nat) : LoopChannel → Bool
  | .acceptChannel => s.server.loop == l
  | .connection id => decide (id < s.server.accepted) && (s.conn id).loop == l
  | .other _ => true

/-- A poller reports channels it has, each once. -/
def reports (s : ServerLife) (l : Nat) (active : List LoopChannel) : Bool :=
  decide active.Nodup && active.all fun ch => s.hasChannel ch && s.ofLoop l ch

def guard (s : ServerLife) : LifeAction → Bool
  | .poll l active => !(s.dispatch l).eventHandling && s.reports l active
  | .handleEvent l _ =>
      !(s.dispatch l).todo.isEmpty &&
        ((s.dispatch l).todo.head? ≠ some .acceptChannel ||
          s.server.accepted + 1 < 0x80000000)
  | .dispatchDone l => (s.dispatch l).eventHandling && (s.dispatch l).todo.isEmpty
  | .runFunctor l _ => !(s.dispatch l).eventHandling && !(s.server.queue l).isEmpty
  | .userCode _ => !(s.dispatch s.server.loop).eventHandling
  | .call id _ => id < s.server.accepted
  | .leaveLoop l =>
      !s.alive && s.server.threadPool.loops.contains l && l ≠ s.server.loop &&
        !(s.dispatch l).eventHandling

def exec : LifeAction → ServerLife → Except ServerFault ServerLife
  | .poll l active, s => .ok (s.setDispatch l ⟨true, active, none, active⟩)
  | .handleEvent l e, s =>
      match (s.dispatch l).todo with
      | [] => .ok s
      | ch :: todo =>
          (s.setDispatch l { s.dispatch l with
            currentActiveChannel := some ch, todo := todo }).handleChannel l e ch
  | .dispatchDone l, s =>
      .ok (s.setDispatch l { s.dispatch l with
        eventHandling := false, currentActiveChannel := none })
  | .runFunctor l e, s =>
      match s.server.queue l with
      | [] => .ok s
      | f :: fs => (s.setQueue l fs).runServerFunctor l e f
  | .userCode as, s => s.userCode s.server.loop as
  | .call id k, s => s.call id k
  | .leaveLoop l, s => .ok (s.setQueue l [])

def machine : Machine ServerLife LifeAction ServerFault := ⟨guard, exec⟩

end ServerLife

end Libanet.Net
