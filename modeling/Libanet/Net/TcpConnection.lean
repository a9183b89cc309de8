import Libanet.Net.Buffer
import Libanet.Net.Channel
import Libanet.Net.SocketOps

/-!
# `net/TcpConnection.cc`

One connection: its state, its output buffer, the interest bits of its
channel and its socket. The functions keep the names of the member
functions they model. Three things come in from outside as arguments: what
the kernel answers to a write or a read, whether the caller is on the loop
thread, and which calls the user's callbacks make back into the connection
while they run.

What a connection puts on its loop's queue is collected in `posted`, in
the order it was put there; the machines built on top of this file decide
when it runs. `log` records what an observer of the connection sees: every
change of `state`, and every user callback that runs on the spot.

The read half of the connection has no buffer here: `Buffer::readFd` has no
definition in the sources, so only the sign of its result comes in.
-/

namespace Libanet.Net

/-- `TcpConnection::StateE`. -/
inductive StateE where
  | kDisconnected
  | kConnecting
  | kConnected
  | kDisconnecting
  deriving DecidableEq, Repr

/-- The functors a connection puts on its loop. -/
inductive ConnFunctor where
  | sendInLoop (message : List UInt8)
  | shutdownInLoop
  | forceCloseInLoop
  | startReadInLoop
  | stopReadInLoop
  | writeCompleteCallback
  | highWaterMarkCallback (len : Nat)
  deriving DecidableEq, Repr

/-- The functors that run a user callback and nothing of the connection's
own. -/
def ConnFunctor.isCallback : ConnFunctor → Bool
  | .writeCompleteCallback => true
  | .highWaterMarkCallback _ => true
  | _ => false

/-- What an observer of a connection sees. -/
inductive ConnEvent where
  | setState (s : StateE)
  | connectionCallback (connected : Bool)
  | messageCallback (receiveTime : Timestamp)
  | closeCallback
  deriving DecidableEq, Repr

/-- What `inputBuffer_.readFd` returned: a positive count, 0 or -1. -/
inductive ReadResult where
  | data
  | eof
  | failed
  deriving DecidableEq, Repr

structure TcpConnection where
  /-- The loop that owns the connection. -/
  loop : Nat
  name : String
  state : StateE
  reading : Bool
  channel : Channel
  socket : Socket
  outputBuffer : Buffer
  highWaterMark : Nat
  /-- A `writeCompleteCallback_` is set. -/
  hasWriteCompleteCallback : Bool
  /-- A `highWaterMarkCallback_` is set. -/
  hasHighWaterMarkCallback : Bool
  posted : List ConnFunctor
  log : List ConnEvent
  deriving DecidableEq

/-- A call a user makes on a connection. `inLoop` is what
`loop_->isInLoopThread()` answers there, and a `send` from the loop thread
may write directly, so it brings the kernel's answer along. -/
inductive Call where
  | send (inLoop : Bool) (message : List UInt8) (w : WriteResult)
  | shutdown (inLoop : Bool)
  | forceClose
  | startRead (inLoop : Bool)
  | stopRead (inLoop : Bool)
  deriving DecidableEq, Repr

namespace TcpConnection

/-- The constructor. The high-water mark starts at 64 MiB. -/
def new (loop : Nat) (name : String) (wcc hwmc : Bool) : TcpConnection where
  loop := loop
  name := name
  state := .kConnecting
  reading := true
  channel := Channel.new
  socket := Socket.new
  outputBuffer := Buffer.new Buffer.kInitialSize
  highWaterMark := 64 * 1024 * 1024
  hasWriteCompleteCallback := wcc
  hasHighWaterMarkCallback := hwmc
  posted := []
  log := []

def connected (c : TcpConnection) : Bool := c.state = .kConnected

def setState (c : TcpConnection) (s : StateE) : TcpConnection :=
  { c with state := s, log := c.log ++ [.setState s] }

/-- `loop_->queueInLoop(f)`. -/
def queueInLoop (c : TcpConnection) (f : ConnFunctor) : TcpConnection :=
  { c with posted := c.posted ++ [f] }

def emit (c : TcpConnection) (e : ConnEvent) : TcpConnection :=
  { c with log := c.log ++ [e] }

/-! ## Sending -/

/-- `if (writeCompleteCallback_) loop_->queueInLoop(…)`. -/
def queueWriteComplete (c : TcpConnection) : TcpConnection :=
  if c.hasWriteCompleteCallback then c.queueInLoop .writeCompleteCallback
  else c

/-- The condition under which `sendInLoop` tries the socket first. -/
def writesDirectly (c : TcpConnection) : Bool :=
  !c.channel.isWriting && c.outputBuffer.readableBytes == 0

/-- The direct write of `sendInLoop`: the connection after it, `nwrote`, and
`faultError`. -/
def directWrite (c : TcpConnection) (data : List UInt8) (w : WriteResult) :
    TcpConnection × Nat × Bool :=
  let c := { c with socket := c.socket.write data w }
  match w with
  | .wrote n =>
      (if data.length - n = 0 then c.queueWriteComplete else c, n, false)
  | .failed err => (c, 0, err = .EPIPE || err = .ECONNRESET)

/-- The high-water mark is told once, when the buffer first reaches it. -/
def queueHighWaterMark (c : TcpConnection) (remaining : Nat) :
    TcpConnection :=
  let oldLen := c.outputBuffer.readableBytes
  if oldLen + remaining ≥ c.highWaterMark ∧ oldLen < c.highWaterMark ∧
      c.hasHighWaterMarkCallback then
    c.queueInLoop (.highWaterMarkCallback (oldLen + remaining))
  else c

/-- `if (!channel_->isWriting()) channel_->enableWriting()`. -/
def wantWriting (c : TcpConnection) : TcpConnection :=
  if !c.channel.isWriting then { c with channel := c.channel.enableWriting }
  else c

/-- The tail of `sendInLoop`: what the socket did not take goes into the
output buffer. -/
def bufferRest (c : TcpConnection) (data : List UInt8) (nwrote : Nat) :
    Except Fault TcpConnection := do
  let c := c.queueHighWaterMark (data.length - nwrote)
  let outputBuffer ← c.outputBuffer.append (data.drop nwrote)
  return { c with outputBuffer := outputBuffer }.wantWriting

/-- The second half of `sendInLoop`, after the socket has been tried. -/
def sendRest (data : List UInt8) (nwrote : Nat) (faultError : Bool)
    (c : TcpConnection) : Except Fault TcpConnection := do
  let remaining := data.length - nwrote
  assertThat (remaining ≤ data.length)
  if !faultError && remaining > 0 then c.bufferRest data nwrote
  else return c

def sendInLoop (data : List UInt8) (w : WriteResult) (c : TcpConnection) :
    Except Fault TcpConnection :=
  if c.state = .kDisconnected then .ok c
  else if c.writesDirectly then
    let (c, nwrote, faultError) := c.directWrite data w
    c.sendRest data nwrote faultError
  else c.sendRest data 0 false

/-- `send(const StringPiece &)`. -/
def send (inLoop : Bool) (message : List UInt8) (w : WriteResult)
    (c : TcpConnection) : Except Fault TcpConnection :=
  if c.state = .kConnected then
    if inLoop then sendInLoop message w c
    else .ok (c.queueInLoop (.sendInLoop message))
  else .ok c

/-! ## Shutting down -/

def shutdownInLoop (c : TcpConnection) : TcpConnection :=
  if !c.channel.isWriting then { c with socket := c.socket.shutdownWrite }
  else c

def shutdown (inLoop : Bool) (c : TcpConnection) : TcpConnection :=
  if c.state = .kConnected then
    let c := c.setState .kDisconnecting
    if inLoop then c.shutdownInLoop else c.queueInLoop .shutdownInLoop
  else c

def forceClose (c : TcpConnection) : TcpConnection :=
  if c.state = .kConnected ∨ c.state = .kDisconnecting then
    (c.setState .kDisconnecting).queueInLoop .forceCloseInLoop
  else c

/-! ## Read interest -/

def startReadInLoop (c : TcpConnection) : TcpConnection :=
  if !c.reading || !c.channel.isReading then
    { c with channel := c.channel.enableReading, reading := true }
  else c

def stopReadInLoop (c : TcpConnection) : TcpConnection :=
  if c.reading || c.channel.isReading then
    { c with channel := c.channel.disableReading, reading := false }
  else c

def startRead (inLoop : Bool) (c : TcpConnection) : TcpConnection :=
  if inLoop then c.startReadInLoop else c.queueInLoop .startReadInLoop

def stopRead (inLoop : Bool) (c : TcpConnection) : TcpConnection :=
  if inLoop then c.stopReadInLoop else c.queueInLoop .stopReadInLoop

/-! ## User code -/

def call : Call → TcpConnection → Except Fault TcpConnection
  | .send inLoop message w, c => c.send inLoop message w
  | .shutdown inLoop, c => .ok (c.shutdown inLoop)
  | .forceClose, c => .ok c.forceClose
  | .startRead inLoop, c => .ok (c.startRead inLoop)
  | .stopRead inLoop, c => .ok (c.stopRead inLoop)

/-- The calls made while a user callback runs. -/
def calls : List Call → TcpConnection → Except Fault TcpConnection
  | [], c => .ok c
  | k :: ks, c => c.call k >>= calls ks

/-- `connectionCallback_(shared_from_this())`. The callback reads
`connected()` and tells UP from DOWN by it. -/
def connectionCallback (ks : List Call) (c : TcpConnection) :
    Except Fault TcpConnection :=
  (c.emit (.connectionCallback c.connected)).calls ks

def messageCallback (receiveTime : Timestamp) (ks : List Call)
    (c : TcpConnection) : Except Fault TcpConnection :=
  (c.emit (.messageCallback receiveTime)).calls ks

def closeCallback (ks : List Call) (c : TcpConnection) :
    Except Fault TcpConnection :=
  (c.emit .closeCallback).calls ks

/-! ## Coming up and going down -/

def connectEstablished (up : List Call) (c : TcpConnection) :
    Except Fault TcpConnection := do
  assertThat (c.state = .kConnecting)
  let c := c.setState .kConnected
  let c := { c with channel := c.channel.tie.enableReading }
  c.connectionCallback up

def connectDestroyed (down : List Call) (c : TcpConnection) :
    Except Fault TcpConnection := do
  let c ←
    if c.state = .kConnected then
      let c := c.setState .kDisconnected
      let c := { c with channel := c.channel.disableAll }
      c.connectionCallback down
    else .ok c
  let channel ← c.channel.remove
  return { c with channel := channel }

/-- `handleClose`. `down` and `close` are the calls made by the two
callbacks it runs. -/
def handleClose (down close : List Call) (c : TcpConnection) :
    Except Fault TcpConnection := do
  assertThat (c.state = .kConnected ∨ c.state = .kDisconnecting)
  let c := c.setState .kDisconnected
  let c := { c with channel := c.channel.disableAll }
  let c ← c.connectionCallback down
  c.closeCallback close

def forceCloseInLoop (down close : List Call) (c : TcpConnection) :
    Except Fault TcpConnection :=
  if c.state = .kConnected ∨ c.state = .kDisconnecting then
    c.handleClose down close
  else .ok c

/-! ## Channel callbacks -/

/-- `handleError` only logs `SO_ERROR`. -/
def handleError (c : TcpConnection) : TcpConnection := c

def handleRead (r : ReadResult) (message down close : List Call)
    (receiveTime : Timestamp) (c : TcpConnection) :
    Except Fault TcpConnection :=
  match r with
  | .data => c.messageCallback receiveTime message
  | .eof => c.handleClose down close
  | .failed => .ok c.handleError

/-- The branch of `handleWrite` taken when the write drained the buffer. -/
def outputDrained (c : TcpConnection) : TcpConnection :=
  let c := { c with channel := c.channel.disableWriting }
  let c := c.queueWriteComplete
  if c.state = .kDisconnecting then c.shutdownInLoop else c

/-- The branch of `handleWrite` taken when `n > 0` bytes were written. -/
def outputWritten (n : Nat) (c : TcpConnection) :
    Except Fault TcpConnection := do
  let outputBuffer ← c.outputBuffer.retrieve n
  let c := { c with outputBuffer := outputBuffer }
  if c.outputBuffer.readableBytes = 0 then return c.outputDrained
  else return c

def handleWrite (w : WriteResult) (c : TcpConnection) :
    Except Fault TcpConnection :=
  if c.channel.isWriting then
    let c := { c with socket := c.socket.write c.outputBuffer.readable w }
    match w with
    | .wrote n => if 0 < n then c.outputWritten n else .ok c
    | .failed _ => .ok c
  else .ok c

/-- Everything one `handleEvent` brings in from outside: the kernel's
answers and the calls made by the user callbacks. -/
structure EventScript where
  read : ReadResult
  write : WriteResult
  message : List Call
  down : List Call
  close : List Call
  deriving DecidableEq, Repr

/-- The callbacks the constructor sets on the channel. -/
def channelCallbacks (e : EventScript) : Channel.Callbacks TcpConnection where
  readCallback := some fun t c => c.handleRead e.read e.message e.down e.close t
  writeCallback := some fun c => c.handleWrite e.write
  closeCallback := some fun c => c.handleClose e.down e.close
  errorCallback := some fun c => .ok c.handleError

/-- `channel_->handleEvent(receiveTime)`. -/
def handleEvent (e : EventScript) (locked : Bool) (revents : EventMask)
    (receiveTime : Timestamp) (c : TcpConnection) :
    Except Fault TcpConnection :=
  Channel.handleEvent c.channel.tied locked (channelCallbacks e) revents
    receiveTime c

/-- A functor of the connection, run by its loop. The two user callbacks
among them touch the connection only through the calls they make. -/
def runFunctor (f : ConnFunctor) (w : WriteResult) (ks down close : List Call)
    (c : TcpConnection) : Except Fault TcpConnection :=
  match f with
  | .sendInLoop message => c.sendInLoop message w
  | .shutdownInLoop => .ok c.shutdownInLoop
  | .forceCloseInLoop => c.forceCloseInLoop down close
  | .startReadInLoop => .ok c.startReadInLoop
  | .stopReadInLoop => .ok c.stopReadInLoop
  | .writeCompleteCallback => c.calls ks
  | .highWaterMarkCallback _ => c.calls ks

end TcpConnection

end Libanet.Net
