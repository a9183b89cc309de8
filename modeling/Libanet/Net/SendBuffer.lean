import Libanet.Base.StringPiece
import Libanet.Net.TcpConnection

/-!
# `net/TcpConnection.cc`, `send(Buffer *)`

On the loop thread the buffer's own bytes and its `size_t` go straight to
`sendInLoop(const void *, size_t)`. On any other thread the content goes to
the loop as a string inside a functor, and when the loop calls that, the string
becomes a `StringPiece` on its way to the same function.

What `send` sets off is a `Sending`: the call, or the string of the functor.
-/

namespace Libanet.Net

/-- The arguments of `sendInLoop(const void *data, size_t len)`: the memory
`data` points to, and `len`. -/
structure SendArgs where
  data : List UInt8
  len : Nat
  deriving DecidableEq, Repr

namespace SendArgs

/-- `sendInLoop(const StringPiece &)`. -/
def ofPiece (message : StringPiece) : SendArgs := ⟨message.data, sizeOfInt message.size⟩

/-- The bytes between `data` and `data + len`. -/
def bytes (a : SendArgs) : List UInt8 := a.data.take a.len

/-- These bytes, with their exact length. -/
def Exactly (a : SendArgs) (message : List UInt8) : Prop :=
  a.len = message.length ∧ a.bytes = message

end SendArgs

inductive Sending where
  | called (args : SendArgs)
  | queued (message : List UInt8)
  | nothing
  deriving DecidableEq, Repr

namespace Sending

/-- The calls that `sendInLoop(const void *, size_t)` gets, at once or when
the loop runs the functor. -/
def received : Sending → List SendArgs
  | .called args => [args]
  | .queued message => [.ofPiece (.ofString message)]
  | .nothing => []

/-- What it does to the connection until `send` returns. -/
def onConnection (s : Sending) (w : WriteResult) (c : TcpConnection) :
    Except Fault TcpConnection :=
  match s with
  | .called args => c.sendInLoop args.bytes w
  | .queued message => .ok (c.queueInLoop (.sendInLoop message))
  | .nothing => .ok c

end Sending

namespace TcpConnection

/-- `send(Buffer *)`. -/
def sendBuffer (inLoop : Bool) (buf : Buffer) (c : TcpConnection) :
    Except Fault (Buffer × Sending) :=
  if c.state = .kConnected then
    if inLoop then
      let args := ⟨buf.buffer.drop buf.readerIndex, buf.readableBytes⟩
      .ok (buf.retrieveAll, .called args)
    else do
      let (message, buf) ← buf.retrieveAllAsString
      return (buf, .queued message)
  else .ok (buf, .nothing)

end TcpConnection

end Libanet.Net
