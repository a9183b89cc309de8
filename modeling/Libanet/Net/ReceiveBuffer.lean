import Libanet.Net.TcpConnection

/-!
# `net/TcpConnection.cc`, `handleRead` with the buffer it fills

`inputBuffer_.readFd` takes bytes from the socket and puts them behind those
that are in the buffer already. The sources declare it and do not define it, so
it is a `ReadFd`: any function that does this. How many bytes it takes is up to
the kernel, and none at all means that the peer has closed its half.

The message callback is given the buffer and keeps in it what it does not want
yet. What it takes is a step of its own, as its calls on the connection are.
-/

namespace Libanet.Net

/-- What the `::readv` of `readFd` brings. -/
inductive ReadvResult where
  | brought (data : List UInt8)
  | failed
  deriving DecidableEq, Repr

/-- `n > 0`, `n == 0` or neither. -/
def ReadvResult.sign : ReadvResult → ReadResult
  | .brought data => if 0 < data.length then .data else .eof
  | .failed => .failed

/-- `Buffer::readFd`, as far as the buffer goes. -/
structure ReadFd where
  run : ReadvResult → Buffer → Buffer
  readable_brought : ∀ data b, (run (.brought data) b).readable = b.readable ++ data
  readable_failed : ∀ b, (run .failed b).readable = b.readable

/-- A connection with its input buffer, and what the user has taken from it. -/
structure Receiver where
  conn : TcpConnection
  inputBuffer : Buffer
  retrieved : List UInt8

namespace Receiver

/-- `handleRead`. -/
def handleRead (readFd : ReadFd) (r : ReadvResult) (receiveTime : Timestamp) (c : Receiver) :
    Except Fault Receiver := do
  let inputBuffer := readFd.run r c.inputBuffer
  let conn ← c.conn.handleRead r.sign [] [] [] receiveTime
  return { c with conn := conn, inputBuffer := inputBuffer }

/-- `buf->retireveAsString(len)` in the user's hands. -/
def retrieve (len : Nat) (c : Receiver) : Except Fault Receiver := do
  let (data, inputBuffer) ← c.inputBuffer.retireveAsString len
  return { c with inputBuffer := inputBuffer, retrieved := c.retrieved ++ data }

/-- All bytes that have come in, in the order they did. -/
def received (c : Receiver) : List UInt8 := c.retrieved ++ c.inputBuffer.readable

end Receiver

end Libanet.Net
