/-!
# `net/SocketOps.cc` and `net/Socket.cc`, as far as a connection uses them

A connection writes to its socket and half-closes it. What the kernel
answers to a write is not the program's choice, so it comes in from outside
as a `WriteResult`; what the socket remembers is the sequence of calls made
on it and the bytes each write got accepted.
-/

namespace Libanet.Net

/-- The values of `errno` after a failed `::write` that the code tells
apart. -/
inductive Errno where
  | EWOULDBLOCK
  | EPIPE
  | ECONNRESET
  | other (code : Nat)
  deriving DecidableEq, Repr

/-- What `sockets::write` returned: a byte count, or -1 and an `errno`. -/
inductive WriteResult where
  | wrote (n : Nat)
  | failed (err : Errno)
  deriving DecidableEq, Repr

/-- The kernel never accepts more than it was given. -/
def WriteResult.fits (len : Nat) : WriteResult → Bool
  | .wrote n => n ≤ len
  | .failed _ => true

/-- The writes that do not fail: a count, or nothing for now. -/
def WriteResult.noError : WriteResult → Bool
  | .wrote _ => true
  | .failed err => err = .EWOULDBLOCK

/-- A call made on a socket. -/
inductive SocketOp where
  | write (accepted : List UInt8)
  | writeFailed (err : Errno)
  | shutdownWrite
  deriving DecidableEq, Repr

/-- The call is a `sockets::write`, successful or not. -/
def SocketOp.isWrite : SocketOp → Bool
  | .write _ => true
  | .writeFailed _ => true
  | .shutdownWrite => false

/-- The bytes a call got accepted. -/
def SocketOp.accepted : SocketOp → List UInt8
  | .write accepted => accepted
  | .writeFailed _ => []
  | .shutdownWrite => []

structure Socket where
  ops : List SocketOp
  deriving DecidableEq

namespace Socket

def new : Socket := ⟨[]⟩

/-- `sockets::write(fd, data, len)` with the kernel's answer. -/
def write (s : Socket) (data : List UInt8) : WriteResult → Socket
  | .wrote n => ⟨s.ops ++ [.write (data.take n)]⟩
  | .failed err => ⟨s.ops ++ [.writeFailed err]⟩

def shutdownWrite (s : Socket) : Socket := ⟨s.ops ++ [.shutdownWrite]⟩

/-- Every byte handed to the kernel so far, in order. -/
def sent (s : Socket) : List UInt8 := s.ops.flatMap SocketOp.accepted

@[simp] theorem sent_write_wrote (s : Socket) (data : List UInt8) (n : Nat) :
    (s.write data (.wrote n)).sent = s.sent ++ data.take n := by
  simp [sent, write, SocketOp.accepted]

@[simp] theorem sent_write_failed (s : Socket) (data : List UInt8)
    (err : Errno) : (s.write data (.failed err)).sent = s.sent := by
  simp [sent, write, SocketOp.accepted]

@[simp] theorem sent_shutdownWrite (s : Socket) :
    s.shutdownWrite.sent = s.sent := by
  simp [sent, shutdownWrite, SocketOp.accepted]

end Socket

end Libanet.Net
