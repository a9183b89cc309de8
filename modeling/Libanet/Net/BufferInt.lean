import Libanet.Net.Buffer
import Libanet.Net.Endian

/-!
# `net/Buffer.h`, integers

The integers a buffer takes and gives, in network byte order. The wider
ones go through an object in that order, of which `append` and `prepend`
are given the address and `memcpy` fills it; a single byte has no order and
is moved as it is.
-/

namespace Libanet.Net.Buffer

def appendInt64 (host : ByteOrder) (b : Buffer) (x : BitVec 64) : Except Fault Buffer :=
  let be64 := hostToNetwork64 host x
  b.append (host.memory be64)

def appendInt32 (host : ByteOrder) (b : Buffer) (x : BitVec 32) : Except Fault Buffer :=
  let be32 := hostToNetwork32 host x
  b.append (host.memory be32)

def appendInt16 (host : ByteOrder) (b : Buffer) (x : BitVec 16) : Except Fault Buffer :=
  let be16 := hostToNetwork16 host x
  b.append (host.memory be16)

def appendInt8 (host : ByteOrder) (b : Buffer) (x : BitVec 8) : Except Fault Buffer :=
  b.append (host.memory x)

/-- The start of `peekInt64`, `peekInt32` and `peekInt16`: an object of `w`
bits, filled from the front of the content. -/
def peekObject (host : ByteOrder) (b : Buffer) (w : Nat) : Except Fault (BitVec w) := do
  assertThat (w / 8 ≤ b.readableBytes)
  return host.object w ((b.buffer.drop b.readerIndex).take (w / 8))

def peekInt64 (host : ByteOrder) (b : Buffer) : Except Fault (BitVec 64) := do
  let be64 ← b.peekObject host 64
  return networkToHost64 host be64

def peekInt32 (host : ByteOrder) (b : Buffer) : Except Fault (BitVec 32) := do
  let be32 ← b.peekObject host 32
  return networkToHost32 host be32

def peekInt16 (host : ByteOrder) (b : Buffer) : Except Fault (BitVec 16) := do
  let be16 ← b.peekObject host 16
  return networkToHost16 host be16

def peekInt8 (b : Buffer) : Except Fault (BitVec 8) := do
  assertThat (1 ≤ b.readableBytes)
  match b.buffer[b.readerIndex]? with
  | some x => return x.toBitVec
  | none => throw .outOfBounds

def retrieveInt64 (b : Buffer) : Except Fault Buffer := b.retrieve 8

def retrieveInt32 (b : Buffer) : Except Fault Buffer := b.retrieve 4

def retrieveInt16 (b : Buffer) : Except Fault Buffer := b.retrieve 2

def retrieveInt8 (b : Buffer) : Except Fault Buffer := b.retrieve 1

def readInt64 (host : ByteOrder) (b : Buffer) : Except Fault (BitVec 64 × Buffer) := do
  let result ← b.peekInt64 host
  let b ← b.retrieveInt64
  return (result, b)

def readInt32 (host : ByteOrder) (b : Buffer) : Except Fault (BitVec 32 × Buffer) := do
  let result ← b.peekInt32 host
  let b ← b.retrieveInt32
  return (result, b)

def readInt16 (host : ByteOrder) (b : Buffer) : Except Fault (BitVec 16 × Buffer) := do
  let result ← b.peekInt16 host
  let b ← b.retrieveInt16
  return (result, b)

def readInt8 (b : Buffer) : Except Fault (BitVec 8 × Buffer) := do
  let result ← b.peekInt8
  let b ← b.retrieveInt8
  return (result, b)

def prependInt64 (host : ByteOrder) (b : Buffer) (x : BitVec 64) : Except Fault Buffer :=
  let be64 := hostToNetwork64 host x
  b.prepend (host.memory be64)

def prependInt32 (host : ByteOrder) (b : Buffer) (x : BitVec 32) : Except Fault Buffer :=
  let be32 := hostToNetwork32 host x
  b.prepend (host.memory be32)

def prependInt16 (host : ByteOrder) (b : Buffer) (x : BitVec 16) : Except Fault Buffer :=
  let be16 := hostToNetwork16 host x
  b.prepend (host.memory be16)

def prependInt8 (host : ByteOrder) (b : Buffer) (x : BitVec 8) : Except Fault Buffer :=
  b.prepend (host.memory x)

end Libanet.Net.Buffer
