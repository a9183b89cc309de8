import Libanet.Lib.Search
import Libanet.Net.Buffer

/-!
# `net/Buffer.h`, the ends of lines

`findCRLF` and `findEOL` look for the end of a line in the content, from its
beginning or from a pointer into it, and answer with a pointer or `NULL`. A
pointer is its distance from the beginning of the vector here, as for
`retrieveUntil`.

The two bytes of `kCRLF` are not in the sources, which declare the array and do
not define it. They are a parameter.
-/

namespace Libanet.Net

/-- `memchr`, where `xs` are the bytes it may look at. -/
def memchr (c : UInt8) (xs : List UInt8) : Option Nat := xs.findIdx? (· == c)

namespace Buffer

/-- The bytes between `start` and `beginWrite()`. -/
def upToWrite (b : Buffer) (start : Nat) : List UInt8 :=
  (b.buffer.drop start).take (b.writerIndex - start)

/-- `findCRLF()`. -/
def findCRLF (kCRLF : UInt8 × UInt8) (b : Buffer) : Option Nat :=
  (search [kCRLF.1, kCRLF.2] (b.upToWrite b.readerIndex)).map (b.readerIndex + ·)

/-- `findCRLF(start)`. -/
def findCRLFFrom (kCRLF : UInt8 × UInt8) (start : Nat) (b : Buffer) :
    Except Fault (Option Nat) := do
  assertThat (b.readerIndex ≤ start)
  assertThat (start ≤ b.writerIndex)
  return (search [kCRLF.1, kCRLF.2] (b.upToWrite start)).map (start + ·)

/-- `findEOL()`. -/
def findEOL (b : Buffer) : Option Nat :=
  (memchr 10 ((b.buffer.drop b.readerIndex).take b.readableBytes)).map (b.readerIndex + ·)

/-- `findEOL(start)`. -/
def findEOLFrom (start : Nat) (b : Buffer) : Except Fault (Option Nat) := do
  assertThat (b.readerIndex ≤ start)
  assertThat (start ≤ b.writerIndex)
  return (memchr 10 ((b.buffer.drop start).take (b.writerIndex - start))).map (start + ·)

end Buffer

/-- How lines end. -/
inductive LineEnd where
  | crlf (kCRLF : UInt8 × UInt8)
  | eol
  deriving DecidableEq, Repr

namespace LineEnd

def bytes : LineEnd → List UInt8
  | .crlf kCRLF => [kCRLF.1, kCRLF.2]
  | .eol => [10]

def find : LineEnd → Buffer → Option Nat
  | .crlf kCRLF, b => b.findCRLF kCRLF
  | .eol, b => b.findEOL

def findFrom : LineEnd → Nat → Buffer → Except Fault (Option Nat)
  | .crlf kCRLF, start, b => b.findCRLFFrom kCRLF start
  | .eol, start, b => b.findEOLFrom start

end LineEnd

end Libanet.Net
