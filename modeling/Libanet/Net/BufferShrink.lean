import Libanet.Base.StringPiece
import Libanet.Net.Buffer

/-!
# `net/Buffer.h`, `shrink`

`shrink` copies the content into a fresh buffer, by way of a `StringPiece`.
The length of a piece can come back from its `int` as a number near `2 ^ 64`,
and with such a request the sums in `makeSpace` wrap. So the functions on this
path are here once more, with the arithmetic of `size_t`; for the sizes that
memory has they are the ones of `Buffer`.

A vector that is asked to grow beyond `max_size()` throws `length_error`.
Memory itself does not run out.
-/

namespace Libanet.Net

/-- How these functions stop without returning. -/
inductive Stop where
  | fault (f : Fault)
  | length_error
  deriving DecidableEq, Repr

namespace Buffer

/-- `vector<char>::max_size()`. -/
def max_size : Nat := 2 ^ 63 - 1

/-- `buffer_.resize(n)`. A vector that ended before `writerIndex_` would not
be one of a buffer. -/
def resize64 (b : Buffer) (n : Nat) : Except Stop Buffer :=
  if max_size < n then .error .length_error
  else if h : b.writerIndex ≤ n ∧ kCheapPrepend ≤ n then
    .ok { b with
      buffer := resize b.buffer n
      writer_le_size := by
        rw [length_resize]
        exact h.1
      cheapPrepend_le_size := by
        rw [length_resize]
        exact h.2 }
  else .error (.fault .outOfBounds)

theorem kCheapPrepend_le {b : Buffer} (h : kCheapPrepend < b.readerIndex) :
    kCheapPrepend ≤ b.readerIndex := Nat.le_of_lt h

def makeSpace64 (b : Buffer) (len : Nat) : Except Stop Buffer :=
  if (b.writableBytes + b.prependableBytes) % 2 ^ 64 < (len + kCheapPrepend) % 2 ^ 64 then
    b.resize64 ((b.writerIndex + len) % 2 ^ 64)
  else if h : kCheapPrepend < b.readerIndex then
    .ok (b.compact (kCheapPrepend_le h))
  else .error (.fault .assertion)

def ensureWritableBytes64 (b : Buffer) (len : Nat) : Except Stop Buffer := do
  let b ← (if b.writableBytes < len then b.makeSpace64 len else .ok b)
  (assertThat (len ≤ b.writableBytes)).mapError .fault
  return b

/-- `append(const char *data, size_t len)`, where `data` points to this
memory. -/
def append64 (b : Buffer) (data : List UInt8) (len : Nat) : Except Stop Buffer := do
  let b ← b.ensureWritableBytes64 len
  if len ≤ data.length then
    (b.copyToBeginWrite (data.take len) >>= fun b => b.hasWritten len).mapError .fault
  else .error (.fault .outOfBounds)

/-- `append(const StringPiece &)`. -/
def appendPiece (b : Buffer) (str : StringPiece) : Except Stop Buffer :=
  b.append64 str.data (sizeOfInt str.size)

def toStringPiece (b : Buffer) : StringPiece :=
  ⟨b.buffer.drop b.readerIndex, intOfSize b.readableBytes⟩

def shrink (b : Buffer) (reserve : Nat) : Except Stop Buffer := do
  let other := new kInitialSize
  let other ← other.ensureWritableBytes64 ((b.readableBytes + reserve) % 2 ^ 64)
  let other ← other.appendPiece b.toStringPiece
  return (b.swap other).1

end Buffer

end Libanet.Net
