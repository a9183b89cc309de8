import Libanet.Base.Assert

/-!
# `net/Buffer.h`

A vector of bytes with two indices into it. The bytes between
`readerIndex` and `writerIndex` are the content, what lies before is space
to prepend into and what lies after is space to append into. The
inequalities every function of the class relies on are fields here, so a
buffer whose indices are out of order cannot be built.

`size_t` is modelled by `Nat`: all sums the class forms are bounded by the
size of a vector plus the length of a request.
-/

namespace Libanet.Net

/-- `Buffer::kCheapPrepend`, the bytes kept free in front of the content. -/
def kCheapPrepend : Nat := 8

structure Buffer where
  buffer : List UInt8
  readerIndex : Nat
  writerIndex : Nat
  reader_le_writer : readerIndex ≤ writerIndex
  writer_le_size : writerIndex ≤ buffer.length
  cheapPrepend_le_size : kCheapPrepend ≤ buffer.length
  deriving DecidableEq

namespace Buffer

def kInitialSize : Nat := 1024

/-- `Buffer(initialSize)`: a zeroed vector, both indices behind the bytes
reserved for prepending. -/
def new (initialSize : Nat) : Buffer where
  buffer := List.replicate (kCheapPrepend + initialSize) 0
  readerIndex := kCheapPrepend
  writerIndex := kCheapPrepend
  reader_le_writer := Nat.le_refl _
  writer_le_size := by simp
  cheapPrepend_le_size := by simp

def readableBytes (b : Buffer) : Nat := b.writerIndex - b.readerIndex

def writableBytes (b : Buffer) : Nat := b.buffer.length - b.writerIndex

def prependableBytes (b : Buffer) : Nat := b.readerIndex

/-- The content: `readableBytes()` bytes from `peek()` on. -/
def readable (b : Buffer) : List UInt8 :=
  (b.buffer.drop b.readerIndex).take b.readableBytes

/-- What `std::copy(data, data + len, begin() + pos)` leaves in the
vector. -/
def overwrite (xs : List UInt8) (pos : Nat) (data : List UInt8) :
    List UInt8 :=
  xs.take pos ++ data ++ xs.drop (pos + data.length)

theorem length_overwrite {xs data : List UInt8} {pos : Nat}
    (h : pos + data.length ≤ xs.length) :
    (overwrite xs pos data).length = xs.length := by
  simp only [overwrite, List.length_append, List.length_take, List.length_drop]
  omega

/-- What `vector::resize(n)` leaves in the vector. -/
def resize (xs : List UInt8) (n : Nat) : List UInt8 :=
  xs.take n ++ List.replicate (n - xs.length) 0

theorem length_resize {xs : List UInt8} {n : Nat} :
    (resize xs n).length = n := by
  simp only [resize, List.length_append, List.length_take,
    List.length_replicate]
  omega

/-- `retrieveAll`: both indices go back behind the reserved bytes. -/
def retrieveAll (b : Buffer) : Buffer :=
  { b with
    readerIndex := kCheapPrepend
    writerIndex := kCheapPrepend
    reader_le_writer := Nat.le_refl _
    writer_le_size := b.cheapPrepend_le_size }

/-- `retrieve(len)`: the content loses its first `len` bytes. -/
def retrieve (b : Buffer) (len : Nat) : Except Fault Buffer := do
  assertThat (len ≤ b.readableBytes)
  if h : len < b.readableBytes then
    .ok { b with
      readerIndex := b.readerIndex + len
      reader_le_writer := by unfold readableBytes at h; omega }
  else .ok b.retrieveAll

theorem length_readable (b : Buffer) : b.readable.length = b.readableBytes := by
  have hr := b.reader_le_writer
  have hw := b.writer_le_size
  simp only [readable, readableBytes, List.length_take, List.length_drop]
  omega

/-- The compacting branch of `makeSpace`: the content slides down to
`kCheapPrepend`. -/
def compact (b : Buffer) (h : kCheapPrepend ≤ b.readerIndex) : Buffer where
  buffer := overwrite b.buffer kCheapPrepend b.readable
  readerIndex := kCheapPrepend
  writerIndex := kCheapPrepend + b.readableBytes
  reader_le_writer := Nat.le_add_right _ _
  writer_le_size := by
    have hr := b.reader_le_writer
    have hw := b.writer_le_size
    have hlen := b.length_readable
    unfold readableBytes at *
    rw [length_overwrite (by omega)]
    omega
  cheapPrepend_le_size := by
    have hr := b.reader_le_writer
    have hw := b.writer_le_size
    have hlen := b.length_readable
    unfold readableBytes at *
    rw [length_overwrite (by omega)]
    exact b.cheapPrepend_le_size

/-- `makeSpace(len)`: grow the vector, or slide the content down when the
space in front of it and behind it together is enough. It is private and
only called when the space behind the content is too small. -/
def makeSpace (b : Buffer) (len : Nat) (hlen : b.writableBytes < len) :
    Except Fault Buffer :=
  if b.writableBytes + b.prependableBytes < len + kCheapPrepend then
    .ok { b with
      buffer := resize b.buffer (b.writerIndex + len)
      writer_le_size := by
        rw [length_resize]
        exact Nat.le_add_right _ _
      cheapPrepend_le_size := by
        have hc := b.cheapPrepend_le_size
        unfold writableBytes at hlen
        rw [length_resize]
        omega }
  else if h : kCheapPrepend < b.readerIndex then
    .ok (b.compact (Nat.le_of_lt h))
  else .error .assertion

def ensureWritableBytes (b : Buffer) (len : Nat) : Except Fault Buffer := do
  let b ← if h : b.writableBytes < len then b.makeSpace len h else .ok b
  assertThat (len ≤ b.writableBytes)
  return b

def hasWritten (b : Buffer) (len : Nat) : Except Fault Buffer :=
  if h : len ≤ b.writableBytes then
    .ok { b with
      writerIndex := b.writerIndex + len
      reader_le_writer := Nat.le_trans b.reader_le_writer (Nat.le_add_right _ _)
      writer_le_size := by
        have hw := b.writer_le_size
        unfold writableBytes at h
        omega }
  else .error .assertion

/-- `std::copy` to `beginWrite()`. -/
def copyToBeginWrite (b : Buffer) (data : List UInt8) : Except Fault Buffer :=
  if h : b.writerIndex + data.length ≤ b.buffer.length then
    .ok { b with
      buffer := overwrite b.buffer b.writerIndex data
      writer_le_size := by rw [length_overwrite h]; exact b.writer_le_size
      cheapPrepend_le_size := by
        rw [length_overwrite h]
        exact b.cheapPrepend_le_size }
  else .error .outOfBounds

def append (b : Buffer) (data : List UInt8) : Except Fault Buffer := do
  let b ← b.ensureWritableBytes data.length
  let b ← b.copyToBeginWrite data
  b.hasWritten data.length

/-- `unwrite(len)`: the content loses its last `len` bytes. -/
def unwrite (b : Buffer) (len : Nat) : Except Fault Buffer :=
  if h : len ≤ b.readableBytes then
    .ok { b with
      writerIndex := b.writerIndex - len
      reader_le_writer := by
        have hr := b.reader_le_writer
        unfold readableBytes at h
        omega
      writer_le_size := Nat.le_trans (Nat.sub_le _ _) b.writer_le_size }
  else .error .assertion

def prepend (b : Buffer) (data : List UInt8) : Except Fault Buffer :=
  if h : data.length ≤ b.prependableBytes then
    have hfit : b.readerIndex - data.length + data.length ≤ b.buffer.length := by
      have hr := b.reader_le_writer
      have hw := b.writer_le_size
      unfold prependableBytes at h
      omega
    .ok { b with
      buffer := overwrite b.buffer (b.readerIndex - data.length) data
      readerIndex := b.readerIndex - data.length
      reader_le_writer := Nat.le_trans (Nat.sub_le _ _) b.reader_le_writer
      writer_le_size := by rw [length_overwrite hfit]; exact b.writer_le_size
      cheapPrepend_le_size := by
        rw [length_overwrite hfit]
        exact b.cheapPrepend_le_size }
  else .error .assertion

/-- `retrieveUntil(end)`, with the pointer as an index into the vector. -/
def retrieveUntil (b : Buffer) (end_ : Nat) : Except Fault Buffer := do
  assertThat (b.readerIndex ≤ end_)
  assertThat (end_ ≤ b.writerIndex)
  b.retrieve (end_ - b.readerIndex)

/-- `retireveAsString(len)`, as the source spells it: the string, and the
buffer without it. -/
def retireveAsString (b : Buffer) (len : Nat) : Except Fault (List UInt8 × Buffer) := do
  assertThat (len ≤ b.readableBytes)
  let result := (b.buffer.drop b.readerIndex).take len
  let b ← b.retrieve len
  return (result, b)

def retrieveAllAsString (b : Buffer) : Except Fault (List UInt8 × Buffer) :=
  b.retireveAsString b.readableBytes

/-- `lhs.swap(rhs)`: both buffers afterwards. -/
def swap (lhs rhs : Buffer) : Buffer × Buffer := (rhs, lhs)

end Buffer

end Libanet.Net
