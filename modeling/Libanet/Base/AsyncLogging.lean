import Libanet.Base.LogStream
import Libanet.Lib.Machine

/-!
# `base/AsyncLogging.cc`

Log lines go into buffers in memory, and a thread of its own writes them to
the file. `append` fills `currentBuffer_` and, when the line does not fit,
puts it behind the full ones in `buffers_` and goes on with `nextBuffer_`, or
a new one. The back end, `threadFunc`, waits for a full buffer or for its
timeout, takes all buffers with lines in them in exchange for two spare ones
of its own, writes them, and keeps two of them as its next spare ones.

A `BufferPtr` is a `std::unique_ptr`, so it is null once it has been moved
from. `append` and the exchange hold `mutex_`; the back end gives it up in
`waitForSeconds`, from which it may come back at any time. Between these it
touches nothing the front end sees, so `append`s fall between any two of its
steps: `LogPc` says which they are. The logger is as `start` has left it.

`output` is what has been handed to `LogFile::append`. `lines` and `batches`
are kept for the record.
-/

namespace Libanet

abbrev BufferPtr := Option (FixedBuffer kLargeBuffer)

namespace BufferPtr

/-- Following a `BufferPtr`. -/
def deref : BufferPtr → Except Fault (FixedBuffer kLargeBuffer)
  | some b => .ok b
  | none => .error .nullPointer

/-- What is in a buffer. -/
def bytes (p : BufferPtr) : List UInt8 := p.elim [] FixedBuffer.data

end BufferPtr

/-- Where the back end stands. -/
inductive LogPc where
  /-- At the condition of the `while`. -/
  | whileTest
  /-- About to lock `mutex_`. -/
  | entered
  /-- Inside `waitForSeconds`. -/
  | waiting
  /-- Behind the critical section. -/
  | swapped
  /-- In the loop over `buffersToWrite`. -/
  | writing
  /-- `threadFunc` has returned. -/
  | finished
  deriving DecidableEq, Repr

/-- The buffers of one exchange, and the notice if they were too many. -/
structure Batch where
  buffers : List (List UInt8)
  notice : Option (List UInt8)
  deriving DecidableEq

def Batch.of (buffersToWrite : List BufferPtr) : Batch where
  buffers := buffersToWrite.map BufferPtr.bytes
  notice := none

/-- What of a batch goes into the file. -/
def Batch.written (b : Batch) : List UInt8 :=
  match b.notice with
  | none => b.buffers.flatten
  | some notice => notice ++ (b.buffers.take 2).flatten

structure AsyncLogging where
  running : Bool
  currentBuffer : BufferPtr
  nextBuffer : BufferPtr
  buffers : List BufferPtr
  pc : LogPc
  newBuffer1 : BufferPtr
  newBuffer2 : BufferPtr
  buffersToWrite : List BufferPtr
  /-- How many of `buffersToWrite` have been written. -/
  wrote : Nat
  output : List UInt8
  /-- The lines appended, in the order of the critical sections. -/
  lines : List (List UInt8)
  batches : List Batch

inductive LogAction where
  | append (logline : List UInt8)
  | whileTest
  | lock
  /-- `waitForSeconds` returns: notified, timed out, or for no reason. -/
  | wakeup
  /-- `time` is what `Timestamp::now().toFormattedString()` answers. -/
  | checkOverload (time : List UInt8)
  | write
  | recycle
  /-- The store of `stop`. -/
  | stop

namespace AsyncLogging

def new : AsyncLogging where
  running := true
  currentBuffer := some .new
  nextBuffer := some .new
  buffers := []
  pc := .whileTest
  newBuffer1 := some .new
  newBuffer2 := some .new
  buffersToWrite := []
  wrote := 0
  output := []
  lines := []
  batches := []

/-! ## The front end -/

def append (logline : List UInt8) (s : AsyncLogging) : Except Fault AsyncLogging := do
  let s := { s with lines := s.lines ++ [logline] }
  let current ← s.currentBuffer.deref
  if logline.length < current.avail then
    return { s with currentBuffer := some (current.append logline) }
  else
    let s := { s with buffers := s.buffers ++ [s.currentBuffer] }
    let s := if s.nextBuffer.isSome then
        { s with currentBuffer := s.nextBuffer, nextBuffer := none }
      else { s with currentBuffer := some .new }
    let current ← s.currentBuffer.deref
    return { s with currentBuffer := some (current.append logline) }

/-! ## The back end -/

/-- The rest of the critical section, after the wait. -/
def swap (s : AsyncLogging) : Except Fault AsyncLogging := do
  let s := { s with
    buffers := s.buffersToWrite
    buffersToWrite := s.buffers ++ [s.currentBuffer]
    currentBuffer := s.newBuffer1
    newBuffer1 := none
    wrote := 0
    batches := s.batches ++ [Batch.of (s.buffers ++ [s.currentBuffer])] }
  let s := if s.nextBuffer.isNone then
      { s with nextBuffer := s.newBuffer2, newBuffer2 := none }
    else s
  assertThat (s.buffersToWrite ≠ [])
  return { s with pc := .swapped }

/-- The condition of the `while`, and the asserts behind it. -/
def whileTest (s : AsyncLogging) : Except Fault AsyncLogging :=
  if s.running then do
    let newBuffer1 ← s.newBuffer1.deref
    assertThat (newBuffer1.length = 0)
    let newBuffer2 ← s.newBuffer2.deref
    assertThat (newBuffer2.length = 0)
    assertThat (s.buffersToWrite = [])
    return { s with pc := .entered }
  else .ok { s with pc := .finished }

/-- The `snprintf` into `char buf[256]`. -/
def overloadNotice (time : List UInt8) (size : Nat) : List UInt8 :=
  (ascii "Dropped log messages at " ++ time ++ ascii ", " ++ ascii (toString (size - 2)) ++
    ascii " larger buffers\n").take 255

/-- The batch in hand gets its notice. -/
def setNotice (notice : List UInt8) (batches : List Batch) : List Batch :=
  batches.dropLast ++ batches.getLast?.toList.map fun b => { b with notice := some notice }

def checkOverload (time : List UInt8) (s : AsyncLogging) : AsyncLogging :=
  if 25 < s.buffersToWrite.length then
    let buf := overloadNotice time s.buffersToWrite.length
    { s with
      output := s.output ++ buf
      buffersToWrite := s.buffersToWrite.take 2
      batches := setNotice buf s.batches
      pc := .writing }
  else { s with pc := .writing }

/-- One turn of the loop over `buffersToWrite`. -/
def write (s : AsyncLogging) : Except Fault AsyncLogging :=
  match s.buffersToWrite[s.wrote]? with
  | none => .ok s
  | some p => do
      let buffer ← p.deref
      return { s with output := s.output ++ buffer.data, wrote := s.wrote + 1 }

/-- `newBuffer = std::move(buffersToWrite.back()); pop_back(); reset()`, if it
is null. -/
def refill (newBuffer : BufferPtr) (buffersToWrite : List BufferPtr) :
    Except Fault (BufferPtr × List BufferPtr) :=
  if newBuffer.isNone then do
    assertThat (buffersToWrite ≠ [])
    let back ← (buffersToWrite.getLast?.getD none).deref
    return (some back.reset, buffersToWrite.dropLast)
  else .ok (newBuffer, buffersToWrite)

def recycle (s : AsyncLogging) : Except Fault AsyncLogging := do
  let buffersToWrite := s.buffersToWrite.take 2
  let (newBuffer1, buffersToWrite) ← refill s.newBuffer1 buffersToWrite
  let (newBuffer2, _) ← refill s.newBuffer2 buffersToWrite
  return { s with
    newBuffer1 := newBuffer1
    newBuffer2 := newBuffer2
    buffersToWrite := []
    pc := .whileTest }

/-! ## Interleavings -/

def guard (s : AsyncLogging) : LogAction → Bool
  | .append logline => logline.length < kLargeBuffer
  | .whileTest => s.pc = .whileTest
  | .lock => s.pc = .entered
  | .wakeup => s.pc = .waiting
  | .checkOverload _ => s.pc = .swapped
  | .write => s.pc = .writing ∧ s.wrote < s.buffersToWrite.length
  | .recycle => s.pc = .writing ∧ s.wrote = s.buffersToWrite.length
  | .stop => s.running

def exec : LogAction → AsyncLogging → Except Fault AsyncLogging
  | .append logline, s => s.append logline
  | .whileTest, s => s.whileTest
  | .lock, s => if s.buffers.isEmpty then .ok { s with pc := .waiting } else s.swap
  | .wakeup, s => s.swap
  | .checkOverload time, s => .ok (s.checkOverload time)
  | .write, s => s.write
  | .recycle, s => s.recycle
  | .stop, s => .ok { s with running := false }

def machine : Machine AsyncLogging LogAction Fault := ⟨guard, exec⟩

end AsyncLogging

end Libanet
