import Libanet.Base.LogStream
import Libanet.Lib.Memory

/-!
# `base/LogStream.cc`, byte by byte

`LogStream` keeps what is between `data_` and `cur_`. Here is the array itself,
with every byte that is written to it: the digits of a number, lowest first,
and the NUL behind them before they are reversed, the `0x` of a pointer, the
NUL of `snprintf`. A write past the end of the array is a fault.

`cur_` is kept as its distance from `data_`. `avail` is an `int`, which
`append` converts to `size_t`, so a `cur_` past the end would pass its test.
-/

namespace Libanet

/-! ## Numbers -/

/-- The loop of `convert` and of `convertHex`; `p` is where the next digit
goes. -/
def convertDigits (base : Int) (digit : Int → UInt8) :
    Nat → Int → Nat → List UInt8 → Except Fault (Nat × List UInt8)
  | 0, _, p, mem => .ok (p, mem)
  | fuel + 1, i, p, mem => do
      let lsd := i.tmod base
      let i := i.tdiv base
      let mem ← writeCell .outOfBounds p (digit lsd) mem
      if i ≠ 0 then convertDigits base digit fuel i (p + 1) mem else return (p + 1, mem)

/-- `convert(buf, value)`, with what it returns. -/
def convertAt (buf : Nat) (value : Int) (mem : List UInt8) :
    Except Fault (Nat × List UInt8) := do
  let (p, mem) ← convertDigits 10 zeroAt (value.natAbs + 1) value buf mem
  let (p, mem) ←
    if value < 0 then do pure (p + 1, ← writeCell .outOfBounds p 0x5f mem)
    else pure (p, mem)
  let mem ← writeCell .outOfBounds p 0 mem
  return (p - buf, reverseCells buf p mem)

/-- `convertHex(buf, value)`. -/
def convertHexAt (buf : Nat) (value : Nat) (mem : List UInt8) :
    Except Fault (Nat × List UInt8) := do
  let (p, mem) ← convertDigits 16 hexAt (value + 1) value buf mem
  let mem ← writeCell .outOfBounds p 0 mem
  return (p - buf, reverseCells buf p mem)

/-! ## The stream -/

/-- `buffer_` of a `LogStream`. -/
structure StreamMemory where
  data : List UInt8
  cur : Nat

namespace StreamMemory

/-- An array with anything in it. -/
def new (data : List UInt8) : StreamMemory := ⟨data, 0⟩

def length (s : StreamMemory) : Nat := s.cur

def avail (s : StreamMemory) : Int := kSmallBuffer - s.cur

def contents (s : StreamMemory) : List UInt8 := s.data.take s.cur

def append (buf : List UInt8) (s : StreamMemory) : Except Fault StreamMemory :=
  if (buf.length : Int) < s.avail % 2 ^ 64 then do
    -- `memcpy`
    let data ← writeCells .outOfBounds s.cur buf s.data
    return { data := data, cur := s.cur + buf.length }
  else .ok s

def formatInteger (v : Int) (s : StreamMemory) : Except Fault StreamMemory :=
  if kMaxNumericSize ≤ s.avail then do
    let (len, data) ← convertAt s.cur v s.data
    return { data := data, cur := s.cur + len }
  else .ok s

/-- `operator<<(const void *)`. -/
def formatPointer (v : Nat) (s : StreamMemory) : Except Fault StreamMemory :=
  if kMaxNumericSize ≤ s.avail then do
    let data ← writeCell .outOfBounds s.cur 0x30 s.data
    let data ← writeCell .outOfBounds (s.cur + 1) 0x78 data
    let (len, data) ← convertHexAt (s.cur + 2) v data
    return { data := data, cur := s.cur + (len + 2) }
  else .ok s

/-- `operator<<(double)`. `snprintf` writes at most `kMaxNumericSize` bytes,
the NUL among them, and returns the length of the whole text. -/
def formatDouble (text : List UInt8) (s : StreamMemory) : Except Fault StreamMemory :=
  if kMaxNumericSize ≤ s.avail then do
    let data ← writeCells .outOfBounds s.cur (text.take (kMaxNumericSize - 1) ++ [0]) s.data
    return { data := data, cur := s.cur + text.length }
  else .ok s

/-- `operator<<`. An `Fmt` is `bytes`. -/
def insert (i : Insertion) (s : StreamMemory) : Except Fault StreamMemory :=
  match i with
  | .bool v => s.append (if v then ascii "1" else ascii "0")
  | .integer v _ => s.formatInteger v
  | .pointer p => s.formatPointer p.toNat
  | .double text _ => s.formatDouble text.chars
  | .char v => s.append [v]
  | .cstr (some str) => s.append str.chars
  | .cstr none => s.append (ascii "(null)")
  | .bytes v => s.append v

end StreamMemory

end Libanet
