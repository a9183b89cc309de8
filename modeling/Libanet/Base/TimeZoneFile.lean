import Libanet.Base.TimeZone
import Libanet.Lib.ByteReader
import Libanet.Net.Endian

/-!
# The zone files of `base/TimeZone.cc`

`readTimeZoneFile` reads a TZif file into a `TimeZone::Data`. Numbers in it
are big-endian. A version 1 file is a header, which ends with six counts, and
a data block with times of four bytes; a version 2 file has a second header
and block with times of eight bytes behind it, and the first block is skipped.

Reading goes through `File`, whose readers throw a `logic_error` when the
file is too short. So do `vector::reserve` with a negative size and
`vector::at` out of range, by way of classes derived from `logic_error`.
`readTimeZoneFile` catches all of them and answers false, and `loadZoneFile`
then drops what has been read, so `none` stands for false here. What is not
caught are faults. A `readBytes` of a negative length is one.
-/

namespace Libanet

open Net (ByteOrder)
open ByteReader (fread fseek readToEnd many)

/-- How a reader ends if it does not return. -/
inductive ReadStop where
  | logic_error (what : String)
  | length_error
  | out_of_range
  | fault (f : Fault)
  deriving DecidableEq, Repr

abbrev FileReader := ByteReader ReadStop

/-! ## `File` -/

/-- An `fread` of `n` bytes that must not fall short. -/
def readExactly (n : Nat) (what : String) : FileReader (List UInt8) := do
  let buf ← fread n
  if buf.length ≠ n then throw (.logic_error what) else pure buf

def readBytes (n : Int) : FileReader (List UInt8) :=
  if n < 0 then throw (.fault .outOfBounds) else readExactly n.toNat "no enough data"

def readInt64 (host : ByteOrder) : FileReader Int := do
  let x ← readExactly 8 "bad int64_t data"
  return (host.betoh (host.object 64 x)).toInt

def readInt32 (host : ByteOrder) : FileReader Int := do
  let x ← readExactly 4 "bad int32_t data"
  return (host.betoh (host.object 32 x)).toInt

/-- The byte is converted to 64 bits and back around the `be64toh`. -/
def readUint8 (host : ByteOrder) : FileReader Nat := do
  let x ← readExactly 1 "bad uint8_t data"
  return ((host.betoh ((host.object 8 x).setWidth 64)).setWidth 8).toNat

/-! ## The data block -/

/-- The counts at the end of a header. -/
structure TzCounts where
  isutccnt : Int
  isstdcnt : Int
  leapcnt : Int
  timecnt : Int
  typecnt : Int
  charcnt : Int
  deriving DecidableEq, Repr

def readCounts (host : ByteOrder) : FileReader TzCounts := do
  let isutccnt ← readInt32 host
  let isstdcnt ← readInt32 host
  let leapcnt ← readInt32 host
  let timecnt ← readInt32 host
  let typecnt ← readInt32 host
  let charcnt ← readInt32 host
  return { isutccnt := isutccnt, isstdcnt := isstdcnt, leapcnt := leapcnt
           timecnt := timecnt, typecnt := typecnt, charcnt := charcnt }

/-- `vector::reserve`. A negative `int` becomes a size no vector has. -/
def reserve (n : Int) : FileReader Unit :=
  if n < 0 then throw .length_error else pure ()

/-- The loop that fills `data->localtimes`. -/
def readLocalTimes (host : ByteOrder) : Nat → ZoneData → FileReader ZoneData
  | 0, data => pure data
  | n + 1, data => do
      let gmtoff ← readInt32 host
      let isdst ← readUint8 host
      let abbrind ← readUint8 host
      readLocalTimes host n (data.addLocalTime gmtoff (isdst ≠ 0) abbrind)

def ZoneData.addTransition (utcTime : Int) (localtimeIdx : Nat) (data : ZoneData) :
    Except ReadStop ZoneData :=
  match data.localtimes[localtimeIdx]? with
  | none => .error .out_of_range
  | some lt =>
      match signed 64 (utcTime + lt.utcOffset) with
      | .error f => .error (.fault f)
      | .ok localtime => .ok { data with
          transitions := data.transitions ++ [⟨utcTime, localtime, localtimeIdx⟩] }

/-- The loop that fills `data->transitions`. -/
def addTransitions : List (Int × Nat) → ZoneData → Except ReadStop ZoneData
  | [], data => .ok data
  | (utcTime, localtimeIdx) :: rest, data => do
      let data ← data.addTransition utcTime localtimeIdx
      addTransitions rest data

/-- What `readDataBlock` does once it has found the counts in order. -/
def readDataArrays (host : ByteOrder) (data : ZoneData) (v1 : Bool) (c : TzCounts) :
    FileReader ZoneData := do
  let time_size : Int := if v1 then 4 else 8
  reserve c.timecnt
  let trans ← many (if v1 then readInt32 host else readInt64 host) c.timecnt.toNat
  reserve c.timecnt
  let localtimes ← many (readUint8 host) c.timecnt.toNat
  reserve c.typecnt
  let data ← readLocalTimes host c.typecnt.toNat data
  let data ← addTransitions (trans.zip localtimes) data
  let abbreviation ← readBytes c.charcnt
  fseek (c.leapcnt * (time_size + 4))
  fseek c.isstdcnt
  fseek c.isutccnt
  let tzstring ← if v1 then pure data.tzstring else readToEnd
  return { data with abbreviation := abbreviation, tzstring := tzstring }

def readDataBlock (host : ByteOrder) (data : ZoneData) (v1 : Bool) :
    FileReader (Option ZoneData) := do
  let c ← readCounts host
  if c.leapcnt ≠ 0 then return none
  else if c.isutccnt ≠ 0 ∧ c.isutccnt ≠ c.typecnt then return none
  else if c.isstdcnt ≠ 0 ∧ c.isstdcnt ≠ c.typecnt then return none
  else return some (← readDataArrays host data v1 c)

/-! ## The file -/

/-- `"TZif"`. -/
def TZif : List UInt8 := [0x54, 0x5a, 0x69, 0x66]

def readHead : FileReader Unit := do
  let head ← readBytes 4
  if head ≠ TZif then throw (.logic_error "bad head") else pure ()

/-- How far it is over the first block. `6 * typecnt` and `8 * leapcnt` are
products of `int`s, all the rest is done in `size_t`, and `skip` takes an
`ssize_t`. -/
def skipOf (c : TzCounts) : Except ReadStop Int :=
  match signed 32 (6 * c.typecnt), signed 32 (8 * c.leapcnt) with
  | .ok types, .ok leaps =>
      .ok ((4 * c.timecnt + c.timecnt + types + c.charcnt + leaps + c.isstdcnt +
        c.isutccnt).bmod (2 ^ 64))
  | _, _ => .error (.fault .signedOverflow)

/-- The `try` block of `readTimeZoneFile`. -/
def readZone (host : ByteOrder) (data : ZoneData) : FileReader (Option ZoneData) := do
  readHead
  let version ← readBytes 1
  let _ ← readBytes 15
  let c ← readCounts host
  if version = [0x32] then
    let skip ← skipOf c
    fseek skip
    readHead
    fseek 16
    readDataBlock host data false
  else
    fseek (-4 * 6)
    readDataBlock host data true

/-- The content of the file is `none` if it cannot be opened. -/
def readTimeZoneFile (host : ByteOrder) (zonefile : Option (List UInt8)) (data : ZoneData) :
    Except Fault (Option ZoneData) :=
  match zonefile with
  | none => .ok none
  | some content =>
      match readZone host data { content := content } with
      | .ok (data, _) => .ok data
      | .error (.fault f) => .error f
      | .error _ => .ok none

def TimeZone.loadZoneFile (host : ByteOrder) (zonefile : Option (List UInt8)) :
    Except Fault TimeZone := do
  return ⟨← readTimeZoneFile host zonefile {}⟩

end Libanet
