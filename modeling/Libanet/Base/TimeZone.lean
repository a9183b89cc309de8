import Libanet.Base.Date
import Libanet.Lib.UpperBound

/-!
# `base/TimeZone.cc`

A time zone: the types of local time it has known, and the moments it went
from one to another, with both clocks at each. `toLocalTime` looks a moment
up by its UTC second; `fromLocalTime` is given the local time and has to find
the type it was in, where `postTransition` chooses between two candidates.

Seconds are `int64_t`s and offsets `int32_t`s, kept as integers; what could
overflow is checked. A conversion to `int` wraps around. A `std::vector` is a
list, an iterator into it a position, and `operator[]`, `front` and `back` go
out of bounds where C++ leaves it open what happens.
-/

namespace Libanet

structure DateTime where
  year : Int := 0
  month : Int := 0
  day : Int := 0
  hour : Int := 0
  minute : Int := 0
  second : Int := 0
  deriving DecidableEq, Repr

def kSecondsPerDay : Int := 24 * 60 * 60

/-! ## The calendar -/

def fillHMS (seconds : Nat) (dt : DateTime) : DateTime :=
  let minutes := seconds / 60
  { dt with
    second := ↑(seconds % 60)
    minute := ↑(minutes % 60)
    hour := ↑(minutes / 60) }

/-- `static_cast<int>`. -/
def toInt (x : Int) : Int := x.bmod (2 ^ 32)

def BreakTime (t : Int) : Except Fault DateTime := do
  let seconds := toInt (t.tmod kSecondsPerDay)
  let days := toInt (t.tdiv kSecondsPerDay)
  let (seconds, days) ←
    if seconds < 0 then do
      pure (← signed 32 (seconds + kSecondsPerDay), ← signed 32 (days - 1))
    else pure (seconds, days)
  let dt := fillHMS seconds.toNat {}
  let date : Date := ⟨← signed 32 (days + Date.kJulianDayOf1970_01_01)⟩
  let ymd ← date.yearMonthDay
  return { dt with year := ymd.year, month := ymd.month, day := ymd.day }

def toUtcTime (secondsSinceEpoch : Int) : Except Fault DateTime := BreakTime secondsSinceEpoch

def fromUtcTime (dt : DateTime) : Except Fault Int := do
  let date ← Date.ofYearMonthDay dt.year dt.month dt.day
  let h ← signed 32 (dt.hour * 3600)
  let m ← signed 32 (dt.minute * 60)
  let secondsInDay ← signed 32 ((← signed 32 (h + m)) + dt.second)
  let days ← signed 32 (date.julianDayNumber - Date.kJulianDayOf1970_01_01)
  signed 64 ((← signed 64 (days * kSecondsPerDay)) + secondsInDay)

/-! ## The tables -/

structure Transition where
  utctime : Int
  localtime : Int
  localtimeIdx : Nat
  deriving DecidableEq, Repr

structure LocalTime where
  utcOffset : Int
  isDst : Bool
  desigIdx : Nat
  deriving DecidableEq, Repr

/-- `TimeZone::Data`. -/
structure ZoneData where
  transitions : List Transition := []
  localtimes : List LocalTime := []
  abbreviation : List UInt8 := []
  tzstring : List UInt8 := []
  deriving DecidableEq, Repr

/-- `vector::operator[]`. -/
def index {α : Type} (v : List α) (i : Nat) : Except Fault α :=
  match v[i]? with
  | some x => .ok x
  | none => .error .outOfBounds

/-- `vector::front`. -/
def front {α : Type} (v : List α) : Except Fault α := index v 0

/-- `vector::back`. -/
def back {α : Type} (v : List α) : Except Fault α :=
  match v.getLast? with
  | some x => .ok x
  | none => .error .outOfBounds

def compareUtcTime (lhs rhs : Transition) : Bool := lhs.utctime < rhs.utctime

namespace ZoneData

def addLocalTime (utcOffset : Int) (isDst : Bool) (desigIdx : Nat) (d : ZoneData) : ZoneData :=
  { d with localtimes := d.localtimes ++ [⟨utcOffset, isDst, desigIdx⟩] }

/-- `findLocalTime(int64_t)`. -/
def findLocalTime (utcTime : Int) (d : ZoneData) : Except Fault LocalTime :=
  match d.transitions with
  | [] => front d.localtimes
  | first :: _ =>
      if utcTime < first.utctime then front d.localtimes
      else do
        let sentry : Transition := ⟨utcTime, 0, 0⟩
        let transI := upperBound (compareUtcTime sentry) d.transitions
        assertThat (transI ≠ 0)
        if transI ≠ d.transitions.length then
          let trans ← index d.transitions (transI - 1)
          index d.localtimes trans.localtimeIdx
        else
          let trans ← back d.transitions
          index d.localtimes trans.localtimeIdx

/-- The last second before a transition, on the clock that was in force until
then: `utctime - 1 + localtimes[prior_trans.localtimeIdx].utcOffset`. -/
def priorSecond (trans prior_trans : Transition) (d : ZoneData) : Except Fault Int := do
  let lt ← index d.localtimes prior_trans.localtimeIdx
  signed 64 ((← signed 64 (trans.utctime - 1)) + lt.utcOffset)

/-- What `findLocalTime(DateTime)` does once it has found a later transition:
`transI` is its position. -/
def findAround (transI : Nat) (localtime : Int) (postTransition : Bool) (d : ZoneData) :
    Except Fault LocalTime := do
  let trans ← index d.transitions transI
  let prior_trans ← index d.transitions (transI - 1)
  let prior_second ← d.priorSecond trans prior_trans
  if prior_second < localtime then
    if postTransition then index d.localtimes trans.localtimeIdx
    else index d.localtimes prior_trans.localtimeIdx
  else
    let transI := transI - 1
    let trans ← index d.transitions transI
    let (prior_trans, prior_second) ←
      if transI ≠ 0 then do
        let prior_trans ← index d.transitions (transI - 1)
        pure (prior_trans, ← d.priorSecond trans prior_trans)
      else pure (prior_trans, prior_second)
    if localtime ≤ prior_second then
      if postTransition then index d.localtimes trans.localtimeIdx
      else index d.localtimes prior_trans.localtimeIdx
    else index d.localtimes trans.localtimeIdx

/-- `findLocalTime(DateTime)`. -/
def findLocalTimeOf (lt : DateTime) (postTransition : Bool) (d : ZoneData) :
    Except Fault LocalTime := do
  let localtime ← fromUtcTime lt
  match d.transitions with
  | [] => front d.localtimes
  | first :: _ =>
      if localtime < first.localtime then front d.localtimes
      else
        let sentry : Transition := ⟨0, localtime, 0⟩
        let transI := upperBound (compareUtcTime sentry) d.transitions
        assertThat (transI ≠ 0)
        if transI = d.transitions.length then
          let trans ← back d.transitions
          index d.localtimes trans.localtimeIdx
        else d.findAround transI localtime postTransition

end ZoneData

/-! ## The zone -/

/-- What `data_` points to. -/
structure TimeZone where
  data : Option ZoneData := none
  deriving DecidableEq, Repr

namespace TimeZone

def valid (z : TimeZone) : Bool := z.data.isSome

/-- `assert(data_ != NULL)`, and what it points to. -/
def deref (z : TimeZone) : Except Fault ZoneData :=
  match z.data with
  | some d => .ok d
  | none => .error .assertion

/-- `toLocalTime`, with the offset it reports. -/
def toLocalTime (seconds : Int) (z : TimeZone) : Except Fault (DateTime × Int) := do
  let d ← z.deref
  let lt ← d.findLocalTime seconds
  let localTime ← BreakTime (← signed 64 (seconds + lt.utcOffset))
  return (localTime, lt.utcOffset)

def fromLocalTime (localtime : DateTime) (postTransition : Bool) (z : TimeZone) :
    Except Fault Int := do
  let d ← z.deref
  let lt ← d.findLocalTimeOf localtime postTransition
  let localSeconds ← fromUtcTime localtime
  signed 64 (localSeconds - lt.utcOffset)

end TimeZone

end Libanet
