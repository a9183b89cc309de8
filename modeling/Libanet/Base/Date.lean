import Libanet.Base.Signed

/-!
# `base/Date.cc`

Dates as Julian day numbers, and their years, months and days. All integers
are `int`s of 32 bits: every operation that could leave them answers in
`Except Fault`, and division is C's, which truncates. Dividing by the positive
constants of this file cannot overflow.
-/

namespace Libanet

structure YearMonthDay where
  year : Int
  month : Int
  day : Int
  deriving DecidableEq, Repr

def getJulianDayNumber (year month day : Int) : Except Fault Int := do
  let a := (← signed 32 (14 - month)).tdiv 12
  let y ← signed 32 ((← signed 32 (year + 4800)) - a)
  let m ← signed 32 ((← signed 32 (month + (← signed 32 (12 * a)))) - 3)
  let n ← signed 32 (day + (← signed 32 ((← signed 32 (153 * m)) + 2)).tdiv 5)
  let n ← signed 32 (n + (← signed 32 (y * 365)))
  let n ← signed 32 (n + y.tdiv 4)
  let n ← signed 32 (n - y.tdiv 100)
  let n ← signed 32 (n + y.tdiv 400)
  signed 32 (n - 32045)

def getYearMonthDay (julianDayNumber : Int) : Except Fault YearMonthDay := do
  let a ← signed 32 (julianDayNumber + 32044)
  let b := (← signed 32 ((← signed 32 (4 * a)) + 3)).tdiv 146097
  let c ← signed 32 (a - (← signed 32 (b * 146097)).tdiv 4)
  let d := (← signed 32 ((← signed 32 (4 * c)) + 3)).tdiv 1461
  let e ← signed 32 (c - (← signed 32 (1461 * d)).tdiv 4)
  let m := (← signed 32 ((← signed 32 (5 * e)) + 2)).tdiv 153
  let x := (← signed 32 ((← signed 32 (153 * m)) + 2)).tdiv 5
  let day ← signed 32 ((← signed 32 (e - x)) + 1)
  let month ← signed 32 ((← signed 32 (m + 3)) - (← signed 32 (12 * m.tdiv 10)))
  let y ← signed 32 ((← signed 32 (b * 100)) + d)
  let year ← signed 32 ((← signed 32 (y - 4800)) + m.tdiv 10)
  return { year := year, month := month, day := day }

structure Date where
  julianDayNumber : Int
  deriving DecidableEq, Repr

namespace Date

/-- `getJulianDayNumber(1970, 1, 1)`. -/
def kJulianDayOf1970_01_01 : Int := 2440588

example : getJulianDayNumber 1970 1 1 = .ok kJulianDayOf1970_01_01 := rfl

def ofYearMonthDay (year month day : Int) : Except Fault Date := do
  return ⟨← getJulianDayNumber year month day⟩

def yearMonthDay (d : Date) : Except Fault YearMonthDay := getYearMonthDay d.julianDayNumber

end Date

end Libanet
