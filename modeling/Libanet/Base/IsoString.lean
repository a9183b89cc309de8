import Libanet.Base.Logging

/-!
# `Date::toIsoString` and `DateTime::toIsoString`

Both print into an array on the stack, which is large enough for any number
that can come up. The year of a `Date` is padded with blanks, and that of a
`DateTime` with zeros.
-/

namespace Libanet

/-- `snprintf` into `char buf[size]`. -/
def printInto (size : Nat) (text : List UInt8) : List UInt8 := text.take (size - 1)

/-- `operator<(Date, Date)`. -/
def Date.before (x y : Date) : Prop := x.julianDayNumber < y.julianDayNumber

def Date.toIsoString (d : Date) : Except Fault (List UInt8) := do
  let ymd ← d.yearMonthDay
  return printInto 32 (blankPadded 4 ymd.year ++ ascii "-" ++ zeroPadded 2 ymd.month ++
    ascii "-" ++ zeroPadded 2 ymd.day)

def DateTime.toIsoString (dt : DateTime) : List UInt8 :=
  printInto 64 (zeroPadded 4 dt.year ++ ascii "-" ++ zeroPadded 2 dt.month ++ ascii "-" ++
    zeroPadded 2 dt.day ++ ascii " " ++ zeroPadded 2 dt.hour ++ ascii ":" ++
    zeroPadded 2 dt.minute ++ ascii ":" ++ zeroPadded 2 dt.second)

end Libanet
