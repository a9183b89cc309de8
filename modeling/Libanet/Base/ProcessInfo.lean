import Libanet.Base.StringPiece

/-!
# `base/ProcessInfo.cc`, `procname`

The name of a command, taken out of a line of `/proc/<pid>/stat`, where it
stands in parentheses. `procname` looks for the first parenthesis of either
kind. A position that is not found is `string::npos`, and `none` here.
-/

namespace Libanet

/-- `stat.find(c)`. -/
def stringFind (c : UInt8) (stat : List UInt8) : Option Nat := stat.idxOf? c

namespace ProcessInfo

/-- `'('`. -/
def opening : UInt8 := 0x28

/-- `')'`. -/
def closing : UInt8 := 0x29

/-- `stat.data()` points to the characters, with a null byte behind them. -/
def procname (stat : List UInt8) : StringPiece :=
  let name := StringPiece.new
  match stringFind opening stat, stringFind closing stat with
  | some lp, some rp =>
      if lp < rp then name.set ((stat ++ [0]).drop (lp + 1)) (intOfSize (rp - lp - 1)) else name
  | _, _ => name

end ProcessInfo

end Libanet
