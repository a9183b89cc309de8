/-!
# `base/Timestamp.h`

Microseconds since the epoch. The class stores an `int64_t`; every statement
about it is made where no sum or difference leaves that range, so the model
counts in `Int`.
-/

namespace Libanet

abbrev Timestamp := Int

namespace Timestamp

def kMicroSecondsPerSecond : Int := 1000 * 1000

/-- `Timestamp::invalid()`, the epoch itself. -/
def invalid : Timestamp := 0

def valid (t : Timestamp) : Bool := 0 < t

end Timestamp

/-- `addTime`. The second argument stands for
`static_cast<int64_t>(seconds * kMicroSecondsPerSecond)`. -/
def addTime (timestamp : Timestamp) (delta : Int) : Timestamp :=
  timestamp + delta

end Libanet
