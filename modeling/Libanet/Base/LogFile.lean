import Libanet.Base.FileUtil
import Libanet.Base.Logging
import Libanet.Lib.Decimal
import Libanet.Lib.Gregorian

/-!
# `base/LogFile.cc`

A log that goes on in a new file from time to time: when the current one has
become too long, and when the day is over, which is looked at once in
`checkEveryN_` lines. A new file is named after the second in which it is
opened. None is opened in the second of the last one or before it, and then
the current file goes on.

What the clock says comes in from outside. An `append` may read it twice, once
for the day and once in `getLogFileName`, and the second reading need not be
the later one. `gmtime_r` is the calendar, whose years have no end here; an
`int` is too small for the years that are billions of years away. `mutex_` is
held from the start of an operation to its end, and is left out.

`file` is the current file and `closed` the files before it, with what their
streams have taken and when they were opened. Giving up a file flushes it,
since the destructor of `AppendFile` closes the stream.
-/

namespace Libanet

/-! ## The name of a file -/

def gmtime_r (now : Int) : DateTime :=
  let date := GregorianDate.ofDayNumber (now / 86400 + 719163)
  let seconds := now % 86400
  ⟨date.year, date.month, date.day, seconds / 3600, seconds / 60 % 60, seconds % 60⟩

/-- `strftime` with `".%Y%m%d-%H%M%S."`. -/
def timebuf (tm : DateTime) : List UInt8 :=
  ascii "." ++ (decimalText tm.year ++ zeroPadded 2 tm.month ++ zeroPadded 2 tm.day) ++
    ascii "-" ++ (zeroPadded 2 tm.hour ++ zeroPadded 2 tm.minute ++ zeroPadded 2 tm.second) ++
    ascii "."

/-- What `getLogFileName` asks the system: `time(NULL)`,
`ProcessInfo::hostname()` and `ProcessInfo::pid()`. -/
structure NameEnv where
  now : Int
  hostname : List UInt8
  pid : Int
  deriving DecidableEq, Repr

def getLogFileName (basename : List UInt8) (env : NameEnv) : List UInt8 :=
  basename ++ (timebuf (gmtime_r env.now) ++ (env.hostname ++
    (ascii "." ++ decimalText env.pid ++ ascii ".log")))

/-! ## The log -/

/-- A file with its name and the second in which it was opened. -/
structure OpenedFile where
  name : List UInt8
  opened : Int
  file : AppendFile
  deriving DecidableEq, Repr

namespace OpenedFile

/-- What its stream has taken. -/
def bytes (f : OpenedFile) : List UInt8 := f.file.fp.taken

def flush (f : OpenedFile) : OpenedFile := { f with file := f.file.flush }

/-- What a reader may find in it. -/
def MayHold (f : OpenedFile) (content : List UInt8) : Prop := f.file.fp.MayHold content

end OpenedFile

structure LogFile where
  basename : List UInt8
  rollSize : Int
  flushInterval : Int
  checkEveryN : Int
  count : Int
  startOfPeriod : Int
  lastRoll : Int
  lastFlush : Int
  /-- A `std::unique_ptr`. -/
  file : Option OpenedFile
  closed : List OpenedFile
  deriving DecidableEq, Repr

def kRollPerSeconds : Int := 60 * 60 * 24

namespace LogFile

/-- All files so far, in the order in which they were opened. -/
def files (s : LogFile) : List OpenedFile := s.closed ++ s.file.toList

/-- Following `file_`. -/
def deref (s : LogFile) : Except Fault OpenedFile :=
  match s.file with
  | some f => .ok f
  | none => .error .nullPointer

def rollFile (env : NameEnv) (s : LogFile) : Bool × LogFile :=
  let filename := getLogFileName s.basename env
  let start := env.now.tdiv kRollPerSeconds * kRollPerSeconds
  if env.now > s.lastRoll then
    (true, { s with
      lastRoll := env.now
      lastFlush := env.now
      startOfPeriod := start
      file := some ⟨filename, env.now, .new⟩
      closed := s.closed ++ (s.file.map OpenedFile.flush).toList })
  else (false, s)

/-- The constructor. -/
def new (basename : List UInt8) (rollSize flushInterval checkEveryN : Int) (env : NameEnv) :
    Except Fault LogFile := do
  assertThat (0x2f ∉ basename)
  let s : LogFile := {
    basename := basename
    rollSize := rollSize
    flushInterval := flushInterval
    checkEveryN := checkEveryN
    count := 0
    startOfPeriod := 0
    lastRoll := 0
    lastFlush := 0
    file := none
    closed := [] }
  return (s.rollFile env).2

/-- The branch of `append_unlocked` for a file that is not too long. `now` is
what `::time(NULL)` answers. -/
def checkPeriod (now : Int) (env : NameEnv) (s : LogFile) : LogFile :=
  let s := { s with count := s.count + 1 }
  if s.count ≥ s.checkEveryN then
    let s := { s with count := 0 }
    let thisPeriod := now.tdiv kRollPerSeconds * kRollPerSeconds
    if thisPeriod ≠ s.startOfPeriod then (s.rollFile env).2
    else if now - s.lastFlush > s.flushInterval then
      { s with lastFlush := now, file := s.file.map OpenedFile.flush }
    else s
  else s

def append_unlocked (logline : List UInt8) (fwrite : Fwrite) (now : Int) (env : NameEnv)
    (s : LogFile) : Except Fault LogFile := do
  let f ← s.deref
  let f := { f with file := f.file.append fwrite logline }
  let s := { s with file := some f }
  if (f.file.writtenBytes : Int) > s.rollSize then return (s.rollFile env).2
  else return s.checkPeriod now env

def flush (s : LogFile) : Except Fault LogFile := do
  let f ← s.deref
  return { s with file := some f.flush }

end LogFile

inductive LogFileAction where
  /-- An `append` without write errors, at positive readings of the clock. -/
  | append (logline : List UInt8) (fwrite : Fwrite) (noErrors : fwrite.NoErrors)
      (now : Int) (now_pos : 0 < now) (env : NameEnv) (env_pos : 0 < env.now)
  | flush

namespace LogFile

def exec : LogFileAction → LogFile → Except Fault LogFile
  | .append logline fwrite _ now _ env _, s => s.append_unlocked logline fwrite now env
  | .flush, s => s.flush

def machine : Machine LogFile LogFileAction Fault := ⟨fun _ _ => true, exec⟩

end LogFile

end Libanet
