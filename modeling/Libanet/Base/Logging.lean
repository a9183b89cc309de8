import Libanet.Base.LogStream
import Libanet.Base.TimeZone
import Libanet.Base.Timestamp
import Libanet.Lib.Machine

/-!
# `base/Logging.cc`

A `Logger` makes one record. Its constructor puts the time, the thread and the
level into the stream, the user inserts what is to be logged, and the
destructor adds where in the source that was and hands the stream's content
over to `g_output`. All of it goes into one `LogStream`, and what does not fit
is not in the record.

Pieces of a known length are not measured: a `T` is a pointer and the number
of characters it is to be good for, which an `assert` compares with the
string. Without the assert so many bytes are copied, and those behind a string
that is too short begin with the NUL that ends it. The asserts are a parameter,
as are the zone, what the clock says, and what `strerror_r` has left in its
buffer. The seconds of the time are formatted once for all records of the same
second: `LogThread` is what a thread keeps for that. `logWriter` is a thread
that makes one record after another, with the zone changing in between.
-/

namespace Libanet

inductive LogLevel where
  | TRACE
  | DEBUG
  | INFO
  | WARN
  | ERROR
  | FATAL
  deriving DecidableEq, Repr

def LogLevelName : LogLevel → List UInt8
  | .TRACE => ascii "TRACE "
  | .DEBUG => ascii "DEBUG "
  | .INFO => ascii "INFO "
  | .WARN => ascii "WARN "
  | .ERROR => ascii "ERROR "
  | .FATAL => ascii "FATAL "

/-- What `class T` copies into the stream. -/
def T (debug : Bool) (str : List UInt8) (len : Nat) : Except Fault (List UInt8) := do
  assertIn debug (str.length = len)
  return (str ++ List.replicate len 0).take len

/-- `SourceFile`: what comes after the last slash. -/
def basename (file : CString) : CString where
  chars := (file.chars.reverse.takeWhile (· ≠ 0x2f)).reverse
  noNul h := file.noNul (List.mem_reverse.mp (List.takeWhile_subset _ (List.mem_reverse.mp h)))

/-! ## `snprintf` -/

/-- The digits of a number. -/
def magnitude (v : Int) : List UInt8 := (convertLoop 10 zeroAt (v.natAbs + 1) v).reverse

def sign (v : Int) : List UInt8 := if v < 0 then ascii "-" else []

/-- `"%4d"`, `"%5d"`: blanks in front. -/
def blankPadded (width : Nat) (v : Int) : List UInt8 :=
  let text := sign v ++ magnitude v
  List.replicate (width - text.length) 0x20 ++ text

/-- `"%02d"`, `"%06d"`: zeros between the sign and the digits. -/
def zeroPadded (width : Nat) (v : Int) : List UInt8 :=
  let text := magnitude v
  sign v ++ (List.replicate (width - (sign v).length - text.length) 0x30 ++ text)

/-- `"%4d%02d%02d %02d:%02d:%02d"`. -/
def formatDateTime (dt : DateTime) : List UInt8 :=
  blankPadded 4 dt.year ++ zeroPadded 2 dt.month ++ zeroPadded 2 dt.day ++ ascii " " ++
    zeroPadded 2 dt.hour ++ ascii ":" ++ zeroPadded 2 dt.minute ++ ascii ":" ++
    zeroPadded 2 dt.second

/-! ## The logger -/

/-- The thread-local variables: `t_cachedTid`, `t_lastSecond`, and the string in
`t_time`. -/
structure LogThread where
  tid : Int
  lastSecond : Int := 0
  time : List UInt8 := []

/-- What a record depends on besides its arguments. -/
structure LogEnv where
  debug : Bool
  logTimeZone : TimeZone
  /-- `Timestamp::now()`. -/
  now : Timestamp
  /-- What is in `t_errnobuf` after `strerror_r`. -/
  strerror : CString

/-- The constructors of `Logger`, with their arguments other than the place. -/
inductive LoggerArgs where
  | plain
  | level (level : LogLevel)
  | func (level : LogLevel) (func : CString)
  /-- `savedErrno` is the `errno` of the moment. -/
  | sys (toAbort : Bool) (savedErrno : Int) (range : savedErrno.natAbs < 2 ^ 64)

namespace LoggerArgs

def logLevel : LoggerArgs → LogLevel
  | plain => .INFO
  | level l => l
  | func l _ => l
  | sys toAbort _ _ => if toAbort then .FATAL else .ERROR

end LoggerArgs

namespace Logger

/-- The time in the zone of the log, or UTC if that has not been set. -/
def dateTime (env : LogEnv) (seconds : Int) : Except Fault DateTime :=
  if env.logTimeZone.valid then (env.logTimeZone.toLocalTime seconds).map Prod.fst
  else toUtcTime seconds

/-- The seconds are formatted anew if they are not those of the last record. -/
def formatSeconds (env : LogEnv) (seconds : Int) (th : LogThread) : Except Fault LogThread :=
  if seconds ≠ th.lastSecond then do
    let dt ← dateTime env seconds
    assertIn env.debug ((formatDateTime dt).length = 17)
    return { th with lastSecond := seconds, time := (formatDateTime dt).take 63 }
  else .ok th

def formatTime (env : LogEnv) (th : LogThread) (stream : LogStream) :
    Except Fault (LogThread × LogStream) := do
  let seconds := env.now.tdiv Timestamp.kMicroSecondsPerSecond
  let microseconds := env.now.tmod Timestamp.kMicroSecondsPerSecond
  let th ← formatSeconds env seconds th
  let (us, width) :=
    if env.logTimeZone.valid then (ascii "." ++ zeroPadded 6 microseconds ++ ascii " ", 8)
    else (ascii "." ++ zeroPadded 6 microseconds ++ ascii "Z ", 9)
  assertIn env.debug (us.length = width)
  let time ← T env.debug th.time 17
  let us ← T env.debug us width
  return (th, (stream.append time).append us)

/-- `strerror_tl(savedErrno) << " (errno=" << savedErrno << ") "`. -/
def insertErrno (env : LogEnv) (savedErrno : Int) (range : savedErrno.natAbs < 2 ^ 64)
    (stream : LogStream) : LogStream :=
  if savedErrno ≠ 0 then
    (((stream.insert (.cstr (some env.strerror))).append (ascii " (errno=")).formatInteger
      savedErrno range).append (ascii ") ")
  else stream

/-- `Impl::Impl`, and what the constructors do after it. -/
def new (env : LogEnv) (args : LoggerArgs) (th : LogThread) :
    Except Fault (LogThread × LogStream) := do
  let (th, stream) ← formatTime env th .new
  let tidString := blankPadded 5 th.tid
  let tid ← T env.debug tidString tidString.length
  let name ← T env.debug (LogLevelName args.logLevel) 6
  let stream := (stream.append tid).append name
  match args with
  | .sys _ savedErrno range => return (th, insertErrno env savedErrno range stream)
  | .func _ func => return (th, (stream.insert (.cstr (some func))).insert (.char 0x20))
  | _ => return (th, stream)

/-- `Impl::finish`. -/
def finish (file : CString) (line : Int) (range : line.natAbs < 2 ^ 64) (stream : LogStream) :
    LogStream :=
  let stream := stream.append (ascii "-")
  let stream := stream.append (basename file).chars
  let stream := stream.insert (.char 0x3a)
  let stream := stream.formatInteger line range
  stream.insert (.char 0x0a)

/-- The record that `~Logger` passes to `g_output`, after these insertions. -/
def record (env : LogEnv) (args : LoggerArgs) (file : CString) (line : Int)
    (range : line.natAbs < 2 ^ 64) (insertions : List Insertion) (th : LogThread) :
    Except Fault (LogThread × List UInt8) := do
  let (th, stream) ← new env args th
  let stream := insertions.foldl (fun stream i => stream.insert i) stream
  return (th, (finish file line range stream).buffer.data)

end Logger

/-! ## One record after another -/

/-- The seconds of the years 1970 to 9999. -/
def LogSecond (t : Int) : Prop := 0 ≤ t ∧ t < 253402300800

/-- A zone that has an offset for all of these, or one that is not valid. -/
structure LogZone where
  zone : TimeZone
  answers : ∀ d, zone.data = some d → ∀ t, LogSecond t →
    ∃ lt, d.findLocalTime t = .ok lt ∧ Fits 32 lt.utcOffset

namespace LogZone

def utc : LogZone := ⟨{}, fun d hd => by cases hd⟩

/-- What `toLocalTime` adds. -/
def offset (t : Int) (z : LogZone) : Int :=
  (z.zone.data.bind fun d => (d.findLocalTime t).toOption).elim 0 LocalTime.utcOffset

end LogZone

/-- A thread and `g_logTimeZone`. -/
structure LogWriter where
  thread : LogThread
  logTimeZone : LogZone := .utc
  /-- The zone in which the time in `thread` was made, if there is one. The code
  does not keep it. -/
  madeIn : Option LogZone := none

inductive WriterAction where
  | setTimeZone (tz : LogZone)
  /-- A record whose `Timestamp::now()` is in the years 1970 to 9999. -/
  | log (now : Timestamp)
      (range : 0 ≤ now ∧ now < 253402300800 * Timestamp.kMicroSecondsPerSecond)

namespace LogWriter

theorem noNul_nil : (0 : UInt8) ∉ ([] : List UInt8) := List.not_mem_nil

/-- What the time of a record depends on, besides the thread. -/
def env (debug : Bool) (now : Timestamp) (s : LogWriter) : LogEnv where
  debug := debug
  logTimeZone := s.logTimeZone.zone
  now := now
  strerror := ⟨[], noNul_nil⟩

def setTimeZone (tz : LogZone) (s : LogWriter) : LogWriter := { s with logTimeZone := tz }

def log (debug : Bool) (now : Timestamp) (s : LogWriter) : Except Fault LogWriter := do
  let (th, _) ← Logger.formatTime (s.env debug now) s.thread .new
  let madeIn := if th.lastSecond = s.thread.lastSecond then s.madeIn else some s.logTimeZone
  return { s with thread := th, madeIn := madeIn }

end LogWriter

def logWriter (debug : Bool) : Machine LogWriter WriterAction Fault where
  guard _ _ := true
  exec
    | .setTimeZone tz, s => .ok (s.setTimeZone tz)
    | .log now _, s => s.log debug now

end Libanet
