import Libanet.Base.AsyncLogging
import Libanet.Base.LogFile

/-!
# `AsyncLogging::threadFunc` with its `LogFile`

The back end keeps the log file to itself: `output` is a local of
`threadFunc`, made without a mutex before the loop and given up behind it. A
turn of the loop calls `output.append` for the notice about dropped messages
and then once for every buffer that is left, and `output.flush` at its end.

What `fwrite_unlocked` and the clock answer inside an `append` comes in with
the action, as an `AppendEnv`. `handed` is kept for the record.
-/

namespace Libanet

/-- What the system answers during one `LogFile::append`. -/
structure AppendEnv where
  fwrite : Fwrite
  noErrors : fwrite.NoErrors
  now : Int
  now_pos : 0 < now
  name : NameEnv
  name_pos : 0 < name.now

structure LogPipeline where
  log : AsyncLogging
  output : LogFile
  /-- What `output.append` was called with, call by call. -/
  handed : List (List UInt8)

inductive PipelineAction where
  | append (logline : List UInt8)
  | whileTest
  | lock
  | wakeup
  | checkOverload (time : List UInt8) (env : AppendEnv)
  | write (env : AppendEnv)
  | recycle
  | stop

/-- The same action, as the logger takes it. -/
def PipelineAction.log : PipelineAction → LogAction
  | .append logline => .append logline
  | .whileTest => .whileTest
  | .lock => .lock
  | .wakeup => .wakeup
  | .checkOverload time _ => .checkOverload time
  | .write _ => .write
  | .recycle => .recycle
  | .stop => .stop

namespace LogPipeline

/-- The front end as `start` leaves it, and `LogFile output(basename_,
rollSize_, false)`. -/
def new (basename : List UInt8) (rollSize : Int) (env : NameEnv) : Except Fault LogPipeline := do
  let output ← LogFile.new basename rollSize 3 1024 env
  return ⟨.new, output, []⟩

/-- `output.append`. -/
def appendOutput (logline : List UInt8) (env : AppendEnv) (s : LogPipeline) :
    Except Fault LogPipeline := do
  let output ← s.output.append_unlocked logline env.fwrite env.now env.name
  return { s with output := output, handed := s.handed ++ [logline] }

def whileTest (s : LogPipeline) : Except Fault LogPipeline := do
  let log ← s.log.whileTest
  if log.pc = .finished then
    let output ← s.output.flush
    return { s with log := log, output := output }
  else return { s with log := log }

def checkOverload (time : List UInt8) (env : AppendEnv) (s : LogPipeline) :
    Except Fault LogPipeline := do
  if 25 < s.log.buffersToWrite.length then
    let buf := AsyncLogging.overloadNotice time s.log.buffersToWrite.length
    let s ← s.appendOutput buf env
    return { s with log := s.log.checkOverload time }
  else return { s with log := s.log.checkOverload time }

def write (env : AppendEnv) (s : LogPipeline) : Except Fault LogPipeline := do
  let buffer ← (s.log.buffersToWrite.getD s.log.wrote none).deref
  let s ← s.appendOutput buffer.data env
  let log ← s.log.write
  return { s with log := log }

def recycle (s : LogPipeline) : Except Fault LogPipeline := do
  let log ← s.log.recycle
  let output ← s.output.flush
  return { s with log := log, output := output }

def exec : PipelineAction → LogPipeline → Except Fault LogPipeline
  | .append logline, s => do
      let log ← s.log.append logline
      return { s with log := log }
  | .whileTest, s => s.whileTest
  | .lock, s => do
      let log ← AsyncLogging.exec .lock s.log
      return { s with log := log }
  | .wakeup, s => do
      let log ← s.log.swap
      return { s with log := log }
  | .checkOverload time env, s => s.checkOverload time env
  | .write env, s => s.write env
  | .recycle, s => s.recycle
  | .stop, s => .ok { s with log := { s.log with running := false } }

def machine : Machine LogPipeline PipelineAction Fault := ⟨fun s a => s.log.guard a.log, exec⟩

end LogPipeline

end Libanet
