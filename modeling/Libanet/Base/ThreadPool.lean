import Libanet.Base.Assert
import Libanet.Lib.CondVar
import Libanet.Lib.Machine

/-!
# `base/ThreadPool.cc`

A pool of worker threads that take tasks from a queue. `run` may be called
on any thread, by a task as well, and waits while a bounded queue is full;
workers wait in `take` while it is empty. `stop` tells both sides to give up.

A step is what a thread does under `mutex_`, from its entry or from the end
of a `wait` to its exit or its next `wait`. Only the test of `running_` in
`runInThread` is made without the mutex, and is a step of its own.

The pool is as `start` has left it, with its threads about to call
`threadInitCallback_`; that callback and the tasks are user code.

`isFull` asserts that the mutex is held, and asks a function of
`base/Mutex.h` for it whose body is empty. So whether the code is built with
asserts makes a difference here, and `debug` says so.
-/

namespace Libanet

namespace MutexLock

/-- `bool isLockedByThisThread() const {}`. -/
def isLockedByThisThread : Except Fault Bool := .error .noResult

def assertLocked (debug : Bool) : Except Fault Unit :=
  if debug then do
    let locked ← isLockedByThisThread
    assertThat (locked = true)
  else .ok ()

end MutexLock

/-- Where a thread stands, when it is not in a `wait`. -/
inductive PoolPc where
  /-- In user code: a thread of the program, or a worker in a task. -/
  | user
  /-- At the condition of the `while` in `runInThread`. -/
  | whileTest
  /-- About to call `take`. -/
  | take
  /-- `runInThread` has returned. -/
  | exited
  deriving DecidableEq, Repr

structure ThreadPool (Tid Task : Type) where
  threads : List Tid
  maxQueueSize : Nat
  running : Bool
  queue : List Task
  notEmpty : CondVar Tid
  /-- Its threads are waiting with the task they want to run. -/
  notFull : CondVar (Tid × Task)
  pc : Tid → PoolPc
  /-- The tasks `run` has put into the queue, in order. -/
  accepted : List Task
  /-- The tasks `take` has answered, in order. -/
  handedOut : List Task

inductive PoolAction (Tid Task : Type) where
  | run (t : Tid) (task : Task) (notified : Nat)
  | runResumed (i notified : Nat)
  /-- A worker comes back from its task, or from `threadInitCallback_`. -/
  | taskDone (t : Tid)
  | whileTest (t : Tid)
  | take (t : Tid) (notified : Nat)
  | takeResumed (i notified : Nat)
  | stop
  /-- Spurious wakeups. -/
  | wakeProducer (i : Nat)
  | wakeWorker (i : Nat)

namespace ThreadPool

variable {Tid Task : Type}

/-- The pool after `start`. -/
def new (threads : List Tid) (maxQueueSize : Nat) : ThreadPool Tid Task where
  threads := threads
  maxQueueSize := maxQueueSize
  running := true
  queue := []
  notEmpty := .empty
  notFull := .empty
  pc := fun _ => .user
  accepted := []
  handedOut := []

def isFull (debug : Bool) (p : ThreadPool Tid Task) : Except Fault Bool := do
  MutexLock.assertLocked debug
  return 0 < p.maxQueueSize ∧ p.maxQueueSize ≤ p.queue.length

/-- `assert(!isFull())`. -/
def assertNotFull (debug : Bool) (p : ThreadPool Tid Task) : Except Fault Unit :=
  if debug then do
    let full ← p.isFull debug
    assertThat (full = false)
  else .ok ()

/-- `run`, from the test of its `while` on. -/
def runLoop (debug : Bool) (t : Tid) (task : Task) (notified : Nat) (p : ThreadPool Tid Task) :
    Except Fault (ThreadPool Tid Task) := do
  let full ← p.isFull debug
  if full && p.running then return { p with notFull := p.notFull.wait (t, task) }
  else if !p.running then return p
  else
    p.assertNotFull debug
    return { p with
      queue := p.queue ++ [task]
      notEmpty := p.notEmpty.notify notified
      accepted := p.accepted ++ [task] }

/-- The threads inside `run` or `take`. -/
def inside (p : ThreadPool Tid Task) : List Tid :=
  CondVar.insideBoth p.notEmpty p.notFull

variable [DecidableEq Tid]

def setPc (t : Tid) (pc : PoolPc) (p : ThreadPool Tid Task) : ThreadPool Tid Task :=
  { p with pc := fun u => if u = t then pc else p.pc u }

/-- `run`. A pool without threads runs the task on the spot. -/
def run (debug : Bool) (t : Tid) (task : Task) (notified : Nat) (p : ThreadPool Tid Task) :
    Except Fault (ThreadPool Tid Task) :=
  if p.threads.isEmpty then .ok p else p.runLoop debug t task notified

/-- `take`, from the test of its `while` on, up to where the worker has its
task, or no task. -/
def takeLoop (t : Tid) (notified : Nat) (p : ThreadPool Tid Task) : ThreadPool Tid Task :=
  if p.queue.isEmpty && p.running then { p with notEmpty := p.notEmpty.wait t }
  else
    match p.queue with
    | [] => p.setPc t .whileTest
    | task :: rest => { p with
        queue := rest
        notFull := if 0 < p.maxQueueSize then p.notFull.notify notified else p.notFull
        handedOut := p.handedOut ++ [task] }.setPc t .user

/-- The critical section of `stop`. -/
def stop (p : ThreadPool Tid Task) : ThreadPool Tid Task :=
  { p with
    running := false
    notEmpty := p.notEmpty.notifyAll
    notFull := p.notFull.notifyAll }

def guard (p : ThreadPool Tid Task) : PoolAction Tid Task → Bool
  | .run t _ _ => t ∉ p.inside ∧ p.pc t = .user
  | .runResumed i _ => i < p.notFull.ready.length
  | .taskDone t => t ∈ p.threads ∧ t ∉ p.inside ∧ p.pc t = .user
  | .whileTest t => t ∈ p.threads ∧ t ∉ p.inside ∧ p.pc t = .whileTest
  | .take t _ => t ∈ p.threads ∧ t ∉ p.inside ∧ p.pc t = .take
  | .takeResumed i _ => i < p.notEmpty.ready.length
  | .stop => p.running
  | .wakeProducer i => i < p.notFull.waiting.length
  | .wakeWorker i => i < p.notEmpty.waiting.length

def exec (debug : Bool) :
    PoolAction Tid Task → ThreadPool Tid Task → Except Fault (ThreadPool Tid Task)
  | .run t task notified, p => p.run debug t task notified
  | .runResumed i notified, p =>
      match p.notFull.ready[i]? with
      | none => .ok p
      | some (t, task) => { p with notFull := p.notFull.resume i }.runLoop debug t task notified
  | .taskDone t, p => .ok (p.setPc t .whileTest)
  | .whileTest t, p => .ok (p.setPc t (if p.running then .take else .exited))
  | .take t notified, p => .ok (p.takeLoop t notified)
  | .takeResumed i notified, p =>
      match p.notEmpty.ready[i]? with
      | none => .ok p
      | some t => .ok ({ p with notEmpty := p.notEmpty.resume i }.takeLoop t notified)
  | .stop, p => .ok p.stop
  | .wakeProducer i, p => .ok { p with notFull := p.notFull.wake i }
  | .wakeWorker i, p => .ok { p with notEmpty := p.notEmpty.wake i }

def machine (debug : Bool) : Machine (ThreadPool Tid Task) (PoolAction Tid Task) Fault :=
  ⟨guard, exec debug⟩

end ThreadPool

end Libanet
