import Libanet.Base.Assert
import Libanet.Lib.CondVar
import Libanet.Lib.Machine

/-!
# `base/BoundedBlockingQueue.h`

A queue of bounded size between threads. `put` waits while it is full, `take`
while it is empty, and each notifies the other side when it is done. Both
hold `mutex_` from the test of their condition on, and give it up only in
`wait`, so a step is what a thread does from one of these points to the next:
`put` and `take` are new calls, `putResumed` and `takeResumed` threads that
have come back from `wait` and test again.

The two overloads of `put` differ only in how the item gets into the queue.
`puts` and `takes` are kept for the record.
-/

namespace Libanet

structure BoundedBlockingQueue (Tid T : Type) where
  capacity : Nat
  queue : List T
  notEmpty : CondVar Tid
  /-- Its threads are waiting with what they want to put. -/
  notFull : CondVar (Tid × T)
  /-- The items put, in order. -/
  puts : List T
  /-- The items taken, in order. -/
  takes : List T

inductive QueueAction (Tid T : Type) where
  | put (t : Tid) (x : T) (notified : Nat)
  | putResumed (i notified : Nat)
  | take (t : Tid) (notified : Nat)
  | takeResumed (i notified : Nat)
  /-- Spurious wakeups. -/
  | wakeProducer (i : Nat)
  | wakeConsumer (i : Nat)

namespace BoundedBlockingQueue

variable {Tid T : Type}

def new (maxSize : Nat) : BoundedBlockingQueue Tid T where
  capacity := maxSize
  queue := []
  notEmpty := .empty
  notFull := .empty
  puts := []
  takes := []

def full (q : BoundedBlockingQueue Tid T) : Bool := q.queue.length = q.capacity

/-- `put`, from the test of its `while` on. -/
def putLoop (t : Tid) (x : T) (notified : Nat) (q : BoundedBlockingQueue Tid T) :
    Except Fault (BoundedBlockingQueue Tid T) :=
  if q.full then .ok { q with notFull := q.notFull.wait (t, x) }
  else do
    assertThat (q.full = false)
    return { q with
      queue := q.queue ++ [x]
      notEmpty := q.notEmpty.notify notified
      puts := q.puts ++ [x] }

/-- `take`, from the test of its `while` on. -/
def takeLoop (t : Tid) (notified : Nat) (q : BoundedBlockingQueue Tid T) :
    Except Fault (BoundedBlockingQueue Tid T) :=
  match q.queue with
  | [] => .ok { q with notEmpty := q.notEmpty.wait t }
  | front :: rest => .ok { q with
      queue := rest
      notFull := q.notFull.notify notified
      takes := q.takes ++ [front] }

/-- The threads inside `put` or `take`. -/
def inside (q : BoundedBlockingQueue Tid T) : List Tid :=
  CondVar.insideBoth q.notEmpty q.notFull

variable [DecidableEq Tid]

def guard (q : BoundedBlockingQueue Tid T) : QueueAction Tid T → Bool
  | .put t _ _ => t ∉ q.inside
  | .putResumed i _ => i < q.notFull.ready.length
  | .take t _ => t ∉ q.inside
  | .takeResumed i _ => i < q.notEmpty.ready.length
  | .wakeProducer i => i < q.notFull.waiting.length
  | .wakeConsumer i => i < q.notEmpty.waiting.length

def exec : QueueAction Tid T → BoundedBlockingQueue Tid T →
    Except Fault (BoundedBlockingQueue Tid T)
  | .put t x notified, q => q.putLoop t x notified
  | .putResumed i notified, q =>
      match q.notFull.ready[i]? with
      | none => .ok q
      | some (t, x) => { q with notFull := q.notFull.resume i }.putLoop t x notified
  | .take t notified, q => q.takeLoop t notified
  | .takeResumed i notified, q =>
      match q.notEmpty.ready[i]? with
      | none => .ok q
      | some t => { q with notEmpty := q.notEmpty.resume i }.takeLoop t notified
  | .wakeProducer i, q => .ok { q with notFull := q.notFull.wake i }
  | .wakeConsumer i, q => .ok { q with notEmpty := q.notEmpty.wake i }

def machine : Machine (BoundedBlockingQueue Tid T) (QueueAction Tid T) Fault := ⟨guard, exec⟩

end BoundedBlockingQueue

end Libanet
