import Libanet.Base.Assert
import Libanet.Lib.CondVar
import Libanet.Lib.Machine

/-!
# `base/BlockingQueue.h`

The queue without a bound. Only `take` waits, and besides it there is `drain`,
which takes whatever is there and waits for nothing. It notifies nobody, so a
consumer that a `put` has notified may find the queue empty when it comes
back, and waits again.

A step is a critical section, as in the bounded queue. `puts` and `deliveries`
are kept for the record; what a call of `drain` returned is one delivery.
-/

namespace Libanet

structure BlockingQueue (Tid T : Type) where
  queue : List T
  notEmpty : CondVar Tid
  puts : List T
  deliveries : List (List T)

inductive BlockingQueueAction (Tid T : Type) where
  | put (t : Tid) (x : T) (notified : Nat)
  | take (t : Tid)
  | takeResumed (i : Nat)
  | drain (t : Tid)
  /-- A spurious wakeup. -/
  | wake (i : Nat)

namespace BlockingQueue

variable {Tid T : Type}

def new : BlockingQueue Tid T := ⟨[], .empty, [], []⟩

def put (x : T) (notified : Nat) (q : BlockingQueue Tid T) : BlockingQueue Tid T :=
  { q with
    queue := q.queue ++ [x]
    notEmpty := q.notEmpty.notify notified
    puts := q.puts ++ [x] }

/-- `take`, from the test of its `while` on. -/
def takeLoop (t : Tid) (q : BlockingQueue Tid T) : BlockingQueue Tid T :=
  match q.queue with
  | [] => { q with notEmpty := q.notEmpty.wait t }
  | front :: rest => { q with queue := rest, deliveries := q.deliveries ++ [[front]] }

/-- `std::move(queue_)`, by which the `deque` becomes empty. -/
def moveOut (q : BlockingQueue Tid T) : BlockingQueue Tid T :=
  { q with queue := [], deliveries := q.deliveries ++ [q.queue] }

def drain (q : BlockingQueue Tid T) : Except Fault (BlockingQueue Tid T) := do
  assertThat (q.moveOut.queue.isEmpty = true)
  return q.moveOut

variable [DecidableEq Tid]

/-- A thread that waits makes no other call. -/
def guard (q : BlockingQueue Tid T) : BlockingQueueAction Tid T → Bool
  | .put t _ _ => t ∉ q.notEmpty.inside
  | .take t => t ∉ q.notEmpty.inside
  | .takeResumed i => i < q.notEmpty.ready.length
  | .drain t => t ∉ q.notEmpty.inside
  | .wake i => i < q.notEmpty.waiting.length

def exec : BlockingQueueAction Tid T → BlockingQueue Tid T → Except Fault (BlockingQueue Tid T)
  | .put _ x notified, q => .ok (q.put x notified)
  | .take t, q => .ok (q.takeLoop t)
  | .takeResumed i, q =>
      match q.notEmpty.ready[i]? with
      | none => .ok q
      | some t => .ok ({ q with notEmpty := q.notEmpty.resume i }.takeLoop t)
  | .drain _, q => q.drain
  | .wake i, q => .ok { q with notEmpty := q.notEmpty.wake i }

def machine : Machine (BlockingQueue Tid T) (BlockingQueueAction Tid T) Fault := ⟨guard, exec⟩

end BlockingQueue

end Libanet
