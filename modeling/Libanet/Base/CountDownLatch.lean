import Libanet.Base.Signed
import Libanet.Lib.CondVar
import Libanet.Lib.Machine

/-!
# `base/CountDownLatch.cc`

Threads wait until `countDown` has been called as often as the latch was told
when it was made. `mutex_` is held from the test of `while` on and given up
only in `condition_.wait`, so a step is what a thread does from one of these
points to the next: `wait` is a new call, `waitResumed` a thread that has come
back from `condition_.wait` and tests again.

`count_` is an `int`, which `countDown` goes on decrementing after it has
reached zero.
-/

namespace Libanet

structure CountDownLatch (Tid : Type) where
  count : Int
  condition : CondVar Tid

inductive LatchAction (Tid : Type) where
  | wait (t : Tid)
  | waitResumed (i : Nat)
  /-- The thread `notify` reaches is up to the scheduler. -/
  | countDown (notified : Nat)
  /-- A spurious wakeup. -/
  | wake (i : Nat)

namespace CountDownLatch

variable {Tid : Type}

def new (count : Int) : CountDownLatch Tid := ⟨count, .empty⟩

/-- `wait`, from the test of its `while` on. -/
def waitLoop (t : Tid) (l : CountDownLatch Tid) : CountDownLatch Tid :=
  if 0 < l.count then { l with condition := l.condition.wait t } else l

def countDown (notified : Nat) (l : CountDownLatch Tid) :
    Except Fault (CountDownLatch Tid) := do
  let count ← signed 32 (l.count - 1)
  return { l with
    count
    condition := if count = 0 then l.condition.notify notified else l.condition }

variable [DecidableEq Tid]

def guard (l : CountDownLatch Tid) : LatchAction Tid → Bool
  | .wait t => t ∉ l.condition.inside
  | .waitResumed i => i < l.condition.ready.length
  | .countDown _ => true
  | .wake i => i < l.condition.waiting.length

def exec : LatchAction Tid → CountDownLatch Tid → Except Fault (CountDownLatch Tid)
  | .wait t, l => .ok (l.waitLoop t)
  | .waitResumed i, l =>
      match l.condition.ready[i]? with
      | none => .ok l
      | some t => .ok ({ l with condition := l.condition.resume i }.waitLoop t)
  | .countDown notified, l => l.countDown notified
  | .wake i, l => .ok { l with condition := l.condition.wake i }

def machine : Machine (CountDownLatch Tid) (LatchAction Tid) Fault := ⟨guard, exec⟩

end CountDownLatch

end Libanet
