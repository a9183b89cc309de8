import Libanet.Base.BlockingQueue

/-!
# The unbounded queue, with `drain`

`drain` takes items that threads have been notified of, and takes them without
having waited. That is on the safe side: it lowers the number of items and
leaves the notifications alone, and `Signalled` bounds the one by the other. So
the count of the bounded queue goes through with one side of it only, and when
all that were notified have come back, nobody waits beside an item.
-/

namespace Libanet.BlockingQueue

variable {Tid T : Type}

/-- `items` is what `notEmpty` is signalled for. -/
structure Inv (q : BlockingQueue Tid T) (items : Nat) (threads : List Tid) : Prop where
  order : q.puts = q.deliveries.flatten ++ q.queue
  items : q.notEmpty.Signalled items
  threads : threads.Nodup

/-- The invariant between two critical sections. -/
abbrev Ok (q : BlockingQueue Tid T) : Prop := q.Inv q.queue.length q.notEmpty.inside

theorem ok_new : (new : BlockingQueue Tid T).Ok where
  order := rfl
  items := CondVar.signalled_zero _
  threads := List.nodup_nil

variable {q : BlockingQueue Tid T} {t : Tid}

theorem Inv.put (h : q.Ok) (x : T) (n : Nat) : (q.put x n).Ok where
  order := by
    show q.puts ++ [x] = q.deliveries.flatten ++ (q.queue ++ [x])
    rw [h.order, List.append_assoc]
  items := by
    have hlen : (q.queue ++ [x]).length = q.queue.length + 1 := List.length_append
    show CondVar.Signalled (q.queue ++ [x]).length _
    rw [hlen]
    exact h.items.notify n
  threads := (q.notEmpty.inside_notify n).nodup_iff.mpr h.threads

/-- A consumer at the test of its `while`, with its item not taken yet. -/
theorem Inv.takeLoop (h : q.Inv (q.queue.length - 1) (t :: q.notEmpty.inside)) :
    (q.takeLoop t).Ok := by
  unfold BlockingQueue.takeLoop
  split
  · next hq =>
      refine ⟨h.order, ?_, (q.notEmpty.inside_wait t).nodup_iff.mpr h.threads⟩
      show CondVar.Signalled q.queue.length _
      rw [hq]
      exact CondVar.signalled_zero _
  · next front rest hq =>
      refine ⟨?_, ?_, (List.nodup_cons.mp h.threads).2⟩
      · show q.puts = (q.deliveries ++ [[front]]).flatten ++ rest
        rw [h.order, hq, List.flatten_append, List.append_assoc]
        rfl
      · have hitems := h.items
        rw [hq, List.length_cons, Nat.add_sub_cancel] at hitems
        exact hitems

theorem Inv.drain (h : q.Ok) : ∃ q', q.drain = .ok q' ∧ q'.Ok := by
  refine ⟨_, rfl, ?_, CondVar.signalled_zero _, h.threads⟩
  show q.puts = (q.deliveries ++ [q.queue]).flatten ++ []
  rw [h.order, List.flatten_append, List.append_nil, List.flatten_singleton]

variable [DecidableEq Tid]

/-- No step on offer fails its assert, and the invariant is kept. -/
theorem Inv.exec {a : BlockingQueueAction Tid T} (h : q.Ok) (hg : q.guard a = true) :
    ∃ q', BlockingQueue.exec a q = .ok q' ∧ q'.Ok := by
  cases a with
  | put t x n => exact ⟨_, rfl, h.put x n⟩
  | take t =>
      have hout : t ∉ q.notEmpty.inside := of_decide_eq_true hg
      exact ⟨_, rfl, Inv.takeLoop ⟨h.order, h.items.mono (Nat.sub_le _ _),
        List.nodup_cons.mpr ⟨hout, h.threads⟩⟩⟩
  | takeResumed i =>
      have hi : i < q.notEmpty.ready.length := of_decide_eq_true hg
      obtain ⟨t, hw⟩ : ∃ w, q.notEmpty.ready[i]? = some w := ⟨_, List.getElem?_eq_getElem hi⟩
      have hperm := CondVar.inside_resume hw
      have hloop : ({ q with notEmpty := q.notEmpty.resume i }.takeLoop t).Ok :=
        Inv.takeLoop ⟨h.order, h.items.resume i, hperm.nodup_iff.mpr h.threads⟩
      exact ⟨_, by simp only [BlockingQueue.exec, hw], hloop⟩
  | drain t => exact h.drain
  | wake i =>
      have hthreads := (q.notEmpty.inside_wake i).nodup_iff.mpr h.threads
      exact ⟨_, rfl, h.order, h.items.wake i, hthreads⟩

/-- However the calls of the threads interleave, what `take` and `drain` have
returned is what was put, in order, up to what is still in the queue; a
thread that waits un-notified leaves no more items than there are threads
notified of them, and none once these have come back. -/
theorem drained_fifo_no_lost_wakeup (hr : machine.Reaches new q) :
    q.puts = q.deliveries.flatten ++ q.queue ∧
      (q.notEmpty.waiting ≠ [] → q.queue.length ≤ q.notEmpty.notified.length) ∧
      (q.notEmpty.notified = [] → q.queue = [] ∨ q.notEmpty.waiting = []) ∧
      q.notEmpty.inside.Nodup ∧ machine.Safe q := by
  have h : q.Ok := by
    refine hr.invariant (I := fun q => q.Ok) ok_new ?_
    intro q₁ q₂ a h hg he
    obtain ⟨q', hq', hok⟩ := Inv.exec h hg
    cases hq'.symm.trans he
    exact hok
  refine ⟨h.order, h.items, ?_, h.threads, ?_⟩
  · intro hnone
    by_cases hw : q.notEmpty.waiting = []
    · exact Or.inr hw
    · have hle := h.items hw
      rw [hnone] at hle
      exact Or.inl (List.length_eq_zero_iff.mp (Nat.le_zero.mp hle))
  · intro a hg
    obtain ⟨q', hq', -⟩ := Inv.exec h hg
    exact ⟨q', hq'⟩

/-- Two consumers wait and two items come; a third thread drains the queue
before those that were notified are back, and the next item finds them. -/
def drainedFirst : List (BlockingQueueAction Nat Nat) :=
  [.take 0, .take 1, .put 2 7 0, .put 2 8 0, .drain 3, .takeResumed 0, .put 2 9 0, .takeResumed 0]

theorem drained_fifo_no_lost_wakeup_drainedFirst :
    ∃ q, machine.run drainedFirst new = some q ∧ q.deliveries = [[7, 8], [9]] ∧
      q.notEmpty.notified = [0] ∧ q.puts = q.deliveries.flatten ++ q.queue := by
  obtain ⟨q, hr, hd, hn⟩ : ∃ q, machine.run drainedFirst new = some q ∧
      q.deliveries = [[7, 8], [9]] ∧ q.notEmpty.notified = [0] := ⟨_, rfl, rfl, rfl⟩
  exact ⟨q, hr, hd, hn, (drained_fifo_no_lost_wakeup ⟨drainedFirst, hr⟩).1⟩

end Libanet.BlockingQueue
