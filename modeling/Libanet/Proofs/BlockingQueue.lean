import Libanet.Base.BoundedBlockingQueue

/-!
# The bounded queue loses no wakeup

The queue is a first-in first-out queue because every item goes through
`queue`. That nobody sleeps for ever takes a count: a waiting consumer is
told of an item by the `notify` of the `put` that brought it, and the items
that nobody was told of were there when nobody waited. So `notEmpty` is
signalled for the items in the queue, and `notFull` for its free slots. While
a thread that has resumed has not taken its unit yet, the count is one
short, which is why the invariant has the two numbers as parameters.
-/

namespace Libanet.BoundedBlockingQueue

variable {Tid T : Type}

/-- `items` and `slots` are the units the two conditions are signalled for. -/
structure Inv (q : BoundedBlockingQueue Tid T) (items slots : Nat) (threads : List Tid) :
    Prop where
  size : q.queue.length ≤ q.capacity
  order : q.puts = q.takes ++ q.queue
  items : q.notEmpty.Signalled items
  slots : q.notFull.Signalled slots
  threads : threads.Nodup

/-- The invariant between two critical sections. -/
abbrev Ok (q : BoundedBlockingQueue Tid T) : Prop :=
  q.Inv q.queue.length (q.capacity - q.queue.length) q.inside

theorem ok_new (maxSize : Nat) : (new maxSize : BoundedBlockingQueue Tid T).Ok where
  size := Nat.zero_le _
  order := rfl
  items := CondVar.signalled_zero _
  slots := CondVar.signalled_of_waiting_eq_nil rfl
  threads := List.nodup_nil

variable {q q' : BoundedBlockingQueue Tid T} {t : Tid} {x : T} {n i : Nat}

/-! ## Critical sections -/

theorem full_iff : q.full = true ↔ q.queue.length = q.capacity := decide_eq_true_iff

/-- A producer at the test of its `while`, with its slot not taken yet. -/
theorem putLoop_ok
    (h : q.Inv q.queue.length (q.capacity - q.queue.length - 1) (t :: q.inside)) :
    ∃ q', q.putLoop t x n = .ok q' ∧ q'.Ok := by
  have hsize := h.size
  by_cases hfull : q.full = true
  · have hlen := full_iff.mp hfull
    refine ⟨_, if_pos hfull, h.size, h.order, h.items, ?_, ?_⟩
    · show CondVar.Signalled (q.capacity - q.queue.length) _
      rw [hlen, Nat.sub_self]
      exact CondVar.signalled_zero _
    · have hwait := CondVar.insideBoth_right (q.notFull.inside_wait (t, x)).symm q.notEmpty
      exact hwait.nodup_iff.mp h.threads
  · have hlen : q.queue.length ≠ q.capacity := fun hlen => hfull (full_iff.mpr hlen)
    have hfalse : q.full = false := Bool.eq_false_iff.mpr hfull
    have hroom : (q.queue ++ [x]).length = q.queue.length + 1 := List.length_append
    refine ⟨_, (if_neg hfull).trans (assertThat_bind_eq_ok.mpr ⟨hfalse, rfl⟩), ?_, ?_, ?_, ?_, ?_⟩
    · show (q.queue ++ [x]).length ≤ q.capacity
      omega
    · show q.puts ++ [x] = q.takes ++ (q.queue ++ [x])
      rw [h.order, List.append_assoc]
    · show CondVar.Signalled (q.queue ++ [x]).length _
      rw [hroom]
      exact h.items.notify n
    · show CondVar.Signalled (q.capacity - (q.queue ++ [x]).length) _
      exact h.slots.mono (by omega)
    · have hnotify := CondVar.insideBoth_perm (q.notEmpty.inside_notify n)
        (List.Perm.refl q.notFull.inside)
      exact hnotify.nodup_iff.mpr (List.nodup_cons.mp h.threads).2

/-- A consumer at the test of its `while`, with its item not taken yet. -/
theorem takeLoop_ok
    (h : q.Inv (q.queue.length - 1) (q.capacity - q.queue.length) (t :: q.inside)) :
    ∃ q', q.takeLoop t n = .ok q' ∧ q'.Ok := by
  have hsize := h.size
  cases hq : q.queue with
  | nil =>
      refine ⟨{ q with notEmpty := q.notEmpty.wait t }, by simp [takeLoop, hq], h.size, h.order,
        ?_, h.slots, ?_⟩
      · show CondVar.Signalled q.queue.length _
        rw [hq]
        exact CondVar.signalled_zero _
      · have hwait := CondVar.insideBoth_left (q.notEmpty.inside_wait t).symm q.notFull
        exact hwait.nodup_iff.mp h.threads
  | cons front rest =>
      have hlen : q.queue.length = rest.length + 1 := by rw [hq, List.length_cons]
      refine ⟨{ q with
        queue := rest, notFull := q.notFull.notify n, takes := q.takes ++ [front] },
        by simp [takeLoop, hq], ?_, ?_, ?_, ?_, ?_⟩
      · show rest.length ≤ q.capacity
        omega
      · show q.puts = (q.takes ++ [front]) ++ rest
        rw [h.order, hq, List.append_assoc]
        rfl
      · show CondVar.Signalled rest.length _
        exact h.items.mono (by omega)
      · show CondVar.Signalled (q.capacity - rest.length) _
        have hslot := h.slots.notify n
        exact hslot.mono (by omega)
      · have hnotify := CondVar.insideBoth_perm (List.Perm.refl q.notEmpty.inside)
          (q.notFull.inside_notify n)
        exact hnotify.nodup_iff.mpr (List.nodup_cons.mp h.threads).2

theorem capacity_putLoop (he : q.putLoop t x n = .ok q') : q'.capacity = q.capacity := by
  unfold putLoop at he
  split at he
  · cases he
    rfl
  · obtain ⟨-, he⟩ := assertThat_bind_eq_ok.mp he
    cases he
    rfl

theorem capacity_takeLoop (he : q.takeLoop t n = .ok q') : q'.capacity = q.capacity := by
  unfold takeLoop at he
  split at he
  · cases he
    rfl
  · cases he
    rfl

/-! ## Steps and runs -/

variable [DecidableEq Tid]

/-- No step on offer fails its assert, and the invariant is kept. -/
theorem step_ok {a : QueueAction Tid T} (h : q.Ok) (hg : machine.guard q a = true) :
    ∃ q', machine.exec a q = .ok q' ∧ q'.Ok := by
  cases a with
  | put t x n =>
      have hout : t ∉ q.inside := of_decide_eq_true hg
      exact putLoop_ok ⟨h.size, h.order, h.items, h.slots.mono (Nat.sub_le _ _),
        List.nodup_cons.mpr ⟨hout, h.threads⟩⟩
  | putResumed i n =>
      have hi : i < q.notFull.ready.length := of_decide_eq_true hg
      obtain ⟨⟨t, x⟩, hw⟩ : ∃ w, q.notFull.ready[i]? = some w :=
        ⟨_, List.getElem?_eq_getElem hi⟩
      have hperm := CondVar.insideBoth_right (CondVar.inside_resume hw) q.notEmpty
      have hloop := putLoop_ok (q := { q with notFull := q.notFull.resume i }) (t := t) (x := x)
        (n := n) ⟨h.size, h.order, h.items, h.slots.resume i, hperm.nodup_iff.mpr h.threads⟩
      obtain ⟨q', hq', hok⟩ := hloop
      exact ⟨q', by simpa [machine, exec, hw] using hq', hok⟩
  | take t n =>
      have hout : t ∉ q.inside := of_decide_eq_true hg
      exact takeLoop_ok ⟨h.size, h.order, h.items.mono (Nat.sub_le _ _), h.slots,
        List.nodup_cons.mpr ⟨hout, h.threads⟩⟩
  | takeResumed i n =>
      have hi : i < q.notEmpty.ready.length := of_decide_eq_true hg
      obtain ⟨t, hw⟩ : ∃ w, q.notEmpty.ready[i]? = some w := ⟨_, List.getElem?_eq_getElem hi⟩
      have hperm := CondVar.insideBoth_left (CondVar.inside_resume hw) q.notFull
      have hloop := takeLoop_ok (q := { q with notEmpty := q.notEmpty.resume i }) (t := t)
        (n := n) ⟨h.size, h.order, h.items.resume i, h.slots, hperm.nodup_iff.mpr h.threads⟩
      obtain ⟨q', hq', hok⟩ := hloop
      exact ⟨q', by simpa [machine, exec, hw] using hq', hok⟩
  | wakeProducer i =>
      have hperm := CondVar.insideBoth_perm (List.Perm.refl q.notEmpty.inside)
        (q.notFull.inside_wake i)
      exact ⟨_, rfl, h.size, h.order, h.items, h.slots.wake i, hperm.nodup_iff.mpr h.threads⟩
  | wakeConsumer i =>
      have hperm := CondVar.insideBoth_perm (q.notEmpty.inside_wake i)
        (List.Perm.refl q.notFull.inside)
      exact ⟨_, rfl, h.size, h.order, h.items.wake i, h.slots, hperm.nodup_iff.mpr h.threads⟩

theorem capacity_step {a : QueueAction Tid T} (he : machine.exec a q = .ok q') :
    q'.capacity = q.capacity := by
  cases a with
  | put t x n => exact capacity_putLoop he
  | take t n => exact capacity_takeLoop he
  | putResumed i n =>
      simp only [machine, exec] at he
      split at he
      · cases he
        rfl
      · exact (capacity_putLoop he).trans rfl
  | takeResumed i n =>
      simp only [machine, exec] at he
      split at he
      · cases he
        rfl
      · exact (capacity_takeLoop he).trans rfl
  | wakeProducer i =>
      cases he
      rfl
  | wakeConsumer i =>
      cases he
      rfl

theorem reaches_ok {maxSize : Nat} (hr : machine.Reaches (new maxSize) q) :
    q.capacity = maxSize ∧ q.Ok := by
  refine hr.invariant (I := fun q => q.capacity = maxSize ∧ q.Ok) ⟨rfl, ok_new maxSize⟩ ?_
  intro q₁ q₂ a h hg he
  obtain ⟨q', hq', hok⟩ := step_ok h.2 hg
  cases hq'.symm.trans he
  exact ⟨(capacity_step he).trans h.1, hok⟩

/-- The queue is bounded and first in first out, its asserts hold, and while
a thread waits without having been notified, there are no more units of what
it waits for than threads notified of them. Threads are counted once: each
is inside one call at most. -/
theorem bounded_fifo_no_lost_wakeup {maxSize : Nat} (hr : machine.Reaches (new maxSize) q) :
    q.queue.length ≤ maxSize ∧ q.takes <+: q.puts ∧
      (q.notEmpty.waiting ≠ [] → q.queue.length ≤ q.notEmpty.notified.length) ∧
      (q.notFull.waiting ≠ [] → maxSize - q.queue.length ≤ q.notFull.notified.length) ∧
      q.inside.Nodup ∧ machine.Safe q := by
  obtain ⟨rfl, h⟩ := reaches_ok hr
  refine ⟨h.size, ⟨q.queue, h.order.symm⟩, h.items, h.slots, h.threads, ?_⟩
  intro a hg
  obtain ⟨q', hq', -⟩ := step_ok h hg
  exact ⟨q', hq'⟩

/-- Two consumers wait, a third thread puts an item, and a fourth overtakes
the one that was notified and takes it. -/
def overtaken : List (QueueAction Nat Nat) :=
  [.take 0 0, .take 1 0, .put 2 7 1, .take 3 0]

theorem bounded_fifo_no_lost_wakeup_overtaken :
    ∃ q, machine.run overtaken (new 1) = some q ∧ q.notEmpty.waiting = [0] ∧
      q.takes = [7] ∧ q.queue.length ≤ q.notEmpty.notified.length := by
  obtain ⟨q, hr, hw, ht⟩ : ∃ q, machine.run overtaken (new 1) = some q ∧
      q.notEmpty.waiting = [0] ∧ q.takes = [7] := ⟨_, rfl, rfl, rfl⟩
  have hlaw := bounded_fifo_no_lost_wakeup ⟨overtaken, hr⟩
  exact ⟨q, hr, hw, ht, hlaw.2.2.1 (by simp [hw])⟩

end Libanet.BoundedBlockingQueue
