import Libanet.Base.ThreadPool

/-!
# The discipline of the thread pool

The counts are those of the bounded queue: `notEmpty` is signalled for the
tasks in the queue, and `notFull` for the free slots of a bounded one, while
nobody ever waits for a slot of an unbounded one. Stopping adds one thing:
once `running` is false nobody waits without having been notified, because
`stop` notifies everybody and no loop waits again.

Both conditions are signalled for one unit less while a resumed thread has
not taken its own. A producer that gives up leaves it that way, and nobody is
the worse for it: the pool has been stopped then.

All this is the pool as built without asserts. With them the first `run` of a
pool that has workers does not get past `isFull`.
-/

namespace Libanet.ThreadPool

variable {Tid Task : Type}

/-- `items` and `slots` are the units the two conditions are signalled for. -/
structure Inv (p : ThreadPool Tid Task) (items slots : Nat) (inside : List Tid) : Prop where
  size : 0 < p.maxQueueSize → p.queue.length ≤ p.maxQueueSize
  order : p.accepted = p.handedOut ++ p.queue
  items : p.notEmpty.Signalled items
  slots : p.notFull.Signalled slots
  unbounded : p.maxQueueSize = 0 → p.notFull.waiting = []
  stopped : p.running = false → p.notEmpty.waiting = [] ∧ p.notFull.waiting = []
  inside : inside.Nodup

/-- The invariant between two critical sections. -/
abbrev Ok (p : ThreadPool Tid Task) : Prop :=
  p.Inv p.queue.length (p.maxQueueSize - p.queue.length) p.inside

theorem ok_new (threads : List Tid) (maxQueueSize : Nat) :
    (new threads maxQueueSize : ThreadPool Tid Task).Ok where
  size _ := Nat.zero_le _
  order := rfl
  items := CondVar.signalled_zero _
  slots := CondVar.signalled_of_waiting_eq_nil rfl
  unbounded _ := rfl
  stopped h := by cases h
  inside := List.nodup_nil

variable {p : ThreadPool Tid Task} {t : Tid} {n : Nat}

/-- With asserts nobody gets past `isFull`. -/
theorem runLoop_debug (t : Tid) (task : Task) (n : Nat) (p : ThreadPool Tid Task) :
    p.runLoop true t task n = .error .noResult := rfl

theorem runLoop_ndebug (t : Tid) (task : Task) (n : Nat) (p : ThreadPool Tid Task) :
    p.runLoop false t task n =
      if (0 < p.maxQueueSize ∧ p.maxQueueSize ≤ p.queue.length) ∧ p.running = true then
        .ok { p with notFull := p.notFull.wait (t, task) }
      else if p.running = false then .ok p
      else .ok { p with
        queue := p.queue ++ [task], notEmpty := p.notEmpty.notify n
        accepted := p.accepted ++ [task] } := by
  have hfull : p.isFull false =
    .ok (decide (0 < p.maxQueueSize ∧ p.maxQueueSize ≤ p.queue.length)) := rfl
  rw [runLoop, hfull, ok_bind]
  cases p.running with
  | false =>
      simp only [Bool.and_false, Bool.false_eq_true, and_false, if_false]
      rfl
  | true =>
      simp only [Bool.and_true, decide_eq_true_eq, and_true]
      rfl

/-- A producer at the test of its `while`, with its slot not taken yet. -/
theorem runLoop_ok (task : Task) (n : Nat)
    (h : p.Inv p.queue.length (p.maxQueueSize - p.queue.length - 1) (t :: p.inside)) :
    ∃ p', p.runLoop false t task n = .ok p' ∧ p'.Ok := by
  rw [runLoop_ndebug]
  cases hrun : p.running with
  | false =>
      refine ⟨p, by simp, h.size, h.order, h.items, ?_, h.unbounded, h.stopped,
        (List.nodup_cons.mp h.inside).2⟩
      exact CondVar.signalled_of_waiting_eq_nil (h.stopped hrun).2
  | true =>
      by_cases hfull : 0 < p.maxQueueSize ∧ p.maxQueueSize ≤ p.queue.length
      · obtain ⟨hpos, hle⟩ := hfull
        refine ⟨{ p with notFull := p.notFull.wait (t, task) }, by simp [hpos, hle, hrun],
          h.size, h.order, h.items, ?_, fun hzero => absurd hzero (Nat.ne_of_gt hpos), ?_, ?_⟩
        · show CondVar.Signalled (p.maxQueueSize - p.queue.length) _
          rw [Nat.sub_eq_zero_of_le hle]
          exact CondVar.signalled_zero _
        · intro hstopped
          exact absurd (hrun.symm.trans hstopped) (by simp)
        · have hwait := CondVar.insideBoth_right (p.notFull.inside_wait (t, task)).symm
            p.notEmpty
          exact hwait.nodup_iff.mp h.inside
      · have hroom : (p.queue ++ [task]).length = p.queue.length + 1 := List.length_append
        refine ⟨{ p with
          queue := p.queue ++ [task], notEmpty := p.notEmpty.notify n
          accepted := p.accepted ++ [task] }, ?_, ?_, ?_, ?_, ?_, h.unbounded, ?_, ?_⟩
        · simp [hfull, hrun]
        · intro hpos
          show (p.queue ++ [task]).length ≤ p.maxQueueSize
          have hpos : 0 < p.maxQueueSize := hpos
          omega
        · show p.accepted ++ [task] = p.handedOut ++ (p.queue ++ [task])
          rw [h.order, List.append_assoc]
        · show CondVar.Signalled (p.queue ++ [task]).length _
          rw [hroom]
          exact h.items.notify n
        · show CondVar.Signalled (p.maxQueueSize - (p.queue ++ [task]).length) _
          exact h.slots.mono (by omega)
        · intro hstopped
          exact absurd (hrun.symm.trans hstopped) (by simp)
        · have hnotify := CondVar.insideBoth_perm (p.notEmpty.inside_notify n)
            (List.Perm.refl p.notFull.inside)
          exact hnotify.nodup_iff.mpr (List.nodup_cons.mp h.inside).2

theorem stop_ok (h : p.Ok) : p.stop.Ok where
  size := h.size
  order := h.order
  items := CondVar.signalled_of_waiting_eq_nil rfl
  slots := CondVar.signalled_of_waiting_eq_nil rfl
  unbounded _ := rfl
  stopped _ := ⟨rfl, rfl⟩
  inside := by
    have hall := CondVar.insideBoth_perm p.notEmpty.inside_notifyAll p.notFull.inside_notifyAll
    exact hall.nodup_iff.mpr h.inside

variable [DecidableEq Tid]

/-- A worker at the test of its `while`, with its task not taken yet. -/
theorem takeLoop_ok
    (h : p.Inv (p.queue.length - 1) (p.maxQueueSize - p.queue.length) (t :: p.inside)) :
    (p.takeLoop t n).Ok := by
  have hinside := (List.nodup_cons.mp h.inside).2
  cases hq : p.queue with
  | nil =>
      have hnone : p.notEmpty.Signalled p.queue.length := by
        rw [hq]
        exact CondVar.signalled_zero _
      cases hrun : p.running with
      | false =>
          have hdone : p.takeLoop t n = p.setPc t .whileTest := by simp [takeLoop, hq, hrun]
          rw [hdone]
          exact ⟨h.size, h.order, hnone, h.slots, h.unbounded, h.stopped, hinside⟩
      | true =>
          have hwaits : p.takeLoop t n = { p with notEmpty := p.notEmpty.wait t } := by
            simp [takeLoop, hq, hrun]
          rw [hwaits]
          refine ⟨h.size, h.order, ?_, h.slots, h.unbounded, ?_, ?_⟩
          · show CondVar.Signalled p.queue.length _
            rw [hq]
            exact CondVar.signalled_zero _
          · intro hstopped
            exact absurd (hrun.symm.trans hstopped) (by simp)
          · have hwait := CondVar.insideBoth_left (p.notEmpty.inside_wait t).symm p.notFull
            exact hwait.nodup_iff.mp h.inside
  | cons task rest =>
      have hlen : p.queue.length = rest.length + 1 := by rw [hq, List.length_cons]
      have htaken : p.takeLoop t n = { p with
          queue := rest
          notFull := if 0 < p.maxQueueSize then p.notFull.notify n else p.notFull
          handedOut := p.handedOut ++ [task] }.setPc t .user := by
        simp [takeLoop, hq]
      rw [htaken]
      have hitems : p.notEmpty.Signalled rest.length := h.items.mono (by omega)
      have horder : p.accepted = (p.handedOut ++ [task]) ++ rest := by
        rw [h.order, hq, List.append_assoc]
        rfl
      by_cases hpos : 0 < p.maxQueueSize
      · rw [if_pos hpos]
        refine ⟨?_, horder, hitems, ?_, ?_, ?_, ?_⟩
        · intro _
          have hsize := h.size hpos
          show rest.length ≤ p.maxQueueSize
          omega
        · show CondVar.Signalled (p.maxQueueSize - rest.length) _
          exact (h.slots.notify n).mono (by omega)
        · intro hzero
          exact absurd hzero (Nat.ne_of_gt hpos)
        · intro hstopped
          obtain ⟨hworkers, hproducers⟩ := h.stopped hstopped
          exact ⟨hworkers, CondVar.waiting_notify_nil hproducers n⟩
        · have hnotify := CondVar.insideBoth_perm (List.Perm.refl p.notEmpty.inside)
            (p.notFull.inside_notify n)
          exact hnotify.nodup_iff.mpr hinside
      · rw [if_neg hpos]
        have hzero : p.maxQueueSize = 0 := by omega
        refine ⟨fun hpos' => absurd hpos' hpos, horder, hitems, ?_, h.unbounded, h.stopped,
          hinside⟩
        exact CondVar.signalled_of_waiting_eq_nil (h.unbounded hzero)

/-! ## Steps and runs -/

/-- The action is a `run`, or the rest of one, that tests `isFull`. -/
def callsIsFull (p : ThreadPool Tid Task) : PoolAction Tid Task → Bool
  | .run _ _ _ => !p.threads.isEmpty
  | .runResumed _ _ => true
  | _ => false

/-- Where nobody calls `isFull`, or there are no asserts, a step on offer goes
through and keeps the invariant. -/
theorem step_ok {debug : Bool} {a : PoolAction Tid Task} (h : p.Ok)
    (hg : (machine debug).guard p a = true) (hfull : (debug && p.callsIsFull a) = false) :
    ∃ p', (machine debug).exec a p = .ok p' ∧ p'.Ok := by
  cases a with
  | run t task n =>
      have hout : t ∉ p.inside := (of_decide_eq_true hg).1
      by_cases hnone : p.threads.isEmpty = true
      · exact ⟨p, if_pos hnone, h⟩
      · have hdebug : debug = false := by simpa [callsIsFull, hnone] using hfull
        subst hdebug
        obtain ⟨p', hp', hok⟩ := runLoop_ok (t := t) task n ⟨h.size, h.order, h.items,
          h.slots.mono (Nat.sub_le _ _), h.unbounded, h.stopped,
          List.nodup_cons.mpr ⟨hout, h.inside⟩⟩
        exact ⟨p', (if_neg hnone).trans hp', hok⟩
  | runResumed i n =>
      have hdebug : debug = false := by simpa [callsIsFull] using hfull
      subst hdebug
      have hi : i < p.notFull.ready.length := of_decide_eq_true hg
      obtain ⟨⟨t, task⟩, hw⟩ : ∃ w, p.notFull.ready[i]? = some w :=
        ⟨_, List.getElem?_eq_getElem hi⟩
      have hperm := CondVar.insideBoth_right (CondVar.inside_resume hw) p.notEmpty
      obtain ⟨p', hp', hok⟩ := runLoop_ok (p := { p with notFull := p.notFull.resume i }) (t := t)
        task n ⟨h.size, h.order, h.items, h.slots.resume i,
          fun hzero => (CondVar.waiting_resume _ _).trans (h.unbounded hzero),
          fun hstopped => (h.stopped hstopped).imp_right (CondVar.waiting_resume _ _).trans,
          hperm.nodup_iff.mpr h.inside⟩
      exact ⟨p', by simpa [machine, exec, hw] using hp', hok⟩
  | taskDone t =>
      exact ⟨_, rfl, h.size, h.order, h.items, h.slots, h.unbounded, h.stopped, h.inside⟩
  | whileTest t =>
      exact ⟨_, rfl, h.size, h.order, h.items, h.slots, h.unbounded, h.stopped, h.inside⟩
  | take t n =>
      have hout : t ∉ p.inside := (of_decide_eq_true hg).2.1
      exact ⟨_, rfl, takeLoop_ok ⟨h.size, h.order, h.items.mono (Nat.sub_le _ _), h.slots,
        h.unbounded, h.stopped, List.nodup_cons.mpr ⟨hout, h.inside⟩⟩⟩
  | takeResumed i n =>
      have hi : i < p.notEmpty.ready.length := of_decide_eq_true hg
      obtain ⟨t, hw⟩ : ∃ w, p.notEmpty.ready[i]? = some w := ⟨_, List.getElem?_eq_getElem hi⟩
      have hperm := CondVar.insideBoth_left (CondVar.inside_resume hw) p.notFull
      have hok := takeLoop_ok (p := { p with notEmpty := p.notEmpty.resume i }) (t := t) (n := n)
        ⟨h.size, h.order, h.items.resume i, h.slots, h.unbounded,
          fun hstopped => (h.stopped hstopped).imp_left (CondVar.waiting_resume _ _).trans,
          hperm.nodup_iff.mpr h.inside⟩
      exact ⟨_, by simp only [machine, exec, hw], hok⟩
  | stop => exact ⟨_, rfl, stop_ok h⟩
  | wakeProducer i =>
      have hperm := CondVar.insideBoth_perm (List.Perm.refl p.notEmpty.inside)
        (p.notFull.inside_wake i)
      exact ⟨_, rfl, h.size, h.order, h.items, h.slots.wake i,
        fun hzero => CondVar.waiting_wake_nil (h.unbounded hzero) i,
        fun hstopped => (h.stopped hstopped).imp_right (CondVar.waiting_wake_nil · i),
        hperm.nodup_iff.mpr h.inside⟩
  | wakeWorker i =>
      have hperm := CondVar.insideBoth_perm (p.notEmpty.inside_wake i)
        (List.Perm.refl p.notFull.inside)
      exact ⟨_, rfl, h.size, h.order, h.items.wake i, h.slots, h.unbounded,
        fun hstopped => (h.stopped hstopped).imp_left (CondVar.waiting_wake_nil · i),
        hperm.nodup_iff.mpr h.inside⟩

/-- With asserts a step that calls `isFull` does not go through. -/
theorem exec_isFull {a : PoolAction Tid Task} (hg : (machine true).guard p a = true)
    (hfull : p.callsIsFull a = true) : (machine true).exec a p = .error .noResult := by
  cases a with
  | run t task n =>
      have hsome : ¬ p.threads.isEmpty = true := by simpa [callsIsFull] using hfull
      exact (if_neg hsome).trans (runLoop_debug t task n p)
  | runResumed i n =>
      have hi : i < p.notFull.ready.length := of_decide_eq_true hg
      simp only [machine, exec, List.getElem?_eq_getElem hi, runLoop_debug]
  | taskDone | whileTest | take | takeResumed | stop | wakeProducer | wakeWorker => cases hfull

theorem reaches_ok {debug : Bool} {threads : List Tid} {maxQueueSize : Nat}
    (hr : (machine debug).Reaches (new threads maxQueueSize) p) : p.Ok := by
  refine hr.invariant (ok_new threads maxQueueSize) fun {p q a} h hg he => ?_
  cases hfull : debug && p.callsIsFull a with
  | false =>
      obtain ⟨p', hp', hok⟩ := step_ok h hg hfull
      cases hp'.symm.trans he
      exact hok
  | true =>
      obtain ⟨rfl, hcalls⟩ := Bool.and_eq_true_iff.mp hfull
      cases (exec_isFull hg hcalls).symm.trans he

/-- A pool without workers, where every task is run on the spot. -/
structure Bare (p : ThreadPool Tid Task) : Prop where
  threads : p.threads = []
  notEmpty : p.notEmpty = .empty
  notFull : p.notFull = .empty

theorem Bare.not_callsIsFull (h : p.Bare) {debug : Bool} {a : PoolAction Tid Task}
    (hg : (machine debug).guard p a = true) : p.callsIsFull a = false := by
  cases a with
  | run t task n => rw [callsIsFull, h.threads, List.isEmpty_nil, Bool.not_true]
  | runResumed i n =>
      have hi : i < p.notFull.ready.length := of_decide_eq_true hg
      rw [h.notFull] at hi
      exact absurd hi (Nat.not_lt_zero i)
  | taskDone | whileTest | take | takeResumed | stop | wakeProducer | wakeWorker => rfl

theorem Bare.step (h : p.Bare) {debug : Bool} {a : PoolAction Tid Task}
    (hg : (machine debug).guard p a = true) {q : ThreadPool Tid Task}
    (he : (machine debug).exec a p = .ok q) : q.Bare := by
  have hnobody : ∀ t : Tid, t ∉ p.threads := by simp [h.threads]
  cases a with
  | run t task n =>
      have hnone : p.threads.isEmpty = true := by rw [h.threads, List.isEmpty_nil]
      cases (if_pos hnone).symm.trans he
      exact h
  | runResumed i n => exact absurd (h.not_callsIsFull hg) (by simp [callsIsFull])
  | taskDone t => exact absurd (of_decide_eq_true hg).1 (hnobody t)
  | whileTest t => exact absurd (of_decide_eq_true hg).1 (hnobody t)
  | take t n => exact absurd (of_decide_eq_true hg).1 (hnobody t)
  | takeResumed i n =>
      have hi : i < p.notEmpty.ready.length := of_decide_eq_true hg
      rw [h.notEmpty] at hi
      exact absurd hi (Nat.not_lt_zero i)
  | stop =>
      cases he
      exact ⟨h.threads, by rw [stop, h.notEmpty]; rfl, by rw [stop, h.notFull]; rfl⟩
  | wakeProducer i =>
      have hi : i < p.notFull.waiting.length := of_decide_eq_true hg
      rw [h.notFull] at hi
      exact absurd hi (Nat.not_lt_zero i)
  | wakeWorker i =>
      have hi : i < p.notEmpty.waiting.length := of_decide_eq_true hg
      rw [h.notEmpty] at hi
      exact absurd hi (Nat.not_lt_zero i)

/-- The queue of a bounded pool keeps its bound, and tasks leave it once each
and in the order they came. While the pool runs, nobody waits without having
been notified for what more units are there of than threads notified of them;
once it has been stopped, nobody waits without having been notified at all.
Threads are counted once. -/
structure Disciplined (p : ThreadPool Tid Task) : Prop where
  bound : 0 < p.maxQueueSize → p.queue.length ≤ p.maxQueueSize
  order : p.handedOut <+: p.accepted
  workers : p.running = true → p.notEmpty.waiting ≠ [] →
    p.queue.length ≤ p.notEmpty.notified.length
  producers : p.running = true → p.notFull.waiting ≠ [] → 0 < p.maxQueueSize ∧
    p.maxQueueSize - p.queue.length ≤ p.notFull.notified.length
  stopped : p.running = false → p.notEmpty.waiting = [] ∧ p.notFull.waiting = []
  once : p.inside.Nodup

omit [DecidableEq Tid] in
theorem Inv.disciplined (h : p.Ok) : p.Disciplined where
  bound := h.size
  order := ⟨p.queue, h.order.symm⟩
  workers _ := h.items
  producers _ hwaiting :=
    ⟨Nat.pos_of_ne_zero fun hzero => hwaiting (h.unbounded hzero), h.slots hwaiting⟩
  stopped := h.stopped
  once := h.inside

/-- Every state of the pool is disciplined, and every step on offer goes
through, the asserts in `run` included, if and only if the code is built
without asserts or there are no workers. In either build the states that are
reached are disciplined, and the steps go through that do not evaluate an
`isFull` built with asserts. -/
theorem pool_discipline (debug : Bool) (threads : List Tid) (maxQueueSize : Nat) (task : Task) :
    ((∀ p : ThreadPool Tid Task, (machine debug).Reaches (new threads maxQueueSize) p →
        p.Disciplined ∧ (machine debug).Safe p) ↔ (debug = true → threads = [])) ∧
      ∀ p : ThreadPool Tid Task, (machine debug).Reaches (new threads maxQueueSize) p →
        p.Disciplined ∧
          ((machine debug).restrict fun p a => !(debug && p.callsIsFull a)).Safe p := by
  have hsafe : ∀ p : ThreadPool Tid Task, (machine debug).Reaches (new threads maxQueueSize) p →
      ((machine debug).restrict fun p a => !(debug && p.callsIsFull a)).Safe p := by
    intro p hr a hg
    obtain ⟨hg, hfull⟩ := Bool.and_eq_true_iff.mp hg
    obtain ⟨p', hp', -⟩ := step_ok (reaches_ok hr) hg
      (by simpa only [Bool.not_eq_true'] using hfull)
    exact ⟨p', hp'⟩
  refine ⟨⟨fun h hdebug => ?_, fun h p hr => ⟨(reaches_ok hr).disciplined, fun a hg => ?_⟩⟩,
    fun p hr => ⟨(reaches_ok hr).disciplined, hsafe p hr⟩⟩
  · -- the first `run` of a pool with a worker evaluates `isFull`
    subst hdebug
    cases threads with
    | nil => rfl
    | cons t threads =>
        obtain ⟨-, hall⟩ := h (new (t :: threads) maxQueueSize) ⟨[], rfl⟩
        have hoffer : (machine true).guard (new (t :: threads) maxQueueSize) (.run t task 0) =
            true := by
          simp [machine, guard, inside, CondVar.insideBoth, CondVar.inside, CondVar.ready, new,
            CondVar.empty]
        obtain ⟨p', hp'⟩ := hall (.run t task 0) hoffer
        cases (exec_isFull hoffer rfl).symm.trans hp'
  · -- without workers nobody evaluates it
    have hnot : (debug && p.callsIsFull a) = false := by
      cases hd : debug with
      | false => rfl
      | true =>
          have hbare : p.Bare := hr.invariant (I := Bare) ⟨h hd, rfl, rfl⟩
            fun hbare hg he => hbare.step hg he
          exact hbare.not_callsIsFull hg
    exact hsafe p hr a (Bool.and_eq_true_iff.mpr ⟨hg, by simpa only [Bool.not_eq_true']⟩)

/-- Two workers wait, a task comes in for one of them, and the pool is
stopped before it resumes. -/
def stoppedEarly : List (PoolAction Nat Nat) :=
  [.taskDone 0, .whileTest 0, .take 0 0, .taskDone 1, .whileTest 1, .take 1 0, .run 2 7 0,
    .stop]

theorem pool_discipline_stoppedEarly :
    ∃ p, (machine false).run stoppedEarly (new [0, 1] 1) = some p ∧
      p.notEmpty.notified = [0, 1] ∧ p.notEmpty.waiting = [] ∧
      p.queue.length ≤ p.maxQueueSize := by
  obtain ⟨p, hr, hn, hstopped, hpos⟩ : ∃ p, (machine false).run stoppedEarly (new [0, 1] 1) =
      some p ∧ p.notEmpty.notified = [0, 1] ∧ p.running = false ∧ 0 < p.maxQueueSize :=
    ⟨_, rfl, rfl, rfl, Nat.one_pos⟩
  have hreached := (pool_discipline false [0, 1] 1 7).1.mpr (by decide) p ⟨stoppedEarly, hr⟩
  exact ⟨p, hr, hn, (hreached.1.stopped hstopped).1, hreached.1.bound hpos⟩

/-- Built with asserts, a pool with one worker does not survive its first
`run`. -/
theorem run_without_result :
    (machine true).guard (new [0] 1 : ThreadPool Nat Nat) (.run 1 7 0) = true ∧
      (machine true).exec (.run 1 7 0) (new [0] 1 : ThreadPool Nat Nat) = .error .noResult ∧
      ¬ (machine true).Safe (new [0] 1 : ThreadPool Nat Nat) := by
  refine ⟨rfl, rfl, fun h => ?_⟩
  obtain ⟨p, hp⟩ := h (.run 1 7 0) rfl
  cases hp

end Libanet.ThreadPool
