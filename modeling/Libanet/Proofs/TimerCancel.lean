import Libanet.Net.TimerLoop
import Libanet.Proofs.LoopQueue
import Libanet.Proofs.TimerFiring

/-!
# Cancelling a timer from any thread

An `addTimer` that has returned has put its timer into the queue, or its
`addTimerInLoop` into the loop's queue of functors. A cancel from another
thread goes to the end of that queue, behind it, and `doPendingFunctors` runs
neither during a `handleRead`: by the time `cancelInLoop` is run the timer has
been added and waits in no batch, and the cancel finds it. This is `heard_step`,
followed along the queue from the push of the functor to its execution.

A cancel on the loop thread does not queue. It goes past an `addTimerInLoop`
that is still in the queue, finds nothing to cancel, and the timer is added
after it: this is `cancel_overtakes_add`. And in a callback it may find its
timer in the batch that is being run, where `cancelInLoop` does not stop it.
`cancel_heard` shows that these are the only two ways to lose a cancel.
-/

namespace Libanet.Net

namespace EventLoop

variable {Tid F : Type}

/-- What has been pushed and not been run, in order. -/
def functors (l : EventLoop Tid F) : List F := l.pc.rest ++ l.pendingFunctors

theorem functors_push (f : F) (l : EventLoop Tid F) :
    (l.push f).functors = l.functors ++ [f] := by
  simp [functors, push]

theorem Ledger.pushed_length {l : EventLoop Tid F} (h : l.Ledger) :
    l.pushed.length = l.executed.length + l.functors.length := by
  rw [← h, functors, List.append_assoc, List.length_append]

/-- Everything a step can do to the functors that are of no concern to the
timers. -/
inductive UserMove (l l' : EventLoop Tid TimerFunctor) : Prop where
  | keep (functors : l'.functors = l.functors) (executed : l'.executed = l.executed)
  | push (functors : l'.functors = l.functors ++ [.user]) (executed : l'.executed = l.executed)
  | run (functors : l.functors = .user :: l'.functors)
      (executed : l'.executed = l.executed ++ [.user])

end EventLoop

namespace TimerQueue

variable {q q' : TimerQueue} {a : TimerAction}

theorem TimerStep.added_subset (hs : TimerStep q a q') {k : ActiveTimer} (hk : k ∈ q.added) :
    k ∈ q'.added := by
  cases hs with
  | newTimer c w interval r free => exact hk
  | add c clock t unadded heap => split <;> exact List.mem_append_left _ hk
  | cancelActive e mem => exact hk
  | cancelOther j out => exact hk
  | handleReadBegin now active idle => exact hk
  | run now started rest e t phase heap => exact hk
  | handleReadEnd now clock started q₁ phase reset =>
      rw [rearm_eq, reset.frame]
      exact hk
  | fires d armed => exact hk

/-- Only `newTimer` and `addTimerInLoop` change what waits to be added. -/
theorem TimerStep.unadded_eq (hs : TimerStep q a q')
    (hnew : ∀ c w i r, a ≠ .newTimer c w i r) (hadd : ∀ c clock, a ≠ .addTimerInLoop c clock) :
    q'.unadded = q.unadded := by
  cases hs with
  | newTimer c w interval r free => exact absurd rfl (hnew c w interval r)
  | add c clock t unadded heap => exact absurd rfl (hadd c clock)
  | cancelActive e mem => rfl
  | cancelOther j out => rfl
  | handleReadBegin now active idle => rfl
  | run now started rest e t phase heap => rfl
  | handleReadEnd now clock started q₁ phase reset => rw [rearm_eq, reset.frame]
  | fires d armed => rfl

theorem TimerStep.unadded_of_cancel {timerId : ActiveTimer}
    (hs : TimerStep q (.cancelInLoop timerId) q') : q'.unadded = q.unadded :=
  hs.unadded_eq (fun _ _ _ _ h => by cases h) (fun _ _ h => by cases h)

theorem TimerStep.phase_of_cancel {timerId : ActiveTimer}
    (hs : TimerStep q (.cancelInLoop timerId) q') : q'.phase = q.phase := by
  rcases hs.cancel with ⟨e, -, -, rfl⟩ | ⟨-, rfl⟩
  · rfl
  · rfl

theorem TimerStep.add_eq {timer : Nat} {clock : Timestamp}
    (hs : TimerStep q (.addTimerInLoop timer clock) q') :
    ∃ t, q.heap timer = some t ∧ q'.added = q.added ++ [ActiveTimer.mk timer t.sequence] ∧
      q'.unadded = q.unadded.erase timer ∧ q'.phase = q.phase := by
  cases hs with
  | add c clock t unadded heap =>
      refine ⟨t, heap, ?_, ?_, ?_⟩
      · split <;> rfl
      · split <;> rfl
      · split <;> rfl

/-- What will not be run any more is in neither of the sets. -/
theorem Gone.out {timer sequence : Nat} (h : q.Gone timer sequence) (hq : q.Inv) :
    (∀ e ∈ q.timers, q.key e ≠ ActiveTimer.mk timer sequence) ∧
      ActiveTimer.mk timer sequence ∉ q.activeTimers := by
  have hout : ∀ e ∈ q.timers, q.key e ≠ ActiveTimer.mk timer sequence := by
    intro e he hkey
    obtain ⟨t, ht, -⟩ := hq.rep.entry e he
    rw [← e.mk_when_timer, Rep.key_eq ht] at hkey
    obtain ⟨rfl, rfl⟩ := ActiveTimer.mk_inj.mp hkey
    -- it would be in the batch, and what is in the batch is not in the queue
    obtain ⟨f, hf, hft⟩ := List.mem_map.mp (h.leaving t ht rfl).1
    have hbatch : f ∈ q.batch := by
      rw [batch_eq]
      exact List.mem_append_left _ hf
    exact (hq.mem_hand hbatch).2.2 e he hft.symm
  refine ⟨hout, fun hmem => ?_⟩
  obtain ⟨e, he, hkey⟩ := hq.rep.mem_active.mp hmem
  exact hout e he hkey

end TimerQueue

namespace TimerLoop

variable {Tid : Type}

open TimerQueue (TimerStep)
open EventLoop (UserMove)

/-! ## What a step can be -/

def functors (s : TimerLoop Tid) : List TimerFunctor := s.loop.functors

/-- The timers whose `addTimerInLoop` is in a list of functors. -/
def adds (fs : List TimerFunctor) : List Nat :=
  fs.filterMap fun | .addTimerInLoop timer => some timer | _ => none

theorem mem_adds {fs : List TimerFunctor} {timer : Nat} :
    timer ∈ adds fs ↔ .addTimerInLoop timer ∈ fs := by
  rw [adds, List.mem_filterMap]
  constructor
  · rintro ⟨f, hf, heq⟩
    cases f with
    | addTimerInLoop timer' =>
        cases heq
        exact hf
    | cancelInLoop timerId => cases heq
    | user => cases heq
  · intro hmem
    exact ⟨_, hmem, rfl⟩

def addr (timerId : ActiveTimer) : Nat := (ofLex timerId).1

/-- `timerId` names the timer at its address. -/
def Names (q : TimerQueue) (timerId : ActiveTimer) : Prop :=
  ∃ t, q.heap (addr timerId) = some t ∧ timerId = ActiveTimer.mk (addr timerId) t.sequence

/-- What is on its way to `addTimerInLoop`: the timers of the functors, and
those that have just been made. -/
def underway (s : TimerLoop Tid) : List Nat :=
  adds s.functors ++ s.created.map fun c => addr c.2

/-- The timer has been added, or will be when the queue is run. -/
def Announced (s : TimerLoop Tid) (timerId : ActiveTimer) : Prop :=
  timerId ∈ s.timerQueue.added ∨
    Names s.timerQueue timerId ∧ .addTimerInLoop (addr timerId) ∈ s.functors

structure Inv (s : TimerLoop Tid) : Prop where
  queue : s.timerQueue.Inv
  added : s.timerQueue.AddInv
  ledger : s.loop.Ledger
  -- the functors are not run during `handleRead`
  handling : s.timerQueue.phase = .idle ∨ ∃ active, s.loop.pc = .handler active
  unadded : s.timerQueue.unadded.Perm s.underway
  created : ∀ c ∈ s.created, Names s.timerQueue c.2
  queued : ∀ c ∈ s.queued, Announced s c.2
  returned : ∀ c ∈ s.returned, Announced s c.1

theorem new_inv : (new : TimerLoop Tid).Inv where
  queue := TimerQueue.new_inv
  added := by
    intro a s h
    cases h
  ledger := rfl
  handling := .inl rfl
  unadded := List.Perm.refl _
  created := by
    intro c hc
    cases hc
  queued := by
    intro c hc
    cases hc
  returned := by
    intro c hc
    cases hc

/-- The functors are only run outside `handleRead`. -/
theorem Inv.idle_of_batch {s : TimerLoop Tid} (hi : s.Inv) {fs : List TimerFunctor}
    (hp : s.loop.pc = .batch fs) : s.timerQueue.phase = .idle := by
  rcases hi.handling with hidle | ⟨active, hactive⟩
  · exact hidle
  · rw [hp] at hactive
    cases hactive

theorem Inv.mem_unadded {s : TimerLoop Tid} (hi : s.Inv) {timer : Nat}
    (hmem : .addTimerInLoop timer ∈ s.functors) : timer ∈ s.timerQueue.unadded :=
  hi.unadded.mem_iff.mpr (List.mem_append_left _ (mem_adds.mpr hmem))

theorem Inv.mem_unadded_of_created {s : TimerLoop Tid} (hi : s.Inv) {c : Option Tid × ActiveTimer}
    (hmem : c ∈ s.created) : addr c.2 ∈ s.timerQueue.unadded :=
  hi.unadded.mem_iff.mpr (List.mem_append_right _ (List.mem_map.mpr ⟨c, hmem, rfl⟩))

variable [DecidableEq Tid]

/-- Everything a thread can do, with what it does to the timers and to the
loop's queue. -/
inductive Step (s : TimerLoop Tid) : TimerLoopAction Tid → TimerLoop Tid → Prop where
  | loop (a : LoopAction Tid TimerFunctor) (l' : EventLoop Tid TimerFunctor)
      (step : EventLoop.LoopStep s.loop a l') (move : UserMove s.loop l') (ledger : l'.Ledger)
      (back : a = .handlerReturn → s.timerQueue.phase = .idle) :
      Step s (.loop a) { s with loop := l' }
  | newTimer (t : Option Tid) (timer : Nat) (w : Timestamp) (i : Int) (r : Bool)
      (free : s.timerQueue.heap timer = none) :
      Step s (.newTimer t timer w i r) { s with
        timerQueue := s.timerQueue.newTimer timer w i r
        created := s.created ++
          [(t, ActiveTimer.mk timer (s.timerQueue.numCreated + 1))] }
  | add (timerId r : ActiveTimer) (clock : Timestamp) (q' : TimerQueue)
      (mem : (none, timerId) ∈ s.created)
      (step : TimerStep s.timerQueue (.addTimerInLoop (addr timerId) clock) q') :
      Step s (.addTimer none timerId clock) { s with
        timerQueue := q'
        created := s.created.erase (none, timerId)
        returned := s.returned ++ [(timerId, r)] }
  | pushAdd (t : Tid) (timerId : ActiveTimer) (clock : Timestamp)
      (mem : (some t, timerId) ∈ s.created) :
      Step s (.addTimer (some t) timerId clock) { s with
        loop := (s.loop.push (.addTimerInLoop (addr timerId))).setThread t .pushed
        created := s.created.erase (some t, timerId)
        queued := s.queued ++ [(t, timerId)] }
  | addTimerReturn (t : Tid) (timerId r : ActiveTimer) (mem : (t, timerId) ∈ s.queued) :
      Step s (.addTimerReturn t timerId) { s with
        queued := s.queued.erase (t, timerId)
        returned := s.returned ++ [(timerId, r)] }
  | cancel (timerId : ActiveTimer) (q' : TimerQueue)
      (step : TimerStep s.timerQueue (.cancelInLoop timerId) q') :
      Step s (.cancel none timerId) { s with timerQueue := q' }
  | pushCancel (t : Tid) (timerId : ActiveTimer) :
      Step s (.cancel (some t) timerId) { s with
        loop := (s.loop.push (.cancelInLoop timerId)).setThread t .pushed }
  | runAdd (timer : Nat) (fs : List TimerFunctor) (clock : Timestamp) (q' : TimerQueue)
      (pc : s.loop.pc = .batch (.addTimerInLoop timer :: fs))
      (step : TimerStep s.timerQueue (.addTimerInLoop timer clock) q') :
      Step s (.runFunctor clock) { s with
        loop := { s.loop with
          executed := s.loop.executed ++ [.addTimerInLoop timer], pc := .batch fs }
        timerQueue := q' }
  | runCancel (timerId : ActiveTimer) (fs : List TimerFunctor) (clock : Timestamp)
      (q' : TimerQueue) (pc : s.loop.pc = .batch (.cancelInLoop timerId :: fs))
      (idle : s.timerQueue.phase = .idle)
      (step : TimerStep s.timerQueue (.cancelInLoop timerId) q') :
      Step s (.runFunctor clock) { s with
        loop := { s.loop with
          executed := s.loop.executed ++ [.cancelInLoop timerId], pc := .batch fs }
        timerQueue := q' }
  | timer (a : TimerAction) (q' : TimerQueue) (step : TimerStep s.timerQueue a q')
      (guard : s.timerGuard a = true) :
      Step s (.timer a) { s with timerQueue := q' }

theorem userMove_of_guard {s : TimerLoop Tid} {a : LoopAction Tid TimerFunctor}
    {l' : EventLoop Tid TimerFunctor} (hg : s.loopGuard a = true)
    (hs : EventLoop.LoopStep s.loop a l') : UserMove s.loop l' := by
  cases hs with
  | push t f =>
      simp only [loopGuard, Bool.and_eq_true, decide_eq_true_eq] at hg
      rw [hg.1]
      exact .push (EventLoop.functors_push TimerFunctor.user s.loop) rfl
  | queueInLoop f user =>
      simp only [loopGuard, Bool.and_eq_true, decide_eq_true_eq] at hg
      rw [hg.1]
      exact .push (EventLoop.functors_push TimerFunctor.user s.loop) rfl
  | runFunctor f fs pc =>
      simp only [loopGuard, pc] at hg
      cases f with
      | user => exact .run (by simp [EventLoop.functors, pc, LoopPc.rest]) rfl
      | addTimerInLoop timer => cases hg
      | cancelInLoop timerId => cases hg
  | queueInLoopReturn =>
      unfold EventLoop.wakeupIfNeeded
      split
      · exact .keep rfl rfl
      · exact .keep rfl rfl
  | quit t idle => exact .keep rfl rfl
  | wakeup t => exact .keep rfl rfl
  | quitInLoop => exact .keep rfl rfl
  | loop pc returned => exact .keep (by simp [EventLoop.functors, pc, LoopPc.rest]) rfl
  | poll pc => exact .keep (by simp [EventLoop.functors, pc, LoopPc.rest]) rfl
  | leave pc => exact .keep (by simp [EventLoop.functors, pc, LoopPc.rest]) rfl
  | pollReturn active pc => exact .keep (by simp [EventLoop.functors, pc, LoopPc.rest]) rfl
  | handleRead active pc =>
      exact .keep (by simp [EventLoop.functors, EventLoop.handleRead, pc, LoopPc.rest]) rfl
  | handler active pc => exact .keep (by simp [EventLoop.functors, pc, LoopPc.rest]) rfl
  | handlerReturn active pc returned =>
      exact .keep (by simp [EventLoop.functors, pc, LoopPc.rest]) rfl
  | dispatchDone pc => exact .keep (by simp [EventLoop.functors, pc, LoopPc.rest]) rfl
  | swap pc => exact .keep (by simp [EventLoop.functors, pc, LoopPc.rest]) rfl
  | functorReturn fs pc returned =>
      exact .keep (by simp [EventLoop.functors, pc, LoopPc.rest]) rfl
  | functorsDone pc => exact .keep (by simp [EventLoop.functors, pc, LoopPc.rest]) rfl

/-- A functor of the timers' is taken from the batch and run. -/
theorem Step.of_runFunctor {s s' : TimerLoop Tid} {clock : Timestamp} (hi : s.Inv)
    (hg : guard s (.runFunctor clock) = true) (he : exec (.runFunctor clock) s = .ok s') :
    Step s (.runFunctor clock) s' ∧ s'.timerQueue.Inv := by
  obtain ⟨f, fs, hp, hf⟩ : ∃ f fs, s.loop.pc = .batch (f :: fs) ∧ f ≠ .user := by
    simp only [guard] at hg
    split at hg
    · next f fs hp => exact ⟨f, fs, hp, by simpa using hg⟩
    · cases hg
  have hidle := hi.idle_of_batch hp
  have huser : s.timerQueue.userCode = true := by simp [TimerQueue.userCode, hidle]
  have hmem : f ∈ s.functors := by simp [functors, EventLoop.functors, hp, LoopPc.rest]
  simp only [exec, hp, EventLoop.exec] at he
  obtain ⟨l, hl, he⟩ := bind_eq_ok.mp he
  cases hl
  obtain ⟨q, hq, he⟩ := bind_eq_ok.mp he
  cases he
  cases f with
  | addTimerInLoop timer =>
      have hun := hi.mem_unadded hmem
      have hgq : TimerQueue.machine.guard s.timerQueue
          (.addTimerInLoop timer clock) = true := by
        simp [TimerQueue.machine, TimerQueue.guard, huser, hun]
      obtain ⟨hs, hq⟩ := TimerStep.of_exec hi.queue hgq hq
      exact ⟨.runAdd timer fs clock q hp hs, hq⟩
  | cancelInLoop timerId =>
      obtain ⟨hs, hq⟩ := TimerStep.of_exec hi.queue (a := .cancelInLoop timerId) huser hq
      exact ⟨.runCancel timerId fs clock q hp hidle hs, hq⟩
  | user => exact absurd rfl hf

/-- An action that was taken is one of the steps above. -/
theorem Step.of_exec {s s' : TimerLoop Tid} {a : TimerLoopAction Tid} (hi : s.Inv)
    (hg : machine.guard s a = true) (he : machine.exec a s = .ok s') :
    Step s a s' ∧ s'.timerQueue.Inv := by
  simp only [machine] at hg he
  cases a with
  | loop a =>
      obtain ⟨hgl, hgs⟩ := Bool.and_eq_true_iff.mp hg
      obtain ⟨l', hl, he⟩ := bind_eq_ok.mp he
      cases he
      have hs := EventLoop.LoopStep.of_exec hgl hl
      refine ⟨.loop a l' hs (userMove_of_guard hgs hs)
        (EventLoop.step_ledger hi.ledger hgl hl) ?_, hi.queue⟩
      rintro rfl
      simp only [loopGuard, handleReadDone, Bool.and_eq_true] at hgs
      cases hp : s.timerQueue.phase with
      | idle => rfl
      | calling now started rest =>
          rw [hp] at hgs
          cases hgs.2
  | newTimer t timer w i r =>
      cases he
      have hgq := (Bool.and_eq_true_iff.mp hg).2
      obtain ⟨hs, hq⟩ :=
        TimerStep.of_exec hi.queue (a := .newTimer timer w i r) hgq rfl
      cases hs with
      | newTimer c w i r free => exact ⟨.newTimer t timer w i r free, hq⟩
  | addTimer t timerId clock =>
      obtain ⟨hmem, hg⟩ := Bool.and_eq_true_iff.mp hg
      have hmem := List.contains_iff_mem.mp hmem
      cases t with
      | none =>
          obtain ⟨q, hq, he⟩ := bind_eq_ok.mp he
          obtain ⟨timer, -, he⟩ := bind_eq_ok.mp he
          cases he
          have hgq : TimerQueue.machine.guard s.timerQueue
              (.addTimerInLoop (addr timerId) clock) = true := by
            have hun := hi.mem_unadded_of_created hmem
            simp [TimerQueue.machine, TimerQueue.guard, hg, hun]
          obtain ⟨hs, hq⟩ := TimerStep.of_exec hi.queue hgq hq
          exact ⟨.add timerId _ clock q hmem hs, hq⟩
      | some t =>
          cases he
          exact ⟨.pushAdd t timerId clock hmem, hi.queue⟩
  | addTimerReturn t timerId =>
      obtain ⟨hmem, -⟩ := Bool.and_eq_true_iff.mp hg
      obtain ⟨timer, -, he⟩ := bind_eq_ok.mp he
      cases he
      exact ⟨.addTimerReturn t timerId _ (List.contains_iff_mem.mp hmem), hi.queue⟩
  | cancel t timerId =>
      cases t with
      | none =>
          obtain ⟨q, hq, he⟩ := bind_eq_ok.mp he
          cases he
          have hgq : TimerQueue.machine.guard s.timerQueue (.cancelInLoop timerId) = true := by
            simp only [guard, inUserCode, Bool.and_eq_true] at hg
            exact hg.2.2
          obtain ⟨hs, hq⟩ := TimerStep.of_exec hi.queue hgq hq
          exact ⟨.cancel timerId q hs, hq⟩
      | some t =>
          cases he
          exact ⟨.pushCancel t timerId, hi.queue⟩
  | runFunctor clock => exact Step.of_runFunctor hi hg he
  | timer a =>
      obtain ⟨hgq, hgs⟩ := Bool.and_eq_true_iff.mp hg
      obtain ⟨q, hq, he⟩ := bind_eq_ok.mp he
      cases he
      obtain ⟨hs, hq⟩ := TimerStep.of_exec hi.queue hgq hq
      exact ⟨.timer a q hs hgs, hq⟩

/-! ## The invariant -/

/-- The timers change by a step of theirs, or not at all. -/
theorem Step.timerStep {s s' : TimerLoop Tid} {a : TimerLoopAction Tid} (hs : Step s a s') :
    s'.timerQueue = s.timerQueue ∨ ∃ b, TimerStep s.timerQueue b s'.timerQueue := by
  cases hs with
  | loop a l' step move ledger back => exact .inl rfl
  | newTimer t timer w i r free => exact .inr ⟨_, .newTimer timer w i r free⟩
  | add timerId r clock q' mem step => exact .inr ⟨_, step⟩
  | pushAdd t timerId clock mem => exact .inl rfl
  | addTimerReturn t timerId r mem => exact .inl rfl
  | cancel timerId q' step => exact .inr ⟨_, step⟩
  | pushCancel t timerId => exact .inl rfl
  | runAdd timer fs clock q' pc step => exact .inr ⟨_, step⟩
  | runCancel timerId fs clock q' pc idle step => exact .inr ⟨_, step⟩
  | timer a q' step guard => exact .inr ⟨_, step⟩

/-- What running a functor does to the timers. -/
inductive Ran (q : TimerQueue) : TimerFunctor → TimerQueue → Prop where
  | user : Ran q .user q
  | addTimerInLoop (timer : Nat) (clock : Timestamp) (q' : TimerQueue)
      (step : TimerStep q (.addTimerInLoop timer clock) q') : Ran q (.addTimerInLoop timer) q'
  | cancelInLoop (timerId : ActiveTimer) (q' : TimerQueue) (idle : q.phase = .idle)
      (step : TimerStep q (.cancelInLoop timerId) q') : Ran q (.cancelInLoop timerId) q'

/-- The functors stay, get a new last one, or lose their first because it is
run. -/
theorem Step.functors {s s' : TimerLoop Tid} {a : TimerLoopAction Tid} (hs : Step s a s') :
    s'.functors = s.functors ∧ s'.loop.executed = s.loop.executed ∨
      (∃ f, s'.functors = s.functors ++ [f] ∧ s'.loop.executed = s.loop.executed) ∨
      ∃ f, s.functors = f :: s'.functors ∧ s'.loop.executed = s.loop.executed ++ [f] ∧
        Ran s.timerQueue f s'.timerQueue := by
  cases hs with
  | loop a l' step move ledger back =>
      cases move with
      | keep functors executed => exact .inl ⟨functors, executed⟩
      | push functors executed => exact .inr (.inl ⟨.user, functors, executed⟩)
      | run functors executed => exact .inr (.inr ⟨.user, functors, executed, .user⟩)
  | newTimer t timer w i r free => exact .inl ⟨rfl, rfl⟩
  | add timerId r clock q' mem step => exact .inl ⟨rfl, rfl⟩
  | pushAdd t timerId clock mem =>
      exact .inr (.inl ⟨_, EventLoop.functors_push _ s.loop, rfl⟩)
  | addTimerReturn t timerId r mem => exact .inl ⟨rfl, rfl⟩
  | cancel timerId q' step => exact .inl ⟨rfl, rfl⟩
  | pushCancel t timerId =>
      exact .inr (.inl ⟨_, EventLoop.functors_push _ s.loop, rfl⟩)
  | runAdd timer fs clock q' pc step =>
      refine .inr (.inr ⟨.addTimerInLoop timer, ?_, rfl, .addTimerInLoop timer clock q' step⟩)
      simp [TimerLoop.functors, EventLoop.functors, pc, LoopPc.rest]
  | runCancel timerId fs clock q' pc idle step =>
      refine .inr (.inr ⟨.cancelInLoop timerId, ?_, rfl, .cancelInLoop timerId q' idle step⟩)
      simp [TimerLoop.functors, EventLoop.functors, pc, LoopPc.rest]
  | timer a q' step guard => exact .inl ⟨rfl, rfl⟩

theorem adds_append (fs gs : List TimerFunctor) : adds (fs ++ gs) = adds fs ++ adds gs :=
  List.filterMap_append

/-- One timer less among those that have just been made. -/
theorem underway_erase {s : TimerLoop Tid} {c : Option Tid × ActiveTimer} (hc : c ∈ s.created) :
    s.underway.Perm
      (addr c.2 :: (adds s.functors ++ (s.created.erase c).map fun c => addr c.2)) := by
  have hmap := (List.perm_cons_erase hc).map fun c => addr c.2
  exact (hmap.append_left _).trans List.perm_middle

/-- The functor about to run comes first. -/
theorem underway_batch {T : Type} {s : TimerLoop T} {f : TimerFunctor} {fs : List TimerFunctor}
    (pc : s.loop.pc = .batch (f :: fs)) :
    s.underway = adds [f] ++ (adds (fs ++ s.loop.pendingFunctors) ++
      s.created.map fun c => addr c.2) := by
  rw [underway, functors, EventLoop.functors, pc, ← List.append_assoc, ← adds_append]
  rfl

theorem step_unadded {s s' : TimerLoop Tid} {a : TimerLoopAction Tid} (hi : s.Inv)
    (hs : Step s a s') : s'.timerQueue.unadded.Perm s'.underway := by
  have hun := hi.unadded
  cases hs with
  | loop a l' step move ledger back =>
      have hadds : adds l'.functors = adds s.functors := by
        cases move with
        | keep functors executed => rw [functors]; rfl
        | push functors executed => rw [functors, adds_append]; exact List.append_nil _
        | run functors executed => rw [TimerLoop.functors, functors]; rfl
      show s.timerQueue.unadded.Perm (adds l'.functors ++ _)
      rw [hadds]
      exact hun
  | newTimer t timer w i r free =>
      show (s.timerQueue.unadded ++ [timer]).Perm
        (adds s.functors ++
          (s.created ++ [(t, _)]).map fun c : Option Tid × ActiveTimer => addr c.2)
      rw [List.map_append, ← List.append_assoc]
      exact hun.append_right _
  | add timerId r clock q' mem step =>
      obtain ⟨t, -, -, hunadded, -⟩ := step.add_eq
      show q'.unadded.Perm _
      rw [hunadded]
      have hperm := (hun.trans (underway_erase mem)).erase (addr timerId)
      rw [List.erase_cons_head] at hperm
      exact hperm
  | pushAdd t timerId clock mem =>
      show s.timerQueue.unadded.Perm
        (adds (s.loop.push (.addTimerInLoop (addr timerId))).functors ++ _)
      rw [EventLoop.functors_push, adds_append, List.append_assoc]
      exact (hun.trans (underway_erase mem)).trans List.perm_middle.symm
  | addTimerReturn t timerId r mem => exact hun
  | cancel timerId q' step =>
      show q'.unadded.Perm s.underway
      rw [step.unadded_of_cancel]
      exact hun
  | pushCancel t timerId =>
      show s.timerQueue.unadded.Perm
        (adds (s.loop.push (.cancelInLoop timerId)).functors ++ _)
      rw [EventLoop.functors_push, adds_append]
      exact (List.append_nil (adds s.functors)).symm ▸ hun
  | runAdd timer fs clock q' pc step =>
      obtain ⟨t, -, -, hunadded, -⟩ := step.add_eq
      show q'.unadded.Perm _
      rw [underway_batch pc] at hun
      rw [hunadded]
      have hperm := hun.erase timer
      rw [show adds [.addTimerInLoop timer] = [timer] from rfl, List.singleton_append,
        List.erase_cons_head] at hperm
      exact hperm
  | runCancel timerId fs clock q' pc idle step =>
      show q'.unadded.Perm _
      rw [step.unadded_of_cancel]
      rw [underway_batch pc] at hun
      exact hun
  | timer a q' step guard =>
      have hunadded : q'.unadded = s.timerQueue.unadded := by
        refine step.unadded_eq ?_ ?_
        · rintro c w i r rfl
          cases guard
        · rintro c clock rfl
          cases guard
      show q'.unadded.Perm s.underway
      rw [hunadded]
      exact hun

theorem step_handling {s s' : TimerLoop Tid} {a : TimerLoopAction Tid} (hi : s.Inv)
    (hs : Step s a s') :
    s'.timerQueue.phase = .idle ∨ ∃ active, s'.loop.pc = .handler active := by
  cases hs with
  | loop a l' step move ledger back =>
      rcases hi.handling with hidle | ⟨active, hpc⟩
      · exact .inl hidle
      · -- from a handler the loop only goes on by returning from it
        cases step with
        | push t f => exact .inr ⟨active, hpc⟩
        | quit t idle => exact .inr ⟨active, hpc⟩
        | wakeup t => exact .inr ⟨active, hpc⟩
        | queueInLoop f user => exact .inr ⟨active, hpc⟩
        | queueInLoopReturn =>
            unfold EventLoop.wakeupIfNeeded
            split <;> exact .inr ⟨active, hpc⟩
        | quitInLoop => exact .inr ⟨active, hpc⟩
        | handlerReturn active pc returned => exact .inl (back rfl)
        | loop pc _ | poll pc | leave pc | pollReturn _ pc | handleRead _ pc | handler _ pc
        | dispatchDone pc | swap pc | runFunctor _ _ pc | functorReturn _ pc _
        | functorsDone pc =>
            rw [hpc] at pc
            cases pc
  | newTimer t timer w i r free => exact hi.handling
  | add timerId r clock q' mem step =>
      obtain ⟨t, -, -, -, hphase⟩ := step.add_eq
      exact hphase.symm ▸ hi.handling
  | pushAdd t timerId clock mem => exact hi.handling
  | addTimerReturn t timerId r mem => exact hi.handling
  | cancel timerId q' step => exact step.phase_of_cancel.symm ▸ hi.handling
  | pushCancel t timerId => exact hi.handling
  | runAdd timer fs clock q' pc step =>
      obtain ⟨t, -, -, -, hphase⟩ := step.add_eq
      exact .inl (hphase.trans (hi.idle_of_batch pc))
  | runCancel timerId fs clock q' pc idle step => exact .inl (step.phase_of_cancel.trans idle)
  | timer a q' step guard =>
      cases step with
      | newTimer c w interval r free => cases guard
      | add c clock t unadded heap => cases guard
      | cancelActive e mem => cases guard
      | cancelOther j out => cases guard
      | handleReadBegin now active idle =>
          simp only [timerGuard, Bool.and_eq_true] at guard
          cases hp : s.loop.pc <;> rw [hp] at guard
          case handler active => exact .inr ⟨active, rfl⟩
          all_goals cases guard.2
      | run now started rest e t phase heap =>
          exact hi.handling.imp (fun hidle => by rw [phase] at hidle; cases hidle) id
      | handleReadEnd now clock started q₁ phase reset =>
          refine .inl ?_
          rw [TimerQueue.rearm_eq, reset.frame]
      | fires d armed => exact hi.handling

/-- A timer that stays on its way to `addTimerInLoop` keeps its name. -/
theorem names_step {s s' : TimerLoop Tid} {a : TimerLoopAction Tid} (hi : s.Inv)
    (hs : Step s a s') {timerId : ActiveTimer} (h : Names s.timerQueue timerId)
    (hun : addr timerId ∈ s.timerQueue.unadded) (hun' : addr timerId ∈ s'.timerQueue.unadded) :
    Names s'.timerQueue timerId := by
  rcases hs.timerStep with heq | ⟨b, hb⟩
  · rw [heq]
    exact h
  · obtain ⟨t, ht, hid⟩ := h
    refine ⟨t, ?_, hid⟩
    rw [hb.heap_eq hi.queue (List.mem_append_left _ hun) (List.mem_append_left _ hun')]
    exact ht

theorem added_step {s s' : TimerLoop Tid} {a : TimerLoopAction Tid} (hs : Step s a s')
    {timerId : ActiveTimer} (h : timerId ∈ s.timerQueue.added) :
    timerId ∈ s'.timerQueue.added := by
  rcases hs.timerStep with heq | ⟨b, hb⟩
  · rw [heq]
    exact h
  · exact hb.added_subset h

/-- An `addTimerInLoop` that is run adds the timer of its name. -/
theorem Ran.added {q q' : TimerQueue} {timerId : ActiveTimer}
    (h : Ran q (.addTimerInLoop (addr timerId)) q') (hn : Names q timerId) :
    timerId ∈ q'.added := by
  obtain ⟨t, ht, hid⟩ := hn
  cases h with
  | addTimerInLoop timer clock q' step =>
      obtain ⟨t', ht', hadded, -, -⟩ := step.add_eq
      cases ht.symm.trans ht'
      rw [hadded, ← hid]
      exact List.mem_append_right _ List.mem_cons_self

theorem announced_step {s s' : TimerLoop Tid} {a : TimerLoopAction Tid} (hi : s.Inv)
    (hs : Step s a s') {timerId : ActiveTimer} (h : Announced s timerId) :
    Announced s' timerId := by
  rcases h with h | ⟨hn, hmem⟩
  · exact .inl (added_step hs h)
  · have hkeep : .addTimerInLoop (addr timerId) ∈ s'.functors → Announced s' timerId := by
      intro hmem'
      have hun' := (step_unadded hi hs).mem_iff.mpr
        (List.mem_append_left _ (mem_adds.mpr hmem'))
      exact .inr ⟨names_step hi hs hn (hi.mem_unadded hmem) hun', hmem'⟩
    rcases hs.functors with ⟨hf, -⟩ | ⟨f, hf, -⟩ | ⟨f, hf, -, hran⟩
    · exact hkeep (hf ▸ hmem)
    · exact hkeep (hf ▸ List.mem_append_left _ hmem)
    · rw [hf, List.mem_cons] at hmem
      rcases hmem with rfl | hmem
      · exact .inl (hran.added hn)
      · exact hkeep hmem

theorem step_ledger {s s' : TimerLoop Tid} {a : TimerLoopAction Tid} (hi : s.Inv)
    (hs : Step s a s') : s'.loop.Ledger := by
  have hpush : ∀ f t, ((s.loop.push f).setThread t .pushed).Ledger := by
    intro f t
    have hl := hi.ledger
    show s.loop.executed ++ s.loop.pc.rest ++ (s.loop.pendingFunctors ++ [f]) =
      s.loop.pushed ++ [f]
    rw [← List.append_assoc, hl]
  have hrun : ∀ f fs, s.loop.pc = .batch (f :: fs) →
      EventLoop.Ledger { s.loop with executed := s.loop.executed ++ [f], pc := .batch fs } := by
    intro f fs hpc
    have hl := hi.ledger
    rw [EventLoop.Ledger, hpc] at hl
    simpa [EventLoop.Ledger, LoopPc.rest] using hl
  cases hs with
  | loop a l' step move ledger back => exact ledger
  | pushAdd t timerId clock mem => exact hpush _ t
  | pushCancel t timerId => exact hpush _ t
  | runAdd timer fs clock q' pc step => exact hrun _ fs pc
  | runCancel timerId fs clock q' pc idle step => exact hrun _ fs pc
  | newTimer t timer w i r free => exact hi.ledger
  | add timerId r clock q' mem step => exact hi.ledger
  | addTimerReturn t timerId r mem => exact hi.ledger
  | cancel timerId q' step => exact hi.ledger
  | timer a q' step guard => exact hi.ledger

theorem step_created {s s' : TimerLoop Tid} {a : TimerLoopAction Tid} (hi : s.Inv)
    (hs : Step s a s') : ∀ c ∈ s'.created, Names s'.timerQueue c.2 := by
  have hold : ∀ c ∈ s.created, c ∈ s'.created → Names s'.timerQueue c.2 := by
    intro c hc hc'
    have hun' := (step_unadded hi hs).mem_iff.mpr
      (List.mem_append_right _ (List.mem_map.mpr ⟨c, hc', rfl⟩))
    exact names_step hi hs (hi.created c hc) (hi.mem_unadded_of_created hc) hun'
  cases hs with
  | newTimer t timer w i r free =>
      intro c hc
      rcases List.mem_append.mp hc with hmem | hmem
      · exact hold c hmem hc
      · rw [List.mem_singleton.mp hmem]
        exact ⟨⟨w, i, r, s.timerQueue.numCreated + 1⟩, if_pos rfl, rfl⟩
  | add timerId r clock q' mem step => exact fun c hc => hold c (List.mem_of_mem_erase hc) hc
  | pushAdd t timerId clock mem => exact fun c hc => hold c (List.mem_of_mem_erase hc) hc
  | loop a l' step move ledger back => exact fun c hc => hold c hc hc
  | addTimerReturn t timerId r mem => exact fun c hc => hold c hc hc
  | cancel timerId q' step => exact fun c hc => hold c hc hc
  | pushCancel t timerId => exact fun c hc => hold c hc hc
  | runAdd timer fs clock q' pc step => exact fun c hc => hold c hc hc
  | runCancel timerId fs clock q' pc idle step => exact fun c hc => hold c hc hc
  | timer a q' step guard => exact fun c hc => hold c hc hc

/-- A call that queues or returns has its timer announced. -/
theorem step_announced {s s' : TimerLoop Tid} {a : TimerLoopAction Tid} (hi : s.Inv)
    (hs : Step s a s') :
    (∀ c ∈ s'.queued, Announced s' c.2) ∧ ∀ c ∈ s'.returned, Announced s' c.1 := by
  have hq : ∀ c ∈ s.queued, Announced s' c.2 :=
    fun c hc => announced_step hi hs (hi.queued c hc)
  have hr : ∀ c ∈ s.returned, Announced s' c.1 :=
    fun c hc => announced_step hi hs (hi.returned c hc)
  cases hs with
  | add timerId r clock q' mem step =>
      refine ⟨hq, fun c hc => ?_⟩
      rcases List.mem_append.mp hc with hmem | hmem
      · exact hr c hmem
      · rw [List.mem_singleton.mp hmem]
        exact .inl ((Ran.addTimerInLoop _ clock q' step).added (hi.created _ mem))
  | pushAdd t timerId clock mem =>
      refine ⟨fun c hc => ?_, hr⟩
      rcases List.mem_append.mp hc with hmem | hmem
      · exact hq c hmem
      · rw [List.mem_singleton.mp hmem]
        refine .inr ⟨hi.created _ mem, ?_⟩
        show _ ∈ (s.loop.push (.addTimerInLoop (addr timerId))).functors
        rw [EventLoop.functors_push]
        exact List.mem_append_right _ List.mem_cons_self
  | addTimerReturn t timerId r mem =>
      refine ⟨fun c hc => hq c (List.mem_of_mem_erase hc), fun c hc => ?_⟩
      rcases List.mem_append.mp hc with hmem | hmem
      · exact hr c hmem
      · rw [List.mem_singleton.mp hmem]
        exact hq _ mem
  | newTimer t timer w i r free => exact ⟨hq, hr⟩
  | loop a l' step move ledger back => exact ⟨hq, hr⟩
  | cancel timerId q' step => exact ⟨hq, hr⟩
  | pushCancel t timerId => exact ⟨hq, hr⟩
  | runAdd timer fs clock q' pc step => exact ⟨hq, hr⟩
  | runCancel timerId fs clock q' pc idle step => exact ⟨hq, hr⟩
  | timer a q' step guard => exact ⟨hq, hr⟩

theorem step_inv {s s' : TimerLoop Tid} {a : TimerLoopAction Tid} (hi : s.Inv)
    (hg : machine.guard s a = true) (he : machine.exec a s = .ok s') : s'.Inv := by
  obtain ⟨hs, hq⟩ := Step.of_exec hi hg he
  obtain ⟨hqueued, hreturned⟩ := step_announced hi hs
  refine ⟨hq, ?_, step_ledger hi hs, step_handling hi hs, step_unadded hi hs,
    step_created hi hs, hqueued, hreturned⟩
  rcases hs.timerStep with heq | ⟨b, hb⟩
  · rw [heq]
    exact hi.added
  · exact TimerQueue.addInv_step hi.queue hi.added hb

/-! ## Along a run -/

/-- The cancel has been run and has reached its timer, or it is at its place
in the queue, with the timer added or announced in front of it. -/
inductive Underway (s : TimerLoop Tid) (n timer sequence : Nat) : Prop where
  | heard (gone : s.timerQueue.Gone timer sequence)
  | pending (before after : List TimerFunctor)
      (functors : s.functors =
        before ++ .cancelInLoop (ActiveTimer.mk timer sequence) :: after)
      (place : s.loop.executed.length + before.length = n)
      (announced : ActiveTimer.mk timer sequence ∈ s.timerQueue.added ∨
        Names s.timerQueue (ActiveTimer.mk timer sequence) ∧ .addTimerInLoop timer ∈ before)

theorem gone_step {s s' : TimerLoop Tid} {a : TimerLoopAction Tid} (hi : s.Inv)
    (hs : Step s a s') {timer sequence : Nat} (h : s.timerQueue.Gone timer sequence) :
    s'.timerQueue.Gone timer sequence ∧
      ∃ runs, s'.timerQueue.ran = s.timerQueue.ran ++ runs ∧
        ∀ r ∈ runs, r.id ≠ ActiveTimer.mk timer sequence := by
  rcases hs.timerStep with heq | ⟨b, hb⟩
  · rw [heq]
    exact ⟨h, [], (List.append_nil _).symm, by simp⟩
  · exact TimerQueue.gone_step hi.queue h hb

/-- A `cancelInLoop` from the queue finds a timer that was added: it is run
outside `handleRead`, so no batch is waiting. -/
theorem Ran.gone {q q' : TimerQueue} {timer sequence : Nat}
    (h : Ran q (.cancelInLoop (ActiveTimer.mk timer sequence)) q') (hq : q.Inv) (hi : q.AddInv)
    (hadded : ActiveTimer.mk timer sequence ∈ q.added) : q'.Gone timer sequence := by
  cases h with
  | cancelInLoop timerId q' idle step =>
      refine TimerQueue.gone_of_cancel hq hi hadded step ?_
      intro e he
      rw [TimerQueue.waiting, idle] at he
      cases he

theorem heard_step {s s' : TimerLoop Tid} {a : TimerLoopAction Tid} {n timer sequence : Nat}
    (hi : s.Inv) (hs : Step s a s') (h : s.Underway n timer sequence) :
    s'.Underway n timer sequence := by
  cases h with
  | heard gone => exact .heard (gone_step hi hs gone).1
  | pending before after functors place announced =>
      -- what is announced in front of the cancel stays so, or is run
      have hkeep : ∀ before' : List TimerFunctor, (∀ f ∈ before', f ∈ s'.functors) →
          (.addTimerInLoop timer ∈ before → .addTimerInLoop timer ∈ before' ∨
            ActiveTimer.mk timer sequence ∈ s'.timerQueue.added) →
          ActiveTimer.mk timer sequence ∈ s'.timerQueue.added ∨
            Names s'.timerQueue (ActiveTimer.mk timer sequence) ∧
              .addTimerInLoop timer ∈ before' := by
        intro before' hsub hmem
        rcases announced with hadded | ⟨hn, hadd⟩
        · exact .inl (added_step hs hadded)
        · rcases hmem hadd with hadd' | hadded
          · have hun : timer ∈ s.timerQueue.unadded :=
              hi.mem_unadded (functors ▸ List.mem_append_left _ hadd)
            have hun' : timer ∈ s'.timerQueue.unadded :=
              (step_unadded hi hs).mem_iff.mpr
                (List.mem_append_left _ (mem_adds.mpr (hsub _ hadd')))
            exact .inr ⟨names_step hi hs hn hun hun', hadd'⟩
          · exact .inl hadded
      rcases hs.functors with ⟨hf, he⟩ | ⟨f, hf, he⟩ | ⟨f, hf, he, hran⟩
      · rw [functors] at hf
        refine .pending before after hf (he ▸ place) (hkeep before ?_ .inl)
        exact fun g hg => hf ▸ List.mem_append_left _ hg
      · rw [functors, List.append_assoc, List.cons_append] at hf
        refine .pending before (after ++ [f]) hf (he ▸ place) (hkeep before ?_ .inl)
        exact fun g hg => hf ▸ List.mem_append_left _ hg
      · rw [functors] at hf
        cases before with
        | nil =>
            obtain ⟨rfl, -⟩ := List.cons.inj hf
            have hadded := announced.resolve_right fun h => List.not_mem_nil h.2
            exact .heard (hran.gone hi.queue hi.added hadded)
        | cons g before =>
            obtain ⟨rfl, htail⟩ := List.cons.inj hf
            refine .pending before after htail.symm ?_ (hkeep before ?_ ?_)
            · rw [he, List.length_append, List.length_singleton]
              rw [List.length_cons] at place
              omega
            · exact fun g hg => htail ▸ List.mem_append_left _ hg
            · intro hmem
              rcases List.mem_cons.mp hmem with rfl | hmem
              · rcases announced with hadded | ⟨hn, -⟩
                · exact .inr (added_step hs hadded)
                · exact .inr (hran.added hn)
              · exact .inl hmem

/-- A functor that was just pushed is behind all that was announced. -/
theorem underway_of_push {s : TimerLoop Tid} (t : Tid) {timer sequence : Nat} (hi : s.Inv)
    (hann : Announced s (ActiveTimer.mk timer sequence)) :
    Underway { s with
      loop := (s.loop.push (.cancelInLoop (ActiveTimer.mk timer sequence))).setThread t .pushed }
      s.loop.pushed.length timer sequence :=
  .pending s.functors [] (EventLoop.functors_push _ s.loop) hi.ledger.pushed_length.symm hann

theorem heard_run {as : List (TimerLoopAction Tid)} {s s' : TimerLoop Tid}
    {n timer sequence : Nat} (hi : s.Inv) (h : s.Underway n timer sequence)
    (hr : machine.run as s = some s') : s'.Inv ∧ s'.Underway n timer sequence :=
  Machine.run_invariant (I := fun s => s.Inv ∧ s.Underway n timer sequence)
    (fun h hg he => ⟨step_inv h.1 hg he, heard_step h.1 (Step.of_exec h.1 hg he).1 h.2⟩)
    ⟨hi, h⟩ hr

theorem gone_run {as : List (TimerLoopAction Tid)} {s s' : TimerLoop Tid}
    {timer sequence : Nat} (hi : s.Inv) (h : s.timerQueue.Gone timer sequence)
    (hr : machine.run as s = some s') :
    s'.Inv ∧ s'.timerQueue.Gone timer sequence ∧
      ∃ runs, s'.timerQueue.ran = s.timerQueue.ran ++ runs ∧
        ∀ r ∈ runs, r.id ≠ ActiveTimer.mk timer sequence := by
  induction as generalizing s with
  | nil =>
      cases hr
      exact ⟨hi, h, [], (List.append_nil _).symm, by simp⟩
  | cons a as ih =>
      obtain ⟨s₁, hg, he, hr⟩ := Machine.run_cons.mp hr
      obtain ⟨h₁, first, hran₁, hne₁⟩ := gone_step hi (Step.of_exec hi hg he).1 h
      obtain ⟨hi', h', rest, hran, hne⟩ := ih (step_inv hi hg he) h₁ hr
      refine ⟨hi', h', first ++ rest, ?_, ?_⟩
      · rw [hran, hran₁, List.append_assoc]
      · intro r hr
        rcases List.mem_append.mp hr with hr | hr
        · exact hne₁ r hr
        · exact hne r hr

/-- A cancel that is called after the `addTimer` has returned is not lost,
unless it is called on the loop thread while the timer is still to be added,
or waits in the batch that is being run. Once it has been run, the timer is in
neither of the sets and never runs again. -/
theorem cancel_heard {s s₁ s₂ : TimerLoop Tid} {t : Option Tid} {timer sequence : Nat}
    {as : List (TimerLoopAction Tid)} (hr : machine.Reaches new s)
    (hret : ActiveTimer.mk timer sequence ∈ s.returned.map Prod.fst)
    (hcond : t = none → ActiveTimer.mk timer sequence ∈ s.timerQueue.added ∧
      ∀ e ∈ s.timerQueue.waiting, s.timerQueue.key e ≠ ActiveTimer.mk timer sequence)
    (hc : machine.step (.cancel t (ActiveTimer.mk timer sequence)) s = some s₁)
    (hrun : machine.run as s₁ = some s₂)
    (hexec : t = none ∨ s.loop.pushed.length < s₂.loop.executed.length) :
    (∀ e ∈ s₂.timerQueue.timers, s₂.timerQueue.key e ≠ ActiveTimer.mk timer sequence) ∧
      ActiveTimer.mk timer sequence ∉ s₂.timerQueue.activeTimers ∧
      ∀ as' s₃, machine.run as' s₂ = some s₃ →
        ∃ runs, s₃.timerQueue.ran = s₂.timerQueue.ran ++ runs ∧
          ∀ r ∈ runs, r.id ≠ ActiveTimer.mk timer sequence := by
  have hi := hr.invariant new_inv step_inv
  obtain ⟨hg, he⟩ := Machine.step_eq_some.mp hc
  have hi₁ := step_inv hi hg he
  have hgone : s₂.Inv ∧ s₂.timerQueue.Gone timer sequence := by
    cases (Step.of_exec hi hg he).1 with
    | cancel timerId q' step =>
        obtain ⟨hadded, hwait⟩ := hcond rfl
        have hgone := TimerQueue.gone_of_cancel hi.queue hi.added hadded step hwait
        obtain ⟨hi₂, hgone₂, -⟩ := gone_run hi₁ hgone hrun
        exact ⟨hi₂, hgone₂⟩
    | pushCancel t timerId =>
        obtain ⟨c, hmem, hid⟩ := List.mem_map.mp hret
        have hann := hi.returned c hmem
        rw [hid] at hann
        obtain ⟨hi₂, h₂⟩ := heard_run hi₁ (underway_of_push t hi hann) hrun
        cases h₂ with
        | heard gone => exact ⟨hi₂, gone⟩
        | pending before after functors place announced =>
            have hlt := hexec.resolve_left (by simp)
            omega
  obtain ⟨hi₂, hgone⟩ := hgone
  obtain ⟨htimers, hactive⟩ := hgone.out hi₂.queue
  exact ⟨htimers, hactive, fun as' s₃ hrun' => (gone_run hi₂ hgone hrun').2.2⟩

/-- Thread 0 adds a timer and is told its name; thread 1 adds another. -/
def twoAdded : List (TimerLoopAction Nat) :=
  [.newTimer (some 0) 8 5 0 false, .newTimer (some 1) 16 5 0 false,
    .addTimer (some 1) (ActiveTimer.mk 16 2) 1, .addTimer (some 0) (ActiveTimer.mk 8 1) 1,
    .loop (.wakeup 0), .addTimerReturn 0 (ActiveTimer.mk 8 1)]

/-- The loop runs the functors, of which there are so many. -/
def doPendingFunctors (n : Nat) : List (TimerLoopAction Nat) :=
  [.loop .loop, .loop .whileTest, .loop (.pollReturn [.wakeupChannel]), .loop .handleEvent,
    .loop .dispatchDone, .loop .swap] ++ List.replicate n (.runFunctor 2)

/-- Thread 0 cancels its timer before the loop has got to add it. -/
theorem cancel_heard_queued :
    ∃ s s₁ s₂ : TimerLoop Nat, machine.run twoAdded new = some s ∧
      machine.step (.cancel (some 0) (ActiveTimer.mk 8 1)) s = some s₁ ∧
      machine.run (doPendingFunctors 3) s₁ = some s₂ ∧
      ActiveTimer.mk 8 1 ∈ s₂.timerQueue.added ∧
      ActiveTimer.mk 16 2 ∈ s₂.timerQueue.activeTimers ∧
      ActiveTimer.mk 8 1 ∉ s₂.timerQueue.activeTimers ∧
      ∀ as' s₃, machine.run as' s₂ = some s₃ →
        ∃ runs, s₃.timerQueue.ran = s₂.timerQueue.ran ++ runs ∧
          ∀ r ∈ runs, r.id ≠ ActiveTimer.mk 8 1 := by
  obtain ⟨s, s₁, s₂, hr, hc, hrun, hret, hadded, hother, hexec⟩ :
      ∃ s s₁ s₂ : TimerLoop Nat, machine.run twoAdded new = some s ∧
        machine.step (.cancel (some 0) (ActiveTimer.mk 8 1)) s = some s₁ ∧
        machine.run (doPendingFunctors 3) s₁ = some s₂ ∧
        ActiveTimer.mk 8 1 ∈ s.returned.map Prod.fst ∧
        ActiveTimer.mk 8 1 ∈ s₂.timerQueue.added ∧
        ActiveTimer.mk 16 2 ∈ s₂.timerQueue.activeTimers ∧
        s.loop.pushed.length < s₂.loop.executed.length :=
    ⟨_, _, _, rfl, rfl, rfl, by decide, by decide, by decide, by decide⟩
  obtain ⟨-, hactive, hsilent⟩ :=
    cancel_heard ⟨twoAdded, hr⟩ hret (fun h => by cases h) hc hrun (.inr hexec)
  exact ⟨s, s₁, s₂, hr, hc, hrun, hadded, hother, hactive, hsilent⟩

/-- The loop thread learns the name and cancels: its cancel goes past the
`addTimerInLoop` in the queue, and the timer stays. -/
theorem cancel_overtakes_add :
    ¬ ∀ (s s₁ s₂ : TimerLoop Nat) (t : Option Nat) (timer sequence : Nat)
      (as : List (TimerLoopAction Nat)), machine.Reaches new s →
      ActiveTimer.mk timer sequence ∈ s.returned.map Prod.fst →
      (∀ r ∈ s.timerQueue.ran, r.id ≠ ActiveTimer.mk timer sequence) →
      machine.step (.cancel t (ActiveTimer.mk timer sequence)) s = some s₁ →
      machine.run as s₁ = some s₂ →
      (t = none ∨ s.loop.pushed.length < s₂.loop.executed.length) →
      ActiveTimer.mk timer sequence ∈ s₂.timerQueue.added →
      (∀ e ∈ s₂.timerQueue.timers, s₂.timerQueue.key e ≠ ActiveTimer.mk timer sequence) ∧
        ActiveTimer.mk timer sequence ∉ s₂.timerQueue.activeTimers ∧
        ∀ as' s₃, machine.run as' s₂ = some s₃ →
          ∃ runs, s₃.timerQueue.ran = s₂.timerQueue.ran ++ runs ∧
            ∀ r ∈ runs, r.id ≠ ActiveTimer.mk timer sequence := by
  intro hheard
  obtain ⟨s, s₁, s₂, hr, hc, hrun, hret, hran, hadded, hactive⟩ :
      ∃ s s₁ s₂ : TimerLoop Nat, machine.run twoAdded new = some s ∧
        machine.step (.cancel none (ActiveTimer.mk 8 1)) s = some s₁ ∧
        machine.run (doPendingFunctors 2) s₁ = some s₂ ∧
        ActiveTimer.mk 8 1 ∈ s.returned.map Prod.fst ∧ s.timerQueue.ran = [] ∧
        ActiveTimer.mk 8 1 ∈ s₂.timerQueue.added ∧
        ActiveTimer.mk 8 1 ∈ s₂.timerQueue.activeTimers :=
    ⟨_, _, _, rfl, rfl, rfl, by decide, rfl, by decide, by decide⟩
  obtain ⟨-, hout, -⟩ := hheard s s₁ s₂ none 8 1 _ ⟨twoAdded, hr⟩ hret
    (by rw [hran]; simp) hc hrun (.inl rfl) hadded
  exact hout hactive

end TimerLoop

end Libanet.Net
