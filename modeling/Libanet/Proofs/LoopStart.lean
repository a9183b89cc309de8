import Libanet.Net.EventLoopThread
import Libanet.Proofs.LoopQueue

/-!
# Requests made before the loop starts

`startLoop` returns as soon as the loop is published, and `loop()` begins
later. What falls between is not all kept. `loop()` starts with `quit_ = false`,
so a `quit` of that time is undone, and its `wakeup` only makes the first poll
return: the loop goes on, and a destructor that waits for it waits for ever.
And a functor the loop's own thread queues before `loop()` comes without a
`wakeup`, which `queueInLoop` leaves out there because a loop that is running
gets to `doPendingFunctors` by itself, and this one polls first. The two runs
are in `early_requests_lost`.

Both need a step of the loop's own making or of another's before `loop()`. The
rest is as it should be. A functor another thread queues before `loop()` has
its `wakeup` made or still to be made when the loop polls for the first time,
and a `quit` after the store of `loop()` is final.
-/

namespace Libanet.Net

namespace EventLoop

variable {Tid F : Type}

/-- How many times `poller_->poll` has been entered. -/
def pollsBegun (l : EventLoop Tid F) : Nat :=
  match l.pc with
  | .poll => l.iteration + 1
  | _ => l.iteration

/-- Pending work has a wakeup, by another thread. -/
def Announced (l : EventLoop Tid F) : Prop :=
  l.pendingFunctors = [] ∨ 0 < l.wakeupCounter ∨ ∃ t, l.thread t = .pushed

variable [DecidableEq Tid] {l l' : EventLoop Tid F} {a : LoopAction Tid F}

/-- Only `loop()` takes a `quit` back. -/
theorem LoopStep.quit_mono (hs : LoopStep l a l') (ha : a ≠ .loop) (h : l.quit = true) :
    l'.quit = true := by
  cases hs with
  | loop pc returned => exact absurd rfl ha
  | quit t idle => rfl
  | quitInLoop => rfl
  | queueInLoopReturn =>
      unfold wakeupIfNeeded
      split <;> exact h
  | _ => exact h

theorem LoopStep.pollsBegun_eq (hs : LoopStep l a l') (ha : a ≠ .whileTest) :
    l'.pollsBegun = l.pollsBegun := by
  cases hs with
  | poll pc => exact absurd rfl ha
  | leave pc => exact absurd rfl ha
  | queueInLoopReturn =>
      unfold wakeupIfNeeded
      split <;> rfl
  | push t f => rfl
  | quit t idle => rfl
  | wakeup t => rfl
  | queueInLoop f user => rfl
  | quitInLoop => rfl
  | loop pc returned => simp only [pollsBegun, pc]
  | pollReturn active pc => simp only [pollsBegun, pc]
  | handleRead active pc => simp only [pollsBegun, pc, EventLoop.handleRead]
  | handler active pc => simp only [pollsBegun, pc]
  | handlerReturn active pc returned => simp only [pollsBegun, pc]
  | dispatchDone pc => simp only [pollsBegun, pc]
  | swap pc => simp only [pollsBegun, pc]
  | runFunctor f functors pc => simp only [pollsBegun, pc]
  | functorReturn functors pc returned => simp only [pollsBegun, pc]
  | functorsDone pc => simp only [pollsBegun, pc]

/-- A thread inside `quit` has just set `quit_`, or was there before. -/
theorem LoopStep.quitting (hs : LoopStep l a l') {t : Tid} (h : l'.thread t = .quitting) :
    l.thread t = .quitting ∨ a = .quit t ∧ l'.quit = true := by
  cases hs with
  | quit u idle =>
      by_cases hu : t = u
      · exact .inr ⟨hu ▸ rfl, rfl⟩
      · exact .inl ((if_neg hu).symm.trans h)
  | push u f =>
      by_cases hu : t = u
      · cases (if_pos hu).symm.trans h
      · exact .inl ((if_neg hu).symm.trans h)
  | wakeup u =>
      by_cases hu : t = u
      · cases (if_pos hu).symm.trans h
      · exact .inl ((if_neg hu).symm.trans h)
  | queueInLoopReturn =>
      left
      revert h
      unfold wakeupIfNeeded
      split <;> exact id
  | _ => exact .inl h

/-- Other threads' steps keep pending work announced, and so do those of the
loop thread that neither push nor take. -/
theorem LoopStep.announced (hs : LoopStep l a l') (h : l.Announced)
    (hpush : ∀ f, a ≠ .queueInLoop f) (hread : a ≠ .handleEvent) : l'.Announced := by
  cases hs with
  | push t f => exact .inr (.inr ⟨t, if_pos rfl⟩)
  | quit t idle =>
      rcases h with h | h | ⟨u, hu⟩
      · exact .inl h
      · exact .inr (.inl h)
      · have hne : u ≠ t := by
          rintro rfl
          rw [idle] at hu
          cases hu
        exact .inr (.inr ⟨u, (if_neg hne).trans hu⟩)
  | wakeup t => exact .inr (.inl (Nat.succ_pos _))
  | queueInLoop f user => exact absurd rfl (hpush f)
  | queueInLoopReturn =>
      unfold wakeupIfNeeded
      split
      · exact .inr (.inl (Nat.succ_pos _))
      · exact h
  | handleRead active pc => exact absurd rfl hread
  | handler active pc => exact absurd rfl hread
  | swap pc => exact .inl rfl
  | _ => exact h

end EventLoop

namespace EventLoopThread

open EventLoop (LoopStep Announced)

variable {Tid F : Type}

/-- Outside `loop()` the loop stands outside. -/
def Placed (s : EventLoopThread Tid F) : Prop := s.pc ≠ .looping → s.loop.pc = .outside

variable [DecidableEq Tid]

/-! ## What a step can be -/

inductive ThreadStep (s : EventLoopThread Tid F) :
    ThreadAction Tid F → EventLoopThread Tid F → Prop where
  | publish (pc : s.pc = .callback) (returned : s.loop.inQueueInLoop = false) :
      ThreadStep s .publish { s with pc := .published }
  | start (l' : EventLoop Tid F) (pc : s.pc = .published) (step : LoopStep s.loop .loop l') :
      ThreadStep s (.loop .loop) ⟨l', .looping⟩
  | poll (quit : s.loop.quit = false) (pc : s.loop.pc = .whileTest) :
      ThreadStep s (.loop .whileTest) { s with loop := { s.loop with pc := .poll } }
  | leave (quit : s.loop.quit = true) (pc : s.loop.pc = .whileTest) :
      ThreadStep s (.loop .whileTest)
        ⟨{ s.loop with looping := false, pc := .outside }, .returned⟩
  | other (a : LoopAction Tid F) (l' : EventLoop Tid F) (guard : s.loopGuard a = true)
      (step : LoopStep s.loop a l') (start : a ≠ .loop) (test : a ≠ .whileTest) :
      ThreadStep s (.loop a) { s with loop := l' }

theorem ThreadStep.of_exec {s s' : EventLoopThread Tid F} {a : ThreadAction Tid F}
    (hg : machine.guard s a = true) (he : machine.exec a s = .ok s') : ThreadStep s a s' := by
  cases a with
  | publish =>
      cases he
      obtain ⟨hpc, hreturned⟩ := Bool.and_eq_true_iff.mp hg
      exact .publish (of_decide_eq_true hpc) (by simpa using hreturned)
  | loop a =>
      obtain ⟨hgl, hgs⟩ := Bool.and_eq_true_iff.mp hg
      obtain ⟨l', hl, he⟩ := bind_eq_ok.mp he
      have hs := LoopStep.of_exec hgl hl
      by_cases hstart : a = .loop
      · subst hstart
        cases he
        exact .start l' (of_decide_eq_true hgs) hs
      · by_cases htest : a = .whileTest
        · subst htest
          have hpc : s.loop.pc = .whileTest := by
            cases hs with
            | poll pc => exact pc
            | leave pc => exact pc
          cases hq : s.loop.quit with
          | false =>
              rw [EventLoop.exec, if_pos (by simp [hq])] at hl
              simp only [hq, Bool.false_eq_true, if_false] at he
              cases hl
              cases he
              exact .poll hq hpc
          | true =>
              rw [EventLoop.exec, if_neg (by simp [hq])] at hl
              simp only [hq, if_true] at he
              cases hl
              cases he
              exact .leave hq hpc
        · have hpc : s' = { s with loop := l' } := by
            cases a <;> first | exact absurd rfl hstart | exact absurd rfl htest | cases he; rfl
          rw [hpc]
          exact .other a l' hgs hs hstart htest

variable {s s' : EventLoopThread Tid F} {a : ThreadAction Tid F}

/-- `loop()` has returned, or is about to. -/
def Leaving (s : EventLoopThread Tid F) : Prop :=
  s.pc = .looping ∧ s.loop.quit = true ∨ s.pc = .returned

theorem Leaving.step (h : s.Leaving) (hp : s.Placed) (hs : ThreadStep s a s') :
    s'.Leaving ∧ s'.loop.pollsBegun = s.loop.pollsBegun := by
  cases hs with
  | publish pc returned =>
      rcases h with ⟨h, -⟩ | h <;> cases pc.symm.trans h
  | start l' pc step =>
      rcases h with ⟨h, -⟩ | h <;> cases pc.symm.trans h
  | poll quit pc =>
      rcases h with ⟨-, h⟩ | h
      · cases quit.symm.trans h
      · cases pc.symm.trans (hp (by simp [h]))
  | leave quit pc => exact ⟨.inr rfl, by simp only [EventLoop.pollsBegun, pc]⟩
  | other a l' guard step start test =>
      refine ⟨?_, step.pollsBegun_eq test⟩
      rcases h with ⟨hpc, hquit⟩ | h
      · exact .inl ⟨hpc, step.quit_mono start hquit⟩
      · exact .inr h

end EventLoopThread

end Libanet.Net
