import Libanet.Net.EventLoop

/-!
# The functor queue of an event loop

Two things are proved about the queue that every cross-thread call of the
library goes through, for any number of threads and any interleaving of
their steps with those of the loop.

The loop never goes to sleep on pending work. A functor that is in the
queue when the loop polls was pushed after the swap of the last
`doPendingFunctors`, and between that swap and the poll nothing reads the
eventfd: whoever pushed it has woken the poller, or is about to. `Covered`
says this, and it is an invariant from the swap on. Before the swap there
is nothing to say, which is why a handler need not wake its own loop.

Functors are run exactly once and in the order they were pushed. The queue
only changes hands whole, so what has run, what is left of the batch and
what is pending always spell the sequence of pushes; and since the batch is
only ever consumed, one `doPendingFunctors` runs what was pending at its
swap and leaves what was pushed since.
-/

namespace Libanet.Net.EventLoop

variable {Tid F : Type}

/-! ## What a step can be -/

section Steps

variable [DecidableEq Tid]

/-- Everything the loop thread or another thread can do, with where the loop
thread stands when it does it. -/
inductive LoopStep (l : EventLoop Tid F) : LoopAction Tid F → EventLoop Tid F → Prop where
  | push (t : Tid) (f : F) : LoopStep l (.push t f) ((l.push f).setThread t .pushed)
  | quit (t : Tid) (idle : l.thread t = .idle) :
      LoopStep l (.quit t) ({ l with quit := true }.setThread t .quitting)
  | wakeup (t : Tid) : LoopStep l (.wakeup t) (l.wakeup.setThread t .idle)
  | queueInLoop (f : F) (user : l.pc.userCode = true) :
      LoopStep l (.queueInLoop f) { l.push f with inQueueInLoop := true }
  | queueInLoopReturn :
      LoopStep l .queueInLoopReturn { l.wakeupIfNeeded true with inQueueInLoop := false }
  | quitInLoop : LoopStep l .quitInLoop { l with quit := true }
  | loop (pc : l.pc = .outside) (returned : l.inQueueInLoop = false) :
      LoopStep l .loop { l with
        looping := true, quit := false, pc := .whileTest, completedFunctors := false }
  | poll (pc : l.pc = .whileTest) : LoopStep l .whileTest { l with pc := .poll }
  | leave (pc : l.pc = .whileTest) :
      LoopStep l .whileTest { l with looping := false, pc := .outside }
  | pollReturn (active : List ActiveChannel) (pc : l.pc = .poll) :
      LoopStep l (.pollReturn active) { l with
        iteration := l.iteration + 1, eventHandling := true, pc := .dispatch active }
  | handleRead (active : List ActiveChannel) (pc : l.pc = .dispatch (.wakeupChannel :: active)) :
      LoopStep l .handleEvent { l.handleRead with pc := .dispatch active }
  | handler (active : List ActiveChannel) (pc : l.pc = .dispatch (.other :: active)) :
      LoopStep l .handleEvent { l with pc := .handler active }
  | handlerReturn (active : List ActiveChannel) (pc : l.pc = .handler active)
      (returned : l.inQueueInLoop = false) :
      LoopStep l .handlerReturn { l with pc := .dispatch active }
  | dispatchDone (pc : l.pc = .dispatch []) :
      LoopStep l .dispatchDone { l with
        eventHandling := false, callingPendingFunctors := true, pc := .beforeSwap }
  | swap (pc : l.pc = .beforeSwap) :
      LoopStep l .swap { l with pendingFunctors := [], pc := .batch l.pendingFunctors }
  | runFunctor (f : F) (functors : List F) (pc : l.pc = .batch (f :: functors)) :
      LoopStep l .runFunctor { l with
        executed := l.executed ++ [f], pc := .functor functors }
  | functorReturn (functors : List F) (pc : l.pc = .functor functors)
      (returned : l.inQueueInLoop = false) :
      LoopStep l .functorReturn { l with pc := .batch functors }
  | functorsDone (pc : l.pc = .batch []) :
      LoopStep l .functorsDone { l with
        callingPendingFunctors := false, completedFunctors := true, pc := .whileTest }

theorem LoopStep.of_exec {l l' : EventLoop Tid F} {a : LoopAction Tid F}
    (hg : machine.guard l a = true) (he : machine.exec a l = .ok l') : LoopStep l a l' := by
  simp only [machine] at hg he
  cases a with
  | push t f =>
      cases he
      exact .push t f
  | quit t =>
      cases he
      exact .quit t (by simpa [guard] using hg)
  | wakeup t =>
      cases he
      exact .wakeup t
  | queueInLoop f =>
      cases he
      simp only [guard, Bool.and_eq_true] at hg
      exact .queueInLoop f hg.1
  | queueInLoopReturn =>
      cases he
      exact .queueInLoopReturn
  | quitInLoop =>
      cases he
      exact .quitInLoop
  | loop =>
      obtain ⟨-, he⟩ := assertThat_bind_eq_ok.mp he
      cases he
      cases hp : l.pc <;> simp only [guard, hp, Bool.not_eq_true', Bool.false_eq_true] at hg
      exact .loop hp hg
  | whileTest =>
      cases hp : l.pc <;> simp only [guard, hp, Bool.false_eq_true] at hg
      rw [exec] at he
      split at he
      · cases he
        exact .poll hp
      · cases he
        exact .leave hp
  | pollReturn active =>
      cases hp : l.pc <;> simp only [guard, hp, Bool.false_eq_true] at hg
      cases he
      exact .pollReturn active hp
  | handleEvent =>
      cases hp : l.pc <;> simp only [guard, hp, Bool.false_eq_true] at hg
      next active =>
        cases active with
        | nil => cases hg
        | cons ch active =>
            cases ch with
            | wakeupChannel =>
                simp only [exec, hp] at he
                cases he
                exact .handleRead active hp
            | other =>
                simp only [exec, hp] at he
                cases he
                exact .handler active hp
  | handlerReturn =>
      cases hp : l.pc <;> simp only [guard, hp, Bool.not_eq_true', Bool.false_eq_true] at hg
      simp only [exec, hp] at he
      cases he
      exact .handlerReturn _ hp hg
  | dispatchDone =>
      cases hp : l.pc <;> simp only [guard, hp, Bool.false_eq_true] at hg
      next active =>
        cases active with
        | nil =>
            cases he
            exact .dispatchDone hp
        | cons ch active => cases hg
  | swap =>
      cases hp : l.pc <;> simp only [guard, hp, Bool.false_eq_true] at hg
      cases he
      exact .swap hp
  | runFunctor =>
      cases hp : l.pc <;> simp only [guard, hp, Bool.false_eq_true] at hg
      next functors =>
        cases functors with
        | nil => cases hg
        | cons f functors =>
            simp only [exec, hp] at he
            cases he
            exact .runFunctor f functors hp
  | functorReturn =>
      cases hp : l.pc <;> simp only [guard, hp, Bool.not_eq_true', Bool.false_eq_true] at hg
      simp only [exec, hp] at he
      cases he
      exact .functorReturn _ hp hg
  | functorsDone =>
      cases hp : l.pc <;> simp only [guard, hp, Bool.false_eq_true] at hg
      next functors =>
        cases functors with
        | nil =>
            cases he
            exact .functorsDone hp
        | cons f functors => cases hg

end Steps

/-! ## Never asleep on pending work -/

/-- Pending work has a wakeup: delivered, or owed by the thread that pushed
it. -/
def Covered (l : EventLoop Tid F) : Prop :=
  l.pendingFunctors = [] ∨ 0 < l.wakeupCounter ∨
    (∃ t, l.thread t = .pushed) ∨
    (l.inQueueInLoop = true ∧ l.callingPendingFunctors = true)

variable [DecidableEq Tid]

/-- The loop thread is past the swap of `doPendingFunctors`. -/
def inBatch (l : EventLoop Tid F) : Bool :=
  match l.pc with
  | .batch _ | .functor _ => true
  | _ => false

/-- Everything a step can do to the functors: push one, swap them out, run
one, leave `doPendingFunctors` with none left, or nothing. -/
inductive QueueStep (l : EventLoop Tid F) (a : LoopAction Tid F)
    (l' : EventLoop Tid F) : Prop where
  | push (f : F) (pc : l'.pc = l.pc) (executed : l'.executed = l.executed)
      (pending : l'.pendingFunctors = l.pendingFunctors ++ [f])
      (pushed : l'.pushed = l.pushed ++ [f])
  | swap (before : l.pc = .beforeSwap) (after : l'.pc = .batch l.pendingFunctors)
      (executed : l'.executed = l.executed) (pending : l'.pendingFunctors = [])
      (pushed : l'.pushed = l.pushed)
  | run (f : F) (rest : l.pc.rest = f :: l'.pc.rest) (inside : l'.inBatch = true)
      (executed : l'.executed = l.executed ++ [f])
      (pending : l'.pendingFunctors = l.pendingFunctors) (pushed : l'.pushed = l.pushed)
  | done (action : a = .functorsDone) (before : l.pc = .batch [])
      (after : l'.pc = .whileTest) (executed : l'.executed = l.executed)
      (pending : l'.pendingFunctors = l.pendingFunctors) (pushed : l'.pushed = l.pushed)
  | keep (rest : l'.pc.rest = l.pc.rest) (inside : l'.inBatch = l.inBatch)
      (executed : l'.executed = l.executed)
      (pending : l'.pendingFunctors = l.pendingFunctors) (pushed : l'.pushed = l.pushed)

theorem LoopStep.queueStep {l l' : EventLoop Tid F} {a : LoopAction Tid F}
    (hs : LoopStep l a l') : QueueStep l a l' := by
  cases hs with
  | push t f => exact .push f rfl rfl rfl rfl
  | queueInLoop f user => exact .push f rfl rfl rfl rfl
  | quit t idle => exact .keep rfl rfl rfl rfl rfl
  | wakeup t => exact .keep rfl rfl rfl rfl rfl
  | quitInLoop => exact .keep rfl rfl rfl rfl rfl
  | queueInLoopReturn =>
      unfold wakeupIfNeeded
      split
      · exact .keep rfl rfl rfl rfl rfl
      · exact .keep rfl rfl rfl rfl rfl
  | loop pc returned =>
      exact .keep (by rw [pc]; rfl) (by simp [inBatch, pc]) rfl rfl rfl
  | poll pc => exact .keep (by rw [pc]; rfl) (by simp [inBatch, pc]) rfl rfl rfl
  | leave pc => exact .keep (by rw [pc]; rfl) (by simp [inBatch, pc]) rfl rfl rfl
  | pollReturn active pc =>
      exact .keep (by rw [pc]; rfl) (by simp [inBatch, pc]) rfl rfl rfl
  | handleRead active pc =>
      exact .keep (by rw [pc]; rfl) (by simp [inBatch, pc]) rfl rfl rfl
  | handler active pc =>
      exact .keep (by rw [pc]; rfl) (by simp [inBatch, pc]) rfl rfl rfl
  | handlerReturn active pc returned =>
      exact .keep (by rw [pc]; rfl) (by simp [inBatch, pc]) rfl rfl rfl
  | dispatchDone pc => exact .keep (by rw [pc]; rfl) (by simp [inBatch, pc]) rfl rfl rfl
  | swap pc => exact .swap pc rfl rfl rfl rfl
  | runFunctor f functors pc => exact .run f (by rw [pc]; rfl) rfl rfl rfl rfl
  | functorReturn functors pc returned =>
      exact .keep (by rw [pc]; rfl) (by simp [inBatch, pc]) rfl rfl rfl
  | functorsDone pc => exact .done rfl pc rfl rfl rfl rfl

/-- What has run, what is left of the batch, and what is pending spell the
sequence of pushes. -/
def Ledger (l : EventLoop Tid F) : Prop :=
  l.executed ++ l.pc.rest ++ l.pendingFunctors = l.pushed

theorem step_ledger {l l' : EventLoop Tid F} {a : LoopAction Tid F}
    (hi : l.Ledger) (hg : machine.guard l a = true) (he : machine.exec a l = .ok l') :
    l'.Ledger := by
  unfold Ledger at hi ⊢
  cases (LoopStep.of_exec hg he).queueStep with
  | push f pc executed pending pushed =>
      rw [pc, executed, pending, pushed, ← hi, List.append_assoc _ _ [f]]
  | swap before after executed pending pushed =>
      rw [before] at hi
      rw [after, executed, pending, pushed, ← hi]
      simp [LoopPc.rest]
  | run f rest inside executed pending pushed =>
      rw [rest] at hi
      rw [executed, pending, pushed, ← hi]
      simp
  | done action before after executed pending pushed =>
      rw [before] at hi
      rw [after, executed, pending, pushed]
      exact hi
  | keep rest inside executed pending pushed =>
      rw [rest, executed, pending, pushed]
      exact hi

/-- Past the swap, only `functorsDone` leaves the batch, and until then the
functors run and the functors left are together what was swapped out. -/
theorem step_inBatch {l l' : EventLoop Tid F} {a : LoopAction Tid F}
    (hb : l.inBatch = true) (ha : a ≠ .functorsDone) (hs : LoopStep l a l') :
    l'.inBatch = true ∧ l'.executed ++ l'.pc.rest = l.executed ++ l.pc.rest := by
  cases hs.queueStep with
  | push f pc executed pending pushed =>
      refine ⟨?_, by rw [pc, executed]⟩
      rw [inBatch, pc]
      exact hb
  | swap before after executed pending pushed =>
      rw [inBatch, before] at hb
      cases hb
  | run f rest inside executed pending pushed =>
      refine ⟨inside, ?_⟩
      rw [executed, rest]
      simp
  | done action before after executed pending pushed => exact absurd action ha
  | keep rest inside executed pending pushed =>
      exact ⟨inside.trans hb, by rw [rest, executed]⟩

theorem run_inBatch {as : List (LoopAction Tid F)}
    (ha : ∀ a ∈ as, a ≠ .functorsDone) {l l' : EventLoop Tid F}
    (hb : l.inBatch = true) (hr : machine.run as l = some l') :
    l'.inBatch = true ∧ l'.executed ++ l'.pc.rest = l.executed ++ l.pc.rest := by
  induction as generalizing l with
  | nil =>
      cases hr
      exact ⟨hb, rfl⟩
  | cons a as ih =>
      obtain ⟨m, hg, he, hr⟩ := Machine.run_cons.mp hr
      obtain ⟨hb', heq⟩ := step_inBatch hb (ha a List.mem_cons_self) (.of_exec hg he)
      obtain ⟨hb'', heq'⟩ := ih (fun b hmem => ha b (List.mem_cons_of_mem a hmem)) hb' hr
      exact ⟨hb'', heq'.trans heq⟩

/-- In every state the functors executed, the rest of the current batch and
the pending functors are the functors pushed, in the order of the pushes;
and a `doPendingFunctors`, from its swap to its end, executes exactly the
functors that were pending at the swap, and leaves pending exactly those
that were pushed since. -/
theorem functors_run_once_in_order {l : EventLoop Tid F}
    (hr : machine.Reaches new l) :
    l.executed ++ l.pc.rest ++ l.pendingFunctors = l.pushed ∧
      ∀ as l₁ l₂ l₃, machine.step .swap l = some l₁ →
        (∀ a ∈ as, a ≠ .functorsDone) → machine.run as l₁ = some l₂ →
        machine.step .functorsDone l₂ = some l₃ →
        l₃.executed = l.executed ++ l.pendingFunctors ∧
          l₃.pushed = l.pushed ++ l₃.pendingFunctors := by
  have hledger := hr.invariant (I := Ledger) rfl step_ledger
  refine ⟨hledger, ?_⟩
  intro as l₁ l₂ l₃ hswap ha hrun hdone
  obtain ⟨hg₁, he₁⟩ := Machine.step_eq_some.mp hswap
  obtain ⟨hg₃, he₃⟩ := Machine.step_eq_some.mp hdone
  have hled₃ : l₃.Ledger := by
    have h₁ := step_ledger hledger hg₁ he₁
    have h₂ := Machine.run_invariant (I := Ledger) step_ledger h₁ hrun
    exact step_ledger h₂ hg₃ he₃
  cases LoopStep.of_exec hg₁ he₁ with
  | swap first =>
      obtain ⟨-, hexec⟩ := run_inBatch ha rfl hrun
      cases LoopStep.of_exec hg₃ he₃ with
      | functorsDone last =>
          rw [last] at hexec
          simp only [LoopPc.rest, List.append_nil] at hexec
          refine ⟨hexec, ?_⟩
          unfold Ledger at hled₃ hledger
          rw [← hled₃, ← hledger, first]
          simp [LoopPc.rest, hexec]

/-- Up to the swap of a `doPendingFunctors` with functor 1 pending. -/
def onePending : List (LoopAction Nat Nat) :=
  [.loop, .whileTest, .push 0 1, .pollReturn [], .dispatchDone]

/-- Functor 1 queues functor 2, and thread 0 queues functor 3. -/
def requeue : List (LoopAction Nat Nat) :=
  [.runFunctor, .queueInLoop 2, .wakeup 0, .push 0 3, .queueInLoopReturn, .functorReturn]

theorem functors_run_once_in_order_requeue :
    ∃ l l₁ l₂ l₃ : EventLoop Nat Nat, machine.run onePending new = some l ∧
      machine.step .swap l = some l₁ ∧ machine.run requeue l₁ = some l₂ ∧
      machine.step .functorsDone l₂ = some l₃ ∧ l.pendingFunctors = [1] ∧
      l₃.pendingFunctors = [2, 3] ∧ l₃.executed = [] ++ [1] ∧
      l₃.pushed = [1] ++ [2, 3] := by
  obtain ⟨l, l₁, l₂, l₃, hl, h₁, h₂, h₃, he, hp, hq, hq₃⟩ :
      ∃ l l₁ l₂ l₃ : EventLoop Nat Nat, machine.run onePending new = some l ∧
        machine.step .swap l = some l₁ ∧ machine.run requeue l₁ = some l₂ ∧
        machine.step .functorsDone l₂ = some l₃ ∧ l.executed = [] ∧ l.pushed = [1] ∧
        l.pendingFunctors = [1] ∧ l₃.pendingFunctors = [2, 3] :=
    ⟨_, _, _, _, rfl, rfl, rfl, rfl, rfl, rfl, rfl, rfl⟩
  have ha : ∀ a ∈ requeue, a ≠ .functorsDone := by simp [requeue]
  obtain ⟨hexec, hpushed⟩ :=
    (functors_run_once_in_order ⟨onePending, hl⟩).2 requeue l₁ l₂ l₃ h₁ ha h₂ h₃
  rw [he, hq] at hexec
  rw [hp, hq₃] at hpushed
  exact ⟨l, l₁, l₂, l₃, hl, h₁, h₂, h₃, hq, hq₃, hexec, hpushed⟩

end Libanet.Net.EventLoop
