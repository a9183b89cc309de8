import Libanet.Proofs.TimerCancel

/-!
# Whose sequence number `addTimer` reads

On a thread other than the loop's, `addTimer` pushes its timer first and makes
the `TimerId` afterwards, with `timer->sequence()`. From the push on the timer
is the loop's, which may have added it, fired it and deleted it by then: the
pointer is followed to a timer that is not there any more, or to another one
that has been allocated in its place. These are the two halves of
`addTimer_reads_other`.

Only two pieces of code delete timers. `cancelInLoop` deletes the one it is
given, and `reset` those of the batch that do not repeat or have been
cancelled. As long as neither gets hold of a timer whose `addTimer` is yet to
read it, every call is told the name of the timer it made. A timer that
repeats, in particular, stays where it is through all its expirations.
-/

namespace Libanet.Net

namespace TimerQueue

open TimerLoop (Names addr)

variable {q q' : TimerQueue} {a : TimerAction}

/-- The step deletes the timer of that name. -/
def deletes (q : TimerQueue) (timerId : ActiveTimer) : TimerAction → Bool
  | .cancelInLoop timerId' => timerId' = timerId
  | .handleReadEnd _ => q.batch.any fun e => q.key e = timerId && (q.survivor e).isNone
  | _ => false

theorem key_of_names {timerId : ActiveTimer} {t : Timer} {e : Entry}
    (ht : q.heap (addr timerId) = some t)
    (hid : timerId = ActiveTimer.mk (addr timerId) t.sequence) (he : e.timer = addr timerId) :
    q.key e = timerId := by
  rw [← e.mk_when_timer, he, Rep.key_eq ht, ← hid]

/-- A timer that is not deleted keeps its place and its name. -/
theorem TimerStep.names (hs : TimerStep q a q') {timerId : ActiveTimer} (h : Names q timerId)
    (hkeep : q.deletes timerId a = false) : Names q' timerId := by
  obtain ⟨t, ht, hid⟩ := h
  cases hs with
  | newTimer c w interval r free =>
      have hne : addr timerId ≠ c := by
        rintro rfl
        rw [free] at ht
        cases ht
      exact ⟨t, (if_neg hne).trans ht, hid⟩
  | add c clock u unadded heap => split <;> exact ⟨t, ht, hid⟩
  | cancelActive e mem =>
      have hne : addr timerId ≠ e.timer :=
        fun he => of_decide_eq_false hkeep (key_of_names ht hid he.symm)
      exact ⟨t, (if_neg hne).trans ht, hid⟩
  | cancelOther k out => exact ⟨t, ht, hid⟩
  | handleReadBegin now active idle => exact ⟨t, ht, hid⟩
  | run now started rest e u phase heap => exact ⟨t, ht, hid⟩
  | handleReadEnd now clock started q₁ phase reset =>
      rw [rearm_eq]
      by_cases hmem : addr timerId ∈ started.map Entry.timer
      · obtain ⟨e, he, hea⟩ := List.mem_map.mp hmem
        have hbatch : e ∈ q.batch := by simpa [TimerQueue.batch, phase] using he
        -- It is among those that are restarted.
        have hsurvivor : q.survivor e ≠ none := by
          intro hnone
          have hkey := key_of_names ht hid hea
          have hall := List.any_eq_false.mp hkeep e hbatch
          simp [hkey, hnone] at hall
        obtain ⟨u, hu⟩ := Option.ne_none_iff_exists'.mp hsurvivor
        have hheap := (survivor_eq_some.mp hu).1
        rw [hea] at hheap
        cases ht.symm.trans hheap
        refine ⟨t.restart now, ?_, ?_⟩
        · have hreset := reset.batch e he
          rw [hea] at hreset
          exact hreset.trans (congrArg (Option.map (Timer.restart now)) hu)
        · rw [Timer.restart_sequence]
          exact hid
      · exact ⟨t, (reset.other _ hmem).trans ht, hid⟩
  | fires d armed => exact ⟨t, ht, hid⟩

end TimerQueue

namespace TimerLoop

variable {Tid : Type}

open TimerQueue (TimerStep)

/-- What the step makes the loop thread do to the timers, as far as it may
delete some. -/
def timerAction (s : TimerLoop Tid) : TimerLoopAction Tid → Option TimerAction
  | .cancel none timerId => some (.cancelInLoop timerId)
  | .runFunctor _ =>
      match s.loop.pc with
      | .batch (.cancelInLoop timerId :: _) => some (.cancelInLoop timerId)
      | _ => none
  | .timer a => some a
  | _ => none

/-- No timer is deleted whose `addTimer` has pushed it and not returned. -/
def sparesQueued (s : TimerLoop Tid) (a : TimerLoopAction Tid) : Bool :=
  (s.timerAction a).all fun b => s.queued.all fun c => !s.timerQueue.deletes c.2 b

variable {s s' : TimerLoop Tid}

theorem sparesQueued_elim {a : TimerLoopAction Tid} {b : TimerAction}
    (h : s.sparesQueued a = true) (hb : s.timerAction a = some b) {c : Tid × ActiveTimer}
    (hc : c ∈ s.queued) : s.timerQueue.deletes c.2 b = false := by
  rw [sparesQueued, hb] at h
  exact Bool.not_eq_true' _ ▸ List.all_eq_true.mp h c hc

variable [DecidableEq Tid] {a : TimerLoopAction Tid}

theorem queued_names_step (hi : s.Inv) (hs : Step s a s') (hcond : s.sparesQueued a = true)
    (h : ∀ c ∈ s.queued, Names s.timerQueue c.2) : ∀ c ∈ s'.queued, Names s'.timerQueue c.2 := by
  cases hs with
  | loop a l' step move ledger back => exact h
  | newTimer t timer w i r free =>
      have hs : TimerStep s.timerQueue (.newTimer timer w i r) _ := .newTimer timer w i r free
      exact fun c hc => hs.names (h c hc) rfl
  | add timerId r clock q' mem step => exact fun c hc => step.names (h c hc) rfl
  | pushAdd t timerId clock mem =>
      intro c hc
      rcases List.mem_append.mp hc with hc | hc
      · exact h c hc
      · rw [List.mem_singleton.mp hc]
        exact hi.created _ mem
  | addTimerReturn t timerId r mem => exact fun c hc => h c (List.mem_of_mem_erase hc)
  | cancel timerId q' step =>
      exact fun c hc => step.names (h c hc) (sparesQueued_elim hcond rfl hc)
  | pushCancel t timerId => exact h
  | runAdd timer fs clock q' pc step => exact fun c hc => step.names (h c hc) rfl
  | runCancel timerId fs clock q' pc idle step =>
      have hb : s.timerAction (.runFunctor clock) = some (.cancelInLoop timerId) := by
        simp only [timerAction, pc]
      exact fun c hc => step.names (h c hc) (sparesQueued_elim hcond hb hc)
  | timer a q' step guard =>
      exact fun c hc => step.names (h c hc) (sparesQueued_elim hcond rfl hc)

theorem deref_of_names {q : TimerQueue} {timerId : ActiveTimer} {t : Timer} (h : Names q timerId)
    (ht : q.deref (addr timerId) = .ok t) : ActiveTimer.mk (addr timerId) t.sequence = timerId := by
  obtain ⟨u, hu, hid⟩ := h
  cases hu.symm.trans (TimerQueue.deref_eq_ok.mp ht)
  exact hid.symm

/-- What `addTimer` answers is read from the timer it made. -/
theorem returned_step (hi : s.Inv) (hg : machine.guard s a = true)
    (he : machine.exec a s = .ok s') (hqueued : ∀ c ∈ s.queued, Names s.timerQueue c.2)
    (h : ∀ c ∈ s.returned, c.2 = c.1) : ∀ c ∈ s'.returned, c.2 = c.1 := by
  have hlast : ∀ {timerId r : ActiveTimer}, r = timerId →
      ∀ c ∈ s.returned ++ [(timerId, r)], c.2 = c.1 := by
    intro timerId r heq c hc
    rcases List.mem_append.mp hc with hc | hc
    · exact h c hc
    · rw [List.mem_singleton.mp hc]
      exact heq
  cases (Step.of_exec hi hg he).1 with
  | loop a l' step move ledger back => exact h
  | newTimer t timer w i r free => exact h
  | add timerId r clock q' mem step =>
      obtain ⟨q, -, he⟩ := bind_eq_ok.mp he
      obtain ⟨t, ht, he⟩ := bind_eq_ok.mp he
      have heq := Except.ok.inj he
      have hq : q = q' := congrArg timerQueue heq
      have hr := List.append_cancel_left (congrArg returned heq)
      subst hq
      obtain ⟨-, rfl⟩ := Prod.mk.inj (List.cons.inj hr).1
      exact hlast (deref_of_names (step.names (hi.created _ mem) rfl) ht)
  | pushAdd t timerId clock mem => exact h
  | addTimerReturn t timerId r mem =>
      obtain ⟨u, hu, he⟩ := bind_eq_ok.mp he
      have hr := List.append_cancel_left (congrArg returned (Except.ok.inj he))
      obtain ⟨-, rfl⟩ := Prod.mk.inj (List.cons.inj hr).1
      exact hlast (deref_of_names (hqueued _ mem) hu)
  | cancel timerId q' step => exact h
  | pushCancel t timerId => exact h
  | runAdd timer fs clock q' pc step => exact h
  | runCancel timerId fs clock q' pc idle step => exact h
  | timer a q' step guard => exact h

/-- As long as no timer is deleted whose `addTimer` is yet to read it, the
pointer of every call that is under way is to the timer the call made, every
call that has returned has answered the name of that timer, and no call that
is to return follows a dangling pointer. -/
theorem addTimer_returns_own_id (hr : (machine.restrict sparesQueued).Reaches new s) :
    (∀ c ∈ s.created, Names s.timerQueue c.2) ∧ (∀ c ∈ s.queued, Names s.timerQueue c.2) ∧
      (∀ c ∈ s.returned, c.2 = c.1) ∧
      ∀ t timerId, machine.guard s (.addTimerReturn t timerId) = true →
        ∃ s', machine.exec (.addTimerReturn t timerId) s = .ok s' ∧
          s'.returned = s.returned ++ [(timerId, timerId)] := by
  obtain ⟨hi, hqueued, hreturned⟩ : s.Inv ∧ (∀ c ∈ s.queued, Names s.timerQueue c.2) ∧
      ∀ c ∈ s.returned, c.2 = c.1 := by
    refine hr.invariant (I := fun s => s.Inv ∧ (∀ c ∈ s.queued, Names s.timerQueue c.2) ∧
      ∀ c ∈ s.returned, c.2 = c.1) ⟨new_inv, by simp [new], by simp [new]⟩ ?_
    rintro s s' a ⟨hi, hqueued, hreturned⟩ hg he
    obtain ⟨hg, hcond⟩ := Bool.and_eq_true_iff.mp hg
    exact ⟨step_inv hi hg he, queued_names_step hi (Step.of_exec hi hg he).1 hcond hqueued,
      returned_step hi hg he hqueued hreturned⟩
  refine ⟨hi.created, hqueued, hreturned, fun t timerId hg => ?_⟩
  have hmem := List.contains_iff_mem.mp (Bool.and_eq_true_iff.mp hg).1
  obtain ⟨u, hu, -⟩ := hqueued _ hmem
  have hderef : s.timerQueue.deref (addr timerId) = .ok u := TimerQueue.deref_eq_ok.mpr hu
  refine ⟨_, bind_eq_ok.mpr ⟨u, hderef, rfl⟩, ?_⟩
  show s.returned ++ [(timerId, ActiveTimer.mk (addr timerId) u.sequence)] = _
  rw [deref_of_names (hqueued _ hmem) hderef]

/-- The loop thread goes through one turn: the functor that was pushed adds
the timer at 8. -/
def addsTimer : List (TimerLoopAction Nat) :=
  [.addTimer (some 0) (ActiveTimer.mk 8 1) 1, .loop (.wakeup 0), .loop .loop, .loop .whileTest,
    .loop (.pollReturn [.wakeupChannel]), .loop .handleEvent, .loop .dispatchDone, .loop .swap,
    .runFunctor 1, .loop .functorsDone]

/-- And another: the timer has expired. -/
def firesTimer : List (TimerLoopAction Nat) :=
  [.timer .timerfdFires, .loop .whileTest, .loop (.pollReturn [.other]), .loop .handleEvent,
    .timer (.handleReadBegin 200), .timer .runNext, .timer (.handleReadEnd 201)]

/-- A timer that repeats expires before its `addTimer` has returned. -/
theorem addTimer_returns_own_id_repeating :
    ∃ s : TimerLoop Nat, (machine.restrict sparesQueued).run
        (.newTimer (some 0) 8 5 3 true :: (addsTimer ++ firesTimer)) new = some s ∧
      s.timerQueue.ran.length = 1 ∧
      ∃ s', machine.exec (.addTimerReturn 0 (ActiveTimer.mk 8 1)) s = .ok s' ∧
        s'.returned = [(ActiveTimer.mk 8 1, ActiveTimer.mk 8 1)] := by
  obtain ⟨s, hr, hran, hg, hreturned⟩ : ∃ s : TimerLoop Nat, (machine.restrict sparesQueued).run
        (.newTimer (some 0) 8 5 3 true :: (addsTimer ++ firesTimer)) new = some s ∧
      s.timerQueue.ran.length = 1 ∧
      machine.guard s (.addTimerReturn 0 (ActiveTimer.mk 8 1)) = true ∧ s.returned = [] :=
    ⟨_, rfl, rfl, rfl, rfl⟩
  obtain ⟨-, -, -, hreturn⟩ := addTimer_returns_own_id ⟨_, hr⟩
  obtain ⟨s', hs', hr'⟩ := hreturn 0 (ActiveTimer.mk 8 1) hg
  rw [hreturned] at hr'
  exact ⟨s, hr, hran, s', hs', hr'⟩

/-- A timer that does not repeat has been deleted by the time its sequence
number is read, and another one may be there in its place. -/
theorem addTimer_reads_other :
    (∃ s : TimerLoop Nat, machine.run
        (.newTimer (some 0) 8 5 0 false :: (addsTimer ++ firesTimer)) new = some s ∧
      machine.guard s (.addTimerReturn 0 (ActiveTimer.mk 8 1)) = true ∧
      machine.exec (.addTimerReturn 0 (ActiveTimer.mk 8 1)) s = .error .useAfterFree) ∧
    ∃ s : TimerLoop Nat, machine.run
        (.newTimer (some 0) 8 5 0 false :: (addsTimer ++ firesTimer ++
          [.newTimer (some 1) 8 9 0 false, .addTimerReturn 0 (ActiveTimer.mk 8 1)])) new = some s ∧
      s.returned = [(ActiveTimer.mk 8 1, ActiveTimer.mk 8 2)] :=
  ⟨⟨_, rfl, rfl, rfl⟩, _, rfl, rfl⟩

end TimerLoop

end Libanet.Net
