import Libanet.Base.CountDownLatch

/-!
# The latch opens for one

The last `countDown` finds `count_` at zero and calls `notify`, which reaches
one of the threads that wait. The others are left behind for good: no later
`countDown` finds `count_` at zero again, and only a spurious wakeup lets
them see it. A latch is released properly exactly as long as nobody else is
waiting when the count goes from one to zero.

That step is the only one that matters. A thread that comes, or comes back,
tests `count_` under the mutex, so nobody starts to wait once it is zero.
-/

namespace Libanet.CountDownLatch

variable {Tid : Type}

/-- Nobody waits for a count that has been reached. -/
def Released (l : CountDownLatch Tid) : Prop := l.count ≤ 0 → l.condition.waiting = []

/-- The step is not a last `countDown` with more than one thread waiting. -/
def ReachesAll (l : CountDownLatch Tid) : LatchAction Tid → Prop
  | .countDown _ => l.count = 1 → l.condition.waiting.length ≤ 1
  | _ => True

variable {l l' : CountDownLatch Tid} {n : Nat} {t : Tid}

theorem released_waitLoop (h : l.Released) (t : Tid) : (l.waitLoop t).Released := by
  unfold waitLoop
  split
  · next hpos =>
      intro hle
      exact absurd hpos (Int.not_lt.mpr hle)
  · exact h

theorem countDown_eq (he : l.countDown n = .ok l') :
    l' = { l with
      count := l.count - 1
      condition := if l.count - 1 = 0 then l.condition.notify n else l.condition } := by
  obtain ⟨count, hc, he⟩ := bind_eq_ok.mp he
  unfold signed at hc
  split at hc
  · cases hc
    cases he
    rfl
  · cases hc

/-- Counting down keeps the latch released unless it is the last time and
there is more than one thread to tell. -/
theorem released_countDown (h : l.Released) (he : l.countDown n = .ok l') :
    l'.Released ↔ (l.count = 1 → l.condition.waiting.length ≤ 1) := by
  rw [countDown_eq he]
  by_cases hone : l.count = 1
  · have hzero : l.count - 1 = 0 := by omega
    rw [if_pos hzero, ← CondVar.waiting_notify_eq_nil_iff n]
    exact ⟨fun h _ => h (Int.le_of_eq hzero), fun h _ => h hone⟩
  · have hzero : l.count - 1 ≠ 0 := by omega
    rw [if_neg hzero]
    refine ⟨fun _ h => absurd h hone, fun _ hle => h ?_⟩
    have hle' : l.count - 1 ≤ 0 := hle
    omega

variable [DecidableEq Tid]

theorem released_step {a : LatchAction Tid} (h : l.Released)
    (he : machine.exec a l = .ok l') : l'.Released ↔ l.ReachesAll a := by
  cases a with
  | countDown n => exact released_countDown h he
  | wait t =>
      cases he
      exact iff_of_true (released_waitLoop h t) trivial
  | waitResumed i =>
      refine iff_of_true ?_ trivial
      simp only [machine, exec] at he
      split at he
      · cases he
        exact h
      · next t ht =>
          cases he
          refine released_waitLoop ?_ t
          intro hle
          exact (CondVar.waiting_resume i l.condition).trans (h hle)
  | wake i =>
      refine iff_of_true ?_ trivial
      cases he
      exact fun hle => CondVar.waiting_wake_nil (h hle) i

/-- A latch that starts to count keeps nobody waiting after the count has been
reached if and only if no `countDown` of the run reached it while more than
one thread was waiting. -/
theorem released_iff_reachesAll {count : Int} (hcount : 1 ≤ count)
    (as : List (LatchAction Tid)) :
    (∀ x ∈ machine.steps as (new count), x.2.2.Released) ↔
      ∀ x ∈ machine.steps as (new count), x.1.ReachesAll x.2.1 := by
  refine Machine.steps_iff (I := Released) (P := fun x => x.2.2.Released) ?_ ?_ as ?_
  · intro l l' a h hg he hc
    have hl := (released_step h he).mpr hc
    exact ⟨hl, hl⟩
  · intro l l' a h hg he hc hl
    exact hc ((released_step h he).mp hl)
  · intro hle
    exact absurd hcount (Int.not_le.mpr (Int.lt_add_one_of_le hle))

/-- Two threads wait for one `countDown`. -/
def twoWaiters : List (LatchAction Nat) := [.wait 0, .wait 1, .countDown 0]

theorem released_iff_reachesAll_twoWaiters :
    1 ≤ (1 : Int) ∧
      ((∀ x ∈ machine.steps twoWaiters (new 1), x.2.2.Released) ↔
        ∀ x ∈ machine.steps twoWaiters (new 1), x.1.ReachesAll x.2.1) :=
  ⟨by decide, released_iff_reachesAll (by decide) twoWaiters⟩

theorem waiter_left_behind :
    ∃ l : CountDownLatch Nat, machine.Reaches (new 1) l ∧ l.count ≤ 0 ∧
      l.condition.waiting = [1] :=
  ⟨_, ⟨twoWaiters, rfl⟩, by decide, rfl⟩

end Libanet.CountDownLatch
