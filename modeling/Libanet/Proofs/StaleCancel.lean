import Libanet.Proofs.TimerCancel

/-!
# Cancelling a timer that is gone

A `TimerId` is an address and a sequence number. The address may be in use
again by the time it is cancelled; the number is not, since the counter only
goes up. So a cancel that comes too late finds nothing in `activeTimers`, and
the worst it can do is to leave its name in `cancelingTimers`.

That set is read in one place, by `reset`, and under the names of timers that
are there. The two runs, with the cancel and without it, are followed side by
side: they differ in `cancelingTimers`, by the name of a timer that does not
exist, and in nothing else that any operation reads.
-/

namespace Libanet.Net

namespace TimerQueue

open TimerLoop (Names addr)

variable {q q' : TimerQueue} {k : ActiveTimer}

/-! ## A name that is used up -/

/-- The number has been given out, and no timer has it at that address. -/
structure Stale (q : TimerQueue) (k : ActiveTimer) : Prop where
  sequence_le : (ofLex k).2 ≤ q.numCreated
  gone : ¬ Names q k

theorem names_iff : Names q k ↔
    ∃ t, q.heap (addr k) = some t ∧ t.sequence = (ofLex k).2 := by
  constructor
  · intro h
    obtain ⟨t, ht, hk⟩ := h
    exact ⟨t, ht, (congrArg (fun k : ActiveTimer => (ofLex k).2) hk).symm⟩
  · intro h
    obtain ⟨t, ht, hk⟩ := h
    exact ⟨t, ht, ActiveTimer.mk_inj.mpr ⟨rfl, hk.symm⟩⟩

theorem Stale.not_active {hand : List Nat} (h : q.Stale k) (hrep : q.Rep hand) :
    k ∉ q.activeTimers := by
  intro hk
  obtain ⟨e, he, rfl⟩ := hrep.mem_active.mp hk
  obtain ⟨t, ht, -⟩ := hrep.entry e he
  have hkey : q.key e = ActiveTimer.mk e.timer t.sequence := Rep.key_eq ht e.when_
  exact h.gone ⟨t, ht, hkey⟩

/-- No step brings a name back. -/
theorem Stale.step {a : TimerAction} (h : q.Stale k) (hs : TimerStep q a q') : q'.Stale k := by
  have hle := h.sequence_le
  refine ⟨Nat.le_trans hle hs.numCreated_le, fun hnames => h.gone ?_⟩
  obtain ⟨t, ht, hid⟩ := names_iff.mp hnames
  rcases hs.heap_old ht with hnew | ⟨u, hu, hseq, -⟩
  · omega
  · exact names_iff.mpr ⟨u, hu, hseq.trans hid⟩

/-! ## The two runs -/

/-- The queue with another `cancelingTimers_`, and another record of what was
cancelled. -/
def withCanceling (q : TimerQueue) (canceling : OrdSet ActiveTimer)
    (cancelled : List ActiveTimer) : TimerQueue :=
  { q with cancelingTimers := canceling, cancelled := cancelled }

/-- The timers, both sets, the timerfd, the callbacks that have run and those
that are to come are the same. -/
def SameSchedule (q q' : TimerQueue) : Prop :=
  ∃ canceling cancelled, q' = q.withCanceling canceling cancelled

theorem Rep.withCanceling {hand : List Nat} (h : q.Rep hand) (c : OrdSet ActiveTimer)
    (d : List ActiveTimer) : (q.withCanceling c d).Rep hand :=
  h.congr rfl rfl rfl rfl rfl

theorem Inv.withCanceling (h : q.Inv) (c : OrdSet ActiveTimer) (d : List ActiveTimer) :
    (q.withCanceling c d).Inv :=
  ⟨h.rep.withCanceling c d, h.batch, h.calling⟩

/-- `activeTimers` has no choice. -/
theorem Rep.activeTimers_eq {hand : List Nat} {active : OrdSet ActiveTimer} (h : q.Rep hand)
    (h' : Rep { q with activeTimers := active } hand) : active = q.activeTimers :=
  OrdSet.eq_of_perm (h'.active.trans h.active.symm)

/-- The sets differ at most in `k`. -/
def AgreeOff (k : ActiveTimer) (c c' : OrdSet ActiveTimer) : Prop :=
  ∀ j, j ≠ k → (j ∈ c' ↔ j ∈ c)

/-- The second queue is the first, but for the name of a timer that is gone. -/
structure Apart (k : ActiveTimer) (q q' : TimerQueue) : Prop where
  inv : q.Inv
  stale : q.Stale k
  same : SameSchedule q q'
  agree : AgreeOff k q.cancelingTimers q'.cancelingTimers

variable {c : OrdSet ActiveTimer} {d : List ActiveTimer}

theorem guard_withCanceling (a : TimerAction) : (q.withCanceling c d).guard a = q.guard a := by
  cases a <;> rfl

/-- `reset` looks up the names of timers that are there. -/
theorem survivor_withCanceling (hstale : q.Stale k) (hagree : AgreeOff k q.cancelingTimers c)
    (e : Entry) : (q.withCanceling c d).survivor e = q.survivor e := by
  have hheap : (q.withCanceling c d).heap = q.heap := rfl
  unfold survivor
  rw [hheap]
  cases ht : q.heap e.timer with
  | none => rfl
  | some t =>
      have hne : ActiveTimer.mk e.timer t.sequence ≠ k := by
        intro hk
        exact hstale.gone (hk ▸ ⟨t, ht, rfl⟩)
      have hmem : ActiveTimer.mk e.timer t.sequence ∈ (q.withCanceling c d).cancelingTimers ↔
          ActiveTimer.mk e.timer t.sequence ∈ q.cancelingTimers := hagree _ hne
      simp only [hmem]

/-- What `reset` does to the two queues is the same. -/
theorem ResetStep.withCanceling {now : Timestamp} {expired : List Entry} {hand : List Nat}
    {r r' : TimerQueue} (hstale : q.Stale k) (hagree : AgreeOff k q.cancelingTimers c)
    (h : ResetStep now expired q r) (h' : ResetStep now expired (q.withCanceling c d) r')
    (hrep : r.Rep hand) (hrep' : r'.Rep hand) : r' = r.withCanceling c d := by
  have hsurvivor (e : Entry) : (q.withCanceling c d).survivor e = q.survivor e :=
    survivor_withCanceling hstale hagree e
  have hheap : r'.heap = r.heap := by
    funext a
    by_cases hmem : a ∈ expired.map Entry.timer
    · obtain ⟨e, he, rfl⟩ := List.mem_map.mp hmem
      rw [h'.batch e he, h.batch e he, hsurvivor e]
    · rw [h'.other a hmem, h.other a hmem]
      rfl
  have htimers : r'.timers = r.timers := by
    refine OrdSet.eq_of_mem_iff fun e => ?_
    rw [h'.timers e, h.timers e]
    simp only [hsurvivor]
    exact Iff.rfl
  have hactive : r'.activeTimers = r.activeTimers := by
    refine hrep.activeTimers_eq (hrep'.congr ?_ ?_ ?_ ?_ rfl)
    · exact hheap.symm
    · rw [h.frame, h'.frame]
      rfl
    · rw [h.frame, h'.frame]
      rfl
    · exact htimers.symm
  rw [h'.frame, hheap, htimers, hactive, h.frame]
  rfl

/-- What an action makes of the two queues: the same, up to `cancelingTimers`
and the record. -/
structure Beside (k : ActiveTimer) (a : TimerAction) (q q' : TimerQueue) : Prop where
  both : ∃ r canceling cancelled, exec a q = .ok r ∧
    exec a q' = .ok (r.withCanceling canceling cancelled) ∧
      AgreeOff k r.cancelingTimers canceling

theorem beside_add (hi : q.Inv) (hagree : AgreeOff k q.cancelingTimers c) {timer : Nat}
    (hmem : timer ∈ q.unadded) (clock : Timestamp) :
    Beside k (.addTimerInLoop timer clock) q (q.withCanceling c d) := by
  obtain ⟨t, ht, -, hok⟩ := addTimerInLoop_spec hi.rep hmem clock
  obtain ⟨t', ht', -, hok'⟩ := addTimerInLoop_spec (hi.withCanceling c d).rep hmem clock
  cases ht.symm.trans ht'
  have hfirst : (q.withCanceling c d).isEarliest t.expiration = q.isEarliest t.expiration := rfl
  rw [hfirst] at hok'
  refine ⟨_, c, d, hok, hok'.trans ?_, ?_⟩
  · split
    · rfl
    · rfl
  · split
    · exact hagree
    · exact hagree

theorem beside_cancel (hi : q.Inv) (hagree : AgreeOff k q.cancelingTimers c)
    (timerId : ActiveTimer) :
    Beside k (.cancelInLoop timerId) q (q.withCanceling c d) := by
  have hi' := hi.withCanceling c d
  by_cases hmem : timerId ∈ q.activeTimers
  · obtain ⟨e, he, rfl⟩ := hi.rep.mem_active.mp hmem
    exact ⟨_, c, _, cancelInLoop_active hi.rep he, cancelInLoop_active hi'.rep he, hagree⟩
  · refine ⟨_, _, _, cancelInLoop_other hi.rep hmem, cancelInLoop_other hi'.rep hmem, ?_⟩
    intro j hj
    show j ∈ (if q.callingExpiredTimers then c.insert timerId else c) ↔
      j ∈ (if q.callingExpiredTimers then q.cancelingTimers.insert timerId
        else q.cancelingTimers)
    split
    · rw [OrdSet.mem_insert, OrdSet.mem_insert, hagree j hj]
    · exact hagree j hj

/-- A new batch begins with nothing to cancel. -/
theorem beside_begin (hi : q.Inv) (hidle : q.phase = .idle) (now : Timestamp) :
    Beside k (.handleReadBegin now) q (q.withCanceling c d) := by
  have hbatch : q.batch = [] := by
    unfold TimerQueue.batch
    rw [hidle]
  have hrep := hi.rep
  rw [hbatch] at hrep
  obtain ⟨active, hok, hactive⟩ := handleReadBegin_spec hrep now
  obtain ⟨active', hok', hactive'⟩ := handleReadBegin_spec (hrep.withCanceling c d) now
  have hsame : active' = active := by
    refine Rep.activeTimers_eq hactive ?_
    exact hactive'.congr rfl rfl rfl rfl rfl
  rw [hsame] at hok'
  exact ⟨_, .empty, d, hok, hok', fun j _ => Iff.rfl⟩

theorem beside_run (hi : q.Inv) (hagree : AgreeOff k q.cancelingTimers c)
    (hg : q.guard .runNext = true) : Beside k .runNext q (q.withCanceling c d) := by
  obtain ⟨r, hok, hs, -⟩ := step_spec hi hg
  obtain ⟨r', hok', hs', -⟩ :=
    step_spec (hi.withCanceling c d) ((guard_withCanceling .runNext).trans hg)
  cases hs with
  | run now started rest e t phase heap =>
      cases hs' with
      | run now' started' rest' e' t' phase' heap' =>
          cases phase.symm.trans phase'
          cases heap.symm.trans heap'
          exact ⟨_, c, d, hok, hok', hagree⟩

theorem rearm_withCanceling (clock : Timestamp) :
    (q.withCanceling c d).rearm clock = (q.rearm clock).withCanceling c d := by
  have hbegin : (q.withCanceling c d).timers.begin = q.timers.begin := rfl
  unfold rearm
  rw [hbegin]
  cases q.timers.begin with
  | none => rfl
  | some e =>
      dsimp only
      split
      · rfl
      · rfl

theorem beside_end (hi : q.Inv) (hstale : q.Stale k) (hagree : AgreeOff k q.cancelingTimers c)
    {now : Timestamp} {started : List Entry} (hphase : q.phase = .calling now started [])
    (clock : Timestamp) : Beside k (.handleReadEnd clock) q (q.withCanceling c d) := by
  obtain ⟨p, hp⟩ : ∃ p, p = { q with callingExpiredTimers := false, phase := .idle } := ⟨_, rfl⟩
  have hexec (q : TimerQueue) (h : q.phase = .calling now started []) :
      exec (.handleReadEnd clock) q =
        { q with callingExpiredTimers := false, phase := .idle }.reset started now clock := by
    simp only [exec, handleReadEnd, h]
  have hstale' : p.Stale k := by
    rw [hp]
    exact ⟨hstale.sequence_le, hstale.gone⟩
  have hagree' : AgreeOff k p.cancelingTimers c := by
    rw [hp]
    exact hagree
  have hrep : p.Rep (started.map Entry.timer ++ []) := by
    have hbatch : q.batch = started := by
      unfold TimerQueue.batch
      rw [hphase]
      exact List.append_nil _
    have hrep := hi.rep
    rw [hbatch] at hrep
    rw [hp, List.append_nil]
    exact hrep.congr rfl rfl rfl rfl rfl
  obtain ⟨r, hok, hr, hreset⟩ := reset_spec hrep now clock
  obtain ⟨r', hok', hr', hreset'⟩ := reset_spec (hrep.withCanceling c d) now clock
  have hsame := ResetStep.withCanceling hstale' hagree' hreset hreset' hr hr'
  rw [hsame, rearm_withCanceling] at hok'
  refine ⟨r.rearm clock, c, d, ?_, ?_, ?_⟩
  · rw [hexec q hphase, ← hp]
    exact hok
  · have hp' : p.withCanceling c d = { q.withCanceling c d with
        callingExpiredTimers := false, phase := .idle } := by
      rw [hp]
      rfl
    rw [hexec (q.withCanceling c d) hphase, ← hp']
    exact hok'
  · rw [rearm_eq, hreset.frame]
    exact hagree'

/-- Every action of the queue. -/
theorem beside_exec (hi : q.Inv) (hstale : q.Stale k) (hagree : AgreeOff k q.cancelingTimers c)
    {a : TimerAction} (hg : q.guard a = true) : Beside k a q (q.withCanceling c d) := by
  cases a with
  | newTimer timer when_ interval repeat_ => exact ⟨_, c, d, rfl, rfl, hagree⟩
  | addTimerInLoop timer clock =>
      rw [guard, Bool.and_eq_true, List.contains_iff_mem] at hg
      exact beside_add hi hagree hg.2 clock
  | cancelInLoop timerId => exact beside_cancel hi hagree timerId
  | handleReadBegin now =>
      cases hphase : q.phase with
      | idle => exact beside_begin hi hphase now
      | calling now started rest => simp [guard, hphase] at hg
  | runNext => exact beside_run hi hagree hg
  | handleReadEnd clock =>
      cases hphase : q.phase with
      | idle => simp [guard, hphase] at hg
      | calling now started rest =>
          cases rest with
          | nil => exact beside_end hi hstale hagree hphase clock
          | cons e rest => simp [guard, hphase] at hg
  | timerfdFires => exact ⟨_, c, d, rfl, rfl, hagree⟩

/-- The counter may run ahead. -/
theorem Inv.createdElsewhere (h : q.Inv) : Inv { q with numCreated := q.numCreated + 1 } := by
  have hrep := h.rep
  refine ⟨?_, h.batch, h.calling⟩
  exact ⟨hrep.nodup, hrep.live, hrep.entry, hrep.active,
    fun a t ht => Nat.le_succ_of_le (hrep.seqLe a t ht), hrep.seqInj, hrep.addr⟩

theorem Apart.createdElsewhere (h : Apart k q q') :
    Apart k { q with numCreated := q.numCreated + 1 }
      { q' with numCreated := q'.numCreated + 1 } := by
  obtain ⟨c, d, rfl⟩ := h.same
  exact ⟨h.inv.createdElsewhere,
    ⟨Nat.le_succ_of_le h.stale.sequence_le, h.stale.gone⟩, ⟨c, d, rfl⟩, h.agree⟩

/-- One action, in both runs. -/
theorem Apart.step (a : SharedTimerAction) (h : Apart k q q') :
    Option.Rel (Apart k) (sharedMachine.step a q) (sharedMachine.step a q') := by
  cases a with
  | createdElsewhere => exact .some h.createdElsewhere
  | own a =>
      obtain ⟨c, d, rfl⟩ := h.same
      by_cases hg : q.guard a = true
      · have hboth := beside_exec (d := d) h.inv h.stale h.agree hg
        obtain ⟨r, c', d', hok, hok', hagree⟩ := hboth.both
        obtain ⟨hs, hi⟩ := TimerStep.of_exec h.inv hg hok
        have hg' : (q.withCanceling c d).guard a = true := (guard_withCanceling a).trans hg
        have hstep : sharedMachine.step (.own a) q = some r :=
          Machine.step_eq_some.mpr ⟨hg, hok⟩
        have hstep' : sharedMachine.step (.own a) (q.withCanceling c d) =
            some (r.withCanceling c' d') := Machine.step_eq_some.mpr ⟨hg', hok'⟩
        rw [hstep, hstep']
        exact .some ⟨hi, h.stale.step hs, ⟨c', d', rfl⟩, hagree⟩
      · have hg' : ¬ (q.withCanceling c d).guard a = true := by
          rw [guard_withCanceling]
          exact hg
        have hstep : sharedMachine.step (.own a) q = none := if_neg hg
        have hstep' : sharedMachine.step (.own a) (q.withCanceling c d) = none := if_neg hg'
        rw [hstep, hstep']
        exact .none

/-! ## Any two runs -/

/-- What a step of the queue among others keeps: the invariant, and every
number that has been given out. -/
theorem shared_step {n : Nat} {a : SharedTimerAction} (h : q.Inv ∧ n ≤ q.numCreated)
    (hg : sharedMachine.guard q a = true) (he : sharedMachine.exec a q = .ok q') :
    q'.Inv ∧ n ≤ q'.numCreated := by
  cases a with
  | own a =>
      obtain ⟨hs, hi⟩ := TimerStep.of_exec h.1 hg he
      exact ⟨hi, Nat.le_trans h.2 hs.numCreated_le⟩
  | createdElsewhere =>
      cases he
      exact ⟨h.1.createdElsewhere, Nat.le_succ_of_le h.2⟩

/-- A cancel under a name that is used up, and all that comes after it. -/
theorem Stale.cancelInLoop (h : q.Stale k) (hi : q.Inv) :
    ∃ q', q.cancelInLoop k = .ok q' ∧ Apart k q q' := by
  refine ⟨q.cancelOther k, cancelInLoop_other hi.rep (h.not_active hi.rep), hi, h,
    ⟨_, _, rfl⟩, ?_⟩
  intro j hj
  show j ∈ (if q.callingExpiredTimers then q.cancelingTimers.insert k else q.cancelingTimers) ↔
    j ∈ q.cancelingTimers
  split
  · rw [OrdSet.mem_insert]
    exact or_iff_right hj
  · exact Iff.rfl

/-- A timer was there and is not any more. Cancelling it, at any time and
wherever its address may be in use, leaves both sets as they are; and whatever
is done afterwards can be done just as well as if nothing had been cancelled,
with the same timers, the same callbacks and the same settings of the timerfd
in the end. -/
theorem stale_cancel_frame {q₁ : TimerQueue} {before : List SharedTimerAction}
    (hr : sharedMachine.Reaches new q₁) (hnames : Names q₁ k)
    (hrun : sharedMachine.run before q₁ = some q) (hgone : ¬ Names q k) :
    ∃ q', q.cancelInLoop k = .ok q' ∧ SameSchedule q q' ∧ ∀ as,
      Option.Rel SameSchedule (sharedMachine.run as q) (sharedMachine.run as q') := by
  obtain ⟨hi₁, -⟩ := hr.invariant (I := fun q => q.Inv ∧ 0 ≤ q.numCreated)
    ⟨new_inv, Nat.zero_le _⟩ shared_step
  obtain ⟨t, ht, hid⟩ := names_iff.mp hnames
  have hle : (ofLex k).2 ≤ q₁.numCreated := by
    rw [← hid]
    exact hi₁.rep.seqLe _ t ht
  obtain ⟨hi, hle'⟩ := Machine.run_invariant
    (I := fun q => q.Inv ∧ (ofLex k).2 ≤ q.numCreated) shared_step ⟨hi₁, hle⟩ hrun
  obtain ⟨q', hok, hapart⟩ := Stale.cancelInLoop ⟨hle', hgone⟩ hi
  refine ⟨q', hok, hapart.same, fun as => ?_⟩
  have hruns := Machine.run_rel Apart.step as hapart
  generalize sharedMachine.run as q = x at hruns
  generalize sharedMachine.run as q' = x' at hruns
  cases hruns with
  | some h => exact .some h.same
  | none => exact .none

/-- The timer that was first at address 8 has been cancelled, and its place
taken by one that repeats, whose callback is running. -/
def addressReused : List SharedTimerAction :=
  [.own (.cancelInLoop (ActiveTimer.mk 8 1)), .createdElsewhere, .own (.newTimer 8 5 3 true),
    .own (.addTimerInLoop 8 2), .own (.handleReadBegin 10), .own .runNext]

theorem stale_cancel_frame_addressReused :
    ∃ q r r' s', sharedMachine.run
        [.own (.newTimer 8 5 0 false), .own (.addTimerInLoop 8 1)] new = some q ∧
      sharedMachine.run addressReused q = some r ∧
      r.cancelInLoop (ActiveTimer.mk 8 1) = .ok r' ∧ SameSchedule r r' ∧
      sharedMachine.run [.own (.handleReadEnd 11)] r' = some s' ∧
      s'.timers.toList = [Entry.mk 13 8] := by
  obtain ⟨q, r, s, hq, hr, hs, hnames, hgone, htimers⟩ : ∃ q r s, sharedMachine.run
        [.own (.newTimer 8 5 0 false), .own (.addTimerInLoop 8 1)] new = some q ∧
      sharedMachine.run addressReused q = some r ∧
      sharedMachine.run [.own (.handleReadEnd 11)] r = some s ∧
      Names q (ActiveTimer.mk 8 1) ∧ (r.heap 8).map Timer.sequence = some 3 ∧
      s.timers.toList = [Entry.mk 13 8] :=
    ⟨_, _, _, rfl, rfl, rfl, ⟨_, rfl, rfl⟩, rfl, rfl⟩
  have hgone' : ¬ Names r (ActiveTimer.mk 8 1) := by
    intro h
    obtain ⟨t, ht, hid⟩ := names_iff.mp h
    have ht' : r.heap 8 = some t := ht
    rw [ht', Option.map_some, hid] at hgone
    cases hgone
  obtain ⟨r', hok, hsame, hruns⟩ := stale_cancel_frame ⟨_, hq⟩ hnames hr hgone'
  have hrel := hruns [.own (.handleReadEnd 11)]
  rw [hs] at hrel
  generalize hs' : sharedMachine.run [.own (.handleReadEnd 11)] r' = x at hrel
  cases hrel with
  | some h =>
      obtain ⟨c, d, rfl⟩ := h
      exact ⟨q, r, r', _, hq, hr, hok, hsame, hs', htimers⟩

end TimerQueue

end Libanet.Net
