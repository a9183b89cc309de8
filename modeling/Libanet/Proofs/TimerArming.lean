import Mathlib.Order.MinMax
import Libanet.Proofs.TimerRep

/-!
# No timer is forgotten by the timerfd

The timerfd is armed in two places only: when a timer is added that is
earlier than all others, and at the end of `handleRead`. A cancel never
touches it. So the deadline it holds was computed for a timer that was the
first then, and since then the first timer has not become earlier without
the timerfd having been armed again: `Covered`.

Inside `handleRead` this fails for the timers that have not expired — the
timerfd has fired and nobody has armed it for them yet. What does hold there
is that a timer added by a callback with an expiration that has passed
already is covered, because it was the first when it was added, or another
such timer was. This is what the last lines of `reset` need: they do not arm
the timerfd for an expiration that is not `valid()`, but such a timer cannot
be one that was restarted.
-/

namespace Libanet.Net

def Timerfd.deadline : Timerfd → Option Timestamp
  | .disarmed => none
  | .armed d | .fired d => some d

/-- A value for `timerfd_settime` that is as the kernel wants it, and that
says what it should. -/
structure Settime.Sound (s : Settime) : Prop where
  nonzero : s.value.tv_sec ≠ 0 ∨ s.value.tv_nsec ≠ 0
  nsec : 0 ≤ s.value.tv_nsec ∧ s.value.tv_nsec < 1000000000
  value : s.value.tv_sec * 1000000000 + s.value.tv_nsec =
    max 100 (s.expiration - s.now) * 1000

theorem howMuchTimeFromNow_spec (w now : Int) :
    Settime.Sound ⟨now, w, howMuchTimeFromNow w now⟩ ∧
      timerfd_settime now (howMuchTimeFromNow w now) = .armed (max w (now + 100)) := by
  obtain ⟨m, hm, hm100, hmax⟩ : ∃ m : Int,
      (if w - now < 100 then 100 else w - now) = m ∧ 100 ≤ m ∧ m = max 100 (w - now) := by
    refine ⟨_, rfl, ?_, ?_⟩
    · split <;> omega
    · split <;> omega
  have hsec : m.tdiv Timestamp.kMicroSecondsPerSecond = m / 1000000 :=
    Int.tdiv_eq_ediv_of_nonneg (by omega)
  have hnsec : m.tmod Timestamp.kMicroSecondsPerSecond = m % 1000000 :=
    Int.tmod_eq_emod_of_nonneg (by omega)
  have hvalue : howMuchTimeFromNow w now = ⟨m / 1000000, m % 1000000 * 1000⟩ := by
    rw [← hsec, ← hnsec, ← hm]
    rfl
  have hne : ¬(m / 1000000 = 0 ∧ m % 1000000 * 1000 = 0) := by omega
  rw [hvalue]
  refine ⟨⟨?_, ?_, ?_⟩, ?_⟩
  · dsimp only
    omega
  · dsimp only
    omega
  · dsimp only
    omega
  · have hmicro : (m % 1000000 * 1000).tdiv 1000 = m % 1000000 := by
      rw [Int.tdiv_eq_ediv_of_nonneg (by omega)]
      omega
    have hdeadline : now + m / 1000000 * 1000000 + m % 1000000 = max w (now + 100) := by
      omega
    rw [timerfd_settime, if_neg hne, hmicro]
    exact congrArg Timerfd.armed hdeadline

namespace TimerQueue

variable {q : TimerQueue}

/-- The timerfd is armed, or has fired, with a deadline that is late for no
timer: at most the time the timer expires, or 100 microseconds after the
timerfd was armed. -/
def Covered (q : TimerQueue) : Prop :=
  ∃ d s, q.timerfd.deadline = some d ∧ q.settimes.getLast? = some s ∧
    ∀ e ∈ q.timers, d ≤ max e.when_ (s.now + 100)

theorem Covered.mono (h : q.Covered) {q' : TimerQueue}
    (hd : q'.timerfd.deadline = q.timerfd.deadline) (hs : q'.settimes = q.settimes)
    (ht : ∀ e ∈ q'.timers, ∃ f ∈ q.timers, f.when_ ≤ e.when_) : q'.Covered := by
  obtain ⟨d, s, hd₀, hs₀, hle⟩ := h
  refine ⟨d, s, hd.trans hd₀, by rw [hs, hs₀], ?_⟩
  intro e he
  obtain ⟨f, hf, hfe⟩ := ht e he
  exact le_trans (hle f hf) (max_le_max hfe le_rfl)

/-- Armed for a timer that is not after any other. -/
theorem covered_resetTimerfd {w clock : Timestamp} (h : ∀ e ∈ q.timers, w ≤ e.when_) :
    (q.resetTimerfd w clock).Covered := by
  obtain ⟨-, harmed⟩ := howMuchTimeFromNow_spec w clock
  refine ⟨max w (clock + 100), ⟨clock, w, howMuchTimeFromNow w clock⟩, ?_, ?_, ?_⟩
  · show (timerfd_settime clock (howMuchTimeFromNow w clock)).deadline = _
    rw [harmed]
    rfl
  · exact List.getLast?_concat
  · intro e he
    exact max_le_max (h e he) le_rfl

/-- The conditions on what comes from outside: clocks are positive, and no
repeating timer goes back in time. -/
def soundClock (_ : TimerQueue) : TimerAction → Bool
  | .newTimer _ _ interval r => !r || 0 ≤ interval
  | .addTimerInLoop _ clock => 0 < clock
  | .handleReadBegin now => 0 < now
  | .handleReadEnd clock => 0 < clock
  | _ => true

structure ArmInv (q : TimerQueue) : Prop where
  interval : ∀ a t, q.heap a = some t → t.repeat_ = true → 0 ≤ t.interval
  settimes : ∀ s ∈ q.settimes, s.Sound
  idle : q.phase = .idle → q.timers.toList ≠ [] → q.Covered
  calling : ∀ now started rest, q.phase = .calling now started rest →
    0 < now ∧ ((∃ e ∈ q.timers, e.when_ ≤ now) → q.Covered)

theorem new_armInv : new.ArmInv where
  interval := by
    intro a t h
    cases h
  settimes := by
    intro s hs
    cases hs
  idle := fun _ h => absurd rfl h
  calling := by
    intro now started rest h
    cases h

theorem settimes_resetTimerfd {w clock : Timestamp} (h : ∀ s ∈ q.settimes, s.Sound) :
    ∀ s ∈ (q.resetTimerfd w clock).settimes, s.Sound := by
  intro s hs
  rcases List.mem_append.mp hs with hs | hs
  · exact h s hs
  · rw [List.mem_singleton.mp hs]
    exact (howMuchTimeFromNow_spec w clock).1

/-! ## Adding -/

/-- A timer that is earlier than the first is earlier than all. -/
theorem le_of_isEarliest {w : Timestamp} (h : q.isEarliest w = true) :
    ∀ e ∈ q.timers, w ≤ e.when_ := by
  intro e he
  unfold isEarliest at h
  cases hb : q.timers.begin with
  | none =>
      rw [OrdSet.mem_def, OrdSet.begin_eq_none.mp hb] at he
      cases he
  | some b =>
      rw [hb] at h
      have hwb : w < b.when_ := of_decide_eq_true h
      exact le_of_lt (lt_of_lt_of_le hwb (Entry.when_le (OrdSet.begin_le hb he)))

/-- A timer that is not the first comes after one. -/
theorem exists_of_not_isEarliest {w : Timestamp} (h : q.isEarliest w = false) :
    ∃ b ∈ q.timers, b.when_ ≤ w := by
  unfold isEarliest at h
  cases hb : q.timers.begin with
  | none =>
      rw [hb] at h
      cases h
  | some b =>
      rw [hb] at h
      have hwb : ¬w < b.when_ := of_decide_eq_false h
      exact ⟨b, OrdSet.begin_mem hb, not_lt.mp hwb⟩

theorem armInv_add (a : Nat) (t : Timer) (hi : q.ArmInv) (clock : Timestamp) :
    ArmInv (if q.isEarliest t.expiration then
      (q.addTimer a t).resetTimerfd t.expiration clock else q.addTimer a t) := by
  have hmem : ∀ e, e ∈ (q.addTimer a t).timers ↔
      e = Entry.mk t.expiration a ∨ e ∈ q.timers := fun e => OrdSet.mem_insert
  split
  · next hearly =>
      have hcov : ((q.addTimer a t).resetTimerfd t.expiration clock).Covered := by
        refine covered_resetTimerfd fun e he => ?_
        rcases (hmem e).mp he with rfl | he
        · exact le_refl _
        · exact le_of_isEarliest hearly e he
      refine ⟨hi.interval, settimes_resetTimerfd hi.settimes, fun _ _ => hcov, ?_⟩
      intro now started rest hp
      exact ⟨(hi.calling now started rest hp).1, fun _ => hcov⟩
  · next hearly =>
      obtain ⟨b, hb, hbt⟩ := exists_of_not_isEarliest (Bool.not_eq_true _ ▸ hearly)
      have hcov : q.Covered → (q.addTimer a t).Covered := by
        intro hc
        refine hc.mono rfl rfl fun e he => ?_
        rcases (hmem e).mp he with rfl | he
        · exact ⟨b, hb, hbt⟩
        · exact ⟨e, he, le_refl _⟩
      refine ⟨hi.interval, hi.settimes, fun hp _ => ?_, fun now started rest hp => ?_⟩
      · exact hcov (hi.idle hp (List.ne_nil_of_mem hb))
      · obtain ⟨hpos, hc⟩ := hi.calling now started rest hp
        refine ⟨hpos, ?_⟩
        rintro ⟨e, he, hle⟩
        rcases (hmem e).mp he with rfl | he
        · exact hcov (hc ⟨b, hb, le_trans hbt hle⟩)
        · exact hcov (hc ⟨e, he, hle⟩)

/-! ## Resetting -/

theorem addTime_nonneg {now : Timestamp} {delta : Int} (h : 0 ≤ delta) :
    now ≤ addTime now delta := by
  unfold addTime
  exact Int.le_add_of_nonneg_right h

/-- What the loop of `reset` adds expires at `now` or later. -/
theorem ResetStep.mem_timers {now : Timestamp} {expired : List Entry} {q' : TimerQueue}
    (h : ResetStep now expired q q')
    (hint : ∀ a t, q.heap a = some t → t.repeat_ = true → 0 ≤ t.interval) {e : Entry}
    (he : e ∈ q'.timers) : e ∈ q.timers ∨ now ≤ e.when_ := by
  rcases (h.timers e).mp he with he | ⟨b, -, t, hsurv, rfl⟩
  · exact .inl he
  · obtain ⟨hheap, hrep, -⟩ := survivor_eq_some.mp hsurv
    exact .inr (addTime_nonneg (hint b.timer t hheap hrep))

theorem ResetStep.interval {now : Timestamp} {expired : List Entry} {q' : TimerQueue}
    (h : ResetStep now expired q q')
    (hint : ∀ a t, q.heap a = some t → t.repeat_ = true → 0 ≤ t.interval) :
    ∀ a t, q'.heap a = some t → t.repeat_ = true → 0 ≤ t.interval := by
  intro a t ht hrep
  by_cases ha : a ∈ expired.map Entry.timer
  · obtain ⟨e, he, rfl⟩ := List.mem_map.mp ha
    rw [h.batch e he, Option.map_eq_some_iff] at ht
    obtain ⟨u, hu, rfl⟩ := ht
    obtain ⟨hheap, hrep', -⟩ := survivor_eq_some.mp hu
    have hkeep : (u.restart now).interval = u.interval := by
      unfold Timer.restart
      split <;> rfl
    rw [hkeep]
    exact hint e.timer u hheap hrep'
  · rw [h.other a ha] at ht
    exact hint a t ht hrep

/-- The end of `handleRead`. If the first timer has a valid expiration the
timerfd is armed for it. If not, a callback has added it, and the timerfd is
armed already. -/
theorem covered_rearm {now clock : Timestamp} (hnow : 0 < now) {expired : List Entry}
    {q' : TimerQueue} (h : ResetStep now expired q q')
    (hint : ∀ a t, q.heap a = some t → t.repeat_ = true → 0 ≤ t.interval)
    (hc : (∃ e ∈ q.timers, e.when_ ≤ now) → q.Covered)
    (hne : q'.timers.toList ≠ []) : (q'.rearm clock).Covered := by
  unfold rearm
  cases hb : q'.timers.begin with
  | none => exact absurd (OrdSet.begin_eq_none.mp hb) hne
  | some e =>
      have hmin : ∀ f ∈ q'.timers, e.when_ ≤ f.when_ :=
        fun f hf => Entry.when_le (OrdSet.begin_le hb hf)
      by_cases hv : e.when_.valid = true
      · simp only [if_pos hv]
        exact covered_resetTimerfd hmin
      · simp only [if_neg hv]
        have hle : e.when_ ≤ 0 := not_lt.mp fun hlt => hv (decide_eq_true hlt)
        have hlt : e.when_ < now := lt_of_le_of_lt hle hnow
        rcases h.mem_timers hint (OrdSet.begin_mem hb) with he | hge
        · refine (hc ⟨e, he, le_of_lt hlt⟩).mono ?_ ?_ fun f hf => ⟨e, he, hmin f hf⟩
          · rw [h.frame]
          · rw [h.frame]
        · exact absurd hge (not_le.mpr hlt)

theorem settimes_rearm {clock : Timestamp} (h : ∀ s ∈ q.settimes, s.Sound) :
    ∀ s ∈ (q.rearm clock).settimes, s.Sound := by
  unfold rearm
  cases q.timers.begin with
  | none => exact h
  | some e =>
      by_cases hv : e.when_.valid = true
      · simp only [if_pos hv]
        exact settimes_resetTimerfd h
      · simp only [if_neg hv]
        exact h

/-! ## Whole runs -/

theorem armInv_step {a : TimerAction} {q' : TimerQueue} (hq : q.Inv) (hi : q.ArmInv)
    (hc : q.soundClock a = true) (hs : TimerStep q a q') : q'.ArmInv := by
  cases hs with
  | newTimer b w interval r free =>
      refine ⟨?_, hi.settimes, hi.idle, hi.calling⟩
      intro c t ht hrep
      by_cases hcb : c = b
      · have hself : (q.newTimer b w interval r).heap c =
          some ⟨w, interval, r, q.numCreated + 1⟩ := if_pos hcb
        cases hself.symm.trans ht
        simpa [soundClock, show r = true from hrep] using hc
      · exact hi.interval c t ((if_neg hcb).symm.trans ht) hrep
  | add b clock t unadded heap => exact armInv_add b t hi clock
  | cancelActive e mem =>
      have hsub : ∀ f ∈ (q.cancelActive e).timers, f ∈ q.timers :=
        fun f hf => (OrdSet.mem_erase.mp hf).2
      have hcov : q.Covered → (q.cancelActive e).Covered :=
        fun h => h.mono rfl rfl fun f hf => ⟨f, hsub f hf, le_refl _⟩
      refine ⟨?_, hi.settimes, ?_, ?_⟩
      · intro c t ht
        by_cases hce : c = e.timer
        · exact absurd ((if_pos hce).symm.trans ht) (by simp)
        · exact hi.interval c t ((if_neg hce).symm.trans ht)
      · exact fun hp _ => hcov (hi.idle hp (List.ne_nil_of_mem mem))
      · intro now started rest hp
        obtain ⟨hpos, hc⟩ := hi.calling now started rest hp
        exact ⟨hpos, fun ⟨f, hf, hle⟩ => hcov (hc ⟨f, hsub f hf, hle⟩)⟩
  | cancelOther k out => exact ⟨hi.interval, hi.settimes, hi.idle, hi.calling⟩
  | handleReadBegin now active idle =>
      refine ⟨hi.interval, hi.settimes, ?_, ?_⟩
      · intro hp
        cases hp
      · intro now' started rest hp
        cases hp
        refine ⟨of_decide_eq_true hc, ?_⟩
        rintro ⟨e, he, hle⟩
        exact absurd hle (not_le.mpr (hq.rep.mem_remaining.mp he).2)
  | run now started rest e t phase heap =>
      refine ⟨hi.interval, hi.settimes, ?_, ?_⟩
      · intro hp
        cases hp
      · intro now' started' rest' hp
        cases hp
        exact hi.calling now started (e :: rest) phase
  | handleReadEnd now clock started q₁ phase reset =>
      obtain ⟨hpos, hcov⟩ := hi.calling now started [] phase
      have htimers : (q₁.rearm clock).timers = q₁.timers := by rw [rearm_eq]
      refine ⟨?_, ?_, ?_, ?_⟩
      · rw [rearm_eq]
        exact reset.interval hi.interval
      · refine settimes_rearm ?_
        rw [reset.frame]
        exact hi.settimes
      · intro _ hne
        rw [htimers] at hne
        exact covered_rearm hpos reset hi.interval hcov hne
      · intro now' started' rest' hp
        rw [rearm_eq, reset.frame] at hp
        cases hp
  | fires d armed =>
      have hcov : q.Covered → Covered { q with timerfd := .fired d } := by
        refine fun h => h.mono ?_ rfl fun f hf => ⟨f, hf, le_refl _⟩
        rw [armed]
        rfl
      refine ⟨hi.interval, hi.settimes, fun hp hne => hcov (hi.idle hp hne), ?_⟩
      intro now started rest hp
      obtain ⟨hpos, hc⟩ := hi.calling now started rest hp
      exact ⟨hpos, fun h => hcov (hc h)⟩

/-- In every state between two operations a queue with timers in it has its
timerfd armed, or fired and not handled yet, with a deadline that is not
after the first expiration, or not more than 100 microseconds after the
timerfd was last armed; and every value it was armed with is one the kernel
accepts, and says 100 microseconds or the time to the expiration, whichever
is longer. -/
theorem timerfd_covers_timers (hr : (machine.restrict soundClock).Reaches new q) :
    (q.phase = .idle → ∀ e, q.timers.begin = some e →
      ∃ d s, q.timerfd.deadline = some d ∧ q.settimes.getLast? = some s ∧
        d ≤ max e.when_ (s.now + 100)) ∧
      ∀ s ∈ q.settimes,
        (s.value.tv_sec ≠ 0 ∨ s.value.tv_nsec ≠ 0) ∧
        (0 ≤ s.value.tv_nsec ∧ s.value.tv_nsec < 1000000000) ∧
        s.value.tv_sec * 1000000000 + s.value.tv_nsec =
          max 100 (s.expiration - s.now) * 1000 := by
  obtain ⟨-, hi⟩ := reaches_induction (I := ArmInv) new_armInv
    (fun hq hi _ hc hs => armInv_step hq hi hc hs) hr
  constructor
  · intro hp e hb
    have hmem := OrdSet.begin_mem hb
    obtain ⟨d, s, hd, hs, hle⟩ := hi.idle hp (List.ne_nil_of_mem hmem)
    exact ⟨d, s, hd, hs, hle e hmem⟩
  · intro s hs
    obtain ⟨h₁, h₂, h₃⟩ := hi.settimes s hs
    exact ⟨h₁, h₂, h₃⟩

/-- A callback adds a timer with an expiration that is not valid. -/
def addInvalid : List TimerAction :=
  [.newTimer 8 5 3 true, .addTimerInLoop 8 1, .timerfdFires, .handleReadBegin 150, .runNext,
    .newTimer 16 (-2) 0 false, .addTimerInLoop 16 160, .handleReadEnd 170]

theorem timerfd_covers_timers_addInvalid :
    ∃ q, (machine.restrict soundClock).run addInvalid new = some q ∧
      q.timers.begin = some (Entry.mk (-2) 16) ∧
      ∃ d s, q.timerfd.deadline = some d ∧ q.settimes.getLast? = some s ∧
        d ≤ max (-2) (s.now + 100) := by
  obtain ⟨q, hr, hp, hb⟩ : ∃ q, (machine.restrict soundClock).run addInvalid new = some q ∧
      q.phase = .idle ∧ q.timers.begin = some (Entry.mk (-2) 16) := ⟨_, rfl, rfl, rfl⟩
  exact ⟨q, hr, hb, (timerfd_covers_timers ⟨addInvalid, hr⟩).1 hp _ hb⟩

end TimerQueue

end Libanet.Net
