import Libanet.Proofs.PollReports

/-!
# The room of `events_`

A poll that finds more descriptors ready than `events_` has room for leaves
some of them out, and doubles the room. Nothing makes it smaller again. So
however long a loop runs, and whatever comes and goes, few of its polls are cut
short: if never more than `M` channels are due at once, the polls cut short are
fewer than the doublings from 16 to `M`. All others report everything that is
due. And the room has not grown beyond what is needed, but for the factor of
the last doubling.

The runs are those in which the pollers report alike. An update that leaves
without interest a channel that had none is not among them: it puts the
descriptor back into the kernel's list, and a hangup that is reported from
there takes room and is due to nobody.
-/

namespace Libanet.Net

namespace PollerPair

variable {fd : ChannelId → Nat} {s t : PollerPair} {cond : Conditions}

/-- How many channels are due in the poll, if the step is one. -/
def due : PollerPair × PairStep × PollerPair → Nat
  | (s, .poll cond _, _) => (s.dueChannels cond).length
  | (_, .op _, _) => 0

/-- The step is a poll that has no room for all of them. -/
def cutShort (x : PollerPair × PairStep × PollerPair) : Bool := x.1.epoll.eventsSize < due x

theorem cutShort_iff {x : PollerPair × PairStep × PollerPair} :
    cutShort x = true ↔ x.1.epoll.eventsSize < due x := decide_eq_true_iff

/-- The poll of the step, if it is one, reports all channels that are due. -/
def ReportsAll : PollerPair × PairStep × PollerPair → Prop
  | (s, .poll cond answer, _) => ∃ active epoll, s.epoll.poll (some answer) = .ok (active, epoll) ∧
      active.Nodup ∧ ∀ c, c ∈ active ↔ s.Due cond c
  | (_, .op _, _) => True

/-- A poll leaves the room as it is, or doubles it when it is used up. -/
theorem Watching.eventsSize (h : Watching fd s) {answer : List (Int × EventMask)}
    (hg : pollingGuard s (.poll cond answer) = true)
    (he : pollingExec (.poll cond answer) s = .ok t) :
    t.epoll.eventsSize = if s.epoll.eventsSize ≤ (s.dueChannels cond).length
      then s.epoll.eventsSize * 2 else s.epoll.eventsSize := by
  obtain ⟨active, heap, hepoll, -, hlen, -⟩ := h.epoll_reports (of_decide_eq_true hg)
  obtain ⟨r, hr, he⟩ := bind_eq_ok.mp he
  cases hepoll.symm.trans hr
  obtain ⟨r, -, he⟩ := bind_eq_ok.mp he
  cases he
  have hiff : active.length = s.epoll.eventsSize ↔
      s.epoll.eventsSize ≤ (s.dueChannels cond).length := by omega
  simp only [hiff]

theorem op_eventsSize {a : PollAction} (he : pollingExec (.op a) s = .ok t) :
    t.epoll.eventsSize = s.epoll.eventsSize := by
  cases a with
  | update c op =>
      obtain ⟨epoll, hepoll, he⟩ := bind_eq_ok.mp he
      obtain ⟨poll, -, he⟩ := bind_eq_ok.mp he
      cases he
      show epoll.eventsSize = _
      rw [EPollPoller.updateChannel_eventsSize hepoll]
      rfl
  | remove c =>
      obtain ⟨-, he⟩ := assertThat_bind_eq_ok.mp he
      obtain ⟨epoll, hepoll, he⟩ := bind_eq_ok.mp he
      obtain ⟨-, he⟩ := assertThat_bind_eq_ok.mp he
      obtain ⟨poll, -, he⟩ := bind_eq_ok.mp he
      cases he
      exact EPollPoller.removeChannel_eventsSize hepoll

/-- What a step does to the room. -/
theorem Watching.room_step (h : Watching fd s) {a : PairStep} (hg : pollingGuard s a = true)
    (he : pollingExec a s = .ok t) :
    t.epoll.eventsSize = (if 0 < due (s, a, t) ∧ s.epoll.eventsSize ≤ due (s, a, t)
      then s.epoll.eventsSize * 2 else s.epoll.eventsSize) := by
  have hroom := h.room
  cases a with
  | op a =>
      rw [op_eventsSize he, if_neg]
      intro hdue
      exact absurd hdue.1 (Nat.lt_irrefl 0)
  | poll cond answer =>
      have hiff : s.epoll.eventsSize ≤ (s.dueChannels cond).length ↔
          0 < due (s, .poll cond answer, t) ∧
            s.epoll.eventsSize ≤ due (s, .poll cond answer, t) := by
        have hdue : due (s, .poll cond answer, t) = (s.dueChannels cond).length := rfl
        rw [hdue]
        omega
      rw [h.eventsSize hg he]
      simp only [hiff]

theorem Watching.room_doubles (h : Watching fd s) {a : PairStep} (hg : pollingGuard s a = true)
    (he : pollingExec a s = .ok t) : s.epoll.eventsSize ≤ t.epoll.eventsSize ∧
      (cutShort (s, a, t) = true → s.epoll.eventsSize * 2 ≤ t.epoll.eventsSize) := by
  have hstep := h.room_step hg he
  refine ⟨?_, fun hcut => ?_⟩
  · split at hstep <;> omega
  · have hlt : s.epoll.eventsSize < due (s, a, t) := cutShort_iff.mp hcut
    rw [if_pos ⟨by omega, by omega⟩] at hstep
    exact Nat.le_of_eq hstep.symm

/-- With enough room everything is reported. -/
theorem Watching.reportsAll (h : Watching fd s) {a : PairStep} (hg : pollingGuard s a = true)
    (hroom : ¬ s.epoll.eventsSize < due (s, a, t)) : ReportsAll (s, a, t) := by
  cases a with
  | op a => trivial
  | poll cond answer =>
      obtain ⟨active, heap, hepoll, hsub, hlen, -⟩ := h.epoll_reports (of_decide_eq_true hg)
      have hle : (s.dueChannels cond).length ≤ s.epoll.eventsSize := Nat.not_lt.mp hroom
      rw [Nat.min_eq_left hle] at hlen
      have hperm := hsub.perm_of_length_le (Nat.le_of_eq hlen.symm)
      refine ⟨active, _, hepoll, hperm.nodup_iff.mpr h.nodup_dueChannels, fun c => ?_⟩
      rw [hperm.mem_iff]
      exact h.mem_dueChannels

variable {as : List PairStep} {M : Nat}

/-- The room has not grown beyond twice of what was due. -/
theorem Watching.room_le (hinj : Function.Injective fd) (h : Watching fd s)
    (hr : pollingMachine.run as s = some t) (hM : ∀ x ∈ pollingMachine.steps as s, due x ≤ M) :
    t.epoll.eventsSize ≤ max s.epoll.eventsSize (2 * M) := by
  induction as generalizing s with
  | nil =>
      cases hr
      exact Nat.le_max_left _ _
  | cons a as ih =>
      obtain ⟨u, hg, he, hr⟩ := Machine.run_cons.mp hr
      rw [Machine.steps_cons (Machine.step_eq_some.mpr ⟨hg, he⟩)] at hM
      obtain ⟨hhead, htail⟩ := List.forall_mem_cons.mp hM
      have hrest := ih (h.step hinj hg he) hr htail
      have hu := h.room_step hg he
      have hdue : due (s, a, u) ≤ M := hhead
      split at hu
      · omega
      · rwa [hu] at hrest

/-- In a run in which never more than `M` channels are due at once, a poll
reports all that are due, or is one of a few: with every one of these the room
doubles, from 16 on, and it does not come to more than twice `M`. The runs are
those of channels with descriptors of their own which are not updated once they
are removed, nor left without interest by an update when they had none. -/
theorem few_polls_cut_short (hinj : Function.Injective fd)
    (hr : pollingMachine.run as (new fun c => fd c) = some t)
    (hM : ∀ x ∈ pollingMachine.steps as (new fun c => fd c), due x ≤ M) :
    (∀ x ∈ pollingMachine.steps as (new fun c => fd c), cutShort x = true ∨ ReportsAll x) ∧
      16 * 2 ^ (pollingMachine.steps as (new fun c => fd c)).countP cutShort
        ≤ t.epoll.eventsSize ∧
      ((pollingMachine.steps as (new fun c => fd c)).countP cutShort = 0 ∨
        16 * 2 ^ (pollingMachine.steps as (new fun c => fd c)).countP cutShort < 2 * M) ∧
      t.epoll.eventsSize ≤ max 16 (2 * M) := by
  have hnew := Watching.new fd
  obtain ⟨hgrown, hfew⟩ := Machine.run_doubles (m := pollingMachine) (I := Watching fd)
    (f := fun s => s.epoll.eventsSize) (B := M) (fun h hg he => h.step hinj hg he)
    (fun h hg he => h.room_doubles hg he) hnew hr
    (fun x hx hcut => Nat.lt_of_lt_of_le (cutShort_iff.mp hcut) (hM x hx))
  refine ⟨?_, hgrown, hfew, hnew.room_le hinj hr hM⟩
  refine (Machine.steps_iff (m := pollingMachine) (I := Watching fd) (C := fun _ _ => True)
    (fun {s t a} h hg he _ => ⟨h.step hinj hg he, ?_⟩) (fun _ _ _ hno => absurd trivial hno)
    as hnew).mpr fun _ _ => trivial
  by_cases hcut : cutShort (s, a, t) = true
  · exact Or.inl hcut
  · exact Or.inr (h.reportsAll hg fun hlt => hcut (cutShort_iff.mpr hlt))

/-- Seventeen channels that stay readable, and two polls of them. The first
one is one channel short. -/
def seventeenReadable : List PairStep :=
  (List.range 17).map (fun c => .op (.update c .enableReading)) ++
    [.poll (fun _ => POLLIN) ((List.range 16).map fun c => ((c + 5 : Nat), POLLIN)),
      .poll (fun _ => POLLIN) ((List.range 17).map fun c => ((c + 5 : Nat), POLLIN))]

theorem few_polls_cut_short_seventeenReadable :
    ∃ t, pollingMachine.run seventeenReadable (new fun c => ((c + 5 : Nat) : Int)) = some t ∧
      (pollingMachine.steps seventeenReadable
        (new fun c => ((c + 5 : Nat) : Int))).countP cutShort = 1 ∧
      (∀ x ∈ pollingMachine.steps seventeenReadable (new fun c => ((c + 5 : Nat) : Int)),
        cutShort x = true ∨ ReportsAll x) ∧
      32 ≤ t.epoll.eventsSize ∧ t.epoll.eventsSize ≤ 34 := by
  have hrun : (pollingMachine.run seventeenReadable
      (new fun c => ((c + 5 : Nat) : Int))).isSome = true := by decide +kernel
  obtain ⟨t, hr⟩ := Option.isSome_iff_exists.mp hrun
  have hcut : (pollingMachine.steps seventeenReadable
      (new fun c => ((c + 5 : Nat) : Int))).countP cutShort = 1 := by decide +kernel
  have hM : ∀ x ∈ pollingMachine.steps seventeenReadable (new fun c => ((c + 5 : Nat) : Int)),
      due x ≤ 17 := by
    have hall : (pollingMachine.steps seventeenReadable (new fun c => ((c + 5 : Nat) : Int))).all
        (fun x => decide (due x ≤ 17)) = true := by decide +kernel
    exact fun x hx => of_decide_eq_true (List.all_eq_true.mp hall x hx)
  obtain ⟨hall, hgrown, -, hle⟩ :=
    few_polls_cut_short (fun _ _ h => Nat.add_right_cancel h) hr hM
  rw [hcut] at hgrown
  exact ⟨t, hr, hcut, hall, hgrown, hle⟩

end PollerPair

end Libanet.Net
