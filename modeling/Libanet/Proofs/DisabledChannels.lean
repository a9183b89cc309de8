import Libanet.Proofs.PollerEquivalence

/-!
# What the pollers do with a disabled channel

A channel that has lost its interest is to be watched no more. Both pollers
do that when they are told of it while they watch the channel, and both miss
the update of a channel they do not watch: `EPollPoller` adds a new or
deleted channel to the kernel's set without looking at its mask, and
`PollPoller` gives a new one a slot with its descriptor as it is.

So a second disabling in a row puts a descriptor back into the `epoll` set,
where errors and hangups are reported whatever the mask, and the destructor
of an acceptor that never listened fails the assert of `removeChannel`. What
each poller promises is proved to be promised exactly in the runs without
such updates.

Nothing is assumed of the callers: an operation whose assert fails does not
take place.
-/

namespace Libanet.Net

/-! ## `EPollPoller` -/

namespace EPollPoller

def execOp : PollAction → EPollPoller → Except Fault EPollPoller
  | .update c op, s => updateChannel c (s.set_events c (op.eventsOf s.heap c))
  | .remove c, s => do
      -- `Channel::remove`
      assertThat ((s.heap c).isNoneEvent = true)
      removeChannel c s

/-- Channels and the operations their owners call. -/
def opMachine : Machine EPollPoller PollAction Fault := ⟨fun _ _ => true, execOp⟩

/-- A registered channel is in the kernel's set if and only if it has
interest. -/
def MonitorsEnabled (s : EPollPoller) : Prop :=
  ∀ c, s.channels[(s.heap c).fd]? = some c →
    (s.kernel.contains (s.heap c).fd = true ↔ (s.heap c).events ≠ Channel.kNoneEvent)

/-- An operation that leaves a channel without interest finds it registered
and with some. -/
def DisablesEnabled (s : EPollPoller) : PollAction → Prop
  | .update c op => op.eventsOf s.heap c = Channel.kNoneEvent →
      s.channels[(s.heap c).fd]? = some c ∧ (s.heap c).events ≠ Channel.kNoneEvent
  | .remove _ => True

variable {s s' : EPollPoller} {c : ChannelId}

/-! ### The asserts are the guard -/

theorem canUpdate_of_ok (he : updateChannel c s = .ok s') (h : (s.heap c).index = kNew ∨
    (s.heap c).index = kAdded ∨ (s.heap c).index = kDeleted) : s.canUpdate c = true := by
  obtain hidx | hidx | hidx := h
  · unfold updateChannel at he
    rw [if_pos (Or.inl hidx), if_pos hidx] at he
    obtain ⟨hnone, -⟩ := assertThat_bind_eq_ok.mp he
    simpa [canUpdate, hidx] using hnone
  · have hne : ¬ ((s.heap c).index = kNew ∨ (s.heap c).index = kDeleted) := by
      rw [hidx]
      decide
    unfold updateChannel at he
    rw [if_neg hne] at he
    obtain ⟨-, he⟩ := assertThat_bind_eq_ok.mp he
    obtain ⟨hfound, -⟩ := assertThat_bind_eq_ok.mp he
    simp [canUpdate, hidx, hfound, kNew, kAdded, kDeleted]
  · have hne : (s.heap c).index ≠ kNew := by
      rw [hidx]
      decide
    unfold updateChannel at he
    rw [if_pos (Or.inr hidx), if_neg hne] at he
    obtain ⟨-, he⟩ := assertThat_bind_eq_ok.mp he
    obtain ⟨hfound, -⟩ := assertThat_bind_eq_ok.mp he
    simp [canUpdate, hidx, hfound, kNew, kDeleted]

theorem canRemove_of_ok (he : removeChannel c s = .ok s') : s.canRemove c = true := by
  obtain ⟨-, he⟩ := assertThat_bind_eq_ok.mp he
  obtain ⟨hfound, he⟩ := assertThat_bind_eq_ok.mp he
  obtain ⟨hnone, he⟩ := assertThat_bind_eq_ok.mp he
  obtain ⟨hidx, -⟩ := assertThat_bind_eq_ok.mp he
  exact canRemove_iff.mpr ⟨hfound, hnone, hidx⟩

/-- What an update does that passes its asserts. -/
theorem changed_of_update (h : Agree s) {op : ChannelOp}
    (he : execOp (.update c op) s = .ok s') :
    s.canUpdate c = true ∧ Changed s s' c (nextIndex (s.heap c).index (op.eventsOf s.heap c))
      (op.eventsOf s.heap c) := by
  have he : updateChannel c (s.set_events c (op.eventsOf s.heap c)) = .ok s' := he
  have hset := canUpdate_of_ok he (by simpa [set_events] using h.index c)
  have hg : s.canUpdate c = true := by simpa [canUpdate, set_events] using hset
  obtain ⟨s₁, hs₁, hu⟩ := updateChannel_spec h hg (op.eventsOf s.heap c)
  cases hs₁.symm.trans he
  exact ⟨hg, hu⟩

/-- And a removal. -/
theorem changed_of_remove (h : Agree s) (he : execOp (.remove c) s = .ok s') :
    s.canRemove c = true ∧ Changed s s' c kNew (s.heap c).events := by
  obtain ⟨-, he⟩ := assertThat_bind_eq_ok.mp he
  have hg := canRemove_of_ok he
  obtain ⟨s₁, hs₁, hu⟩ := removeChannel_spec h hg
  cases hs₁.symm.trans he
  exact ⟨hg, hu⟩

/-! ### The index says whether there is interest -/

/-- The kernel has the descriptor of a registered channel if and only if the
channel's index is `kAdded`. -/
theorem Agree.contains_iff (h : Agree s) (hfound : s.channels[(s.heap c).fd]? = some c) :
    s.kernel.contains (s.heap c).fd = true ↔ (s.heap c).index = kAdded := by
  rw [Std.TreeMap.contains_eq_isSome_getElem?, Option.isSome_iff_exists]
  constructor
  · rintro ⟨⟨m, c'⟩, hk⟩
    obtain ⟨hfd, hadded, -⟩ := (h.kernel _ _ _).mp hk
    have hfound' := (h.channels _ c').mpr ⟨hfd, Or.inl hadded⟩
    cases hfound.symm.trans hfound'
    exact hadded
  · intro hadded
    exact ⟨_, (h.kernel _ _ c).mpr ⟨rfl, hadded, rfl⟩⟩

theorem Agree.registered (h : Agree s) (hreg : (s.heap c).index ≠ kNew) :
    s.channels[(s.heap c).fd]? = some c :=
  (h.channels _ c).mpr ⟨rfl, (h.index c).resolve_left hreg⟩

theorem Agree.index_ne_new (h : Agree s) (hfound : s.channels[(s.heap c).fd]? = some c) :
    (s.heap c).index ≠ kNew := by
  obtain ⟨-, hidx | hidx⟩ := (h.channels _ c).mp hfound
  · rw [hidx]
    decide
  · rw [hidx]
    decide

theorem Agree.monitorsEnabled_iff (h : Agree s) : s.MonitorsEnabled ↔
    ∀ c, (s.heap c).index ≠ kNew →
      ((s.heap c).index = kAdded ↔ (s.heap c).events ≠ Channel.kNoneEvent) := by
  constructor
  · intro hm c hreg
    rw [← h.contains_iff (h.registered hreg)]
    exact hm c (h.registered hreg)
  · intro hm c hfound
    rw [h.contains_iff hfound]
    exact hm c (h.index_ne_new hfound)

/-- An update leaves the index the interest calls for, unless it takes the
interest from a channel that had none. -/
theorem nextIndex_iff {index : Int} {events : EventMask} :
    (nextIndex index events = kAdded ↔ events ≠ Channel.kNoneEvent) ↔
      (events = Channel.kNoneEvent → index = kAdded) := by
  unfold nextIndex
  by_cases hev : events = Channel.kNoneEvent
  · by_cases hidx : index = kAdded
    · simp [hev, hidx, kAdded, kDeleted]
    · simp [hev, hidx]
  · simp [hev]

/-- `MonitorsEnabled` after an operation on `c` is a matter of `c` alone. -/
theorem Changed.monitorsEnabled_iff {index : Int} {events : EventMask}
    (hu : Changed s s' c index events) (h : Agree s) (h' : Agree s') (hm : s.MonitorsEnabled) :
    s'.MonitorsEnabled ↔
      (index ≠ kNew → (index = kAdded ↔ events ≠ Channel.kNoneEvent)) := by
  rw [h'.monitorsEnabled_iff]
  rw [h.monitorsEnabled_iff] at hm
  constructor
  · intro hm'
    have hc := hm' c
    rwa [hu.index_self, hu.events_self] at hc
  · intro hc c'
    by_cases hne : c' = c
    · rw [hne, hu.index_self, hu.events_self]
      exact hc
    · rw [hu.index_other hne, hu.events_other hne]
      exact hm c'

theorem monitors_step (h : Agree s) (hm : s.MonitorsEnabled) {a : PollAction}
    (he : execOp a s = .ok s') : Agree s' ∧ (s'.MonitorsEnabled ↔ s.DisablesEnabled a) := by
  cases a with
  | remove c =>
      obtain ⟨hg, hu⟩ := changed_of_remove h he
      have h' := h.changed (canRemove_canUpdate hg) hu (Or.inl rfl)
      refine ⟨h', iff_of_true ?_ trivial⟩
      exact (hu.monitorsEnabled_iff h h' hm).mpr fun hne => absurd rfl hne
  | update c op =>
      obtain ⟨hg, hu⟩ := changed_of_update h he
      have hnext := nextIndex_cases (s.heap c).index (op.eventsOf s.heap c)
      have h' := h.changed hg hu (Or.inr hnext)
      have hne : nextIndex (s.heap c).index (op.eventsOf s.heap c) ≠ kNew := by
        obtain hidx | hidx := hnext
        · rw [hidx]
          decide
        · rw [hidx]
          decide
      -- In a state that is as it should be, `kAdded` is registered interest.
      have hadded : (s.heap c).index = kAdded ↔ s.channels[(s.heap c).fd]? = some c ∧
          (s.heap c).events ≠ Channel.kNoneEvent := by
        have hidx := h.monitorsEnabled_iff.mp hm c
        constructor
        · intro hadded
          have hreg : (s.heap c).index ≠ kNew := by
            rw [hadded]
            decide
          exact ⟨h.registered hreg, (hidx hreg).mp hadded⟩
        · rintro ⟨hfound, hev⟩
          exact (hidx (h.index_ne_new hfound)).mpr hev
      refine ⟨h', ?_⟩
      rw [hu.monitorsEnabled_iff h h' hm]
      show _ ↔ (op.eventsOf s.heap c = Channel.kNoneEvent → _)
      rw [← hadded, ← nextIndex_iff]
      exact ⟨fun hc => hc hne, fun hc _ => hc⟩

theorem MonitorsEnabled.new (fd : ChannelId → Int) : (new fd).MonitorsEnabled :=
  (Agree.new fd).monitorsEnabled_iff.mpr fun _ hne => absurd rfl hne

/-- A disabled channel is out of the kernel's set, and an enabled one in it,
after every step of a run if and only if no operation of the run leaves a
channel without interest that was not registered or had none before. -/
theorem monitorsEnabled_iff_disablesEnabled (fd : ChannelId → Int) (as : List PollAction) :
    (∀ x ∈ opMachine.steps as (new fd), x.2.2.MonitorsEnabled) ↔
      ∀ x ∈ opMachine.steps as (new fd), x.1.DisablesEnabled x.2.1 := by
  refine Machine.steps_iff (I := fun s => Agree s ∧ s.MonitorsEnabled)
    (P := fun x => x.2.2.MonitorsEnabled) ?_ ?_ as ⟨Agree.new fd, MonitorsEnabled.new fd⟩
  · rintro s s' a ⟨h, hm⟩ - he hc
    obtain ⟨h', hiff⟩ := monitors_step h hm he
    exact ⟨⟨h', hiff.mpr hc⟩, hiff.mpr hc⟩
  · rintro s s' a ⟨h, hm⟩ - he hc hm'
    obtain ⟨-, hiff⟩ := monitors_step h hm he
    exact hc (hiff.mp hm')

/-- Reading is stopped, and then everything is disabled once more, as when a
connection that has stopped reading is closed. -/
def disabledTwice : List PollAction :=
  [.update 0 .enableReading, .update 0 .disableReading, .update 0 .disableAll]

theorem disabled_channel_monitored :
    ∃ s, opMachine.Reaches (new fun _ => 7) s ∧ s.channels[(s.heap 0).fd]? = some 0 ∧
      (s.heap 0).events = Channel.kNoneEvent ∧ s.kernel.contains (s.heap 0).fd = true :=
  ⟨_, ⟨disabledTwice, rfl⟩, rfl, rfl, rfl⟩

end EPollPoller

/-! ## `PollPoller` -/

namespace PollSystem

/-- Channels, the operations their owners call, and nothing to hold the
owners back. -/
def opMachine : Machine PollSystem PollAction Fault := ⟨fun _ _ => true, exec true⟩

/-- An update that leaves no interest leaves the slot negated. -/
def IgnoresDisabled : PollSystem × PollAction × PollSystem → Prop
  | (_, .update c _, t) => (t.poller.heap c).events = Channel.kNoneEvent →
      ∃ pfd, slot t c = some pfd ∧ pfd.fd = -(t.poller.heap c).fd - 1
  | (_, .remove _, _) => True

/-- Every registered channel without interest can be removed. -/
def Removable (s : PollSystem) : Prop :=
  ∀ c, s.poller.channels[(s.poller.heap c).fd]? = some c →
    (s.poller.heap c).events = Channel.kNoneEvent →
    ∃ p, PollPoller.removeChannel true c s.poller = .ok p

/-- The first operation on a channel gives it some interest. -/
def EnablesFirst (s : PollSystem) : PollAction → Prop
  | .update c op => s.status c = .fresh →
      op.eventsOf s.poller.heap c ≠ Channel.kNoneEvent
  | .remove _ => True

variable {fd : ChannelId → Nat} {s s' : PollSystem} {c : ChannelId} {op : ChannelOp}

theorem Tracked.removable (h : Tracked .exact fd s) : s.Removable := by
  intro c hfound hev
  obtain ⟨-, hreg⟩ := (h.slots.found _ c).mp hfound
  obtain ⟨p, -, hp, -⟩ := h.slots.remove_disabled true hreg hev
  exact ⟨p, hp⟩

theorem Tracked.ignores_step (h : Tracked .exact fd s) (he : exec true (.update c op) s = .ok s')
    (hfirst : s.EnablesFirst (.update c op)) :
    Tracked .exact fd s' ∧ IgnoresDisabled (s, .update c op, s') := by
  have henc : s.status c = .fresh →
      Encoding.exact.rel (op.eventsOf s.poller.heap c) (fd c) (fd c) := by
    intro hfresh
    show (fd c : Int) = if op.eventsOf s.poller.heap c = Channel.kNoneEvent then _ else _
    rw [if_neg (hfirst hfresh)]
  obtain ⟨h', hreg⟩ := h.update_step he henc
  refine ⟨h', ?_⟩
  intro hev
  obtain ⟨pfd, hslot, hfd⟩ := h'.slots.negated hreg hev
  exact ⟨pfd, hslot, by rw [h'.slots.fds]; exact hfd⟩

/-- A first operation that gives a channel no interest gives it a slot with
its descriptor all the same. -/
theorem Tracked.not_ignored (h : Tracked .exact fd s) (he : exec true (.update c op) s = .ok s')
    (hfresh : s.status c = .fresh) (hev : op.eventsOf s.poller.heap c = Channel.kNoneEvent) :
    ¬ IgnoresDisabled (s, .update c op, s') := by
  obtain ⟨-, hmine⟩ := h.update_of_ok he
  have hnone : s.poller.channels[(fd c : Int)]? = none := by
    cases hf : s.poller.channels[(fd c : Int)]? with
    | none => rfl
    | some c' =>
        obtain ⟨-, hreg⟩ := (h.slots.found _ _).mp hf
        rw [hmine c' hf, hfresh] at hreg
        cases hreg
  have hfd := h.slots.fds c
  obtain ⟨p, hp, he⟩ := bind_eq_ok.mp he
  rw [PollPoller.updateChannel_push (by simp [h.slots.fresh c hfresh])
    (by simpa [hfd] using hnone)] at hp
  cases hp
  cases he
  intro hignored
  obtain ⟨pfd, hslot, hneg⟩ := hignored (by simp [ChannelHeap.events_set_events, hev])
  simp [slot, ChannelHeap.index_set_index, PollPoller.slot?_natCast] at hslot
  subst hslot
  simp [PollPoller.slotOf, hfd] at hneg
  omega

/-- Every update that leaves no interest leaves the slot negated, and every
registered channel without interest can be removed, after every step of a run
if and only if the first operation on each channel of the run gives it some
interest. -/
theorem ignoresDisabled_iff_enablesFirst (fd : ChannelId → Nat) (as : List PollAction) :
    (∀ x ∈ opMachine.steps as (new fun c => fd c), IgnoresDisabled x ∧ x.2.2.Removable) ↔
      ∀ x ∈ opMachine.steps as (new fun c => fd c), x.1.EnablesFirst x.2.1 := by
  refine Machine.steps_iff (I := Tracked .exact fd)
    (P := fun x => IgnoresDisabled x ∧ x.2.2.Removable) ?_ ?_ as (Tracked.new .exact fd)
  · intro s s' a h _ he hc
    cases a with
    | update c op =>
        obtain ⟨h', hignored⟩ := h.ignores_step he hc
        exact ⟨h', hignored, h'.removable⟩
    | remove c =>
        have h' := h.remove_step he
        exact ⟨h', trivial, h'.removable⟩
  · intro s s' a h _ he hc hp
    cases a with
    | remove c => exact hc trivial
    | update c op =>
        by_cases hfresh : s.status c = .fresh
        · by_cases hev : op.eventsOf s.poller.heap c = Channel.kNoneEvent
          · exact h.not_ignored he hfresh hev hp.1
          · exact hc fun _ => hev
        · exact hc fun h => absurd h hfresh

/-- The destructor of an acceptor that never listened. -/
theorem never_enabled_not_removed :
    ∃ s, opMachine.Reaches (new fun _ => 7) s ∧ s.poller.channels[(7 : Int)]? = some 0 ∧
      (s.poller.heap 0).events = Channel.kNoneEvent ∧ slot s 0 = some ⟨7, 0, 0⟩ ∧
      exec true (.remove 0) s = .error .assertion :=
  ⟨_, ⟨[.update 0 .disableAll], rfl⟩, rfl, rfl, rfl, rfl⟩

end PollSystem

end Libanet.Net
