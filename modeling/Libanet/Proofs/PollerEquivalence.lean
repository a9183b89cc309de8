import Libanet.Proofs.EPollAgreement
import Libanet.Proofs.PollSlots

/-!
# The two pollers watch the same descriptors

Driven by the same operations on the same channels, the two pollers are
related through the channels: each watches exactly the registered channels
that have some interest, with that interest. One keeps the others in its map
only, the other under a negated descriptor.

They part when a channel comes back. Removing one, `EPollPoller` resets the
channel's index and `PollPoller` does not, so the latter takes the first
update afterwards for one of a registered channel and fails its assert. The
runs considered are those without such an update.
-/

namespace Libanet.Net

/-- Both pollers over their channels, and what was done to the channels. -/
structure PollerPair where
  epoll : EPollPoller
  poll : PollPoller
  status : ChannelId → Registration

namespace PollerPair

def events (s : PollerPair) (c : ChannelId) : EventMask := (s.epoll.heap c).events

/-- The first update of a channel, after it was constructed or removed,
enables something; `disableAll` is called when something is enabled, and
`remove` when the channel is registered and nothing is. -/
def guard (s : PollerPair) : PollAction → Bool
  | .update c op =>
      (s.status c = .registered ∨ op.eventsOf s.epoll.heap c ≠ Channel.kNoneEvent) ∧
        (op = .disableAll → s.events c ≠ Channel.kNoneEvent)
  | .remove c => s.status c = .registered ∧ s.events c = Channel.kNoneEvent

def exec : PollAction → PollerPair → Except Fault PollerPair
  | .update c op, s => do
      let epoll ← EPollPoller.updateChannel c
        (s.epoll.set_events c (op.eventsOf s.epoll.heap c))
      let poll ← PollPoller.updateChannel true c
        { s.poll with heap := s.poll.heap.set_events c (op.eventsOf s.poll.heap c) }
      return ⟨epoll, poll, PollSystem.mark s.status c .registered⟩
  | .remove c, s => do
      assertThat ((s.epoll.heap c).isNoneEvent = true)
      let epoll ← EPollPoller.removeChannel c s.epoll
      assertThat ((s.poll.heap c).isNoneEvent = true)
      let poll ← PollPoller.removeChannel true c s.poll
      return ⟨epoll, poll, PollSystem.mark s.status c .removed⟩

def machine : Machine PollerPair PollAction Fault := ⟨guard, exec⟩

/-- The channel was not removed before. -/
def stays (s : PollerPair) : PollAction → Bool
  | .update c _ => s.status c ≠ .removed
  | .remove _ => true

def new (fd : ChannelId → Int) : PollerPair :=
  ⟨EPollPoller.new fd, PollPoller.new fd, fun _ => .fresh⟩

end PollerPair

/-- `fd` is watched for `events` by the kernel's `epoll`. -/
def EPollPoller.Monitors (s : EPollPoller) (fd : Int) (events : EventMask) : Prop :=
  events ≠ Channel.kNoneEvent ∧ ∃ c, s.kernel[fd]? = some (events, c)

/-- `fd` is watched for `events` by the next call of `poll(2)`. -/
def PollPoller.Monitors (s : PollPoller) (fd : Int) (events : EventMask) : Prop :=
  ∃ pfd ∈ s.pollfds, 0 ≤ pfd.fd ∧ pfd.fd = fd ∧ pfd.eventsInt = events

/-- The descriptor while there is interest, its complement while there is
none. -/
def Encoding.exact : Encoding where
  rel events fd x := x = if events = Channel.kNoneEvent then -fd - 1 else fd
  sound h := by
    split at h
    · exact Or.inr h
    · exact Or.inl h
  set _ _ := rfl

/-- A registered channel without interest has its slot negated. -/
theorem PollSystem.Slots.negated {fd : ChannelId → Nat} {s : PollSystem}
    (h : Slots .exact fd s) {c : ChannelId} (hc : s.status c = .registered)
    (hev : (s.poller.heap c).events = Channel.kNoneEvent) :
    ∃ pfd, PollSystem.slot s c = some pfd ∧ pfd.fd = -fd c - 1 := by
  obtain ⟨i, pfd, hi, hpfd, hrel, -⟩ := h.slot c hc
  refine ⟨pfd, ?_, ?_⟩
  · rw [PollSystem.slot, hi, PollPoller.slot?_natCast, hpfd]
  · have hrel : pfd.fd = if (s.poller.heap c).events = Channel.kNoneEvent
        then -(fd c : Int) - 1 else fd c := hrel
    rwa [if_pos hev] at hrel

/-- So it can be removed. -/
theorem PollSystem.Slots.remove_disabled {fd : ChannelId → Nat} {s : PollSystem}
    (h : Slots .exact fd s) (debug : Bool) {c : ChannelId} (hc : s.status c = .registered)
    (hev : (s.poller.heap c).events = Channel.kNoneEvent) :
    ∃ p i, PollPoller.removeChannel debug c s.poller = .ok p ∧ Taken fd s p c i := by
  obtain ⟨pfd, hslot, hfd⟩ := h.negated hc hev
  refine h.remove debug hc fun _ => ⟨beq_iff_eq.mpr hev, ?_⟩
  intro pfd' hpfd'
  cases hslot.symm.trans hpfd'
  exact hfd

namespace PollerPair

/-- How the two pollers are related. -/
structure Related (fd : ChannelId → Nat) (s : PollerPair) : Prop where
  agree : s.epoll.Agree
  slots : PollSystem.Slots .exact fd ⟨s.poll, s.status⟩
  fds (c : ChannelId) : (s.epoll.heap c).fd = fd c
  events (c : ChannelId) : (s.epoll.heap c).events = (s.poll.heap c).events
  status (c : ChannelId) : s.status c = .registered ↔ (s.epoll.heap c).index ≠ EPollPoller.kNew
  deleted (c : ChannelId) : (s.epoll.heap c).index = EPollPoller.kDeleted →
    (s.epoll.heap c).events = Channel.kNoneEvent

variable {fd : ChannelId → Nat} {s : PollerPair}

theorem Related.new (fd : ChannelId → Nat) : Related fd (new fun c => fd c) where
  agree := EPollPoller.Agree.new _
  slots := PollSystem.Slots.new _ _
  fds c := rfl
  events c := rfl
  status c := by simp [PollerPair.new, EPollPoller.new, ChannelHeap.new, PolledChannel.new,
    EPollPoller.kNew]
  deleted c _ := rfl

theorem Related.epoll_monitors (h : Related fd s) {k : Int} {m : EventMask} :
    s.epoll.Monitors k m ↔ m ≠ Channel.kNoneEvent ∧
      ∃ c, s.status c = .registered ∧ k = fd c ∧ m = (s.epoll.heap c).events := by
  constructor
  · rintro ⟨hm, c, hk⟩
    obtain ⟨hfd, hadded, hev⟩ := (h.agree.kernel _ _ _).mp hk
    refine ⟨hm, c, ?_, by rw [← hfd, h.fds], hev⟩
    rw [h.status, hadded]
    decide
  · rintro ⟨hm, c, hreg, hk, hev⟩
    refine ⟨hm, c, (h.agree.kernel _ _ _).mpr ⟨by rw [h.fds, hk], ?_, hev⟩⟩
    obtain hidx | hidx | hidx := h.agree.index c
    · exact absurd hidx ((h.status c).mp hreg)
    · exact hidx
    · exact absurd (hev.trans (h.deleted c hidx)) hm

theorem Related.poll_monitors (h : Related fd s) {k : Int} {m : EventMask} :
    s.poll.Monitors k m ↔ m ≠ Channel.kNoneEvent ∧
      ∃ c, s.status c = .registered ∧ k = fd c ∧ m = (s.epoll.heap c).events := by
  constructor
  · rintro ⟨pfd, hmem, hpos, hk, hev⟩
    obtain ⟨i, hi, hpfd⟩ := List.mem_iff_getElem.mp hmem
    obtain ⟨c, hreg, hidx⟩ := h.slots.owner i hi
    obtain ⟨j, pfd', hj, hpfd', hrel, hev'⟩ := h.slots.slot c hreg
    have hij : j = i := by omega
    have hsame : pfd = pfd' := by
      rw [hij, List.getElem?_eq_getElem hi, hpfd] at hpfd'
      exact Option.some.inj hpfd'
    have hrel : pfd.fd = if (s.poll.heap c).events = Channel.kNoneEvent then -(fd c : Int) - 1
        else fd c := by rw [hsame]; exact hrel
    have hm : m = (s.poll.heap c).events := by rw [← hev, hsame]; exact hev'
    rw [← hm] at hrel
    split at hrel
    · omega
    · next hne => exact ⟨hne, c, hreg, by omega, by rw [h.events, hm]⟩
  · rintro ⟨hm, c, hreg, hk, hev⟩
    obtain ⟨i, pfd, hi, hpfd, hrel, hev'⟩ := h.slots.slot c hreg
    have hm' : (s.poll.heap c).events = m := by rw [hev, h.events]
    have hrel : pfd.fd = if (s.poll.heap c).events = Channel.kNoneEvent then -(fd c : Int) - 1
        else fd c := hrel
    rw [hm', if_neg hm] at hrel
    exact ⟨pfd, List.mem_of_getElem? hpfd, by omega, by omega, by rw [hev']; exact hm'⟩

/-- A channel that may be updated passes the asserts of `EPollPoller`. -/
theorem Related.canUpdate (hinj : Function.Injective fd) (h : Related fd s) (c : ChannelId) :
    s.epoll.canUpdate c = true := by
  unfold EPollPoller.canUpdate
  by_cases hidx : (s.epoll.heap c).index = EPollPoller.kNew
  · simp only [hidx, if_true, decide_eq_true_eq]
    cases hfound : s.epoll.channels[(s.epoll.heap c).fd]? with
    | none => rfl
    | some c' =>
        obtain ⟨hfd, hreg⟩ := (h.agree.channels _ _).mp hfound
        rw [h.fds, h.fds] at hfd
        rw [hinj (by omega : fd c' = fd c), hidx] at hreg
        exact absurd hreg (by decide)
  · obtain hreg | hreg := (h.agree.index c).resolve_left hidx
    · have hfound := (h.agree.channels _ c).mpr ⟨rfl, Or.inl hreg⟩
      simp [hreg, hfound, EPollPoller.kNew, EPollPoller.kAdded, EPollPoller.kDeleted]
    · have hfound := (h.agree.channels _ c).mpr ⟨rfl, Or.inr hreg⟩
      simp [hreg, hfound, EPollPoller.kNew, EPollPoller.kAdded, EPollPoller.kDeleted]

theorem nextIndex_deleted {index : Int} {events : EventMask}
    (h : EPollPoller.nextIndex index events = EPollPoller.kDeleted) :
    events = Channel.kNoneEvent := by
  unfold EPollPoller.nextIndex at h
  split at h
  · next hcond => exact hcond.2
  · exact absurd h (by decide)

theorem Related.update (hinj : Function.Injective fd) (h : Related fd s) {c : ChannelId}
    {op : ChannelOp} (hg : s.guard (.update c op) = true) (hst : s.status c ≠ .removed) :
    ∃ s', exec (.update c op) s = .ok s' ∧ Related fd s' := by
  obtain ⟨hfirst, -⟩ := of_decide_eq_true hg
  have hops : op.eventsOf s.epoll.heap c = op.eventsOf s.poll.heap c :=
    op.eventsOf_congr (h.events c)
  have henc : s.status c = .fresh →
      Encoding.exact.rel (op.eventsOf s.poll.heap c) (fd c) (fd c) := by
    intro hfresh
    rw [hfresh] at hfirst
    show (fd c : Int) = if op.eventsOf s.poll.heap c = Channel.kNoneEvent then _ else _
    rw [← hops, if_neg (hfirst.resolve_left (by decide))]
  obtain ⟨epoll, hepoll, hu⟩ := EPollPoller.updateChannel_spec h.agree (h.canUpdate hinj c)
    (op.eventsOf s.epoll.heap c)
  have hmine := h.slots.mine_of_injective hinj c
  obtain ⟨p, i, hp, hplaced⟩ := h.slots.update true hmine op hst henc
  refine ⟨⟨epoll, p, PollSystem.mark s.status c .registered⟩, ?_, ?_⟩
  · exact bind_eq_ok.mpr ⟨epoll, hepoll, bind_eq_ok.mpr ⟨p, hp, rfl⟩⟩
  constructor
  · exact h.agree.changed (h.canUpdate hinj c) hu (Or.inr (EPollPoller.nextIndex_cases _ _))
  · exact h.slots.placed hmine ((h.slots.interest c).eventsOf op) hplaced
  · intro c'
    exact (hu.fd c').trans (h.fds c')
  · intro c'
    rw [hplaced.heap, ChannelHeap.events_set_index, ChannelHeap.events_set_events]
    by_cases hc : c' = c
    · rw [hc, if_pos rfl, hu.events_self, hops]
    · rw [if_neg hc, hu.events_other hc, h.events]
  · intro c'
    show PollSystem.mark s.status c .registered c' = .registered ↔ (epoll.heap c').index ≠ _
    by_cases hc : c' = c
    · rw [hc, hu.index_self, PollSystem.mark_same]
      obtain hnext | hnext := EPollPoller.nextIndex_cases (s.epoll.heap c).index
        (op.eventsOf s.epoll.heap c)
      · rw [hnext]; decide
      · rw [hnext]; decide
    · rw [hu.index_other hc, PollSystem.mark_other _ _ hc, h.status]
  · intro c' hdel
    by_cases hc : c' = c
    · rw [hc, hu.index_self] at hdel
      rw [hc, hu.events_self]
      exact nextIndex_deleted hdel
    · rw [hu.index_other hc] at hdel
      rw [hu.events_other hc]
      exact h.deleted c' hdel

theorem Related.remove (hinj : Function.Injective fd) (h : Related fd s) {c : ChannelId}
    (hg : s.guard (.remove c) = true) : ∃ s', exec (.remove c) s = .ok s' ∧ Related fd s' := by
  obtain ⟨hreg, hev⟩ := of_decide_eq_true hg
  have hev : (s.epoll.heap c).events = Channel.kNoneEvent := hev
  have hnone : (s.epoll.heap c).isNoneEvent = true := beq_iff_eq.mpr hev
  have hnone' : (s.poll.heap c).isNoneEvent = true := by
    rw [h.events] at hev
    exact beq_iff_eq.mpr hev
  have hidx := (h.agree.index c).resolve_left ((h.status c).mp hreg)
  have hrem : s.epoll.canRemove c = true :=
    EPollPoller.canRemove_iff.mpr ⟨(h.agree.channels _ _).mpr ⟨rfl, hidx⟩, hnone, hidx⟩
  obtain ⟨epoll, hepoll, hu⟩ := EPollPoller.removeChannel_spec h.agree hrem
  obtain ⟨p, i, hp, ht⟩ := h.slots.remove_disabled true hreg ((h.events c).symm.trans hev)
  refine ⟨⟨epoll, p, PollSystem.mark s.status c .removed⟩, ?_, ?_⟩
  · refine assertThat_bind_eq_ok.mpr ⟨hnone, bind_eq_ok.mpr ⟨epoll, hepoll, ?_⟩⟩
    exact assertThat_bind_eq_ok.mpr ⟨hnone', bind_eq_ok.mpr ⟨p, hp, rfl⟩⟩
  constructor
  · exact h.agree.changed (h.canUpdate hinj c) hu (Or.inl rfl)
  · exact h.slots.taken hreg ht
  · intro c'
    exact (hu.fd c').trans (h.fds c')
  · intro c'
    rw [ht.events]
    by_cases hc : c' = c
    · rw [hc, hu.events_self]
      exact h.events c
    · rw [hu.events_other hc]
      exact h.events c'
  · intro c'
    show PollSystem.mark s.status c .removed c' = .registered ↔ (epoll.heap c').index ≠ _
    by_cases hc : c' = c
    · rw [hc, hu.index_self, PollSystem.mark_same]
      decide
    · rw [hu.index_other hc, PollSystem.mark_other _ _ hc, h.status]
  · intro c' hdel
    by_cases hc : c' = c
    · rw [hc, hu.events_self]
      exact hev
    · rw [hu.index_other hc] at hdel
      rw [hu.events_other hc]
      exact h.deleted c' hdel

theorem Related.step (hinj : Function.Injective fd) (h : Related fd s) {a : PollAction}
    (hg : (machine.restrict stays).guard s a = true) :
    ∃ s', exec a s = .ok s' ∧ Related fd s' := by
  obtain ⟨hg, hstays⟩ := Bool.and_eq_true_iff.mp hg
  cases a with
  | update c op => exact h.update hinj hg (of_decide_eq_true hstays)
  | remove c => exact h.remove hinj hg

/-- As long as no channel is updated after it was removed, both pollers
accept every operation, and afterwards they watch the same descriptors for
the same events. -/
theorem pollers_equivalent {fd : ChannelId → Nat} (hinj : Function.Injective fd)
    {as : List PollAction} {s : PollerPair}
    (hr : (machine.restrict stays).run as (new fun c => fd c) = some s) :
    (machine.restrict stays).Safe s ∧
      ∀ k m, s.epoll.Monitors k m ↔ s.poll.Monitors k m := by
  have h : Related fd s := by
    refine Machine.run_invariant ?_ (Related.new fd) hr
    intro s t a h hg he
    obtain ⟨s', hs, h'⟩ := h.step hinj hg
    cases hs.symm.trans he
    exact h'
  constructor
  · intro a hg
    obtain ⟨s', hs, -⟩ := h.step hinj hg
    exact ⟨s', hs⟩
  · intro k m
    rw [h.epoll_monitors, h.poll_monitors]

/-- Two channels; one loses its interest and is removed. -/
def enableAndRemove : List PollAction :=
  [.update 0 .enableReading, .update 1 .enableWriting, .update 0 .disableReading, .remove 0]

theorem pollers_equivalent_enableAndRemove :
    ∃ s, (machine.restrict stays).run enableAndRemove (new fun c => (c : Int)) = some s ∧
      s.poll.Monitors 1 Channel.kWriteEvent := by
  obtain ⟨s, hr, hk⟩ : ∃ s, (machine.restrict stays).run enableAndRemove
      (new fun c => (c : Int)) = some s ∧
      s.epoll.kernel[(1 : Int)]? = some (Channel.kWriteEvent, 1) := ⟨_, rfl, rfl⟩
  obtain ⟨-, heq⟩ := @pollers_equivalent (fun c => c) Function.injective_id _ _ hr
  exact ⟨s, hr, (heq 1 Channel.kWriteEvent).mp ⟨by decide, 1, hk⟩⟩

/-- The channel that was removed is enabled again: `EPollPoller` adds it,
and `PollPoller`, which finds the old index on it, fails its assert. -/
theorem pollers_differ_on_reenable :
    ∃ s, machine.run enableAndRemove (new fun c => (c : Int)) = some s ∧
      s.guard (.update 0 .enableReading) = true ∧
      (∃ e, EPollPoller.updateChannel 0 (s.epoll.set_events 0 Channel.kReadEvent) = .ok e ∧
        e.kernel[(0 : Int)]? = some (Channel.kReadEvent, 0)) ∧
      exec (.update 0 .enableReading) s = .error .assertion :=
  ⟨_, rfl, rfl, ⟨_, rfl, rfl⟩, rfl⟩

end PollerPair

end Libanet.Net
