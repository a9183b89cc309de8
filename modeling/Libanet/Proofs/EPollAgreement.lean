import Libanet.Lib.Machine
import Libanet.Net.EPollPoller
import Libanet.Proofs.Channel

/-!
# The poller and the kernel agree

Whether a channel is registered is kept three times: in the index on the
channel, in the poller's map and in the kernel's interest list. The two
operations change the three in different orders, and an `epoll_ctl` that
finds the kernel in another state than it expects aborts the process. So
the invariant says that the three agree, for every channel, and each
operation is first described by what it does to the three.

The channels are any number, and several of them may have the same
descriptor: one that was closed can be handed out again. The asserts at the
entry of the operations are the guard.
-/

namespace Libanet.Net

inductive EPollAction where
  /-- The channel's interest becomes `events` and the poller is told. -/
  | updateChannel (c : ChannelId) (events : EventMask)
  | removeChannel (c : ChannelId)
  /-- `epoll_wait` returned, none standing for an error. -/
  | poll (ready : Option (List (Int × EventMask)))
  deriving DecidableEq

namespace EPollPoller

/-- The asserts at the entry of `updateChannel`. -/
def canUpdate (s : EPollPoller) (c : ChannelId) : Bool :=
  let found := s.channels[(s.heap c).fd]?
  let index := (s.heap c).index
  if index = kNew then found = none
  else found = some c ∧ (index = kDeleted ∨ index = kAdded)

/-- The asserts at the entry of `removeChannel`. -/
def canRemove (s : EPollPoller) (c : ChannelId) : Bool :=
  s.channels[(s.heap c).fd]? = some c ∧ (s.heap c).isNoneEvent = true ∧
    ((s.heap c).index = kAdded ∨ (s.heap c).index = kDeleted)

def guard (s : EPollPoller) : EPollAction → Bool
  | .updateChannel c _ => s.canUpdate c
  | .removeChannel c => s.canRemove c
  -- `epoll_wait` stores at most as many events as it was given room for.
  | .poll ready => (s.kernel.epoll_wait (ready.getD [])).length ≤ s.eventsSize

def exec : EPollAction → EPollPoller → Except Fault EPollPoller
  | .updateChannel c events, s => updateChannel c (s.set_events c events)
  | .removeChannel c, s => removeChannel c s
  | .poll ready, s => Prod.snd <$> poll ready s

def machine : Machine EPollPoller EPollAction Fault := ⟨guard, exec⟩

/-- The three copies agree, and `epoll_ctl` was only ever called where it
cannot fail. -/
structure Agree (s : EPollPoller) : Prop where
  index (c : ChannelId) : (s.heap c).index = kNew ∨ (s.heap c).index = kAdded ∨
    (s.heap c).index = kDeleted
  channels (fd : Int) (c : ChannelId) : s.channels[fd]? = some c ↔
    (s.heap c).fd = fd ∧ ((s.heap c).index = kAdded ∨ (s.heap c).index = kDeleted)
  kernel (fd : Int) (m : EventMask) (c : ChannelId) : s.kernel[fd]? = some (m, c) ↔
    (s.heap c).fd = fd ∧ (s.heap c).index = kAdded ∧ m = (s.heap c).events
  ctls (x : EpollCtl) : x ∈ s.ctls → (x.present = true ↔ x.op ≠ .EPOLL_CTL_ADD)

theorem Agree.new (fd : ChannelId → Int) : Agree (new fd) where
  index c := Or.inl rfl
  channels fd' c := by simp [EPollPoller.new, ChannelHeap.new, PolledChannel.new, kAdded, kDeleted]
  kernel fd' m c := by simp [EPollPoller.new, ChannelHeap.new, PolledChannel.new, kAdded]
  ctls x hx := by simp [EPollPoller.new] at hx

/-! ## The operations -/

theorem update_add {s : EPollPoller} {c : ChannelId} (h : s.kernel[(s.heap c).fd]? = none) :
    update .EPOLL_CTL_ADD c s = .ok { s with
      kernel := s.kernel.insert (s.heap c).fd ((s.heap c).events, c)
      ctls := s.ctls ++ [⟨.EPOLL_CTL_ADD, (s.heap c).fd, false⟩] } := by
  have habsent : s.kernel.contains (s.heap c).fd = false := by
    rw [Std.TreeMap.contains_eq_isSome_getElem?, h]
    rfl
  simp [update, EpollKernel.epoll_ctl, habsent]

theorem contains_of {s : EPollPoller} {fd : Int} {x : EventMask × ChannelId}
    (h : s.kernel[fd]? = some x) : s.kernel.contains fd = true := by
  rw [Std.TreeMap.contains_eq_isSome_getElem?, h]
  rfl

theorem update_mod {s : EPollPoller} {c : ChannelId} {x : EventMask × ChannelId}
    (h : s.kernel[(s.heap c).fd]? = some x) :
    update .EPOLL_CTL_MOD c s = .ok { s with
      kernel := s.kernel.insert (s.heap c).fd ((s.heap c).events, c)
      ctls := s.ctls ++ [⟨.EPOLL_CTL_MOD, (s.heap c).fd, true⟩] } := by
  simp [update, EpollKernel.epoll_ctl, contains_of h]

theorem update_del {s : EPollPoller} {c : ChannelId} {x : EventMask × ChannelId}
    (h : s.kernel[(s.heap c).fd]? = some x) :
    update .EPOLL_CTL_DEL c s = .ok { s with
      kernel := s.kernel.erase (s.heap c).fd
      ctls := s.ctls ++ [⟨.EPOLL_CTL_DEL, (s.heap c).fd, true⟩] } := by
  simp [update, EpollKernel.epoll_ctl, contains_of h]

theorem updateChannel_new {s : EPollPoller} {c : ChannelId} (hidx : (s.heap c).index = kNew)
    (hnone : s.channels[(s.heap c).fd]? = none) (hk : s.kernel[(s.heap c).fd]? = none) :
    updateChannel c s = .ok { s with
      channels := s.channels.insert (s.heap c).fd c
      heap := s.heap.set_index c kAdded
      kernel := s.kernel.insert (s.heap c).fd ((s.heap c).events, c)
      ctls := s.ctls ++ [⟨.EPOLL_CTL_ADD, (s.heap c).fd, false⟩] } := by
  have hadd := update_add (c := c) (s := { s with
    channels := s.channels.insert (s.heap c).fd c
    heap := s.heap.set_index c kAdded }) (by simpa using hk)
  simp only [ChannelHeap.fd_set_index, ChannelHeap.events_set_index] at hadd
  unfold updateChannel
  rw [if_pos (Or.inl hidx), if_pos hidx, assertThat_of hnone]
  exact hadd

theorem updateChannel_deleted {s : EPollPoller} {c : ChannelId}
    (hidx : (s.heap c).index = kDeleted) (hfound : s.channels[(s.heap c).fd]? = some c)
    (hk : s.kernel[(s.heap c).fd]? = none) :
    updateChannel c s = .ok { s with
      heap := s.heap.set_index c kAdded
      kernel := s.kernel.insert (s.heap c).fd ((s.heap c).events, c)
      ctls := s.ctls ++ [⟨.EPOLL_CTL_ADD, (s.heap c).fd, false⟩] } := by
  have hadd := update_add (c := c) (s := s.set_index c kAdded) (by simpa [set_index] using hk)
  simp only [set_index, ChannelHeap.fd_set_index, ChannelHeap.events_set_index] at hadd
  have hne : ¬ (s.heap c).index = kNew := by rw [hidx]; decide
  unfold updateChannel
  rw [if_pos (Or.inr hidx), if_neg hne, assertThat_of (by simp [hfound]), assertThat_of hfound]
  exact hadd

theorem updateChannel_added {s : EPollPoller} {c : ChannelId} {x : EventMask × ChannelId}
    (hidx : (s.heap c).index = kAdded) (hfound : s.channels[(s.heap c).fd]? = some c)
    (hk : s.kernel[(s.heap c).fd]? = some x) :
    updateChannel c s = .ok (if (s.heap c).events = Channel.kNoneEvent then { s with
        heap := s.heap.set_index c kDeleted
        kernel := s.kernel.erase (s.heap c).fd
        ctls := s.ctls ++ [⟨.EPOLL_CTL_DEL, (s.heap c).fd, true⟩] }
      else { s with
        kernel := s.kernel.insert (s.heap c).fd ((s.heap c).events, c)
        ctls := s.ctls ++ [⟨.EPOLL_CTL_MOD, (s.heap c).fd, true⟩] }) := by
  have hne : ¬ ((s.heap c).index = kNew ∨ (s.heap c).index = kDeleted) := by rw [hidx]; decide
  have hiff : (s.heap c).isNoneEvent = true ↔ (s.heap c).events = Channel.kNoneEvent := beq_iff_eq
  unfold updateChannel
  rw [if_neg hne, assertThat_of (by simp [hfound]), assertThat_of hfound, assertThat_of hidx]
  by_cases hnone : (s.heap c).events = Channel.kNoneEvent
  · simp only [hiff, hnone, if_true, update_del hk]
    rfl
  · simp only [hiff, hnone, update_mod hk]
    rfl

theorem removeChannel_eq {s : EPollPoller} {c : ChannelId} (hg : s.canRemove c = true)
    (hk : (s.heap c).index = kAdded → ∃ x, s.kernel[(s.heap c).fd]? = some x) :
    removeChannel c s = .ok (if (s.heap c).index = kAdded then { s with
        channels := s.channels.erase (s.heap c).fd
        heap := s.heap.set_index c kNew
        kernel := s.kernel.erase (s.heap c).fd
        ctls := s.ctls ++ [⟨.EPOLL_CTL_DEL, (s.heap c).fd, true⟩] }
      else { s with
        channels := s.channels.erase (s.heap c).fd
        heap := s.heap.set_index c kNew }) := by
  simp only [canRemove, Bool.decide_and, Bool.and_eq_true, decide_eq_true_eq] at hg
  obtain ⟨hfound, hnone, hidx⟩ := hg
  have hcount : s.channels.contains (s.heap c).fd = true := by
    rw [Std.TreeMap.contains_eq_isSome_getElem?, hfound]
    rfl
  refine assertThat_bind_eq_ok.mpr ⟨by simp [hfound], ?_⟩
  refine assertThat_bind_eq_ok.mpr ⟨hfound, ?_⟩
  refine assertThat_bind_eq_ok.mpr ⟨hnone, ?_⟩
  refine assertThat_bind_eq_ok.mpr ⟨hidx, ?_⟩
  refine assertThat_bind_eq_ok.mpr ⟨if_pos hcount, ?_⟩
  by_cases hadded : (s.heap c).index = kAdded
  · obtain ⟨x, hx⟩ := hk hadded
    have hdel := update_del (c := c) (x := x)
      (s := { s with channels := s.channels.erase (s.heap c).fd }) hx
    simp only [hadded, if_true]
    show (update .EPOLL_CTL_DEL c { s with channels := s.channels.erase (s.heap c).fd } >>=
      fun s => pure (s.set_index c kNew)) = _
    rw [hdel]
    rfl
  · simp only [hadded, if_false]
    rfl

/-- The index `updateChannel` leaves on a channel with interest `events`. -/
def nextIndex (index : Int) (events : EventMask) : Int :=
  if index = kAdded ∧ events = Channel.kNoneEvent then kDeleted else kAdded

/-- What an operation that leaves `index` on `c` does to the three copies. -/
structure Changed (s s' : EPollPoller) (c : ChannelId) (index : Int) (events : EventMask) :
    Prop where
  heap : s'.heap = (s.heap.set_events c events).set_index c index
  channels (fd : Int) : s'.channels[fd]? =
    if fd = (s.heap c).fd then
      if index = kAdded ∨ index = kDeleted then some c else none
    else s.channels[fd]?
  kernel (fd : Int) : s'.kernel[fd]? =
    if fd = (s.heap c).fd then
      if index = kAdded then some (events, c) else none
    else s.kernel[fd]?
  ctls (x : EpollCtl) : x ∈ s'.ctls → x ∈ s.ctls ∨ (x.present = true ↔ x.op ≠ .EPOLL_CTL_ADD)

/-- Only the channel itself can be found under its descriptor when it may
be updated. -/
theorem canUpdate_owner {s : EPollPoller} {c c' : ChannelId} (hg : s.canUpdate c = true)
    (hfound : s.channels[(s.heap c).fd]? = some c') : c' = c := by
  by_cases hidx : (s.heap c).index = kNew
  · simp [canUpdate, hidx, hfound] at hg
  · simp only [canUpdate, hidx, hfound, if_false, Option.some.injEq, decide_eq_true_eq] at hg
    exact hg.1

/-- A channel that is not registered has no entry in the kernel. -/
theorem Agree.kernel_none {s : EPollPoller} (h : Agree s) {c : ChannelId}
    (hg : s.canUpdate c = true) (hidx : (s.heap c).index ≠ kAdded) :
    s.kernel[(s.heap c).fd]? = none := by
  cases hk : s.kernel[(s.heap c).fd]? with
  | none => rfl
  | some x =>
      obtain ⟨m, c'⟩ := x
      obtain ⟨hfd, hadded, -⟩ := (h.kernel _ _ _).mp hk
      have hfound := (h.channels _ _).mpr ⟨hfd, Or.inl hadded⟩
      rw [canUpdate_owner hg hfound] at hadded
      exact absurd hadded hidx

/-- A channel in the poller's map that is not new is found there. -/
theorem canUpdate_found {s : EPollPoller} {c : ChannelId} (hg : s.canUpdate c = true)
    (hidx : (s.heap c).index ≠ kNew) : s.channels[(s.heap c).fd]? = some c := by
  simp only [canUpdate, hidx, if_false, decide_eq_true_eq] at hg
  exact hg.1

/-- One more call, made as the kernel wants it. -/
theorem ctls_append {ctls : List EpollCtl} {ctl : EpollCtl}
    (hctl : ctl.present = true ↔ ctl.op ≠ .EPOLL_CTL_ADD) (x : EpollCtl)
    (hx : x ∈ ctls ++ [ctl]) : x ∈ ctls ∨ (x.present = true ↔ x.op ≠ .EPOLL_CTL_ADD) := by
  rcases List.mem_append.mp hx with hold | hnew
  · exact Or.inl hold
  · rw [List.mem_singleton.mp hnew]
    exact Or.inr hctl

theorem updateChannel_spec {s : EPollPoller} (h : Agree s) {c : ChannelId}
    (hg : s.canUpdate c = true) (events : EventMask) :
    ∃ s', updateChannel c (s.set_events c events) = .ok s' ∧
      Changed s s' c (nextIndex (s.heap c).index events) events := by
  have hev : (s.heap.set_events c events c).events = events := by
    simp [ChannelHeap.events_set_events]
  obtain hidx | hidx | hidx := h.index c
  · have hnone : s.channels[(s.heap c).fd]? = none := by simpa [canUpdate, hidx] using hg
    have hk := h.kernel_none hg (by rw [hidx]; decide)
    refine ⟨_, updateChannel_new (by simpa [set_events] using hidx)
      (by simpa [set_events] using hnone) (by simpa [set_events] using hk), ?_⟩
    have hnext : nextIndex (s.heap c).index events = kAdded := by
      rw [nextIndex, if_neg (by rw [hidx]; simp [kNew, kAdded])]
    simp only [set_events, hev, hnext]
    constructor
    · rfl
    · intro fd
      simp [getElem?_insert_int]
    · intro fd
      simp [getElem?_insert_int]
    · exact ctls_append (by simp)
  · have hfound := canUpdate_found hg (by rw [hidx]; decide)
    have hk := (h.kernel _ _ c).mpr ⟨rfl, hidx, rfl⟩
    refine ⟨_, updateChannel_added (by simpa [set_events] using hidx)
      (by simpa [set_events] using hfound) (by simpa [set_events] using hk), ?_⟩
    simp only [set_events, hev]
    by_cases hnone : events = Channel.kNoneEvent
    · have hnext : nextIndex (s.heap c).index events = kDeleted := if_pos ⟨hidx, hnone⟩
      rw [if_pos hnone, hnext]
      constructor
      · rfl
      · simpa using getElem?_of_found hfound
      · intro fd
        simp [getElem?_erase_int, kAdded, kDeleted]
      · exact ctls_append (by simp)
    · have hnext : nextIndex (s.heap c).index events = kAdded := if_neg fun hc => hnone hc.2
      rw [if_neg hnone, hnext]
      constructor
      · rw [ChannelHeap.set_index_self (by simpa using hidx)]
      · simpa using getElem?_of_found hfound
      · intro fd
        simp [getElem?_insert_int]
      · exact ctls_append (by simp)
  · have hfound := canUpdate_found hg (by rw [hidx]; decide)
    have hk := h.kernel_none hg (by rw [hidx]; decide)
    refine ⟨_, updateChannel_deleted (by simpa [set_events] using hidx)
      (by simpa [set_events] using hfound) (by simpa [set_events] using hk), ?_⟩
    have hnext : nextIndex (s.heap c).index events = kAdded := by
      rw [nextIndex, if_neg (by rw [hidx]; simp [kDeleted, kAdded])]
    simp only [set_events, hev, hnext]
    constructor
    · rfl
    · simpa using getElem?_of_found hfound
    · intro fd
      simp [getElem?_insert_int]
    · exact ctls_append (by simp)

theorem canRemove_iff {s : EPollPoller} {c : ChannelId} : s.canRemove c = true ↔
    s.channels[(s.heap c).fd]? = some c ∧ (s.heap c).isNoneEvent = true ∧
      ((s.heap c).index = kAdded ∨ (s.heap c).index = kDeleted) := by
  rw [canRemove, decide_eq_true_eq]

theorem canRemove_canUpdate {s : EPollPoller} {c : ChannelId} (hg : s.canRemove c = true) :
    s.canUpdate c = true := by
  obtain ⟨hfound, -, hidx⟩ := canRemove_iff.mp hg
  have hne : (s.heap c).index ≠ kNew := by
    obtain hidx | hidx := hidx
    · rw [hidx]; decide
    · rw [hidx]; decide
  simp only [canUpdate, hne, if_false, decide_eq_true_eq]
  exact ⟨hfound, hidx.symm⟩

theorem removeChannel_spec {s : EPollPoller} (h : Agree s) {c : ChannelId}
    (hg : s.canRemove c = true) :
    ∃ s', removeChannel c s = .ok s' ∧ Changed s s' c kNew (s.heap c).events := by
  refine ⟨_, removeChannel_eq hg fun hidx => ⟨_, (h.kernel _ _ c).mpr ⟨rfl, hidx, rfl⟩⟩, ?_⟩
  by_cases hadded : (s.heap c).index = kAdded
  · rw [if_pos hadded]
    constructor
    · rw [ChannelHeap.set_events_self]
    · simpa [kNew, kAdded, kDeleted] using getElem?_erase_int s.channels (s.heap c).fd
    · simpa [kNew, kAdded] using getElem?_erase_int s.kernel (s.heap c).fd
    · exact ctls_append (by simp)
  · have hk := h.kernel_none (canRemove_canUpdate hg) hadded
    rw [if_neg hadded]
    constructor
    · rw [ChannelHeap.set_events_self]
    · simpa [kNew, kAdded, kDeleted] using getElem?_erase_int s.channels (s.heap c).fd
    · intro fd
      by_cases hfd : fd = (s.heap c).fd
      · rw [if_pos hfd, hfd, hk, if_neg (by decide)]
      · rw [if_neg hfd]
    · exact fun x hx => Or.inl hx

/-! ## The invariant -/

theorem nextIndex_cases (index : Int) (events : EventMask) :
    nextIndex index events = kAdded ∨ nextIndex index events = kDeleted := by
  unfold nextIndex
  split
  · exact Or.inr rfl
  · exact Or.inl rfl

namespace Changed

variable {s s' : EPollPoller} {c : ChannelId} {index : Int} {events : EventMask}

theorem fd (hu : Changed s s' c index events) (c' : ChannelId) :
    (s'.heap c').fd = (s.heap c').fd := by
  simp [hu.heap]

theorem index_self (hu : Changed s s' c index events) : (s'.heap c).index = index := by
  simp [hu.heap, ChannelHeap.index_set_index]

theorem events_self (hu : Changed s s' c index events) : (s'.heap c).events = events := by
  simp [hu.heap, ChannelHeap.events_set_events]

theorem index_other (hu : Changed s s' c index events) {c' : ChannelId} (hne : c' ≠ c) :
    (s'.heap c').index = (s.heap c').index := by
  simp [hu.heap, ChannelHeap.index_set_index, hne]

theorem events_other (hu : Changed s s' c index events) {c' : ChannelId} (hne : c' ≠ c) :
    (s'.heap c').events = (s.heap c').events := by
  simp [hu.heap, ChannelHeap.events_set_events, hne]

end Changed

/-- Whoever is registered under the descriptor of a channel that may be
updated is that channel. -/
theorem Agree.owner {s : EPollPoller} (h : Agree s) {c c' : ChannelId}
    (hg : s.canUpdate c = true) (hne : c' ≠ c) (hfd : (s.heap c').fd = (s.heap c).fd) :
    ¬ ((s.heap c').index = kAdded ∨ (s.heap c').index = kDeleted) := by
  intro hreg
  exact hne (canUpdate_owner hg ((h.channels _ _).mpr ⟨hfd, hreg⟩))

theorem Agree.channels_changed {s s' : EPollPoller} (h : Agree s) {c : ChannelId} {index : Int}
    {events : EventMask} (hg : s.canUpdate c = true) (hu : Changed s s' c index events) (fd : Int)
    (c' : ChannelId) : s'.channels[fd]? = some c' ↔
      (s'.heap c').fd = fd ∧ ((s'.heap c').index = kAdded ∨ (s'.heap c').index = kDeleted) := by
  rw [hu.channels, hu.fd]
  by_cases hc : c' = c
  · subst hc
    rw [hu.index_self]
    by_cases hfd : fd = (s.heap c').fd
    · rw [if_pos hfd]
      split
      · next hreg => simp [hfd, hreg]
      · next hreg => simp [hreg]
    · rw [if_neg hfd, h.channels]
      simp [Ne.symm hfd]
  · rw [hu.index_other hc]
    by_cases hfd : fd = (s.heap c).fd
    · rw [if_pos hfd, hfd]
      constructor
      · intro hfound
        split at hfound
        · exact absurd (Option.some.inj hfound).symm hc
        · exact absurd hfound (by simp)
      · rintro ⟨hsame, hreg⟩
        exact absurd hreg (h.owner hg hc hsame)
    · rw [if_neg hfd, h.channels]

theorem Agree.kernel_changed {s s' : EPollPoller} (h : Agree s) {c : ChannelId} {index : Int}
    {events : EventMask} (hg : s.canUpdate c = true) (hu : Changed s s' c index events) (fd : Int)
    (m : EventMask) (c' : ChannelId) : s'.kernel[fd]? = some (m, c') ↔
      (s'.heap c').fd = fd ∧ (s'.heap c').index = kAdded ∧ m = (s'.heap c').events := by
  rw [hu.kernel, hu.fd]
  by_cases hc : c' = c
  · subst hc
    rw [hu.index_self, hu.events_self]
    by_cases hfd : fd = (s.heap c').fd
    · rw [if_pos hfd]
      split
      · next hadded => simp [hadded, hfd, eq_comm]
      · next hadded => simp [hadded]
    · rw [if_neg hfd, h.kernel]
      simp [Ne.symm hfd]
  · rw [hu.index_other hc, hu.events_other hc]
    by_cases hfd : fd = (s.heap c).fd
    · rw [if_pos hfd, hfd]
      constructor
      · intro hk
        split at hk
        · exact absurd (congrArg Prod.snd (Option.some.inj hk)).symm hc
        · exact absurd hk (by simp)
      · rintro ⟨hsame, hadded, -⟩
        exact absurd (Or.inl hadded) (h.owner hg hc hsame)
    · rw [if_neg hfd, h.kernel]

theorem Agree.changed {s s' : EPollPoller} (h : Agree s) {c : ChannelId} {index : Int}
    {events : EventMask} (hg : s.canUpdate c = true) (hu : Changed s s' c index events)
    (hidx : index = kNew ∨ index = kAdded ∨ index = kDeleted) : Agree s' where
  index c' := by
    by_cases hc : c' = c
    · rw [hc, hu.index_self]
      exact hidx
    · rw [hu.index_other hc]
      exact h.index c'
  channels := h.channels_changed hg hu
  kernel := h.kernel_changed hg hu
  ctls x hx := by
    obtain hx | hx := hu.ctls x hx
    · exact h.ctls x hx
    · exact hx

/-! ## Polling -/

/-- Two states that differ in nothing but returned events. -/
structure SameBut (s s' : EPollPoller) : Prop where
  channels : s'.channels = s.channels
  kernel : s'.kernel = s.kernel
  ctls : s'.ctls = s.ctls
  fd (c : ChannelId) : (s'.heap c).fd = (s.heap c).fd
  index (c : ChannelId) : (s'.heap c).index = (s.heap c).index
  events (c : ChannelId) : (s'.heap c).events = (s.heap c).events

theorem SameBut.refl (s : EPollPoller) : SameBut s s :=
  ⟨rfl, rfl, rfl, fun _ => rfl, fun _ => rfl, fun _ => rfl⟩

theorem Agree.sameBut {s s' : EPollPoller} (h : Agree s) (hs : SameBut s s') : Agree s' where
  index c := by rw [hs.index]; exact h.index c
  channels fd c := by rw [hs.channels, hs.fd, hs.index]; exact h.channels fd c
  kernel fd m c := by rw [hs.kernel, hs.fd, hs.index, hs.events]; exact h.kernel fd m c
  ctls x hx := by rw [hs.ctls] at hx; exact h.ctls x hx

/-- What `epoll_wait` reports are registered channels. -/
theorem Agree.reported {s : EPollPoller} (h : Agree s) (ready : List (Int × EventMask))
    {x : EventMask × ChannelId} (hx : x ∈ s.kernel.epoll_wait ready) :
    s.channels[(s.heap x.2).fd]? = some x.2 := by
  obtain ⟨⟨fd, revents⟩, -, hx⟩ := List.mem_filterMap.mp hx
  obtain ⟨⟨m, c⟩, hk, rfl⟩ := Option.map_eq_some_iff.mp hx
  obtain ⟨-, hadded, -⟩ := (h.kernel _ _ _).mp hk
  exact (h.channels _ _).mpr ⟨rfl, Or.inl hadded⟩

theorem fillActiveChannels_spec {s : EPollPoller} {events : List (EventMask × ChannelId)}
    (hev : ∀ x ∈ events, s.channels[(s.heap x.2).fd]? = some x.2) (active : List ChannelId) :
    ∃ s', s.fillActiveChannels events active = .ok (active ++ events.map Prod.snd, s') ∧
      SameBut s s' := by
  induction events generalizing s active with
  | nil => exact ⟨s, by simp [fillActiveChannels], SameBut.refl s⟩
  | cons x events ih =>
      obtain ⟨revents, c⟩ := x
      have hfound := hev _ List.mem_cons_self
      obtain ⟨s', hs, hsame⟩ := ih (s := { s with heap := s.heap.set_revents c revents })
        (fun x hx => by simpa using hev x (List.mem_cons_of_mem _ hx)) (active ++ [c])
      refine ⟨s', ?_, ?_⟩
      · refine assertThat_bind_eq_ok.mpr ⟨by simp [hfound], ?_⟩
        refine assertThat_bind_eq_ok.mpr ⟨hfound, ?_⟩
        rw [hs, List.append_assoc]
        rfl
      · constructor
        · rw [hsame.channels]
        · rw [hsame.kernel]
        · rw [hsame.ctls]
        · simpa using hsame.fd
        · simpa using hsame.index
        · simpa using hsame.events

/-- `poll` reports the channels `epoll_wait` reported and changes nothing
the agreement is about. -/
theorem poll_spec {s : EPollPoller} (h : Agree s) (ready : Option (List (Int × EventMask)))
    (hlen : (s.kernel.epoll_wait (ready.getD [])).length ≤ s.eventsSize) :
    ∃ s', poll ready s = .ok ((s.kernel.epoll_wait (ready.getD [])).map Prod.snd, s') ∧
      SameBut s s' := by
  cases ready with
  | none => exact ⟨s, rfl, SameBut.refl s⟩
  | some ready =>
      have hlen : (s.kernel.epoll_wait ready).length ≤ s.eventsSize := hlen
      obtain ⟨s', hs, hsame⟩ := fillActiveChannels_spec (s := s)
        (fun x hx => h.reported ready hx) []
      show ∃ s', poll (some ready) s = .ok ((s.kernel.epoll_wait ready).map Prod.snd, s') ∧ _
      by_cases hpos : 0 < (s.kernel.epoll_wait ready).length
      · by_cases hfull : (s.kernel.epoll_wait ready).length = s'.eventsSize
        · refine ⟨{ s' with eventsSize := s'.eventsSize * 2 }, ?_, ?_⟩
          · unfold poll
            simp only [hpos, if_true, assertThat_of hlen, hs]
            exact if_pos hfull
          · exact ⟨hsame.channels, hsame.kernel, hsame.ctls, hsame.fd, hsame.index, hsame.events⟩
        · refine ⟨s', ?_, hsame⟩
          unfold poll
          simp only [hpos, if_true, assertThat_of hlen, hs]
          exact if_neg hfull
      · have hnil : s.kernel.epoll_wait ready = [] := by
          rw [← List.length_eq_zero_iff]
          omega
        refine ⟨s, ?_, SameBut.refl s⟩
        simp [poll, hnil]
        rfl

/-- What an action on offer does: it succeeds, and the copies still agree. -/
theorem step_spec {s : EPollPoller} (h : Agree s) {a : EPollAction} (hg : s.guard a = true) :
    ∃ s', exec a s = .ok s' ∧ Agree s' := by
  cases a with
  | updateChannel c events =>
      obtain ⟨s', hs, hu⟩ := updateChannel_spec h hg events
      exact ⟨s', hs, h.changed hg hu (Or.inr (nextIndex_cases _ _))⟩
  | removeChannel c =>
      obtain ⟨s', hs, hu⟩ := removeChannel_spec h hg
      exact ⟨s', hs, h.changed (canRemove_canUpdate hg) hu (Or.inl rfl)⟩
  | poll ready =>
      obtain ⟨s', hs, hsame⟩ := poll_spec h ready (of_decide_eq_true hg)
      refine ⟨s', ?_, h.sameBut hsame⟩
      show Prod.snd <$> poll ready s = .ok s'
      rw [hs]
      rfl

theorem run_agree {fd : ChannelId → Int} {as : List EPollAction} {s : EPollPoller}
    (hr : machine.run as (new fd) = some s) : Agree s := by
  refine Machine.run_invariant ?_ (Agree.new fd) hr
  intro s t a h hg he
  obtain ⟨s', hs, h'⟩ := step_spec h hg
  cases hs.symm.trans he
  exact h'

/-- The poller and the kernel agree, whatever was enabled, disabled,
removed and added again. The map has exactly the channels whose index says
so, the kernel exactly those whose index is `kAdded`, with their interest
as it was last updated and a pointer to them. `epoll_ctl` is asked to add
only what is absent and to change or delete only what is present, no step
on offer fails an assert or reaches the fatal log, and `poll` reports the
channels the kernel reported. -/
theorem poller_agrees_with_kernel {fd : ChannelId → Int} {as : List EPollAction}
    {s : EPollPoller} (hr : machine.run as (new fd) = some s) :
    (∀ fd c, s.channels[fd]? = some c ↔ (s.heap c).fd = fd ∧
        ((s.heap c).index = kAdded ∨ (s.heap c).index = kDeleted)) ∧
      (∀ fd m c, s.kernel[fd]? = some (m, c) ↔ (s.heap c).fd = fd ∧
        (s.heap c).index = kAdded ∧ m = (s.heap c).events) ∧
      (∀ x ∈ s.ctls, x.present = true ↔ x.op ≠ .EPOLL_CTL_ADD) ∧
      machine.Safe s ∧
      ∀ ready, (s.kernel.epoll_wait ready).length ≤ s.eventsSize →
        ∃ s', poll (some ready) s = .ok ((s.kernel.epoll_wait ready).map Prod.snd, s') := by
  have h := run_agree hr
  refine ⟨h.channels, h.kernel, h.ctls, ?_, ?_⟩
  · intro a hg
    obtain ⟨s', hs, -⟩ := step_spec h hg
    exact ⟨s', hs⟩
  · intro ready hlen
    obtain ⟨s', hs, -⟩ := poll_spec h (some ready) hlen
    exact ⟨s', hs⟩

/-- Two channels on one descriptor, one after the other: the first is
enabled, disabled, enabled again and removed, then the second takes its
place and is reported. -/
def reuseDescriptor : List EPollAction :=
  [.updateChannel 0 Channel.kReadEvent, .updateChannel 0 Channel.kNoneEvent,
    .updateChannel 0 Channel.kWriteEvent, .updateChannel 0 Channel.kNoneEvent,
    .removeChannel 0, .updateChannel 1 Channel.kReadEvent, .poll (some [(7, POLLIN)])]

theorem poller_agrees_with_kernel_reuseDescriptor :
    ∃ s, machine.run reuseDescriptor (new fun _ => 7) = some s ∧
      s.kernel[(7 : Int)]? = some (Channel.kReadEvent, 1) ∧ (s.heap 1).index = kAdded := by
  obtain ⟨s, hr, hk⟩ : ∃ s, machine.run reuseDescriptor (new fun _ => 7) = some s ∧
      s.kernel[(7 : Int)]? = some (Channel.kReadEvent, 1) := ⟨_, rfl, rfl⟩
  obtain ⟨-, hkernel, -⟩ := poller_agrees_with_kernel hr
  exact ⟨s, hr, hk, ((hkernel _ _ _).mp hk).2.1⟩

end EPollPoller

end Libanet.Net
