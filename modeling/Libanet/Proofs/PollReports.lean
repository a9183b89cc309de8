import Libanet.Net.Readiness
import Libanet.Proofs.ActiveChannels
import Libanet.Proofs.PollerEquivalence

/-!
# The two pollers report the same channels

What a poller is for can be said without its data structures: a channel is
due if it is registered, has some interest, and some condition on its
descriptor concerns it; and it is told which. Both pollers refine this. One
goes through its array, the other is handed the channels by the kernel, and
may not get all of them at once: what it is handed is a part of what is due,
and all of it if there is room.

The interest in nothing is what the two treat differently. `PollPoller` hides
the slot; `EPollPoller` takes the descriptor out of the kernel's list, but puts
it back, with an empty mask, when a channel without interest is updated again,
and the kernel then reports hangups and errors unasked. The runs considered
have no such update.
-/

namespace Libanet.Net

/-! ## Lists side by side -/

theorem exists_of_forall₂_left {α β : Type} {R : α → β → Prop} {xs : List α} {ys : List β}
    (h : List.Forall₂ R xs ys) {x : α} (hx : x ∈ xs) : ∃ y ∈ ys, R x y := by
  induction h with
  | nil => cases hx
  | cons hr hrest ih =>
      rcases List.mem_cons.mp hx with rfl | hx
      · exact ⟨_, List.mem_cons_self, hr⟩
      · obtain ⟨y, hy, hr'⟩ := ih hx
        exact ⟨y, List.mem_cons_of_mem _ hy, hr'⟩

theorem exists_of_forall₂_right {α β : Type} {R : α → β → Prop} {xs : List α} {ys : List β}
    (h : List.Forall₂ R xs ys) {y : β} (hy : y ∈ ys) : ∃ x ∈ xs, R x y :=
  exists_of_forall₂_left h.flip hy

/-! ## What fits in a slot -/

theorem returned_lt {events : EventMask} (h : Interest events) (conditions : EventMask) :
    (returned conditions events).toNat < 32 := by
  have hmask : (events ||| (POLLERR ||| POLLHUP)).toNat < 32 := by
    obtain rfl | rfl | rfl | rfl := h <;> decide
  rw [returned, BitVec.toNat_and]
  exact Nat.lt_of_le_of_lt Nat.and_le_right hmask

theorem toNat_setWidth_returned {events : EventMask} (h : Interest events)
    (conditions : EventMask) :
    ((returned conditions events).setWidth 16).toNat = (returned conditions events).toNat := by
  have hlt := returned_lt h conditions
  rw [BitVec.toNat_setWidth, Nat.mod_eq_of_lt (by omega)]

theorem msb_setWidth_returned {events : EventMask} (h : Interest events)
    (conditions : EventMask) : ((returned conditions events).setWidth 16).msb = false := by
  have hlt := returned_lt h conditions
  rw [BitVec.msb_eq_decide, toNat_setWidth_returned h, decide_eq_false_iff_not]
  omega

/-- What is returned gets through the `short` of a slot. -/
theorem signExtend_returned {events : EventMask} (h : Interest events) (conditions : EventMask) :
    ((returned conditions events).setWidth 16).signExtend 32 = returned conditions events := by
  rw [BitVec.signExtend_eq_setWidth_of_msb_false (msb_setWidth_returned h conditions)]
  refine BitVec.eq_of_toNat_eq ?_
  rw [BitVec.toNat_setWidth, toNat_setWidth_returned h]
  exact Nat.mod_eq_of_lt (returned conditions events).isLt

theorem setWidth_returned_eq_zero {events : EventMask} (h : Interest events)
    (conditions : EventMask) :
    (returned conditions events).setWidth 16 = 0 ↔ returned conditions events = 0 := by
  rw [← BitVec.toNat_inj, ← BitVec.toNat_inj, toNat_setWidth_returned h]
  rfl

/-! ## `::poll` keeps its promises -/

namespace PollPoller

variable {s : PollPoller} {cond : Conditions}

theorem pollfds_setRevents_answer (s : PollPoller) (cond : Conditions) :
    (s.setRevents (s.answer cond).revents).pollfds =
      s.pollfds.map fun pfd => { pfd with revents := pfd.reventsOf cond } := by
  rw [setRevents, answer]
  simp only
  rw [List.zipWith_map_right, List.zipWith_self]

theorem length_readySlots (s : PollPoller) :
    s.readySlots.length = (s.pollfds.filter fun pfd => pfd.revents ≠ 0).length := by
  conv_rhs => rw [← List.zipIdx_map_fst 0 s.pollfds, List.filter_map, List.length_map]
  rfl

/-- The slots that `::poll` has written something to. -/
theorem mem_readySlots {x : PollFd × Nat} :
    x ∈ (s.setRevents (s.answer cond).revents).readySlots ↔ ∃ pfd, s.pollfds[x.2]? = some pfd ∧
      x.1 = { pfd with revents := pfd.reventsOf cond } ∧ pfd.reventsOf cond ≠ 0 := by
  rw [readySlots, pollfds_setRevents_answer, List.mem_filter, List.mem_zipIdx_iff_getElem?,
    List.getElem?_map, Option.map_eq_some_iff, decide_eq_true_eq]
  constructor
  · rintro ⟨⟨pfd, hpfd, hx⟩, hne⟩
    rw [← hx] at hne
    exact ⟨pfd, hpfd, hx.symm, hne⟩
  · rintro ⟨pfd, hpfd, hx, hne⟩
    rw [hx]
    exact ⟨⟨pfd, hpfd, rfl⟩, hne⟩

/-- A slot with an interest of a channel's operations. -/
theorem answer_fits (cond : Conditions) (hint : ∀ pfd ∈ s.pollfds, Interest pfd.eventsInt) :
    (s.answer cond).Fits s := by
  have hpollfds := s.pollfds_setRevents_answer cond
  constructor
  · exact List.length_map ..
  · rw [hpollfds]
    intro pfd hpfd
    obtain ⟨slot, hslot, rfl⟩ := List.mem_map.mp hpfd
    show 0 ≤ (slot.reventsOf cond).toInt
    unfold PollFd.reventsOf
    split
    · decide
    · rw [BitVec.toInt_eq_toNat_of_msb (msb_setWidth_returned (hint slot hslot) _)]
      exact Int.natCast_nonneg _
  · rw [hpollfds]
    intro pfd hpfd hne
    obtain ⟨slot, -, rfl⟩ := List.mem_map.mp hpfd
    refine Int.not_lt.mp fun hneg => hne ?_
    exact if_pos hneg
  · rw [length_readySlots, hpollfds, List.filter_map, List.length_map]
    rfl

end PollPoller

/-! ## What `EPollPoller` tells the channels -/

namespace EPollPoller

theorem fillActiveChannels_told {s : EPollPoller} {events : List (EventMask × ChannelId)}
    (hev : ∀ x ∈ events, s.channels[(s.heap x.2).fd]? = some x.2)
    (hnodup : (events.map Prod.snd).Nodup) (active : List ChannelId) :
    ∃ heap, s.fillActiveChannels events active =
        .ok (active ++ events.map Prod.snd, { s with heap := heap }) ∧
      (∀ x ∈ events, heap x.2 = { s.heap x.2 with revents := x.1 }) ∧
      ∀ c, c ∉ events.map Prod.snd → heap c = s.heap c := by
  induction events generalizing s active with
  | nil => exact ⟨s.heap, by simp [fillActiveChannels], by simp, fun _ _ => rfl⟩
  | cons x events ih =>
      obtain ⟨revents, c⟩ := x
      have hfound := hev _ List.mem_cons_self
      obtain ⟨hc, hnodup⟩ := List.nodup_cons.mp hnodup
      obtain ⟨heap, hs, htold, hothers⟩ := ih (s := { s with heap := s.heap.set_revents c revents })
        (fun x hx => by simpa using hev x (List.mem_cons_of_mem _ hx)) hnodup (active ++ [c])
      refine ⟨heap, ?_, ?_, ?_⟩
      · refine assertThat_bind_eq_ok.mpr ⟨by simp [hfound], ?_⟩
        refine assertThat_bind_eq_ok.mpr ⟨hfound, ?_⟩
        rw [hs, List.append_assoc]
        rfl
      · intro x hx
        rcases List.mem_cons.mp hx with rfl | hx
        · exact (hothers c hc).trans (ChannelHeap.set_revents_same _ _ _)
        · have hne := htold x hx
          rwa [ChannelHeap.set_revents_again] at hne
      · intro c' hc'
        rw [List.map_cons, List.mem_cons, not_or] at hc'
        exact (hothers c' hc'.2).trans (ChannelHeap.set_revents_other _ _ hc'.1)

/-- `poll` reports what `epoll_wait` has stored, tells each channel, and makes
room if the array was full. -/
theorem poll_told {s : EPollPoller} (h : Agree s) {answer : List (Int × EventMask)}
    (hnodup : ((s.kernel.epoll_wait answer).map Prod.snd).Nodup)
    (hlen : (s.kernel.epoll_wait answer).length ≤ s.eventsSize) (hroom : 0 < s.eventsSize) :
    ∃ heap, poll (some answer) s = .ok ((s.kernel.epoll_wait answer).map Prod.snd,
        { s with
          heap := heap
          eventsSize := if (s.kernel.epoll_wait answer).length = s.eventsSize
            then s.eventsSize * 2 else s.eventsSize }) ∧
      (∀ x ∈ s.kernel.epoll_wait answer, heap x.2 = { s.heap x.2 with revents := x.1 }) ∧
      ∀ c, c ∉ (s.kernel.epoll_wait answer).map Prod.snd → heap c = s.heap c := by
  obtain ⟨heap, hs, htold, hothers⟩ := fillActiveChannels_told (s := s)
    (fun x hx => h.reported answer hx) hnodup []
  refine ⟨heap, ?_, htold, hothers⟩
  rw [List.nil_append] at hs
  by_cases hpos : 0 < (s.kernel.epoll_wait answer).length
  · unfold poll
    simp only [hpos, if_true, assertThat_of hlen, hs]
    by_cases hfull : (s.kernel.epoll_wait answer).length = s.eventsSize
    · rw [if_pos hfull]
      exact if_pos hfull
    · rw [if_neg hfull]
      exact if_neg hfull
  · have hnil : s.kernel.epoll_wait answer = [] := by
      rw [← List.length_eq_zero_iff]
      omega
    have hheap : heap = s.heap := funext fun c => hothers c (by simp [hnil])
    have hzero : ¬ 0 = s.eventsSize := by omega
    simp only [poll, hnil, List.length_nil, if_neg hzero, hheap]
    rfl

/-! The array of `epoll_wait` is touched by polls only. -/

theorem update_eventsSize {operation : EpollCtlOp} {c : ChannelId} {s s' : EPollPoller}
    (h : update operation c s = .ok s') : s'.eventsSize = s.eventsSize := by
  unfold update at h
  simp only at h
  split at h
  · cases h
    rfl
  · split at h
    · cases h
      rfl
    · cases h

theorem updateChannel_eventsSize {c : ChannelId} {s s' : EPollPoller}
    (h : updateChannel c s = .ok s') : s'.eventsSize = s.eventsSize := by
  unfold updateChannel at h
  simp only at h
  split at h
  · split at h
    · obtain ⟨-, h⟩ := assertThat_bind_eq_ok.mp h
      obtain ⟨s₁, h₁, h⟩ := bind_eq_ok.mp h
      cases h₁
      have hsize := update_eventsSize h
      exact hsize
    · obtain ⟨-, h⟩ := assertThat_bind_eq_ok.mp h
      obtain ⟨-, h⟩ := assertThat_bind_eq_ok.mp h
      obtain ⟨s₁, h₁, h⟩ := bind_eq_ok.mp h
      cases h₁
      have hsize := update_eventsSize h
      exact hsize
  · obtain ⟨-, h⟩ := assertThat_bind_eq_ok.mp h
    obtain ⟨-, h⟩ := assertThat_bind_eq_ok.mp h
    obtain ⟨-, h⟩ := assertThat_bind_eq_ok.mp h
    split at h
    · obtain ⟨s₁, h₁, h⟩ := bind_eq_ok.mp h
      cases h
      have hsize := update_eventsSize h₁
      exact hsize
    · exact update_eventsSize h

theorem removeChannel_eventsSize {c : ChannelId} {s s' : EPollPoller}
    (h : removeChannel c s = .ok s') : s'.eventsSize = s.eventsSize := by
  obtain ⟨-, h⟩ := assertThat_bind_eq_ok.mp h
  obtain ⟨-, h⟩ := assertThat_bind_eq_ok.mp h
  obtain ⟨-, h⟩ := assertThat_bind_eq_ok.mp h
  obtain ⟨-, h⟩ := assertThat_bind_eq_ok.mp h
  obtain ⟨-, h⟩ := assertThat_bind_eq_ok.mp h
  simp only at h
  split at h
  · obtain ⟨s₁, h₁, h⟩ := bind_eq_ok.mp h
    cases h
    have hsize := update_eventsSize h₁
    exact hsize
  · cases h
    rfl

end EPollPoller

/-! ## What is due -/

namespace PollerPair

/-- What a channel is told of the conditions on its descriptor. -/
def told (cond : Conditions) (s : PollerPair) (c : ChannelId) : EventMask :=
  returned (cond (s.epoll.heap c).fd) (s.events c)

/-- The channels that a poll has to report. -/
structure Due (cond : Conditions) (s : PollerPair) (c : ChannelId) : Prop where
  registered : s.status c = .registered
  interested : s.events c ≠ Channel.kNoneEvent
  concerned : s.told cond c ≠ 0

/-- The heap behind a poll that has reported `active`. -/
def Told (cond : Conditions) (s : PollerPair) (active : List ChannelId)
    (before after : ChannelHeap) : Prop :=
  ∀ c, after c = if c ∈ active then { before c with revents := s.told cond c } else before c

variable {fd : ChannelId → Nat} {s t : PollerPair} {cond : Conditions}

/-- An update changes something: it does not leave without interest a channel
that had none. -/
def changes (s : PollerPair) : PollAction → Bool
  | .update c op =>
      s.events c ≠ Channel.kNoneEvent ∨ op.eventsOf s.epoll.heap c ≠ Channel.kNoneEvent
  | .remove _ => true

/-- The pollers with what the kernel holds for them. -/
structure Watching (fd : ChannelId → Nat) (s : PollerPair) : Prop where
  related : Related fd s
  /-- Nothing is in the kernel's list without interest. -/
  added (c : ChannelId) : (s.epoll.heap c).index = EPollPoller.kAdded →
    (s.epoll.heap c).events ≠ Channel.kNoneEvent
  room : 0 < s.epoll.eventsSize

theorem Watching.new (fd : ChannelId → Nat) : Watching fd (new fun c => fd c) where
  related := Related.new fd
  added c hidx := absurd hidx (by simp [PollerPair.new, EPollPoller.new, ChannelHeap.new,
    PolledChannel.new, EPollPoller.kAdded])
  room := Nat.zero_lt_succ _

/-- A registered channel is in the kernel's list exactly if it has some
interest. -/
theorem Watching.index_iff (h : Watching fd s) (c : ChannelId) :
    (s.epoll.heap c).index = EPollPoller.kAdded ↔
      s.status c = .registered ∧ s.events c ≠ Channel.kNoneEvent := by
  constructor
  · intro hidx
    refine ⟨(h.related.status c).mpr ?_, h.added c hidx⟩
    rw [hidx]
    decide
  · rintro ⟨hreg, hev⟩
    rcases h.related.agree.index c with hidx | hidx | hidx
    · exact absurd hidx ((h.related.status c).mp hreg)
    · exact hidx
    · exact absurd (h.related.deleted c hidx) hev

/-- What is ready in the kernel's list are the descriptors of the channels that
are due. -/
theorem Watching.mem_ready (h : Watching fd s) {k : Int} {m : EventMask} :
    (k, m) ∈ s.epoll.kernel.ready cond ↔
      ∃ c, s.Due cond c ∧ s.epoll.kernel[k]? = some (s.events c, c) ∧ m = s.told cond c := by
  have hmem : (k, m) ∈ s.epoll.kernel.ready cond ↔
      ∃ m' c, s.epoll.kernel[k]? = some (m', c) ∧ m = returned (cond k) m' ∧ m ≠ 0 := by
    simp only [EpollKernel.ready, List.mem_filter, List.mem_map, Prod.exists, Prod.mk.injEq,
      decide_eq_true_eq, Std.TreeMap.mem_toList_iff_getElem?_eq_some]
    constructor
    · rintro ⟨⟨k', m', c, hk, rfl, rfl⟩, hne⟩
      exact ⟨m', c, hk, rfl, hne⟩
    · rintro ⟨m', c, hk, rfl, hne⟩
      exact ⟨⟨k, m', c, hk, rfl, rfl⟩, hne⟩
  rw [hmem]
  constructor
  · rintro ⟨m', c, hk, rfl, hne⟩
    obtain ⟨hfd, hidx, rfl⟩ := (h.related.agree.kernel _ _ _).mp hk
    obtain ⟨hreg, hev⟩ := (h.index_iff c).mp hidx
    refine ⟨c, ⟨hreg, hev, ?_⟩, hk, ?_⟩
    · rw [told, hfd]
      exact hne
    · rw [told, hfd]
      rfl
  · rintro ⟨c, hdue, hk, rfl⟩
    obtain ⟨hfd, -, -⟩ := (h.related.agree.kernel _ _ _).mp hk
    refine ⟨s.events c, c, hk, ?_, hdue.concerned⟩
    rw [told, hfd]

/-- The events `epoll_wait` stores for some of what is ready: each for a
channel that is due, and what it is to be told. -/
theorem Watching.mem_epoll_wait (h : Watching fd s) {answer : List (Int × EventMask)}
    (hsub : ∀ x ∈ answer, x ∈ s.epoll.kernel.ready cond) {x : EventMask × ChannelId}
    (hx : x ∈ s.epoll.kernel.epoll_wait answer) : s.Due cond x.2 ∧ x.1 = s.told cond x.2 := by
  obtain ⟨⟨k, m⟩, hkm, hx⟩ := List.mem_filterMap.mp hx
  obtain ⟨⟨m', c⟩, hk, rfl⟩ := Option.map_eq_some_iff.mp hx
  obtain ⟨c', hdue, hk', rfl⟩ := h.mem_ready.mp (hsub _ hkm)
  cases hk.symm.trans hk'
  exact ⟨hdue, rfl⟩

theorem Watching.length_epoll_wait (h : Watching fd s) {answer : List (Int × EventMask)}
    (hsub : ∀ x ∈ answer, x ∈ s.epoll.kernel.ready cond) :
    (s.epoll.kernel.epoll_wait answer).length = answer.length := by
  refine List.filterMap_length_eq_length.mpr fun x hx => ?_
  obtain ⟨c, -, hk, -⟩ := h.mem_ready.mp (hsub x hx)
  simp only [hk, Option.map_some, Option.isSome_some]

/-- All channels that are due, as the kernel would hand them over. -/
def dueChannels (cond : Conditions) (s : PollerPair) : List ChannelId :=
  (s.epoll.kernel.epoll_wait (s.epoll.kernel.ready cond)).map Prod.snd

theorem Watching.mem_dueChannels (h : Watching fd s) {c : ChannelId} :
    c ∈ s.dueChannels cond ↔ s.Due cond c := by
  constructor
  · intro hc
    obtain ⟨x, hx, rfl⟩ := List.mem_map.mp hc
    exact (h.mem_epoll_wait (fun _ hx => hx) hx).1
  · intro hdue
    have hidx := (h.index_iff c).mpr ⟨hdue.registered, hdue.interested⟩
    have hk := (h.related.agree.kernel _ _ c).mpr ⟨rfl, hidx, rfl⟩
    refine List.mem_map.mpr ⟨(s.told cond c, c), ?_, rfl⟩
    refine List.mem_filterMap.mpr ⟨((s.epoll.heap c).fd, s.told cond c), ?_, ?_⟩
    · exact h.mem_ready.mpr ⟨c, hdue, hk, rfl⟩
    · simp only [hk, Option.map_some]

theorem Watching.nodup_dueChannels (h : Watching fd s) : (s.dueChannels cond).Nodup := by
  have hkeys : (s.epoll.kernel.ready cond).Pairwise fun x y => x.1 ≠ y.1 := by
    refine List.Pairwise.filter _ (List.pairwise_map.mpr ?_)
    exact Std.TreeMap.distinct_keys_toList.imp fun hne heq =>
      hne ((congrArg (compare · _) heq).trans Std.ReflCmp.compare_self)
  rw [dueChannels, List.Nodup, List.pairwise_map]
  refine List.pairwise_filterMap.mpr (hkeys.imp fun hne x hx y hy hxy => hne ?_)
  obtain ⟨⟨m, c⟩, hk, rfl⟩ := Option.map_eq_some_iff.mp hx
  obtain ⟨⟨m', c'⟩, hk', rfl⟩ := Option.map_eq_some_iff.mp hy
  obtain rfl : c = c' := hxy
  rw [← ((h.related.agree.kernel _ _ _).mp hk).1, ← ((h.related.agree.kernel _ _ _).mp hk').1]

/-- `EPollPoller` reports some of the channels that are due, as many as its
array has room for. -/
theorem Watching.epoll_reports (h : Watching fd s) {answer : List (Int × EventMask)}
    (hoffer : s.epoll.kernel.Offers cond s.epoll.eventsSize answer) :
    ∃ active heap, s.epoll.poll (some answer) = .ok (active, { s.epoll with
        heap := heap
        eventsSize := if active.length = s.epoll.eventsSize then s.epoll.eventsSize * 2
          else s.epoll.eventsSize }) ∧
      active.Subperm (s.dueChannels cond) ∧
      active.length = min (s.dueChannels cond).length s.epoll.eventsSize ∧
      s.Told cond active s.epoll.heap heap := by
  obtain ⟨hsub, hlen⟩ := hoffer
  have hmem : ∀ x ∈ answer, x ∈ s.epoll.kernel.ready cond := fun x hx => hsub.subset hx
  have hpart : ((s.epoll.kernel.epoll_wait answer).map Prod.snd).Subperm
      (s.dueChannels cond) := by
    obtain ⟨l, hperm, hl⟩ := hsub
    exact ⟨_, (hperm.filterMap _).map _, (hl.filterMap _).map _⟩
  have hwait := h.length_epoll_wait hmem
  have hall : (s.epoll.kernel.epoll_wait (s.epoll.kernel.ready cond)).length
      = (s.epoll.kernel.ready cond).length := h.length_epoll_wait fun _ hx => hx
  have hnodup : ((s.epoll.kernel.epoll_wait answer).map Prod.snd).Nodup := by
    obtain ⟨l, hperm, hl⟩ := hpart
    exact hperm.nodup_iff.mp (h.nodup_dueChannels.sublist hl)
  obtain ⟨heap, hs, htold, hothers⟩ := EPollPoller.poll_told h.related.agree hnodup
    (by omega) h.room
  have hactive : ((s.epoll.kernel.epoll_wait answer).map Prod.snd).length
      = (s.epoll.kernel.epoll_wait answer).length := List.length_map ..
  refine ⟨_, heap, ?_, hpart, ?_, ?_⟩
  · rw [hactive]
    exact hs
  · rw [dueChannels, List.length_map, List.length_map, hwait, hlen, hall]
  · intro c
    split
    · next hc =>
        obtain ⟨x, hx, rfl⟩ := List.mem_map.mp hc
        rw [htold x hx, (h.mem_epoll_wait hmem hx).2]
    · next hc => exact hothers c hc

/-! ## What `PollPoller` reports -/

/-- The slot that `::poll` has filled in for a registered channel. -/
theorem Watching.slot (h : Watching fd s) {c : ChannelId} (hc : s.status c = .registered) :
    ∃ (i : Nat) (pfd : PollFd), (s.poll.heap c).index = i ∧ s.poll.pollfds[i]? = some pfd ∧
      pfd.fd = (if s.events c = Channel.kNoneEvent then -(fd c : Int) - 1 else fd c) ∧
      pfd.eventsInt = s.events c := by
  obtain ⟨i, pfd, hi, hpfd, hrel, hev⟩ := h.related.slots.slot c hc
  have hevents : (s.poll.heap c).events = s.events c := (h.related.events c).symm
  refine ⟨i, pfd, hi, hpfd, ?_, hev.trans hevents⟩
  rw [← hevents]
  exact hrel

theorem Watching.interest (h : Watching fd s) (c : ChannelId) : Interest (s.events c) := by
  rw [events, h.related.events]
  exact h.related.slots.interest c

theorem Watching.slot_interest (h : Watching fd s) :
    ∀ pfd ∈ s.poll.pollfds, Interest pfd.eventsInt := by
  intro pfd hpfd
  obtain ⟨i, hi, rfl⟩ := List.mem_iff_getElem.mp hpfd
  obtain ⟨c, hc, hidx⟩ := h.related.slots.owner i hi
  obtain ⟨j, pfd', hj, hpfd', -, hev⟩ := h.slot hc
  have hij : j = i := Int.ofNat.inj (hj.symm.trans hidx)
  rw [hij, List.getElem?_eq_getElem hi] at hpfd'
  rw [Option.some.inj hpfd', hev]
  exact h.interest c

/-- What `::poll` writes to the slot of a channel. -/
theorem Watching.reventsOf (h : Watching fd s) {c : ChannelId} {pfd : PollFd}
    (hfd : pfd.fd = if s.events c = Channel.kNoneEvent then -(fd c : Int) - 1 else fd c)
    (hev : pfd.eventsInt = s.events c) :
    pfd.reventsOf cond = if s.events c = Channel.kNoneEvent then 0
      else (s.told cond c).setWidth 16 := by
  rw [PollFd.reventsOf, hfd]
  by_cases hnone : s.events c = Channel.kNoneEvent
  · rw [if_pos hnone, if_pos hnone, if_pos (by omega)]
  · rw [if_neg hnone, if_neg hnone, if_neg (by omega), told, hev, h.related.fds]

/-- `PollPoller` reports all channels that are due. -/
theorem Watching.poll_reports (h : Watching fd s) (cond : Conditions) :
    ∃ active p, s.poll.poll true (some (s.poll.answer cond)) [] = .ok (active, p) ∧
      active.Nodup ∧ (∀ c, c ∈ active ↔ s.Due cond c) ∧
      s.Told cond active s.poll.heap p.heap ∧ PollPoller.SameSlots s.poll p := by
  have hfit := PollPoller.answer_fits cond h.slot_interest
  obtain ⟨cs, heap, hs, hnodup, hlead, hothers⟩ :=
    (h.related.slots.setRevents hfit).fillActiveChannels true [] hfit.nonneg hfit.skipped
  rw [← hfit.count, List.nil_append] at hs
  simp only at hs hlead hothers
  -- what is told of a slot that is ready
  have hready : ∀ c ∈ cs, s.Due cond c ∧
      heap c = { s.poll.heap c with revents := s.told cond c } := by
    intro c hc
    obtain ⟨x, hx, hslot, hheap⟩ := exists_of_forall₂_left hlead hc
    obtain ⟨pfd, hpfd, hxpfd, hne⟩ := PollPoller.mem_readySlots.mp hx
    obtain ⟨-, hreg⟩ := (h.related.slots.found _ _).mp hslot.found
    obtain ⟨i, pfd', hi, hpfd', hfd, hev⟩ := h.slot hreg
    have hix : i = x.2 := Int.ofNat.inj (hi.symm.trans hslot.index)
    rw [hix, hpfd] at hpfd'
    cases hpfd'
    have hrevents : pfd.reventsOf cond = _ := h.reventsOf hfd hev
    rw [hrevents] at hne
    have hevents : s.events c ≠ Channel.kNoneEvent := fun hnone => hne (if_pos hnone)
    rw [if_neg hevents, ne_eq, told, setWidth_returned_eq_zero (h.interest c)] at hne
    refine ⟨⟨hreg, hevents, hne⟩, ?_⟩
    rw [hheap, hxpfd]
    simp only [hrevents, if_neg hevents, told, signExtend_returned (h.interest c)]
    rfl
  have hdue : ∀ c, s.Due cond c → c ∈ cs := by
    intro c hc
    obtain ⟨i, pfd, hi, hpfd, hfd, hev⟩ := h.slot hc.registered
    have hne : pfd.reventsOf cond ≠ 0 := by
      rw [h.reventsOf hfd hev, if_neg hc.interested, ne_eq, told,
        setWidth_returned_eq_zero (h.interest c)]
      exact hc.concerned
    obtain ⟨c', hc', hslot, -⟩ := exists_of_forall₂_right hlead
      (PollPoller.mem_readySlots (x := ({ pfd with revents := pfd.reventsOf cond }, i)) |>.mpr
        ⟨pfd, hpfd, rfl, hne⟩)
    have hfound := hslot.found
    simp only [hfd, if_neg hc.interested] at hfound
    have hmine := (h.related.slots.found _ c).mpr ⟨rfl, hc.registered⟩
    rwa [Option.some.inj (hmine.symm.trans hfound)]
  have htold : s.Told cond cs s.poll.heap heap := by
    intro c
    split
    · next hc => exact (hready c hc).2
    · next hc => exact hothers c hc
  have hrevents : ∀ c, ∃ revt, heap c = { s.poll.heap c with revents := revt } := by
    intro c
    rw [htold c]
    split
    · exact ⟨_, rfl⟩
    · exact ⟨_, rfl⟩
  refine ⟨cs, { s.poll.setRevents (s.poll.answer cond).revents with heap := heap }, ?_, hnodup,
    fun c => ⟨fun hc => (hready c hc).1, hdue c⟩, htold,
    (PollPoller.SameSlots.setRevents hfit.length).trans ⟨rfl, rfl, hrevents⟩⟩
  by_cases hpos : 0 < (s.poll.answer cond).numEvents
  · exact (if_pos hpos).trans hs
  · have hcount := hfit.count
    have hlen := hlead.length_eq
    have hnil : cs = [] := List.length_eq_zero_iff.mp (by omega)
    have hheap : heap = s.poll.heap := funext fun c => hothers c (by simp [hnil])
    rw [hnil, hheap]
    exact if_neg hpos

/-! ## Runs -/

/-- An operation on a channel, or a call of `poll` on either poller, which find
the same conditions. -/
inductive PairStep where
  | op (a : PollAction)
  | poll (cond : Conditions) (answer : List (Int × EventMask))

def pollingGuard (s : PollerPair) : PairStep → Bool
  | .op a => (machine.restrict stays).guard s a && changes s a
  | .poll cond answer => s.epoll.kernel.Offers cond s.epoll.eventsSize answer

def pollingExec : PairStep → PollerPair → Except Fault PollerPair
  | .op a, s => exec a s
  | .poll cond answer, s => do
      let (_, epoll) ← s.epoll.poll (some answer)
      let (_, poll) ← s.poll.poll true (some (s.poll.answer cond)) []
      return ⟨epoll, poll, s.status⟩

def pollingMachine : Machine PollerPair PairStep Fault := ⟨pollingGuard, pollingExec⟩

/-- Nothing but returned events has changed. -/
theorem Watching.polled (h : Watching fd s) {active active' : List ChannelId} {heap : ChannelHeap}
    {n : Nat} {p : PollPoller} (hn : 0 < n) (hheap : s.Told cond active s.epoll.heap heap)
    (hp : PollPoller.SameSlots s.poll p) (hheap' : s.Told cond active' s.poll.heap p.heap) :
    Watching fd ⟨{ s.epoll with heap := heap, eventsSize := n }, p, s.status⟩ := by
  have hepoll : ∀ c, (heap c).index = (s.epoll.heap c).index ∧
      (heap c).fd = (s.epoll.heap c).fd ∧ (heap c).events = (s.epoll.heap c).events := by
    intro c
    rw [hheap c]
    split
    · exact ⟨rfl, rfl, rfl⟩
    · exact ⟨rfl, rfl, rfl⟩
  have hpoll : ∀ c, (p.heap c).events = (s.poll.heap c).events := by
    intro c
    rw [hheap' c]
    split <;> rfl
  constructor
  · constructor
    · exact h.related.agree.sameBut
        ⟨rfl, rfl, rfl, fun c => (hepoll c).2.1, fun c => (hepoll c).1, fun c => (hepoll c).2.2⟩
    · exact h.related.slots.sameSlots hp
    · exact fun c => (hepoll c).2.1.trans (h.related.fds c)
    · exact fun c => ((hepoll c).2.2.trans (h.related.events c)).trans (hpoll c).symm
    · intro c
      show _ ↔ (heap c).index ≠ _
      rw [(hepoll c).1]
      exact h.related.status c
    · intro c hidx
      exact (hepoll c).2.2.trans (h.related.deleted c ((hepoll c).1.symm.trans hidx))
  · intro c hidx
    show (heap c).events ≠ _
    rw [(hepoll c).2.2]
    exact h.added c ((hepoll c).1.symm.trans hidx)
  · exact hn

/-- Only what has some interest is put into the kernel's list. -/
theorem Watching.op (hinj : Function.Injective fd) (h : Watching fd s) {a : PollAction}
    (hg : pollingGuard s (.op a) = true) (he : exec a s = .ok t) : Watching fd t := by
  obtain ⟨hg, hchanges⟩ := Bool.and_eq_true_iff.mp hg
  obtain ⟨t', he', hrelated⟩ := h.related.step hinj hg
  cases he'.symm.trans he
  cases a with
  | update c op =>
      obtain ⟨epoll, hepoll, he⟩ := bind_eq_ok.mp he
      obtain ⟨poll, hpoll, he⟩ := bind_eq_ok.mp he
      cases he
      obtain ⟨epoll', hepoll', hu⟩ := EPollPoller.updateChannel_spec h.related.agree
        (h.related.canUpdate hinj c) (op.eventsOf s.epoll.heap c)
      cases hepoll'.symm.trans hepoll
      refine ⟨hrelated, fun c' hidx => ?_, ?_⟩
      · by_cases hc : c' = c
        · rw [hc] at hidx ⊢
          rw [hu.index_self] at hidx
          rw [hu.events_self]
          intro hnone
          -- what had some interest was in the list, and would have left it
          have hold := (of_decide_eq_true hchanges).resolve_right (not_not_intro hnone)
          have hreg := (of_decide_eq_true (Bool.and_eq_true_iff.mp hg).1).1.resolve_right
            (not_not_intro hnone)
          have hadded := (h.index_iff c).mpr ⟨hreg, hold⟩
          rw [EPollPoller.nextIndex, if_pos ⟨hadded, hnone⟩] at hidx
          exact absurd hidx (by decide)
        · rw [hu.index_other hc] at hidx
          rw [hu.events_other hc]
          exact h.added c' hidx
      · rw [EPollPoller.updateChannel_eventsSize hepoll]
        exact h.room
  | remove c =>
      obtain ⟨hreg, hev⟩ := of_decide_eq_true (Bool.and_eq_true_iff.mp hg).1
      obtain ⟨hnone, he⟩ := assertThat_bind_eq_ok.mp he
      obtain ⟨epoll, hepoll, he⟩ := bind_eq_ok.mp he
      obtain ⟨-, he⟩ := assertThat_bind_eq_ok.mp he
      obtain ⟨poll, hpoll, he⟩ := bind_eq_ok.mp he
      cases he
      have hidx := (h.related.agree.index c).resolve_left ((h.related.status c).mp hreg)
      obtain ⟨epoll', hepoll', hu⟩ := EPollPoller.removeChannel_spec h.related.agree
        (EPollPoller.canRemove_iff.mpr
          ⟨(h.related.agree.channels _ _).mpr ⟨rfl, hidx⟩, hnone, hidx⟩)
      cases hepoll'.symm.trans hepoll
      refine ⟨hrelated, fun c' hidx' => ?_, ?_⟩
      · by_cases hc : c' = c
        · rw [hc, hu.index_self] at hidx'
          exact absurd hidx' (by decide)
        · rw [hu.index_other hc] at hidx'
          rw [hu.events_other hc]
          exact h.added c' hidx'
      · rw [EPollPoller.removeChannel_eventsSize hepoll]
        exact h.room

theorem Watching.step (hinj : Function.Injective fd) (h : Watching fd s) {a : PairStep}
    (hg : pollingGuard s a = true) (he : pollingExec a s = .ok t) : Watching fd t := by
  cases a with
  | op a => exact h.op hinj hg he
  | poll cond answer =>
      obtain ⟨active, heap, hepoll, -, -, htold⟩ := h.epoll_reports (of_decide_eq_true hg)
      obtain ⟨active', p, hpoll, -, -, htold', hsame⟩ := h.poll_reports cond
      obtain ⟨r, hr, he⟩ := bind_eq_ok.mp he
      cases hepoll.symm.trans hr
      obtain ⟨r, hr, he⟩ := bind_eq_ok.mp he
      cases hpoll.symm.trans hr
      cases he
      refine h.polled ?_ htold hsame htold'
      have hroom := h.room
      split <;> omega

/-- The two pollers, run side by side through the same operations and polls:
whatever conditions hold, and whichever of the ready descriptors the kernel
hands over first, neither fails, both report channels that are due and tell
them the same; `PollPoller` reports all of them, each once, and `EPollPoller`
as many as its array has room for, so all of them if they fit, and if they fill
the array it has twice the room next time. -/
theorem pollers_report_alike {fd : ChannelId → Nat} (hinj : Function.Injective fd)
    {s : PollerPair} (hr : pollingMachine.Reaches (new fun c => fd c) s) {cond : Conditions}
    {answer : List (Int × EventMask)}
    (hoffer : s.epoll.kernel.Offers cond s.epoll.eventsSize answer) :
    ∃ part heap all p,
      s.epoll.poll (some answer) = .ok (part, { s.epoll with
        heap := heap
        eventsSize := if part.length = s.epoll.eventsSize then s.epoll.eventsSize * 2
          else s.epoll.eventsSize }) ∧
      s.poll.poll true (some (s.poll.answer cond)) [] = .ok (all, p) ∧
      all.Nodup ∧ (∀ c, c ∈ all ↔ s.Due cond c) ∧
      part.Subperm all ∧ part.length = min all.length s.epoll.eventsSize ∧
      s.Told cond part s.epoll.heap heap ∧ s.Told cond all s.poll.heap p.heap := by
  have h : Watching fd s := hr.invariant (Watching.new fd) fun h hg he => h.step hinj hg he
  obtain ⟨part, heap, hepoll, hpart, hlen, htold⟩ := h.epoll_reports hoffer
  obtain ⟨all, p, hpoll, hnodup, hall, htold', -⟩ := h.poll_reports cond
  have hperm : (s.dueChannels cond).Perm all :=
    (List.perm_ext_iff_of_nodup h.nodup_dueChannels hnodup).mpr fun c =>
      h.mem_dueChannels.trans (hall c).symm
  exact ⟨part, heap, all, p, hepoll, hpoll, hnodup, hall, hpart.trans hperm.subperm,
    hperm.length_eq ▸ hlen, htold, htold'⟩

/-- Three channels, of which one has lost its interest. -/
def threeChannels : List PairStep :=
  [.op (.update 0 .enableReading), .op (.update 1 .enableReading), .op (.update 2 .enableWriting),
    .op (.update 1 .disableReading)]

/-- A hangup on every descriptor. -/
theorem pollers_report_alike_threeChannels :
    ∃ s, pollingMachine.run threeChannels (new fun c => ((c + 5 : Nat) : Int)) = some s ∧
      ∃ part heap all p,
        s.epoll.poll (some [(7, POLLHUP), (5, POLLHUP)]) = .ok (part, { s.epoll with
          heap := heap
          eventsSize := if part.length = s.epoll.eventsSize then s.epoll.eventsSize * 2
            else s.epoll.eventsSize }) ∧
        s.poll.poll true (some (s.poll.answer fun _ => POLLHUP)) [] = .ok (all, p) ∧
        part.Subperm all := by
  obtain ⟨s, hr, hoffer⟩ : ∃ s,
      pollingMachine.run threeChannels (new fun c => ((c + 5 : Nat) : Int)) = some s ∧
      s.epoll.kernel.Offers (fun _ => POLLHUP) s.epoll.eventsSize [(7, POLLHUP), (5, POLLHUP)] :=
    ⟨_, rfl, by decide⟩
  obtain ⟨part, heap, all, p, hepoll, hpoll, -, -, hsub, -⟩ :=
    pollers_report_alike (fun _ _ h => Nat.add_right_cancel h) ⟨threeChannels, hr⟩ hoffer
  exact ⟨s, hr, part, heap, all, p, hepoll, hpoll, hsub⟩

end PollerPair

end Libanet.Net
