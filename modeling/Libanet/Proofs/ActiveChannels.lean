import Libanet.Proofs.PollSlots
import Mathlib.Data.List.Forall2
import Mathlib.Data.List.Nodup

/-!
# `PollPoller` reports the channels that are ready

The kernel answers in slots and the loop wants channels. `fillActiveChannels`
goes from a slot to its channel by the descriptor the slot holds, and stops
as soon as it has found as many as the kernel counted. So it reports what the
kernel reported if every slot with events holds the descriptor of the channel
whose slot it is, whatever slots have moved before, and if no two slots lead
to the same channel, whose events would be overwritten.

Both follow from the positions and slots being inverse to each other. The
kernel skips a negative descriptor, which leaves the other meaning of a slot
out: where there are events, the slot's descriptor is the channel's own.

The callers are not restricted. An operation whose assert fails does not take
place, and the kernel may be asked between any two of them. Descriptors are
as the kernel gives them out, and not negative.
-/

namespace Libanet.Net

namespace PollPoller

/-! ## The loop -/

section Loop

variable {debug : Bool} {s : PollPoller} {pfd : PollFd} {pollfds : List PollFd}
  {active : List ChannelId}

/-- The loop is done when it has found what it was told to find. -/
theorem fillActiveLoop_zero : fillActiveLoop debug s pollfds 0 active = .ok (active, s) := by
  cases pollfds with
  | nil => rfl
  | cons pfd pollfds =>
      rw [fillActiveLoop, if_neg (Int.lt_irrefl 0)]

/-- A slot without events is passed over. -/
theorem fillActiveLoop_skip (n : Nat) (hpfd : pfd.revents = 0) :
    fillActiveLoop debug s (pfd :: pollfds) n active = fillActiveLoop debug s pollfds n active := by
  cases n with
  | zero =>
      rw [Int.natCast_zero, fillActiveLoop_zero, fillActiveLoop_zero]
  | succ n =>
      rw [fillActiveLoop, if_pos (by omega), if_neg (by rw [hpfd]; decide)]

/-- A slot with events is counted, and its channel is told and reported. -/
theorem fillActiveLoop_ready (n : Nat) {c : ChannelId} (hpfd : 0 < pfd.revents.toInt)
    (hfound : s.channels[pfd.fd]? = some c) (hfd : (s.heap c).fd = pfd.fd) :
    fillActiveLoop debug s (pfd :: pollfds) (n + 1 : Nat) active =
      fillActiveLoop debug
        { s with heap := s.heap.set_revents c (pfd.revents.signExtend 32) } pollfds n
        (active ++ [c]) := by
  rw [fillActiveLoop, if_pos (by omega), if_pos hpfd]
  refine (assertIn_bind fun _ => by simp [hfound]).trans ?_
  simp only [hfound]
  refine (assertIn_bind fun _ => hfd).trans ?_
  rw [Int.natCast_succ, Int.add_sub_cancel]

/-- The loop reports the channels that the slots with events lead to, in the
order of the slots, and tells each of them. `cs` are those channels, as far
as they are still to come. -/
theorem fillActiveLoop_spec (debug : Bool) {cs : List ChannelId} (active : List ChannelId)
    (hnonneg : ∀ pfd ∈ pollfds, 0 ≤ pfd.revents.toInt) (hnodup : cs.Nodup)
    (hlead : List.Forall₂ (fun c pfd => s.channels[pfd.fd]? = some c ∧ (s.heap c).fd = pfd.fd) cs
      (pollfds.filter fun pfd => pfd.revents ≠ 0)) :
    ∃ heap, fillActiveLoop debug s pollfds cs.length active =
        .ok (active ++ cs, { s with heap := heap }) ∧
      List.Forall₂ (fun c pfd => heap c =
          { s.heap c with revents := pfd.revents.signExtend 32 }) cs
        (pollfds.filter fun pfd => pfd.revents ≠ 0) ∧
      ∀ c, c ∉ cs → heap c = s.heap c := by
  induction pollfds generalizing s cs active with
  | nil =>
      rw [List.filter_nil, List.forall₂_nil_right_iff] at hlead
      subst hlead
      refine ⟨s.heap, ?_, List.Forall₂.nil, fun _ _ => rfl⟩
      rw [List.append_nil]
      rfl
  | cons pfd pollfds ih =>
      obtain ⟨hpfd, hnonneg⟩ := List.forall_mem_cons.mp hnonneg
      by_cases hready : pfd.revents = 0
      · rw [List.filter_cons_of_neg (by simpa using hready)] at hlead ⊢
        rw [fillActiveLoop_skip _ hready]
        exact ih active hnonneg hnodup hlead
      · rw [List.filter_cons_of_pos (by simpa using hready)] at hlead ⊢
        obtain ⟨c, rest, ⟨hfound, hfd⟩, hrest, rfl⟩ := List.forall₂_cons_right_iff.mp hlead
        obtain ⟨hc, hnodup⟩ := List.nodup_cons.mp hnodup
        have hpos : 0 < pfd.revents.toInt := by
          have hne : pfd.revents.toInt ≠ 0 := by
            rw [← BitVec.toInt_zero, ne_eq, BitVec.toInt_inj]
            exact hready
          omega
        obtain ⟨heap, hs, htold, hothers⟩ := ih (active ++ [c]) hnonneg hnodup
          (s := { s with heap := s.heap.set_revents c (pfd.revents.signExtend 32) })
          (by simpa using hrest)
        refine ⟨heap, ?_, List.Forall₂.cons ?_ ?_, ?_⟩
        · rw [List.length_cons, fillActiveLoop_ready _ hpos hfound hfd, hs, List.append_assoc]
          rfl
        · exact (hothers c hc).trans (ChannelHeap.set_revents_same _ _ _)
        · simpa only [ChannelHeap.set_revents_again] using htold
        · intro c' hc'
          rw [List.mem_cons, not_or] at hc'
          obtain ⟨hne, hc'⟩ := hc'
          exact (hothers c' hc').trans (ChannelHeap.set_revents_other _ _ hne)

end Loop

/-! ## What a poll leaves as it was -/

/-- Two states that differ in nothing but returned events. -/
structure SameSlots (s s' : PollPoller) : Prop where
  channels : s'.channels = s.channels
  slots : s'.pollfds.map (fun pfd => (pfd.fd, pfd.events)) =
    s.pollfds.map fun pfd => (pfd.fd, pfd.events)
  heap (c : ChannelId) : ∃ revt, s'.heap c = { s.heap c with revents := revt }

variable {s s' t : PollPoller}

theorem SameSlots.trans (h : SameSlots s s') (h' : SameSlots s' t) : SameSlots s t where
  channels := h'.channels.trans h.channels
  slots := h'.slots.trans h.slots
  heap c := by
    obtain ⟨revt, hc⟩ := h.heap c
    obtain ⟨revt', hc'⟩ := h'.heap c
    refine ⟨revt', ?_⟩
    rw [hc', hc]

theorem SameSlots.length (h : SameSlots s s') : s'.pollfds.length = s.pollfds.length := by
  have hlen := congrArg List.length h.slots
  rwa [List.length_map, List.length_map] at hlen

theorem SameSlots.slot (h : SameSlots s s') {i : Nat} {pfd : PollFd}
    (hpfd : s.pollfds[i]? = some pfd) :
    ∃ pfd', s'.pollfds[i]? = some pfd' ∧ pfd'.fd = pfd.fd ∧ pfd'.events = pfd.events := by
  have hi := congrArg (·[i]?) h.slots
  simp only [List.getElem?_map, hpfd, Option.map_some, Option.map_eq_some_iff,
    Prod.mk.injEq] at hi
  exact hi

theorem SameSlots.setRevents {revents : List (BitVec 16)}
    (hlen : revents.length = s.pollfds.length) : SameSlots s (s.setRevents revents) where
  channels := rfl
  slots := by
    have hzip : (s.pollfds.zip revents).map Prod.fst = s.pollfds := List.map_fst_zip (by omega)
    conv_rhs => rw [← hzip, List.map_map]
    rw [PollPoller.setRevents, List.map_zipWith, ← List.map_uncurry_zip_eq_zipWith]
    rfl
  heap c := ⟨_, rfl⟩

end PollPoller

namespace PollSystem

/-! ## The channel of a slot -/

variable {e : Encoding} {fd : ChannelId → Nat} {s : PollSystem}

theorem Slots.sameSlots (h : Slots e fd s) {p : PollPoller}
    (hs : PollPoller.SameSlots s.poller p) : Slots e fd ⟨p, s.status⟩ where
  fds c := by
    obtain ⟨revt, hc⟩ := hs.heap c
    rw [hc]
    exact h.fds c
  interest c := by
    obtain ⟨revt, hc⟩ := hs.heap c
    rw [hc]
    exact h.interest c
  size := by
    rw [hs.length, hs.channels]
    exact h.size
  fresh c hc := by
    obtain ⟨revt, hrevt⟩ := hs.heap c
    rw [hrevt]
    exact h.fresh c hc
  found k c := by
    rw [hs.channels]
    exact h.found k c
  slot c hc := by
    obtain ⟨revt, hrevt⟩ := hs.heap c
    obtain ⟨i, pfd, hi, hpfd, hrel, hev⟩ := h.slot c hc
    obtain ⟨pfd', hpfd', hfd, hevents⟩ := hs.slot hpfd
    rw [hrevt]
    refine ⟨i, pfd', hi, hpfd', by rwa [hfd], ?_⟩
    rwa [PollFd.eventsInt, hevents]
  owner i hi := by
    rw [hs.length] at hi
    obtain ⟨c, hc, hidx⟩ := h.owner i hi
    obtain ⟨revt, hrevt⟩ := hs.heap c
    refine ⟨c, hc, ?_⟩
    rw [hrevt]
    exact hidx

/-- The slot, given with its position, is the channel's, by the index in the
channel and by the descriptor in the slot. -/
structure HasSlot (p : PollPoller) (c : ChannelId) (x : PollFd × Nat) : Prop where
  index : (p.heap c).index = x.2
  fd : (p.heap c).fd = x.1.fd
  found : p.channels[x.1.fd]? = some c

/-- A slot whose descriptor is not negated holds its channel's own. -/
theorem Slots.hasSlot (h : Slots e fd s) {x : PollFd × Nat}
    (hx : s.poller.pollfds[x.2]? = some x.1) (hfd : 0 ≤ x.1.fd) : ∃ c, HasSlot s.poller c x := by
  obtain ⟨c, hc, hidx⟩ := h.owner x.2 (List.getElem?_eq_some_iff.mp hx).1
  obtain ⟨i, pfd, hi, hpfd, hrel, -⟩ := h.slot c hc
  have hix : i = x.2 := by omega
  rw [hix, hx] at hpfd
  cases hpfd
  have hown : x.1.fd = fd c := by
    have hsound := e.sound hrel
    omega
  refine ⟨c, hidx, ?_, ?_⟩
  · rw [h.fds, hown]
  · exact (h.found _ c).mpr ⟨hown, hc⟩

/-- Whatever array the kernel has filled in by its rules, the loop reports
the channels of the slots with events. -/
theorem Slots.fillActiveChannels (h : Slots e fd s) (debug : Bool) (active : List ChannelId)
    (hnonneg : ∀ pfd ∈ s.poller.pollfds, 0 ≤ pfd.revents.toInt)
    (hskipped : ∀ pfd ∈ s.poller.pollfds, pfd.revents ≠ 0 → 0 ≤ pfd.fd) :
    ∃ cs heap, s.poller.fillActiveChannels debug s.poller.readySlots.length active =
        .ok (active ++ cs, { s.poller with heap := heap }) ∧ cs.Nodup ∧
      List.Forall₂ (fun c x => HasSlot s.poller c x ∧
        heap c = { s.poller.heap c with revents := x.1.revents.signExtend 32 }) cs
        s.poller.readySlots ∧
      ∀ c, c ∉ cs → heap c = s.poller.heap c := by
  have hslot : ∀ x ∈ s.poller.readySlots, s.poller.pollfds[x.2]? = some x.1 := by
    intro x hx
    exact List.mem_zipIdx_iff_getElem?.mp (List.mem_filter.mp hx).1
  have hexists : ∀ x ∈ s.poller.readySlots, ∃ c, HasSlot s.poller c x := by
    intro x hx
    refine h.hasSlot (hslot x hx) (hskipped x.1 (List.mem_of_getElem? (hslot x hx)) ?_)
    simpa using (List.mem_filter.mp hx).2
  choose! owner howner using hexists
  have hreported : List.Forall₂ (HasSlot s.poller) (s.poller.readySlots.map owner)
      s.poller.readySlots := by
    rw [List.forall₂_map_left_iff, List.forall₂_same]
    exact howner
  have hfst : s.poller.readySlots.map Prod.fst =
      s.poller.pollfds.filter fun pfd => pfd.revents ≠ 0 := by
    conv_rhs => rw [← List.zipIdx_map_fst 0 s.poller.pollfds, List.filter_map]
    rfl
  -- The index tells which slot a channel was reported for.
  have hnodup : (s.poller.readySlots.map owner).Nodup := by
    refine List.Nodup.map_on ?_ ?_
    · intro x hx y hy hxy
      have hidx := (howner x hx).index
      rw [hxy, (howner y hy).index] at hidx
      have hsnd : y.2 = x.2 := by omega
      have hy' := hslot y hy
      rw [hsnd, hslot x hx] at hy'
      exact Prod.ext (Option.some.inj hy') hsnd.symm
    · refine List.Nodup.filter _ (List.Nodup.of_map Prod.snd ?_)
      rw [List.zipIdx_map_snd]
      exact List.nodup_range'
  have hlead : List.Forall₂ (fun c pfd => s.poller.channels[pfd.fd]? = some c ∧
      (s.poller.heap c).fd = pfd.fd) (s.poller.readySlots.map owner)
      (s.poller.pollfds.filter fun pfd => pfd.revents ≠ 0) := by
    rw [← hfst, List.forall₂_map_right_iff]
    exact hreported.imp fun c x hx => ⟨hx.found, hx.fd⟩
  obtain ⟨heap, hs, htold, hothers⟩ :=
    PollPoller.fillActiveLoop_spec debug active hnonneg hnodup hlead
  rw [List.length_map] at hs
  rw [← hfst, List.forall₂_map_right_iff] at htold
  refine ⟨_, heap, hs, hnodup, ?_, hothers⟩
  exact List.Forall₂.mp (fun c x hx ht => ⟨hx, ht⟩) hreported htold

/-! ## Runs -/

/-- What happens to a poller: an operation on a channel, or a call of `poll`
with the answer of the kernel. -/
inductive PollStep where
  | op (a : PollAction)
  | poll (reply : Option PollReply)

/-- The kernel answers by its rules. -/
def pollGuard (s : PollSystem) : PollStep → Bool
  | .op _ => true
  | .poll none => true
  | .poll (some reply) => reply.Fits s.poller

def pollExec : PollStep → PollSystem → Except Fault PollSystem
  | .op a, s => exec true a s
  | .poll reply, s => do
      let (_, poller) ← s.poller.poll true reply []
      return ⟨poller, s.status⟩

def pollMachine : Machine PollSystem PollStep Fault := ⟨pollGuard, pollExec⟩

/-- The array as the kernel has filled it in is still everybody's. -/
theorem Slots.setRevents (h : Slots e fd s) {reply : PollReply} (hfit : reply.Fits s.poller) :
    Slots e fd ⟨s.poller.setRevents reply.revents, s.status⟩ :=
  h.sameSlots (PollPoller.SameSlots.setRevents hfit.length)

theorem Slots.poll (h : Slots e fd s) {reply : Option PollReply}
    (hg : s.pollGuard (.poll reply) = true) (active : List ChannelId) :
    ∃ active' p, s.poller.poll true reply active = .ok (active', p) ∧
      PollPoller.SameSlots s.poller p := by
  cases reply with
  | none => exact ⟨active, s.poller, rfl, rfl, rfl, fun c => ⟨_, rfl⟩⟩
  | some reply =>
      have hfit : reply.Fits s.poller := of_decide_eq_true hg
      have hset := PollPoller.SameSlots.setRevents hfit.length
      by_cases hpos : 0 < reply.numEvents
      · obtain ⟨cs, heap, hs, -, htold, hothers⟩ :=
          (h.setRevents hfit).fillActiveChannels true active hfit.nonneg hfit.skipped
        rw [← hfit.count] at hs
        refine ⟨active ++ cs, _, (if_pos hpos).trans hs, hset.trans ⟨rfl, rfl, ?_⟩⟩
        have hrevents : ∀ c ∈ cs, ∃ revt, heap c = { s.poller.heap c with revents := revt } :=
          ((List.forall₂_and_left cs _).mp (htold.imp fun c x hx => ⟨⟨_, hx.2⟩, hx.1⟩)).1
        intro c
        by_cases hc : c ∈ cs
        · exact hrevents c hc
        · exact ⟨_, hothers c hc⟩
      · exact ⟨active, _, if_neg hpos, hset⟩

theorem Tracked.poll_step (h : Tracked .either fd s) {a : PollStep} {s' : PollSystem}
    (hg : s.pollGuard a = true) (he : pollExec a s = .ok s') : Tracked .either fd s' := by
  cases a with
  | op a =>
      cases a with
      | update c op => exact (h.update_step he fun _ => Or.inl rfl).1
      | remove c => exact h.remove_step he
  | poll reply =>
      obtain ⟨active, p, hp, hsame⟩ := h.slots.poll hg []
      obtain ⟨r, hr, he⟩ := bind_eq_ok.mp he
      cases hp.symm.trans hr
      cases he
      refine ⟨h.slots.sameSlots hsame, ?_⟩
      intro c hc
      obtain ⟨revt, hrevt⟩ := hsame.heap c
      show 0 ≤ (p.heap c).index
      rw [hrevt]
      exact h.stale c hc

/-- `fillActiveChannels` reports exactly the channels that are ready: after
any operations that passed their asserts and any polls between them, whatever
the kernel answers by its rules, the channels of the slots with events are
appended, each once and in the order of the slots, and are told the events of
their slots. Every other channel is as it was, no assert fails, and the count
that ends the loop early ends it after the last slot with events. -/
theorem ready_channels_reported (fd : ChannelId → Nat)
    (hr : pollMachine.Reaches (new fun c => fd c) s) {reply : PollReply}
    (hfit : reply.Fits s.poller) (debug : Bool) (active : List ChannelId) :
    ∃ cs heap, (s.poller.setRevents reply.revents).fillActiveChannels debug reply.numEvents active =
        .ok (active ++ cs, { s.poller.setRevents reply.revents with heap := heap }) ∧
      cs.Nodup ∧
      List.Forall₂ (fun c x => HasSlot s.poller c x ∧
        heap c = { s.poller.heap c with revents := x.1.revents.signExtend 32 }) cs
        (s.poller.setRevents reply.revents).readySlots ∧
      ∀ c, c ∉ cs → heap c = s.poller.heap c := by
  have h : Tracked .either fd s := by
    refine hr.invariant (Tracked.new .either fd) ?_
    intro s t a h hg he
    exact h.poll_step hg he
  obtain ⟨cs, heap, hs, hnodup, htold, hothers⟩ :=
    (h.slots.setRevents hfit).fillActiveChannels debug active hfit.nonneg hfit.skipped
  rw [hfit.count]
  refine ⟨cs, heap, hs, hnodup, htold.imp ?_, hothers⟩
  rintro c x ⟨⟨hidx, hfd, hfound⟩, hrevents⟩
  exact ⟨⟨hidx, hfd, hfound⟩, hrevents⟩

/-- The last of four channels moves to the front, before one that has no
interest. -/
def lastToFront : List PollStep :=
  [.op (.update 0 .enableReading), .op (.update 1 .enableReading),
    .op (.update 2 .enableWriting), .op (.update 3 .enableReading), .op (.update 1 .disableAll),
    .op (.update 0 .disableAll), .op (.remove 0)]

theorem ready_channels_reported_lastToFront :
    ∃ s, pollMachine.run lastToFront (new fun c => (c + 5 : Nat)) = some s ∧
      s.poller.pollfds.map PollFd.fd = [8, -7, 7] ∧
      ∃ heap, (s.poller.setRevents [1, 0, 4]).fillActiveChannels true 2 [] =
          .ok ([3, 2], { s.poller.setRevents [1, 0, 4] with heap := heap }) ∧
        ∀ c, c ∉ [3, 2] → heap c = s.poller.heap c := by
  obtain ⟨s, hr, hfds, hfit, p, hp⟩ : ∃ s,
      pollMachine.run lastToFront (new fun c => (c + 5 : Nat)) = some s ∧
        s.poller.pollfds.map PollFd.fd = [8, -7, 7] ∧ PollReply.Fits ⟨2, [1, 0, 4]⟩ s.poller ∧
        ∃ p, (s.poller.setRevents [1, 0, 4]).fillActiveChannels true 2 [] = .ok ([3, 2], p) :=
    ⟨_, rfl, rfl, by decide, _, rfl⟩
  obtain ⟨cs, heap, hs, -, -, hothers⟩ :=
    ready_channels_reported (fun c => c + 5) ⟨lastToFront, hr⟩ hfit true []
  cases hp.symm.trans hs
  exact ⟨s, hr, hfds, heap, hs, hothers⟩

end PollSystem

end Libanet.Net
