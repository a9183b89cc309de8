import Libanet.Lib.Machine
import Libanet.Net.PollPoller
import Libanet.Proofs.Channel

/-!
# Every channel has its slot

The poller's array and the positions kept in the channels are inverse to
each other. Updating a channel touches its own slot only, or appends one;
removing one moves the last slot into the hole and tells the channel that
owned it, which it finds by the descriptor in the slot, negated or not. The
invariant is stated over what the callers did, so a channel is registered
here when it was updated and not removed since.
-/

namespace Libanet.Net

/-- What was done to a channel so far. -/
inductive Registration where
  | fresh
  | registered
  | removed
  deriving DecidableEq, Repr

inductive PollAction where
  | update (c : ChannelId) (op : ChannelOp)
  | remove (c : ChannelId)
  deriving DecidableEq

/-- A poller, and what was done to its channels. -/
structure PollSystem where
  poller : PollPoller
  status : ChannelId → Registration

namespace PollSystem

def mark (status : ChannelId → Registration) (c : ChannelId) (r : Registration) :
    ChannelId → Registration := fun c' => if c' = c then r else status c'

@[simp] theorem mark_same (status : ChannelId → Registration) (c : ChannelId)
    (r : Registration) : mark status c r c = r := if_pos rfl

theorem mark_other (status : ChannelId → Registration) {c c' : ChannelId} (r : Registration)
    (hne : c' ≠ c) : mark status c r c' = status c' := if_neg hne

/-- Callers update channels that are registered or never were, and remove
registered ones. -/
def guard (s : PollSystem) : PollAction → Bool
  | .update c _ => s.status c ≠ .removed
  | .remove c => s.status c = .registered

def exec (debug : Bool) : PollAction → PollSystem → Except Fault PollSystem
  | .update c op, s => do
      let heap := s.poller.heap.set_events c (op.eventsOf s.poller.heap c)
      let poller ← PollPoller.updateChannel debug c { s.poller with heap := heap }
      return ⟨poller, mark s.status c .registered⟩
  | .remove c, s => do
      let poller ← PollPoller.removeChannel debug c s.poller
      return ⟨poller, mark s.status c .removed⟩

def machine (debug : Bool) : Machine PollSystem PollAction Fault := ⟨guard, exec debug⟩

def new (fd : ChannelId → Int) : PollSystem := ⟨PollPoller.new fd, fun _ => .fresh⟩

end PollSystem

/-! ## The interest of a channel fits in a `short` -/

/-- The masks a channel's operations can build. -/
def Interest (events : EventMask) : Prop :=
  events = Channel.kNoneEvent ∨ events = Channel.kReadEvent ∨ events = Channel.kWriteEvent ∨
    events = Channel.kReadEvent ||| Channel.kWriteEvent

theorem Interest.signExtend {events : EventMask} (h : Interest events) :
    (events.setWidth 16).signExtend 32 = events := by
  obtain rfl | rfl | rfl | rfl := h <;> decide

theorem Interest.eventsOf {h : ChannelHeap} {c : ChannelId} (hi : Interest (h c).events)
    (op : ChannelOp) : Interest (op.eventsOf h c) := by
  cases op with
  | enableReading =>
      show Interest ((h c).events ||| Channel.kReadEvent)
      obtain hi | hi | hi | hi := hi <;> rw [hi] <;> unfold Interest <;> decide
  | disableReading =>
      show Interest ((h c).events &&& ~~~Channel.kReadEvent)
      obtain hi | hi | hi | hi := hi <;> rw [hi] <;> unfold Interest <;> decide
  | enableWriting =>
      show Interest ((h c).events ||| Channel.kWriteEvent)
      obtain hi | hi | hi | hi := hi <;> rw [hi] <;> unfold Interest <;> decide
  | disableWriting =>
      show Interest ((h c).events &&& ~~~Channel.kWriteEvent)
      obtain hi | hi | hi | hi := hi <;> rw [hi] <;> unfold Interest <;> decide
  | disableAll => exact Or.inl rfl

namespace PollPoller

/-! ## The operations -/

/-- An assert that holds, in a build that has it, is passed. -/
theorem assertIn_bind {debug : Bool} {p : Prop} [Decidable p] {β : Type}
    {f : Unit → Except Fault β} (hp : debug = true → p) : (assertIn debug p >>= f) = f () := by
  cases debug with
  | false => rfl
  | true =>
      show (assertThat p >>= f) = f ()
      rw [assertThat_of (hp rfl)]
      rfl

theorem of_assertIn_bind {debug : Bool} {p : Prop} [Decidable p] {β : Type}
    {f : Unit → Except Fault β} {r : β} (h : (assertIn debug p >>= f) = .ok r) : f () = .ok r := by
  cases debug with
  | false => exact h
  | true => exact (assertThat_bind_eq_ok.mp h).2

/-- What `removeChannel` does when it passes its asserts, it also does
without them. -/
theorem removeChannel_release {debug : Bool} {c : ChannelId} {s s' : PollPoller}
    (h : removeChannel debug c s = .ok s') : removeChannel false c s = .ok s' := by
  have h := of_assertIn_bind (of_assertIn_bind (of_assertIn_bind (of_assertIn_bind h)))
  unfold removeChannel
  refine (assertIn_bind fun hd => by cases hd).trans ?_
  refine (assertIn_bind fun hd => by cases hd).trans ?_
  refine (assertIn_bind fun hd => by cases hd).trans ?_
  refine (assertIn_bind fun hd => by cases hd).trans ?_
  cases hslot : s.slot? (s.heap c).index with
  | none =>
      rw [hslot] at h
      cases h
  | some pfd =>
      rw [hslot] at h
      exact of_assertIn_bind (of_assertIn_bind h)

theorem updateChannel_push {debug : Bool} {s : PollPoller} {c : ChannelId}
    (hidx : (s.heap c).index < 0) (hnone : s.channels[(s.heap c).fd]? = none) :
    updateChannel debug c s = .ok
      { channels := s.channels.insert (s.heap c).fd c
        pollfds := s.pollfds ++ [slotOf (s.heap c) (s.heap c).fd]
        heap := s.heap.set_index c s.pollfds.length } := by
  unfold updateChannel
  rw [if_pos hidx]
  refine (assertIn_bind fun _ => hnone).trans ?_
  have hlen : ((s.pollfds ++ [slotOf (s.heap c) (s.heap c).fd]).length : Int) - 1 =
      s.pollfds.length := by
    rw [List.length_append, List.length_singleton]
    omega
  simp only [hlen]
  rfl

theorem slot?_natCast (s : PollPoller) (i : Nat) : s.slot? i = s.pollfds[i]? := by
  unfold slot?
  rw [if_neg (by omega), Int.toNat_natCast]

theorem updateChannel_set {debug : Bool} {s : PollPoller} {c : ChannelId} {i : Nat}
    {pfd : PollFd} (hidx : (s.heap c).index = i) (hfound : s.channels[(s.heap c).fd]? = some c)
    (hslot : s.pollfds[i]? = some pfd)
    (hfd : pfd.fd = (s.heap c).fd ∨ pfd.fd = -(s.heap c).fd - 1) :
    updateChannel debug c s = .ok { s with
      pollfds := s.pollfds.set i (slotOf (s.heap c)
        (if (s.heap c).isNoneEvent then -(s.heap c).fd - 1 else (s.heap c).fd)) } := by
  have hlt : i < s.pollfds.length := (List.getElem?_eq_some_iff.mp hslot).1
  unfold updateChannel
  rw [if_neg (by omega)]
  refine (assertIn_bind fun _ => by simp [hfound]).trans ?_
  refine (assertIn_bind fun _ => hfound).trans ?_
  refine (assertIn_bind fun _ => by omega).trans ?_
  rw [hidx, slot?_natCast, hslot]
  exact assertIn_bind fun _ => hfd

/-- The array when the last slot has taken the place of slot `i`. -/
theorem getElem?_swapped {xs : List PollFd} {i : Nat} {back pfd : PollFd} (hi : i + 1 < xs.length)
    (hback : xs.getLast? = some back) (j : Nat) :
    ((xs.set i back).set (xs.length - 1) pfd).dropLast[j]? =
      if j + 1 < xs.length then if j = i then xs[xs.length - 1]? else xs[j]? else none := by
  rw [List.getElem?_dropLast, List.length_set, List.length_set]
  by_cases hj : j + 1 < xs.length
  · rw [if_pos (by omega), if_pos hj, List.getElem?_set_ne (by omega)]
    by_cases hji : j = i
    · rw [hji, if_pos rfl, List.getElem?_set_self (by omega), ← hback, List.getLast?_eq_getElem?]
    · rw [if_neg hji, List.getElem?_set_ne (Ne.symm hji)]
  · rw [if_neg (by omega), if_neg hj]

/-- `removeChannel` up to the place where it gives the slot up. -/
theorem removeChannel_eq {debug : Bool} {s : PollPoller} {c : ChannelId} {i : Nat}
    {pfd : PollFd} (hidx : (s.heap c).index = i) (hfound : s.channels[(s.heap c).fd]? = some c)
    (hslot : s.pollfds[i]? = some pfd)
    (hassert : debug = true → (s.heap c).isNoneEvent = true ∧ pfd.fd = -(s.heap c).fd - 1 ∧
      pfd.eventsInt = (s.heap c).events) :
    removeChannel debug c s =
      if i + 1 = s.pollfds.length then
        .ok { s with
          channels := s.channels.erase (s.heap c).fd
          pollfds := s.pollfds.dropLast }
      else moveLast i { s with channels := s.channels.erase (s.heap c).fd } := by
  have hlt : i < s.pollfds.length := (List.getElem?_eq_some_iff.mp hslot).1
  have hcount : s.channels.contains (s.heap c).fd = true := by
    rw [Std.TreeMap.contains_eq_isSome_getElem?, hfound]
    rfl
  have hlast : ((i : Int) = (s.pollfds.length : Int) - 1) = (i + 1 = s.pollfds.length) := by
    apply propext
    omega
  refine (assertIn_bind fun _ => by simp [hfound]).trans ?_
  refine (assertIn_bind fun _ => hfound).trans ?_
  refine (assertIn_bind fun hd => (hassert hd).1).trans ?_
  refine (assertIn_bind fun _ => by omega).trans ?_
  rw [hidx, slot?_natCast, hslot]
  refine (assertIn_bind fun hd => (hassert hd).2).trans ?_
  refine (assertIn_bind fun _ => if_pos hcount).trans ?_
  simp only [hlast]
  rfl

theorem moveLast_eq {s : PollPoller} {i : Nat} {pfd back : PollFd} {c : ChannelId}
    (hslot : s.pollfds[i]? = some pfd) (hback : s.pollfds.getLast? = some back)
    (hfound : s.channels[if back.fd < 0 then -back.fd - 1 else back.fd]? = some c) :
    moveLast i s = .ok { s with
      pollfds := ((s.pollfds.set i back).set (s.pollfds.length - 1) pfd).dropLast
      heap := s.heap.set_index c i } := by
  unfold moveLast
  rw [slot?_natCast, hslot, hback]
  simp only [hfound]
  rfl

end PollPoller

/-! ## The invariant -/

/-- How the descriptor in a slot is made from the channel's interest and
descriptor. -/
structure Encoding where
  rel : EventMask → Int → Int → Prop
  sound {events : EventMask} {fd x : Int} : rel events fd x → x = fd ∨ x = -fd - 1
  set (events : EventMask) (fd : Int) :
    rel events fd (if events = Channel.kNoneEvent then -fd - 1 else fd)

/-- The descriptor or its complement. -/
def Encoding.either : Encoding where
  rel _ fd x := x = fd ∨ x = -fd - 1
  sound h := h
  set events fd := by
    split
    · exact Or.inr rfl
    · exact Or.inl rfl

/-- `channelAtEnd`: the descriptor is recovered from the slot. -/
theorem Encoding.decode {e : Encoding} {events : EventMask} {fd : Nat} {x : Int}
    (hrel : e.rel events fd x) : (if x < 0 then -x - 1 else x) = fd := by
  obtain hfd | hfd := e.sound hrel
  · rw [if_neg (by omega), hfd]
  · rw [if_pos (by omega)]
    omega

namespace PollSystem

/-- Positions and slots are inverse to each other. -/
structure Slots (e : Encoding) (fd : ChannelId → Nat) (s : PollSystem) : Prop where
  fds (c : ChannelId) : (s.poller.heap c).fd = fd c
  interest (c : ChannelId) : Interest (s.poller.heap c).events
  size : s.poller.pollfds.length = s.poller.channels.size
  fresh (c : ChannelId) : s.status c = .fresh → (s.poller.heap c).index = -1
  found (k : Int) (c : ChannelId) : s.poller.channels[k]? = some c ↔
    k = fd c ∧ s.status c = .registered
  slot (c : ChannelId) : s.status c = .registered → ∃ (i : Nat) (pfd : PollFd),
    (s.poller.heap c).index = i ∧ s.poller.pollfds[i]? = some pfd ∧
      e.rel (s.poller.heap c).events (fd c) pfd.fd ∧ pfd.eventsInt = (s.poller.heap c).events
  owner (i : Nat) : i < s.poller.pollfds.length → ∃ c, s.status c = .registered ∧
    (s.poller.heap c).index = i

variable {e : Encoding} {fd : ChannelId → Nat} {s : PollSystem}

theorem Slots.new (e : Encoding) (fd : ChannelId → Nat) : Slots e fd (new fun c => fd c) where
  fds c := rfl
  interest c := Or.inl rfl
  size := rfl
  fresh c _ := rfl
  found k c := by simp [PollSystem.new, PollPoller.new]
  slot c hc := by simp [PollSystem.new] at hc
  owner i hi := by simp [PollSystem.new, PollPoller.new] at hi

/-- Two registered channels in the same slot are the same. -/
theorem Slots.index_injective (h : Slots e fd s) {c c' : ChannelId}
    (hc : s.status c = .registered) (hc' : s.status c' = .registered)
    (hidx : (s.poller.heap c).index = (s.poller.heap c').index) : c = c' := by
  obtain ⟨i, pfd, hi, hslot, hrel, -⟩ := h.slot c hc
  obtain ⟨j, pfd', hj, hslot', hrel', -⟩ := h.slot c' hc'
  have hij : i = j := by omega
  rw [hij, hslot'] at hslot
  have hpfd : pfd' = pfd := Option.some.inj hslot
  have hfd : (fd c : Int) = fd c' := by
    have h₁ := e.sound hrel
    have h₂ := e.sound hrel'
    rw [hpfd] at h₂
    omega
  have hfound := (h.found _ c).mpr ⟨rfl, hc⟩
  have hfound' := (h.found _ c').mpr ⟨rfl, hc'⟩
  rw [hfd, hfound'] at hfound
  exact (Option.some.inj hfound).symm

/-- Nobody but `c` is registered under its descriptor. -/
def Mine (fd : ChannelId → Nat) (s : PollSystem) (c : ChannelId) : Prop :=
  ∀ c', s.poller.channels[(fd c : Int)]? = some c' → c' = c

theorem Slots.mine_of_injective (hinj : Function.Injective fd) (h : Slots e fd s)
    (c : ChannelId) : Mine fd s c := by
  intro c' hfound
  obtain ⟨hfd, -⟩ := (h.found _ _).mp hfound
  exact hinj (by omega)

theorem Slots.mine_of_registered (h : Slots e fd s) {c : ChannelId}
    (hc : s.status c = .registered) : Mine fd s c := by
  intro c' hfound
  rw [(h.found _ c).mpr ⟨rfl, hc⟩] at hfound
  exact (Option.some.inj hfound).symm

/-- A registered channel with the descriptor of `c` is `c`. -/
theorem Slots.eq_of_mine (h : Slots e fd s) {c c' : ChannelId} (hmine : Mine fd s c)
    (hreg : s.status c' = .registered) (hfd : (fd c : Int) = fd c') : c' = c :=
  hmine c' ((h.found _ _).mpr ⟨hfd, hreg⟩)

/-- The map after a channel was registered, or was already. -/
theorem Slots.found_registered (h : Slots e fd s) {c : ChannelId} (hmine : Mine fd s c)
    {channels : ChannelMap}
    (hch : ∀ k : Int, channels[k]? = if k = fd c then some c else s.poller.channels[k]?) (k : Int)
    (c' : ChannelId) : channels[k]? = some c' ↔
      k = fd c' ∧ mark s.status c .registered c' = .registered := by
  rw [hch]
  by_cases hc : c' = c
  · subst hc
    rw [mark_same]
    by_cases hk : k = fd c'
    · simp [hk]
    · rw [if_neg hk, h.found]
      simp [hk]
  · rw [mark_other _ _ hc]
    by_cases hk : k = fd c
    · rw [if_pos hk]
      constructor
      · intro hcc
        exact absurd (Option.some.inj hcc).symm hc
      · rintro ⟨hk', hreg⟩
        exact absurd (h.eq_of_mine hmine hreg (by omega)) hc
    · rw [if_neg hk, h.found]

/-- What an update does: the channel has slot `i` with its new interest,
and every other channel has what it had. -/
structure Placed (e : Encoding) (fd : ChannelId → Nat) (s : PollSystem) (p : PollPoller)
    (c : ChannelId) (events : EventMask) (i : Nat) : Prop where
  heap : p.heap = (s.poller.heap.set_events c events).set_index c i
  channels (k : Int) : p.channels[k]? = if k = fd c then some c else s.poller.channels[k]?
  size : p.pollfds.length = p.channels.size
  slot : ∃ pfd, p.pollfds[i]? = some pfd ∧ e.rel events (fd c) pfd.fd ∧ pfd.eventsInt = events
  others (j : Nat) : j ≠ i → p.pollfds[j]? = s.poller.pollfds[j]?
  /-- The slot was the channel's own, or nobody's. -/
  free (c' : ChannelId) : s.status c' = .registered →
    (c' = c ↔ (s.poller.heap c').index = i)

theorem Slots.placed (h : Slots e fd s) {p : PollPoller} {c : ChannelId}
    (hmine : Mine fd s c) {events : EventMask} {i : Nat} (hint : Interest events)
    (hp : Placed e fd s p c events i) : Slots e fd ⟨p, mark s.status c .registered⟩ where
  fds c' := by simpa [hp.heap] using h.fds c'
  interest c' := by
    by_cases hc : c' = c
    · simpa [hp.heap, ChannelHeap.events_set_events, hc] using hint
    · simpa [hp.heap, ChannelHeap.events_set_events, hc] using h.interest c'
  size := hp.size
  fresh c' hfresh := by
    have hc : c' ≠ c := by
      rintro rfl
      simp at hfresh
    simp only [mark_other _ _ hc] at hfresh
    simpa [hp.heap, ChannelHeap.index_set_index, hc] using h.fresh c' hfresh
  found := h.found_registered hmine hp.channels
  slot c' hreg := by
    by_cases hc : c' = c
    · obtain ⟨pfd, hpfd, hrel, hev⟩ := hp.slot
      refine ⟨i, pfd, ?_, hpfd, ?_, ?_⟩
      · simp [hp.heap, ChannelHeap.index_set_index, hc]
      · simpa [hp.heap, ChannelHeap.events_set_events, hc] using hrel
      · simpa [hp.heap, ChannelHeap.events_set_events, hc] using hev
    · simp only [mark_other _ _ hc] at hreg
      obtain ⟨j, pfd, hj, hpfd, hrel, hev⟩ := h.slot c' hreg
      have hji : j ≠ i := by
        intro hji
        exact hc ((hp.free c' hreg).mpr (by rw [hj, hji]))
      refine ⟨j, pfd, ?_, ?_, ?_, ?_⟩
      · simpa [hp.heap, ChannelHeap.index_set_index, hc] using hj
      · rw [hp.others j hji, hpfd]
      · simpa [hp.heap, ChannelHeap.events_set_events, hc] using hrel
      · simpa [hp.heap, ChannelHeap.events_set_events, hc] using hev
  owner j hj := by
    by_cases hji : j = i
    · refine ⟨c, mark_same _ _ _, ?_⟩
      simp [hp.heap, ChannelHeap.index_set_index, hji]
    · have hold : j < s.poller.pollfds.length := by
        have hsome := hp.others j hji
        rw [List.getElem?_eq_getElem hj] at hsome
        exact (List.getElem?_eq_some_iff.mp hsome.symm).1
      obtain ⟨c', hreg, hidx⟩ := h.owner j hold
      have hc : c' ≠ c := by
        intro hc
        have hidx' := (hp.free c' hreg).mp hc
        omega
      refine ⟨c', ?_, ?_⟩
      · exact (mark_other _ _ hc).trans hreg
      · simpa [hp.heap, ChannelHeap.index_set_index, hc] using hidx

theorem eventsInt_slotOf {ch : PolledChannel} (hint : Interest ch.events) (x : Int) :
    (PollPoller.slotOf ch x).eventsInt = ch.events := hint.signExtend

/-- A channel's first update appends a slot. -/
theorem Slots.push (h : Slots e fd s) (debug : Bool) {c : ChannelId}
    (hmine : Mine fd s c) {events : EventMask} (hc : s.status c = .fresh) (hint : Interest events)
    (henc : e.rel events (fd c) (fd c)) :
    ∃ p, PollPoller.updateChannel debug c
        { s.poller with heap := s.poller.heap.set_events c events } = .ok p ∧
      Placed e fd s p c events s.poller.pollfds.length := by
  have hidx := h.fresh c hc
  have hfd := h.fds c
  have hev : (s.poller.heap.set_events c events c).events = events := by
    simp [ChannelHeap.events_set_events]
  have hnone : s.poller.channels[(fd c : Int)]? = none := by
    cases hf : s.poller.channels[(fd c : Int)]? with
    | none => rfl
    | some c' =>
        obtain ⟨-, hreg⟩ := (h.found _ _).mp hf
        rw [hmine c' hf, hc] at hreg
        cases hreg
  refine ⟨_, PollPoller.updateChannel_push (by simp [hidx]) (by simpa [hfd] using hnone), ?_⟩
  constructor
  · rfl
  · intro k
    simp [getElem?_insert_int, hfd]
  · have habsent : s.poller.channels.contains (fd c : Int) = false := by
      rw [Std.TreeMap.contains_eq_isSome_getElem?, hnone]
      rfl
    simp [Std.TreeMap.size_insert, hfd, habsent, h.size]
  · refine ⟨_, List.getElem?_concat_length, ?_, ?_⟩
    · simpa [PollPoller.slotOf, hfd] using henc
    · rw [eventsInt_slotOf (by rw [hev]; exact hint), hev]
  · intro j hj
    by_cases hlt : j < s.poller.pollfds.length
    · exact List.getElem?_append_left hlt
    · rw [List.getElem?_eq_none (by simp; omega), List.getElem?_eq_none (by omega)]
  · intro c' hreg
    constructor
    · rintro rfl
      rw [hc] at hreg
      cases hreg
    · intro hlen
      obtain ⟨i, pfd, hi, hpfd, -⟩ := h.slot c' hreg
      have hlt := (List.getElem?_eq_some_iff.mp hpfd).1
      omega

/-- A later one rewrites its own. -/
theorem Slots.set (h : Slots e fd s) (debug : Bool) {c : ChannelId}
    {events : EventMask} (hc : s.status c = .registered) (hint : Interest events) :
    ∃ p i, PollPoller.updateChannel debug c
        { s.poller with heap := s.poller.heap.set_events c events } = .ok p ∧
      Placed e fd s p c events i := by
  have hfd := h.fds c
  have hev : (s.poller.heap.set_events c events c).events = events := by
    simp [ChannelHeap.events_set_events]
  have hfound := (h.found _ c).mpr ⟨rfl, hc⟩
  obtain ⟨i, pfd, hi, hpfd, hrel, -⟩ := h.slot c hc
  have hlt := (List.getElem?_eq_some_iff.mp hpfd).1
  refine ⟨_, i, PollPoller.updateChannel_set (by simpa using hi) (by simpa [hfd] using hfound)
    hpfd (by simpa [hfd] using e.sound hrel), ?_⟩
  constructor
  · rw [ChannelHeap.set_index_self (by simpa using hi)]
  · exact getElem?_of_found hfound
  · rw [List.length_set]
    exact h.size
  · refine ⟨_, List.getElem?_set_self hlt, ?_, ?_⟩
    · have hset := e.set events (fd c)
      simpa [PollPoller.slotOf, hfd, Channel.isNoneEvent, hev] using hset
    · rw [eventsInt_slotOf (by rw [hev]; exact hint), hev]
  · intro j hj
    exact List.getElem?_set_ne (Ne.symm hj)
  · intro c' hreg
    constructor
    · rintro rfl
      exact hi
    · intro hidx
      exact h.index_injective hreg hc (by rw [hidx, hi])

/-- What a removal does: the channel loses slot `i`, the last slot moves
there with its channel, and every other channel has what it had. -/
structure Taken (fd : ChannelId → Nat) (s : PollSystem) (p : PollPoller) (c : ChannelId)
    (i : Nat) : Prop where
  mine : (s.poller.heap c).index = i ∧ i < s.poller.pollfds.length
  fds (c' : ChannelId) : (p.heap c').fd = (s.poller.heap c').fd
  events (c' : ChannelId) : (p.heap c').events = (s.poller.heap c').events
  index (c' : ChannelId) : (p.heap c').index =
    if s.status c' = .registered ∧ c' ≠ c ∧
      (s.poller.heap c').index + 1 = s.poller.pollfds.length then (i : Int)
    else (s.poller.heap c').index
  channels (k : Int) : p.channels[k]? = if k = fd c then none else s.poller.channels[k]?
  size : p.pollfds.length + 1 = s.poller.pollfds.length ∧
    p.channels.size + 1 = s.poller.channels.size
  slots (j : Nat) : p.pollfds[j]? =
    if j + 1 < s.poller.pollfds.length then
      if j = i then s.poller.pollfds[s.poller.pollfds.length - 1]? else s.poller.pollfds[j]?
    else none

/-- The slot of a channel that was not removed has moved with it. -/
theorem Slots.slot_taken (h : Slots e fd s) {p : PollPoller} {c : ChannelId} {i : Nat}
    (hc : s.status c = .registered) (ht : Taken fd s p c i) {c' : ChannelId} {j : Nat}
    (hreg : s.status c' = .registered) (hne : c' ≠ c) (hj : (s.poller.heap c').index = j)
    (hlt : j < s.poller.pollfds.length) :
    ∃ j' : Nat, (p.heap c').index = j' ∧ p.pollfds[j']? = s.poller.pollfds[j]? := by
  obtain ⟨hi, hilt⟩ := ht.mine
  have hji : j ≠ i := by
    intro hji
    exact hne (h.index_injective hreg hc (by rw [hj, hi, hji]))
  by_cases hlast : j + 1 = s.poller.pollfds.length
  · refine ⟨i, ?_, ?_⟩
    · rw [ht.index, if_pos ⟨hreg, hne, by omega⟩]
    · rw [ht.slots, if_pos (by omega), if_pos rfl, ← hlast, Nat.add_sub_cancel]
  · refine ⟨j, ?_, ?_⟩
    · rw [ht.index, if_neg (by omega), hj]
    · rw [ht.slots, if_pos (by omega), if_neg hji]

theorem Slots.taken (h : Slots e fd s) {p : PollPoller} {c : ChannelId} {i : Nat}
    (hc : s.status c = .registered) (ht : Taken fd s p c i) :
    Slots e fd ⟨p, mark s.status c .removed⟩ where
  fds c' := (ht.fds c').trans (h.fds c')
  interest c' := by
    show Interest (p.heap c').events
    rw [ht.events]
    exact h.interest c'
  size := by
    have hsize := ht.size
    have hold := h.size
    show p.pollfds.length = p.channels.size
    omega
  fresh c' hfresh := by
    have hne : c' ≠ c := by
      rintro rfl
      simp at hfresh
    have hold : s.status c' = .fresh := (mark_other _ _ hne).symm.trans hfresh
    show (p.heap c').index = -1
    rw [ht.index, if_neg (by rw [hold]; simp), h.fresh c' hold]
  found k c' := by
    show p.channels[k]? = some c' ↔ k = fd c' ∧ mark s.status c .removed c' = .registered
    rw [ht.channels]
    by_cases hne : c' = c
    · subst hne
      rw [mark_same]
      by_cases hk : k = fd c'
      · simp [hk]
      · rw [if_neg hk, h.found]
        simp [hk]
    · rw [mark_other _ _ hne]
      by_cases hk : k = fd c
      · rw [if_pos hk]
        constructor
        · intro hfound
          cases hfound
        · rintro ⟨hk', hreg⟩
          exact absurd (h.eq_of_mine (h.mine_of_registered hc) hreg (by omega)) hne
      · rw [if_neg hk, h.found]
  slot c' hreg := by
    have hne : c' ≠ c := by
      rintro rfl
      simp at hreg
    have hreg : s.status c' = .registered := (mark_other _ _ hne).symm.trans hreg
    obtain ⟨j, pfd, hj, hpfd, hrel, hev⟩ := h.slot c' hreg
    obtain ⟨j', hj', hmoved⟩ := h.slot_taken hc ht hreg hne hj (List.getElem?_eq_some_iff.mp hpfd).1
    refine ⟨j', pfd, hj', hmoved.trans hpfd, ?_, ?_⟩
    · show e.rel (p.heap c').events (fd c') pfd.fd
      rw [ht.events]
      exact hrel
    · exact hev.trans (ht.events c').symm
  owner j hj := by
    obtain ⟨hi, hilt⟩ := ht.mine
    have hsize := ht.size.1
    have hj : j < p.pollfds.length := hj
    by_cases hji : j = i
    · -- The hole is filled by the channel of the last slot.
      obtain ⟨c', hreg, hidx⟩ := h.owner (s.poller.pollfds.length - 1) (by omega)
      have hne : c' ≠ c := by
        rintro rfl
        omega
      refine ⟨c', (mark_other _ _ hne).trans hreg, ?_⟩
      show (p.heap c').index = j
      rw [ht.index, if_pos ⟨hreg, hne, by omega⟩, hji]
    · obtain ⟨c', hreg, hidx⟩ := h.owner j (by omega)
      have hne : c' ≠ c := by
        rintro rfl
        omega
      refine ⟨c', (mark_other _ _ hne).trans hreg, ?_⟩
      show (p.heap c').index = j
      rw [ht.index, if_neg (by omega), hidx]

theorem Slots.size_erase (h : Slots e fd s) {c : ChannelId} (hc : s.status c = .registered) :
    (s.poller.channels.erase (fd c : Int)).size + 1 = s.poller.channels.size := by
  have hfound := (h.found _ c).mpr ⟨rfl, hc⟩
  have hpresent : s.poller.channels.contains (fd c : Int) = true := by
    rw [Std.TreeMap.contains_eq_isSome_getElem?, hfound]
    rfl
  obtain ⟨i, pfd, -, hpfd, -⟩ := h.slot c hc
  have hlt := (List.getElem?_eq_some_iff.mp hpfd).1
  have hsize := h.size
  rw [Std.TreeMap.size_erase, if_pos hpresent]
  omega

/-- The channel of the last slot leaves. -/
theorem Slots.taken_last (h : Slots e fd s) {c : ChannelId} {i : Nat}
    (hc : s.status c = .registered) (hi : (s.poller.heap c).index = i)
    (hlast : i + 1 = s.poller.pollfds.length) :
    Taken fd s { s.poller with
      channels := s.poller.channels.erase (fd c : Int)
      pollfds := s.poller.pollfds.dropLast } c i where
  mine := ⟨hi, by omega⟩
  fds _ := rfl
  events _ := rfl
  index c' := by
    rw [if_neg]
    rintro ⟨hreg, hne, hidx⟩
    exact hne (h.index_injective hreg hc (by omega))
  channels := getElem?_erase_int _ _
  size := ⟨by rw [List.length_dropLast]; omega, h.size_erase hc⟩
  slots j := by
    rw [List.getElem?_dropLast]
    by_cases hj : j + 1 < s.poller.pollfds.length
    · rw [if_pos (by omega), if_pos hj, if_neg (by omega)]
    · rw [if_neg (by omega), if_neg hj]

/-- A channel with slots behind it leaves, and the channel of the last one
takes its place. -/
theorem Slots.taken_hole (h : Slots e fd s) {c c' : ChannelId} {i : Nat} {pfd back : PollFd}
    (hc : s.status c = .registered) (hi : (s.poller.heap c).index = i)
    (hhole : i + 1 < s.poller.pollfds.length) (hback : s.poller.pollfds.getLast? = some back)
    (hreg : s.status c' = .registered) (hne : c' ≠ c)
    (hidx : (s.poller.heap c').index + 1 = s.poller.pollfds.length) :
    Taken fd s { s.poller with
      channels := s.poller.channels.erase (fd c : Int)
      pollfds := ((s.poller.pollfds.set i back).set (s.poller.pollfds.length - 1) pfd).dropLast
      heap := s.poller.heap.set_index c' i } c i where
  mine := ⟨hi, by omega⟩
  fds _ := ChannelHeap.fd_set_index _ _ _ _
  events _ := ChannelHeap.events_set_index _ _ _ _
  index x := by
    rw [ChannelHeap.index_set_index]
    by_cases hx : x = c'
    · rw [if_pos hx, if_pos]
      rw [hx]
      exact ⟨hreg, hne, hidx⟩
    · rw [if_neg hx, if_neg]
      rintro ⟨hregx, -, hidxx⟩
      exact hx (h.index_injective hregx hreg (by omega))
  channels := getElem?_erase_int _ _
  size := by
    refine ⟨?_, h.size_erase hc⟩
    simp only [List.length_dropLast, List.length_set]
    omega
  slots := PollPoller.getElem?_swapped hhole hback

theorem Slots.remove (h : Slots e fd s) (debug : Bool) {c : ChannelId}
    (hc : s.status c = .registered)
    (hassert : debug = true → (s.poller.heap c).isNoneEvent = true ∧
      ∀ pfd, s.poller.slot? (s.poller.heap c).index = some pfd → pfd.fd = -fd c - 1) :
    ∃ p i, PollPoller.removeChannel debug c s.poller = .ok p ∧ Taken fd s p c i := by
  have hfd := h.fds c
  have hfound := (h.found _ c).mpr ⟨rfl, hc⟩
  obtain ⟨i, pfd, hi, hpfd, hrel, hev⟩ := h.slot c hc
  have hlt := (List.getElem?_eq_some_iff.mp hpfd).1
  have hassert' : debug = true → (s.poller.heap c).isNoneEvent = true ∧
      pfd.fd = -(s.poller.heap c).fd - 1 ∧ pfd.eventsInt = (s.poller.heap c).events := by
    intro hd
    obtain ⟨hnone, hslot⟩ := hassert hd
    rw [hi, PollPoller.slot?_natCast] at hslot
    exact ⟨hnone, by rw [hfd]; exact hslot pfd hpfd, hev⟩
  rw [PollPoller.removeChannel_eq hi (by rw [hfd]; exact hfound) hpfd hassert', hfd]
  by_cases hlast : i + 1 = s.poller.pollfds.length
  · exact ⟨_, i, if_pos hlast, h.taken_last hc hi hlast⟩
  · obtain ⟨c', hreg, hidx⟩ := h.owner (s.poller.pollfds.length - 1) (by omega)
    obtain ⟨j, back, hj, hback, hrel', -⟩ := h.slot c' hreg
    have hjlast : j = s.poller.pollfds.length - 1 := by omega
    have hhole : i + 1 < s.poller.pollfds.length := by omega
    have hne : c' ≠ c := by
      rintro rfl
      omega
    have hgetLast : s.poller.pollfds.getLast? = some back := by
      rw [List.getLast?_eq_getElem?, ← hjlast, hback]
    have hatEnd : (s.poller.channels.erase (fd c : Int))[
        if back.fd < 0 then -back.fd - 1 else back.fd]? = some c' := by
      rw [Encoding.decode hrel', getElem?_erase_int, if_neg, (h.found _ _).mpr ⟨rfl, hreg⟩]
      intro hsame
      have hother := (h.found _ c').mpr ⟨rfl, hreg⟩
      rw [hsame, hfound] at hother
      exact hne (Option.some.inj hother).symm
    exact ⟨_, i, (if_neg hlast).trans (PollPoller.moveLast_eq hpfd hgetLast hatEnd),
      h.taken_hole hc hi hhole hgetLast hreg hne (by omega)⟩

/-- An update on offer succeeds. -/
theorem Slots.update (h : Slots e fd s) (debug : Bool) {c : ChannelId}
    (hmine : Mine fd s c) (op : ChannelOp) (hc : s.status c ≠ .removed)
    (henc : s.status c = .fresh → e.rel (op.eventsOf s.poller.heap c) (fd c) (fd c)) :
    ∃ p i, PollPoller.updateChannel debug c
        { s.poller with heap := s.poller.heap.set_events c (op.eventsOf s.poller.heap c) } = .ok p ∧
      Placed e fd s p c (op.eventsOf s.poller.heap c) i := by
  have hint := (h.interest c).eventsOf op
  cases hst : s.status c with
  | fresh =>
      obtain ⟨p, hp, hplaced⟩ := h.push debug hmine hst hint (henc hst)
      exact ⟨p, _, hp, hplaced⟩
  | registered => exact h.set debug hst hint
  | removed => exact absurd hst hc

/-- A removal on offer that passes its asserts takes the channel's slot. -/
theorem Slots.exec_remove (h : Slots e fd s) {debug : Bool} {c : ChannelId} {s' : PollSystem}
    (hc : s.status c = .registered) (he : exec debug (.remove c) s = .ok s') :
    ∃ i, Taken fd s s'.poller c i ∧ s'.status = mark s.status c .removed := by
  obtain ⟨p, hp, he⟩ := bind_eq_ok.mp he
  cases he
  obtain ⟨p', i, hp', ht⟩ := h.remove false hc (fun hd => by cases hd)
  cases hp'.symm.trans (PollPoller.removeChannel_release hp)
  exact ⟨i, ht, rfl⟩

/-! ### The asserts are the guard -/

/-- The invariant of the runs that nothing but the asserts holds back. A
removed channel keeps its index, by which an update of it is told from a
first one. -/
structure Tracked (e : Encoding) (fd : ChannelId → Nat) (s : PollSystem) : Prop where
  slots : Slots e fd s
  stale (c : ChannelId) : s.status c = .removed → 0 ≤ (s.poller.heap c).index

theorem Tracked.new (e : Encoding) (fd : ChannelId → Nat) : Tracked e fd (new fun c => fd c) where
  slots := Slots.new _ _
  stale c hc := by cases hc

/-- An update that passes its asserts is the channel's first or finds it
registered, and nobody else is registered under its descriptor. -/
theorem Tracked.update_of_ok (h : Tracked e fd s) {c : ChannelId} {op : ChannelOp}
    {s' : PollSystem} (he : exec true (.update c op) s = .ok s') :
    s.status c ≠ .removed ∧ Mine fd s c := by
  obtain ⟨p, hp, -⟩ := bind_eq_ok.mp he
  unfold PollPoller.updateChannel at hp
  simp only [ChannelHeap.index_set_events, ChannelHeap.fd_set_events, h.slots.fds] at hp
  cases hc : s.status c with
  | registered => exact ⟨by decide, h.slots.mine_of_registered hc⟩
  | fresh =>
      rw [if_pos (by rw [h.slots.fresh c hc]; decide)] at hp
      obtain ⟨hnone, -⟩ := assertThat_bind_eq_ok.mp hp
      refine ⟨by decide, ?_⟩
      intro c' hfound
      rw [hnone] at hfound
      cases hfound
  | removed =>
      rw [if_neg (Int.not_lt.mpr (h.stale c hc))] at hp
      obtain ⟨-, hp⟩ := assertThat_bind_eq_ok.mp hp
      obtain ⟨hfound, -⟩ := assertThat_bind_eq_ok.mp hp
      obtain ⟨-, hreg⟩ := (h.slots.found _ c).mp hfound
      rw [hc] at hreg
      cases hreg

theorem Tracked.remove_of_ok (h : Tracked e fd s) {c : ChannelId} {s' : PollSystem}
    (he : exec true (.remove c) s = .ok s') : s.status c = .registered := by
  obtain ⟨p, hp, -⟩ := bind_eq_ok.mp he
  obtain ⟨-, hp⟩ := assertThat_bind_eq_ok.mp hp
  obtain ⟨hfound, -⟩ := assertThat_bind_eq_ok.mp hp
  exact ((h.slots.found _ c).mp hfound).2

theorem Tracked.update_step (h : Tracked e fd s) {c : ChannelId} {op : ChannelOp}
    {s' : PollSystem} (he : exec true (.update c op) s = .ok s')
    (henc : s.status c = .fresh → e.rel (op.eventsOf s.poller.heap c) (fd c) (fd c)) :
    Tracked e fd s' ∧ s'.status c = .registered := by
  obtain ⟨hc, hmine⟩ := h.update_of_ok he
  obtain ⟨p, i, hp, hplaced⟩ := h.slots.update true hmine op hc henc
  obtain ⟨p', hp', he⟩ := bind_eq_ok.mp he
  cases hp.symm.trans hp'
  cases he
  refine ⟨⟨h.slots.placed hmine ((h.slots.interest c).eventsOf op) hplaced, ?_⟩, mark_same _ _ _⟩
  intro c' hremoved
  have hne : c' ≠ c := by
    rintro rfl
    simp at hremoved
  simpa [hplaced.heap, ChannelHeap.index_set_index, hne] using
    h.stale c' ((mark_other _ _ hne).symm.trans hremoved)

theorem Tracked.remove_step (h : Tracked e fd s) {c : ChannelId} {s' : PollSystem}
    (he : exec true (.remove c) s = .ok s') : Tracked e fd s' := by
  have hc := h.remove_of_ok he
  obtain ⟨i, ht, hst⟩ := h.slots.exec_remove hc he
  have hslots := h.slots.taken hc ht
  rw [← hst] at hslots
  refine ⟨hslots, ?_⟩
  intro c' hremoved
  rw [ht.index]
  split
  · exact Int.natCast_nonneg i
  · by_cases hne : c' = c
    · rw [hne, ht.mine.1]
      exact Int.natCast_nonneg i
    · rw [hst, mark_other _ _ hne] at hremoved
      exact h.stale c' hremoved

theorem Slots.step (hinj : Function.Injective fd) (h : Slots .either fd s) {debug : Bool}
    {a : PollAction} {s' : PollSystem} (hg : s.guard a = true) (he : exec debug a s = .ok s') :
    Slots .either fd s' := by
  cases a with
  | update c op =>
      have hc : s.status c ≠ .removed := of_decide_eq_true hg
      obtain ⟨p, i, hp, hplaced⟩ := h.update debug (h.mine_of_injective hinj c) op hc
        fun _ => Or.inl rfl
      obtain ⟨p', hp', he⟩ := bind_eq_ok.mp he
      cases hp.symm.trans hp'
      cases he
      exact h.placed (h.mine_of_injective hinj c) ((h.interest c).eventsOf op) hplaced
  | remove c =>
      have hc : s.status c = .registered := of_decide_eq_true hg
      obtain ⟨i, ht, hst⟩ := h.exec_remove hc he
      have h' := h.taken hc ht
      rw [← hst] at h'
      exact h'

/-- The content of a channel's slot. -/
def slot (s : PollSystem) (c : ChannelId) : Option PollFd :=
  s.poller.slot? (s.poller.heap c).index

/-- Every registered channel has a slot of its own, whatever was updated and
removed before: there are as many slots as channels in the map, the slot
named by the channel's index holds its descriptor or the complement of it
and its interest as it was last updated, no two channels share a slot, and a
removal leaves the slots of the other channels as they were although one of
them moves. Without the asserts the code never leaves the array. -/
theorem channels_have_slots {debug : Bool} {fd : ChannelId → Nat}
    (hinj : Function.Injective fd) {as : List PollAction} {s : PollSystem}
    (hr : (machine debug).run as (new fun c => fd c) = some s) :
    s.poller.pollfds.length = s.poller.channels.size ∧
      (∀ (k : Int) c, s.poller.channels[k]? = some c ↔ k = fd c ∧ s.status c = .registered) ∧
      (∀ c, s.status c = .registered → ∃ (i : Nat) (pfd : PollFd),
        (s.poller.heap c).index = i ∧ i < s.poller.pollfds.length ∧
          s.poller.pollfds[i]? = some pfd ∧ (pfd.fd = fd c ∨ pfd.fd = -fd c - 1) ∧
          pfd.eventsInt = (s.poller.heap c).events) ∧
      (∀ c c', s.status c = .registered → s.status c' = .registered →
        (s.poller.heap c).index = (s.poller.heap c').index → c = c') ∧
      (∀ c s', (machine debug).step (.remove c) s = some s' →
        ∀ c', c' ≠ c → s.status c' = .registered → slot s' c' = slot s c') ∧
      (machine false).Safe s := by
  have h : Slots .either fd s := by
    refine Machine.run_invariant ?_ (Slots.new .either fd) hr
    intro s t a h hg he
    exact h.step hinj hg he
  refine ⟨h.size, h.found, ?_, ?_, ?_, ?_⟩
  · intro c hc
    obtain ⟨i, pfd, hi, hpfd, hrel, hev⟩ := h.slot c hc
    exact ⟨i, pfd, hi, (List.getElem?_eq_some_iff.mp hpfd).1, hpfd, hrel, hev⟩
  · intro c c' hc hc' hidx
    exact h.index_injective hc hc' hidx
  · intro c s' hstep c' hne hreg
    obtain ⟨hg, he⟩ := Machine.step_eq_some.mp hstep
    have hc : s.status c = .registered := of_decide_eq_true hg
    obtain ⟨i, ht, -⟩ := h.exec_remove hc he
    obtain ⟨j, pfd, hj, hpfd, -⟩ := h.slot c' hreg
    obtain ⟨j', hj', hmoved⟩ := h.slot_taken hc ht hreg hne hj (List.getElem?_eq_some_iff.mp hpfd).1
    rw [slot, slot, hj, hj', PollPoller.slot?_natCast, PollPoller.slot?_natCast, hmoved]
  · intro a hg
    cases a with
    | update c op =>
        have hc : s.status c ≠ .removed := of_decide_eq_true hg
        obtain ⟨p, i, hp, -⟩ := h.update false (h.mine_of_injective hinj c) op hc
          fun _ => Or.inl rfl
        exact ⟨_, bind_eq_ok.mpr ⟨p, hp, rfl⟩⟩
    | remove c =>
        have hc : s.status c = .registered := of_decide_eq_true hg
        obtain ⟨p, i, hp, -⟩ := h.remove false hc (fun hd => by cases hd)
        exact ⟨_, bind_eq_ok.mpr ⟨p, hp, rfl⟩⟩

/-- Three channels, of which the first is removed while the last one has no
interest, so that the slot that moves holds a negated descriptor. -/
def removeFirst : List PollAction :=
  [.update 0 .enableReading, .update 1 .enableWriting, .update 2 .enableReading,
    .update 2 .disableAll, .update 0 .disableAll, .remove 0]

theorem channels_have_slots_removeFirst :
    ∃ s, (machine true).run removeFirst (new fun c => c) = some s ∧
      s.poller.pollfds.length = 2 ∧ slot s 2 = some ⟨-3, 0, 0⟩ ∧
      s.poller.pollfds.length = s.poller.channels.size := by
  obtain ⟨s, hr, hlen, hslot⟩ : ∃ s, (machine true).run removeFirst (new fun c => c) = some s ∧
      s.poller.pollfds.length = 2 ∧ slot s 2 = some ⟨-3, 0, 0⟩ := ⟨_, rfl, rfl, rfl⟩
  obtain ⟨hsize, -⟩ := @channels_have_slots true (fun c => c) Function.injective_id _ _ hr
  exact ⟨s, hr, hlen, hslot, hsize⟩

end PollSystem

end Libanet.Net
