import Libanet.Net.Poller

/-!
# `net/PollPoller.cc`

The poller over `poll(2)`. It keeps one slot per channel in an array and the
slot's position in the channel. A channel without interest keeps its slot
under a negative descriptor, which the kernel skips, and a removed channel's
slot is filled with the last one.

The asserts of this class can be compiled out, and are a parameter here:
what they check is also what the code does without them. `int` positions
are exact, since a process has fewer descriptors than an `int` can count.
-/

namespace Libanet.Net

/-- `struct pollfd`, with its two `short` masks. -/
structure PollFd where
  fd : Int
  events : BitVec 16
  revents : BitVec 16
  deriving DecidableEq

/-- `short` to `int`. -/
def PollFd.eventsInt (pfd : PollFd) : EventMask := pfd.events.signExtend 32

/-- The poller and the channels. -/
structure PollPoller where
  channels : ChannelMap
  pollfds : List PollFd
  heap : ChannelHeap

/-- What `::poll` answers: the number of slots with events, and the
`revents` of every slot. -/
structure PollReply where
  numEvents : Int
  revents : List (BitVec 16)
  deriving DecidableEq

namespace PollPoller

def new (fd : ChannelId → Int) : PollPoller := ⟨∅, [], ChannelHeap.new fd⟩

/-- `pollfds_[idx]`. -/
def slot? (s : PollPoller) (idx : Int) : Option PollFd :=
  if idx < 0 then none else s.pollfds[idx.toNat]?

/-- A channel's slot as `updateChannel` fills it. -/
def slotOf (ch : PolledChannel) (fd : Int) : PollFd := ⟨fd, ch.events.setWidth 16, 0⟩

def updateChannel (debug : Bool) (c : ChannelId) (s : PollPoller) : Except Fault PollPoller := do
  let ch := s.heap c
  if ch.index < 0 then
    assertIn debug (s.channels[ch.fd]? = none)
    let pollfds := s.pollfds ++ [slotOf ch ch.fd]
    let idx : Int := (pollfds.length : Int) - 1
    return { channels := s.channels.insert ch.fd c
             pollfds := pollfds
             heap := s.heap.set_index c idx }
  else
    assertIn debug (s.channels[ch.fd]? ≠ none)
    assertIn debug (s.channels[ch.fd]? = some c)
    let idx := ch.index
    assertIn debug (0 ≤ idx ∧ idx < s.pollfds.length)
    match s.slot? idx with
    | none => throw .outOfBounds
    | some pfd =>
        assertIn debug (pfd.fd = ch.fd ∨ pfd.fd = -ch.fd - 1)
        let fd := if ch.isNoneEvent then -ch.fd - 1 else ch.fd
        return { s with pollfds := s.pollfds.set idx.toNat (slotOf ch fd) }

/-- The end of `removeChannel`, when the slot is not the last one: the last
slot takes its place, and its channel is told. -/
def moveLast (idx : Int) (s : PollPoller) : Except Fault PollPoller := do
  match s.slot? idx, s.pollfds.getLast? with
  | some pfd, some back =>
      let channelAtEnd := if back.fd < 0 then -back.fd - 1 else back.fd
      -- `iter_swap`, and then `pop_back`.
      let swapped := (s.pollfds.set idx.toNat back).set (s.pollfds.length - 1) pfd
      match s.channels[channelAtEnd]? with
      | none => throw .nullPointer
      | some c => return { s with
          pollfds := swapped.dropLast
          heap := s.heap.set_index c idx }
  | _, _ => throw .outOfBounds

def removeChannel (debug : Bool) (c : ChannelId) (s : PollPoller) : Except Fault PollPoller := do
  let ch := s.heap c
  assertIn debug (s.channels[ch.fd]? ≠ none)
  assertIn debug (s.channels[ch.fd]? = some c)
  assertIn debug (ch.isNoneEvent = true)
  let idx := ch.index
  assertIn debug (0 ≤ idx ∧ idx < s.pollfds.length)
  match s.slot? idx with
  | none => throw .outOfBounds
  | some pfd =>
      assertIn debug (pfd.fd = -ch.fd - 1 ∧ pfd.eventsInt = ch.events)
      let n := if s.channels.contains ch.fd then 1 else 0
      let s := { s with channels := s.channels.erase ch.fd }
      assertIn debug (n = 1)
      if idx = (s.pollfds.length : Int) - 1 then
        return { s with pollfds := s.pollfds.dropLast }
      else s.moveLast idx

/-- The loop of `fillActiveChannels`, from some slot on. -/
def fillActiveLoop (debug : Bool) (s : PollPoller) : List PollFd → Int → List ChannelId →
    Except Fault (List ChannelId × PollPoller)
  | [], _, activeChannels => .ok (activeChannels, s)
  | pfd :: pollfds, numEvents, activeChannels =>
      if 0 < numEvents then
        if 0 < pfd.revents.toInt then do
          let ch := s.channels[pfd.fd]?
          assertIn debug (ch ≠ none)
          match ch with
          | none => throw .outOfBounds
          | some channel =>
              assertIn debug ((s.heap channel).fd = pfd.fd)
              let s := { s with heap := s.heap.set_revents channel (pfd.revents.signExtend 32) }
              fillActiveLoop debug s pollfds (numEvents - 1) (activeChannels ++ [channel])
        else fillActiveLoop debug s pollfds numEvents activeChannels
      else .ok (activeChannels, s)

def fillActiveChannels (debug : Bool) (numEvents : Int) (activeChannels : List ChannelId)
    (s : PollPoller) : Except Fault (List ChannelId × PollPoller) :=
  fillActiveLoop debug s s.pollfds numEvents activeChannels

/-- What `::poll` writes to the array. -/
def setRevents (revents : List (BitVec 16)) (s : PollPoller) : PollPoller :=
  { s with pollfds := List.zipWith (fun pfd r => { pfd with revents := r }) s.pollfds revents }

/-- `poll`, when `::poll` gave this reply, or none when it returned an
error. -/
def poll (debug : Bool) (reply : Option PollReply) (activeChannels : List ChannelId)
    (s : PollPoller) : Except Fault (List ChannelId × PollPoller) :=
  match reply with
  | none => .ok (activeChannels, s)
  | some reply =>
      let s := s.setRevents reply.revents
      if 0 < reply.numEvents then s.fillActiveChannels debug reply.numEvents activeChannels
      else .ok (activeChannels, s)

/-- The slots with events, each with its position. -/
def readySlots (s : PollPoller) : List (PollFd × Nat) :=
  s.pollfds.zipIdx.filter fun x => x.1.revents ≠ 0

end PollPoller

/-- What the kernel promises of its reply. A slot with a negative descriptor
is skipped, and the number returned is that of the slots with events. -/
structure PollReply.Fits (reply : PollReply) (s : PollPoller) : Prop where
  length : reply.revents.length = s.pollfds.length
  nonneg : ∀ pfd ∈ (s.setRevents reply.revents).pollfds, 0 ≤ pfd.revents.toInt
  skipped : ∀ pfd ∈ (s.setRevents reply.revents).pollfds, pfd.revents ≠ 0 → 0 ≤ pfd.fd
  count : reply.numEvents = (s.setRevents reply.revents).readySlots.length

instance (reply : PollReply) (s : PollPoller) : Decidable (reply.Fits s) :=
  decidable_of_iff (reply.revents.length = s.pollfds.length ∧
      (∀ pfd ∈ (s.setRevents reply.revents).pollfds, 0 ≤ pfd.revents.toInt) ∧
      (∀ pfd ∈ (s.setRevents reply.revents).pollfds, pfd.revents ≠ 0 → 0 ≤ pfd.fd) ∧
      reply.numEvents = (s.setRevents reply.revents).readySlots.length)
    ⟨fun ⟨h₁, h₂, h₃, h₄⟩ => ⟨h₁, h₂, h₃, h₄⟩, fun ⟨h₁, h₂, h₃, h₄⟩ => ⟨h₁, h₂, h₃, h₄⟩⟩

end Libanet.Net
