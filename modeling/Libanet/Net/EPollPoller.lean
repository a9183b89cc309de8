import Libanet.Net.Poller

/-!
# `net/EpollPoller.cc`

The poller over `epoll(7)`. The kernel's side is a map from descriptors to
the mask and the pointer they were registered with, and `epoll_ctl` is the
three operations on it with the errors the manual page gives them: adding
what is there and changing or deleting what is not. An error is fatal to
the process except for a deletion, which is only logged.

Every call of `epoll_ctl` is recorded together with whether its descriptor
was registered at that moment. The code does not read the record.
-/

namespace Libanet.Net

inductive EpollCtlOp where
  | EPOLL_CTL_ADD
  | EPOLL_CTL_DEL
  | EPOLL_CTL_MOD
  deriving DecidableEq, Repr

/-- The interest list of an `epollfd`. -/
abbrev EpollKernel := Std.TreeMap Int (EventMask × ChannelId)

/-- `epoll_ctl`, or none for a negative result. -/
def EpollKernel.epoll_ctl (k : EpollKernel) (op : EpollCtlOp) (fd : Int)
    (event : EventMask × ChannelId) : Option EpollKernel :=
  match op with
  | .EPOLL_CTL_ADD => if k.contains fd then none else some (k.insert fd event)
  | .EPOLL_CTL_DEL => if k.contains fd then some (k.erase fd) else none
  | .EPOLL_CTL_MOD => if k.contains fd then some (k.insert fd event) else none

/-- What `epoll_wait` stores for the descriptors that are ready, each given
with its returned events. -/
def EpollKernel.epoll_wait (k : EpollKernel) (ready : List (Int × EventMask)) :
    List (EventMask × ChannelId) :=
  ready.filterMap fun (fd, revents) => k[fd]?.map fun (_, ptr) => (revents, ptr)

/-- One call of `epoll_ctl`. -/
structure EpollCtl where
  op : EpollCtlOp
  fd : Int
  /-- The descriptor was in the interest list when the call was made. -/
  present : Bool
  deriving DecidableEq

/-- The poller, its kernel object and the channels. -/
structure EPollPoller where
  channels : ChannelMap
  /-- `events_.size()`. -/
  eventsSize : Nat
  kernel : EpollKernel
  heap : ChannelHeap
  ctls : List EpollCtl

namespace EPollPoller

def kNew : Int := -1
def kAdded : Int := 1
def kDeleted : Int := 2

def kInitEventListSize : Nat := 16

/-- A poller over channels with the given descriptors, none of them
registered. -/
def new (fd : ChannelId → Int) : EPollPoller :=
  ⟨∅, kInitEventListSize, ∅, ChannelHeap.new fd, []⟩

def set_index (s : EPollPoller) (c : ChannelId) (idx : Int) : EPollPoller :=
  { s with heap := s.heap.set_index c idx }

def set_events (s : EPollPoller) (c : ChannelId) (events : EventMask) : EPollPoller :=
  { s with heap := s.heap.set_events c events }

def update (operation : EpollCtlOp) (c : ChannelId) (s : EPollPoller) :
    Except Fault EPollPoller :=
  let event := ((s.heap c).events, c)
  let fd := (s.heap c).fd
  let s' := { s with ctls := s.ctls ++ [⟨operation, fd, s.kernel.contains fd⟩] }
  match s.kernel.epoll_ctl operation fd event with
  | some kernel => .ok { s' with kernel := kernel }
  | none => if operation = .EPOLL_CTL_DEL then .ok s' else .error .fatal

def updateChannel (c : ChannelId) (s : EPollPoller) : Except Fault EPollPoller := do
  let index := (s.heap c).index
  let fd := (s.heap c).fd
  if index = kNew ∨ index = kDeleted then
    let s ← if index = kNew then do
        assertThat (s.channels[fd]? = none)
        pure { s with channels := s.channels.insert fd c }
      else do
        assertThat (s.channels[fd]? ≠ none)
        assertThat (s.channels[fd]? = some c)
        pure s
    update .EPOLL_CTL_ADD c (s.set_index c kAdded)
  else
    assertThat (s.channels[fd]? ≠ none)
    assertThat (s.channels[fd]? = some c)
    assertThat (index = kAdded)
    if (s.heap c).isNoneEvent then
      let s ← update .EPOLL_CTL_DEL c s
      return s.set_index c kDeleted
    else update .EPOLL_CTL_MOD c s

def removeChannel (c : ChannelId) (s : EPollPoller) : Except Fault EPollPoller := do
  let fd := (s.heap c).fd
  assertThat (s.channels[fd]? ≠ none)
  assertThat (s.channels[fd]? = some c)
  assertThat ((s.heap c).isNoneEvent = true)
  let index := (s.heap c).index
  assertThat (index = kAdded ∨ index = kDeleted)
  -- `erase` returns how many entries it erased.
  let n := if s.channels.contains fd then 1 else 0
  let s := { s with channels := s.channels.erase fd }
  assertThat (n = 1)
  let s ← if index = kAdded then update .EPOLL_CTL_DEL c s else pure s
  return s.set_index c kNew

/-- The loop of `fillActiveChannels`, which appends to `activeChannels`. -/
def fillActiveChannels (s : EPollPoller) : List (EventMask × ChannelId) →
    List ChannelId → Except Fault (List ChannelId × EPollPoller)
  | [], activeChannels => .ok (activeChannels, s)
  | (revents, channel) :: events, activeChannels => do
      let fd := (s.heap channel).fd
      assertThat (s.channels[fd]? ≠ none)
      assertThat (s.channels[fd]? = some channel)
      fillActiveChannels { s with heap := s.heap.set_revents channel revents } events
        (activeChannels ++ [channel])

/-- `poll`, when `epoll_wait` returned with these descriptors ready, or
none when it returned an error. -/
def poll (ready : Option (List (Int × EventMask))) (s : EPollPoller) :
    Except Fault (List ChannelId × EPollPoller) :=
  match ready with
  | none => .ok ([], s)
  | some ready => do
      let events := s.kernel.epoll_wait ready
      let numEvents := events.length
      if 0 < numEvents then
        assertThat (numEvents ≤ s.eventsSize)
        let (activeChannels, s) ← s.fillActiveChannels events []
        if numEvents = s.eventsSize then
          return (activeChannels, { s with eventsSize := s.eventsSize * 2 })
        else return (activeChannels, s)
      else return ([], s)

end EPollPoller

end Libanet.Net
