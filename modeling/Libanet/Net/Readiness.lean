import Libanet.Net.EPollPoller
import Libanet.Net.PollPoller
import Mathlib.Data.List.Perm.Subperm

/-!
# What the kernel answers a poller

`poll(2)` and `epoll(7)` look at the same conditions on the same descriptors.
Of the conditions that hold they return those the caller asked for, and
`POLLERR` and `POLLHUP` unasked. `::poll` looks at all slots but those with a
negative descriptor and counts the slots it has written something to.
`epoll_wait` goes through the registered descriptors in an order of its own
and stops when the caller's array is full.

The descriptors that are polled are open ones, so that `POLLNVAL` does not
occur.
-/

namespace Libanet.Net

/-- The conditions that hold on each descriptor. -/
abbrev Conditions := Int → EventMask

/-- What is returned of `conditions` to whoever asked for `events`. -/
def returned (conditions events : EventMask) : EventMask :=
  conditions &&& (events ||| (POLLERR ||| POLLHUP))

/-- What `::poll` writes to a slot. -/
def PollFd.reventsOf (cond : Conditions) (pfd : PollFd) : BitVec 16 :=
  if pfd.fd < 0 then 0 else (returned (cond pfd.fd) pfd.eventsInt).setWidth 16

/-- What `::poll` answers. -/
def PollPoller.answer (cond : Conditions) (s : PollPoller) : PollReply where
  numEvents := (s.pollfds.filter fun pfd => pfd.reventsOf cond ≠ 0).length
  revents := s.pollfds.map (PollFd.reventsOf cond)

/-- The registered descriptors that are ready, each with what is returned of
it. -/
def EpollKernel.ready (k : EpollKernel) (cond : Conditions) : List (Int × EventMask) :=
  (k.toList.map fun x => (x.1, returned (cond x.1) x.2.1)).filter fun x => x.2 ≠ 0

/-- `epoll_wait` with room for `maxevents` may answer this. -/
def EpollKernel.Offers (k : EpollKernel) (cond : Conditions) (maxevents : Nat)
    (answer : List (Int × EventMask)) : Prop :=
  answer.Subperm (k.ready cond) ∧ answer.length = min (k.ready cond).length maxevents

instance (k : EpollKernel) (cond : Conditions) (maxevents : Nat)
    (answer : List (Int × EventMask)) : Decidable (k.Offers cond maxevents answer) :=
  inferInstanceAs (Decidable (_ ∧ _))

end Libanet.Net
