import Libanet.Base.Assert
import Libanet.Base.Timestamp

/-!
# `net/Channel.h` and `net/Channel.cc`

A channel holds the events its owner is interested in and dispatches the
events the poller reports. Interest and report are the same bit masks as
`poll(2)` uses. Dispatch is generic in what the callbacks act on: a channel
calls back into its owner, and the model passes the owner's state through.

What `update` and `remove` do to the poller is the pollers' matter; a
channel keeps a record of what it told its poller, in order, which can be
replayed to either of them.
-/

namespace Libanet.Net

/-- The `int` event masks of `poll(2)`. -/
abbrev EventMask := BitVec 32

def POLLIN : EventMask := 0x001#32
def POLLPRI : EventMask := 0x002#32
def POLLOUT : EventMask := 0x004#32
def POLLERR : EventMask := 0x008#32
def POLLHUP : EventMask := 0x010#32
def POLLNVAL : EventMask := 0x020#32
def POLLRDHUP : EventMask := 0x2000#32

/-- The `si_code` the source writes in `kReadEvent`; it has the value of
`POLLIN`. -/
def POLL_IN : EventMask := 0x001#32

/-- C's truth value of `m & bits`. -/
def EventMask.has (m bits : EventMask) : Bool := (m &&& bits) != 0#32

/-- What `loop_` passes on to its poller. -/
inductive PollerCall where
  | updateChannel (events : EventMask)
  | removeChannel
  deriving DecidableEq, Repr

structure Channel where
  events : EventMask
  tied : Bool
  addedToLoop : Bool
  told : List PollerCall
  deriving DecidableEq

namespace Channel

def kNoneEvent : EventMask := 0#32
def kReadEvent : EventMask := POLL_IN ||| POLLPRI
def kWriteEvent : EventMask := POLLOUT

def new : Channel := ⟨0#32, false, false, []⟩

def isNoneEvent (c : Channel) : Bool := c.events == kNoneEvent

def isWriting (c : Channel) : Bool := c.events.has kWriteEvent

def isReading (c : Channel) : Bool := c.events.has kReadEvent

def tie (c : Channel) : Channel := { c with tied := true }

def update (c : Channel) : Channel :=
  { c with addedToLoop := true, told := c.told ++ [.updateChannel c.events] }

def enableReading (c : Channel) : Channel :=
  { c with events := c.events ||| kReadEvent }.update

def disableReading (c : Channel) : Channel :=
  { c with events := c.events &&& ~~~kReadEvent }.update

def enableWriting (c : Channel) : Channel :=
  { c with events := c.events ||| kWriteEvent }.update

def disableWriting (c : Channel) : Channel :=
  { c with events := c.events &&& ~~~kWriteEvent }.update

def disableAll (c : Channel) : Channel :=
  { c with events := kNoneEvent }.update

def remove (c : Channel) : Except Fault Channel := do
  assertThat (c.isNoneEvent = true)
  return { c with addedToLoop := false, told := c.told ++ [.removeChannel] }

/-- The four callbacks of a channel, as they act on the state `σ` of its
owner. An unset `std::function` is `none`. -/
structure Callbacks (σ : Type) where
  readCallback : Option (Timestamp → σ → Except Fault σ)
  writeCallback : Option (σ → Except Fault σ)
  closeCallback : Option (σ → Except Fault σ)
  errorCallback : Option (σ → Except Fault σ)

/-- `if (revents_ & …) { if (callback_) callback_(); }`. -/
def fire {σ : Type} (cond : Bool) (callback : Option (σ → Except Fault σ))
    (s : σ) : Except Fault σ :=
  if cond then
    match callback with
    | some f => f s
    | none => .ok s
  else .ok s

def handleEventWithGuard {σ : Type} (cb : Callbacks σ) (revents : EventMask)
    (receiveTime : Timestamp) (s : σ) : Except Fault σ := do
  let s ← fire (revents.has POLLHUP && !revents.has POLLIN) cb.closeCallback s
  let s ← fire (revents.has (POLLERR ||| POLLNVAL)) cb.errorCallback s
  let s ← fire (revents.has (POLLIN ||| POLLPRI ||| POLLRDHUP))
    (cb.readCallback.map (· receiveTime)) s
  fire (revents.has POLLOUT) cb.writeCallback s

/-- `handleEvent`. `locked` says whether `tie_.lock()` still finds the
owner; a tied channel whose owner is gone drops the event. -/
def handleEvent {σ : Type} (tied locked : Bool) (cb : Callbacks σ)
    (revents : EventMask) (receiveTime : Timestamp) (s : σ) :
    Except Fault σ :=
  if tied then
    if locked then handleEventWithGuard cb revents receiveTime s else .ok s
  else handleEventWithGuard cb revents receiveTime s

end Channel

end Libanet.Net
