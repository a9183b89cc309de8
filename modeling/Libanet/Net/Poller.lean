import Libanet.Net.Channel
import Mathlib.Data.List.Basic

/-!
# `net/Poller.h`

What the two pollers have in common: the map from descriptors to channels,
and the channels themselves. A poller holds `Channel *`; here a pointer is a
name and the channels lie in a heap under their names, so that a poller can
write the index it keeps in a channel, and two channels can have the same
descriptor, one after the other.

Every function of a poller asserts that it runs in the loop thread. The
models have no other thread, and the assert is left out.
-/

namespace Libanet.Net

/-- A `Channel *`. -/
abbrev ChannelId := Nat

/-- A channel with the fields its poller uses. -/
structure PolledChannel extends Channel where
  fd : Int
  revents : EventMask
  index : Int
  deriving DecidableEq

/-- `Channel(loop, fd)`. -/
def PolledChannel.new (fd : Int) : PolledChannel := ⟨Channel.new, fd, 0#32, -1⟩

/-- The channels, by name. -/
abbrev ChannelHeap := ChannelId → PolledChannel

namespace ChannelHeap

def new (fd : ChannelId → Int) : ChannelHeap := fun c => PolledChannel.new (fd c)

def modify (h : ChannelHeap) (c : ChannelId) (f : PolledChannel → PolledChannel) :
    ChannelHeap := fun c' => if c' = c then f (h c') else h c'

/-- `channel->set_index(idx)`. -/
def set_index (h : ChannelHeap) (c : ChannelId) (idx : Int) : ChannelHeap :=
  h.modify c fun ch => { ch with index := idx }

/-- `channel->set_revents(revt)`. -/
def set_revents (h : ChannelHeap) (c : ChannelId) (revt : EventMask) : ChannelHeap :=
  h.modify c fun ch => { ch with revents := revt }

/-- A channel's interest, as its owner last changed it. -/
def set_events (h : ChannelHeap) (c : ChannelId) (events : EventMask) : ChannelHeap :=
  h.modify c fun ch => { ch with events := events }

@[simp] theorem fd_set_index (h : ChannelHeap) (c c' : ChannelId) (idx : Int) :
    (h.set_index c idx c').fd = (h c').fd := by
  unfold set_index modify
  split <;> rfl

@[simp] theorem events_set_index (h : ChannelHeap) (c c' : ChannelId) (idx : Int) :
    (h.set_index c idx c').events = (h c').events := by
  unfold set_index modify
  split <;> rfl

@[simp] theorem fd_set_events (h : ChannelHeap) (c c' : ChannelId) (events : EventMask) :
    (h.set_events c events c').fd = (h c').fd := by
  unfold set_events modify
  split <;> rfl

@[simp] theorem index_set_events (h : ChannelHeap) (c c' : ChannelId) (events : EventMask) :
    (h.set_events c events c').index = (h c').index := by
  unfold set_events modify
  split <;> rfl

@[simp] theorem fd_set_revents (h : ChannelHeap) (c c' : ChannelId) (revt : EventMask) :
    (h.set_revents c revt c').fd = (h c').fd := by
  unfold set_revents modify
  split <;> rfl

@[simp] theorem events_set_revents (h : ChannelHeap) (c c' : ChannelId) (revt : EventMask) :
    (h.set_revents c revt c').events = (h c').events := by
  unfold set_revents modify
  split <;> rfl

@[simp] theorem index_set_revents (h : ChannelHeap) (c c' : ChannelId) (revt : EventMask) :
    (h.set_revents c revt c').index = (h c').index := by
  unfold set_revents modify
  split <;> rfl

theorem set_revents_same (h : ChannelHeap) (c : ChannelId) (revt : EventMask) :
    h.set_revents c revt c = { h c with revents := revt } := if_pos rfl

theorem set_revents_other (h : ChannelHeap) {c c' : ChannelId} (revt : EventMask)
    (hne : c' ≠ c) : h.set_revents c revt c' = h c' := if_neg hne

/-- The events told last are the ones a channel has. -/
theorem set_revents_again (h : ChannelHeap) (c c' : ChannelId) (revt revt' : EventMask) :
    { h.set_revents c revt c' with revents := revt' } = { h c' with revents := revt' } := by
  unfold set_revents modify
  split <;> rfl

theorem index_set_index (h : ChannelHeap) (c c' : ChannelId) (idx : Int) :
    (h.set_index c idx c').index = if c' = c then idx else (h c').index := by
  unfold set_index modify
  split <;> rfl

theorem set_index_self {h : ChannelHeap} {c : ChannelId} {idx : Int} (hidx : (h c).index = idx) :
    h.set_index c idx = h := by
  funext c'
  unfold set_index modify
  split
  · next hc => rw [hc, ← hidx]
  · rfl

theorem set_events_self (h : ChannelHeap) (c : ChannelId) :
    h.set_events c (h c).events = h := by
  funext c'
  unfold set_events modify
  split
  · next hc => rw [hc]
  · rfl

theorem events_set_events (h : ChannelHeap) (c c' : ChannelId) (events : EventMask) :
    (h.set_events c events c').events = if c' = c then events else (h c').events := by
  unfold set_events modify
  split <;> rfl

end ChannelHeap

/-- The operations of a channel that change its interest and tell the
poller. -/
inductive ChannelOp where
  | enableReading
  | disableReading
  | enableWriting
  | disableWriting
  | disableAll
  deriving DecidableEq, Repr

namespace ChannelOp

def apply : ChannelOp → Channel → Channel
  | enableReading, c => c.enableReading
  | disableReading, c => c.disableReading
  | enableWriting, c => c.enableWriting
  | disableWriting, c => c.disableWriting
  | disableAll, c => c.disableAll

/-- The interest the operation leaves on a channel of the heap. -/
def eventsOf (op : ChannelOp) (h : ChannelHeap) (c : ChannelId) : EventMask :=
  (op.apply (h c).toChannel).events

/-- The operation reads nothing but the interest. -/
theorem eventsOf_congr (op : ChannelOp) {h h' : ChannelHeap} {c : ChannelId}
    (hev : (h c).events = (h' c).events) : op.eventsOf h c = op.eventsOf h' c := by
  cases op with
  | enableReading => exact congrArg (· ||| Channel.kReadEvent) hev
  | disableReading => exact congrArg (· &&& ~~~Channel.kReadEvent) hev
  | enableWriting => exact congrArg (· ||| Channel.kWriteEvent) hev
  | disableWriting => exact congrArg (· &&& ~~~Channel.kWriteEvent) hev
  | disableAll => rfl

end ChannelOp

/-! ## Maps with `int` keys -/

theorem getElem?_insert_int {β : Type} (t : Std.TreeMap Int β) (k a : Int) (v : β) :
    (t.insert k v)[a]? = if a = k then some v else t[a]? := by
  simp [Std.TreeMap.getElem?_insert, eq_comm (a := k)]

theorem getElem?_erase_int {β : Type} (t : Std.TreeMap Int β) (k a : Int) :
    (t.erase k)[a]? = if a = k then none else t[a]? := by
  simp [Std.TreeMap.getElem?_erase, eq_comm (a := k)]

theorem getElem?_of_found {β : Type} {t : Std.TreeMap Int β} {k : Int} {v : β}
    (hfound : t[k]? = some v) (a : Int) : t[a]? = if a = k then some v else t[a]? := by
  by_cases hak : a = k
  · rw [if_pos hak, hak, hfound]
  · rw [if_neg hak]

/-- `std::map<int, Channel *>`. -/
abbrev ChannelMap := Std.TreeMap Int ChannelId

end Libanet.Net
