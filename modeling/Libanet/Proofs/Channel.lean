import Libanet.Net.Channel

/-!
# The interest bits

Reading and writing interest are disjoint bits of one mask, so each
operation sets or clears its own and leaves the other as it was. These are
the only facts about the masks that the rest of the development uses.
-/

namespace Libanet.Net

namespace EventMask

theorem has_iff {m bits : EventMask} : m.has bits = true ↔ m &&& bits ≠ 0#32 := by
  unfold has
  exact bne_iff_ne

theorem has_or {m a bits : EventMask} :
    has (m ||| a) bits = (has m bits || has a bits) := by
  rw [Bool.eq_iff_iff, Bool.or_eq_true, has_iff, has_iff, has_iff,
    BitVec.and_or_distrib_right, ne_eq, BitVec.or_eq_zero_iff]
  exact Classical.not_and_iff_not_or_not

theorem has_bits_or {m a b : EventMask} :
    has m (a ||| b) = (has m a || has m b) := by
  have hswap : ∀ x y : EventMask, has x y = has y x := by
    intro x y
    rw [has, BitVec.and_comm, has]
  rw [hswap, has_or, hswap a, hswap b]

/-- Clearing bits that are not asked about changes no answer. -/
theorem has_clear_of_disjoint {m a bits : EventMask}
    (h : ~~~a &&& bits = bits) : has (m &&& ~~~a) bits = has m bits := by
  unfold has
  rw [BitVec.and_assoc, h]

/-- Clearing the bits that are asked about answers no. -/
theorem has_clear_self {m a : EventMask} : has (m &&& ~~~a) a = false := by
  have h : m &&& ~~~a &&& a = 0#32 := by
    rw [BitVec.and_assoc, BitVec.and_comm (~~~a) a, BitVec.and_not_self]
    exact BitVec.and_zero
  unfold has
  rw [h]
  rfl

end EventMask

namespace Channel

@[simp] theorem isWriting_tie (c : Channel) : c.tie.isWriting = c.isWriting := rfl

@[simp] theorem isWriting_enableReading (c : Channel) :
    c.enableReading.isWriting = c.isWriting := by
  show EventMask.has (c.events ||| kReadEvent) kWriteEvent = _
  rw [EventMask.has_or, show EventMask.has kReadEvent kWriteEvent = false by decide,
    Bool.or_false]
  rfl

@[simp] theorem isWriting_disableReading (c : Channel) :
    c.disableReading.isWriting = c.isWriting :=
  EventMask.has_clear_of_disjoint (by decide)

@[simp] theorem isWriting_enableWriting (c : Channel) :
    c.enableWriting.isWriting = true := by
  show EventMask.has (c.events ||| kWriteEvent) kWriteEvent = true
  rw [EventMask.has_or, show EventMask.has kWriteEvent kWriteEvent = true by decide,
    Bool.or_true]

@[simp] theorem isWriting_disableWriting (c : Channel) :
    c.disableWriting.isWriting = false :=
  EventMask.has_clear_self

theorem isReading_enableReading (c : Channel) : c.enableReading.isReading = true := by
  show EventMask.has (c.events ||| kReadEvent) kReadEvent = true
  rw [EventMask.has_or, show EventMask.has kReadEvent kReadEvent = true by decide,
    Bool.or_true]

theorem isReading_disableReading (c : Channel) : c.disableReading.isReading = false :=
  EventMask.has_clear_self

theorem isReading_enableWriting (c : Channel) :
    c.enableWriting.isReading = c.isReading := by
  show EventMask.has (c.events ||| kWriteEvent) kReadEvent = _
  rw [EventMask.has_or, show EventMask.has kWriteEvent kReadEvent = false by decide,
    Bool.or_false]
  rfl

theorem isReading_disableWriting (c : Channel) :
    c.disableWriting.isReading = c.isReading :=
  EventMask.has_clear_of_disjoint (by decide)

theorem isNoneEvent_of_isReading {c : Channel} (h : c.isReading = true) :
    c.isNoneEvent = false := by
  rw [isNoneEvent, beq_eq_false_iff_ne]
  intro hnone
  rw [isReading, hnone] at h
  exact absurd h (by decide)

theorem isNoneEvent_of_isWriting {c : Channel} (h : c.isWriting = true) :
    c.isNoneEvent = false := by
  rw [isNoneEvent, beq_eq_false_iff_ne]
  intro hnone
  rw [isWriting, hnone] at h
  exact absurd h (by decide)

@[simp] theorem isNoneEvent_disableAll (c : Channel) :
    c.disableAll.isNoneEvent = true := by
  show (kNoneEvent == kNoneEvent) = true
  decide

/-- An event is dispatched unless the channel is tied to an owner that is
gone. -/
theorem handleEvent_dispatched {σ : Type} {tied locked : Bool}
    (h : ¬ (tied = true ∧ locked = false)) (cb : Callbacks σ) (revents : EventMask)
    (receiveTime : Timestamp) (s : σ) :
    handleEvent tied locked cb revents receiveTime s =
      handleEventWithGuard cb revents receiveTime s := by
  unfold handleEvent
  cases tied with
  | false => rfl
  | true =>
      cases locked with
      | false => exact absurd ⟨rfl, rfl⟩ h
      | true => rfl

end Channel

end Libanet.Net
