import Mathlib.Data.List.Basic
import Libanet.Base.AsyncLogging

/-!
# The back end never runs out of buffers

Buffers only change hands, so what has to be kept is where they are. The back
end gives its two spare buffers away in an exchange and makes new ones of the
first two that it has written, and there are two of these when it needs two:
it gives the second away only for a `nextBuffer_` that the front end has used
up, and the front end uses it up only when it puts a full buffer into
`buffers_`, which the exchange takes over together with the current one.
Dropping all but two of the buffers taken over leaves enough.

Nothing here depends on what is in the buffers, so a line may be of any
length. One that no buffer can hold is lost, but it costs a buffer like any
other line that does not fit.
-/

namespace Libanet.AsyncLogging

/-- Between the exchange and the recycling the first spare buffer is gone, and
the second if the front end had used its own. There are as many buffers to
make new ones of. -/
def Spare (s : AsyncLogging) : Prop :=
  s.newBuffer1 = none ∧
    (s.newBuffer2 = some .new ∧ 1 ≤ s.buffersToWrite.length ∨
      s.newBuffer2 = none ∧ 2 ≤ s.buffersToWrite.length)

/-- What the back end has in hand. -/
def InHand (s : AsyncLogging) : Prop :=
  match s.pc with
  | .whileTest | .entered | .waiting =>
      s.newBuffer1 = some .new ∧ s.newBuffer2 = some .new ∧ s.buffersToWrite = []
  | .swapped => s.Spare ∧ s.wrote = 0
  | .writing => s.Spare ∧ s.wrote ≤ s.buffersToWrite.length
  | .finished => True

/-- Where the buffers are. -/
structure Pointers (s : AsyncLogging) : Prop where
  current : ∃ b, s.currentBuffer = some b
  full : ∀ p ∈ s.buffers, ∃ b, p = some b
  next : s.nextBuffer = some .new ∨ s.nextBuffer = none ∧ s.buffers ≠ []
  toWrite : ∀ p ∈ s.buffersToWrite, ∃ b, p = some b
  inHand : s.InHand

theorem pointers_new : new.Pointers where
  current := ⟨_, rfl⟩
  full p hp := by cases hp
  next := .inl rfl
  toWrite p hp := by cases hp
  inHand := ⟨rfl, rfl, rfl⟩

variable {s : AsyncLogging} {logline : List UInt8}

/-! ## The front end -/

theorem append_eq_of_lt {current : FixedBuffer kLargeBuffer}
    (hcurrent : s.currentBuffer = some current) (hfits : logline.length < current.avail) :
    s.append logline = .ok { s with
      currentBuffer := some (current.append logline), lines := s.lines ++ [logline] } := by
  simp only [append, hcurrent, BufferPtr.deref, ok_bind, if_pos hfits]
  rfl

/-- A line that does not fit goes into the next buffer, or a new one. -/
theorem Pointers.append_eq_of_le (h : s.Pointers) {current : FixedBuffer kLargeBuffer}
    (hcurrent : s.currentBuffer = some current) (hfits : ¬ logline.length < current.avail) :
    s.append logline = .ok { s with
      buffers := s.buffers ++ [s.currentBuffer]
      nextBuffer := none
      currentBuffer := some (FixedBuffer.new.append logline)
      lines := s.lines ++ [logline] } := by
  rcases h.next with hnext | ⟨hnext, -⟩
  · simp only [append, hcurrent, BufferPtr.deref, ok_bind, if_neg hfits, hnext]
    rfl
  · simp only [append, hcurrent, BufferPtr.deref, ok_bind, if_neg hfits, hnext]
    rfl

/-- The current buffer behind the full ones. -/
theorem Pointers.full_concat (h : s.Pointers) :
    ∀ p ∈ s.buffers ++ [s.currentBuffer], ∃ b, p = some b := by
  intro p hp
  rcases List.mem_append.mp hp with hp | hp
  · exact h.full p hp
  · rw [List.mem_singleton.mp hp]
    exact h.current

theorem Pointers.append (h : s.Pointers) (logline : List UInt8) :
    ∃ t, s.append logline = .ok t ∧ t.Pointers := by
  obtain ⟨current, hcurrent⟩ := h.current
  by_cases hfits : logline.length < current.avail
  · refine ⟨_, append_eq_of_lt hcurrent hfits, ?_⟩
    exact { h with current := ⟨_, rfl⟩ }
  · refine ⟨_, h.append_eq_of_le hcurrent hfits, ?_⟩
    exact { h with
      current := ⟨_, rfl⟩
      full := h.full_concat
      next := .inr ⟨rfl, by simp⟩ }

/-! ## The back end -/

/-- Before the exchange the spare buffers are in hand and nothing else. -/
theorem Pointers.idle (h : s.Pointers)
    (hpc : s.pc = .whileTest ∨ s.pc = .entered ∨ s.pc = .waiting) :
    s.newBuffer1 = some .new ∧ s.newBuffer2 = some .new ∧ s.buffersToWrite = [] := by
  have hhand := h.inHand
  rcases hpc with hpc | hpc | hpc <;> simp only [InHand, hpc] at hhand <;> exact hhand

theorem Pointers.whileTest_eq (h : s.Pointers) (hpc : s.pc = .whileTest) :
    s.whileTest = .ok { s with pc := if s.running then .entered else .finished } := by
  obtain ⟨hnew1, hnew2, htoWrite⟩ := h.idle (.inl hpc)
  by_cases hrunning : s.running = true
  · rw [whileTest, if_pos hrunning, if_pos hrunning, hnew1, hnew2, htoWrite]
    rfl
  · rw [whileTest, if_neg hrunning, if_neg hrunning]

theorem Pointers.whileTest (h : s.Pointers) (hpc : s.pc = .whileTest) :
    Pointers { s with pc := if s.running then .entered else .finished } := by
  have hidle := h.idle (.inl hpc)
  by_cases hrunning : s.running = true
  · rw [if_pos hrunning]
    exact { h with inHand := hidle }
  · rw [if_neg hrunning]
    exact { h with inHand := trivial }

/-- The state behind the critical section. -/
def afterSwap (s : AsyncLogging) : AsyncLogging :=
  { s with
    buffers := []
    buffersToWrite := s.buffers ++ [s.currentBuffer]
    currentBuffer := some .new
    nextBuffer := some .new
    newBuffer1 := none
    newBuffer2 := if s.nextBuffer.isNone then none else some .new
    wrote := 0
    batches := s.batches ++ [Batch.of (s.buffers ++ [s.currentBuffer])]
    pc := .swapped }

/-- The exchange goes through, whether or not `nextBuffer_` is replaced. -/
theorem Pointers.swap_eq (h : s.Pointers) (hpc : s.pc = .entered ∨ s.pc = .waiting) :
    s.swap = .ok s.afterSwap := by
  obtain ⟨hnew1, hnew2, htoWrite⟩ := h.idle (.inr hpc)
  have hne : s.buffers ++ [s.currentBuffer] ≠ [] := by simp
  rcases h.next with hnext | ⟨hnext, -⟩
  · simp only [swap, afterSwap, hnext, hnew1, hnew2, htoWrite, Option.isNone_some,
      Bool.false_eq_true, if_false, assertThat_of hne, ok_bind]
    rfl
  · simp only [swap, afterSwap, hnext, hnew1, hnew2, htoWrite, Option.isNone_none,
      if_true, assertThat_of hne, ok_bind]
    rfl

theorem Pointers.spare_afterSwap (h : s.Pointers) : s.afterSwap.Spare := by
  refine ⟨rfl, ?_⟩
  -- The front end has used `nextBuffer_` only if it has filled another one.
  rcases h.next with hnext | ⟨hnext, hfull⟩
  · exact .inl ⟨by simp [afterSwap, hnext], by simp [afterSwap]⟩
  · refine .inr ⟨by simp [afterSwap, hnext], ?_⟩
    have hpos := List.length_pos_of_ne_nil hfull
    simp only [afterSwap, List.length_append, List.length_singleton]
    omega

theorem Pointers.afterSwap (h : s.Pointers) : s.afterSwap.Pointers where
  current := ⟨_, rfl⟩
  full p hp := by cases hp
  next := .inl rfl
  toWrite := h.full_concat
  inHand := ⟨h.spare_afterSwap, rfl⟩

theorem Spare.take_two (h : s.Spare) :
    s.newBuffer1 = none ∧
      (s.newBuffer2 = some .new ∧ 1 ≤ (s.buffersToWrite.take 2).length ∨
        s.newBuffer2 = none ∧ 2 ≤ (s.buffersToWrite.take 2).length) := by
  obtain ⟨hnew1, h⟩ := h
  rw [List.length_take]
  refine ⟨hnew1, h.imp (fun ⟨hnew2, hlen⟩ => ⟨hnew2, ?_⟩) fun ⟨hnew2, hlen⟩ => ⟨hnew2, ?_⟩⟩
  · omega
  · omega

theorem Pointers.checkOverload (h : s.Pointers) (hpc : s.pc = .swapped) (time : List UInt8) :
    (s.checkOverload time).Pointers := by
  have hhand := h.inHand
  simp only [InHand, hpc] at hhand
  obtain ⟨hspare, hwrote⟩ := hhand
  rw [AsyncLogging.checkOverload]
  by_cases hmany : 25 < s.buffersToWrite.length
  · rw [if_pos hmany]
    exact { h with
      toWrite := fun p hp => h.toWrite p (List.mem_of_mem_take hp)
      inHand := ⟨hspare.take_two, by simp [hwrote]⟩ }
  · rw [if_neg hmany]
    exact { h with inHand := ⟨hspare, by simp [hwrote]⟩ }

theorem Pointers.writing (h : s.Pointers) (hpc : s.pc = .writing) :
    s.Spare ∧ s.wrote ≤ s.buffersToWrite.length := by
  have hhand := h.inHand
  simp only [InHand, hpc] at hhand
  exact hhand

theorem Pointers.write_eq (h : s.Pointers) (hwrote : s.wrote < s.buffersToWrite.length) :
    ∃ buffer, s.buffersToWrite[s.wrote] = some buffer ∧
      s.write = .ok { s with output := s.output ++ buffer.data, wrote := s.wrote + 1 } := by
  obtain ⟨buffer, hbuffer⟩ := h.toWrite _ (List.getElem_mem hwrote)
  refine ⟨buffer, hbuffer, ?_⟩
  rw [AsyncLogging.write, List.getElem?_eq_getElem hwrote, hbuffer]
  rfl

theorem refill_some (b : FixedBuffer kLargeBuffer) (buffersToWrite : List BufferPtr) :
    refill (some b) buffersToWrite = .ok (some b, buffersToWrite) := rfl

theorem refill_none {buffersToWrite : List BufferPtr} (hlen : 1 ≤ buffersToWrite.length)
    (hsome : ∀ p ∈ buffersToWrite, ∃ b, p = some b) :
    refill none buffersToWrite = .ok (some .new, buffersToWrite.dropLast) := by
  have hne : buffersToWrite ≠ [] := List.ne_nil_of_length_pos hlen
  obtain ⟨b, hb⟩ := hsome _ (List.getLast_mem hne)
  have hlast : buffersToWrite.getLast? = some (some b) := by
    rw [List.getLast?_eq_some_getLast hne, hb]
  simp only [refill, Option.isNone_none, if_true, assertThat_of hne, ok_bind, hlast]
  rfl

theorem Pointers.recycle_eq (h : s.Pointers) (hpc : s.pc = .writing) :
    s.recycle = .ok { s with
      newBuffer1 := some .new, newBuffer2 := some .new, buffersToWrite := [],
      pc := .whileTest } := by
  obtain ⟨hspare, -⟩ := h.writing hpc
  obtain ⟨hnew1, hspare⟩ := hspare.take_two
  have hsome : ∀ p ∈ s.buffersToWrite.take 2, ∃ b, p = some b :=
    fun p hp => h.toWrite p (List.mem_of_mem_take hp)
  rw [recycle, hnew1]
  rcases hspare with ⟨hnew2, hlen⟩ | ⟨hnew2, hlen⟩
  · simp only [refill_none hlen hsome, ok_bind, hnew2, refill_some]
    rfl
  · have hrest : 1 ≤ (s.buffersToWrite.take 2).dropLast.length := by
      rw [List.length_dropLast]
      omega
    have hsome' := fun p hp => hsome p (List.dropLast_subset _ hp)
    simp only [refill_none (Nat.le_of_succ_le hlen) hsome, ok_bind, hnew2,
      refill_none hrest hsome']
    rfl

/-! ## Whole runs -/

/-- The lines appended are of any length. -/
def anyLineMachine : Machine AsyncLogging LogAction Fault where
  guard s
    | .append _ => true
    | a => guard s a
  exec := exec

theorem pointers_step {a : LogAction} (h : s.Pointers) (hg : anyLineMachine.guard s a = true) :
    ∃ t, anyLineMachine.exec a s = .ok t ∧ t.Pointers := by
  cases a with
  | append logline => exact h.append logline
  | whileTest =>
      have hpc : s.pc = .whileTest := of_decide_eq_true hg
      exact ⟨_, h.whileTest_eq hpc, h.whileTest hpc⟩
  | lock =>
      have hpc : s.pc = .entered := of_decide_eq_true hg
      by_cases hempty : s.buffers.isEmpty = true
      · have hidle := h.idle (.inr (.inl hpc))
        exact ⟨{ s with pc := .waiting }, if_pos hempty, { h with inHand := hidle }⟩
      · exact ⟨_, (if_neg hempty).trans (h.swap_eq (.inl hpc)), h.afterSwap⟩
  | wakeup => exact ⟨_, h.swap_eq (.inr (of_decide_eq_true hg)), h.afterSwap⟩
  | checkOverload time => exact ⟨_, rfl, h.checkOverload (of_decide_eq_true hg) time⟩
  | write =>
      obtain ⟨hpc, hwrote⟩ := of_decide_eq_true hg
      obtain ⟨hspare, -⟩ := h.writing hpc
      obtain ⟨buffer, -, hwrite⟩ := h.write_eq hwrote
      refine ⟨_, hwrite, { h with inHand := ?_ }⟩
      simp only [InHand, hpc]
      exact ⟨hspare, hwrote⟩
  | recycle =>
      obtain ⟨hpc, -⟩ := of_decide_eq_true hg
      refine ⟨_, h.recycle_eq hpc, { h with toWrite := ?_, inHand := ⟨rfl, rfl, rfl⟩ }⟩
      intro p hp
      cases hp
  | stop => exact ⟨{ s with running := false }, rfl, { h with }⟩

/-- Whatever is appended, and whenever: there is a current buffer, a
`nextBuffer_` that is gone has left a full buffer behind, and at the test of
the `while` both spare buffers are there and empty and nothing is left to
write. No assert fails, and no pointer that is followed is null. -/
theorem spare_buffers (hr : anyLineMachine.Reaches new s) :
    (∃ b, s.currentBuffer = some b) ∧ (s.nextBuffer = none → s.buffers ≠ []) ∧
      (s.pc = .whileTest →
        s.newBuffer1 = some .new ∧ s.newBuffer2 = some .new ∧ s.buffersToWrite = []) ∧
      anyLineMachine.Safe s := by
  have h : s.Pointers := by
    refine hr.invariant pointers_new ?_
    intro s t a h hg he
    obtain ⟨t', he', ht'⟩ := pointers_step h hg
    cases he'.symm.trans he
    exact ht'
  refine ⟨h.current, ?_, fun hpc => h.idle (.inl hpc), ?_⟩
  · intro hnone
    rcases h.next with hnext | ⟨-, hfull⟩
    · rw [hnext] at hnone
      cases hnone
    · exact hfull
  · intro a hg
    obtain ⟨t, he, -⟩ := pointers_step h hg
    exact ⟨t, he⟩

/-- One turn of the back end. -/
def oneTurn : List LogAction :=
  [.whileTest, .lock, .append (ascii "one\n"), .wakeup, .checkOverload [], .write, .recycle]

theorem spare_buffers_oneTurn :
    ∃ s, anyLineMachine.run oneTurn new = some s ∧ s.output = ascii "one\n" ∧
      s.newBuffer1 = some .new ∧ s.newBuffer2 = some .new ∧ s.buffersToWrite = [] := by
  obtain ⟨s, hr, houtput, hpc⟩ : ∃ s, anyLineMachine.run oneTurn new = some s ∧
      s.output = ascii "one\n" ∧ s.pc = .whileTest := ⟨_, rfl, rfl, rfl⟩
  obtain ⟨-, -, hidle, -⟩ := spare_buffers ⟨oneTurn, hr⟩
  exact ⟨s, hr, houtput, hidle hpc⟩

end Libanet.AsyncLogging
