import Libanet.Proofs.SpareBuffers

/-!
# What becomes of a log line

Buffers change hands five times between `append` and the file. A line goes
into one buffer whole, buffers are taken over in the order they were filled,
and a buffer that comes back to the front end has been reset, so all lines
ever appended are those of the buffers ever taken over, followed by those of
`buffers_` and of `currentBuffer_`: `groups` says which lines are in which.
The back end owes nothing of what it took over but what it drops: the output
and what is still to be written are the batches, of which those of more than
25 buffers stand for a notice and their first two.

None of that holds for `stop`. It is not the front end that hands over the
last lines, but the back end that takes them in its next turn, and after
`stop` there is no next turn. Whether it is still to make its exchange in the
present one is all that counts.
-/

namespace Libanet.AsyncLogging

/-! ## The record -/

/-- What of `buffersToWrite` is still to be written. -/
def unwritten (s : AsyncLogging) : List UInt8 :=
  (s.buffersToWrite.drop s.wrote).flatMap BufferPtr.bytes

/-- What has not been taken over yet. -/
def buffered (s : AsyncLogging) : List UInt8 :=
  s.buffers.flatMap BufferPtr.bytes ++ s.currentBuffer.bytes

/-- The buffers that have been taken over, in order. -/
def taken (s : AsyncLogging) : List (List UInt8) := s.batches.flatMap Batch.buffers

/-- All buffers that ever held lines, in order. -/
def allBuffers (s : AsyncLogging) : List (List UInt8) :=
  s.taken ++ (s.buffers.map BufferPtr.bytes ++ [s.currentBuffer.bytes])

/-- The lines are in the buffers, each in one. -/
def Grouped (lines : List (List UInt8)) (buffers : List (List UInt8)) : Prop :=
  ∃ groups : List (List (List UInt8)), lines = groups.flatten ∧ buffers = groups.map List.flatten

/-- A batch has a notice if it was too large. -/
def Checked (b : Batch) : Prop :=
  b.buffers.length ≤ 25 ∧ b.notice = none ∨
    25 < b.buffers.length ∧ ∃ time, b.notice = some (overloadNotice time b.buffers.length)

namespace Grouped

variable {lines buffers : List (List UInt8)} {buffer line : List UInt8}

/-- A line more in the last buffer. -/
theorem append_line (h : Grouped lines (buffers ++ [buffer])) (line : List UInt8) :
    Grouped (lines ++ [line]) (buffers ++ [buffer ++ line]) := by
  obtain ⟨groups, rfl, hbuffers⟩ := h
  obtain ⟨front, back, rfl, hfront, hback⟩ := List.map_eq_append_iff.mp hbuffers.symm
  obtain ⟨last, rest, rfl, hlast, hrest⟩ := List.map_eq_cons_iff.mp hback
  rw [List.map_eq_nil_iff] at hrest
  refine ⟨front ++ [last ++ [line]], ?_, ?_⟩
  · simp [hrest]
  · simp [hfront, hlast]

/-- A buffer more, with a line in it. -/
theorem append_buffer (h : Grouped lines buffers) (line : List UInt8) :
    Grouped (lines ++ [line]) (buffers ++ [line]) := by
  obtain ⟨groups, rfl, rfl⟩ := h
  exact ⟨groups ++ [[line]], by simp, by simp⟩

/-- An empty buffer more. -/
theorem append_nil (h : Grouped lines buffers) : Grouped lines (buffers ++ [[]]) := by
  obtain ⟨groups, rfl, rfl⟩ := h
  exact ⟨groups ++ [[]], by simp, by simp⟩

theorem flatten_eq (h : Grouped lines buffers) : lines.flatten = buffers.flatten := by
  obtain ⟨groups, rfl, rfl⟩ := h
  exact List.flatten_flatten

end Grouped

/-! ## The invariant -/

/-- Where the back end stands. -/
def BackEnd (s : AsyncLogging) : Prop :=
  match s.pc with
  | .whileTest | .entered | .waiting =>
      s.newBuffer1 = some .new ∧ s.newBuffer2 = some .new ∧ s.buffersToWrite = [] ∧
        ∀ b ∈ s.batches, Checked b
  | .swapped => s.Spare ∧ s.wrote = 0 ∧
      ∃ past, s.batches = past ++ [Batch.of s.buffersToWrite] ∧ ∀ b ∈ past, Checked b
  | .writing => s.Spare ∧ s.wrote ≤ s.buffersToWrite.length ∧ ∀ b ∈ s.batches, Checked b
  | .finished => s.buffersToWrite = [] ∧ ∀ b ∈ s.batches, Checked b

/-- What a step of either end can do to the lines and to where the back end
stands. -/
inductive Moves (s t : AsyncLogging) : Prop
  | frontEnd (hpc : t.pc = s.pc) (htaken : t.taken = s.taken) (hlines : s.lines <+: t.lines)
      (hrunning : t.running = true → s.running = true)
  | whileTest (hpc : s.pc = .whileTest) (hpc' : t.pc = if s.running then .entered else .finished)
      (htaken : t.taken = s.taken) (hlines : t.lines = s.lines) (hrunning : t.running = s.running)
  | wait (hpc : s.pc = .entered) (hpc' : t.pc = .waiting) (htaken : t.taken = s.taken)
      (hlines : t.lines = s.lines) (hrunning : t.running = s.running)
  | swap (hpc : s.pc = .entered ∨ s.pc = .waiting) (hpc' : t.pc = .swapped)
      (htaken : t.taken.flatten = s.lines.flatten) (hlines : t.lines = s.lines)
      (hrunning : t.running = s.running)
  | output (hpc : s.pc = .swapped ∨ s.pc = .writing) (hpc' : t.pc = .writing ∨ t.pc = .whileTest)
      (htaken : t.taken = s.taken) (hlines : t.lines = s.lines) (hrunning : t.running = s.running)

structure Inv (s : AsyncLogging) : Prop where
  current : ∃ b, s.currentBuffer = some b
  full : ∀ p ∈ s.buffers, ∃ b, p = some b
  next : s.nextBuffer = some .new ∨ s.nextBuffer = none ∧ s.buffers ≠ []
  toWrite : ∀ p ∈ s.buffersToWrite, ∃ b, p = some b
  grouped : Grouped s.lines s.allBuffers
  ledger : s.output ++ s.unwritten = s.batches.flatMap Batch.written
  backEnd : s.BackEnd

theorem inv_new : new.Inv where
  current := ⟨_, rfl⟩
  full p hp := by cases hp
  next := .inl rfl
  toWrite p hp := by cases hp
  grouped := ⟨[[]], rfl, rfl⟩
  ledger := rfl
  backEnd := ⟨rfl, rfl, rfl, fun b hb => by cases hb⟩

variable {s t : AsyncLogging}

theorem Inv.pointers (h : s.Inv) : s.Pointers where
  current := h.current
  full := h.full
  next := h.next
  toWrite := h.toWrite
  inHand := by
    have hback := h.backEnd
    cases hpc : s.pc <;> simp only [BackEnd, hpc] at hback <;> simp only [InHand, hpc]
    case whileTest | entered | waiting => exact ⟨hback.1, hback.2.1, hback.2.2.1⟩
    case swapped | writing => exact ⟨hback.1, hback.2.1⟩

/-! ## The front end -/

/-- Appending touches nothing of the back end's. -/
theorem Inv.frontEnd (h : s.Inv) {current next : BufferPtr} {buffers : List BufferPtr}
    {lines : List (List UInt8)} (hcurrent : ∃ b, current = some b)
    (hfull : ∀ p ∈ buffers, ∃ b, p = some b)
    (hnext : next = some .new ∨ next = none ∧ buffers ≠ [])
    (hgrouped : Grouped lines (s.taken ++ (buffers.map BufferPtr.bytes ++ [current.bytes]))) :
    Inv { s with
      currentBuffer := current, nextBuffer := next, buffers := buffers, lines := lines } where
  current := hcurrent
  full := hfull
  next := hnext
  toWrite := h.toWrite
  grouped := hgrouped
  ledger := h.ledger
  backEnd := h.backEnd

theorem append_inv (h : s.Inv) {logline : List UInt8} (hline : logline.length < kLargeBuffer) :
    ∃ t, s.append logline = .ok t ∧ t.Inv ∧ Moves s t := by
  obtain ⟨current, hcurrent⟩ := h.current
  have hgrouped := h.grouped
  rw [allBuffers, hcurrent, ← List.append_assoc] at hgrouped
  by_cases hfits : logline.length < current.avail
  · refine ⟨_, append_eq_of_lt hcurrent hfits, h.frontEnd ⟨_, rfl⟩ h.full h.next ?_,
      .frontEnd rfl rfl (List.prefix_append ..) id⟩
    have hbytes : BufferPtr.bytes (some (current.append logline)) =
        BufferPtr.bytes (some current) ++ logline := FixedBuffer.data_append_of_lt hfits
    rw [hbytes, ← List.append_assoc]
    exact hgrouped.append_line logline
  · have hnew : BufferPtr.bytes (some (FixedBuffer.new.append logline)) = logline :=
      FixedBuffer.data_append_of_lt hline
    refine ⟨_, h.pointers.append_eq_of_le hcurrent hfits,
      h.frontEnd ⟨_, rfl⟩ h.pointers.full_concat (.inr ⟨rfl, by simp⟩) ?_,
      .frontEnd rfl rfl (List.prefix_append ..) id⟩
    rw [hnew, List.map_append, hcurrent, ← List.append_assoc, ← List.append_assoc]
    exact hgrouped.append_buffer logline

/-! ## The back end -/

/-- What has been appended is what has been taken over and what has not. -/
theorem Inv.flatten_lines (h : s.Inv) : s.lines.flatten = s.taken.flatten ++ s.buffered := by
  rw [h.grouped.flatten_eq, allBuffers, List.flatten_append, List.flatten_append, buffered,
    List.flatMap_def, List.flatten_singleton]

/-- Before the exchange every batch has been checked. -/
theorem Inv.idle (h : s.Inv) (hpc : s.pc = .whileTest ∨ s.pc = .entered ∨ s.pc = .waiting) :
    ∀ b ∈ s.batches, Checked b := by
  have hback := h.backEnd
  rcases hpc with hpc | hpc | hpc <;> simp only [BackEnd, hpc] at hback <;> exact hback.2.2.2

theorem whileTest_inv (h : s.Inv) (hpc : s.pc = .whileTest) :
    ∃ t, s.whileTest = .ok t ∧ t.Inv ∧ Moves s t := by
  obtain ⟨hnew1, hnew2, htoWrite⟩ := h.pointers.idle (.inl hpc)
  have hchecked := h.idle (.inl hpc)
  refine ⟨_, h.pointers.whileTest_eq hpc, ?_, .whileTest hpc rfl rfl rfl rfl⟩
  by_cases hrunning : s.running = true
  · rw [if_pos hrunning]
    exact { h with backEnd := ⟨hnew1, hnew2, htoWrite, hchecked⟩ }
  · rw [if_neg hrunning]
    exact { h with backEnd := ⟨htoWrite, hchecked⟩ }

theorem taken_afterSwap (s : AsyncLogging) :
    s.afterSwap.taken = s.taken ++ (s.buffers.map BufferPtr.bytes ++ [s.currentBuffer.bytes]) := by
  simp [taken, afterSwap, Batch.of]

theorem written_of (buffersToWrite : List BufferPtr) :
    (Batch.of buffersToWrite).written = buffersToWrite.flatMap BufferPtr.bytes := by
  rw [Batch.written, Batch.of, List.flatMap_def]

theorem afterSwap_inv (h : s.Inv) (hpc : s.pc = .entered ∨ s.pc = .waiting) :
    s.afterSwap.Inv where
  current := ⟨_, rfl⟩
  full p hp := by cases hp
  next := .inl rfl
  toWrite := h.pointers.full_concat
  grouped := by
    rw [allBuffers, taken_afterSwap]
    exact h.grouped.append_nil
  ledger := by
    obtain ⟨-, -, htoWrite⟩ := h.pointers.idle (.inr hpc)
    have hledger := h.ledger
    rw [unwritten, htoWrite, List.drop_nil, List.flatMap_nil, List.append_nil] at hledger
    show s.output ++ (s.buffers ++ [s.currentBuffer]).flatMap BufferPtr.bytes =
      (s.batches ++ [Batch.of (s.buffers ++ [s.currentBuffer])]).flatMap Batch.written
    have hbatches : (s.batches ++ [Batch.of (s.buffers ++ [s.currentBuffer])]).flatMap
        Batch.written = s.batches.flatMap Batch.written ++
          (Batch.of (s.buffers ++ [s.currentBuffer])).written := by
      rw [List.flatMap_append, List.flatMap_singleton]
    rw [hbatches, ← hledger, written_of]
  backEnd := ⟨h.pointers.spare_afterSwap, rfl, s.batches, rfl, h.idle (.inr hpc)⟩

/-- What the exchange takes over is all there is. -/
theorem swap_inv (h : s.Inv) (hpc : s.pc = .entered ∨ s.pc = .waiting) :
    ∃ t, s.swap = .ok t ∧ t.Inv ∧ Moves s t := by
  refine ⟨s.afterSwap, h.pointers.swap_eq hpc, afterSwap_inv h hpc, .swap hpc rfl ?_ rfl rfl⟩
  rw [h.grouped.flatten_eq, taken_afterSwap, allBuffers]

theorem setNotice_concat (notice : List UInt8) (past : List Batch) (b : Batch) :
    setNotice notice (past ++ [b]) = past ++ [{ b with notice := some notice }] := by
  simp [setNotice]

theorem checkOverload_inv (h : s.Inv) (hpc : s.pc = .swapped) (time : List UInt8) :
    (s.checkOverload time).Inv ∧ Moves s (s.checkOverload time) := by
  have hback := h.backEnd
  simp only [BackEnd, hpc] at hback
  obtain ⟨hspare, hwrote, past, hbatches, hchecked⟩ := hback
  have hlength : (Batch.of s.buffersToWrite).buffers.length = s.buffersToWrite.length :=
    List.length_map ..
  have hledger := h.ledger
  rw [unwritten, hwrote, List.drop_zero, hbatches, List.flatMap_append, List.flatMap_singleton,
    written_of, List.append_cancel_right_eq] at hledger
  rw [checkOverload]
  by_cases hmany : 25 < s.buffersToWrite.length
  · rw [if_pos hmany]
    generalize hbuf : overloadNotice time s.buffersToWrite.length = buf
    have htaken : (setNotice buf s.batches).flatMap Batch.buffers = s.taken := by
      rw [taken, hbatches, setNotice_concat]
      simp
    refine ⟨{ h with toWrite := ?_, grouped := ?_, ledger := ?_, backEnd := ?_ },
      .output (.inl hpc) (.inl rfl) htaken rfl rfl⟩
    · exact fun p hp => h.toWrite p (List.mem_of_mem_take hp)
    · show Grouped s.lines ((setNotice buf s.batches).flatMap Batch.buffers ++ _)
      rw [htaken]
      exact h.grouped
    · show s.output ++ buf ++ ((s.buffersToWrite.take 2).drop s.wrote).flatMap BufferPtr.bytes =
        (setNotice buf s.batches).flatMap Batch.written
      rw [hwrote, hbatches, setNotice_concat, List.flatMap_append, ← hledger]
      simp [Batch.written, Batch.of, List.flatMap_def, List.map_take]
    · refine ⟨hspare.take_two, by simp [hwrote], fun b hb => ?_⟩
      replace hb : b ∈ setNotice buf s.batches := hb
      rw [hbatches, setNotice_concat] at hb
      rcases List.mem_append.mp hb with hb | hb
      · exact hchecked b hb
      · rw [List.mem_singleton.mp hb]
        refine .inr ⟨hlength ▸ hmany, time, ?_⟩
        rw [hlength, hbuf]
  · rw [if_neg hmany]
    refine ⟨{ h with backEnd := ⟨hspare, by simp [hwrote], fun b hb => ?_⟩ },
      .output (.inl hpc) (.inl rfl) rfl rfl rfl⟩
    rw [hbatches] at hb
    rcases List.mem_append.mp hb with hb | hb
    · exact hchecked b hb
    · rw [List.mem_singleton.mp hb]
      exact .inl ⟨hlength ▸ Nat.not_lt.mp hmany, rfl⟩

theorem write_inv (h : s.Inv) (hpc : s.pc = .writing) (hwrote : s.wrote < s.buffersToWrite.length) :
    ∃ t, s.write = .ok t ∧ t.Inv ∧ Moves s t := by
  have hback := h.backEnd
  simp only [BackEnd, hpc] at hback
  obtain ⟨hspare, -, hchecked⟩ := hback
  obtain ⟨buffer, hbuffer, hwrite⟩ := h.pointers.write_eq hwrote
  have hdrop := List.drop_eq_getElem_cons hwrote
  rw [hbuffer] at hdrop
  refine ⟨_, hwrite, ?_, .output (.inr hpc) (.inl hpc) rfl rfl rfl⟩
  have hledger := h.ledger
  rw [unwritten, hdrop, List.flatMap_cons, ← List.append_assoc] at hledger
  refine { h with ledger := hledger, backEnd := ?_ }
  simp only [BackEnd, hpc]
  exact ⟨hspare, hwrote, hchecked⟩

theorem recycle_inv (h : s.Inv) (hpc : s.pc = .writing)
    (hwrote : s.wrote = s.buffersToWrite.length) : ∃ t, s.recycle = .ok t ∧ t.Inv ∧ Moves s t := by
  have hback := h.backEnd
  simp only [BackEnd, hpc] at hback
  obtain ⟨-, -, hchecked⟩ := hback
  refine ⟨_, h.pointers.recycle_eq hpc, ?_, .output (.inr hpc) (.inr rfl) rfl rfl rfl⟩
  have hledger := h.ledger
  rw [unwritten, hwrote, List.drop_length] at hledger
  refine { h with toWrite := (fun p hp => nomatch hp), ledger := ?_, backEnd := ?_ }
  · show s.output ++ (([] : List BufferPtr).drop s.wrote).flatMap BufferPtr.bytes = _
    rw [List.drop_nil]
    exact hledger
  · exact ⟨rfl, rfl, rfl, hchecked⟩

/-! ## Whole runs -/

/-- Every step goes through and keeps the invariant. -/
theorem step_inv {a : LogAction} (h : s.Inv) (hg : machine.guard s a = true) :
    ∃ t, machine.exec a s = .ok t ∧ t.Inv ∧ Moves s t := by
  cases a with
  | append logline => exact append_inv h (of_decide_eq_true hg)
  | whileTest => exact whileTest_inv h (of_decide_eq_true hg)
  | lock =>
      have hpc : s.pc = .entered := of_decide_eq_true hg
      obtain ⟨hnew1, hnew2, htoWrite⟩ := h.pointers.idle (.inr (.inl hpc))
      by_cases hempty : s.buffers.isEmpty = true
      · refine ⟨{ s with pc := .waiting }, if_pos hempty, ?_, .wait hpc rfl rfl rfl rfl⟩
        exact { h with backEnd := ⟨hnew1, hnew2, htoWrite, h.idle (.inr (.inl hpc))⟩ }
      · obtain ⟨t, hswap, ht⟩ := swap_inv h (.inl hpc)
        exact ⟨t, (if_neg hempty).trans hswap, ht⟩
  | wakeup => exact swap_inv h (.inr (of_decide_eq_true hg))
  | checkOverload time => exact ⟨_, rfl, checkOverload_inv h (of_decide_eq_true hg) time⟩
  | write =>
      obtain ⟨hpc, hwrote⟩ := of_decide_eq_true hg
      exact write_inv h hpc hwrote
  | recycle =>
      obtain ⟨hpc, hwrote⟩ := of_decide_eq_true hg
      exact recycle_inv h hpc hwrote
  | stop =>
      refine ⟨{ s with running := false }, rfl, { h with }, ?_⟩
      exact .frontEnd rfl rfl (List.prefix_refl _) fun hrunning => nomatch hrunning

theorem inv_of_step {a : LogAction} (h : s.Inv) (hg : machine.guard s a = true)
    (he : machine.exec a s = .ok t) : t.Inv ∧ Moves s t := by
  obtain ⟨t', he', ht'⟩ := step_inv h hg
  rw [he'] at he
  cases he
  exact ht'

theorem inv_of_reaches (h : machine.Reaches new s) : s.Inv :=
  h.invariant inv_new fun h hg he => (inv_of_step h hg he).1

theorem Inv.all_checked (h : s.Inv) (hpc : s.pc ≠ .swapped) : ∀ b ∈ s.batches, Checked b := by
  have hback := h.backEnd
  cases hs : s.pc with
  | swapped => exact absurd hs hpc
  | whileTest => exact h.idle (.inl hs)
  | entered => exact h.idle (.inr (.inl hs))
  | waiting => exact h.idle (.inr (.inr hs))
  | writing =>
      simp only [BackEnd, hs] at hback
      exact hback.2.2
  | finished =>
      simp only [BackEnd, hs] at hback
      exact hback.2

/-- The batch that has just been taken over is the only one not yet checked. -/
theorem Inv.checked (h : s.Inv) :
    ∃ past now, s.batches = past ++ now ∧ (∀ b ∈ past, Checked b) ∧
      (now = [] ∨ s.pc = .swapped ∧ now = [Batch.of s.buffersToWrite]) := by
  by_cases hpc : s.pc = .swapped
  · have hback := h.backEnd
    simp only [BackEnd, hpc] at hback
    obtain ⟨-, -, past, hbatches, hchecked⟩ := hback
    exact ⟨past, _, hbatches, hchecked, .inr ⟨hpc, rfl⟩⟩
  · exact ⟨s.batches, [], (List.append_nil _).symm, h.all_checked hpc, .inl rfl⟩

/-- Nothing of a batch without a notice is dropped. -/
theorem written_of_notice_eq_none {b : Batch} (h : b.notice = none) :
    b.written = b.buffers.flatten := by
  rw [Batch.written, h]

theorem Inv.written_eq_taken (h : s.Inv) (hsmall : ∀ b ∈ s.batches, b.buffers.length ≤ 25) :
    s.batches.flatMap Batch.written = s.taken.flatten := by
  have hnotice : ∀ b ∈ s.batches, b.notice = none := by
    obtain ⟨past, now, hbatches, hchecked, hnow⟩ := h.checked
    intro b hb
    rcases List.mem_append.mp (hbatches ▸ hb) with hpast | hb'
    · rcases hchecked b hpast with ⟨-, hnone⟩ | ⟨hlarge, -⟩
      · exact hnone
      · exact absurd (hsmall b hb) (Nat.not_le.mpr hlarge)
    · rcases hnow with rfl | ⟨-, rfl⟩
      · cases hb'
      · rw [List.mem_singleton.mp hb']
        rfl
  have hmap : s.batches.map Batch.written = s.batches.map (List.flatten ∘ Batch.buffers) :=
    List.map_congr_left fun b hb => written_of_notice_eq_none (hnotice b hb)
  rw [taken, List.flatMap_def, hmap, List.flatMap_def, List.flatten_flatten, List.map_map]

/-- The lines are in the buffers, whole and in the order they were appended:
first those that have been taken over, batch by batch, then those of
`buffers_` and `currentBuffer_`. What has been written and what is still to be
written are the batches, and only a batch of more than 25 buffers does not go
into the file as it is. If there was none, nothing is missing at all. No step
of either end faults. -/
theorem output_accounts_for_lines (hr : machine.Reaches new s) :
    Grouped s.lines (s.taken ++ (s.buffers.map BufferPtr.bytes ++ [s.currentBuffer.bytes])) ∧
      s.output ++ s.unwritten = s.batches.flatMap Batch.written ∧
      (∃ past now, s.batches = past ++ now ∧ (∀ b ∈ past, Checked b) ∧
        (now = [] ∨ s.pc = .swapped ∧ now = [Batch.of s.buffersToWrite])) ∧
      ((∀ b ∈ s.batches, b.buffers.length ≤ 25) →
        s.output ++ (s.unwritten ++ (s.buffers.flatMap BufferPtr.bytes ++ s.currentBuffer.bytes)) =
          s.lines.flatten) ∧
      machine.Safe s := by
  have h := inv_of_reaches hr
  refine ⟨h.grouped, h.ledger, h.checked, fun hsmall => ?_, fun a hg => ?_⟩
  · rw [h.flatten_lines, ← List.append_assoc, h.ledger, h.written_eq_taken hsmall]
    rfl
  · obtain ⟨t, he, -⟩ := step_inv h hg
    exact ⟨t, he⟩

/-- A line comes in while the back end waits, another while it writes. -/
def twoLines : List LogAction :=
  [.whileTest, .lock, .append (ascii "one\n"), .wakeup, .checkOverload [], .append (ascii "two\n"),
    .write]

theorem output_accounts_for_lines_twoLines :
    ∃ s, machine.run twoLines new = some s ∧ s.output = ascii "one\n" ∧
      s.currentBuffer.bytes = ascii "two\n" ∧
      s.output ++ (s.unwritten ++ (s.buffers.flatMap BufferPtr.bytes ++ s.currentBuffer.bytes)) =
        ascii "one\ntwo\n" := by
  obtain ⟨s, hr, houtput, hcurrent, hlines, hbatches⟩ : ∃ s, machine.run twoLines new = some s ∧
      s.output = ascii "one\n" ∧ s.currentBuffer.bytes = ascii "two\n" ∧
      s.lines = [ascii "one\n", ascii "two\n"] ∧ s.batches = [⟨[ascii "one\n"], none⟩] :=
    ⟨_, rfl, rfl, rfl, rfl, rfl⟩
  obtain ⟨-, -, -, hwhole, -⟩ := output_accounts_for_lines ⟨twoLines, hr⟩
  refine ⟨s, hr, houtput, hcurrent, (hwhole ?_).trans (hlines ▸ rfl)⟩
  rw [hbatches]
  decide

/-! ## Stopping -/

/-- Every line of `lines` is in a buffer that has been taken over, and all of
these have been written, but for what the batches of more than 25 drop. -/
def Flushed (lines : List (List UInt8)) (t : AsyncLogging) : Prop :=
  t.output = t.batches.flatMap Batch.written ∧ lines.flatten <+: t.taken.flatten

/-- The back end is behind its last exchange. -/
def LastTurn (s : AsyncLogging) : Prop :=
  s.running = false ∧ s.pc ≠ .entered ∧ s.pc ≠ .waiting

/-- No exchange comes after the last. -/
theorem LastTurn.step (h : s.LastTurn) (hm : Moves s t) : t.LastTurn ∧ t.taken = s.taken := by
  obtain ⟨hstopped, hentered, hwaiting⟩ := h
  cases hm with
  | frontEnd hpc htaken _ hrunning =>
      rw [LastTurn, hpc]
      exact ⟨⟨Bool.eq_false_iff.mpr fun ht => Bool.eq_false_iff.mp hstopped (hrunning ht),
        hentered, hwaiting⟩, htaken⟩
  | whileTest hpc hpc' htaken _ hrunning =>
      rw [hstopped] at hpc' hrunning
      rw [LastTurn, hpc']
      exact ⟨⟨hrunning, by decide, by decide⟩, htaken⟩
  | wait hpc => exact absurd hpc hentered
  | swap hpc =>
      rcases hpc with hpc | hpc
      · exact absurd hpc hentered
      · exact absurd hpc hwaiting
  | output hpc hpc' htaken _ hrunning =>
      rw [hstopped] at hrunning
      rcases hpc' with hpc' | hpc' <;> rw [LastTurn, hpc'] <;>
        exact ⟨⟨hrunning, by decide, by decide⟩, htaken⟩

/-- The lines are in what has been taken over, or will be. -/
def Covers (lines : List (List UInt8)) (s : AsyncLogging) : Prop :=
  lines.flatten <+: s.taken.flatten ∨
    (s.pc = .entered ∨ s.pc = .waiting) ∧ lines.flatten <+: s.lines.flatten

theorem Covers.step {lines : List (List UInt8)} (h : Covers lines s) (hs : s.Inv)
    (hm : Moves s t) : Covers lines t := by
  rcases h with h | ⟨hpc, h⟩
  · left
    cases hm with
    | frontEnd _ htaken | whileTest _ _ htaken | wait _ _ htaken | output _ _ htaken =>
        rw [htaken]
        exact h
    | swap _ _ htaken =>
        rw [htaken, hs.flatten_lines]
        exact h.trans (List.prefix_append ..)
  · cases hm with
    | frontEnd hpc' _ hlines =>
        refine .inr ⟨hpc' ▸ hpc, h.trans ?_⟩
        obtain ⟨more, hmore⟩ := hlines
        rw [← hmore, List.flatten_append]
        exact List.prefix_append ..
    | whileTest hpc' => rcases hpc with hpc | hpc <;> rw [hpc'] at hpc <;> cases hpc
    | wait _ hpc' _ hlines => exact .inr ⟨.inr hpc', hlines ▸ h⟩
    | swap _ _ htaken => exact .inl (htaken ▸ h)
    | output hpc' =>
        rcases hpc with hpc | hpc <;> rw [hpc] at hpc' <;> rcases hpc' with hpc' | hpc' <;>
          cases hpc'

/-- Once `threadFunc` has returned after `stop`, it has written the lines
appended before `stop` if it was still to make its exchange then, or if there
was nothing left for another one; otherwise it never takes the rest. -/
theorem flushed_iff {s₁ : AsyncLogging} (hr : machine.Reaches new s)
    (hstop : machine.step .stop s = some s₁) (hrun : machine.Reaches s₁ t)
    (hdone : t.pc = .finished) :
    Flushed s.lines t ↔ (s.pc = .entered ∨ s.pc = .waiting) ∨ s.buffered = [] := by
  have hs := inv_of_reaches hr
  obtain ⟨-, hexec⟩ := Machine.step_eq_some.mp hstop
  cases hexec
  have hs₁ : Inv { s with running := false } := { hs with }
  have ht : t.Inv := hrun.invariant hs₁ fun h hg he => (inv_of_step h hg he).1
  have hback := ht.backEnd
  simp only [BackEnd, hdone] at hback
  have houtput : t.output = t.batches.flatMap Batch.written := by
    have hledger := ht.ledger
    rwa [unwritten, hback.1, List.drop_nil, List.flatMap_nil, List.append_nil] at hledger
  constructor
  · rintro ⟨-, hfirst⟩
    by_contra hcond
    rw [not_or, not_or] at hcond
    obtain ⟨⟨hentered, hwaiting⟩, hleft⟩ := hcond
    -- What is in the buffers now stays there.
    have hlast := hrun.invariant (I := fun u => u.Inv ∧ u.LastTurn ∧ u.taken = s.taken)
      ⟨hs₁, ⟨rfl, hentered, hwaiting⟩, rfl⟩ fun ⟨hu, hlast, htaken⟩ hg he => by
        obtain ⟨hv, hm⟩ := inv_of_step hu hg he
        obtain ⟨hlast', htaken'⟩ := hlast.step hm
        exact ⟨hv, hlast', htaken'.trans htaken⟩
    have hlength := hfirst.length_le
    rw [hlast.2.2, hs.flatten_lines, List.length_append] at hlength
    have := List.length_pos_of_ne_nil hleft
    omega
  · intro hcond
    have hcovers : Covers s.lines { s with running := false } := by
      rcases hcond with hpc | hnothing
      · exact .inr ⟨hpc, List.prefix_refl _⟩
      · rw [Covers, hs.flatten_lines, hnothing, List.append_nil]
        exact .inl (List.prefix_refl _)
    have hc := hrun.invariant (I := fun u => u.Inv ∧ Covers s.lines u) ⟨hs₁, hcovers⟩
      fun ⟨hu, hc⟩ hg he =>
        ⟨(inv_of_step hu hg he).1, hc.step hu (inv_of_step hu hg he).2⟩
    rcases hc.2 with hc | ⟨hpc, -⟩
    · exact ⟨houtput, hc⟩
    · rw [hdone] at hpc
      rcases hpc with hpc | hpc <;> cases hpc

/-- A line comes in while the back end waits, and `stop` while it still does. -/
theorem flushed_iff_waiting :
    ∃ s s₁ t, machine.run [.whileTest, .lock, .append (ascii "last\n")] new = some s ∧
      machine.step .stop s = some s₁ ∧
      machine.run [.wakeup, .checkOverload [], .write, .recycle, .whileTest] s₁ = some t ∧
      Flushed s.lines t ∧ t.output = ascii "last\n" := by
  obtain ⟨s, s₁, t, hr, hstop, hrun, hdone, hpc, houtput⟩ : ∃ s s₁ t,
      machine.run [.whileTest, .lock, .append (ascii "last\n")] new = some s ∧
      machine.step .stop s = some s₁ ∧
      machine.run [.wakeup, .checkOverload [], .write, .recycle, .whileTest] s₁ = some t ∧
      t.pc = .finished ∧ s.pc = .waiting ∧ t.output = ascii "last\n" :=
    ⟨_, _, _, rfl, rfl, rfl, rfl, rfl, rfl⟩
  have hflushed := (flushed_iff ⟨_, hr⟩ hstop ⟨_, hrun⟩ hdone).mpr (.inl (.inr hpc))
  exact ⟨s, s₁, t, hr, hstop, hrun, hflushed, houtput⟩

/-- A line comes in while the back end writes, and `stop` right after it. -/
theorem stop_loses_line :
    ∃ s s₁ t, machine.run [.whileTest, .lock, .wakeup, .checkOverload [], .write,
        .append (ascii "last\n")] new = some s ∧
      machine.step .stop s = some s₁ ∧ machine.run [.recycle, .whileTest] s₁ = some t ∧
      t.pc = .finished ∧ s.lines = [ascii "last\n"] ∧ t.output = [] ∧ ¬ Flushed s.lines t := by
  refine ⟨_, _, _, rfl, rfl, rfl, rfl, rfl, rfl, ?_⟩
  rintro ⟨-, hfirst⟩
  exact absurd hfirst (by decide)

end Libanet.AsyncLogging
