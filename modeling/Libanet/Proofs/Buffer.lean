import Libanet.Net.Buffer

/-!
# What the buffer's operations do to its content

The two indices and the vector behind them never matter to a caller: each
operation is described here by what it does to `readable`, and by the fact
that it gets past its asserts. Callers cite these and never unfold a
buffer.
-/

namespace Libanet.Net.Buffer

theorem readable_eq_nil {b : Buffer} : b.readable = [] ↔ b.readableBytes = 0 := by
  rw [← b.length_readable, List.length_eq_zero_iff]

@[simp] theorem readable_retrieveAll (b : Buffer) : b.retrieveAll.readable = [] := by
  rw [readable_eq_nil]
  exact Nat.sub_self _

/-- A request within the content is served, and takes its front away. -/
theorem retrieve_spec {b : Buffer} {len : Nat} (h : len ≤ b.readableBytes) :
    ∃ b', b.retrieve len = .ok b' ∧ b'.readable = b.readable.drop len := by
  unfold retrieve
  rw [assertThat_of h]
  by_cases hlt : len < b.readableBytes
  · refine ⟨_, dif_pos hlt, ?_⟩
    simp only [readable, readableBytes, List.drop_take, List.drop_drop]
    congr 1
    omega
  · refine ⟨_, dif_neg hlt, ?_⟩
    rw [readable_retrieveAll, List.drop_eq_nil_of_le]
    rw [length_readable]
    omega

theorem readable_compact {b : Buffer} (h : kCheapPrepend ≤ b.readerIndex) :
    (b.compact h).readable = b.readable := by
  have hr := b.reader_le_writer
  have hw := b.writer_le_size
  have hlen := b.length_readable
  simp only [readableBytes] at hlen
  have htake : (b.buffer.take kCheapPrepend).length = kCheapPrepend := by
    rw [List.length_take]
    omega
  have hdrop : (overwrite b.buffer kCheapPrepend b.readable).drop kCheapPrepend =
      b.readable ++ b.buffer.drop (kCheapPrepend + b.readable.length) := by
    rw [overwrite, List.append_assoc, List.drop_left' htake]
  show ((overwrite b.buffer kCheapPrepend b.readable).drop kCheapPrepend).take
    (kCheapPrepend + b.readableBytes - kCheapPrepend) = b.readable
  rw [hdrop, Nat.add_sub_cancel_left, ← b.length_readable, List.take_left]

theorem writableBytes_compact {b : Buffer} (h : kCheapPrepend ≤ b.readerIndex) :
    (b.compact h).writableBytes + kCheapPrepend =
      b.writableBytes + b.readerIndex := by
  have hr := b.reader_le_writer
  have hw := b.writer_le_size
  have hlen := b.length_readable
  show (overwrite b.buffer kCheapPrepend b.readable).length -
    (kCheapPrepend + b.readableBytes) + kCheapPrepend = _
  unfold writableBytes
  unfold readableBytes at *
  rw [length_overwrite (by omega)]
  omega

/-- Growing the vector behind the content leaves the content alone. -/
theorem readable_resize (b : Buffer) {n : Nat} (h : b.writerIndex ≤ n) :
    ((resize b.buffer n).drop b.readerIndex).take b.readableBytes = b.readable := by
  have hr := b.reader_le_writer
  have hw := b.writer_le_size
  have hlen : b.readableBytes ≤ ((b.buffer.take n).drop b.readerIndex).length := by
    rw [List.length_drop, List.length_take]
    unfold readableBytes
    omega
  have hstart : b.readerIndex ≤ (b.buffer.take n).length := by
    rw [List.length_take]
    omega
  rw [resize, List.drop_append_of_le_length hstart, List.take_append_of_le_length hlen,
    List.drop_take, List.take_take, Nat.min_eq_left]
  · rfl
  · unfold readableBytes
    omega

/-- Either branch of `makeSpace` makes the space that was asked for and
leaves the content alone; the compacting one always finds more than
`kCheapPrepend` bytes in front of the content. -/
theorem makeSpace_spec {b : Buffer} {len : Nat} (hlen : b.writableBytes < len) :
    ∃ b', b.makeSpace len hlen = .ok b' ∧ b'.readable = b.readable ∧
      len ≤ b'.writableBytes := by
  have hr := b.reader_le_writer
  have hw := b.writer_le_size
  by_cases hgrow : b.writableBytes + b.prependableBytes < len + kCheapPrepend
  · refine ⟨_, if_pos hgrow, b.readable_resize (Nat.le_add_right _ _), ?_⟩
    show len ≤ (resize b.buffer (b.writerIndex + len)).length - b.writerIndex
    rw [length_resize]
    omega
  · have hfront : kCheapPrepend < b.readerIndex := by
      unfold prependableBytes at hgrow
      omega
    refine ⟨b.compact (Nat.le_of_lt hfront), ?_, readable_compact _, ?_⟩
    · unfold makeSpace
      rw [if_neg hgrow, dif_pos hfront]
    · have hsum := writableBytes_compact (Nat.le_of_lt hfront)
      unfold prependableBytes at hgrow
      omega

theorem ensureWritableBytes_spec (b : Buffer) (len : Nat) :
    ∃ b', b.ensureWritableBytes len = .ok b' ∧ b'.readable = b.readable ∧
      len ≤ b'.writableBytes := by
  unfold ensureWritableBytes
  by_cases hlen : b.writableBytes < len
  · obtain ⟨b', hb, hread, hspace⟩ := makeSpace_spec hlen
    refine ⟨b', ?_, hread, hspace⟩
    rw [dif_pos hlen, hb]
    show (assertThat (len ≤ b'.writableBytes) >>= fun _ => pure b') = .ok b'
    rw [assertThat_of hspace]
    rfl
  · refine ⟨b, ?_, rfl, Nat.not_lt.mp hlen⟩
    rw [dif_neg hlen]
    show (assertThat (len ≤ b.writableBytes) >>= fun _ => pure b) = .ok b
    rw [assertThat_of (Nat.not_lt.mp hlen)]
    rfl

theorem writer_add_le_size (b : Buffer) {n : Nat} (h : n ≤ b.writableBytes) :
    b.writerIndex + n ≤ b.buffer.length := by
  have hw := b.writer_le_size
  unfold writableBytes at h
  omega

theorem copyToBeginWrite_spec {b : Buffer} {data : List UInt8}
    (h : data.length ≤ b.writableBytes) :
    ∃ b', b.copyToBeginWrite data = .ok b' ∧
      b'.buffer = overwrite b.buffer b.writerIndex data ∧
      b'.readerIndex = b.readerIndex ∧ b'.writerIndex = b.writerIndex := by
  have hfit := b.writer_add_le_size h
  exact ⟨_, dif_pos hfit, rfl, rfl, rfl⟩

theorem hasWritten_spec {b : Buffer} {len : Nat} (h : len ≤ b.writableBytes) :
    ∃ b', b.hasWritten len = .ok b' ∧ b'.buffer = b.buffer ∧
      b'.readerIndex = b.readerIndex ∧ b'.writerIndex = b.writerIndex + len :=
  ⟨_, dif_pos h, rfl, rfl, rfl⟩

/-- Bytes put at `beginWrite()` and then declared written end up behind the
content. -/
theorem write_spec {b : Buffer} {data : List UInt8}
    (h : data.length ≤ b.writableBytes) :
    ∃ b', (b.copyToBeginWrite data >>= fun b => b.hasWritten data.length) = .ok b' ∧
      b'.readable = b.readable ++ data := by
  have hr := b.reader_le_writer
  have hfit := b.writer_add_le_size h
  obtain ⟨b₁, h₁, hbuf₁, hri₁, hwi₁⟩ := copyToBeginWrite_spec h
  have hspace : data.length ≤ b₁.writableBytes := by
    rw [writableBytes, hbuf₁, hwi₁, length_overwrite hfit]
    exact h
  obtain ⟨b₂, h₂, hbuf₂, hri₂, hwi₂⟩ := hasWritten_spec hspace
  refine ⟨b₂, bind_eq_ok.mpr ⟨b₁, h₁, h₂⟩, ?_⟩
  have htake : (b.buffer.take b.writerIndex).length = b.writerIndex := by
    rw [List.length_take]
    omega
  have hcut : b.writerIndex + data.length - b.readerIndex =
      ((b.buffer.take b.writerIndex).drop b.readerIndex ++ data).length := by
    rw [List.length_append, List.length_drop, htake]
    omega
  calc b₂.readable
      = ((overwrite b.buffer b.writerIndex data).drop b.readerIndex).take
          (b.writerIndex + data.length - b.readerIndex) := by
        rw [readable, readableBytes, hbuf₂, hbuf₁, hri₂, hri₁, hwi₂, hwi₁]
    _ = (b.buffer.take b.writerIndex).drop b.readerIndex ++ data := by
        rw [overwrite, List.append_assoc, List.drop_append_of_le_length (by omega),
          ← List.append_assoc, hcut, List.take_left]
    _ = b.readable ++ data := by rw [List.drop_take]; rfl

/-- They take the space they need. -/
theorem writableBytes_write {b b' : Buffer} {data : List UInt8}
    (h : data.length ≤ b.writableBytes)
    (hwrite : (b.copyToBeginWrite data >>= fun b => b.hasWritten data.length) = .ok b') :
    b'.writableBytes + data.length = b.writableBytes := by
  have hfit := b.writer_add_le_size h
  obtain ⟨b₁, h₁, h₂⟩ := bind_eq_ok.mp hwrite
  obtain ⟨b₁', h₁', hbuf₁, -, hwi₁⟩ := copyToBeginWrite_spec h
  cases h₁.symm.trans h₁'
  have hspace : data.length ≤ b₁.writableBytes := by
    rw [writableBytes, hbuf₁, hwi₁, length_overwrite hfit]
    exact h
  obtain ⟨b₂, h₂', hbuf₂, -, hwi₂⟩ := hasWritten_spec hspace
  cases h₂.symm.trans h₂'
  unfold writableBytes
  rw [hbuf₂, hbuf₁, hwi₂, hwi₁, length_overwrite hfit]
  omega

/-- Appending always succeeds and puts the data behind the content. -/
theorem append_spec (b : Buffer) (data : List UInt8) :
    ∃ b', b.append data = .ok b' ∧ b'.readable = b.readable ++ data := by
  obtain ⟨b₁, h₁, hread, hspace⟩ := ensureWritableBytes_spec b data.length
  obtain ⟨b₂, h₂, hread₂⟩ := write_spec hspace
  refine ⟨b₂, bind_eq_ok.mpr ⟨b₁, h₁, h₂⟩, ?_⟩
  rw [hread₂, hread]

theorem unwrite_spec {b : Buffer} {len : Nat} (h : len ≤ b.readableBytes) :
    ∃ b', b.unwrite len = .ok b' ∧
      b'.readable = b.readable.take (b.readable.length - len) := by
  refine ⟨_, dif_pos h, ?_⟩
  rw [length_readable]
  simp only [readable, readableBytes, List.take_take]
  congr 1
  omega

/-- Bytes put in front of the content, where there is room for them. -/
theorem prepend_spec {b : Buffer} {data : List UInt8}
    (h : data.length ≤ b.prependableBytes) :
    ∃ b', b.prepend data = .ok b' ∧ b'.readable = data ++ b.readable := by
  have hr := b.reader_le_writer
  have hw := b.writer_le_size
  have hle : data.length ≤ b.readerIndex := h
  refine ⟨_, dif_pos h, ?_⟩
  have htake : (b.buffer.take (b.readerIndex - data.length)).length =
      b.readerIndex - data.length := by
    rw [List.length_take]
    omega
  have hback : b.readerIndex - data.length + data.length = b.readerIndex := by omega
  have hcut : b.writerIndex - (b.readerIndex - data.length) =
      data.length + b.readableBytes := by
    unfold readableBytes
    omega
  show ((overwrite b.buffer (b.readerIndex - data.length) data).drop
    (b.readerIndex - data.length)).take (b.writerIndex - (b.readerIndex - data.length)) = _
  rw [overwrite, hback, List.append_assoc, List.drop_left' htake, hcut,
    List.take_length_add_append]
  rfl

/-- `retrieveUntil` a pointer `len` bytes into the content. -/
theorem retrieveUntil_spec {b : Buffer} {len : Nat} (h : len ≤ b.readableBytes) :
    ∃ b', b.retrieveUntil (b.readerIndex + len) = .ok b' ∧
      b'.readable = b.readable.drop len := by
  have hr := b.reader_le_writer
  obtain ⟨b', hb, hread⟩ := retrieve_spec h
  have hend : b.readerIndex + len ≤ b.writerIndex := by
    unfold readableBytes at h
    omega
  refine ⟨b', ?_, hread⟩
  refine assertThat_bind_eq_ok.mpr ⟨Nat.le_add_right _ _, ?_⟩
  refine assertThat_bind_eq_ok.mpr ⟨hend, ?_⟩
  rw [Nat.add_sub_cancel_left]
  exact hb

theorem retireveAsString_spec {b : Buffer} {len : Nat} (h : len ≤ b.readableBytes) :
    ∃ b', b.retireveAsString len = .ok (b.readable.take len, b') ∧
      b'.readable = b.readable.drop len := by
  obtain ⟨b', hb, hread⟩ := retrieve_spec h
  have hstr : (b.buffer.drop b.readerIndex).take len = b.readable.take len := by
    rw [readable, List.take_take, Nat.min_eq_left h]
  refine ⟨b', ?_, hread⟩
  refine assertThat_bind_eq_ok.mpr ⟨h, bind_eq_ok.mpr ⟨b', hb, ?_⟩⟩
  rw [hstr]
  rfl

end Libanet.Net.Buffer
