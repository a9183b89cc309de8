import Libanet.Net.BufferShrink
import Libanet.Proofs.Buffer

/-!
# What `shrink` keeps

Where the arithmetic of `size_t` does not wrap, the functions `shrink` is made
of are those of `Proofs.Buffer`. Beyond that one thing can still be said of
them: an operation that returns has appended as many bytes as it was told to.
So whatever `shrink` returns holds as many bytes as the length of the piece
says, and that is the old length only below `2 ^ 31`.
-/

namespace Libanet.Net.Buffer

theorem mapError_eq_ok {α : Type} {x : Except Fault α} {a : α} :
    x.mapError Stop.fault = .ok a ↔ x = .ok a := by
  cases x with
  | ok b => simp [Except.mapError]
  | error e => simp [Except.mapError]

theorem mapError_bind {α β : Type} (x : Except Fault α) (f : α → Except Fault β) :
    (x >>= f).mapError Stop.fault = x.mapError .fault >>= fun a => (f a).mapError .fault := by
  cases x with
  | ok a => rfl
  | error e => rfl

/-! ## Without wrapping -/

theorem resize64_of_small {b : Buffer} {len : Nat} (hlen : b.writableBytes < len)
    (h : b.writerIndex + len ≤ max_size)
    (hgrow : b.writableBytes + b.prependableBytes < len + kCheapPrepend) :
    b.resize64 (b.writerIndex + len) = (b.makeSpace len hlen).mapError .fault := by
  have hc := b.cheapPrepend_le_size
  have hw := b.writer_le_size
  have hfits : b.writerIndex ≤ b.writerIndex + len ∧ kCheapPrepend ≤ b.writerIndex + len := by
    unfold writableBytes at hlen
    omega
  unfold resize64 makeSpace
  rw [if_neg (Nat.not_lt.mpr h), dif_pos hfits, if_pos hgrow]
  rfl

theorem makeSpace64_of_small {b : Buffer} {len : Nat} (hlen : b.writableBytes < len)
    (h : b.buffer.length + len ≤ max_size) :
    b.makeSpace64 len = (b.makeSpace len hlen).mapError .fault := by
  have hr := b.reader_le_writer
  have hw := b.writer_le_size
  have hmax : b.buffer.length + len < 2 ^ 63 := Nat.lt_succ_of_le h
  have hspace : (b.writableBytes + b.prependableBytes) % 2 ^ 64 =
      b.writableBytes + b.prependableBytes := by
    refine Nat.mod_eq_of_lt ?_
    unfold writableBytes prependableBytes
    omega
  have hask : (len + kCheapPrepend) % 2 ^ 64 = len + kCheapPrepend := by
    refine Nat.mod_eq_of_lt ?_
    unfold kCheapPrepend
    omega
  have hnew : (b.writerIndex + len) % 2 ^ 64 = b.writerIndex + len :=
    Nat.mod_eq_of_lt (by omega)
  unfold makeSpace64
  rw [hspace, hask, hnew]
  by_cases hgrow : b.writableBytes + b.prependableBytes < len + kCheapPrepend
  · rw [if_pos hgrow]
    exact resize64_of_small hlen (by omega) hgrow
  · unfold makeSpace
    rw [if_neg hgrow, if_neg hgrow]
    split
    · rfl
    · rfl

/-- A request for space in a vector that may become as long as that. -/
theorem ensureWritableBytes64_of_small {b : Buffer} {len : Nat}
    (h : b.buffer.length + len ≤ max_size) :
    b.ensureWritableBytes64 len = (b.ensureWritableBytes len).mapError .fault := by
  have hassert (b : Buffer) : ((assertThat (len ≤ b.writableBytes)).mapError Stop.fault >>=
      fun _ => pure b) =
      (assertThat (len ≤ b.writableBytes) >>= fun _ => pure b).mapError Stop.fault := by
    rw [mapError_bind]
    rfl
  unfold ensureWritableBytes64 ensureWritableBytes
  by_cases hlen : b.writableBytes < len
  · rw [if_pos hlen, dif_pos hlen, makeSpace64_of_small hlen h]
    show (_ >>= fun b => _ >>= fun _ => pure b) =
      (b.makeSpace len hlen >>= fun b => assertThat (len ≤ b.writableBytes) >>=
        fun _ => pure b).mapError Stop.fault
    rw [mapError_bind]
    simp only [hassert]
  · rw [if_neg hlen, dif_neg hlen]
    exact hassert b

/-! ## Whatever returns -/

theorem resize64_spec {b b' : Buffer} {n : Nat} (h : b.resize64 n = .ok b') :
    b'.readable = b.readable := by
  unfold resize64 at h
  split at h
  · cases h
  · split at h
    · next hfits =>
        cases h
        exact b.readable_resize hfits.1
    · cases h

theorem makeSpace64_spec {b b' : Buffer} {len : Nat} (h : b.makeSpace64 len = .ok b') :
    b'.readable = b.readable := by
  unfold makeSpace64 at h
  split at h
  · exact resize64_spec h
  · split at h
    · next hfront =>
        cases h
        exact readable_compact (Nat.le_of_lt hfront)
    · cases h

theorem ensureWritableBytes64_spec {b b' : Buffer} {len : Nat}
    (h : b.ensureWritableBytes64 len = .ok b') :
    b'.readable = b.readable ∧ len ≤ b'.writableBytes := by
  obtain ⟨b₁, hspace, h⟩ := bind_eq_ok.mp h
  obtain ⟨u, hassert, h⟩ := bind_eq_ok.mp h
  cases h
  refine ⟨?_, assertThat_eq_ok.mp (mapError_eq_ok.mp hassert)⟩
  split at hspace
  · exact makeSpace64_spec hspace
  · cases hspace
    rfl

/-- An `append` that returns has put `len` bytes behind the content, and they
are those that `data` points to. -/
theorem append64_spec {b b' : Buffer} {data : List UInt8} {len : Nat}
    (h : b.append64 data len = .ok b') :
    len ≤ data.length ∧ b'.readable = b.readable ++ data.take len := by
  obtain ⟨b₁, hensure, h⟩ := bind_eq_ok.mp h
  obtain ⟨hread, hspace⟩ := ensureWritableBytes64_spec hensure
  split at h
  · next hlen =>
      have htake : (data.take len).length = len := by
        rw [List.length_take]
        omega
      have h' := mapError_eq_ok.mp h
      have hspace : (data.take len).length ≤ b₁.writableBytes := by omega
      obtain ⟨b₂, hwrite, hread₂⟩ := write_spec hspace
      rw [htake] at hwrite
      cases hwrite.symm.trans h'
      exact ⟨hlen, by rw [hread₂, hread]⟩
  · cases h

theorem size_toStringPiece (b : Buffer) :
    sizeOfInt b.toStringPiece.size = throughInt b.readableBytes := by
  simp only [toStringPiece, throughInt]

theorem readable_new (initialSize : Nat) : (new initialSize).readable = [] := by
  rw [readable_eq_nil]
  exact Nat.sub_self _

/-- What `shrink` returns is as long as the piece that was appended says. -/
theorem length_shrink {b b' : Buffer} {reserve : Nat} (h : b.shrink reserve = .ok b') :
    b'.readable.length = throughInt b.readableBytes := by
  obtain ⟨b₁, hensure, h⟩ := bind_eq_ok.mp h
  obtain ⟨b₂, happend, h⟩ := bind_eq_ok.mp h
  have hb : b₂ = b' := Except.ok.inj h
  obtain ⟨hread, -⟩ := ensureWritableBytes64_spec hensure
  obtain ⟨hlen, hread₂⟩ := append64_spec happend
  rw [← hb, hread₂, hread, readable_new, List.nil_append, List.length_take,
    Nat.min_eq_left hlen, size_toStringPiece]

/-! ## `shrink` -/

/-- An `append` into space that is there. -/
theorem append64_of_space {b : Buffer} {data : List UInt8} {len : Nat}
    (hspace : len ≤ b.writableBytes) (hlen : len ≤ data.length) :
    ∃ b', b.append64 data len = .ok b' ∧ b'.readable = b.readable ++ data.take len ∧
      b'.writableBytes + len = b.writableBytes := by
  have htake : (data.take len).length = len := by
    rw [List.length_take]
    omega
  have hensure : b.ensureWritableBytes64 len = .ok b := by
    unfold ensureWritableBytes64
    rw [if_neg (Nat.not_lt.mpr hspace)]
    show ((assertThat (len ≤ b.writableBytes)).mapError Stop.fault >>= fun _ => .ok b) = .ok b
    rw [assertThat_of hspace]
    rfl
  have htakeSpace : (data.take len).length ≤ b.writableBytes := by omega
  obtain ⟨b', hwrite, hread⟩ := write_spec htakeSpace
  have hrest := writableBytes_write (by omega) hwrite
  rw [htake] at hwrite hrest
  refine ⟨b', bind_eq_ok.mpr ⟨b, hensure, ?_⟩, hread, hrest⟩
  rw [if_pos hlen]
  exact mapError_eq_ok.mpr hwrite

theorem shrink_of_lt {b : Buffer} {reserve : Nat} (h : b.readableBytes < 2 ^ 31)
    (hreserve : reserve < 2 ^ 62) :
    ∃ b', b.shrink reserve = .ok b' ∧ b'.readable = b.readable ∧ reserve ≤ b'.writableBytes := by
  have hsum : (b.readableBytes + reserve) % 2 ^ 64 = b.readableBytes + reserve :=
    Nat.mod_eq_of_lt (by omega)
  obtain ⟨b₁, hensure, hread₁, hspace⟩ :=
    ensureWritableBytes_spec (new kInitialSize) (b.readableBytes + reserve)
  have hmax : (new kInitialSize).buffer.length + (b.readableBytes + reserve) ≤ max_size := by
    have hinitial : (new kInitialSize).buffer.length = 1032 := List.length_replicate
    rw [hinitial]
    unfold max_size
    omega
  have hlen : b.readableBytes ≤ (b.buffer.drop b.readerIndex).length := by
    have hw := b.writer_le_size
    rw [List.length_drop]
    unfold readableBytes
    omega
  obtain ⟨b₂, happend, hread₂, hrest⟩ :=
    append64_of_space (Nat.le_trans (Nat.le_add_right _ _) hspace) hlen
  refine ⟨b₂, ?_, ?_, by omega⟩
  · have hsize : sizeOfInt b.toStringPiece.size = b.readableBytes := by
      rw [size_toStringPiece, throughInt_of_lt h]
    refine bind_eq_ok.mpr ⟨b₁, ?_, bind_eq_ok.mpr ⟨b₂, ?_, rfl⟩⟩
    · rw [hsum, ensureWritableBytes64_of_small hmax]
      exact mapError_eq_ok.mpr hensure
    · unfold appendPiece
      rw [hsize]
      exact happend
  · rw [hread₂, hread₁, readable_new]
    rfl

/-- `shrink(reserve)` returns with the content as it was, and with the space
that was asked for. -/
def ShrinkKeeps (b : Buffer) (reserve : Nat) : Prop :=
  ∃ b', b.shrink reserve = .ok b' ∧ b'.readable = b.readable ∧ reserve ≤ b'.writableBytes

theorem ShrinkKeeps.lt {b : Buffer} {reserve : Nat} (h : b.ShrinkKeeps reserve)
    (hread : b.readableBytes < 2 ^ 62) : b.readableBytes < 2 ^ 31 := by
  obtain ⟨b', hshrink, hsame, -⟩ := h
  have hlen := length_shrink hshrink
  rw [hsame, length_readable] at hlen
  exact (throughInt_eq_iff hread).mp hlen.symm

/-- Every buffer, and every reserve: `shrink` does what it is for if and only
if an `int` can hold the length of the content. -/
theorem shrinkKeeps_iff_lt (b : Buffer) (hread : b.readableBytes < 2 ^ 62) (reserve : Nat)
    (hreserve : reserve < 2 ^ 62) : b.ShrinkKeeps reserve ↔ b.readableBytes < 2 ^ 31 := by
  constructor
  · intro h
    exact h.lt hread
  · intro h
    exact shrink_of_lt h hreserve

theorem kCheapPrepend_le_replicate (n : Nat) :
    kCheapPrepend ≤ (List.replicate (kCheapPrepend + n) (0 : UInt8)).length := by
  rw [List.length_replicate]
  exact Nat.le_add_right _ _

/-- A buffer that holds `n` null bytes. -/
def holding (n : Nat) : Buffer where
  buffer := List.replicate (kCheapPrepend + n) 0
  readerIndex := kCheapPrepend
  writerIndex := kCheapPrepend + n
  reader_le_writer := Nat.le_add_right _ _
  writer_le_size := by rw [List.length_replicate]
  cheapPrepend_le_size := kCheapPrepend_le_replicate n

theorem readableBytes_holding (n : Nat) : (holding n).readableBytes = n :=
  Nat.add_sub_cancel_left _ _

theorem shrinkKeeps_iff_lt_threeBytes : (holding 3).ShrinkKeeps 100 :=
  (shrinkKeeps_iff_lt (holding 3) (by decide) 100 (by decide)).mpr (by decide)

/-- Two gibibytes are too much. -/
theorem not_shrinkKeeps_twoGibibytes : ¬ (holding (2 ^ 31)).ShrinkKeeps 0 := by
  intro h
  have hread := readableBytes_holding (2 ^ 31)
  have hlt := h.lt (by omega)
  omega

end Libanet.Net.Buffer
