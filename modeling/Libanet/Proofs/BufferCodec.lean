import Libanet.Net.BufferInt
import Libanet.Proofs.Buffer

/-!
# What a buffer's integers look like on the wire

Every width writes the two's complement of its value, highest byte first,
on a host of either byte order, and reading at the same width gives the
value back. So a sequence of integers of mixed widths can be written and
read again, wherever the buffer grows or slides its content in between, and
a header put in front of a message can be taken off again.
-/

namespace Libanet.Net

/-- The widths the buffer reads and writes. -/
inductive IntType where
  | int8
  | int16
  | int32
  | int64
  deriving DecidableEq, Repr

namespace IntType

def bits : IntType → Nat
  | int8 => 8
  | int16 => 16
  | int32 => 32
  | int64 => 64

/-- C's `sizeof`. -/
def sizeof (t : IntType) : Nat := t.bits / 8

end IntType

/-- An integer of one of the widths. -/
structure TypedInt where
  type : IntType
  value : BitVec type.bits
  deriving DecidableEq

namespace TypedInt

/-- The two's complement of the value, highest byte first. -/
def encode (x : TypedInt) : List UInt8 := bytesBE x.type.sizeof x.value.toInt

/-- The `appendIntN` of the type. -/
def append (host : ByteOrder) (b : Buffer) : TypedInt → Except Fault Buffer
  | ⟨.int8, x⟩ => b.appendInt8 host x
  | ⟨.int16, x⟩ => b.appendInt16 host x
  | ⟨.int32, x⟩ => b.appendInt32 host x
  | ⟨.int64, x⟩ => b.appendInt64 host x

/-- The `prependIntN` of the type. -/
def prepend (host : ByteOrder) (b : Buffer) : TypedInt → Except Fault Buffer
  | ⟨.int8, x⟩ => b.prependInt8 host x
  | ⟨.int16, x⟩ => b.prependInt16 host x
  | ⟨.int32, x⟩ => b.prependInt32 host x
  | ⟨.int64, x⟩ => b.prependInt64 host x

/-- The `readIntN` of a type. -/
def read (host : ByteOrder) (b : Buffer) : IntType → Except Fault (TypedInt × Buffer)
  | .int8 => do let (x, b) ← b.readInt8; return (⟨.int8, x⟩, b)
  | .int16 => do let (x, b) ← b.readInt16 host; return (⟨.int16, x⟩, b)
  | .int32 => do let (x, b) ← b.readInt32 host; return (⟨.int32, x⟩, b)
  | .int64 => do let (x, b) ← b.readInt64 host; return (⟨.int64, x⟩, b)

def appendAll (host : ByteOrder) : List TypedInt → Buffer → Except Fault Buffer
  | [], b => .ok b
  | x :: xs, b => do appendAll host xs (← x.append host b)

def readAll (host : ByteOrder) : List IntType → Buffer → Except Fault (List TypedInt × Buffer)
  | [], b => .ok ([], b)
  | t :: ts, b => do
      let (x, b) ← read host b t
      let (xs, b) ← readAll host ts b
      return (x :: xs, b)

@[simp] theorem length_encode (x : TypedInt) : x.encode.length = x.type.sizeof :=
  length_bytesBE _ _

/-- A byte has no order. -/
theorem memory_byte (host : ByteOrder) (x : BitVec 8) :
    host.memory x = bytesBE (8 / 8) x.toInt := by
  cases host with
  | little => exact ByteOrder.bytesLE_toNat (by decide) x
  | big => exact congrArg List.reverse (ByteOrder.bytesLE_toNat (by decide) x)

theorem append_eq (host : ByteOrder) (b : Buffer) (x : TypedInt) :
    x.append host b = b.append x.encode := by
  obtain ⟨t, x⟩ := x
  cases t with
  | int8 => exact congrArg b.append (memory_byte host x)
  | int16 => exact congrArg b.append (host.memory_htobe (by decide) x)
  | int32 => exact congrArg b.append (host.memory_htobe (by decide) x)
  | int64 => exact congrArg b.append (host.memory_htobe (by decide) x)

theorem prepend_eq (host : ByteOrder) (b : Buffer) (x : TypedInt) :
    x.prepend host b = b.prepend x.encode := by
  obtain ⟨t, x⟩ := x
  cases t with
  | int8 => exact congrArg b.prepend (memory_byte host x)
  | int16 => exact congrArg b.prepend (host.memory_htobe (by decide) x)
  | int32 => exact congrArg b.prepend (host.memory_htobe (by decide) x)
  | int64 => exact congrArg b.prepend (host.memory_htobe (by decide) x)

/-- The object `peekInt64` and its siblings fill holds the first bytes of
the content. -/
theorem peekObject_spec (host : ByteOrder) {b : Buffer} {w : Nat} {bytes rest : List UInt8}
    (hlen : bytes.length = w / 8) (hread : b.readable = bytes ++ rest) :
    b.peekObject host w = .ok (host.object w bytes) := by
  have hsize : w / 8 ≤ b.readableBytes := by
    rw [← b.length_readable, hread, List.length_append]
    omega
  have hfront : (b.buffer.drop b.readerIndex).take (w / 8) = bytes := by
    calc (b.buffer.drop b.readerIndex).take (w / 8)
        = b.readable.take (w / 8) := by
          rw [Buffer.readable, List.take_take, Nat.min_eq_left hsize]
      _ = bytes := by rw [hread, ← hlen, List.take_left]
  refine assertThat_bind_eq_ok.mpr ⟨hsize, ?_⟩
  rw [hfront]
  rfl

theorem peekInt8_spec {b : Buffer} {x : UInt8} {rest : List UInt8}
    (hread : b.readable = x :: rest) : b.peekInt8 = .ok x.toBitVec := by
  have hsize : 1 ≤ b.readableBytes := by
    rw [← b.length_readable, hread, List.length_cons]
    omega
  have hfront : b.buffer[b.readerIndex]? = some x := by
    have h : b.readable[0]? = some x := by rw [hread]; rfl
    rw [Buffer.readable, List.getElem?_take_of_lt hsize, List.getElem?_drop] at h
    exact h
  refine assertThat_bind_eq_ok.mpr ⟨hsize, ?_⟩
  rw [hfront]
  rfl

theorem retrieve_bytes {b : Buffer} {n : Nat} {bytes rest : List UInt8}
    (hlen : bytes.length = n) (hread : b.readable = bytes ++ rest) :
    ∃ b', b.retrieve n = .ok b' ∧ b'.readable = rest := by
  have hsize : n ≤ b.readableBytes := by
    rw [← b.length_readable, hread, List.length_append]
    omega
  obtain ⟨b', hb, hrest⟩ := Buffer.retrieve_spec hsize
  rw [hread, ← hlen, List.drop_left] at hrest
  exact ⟨b', hb, hrest⟩

/-- What `readInt64`, `readInt32` and `readInt16` do takes an integer off
the front of the content. -/
theorem readWide_spec (host : ByteOrder) {b : Buffer} {w : Nat} (hw : 8 ∣ w) {x : BitVec w}
    {rest : List UInt8} (hread : b.readable = bytesBE (w / 8) x.toInt ++ rest) :
    ∃ b', (do
        let result ← host.betoh <$> b.peekObject host w
        let b ← b.retrieve (w / 8)
        return (result, b)) = Except.ok (x, b') ∧ b'.readable = rest := by
  have hpeek := peekObject_spec host (length_bytesBE _ _) hread
  obtain ⟨b', hb, hrest⟩ := retrieve_bytes (length_bytesBE _ _) hread
  have hval : host.betoh (host.object w (bytesBE (w / 8) x.toInt)) = x := by
    rw [host.betoh_object hw (length_bytesBE _ _), ByteOrder.ofNat_valueBE_bytesBE hw]
  refine ⟨b', ?_, hrest⟩
  rw [hpeek, hb]
  exact congrArg (fun v => Except.ok (v, b')) hval

theorem readInt8_spec {b : Buffer} {x : BitVec 8} {rest : List UInt8}
    (hread : b.readable = bytesBE (8 / 8) x.toInt ++ rest) :
    ∃ b', b.readInt8 = .ok (x, b') ∧ b'.readable = rest := by
  have hbyte : bytesBE (8 / 8) x.toInt = [UInt8.ofBitVec x] := by
    have hval : UInt8.ofNat ((x.toNat : Int) % 256).toNat = UInt8.ofBitVec x := by
      have hlt := x.isLt
      apply UInt8.toNat_inj.mp
      rw [UInt8.toNat_ofNat', UInt8.toNat_ofBitVec]
      omega
    rw [bytesBE, ← ByteOrder.bytesLE_toNat (by decide)]
    exact congrArg (fun c => [c]) hval
  obtain ⟨b', hb, hrest⟩ := retrieve_bytes (length_bytesBE _ _) hread
  rw [hbyte] at hread
  refine ⟨b', ?_, hrest⟩
  unfold Buffer.readInt8
  rw [peekInt8_spec hread]
  exact bind_eq_ok.mpr ⟨x, rfl, bind_eq_ok.mpr ⟨b', hb, rfl⟩⟩

/-- The `readIntN` of a type takes the integer off the front again. -/
theorem read_spec (host : ByteOrder) {b : Buffer} {x : TypedInt} {rest : List UInt8}
    (hread : b.readable = x.encode ++ rest) :
    ∃ b', read host b x.type = .ok (x, b') ∧ b'.readable = rest := by
  obtain ⟨t, x⟩ := x
  cases t with
  | int8 =>
      obtain ⟨b', hb, hrest⟩ := readInt8_spec hread
      exact ⟨b', bind_eq_ok.mpr ⟨(x, b'), hb, rfl⟩, hrest⟩
  | int16 =>
      obtain ⟨b', hb, hrest⟩ := readWide_spec (w := 16) host (by decide) hread
      exact ⟨b', bind_eq_ok.mpr ⟨(x, b'), hb, rfl⟩, hrest⟩
  | int32 =>
      obtain ⟨b', hb, hrest⟩ := readWide_spec (w := 32) host (by decide) hread
      exact ⟨b', bind_eq_ok.mpr ⟨(x, b'), hb, rfl⟩, hrest⟩
  | int64 =>
      obtain ⟨b', hb, hrest⟩ := readWide_spec (w := 64) host (by decide) hread
      exact ⟨b', bind_eq_ok.mpr ⟨(x, b'), hb, rfl⟩, hrest⟩

theorem appendAll_spec (host : ByteOrder) (xs : List TypedInt) (b : Buffer) :
    ∃ b', appendAll host xs b = .ok b' ∧ b'.readable = b.readable ++ xs.flatMap encode := by
  induction xs generalizing b with
  | nil => exact ⟨b, rfl, by simp⟩
  | cons x xs ih =>
      obtain ⟨b₁, h₁, hread₁⟩ := b.append_spec x.encode
      obtain ⟨b₂, h₂, hread₂⟩ := ih b₁
      rw [← append_eq host] at h₁
      refine ⟨b₂, bind_eq_ok.mpr ⟨b₁, h₁, h₂⟩, ?_⟩
      rw [hread₂, hread₁, List.flatMap_cons, List.append_assoc]

theorem readAll_spec (host : ByteOrder) (xs : List TypedInt) {b : Buffer} {rest : List UInt8}
    (hread : b.readable = xs.flatMap encode ++ rest) :
    ∃ b', readAll host (xs.map type) b = .ok (xs, b') ∧ b'.readable = rest := by
  induction xs generalizing b with
  | nil => exact ⟨b, rfl, hread⟩
  | cons x xs ih =>
      rw [List.flatMap_cons, List.append_assoc] at hread
      obtain ⟨b₁, h₁, hread₁⟩ := read_spec host hread
      obtain ⟨b₂, h₂, hread₂⟩ := ih hread₁
      refine ⟨b₂, ?_, hread₂⟩
      exact bind_eq_ok.mpr ⟨(x, b₁), h₁, bind_eq_ok.mpr ⟨(xs, b₂), h₂, rfl⟩⟩

/-- Integers of any mixture of widths go on the wire highest byte first, in
order, and come back as they went; and an integer put in front of a message
comes off it again. -/
theorem int_codec_round_trip (host : ByteOrder) (b : Buffer) :
    (∀ xs : List TypedInt, ∃ b', appendAll host xs b = .ok b' ∧
        b'.readable = b.readable ++ xs.flatMap encode ∧
        (b.readable = [] → ∃ b'', readAll host (xs.map type) b' = .ok (xs, b'') ∧
          b''.readable = [])) ∧
      ∀ x : TypedInt, x.type.sizeof ≤ b.prependableBytes →
        ∃ b' b'', x.prepend host b = .ok b' ∧ read host b' x.type = .ok (x, b'') ∧
          b''.readable = b.readable := by
  constructor
  · intro xs
    obtain ⟨b', hb, hread⟩ := appendAll_spec host xs b
    refine ⟨b', hb, hread, ?_⟩
    intro hempty
    rw [hempty, List.nil_append] at hread
    exact readAll_spec host xs (by rw [hread, List.append_nil])
  · intro x hroom
    rw [← length_encode] at hroom
    obtain ⟨b', hb, hread⟩ := Buffer.prepend_spec hroom
    obtain ⟨b'', hb', hread'⟩ := read_spec host hread
    rw [← prepend_eq host] at hb
    exact ⟨b', b'', hb, hb', hread'⟩

/-- Three integers through a buffer without initial space, and a length in
front of the last of them. -/
theorem int_codec_round_trip_mixed :
    ∃ b', appendAll .little [⟨.int16, -2⟩, ⟨.int8, 7⟩, ⟨.int32, 258⟩] (Buffer.new 0) = .ok b' ∧
      b'.readable = [0xff, 0xfe, 7, 0, 0, 1, 2] ∧
      ∃ b'', readAll .little [.int16, .int8, .int32] b' =
        .ok ([⟨.int16, -2⟩, ⟨.int8, 7⟩, ⟨.int32, 258⟩], b'') ∧ b''.readable = [] := by
  obtain ⟨b', hb, hread, hback⟩ := (int_codec_round_trip .little (Buffer.new 0)).1
    [⟨.int16, -2⟩, ⟨.int8, 7⟩, ⟨.int32, 258⟩]
  exact ⟨b', hb, hread.trans (by decide), hback (by decide)⟩

end TypedInt

end Libanet.Net
