import Libanet.Lib.Machine
import Libanet.Proofs.LogRecord
import Libanet.Proofs.NumberText

/-!
# Insertions stay in the array

`StreamMemory` writes bytes, `LogStream` has text. They agree as long as the
position is in the array: what lies before it is the text, and an insertion
does to the one what it does to the other. So that a text goes in whole or
not at all is known from `LogStream`, and what has to be shown here is that
every byte that is written has its place.

Text asks for a byte more than it has, and so does a number, for its NUL, but
a number asks before it is known how long it is. 48 is enough for each of the
three kinds, and leaves the byte behind the position that `append` relies on:
were the position to reach the end, its `avail` would still be right, but
past the end it would be the largest there is.
-/

namespace Libanet

/-- The operands that are written before they are measured. -/
def Insertion.numeric : Insertion → Bool
  | integer _ _ | pointer _ | double _ _ => true
  | _ => false

theorem Insertion.room_eq (i : Insertion) :
    i.room = if i.numeric then kMaxNumericSize else i.text.length + 1 := by
  cases i <;> rfl

namespace StreamMemory

/-- The bytes in front of the position are the text. -/
structure Represents (s : StreamMemory) (t : LogStream) : Prop where
  size : s.data.length = kSmallBuffer
  bound : s.cur < kSmallBuffer
  contents : s.contents = t.buffer.data

variable {s : StreamMemory} {t : LogStream}

theorem represents_new {data : List UInt8} (h : data.length = kSmallBuffer) :
    (new data).Represents .new where
  size := h
  bound := Nat.zero_lt_succ 3999
  contents := List.take_zero

theorem Represents.length_eq (h : s.Represents t) : t.buffer.data.length = s.cur := by
  have hsize := h.size
  have hbound := h.bound
  rw [← h.contents, StreamMemory.contents, List.length_take]
  omega

theorem Represents.avail_eq (h : s.Represents t) : s.avail = (t.buffer.avail : Int) := by
  have hbound := h.bound
  have hlen := h.length_eq
  unfold StreamMemory.avail FixedBuffer.avail FixedBuffer.length
  omega

/-- Bytes are written at the position, and it moves behind the first of
them. -/
theorem Represents.write (h : s.Represents t) {text rest : List UInt8} {t' : LogStream}
    (hroom : s.cur + text.length < kSmallBuffer)
    (hrest : s.cur + (text ++ rest).length ≤ kSmallBuffer)
    (ht : t'.buffer.data = t.buffer.data ++ text) :
    Represents ⟨overwriteAt s.cur (text ++ rest) s.data, s.cur + text.length⟩ t' where
  size := by
    have hsize := h.size
    exact (length_overwriteAt (by omega)).trans hsize
  bound := hroom
  contents := by
    have hsize := h.size
    have hbound := h.bound
    rw [ht, ← h.contents]
    exact take_overwriteAt text rest (by omega)

/-- Numbers find their room and leave a byte behind them. -/
theorem Represents.writeNumber (h : s.Represents t) {text : List UInt8}
    (hlen : text.length < kMaxNumericSize) (havail : (kMaxNumericSize : Int) ≤ s.avail) :
    s.cur + (text ++ [0]).length ≤ s.data.length ∧
      Represents ⟨overwriteAt s.cur (text ++ [0]) s.data, s.cur + text.length⟩
        (t.formatNumeric text (Nat.le_of_lt hlen)) := by
  have hsize := h.size
  have hbound := h.bound
  have hroom : s.cur + kMaxNumericSize ≤ kSmallBuffer := by
    unfold StreamMemory.avail at havail
    omega
  have hrest : s.cur + (text ++ [0]).length ≤ kSmallBuffer := by
    rw [List.length_append, List.length_singleton]
    omega
  refine ⟨by omega, h.write (by omega) hrest ?_⟩
  rw [LogStream.data_formatNumeric, if_pos]
  have hsame := h.avail_eq
  omega

/-- Or are dropped. -/
theorem Represents.dropNumber (h : s.Represents t) {text : List UInt8}
    (hlen : text.length ≤ kMaxNumericSize) (havail : ¬ (kMaxNumericSize : Int) ≤ s.avail) :
    s.Represents (t.formatNumeric text hlen) := by
  have hsame := h.avail_eq
  rw [LogStream.formatNumeric, dif_neg (by omega)]
  exact h

theorem Represents.append (h : s.Represents t) (buf : List UInt8) :
    ∃ s', s.append buf = .ok s' ∧ s'.Represents (t.append buf) := by
  have hsize := h.size
  have hbound := h.bound
  have hsame := h.avail_eq
  have havail : s.avail % 2 ^ 64 = s.avail := by
    have hsmall : kSmallBuffer = 4000 := rfl
    unfold StreamMemory.avail
    omega
  unfold StreamMemory.append
  rw [havail]
  by_cases hfits : (buf.length : Int) < s.avail
  · have hroom : s.cur + buf.length < kSmallBuffer := by
      unfold StreamMemory.avail at hfits
      omega
    have hwrite : writeCells Fault.outOfBounds s.cur buf s.data =
        .ok (overwriteAt s.cur buf s.data) := writeCells_eq (by omega)
    rw [if_pos hfits, hwrite]
    refine ⟨_, rfl, ?_⟩
    have hrest : s.cur + (buf ++ []).length ≤ kSmallBuffer := by
      rw [List.append_nil]
      omega
    have hdata : (t.append buf).buffer.data = t.buffer.data ++ buf := by
      rw [LogStream.data_append, if_pos]
      omega
    have hrep := h.write hroom hrest hdata
    rwa [List.append_nil] at hrep
  · rw [if_neg hfits]
    refine ⟨s, rfl, h.size, h.bound, ?_⟩
    rw [LogStream.data_append, if_neg, h.contents]
    omega

theorem Represents.formatInteger (h : s.Represents t) (v : Int) (range : v.natAbs < 2 ^ 64) :
    ∃ s', s.formatInteger v = .ok s' ∧ s'.Represents (t.formatInteger v range) := by
  have hlen : (convert v).length ≤ 21 := length_convert (Nat.lt_trans range (by decide))
  have hlen' : (convert v).length < kMaxNumericSize := Nat.lt_of_le_of_lt hlen (by decide)
  unfold StreamMemory.formatInteger
  by_cases havail : (kMaxNumericSize : Int) ≤ s.avail
  · obtain ⟨hroom, hrep⟩ := h.writeNumber hlen' havail
    rw [List.length_append, List.length_singleton] at hroom
    rw [if_pos havail, convertAt_eq (by omega)]
    exact ⟨_, rfl, hrep⟩
  · rw [if_neg havail]
    exact ⟨s, rfl, h.dropNumber _ havail⟩

theorem Represents.formatPointer (h : s.Represents t) (p : UInt64) :
    ∃ s', s.formatPointer p.toNat = .ok s' ∧ s'.Represents (t.insert (.pointer p)) := by
  have hlen : (convertHex p.toNat).length ≤ 16 := length_convertHex p.toNat_lt
  have hlen' : (ascii "0x" ++ convertHex p.toNat).length < kMaxNumericSize := by
    rw [List.length_append]
    exact Nat.lt_of_le_of_lt (Nat.add_le_add_left hlen _) (by decide)
  unfold StreamMemory.formatPointer
  by_cases havail : (kMaxNumericSize : Int) ≤ s.avail
  · obtain ⟨hroom, hrep⟩ := h.writeNumber hlen' havail
    have hhex : ascii "0x" = [0x30, 0x78] := rfl
    rw [hhex, List.length_append, List.length_append, List.length_singleton] at hroom
    have hroom : s.cur + (2 + (convertHex p.toNat).length + 1) ≤ s.data.length := hroom
    have hset : (s.data.set s.cur 0x30).length = s.data.length := List.length_set
    have hset' : ((s.data.set s.cur 0x30).set (s.cur + 1) 0x78).length = s.data.length :=
      List.length_set.trans hset
    have hwrite : writeCell Fault.outOfBounds s.cur 0x30 s.data = .ok (s.data.set s.cur 0x30) :=
      writeCell_eq (by omega)
    have hwrite' : writeCell Fault.outOfBounds (s.cur + 1) 0x78 (s.data.set s.cur 0x30) =
        .ok ((s.data.set s.cur 0x30).set (s.cur + 1) 0x78) := writeCell_eq (by omega)
    rw [if_pos havail, hwrite, ok_bind, hwrite', ok_bind, convertHexAt_eq (by omega)]
    refine ⟨_, rfl, ?_⟩
    have hmem : overwriteAt (s.cur + 2) (convertHex p.toNat ++ [0])
        ((s.data.set s.cur 0x30).set (s.cur + 1) 0x78) =
        overwriteAt s.cur (ascii "0x" ++ convertHex p.toNat ++ [0]) s.data := by
      rw [hhex, overwriteAt_cons (by omega), overwriteAt_cons (by omega)]
      rfl
    have hcur : s.cur + ((convertHex p.toNat).length + 2) =
        s.cur + (ascii "0x" ++ convertHex p.toNat).length := by
      rw [List.length_append, Nat.add_comm (convertHex p.toNat).length]
      rfl
    rw [hmem, hcur]
    exact hrep
  · rw [if_neg havail]
    exact ⟨s, rfl, h.dropNumber (Nat.le_of_lt hlen') havail⟩

theorem Represents.formatDouble (h : s.Represents t) {text : List UInt8}
    (short : text.length < kMaxNumericSize) :
    ∃ s', s.formatDouble text = .ok s' ∧
      s'.Represents (t.formatNumeric text (Nat.le_of_lt short)) := by
  have htake : text.take (kMaxNumericSize - 1) = text :=
    List.take_of_length_le (Nat.le_sub_one_of_lt short)
  unfold StreamMemory.formatDouble
  by_cases havail : (kMaxNumericSize : Int) ≤ s.avail
  · obtain ⟨hroom, hrep⟩ := h.writeNumber short havail
    have hwrite : writeCells Fault.outOfBounds s.cur (text ++ [0]) s.data =
        .ok (overwriteAt s.cur (text ++ [0]) s.data) := writeCells_eq hroom
    rw [if_pos havail, htake, hwrite]
    exact ⟨_, rfl, hrep⟩
  · rw [if_neg havail]
    exact ⟨s, rfl, h.dropNumber _ havail⟩

/-- An insertion does to the bytes what it does to the text. -/
theorem Represents.insert (h : s.Represents t) (i : Insertion) :
    ∃ s', s.insert i = .ok s' ∧ s'.Represents (t.insert i) := by
  cases i with
  | bool v => exact h.append _
  | integer v range => exact h.formatInteger v range
  | pointer p => exact h.formatPointer p
  | double text short => exact h.formatDouble short
  | char v => exact h.append _
  | cstr str =>
      cases str with
      | none => exact h.append _
      | some str => exact h.append _
  | bytes v => exact h.append _

/-! ## Any number of insertions -/

/-- A stream, and whatever is inserted into it. -/
def machine : Machine StreamMemory Insertion Fault := ⟨fun _ _ => true, insert⟩

/-- What one insertion does. -/
structure AllOrNothing (s : StreamMemory) (i : Insertion) (s' : StreamMemory) : Prop where
  bound : s'.length < 4000
  whole : s'.contents = s.contents ++ i.text ∧ s'.length = s.length + i.text.length ∨
    s'.contents = s.contents ∧ s'.length = s.length
  kept : i.text.length < s.avail → (i.numeric = true → 48 ≤ s.avail) →
    s'.contents = s.contents ++ i.text

theorem Represents.allOrNothing (h : s.Represents t) {i : Insertion} {s' : StreamMemory}
    (h' : s'.Represents (t.insert i)) : AllOrNothing s i s' := by
  have hlen := h.length_eq
  have hlen' := h'.length_eq
  have hdata := LogStream.data_insert i t
  rw [← h.contents, ← h'.contents] at hdata
  rw [← h.contents] at hlen
  rw [← h'.contents] at hlen'
  refine ⟨h'.bound, ?_, ?_⟩
  · by_cases hroom : i.room ≤ t.buffer.avail
    · rw [if_pos hroom] at hdata
      rw [hdata, List.length_append, hlen] at hlen'
      exact .inl ⟨hdata, hlen'.symm⟩
    · rw [if_neg hroom] at hdata
      rw [hdata, hlen] at hlen'
      exact .inr ⟨hdata, hlen'.symm⟩
  · intro htext hnumeric
    rw [h.avail_eq] at htext hnumeric
    rw [if_pos] at hdata
    · exact hdata
    · rw [i.room_eq]
      split
      · next hi =>
          have hroom := hnumeric hi
          show 48 ≤ t.buffer.avail
          omega
      · omega

/-- Whatever is inserted into a stream whose array may have held anything, no
byte is written that is not in the array, and each insertion goes in whole or
not at all, and goes in if there is room. -/
theorem insertions_all_or_nothing {data : List UInt8} (hdata : data.length = 4000)
    (is : List Insertion) :
    (∃ s, machine.run is (new data) = some s ∧ s.length < 4000) ∧
      ∀ x ∈ machine.steps is (new data), AllOrNothing x.1 x.2.1 x.2.2 := by
  have hnew : ∃ t, (new data).Represents t := ⟨_, represents_new hdata⟩
  constructor
  · have hstep : ∀ {s : StreamMemory} {i : Insertion}, (∃ t, s.Represents t) →
        ∃ s', machine.step i s = some s' ∧ ∃ t, s'.Represents t := by
      rintro s i ⟨t, h⟩
      obtain ⟨s', hs', h'⟩ := h.insert i
      exact ⟨s', Machine.step_eq_some.mpr ⟨rfl, hs'⟩, _, h'⟩
    obtain ⟨s, hs, t, h⟩ := Machine.run_total hstep is hnew
    exact ⟨s, hs, h.bound⟩
  · refine (Machine.steps_iff (I := fun s => ∃ t, s.Represents t)
      (P := fun x => AllOrNothing x.1 x.2.1 x.2.2) (C := fun _ _ => True) ?_ ?_ is hnew).mpr
      fun _ _ => trivial
    · rintro s s' i ⟨t, h⟩ - he -
      obtain ⟨s₁, hs₁, h'⟩ := h.insert i
      cases hs₁.symm.trans he
      exact ⟨⟨_, h'⟩, h.allOrNothing h'⟩
    · intro s s' i _ _ _ hc
      exact absurd trivial hc

/-- A text, a negative number and a pointer. -/
def threeKinds : List Insertion :=
  [.cstr (some ⟨ascii "fd ", by decide⟩), .integer (-7) (by decide), .pointer 0xBEEF]

theorem insertions_all_or_nothing_threeKinds :
    ∃ s, machine.run threeKinds (new (List.replicate 4000 0xcc)) = some s ∧ s.length < 4000 :=
  (insertions_all_or_nothing List.length_replicate threeKinds).1

end StreamMemory

end Libanet
