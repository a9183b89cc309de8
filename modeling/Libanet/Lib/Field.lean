/-!
# Fields of a block of memory

A block of memory as the list of its bytes, or of whatever its cells hold, and
a field as a stretch of it. Two structures that overlay each other are two
ways of naming stretches of one block, so what one reads where the other was
written is a matter of lengths.
-/

namespace Libanet

variable {α : Type}

/-- The field of `n` cells at `off`. -/
def field (off n : Nat) (block : List α) : List α := (block.drop off).take n

/-- The block with `data` written at `off`. -/
def setField (off : Nat) (data block : List α) : List α :=
  block.take off ++ data ++ block.drop (off + data.length)

/-- A field of a block that is given piece by piece. -/
theorem field_append {off n : Nat} {before data : List α} (after : List α)
    (hoff : before.length = off) (hn : data.length = n) :
    field off n (before ++ (data ++ after)) = data := by
  unfold field
  rw [← hoff, List.drop_left, ← hn, List.take_left]

/-- A field in the front part of a block. -/
theorem field_append_left {off n : Nat} {front : List α} (after : List α)
    (h : off + n ≤ front.length) : field off n (front ++ after) = field off n front := by
  unfold field
  rw [List.drop_append_of_le_length (by omega),
    List.take_append_of_le_length (by rw [List.length_drop]; omega)]

/-- A field behind the one that is written. -/
theorem field_setField_of_le {off off' : Nat} {data block : List α} (n : Nat)
    (hfits : off + data.length ≤ block.length) (h : off + data.length ≤ off') :
    field off' n (setField off data block) = field off' n block := by
  have hlen : (block.take off ++ data).length = off + data.length := by
    rw [List.length_append, List.length_take, Nat.min_eq_left (by omega)]
  unfold field setField
  rw [List.drop_append, hlen, List.drop_eq_nil_of_le (by omega), List.nil_append,
    List.drop_drop]
  congr 2
  omega

end Libanet
