import Mathlib.Algebra.Order.Ring.Int
import Libanet.Base.Assert

/-!
# `base/LogStream.cc`

A `FixedBuffer` is an array with a position in it. Bytes go in at the
position, and what lies behind it counts for nothing. An `append` that does
not leave at least one byte free is dropped without a word.

A `LogStream` is such a buffer and the operators `<<` that fill it. Text goes
through `append`. Numbers are written into the buffer where they are to stand,
and only if there is room for the longest of them. An `Insertion` is an
operand of `<<`: the integers have one case, whatever their type, and of a
`double` there is only the text `snprintf` makes of it. A `const char *` is
its characters, none of which is the NUL that ends it.
-/

namespace Libanet

/-- The text of a C string literal. -/
def ascii (s : String) : List UInt8 := s.toList.map fun c => UInt8.ofNat c.toNat

def kSmallBuffer : Nat := 4000

def kLargeBuffer : Nat := 4000 * 1000

/-- A string that a NUL ends. -/
structure CString where
  chars : List UInt8
  noNul : 0 ∉ chars

/-- `data` is what lies between `data_` and `cur_`. -/
structure FixedBuffer (SIZE : Nat) where
  data : List UInt8
  bound : data.length ≤ SIZE

namespace FixedBuffer

variable {SIZE : Nat}

def new : FixedBuffer SIZE := ⟨[], Nat.zero_le _⟩

def length (b : FixedBuffer SIZE) : Nat := b.data.length

def avail (b : FixedBuffer SIZE) : Nat := SIZE - b.length

def append (buf : List UInt8) (b : FixedBuffer SIZE) : FixedBuffer SIZE :=
  if h : buf.length < b.avail then
    { data := b.data ++ buf
      bound := by
        unfold avail length at h
        rw [List.length_append]
        omega }
  else b

/-- Text that was written at `current()`, and `add` with its length. -/
def add (text : List UInt8) (b : FixedBuffer SIZE) (h : text.length ≤ b.avail) :
    FixedBuffer SIZE where
  data := b.data ++ text
  bound := by
    unfold avail length at h
    have := b.bound
    rw [List.length_append]
    omega

def reset (_ : FixedBuffer SIZE) : FixedBuffer SIZE := new

@[simp] theorem data_new : (new : FixedBuffer SIZE).data = [] := rfl

theorem data_append_of_lt {buf : List UInt8} {b : FixedBuffer SIZE} (h : buf.length < b.avail) :
    (b.append buf).data = b.data ++ buf := by
  rw [append, dif_pos h]

theorem append_of_le {buf : List UInt8} {b : FixedBuffer SIZE} (h : b.avail ≤ buf.length) :
    b.append buf = b := dif_neg (Nat.not_lt.mpr h)

end FixedBuffer

/-! ## Numbers -/

def kMaxNumericSize : Nat := 48

def digits : List UInt8 := ascii "9876543210123456789"

def digitsHex : List UInt8 := ascii "0123456789ABCDEF"

/-- `zero[lsd]`, where `zero` is `digits + 9`. -/
def zeroAt (lsd : Int) : UInt8 := digits.getD (9 + lsd).toNat 0

def hexAt (lsd : Int) : UInt8 := digitsHex.getD lsd.toNat 0

/-- The loop of `convert` and of `convertHex`, lowest digit first. A turn
divides `i` by the base, so there are fewer turns than `fuel` if that is more
than `i`. -/
def convertLoop (base : Int) (digit : Int → UInt8) : Nat → Int → List UInt8
  | 0, _ => []
  | fuel + 1, i =>
      let lsd := i.tmod base
      let i := i.tdiv base
      digit lsd :: if i ≠ 0 then convertLoop base digit fuel i else []

def convert (value : Int) : List UInt8 :=
  let p := convertLoop 10 zeroAt (value.natAbs + 1) value
  let p := if value < 0 then p ++ ascii "_" else p
  p.reverse

example : convert (-1203) = ascii "_1203" := by decide

def convertHex (value : Nat) : List UInt8 :=
  (convertLoop 16 hexAt (value + 1) value).reverse

theorem length_convertLoop (base : Int) (digit : Int → UInt8) (fuel n : Nat) {i : Int}
    (h : i.natAbs < base.natAbs ^ (n + 1)) : (convertLoop base digit fuel i).length ≤ n + 1 := by
  induction n generalizing i fuel with
  | zero =>
      cases fuel with
      | zero => exact Nat.zero_le _
      | succ fuel =>
          have hlast : i.tdiv base = 0 := by
            rw [← Int.natAbs_eq_zero, Int.natAbs_tdiv]
            exact Nat.div_eq_of_lt (by simpa using h)
          simp [convertLoop, hlast]
  | succ n ih =>
      cases fuel with
      | zero => exact Nat.zero_le _
      | succ fuel =>
          have hnext : (i.tdiv base).natAbs < base.natAbs ^ (n + 1) := by
            rw [Int.natAbs_tdiv]
            refine Nat.div_lt_of_lt_mul ?_
            rwa [Nat.mul_comm, ← Nat.pow_succ]
          simp only [convertLoop, List.length_cons]
          split
          · exact Nat.succ_le_succ (ih fuel hnext)
          · exact Nat.succ_le_succ (Nat.zero_le _)

/-- A 64-bit integer, signed or not, has 20 digits at most. -/
theorem length_convert {value : Int} (h : value.natAbs < 10 ^ 20) :
    (convert value).length ≤ 21 := by
  have hloop := length_convertLoop 10 zeroAt (value.natAbs + 1) 19 h
  unfold convert
  rw [List.length_reverse]
  split
  · rw [List.length_append]
    exact Nat.succ_le_succ hloop
  · exact Nat.le_succ_of_le hloop

theorem length_convertHex {value : Nat} (h : value < 2 ^ 64) : (convertHex value).length ≤ 16 := by
  unfold convertHex
  rw [List.length_reverse]
  exact length_convertLoop 16 hexAt (value + 1) 15 h

/-! ## Insertions -/

/-- An operand of `<<`. -/
inductive Insertion where
  | bool (v : Bool)
  | integer (v : Int) (range : v.natAbs < 2 ^ 64)
  | pointer (p : UInt64)
  /-- `text` is what `"%.12g"` makes of the number. -/
  | double (text : CString) (short : text.chars.length < kMaxNumericSize)
  | char (v : UInt8)
  | cstr (str : Option CString)
  /-- A `string`, a `StringPiece`, the content of another buffer. -/
  | bytes (v : List UInt8)

structure LogStream where
  buffer : FixedBuffer kSmallBuffer

namespace LogStream

def new : LogStream := ⟨.new⟩

def append (data : List UInt8) (s : LogStream) : LogStream := ⟨s.buffer.append data⟩

/-- The text of a number, if there is room for any. -/
def formatNumeric (text : List UInt8) (h : text.length ≤ kMaxNumericSize) (s : LogStream) :
    LogStream :=
  if room : kMaxNumericSize ≤ s.buffer.avail then ⟨s.buffer.add text (Nat.le_trans h room)⟩
  else s

def formatInteger (v : Int) (h : v.natAbs < 2 ^ 64) (s : LogStream) : LogStream :=
  s.formatNumeric (convert v)
    (Nat.le_trans (length_convert (Nat.lt_trans h (by decide))) (by decide))

/-- `operator<<`. -/
def insert (i : Insertion) (s : LogStream) : LogStream :=
  match i with
  | .bool v => s.append (if v then ascii "1" else ascii "0")
  | .integer v range => s.formatInteger v range
  | .pointer p => s.formatNumeric (ascii "0x" ++ convertHex p.toNat)
      (by
        have := length_convertHex p.toNat_lt
        rw [List.length_append]
        exact Nat.le_trans (Nat.add_le_add_left this _) (by decide))
  | .double text short => s.formatNumeric text.chars (Nat.le_of_lt short)
  | .char v => s.append [v]
  | .cstr (some str) => s.append str.chars
  | .cstr none => s.append (ascii "(null)")
  | .bytes v => s.append v

end LogStream

end Libanet
