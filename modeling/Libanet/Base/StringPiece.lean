import Libanet.Base.Signed

/-!
# `base/StringPiece.h`

A pointer into someone else's bytes and a length. The length is an `int`,
while everything that makes a piece or takes one counts in `size_t`. So a
length goes through an `int` on its way, and comes back unchanged only where
an `int` can hold it: from `2 ^ 31` on it comes back short, or as a number
close to `2 ^ 64`.

A pointer is given by the memory from where it points to the end of the array
there. A `size_t` is a natural number below `2 ^ 64`.
-/

namespace Libanet

/-- The conversion of a `size_t` to an `int`. -/
def intOfSize (n : Nat) : Int := (n : Int).bmod (2 ^ 32)

/-- The conversion of an `int` to a `size_t`. -/
def sizeOfInt (x : Int) : Nat := (x % 2 ^ 64).toNat

theorem intOfSize_of_lt {n : Nat} (h : n < 2 ^ 31) : intOfSize n = n := by
  unfold intOfSize
  rw [Int.bmod_eq_of_le (by omega) (by omega)]

theorem intOfSize_lt (n : Nat) : intOfSize n < 2 ^ 31 := by
  unfold intOfSize
  have h := Int.bmod_lt (x := (n : Int)) (m := 2 ^ 32) (by omega)
  omega

theorem intOfSize_le (n : Nat) : intOfSize n ≤ n := by
  unfold intOfSize
  rw [Int.bmod_def]
  split <;> omega

theorem intOfSize_eq_iff {n : Nat} : intOfSize n = n ↔ n < 2 ^ 31 := by
  constructor
  · intro h
    have hlt := intOfSize_lt n
    omega
  · exact intOfSize_of_lt

/-- A length that has been an `int`. -/
def throughInt (n : Nat) : Nat := sizeOfInt (intOfSize n)

theorem throughInt_of_lt {n : Nat} (h : n < 2 ^ 31) : throughInt n = n := by
  unfold throughInt sizeOfInt
  rw [intOfSize_of_lt h]
  omega

/-- Every length comes back as one that an `int` holds, or as one of the last
`2 ^ 31` numbers that a `size_t` holds. -/
theorem throughInt_cases (n : Nat) :
    throughInt n < 2 ^ 31 ∨ 2 ^ 64 - 2 ^ 31 ≤ throughInt n ∧ throughInt n < 2 ^ 64 := by
  unfold throughInt sizeOfInt intOfSize
  rw [Int.bmod_def]
  split
  · left
    omega
  · right
    omega

theorem throughInt_eq_iff {n : Nat} (h : n < 2 ^ 62) : throughInt n = n ↔ n < 2 ^ 31 := by
  constructor
  · intro heq
    by_contra hlarge
    have hcases := throughInt_cases n
    omega
  · exact throughInt_of_lt

structure StringPiece where
  data : List UInt8
  size : Int
  deriving DecidableEq, Repr

/-- `StringPiece()`, with a null pointer. -/
def StringPiece.new : StringPiece := ⟨[], 0⟩

/-- `set(const char *buff, int len)`. -/
def StringPiece.set (buff : List UInt8) (len : Int) (_p : StringPiece) : StringPiece := ⟨buff, len⟩

/-- `StringPiece(const string &)`. A string has a null byte behind it. -/
def StringPiece.ofString (s : List UInt8) : StringPiece := ⟨s ++ [0], intOfSize s.length⟩

/-- A piece is made of these bytes. -/
def StringPiece.Is (p : StringPiece) (bytes : List UInt8) : Prop :=
  p.size = bytes.length ∧ p.data.take bytes.length = bytes

theorem StringPiece.is_mk {data bytes : List UInt8} {size : Int} :
    (⟨data, size⟩ : StringPiece).Is bytes ↔
      size = bytes.length ∧ data.take bytes.length = bytes := Iff.rfl

/-! ## Comparing -/

/-- `memcmp` on ranges of one length. It compares bytes as `unsigned char`s,
and its result is not 1 or -1, but some number of that sign. -/
structure Memcmp where
  cmp : List UInt8 → List UInt8 → Int
  neg_iff : ∀ x y, x.length = y.length → (cmp x y < 0 ↔ x < y)
  zero_iff : ∀ x y, x.length = y.length → (cmp x y = 0 ↔ x = y)

namespace StringPiece

/-- `memcmp(ptr_, x.ptr_, n)`, with the conversion of `n` to a `size_t`. -/
def memcmp (m : Memcmp) (n : Int) (p x : StringPiece) : Except Fault Int :=
  if sizeOfInt n ≤ p.data.length ∧ sizeOfInt n ≤ x.data.length then
    .ok (m.cmp (p.data.take (sizeOfInt n)) (x.data.take (sizeOfInt n)))
  else .error .outOfBounds

/-- `operator==`. -/
def eq (m : Memcmp) (p x : StringPiece) : Except Fault Bool :=
  if p.size = x.size then do
    let r ← memcmp m p.size p x
    return r = 0
  else .ok false

/-- `operator!=`. -/
def ne (m : Memcmp) (p x : StringPiece) : Except Fault Bool := do
  let equal ← p.eq m x
  return !equal

/-- `STRINGPIECE_BINARY_PREDICATE(cmp, auxcmp)`. -/
def binaryPredicate (cmp auxcmp : Int → Int → Bool) (m : Memcmp) (p x : StringPiece) :
    Except Fault Bool := do
  let r ← memcmp m (if p.size < x.size then p.size else x.size) p x
  return auxcmp r 0 || (r = 0 && cmp p.size x.size)

/-- `operator<`. -/
def lt : Memcmp → StringPiece → StringPiece → Except Fault Bool :=
  binaryPredicate (fun a b => a < b) (fun a b => a < b)

/-- `operator<=`. -/
def le : Memcmp → StringPiece → StringPiece → Except Fault Bool :=
  binaryPredicate (fun a b => a ≤ b) (fun a b => a < b)

/-- `operator>=`. -/
def ge : Memcmp → StringPiece → StringPiece → Except Fault Bool :=
  binaryPredicate (fun a b => a ≥ b) (fun a b => a > b)

/-- `operator>`. -/
def gt : Memcmp → StringPiece → StringPiece → Except Fault Bool :=
  binaryPredicate (fun a b => a > b) (fun a b => a > b)

def compare (m : Memcmp) (p x : StringPiece) : Except Fault Int := do
  let r ← memcmp m (if p.size < x.size then p.size else x.size) p x
  if r = 0 then
    if p.size < x.size then return -1
    else if p.size > x.size then return r + 1
    else return r
  else return r

def starts_with (m : Memcmp) (p x : StringPiece) : Except Fault Bool :=
  if p.size ≥ x.size then do
    let r ← memcmp m x.size p x
    return r = 0
  else .ok false

end StringPiece

end Libanet
