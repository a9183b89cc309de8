import Mathlib.Algebra.Order.Ring.Int

/-!
# Integers as bytes

The base-256 digits of an integer, lowest first, and the number a list of
such digits stands for. Division and remainder are the floored ones, so the
first `n` digits of a negative integer are those of its two's complement in
`n` bytes, and one definition serves signed and unsigned numbers of every
width.
-/

namespace Libanet

/-- The lowest `n` bytes of `v`, the lowest first. -/
def bytesLE : Nat → Int → List UInt8
  | 0, _ => []
  | n + 1, v => UInt8.ofNat (v % 256).toNat :: bytesLE n (v / 256)

/-- The number whose bytes are given, the lowest first. -/
def valueLE : List UInt8 → Nat
  | [] => 0
  | b :: bs => b.toNat + 256 * valueLE bs

/-- The lowest `n` bytes of `v`, the highest first. -/
def bytesBE (n : Nat) (v : Int) : List UInt8 := (bytesLE n v).reverse

/-- The number whose bytes are given, the highest first. -/
def valueBE (bs : List UInt8) : Nat := valueLE bs.reverse

@[simp] theorem length_bytesLE (n : Nat) (v : Int) : (bytesLE n v).length = n := by
  induction n generalizing v with
  | zero => rfl
  | succ n ih => rw [bytesLE, List.length_cons, ih]

@[simp] theorem length_bytesBE (n : Nat) (v : Int) : (bytesBE n v).length = n := by
  rw [bytesBE, List.length_reverse, length_bytesLE]

theorem toNat_ofNat_emod (v : Int) :
    ((UInt8.ofNat (v % 256).toNat).toNat : Int) = v % 256 := by
  have hpos : 0 ≤ v % 256 := Int.emod_nonneg v (by omega)
  have hlt : v % 256 < 256 := Int.emod_lt_of_pos v (by omega)
  rw [UInt8.toNat_ofNat']
  omega

/-- The digits of a remainder: the lowest one, and those of the quotient. -/
theorem emod_pow_succ (v : Int) (n : Nat) :
    v % 256 ^ (n + 1) = v % 256 + 256 * (v / 256 % 256 ^ n) := by
  have hpow : (0 : Int) < 256 ^ n := Int.pow_pos (by omega)
  have hlow := Int.mul_ediv_add_emod v 256
  have hhigh := Int.mul_ediv_add_emod (v / 256) (256 ^ n)
  have hnonneg := Int.emod_nonneg (v / 256) (by omega : (256 : Int) ^ n ≠ 0)
  have hlt := Int.emod_lt_of_pos (v / 256) hpow
  have hsplit : v = v % 256 + 256 * (v / 256 % 256 ^ n) +
      256 ^ (n + 1) * (v / 256 / 256 ^ n) := by
    rw [Int.pow_succ, Int.mul_comm (256 ^ n) 256, Int.mul_assoc]
    omega
  have hbound : v % 256 + 256 * (v / 256 % 256 ^ n) < 256 ^ (n + 1) := by
    rw [Int.pow_succ]
    omega
  calc v % 256 ^ (n + 1)
      = (v % 256 + 256 * (v / 256 % 256 ^ n) +
          256 ^ (n + 1) * (v / 256 / 256 ^ n)) % 256 ^ (n + 1) := by rw [← hsplit]
    _ = (v % 256 + 256 * (v / 256 % 256 ^ n)) % 256 ^ (n + 1) :=
        Int.add_mul_emod_self_left _ _ _
    _ = v % 256 + 256 * (v / 256 % 256 ^ n) :=
        Int.emod_eq_of_lt (by omega) hbound

/-- Reading back the bytes of `v` gives `v`, up to multiples of what `n`
bytes can count. -/
theorem valueLE_bytesLE (n : Nat) (v : Int) : (valueLE (bytesLE n v) : Int) = v % 256 ^ n := by
  induction n generalizing v with
  | zero => simp [bytesLE, valueLE]
  | succ n ih =>
      have hlow := toNat_ofNat_emod v
      have hhigh := ih (v / 256)
      rw [bytesLE, valueLE, emod_pow_succ]
      omega

theorem valueBE_bytesBE (n : Nat) (v : Int) : (valueBE (bytesBE n v) : Int) = v % 256 ^ n := by
  rw [valueBE, bytesBE, List.reverse_reverse, valueLE_bytesLE]

theorem valueLE_lt (bs : List UInt8) : valueLE bs < 256 ^ bs.length := by
  induction bs with
  | nil => simp [valueLE]
  | cons b bs ih =>
      have hb := b.toNat_lt
      rw [valueLE, List.length_cons, Nat.pow_succ]
      omega

theorem valueBE_lt (bs : List UInt8) : valueBE bs < 256 ^ bs.length := by
  rw [valueBE, ← List.length_reverse]
  exact valueLE_lt bs.reverse

theorem bytesLE_valueLE (bs : List UInt8) : bytesLE bs.length (valueLE bs) = bs := by
  induction bs with
  | nil => rfl
  | cons b bs ih =>
      have hb := b.toNat_lt
      have hlow : (((b.toNat + 256 * valueLE bs : Nat) : Int) % 256).toNat = b.toNat := by omega
      have hhigh : ((b.toNat + 256 * valueLE bs : Nat) : Int) / 256 = valueLE bs := by omega
      rw [List.length_cons, valueLE, bytesLE, hlow, hhigh, ih, UInt8.ofNat_toNat]

/-- Integers that differ by a multiple of what `n` bytes can count have the
same bytes. -/
theorem bytesLE_emod (n : Nat) (v : Int) : bytesLE n (v % 256 ^ n) = bytesLE n v := by
  have hround := bytesLE_valueLE (bytesLE n v)
  rw [length_bytesLE, valueLE_bytesLE] at hround
  exact hround

end Libanet
