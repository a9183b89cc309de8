import Mathlib.Algebra.Order.Ring.Int
import Libanet.Base.Assert

/-!
# Signed integers

C leaves it open what a signed operation does whose result the type does not
hold. An `int` or an `int64_t` is an integer here, and the result of every
operation that could overflow goes through `signed`, which faults if it did.
-/

namespace Libanet

/-- `x` is a value of the signed type of `w` bits. -/
def Fits (w : Nat) (x : Int) : Prop := -2 ^ (w - 1) ≤ x ∧ x < 2 ^ (w - 1)

instance (w : Nat) (x : Int) : Decidable (Fits w x) := inferInstanceAs (Decidable (_ ∧ _))

/-- The result `x` of an operation on signed integers of `w` bits. -/
def signed (w : Nat) (x : Int) : Except Fault Int :=
  if Fits w x then .ok x else .error .signedOverflow

theorem signed_of {w : Nat} {x : Int} (h : Fits w x) : signed w x = .ok x := if_pos h

theorem fits_of_signed {w : Nat} {x y : Int} (h : signed w x = .ok y) : Fits w x := by
  unfold signed at h
  split at h
  · next hfits => exact hfits
  · cases h

theorem fits_int {x : Int} : Fits 32 x ↔ -2147483648 ≤ x ∧ x ≤ 2147483647 := by
  simp only [Fits, Nat.reduceSub, Int.reducePow, Int.reduceNeg]
  omega

theorem fits_long {x : Int} :
    Fits 64 x ↔ -9223372036854775808 ≤ x ∧ x ≤ 9223372036854775807 := by
  simp only [Fits, Nat.reduceSub, Int.reducePow, Int.reduceNeg]
  omega

theorem signed_int_bind {x : Int} {β : Type} {f : Int → Except Fault β}
    (hl : -2147483648 ≤ x) (hu : x ≤ 2147483647) : (signed 32 x >>= f) = f x := by
  rw [signed_of (fits_int.mpr ⟨hl, hu⟩)]
  rfl

theorem signed_long_bind {x : Int} {β : Type} {f : Int → Except Fault β}
    (hl : -9223372036854775808 ≤ x) (hu : x ≤ 9223372036854775807) :
    (signed 64 x >>= f) = f x := by
  rw [signed_of (fits_long.mpr ⟨hl, hu⟩)]
  rfl

end Libanet
