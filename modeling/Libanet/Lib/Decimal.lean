import Mathlib.Algebra.Order.Ring.Int

/-!
# Numbers in decimal

The text of a number as bytes: the digits that Lean itself prints, and a minus
sign in front of them if the number is negative. It is read back by summing
up the digits, which also reads what is padded with zeros, or with blanks:
neither adds anything.

All lemmas about digits go by one induction, that of `Nat.repr`: a number is
a single digit, or its last digit behind the text of the rest.
-/

namespace Libanet

def digitByte (k : Nat) : UInt8 := UInt8.ofNat (48 + k)

/-- The digits of a natural number. -/
def decimalDigits (n : Nat) : List UInt8 :=
  (Nat.toDigits 10 n).map fun c => UInt8.ofNat c.toNat

def decimalText (v : Int) : List UInt8 :=
  if v < 0 then 0x2d :: decimalDigits v.natAbs else decimalDigits v.natAbs

def IsDigit (c : UInt8) : Prop := 48 ≤ c.toNat ∧ c.toNat ≤ 57

instance (c : UInt8) : Decidable (IsDigit c) := inferInstanceAs (Decidable (_ ∧ _))

instance (text : List UInt8) : Decidable (∀ c ∈ text, IsDigit c) := List.decidableBAll _ text

/-- The number that digits stand for. -/
def decimalValue (text : List UInt8) : Nat :=
  text.foldl (fun n c => 10 * n + (c.toNat - 48)) 0

/-- The number a text stands for, if it stands for one. -/
def parseDecimal : List UInt8 → Option Int
  | 0x2d :: text =>
      if text ≠ [] ∧ ∀ c ∈ text, IsDigit c then some (-decimalValue text) else none
  | text => if text ≠ [] ∧ ∀ c ∈ text, IsDigit c then some (decimalValue text) else none

theorem toNat_digitByte {k : Nat} (h : k < 10) : (digitByte k).toNat = 48 + k := by
  rw [digitByte, UInt8.toNat_ofNat']
  omega

theorem digitByte_digitChar {k : Nat} (h : k < 10) :
    UInt8.ofNat (Nat.digitChar k).toNat = digitByte k := by
  rw [Nat.toNat_digitChar_of_lt_ten h, digitByte, Nat.add_comm]

/-! ## Digit by digit -/

theorem decimalDigits_of_lt {n : Nat} (h : n < 10) : decimalDigits n = [digitByte n] := by
  rw [decimalDigits, Nat.toDigits_of_lt_base h, List.map_singleton, digitByte_digitChar h]

theorem decimalDigits_of_ge {n : Nat} (h : 10 ≤ n) :
    decimalDigits n = decimalDigits (n / 10) ++ [digitByte (n % 10)] := by
  rw [decimalDigits, Nat.toDigits_of_base_le (by decide) h, List.map_append, List.map_singleton,
    digitByte_digitChar (Nat.mod_lt n (by decide)), decimalDigits]

/-- A number is a digit, or a digit behind a number. -/
theorem decimal_induction {P : Nat → Prop} (hdigit : ∀ n < 10, P n)
    (hstep : ∀ n, 10 ≤ n → P (n / 10) → P n) (n : Nat) : P n := by
  induction n using Nat.strongRecOn with
  | ind n ih =>
      by_cases hlt : n < 10
      · exact hdigit n hlt
      · exact hstep n (by omega) (ih (n / 10) (by omega))

theorem isDigit_decimalDigits (n : Nat) : ∀ c ∈ decimalDigits n, IsDigit c := by
  have hdigit : ∀ k < 10, IsDigit (digitByte k) := by
    intro k hk
    rw [IsDigit, toNat_digitByte hk]
    omega
  induction n using decimal_induction with
  | hdigit n hlt =>
      rw [decimalDigits_of_lt hlt]
      intro c hc
      rw [List.mem_singleton.mp hc]
      exact hdigit n hlt
  | hstep n hge ih =>
      rw [decimalDigits_of_ge hge]
      intro c hc
      rcases List.mem_append.mp hc with hc | hc
      · exact ih c hc
      · rw [List.mem_singleton.mp hc]
        exact hdigit _ (Nat.mod_lt n (by decide))

theorem decimalDigits_ne_nil (n : Nat) : decimalDigits n ≠ [] := by
  intro h
  exact Nat.toDigits_ne_nil (List.map_eq_nil_iff.mp h)

theorem length_decimalDigits_le_iff {n k : Nat} (h : 0 < k) :
    (decimalDigits n).length ≤ k ↔ n < 10 ^ k := by
  rw [decimalDigits, List.length_map, Nat.length_toDigits_le_iff (by decide) h]

/-! ## Reading back -/

theorem decimalValue_concat (text : List UInt8) (c : UInt8) :
    decimalValue (text ++ [c]) = 10 * decimalValue text + (c.toNat - 48) := by
  rw [decimalValue, List.foldl_append]
  rfl

theorem decimalValue_decimalDigits (n : Nat) : decimalValue (decimalDigits n) = n := by
  induction n using decimal_induction with
  | hdigit n hlt =>
      rw [decimalDigits_of_lt hlt]
      show 10 * 0 + ((digitByte n).toNat - 48) = n
      rw [toNat_digitByte hlt]
      omega
  | hstep n hge ih =>
      rw [decimalDigits_of_ge hge, decimalValue_concat, ih,
        toNat_digitByte (Nat.mod_lt n (by decide))]
      omega

/-- Zeros and blanks in front count for nothing. -/
theorem decimalValue_padded {c : UInt8} (hc : c.toNat ≤ 48) (k : Nat) (text : List UInt8) :
    decimalValue (List.replicate k c ++ text) = decimalValue text := by
  have hzero : c.toNat - 48 = 0 := Nat.sub_eq_zero_of_le hc
  induction k with
  | zero => rfl
  | succ k ih =>
      rw [← ih, decimalValue, decimalValue, List.replicate_succ, List.cons_append,
        List.foldl_cons, hzero]

theorem parseDecimal_of_digits {text : List UInt8} (hne : text ≠ [])
    (hdigits : ∀ c ∈ text, IsDigit c) : parseDecimal text = some ↑(decimalValue text) := by
  cases text with
  | nil => exact absurd rfl hne
  | cons c text =>
      have hminus : c ≠ 0x2d := by
        rintro rfl
        exact absurd (hdigits _ List.mem_cons_self) (by decide)
      unfold parseDecimal
      split
      · next heq =>
          cases heq
          exact absurd rfl hminus
      · exact if_pos ⟨hne, hdigits⟩

theorem parseDecimal_decimalText (v : Int) : parseDecimal (decimalText v) = some v := by
  have hne := decimalDigits_ne_nil v.natAbs
  have hdigits := isDigit_decimalDigits v.natAbs
  have hvalue := decimalValue_decimalDigits v.natAbs
  unfold decimalText
  split
  · next hneg =>
      show (if _ then some (-((decimalValue _ : Nat) : Int)) else none) = some v
      rw [if_pos ⟨hne, hdigits⟩, hvalue]
      congr 1
      omega
  · next hneg =>
      rw [parseDecimal_of_digits hne hdigits, hvalue]
      congr 1
      omega

/-- It is the text that `toString` answers with. -/
theorem toList_toString (v : Int) :
    (toString v).toList.map (fun c => UInt8.ofNat c.toNat) = decimalText v := by
  cases v with
  | ofNat n =>
      show n.repr.toList.map _ = _
      rw [Nat.toList_repr]
      rfl
  | negSucc n =>
      show ("-" ++ (n + 1).repr).toList.map _ = _
      have hneg : Int.negSucc n < 0 := Int.negSucc_lt_zero n
      rw [String.toList_append, Nat.toList_repr, List.map_append, decimalText, if_pos hneg]
      simp [decimalDigits]

end Libanet
