import Mathlib.Algebra.Order.Ring.Int

/-!
# Positional notation

A number in a base up to sixteen, as `Nat.toDigits` writes it, and the value
of a text of digits. Everything about a printed number goes by one induction:
it is a single digit, or its last digit behind the text of the rest.
-/

namespace Libanet

/-- What a character counts for as a digit, in either case. -/
def digitValue (c : Char) : Option Nat :=
  if '0' ≤ c ∧ c ≤ '9' then some (c.toNat - 48)
  else if 'a' ≤ c ∧ c ≤ 'f' then some (c.toNat - 87)
  else if 'A' ≤ c ∧ c ≤ 'F' then some (c.toNat - 55)
  else none

/-- A text of digits read on from `v`. -/
def digitsValue (b v : Nat) : List Char → Option Nat
  | [] => some v
  | c :: cs => (digitValue c).bind fun d => digitsValue b (b * v + d) cs

theorem digitValue_digitChar {k : Nat} (h : k < 16) : digitValue (Nat.digitChar k) = some k := by
  have hall : ∀ k < 16, digitValue (Nat.digitChar k) = some k := by decide
  exact hall k h

theorem digitsValue_append (b v : Nat) (cs ds : List Char) :
    digitsValue b v (cs ++ ds) = (digitsValue b v cs).bind fun w => digitsValue b w ds := by
  induction cs generalizing v with
  | nil => rfl
  | cons c cs ih =>
      rw [List.cons_append, digitsValue, digitsValue]
      cases digitValue c with
      | none => rfl
      | some d => exact ih (b * v + d)

theorem digitsValue_of_digits (b v : Nat) {cs : List Char}
    (h : ∀ c ∈ cs, ∃ d, digitValue c = some d) : ∃ w, digitsValue b v cs = some w := by
  induction cs generalizing v with
  | nil => exact ⟨v, rfl⟩
  | cons c cs ih =>
      obtain ⟨d, hd⟩ := h c List.mem_cons_self
      obtain ⟨w, hw⟩ := ih (b * v + d) fun c' hc' => h c' (List.mem_cons_of_mem c hc')
      exact ⟨w, by rw [digitsValue, hd, Option.bind_some, hw]⟩

/-- A number is a digit, or a digit behind a number. -/
theorem digits_induction {b : Nat} (hb : 1 < b) {P : Nat → Prop} (hdigit : ∀ n < b, P n)
    (hstep : ∀ n, b ≤ n → P (n / b) → P n) (n : Nat) : P n := by
  induction n using Nat.strongRecOn with
  | ind n ih =>
      by_cases hlt : n < b
      · exact hdigit n hlt
      · exact hstep n (by omega) (ih (n / b) (Nat.div_lt_self (by omega) hb))

/-- What is written reads back. -/
theorem digitsValue_toDigits {b : Nat} (hb : 1 < b) (hb' : b ≤ 16) (n : Nat) :
    digitsValue b 0 (Nat.toDigits b n) = some n := by
  induction n using digits_induction hb with
  | hdigit n hlt =>
      rw [Nat.toDigits_of_lt_base hlt, digitsValue, digitValue_digitChar (by omega)]
      simp [digitsValue]
  | hstep n hge ih =>
      have hmod : n % b < b := Nat.mod_lt n (by omega)
      rw [Nat.toDigits_of_base_le hb hge, digitsValue_append, ih]
      simp only [Option.bind_some, digitsValue, digitValue_digitChar (show n % b < 16 by omega)]
      rw [Nat.div_add_mod]

/-- Different numbers are written differently. -/
theorem toDigits_injective {b : Nat} (hb : 1 < b) (hb' : b ≤ 16) {m n : Nat}
    (h : Nat.toDigits b m = Nat.toDigits b n) : m = n := by
  have hm := digitsValue_toDigits hb hb' m
  rw [h, digitsValue_toDigits hb hb' n] at hm
  exact (Option.some.inj hm).symm

/-- A written number consists of digits of its base. -/
theorem digitValue_of_mem_toDigits {b : Nat} (hb : 1 < b) (hb' : b ≤ 16) (n : Nat) :
    ∀ c ∈ Nat.toDigits b n, ∃ d < b, digitValue c = some d := by
  induction n using digits_induction hb with
  | hdigit n hlt =>
      intro c hc
      rw [Nat.toDigits_of_lt_base hlt, List.mem_singleton] at hc
      exact ⟨n, hlt, by rw [hc, digitValue_digitChar (by omega)]⟩
  | hstep n hge ih =>
      have hmod : n % b < b := Nat.mod_lt n (by omega)
      intro c hc
      rw [Nat.toDigits_of_base_le hb hge, List.mem_append, List.mem_singleton] at hc
      rcases hc with hc | hc
      · exact ih c hc
      · exact ⟨n % b, hmod, by rw [hc, digitValue_digitChar (by omega)]⟩

/-- A written number begins with a digit. -/
theorem toDigits_cons {b : Nat} (hb : 1 < b) (hb' : b ≤ 16) (n : Nat) :
    ∃ c cs d, Nat.toDigits b n = c :: cs ∧ digitValue c = some d := by
  obtain ⟨c, cs, htext⟩ := List.exists_cons_of_ne_nil (Nat.toDigits_ne_nil (b := b) (n := n))
  obtain ⟨d, _, hd⟩ := digitValue_of_mem_toDigits hb hb' n c (by rw [htext]; exact .head cs)
  exact ⟨c, cs, d, htext, hd⟩

end Libanet
