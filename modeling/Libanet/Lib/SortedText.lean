import Libanet.Lib.Decimal
import Mathlib.Data.List.Induction
import Mathlib.Data.List.Lex
import Mathlib.Data.Prod.Lex

/-!
# Texts that sort

A text sorts by a key when the texts of two values compare byte by byte as
their keys do. A number in digits does when the digits are as many for all
values, and columns of fixed width side by side sort by the first column, then
by the second, and so on. What stands between them for every value alike does
not matter.

`Sorts` says all this of a set of values, and the lemmas put texts together
from their columns. `rekey` goes from the key the columns make to another one
that grows with it, such as a time that is shown as a date.
-/

namespace Libanet

section

variable {β : Type} [LT β]

/-- The first parts decide, if they are of one length and differ. -/
theorem append_lt_append_iff {x y u v : List β} (h : x.length = y.length) :
    x ++ u < y ++ v ↔ x < y ∨ x = y ∧ u < v := by
  induction x generalizing y with
  | nil =>
      obtain rfl := List.length_eq_zero_iff.mp h.symm
      simp
  | cons a x ih =>
      cases y with
      | nil => cases h
      | cons b y =>
          have hrest := ih (Nat.succ.inj h)
          simp only [List.cons_append, List.cons_lt_cons_iff, hrest, List.cons.injEq]
          tauto

omit [LT β] in
theorem append_eq_append_iff_of_length {x y u v : List β} (h : x.length = y.length) :
    x ++ u = y ++ v ↔ x = y ∧ u = v :=
  ⟨fun heq => List.append_inj heq h, fun ⟨hxy, huv⟩ => by rw [hxy, huv]⟩

variable {α κ κ' : Type}

/-- The texts of the values in `S` have `n` bytes, and compare as the keys do. -/
structure Sorts [LT κ] (n : Nat) (key : α → κ) (text : α → List β) (S : α → Prop) : Prop where
  length : ∀ a, S a → (text a).length = n
  lt_iff : ∀ a b, S a → S b → (text a < text b ↔ key a < key b)
  eq_iff : ∀ a b, S a → S b → (text a = text b ↔ key a = key b)

variable {n n' : Nat} {key : α → κ} {text text' : α → List β} {S : α → Prop}

theorem Sorts.subset [LT κ] (h : Sorts n key text S) {S' : α → Prop} (hsub : ∀ a, S' a → S a) :
    Sorts n key text S' where
  length a ha := h.length a (hsub a ha)
  lt_iff a b ha hb := h.lt_iff a b (hsub a ha) (hsub b hb)
  eq_iff a b ha hb := h.eq_iff a b (hsub a ha) (hsub b hb)

theorem Sorts.congr [LT κ] (h : Sorts n key text S) (heq : ∀ a, S a → text' a = text a) :
    Sorts n key text' S where
  length a ha := by rw [heq a ha, h.length a ha]
  lt_iff a b ha hb := by rw [heq a ha, heq b hb, h.lt_iff a b ha hb]
  eq_iff a b ha hb := by rw [heq a ha, heq b hb, h.eq_iff a b ha hb]

/-- The values may be given by something else. -/
theorem Sorts.comp [LT κ] (h : Sorts n key text S) {γ : Type} (f : γ → α) :
    Sorts n (fun c => key (f c)) (fun c => text (f c)) (fun c => S (f c)) where
  length c hc := h.length (f c) hc
  lt_iff c d hc hd := h.lt_iff (f c) (f d) hc hd
  eq_iff c d hc hd := h.eq_iff (f c) (f d) hc hd

/-- Something behind the text, for every value the same. -/
theorem Sorts.followed [LT κ] (h : Sorts n key text S) (sep : List β)
    (hirrefl : ∀ l : List β, ¬ l < l) :
    Sorts (n + sep.length) key (fun a => text a ++ sep) S where
  length a ha := by rw [List.length_append, h.length a ha]
  lt_iff a b ha hb := by
    have hlen := (h.length a ha).trans (h.length b hb).symm
    rw [append_lt_append_iff hlen, h.lt_iff a b ha hb]
    simp [hirrefl]
  eq_iff a b ha hb := by rw [List.append_left_inj, h.eq_iff a b ha hb]

/-- Two columns. -/
theorem Sorts.append [LT κ] [LT κ'] {key' : α → κ'} (h : Sorts n key text S)
    (h' : Sorts n' key' text' S) :
    Sorts (n + n') (fun a => toLex (key a, key' a)) (fun a => text a ++ text' a) S where
  length a ha := by rw [List.length_append, h.length a ha, h'.length a ha]
  lt_iff a b ha hb := by
    have hlen := (h.length a ha).trans (h.length b hb).symm
    rw [append_lt_append_iff hlen, Prod.Lex.toLex_lt_toLex, h.lt_iff a b ha hb,
      h.eq_iff a b ha hb, h'.lt_iff a b ha hb]
  eq_iff a b ha hb := by
    have hlen := (h.length a ha).trans (h.length b hb).symm
    rw [append_eq_append_iff_of_length hlen, h.eq_iff a b ha hb, h'.eq_iff a b ha hb]
    simp

/-- A key that grows with the one the text has. -/
theorem Sorts.rekey [LinearOrder κ] [Preorder κ'] {key' : α → κ'} (h : Sorts n key text S)
    (hlt : ∀ a b, S a → S b → key a < key b → key' a < key' b)
    (heq : ∀ a b, S a → S b → key a = key b → key' a = key' b) : Sorts n key' text S where
  length := h.length
  lt_iff a b ha hb := by
    rw [h.lt_iff a b ha hb]
    constructor
    · exact hlt a b ha hb
    · intro hab
      rcases lt_trichotomy (key a) (key b) with hk | hk | hk
      · exact hk
      · rw [heq a b ha hb hk] at hab
        exact absurd hab (lt_irrefl _)
      · exact absurd hab (lt_asymm (hlt b a hb ha hk))
  eq_iff a b ha hb := by
    rw [h.eq_iff a b ha hb]
    constructor
    · exact heq a b ha hb
    · intro hab
      rcases lt_trichotomy (key a) (key b) with hk | hk | hk
      · have hlt' := hlt a b ha hb hk
        rw [hab] at hlt'
        exact absurd hlt' (lt_irrefl _)
      · exact hk
      · have hlt' := hlt b a hb ha hk
        rw [hab] at hlt'
        exact absurd hlt' (lt_irrefl _)

/-- It is enough that the text grows with the key. -/
theorem Sorts.of_mono [LinearOrder κ] (hirrefl : ∀ l : List β, ¬ l < l)
    (htrans : ∀ l m k : List β, l < m → m < k → l < k)
    (hlen : ∀ a, S a → (text a).length = n)
    (hlt : ∀ a b, S a → S b → key a < key b → text a < text b)
    (heq : ∀ a b, S a → S b → key a = key b → text a = text b) : Sorts n key text S where
  length := hlen
  lt_iff a b ha hb := by
    constructor
    · intro hab
      rcases lt_trichotomy (key a) (key b) with hk | hk | hk
      · exact hk
      · rw [heq a b ha hb hk] at hab
        exact absurd hab (hirrefl _)
      · exact absurd (htrans _ _ _ hab (hlt b a hb ha hk)) (hirrefl _)
    · exact hlt a b ha hb
  eq_iff a b ha hb := by
    constructor
    · intro hab
      rcases lt_trichotomy (key a) (key b) with hk | hk | hk
      · have hlt' := hlt a b ha hb hk
        rw [hab] at hlt'
        exact absurd hlt' (hirrefl _)
      · exact hk
      · have hlt' := hlt b a hb ha hk
        rw [hab] at hlt'
        exact absurd hlt' (hirrefl _)
    · exact heq a b ha hb

end

/-! ## Digits -/

/-- Digits that are as many compare as the numbers they stand for. -/
theorem digits_compare {x y : List UInt8} (hx : ∀ c ∈ x, IsDigit c) (hy : ∀ c ∈ y, IsDigit c)
    (h : x.length = y.length) :
    (x < y ↔ decimalValue x < decimalValue y) ∧ (x = y ↔ decimalValue x = decimalValue y) := by
  induction x using List.reverseRecOn generalizing y with
  | nil =>
      obtain rfl := List.length_eq_zero_iff.mp h.symm
      simp
  | append_singleton x c ih =>
      induction y using List.reverseRecOn with
      | nil => simp at h
      | append_singleton y d _ =>
          have hlen : x.length = y.length := by simpa using h
          obtain ⟨hlt, heq⟩ := ih (fun e he => hx e (List.mem_append_left _ he))
            (fun e he => hy e (List.mem_append_left _ he)) hlen
          have hc := hx c (by simp)
          have hd := hy d (by simp)
          unfold IsDigit at hc hd
          have hcd : [c] < [d] ↔ c.toNat < d.toNat := by
            simp [List.cons_lt_cons_iff, UInt8.lt_iff_toNat_lt]
          have hceq : c = d ↔ c.toNat = d.toNat := UInt8.toNat_inj.symm
          rw [append_lt_append_iff hlen, append_eq_append_iff_of_length hlen, hlt, heq, hcd,
            decimalValue_concat, decimalValue_concat, List.singleton_inj, hceq]
          constructor <;> omega

/-- A column of digits. -/
theorem Sorts.ofDigits {α : Type} {n : Nat} {key : α → Nat} {text : α → List UInt8}
    {S : α → Prop} (hlen : ∀ a, S a → (text a).length = n)
    (hdigits : ∀ a, S a → ∀ c ∈ text a, IsDigit c)
    (hvalue : ∀ a, S a → decimalValue (text a) = key a) : Sorts n key text S where
  length := hlen
  lt_iff a b ha hb := by
    rw [(digits_compare (hdigits a ha) (hdigits b hb) ((hlen a ha).trans (hlen b hb).symm)).1,
      hvalue a ha, hvalue b hb]
  eq_iff a b ha hb := by
    rw [(digits_compare (hdigits a ha) (hdigits b hb) ((hlen a ha).trans (hlen b hb).symm)).2,
      hvalue a ha, hvalue b hb]

end Libanet
