import Mathlib.Data.Int.CardIntervalMod

/-!
# Taking turns

A list is gone through from its start, and from its start again when it is
over. After any number of turns each element has been taken as often as the
list has been gone through, and those that the last round has reached once
more. So no two of them are further than one apart.
-/

namespace Libanet

variable {α : Type} {l taken : List α}

/-- The elements of `l`, in turn. -/
def TakesTurns (l taken : List α) : Prop :=
  ∀ k, k < taken.length → taken[k]? = l[k % l.length]?

namespace TakesTurns

theorem nil (l : List α) : TakesTurns l [] := fun _ hk => absurd hk (Nat.not_lt_zero _)

theorem concat (h : TakesTurns l taken) {a : α}
    (ha : l[taken.length % l.length]? = some a) : TakesTurns l (taken ++ [a]) := by
  intro k hk
  rw [List.length_append, List.length_singleton] at hk
  by_cases hlast : k = taken.length
  · rw [hlast, ha, List.getElem?_concat_length]
  · rw [List.getElem?_append_left (by omega)]
    exact h k (by omega)

theorem of_concat {a : α} (h : TakesTurns l (taken ++ [a])) :
    TakesTurns l taken ∧ l[taken.length % l.length]? = some a := by
  constructor
  · intro k hk
    have hk' := h k (by rw [List.length_append]; omega)
    rw [List.getElem?_append_left hk] at hk'
    exact hk'
  · have hlast := h taken.length (by rw [List.length_append, List.length_singleton]; omega)
    rw [List.getElem?_concat_length] at hlast
    exact hlast.symm

/-- An element is taken in the turns that leave its index as a remainder. -/
theorem count_eq [BEq α] [LawfulBEq α] (hl : l.Nodup) {i : Nat} (hi : i < l.length)
    (h : TakesTurns l taken) :
    taken.count l[i] = Nat.count (· ≡ i [MOD l.length]) taken.length := by
  induction taken using List.reverseRecOn with
  | nil => rfl
  | append_singleton taken a ih =>
      obtain ⟨hturns, ha⟩ := h.of_concat
      obtain ⟨hlt, hget⟩ := List.getElem?_eq_some_iff.mp ha
      have hsame : a = l[i] ↔ taken.length ≡ i [MOD l.length] := by
        rw [← hget, hl.getElem_inj_iff, Nat.ModEq, Nat.mod_eq_of_lt hi]
      rw [List.count_append, ih hturns, List.length_append, List.length_singleton,
        Nat.count_succ, List.count_singleton]
      simp only [beq_iff_eq, hsame]

theorem count_eq_div [BEq α] [LawfulBEq α] (hl : l.Nodup) {i : Nat} (hi : i < l.length)
    (h : TakesTurns l taken) : taken.count l[i] =
      taken.length / l.length + if i < taken.length % l.length then 1 else 0 := by
  rw [h.count_eq hl hi, Nat.count_modEq_card _ (Nat.zero_lt_of_lt hi), Nat.mod_eq_of_lt hi]

/-- No two elements are further than one turn apart. -/
theorem fair [BEq α] [LawfulBEq α] (hl : l.Nodup) (h : TakesTurns l taken) {a b : α}
    (ha : a ∈ l) (hb : b ∈ l) : taken.count a ≤ taken.count b + 1 := by
  obtain ⟨i, hi, rfl⟩ := List.getElem_of_mem ha
  obtain ⟨j, hj, rfl⟩ := List.getElem_of_mem hb
  rw [h.count_eq_div hl hi, h.count_eq_div hl hj]
  split
  · omega
  · omega

end TakesTurns

end Libanet
