import Mathlib.Data.List.Basic

/-!
# The first place a pattern is at

`search` goes through a list from the front and answers with the first place
where a pattern begins. The list may grow at its end while one searches. What
has been found stays the first, and a search that has found nothing need not
begin again from the front, but for the end that is shorter than the pattern.
-/

namespace Libanet

variable {α : Type} [DecidableEq α] {pat xs ys : List α} {k m : Nat}

def search (pat : List α) : List α → Option Nat
  | [] => if pat = [] then some 0 else none
  | x :: xs => if pat <+: x :: xs then some 0 else (search pat xs).map (· + 1)

/-- The pattern begins nowhere before `m`. -/
def NotBefore (pat xs : List α) (m : Nat) : Prop := ∀ j < m, ¬ pat <+: xs.drop j

omit [DecidableEq α] in
theorem notBefore_cons {x : α} (h : ¬ pat <+: x :: xs) :
    NotBefore pat (x :: xs) (m + 1) ↔ NotBefore pat xs m := by
  constructor
  · intro hno j hj
    exact hno (j + 1) (Nat.succ_lt_succ hj)
  · intro hno j hj
    cases j with
    | zero => exact h
    | succ j => exact hno j (Nat.lt_of_succ_lt_succ hj)

theorem search_eq_some_iff :
    search pat xs = some k ↔ pat <+: xs.drop k ∧ NotBefore pat xs k := by
  induction xs generalizing k with
  | nil =>
      rw [search, List.drop_nil, List.prefix_nil]
      split
      · next hnil =>
          rw [Option.some_inj]
          constructor
          · intro hk
            subst hk
            exact ⟨hnil, fun j hj => absurd hj (Nat.not_lt_zero j)⟩
          · intro h
            rcases Nat.eq_zero_or_pos k with hk | hk
            · exact hk.symm
            · exact absurd (by rw [hnil]; exact List.nil_prefix) (h.2 0 hk)
      · next hne => simp [hne]
  | cons x xs ih =>
      rw [search]
      split
      · next hhere =>
          rw [Option.some_inj]
          constructor
          · intro hk
            subst hk
            exact ⟨hhere, fun j hj => absurd hj (Nat.not_lt_zero j)⟩
          · intro h
            rcases Nat.eq_zero_or_pos k with hk | hk
            · exact hk.symm
            · exact absurd hhere (h.2 0 hk)
      · next hno =>
          rw [Option.map_eq_some_iff]
          constructor
          · intro h
            obtain ⟨j, hj, hjk⟩ := h
            subst hjk
            obtain ⟨hat, hbefore⟩ := ih.mp hj
            exact ⟨hat, (notBefore_cons hno).mpr hbefore⟩
          · intro h
            cases k with
            | zero => exact absurd h.1 hno
            | succ k => exact ⟨k, ih.mpr ⟨h.1, (notBefore_cons hno).mp h.2⟩, rfl⟩

theorem search_eq_none_iff : search pat xs = none ↔ ∀ j, ¬ pat <+: xs.drop j := by
  constructor
  · intro hnone j hat
    -- the least such place would have been found
    have hleast : ∃ k, pat <+: xs.drop k ∧ NotBefore pat xs k := by
      induction j using Nat.strongRecOn with
      | ind j ih =>
          by_cases hbefore : NotBefore pat xs j
          · exact ⟨j, hat, hbefore⟩
          · simp only [NotBefore, not_forall, not_not] at hbefore
            obtain ⟨i, hi, hati⟩ := hbefore
            exact ih i hi hati
    obtain ⟨k, hk⟩ := hleast
    cases hnone.symm.trans (search_eq_some_iff.mpr hk)
  · intro hno
    cases hsearch : search pat xs with
    | none => rfl
    | some k => exact absurd (search_eq_some_iff.mp hsearch).1 (hno k)

omit [DecidableEq α] in
/-- Whether the pattern begins somewhere is decided by as many elements as it
has. -/
theorem prefix_drop_append (h : k + pat.length ≤ xs.length) :
    pat <+: (xs ++ ys).drop k ↔ pat <+: xs.drop k := by
  rw [List.drop_append_of_le_length (by omega)]
  constructor
  · intro hat
    exact List.prefix_of_prefix_length_le hat (List.prefix_append _ _)
      (by rw [List.length_drop]; omega)
  · intro hat
    exact hat.trans (List.prefix_append _ _)

omit [DecidableEq α] in
theorem NotBefore.append (h : NotBefore pat xs m) (hm : m + pat.length ≤ xs.length + 1) :
    NotBefore pat (xs ++ ys) m := by
  intro j hj
  rw [prefix_drop_append (by omega)]
  exact h j hj

/-- A search may begin where the pattern has not begun before. -/
theorem search_drop (h : NotBefore pat xs m) :
    search pat xs = (search pat (xs.drop m)).map (m + ·) := by
  cases hrest : search pat (xs.drop m) with
  | none =>
      rw [search_eq_none_iff] at hrest
      rw [Option.map_none, search_eq_none_iff]
      intro j hat
      rcases Nat.lt_or_ge j m with hj | hj
      · exact h j hj hat
      · refine hrest (j - m) ?_
        rw [List.drop_drop, Nat.add_sub_cancel' hj]
        exact hat
  | some k =>
      obtain ⟨hat, hbefore⟩ := search_eq_some_iff.mp hrest
      rw [List.drop_drop] at hat
      rw [Option.map_some]
      refine search_eq_some_iff.mpr ⟨hat, fun j hj hatj => ?_⟩
      rcases Nat.lt_or_ge j m with hjm | hjm
      · exact h j hjm hatj
      · refine hbefore (j - m) (by omega) ?_
        rw [List.drop_drop, Nat.add_sub_cancel' hjm]
        exact hatj

/-- A pattern of one element is found where the element is. -/
theorem search_singleton (c : α) : search [c] xs = xs.findIdx? (· == c) := by
  induction xs with
  | nil => simp [search]
  | cons x xs ih =>
      rw [search, List.findIdx?_cons, ih]
      by_cases hx : x = c
      · rw [if_pos (by simp [hx]), if_pos (by simp [hx])]
      · rw [if_neg (by simpa using fun h => hx h.symm), if_neg (by simpa using hx)]

end Libanet
