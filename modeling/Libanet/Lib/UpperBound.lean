import Mathlib.Data.List.Basic

/-!
# `std::upper_bound`

Binary search for the end of the elements that do not satisfy a predicate,
as the C++ library does it: a range of `len` elements from `first` on is
halved until it is empty. The result is a position of the list whatever the
list is. If no element that satisfies the predicate is followed by one that
does not, it is the position of the first that does.
-/

namespace Libanet

variable {α : Type}

def upperBound.search (p : α → Bool) (l : List α) : Nat → Nat → Nat → Nat
  | 0, first, _ => first
  | fuel + 1, first, len =>
      if len = 0 then first
      else if (l[first + len / 2]?).any p then search p l fuel first (len / 2)
      else search p l fuel (first + len / 2 + 1) (len - len / 2 - 1)

/-- The position `std::upper_bound` answers. `p` is the comparison of the
value that is looked for with an element. -/
def upperBound (p : α → Bool) (l : List α) : Nat := upperBound.search p l l.length 0 l.length

theorem upperBound.search_le (p : α → Bool) (l : List α) (fuel first len : Nat) :
    search p l fuel first len ≤ first + len := by
  induction fuel generalizing first len with
  | zero =>
      rw [search]
      omega
  | succ fuel ih =>
      rw [search]
      split
      · omega
      · split
        · have hle := ih first (len / 2)
          omega
        · have hle := ih (first + len / 2 + 1) (len - len / 2 - 1)
          omega

/-- A position of the list, or its end. -/
theorem upperBound_le (p : α → Bool) (l : List α) : upperBound p l ≤ l.length := by
  have hle := upperBound.search_le p l l.length 0 l.length
  rwa [Nat.zero_add] at hle

/-- `r` parts the list: nothing before it satisfies `p`, and everything from
it on does. -/
structure Parts (p : α → Bool) (l : List α) (r : Nat) : Prop where
  le : r ≤ l.length
  before : ∀ i x, i < r → l[i]? = some x → p x = false
  after : ∀ i x, r ≤ i → l[i]? = some x → p x = true

/-- Once `p` is satisfied, it stays so. -/
def Ascending (p : α → Bool) (l : List α) : Prop :=
  ∀ (i j : Nat) (x y : α), i ≤ j → l[i]? = some x → l[j]? = some y → p x = true → p y = true

theorem upperBound.search_parts {p : α → Bool} {l : List α} (ha : Ascending p l)
    {fuel first len : Nat} (hfuel : len ≤ fuel) (hlen : first + len ≤ l.length)
    (hbefore : ∀ i x, i < first → l[i]? = some x → p x = false)
    (hafter : ∀ i x, first + len ≤ i → l[i]? = some x → p x = true) :
    Parts p l (search p l fuel first len) := by
  induction fuel generalizing first len with
  | zero =>
      rw [search]
      refine ⟨by omega, hbefore, fun i x hi => hafter i x (by omega)⟩
  | succ fuel ih =>
      rw [search]
      by_cases hzero : len = 0
      · rw [if_pos hzero]
        exact ⟨by omega, hbefore, fun i x hi => hafter i x (by omega)⟩
      · rw [if_neg hzero]
        obtain ⟨mid, hmid⟩ : ∃ mid, l[first + len / 2]? = some mid :=
          ⟨_, List.getElem?_eq_getElem (by omega)⟩
        rw [hmid, Option.any_some]
        by_cases hp : p mid = true
        · rw [if_pos hp]
          refine ih (by omega) (by omega) hbefore fun i x hi hx => ?_
          exact ha (first + len / 2) i mid x hi hmid hx hp
        · rw [if_neg hp]
          refine ih (by omega) (by omega) ?_ fun i x hi => hafter i x (by omega)
          intro i x hi hx
          -- what satisfies `p` before the middle would make the middle do so
          by_contra hpx
          exact hp (ha i (first + len / 2) x mid (by omega) hx hmid (by simpa using hpx))

theorem upperBound_parts {p : α → Bool} {l : List α} (ha : Ascending p l) :
    Parts p l (upperBound p l) :=
  upperBound.search_parts ha (Nat.le_refl _) (by omega) (by omega) fun i x hi hx => by
    rw [List.getElem?_eq_none (by omega)] at hx
    cases hx

theorem findIdx_parts {p : α → Bool} {l : List α} (ha : Ascending p l) :
    Parts p l (l.findIdx p) := by
  refine ⟨List.findIdx_le_length, ?_, ?_⟩
  · intro i x hi hx
    obtain ⟨hlen, rfl⟩ := List.getElem?_eq_some_iff.mp hx
    simpa using List.not_of_lt_findIdx hi
  · intro i x hi hx
    have hlen : i < l.length := (List.getElem?_eq_some_iff.mp hx).1
    have hfirst : l.findIdx p < l.length := Nat.lt_of_le_of_lt hi hlen
    exact ha _ i _ x hi (List.getElem?_eq_getElem hfirst) hx List.findIdx_getElem

/-- There is only one way to part a list. -/
theorem Parts.unique {p : α → Bool} {l : List α} {r r' : Nat} (h : Parts p l r)
    (h' : Parts p l r') : r = r' := by
  have hle : ∀ {r r' : Nat}, Parts p l r → Parts p l r' → r ≤ r' := by
    intro r r' h h'
    by_contra hlt
    have hr := h.le
    have hx := List.getElem?_eq_getElem (l := l) (i := r') (by omega)
    have hbefore := h.before r' _ (by omega) hx
    rw [h'.after r' _ (Nat.le_refl _) hx] at hbefore
    cases hbefore
  exact Nat.le_antisymm (hle h h') (hle h' h)

theorem upperBound_eq_findIdx {p : α → Bool} {l : List α} (ha : Ascending p l) :
    upperBound p l = l.findIdx p :=
  (upperBound_parts ha).unique (findIdx_parts ha)

end Libanet
