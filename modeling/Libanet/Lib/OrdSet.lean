import Mathlib.Data.List.Sort
import Mathlib.Data.List.TakeWhile

/-!
# Ordered sets

A set that is kept in order, as `std::set` is, over any linear order: the
list of its elements, strictly increasing. The order is part of the type,
so no operation can lose it and none has to be proved to keep it twice.

The operations are the ones an ordered container offers: insert and erase,
which say whether they found their element; the first element; and the cut
at a lower bound. Every one of them is described by what it does to
membership, and insert and erase also by a permutation, which is what
counting arguments need.
-/

namespace Libanet

/-- A finite set of `α`, in order. -/
structure OrdSet (α : Type) [LinearOrder α] where
  toList : List α
  sorted : toList.Pairwise (· < ·)

namespace OrdSet

variable {α : Type} [LinearOrder α]

instance : Membership α (OrdSet α) := ⟨fun s a => a ∈ s.toList⟩

instance (a : α) (s : OrdSet α) : Decidable (a ∈ s) :=
  inferInstanceAs (Decidable (a ∈ s.toList))

theorem mem_def {s : OrdSet α} {a : α} : a ∈ s ↔ a ∈ s.toList := Iff.rfl

theorem nodup (s : OrdSet α) : s.toList.Nodup := s.sorted.imp ne_of_lt

/-- The order leaves no choice. -/
theorem eq_of_perm {s t : OrdSet α} (h : s.toList.Perm t.toList) : s = t := by
  have hlist : s.toList = t.toList :=
    h.eq_of_pairwise (fun a b _ _ hab hba => absurd (lt_trans hab hba) (lt_irrefl a))
      s.sorted t.sorted
  cases s
  cases t
  cases hlist
  rfl

theorem eq_of_mem_iff {s t : OrdSet α} (h : ∀ a, a ∈ s ↔ a ∈ t) : s = t :=
  eq_of_perm ((List.perm_ext_iff_of_nodup s.nodup t.nodup).mpr h)

def empty : OrdSet α := ⟨[], .nil⟩

def size (s : OrdSet α) : Nat := s.toList.length

/-- The first element. -/
def begin (s : OrdSet α) : Option α := s.toList.head?

theorem sorted_orderedInsert {l : List α} (h : l.Pairwise (· < ·)) {a : α} (ha : a ∉ l) :
    (l.orderedInsert (· ≤ ·) a).Pairwise (· < ·) := by
  have hle : (l.orderedInsert (· ≤ ·) a).Pairwise (· ≤ ·) :=
    List.Pairwise.orderedInsert a l (h.imp le_of_lt)
  have hnodup : (l.orderedInsert (· ≤ ·) a).Nodup := by
    rw [(List.perm_orderedInsert _ a l).nodup_iff, List.nodup_cons]
    exact ⟨ha, h.imp ne_of_lt⟩
  exact (hle.and hnodup).imp fun hab => lt_of_le_of_ne hab.1 hab.2

def insert (s : OrdSet α) (a : α) : OrdSet α :=
  if h : a ∈ s then s
  else ⟨s.toList.orderedInsert (· ≤ ·) a, sorted_orderedInsert s.sorted h⟩

def erase (s : OrdSet α) (a : α) : OrdSet α :=
  ⟨s.toList.erase a, s.sorted.sublist List.erase_sublist⟩

/-- The elements before the lower bound of `b`. -/
def below (s : OrdSet α) (b : α) : List α := s.toList.takeWhile (· < b)

/-- The elements from the lower bound of `b` on. -/
def above (s : OrdSet α) (b : α) : OrdSet α :=
  ⟨s.toList.dropWhile (· < b), s.sorted.sublist (List.dropWhile_sublist _)⟩

/-! ## Insert and erase -/

theorem insert_perm {s : OrdSet α} {a : α} (h : a ∉ s) :
    (s.insert a).toList.Perm (a :: s.toList) := by
  rw [insert, dif_neg h]
  exact List.perm_orderedInsert _ a s.toList

theorem mem_insert {s : OrdSet α} {a b : α} : b ∈ s.insert a ↔ b = a ∨ b ∈ s := by
  by_cases h : a ∈ s
  · rw [insert, dif_pos h]
    constructor
    · exact .inr
    · rintro (rfl | hb)
      · exact h
      · exact hb
  · rw [mem_def, (insert_perm h).mem_iff, List.mem_cons]
    rfl

theorem perm_erase {s : OrdSet α} {a : α} (h : a ∈ s) :
    s.toList.Perm (a :: (s.erase a).toList) := List.perm_cons_erase h

theorem mem_erase {s : OrdSet α} {a b : α} : b ∈ s.erase a ↔ b ≠ a ∧ b ∈ s :=
  s.nodup.mem_erase_iff

/-! ## The first element -/

theorem begin_eq_none {s : OrdSet α} : s.begin = none ↔ s.toList = [] := List.head?_eq_none_iff

theorem begin_mem {s : OrdSet α} {a : α} (h : s.begin = some a) : a ∈ s :=
  List.mem_of_mem_head? h

theorem begin_le {s : OrdSet α} {a : α} (h : s.begin = some a) {b : α} (hb : b ∈ s) :
    a ≤ b := by
  obtain ⟨l, hl⟩ := List.head?_eq_some_iff.mp h
  have hs := s.sorted
  rw [hl, List.pairwise_cons] at hs
  rw [mem_def, hl, List.mem_cons] at hb
  rcases hb with rfl | hb
  · exact le_refl b
  · exact le_of_lt (hs.1 b hb)

/-! ## The cut at a lower bound -/

theorem below_append_above (s : OrdSet α) (b : α) :
    s.below b ++ (s.above b).toList = s.toList := List.takeWhile_append_dropWhile

theorem sorted_below (s : OrdSet α) (b : α) : (s.below b).Pairwise (· < ·) :=
  s.sorted.sublist (List.takeWhile_sublist _)

/-- In an increasing list, everything behind the first element that is not
below `b` is not below `b` either. -/
theorem not_lt_of_mem_dropWhile {l : List α} (hl : l.Pairwise (· < ·)) {a b : α}
    (h : a ∈ l.dropWhile (· < b)) : ¬a < b := by
  induction l with
  | nil => cases h
  | cons c l ih =>
      rw [List.pairwise_cons] at hl
      by_cases hc : c < b
      · rw [List.dropWhile_cons_of_pos (by simpa using hc)] at h
        exact ih hl.2 h
      · rw [List.dropWhile_cons_of_neg (by simpa using hc), List.mem_cons] at h
        rcases h with rfl | h
        · exact hc
        · exact not_lt_of_gt (lt_of_le_of_lt (not_lt.mp hc) (hl.1 a h))

theorem mem_above {s : OrdSet α} {a b : α} : a ∈ s.above b ↔ a ∈ s ∧ b ≤ a := by
  constructor
  · intro h
    exact ⟨(List.dropWhile_sublist _).mem h, not_lt.mp (not_lt_of_mem_dropWhile s.sorted h)⟩
  · rintro ⟨hs, hb⟩
    rw [mem_def, ← s.below_append_above b, List.mem_append] at hs
    rcases hs with hs | hs
    · have hlt := List.mem_takeWhile_imp hs
      exact absurd hb (not_le.mpr (by simpa using hlt))
    · exact hs

theorem mem_below {s : OrdSet α} {a b : α} : a ∈ s.below b ↔ a ∈ s ∧ a < b := by
  constructor
  · intro h
    refine ⟨?_, by simpa using List.mem_takeWhile_imp h⟩
    rw [mem_def, ← s.below_append_above b]
    exact List.mem_append_left _ h
  · rintro ⟨hs, hb⟩
    rw [mem_def, ← s.below_append_above b, List.mem_append] at hs
    rcases hs with hs | hs
    · exact hs
    · exact absurd hb (not_lt.mpr (mem_above.mp hs).2)

end OrdSet

end Libanet
