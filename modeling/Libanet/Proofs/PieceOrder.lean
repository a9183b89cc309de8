import Libanet.Base.StringPiece
import Libanet.Lib.SortedText

/-!
# The order of `StringPiece`s

`memcmp` compares as many bytes as the shorter piece has, and the lengths
decide where these agree. This is the order of the bytes as strings, since a
list is before another one if it differs from it upwards or ends first. All
six operators and `compare` are answers to the same two questions, which of
the two the common bytes put first, and which is longer.

The lengths are those of an `int`. Nothing behind a piece is read.
-/

namespace Libanet

/-! ## Lists up to a length -/

section

variable {β : Type} [LT β]

omit [LT β] in
theorem take_eq_take_append {x : List β} {n : Nat} (h : n ≤ x.length) :
    x = x.take n ++ x.drop n ∧ (x.take n).length = n :=
  ⟨(List.take_append_drop n x).symm, List.length_take_of_le h⟩

theorem nil_lt_iff {l : List β} : [] < l ↔ 0 < l.length := by
  cases l with
  | nil => simp
  | cons a l => simp

/-- What the common length decides, and what the ends. -/
theorem lt_iff_take {x y : List β} :
    x < y ↔ x.take (min x.length y.length) < y.take (min x.length y.length) ∨
      x.take (min x.length y.length) = y.take (min x.length y.length) ∧ x.length < y.length := by
  obtain ⟨hx, hxlen⟩ := take_eq_take_append (x := x) (Nat.min_le_left x.length y.length)
  obtain ⟨hy, hylen⟩ := take_eq_take_append (x := y) (Nat.min_le_right x.length y.length)
  have hends : x.drop (min x.length y.length) < y.drop (min x.length y.length) ↔
      x.length < y.length := by
    rcases Nat.le_total x.length y.length with hle | hle
    · rw [Nat.min_eq_left hle, List.drop_length, nil_lt_iff, List.length_drop]
      omega
    · rw [Nat.min_eq_right hle, List.drop_length]
      exact ⟨fun h => absurd h (List.not_lt_nil _), fun h => by omega⟩
  have happend := append_lt_append_iff (hxlen.trans hylen.symm)
    (u := x.drop (min x.length y.length)) (v := y.drop (min x.length y.length))
  rwa [← hx, ← hy, hends] at happend

omit [LT β] in
theorem eq_iff_take {x y : List β} :
    x = y ↔ x.take (min x.length y.length) = y.take (min x.length y.length) ∧
      x.length = y.length := by
  constructor
  · rintro rfl
    exact ⟨rfl, rfl⟩
  · rintro ⟨htake, hlen⟩
    rwa [hlen, Nat.min_self, List.take_length, ← hlen, List.take_length] at htake

end

theorem bytes_gt_iff (x y : List UInt8) : y < x ↔ ¬ x < y ∧ x ≠ y := by
  constructor
  · intro hlt
    refine ⟨List.lt_asymm hlt, fun heq => ?_⟩
    rw [heq] at hlt
    exact List.lt_irrefl y hlt
  · intro h
    by_contra hno
    exact h.2 (List.le_antisymm (List.not_lt.mp hno) (List.not_lt.mp h.1))

/-! ## Pieces -/

namespace StringPiece

variable {m : Memcmp} {p q : StringPiece} {x y : List UInt8}

theorem sizeOfInt_natCast {n : Nat} (h : n < 2 ^ 31) : sizeOfInt n = n := by
  unfold sizeOfInt
  omega

theorem Is.length_le (h : p.Is x) : x.length ≤ p.data.length := by
  have hlen := congrArg List.length h.2
  rw [List.length_take] at hlen
  omega

theorem Is.take (h : p.Is x) {n : Nat} (hn : n ≤ x.length) : p.data.take n = x.take n := by
  rw [← h.2, List.take_take, Nat.min_eq_left hn]

/-- Inside the pieces `memcmp` compares their bytes. -/
theorem memcmp_eq (hp : p.Is x) (hq : q.Is y) {n : Nat} (hn : n < 2 ^ 31)
    (hnx : n ≤ x.length) (hny : n ≤ y.length) :
    memcmp m n p q = .ok (m.cmp (x.take n) (y.take n)) := by
  have hlp := hp.length_le
  have hlq := hq.length_le
  rw [memcmp, sizeOfInt_natCast hn, if_pos (by omega), hp.take hnx, hq.take hny]

/-- The `memcmp` of all comparisons but `==`, and what its answer says. -/
theorem memcmp_common (hp : p.Is x) (hq : q.Is y) (hx : x.length < 2 ^ 31)
    (hy : y.length < 2 ^ 31) :
    ∃ r, memcmp m (if p.size < q.size then p.size else q.size) p q = .ok r ∧
      (r < 0 ∨ r = 0 ∧ p.size < q.size ↔ x < y) ∧
      (r = 0 ∧ p.size = q.size ↔ x = y) := by
  have hsize : (if p.size < q.size then p.size else q.size) =
      ((min x.length y.length : Nat) : Int) := by
    rw [hp.1, hq.1]
    split <;> omega
  have hlen : (x.take (min x.length y.length)).length =
      (y.take (min x.length y.length)).length := by
    rw [List.length_take, List.length_take]
    omega
  refine ⟨m.cmp (x.take (min x.length y.length)) (y.take (min x.length y.length)), ?_, ?_, ?_⟩
  · rw [hsize]
    exact memcmp_eq hp hq (by omega) (Nat.min_le_left _ _) (Nat.min_le_right _ _)
  · rw [m.neg_iff _ _ hlen, m.zero_iff _ _ hlen, hp.1, hq.1, Int.ofNat_lt]
    exact lt_iff_take.symm
  · rw [m.zero_iff _ _ hlen, hp.1, hq.1, Int.ofNat_inj]
    exact eq_iff_take.symm

/-- A predicate of the family asks for the sign of what `memcmp` answers, or
for the lengths. -/
theorem binaryPredicate_eq (hp : p.Is x) (hq : q.Is y) (hx : x.length < 2 ^ 31)
    (hy : y.length < 2 ^ 31) (cmp auxcmp : Int → Int → Bool) {P : Prop} [Decidable P]
    (hP : ∀ r : Int, (x < y ↔ r < 0 ∨ r = 0 ∧ p.size < q.size) →
      (y < x ↔ 0 < r ∨ r = 0 ∧ q.size < p.size) →
      (P ↔ auxcmp r 0 = true ∨ r = 0 ∧ cmp p.size q.size = true)) :
    binaryPredicate cmp auxcmp m p q = .ok (decide P) := by
  obtain ⟨r, hr, hlt, heq⟩ := memcmp_common (m := m) hp hq hx hy
  have hgt : y < x ↔ 0 < r ∨ r = 0 ∧ q.size < p.size := by
    rw [bytes_gt_iff, ne_eq, ← hlt, ← heq]
    omega
  unfold binaryPredicate
  rw [hr]
  refine congrArg Except.ok (Bool.eq_iff_iff.mpr ?_)
  rw [decide_eq_true_iff, hP r hlt.symm hgt, Bool.or_eq_true, Bool.and_eq_true, decide_eq_true_iff]

theorem eq_eq (hp : p.Is x) (hq : q.Is y) (hx : x.length < 2 ^ 31) :
    p.eq m q = .ok (decide (x = y)) := by
  unfold eq
  split
  · next hsize =>
      have hlen : x.length = y.length := by
        rw [hp.1, hq.1] at hsize
        exact Int.ofNat_inj.mp hsize
      rw [hp.1, memcmp_eq hp hq hx (Nat.le_refl _) (Nat.le_of_eq hlen), List.take_length, hlen,
        List.take_length]
      refine congrArg Except.ok (Bool.eq_iff_iff.mpr ?_)
      rw [decide_eq_true_iff, decide_eq_true_iff]
      exact m.zero_iff x y hlen
  · next hsize =>
      have hne : x ≠ y := by
        intro hxy
        rw [hp.1, hq.1, hxy] at hsize
        exact hsize rfl
      rw [decide_eq_false hne]

theorem starts_with_eq (hp : p.Is x) (hq : q.Is y) (hy : y.length < 2 ^ 31) :
    p.starts_with m q = .ok (decide (y <+: x)) := by
  unfold starts_with
  rw [hp.1, hq.1]
  split
  · next hle =>
      have hle : y.length ≤ x.length := Int.ofNat_le.mp hle
      have hlen : (x.take y.length).length = y.length := List.length_take_of_le hle
      rw [memcmp_eq hp hq hy hle (Nat.le_refl _), List.take_length]
      refine congrArg Except.ok (Bool.eq_iff_iff.mpr ?_)
      rw [decide_eq_true_iff, decide_eq_true_iff, m.zero_iff _ _ hlen,
        List.prefix_iff_eq_take]
      exact eq_comm
  · next hlt =>
      have hno : ¬ y <+: x := by
        intro hprefix
        exact hlt (Int.ofNat_le.mpr hprefix.length_le)
      rw [decide_eq_false hno]

theorem compare_spec (hp : p.Is x) (hq : q.Is y) (hx : x.length < 2 ^ 31)
    (hy : y.length < 2 ^ 31) :
    ∃ r, p.compare m q = .ok r ∧ (r < 0 ↔ x < y) ∧ (r = 0 ↔ x = y) := by
  obtain ⟨r, hr, hlt, heq⟩ := memcmp_common (m := m) hp hq hx hy
  unfold compare
  rw [hr, ← hlt, ← heq]
  by_cases hzero : r = 0
  · subst hzero
    rcases lt_trichotomy p.size q.size with hsize | hsize | hsize
    · exact ⟨-1, by simp only [ok_bind, if_true, if_pos hsize]; rfl, by omega, by omega⟩
    · refine ⟨0, ?_, by omega, by omega⟩
      simp only [ok_bind, if_true, hsize, gt_iff_lt, lt_irrefl, if_false]
      rfl
    · refine ⟨1, ?_, by omega, by omega⟩
      simp only [ok_bind, if_true, gt_iff_lt, if_pos hsize, if_neg (lt_asymm hsize)]
      rfl
  · refine ⟨r, ?_, by omega, by omega⟩
    simp only [ok_bind, if_neg hzero]
    rfl

/-! ## An answer of `memcmp` -/

/-- The difference of the first bytes that differ. -/
def byteDifference : List UInt8 → List UInt8 → Int
  | a :: as, b :: bs => if a = b then byteDifference as bs else a.toNat - b.toNat
  | _, _ => 0

theorem byteDifference_spec (x y : List UInt8) (hlen : x.length = y.length) :
    (byteDifference x y < 0 ↔ x < y) ∧ (byteDifference x y = 0 ↔ x = y) := by
  induction x generalizing y with
  | nil =>
      rw [List.length_eq_zero_iff.mp hlen.symm]
      simp [byteDifference]
  | cons a as ih =>
      cases y with
      | nil => cases hlen
      | cons b bs =>
          obtain ⟨hneg, hzero⟩ := ih bs (Nat.succ.inj hlen)
          rw [byteDifference, List.cons_lt_cons_iff, List.cons_eq_cons]
          split
          · next hab =>
              subst hab
              simp [hneg, hzero]
          · next hab =>
              have hnat : a.toNat ≠ b.toNat := fun h => hab (UInt8.toNat_inj.mp h)
              rw [UInt8.lt_iff_toNat_lt]
              simp only [hab, false_and, or_false, iff_false]
              omega

/-- A `memcmp` that answers so. -/
def differenceMemcmp : Memcmp where
  cmp := byteDifference
  neg_iff x y hlen := (byteDifference_spec x y hlen).1
  zero_iff x y hlen := (byteDifference_spec x y hlen).2

/-! ## Comparing -/

/-- Pieces compare as the strings of their bytes do, whatever `memcmp` answers
besides the sign, and without reading behind them: the operators are the
lexicographic order, `compare` has its sign, and `starts_with` finds a prefix. -/
theorem compares_as_strings (m : Memcmp) (hp : p.Is x) (hq : q.Is y) (hx : x.length < 2 ^ 31)
    (hy : y.length < 2 ^ 31) :
    (p.eq m q = .ok (decide (x = y)) ∧ p.ne m q = .ok (decide (x ≠ y))) ∧
    (p.lt m q = .ok (decide (x < y)) ∧ p.le m q = .ok (decide (x ≤ y)) ∧
      p.ge m q = .ok (decide (y ≤ x)) ∧ p.gt m q = .ok (decide (y < x))) ∧
    (∃ r, p.compare m q = .ok r ∧ (r < 0 ↔ x < y) ∧ (r = 0 ↔ x = y) ∧ (0 < r ↔ y < x)) ∧
    p.starts_with m q = .ok (decide (y <+: x)) := by
  refine ⟨⟨eq_eq hp hq hx, ?_⟩, ⟨?_, ?_, ?_, ?_⟩, ?_, starts_with_eq hp hq hy⟩
  · unfold ne
    rw [eq_eq hp hq hx]
    exact congrArg Except.ok (decide_not).symm
  · refine binaryPredicate_eq hp hq hx hy _ _ fun r hlt hgt => ?_
    rw [hlt, decide_eq_true_iff, decide_eq_true_iff]
  · refine binaryPredicate_eq hp hq hx hy _ _ fun r hlt hgt => ?_
    rw [← List.not_lt, hgt, decide_eq_true_iff, decide_eq_true_iff]
    omega
  · refine binaryPredicate_eq hp hq hx hy _ _ fun r hlt hgt => ?_
    rw [← List.not_lt, hlt, decide_eq_true_iff, decide_eq_true_iff]
    omega
  · refine binaryPredicate_eq hp hq hx hy _ _ fun r hlt hgt => ?_
    rw [hgt, decide_eq_true_iff, decide_eq_true_iff]
  · obtain ⟨r, hr, hlt, heq⟩ := compare_spec (m := m) hp hq hx hy
    refine ⟨r, hr, hlt, heq, ?_⟩
    rw [bytes_gt_iff, ne_eq, ← hlt, ← heq]
    omega

theorem compares_as_strings_prefixOfName :
    let p := ofString [97, 98, 99]
    let q := ofString [97, 98]
    (p.eq differenceMemcmp q = .ok (decide ([97, 98, 99] = ([97, 98] : List UInt8))) ∧
        p.ne differenceMemcmp q = .ok (decide ([97, 98, 99] ≠ ([97, 98] : List UInt8)))) ∧
      q.lt differenceMemcmp p = .ok true :=
  ⟨(compares_as_strings differenceMemcmp (p := ofString [97, 98, 99]) (q := ofString [97, 98])
      (x := [97, 98, 99]) (y := [97, 98]) ⟨rfl, rfl⟩ ⟨rfl, rfl⟩ (by decide) (by decide)).1,
    (compares_as_strings differenceMemcmp (p := ofString [97, 98]) (q := ofString [97, 98, 99])
      (x := [97, 98]) (y := [97, 98, 99]) ⟨rfl, rfl⟩ ⟨rfl, rfl⟩ (by decide) (by decide)).2.1.1⟩

end StringPiece

end Libanet
