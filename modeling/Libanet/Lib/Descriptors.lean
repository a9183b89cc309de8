import Mathlib.Data.List.Basic

/-!
# The descriptor table of a process

All threads of a process share one table of open descriptors. A call that
makes one is given the lowest number that is free, and fails when there is
none below the limit of the process. A call that closes one takes a number
and does not ask whose it is: a number that was closed before, and handed out
again since, is closed for whoever has it now.

So the table here also remembers what each descriptor was opened as, which
is what "whose it is" can be stated about. A number is an `Int` where the code
keeps it in an `int`, and negative where a call has failed.
-/

namespace Libanet

/-- `ω` is what a descriptor can be. -/
structure DescriptorTable (ω : Type) where
  owner : Nat → Option ω
  limit : Nat

namespace DescriptorTable

variable {ω : Type}

/-- What the number stands for. -/
def at? (t : DescriptorTable ω) : Int → Option ω
  | .ofNat n => t.owner n
  | .negSucc _ => none

/-- The number the next descriptor gets. -/
def lowest (t : DescriptorTable ω) : Option Nat :=
  (List.range t.limit).find? fun n => (t.owner n).isNone

def set (n : Nat) (w : Option ω) (t : DescriptorTable ω) : DescriptorTable ω :=
  { t with owner := fun m => if m = n then w else t.owner m }

/-- `::close`. -/
def close (t : DescriptorTable ω) : Int → DescriptorTable ω
  | .ofNat n => t.set n none
  | .negSucc _ => t

/-- A call that makes a descriptor: its number, or -1 when the table is
full. -/
def openAs (w : ω) (t : DescriptorTable ω) : Int × DescriptorTable ω :=
  match t.lowest with
  | some n => (n, t.set n (some w))
  | none => (-1, t)

@[simp] theorem at?_natCast (t : DescriptorTable ω) (n : Nat) : t.at? n = t.owner n := rfl

@[simp] theorem at?_neg_one (t : DescriptorTable ω) : t.at? (-1) = none := rfl

theorem owner_set (t : DescriptorTable ω) (n m : Nat) (w : Option ω) :
    (t.set n w).owner m = if m = n then w else t.owner m := rfl

@[simp] theorem owner_set_self (t : DescriptorTable ω) (n : Nat) (w : Option ω) :
    (t.set n w).owner n = w := if_pos rfl

@[simp] theorem close_natCast (t : DescriptorTable ω) (n : Nat) : t.close n = t.set n none := rfl

@[simp] theorem limit_set (t : DescriptorTable ω) (n : Nat) (w : Option ω) :
    (t.set n w).limit = t.limit := rfl

@[simp] theorem close_neg_one (t : DescriptorTable ω) : t.close (-1) = t := rfl

theorem lowest_eq_some {t : DescriptorTable ω} {n : Nat} :
    t.lowest = some n ↔ n < t.limit ∧ t.owner n = none ∧ ∀ m < n, (t.owner m).isSome := by
  rw [lowest, List.find?_range_eq_some]
  simp [Option.isSome_iff_ne_none, and_left_comm]

theorem lowest_eq_none {t : DescriptorTable ω} :
    t.lowest = none ↔ ∀ m < t.limit, (t.owner m).isSome := by
  simp [lowest, List.find?_eq_none, Option.isSome_iff_ne_none]

/-- Nobody has the number a new descriptor gets. -/
theorem owner_lowest {t : DescriptorTable ω} {n : Nat} (h : t.lowest = some n) :
    t.owner n = none := (lowest_eq_some.mp h).2.1

/-- In a table that was full, the number given back is the one that is given
out next. -/
theorem lowest_set_of_full {t : DescriptorTable ω} {n : Nat} (hfull : t.lowest = none)
    (hn : n < t.limit) : (t.set n none).lowest = some n := by
  rw [lowest_eq_some]
  refine ⟨hn, if_pos rfl, ?_⟩
  intro m hm
  rw [owner_set, if_neg (Nat.ne_of_lt hm)]
  exact lowest_eq_none.mp hfull m (Nat.lt_trans hm hn)

@[simp] theorem set_set (t : DescriptorTable ω) (n : Nat) (w w' : Option ω) :
    (t.set n w).set n w' = t.set n w' := by
  unfold set
  congr 1
  funext m
  by_cases hm : m = n
  · simp only [if_pos hm]
  · simp only [if_neg hm]

@[simp] theorem set_owner (t : DescriptorTable ω) (n : Nat) : t.set n (t.owner n) = t := by
  unfold set
  congr 1
  funext m
  split
  · next hm => rw [hm]
  · rfl

@[simp] theorem limit_close (t : DescriptorTable ω) (fd : Int) : (t.close fd).limit = t.limit := by
  cases fd with
  | ofNat n => rfl
  | negSucc n => rfl

theorem openAs_of_full {t : DescriptorTable ω} (h : t.lowest = none) (w : ω) :
    t.openAs w = (-1, t) := by
  rw [openAs, h]

theorem openAs_of_lowest {t : DescriptorTable ω} {n : Nat} (h : t.lowest = some n) (w : ω) :
    t.openAs w = ((n : Int), t.set n (some w)) := by
  rw [openAs, h]

/-- What a call that makes a descriptor does to the table, whoever makes it:
it changes one entry at most, and one that was free. -/
theorem openAs_cases (t : DescriptorTable ω) (w : ω) :
    (t.lowest = none ∧ t.openAs w = (-1, t)) ∨
      ∃ n : Nat, t.owner n = none ∧ t.openAs w = ((n : Int), t.set n (some w)) := by
  cases h : t.lowest with
  | none => exact Or.inl ⟨rfl, openAs_of_full h w⟩
  | some n => exact Or.inr ⟨n, owner_lowest h, openAs_of_lowest h w⟩

@[simp] theorem limit_openAs (t : DescriptorTable ω) (w : ω) :
    (t.openAs w).2.limit = t.limit := by
  obtain ⟨-, hs⟩ | ⟨n, -, hs⟩ := t.openAs_cases w
  · rw [hs]
  · rw [hs]
    rfl

theorem openAs_lt_limit (t : DescriptorTable ω) (w : ω) : (t.openAs w).1 < t.limit := by
  cases h : t.lowest with
  | none =>
      simp only [openAs_of_full h]
      omega
  | some n =>
      rw [openAs_of_lowest h]
      exact Int.ofNat_lt.mpr (lowest_eq_some.mp h).1

theorem openAs_ge (t : DescriptorTable ω) (w : ω) : -1 ≤ (t.openAs w).1 := by
  obtain ⟨-, hs⟩ | ⟨n, -, hs⟩ := t.openAs_cases w
  · simp [hs]
  · simp only [hs]
    omega

/-! ## Keeping track

A component of the process knows its descriptors from variables of its own.
`Tallies` says that these are exactly the ones it has in the table: it has
lost none, and none it would use belongs to somebody else. -/

section Tallies

/-- Of what is `mine`, the table has just what is `held`. -/
def Tallies (mine : ω → Bool) (held : List (Int × ω)) (t : DescriptorTable ω) : Prop :=
  ∀ (n : Nat) (w : ω), mine w = true → (t.owner n = some w ↔ ((n : Int), w) ∈ held)

variable {mine : ω → Bool} {held : List (Int × ω)} {t : DescriptorTable ω} {w : ω}

theorem Tallies.nil (h : ∀ n w, t.owner n = some w → mine w = false) : Tallies mine [] t := by
  intro n w hw
  simp only [List.not_mem_nil, iff_false]
  intro ho
  rw [h n w ho] at hw
  cases hw

/-- An entry changes that is not the component's, and does not become so. -/
theorem Tallies.set_other (h : Tallies mine held t) {n : Nat} {w' : Option ω}
    (hold : ∀ w, t.owner n = some w → mine w = false)
    (hnew : ∀ w, w' = some w → mine w = false) : Tallies mine held (t.set n w') := by
  intro m w hw
  rw [← h m w hw, owner_set]
  split
  · next hm =>
      subst hm
      constructor
      · intro hs
        rw [hnew w hs] at hw
        cases hw
      · intro hs
        rw [hold w hs] at hw
        cases hw
  · rfl

theorem Tallies.openAs_other (h : Tallies mine held t) (hw : mine w = false) :
    Tallies mine held (t.openAs w).2 := by
  obtain ⟨-, hs⟩ | ⟨n, hfree, hs⟩ := t.openAs_cases w
  · rw [hs]
    exact h
  · rw [hs]
    refine h.set_other (fun v hv => ?_) fun v hv => ?_
    · rw [hfree] at hv
      cases hv
    · cases hv
      exact hw

theorem Tallies.close_other (h : Tallies mine held t) {n : Nat}
    (hold : ∀ w, t.owner n = some w → mine w = false) : Tallies mine held (t.close n) :=
  h.set_other hold nofun

/-- The component opens one: the number is held, if there is one. -/
theorem Tallies.openAs (h : Tallies mine held t) (w : ω) :
    Tallies mine (((t.openAs w).1, w) :: held) (t.openAs w).2 := by
  intro m v hv
  rw [List.mem_cons, ← h m v hv, Prod.mk.injEq]
  obtain ⟨-, hs⟩ | ⟨n, hfree, hs⟩ := t.openAs_cases w
  · have hm : (m : Int) ≠ -1 := by omega
    simp only [hs, hm, false_and, false_or]
  · simp only [hs, owner_set, Int.natCast_inj]
    by_cases hm : m = n
    · simp [hm, hfree, eq_comm]
    · simp [hm]

/-- Of the descriptors held, each number stands for one. -/
theorem Tallies.not_mem {fd : Int} (h : Tallies mine ((fd, w) :: held) t) (hw : mine w = true)
    (hnot : (fd, w) ∉ held) {n : Nat} (hn : fd = n) {v : ω} (hv : mine v = true) :
    ((n : Int), v) ∉ held := by
  intro hmem
  have hown := (h n v hv).mpr (List.mem_cons_of_mem _ hmem)
  rw [(h n w hw).mpr (by rw [hn]; exact List.mem_cons_self), Option.some.injEq] at hown
  rw [hn, hown] at hnot
  exact hnot hmem

/-- The component is done with one: it closes it, or somebody else has it
from now on. -/
theorem Tallies.release {n : Nat} (h : Tallies mine (((n : Int), w) :: held) t)
    (hw : mine w = true) (hnot : ((n : Int), w) ∉ held) {w' : Option ω}
    (hnew : ∀ v, w' = some v → mine v = false) : Tallies mine held (t.set n w') := by
  intro m v hv
  rw [owner_set]
  split
  · next hm =>
      subst hm
      have hout := h.not_mem hw hnot rfl hv
      simp only [hout, iff_false]
      intro hs
      rw [hnew v hs] at hv
      cases hv
  · next hm =>
      rw [h m v hv, List.mem_cons, Prod.mk.injEq, Int.natCast_inj]
      simp [hm]

theorem Tallies.close {fd : Int} (h : Tallies mine ((fd, w) :: held) t) (hw : mine w = true)
    (hnot : (fd, w) ∉ held) : Tallies mine held (t.close fd) := by
  cases fd with
  | ofNat n => exact h.release hw hnot nofun
  | negSucc n =>
      intro m v hv
      show t.owner m = some v ↔ _
      rw [h m v hv, List.mem_cons, Prod.mk.injEq]
      have hm : (m : Int) ≠ Int.negSucc n := nofun
      simp [hm]

/-- A number that is held stands for what it is held as, unless it is the
result of a call that failed. -/
theorem Tallies.at? {fd : Int} (h : Tallies mine held t) (hmem : (fd, w) ∈ held)
    (hw : mine w = true) : (fd < 0 ∧ t.at? fd = none) ∨ t.at? fd = some w := by
  cases fd with
  | ofNat n => exact Or.inr ((h n w hw).mpr hmem)
  | negSucc n => exact Or.inl ⟨Int.negSucc_lt_zero n, rfl⟩

end Tallies

end DescriptorTable

end Libanet
