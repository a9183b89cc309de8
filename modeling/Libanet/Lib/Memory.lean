import Mathlib.Data.List.Basic
import Mathlib.Data.List.TakeDrop

/-!
# Memory of a fixed size

An array of cells that programs write into one by one, as a list. A write
that is not into a cell of the array is an error of the user's choosing.
Writing a list of values, each behind the one before, succeeds if and only if
all of them are in the array, and then it is `overwriteAt`.

`reverseCells` is what reversing a range of cells in place comes to.
-/

namespace Libanet

variable {α ε : Type}

def writeCell (e : ε) (i : Nat) (x : α) (mem : List α) : Except ε (List α) :=
  if i < mem.length then .ok (mem.set i x) else .error e

/-- The values go into the cells from `i` on. -/
def writeCells (e : ε) : Nat → List α → List α → Except ε (List α)
  | _, [], mem => .ok mem
  | i, x :: xs, mem => writeCell e i x mem >>= writeCells e (i + 1) xs

/-- The memory with `xs` from `i` on. -/
def overwriteAt (i : Nat) (xs mem : List α) : List α :=
  mem.take i ++ xs ++ mem.drop (i + xs.length)

/-- The cells from `i` to the one before `j` in reverse order. -/
def reverseCells (i j : Nat) (mem : List α) : List α :=
  mem.take i ++ ((mem.take j).drop i).reverse ++ mem.drop j

variable {e : ε} {i : Nat} {x : α} {xs ys mem : List α}

theorem writeCell_eq (h : i < mem.length) : writeCell e i x mem = .ok (mem.set i x) := if_pos h

theorem writeCells_append (ys : List α) :
    writeCells e i (xs ++ ys) mem =
      writeCells e i xs mem >>= writeCells e (i + xs.length) ys := by
  induction xs generalizing i mem with
  | nil => rfl
  | cons x xs ih =>
      have hindex : i + (x :: xs).length = i + 1 + xs.length := by
        rw [List.length_cons]
        omega
      rw [List.cons_append, writeCells, writeCells, hindex]
      cases writeCell e i x mem with
      | error f => rfl
      | ok mem' => exact ih

theorem writeCells_singleton : writeCells e i [x] mem = writeCell e i x mem := by
  rw [writeCells]
  cases writeCell e i x mem <;> rfl

theorem overwriteAt_nil : overwriteAt i [] mem = mem := by
  simp [overwriteAt]

theorem overwriteAt_cons (h : i < mem.length) :
    overwriteAt (i + 1) xs (mem.set i x) = overwriteAt i (x :: xs) mem := by
  have htake : (mem.set i x).take (i + 1) = mem.take i ++ [x] := by
    rw [List.take_add_one, List.take_set_of_le (Nat.le_refl i), List.getElem?_set_self h]
    rfl
  have hdrop : (mem.set i x).drop (i + 1 + xs.length) = mem.drop (i + 1 + xs.length) :=
    List.drop_set_of_lt (by omega)
  have hindex : i + (x :: xs).length = i + 1 + xs.length := by
    rw [List.length_cons]
    omega
  rw [overwriteAt, overwriteAt, htake, hdrop, hindex]
  simp

theorem writeCells_eq (h : i + xs.length ≤ mem.length) :
    writeCells e i xs mem = .ok (overwriteAt i xs mem) := by
  induction xs generalizing i mem with
  | nil => rw [writeCells, overwriteAt_nil]
  | cons x xs ih =>
      rw [List.length_cons] at h
      have hi : i < mem.length := by omega
      have hrest : i + 1 + xs.length ≤ (mem.set i x).length := by
        rw [List.length_set]
        omega
      rw [writeCells, writeCell_eq hi, ← overwriteAt_cons hi]
      exact ih hrest

theorem length_overwriteAt (h : i + xs.length ≤ mem.length) :
    (overwriteAt i xs mem).length = mem.length := by
  rw [overwriteAt, List.length_append, List.length_append, List.length_take, List.length_drop]
  omega

/-- What has been written, and what lies before it. -/
theorem take_overwriteAt (xs ys : List α) (h : i ≤ mem.length) :
    (overwriteAt i (xs ++ ys) mem).take (i + xs.length) = mem.take i ++ xs := by
  have hlen : (mem.take i ++ xs).length = i + xs.length := by
    rw [List.length_append, List.length_take, Nat.min_eq_left h]
  rw [overwriteAt, ← List.append_assoc, List.append_assoc]
  exact List.take_left' hlen

/-- Reversing what has just been written. -/
theorem reverseCells_overwriteAt (h : i ≤ mem.length) :
    reverseCells i (i + xs.length) (overwriteAt i (xs ++ ys) mem) =
      overwriteAt i (xs.reverse ++ ys) mem := by
  have htake := take_overwriteAt xs ys h
  have hfront : (overwriteAt i (xs ++ ys) mem).take i = mem.take i := by
    have hnil := take_overwriteAt [] (xs ++ ys) h
    simpa using hnil
  have hlen : (mem.take i).length = i := by
    rw [List.length_take, Nat.min_eq_left h]
  have hdrop : (overwriteAt i (xs ++ ys) mem).drop (i + xs.length) =
      ys ++ mem.drop (i + (xs ++ ys).length) := by
    have hwhole : (mem.take i ++ xs).length = i + xs.length := by
      rw [List.length_append, hlen]
    rw [overwriteAt, ← List.append_assoc, List.append_assoc]
    exact List.drop_left' hwhole
  rw [reverseCells, htake, hfront, hdrop, List.drop_left' hlen, overwriteAt]
  simp [List.append_assoc]

end Libanet
