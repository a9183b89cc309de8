import Libanet.Base.ProcessInfo
import Libanet.Lib.Decimal

/-!
# The name that `procname` finds

The line is cut at the first `')'`. A name without one is found whole; a name
with one is found up to there. Whatever `'('` the name has is behind the one
that opens it, and is passed over.
-/

namespace Libanet.ProcessInfo

theorem stringFind_append {c : UInt8} {before : List UInt8} (after : List UInt8)
    (h : c ∉ before) : stringFind c (before ++ c :: after) = some before.length := by
  unfold stringFind
  rw [List.idxOf?_eq_some_iff]
  refine ⟨by rw [List.length_append, List.length_cons]; omega, by simp, ?_⟩
  intro j hj hc
  rw [List.getElem_append_left hj] at hc
  exact h (hc ▸ List.getElem_mem hj)

/-- A line of `/proc/<pid>/stat`. -/
def statLine (pid comm rest : List UInt8) : List UInt8 :=
  pid ++ 0x20 :: opening :: (comm ++ closing :: 0x20 :: rest)

variable {pid : List UInt8}

/-- The name ends at the first `')'`. -/
theorem procname_append (hpid : ∀ c ∈ pid, IsDigit c) {front : List UInt8}
    (hfront : closing ∉ front) (after : List UInt8) :
    procname (pid ++ 0x20 :: opening :: (front ++ closing :: after)) =
      ⟨front ++ closing :: (after ++ [0]), intOfSize front.length⟩ := by
  obtain ⟨before, hbefore⟩ : ∃ before, before = pid ++ [0x20] := ⟨_, rfl⟩
  have houtside {c : UInt8} (hc : ¬ IsDigit c) (hspace : c ∉ [0x20]) : c ∉ before := by
    rw [hbefore, List.mem_append, not_or]
    exact ⟨fun hmem => hc (hpid c hmem), hspace⟩
  have hopening : opening ∉ before := houtside (by decide) (by decide)
  have hclosing : closing ∉ before ++ opening :: front := by
    rw [List.mem_append, List.mem_cons, not_or, not_or]
    exact ⟨houtside (by decide) (by decide), by decide, hfront⟩
  have hline : pid ++ 0x20 :: opening :: (front ++ closing :: after) =
      before ++ opening :: (front ++ closing :: after) := by
    rw [hbefore, List.append_assoc]
    rfl
  have hlp := stringFind_append (front ++ closing :: after) hopening
  have hrp := stringFind_append after hclosing
  rw [List.append_assoc, List.cons_append] at hrp
  have hdrop : (before ++ opening :: (front ++ closing :: after) ++ [0]).drop
      (before.length + 1) = front ++ closing :: (after ++ [0]) := by
    rw [List.append_assoc, List.drop_append, List.drop_eq_nil_of_le (Nat.le_succ _),
      Nat.add_sub_cancel_left, List.nil_append, List.cons_append, List.drop_succ_cons,
      List.drop_zero, List.append_assoc, List.cons_append]
  have hlen : (before ++ opening :: front).length = before.length + 1 + front.length := by
    rw [List.length_append, List.length_cons]
    omega
  unfold procname
  rw [hline, hlp, hrp]
  dsimp only
  rw [hlen, if_pos (by omega), StringPiece.set, hdrop, Nat.sub_sub, Nat.add_sub_cancel_left]

/-- Every line, whatever the name and what comes behind it: `procname` answers
the name if and only if no `')'` is in it and an `int` can hold its length. -/
theorem procname_is_iff (hpid : ∀ c ∈ pid, IsDigit c) (comm rest : List UInt8) :
    (procname (statLine pid comm rest)).Is comm ↔
      closing ∉ comm ∧ comm.length < 2 ^ 31 := by
  unfold statLine
  by_cases hcomm : closing ∈ comm
  · obtain ⟨front, back, hsplit, hfront⟩ := List.eq_append_cons_of_mem hcomm
    have hshort : front.length < comm.length := by
      rw [hsplit, List.length_append, List.length_cons]
      omega
    refine iff_of_false ?_ fun h => h.1 hcomm
    intro h
    rw [hsplit, List.append_assoc, List.cons_append, procname_append hpid hfront, ← hsplit,
      StringPiece.is_mk] at h
    have hle := intOfSize_le front.length
    omega
  · rw [procname_append hpid hcomm, StringPiece.is_mk, intOfSize_eq_iff]
    constructor
    · intro h
      exact ⟨hcomm, h.1⟩
    · intro h
      exact ⟨h.2, List.take_left⟩

/-- `42 (a (b) S`. -/
theorem procname_is_iff_unclosed :
    (procname (statLine [0x34, 0x32] [0x61, 0x20, opening, 0x62] [0x53])).Is
      [0x61, 0x20, opening, 0x62] :=
  (procname_is_iff (by decide) _ _).mpr ⟨by decide, by decide⟩

/-- `42 (a)b) S`. -/
theorem not_procname_is_closed :
    ¬ (procname (statLine [0x34, 0x32] [0x61, closing, 0x62] [0x53])).Is
      [0x61, closing, 0x62] := by
  intro h
  have hsize : (procname (statLine [0x34, 0x32] [0x61, closing, 0x62] [0x53])).size = 3 := h.1
  exact absurd hsize (by decide)

end Libanet.ProcessInfo
