import Libanet.Base.FileUtil

/-!
# What an `AppendFile` counts

Each call of `fwrite_unlocked` is offered what is left of the line, so what
the stream takes of it is always the beginning of the line, without a gap, and
all of it unless the loop stops on an error. `written` pays for that call by
call, with one exception: the call that stops the loop. It leaves by the
`break` in front of `written += n`, and whatever it has taken is in the file
and not in the count.

So the count is right exactly as long as a call that falls short with the
error indicator set has taken nothing.
-/

namespace Libanet

namespace AppendFile

variable {fwrite : Fwrite}

/-- What the call takes that stops the loop, if one does. -/
def stoppedAt (fwrite : Fwrite) (call : Nat) (rest : List UInt8) (error : Bool) : Option Nat :=
  if rest = [] then none
  else
    let reply := fwrite call rest error
    if reply.n ≠ rest.length ∧ reply.ferror = true then some reply.n
    else stoppedAt fwrite (call + 1) (rest.drop reply.n) reply.ferror
termination_by rest.length
decreasing_by
  next hrest hgo =>
    have hpos := (fwrite call rest error).pos (List.length_pos_iff.mpr hrest) hgo
    have hlen := List.length_pos_iff.mpr hrest
    simp only [List.length_drop]
    omega

/-- The loop, from wherever it stands: the stream takes the next `k` bytes, and
`written` counts them but for those of the call that stops it. -/
theorem appendLoop_spec (fwrite : Fwrite) (call : Nat) (rest : List UInt8) (written : Nat)
    (fp : FILE) : ∃ k ≤ rest.length,
      (appendLoop fwrite call rest written fp).2.taken = fp.taken ++ rest.take k ∧
      (appendLoop fwrite call rest written fp).1 +
        (stoppedAt fwrite call rest fp.error).getD 0 = written + k ∧
      (stoppedAt fwrite call rest fp.error = none → k = rest.length) := by
  fun_induction appendLoop fwrite call rest written fp with
  | case1 call written fp =>
      refine ⟨0, Nat.le_refl 0, by simp, ?_, fun _ => rfl⟩
      rw [stoppedAt, if_pos rfl]
      rfl
  | case2 call rest written fp hrest n fp' hstop =>
      have hstopped : stoppedAt fwrite call rest fp.error = some n := by
        rw [stoppedAt, if_neg hrest]
        exact if_pos hstop
      refine ⟨n, (fwrite call rest fp.error).n_le, rfl, ?_, ?_⟩
      · rw [hstopped]
        rfl
      · rw [hstopped]
        intro h
        cases h
  | case3 call rest written fp hrest n fp' hgo ih =>
      have hstopped : stoppedAt fwrite call rest fp.error =
          stoppedAt fwrite (call + 1) (rest.drop n) fp'.error := by
        rw [stoppedAt, if_neg hrest]
        exact if_neg hgo
      have hn : n ≤ rest.length := (fwrite call rest fp.error).n_le
      obtain ⟨k, hk, htaken, hcount, hwhole⟩ := ih
      rw [List.length_drop] at hk hwhole
      rw [hstopped]
      refine ⟨n + k, by omega, ?_, by omega, ?_⟩
      · have hfirst : fp'.taken = fp.taken ++ rest.take n := rfl
        rw [htaken, hfirst, List.append_assoc, ← List.take_add]
      · intro h
        have hk := hwhole h
        omega

/-- A stream without an error so far whose answers are without errors takes
all of what it is offered. -/
theorem appendLoop_noErrors (hno : fwrite.NoErrors) (call : Nat) (rest : List UInt8)
    (written : Nat) {fp : FILE} (hfp : fp.error = false) :
    stoppedAt fwrite call rest fp.error = none ∧
      (appendLoop fwrite call rest written fp).2.error = false := by
  fun_induction appendLoop fwrite call rest written fp with
  | case1 call written fp =>
      rw [stoppedAt, if_pos rfl]
      exact ⟨rfl, hfp⟩
  | case2 call rest written fp hrest n fp' hstop =>
      have hfp' : fp'.error = false := by
        show (fwrite call rest fp.error).ferror = false
        rw [hfp]
        exact hno call rest
      rw [hfp'] at hstop
      cases hstop.2
  | case3 call rest written fp hrest n fp' hgo ih =>
      have hfp' : fp'.error = false := by
        show (fwrite call rest fp.error).ferror = false
        rw [hfp]
        exact hno call rest
      rw [stoppedAt, if_neg hrest]
      exact ⟨(if_neg hgo).trans (ih hfp').1, (ih hfp').2⟩

/-- Nothing is flushed. -/
theorem appendLoop_flushed (fwrite : Fwrite) (call : Nat) (rest : List UInt8) (written : Nat)
    (fp : FILE) : (appendLoop fwrite call rest written fp).2.flushed = fp.flushed := by
  fun_induction appendLoop fwrite call rest written fp with
  | case1 call written fp => rfl
  | case2 call rest written fp hrest n fp' hstop => rfl
  | case3 call rest written fp hrest n fp' hgo ih => exact ih

/-! ## One line -/

/-- What the call takes that stops this `append`. -/
def stop (f : AppendFile) (a : AppendCall) : Option Nat :=
  stoppedAt a.fwrite 0 a.logline f.fp.error

def Accounted (f : AppendFile) : Prop := f.writtenBytes = f.fp.taken.length

theorem accounted_new : new.Accounted := rfl

/-- The stream has taken the beginning of the line, all of it if nothing has
stopped the loop, and the count is that of all it has ever taken. -/
def AccountsFor : AppendFile × AppendCall × AppendFile → Prop
  | (f, a, f') =>
      (∃ k ≤ a.logline.length, f'.fp.taken = f.fp.taken ++ a.logline.take k ∧
        (f.stop a = none → k = a.logline.length)) ∧ f'.Accounted

/-- The call that stops the loop has taken nothing. -/
def StopsEmpty (f : AppendFile) (a : AppendCall) : Prop := ∀ n, f.stop a = some n → n = 0

theorem append_spec (f : AppendFile) (a : AppendCall) :
    ∃ k ≤ a.logline.length,
      (f.append a.fwrite a.logline).fp.taken = f.fp.taken ++ a.logline.take k ∧
      (f.append a.fwrite a.logline).writtenBytes + (f.stop a).getD 0 = f.writtenBytes + k ∧
      (f.stop a = none → k = a.logline.length) := by
  obtain ⟨k, hk, htaken, hcount, hwhole⟩ := appendLoop_spec a.fwrite 0 a.logline 0 f.fp
  refine ⟨k, hk, htaken, ?_, hwhole⟩
  show f.writtenBytes + _ + (stoppedAt a.fwrite 0 a.logline f.fp.error).getD 0 = _
  omega

/-- Without errors the line is taken and counted. -/
theorem append_noErrors {f : AppendFile} (hno : fwrite.NoErrors) (hf : f.fp.error = false)
    (logline : List UInt8) :
    (f.append fwrite logline).fp = ⟨f.fp.taken ++ logline, false, f.fp.flushed⟩ ∧
      (f.append fwrite logline).writtenBytes = f.writtenBytes + logline.length := by
  obtain ⟨hstop, herror⟩ := appendLoop_noErrors hno 0 logline 0 hf
  obtain ⟨k, hk, htaken, hcount, hwhole⟩ := f.append_spec ⟨logline, fwrite⟩
  have hnone : f.stop ⟨logline, fwrite⟩ = none := hstop
  have hall : k = logline.length := hwhole hnone
  rw [hall, List.take_length] at htaken
  rw [hnone, hall] at hcount
  have herror : (f.append fwrite logline).fp.error = false := herror
  have hflushed : (f.append fwrite logline).fp.flushed = f.fp.flushed :=
    appendLoop_flushed fwrite 0 logline 0 f.fp
  refine ⟨?_, hcount⟩
  calc (f.append fwrite logline).fp
      = ⟨(f.append fwrite logline).fp.taken, (f.append fwrite logline).fp.error,
          (f.append fwrite logline).fp.flushed⟩ := rfl
    _ = ⟨f.fp.taken ++ logline, false, f.fp.flushed⟩ := by rw [htaken, herror, hflushed]

/-- From a count that is right, the count goes wrong by what the call has taken
that stops the loop. -/
theorem accounted_append_iff {f : AppendFile} (h : f.Accounted) (a : AppendCall) :
    (f.append a.fwrite a.logline).Accounted ↔ f.StopsEmpty a := by
  obtain ⟨k, hk, htaken, hcount, hwhole⟩ := f.append_spec a
  have hlength : (a.logline.take k).length = k := by
    rw [List.length_take]
    omega
  rw [Accounted, htaken, List.length_append, hlength, ← h, StopsEmpty]
  cases hstop : f.stop a with
  | none =>
      rw [hstop] at hcount
      refine iff_of_true hcount ?_
      intro n hn
      cases hn
  | some n =>
      rw [hstop] at hcount
      have hsum : (f.append a.fwrite a.logline).writtenBytes + n = f.writtenBytes + k := hcount
      constructor
      · intro hequal n' hn
        cases hn
        omega
      · intro hempty
        have hzero := hempty n rfl
        omega

/-! ## Line by line -/

/-- Along any run, whatever the stream answers: every `append` accounts for
what the stream has taken if and only if no call that stopped one had taken
anything. -/
theorem accountsFor_iff_stopsEmpty (as : List AppendCall) :
    (∀ x ∈ machine.steps as new, AccountsFor x) ↔
      ∀ x ∈ machine.steps as new, x.1.StopsEmpty x.2.1 := by
  refine Machine.steps_iff (I := Accounted) ?_ ?_ as accounted_new
  · intro f f' a h hg he hc
    cases he
    obtain ⟨k, hk, htaken, -, hwhole⟩ := f.append_spec a
    have h' := (accounted_append_iff h a).mpr hc
    exact ⟨h', ⟨k, hk, htaken, hwhole⟩, h'⟩
  · intro f f' a h hg he hc hp
    cases he
    exact hc ((accounted_append_iff h a).mp hp.2)

/-- The disk is full after one byte. -/
def diskFull : Fwrite := fun _ data _ =>
  { n := min 1 data.length
    ferror := true
    n_le := Nat.min_le_right _ _
    sticky := fun _ => rfl
    progress := fun _ h => by cases h }

theorem byte_taken_not_counted :
    ∃ f, machine.run [⟨[0x61, 0x62, 0x63], diskFull⟩] new = some f ∧ f.fp.taken = [0x61] ∧
      f.writtenBytes = 0 ∧ ¬ f.Accounted := by
  have hloop : appendLoop diskFull 0 [0x61, 0x62, 0x63] 0 .new = (0, ⟨[0x61], true, 0⟩) := by
    simp [appendLoop, write, diskFull, FILE.new]
  have happend : new.append diskFull [0x61, 0x62, 0x63] = ⟨⟨[0x61], true, 0⟩, 0⟩ := by
    show AppendFile.mk (appendLoop _ 0 _ 0 .new).2 (0 + (appendLoop _ 0 _ 0 .new).1) = _
    rw [hloop]
    rfl
  refine ⟨_, rfl, ?_, ?_, ?_⟩ <;> rw [happend]
  intro h
  cases h

end AppendFile

end Libanet
