import Libanet.Base.Assert
import Libanet.Lib.Machine

/-!
# `base/FileUtil.cc`, `AppendFile`

A file that is written to its end, and the count of the bytes written. How
much of what it is offered `fwrite_unlocked` takes is not the program's
choice. It comes in from outside, as an `Fwrite`: for every call the number of
bytes taken, and what `ferror` answers afterwards. The laws of the C library
are fields of the answer. A stream does not take more than it is offered;
nothing clears its error indicator; and unless that is set, a call that falls
short has taken something.

A stream keeps the bytes it has taken for the record. It has a buffer of its
own, `buffer_`, so not all of them need to be in the file: it writes them there
when it likes, and has written all of them after an `fflush` or `fclose`, which
are without errors here. `MayHold` says what a reader may find in the file.
`off_t` is a natural number, since no file is longer than an `off_t` can count.
-/

namespace Libanet

/-- What `fwrite_unlocked` answers when it is offered `len` bytes, and what
`ferror` does then, which answered `error` before. -/
structure FwriteReply (len : Nat) (error : Bool) where
  n : Nat
  ferror : Bool
  n_le : n ≤ len
  sticky : error = true → ferror = true
  progress : n < len → ferror = false → 0 < n

/-- A call that does not end the loop has taken something. -/
theorem FwriteReply.pos {len : Nat} {error : Bool} (r : FwriteReply len error) (hlen : 0 < len)
    (hgo : ¬ (r.n ≠ len ∧ r.ferror = true)) : 0 < r.n := by
  by_cases hall : r.n = len
  · rw [hall]
    exact hlen
  · have hle := r.n_le
    refine r.progress (by omega) ?_
    cases hf : r.ferror with
    | false => rfl
    | true => exact absurd ⟨hall, hf⟩ hgo

/-- The answers to the calls of one `append`, the first of which is call 0. -/
abbrev Fwrite := (call : Nat) → (data : List UInt8) → (error : Bool) →
  FwriteReply data.length error

/-- A stream without errors answers without errors. -/
def Fwrite.NoErrors (fwrite : Fwrite) : Prop :=
  ∀ call data, (fwrite call data false).ferror = false

/-- A `FILE *`. -/
structure FILE where
  taken : List UInt8
  error : Bool
  /-- So many of the bytes taken had been when the stream was last flushed. -/
  flushed : Nat
  deriving DecidableEq, Repr

namespace FILE

/-- `fopen`. -/
def new : FILE := ⟨[], false, 0⟩

def fflush (fp : FILE) : FILE := { fp with flushed := fp.taken.length }

/-- What has been flushed is in the file, and of what has been taken since as
much as the stream has written of its own accord. -/
def MayHold (fp : FILE) (content : List UInt8) : Prop :=
  fp.taken.take fp.flushed <+: content ∧ content <+: fp.taken

/-- Nothing has been taken since. -/
def Flushed (fp : FILE) : Prop := fp.flushed = fp.taken.length

theorem flushed_fflush (fp : FILE) : fp.fflush.Flushed := rfl

theorem Flushed.eq_of_mayHold {fp : FILE} (h : fp.Flushed) {content : List UInt8}
    (hc : fp.MayHold content) : content = fp.taken := by
  obtain ⟨hfront, hback⟩ := hc
  rw [h, List.take_length] at hfront
  exact hback.eq_of_length (Nat.le_antisymm hback.length_le hfront.length_le)

end FILE

structure AppendFile where
  fp : FILE
  writtenBytes : Nat
  deriving DecidableEq, Repr

namespace AppendFile

def new : AppendFile := ⟨.new, 0⟩

/-- `fwrite_unlocked(logline, 1, len, fp_)`. -/
def write (fwrite : Fwrite) (call : Nat) (logline : List UInt8) (fp : FILE) : Nat × FILE :=
  let reply := fwrite call logline fp.error
  (reply.n, { fp with taken := fp.taken ++ logline.take reply.n, error := reply.ferror })

/-- The loop of `append`, with what is left of the line after `written` bytes.
It answers `written`. -/
def appendLoop (fwrite : Fwrite) (call : Nat) (rest : List UInt8) (written : Nat) (fp : FILE) :
    Nat × FILE :=
  if rest = [] then (written, fp)
  else
    let n := (write fwrite call rest fp).1
    let fp' := (write fwrite call rest fp).2
    if n ≠ rest.length ∧ fp'.error = true then (written, fp')
    else appendLoop fwrite (call + 1) (rest.drop n) (written + n) fp'
termination_by rest.length
decreasing_by
  next hrest hgo =>
    have hpos := (fwrite call rest fp.error).pos (List.length_pos_iff.mpr hrest) hgo
    have hlen := List.length_pos_iff.mpr hrest
    simp only [write, List.length_drop]
    omega

def append (fwrite : Fwrite) (logline : List UInt8) (f : AppendFile) : AppendFile :=
  let r := appendLoop fwrite 0 logline 0 f.fp
  { fp := r.2, writtenBytes := f.writtenBytes + r.1 }

def flush (f : AppendFile) : AppendFile := { f with fp := f.fp.fflush }

end AppendFile

/-- One call of `append`, with what the stream will answer. -/
structure AppendCall where
  logline : List UInt8
  fwrite : Fwrite

namespace AppendFile

def machine : Machine AppendFile AppendCall Fault where
  guard _ _ := true
  exec a f := .ok (f.append a.fwrite a.logline)

end AppendFile

end Libanet
