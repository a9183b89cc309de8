import Libanet.Lib.Machine
import Libanet.Net.BufferSearch
import Libanet.Proofs.Buffer

/-!
# Lines out of a stream

The bytes of a stream come in as they come, and a user of the buffer wants
lines. It looks for the end of one, takes the line if there is an end, and else
waits for more, remembering how far it has looked: the next search begins there,
but for the last byte where an end may have begun. It finds what a search from
the beginning would.

So the lines do not depend on how the stream was cut, nor on when the user
looked. With their ends, and with what is left in the buffer, they are the
stream; and none of them has an end before its end.
-/

namespace Libanet.Net

namespace Buffer

variable {b : Buffer}

theorem upToWrite_add (m : Nat) : b.upToWrite (b.readerIndex + m) = b.readable.drop m := by
  unfold upToWrite readable readableBytes
  rw [List.drop_take, List.drop_drop]
  congr 1
  omega

end Buffer

namespace LineEnd

variable {e : LineEnd} {b : Buffer}

theorem bytes_ne_nil (e : LineEnd) : e.bytes ≠ [] := by
  cases e <;> simp [bytes]

theorem find_eq (e : LineEnd) (b : Buffer) :
    e.find b = (search e.bytes b.readable).map (b.readerIndex + ·) := by
  cases e with
  | crlf kCRLF => rfl
  | eol =>
      rw [bytes, search_singleton]
      rfl

theorem findFrom_eq (e : LineEnd) {m : Nat} (h : m ≤ b.readableBytes) :
    e.findFrom (b.readerIndex + m) b =
      .ok ((search e.bytes (b.readable.drop m)).map (b.readerIndex + m + ·)) := by
  have hend : b.readerIndex + m ≤ b.writerIndex := by
    have hle := b.reader_le_writer
    unfold Buffer.readableBytes at h
    omega
  rw [← Buffer.upToWrite_add m]
  cases e with
  | crlf kCRLF =>
      refine assertThat_bind_eq_ok.mpr ⟨Nat.le_add_right _ _, ?_⟩
      exact assertThat_bind_eq_ok.mpr ⟨hend, rfl⟩
  | eol =>
      rw [bytes, search_singleton]
      refine assertThat_bind_eq_ok.mpr ⟨Nat.le_add_right _ _, ?_⟩
      exact assertThat_bind_eq_ok.mpr ⟨hend, rfl⟩

/-- A search may go on where it has stopped. -/
theorem findFrom_eq_find {m : Nat} (h : m ≤ b.readableBytes)
    (hno : NotBefore e.bytes b.readable m) :
    e.findFrom (b.readerIndex + m) b = .ok (e.find b) := by
  rw [findFrom_eq e h, find_eq, search_drop hno, Option.map_map]
  congr 2
  funext k
  exact Nat.add_assoc _ _ _

end LineEnd

/-- A buffer, and how far a user has looked for the end of a line in it. -/
structure LineReader where
  buf : Buffer
  scanned : Nat
  lines : List (List UInt8)

inductive LineStep where
  | append (data : List UInt8)
  | readLine
  deriving DecidableEq

/-- What comes in. -/
def LineStep.data : LineStep → List UInt8
  | .append data => data
  | .readLine => []

namespace LineReader

/-- The user looks for a line: `findCRLF(start)`, and `retrieveUntil(crlf + 2)`
if there is one. -/
def readLine (e : LineEnd) (s : LineReader) : Except Fault LineReader := do
  match ← e.findFrom (s.buf.readerIndex + s.scanned) s.buf with
  | none => return { s with scanned := s.buf.readableBytes + 1 - e.bytes.length }
  | some found =>
      let line := (s.buf.buffer.drop s.buf.readerIndex).take (found - s.buf.readerIndex)
      let buf ← s.buf.retrieveUntil (found + e.bytes.length)
      return ⟨buf, 0, s.lines ++ [line]⟩

def exec (e : LineEnd) : LineStep → LineReader → Except Fault LineReader
  | .append data, s => do
      let buf ← s.buf.append data
      return { s with buf := buf }
  | .readLine, s => s.readLine e

def machine (e : LineEnd) : Machine LineReader LineStep Fault := ⟨fun _ _ => true, exec e⟩

def start (initialSize : Nat) : LineReader := ⟨Buffer.new initialSize, 0, []⟩

/-- The lines that were taken, with their ends, and what is left. -/
structure Inv (e : LineEnd) (done : List LineStep) (s : LineReader) : Prop where
  stream : done.flatMap LineStep.data = s.lines.flatMap (· ++ e.bytes) ++ s.buf.readable
  first : ∀ line ∈ s.lines, search e.bytes (line ++ e.bytes) = some line.length
  scanned : s.scanned + e.bytes.length ≤ s.buf.readableBytes + 1 ∨ s.scanned = 0
  notBefore : NotBefore e.bytes s.buf.readable s.scanned

variable {e : LineEnd} {done : List LineStep} {s t : LineReader}

theorem Inv.le (hi : s.Inv e done) : s.scanned ≤ s.buf.readableBytes := by
  have hpos := List.length_pos_iff.mpr e.bytes_ne_nil
  have hscanned := hi.scanned
  omega

theorem append_inv (hi : s.Inv e done) (data : List UInt8) :
    ∃ t, exec e (.append data) s = .ok t ∧ t.Inv e (done ++ [.append data]) := by
  obtain ⟨buf, hbuf, hread⟩ := Buffer.append_spec s.buf data
  have hlength : buf.readableBytes = s.buf.readableBytes + data.length := by
    rw [← Buffer.length_readable, hread, List.length_append, Buffer.length_readable]
  refine ⟨{ s with buf := buf }, bind_eq_ok.mpr ⟨buf, hbuf, rfl⟩, ?_, hi.first, ?_, ?_⟩
  · show _ = s.lines.flatMap (· ++ e.bytes) ++ buf.readable
    rw [List.flatMap_append, hi.stream, hread, List.append_assoc]
    simp [LineStep.data]
  · show s.scanned + e.bytes.length ≤ buf.readableBytes + 1 ∨ s.scanned = 0
    have hscanned := hi.scanned
    omega
  · show NotBefore e.bytes buf.readable s.scanned
    rw [hread]
    rcases hi.scanned with hle | hzero
    · rw [← Buffer.length_readable] at hle
      exact hi.notBefore.append hle
    · intro j hj
      omega

/-- A line up to the first end, and what is behind. -/
theorem cut_at {xs : List UInt8} {k : Nat} (h : search e.bytes xs = some k) :
    k + e.bytes.length ≤ xs.length ∧
      xs = xs.take k ++ e.bytes ++ xs.drop (k + e.bytes.length) ∧
      search e.bytes (xs.take k ++ e.bytes) = some (xs.take k).length := by
  obtain ⟨hat, hbefore⟩ := search_eq_some_iff.mp h
  have hk : k + e.bytes.length ≤ xs.length := by
    have hpos := List.length_pos_iff.mpr e.bytes_ne_nil
    have hle := hat.length_le
    rw [List.length_drop] at hle
    omega
  have hlength : (xs.take k).length = k := List.length_take_of_le (by omega)
  have hcut : xs = xs.take k ++ e.bytes ++ xs.drop (k + e.bytes.length) := by
    obtain ⟨rest, hrest⟩ := hat
    have hdrop : xs.drop (k + e.bytes.length) = rest := by
      rw [← List.drop_drop, ← hrest, List.drop_left]
    rw [hdrop, List.append_assoc, hrest, List.take_append_drop]
  refine ⟨hk, hcut, search_eq_some_iff.mpr ⟨?_, fun j hj hatj => ?_⟩⟩
  · have hend : (xs.take k ++ e.bytes).drop (xs.take k).length = e.bytes := List.drop_left
    exact ⟨[], by rw [hend, List.append_nil]⟩
  · rw [hlength] at hj
    refine hbefore j hj ?_
    rw [hcut, prefix_drop_append]
    · exact hatj
    · rw [List.length_append, hlength]
      omega

theorem readLine_inv (hi : s.Inv e done) :
    ∃ t, exec e .readLine s = .ok t ∧ t.Inv e (done ++ [.readLine]) := by
  have hdone : (done ++ [LineStep.readLine]).flatMap LineStep.data =
      done.flatMap LineStep.data := by
    simp [LineStep.data]
  show ∃ t, s.readLine e = .ok t ∧ _
  unfold readLine
  rw [LineEnd.findFrom_eq_find hi.le hi.notBefore, LineEnd.find_eq]
  cases hsearch : search e.bytes s.buf.readable with
  | none =>
      rw [search_eq_none_iff] at hsearch
      refine ⟨{ s with scanned := s.buf.readableBytes + 1 - e.bytes.length }, rfl,
        hdone.trans hi.stream, hi.first, ?_, fun j _ => hsearch j⟩
      show s.buf.readableBytes + 1 - e.bytes.length + e.bytes.length ≤ s.buf.readableBytes + 1 ∨
        s.buf.readableBytes + 1 - e.bytes.length = 0
      omega
  | some k =>
      obtain ⟨hk, hcut, hfirst⟩ := cut_at hsearch
      rw [Buffer.length_readable] at hk
      obtain ⟨buf, hbuf, hread⟩ := Buffer.retrieveUntil_spec hk
      have hline : (s.buf.buffer.drop s.buf.readerIndex).take
          (s.buf.readerIndex + k - s.buf.readerIndex) = s.buf.readable.take k := by
        rw [Nat.add_sub_cancel_left, Buffer.readable, List.take_take, Nat.min_eq_left (by omega)]
      refine ⟨⟨buf, 0, s.lines ++ [s.buf.readable.take k]⟩, ?_, ?_, ?_, Or.inr rfl,
        fun j hj => absurd hj (Nat.not_lt_zero j)⟩
      · simp only [Option.map_some, ok_bind, hline, Nat.add_assoc, hbuf]
        rfl
      · show _ = (s.lines ++ [s.buf.readable.take k]).flatMap (· ++ e.bytes) ++ buf.readable
        rw [hdone, hi.stream, hread, List.flatMap_append, List.flatMap_singleton,
          List.append_assoc, ← hcut]
      · intro line hline
        rcases List.mem_append.mp hline with hold | hnew
        · exact hi.first line hold
        · rw [List.mem_singleton.mp hnew]
          exact hfirst

theorem start_inv (e : LineEnd) (initialSize : Nat) : (start initialSize).Inv e [] where
  stream := by simp [start, Buffer.new, Buffer.readable, Buffer.readableBytes]
  first := fun line hline => by cases hline
  scanned := Or.inr rfl
  notBefore := fun j hj => absurd hj (Nat.not_lt_zero j)

theorem step_inv (hi : s.Inv e done) (a : LineStep) :
    ∃ t, exec e a s = .ok t ∧ t.Inv e (done ++ [a]) := by
  cases a with
  | append data => exact append_inv hi data
  | readLine => exact readLine_inv hi

/-- However a stream is cut into pieces, and whenever a user looks for lines in
between: no assertion fails; the lines taken, each with its end, and what is in
the buffer are the stream; no line has an end before its own; and looking on
from where the last search has stopped finds what a search of the whole content
does. -/
theorem lines_of_stream (e : LineEnd) (initialSize : Nat) (as : List LineStep) :
    ∃ t, (machine e).run as (start initialSize) = some t ∧
      as.flatMap LineStep.data = t.lines.flatMap (· ++ e.bytes) ++ t.buf.readable ∧
      (∀ line ∈ t.lines, search e.bytes (line ++ e.bytes) = some line.length) ∧
      e.findFrom (t.buf.readerIndex + t.scanned) t.buf = .ok (e.find t.buf) := by
  have hstep : ∀ {s : LineReader} {a : LineStep}, (∃ done, s.Inv e done) →
      ∃ t, (machine e).step a s = some t ∧ ∃ done, t.Inv e done := by
    intro s a hs
    obtain ⟨done, hi⟩ := hs
    obtain ⟨t, ht, hi'⟩ := step_inv hi a
    exact ⟨t, Machine.step_eq_some.mpr ⟨rfl, ht⟩, _, hi'⟩
  obtain ⟨t, ht, -⟩ := Machine.run_total hstep as ⟨[], start_inv e initialSize⟩
  have hi : t.Inv e ([] ++ as) := by
    refine Machine.run_history (I := Inv e) ?_ (start_inv e initialSize) ht
    intro done s t a hi _ he
    obtain ⟨t', ht', hi'⟩ := step_inv hi a
    cases ht'.symm.trans he
    exact hi'
  exact ⟨t, ht, hi.stream, hi.first, LineEnd.findFrom_eq_find hi.le hi.notBefore⟩

end LineReader

end Libanet.Net
