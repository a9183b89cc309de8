import Libanet.Lib.Machine
import Libanet.Proofs.Buffer

/-!
# A buffer is a byte string

A caller that keeps to the preconditions the class states in its asserts
cannot tell a buffer from the string of its readable bytes: appending,
prepending and retrieving act on the string as they do on a list, and
making space does not act on it at all. Where the bytes lie in the vector,
and how often they were moved or the vector was grown, does not show.

The machine has any number of buffers, so that `swap` can exchange any two
of them. Its guard is what the callers promise; that the code then passes
all of its own asserts is `Safe`.
-/

namespace Libanet.Net

/-- What a caller does with one buffer. The pointer `retrieveUntil` is given
is `peek() + len`. -/
inductive BufferOp where
  | append (data : List UInt8)
  | prepend (data : List UInt8)
  | retrieve (len : Nat)
  | retrieveUntil (len : Nat)
  | retireveAsString (len : Nat)
  | retrieveAllAsString
  | retrieveAll
  | unwrite (len : Nat)
  | ensureWritableBytes (len : Nat)
  /-- Writes to `beginWrite()` and calls `hasWritten`. -/
  | write (data : List UInt8)
  deriving DecidableEq

inductive BufferAction where
  | op (i : Nat) (o : BufferOp)
  | swap (i j : Nat)
  deriving DecidableEq

namespace BufferOp

/-- Lengths stay below 2^62. -/
def kMaxLength : Nat := 0x4000000000000000

def guard (b : Buffer) : BufferOp → Bool
  | append data => data.length < kMaxLength
  | prepend data => data.length ≤ b.prependableBytes && data.length < kMaxLength
  | retrieve len | retrieveUntil len | retireveAsString len | unwrite len =>
      len ≤ b.readableBytes && len < kMaxLength
  | retrieveAllAsString | retrieveAll => true
  | ensureWritableBytes len => len < kMaxLength
  | write data => data.length ≤ b.writableBytes && data.length < kMaxLength

def exec : BufferOp → Buffer → Except Fault Buffer
  | append data, b => b.append data
  | prepend data, b => b.prepend data
  | retrieve len, b => b.retrieve len
  | retrieveUntil len, b => b.retrieveUntil (b.readerIndex + len)
  | retireveAsString len, b => Prod.snd <$> b.retireveAsString len
  | retrieveAllAsString, b => Prod.snd <$> b.retrieveAllAsString
  | retrieveAll, b => .ok b.retrieveAll
  | unwrite len, b => b.unwrite len
  | ensureWritableBytes len, b => b.ensureWritableBytes len
  | write data, b => b.copyToBeginWrite data >>= fun b => b.hasWritten data.length

/-- The operation on the string a buffer stands for. -/
def spec : BufferOp → List UInt8 → List UInt8
  | append data, s => s ++ data
  | prepend data, s => data ++ s
  | retrieve len, s | retrieveUntil len, s | retireveAsString len, s => s.drop len
  | retrieveAllAsString, _ | retrieveAll, _ => []
  | unwrite len, s => s.take (s.length - len)
  | ensureWritableBytes _, s => s
  | write data, s => s ++ data

theorem map_snd_eq_ok {x : Except Fault (List UInt8 × Buffer)} {r : List UInt8} {b : Buffer}
    (h : x = .ok (r, b)) : Prod.snd <$> x = .ok b := by
  rw [h]
  rfl

/-- An operation whose caller keeps to its precondition gets past its
asserts, and does to the readable bytes what it does to a string. -/
theorem exec_spec {o : BufferOp} {b : Buffer} (hg : o.guard b = true) :
    ∃ b', o.exec b = .ok b' ∧ b'.readable = o.spec b.readable := by
  cases o with
  | append data => exact b.append_spec data
  | prepend data =>
      simp only [guard, Bool.and_eq_true, decide_eq_true_eq] at hg
      exact Buffer.prepend_spec hg.1
  | retrieve len =>
      simp only [guard, Bool.and_eq_true, decide_eq_true_eq] at hg
      exact Buffer.retrieve_spec hg.1
  | retrieveUntil len =>
      simp only [guard, Bool.and_eq_true, decide_eq_true_eq] at hg
      exact Buffer.retrieveUntil_spec hg.1
  | retireveAsString len =>
      simp only [guard, Bool.and_eq_true, decide_eq_true_eq] at hg
      obtain ⟨b', hb, hread⟩ := Buffer.retireveAsString_spec hg.1
      exact ⟨b', map_snd_eq_ok hb, hread⟩
  | retrieveAllAsString =>
      obtain ⟨b', hb, hread⟩ := Buffer.retireveAsString_spec (Nat.le_refl b.readableBytes)
      refine ⟨b', map_snd_eq_ok hb, ?_⟩
      rw [hread, ← b.length_readable, List.drop_length]
      rfl
  | retrieveAll => exact ⟨_, rfl, b.readable_retrieveAll⟩
  | unwrite len =>
      simp only [guard, Bool.and_eq_true, decide_eq_true_eq] at hg
      exact Buffer.unwrite_spec hg.1
  | ensureWritableBytes len =>
      obtain ⟨b', hb, hread, -⟩ := b.ensureWritableBytes_spec len
      exact ⟨b', hb, hread⟩
  | write data =>
      simp only [guard, Bool.and_eq_true, decide_eq_true_eq] at hg
      exact Buffer.write_spec hg.1

end BufferOp

/-- Any number of buffers. -/
abbrev Buffers := Nat → Buffer

namespace Buffers

def store {α : Type} (f : Nat → α) (i : Nat) (x : α) : Nat → α :=
  fun k => if k = i then x else f k

def guard (s : Buffers) : BufferAction → Bool
  | .op i o => o.guard (s i)
  | .swap _ _ => true

def exec : BufferAction → Buffers → Except Fault Buffers
  | .op i o, s => do return store s i (← o.exec (s i))
  | .swap i j, s =>
      let (lhs, rhs) := (s i).swap (s j)
      .ok (store (store s i lhs) j rhs)

def machine : Machine Buffers BufferAction Fault := ⟨guard, exec⟩

/-- `Buffer(initialSize)` for every buffer. -/
def start (initialSize : Nat → Nat) : Buffers := fun i => Buffer.new (initialSize i)

def readable (s : Buffers) : Nat → List UInt8 := fun i => (s i).readable

/-- The same step, taken by strings. -/
def spec (f : Nat → List UInt8) : BufferAction → Nat → List UInt8
  | .op i o => store f i (o.spec (f i))
  | .swap i j => store (store f i (f j)) j (f i)

theorem readable_store (s : Buffers) (i : Nat) (b : Buffer) :
    readable (store s i b) = store s.readable i b.readable := by
  funext k
  by_cases hk : k = i
  · simp [readable, store, hk]
  · simp [readable, store, hk]

theorem step_spec {s : Buffers} {a : BufferAction} (hg : s.guard a = true) :
    ∃ s', exec a s = .ok s' ∧ readable s' = spec s.readable a := by
  cases a with
  | op i o =>
      obtain ⟨b', hb, hread⟩ := BufferOp.exec_spec hg
      refine ⟨store s i b', bind_eq_ok.mpr ⟨b', hb, rfl⟩, ?_⟩
      rw [readable_store, hread]
      rfl
  | swap i j =>
      refine ⟨store (store s i (s j)) j (s i), rfl, ?_⟩
      rw [readable_store, readable_store]
      rfl

theorem run_spec {as : List BufferAction} {s s' : Buffers} (hr : machine.run as s = some s') :
    readable s' = as.foldl spec s.readable := by
  induction as generalizing s with
  | nil =>
      cases hr
      rfl
  | cons a as ih =>
      obtain ⟨s₁, hg, he, hr⟩ := Machine.run_cons.mp hr
      obtain ⟨s₂, hok, hread⟩ := step_spec hg
      cases hok.symm.trans he
      rw [ih hr, hread, List.foldl_cons]

/-- Buffers refine strings. In every state their indices are in order, no
step on offer fails an assert, and their readable bytes are what the same
steps make of empty strings. `ensureWritableBytes` makes the space it was
asked for, and `retireveAsString` returns the front of the string. As long
as the vector is one that can exist, no `size_t` sum wraps around. -/
theorem buffers_refine_strings {initialSize : Nat → Nat} {as : List BufferAction}
    {s : Buffers} (hr : machine.run as (start initialSize) = some s) :
    (∀ i, (s i).readerIndex ≤ (s i).writerIndex ∧
        (s i).writerIndex ≤ (s i).buffer.length) ∧
      machine.Safe s ∧
      readable s = as.foldl spec (fun _ => []) ∧
      (∀ i len s', machine.step (.op i (.ensureWritableBytes len)) s = some s' →
        len ≤ (s' i).writableBytes) ∧
      (∀ i len, len ≤ (s i).readableBytes → ∃ b,
        (s i).retireveAsString len = .ok ((s i).readable.take len, b)) ∧
      ∀ i len, (s i).buffer.length < 0x8000000000000000 → len < BufferOp.kMaxLength →
        (s i).writableBytes + (s i).prependableBytes < 0x10000000000000000 ∧
          len + kCheapPrepend < 0x10000000000000000 ∧
          (s i).writerIndex + len < 0x10000000000000000 := by
  refine ⟨fun i => ⟨(s i).reader_le_writer, (s i).writer_le_size⟩, ?_, ?_, ?_, ?_, ?_⟩
  · intro a hg
    obtain ⟨s', hok, -⟩ := step_spec hg
    exact ⟨s', hok⟩
  · have hstart : readable (start initialSize) = fun _ => [] := by
      funext i
      exact Buffer.readable_eq_nil.mpr (Nat.sub_self _)
    rw [run_spec hr, hstart]
  · intro i len s' hstep
    obtain ⟨-, he⟩ := Machine.step_eq_some.mp hstep
    obtain ⟨b, hb, he⟩ := bind_eq_ok.mp he
    obtain ⟨b', hb', -, hspace⟩ := (s i).ensureWritableBytes_spec len
    cases hb'.symm.trans hb
    cases he
    simpa [store] using hspace
  · intro i len hlen
    obtain ⟨b, hb, -⟩ := Buffer.retireveAsString_spec hlen
    exact ⟨b, hb⟩
  · intro i len hsize hlen
    have hread := (s i).reader_le_writer
    have hwrite := (s i).writer_le_size
    unfold BufferOp.kMaxLength at hlen
    unfold Buffer.writableBytes Buffer.prependableBytes kCheapPrepend
    omega

/-- A buffer without initial space grows, gives its front away and slides
what is left down, and takes a header in front; then it is swapped with an
empty one. -/
def slideAndPrepend : List BufferAction :=
  [.op 0 (.append [1, 2, 3, 4, 5, 6]), .op 0 (.retrieve 5), .op 0 (.append [7, 8]),
    .op 0 (.prepend [9, 9, 9]), .op 0 (.unwrite 1), .swap 0 1]

theorem buffers_refine_strings_slideAndPrepend :
    ∃ s, machine.run slideAndPrepend (start fun _ => 0) = some s ∧
      (s 1).readable = [9, 9, 9, 6, 7] ∧ (s 0).readable = [] := by
  obtain ⟨s, hr⟩ : ∃ s, machine.run slideAndPrepend (start fun _ => 0) = some s := ⟨_, rfl⟩
  obtain ⟨-, -, hread, -⟩ := buffers_refine_strings hr
  refine ⟨s, hr, ?_, ?_⟩
  · exact (congrFun hread 1).trans (by decide)
  · exact (congrFun hread 0).trans (by decide)

end Buffers

end Libanet.Net
