import Mathlib.Data.List.Basic
import Libanet.Lib.Outcome

/-!
# Reading a file

An open file is its bytes and a position. A read takes bytes from there and
moves the position past them; a seek moves it anywhere but before the start,
and past the end as well. A reader is a computation over the file that may
stop with an error, and it is specified by what it makes of known bytes:
`Ends` says how it ends in front of `bytes` when `after` comes next, with an
error, or with an answer and `after` left to be read. The latter is `Reads`.
Such statements compose along the bytes, which is how the reader of a format
is checked against the format piece by piece.

Where nothing is known of the bytes, a reader of a fixed size is specified by
what it makes of any: `Takes` says that it takes so many and answers with a
value of them, or stops where there are fewer. A list of values is then read
in `chunks`.
-/

namespace Libanet

structure ByteFile where
  content : List UInt8
  pos : Nat := 0
  deriving DecidableEq, Repr

namespace ByteFile

/-- What is still to be read. -/
def rest (f : ByteFile) : List UInt8 := f.content.drop f.pos

def advance (n : Nat) (f : ByteFile) : ByteFile := { f with pos := f.pos + n }

theorem rest_advance_eq (f : ByteFile) (n : Nat) : (f.advance n).rest = f.rest.drop n := by
  rw [rest, rest, advance, List.drop_drop]

theorem rest_advance {f : ByteFile} {bytes after : List UInt8} (h : f.rest = bytes ++ after) :
    (f.advance bytes.length).rest = after := by
  rw [rest_advance_eq, h, List.drop_left]

end ByteFile

abbrev ByteReader (ε : Type) := StateT ByteFile (Except ε)

variable {ε α β : Type}

namespace ByteReader

/-- Up to `n` bytes. -/
def fread (n : Nat) : ByteReader ε (List UInt8) := fun f =>
  .ok (f.rest.take n, f.advance (f.rest.take n).length)

/-- All that is left. -/
def readToEnd : ByteReader ε (List UInt8) := fun f =>
  .ok (f.rest, f.advance f.rest.length)

/-- Relative to the position. A seek to before the start fails and leaves the
position where it is. -/
def fseek (n : Int) : ByteReader ε Unit := fun f =>
  .ok ((), if 0 ≤ (f.pos : Int) + n then { f with pos := ((f.pos : Int) + n).toNat } else f)

/-- The same `n` times. -/
def many (r : ByteReader ε α) : Nat → ByteReader ε (List α)
  | 0 => pure []
  | n + 1 => do
      let x ← r
      let xs ← many r n
      return x :: xs

end ByteReader

def Ends (r : ByteReader ε α) (bytes after : List UInt8) (out : Except ε α) : Prop :=
  ∀ f : ByteFile, f.rest = bytes ++ after → r f = out.map fun x => (x, f.advance bytes.length)

abbrev Reads (r : ByteReader ε α) (bytes after : List UInt8) (x : α) : Prop :=
  Ends r bytes after (.ok x)

theorem Reads.pure (x : α) (after : List UInt8) :
    Reads (Pure.pure x : ByteReader ε α) [] after x := fun _ _ => rfl

theorem bind_apply {r : ByteReader ε α} {k : α → ByteReader ε β} {f f' : ByteFile} {x : α}
    (h : r f = .ok (x, f')) : (r >>= k) f = k x f' := by
  show (r f >>= fun p => k p.1 p.2) = _
  rw [h]
  rfl

theorem bind_apply_error {r : ByteReader ε α} {k : α → ByteReader ε β} {f : ByteFile} {e : ε}
    (h : r f = .error e) : (r >>= k) f = .error e := by
  show (r f >>= fun p => k p.1 p.2) = _
  rw [h]
  rfl

theorem Reads.bind {r : ByteReader ε α} {k : α → ByteReader ε β} {x : α} {out : Except ε β}
    {bytes next after : List UInt8} (h : Reads r bytes (next ++ after) x)
    (hk : Ends (k x) next after out) : Ends (r >>= k) (bytes ++ next) after out := by
  intro f hf
  rw [List.append_assoc] at hf
  rw [bind_apply (h f hf), hk _ (ByteFile.rest_advance hf), List.length_append]
  simp only [ByteFile.advance, Nat.add_assoc]

/-- A reader that reads nothing of its own. -/
theorem Reads.bind_nil {r : ByteReader ε α} {k : α → ByteReader ε β} {x : α}
    {out : Except ε β} {bytes after : List UInt8} (h : Reads r [] (bytes ++ after) x)
    (hk : Ends (k x) bytes after out) : Ends (r >>= k) bytes after out :=
  h.bind hk

/-- Something made of what was read. -/
theorem Ends.bind_pure {r : ByteReader ε α} {out : Except ε α} {bytes after : List UInt8}
    (h : Ends r bytes after out) (g : α → β) :
    Ends (r >>= fun x => Pure.pure (g x)) bytes after (out.map g) := by
  intro f hf
  have hr := h f hf
  cases out with
  | ok x =>
      rw [bind_apply hr]
      rfl
  | error e =>
      show (r f >>= _) = _
      rw [hr]
      rfl

theorem Reads.bind_pure {r : ByteReader ε α} {g : α → β} {x : α} {y : β}
    {bytes after : List UInt8} (h : Reads r bytes after x) (hg : g x = y) :
    Reads (r >>= fun x => Pure.pure (g x)) bytes after y :=
  hg ▸ Ends.bind_pure h g

theorem reads_lift (x : α) (after : List UInt8) :
    Reads (liftM (Except.ok x : Except ε α) : ByteReader ε α) [] after x := fun _ _ => rfl

/-- A computation that reads nothing, and may fail. -/
theorem ends_lift {x : Except ε α} {k : α → ByteReader ε β} {g : α → Except ε β}
    {bytes after : List UInt8} (h : ∀ a, x = .ok a → Ends (k a) bytes after (g a)) :
    Ends (liftM x >>= k) bytes after (x >>= g) := by
  intro f hf
  cases hx : x with
  | ok a => exact h a hx f hf
  | error e => rfl

theorem reads_fread {n : Nat} {bytes : List UInt8} (after : List UInt8) (h : bytes.length = n) :
    Reads (ByteReader.fread n : ByteReader ε _) bytes after bytes := by
  intro f hf
  have htake : f.rest.take n = bytes := by rw [hf, ← h, List.take_left]
  rw [ByteReader.fread, htake]
  rfl

theorem reads_readToEnd (bytes : List UInt8) :
    Reads (ByteReader.readToEnd : ByteReader ε _) bytes [] bytes := by
  intro f hf
  rw [List.append_nil] at hf
  rw [ByteReader.readToEnd, hf]
  rfl

theorem fseek_forwards (n : Nat) (f : ByteFile) :
    (ByteReader.fseek n : ByteReader ε _) f = .ok ((), f.advance n) := by
  have hpos : 0 ≤ (f.pos : Int) + n := by omega
  have hto : ((f.pos : Int) + n).toNat = f.pos + n := by omega
  rw [ByteReader.fseek, if_pos hpos, hto]
  rfl

/-- Skipping forwards. -/
theorem reads_fseek {n : Int} {bytes : List UInt8} (after : List UInt8)
    (h : (bytes.length : Int) = n) :
    Reads (ByteReader.fseek n : ByteReader ε _) bytes after () := by
  intro f _
  rw [← h]
  exact fseek_forwards bytes.length f

/-- Seeking back to the start of what was just read. -/
theorem Reads.bind_back {r : ByteReader ε α} {k : α → ByteReader ε β} {k' : ByteReader ε β}
    {x : α} {n : Int} {out : Except ε β} {bytes next after : List UInt8}
    (h : Reads r bytes (next ++ after) x) (hn : n = -(bytes.length : Int))
    (hk : k x = ByteReader.fseek n >>= fun _ => k') (hk' : Ends k' (bytes ++ next) after out) :
    Ends (r >>= k) (bytes ++ next) after out := by
  intro f hf
  have hseek : (ByteReader.fseek n : ByteReader ε _) (f.advance bytes.length) = .ok ((), f) := by
    have hpos : (0 : Int) ≤ ((f.advance bytes.length).pos : Int) + n := by
      simp only [ByteFile.advance]
      omega
    have hto : (((f.advance bytes.length).pos : Int) + n).toNat = f.pos := by
      simp only [ByteFile.advance]
      omega
    rw [ByteReader.fseek, if_pos hpos, hto]
    rfl
  have hread := h f ((hf.trans (List.append_assoc _ _ _)))
  rw [bind_apply hread, hk, bind_apply hseek, hk' f hf]

theorem reads_many {r : ByteReader ε α} {enc : β → List UInt8} {val : β → α} {xs : List β}
    (h : ∀ x ∈ xs, ∀ after, Reads r (enc x) after (val x)) (after : List UInt8) :
    Reads (ByteReader.many r xs.length) (xs.flatMap enc) after (xs.map val) := by
  induction xs with
  | nil => exact Reads.pure [] after
  | cons x xs ih =>
      have hx := h x List.mem_cons_self (xs.flatMap enc ++ after)
      have hxs := ih fun y hy => h y (List.mem_cons_of_mem x hy)
      rw [List.flatMap_cons]
      exact hx.bind (hxs.bind_pure rfl)

/-! ## Readers of a fixed size -/

/-- The first `n` pieces of `k` bytes. -/
def chunks (k : Nat) : Nat → List UInt8 → List (List UInt8)
  | 0, _ => []
  | n + 1, bytes => bytes.take k :: chunks k n (bytes.drop k)

theorem length_chunks (k n : Nat) (bytes : List UInt8) : (chunks k n bytes).length = n := by
  induction n generalizing bytes with
  | zero => rfl
  | succ n ih => rw [chunks, List.length_cons, ih]

/-- They are all in the bytes they take. -/
theorem chunks_take (k n : Nat) (bytes : List UInt8) :
    chunks k n (bytes.take (k * n)) = chunks k n bytes := by
  induction n generalizing bytes with
  | zero => rfl
  | succ n ih =>
      have hmul : k * (n + 1) = k + k * n := by rw [Nat.mul_succ, Nat.add_comm]
      have hmin : min k (k + k * n) = k := Nat.min_eq_left (Nat.le_add_right _ _)
      have hrest : k + k * n - k = k * n := Nat.add_sub_cancel_left _ _
      rw [chunks, chunks, List.take_take, List.drop_take, hmul, hmin, hrest, ih]

/-- `r` takes `k` bytes and answers with their `val`; where there are fewer it
stops with an error of `E`. -/
structure Takes (E : ε → Prop) (r : ByteReader ε α) (k : Nat) (val : List UInt8 → α) :
    Prop where
  enough : ∀ f : ByteFile, k ≤ f.rest.length → r f = .ok (val (f.rest.take k), f.advance k)
  short : ∀ f : ByteFile, f.rest.length < k → ∃ e, E e ∧ r f = .error e

namespace Takes

variable {E : ε → Prop} {r : ByteReader ε α} {k : Nat} {val : List UInt8 → α}

theorem pure (x : α) : Takes E (Pure.pure x : ByteReader ε α) 0 fun _ => x :=
  ⟨fun _ _ => rfl, fun _ h => absurd h (Nat.not_lt_zero _)⟩

/-- Only the bytes that are taken matter. -/
theorem congr (h : Takes E r k val) {k' : Nat} {val' : List UInt8 → α} (hk : k = k')
    (hval : ∀ bytes, bytes.length = k → val bytes = val' bytes) : Takes E r k' val' := by
  subst hk
  refine ⟨fun f hf => ?_, h.short⟩
  rw [h.enough f hf, hval _ (List.length_take_of_le hf)]

theorem bind (h : Takes E r k val) {s : α → ByteReader ε β} {l : Nat}
    {val' : α → List UInt8 → β} (hs : ∀ x, Takes E (s x) l (val' x)) :
    Takes E (r >>= s) (k + l) fun bytes => val' (val (bytes.take k)) (bytes.drop k) := by
  constructor
  · intro f hf
    have hnext : l ≤ (f.advance k).rest.length := by
      rw [ByteFile.rest_advance_eq, List.length_drop]
      omega
    have hmin : min k (k + l) = k := Nat.min_eq_left (Nat.le_add_right _ _)
    have hrest : k + l - k = l := Nat.add_sub_cancel_left _ _
    rw [bind_apply (h.enough f (by omega)), (hs _).enough _ hnext, ByteFile.rest_advance_eq,
      List.take_take, List.drop_take, hmin, hrest]
    simp only [ByteFile.advance, Nat.add_assoc]
  · intro f hf
    by_cases hfirst : f.rest.length < k
    · obtain ⟨e, he, hr⟩ := h.short f hfirst
      exact ⟨e, he, bind_apply_error hr⟩
    · have hnext : (f.advance k).rest.length < l := by
        rw [ByteFile.rest_advance_eq, List.length_drop]
        omega
      obtain ⟨e, he, hr⟩ := (hs _).short _ hnext
      exact ⟨e, he, (bind_apply (h.enough f (by omega))).trans hr⟩

theorem bind_pure (h : Takes E r k val) (g : α → β) :
    Takes E (r >>= fun x => Pure.pure (g x)) k fun bytes => g (val bytes) := by
  refine (h.bind fun x => Takes.pure (g x)).congr (Nat.add_zero k) fun bytes hlen => ?_
  rw [List.take_of_length_le (by omega)]

theorem many (h : Takes E r k val) (n : Nat) :
    Takes E (ByteReader.many r n) (k * n) fun bytes => (chunks k n bytes).map val := by
  induction n with
  | zero => exact Takes.pure []
  | succ n ih =>
      refine (h.bind fun x => ih.bind_pure (x :: ·)).congr ?_ fun _ _ => rfl
      rw [Nat.mul_succ, Nat.add_comm]

/-- What comes after a reader is reached if there are enough bytes. -/
theorem endsIn_bind {bad : ε → Prop} (h : Takes (fun e => ¬bad e) r k val)
    {s : α → ByteReader ε β} {Q : β × ByteFile → Prop} {f : ByteFile} :
    EndsIn bad Q ((r >>= s) f) ↔
      (k ≤ f.rest.length → EndsIn bad Q (s (val (f.rest.take k)) (f.advance k))) := by
  by_cases hf : k ≤ f.rest.length
  · rw [bind_apply (h.enough f hf)]
    exact ⟨fun h _ => h, fun h => h hf⟩
  · obtain ⟨e, he, hr⟩ := h.short f (Nat.not_le.mp hf)
    rw [bind_apply_error hr]
    exact iff_of_true he fun hle => absurd hle hf

end Takes

theorem fread_of_le {n : Nat} {f : ByteFile} (h : n ≤ f.rest.length) :
    (ByteReader.fread n : ByteReader ε _) f = .ok (f.rest.take n, f.advance n) := by
  rw [ByteReader.fread, List.length_take_of_le h]

end Libanet
