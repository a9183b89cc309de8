import Libanet.Net.SendBuffer
import Libanet.Proofs.BufferShrink

/-!
# `send(Buffer *)` on the two threads

Both paths empty the buffer, and to the connection either is the `send` of the
content. What differs is the length that `sendInLoop` is told. The direct call
tells it the buffer's, and the functor one that has been an `int`. So the two
agree as long as an `int` holds the length, and no longer.
-/

namespace Libanet.Net.TcpConnection

theorem sendBuffer_inLoop {c : TcpConnection} (hc : c.state = .kConnected) (buf : Buffer) :
    c.sendBuffer true buf = .ok (buf.retrieveAll,
      .called ⟨buf.buffer.drop buf.readerIndex, buf.readableBytes⟩) := by
  unfold sendBuffer
  rw [if_pos hc, if_pos rfl]

theorem sendBuffer_elsewhere {c : TcpConnection} (hc : c.state = .kConnected) (buf : Buffer) :
    ∃ buf', c.sendBuffer false buf = .ok (buf', .queued buf.readable) ∧ buf'.readable = [] := by
  obtain ⟨buf', hstring, hread⟩ := Buffer.retireveAsString_spec (Nat.le_refl buf.readableBytes)
  rw [← buf.length_readable, List.take_length] at hstring
  rw [← buf.length_readable, List.drop_length] at hread
  refine ⟨buf', ?_, hread⟩
  unfold sendBuffer Buffer.retrieveAllAsString
  rw [if_pos hc, if_neg Bool.false_ne_true, ← buf.length_readable]
  exact bind_eq_ok.mpr ⟨_, hstring, rfl⟩

/-- On either thread, what `send(Buffer *)` does to the connection is what
`send` of the content does. -/
theorem sendBuffer_onConnection {c : TcpConnection} {inLoop : Bool} {buf buf' : Buffer}
    {s : Sending} (h : c.sendBuffer inLoop buf = .ok (buf', s)) (w : WriteResult) :
    s.onConnection w c = c.send inLoop buf.readable w := by
  by_cases hc : c.state = .kConnected
  · unfold send
    rw [if_pos hc]
    cases inLoop with
    | true =>
        cases (sendBuffer_inLoop hc buf).symm.trans h
        rw [if_pos rfl]
        rfl
    | false =>
        obtain ⟨buf₁, hsend, -⟩ := sendBuffer_elsewhere hc buf
        cases hsend.symm.trans h
        rw [if_neg Bool.false_ne_true]
        rfl
  · unfold sendBuffer at h
    unfold send
    rw [if_neg hc] at h ⊢
    cases h
    rfl

/-- The string of a functor arrives as it was sent if and only if an `int`
can hold its length. -/
theorem exactly_ofString_iff {message : List UInt8} (h : message.length < 2 ^ 62) :
    (SendArgs.ofPiece (.ofString message)).Exactly message ↔ message.length < 2 ^ 31 := by
  have hlen : (SendArgs.ofPiece (.ofString message)).len = throughInt message.length := by
    simp only [SendArgs.ofPiece, StringPiece.ofString, throughInt]
  constructor
  · intro hexact
    exact (throughInt_eq_iff h).mp (hlen.symm.trans hexact.1)
  · intro hlt
    have hsame := hlen.trans (throughInt_of_lt hlt)
    refine ⟨hsame, ?_⟩
    unfold SendArgs.bytes
    rw [hsame]
    exact List.take_left

/-- `send(Buffer *)` empties the buffer and has `sendInLoop` called once, with
exactly its content. -/
def HandsOver (c : TcpConnection) (inLoop : Bool) (buf : Buffer) : Prop :=
  ∃ buf' s args, c.sendBuffer inLoop buf = .ok (buf', s) ∧ buf'.readable = [] ∧
    s.received = [args] ∧ args.Exactly buf.readable

theorem handsOver_inLoop {c : TcpConnection} (hc : c.state = .kConnected) (buf : Buffer) :
    c.HandsOver true buf :=
  ⟨_, _, _, sendBuffer_inLoop hc buf, buf.readable_retrieveAll, rfl,
    buf.length_readable.symm, rfl⟩

theorem handsOver_elsewhere_iff {c : TcpConnection} (hc : c.state = .kConnected) {buf : Buffer}
    (hread : buf.readableBytes < 2 ^ 62) :
    c.HandsOver false buf ↔ buf.readableBytes < 2 ^ 31 := by
  rw [← buf.length_readable] at hread ⊢
  obtain ⟨buf', hsend, hempty⟩ := sendBuffer_elsewhere hc buf
  rw [← exactly_ofString_iff hread]
  constructor
  · intro h
    obtain ⟨buf₁, s, args, hsend', -, hreceived, hexact⟩ := h
    cases hsend.symm.trans hsend'
    cases hreceived
    exact hexact
  · intro hexact
    exact ⟨buf', _, _, hsend, hempty, rfl, hexact⟩

/-- Every connected connection, and every buffer: both paths hand the content
over if and only if an `int` can hold its length. -/
theorem handsOver_iff_lt {c : TcpConnection} (hc : c.state = .kConnected) (buf : Buffer)
    (hread : buf.readableBytes < 2 ^ 62) :
    (∀ inLoop, c.HandsOver inLoop buf) ↔ buf.readableBytes < 2 ^ 31 := by
  rw [← handsOver_elsewhere_iff hc hread]
  constructor
  · intro h
    exact h false
  · intro h inLoop
    cases inLoop with
    | true => exact handsOver_inLoop hc buf
    | false => exact h

/-- A connection that is up. -/
def established : TcpConnection := (new 0 "" false false).setState .kConnected

theorem handsOver_iff_lt_threeBytes :
    (Buffer.holding 3).readable = [0, 0, 0] ∧
      ∀ inLoop, established.HandsOver inLoop (.holding 3) :=
  ⟨rfl, (handsOver_iff_lt rfl (.holding 3) (by decide)).mpr (by decide)⟩

/-- Two gibibytes are too much for the other thread. -/
theorem not_handsOver_twoGibibytes :
    ¬ ∀ inLoop, established.HandsOver inLoop (.holding (2 ^ 31)) := by
  intro h
  have hread := Buffer.readableBytes_holding (2 ^ 31)
  have hlt := (handsOver_elsewhere_iff rfl (by omega)).mp (h false)
  omega

end Libanet.Net.TcpConnection
