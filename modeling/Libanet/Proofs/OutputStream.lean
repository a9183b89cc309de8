import Libanet.Lib.Machine
import Libanet.Proofs.SendPath

/-!
# The output stream of a connection

A `sendInLoop` may reach the socket at once, in part, or not at all; what
it does not write waits in the output buffer and leaves through
`handleWrite`. However the writes fall, the socket has been handed a prefix
of what was sent and the buffer holds the rest: the stream only ever grows,
and only at its end, by the data of a `sendInLoop` that was not dropped.

The handlers that bring the connection up and down, and those that only
touch read interest, matter to the coupling alone: they must leave the
write bit and the buffer in step, or take the connection down.
-/

namespace Libanet.Net

namespace TcpConnection

/-- A connection as the constructor and the setters leave it. -/
structure Fresh (c : TcpConnection) : Prop where
  state : c.state = .kConnecting
  events : c.channel.events = Channel.kNoneEvent
  ops : c.socket.ops = []
  readable : c.outputBuffer.readable = []
  posted : c.posted = []
  log : c.log = []

/-- With nothing called back, `connectDestroyed` either takes the
connection down or leaves it as it is, and the output alone in both cases. -/
theorem connectDestroyed_nil_spec {c c' : TcpConnection}
    (h : c.connectDestroyed [] = .ok c') :
    c'.outputBuffer = c.outputBuffer ∧ c'.socket = c.socket ∧
      (c'.state = .kDisconnected ∨
        c'.state = c.state ∧ c'.channel.isWriting = c.channel.isWriting) := by
  unfold connectDestroyed at h
  by_cases hup : c.state = .kConnected
  · rw [if_pos hup] at h
    cases h
    exact ⟨rfl, rfl, Or.inl rfl⟩
  · rw [if_neg hup] at h
    obtain ⟨c₁, hc₁, h⟩ := bind_eq_ok.mp h
    cases hc₁
    obtain ⟨ch, hch, h⟩ := bind_eq_ok.mp h
    obtain ⟨-, hch⟩ := assertThat_bind_eq_ok.mp hch
    cases hch
    cases h
    exact ⟨rfl, rfl, Or.inr ⟨rfl, rfl⟩⟩

end TcpConnection

/-! ## Whole runs -/

/-- The steps the loop thread takes on one connection. The calls a user
callback makes are steps of their own, so the callbacks themselves are
empty here. -/
inductive LoopStep where
  | connectEstablished
  | sendInLoop (data : List UInt8) (w : WriteResult)
  | handleWrite (w : WriteResult)
  | shutdownInLoop
  | startReadInLoop
  | stopReadInLoop
  | handleClose
  | connectDestroyed
  deriving DecidableEq

open TcpConnection in
/-- One connection under its loop thread. -/
def loopThread : Machine TcpConnection LoopStep Fault where
  guard c
    | .sendInLoop data w => w.fits data.length
    | .handleWrite w => w.fits c.outputBuffer.readableBytes
    | _ => true
  exec
    | .connectEstablished, c => c.connectEstablished []
    | .sendInLoop data w, c => c.sendInLoop data w
    | .handleWrite w, c => c.handleWrite w
    | .shutdownInLoop, c => .ok c.shutdownInLoop
    | .startReadInLoop, c => .ok c.startReadInLoop
    | .stopReadInLoop, c => .ok c.stopReadInLoop
    | .handleClose, c => c.handleClose [] []
    | .connectDestroyed, c => c.connectDestroyed []

namespace TcpConnection

/-- The data of a step that was not dropped. -/
def acceptedData : TcpConnection × LoopStep → List UInt8
  | (c, .sendInLoop data w) => if c.drops w then [] else data
  | _ => []

/-- What one step of the loop thread does to the stream. -/
theorem loopStep_stream {c c' : TcpConnection} {a : LoopStep}
    (hg : loopThread.guard c a = true) (he : loopThread.exec a c = .ok c') :
    c'.stream = c.stream ++ acceptedData (c, a) := by
  cases a with
  | connectEstablished =>
      obtain ⟨-, hc⟩ := assertThat_bind_eq_ok.mp he
      cases hc
      simp [acceptedData, stream, setState, emit]
  | sendInLoop data w =>
      obtain ⟨c₁, hc, -, hs, -⟩ := sendInLoop_spec c data w
      cases hc.symm.trans he
      exact hs
  | handleWrite w =>
      obtain ⟨c₁, hc, -, hs, -⟩ := handleWrite_spec hg
      cases hc.symm.trans he
      simp [acceptedData, hs]
  | shutdownInLoop =>
      cases he
      obtain ⟨-, -, hbuf, hs⟩ := shutdownInLoop_spec c
      rw [stream, hbuf, hs]
      split <;> simp [acceptedData, stream]
  | startReadInLoop =>
      cases he
      obtain ⟨-, -, hbuf, hs⟩ := startReadInLoop_spec c
      simp [acceptedData, stream, hbuf, hs]
  | stopReadInLoop =>
      cases he
      obtain ⟨-, -, hbuf, hs⟩ := stopReadInLoop_spec c
      simp [acceptedData, stream, hbuf, hs]
  | handleClose =>
      obtain ⟨-, hc⟩ := assertThat_bind_eq_ok.mp he
      cases hc
      simp [acceptedData, stream, setState, emit]
  | connectDestroyed =>
      obtain ⟨hbuf, hs, -⟩ := connectDestroyed_nil_spec he
      simp [acceptedData, stream, hbuf, hs]

/-- The coupling is kept by every step, and a connection that is down stays
down. -/
theorem loopStep_coupled {c c' : TcpConnection} {a : LoopStep}
    (hc : c.state ≠ .kDisconnected → c.Coupled)
    (hg : loopThread.guard c a = true) (he : loopThread.exec a c = .ok c') :
    c'.state ≠ .kDisconnected → c'.Coupled := by
  cases a with
  | connectEstablished =>
      obtain ⟨hst, he⟩ := assertThat_bind_eq_ok.mp he
      have hcoup := hc (by rw [hst]; decide)
      cases he
      intro _
      simpa [Coupled, setState, emit] using hcoup
  | sendInLoop data w =>
      obtain ⟨c₁, he₁, hstep, -, hcoup, -⟩ := sendInLoop_spec c data w
      cases he₁.symm.trans he
      intro hup
      exact hcoup (hc (by rwa [← hstep.state]))
  | handleWrite w =>
      obtain ⟨c₁, he₁, hstep, -, hcoup, -⟩ := handleWrite_spec hg
      cases he₁.symm.trans he
      intro hup
      exact hcoup (hc (by rwa [← hstep.state]))
  | shutdownInLoop =>
      cases he
      obtain ⟨hstep, hch, hbuf, -⟩ := shutdownInLoop_spec c
      rw [hstep.state, Coupled, hch, hbuf]
      exact hc
  | startReadInLoop =>
      cases he
      obtain ⟨hstep, hch, hbuf, -⟩ := startReadInLoop_spec c
      rw [hstep.state, Coupled, hch, hbuf]
      exact hc
  | stopReadInLoop =>
      cases he
      obtain ⟨hstep, hch, hbuf, -⟩ := stopReadInLoop_spec c
      rw [hstep.state, Coupled, hch, hbuf]
      exact hc
  | handleClose =>
      obtain ⟨-, he⟩ := assertThat_bind_eq_ok.mp he
      cases he
      intro hup
      exact absurd rfl hup
  | connectDestroyed =>
      obtain ⟨hbuf, -, hdown | ⟨hst, hw⟩⟩ := connectDestroyed_nil_spec he
      · exact fun hup => absurd hdown hup
      · rw [hst, Coupled, hw, hbuf]
        exact hc

/-- A connection as constructed, but for an output buffer that starts
without space. -/
def small : TcpConnection :=
  { new 0 "small" false false with outputBuffer := Buffer.new 0 }

theorem small_fresh : small.Fresh := by
  constructor <;> rfl

end TcpConnection

end Libanet.Net
