import Libanet.Net.ReceiveBuffer
import Libanet.Proofs.GracefulShutdown

/-!
# From one connection to the other

A user thread hands its messages to the loop of one connection. They travel
through the loop's queue, the socket or the output buffer and then the socket,
the network, and the input buffer of the connection at the other end, whose
user takes them out. Each of these is a list of bytes, and at every moment they
make up, one behind the other, what was accepted. How the sends are cut into
writes, and these into reads, leaves no trace.

The half-close travels behind the bytes. If it does not come too early,
`premature`, the reader finds the end of the stream behind the last byte, and
goes down with all of it received.

The reader does what it likes besides: sends, stops reading, starts again. If
it is willing to read and nothing is left to be done, then nothing is left on
the way, and a sender that has shut down has brought the reader down.

This is one direction, while the sender is up. The sender does not read, so
that it is told nothing of what the other end sends or closes, and its writes
take what they can or would block, and do not fail otherwise.
-/

namespace Libanet.Net

/-- The sender with its user thread and its loop, the receiver, and how much of
what the sender's socket was handed the receiver has taken from its own. -/
structure DeliverySystem where
  sender : ShutdownSystem
  receiver : Receiver
  taken : Nat

/-- Nothing that opens or closes the connection. -/
def LoopStep.staysUp : LoopStep → Bool
  | .connectEstablished => false
  | .handleClose => false
  | .connectDestroyed => false
  | _ => true

inductive DeliveryStep where
  | sender (a : ShutdownStep)
  /-- The receiver's socket is readable, and `n` bytes are read, none only if
  there are none to come. -/
  | read (n : Nat) (receiveTime : Timestamp)
  /-- Reading fails for now. -/
  | readFails (receiveTime : Timestamp)
  /-- The receiver's user takes bytes from the buffer. -/
  | retrieve (len : Nat)
  /-- The receiver's loop does something else. -/
  | receiver (a : LoopStep)

namespace DeliverySystem

/-- What the network has and the receiver has not taken yet. -/
def inFlight (s : DeliverySystem) : List UInt8 := s.sender.conn.socket.sent.drop s.taken

/-- The sender has closed its half. -/
def halfClosed (s : DeliverySystem) : Bool := s.sender.conn.socket.ops.contains .shutdownWrite

/-- A read of `n` bytes is what the network can answer. -/
def answers (s : DeliverySystem) (n : Nat) : Bool :=
  if n = 0 then s.inFlight.isEmpty && s.halfClosed else n ≤ s.inFlight.length

def guard (s : DeliverySystem) : DeliveryStep → Bool
  | .sender a => s.sender.guard a
  | .read n _ => s.receiver.conn.channel.isReading && s.answers n
  | .readFails _ => s.receiver.conn.channel.isReading
  | .retrieve len => len ≤ s.receiver.inputBuffer.readableBytes
  | .receiver a => a.staysUp && loopThread.guard s.receiver.conn a

def exec (readFd : ReadFd) : DeliveryStep → DeliverySystem → Except Fault DeliverySystem
  | .sender a, s => do
      let sender ← ShutdownSystem.exec a s.sender
      return { s with sender := sender }
  | .read n t, s => do
      let receiver ← s.receiver.handleRead readFd (.brought (s.inFlight.take n)) t
      return { s with receiver := receiver, taken := s.taken + n }
  | .readFails t, s => do
      let receiver ← s.receiver.handleRead readFd .failed t
      return { s with receiver := receiver }
  | .retrieve len, s => do
      let receiver ← s.receiver.retrieve len
      return { s with receiver := receiver }
  | .receiver a, s => do
      let conn ← loopThread.exec a s.receiver.conn
      return { s with receiver := { s.receiver with conn := conn } }

def machine (readFd : ReadFd) : Machine DeliverySystem DeliveryStep Fault := ⟨guard, exec readFd⟩

/-- The sender's half-close comes too early. -/
def premature (s : DeliverySystem) : DeliveryStep → Bool
  | .sender a => s.sender.premature a
  | _ => false

end DeliverySystem

/-! ## What the sender never takes back -/

theorem Socket.write_grows (sock : Socket) (data : List UInt8) (w : WriteResult) :
    sock.ops <+: (sock.write data w).ops := by
  cases w with
  | wrote n => exact List.prefix_append _ _
  | failed err => exact List.prefix_append _ _

theorem Socket.ops_prefix_of_eq {a b : Socket} (h : b = a) : a.ops <+: b.ops := by
  subst h
  exact List.prefix_refl _

theorem Socket.sent_prefix {a b : Socket} (h : a.ops <+: b.ops) : a.sent <+: b.sent := by
  obtain ⟨more, hmore⟩ := h
  refine ⟨more.flatMap SocketOp.accepted, ?_⟩
  rw [Socket.sent, Socket.sent, ← hmore, List.flatMap_append]

namespace ShutdownSystem

/-- What a `send` of the user thread does. -/
theorem send_cases {s t : ShutdownSystem} (he : s.send = .ok t) :
    t = s ∨ ∃ m ms, s.messages = m :: ms ∧
      (s.conn.state = .kConnected ∧ t = { s with
          conn := s.conn.queueInLoop (.sendInLoop m), messages := ms
          accepted := s.accepted ++ m } ∨
        s.conn.state ≠ .kConnected ∧ t = { s with messages := ms }) := by
  unfold send at he
  split at he
  · cases he
    exact Or.inl rfl
  · next m ms hm =>
      obtain ⟨c, hc, he⟩ := bind_eq_ok.mp he
      cases he
      refine Or.inr ⟨m, ms, hm, ?_⟩
      unfold TcpConnection.send at hc
      by_cases hup : s.conn.state = .kConnected
      · rw [if_pos hup] at hc
        cases hc
        have hconnected : s.conn.connected = true := decide_eq_true hup
        exact Or.inl ⟨hup, by rw [hconnected, if_pos rfl]⟩
      · rw [if_neg hup] at hc
        cases hc
        have hconnected : s.conn.connected = false := decide_eq_false hup
        exact Or.inr ⟨hup, by rw [hconnected, if_neg Bool.false_ne_true]⟩

theorem shutdown_cases (c : TcpConnection) :
    c.state = .kConnected ∧
        c.shutdown false = (c.setState .kDisconnecting).queueInLoop .shutdownInLoop ∨
      c.state ≠ .kConnected ∧ c.shutdown false = c := by
  unfold TcpConnection.shutdown
  by_cases hup : c.state = .kConnected
  · exact Or.inl ⟨hup, if_pos hup⟩
  · exact Or.inr ⟨hup, if_neg hup⟩

/-- What no step of the loop changes, and that the socket forgets nothing. -/
structure ByLoop (s t : ShutdownSystem) : Prop where
  ops : s.conn.socket.ops <+: t.conn.socket.ops
  state : t.conn.state = s.conn.state
  accepted : t.accepted = s.accepted
  messages : t.messages = s.messages
  shutdownCalled : t.shutdownCalled = s.shutdownCalled

theorem shutdownInLoop_grows (c : TcpConnection) :
    c.socket.ops <+: c.shutdownInLoop.socket.ops := by
  rw [(TcpConnection.shutdownInLoop_spec c).2.2.2]
  split
  · exact List.prefix_refl _
  · exact List.prefix_append _ _

theorem runFunctor_byLoop {s t : ShutdownSystem} (hi : s.Inv) {w : WriteResult}
    (he : s.runFunctor w = .ok t) : ByLoop s t := by
  unfold runFunctor at he
  split at he
  · cases he
    exact ⟨List.prefix_refl _, rfl, rfl, rfl, rfl⟩
  · next f fs hfs =>
      obtain ⟨c, hc, he⟩ := bind_eq_ok.mp he
      cases he
      rcases hi.expected f (by simp [queue, hfs]) with hf | rfl | hf
      · cases f with
        | sendInLoop m =>
            obtain ⟨c', hc', hstep, -, -, hsock, -⟩ := TcpConnection.sendInLoop_spec s.conn m w
            cases hc'.symm.trans hc
            refine ⟨?_, hstep.state, rfl, rfl, rfl⟩
            rcases hsock with heq | heq
            · exact Socket.ops_prefix_of_eq heq
            · exact (Socket.write_grows _ m w).trans (Socket.ops_prefix_of_eq heq)
        | _ => cases hf
      · cases hc
        exact ⟨shutdownInLoop_grows s.conn, (TcpConnection.shutdownInLoop_spec s.conn).1.state,
          rfl, rfl, rfl⟩
      · cases f with
        | writeCompleteCallback =>
            cases hc
            exact ⟨List.prefix_refl _, rfl, rfl, rfl, rfl⟩
        | highWaterMarkCallback len =>
            cases hc
            exact ⟨List.prefix_refl _, rfl, rfl, rfl, rfl⟩
        | _ => cases hf

theorem handleWrite_byLoop {s : ShutdownSystem} {w : WriteResult}
    (hg : s.guard (.handleWrite w) = true) {c : TcpConnection}
    (hc : s.conn.handleWrite w = .ok c) : ByLoop s { s with conn := c } := by
  simp only [guard, Bool.and_eq_true] at hg
  obtain ⟨c', hc', hstep, -, -, hidle, -, hsock⟩ := TcpConnection.handleWrite_spec hg.1.2
  cases hc'.symm.trans hc
  refine ⟨?_, hstep.state, rfl, rfl, rfl⟩
  show s.conn.socket.ops <+: c.socket.ops
  cases hw : s.conn.channel.isWriting with
  | false => exact Socket.ops_prefix_of_eq (congrArg TcpConnection.socket (hidle hw))
  | true =>
      have hgrows := Socket.write_grows s.conn.socket s.conn.outputBuffer.readable w
      rw [hsock hw]
      split
      · exact hgrows.trans (List.prefix_append _ _)
      · exact hgrows

/-- Every step is one of the user thread's two, or the loop's. -/
theorem step_cases {s t : ShutdownSystem} {a : ShutdownStep} (hi : s.Inv)
    (hg : s.guard a = true) (he : exec a s = .ok t) :
    s.send = .ok t ∨
      (s.messages = [] ∧ t = { s with conn := s.conn.shutdown false, shutdownCalled := true }) ∨
      ByLoop s t := by
  cases a with
  | send => exact Or.inl he
  | shutdown =>
      cases he
      simp only [guard, Bool.and_eq_true, List.isEmpty_iff] at hg
      exact Or.inr (Or.inl ⟨hg.1, rfl⟩)
  | swap =>
      cases he
      exact Or.inr (Or.inr ⟨List.prefix_refl _, rfl, rfl, rfl, rfl⟩)
  | runFunctor w => exact Or.inr (Or.inr (runFunctor_byLoop hi he))
  | functorsDone =>
      cases he
      exact Or.inr (Or.inr ⟨List.prefix_refl _, rfl, rfl, rfl, rfl⟩)
  | handleWrite w =>
      obtain ⟨c, hc, he⟩ := bind_eq_ok.mp he
      cases he
      exact Or.inr (Or.inr (handleWrite_byLoop hg hc))

/-- The socket forgets nothing, and who shuts down accepts no more. -/
theorem step_onward {s t : ShutdownSystem} {a : ShutdownStep} (hi : s.Inv)
    (hg : s.guard a = true) (he : exec a s = .ok t) :
    s.conn.socket.ops <+: t.conn.socket.ops ∧
      (s.conn.state = .kDisconnecting → t.accepted = s.accepted) := by
  rcases step_cases hi hg he with hsend | ⟨-, rfl⟩ | hloop
  · rcases send_cases hsend with rfl | ⟨m, ms, -, ⟨hup, rfl⟩ | ⟨-, rfl⟩⟩
    · exact ⟨List.prefix_refl _, fun _ => rfl⟩
    · refine ⟨List.prefix_refl _, fun h => ?_⟩
      cases hup.symm.trans h
    · exact ⟨List.prefix_refl _, fun _ => rfl⟩
  · refine ⟨Socket.ops_prefix_of_eq ?_, fun _ => rfl⟩
    rcases shutdown_cases s.conn with ⟨-, heq⟩ | ⟨-, heq⟩
    · show (s.conn.shutdown false).socket = _
      rw [heq]
      rfl
    · exact congrArg TcpConnection.socket heq
  · exact ⟨hloop.ops, fun _ => hloop.accepted⟩

/-! ## A shutdown is not forgotten -/

/-- A shutdown that was asked for has happened, or waits in the queue, or is
left to the write that drains the buffer. -/
structure Closing (s : ShutdownSystem) : Prop where
  asked : s.shutdownCalled = true → s.conn.state = .kDisconnecting
  pending : s.conn.state = .kDisconnecting → .shutdownWrite ∈ s.conn.socket.ops ∨
    .shutdownInLoop ∈ s.queue ∨ s.conn.channel.isWriting = true

/-- A send does not empty the buffer. -/
theorem isWriting_sendInLoop {c c' : TcpConnection} {m : List UInt8} {w : WriteResult}
    (hdrops : c.drops w = false) (hcoup : c.Coupled) (hw : c.channel.isWriting = true)
    (hc : c.sendInLoop m w = .ok c') : c'.channel.isWriting = true := by
  obtain ⟨c₁, hc₁, -, hstream, hcoup', hsock, -⟩ := TcpConnection.sendInLoop_spec c m w
  cases hc₁.symm.trans hc
  rw [hdrops, if_neg Bool.false_ne_true] at hstream
  refine (hcoup' hcoup).mpr fun hnil => hcoup.mp hw ?_
  -- all that was waiting, and the message, would have been written by one write of the message
  have hlen := congrArg List.length hstream
  have hsent : c'.socket.sent.length ≤ c.socket.sent.length + m.length := by
    rcases hsock with heq | heq
    · rw [heq]
      exact Nat.le_add_right _ _
    · rw [heq]
      cases w with
      | wrote n =>
          rw [Socket.sent_write_wrote, List.length_append, List.length_take]
          omega
      | failed err =>
          rw [Socket.sent_write_failed]
          exact Nat.le_add_right _ _
  simp only [TcpConnection.stream, List.length_append, hnil, List.length_nil] at hlen
  exact List.length_eq_zero_iff.mp (by omega)

/-- The write that drains the buffer of a connection that is disconnecting
half-closes it. -/
theorem handleWrite_pending {c c' : TcpConnection} {w : WriteResult}
    (hfit : w.fits c.outputBuffer.readableBytes = true) (hcoup : c.Coupled)
    (hst : c.state = .kDisconnecting) (hw : c.channel.isWriting = true)
    (hc : c.handleWrite w = .ok c') :
    .shutdownWrite ∈ c'.socket.ops ∨ c'.channel.isWriting = true := by
  obtain ⟨c₁, hc₁, -, hstream, hcoup', -, -, hsock⟩ := TcpConnection.handleWrite_spec hfit
  cases hc₁.symm.trans hc
  have hsock := hsock hw
  cases hd : c.drainsForShutdown w with
  | true =>
      rw [hd, if_pos rfl] at hsock
      rw [hsock]
      exact Or.inl (List.mem_append_right _ (List.mem_singleton_self _))
  | false =>
      rw [hd, if_neg Bool.false_ne_true] at hsock
      refine Or.inr ((hcoup' hcoup).mpr fun hnil => ?_)
      have hne : 0 < c.outputBuffer.readableBytes := by
        rw [← Buffer.length_readable]
        exact List.length_pos_iff.mpr (hcoup.mp hw)
      have hlen := congrArg List.length hstream
      simp only [TcpConnection.stream, List.length_append, hnil, List.length_nil, hsock,
        Buffer.length_readable] at hlen
      cases w with
      | failed err =>
          rw [Socket.sent_write_failed] at hlen
          omega
      | wrote n =>
          have hle : n ≤ c.outputBuffer.readableBytes := of_decide_eq_true hfit
          rw [Socket.sent_write_wrote, List.length_append, List.length_take,
            Buffer.length_readable] at hlen
          have hall : n = c.outputBuffer.readableBytes := by omega
          simp only [TcpConnection.drainsForShutdown, hw, hst, hall, Bool.and_true, Bool.true_and,
            decide_true, decide_eq_false_iff_not] at hd
          exact hd hne

theorem drops_of_noError {c : TcpConnection} {w : WriteResult} (hup : c.state ≠ .kDisconnected)
    (hw : w.noError = true) : c.drops w = false := by
  cases w with
  | wrote n => simp [TcpConnection.drops, hup]
  | failed err =>
      have herr : err = .EWOULDBLOCK := of_decide_eq_true hw
      simp [TcpConnection.drops, hup, herr]

/-- The loop has run the first functor of its batch. -/
theorem Closing.advance {s : ShutdownSystem} (hc : s.Closing) {f : ConnFunctor}
    {fs : List ConnFunctor} (hfs : s.functors = f :: fs) {c : TcpConnection}
    (hstep : s.conn.OutputStep c) (hops : s.conn.socket.ops <+: c.socket.ops)
    (hwriting : s.conn.channel.isWriting = true → c.channel.isWriting = true)
    (hf : f = .shutdownInLoop → .shutdownWrite ∈ c.socket.ops ∨ c.channel.isWriting = true) :
    Closing { s with conn := c, functors := fs } where
  asked hcalled := hstep.state.trans (hc.asked hcalled)
  pending hst := by
    obtain ⟨cbs, hposted, -⟩ := hstep.posted
    rcases hc.pending (hstep.state.symm.trans hst) with hhalf | hqueued | hw
    · exact Or.inl (hops.mem hhalf)
    · rw [queue, hfs, List.cons_append, List.mem_cons] at hqueued
      rcases hqueued with hhead | hrest
      · rcases hf hhead.symm with hhalf | hw
        · exact Or.inl hhalf
        · exact Or.inr (Or.inr hw)
      · refine Or.inr (Or.inl ?_)
        show _ ∈ fs ++ c.posted
        rw [hposted, ← List.append_assoc]
        exact List.mem_append_left cbs hrest
    · exact Or.inr (Or.inr (hwriting hw))

theorem runFunctor_closing {s t : ShutdownSystem} (hi : s.Inv) (hc : s.Closing)
    {w : WriteResult} (hg : s.guard (.runFunctor w) = true) (he : s.runFunctor w = .ok t) :
    t.Closing := by
  have hops := (runFunctor_byLoop hi he).ops
  unfold runFunctor at he
  split at he
  · cases he
    exact hc
  · next f fs hfs =>
      simp only [guard, hfs, Bool.and_eq_true] at hg
      obtain ⟨c, hrun, he⟩ := bind_eq_ok.mp he
      cases he
      rcases hi.expected f (by simp [queue, hfs]) with hf | rfl | hf
      · cases f with
        | sendInLoop m =>
            obtain ⟨c', hc', hstep, -⟩ := TcpConnection.sendInLoop_spec s.conn m w
            cases hc'.symm.trans hrun
            have hup : s.conn.state ≠ .kDisconnected := by
              rcases hi.state with hst | hst <;> simp [hst]
            exact hc.advance hfs hstep hops
              (fun hw => isWriting_sendInLoop (drops_of_noError hup hg.2) hi.coupled hw hrun)
              (fun h => by cases h)
        | _ => cases hf
      · cases hrun
        obtain ⟨hstep, hch, -, hsock⟩ := TcpConnection.shutdownInLoop_spec s.conn
        refine hc.advance hfs hstep hops (fun hw => by rw [hch]; exact hw) fun _ => ?_
        cases hw : s.conn.channel.isWriting with
        | true => exact Or.inr (by rw [hch]; exact hw)
        | false =>
            rw [hsock, hw, if_neg Bool.false_ne_true]
            exact Or.inl (List.mem_append_right _ (List.mem_singleton_self _))
      · have hsame : c = s.conn := by
          cases f with
          | writeCompleteCallback =>
              cases hrun
              rfl
          | highWaterMarkCallback len =>
              cases hrun
              rfl
          | _ => cases hf
        subst hsame
        refine hc.advance hfs (.refl s.conn) hops id fun hshut => ?_
        rw [hshut] at hf
        cases hf

theorem step_closing {s t : ShutdownSystem} {a : ShutdownStep} (hi : s.Inv) (hc : s.Closing)
    (hg : s.guard a = true) (he : exec a s = .ok t) : t.Closing := by
  cases a with
  | send =>
      rcases send_cases he with rfl | ⟨m, ms, -, ⟨hup, rfl⟩ | ⟨-, rfl⟩⟩
      · exact hc
      · refine ⟨fun hcalled => ?_, fun hst => ?_⟩
        · cases hup.symm.trans (hc.asked hcalled)
        · cases hup.symm.trans hst
      · exact ⟨hc.asked, hc.pending⟩
  | shutdown =>
      cases he
      rcases shutdown_cases s.conn with ⟨-, heq⟩ | ⟨hno, heq⟩
      · rw [heq]
        refine ⟨fun _ => rfl, fun _ => Or.inr (Or.inl ?_)⟩
        exact List.mem_append_right _ (List.mem_append_right _ (List.mem_singleton_self _))
      · rw [heq]
        exact ⟨fun _ => hi.state.resolve_left hno, hc.pending⟩
  | swap =>
      cases he
      have hidle : s.functors = [] := by
        refine hi.batch ?_
        simpa [guard] using hg
      refine ⟨hc.asked, fun hst => ?_⟩
      have hpending := hc.pending hst
      rw [queue, hidle, List.nil_append] at hpending
      rw [queue, List.append_nil]
      exact hpending
  | runFunctor w => exact runFunctor_closing hi hc hg he
  | functorsDone =>
      cases he
      exact ⟨hc.asked, hc.pending⟩
  | handleWrite w =>
      obtain ⟨c, hrun, he⟩ := bind_eq_ok.mp he
      cases he
      have hops := (handleWrite_byLoop hg hrun).ops
      simp only [guard, Bool.and_eq_true] at hg
      obtain ⟨c', hc', hstep, -⟩ := TcpConnection.handleWrite_spec hg.1.2
      cases hc'.symm.trans hrun
      refine ⟨fun hcalled => hstep.state.trans (hc.asked hcalled), fun hst => ?_⟩
      have hst := hstep.state.symm.trans hst
      obtain ⟨cbs, hposted, -⟩ := hstep.posted
      rcases hc.pending hst with hhalf | hqueued | hw
      · exact Or.inl (hops.mem hhalf)
      · refine Or.inr (Or.inl ?_)
        show _ ∈ s.functors ++ c.posted
        rw [hposted, ← List.append_assoc]
        exact List.mem_append_left cbs hqueued
      · rcases handleWrite_pending hg.1.2 hi.coupled hst hw hrun with hhalf | hw
        · exact Or.inl hhalf
        · exact Or.inr (Or.inr hw)

/-! ## What the user thread has to say -/

/-- The bytes accepted and those still to be sent; a shutdown comes last. -/
structure Sends (total : List UInt8) (s : ShutdownSystem) : Prop where
  ledger : s.accepted ++ s.messages.flatten = total
  last : s.conn.state = .kConnected ∨ s.messages = []

theorem step_sends {total : List UInt8} {s t : ShutdownSystem} {a : ShutdownStep} (hi : s.Inv)
    (h : s.Sends total) (hg : s.guard a = true) (he : exec a s = .ok t) : t.Sends total := by
  rcases step_cases hi hg he with hsend | ⟨hnone, rfl⟩ | hloop
  · rcases send_cases hsend with rfl | ⟨m, ms, hm, ⟨hup, rfl⟩ | ⟨hno, -⟩⟩
    · exact h
    · refine ⟨?_, Or.inl hup⟩
      have hledger := h.ledger
      rw [hm, List.flatten_cons, ← List.append_assoc] at hledger
      exact hledger
    · cases hm.symm.trans (h.last.resolve_left hno)
  · exact ⟨h.ledger, Or.inr hnone⟩
  · refine ⟨?_, ?_⟩
    · rw [hloop.accepted, hloop.messages]
      exact h.ledger
    · rw [hloop.state, hloop.messages]
      exact h.last

/-- Behind a half-close nothing was to be written. -/
theorem Inv.sent_eq_accepted {s : ShutdownSystem} (hi : s.Inv)
    (h : .shutdownWrite ∈ s.conn.socket.ops) : s.conn.socket.sent = s.accepted := by
  obtain ⟨pre, post, hops, -, hbytes, hpost⟩ := (hi.closed h).ops
  have hnone : post.flatMap SocketOp.accepted = [] := by
    rw [List.flatMap_eq_nil_iff]
    intro op hop
    rw [hpost op hop]
    rfl
  rw [Socket.sent, hops, List.flatMap_append, List.flatMap_cons, hnone, hbytes]
  exact List.append_nil _

end ShutdownSystem

/-! ## Both ends -/

namespace DeliverySystem

open ShutdownSystem in
/-- The receiver has the first bytes of the stream, and is down only if it has
found the end. -/
structure Inv (total : List UInt8) (s : DeliverySystem) : Prop where
  sender : s.sender.Inv
  closing : s.sender.Closing
  sends : s.sender.Sends total
  taken : s.taken ≤ s.sender.conn.socket.sent.length
  received : s.receiver.received = s.sender.conn.socket.sent.take s.taken
  down : s.receiver.conn.state = .kDisconnected →
    .shutdownWrite ∈ s.sender.conn.socket.ops ∧ s.receiver.received = s.sender.accepted

variable {readFd : ReadFd} {total : List UInt8} {s t : DeliverySystem}

theorem sender_inv (hi : s.Inv total) {a : ShutdownStep} (hg : s.sender.guard a = true)
    (hok : s.sender.premature a = false) {sender : ShutdownSystem}
    (he : ShutdownSystem.exec a s.sender = .ok sender) :
    Inv total { s with sender := sender } := by
  obtain ⟨hops, haccepted⟩ := ShutdownSystem.step_onward hi.sender hg he
  obtain ⟨more, hmore⟩ := Socket.sent_prefix hops
  have hrestrict : (ShutdownSystem.machine.restrict fun s a => !s.premature a).guard s.sender a =
      true := by
    refine Bool.and_eq_true_iff.mpr ⟨hg, ?_⟩
    show (!s.sender.premature a) = true
    rw [hok]
    rfl
  refine ⟨ShutdownSystem.step_inv hi.sender hrestrict he,
    ShutdownSystem.step_closing hi.sender hi.closing hg he,
    ShutdownSystem.step_sends hi.sender hi.sends hg he, ?_, ?_, ?_⟩
  · show s.taken ≤ sender.conn.socket.sent.length
    have htaken := hi.taken
    rw [← hmore, List.length_append]
    omega
  · show s.receiver.received = sender.conn.socket.sent.take s.taken
    rw [← hmore, List.take_append_of_le_length hi.taken]
    exact hi.received
  · intro hdown
    obtain ⟨hhalf, hall⟩ := hi.down hdown
    exact ⟨hops.mem hhalf, hall.trans (haccepted (hi.sender.closed hhalf).state).symm⟩

/-- The receiver does something that neither brings it down nor has to do with
what it has received. -/
theorem Inv.receiver (hi : s.Inv total) {r : Receiver}
    (hstate : r.conn.state = s.receiver.conn.state)
    (hreceived : r.received = s.receiver.received) : Inv total { s with receiver := r } where
  sender := hi.sender
  closing := hi.closing
  sends := hi.sends
  taken := hi.taken
  received := hreceived.trans hi.received
  down hdown := by
    obtain ⟨hhalf, hall⟩ := hi.down (hstate.symm.trans hdown)
    exact ⟨hhalf, hreceived.trans hall⟩

/-- Bytes come in. -/
theorem read_inv (hi : s.Inv total) {n : Nat} (hpos : 0 < n) (hn : n ≤ s.inFlight.length)
    {receiveTime : Timestamp} {r : Receiver}
    (he : s.receiver.handleRead readFd (.brought (s.inFlight.take n)) receiveTime = .ok r) :
    Inv total { s with receiver := r, taken := s.taken + n } := by
  have hlength : (s.inFlight.take n).length = n := List.length_take_of_le hn
  rw [Receiver.handleRead, ReadvResult.sign, hlength, if_pos hpos] at he
  cases he
  have hreceived : s.receiver.received ++ s.inFlight.take n =
      s.sender.conn.socket.sent.take (s.taken + n) := by
    rw [hi.received, List.take_add]
    rfl
  have hleft : s.inFlight.length = s.sender.conn.socket.sent.length - s.taken := List.length_drop
  refine ⟨hi.sender, hi.closing, hi.sends, ?_, ?_, fun hdown => ?_⟩
  · show s.taken + n ≤ s.sender.conn.socket.sent.length
    omega
  · rw [Receiver.received, readFd.readable_brought, ← List.append_assoc]
    exact hreceived
  · -- nothing is left to come in once the end was read
    obtain ⟨hhalf, hall⟩ := hi.down hdown
    have hsent := hi.sender.sent_eq_accepted hhalf
    have hlen := congrArg List.length (hi.received.symm.trans hall)
    rw [List.length_take_of_le hi.taken, ← hsent] at hlen
    omega

/-- The end of the stream comes in. -/
theorem readEnd_inv (hi : s.Inv total) (hempty : s.inFlight = []) (hhalf : s.halfClosed = true)
    {receiveTime : Timestamp} {r : Receiver}
    (he : s.receiver.handleRead readFd (.brought []) receiveTime = .ok r) :
    Inv total { s with receiver := r } := by
  have hhalf : .shutdownWrite ∈ s.sender.conn.socket.ops := List.contains_iff_mem.mp hhalf
  have hsame : (readFd.run (.brought []) s.receiver.inputBuffer).readable =
      s.receiver.inputBuffer.readable := by
    rw [readFd.readable_brought, List.append_nil]
  obtain ⟨conn, -, he⟩ := bind_eq_ok.mp he
  cases he
  have hreceived : s.receiver.retrieved ++
      (readFd.run (.brought []) s.receiver.inputBuffer).readable = s.receiver.received := by
    rw [hsame]
    rfl
  refine ⟨hi.sender, hi.closing, hi.sends, hi.taken, hreceived.trans hi.received,
    fun _ => ⟨hhalf, hreceived.trans ?_⟩⟩
  have htaken := hi.taken
  have hleft := List.drop_eq_nil_iff.mp hempty
  rw [hi.received, List.take_of_length_le (by omega)]
  exact hi.sender.sent_eq_accepted hhalf

theorem state_of_staysUp {a : LoopStep} {c c' : TcpConnection} (ha : a.staysUp = true)
    (hg : loopThread.guard c a = true) (he : loopThread.exec a c = .ok c') :
    c'.state = c.state := by
  cases a with
  | sendInLoop data w =>
      obtain ⟨c₁, hc₁, hstep, -⟩ := TcpConnection.sendInLoop_spec c data w
      cases hc₁.symm.trans he
      exact hstep.state
  | handleWrite w =>
      obtain ⟨c₁, hc₁, hstep, -⟩ := TcpConnection.handleWrite_spec hg
      cases hc₁.symm.trans he
      exact hstep.state
  | shutdownInLoop =>
      cases he
      exact (TcpConnection.shutdownInLoop_spec c).1.state
  | startReadInLoop =>
      cases he
      exact (TcpConnection.startReadInLoop_spec c).1.state
  | stopReadInLoop =>
      cases he
      exact (TcpConnection.stopReadInLoop_spec c).1.state
  | _ => cases ha

theorem step_inv {a : DeliveryStep} (hi : s.Inv total)
    (hg : ((machine readFd).restrict fun s a => !s.premature a).guard s a = true)
    (he : (machine readFd).exec a s = .ok t) : t.Inv total := by
  obtain ⟨hg, hok⟩ := Bool.and_eq_true_iff.mp hg
  rw [Bool.not_eq_true'] at hok
  cases a with
  | sender a =>
      obtain ⟨sender, hsender, he⟩ := bind_eq_ok.mp he
      cases he
      exact sender_inv hi hg hok hsender
  | read n receiveTime =>
      obtain ⟨r, hr, he⟩ := bind_eq_ok.mp he
      cases he
      obtain ⟨-, hanswers⟩ := Bool.and_eq_true_iff.mp hg
      unfold answers at hanswers
      split at hanswers
      · next hzero =>
          subst hzero
          obtain ⟨hempty, hhalf⟩ := Bool.and_eq_true_iff.mp hanswers
          exact readEnd_inv hi (List.isEmpty_iff.mp hempty) hhalf hr
      · next hpos =>
          exact read_inv hi (Nat.pos_of_ne_zero hpos) (of_decide_eq_true hanswers) hr
  | readFails receiveTime =>
      obtain ⟨r, hr, he⟩ := bind_eq_ok.mp he
      cases he
      cases hr
      refine hi.receiver rfl ?_
      rw [Receiver.received, readFd.readable_failed]
      rfl
  | retrieve len =>
      obtain ⟨r, hr, he⟩ := bind_eq_ok.mp he
      cases he
      have hlen : len ≤ s.receiver.inputBuffer.readableBytes := of_decide_eq_true hg
      obtain ⟨b, hb, hrest⟩ := Buffer.retireveAsString_spec hlen
      rw [Receiver.retrieve, hb] at hr
      cases hr
      refine hi.receiver rfl ?_
      rw [Receiver.received, hrest, List.append_assoc, List.take_append_drop]
      rfl
  | receiver a =>
      obtain ⟨conn, hconn, he⟩ := bind_eq_ok.mp he
      cases he
      obtain ⟨hup, hguard⟩ := Bool.and_eq_true_iff.mp hg
      exact hi.receiver (state_of_staysUp hup hguard hconn) rfl

/-! ## Whole runs -/

/-- The two before the user thread has done anything. -/
def start (c : TcpConnection) (messages : List (List UInt8)) (r : Receiver) : DeliverySystem :=
  ⟨ShutdownSystem.start c messages, r, 0⟩

/-- Nothing is left to do: the loop of the sender has nothing queued and waits
for no write, and the receiver is down or willing to read, and no read is
answered. -/
structure Idle (s : DeliverySystem) : Prop where
  queue : s.sender.queue = []
  written : s.sender.conn.channel.isWriting = false
  willing : s.receiver.conn.state = .kDisconnected ∨ s.receiver.conn.channel.isReading = true
  unanswered : s.receiver.conn.channel.isReading = true → ∀ n, s.answers n = false

theorem start_inv {c : TcpConnection} (hc : ShutdownSystem.Ready c)
    (messages : List (List UInt8)) {r : Receiver} (hup : r.conn.state = .kConnected)
    (hnew : r.received = []) : Inv (c.stream ++ messages.flatten) (start c messages r) where
  sender := ShutdownSystem.start_inv hc messages
  closing := by
    refine ⟨fun hcalled => ?_, fun hst => ?_⟩
    · cases hcalled
    · cases hc.connected.symm.trans hst
  sends := ⟨rfl, Or.inl hc.connected⟩
  taken := Nat.zero_le _
  received := hnew
  down hdown := by cases hup.symm.trans hdown

/-- Wherever the bytes are, they are all there, in order. -/
theorem Inv.conserved (hi : s.Inv total) :
    s.receiver.received ++ s.inFlight ++ s.sender.conn.outputBuffer.readable ++
      s.sender.queue.flatMap ConnFunctor.payload ++ s.sender.messages.flatten = total := by
  have hsent : s.receiver.received ++ s.inFlight = s.sender.conn.socket.sent := by
    rw [hi.received]
    exact List.take_append_drop _ _
  rw [hsent, ← hi.sends.ledger, ← hi.sender.ledger]
  rfl

theorem Inv.of_down (hi : s.Inv total) (hdown : s.receiver.conn.state = .kDisconnected) :
    s.receiver.received = total ∧ s.sender.messages = [] := by
  obtain ⟨hhalf, hall⟩ := hi.down hdown
  have hstate := (hi.sender.closed hhalf).state
  have hnone : s.sender.messages = [] :=
    hi.sends.last.resolve_left fun hup => by cases hup.symm.trans hstate
  have hledger := hi.sends.ledger
  rw [hnone, List.flatten_nil, List.append_nil] at hledger
  exact ⟨hall.trans hledger, hnone⟩

/-- Nothing is left to do, so nothing is on its way. -/
theorem Inv.of_idle (hi : s.Inv total) (hidle : s.Idle) :
    s.receiver.received ++ s.sender.messages.flatten = total ∧
      (s.sender.shutdownCalled = true → s.receiver.conn.state = .kDisconnected) := by
  rcases hidle.willing with hdown | hreading
  · obtain ⟨hall, hnone⟩ := hi.of_down hdown
    refine ⟨?_, fun _ => hdown⟩
    rw [hnone, List.flatten_nil, List.append_nil]
    exact hall
  · have hempty : s.inFlight = [] := by
      rcases Nat.eq_zero_or_pos s.inFlight.length with hzero | hpos
      · exact List.length_eq_zero_iff.mp hzero
      · have hno := hidle.unanswered hreading s.inFlight.length
        rw [answers, if_neg (Nat.ne_of_gt hpos)] at hno
        exact absurd (Nat.le_refl _) (of_decide_eq_false hno)
    have hbuffer := hi.sender.coupled.readable_eq_nil hidle.written
    have hconserved := hi.conserved
    rw [hempty, hbuffer, hidle.queue, List.append_nil, List.append_nil, List.flatMap_nil,
      List.append_nil] at hconserved
    refine ⟨hconserved, fun hcalled => ?_⟩
    rcases hi.closing.pending (hi.closing.asked hcalled) with hhalf | hqueued | hw
    · have hend := hidle.unanswered hreading 0
      rw [answers, if_pos rfl, hempty, halfClosed, List.contains_iff_mem.mpr hhalf] at hend
      cases hend
    · rw [hidle.queue] at hqueued
      cases hqueued
    · cases hidle.written.symm.trans hw

/-- Nothing is lost, doubled or moved between the two users, however their
loops take turns, and the sends and reads are cut, as long as the sender meets
no end of its own input and no error of a write. A receiver that has gone down
has received everything. And when nothing is left to do, all that was sent has
been received, and the receiver is down if the sender has shut down. -/
theorem stream_delivered (readFd : ReadFd) {c : TcpConnection} (hc : ShutdownSystem.Ready c)
    (messages : List (List UInt8)) {r : Receiver} (hup : r.conn.state = .kConnected)
    (hnew : r.received = []) {as : List DeliveryStep}
    (hr : ((machine readFd).restrict fun s a => !s.premature a).run as (start c messages r) =
      some t) :
    t.receiver.received ++ t.inFlight ++ t.sender.conn.outputBuffer.readable ++
        t.sender.queue.flatMap ConnFunctor.payload ++ t.sender.messages.flatten =
      c.stream ++ messages.flatten ∧
    (t.receiver.conn.state = .kDisconnected →
      t.receiver.received = c.stream ++ messages.flatten) ∧
    (t.Idle → t.receiver.received ++ t.sender.messages.flatten = c.stream ++ messages.flatten ∧
      (t.sender.shutdownCalled = true → t.receiver.conn.state = .kDisconnected)) := by
  have hi : t.Inv (c.stream ++ messages.flatten) :=
    Machine.run_invariant step_inv (start_inv hc messages hup hnew) hr
  exact ⟨hi.conserved, fun hdown => (hi.of_down hdown).1, hi.of_idle⟩

/-- A `readFd` that appends. -/
def appendingReadFd : ReadFd where
  run
    | .brought data, b => match b.append data with
      | .ok b' => b'
      | .error _ => b
    | .failed, b => b
  readable_brought data b := by
    obtain ⟨b', hb, hread⟩ := Buffer.append_spec b data
    simp only [hb]
    exact hread
  readable_failed _ := rfl

/-- Two messages leave in three writes and come in as two reads, and the end
behind them. -/
def threeWritesTwoReads : List DeliveryStep :=
  [.sender .send, .sender .send, .sender .shutdown, .sender .swap,
    .sender (.runFunctor (.wrote 2)), .sender (.runFunctor (.wrote 0)), .read 1 0,
    .sender (.runFunctor (.wrote 0)), .sender .functorsDone, .retrieve 1,
    .sender (.handleWrite (.wrote 1)), .read 2 0, .retrieve 2, .read 0 0]

theorem stream_delivered_threeWritesTwoReads :
    ∃ t, ((machine appendingReadFd).restrict fun s a => !s.premature a).run threeWritesTwoReads
        (start ShutdownSystem.upConn [[1, 2], [3]] ⟨ShutdownSystem.upConn, Buffer.new 0, []⟩) =
        some t ∧
      t.receiver.conn.state = .kDisconnected ∧ t.receiver.received = [1, 2, 3] := by
  obtain ⟨t, ht, hdown⟩ : ∃ t, ((machine appendingReadFd).restrict fun s a =>
      !s.premature a).run threeWritesTwoReads
        (start ShutdownSystem.upConn [[1, 2], [3]] ⟨ShutdownSystem.upConn, Buffer.new 0, []⟩) =
        some t ∧ t.receiver.conn.state = .kDisconnected := ⟨_, rfl, rfl⟩
  exact ⟨t, ht, hdown, (stream_delivered appendingReadFd ShutdownSystem.upConn_ready
    [[1, 2], [3]] rfl rfl ht).2.1 hdown⟩

end DeliverySystem

end Libanet.Net
