import Libanet.Lib.Machine
import Libanet.Proofs.OutputStream

/-!
# Shutting down while sends are still queued

A user thread that is not the loop thread sends some messages and then
shuts the connection down. `state` changes under the user's hands at once;
the bytes travel through the loop's queue. `shutdownInLoop` travels through
the same queue, behind every `sendInLoop`, so the half-close it asks for
finds all bytes handed over or waiting in the buffer, and in the latter
case leaves it to the `handleWrite` that drains the buffer.

That `handleWrite` looks at `state` and at nothing else. If it drains the
buffer after the user has called `shutdown` but before the loop has run the
last `sendInLoop` of the queue, it half-closes the socket too early, and
the bytes of that send are lost. `premature` names exactly this step.
`shutdown_graceful` shows it is the only one that goes wrong: in a run
without it, the half-close comes after every accepted byte and no write is
tried after it.
-/

namespace Libanet.Net

def ConnFunctor.isSend : ConnFunctor → Bool
  | .sendInLoop _ => true
  | _ => false

/-- The bytes a queued functor carries to the connection. -/
def ConnFunctor.payload : ConnFunctor → List UInt8
  | .sendInLoop message => message
  | _ => []

/-- One connection, its loop, and one user thread. The loop's
`pendingFunctors_` are what the connection has posted. -/
structure ShutdownSystem where
  conn : TcpConnection
  /-- What is left of the batch the current `doPendingFunctors` swapped out. -/
  functors : List ConnFunctor
  callingPendingFunctors : Bool
  /-- The messages the user thread has still to send. -/
  messages : List (List UInt8)
  shutdownCalled : Bool
  /-- The bytes of all sends that found the connection up, in order. -/
  accepted : List UInt8

inductive ShutdownStep where
  /-- The user thread sends its next message. -/
  | send
  /-- The user thread, done sending, shuts down. -/
  | shutdown
  /-- The loop enters `doPendingFunctors` and swaps the queue out. -/
  | swap
  /-- It runs the next functor of the batch. -/
  | runFunctor (w : WriteResult)
  /-- It leaves `doPendingFunctors`. -/
  | functorsDone
  /-- The channel reports that the socket is writable. -/
  | handleWrite (w : WriteResult)
  deriving DecidableEq

namespace ShutdownSystem

def guard (s : ShutdownSystem) : ShutdownStep → Bool
  | .send => !s.messages.isEmpty
  | .shutdown => s.messages.isEmpty && !s.shutdownCalled
  | .swap => !s.callingPendingFunctors
  | .runFunctor w =>
      match s.functors with
      | [] => false
      | f :: _ => w.fits f.payload.length && w.noError
  | .functorsDone => s.callingPendingFunctors && s.functors.isEmpty
  | .handleWrite w =>
      !s.callingPendingFunctors &&
        w.fits s.conn.outputBuffer.readableBytes && w.noError

/-- The user thread's next `send`. -/
def send (s : ShutdownSystem) : Except Fault ShutdownSystem :=
  match s.messages with
  | [] => .ok s
  | m :: ms => do
      let conn ← s.conn.send false m (.wrote 0)
      return { s with
        conn := conn
        messages := ms
        accepted := if s.conn.connected then s.accepted ++ m else s.accepted }

def runFunctor (s : ShutdownSystem) (w : WriteResult) :
    Except Fault ShutdownSystem :=
  match s.functors with
  | [] => .ok s
  | f :: fs => do
      let conn ← s.conn.runFunctor f w [] [] []
      return { s with conn := conn, functors := fs }

def exec : ShutdownStep → ShutdownSystem → Except Fault ShutdownSystem
  | .send, s => s.send
  | .shutdown, s =>
      .ok { s with conn := s.conn.shutdown false, shutdownCalled := true }
  | .swap, s =>
      .ok { s with
        functors := s.conn.posted
        conn := { s.conn with posted := [] }
        callingPendingFunctors := true }
  | .runFunctor w, s => s.runFunctor w
  | .functorsDone, s => .ok { s with callingPendingFunctors := false }
  | .handleWrite w, s => do
      let conn ← s.conn.handleWrite w
      return { s with conn := conn }

def machine : Machine ShutdownSystem ShutdownStep Fault := ⟨guard, exec⟩

/-- A connection that is up, with nothing of its own in the loop's queue. -/
structure Ready (c : TcpConnection) : Prop where
  connected : c.state = .kConnected
  coupled : c.Coupled
  open_ : .shutdownWrite ∉ c.socket.ops
  posted : c.posted = []

/-- The system before the user thread has done anything. Bytes the
connection has already taken count as accepted. -/
def start (c : TcpConnection) (messages : List (List UInt8)) :
    ShutdownSystem :=
  ⟨c, [], false, messages, false, c.stream⟩

/-- Whenever the socket was half-closed, every accepted byte had been
written, and no write was tried afterwards. -/
def Graceful (s : ShutdownSystem) : Prop :=
  ∀ pre post, s.conn.socket.ops = pre ++ .shutdownWrite :: post →
    pre.flatMap SocketOp.accepted = s.accepted ∧ ∀ op ∈ post, op.isWrite = false

/-- The step that goes wrong: `handleWrite` drains the buffer of a
connection that is shutting down while a `sendInLoop` is still queued. -/
def premature (s : ShutdownSystem) : ShutdownStep → Bool
  | .handleWrite w =>
      s.conn.drainsForShutdown w && s.conn.posted.any ConnFunctor.isSend
  | _ => false

/-- Everything queued on the loop, in the order it will run. -/
def queue (s : ShutdownSystem) : List ConnFunctor :=
  s.functors ++ s.conn.posted

/-! ## The invariant -/

/-- The socket is half-closed, and nothing is left to write. -/
structure HalfClosed (s : ShutdownSystem) : Prop where
  state : s.conn.state = .kDisconnecting
  drained : s.conn.outputBuffer.readable = []
  noSend : ∀ f ∈ s.queue, f.isSend = false
  ops : ∃ pre post, s.conn.socket.ops = pre ++ .shutdownWrite :: post ∧
    .shutdownWrite ∉ pre ∧ pre.flatMap SocketOp.accepted = s.accepted ∧
    ∀ op ∈ post, op = .shutdownWrite

/-- What the loop's queue can hold here. -/
def Expected (f : ConnFunctor) : Prop :=
  f.isSend = true ∨ f = .shutdownInLoop ∨ f.isCallback = true

structure Inv (s : ShutdownSystem) : Prop where
  state : s.conn.state = .kConnected ∨ s.conn.state = .kDisconnecting
  coupled : s.conn.Coupled
  ledger : s.conn.stream ++ s.queue.flatMap ConnFunctor.payload = s.accepted
  batch : s.callingPendingFunctors = false → s.functors = []
  expected : ∀ f ∈ s.queue, Expected f
  /-- Until the user shuts down, nobody asks for a half-close. -/
  up : s.conn.state = .kConnected →
    .shutdownWrite ∉ s.conn.socket.ops ∧ .shutdownInLoop ∉ s.queue
  /-- Nothing is sent behind a shutdown. -/
  order : s.queue.Pairwise fun f g => f = .shutdownInLoop → g.isSend = false
  closed : .shutdownWrite ∈ s.conn.socket.ops → s.HalfClosed

theorem start_inv {c : TcpConnection} (hc : Ready c)
    (messages : List (List UInt8)) : (start c messages).Inv where
  state := .inl hc.connected
  coupled := hc.coupled
  ledger := by simp [start, queue, hc.posted]
  batch := fun _ => rfl
  expected := by simp [start, queue, hc.posted]
  up := fun _ => ⟨hc.open_, by simp [start, queue, hc.posted]⟩
  order := by simp [start, queue, hc.posted]
  closed := fun h => absurd h hc.open_

/-- The invariant does not look at what the user thread has still to do. -/
theorem Inv.congr {s t : ShutdownSystem} (hi : s.Inv) (hconn : t.conn = s.conn)
    (hf : t.functors = s.functors)
    (hc : t.callingPendingFunctors = s.callingPendingFunctors)
    (ha : t.accepted = s.accepted) : t.Inv := by
  obtain ⟨conn, functors, calling, messages, called, accepted⟩ := s
  obtain ⟨conn', functors', calling', messages', called', accepted'⟩ := t
  dsimp only at hconn hf hc ha
  subst hconn hf hc ha
  obtain ⟨hst, hcoup, hled, hb, hexp, hup, hord, hcl⟩ := hi
  refine ⟨hst, hcoup, hled, hb, hexp, hup, hord, fun h => ?_⟩
  obtain ⟨h₁, h₂, h₃, h₄⟩ := hcl h
  exact ⟨h₁, h₂, h₃, h₄⟩

/-! ## User callbacks in the queue

A step of the send path may put user callbacks behind everything else.
They carry no bytes and send nothing. -/

theorem isSend_of_isCallback {f : ConnFunctor} (h : f.isCallback = true) :
    f.isSend = false := by
  cases f <;> first | rfl | cases h

theorem payload_of_not_isSend {f : ConnFunctor} (h : f.isSend = false) :
    f.payload = [] := by
  cases f <;> first | rfl | cases h

theorem flatMap_payload_of_not_isSend {fs : List ConnFunctor}
    (h : ∀ f ∈ fs, f.isSend = false) : fs.flatMap ConnFunctor.payload = [] := by
  rw [List.flatMap_eq_nil_iff]
  exact fun f hf => payload_of_not_isSend (h f hf)

/-- A queue that grows by functors that send nothing keeps its order. -/
theorem order_append {q fs : List ConnFunctor}
    (hq : q.Pairwise fun f g => f = .shutdownInLoop → g.isSend = false)
    (hfs : ∀ f ∈ fs, f.isSend = false) :
    (q ++ fs).Pairwise fun f g => f = .shutdownInLoop → g.isSend = false := by
  rw [List.pairwise_append]
  refine ⟨hq, ?_, fun _ _ g hg _ => hfs g hg⟩
  exact List.pairwise_of_forall_mem_list fun _ _ g hg _ => hfs g hg

/-! ## The user thread -/

theorem send_inv {s t : ShutdownSystem} (hi : s.Inv) (he : s.send = .ok t) :
    t.Inv := by
  unfold send at he
  split at he
  · cases he
    exact hi
  · next m ms hm =>
      by_cases hup : s.conn.state = .kConnected
      · -- the message joins the queue, where nothing asks for a half-close
        have hsend : s.conn.send false m (.wrote 0) =
            .ok (s.conn.queueInLoop (.sendInLoop m)) := by
          simp [TcpConnection.send, hup]
        rw [hsend] at he
        cases he
        obtain ⟨hopen, hnone⟩ := hi.up hup
        have hq : queue { s with
            conn := s.conn.queueInLoop (.sendInLoop m)
            messages := ms
            accepted := if s.conn.connected then s.accepted ++ m else s.accepted } =
            s.queue ++ [.sendInLoop m] := by
          simp [queue, TcpConnection.queueInLoop]
        refine ⟨.inl hup, hi.coupled, ?_, hi.batch, ?_, ?_, ?_, fun h => absurd h hopen⟩
        · have hc : s.conn.connected = true := by simp [TcpConnection.connected, hup]
          rw [hq, hc, List.flatMap_append, ← List.append_assoc]
          show (s.conn.stream ++ _) ++ _ = _
          rw [hi.ledger]
          simp [ConnFunctor.payload]
        · rw [hq]
          exact List.forall_mem_append.mpr ⟨hi.expected, List.forall_mem_singleton.mpr (.inl rfl)⟩
        · intro _
          refine ⟨hopen, ?_⟩
          rw [hq]
          simpa using hnone
        · rw [hq, List.pairwise_append]
          refine ⟨hi.order, by simp, fun f hf _ _ hs => ?_⟩
          exact absurd (hs ▸ hf) hnone
      · have hsend : s.conn.send false m (.wrote 0) = .ok s.conn := by
          simp [TcpConnection.send, hup]
        rw [hsend] at he
        cases he
        have hc : s.conn.connected = false := by simp [TcpConnection.connected, hup]
        exact hi.congr rfl rfl rfl (by rw [hc]; rfl)

theorem shutdown_inv {s : ShutdownSystem} (hi : s.Inv) :
    Inv { s with conn := s.conn.shutdown false, shutdownCalled := true } := by
  by_cases hup : s.conn.state = .kConnected
  · have hsd : s.conn.shutdown false =
        (s.conn.setState .kDisconnecting).queueInLoop .shutdownInLoop := by
      simp [TcpConnection.shutdown, hup]
    obtain ⟨hopen, hnone⟩ := hi.up hup
    rw [hsd]
    have hq : queue { s with
        conn := (s.conn.setState .kDisconnecting).queueInLoop .shutdownInLoop
        shutdownCalled := true } = s.queue ++ [.shutdownInLoop] := by
      simp [queue, TcpConnection.queueInLoop, TcpConnection.setState]
    refine ⟨.inr rfl, hi.coupled, ?_, hi.batch, ?_, ?_, ?_, fun h => absurd h hopen⟩
    · rw [hq, List.flatMap_append, ← List.append_assoc]
      show (s.conn.stream ++ _) ++ _ = _
      rw [hi.ledger]
      simp [ConnFunctor.payload]
    · rw [hq]
      exact List.forall_mem_append.mpr
        ⟨hi.expected, List.forall_mem_singleton.mpr (.inr (.inl rfl))⟩
    · intro h
      cases h
    · rw [hq]
      exact order_append hi.order (by simp [ConnFunctor.isSend])
  · have hsd : s.conn.shutdown false = s.conn := by
      simp [TcpConnection.shutdown, hup]
    exact hi.congr hsd rfl rfl rfl

/-! ## The loop thread -/

theorem swap_inv {s : ShutdownSystem} (hi : s.Inv)
    (hc : s.callingPendingFunctors = false) :
    Inv { s with
      functors := s.conn.posted
      conn := { s.conn with posted := [] }
      callingPendingFunctors := true } := by
  have hq : queue { s with
      functors := s.conn.posted
      conn := { s.conn with posted := [] }
      callingPendingFunctors := true } = s.queue := by
    simp [queue, hi.batch hc]
  refine ⟨hi.state, hi.coupled, ?_, ?_, ?_, ?_, ?_, fun h => ?_⟩
  · rw [hq]
    exact hi.ledger
  · intro h
    cases h
  · rw [hq]
    exact hi.expected
  · rw [hq]
    exact hi.up
  · rw [hq]
    exact hi.order
  · obtain ⟨h₁, h₂, h₃, h₄⟩ := hi.closed h
    exact ⟨h₁, h₂, by rw [hq]; exact h₃, h₄⟩

/-- The half-close itself: nothing waits in the buffer, nothing waits in
the queue, so everything accepted has been written. -/
theorem halfClosed_of_shutdownWrite {s t : ShutdownSystem} (hi : s.Inv)
    (hst : t.conn.state = .kDisconnecting)
    (hread : t.conn.outputBuffer.readable = [])
    (hsend : ∀ f ∈ t.queue, f.isSend = false)
    (hstream : t.conn.stream = t.accepted) (hacc : t.accepted = s.accepted)
    (ops : List SocketOp) (hops : t.conn.socket.ops = ops ++ [.shutdownWrite])
    (hold : .shutdownWrite ∈ ops → ops = s.conn.socket.ops) : t.HalfClosed := by
  refine ⟨hst, hread, hsend, ?_⟩
  by_cases hmem : .shutdownWrite ∈ ops
  · -- not the first one
    obtain ⟨pre, post, heq, hpre, hbytes, hpost⟩ := (hi.closed (hold hmem ▸ hmem)).ops
    refine ⟨pre, post ++ [.shutdownWrite], ?_, hpre, hacc ▸ hbytes, ?_⟩
    · rw [hops, hold hmem, heq]
      simp
    · intro op hop
      rcases List.mem_append.mp hop with hop | hop
      · exact hpost op hop
      · exact List.mem_singleton.mp hop
  · refine ⟨ops, [], hops, hmem, ?_, by simp⟩
    rw [← hstream, TcpConnection.stream, hread, Socket.sent, hops]
    simp [SocketOp.accepted]

/-- A step of the send path, taken by the loop with the functors `d` off
the front of the batch, keeps all of the invariant that is about the queue;
what it did to the socket is the caller's to answer for. -/
theorem advance_inv {s : ShutdownSystem} (hi : s.Inv) (d fs : List ConnFunctor)
    (hfs : s.functors = d ++ fs) {c : TcpConnection}
    (hstep : s.conn.OutputStep c) (hcoup : c.Coupled)
    (hstream : c.stream = s.conn.stream ++ d.flatMap ConnFunctor.payload)
    (hup : s.conn.state = .kConnected → .shutdownWrite ∉ c.socket.ops)
    (hclosed : .shutdownWrite ∈ c.socket.ops →
      HalfClosed { s with conn := c, functors := fs }) :
    Inv { s with conn := c, functors := fs } := by
  obtain ⟨cbs, hposted, hcbs⟩ := hstep.posted
  have hsq : s.queue = d ++ (fs ++ s.conn.posted) := by
    rw [queue, hfs, List.append_assoc]
  have htq : queue { s with conn := c, functors := fs } =
      (fs ++ s.conn.posted) ++ cbs := by
    rw [queue, hposted, List.append_assoc]
  have hcbs' : ∀ f ∈ cbs, f.isSend = false :=
    fun f hf => isSend_of_isCallback (hcbs f hf)
  refine ⟨?_, hcoup, ?_, ?_, ?_, ?_, ?_, hclosed⟩
  · rw [hstep.state]
    exact hi.state
  · have hled := hi.ledger
    rw [hsq, List.flatMap_append, ← List.append_assoc, ← hstream] at hled
    rw [htq, List.flatMap_append, flatMap_payload_of_not_isSend hcbs',
      List.append_nil]
    exact hled
  · intro hc
    have hnil := hi.batch hc
    rw [hfs] at hnil
    exact (List.append_eq_nil_iff.mp hnil).2
  · intro f hf
    rw [htq, List.mem_append] at hf
    rcases hf with hf | hf
    · exact hi.expected f (hsq ▸ List.mem_append_right d hf)
    · exact .inr (.inr (hcbs f hf))
  · intro hconn
    rw [hstep.state] at hconn
    refine ⟨hup hconn, fun hf => ?_⟩
    rw [htq, List.mem_append] at hf
    rcases hf with hf | hf
    · exact (hi.up hconn).2 (hsq ▸ List.mem_append_right d hf)
    · exact absurd (hcbs _ hf) (by decide)
  · have hord := hi.order
    rw [hsq] at hord
    rw [htq]
    exact order_append (List.pairwise_append.mp hord).2.1 hcbs'

theorem mem_ops_write {sock : Socket} {data : List UInt8} {w : WriteResult} :
    .shutdownWrite ∈ (sock.write data w).ops ↔ .shutdownWrite ∈ sock.ops := by
  cases w <;> simp [Socket.write]

/-- A queued send runs. Nothing has been half-closed yet, since a send was
still queued. -/
theorem runSend_inv {s t : ShutdownSystem} (hi : s.Inv) {m : List UInt8}
    {fs : List ConnFunctor} (hfs : s.functors = .sendInLoop m :: fs)
    {w : WriteResult} (hw : w.noError = true)
    (he : s.runFunctor w = .ok t) : t.Inv := by
  have hopen : .shutdownWrite ∉ s.conn.socket.ops := by
    intro h
    have := (hi.closed h).noSend (.sendInLoop m) (by simp [queue, hfs])
    cases this
  obtain ⟨c, hc, hstep, hstream, hcoup, hsock, -⟩ :=
    TcpConnection.sendInLoop_spec s.conn m w
  have hrun : s.runFunctor w = .ok { s with conn := c, functors := fs } := by
    unfold runFunctor
    rw [hfs]
    exact bind_eq_ok.mpr ⟨c, hc, rfl⟩
  rw [hrun] at he
  cases he
  have hdrops : s.conn.drops w = false := by
    have hdown : s.conn.state ≠ .kDisconnected := by
      rcases hi.state with h | h <;> rw [h] <;> decide
    cases w with
    | wrote n => simp [TcpConnection.drops, hdown]
    | failed err =>
        simp only [WriteResult.noError, decide_eq_true_eq] at hw
        subst hw
        simp [TcpConnection.drops, hdown]
  have hopen' : .shutdownWrite ∉ c.socket.ops := by
    rcases hsock with h | h
    · rwa [h]
    · rwa [h, mem_ops_write]
  refine advance_inv hi [.sendInLoop m] fs hfs hstep (hcoup hi.coupled) ?_
    (fun _ => hopen') (fun h => absurd h hopen')
  rw [hstream, hdrops]
  simp [ConnFunctor.payload]

/-- The queued shutdown runs: every send was in front of it. -/
theorem runShutdown_inv {s t : ShutdownSystem} (hi : s.Inv)
    {fs : List ConnFunctor} (hfs : s.functors = .shutdownInLoop :: fs)
    {w : WriteResult} (he : s.runFunctor w = .ok t) : t.Inv := by
  have hst : s.conn.state = .kDisconnecting := by
    rcases hi.state with h | h
    · exact absurd (by simp [queue, hfs]) (hi.up h).2
    · exact h
  have hsend : ∀ f ∈ fs ++ s.conn.posted, f.isSend = false := by
    have hord := hi.order
    rw [queue, hfs, List.cons_append, List.pairwise_cons] at hord
    exact fun f hf => hord.1 f hf rfl
  obtain ⟨hstep, hch, hbuf, hsock⟩ := TcpConnection.shutdownInLoop_spec s.conn
  have hrun : s.runFunctor w =
      .ok { s with conn := s.conn.shutdownInLoop, functors := fs } := by
    unfold runFunctor
    rw [hfs]
    rfl
  rw [hrun] at he
  cases he
  have hsent : s.conn.shutdownInLoop.socket.sent = s.conn.socket.sent := by
    rw [hsock]
    split <;> simp
  have hstream : s.conn.shutdownInLoop.stream = s.conn.stream := by
    rw [TcpConnection.stream, hsent, hbuf]
    rfl
  refine advance_inv hi [.shutdownInLoop] fs hfs hstep ?_ ?_ ?_ ?_
  · rw [TcpConnection.Coupled, hch, hbuf]
    exact hi.coupled
  · rw [hstream]
    simp [ConnFunctor.payload]
  · rw [hst]
    exact fun h => absurd h (by decide)
  · intro hmem
    obtain ⟨cbs, hposted, hcbs⟩ := hstep.posted
    have hsend' : ∀ f ∈ fs ++ s.conn.shutdownInLoop.posted, f.isSend = false := by
      intro f hf
      rw [hposted, ← List.append_assoc] at hf
      rcases List.mem_append.mp hf with hf | hf
      · exact hsend f hf
      · exact isSend_of_isCallback (hcbs f hf)
    cases hw : s.conn.channel.isWriting with
    | true =>
        -- left to the write that drains the buffer
        rw [hsock, hw] at hmem
        obtain ⟨h₁, h₂, h₃, h₄⟩ := hi.closed hmem
        refine ⟨hstep.state.trans h₁, ?_, hsend', ?_⟩
        · rw [hbuf]
          exact h₂
        · rw [hsock, hw]
          exact h₄
    | false =>
        have hread := hi.coupled.readable_eq_nil hw
        refine halfClosed_of_shutdownWrite hi (hstep.state.trans hst) ?_ hsend' ?_ rfl
          s.conn.socket.ops ?_ (fun _ => rfl)
        · rw [hbuf]
          exact hread
        · have hled := hi.ledger
          rw [queue, hfs, List.cons_append, List.flatMap_cons,
            flatMap_payload_of_not_isSend hsend] at hled
          rw [hstream]
          simpa [ConnFunctor.payload] using hled
        · rw [hsock, hw]
          rfl

theorem runCallback_inv {s t : ShutdownSystem} (hi : s.Inv) {f : ConnFunctor}
    {fs : List ConnFunctor} (hfs : s.functors = f :: fs)
    (hf : f.isCallback = true) {w : WriteResult}
    (he : s.runFunctor w = .ok t) : t.Inv := by
  have hrun : s.runFunctor w = .ok { s with functors := fs } := by
    unfold runFunctor
    rw [hfs]
    cases f <;> first | rfl | cases hf
  rw [hrun] at he
  cases he
  refine advance_inv hi [f] fs hfs (.refl _) hi.coupled ?_ (fun h => (hi.up h).1) ?_
  · simp [payload_of_not_isSend (isSend_of_isCallback hf)]
  · intro hmem
    obtain ⟨h₁, h₂, h₃, h₄⟩ := hi.closed hmem
    refine ⟨h₁, h₂, fun g hg => h₃ g ?_, h₄⟩
    rw [queue, hfs, List.cons_append]
    exact List.mem_cons_of_mem f hg

theorem runFunctor_inv {s t : ShutdownSystem} (hi : s.Inv) {w : WriteResult}
    (hg : s.guard (.runFunctor w) = true) (he : s.runFunctor w = .ok t) :
    t.Inv := by
  cases hfs : s.functors with
  | nil =>
      simp only [guard, hfs] at hg
      cases hg
  | cons f fs =>
      simp only [guard, hfs, Bool.and_eq_true] at hg
      rcases hi.expected f (by simp [queue, hfs]) with hf | hf | hf
      · cases f <;> first | exact runSend_inv hi hfs hg.2 he | cases hf
      · subst hf
        exact runShutdown_inv hi hfs he
      · exact runCallback_inv hi hfs hf he

/-- The socket is writable. Write interest means the buffer is not empty,
so the socket is not half-closed yet; and if this write drains the buffer
and half-closes it, no send is left in the queue. -/
theorem handleWrite_inv {s : ShutdownSystem} (hi : s.Inv) {w : WriteResult}
    (hg : s.guard (.handleWrite w) = true)
    (hok : s.premature (.handleWrite w) = false) {c : TcpConnection}
    (hc : s.conn.handleWrite w = .ok c) : Inv { s with conn := c } := by
  simp only [guard, Bool.and_eq_true, Bool.not_eq_true'] at hg
  obtain ⟨⟨hcalling, hfit⟩, -⟩ := hg
  have hnil := hi.batch hcalling
  obtain ⟨c₁, hc₁, hstep, hstream, hcoup, hidle, hdrained, hsock⟩ :=
    TcpConnection.handleWrite_spec hfit
  cases hc₁.symm.trans hc
  cases hw : s.conn.channel.isWriting with
  | false =>
      rw [hidle hw]
      exact hi
  | true =>
      have hne := hi.coupled.mp hw
      have hopen : .shutdownWrite ∉ s.conn.socket.ops :=
        fun h => hne (hi.closed h).drained
      refine advance_inv hi [] s.functors rfl hstep
        (hcoup hi.coupled) ?_ ?_ ?_
      · rw [hstream]
        simp
      · intro hconn
        have hno : s.conn.drainsForShutdown w = false := by
          cases w <;> simp [TcpConnection.drainsForShutdown, hconn]
        rw [hsock hw, hno]
        exact fun h => hopen (mem_ops_write.mp h)
      · intro hmem
        rw [hsock hw] at hmem
        cases hd : s.conn.drainsForShutdown w with
        | false =>
            rw [hd] at hmem
            exact absurd (mem_ops_write.mp hmem) hopen
        | true =>
            have hsend : ∀ f ∈ s.conn.posted, f.isSend = false := by
              simp only [premature, hd, Bool.true_and, List.any_eq_false,
                Bool.not_eq_true] at hok
              exact hok
            obtain ⟨cbs, hposted, hcbs⟩ := hstep.posted
            have hsend' : ∀ f ∈ s.functors ++ c.posted, f.isSend = false := by
              intro f hf
              rw [hnil, List.nil_append, hposted] at hf
              rcases List.mem_append.mp hf with hf | hf
              · exact hsend f hf
              · exact isSend_of_isCallback (hcbs f hf)
            have hst : s.conn.state = .kDisconnecting := by
              cases w with
              | wrote n =>
                  simp only [TcpConnection.drainsForShutdown, Bool.and_eq_true,
                    decide_eq_true_eq] at hd
                  exact hd.1.1.2
              | failed err => cases hd
            refine halfClosed_of_shutdownWrite hi (hstep.state.trans hst)
              (hdrained hd) hsend' ?_ rfl
              (s.conn.socket.write s.conn.outputBuffer.readable w).ops ?_
              (fun h => absurd (mem_ops_write.mp h) hopen)
            · have hled := hi.ledger
              rw [queue, hnil, List.nil_append,
                flatMap_payload_of_not_isSend hsend, List.append_nil] at hled
              rw [hstream]
              exact hled
            · rw [hsock hw, hd]
              rfl

/-! ## Whole runs -/

theorem step_inv {s t : ShutdownSystem} {a : ShutdownStep} (hi : s.Inv)
    (hg : (machine.restrict fun s a => !s.premature a).guard s a = true)
    (he : exec a s = .ok t) : t.Inv := by
  obtain ⟨hg, hok⟩ := Bool.and_eq_true_iff.mp hg
  rw [Bool.not_eq_true'] at hok
  cases a with
  | send => exact send_inv hi he
  | shutdown =>
      cases he
      exact shutdown_inv hi
  | swap =>
      cases he
      exact swap_inv hi (by simpa [machine, guard] using hg)
  | runFunctor w => exact runFunctor_inv hi hg he
  | functorsDone =>
      cases he
      have hnil : s.functors = [] := by
        simp only [machine, guard, Bool.and_eq_true, List.isEmpty_iff] at hg
        exact hg.2
      obtain ⟨h₁, h₂, h₃, -, h₅, h₆, h₇, h₈⟩ := hi
      refine ⟨h₁, h₂, h₃, fun _ => hnil, h₅, h₆, h₇, fun h => ?_⟩
      obtain ⟨h₁, h₂, h₃, h₄⟩ := h₈ h
      exact ⟨h₁, h₂, h₃, h₄⟩
  | handleWrite w =>
      obtain ⟨c, hc, he⟩ := bind_eq_ok.mp he
      cases he
      exact handleWrite_inv hi hg hok hc

/-- Behind the first half-close there are only further half-closes, so it
does not matter which of them is looked at. -/
theorem Inv.graceful {s : ShutdownSystem} (hi : s.Inv) : s.Graceful := by
  intro pre post heq
  obtain ⟨pre₀, post₀, heq₀, hpre₀, hbytes, hpost₀⟩ :=
    (hi.closed (by rw [heq]; simp)).ops
  have htail : ∀ op ∈ SocketOp.shutdownWrite :: post₀, op = .shutdownWrite := by
    intro op hop
    rcases List.mem_cons.mp hop with hop | hop
    · exact hop
    · exact hpost₀ op hop
  rcases List.append_eq_append_iff.mp (heq.symm.trans heq₀) with
    ⟨mid, hmid, hrest⟩ | ⟨mid, hmid, hrest⟩
  · cases mid with
    | nil =>
        rw [List.append_nil] at hmid
        rw [List.nil_append, List.cons.injEq] at hrest
        refine ⟨by rw [← hmid, hbytes], fun op hop => ?_⟩
        rw [hpost₀ op (hrest.2 ▸ hop)]
        rfl
    | cons op mid =>
        rw [List.cons_append, List.cons.injEq] at hrest
        exact absurd (by rw [hmid, ← hrest.1]; simp) hpre₀
  · have hmid' : ∀ op ∈ mid, op = .shutdownWrite :=
      fun op hop => htail op (by rw [hrest]; exact List.mem_append_left _ hop)
    refine ⟨?_, fun op hop => ?_⟩
    · have hnone : mid.flatMap SocketOp.accepted = [] := by
        rw [List.flatMap_eq_nil_iff]
        intro op hop
        rw [hmid' op hop]
        rfl
      rw [hmid, List.flatMap_append, hnone, List.append_nil, hbytes]
    · rw [htail op (by rw [hrest]; simp [hop])]
      rfl

/-- A connection shut down while no half-close comes too early loses
nothing: in every run without the premature step, whenever the socket has
been half-closed, every byte of every accepted send had been written
before, and no write was tried after. -/
theorem shutdown_graceful {c : TcpConnection} (hc : Ready c)
    {messages : List (List UInt8)} {as : List ShutdownStep} {t : ShutdownSystem}
    (hr : (machine.restrict fun s a => !s.premature a).run as
      (start c messages) = some t) : t.Graceful :=
  (Machine.run_invariant step_inv (start_inv hc messages) hr).graceful

/-- A connection that is up and has nothing to write. -/
def upConn : TcpConnection :=
  { TcpConnection.small with
    state := .kConnected
    channel := TcpConnection.small.channel.tie.enableReading }

theorem upConn_ready : Ready upConn where
  connected := rfl
  coupled := by decide
  open_ := by decide
  posted := rfl

/-- Two sends and a shutdown, all run by the loop in the order they were
queued; the second send waits for the socket in between. -/
def orderlyRun : List ShutdownStep :=
  [.send, .send, .shutdown, .swap, .runFunctor (.wrote 2), .runFunctor (.wrote 0),
    .runFunctor (.wrote 0), .functorsDone, .handleWrite (.wrote 1)]

theorem shutdown_graceful_orderlyRun :
    ∃ t, (machine.restrict fun s a => !s.premature a).run orderlyRun
        (start upConn [[1, 2], [3]]) = some t ∧
      t.Graceful ∧ t.conn.socket.ops =
        [.write [1, 2], .write [], .write [3], .shutdownWrite] := by
  obtain ⟨t, ht, hops⟩ : ∃ t, (machine.restrict fun s a => !s.premature a).run
      orderlyRun (start upConn [[1, 2], [3]]) = some t ∧ t.conn.socket.ops =
        [.write [1, 2], .write [], .write [3], .shutdownWrite] := ⟨_, rfl, rfl⟩
  exact ⟨t, ht, shutdown_graceful upConn_ready ht, hops⟩

/-- The first message is half written when the second send and the shutdown
come in; then the buffer drains. -/
def hastyRun : List ShutdownStep :=
  [.send, .swap, .runFunctor (.wrote 1), .functorsDone, .send, .shutdown,
    .handleWrite (.wrote 1)]

/-- The premature half-close: the third byte was accepted, has not been
written, and the socket is half-closed. -/
theorem shutdown_not_graceful :
    ¬ ∀ (c : TcpConnection), Ready c → ∀ messages as t,
      machine.run as (start c messages) = some t → t.Graceful := by
  intro h
  obtain ⟨t, ht, hops, hacc⟩ : ∃ t, machine.run hastyRun
      (start upConn [[1, 2], [3]]) = some t ∧
      t.conn.socket.ops = [.write [1], .write [2]] ++ .shutdownWrite :: [] ∧
      t.accepted = [1, 2, 3] := ⟨_, rfl, rfl, rfl⟩
  have hbytes := (h upConn upConn_ready _ _ t ht _ _ hops).1
  rw [hacc] at hbytes
  exact absurd hbytes (by decide)

end ShutdownSystem

end Libanet.Net
