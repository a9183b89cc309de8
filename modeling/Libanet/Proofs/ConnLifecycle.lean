import Libanet.Lib.Machine
import Libanet.Proofs.OutputStream

/-!
# The life of a connection

`connectEstablished` brings a connection up; a read of 0 bytes, a hangup or
a `forceClose` take it down through `handleClose`; `connectDestroyed` takes
its channel off the loop. In between the channel reports events, the loop
runs what the connection has queued, and users call `send`, `shutdown` and
`forceClose` from any thread and from inside their callbacks.

Two predicates carry the argument. An `Opened` connection is up or on its
way down and has told nobody that it is down. A `Closed` one has told
everybody, in the last entries of its log, and has no interest left. User
calls keep an opened connection opened and do nothing to a closed one, so
whatever the callbacks call, `handleClose` turns the one into the other and
nothing turns it back. The channel of a closed connection reports nothing;
what is still queued finds `kDisconnected` and does nothing, or half-closes
the socket.

One `handleEvent` can fire `handleClose` and then `handleRead`. That the
second one does not find the connection closed is the kernel's doing: a
hangup that is not readable comes without `POLLPRI` and `POLLRDHUP`.
-/

namespace Libanet.Net

/-- How far along its life a connection is. -/
def StateE.rank : StateE → Nat
  | .kConnecting => 0
  | .kConnected => 1
  | .kDisconnecting => 2
  | .kDisconnected => 3

def ConnEvent.newState : ConnEvent → Option StateE
  | .setState s => some s
  | _ => none

def ConnEvent.isMessage : ConnEvent → Bool
  | .messageCallback _ => true
  | _ => false

def Call.isReadControl : Call → Bool
  | .startRead _ | .stopRead _ => true
  | _ => false

def ConnFunctor.isReadControl : ConnFunctor → Bool
  | .startReadInLoop | .stopReadInLoop => true
  | _ => false

/-- A hangup without `POLLIN` has neither `POLLPRI` nor `POLLRDHUP`. -/
def EventMask.fromKernel (revents : EventMask) : Bool :=
  !(revents.has POLLHUP && !revents.has POLLIN) ||
    !revents.has (POLLPRI ||| POLLRDHUP)

/-- A hangup without `POLLIN` does not make `handleEvent` read. -/
theorem EventMask.nothing_to_read {revents : EventMask} (hk : revents.fromKernel = true)
    (hhup : (revents.has POLLHUP && !revents.has POLLIN) = true) :
    revents.has (POLLIN ||| POLLPRI ||| POLLRDHUP) = false := by
  rw [EventMask.fromKernel, hhup] at hk
  have hin : revents.has POLLIN = false := by
    simp only [Bool.and_eq_true, Bool.not_eq_true'] at hhup
    exact hhup.2
  rw [BitVec.or_assoc, EventMask.has_bits_or, hin]
  simpa using hk

namespace TcpConnection

/-- None of the calls starts or stops reading. -/
def noReadControl (ks : List Call) : Bool := ks.all (!·.isReadControl)

/-- The values `state_` has had, oldest first. -/
def statesSeen (c : TcpConnection) : List StateE :=
  .kConnecting :: c.log.filterMap ConnEvent.newState

/-- A connection that has come up, and has only moved forward since. -/
structure Established (c : TcpConnection) : Prop where
  forward : c.statesSeen.Pairwise fun s t => s.rank ≤ t.rank
  current : c.statesSeen.getLast? = some c.state
  up : c.log.count (.connectionCallback true) = 1
  posted : ∀ f ∈ c.posted, f.isReadControl = false

structure Opened (c : TcpConnection) : Prop extends Established c where
  state : c.state = .kConnected ∨ c.state = .kDisconnecting
  down : .connectionCallback false ∉ c.log
  close : .closeCallback ∉ c.log

/-- A connection that is down. `tail` is what the log says after DOWN. -/
structure Closed (tail : List ConnEvent) (c : TcpConnection) : Prop
    extends Established c where
  state : c.state = .kDisconnected
  events : c.channel.isNoneEvent = true
  down : ∃ pre, c.log = pre ++ .connectionCallback false :: tail ∧
    .connectionCallback false ∉ pre ∧ .closeCallback ∉ pre

/-- The same connection, later. -/
structure SameConn (c c' : TcpConnection) : Prop where
  loop : c'.loop = c.loop
  name : c'.name = c.name
  log : c.log <+: c'.log

theorem SameConn.refl (c : TcpConnection) : SameConn c c := ⟨rfl, rfl, List.prefix_rfl⟩

theorem SameConn.trans {a b c : TcpConnection} (h₁ : SameConn a b)
    (h₂ : SameConn b c) : SameConn a c :=
  ⟨h₂.loop.trans h₁.loop, h₂.name.trans h₁.name, h₁.log.trans h₂.log⟩

theorem SameConn.setState (c : TcpConnection) (s : StateE) : SameConn c (c.setState s) :=
  ⟨rfl, rfl, List.prefix_append _ _⟩

theorem SameConn.queueInLoop (c : TcpConnection) (f : ConnFunctor) :
    SameConn c (c.queueInLoop f) := ⟨rfl, rfl, List.prefix_rfl⟩

theorem SameConn.emit (c : TcpConnection) (e : ConnEvent) : SameConn c (c.emit e) :=
  ⟨rfl, rfl, List.prefix_append _ _⟩

theorem OutputStep.sameConn {c c' : TcpConnection} (h : OutputStep c c') :
    SameConn c c' := ⟨h.loop, h.name, h.log ▸ List.prefix_rfl⟩

/-! ## Moving forward -/

theorem forward_concat {l : List StateE} {s t : StateE}
    (hl : l.Pairwise fun s t => s.rank ≤ t.rank) (hs : l.getLast? = some s)
    (hst : s.rank ≤ t.rank) :
    (l ++ [t]).Pairwise fun s t => s.rank ≤ t.rank := by
  obtain ⟨l', rfl⟩ := List.getLast?_eq_some_iff.mp hs
  rw [List.pairwise_append]
  refine ⟨hl, List.pairwise_singleton _ _, ?_⟩
  intro a ha b hb
  rw [List.mem_singleton.mp hb]
  rcases List.mem_append.mp ha with ha | ha
  · have hlast := (List.pairwise_append.mp hl).2.2 a ha s List.mem_cons_self
    omega
  · rw [List.mem_singleton.mp ha]
    exact hst

@[simp] theorem statesSeen_setState (c : TcpConnection) (s : StateE) :
    (c.setState s).statesSeen = c.statesSeen ++ [s] := by
  simp [statesSeen, setState, ConnEvent.newState]

theorem Established.setState {c : TcpConnection} (h : c.Established) {s : StateE}
    (hs : c.state.rank ≤ s.rank) : (c.setState s).Established where
  forward := by
    rw [statesSeen_setState]
    exact forward_concat h.forward h.current hs
  current := by
    rw [statesSeen_setState, List.getLast?_concat]
    rfl
  up := by simpa [TcpConnection.setState] using h.up
  posted := h.posted

/-- Nothing but the state, the log and the queue is looked at. -/
theorem Established.congr {c d : TcpConnection} (h : c.Established)
    (hst : d.state = c.state) (hlog : d.log = c.log)
    (hp : ∀ f ∈ d.posted, f.isReadControl = false) : d.Established := by
  have hseen : d.statesSeen = c.statesSeen := by rw [statesSeen, hlog, statesSeen]
  exact ⟨hseen ▸ h.forward, by rw [hseen, hst]; exact h.current, hlog ▸ h.up, hp⟩

theorem isReadControl_of_isCallback {f : ConnFunctor} (h : f.isCallback = true) :
    f.isReadControl = false := by
  cases f <;> first | rfl | cases h

theorem OutputStep.noReadControl {c c' : TcpConnection} (h : OutputStep c c')
    (hp : ∀ f ∈ c.posted, f.isReadControl = false) :
    ∀ f ∈ c'.posted, f.isReadControl = false := by
  obtain ⟨fs, hfs, hcb⟩ := h.posted
  intro f hf
  rw [hfs] at hf
  rcases List.mem_append.mp hf with hf | hf
  · exact hp f hf
  · exact isReadControl_of_isCallback (hcb f hf)

theorem Opened.congr {c d : TcpConnection} (h : c.Opened)
    (hst : d.state = c.state) (hlog : d.log = c.log)
    (hp : ∀ f ∈ d.posted, f.isReadControl = false) : d.Opened where
  toEstablished := h.toEstablished.congr hst hlog hp
  state := hst ▸ h.state
  down := hlog ▸ h.down
  close := hlog ▸ h.close

theorem Opened.outputStep {c c' : TcpConnection} (h : c.Opened)
    (hs : OutputStep c c') : c'.Opened :=
  h.congr hs.state hs.log (hs.noReadControl h.posted)

theorem Opened.queueInLoop {c : TcpConnection} (h : c.Opened) {f : ConnFunctor}
    (hf : f.isReadControl = false) : (c.queueInLoop f).Opened := by
  refine h.congr rfl rfl ?_
  intro g hg
  rcases List.mem_append.mp hg with hg | hg
  · exact h.posted g hg
  · rw [List.mem_singleton.mp hg]
    exact hf

/-! ## User calls on an opened connection -/

theorem Opened.disconnecting {c : TcpConnection} (h : c.Opened) :
    (c.setState .kDisconnecting).Opened where
  toEstablished := by
    refine h.toEstablished.setState ?_
    rcases h.state with hst | hst
    · simp [hst, StateE.rank]
    · simp [hst, StateE.rank]
  state := .inr rfl
  down := by simpa [TcpConnection.setState] using h.down
  close := by simpa [TcpConnection.setState] using h.close

theorem Opened.shutdown {c : TcpConnection} (h : c.Opened) (inLoop : Bool) :
    (c.shutdown inLoop).Opened ∧ SameConn c (c.shutdown inLoop) := by
  unfold TcpConnection.shutdown
  split
  · cases inLoop with
    | true =>
        obtain ⟨hs, -⟩ := shutdownInLoop_spec (c.setState .kDisconnecting)
        exact ⟨h.disconnecting.outputStep hs, (SameConn.setState c _).trans hs.sameConn⟩
    | false =>
        exact ⟨h.disconnecting.queueInLoop rfl,
          (SameConn.setState c _).trans (.queueInLoop _ _)⟩
  · exact ⟨h, .refl c⟩

theorem Opened.forceClose {c : TcpConnection} (h : c.Opened) :
    c.forceClose.Opened ∧ SameConn c c.forceClose := by
  unfold TcpConnection.forceClose
  rw [if_pos h.state]
  exact ⟨h.disconnecting.queueInLoop rfl,
    (SameConn.setState c _).trans (.queueInLoop _ _)⟩

theorem Opened.send {c : TcpConnection} (h : c.Opened) (inLoop : Bool)
    (message : List UInt8) (w : WriteResult) :
    ∃ c', c.send inLoop message w = .ok c' ∧ c'.Opened ∧ SameConn c c' := by
  unfold TcpConnection.send
  split
  · cases inLoop with
    | true =>
        obtain ⟨c', hc, hs, -⟩ := sendInLoop_spec c message w
        exact ⟨c', hc, h.outputStep hs, hs.sameConn⟩
    | false => exact ⟨_, rfl, h.queueInLoop rfl, .queueInLoop c _⟩
  · exact ⟨c, rfl, h, .refl c⟩

theorem Opened.call {c : TcpConnection} (h : c.Opened) {k : Call}
    (hk : k.isReadControl = false) :
    ∃ c', c.call k = .ok c' ∧ c'.Opened ∧ SameConn c c' := by
  cases k with
  | send inLoop message w => exact h.send inLoop message w
  | shutdown inLoop => exact ⟨_, rfl, h.shutdown inLoop⟩
  | forceClose => exact ⟨_, rfl, h.forceClose⟩
  | startRead inLoop => cases hk
  | stopRead inLoop => cases hk

theorem Opened.calls {ks : List Call} (hk : noReadControl ks = true)
    {c : TcpConnection} (h : c.Opened) :
    ∃ c', c.calls ks = .ok c' ∧ c'.Opened ∧ SameConn c c' := by
  induction ks generalizing c with
  | nil => exact ⟨c, rfl, h, .refl c⟩
  | cons k ks ih =>
      simp only [noReadControl, List.all_cons, Bool.and_eq_true,
        Bool.not_eq_true'] at hk
      obtain ⟨c₁, hc₁, h₁, hs₁⟩ := h.call hk.1
      obtain ⟨c₂, hc₂, h₂, hs₂⟩ := ih hk.2 h₁
      exact ⟨c₂, bind_eq_ok.mpr ⟨c₁, hc₁, hc₂⟩, h₂, hs₁.trans hs₂⟩

/-! ## User calls on a connection that is down -/

theorem call_disconnected {c : TcpConnection} (hst : c.state = .kDisconnected)
    {k : Call} (hk : k.isReadControl = false) : c.call k = .ok c := by
  cases k with
  | send inLoop message w => simp [call, send, hst]
  | shutdown inLoop => simp [call, shutdown, hst]
  | forceClose => simp [call, forceClose, hst]
  | startRead inLoop => cases hk
  | stopRead inLoop => cases hk

theorem calls_disconnected {c : TcpConnection} (hst : c.state = .kDisconnected)
    {ks : List Call} (hk : noReadControl ks = true) : c.calls ks = .ok c := by
  induction ks with
  | nil => rfl
  | cons k ks ih =>
      simp only [noReadControl, List.all_cons, Bool.and_eq_true,
        Bool.not_eq_true'] at hk
      exact bind_eq_ok.mpr ⟨c, call_disconnected hst hk.1, ih hk.2⟩

/-! ## Coming up and going down -/

theorem connectEstablished_spec {c : TcpConnection} (hc : c.Fresh) {up : List Call}
    (hk : noReadControl up = true) :
    ∃ c', c.connectEstablished up = .ok c' ∧ c'.Opened ∧ SameConn c c' := by
  have hopen : (({ c.setState .kConnected with
      channel := c.channel.tie.enableReading } : TcpConnection).emit
        (.connectionCallback true)).Opened := by
    have hlog : (({ c.setState .kConnected with
        channel := c.channel.tie.enableReading } : TcpConnection).emit
          (.connectionCallback true)).log =
        [.setState .kConnected, .connectionCallback true] := by
      simp [setState, emit, hc.log]
    refine ⟨⟨?_, ?_, ?_, ?_⟩, .inl rfl, ?_, ?_⟩
    · rw [statesSeen, hlog]
      decide
    · rw [statesSeen, hlog]
      rfl
    · rw [hlog]
      decide
    · simp [setState, emit, hc.posted]
    · rw [hlog]
      decide
    · rw [hlog]
      decide
  obtain ⟨c', hc', h', hs⟩ := hopen.calls hk
  refine ⟨c', assertThat_bind_eq_ok.mpr ⟨hc.state, hc'⟩, h', hs.loop, hs.name, ?_⟩
  rw [hc.log]
  exact List.nil_prefix

/-- DOWN, as `handleClose` and `connectDestroyed` both say it: the state,
then the interest, then the callback. -/
def takeDown (c : TcpConnection) : TcpConnection :=
  ({ c.setState .kDisconnected with channel := c.channel.disableAll } :
    TcpConnection).emit (.connectionCallback false)

theorem sameConn_takeDown (c : TcpConnection) : SameConn c c.takeDown :=
  ⟨rfl, rfl, (SameConn.setState c .kDisconnected).log.trans (List.prefix_append _ _)⟩

theorem Opened.takeDown {c : TcpConnection} (h : c.Opened) : c.takeDown.Closed [] where
  toEstablished := by
    have hd : (c.setState .kDisconnected).Established := by
      refine h.toEstablished.setState ?_
      rcases h.state with hst | hst <;> rw [hst] <;> decide
    have hseen : c.takeDown.statesSeen = (c.setState .kDisconnected).statesSeen := by
      simp [TcpConnection.takeDown, statesSeen, emit, ConnEvent.newState]
    refine ⟨hseen ▸ hd.forward, hseen ▸ hd.current, ?_, h.posted⟩
    simpa [TcpConnection.takeDown, TcpConnection.setState, emit] using h.up
  state := rfl
  events := Channel.isNoneEvent_disableAll c.channel
  down := by
    refine ⟨c.log ++ [.setState .kDisconnected], rfl, ?_, ?_⟩
    · simpa using h.down
    · simpa using h.close

/-- The last thing a connection that is down says. -/
theorem Closed.emitClose {c : TcpConnection} (h : c.Closed []) :
    (c.emit .closeCallback).Closed [.closeCallback] where
  toEstablished := by
    have hseen : (c.emit .closeCallback).statesSeen = c.statesSeen := by
      simp [statesSeen, emit, ConnEvent.newState]
    refine ⟨hseen ▸ h.forward, hseen ▸ h.current, ?_, h.posted⟩
    simpa [emit] using h.up
  state := h.state
  events := h.events
  down := by
    obtain ⟨pre, hlog, hpre⟩ := h.down
    exact ⟨pre, by simp [emit, hlog], hpre⟩

theorem handleClose_spec {c : TcpConnection} (h : c.Opened) {down close : List Call}
    (hd : noReadControl down = true) (hcl : noReadControl close = true) :
    ∃ c', c.handleClose down close = .ok c' ∧ c'.Closed [.closeCallback] ∧
      SameConn c c' := by
  have hdown : c.takeDown.calls down = .ok c.takeDown := calls_disconnected rfl hd
  have hclose : (c.takeDown.emit .closeCallback).calls close =
      .ok (c.takeDown.emit .closeCallback) := calls_disconnected rfl hcl
  refine ⟨c.takeDown.emit .closeCallback, ?_, h.takeDown.emitClose,
    (sameConn_takeDown c).trans (.emit _ _)⟩
  exact assertThat_bind_eq_ok.mpr ⟨h.state, bind_eq_ok.mpr ⟨_, hdown, hclose⟩⟩

theorem Closed.remove {tail : List ConnEvent} {c : TcpConnection} (h : c.Closed tail) :
    ∃ ch, c.channel.remove = .ok ch ∧
      ({ c with channel := ch } : TcpConnection).Closed tail :=
  ⟨_, assertThat_bind_eq_ok.mpr ⟨h.events, rfl⟩,
    h.toEstablished.congr rfl rfl h.posted, h.state, h.events, h.down⟩

theorem connectDestroyed_closed {tail : List ConnEvent} {c : TcpConnection}
    (h : c.Closed tail) (down : List Call) :
    ∃ c', c.connectDestroyed down = .ok c' ∧ c'.Closed tail ∧ SameConn c c' := by
  obtain ⟨ch, hch, hcl⟩ := h.remove
  have hst : ¬c.state = .kConnected := by
    rw [h.state]
    decide
  refine ⟨_, ?_, hcl, rfl, rfl, List.prefix_rfl⟩
  unfold connectDestroyed
  rw [if_neg hst]
  exact bind_eq_ok.mpr ⟨c, rfl, bind_eq_ok.mpr ⟨ch, hch, rfl⟩⟩

theorem connectDestroyed_connected {c : TcpConnection} (h : c.Opened)
    (hst : c.state = .kConnected) {down : List Call} (hd : noReadControl down = true) :
    ∃ c', c.connectDestroyed down = .ok c' ∧ c'.Closed [] ∧ SameConn c c' := by
  obtain ⟨ch, hch, hcl⟩ := h.takeDown.remove
  have hdown : c.takeDown.calls down = .ok c.takeDown := calls_disconnected rfl hd
  refine ⟨_, ?_, hcl, rfl, rfl, (sameConn_takeDown c).log⟩
  unfold connectDestroyed
  rw [if_pos hst]
  exact bind_eq_ok.mpr ⟨_, hdown, bind_eq_ok.mpr ⟨ch, hch, rfl⟩⟩

/-! ## What the loop thread runs -/

/-- Opened, or closed by `handleClose`. -/
def Alive (c : TcpConnection) : Prop := c.Opened ∨ c.Closed [.closeCallback]

theorem Closed.isWriting {tail : List ConnEvent} {c : TcpConnection}
    (h : c.Closed tail) : c.channel.isWriting = false := by
  have hev : c.channel.events = Channel.kNoneEvent := by
    simpa [Channel.isNoneEvent] using h.events
  rw [Channel.isWriting, hev]
  decide

theorem Opened.emitMessage {c : TcpConnection} (h : c.Opened) (t : Timestamp) :
    (c.emit (.messageCallback t)).Opened where
  toEstablished := by
    have hseen : (c.emit (.messageCallback t)).statesSeen = c.statesSeen := by
      simp [statesSeen, emit, ConnEvent.newState]
    refine ⟨hseen ▸ h.forward, hseen ▸ h.current, ?_, h.posted⟩
    simpa [emit] using h.up
  state := h.state
  down := by simpa [emit] using h.down
  close := by simpa [emit] using h.close

/-- The calls of an event's callbacks leave read interest alone. -/
def EventScript.noReadControl (e : EventScript) : Bool :=
  TcpConnection.noReadControl e.message && TcpConnection.noReadControl e.down &&
    TcpConnection.noReadControl e.close

theorem handleRead_spec {c : TcpConnection} (h : c.Opened) {e : EventScript}
    (he : e.noReadControl = true) (t : Timestamp) :
    ∃ c', c.handleRead e.read e.message e.down e.close t = .ok c' ∧ c'.Alive ∧
      SameConn c c' := by
  simp only [EventScript.noReadControl, Bool.and_eq_true] at he
  obtain ⟨⟨hm, hd⟩, hcl⟩ := he
  cases hr : e.read with
  | data =>
      obtain ⟨c', hc, h', hs⟩ := (h.emitMessage t).calls hm
      exact ⟨c', hc, .inl h', (SameConn.emit c _).trans hs⟩
  | eof =>
      obtain ⟨c', hc, h', hs⟩ := handleClose_spec h hd hcl
      exact ⟨c', hc, .inr h', hs⟩
  | failed => exact ⟨c, rfl, .inl h, .refl c⟩

theorem handleWrite_alive {c : TcpConnection} (h : c.Alive) {w : WriteResult}
    (hfit : w.fits c.outputBuffer.readableBytes = true) :
    ∃ c', c.handleWrite w = .ok c' ∧ c'.Alive ∧ SameConn c c' := by
  obtain ⟨c', hc, hs, -, -, hidle, -⟩ := handleWrite_spec hfit
  refine ⟨c', hc, ?_, hs.sameConn⟩
  rcases h with h | h
  · exact .inl (h.outputStep hs)
  · rw [hidle h.isWriting]
    exact .inr h

/-- The kernel never accepts more than the buffer holds when the write is
made, which is after everything else the event sets off. -/
def writeFits (e : EventScript) (locked : Bool) (revents : EventMask)
    (receiveTime : Timestamp) (c : TcpConnection) : Bool :=
  match Channel.handleEvent c.channel.tied locked
      { channelCallbacks e with writeCallback := none } revents receiveTime c with
  | .ok c' => e.write.fits c'.outputBuffer.readableBytes
  | .error _ => true

theorem fire_none {σ : Type} (cond : Bool) (s : σ) :
    Channel.fire cond none s = .ok s := by
  cases cond <;> rfl

/-- Up to its write callback, an event on an opened connection leaves it
opened or closes it. `handleRead` finds it opened: if the event has closed
it, the kernel reports nothing to read. -/
theorem beforeWrite_spec {c : TcpConnection} (h : c.Opened) {e : EventScript}
    (he : e.noReadControl = true) {revents : EventMask}
    (hk : revents.fromKernel = true) (t : Timestamp) :
    ∃ c', c'.Alive ∧ SameConn c c' ∧
      ∀ wcb, Channel.handleEventWithGuard
          { channelCallbacks e with writeCallback := wcb } revents t c =
        Channel.fire (revents.has POLLOUT) wcb c' := by
  have hscript := he
  simp only [EventScript.noReadControl, Bool.and_eq_true] at hscript
  obtain ⟨⟨-, hd⟩, hcl⟩ := hscript
  have herror : ∀ d : TcpConnection, Channel.fire (revents.has (POLLERR ||| POLLNVAL))
      (channelCallbacks e).errorCallback d = .ok d := by
    intro d
    cases revents.has (POLLERR ||| POLLNVAL) <;> rfl
  cases hhup : revents.has POLLHUP && !revents.has POLLIN with
  | true =>
      obtain ⟨c₁, hc₁, h₁, hs₁⟩ := handleClose_spec h hd hcl
      have hnoread := EventMask.nothing_to_read hk hhup
      refine ⟨c₁, .inr h₁, hs₁, fun wcb => ?_⟩
      unfold Channel.handleEventWithGuard
      rw [hhup, hnoread]
      show (c.handleClose e.down e.close >>= _) = _
      rw [hc₁]
      show (Channel.fire _ (channelCallbacks e).errorCallback c₁ >>= _) = _
      rw [herror c₁]
      rfl
  | false =>
      cases hin : revents.has (POLLIN ||| POLLPRI ||| POLLRDHUP) with
      | false =>
          refine ⟨c, .inl h, .refl c, fun wcb => ?_⟩
          unfold Channel.handleEventWithGuard
          rw [hhup, hin]
          show (Channel.fire _ (channelCallbacks e).errorCallback c >>= _) = _
          rw [herror c]
          rfl
      | true =>
          obtain ⟨c₁, hc₁, h₁, hs₁⟩ := handleRead_spec h he t
          refine ⟨c₁, h₁, hs₁, fun wcb => ?_⟩
          unfold Channel.handleEventWithGuard
          rw [hhup, hin]
          show (Channel.fire _ (channelCallbacks e).errorCallback c >>= _) = _
          rw [herror c]
          show (c.handleRead e.read e.message e.down e.close t >>= _) = _
          rw [hc₁]
          rfl

theorem handleEvent_spec {c : TcpConnection} (h : c.Opened) {e : EventScript}
    (he : e.noReadControl = true) {locked : Bool} {revents : EventMask}
    (hk : revents.fromKernel = true) {t : Timestamp}
    (hfit : c.writeFits e locked revents t = true) :
    ∃ c', c.handleEvent e locked revents t = .ok c' ∧ c'.Alive ∧ SameConn c c' := by
  obtain ⟨c₁, h₁, hs₁, hguard⟩ := beforeWrite_spec h he hk t
  by_cases hdrop : c.channel.tied = true ∧ locked = false
  · -- the owner is gone, and the event is dropped
    refine ⟨c, ?_, .inl h, .refl c⟩
    rw [handleEvent, Channel.handleEvent, if_pos hdrop.1, hdrop.2]
    rfl
  · have hrun : ∀ cb : Channel.Callbacks TcpConnection,
        Channel.handleEvent c.channel.tied locked cb revents t c =
          Channel.handleEventWithGuard cb revents t c :=
      fun cb => Channel.handleEvent_dispatched hdrop cb revents t c
    have hfit₁ : e.write.fits c₁.outputBuffer.readableBytes = true := by
      rw [writeFits, hrun, hguard, fire_none] at hfit
      exact hfit
    obtain ⟨c₂, hc₂, h₂, hs₂⟩ := handleWrite_alive h₁ hfit₁
    rw [handleEvent, hrun]
    cases hout : revents.has POLLOUT with
    | true =>
        refine ⟨c₂, ?_, h₂, hs₁.trans hs₂⟩
        rw [← hc₂]
        exact (hguard _).trans (by rw [hout]; rfl)
    | false =>
        refine ⟨c₁, ?_, h₁, hs₁⟩
        exact (hguard _).trans (by rw [hout]; rfl)

/-- A queued functor of the connection, run by its loop. -/
theorem runFunctor_spec {c : TcpConnection} (h : c.Alive) {f : ConnFunctor}
    (hf : f.isReadControl = false) (w : WriteResult) {ks down close : List Call}
    (hks : noReadControl ks = true) (hd : noReadControl down = true)
    (hcl : noReadControl close = true) :
    ∃ c', c.runFunctor f w ks down close = .ok c' ∧ c'.Alive ∧ SameConn c c' := by
  have hcalls : ∃ c', c.calls ks = .ok c' ∧ c'.Alive ∧ SameConn c c' := by
    rcases h with h | h
    · obtain ⟨c', hc, h', hs⟩ := h.calls hks
      exact ⟨c', hc, .inl h', hs⟩
    · exact ⟨c, calls_disconnected h.state hks, .inr h, .refl c⟩
  cases f with
  | sendInLoop message =>
      obtain ⟨c', hc, hs, -, -, -, hdown⟩ := sendInLoop_spec c message w
      refine ⟨c', hc, ?_, hs.sameConn⟩
      rcases h with h | h
      · exact .inl (h.outputStep hs)
      · rw [hdown h.state]
        exact .inr h
  | shutdownInLoop =>
      obtain ⟨hs, hch, -⟩ := shutdownInLoop_spec c
      refine ⟨c.shutdownInLoop, rfl, ?_, hs.sameConn⟩
      rcases h with h | h
      · exact .inl (h.outputStep hs)
      · exact .inr ⟨h.toEstablished.congr hs.state hs.log (hs.noReadControl h.posted),
          hs.state.trans h.state, by rw [hch]; exact h.events,
          by rw [hs.log]; exact h.down⟩
  | forceCloseInLoop =>
      rcases h with h | h
      · obtain ⟨c', hc, h', hs⟩ := handleClose_spec h hd hcl
        exact ⟨c', (if_pos h.state).trans hc, .inr h', hs⟩
      · refine ⟨c, if_neg ?_, .inr h, .refl c⟩
        rw [h.state]
        decide
  | startReadInLoop => cases hf
  | stopReadInLoop => cases hf
  | writeCompleteCallback => exact hcalls
  | highWaterMarkCallback len => exact hcalls

theorem Alive.established {c : TcpConnection} (h : c.Alive) : c.Established := by
  rcases h with h | h
  · exact h.toEstablished
  · exact h.toEstablished

theorem Alive.call {c : TcpConnection} (h : c.Alive) {k : Call}
    (hk : k.isReadControl = false) :
    ∃ c', c.call k = .ok c' ∧ c'.Alive ∧ SameConn c c' := by
  rcases h with h | h
  · obtain ⟨c', hc, h', hs⟩ := h.call hk
    exact ⟨c', hc, .inl h', hs⟩
  · exact ⟨c, call_disconnected h.state hk, .inr h, .refl c⟩

/-- What has been queued is the loop's: taking some of it off the queue
makes no difference to the connection. -/
theorem Alive.withPosted {c : TcpConnection} (h : c.Alive) {fs : List ConnFunctor}
    (hfs : ∀ f ∈ fs, f.isReadControl = false) :
    ({ c with posted := fs } : TcpConnection).Alive := by
  rcases h with h | h
  · exact .inl (h.congr rfl rfl hfs)
  · exact .inr ⟨h.toEstablished.congr rfl rfl hfs, h.state, h.events, h.down⟩

/-- What the log of a closed connection says: DOWN once, the close at most
once, and no message behind DOWN. -/
theorem closed_log_law {tail : List ConnEvent} {c : TcpConnection} (h : c.Closed tail)
    (htail : tail = [] ∨ tail = [.closeCallback]) :
    c.log.count (.connectionCallback false) ≤ 1 ∧ c.log.count .closeCallback ≤ 1 ∧
      ∀ pre post, c.log = pre ++ .connectionCallback false :: post →
        ∀ e ∈ post, e.isMessage = false := by
  obtain ⟨pre, hlog, hdown, hclose⟩ := h.down
  have htail' : .connectionCallback false ∉ tail ∧ tail.count .closeCallback ≤ 1 ∧
      ∀ e ∈ tail, e.isMessage = false := by
    rcases htail with rfl | rfl <;> decide
  obtain ⟨hnd, hcl, hmsg⟩ := htail'
  refine ⟨?_, ?_, ?_⟩
  · have hpre := List.count_eq_zero.mpr hdown
    have hpost := List.count_eq_zero.mpr hnd
    rw [hlog, List.count_append, List.count_cons_self]
    omega
  · rw [hlog, List.count_append, List.count_eq_zero.mpr hclose,
      List.count_cons_of_ne (by decide)]
    omega
  · -- DOWN occurs once, so there is one way to cut the log at it
    intro pre' post heq
    rw [hlog] at heq
    rcases List.append_eq_append_iff.mp heq with ⟨mid, hmid, hrest⟩ | ⟨mid, hmid, hrest⟩
    · cases mid with
      | nil =>
          rw [List.nil_append, List.cons.injEq] at hrest
          rw [← hrest.2]
          exact hmsg
      | cons e mid =>
          rw [List.cons_append, List.cons.injEq] at hrest
          exact absurd (by rw [hrest.2]; simp) hnd
    · cases mid with
      | nil =>
          rw [List.nil_append, List.cons.injEq] at hrest
          rw [hrest.2]
          exact hmsg
      | cons e mid =>
          rw [List.cons_append, List.cons.injEq] at hrest
          exact absurd (by rw [hmid, ← hrest.1]; simp) hdown

end TcpConnection

/-! ## Whole lives -/

inductive LifePhase where
  | created
  | live
  | destroyed
  deriving DecidableEq, Repr

/-- A connection, and how far its owner has brought it. -/
structure LifeCycle where
  conn : TcpConnection
  phase : LifePhase

inductive LifeStep where
  | connectEstablished (up : List Call)
  | handleEvent (e : TcpConnection.EventScript) (locked : Bool)
      (revents : EventMask) (receiveTime : Timestamp)
  /-- A user calls, from any thread. -/
  | call (k : Call)
  /-- The loop runs what the connection queued first. -/
  | runFunctor (w : WriteResult) (ks down close : List Call)
  | connectDestroyed (down : List Call)

namespace LifeCycle

open TcpConnection

/-- `connectEstablished` comes first. The channel reports events while it
has interest. `connectDestroyed` comes last, after `handleClose` or while
the connection is up. -/
def guard (s : LifeCycle) : LifeStep → Bool
  | .connectEstablished up => s.phase = .created && noReadControl up
  | .handleEvent e locked revents receiveTime =>
      s.phase = .live && !s.conn.channel.isNoneEvent && revents.fromKernel &&
        e.noReadControl && s.conn.writeFits e locked revents receiveTime
  | .call k => s.phase = .live && !k.isReadControl
  | .runFunctor _ ks down close =>
      s.phase = .live && !s.conn.posted.isEmpty && noReadControl ks &&
        noReadControl down && noReadControl close
  | .connectDestroyed down =>
      s.phase = .live && noReadControl down &&
        (s.conn.log.contains .closeCallback || s.conn.state = .kConnected)

def runFunctor (s : LifeCycle) (w : WriteResult) (ks down close : List Call) :
    Except Fault LifeCycle :=
  match s.conn.posted with
  | [] => .ok s
  | f :: fs => do
      let conn ← { s.conn with posted := fs }.runFunctor f w ks down close
      return { s with conn := conn }

def exec : LifeStep → LifeCycle → Except Fault LifeCycle
  | .connectEstablished up, s => do
      return ⟨← s.conn.connectEstablished up, .live⟩
  | .handleEvent e locked revents receiveTime, s => do
      return { s with conn := ← s.conn.handleEvent e locked revents receiveTime }
  | .call k, s => do return { s with conn := ← s.conn.call k }
  | .runFunctor w ks down close, s => s.runFunctor w ks down close
  | .connectDestroyed down, s => do
      return ⟨← s.conn.connectDestroyed down, .destroyed⟩

def machine : Machine LifeCycle LifeStep Fault := ⟨guard, exec⟩

def start (c : TcpConnection) : LifeCycle := ⟨c, .created⟩

def Inv (s : LifeCycle) : Prop :=
  match s.phase with
  | .created => s.conn.Fresh
  | .live => s.conn.Alive
  | .destroyed => ∃ tail, s.conn.Closed tail ∧ (tail = [] ∨ tail = [.closeCallback])

/-- Every action on offer runs to its end, and keeps the invariant. -/
theorem step_inv {s : LifeCycle} {a : LifeStep} (hi : s.Inv)
    (hg : s.guard a = true) : ∃ t, exec a s = .ok t ∧ t.Inv := by
  obtain ⟨c, phase⟩ := s
  cases a with
  | connectEstablished up =>
      simp only [guard, Bool.and_eq_true, decide_eq_true_eq] at hg
      obtain ⟨rfl, hup⟩ := hg
      obtain ⟨c', hc, h', -⟩ := connectEstablished_spec hi hup
      exact ⟨⟨c', .live⟩, bind_eq_ok.mpr ⟨c', hc, rfl⟩, .inl h'⟩
  | handleEvent e locked revents receiveTime =>
      simp only [guard, Bool.and_eq_true, decide_eq_true_eq, Bool.not_eq_true'] at hg
      obtain ⟨⟨⟨⟨rfl, hint⟩, hk⟩, he⟩, hfit⟩ := hg
      rcases hi with hi | hi
      · obtain ⟨c', hc, h', -⟩ := handleEvent_spec hi he hk hfit
        exact ⟨⟨c', .live⟩, bind_eq_ok.mpr ⟨c', hc, rfl⟩, h'⟩
      · -- nothing is reported of a channel without interest
        rw [hi.events] at hint
        cases hint
  | call k =>
      simp only [guard, Bool.and_eq_true, decide_eq_true_eq, Bool.not_eq_true'] at hg
      obtain ⟨rfl, hk⟩ := hg
      obtain ⟨c', hc, h', -⟩ := Alive.call hi hk
      exact ⟨⟨c', .live⟩, bind_eq_ok.mpr ⟨c', hc, rfl⟩, h'⟩
  | runFunctor w ks down close =>
      simp only [guard, Bool.and_eq_true, decide_eq_true_eq, Bool.not_eq_true'] at hg
      obtain ⟨⟨⟨⟨rfl, hne⟩, hks⟩, hd⟩, hcl⟩ := hg
      have hposted := (Alive.established hi).posted
      cases hp : c.posted with
      | nil => simp [hp] at hne
      | cons f fs =>
          rw [hp] at hposted
          have hrest : Alive { c with posted := fs } :=
            Alive.withPosted hi fun g hg => hposted g (List.mem_cons_of_mem f hg)
          obtain ⟨c', hc, h', -⟩ := runFunctor_spec hrest
            (hposted f List.mem_cons_self) w hks hd hcl
          refine ⟨⟨c', .live⟩, ?_, h'⟩
          simp only [exec, runFunctor, hp]
          exact bind_eq_ok.mpr ⟨c', hc, rfl⟩
  | connectDestroyed down =>
      simp only [guard, Bool.and_eq_true, decide_eq_true_eq, Bool.or_eq_true] at hg
      obtain ⟨⟨rfl, hd⟩, hlast⟩ := hg
      rcases hi with hi | hi
      · have hst : c.state = .kConnected := by
          rcases hlast with hcb | hst
          · exact absurd (List.contains_iff_mem.mp hcb) hi.close
          · exact hst
        obtain ⟨c', hc, h', -⟩ := connectDestroyed_connected hi hst hd
        exact ⟨⟨c', .destroyed⟩, bind_eq_ok.mpr ⟨c', hc, rfl⟩, [], h', .inl rfl⟩
      · obtain ⟨c', hc, h', -⟩ := connectDestroyed_closed hi down
        exact ⟨⟨c', .destroyed⟩, bind_eq_ok.mpr ⟨c', hc, rfl⟩, _, h', .inr rfl⟩

theorem reaches_inv {c : TcpConnection} (hc : c.Fresh) {s : LifeCycle}
    (hr : machine.Reaches (start c) s) : s.Inv := by
  refine hr.invariant (I := Inv) hc ?_
  intro s t a hi hg he
  obtain ⟨t', ht', hi'⟩ := step_inv hi hg
  cases ht'.symm.trans he
  exact hi'

/-- In every state of the life of a connection: no step on offer makes an
assertion fail; the values of `state_` so far only moved forward; UP was
called once, DOWN and the close callback at most once, and no message
callback after DOWN. The assertions are those of the connection and its
channel: a `LOG_WARN` that either writes is left out, and aborts in this build
(`Proofs.LogRecord`). -/
theorem life_cycle {c : TcpConnection} (hc : c.Fresh) {s : LifeCycle}
    (hr : machine.Reaches (start c) s) :
    machine.Safe s ∧
      s.conn.statesSeen.Pairwise (fun a b => a.rank ≤ b.rank) ∧
      s.conn.statesSeen.getLast? = some s.conn.state ∧
      (s.phase ≠ .created → s.conn.log.count (.connectionCallback true) = 1) ∧
      s.conn.log.count (.connectionCallback false) ≤ 1 ∧
      s.conn.log.count .closeCallback ≤ 1 ∧
      ∀ pre post, s.conn.log = pre ++ .connectionCallback false :: post →
        ∀ e ∈ post, e.isMessage = false := by
  have hi := reaches_inv hc hr
  have hsafe : machine.Safe s := by
    intro a hg
    obtain ⟨t, ht, -⟩ := step_inv hi hg
    exact ⟨t, ht⟩
  refine ⟨hsafe, ?_⟩
  unfold Inv at hi
  split at hi
  · next hp =>
      rw [statesSeen, hi.log, hi.state, hp]
      refine ⟨by decide, rfl, fun h => absurd rfl h, by decide, by decide, ?_⟩
      intro pre post heq
      exact absurd heq (by simp)
  · rcases hi with hi | hi
    · refine ⟨hi.forward, hi.current, fun _ => hi.up, ?_, ?_, ?_⟩
      · rw [List.count_eq_zero.mpr hi.down]
        omega
      · rw [List.count_eq_zero.mpr hi.close]
        omega
      · intro pre post heq
        exact absurd (by rw [heq]; simp) hi.down
    · exact ⟨hi.forward, hi.current, fun _ => hi.up, closed_log_law hi (.inr rfl)⟩
  · obtain ⟨tail, hcl, htail⟩ := hi
    exact ⟨hcl.forward, hcl.current, fun _ => hcl.up, closed_log_law hcl htail⟩

/-- A message whose callback closes the connection twice, with a user
closing it a third time before the loop gets to run any of it. -/
def closedThrice : List LifeStep :=
  [.connectEstablished [.send true [1, 2] (.wrote 1)],
    .handleEvent ⟨.data, .wrote 1, [.forceClose, .shutdown true, .forceClose], [], []⟩
      true (POLLIN ||| POLLRDHUP ||| POLLOUT) 5,
    .call .forceClose, .runFunctor (.wrote 0) [] [.forceClose] [],
    .runFunctor (.wrote 0) [] [] [], .runFunctor (.wrote 0) [] [] [],
    .connectDestroyed []]

theorem life_cycle_closedThrice :
    ∃ s, machine.run closedThrice (start small) = some s ∧
      s.conn.log.count .closeCallback = 1 ∧ s.conn.log.count .closeCallback ≤ 1 ∧
      s.conn.statesSeen = [.kConnecting, .kConnected, .kDisconnecting, .kDisconnecting,
        .kDisconnecting, .kDisconnected] := by
  obtain ⟨s, hr, hlog, hseen⟩ : ∃ s, machine.run closedThrice (start small) = some s ∧
      s.conn.log.count .closeCallback = 1 ∧ s.conn.statesSeen = [.kConnecting,
        .kConnected, .kDisconnecting, .kDisconnecting, .kDisconnecting,
        .kDisconnected] := ⟨_, rfl, by decide, by decide⟩
  obtain ⟨-, -, -, -, -, hclose, -⟩ := life_cycle small_fresh ⟨closedThrice, hr⟩
  exact ⟨s, hr, hlog, hclose, hseen⟩

end LifeCycle

end Libanet.Net
