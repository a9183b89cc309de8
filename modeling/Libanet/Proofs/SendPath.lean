import Libanet.Net.TcpConnection
import Libanet.Proofs.Buffer
import Libanet.Proofs.Channel

/-!
# What the send path of a connection does

`sendInLoop` and `handleWrite` are the two functions that move bytes. Each
is described here once, by what it does to the stream of a connection — the
bytes handed to the socket followed by the bytes waiting in the buffer — to
the calls made on the socket, and to write interest; `OutputStep` collects
what both of them leave alone. The machines built on connections cite these
lemmas and never unfold the functions.

A direct write is only tried on an empty buffer, so it cannot overtake
anything, and while the connection is up, write interest and a non-empty
buffer are the same thing (`Coupled`): nothing is left waiting without a
`handleWrite` to come.
-/

namespace Libanet.Net.TcpConnection

/-- What was handed to the socket, followed by what waits in the buffer. -/
def stream (c : TcpConnection) : List UInt8 :=
  c.socket.sent ++ c.outputBuffer.readable

/-- Write interest is on exactly while something waits to be written. -/
def Coupled (c : TcpConnection) : Prop :=
  c.channel.isWriting = true ↔ c.outputBuffer.readable ≠ []

instance (c : TcpConnection) : Decidable c.Coupled :=
  inferInstanceAs (Decidable (c.channel.isWriting = true ↔ c.outputBuffer.readable ≠ []))

theorem Coupled.readable_eq_nil {c : TcpConnection} (hc : c.Coupled)
    (hw : c.channel.isWriting = false) : c.outputBuffer.readable = [] := by
  apply Classical.byContradiction
  intro hne
  rw [hc.mpr hne] at hw
  cases hw

/-- The two ways a `sendInLoop` drops its data: the connection is down, or
the direct write finds that the peer is gone. -/
def drops (c : TcpConnection) (w : WriteResult) : Bool :=
  c.state = .kDisconnected ||
    (c.writesDirectly &&
      (w = .failed .EPIPE || w = .failed .ECONNRESET))

/-- A step of the send path: the state, the log and the identity of the
connection stay, and only user callbacks are queued. -/
structure OutputStep (c c' : TcpConnection) : Prop where
  state : c'.state = c.state
  log : c'.log = c.log
  loop : c'.loop = c.loop
  name : c'.name = c.name
  posted : ∃ fs, c'.posted = c.posted ++ fs ∧ ∀ f ∈ fs, f.isCallback = true

theorem OutputStep.of_posted_eq {c c' : TcpConnection}
    (hst : c'.state = c.state) (hlog : c'.log = c.log) (hloop : c'.loop = c.loop)
    (hname : c'.name = c.name) (hp : c'.posted = c.posted) : OutputStep c c' :=
  ⟨hst, hlog, hloop, hname, [], by rw [hp, List.append_nil], by simp⟩

theorem OutputStep.refl (c : TcpConnection) : OutputStep c c :=
  .of_posted_eq rfl rfl rfl rfl rfl

/-- Fields a step of the send path may change do not matter to where it
starts. -/
theorem OutputStep.head {c d c' : TcpConnection} (h : OutputStep d c')
    (hst : d.state = c.state) (hlog : d.log = c.log) (hloop : d.loop = c.loop)
    (hname : d.name = c.name) (hp : d.posted = c.posted) : OutputStep c c' := by
  obtain ⟨fs, hfs, hcb⟩ := h.posted
  exact ⟨h.state.trans hst, h.log.trans hlog, h.loop.trans hloop,
    h.name.trans hname, fs, hp ▸ hfs, hcb⟩

theorem OutputStep.trans {a b c : TcpConnection} (h₁ : OutputStep a b)
    (h₂ : OutputStep b c) : OutputStep a c := by
  obtain ⟨fs, hfs, hcb⟩ := h₁.posted
  obtain ⟨gs, hgs, hcb'⟩ := h₂.posted
  refine ⟨h₂.state.trans h₁.state, h₂.log.trans h₁.log, h₂.loop.trans h₁.loop,
    h₂.name.trans h₁.name, fs ++ gs, ?_, ?_⟩
  · rw [hgs, hfs, List.append_assoc]
  · intro f hf
    rcases List.mem_append.mp hf with hf | hf
    · exact hcb f hf
    · exact hcb' f hf

/-! ## What is queued

Both callbacks a send can owe the user go to the loop's queue, and nothing
but the queue changes. -/

theorem queueCallback {c : TcpConnection} {f : ConnFunctor}
    (hf : f.isCallback = true) : OutputStep c (c.queueInLoop f) :=
  ⟨rfl, rfl, rfl, rfl, [f], rfl, by simpa using hf⟩

theorem queueWriteComplete_spec (c : TcpConnection) :
    OutputStep c c.queueWriteComplete ∧
      c.queueWriteComplete.channel = c.channel ∧
      c.queueWriteComplete.socket = c.socket ∧
      c.queueWriteComplete.outputBuffer = c.outputBuffer := by
  unfold queueWriteComplete
  split
  · exact ⟨queueCallback rfl, rfl, rfl, rfl⟩
  · exact ⟨.refl c, rfl, rfl, rfl⟩

theorem queueHighWaterMark_spec (c : TcpConnection) (n : Nat) :
    OutputStep c (c.queueHighWaterMark n) ∧
      (c.queueHighWaterMark n).channel = c.channel ∧
      (c.queueHighWaterMark n).socket = c.socket ∧
      (c.queueHighWaterMark n).outputBuffer = c.outputBuffer := by
  unfold queueHighWaterMark
  dsimp only
  split
  · exact ⟨queueCallback rfl, rfl, rfl, rfl⟩
  · exact ⟨.refl c, rfl, rfl, rfl⟩

theorem wantWriting_spec (c : TcpConnection) :
    OutputStep c c.wantWriting ∧ c.wantWriting.channel.isWriting = true ∧
      c.wantWriting.socket = c.socket ∧
      c.wantWriting.outputBuffer = c.outputBuffer := by
  unfold wantWriting
  split
  · exact ⟨.of_posted_eq rfl rfl rfl rfl rfl, by simp, rfl, rfl⟩
  · next hw => exact ⟨.refl c, by simpa using hw, rfl, rfl⟩

theorem writesDirectly_iff {c : TcpConnection} :
    c.writesDirectly = true ↔
      c.channel.isWriting = false ∧ c.outputBuffer.readable = [] := by
  rw [Buffer.readable_eq_nil]
  simp [writesDirectly]

/-! ## `sendInLoop` -/

/-- The direct write hands the socket a prefix of the data and touches
nothing else. -/
theorem directWrite_spec {c c' : TcpConnection} {data : List UInt8}
    {w : WriteResult} {nwrote : Nat} {faultError : Bool}
    (h : c.directWrite data w = (c', nwrote, faultError)) :
    OutputStep c c' ∧ c'.socket = c.socket.write data w ∧
      c'.socket.sent = c.socket.sent ++ data.take nwrote ∧
      c'.outputBuffer = c.outputBuffer ∧ c'.channel = c.channel ∧
      faultError = (w = .failed .EPIPE || w = .failed .ECONNRESET) ∧
      (faultError = true → nwrote = 0) := by
  unfold directWrite at h
  cases w with
  | wrote n =>
      simp only [Prod.mk.injEq] at h
      obtain ⟨hc, rfl, rfl⟩ := h
      have hsent := Socket.sent_write_wrote c.socket data n
      split at hc
      · subst hc
        obtain ⟨hq, hch, hs, hb⟩ := queueWriteComplete_spec
          { c with socket := c.socket.write data (.wrote n) }
        refine ⟨hq.head rfl rfl rfl rfl rfl, hs, ?_, hb, hch, ?_, ?_⟩
        · rw [hs]
          exact hsent
        · simp
        · simp
      · subst hc
        exact ⟨.of_posted_eq rfl rfl rfl rfl rfl, rfl, hsent, rfl, rfl, by simp, by simp⟩
  | failed err =>
      simp only [Prod.mk.injEq] at h
      obtain ⟨rfl, rfl, rfl⟩ := h
      exact ⟨.of_posted_eq rfl rfl rfl rfl rfl, rfl, by simp, rfl, rfl, by simp, by simp⟩

/-- The tail of `sendInLoop` appends the rest of the data and leaves write
interest on. -/
theorem bufferRest_spec (c : TcpConnection) (data : List UInt8) (nwrote : Nat) :
    ∃ c', c.bufferRest data nwrote = .ok c' ∧ OutputStep c c' ∧
      c'.socket = c.socket ∧
      c'.outputBuffer.readable = c.outputBuffer.readable ++ data.drop nwrote ∧
      c'.channel.isWriting = true := by
  obtain ⟨hq, hch, hs, hb⟩ := queueHighWaterMark_spec c (data.length - nwrote)
  obtain ⟨b, happ, hread⟩ := Buffer.append_spec
    (c.queueHighWaterMark (data.length - nwrote)).outputBuffer (data.drop nwrote)
  obtain ⟨hstep, hw, hs', hb'⟩ := wantWriting_spec
    { c.queueHighWaterMark (data.length - nwrote) with outputBuffer := b }
  refine ⟨_, bind_eq_ok.mpr ⟨b, happ, rfl⟩, ?_, ?_, ?_, hw⟩
  · exact hq.trans (hstep.head rfl rfl rfl rfl rfl)
  · rw [hs']
    exact hs
  · rw [hb', hread, hb]

/-- What is left of the data goes into the buffer, unless the direct write
found the peer gone; write interest comes on exactly if something went
in. -/
theorem sendRest_spec (c : TcpConnection) (data : List UInt8) (nwrote : Nat)
    (faultError : Bool) :
    ∃ c', c.sendRest data nwrote faultError = .ok c' ∧ OutputStep c c' ∧
      c'.socket = c.socket ∧
      c'.outputBuffer.readable = c.outputBuffer.readable ++
        (if faultError then [] else data.drop nwrote) ∧
      (c.Coupled → c'.Coupled) := by
  unfold sendRest
  dsimp only
  rw [assertThat_of (Nat.sub_le _ _)]
  cases faultError with
  | true => exact ⟨c, rfl, .refl c, rfl, by simp, id⟩
  | false =>
      by_cases hrem : data.length - nwrote > 0
      · obtain ⟨c', hc, hstep, hs, hread, hw⟩ := bufferRest_spec c data nwrote
        refine ⟨c', ?_, hstep, hs, by simpa using hread, ?_⟩
        · show (if (!false && decide (data.length - nwrote > 0)) = true then
            c.bufferRest data nwrote else _) = _
          rw [if_pos (by simpa using hrem)]
          exact hc
        · have hne : data.drop nwrote ≠ [] := by
            rw [ne_eq, List.drop_eq_nil_iff]
            omega
          intro _
          simp [Coupled, hw, hread, hne]
      · refine ⟨c, ?_, .refl c, rfl, ?_, id⟩
        · show (if (!false && decide (data.length - nwrote > 0)) = true then
            c.bufferRest data nwrote else pure c) = _
          rw [if_neg (by simpa using hrem)]
          rfl
        · have hnil : data.drop nwrote = [] := List.drop_eq_nil_iff.mpr (by omega)
          simp [hnil]

/-- What one `sendInLoop` does: it never faults, it adds its data to the
stream unless it drops it, it keeps write interest and the buffer coupled,
and of the socket it asks at most one write. -/
theorem sendInLoop_spec (c : TcpConnection) (data : List UInt8)
    (w : WriteResult) :
    ∃ c', c.sendInLoop data w = .ok c' ∧ OutputStep c c' ∧
      c'.stream = c.stream ++ (if c.drops w then [] else data) ∧
      (c.Coupled → c'.Coupled) ∧
      (c'.socket = c.socket ∨ c'.socket = c.socket.write data w) ∧
      (c.state = .kDisconnected → c' = c) := by
  unfold sendInLoop
  by_cases hdown : c.state = .kDisconnected
  · rw [if_pos hdown]
    exact ⟨c, rfl, .refl c, by simp [drops, hdown], id, .inl rfl, fun _ => rfl⟩
  rw [if_neg hdown]
  cases hd : c.writesDirectly with
  | false =>
      -- the socket is not tried, and all of the data waits its turn
      obtain ⟨c', hc, hstep, hs, hread, hcoup⟩ := sendRest_spec c data 0 false
      refine ⟨c', by simpa using hc, hstep, ?_, hcoup, .inl hs, fun h => absurd h hdown⟩
      simp [stream, hs, hread, drops, hdown, hd]
  | true =>
      obtain ⟨hnw, hempty⟩ := writesDirectly_iff.mp hd
      cases hdw : c.directWrite data w with
      | mk c₁ r =>
          obtain ⟨nwrote, faultError⟩ := r
          obtain ⟨hstep₁, hsock, hsent, hbuf, hch, hfe, hzero⟩ := directWrite_spec hdw
          obtain ⟨c', hc, hstep, hs, hread, hcoup⟩ :=
            sendRest_spec c₁ data nwrote faultError
          refine ⟨c', by simpa using hc, hstep₁.trans hstep, ?_, ?_,
            .inr (hs.trans hsock), fun h => absurd h hdown⟩
          · have hdrops : c.drops w = faultError := by
              simp [drops, hdown, hd, hfe]
            rw [stream, hs, hread, hsent, hbuf, hempty, stream, hempty, hdrops]
            cases faultError with
            | true => simp [hzero rfl]
            | false => simp
          · intro _
            apply hcoup
            simp [Coupled, hch, hbuf, hnw, hempty]

/-! ## `handleWrite` and `shutdownInLoop` -/

theorem shutdownInLoop_spec (c : TcpConnection) :
    OutputStep c c.shutdownInLoop ∧ c.shutdownInLoop.channel = c.channel ∧
      c.shutdownInLoop.outputBuffer = c.outputBuffer ∧
      c.shutdownInLoop.socket =
        if c.channel.isWriting then c.socket else c.socket.shutdownWrite := by
  unfold shutdownInLoop
  cases hw : c.channel.isWriting with
  | true => exact ⟨.refl c, rfl, rfl, rfl⟩
  | false => exact ⟨.of_posted_eq rfl rfl rfl rfl rfl, rfl, rfl, rfl⟩

/-- A drained buffer takes write interest with it, and half-closes the
socket if the user has asked for that. -/
theorem outputDrained_spec (c : TcpConnection) :
    OutputStep c c.outputDrained ∧ c.outputDrained.channel.isWriting = false ∧
      c.outputDrained.outputBuffer = c.outputBuffer ∧
      c.outputDrained.socket =
        if c.state = .kDisconnecting then c.socket.shutdownWrite else c.socket := by
  unfold outputDrained
  dsimp only
  obtain ⟨hq, hch, hs, hb⟩ := queueWriteComplete_spec
    { c with channel := c.channel.disableWriting }
  have hstep : OutputStep c _ := hq.head rfl rfl rfl rfl rfl
  have hnw : ({ c with channel := c.channel.disableWriting } :
      TcpConnection).queueWriteComplete.channel.isWriting = false := by
    rw [hch]
    exact Channel.isWriting_disableWriting c.channel
  by_cases hd : c.state = .kDisconnecting
  · obtain ⟨hstep', hch', hb', hs'⟩ := shutdownInLoop_spec
      ({ c with channel := c.channel.disableWriting } :
        TcpConnection).queueWriteComplete
    rw [if_pos (hq.state.trans hd), if_pos hd]
    refine ⟨hstep.trans hstep', ?_, ?_, ?_⟩
    · rw [hch']
      exact hnw
    · rw [hb']
      exact hb
    · rw [hs', hnw, hs]
      rfl
  · rw [if_neg (fun h => hd (hq.state.symm.trans h)), if_neg hd]
    exact ⟨hstep, hnw, hb, hs⟩

theorem outputWritten_spec {c : TcpConnection} {n : Nat}
    (hn : n ≤ c.outputBuffer.readableBytes) (hw : c.channel.isWriting = true) :
    ∃ c', c.outputWritten n = .ok c' ∧ OutputStep c c' ∧
      c'.outputBuffer.readable = c.outputBuffer.readable.drop n ∧ c'.Coupled ∧
      c'.socket =
        if c.state = .kDisconnecting ∧ n = c.outputBuffer.readableBytes then
          c.socket.shutdownWrite
        else c.socket := by
  obtain ⟨b, hb, hread⟩ := Buffer.retrieve_spec hn
  have hlen : b.readableBytes = c.outputBuffer.readableBytes - n := by
    rw [← b.length_readable, hread, List.length_drop, Buffer.length_readable]
  unfold outputWritten
  rw [hb]
  by_cases hz : b.readableBytes = 0
  · obtain ⟨hstep, hch, hbuf, hs⟩ := outputDrained_spec { c with outputBuffer := b }
    have hall : n = c.outputBuffer.readableBytes := by omega
    refine ⟨_, if_pos hz, hstep.head rfl rfl rfl rfl rfl, ?_, ?_, ?_⟩
    · rw [hbuf]
      exact hread
    · have hnil := Buffer.readable_eq_nil.mpr hz
      simp [Coupled, hch, hbuf, hnil]
    · rw [hs]
      simp [← hall]
  · refine ⟨_, if_neg hz, .of_posted_eq rfl rfl rfl rfl rfl, hread, ?_, ?_⟩
    · have hne : b.readable ≠ [] := fun h => hz (Buffer.readable_eq_nil.mp h)
      simp [Coupled, hw, hne]
    · rw [if_neg]
      rintro ⟨-, hall⟩
      omega

/-- The write that empties the buffer of a connection the user has shut
down: the one write that half-closes the socket. -/
def drainsForShutdown (c : TcpConnection) : WriteResult → Bool
  | .wrote n =>
      c.channel.isWriting && c.state = .kDisconnecting && 0 < n &&
        n = c.outputBuffer.readableBytes
  | .failed _ => false

/-- What one `handleWrite` does: bytes move from the front of the buffer to
the end of what was sent, and the stream stays the same. It half-closes the
socket exactly when it drained the buffer of a connection that is
disconnecting. -/
theorem handleWrite_spec {c : TcpConnection} {w : WriteResult}
    (hfit : w.fits c.outputBuffer.readableBytes = true) :
    ∃ c', c.handleWrite w = .ok c' ∧ OutputStep c c' ∧
      c'.stream = c.stream ∧ (c.Coupled → c'.Coupled) ∧
      (c.channel.isWriting = false → c' = c) ∧
      (c.drainsForShutdown w = true → c'.outputBuffer.readable = []) ∧
      (c.channel.isWriting = true →
        c'.socket =
          if c.drainsForShutdown w then
            (c.socket.write c.outputBuffer.readable w).shutdownWrite
          else c.socket.write c.outputBuffer.readable w) := by
  unfold handleWrite
  cases hw : c.channel.isWriting with
  | false =>
      refine ⟨c, rfl, .refl c, rfl, id, fun _ => rfl, fun hd => ?_, nofun⟩
      cases w <;> simp [drainsForShutdown, hw] at hd
  | true =>
      cases w with
      | failed err =>
          refine ⟨_, rfl, .of_posted_eq rfl rfl rfl rfl rfl, ?_, ?_,
            nofun, nofun, fun _ => rfl⟩
          · simp [stream]
          · exact id
      | wrote n =>
          simp only [WriteResult.fits, decide_eq_true_eq] at hfit
          by_cases hn : 0 < n
          · obtain ⟨c', hc, hstep, hread, hcoup, hs⟩ := outputWritten_spec
              (c := { c with socket := c.socket.write c.outputBuffer.readable (.wrote n) })
              hfit hw
            refine ⟨c', (if_pos hn).trans hc,
              hstep.head rfl rfl rfl rfl rfl, ?_, fun _ => hcoup,
              nofun, fun hd => ?_, fun _ => ?_⟩
            · have hsent : c'.socket.sent =
                  c.socket.sent ++ c.outputBuffer.readable.take n := by
                rw [hs]
                split <;> simp
              rw [stream, hsent, hread, List.append_assoc, List.take_append_drop]
              rfl
            · rw [hread, List.drop_eq_nil_iff, Buffer.length_readable]
              simp only [drainsForShutdown, Bool.and_eq_true, decide_eq_true_eq] at hd
              exact Nat.le_of_eq hd.2.symm
            · rw [hs]
              simp [drainsForShutdown, hw, hn]
          · obtain rfl : n = 0 := by omega
            refine ⟨_, rfl, .of_posted_eq rfl rfl rfl rfl rfl, ?_, ?_,
              nofun, fun hd => ?_, fun _ => ?_⟩
            · simp [stream]
            · exact id
            · simp [drainsForShutdown] at hd
            · simp [drainsForShutdown]

/-! ## Read interest -/

theorem startReadInLoop_spec (c : TcpConnection) :
    OutputStep c c.startReadInLoop ∧
      c.startReadInLoop.channel.isWriting = c.channel.isWriting ∧
      c.startReadInLoop.outputBuffer = c.outputBuffer ∧
      c.startReadInLoop.socket = c.socket := by
  unfold startReadInLoop
  split
  · exact ⟨.of_posted_eq rfl rfl rfl rfl rfl, by simp, rfl, rfl⟩
  · exact ⟨.refl c, rfl, rfl, rfl⟩

theorem stopReadInLoop_spec (c : TcpConnection) :
    OutputStep c c.stopReadInLoop ∧
      c.stopReadInLoop.channel.isWriting = c.channel.isWriting ∧
      c.stopReadInLoop.outputBuffer = c.outputBuffer ∧
      c.stopReadInLoop.socket = c.socket := by
  unfold stopReadInLoop
  split
  · exact ⟨.of_posted_eq rfl rfl rfl rfl rfl, by simp, rfl, rfl⟩
  · exact ⟨.refl c, rfl, rfl, rfl⟩

end Libanet.Net.TcpConnection
