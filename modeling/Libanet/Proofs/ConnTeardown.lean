import Libanet.Proofs.ConnLifecycle
import Libanet.Proofs.EPollAgreement

/-!
# Taking a connection off its loop

`connectDestroyed` is the last thing that is done to a connection, by its
own loop after `handleClose`, or by the destructor of the server whatever
the connection is doing. Two questions are settled here: in which states it
does its work, and whether a closed connection is still silent when it
comes.

The first has a short answer. It takes down a connection that is up and
finds one that is down already, but `kDisconnecting` is neither, and there
it removes a channel that still has read interest.

For the second, users may start and stop reading at any time, and what the
channel tells its poller is followed into the poller. A connection that is
down has no interest and is not in the kernel's set, as long as nobody
starts reading on it, nobody stops reading on it who had not before, and it
was not closed while it had no interest: the last two are updates of a
channel that the poller has already taken out of the kernel's set, and it
puts it back in. A connection can be closed without interest in two ways,
by a `forceClose`, and by an event that the loop had fetched before the
interest went, while it still had other channels to come to.
-/

namespace Libanet.Net

namespace TcpConnection

theorem Closed.down_once {tail : List ConnEvent} {c : TcpConnection} (h : c.Closed tail)
    (htail : tail = [] ∨ tail = [.closeCallback]) :
    c.log.count (.connectionCallback false) = 1 := by
  obtain ⟨pre, hlog, -, -⟩ := h.down
  have hle := (closed_log_law h htail).1
  have hpos : 0 < c.log.count (.connectionCallback false) := by
    rw [List.count_pos_iff, hlog]
    simp
  omega

/-- Whatever `connectDestroyed` returns has left the loop, in the state it
was found in unless that was `kConnected`. -/
theorem connectDestroyed_removed {c c' : TcpConnection} {down : List Call}
    (h : c.connectDestroyed down = .ok c') :
    c'.channel.addedToLoop = false ∧ (c.state ≠ .kConnected → c'.state = c.state) := by
  have hremove : ∀ {d : TcpConnection}, (d.channel.remove >>= fun ch =>
      pure { d with channel := ch }) = Except.ok c' →
      c'.channel.addedToLoop = false ∧ c'.state = d.state := by
    intro d hd
    obtain ⟨ch, hch, hd⟩ := bind_eq_ok.mp hd
    obtain ⟨-, hch⟩ := assertThat_bind_eq_ok.mp hch
    cases hch
    cases hd
    exact ⟨rfl, rfl⟩
  unfold connectDestroyed at h
  by_cases hup : c.state = .kConnected
  · rw [if_pos hup] at h
    obtain ⟨d, -, h⟩ := bind_eq_ok.mp h
    exact ⟨(hremove h).1, fun hne => absurd hup hne⟩
  · rw [if_neg hup] at h
    exact ⟨(hremove h).1, fun _ => (hremove h).2⟩

end TcpConnection

namespace LifeCycle

open TcpConnection

/-- `connectDestroyed` is safe on a connection that is up or down, and on
no other: it passes its assert, leaves the connection down and off the
loop, and DOWN has then been said once. -/
theorem connectDestroyed_safe_iff {c : TcpConnection} (hc : c.Fresh) {s : LifeCycle}
    (hr : machine.Reaches (start c) s) (hlive : s.phase = .live) {down : List Call}
    (hd : noReadControl down = true) :
    (∃ c', s.conn.connectDestroyed down = .ok c' ∧ c'.state = .kDisconnected ∧
        c'.channel.addedToLoop = false ∧
        c'.log.count (.connectionCallback false) = 1) ↔
      s.conn.state ≠ .kDisconnecting := by
  have hi := reaches_inv hc hr
  rw [Inv, hlive] at hi
  constructor
  · rintro ⟨c', hc', hst, -⟩ hdis
    have hsame := (connectDestroyed_removed hc').2 (by rw [hdis]; decide)
    rw [hst, hdis] at hsame
    cases hsame
  · intro hdis
    rcases hi with hi | hi
    · obtain ⟨c', hc', hcl, -⟩ :=
        connectDestroyed_connected hi (hi.state.resolve_right hdis) hd
      exact ⟨c', hc', hcl.state, (connectDestroyed_removed hc').1, hcl.down_once (.inl rfl)⟩
    · obtain ⟨c', hc', hcl, -⟩ := connectDestroyed_closed hi down
      exact ⟨c', hc', hcl.state, (connectDestroyed_removed hc').1, hcl.down_once (.inr rfl)⟩

/-- Half of what was sent is still waiting. -/
def upAndWriting : List LifeStep :=
  [.connectEstablished [.send true [1, 2] (.wrote 1)]]

theorem connectDestroyed_safe_iff_upAndWriting :
    ∃ s, machine.run upAndWriting (start small) = some s ∧
      ∃ c', s.conn.connectDestroyed [] = .ok c' ∧ c'.state = .kDisconnected ∧
        c'.channel.addedToLoop = false ∧ c'.log.count (.connectionCallback false) = 1 := by
  obtain ⟨s, hr, hlive, hst⟩ : ∃ s, machine.run upAndWriting (start small) = some s ∧
      s.phase = .live ∧ s.conn.state = .kConnected := ⟨_, rfl, rfl, rfl⟩
  refine ⟨s, hr, ?_⟩
  exact (connectDestroyed_safe_iff small_fresh ⟨_, hr⟩ hlive rfl).mpr (by rw [hst]; decide)

/-- After a `shutdown` with bytes still waiting the connection is
`kDisconnecting`, and `connectDestroyed` fails the assert in `remove`. -/
theorem connectDestroyed_halfClosed_asserts :
    ∃ s, machine.run (upAndWriting ++ [.call (.shutdown true)]) (start small) = some s ∧
      s.conn.state = .kDisconnecting ∧
      s.conn.connectDestroyed [] = .error .assertion :=
  ⟨_, rfl, rfl, rfl⟩

end LifeCycle

/-! ## What the poller makes of a channel's calls -/

namespace EPollPoller

/-- The index a call leaves on the channel it is about. -/
def indexAfter (index : Int) : PollerCall → Int
  | .updateChannel events => nextIndex index events
  | .removeChannel => kNew

/-- The call an action makes about the channel `c`, if it makes one. -/
def callAbout (c : ChannelId) : EPollAction → Option PollerCall
  | .updateChannel c' events => if c' = c then some (.updateChannel events) else none
  | .removeChannel c' => if c' = c then some .removeChannel else none
  | .poll _ => none

theorem index_changed {s s' : EPollPoller} {c c' : ChannelId} {index : Int} {events : EventMask}
    (hu : Changed s s' c' index events) :
    (s'.heap c).index = if c' = c then index else (s.heap c).index := by
  by_cases hc : c' = c
  · rw [if_pos hc, ← hc, hu.index_self]
  · rw [if_neg hc, hu.index_other (Ne.symm hc)]

theorem index_step {s s' : EPollPoller} {a : EPollAction} (h : Agree s) (hg : s.guard a = true)
    (he : exec a s = .ok s') (c : ChannelId) :
    (s'.heap c).index = ((callAbout c a).map (indexAfter (s.heap c).index)).getD
      (s.heap c).index := by
  cases a with
  | updateChannel c' events =>
      obtain ⟨t, ht, hu⟩ := updateChannel_spec h hg events
      cases ht.symm.trans he
      rw [index_changed hu, callAbout]
      by_cases hc : c' = c
      · rw [if_pos hc, if_pos hc, hc]
        rfl
      · rw [if_neg hc, if_neg hc]
        rfl
  | removeChannel c' =>
      obtain ⟨t, ht, hu⟩ := removeChannel_spec h hg
      cases ht.symm.trans he
      rw [index_changed hu, callAbout]
      by_cases hc : c' = c
      · rw [if_pos hc, if_pos hc]
        rfl
      · rw [if_neg hc, if_neg hc]
        rfl
  | poll ready =>
      obtain ⟨t, ht, hsame⟩ := poll_spec h ready (of_decide_eq_true hg)
      have he : Prod.snd <$> poll ready s = .ok s' := he
      rw [ht] at he
      cases he
      exact hsame.index c

/-- The index of a channel is what the calls about it have left there,
whatever was done to the others. -/
theorem index_run {as : List EPollAction} {s s' : EPollPoller} (h : Agree s)
    (hr : machine.run as s = some s') (c : ChannelId) :
    (s'.heap c).index = (as.filterMap (callAbout c)).foldl indexAfter (s.heap c).index := by
  induction as generalizing s with
  | nil =>
      cases hr
      rfl
  | cons a as ih =>
      obtain ⟨t, hg, he, hr⟩ := Machine.run_cons.mp hr
      obtain ⟨t', ht', h'⟩ := step_spec h hg
      cases ht'.symm.trans he
      rw [ih h' hr, index_step h hg he c, List.filterMap_cons]
      cases callAbout c a with
      | none => rfl
      | some call => rfl

end EPollPoller

namespace Channel

open EPollPoller (kNew kAdded kDeleted nextIndex indexAfter)

/-- The index `EPollPoller` has left on the channel. -/
def pollIndex (ch : Channel) : Int := ch.told.foldl indexAfter kNew

theorem pollIndex_update (ch : Channel) (events : EventMask) :
    { ch with events := events }.update.pollIndex = nextIndex ch.pollIndex events := by
  simp [pollIndex, update, indexAfter]

/-- In the kernel's set while there is interest, and taken out of it since
there is none. -/
def Settled (ch : Channel) : Prop :=
  ch.pollIndex = if ch.events = kNoneEvent then kDeleted else kAdded

/-- An update with some interest settles any channel. -/
theorem settled_update (ch : Channel) {events : EventMask} (hev : events ≠ kNoneEvent) :
    ({ ch with events := events }.update).Settled := by
  unfold Settled
  rw [pollIndex_update, nextIndex, if_neg fun hc => hev hc.2]
  exact (if_neg hev).symm

/-- An update of a channel with some interest settles it. -/
theorem Settled.update {ch : Channel} (h : ch.Settled) (hne : ch.isNoneEvent = false)
    (events : EventMask) : ({ ch with events := events }.update).Settled := by
  have hold : ch.events ≠ kNoneEvent := beq_eq_false_iff_ne.mp hne
  by_cases hev : events = kNoneEvent
  · unfold Settled at h ⊢
    rw [if_neg hold] at h
    rw [pollIndex_update, nextIndex, h, if_pos ⟨rfl, hev⟩]
    exact (if_pos hev).symm
  · exact settled_update ch hev

theorem settled_enableReading (ch : Channel) : ch.enableReading.Settled := by
  have hne := isNoneEvent_of_isReading (isReading_enableReading ch)
  exact settled_update ch (beq_eq_false_iff_ne.mp hne)

theorem settled_enableWriting (ch : Channel) : ch.enableWriting.Settled := by
  have hne := isNoneEvent_of_isWriting (isWriting_enableWriting ch)
  exact settled_update ch (beq_eq_false_iff_ne.mp hne)

end Channel

/-! ## Connections whose users start and stop reading -/

namespace TcpConnection

/-- What the output side of a connection does to the rest of it: nothing,
but for the write interest. -/
structure KeepsReading (c c' : TcpConnection) : Prop where
  state : c'.state = c.state
  reading : c'.reading = c.reading
  channel : c'.channel = c.channel ∨ c'.channel = c.channel.enableWriting ∨
    c.channel.isWriting = true ∧ c'.channel = c.channel.disableWriting

theorem queueWriteComplete_reading (c : TcpConnection) :
    c.queueWriteComplete.reading = c.reading := by
  unfold queueWriteComplete
  split <;> rfl

theorem queueHighWaterMark_reading (c : TcpConnection) (n : Nat) :
    (c.queueHighWaterMark n).reading = c.reading := by
  unfold queueHighWaterMark
  dsimp only
  split <;> rfl

theorem sendRest_keepsReading {c c' : TcpConnection} {data : List UInt8} {nwrote : Nat}
    {faultError : Bool} (h : c.sendRest data nwrote faultError = .ok c') : KeepsReading c c' := by
  obtain ⟨-, h⟩ := assertThat_bind_eq_ok.mp h
  split at h
  · obtain ⟨hq, hch, -, -⟩ := queueHighWaterMark_spec c (data.length - nwrote)
    obtain ⟨b, -, h⟩ := bind_eq_ok.mp h
    cases h
    have hread := c.queueHighWaterMark_reading (data.length - nwrote)
    unfold wantWriting
    split
    · exact ⟨hq.state, hread, Or.inr (Or.inl (by rw [hch]))⟩
    · exact ⟨hq.state, hread, Or.inl hch⟩
  · cases h
    exact ⟨rfl, rfl, Or.inl rfl⟩

theorem directWrite_reading {c c' : TcpConnection} {data : List UInt8} {w : WriteResult}
    {nwrote : Nat} {faultError : Bool} (h : c.directWrite data w = (c', nwrote, faultError)) :
    c'.reading = c.reading := by
  unfold directWrite at h
  cases w with
  | wrote n =>
      obtain ⟨hc, -⟩ := Prod.mk.inj h
      rw [← hc]
      split
      · exact queueWriteComplete_reading _
      · rfl
  | failed err =>
      obtain ⟨hc, -⟩ := Prod.mk.inj h
      rw [← hc]

theorem sendInLoop_keepsReading {c c' : TcpConnection} {data : List UInt8} {w : WriteResult}
    (h : c.sendInLoop data w = .ok c') : KeepsReading c c' := by
  unfold sendInLoop at h
  split at h
  · cases h
    exact ⟨rfl, rfl, Or.inl rfl⟩
  · split at h
    · cases hdw : c.directWrite data w with
      | mk c₁ r =>
          obtain ⟨nwrote, faultError⟩ := r
          rw [hdw] at h
          obtain ⟨hstep, -, -, -, hch, -⟩ := directWrite_spec hdw
          have hrest := sendRest_keepsReading h
          exact ⟨hrest.state.trans hstep.state, hrest.reading.trans (directWrite_reading hdw),
            hch ▸ hrest.channel⟩
    · exact sendRest_keepsReading h

theorem shutdownInLoop_reading (c : TcpConnection) :
    c.shutdownInLoop.reading = c.reading := by
  unfold shutdownInLoop
  split <;> rfl

theorem outputDrained_keepsReading {c : TcpConnection} (hw : c.channel.isWriting = true) :
    KeepsReading c c.outputDrained := by
  obtain ⟨hq, hch, -, -⟩ := queueWriteComplete_spec
    { c with channel := c.channel.disableWriting }
  have hread := queueWriteComplete_reading { c with channel := c.channel.disableWriting }
  unfold outputDrained
  dsimp only
  split
  · obtain ⟨hs, hch', -⟩ := shutdownInLoop_spec
      (queueWriteComplete { c with channel := c.channel.disableWriting })
    exact ⟨hs.state.trans hq.state, (shutdownInLoop_reading _).trans hread,
      Or.inr (Or.inr ⟨hw, hch'.trans hch⟩)⟩
  · exact ⟨hq.state, hread, Or.inr (Or.inr ⟨hw, hch⟩)⟩

theorem outputWritten_keepsReading {c c' : TcpConnection} {n : Nat}
    (hw : c.channel.isWriting = true) (h : c.outputWritten n = .ok c') : KeepsReading c c' := by
  obtain ⟨b, -, h⟩ := bind_eq_ok.mp h
  dsimp only at h
  split at h
  · have hk := outputDrained_keepsReading (c := { c with outputBuffer := b }) hw
    cases h
    exact ⟨hk.state, hk.reading, hk.channel⟩
  · cases h
    exact ⟨rfl, rfl, Or.inl rfl⟩

theorem handleWrite_keepsReading {c c' : TcpConnection} {w : WriteResult}
    (h : c.handleWrite w = .ok c') : KeepsReading c c' := by
  unfold handleWrite at h
  split at h
  · next hw =>
      cases w with
      | failed err =>
          cases h
          exact ⟨rfl, rfl, Or.inl rfl⟩
      | wrote n =>
          dsimp only at h
          split at h
          · have hk := outputWritten_keepsReading
              (c := { c with socket := c.socket.write c.outputBuffer.readable (.wrote n) }) hw h
            exact ⟨hk.state, hk.reading, hk.channel⟩
          · cases h
            exact ⟨rfl, rfl, Or.inl rfl⟩
  · cases h
    exact ⟨rfl, rfl, Or.inl rfl⟩

/-- A connection that is up or on its way down, in step with its poller. -/
structure Tracked (c : TcpConnection) : Prop where
  state : c.state = .kConnected ∨ c.state = .kDisconnecting
  reading : c.reading = c.channel.isReading
  settled : c.channel.Settled

/-- A connection that is down, without interest and out of the kernel's
set. -/
structure Silent (c : TcpConnection) : Prop where
  state : c.state = .kDisconnected
  events : c.channel.isNoneEvent = true
  index : c.channel.pollIndex = EPollPoller.kDeleted

theorem Tracked.keepsReading {c c' : TcpConnection} (h : c.Tracked) (hk : KeepsReading c c') :
    c'.Tracked := by
  refine ⟨hk.state ▸ h.state, ?_, ?_⟩
  · rw [hk.reading, h.reading]
    obtain hch | hch | ⟨-, hch⟩ := hk.channel
    · rw [hch]
    · rw [hch, Channel.isReading_enableWriting]
    · rw [hch, Channel.isReading_disableWriting]
  · obtain hch | hch | ⟨hw, hch⟩ := hk.channel
    · rw [hch]
      exact h.settled
    · rw [hch]
      exact Channel.settled_enableWriting _
    · rw [hch]
      exact h.settled.update (Channel.isNoneEvent_of_isWriting hw) _

/-- Nothing but the state, `reading_` and the channel is looked at. -/
theorem Tracked.congr {c d : TcpConnection} (h : c.Tracked)
    (hst : d.state = .kConnected ∨ d.state = .kDisconnecting) (hread : d.reading = c.reading)
    (hch : d.channel = c.channel) : d.Tracked :=
  ⟨hst, by rw [hread, hch, h.reading], by rw [hch]; exact h.settled⟩

theorem Silent.congr {c d : TcpConnection} (h : c.Silent) (hst : d.state = c.state)
    (hch : d.channel = c.channel) : d.Silent :=
  ⟨hst.trans h.state, by rw [hch]; exact h.events, by rw [hch]; exact h.index⟩

theorem Tracked.startReadInLoop {c : TcpConnection} (h : c.Tracked) :
    c.startReadInLoop.Tracked := by
  unfold TcpConnection.startReadInLoop
  split
  · exact ⟨h.state, (Channel.isReading_enableReading _).symm, Channel.settled_enableReading _⟩
  · exact h

/-- Whoever stops reading had been reading, so the channel had interest. -/
theorem Tracked.stopReadInLoop {c : TcpConnection} (h : c.Tracked) :
    c.stopReadInLoop.Tracked := by
  unfold TcpConnection.stopReadInLoop
  split
  · next hread =>
      have hreading : c.channel.isReading = true := by
        rw [h.reading, Bool.or_self] at hread
        exact hread
      exact ⟨h.state, (Channel.isReading_disableReading _).symm,
        h.settled.update (Channel.isNoneEvent_of_isReading hreading) _⟩
  · exact h

theorem Tracked.call {c c' : TcpConnection} (h : c.Tracked) {k : Call}
    (hc : c.call k = .ok c') : c'.Tracked := by
  cases k with
  | send inLoop message w =>
      have hc : c.send inLoop message w = .ok c' := hc
      unfold TcpConnection.send at hc
      split at hc
      · split at hc
        · exact h.keepsReading (sendInLoop_keepsReading hc)
        · cases hc
          exact h.congr h.state rfl rfl
      · cases hc
        exact h
  | shutdown inLoop =>
      cases hc
      unfold TcpConnection.shutdown
      split
      · cases inLoop with
        | true =>
            obtain ⟨hs, hch, -⟩ := shutdownInLoop_spec (c.setState .kDisconnecting)
            exact h.congr (Or.inr hs.state) (shutdownInLoop_reading _) hch
        | false => exact h.congr (Or.inr rfl) rfl rfl
      · exact h
  | forceClose =>
      cases hc
      unfold TcpConnection.forceClose
      split
      · exact h.congr (Or.inr rfl) rfl rfl
      · exact h
  | startRead inLoop =>
      cases hc
      cases inLoop with
      | true => exact h.startReadInLoop
      | false => exact h.congr h.state rfl rfl
  | stopRead inLoop =>
      cases hc
      cases inLoop with
      | true => exact h.stopReadInLoop
      | false => exact h.congr h.state rfl rfl

theorem Tracked.calls {ks : List Call} {c c' : TcpConnection} (h : c.Tracked)
    (hc : c.calls ks = .ok c') : c'.Tracked := by
  induction ks generalizing c with
  | nil =>
      cases hc
      exact h
  | cons k ks ih =>
      obtain ⟨c₁, hc₁, hc⟩ := bind_eq_ok.mp hc
      exact ih (h.call hc₁) hc

end TcpConnection

/-- The call does not reach the channel of a connection that is down:
nobody starts reading in the loop, and nobody stops who had not before. -/
def Call.quiet (reading : Bool) : Call → Bool
  | .startRead inLoop => !inLoop
  | .stopRead inLoop => !inLoop || !reading
  | _ => true

namespace TcpConnection

theorem Silent.isReading {c : TcpConnection} (h : c.Silent) : c.channel.isReading = false := by
  have hev : c.channel.events = Channel.kNoneEvent := beq_iff_eq.mp h.events
  rw [Channel.isReading, hev]
  decide

theorem Silent.isWriting {c : TcpConnection} (h : c.Silent) : c.channel.isWriting = false := by
  have hev : c.channel.events = Channel.kNoneEvent := beq_iff_eq.mp h.events
  rw [Channel.isWriting, hev]
  decide

theorem Silent.stopReadInLoop {c : TcpConnection} (h : c.Silent) (hread : c.reading = false) :
    c.stopReadInLoop = c := by
  unfold TcpConnection.stopReadInLoop
  rw [hread, h.isReading]
  rfl

theorem Silent.call {c c' : TcpConnection} (h : c.Silent) {k : Call}
    (hk : k.quiet c.reading = true) (hc : c.call k = .ok c') :
    c'.Silent ∧ c'.reading = c.reading := by
  cases k with
  | send inLoop message w =>
      rw [call_disconnected h.state rfl] at hc
      cases hc
      exact ⟨h, rfl⟩
  | shutdown inLoop =>
      rw [call_disconnected h.state rfl] at hc
      cases hc
      exact ⟨h, rfl⟩
  | forceClose =>
      rw [call_disconnected h.state rfl] at hc
      cases hc
      exact ⟨h, rfl⟩
  | startRead inLoop =>
      cases inLoop with
      | true => cases hk
      | false =>
          cases hc
          exact ⟨h.congr rfl rfl, rfl⟩
  | stopRead inLoop =>
      cases inLoop with
      | true =>
          have hread : c.reading = false := by simpa [Call.quiet] using hk
          cases hc
          show c.stopReadInLoop.Silent ∧ c.stopReadInLoop.reading = c.reading
          rw [h.stopReadInLoop hread]
          exact ⟨h, rfl⟩
      | false =>
          cases hc
          exact ⟨h.congr rfl rfl, rfl⟩

theorem Silent.calls {ks : List Call} {c c' : TcpConnection} (h : c.Silent)
    (hk : ks.all (Call.quiet c.reading) = true) (hc : c.calls ks = .ok c') :
    c'.Silent ∧ c'.reading = c.reading := by
  induction ks generalizing c with
  | nil =>
      cases hc
      exact ⟨h, rfl⟩
  | cons k ks ih =>
      obtain ⟨c₁, hc₁, hc⟩ := bind_eq_ok.mp hc
      rw [List.all_cons, Bool.and_eq_true] at hk
      obtain ⟨h₁, hread⟩ := h.call hk.1 hc₁
      obtain ⟨h', hread'⟩ := ih h₁ (by rw [hread]; exact hk.2) hc
      exact ⟨h', hread'.trans hread⟩

/-- A connection is closed while it has interest, and the callbacks that are
called then do not reach its channel. -/
def quietClose (c : TcpConnection) (down close : List Call) : Bool :=
  !c.channel.isNoneEvent && down.all (Call.quiet c.reading) && close.all (Call.quiet c.reading)

/-- A connection with interest goes silent when it is closed. -/
theorem Tracked.handleClose {c c' : TcpConnection} (h : c.Tracked) {down close : List Call}
    (hq : c.quietClose down close = true) (hc : c.handleClose down close = .ok c') :
    c'.Silent := by
  simp only [quietClose, Bool.and_eq_true, Bool.not_eq_true'] at hq
  obtain ⟨⟨hne, hd⟩, hcl⟩ := hq
  obtain ⟨-, hc⟩ := assertThat_bind_eq_ok.mp hc
  obtain ⟨c₁, hc₁, hc⟩ := bind_eq_ok.mp hc
  have hdown : c.takeDown.Silent := by
    refine ⟨rfl, Channel.isNoneEvent_disableAll _, ?_⟩
    exact (h.settled.update hne Channel.kNoneEvent).trans (if_pos rfl)
  obtain ⟨h₁, hread₁⟩ := hdown.calls hd hc₁
  have hemit : (c₁.emit .closeCallback).Silent := h₁.congr rfl rfl
  refine (hemit.calls ?_ hc).1
  show close.all (Call.quiet c₁.reading) = true
  rw [hread₁]
  exact hcl

theorem Silent.handleWrite {c c' : TcpConnection} (h : c.Silent) {w : WriteResult}
    (hc : c.handleWrite w = .ok c') : c'.Silent := by
  unfold TcpConnection.handleWrite at hc
  rw [h.isWriting] at hc
  cases hc
  exact h

theorem Tracked.handleRead {c c' : TcpConnection} (h : c.Tracked) {e : EventScript}
    (hq : e.read = .eof → c.quietClose e.down e.close = true) {t : Timestamp}
    (hc : c.handleRead e.read e.message e.down e.close t = .ok c') : c'.Tracked ∨ c'.Silent := by
  cases hr : e.read with
  | data =>
      rw [hr] at hc
      have hemit : (c.emit (.messageCallback t)).Tracked := h.congr h.state rfl rfl
      exact Or.inl (hemit.calls hc)
  | eof =>
      rw [hr] at hc
      exact Or.inr (h.handleClose (hq hr) hc)
  | failed =>
      rw [hr] at hc
      cases hc
      exact Or.inl h

/-- The event makes the channel call `handleClose`: it is a hangup, or the read
finds the end of the stream. -/
def closedBy (c : TcpConnection) (e : EventScript) (locked : Bool) (revents : EventMask) : Bool :=
  (!c.channel.tied || locked) &&
    (revents.has POLLHUP && !revents.has POLLIN ||
      revents.has (POLLIN ||| POLLPRI ||| POLLRDHUP) && e.read = .eof)

/-- An event leaves a connection tracked, or closes it. -/
theorem Tracked.handleEvent {c c' : TcpConnection} (h : c.Tracked) {e : EventScript}
    {locked : Bool} {revents : EventMask} (hk : revents.fromKernel = true)
    (hq : c.closedBy e locked revents = true → c.quietClose e.down e.close = true)
    {t : Timestamp} (hc : c.handleEvent e locked revents t = .ok c') :
    c'.Tracked ∨ c'.Silent := by
  by_cases hdrop : c.channel.tied = true ∧ locked = false
  · rw [TcpConnection.handleEvent, Channel.handleEvent, if_pos hdrop.1, hdrop.2] at hc
    cases hc
    exact Or.inl h
  · have hreaches : (!c.channel.tied || locked) = true := by
      cases htied : c.channel.tied with
      | false => rfl
      | true => simpa [htied] using hdrop
    rw [TcpConnection.handleEvent, Channel.handleEvent_dispatched hdrop] at hc
    obtain ⟨c₁, hc₁, hafter⟩ := bind_eq_ok.mp hc
    obtain ⟨c₂, hc₂, hread⟩ := bind_eq_ok.mp hafter
    obtain ⟨c₃, hc₃, hwrite⟩ := bind_eq_ok.mp hread
    have herror : c₁ = c₂ := by
      cases herr : revents.has (POLLERR ||| POLLNVAL) <;> rw [herr] at hc₂ <;> cases hc₂ <;> rfl
    subst herror
    -- up to the write, the connection is still tracked or has been closed
    have hbefore : c₃.Tracked ∨ c₃.Silent := by
      cases hhup : revents.has POLLHUP && !revents.has POLLIN with
      | true =>
          have hclosed : c.closedBy e locked revents = true := by
            rw [closedBy, hreaches, hhup, Bool.true_or, Bool.and_self]
          rw [hhup] at hc₁
          rw [EventMask.nothing_to_read hk hhup] at hc₃
          cases hc₃
          exact Or.inr (h.handleClose (hq hclosed) hc₁)
      | false =>
          rw [hhup] at hc₁
          cases hc₁
          cases hin : revents.has (POLLIN ||| POLLPRI ||| POLLRDHUP) with
          | true =>
              have hclosed : e.read = .eof → c.closedBy e locked revents = true := by
                intro heof
                rw [closedBy, hreaches, hhup, hin, decide_eq_true heof]
                rfl
              rw [hin] at hc₃
              exact h.handleRead (fun heof => hq (hclosed heof)) hc₃
          | false =>
              rw [hin] at hc₃
              cases hc₃
              exact Or.inl h
    cases hout : revents.has POLLOUT with
    | true =>
        rw [hout] at hwrite
        exact hbefore.imp (fun h => h.keepsReading (handleWrite_keepsReading hwrite))
          (fun h => h.handleWrite hwrite)
    | false =>
        rw [hout] at hwrite
        cases hwrite
        exact hbefore

/-- Running the functor keeps a connection out of the kernel's set, or
lets it go there properly. On a connection that is down nobody starts
reading, and nobody stops who had not before; one that is not down is closed
quietly. -/
def quietFunctor (c : TcpConnection) (ks down close : List Call) (f : ConnFunctor) : Bool :=
  if c.state = .kDisconnected then
    match f with
    | .startReadInLoop => false
    | .stopReadInLoop => !c.reading
    | .writeCompleteCallback | .highWaterMarkCallback _ => ks.all (Call.quiet c.reading)
    | _ => true
  else
    match f with
    | .forceCloseInLoop => c.quietClose down close
    | _ => true

theorem Tracked.runFunctor {c c' : TcpConnection} (h : c.Tracked) {f : ConnFunctor}
    {w : WriteResult} {ks down close : List Call}
    (hq : c.quietFunctor ks down close f = true)
    (hc : c.runFunctor f w ks down close = .ok c') : c'.Tracked ∨ c'.Silent := by
  have hst : c.state ≠ .kDisconnected := by
    rcases h.state with hst | hst <;> rw [hst] <;> decide
  unfold quietFunctor at hq
  rw [if_neg hst] at hq
  cases f with
  | sendInLoop message => exact Or.inl (h.keepsReading (sendInLoop_keepsReading hc))
  | shutdownInLoop =>
      cases hc
      obtain ⟨hs, hch, -⟩ := shutdownInLoop_spec c
      exact Or.inl (h.congr (hs.state ▸ h.state) (shutdownInLoop_reading c) hch)
  | forceCloseInLoop =>
      have hc : c.forceCloseInLoop down close = .ok c' := hc
      rw [TcpConnection.forceCloseInLoop, if_pos h.state] at hc
      exact Or.inr (h.handleClose hq hc)
  | startReadInLoop =>
      cases hc
      exact Or.inl h.startReadInLoop
  | stopReadInLoop =>
      cases hc
      exact Or.inl h.stopReadInLoop
  | writeCompleteCallback => exact Or.inl (h.calls hc)
  | highWaterMarkCallback len => exact Or.inl (h.calls hc)

theorem Silent.runFunctor {c c' : TcpConnection} (h : c.Silent) {f : ConnFunctor}
    {w : WriteResult} {ks down close : List Call}
    (hq : c.quietFunctor ks down close f = true)
    (hc : c.runFunctor f w ks down close = .ok c') : c'.Silent := by
  unfold quietFunctor at hq
  rw [if_pos h.state] at hq
  cases f with
  | sendInLoop message =>
      obtain ⟨d, hd, -, -, -, -, hsame⟩ := sendInLoop_spec c message w
      cases hd.symm.trans hc
      rw [hsame h.state]
      exact h
  | shutdownInLoop =>
      cases hc
      obtain ⟨hs, hch, -⟩ := shutdownInLoop_spec c
      exact h.congr hs.state hch
  | forceCloseInLoop =>
      have hc : c.forceCloseInLoop down close = .ok c' := hc
      rw [TcpConnection.forceCloseInLoop, if_neg (by rw [h.state]; decide)] at hc
      cases hc
      exact h
  | startReadInLoop => cases hq
  | stopReadInLoop =>
      have hread : c.reading = false := by simpa using hq
      have hc : c.stopReadInLoop = c' := Except.ok.inj hc
      rw [← hc, h.stopReadInLoop hread]
      exact h
  | writeCompleteCallback => exact (h.calls hq hc).1
  | highWaterMarkCallback len => exact (h.calls hq hc).1

/-- A connection as it is constructed, which starts out reading. -/
structure Constructed (c : TcpConnection) : Prop extends Fresh c where
  reading : c.reading = true

end TcpConnection

/-- Whether an event is dispatched. -/
def LifeStep.dispatches : LifeStep → Bool
  | .handleEvent _ _ _ _ => true
  | _ => false

namespace LifeCycle

open TcpConnection

/-- A connection, and the event of its channel that the last poll has fetched,
as long as the loop has not come to it. -/
structure Polled extends LifeCycle where
  fetched : Option EventMask

inductive PolledStep where
  /-- `poller_->poll` reports the channel, or does not. -/
  | poll (revents : Option EventMask)
  | own (a : LifeStep)

/-- The life of a connection up to `connectDestroyed`, with every call allowed.
The kernel reports events of a channel that is in its set, also of one that is
there without interest. The loop comes to a channel that was reported whatever
has been done to it since, and to all of them before it runs functors. -/
def guardReading (s : Polled) : PolledStep → Bool
  | .poll revents => s.fetched.isNone && revents.all fun revents =>
      s.conn.channel.pollIndex = EPollPoller.kAdded && revents.fromKernel
  | .own (.connectEstablished _) => s.phase = .created
  | .own (.handleEvent e locked revents receiveTime) =>
      s.phase = .live && s.fetched = some revents &&
        s.conn.writeFits e locked revents receiveTime
  | .own (.call _) => s.phase = .live
  | .own (.runFunctor _ _ _ _) =>
      s.phase = .live && s.fetched.isNone && !s.conn.posted.isEmpty
  | .own (.connectDestroyed _) => false

def execReading : PolledStep → Polled → Except Fault Polled
  | .poll revents, s => .ok { s with fetched := revents }
  | .own a, s => do
      let life ← exec a s.toLifeCycle
      return { toLifeCycle := life, fetched := if a.dispatches then none else s.fetched }

def readingMachine : Machine Polled PolledStep Fault := ⟨guardReading, execReading⟩

def startPolled (c : TcpConnection) : Polled := { toLifeCycle := start c, fetched := none }

/-- The step does not update the channel of a connection that is down, and
does not take one down that has no interest. -/
def quietStep (s : Polled) : PolledStep → Bool
  | .own (.handleEvent e locked revents _) =>
      !s.conn.closedBy e locked revents || s.conn.quietClose e.down e.close
  | .own (.call k) => s.conn.state ≠ .kDisconnected || k.quiet s.conn.reading
  | .own (.runFunctor _ ks down close) =>
      s.conn.posted.head?.all (s.conn.quietFunctor ks down close)
  | _ => true

/-- Where a connection is in its life, with reading stopped and started. -/
def Followed (s : Polled) : Prop :=
  match s.phase with
  | .created => s.conn.Constructed
  | .live => s.conn.Tracked ∨ s.conn.Silent ∧ s.fetched = none
  | .destroyed => False

/-- The invariant. What has been fetched came from the kernel. -/
structure ReadingInv (s : Polled) : Prop where
  followed : Followed s
  fetched : ∀ revents, s.fetched = some revents → revents.fromKernel = true

theorem followed_connectEstablished {c c' : TcpConnection} (h : c.Constructed) {up : List Call}
    (hc : c.connectEstablished up = .ok c') : c'.Tracked := by
  obtain ⟨-, hc⟩ := assertThat_bind_eq_ok.mp hc
  have hup : (({ c.setState .kConnected with
      channel := c.channel.tie.enableReading } : TcpConnection).emit
        (.connectionCallback true)).Tracked :=
    ⟨Or.inl rfl, h.reading.trans (Channel.isReading_enableReading _).symm,
      Channel.settled_enableReading _⟩
  exact hup.calls hc

/-- A channel the kernel does not have is not reported. -/
theorem readingInv_poll {s : Polled} (hi : ReadingInv s) {revents : Option EventMask}
    (hg : guardReading s (.poll revents) = true) :
    ReadingInv { s with fetched := revents } := by
  obtain ⟨⟨c, phase⟩, fetched⟩ := s
  obtain ⟨hi, -⟩ := hi
  simp only [guardReading, Bool.and_eq_true] at hg
  obtain ⟨-, hall⟩ := hg
  refine ⟨?_, fun r hr => ?_⟩
  · unfold Followed at hi ⊢
    cases phase with
    | created => exact hi
    | destroyed => exact hi
    | live =>
        refine hi.imp_right fun hsilent => ⟨hsilent.1, ?_⟩
        cases revents with
        | none => rfl
        | some r =>
            have hout := hsilent.1.index
            simp only [Option.all_some, Bool.and_eq_true, decide_eq_true_eq] at hall
            exact absurd (hout.symm.trans hall.1) (by decide)
  · have hr : revents = some r := hr
    rw [hr] at hall
    exact (Bool.and_eq_true_iff.mp hall).2

/-- What the loop comes to had been fetched while the connection was up, and the
event is the last there is of it. -/
theorem readingInv_handleEvent {s : Polled} (hi : ReadingInv s) {e : EventScript}
    {locked : Bool} {revents : EventMask} {receiveTime : Timestamp}
    (hg : guardReading s (.own (.handleEvent e locked revents receiveTime)) = true)
    (hq : quietStep s (.own (.handleEvent e locked revents receiveTime)) = true)
    {c' : TcpConnection} (hc : s.conn.handleEvent e locked revents receiveTime = .ok c') :
    ReadingInv ⟨⟨c', s.phase⟩, none⟩ := by
  obtain ⟨⟨c, phase⟩, fetched⟩ := s
  obtain ⟨hi, hkernel⟩ := hi
  simp only [guardReading, Bool.and_eq_true, decide_eq_true_eq] at hg
  obtain ⟨⟨rfl, rfl⟩, -⟩ := hg
  refine ⟨?_, nofun⟩
  rcases hi with hi | ⟨-, hnone⟩
  · have hquiet : c.closedBy e locked revents = true → c.quietClose e.down e.close = true := by
      intro hclosed
      simpa [quietStep, hclosed] using hq
    have hnext := hi.handleEvent (hkernel revents rfl) hquiet hc
    exact hnext.imp_right fun hsilent => ⟨hsilent, rfl⟩
  · cases hnone

theorem readingInv_call {s : Polled} (hi : ReadingInv s) {k : Call}
    (hg : guardReading s (.own (.call k)) = true) (hq : quietStep s (.own (.call k)) = true)
    {c' : TcpConnection} (hc : s.conn.call k = .ok c') :
    ReadingInv ⟨⟨c', s.phase⟩, s.fetched⟩ := by
  obtain ⟨⟨c, phase⟩, fetched⟩ := s
  obtain ⟨hi, hkernel⟩ := hi
  have hp : phase = .live := of_decide_eq_true hg
  subst hp
  refine ⟨?_, hkernel⟩
  rcases hi with hi | ⟨hi, hnone⟩
  · exact Or.inl (hi.call hc)
  · have hst : c.state = .kDisconnected := hi.state
    have hquiet : k.quiet c.reading = true := by
      simpa [quietStep, hst] using hq
    exact Or.inr ⟨(hi.call hquiet hc).1, hnone⟩

/-- Functors run with nothing left to dispatch. -/
theorem readingInv_runFunctor {s : Polled} (hi : ReadingInv s) {w : WriteResult}
    {ks down close : List Call}
    (hg : guardReading s (.own (.runFunctor w ks down close)) = true)
    (hq : quietStep s (.own (.runFunctor w ks down close)) = true) {life : LifeCycle}
    (hlife : s.toLifeCycle.runFunctor w ks down close = .ok life) :
    ReadingInv ⟨life, s.fetched⟩ := by
  obtain ⟨⟨c, phase⟩, fetched⟩ := s
  obtain ⟨hi, hkernel⟩ := hi
  simp only [guardReading, Bool.and_eq_true, decide_eq_true_eq, Bool.not_eq_true',
    Option.isNone_iff_eq_none] at hg
  obtain ⟨⟨rfl, hnone⟩, hne⟩ := hg
  refine ⟨?_, fun r hr => hkernel r hr⟩
  cases hp : c.posted with
  | nil => simp [hp] at hne
  | cons f fs =>
      have hquiet : ({ c with posted := fs } : TcpConnection).quietFunctor ks down close f =
          true := by
        have hhead : c.quietFunctor ks down close f = true := by
          simpa [quietStep, hp] using hq
        exact hhead
      simp only [runFunctor, hp] at hlife
      obtain ⟨c', hc, hlife⟩ := bind_eq_ok.mp hlife
      cases hlife
      rcases hi with hi | ⟨hi, -⟩
      · have hrest : ({ c with posted := fs } : TcpConnection).Tracked :=
          hi.congr hi.state rfl rfl
        have hnext := hrest.runFunctor hquiet hc
        exact hnext.imp_right fun hsilent => ⟨hsilent, hnone⟩
      · have hrest : ({ c with posted := fs } : TcpConnection).Silent := hi.congr rfl rfl
        exact Or.inr ⟨hrest.runFunctor hquiet hc, hnone⟩

theorem readingInv_step {s t : Polled} {a : PolledStep} (hi : ReadingInv s)
    (hg : (readingMachine.restrict quietStep).guard s a = true)
    (he : execReading a s = .ok t) : ReadingInv t := by
  obtain ⟨hg, hq⟩ := Bool.and_eq_true_iff.mp hg
  cases a with
  | poll revents =>
      cases he
      exact readingInv_poll hi hg
  | own a =>
      obtain ⟨life, hlife, he⟩ := bind_eq_ok.mp he
      cases he
      cases a with
      | connectEstablished up =>
          have hp : s.phase = .created := of_decide_eq_true hg
          have hcreated := hi.followed
          unfold Followed at hcreated
          rw [hp] at hcreated
          obtain ⟨c', hc, hlife⟩ := bind_eq_ok.mp hlife
          cases hlife
          exact ⟨Or.inl (followed_connectEstablished hcreated hc), hi.fetched⟩
      | handleEvent e locked revents receiveTime =>
          obtain ⟨c', hc, hlife⟩ := bind_eq_ok.mp hlife
          cases hlife
          exact readingInv_handleEvent hi hg hq hc
      | call k =>
          obtain ⟨c', hc, hlife⟩ := bind_eq_ok.mp hlife
          cases hlife
          exact readingInv_call hi hg hq hc
      | runFunctor w ks down close => exact readingInv_runFunctor hi hg hq hlife
      | connectDestroyed down => cases hg

/-- A closed connection stays silent in every run that keeps to `quietStep`:
it has no interest, it is in no kernel set a poller keeps that was told
what its channel told, whatever was done to the poller's other channels; the
assert in `connectDestroyed` holds, and no event is reported of it or
dispatched to it. -/
theorem closed_stays_silent {c : TcpConnection} (hc : c.Constructed) {s : Polled}
    (hr : (readingMachine.restrict quietStep).Reaches (startPolled c) s)
    (hst : s.conn.state = .kDisconnected) :
    s.conn.channel.isNoneEvent = true ∧
      (∀ fd as p (ch : ChannelId), EPollPoller.machine.run as (EPollPoller.new fd) = some p →
        as.filterMap (EPollPoller.callAbout ch) = s.conn.channel.told →
        ∀ (k : Int) m, p.kernel[k]? ≠ some (m, ch)) ∧
      (∀ down, ∃ c', s.conn.connectDestroyed down = .ok c') ∧
      (∀ revents, readingMachine.guard s (.poll (some revents)) = false) ∧
      ∀ e locked revents t,
        readingMachine.guard s (.own (.handleEvent e locked revents t)) = false := by
  have hi : ReadingInv s := hr.invariant (I := ReadingInv) ⟨hc, nofun⟩
    fun hi hg he => readingInv_step hi hg he
  obtain ⟨hsilent, hnone⟩ : s.conn.Silent ∧ s.fetched = none := by
    have hfollowed := hi.followed
    unfold Followed at hfollowed
    split at hfollowed
    · rw [hfollowed.state] at hst
      cases hst
    · rcases hfollowed with hup | hdown
      · rcases hup.state with hup | hup <;> rw [hup] at hst <;> cases hst
      · exact hdown
    · exact hfollowed.elim
  refine ⟨hsilent.events, ?_, ?_, ?_, ?_⟩
  · intro fd as p ch hrun htold k m hk
    have hadded := (((EPollPoller.run_agree hrun).kernel _ _ _).mp hk).2.1
    rw [EPollPoller.index_run (EPollPoller.Agree.new fd) hrun ch, htold] at hadded
    exact absurd (hsilent.index.symm.trans hadded) (by decide)
  · intro down
    unfold connectDestroyed
    rw [if_neg (by rw [hst]; decide)]
    obtain ⟨ch, hch⟩ : ∃ ch, s.conn.channel.remove = .ok ch :=
      ⟨_, assertThat_bind_eq_ok.mpr ⟨hsilent.events, rfl⟩⟩
    exact ⟨_, bind_eq_ok.mpr ⟨s.conn, rfl, bind_eq_ok.mpr ⟨ch, hch, rfl⟩⟩⟩
  · intro revents
    have hout : decide (s.conn.channel.pollIndex = EPollPoller.kAdded) = false := by
      rw [hsilent.index]
      decide
    simp [readingMachine, guardReading, hout]
  · intro e locked revents t
    simp [readingMachine, guardReading, hnone]

/-- A connection with bytes waiting is reported readable. Before the loop comes
to it the reading is stopped, and is to be stopped once more; then the read
finds the end. -/
def pausedAndClosed : List PolledStep :=
  [.own (.connectEstablished [.send true [1, 2] (.wrote 1)]), .poll (some POLLIN),
    .own (.call (.stopRead true)), .own (.call (.stopRead false)),
    .own (.handleEvent ⟨.eof, .wrote 0, [], [.shutdown true], []⟩ true POLLIN 5), .poll none,
    .own (.runFunctor (.wrote 0) [] [] [])]

theorem small_constructed : small.Constructed := ⟨small_fresh, rfl⟩

theorem closed_stays_silent_pausedAndClosed :
    ∃ s, (readingMachine.restrict quietStep).run pausedAndClosed (startPolled small) = some s ∧
      s.conn.state = .kDisconnected ∧ s.conn.channel.isNoneEvent = true := by
  obtain ⟨s, hr, hst⟩ : ∃ s, (readingMachine.restrict quietStep).run pausedAndClosed
      (startPolled small) = some s ∧ s.conn.state = .kDisconnected := ⟨_, rfl, rfl⟩
  exact ⟨s, hr, hst, (closed_stays_silent small_constructed ⟨_, hr⟩ hst).1⟩

/-- Back in the kernel's set of a poller that has been told what the channel of
the connection told. -/
def BackInSet (c : TcpConnection) : Prop :=
  ∃ as p, as.filterMap (EPollPoller.callAbout 0) = c.channel.told ∧
    EPollPoller.machine.run as (EPollPoller.new fun _ => 7) = some p ∧
    p.kernel[(7 : Int)]? = some (Channel.kNoneEvent, 0)

/-- Four ways to bring a closed connection back. A DOWN callback that starts
reading leaves interest on, and the assert in `connectDestroyed` fails. One
that stops reading puts the channel back into the kernel's set. So does a
`forceClose` of a connection whose reading was stopped, and so does the end of
the stream, read by a connection whose reading was stopped by another
channel's callback after the event had been fetched. -/
theorem closed_comes_back :
    (∃ s, readingMachine.run [.own (.connectEstablished []), .own (.call .forceClose),
        .own (.runFunctor (.wrote 0) [] [.startRead true] [])] (startPolled small) = some s ∧
      s.conn.state = .kDisconnected ∧ s.conn.channel.isNoneEvent = false ∧
      s.conn.connectDestroyed [] = .error .assertion) ∧
    (∃ s, readingMachine.run [.own (.connectEstablished []), .own (.call .forceClose),
        .own (.runFunctor (.wrote 0) [] [.stopRead true] [])] (startPolled small) = some s ∧
      s.conn.state = .kDisconnected ∧ BackInSet s.conn) ∧
    (∃ s, readingMachine.run [.own (.connectEstablished [.stopRead true]),
        .own (.call .forceClose), .own (.runFunctor (.wrote 0) [] [] [])] (startPolled small) =
          some s ∧
      s.conn.state = .kDisconnected ∧ BackInSet s.conn) ∧
    ∃ s, readingMachine.run [.own (.connectEstablished []), .poll (some POLLIN),
        .own (.call (.stopRead true)),
        .own (.handleEvent ⟨.eof, .wrote 0, [], [], []⟩ true POLLIN 5)] (startPolled small) =
          some s ∧
      s.conn.state = .kDisconnected ∧ BackInSet s.conn := by
  have hback : ∀ {d : TcpConnection}, d.channel.told = [.updateChannel Channel.kReadEvent,
      .updateChannel Channel.kNoneEvent, .updateChannel Channel.kNoneEvent] → BackInSet d := by
    intro d htold
    exact ⟨[.updateChannel 0 Channel.kReadEvent, .updateChannel 0 Channel.kNoneEvent,
      .updateChannel 0 Channel.kNoneEvent], _, htold.symm, rfl, rfl⟩
  exact ⟨⟨_, rfl, rfl, rfl, rfl⟩, ⟨_, rfl, rfl, hback rfl⟩, ⟨_, rfl, rfl, hback rfl⟩,
    ⟨_, rfl, rfl, hback rfl⟩⟩

end LifeCycle

end Libanet.Net
