import Libanet.Proofs.OutputStream
import Mathlib.Algebra.Order.Ring.Nat

/-!
# High water and write complete

A user that sends faster than the peer reads stops when
`highWaterMarkCallback_` comes and goes on when `writeCompleteCallback_` does.
That this works is a property of the two together. The first is queued when
the bytes that wait cross the mark from below, and not again while they stay
above it; the second is queued by the write that leaves nothing waiting. So
whenever too much waits, the last the user was told is to stop; and whenever
that is the last, there is still something to write, and the write that takes
the last of it will tell the user to go on.

Both are read off the states before and after a step here, and the ledger of
what was queued follows for runs.
-/

namespace Libanet.Net

/-- How many times the socket has taken something. -/
def Socket.writes (s : Socket) : Nat :=
  s.ops.countP fun op => match op with
    | .write _ => true
    | _ => false

@[simp] theorem Socket.writes_wrote (s : Socket) (data : List UInt8) (n : Nat) :
    (s.write data (.wrote n)).writes = s.writes + 1 := by
  simp [writes, Socket.write]

@[simp] theorem Socket.writes_failed (s : Socket) (data : List UInt8) (err : Errno) :
    (s.write data (.failed err)).writes = s.writes := by
  simp [writes, Socket.write]

@[simp] theorem Socket.writes_shutdownWrite (s : Socket) : s.shutdownWrite.writes = s.writes := by
  simp [writes, Socket.shutdownWrite]

namespace TcpConnection

/-- The number of bytes that wait to be written. -/
def backlog (c : TcpConnection) : Nat := c.outputBuffer.readableBytes

/-- What the setters have set. -/
def settings (c : TcpConnection) : Bool × Bool × Nat :=
  (c.hasWriteCompleteCallback, c.hasHighWaterMarkCallback, c.highWaterMark)

/-- Both callbacks are set, and the mark. -/
def Watched (mark : Nat) (c : TcpConnection) : Prop := c.settings = (true, true, mark)

/-- What a step owes the user: the write that leaves nothing waiting is told,
and so is a backlog that has come to the mark. -/
def owed (mark : Nat) (c c' : TcpConnection) : List ConnFunctor :=
  (if c.socket.writes < c'.socket.writes ∧ c'.backlog = 0 then [.writeCompleteCallback] else []) ++
    (if c.backlog < mark ∧ mark ≤ c'.backlog then [.highWaterMarkCallback c'.backlog] else [])

/-- From `c` to `c'`, `fs` were queued. -/
structure Tells (fs : List ConnFunctor) (c c' : TcpConnection) : Prop where
  settings : c'.settings = c.settings
  posted : c'.posted = c.posted ++ fs

theorem Tells.of_eq {c c' : TcpConnection} (hs : c'.settings = c.settings)
    (hp : c'.posted = c.posted) : Tells [] c c' :=
  ⟨hs, by rw [hp, List.append_nil]⟩

theorem Tells.trans {fs gs : List ConnFunctor} {a b c : TcpConnection} (h : Tells fs a b)
    (h' : Tells gs b c) : Tells (fs ++ gs) a c :=
  ⟨h'.settings.trans h.settings, by rw [h'.posted, h.posted, List.append_assoc]⟩

theorem Tells.watched {fs : List ConnFunctor} {mark : Nat} {c c' : TcpConnection}
    (h : Tells fs c c') (hw : c.Watched mark) : c'.Watched mark := h.settings.trans hw

variable {mark : Nat} {c c' : TcpConnection}

theorem Watched.fields (h : c.Watched mark) :
    c.hasWriteCompleteCallback = true ∧ c.hasHighWaterMarkCallback = true ∧
      c.highWaterMark = mark := by
  simpa [Watched, settings] using h

/-! ## `sendInLoop` -/

theorem queueWriteComplete_tells (h : c.Watched mark) :
    Tells [.writeCompleteCallback] c c.queueWriteComplete := by
  rw [queueWriteComplete, if_pos h.fields.1]
  exact ⟨rfl, rfl⟩

theorem queueHighWaterMark_tells (h : c.Watched mark) (n : Nat) :
    Tells (if c.backlog < mark ∧ mark ≤ c.backlog + n then
      [.highWaterMarkCallback (c.backlog + n)] else []) c (c.queueHighWaterMark n) := by
  obtain ⟨-, hcb, hmark⟩ := h.fields
  by_cases hx : c.backlog < mark ∧ mark ≤ c.backlog + n
  · rw [if_pos hx, queueHighWaterMark]
    simp only [hmark, hcb]
    rw [if_pos ⟨hx.2, hx.1, trivial⟩]
    exact ⟨rfl, rfl⟩
  · rw [if_neg hx, queueHighWaterMark]
    simp only [hmark, hcb]
    rw [if_neg fun hy => hx ⟨hy.2.1, hy.1⟩]
    exact .of_eq rfl rfl

theorem wantWriting_tells (c : TcpConnection) : Tells [] c c.wantWriting := by
  unfold wantWriting
  split
  · exact .of_eq rfl rfl
  · exact .of_eq rfl rfl

theorem backlog_eq_length (c : TcpConnection) : c.backlog = c.outputBuffer.readable.length :=
  (Buffer.length_readable _).symm

/-- What is left of the data waits from now on. -/
theorem bufferRest_tells (h : c.Watched mark) {data : List UInt8} {nwrote : Nat}
    (hc : c.bufferRest data nwrote = .ok c') :
    c'.socket = c.socket ∧ c'.backlog = c.backlog + (data.length - nwrote) ∧
      Tells (if c.backlog < mark ∧ mark ≤ c'.backlog then
        [.highWaterMarkCallback c'.backlog] else []) c c' := by
  obtain ⟨c₁, hc₁, -, hsock, hread, -⟩ := bufferRest_spec c data nwrote
  cases hc₁.symm.trans hc
  have hlen : c'.backlog = c.backlog + (data.length - nwrote) := by
    rw [backlog_eq_length, hread, List.length_append, List.length_drop, ← backlog_eq_length]
  refine ⟨hsock, hlen, ?_⟩
  rw [hlen]
  have hmark := queueHighWaterMark_tells h (data.length - nwrote)
  obtain ⟨b, -, hc⟩ := bind_eq_ok.mp hc
  cases hc
  have hrest := wantWriting_tells
    { c.queueHighWaterMark (data.length - nwrote) with outputBuffer := b }
  have hall := hmark.trans ⟨hrest.settings, hrest.posted⟩
  rw [List.append_nil] at hall
  exact hall

theorem sendRest_tells (h : c.Watched mark) {data : List UInt8} {nwrote : Nat}
    {faultError : Bool} (hc : c.sendRest data nwrote faultError = .ok c') :
    c'.socket = c.socket ∧
      c'.backlog = c.backlog + (if faultError then 0 else data.length - nwrote) ∧
      Tells (if c.backlog < mark ∧ mark ≤ c'.backlog then
        [.highWaterMarkCallback c'.backlog] else []) c c' := by
  unfold sendRest at hc
  obtain ⟨-, hc⟩ := assertThat_bind_eq_ok.mp hc
  have hsame : ¬(c.backlog < mark ∧ mark ≤ c.backlog) := by omega
  split at hc
  · next hif =>
      simp only [Bool.and_eq_true, Bool.not_eq_true', decide_eq_true_eq] at hif
      rw [hif.1, if_neg Bool.false_ne_true]
      exact bufferRest_tells h hc
  · next hif =>
      cases hc
      have hnone : (if faultError then 0 else data.length - nwrote) = 0 := by
        cases faultError with
        | true => rfl
        | false =>
            have hle : ¬ 0 < data.length - nwrote := by simpa using hif
            rw [if_neg Bool.false_ne_true]
            omega
      rw [hnone, if_neg hsame]
      exact ⟨rfl, rfl, .of_eq rfl rfl⟩

/-- The write the socket is tried with first. -/
theorem directWrite_tells (h : c.Watched mark) {data : List UInt8} {w : WriteResult}
    {nwrote : Nat} {faultError : Bool} (hc : c.directWrite data w = (c', nwrote, faultError)) :
    c'.backlog = c.backlog ∧
      ((c'.socket.writes = c.socket.writes ∧ nwrote = 0 ∧ Tells [] c c') ∨
        (c'.socket.writes = c.socket.writes + 1 ∧ faultError = false ∧
          Tells (if data.length - nwrote = 0 then [.writeCompleteCallback] else []) c c')) := by
  obtain ⟨-, hsock, -, hbuf, -⟩ := directWrite_spec hc
  have hlog : c'.backlog = c.backlog := by rw [backlog, hbuf, backlog]
  unfold directWrite at hc
  cases w with
  | failed err =>
      cases hc
      exact ⟨hlog, Or.inl ⟨by simp, rfl, .of_eq rfl rfl⟩⟩
  | wrote n =>
      simp only [Prod.mk.injEq] at hc
      obtain ⟨hc, rfl, rfl⟩ := hc
      refine ⟨hlog, Or.inr ⟨by rw [hsock]; simp, rfl, ?_⟩⟩
      split at hc
      · next hall =>
          subst hc
          rw [if_pos hall]
          have hw : ({ c with socket := c.socket.write data (.wrote n) } :
            TcpConnection).Watched mark := h
          have htell := queueWriteComplete_tells hw
          exact ⟨htell.settings, htell.posted⟩
      · next hall =>
          subst hc
          rw [if_neg hall]
          exact .of_eq rfl rfl

/-- What a `sendInLoop` tells the user is what it owes, and nothing that
waited has gone. -/
theorem sendInLoop_tells (h : c.Watched mark) {data : List UInt8} {w : WriteResult}
    (hc : c.sendInLoop data w = .ok c') :
    Tells (owed mark c c') c c' ∧ c.backlog ≤ c'.backlog := by
  unfold sendInLoop at hc
  split at hc
  · cases hc
    have hsame : ¬(c.backlog < mark ∧ mark ≤ c.backlog) := by omega
    simp only [owed, Nat.lt_irrefl, false_and, hsame, if_false, List.append_nil]
    exact ⟨.of_eq rfl rfl, Nat.le_refl _⟩
  · split at hc
    · next hd =>
        have hempty : c.backlog = 0 := Buffer.readable_eq_nil.mp (writesDirectly_iff.mp hd).2
        cases hdw : c.directWrite data w with
        | mk c₁ r =>
            obtain ⟨nwrote, faultError⟩ := r
            rw [hdw] at hc
            obtain ⟨hlog, hcases⟩ := directWrite_tells h hdw
            obtain ⟨hwrites, -, hfirst⟩ | ⟨hwrites, hfe, hfirst⟩ := hcases
            · obtain ⟨hsock, hlen, hrest⟩ := sendRest_tells (hfirst.watched h) hc
              have hall := hfirst.trans hrest
              rw [hlog, List.nil_append] at hall
              rw [owed, hsock, hwrites, if_neg fun hlt => Nat.lt_irrefl _ hlt.1, List.nil_append]
              exact ⟨hall, by omega⟩
            · obtain ⟨hsock, hlen, hrest⟩ := sendRest_tells (hfirst.watched h) hc
              have hall := hfirst.trans hrest
              rw [hfe, if_neg Bool.false_ne_true, hlog, hempty, Nat.zero_add] at hlen
              have hiff : (c.socket.writes < c.socket.writes + 1 ∧ c'.backlog = 0)
                  = (data.length - nwrote = 0) := by
                rw [hlen]
                simp
              rw [hlog] at hall
              simp only [owed, hsock, hwrites, hiff]
              exact ⟨hall, by omega⟩
    · obtain ⟨hsock, hlen, htell⟩ := sendRest_tells h hc
      rw [owed, hsock, if_neg fun hlt => Nat.lt_irrefl _ hlt.1, List.nil_append]
      exact ⟨htell, by omega⟩

/-! ## `handleWrite` -/

theorem outputDrained_tells (h : c.Watched mark) :
    Tells [.writeCompleteCallback] c c.outputDrained ∧
      c.outputDrained.socket.writes = c.socket.writes ∧ c.outputDrained.backlog = c.backlog := by
  obtain ⟨-, -, hbuf, hsock⟩ := outputDrained_spec c
  refine ⟨?_, ?_, by rw [backlog, hbuf, backlog]⟩
  · have hw : ({ c with channel := c.channel.disableWriting } : TcpConnection).Watched mark := h
    have htell := queueWriteComplete_tells hw
    unfold outputDrained
    dsimp only
    split
    · unfold shutdownInLoop
      split
      · exact ⟨htell.settings, htell.posted⟩
      · exact ⟨htell.settings, htell.posted⟩
    · exact ⟨htell.settings, htell.posted⟩
  · rw [hsock]
    split
    · exact Socket.writes_shutdownWrite _
    · rfl

theorem outputWritten_tells (h : c.Watched mark) {n : Nat} (hn : n ≤ c.backlog)
    (hc : c.outputWritten n = .ok c') :
    c'.socket.writes = c.socket.writes ∧ c'.backlog = c.backlog - n ∧
      Tells (if c'.backlog = 0 then [.writeCompleteCallback] else []) c c' := by
  obtain ⟨b, hb, hread⟩ := Buffer.retrieve_spec hn
  have hlen : b.readableBytes = c.backlog - n := by
    rw [← b.length_readable, hread, List.length_drop, Buffer.length_readable, backlog]
  unfold outputWritten at hc
  rw [hb, ok_bind] at hc
  dsimp only at hc
  split at hc
  · next hz =>
      cases hc
      have hw : ({ c with outputBuffer := b } : TcpConnection).Watched mark := h
      obtain ⟨htell, hwrites, hlog⟩ := outputDrained_tells hw
      have hzero : ({ c with outputBuffer := b } : TcpConnection).outputDrained.backlog = 0 := by
        rw [hlog]
        exact hz
      rw [hzero, if_pos rfl]
      exact ⟨hwrites, by omega, htell.settings, htell.posted⟩
  · next hz =>
      cases hc
      have hne : ({ c with outputBuffer := b } : TcpConnection).backlog ≠ 0 := hz
      rw [if_neg hne]
      exact ⟨rfl, hlen, .of_eq rfl rfl⟩

/-- Write interest is on only while something waits, and off when the
connection is down. -/
def Quiet (c : TcpConnection) : Prop := c.channel.isWriting = true → c.backlog ≠ 0

/-- What a `handleWrite` tells the user is what it owes. -/
theorem handleWrite_tells (h : c.Watched mark) (hq : c.Quiet) {w : WriteResult}
    (hfit : w.fits c.backlog = true) (hc : c.handleWrite w = .ok c') :
    Tells (owed mark c c') c c' ∧
      (c'.backlog = 0 → c.backlog ≠ 0 → c.socket.writes < c'.socket.writes) := by
  have hsame : ¬(c.backlog < mark ∧ mark ≤ c.backlog) := by omega
  unfold handleWrite at hc
  split at hc
  · next hw =>
      have hne := hq hw
      cases w with
      | failed err =>
          cases hc
          have hlog : ({ c with socket := c.socket.write c.outputBuffer.readable (.failed err) } :
            TcpConnection).backlog = c.backlog := rfl
          simp only [owed, hlog, Socket.writes_failed, Nat.lt_irrefl, false_and, hsame, if_false,
            List.append_nil]
          exact ⟨.of_eq rfl rfl, fun hz => absurd hz hne⟩
      | wrote n =>
          dsimp only at hc
          split at hc
          · next hn =>
              have hle : n ≤ c.backlog := by simpa [WriteResult.fits] using hfit
              have hw : ({ c with
                socket := c.socket.write c.outputBuffer.readable (.wrote n) } :
                TcpConnection).Watched mark := h
              obtain ⟨hwrites, hlog, htell⟩ := outputWritten_tells hw hle hc
              have hlt : c.socket.writes < c'.socket.writes := by
                rw [hwrites, Socket.writes_wrote]
                exact Nat.lt_succ_self _
              have hdown : ¬(c.backlog < mark ∧ mark ≤ c'.backlog) := by
                have hle' : c'.backlog ≤ c.backlog := by
                  rw [hlog]
                  exact Nat.sub_le _ _
                omega
              simp only [owed, hlt, true_and, hdown, if_false, List.append_nil]
              exact ⟨⟨htell.settings, htell.posted⟩, fun _ _ => trivial⟩
          · cases hc
            have hlog : ({ c with socket := c.socket.write c.outputBuffer.readable (.wrote n) } :
              TcpConnection).backlog = c.backlog := rfl
            simp only [owed, hlog, hne, and_false, hsame, if_false, List.append_nil]
            exact ⟨.of_eq rfl rfl, fun hf => hf.elim⟩
  · cases hc
    simp only [owed, Nat.lt_irrefl, false_and, hsame, if_false, List.append_nil]
    exact ⟨.of_eq rfl rfl, fun hz hne => hne hz⟩

/-! ## Steps -/

theorem owed_of_same (mark : Nat) (hlog : c'.backlog = c.backlog)
    (hwrites : c'.socket.writes = c.socket.writes) : owed mark c c' = [] := by
  have hsame : ¬(c.backlog < mark ∧ mark ≤ c.backlog) := by omega
  simp only [owed, hlog, hwrites, Nat.lt_irrefl, false_and, hsame, if_false, List.append_nil]

theorem Tells.of_same (mark : Nat) (hs : c'.settings = c.settings) (hp : c'.posted = c.posted)
    (hlog : c'.backlog = c.backlog) (hwrites : c'.socket.writes = c.socket.writes) :
    Tells (owed mark c c') c c' ∧
      (c'.backlog = 0 → c.backlog ≠ 0 → c.socket.writes < c'.socket.writes) := by
  rw [owed_of_same mark hlog hwrites, hlog]
  exact ⟨.of_eq hs hp, fun hz hne => absurd hz hne⟩

/-- Watched, with write interest in step with the buffer, and off when the
connection is down. -/
structure Flowing (mark : Nat) (c : TcpConnection) : Prop where
  watched : c.Watched mark
  up : c.state ≠ .kDisconnected → c.Coupled
  down : c.state = .kDisconnected → c.channel.isWriting = false

theorem Flowing.quiet (h : c.Flowing mark) : c.Quiet := by
  intro hw hzero
  by_cases hdown : c.state = .kDisconnected
  · rw [h.down hdown] at hw
    cases hw
  · exact (h.up hdown).mp hw (Buffer.readable_eq_nil.mpr hzero)

theorem isWriting_of_isNoneEvent {ch : Channel} (h : ch.isNoneEvent = true) :
    ch.isWriting = false := by
  cases hw : ch.isWriting with
  | false => rfl
  | true =>
      rw [Channel.isNoneEvent_of_isWriting hw] at h
      cases h

theorem connectDestroyed_tells (hc : c.connectDestroyed [] = .ok c') :
    c'.settings = c.settings ∧ c'.posted = c.posted ∧ c'.channel.isWriting = false := by
  unfold connectDestroyed at hc
  by_cases hup : c.state = .kConnected
  · rw [if_pos hup] at hc
    cases hc
    exact ⟨rfl, rfl, isWriting_of_isNoneEvent (Channel.isNoneEvent_disableAll c.channel)⟩
  · rw [if_neg hup] at hc
    obtain ⟨c₁, hc₁, hc⟩ := bind_eq_ok.mp hc
    cases hc₁
    obtain ⟨ch, hch, hc⟩ := bind_eq_ok.mp hc
    obtain ⟨hnone, hch⟩ := assertThat_bind_eq_ok.mp hch
    cases hch
    cases hc
    exact ⟨rfl, rfl, isWriting_of_isNoneEvent hnone⟩

theorem loopStep_tells (h : c.Flowing mark) {a : LoopStep} (hg : loopThread.guard c a = true)
    (he : loopThread.exec a c = .ok c') :
    Tells (owed mark c c') c c' ∧
      (c'.backlog = 0 → c.backlog ≠ 0 → c.socket.writes < c'.socket.writes) := by
  cases a with
  | connectEstablished =>
      obtain ⟨-, hc⟩ := assertThat_bind_eq_ok.mp he
      cases hc
      exact Tells.of_same mark rfl rfl rfl rfl
  | sendInLoop data w =>
      obtain ⟨htell, hle⟩ := sendInLoop_tells h.watched he
      exact ⟨htell, fun hz hne => absurd (Nat.le_zero.mp (hz ▸ hle)) hne⟩
  | handleWrite w => exact handleWrite_tells h.watched h.quiet hg he
  | shutdownInLoop =>
      cases he
      unfold shutdownInLoop
      split
      · exact Tells.of_same mark rfl rfl rfl (Socket.writes_shutdownWrite _)
      · exact Tells.of_same mark rfl rfl rfl rfl
  | startReadInLoop =>
      cases he
      unfold startReadInLoop
      split
      · exact Tells.of_same mark rfl rfl rfl rfl
      · exact Tells.of_same mark rfl rfl rfl rfl
  | stopReadInLoop =>
      cases he
      unfold stopReadInLoop
      split
      · exact Tells.of_same mark rfl rfl rfl rfl
      · exact Tells.of_same mark rfl rfl rfl rfl
  | handleClose =>
      obtain ⟨-, hc⟩ := assertThat_bind_eq_ok.mp he
      cases hc
      exact Tells.of_same mark rfl rfl rfl rfl
  | connectDestroyed =>
      obtain ⟨hs, hp, -⟩ := connectDestroyed_tells he
      obtain ⟨hbuf, hsock, -⟩ := connectDestroyed_nil_spec he
      exact Tells.of_same mark hs hp (by rw [backlog, hbuf, backlog]) (by rw [hsock])

theorem loopStep_off (hoff : c.state = .kDisconnected → c.channel.isWriting = false)
    {a : LoopStep} (hg : loopThread.guard c a = true) (he : loopThread.exec a c = .ok c') :
    c'.state = .kDisconnected → c'.channel.isWriting = false := by
  cases a with
  | connectEstablished =>
      obtain ⟨-, hc⟩ := assertThat_bind_eq_ok.mp he
      cases hc
      intro hdown
      cases hdown
  | sendInLoop data w =>
      obtain ⟨c₁, hc₁, hstep, -, -, -, hsame⟩ := sendInLoop_spec c data w
      cases hc₁.symm.trans he
      intro hdown
      have hdown' := hstep.state.symm.trans hdown
      rw [hsame hdown']
      exact hoff hdown'
  | handleWrite w =>
      obtain ⟨c₁, hc₁, hstep, -, -, hsame, -⟩ := handleWrite_spec hg
      cases hc₁.symm.trans he
      intro hdown
      have hw := hoff (hstep.state.symm.trans hdown)
      rw [hsame hw]
      exact hw
  | shutdownInLoop =>
      cases he
      obtain ⟨hstep, hch, -⟩ := shutdownInLoop_spec c
      rw [hstep.state, hch]
      exact hoff
  | startReadInLoop =>
      cases he
      obtain ⟨hstep, hch, -⟩ := startReadInLoop_spec c
      rw [hstep.state, hch]
      exact hoff
  | stopReadInLoop =>
      cases he
      obtain ⟨hstep, hch, -⟩ := stopReadInLoop_spec c
      rw [hstep.state, hch]
      exact hoff
  | handleClose =>
      obtain ⟨-, hc⟩ := assertThat_bind_eq_ok.mp he
      cases hc
      exact fun _ => isWriting_of_isNoneEvent (Channel.isNoneEvent_disableAll c.channel)
  | connectDestroyed => exact fun _ => (connectDestroyed_tells he).2.2

theorem loopStep_flowing (h : c.Flowing mark) {a : LoopStep}
    (hg : loopThread.guard c a = true) (he : loopThread.exec a c = .ok c') : c'.Flowing mark :=
  ⟨(loopStep_tells h hg he).1.watched h.watched, loopStep_coupled h.up hg he,
    loopStep_off h.down hg he⟩

/-! ## Runs -/

/-- What the user was told last goes with what waits: to stop if it is too
much, and something waits if it was to stop. -/
structure Heard (mark : Nat) (c : TcpConnection) : Prop where
  stop : mark ≤ c.backlog → ∃ n, c.posted.getLast? = some (.highWaterMarkCallback n)
  waits : ∀ n, c.posted.getLast? = some (.highWaterMarkCallback n) → mark ≤ n ∧ c.backlog ≠ 0

theorem Heard.step (hmark : 0 < mark) (h : c.Heard mark) (htell : Tells (owed mark c c') c c')
    (hdrain : c'.backlog = 0 → c.backlog ≠ 0 → c.socket.writes < c'.socket.writes) :
    c'.Heard mark := by
  have hposted := htell.posted
  by_cases hcross : c.backlog < mark ∧ mark ≤ c'.backlog
  · have hlast : c'.posted.getLast? = some (.highWaterMarkCallback c'.backlog) := by
      rw [hposted, owed, if_pos hcross, ← List.append_assoc]
      exact List.getLast?_concat
    refine ⟨fun _ => ⟨_, hlast⟩, ?_⟩
    intro n hn
    rw [hlast] at hn
    cases hn
    exact ⟨hcross.2, by omega⟩
  · rw [owed, if_neg hcross, List.append_nil] at hposted
    by_cases hdone : c.socket.writes < c'.socket.writes ∧ c'.backlog = 0
    · have hlast : c'.posted.getLast? = some .writeCompleteCallback := by
        rw [hposted, if_pos hdone]
        exact List.getLast?_concat
      refine ⟨fun hle => ?_, ?_⟩
      · rw [hdone.2] at hle
        omega
      · intro n hn
        rw [hlast] at hn
        cases hn
    · rw [if_neg hdone, List.append_nil] at hposted
      refine ⟨fun hle => ?_, fun n hn => ?_⟩
      · rw [hposted]
        exact h.stop (by omega)
      · rw [hposted] at hn
        obtain ⟨hle, hne⟩ := h.waits n hn
        exact ⟨hle, fun hzero => hdone ⟨hdrain hzero hne, hzero⟩⟩

/-- A `handleWrite` that gets something written. -/
theorem handleWrite_wrote (h : c.Watched mark) (hw : c.channel.isWriting = true) {n : Nat}
    (hn : 0 < n) (hle : n ≤ c.backlog) :
    ∃ c', c.handleWrite (.wrote n) = .ok c' ∧ c'.state = c.state ∧
      c'.backlog = c.backlog - n ∧
      Tells (if c'.backlog = 0 then [.writeCompleteCallback] else []) c c' := by
  have hfit : (WriteResult.wrote n).fits c.outputBuffer.readableBytes = true :=
    decide_eq_true hle
  obtain ⟨c', hc, hstep, -⟩ := handleWrite_spec hfit
  have hwrite := hc
  rw [handleWrite, if_pos hw] at hwrite
  simp only [if_pos hn] at hwrite
  have hw : ({ c with socket := c.socket.write c.outputBuffer.readable (.wrote n) } :
    TcpConnection).Watched mark := h
  obtain ⟨-, hlog, htell⟩ := outputWritten_tells hw hle hwrite
  exact ⟨c', hc, hstep.state, hlog, htell.settings, htell.posted⟩

/-- Writes that come to what waits, however they are cut, end with the user
told to go on. -/
theorem Flowing.drain (h : c.Flowing mark) (hup : c.state ≠ .kDisconnected)
    (hwaits : c.backlog ≠ 0) {ns : List Nat} (hpos : ∀ n ∈ ns, 0 < n) (hsum : ns.sum = c.backlog) :
    ∃ t, loopThread.run (ns.map fun n => .handleWrite (.wrote n)) c = some t ∧
      t.backlog = 0 ∧ t.posted.getLast? = some .writeCompleteCallback := by
  induction ns generalizing c with
  | nil => exact absurd hsum.symm hwaits
  | cons n ns ih =>
      rw [List.sum_cons] at hsum
      have hn := hpos n List.mem_cons_self
      have hle : n ≤ c.backlog := by omega
      have hw : c.channel.isWriting = true :=
        (h.up hup).mpr fun hnil => hwaits (Buffer.readable_eq_nil.mp hnil)
      obtain ⟨c', hc, hstate, hlog, htell⟩ := handleWrite_wrote h.watched hw hn hle
      have hg : loopThread.guard c (.handleWrite (.wrote n)) = true := decide_eq_true hle
      by_cases hzero : c'.backlog = 0
      · have hnil : ns = [] := by
          cases ns with
          | nil => rfl
          | cons k ns =>
              have hk := hpos k (List.mem_cons_of_mem _ List.mem_cons_self)
              rw [List.sum_cons] at hsum
              omega
        subst hnil
        refine ⟨c', ?_, hzero, ?_⟩
        · rw [List.map_cons, List.map_nil, Machine.run_cons_of (m := loopThread) hg hc]
          rfl
        · rw [htell.posted, if_pos hzero]
          exact List.getLast?_concat
      · have hrest := ih (loopStep_flowing h hg hc) (by rwa [hstate]) hzero
          (fun k hk => hpos k (List.mem_cons_of_mem _ hk)) (by omega)
        rw [List.map_cons, Machine.run_cons_of (m := loopThread) hg hc]
        exact hrest

/-- In every run of a connection with both callbacks set, `highWaterMarkCallback_`
is queued for each time the bytes that wait come to the mark from below, and
`writeCompleteCallback_` for each write that leaves none, and nothing else
is. So while the mark is reached the user has been told to stop last; and a
user who has is not forgotten: there is something to write, write interest is
on as long as the connection is up, and the write that takes the last of it
tells the user to go on. -/
theorem flow_control {t : TcpConnection} (hc : c.Fresh) (hmark : 0 < mark) (hw : c.Watched mark)
    {as : List LoopStep} (hr : loopThread.run as c = some t) :
    t.posted = (loopThread.steps as c).flatMap (fun x => owed mark x.1 x.2.2) ∧
      (mark ≤ t.backlog → ∃ n, t.posted.getLast? = some (.highWaterMarkCallback n)) ∧
      (∀ n, t.posted.getLast? = some (.highWaterMarkCallback n) →
        mark ≤ n ∧ t.backlog ≠ 0 ∧
          (t.state ≠ .kDisconnected → t.channel.isWriting = true ∧
            ∀ ns : List Nat, (∀ k ∈ ns, 0 < k) → ns.sum = t.backlog →
              ∃ u, loopThread.run (ns.map fun k => .handleWrite (.wrote k)) t = some u ∧
                u.backlog = 0 ∧ u.posted.getLast? = some .writeCompleteCallback)) := by
  have hoff : c.channel.isWriting = false := by
    rw [Channel.isWriting, hc.events]
    decide
  have hempty : c.backlog = 0 := by rw [backlog_eq_length, hc.readable, List.length_nil]
  have hflow : c.Flowing mark :=
    ⟨hw, fun _ => by simp [Coupled, hoff, hc.readable], fun _ => hoff⟩
  have hheard : c.Heard mark := by
    refine ⟨fun hle => ?_, ?_⟩
    · omega
    · rw [hc.posted]
      intro n hn
      cases hn
  have hledger : t.posted = c.posted ++
      (loopThread.steps as c).flatMap (fun x => owed mark x.1 x.2.2) :=
    Machine.run_ledger_steps (I := Flowing mark) (f := posted)
      (fun h hg he => loopStep_flowing h hg he)
      (fun h hg he => (loopStep_tells h hg he).1.posted) hflow hr
  have hend : t.Flowing mark ∧ t.Heard mark := by
    refine Machine.run_invariant (I := fun c => c.Flowing mark ∧ c.Heard mark) ?_
      ⟨hflow, hheard⟩ hr
    intro c₁ c₂ a h hg he
    obtain ⟨htell, hdrain⟩ := loopStep_tells h.1 hg he
    exact ⟨loopStep_flowing h.1 hg he, h.2.step hmark htell hdrain⟩
  obtain ⟨hflow', hheard'⟩ := hend
  rw [hc.posted, List.nil_append] at hledger
  refine ⟨hledger, hheard'.stop, fun n hn => ?_⟩
  obtain ⟨hle, hne⟩ := hheard'.waits n hn
  refine ⟨hle, hne, fun hup => ⟨?_, fun ns hpos hsum => hflow'.drain hup hne hpos hsum⟩⟩
  exact (hflow'.up hup).mpr fun hnil => hne (Buffer.readable_eq_nil.mp hnil)

/-- Both callbacks set, and a mark of four bytes. -/
def markedAtFour : TcpConnection :=
  { new 0 "marked" true true with outputBuffer := Buffer.new 0, highWaterMark := 4 }

/-- Three bytes wait, then five: the mark is crossed once. -/
def crossedOnce : List LoopStep :=
  [.connectEstablished, .sendInLoop [1, 2, 3, 4, 5] (.wrote 2), .sendInLoop [6, 7] (.wrote 0),
    .sendInLoop [8] (.wrote 0), .handleWrite (.wrote 1)]

theorem flow_control_crossedOnce :
    ∃ t, loopThread.run crossedOnce markedAtFour = some t ∧
      t.posted = [.highWaterMarkCallback 5] ∧
      t.posted = (loopThread.steps crossedOnce markedAtFour).flatMap
        (fun x => owed 4 x.1 x.2.2) ∧
      ∃ u, loopThread.run [.handleWrite (.wrote 2), .handleWrite (.wrote 3)] t = some u ∧
        u.backlog = 0 ∧ u.posted.getLast? = some .writeCompleteCallback := by
  obtain ⟨t, ht, hlog, hup, hposted⟩ : ∃ t, loopThread.run crossedOnce markedAtFour = some t ∧
      t.backlog = 5 ∧ t.state ≠ .kDisconnected ∧ t.posted = [.highWaterMarkCallback 5] :=
    ⟨_, rfl, rfl, nofun, rfl⟩
  have hfresh : markedAtFour.Fresh := by constructor <;> rfl
  obtain ⟨hledger, -, hstopped⟩ := flow_control hfresh (by decide : 0 < 4) rfl ht
  have hdrain := ((hstopped 5 (by rw [hposted]; rfl)).2.2 hup).2 [2, 3] (by decide)
    (by rw [hlog]; rfl)
  exact ⟨t, ht, hposted, hledger, hdrain⟩

end TcpConnection

end Libanet.Net
