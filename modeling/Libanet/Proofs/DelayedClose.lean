import Libanet.Net.DelayedClose
import Libanet.Proofs.ConnLifecycle

/-!
# A delayed close closes

Once a delayed close has found the connection up, its timer is still to fire,
or a `forceCloseInLoop` waits in the loop's queue, or the connection is down.
The timer turns the first into the second and the loop the second into the
third, unless the peer, the user or another timer has been there before; so
when all timers have fired and the loop has run its queue, the connection is
down, once. Meanwhile no state before `kDisconnecting` comes back, so nothing
more is accepted for sending.

What nothing undoes is said by `Onward`, for every member function: `state_`
does not go back and what has been queued stays there.

The connection is one whose life `LifeCycle` tells. So `connectDestroyed` comes
after the close callback, or finds the connection `kConnected`: a delayed close
leaves it `kDisconnecting`, and a `connectDestroyed` that comes then, from
`~TcpServer`, fails an assertion whether a timer is pending or not. And the
loop runs the functors of the connection only while the connection is there:
they hold a plain `this`, and it is the timers alone that ask before they use
it. The log is left out, with the `LOG_WARN` that aborts.

The last owner lets go at some time after `connectDestroyed`, and then the
timers are all there is. When a timer fires is up to the clock. Each of them
fires once.
-/

namespace Libanet.Net

namespace TcpConnection

/-- `state_` has not gone back, and what had been queued still is. -/
structure Onward (c c' : TcpConnection) : Prop where
  state : c.state.rank ≤ c'.state.rank
  posted : c.posted <+: c'.posted

namespace Onward

variable {c c' d : TcpConnection}

theorem refl (c : TcpConnection) : Onward c c := ⟨Nat.le_refl _, List.prefix_refl _⟩

theorem trans (h : Onward c d) (h' : Onward d c') : Onward c c' :=
  ⟨Nat.le_trans h.state h'.state, h.posted.trans h'.posted⟩

theorem of_eq (hstate : c'.state = c.state) (hposted : c'.posted = c.posted) : Onward c c' :=
  ⟨Nat.le_of_eq (congrArg StateE.rank hstate.symm), hposted ▸ List.prefix_refl _⟩

/-- Fields that are not looked at do not matter to where it starts. -/
theorem head (h : Onward d c') (hstate : d.state = c.state) (hposted : d.posted = c.posted) :
    Onward c c' := (of_eq hstate hposted).trans h

theorem of_outputStep (h : OutputStep c c') : Onward c c' := by
  obtain ⟨fs, hfs, -⟩ := h.posted
  exact ⟨Nat.le_of_eq (congrArg StateE.rank h.state.symm), fs, hfs.symm⟩

theorem setState {s : StateE} (h : c.state.rank ≤ s.rank) : Onward c (c.setState s) :=
  ⟨h, List.prefix_refl _⟩

theorem queueInLoop (c : TcpConnection) (f : ConnFunctor) : Onward c (c.queueInLoop f) :=
  ⟨Nat.le_refl _, List.prefix_append _ _⟩

theorem sendInLoop {data : List UInt8} {w : WriteResult} (h : c.sendInLoop data w = .ok c') :
    Onward c c' := by
  obtain ⟨d, hd, hstep, -⟩ := sendInLoop_spec c data w
  cases hd.symm.trans h
  exact of_outputStep hstep

theorem shutdown (c : TcpConnection) (inLoop : Bool) : Onward c (c.shutdown inLoop) := by
  unfold TcpConnection.shutdown
  split
  · next hup =>
      have hstate : Onward c (c.setState .kDisconnecting) := setState (by simp [hup, StateE.rank])
      cases inLoop with
      | true => exact hstate.trans (of_outputStep (shutdownInLoop_spec _).1)
      | false => exact hstate.trans (queueInLoop _ _)
  · exact refl c

theorem disconnecting (hup : c.state = .kConnected ∨ c.state = .kDisconnecting) :
    Onward c (c.setState .kDisconnecting) := by
  refine setState ?_
  rcases hup with hup | hup
  · simp [hup, StateE.rank]
  · simp [hup, StateE.rank]

theorem forceClose (c : TcpConnection) : Onward c c.forceClose := by
  unfold TcpConnection.forceClose
  split
  · next hup => exact (disconnecting hup).trans (queueInLoop _ _)
  · exact refl c

theorem call {k : Call} (h : c.call k = .ok c') : Onward c c' := by
  cases k with
  | send inLoop message w =>
      simp only [TcpConnection.call, send] at h
      split at h
      · split at h
        · exact sendInLoop h
        · cases h
          exact queueInLoop c _
      · cases h
        exact refl c
  | shutdown inLoop =>
      cases h
      exact shutdown c inLoop
  | forceClose =>
      cases h
      exact forceClose c
  | startRead inLoop =>
      cases h
      cases inLoop with
      | true => exact of_outputStep (startReadInLoop_spec c).1
      | false => exact queueInLoop c _
  | stopRead inLoop =>
      cases h
      cases inLoop with
      | true => exact of_outputStep (stopReadInLoop_spec c).1
      | false => exact queueInLoop c _

theorem calls {ks : List Call} (h : c.calls ks = .ok c') : Onward c c' := by
  induction ks generalizing c with
  | nil =>
      cases h
      exact refl _
  | cons k ks ih =>
      obtain ⟨d, hd, h⟩ := bind_eq_ok.mp h
      exact (call hd).trans (ih h)

theorem rank_le (s : StateE) : s.rank ≤ StateE.rank .kDisconnected := by
  cases s <;> simp [StateE.rank]

theorem handleClose {down close : List Call} (h : c.handleClose down close = .ok c') :
    Onward c c' := by
  obtain ⟨-, h⟩ := assertThat_bind_eq_ok.mp h
  obtain ⟨d, hd, h⟩ := bind_eq_ok.mp h
  have hdown : Onward c c.takeDown := ⟨rank_le _, List.prefix_refl _⟩
  have hcalls : Onward c.takeDown d := calls hd
  have hclose : Onward (d.emit .closeCallback) c' := calls h
  exact hdown.trans (hcalls.trans (hclose.head rfl rfl))

theorem handleRead {r : ReadResult} {message down close : List Call} {t : Timestamp}
    (h : c.handleRead r message down close t = .ok c') : Onward c c' := by
  cases r with
  | data =>
      have hcalls : Onward _ c' := calls h
      exact hcalls.head rfl rfl
  | eof => exact handleClose h
  | failed =>
      cases h
      exact refl c

theorem handleWrite {w : WriteResult} (h : c.handleWrite w = .ok c') : Onward c c' := by
  unfold TcpConnection.handleWrite at h
  split at h
  · cases w with
    | failed err =>
        cases h
        exact of_eq rfl rfl
    | wrote n =>
        simp only at h
        split at h
        · obtain ⟨b, -, h⟩ := bind_eq_ok.mp h
          simp only at h
          split at h
          · cases h
            have hdrained := of_outputStep (outputDrained_spec
              { c with
                socket := c.socket.write c.outputBuffer.readable (.wrote n), outputBuffer := b }).1
            exact hdrained.head rfl rfl
          · cases h
            exact of_eq rfl rfl
        · cases h
          exact of_eq rfl rfl
  · cases h
    exact refl c

theorem fire {cond : Bool} {callback : Option (TcpConnection → Except Fault TcpConnection)}
    (hcb : ∀ f, callback = some f → ∀ {a b}, f a = .ok b → Onward a b)
    (h : Channel.fire cond callback c = .ok c') : Onward c c' := by
  unfold Channel.fire at h
  split at h
  · cases callback with
    | none =>
        cases h
        exact refl c
    | some f => exact hcb f rfl h
  · cases h
    exact refl c

theorem handleEvent {e : EventScript} {locked : Bool} {revents : EventMask} {t : Timestamp}
    (h : c.handleEvent e locked revents t = .ok c') : Onward c c' := by
  by_cases hdrop : c.channel.tied = true ∧ locked = false
  · rw [TcpConnection.handleEvent, Channel.handleEvent, if_pos hdrop.1, hdrop.2] at h
    cases h
    exact refl c
  · rw [TcpConnection.handleEvent, Channel.handleEvent_dispatched hdrop] at h
    obtain ⟨c₁, hc₁, h⟩ := bind_eq_ok.mp h
    obtain ⟨c₂, hc₂, h⟩ := bind_eq_ok.mp h
    obtain ⟨c₃, hc₃, h⟩ := bind_eq_ok.mp h
    refine (fire ?_ hc₁).trans ((fire ?_ hc₂).trans ((fire ?_ hc₃).trans (fire ?_ h)))
    · intro f hf a b hab
      cases hf
      exact handleClose hab
    · intro f hf a b hab
      cases hf
      cases hab
      exact refl a
    · intro f hf a b hab
      cases hf
      exact handleRead hab
    · intro f hf a b hab
      cases hf
      exact handleWrite hab

theorem forceCloseInLoop {down close : List Call} (h : c.forceCloseInLoop down close = .ok c') :
    Onward c c' := by
  unfold TcpConnection.forceCloseInLoop at h
  split at h
  · exact handleClose h
  · cases h
    exact refl c

theorem runFunctor {f : ConnFunctor} {w : WriteResult} {ks down close : List Call}
    (h : c.runFunctor f w ks down close = .ok c') : Onward c c' := by
  cases f with
  | sendInLoop message => exact sendInLoop h
  | shutdownInLoop =>
      cases h
      exact of_outputStep (shutdownInLoop_spec c).1
  | forceCloseInLoop => exact forceCloseInLoop h
  | startReadInLoop =>
      cases h
      exact of_outputStep (startReadInLoop_spec c).1
  | stopReadInLoop =>
      cases h
      exact of_outputStep (stopReadInLoop_spec c).1
  | writeCompleteCallback => exact calls h
  | highWaterMarkCallback len => exact calls h

end Onward

theorem state_of_rank {s : StateE} (h : StateE.rank .kDisconnected ≤ s.rank) :
    s = .kDisconnected := by
  cases s with
  | kDisconnected => rfl
  | kConnecting => simp [StateE.rank] at h
  | kConnected => simp [StateE.rank] at h
  | kDisconnecting => simp [StateE.rank] at h

/-- The connection is going down, and something is there to bring it there. -/
def GoingDown (timers : Nat) (c : TcpConnection) : Prop :=
  StateE.rank .kDisconnecting ≤ c.state.rank ∧
    (0 < timers ∨ .forceCloseInLoop ∈ c.posted ∨ c.state = .kDisconnected)

variable {timers : Nat} {c c' : TcpConnection}

theorem GoingDown.onward (h : c.GoingDown timers) (hon : Onward c c') : c'.GoingDown timers := by
  refine ⟨Nat.le_trans h.1 hon.state, ?_⟩
  rcases h.2 with htimer | hqueued | hdown
  · exact Or.inl htimer
  · exact Or.inr (Or.inl (hon.posted.mem hqueued))
  · refine Or.inr (Or.inr (state_of_rank ?_))
    rw [← hdown]
    exact hon.state

theorem GoingDown.of_closed {tail : List ConnEvent} (h : c.Closed tail) : c.GoingDown timers := by
  refine ⟨?_, Or.inr (Or.inr h.state)⟩
  rw [h.state]
  exact Onward.rank_le _

/-- What `forceCloseInLoop` finds going down is down afterwards. -/
theorem forceCloseInLoop_down {down close : List Call}
    (hrank : StateE.rank .kDisconnecting ≤ c.state.rank)
    (h : c.forceCloseInLoop down close = .ok c') : c'.state = .kDisconnected := by
  unfold TcpConnection.forceCloseInLoop at h
  split at h
  · obtain ⟨-, h⟩ := assertThat_bind_eq_ok.mp h
    obtain ⟨d, hd, h⟩ := bind_eq_ok.mp h
    have hcalls : Onward c.takeDown d := Onward.calls hd
    have hclose : Onward (d.emit .closeCallback) c' := Onward.calls h
    exact state_of_rank (hcalls.trans (hclose.head rfl rfl)).state
  · next hno =>
      cases h
      cases hst : c.state with
      | kDisconnected => rfl
      | kConnecting => simp [hst, StateE.rank] at hrank
      | kConnected => exact absurd (Or.inl hst) hno
      | kDisconnecting => exact absurd (Or.inr hst) hno

/-- The loop takes the first functor of the queue and runs it. -/
theorem GoingDown.runFunctor (h : c.GoingDown timers) {f : ConnFunctor} {fs : List ConnFunctor}
    (hposted : c.posted = f :: fs) {w : WriteResult} {ks down close : List Call}
    (hrun : { c with posted := fs }.runFunctor f w ks down close = .ok c') :
    c'.GoingDown timers := by
  have hon := Onward.runFunctor hrun
  have hstate : c.state.rank ≤ c'.state.rank := hon.state
  refine ⟨Nat.le_trans h.1 hstate, ?_⟩
  rcases h.2 with htimer | hqueued | hdown
  · exact Or.inl htimer
  · rw [hposted, List.mem_cons] at hqueued
    rcases hqueued with rfl | hqueued
    · have hrank : StateE.rank .kDisconnecting ≤ ({ c with posted := fs } :
          TcpConnection).state.rank := h.1
      exact Or.inr (Or.inr (forceCloseInLoop_down hrank hrun))
    · exact Or.inr (Or.inl (hon.posted.mem hqueued))
  · refine Or.inr (Or.inr (state_of_rank ?_))
    rw [← hdown]
    exact hstate

theorem GoingDown.forceCloseWithDelay (h : c.forceCloseWithDelay = (c', true)) :
    c'.GoingDown (timers + 1) := by
  unfold TcpConnection.forceCloseWithDelay at h
  split at h
  · cases h
    exact ⟨Nat.le_refl _, Or.inl (Nat.succ_pos _)⟩
  · cases h

/-- The timer fires. -/
theorem GoingDown.forceClose (h : c.GoingDown timers) : c.forceClose.GoingDown (timers - 1) := by
  have hon := Onward.forceClose c
  refine ⟨Nat.le_trans h.1 hon.state, Or.inr ?_⟩
  unfold TcpConnection.forceClose
  split
  · exact Or.inl (List.mem_append_right _ (List.mem_singleton_self _))
  · next hno =>
      refine Or.inr ?_
      have hrank := h.1
      cases hst : c.state with
      | kDisconnected => rfl
      | kConnecting => simp [hst, StateE.rank] at hrank
      | kConnected => exact absurd (Or.inl hst) hno
      | kDisconnecting => exact absurd (Or.inr hst) hno

end TcpConnection

/-! ## Whole runs -/

/-- A connection, if it has not been deleted, and the timers of its delayed
closes that have not fired yet. -/
structure DelayedClose where
  object : Option LifeCycle
  timers : Nat
  /-- A delayed close has found the connection up. -/
  asked : Bool

inductive DelayedStep where
  | life (a : LifeStep)
  /-- A user, on any thread, asks for a delayed close. -/
  | forceCloseWithDelay
  /-- One of the timers fires. -/
  | timer
  /-- The last owner lets go, and `~TcpConnection` runs. -/
  | release

namespace DelayedClose

def guard (s : DelayedClose) : DelayedStep → Bool
  | .life a => match s.object with
      | some l => l.guard a
      | none => false
  | .forceCloseWithDelay => s.object.isSome
  | .timer => 0 < s.timers
  | .release => match s.object with
      | some l => l.phase = .destroyed
      | none => false

/-- A member function, called through a pointer to the connection. -/
def withObject (s : DelayedClose) (f : LifeCycle → Except Fault DelayedClose) :
    Except Fault DelayedClose :=
  match s.object with
  | some l => f l
  | none => .error .useAfterFree

def exec : DelayedStep → DelayedClose → Except Fault DelayedClose
  | .life a, s => s.withObject fun l => do
      let l ← LifeCycle.exec a l
      return { s with object := some l }
  | .forceCloseWithDelay, s => s.withObject fun l =>
      let (conn, timed) := l.conn.forceCloseWithDelay
      .ok {
        object := some { l with conn := conn }
        timers := if timed then s.timers + 1 else s.timers
        asked := s.asked || timed }
  | .timer, s => do
      let object ← weakCallback (fun l => .ok { l with conn := l.conn.forceClose }) s.object
      return { s with object := object, timers := s.timers - 1 }
  | .release, s => s.withObject fun l => do
      assertThat (l.conn.state = .kDisconnected)
      return { s with object := none }

def machine : Machine DelayedClose DelayedStep Fault := ⟨guard, exec⟩

def start (c : TcpConnection) : DelayedClose := ⟨some (LifeCycle.start c), 0, false⟩

open TcpConnection

/-- The connection lives as connections do; and once a delayed close was asked
for, it is going down. -/
structure Living (s : DelayedClose) (l : LifeCycle) : Prop where
  life : l.Inv
  asked : s.asked = true → l.phase ≠ .created ∧ l.conn.GoingDown s.timers

def Inv (s : DelayedClose) : Prop := ∀ l, s.object = some l → s.Living l

/-- A step of the connection's life does not keep it from going down. -/
theorem life_goingDown {l l' : LifeCycle} {a : LifeStep} {timers : Nat} (hi : l'.Inv)
    (hg : l.guard a = true) (he : LifeCycle.exec a l = .ok l') (hphase : l.phase ≠ .created)
    (h : l.conn.GoingDown timers) : l'.phase ≠ .created ∧ l'.conn.GoingDown timers := by
  cases a with
  | connectEstablished up =>
      simp only [LifeCycle.guard, Bool.and_eq_true, decide_eq_true_eq] at hg
      exact absurd hg.1 hphase
  | handleEvent e locked revents receiveTime =>
      obtain ⟨c, hc, he⟩ := bind_eq_ok.mp he
      cases he
      exact ⟨hphase, h.onward (Onward.handleEvent hc)⟩
  | call k =>
      obtain ⟨c, hc, he⟩ := bind_eq_ok.mp he
      cases he
      exact ⟨hphase, h.onward (Onward.call hc)⟩
  | runFunctor w ks down close =>
      have he : l.runFunctor w ks down close = .ok l' := he
      unfold LifeCycle.runFunctor at he
      split at he
      · cases he
        exact ⟨hphase, h⟩
      · next f fs hposted =>
          obtain ⟨c, hc, he⟩ := bind_eq_ok.mp he
          cases he
          exact ⟨hphase, h.runFunctor hposted hc⟩
  | connectDestroyed down =>
      obtain ⟨c, hc, he⟩ := bind_eq_ok.mp he
      cases he
      obtain ⟨tail, hclosed, -⟩ := hi
      exact ⟨by simp, .of_closed hclosed⟩

/-- A life in which `state_` has been set, or a `forceClose` queued, is a life
still. -/
theorem life_congr {l : LifeCycle} (hi : l.Inv) {c : TcpConnection}
    (hopened : l.conn.Opened → c.Opened)
    (hsame : ¬(l.conn.state = .kConnected ∨ l.conn.state = .kDisconnecting) → c = l.conn) :
    LifeCycle.Inv { l with conn := c } := by
  obtain ⟨conn, phase⟩ := l
  cases phase with
  | created =>
      have hfresh : conn.Fresh := hi
      have heq := hsame (by simp [hfresh.state])
      subst heq
      exact hi
  | live =>
      rcases hi with hopen | hclosed
      · exact Or.inl (hopened hopen)
      · have hstate : conn.state = .kDisconnected := hclosed.state
        have heq := hsame (by simp [hstate])
        subst heq
        exact Or.inr hclosed
  | destroyed =>
      obtain ⟨tail, hclosed, htail⟩ := hi
      have hstate : conn.state = .kDisconnected := hclosed.state
      have heq := hsame (by simp [hstate])
      subst heq
      exact ⟨tail, hclosed, htail⟩

theorem not_created {l : LifeCycle} (hi : l.Inv)
    (hup : l.conn.state = .kConnected ∨ l.conn.state = .kDisconnecting) : l.phase ≠ .created := by
  intro hphase
  rw [LifeCycle.Inv, hphase] at hi
  have hfresh : l.conn.Fresh := hi
  rw [hfresh.state] at hup
  simp at hup

theorem life_step {s : DelayedClose} {a : LifeStep} (hi : s.Inv)
    (hg : s.guard (.life a) = true) : ∃ t, exec (.life a) s = .ok t ∧ t.Inv := by
  cases hobject : s.object with
  | none =>
      simp only [guard, hobject] at hg
      cases hg
  | some l =>
      simp only [guard, hobject] at hg
      have hl := hi l hobject
      obtain ⟨l', he, hi'⟩ := LifeCycle.step_inv hl.life hg
      refine ⟨{ s with object := some l' }, ?_, ?_⟩
      · simp only [exec, withObject, hobject, he, ok_bind]
        rfl
      · intro l'' heq
        cases heq
        refine ⟨hi', fun hasked => ?_⟩
        obtain ⟨hphase, hdown⟩ := hl.asked hasked
        exact life_goingDown hi' hg he hphase hdown

theorem forceCloseWithDelay_step {s : DelayedClose} (hi : s.Inv)
    (hg : s.guard .forceCloseWithDelay = true) :
    ∃ t, exec .forceCloseWithDelay s = .ok t ∧ t.Inv := by
  obtain ⟨l, hobject⟩ := Option.isSome_iff_exists.mp hg
  have hl := hi l hobject
  by_cases hup : l.conn.state = .kConnected ∨ l.conn.state = .kDisconnecting
  · have hdelay : l.conn.forceCloseWithDelay = (l.conn.setState .kDisconnecting, true) :=
      if_pos hup
    refine ⟨⟨some { l with conn := l.conn.setState .kDisconnecting }, s.timers + 1, true⟩, ?_, ?_⟩
    · simp only [exec, withObject, hobject, hdelay, Bool.or_true, if_true]
    · intro l' heq
      cases heq
      have hphase := not_created hl.life hup
      refine ⟨life_congr hl.life Opened.disconnecting (absurd hup), fun _ => ?_⟩
      exact ⟨hphase, GoingDown.forceCloseWithDelay hdelay⟩
  · have hdelay : l.conn.forceCloseWithDelay = (l.conn, false) := if_neg hup
    refine ⟨s, ?_, hi⟩
    simp only [exec, withObject, hobject, hdelay, Bool.or_false]
    obtain ⟨object, timers, asked⟩ := s
    cases hobject
    rfl

theorem timer_step {s : DelayedClose} (hi : s.Inv) :
    ∃ t, exec .timer s = .ok t ∧ t.Inv := by
  cases hobject : s.object with
  | none =>
      refine ⟨{ s with timers := s.timers - 1 }, ?_, ?_⟩
      · simp only [exec, weakCallback, hobject, ok_bind]
        rfl
      · intro l heq
        cases hobject.symm.trans heq
  | some l =>
      have hl := hi l hobject
      refine ⟨⟨some { l with conn := l.conn.forceClose }, s.timers - 1, s.asked⟩, ?_, ?_⟩
      · simp only [exec, weakCallback, hobject, ok_bind]
        rfl
      · intro l' heq
        cases heq
        refine ⟨life_congr hl.life (fun h => h.forceClose.1) fun hno => if_neg hno,
          fun hasked => ?_⟩
        obtain ⟨hphase, hdown⟩ := hl.asked hasked
        exact ⟨hphase, hdown.forceClose⟩

/-- The assertion of the destructor holds: `connectDestroyed` has left the
connection `kDisconnected`. -/
theorem release_step {s : DelayedClose} (hi : s.Inv) (hg : s.guard .release = true) :
    ∃ t, exec .release s = .ok t ∧ t.Inv := by
  cases hobject : s.object with
  | none =>
      simp only [guard, hobject] at hg
      cases hg
  | some l =>
      simp only [guard, hobject, decide_eq_true_eq] at hg
      have hlife := (hi l hobject).life
      unfold LifeCycle.Inv at hlife
      rw [hg] at hlife
      obtain ⟨tail, hclosed, -⟩ := hlife
      refine ⟨{ s with object := none }, ?_, ?_⟩
      · simp only [exec, withObject, hobject, assertThat_of hclosed.state, ok_bind]
        rfl
      · intro l' heq
        cases heq

/-- Every step on offer is taken to its end, and keeps the invariant. -/
theorem step_inv {s : DelayedClose} {a : DelayedStep} (hi : s.Inv) (hg : s.guard a = true) :
    ∃ t, exec a s = .ok t ∧ t.Inv := by
  cases a with
  | life a => exact life_step hi hg
  | forceCloseWithDelay => exact forceCloseWithDelay_step hi hg
  | timer => exact timer_step hi
  | release => exact release_step hi hg

theorem reaches_inv {c : TcpConnection} (hc : c.Fresh) {s : DelayedClose}
    (hr : machine.Reaches (start c) s) : s.Inv := by
  have hstart : (start c).Inv := by
    intro l heq
    cases heq
    exact ⟨hc, fun hasked => by cases hasked⟩
  refine hr.invariant (I := Inv) hstart ?_
  intro s t a hi hg he
  obtain ⟨t', ht', hi'⟩ := step_inv hi hg
  cases ht'.symm.trans he
  exact hi'

/-- What the log of a life says about going down. -/
theorem life_down {l : LifeCycle} (hi : l.Inv) :
    l.conn.log.count (.connectionCallback false) ≤ 1 ∧ l.conn.log.count .closeCallback ≤ 1 ∧
      (l.conn.state = .kDisconnected → .connectionCallback false ∈ l.conn.log) := by
  have hclosed : ∀ {tail}, l.conn.Closed tail → (tail = [] ∨ tail = [.closeCallback]) →
      l.conn.log.count (.connectionCallback false) ≤ 1 ∧ l.conn.log.count .closeCallback ≤ 1 ∧
        (l.conn.state = .kDisconnected → .connectionCallback false ∈ l.conn.log) := by
    intro tail h htail
    obtain ⟨hdown, hclose, -⟩ := closed_log_law h htail
    obtain ⟨pre, hlog, -⟩ := h.down
    refine ⟨hdown, hclose, fun _ => ?_⟩
    rw [hlog]
    exact List.mem_append_right _ List.mem_cons_self
  unfold LifeCycle.Inv at hi
  split at hi
  · rw [hi.log, hi.state]
    exact ⟨by simp, by simp, fun h => by cases h⟩
  · rcases hi with hopen | h
    · refine ⟨?_, ?_, fun h => ?_⟩
      · rw [List.count_eq_zero.mpr hopen.down]
        exact Nat.zero_le _
      · rw [List.count_eq_zero.mpr hopen.close]
        exact Nat.zero_le _
      · rcases hopen.state with hst | hst
        · cases hst.symm.trans h
        · cases hst.symm.trans h
    · exact hclosed h (Or.inr rfl)
  · obtain ⟨tail, h, htail⟩ := hi
    exact hclosed h htail

/-- However delayed closes race with the peer, the user's other calls and the
owners that let go: no step on offer makes an assertion fail, and no timer uses
a connection that is gone. DOWN and the close are called once at most. From the
first delayed close on the connection is not connected any more; and when the
timers have fired and the loop has run what they have queued, it is down, and
DOWN has been called. What is on offer is what `LifeCycle.guard` says: a
`connectDestroyed` finds the connection closed or `kConnected`, and functors
run while it lives. -/
theorem delayed_close {c : TcpConnection} (hc : c.Fresh) {s : DelayedClose}
    (hr : machine.Reaches (start c) s) :
    machine.Safe s ∧ ∀ l, s.object = some l →
      (l.conn.log.count (.connectionCallback false) ≤ 1 ∧
        l.conn.log.count .closeCallback ≤ 1) ∧
      (s.asked = true → l.conn.state ≠ .kConnected ∧
        (s.timers = 0 → .forceCloseInLoop ∉ l.conn.posted →
          l.conn.state = .kDisconnected ∧
            l.conn.log.count (.connectionCallback false) = 1)) := by
  have hi := reaches_inv hc hr
  refine ⟨?_, fun l hobject => ?_⟩
  · intro a hg
    obtain ⟨t, ht, -⟩ := step_inv hi hg
    exact ⟨t, ht⟩
  · have hl := hi l hobject
    obtain ⟨hdown, hclose, hmem⟩ := life_down hl.life
    refine ⟨⟨hdown, hclose⟩, fun hasked => ?_⟩
    obtain ⟨-, hrank, hgoing⟩ := hl.asked hasked
    refine ⟨fun hst => by simp [hst, StateE.rank] at hrank, fun htimers hqueue => ?_⟩
    rcases hgoing with htimer | hqueued | hst
    · omega
    · exact absurd hqueued hqueue
    · have hpos := List.count_pos_iff.mpr (hmem hst)
      exact ⟨hst, by omega⟩

/-- Two delayed closes. The first timer has the connection closed, with a send
in vain before it; the second finds it closed. -/
def twoDelays : List DelayedStep :=
  [.life (.connectEstablished []), .forceCloseWithDelay, .forceCloseWithDelay,
    .life (.call (.send false [1] (.wrote 0))), .timer,
    .life (.runFunctor (.wrote 0) [] [] []), .timer]

theorem delayed_close_twoDelays :
    ∃ s l, machine.run twoDelays (start small) = some s ∧ s.object = some l ∧
      l.conn.state = .kDisconnected ∧ l.conn.log.count (.connectionCallback false) = 1 := by
  obtain ⟨s, l, hr, hobject, hasked, htimers, hqueue⟩ : ∃ s l,
      machine.run twoDelays (start small) = some s ∧ s.object = some l ∧ s.asked = true ∧
        s.timers = 0 ∧ l.conn.posted = [] := ⟨_, _, rfl, rfl, rfl, rfl, rfl⟩
  obtain ⟨-, hlaw⟩ := delayed_close small_fresh ⟨twoDelays, hr⟩
  obtain ⟨-, hdown⟩ := (hlaw l hobject).2 hasked
  exact ⟨s, l, hr, hobject, hdown htimers (by rw [hqueue]; simp)⟩

end DelayedClose

end Libanet.Net
