import Libanet.Lib.Outcome
import Libanet.Net.ServerLife
import Libanet.Proofs.ConnTeardown

/-!
# What user code and handlers leave alone

Most of what runs on a loop changes one connection at a time, and of it neither
the loop nor the name; and a channel, once its poller has it, stays there until
`connectDestroyed` takes it away. `Kept` says so of a connection, and every
function of `TcpConnection` that the loops and the users call obeys it.

A condition on the whole system that such changes keep is a `Frame`. The
functions around the callbacks then keep it as well, as soon as the callback
does, and what remains to be shown of a particular condition is what accepting,
removing and destroying do to it.
-/

namespace Libanet.Net

namespace Channel

@[simp] theorem registered_update (c : Channel) : c.update.registered = true := by
  simp [registered, update]

end Channel

/-! ## One connection -/

namespace TcpConnection

/-- The connection is where it was, under its name, and its poller still has
its channel. -/
structure Kept (c c' : TcpConnection) : Prop where
  loop : c'.loop = c.loop
  name : c'.name = c.name
  registered : c.channel.registered = true → c'.channel.registered = true

namespace Kept

variable {c c' d : TcpConnection}

theorem refl (c : TcpConnection) : Kept c c := ⟨rfl, rfl, id⟩

theorem trans (h₁ : Kept c d) (h₂ : Kept d c') : Kept c c' :=
  ⟨h₂.loop.trans h₁.loop, h₂.name.trans h₁.name, fun h => h₂.registered (h₁.registered h)⟩

theorem setState (c : TcpConnection) (s : StateE) : Kept c (c.setState s) := ⟨rfl, rfl, id⟩

theorem emit (c : TcpConnection) (e : ConnEvent) : Kept c (c.emit e) := ⟨rfl, rfl, id⟩

theorem queueInLoop (c : TcpConnection) (f : ConnFunctor) : Kept c (c.queueInLoop f) :=
  ⟨rfl, rfl, id⟩

theorem goDown (c : TcpConnection) : Kept c c.goDown :=
  ⟨rfl, rfl, fun _ => Channel.registered_update _⟩

/-- The output side changes no more of a channel than its interest. -/
theorem of_outputStep (hs : OutputStep c c') (hk : KeepsReading c c') : Kept c c' := by
  refine ⟨hs.loop, hs.name, fun h => ?_⟩
  rcases hk.channel with hch | hch | ⟨-, hch⟩
  · rw [hch]
    exact h
  · rw [hch]
    exact Channel.registered_update _
  · rw [hch]
    exact Channel.registered_update _

theorem sendInLoop {data : List UInt8} {w : WriteResult}
    (h : c.sendInLoop data w = .ok c') : Kept c c' := by
  obtain ⟨d, hd, hs, -⟩ := sendInLoop_spec c data w
  cases hd.symm.trans h
  exact of_outputStep hs (sendInLoop_keepsReading h)

theorem shutdownInLoop (c : TcpConnection) : Kept c c.shutdownInLoop := by
  obtain ⟨hs, hch, -⟩ := shutdownInLoop_spec c
  exact ⟨hs.loop, hs.name, fun h => by rwa [hch]⟩

theorem startReadInLoop (c : TcpConnection) : Kept c c.startReadInLoop := by
  unfold TcpConnection.startReadInLoop
  split
  · exact ⟨rfl, rfl, fun _ => Channel.registered_update _⟩
  · exact refl c

theorem stopReadInLoop (c : TcpConnection) : Kept c c.stopReadInLoop := by
  unfold TcpConnection.stopReadInLoop
  split
  · exact ⟨rfl, rfl, fun _ => Channel.registered_update _⟩
  · exact refl c

theorem call {k : Call} (h : c.call k = .ok c') : Kept c c' := by
  cases k with
  | send inLoop message w =>
      simp only [TcpConnection.call, send] at h
      split at h
      · split at h
        · exact sendInLoop h
        · cases h
          exact queueInLoop c _
      · cases h
        exact refl c
  | shutdown inLoop =>
      cases h
      unfold TcpConnection.shutdown
      split
      · dsimp only
        split
        · exact (setState c _).trans (shutdownInLoop _)
        · exact (setState c _).trans (queueInLoop _ _)
      · exact refl c
  | forceClose =>
      cases h
      unfold TcpConnection.forceClose
      split
      · exact (setState c _).trans (queueInLoop _ _)
      · exact refl c
  | startRead inLoop =>
      cases h
      unfold startRead
      split
      · exact startReadInLoop c
      · exact queueInLoop c _
  | stopRead inLoop =>
      cases h
      unfold stopRead
      split
      · exact stopReadInLoop c
      · exact queueInLoop c _

theorem calls {ks : List Call} (h : c.calls ks = .ok c') : Kept c c' := by
  induction ks generalizing c with
  | nil =>
      cases h
      exact refl _
  | cons k ks ih =>
      obtain ⟨d, hd, h⟩ := bind_eq_ok.mp h
      exact (call hd).trans (ih h)

theorem outputWritten {n : Nat} (hw : c.channel.isWriting = true)
    (h : c.outputWritten n = .ok c') : Kept c c' := by
  have hk := outputWritten_keepsReading hw h
  obtain ⟨b, -, h⟩ := bind_eq_ok.mp h
  dsimp only at h
  split at h
  · cases h
    have hs := (outputDrained_spec { c with outputBuffer := b }).1
    exact of_outputStep (hs.head rfl rfl rfl rfl rfl) hk
  · cases h
    exact ⟨rfl, rfl, id⟩

theorem handleWrite {w : WriteResult} (h : c.handleWrite w = .ok c') : Kept c c' := by
  unfold TcpConnection.handleWrite at h
  split at h
  · next hw =>
      cases w with
      | failed err =>
          cases h
          exact ⟨rfl, rfl, id⟩
      | wrote n =>
          dsimp only at h
          split at h
          · have hk := outputWritten
              (c := { c with socket := c.socket.write c.outputBuffer.readable (.wrote n) }) hw h
            exact ⟨hk.loop, hk.name, hk.registered⟩
          · cases h
            exact ⟨rfl, rfl, id⟩
  · cases h
    exact refl c

/-- A functor of the connection other than `forceCloseInLoop`. -/
theorem runFunctor {f : ConnFunctor} {w : WriteResult} {ks down close : List Call}
    (hf : f ≠ .forceCloseInLoop) (h : c.runFunctor f w ks down close = .ok c') : Kept c c' := by
  cases f with
  | sendInLoop message => exact sendInLoop h
  | shutdownInLoop =>
      cases h
      exact shutdownInLoop c
  | forceCloseInLoop => exact absurd rfl hf
  | startReadInLoop =>
      cases h
      exact startReadInLoop c
  | stopReadInLoop =>
      cases h
      exact stopReadInLoop c
  | writeCompleteCallback => exact calls h
  | highWaterMarkCallback len => exact calls h

end Kept

end TcpConnection

/-! ## The system -/

theorem ends_inCode {α : Type} {bad : ServerFault → Prop} (hbad : ∀ f, ¬bad (.fault f))
    {Q : α → Prop} {x : Except Fault α} (h : ∀ a, x = .ok a → Q a) :
    EndsIn bad Q (inCode x) := by
  cases x with
  | ok a => exact h a rfl
  | error f => exact hbad f

theorem ends_assertThat {bad : ServerFault → Prop} (hbad : ∀ f, ¬bad (.fault f))
    (p : Prop) [Decidable p] : EndsIn bad (fun _ => p) (inCode (assertThat p)) :=
  ends_inCode hbad fun _ h => assertThat_eq_ok.mp h

namespace ServerLife

/-- A condition that changes of single connections keep, looked at by someone
to whom the faults of the code are all the same. -/
structure Frame (bad : ServerFault → Prop) (I : ServerLife → Prop) : Prop where
  fault : ∀ f, ¬bad (.fault f)
  store : ∀ {s : ServerLife} {id : Nat} {c : TcpConnection}, I s → (s.conn id).Kept c →
    I (s.store id c)
  record : ∀ {s : ServerLife} {l id : Nat} {r : ConnRun}, I s → r ≠ .connectDestroyed →
    I (s.record l id r)

/-- The user code destroys the server. -/
def destroys (as : List UserAct) : Bool :=
  as.any fun a => match a with | .destroy _ => true | .call _ _ => false

namespace Frame

variable {bad : ServerFault → Prop} {I : ServerLife → Prop} {l id : Nat}

theorem call (F : Frame bad I) (id : Nat) (k : Call) : Keeps bad I (call id k) := by
  intro s hs
  refine (ends_inCode F.fault (Q := (s.conn id).Kept) fun c hc => .call hc).bind ?_
  intro c hc
  exact F.store hs hc

theorem calls (F : Frame bad I) (ks : List (Nat × Call)) : Keeps bad I (calls ks) := by
  induction ks with
  | nil => exact fun s hs => hs
  | cons p ks ih =>
      obtain ⟨id, k⟩ := p
      exact fun s hs => (F.call id k s hs).bind ih

theorem userCode (F : Frame bad I) {as : List UserAct}
    (hd : destroys as = true → ∀ down, Keeps bad I (destroy l down)) :
    Keeps bad I (userCode l as) := by
  induction as with
  | nil => exact fun s hs => hs
  | cons a as ih =>
      have hrest := ih fun h => hd (by simp only [destroys, List.any_cons] at h ⊢; simp [h])
      intro s hs
      refine EndsIn.bind ?_ hrest
      cases a with
      | call id k => exact F.call id k s hs
      | destroy down => exact hd rfl down s hs

theorem leaveConnected (F : Frame bad I) {callback : ServerLife → Except ServerFault ServerLife}
    (hc : Keeps bad I callback) : Keeps bad I (leaveConnected id callback) := by
  intro s hs
  exact .ite (fun _ => hc _ (F.store hs (.goDown _))) fun _ => hs

theorem handleClose (F : Frame bad I) {down : List UserAct}
    (hdown : Keeps bad I (ServerLife.userCode l down))
    (hremove : Keeps bad I (removeConnection l id)) :
    Keeps bad I (handleClose l id down) := by
  intro s hs
  refine (ends_assertThat F.fault _).bind fun _ _ => ?_
  refine (hdown _ (F.store hs (.goDown _))).bind fun t ht => ?_
  exact hremove _ (F.record (F.store ht (.emit _ _)) (by decide))

theorem handleRead (F : Frame bad I) {e : LoopInput}
    (hmessage : Keeps bad I (ServerLife.userCode l e.message))
    (hclose : e.read = .eof → Keeps bad I (ServerLife.handleClose l id e.down)) :
    Keeps bad I (handleRead l id e) := by
  intro s hs
  unfold ServerLife.handleRead
  cases hr : e.read with
  | data => exact hmessage _ (F.store hs (.emit _ _))
  | eof => exact hclose hr s hs
  | failed => exact hs

theorem handleWrite (F : Frame bad I) (w : WriteResult) : Keeps bad I (handleWrite id w) := by
  intro s hs
  refine (ends_inCode F.fault (Q := (s.conn id).Kept) fun c hc => .handleWrite hc).bind ?_
  intro c hc
  exact F.store hs hc

theorem fire {cond : Bool} {callback : ServerLife → Except ServerFault ServerLife}
    (hc : cond = true → Keeps bad I callback) : Keeps bad I (fire cond callback) :=
  fun s hs => .ite (fun h => hc h s hs) fun _ => hs

theorem connectEstablished (F : Frame bad I) {up : List UserAct}
    (hup : Keeps bad I (ServerLife.userCode l up)) :
    Keeps bad I (connectEstablished l id up) := by
  intro s hs
  refine (ends_assertThat F.fault _).bind fun _ _ => ?_
  refine (ends_assertThat F.fault _).bind fun _ _ => ?_
  refine hup _ (F.record (F.store hs ⟨rfl, rfl, fun _ => ?_⟩) (by decide))
  exact Channel.registered_update _

theorem forceCloseInLoop {down : List UserAct}
    (hclose : Keeps bad I (ServerLife.handleClose l id down)) :
    Keeps bad I (forceCloseInLoop l id down) :=
  fun s hs => .ite (fun _ => hclose s hs) fun _ => hs

theorem runConnFunctor (F : Frame bad I) {e : LoopInput} (f : ConnFunctor)
    (huser : Keeps bad I (ServerLife.userCode l e.user))
    (hclose : f = .forceCloseInLoop → Keeps bad I (ServerLife.forceCloseInLoop l id e.down)) :
    Keeps bad I fun s => s.runConnFunctor l id e f := by
  intro s hs
  have hother : ∀ g : ConnFunctor, g ≠ .forceCloseInLoop → EndsIn bad I (do
      inCode (Libanet.assertThat ((s.conn id).loop = l))
      let c ← inCode ((s.conn id).runFunctor g e.write [] [] [])
      return s.store id c) := by
    intro g hg
    refine (ends_assertThat F.fault _).bind fun _ _ => ?_
    refine (ends_inCode F.fault (Q := (s.conn id).Kept) fun c hc => .runFunctor hg hc).bind ?_
    intro c hc
    exact F.store hs hc
  cases f with
  | writeCompleteCallback => exact huser s hs
  | highWaterMarkCallback len => exact huser s hs
  | forceCloseInLoop =>
      refine (ends_assertThat F.fault _).bind fun _ _ => ?_
      exact hclose rfl s hs
  | sendInLoop message => exact hother _ (by simp)
  | shutdownInLoop => exact hother _ (by simp)
  | startReadInLoop => exact hother _ (by simp)
  | stopReadInLoop => exact hother _ (by simp)

end Frame

/-- What is in the map after one connection went was there before. -/
theorem connections_of_reset {s : ServerLife} {id k : Nat} {n : String}
    (h : (s.reset id).server.connections n = some k) : s.server.connections n = some k := by
  have h : (if n = (s.conn id).name then none else s.server.connections n) = some k := h
  split at h
  · cases h
  · exact h

end ServerLife

end Libanet.Net
