import Libanet.Proofs.ServerFrame

/-!
# No channel is removed while it waits to be dispatched

A loop goes through `activeChannels_` and calls one handler after the other.
What a handler does may take a channel from the poller that the loop has not
come to yet. `removeChannel` asserts that this does not happen, and a bit more:
the channel it removes is the one whose handler is running, or is not among the
active ones at all.

The close of a connection is safe, whoever asks for it: `connectDestroyed` is
queued, and functors run when the dispatch is over. `~TcpServer` is not. It
destroys the connections of its own loop on the spot, all of them, and takes
the acceptor's channel as well. If user code destroys the server from a
callback, the assert holds when of the active channels none but the one being
handled belongs to the server; with two connections ready at once, it fails
(`destroy_asserts`).

What is kept over a run is that the channels a loop has still to come to are
registered and are its own. Under the condition on destruction no step removes
one of them, because the assert passes.
-/

namespace Libanet.Net

namespace ServerLife

/-! ## The condition -/

/-- The channel belongs to the server, and goes with it. -/
def owned (s : ServerLife) : LoopChannel → Bool
  | .acceptChannel => true
  | .connection id => decide (s.server.connections (s.conn id).name = some id)
  | .other _ => false

end ServerLife

/-- Some callback destroys the server. -/
def LoopInput.destroys (e : LoopInput) : Bool :=
  ServerLife.destroys e.up || ServerLife.destroys e.message ||
    ServerLife.destroys e.down || ServerLife.destroys e.user

namespace ServerLife

/-- A handler may destroy the server when no active channel but its own
belongs to it. -/
def sparesActive (s : ServerLife) : LifeAction → Bool
  | .handleEvent l e =>
      !(s.alive && e.destroys && l == s.server.loop) ||
        (s.dispatch l).activeChannels.all fun ch =>
          (s.dispatch l).todo.head? == some ch || !s.owned ch
  | _ => true

/-! ## The invariant -/

theorem hasChannel_connection (s : ServerLife) (id : Nat) :
    s.hasChannel (.connection id) = (s.conn id).channel.registered := rfl

theorem ofLoop_acceptChannel {s : ServerLife} {l : Nat} :
    s.ofLoop l .acceptChannel = true ↔ s.server.loop = l := by
  simp [ofLoop]

theorem ofLoop_connection {s : ServerLife} {l id : Nat} :
    s.ofLoop l (.connection id) = true ↔ id < s.server.accepted ∧ (s.conn id).loop = l := by
  simp [ofLoop]

theorem owned_connection {s : ServerLife} {id : Nat} :
    s.owned (.connection id) = true ↔ s.server.connections (s.conn id).name = some id := by
  simp [owned]

end ServerLife

namespace Dispatch

/-- `todo` is what is left of the channels of an iteration. -/
structure Ok (d : Dispatch) : Prop where
  idle : d.eventHandling = false → d.todo = []
  active : ∀ ch ∈ d.todo, ch ∈ d.activeChannels
  nodup : d.todo.Nodup
  current : ∀ ch, d.currentActiveChannel = some ch → ch ∉ d.todo

theorem mayRemove_iff {d : Dispatch} {ch : LoopChannel} :
    d.mayRemove ch = true ↔ (d.eventHandling = true → ch ∈ d.activeChannels →
      d.currentActiveChannel = some ch) := by
  unfold mayRemove
  cases d.eventHandling with
  | false => simp
  | true =>
      by_cases hc : d.currentActiveChannel = some ch
      · simp [hc]
      · simp [hc]

/-- What may be removed is not waiting. -/
theorem Ok.not_mem_todo {d : Dispatch} (h : d.Ok) {ch : LoopChannel}
    (hm : d.mayRemove ch = true) : ch ∉ d.todo := by
  intro hch
  cases hev : d.eventHandling with
  | false =>
      rw [h.idle hev] at hch
      cases hch
  | true => exact h.current ch (mayRemove_iff.mp hm hev (h.active ch hch)) hch

end Dispatch

namespace ServerLife

/-- Between the polls of a loop and inside a step of one: where the loops are
in their iterations is `d`. `P` says whether the step may destroy the server,
on its loop `base`. -/
structure Inv (base : Nat) (d : Nat → Dispatch) (P : Prop) (s : ServerLife) : Prop where
  loop : s.server.loop = base
  dispatch : s.dispatch = d
  ok : ∀ l, (d l).Ok
  todo : ∀ l, ∀ ch ∈ (d l).todo, s.hasChannel ch = true ∧ s.ofLoop l ch = true
  accepted : ∀ l id, .connection id ∈ (d l).activeChannels → id < s.server.accepted
  spared : P → s.alive = true → ∀ ch, s.owned ch = true → (d base).mayRemove ch = true

/-- The assert of `removeChannel` fails. -/
def removalFails : ServerFault → Prop
  | .removeChannel _ => True
  | _ => False

section

variable {base l id : Nat} {d : Nat → Dispatch} {P : Prop}

/-- A change that removes none of the channels still to come, and gives the
server no channel that is active. -/
theorem Inv.of_kept {s t : ServerLife} (hi : s.Inv base d P) (hd : t.dispatch = s.dispatch)
    (hl : t.server.loop = s.server.loop) (ha : t.alive = true → s.alive = true)
    (hn : s.server.accepted ≤ t.server.accepted)
    (htodo : ∀ k, ∀ ch ∈ (d k).todo, s.hasChannel ch = true → s.ofLoop k ch = true →
      t.hasChannel ch = true ∧ t.ofLoop k ch = true)
    (hown : ∀ ch, t.owned ch = true → s.owned ch = true ∨ (d base).mayRemove ch = true) :
    t.Inv base d P where
  loop := hl.trans hi.loop
  dispatch := hd.trans hi.dispatch
  ok := hi.ok
  todo k ch hch := by
    obtain ⟨hhas, hof⟩ := hi.todo k ch hch
    exact htodo k ch hch hhas hof
  accepted k i hk := Nat.lt_of_lt_of_le (hi.accepted k i hk) hn
  spared hP halive ch ho := by
    rcases hown ch ho with ho | hm
    · exact hi.spared hP (ha halive) ch ho
    · exact hm

theorem conn_store_self (s : ServerLife) (id : Nat) (c : TcpConnection) :
    (s.store id c).conn id = { c with posted := [] } := if_pos rfl

theorem conn_store_of_ne (s : ServerLife) {id k : Nat} (c : TcpConnection) (h : k ≠ id) :
    (s.store id c).conn k = s.conn k := if_neg h

/-- Where a connection is and what it is called stays. -/
theorem loop_name_store {s : ServerLife} {c : TcpConnection} (hl : c.loop = (s.conn id).loop)
    (hn : c.name = (s.conn id).name) (k : Nat) :
    ((s.store id c).conn k).loop = (s.conn k).loop ∧
      ((s.store id c).conn k).name = (s.conn k).name := by
  by_cases hk : k = id
  · subst hk
    rw [conn_store_self]
    exact ⟨hl, hn⟩
  · rw [conn_store_of_ne s c hk]
    exact ⟨rfl, rfl⟩

theorem ofLoop_store {s : ServerLife} {c : TcpConnection} (hl : c.loop = (s.conn id).loop)
    (hn : c.name = (s.conn id).name) (k : Nat) (ch : LoopChannel) :
    (s.store id c).ofLoop k ch = s.ofLoop k ch := by
  cases ch with
  | acceptChannel => rfl
  | other n => rfl
  | connection i =>
      simp only [ofLoop, loop_name_store hl hn i]
      rfl

theorem owned_store {s : ServerLife} {c : TcpConnection} (hl : c.loop = (s.conn id).loop)
    (hn : c.name = (s.conn id).name) (ch : LoopChannel) :
    (s.store id c).owned ch = s.owned ch := by
  cases ch with
  | acceptChannel => rfl
  | other n => rfl
  | connection i =>
      simp only [owned, loop_name_store hl hn i]
      rfl

/-- A connection may be changed if its channel stays registered, or is not
waiting on any loop. -/
theorem Inv.store {s : ServerLife} (hi : s.Inv base d P) {c : TcpConnection}
    (hl : c.loop = (s.conn id).loop) (hn : c.name = (s.conn id).name)
    (hr : ∀ k, .connection id ∈ (d k).todo → c.channel.registered = true) :
    (s.store id c).Inv base d P := by
  refine hi.of_kept rfl rfl (fun h => h) (Nat.le_refl _) ?_ ?_
  · intro k ch hch hhas hof
    rw [ofLoop_store hl hn]
    refine ⟨?_, hof⟩
    cases ch with
    | acceptChannel => exact hhas
    | other n => rfl
    | connection i =>
        show ((s.store id c).conn i).channel.registered = true
        by_cases hik : i = id
        · subst hik
          rw [conn_store_self]
          exact hr k hch
        · rw [conn_store_of_ne s c hik]
          exact hhas
  · intro ch ho
    rw [owned_store hl hn] at ho
    exact .inl ho

/-- A server whose map has lost entries. -/
theorem Inv.withServer {s : ServerLife} (hi : s.Inv base d P) {server : TcpServer}
    (hl : server.loop = s.server.loop) (hn : server.accepted = s.server.accepted)
    (hc : server.conn = s.server.conn)
    (hm : ∀ n id, server.connections n = some id → s.server.connections n = some id) :
    Inv base d P { s with server := server } := by
  have hconn : ∀ k, conn { s with server := server } k = s.conn k := congrFun hc
  refine hi.of_kept rfl hl (fun h => h) (Nat.le_of_eq hn.symm) ?_ ?_
  · intro k ch _ hhas hof
    cases ch with
    | acceptChannel =>
        exact ⟨hhas, ofLoop_acceptChannel.mpr (hl.trans (ofLoop_acceptChannel.mp hof))⟩
    | other n => exact ⟨rfl, rfl⟩
    | connection i =>
        rw [hasChannel_connection, ofLoop_connection, hconn i, hn]
        exact ⟨hhas, ofLoop_connection.mp hof⟩
  · intro ch ho
    left
    cases ch with
    | acceptChannel => rfl
    | other n => exact ho
    | connection i =>
        have ho := owned_connection.mp ho
        rw [hconn i] at ho
        exact owned_connection.mpr (hm _ _ ho)

theorem Inv.record {s : ServerLife} (hi : s.Inv base d P) (l id : Nat) (r : ConnRun) :
    (s.record l id r).Inv base d P :=
  hi.withServer rfl rfl rfl fun _ _ h => h

theorem frame : Frame removalFails (Inv base d P) where
  fault _ h := h
  store hi hc := hi.store hc.loop hc.name fun k hk => hc.registered (hi.todo k _ hk).1
  record hi _ := hi.record _ _ _

/-! ## Removing a channel -/

theorem ends_removeChannel {s : ServerLife} {ch : LoopChannel}
    (hm : (s.dispatch l).mayRemove ch = true) :
    EndsIn removalFails (fun _ => True) (s.removeChannel l ch) := by
  unfold removeChannel
  rw [if_pos hm]
  exact ends_inCode (fun _ h => h) fun _ _ => trivial

/-- `connectDestroyed`, on a connection whose channel is not waiting on its
loop, and so on none. -/
theorem connectDestroyed_ends {callback : ServerLife → Except ServerFault ServerLife}
    (hm : (d l).mayRemove (.connection id) = true)
    (hc : Keeps removalFails (Inv base d P) callback) :
    Keeps removalFails (Inv base d P) (connectDestroyed l id callback) := by
  have F : Frame removalFails (Inv base d P) := frame
  intro s hi
  refine (ends_assertThat F.fault _).bind fun _ hloop => ?_
  have hnot : ∀ k, .connection id ∉ (d k).todo := by
    intro k hk
    have hof := ofLoop_connection.mp (hi.todo k _ hk).2
    have hkl : k = l := hof.2.symm.trans hloop
    exact (hi.ok l).not_mem_todo hm (hkl ▸ hk)
  refine (F.leaveConnected hc s hi).bind fun t ht => ?_
  refine (ends_inCode F.fault (Q := fun _ => True) fun _ _ => trivial).bind fun ch _ => ?_
  refine EndsIn.bind (ends_removeChannel (by rw [ht.dispatch]; exact hm)) fun _ _ => ?_
  exact (ht.store (c := { t.conn id with channel := ch }) rfl rfl
    fun k hk => absurd hk (hnot k)).record _ _ _

/-! ## Destroying the server -/

theorem Inv.reset {s : ServerLife} (hi : s.Inv base d P) (id : Nat) :
    (s.reset id).Inv base d P :=
  hi.withServer rfl rfl rfl fun _ _ => connections_of_reset

theorem Inv.queueInLoop {s : ServerLife} (hi : s.Inv base d P) (k : Nat) (f : ServerFunctor) :
    Inv base d P { s with server := s.server.queueInLoop k f } :=
  hi.withServer rfl rfl rfl fun _ _ h => h

theorem dropConnection_ends {down : Nat → List (Nat × Call)}
    (hm : (d l).mayRemove (.connection id) = true) {s : ServerLife} (hi : s.Inv base d P) :
    EndsIn removalFails (Inv base d P) (s.dropConnection l down id) := by
  refine .ite (fun _ => ?_) fun _ => ?_
  · exact connectDestroyed_ends hm (frame.calls _) _ (hi.reset id)
  · exact (hi.reset id).queueInLoop _ _

theorem owned_of_mem_connectionList {s : ServerLife} (hid : id ∈ s.connectionList) :
    s.owned (.connection id) = true := by
  rw [connectionList, List.mem_insertionSort, List.mem_filter] at hid
  exact owned_connection.mpr (of_decide_eq_true hid.2)

theorem Inv.dead {s : ServerLife} (hi : s.Inv base d P) :
    Inv base d P { s with alive := false } :=
  hi.of_kept rfl rfl (fun h => by cases h) (Nat.le_refl _) (fun _ _ _ h₁ h₂ => ⟨h₁, h₂⟩)
    fun _ h => .inl h

/-- The acceptor's channel may be changed if it stays registered, or is not
waiting. -/
theorem Inv.withAcceptChannel {s : ServerLife} (hi : s.Inv base d P) {ch : Channel}
    (hr : .acceptChannel ∈ (d base).todo → ch.registered = true) :
    Inv base d P { s with acceptChannel := ch } := by
  refine hi.of_kept rfl rfl (fun h => h) (Nat.le_refl _) ?_ fun _ h => .inl h
  intro k x hx hhas hof
  refine ⟨?_, hof⟩
  cases x with
  | acceptChannel =>
      have hk : base = k := hi.loop.symm.trans (ofLoop_acceptChannel.mp hof)
      exact hr (hk ▸ hx)
  | other n => rfl
  | connection i => exact hhas

theorem destroyAcceptor_ends (hm : (d base).mayRemove .acceptChannel = true) :
    Keeps removalFails (Inv base d P) (destroyAcceptor base) := by
  have F : Frame removalFails (Inv base d P) := frame
  intro s hi
  have hdown : Inv base d P { s with acceptChannel := s.acceptChannel.disableAll } :=
    hi.withAcceptChannel fun _ => Channel.registered_update _
  refine (ends_inCode F.fault (Q := fun _ => True) fun _ _ => trivial).bind fun ch _ => ?_
  refine EndsIn.bind (ends_removeChannel (by rw [hi.dispatch]; exact hm)) fun _ _ => ?_
  refine (ends_assertThat F.fault _).bind fun _ _ => ?_
  exact hdown.withAcceptChannel fun h => absurd h ((hi.ok base).not_mem_todo hm)

/-- `~TcpServer`, where the step may run it on the base loop. Elsewhere it
faults at once. -/
theorem destroy_ends (hP : l = base → P) (down : Nat → List (Nat × Call)) :
    Keeps removalFails (Inv base d P) (destroy l down) := by
  have F : Frame removalFails (Inv base d P) := frame
  intro s hi
  unfold destroy
  split
  · exact fun h => h
  · next halive =>
      refine (ends_assertThat F.fault _).bind fun _ hl => ?_
      have hl : l = base := hl.trans hi.loop
      subst hl
      have hm := hi.spared (hP rfl) (by simpa using halive)
      refine EndsIn.bind (P := fun t => Inv l d P t) ?_ fun t ht =>
        destroyAcceptor_ends (hm .acceptChannel rfl) _ ht.dead
      refine (EndsIn.foldlM (I := fun ids t => Inv l d P t ∧
        ∀ id ∈ ids, (d l).mayRemove (.connection id) = true) ?_ ⟨hi, ?_⟩).mono fun t ht => ht.1
      · rintro id ids t ⟨ht, hids⟩
        refine (dropConnection_ends (hids id List.mem_cons_self) ht).mono fun u hu => ?_
        exact ⟨hu, fun k hk => hids k (List.mem_cons_of_mem id hk)⟩
      · exact fun id hid => hm _ (owned_of_mem_connectionList hid)

/-! ## Accepting and closing -/

theorem userCode_keeps {as : List UserAct} (hP : destroys as = true → l = base → P) :
    Keeps removalFails (Inv base d P) (userCode l as) :=
  frame.userCode fun h down => destroy_ends (hP h) down

theorem Inv.removeConnectionInLoop {s : ServerLife} (hi : s.Inv base d P) {server : TcpServer}
    (h : s.server.removeConnectionInLoop l id = .ok server) :
    Inv base d P { s with server := server } := by
  obtain ⟨-, h⟩ := assertThat_bind_eq_ok.mp h
  obtain ⟨-, h⟩ := assertThat_bind_eq_ok.mp h
  cases h
  refine hi.withServer rfl rfl rfl fun n k h => ?_
  have h : (s.reset id).server.connections n = some k := h
  exact connections_of_reset h

theorem removeConnectionInLoop_keeps :
    Keeps removalFails (Inv base d P) (removeConnectionInLoop l id) := by
  have F : Frame removalFails (Inv base d P) := frame
  intro s hi
  refine .ite (fun _ => ?_) fun _ h => h
  exact (ends_inCode F.fault fun server h => hi.removeConnectionInLoop h).bind fun _ h => h

theorem removeConnection_keeps :
    Keeps removalFails (Inv base d P) (removeConnection l id) := by
  have F : Frame removalFails (Inv base d P) := frame
  intro s hi
  refine .ite (fun _ => ?_) fun _ h => h
  refine (ends_inCode F.fault (Q := fun server => Inv base d P { s with server := server })
    fun server h => ?_).bind fun _ h => h
  unfold TcpServer.removeConnection at h
  split at h
  · exact hi.removeConnectionInLoop h
  · cases h
    exact hi.queueInLoop _ _

theorem handleClose_keeps {down : List UserAct} (hP : destroys down = true → l = base → P) :
    Keeps removalFails (Inv base d P) (handleClose l id down) :=
  frame.handleClose (userCode_keeps hP) removeConnection_keeps

theorem baseLoop_getNextLoop {p p' : EventLoopThreadPool} {ioLoop : Nat}
    (h : p.getNextLoop = .ok (ioLoop, p')) : p'.baseLoop = p.baseLoop := by
  unfold EventLoopThreadPool.getNextLoop at h
  split at h
  · cases h
    rfl
  · split at h
    · cases h
    · cases h
      rfl

/-- A new connection is not active, and its number was not in the map. -/
theorem Inv.accept {s : ServerLife} (hi : s.Inv base d P) (ioLoop : Nat)
    {p : EventLoopThreadPool} (hp : p.baseLoop = s.server.loop) :
    (s.accept ioLoop p).Inv base d P := by
  have hconn : ∀ k < s.server.accepted, (s.accept ioLoop p).conn k = s.conn k :=
    fun k hk => if_neg (Nat.ne_of_lt hk)
  refine hi.of_kept rfl hp (fun h => h) (Nat.le_succ _) ?_ ?_
  · intro k ch _ hhas hof
    cases ch with
    | acceptChannel =>
        exact ⟨hhas, ofLoop_acceptChannel.mpr (hp.trans (ofLoop_acceptChannel.mp hof))⟩
    | other n => exact ⟨rfl, rfl⟩
    | connection i =>
        obtain ⟨hlt, hloop⟩ := ofLoop_connection.mp hof
        rw [hasChannel_connection, ofLoop_connection, hconn i hlt]
        exact ⟨hhas, Nat.lt_succ_of_lt hlt, hloop⟩
  · intro ch ho
    cases ch with
    | acceptChannel => exact .inl rfl
    | other n => exact .inl ho
    | connection i =>
        by_cases hlt : i < s.server.accepted
        · left
          have ho := owned_connection.mp ho
          rw [hconn i hlt] at ho
          have ho : (if (s.conn i).name = s.server.name ++ TcpServer.connSuffix s.server.ipPort
              s.server.nextConnId then some s.server.accepted
              else s.server.connections (s.conn i).name) = some i := ho
          refine owned_connection.mpr ?_
          split at ho
          · cases ho
            exact absurd hlt (Nat.lt_irrefl _)
          · exact ho
        · right
          exact Dispatch.mayRemove_iff.mpr fun _ hact => absurd (hi.accepted _ _ hact) hlt

theorem newConnection_keeps {up : List UserAct} (hP : destroys up = true → l = base → P) :
    Keeps removalFails (Inv base d P) (newConnection l up) := by
  have F : Frame removalFails (Inv base d P) := frame
  intro s hi
  refine (ends_assertThat F.fault _).bind fun _ _ => ?_
  refine (ends_inCode F.fault (Q := fun r => r.2.baseLoop = s.server.loop) fun r hr =>
    baseLoop_getNextLoop hr).bind ?_
  rintro ⟨ioLoop, p⟩ hp
  have hacc := hi.accept ioLoop hp
  refine .ite (fun _ => ?_) fun _ => ?_
  · exact F.connectEstablished (userCode_keeps hP) _ hacc
  · exact hacc.queueInLoop _ _

/-! ## One step -/

theorem handleEventWithGuard_keeps {e : LoopInput} (hP : e.destroys = true → l = base → P) :
    Keeps removalFails (Inv base d P) (handleEventWithGuard l id e) := by
  have F : Frame removalFails (Inv base d P) := frame
  have hdown : Keeps removalFails (Inv base d P) (handleClose l id e.down) :=
    handleClose_keeps fun h => hP (by simp [LoopInput.destroys, h])
  have hmessage : Keeps removalFails (Inv base d P) (userCode l e.message) :=
    userCode_keeps fun h => hP (by simp [LoopInput.destroys, h])
  intro s hi
  refine EndsIn.bind (Frame.fire (fun _ => hdown) s hi) fun t ht => ?_
  refine EndsIn.bind (Frame.fire (fun _ => F.handleRead hmessage fun _ => hdown) t ht) ?_
  exact Frame.fire fun _ => F.handleWrite _

theorem handleChannel_keeps {e : LoopInput} (hP : e.destroys = true → l = base → P)
    (ch : LoopChannel) :
    Keeps removalFails (Inv base d P) fun s => s.handleChannel l e ch := by
  intro s hi
  cases ch with
  | acceptChannel =>
      refine Frame.fire (fun _ t ht => ?_) s hi
      refine .ite (fun _ h => h) fun _ => .ite (fun _ => ?_) fun _ => ht
      exact newConnection_keeps (fun h => hP (by simp [LoopInput.destroys, h])) t ht
  | connection id => exact Frame.fire (fun _ => handleEventWithGuard_keeps hP) s hi
  | other n => exact userCode_keeps (fun h => hP (by simp [LoopInput.destroys, h])) s hi

/-- Functors are run when the loop is not dispatching. -/
theorem runServerFunctor_keeps {e : LoopInput} (hev : (d l).eventHandling = false)
    (hP : e.destroys = true → l = base → P) (f : ServerFunctor) :
    Keeps removalFails (Inv base d P) fun s => s.runServerFunctor l e f := by
  have F : Frame removalFails (Inv base d P) := frame
  intro s hi
  cases f with
  | connectEstablished id =>
      exact F.connectEstablished
        (userCode_keeps fun h => hP (by simp [LoopInput.destroys, h])) s hi
  | removeConnectionInLoop id => exact removeConnectionInLoop_keeps s hi
  | connectDestroyed id =>
      refine connectDestroyed_ends (Dispatch.mayRemove_iff.mpr fun h => ?_)
        (userCode_keeps fun h => hP (by simp [LoopInput.destroys, h])) s hi
      rw [hev] at h
      cases h
  | connFunctor id g =>
      refine F.runConnFunctor g (userCode_keeps fun h => hP (by simp [LoopInput.destroys, h]))
        (fun _ => Frame.forceCloseInLoop ?_) s hi
      exact handleClose_keeps fun h => hP (by simp [LoopInput.destroys, h])

/-! ## Whole runs -/

theorem Inv.settle {s : ServerLife} (hi : s.Inv base d P) : s.Inv base s.dispatch False := by
  have hd := hi.dispatch
  subst hd
  exact ⟨hi.loop, rfl, hi.ok, hi.todo, hi.accepted, False.elim⟩

/-- The step may destroy the server. -/
theorem Inv.arm {s : ServerLife} (hi : s.Inv base d False)
    (hm : P → s.alive = true → ∀ ch, s.owned ch = true → (d base).mayRemove ch = true) :
    s.Inv base d P :=
  ⟨hi.loop, hi.dispatch, hi.ok, hi.todo, hi.accepted, hm⟩

/-- A loop moves on in its iteration. -/
theorem Inv.setDispatch {s : ServerLife} (hi : s.Inv base d False) {x : Dispatch} (hok : x.Ok)
    (htodo : ∀ ch ∈ x.todo, s.hasChannel ch = true ∧ s.ofLoop l ch = true)
    (hacc : ∀ i, .connection i ∈ x.activeChannels → i < s.server.accepted) :
    (s.setDispatch l x).Inv base (fun k => if k = l then x else d k) False where
  loop := hi.loop
  dispatch := by
    rw [← hi.dispatch]
    rfl
  ok k := by
    split
    · exact hok
    · exact hi.ok k
  todo k ch hch := by
    split at hch
    · next hk =>
        subst hk
        exact htodo ch hch
    · exact hi.todo k ch hch
  accepted k i hact := by
    split at hact
    · exact hacc i hact
    · exact hi.accepted k i hact
  spared := False.elim

theorem Inv.setQueue {s : ServerLife} (hi : s.Inv base d P) (l : Nat)
    (fs : List ServerFunctor) : (s.setQueue l fs).Inv base d P :=
  hi.withServer rfl rfl rfl fun _ _ h => h

theorem Inv.poll {s : ServerLife} (hi : s.Inv base d False) {active : List LoopChannel}
    (hr : s.reports l active = true) :
    Inv base (fun k => if k = l then ⟨true, active, none, active⟩ else d k) False
      (s.setDispatch l ⟨true, active, none, active⟩) := by
  simp only [reports, Bool.and_eq_true, decide_eq_true_eq, List.all_eq_true] at hr
  refine hi.setDispatch ⟨nofun, fun _ h => h, hr.1, nofun⟩ hr.2 ?_
  intro i hact
  exact (ofLoop_connection.mp (hr.2 _ hact).2).1

/-- The loop takes the next channel. -/
theorem Inv.advance {s : ServerLife} (hi : s.Inv base d False) {ch : LoopChannel}
    {todo : List LoopChannel} (h : (d l).todo = ch :: todo) :
    Inv base (fun k => if k = l then
        { d l with currentActiveChannel := some ch, todo := todo } else d k) False
      (s.setDispatch l { d l with currentActiveChannel := some ch, todo := todo }) := by
  have hok := hi.ok l
  have hnodup := hok.nodup
  rw [h, List.nodup_cons] at hnodup
  have hmem : ∀ x ∈ todo, x ∈ (d l).todo := by
    intro x hx
    rw [h]
    exact List.mem_cons_of_mem ch hx
  refine hi.setDispatch ⟨?_, fun x hx => hok.active x (hmem x hx), hnodup.2, ?_⟩
    (fun x hx => hi.todo l x (hmem x hx)) (hi.accepted l)
  · intro hev
    rw [hok.idle hev] at h
    cases h
  · intro x hx
    cases hx
    exact hnodup.1

theorem handleEvent_ends {s : ServerLife} (hi : s.Inv base s.dispatch False) {e : LoopInput}
    (hs : s.sparesActive (.handleEvent l e) = true) :
    EndsIn removalFails (fun t => t.Inv base t.dispatch False) (exec (.handleEvent l e) s) := by
  simp only [exec]
  split
  · exact hi
  · next ch todo htodo =>
      have hadv : Inv _ _ (e.destroys = true ∧ l = base) _ := (hi.advance htodo).arm ?_
      · exact (handleChannel_keeps (fun h hl => ⟨h, hl⟩) ch _ hadv).mono fun t ht => ht.settle
      · rintro ⟨hdes, rfl⟩ halive x hx
        have halive : s.alive = true := halive
        simp only [sparesActive, halive, hdes, hi.loop, htodo] at hs
        simp only [beq_self_eq_true, Bool.and_self, Bool.not_true, Bool.false_or,
          List.all_eq_true, List.head?_cons, Bool.or_eq_true, beq_iff_eq,
          Bool.not_eq_true', if_true] at hs ⊢
        refine Dispatch.mayRemove_iff.mpr fun _ hact => ?_
        rcases hs x hact with hx' | hx'
        · exact hx'
        · have hx : s.owned x = true := hx
          rw [hx'] at hx
          cases hx

/-- Every step on offer, if it spares the active channels. -/
theorem step_keeps {s : ServerLife} {a : LifeAction} (hi : s.Inv base s.dispatch False)
    (hg : s.guard a = true) (hs : s.sparesActive a = true) :
    EndsIn removalFails (fun t => t.Inv base t.dispatch False) (exec a s) := by
  cases a with
  | poll l active =>
      simp only [guard, Bool.and_eq_true] at hg
      exact (hi.poll hg.2).settle
  | handleEvent l e => exact handleEvent_ends hi hs
  | dispatchDone l =>
      simp only [guard, Bool.and_eq_true, List.isEmpty_iff] at hg
      have hok := hi.ok l
      have hdone : Dispatch.Ok { s.dispatch l with
          eventHandling := false, currentActiveChannel := none } :=
        ⟨fun _ => hg.2, hok.active, hok.nodup, nofun⟩
      exact (hi.setDispatch hdone (hi.todo l) (hi.accepted l)).settle
  | runFunctor l e =>
      simp only [guard, Bool.and_eq_true, Bool.not_eq_true'] at hg
      simp only [exec]
      split
      · exact hi
      · next f fs hq =>
          have harm : Inv base s.dispatch (l = base) (s.setQueue l fs) := by
            refine (hi.setQueue l fs).arm ?_
            rintro rfl _ ch _
            exact Dispatch.mayRemove_iff.mpr fun h => by rw [hg.1] at h; cases h
          exact (runServerFunctor_keeps hg.1 (fun _ h => h) f _ harm).mono
            fun t ht => ht.settle
  | userCode as =>
      simp only [guard, Bool.not_eq_true'] at hg
      have hbase := hi.loop
      have harm : Inv base s.dispatch True s := by
        refine hi.arm fun _ _ ch _ => ?_
        rw [hbase] at hg
        exact Dispatch.mayRemove_iff.mpr fun h => by rw [hg] at h; cases h
      exact (userCode_keeps (fun _ _ => trivial) s harm).mono fun t ht => ht.settle
  | call id k => exact (frame.call id k s hi).mono fun t ht => ht.settle
  | leaveLoop l => exact (hi.setQueue l []).settle

end

theorem start_inv {baseLoop : Nat} {loops : List Nat} {listenAddr : InetAddress}
    {nameArg : String} {wcc : Bool} {s : ServerLife}
    (h : start baseLoop loops listenAddr nameArg wcc = .ok s) :
    s.Inv baseLoop s.dispatch False := by
  obtain ⟨server, hserver, h⟩ := bind_eq_ok.mp h
  cases h
  obtain ⟨ipPort, -, hserver⟩ := bind_eq_ok.mp hserver
  cases hserver
  refine ⟨rfl, rfl, fun l => ⟨fun _ => rfl, ?_, List.nodup_nil, ?_⟩, ?_, ?_, False.elim⟩
  · exact fun ch h => h
  · exact fun ch _ => List.not_mem_nil
  · intro l ch hch
    cases hch
  · intro l id hact
    cases hact

/-- As long as nobody destroys the server while one of its channels other than
the one being handled is active, the assert of `removeChannel` holds wherever
it is reached, and every channel a loop comes to is still registered. -/
theorem removals_spare_active {baseLoop : Nat} {loops : List Nat} {listenAddr : InetAddress}
    {nameArg : String} {wcc : Bool} {s₀ s : ServerLife}
    (hs : start baseLoop loops listenAddr nameArg wcc = .ok s₀)
    (hr : (machine.restrict sparesActive).Reaches s₀ s) :
    (∀ a, s.guard a = true → s.sparesActive a = true →
      ∀ ch, exec a s ≠ .error (.removeChannel ch)) ∧
    ∀ l ch todo, (s.dispatch l).todo = ch :: todo → s.hasChannel ch = true := by
  have hstep : ∀ (s : ServerLife) a, s.Inv baseLoop s.dispatch False →
      (machine.restrict sparesActive).guard s a = true →
      EndsIn removalFails (fun t => t.Inv baseLoop t.dispatch False) (exec a s) := by
    intro s a hi hg
    obtain ⟨hg, hspare⟩ := Bool.and_eq_true_iff.mp hg
    exact step_keeps hi hg hspare
  obtain ⟨hi, hsafe⟩ := hr.keeps (I := fun s => s.Inv baseLoop s.dispatch False)
    (start_inv hs) hstep
  refine ⟨fun a hg hspare ch => ?_, fun l ch todo h => ?_⟩
  · exact hsafe a (Bool.and_eq_true_iff.mpr ⟨hg, hspare⟩) _ trivial
  · exact (hi.todo l ch (by rw [h]; exact List.mem_cons_self)).1

/-- Nothing happens but what the event says. -/
def quietInput (revents : EventMask) : LoopInput where
  revents := revents
  receiveTime := 5
  locked := true
  accepts := true
  read := .data
  write := .wrote 0
  up := []
  message := []
  down := []
  user := []

/-- The message callback destroys the server. -/
def destroyInput : LoopInput :=
  { quietInput POLLIN with message := [.destroy fun _ => []] }

/-- One iteration of the base loop, in which a connection is accepted. -/
def acceptOne : List LifeAction :=
  [.poll 0 [.acceptChannel], .handleEvent 0 (quietInput POLLIN), .dispatchDone 0]

/-- A connection is accepted, and is ready in the next iteration. -/
def oneReady : List LifeAction :=
  acceptOne ++ [.poll 0 [.connection 0]]

theorem removals_spare_active_oneReady :
    ∃ s₀ s, start 0 [] (.v4 ⟨127, 0, 0, 1⟩ 80) "server" false = .ok s₀ ∧
      (machine.restrict sparesActive).run oneReady s₀ = some s ∧
      (s.dispatch 0).todo = [.connection 0] ∧ s.hasChannel (.connection 0) = true ∧
      ∀ ch, exec (.handleEvent 0 destroyInput) s ≠ .error (.removeChannel ch) := by
  obtain ⟨s₀, s, hs₀, hr, htodo, hg, hspare⟩ : ∃ s₀ s,
      start 0 [] (.v4 ⟨127, 0, 0, 1⟩ 80) "server" false = .ok s₀ ∧
      (machine.restrict sparesActive).run oneReady s₀ = some s ∧
      (s.dispatch 0).todo = [.connection 0] ∧
      s.guard (.handleEvent 0 destroyInput) = true ∧
      s.sparesActive (.handleEvent 0 destroyInput) = true :=
    ⟨_, _, rfl, rfl, rfl, rfl, rfl⟩
  obtain ⟨hsafe, hhas⟩ := removals_spare_active hs₀ ⟨oneReady, hr⟩
  exact ⟨s₀, s, hs₀, hr, htodo, hhas 0 _ _ htodo, hsafe _ hg hspare⟩

/-- Two connections are ready at once, and the callback of the first destroys
the server. -/
theorem destroy_asserts :
    ∃ s₀ s, start 0 [] (.v4 ⟨127, 0, 0, 1⟩ 80) "server" false = .ok s₀ ∧
      machine.run (acceptOne ++ acceptOne ++ [.poll 0 [.connection 0, .connection 1]]) s₀ =
        some s ∧
      s.guard (.handleEvent 0 destroyInput) = true ∧
      exec (.handleEvent 0 destroyInput) s = .error (.removeChannel (.connection 1)) :=
  ⟨_, _, rfl, rfl, rfl, rfl⟩

end ServerLife

end Libanet.Net
