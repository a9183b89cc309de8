import Libanet.Proofs.DispatchRemoval
import Libanet.Proofs.ServerRemoval

/-!
# Destroying a server against closing its connections

`~TcpServer` and the close of a connection both end in `connectDestroyed`, and
nothing keeps them apart. A connection that is closed on its own loop stays in
the map until the base loop has run its `removeConnectionInLoop`. If the base
loop destroys the server in between, the connection is destroyed from the map,
and the removal is still on its way to a server that is gone. The same happens
to a connection that is closed after the server is gone and before its own
`connectDestroyed` has come, and, also on a single loop, to one whose DOWN
callback destroys the server, because its close callback comes next. And a
loop of the pool that leaves when the server tells it to quit does not look at
its queue again, so a `connectDestroyed` in it is not run at all.
`late_removal` has such runs.

In a run without these, every connection has one token. It is its entry in the
map, or a `connectDestroyed` on its way to it, or behind it. Closing and
destroying hand it on, and both take it out of the map. Whether the connection
is up or down does not enter into it.
-/

namespace Libanet.Net

/-! ## Names -/

namespace TcpServer

/-- Connections have distinct names, and the map goes by them. -/
structure Named (s : TcpServer) : Prop where
  ipPort : s.ipPort.length ≤ 51
  bound : s.accepted < 0x80000000
  connId : s.accepted + 1 < 0x80000000 → s.nextConnId = (s.accepted + 1 : Nat)
  names : ∀ id < s.accepted,
    (s.conn id).name = s.name ++ connSuffix s.ipPort (id + 1 : Nat)
  unnamed : ∀ id, s.accepted ≤ id → (s.conn id).name = ""
  map : ∀ n id, s.connections n = some id → id < s.accepted ∧ (s.conn id).name = n

namespace Named

variable {s : TcpServer}

theorem inj (h : s.Named) {i j : Nat} (hi : i < s.accepted) (hj : j < s.accepted)
    (heq : (s.conn i).name = (s.conn j).name) : i = j :=
  name_inj_of_names h.ipPort h.bound h.names hi hj heq

theorem name_ne_empty (h : s.Named) {i : Nat} (hi : i < s.accepted) : (s.conn i).name ≠ "" := by
  have hb := h.bound
  rw [h.names i hi, connSuffix_eq h.ipPort (by omega)]
  intro heq
  have hlen := congrArg String.length heq
  simp at hlen

/-- Of the entries of the map, the one under the name of a connection is its
own. -/
theorem entry (h : s.Named) {id : Nat} (hid : (s.connections (s.conn id).name).isSome) :
    id < s.accepted ∧ s.connections (s.conn id).name = some id := by
  obtain ⟨j, hj⟩ := Option.isSome_iff_exists.mp hid
  obtain ⟨hlt, hname⟩ := h.map _ _ hj
  have hid : id < s.accepted := by
    by_contra hge
    rw [h.unnamed id (by omega)] at hname
    exact h.name_ne_empty hlt hname
  exact ⟨hid, by rw [hj, h.inj hlt hid hname]⟩

theorem connName_new (h : s.Named) (hlt : s.accepted + 1 < 0x80000000) {k : Nat}
    (hk : k < s.accepted) : (s.conn k).name ≠ s.name ++ connSuffix s.ipPort s.nextConnId :=
  connName_ne_of_names h.ipPort h.names hlt (h.connId hlt) hk

theorem accept (h : s.Named) (hlt : s.accepted + 1 < 0x80000000) (ioLoop : Nat)
    (p : EventLoopThreadPool) : (s.accept ioLoop p).Named where
  ipPort := h.ipPort
  bound := hlt
  connId := nextConnId_accept (h.connId hlt) ioLoop p
  names := names_accept h.names (h.connId hlt) ioLoop p
  unnamed k hk := by
    have hne : k ≠ s.accepted := Nat.ne_of_gt (Nat.lt_of_succ_le hk)
    have hconn : (s.accept ioLoop p).conn k = s.conn k := if_neg hne
    rw [hconn]
    exact h.unnamed k (Nat.le_of_succ_le hk)
  map n k hk := by
    have hk : (if n = s.name ++ connSuffix s.ipPort s.nextConnId then some s.accepted
        else s.connections n) = some k := hk
    split at hk
    · next hn =>
        cases hk
        refine ⟨Nat.lt_succ_self _, ?_⟩
        rw [conn_accept_self, hn]
        rfl
    · obtain ⟨hlt', hname⟩ := h.map n k hk
      refine ⟨Nat.lt_succ_of_lt hlt', ?_⟩
      rw [conn_accept_of_lt hlt']
      exact hname

/-- What neither renames nor accepts nor adds to the map. -/
theorem of_names {t : TcpServer} (h : s.Named) (hip : t.ipPort = s.ipPort)
    (hname : t.name = s.name) (hid : t.nextConnId = s.nextConnId)
    (hacc : t.accepted = s.accepted) (hconn : ∀ k, (t.conn k).name = (s.conn k).name)
    (hmap : ∀ n k, t.connections n = some k → s.connections n = some k) : t.Named where
  ipPort := by
    rw [hip]
    exact h.ipPort
  bound := by
    rw [hacc]
    exact h.bound
  connId := by
    rw [hacc, hid]
    exact h.connId
  names k hk := by
    rw [hacc] at hk
    rw [hconn, hname, hip]
    exact h.names k hk
  unnamed k hk := by
    rw [hacc] at hk
    rw [hconn]
    exact h.unnamed k hk
  map n k hk := by
    rw [hacc, hconn]
    exact h.map n k (hmap n k hk)

end Named

end TcpServer

/-! ## Counting -/

/-- The functors by which a connection comes to its end. -/
def ServerFunctor.endsConn : ServerFunctor → Bool
  | .removeConnectionInLoop _ => true
  | .connectDestroyed _ => true
  | _ => false

/-- The token a functor carries. -/
def ServerFunctor.token : ServerFunctor → List Nat
  | .connectDestroyed id => [id]
  | _ => []

/-- What the event brings makes a connection close. -/
def LoopInput.closes (e : LoopInput) : Bool :=
  e.revents.has POLLHUP && !e.revents.has POLLIN ||
    e.revents.has (POLLIN ||| POLLPRI ||| POLLRDHUP) && e.read = .eof

namespace ServerLife

/-! ## The condition -/

/-- No `removeConnectionInLoop` is on its way to the base loop. -/
def quietBase (s : ServerLife) : Bool :=
  (s.server.queue s.server.loop).all fun f =>
    match f with | .removeConnectionInLoop _ => false | _ => true

/-- The handler of the channel comes to `handleClose`. -/
def handlerCloses (s : ServerLife) (e : LoopInput) : LoopChannel → Bool
  | .connection id => (!(s.conn id).channel.tied || e.locked) && e.closes
  | _ => false

/-- The functor comes to `handleClose`. -/
def functorCloses (s : ServerLife) : ServerFunctor → Bool
  | .connFunctor id .forceCloseInLoop =>
      (s.conn id).state = .kConnected || (s.conn id).state = .kDisconnecting
  | _ => false

/-- A step that closes finds the server there, and its DOWN callback leaves it
there. -/
def closeFinds (s : ServerLife) (e : LoopInput) : Bool := s.alive && !destroys e.down

/-- No `connectDestroyed` is on its way to the loop. -/
def quietLoop (s : ServerLife) (l : Nat) : Bool :=
  (s.server.queue l).all fun f =>
    match f with | .connectDestroyed _ => false | _ => true

/-- The server is destroyed when no removal is on its way; no connection closes
after that, or while its own DOWN callback destroys the server; and a loop
leaves when it has run every `connectDestroyed` that was queued on it. -/
def orderly (s : ServerLife) : LifeAction → Bool
  | .handleEvent l e =>
      (!(e.destroys && l == s.server.loop) || s.quietBase) &&
        (s.dispatch l).todo.head?.all fun ch => !s.handlerCloses e ch || s.closeFinds e
  | .runFunctor l e =>
      (!(e.destroys && l == s.server.loop) || s.quietBase) &&
        (s.server.queue l).head?.all fun f => !s.functorCloses f || s.closeFinds e
  | .userCode as => !destroys as || s.quietBase
  | .leaveLoop l => s.quietLoop l
  | _ => true

/-! ## Tokens -/

/-- Its entry in the map. -/
def mapped (s : ServerLife) (id : Nat) : Nat :=
  if s.server.connections (s.conn id).name = some id then 1 else 0

/-- How often its `connectDestroyed` has run. -/
def destroyed (s : ServerLife) (id : Nat) : Nat :=
  ((s.server.history id).map Prod.snd).count .connectDestroyed

/-- How often it is on its way. -/
def destroying (s : ServerLife) (id : Nat) : Nat :=
  (s.server.queue (s.conn id).loop).count (.connectDestroyed id)

def NoRemovals (s : ServerLife) : Prop :=
  ∀ l id, .removeConnectionInLoop id ∉ s.server.queue l

/-- Every connection has one token; the tokens of the connections in `held` are
in the hand of the loop that is taking a step. `P` says whether the step may
destroy the server. -/
structure Counted (base : Nat) (P : Prop) (held : List Nat) (s : ServerLife) : Prop where
  loop : s.server.loop = base
  named : s.server.Named
  once : ∀ id < s.server.accepted,
    s.mapped id + s.destroyed id + s.destroying id + held.count id = 1
  fresh : ∀ id, s.server.accepted ≤ id → s.destroyed id = 0
  queued : ∀ l id, .connectDestroyed id ∈ s.server.queue l → id < s.server.accepted
  hand : ∀ id ∈ held, id < s.server.accepted
  removals : ∀ l id, .removeConnectionInLoop id ∈ s.server.queue l → l = base
  quiet : P → s.NoRemovals
  gone : s.alive = false → (∀ n, s.server.connections n = none) ∧ s.NoRemovals

/-- A function of the server is entered after its destructor. -/
def calledLate : ServerFault → Prop
  | .serverGone => True
  | _ => False

section

variable {base l id : Nat} {P : Prop} {held : List Nat}

/-- A change that hands on no token. -/
theorem Counted.of_kept {s t : ServerLife} (hi : s.Counted base P held)
    (halive : t.alive = s.alive) (hl : t.server.loop = s.server.loop)
    (hn : t.server.Named) (hacc : t.server.accepted = s.server.accepted)
    (hconn : ∀ k, (t.conn k).loop = (s.conn k).loop ∧ (t.conn k).name = (s.conn k).name)
    (hmap : t.server.connections = s.server.connections)
    (hruns : ∀ k, t.destroyed k = s.destroyed k)
    (hq : ∀ k f, f.endsConn = true →
      (t.server.queue k).count f = (s.server.queue k).count f) :
    t.Counted base P held := by
  have hmem : ∀ k f, f.endsConn = true → f ∈ t.server.queue k → f ∈ s.server.queue k := by
    intro k f hf hmem
    rw [← List.count_pos_iff] at hmem ⊢
    rwa [hq k f hf] at hmem
  have hnone : s.NoRemovals → t.NoRemovals :=
    fun h k i hk => h k i (hmem k _ rfl hk)
  refine ⟨hl.trans hi.loop, hn, ?_, ?_, ?_, ?_, ?_, fun h => hnone (hi.quiet h), ?_⟩
  · intro k hk
    rw [hacc] at hk
    have hmapped : t.mapped k = s.mapped k := by
      unfold mapped
      rw [hmap, (hconn k).2]
    have hdes : t.destroying k = s.destroying k := by
      unfold destroying
      rw [(hconn k).1, hq _ _ rfl]
    rw [hmapped, hdes, hruns]
    exact hi.once k hk
  · intro k hk
    rw [hacc] at hk
    rw [hruns]
    exact hi.fresh k hk
  · intro k i hk
    rw [hacc]
    exact hi.queued k i (hmem k _ rfl hk)
  · rw [hacc]
    exact hi.hand
  · exact fun k i hk => hi.removals k i (hmem k _ rfl hk)
  · intro h
    rw [halive] at h
    obtain ⟨hempty, hno⟩ := hi.gone h
    rw [hmap]
    exact ⟨hempty, hnone hno⟩

theorem count_queue_store (s : ServerLife) (c : TcpConnection) (k : Nat) {f : ServerFunctor}
    (hf : f.endsConn = true) :
    ((s.store id c).server.queue k).count f = (s.server.queue k).count f := by
  have hcount := TcpServer.count_connFunctor id c.posted (f := f) (by rintro g rfl; cases hf)
  show (if k = c.loop then _ else _ : List ServerFunctor).count f = _
  split
  · rw [List.count_append, hcount, Nat.add_zero]
  · rfl

theorem Counted.store {s : ServerLife} (hi : s.Counted base P held) {c : TcpConnection}
    (hl : c.loop = (s.conn id).loop) (hn : c.name = (s.conn id).name) :
    (s.store id c).Counted base P held := by
  have hconn := loop_name_store hl hn
  refine hi.of_kept rfl rfl ?_ rfl hconn rfl (fun _ => rfl)
    fun k f hf => count_queue_store s c k hf
  exact hi.named.of_names rfl rfl rfl rfl (fun k => (hconn k).2) fun _ _ h => h

/-- One run more. -/
theorem destroyed_record (s : ServerLife) (l id : Nat) (r : ConnRun) (k : Nat) :
    (s.record l id r).destroyed k =
      s.destroyed k + if k = id ∧ r = .connectDestroyed then 1 else 0 := by
  show ((if k = id then _ else _ : List (Nat × ConnRun)).map Prod.snd).count _ = _
  by_cases hk : k = id
  · simp only [hk, if_true, List.map_append, List.count_append, true_and]
    by_cases hr : r = .connectDestroyed
    · simp [hr, destroyed]
    · simp [hr, destroyed]
  · simp [hk, destroyed]

theorem counted_frame : Frame calledLate (Counted base P held) where
  fault _ h := h
  store hi hc := hi.store hc.loop hc.name
  record {s l id r} hi hr := by
    have hn : (s.record l id r).server.Named :=
      hi.named.of_names rfl rfl rfl rfl (fun _ => rfl) fun _ _ h => h
    refine hi.of_kept rfl rfl hn rfl (fun _ => ⟨rfl, rfl⟩) rfl (fun k => ?_) fun _ _ _ => rfl
    rw [destroyed_record, if_neg fun h => hr h.2, Nat.add_zero]

/-! ## Running `connectDestroyed` -/

/-- The token is behind the connection. -/
theorem Counted.run {s : ServerLife} (hi : s.Counted base P (id :: held)) (l : Nat) :
    (s.record l id .connectDestroyed).Counted base P held := by
  have hid := hi.hand id List.mem_cons_self
  refine ⟨hi.loop, ?_, ?_, ?_, hi.queued, fun k hk => hi.hand k (List.mem_cons_of_mem id hk),
    hi.removals, hi.quiet, hi.gone⟩
  · exact hi.named.of_names rfl rfl rfl rfl (fun _ => rfl) fun _ _ h => h
  · intro k hk
    have honce := hi.once k hk
    rw [destroyed_record, List.count_cons] at *
    show s.mapped k + _ + s.destroying k + _ = 1
    by_cases hkid : k = id
    · simp [hkid] at honce ⊢
      omega
    · have hkid' : ¬id = k := fun h => hkid h.symm
      simp [hkid, hkid'] at honce ⊢
      omega
  · intro k hk
    have hkid : k ≠ id := by
      intro h
      rw [h] at hk
      exact absurd hid (Nat.not_lt.mpr hk)
    rw [destroyed_record, if_neg fun h => hkid h.1]
    exact hi.fresh k hk

theorem ends_removeChannel_late (s : ServerLife) (ch : LoopChannel) :
    EndsIn calledLate (fun _ => True) (s.removeChannel l ch) :=
  .ite (fun _ => ends_inCode (fun _ h => h) fun _ _ => trivial) fun _ h => h

/-- `connectDestroyed` takes the token from the hand. -/
theorem counted_connectDestroyed {I J : ServerLife → Prop} (F : Frame calledLate I)
    {callback : ServerLife → Except ServerFault ServerLife} (hc : Keeps calledLate I callback)
    (hlast : ∀ t ch, I t → J ((t.store id { t.conn id with channel := ch }).record l id
      .connectDestroyed)) {s : ServerLife} (hs : I s) :
    EndsIn calledLate J (s.connectDestroyed l id callback) := by
  refine (ends_assertThat F.fault _).bind fun _ _ => ?_
  refine (F.leaveConnected hc s hs).bind fun t ht => ?_
  refine (ends_inCode F.fault (Q := fun _ => True) fun _ _ => trivial).bind fun ch _ => ?_
  exact (ends_removeChannel_late t _).bind fun _ _ => hlast t ch ht

/-! ## Destroying the server -/

/-- `ids` is what is in the map. -/
def MapIs (ids : List Nat) (s : ServerLife) : Prop :=
  ∀ k, k ∈ ids ↔ k < s.server.accepted ∧ s.mapped k = 1

theorem mapped_eq_one {s : ServerLife} {k : Nat} :
    s.mapped k = 1 ↔ s.server.connections (s.conn k).name = some k := by
  unfold mapped
  split
  · next h => simp [h]
  · next h => simp [h]

theorem mapIs_connectionList (s : ServerLife) : MapIs s.connectionList s := by
  intro k
  rw [connectionList, List.mem_insertionSort, List.mem_filter, List.mem_range,
    mapped_eq_one, decide_eq_true_eq]

theorem nodup_connectionList (s : ServerLife) : s.connectionList.Nodup := by
  have hperm := List.perm_insertionSort (fun i j => (s.conn i).name ≤ (s.conn j).name)
    ((List.range s.server.accepted).filter fun id =>
      s.server.connections (s.conn id).name = some id)
  exact hperm.nodup_iff.mpr (List.nodup_range.filter _)

theorem mapped_store {s : ServerLife} {c : TcpConnection} (hl : c.loop = (s.conn id).loop)
    (hn : c.name = (s.conn id).name) (k : Nat) : (s.store id c).mapped k = s.mapped k := by
  unfold mapped
  rw [(loop_name_store hl hn k).2]
  rfl

theorem MapIs.store {s : ServerLife} {ids : List Nat} (h : MapIs ids s) {c : TcpConnection}
    (hl : c.loop = (s.conn id).loop) (hn : c.name = (s.conn id).name) :
    MapIs ids (s.store id c) := by
  intro k
  rw [mapped_store hl hn]
  exact h k

/-- The frame of the loop in `~TcpServer`. -/
theorem counted_mapIs_frame (ids : List Nat) :
    Frame calledLate fun s => s.Counted base P held ∧ MapIs ids s where
  fault _ h := h
  store h hc := ⟨h.1.store hc.loop hc.name, h.2.store hc.loop hc.name⟩
  record h hr := ⟨counted_frame.record h.1 hr, h.2⟩

theorem mapped_reset {s : ServerLife} (hn : s.server.Named) (hid : id < s.server.accepted)
    {k : Nat} (hk : k < s.server.accepted) :
    (s.reset id).mapped k = if k = id then 0 else s.mapped k := by
  show (if (if (s.conn k).name = (s.conn id).name then none
    else s.server.connections (s.conn k).name) = some k then 1 else 0) = _
  by_cases hkid : k = id
  · simp [hkid]
  · have hname : (s.conn k).name ≠ (s.conn id).name := fun h => hkid (hn.inj hk hid h)
    rw [if_neg hname, if_neg hkid]
    rfl

/-- The loop takes the token of a connection out of the map. -/
theorem Counted.reset {s : ServerLife} (hi : s.Counted base P held)
    (hid : id < s.server.accepted) (hmap : s.mapped id = 1) :
    (s.reset id).Counted base P (id :: held) := by
  refine ⟨hi.loop, ?_, ?_, hi.fresh, hi.queued, ?_, hi.removals, hi.quiet, ?_⟩
  · exact hi.named.of_names rfl rfl rfl rfl (fun _ => rfl)
      fun _ _ => connections_of_reset
  · intro k hk
    have honce := hi.once k hk
    rw [mapped_reset hi.named hid hk, List.count_cons]
    show _ + s.destroyed k + s.destroying k + _ = 1
    by_cases hkid : k = id
    · subst hkid
      simp only [if_true, beq_self_eq_true]
      omega
    · have hkid' : ¬id = k := fun h => hkid h.symm
      simp only [hkid, hkid', if_false, beq_iff_eq]
      omega
  · intro k hk
    rcases List.mem_cons.mp hk with rfl | hk
    · exact hid
    · exact hi.hand k hk
  · intro h
    obtain ⟨hempty, -⟩ := hi.gone h
    rw [mapped_eq_one, hempty] at hmap
    cases hmap

theorem MapIs.reset {s : ServerLife} {ids : List Nat} (hn : s.server.Named)
    (h : MapIs (id :: ids) s) (hnd : (id :: ids).Nodup) : MapIs ids (s.reset id) := by
  have hid := ((h id).mp List.mem_cons_self).1
  have hnot := (List.nodup_cons.mp hnd).1
  intro k
  constructor
  · intro hk
    have hkid : k ≠ id := by
      intro heq
      rw [heq] at hk
      exact hnot hk
    obtain ⟨hlt, hmap⟩ := (h k).mp (List.mem_cons_of_mem id hk)
    refine ⟨hlt, ?_⟩
    rw [mapped_reset hn hid hlt, if_neg hkid]
    exact hmap
  · rintro ⟨hlt, hmap⟩
    have hlt : k < s.server.accepted := hlt
    rw [mapped_reset hn hid hlt] at hmap
    split at hmap
    · cases hmap
    · next hkid =>
        rcases List.mem_cons.mp ((h k).mpr ⟨hlt, hmap⟩) with heq | hk
        · exact absurd heq hkid
        · exact hk

theorem count_queueInLoop (s : TcpServer) (k l : Nat) (f g : ServerFunctor) :
    ((s.queueInLoop l f).queue k).count g =
      (s.queue k).count g + if k = l ∧ f = g then 1 else 0 := by
  show (if k = l then _ else _ : List ServerFunctor).count g = _
  by_cases hk : k = l
  · by_cases hf : f = g
    · simp [hk, hf]
    · simp [hk, hf]
  · simp [hk]

theorem mem_queueInLoop {s : TcpServer} {k l : Nat} {f g : ServerFunctor} :
    g ∈ (s.queueInLoop l f).queue k ↔ g ∈ s.queue k ∨ k = l ∧ f = g := by
  rw [← List.count_pos_iff, count_queueInLoop, ← List.count_pos_iff]
  split
  · next h => simp [h]
  · next h => simp [h]

/-- The token is on its way. -/
theorem Counted.send {s : ServerLife} (hi : s.Counted base P (id :: held)) :
    Counted base P held { s with
      server := s.server.queueInLoop (s.conn id).loop (.connectDestroyed id) } := by
  have hid := hi.hand id List.mem_cons_self
  have hno : s.NoRemovals → NoRemovals { s with
      server := s.server.queueInLoop (s.conn id).loop (.connectDestroyed id) } := by
    intro h k i hk
    rcases mem_queueInLoop.mp hk with hk | ⟨-, hf⟩
    · exact h k i hk
    · cases hf
  refine ⟨hi.loop, ?_, ?_, hi.fresh, ?_, fun k hk => hi.hand k (List.mem_cons_of_mem id hk),
    ?_, fun h => hno (hi.quiet h), fun h => ⟨(hi.gone h).1, hno (hi.gone h).2⟩⟩
  · exact hi.named.of_names rfl rfl rfl rfl (fun _ => rfl) fun _ _ h => h
  · intro k hk
    have honce := hi.once k hk
    rw [List.count_cons] at honce
    show s.mapped k + s.destroyed k +
      ((s.server.queueInLoop (s.conn id).loop (.connectDestroyed id)).queue
        (s.conn k).loop).count _ + _ = 1
    rw [count_queueInLoop]
    have hdes : (s.server.queue (s.conn k).loop).count (.connectDestroyed k) =
      s.destroying k := rfl
    by_cases hkid : k = id
    · subst hkid
      simp at honce ⊢
      omega
    · have hkid' : ¬id = k := fun h => hkid h.symm
      simp [hkid'] at honce ⊢
      omega
  · intro k i hk
    rcases mem_queueInLoop.mp hk with hk | ⟨-, hf⟩
    · exact hi.queued k i hk
    · cases hf
      exact hid
  · intro k i hk
    rcases mem_queueInLoop.mp hk with hk | ⟨-, hf⟩
    · exact hi.removals k i hk
    · cases hf

theorem counted_dropConnection {down : Nat → List (Nat × Call)} {ids : List Nat}
    {s : ServerLife} (hi : s.Counted base P held) (hm : MapIs (id :: ids) s)
    (hnd : (id :: ids).Nodup) :
    EndsIn calledLate (fun t => t.Counted base P held ∧ MapIs ids t)
      (s.dropConnection l down id) := by
  obtain ⟨hid, hmap⟩ := (hm id).mp List.mem_cons_self
  have hreset := hi.reset hid hmap
  have hrest := MapIs.reset hi.named hm hnd
  refine .ite (fun _ => ?_) fun _ => ⟨hreset.send, hrest⟩
  refine counted_connectDestroyed (counted_mapIs_frame ids)
    ((counted_mapIs_frame ids).calls _) ?_ ⟨hreset, hrest⟩
  intro t ch ht
  exact ⟨(ht.1.store (c := { t.conn id with channel := ch }) rfl rfl).run l,
    ht.2.store (c := { t.conn id with channel := ch }) rfl rfl⟩

/-- A server whose map is empty may go. -/
theorem Counted.die {s : ServerLife} (hi : s.Counted base P held) (hP : P) (hm : MapIs [] s) :
    Counted base P held { s with alive := false } := by
  refine ⟨hi.loop, hi.named, hi.once, hi.fresh, hi.queued, hi.hand, hi.removals, hi.quiet,
    fun _ => ⟨fun n => ?_, hi.quiet hP⟩⟩
  cases hn : s.server.connections n with
  | none => rfl
  | some k =>
      obtain ⟨hlt, hname⟩ := hi.named.map n k hn
      have hname : (s.conn k).name = n := hname
      have hmap : s.mapped k = 1 := by
        rw [mapped_eq_one, hname]
        exact hn
      exact absurd ((hm k).mpr ⟨hlt, hmap⟩) List.not_mem_nil

/-- `~TcpServer`, in a step that may run it. Elsewhere it faults at once. -/
theorem counted_destroy (hP : l = base → P) (down : Nat → List (Nat × Call)) :
    Keeps calledLate (Counted base P held) (destroy l down) := by
  have F : Frame calledLate (Counted base P held) := counted_frame
  intro s hi
  unfold destroy
  split
  · exact fun h => h
  · refine (ends_assertThat F.fault _).bind fun _ hl => ?_
    have hP := hP (hl.trans hi.loop)
    refine EndsIn.bind (P := fun t => Counted base P held t ∧ MapIs [] t) ?_ fun t ht => ?_
    · refine (EndsIn.foldlM (I := fun ids t => (Counted base P held t ∧ MapIs ids t) ∧
        ids.Nodup) ?_ ⟨⟨hi, mapIs_connectionList s⟩, nodup_connectionList s⟩).mono
        fun t ht => ht.1
      rintro id ids t ⟨⟨ht, hm⟩, hnd⟩
      refine (counted_dropConnection ht hm hnd).mono fun u hu => ?_
      exact ⟨hu, (List.nodup_cons.mp hnd).2⟩
    · have hdead := ht.1.die hP ht.2
      refine (ends_inCode F.fault (Q := fun _ => True) fun _ _ => trivial).bind fun ch _ => ?_
      refine (ends_removeChannel_late _ _).bind fun _ _ => ?_
      refine (ends_assertThat F.fault _).bind fun _ _ => ?_
      exact ⟨hdead.loop, hdead.named, hdead.once, hdead.fresh, hdead.queued, hdead.hand,
        hdead.removals, hdead.quiet, hdead.gone⟩

theorem counted_userCode {as : List UserAct} (hP : destroys as = true → l = base → P) :
    Keeps calledLate (Counted base P held) (userCode l as) :=
  counted_frame.userCode fun h down => counted_destroy (hP h) down

/-! ## Closing -/

/-- The server is not gone where it matters. -/
theorem counted_alive_frame (Q : Prop) :
    Frame calledLate fun s => Counted base P held s ∧ (Q → s.alive = true) where
  fault _ h := h
  store h hc := ⟨h.1.store hc.loop hc.name, h.2⟩
  record h hr := ⟨counted_frame.record h.1 hr, h.2⟩

theorem Counted.removeConnectionInLoop {s : ServerLife} (hi : s.Counted base P held)
    {server : TcpServer} (h : s.server.removeConnectionInLoop l id = .ok server) :
    Counted base P held { s with server := server } := by
  obtain ⟨-, h⟩ := assertThat_bind_eq_ok.mp h
  obtain ⟨hfound, h⟩ := assertThat_bind_eq_ok.mp h
  cases h
  have hsome : (s.server.connections (s.server.conn id).name).isSome := by
    cases hc : (s.server.connections (s.server.conn id).name).isSome with
    | true => rfl
    | false => simp [hc] at hfound
  obtain ⟨hid, hentry⟩ := hi.named.entry hsome
  have hreset := hi.reset hid (mapped_eq_one.mpr hentry)
  have hremoved : Counted base P (id :: held) { s.reset id with
      server := { (s.reset id).server with removed := s.server.removed ++ [id] } } :=
    ⟨hreset.loop, hreset.named.of_names rfl rfl rfl rfl (fun _ => rfl) fun _ _ h => h,
      hreset.once, hreset.fresh, hreset.queued, hreset.hand, hreset.removals, hreset.quiet,
      hreset.gone⟩
  exact hremoved.send

theorem Counted.queueRemoval {s : ServerLife} (hi : s.Counted base P held) (hP : ¬P)
    (halive : s.alive = true) (id : Nat) :
    Counted base P held { s with
      server := s.server.queueInLoop s.server.loop (.removeConnectionInLoop id) } := by
  refine ⟨hi.loop, ?_, ?_, hi.fresh, ?_, hi.hand, ?_, fun h => absurd h hP, fun h => ?_⟩
  · exact hi.named.of_names rfl rfl rfl rfl (fun _ => rfl) fun _ _ h => h
  · intro k hk
    have hq : ((s.server.queueInLoop s.server.loop (.removeConnectionInLoop id)).queue
        (s.conn k).loop).count (.connectDestroyed k) = s.destroying k := by
      rw [count_queueInLoop]
      simp [destroying]
    have honce := hi.once k hk
    rw [← hq] at honce
    exact honce
  · intro k i hk
    rcases mem_queueInLoop.mp hk with hk | ⟨-, hf⟩
    · exact hi.queued k i hk
    · cases hf
  · intro k i hk
    rcases mem_queueInLoop.mp hk with hk | ⟨hkl, -⟩
    · exact hi.removals k i hk
    · exact hkl.trans hi.loop
  · rw [halive] at h
    cases h

/-- A removal runs on a server that is there: when it is gone there is none. -/
theorem counted_removeConnectionInLoop {s : ServerLife} (hi : s.Counted base P held)
    (halive : s.alive = true) :
    EndsIn calledLate (Counted base P held) (s.removeConnectionInLoop l id) := by
  have F : Frame calledLate (Counted base P held) := counted_frame
  unfold removeConnectionInLoop
  rw [if_pos halive]
  exact (ends_inCode F.fault fun server h => hi.removeConnectionInLoop h).bind fun _ h => h

/-- A close, on a loop that does not destroy the server in the same step unless
it is the base loop. -/
theorem counted_removeConnection {Q : Prop} (hQ : Q) (hP : P → l = base) :
    Keeps calledLate (fun s => Counted base P held s ∧ (Q → s.alive = true))
      (removeConnection l id) := by
  have F : Frame calledLate (Counted base P held) := counted_frame
  rintro s ⟨hi, halive⟩
  have halive := halive hQ
  unfold removeConnection
  rw [if_pos halive]
  refine (ends_inCode F.fault
    (Q := fun server => Counted base P held { s with server := server })
    fun server h => ?_).bind fun server h => ⟨h, fun _ => halive⟩
  unfold TcpServer.removeConnection at h
  split at h
  · exact hi.removeConnectionInLoop h
  · next hl =>
      cases h
      exact hi.queueRemoval (fun h => hl ((hP h).trans hi.loop.symm)) halive id

/-- `handleClose`, with a DOWN callback that does not destroy the server. -/
theorem counted_handleClose {Q : Prop} (hQ : Q) (hP : P → l = base) {down : List UserAct}
    (hdown : destroys down = false) :
    Keeps calledLate (fun s => Counted base P held s ∧ (Q → s.alive = true))
      (handleClose l id down) := by
  have F : Frame calledLate fun s => Counted base P held s ∧ (Q → s.alive = true) :=
    counted_alive_frame Q
  refine F.handleClose (F.userCode fun h => ?_) (counted_removeConnection hQ hP)
  rw [hdown] at h
  cases h

/-! ## Accepting -/

theorem Counted.accept {s : ServerLife} (hi : s.Counted base P held) (halive : s.alive = true)
    (hlt : s.server.accepted + 1 < 0x80000000) (ioLoop : Nat) {p : EventLoopThreadPool}
    (hp : p.baseLoop = s.server.loop) : (s.accept ioLoop p).Counted base P held := by
  have hconn : ∀ k, k ≠ s.server.accepted → (s.accept ioLoop p).conn k = s.conn k :=
    fun k hk => if_neg hk
  have hself : (s.accept ioLoop p).conn s.server.accepted = TcpConnection.new ioLoop
      (s.server.name ++ TcpServer.connSuffix s.server.ipPort s.server.nextConnId)
      s.server.hasWriteCompleteCallback false := if_pos rfl
  have hentry : ∀ n, (s.accept ioLoop p).server.connections n =
      if n = s.server.name ++ TcpServer.connSuffix s.server.ipPort s.server.nextConnId
      then some s.server.accepted else s.server.connections n := fun _ => rfl
  have hdestroying : ∀ k, (s.accept ioLoop p).destroying k =
      (s.server.queue ((s.accept ioLoop p).conn k).loop).count (.connectDestroyed k) :=
    fun _ => rfl
  refine ⟨hp.trans hi.loop, ?_, ?_, fun k hk => hi.fresh k (Nat.le_of_succ_le hk),
    fun k i hk => Nat.lt_succ_of_lt (hi.queued k i hk),
    fun k hk => Nat.lt_succ_of_lt (hi.hand k hk), hi.removals, hi.quiet, fun h => ?_⟩
  · exact hi.named.accept hlt ioLoop p
  · intro k hk
    rcases Nat.lt_succ_iff_lt_or_eq.mp hk with hk | rfl
    · have hne : k ≠ s.server.accepted := Nat.ne_of_lt hk
      have honce := hi.once k hk
      have hname : (s.conn k).name ≠ _ := hi.named.connName_new hlt hk
      have hmapped : (s.accept ioLoop p).mapped k = s.mapped k := by
        unfold mapped
        rw [hconn k hne, hentry, if_neg hname]
      rw [hmapped, hdestroying, hconn k hne]
      exact honce
    · have hmapped : (s.accept ioLoop p).mapped s.server.accepted = 1 := by
        rw [mapped_eq_one, hself, hentry]
        exact if_pos rfl
      have hqueue : (s.accept ioLoop p).destroying s.server.accepted = 0 := by
        rw [hdestroying, List.count_eq_zero]
        exact fun h => Nat.lt_irrefl _ (hi.queued _ _ h)
      have hheld : held.count s.server.accepted = 0 :=
        List.count_eq_zero.mpr fun h => Nat.lt_irrefl _ (hi.hand _ h)
      have hruns : (s.accept ioLoop p).destroyed s.server.accepted = 0 :=
        hi.fresh s.server.accepted (Nat.le_refl _)
      rw [hmapped, hqueue, hheld, hruns]
  · rw [show (s.accept ioLoop p).alive = s.alive from rfl, halive] at h
    cases h

theorem counted_newConnection {s : ServerLife} (hi : s.Counted base P held)
    (halive : s.alive = true) (hlt : s.server.accepted + 1 < 0x80000000) {up : List UserAct}
    (hP : destroys up = true → l = base → P) :
    EndsIn calledLate (Counted base P held) (s.newConnection l up) := by
  have F : Frame calledLate (Counted base P held) := counted_frame
  refine (ends_assertThat F.fault _).bind fun _ _ => ?_
  refine (ends_inCode F.fault (Q := fun r => r.2.baseLoop = s.server.loop) fun r hr =>
    baseLoop_getNextLoop hr).bind ?_
  rintro ⟨ioLoop, p⟩ hp
  have hacc := hi.accept halive hlt ioLoop hp
  refine .ite (fun _ => ?_) fun _ => ?_
  · exact F.connectEstablished (counted_userCode hP) _ hacc
  · have hcount : ∀ k f, f.endsConn = true →
        (((s.accept ioLoop p).server.queueInLoop ioLoop
          (.connectEstablished s.server.accepted)).queue k).count f =
          ((s.accept ioLoop p).server.queue k).count f := by
      intro k f hf
      rw [count_queueInLoop, if_neg, Nat.add_zero]
      rintro ⟨-, rfl⟩
      cases hf
    refine hacc.of_kept rfl rfl ?_ rfl (fun _ => ⟨rfl, rfl⟩) rfl (fun _ => rfl) hcount
    exact hacc.named.of_names rfl rfl rfl rfl (fun _ => rfl) fun _ _ h => h

/-! ## One step -/

/-- The loop has the functor in its hand. -/
theorem Counted.pop {s : ServerLife} (hi : s.Counted base P []) {f : ServerFunctor}
    {fs : List ServerFunctor} (hq : s.server.queue l = f :: fs)
    (hl : ∀ k, f = .connectDestroyed k → (s.conn k).loop = l) :
    (s.setQueue l fs).Counted base P f.token := by
  have hsub : ∀ k g, g ∈ (s.setQueue l fs).server.queue k → g ∈ s.server.queue k := by
    intro k g hg
    have hg : g ∈ (if k = l then fs else s.server.queue k) := hg
    split at hg
    · next hk =>
        rw [hk, hq]
        exact List.mem_cons_of_mem f hg
    · exact hg
  have hno : s.NoRemovals → (s.setQueue l fs).NoRemovals :=
    fun h k i hk => h k i (hsub k _ hk)
  refine ⟨hi.loop, ?_, ?_, hi.fresh, fun k i hk => hi.queued k i (hsub k _ hk), ?_,
    fun k i hk => hi.removals k i (hsub k _ hk), fun h => hno (hi.quiet h),
    fun h => ⟨(hi.gone h).1, hno (hi.gone h).2⟩⟩
  · exact hi.named.of_names rfl rfl rfl rfl (fun _ => rfl) fun _ _ h => h
  · intro k hk
    have honce := hi.once k hk
    have htoken : (s.setQueue l fs).destroying k + f.token.count k = s.destroying k := by
      show (if (s.conn k).loop = l then fs else s.server.queue (s.conn k).loop).count _ + _ = _
      unfold destroying
      by_cases hkl : (s.conn k).loop = l
      · rw [if_pos hkl, hkl, hq, List.count_cons]
        cases f with
        | connectDestroyed i =>
            by_cases hik : i = k
            · simp [ServerFunctor.token, hik]
            · simp [ServerFunctor.token, hik]
        | _ => simp [ServerFunctor.token]
      · rw [if_neg hkl]
        cases f with
        | connectDestroyed i =>
            have hik : i ≠ k := fun h => hkl (h ▸ hl i rfl)
            simp [ServerFunctor.token, hik]
        | _ => simp [ServerFunctor.token]
    show s.mapped k + s.destroyed k + _ + _ = 1
    rw [List.count_nil] at honce
    omega
  · intro k hk
    cases f with
    | connectDestroyed i =>
        rw [List.mem_singleton.mp hk]
        exact hi.queued l i (by rw [hq]; exact List.mem_cons_self)
    | _ => cases hk

/-- A handler. If the event closes the connection, the server is there and its
DOWN callback does not destroy it. -/
theorem counted_handleEventWithGuard {e : LoopInput} (hP : e.destroys = true → l = base → P)
    (hP' : P → l = base) (hdown : e.closes = true → destroys e.down = false)
    {s : ServerLife} (hi : s.Counted base P held) (halive : e.closes = true → s.alive = true) :
    EndsIn calledLate (Counted base P held) (s.handleEventWithGuard l id e) := by
  have F : Frame calledLate (Counted base P held) := counted_frame
  have hmessage : Keeps calledLate (Counted base P held) (userCode l e.message) :=
    counted_userCode fun h => hP (by simp [LoopInput.destroys, h])
  have hclose : e.closes = true → Keeps calledLate
      (fun t => Counted base P held t ∧ (e.closes = true → t.alive = true))
      (handleClose l id e.down) := fun h => counted_handleClose h hP' (hdown h)
  refine EndsIn.bind (Frame.fire (fun hc => hclose ?_) s ⟨hi, halive⟩) fun t ht => ?_
  · rw [LoopInput.closes, hc, Bool.true_or]
  refine EndsIn.bind (P := Counted base P held) (.ite (fun hc => ?_) fun _ => ht.1) ?_
  · unfold handleRead
    cases hr : e.read with
    | data => exact hmessage _ (F.store ht.1 (.emit _ _))
    | eof =>
        refine (hclose ?_ t ht).mono fun u hu => hu.1
        rw [LoopInput.closes, hc, hr]
        simp
    | failed => exact ht.1
  · exact Frame.fire fun _ => F.handleWrite _

theorem counted_handleChannel {e : LoopInput} {ch : LoopChannel} {s : ServerLife}
    (hi : s.Counted base P held) (hP : e.destroys = true → l = base → P) (hP' : P → l = base)
    (hclose : s.handlerCloses e ch = true → s.closeFinds e = true)
    (hlt : ch = .acceptChannel → s.server.accepted + 1 < 0x80000000) :
    EndsIn calledLate (Counted base P held) (s.handleChannel l e ch) := by
  cases ch with
  | acceptChannel =>
      refine .ite (fun _ => ?_) fun _ => hi
      refine .ite (fun _ h => h) fun halive => .ite (fun _ => ?_) fun _ => hi
      exact counted_newConnection hi (by simpa using halive) (hlt rfl)
        fun h => hP (by simp [LoopInput.destroys, h])
  | connection id =>
      refine .ite (fun hlocked => ?_) fun _ => hi
      have hfinds : e.closes = true → s.alive = true ∧ destroys e.down = false := by
        intro hc
        have hf := hclose (by rw [handlerCloses, hlocked, hc]; rfl)
        simpa [closeFinds] using hf
      exact counted_handleEventWithGuard hP hP' (fun h => (hfinds h).2) hi
        fun h => (hfinds h).1
  | other n => exact counted_userCode (fun h => hP (by simp [LoopInput.destroys, h])) s hi

theorem counted_runConnFunctor {e : LoopInput} {g : ConnFunctor} {s : ServerLife}
    (hi : s.Counted base P held) (hP : e.destroys = true → l = base → P) (hP' : P → l = base)
    (hclose : s.functorCloses (.connFunctor id g) = true → s.closeFinds e = true) :
    EndsIn calledLate (Counted base P held) (s.runConnFunctor l id e g) := by
  have F : Frame calledLate (Counted base P held) := counted_frame
  by_cases hg : g = .forceCloseInLoop
  · subst hg
    refine (ends_assertThat F.fault _).bind fun _ _ => ?_
    refine .ite (fun hst => ?_) fun _ => hi
    have hfinds : s.alive = true ∧ destroys e.down = false := by
      have hf := hclose (by simpa [functorCloses] using hst)
      simpa [closeFinds] using hf
    exact (counted_handleClose trivial hP' hfinds.2 s ⟨hi, fun _ => hfinds.1⟩).mono
      fun t ht => ht.1
  · exact F.runConnFunctor g
      (counted_userCode fun h => hP (by simp [LoopInput.destroys, h]))
      (fun h => absurd h hg) s hi

theorem counted_runServerFunctor {e : LoopInput} {f : ServerFunctor} {s : ServerLife}
    (hi : s.Counted base P f.token) (hP : e.destroys = true → l = base → P) (hP' : P → l = base)
    (hclose : s.functorCloses f = true → s.closeFinds e = true)
    (halive : ∀ id, f = .removeConnectionInLoop id → s.alive = true) :
    EndsIn calledLate (Counted base P []) (s.runServerFunctor l e f) := by
  cases f with
  | connectEstablished id =>
      exact counted_frame.connectEstablished
        (counted_userCode fun h => hP (by simp [LoopInput.destroys, h])) s hi
  | connFunctor id g => exact counted_runConnFunctor hi hP hP' hclose
  | removeConnectionInLoop id =>
      exact counted_removeConnectionInLoop hi (halive id rfl)
  | connectDestroyed id =>
      refine counted_connectDestroyed counted_frame
        (counted_userCode fun h => hP (by simp [LoopInput.destroys, h])) (fun t ch ht => ?_) hi
      exact (ht.store (c := { t.conn id with channel := ch }) rfl rfl).run l

/-! ## Whole runs -/

theorem Counted.noRemovals {s : ServerLife} (hi : s.Counted base P held)
    (hq : s.quietBase = true) : s.NoRemovals := by
  intro k i hk
  have hkb := hi.removals k i hk
  rw [hkb, ← hi.loop] at hk
  have hcase := List.all_eq_true.mp hq _ hk
  cases hcase

/-- The step may destroy the server. -/
theorem Counted.arm {s : ServerLife} (hi : s.Counted base False held)
    (hq : P → s.quietBase = true) : s.Counted base P held :=
  ⟨hi.loop, hi.named, hi.once, hi.fresh, hi.queued, hi.hand, hi.removals,
    fun h => hi.noRemovals (hq h), hi.gone⟩

/-- A step on the loop `l` may destroy the server if its user code does, and if
the loop is the base loop. -/
theorem Counted.armFor {s : ServerLife} (hi : s.Counted base False held) {e : LoopInput}
    (hq : (e.destroys && l == base) = false ∨ s.quietBase = true) :
    s.Counted base (e.destroys = true ∧ l = base) held := by
  refine hi.arm ?_
  rintro ⟨hdes, rfl⟩
  simpa [hdes] using hq

theorem Counted.disarm {s : ServerLife} (hi : s.Counted base P held) :
    s.Counted base False held :=
  ⟨hi.loop, hi.named, hi.once, hi.fresh, hi.queued, hi.hand, hi.removals, False.elim, hi.gone⟩

theorem Counted.setDispatch {s : ServerLife} (hi : s.Counted base P held) (l : Nat)
    (x : Dispatch) : (s.setDispatch l x).Counted base P held :=
  ⟨hi.loop, hi.named, hi.once, hi.fresh, hi.queued, hi.hand, hi.removals, hi.quiet, hi.gone⟩

theorem counted_handleEvent {s : ServerLife} (hi : s.Counted base False []) {e : LoopInput}
    (hg : s.guard (.handleEvent l e) = true) (ho : s.orderly (.handleEvent l e) = true) :
    EndsIn calledLate (Counted base False []) (exec (.handleEvent l e) s) := by
  simp only [exec]
  split
  · exact hi
  · next ch todo htodo =>
      simp only [orderly, Bool.and_eq_true, htodo, List.head?_cons, Option.all_some,
        Bool.or_eq_true, Bool.not_eq_true', hi.loop] at ho
      obtain ⟨hquiet, hclose⟩ := ho
      have harm := hi.armFor hquiet
      refine (counted_handleChannel (harm.setDispatch l _) (fun h hl => ⟨h, hl⟩)
        (fun h => h.2) (fun h => ?_) fun h => ?_).mono fun t ht => ht.disarm
      · have h : s.handlerCloses e ch = true := h
        rcases hclose with hno | hfinds
        · exact absurd (hno.symm.trans h) (by decide)
        · exact hfinds
      · subst h
        have hlt : s.server.accepted + 1 < 0x80000000 := by simpa [guard, htodo] using hg
        exact hlt

theorem counted_runFunctor {s : ServerLife} (hi : s.Counted base False []) {e : LoopInput}
    (ho : s.orderly (.runFunctor l e) = true) :
    EndsIn calledLate (Counted base False []) (exec (.runFunctor l e) s) := by
  simp only [exec]
  split
  · exact hi
  · next f fs hq =>
      simp only [orderly, Bool.and_eq_true, hq, List.head?_cons, Option.all_some,
        Bool.or_eq_true, Bool.not_eq_true', hi.loop] at ho
      obtain ⟨hquiet, hclose⟩ := ho
      have harm := hi.armFor hquiet
      by_cases hl : ∀ k, f = .connectDestroyed k → (s.conn k).loop = l
      · refine (counted_runServerFunctor (harm.pop hq hl) (fun h hl => ⟨h, hl⟩)
          (fun h => h.2) (fun h => ?_) ?_).mono fun t ht => ht.disarm
        · rcases hclose with hno | hfinds
          · exact absurd (hno.symm.trans h) (by decide)
          · exact hfinds
        · rintro k rfl
          cases halive : s.alive with
          | true => exact halive
          | false =>
              have hmem : .removeConnectionInLoop k ∈ s.server.queue l := by
                rw [hq]
                exact List.mem_cons_self
              exact absurd hmem ((hi.gone halive).2 l k)
      · -- the functor is on a loop that is not its connection's, and asserts so
        push Not at hl
        obtain ⟨k, rfl, hk⟩ := hl
        have hk : ¬((s.setQueue l fs).conn k).loop = l := hk
        have hfault : inCode (assertThat (((s.setQueue l fs).conn k).loop = l)) =
            .error (.fault .assertion) := by
          rw [assertThat, if_neg hk]
          rfl
        show EndsIn calledLate _ (connectDestroyed l k _ _)
        unfold connectDestroyed
        rw [hfault]
        exact fun h => h

theorem counted_step {s : ServerLife} {a : LifeAction} (hi : s.Counted base False [])
    (hg : s.guard a = true) (ho : s.orderly a = true) :
    EndsIn calledLate (Counted base False []) (exec a s) := by
  cases a with
  | poll l active => exact hi.setDispatch _ _
  | handleEvent l e => exact counted_handleEvent hi hg ho
  | dispatchDone l => exact hi.setDispatch _ _
  | runFunctor l e => exact counted_runFunctor hi ho
  | userCode as =>
      have harm : s.Counted base (destroys as = true) [] :=
        hi.arm fun h => by simpa [orderly, h] using ho
      exact (counted_userCode (fun h _ => h) s harm).mono fun t ht => ht.disarm
  | call id k => exact counted_frame.call id k s hi
  | leaveLoop l =>
      simp only [guard, Bool.and_eq_true, decide_eq_true_eq] at hg
      have hnone : ∀ f : ServerFunctor, f.endsConn = true → f ∉ s.server.queue l := by
        intro f hf hmem
        cases f with
        | removeConnectionInLoop i =>
            exact hg.1.2 ((hi.removals l i hmem).trans hi.loop.symm)
        | connectDestroyed i => cases List.all_eq_true.mp ho _ hmem
        | _ => cases hf
      refine hi.of_kept rfl rfl ?_ rfl (fun _ => ⟨rfl, rfl⟩) rfl (fun _ => rfl)
        fun k f hf => ?_
      · exact hi.named.of_names rfl rfl rfl rfl (fun _ => rfl) fun _ _ h => h
      · show (if k = l then [] else s.server.queue k).count f = _
        split
        · next hk => rw [hk, List.count_nil, List.count_eq_zero.mpr (hnone f hf)]
        · rfl

end

theorem counted_start {baseLoop : Nat} {loops : List Nat} {listenAddr : InetAddress}
    {nameArg : String} {wcc : Bool} {s : ServerLife}
    (h : start baseLoop loops listenAddr nameArg wcc = .ok s) :
    s.Counted baseLoop False [] := by
  obtain ⟨ipPort, hip, hlen⟩ := listenAddr.toIpPort_spec
  obtain ⟨server, hserver, h⟩ := bind_eq_ok.mp h
  cases h
  obtain ⟨ipPort', hip', hserver⟩ := bind_eq_ok.mp hserver
  cases hip.symm.trans hip'
  cases hserver
  refine ⟨rfl, ⟨hlen, Nat.succ_pos _, fun _ => rfl, fun id hid => ?_, fun _ _ => rfl,
    nofun⟩, fun id hid => ?_, fun _ _ => rfl, ?_, ?_, ?_, False.elim, nofun⟩
  · exact absurd hid (Nat.not_lt_zero id)
  · exact absurd hid (Nat.not_lt_zero id)
  · exact fun l id h => absurd h List.not_mem_nil
  · exact fun id h => absurd h List.not_mem_nil
  · exact fun l id h => absurd h List.not_mem_nil

/-- In a run whose steps are all orderly no function of the server is entered
after its destructor, and then no removal is on its way to it. A connection
that was accepted has its entry in the map, or its `connectDestroyed` on the
way, or has run it: one of the three, and once. Of a server that is gone the
map is empty. -/
theorem closes_and_destroys_once {baseLoop : Nat} {loops : List Nat}
    {listenAddr : InetAddress} {nameArg : String} {wcc : Bool} {s₀ s : ServerLife}
    (hs : start baseLoop loops listenAddr nameArg wcc = .ok s₀)
    (hr : (machine.restrict orderly).Reaches s₀ s) :
    (∀ a, s.guard a = true → s.orderly a = true → exec a s ≠ .error .serverGone) ∧
    (s.alive = false → ∀ l id, .removeConnectionInLoop id ∉ s.server.queue l) ∧
    ∀ id < s.server.accepted,
      s.mapped id + s.destroyed id + s.destroying id = 1 ∧
        (s.alive = false → s.destroyed id + s.destroying id = 1) := by
  have hstep : ∀ (s : ServerLife) a, s.Counted baseLoop False [] →
      (machine.restrict orderly).guard s a = true →
      EndsIn calledLate (Counted baseLoop False []) (exec a s) := by
    intro s a hi hg
    obtain ⟨hg, ho⟩ := Bool.and_eq_true_iff.mp hg
    exact counted_step hi hg ho
  obtain ⟨hi, hsafe⟩ := hr.keeps (I := Counted baseLoop False []) (counted_start hs) hstep
  refine ⟨fun a hg ho => ?_, fun h => (hi.gone h).2, fun id hid => ?_⟩
  · exact hsafe a (Bool.and_eq_true_iff.mpr ⟨hg, ho⟩) _ trivial
  · have honce := hi.once id hid
    rw [List.count_nil] at honce
    refine ⟨honce, fun h => ?_⟩
    have hmapped : s.mapped id = 0 := by
      unfold mapped
      rw [(hi.gone h).1]
      exact if_neg (by simp)
    omega

/-- A connection is accepted for a loop of the pool, where it comes up and is
closed by its peer. -/
def closedByPeer : List LifeAction :=
  acceptOne ++ [.runFunctor 1 (quietInput 0), .poll 1 [.connection 0],
    .handleEvent 1 { quietInput POLLIN with read := .eof }, .dispatchDone 1]

/-- Then the server is destroyed, after it has taken the connection out. -/
def closedThenDestroyed : List LifeAction :=
  closedByPeer ++ [.runFunctor 0 (quietInput 0), .userCode [.destroy fun _ => []]]

theorem closes_and_destroys_once_closedThenDestroyed :
    ∃ s₀ s, start 0 [1] (.v4 ⟨127, 0, 0, 1⟩ 80) "server" false = .ok s₀ ∧
      (machine.restrict orderly).run closedThenDestroyed s₀ = some s ∧
      s.alive = false ∧ s.server.queue 1 = [.connectDestroyed 0] ∧
      s.destroyed 0 + s.destroying 0 = 1 := by
  obtain ⟨s₀, s, hs₀, hr, hdead, hq, hacc⟩ : ∃ s₀ s,
      start 0 [1] (.v4 ⟨127, 0, 0, 1⟩ 80) "server" false = .ok s₀ ∧
      (machine.restrict orderly).run closedThenDestroyed s₀ = some s ∧
      s.alive = false ∧ s.server.queue 1 = [.connectDestroyed 0] ∧ 0 < s.server.accepted :=
    ⟨_, _, rfl, rfl, rfl, rfl, Nat.one_pos⟩
  obtain ⟨-, -, honce⟩ := closes_and_destroys_once hs₀ ⟨closedThenDestroyed, hr⟩
  exact ⟨s₀, s, hs₀, hr, hdead, hq, (honce 0 hacc).2 hdead⟩

/-- The peer has closed, and the DOWN callback destroys the server. -/
def destroyingDown : LoopInput :=
  { quietInput POLLIN with read := .eof, down := [.destroy fun _ => []] }

/-- On a single loop, the DOWN callback of a connection that is closed destroys
the server, and the removal comes behind it. With a loop in the pool, the
server is destroyed while the removal of the closed connection is on its way,
and the removal runs. And a server is destroyed with a connection that is up,
and the loop of the connection leaves before it has run what is queued on it:
`connectDestroyed` is not run, and not on its way. -/
theorem late_removal :
    (∃ s₀ s, start 0 [] (.v4 ⟨127, 0, 0, 1⟩ 80) "server" false = .ok s₀ ∧
      machine.run (acceptOne ++ [.poll 0 [.connection 0]]) s₀ = some s ∧
      s.guard (.handleEvent 0 destroyingDown) = true ∧
      exec (.handleEvent 0 destroyingDown) s = .error .serverGone) ∧
    (∃ s₀ s, start 0 [1] (.v4 ⟨127, 0, 0, 1⟩ 80) "server" false = .ok s₀ ∧
      machine.run (closedByPeer ++ [.userCode [.destroy fun _ => []]]) s₀ = some s ∧
      s.guard (.runFunctor 0 (quietInput 0)) = true ∧
      exec (.runFunctor 0 (quietInput 0)) s = .error .serverGone) ∧
    ∃ s₀ s, start 0 [1] (.v4 ⟨127, 0, 0, 1⟩ 80) "server" false = .ok s₀ ∧
      machine.run (acceptOne ++ [.runFunctor 1 (quietInput 0),
        .userCode [.destroy fun _ => []], .leaveLoop 1]) s₀ = some s ∧
      s.server.accepted = 1 ∧ s.destroyed 0 + s.destroying 0 = 0 :=
  ⟨⟨_, _, rfl, rfl, rfl, rfl⟩, ⟨_, _, rfl, rfl, rfl, rfl⟩, _, _, rfl, rfl, rfl, rfl⟩

end ServerLife

end Libanet.Net
