import Libanet.Lib.Machine
import Libanet.Net.TcpServer
import Libanet.Proofs.ConnLifecycle
import Libanet.Proofs.InetAddress

/-!
# Accepting and removing connections across loops

The base loop accepts a connection and keeps it in a map; the connection
lives on a loop of its own; when it is closed, the base loop takes it out
of the map and sends it back to its own loop to be destroyed. Steps of the
loops fall in any order, and where the two loops are the same, the messages
are not sent but run on the spot.

The three messages are tokens that are handed on. A connection that has
been accepted has one `connectEstablished` on its way or behind it; every
close has put one `removeConnectionInLoop` on its way; every removal has put
one `connectDestroyed` on its way. `ConnView` is what the system knows of
one connection, with its tokens counted, and `ConnView.Ok` says that the
count is right. A step takes one token into its hand and leaves another on
a queue, or runs it at once. The invariant is therefore stated of a server
and the functors `held` by the loop that is taking a step.

Names are distinct because they end in a number that is counted up, and
because the buffer they are printed into is large enough for any address.
-/

namespace Libanet.Net

namespace TcpServer

/-! ## Names -/

theorem formatD_pos_inj {m n : Nat} (h : formatD m = formatD n) : m = n := by
  have hd : ∀ k : Nat, formatD k = Nat.toDigits 10 k := by
    intro k
    rw [formatD, if_neg (by omega)]
    rfl
  rw [hd, hd] at h
  rw [← Nat.ofDigitChars_ten_toDigits (n := m), h, Nat.ofDigitChars_ten_toDigits]

theorem length_formatD {n : Nat} (h : n < 0x80000000) : (formatD n).length ≤ 10 := by
  rw [formatD, if_neg (by omega)]
  exact (Nat.length_toDigits_le_iff (by decide) (by decide)).mpr (by omega)

/-- The buffer holds the whole suffix. -/
theorem connSuffix_eq {ipPort : String} (hip : ipPort.length ≤ 51) {n : Nat}
    (hn : n < 0x80000000) :
    connSuffix ipPort n = String.ofList ('-' :: ipPort.toList ++ '#' :: formatD n) := by
  have hlen := length_formatD hn
  rw [connSuffix, snprintf, List.take_of_length_le]
  simp only [List.cons_append, List.length_cons, List.length_append, String.length_toList]
  omega

theorem connSuffix_inj {ipPort : String} (hip : ipPort.length ≤ 51) {m n : Nat}
    (hm : m < 0x80000000) (hn : n < 0x80000000)
    (h : connSuffix ipPort m = connSuffix ipPort n) : m = n := by
  rw [connSuffix_eq hip hm, connSuffix_eq hip hn] at h
  have hcons := List.append_cancel_left (String.ofList_injective h)
  exact formatD_pos_inj (List.cons.inj hcons).2

/-- Connections that are numbered in the order they came have distinct names. -/
theorem name_inj_of_names {s : TcpServer} (hip : s.ipPort.length ≤ 51)
    (hb : s.accepted < 0x80000000)
    (hnames : ∀ id < s.accepted,
      (s.conn id).name = s.name ++ connSuffix s.ipPort (id + 1 : Nat))
    {i j : Nat} (hi : i < s.accepted) (hj : j < s.accepted)
    (h : (s.conn i).name = (s.conn j).name) : i = j := by
  rw [hnames i hi, hnames j hj, String.append_right_inj] at h
  have := connSuffix_inj hip (by omega) (by omega) h
  omega

/-- And the name that is next is none of them. -/
theorem connName_ne_of_names {s : TcpServer} (hip : s.ipPort.length ≤ 51)
    (hnames : ∀ id < s.accepted,
      (s.conn id).name = s.name ++ connSuffix s.ipPort (id + 1 : Nat))
    (hlt : s.accepted + 1 < 0x80000000) (hid : s.nextConnId = (s.accepted + 1 : Nat))
    {k : Nat} (hk : k < s.accepted) :
    (s.conn k).name ≠ s.name ++ connSuffix s.ipPort s.nextConnId := by
  intro h
  rw [hnames k hk, hid, String.append_right_inj] at h
  have := connSuffix_inj hip (by omega) (by omega) h
  omega

/-! ## One connection and its tokens -/

end TcpServer

/-- What the system knows of one connection. -/
structure ConnView where
  conn : TcpConnection
  history : List (Nat × ConnRun)
  /-- How often its `removeConnectionInLoop` has run. -/
  removed : Nat
  /-- The functors on their way to it. -/
  establishing : Nat
  removing : Nat
  destroying : Nat

namespace ConnView

def runs (v : ConnView) (r : ConnRun) : Nat := (v.history.map Prod.snd).count r

/-- No `connectDestroyed` without a close before it. -/
def CloseFirst (history : List (Nat × ConnRun)) : Prop :=
  ∀ pre post l, history = pre ++ (l, .connectDestroyed) :: post → ∃ k, (k, .close) ∈ pre

structure Ok (v : ConnView) : Prop where
  established : v.runs .connectEstablished + v.establishing = 1
  closing : v.conn.log.count .closeCallback = v.removed + v.removing
  destroyed : v.runs .connectDestroyed + v.destroying = v.removed
  closed : v.runs .close = v.conn.log.count .closeCallback
  life : v.history = [] ∧ v.conn.Fresh ∨
    (∃ l rest, v.history = (l, .connectEstablished) :: rest) ∧ v.conn.Alive
  order : CloseFirst v.history
  loop : ∀ p ∈ v.history, p.1 = v.conn.loop

end ConnView

namespace TcpConnection

theorem Alive.count_close {c : TcpConnection} (h : c.Alive) :
    c.log.count .closeCallback ≤ 1 := by
  rcases h with h | h
  · rw [List.count_eq_zero.mpr h.close]
    omega
  · exact (closed_log_law h (.inr rfl)).2.1

/-- A connection that has called its close callback is closed. -/
theorem Alive.closed {c : TcpConnection} (h : c.Alive)
    (hc : 0 < c.log.count .closeCallback) : c.Closed [.closeCallback] := by
  rcases h with h | h
  · exact absurd (List.count_pos_iff.mp hc) h.close
  · exact h

theorem SameConn.count_close_le {c c' : TcpConnection} (h : SameConn c c') :
    c.log.count .closeCallback ≤ c'.log.count .closeCallback :=
  h.log.sublist.count_le _

/-- The connection once its loop has taken over what it queued. -/
def unposted (c : TcpConnection) : TcpConnection := { c with posted := [] }

theorem Alive.unposted {c : TcpConnection} (h : c.Alive) : c.unposted.Alive :=
  h.withPosted (by simp)

end TcpConnection

namespace ConnView

theorem mem_close_of_runs {v : ConnView} (h : 0 < v.runs .close) :
    ∃ k, (k, .close) ∈ v.history := by
  obtain ⟨⟨k, r⟩, hmem, rfl⟩ := List.mem_map.mp (List.count_pos_iff.mp h)
  exact ⟨k, hmem⟩

theorem CloseFirst.append {history new : List (Nat × ConnRun)} (h : CloseFirst history)
    (hnew : (∃ l, (l, .connectDestroyed) ∈ new) → ∃ k, (k, .close) ∈ history) :
    CloseFirst (history ++ new) := by
  intro pre post l heq
  rcases List.append_eq_append_iff.mp heq with ⟨mid, hpre, hrest⟩ | ⟨mid, hhist, hrest⟩
  · -- the `connectDestroyed` is one of the new ones
    obtain ⟨k, hk⟩ := hnew ⟨l, by rw [hrest]; simp⟩
    exact ⟨k, by rw [hpre]; exact List.mem_append_left _ hk⟩
  · cases mid with
    | nil =>
        rw [List.nil_append] at hrest
        obtain ⟨k, hk⟩ := hnew ⟨l, by rw [← hrest]; simp⟩
        exact ⟨k, by rwa [hhist, List.append_nil] at hk⟩
    | cons p mid =>
        rw [List.cons_append, List.cons.injEq] at hrest
        rw [← hrest.1] at hhist
        exact h pre mid l hhist

theorem Ok.alive {v : ConnView} (h : v.Ok) (hne : v.history ≠ []) : v.conn.Alive := by
  rcases h.life with ⟨hnil, -⟩ | ⟨-, halive⟩
  · exact absurd hnil hne
  · exact halive

/-- A connection with `connectEstablished` on its way has run nothing. -/
theorem Ok.fresh {v : ConnView} (h : v.Ok) (he : 0 < v.establishing) :
    v.history = [] ∧ v.conn.Fresh := by
  rcases h.life with hnew | ⟨⟨l, rest, hhist⟩, -⟩
  · exact hnew
  · have hest := h.established
    simp [runs, hhist] at hest
    omega

/-- A connection whose close has been told has run something. -/
theorem Ok.history_ne_nil {v : ConnView} (h : v.Ok) (hr : 0 < v.removed + v.removing) :
    v.history ≠ [] := by
  intro hnil
  rcases h.life with ⟨-, hfresh⟩ | ⟨⟨l, rest, hhist⟩, -⟩
  · have hc := h.closing
    rw [hfresh.log] at hc
    simp at hc
    omega
  · rw [hnil] at hhist
    cases hhist

theorem Ok.establish {v : ConnView} (h : v.Ok) {n : Nat} (he : v.establishing = n + 1)
    {c : TcpConnection} (hc : c.Opened) (hs : v.conn.SameConn c) :
    Ok ⟨c.unposted, v.history ++ [(v.conn.loop, .connectEstablished)], v.removed, n,
      v.removing, v.destroying⟩ := by
  obtain ⟨hnil, hfresh⟩ := h.fresh (by omega)
  have hest := h.established
  have hcl := h.closing
  have hde := h.destroyed
  rw [hfresh.log] at hcl
  have hzero : c.unposted.log.count .closeCallback = 0 := List.count_eq_zero.mpr hc.close
  constructor
  · simp [runs, hnil] at hest ⊢
    omega
  · rw [hzero]
    exact hcl
  · simpa [runs, hnil] using hde
  · rw [hzero]
    simp [runs, hnil]
  · exact .inr ⟨⟨v.conn.loop, [], by simp [hnil]⟩, TcpConnection.Alive.unposted (.inl hc)⟩
  · rw [hnil]
    intro pre post l heq
    cases pre with
    | nil => simp at heq
    | cons p pre => simp at heq
  · intro p hp
    rw [hnil, List.nil_append, List.mem_singleton] at hp
    rw [hp]
    exact hs.loop.symm

/-- A connection that is established runs something more: `evs`, on its own
loop. Every close among it is a token more for the base loop, and a
`connectDestroyed` takes the token that brought it. -/
theorem Ok.advance {v : ConnView} (h : v.Ok) (hne : v.history ≠ []) {c : TcpConnection}
    (hc : c.Alive) (hs : v.conn.SameConn c) (evs : List ConnRun)
    (hest : .connectEstablished ∉ evs)
    (hclose : c.log.count .closeCallback =
      v.conn.log.count .closeCallback + evs.count .close)
    {n : Nat} (hdes : n + evs.count .connectDestroyed = v.destroying)
    (hord : .connectDestroyed ∈ evs → 0 < v.runs .close) :
    Ok ⟨c.unposted, v.history ++ evs.map (v.conn.loop, ·), v.removed, v.establishing,
      v.removing + evs.count .close, n⟩ := by
  have hruns : ∀ r, runs ⟨c.unposted, v.history ++ evs.map (v.conn.loop, ·), v.removed,
      v.establishing, v.removing + evs.count .close, n⟩ r = v.runs r + evs.count r := by
    intro r
    simp [runs, Function.comp_def]
  have h₁ := h.established
  have h₂ := h.closing
  have h₃ := h.destroyed
  have h₄ := h.closed
  constructor
  · rw [hruns, List.count_eq_zero.mpr hest]
    exact h₁
  · show c.log.count .closeCallback = _
    dsimp only
    omega
  · rw [hruns]
    dsimp only
    omega
  · rw [hruns]
    show _ = c.log.count .closeCallback
    omega
  · rcases h.life with ⟨hnil, -⟩ | ⟨⟨l, rest, hhist⟩, -⟩
    · exact absurd hnil hne
    · exact .inr ⟨⟨l, rest ++ evs.map (v.conn.loop, ·), by simp [hhist]⟩, hc.unposted⟩
  · refine h.order.append ?_
    rintro ⟨l, hl⟩
    obtain ⟨r, hr, heq⟩ := List.mem_map.mp hl
    cases heq
    exact mem_close_of_runs (hord hr)
  · intro p hp
    have hloop : c.unposted.loop = v.conn.loop := hs.loop
    rw [hloop]
    rcases List.mem_append.mp hp with hp | hp
    · exact h.loop p hp
    · obtain ⟨r, -, rfl⟩ := List.mem_map.mp hp
      rfl

/-- The base loop takes the connection out of the map. -/
theorem Ok.remove {v : ConnView} (h : v.Ok) {n : Nat} (hr : v.removing = n + 1) :
    Ok { v with
      removed := v.removed + 1, removing := n, destroying := v.destroying + 1 } := by
  have h₂ := h.closing
  have h₃ := h.destroyed
  refine ⟨h.established, ?_, ?_, h.closed, h.life, h.order, h.loop⟩
  · dsimp only
    omega
  · show v.runs .connectDestroyed + (v.destroying + 1) = v.removed + 1
    omega

end ConnView

/-! ## The invariant -/

def ServerFunctor.conn : ServerFunctor → Nat
  | connectEstablished id => id
  | connFunctor id _ => id
  | removeConnectionInLoop id => id
  | connectDestroyed id => id

/-- The three functors of the removal protocol. -/
def ServerFunctor.isToken : ServerFunctor → Bool
  | connFunctor _ _ => false
  | _ => true

namespace TcpServer

/-- The loop a functor is for. -/
def home (s : TcpServer) : ServerFunctor → Nat
  | .removeConnectionInLoop _ => s.loop
  | f => (s.conn f.conn).loop

/-- How often a functor is on its way: on its queue, or in the hand of the
loop that is taking a step. -/
def pending (s : TcpServer) (held : List ServerFunctor) (f : ServerFunctor) : Nat :=
  (s.queue (s.home f)).count f + held.count f

def view (s : TcpServer) (held : List ServerFunctor) (id : Nat) : ConnView where
  conn := s.conn id
  history := s.history id
  removed := s.removed.count id
  establishing := s.pending held (.connectEstablished id)
  removing := s.pending held (.removeConnectionInLoop id)
  destroying := s.pending held (.connectDestroyed id)

/-- A functor of a connection only comes from one that is established. -/
def Expected (s : TcpServer) (f : ServerFunctor) : Prop :=
  f.conn < s.accepted ∧
    ∀ id g, f = .connFunctor id g → g.isReadControl = false ∧ s.history id ≠ []

structure Inv (s : TcpServer) (held : List ServerFunctor) : Prop where
  ipPort : s.ipPort.length ≤ 51
  bound : s.accepted < 0x80000000
  connId : s.accepted + 1 < 0x80000000 → s.nextConnId = (s.accepted + 1 : Nat)
  next : s.threadPool.loops ≠ [] → s.threadPool.next < s.threadPool.loops.length
  names : ∀ id < s.accepted,
    (s.conn id).name = s.name ++ connSuffix s.ipPort (id + 1 : Nat)
  map : ∀ n id, s.connections n = some id ↔
    id < s.accepted ∧ (s.conn id).name = n ∧ id ∉ s.removed
  removed : ∀ id ∈ s.removed, id < s.accepted
  untouched : ∀ id, s.accepted ≤ id → s.history id = []
  queue : ∀ l, ∀ f ∈ s.queue l, s.Expected f ∧ s.home f = l
  hand : ∀ f ∈ held, s.Expected f
  conns : ∀ id < s.accepted, (s.view held id).Ok

theorem Inv.name_inj {s : TcpServer} {held : List ServerFunctor} (hi : s.Inv held)
    {i j : Nat} (h₁ : i < s.accepted) (h₂ : j < s.accepted)
    (h : (s.conn i).name = (s.conn j).name) : i = j :=
  name_inj_of_names hi.ipPort hi.bound hi.names h₁ h₂ h

theorem pending_eq (s : TcpServer) (held : List ServerFunctor) (f : ServerFunctor) :
    s.pending held f = s.pending [] f + held.count f := rfl

/-! ## Queues -/

/-- Functors may move between the queues and the hand, as long as none of
the protocol's gets lost. -/
theorem Inv.withQueue {s : TcpServer} {held : List ServerFunctor} (hi : s.Inv held)
    {q : Nat → List ServerFunctor} {held' : List ServerFunctor}
    (hp : ∀ f, f.isToken = true →
      (q (s.home f)).count f + held'.count f = s.pending held f)
    (hq : ∀ l, ∀ f ∈ q l, s.Expected f ∧ s.home f = l)
    (hh : ∀ f ∈ held', s.Expected f) : Inv { s with queue := q } held' where
  ipPort := hi.ipPort
  bound := hi.bound
  connId := hi.connId
  next := hi.next
  names := hi.names
  map := hi.map
  removed := hi.removed
  untouched := hi.untouched
  queue := hq
  hand := hh
  conns := by
    intro id hid
    have hv : view { s with queue := q } held' id = s.view held id := by
      have he := hp (.connectEstablished id) rfl
      have hr := hp (.removeConnectionInLoop id) rfl
      have hd := hp (.connectDestroyed id) rfl
      show ConnView.mk _ _ _ _ _ _ = ConnView.mk _ _ _ _ _ _
      congr 1
    rw [hv]
    exact hi.conns id hid

theorem Inv.queueInLoop {s : TcpServer} {f : ServerFunctor} (hi : s.Inv [f]) :
    Inv (s.queueInLoop (s.home f) f) [] := by
  refine hi.withQueue ?_ ?_ (by simp)
  · intro g _
    by_cases hl : s.home g = s.home f
    · rw [if_pos hl, pending, List.count_append]
      rfl
    · have hgf : f ≠ g := fun h => hl (by rw [h])
      rw [if_neg hl, pending, List.count_singleton]
      simp [hgf]
  · intro l g hg
    split at hg
    · next hl =>
        rcases List.mem_append.mp hg with hg | hg
        · exact hi.queue l g hg
        · rw [List.mem_singleton.mp hg]
          exact ⟨hi.hand f List.mem_cons_self, hl.symm⟩
    · exact hi.queue l g hg

/-- The loop takes the first functor of its queue into its hand. -/
theorem Inv.pop {s : TcpServer} (hi : s.Inv []) {l : Nat} {f : ServerFunctor}
    {fs : List ServerFunctor} (hq : s.queue l = f :: fs) :
    s.home f = l ∧
      Inv { s with queue := fun k => if k = l then fs else s.queue k } [f] := by
  have hf := hi.queue l f (by rw [hq]; exact List.mem_cons_self)
  refine ⟨hf.2, hi.withQueue ?_ ?_ ?_⟩
  · intro g _
    by_cases hl : s.home g = l
    · rw [if_pos hl, pending, hl, hq]
      simp [List.count_cons]
    · have hgf : f ≠ g := fun h => hl (by rw [← h]; exact hf.2)
      rw [if_neg hl, pending, List.count_singleton]
      simp [hgf]
  · intro k g hg
    split at hg
    · next hk =>
        rw [hk]
        exact hi.queue l g (by rw [hq]; exact List.mem_cons_of_mem f hg)
    · exact hi.queue k g hg
  · intro g hg
    rw [List.mem_singleton.mp hg]
    exact hf.1

/-- A functor of a connection is no token: it may be dropped from the hand. -/
theorem Inv.drop {s : TcpServer} {id : Nat} {g : ConnFunctor}
    (hi : s.Inv [.connFunctor id g]) : s.Inv [] := by
  refine hi.withQueue ?_ hi.queue (by simp)
  intro f hf
  have hne : ServerFunctor.connFunctor id g ≠ f := by
    intro h
    rw [← h] at hf
    cases hf
  rw [pending, List.count_singleton]
  simp [hne]

/-! ## One connection runs something -/

/-- The server after loop `l` has run `evs` of a connection, which has left
it as `c`. -/
def stored (s : TcpServer) (l id : Nat) (c : TcpConnection) (evs : List ConnRun) :
    TcpServer :=
  { s.store id c with
    history := fun k =>
      if k = id then s.history k ++ evs.map (l, ·) else s.history k }

theorem record_store (s : TcpServer) (l id : Nat) (c : TcpConnection) (r : ConnRun) :
    (s.store id c).record l id r = s.stored l id c [r] := rfl

theorem record_stored (s : TcpServer) (l id : Nat) (c : TcpConnection)
    (evs : List ConnRun) (r : ConnRun) :
    (s.stored l id c evs).record l id r = s.stored l id c (evs ++ [r]) := by
  have hhist : ((s.stored l id c evs).record l id r).history =
      (s.stored l id c (evs ++ [r])).history := by
    funext k
    by_cases hk : k = id
    · simp [record, stored, hk]
    · simp [record, stored, hk]
  exact congrArg (fun h => ({ s.store id c with history := h } : TcpServer)) hhist

theorem store_eq_stored (s : TcpServer) (l id : Nat) (c : TcpConnection) :
    s.store id c = s.stored l id c [] := by
  have hhist : s.history = (s.stored l id c []).history := by
    funext k
    simp [stored]
  exact congrArg (fun h => ({ s.store id c with history := h } : TcpServer)) hhist

theorem conn_stored {s : TcpServer} {l id : Nat} {c : TcpConnection} {evs : List ConnRun}
    (hs : (s.conn id).SameConn c) (k : Nat) :
    ((s.stored l id c evs).conn k).loop = (s.conn k).loop ∧
      ((s.stored l id c evs).conn k).name = (s.conn k).name := by
  by_cases hk : k = id
  · subst hk
    have hc : (s.stored l k c evs).conn k = c.unposted := if_pos rfl
    rw [hc]
    exact ⟨hs.loop, hs.name⟩
  · have hc : (s.stored l id c evs).conn k = s.conn k := if_neg hk
    rw [hc]
    exact ⟨rfl, rfl⟩

theorem home_stored {s : TcpServer} {l id : Nat} {c : TcpConnection} {evs : List ConnRun}
    (hs : (s.conn id).SameConn c) (f : ServerFunctor) :
    (s.stored l id c evs).home f = s.home f := by
  cases f with
  | removeConnectionInLoop k => rfl
  | connectEstablished k => exact (conn_stored hs k).1
  | connFunctor k g => exact (conn_stored hs k).1
  | connectDestroyed k => exact (conn_stored hs k).1

theorem count_connFunctor (id : Nat) (fs : List ConnFunctor) {f : ServerFunctor}
    (hf : ∀ g, f ≠ .connFunctor id g) : (fs.map (ServerFunctor.connFunctor id)).count f = 0 := by
  rw [List.count_eq_zero]
  intro hmem
  obtain ⟨g, -, hg⟩ := List.mem_map.mp hmem
  exact hf g hg.symm

/-- What a connection puts on its loop's queue are no tokens. -/
theorem pending_stored {s : TcpServer} {l id : Nat} {c : TcpConnection}
    {evs : List ConnRun} (hs : (s.conn id).SameConn c) (held : List ServerFunctor)
    {f : ServerFunctor} (hf : f.isToken = true) :
    (s.stored l id c evs).pending held f = s.pending held f := by
  have hcount := count_connFunctor id c.posted (f := f) (by rintro g rfl; cases hf)
  rw [pending, home_stored hs, pending]
  show (if s.home f = c.loop then _ else _ : List ServerFunctor).count f + _ = _
  split
  · rw [List.count_append, hcount, Nat.add_zero]
  · rfl

theorem Inv.stored {s : TcpServer} {held held' : List ServerFunctor} (hi : s.Inv held)
    {l id : Nat} {c : TcpConnection} {evs : List ConnRun}
    (hs : (s.conn id).SameConn c)
    (hposted : ∀ f ∈ c.posted, f.isReadControl = false)
    (hne : s.history id ++ evs.map (l, ·) ≠ [])
    (hhand : ∀ f ∈ held', f.isToken = true ∧ f.conn < s.accepted)
    (hother : ∀ f, f.conn ≠ id → held'.count f = held.count f)
    (hid : id < s.accepted)
    (hok : ConnView.Ok { s.view held' id with
      conn := c.unposted, history := s.history id ++ evs.map (l, ·) }) :
    Inv (s.stored l id c evs) held' := by
  have hhist : ∀ k, s.history k ≠ [] → (s.stored l id c evs).history k ≠ [] := by
    intro k hk
    by_cases hkid : k = id
    · subst hkid
      exact fun h => hne ((if_pos rfl).symm.trans h)
    · exact fun h => hk ((if_neg hkid).symm.trans h)
  refine ⟨hi.ipPort, hi.bound, hi.connId, hi.next, ?_, ?_, hi.removed, ?_, ?_, ?_, ?_⟩
  · intro k hk
    rw [(conn_stored hs k).2]
    exact hi.names k hk
  · intro n k
    rw [(conn_stored hs k).2]
    exact hi.map n k
  · intro k hk
    have hkid : k ≠ id := by
      intro h
      rw [h] at hk
      exact absurd hid (Nat.not_lt.mpr hk)
    exact (if_neg hkid).trans (hi.untouched k hk)
  · intro k f hf
    rw [home_stored hs]
    have hold : f ∈ s.queue k → (s.stored l id c evs).Expected f ∧ s.home f = k := by
      intro hf
      obtain ⟨⟨hlt, hconn⟩, hhome⟩ := hi.queue k f hf
      refine ⟨⟨hlt, fun i g hg => ?_⟩, hhome⟩
      exact ⟨(hconn i g hg).1, hhist i (hconn i g hg).2⟩
    have hq : (s.stored l id c evs).queue k = if k = c.loop then
        s.queue k ++ c.posted.map (.connFunctor id) else s.queue k := rfl
    rw [hq] at hf
    split at hf
    · next hk =>
        rcases List.mem_append.mp hf with hf | hf
        · exact hold hf
        · obtain ⟨g, hg, rfl⟩ := List.mem_map.mp hf
          refine ⟨⟨hid, fun i g' heq => ?_⟩, ?_⟩
          · cases heq
            exact ⟨hposted g hg, fun h => hne ((if_pos rfl).symm.trans h)⟩
          · rw [hk]
            exact hs.loop.symm
    · exact hold hf
  · intro f hf
    obtain ⟨htok, hlt⟩ := hhand f hf
    refine ⟨hlt, fun i g heq => ?_⟩
    rw [heq] at htok
    cases htok
  · intro k hk
    by_cases hkid : k = id
    · subst hkid
      have hv : (s.stored l k c evs).view held' k = { s.view held' k with
          conn := c.unposted, history := s.history k ++ evs.map (l, ·) } := by
        simp only [view, pending_stored hs held' (f := .connectEstablished k) rfl,
          pending_stored hs held' (f := .removeConnectionInLoop k) rfl,
          pending_stored hs held' (f := .connectDestroyed k) rfl]
        simp [TcpServer.stored, store, TcpConnection.unposted]
      rw [hv]
      exact hok
    · have hv : (s.stored l id c evs).view held' k = s.view held k := by
        simp only [view, pending_stored hs held' (f := .connectEstablished k) rfl,
          pending_stored hs held' (f := .removeConnectionInLoop k) rfl,
          pending_stored hs held' (f := .connectDestroyed k) rfl,
          pending_eq s held', pending_eq s held,
          hother (.connectEstablished k) hkid, hother (.removeConnectionInLoop k) hkid,
          hother (.connectDestroyed k) hkid]
        simp [TcpServer.stored, store, hkid]
      rw [hv]
      exact hi.conns k hk

/-! ## Removing -/

/-- `connections_` without a connection that was in it. -/
theorem Inv.map_erase {s : TcpServer} {held : List ServerFunctor} (hi : s.Inv held) {id : Nat}
    (hid : id < s.accepted) (n : String) (k : Nat) :
    (if n = (s.conn id).name then none else s.connections n) = some k ↔
      k < s.accepted ∧ (s.conn k).name = n ∧ k ∉ s.removed ++ [id] := by
  split
  · next hn =>
      constructor
      · intro h
        cases h
      · rintro ⟨hk, hname, hk'⟩
        have hkid := hi.name_inj hk hid (hname.trans hn)
        exact absurd (by simp [hkid]) hk'
  · next hn =>
      rw [hi.map n k]
      constructor
      · rintro ⟨hk, hname, hk'⟩
        refine ⟨hk, hname, ?_⟩
        have hkid : k ≠ id := by
          intro h
          rw [h] at hname
          exact hn hname.symm
        simp [hk', hkid]
      · rintro ⟨hk, hname, hk'⟩
        refine ⟨hk, hname, ?_⟩
        exact fun h => hk' (List.mem_append_left _ h)

/-- The removal in hand is one of those under way. -/
theorem removing_view (s : TcpServer) (id : Nat) :
    (s.view [.removeConnectionInLoop id] id).removing =
      s.pending [] (.removeConnectionInLoop id) + 1 := by
  simp [view, pending]

/-- A connection on its way out is still in `connections_`: it was closed
once, and not taken out yet. -/
theorem Inv.not_removed {s : TcpServer} {id : Nat} (hi : s.Inv [.removeConnectionInLoop id])
    (hid : id < s.accepted) : id ∉ s.removed := by
  have hok := hi.conns id hid
  have hremoving := s.removing_view id
  have halive := hok.alive (hok.history_ne_nil (by omega))
  have hone : (s.conn id).log.count .closeCallback ≤ 1 := halive.count_close
  have hclosing : (s.conn id).log.count .closeCallback =
    s.removed.count id + (s.view [.removeConnectionInLoop id] id).removing := hok.closing
  exact List.count_eq_zero.mp (by omega)

theorem removeConnectionInLoop_inv {s : TcpServer} {id : Nat}
    (hi : s.Inv [.removeConnectionInLoop id]) :
    ∃ t, s.removeConnectionInLoop s.loop id = .ok t ∧ t.Inv [] := by
  have hid : id < s.accepted := (hi.hand _ List.mem_cons_self).1
  have hok := hi.conns id hid
  have hremoving := s.removing_view id
  have hfound : s.connections (s.conn id).name = some id :=
    (hi.map _ _).mpr ⟨hid, rfl, hi.not_removed hid⟩
  have hinv : Inv { s with
      connections := fun k => if k = (s.conn id).name then none else s.connections k
      removed := s.removed ++ [id] } [.connectDestroyed id] := by
    refine ⟨hi.ipPort, hi.bound, hi.connId, hi.next, hi.names, hi.map_erase hid, ?_,
      hi.untouched, hi.queue, ?_, ?_⟩
    · intro k hk
      rcases List.mem_append.mp hk with hk | hk
      · exact hi.removed k hk
      · rw [List.mem_singleton.mp hk]
        exact hid
    · intro f hf
      rw [List.mem_singleton.mp hf]
      exact ⟨hid, fun i g h => by cases h⟩
    · intro k hk
      by_cases hkid : k = id
      · subst hkid
        have hnew := hok.remove hremoving
        simpa [view, pending, home, loop, ServerFunctor.conn] using hnew
      · have hv := hi.conns k hk
        have hkid' : id ≠ k := fun h => hkid h.symm
        simpa [view, pending, home, loop, ServerFunctor.conn, hkid',
          List.count_singleton] using hv
  refine ⟨_, assertThat_bind_eq_ok.mpr ⟨rfl, ?_⟩, hinv.queueInLoop⟩
  dsimp only
  rw [hfound]
  rfl

theorem removeConnection_inv {s : TcpServer} {id : Nat}
    (hi : s.Inv [.removeConnectionInLoop id]) (l : Nat) :
    ∃ t, s.removeConnection l id = .ok t ∧ t.Inv [] := by
  unfold removeConnection
  split
  · next hl =>
      rw [hl]
      exact removeConnectionInLoop_inv hi
  · exact ⟨_, rfl, hi.queueInLoop⟩

/-! ## What a loop runs of a connection -/

/-- An established connection has run something on its own loop. If that
closed it, the close goes to the base loop. -/
theorem ran_inv {s : TcpServer} (hi : s.Inv []) {id : Nat} (hid : id < s.accepted)
    (hne : s.history id ≠ []) {c : TcpConnection} (hc : c.Alive)
    (hs : (s.conn id).SameConn c) {r : ConnRun} (hest : r ≠ .connectEstablished)
    (hcl : r ≠ .close) (hde : r ≠ .connectDestroyed) :
    ∃ t, s.ran (s.conn id).loop id r c = .ok t ∧ t.Inv [] := by
  have hok := hi.conns id hid
  have hposted := hc.established.posted
  have hle := hs.count_close_le
  have hone := hc.count_close
  rw [ran, record_store]
  by_cases hsame : c.log.count .closeCallback = (s.conn id).log.count .closeCallback
  · rw [hsame, Nat.sub_self]
    refine ⟨_, rfl, hi.stored hs hposted (by simp) (by simp) (fun _ _ => rfl) hid ?_⟩
    have hadv := hok.advance hne hc hs [r] (by simpa using hest.symm)
      (by rw [hsame]; simp [view, hcl]) (n := (s.view [] id).destroying) (by simp [hde])
      (by simp [hde.symm])
    simpa [hcl, view] using hadv
  · have hsub : c.log.count .closeCallback - (s.conn id).log.count .closeCallback = 1 := by
      omega
    rw [hsub, closeCallbacks, record_stored]
    have hinv : Inv (s.stored (s.conn id).loop id c ([r] ++ [.close]))
        [.removeConnectionInLoop id] := by
      refine hi.stored hs hposted (by simp) ?_ ?_ hid ?_
      · intro f hf
        rw [List.mem_singleton.mp hf]
        exact ⟨rfl, hid⟩
      · intro f hf
        have hfid : ServerFunctor.removeConnectionInLoop id ≠ f := by
          intro h
          rw [← h] at hf
          exact hf rfl
        simp [hfid]
      · have hadv := hok.advance hne hc hs ([r] ++ [.close])
          (by simpa using hest.symm)
          (by simp [view, hcl]; omega)
          (n := (s.view [] id).destroying) (by simp [hde])
          (by simp [hde.symm])
        simpa [List.count_singleton, hcl, view, pending] using hadv
    obtain ⟨t, ht, hit⟩ := removeConnection_inv hinv (s.conn id).loop
    exact ⟨t, bind_eq_ok.mpr ⟨t, ht, rfl⟩, hit⟩

open TcpConnection in
theorem connectEstablished_inv {s : TcpServer} {id : Nat}
    (hi : s.Inv [.connectEstablished id]) {up : List Call}
    (hup : noReadControl up = true) :
    ∃ t, s.connectEstablished (s.conn id).loop id up = .ok t ∧ t.Inv [] := by
  have hid : id < s.accepted := (hi.hand _ List.mem_cons_self).1
  have hok := hi.conns id hid
  have hest : (s.view [.connectEstablished id] id).establishing =
      s.pending [] (.connectEstablished id) + 1 := by
    simp [view, pending]
  obtain ⟨hnil, hfresh⟩ := hok.fresh (by omega)
  obtain ⟨c, hc, hopen, hs⟩ := connectEstablished_spec hfresh hup
  have hzero : c.log.count .closeCallback = 0 := List.count_eq_zero.mpr hopen.close
  have hinv : Inv (s.stored (s.conn id).loop id c [.connectEstablished]) [] := by
    refine hi.stored hs hopen.posted (by simp) (by simp) ?_ hid ?_
    · intro f hf
      have hfid : ServerFunctor.connectEstablished id ≠ f := by
        intro h
        rw [← h] at hf
        exact hf rfl
      simp [hfid]
    · have hnew := hok.establish hest hopen hs
      simpa [view, pending] using hnew
  refine ⟨_, assertThat_bind_eq_ok.mpr ⟨rfl, bind_eq_ok.mpr ⟨c, hc, ?_⟩⟩, hinv⟩
  rw [ran, hzero, Nat.zero_sub]
  rfl

theorem connectDestroyed_inv {s : TcpServer} {id : Nat}
    (hi : s.Inv [.connectDestroyed id]) (down : List Call) :
    ∃ t, s.connectDestroyed (s.conn id).loop id down = .ok t ∧ t.Inv [] := by
  have hid : id < s.accepted := (hi.hand _ List.mem_cons_self).1
  have hok := hi.conns id hid
  have hdes : (s.view [.connectDestroyed id] id).destroying =
      s.pending [] (.connectDestroyed id) + 1 := by
    simp [view, pending]
  have hremoved := hok.destroyed
  have hclosing := hok.closing
  have hruns := hok.closed
  have hne : s.history id ≠ [] := hok.history_ne_nil (by omega)
  have halive : (s.conn id).Alive := hok.alive hne
  have hpos : 0 < (s.conn id).log.count .closeCallback := by
    have : (s.view [.connectDestroyed id] id).conn = s.conn id := rfl
    rw [this] at hclosing
    omega
  obtain ⟨c, hc, hclosed, hs⟩ := TcpConnection.connectDestroyed_closed (halive.closed hpos) down
  have hle := hs.count_close_le
  have hone := TcpConnection.Alive.count_close (.inr hclosed)
  have hsame : c.log.count .closeCallback = (s.conn id).log.count .closeCallback := by
    omega
  have hinv : Inv (s.stored (s.conn id).loop id c [.connectDestroyed]) [] := by
    refine hi.stored hs hclosed.posted (by simp) (by simp) ?_ hid ?_
    · intro f hf
      have hfid : ServerFunctor.connectDestroyed id ≠ f := by
        intro h
        rw [← h] at hf
        exact hf rfl
      simp [hfid]
    · have hadv := hok.advance hne (.inr hclosed) hs [.connectDestroyed]
        (by simp) (by simpa [view] using hsame)
        (n := s.pending [] (.connectDestroyed id)) (by rw [hdes]; rfl)
        (fun _ => by rw [hruns]; exact hpos)
      simpa [view, pending] using hadv
  refine ⟨_, assertThat_bind_eq_ok.mpr ⟨rfl, bind_eq_ok.mpr ⟨c, hc, ?_⟩⟩, hinv⟩
  rw [ran, hsame, Nat.sub_self]
  rfl

open TcpConnection in
theorem runConnFunctor_inv {s : TcpServer} {id : Nat} {f : ConnFunctor}
    (hi : s.Inv [.connFunctor id f]) (w : WriteResult) {ks down close : List Call}
    (hks : noReadControl ks = true) (hd : noReadControl down = true)
    (hcl : noReadControl close = true) :
    ∃ t, s.runConnFunctor (s.conn id).loop id f w ks down close = .ok t ∧ t.Inv [] := by
  obtain ⟨hid, hconn⟩ := hi.hand _ List.mem_cons_self
  obtain ⟨hread, hne⟩ := hconn id f rfl
  have halive : (s.conn id).Alive := (hi.conns id hid).alive hne
  obtain ⟨c, hc, hc', hs⟩ := runFunctor_spec halive hread w hks hd hcl
  obtain ⟨t, ht, hit⟩ := ran_inv hi.drop hid hne hc' hs (r := .functor f)
    (by simp) (by simp) (by simp)
  refine ⟨t, ?_, hit⟩
  unfold runConnFunctor
  cases f.isCallback with
  | true => exact bind_eq_ok.mpr ⟨c, hc, ht⟩
  | false => exact assertThat_bind_eq_ok.mpr ⟨rfl, bind_eq_ok.mpr ⟨c, hc, ht⟩⟩

/-! ## Accepting -/

theorem getNextLoop_spec {p : EventLoopThreadPool}
    (h : p.loops ≠ [] → p.next < p.loops.length) :
    ∃ l q, p.getNextLoop = .ok (l, q) ∧ q.baseLoop = p.baseLoop ∧
      (q.loops ≠ [] → q.next < q.loops.length) := by
  unfold EventLoopThreadPool.getNextLoop
  by_cases hnil : p.loops = []
  · refine ⟨p.baseLoop, p, ?_, rfl, h⟩
    simp [hnil]
  · have hlt := h hnil
    rw [List.getElem?_eq_getElem hlt]
    refine ⟨p.loops[p.next], { p with
      next := if p.next + 1 ≥ p.loops.length then 0 else p.next + 1 }, ?_, rfl, fun _ => ?_⟩
    · simp [hnil]
    · dsimp only
      split <;> omega

theorem new_fresh (loop : Nat) (name : String) (wcc hwmc : Bool) :
    (TcpConnection.new loop name wcc hwmc).Fresh := by
  refine ⟨rfl, rfl, rfl, ?_, rfl, rfl⟩
  exact Buffer.readable_eq_nil.mpr rfl

/-- The server with one more connection, before that is established. -/
def accept (s : TcpServer) (ioLoop : Nat) (threadPool : EventLoopThreadPool) : TcpServer :=
  let connName := s.name ++ connSuffix s.ipPort s.nextConnId
  { s with
    threadPool := threadPool
    nextConnId := Int.bmod (s.nextConnId + 1) 0x100000000
    accepted := s.accepted + 1
    conn := fun k =>
      if k = s.accepted then
        TcpConnection.new ioLoop connName s.hasWriteCompleteCallback false
      else s.conn k
    connections := fun k => if k = connName then some s.accepted else s.connections k }

theorem conn_accept_of_lt {s : TcpServer} {ioLoop k : Nat} {p : EventLoopThreadPool}
    (hk : k < s.accepted) : (s.accept ioLoop p).conn k = s.conn k :=
  if_neg (Nat.ne_of_lt hk)

theorem conn_accept_self (s : TcpServer) (ioLoop : Nat) (p : EventLoopThreadPool) :
    (s.accept ioLoop p).conn s.accepted = TcpConnection.new ioLoop
      (s.name ++ connSuffix s.ipPort s.nextConnId) s.hasWriteCompleteCallback false :=
  if_pos rfl

theorem nextConnId_accept {s : TcpServer} (hid : s.nextConnId = (s.accepted + 1 : Nat))
    (ioLoop : Nat) (p : EventLoopThreadPool) (h : s.accepted + 1 + 1 < 0x80000000) :
    (s.accept ioLoop p).nextConnId = (s.accepted + 1 + 1 : Nat) := by
  show Int.bmod (s.nextConnId + 1) 0x100000000 = (s.accepted + 1 + 1 : Nat)
  rw [hid, Int.bmod_eq_of_le (by omega) (by omega)]
  omega

/-- The numbering goes on. -/
theorem names_accept {s : TcpServer}
    (hnames : ∀ id < s.accepted,
      (s.conn id).name = s.name ++ connSuffix s.ipPort (id + 1 : Nat))
    (hid : s.nextConnId = (s.accepted + 1 : Nat)) (ioLoop : Nat) (p : EventLoopThreadPool)
    (k : Nat) (hk : k < s.accepted + 1) :
    ((s.accept ioLoop p).conn k).name = s.name ++ connSuffix s.ipPort (k + 1 : Nat) := by
  rcases Nat.lt_succ_iff_lt_or_eq.mp hk with hk | hk
  · rw [conn_accept_of_lt hk]
    exact hnames k hk
  · rw [hk, conn_accept_self, hid]
    rfl

/-- Functors of other connections still go where they went. -/
theorem home_accept {s : TcpServer} {ioLoop : Nat} {p : EventLoopThreadPool}
    (hp : p.baseLoop = s.loop) {f : ServerFunctor} (hf : f.conn < s.accepted) :
    (s.accept ioLoop p).home f = s.home f := by
  cases f with
  | removeConnectionInLoop k => exact hp
  | connectEstablished k => exact congrArg (·.loop) (conn_accept_of_lt hf)
  | connFunctor k g => exact congrArg (·.loop) (conn_accept_of_lt hf)
  | connectDestroyed k => exact congrArg (·.loop) (conn_accept_of_lt hf)

/-- The name of the new connection is no other's. -/
theorem Inv.connName_new {s : TcpServer} (hi : s.Inv [])
    (hlt : s.accepted + 1 < 0x80000000) {k : Nat} (hk : k < s.accepted) :
    (s.conn k).name ≠ s.name ++ connSuffix s.ipPort s.nextConnId :=
  connName_ne_of_names hi.ipPort hi.names hlt (hi.connId hlt) hk

/-- A queue holds nothing of a connection that is not there yet. -/
theorem Inv.count_queue_new {s : TcpServer} (hi : s.Inv []) (l : Nat) {f : ServerFunctor}
    (hf : f.conn = s.accepted) : (s.queue l).count f = 0 := by
  rw [List.count_eq_zero]
  intro hmem
  have hlt := (hi.queue l f hmem).1.1
  omega

theorem Inv.map_accept {s : TcpServer} (hi : s.Inv []) (hlt : s.accepted + 1 < 0x80000000)
    (ioLoop : Nat) (p : EventLoopThreadPool) (n : String) (k : Nat) :
    (s.accept ioLoop p).connections n = some k ↔
      k < s.accepted + 1 ∧ ((s.accept ioLoop p).conn k).name = n ∧ k ∉ s.removed := by
  show (if n = s.name ++ connSuffix s.ipPort s.nextConnId then some s.accepted
      else s.connections n) = some k ↔ _
  split
  · next hn =>
      constructor
      · intro h
        cases h
        refine ⟨Nat.lt_succ_self _, ?_, fun h => Nat.lt_irrefl _ (hi.removed _ h)⟩
        rw [conn_accept_self, hn]
        rfl
      · rintro ⟨hk, hname, -⟩
        rcases Nat.lt_succ_iff_lt_or_eq.mp hk with hk | hk
        · rw [conn_accept_of_lt hk, hn] at hname
          exact absurd hname (hi.connName_new hlt hk)
        · rw [hk]
  · next hn =>
      rw [hi.map n k]
      constructor
      · rintro ⟨hk, hname, hk'⟩
        rw [conn_accept_of_lt hk]
        exact ⟨Nat.lt_succ_of_lt hk, hname, hk'⟩
      · rintro ⟨hk, hname, hk'⟩
        rcases Nat.lt_succ_iff_lt_or_eq.mp hk with hk | hk
        · rw [conn_accept_of_lt hk] at hname
          exact ⟨hk, hname, hk'⟩
        · rw [hk, conn_accept_self] at hname
          exact absurd hname.symm hn

/-- The other connections do not notice. -/
theorem view_accept_of_lt {s : TcpServer} {ioLoop k : Nat} {p : EventLoopThreadPool}
    (hp : p.baseLoop = s.loop) (hk : k < s.accepted) :
    (s.accept ioLoop p).view [.connectEstablished s.accepted] k = s.view [] k := by
  have hne : s.accepted ≠ k := fun h => Nat.lt_irrefl _ (h ▸ hk)
  unfold view pending
  rw [conn_accept_of_lt hk, home_accept hp (f := .connectEstablished k) hk,
    home_accept hp (f := .removeConnectionInLoop k) hk,
    home_accept hp (f := .connectDestroyed k) hk]
  simp [accept, hne]

/-- The new connection has nothing behind it but its `connectEstablished`. -/
theorem Inv.view_accept_self {s : TcpServer} (hi : s.Inv []) (ioLoop : Nat)
    (p : EventLoopThreadPool) :
    (s.accept ioLoop p).view [.connectEstablished s.accepted] s.accepted =
      ⟨TcpConnection.new ioLoop (s.name ++ connSuffix s.ipPort s.nextConnId)
        s.hasWriteCompleteCallback false, [], 0, 1, 0, 0⟩ := by
  have hhist := hi.untouched s.accepted (Nat.le_refl _)
  have hcount : s.removed.count s.accepted = 0 :=
    List.count_eq_zero.mpr fun h => Nat.lt_irrefl _ (hi.removed _ h)
  have hpend : ∀ f : ServerFunctor, f.conn = s.accepted →
      (s.accept ioLoop p).pending [.connectEstablished s.accepted] f =
        [ServerFunctor.connectEstablished s.accepted].count f := by
    intro f hf
    show (s.queue _).count f + _ = _
    rw [hi.count_queue_new _ hf, Nat.zero_add]
  unfold view
  rw [hpend _ rfl, hpend _ rfl, hpend _ rfl, conn_accept_self]
  simp [accept, hhist, hcount]

theorem accept_inv {s : TcpServer} (hi : s.Inv []) (hlt : s.accepted + 1 < 0x80000000)
    (ioLoop : Nat) {p : EventLoopThreadPool} (hp : p.baseLoop = s.loop)
    (hnext : p.loops ≠ [] → p.next < p.loops.length) :
    (s.accept ioLoop p).Inv [.connectEstablished s.accepted] where
  ipPort := hi.ipPort
  bound := hlt
  connId h := nextConnId_accept (hi.connId hlt) ioLoop p h
  next := hnext
  names := names_accept hi.names (hi.connId hlt) ioLoop p
  map := hi.map_accept hlt ioLoop p
  removed k hk := Nat.lt_succ_of_lt (hi.removed k hk)
  untouched k hk := hi.untouched k (Nat.le_of_succ_le hk)
  queue l f hf := by
    obtain ⟨⟨hf', hconn⟩, hhome⟩ := hi.queue l f hf
    rw [home_accept hp hf']
    exact ⟨⟨Nat.lt_succ_of_lt hf', hconn⟩, hhome⟩
  hand f hf := by
    rw [List.mem_singleton.mp hf]
    exact ⟨Nat.lt_succ_self _, fun i g h => by cases h⟩
  conns k hk := by
    rcases Nat.lt_succ_iff_lt_or_eq.mp hk with hk | rfl
    · rw [view_accept_of_lt hp hk]
      exact hi.conns k hk
    · rw [hi.view_accept_self]
      refine ⟨rfl, rfl, rfl, rfl, .inl ⟨rfl, new_fresh _ _ _ _⟩, ?_, by simp⟩
      intro pre post l heq
      simp at heq

open TcpConnection in
theorem newConnection_inv {s : TcpServer} (hi : s.Inv []) (hlt : s.accepted + 1 < 0x80000000)
    {up : List Call} (hup : noReadControl up = true) :
    ∃ t, s.newConnection up = .ok t ∧ t.Inv [] := by
  obtain ⟨ioLoop, p, hnext, hp, hp'⟩ := getNextLoop_spec hi.next
  have hinv := accept_inv hi hlt ioLoop hp hp'
  have hloop : ((s.accept ioLoop p).conn s.accepted).loop = ioLoop := by
    rw [conn_accept_self]
    rfl
  by_cases hl : ioLoop = p.baseLoop
  · obtain ⟨t, ht, hit⟩ := connectEstablished_inv hinv hup
    refine ⟨t, bind_eq_ok.mpr ⟨_, hnext, ?_⟩, hit⟩
    rw [hloop] at ht
    exact (if_pos hl).trans ht
  · have hpush := hinv.queueInLoop
    refine ⟨_, bind_eq_ok.mpr ⟨_, hnext, if_neg hl⟩, ?_⟩
    have hhome : (s.accept ioLoop p).home (.connectEstablished s.accepted) = ioLoop := hloop
    rw [hhome] at hpush
    exact hpush

end TcpServer

/-! ## Whole runs -/

inductive ServerStep where
  /-- The base loop accepts a connection. -/
  | newConnection (up : List Call)
  /-- A loop runs the first functor of its queue. -/
  | runFunctor (l : Nat) (w : WriteResult) (ks down close : List Call)
  /-- The channel of a connection reports an event. -/
  | handleEvent (id : Nat) (e : TcpConnection.EventScript) (locked : Bool)
      (revents : EventMask) (receiveTime : Timestamp)
  /-- A user, who has the connection from its UP callback, calls. -/
  | call (id : Nat) (k : Call)

namespace TcpServer

open TcpConnection

def guard (s : TcpServer) : ServerStep → Bool
  | .newConnection up => s.accepted + 1 < 0x80000000 && noReadControl up
  | .runFunctor l _ ks down close =>
      !(s.queue l).isEmpty && noReadControl ks && noReadControl down && noReadControl close
  | .handleEvent id e locked revents receiveTime =>
      id < s.accepted && !(s.conn id).channel.isNoneEvent && revents.fromKernel &&
        e.noReadControl && (s.conn id).writeFits e locked revents receiveTime
  | .call id k =>
      id < s.accepted && (s.conn id).log.contains (.connectionCallback true) &&
        !k.isReadControl

def exec : ServerStep → TcpServer → Except Fault TcpServer
  | .newConnection up, s => s.newConnection up
  | .runFunctor l w ks down close, s => s.runFunctor l w ks down close
  | .handleEvent id e locked revents receiveTime, s =>
      s.handleEvent id e locked revents receiveTime
  | .call id k, s => s.call id k

def machine : Machine TcpServer ServerStep Fault := ⟨guard, exec⟩

theorem runFunctor_inv {s : TcpServer} (hi : s.Inv []) {l : Nat} (hne : s.queue l ≠ [])
    (w : WriteResult) {ks down close : List Call} (hks : noReadControl ks = true)
    (hd : noReadControl down = true) (hcl : noReadControl close = true) :
    ∃ t, s.runFunctor l w ks down close = .ok t ∧ t.Inv [] := by
  cases hq : s.queue l with
  | nil => exact absurd hq hne
  | cons f fs =>
      obtain ⟨hhome, hinv⟩ := hi.pop hq
      simp only [runFunctor, hq]
      cases f with
      | connectEstablished id =>
          subst hhome
          exact connectEstablished_inv hinv hks
      | connFunctor id g =>
          subst hhome
          exact runConnFunctor_inv hinv w hks hd hcl
      | removeConnectionInLoop id =>
          subst hhome
          exact removeConnectionInLoop_inv hinv
      | connectDestroyed id =>
          subst hhome
          exact connectDestroyed_inv hinv down

/-- A connection that has shown any sign of life is established. -/
theorem Inv.history_ne_nil {s : TcpServer} (hi : s.Inv []) {id : Nat}
    (hid : id < s.accepted) (hfresh : ¬(s.conn id).Fresh) : s.history id ≠ [] := by
  rcases (hi.conns id hid).life with ⟨-, h⟩ | ⟨⟨l, rest, hhist⟩, -⟩
  · exact absurd h hfresh
  · intro hnil
    exact absurd (hnil.symm.trans hhist) (by simp)

/-- Every action on offer runs to its end, and keeps the invariant. -/
theorem step_inv {s : TcpServer} {a : ServerStep} (hi : s.Inv [])
    (hg : s.guard a = true) : ∃ t, exec a s = .ok t ∧ t.Inv [] := by
  cases a with
  | newConnection up =>
      simp only [guard, Bool.and_eq_true, decide_eq_true_eq] at hg
      exact newConnection_inv hi hg.1 hg.2
  | runFunctor l w ks down close =>
      simp only [guard, Bool.and_eq_true, Bool.not_eq_true', List.isEmpty_eq_false_iff] at hg
      obtain ⟨⟨⟨hne, hks⟩, hd⟩, hcl⟩ := hg
      exact runFunctor_inv hi hne w hks hd hcl
  | handleEvent id e locked revents receiveTime =>
      simp only [guard, Bool.and_eq_true, decide_eq_true_eq, Bool.not_eq_true'] at hg
      obtain ⟨⟨⟨⟨hid, hint⟩, hk⟩, he⟩, hfit⟩ := hg
      have hne : s.history id ≠ [] := by
        refine hi.history_ne_nil hid fun hfresh => ?_
        rw [Channel.isNoneEvent, hfresh.events] at hint
        exact absurd hint (by decide)
      have halive : (s.conn id).Alive := (hi.conns id hid).alive hne
      rcases halive with hopen | hclosed
      · obtain ⟨c, hc, hc', hs⟩ := handleEvent_spec hopen he hk hfit
        obtain ⟨t, ht, hit⟩ := ran_inv hi hid hne hc' hs (r := .handleEvent)
          (by simp) (by simp) (by simp)
        exact ⟨t, bind_eq_ok.mpr ⟨c, hc, ht⟩, hit⟩
      · rw [hclosed.events] at hint
        cases hint
  | call id k =>
      simp only [guard, Bool.and_eq_true, decide_eq_true_eq, Bool.not_eq_true'] at hg
      obtain ⟨⟨hid, hup⟩, hk⟩ := hg
      have hne : s.history id ≠ [] := by
        refine hi.history_ne_nil hid fun hfresh => ?_
        rw [hfresh.log] at hup
        cases hup
      have hok := hi.conns id hid
      have halive : (s.conn id).Alive := hok.alive hne
      obtain ⟨c, hc, hc', hs⟩ := halive.call hk
      have hsame : c.log.count .closeCallback = (s.conn id).log.count .closeCallback := by
        rcases halive with hopen | hclosed
        · obtain ⟨c₁, hc₁, hopen', -⟩ := hopen.call hk
          cases hc.symm.trans hc₁
          rw [List.count_eq_zero.mpr hopen.close, List.count_eq_zero.mpr hopen'.close]
        · rw [call_disconnected hclosed.state hk] at hc
          cases hc
          rfl
      refine ⟨_, bind_eq_ok.mpr ⟨c, hc, rfl⟩, ?_⟩
      rw [store_eq_stored s (s.conn id).loop]
      refine hi.stored hs hc'.established.posted (by simpa using hne) (by simp)
        (fun _ _ => rfl) hid ?_
      have hadv := hok.advance hne hc' hs [] (by simp) (by simpa [view] using hsame)
        (n := (s.view [] id).destroying) (by simp) (by simp)
      simpa [view] using hadv

theorem new_inv {baseLoop : Nat} {loops : List Nat} {listenAddr : InetAddress}
    {nameArg : String} {wcc : Bool} {s : TcpServer}
    (h : new baseLoop loops listenAddr nameArg wcc = .ok s) : s.Inv [] := by
  obtain ⟨ipPort, hip, hlen⟩ := listenAddr.toIpPort_spec
  obtain ⟨ipPort', hip', h⟩ := bind_eq_ok.mp h
  cases hip.symm.trans hip'
  cases h
  refine ⟨hlen, Nat.succ_pos _, fun _ => rfl, ?_, ?_, ?_, ?_, fun _ _ => rfl, ?_, ?_, ?_⟩
  · intro hne
    exact List.length_pos_iff.mpr hne
  · intro id hid
    exact absurd hid (Nat.not_lt_zero id)
  · intro n id
    simp
  · simp
  · simp
  · simp
  · intro id hid
    exact absurd hid (Nat.not_lt_zero id)

/-- The removal protocol, in every state of a server that has accepted fewer
than 2^31 connections. No step on offer makes an assertion fail, so the
erase in `removeConnectionInLoop` removes one entry. Names are distinct, and
the next one is not in the map. The map holds what was accepted and not
removed. Of a connection everything runs on its own loop;
`connectEstablished` runs first and once, or is still on its way once;
`connectDestroyed` runs at most once, and behind a close. Left out are the log
records, the `LOG_INFO` of `newConnection` and of `removeConnectionInLoop`
among them, which abort in this build (`Proofs.LogRecord`). -/
theorem removal_protocol {baseLoop : Nat} {loops : List Nat} {listenAddr : InetAddress}
    {nameArg : String} {wcc : Bool} {s₀ s : TcpServer}
    (hs : new baseLoop loops listenAddr nameArg wcc = .ok s₀)
    (hr : machine.Reaches s₀ s) :
    machine.Safe s ∧
      (∀ i j, i < s.accepted → j < s.accepted →
        (s.conn i).name = (s.conn j).name → i = j) ∧
      (s.accepted + 1 < 0x80000000 →
        s.connections (s.name ++ connSuffix s.ipPort s.nextConnId) = none) ∧
      (∀ n id, s.connections n = some id ↔
        id < s.accepted ∧ (s.conn id).name = n ∧ id ∉ s.removed) ∧
      ∀ id < s.accepted,
        (∀ p ∈ s.history id, p.1 = (s.conn id).loop) ∧
        (s.history id = [] ∨
          ∃ rest, s.history id = ((s.conn id).loop, .connectEstablished) :: rest) ∧
        ((s.history id).map Prod.snd).count .connectEstablished +
          (s.queue (s.conn id).loop).count (.connectEstablished id) = 1 ∧
        ((s.history id).map Prod.snd).count .connectDestroyed ≤ 1 ∧
        ConnView.CloseFirst (s.history id) := by
  have hi : s.Inv [] := by
    refine hr.invariant (I := fun s => s.Inv []) (new_inv hs) ?_
    intro s t a hi hg he
    obtain ⟨t', ht', hi'⟩ := step_inv hi hg
    cases ht'.symm.trans he
    exact hi'
  refine ⟨?_, fun i j h₁ h₂ h => hi.name_inj h₁ h₂ h, ?_, hi.map, ?_⟩
  · intro a hg
    obtain ⟨t, ht, -⟩ := step_inv hi hg
    exact ⟨t, ht⟩
  · intro hlt
    cases hfind : s.connections (s.name ++ connSuffix s.ipPort s.nextConnId) with
    | none => rfl
    | some id =>
        obtain ⟨hid, hname, -⟩ := (hi.map _ _).mp hfind
        exact absurd hname (hi.connName_new hlt hid)
  · intro id hid
    have hok := hi.conns id hid
    refine ⟨hok.loop, ?_, hok.established, ?_, hok.order⟩
    · rcases hok.life with ⟨hnil, -⟩ | ⟨⟨l, rest, hhist⟩, -⟩
      · exact .inl hnil
      · have hl : l = (s.conn id).loop :=
          hok.loop (l, .connectEstablished) (by rw [hhist]; simp)
        exact .inr ⟨rest, hl ▸ hhist⟩
    · have hde := hok.destroyed
      have hcl := hok.closing
      by_cases hnil : s.history id = []
      · rw [hnil]
        simp
      · have hone := (hok.alive hnil).count_close
        have hruns : ((s.history id).map Prod.snd).count .connectDestroyed =
          (s.view [] id).runs .connectDestroyed := rfl
        omega

/-- Two connections are accepted for one loop; the first is closed by its
peer before the second is established. -/
def closedEarly : List ServerStep :=
  [.newConnection [], .runFunctor 1 (.wrote 0) [] [] [], .newConnection [],
    .handleEvent 0 ⟨.eof, .wrote 0, [], [], []⟩ true POLLIN 5]

theorem removal_protocol_closedEarly :
    ∃ s₀ s, new 0 [1] (.v4 ⟨127, 0, 0, 1⟩ 80) "server" false = .ok s₀ ∧
      machine.run closedEarly s₀ = some s ∧ s.queue 0 = [.removeConnectionInLoop 0] ∧
      s.queue 1 = [.connectEstablished 1] ∧ (s.conn 0).name ≠ (s.conn 1).name ∧
      ∃ t, machine.exec (.runFunctor 0 (.wrote 0) [] [] []) s = .ok t := by
  obtain ⟨s₀, s, hs₀, hr, hq₀, hq₁, hacc⟩ : ∃ s₀ s,
      new 0 [1] (.v4 ⟨127, 0, 0, 1⟩ 80) "server" false = .ok s₀ ∧
      machine.run closedEarly s₀ = some s ∧ s.queue 0 = [.removeConnectionInLoop 0] ∧
      s.queue 1 = [.connectEstablished 1] ∧ s.accepted = 2 :=
    ⟨_, _, rfl, rfl, rfl, rfl, rfl⟩
  obtain ⟨hsafe, hnames, -⟩ := removal_protocol hs₀ ⟨closedEarly, hr⟩
  refine ⟨s₀, s, hs₀, hr, hq₀, hq₁, ?_, hsafe _ ?_⟩
  · intro h
    exact absurd (hnames 0 1 (by omega) (by omega) h) (by decide)
  · simp [machine, guard, hq₀, noReadControl]

end TcpServer

end Libanet.Net
