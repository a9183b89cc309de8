import Libanet.Proofs.OutputStream

/-!
# Many threads sending on one connection

`send` from a thread that is not the loop's tests `state_`, copies the message
into a functor and puts it on the queue of the loop. Between the test and the
queue everything else may happen, and between the queue and `sendInLoop` as
well: the loop writes what waits, user code on the loop thread sends and
overtakes the queue, the connection shuts down or closes.

What the peer is promised all the same is that messages arrive whole, and
those of one thread in the order of its calls. The bytes on the wire are the
messages of `wire`, one after another, and for each thread these are taken in
order from what has been run for it, which is the part of its calls that is
not on its way any more. Nothing is taken out but by a drop, of a connection
that is down or whose peer is gone.

The callbacks a connection queues and the functors of `shutdown` and
`forceClose` do not carry data. They may run at any time here.
-/

namespace Libanet.Net

/-- A message, and who sent it. -/
abbrev Sent (Tid : Type) := Tid × List UInt8

structure SendersSystem (Tid : Type) where
  conn : TcpConnection
  /-- A thread inside `send`, which has found the connection up. -/
  calling : Tid → Option (List UInt8)
  pendingFunctors : List (Sent Tid)
  /-- What is left of the batch the current `doPendingFunctors` swapped out. -/
  functors : List (Sent Tid)
  callingPendingFunctors : Bool
  /-- The calls of `send` that found the connection up, in order. -/
  calls : List (Sent Tid)
  /-- The functors that were run. -/
  ran : List (Sent Tid)
  /-- Those whose data was dropped. -/
  dropped : List (Sent Tid)
  /-- The sends that were not dropped, those of the loop thread included. -/
  wire : List (Sent (Option Tid))

inductive SendersStep (Tid : Type) where
  /-- `send`, as far as the test of `state_`. -/
  | send (t : Tid) (message : List UInt8)
  /-- The rest of it. -/
  | queueInLoop (t : Tid)
  | shutdown
  | forceClose
  | swap
  | runFunctor (w : WriteResult)
  | functorsDone
  /-- Anything else the loop does with the connection. -/
  | loop (a : LoopStep)

namespace SendersSystem

variable {Tid : Type} [DecidableEq Tid]

/-- On a connection as constructed. -/
def start (c : TcpConnection) : SendersSystem Tid :=
  ⟨c, fun _ => none, [], [], false, [], [], [], []⟩

def guard (s : SendersSystem Tid) : SendersStep Tid → Bool
  | .send t _ => (s.calling t).isNone
  | .queueInLoop t => (s.calling t).isSome
  | .shutdown => true
  | .forceClose => true
  | .swap => !s.callingPendingFunctors
  | .runFunctor w =>
      match s.functors with
      | [] => false
      | (_, message) :: _ => w.fits message.length
  | .functorsDone => s.callingPendingFunctors && s.functors.isEmpty
  | .loop a => loopThread.guard s.conn a

def setCalling (t : Tid) (m : Option (List UInt8)) (s : SendersSystem Tid) : SendersSystem Tid :=
  { s with calling := fun u => if u = t then m else s.calling u }

def send (t : Tid) (message : List UInt8) (s : SendersSystem Tid) : SendersSystem Tid :=
  if s.conn.state = .kConnected then
    { s.setCalling t (some message) with calls := s.calls ++ [(t, message)] }
  else s

def queueInLoop (t : Tid) (s : SendersSystem Tid) : SendersSystem Tid :=
  match s.calling t with
  | none => s
  | some message =>
      { s.setCalling t none with pendingFunctors := s.pendingFunctors ++ [(t, message)] }

def runFunctor (w : WriteResult) (s : SendersSystem Tid) : Except Fault (SendersSystem Tid) :=
  match s.functors with
  | [] => .ok s
  | (t, message) :: functors => do
      let conn ← s.conn.sendInLoop message w
      return { s with
        conn := conn
        functors := functors
        ran := s.ran ++ [(t, message)]
        dropped := if s.conn.drops w then s.dropped ++ [(t, message)] else s.dropped
        wire := if s.conn.drops w then s.wire else s.wire ++ [(some t, message)] }

/-- What a step of the loop sends itself. -/
def loopSends (c : TcpConnection) : LoopStep → List (Sent (Option Tid))
  | .sendInLoop data w => if c.drops w then [] else [(none, data)]
  | _ => []

def loopStep (a : LoopStep) (s : SendersSystem Tid) : Except Fault (SendersSystem Tid) := do
  let conn ← loopThread.exec a s.conn
  return { s with conn := conn, wire := s.wire ++ loopSends s.conn a }

def exec : SendersStep Tid → SendersSystem Tid → Except Fault (SendersSystem Tid)
  | .send t message, s => .ok (s.send t message)
  | .queueInLoop t, s => .ok (s.queueInLoop t)
  | .shutdown, s => .ok { s with conn := s.conn.shutdown false }
  | .forceClose, s => .ok { s with conn := s.conn.forceClose }
  | .swap, s => .ok { s with
      functors := s.pendingFunctors
      pendingFunctors := []
      callingPendingFunctors := true }
  | .runFunctor w, s => s.runFunctor w
  | .functorsDone, s => .ok { s with callingPendingFunctors := false }
  | .loop a, s => s.loopStep a

def machine : Machine (SendersSystem Tid) (SendersStep Tid) Fault := ⟨guard, exec⟩

/-! ## The messages of one thread -/

/-- The messages of the list that `t` has sent. -/
def ofThread {α : Type} [DecidableEq α] (t : α) (l : List (Sent α)) : List (List UInt8) :=
  l.filterMap fun x => if x.1 = t then some x.2 else none

section

variable {α : Type} [DecidableEq α]

@[simp] theorem ofThread_nil (t : α) : ofThread t [] = [] := rfl

@[simp] theorem ofThread_append (t : α) (l l' : List (Sent α)) :
    ofThread t (l ++ l') = ofThread t l ++ ofThread t l' := List.filterMap_append

@[simp] theorem ofThread_cons (t : α) (x : Sent α) (l : List (Sent α)) :
    ofThread t (x :: l) = (if x.1 = t then [x.2] else []) ++ ofThread t l := by
  rw [ofThread, List.filterMap_cons]
  by_cases h : x.1 = t
  · simp [h, ofThread]
  · simp [h, ofThread]

end

/-- The messages of `t` that are still on their way to the loop. -/
def underway (t : Tid) (s : SendersSystem Tid) : List (List UInt8) :=
  ofThread t s.functors ++ ofThread t s.pendingFunctors ++ (s.calling t).toList

structure Inv (s : SendersSystem Tid) : Prop where
  stream : s.conn.stream = s.wire.flatMap Prod.snd
  calls : ∀ t, ofThread t s.calls = ofThread t s.ran ++ s.underway t
  wire : ∀ t, (ofThread (some t) s.wire).Sublist (ofThread t s.ran)
  nothingDropped : ∀ t, ofThread t s.dropped = [] → ofThread (some t) s.wire = ofThread t s.ran
  batch : s.callingPendingFunctors = false → s.functors = []

variable {s s' : SendersSystem Tid}

theorem Inv.start {c : TcpConnection} (hc : c.Fresh) : Inv (start c : SendersSystem Tid) where
  stream := by simp [SendersSystem.start, TcpConnection.stream, Socket.sent, hc.ops, hc.readable]
  calls := fun _ => rfl
  wire := fun _ => List.Sublist.refl _
  nothingDropped := fun _ _ => rfl
  batch := fun _ => rfl

theorem Inv.send (h : s.Inv) {t : Tid} (hfree : s.calling t = none) (message : List UInt8) :
    (s.send t message).Inv := by
  unfold SendersSystem.send
  split
  · refine ⟨h.stream, fun u => ?_, h.wire, h.nothingDropped, h.batch⟩
    have hcalls := h.calls u
    simp only [underway, setCalling, ofThread_append, ofThread_cons, ofThread_nil] at hcalls ⊢
    by_cases hu : u = t
    · subst hu
      simp [hcalls, hfree]
    · have hut : ¬ t = u := fun htu => hu htu.symm
      simp [hcalls, hu, hut]
  · exact h

theorem Inv.queueInLoop (h : s.Inv) (t : Tid) : (s.queueInLoop t).Inv := by
  unfold SendersSystem.queueInLoop
  split
  · exact h
  · next message hm =>
      refine ⟨h.stream, fun u => ?_, h.wire, h.nothingDropped, h.batch⟩
      have hcalls := h.calls u
      simp only [underway, setCalling, ofThread_append, ofThread_cons, ofThread_nil] at hcalls ⊢
      by_cases hu : u = t
      · subst hu
        simp [hcalls, hm]
      · have hut : ¬ t = u := fun htu => hu htu.symm
        simp [hcalls, hu, hut]

/-- The connection is touched, and not what was sent on it. -/
theorem Inv.keeps (h : s.Inv) {c : TcpConnection} (hc : c.stream = s.conn.stream) :
    Inv { s with conn := c } :=
  ⟨hc.trans h.stream, h.calls, h.wire, h.nothingDropped, h.batch⟩

theorem Inv.swap (h : s.Inv) (hidle : s.callingPendingFunctors = false) :
    Inv { s with
      functors := s.pendingFunctors
      pendingFunctors := []
      callingPendingFunctors := true } := by
  refine ⟨h.stream, fun u => ?_, h.wire, h.nothingDropped, nofun⟩
  have hcalls := h.calls u
  simp only [underway, h.batch hidle, ofThread_nil, List.nil_append] at hcalls ⊢
  simp [hcalls]

theorem Inv.runFunctor (h : s.Inv) {w : WriteResult} (he : s.runFunctor w = .ok s') : s'.Inv := by
  unfold SendersSystem.runFunctor at he
  split at he
  · cases he
    exact h
  · next t message functors hf =>
      obtain ⟨conn, hconn, he⟩ := bind_eq_ok.mp he
      obtain ⟨c₁, hc₁, -, hstream, -⟩ := TcpConnection.sendInLoop_spec s.conn message w
      cases hc₁.symm.trans hconn
      cases he
      have hcalls := h.calls
      simp only [underway, hf, ofThread_cons] at hcalls
      cases hd : s.conn.drops w with
      | true =>
          refine ⟨?_, fun u => ?_, fun u => ?_, fun u hu => ?_, fun hidle => ?_⟩
          · simpa [hd, h.stream] using hstream
          · simp [underway, hcalls u]
          · simp only [if_true, ofThread_append]
            exact (h.wire u).trans (List.sublist_append_left _ _)
          · simp only [if_true, ofThread_append, ofThread_cons, ofThread_nil, List.append_nil,
              List.append_eq_nil_iff] at hu ⊢
            rw [hu.2, List.append_nil]
            exact h.nothingDropped u hu.1
          · rw [h.batch hidle] at hf
            cases hf
      | false =>
          refine ⟨?_, fun u => ?_, fun u => ?_, fun u hu => ?_, fun hidle => ?_⟩
          · simpa [hd, h.stream] using hstream
          · simp [underway, hcalls u]
          · have hkeep := (h.wire u).append_right (if t = u then [message] else [])
            simpa using hkeep
          · have hkeep := h.nothingDropped u (by simpa using hu)
            simp [hkeep]
          · rw [h.batch hidle] at hf
            cases hf

theorem ofThread_loopSends (t : Tid) (c : TcpConnection) (a : LoopStep) :
    ofThread (some t) (loopSends c a : List (Sent (Option Tid))) = [] := by
  cases a with
  | sendInLoop data w =>
      cases hd : c.drops w with
      | true => simp [loopSends, hd]
      | false => simp [loopSends, hd]
  | _ => rfl

omit [DecidableEq Tid] in
theorem flatMap_loopSends (c : TcpConnection) (a : LoopStep) :
    (loopSends c a : List (Sent (Option Tid))).flatMap Prod.snd
      = TcpConnection.acceptedData (c, a) := by
  cases a with
  | sendInLoop data w =>
      cases hd : c.drops w with
      | true => simp [loopSends, TcpConnection.acceptedData, hd]
      | false => simp [loopSends, TcpConnection.acceptedData, hd]
  | _ => rfl

theorem Inv.loopStep (h : s.Inv) {a : LoopStep} (hg : loopThread.guard s.conn a = true)
    (he : s.loopStep a = .ok s') : s'.Inv := by
  obtain ⟨conn, hconn, he⟩ := bind_eq_ok.mp he
  cases he
  have hstream := TcpConnection.loopStep_stream hg hconn
  refine ⟨?_, h.calls, fun t => ?_, fun t ht => ?_, h.batch⟩
  · rw [List.flatMap_append, flatMap_loopSends, hstream, h.stream]
  · rw [ofThread_append, ofThread_loopSends, List.append_nil]
    exact h.wire t
  · rw [ofThread_append, ofThread_loopSends, List.append_nil]
    exact h.nothingDropped t ht

theorem shutdown_stream (c : TcpConnection) : (c.shutdown false).stream = c.stream := by
  unfold TcpConnection.shutdown
  split
  · rfl
  · rfl

theorem forceClose_stream (c : TcpConnection) : c.forceClose.stream = c.stream := by
  unfold TcpConnection.forceClose
  split
  · rfl
  · rfl

theorem Inv.exec (h : s.Inv) {a : SendersStep Tid} (hg : s.guard a = true)
    (he : SendersSystem.exec a s = .ok s') : s'.Inv := by
  cases a with
  | send t message =>
      cases he
      exact h.send (Option.isNone_iff_eq_none.mp hg) message
  | queueInLoop t =>
      cases he
      exact h.queueInLoop t
  | shutdown =>
      cases he
      exact h.keeps (shutdown_stream s.conn)
  | forceClose =>
      cases he
      exact h.keeps (forceClose_stream s.conn)
  | swap =>
      cases he
      exact h.swap (by simpa [SendersSystem.guard] using hg)
  | runFunctor w => exact h.runFunctor he
  | functorsDone =>
      cases he
      simp only [SendersSystem.guard, Bool.and_eq_true, List.isEmpty_iff] at hg
      exact ⟨h.stream, h.calls, h.wire, h.nothingDropped, fun _ => hg.2⟩
  | loop a => exact h.loopStep hg he

/-- Whichever threads send, and whatever happens to the connection meanwhile,
what was written to the socket and what waits behind it are whole messages,
one after another. Those of a thread come in the order of its calls: they are
taken from what was run for it, all of it if nothing was dropped, and what was
run for it is what it has called `send` with, but for what is still underway. -/
theorem threads_keep_order {c : TcpConnection} (hc : c.Fresh) {as : List (SendersStep Tid)}
    (hr : machine.run as (start c) = some s) :
    s.conn.socket.sent ++ s.conn.outputBuffer.readable = s.wire.flatMap Prod.snd ∧
      ∀ t, ofThread t s.calls = ofThread t s.ran ++ s.underway t ∧
        (ofThread (some t) s.wire).Sublist (ofThread t s.ran) ∧
        (ofThread t s.dropped = [] → ofThread (some t) s.wire = ofThread t s.ran) := by
  have h : s.Inv := Machine.run_invariant (m := machine)
    (fun h hg he => Inv.exec h hg he) (Inv.start hc) hr
  exact ⟨h.stream, fun t => ⟨h.calls t, h.wire t, h.nothingDropped t⟩⟩

/-- Two threads send, and the loop thread overtakes both of them. -/
def overtakenByLoop : List (SendersStep Nat) :=
  [.loop .connectEstablished, .send 1 [10, 11], .send 2 [20], .queueInLoop 2, .queueInLoop 1,
    .send 1 [12], .swap, .loop (.sendInLoop [30, 31] (.wrote 1)), .queueInLoop 1,
    .runFunctor (.wrote 0), .runFunctor (.wrote 0), .functorsDone, .loop (.handleWrite (.wrote 3))]

theorem threads_keep_order_overtakenByLoop :
    ∃ s, machine.run overtakenByLoop (start TcpConnection.small) = some s ∧
      s.conn.socket.sent = [30, 31, 20, 10] ∧ s.underway 1 = [[12]] ∧
      s.conn.socket.sent ++ s.conn.outputBuffer.readable = s.wire.flatMap Prod.snd ∧
      ofThread 1 s.calls = ofThread 1 s.ran ++ s.underway 1 := by
  obtain ⟨s, hr, hsent, hway⟩ : ∃ s,
      machine.run overtakenByLoop (start TcpConnection.small) = some s ∧
        s.conn.socket.sent = [30, 31, 20, 10] ∧ s.underway 1 = [[12]] := ⟨_, rfl, rfl, rfl⟩
  obtain ⟨hstream, hthreads⟩ := threads_keep_order TcpConnection.small_fresh hr
  exact ⟨s, hr, hsent, hway, hstream, (hthreads 1).1⟩

end SendersSystem

end Libanet.Net
