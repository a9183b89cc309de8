import Libanet.Lib.RoundRobin
import Libanet.Net.EventLoopThreadPool

/-!
# How a pool shares out its loops

A pool that has been told to have `n` threads starts them, and hands out their
loops in turn; `start` and `getNextLoop` do all that is asked of them. But
nothing tells the pool. `setThreadNum` has an empty body, so every pool is one
of no threads, and the only number for which it does what it was told is 0.
-/

namespace Libanet.Net

namespace LoopPool

variable {p : LoopPool} {cb : Bool} {baseLoop : Nat} {news : NewLoops baseLoop}

/-- What `getAllLoops` answers once the pool has been started. -/
def allLoops (p : LoopPool) : List Nat := if p.loops.isEmpty then [p.baseLoop] else p.loops

theorem getAllLoops_of_started (h : p.started = true) : p.getAllLoops = .ok p.allLoops := by
  refine assertThat_bind_eq_ok.mpr ⟨h, ?_⟩
  unfold allLoops
  split
  · rfl
  · rfl

/-! ## Handing out -/

theorem next_loop_eq {q : EventLoopThreadPool} (hloops : q.loops ≠ [])
    (hnext : q.next < q.loops.length) :
    q.getNextLoop = .ok (q.loops[q.next], { q with next := (q.next + 1) % q.loops.length }) := by
  have hwrap : (if q.next + 1 ≥ q.loops.length then 0 else q.next + 1) =
      (q.next + 1) % q.loops.length := by
    split
    · next hlast =>
        have heq : q.next + 1 = q.loops.length := by omega
        rw [heq, Nat.mod_self]
    · next hlast => rw [Nat.mod_eq_of_lt (by omega)]
  unfold EventLoopThreadPool.getNextLoop
  rw [if_neg (by simpa using hloops), List.getElem?_eq_getElem hnext]
  dsimp only
  rw [hwrap]

/-- A call answers the loop at `next_`, and the index goes round. -/
theorem getNextLoop_eq (hstarted : p.started = true) (hnext : p.next < p.allLoops.length) :
    ∃ loop, p.allLoops[p.next]? = some loop ∧ p.getNextLoop =
      .ok (loop, { p with next := (p.next + 1) % p.allLoops.length }) := by
  unfold allLoops at hnext ⊢
  by_cases hloops : p.loops = []
  · rw [if_pos (by simpa using hloops)] at hnext ⊢
    rw [List.length_singleton] at hnext ⊢
    have hzero : p.next = 0 := by omega
    refine ⟨p.baseLoop, by rw [hzero]; rfl, ?_⟩
    refine assertThat_bind_eq_ok.mpr ⟨hstarted,
      bind_eq_ok.mpr ⟨_, if_pos (by simpa using hloops), ?_⟩⟩
    rw [Nat.mod_one, ← hzero]
    rfl
  · rw [if_neg (by simpa using hloops)] at hnext ⊢
    refine ⟨p.loops[p.next], List.getElem?_eq_getElem hnext, ?_⟩
    exact assertThat_bind_eq_ok.mpr ⟨hstarted, bind_eq_ok.mpr ⟨_, next_loop_eq hloops hnext, rfl⟩⟩

theorem getNextLoops_eq (hstarted : p.started = true) (hnext : p.next = 0)
    (hpos : 0 < p.allLoops.length) (m : Nat) :
    ∃ taken, taken.length = m ∧ TakesTurns p.allLoops taken ∧
      p.getNextLoops m = .ok (taken, { p with next := m % p.allLoops.length }) := by
  induction m with
  | zero =>
      have hsame : { p with next := 0 % p.allLoops.length } = p := by rw [Nat.zero_mod, ← hnext]
      refine ⟨[], rfl, .nil _, ?_⟩
      rw [hsame]
      rfl
  | succ m ih =>
      obtain ⟨taken, hlen, hturns, hok⟩ := ih
      obtain ⟨q, hq⟩ : ∃ q : LoopPool, q = { p with next := m % p.allLoops.length } := ⟨_, rfl⟩
      have hall : q.allLoops = p.allLoops := by
        rw [hq]
        rfl
      have hindex : q.next = m % p.allLoops.length := by rw [hq]
      obtain ⟨loop, hloop, hcall⟩ := getNextLoop_eq (p := q) (by rw [hq]; exact hstarted)
        (by rw [hall, hindex]; exact Nat.mod_lt m hpos)
      rw [hall, hindex, ← hlen] at hloop
      refine ⟨taken ++ [loop], by rw [List.length_append, hlen, List.length_singleton],
        hturns.concat hloop, ?_⟩
      rw [← hq] at hok
      refine bind_eq_ok.mpr ⟨_, hok, bind_eq_ok.mpr ⟨_, hcall, ?_⟩⟩
      rw [hall, hindex, hq, Nat.mod_add_mod]
      rfl

/-! ## Starting -/

/-- What the loop of `start` has done to a pool. -/
structure Grown (news : NewLoops baseLoop) (is : List Nat) (p q : LoopPool) : Prop where
  loops : q.loops = p.loops ++ is.map news.startLoop
  base : q.baseLoop = p.baseLoop
  next : q.next = p.next
  started : q.started = p.started

theorem grown_foldl (cb : Bool) (news : NewLoops baseLoop) (is : List Nat) (p : LoopPool) :
    Grown news is p (is.foldl (startThread cb news) p) := by
  induction is generalizing p with
  | nil => exact ⟨(List.append_nil _).symm, rfl, rfl, rfl⟩
  | cons i is ih =>
      obtain ⟨hloops, hbase, hnext, hstarted⟩ := ih (startThread cb news p i)
      refine ⟨?_, hbase, hnext, hstarted⟩
      rw [List.foldl_cons, hloops, List.map_cons]
      exact List.append_assoc _ _ _

/-- The loops of a pool of `n` threads. -/
def configured (news : NewLoops baseLoop) (n : Nat) : List Nat :=
  if n = 0 then [baseLoop] else (List.range n).map news.startLoop

theorem length_configured (news : NewLoops baseLoop) (n : Nat) :
    (configured news n).length = max 1 n := by
  unfold configured
  split
  · next hzero => rw [hzero, List.length_singleton, Nat.max_eq_left (Nat.zero_le _)]
  · next hpos => rw [List.length_map, List.length_range, Nat.max_eq_right (by omega)]

theorem nodup_configured (news : NewLoops baseLoop) (n : Nat) : (configured news n).Nodup := by
  unfold configured
  split
  · exact List.nodup_singleton _
  · exact List.nodup_range.map news.injective

/-- `getAllLoops` answers these loops, and calls of `getNextLoop` hand them
out in turn, as evenly as can be. -/
structure Distributes (p : LoopPool) (loops : List Nat) : Prop where
  all : p.getAllLoops = .ok loops
  turns : ∀ m, ∃ taken q, p.getNextLoops m = .ok (taken, q) ∧ q.next < loops.length ∧
    taken.length = m ∧ (∀ k < m, taken[k]? = loops[k % loops.length]?) ∧
      ∀ a ∈ loops, ∀ b ∈ loops, taken.count a ≤ taken.count b + 1

theorem distributes_of_started (hstarted : p.started = true) (hnext : p.next = 0)
    (hnodup : p.allLoops.Nodup) : p.Distributes p.allLoops := by
  have hpos : 0 < p.allLoops.length := by
    unfold allLoops
    split
    · exact Nat.zero_lt_one
    · next hloops => exact List.length_pos_iff.mpr (by simpa using hloops)
  refine ⟨getAllLoops_of_started hstarted, fun m => ?_⟩
  obtain ⟨taken, hlen, hturns, hok⟩ := getNextLoops_eq hstarted hnext hpos m
  refine ⟨taken, _, hok, Nat.mod_lt m hpos, hlen, ?_, ?_⟩
  · intro k hk
    exact hturns k (hlen ▸ hk)
  · intro a ha b hb
    exact hturns.fair hnodup ha hb

/-- The callback on the base loop leaves the loops alone. -/
theorem start_eq (cb : Bool) (news : NewLoops baseLoop) (h : p.started = false) :
    ∃ initialised, p.start cb news = .ok
      { (List.range p.numThread.toNat).foldl (startThread cb news) { p with started := true } with
        initialised := initialised } := by
  by_cases hcall : ((List.range p.numThread.toNat).foldl (startThread cb news)
      { p with started := true }).numThread = 0 ∧ cb = true
  · exact ⟨_, assertThat_bind_eq_ok.mpr ⟨h, if_pos hcall⟩⟩
  · exact ⟨_, assertThat_bind_eq_ok.mpr ⟨h, if_neg hcall⟩⟩

/-- A fresh pool that has `n` as its number of threads: `start` has them
started, and then their loops are distributed. -/
theorem start_distributes (cb : Bool) (news : NewLoops baseLoop) (nameArg : String) (n : Nat) :
    ∃ q, start cb news { new baseLoop nameArg with numThread := n } = .ok q ∧
      q.Distributes (configured news n) := by
  obtain ⟨initialised, hstart⟩ := start_eq
    (p := { new baseLoop nameArg with numThread := n }) cb news rfl
  refine ⟨_, hstart, ?_⟩
  obtain ⟨hloops, hbase, hnext, hstarted⟩ := grown_foldl cb news (List.range n)
    { new baseLoop nameArg with numThread := n, started := true }
  rw [Int.toNat_natCast]
  generalize (List.range n).foldl (startThread cb news)
    { new baseLoop nameArg with numThread := n, started := true } = q at *
  have hall : allLoops { q with initialised := initialised } = configured news n := by
    have hloops' : q.loops = (List.range n).map news.startLoop := hloops
    have hbase' : q.baseLoop = baseLoop := hbase
    unfold allLoops configured
    dsimp only
    rw [hloops', hbase']
    cases n with
    | zero => rfl
    | succ n => rw [if_neg (by simp), if_neg (Nat.succ_ne_zero n)]
  rw [← hall]
  refine distributes_of_started hstarted hnext ?_
  rw [hall]
  exact nodup_configured news n

/-! ## As many as it is told -/

/-- A started pool with as many loops as it should have, which it
distributes. -/
def ServesEvenly (news : NewLoops baseLoop) (n : Nat) (started : Except Fault LoopPool) : Prop :=
  ∃ p, started = .ok p ∧ (configured news n).length = max 1 n ∧ p.Distributes (configured news n)

/-- A pool that starts no thread has only the base loop. -/
theorem servesEvenly_iff_of_none {started : Except Fault LoopPool} (hok : started = .ok p)
    (h : p.Distributes (configured news 0)) (n : Nat) : ServesEvenly news n started ↔ n = 0 := by
  constructor
  · intro hserves
    obtain ⟨q, hq, -, hall, -⟩ := hserves
    cases hok.symm.trans hq
    cases n with
    | zero => rfl
    | succ n =>
        have hfirst : [baseLoop] = (List.range (n + 1)).map news.startLoop :=
          Except.ok.inj (h.all.symm.trans hall)
        rw [List.range_succ_eq_map, List.map_cons] at hfirst
        exact absurd (List.cons.inj hfirst).1.symm (news.ne_baseLoop 0)
  · intro hzero
    rw [hzero]
    exact ⟨p, hok, length_configured news 0, h⟩

end LoopPool

namespace ServerSetup

open LoopPool

variable {baseLoop : Nat}

/-- `setThreadNum` and `start`, as the server that owns the pool calls them. -/
def launch (news : NewLoops baseLoop) (nameArg : String) (cb : Bool) (n : Nat) :
    Except Fault LoopPool := do
  let s ← (new baseLoop nameArg cb).setThreadNum n
  let s ← s.start news
  return s.threadPool

/-- Whatever it is called with, `setThreadNum` leaves a pool of no threads. -/
theorem launch_distributes (news : NewLoops baseLoop) (nameArg : String) (cb : Bool) (n : Nat) :
    ∃ p, ((LoopPool.new baseLoop nameArg).setThreadNum n).start cb news = .ok p ∧
      launch news nameArg cb n = .ok p ∧ p.Distributes (configured news 0) := by
  obtain ⟨p, hok, hp⟩ := start_distributes cb news nameArg 0
  refine ⟨p, hok, ?_, hp⟩
  have hset : (new baseLoop nameArg cb).setThreadNum n = .ok (new baseLoop nameArg cb) :=
    assertThat_bind_eq_ok.mpr ⟨Int.natCast_nonneg n, rfl⟩
  refine bind_eq_ok.mpr ⟨_, hset, bind_eq_ok.mpr
    ⟨{ threadPool := p, threadInitCallback := cb, started := true, listening := true }, ?_, rfl⟩⟩
  exact bind_eq_ok.mpr ⟨p, hok, assertThat_bind_eq_ok.mpr ⟨rfl, rfl⟩⟩

/-- For every number of threads: a pool that is told it, itself or by its
server, and then started serves as many loops as it should, evenly, if and only
if the number is 0. -/
theorem servesEvenly_iff_zero (news : NewLoops baseLoop) (nameArg : String) (cb : Bool)
    (n : Nat) :
    (ServesEvenly news n (((LoopPool.new baseLoop nameArg).setThreadNum n).start cb news) ↔
      n = 0) ∧ (ServesEvenly news n (launch news nameArg cb n) ↔ n = 0) := by
  obtain ⟨p, hok, hlaunch, hp⟩ := launch_distributes news nameArg cb n
  exact ⟨servesEvenly_iff_of_none hok hp n, servesEvenly_iff_of_none hlaunch hp n⟩

/-- The base loop is 0, and threads get 1, 2 and so on. -/
def numbered : NewLoops 0 where
  startLoop := Nat.succ
  injective := Nat.succ_injective
  ne_baseLoop := Nat.succ_ne_zero

/-- Two threads have been asked for. -/
theorem not_servesEvenly_two : ¬ ServesEvenly numbered 2 (launch numbered "server" false 2) := by
  obtain ⟨p, -, hlaunch, hp⟩ := launch_distributes numbered "server" false 2
  rw [servesEvenly_iff_of_none hlaunch hp]
  decide

end ServerSetup

end Libanet.Net
