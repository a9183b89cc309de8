import Libanet.Net.Acceptor

/-!
# The acceptor and the descriptors of its process

Numbers are the only thing `::close` goes by, and the acceptor keeps them in
variables that are out of date for a while: between `::close(idleFd_)` and the
assignment behind it, `idleFd_` is a number that any other thread may have been
given. That no call is made on it there is what the invariant says. `held` reads
off the variables what the acceptor has, at every point of its code, and the
table of the process has just that under its name, whatever the other threads
do.

The rest is bookkeeping on connections. One that is accepted is handed to the
callback or closed, and there is one point of the code after another at which
it is neither yet.
-/

namespace Libanet.Net.Acceptor

/-- The descriptors the acceptor has, as its variables say. -/
def held (s : Acceptor) : List (Int × Holder) :=
  match s.pc with
  | .socket => []
  | .openFirst => [(s.acceptSocket, .acceptSocket)]
  | .bind => [(s.idleFd, .idleFd), (s.acceptSocket, .acceptSocket)]
  | .ready => [(s.idleFd, .idleFd), (s.acceptSocket, .acceptSocket)]
  | .connected connfd conn =>
      [(connfd, .accepted conn), (s.idleFd, .idleFd), (s.acceptSocket, .acceptSocket)]
  | .logged => [(s.idleFd, .idleFd), (s.acceptSocket, .acceptSocket)]
  | .giveUp => [(s.idleFd, .idleFd), (s.acceptSocket, .acceptSocket)]
  | .swap => [(s.acceptSocket, .acceptSocket)]
  | .dropSwapped (some conn) => [(s.idleFd, .accepted conn), (s.acceptSocket, .acceptSocket)]
  | .dropSwapped none => [(s.acceptSocket, .acceptSocket)]
  | .reopen => [(s.acceptSocket, .acceptSocket)]
  | .destroying => [(s.acceptSocket, .acceptSocket)]
  | .gone => []

/-- The connection that has been accepted and is neither handed over nor
closed. -/
def inHand (s : Acceptor) : List Nat :=
  match s.pc with
  | .connected _ conn => [conn]
  | .dropSwapped (some conn) => [conn]
  | _ => []

/-- The last `accept` has returned a number, or -1. -/
def Results (s : Acceptor) : Prop :=
  match s.pc with
  | .connected connfd _ => 0 ≤ connfd
  | .dropSwapped (some _) => 0 ≤ s.idleFd
  | .dropSwapped none => s.idleFd = -1
  | _ => True

/-- What the acceptor may close: something of its own, or nothing, under the
number of a call that has failed. -/
def Own (x : Int × Option Holder) : Prop :=
  (x.1 < 0 ∧ x.2 = none) ∨ ∃ h, x.2 = some h ∧ h.ofAcceptor = true

/-- Of the connections taken in this order, these were handed over, these were
closed, and these are in hand: each is one of them, and the latter are the
last. -/
structure Accounted (taken handed closed inHand : List Nat) : Prop where
  perm : (handed ++ closed ++ inHand).Perm taken
  settled : ∃ settled, taken = settled ++ inHand ∧ handed.Sublist settled ∧ closed.Sublist settled

namespace Accounted

variable {taken handed closed inHand : List Nat} {conn : Nat}

theorem take (h : Accounted taken handed closed []) (conn : Nat) :
    Accounted (taken ++ [conn]) handed closed [conn] := by
  have hperm := h.perm
  rw [List.append_nil] at hperm
  obtain ⟨settled, rfl, hhanded, hclosed⟩ := h.settled
  rw [List.append_nil] at hperm ⊢
  exact ⟨hperm.append_right _, settled, rfl, hhanded, hclosed⟩

theorem hand (h : Accounted taken handed closed [conn]) :
    Accounted taken (handed ++ [conn]) closed [] := by
  obtain ⟨settled, rfl, hhanded, hclosed⟩ := h.settled
  refine ⟨?_, settled ++ [conn], (List.append_nil _).symm, hhanded.append_right _,
    hclosed.trans (List.sublist_append_left _ _)⟩
  rw [List.append_nil, List.append_assoc]
  refine (List.perm_append_comm.append_left _).trans ?_
  rw [← List.append_assoc]
  exact h.perm

theorem close (h : Accounted taken handed closed [conn]) :
    Accounted taken handed (closed ++ [conn]) [] := by
  have hperm := h.perm
  obtain ⟨settled, rfl, hhanded, hclosed⟩ := h.settled
  refine ⟨?_, settled ++ [conn], (List.append_nil _).symm,
    hhanded.trans (List.sublist_append_left _ _), hclosed.append_right _⟩
  rw [List.append_nil, ← List.append_assoc]
  exact hperm

/-- Either list keeps the order of arrival. -/
theorem in_order (h : Accounted taken handed closed inHand) :
    handed.Sublist taken ∧ closed.Sublist taken := by
  obtain ⟨settled, rfl, hhanded, hclosed⟩ := h.settled
  exact ⟨hhanded.trans (List.sublist_append_left _ _), hclosed.trans (List.sublist_append_left _ _)⟩

end Accounted

structure Inv (s : Acceptor) : Prop where
  tallies : s.fds.Tallies Holder.ofAcceptor s.held
  results : s.Results
  closes : ∀ x ∈ s.closes, Own x
  taken : Accounted s.taken s.handed s.closed s.inHand
  order : (s.taken ++ s.pending).Sublist (List.range s.arrived)

theorem Inv.new {fds : DescriptorTable Holder}
    (h : ∀ n w, fds.owner n = some w → w.ofAcceptor = false) : Inv (new fds) where
  tallies := .nil h
  results := trivial
  closes := nofun
  taken := ⟨.refl _, [], rfl, .refl _, .refl _⟩
  order := .refl _

variable {s t : Acceptor}

/-! ## `::close` -/

@[simp] theorem pc_close (fd : Int) (s : Acceptor) : (s.close fd).pc = s.pc := rfl

@[simp] theorem fds_close (fd : Int) (s : Acceptor) : (s.close fd).fds = s.fds.close fd := rfl

@[simp] theorem taken_close (fd : Int) (s : Acceptor) : (s.close fd).taken = s.taken := rfl

@[simp] theorem handed_close (fd : Int) (s : Acceptor) : (s.close fd).handed = s.handed := rfl

@[simp] theorem pending_close (fd : Int) (s : Acceptor) : (s.close fd).pending = s.pending := rfl

@[simp] theorem arrived_close (fd : Int) (s : Acceptor) : (s.close fd).arrived = s.arrived := rfl

@[simp] theorem idleFd_close (fd : Int) (s : Acceptor) : (s.close fd).idleFd = s.idleFd := rfl

@[simp] theorem acceptSocket_close (fd : Int) (s : Acceptor) :
    (s.close fd).acceptSocket = s.acceptSocket := rfl

theorem closed_close_of_ne {fd : Int} (h : ∀ conn, s.fds.at? fd ≠ some (.accepted conn)) :
    (s.close fd).closed = s.closed := by
  unfold close
  split
  · next conn hat => exact absurd hat (h conn)
  · rfl

theorem closed_close_of_accepted {fd : Int} {conn : Nat}
    (h : s.fds.at? fd = some (.accepted conn)) :
    (s.close fd).closed = s.closed ++ [conn] := by
  unfold close
  simp only [h]

/-- The acceptor closes a number it holds. -/
theorem Inv.closes_close (hi : Inv s) {fd : Int} {w : Holder} (hmem : (fd, w) ∈ s.held)
    (hw : w.ofAcceptor = true) : ∀ x ∈ (s.close fd).closes, Own x := by
  intro x hx
  obtain hx | hx := List.mem_append.mp hx
  · exact hi.closes x hx
  · rw [List.mem_singleton.mp hx]
    obtain hnone | hat := hi.tallies.at? hmem hw
    · exact Or.inl hnone
    · exact Or.inr ⟨w, hat, hw⟩

/-- A number held as something else than a connection is not one. -/
theorem Inv.at?_ne_accepted (hi : Inv s) {fd : Int} {w : Holder} (hmem : (fd, w) ∈ s.held)
    (hw : w.ofAcceptor = true) (hne : ∀ conn, w ≠ .accepted conn) (conn : Nat) :
    s.fds.at? fd ≠ some (.accepted conn) := by
  obtain ⟨-, hat⟩ | hat := hi.tallies.at? hmem hw
  · rw [hat]
    exact nofun
  · rw [hat]
    exact fun h => hne conn (Option.some.inj h)

/-- The acceptor closes what it has come to hold last: one it keeps for
itself. -/
theorem Inv.close_kept (hi : Inv s) {fd : Int} {w : Holder} {rest : List (Int × Holder)}
    (hheld : s.held = (fd, w) :: rest) (hnot : (fd, w) ∉ rest) (hw : w.ofAcceptor = true)
    (hne : ∀ conn, w ≠ .accepted conn) (hhand : s.inHand = []) :
    (s.fds.close fd).Tallies Holder.ofAcceptor rest ∧
      (∀ x ∈ (s.close fd).closes, Own x) ∧
      Accounted s.taken s.handed (s.close fd).closed [] := by
  have hmem : (fd, w) ∈ s.held := by
    rw [hheld]
    exact List.mem_cons_self
  have htallies := hi.tallies
  have htaken := hi.taken
  rw [hheld] at htallies
  rw [hhand] at htaken
  refine ⟨htallies.close hw hnot, hi.closes_close hmem hw, ?_⟩
  rw [closed_close_of_ne (hi.at?_ne_accepted hmem hw hne)]
  exact htaken

/-- Or a connection, which it then has closed. -/
theorem Inv.close_accepted (hi : Inv s) {fd : Int} {conn : Nat} {rest : List (Int × Holder)}
    (hheld : s.held = (fd, .accepted conn) :: rest) (hnot : (fd, .accepted conn) ∉ rest)
    (hfd : 0 ≤ fd) (hhand : s.inHand = [conn]) :
    (s.fds.close fd).Tallies Holder.ofAcceptor rest ∧
      (∀ x ∈ (s.close fd).closes, Own x) ∧
      Accounted s.taken s.handed (s.close fd).closed [] := by
  have hmem : (fd, Holder.accepted conn) ∈ s.held := by
    rw [hheld]
    exact List.mem_cons_self
  have htallies := hi.tallies
  have htaken := hi.taken
  rw [hheld] at htallies
  rw [hhand] at htaken
  refine ⟨htallies.close rfl hnot, hi.closes_close hmem rfl, ?_⟩
  obtain ⟨hneg, -⟩ | hat := hi.tallies.at? hmem rfl
  · omega
  · rw [closed_close_of_accepted hat]
    exact htaken.close

/-! ## One lemma per call -/

/-- `::open` into an `idleFd_` that is not held. -/
theorem Inv.openIdle_tallies (hi : Inv s) (opens : Bool) :
    (s.openIdle opens).fds.Tallies Holder.ofAcceptor
      (((s.openIdle opens).idleFd, .idleFd) :: s.held) := by
  cases opens with
  | true => exact hi.tallies.openAs .idleFd
  | false =>
      intro n w hw
      have hn : (n : Int) ≠ -1 := by omega
      show s.fds.owner n = some w ↔ ((n : Int), w) ∈ (-1, Holder.idleFd) :: s.held
      rw [hi.tallies n w hw, List.mem_cons, Prod.mk.injEq]
      simp [hn]

/-- What an `::accept` comes to. -/
theorem takePending_cases (answer : AcceptAnswer) (s : Acceptor) (h : s.answers answer = true) :
    (answer ≠ .accepted ∧ s.takePending answer = (-1, none, s)) ∨
      ∃ conn pending, ∃ n : Nat, answer = .accepted ∧ s.pending = conn :: pending ∧
        s.fds.lowest = some n ∧
        s.takePending answer = ((n : Int), some conn, { s with
          fds := s.fds.set n (some (.accepted conn))
          pending := pending
          taken := s.taken ++ [conn] }) := by
  cases answer with
  | failed err => exact Or.inl ⟨nofun, rfl⟩
  | accepted =>
      cases hpending : s.pending with
      | nil => simp [answers, hpending] at h
      | cons conn pending =>
          cases hlow : s.fds.lowest with
          | none => simp [answers, hlow] at h
          | some n =>
              refine Or.inr ⟨conn, pending, n, rfl, rfl, rfl, ?_⟩
              simp only [takePending, hpending, DescriptorTable.openAs_of_lowest hlow]

theorem Inv.order_take (hi : Inv s) {conn : Nat} {pending : List Nat}
    (h : s.pending = conn :: pending) :
    ((s.taken ++ [conn]) ++ pending).Sublist (List.range s.arrived) := by
  rw [List.append_assoc, List.singleton_append, ← h]
  exact hi.order

theorem Inv.openAs_accepted (hi : Inv s) (conn : Nat) {n : Nat} (hlow : s.fds.lowest = some n) :
    (s.fds.set n (some (.accepted conn))).Tallies Holder.ofAcceptor
      (((n : Int), .accepted conn) :: s.held) := by
  have h := hi.tallies.openAs (.accepted conn)
  rw [DescriptorTable.openAs_of_lowest hlow] at h
  exact h

theorem Inv.socket (hi : Inv s) (hpc : s.pc = .socket) {made : Bool}
    (h : s.socket made = .ok t) : Inv t := by
  unfold Acceptor.socket at h
  split at h
  · next fd fds hopen =>
      cases h
      have htallies := hi.tallies.openAs .acceptSocket
      have htaken := hi.taken
      simp only [held, inHand, hpc, hopen] at htallies htaken
      exact ⟨htallies, trivial, hi.closes, htaken, hi.order⟩
  · cases h

theorem Inv.openFirst (hi : Inv s) (hpc : s.pc = .openFirst) {opens : Bool}
    (h : s.openFirst opens = .ok t) : Inv t := by
  unfold Acceptor.openFirst at h
  obtain ⟨-, h⟩ := assertThat_bind_eq_ok.mp h
  cases h
  have htallies := hi.openIdle_tallies opens
  have htaken := hi.taken
  simp only [held, inHand, hpc] at htallies htaken
  cases opens with
  | true => exact ⟨htallies, trivial, hi.closes, htaken, hi.order⟩
  | false => exact ⟨htallies, trivial, hi.closes, htaken, hi.order⟩

theorem Inv.reopen (hi : Inv s) (hpc : s.pc = .reopen) (opens : Bool) :
    Inv { s.openIdle opens with pc := .ready } := by
  have htallies := hi.openIdle_tallies opens
  have htaken := hi.taken
  simp only [held, inHand, hpc] at htallies htaken
  cases opens with
  | true => exact ⟨htallies, trivial, hi.closes, htaken, hi.order⟩
  | false => exact ⟨htallies, trivial, hi.closes, htaken, hi.order⟩

theorem Inv.accept (hi : Inv s) (hpc : s.pc = .ready) {answer : AcceptAnswer}
    (hans : s.answers answer = true) (h : s.accept answer = .ok t) : Inv t := by
  have htaken := hi.taken
  have htallies := hi.tallies
  simp only [held, inHand, hpc] at htallies htaken
  obtain ⟨hne, -⟩ | ⟨conn, pending, n, rfl, hpending, hlow, htake⟩ :=
    takePending_cases answer s hans
  · cases answer with
    | accepted => exact absurd rfl hne
    | failed err =>
        simp only [Acceptor.accept] at h
        split at h
        · cases h
          exact ⟨htallies, trivial, hi.closes, htaken, hi.order⟩
        · cases h
  · have hopen := hi.openAs_accepted conn hlow
    simp only [held, hpc] at hopen
    simp only [Acceptor.accept, htake] at h
    cases h
    exact ⟨hopen, Int.natCast_nonneg n, hi.closes, htaken.take conn, hi.order_take hpending⟩

theorem Inv.deliver (hi : Inv s) {connfd : Int} {conn : Nat} (hpc : s.pc = .connected connfd conn) :
    Inv (s.deliver connfd conn) := by
  have hfd := hi.results
  simp only [Results, hpc] at hfd
  have hheld : s.held = [(connfd, .accepted conn), (s.idleFd, .idleFd),
      (s.acceptSocket, .acceptSocket)] := by simp only [held, hpc]
  have hhand : s.inHand = [conn] := by simp only [inHand, hpc]
  unfold Acceptor.deliver
  split
  · have htaken := hi.taken
    have htallies := hi.tallies
    obtain ⟨n, rfl⟩ := Int.eq_ofNat_of_zero_le hfd
    rw [hheld] at htallies
    rw [hhand] at htaken
    have hgiven : (s.fds.set n (some (.connection conn))).Tallies Holder.ofAcceptor
        [(s.idleFd, .idleFd), (s.acceptSocket, .acceptSocket)] :=
      htallies.release rfl (by simp) (by simp [Holder.ofAcceptor])
    exact ⟨hgiven, trivial, hi.closes, htaken.hand, hi.order⟩
  · obtain ⟨htallies, hcloses, htaken⟩ := hi.close_accepted hheld (by simp) hfd hhand
    exact ⟨htallies, trivial, hcloses, htaken, hi.order⟩

theorem Inv.checkErrno (hi : Inv s) (hpc : s.pc = .logged) (errno : AcceptErrno) :
    Inv (s.checkErrno errno) := by
  have htaken := hi.taken
  have htallies := hi.tallies
  simp only [held, inHand, hpc] at htallies htaken
  unfold Acceptor.checkErrno
  split
  · exact ⟨htallies, trivial, hi.closes, htaken, hi.order⟩
  · exact ⟨htallies, trivial, hi.closes, htaken, hi.order⟩

/-- Before `::close(idleFd_)`, with the spare in `idleFd_`. -/
theorem Inv.close_idle (hi : Inv s)
    (hheld : s.held = [(s.idleFd, .idleFd), (s.acceptSocket, .acceptSocket)])
    (hhand : s.inHand = []) :
    (s.fds.close s.idleFd).Tallies Holder.ofAcceptor [(s.acceptSocket, .acceptSocket)] ∧
      (∀ x ∈ (s.close s.idleFd).closes, Own x) ∧
      Accounted s.taken s.handed (s.close s.idleFd).closed [] :=
  hi.close_kept hheld (by simp) rfl nofun hhand

theorem Inv.giveUp (hi : Inv s) (hpc : s.pc = .giveUp) :
    Inv { s.close s.idleFd with pc := .swap } := by
  obtain ⟨htallies, hcloses, htaken⟩ := hi.close_idle (by simp only [held, hpc])
    (by simp only [inHand, hpc])
  exact ⟨htallies, trivial, hcloses, htaken, hi.order⟩

theorem Inv.destroy (hi : Inv s) (hpc : s.pc = .ready) :
    Inv { s.close s.idleFd with pc := .destroying } := by
  obtain ⟨htallies, hcloses, htaken⟩ := hi.close_idle (by simp only [held, hpc])
    (by simp only [inHand, hpc])
  exact ⟨htallies, trivial, hcloses, htaken, hi.order⟩

theorem Inv.destroySocket (hi : Inv s) (hpc : s.pc = .destroying) :
    Inv { s.close s.acceptSocket with pc := .gone, pending := [] } := by
  have hheld : s.held = [(s.acceptSocket, .acceptSocket)] := by simp only [held, hpc]
  have hhand : s.inHand = [] := by simp only [inHand, hpc]
  obtain ⟨htallies, hcloses, htaken⟩ := hi.close_kept hheld (by simp) rfl nofun hhand
  have horder : (s.taken ++ []).Sublist (List.range s.arrived) :=
    ((List.nil_sublist _).append_left s.taken).trans hi.order
  exact ⟨htallies, trivial, hcloses, htaken, horder⟩

theorem Inv.swap (hi : Inv s) (hpc : s.pc = .swap) {answer : AcceptAnswer}
    (hans : s.answers answer = true) : Inv (s.swap answer) := by
  have htaken := hi.taken
  have htallies := hi.tallies
  simp only [held, inHand, hpc] at htallies htaken
  obtain ⟨-, htake⟩ | ⟨conn, pending, n, -, hpending, hlow, htake⟩ :=
    takePending_cases answer s hans
  · rw [Acceptor.swap, htake]
    exact ⟨htallies, rfl, hi.closes, htaken, hi.order⟩
  · have hopen := hi.openAs_accepted conn hlow
    simp only [held, hpc] at hopen
    rw [Acceptor.swap, htake]
    exact ⟨hopen, Int.natCast_nonneg n, hi.closes, htaken.take conn, hi.order_take hpending⟩

theorem Inv.dropSwapped (hi : Inv s) {conn : Option Nat} (hpc : s.pc = .dropSwapped conn) :
    Inv { s.close s.idleFd with pc := .reopen } := by
  cases conn with
  | none =>
      -- `idleFd_` is -1, and the call does nothing
      have hidle := hi.results
      simp only [Results, hpc] at hidle
      have htaken := hi.taken
      have htallies := hi.tallies
      simp only [held, inHand, hpc] at htallies htaken
      have hat : s.fds.at? s.idleFd = none := by
        rw [hidle]
        rfl
      have hcloses : ∀ x ∈ (s.close s.idleFd).closes, Own x := by
        intro x hx
        obtain hx | hx := List.mem_append.mp hx
        · exact hi.closes x hx
        · rw [List.mem_singleton.mp hx]
          exact Or.inl ⟨by omega, hat⟩
      have hclosed : (s.close s.idleFd).closed = s.closed :=
        closed_close_of_ne fun conn => by simp [hat]
      refine ⟨?_, trivial, hcloses, ?_, hi.order⟩
      · show (s.fds.close s.idleFd).Tallies Holder.ofAcceptor _
        rw [hidle, DescriptorTable.close_neg_one]
        exact htallies
      · show Accounted s.taken s.handed (s.close s.idleFd).closed []
        rw [hclosed]
        exact htaken
  | some conn =>
      have hheld : s.held = [(s.idleFd, .accepted conn), (s.acceptSocket, .acceptSocket)] := by
        simp only [held, hpc]
      have hidle := hi.results
      simp only [Results, hpc] at hidle
      obtain ⟨htallies, hcloses, htaken⟩ := hi.close_accepted hheld (by simp) hidle
        (by simp only [inHand, hpc])
      exact ⟨htallies, trivial, hcloses, htaken, hi.order⟩

theorem Inv.arrive (hi : Inv s) :
    Inv { s with pending := s.pending ++ [s.arrived], arrived := s.arrived + 1 } := by
  have horder : (s.taken ++ (s.pending ++ [s.arrived])).Sublist (List.range (s.arrived + 1)) := by
    rw [← List.append_assoc, List.range_succ]
    exact hi.order.append_right _
  exact ⟨hi.tallies, hi.results, hi.closes, hi.taken, horder⟩

theorem Inv.reset (hi : Inv s) (i : Nat) : Inv { s with pending := s.pending.eraseIdx i } :=
  ⟨hi.tallies, hi.results, hi.closes, hi.taken,
    ((List.eraseIdx_sublist _ _).append_left _).trans hi.order⟩

theorem Inv.closeOther (hi : Inv s) {n : Nat} (h : s.guard (.closeOther n) = true) :
    Inv { s with fds := s.fds.close n } := by
  have hother : ∀ w, s.fds.owner n = some w → w.ofAcceptor = false := by
    intro w hw
    simpa [Acceptor.guard, hw] using h
  exact ⟨hi.tallies.close_other hother, hi.results, hi.closes, hi.taken, hi.order⟩

theorem Inv.openOther (hi : Inv s) : Inv { s with fds := (s.fds.openAs .other).2 } :=
  ⟨hi.tallies.openAs_other rfl, hi.results, hi.closes, hi.taken, hi.order⟩

/-! ## Runs -/

theorem Inv.exec (hi : Inv s) {a : AcceptorAction} (hg : s.guard a = true)
    (h : Acceptor.exec a s = .ok t) : Inv t := by
  cases a with
  | socket made => exact hi.socket (by simpa [Acceptor.guard] using hg) h
  | openFirst opens => exact hi.openFirst (by simpa [Acceptor.guard] using hg) h
  | bind bound =>
      have hpc : s.pc = .bind := by simpa [Acceptor.guard] using hg
      have htallies := hi.tallies
      have htaken := hi.taken
      simp only [held, inHand, hpc] at htallies htaken
      simp only [Acceptor.exec, bindOrDie] at h
      split at h
      · cases h
        exact ⟨htallies, trivial, hi.closes, htaken, hi.order⟩
      · cases h
  | setNewConnectionCallback =>
      cases h
      exact ⟨hi.tallies, hi.results, hi.closes, hi.taken, hi.order⟩
  | listen ok =>
      simp only [Acceptor.exec, Acceptor.listen] at h
      split at h
      · cases h
        exact ⟨hi.tallies, hi.results, hi.closes, hi.taken, hi.order⟩
      · cases h
  | accept answer =>
      simp only [Acceptor.guard, Bool.and_eq_true, decide_eq_true_eq] at hg
      exact hi.accept hg.1.1 hg.2 h
  | deliver =>
      simp only [Acceptor.exec] at h
      split at h
      · next connfd conn hpc =>
          cases h
          exact hi.deliver hpc
      · cases h
        exact hi
  | checkErrno errno =>
      cases h
      exact hi.checkErrno (by simpa [Acceptor.guard] using hg) errno
  | giveUp =>
      cases h
      exact hi.giveUp (by simpa [Acceptor.guard] using hg)
  | swap answer =>
      cases h
      simp only [Acceptor.guard, Bool.and_eq_true, decide_eq_true_eq] at hg
      exact hi.swap hg.1 hg.2
  | dropSwapped =>
      cases h
      simp only [Acceptor.guard] at hg
      split at hg
      · next conn hpc => exact hi.dropSwapped hpc
      · cases hg
  | reopen opens =>
      cases h
      exact hi.reopen (by simpa [Acceptor.guard] using hg) opens
  | destroy =>
      cases h
      exact hi.destroy (by simpa [Acceptor.guard] using hg)
  | destroySocket =>
      cases h
      exact hi.destroySocket (by simpa [Acceptor.guard] using hg)
  | arrive =>
      cases h
      exact hi.arrive
  | reset i =>
      cases h
      exact hi.reset i
  | openOther =>
      cases h
      exact hi.openOther
  | closeOther n =>
      cases h
      exact hi.closeOther hg

/-- Whatever the other threads of the process do with descriptors in between,
an acceptor closes nothing that is not its own; what the table has of it is
just what its variables say, so nothing is left of it behind the destructor;
and of the connections it has accepted, each is handed over once or closed
once, but for the one it is just about to. Both happen in the order in which
they have arrived. -/
theorem descriptors_accounted {fds : DescriptorTable Holder}
    (hfds : ∀ n w, fds.owner n = some w → w.ofAcceptor = false) {as : List AcceptorAction}
    {t : Acceptor} (hr : machine.run as (new fds) = some t) :
    (∀ x ∈ t.closes, Own x) ∧ t.fds.Tallies Holder.ofAcceptor t.held ∧
      (t.handed ++ t.closed ++ t.inHand).Perm t.taken ∧
      (t.handed.Sublist t.taken ∧ t.closed.Sublist t.taken) ∧
      (t.taken ++ t.pending).Sublist (List.range t.arrived) := by
  have hi : Inv t := Machine.run_invariant (m := machine)
    (fun hi hg he => Inv.exec hi hg he) (Inv.new hfds) hr
  exact ⟨hi.closes, hi.tallies, hi.taken.perm, hi.taken.in_order, hi.order⟩

/-- A process with three descriptors open, and room for two or three more. -/
def threeOpen (limit : Nat) : DescriptorTable Holder :=
  ⟨fun n => if n < 3 then some .other else none, limit⟩

theorem threeOpen_other (limit : Nat) :
    ∀ n w, (threeOpen limit).owner n = some w → w.ofAcceptor = false := by
  intro n w h
  simp only [threeOpen] at h
  split at h
  · cases h
    rfl
  · cases h

/-- The process runs out with one of two connections accepted, and another
thread is given the number of the spare. -/
def spareTaken : List AcceptorAction :=
  [.socket true, .openFirst true, .bind true, .setNewConnectionCallback, .listen true, .arrive,
    .arrive, .accept .accepted, .deliver, .accept (.failed .EMFILE), .checkErrno .EMFILE, .giveUp,
    .openOther, .swap (.failed .EMFILE), .dropSwapped, .closeOther 5, .reopen true, .destroy,
    .destroySocket]

theorem descriptors_accounted_spareTaken :
    ∃ t, machine.run spareTaken (new (threeOpen 6)) = some t ∧ t.handed = [0] ∧
      t.fds.owner 4 = some .other ∧ t.fds.owner 3 = none ∧ (∀ x ∈ t.closes, Own x) ∧
      t.fds.Tallies Holder.ofAcceptor t.held ∧
      (t.handed ++ t.closed ++ t.inHand).Perm t.taken ∧
      (t.handed.Sublist t.taken ∧ t.closed.Sublist t.taken) ∧
      (t.taken ++ t.pending).Sublist (List.range t.arrived) :=
  ⟨_, rfl, rfl, rfl, rfl, descriptors_accounted (threeOpen_other 6)
    (show machine.run spareTaken (new (threeOpen 6)) = some _ from rfl)⟩

/-! ## Out of descriptors

`idleFd_` is what the kernel has handed out for it, so a table that is full
but for that number has room for one more, and the number that is handed out
next is that one again. -/

/-- A number the kernel hands out is below the limit, and -1 stands for none. -/
def Below (s : Acceptor) : Prop := -1 ≤ s.idleFd ∧ s.idleFd < s.fds.limit

theorem Below.openIdle (opens : Bool) (s : Acceptor) : Below (s.openIdle opens) := by
  cases opens with
  | true =>
      have hlt := s.fds.openAs_lt_limit .idleFd
      rw [← s.fds.limit_openAs .idleFd] at hlt
      exact ⟨s.fds.openAs_ge .idleFd, hlt⟩
  | false =>
      have hlt : (-1 : Int) < s.fds.limit := by omega
      exact ⟨Int.le_refl _, hlt⟩

theorem Below.exec (hi : Below s) {a : AcceptorAction} (hg : s.guard a = true)
    (h : Acceptor.exec a s = .ok t) : Below t := by
  cases a with
  | socket made =>
      simp only [Acceptor.exec, Acceptor.socket] at h
      split at h
      · next fd fds hopen =>
          cases h
          have hlimit := s.fds.limit_openAs .acceptSocket
          rw [hopen] at hlimit
          have hlimit' : fds.limit = s.fds.limit := hlimit
          exact ⟨hi.1, by rw [hlimit']; exact hi.2⟩
      · cases h
  | openFirst opens =>
      simp only [Acceptor.exec, Acceptor.openFirst] at h
      obtain ⟨-, h⟩ := assertThat_bind_eq_ok.mp h
      cases h
      exact Below.openIdle opens s
  | bind bound =>
      simp only [Acceptor.exec, bindOrDie] at h
      split at h
      · cases h
        exact hi
      · cases h
  | setNewConnectionCallback =>
      cases h
      exact hi
  | listen ok =>
      simp only [Acceptor.exec, Acceptor.listen] at h
      split at h
      · cases h
        exact hi
      · cases h
  | accept answer =>
      simp only [Acceptor.guard, Bool.and_eq_true, decide_eq_true_eq] at hg
      obtain ⟨hne, -⟩ | ⟨conn, pending, n, rfl, -, -, htake⟩ :=
        takePending_cases answer s hg.2
      · cases answer with
        | accepted => exact absurd rfl hne
        | failed err =>
            simp only [Acceptor.exec, Acceptor.accept] at h
            split at h
            · cases h
              exact hi
            · cases h
      · simp only [Acceptor.exec, Acceptor.accept, htake] at h
        cases h
        exact hi
  | deliver =>
      simp only [Acceptor.exec] at h
      split at h
      · cases h
        unfold Acceptor.deliver
        split
        · exact hi
        · simpa [Below] using hi
      · cases h
        exact hi
  | checkErrno errno =>
      cases h
      unfold Acceptor.checkErrno
      split
      · exact hi
      · exact hi
  | giveUp =>
      cases h
      simpa [Below] using hi
  | swap answer =>
      cases h
      simp only [Acceptor.guard, Bool.and_eq_true, decide_eq_true_eq] at hg
      obtain ⟨-, htake⟩ | ⟨conn, pending, n, -, -, hlow, htake⟩ :=
        takePending_cases answer s hg.2
      · have hlt : (-1 : Int) < s.fds.limit := by omega
        simp only [Below, Acceptor.swap, htake]
        exact ⟨Int.le_refl _, hlt⟩
      · have hlt : (n : Int) < s.fds.limit :=
          Int.ofNat_lt.mpr (DescriptorTable.lowest_eq_some.mp hlow).1
        have hge : (-1 : Int) ≤ n := by omega
        simp only [Below, Acceptor.swap, htake, DescriptorTable.limit_set]
        exact ⟨hge, hlt⟩
  | dropSwapped =>
      cases h
      simpa [Below] using hi
  | reopen opens =>
      cases h
      exact Below.openIdle opens s
  | destroy =>
      cases h
      simpa [Below] using hi
  | destroySocket =>
      cases h
      simpa [Below] using hi
  | arrive =>
      cases h
      exact hi
  | reset i =>
      cases h
      exact hi
  | openOther =>
      cases h
      simpa [Below] using hi
  | closeOther n =>
      cases h
      simpa [Below] using hi

/-- `handleRead` with no descriptor left, and nobody else at work. -/
def emfileRound (answer : AcceptAnswer) : List AcceptorAction :=
  [.accept (.failed .EMFILE), .checkErrno .EMFILE, .giveUp, .swap answer, .dropSwapped,
    .reopen true]

/-- Full, and between two calls of `handleRead`. -/
structure Full (s : Acceptor) : Prop where
  ready : s.pc = .ready
  listening : s.listening = true
  full : s.fds.lowest = none

/-- `conn` taken off the queue and closed, under the number of the spare. -/
def dropped (conn : Nat) (s : Acceptor) : Acceptor :=
  { s with
    pending := s.pending.tail
    taken := s.taken ++ [conn]
    closed := s.closed ++ [conn]
    closes := s.closes ++ [(s.idleFd, some .idleFd), (s.idleFd, some (.accepted conn))] }

theorem Full.answers (h : Full s) : s.answers (.failed .EMFILE) = true := by
  simp [Acceptor.answers, h.full]

theorem run_cons_of {a : AcceptorAction} {as : List AcceptorAction} {u : Acceptor}
    (hg : s.guard a = true) (he : Acceptor.exec a s = .ok u) :
    machine.run (a :: as) s = machine.run as u := Machine.run_cons_of (m := machine) hg he as

/-- The first `accept` fails, and `errno` is still what it left. -/
theorem Full.run_emfileRound (h : Full s) (answer : AcceptAnswer) :
    machine.run (emfileRound answer) s
      = machine.run [.giveUp, .swap answer, .dropSwapped, .reopen true]
          { s with pc := .giveUp } := by
  have hg : s.guard (.accept (.failed .EMFILE)) = true := by
    simp [Acceptor.guard, h.ready, h.listening, h.answers]
  have haccept : Acceptor.exec (.accept (.failed .EMFILE)) s = .ok { s with pc := .logged } := rfl
  have herrno : Acceptor.exec (.checkErrno .EMFILE) { s with pc := .logged }
      = .ok { s with pc := .giveUp } := rfl
  rw [emfileRound, run_cons_of hg haccept, run_cons_of rfl herrno]

/-- The number of the spare goes from one to the next and back. -/
theorem Full.emfileRound_spare (h : Full s) (hi : Inv s) (hlt : Below s) (hspare : 0 ≤ s.idleFd)
    {conn : Nat} {pending : List Nat} (hpending : s.pending = conn :: pending) :
    machine.run (emfileRound .accepted) s = some (s.dropped conn) := by
  obtain ⟨n, hn⟩ := Int.eq_ofNat_of_zero_le hspare
  have hlimit : n < s.fds.limit := by
    have hlimit := hlt.2
    omega
  have hown : s.fds.owner n = some .idleFd := by
    refine (hi.tallies n .idleFd rfl).mpr ?_
    simp [held, h.ready, hn]
  have hfree := DescriptorTable.lowest_set_of_full h.full hlimit
  let spareGone : Acceptor := { s with
    fds := s.fds.set n none
    closes := s.closes ++ [((n : Int), some .idleFd)]
    pc := .swap }
  let swapped : Acceptor := { spareGone with
    fds := s.fds.set n (some (.accepted conn))
    pending := pending
    taken := s.taken ++ [conn]
    pc := .dropSwapped (some conn) }
  let closedAgain : Acceptor := { swapped with
    fds := s.fds.set n none
    closed := s.closed ++ [conn]
    closes := spareGone.closes ++ [((n : Int), some (.accepted conn))]
    pc := .reopen }
  have hgiveUp : Acceptor.exec .giveUp { s with pc := .giveUp } = .ok spareGone := by
    simp [Acceptor.exec, Acceptor.close, hn, hown, spareGone]
  have hgswap : spareGone.guard (.swap .accepted) = true := by
    simp [Acceptor.guard, Acceptor.answers, spareGone, hpending, hfree]
  have hswap : Acceptor.exec (.swap .accepted) spareGone = .ok swapped := by
    simp [Acceptor.exec, Acceptor.swap, takePending, hpending, spareGone, swapped,
      DescriptorTable.openAs_of_lowest hfree, hn]
  have hdrop : Acceptor.exec .dropSwapped swapped = .ok closedAgain := by
    simp [Acceptor.exec, Acceptor.close, hn, swapped, closedAgain, spareGone]
  have hreopen : Acceptor.exec (.reopen true) closedAgain = .ok (s.dropped conn) := by
    simp [Acceptor.exec, Acceptor.openIdle, closedAgain, swapped, spareGone, dropped,
      DescriptorTable.openAs_of_lowest hfree, ← hown, hpending, hn, h.ready]
  rw [h.run_emfileRound, run_cons_of rfl hgiveUp, run_cons_of hgswap hswap, run_cons_of rfl hdrop,
    run_cons_of rfl hreopen]
  rfl

/-- After `2 * k` calls of `close` on nothing. -/
def tried (k : Nat) (s : Acceptor) : Acceptor :=
  { s with closes := s.closes ++ List.replicate (2 * k) (-1, none) }

theorem Full.giveUp_nothing (hspare : s.idleFd = -1) :
    Acceptor.exec .giveUp { s with pc := .giveUp } = .ok { s with
      closes := s.closes ++ [(-1, none)]
      pc := .swap } := by
  simp [Acceptor.exec, Acceptor.close, hspare]

theorem Full.emfileRound_none (h : Full s) (hspare : s.idleFd = -1) :
    machine.run (emfileRound (.failed .EMFILE)) s = some (s.tried 1) := by
  let failed : Acceptor := { s with
    closes := s.closes ++ [(-1, none)]
    pc := .dropSwapped none }
  have hg : Acceptor.guard { s with closes := s.closes ++ [(-1, none)], pc := .swap }
      (.swap (.failed .EMFILE)) = true := by
    simp [Acceptor.guard, Acceptor.answers, h.full]
  have hswap : Acceptor.exec (.swap (.failed .EMFILE))
      { s with closes := s.closes ++ [(-1, none)], pc := .swap } = .ok failed := by
    simp [Acceptor.exec, Acceptor.swap, takePending, failed, hspare]
  have hdrop : Acceptor.exec .dropSwapped failed = .ok { failed with
      closes := s.closes ++ List.replicate (2 * 1) (-1, none)
      pc := .reopen } := by
    simp [Acceptor.exec, Acceptor.close, failed, hspare, List.replicate]
  have hreopen : Acceptor.exec (.reopen true) { failed with
      closes := s.closes ++ List.replicate (2 * 1) (-1, none)
      pc := .reopen } = .ok (s.tried 1) := by
    simp [Acceptor.exec, Acceptor.openIdle, failed, tried,
      DescriptorTable.openAs_of_full h.full, hspare, h.ready]
  rw [h.run_emfileRound, run_cons_of rfl (Full.giveUp_nothing hspare), run_cons_of hg hswap,
    run_cons_of rfl hdrop, run_cons_of rfl hreopen]
  rfl

/-- With no number free, the kernel does not accept. -/
theorem Full.not_accepted (h : Full s) (hspare : s.idleFd = -1) :
    machine.run (emfileRound .accepted) s = none := by
  have hg : Acceptor.guard { s with closes := s.closes ++ [(-1, none)], pc := .swap }
      (.swap .accepted) = false := by
    simp [Acceptor.guard, Acceptor.answers, h.full]
  have hstuck : machine.step (.swap .accepted)
      { s with closes := s.closes ++ [(-1, none)], pc := .swap } = none := by
    rw [Machine.step]
    exact if_neg (by simp [machine, hg])
  rw [h.run_emfileRound, run_cons_of rfl (Full.giveUp_nothing hspare), Machine.run, hstuck]
  rfl

/-- The state when the queue is empty. -/
def drained (s : Acceptor) : Acceptor :=
  { s with
    pending := []
    taken := s.taken ++ s.pending
    closed := s.closed ++ s.pending
    closes := s.closes ++ s.pending.flatMap fun conn =>
      [(s.idleFd, some .idleFd), (s.idleFd, some (.accepted conn))] }

theorem drained_dropped {conn : Nat} {pending : List Nat} (hpending : s.pending = conn :: pending) :
    (s.dropped conn).drained = s.drained := by
  simp [drained, dropped, hpending]

theorem Full.dropped (h : Full s) (conn : Nat) : Full (s.dropped conn) :=
  ⟨h.ready, h.listening, h.full⟩

theorem Full.tried (h : Full s) (k : Nat) : Full (s.tried k) := ⟨h.ready, h.listening, h.full⟩

theorem Full.run_spare (h : Full s) (hi : Inv s) (hlt : Below s) (hspare : 0 ≤ s.idleFd) :
    machine.run (List.replicate s.pending.length (emfileRound .accepted)).flatten s
      = some s.drained := by
  generalize hpending : s.pending = pending
  induction pending generalizing s with
  | nil =>
      have hsame : s.drained = s := by
        cases s
        simp only at hpending
        subst hpending
        simp [drained]
      rw [hsame]
      rfl
  | cons conn pending ih =>
      have hround := h.emfileRound_spare hi hlt hspare hpending
      have hi' : Inv (s.dropped conn) := Machine.run_invariant (m := machine)
        (fun hi hg he => Inv.exec hi hg he) hi hround
      have hrest := ih (h.dropped conn) hi' hlt hspare (by simp [Acceptor.dropped, hpending])
      rw [List.length_cons, List.replicate_succ, List.flatten_cons, Machine.run_append, hround,
        Option.bind_some, hrest, drained_dropped hpending]

theorem Full.run_none (h : Full s) (hspare : s.idleFd = -1) (k : Nat) :
    machine.run (List.replicate k (emfileRound (.failed .EMFILE))).flatten s
      = some (s.tried k) := by
  induction k generalizing s with
  | zero => simp [Acceptor.tried, Machine.run]
  | succ k ih =>
      rw [List.replicate_succ, List.flatten_cons, Machine.run_append,
        h.emfileRound_none hspare, Option.bind_some, ih (h.tried 1) hspare]
      simp [Acceptor.tried, Nat.mul_add, List.replicate_add, Nat.add_comm]

/-- With no descriptor left in the process and no other thread at work, an
acceptor that has its spare takes all that waits to be accepted off the queue,
one connection for each call of `handleRead`, and leaves the table and
`idleFd_` as they were. One that has lost its spare accepts nothing, and the
socket stays readable: `handleRead` can be called any number of times, and
nothing has changed. -/
theorem emfile_drains {fds : DescriptorTable Holder}
    (hfds : ∀ n w, fds.owner n = some w → w.ofAcceptor = false) {as : List AcceptorAction}
    (hr : machine.run as (new fds) = some s) (h : Full s) :
    (0 ≤ s.idleFd → machine.run
        (List.replicate s.pending.length (emfileRound .accepted)).flatten s = some s.drained) ∧
      (s.idleFd < 0 → machine.run (emfileRound .accepted) s = none ∧ ∀ k,
        machine.run (List.replicate k (emfileRound (.failed .EMFILE))).flatten s
          = some (s.tried k)) := by
  have hi : Inv s := Machine.run_invariant (m := machine)
    (fun hi hg he => Inv.exec hi hg he) (Inv.new hfds) hr
  have hnew : Below (new fds) := by
    have hlt : (-1 : Int) < fds.limit := by omega
    exact ⟨Int.le_refl _, hlt⟩
  have hlt : Below s := Machine.run_invariant (m := machine)
    (fun hi hg he => Below.exec hi hg he) hnew hr
  refine ⟨h.run_spare hi hlt, fun hneg => ?_⟩
  have hnone : s.idleFd = -1 := by
    have hge := hlt.1
    omega
  exact ⟨h.not_accepted hnone, h.run_none hnone⟩

/-- Two connections wait, and the spare is the last number there is. -/
def twoWaiting : List AcceptorAction :=
  [.socket true, .openFirst true, .bind true, .listen true, .arrive, .arrive]

theorem emfile_drains_twoWaiting :
    ∃ s, machine.run twoWaiting (new (threeOpen 5)) = some s ∧ s.idleFd = 4 ∧
      s.pending = [0, 1] ∧
      (0 ≤ s.idleFd → machine.run
        (List.replicate s.pending.length (emfileRound .accepted)).flatten s = some s.drained) ∧
      (s.idleFd < 0 → machine.run (emfileRound .accepted) s = none ∧ ∀ k,
        machine.run (List.replicate k (emfileRound (.failed .EMFILE))).flatten s
          = some (s.tried k)) :=
  ⟨_, rfl, rfl, rfl, emfile_drains (threeOpen_other 5)
    (show machine.run twoWaiting (new (threeOpen 5)) = some _ from rfl) ⟨rfl, rfl, rfl⟩⟩

end Libanet.Net.Acceptor
