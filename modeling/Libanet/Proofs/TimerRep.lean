import Mathlib.Data.Set.Function
import Libanet.Net.TimerQueue

/-!
# Who owns a timer

Every timer that exists is in exactly one place: created and not yet added,
in the queue, or in the hand of the code that is working on it — the batch
of a `handleRead`, or the one timer an operation is moving. `owned` lists
the addresses of all of them, and `Rep` says that the list has no
repetitions and is exactly what the heap holds. So whoever finds an address
in one of these places may follow it, and whoever deletes it takes it out of
the only place there is.

The rest of `Rep` is the two sets: an entry of `timers` carries the current
expiration of its timer, and `activeTimers` is `timers` under another key,
element by element. Each operation is described by the state it leads to and
by what it has in its hand afterwards.
-/

namespace Libanet.Net

@[simp] theorem Entry.timer_mk (w : Timestamp) (a : Nat) : (Entry.mk w a).timer = a := rfl

theorem Entry.mk_when_timer (e : Entry) : Entry.mk e.when_ e.timer = e := rfl

theorem ActiveTimer.mk_inj {a b s t : Nat} :
    ActiveTimer.mk a s = ActiveTimer.mk b t ↔ a = b ∧ s = t := Prod.mk_inj

theorem Entry.when_le {e f : Entry} (h : e ≤ f) : e.when_ ≤ f.when_ := by
  rcases Prod.Lex.le_iff.mp h with h | ⟨h, -⟩
  · exact le_of_lt h
  · exact le_of_eq h

/-- The sentry of `getExpired` is above everything that expires by `now`. -/
theorem Entry.lt_sentry {e : Entry} {now : Timestamp} (he : e.timer < UINTPTR_MAX) :
    e < Entry.mk now UINTPTR_MAX ↔ e.when_ ≤ now := by
  rw [Prod.Lex.lt_iff]
  show e.when_ < now ∨ e.when_ = now ∧ e.timer < UINTPTR_MAX ↔ _
  constructor
  · rintro (h | ⟨h, -⟩)
    · exact le_of_lt h
    · exact le_of_eq h
  · intro h
    rcases lt_or_eq_of_le h with h | h
    · exact .inl h
    · exact .inr ⟨h, he⟩

theorem Timer.restart_sequence (t : Timer) (now : Timestamp) :
    (t.restart now).sequence = t.sequence := by
  unfold Timer.restart
  split <;> rfl

namespace TimerQueue

/-- The addresses of all timers there are. -/
def owned (q : TimerQueue) (hand : List Nat) : List Nat :=
  hand ++ (q.unadded ++ q.timers.toList.map Entry.timer)

/-- What an entry of `timers` is called in `activeTimers`. -/
def key (q : TimerQueue) (e : Entry) : ActiveTimer :=
  ActiveTimer.mk e.timer ((q.heap e.timer).elim 0 Timer.sequence)

structure Rep (q : TimerQueue) (hand : List Nat) : Prop where
  nodup : (q.owned hand).Nodup
  live : ∀ a, q.heap a ≠ none ↔ a ∈ q.owned hand
  entry : ∀ e ∈ q.timers, ∃ t, q.heap e.timer = some t ∧ t.expiration = e.when_
  active : q.activeTimers.toList.Perm (q.timers.toList.map q.key)
  seqLe : ∀ a t, q.heap a = some t → t.sequence ≤ q.numCreated
  seqInj : ∀ a b t u, q.heap a = some t → q.heap b = some u → t.sequence = u.sequence →
    a = b
  addr : ∀ a t, q.heap a = some t → a < UINTPTR_MAX

namespace Rep

variable {q : TimerQueue} {hand : List Nat}

theorem size_eq (h : q.Rep hand) : q.timers.size = q.activeTimers.size := by
  rw [OrdSet.size, OrdSet.size, h.active.length_eq, List.length_map]

theorem mem_active (h : q.Rep hand) {k : ActiveTimer} :
    k ∈ q.activeTimers ↔ ∃ e ∈ q.timers, q.key e = k := by
  rw [OrdSet.mem_def, h.active.mem_iff, List.mem_map]
  rfl

theorem key_eq {a : Nat} {t : Timer} (ht : q.heap a = some t) (w : Timestamp) :
    q.key (Entry.mk w a) = ActiveTimer.mk a t.sequence := by
  simp [key, ht]

theorem mem_owned_of_mem (h : q.Rep hand) {e : Entry} (he : e ∈ q.timers) :
    e.timer ∈ q.owned hand := by
  obtain ⟨t, ht, -⟩ := h.entry e he
  exact (h.live e.timer).mp (by simp [ht])

/-- A timer in somebody's hand exists, and is not in the queue. -/
theorem of_mem_hand (h : q.Rep hand) {a : Nat} (ha : a ∈ hand) :
    (∃ t, q.heap a = some t) ∧ a ∉ q.unadded ∧ ∀ e ∈ q.timers, e.timer ≠ a := by
  have hnd := h.nodup
  rw [owned, List.nodup_append] at hnd
  refine ⟨?_, ?_, ?_⟩
  · have hlive := (h.live a).mpr (List.mem_append_left _ ha)
    exact Option.ne_none_iff_exists'.mp hlive
  · intro hu
    exact hnd.2.2 a ha a (List.mem_append_left _ hu) rfl
  · intro e he hea
    have hmem : a ∈ q.timers.toList.map Entry.timer :=
      List.mem_map.mpr ⟨e, he, hea⟩
    exact hnd.2.2 a ha a (List.mem_append_right _ hmem) rfl

theorem timer_inj (h : q.Rep hand) {e f : Entry} (he : e ∈ q.timers) (hf : f ∈ q.timers)
    (heq : e.timer = f.timer) : e = f := by
  obtain ⟨t, ht, hte⟩ := h.entry e he
  obtain ⟨u, hu, huf⟩ := h.entry f hf
  rw [heq] at ht
  cases ht.symm.trans hu
  rw [← e.mk_when_timer, ← f.mk_when_timer, ← hte, ← huf, heq]

/-- Timers that are neither in `timers` nor asked about may change. -/
theorem key_congr {q' : TimerQueue} (hheap : ∀ e ∈ q.timers,
    (q'.heap e.timer).elim 0 Timer.sequence = (q.heap e.timer).elim 0 Timer.sequence) :
    q.timers.toList.map q'.key = q.timers.toList.map q.key := by
  refine List.map_congr_left fun e he => ?_
  rw [key, hheap e he, key]

/-- `Rep` does not depend on the flags, the timerfd or the records. -/
theorem congr (h : q.Rep hand) {q' : TimerQueue} (hheap : q'.heap = q.heap)
    (hn : q'.numCreated = q.numCreated) (hu : q'.unadded = q.unadded)
    (ht : q'.timers = q.timers) (ha : q'.activeTimers = q.activeTimers) : q'.Rep hand := by
  have howned : q'.owned hand = q.owned hand := by rw [owned, hu, ht, owned]
  have hkey : q'.key = q.key := by
    funext e
    rw [key, hheap, key]
  constructor
  · rw [howned]
    exact h.nodup
  · rw [howned, hheap]
    exact h.live
  · rw [ht, hheap]
    exact h.entry
  · rw [ha, ht, hkey]
    exact h.active
  · rw [hheap, hn]
    exact h.seqLe
  · rw [hheap]
    exact h.seqInj
  · rw [hheap]
    exact h.addr

/-! ## Moving a timer -/

/-- A new timer, at an address that was free. -/
theorem newTimer (h : q.Rep hand) {a : Nat} (ha : q.heap a = none)
    (hlt : a < UINTPTR_MAX) (w : Timestamp) (interval : Int) (r : Bool) :
    (q.newTimer a w interval r).Rep hand := by
  have hout : a ∉ q.owned hand := fun hmem => (h.live a).mpr hmem ha
  have hperm : ((q.newTimer a w interval r).owned hand).Perm (a :: q.owned hand) := by
    have hsplit : (q.newTimer a w interval r).owned hand =
        (hand ++ q.unadded) ++ a :: q.timers.toList.map Entry.timer := by
      simp [owned, TimerQueue.newTimer, setHeap]
    rw [hsplit, owned, ← List.append_assoc]
    exact List.perm_middle
  have hheap : ∀ b, b ≠ a → (q.newTimer a w interval r).heap b = q.heap b :=
    fun b hb => if_neg hb
  have hself : (q.newTimer a w interval r).heap a =
      some ⟨w, interval, r, q.numCreated + 1⟩ := if_pos rfl
  have hold : ∀ e ∈ q.timers, e.timer ≠ a := by
    intro e he hea
    exact hout (hea ▸ h.mem_owned_of_mem he)
  refine ⟨?_, ?_, ?_, ?_, ?_, ?_, ?_⟩
  · rw [hperm.nodup_iff, List.nodup_cons]
    exact ⟨hout, h.nodup⟩
  · intro b
    rw [hperm.mem_iff, List.mem_cons]
    by_cases hb : b = a
    · rw [hb, hself]
      simp
    · rw [hheap b hb, h.live b]
      simp [hb]
  · intro e he
    rw [hheap e.timer (hold e he)]
    exact h.entry e he
  · have hkey : (q.newTimer a w interval r).timers.toList.map
        (q.newTimer a w interval r).key = q.timers.toList.map q.key := by
      refine key_congr (q := q) fun e he => ?_
      rw [hheap e.timer (hold e he)]
    rw [hkey]
    exact h.active
  · intro b t hb
    by_cases hba : b = a
    · rw [hba, hself] at hb
      cases hb
      exact le_refl _
    · rw [hheap b hba] at hb
      exact Nat.le_succ_of_le (h.seqLe b t hb)
  · intro b c t u hb hc hseq
    by_cases hba : b = a <;> by_cases hca : c = a
    · rw [hba, hca]
    · rw [hba, hself] at hb
      rw [hheap c hca] at hc
      cases hb
      have hle := h.seqLe c u hc
      dsimp only at hseq
      omega
    · rw [hca, hself] at hc
      rw [hheap b hba] at hb
      cases hc
      have hle := h.seqLe b t hb
      dsimp only at hseq
      omega
    · rw [hheap b hba] at hb
      rw [hheap c hca] at hc
      exact h.seqInj b c t u hb hc hseq
  · intro b t hb
    by_cases hba : b = a
    · rw [hba]
      exact hlt
    · rw [hheap b hba] at hb
      exact h.addr b t hb

/-- The timer whose `addTimerInLoop` has come is taken from those that wait
for it. -/
theorem takeUnadded (h : q.Rep hand) {a : Nat} (ha : a ∈ q.unadded)
    (added : List ActiveTimer) :
    Rep { q with unadded := q.unadded.erase a, added := added } (a :: hand) := by
  have hperm : (owned { q with unadded := q.unadded.erase a, added := added }
      (a :: hand)).Perm (q.owned hand) := by
    show (a :: (hand ++ (q.unadded.erase a ++ q.timers.toList.map Entry.timer))).Perm
      (hand ++ (q.unadded ++ q.timers.toList.map Entry.timer))
    refine List.perm_middle.symm.trans (List.Perm.append_left hand ?_)
    exact (List.perm_cons_erase ha).symm.append_right _
  refine ⟨hperm.nodup_iff.mpr h.nodup, ?_, h.entry, h.active, h.seqLe, h.seqInj, h.addr⟩
  intro b
  rw [hperm.mem_iff]
  exact h.live b

/-- A timer goes from the hand into the queue. -/
theorem inserted {a : Nat} (h : q.Rep (a :: hand)) {t : Timer} (ht : q.heap a = some t) :
    Entry.mk t.expiration a ∉ q.timers ∧
      ActiveTimer.mk a t.sequence ∉ q.activeTimers ∧
      Rep { q with
        timers := q.timers.insert (Entry.mk t.expiration a)
        activeTimers := q.activeTimers.insert (ActiveTimer.mk a t.sequence) } hand := by
  obtain ⟨-, -, hout⟩ := h.of_mem_hand List.mem_cons_self
  have hentry : Entry.mk t.expiration a ∉ q.timers := fun hmem => hout _ hmem rfl
  have hactive : ActiveTimer.mk a t.sequence ∉ q.activeTimers := by
    intro hmem
    obtain ⟨e, he, hkey⟩ := h.mem_active.mp hmem
    exact hout e he (ActiveTimer.mk_inj.mp hkey).1
  have htimers := OrdSet.insert_perm hentry
  have hperm : (owned { q with
      timers := q.timers.insert (Entry.mk t.expiration a)
      activeTimers := q.activeTimers.insert (ActiveTimer.mk a t.sequence) } hand).Perm
      (q.owned (a :: hand)) := by
    have hmap := htimers.map Entry.timer
    rw [List.map_cons, Entry.timer_mk] at hmap
    refine (List.Perm.append_left hand (List.Perm.append_left q.unadded hmap)).trans ?_
    refine (List.Perm.append_left hand List.perm_middle).trans ?_
    exact List.perm_middle
  refine ⟨hentry, hactive, hperm.nodup_iff.mpr h.nodup, ?_, ?_, ?_, h.seqLe, h.seqInj,
    h.addr⟩
  · intro b
    rw [hperm.mem_iff]
    exact h.live b
  · intro e he
    rcases OrdSet.mem_insert.mp he with rfl | he
    · exact ⟨t, ht, rfl⟩
    · exact h.entry e he
  · refine (OrdSet.insert_perm hactive).trans (List.Perm.trans ?_ (htimers.map _).symm)
    rw [List.map_cons]
    have hkey : q.key (Entry.mk t.expiration a) = ActiveTimer.mk a t.sequence := key_eq ht _
    show List.Perm _ (q.key (Entry.mk t.expiration a) :: q.timers.toList.map q.key)
    rw [hkey]
    exact h.active.cons _

/-- A timer goes from the queue into the hand. -/
theorem removed (h : q.Rep hand) {e : Entry} (he : e ∈ q.timers) :
    q.key e ∈ q.activeTimers ∧
      Rep { q with
        timers := q.timers.erase e
        activeTimers := q.activeTimers.erase (q.key e) } (e.timer :: hand) := by
  have hmem : q.key e ∈ q.activeTimers := h.mem_active.mpr ⟨e, he, rfl⟩
  have htimers := OrdSet.perm_erase he
  have hperm : (owned { q with
      timers := q.timers.erase e
      activeTimers := q.activeTimers.erase (q.key e) } (e.timer :: hand)).Perm
      (q.owned hand) := by
    have hmap := htimers.map Entry.timer
    rw [List.map_cons] at hmap
    refine List.Perm.symm ?_
    refine (List.Perm.append_left hand (List.Perm.append_left q.unadded hmap)).trans ?_
    refine (List.Perm.append_left hand List.perm_middle).trans ?_
    exact List.perm_middle
  refine ⟨hmem, hperm.nodup_iff.mpr h.nodup, ?_, ?_, ?_, h.seqLe, h.seqInj, h.addr⟩
  · intro b
    rw [hperm.mem_iff]
    exact h.live b
  · intro f hf
    exact h.entry f (OrdSet.mem_erase.mp hf).2
  · have hactive := h.active.trans (htimers.map q.key)
    rw [List.map_cons] at hactive
    exact ((OrdSet.perm_erase hmem).symm.trans hactive).cons_inv

/-- A timer in the hand is deleted. -/
theorem deleted {a : Nat} (h : q.Rep (a :: hand)) : (q.setHeap a none).Rep hand := by
  obtain ⟨-, -, hout⟩ := h.of_mem_hand List.mem_cons_self
  have hheap : ∀ b, b ≠ a → (q.setHeap a none).heap b = q.heap b := fun b hb => if_neg hb
  have hself : (q.setHeap a none).heap a = none := if_pos rfl
  have hnd : (a :: q.owned hand).Nodup := h.nodup
  have hold : ∀ b t, (q.setHeap a none).heap b = some t → q.heap b = some t := by
    intro b t hb
    by_cases hba : b = a
    · rw [hba, hself] at hb
      cases hb
    · rwa [hheap b hba] at hb
  refine ⟨(List.nodup_cons.mp hnd).2, ?_, ?_, ?_, ?_, ?_, ?_⟩
  · intro b
    show _ ↔ b ∈ q.owned hand
    by_cases hba : b = a
    · rw [hba, hself]
      simp [(List.nodup_cons.mp hnd).1]
    · rw [hheap b hba, h.live b]
      show b ∈ a :: q.owned hand ↔ _
      simp [hba]
  · intro e he
    rw [hheap e.timer (hout e he)]
    exact h.entry e he
  · have hkey : q.timers.toList.map (q.setHeap a none).key = q.timers.toList.map q.key := by
      refine key_congr fun e he => ?_
      rw [hheap e.timer (hout e he)]
    show q.activeTimers.toList.Perm (q.timers.toList.map (q.setHeap a none).key)
    rw [hkey]
    exact h.active
  · exact fun b t hb => h.seqLe b t (hold b t hb)
  · exact fun b c t u hb hc => h.seqInj b c t u (hold b t hb) (hold c u hc)
  · exact fun b t hb => h.addr b t (hold b t hb)

/-- A timer in the hand is changed, all but its sequence number. -/
theorem changed {a : Nat} (h : q.Rep (a :: hand)) {t t' : Timer} (ht : q.heap a = some t)
    (hseq : t'.sequence = t.sequence) : (q.setHeap a (some t')).Rep (a :: hand) := by
  obtain ⟨-, -, hout⟩ := h.of_mem_hand List.mem_cons_self
  have hheap : ∀ b, b ≠ a → (q.setHeap a (some t')).heap b = q.heap b :=
    fun b hb => if_neg hb
  have hself : (q.setHeap a (some t')).heap a = some t' := if_pos rfl
  have hold : ∀ b u, (q.setHeap a (some t')).heap b = some u →
      ∃ v, q.heap b = some v ∧ v.sequence = u.sequence := by
    intro b u hb
    by_cases hba : b = a
    · rw [hba, hself] at hb
      cases hb
      exact ⟨t, hba ▸ ht, hseq.symm⟩
    · rw [hheap b hba] at hb
      exact ⟨u, hb, rfl⟩
  refine ⟨h.nodup, ?_, ?_, ?_, ?_, ?_, ?_⟩
  · intro b
    show _ ↔ b ∈ q.owned (a :: hand)
    rw [← h.live b]
    by_cases hba : b = a
    · rw [hba, hself, ht]
      simp
    · rw [hheap b hba]
  · intro e he
    rw [hheap e.timer (hout e he)]
    exact h.entry e he
  · have hkey : q.timers.toList.map (q.setHeap a (some t')).key =
        q.timers.toList.map q.key := by
      refine key_congr fun e he => ?_
      rw [hheap e.timer (hout e he)]
    show q.activeTimers.toList.Perm (q.timers.toList.map (q.setHeap a (some t')).key)
    rw [hkey]
    exact h.active
  · intro b u hb
    obtain ⟨v, hv, hvu⟩ := hold b u hb
    rw [← hvu]
    exact h.seqLe b v hv
  · intro b c u v hb hc huv
    obtain ⟨u', hu', huu⟩ := hold b u hb
    obtain ⟨v', hv', hvv⟩ := hold c v hc
    exact h.seqInj b c u' v' hu' hv' (huu.trans (huv.trans hvv.symm))
  · intro b u hb
    obtain ⟨v, hv, -⟩ := hold b u hb
    exact h.addr b v hv

end Rep

/-! ## Adding and cancelling -/

/-- The queue with a timer put into both sets. -/
def enqueue (q : TimerQueue) (a : Nat) (t : Timer) : TimerQueue :=
  { q with
    timers := q.timers.insert (Entry.mk t.expiration a)
    activeTimers := q.activeTimers.insert (ActiveTimer.mk a t.sequence) }

/-- A timer that expires then would be the first. -/
def isEarliest (q : TimerQueue) (w : Timestamp) : Bool :=
  match q.timers.begin with
  | none => true
  | some e => w < e.when_

variable {q : TimerQueue} {hand : List Nat}

theorem deref_eq_ok {a : Nat} {t : Timer} : q.deref a = .ok t ↔ q.heap a = some t := by
  unfold deref
  cases q.heap a with
  | none => simp
  | some u => simp

theorem delete_eq_ok {a : Nat} {q' : TimerQueue} :
    q.delete a = .ok q' ↔ ∃ t, q.heap a = some t ∧ q.setHeap a none = q' := by
  unfold delete
  cases q.heap a with
  | none => simp
  | some u => simp

theorem insert_spec {a : Nat} (h : q.Rep (a :: hand)) {t : Timer} (ht : q.heap a = some t) :
    q.insert a = .ok (q.enqueue a t, q.isEarliest t.expiration) ∧
      (q.enqueue a t).Rep hand := by
  obtain ⟨hentry, hactive, hrep⟩ := h.inserted ht
  refine ⟨?_, hrep⟩
  refine assertThat_bind_eq_ok.mpr ⟨h.size_eq, bind_eq_ok.mpr ⟨t, deref_eq_ok.mpr ht, ?_⟩⟩
  refine assertThat_bind_eq_ok.mpr ⟨hentry, assertThat_bind_eq_ok.mpr ⟨hactive, ?_⟩⟩
  exact assertThat_bind_eq_ok.mpr ⟨hrep.size_eq, rfl⟩

/-- The queue after a timer was added, but for the timerfd. -/
def addTimer (q : TimerQueue) (a : Nat) (t : Timer) : TimerQueue :=
  { q with
    unadded := q.unadded.erase a
    added := q.added ++ [ActiveTimer.mk a t.sequence] }.enqueue a t

theorem addTimerInLoop_spec (h : q.Rep hand) {a : Nat} (ha : a ∈ q.unadded)
    (clock : Timestamp) :
    ∃ t, q.heap a = some t ∧ (q.addTimer a t).Rep hand ∧
      q.addTimerInLoop a clock =
        .ok (if q.isEarliest t.expiration then
          (q.addTimer a t).resetTimerfd t.expiration clock else q.addTimer a t) := by
  have htake := fun t => h.takeUnadded ha (q.added ++ [ActiveTimer.mk a t])
  obtain ⟨⟨t, ht⟩, -⟩ := (htake 0).of_mem_hand List.mem_cons_self
  obtain ⟨hins, hrep⟩ := insert_spec (htake t.sequence) ht
  refine ⟨t, ht, hrep, ?_⟩
  refine bind_eq_ok.mpr ⟨t, deref_eq_ok.mpr ht, bind_eq_ok.mpr ⟨_, hins, ?_⟩⟩
  have hearly : isEarliest { q with
      unadded := q.unadded.erase a
      added := q.added ++ [ActiveTimer.mk a t.sequence] } t.expiration =
      q.isEarliest t.expiration := rfl
  rw [hearly]
  cases q.isEarliest t.expiration with
  | true => exact bind_eq_ok.mpr ⟨t, deref_eq_ok.mpr ht, rfl⟩
  | false => rfl

/-- The queue after an active timer was cancelled. -/
def cancelActive (q : TimerQueue) (e : Entry) : TimerQueue :=
  { q.setHeap e.timer none with
    timers := q.timers.erase e
    activeTimers := q.activeTimers.erase (q.key e)
    cancelled := q.cancelled ++ [q.key e] }

/-- What a cancel of a timer that is not active leaves behind. -/
def cancelOther (q : TimerQueue) (k : ActiveTimer) : TimerQueue :=
  { q with
    cancelled := q.cancelled ++ [k]
    cancelingTimers :=
      if q.callingExpiredTimers then q.cancelingTimers.insert k else q.cancelingTimers }

theorem cancelActive_rep (h : q.Rep hand) {e : Entry} (he : e ∈ q.timers) :
    (q.cancelActive e).Rep hand := by
  obtain ⟨-, hrep⟩ := h.removed he
  exact hrep.deleted.congr rfl rfl rfl rfl rfl

theorem cancelOther_rep (h : q.Rep hand) (k : ActiveTimer) : (q.cancelOther k).Rep hand :=
  h.congr rfl rfl rfl rfl rfl

theorem cancelInLoop_active (h : q.Rep hand) {e : Entry} (he : e ∈ q.timers) :
    q.cancelInLoop (q.key e) = .ok (q.cancelActive e) := by
  obtain ⟨t, ht, hte⟩ := h.entry e he
  have hmem : q.key e ∈ q.activeTimers := h.mem_active.mpr ⟨e, he, rfl⟩
  have hentry : Entry.mk t.expiration e.timer = e := by
    rw [hte]
    exact e.mk_when_timer
  have hsize := (cancelActive_rep h he).size_eq
  unfold cancelInLoop
  refine assertThat_bind_eq_ok.mpr ⟨h.size_eq, ?_⟩
  have hfst : (ofLex (q.key e)).1 = e.timer := rfl
  dsimp only
  rw [if_pos hmem, hfst]
  refine bind_eq_ok.mpr ⟨t, deref_eq_ok.mpr ht, ?_⟩
  rw [hentry]
  refine assertThat_bind_eq_ok.mpr ⟨he, bind_eq_ok.mpr ⟨_, delete_eq_ok.mpr ⟨t, ht, rfl⟩, ?_⟩⟩
  exact assertThat_bind_eq_ok.mpr ⟨hsize, rfl⟩

theorem cancelInLoop_other (h : q.Rep hand) {k : ActiveTimer} (hk : k ∉ q.activeTimers) :
    q.cancelInLoop k = .ok (q.cancelOther k) := by
  unfold cancelInLoop
  refine assertThat_bind_eq_ok.mpr ⟨h.size_eq, ?_⟩
  dsimp only
  rw [if_neg hk]
  unfold cancelOther
  cases q.callingExpiredTimers with
  | true => exact assertThat_bind_eq_ok.mpr ⟨h.size_eq, rfl⟩
  | false => exact assertThat_bind_eq_ok.mpr ⟨h.size_eq, rfl⟩

/-! ## Expiring -/

/-- The loop of `getExpired` finds every expired timer in `activeTimers`. -/
theorem eraseExpired_spec {expired : List Entry} {q : TimerQueue} {rest : List ActiveTimer}
    (hheap : ∀ e ∈ expired, q.heap e.timer ≠ none)
    (hperm : q.activeTimers.toList.Perm (expired.map q.key ++ rest)) :
    ∃ active : OrdSet ActiveTimer, active.toList.Perm rest ∧
      eraseExpired expired q = .ok { q with activeTimers := active } := by
  induction expired generalizing q with
  | nil => exact ⟨q.activeTimers, hperm, rfl⟩
  | cons e expired ih =>
      obtain ⟨t, ht⟩ := Option.ne_none_iff_exists'.mp (hheap e List.mem_cons_self)
      have hkey : q.key e = ActiveTimer.mk e.timer t.sequence := Rep.key_eq ht e.when_
      have hmem : ActiveTimer.mk e.timer t.sequence ∈ q.activeTimers := by
        rw [OrdSet.mem_def, hperm.mem_iff, ← hkey]
        exact List.mem_append_left _ List.mem_cons_self
      rw [List.map_cons, List.cons_append, hkey] at hperm
      have hrest := ((OrdSet.perm_erase hmem).symm.trans hperm).cons_inv
      obtain ⟨active, hactive, hok⟩ := ih
        (q := { q with activeTimers := q.activeTimers.erase (ActiveTimer.mk e.timer t.sequence) })
        (fun f hf => hheap f (List.mem_cons_of_mem e hf)) hrest
      refine ⟨active, hactive, ?_⟩
      refine bind_eq_ok.mpr ⟨t, deref_eq_ok.mpr ht, ?_⟩
      exact assertThat_bind_eq_ok.mpr ⟨hmem, hok⟩

/-- The entries that have expired by `now`. -/
def expiredBy (q : TimerQueue) (now : Timestamp) : List Entry :=
  q.timers.below (Entry.mk now UINTPTR_MAX)

/-- The entries that have not. -/
def remaining (q : TimerQueue) (now : Timestamp) : OrdSet Entry :=
  q.timers.above (Entry.mk now UINTPTR_MAX)

theorem Rep.lt_sentry (h : q.Rep hand) {e : Entry} (he : e ∈ q.timers) (now : Timestamp) :
    e < Entry.mk now UINTPTR_MAX ↔ e.when_ ≤ now := by
  obtain ⟨t, ht, -⟩ := h.entry e he
  exact Entry.lt_sentry (h.addr e.timer t ht)

theorem Rep.mem_expiredBy (h : q.Rep hand) {e : Entry} {now : Timestamp} :
    e ∈ q.expiredBy now ↔ e ∈ q.timers ∧ e.when_ ≤ now := by
  rw [expiredBy, OrdSet.mem_below]
  exact and_congr_right fun he => h.lt_sentry he now

theorem Rep.mem_remaining (h : q.Rep hand) {e : Entry} {now : Timestamp} :
    e ∈ q.remaining now ↔ e ∈ q.timers ∧ now < e.when_ := by
  rw [remaining, OrdSet.mem_above]
  refine and_congr_right fun he => ?_
  rw [← not_lt, h.lt_sentry he now, not_le]

theorem getExpired_spec (h : q.Rep hand) (now : Timestamp) :
    ∃ active : OrdSet ActiveTimer,
      q.getExpired now = .ok ({ q with
        timers := q.remaining now, activeTimers := active }, q.expiredBy now) ∧
      Rep { q with timers := q.remaining now, activeTimers := active }
        ((q.expiredBy now).map Entry.timer ++ hand) := by
  have hsplit : q.timers.toList = q.expiredBy now ++ (q.remaining now).toList :=
    (q.timers.below_append_above _).symm
  have hlive : ∀ e ∈ q.expiredBy now, q.heap e.timer ≠ none := by
    intro e he
    obtain ⟨t, ht, -⟩ := h.entry e (h.mem_expiredBy.mp he).1
    simp [ht]
  have hperm := h.active
  rw [hsplit, List.map_append] at hperm
  obtain ⟨active, hactive, hok⟩ := eraseExpired_spec
    (q := { q with timers := q.remaining now }) hlive hperm
  have howned : (owned { q with timers := q.remaining now, activeTimers := active }
      ((q.expiredBy now).map Entry.timer ++ hand)).Perm (q.owned hand) := by
    show (((q.expiredBy now).map Entry.timer ++ hand) ++
      (q.unadded ++ (q.remaining now).toList.map Entry.timer)).Perm
      (hand ++ (q.unadded ++ q.timers.toList.map Entry.timer))
    rw [hsplit, List.map_append, List.append_assoc]
    refine List.perm_append_comm.trans ?_
    rw [List.append_assoc, List.append_assoc]
    exact List.Perm.append_left hand (List.Perm.append_left q.unadded List.perm_append_comm)
  have hrep : Rep { q with timers := q.remaining now, activeTimers := active }
      ((q.expiredBy now).map Entry.timer ++ hand) := by
    refine ⟨howned.nodup_iff.mpr h.nodup, ?_, ?_, hactive, h.seqLe, h.seqInj, h.addr⟩
    · intro b
      rw [howned.mem_iff]
      exact h.live b
    · intro e he
      exact h.entry e (h.mem_remaining.mp he).1
  refine ⟨active, ?_, hrep⟩
  have hend : ∀ e ∈ (q.remaining now).begin, now < e.when_ := by
    intro e he
    exact (h.mem_remaining.mp (OrdSet.begin_mem he)).2
  refine assertThat_bind_eq_ok.mpr ⟨h.size_eq, assertThat_bind_eq_ok.mpr ⟨hend, ?_⟩⟩
  exact bind_eq_ok.mpr ⟨_, hok, assertThat_bind_eq_ok.mpr ⟨hrep.size_eq, rfl⟩⟩

/-- The queue at the first callback of a batch. -/
def beginBatch (q : TimerQueue) (now : Timestamp) (active : OrdSet ActiveTimer) :
    TimerQueue :=
  { q with
    timerfd := match q.timerfd with | .fired _ => .disarmed | fd => fd
    timers := q.remaining now
    activeTimers := active
    callingExpiredTimers := true
    cancelingTimers := .empty
    phase := .calling now [] (q.expiredBy now) }

theorem handleReadBegin_spec (h : q.Rep []) (now : Timestamp) :
    ∃ active, q.handleReadBegin now = .ok (q.beginBatch now active) ∧
      (q.beginBatch now active).Rep ((q.expiredBy now).map Entry.timer) := by
  have h' : Rep { q with
      timerfd := match q.timerfd with | .fired _ => .disarmed | fd => fd } [] :=
    h.congr rfl rfl rfl rfl rfl
  obtain ⟨active, hok, hrep⟩ := getExpired_spec h' now
  rw [List.append_nil] at hrep
  refine ⟨active, bind_eq_ok.mpr ⟨_, hok, rfl⟩, ?_⟩
  exact hrep.congr rfl rfl rfl rfl rfl

/-! ## Resetting -/

/-- The timer of a batch entry, if `reset` is to restart it. -/
def survivor (q : TimerQueue) (e : Entry) : Option Timer :=
  match q.heap e.timer with
  | some t =>
      if t.repeat_ ∧ ActiveTimer.mk e.timer t.sequence ∉ q.cancelingTimers then some t
      else none
  | none => none

theorem survivor_eq_some {e : Entry} {t : Timer} :
    q.survivor e = some t ↔ q.heap e.timer = some t ∧ t.repeat_ = true ∧
      ActiveTimer.mk e.timer t.sequence ∉ q.cancelingTimers := by
  unfold survivor
  cases hu : q.heap e.timer with
  | none => simp
  | some u =>
      by_cases hs : u.repeat_ ∧ ActiveTimer.mk e.timer u.sequence ∉ q.cancelingTimers
      · simp only [if_pos hs, Option.some.injEq]
        constructor
        · rintro rfl
          exact ⟨rfl, hs⟩
        · exact fun h => h.1
      · simp only [if_neg hs, Option.some.injEq, reduceCtorEq, false_iff]
        rintro ⟨rfl, h⟩
        exact hs h

theorem survivor_congr {q' : TimerQueue} {e : Entry} (hheap : q'.heap e.timer = q.heap e.timer)
    (hc : q'.cancelingTimers = q.cancelingTimers) : q'.survivor e = q.survivor e := by
  rw [survivor, hheap, hc, survivor]

/-- What the loop of `reset` does with a batch: the survivors are back in the
queue with a new expiration, the others are gone, and nothing else is
touched. -/
structure ResetStep (now : Timestamp) (expired : List Entry) (q q' : TimerQueue) : Prop where
  frame : q' = { q with
    heap := q'.heap, timers := q'.timers, activeTimers := q'.activeTimers }
  other : ∀ a, a ∉ expired.map Entry.timer → q'.heap a = q.heap a
  batch : ∀ e ∈ expired, q'.heap e.timer = (q.survivor e).map (Timer.restart now)
  timers : ∀ e, e ∈ q'.timers ↔ e ∈ q.timers ∨ ∃ b ∈ expired, ∃ t,
    q.survivor b = some t ∧ e = Entry.mk (addTime now t.interval) b.timer

theorem ResetStep.cancelingTimers {now : Timestamp} {expired : List Entry}
    {q q' : TimerQueue} (h : ResetStep now expired q q') :
    q'.cancelingTimers = q.cancelingTimers := by
  rw [h.frame]

/-- One entry at a time. -/
theorem ResetStep.cons {now : Timestamp} {e : Entry} {expired : List Entry}
    {q q₁ q' : TimerQueue} (h : ResetStep now [e] q q₁) (h' : ResetStep now expired q₁ q')
    (hnd : ((e :: expired).map Entry.timer).Nodup) :
    ResetStep now (e :: expired) q q' := by
  rw [List.map_cons, List.nodup_cons] at hnd
  have hsurv : ∀ b ∈ expired, q₁.survivor b = q.survivor b := by
    intro b hb
    refine survivor_congr (h.other b.timer ?_) h.cancelingTimers
    intro hmem
    rw [List.map_singleton, List.mem_singleton] at hmem
    exact hnd.1 (List.mem_map.mpr ⟨b, hb, hmem⟩)
  constructor
  · rw [h'.frame, h.frame]
  · intro a ha
    rw [List.map_cons, List.mem_cons, not_or] at ha
    rw [h'.other a ha.2]
    exact h.other a (by simpa using ha.1)
  · intro b hb
    rcases List.mem_cons.mp hb with rfl | hb
    · rw [h'.other b.timer hnd.1]
      exact h.batch b List.mem_cons_self
    · rw [h'.batch b hb, hsurv b hb]
  · intro f
    rw [h'.timers f, h.timers f]
    constructor
    · rintro ((hf | ⟨b, hb, hf⟩) | ⟨b, hb, hf⟩)
      · exact .inl hf
      · rw [List.mem_singleton] at hb
        exact .inr ⟨b, by rw [hb]; exact List.mem_cons_self, hf⟩
      · rw [hsurv b hb] at hf
        exact .inr ⟨b, List.mem_cons_of_mem e hb, hf⟩
    · rintro (hf | ⟨b, hb, hf⟩)
      · exact .inl (.inl hf)
      · rcases List.mem_cons.mp hb with rfl | hb
        · exact .inl (.inr ⟨b, List.mem_singleton.mpr rfl, hf⟩)
        · rw [← hsurv b hb] at hf
          exact .inr ⟨b, hb, hf⟩

theorem resetExpired_spec (now : Timestamp) {expired : List Entry} {q : TimerQueue}
    (h : q.Rep (expired.map Entry.timer ++ hand)) :
    ∃ q', resetExpired now expired q = .ok q' ∧ q'.Rep hand ∧ ResetStep now expired q q' := by
  induction expired generalizing q with
  | nil => exact ⟨q, rfl, h, rfl, fun _ _ => rfl, by simp, by simp⟩
  | cons e expired ih =>
      have hnd : ((e :: expired).map Entry.timer).Nodup :=
        (List.nodup_append.mp (List.nodup_append.mp h.nodup).1).1
      obtain ⟨⟨t, ht⟩, -⟩ := h.of_mem_hand List.mem_cons_self
      by_cases hs : t.repeat_ ∧ ActiveTimer.mk e.timer t.sequence ∉ q.cancelingTimers
      · -- restarted, and back into the queue
        have hexp : (t.restart now).expiration = addTime now t.interval := by
          rw [Timer.restart, if_pos hs.1]
        have hrep := h.changed ht (t.restart_sequence now)
        have hself : (q.setHeap e.timer (some (t.restart now))).heap e.timer =
          some (t.restart now) := if_pos rfl
        obtain ⟨hins, hrep₁⟩ := insert_spec hrep hself
        obtain ⟨q', hok, hrep', hstep⟩ := ih hrep₁
        have hsurv : q.survivor e = some t := survivor_eq_some.mpr ⟨ht, hs⟩
        have hfirst : ResetStep now [e] q
            ((q.setHeap e.timer (some (t.restart now))).enqueue e.timer (t.restart now)) := by
          refine ⟨rfl, ?_, ?_, ?_⟩
          · intro a ha
            exact if_neg (by simpa using ha)
          · intro b hb
            rw [List.mem_singleton.mp hb, hsurv]
            exact hself
          · intro f
            show f ∈ q.timers.insert _ ↔ _
            rw [OrdSet.mem_insert, hexp, or_comm]
            simp [hsurv]
        refine ⟨q', ?_, hrep', hfirst.cons hstep hnd⟩
        refine bind_eq_ok.mpr ⟨t, deref_eq_ok.mpr ht, ?_⟩
        rw [if_pos hs]
        exact bind_eq_ok.mpr ⟨_, hins, hok⟩
      · have hrep := h.deleted
        obtain ⟨q', hok, hrep', hstep⟩ := ih hrep
        have hsurv : q.survivor e = none := by
          cases hu : q.survivor e with
          | none => rfl
          | some u =>
              obtain ⟨hu, hs'⟩ := survivor_eq_some.mp hu
              cases ht.symm.trans hu
              exact absurd hs' hs
        have hfirst : ResetStep now [e] q (q.setHeap e.timer none) := by
          refine ⟨rfl, ?_, ?_, ?_⟩
          · intro a ha
            exact if_neg (by simpa using ha)
          · intro b hb
            rw [List.mem_singleton.mp hb, hsurv]
            exact if_pos rfl
          · intro f
            simp [hsurv]
            rfl
        refine ⟨q', ?_, hrep', hfirst.cons hstep hnd⟩
        refine bind_eq_ok.mpr ⟨t, deref_eq_ok.mpr ht, ?_⟩
        rw [if_neg hs]
        exact bind_eq_ok.mpr ⟨_, delete_eq_ok.mpr ⟨t, ht, rfl⟩, hok⟩

/-- The end of `reset`: the timerfd is armed for the first timer, if that has
a valid expiration. -/
def rearm (q : TimerQueue) (clock : Timestamp) : TimerQueue :=
  match q.timers.begin with
  | some e => if e.when_.valid then q.resetTimerfd e.when_ clock else q
  | none => q

theorem rearm_eq (q : TimerQueue) (clock : Timestamp) : q.rearm clock = { q with
    timerfd := (q.rearm clock).timerfd, settimes := (q.rearm clock).settimes } := by
  unfold rearm
  cases q.timers.begin with
  | none => rfl
  | some e =>
      by_cases hv : e.when_.valid = true
      · simp only [if_pos hv]
        rfl
      · simp only [if_neg hv]

theorem reset_spec {expired : List Entry} {q : TimerQueue}
    (h : q.Rep (expired.map Entry.timer ++ hand)) (now clock : Timestamp) :
    ∃ q', q.reset expired now clock = .ok (q'.rearm clock) ∧ q'.Rep hand ∧
      ResetStep now expired q q' := by
  obtain ⟨q', hok, hrep, hstep⟩ := resetExpired_spec now h
  refine ⟨q', bind_eq_ok.mpr ⟨q', hok, ?_⟩, hrep, hstep⟩
  unfold nextExpire rearm
  cases hb : q'.timers.begin with
  | none => rfl
  | some e =>
      obtain ⟨t, ht, hte⟩ := hrep.entry e (OrdSet.begin_mem hb)
      refine bind_eq_ok.mpr ⟨t.expiration, bind_eq_ok.mpr ⟨t, deref_eq_ok.mpr ht, rfl⟩, ?_⟩
      rw [hte]
      by_cases hv : e.when_.valid = true
      · simp only [if_pos hv]
        rfl
      · simp only [if_neg hv]
        rfl

/-! ## The loop thread -/

/-- The entries of the batch that is being run. -/
def batch (q : TimerQueue) : List Entry :=
  match q.phase with
  | .idle => []
  | .calling _ started rest => started ++ rest

def isCalling (q : TimerQueue) : Bool :=
  match q.phase with
  | .idle => false
  | .calling _ _ _ => true

structure Inv (q : TimerQueue) : Prop where
  rep : q.Rep (q.batch.map Entry.timer)
  batch : ∀ e ∈ q.batch, ∃ t, q.heap e.timer = some t ∧ t.expiration = e.when_
  calling : q.callingExpiredTimers = q.isCalling

/-- Everything a step of the queue can be. -/
inductive TimerStep (q : TimerQueue) : TimerAction → TimerQueue → Prop where
  | newTimer (a : Nat) (w : Timestamp) (interval : Int) (r : Bool)
      (free : q.heap a = none) :
      TimerStep q (.newTimer a w interval r) (q.newTimer a w interval r)
  | add (a : Nat) (clock : Timestamp) (t : Timer) (unadded : a ∈ q.unadded)
      (heap : q.heap a = some t) :
      TimerStep q (.addTimerInLoop a clock)
        (if q.isEarliest t.expiration then
          (q.addTimer a t).resetTimerfd t.expiration clock else q.addTimer a t)
  | cancelActive (e : Entry) (mem : e ∈ q.timers) :
      TimerStep q (.cancelInLoop (q.key e)) (q.cancelActive e)
  | cancelOther (k : ActiveTimer) (out : k ∉ q.activeTimers) :
      TimerStep q (.cancelInLoop k) (q.cancelOther k)
  | handleReadBegin (now : Timestamp) (active : OrdSet ActiveTimer)
      (idle : q.phase = .idle) :
      TimerStep q (.handleReadBegin now) (q.beginBatch now active)
  | run (now : Timestamp) (started rest : List Entry) (e : Entry) (t : Timer)
      (phase : q.phase = .calling now started (e :: rest))
      (heap : q.heap e.timer = some t) :
      TimerStep q .runNext { q with
        phase := .calling now (started ++ [e]) rest
        ran := q.ran ++ [⟨now, e.timer, t⟩] }
  | handleReadEnd (now clock : Timestamp) (started : List Entry) (q' : TimerQueue)
      (phase : q.phase = .calling now started [])
      (reset : ResetStep now started
        { q with callingExpiredTimers := false, phase := .idle } q') :
      TimerStep q (.handleReadEnd clock) (q'.rearm clock)
  | fires (d : Timestamp) (armed : q.timerfd = .armed d) :
      TimerStep q .timerfdFires { q with timerfd := .fired d }

/-- A timer of the batch is not in the queue, so the queue's own changes do
not reach it. -/
theorem Inv.batch_of_heap (hi : q.Inv) {q' : TimerQueue} (hb : q'.batch = q.batch)
    (hheap : ∀ e ∈ q.batch, q'.heap e.timer = q.heap e.timer) :
    ∀ e ∈ q'.batch, ∃ t, q'.heap e.timer = some t ∧ t.expiration = e.when_ := by
  intro e he
  rw [hb] at he
  rw [hheap e he]
  exact hi.batch e he

theorem Inv.mem_hand (hi : q.Inv) {e : Entry} (he : e ∈ q.batch) :
    (∃ t, q.heap e.timer = some t) ∧ e.timer ∉ q.unadded ∧
      ∀ f ∈ q.timers, f.timer ≠ e.timer :=
  hi.rep.of_mem_hand (List.mem_map.mpr ⟨e, he, rfl⟩)

/-- Every action on offer runs to its end, is one of the steps above, and
keeps the invariant. -/
theorem step_spec (hi : q.Inv) {a : TimerAction} (hg : q.guard a = true) :
    ∃ q', exec a q = .ok q' ∧ TimerStep q a q' ∧ q'.Inv := by
  have hrep := hi.rep
  cases a with
  | newTimer a w interval r =>
      simp only [guard, Bool.and_eq_true, Option.isNone_iff_eq_none, decide_eq_true_eq] at hg
      obtain ⟨⟨hfree, -⟩, hlt⟩ := hg
      refine ⟨_, rfl, .newTimer a w interval r hfree, hrep.newTimer hfree hlt w interval r,
        ?_, hi.calling⟩
      refine hi.batch_of_heap rfl fun e he => if_neg ?_
      intro hea
      obtain ⟨t, ht, -⟩ := hi.batch e he
      rw [hea, hfree] at ht
      cases ht
  | addTimerInLoop a clock =>
      simp only [guard, Bool.and_eq_true, List.contains_iff_mem] at hg
      obtain ⟨t, ht, hadd, hok⟩ := addTimerInLoop_spec hrep hg.2 clock
      refine ⟨_, hok, .add a clock t hg.2 ht, ?_⟩
      split
      · exact ⟨hadd.congr rfl rfl rfl rfl rfl, hi.batch, hi.calling⟩
      · exact ⟨hadd, hi.batch, hi.calling⟩
  | cancelInLoop k =>
      by_cases hk : k ∈ q.activeTimers
      · obtain ⟨e, he, rfl⟩ := hrep.mem_active.mp hk
        refine ⟨_, cancelInLoop_active hrep he, .cancelActive e he,
          cancelActive_rep hrep he, ?_, hi.calling⟩
        refine hi.batch_of_heap rfl fun f hf => if_neg ?_
        exact fun h => (hi.mem_hand hf).2.2 e he h.symm
      · exact ⟨_, cancelInLoop_other hrep hk, .cancelOther k hk, cancelOther_rep hrep k,
          hi.batch, hi.calling⟩
  | handleReadBegin now =>
      cases hp : q.phase with
      | calling now started rest => simp [guard, hp] at hg
      | idle =>
          have hnil : q.batch = [] := by simp [TimerQueue.batch, hp]
          rw [hnil] at hrep
          obtain ⟨active, hok, hrep'⟩ := handleReadBegin_spec hrep now
          refine ⟨_, hok, .handleReadBegin now active hp, hrep', ?_, rfl⟩
          intro e he
          exact hrep.entry e (hrep.mem_expiredBy.mp he).1
  | runNext =>
      cases hp : q.phase with
      | idle => simp [guard, hp] at hg
      | calling now started rest =>
          cases rest with
          | nil => simp [guard, hp] at hg
          | cons e rest =>
              have hmem : e ∈ q.batch := by simp [TimerQueue.batch, hp]
              obtain ⟨t, ht, -⟩ := hi.batch e hmem
              have hsame : TimerQueue.batch { q with
                  phase := .calling now (started ++ [e]) rest
                  ran := q.ran ++ [⟨now, e.timer, t⟩] } = q.batch := by
                simp [TimerQueue.batch, hp]
              refine ⟨_, ?_, .run now started rest e t hp ht, ?_, ?_, ?_⟩
              · simp only [exec, runNext, hp]
                exact bind_eq_ok.mpr ⟨t, deref_eq_ok.mpr ht, rfl⟩
              · rw [hsame]
                exact hrep.congr rfl rfl rfl rfl rfl
              · exact hi.batch_of_heap hsame fun _ _ => rfl
              · have hc := hi.calling
                rw [isCalling, hp] at hc
                exact hc
  | handleReadEnd clock =>
      cases hp : q.phase with
      | idle => simp [guard, hp] at hg
      | calling now started rest =>
          cases rest with
          | cons e rest => simp [guard, hp] at hg
          | nil =>
              have hb : q.batch = started := by simp [TimerQueue.batch, hp]
              rw [hb, ← List.append_nil (started.map Entry.timer)] at hrep
              obtain ⟨q', hok, hrep', hstep⟩ := reset_spec
                (q := { q with callingExpiredTimers := false, phase := .idle })
                (hrep.congr rfl rfl rfl rfl rfl) now clock
              have hphase : (q'.rearm clock).phase = .idle := by
                rw [rearm_eq, hstep.frame]
              have hcall : (q'.rearm clock).callingExpiredTimers = false := by
                rw [rearm_eq, hstep.frame]
              have hnil : (q'.rearm clock).batch = [] := by
                rw [TimerQueue.batch, hphase]
              refine ⟨_, ?_, .handleReadEnd now clock started q' hp hstep, ?_, ?_, ?_⟩
              · simp only [exec, handleReadEnd, hp]
                exact hok
              · rw [hnil]
                refine hrep'.congr ?_ ?_ ?_ ?_ ?_ <;> rw [rearm_eq]
              · rw [hnil]
                simp
              · rw [hcall, isCalling, hphase]
  | timerfdFires =>
      cases hfd : q.timerfd with
      | disarmed => simp [guard, hfd] at hg
      | fired d => simp [guard, hfd] at hg
      | armed d =>
          refine ⟨{ q with timerfd := .fired d }, ?_, .fires d hfd,
            hrep.congr rfl rfl rfl rfl rfl, hi.batch, hi.calling⟩
          simp only [exec, hfd]

/-- An action that was taken is one of the steps above. -/
theorem TimerStep.of_exec (hi : q.Inv) {a : TimerAction} {q' : TimerQueue}
    (hg : machine.guard q a = true) (he : machine.exec a q = .ok q') :
    TimerStep q a q' ∧ q'.Inv := by
  obtain ⟨q'', hok, hs, hi'⟩ := step_spec hi hg
  cases hok.symm.trans he
  exact ⟨hs, hi'⟩

theorem new_inv : new.Inv where
  rep := by
    refine ⟨List.nodup_nil, ?_, ?_, List.Perm.refl _, ?_, ?_, ?_⟩
    · intro a
      simp [owned, new, TimerQueue.batch, OrdSet.empty]
    · intro e he
      cases he
    · intro a t h
      cases h
    · intro a b t u h
      cases h
    · intro a t h
      cases h
  batch := by
    intro e he
    cases he
  calling := rfl

/-- The induction every result about the queue goes through: what holds at
the start and is kept by every step that meets `cond`, taken with the
invariant in hand, holds in every state such steps lead to. -/
theorem reaches_induction {cond : TimerQueue → TimerAction → Bool} {I : TimerQueue → Prop}
    (hnew : I new)
    (hstep : ∀ {q q' : TimerQueue} {a : TimerAction}, q.Inv → I q → q.guard a = true →
      cond q a = true → TimerStep q a q' → I q')
    (hr : (machine.restrict cond).Reaches new q) : q.Inv ∧ I q := by
  refine hr.invariant (I := fun q => q.Inv ∧ I q) ⟨new_inv, hnew⟩ ?_
  intro q q' a hi hg he
  obtain ⟨hg, hc⟩ := Bool.and_eq_true_iff.mp hg
  obtain ⟨hs, hi'⟩ := TimerStep.of_exec hi.1 hg he
  exact ⟨hi', hstep hi.1 hi.2 hg hc hs⟩

theorem reaches_inv (hr : machine.Reaches new q) : q.Inv := by
  rw [← machine.restrict_true] at hr
  exact (reaches_induction (I := fun _ => True) trivial (fun _ _ _ _ _ => trivial) hr).1

/-- A pointer that stays in a batch, or on its way to `addTimerInLoop`, stays
a pointer to the same timer. -/
theorem TimerStep.heap_eq (hi : q.Inv) {a : TimerAction} {q' : TimerQueue}
    (hs : TimerStep q a q') {p : Nat}
    (hp : p ∈ q.unadded ++ q.batch.map Entry.timer)
    (hp' : p ∈ q'.unadded ++ q'.batch.map Entry.timer) : q'.heap p = q.heap p := by
  have howned : p ∈ q.owned (q.batch.map Entry.timer) := by
    rcases List.mem_append.mp hp with hp | hp
    · exact List.mem_append_right _ (List.mem_append_left _ hp)
    · exact List.mem_append_left _ hp
  cases hs with
  | newTimer b w interval r free =>
      refine if_neg fun hpb => ?_
      exact (hi.rep.live p).mpr howned (hpb ▸ free)
  | add b clock t unadded heap => split <;> rfl
  | cancelActive e mem =>
      refine if_neg fun hpe => ?_
      have hnd := hi.rep.nodup
      rw [owned, ← List.append_assoc, List.nodup_append] at hnd
      have hmem : p ∈ q.timers.toList.map Entry.timer := List.mem_map.mpr ⟨e, mem, hpe.symm⟩
      refine hnd.2.2 p ?_ p hmem rfl
      rcases List.mem_append.mp hp with hp | hp
      · exact List.mem_append_right _ hp
      · exact List.mem_append_left _ hp
  | cancelOther k out => rfl
  | handleReadBegin now active idle => rfl
  | run now started rest e t phase heap => rfl
  | handleReadEnd now clock started q₁ phase reset =>
      have hphase : (q₁.rearm clock).phase = .idle := by rw [rearm_eq, reset.frame]
      have hunadded : (q₁.rearm clock).unadded = q.unadded := by
        rw [rearm_eq, reset.frame]
      rw [TimerQueue.batch, hphase, hunadded, List.map_nil, List.append_nil] at hp'
      rw [rearm_eq]
      refine reset.other p fun hmem => ?_
      have hbatch : p ∈ q.batch.map Entry.timer := by
        simpa [TimerQueue.batch, phase] using hmem
      exact (hi.rep.of_mem_hand hbatch).2.1 hp'
  | fires d armed => rfl

/-- In every state between two operations: no step on offer makes an
assertion fail, follows a pointer to a deleted timer, or deletes a timer
twice; `timers` and `activeTimers` correspond one to one, and entries carry
the current expirations; and a pointer held by a batch or on its way to
`addTimerInLoop` goes on pointing to the same timer. -/
theorem timers_owned_once (hr : machine.Reaches new q) :
    machine.Safe q ∧
      Set.BijOn q.key {e | e ∈ q.timers} {k | k ∈ q.activeTimers} ∧
      (∀ e ∈ q.timers, ∃ t, q.heap e.timer = some t ∧ t.expiration = e.when_ ∧
        q.key e = ActiveTimer.mk e.timer t.sequence) ∧
      ∀ a q', machine.step a q = some q' →
        ∀ p ∈ q.unadded ++ q.batch.map Entry.timer,
          p ∈ q'.unadded ++ q'.batch.map Entry.timer → q'.heap p = q.heap p := by
  have hi := reaches_inv hr
  refine ⟨?_, ⟨?_, ?_, ?_⟩, ?_, ?_⟩
  · intro a hg
    obtain ⟨q', hok, -⟩ := step_spec hi hg
    exact ⟨q', hok⟩
  · intro e he
    exact hi.rep.mem_active.mpr ⟨e, he, rfl⟩
  · intro e he f hf heq
    exact hi.rep.timer_inj he hf (ActiveTimer.mk_inj.mp heq).1
  · intro k hk
    exact hi.rep.mem_active.mp hk
  · intro e he
    obtain ⟨t, ht, hte⟩ := hi.rep.entry e he
    exact ⟨t, ht, hte, Rep.key_eq ht e.when_⟩
  · intro a q' hstep p hp hp'
    obtain ⟨hg, he⟩ := Machine.step_eq_some.mp hstep
    exact (TimerStep.of_exec hi hg he).1.heap_eq hi hp hp'

/-- Two timers expire together. The first, which repeats, adds a third,
cancels itself, the third and the second, and creates a fourth where the
third was. -/
def busyBatch : List TimerAction :=
  [.newTimer 8 5 3 true, .newTimer 16 5 0 false, .addTimerInLoop 8 1,
    .addTimerInLoop 16 1, .handleReadBegin 10, .runNext, .newTimer 24 7 0 false,
    .addTimerInLoop 24 11, .cancelInLoop (ActiveTimer.mk 8 1),
    .cancelInLoop (ActiveTimer.mk 24 3), .cancelInLoop (ActiveTimer.mk 16 2),
    .newTimer 24 30 0 false, .addTimerInLoop 24 12]

theorem timers_owned_once_busyBatch :
    ∃ q, machine.run busyBatch new = some q ∧ q.batch.map Entry.timer = [8, 16] ∧
      (∃ q', machine.exec .runNext q = .ok q') ∧
      Set.BijOn q.key {e | e ∈ q.timers} {k | k ∈ q.activeTimers} ∧
      ActiveTimer.mk 24 4 ∈ q.activeTimers := by
  obtain ⟨q, hr, hb, hg, ha⟩ : ∃ q, machine.run busyBatch new = some q ∧
      q.batch.map Entry.timer = [8, 16] ∧ q.guard .runNext = true ∧
      ActiveTimer.mk 24 4 ∈ q.activeTimers := ⟨_, rfl, rfl, rfl, by decide⟩
  obtain ⟨hsafe, hbij, -⟩ := timers_owned_once ⟨busyBatch, hr⟩
  exact ⟨q, hr, hb, hsafe .runNext hg, hbij, ha⟩

end TimerQueue

end Libanet.Net
