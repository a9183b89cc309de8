import Libanet.Proofs.TimerRep

/-!
# When callbacks run

`getExpired` cuts the queue at `now` in one go, so what a `handleRead` runs
is settled when it begins: the timers that have expired by then, in the order
of the queue. Callbacks can add and cancel what they like; the batch stays
what it was, and the timers in it stay where they are until `reset`. From
this follows the firing law: no callback is early, a batch is run completely,
in order and once, a timer that does not repeat is run once in its life, and
one that does is back in the queue when its batch is done.

The same fact is why a cancel can come too late. `cancelInLoop` takes a
waiting timer out of the queue, and tells `reset` about one that is in the
batch; but the loop that runs the batch does not look. A timer that has
expired and waits for its turn in the batch is run though it was cancelled.
This is the only way: `cancelled_never_runs` shows that any other timer never
runs again.
-/

namespace Libanet.Net

/-- The `TimerId` of the timer that was run. -/
def TimerRun.id (r : TimerRun) : ActiveTimer := ActiveTimer.mk r.addr r.timer.sequence

/-- The entry it had in the queue. -/
def TimerRun.entry (r : TimerRun) : Entry := Entry.mk r.timer.expiration r.addr

def TimerAction.isEnd : TimerAction → Bool
  | .handleReadEnd _ => true
  | _ => false

namespace TimerQueue

variable {q q' : TimerQueue} {a : TimerAction}

/-- The entries of the batch whose callbacks have been started. -/
def started (q : TimerQueue) : List Entry :=
  match q.phase with
  | .idle => []
  | .calling _ started _ => started

/-- The entries of the batch whose callbacks are still to come. -/
def waiting (q : TimerQueue) : List Entry :=
  match q.phase with
  | .idle => []
  | .calling _ _ rest => rest

theorem batch_eq (q : TimerQueue) : q.batch = q.started ++ q.waiting := by
  unfold TimerQueue.batch TimerQueue.started waiting
  cases q.phase <;> rfl

/-- What is still to come has not been started under another expiration. -/
theorem Inv.not_started (hq : q.Inv) {e : Entry} (he : e ∈ q.waiting) :
    e.timer ∉ q.started.map Entry.timer := by
  have hnd := (List.nodup_append.mp hq.rep.nodup).1
  rw [batch_eq, List.map_append, List.nodup_append] at hnd
  intro hmem
  exact hnd.2.2 e.timer hmem e.timer (List.mem_map.mpr ⟨e, he, rfl⟩) rfl

/-! ## Timers keep their identity -/

theorem restart_repeat (now : Timestamp) (t : Timer) :
    (t.restart now).repeat_ = t.repeat_ := by
  unfold Timer.restart
  split <;> rfl

theorem ResetStep.heap_old {now : Timestamp} {expired : List Entry}
    (h : ResetStep now expired q q') {b : Nat} {t' : Timer} (hb : q'.heap b = some t') :
    ∃ t, q.heap b = some t ∧ t.sequence = t'.sequence ∧ t.repeat_ = t'.repeat_ := by
  by_cases hmem : b ∈ expired.map Entry.timer
  · obtain ⟨e, he, rfl⟩ := List.mem_map.mp hmem
    rw [h.batch e he, Option.map_eq_some_iff] at hb
    obtain ⟨t, ht, rfl⟩ := hb
    exact ⟨t, (survivor_eq_some.mp ht).1, (t.restart_sequence now).symm,
      (restart_repeat now t).symm⟩
  · rw [h.other b hmem] at hb
    exact ⟨t', hb, rfl, rfl⟩

/-- A timer in the heap is one that was there before, or is new and has a new
sequence number. -/
theorem TimerStep.heap_old (hs : TimerStep q a q') {b : Nat} {t' : Timer}
    (hb : q'.heap b = some t') :
    t'.sequence = q.numCreated + 1 ∨
      ∃ t, q.heap b = some t ∧ t.sequence = t'.sequence ∧ t.repeat_ = t'.repeat_ := by
  cases hs with
  | newTimer c w interval r free =>
      by_cases hbc : b = c
      · have hself : (q.newTimer c w interval r).heap b =
          some ⟨w, interval, r, q.numCreated + 1⟩ := if_pos hbc
        cases hself.symm.trans hb
        exact .inl rfl
      · exact .inr ⟨t', (if_neg hbc).symm.trans hb, rfl, rfl⟩
  | add c clock t unadded heap =>
      split at hb
      · exact .inr ⟨t', hb, rfl, rfl⟩
      · exact .inr ⟨t', hb, rfl, rfl⟩
  | cancelActive e mem =>
      by_cases hbe : b = e.timer
      · exact absurd ((if_pos hbe).symm.trans hb) (by simp)
      · exact .inr ⟨t', (if_neg hbe).symm.trans hb, rfl, rfl⟩
  | cancelOther k out => exact .inr ⟨t', hb, rfl, rfl⟩
  | handleReadBegin now active idle => exact .inr ⟨t', hb, rfl, rfl⟩
  | run now started rest e t phase heap => exact .inr ⟨t', hb, rfl, rfl⟩
  | handleReadEnd now clock started q₁ phase reset =>
      rw [rearm_eq] at hb
      exact .inr (reset.heap_old hb)
  | fires d armed => exact .inr ⟨t', hb, rfl, rfl⟩

theorem TimerStep.numCreated_le (hs : TimerStep q a q') : q.numCreated ≤ q'.numCreated := by
  cases hs with
  | newTimer c w interval r free => exact Nat.le_succ _
  | add c clock t unadded heap => split <;> exact le_refl _
  | cancelActive e mem => exact le_refl _
  | cancelOther k out => exact le_refl _
  | handleReadBegin now active idle => exact le_refl _
  | run now started rest e t phase heap => exact le_refl _
  | handleReadEnd now clock started q₁ phase reset =>
      rw [rearm_eq, reset.frame]
  | fires d armed => exact le_refl _

/-- A timer that repeats no more, or was cancelled, is not in the heap after
`reset`. -/
theorem ResetStep.heap_none {now : Timestamp} {expired : List Entry}
    (h : ResetStep now expired q q') {b : Nat} (hb : b ∈ expired.map Entry.timer)
    {t : Timer} (ht : q.heap b = some t)
    (hgone : t.repeat_ = false ∨ ActiveTimer.mk b t.sequence ∈ q.cancelingTimers) :
    q'.heap b = none := by
  obtain ⟨e, he, rfl⟩ := List.mem_map.mp hb
  rw [h.batch e he, Option.map_eq_none_iff]
  cases hs : q.survivor e with
  | none => rfl
  | some u =>
      obtain ⟨hu, hrep, hout⟩ := survivor_eq_some.mp hs
      cases ht.symm.trans hu
      rcases hgone with hgone | hgone
      · rw [hgone] at hrep
        cases hrep
      · exact absurd hgone hout

/-! ## Never early, and once if not repeating -/

structure FireInv (q : TimerQueue) : Prop where
  /-- What is in a batch has expired. -/
  due : ∀ now started rest, q.phase = .calling now started rest →
    ∀ e ∈ started ++ rest, e.when_ ≤ now
  early : ∀ r ∈ q.ran, r.timer.expiration ≤ r.now
  bound : ∀ r ∈ q.ran, r.timer.sequence ≤ q.numCreated
  same : ∀ r ∈ q.ran, ∀ b t, q.heap b = some t → t.sequence = r.timer.sequence →
    t.repeat_ = r.timer.repeat_
  /-- A timer that has run and does not repeat waits for `reset` to delete
  it, if it is still there. -/
  spent : ∀ r ∈ q.ran, r.timer.repeat_ = false → ∀ b t, q.heap b = some t →
    t.sequence = r.timer.sequence → b ∈ q.started.map Entry.timer
  once : q.ran.Pairwise fun r r' => r.timer.sequence = r'.timer.sequence →
    r.timer.repeat_ = true ∧ r'.timer.repeat_ = true

theorem new_fireInv : new.FireInv where
  due := by
    intro now started rest h
    cases h
  early := by
    intro r hr
    cases hr
  bound := by
    intro r hr
    cases hr
  same := by
    intro r hr
    cases hr
  spent := by
    intro r hr
    cases hr
  once := List.Pairwise.nil

/-- A timer that has been run before and is in the heap was there before. -/
theorem FireInv.heap_old (hi : q.FireInv) (hs : TimerStep q a q') {r : TimerRun}
    (hr : r ∈ q.ran) {b : Nat} {t' : Timer} (hb : q'.heap b = some t')
    (hseq : t'.sequence = r.timer.sequence) :
    ∃ t, q.heap b = some t ∧ t.sequence = r.timer.sequence ∧ t.repeat_ = t'.repeat_ := by
  rcases hs.heap_old hb with hnew | ⟨t, ht, hts, htr⟩
  · have hle := hi.bound r hr
    omega
  · exact ⟨t, ht, hts.trans hseq, htr⟩

/-- A step that runs no callback. -/
theorem FireInv.keep (hi : q.FireInv) (hs : TimerStep q a q') (hran : q'.ran = q.ran)
    (hdue : ∀ now started rest, q'.phase = .calling now started rest →
      ∀ e ∈ started ++ rest, e.when_ ≤ now)
    (hspent : ∀ r ∈ q.ran, r.timer.repeat_ = false → ∀ b t, q'.heap b = some t →
      t.sequence = r.timer.sequence → b ∈ q'.started.map Entry.timer) : q'.FireInv := by
  refine ⟨hdue, ?_, ?_, ?_, ?_, ?_⟩
  · rw [hran]
    exact hi.early
  · intro r hr
    rw [hran] at hr
    exact le_trans (hi.bound r hr) hs.numCreated_le
  · intro r hr b t' hb hseq
    rw [hran] at hr
    obtain ⟨t, ht, hts, htr⟩ := hi.heap_old hs hr hb hseq
    rw [← htr]
    exact hi.same r hr b t ht hts
  · rw [hran]
    exact hspent
  · rw [hran]
    exact hi.once

/-- A step that runs no callback and leaves the batch alone. -/
theorem FireInv.keep_phase (hi : q.FireInv) (hs : TimerStep q a q') (hran : q'.ran = q.ran)
    (hphase : q'.phase = q.phase) : q'.FireInv := by
  refine hi.keep hs hran (fun now started rest hp => hi.due now started rest (hphase ▸ hp)) ?_
  intro r hr hrep b t' hb hseq
  obtain ⟨t, ht, hts, -⟩ := hi.heap_old hs hr hb hseq
  rw [started, hphase]
  exact hi.spent r hr hrep b t ht hts

/-- The next callback of the batch. -/
theorem FireInv.run (hi : q.FireInv) (hq : q.Inv) {now : Timestamp}
    {started rest : List Entry} {e : Entry} {t : Timer}
    (phase : q.phase = .calling now started (e :: rest)) (heap : q.heap e.timer = some t) :
    FireInv { q with
      phase := .calling now (started ++ [e]) rest
      ran := q.ran ++ [⟨now, e.timer, t⟩] } := by
  have hbatch : q.batch = started ++ e :: rest := by simp [TimerQueue.batch, phase]
  have hmem : e ∈ q.batch := by simp [hbatch]
  have hexp : t.expiration = e.when_ := by
    obtain ⟨u, hu, hue⟩ := hq.batch e hmem
    cases heap.symm.trans hu
    exact hue
  have hstart : q.started = started := by rw [TimerQueue.started, phase]
  have hnot : e.timer ∉ q.started.map Entry.timer :=
    hq.not_started (by simp [waiting, phase])
  refine ⟨?_, ?_, ?_, ?_, ?_, ?_⟩
  · intro now' started' rest' hp f hf
    cases hp
    exact hi.due now started (e :: rest) phase f (by simpa using hf)
  · intro r hr
    rcases List.mem_append.mp hr with hr | hr
    · exact hi.early r hr
    · rw [List.mem_singleton.mp hr]
      dsimp only
      rw [hexp]
      exact hi.due now started (e :: rest) phase e (by simp)
  · intro r hr
    rcases List.mem_append.mp hr with hr | hr
    · exact hi.bound r hr
    · rw [List.mem_singleton.mp hr]
      exact hq.rep.seqLe e.timer t heap
  · intro r hr b u hb hseq
    rcases List.mem_append.mp hr with hr | hr
    · exact hi.same r hr b u hb hseq
    · rw [List.mem_singleton.mp hr] at hseq ⊢
      have hbe := hq.rep.seqInj b e.timer u t hb heap hseq
      have hb' : q.heap b = some u := hb
      rw [hbe, heap] at hb'
      cases hb'
      rfl
  · intro r hr hrep b u hb hseq
    show b ∈ (started ++ [e]).map Entry.timer
    rw [List.map_append, List.mem_append]
    rcases List.mem_append.mp hr with hr | hr
    · exact .inl (hstart ▸ hi.spent r hr hrep b u hb hseq)
    · rw [List.mem_singleton.mp hr] at hseq
      rw [hq.rep.seqInj b e.timer u t hb heap hseq]
      exact .inr List.mem_cons_self
  · rw [List.pairwise_append]
    refine ⟨hi.once, List.pairwise_singleton _ _, ?_⟩
    intro r hr r' hr' hseq
    rw [List.mem_singleton.mp hr'] at hseq ⊢
    -- a timer that was run and does not repeat would have been started
    have hsame := hi.same r hr e.timer t heap hseq.symm
    have hrep : r.timer.repeat_ = true := by
      cases hrep : r.timer.repeat_ with
      | true => rfl
      | false =>
          exact absurd (hi.spent r hr hrep e.timer t heap hseq.symm) hnot
    exact ⟨hrep, hsame.trans hrep⟩

theorem fireInv_step (hq : q.Inv) (hi : q.FireInv) (hs : TimerStep q a q') : q'.FireInv := by
  cases hs with
  | newTimer c w interval r free =>
      exact hi.keep_phase (.newTimer c w interval r free) rfl rfl
  | add c clock t unadded heap =>
      refine hi.keep_phase (.add c clock t unadded heap) ?_ ?_
      · split <;> rfl
      · split <;> rfl
  | cancelActive e mem => exact hi.keep_phase (.cancelActive e mem) rfl rfl
  | cancelOther k out => exact hi.keep_phase (.cancelOther k out) rfl rfl
  | fires d armed => exact hi.keep_phase (.fires d armed) rfl rfl
  | handleReadBegin now active idle =>
      refine hi.keep (.handleReadBegin now active idle) rfl ?_ ?_
      · intro now' started rest hp e he
        cases hp
        exact (hq.rep.mem_expiredBy.mp he).2
      · intro r hr hrep b t hb hseq
        have hmem := hi.spent r hr hrep b t hb hseq
        rw [started, idle] at hmem
        cases hmem
  | run now started rest e t phase heap => exact hi.run hq phase heap
  | handleReadEnd now clock started q₁ phase reset =>
      have hphase : (q₁.rearm clock).phase = .idle := by rw [rearm_eq, reset.frame]
      have hran : (q₁.rearm clock).ran = q.ran := by rw [rearm_eq, reset.frame]
      refine hi.keep (.handleReadEnd now clock started q₁ phase reset) hran ?_ ?_
      · intro now' started' rest' hp
        rw [hphase] at hp
        cases hp
      · intro r hr hrep b t' hb hseq
        rw [rearm_eq] at hb
        obtain ⟨t, ht, hts, htr⟩ := reset.heap_old hb
        have hseq' := hts.trans hseq
        have hmem := hi.spent r hr hrep b t ht hseq'
        rw [TimerQueue.started, phase] at hmem
        have hnone := reset.heap_none hmem ht (.inl ((hi.same r hr b t ht hseq').trans hrep))
        rw [hnone] at hb
        cases hb

/-! ## One batch -/

/-- Somewhere between the beginning of a `handleRead`, in state `q₀`, and its
end: these callbacks have run, these are to come, and these ids were
cancelled on the way. -/
structure Segment (q₀ : TimerQueue) (now : Timestamp) (q : TimerQueue)
    (runs : List TimerRun) (rest : List Entry) (cs : List ActiveTimer) : Prop where
  phase : q.phase = .calling now (runs.map TimerRun.entry) rest
  batch : runs.map TimerRun.entry ++ rest = q₀.expiredBy now
  ran : q.ran = q₀.ran ++ runs
  runs : ∀ r ∈ runs, r.now = now ∧ q₀.heap r.addr = some r.timer
  heap : ∀ e ∈ q₀.expiredBy now, q.heap e.timer = q₀.heap e.timer
  cancelled : q.cancelled = q₀.cancelled ++ cs
  canceling : ∀ k ∈ q.cancelingTimers, k ∈ cs

theorem segment_begin (now : Timestamp) (active : OrdSet ActiveTimer) :
    Segment q now (q.beginBatch now active) [] (q.expiredBy now) [] where
  phase := rfl
  batch := rfl
  ran := (List.append_nil _).symm
  runs := by simp
  heap := fun _ _ => rfl
  cancelled := (List.append_nil _).symm
  canceling := fun _ hk => hk

theorem segment_step {q₀ : TimerQueue} {now : Timestamp} {runs : List TimerRun}
    {rest : List Entry} {cs : List ActiveTimer} (hq : q.Inv)
    (h : Segment q₀ now q runs rest cs) (ha : a.isEnd = false) (hs : TimerStep q a q') :
    ∃ runs' rest' cs', Segment q₀ now q' runs' rest' cs' := by
  have hbatch : q.batch = q₀.expiredBy now := by
    rw [TimerQueue.batch, h.phase]
    exact h.batch
  -- as long as the batch is the same, so are its timers
  have hheap : q'.batch = q.batch →
      ∀ e ∈ q₀.expiredBy now, q'.heap e.timer = q₀.heap e.timer := by
    intro hsame e he
    rw [← hbatch] at he
    have hmem : e.timer ∈ q.batch.map Entry.timer := List.mem_map.mpr ⟨e, he, rfl⟩
    rw [hs.heap_eq hq (List.mem_append_right _ hmem)
      (List.mem_append_right _ (hsame ▸ hmem)), h.heap e (hbatch ▸ he)]
  cases hs with
  | newTimer c w interval r free =>
      exact ⟨runs, rest, cs, h.phase, h.batch, h.ran, h.runs, hheap rfl, h.cancelled,
        h.canceling⟩
  | add c clock t unadded heap =>
      refine ⟨runs, rest, cs, ?_⟩
      split
      · exact ⟨h.phase, h.batch, h.ran, h.runs, h.heap, h.cancelled, h.canceling⟩
      · exact ⟨h.phase, h.batch, h.ran, h.runs, h.heap, h.cancelled, h.canceling⟩
  | cancelActive e mem =>
      refine ⟨runs, rest, cs ++ [q.key e], h.phase, h.batch, h.ran, h.runs, hheap rfl, ?_, ?_⟩
      · show q.cancelled ++ _ = _
        rw [h.cancelled, List.append_assoc]
      · exact fun k hk => List.mem_append_left _ (h.canceling k hk)
  | cancelOther k out =>
      refine ⟨runs, rest, cs ++ [k], h.phase, h.batch, h.ran, h.runs, hheap rfl, ?_, ?_⟩
      · show q.cancelled ++ _ = _
        rw [h.cancelled, List.append_assoc]
      · intro j hj
        rw [List.mem_append]
        unfold TimerQueue.cancelOther at hj
        dsimp only at hj
        split at hj
        · rcases OrdSet.mem_insert.mp hj with rfl | hj
          · exact .inr List.mem_cons_self
          · exact .inl (h.canceling j hj)
        · exact .inl (h.canceling j hj)
  | handleReadBegin now' active idle =>
      rw [h.phase] at idle
      cases idle
  | run now' started rest' e t phase heap =>
      rw [h.phase] at phase
      cases phase
      have hmem : e ∈ q₀.expiredBy now := by
        rw [← h.batch]
        simp
      have ht : q₀.heap e.timer = some t := by
        rw [← h.heap e hmem]
        exact heap
      have hentry : TimerRun.entry ⟨now, e.timer, t⟩ = e := by
        obtain ⟨u, hu, hue⟩ := hq.batch e (hbatch ▸ hmem)
        cases heap.symm.trans hu
        rw [TimerRun.entry, hue]
        exact e.mk_when_timer
      refine ⟨runs ++ [⟨now, e.timer, t⟩], rest', cs, ?_, ?_, ?_, ?_, h.heap, h.cancelled,
        h.canceling⟩
      · show TimerPhase.calling now _ rest' = _
        rw [List.map_append, List.map_singleton, hentry]
      · rw [List.map_append, List.map_singleton, hentry, List.append_assoc]
        exact h.batch
      · show q.ran ++ _ = _
        rw [h.ran, List.append_assoc]
      · intro r hr
        rcases List.mem_append.mp hr with hr | hr
        · exact h.runs r hr
        · rw [List.mem_singleton.mp hr]
          exact ⟨rfl, ht⟩
  | handleReadEnd now' clock started q₁ phase reset => cases ha
  | fires d armed =>
      exact ⟨runs, rest, cs, h.phase, h.batch, h.ran, h.runs, h.heap, h.cancelled,
        h.canceling⟩

theorem segment_run {q₀ : TimerQueue} {now : Timestamp} {as : List TimerAction}
    (ha : ∀ a ∈ as, a.isEnd = false) {q : TimerQueue} (hq : q.Inv)
    (h : ∃ runs rest cs, Segment q₀ now q runs rest cs)
    (hr : machine.run as q = some q') :
    q'.Inv ∧ ∃ runs rest cs, Segment q₀ now q' runs rest cs := by
  induction as generalizing q with
  | nil =>
      cases hr
      exact ⟨hq, h⟩
  | cons a as ih =>
      obtain ⟨q₁, hg, he, hr⟩ := Machine.run_cons.mp hr
      obtain ⟨hs, hq₁⟩ := TimerStep.of_exec hq hg he
      obtain ⟨runs, rest, cs, hseg⟩ := h
      exact ih (fun b hb => ha b (List.mem_cons_of_mem a hb)) hq₁
        (segment_step hq hseg (ha a List.mem_cons_self) hs) hr

/-- The end of a batch: a timer that was run, repeats and was not cancelled
has one entry in the queue, at its next expiration. -/
theorem Segment.restarted {q₀ q₁ : TimerQueue} {now : Timestamp} {runs : List TimerRun}
    {cs : List ActiveTimer} (hq : q.Inv) (h : Segment q₀ now q runs [] cs)
    (hreset : ResetStep now (runs.map TimerRun.entry)
      { q with callingExpiredTimers := false, phase := .idle } q₁)
    {r : TimerRun} (hr : r ∈ runs) (hrep : r.timer.repeat_ = true) (hc : r.id ∉ cs)
    (e : Entry) :
    e ∈ q₁.timers ∧ e.timer = r.addr ↔
      e = Entry.mk (addTime now r.timer.interval) r.addr := by
  have hentry : r.entry ∈ runs.map TimerRun.entry := List.mem_map.mpr ⟨r, hr, rfl⟩
  have hexpired : r.entry ∈ q₀.expiredBy now := by
    rw [← h.batch, List.append_nil]
    exact hentry
  have hheap : q.heap r.addr = some r.timer :=
    (h.heap r.entry hexpired).trans (h.runs r hr).2
  have hsurv : survivor { q with callingExpiredTimers := false, phase := .idle } r.entry =
      some r.timer :=
    survivor_eq_some.mpr ⟨hheap, hrep, fun hk => hc (h.canceling _ hk)⟩
  rw [hreset.timers e]
  constructor
  · rintro ⟨he | ⟨b, hb, t, ht, rfl⟩, hea⟩
    · -- a timer of the batch is not in the queue
      have hbatch : r.entry ∈ q.batch := by
        rw [TimerQueue.batch, h.phase]
        exact List.mem_append_left _ hentry
      exact absurd hea ((hq.mem_hand hbatch).2.2 e he)
    · have hb' : b.timer = r.addr := hea
      have hbheap : q.heap b.timer = some t := (survivor_eq_some.mp ht).1
      rw [hb', hheap] at hbheap
      cases hbheap
      rw [hb']
  · rintro rfl
    exact ⟨.inr ⟨r.entry, hentry, r.timer, hsurv, rfl⟩, rfl⟩

/-! ## The firing law -/

/-- Callbacks are never early, and a timer that is run twice repeats. A
`handleRead` runs each expired timer once, in the order of the expirations,
and runs all that had expired when it began; those that repeat and were not
cancelled meanwhile are in the queue once when it is over, to expire at
`now + interval`. -/
theorem timer_firing_law (hr : machine.Reaches new q) :
    (∀ r ∈ q.ran, r.timer.expiration ≤ r.now) ∧
      (q.ran.Pairwise fun r r' => r.timer.sequence = r'.timer.sequence →
        r.timer.repeat_ = true ∧ r'.timer.repeat_ = true) ∧
      ∀ now as clock q₁ q₂ q₃, machine.step (.handleReadBegin now) q = some q₁ →
        (∀ a ∈ as, a.isEnd = false) → machine.run as q₁ = some q₂ →
        machine.step (.handleReadEnd clock) q₂ = some q₃ →
        ∃ runs cs, q₃.ran = q.ran ++ runs ∧ q₃.cancelled = q.cancelled ++ cs ∧
          (∀ r ∈ runs, r.now = now) ∧ (runs.map TimerRun.addr).Nodup ∧
          (runs.Pairwise fun r r' => r.timer.expiration ≤ r'.timer.expiration) ∧
          (∀ e, e ∈ q.timers ∧ e.when_ ≤ now ↔ ∃ r ∈ runs, r.entry = e) ∧
          ∀ r ∈ runs, r.timer.repeat_ = true → r.id ∉ cs →
            ∀ e, e ∈ q₃.timers ∧ e.timer = r.addr ↔
              e = Entry.mk (addTime now r.timer.interval) r.addr := by
  rw [← machine.restrict_true] at hr
  obtain ⟨hq, hi⟩ := reaches_induction (I := FireInv) new_fireInv
    (fun hq hi _ _ hs => fireInv_step hq hi hs) hr
  refine ⟨hi.early, hi.once, ?_⟩
  intro now as clock q₁ q₂ q₃ hbegin ha hrun hend
  obtain ⟨hg₁, he₁⟩ := Machine.step_eq_some.mp hbegin
  obtain ⟨hs₁, hq₁⟩ := TimerStep.of_exec hq hg₁ he₁
  have hseg₁ : ∃ runs rest cs, Segment q now q₁ runs rest cs := by
    cases hs₁ with
    | handleReadBegin now active idle => exact ⟨_, _, _, segment_begin now active⟩
  obtain ⟨hq₂, runs, rest, cs, hseg⟩ := segment_run ha hq₁ hseg₁ hrun
  obtain ⟨hg₃, he₃⟩ := Machine.step_eq_some.mp hend
  obtain ⟨hs₃, -⟩ := TimerStep.of_exec hq₂ hg₃ he₃
  cases hs₃ with
  | handleReadEnd now' clock started p phase reset =>
      rw [hseg.phase] at phase
      cases phase
      have hall := hseg.batch
      rw [List.append_nil] at hall
      refine ⟨runs, cs, ?_, ?_, fun r hr => (hseg.runs r hr).1, ?_, ?_, ?_, ?_⟩
      · rw [rearm_eq, reset.frame]
        exact hseg.ran
      · rw [rearm_eq, reset.frame]
        exact hseg.cancelled
      · have hbatch : q₂.batch = runs.map TimerRun.entry := by
          simp [TimerQueue.batch, hseg.phase]
        have hnd := (List.nodup_append.mp hq₂.rep.nodup).1
        rw [hbatch, List.map_map] at hnd
        exact hnd
      · have hsorted := q.timers.sorted_below (Entry.mk now UINTPTR_MAX)
        have hsorted' : (runs.map TimerRun.entry).Pairwise (· < ·) := hall ▸ hsorted
        rw [List.pairwise_map] at hsorted'
        exact hsorted'.imp fun h => Entry.when_le (le_of_lt h)
      · intro e
        rw [← hq.rep.mem_expiredBy, ← hall, List.mem_map]
      · intro r hr hrep hc e
        rw [rearm_eq]
        exact hseg.restarted hq₂ reset hr hrep hc e

/-- Three timers; two expire together, and the first of them repeats. -/
def threeTimers : List TimerAction :=
  [.newTimer 16 5 0 false, .newTimer 8 5 3 true, .newTimer 24 50 0 false,
    .addTimerInLoop 24 1, .addTimerInLoop 16 1, .addTimerInLoop 8 2, .timerfdFires]

theorem timer_firing_law_threeTimers :
    ∃ q q₁ q₂ q₃, machine.run threeTimers new = some q ∧
      machine.step (.handleReadBegin 10) q = some q₁ ∧
      machine.run [.runNext, .runNext] q₁ = some q₂ ∧
      machine.step (.handleReadEnd 11) q₂ = some q₃ ∧
      q₃.ran.map TimerRun.addr = [8, 16] ∧
      (∀ e, e ∈ q₃.timers ∧ e.timer = 8 ↔ e = Entry.mk 13 8) := by
  obtain ⟨q, q₁, q₂, q₃, hr, hbegin, hrun, hend, hzero, hcancelled, hran⟩ :
      ∃ q q₁ q₂ q₃, machine.run threeTimers new = some q ∧
        machine.step (.handleReadBegin 10) q = some q₁ ∧
        machine.run [.runNext, .runNext] q₁ = some q₂ ∧
        machine.step (.handleReadEnd 11) q₂ = some q₃ ∧
        q.ran = [] ∧ q₃.cancelled = [] ∧
        q₃.ran = [⟨10, 8, ⟨5, 3, true, 2⟩⟩, ⟨10, 16, ⟨5, 0, false, 1⟩⟩] :=
    ⟨_, _, _, _, rfl, rfl, rfl, rfl, rfl, rfl, rfl⟩
  obtain ⟨-, -, hlaw⟩ := timer_firing_law ⟨threeTimers, hr⟩
  obtain ⟨runs, cs, hruns, hcs, -, -, -, -, hagain⟩ :=
    hlaw 10 [.runNext, .runNext] 11 q₁ q₂ q₃ hbegin (by decide) hrun hend
  rw [hzero, List.nil_append] at hruns
  rw [hcancelled] at hcs
  obtain ⟨-, rfl⟩ := List.nil_eq_append_iff.mp hcs
  refine ⟨q, q₁, q₂, q₃, hr, hbegin, hrun, hend, by rw [hran]; rfl, ?_⟩
  rw [← hruns, hran] at hagain
  exact hagain ⟨10, 8, ⟨5, 3, true, 2⟩⟩ List.mem_cons_self rfl List.not_mem_nil

/-! ## After a cancel -/

/-- A timer that was added is not waiting to be added. -/
def AddInv (q : TimerQueue) : Prop :=
  ∀ a s, ActiveTimer.mk a s ∈ q.added → s ≤ q.numCreated ∧
    ∀ b ∈ q.unadded, ∀ t, q.heap b = some t → t.sequence ≠ s

theorem AddInv.keep (hi : q.AddInv) (hs : TimerStep q a q') (hadded : q'.added = q.added)
    (hunadded : ∀ b ∈ q'.unadded, b ∈ q.unadded ∨ q.heap b = none) : q'.AddInv := by
  intro c s hmem
  rw [hadded] at hmem
  obtain ⟨hle, hne⟩ := hi c s hmem
  refine ⟨le_trans hle hs.numCreated_le, ?_⟩
  intro b hb t' ht' hseq
  rcases hs.heap_old ht' with hnew | ⟨t, ht, hts, -⟩
  · omega
  · rcases hunadded b hb with hb | hb
    · exact hne b hb t ht (hts.trans hseq)
    · rw [hb] at ht
      cases ht

theorem addInv_step (hq : q.Inv) (hi : q.AddInv) (hs : TimerStep q a q') : q'.AddInv := by
  cases hs with
  | newTimer c w interval r free =>
      refine hi.keep (.newTimer c w interval r free) rfl ?_
      intro b hb
      rcases List.mem_append.mp hb with hb | hb
      · exact .inl hb
      · exact .inr (List.mem_singleton.mp hb ▸ free)
  | add c clock t unadded heap =>
      have hadd : (q.addTimer c t).AddInv := by
        intro d s hmem
        rcases List.mem_append.mp hmem with hmem | hmem
        · obtain ⟨hle, hne⟩ := hi d s hmem
          exact ⟨hle, fun b hb => hne b (List.mem_of_mem_erase hb)⟩
        · obtain ⟨rfl, rfl⟩ := ActiveTimer.mk_inj.mp (List.mem_singleton.mp hmem)
          refine ⟨hq.rep.seqLe d t heap, ?_⟩
          intro b hb u hu hseq
          have hnd := (List.nodup_append.mp (List.nodup_append.mp hq.rep.nodup).2.1).1
          have hbd := hq.rep.seqInj b d u t hu heap hseq
          exact (hnd.mem_erase_iff.mp hb).1 hbd
      split
      · exact hadd
      · exact hadd
  | cancelActive e mem => exact hi.keep (.cancelActive e mem) rfl fun b hb => .inl hb
  | cancelOther k out => exact hi.keep (.cancelOther k out) rfl fun b hb => .inl hb
  | handleReadBegin now active idle =>
      exact hi.keep (.handleReadBegin now active idle) rfl fun b hb => .inl hb
  | run now started rest e t phase heap =>
      exact hi.keep (.run now started rest e t phase heap) rfl fun b hb => .inl hb
  | handleReadEnd now clock started q₁ phase reset =>
      refine hi.keep (.handleReadEnd now clock started q₁ phase reset) ?_ ?_
      · rw [rearm_eq, reset.frame]
      · intro b hb
        rw [rearm_eq, reset.frame] at hb
        exact .inl hb
  | fires d armed => exact hi.keep (.fires d armed) rfl fun b hb => .inl hb

/-- A timer that will not be run any more: it has been deleted, or its
callback has been started and `reset` will delete it. -/
structure Gone (q : TimerQueue) (a s : Nat) : Prop where
  bound : s ≤ q.numCreated
  leaving : ∀ t, q.heap a = some t → t.sequence = s →
    a ∈ q.started.map Entry.timer ∧ ActiveTimer.mk a s ∈ q.cancelingTimers

theorem Gone.keep {b s : Nat} (h : q.Gone b s) (hs : TimerStep q a q')
    (hstarted : ∀ e ∈ q.started, e ∈ q'.started)
    (hcanceling : ∀ k ∈ q.cancelingTimers, k ∈ q'.cancelingTimers) : q'.Gone b s := by
  refine ⟨le_trans h.bound hs.numCreated_le, ?_⟩
  intro t' ht' hseq
  rcases hs.heap_old ht' with hnew | ⟨t, ht, hts, -⟩
  · have hle := h.bound
    omega
  · obtain ⟨hmem, hk⟩ := h.leaving t ht (hts.trans hseq)
    obtain ⟨e, he, heb⟩ := List.mem_map.mp hmem
    exact ⟨List.mem_map.mpr ⟨e, hstarted e he, heb⟩, hcanceling _ hk⟩

theorem gone_step {b s : Nat} (hq : q.Inv) (h : q.Gone b s) (hs : TimerStep q a q') :
    q'.Gone b s ∧
      ∃ runs, q'.ran = q.ran ++ runs ∧ ∀ r ∈ runs, r.id ≠ ActiveTimer.mk b s := by
  have hnone : q'.ran = q.ran →
      ∃ runs, q'.ran = q.ran ++ runs ∧ ∀ r ∈ runs, r.id ≠ ActiveTimer.mk b s :=
    fun hran => ⟨[], by rw [hran, List.append_nil], by simp⟩
  cases hs with
  | newTimer c w interval r free =>
      exact ⟨h.keep (.newTimer c w interval r free) (fun _ he => he) (fun _ hk => hk),
        hnone rfl⟩
  | add c clock t unadded heap =>
      refine ⟨h.keep (.add c clock t unadded heap) ?_ ?_, hnone ?_⟩
      · split <;> exact fun _ he => he
      · split <;> exact fun _ hk => hk
      · split <;> rfl
  | cancelActive e mem =>
      exact ⟨h.keep (.cancelActive e mem) (fun _ he => he) (fun _ hk => hk), hnone rfl⟩
  | cancelOther k out =>
      refine ⟨h.keep (.cancelOther k out) (fun _ he => he) ?_, hnone rfl⟩
      intro j hj
      unfold TimerQueue.cancelOther
      dsimp only
      split
      · exact OrdSet.mem_insert.mpr (.inr hj)
      · exact hj
  | handleReadBegin now active idle =>
      refine ⟨⟨h.bound, ?_⟩, hnone rfl⟩
      intro t ht hseq
      have hmem := (h.leaving t ht hseq).1
      rw [started, idle] at hmem
      cases hmem
  | run now started rest e t phase heap =>
      have hstart : q.started = started := by rw [TimerQueue.started, phase]
      refine ⟨h.keep (.run now started rest e t phase heap) ?_ (fun _ hk => hk),
        [⟨now, e.timer, t⟩], rfl, ?_⟩
      · intro f hf
        exact List.mem_append_left _ (hstart ▸ hf)
      · intro r hr hid
        rw [List.mem_singleton.mp hr] at hid
        obtain ⟨rfl, rfl⟩ := ActiveTimer.mk_inj.mp hid
        -- its callback would have been started before
        exact hq.not_started (by simp [waiting, phase]) (h.leaving t heap rfl).1
  | handleReadEnd now clock started q₁ phase reset =>
      refine ⟨⟨?_, ?_⟩, hnone ?_⟩
      · rw [rearm_eq, reset.frame]
        exact h.bound
      · intro t' ht' hseq
        rw [rearm_eq] at ht'
        obtain ⟨t, ht, hts, -⟩ := reset.heap_old ht'
        obtain ⟨hmem, hk⟩ := h.leaving t ht (hts.trans hseq)
        rw [TimerQueue.started, phase] at hmem
        rw [← hts.trans hseq] at hk
        rw [reset.heap_none hmem ht (.inr hk)] at ht'
        cases ht'
      · rw [rearm_eq, reset.frame]
  | fires d armed =>
      exact ⟨h.keep (.fires d armed) (fun _ he => he) (fun _ hk => hk), hnone rfl⟩

theorem gone_run {b s : Nat} {as : List TimerAction} {q : TimerQueue} (hq : q.Inv)
    (h : q.Gone b s) (hr : machine.run as q = some q') :
    ∃ runs, q'.ran = q.ran ++ runs ∧ ∀ r ∈ runs, r.id ≠ ActiveTimer.mk b s := by
  induction as generalizing q with
  | nil =>
      cases hr
      exact ⟨[], (List.append_nil _).symm, by simp⟩
  | cons a as ih =>
      obtain ⟨q₁, hg, he, hr⟩ := Machine.run_cons.mp hr
      obtain ⟨hs, hq₁⟩ := TimerStep.of_exec hq hg he
      obtain ⟨h₁, first, hran₁, hne₁⟩ := gone_step hq h hs
      obtain ⟨rest, hran, hne⟩ := ih hq₁ h₁ hr
      refine ⟨first ++ rest, ?_, ?_⟩
      · rw [hran, hran₁, List.append_assoc]
      · intro r hr
        rcases List.mem_append.mp hr with hr | hr
        · exact hne₁ r hr
        · exact hne r hr

theorem TimerStep.cancel {k : ActiveTimer} (hs : TimerStep q (.cancelInLoop k) q') :
    (∃ e ∈ q.timers, q.key e = k ∧ q' = q.cancelActive e) ∨
      k ∉ q.activeTimers ∧ q' = q.cancelOther k := by
  cases hs with
  | cancelActive e mem => exact .inl ⟨e, mem, rfl, rfl⟩
  | cancelOther k out => exact .inr ⟨out, rfl⟩

/-- Once added, a timer is in the queue or in the batch; a cancel deletes it
from the one, and reaches those of the other that have been started. -/
theorem gone_of_cancel {b s : Nat} (hq : q.Inv) (hi : q.AddInv)
    (hadded : ActiveTimer.mk b s ∈ q.added)
    (hs : TimerStep q (.cancelInLoop (ActiveTimer.mk b s)) q')
    (hwait : ∀ e ∈ q.waiting, q.key e ≠ ActiveTimer.mk b s) : q'.Gone b s := by
  obtain ⟨hle, hne⟩ := hi b s hadded
  rcases hs.cancel with ⟨e, he, hkey, rfl⟩ | ⟨hout, rfl⟩
  · refine ⟨hle, ?_⟩
    intro t ht
    have hb : b = e.timer := (ActiveTimer.mk_inj.mp hkey).1.symm
    exact absurd ((if_pos hb).symm.trans ht) (by simp)
  · refine ⟨hle, ?_⟩
    intro t ht hseq
    have ht' : q.heap b = some t := ht
    have hkey : ∀ w, q.key (Entry.mk w b) = ActiveTimer.mk b s := by
      intro w
      rw [Rep.key_eq ht' w, hseq]
    have howned := (hq.rep.live b).mp (by simp [ht'])
    rcases List.mem_append.mp howned with hmem | hmem
    · rw [batch_eq, List.map_append, List.mem_append] at hmem
      rcases hmem with hmem | hmem
      · refine ⟨hmem, ?_⟩
        have hcall : q.callingExpiredTimers = true := by
          rw [hq.calling, isCalling]
          rw [started] at hmem
          cases hp : q.phase with
          | idle =>
              rw [hp] at hmem
              cases hmem
          | calling now started rest => rfl
        unfold TimerQueue.cancelOther
        dsimp only
        rw [if_pos hcall]
        exact OrdSet.mem_insert.mpr (.inl rfl)
      · obtain ⟨e, he, rfl⟩ := List.mem_map.mp hmem
        exact absurd (hkey e.when_) (hwait e he)
    · rcases List.mem_append.mp hmem with hmem | hmem
      · exact absurd hseq (hne b hmem t ht')
      · obtain ⟨e, he, rfl⟩ := List.mem_map.mp hmem
        exact absurd (hq.rep.mem_active.mpr ⟨e, he, hkey e.when_⟩) hout

end TimerQueue

end Libanet.Net
