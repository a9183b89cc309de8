import Mathlib.Algebra.Group.Nat.Defs

/-!
# Machines whose steps may fault

A machine is a state, a set of actions, a guard that says which actions the
environment may take in a state, and an executable that says what the code
then does — a new state, or a fault. Everything a component promises over
whole runs is stated against `run`, which replays a list of actions and
answers `none` as soon as an action is not on offer or the code faults.

Runs are functions of their action list, so the nondeterminism of the
outside world — kernel answers, clock readings, the scheduler, user
callbacks — lives in the actions and nowhere else. That is what makes the
induction rule `run_invariant` the only induction most proofs need: one
lemma for what a single action preserves, and the whole run follows.

`restrict` cuts a machine down to the actions that meet a further condition
on the state they are taken in. A run of the restricted machine is a run of
the original all of whose steps met the condition.
-/

namespace Libanet

/-- A state machine over states `σ` and actions `α` whose code may fault
with an `ε`. -/
structure Machine (σ α ε : Type) where
  /-- The environment may take this action in this state. -/
  guard : σ → α → Bool
  /-- What the code does when it is taken. -/
  exec : α → σ → Except ε σ

namespace Machine

variable {σ α ε : Type} (m : Machine σ α ε)

/-- One action, when the guard lets it through and the code does not fault. -/
def step (a : α) (s : σ) : Option σ :=
  if m.guard s a then (m.exec a s).toOption else none

/-- A list of actions, taken one after another. -/
def run : List α → σ → Option σ
  | [], s => some s
  | a :: as, s => (m.step a s).bind (run as)

/-- The actions of a run, each with the state it was taken in. -/
def visited : List α → σ → List (σ × α)
  | [], _ => []
  | a :: as, s => (s, a) :: ((m.step a s).map (visited as)).getD []

/-- The steps of a run, each with the states before and after it. -/
def steps : List α → σ → List (σ × α × σ)
  | [], _ => []
  | a :: as, s => ((m.step a s).map fun t => (s, a, t) :: steps as t).getD []

/-- `t` is reached from `s` by some list of actions. -/
def Reaches (s t : σ) : Prop := ∃ as, m.run as s = some t

/-- No action on offer in `s` makes the code fault. -/
def Safe (s : σ) : Prop :=
  ∀ a, m.guard s a = true → ∃ t, m.exec a s = .ok t

/-- The same machine, offering only the actions that meet `cond`. -/
def restrict (cond : σ → α → Bool) : Machine σ α ε where
  guard s a := m.guard s a && cond s a
  exec := m.exec

variable {m}

theorem step_eq_some {a : α} {s t : σ} :
    m.step a s = some t ↔ m.guard s a = true ∧ m.exec a s = .ok t := by
  unfold step
  split
  · next hg =>
      cases he : m.exec a s with
      | ok u => simp [Except.toOption, hg]
      | error f => simp [Except.toOption]
  · next hg => simp [hg]

theorem run_cons {a : α} {as : List α} {s t : σ} :
    m.run (a :: as) s = some t ↔
      ∃ u, m.guard s a = true ∧ m.exec a s = .ok u ∧ m.run as u = some t := by
  rw [run, Option.bind_eq_some_iff]
  constructor
  · rintro ⟨u, hs, hr⟩
    obtain ⟨hg, he⟩ := step_eq_some.mp hs
    exact ⟨u, hg, he, hr⟩
  · rintro ⟨u, hg, he, hr⟩
    exact ⟨u, step_eq_some.mpr ⟨hg, he⟩, hr⟩

theorem run_cons_of {a : α} {s u : σ} (hg : m.guard s a = true) (he : m.exec a s = .ok u)
    (as : List α) : m.run (a :: as) s = m.run as u := by
  rw [run, step_eq_some.mpr ⟨hg, he⟩]
  rfl

theorem run_append (as bs : List α) (s : σ) :
    m.run (as ++ bs) s = (m.run as s).bind (m.run bs) := by
  induction as generalizing s with
  | nil => rfl
  | cons a as ih =>
      rw [List.cons_append, run, run, Option.bind_assoc]
      congr 1
      funext t
      exact ih t

/-- What holds at the start and is kept by every action on offer holds at
the end of every run. -/
theorem run_invariant {I : σ → Prop}
    (hstep : ∀ {s t : σ} {a : α}, I s → m.guard s a = true →
      m.exec a s = .ok t → I t)
    {as : List α} {s t : σ} (hs : I s) (hr : m.run as s = some t) : I t := by
  induction as generalizing s with
  | nil =>
      rw [run] at hr
      cases hr
      exact hs
  | cons a as ih =>
      obtain ⟨u, hg, he, hr⟩ := run_cons.mp hr
      exact ih (hstep hs hg he) hr

/-- A run with an eye on what has been done before. -/
theorem run_history {I : List α → σ → Prop}
    (hstep : ∀ {done : List α} {s t : σ} {a : α}, I done s → m.guard s a = true →
      m.exec a s = .ok t → I (done ++ [a]) t)
    {done as : List α} {s t : σ} (h : I done s) (hr : m.run as s = some t) : I (done ++ as) t := by
  induction as generalizing done s with
  | nil =>
      rw [run] at hr
      cases hr
      rw [List.append_nil]
      exact h
  | cons a as ih =>
      obtain ⟨u, hg, he, hr⟩ := run_cons.mp hr
      rw [List.append_cons]
      exact ih (hstep h hg he) hr

/-- Every action of a run is taken in a state where it holds. -/
theorem visited_invariant {I : σ → Prop}
    (hstep : ∀ {s t : σ} {a : α}, I s → m.guard s a = true →
      m.exec a s = .ok t → I t)
    (as : List α) {s : σ} (hs : I s) : ∀ x ∈ m.visited as s, I x.1 := by
  induction as generalizing s with
  | nil => simp [visited]
  | cons a as ih =>
      rw [visited, List.forall_mem_cons]
      refine ⟨hs, ?_⟩
      cases h : m.step a s with
      | none => simp
      | some t =>
          obtain ⟨hg, he⟩ := step_eq_some.mp h
          exact ih (hstep hs hg he)

theorem Reaches.invariant {I : σ → Prop} {s t : σ} (h : m.Reaches s t)
    (hs : I s)
    (hstep : ∀ {s t : σ} {a : α}, I s → m.guard s a = true →
      m.exec a s = .ok t → I t) : I t := by
  obtain ⟨as, hr⟩ := h
  exact run_invariant hstep hs hr

theorem steps_cons {a : α} {s t : σ} (h : m.step a s = some t) (as : List α) :
    m.steps (a :: as) s = (s, a, t) :: m.steps as t := by
  rw [steps, h]
  rfl

theorem steps_stuck {a : α} {s : σ} (h : m.step a s = none) (as : List α) :
    m.steps (a :: as) s = [] := by
  rw [steps, h]
  rfl

/-- What a run finds in a list at its end was there at its start, or one of its
steps has put it there. -/
theorem run_origin {β : Type} {I : σ → Prop} {f : σ → List β} {P : σ × α × σ → β → Prop}
    (hkeep : ∀ {s t : σ} {a : α}, I s → m.guard s a = true → m.exec a s = .ok t → I t)
    (hstep : ∀ {s t : σ} {a : α}, I s → m.guard s a = true → m.exec a s = .ok t →
      ∀ b ∈ f t, b ∈ f s ∨ P (s, a, t) b)
    {as : List α} {s t : σ} (hs : I s) (hr : m.run as s = some t) :
    ∀ b ∈ f t, b ∈ f s ∨ ∃ x ∈ m.steps as s, P x b := by
  induction as generalizing s with
  | nil =>
      rw [run] at hr
      cases hr
      exact fun b hb => Or.inl hb
  | cons a as ih =>
      obtain ⟨u, hg, he, hr⟩ := run_cons.mp hr
      rw [steps_cons (step_eq_some.mpr ⟨hg, he⟩)]
      intro b hb
      rcases ih (hkeep hs hg he) hr b hb with hu | ⟨x, hx, hp⟩
      · rcases hstep hs hg he b hu with hb' | hp
        · exact Or.inl hb'
        · exact Or.inr ⟨_, List.mem_cons_self, hp⟩
      · exact Or.inr ⟨x, List.mem_cons_of_mem _ hx, hp⟩

/-- Bookkeeping along a run, where what a step adds shows in the states before
and after it. -/
theorem run_ledger_steps {β : Type} {I : σ → Prop} {f : σ → List β} {g : σ × α × σ → List β}
    (hkeep : ∀ {s t : σ} {a : α}, I s → m.guard s a = true → m.exec a s = .ok t → I t)
    (hstep : ∀ {s t : σ} {a : α}, I s → m.guard s a = true → m.exec a s = .ok t →
      f t = f s ++ g (s, a, t))
    {as : List α} {s t : σ} (hs : I s) (hr : m.run as s = some t) :
    f t = f s ++ (m.steps as s).flatMap g := by
  induction as generalizing s with
  | nil =>
      rw [run] at hr
      cases hr
      simp [steps]
  | cons a as ih =>
      obtain ⟨u, hg, he, hr⟩ := run_cons.mp hr
      rw [steps_cons (step_eq_some.mpr ⟨hg, he⟩), List.flatMap_cons, ih (hkeep hs hg he) hr,
        hstep hs hg he, List.append_assoc]

/-- Where `C` is exactly what a step has to meet for `P` to hold of it, `P`
holds of every step of a run exactly if they all meet `C`. `I` is what is
known of the states that `P` has led to so far. -/
theorem steps_iff {I : σ → Prop} {P : σ × α × σ → Prop} {C : σ → α → Prop}
    (hkeep : ∀ {s t : σ} {a : α}, I s → m.guard s a = true → m.exec a s = .ok t →
      C s a → I t ∧ P (s, a, t))
    (hbreak : ∀ {s t : σ} {a : α}, I s → m.guard s a = true → m.exec a s = .ok t →
      ¬ C s a → ¬ P (s, a, t))
    (as : List α) {s : σ} (hs : I s) :
    (∀ x ∈ m.steps as s, P x) ↔ ∀ x ∈ m.steps as s, C x.1 x.2.1 := by
  induction as generalizing s with
  | nil => simp [steps]
  | cons a as ih =>
      cases hstep : m.step a s with
      | none => simp [steps_stuck hstep]
      | some t =>
          obtain ⟨hg, he⟩ := step_eq_some.mp hstep
          rw [steps_cons hstep, List.forall_mem_cons, List.forall_mem_cons]
          by_cases hc : C s a
          · obtain ⟨hi, hp⟩ := hkeep hs hg he hc
            rw [ih hi]
            exact ⟨fun h => ⟨hc, h.2⟩, fun h => ⟨hp, h.2⟩⟩
          · have hnot := hbreak hs hg he hc
            exact ⟨fun h => absurd h.1 hnot, fun h => absurd h.1 hc⟩

/-- Where every step goes through and keeps `I`, every run does. -/
theorem run_total {I : σ → Prop}
    (hstep : ∀ {s : σ} {a : α}, I s → ∃ t, m.step a s = some t ∧ I t) (as : List α) {s : σ}
    (hs : I s) : ∃ t, m.run as s = some t ∧ I t := by
  induction as generalizing s with
  | nil => exact ⟨s, rfl, hs⟩
  | cons a as ih =>
      obtain ⟨t, ht, hi⟩ := hstep hs
      obtain ⟨u, hu, hi'⟩ := ih hi
      refine ⟨u, ?_, hi'⟩
      rw [run, ht]
      exact hu

/-- Two runs side by side: where a step keeps the states related, or is open
to neither, the same list of actions does. -/
theorem run_rel {R : σ → σ → Prop}
    (hstep : ∀ {s s' : σ} (a : α), R s s' → Option.Rel R (m.step a s) (m.step a s'))
    (as : List α) {s s' : σ} (h : R s s') : Option.Rel R (m.run as s) (m.run as s') := by
  induction as generalizing s s' with
  | nil => exact .some h
  | cons a as ih =>
      have hrel := hstep a h
      rw [run, run]
      generalize m.step a s = x at hrel
      generalize m.step a s' = x' at hrel
      cases hrel with
      | some ht => exact ih ht
      | none => exact .none

/-- A quantity that never falls, and doubles at the steps of a kind. If it is
below `B` before each of these, there are few of them, however long the run. -/
theorem run_doubles {I : σ → Prop} {f : σ → Nat} {cut : σ × α × σ → Bool} {B : Nat}
    (hkeep : ∀ {s t : σ} {a : α}, I s → m.guard s a = true → m.exec a s = .ok t → I t)
    (hstep : ∀ {s t : σ} {a : α}, I s → m.guard s a = true → m.exec a s = .ok t →
      f s ≤ f t ∧ (cut (s, a, t) = true → f s * 2 ≤ f t))
    {as : List α} {s t : σ} (hs : I s) (hr : m.run as s = some t)
    (hB : ∀ x ∈ m.steps as s, cut x = true → f x.1 < B) :
    f s * 2 ^ (m.steps as s).countP cut ≤ f t ∧
      ((m.steps as s).countP cut = 0 ∨ f s * 2 ^ (m.steps as s).countP cut < 2 * B) := by
  induction as generalizing s with
  | nil =>
      rw [run] at hr
      cases hr
      simp [steps]
  | cons a as ih =>
      obtain ⟨u, hg, he, hr⟩ := run_cons.mp hr
      obtain ⟨hle, hdouble⟩ := hstep hs hg he
      rw [steps_cons (step_eq_some.mpr ⟨hg, he⟩)] at hB ⊢
      obtain ⟨hhead, htail⟩ := List.forall_mem_cons.mp hB
      obtain ⟨hgrown, hbound⟩ := ih (hkeep hs hg he) hr htail
      by_cases hcut : cut (s, a, u) = true
      · have hpow : f s * 2 ^ ((m.steps as u).countP cut + 1) ≤
            f u * 2 ^ (m.steps as u).countP cut := by
          rw [Nat.pow_succ', ← Nat.mul_assoc]
          exact Nat.mul_le_mul_right _ (hdouble hcut)
        rw [List.countP_cons_of_pos hcut]
        refine ⟨Nat.le_trans hpow hgrown, Or.inr ?_⟩
        rcases hbound with hzero | hlt
        · have hfirst : f s < B := hhead hcut
          rw [hzero]
          omega
        · exact Nat.lt_of_le_of_lt hpow hlt
      · have hpow := Nat.mul_le_mul_right (2 ^ (m.steps as u).countP cut) hle
        rw [List.countP_cons_of_neg hcut]
        exact ⟨Nat.le_trans hpow hgrown,
          hbound.imp id fun hlt => Nat.lt_of_le_of_lt hpow hlt⟩

theorem restrict_true (m : Machine σ α ε) : m.restrict (fun _ _ => true) = m := by
  simp [restrict]

end Machine

end Libanet
