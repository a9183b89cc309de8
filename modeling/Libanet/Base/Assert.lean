/-!
# Asserts and faults

The code is modelled as it is built for development: an `assert` that does
not hold aborts, and so does a `LOG_SYSFATAL`. Together with the ways manual
memory goes wrong — a pointer followed after its object was deleted, or one
that is null, an object deleted twice, an access past the end of its array —
these are the faults a modelled function can end in, and a function that can
reach one answers in `Except Fault`. So are a signed integer operation whose
result its type does not hold, and a function that is to have a result and
returns without one.

The log records a function writes on its way are left out of its model. They
are not harmless in this build: the names of the levels `INFO` and `WARN` are
shorter than the logger asserts, and a `LOG_INFO` or `LOG_WARN` aborts
(`Proofs.LogRecord`). What is said to fail no assert fails none but that.
-/

namespace Libanet

/-- How the modelled code can stop other than by returning. -/
inductive Fault where
  /-- An `assert` did not hold. -/
  | assertion
  /-- A pointer was followed after its object was deleted. -/
  | useAfterFree
  /-- An object was deleted that was not live. -/
  | doubleDelete
  /-- An access ran past the end of its array. -/
  | outOfBounds
  /-- A null pointer was followed. -/
  | nullPointer
  /-- A `LOG_SYSFATAL` aborted the process. -/
  | fatal
  /-- The result of a signed operation did not fit. -/
  | signedOverflow
  /-- A function with a result returned without one. -/
  | noResult
  deriving DecidableEq, Repr

/-- C's `assert`. -/
def assertThat (p : Prop) [Decidable p] : Except Fault Unit :=
  if p then .ok () else .error .assertion

/-- `assert`, in a build that has it or not. -/
def assertIn (debug : Bool) (p : Prop) [Decidable p] : Except Fault Unit :=
  if debug then assertThat p else .ok ()

theorem assertThat_eq_ok {p : Prop} [Decidable p] {u : Unit} :
    assertThat p = .ok u ↔ p := by
  unfold assertThat
  split
  · next hp => simp [hp]
  · next hp => simp [hp]

@[simp] theorem assertThat_of {p : Prop} [Decidable p] (hp : p) :
    assertThat p = .ok () := if_pos hp

theorem assertIn_of {p : Prop} [Decidable p] (debug : Bool) (hp : p) :
    assertIn debug p = .ok () := by
  cases debug with
  | false => rfl
  | true => exact assertThat_of hp

theorem ok_bind {α β : Type} (a : α) (f : α → Except Fault β) : (.ok a >>= f) = f a := rfl

/-- A computation that got past its first part got past it with a value. -/
theorem bind_eq_ok {ε α β : Type} {x : Except ε α} {f : α → Except ε β} {r : β} :
    (x >>= f) = .ok r ↔ ∃ a, x = .ok a ∧ f a = .ok r := by
  cases x with
  | ok a =>
      constructor
      · intro h
        exact ⟨a, rfl, h⟩
      · rintro ⟨a', ha, hf⟩
        cases ha
        exact hf
  | error e =>
      constructor
      · intro h
        exact absurd h (by simp [bind, Except.bind])
      · rintro ⟨a', ha, _⟩
        exact absurd ha (by simp)

/-- A computation guarded by an assert. -/
theorem assertThat_bind_eq_ok {p : Prop} [Decidable p] {β : Type}
    {f : Unit → Except Fault β} {r : β} :
    (assertThat p >>= f) = .ok r ↔ p ∧ f () = .ok r := by
  rw [bind_eq_ok]
  constructor
  · rintro ⟨u, hu, hf⟩
    exact ⟨assertThat_eq_ok.mp hu, hf⟩
  · rintro ⟨hp, hf⟩
    exact ⟨(), assertThat_of hp, hf⟩

end Libanet
