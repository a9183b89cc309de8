import Libanet.Lib.Machine

/-!
# How a fallible computation can end

`EndsIn bad Q x` says that `x` ends in a value that meets `Q`, or in an error
that is not `bad`. With every error bad it is total correctness, with none it
is partial correctness, and between the two it says that a computation does
not stop in the one way that is being looked for, whatever else may stop it.

The rules follow the program: `bind` for sequence, `foldlM` for a loop with an
invariant over what is still to come. `Keeps` is the case where the condition
before and the condition after are the same, and it is what a step of a machine
has to satisfy for a whole run to keep the condition and never to offer a step
that ends badly.
-/

namespace Libanet

variable {ε α β σ : Type} {bad : ε → Prop}

/-- A value that meets `Q`, or an error that is not `bad`. -/
def EndsIn (bad : ε → Prop) (Q : α → Prop) : Except ε α → Prop
  | .ok a => Q a
  | .error e => ¬bad e

/-- From where `I` holds, `f` ends where it holds. -/
def Keeps (bad : ε → Prop) (I : σ → Prop) (f : σ → Except ε σ) : Prop :=
  ∀ s, I s → EndsIn bad I (f s)

namespace EndsIn

variable {P : α → Prop} {Q : β → Prop} {x : Except ε α} {f : α → Except ε β}

theorem of_eq_ok (h : EndsIn bad P x) {a : α} (hx : x = .ok a) : P a := by
  rw [hx] at h
  exact h

theorem ne_error (h : EndsIn bad P x) {e : ε} (he : bad e) : x ≠ .error e := by
  intro hx
  rw [hx] at h
  exact h he

theorem mono {P' : α → Prop} (h : EndsIn bad P x) (hp : ∀ a, P a → P' a) : EndsIn bad P' x := by
  cases x with
  | ok a => exact hp a h
  | error e => exact h

theorem bind (hx : EndsIn bad P x) (hf : ∀ a, P a → EndsIn bad Q (f a)) :
    EndsIn bad Q (x >>= f) := by
  cases x with
  | ok a => exact hf a hx
  | error e => exact hx

theorem ite {c : Prop} [Decidable c] {y : Except ε α} (ht : c → EndsIn bad P x)
    (he : ¬c → EndsIn bad P y) : EndsIn bad P (if c then x else y) := by
  split
  · next hc => exact ht hc
  · next hc => exact he hc

/-- A loop over a list, with an invariant over what is left of it. -/
theorem foldlM {I : List β → σ → Prop} {f : σ → β → Except ε σ}
    (hstep : ∀ b bs s, I (b :: bs) s → EndsIn bad (I bs) (f s b)) {bs : List β} {s : σ}
    (h : I bs s) : EndsIn bad (I []) (bs.foldlM f s) := by
  induction bs generalizing s with
  | nil => exact h
  | cons b bs ih =>
      rw [List.foldlM_cons]
      exact (hstep b bs s h).bind fun t ht => ih ht

end EndsIn

namespace Machine

variable {m : Machine σ α ε} {I : σ → Prop}

/-- If every action on offer keeps `I`, then `I` holds in every state of a run,
and no action on offer there ends badly. -/
theorem Reaches.keeps {s t : σ} (h : m.Reaches s t) (hs : I s)
    (hstep : ∀ s a, I s → m.guard s a = true → EndsIn bad I (m.exec a s)) :
    I t ∧ ∀ a, m.guard t a = true → ∀ e, bad e → m.exec a t ≠ .error e := by
  have ht : I t := h.invariant hs fun hi hg he => (hstep _ _ hi hg).of_eq_ok he
  exact ⟨ht, fun a hg e he => (hstep t a ht hg).ne_error he⟩

end Machine

end Libanet
