import Mathlib.Data.List.Perm.Basic

/-!
# Condition variables

A condition variable as a monitor sees it, between two critical sections.
Threads that wait on it are blocked until they are notified, and a notified
thread goes on only when it gets the mutex back, which may be a long time
later: other threads enter the monitor in between, and some of them have
never waited. So a thread that resumes tests its condition again. It may
also be woken up without having been notified at all.

Which of the waiting threads a `notify` reaches is up to the scheduler, and
so is which of the ready ones resumes next. Both come in as a number.

One notification for each unit of a resource is enough. `Signalled n` says
that if a thread is still waiting for one, the `n` units there are at most
as many as the threads that have been notified and are on their way. A unit
that comes is notified, one that goes is taken by a thread on its way or by
one that overtook it, and a thread starts to wait only when there are none.
-/

namespace Libanet

/-- `W` is what is known of a thread that waits. -/
structure CondVar (W : Type) where
  /-- Blocked, and not notified. -/
  waiting : List W
  /-- Notified, and not resumed yet. -/
  notified : List W
  /-- Woken up without a notification, and not resumed yet. -/
  woken : List W

namespace CondVar

variable {W : Type}

def empty : CondVar W := ⟨[], [], []⟩

def wait (w : W) (cv : CondVar W) : CondVar W := { cv with waiting := cv.waiting ++ [w] }

/-- One thread is notified, if one is waiting. -/
def notify (i : Nat) (cv : CondVar W) : CondVar W :=
  match cv.waiting[i % cv.waiting.length]? with
  | none => cv
  | some w => { cv with
      waiting := cv.waiting.eraseIdx (i % cv.waiting.length)
      notified := cv.notified ++ [w] }

def notifyAll (cv : CondVar W) : CondVar W :=
  { cv with waiting := [], notified := cv.notified ++ cv.waiting }

/-- A spurious wakeup. -/
def wake (i : Nat) (cv : CondVar W) : CondVar W :=
  match cv.waiting[i]? with
  | none => cv
  | some w => { cv with waiting := cv.waiting.eraseIdx i, woken := cv.woken ++ [w] }

/-- The threads that will go on as soon as they have the mutex. -/
def ready (cv : CondVar W) : List W := cv.notified ++ cv.woken

/-- The `i`-th of them has got it. -/
def resume (i : Nat) (cv : CondVar W) : CondVar W :=
  if i < cv.notified.length then { cv with notified := cv.notified.eraseIdx i }
  else { cv with woken := cv.woken.eraseIdx (i - cv.notified.length) }

/-- All threads inside a wait. -/
def inside (cv : CondVar W) : List W := cv.waiting ++ cv.ready

/-! ## Who is inside -/

theorem inside_wait (w : W) (cv : CondVar W) : (cv.wait w).inside.Perm (w :: cv.inside) := by
  show ((cv.waiting ++ [w]) ++ cv.ready).Perm (w :: (cv.waiting ++ cv.ready))
  rw [List.append_assoc]
  exact List.perm_middle

/-- An element moved from one list into another. -/
theorem perm_move {l : List W} {i : Nat} {w : W} (h : l[i]? = some w) (before after : List W) :
    (l.eraseIdx i ++ ((before ++ [w]) ++ after)).Perm (l ++ (before ++ after)) := by
  obtain ⟨hi, rfl⟩ := List.getElem?_eq_some_iff.mp h
  have herase := List.getElem_cons_eraseIdx_perm hi
  rw [List.append_assoc]
  have hmiddle : (before ++ l[i] :: after).Perm (l[i] :: (before ++ after)) := List.perm_middle
  have hfront := hmiddle.append_left (l.eraseIdx i)
  exact hfront.trans (List.perm_middle.trans (herase.append_right _))

theorem inside_notify (i : Nat) (cv : CondVar W) : (cv.notify i).inside.Perm cv.inside := by
  unfold notify
  split
  · exact List.Perm.refl _
  · next w hw => exact perm_move hw cv.notified cv.woken

theorem inside_notifyAll (cv : CondVar W) : cv.notifyAll.inside.Perm cv.inside := by
  show ((cv.notified ++ cv.waiting) ++ cv.woken).Perm (cv.waiting ++ (cv.notified ++ cv.woken))
  rw [← List.append_assoc]
  exact List.perm_append_comm.append_right _

theorem inside_wake (i : Nat) (cv : CondVar W) : (cv.wake i).inside.Perm cv.inside := by
  unfold wake
  split
  · exact List.Perm.refl _
  · next w hw =>
      have hmove := perm_move hw (cv.notified ++ cv.woken) []
      simp only [List.append_nil, List.append_assoc] at hmove
      exact hmove

theorem ready_resume (i : Nat) (cv : CondVar W) : (cv.resume i).ready = cv.ready.eraseIdx i := by
  unfold resume ready
  split
  · next hi => exact (List.eraseIdx_append_of_lt_length hi _).symm
  · next hi => exact (List.eraseIdx_append_of_length_le (Nat.le_of_not_lt hi) _).symm

@[simp] theorem waiting_resume (i : Nat) (cv : CondVar W) :
    (cv.resume i).waiting = cv.waiting := by
  unfold resume
  split <;> rfl

theorem inside_resume {i : Nat} {cv : CondVar W} {w : W} (h : cv.ready[i]? = some w) :
    (w :: (cv.resume i).inside).Perm cv.inside := by
  obtain ⟨hi, rfl⟩ := List.getElem?_eq_some_iff.mp h
  rw [inside, inside, waiting_resume, ready_resume]
  exact List.perm_middle.symm.trans ((List.getElem_cons_eraseIdx_perm hi).append_left _)

/-! ## Two conditions of one monitor -/

/-- The threads that wait for either. Those of the second carry something
along. -/
def insideBoth {Tid X : Type} (cv : CondVar Tid) (cv' : CondVar (Tid × X)) : List Tid :=
  cv.inside ++ cv'.inside.map Prod.fst

section

variable {Tid X : Type} {cv₁ cv₂ : CondVar Tid} {cv₁' cv₂' : CondVar (Tid × X)} {t : Tid} {x : X}

theorem insideBoth_perm (h : cv₁.inside.Perm cv₂.inside) (h' : cv₁'.inside.Perm cv₂'.inside) :
    (insideBoth cv₁ cv₁').Perm (insideBoth cv₂ cv₂') :=
  h.append (h'.map _)

theorem insideBoth_left (h : (t :: cv₁.inside).Perm cv₂.inside) (cv' : CondVar (Tid × X)) :
    (t :: insideBoth cv₁ cv').Perm (insideBoth cv₂ cv') :=
  h.append_right _

theorem insideBoth_right (h : ((t, x) :: cv₁'.inside).Perm cv₂'.inside) (cv : CondVar Tid) :
    (t :: insideBoth cv cv₁').Perm (insideBoth cv cv₂') :=
  List.perm_middle.symm.trans ((h.map Prod.fst).append_left _)

end

/-! ## One notification for each unit -/

/-- The `n` units there are do not outnumber the threads notified for them,
if a thread is still waiting. -/
def Signalled (n : Nat) (cv : CondVar W) : Prop :=
  cv.waiting ≠ [] → n ≤ cv.notified.length

theorem signalled_zero (cv : CondVar W) : cv.Signalled 0 := fun _ => Nat.zero_le _

theorem signalled_of_waiting_eq_nil {n : Nat} {cv : CondVar W} (h : cv.waiting = []) :
    cv.Signalled n := fun hne => absurd h hne

variable {n m : Nat} {cv : CondVar W}

theorem Signalled.mono (h : cv.Signalled n) (hle : m ≤ n) : cv.Signalled m :=
  fun hne => Nat.le_trans hle (h hne)

/-- A unit more. -/
theorem Signalled.notify (h : cv.Signalled n) (i : Nat) : (cv.notify i).Signalled (n + 1) := by
  intro hne
  unfold CondVar.notify at hne ⊢
  split at hne
  · next hnone =>
      have hpos := List.length_pos_iff.mpr hne
      have hlt := Nat.mod_lt i hpos
      rw [List.getElem?_eq_none_iff] at hnone
      omega
  · next w hw =>
      have hwaiting : cv.waiting ≠ [] := by
        intro hnil
        rw [hnil] at hw
        cases hw
      have hold := h hwaiting
      simp only [List.length_append, List.length_singleton]
      omega

theorem Signalled.wake (h : cv.Signalled n) (i : Nat) : (cv.wake i).Signalled n := by
  intro hne
  unfold CondVar.wake at hne ⊢
  split at hne
  · exact h hne
  · next w hw =>
      refine h fun hnil => ?_
      rw [hnil] at hw
      cases hw

/-- A thread resumes, and takes one if there is one. -/
theorem Signalled.resume (h : cv.Signalled n) (i : Nat) : (cv.resume i).Signalled (n - 1) := by
  intro hne
  rw [waiting_resume] at hne
  have hold := h hne
  unfold CondVar.resume
  split
  · next hi =>
      rw [List.length_eraseIdx_of_lt hi]
      omega
  · show n - 1 ≤ cv.notified.length
    omega

@[simp] theorem waiting_wake_nil (h : cv.waiting = []) (i : Nat) : (cv.wake i).waiting = [] := by
  simp [CondVar.wake, h]

@[simp] theorem waiting_notify_nil (h : cv.waiting = []) (i : Nat) :
    (cv.notify i).waiting = [] := by
  simp [CondVar.notify, h]

/-- A notification leaves nobody waiting when it had at most one to reach. -/
theorem waiting_notify_eq_nil_iff (i : Nat) (cv : CondVar W) :
    (cv.notify i).waiting = [] ↔ cv.waiting.length ≤ 1 := by
  unfold notify
  split
  · next hnone =>
      rw [List.getElem?_eq_none_iff] at hnone
      constructor
      · intro hnil
        simp [hnil]
      · intro hle
        by_contra hne
        have hpos := List.length_pos_iff.mpr hne
        have hlt := Nat.mod_lt i hpos
        omega
  · next w hw =>
      obtain ⟨hi, -⟩ := List.getElem?_eq_some_iff.mp hw
      rw [← List.length_eq_zero_iff, List.length_eraseIdx_of_lt hi]
      omega

end CondVar

end Libanet
