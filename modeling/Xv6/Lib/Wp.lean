import Mathlib.Tactic.Common

/-!
# Weakest preconditions for computations that can stop

A computation of this file returns a value and a state, or stops for a reason and
leaves the state in which it stopped.  `Wp x Q E s` says of one run from `s` which of
the two it is: `Q` speaks about the value and the state after a return, `E` about the
reason and the state of a stop.  The rules below are what the proofs about the kernel's
code use: they never look inside a `bind`.
-/

namespace Xv6.Lib

variable {ε σ α β : Type}

/-- Running `x` from `s` returns in `Q` or stops in `E`. -/
def Wp (x : EStateM ε σ α) (Q : α → σ → Prop) (E : ε → σ → Prop) (s : σ) : Prop :=
  match x s with
  | .ok a s' => Q a s'
  | .error e s' => E e s'

/-- The state a run ends in, whether it returns or stops. -/
def endState (x : EStateM ε σ α) (s : σ) : σ :=
  match x s with
  | .ok _ s' => s'
  | .error _ s' => s'

/-- Does the run return? -/
def returned (x : EStateM ε σ α) (s : σ) : Bool :=
  match x s with
  | .ok _ _ => true
  | .error _ _ => false

/-- A run that returns nothing and does return ends in its last state. -/
lemma eq_ok_of_returned {x : EStateM ε σ Unit} {s : σ} (h : returned x s = true) :
    x s = .ok () (endState x s) := by
  unfold returned at h
  unfold endState
  cases hx : x s with
  | ok a s' => rfl
  | error e s' =>
      rw [hx] at h
      exact absurd h (by simp)

/-- A computation goes on where its first part has returned. -/
lemma bind_of_ok {x : EStateM ε σ α} {f : α → EStateM ε σ β} {s s' : σ} {a : α}
    (hx : x s = .ok a s') :
    (x >>= f) s = f a s' := by
  change EStateM.bind x f s = _
  rw [EStateM.bind, hx]

/-- It stops where its first part stops. -/
lemma bind_of_error {x : EStateM ε σ α} {f : α → EStateM ε σ β} {s s' : σ} {e : ε}
    (hx : x s = .error e s') :
    (x >>= f) s = .error e s' := by
  change EStateM.bind x f s = _
  rw [EStateM.bind, hx]

namespace Wp

variable {x : EStateM ε σ α} {f : α → EStateM ε σ β} {Q Q' : α → σ → Prop}
  {R : β → σ → Prop} {E E' : ε → σ → Prop} {s s' : σ} {a : α} {e : ε}

lemma of_pure (h : Q a s) : Wp (pure a) Q E s := h

lemma of_bind (h : Wp x (fun a s' => Wp (f a) R E s') E s) : Wp (x >>= f) R E s := by
  change match EStateM.bind x f s with | .ok b s' => R b s' | .error e s' => E e s'
  unfold EStateM.bind
  unfold Wp at h
  cases hx : x s with
  | ok a s' =>
      rw [hx] at h
      exact h
  | error e s' =>
      rw [hx] at h
      exact h

/-- The rule of consequence. -/
lemma mono (h : Wp x Q E s) (hQ : ∀ a s', Q a s' → Q' a s') (hE : ∀ e s', E e s' → E' e s') :
    Wp x Q' E' s := by
  unfold Wp at h ⊢
  cases hx : x s with
  | ok a s' =>
      rw [hx] at h
      exact hQ a s' h
  | error e s' =>
      rw [hx] at h
      exact hE e s' h

/-- What holds wherever the program comes out. -/
lemma of_forall (hQ : ∀ a s', Q a s') (hE : ∀ e s', E e s') : Wp x Q E s := by
  unfold Wp
  cases x s with
  | ok a s' => exact hQ a s'
  | error e s' => exact hE e s'

lemma of_ok (hx : x s = .ok a s') (h : Q a s') : Wp x Q E s := by
  unfold Wp
  rw [hx]
  exact h

lemma of_error (hx : x s = .error e s') (h : E e s') : Wp x Q E s := by
  unfold Wp
  rw [hx]
  exact h

/-- A run that ends as another one does. -/
lemma of_eq {y : EStateM ε σ α} (hx : x s = y s') (h : Wp y Q E s') : Wp x Q E s := by
  unfold Wp
  rw [hx]
  exact h

lemma ok (h : Wp x Q E s) (hx : x s = .ok a s') : Q a s' := by
  unfold Wp at h
  rw [hx] at h
  exact h

lemma error (h : Wp x Q E s) (hx : x s = .error e s') : E e s' := by
  unfold Wp at h
  rw [hx] at h
  exact h

/-- What can be said of a run can be found out by running it. -/
instance [∀ a s, Decidable (Q a s)] [∀ e s, Decidable (E e s)] : Decidable (Wp x Q E s) :=
  match hx : x s with
  | .ok a s' => decidable_of_iff (Q a s') (by rw [Wp, hx])
  | .error e s' => decidable_of_iff (E e s') (by rw [Wp, hx])

/-- A run whose stops are ruled out returns. -/
lemma returns (h : Wp x Q (fun _ _ => False) s) : ∃ a s', x s = .ok a s' ∧ Q a s' := by
  cases hx : x s with
  | ok a s' => exact ⟨a, s', rfl, h.ok hx⟩
  | error e s' => exact (h.error hx).elim

/-- A run that cannot return stops. -/
lemma stops (h : Wp x (fun _ _ => False) E s) : ∃ e s', x s = .error e s' ∧ E e s' := by
  cases hx : x s with
  | ok a s' => exact (h.ok hx).elim
  | error e s' => exact ⟨e, s', rfl, h.error hx⟩

/-- What holds after returns and after stops alike holds of the last state. -/
lemma endState {P : σ → Prop} (h : Wp x (fun _ s' => P s') (fun _ s' => P s') s) :
    P (endState x s) := by
  unfold Wp at h
  unfold Lib.endState
  cases hx : x s with
  | ok a s' =>
      rw [hx] at h
      exact h
  | error e s' =>
      rw [hx] at h
      exact h

end Wp

end Xv6.Lib
