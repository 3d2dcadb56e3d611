import Xv6.Lib.Wp

/-!
# Programs over atomic actions

A program performs actions on a shared state one after another: `act a k` performs `a` and
goes on as `k` says for the result, `ret` returns a value and `stop` ends the program for a
reason.  What an action does to a state is said separately, by a function `exec`, so that one
program can be run alone (`Prog.run`), on two representations of a state
(`Prog.run_simulates`), or one action at a time among other programs.
-/

namespace Xv6.Lib

/-- A program with actions `A`, results `R` of the actions and reasons `ε` to stop. -/
inductive Prog (A : Type) (R : A → Type) (ε α : Type) : Type
  | ret (a : α)
  | stop (e : ε)
  | act (a : A) (k : R a → Prog A R ε α)

variable {A : Type} {R : A → Type} {ε α β γ σ τ : Type}

namespace Prog

/-- Run a program and go on with its value. -/
def bind : Prog A R ε α → (α → Prog A R ε β) → Prog A R ε β
  | ret a, f => f a
  | stop e, _ => stop e
  | act a k, f => act a fun r => (k r).bind f

instance : Monad (Prog A R ε) where
  pure := ret
  bind := bind

/-- Perform one action and return its result. -/
def perform (a : A) : Prog A R ε (R a) := act a ret

lemma bind_ret_right (p : Prog A R ε α) : p.bind ret = p := by
  induction p with
  | ret a => rfl
  | stop e => rfl
  | act a k ih => exact congrArg (act a) (funext ih)

lemma bind_bind (p : Prog A R ε α) (f : α → Prog A R ε β) (g : β → Prog A R ε γ) :
    (p.bind f).bind g = p.bind fun a => (f a).bind g := by
  induction p with
  | ret a => rfl
  | stop e => rfl
  | act a k ih => exact congrArg (act a) (funext ih)

instance : LawfulMonad (Prog A R ε) := LawfulMonad.mk' (Prog A R ε)
  (fun p => bind_ret_right p) (fun _ _ => rfl) (fun p f g => bind_bind p f g)

/-! ## Running alone -/

/-- Run a program from start to end. -/
def run (exec : (a : A) → EStateM ε σ (R a)) : Prog A R ε α → EStateM ε σ α
  | ret a => fun s => .ok a s
  | stop e => fun s => .error e s
  | act a k => EStateM.bind (exec a) fun r => (k r).run exec

variable {exec exec' : (a : A) → EStateM ε σ (R a)} {p : Prog A R ε α} {f : α → Prog A R ε β}
  {Q : α → σ → Prop} {E : ε → σ → Prop} {s : σ}

lemma run_act_ok {a : A} {k : R a → Prog A R ε α} {r : R a} {s' : σ}
    (hx : exec a s = .ok r s') : (act a k).run exec s = (k r).run exec s' := by
  rw [run, EStateM.bind, hx]

lemma run_act_error {a : A} {k : R a → Prog A R ε α} {e : ε} {s' : σ}
    (hx : exec a s = .error e s') : (act a k).run exec s = .error e s' := by
  rw [run, EStateM.bind, hx]

lemma run_bind : (p >>= f).run exec = p.run exec >>= fun a => (f a).run exec := by
  funext s
  change (p.bind f).run exec s = (EStateM.bind (p.run exec) fun a => (f a).run exec) s
  induction p generalizing s with
  | ret a => rfl
  | stop e => rfl
  | act a k ih =>
      rw [bind]
      cases hx : exec a s with
      | ok r s' =>
          rw [run_act_ok hx, ih r s', EStateM.bind, EStateM.bind, run_act_ok hx]
      | error e s' =>
          rw [run_act_error hx, EStateM.bind, run_act_error hx]

end Prog

namespace Wp

variable {exec exec' : (a : A) → EStateM ε σ (R a)} {p : Prog A R ε α} {f : α → Prog A R ε β}
  {Q : α → σ → Prop} {P : β → σ → Prop} {E : ε → σ → Prop} {s : σ}

lemma of_perform {a : A} {Q : R a → σ → Prop} (h : Wp (exec a) Q E s) :
    Wp ((Prog.perform a : Prog A R ε (R a)).run exec) Q E s := by
  cases hx : exec a s with
  | ok r s' => exact of_ok (Prog.run_act_ok hx) (h.ok hx)
  | error e s' => exact of_error (Prog.run_act_error hx) (h.error hx)

/-- Programs in sequence: what the first leaves is where the second starts. -/
lemma of_seq (h : Wp (p.run exec) (fun a s' => Wp ((f a).run exec) P E s') E s) :
    Wp ((p >>= f).run exec) P E s := by
  rw [Prog.run_bind]
  exact of_bind h

end Wp

namespace Prog

section

variable {exec : (a : A) → EStateM ε σ (R a)} {s : σ}

lemma endState_act_ok {a : A} {k : R a → Prog A R ε α} {r : R a} {s' : σ}
    (hx : exec a s = .ok r s') :
    endState ((act a k).run exec) s = endState ((k r).run exec) s' := by
  rw [endState, run_act_ok hx]
  rfl

lemma endState_act_error {a : A} {k : R a → Prog A R ε α} {e : ε} {s' : σ}
    (hx : exec a s = .error e s') : endState ((act a k).run exec) s = s' := by
  rw [endState, run_act_error hx]

end

/-! ## Programs with some actions only -/

section Only

variable {exec : (a : A) → EStateM ε σ (R a)} {ok ok' : A → Prop} {p : Prog A R ε α}
  {f : α → Prog A R ε β} {s : σ}

/-- Every action of the program satisfies `ok`. -/
def Only (ok : A → Prop) : Prog A R ε α → Prop
  | ret _ => True
  | stop _ => True
  | act a k => ok a ∧ ∀ r, (k r).Only ok

namespace Only

lemma pure (a : α) : Only ok (Pure.pure a : Prog A R ε α) := trivial

lemma perform {a : A} (h : ok a) : Only ok (Prog.perform a : Prog A R ε (R a)) :=
  ⟨h, fun _ => trivial⟩

lemma bind (h : Only ok p) (hf : ∀ a, Only ok (f a)) : Only ok (p >>= f) := by
  induction p with
  | ret a => exact hf a
  | stop e => trivial
  | act a k ih => exact ⟨h.1, fun r => ih r (h.2 r)⟩

lemma mono (h : Only ok p) (hok : ∀ a, ok a → ok' a) : Only ok' p := by
  induction p with
  | ret a => trivial
  | stop e => trivial
  | act a k ih => exact ⟨hok a h.1, fun r => ih r (h.2 r)⟩

/-- What each of the actions does to a state, the program does too. -/
lemma run {rel : σ → σ → Prop} (h : Only ok p) (hrefl : ∀ s, rel s s)
    (htrans : ∀ s₁ s₂ s₃, rel s₁ s₂ → rel s₂ s₃ → rel s₁ s₃)
    (hact : ∀ a s, ok a → rel s (endState (exec a) s)) : rel s (endState (p.run exec) s) := by
  induction p generalizing s with
  | ret a => exact hrefl s
  | stop e => exact hrefl s
  | act a k ih =>
      have hnext := hact a s h.1
      cases hx : exec a s with
      | ok r s₁ =>
          rw [endState, hx] at hnext
          rw [endState_act_ok hx]
          exact htrans _ _ _ hnext (ih r (h.2 r))
      | error e s₁ =>
          rw [endState, hx] at hnext
          rwa [endState_act_error hx]

end Only

end Only

/-! ## Two executions of one program -/

variable {exec : (a : A) → EStateM ε σ (R a)} {s : σ}

/-- If no action leaves `B`, no program does. -/
lemma endState_run_of_bad {B : σ → Prop} (hbad : ∀ a s, B s → B (endState (exec a) s))
    (p : Prog A R ε α) (hs : B s) : B (endState (p.run exec) s) := by
  induction p generalizing s with
  | ret a => exact hs
  | stop e => exact hs
  | act a k ih =>
      have hnext := hbad a s hs
      cases hx : exec a s with
      | ok r s₁ =>
          rw [endState, hx] at hnext
          rw [endState_act_ok hx]
          exact ih r hnext
      | error e s₁ =>
          rw [endState, hx] at hnext
          rwa [endState_act_error hx]

/-- `W` holds of every action that the run performs and the state it is performed in. -/
def Meets (exec : (a : A) → EStateM ε σ (R a)) (W : A → σ → Prop) : Prog A R ε α → σ → Prop
  | ret _, _ => True
  | stop _, _ => True
  | act a k, s => W a s ∧ ∀ r s', exec a s = .ok r s' → (k r).Meets exec W s'

/-- Whether a run meets a decidable condition is decided by running. -/
instance decidableMeets {W : A → σ → Prop} [∀ a s, Decidable (W a s)] :
    (p : Prog A R ε α) → (s : σ) → Decidable (p.Meets exec W s)
  | ret _, _ => isTrue trivial
  | stop _, _ => isTrue trivial
  | act a k, s =>
      match hx : exec a s with
      | .ok r s' =>
          have := decidableMeets (W := W) (k r) s'
          decidable_of_iff (W a s ∧ (k r).Meets exec W s') (and_congr_right fun _ => by simp [hx])
      | .error e s' =>
          decidable_of_iff (W a s) (iff_self_and.2 fun _ => by simp [hx])

lemma Meets.mono {W W' : A → σ → Prop} {p : Prog A R ε α} (h : p.Meets exec W s)
    (hW : ∀ a s, W a s → W' a s) : p.Meets exec W' s := by
  induction p generalizing s with
  | ret a => trivial
  | stop e => trivial
  | act a k ih => exact ⟨hW a s h.1, fun r s' hx => ih r (h.2 r s' hx)⟩

/-- An execution with guards: it is the same as another one, except for actions after which `B`
holds for ever, and except that it stops for the reason `e₀` if `W` does not hold.  A run that
ends in a state that is not `B` is the same with the guards, and meets `W`, if the guards do
not stop it. -/
lemma run_eq_of_guarded {exec' : (a : A) → EStateM ε σ (R a)} {B : σ → Prop} {W : A → σ → Prop}
    {e₀ : ε}
    (hguard : ∀ a s, (W a s ∧ exec' a s = exec a s) ∨ (∃ s', exec' a s = .error e₀ s') ∨
      B (endState (exec a) s))
    (hbad : ∀ a s, B s → B (endState (exec a) s)) {p : Prog A R ε α}
    (h : ¬ B (endState (p.run exec) s)) (hrun : ∀ s', p.run exec' s ≠ .error e₀ s') :
    p.run exec' s = p.run exec s ∧ p.Meets exec W s := by
  induction p generalizing s with
  | ret a => exact ⟨rfl, trivial⟩
  | stop e => exact ⟨rfl, trivial⟩
  | act a k ih =>
      rcases hguard a s with ⟨hW, heq⟩ | ⟨s', hstop⟩ | hnext
      · cases hx : exec a s with
        | ok r s₁ =>
            have heq' := heq.trans hx
            rw [endState_act_ok hx] at h
            rw [run_act_ok heq'] at hrun
            obtain ⟨hsame, hmeets⟩ := ih r h hrun
            refine ⟨by rw [run_act_ok hx, run_act_ok heq', hsame], hW, fun r' s' hx' => ?_⟩
            obtain ⟨rfl, rfl⟩ : r = r' ∧ s₁ = s' := by simpa [hx] using hx'
            exact hmeets
        | error e s₁ =>
            refine ⟨by rw [run_act_error hx, run_act_error (heq.trans hx)], hW, fun r' s' hx' => ?_⟩
            simp [hx] at hx'
      · exact absurd (run_act_error hstop) (hrun s')
      · refine absurd ?_ h
        cases hx : exec a s with
        | ok r s₁ =>
            rw [endState, hx] at hnext
            rw [endState_act_ok hx]
            exact endState_run_of_bad hbad (k r) hnext
        | error e s₁ =>
            rw [endState, hx] at hnext
            rwa [endState_act_error hx]

/-- An execution with guards that is the same as another one where `V` holds, except that it stops
for the reason `e₀` if `W` does not hold.  A run that meets `V` is the same with the guards, and
meets `W`, if the guards do not stop it. -/
lemma run_eq_of_meets {exec' : (a : A) → EStateM ε σ (R a)} {V W : A → σ → Prop} {e₀ : ε}
    (hguard : ∀ a s, V a s → (W a s ∧ exec' a s = exec a s) ∨ ∃ s', exec' a s = .error e₀ s')
    {p : Prog A R ε α} (h : p.Meets exec V s) (hrun : ∀ s', p.run exec' s ≠ .error e₀ s') :
    p.run exec' s = p.run exec s ∧ p.Meets exec W s := by
  induction p generalizing s with
  | ret a => exact ⟨rfl, trivial⟩
  | stop e => exact ⟨rfl, trivial⟩
  | act a k ih =>
      rcases hguard a s h.1 with ⟨hW, heq⟩ | ⟨s', hstop⟩
      · cases hx : exec a s with
        | ok r s₁ =>
            have heq' := heq.trans hx
            rw [run_act_ok heq'] at hrun
            obtain ⟨hsame, hmeets⟩ := ih r (h.2 r s₁ hx) hrun
            refine ⟨by rw [run_act_ok hx, run_act_ok heq', hsame], hW, fun r' s' hx' => ?_⟩
            obtain ⟨rfl, rfl⟩ : r = r' ∧ s₁ = s' := by simpa [hx] using hx'
            exact hmeets
        | error e s₁ =>
            refine ⟨by rw [run_act_error hx, run_act_error (heq.trans hx)], hW, fun r' s' hx' => ?_⟩
            simp [hx] at hx'
      · exact absurd (run_act_error hstop) (hrun s')

/-- What every action keeps where `W` holds is kept by a run that meets `W`. -/
lemma Meets.endState {I : σ → Prop} {W : A → σ → Prop} {p : Prog A R ε α} (h : p.Meets exec W s)
    (hact : ∀ a s, W a s → I s → I (endState (exec a) s)) (hI : I s) :
    I (endState (p.run exec) s) := by
  induction p generalizing s with
  | ret a => exact hI
  | stop e => exact hI
  | act a k ih =>
      have hnext := hact a s h.1 hI
      cases hx : exec a s with
      | ok r s₁ =>
          rw [Lib.endState, hx] at hnext
          rw [endState_act_ok hx]
          exact ih r (h.2 r s₁ hx) hnext
      | error e s₁ =>
          rw [Lib.endState, hx] at hnext
          rwa [endState_act_error hx]

/-- The first of two programs. -/
lemma Meets.left {W : A → σ → Prop} {p : Prog A R ε α} {f : α → Prog A R ε β}
    (h : (p >>= f).Meets exec W s) :
    p.Meets exec W s := by
  induction p generalizing s with
  | ret a => trivial
  | stop e => trivial
  | act a k ih => exact ⟨h.1, fun r s₁ hx => ih r (h.2 r s₁ hx)⟩

/-- The second one, from where the first one ends. -/
lemma Meets.right {W : A → σ → Prop} {p : Prog A R ε α} {f : α → Prog A R ε β} {v : α} {s' : σ}
    (h : (p >>= f).Meets exec W s) (hrun : p.run exec s = .ok v s') : (f v).Meets exec W s' := by
  induction p generalizing s with
  | ret a =>
      cases hrun
      exact h
  | stop e => exact absurd hrun (by simp [run])
  | act a k ih =>
      cases hx : exec a s with
      | ok r s₁ => exact ih r (h.2 r s₁ hx) ((run_act_ok hx).symm.trans hrun)
      | error e s₁ => exact absurd ((run_act_error hx).symm.trans hrun) (by simp)

end Prog

end Xv6.Lib
