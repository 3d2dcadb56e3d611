import Xv6.Lib.Prog

/-!
# Programs among others

When several programs take turns on one state, what is left of a program after some of its
actions is a program again.  `Leads` is for programs whose last action is where the others may go
on: it says what holds at each action before, and what the program leaves.
-/

namespace Xv6.Lib.Prog

variable {A : Type} {R : A → Type} {ε α β σ : Type} {exec : (a : A) → EStateM ε σ (R a)}
  {W ok : A → σ → Prop} {last : A} {p p' : Prog A R ε α} {f : α → Prog A R ε β} {s s' : σ}

/-- The action that comes next. -/
def nextAction : Prog A R ε α → Option A
  | act a _ => some a
  | _ => none

/-- Perform the next action, if there is one and it can be performed now. -/
def advance (exec : (a : A) → EStateM ε σ (R a)) : Prog A R ε α → σ → Option (A × Prog A R ε α × σ)
  | act a k, s =>
      match exec a s with
      | .ok r s' => some (a, k r, s')
      | .error _ _ => none
  | _, _ => none

lemma advance_act {a : A} {k : R a → Prog A R ε α} {r : R a} (hx : exec a s = .ok r s') :
    (act a k).advance exec s = some (a, k r, s') := by
  rw [advance, hx]

lemma exists_of_advance {a : A} (h : p.advance exec s = some (a, p', s')) :
    ∃ k r, p = act a k ∧ exec a s = .ok r s' ∧ p' = k r := by
  cases p with
  | ret v => exact absurd h (by simp [advance])
  | stop e => exact absurd h (by simp [advance])
  | act b k =>
      rw [advance] at h
      split at h
      · rename_i r s₁ hx
        simp only [Option.some.injEq, Prod.mk.injEq] at h
        obtain ⟨rfl, rfl, rfl⟩ := h
        exact ⟨k, r, rfl, hx, rfl⟩
      · exact absurd h (by simp)

/-- A program before another one: the first advances, unless it has returned. -/
lemma exists_of_advance_bind {a : A} {q : Prog A R ε β} (hp : ∀ v, p ≠ ret v)
    (h : (p >>= f).advance exec s = some (a, q, s')) :
    ∃ p', p.advance exec s = some (a, p', s') ∧ q = p' >>= f := by
  cases p with
  | ret v => exact absurd rfl (hp v)
  | stop e => exact absurd h (by simp [Bind.bind, Prog.bind, advance])
  | act b k =>
      obtain ⟨k', r, heq, hx, rfl⟩ := exists_of_advance h
      cases heq
      exact ⟨k r, advance_act hx, rfl⟩

/-- As long as `W` holds of the actions of the program, `ok` does too; the program returns after
`last` and not before, and `Q` holds then. -/
def Leads (exec : (a : A) → EStateM ε σ (R a)) (W ok : A → σ → Prop) (last : A)
    (Q : α → σ → Prop) : Prog A R ε α → σ → Prop
  | ret _, _ => False
  | stop _, _ => True
  | act a k, s => W a s → ∀ r s', exec a s = .ok r s' →
      (a = last ∧ ∃ v, k r = ret v ∧ Q v s') ∨ (ok a s ∧ (k r).Leads exec W ok last Q s')

namespace Leads

variable {Q Q' : α → σ → Prop}

lemma ne_ret (h : p.Leads exec W ok last Q s) (v : α) : p ≠ ret v := by
  rintro rfl
  exact h

lemma bind_ne_ret (h : p.Leads exec W ok last Q s) (v : β) : p >>= f ≠ ret v := by
  cases p with
  | ret a => exact h.elim
  | stop e => simp [Bind.bind, Prog.bind]
  | act a k => simp [Bind.bind, Prog.bind]

lemma advance {a : A} (h : p.Leads exec W ok last Q s) (hw : W a s)
    (ha : p.advance exec s = some (a, p', s')) :
    (a = last ∧ ∃ v, p' = ret v ∧ Q v s') ∨ (ok a s ∧ p'.Leads exec W ok last Q s') := by
  obtain ⟨k, r, rfl, hx, rfl⟩ := exists_of_advance ha
  exact h hw r s' hx

/-- What the whole program leaves is what it leaves among others. -/
lemma ensure (h : p.Leads exec W ok last Q' s)
    (hQ : p.Meets exec W s → ∀ v s', p.run exec s = .ok v s' → Q v s') :
    p.Leads exec W ok last Q s := by
  induction p generalizing s with
  | ret a => exact h
  | stop e => trivial
  | act a k ih =>
      intro hw r s₁ hx
      have hmeets : (k r).Meets exec W s₁ → (act a k).Meets exec W s := fun hk =>
        ⟨hw, fun r' s' hx' => by cases hx.symm.trans hx'; exact hk⟩
      have hrun : ∀ {v s'}, (k r).run exec s₁ = .ok v s' → (act a k).run exec s = .ok v s' :=
        fun hk => (run_act_ok hx).trans hk
      rcases h hw r s₁ hx with ⟨hlast, v, hk, -⟩ | ⟨hok, hk⟩
      · refine .inl ⟨hlast, v, hk, hQ (hmeets ?_) v s₁ (hrun ?_)⟩
        · rw [hk]
          trivial
        · rw [hk]
          rfl
      · exact .inr ⟨hok, ih r hk fun hm v s' hx' => hQ (hmeets hm) v s' (hrun hx')⟩

end Leads

lemma Only.leads {ok' : A → Prop} {Q : β → σ → Prop} (h : Only ok' p) (hok : ∀ a s, ok' a → ok a s)
    (hf : ∀ v s', p.run exec s = .ok v s' → (f v).Leads exec W ok last Q s') :
    (p >>= f).Leads exec W ok last Q s := by
  induction p generalizing s with
  | ret a => exact hf a s rfl
  | stop e => trivial
  | act a k ih => exact fun _ r s₁ hx => .inr ⟨hok a s h.1, ih r (h.2 r) fun v s' hk =>
      hf v s' ((run_act_ok hx).trans hk)⟩

end Xv6.Lib.Prog
