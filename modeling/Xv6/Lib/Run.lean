import Mathlib.Tactic.Common

/-!
# Runs of a labelled machine

A machine is a partial function `step` from a state and a label to the next state and what
an observer sees of the step, if anything.  `Run step ok s₀ es₀ es s` says that `s` is
reached from `s₀` by steps that all satisfy `ok`, and that the observations, which started
with `es₀`, are then `es`.  `exec` follows a given list of labels.
-/

namespace Xv6.Lib

variable {σ ℓ ε : Type}

/-- The states that a machine reaches, with the observations made on the way. -/
inductive Run (step : σ → ℓ → Option (σ × Option ε)) (ok : σ → ℓ → Prop) (s₀ : σ)
    (es₀ : List ε) : List ε → σ → Prop
  | start : Run step ok s₀ es₀ es₀ s₀
  | step {es : List ε} {s s' : σ} {l : ℓ} {e : Option ε} :
      Run step ok s₀ es₀ es s → ok s l → step s l = some (s', e) →
        Run step ok s₀ es₀ (es ++ e.toList) s'

/-- Follow a list of labels. -/
def exec (step : σ → ℓ → Option (σ × Option ε)) : List ℓ → List ε → σ → Option (List ε × σ)
  | [], es, s => some (es, s)
  | l :: ls, es, s =>
      match step s l with
      | some (s', e) => exec step ls (es ++ e.toList) s'
      | none => none

/-- The machine that takes only the steps that satisfy `ok`. -/
def restrict (step : σ → ℓ → Option (σ × Option ε)) (ok : σ → ℓ → Prop)
    [∀ s l, Decidable (ok s l)] (s : σ) (l : ℓ) : Option (σ × Option ε) :=
  if ok s l then step s l else none

variable {step : σ → ℓ → Option (σ × Option ε)} {ok ok' : σ → ℓ → Prop} {s₀ s s' : σ}
  {es₀ es es' : List ε}

namespace Run

/-- What holds at the start and is kept by every step that satisfies `ok` holds throughout. -/
lemma invariant {I : List ε → σ → Prop} (h : Run step ok s₀ es₀ es s) (h₀ : I es₀ s₀)
    (hstep : ∀ {es s s' l e}, I es s → ok s l → step s l = some (s', e) → I (es ++ e.toList) s') :
    I es s := by
  induction h with
  | start => exact h₀
  | step _ hl hs ih => exact hstep ih hl hs

/-- A list of labels that can be followed gives a run. -/
lemma of_exec [∀ s l, Decidable (ok s l)] {ls : List ℓ} (h : Run step ok s₀ es₀ es s)
    (hexec : exec (restrict step ok) ls es s = some (es', s')) :
    Run step ok s₀ es₀ es' s' := by
  induction ls generalizing es s with
  | nil =>
      obtain ⟨rfl, rfl⟩ : es = es' ∧ s = s' := by simpa [exec] using hexec
      exact h
  | cons l ls ih =>
      rw [exec] at hexec
      cases hs : restrict step ok s l with
      | none =>
          rw [hs] at hexec
          exact absurd hexec (by simp)
      | some r =>
          rw [hs] at hexec
          rw [restrict] at hs
          split at hs
          · rename_i hok
            exact ih (.step h hok hs) hexec
          · exact absurd hs (by simp)

/-- A list of labels that can be followed to a state with a decidable property gives a run to
such a state. -/
lemma exists_of_exec [∀ s l, Decidable (ok s l)] (P : List ε → σ → Prop)
    [∀ es s, Decidable (P es s)] (ls : List ℓ)
    (h : ((exec (restrict step ok) ls es₀ s₀).any fun r => decide (P r.1 r.2)) = true) :
    ∃ es s, Run step ok s₀ es₀ es s ∧ P es s := by
  cases hexec : exec (restrict step ok) ls es₀ s₀ with
  | none => simp [hexec] at h
  | some r => exact ⟨r.1, r.2, .of_exec .start hexec, by simpa [hexec] using h⟩

end Run

end Xv6.Lib
