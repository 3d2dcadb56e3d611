import Mathlib.Data.List.Infix
import Mathlib.Logic.Function.Basic

/-!
# Sequences of writes and what holds along them

A device that performs one write at a time is a function from addresses to contents, and a
run of it is the list of its writes.  A crash keeps a prefix of that list, so what has to
be shown of a run is a statement about every prefix: `Along R d ws` says that `R` holds of
the contents `d` and after each of the writes `ws`.
-/

namespace Xv6.Lib

variable {ι β : Type} [DecidableEq ι]

/-- Perform the writes of `ws` in order. -/
def applyWrites (ws : List (ι × β)) (d : ι → β) : ι → β :=
  ws.foldl (fun d w => Function.update d w.1 w.2) d

@[simp] lemma applyWrites_nil (d : ι → β) : applyWrites [] d = d := rfl

@[simp] lemma applyWrites_cons (w : ι × β) (ws : List (ι × β)) (d : ι → β) :
    applyWrites (w :: ws) d = applyWrites ws (Function.update d w.1 w.2) := rfl

lemma applyWrites_append (ws vs : List (ι × β)) (d : ι → β) :
    applyWrites (ws ++ vs) d = applyWrites vs (applyWrites ws d) := by
  simp [applyWrites, List.foldl_append]

/-- `R` holds before, between and after the writes of `ws`. -/
def Along (R : (ι → β) → Prop) (d : ι → β) (ws : List (ι × β)) : Prop :=
  ∀ p, p <+: ws → R (applyWrites p d)

variable {R : (ι → β) → Prop} {d : ι → β} {ws vs : List (ι × β)} {w : ι × β}

lemma Along.nil (h : R d) : Along R d [] := by
  intro p hp
  obtain rfl : p = [] := by simpa using hp
  exact h

lemma Along.start (h : Along R d ws) : R d := h [] List.nil_prefix

lemma Along.take (h : Along R d ws) (c : ℕ) : R (applyWrites (ws.take c) d) :=
  h _ ( List.take_prefix c ws)

lemma Along.append (h : Along R d ws) (h' : Along R (applyWrites ws d) vs) :
    Along R d (ws ++ vs) := by
  intro p hp
  rcases List.prefix_or_prefix_of_prefix hp (List.prefix_append ws vs) with hp' | ⟨q, rfl⟩
  · exact h p hp'
  · rw [applyWrites_append]
    exact h' q ((List.prefix_append_right_inj ws).1 hp)

lemma Along.single (h : R d) (h' : R (Function.update d w.1 w.2)) : Along R d [w] := by
  intro p hp
  rcases List.prefix_cons_iff.1 hp with rfl | ⟨t, rfl, ht⟩
  · exact h
  · obtain rfl : t = [] := by simpa using ht
    exact h'

/-- If no write of `ws` can break `R`, then `R` holds along `ws`. -/
lemma Along.of_step (h : R d) (hstep : ∀ w ∈ ws, ∀ d, R d → R (Function.update d w.1 w.2)) :
    Along R d ws := by
  induction ws generalizing d with
  | nil => exact Along.nil h
  | cons w ws ih =>
      have h₁ : R (Function.update d w.1 w.2) := hstep w (by simp) d h
      have h₂ : Along R (applyWrites [w] d) ws :=
        ih h₁ (fun v hv => hstep v (List.mem_cons_of_mem _ hv))
      exact Along.append (Along.single h h₁) h₂

end Xv6.Lib
