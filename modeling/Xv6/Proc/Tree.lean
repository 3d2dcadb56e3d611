import Xv6.Lib.Forest
import Xv6.Proc.Invariant

/-!
# The process tree

`fork` hangs a new process below the one that calls it, `exit` passes the children of a process to
init, and `wait` and `waitpid` take out a process that has exited.  Whatever the processes do, the
parents of a process lead to init.
-/

namespace Xv6

open Lib ProcState

variable {s s' : PTable} {l : Step} {e : Option Event} {i p q : Slot} {st : ℕ} {pid : ℤ}

/-- `q` is an ancestor of `p`. -/
def PTable.Below (s : PTable) : Slot → Slot → Prop := Lib.Below fun p => (s.proc p).parent

/-- Whoever has a parent is below init. -/
def BelowInit (s : PTable) : Prop := ∀ p, (s.proc p).parent ≠ none → s.Below p initproc

lemma Family.childless (f : Family s) (h : ¬ (s.proc p).state.Live) (q : Slot) :
    (s.proc q).parent ≠ some p :=
  fun hq => h (f.live q p hq)

namespace BelowInit

/-- A step after which those who have a parent had one before, and have the same one or init. -/
lemma of_parents (h : BelowInit s) (S : Slot → Prop)
    (hS : ∀ p q, S p → (s.proc p).parent = some q → S q ∧
      ((s'.proc p).parent = some q ∨ (s'.proc p).parent = some initproc))
    (hmem : ∀ p, (s'.proc p).parent ≠ none → S p ∧ (s.proc p).parent ≠ none) :
    BelowInit s' := fun p hp =>
  (h p (hmem p hp).2).transfer (hmem p hp).1 hS

lemma congr (h : BelowInit s) (hparent : ∀ p, (s'.proc p).parent = (s.proc p).parent) :
    BelowInit s' :=
  h.of_parents (fun _ => True) (fun p q _ hq => ⟨trivial, .inl ((hparent p).trans hq)⟩) fun p hp =>
    ⟨trivial, by rwa [← hparent p]⟩

/-- The slot of a zombie is emptied; a zombie is nobody's parent. -/
lemma reap (h : BelowInit s) (f : Family s) (hz : (s.proc p).state = ZOMBIE) :
    BelowInit (reap p s) := by
  have hleaf := f.childless (p := p) (by simp [hz, ProcState.Live])
  exact h.of_parents (· ≠ p) (by grind) (by grind)

/-- The new slot gets its parent, which is below init or init itself. -/
lemma forkLink (h : BelowInit s) (f : Family s) (hc : s.call i = .fork p false) :
    BelowInit ((s.modifyProc p fun q => { q with parent := some i }).setCall i (.fork p true)) := by
  obtain ⟨hembryo, hrun⟩ := f.fork i p false hc
  have hleaf := f.childless (p := p) (by simp [hembryo, ProcState.Live])
  have hip : i ≠ p := by
    rintro rfl
    simp [hembryo] at hrun
  -- those who were below init before
  have hold : ∀ q, q ≠ p → (s.proc q).parent ≠ none →
      ((s.modifyProc p fun q => { q with parent := some i }).setCall i (.fork p true)).Below q
      initproc := fun q hq hne =>
    (h q hne).transfer (S := (· ≠ p)) hq (by grind)
  intro q hq
  by_cases hqp : q = p
  · subst hqp
    by_cases hi : i = initproc
    · exact .single (by simp [hi])
    · refine Relation.TransGen.head (b := i) (by simp) (hold i hip (f.hasParent i ?_ ?_ hi)) <;>
        rcases hrun with hrun | hrun <;> simp [hrun]
  · exact hold q hqp (by grind)

lemma waited (h : BelowInit s) (f : Family s) (hw : Waited s i st s' e) : BelowInit s' := by
  cases hw with
  | reap q hq => exact h.reap f hq.2
  | fail => exact h
  | sleep => exact h.congr (by grind)

lemma waitpided (h : BelowInit s) (f : Family s) (hw : Waitpided s i pid st s' e) :
    BelowInit s' := by
  cases hw with
  | reap q _ hq => exact h.reap f hq
  | stale => exact h
  | fail => exact h
  | sleep => exact h.congr (by grind)

/-- `exit` passes the children on to init. -/
lemma exit {st : ℤ} (h : BelowInit s) (hx : Exited s i st s') : BelowInit s' := by
  obtain ⟨-, -, x, -, -, hproc⟩ := hx
  exact h.of_parents (fun _ => True) (by grind) (by grind)

lemma step (h : BelowInit s) (f : Family s) (hs : Stepped s l s' e) : BelowInit s' := by
  cases hs with
  | resumeWait i st hs hc hw => exact (h.congr (by grind)).waited (f.wakeFrom hs (by simp [hc])) hw
  | resumeWaitpid i pid st q hs hc hw =>
      exact (h.congr (by grind)).waitpided (f.wakeFrom hs (by simp [hc])) hw
  | allocFail => exact h
  | forkLink i np hs hc => exact h.forkLink f hc
  | exit i st hi hne hx => exact h.exit hx
  | wait i st hi hw => exact h.waited f hw
  | waitpid i pid st op hi hw => exact h.waitpided f hw
  | killFail => exact h
  | _ => exact h.congr (by grind)

end BelowInit

variable {ok : PTable → Step → Prop} {es : List Event}

/-- In every state of the process table the processes are a tree with init as its root: everybody
but init who is there and not still being made is below init, nobody is below itself, and an
ancestor has neither exited nor is it still being made. -/
theorem process_tree (h : PRun ok es s) :
    (∀ p, p ≠ initproc → (s.proc p).state ≠ UNUSED → (s.proc p).state ≠ EMBRYO →
      s.Below p initproc) ∧
      (∀ p, ¬ s.Below p p) ∧ ∀ p q, s.Below p q → (s.proc q).state.Live := by
  have f := h.family
  have hrooted : BelowInit s := by
    refine (h.invariant (I := fun _ s => Family s ∧ BelowInit s) ⟨?_, fun p => ?_⟩
      fun hI _ hs => ?_).2
    · exact PRun.family (.start : PRun ok _ userinit)
    · rw [userinit_proc]
      split <;> simp
    · exact ⟨hI.1.step (step_stepped hs), hI.2.step hI.1 (step_stepped hs)⟩
  refine ⟨fun p hp hunused hembryo => hrooted p (f.hasParent p hunused hembryo hp),
    fun p hcycle => ?_, fun p q hpq => ?_⟩
  · obtain ⟨q, hq, -⟩ := Relation.TransGen.head'_iff.1 hcycle
    have hroot : s.Below p initproc := hrooted p fun hnone => absurd (hnone.symm.trans hq) (by simp)
    exact Lib.Below.irrefl f.initParent hroot.to_reflTransGen hcycle
  · obtain ⟨c, -, hc⟩ := Relation.TransGen.tail'_iff.1 hpq
    exact f.live c q hc

/-- Init has forked. -/
theorem process_tree_forked : ∃ es s, PRun (fun _ _ => True) es s ∧ s.Below 1 initproc := by
  obtain ⟨es, s, hrun, hstate⟩ := PRun.of_steps (fun _ _ => True)
    (fun _ s => (s.proc 1).state = RUNNABLE) [.dispatch 0, .forkAlloc 0, .forkLink 0, .forkDone 0]
    (by decide +kernel)
  exact ⟨es, s, hrun, (process_tree hrun).1 1 (by decide) (by simp [hstate]) (by simp [hstate])⟩

end Xv6
