import Mathlib.Logic.Relation

/-!
# Forests given by parent pointers

Each node has a parent or none.  `Below f p q` says that the parents of `p` lead to `q`.  A node
from which they lead to a root is not below itself.  `Below.transfer` is the rule for a change of
the pointers: on a set that is closed under parents every node keeps its parent or gets the root as
its parent.
-/

namespace Xv6.Lib

variable {α : Type} {f g : α → Option α} {p q r : α}

/-- `q` is an ancestor of `p`. -/
def Below (f : α → Option α) : α → α → Prop := Relation.TransGen fun p q => f p = some q

namespace Below

/-- No node from which the parents lead to a root is below itself. -/
lemma irrefl (hr : f r = none) (h : Relation.ReflTransGen (fun p q => f p = some q) p r) :
    ¬ Below f p p := by
  induction h using Relation.ReflTransGen.head_induction_on with
  | refl =>
      intro hcycle
      obtain ⟨q, hq, -⟩ := Relation.TransGen.head'_iff.1 hcycle
      exact absurd (hr.symm.trans hq) (by simp)
  | head hp _ ih =>
      -- the circle goes through the parent, too
      intro hcycle
      obtain ⟨q, hq, hback⟩ := Relation.TransGen.head'_iff.1 hcycle
      obtain rfl := Option.some.inj (hp.symm.trans hq)
      exact ih (Relation.TransGen.tail' hback hp)

lemma transfer {S : α → Prop} (h : Below f p r) (hp : S p)
    (hS : ∀ q c, S q → f q = some c → S c ∧ (g q = some c ∨ g q = some r)) : Below g p r := by
  induction h using Relation.TransGen.head_induction_on with
  | single hedge => exact .single ((hS _ _ hp hedge).2.elim id id)
  | head hedge _ ih =>
      obtain ⟨hc, hkeep | hroot⟩ := hS _ _ hp hedge
      · exact Relation.TransGen.head hkeep (ih hc)
      · exact .single hroot

end Below

end Xv6.Lib
