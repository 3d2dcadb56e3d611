import Mathlib.Algebra.BigOperators.Fin
import Mathlib.Data.Fintype.BigOperators

/-!
# Counting references

Holders `i` may each refer to one object, `g i = some k`.  `refs g k` is the number of holders
that refer to `k`; it moves by one when one holder changes.
-/

namespace Xv6.Lib

variable {ι κ : Type} [Fintype ι] [DecidableEq κ]

/-- The number of holders that refer to `k`. -/
def refs (g : ι → Option κ) (k : κ) : ℕ := (Finset.univ.filter fun i => g i = some k).card

/-- Does this reference count for `k`? -/
def isRef (o : Option κ) (k : κ) : ℕ := if o = some k then 1 else 0

@[simp] lemma isRef_none (k : κ) : isRef none k = 0 := rfl

@[simp] lemma isRef_self (k : κ) : isRef (some k) k = 1 := if_pos rfl

/-- A list of references held one by one. -/
lemma count_cons_eq_add_isRef (j k : κ) (l : List κ) :
    (j :: l).count k = l.count k + isRef (some j) k := by
  by_cases h : j = k
  · rw [h, List.count_cons_self, isRef_self]
  · rw [List.count_cons_of_ne h, isRef, if_neg fun he => h (Option.some.inj he), add_zero]

variable {g : ι → Option κ} {i : ι} {k : κ} {o : Option κ}

lemma refs_pos (h : g i = some k) : 0 < refs g k :=
  Finset.card_pos.2 ⟨i, Finset.mem_filter.2 ⟨Finset.mem_univ i, h⟩⟩

lemma refs_eq_zero (h : ∀ i, g i ≠ some k) : refs g k = 0 :=
  Finset.card_eq_zero.2 (Finset.filter_eq_empty_iff.2 fun i _ => h i)

lemma refs_eq_sum (g : ι → Option κ) (k : κ) : refs g k = ∑ i, isRef (g i) k :=
  Finset.card_filter _ _

/-- One of the summands changes. -/
lemma sum_change [DecidableEq ι] (g g' : ι → ℕ) {i : ι} (h : ∀ j, j ≠ i → g' j = g j) :
    ∑ j, g' j + g i = ∑ j, g j + g' i := by
  have hother : ∑ j ∈ Finset.univ.erase i, g' j = ∑ j ∈ Finset.univ.erase i, g j :=
    Finset.sum_congr rfl fun j hj => h j (Finset.ne_of_mem_erase hj)
  rw [← Finset.add_sum_erase _ g' (Finset.mem_univ i), ← Finset.add_sum_erase _ g
    (Finset.mem_univ i),
    hother]
  omega

/-- One holder changes its reference. -/
lemma refs_update [DecidableEq ι] (g : ι → Option κ) (i : ι) (o : Option κ) (k : κ) :
    refs (Function.update g i o) k + isRef (g i) k = refs g k + isRef o k := by
  have h := sum_change (fun j => isRef (g j) k) (fun j => isRef (Function.update g i o j) k)
    (i := i) fun j hj => by rw [Function.update_of_ne hj]
  rwa [Function.update_self, ← refs_eq_sum, ← refs_eq_sum] at h

end Xv6.Lib
