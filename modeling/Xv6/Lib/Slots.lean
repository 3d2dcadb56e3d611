import Mathlib.Tactic.Common

/-!
# Tables of slots

A table is a list of slots, each of which is free or holds a key with a value.  If no key is held
twice, the table is a finite map: `lookup` is its value at a key, filling a free slot adds one
binding, and clearing a slot removes one.
-/

namespace Xv6.Lib.Slots

variable {κ ν : Type} [DecidableEq κ] {l : List (Option (κ × ν))} {k k' : κ} {v : ν} {i j : ℕ}
  {o : Option (κ × ν)}

/-- The value of the first slot with this key. -/
def lookup (l : List (Option (κ × ν))) (k : κ) : Option ν :=
  l.findSome? fun o => o.bind fun p => if p.1 = k then some p.2 else none

/-- No key is held by two slots. -/
def Distinct (l : List (Option (κ × ν))) : Prop :=
  ∀ (i j : ℕ) (p q : κ × ν), l[i]? = some (some p) → l[j]? = some (some q) → p.1 = q.1 → i = j

omit [DecidableEq κ] in
lemma distinct_iff_pairwise : Distinct l ↔ l.Pairwise fun o o' => ∀ p ∈ o, ∀ q ∈ o', p.1 ≠ q.1 := by
  rw [List.pairwise_iff_getElem]
  constructor
  · intro h i j hi hj hij p hp q hq hpq
    have := h i j p q (by rw [List.getElem?_eq_getElem hi, hp])
      (by rw [List.getElem?_eq_getElem hj, hq]) hpq
    omega
  · intro h i j p q hp hq hpq
    obtain ⟨hi, hp⟩ := List.getElem?_eq_some_iff.1 hp
    obtain ⟨hj, hq⟩ := List.getElem?_eq_some_iff.1 hq
    rcases Nat.lt_trichotomy i j with hij | hij | hij
    · exact absurd hpq (h i j hi hj hij p hp q hq)
    · exact hij
    · exact absurd hpq.symm (h j i hj hi hij q hq p hp)

instance (l : List (Option (κ × ν))) :
    Decidable (Distinct l) := decidable_of_iff' _ distinct_iff_pairwise

/-- Fill slot `i`, which may be the one after the last. -/
def put (l : List (Option (κ × ν))) (i : ℕ) (o : Option (κ × ν)) : List (Option (κ × ν)) :=
  if i < l.length then l.set i o else l ++ [o]

omit [DecidableEq κ] in
lemma getElem?_put (hi : i ≤ l.length) : (put l i o)[j]? = if j = i then some o else l[j]? := by
  rw [put]
  split
  · rename_i hlt
    rw [List.getElem?_set]
    by_cases hji : i = j
    · subst hji
      simp [hlt]
    · simp [hji, Ne.symm hji]
  · obtain rfl : i = l.length := by omega
    by_cases hj : j = l.length
    · simp [hj]
    · rw [if_neg hj, List.getElem?_append]
      split
      · rfl
      · rw [List.getElem?_eq_none (by simp; omega), List.getElem?_eq_none (by omega)]

lemma lookup_cons_of_ne (h : ∀ v, o ≠ some (k, v)) : lookup (o :: l) k = lookup l k := by
  rw [lookup, List.findSome?_cons, lookup]
  cases o with
  | none => rfl
  | some p =>
      obtain ⟨k', v⟩ := p
      have hk : k' ≠ k := fun hk => h v (by rw [hk])
      simp [hk]

lemma lookup_cons_self : lookup (some (k, v) :: l) k = some v := by
  simp [lookup]

lemma lookup_eq_none : lookup l k = none ↔ ∀ (i : ℕ) (v : ν), l[i]? ≠ some (some (k, v)) := by
  rw [lookup, List.findSome?_eq_none_iff]
  constructor
  · intro h i v hi
    have := h _ (List.mem_of_getElem? hi)
    simp at this
  · intro h o ho
    obtain ⟨i, hi⟩ := List.mem_iff_getElem?.1 ho
    cases o with
    | none => rfl
    | some p =>
        obtain ⟨k', v⟩ := p
        by_cases hk : k' = k
        · subst hk
          exact absurd hi (h i v)
        · simp [hk]

lemma exists_of_lookup (h : lookup l k = some v) : ∃ i : ℕ, l[i]? = some (some (k, v)) := by
  obtain ⟨o, ho, hv⟩ := List.exists_of_findSome?_eq_some h
  obtain ⟨i, hi⟩ := List.mem_iff_getElem?.1 ho
  cases o with
  | none => exact absurd hv (by simp)
  | some p =>
      simp only [Option.bind_some, Option.ite_none_right_eq_some, Option.some.injEq] at hv
      exact ⟨i, by rw [hi, ← hv.1, ← hv.2]⟩

namespace Distinct

lemma lookup_of_slot (h : Distinct l) (hi : l[i]? = some (some (k, v))) : lookup l k = some v := by
  cases hv : lookup l k with
  | none => exact absurd hi (lookup_eq_none.1 hv i v)
  | some w =>
      obtain ⟨j, hj⟩ := exists_of_lookup hv
      obtain rfl := h i j _ _ hi hj rfl
      rw [hi] at hj
      simpa using hj.symm

lemma lookup_eq_some (h : Distinct l) : lookup l k = some v ↔
    ∃ i : ℕ, l[i]? = some (some (k, v)) :=
  ⟨exists_of_lookup, fun ⟨_, hi⟩ => h.lookup_of_slot hi⟩

/-- Filling a free slot with a new key keeps the keys distinct. -/
lemma put_new (h : Distinct l) (hi : i ≤ l.length) (hnew : lookup l k = none) :
    Distinct (put l i (some (k, v))) := by
  rw [lookup_eq_none] at hnew
  rintro a b ⟨k₁, v₁⟩ ⟨k₂, v₂⟩ ha hb hk
  obtain rfl : k₁ = k₂ := hk
  rw [getElem?_put hi] at ha hb
  split at ha <;> split at hb
  · omega
  · cases ha
    exact absurd hb (hnew b v₂)
  · cases hb
    exact absurd ha (hnew a v₁)
  · exact h a b _ _ ha hb rfl

omit [DecidableEq κ] in
lemma clear (h : Distinct l) (hi : i ≤ l.length) : Distinct (put l i none) := by
  intro a b p q ha hb hpq
  rw [getElem?_put hi] at ha hb
  split at ha
  · exact absurd ha (by simp)
  split at hb
  · exact absurd hb (by simp)
  exact h a b p q ha hb hpq

/-- Filling a free slot with a new key adds one binding. -/
lemma lookup_put (h : Distinct l) (hi : i ≤ l.length) (hfree : ∀ p, l[i]? ≠ some (some p))
    (hnew : lookup l k = none) :
    lookup (put l i (some (k, v))) k' = if k' = k then some v else lookup l k' := by
  have hd := h.put_new hi hnew (v := v)
  split
  · rename_i heq
    subst heq
    exact hd.lookup_of_slot (i := i) (by rw [getElem?_put hi, if_pos rfl])
  · rename_i hne
    ext w
    rw [hd.lookup_eq_some, h.lookup_eq_some]
    refine exists_congr fun j => ?_
    rw [getElem?_put hi]
    split
    · rename_i hji
      subst hji
      simp [hfree, Ne.symm hne]
    · rfl

/-- Clearing a slot removes its binding. -/
lemma lookup_clear (h : Distinct l) (hi : l[i]? = some (some (k, v))) :
    lookup (put l i none) k' = if k' = k then none else lookup l k' := by
  have hle : i ≤ l.length := Nat.le_of_lt (List.getElem?_eq_some_iff.1 hi).1
  have hd := h.clear hle
  split
  · rename_i heq
    subst heq
    rw [lookup_eq_none]
    intro j w hj
    rw [getElem?_put hle] at hj
    split at hj
    · exact absurd hj (by simp)
    · rename_i hji
      exact hji (h j i _ _ hj hi rfl)
  · rename_i hne
    ext w
    rw [hd.lookup_eq_some, h.lookup_eq_some]
    refine exists_congr fun j => ?_
    rw [getElem?_put hle]
    split
    · rename_i hji
      subst hji
      simp [hi, Ne.symm hne]
    · rfl

end Distinct

end Xv6.Lib.Slots
