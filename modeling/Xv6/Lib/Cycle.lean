import Mathlib.Data.List.Nodup

/-!
# Lists linked in a circle

The nodes of a circular list are linked by a function `next`.  `Leads next l b` says that the nodes
of `l` are met one after the other and that `b` comes behind the last one; a circle is a list that
leads back to its head.
-/

namespace Xv6.Lib

variable {α : Type} {next next' : α → α} {l l₁ l₂ : List α} {a b c : α}

/-- The nodes of the list are linked in this order, the last one to `b`. -/
def Leads (next : α → α) : List α → α → Prop
  | [], _ => True
  | a :: l, b => next a = l.headD b ∧ Leads next l b

lemma headD_append : (l₁ ++ l₂).headD b = l₁.headD (l₂.headD b) := by cases l₁ <;> rfl

lemma leads_append : Leads next (l₁ ++ l₂) b ↔ Leads next l₁ (l₂.headD b) ∧ Leads next l₂ b := by
  induction l₁ with
  | nil => exact (and_iff_right trivial).symm
  | cons a l₁ ih => rw [List.cons_append, Leads, Leads, headD_append, ih, and_assoc]

namespace Leads

lemma congr (h : Leads next l b) (hnext : ∀ a ∈ l, next' a = next a) : Leads next' l b := by
  induction l with
  | nil => trivial
  | cons a l ih =>
      exact ⟨(hnext a List.mem_cons_self).trans h.1, ih h.2 fun c hc =>
        hnext c (List.mem_cons_of_mem a hc)⟩

/-- A circle can be entered anywhere. -/
lemma rotate (h : Leads next (l₁ ++ a :: l₂) ((l₁ ++ a :: l₂).headD b)) :
    Leads next (a :: (l₂ ++ l₁)) a := by
  obtain ⟨h₁, h₂⟩ := leads_append.1 h
  rw [headD_append] at h₂
  rw [← List.cons_append]
  exact leads_append.2 ⟨h₂, h₁⟩

/-- The node in front of the last one's successor. -/
lemma next_getLast (h : Leads next (a :: l) b) : next (l.getLastD a) = b := by
  induction l generalizing a with
  | nil => exact h.1
  | cons c l ih =>
      rw [List.getLastD_cons]
      exact ih h.2

lemma next_mem (h : Leads next l b) (ha : a ∈ l) : next a ∈ l.tail ∨ next a = b := by
  induction l with
  | nil => exact absurd ha List.not_mem_nil
  | cons c l ih =>
      rcases List.mem_cons.1 ha with rfl | ha
      · rw [h.1]
        cases l with
        | nil => exact .inr rfl
        | cons d l => exact .inl List.mem_cons_self
      · exact (ih h.2 ha).imp_left List.mem_of_mem_tail

/-- No two nodes have the same successor. -/
lemma inj (h : Leads next l b) (hnodup : l.tail.Nodup) (hb : b ∉ l.tail) (ha : a ∈ l) (hc : c ∈ l)
    (heq : next a = next c) :
    a = c := by
  induction l with
  | nil => exact absurd ha List.not_mem_nil
  | cons d l ih =>
      -- the successor of the head is the head of the rest, which is no one's successor there
      have hhead : ∀ x ∈ l, next d ≠ next x := by
        intro x hx hxd
        cases l with
        | nil => exact absurd hx List.not_mem_nil
        | cons e l =>
            have hd : next d = e := h.1
            rcases h.2.next_mem hx with hmem | hxb
            · rw [← hxd, hd] at hmem
              exact (List.nodup_cons.1 hnodup).1 hmem
            · rw [← hxd, hd] at hxb
              exact hb (hxb ▸ List.mem_cons_self)
      rcases List.mem_cons.1 ha with had | hal <;> rcases List.mem_cons.1 hc with hcd | hcl
      · exact had.trans hcd.symm
      · exact absurd (had ▸ heq) (hhead c hcl)
      · exact absurd (hcd ▸ heq).symm (hhead a hal)
      · exact ih h.2 (hnodup.sublist (List.tail_sublist l))
          (fun hmem => hb (List.mem_of_mem_tail hmem)) hal hcl

end Leads

/-- Follow `next` from `a`, over at most `n` nodes, to the first node with the property. -/
def seek (next : α → α) (P : α → Bool) : ℕ → α → Option α
  | 0, _ => none
  | n + 1, a => if P a then some a else seek next P n (next a)

/-- The first node of the list with the property is found. -/
lemma Leads.seek {P : α → Bool} {n : ℕ} (h : Leads next l b) (hfind : l.find? P = some a)
    (hn : l.length ≤ n) :
    seek next P n (l.headD b) = some a := by
  induction l generalizing n with
  | nil => exact absurd hfind (by simp)
  | cons c l ih =>
      obtain ⟨n, rfl⟩ : ∃ k, n = k + 1 := ⟨n - 1, by rw [List.length_cons] at hn; omega⟩
      rw [List.headD_cons, Lib.seek]
      by_cases hc : P c = true
      · rw [List.find?_cons_of_pos hc] at hfind
        rw [if_pos hc]
        exact hfind
      · rw [List.find?_cons_of_neg hc] at hfind
        rw [if_neg hc, h.1]
        exact ih h.2 hfind (by rw [List.length_cons] at hn; omega)

/-- In a circle, the only node with the property is found from any node. -/
lemma Leads.seek_circle {P : α → Bool} {n : ℕ} (h : Leads next (b :: l) b) (ha : a ∈ b :: l)
    (hc : c ∈ b :: l) (hP : P c = true) (honly : ∀ x ∈ b :: l, P x = true → x = c)
    (hn : l.length + 1 ≤ n) :
    Lib.seek next P n a = some c := by
  obtain ⟨l₁, l₂, hl⟩ := List.append_of_mem ha
  have hcircle : Leads next (a :: (l₂ ++ l₁)) a := by
    refine Leads.rotate (b := b) ?_
    rw [← hl]
    exact h
  have hmem : ∀ x, x ∈ a :: (l₂ ++ l₁) ↔ x ∈ b :: l := by
    intro x
    rw [hl]
    simp only [List.mem_cons, List.mem_append]
    tauto
  have hfind : (a :: (l₂ ++ l₁)).find? P = some c := by
    obtain ⟨x, hx⟩ := Option.isSome_iff_exists.1 (List.find?_isSome.2 ⟨c, (hmem c).2 hc, hP⟩)
    rw [hx, honly x ((hmem x).1 (List.mem_of_find?_eq_some hx)) (List.find?_some hx)]
  refine hcircle.seek hfind ?_
  have hlen := congrArg List.length hl
  simp only [List.length_cons, List.length_append] at hlen ⊢
  omega

end Xv6.Lib
