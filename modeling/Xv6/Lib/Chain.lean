import Mathlib.Data.List.Nodup
import Mathlib.Logic.Function.Basic

/-!
# Singly linked lists with a pointer to the first node

`Holds r l` says that the nodes met from the head along the links are those of `l`, each once.
Appending walks to the link that is empty, as `for(pp = &head; *pp; pp = &(*pp)->next)` does, and
stores the new node there.
-/

namespace Xv6.Lib

variable {α : Type}

/-- Where a pointer is stored: in the head, or in a node. -/
inductive Link (α : Type)
  | head
  | next (a : α)
deriving DecidableEq

/-- The pointers. -/
structure Chain (α : Type) where
  head : Option α
  next : α → Option α

namespace Chain

variable {r : Chain α} {o : Option α} {k : Link α} {a b : α} {l : List α} {n : ℕ}

/-- What is stored. -/
def read (r : Chain α) : Link α → Option α
  | .head => r.head
  | .next a => r.next a

/-- Store a pointer. -/
def write [DecidableEq α] (r : Chain α) (k : Link α) (o : Option α) : Chain α :=
  match k with
  | .head => { r with head := o }
  | .next a => { r with next := Function.update r.next a o }

/-- The nodes from a pointer on. -/
def Nodes (r : Chain α) : Option α → List α → Prop
  | o, [] => o = none
  | o, a :: l => o = some a ∧ r.Nodes (r.next a) l

/-- The nodes of the list. -/
def Holds (r : Chain α) (l : List α) : Prop := l.Nodup ∧ r.Nodes r.head l

/-- Walk to the empty link, over at most `n` links. -/
def last (r : Chain α) : ℕ → Link α → Option (Link α)
  | 0, _ => none
  | n + 1, k =>
      match r.read k with
      | none => some k
      | some a => r.last n (.next a)

/-- Append a node. -/
def append [DecidableEq α] (r : Chain α) (n : ℕ) (b : α) : Option (Chain α) :=
  let r := r.write (.next b) none
  (r.last n .head).map fun k => r.write k (some b)

/-- The head goes to the second node. -/
def drop (r : Chain α) (a : α) : Chain α := { r with head := r.next a }

lemma read_write_self [DecidableEq α] : (r.write k o).read k = o := by
  cases k with
  | head => rfl
  | next a => exact Function.update_self ..

lemma read_write_of_ne [DecidableEq α] {j : Link α} (h : j ≠ k) :
    (r.write k o).read j = r.read j := by
  cases k with
  | head =>
      cases j with
      | head => exact absurd rfl h
      | next a => rfl
  | next a =>
      cases j with
      | head => rfl
      | next x => exact Function.update_of_ne (fun heq : x = a => h (by rw [heq])) _ _

/-- The nodes do not depend on the links of others. -/
lemma Nodes.congr {r' : Chain α} (h : r.Nodes o l) (heq : ∀ a ∈ l, r'.next a = r.next a) :
    r'.Nodes o l := by
  induction l generalizing o with
  | nil => exact h
  | cons x l ih =>
      refine ⟨h.1, ?_⟩
      rw [heq x List.mem_cons_self]
      exact ih h.2 fun a ha => heq a (List.mem_cons_of_mem _ ha)

/-- The link after all the nodes. -/
def Link.after (k : Link α) (l : List α) : Link α :=
  match l.getLast? with
  | none => k
  | some a => .next a

lemma Link.after_cons : Link.after k (a :: l) = Link.after (.next a) l := by
  cases hl : l.getLast? with
  | none =>
      obtain rfl := List.getLast?_eq_none_iff.1 hl
      rfl
  | some x => simp [Link.after, List.getLast?_cons, hl]

lemma Link.exists_after_next : ∃ x ∈ a :: l, Link.after (.next a) l = .next x := by
  cases hl : l.getLast? with
  | none => exact ⟨a, List.mem_cons_self, by simp [Link.after, hl]⟩
  | some x => exact ⟨x, List.mem_cons_of_mem _ (List.mem_of_getLast? hl), by simp [Link.after, hl]⟩

lemma last_eq (h : r.Nodes (r.read k) l) (hn : l.length < n) :
    r.last n k = some (Link.after k l) := by
  induction l generalizing k n with
  | nil =>
      obtain ⟨n, rfl⟩ := Nat.exists_eq_succ_of_ne_zero (Nat.ne_of_gt hn)
      rw [last, show r.read k = none from h]
      rfl
  | cons a l ih =>
      obtain ⟨n, rfl⟩ := Nat.exists_eq_succ_of_ne_zero (Nat.ne_of_gt (Nat.zero_lt_of_lt hn))
      rw [last, h.1, Link.after_cons]
      exact ih h.2 (Nat.lt_of_succ_lt_succ hn)

/-- Storing a node at the link after the others adds it to them. -/
lemma Nodes.write_after [DecidableEq α] (h : r.Nodes (r.read k) l) (hl : l.Nodup)
    (hk : ∀ a, k = .next a → a ∉ l ∧ a ≠ b)
    (hb : b ∉ l) (hnext : r.next b = none) :
    (r.write (Link.after k l) (some b)).Nodes ((r.write (Link.after k l) (some b)).read k)
    (l ++ [b]) := by
  induction l generalizing k with
  | nil =>
      have hne : Link.next b ≠ k := fun heq => (hk b heq.symm).2 rfl
      exact ⟨read_write_self, (read_write_of_ne (j := .next b) hne).trans hnext⟩
  | cons x l ih =>
      obtain ⟨hx, hl⟩ := List.nodup_cons.1 hl
      have hxb : x ≠ b := fun heq => hb (heq ▸ List.mem_cons_self)
      rw [Link.after_cons]
      have hrest := ih (k := .next x) h.2 hl (fun a ha => by cases ha; exact ⟨hx, hxb⟩)
        fun hmem => hb (List.mem_cons_of_mem _ hmem)
      refine ⟨?_, hrest⟩
      obtain ⟨y, hy, hafter⟩ := Link.exists_after_next (a := x) (l := l)
      rw [read_write_of_ne fun heq => (hk y (heq.trans hafter)).1 hy]
      exact h.1

/-- Appending a new node. -/
lemma Holds.append [DecidableEq α] (h : r.Holds l) (hb : b ∉ l) (hn : l.length < n) :
    ∃ r', r.append n b = some r' ∧ r'.Holds (l ++ [b]) := by
  have hnodes : (r.write (.next b) none).Nodes ((r.write (.next b) none).read .head) l :=
    h.2.congr fun a ha => read_write_of_ne (j := .next a) fun heq => by cases heq; exact hb ha
  refine ⟨_, by rw [Chain.append, last_eq hnodes hn]; rfl, ?_, ?_⟩
  · exact List.nodup_append.2 ⟨h.1, List.nodup_singleton b, fun a ha x hx heq =>
      hb (List.mem_singleton.1 hx ▸ heq ▸ ha)⟩
  · exact hnodes.write_after h.1 (fun a ha => by cases ha) hb
      (read_write_self (k := .next b))

/-- Taking off the first node. -/
lemma Holds.drop (h : r.Holds (a :: l)) : (r.drop a).Holds l :=
  ⟨(List.nodup_cons.1 h.1).2, h.2.2.congr fun _ _ => rfl⟩

lemma Holds.head_eq (h : r.Holds l) : r.head = l.head? := by
  cases l with
  | nil => exact h.2
  | cons a l => exact h.2.1

end Chain

end Xv6.Lib
