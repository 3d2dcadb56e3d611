import Mathlib.Algebra.Group.Nat.Defs
import Mathlib.Data.List.Basic
import Mathlib.Logic.Function.Basic

/-!
# Ring buffers with free-running counters

A buffer of `m` places is used through two 32-bit counters: what was put in last is at place
`w - 1` modulo `m`, what is taken out next at place `r` modulo `m`.  The counters are never
reduced; they wrap around at `2 ^ 32`, which `m` divides.  `content` is the list of what is in
the buffer, and the lemmas say what putting in and taking out do to it.
-/

namespace Xv6.Lib.Ring

variable {β : Type} {data : ℕ → β} {m : ℕ} {r w : UInt32} {b : β}

/-- How many places are in use. -/
def count (r w : UInt32) : ℕ := (w - r).toNat

/-- What is in the buffer, the oldest first. -/
def content (data : ℕ → β) (m : ℕ) (r w : UInt32) : List β :=
  (List.range (count r w)).map fun k => data ((r.toNat + k) % m)

@[simp] lemma length_content : (content data m r w).length = count r w := by simp [content]

lemma count_eq_zero : count r w = 0 ↔ r = w := by
  rw [count, ← UInt32.toNat_zero, UInt32.toNat_inj, UInt32.sub_eq_iff_eq_add, UInt32.zero_add]
  exact eq_comm

lemma content_eq_nil : content data m r w = [] ↔ r = w := by
  rw [← List.length_eq_zero_iff, length_content, count_eq_zero]

/-- The buffer is full iff the counters differ by its size. -/
lemma count_eq_iff {n : UInt32} : count r w = n.toNat ↔ w = r + n := by
  rw [count, UInt32.toNat_inj, UInt32.sub_eq_iff_eq_add, UInt32.add_comm]

lemma count_inj {e : UInt32} : count r e = count r w ↔ e = w := by
  rw [count, count, UInt32.toNat_inj, UInt32.sub_left_inj]

lemma count_add {e : UInt32} (h : count r w ≤ count r e) : count r w + count w e = count r e := by
  rw [count, count, UInt32.toNat_sub, UInt32.toNat_sub] at h
  rw [count, count, count, UInt32.toNat_sub, UInt32.toNat_sub, UInt32.toNat_sub]
  have := r.toNat_lt
  have := w.toNat_lt
  have := e.toNat_lt
  omega

lemma count_put (h : count r w < 2 ^ 32 - 1) : count r (w + 1) = count r w + 1 := by
  rw [count, UInt32.toNat_sub] at h
  rw [count, count, UInt32.toNat_sub, UInt32.toNat_sub, UInt32.toNat_add]
  have := r.toNat_lt
  have := w.toNat_lt
  simp only [UInt32.toNat_one]
  omega

lemma count_take (h : r ≠ w) : count (r + 1) w + 1 = count r w := by
  have hpos : count r w ≠ 0 := fun hz => h (count_eq_zero.1 hz)
  rw [count, UInt32.toNat_sub] at hpos
  rw [count, count, UInt32.toNat_sub, UInt32.toNat_sub, UInt32.toNat_add]
  have := r.toNat_lt
  have := w.toNat_lt
  simp only [UInt32.toNat_one]
  omega

lemma count_back (h : r ≠ w) : count r (w - 1) + 1 = count r w := by
  have hw := UInt32.sub_add_cancel w 1
  have hlt : count r (w - 1) < 2 ^ 32 - 1 := by
    have hpos : count r w ≠ 0 := fun hz => h (count_eq_zero.1 hz)
    rw [count, UInt32.toNat_sub] at hpos
    rw [count, UInt32.toNat_sub, UInt32.toNat_sub]
    have := r.toNat_lt
    have := w.toNat_lt
    simp only [UInt32.toNat_one]
    omega
  rw [← count_put hlt, hw]

/-- The place of the next byte, counted from the oldest. -/
lemma place_eq (hm : m ∣ 2 ^ 32) : (r.toNat + count r w) % m = w.toNat % m := by
  obtain ⟨c, hc⟩ := hm
  have hmod : (r.toNat + count r w) % 2 ^ 32 = w.toNat % 2 ^ 32 := by
    rw [count, UInt32.toNat_sub]
    have := r.toNat_lt
    have := w.toNat_lt
    omega
  rw [hc] at hmod
  rw [← Nat.mod_mul_right_mod _ m c, hmod, Nat.mod_mul_right_mod]

/-- The last place. -/
lemma content_succ (hm : m ∣ 2 ^ 32) (h : count r w < 2 ^ 32 - 1) :
    content data m r (w + 1) = content data m r w ++ [data (w.toNat % m)] := by
  rw [content, count_put h, List.range_succ, List.map_append, List.map_singleton, place_eq hm]
  rfl

lemma content_back (hm : m ∣ 2 ^ 32) (h : r ≠ w) :
    content data m r w = content data m r (w - 1) ++ [data ((w - 1).toNat % m)] := by
  have hcount := count_back h
  have hlt := (w - r).toNat_lt
  rw [← count] at hlt
  rw [← content_succ hm (by omega), UInt32.sub_add_cancel]

/-- The place behind the last is not one that is in use. -/
lemma place_ne {e : UInt32} {k : ℕ} (hm : m ∣ 2 ^ 32) (hk : k < count r e) (h : count r e < m) :
    (r.toNat + k) % m ≠ e.toNat % m := by
  rw [← place_eq (r := r) hm]
  intro heq
  have hsub := Nat.sub_mod_eq_zero_of_mod_eq heq.symm
  rw [Nat.add_sub_add_left] at hsub
  have hzero := Nat.eq_zero_of_dvd_of_lt (Nat.dvd_of_mod_eq_zero hsub) (by omega)
  omega

lemma content_update {e : UInt32} (hm : m ∣ 2 ^ 32) (hle : count r w ≤ count r e)
    (h : count r e < m) :
    content (Function.update data (e.toNat % m) b) m r w = content data m r w := by
  refine List.map_congr_left fun k hk => Function.update_of_ne ?_ _ _
  rw [List.mem_range] at hk
  exact place_ne hm (by omega) h

/-- Putting in. -/
lemma content_put (hm : m ∣ 2 ^ 32) (hlt : m < 2 ^ 32) (h : count r w < m) :
    content (Function.update data (w.toNat % m) b) m r (w + 1) = content data m r w ++ [b] := by
  rw [content_succ hm (by omega), content_update hm (Nat.le_refl _) h, Function.update_self]

/-- Taking out. -/
lemma content_take (hm : m ∣ 2 ^ 32) (h : r ≠ w) :
    content data m r w = data (r.toNat % m) :: content data m (r + 1) w := by
  rw [content, ← count_take h, List.range_succ_eq_map, List.map_cons, List.map_map, Nat.add_zero]
  congr 1
  refine List.map_congr_left fun k _ => congrArg data ?_
  obtain ⟨c, hc⟩ := hm
  have hmod : (r.toNat + (k + 1)) % 2 ^ 32 = ((r + 1).toNat + k) % 2 ^ 32 := by
    rw [UInt32.toNat_add, UInt32.toNat_one]
    omega
  rw [hc] at hmod
  show (r.toNat + (k + 1)) % m = _
  rw [← Nat.mod_mul_right_mod _ m c, hmod, Nat.mod_mul_right_mod]

end Xv6.Lib.Ring
