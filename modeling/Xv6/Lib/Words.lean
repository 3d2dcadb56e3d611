import Mathlib.Algebra.Group.Nat.Defs
import Mathlib.Tactic.Common
import Mathlib.Data.Nat.Notation

/-!
# Words in a memory of bytes

Memory is a function from addresses to bytes.  `load32` and `store32` are the accesses to a
little-endian 32-bit word.
-/

namespace Xv6.Lib

variable {m m' : ℕ → UInt8} {a b v x : ℕ}

/-- Load a word. -/
def load32 (m : ℕ → UInt8) (a : ℕ) : ℕ :=
  (m a).toNat + 2 ^ 8 * (m (a + 1)).toNat + 2 ^ 16 * (m (a + 2)).toNat + 2 ^ 24 * (m (a + 3)).toNat

/-- Store a word. -/
def store32 (m : ℕ → UInt8) (a v : ℕ) : ℕ → UInt8 := fun x =>
  if a ≤ x ∧ x < a + 4 then UInt8.ofNat (v / 2 ^ (8 * (x - a))) else m x

lemma store32_of_disj (h : x < a ∨ a + 4 ≤ x) : store32 m a v x = m x := if_neg (by omega)

/-- Only the four bytes of the word count. -/
lemma load32_congr (h : ∀ x, a ≤ x → x < a + 4 → m' x = m x) : load32 m' a = load32 m a := by
  rw [load32, load32, h a (by omega) (by omega), h (a + 1) (by omega) (by omega), h (a + 2)
    (by omega) (by omega),
    h (a + 3) (by omega) (by omega)]

lemma load32_store32_of_disj (h : b + 4 ≤ a ∨ a + 4 ≤ b) : load32 (store32 m a v) b = load32 m b :=
  load32_congr fun x _ _ => store32_of_disj (by omega)

lemma load32_store32_self (hv : v < 2 ^ 32) : load32 (store32 m a v) a = v := by
  have hbyte : ∀ i < 4, store32 m a v (a + i) = UInt8.ofNat (v / 2 ^ (8 * i)) := by
    intro i hi
    rw [store32, if_pos ⟨by omega, by omega⟩, Nat.add_sub_cancel_left]
  have hfirst : store32 m a v a = UInt8.ofNat v := by simpa using hbyte 0 (by omega)
  rw [load32, hfirst, hbyte 1 (by omega), hbyte 2 (by omega), hbyte 3 (by omega)]
  simp only [UInt8.toNat_ofNat']
  omega

end Xv6.Lib
