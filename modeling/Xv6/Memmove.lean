import Mathlib.Data.Nat.ModEq
import Mathlib.Logic.Function.Basic

/-!
# `memmove`

The kernel has a `memmove` (`string.c`) and the user library has another one (`ulib.c`).  That of
the kernel copies from the end if the destination begins inside of the source; the other one always
copies from the start.  If the ranges overlap in this way it repeats the bytes before the
destination.

Pointers are 32-bit words.  A range may end with the address space, so that the pointer behind it is
0.
-/

namespace Xv6

/-- The bytes of the address space. -/
abbrev Memory : Type := ℕ → UInt8

namespace Memory

/-- `while(n-- > 0) *d++ = *s++`. -/
def copyUp : ℕ → ℕ → ℕ → Memory → Memory
  | 0, _, _, m => m
  | n + 1, d, s, m => copyUp n ((d + 1) % 2 ^ 32) ((s + 1) % 2 ^ 32) (Function.update m d (m s))

/-- `while(n-- > 0) *--d = *--s`. -/
def copyDown : ℕ → ℕ → ℕ → Memory → Memory
  | 0, _, _, m => m
  | n + 1, d, s, m =>
      let d := (d + 2 ^ 32 - 1) % 2 ^ 32
      let s := (s + 2 ^ 32 - 1) % 2 ^ 32
      copyDown n d s (Function.update m d (m s))

end Memory

open Memory

/-- `memmove` of the kernel. -/
def memmove (dst src n : ℕ) (m : Memory) : Memory :=
  if src < dst ∧ dst < (src + n) % 2 ^ 32 then copyDown n ((dst + n) % 2 ^ 32)
    ((src + n) % 2 ^ 32) m
  else copyUp n dst src m

/-- `memmove` of the user library, where `n` is an `int`. -/
def Ulib.memmove (dst src : ℕ) (n : ℤ) (m : Memory) : Memory := copyUp n.toNat dst src m

section

variable {m : Memory} {dst src n a : ℕ}

/-! ## The loops -/

/-- A copy from the start to a place that is not inside of what is still to be read. -/
lemma Memory.copyUp_apply (hd : dst + n ≤ 2 ^ 32) (hs : src + n ≤ 2 ^ 32)
    (h : dst ≤ src ∨ src + n ≤ dst) :
    copyUp n dst src m a = if dst ≤ a ∧ a < dst + n then m (src + (a - dst)) else m a := by
  induction n generalizing dst src m with
  | zero => rw [copyUp, if_neg (by omega)]
  | succ n ih =>
      by_cases hn : n = 0
      · subst hn
        rw [copyUp, copyUp, Function.update_apply]
        by_cases had : a = dst
        · rw [if_pos had, if_pos (by omega), had, Nat.sub_self, Nat.add_zero]
        · rw [if_neg had, if_neg (by omega)]
      · rw [copyUp, Nat.mod_eq_of_lt (by omega), Nat.mod_eq_of_lt (by omega), ih (by omega)
          (by omega) (by omega)]
        by_cases had : a = dst
        · rw [if_neg (by omega), if_pos (by omega), had, Function.update_self,
            Nat.sub_self, Nat.add_zero]
        · -- the byte that has been stored is not read again
          rw [Function.update_of_ne had]
          split
          · rw [if_pos (by omega), Function.update_of_ne (by omega)]
            congr 1
            omega
          · rw [if_neg (by omega)]

/-- A copy from the start to a place inside of what is still to be read repeats the bytes before
it. -/
lemma Memory.copyUp_overlap {k : ℕ} (hk : 0 < k) (hd : src + k + n ≤ 2 ^ 32) :
    copyUp n (src + k) src m a = if src + k ≤ a ∧ a < src + k + n then m (src + (a - src) % k)
      else m a := by
  induction n generalizing src m with
  | zero => rw [copyUp, if_neg (by omega)]
  | succ n ih =>
      have hfirst : ∀ m' : Memory, copyUp n ((src + k + 1) % 2 ^ 32) ((src + 1) % 2 ^ 32) m' =
          copyUp n (src + 1 + k) (src + 1) m' := fun m' => by
        by_cases hn : n = 0
        · rw [hn, copyUp, copyUp]
        · rw [Nat.mod_eq_of_lt (by omega), Nat.mod_eq_of_lt (by omega), Nat.add_right_comm]
      rw [copyUp, hfirst, ih (by omega)]
      by_cases had : a = src + k
      · rw [if_neg (by omega), if_pos (by omega), had, Function.update_self,
          Nat.add_sub_cancel_left, Nat.mod_self,
          Nat.add_zero]
      · rw [Function.update_of_ne had]
        split
        · have hmod : src + 1 + (a - (src + 1)) % k = src + k ∧ (a - src) % k = 0 ∨
              src + 1 + (a - (src + 1)) % k ≠ src + k ∧ src + 1 + (a - (src + 1)) % k =
              src + (a - src) % k := by
            have hlt := Nat.mod_lt (a - (src + 1)) hk
            have hsucc : (a - src) % k = ((a - (src + 1)) % k + 1) % k := by
              rw [Nat.mod_add_mod, show a - (src + 1) + 1 = a - src by omega]
            rw [hsucc]
            by_cases hlast : (a - (src + 1)) % k + 1 = k
            · exact .inl ⟨by omega, by rw [hlast, Nat.mod_self]⟩
            · rw [Nat.mod_eq_of_lt (by omega : (a - (src + 1)) % k + 1 < k)]
              exact .inr ⟨by omega, by omega⟩
          rw [if_pos (by omega)]
          rcases hmod with ⟨heq, hzero⟩ | ⟨hne, heq⟩
          · rw [heq, Function.update_self, hzero, Nat.add_zero]
          · rw [Function.update_of_ne hne, heq]
        · rw [if_neg (by omega)]

/-- A copy from the end to a place behind what is still to be read. -/
lemma Memory.copyDown_apply (hd : dst + n ≤ 2 ^ 32) (h : src < dst) :
    copyDown n ((dst + n) % 2 ^ 32) (src + n) m a = if dst ≤ a ∧ a < dst + n then
      m (src + (a - dst)) else m a := by
  induction n generalizing m with
  | zero => rw [copyDown, if_neg (by omega)]
  | succ n ih =>
      have hdst : ((dst + (n + 1)) % 2 ^ 32 + 2 ^ 32 - 1) % 2 ^ 32 = dst + n := by omega
      have hsrc : (src + (n + 1) + 2 ^ 32 - 1) % 2 ^ 32 = src + n := by omega
      have hnext := ih (m := Function.update m (dst + n) (m (src + n))) (by omega)
      rw [Nat.mod_eq_of_lt (by omega)] at hnext
      rw [copyDown]
      simp only [hdst, hsrc]
      rw [hnext]
      by_cases had : a = dst + n
      · rw [if_neg (by omega), if_pos (by omega), had, Function.update_self,
          Nat.add_sub_cancel_left]
      · rw [Function.update_of_ne had]
        split
        · rw [if_pos (by omega), Function.update_of_ne (by omega)]
        · rw [if_neg (by omega)]

/-! ## Both functions -/

/-- The bytes of the source are copied as they were before the call, and no others change, whether
the ranges overlap or not. -/
theorem memmove_snapshot (hd : dst + n ≤ 2 ^ 32) (hs : src + n ≤ 2 ^ 32) (a : ℕ) :
    memmove dst src n m a = if dst ≤ a ∧ a < dst + n then m (src + (a - dst)) else m a := by
  by_cases h : src < dst ∧ dst < (src + n) % 2 ^ 32
  · rw [memmove, if_pos h, Nat.mod_eq_of_lt (by omega : src + n < 2 ^ 32), copyDown_apply hd h.1]
  · -- if the source ends with the address space, the destination cannot begin behind its start
    rw [memmove, if_neg h, copyUp_apply hd hs (by omega)]

theorem memmove_snapshot_overlap : memmove 1 0 2 (fun i => if i = 0 then 7 else 8) 2 = 8 :=
  memmove_snapshot (by decide) (by decide) 2

/-- The user library's `memmove` gives the same memory as the kernel's if the destination does not
begin inside of the source, and otherwise just if the bytes that are moved repeat those before the
destination. -/
theorem ulib_memmove_agrees_iff {n : ℤ} (hn : 0 ≤ n) (hd : dst + n ≤ 2 ^ 32)
    (hs : src + n ≤ 2 ^ 32) :
    Ulib.memmove dst src n m = memmove dst src n.toNat m ↔
      (src < dst → dst < src + n → ∀ i < n.toNat, m (src + i) = m (src + i % (dst - src))) := by
  obtain ⟨k, rfl⟩ : ∃ k : ℕ, n = k := ⟨n.toNat, by omega⟩
  rw [Ulib.memmove, Int.toNat_natCast, funext_iff]
  have hkernel := fun a => memmove_snapshot (m := m) (by omega : dst + k ≤ 2 ^ 32)
    (by omega : src + k ≤ 2 ^ 32) a
  by_cases hin : src < dst ∧ dst < src + k
  · obtain ⟨o, rfl⟩ : ∃ o, dst = src + o := ⟨dst - src, by omega⟩
    have hlib := fun a => copyUp_overlap (m := m) (a := a) (by omega : 0 < o)
      (by omega : src + o + k ≤ 2 ^ 32)
    refine ⟨fun h _ _ i hi => ?_, fun h a => ?_⟩
    · have hat := h (src + o + i)
      rw [hlib, hkernel, if_pos (by omega), if_pos (by omega), show src + o + i - src = o +
        i by omega, Nat.add_mod_left,
        Nat.add_sub_cancel_left] at hat
      rw [Nat.add_sub_cancel_left, hat]
    · rw [hlib, hkernel]
      split
      · have hat := h (by omega) (by omega) (a - (src + o)) (by omega)
        rw [Nat.add_sub_cancel_left] at hat
        rw [hat, show a - src = o + (a - (src + o)) by omega, Nat.add_mod_left]
      · rfl
  · refine ⟨fun _ hlt hlt' => absurd ⟨hlt, by omega⟩ hin, fun _ a => ?_⟩
    rw [hkernel, copyUp_apply (by omega) (by omega) (by omega)]

theorem ulib_memmove_agrees_iff_behind : Ulib.memmove 0 1 2 (fun i => if i = 0 then 7 else 8) =
    memmove 0 1 2 (fun i => if i = 0 then 7 else 8) :=
  (ulib_memmove_agrees_iff (by decide) (by decide) (by decide)).2 fun h => absurd h (by decide)

/-- Two bytes are moved up by one: the library copies the first one twice. -/
theorem ulib_memmove_repeats : Ulib.memmove 1 0 2 (fun i => if i = 0 then 7 else 8) 2 = 7 ∧
    memmove 1 0 2 (fun i => if i = 0 then 7 else 8) 2 = 8 := by
  decide

end

end Xv6
