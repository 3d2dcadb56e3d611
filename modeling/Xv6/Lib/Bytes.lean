import Mathlib.Tactic.Common
import Mathlib.Tactic.IntervalCases
import Mathlib.Data.Int.Notation
import Mathlib.Data.Nat.Notation
import Mathlib.Data.List.GetD
import Mathlib.Data.List.TakeWhile

/-!
# Fixed-size byte regions

Sectors and pages are arrays of bytes that the code reads through pointers to integers.
A region of `n` bytes is a function on `Fin n`; `get32` and `set32` are the loads and
stores of a 32-bit little-endian word, and `getInt` and `setInt` the same for an `int`.
`blit` copies bytes into a part of a region and `slice` copies a part out of it; `bitAt`,
`setBit` and `clearBit` see a region as an array of bits.  `overwrite` writes bytes to a list.
-/

namespace Xv6.Lib

/-- A region of `n` bytes. -/
abbrev Bytes (n : ℕ) : Type := Fin n → UInt8

namespace Bytes

variable {n : ℕ}

/-- The byte at offset `i`; a read outside of the region gives `0`. -/
def byteAt (b : Bytes n) (i : ℕ) : UInt8 := if h : i < n then b ⟨i, h⟩ else 0

/-- Store one byte; a store outside of the region does nothing. -/
def setByte (b : Bytes n) (i : ℕ) (v : UInt8) : Bytes n := fun j => if j.val = i then v else b j

/-- Load a little-endian 32-bit word. -/
def get32 (b : Bytes n) (i : ℕ) : ℕ :=
  (b.byteAt i).toNat + 2 ^ 8 * (b.byteAt (i + 1)).toNat + 2 ^ 16 * (b.byteAt (i + 2)).toNat +
    2 ^ 24 * (b.byteAt (i + 3)).toNat

/-- Store a little-endian 32-bit word. -/
def set32 (b : Bytes n) (i v : ℕ) : Bytes n :=
  (((b.setByte i (UInt8.ofNat v)).setByte (i + 1) (UInt8.ofNat (v / 2 ^ 8))).setByte (i + 2)
    (UInt8.ofNat (v / 2 ^ 16))).setByte (i + 3) (UInt8.ofNat (v / 2 ^ 24))

/-- Load a 32-bit word as a signed `int`. -/
def getInt (b : Bytes n) (i : ℕ) : ℤ := Int.bmod (b.get32 i) (2 ^ 32)

/-- Store an `int`. -/
def setInt (b : Bytes n) (i : ℕ) (v : ℤ) : Bytes n := b.set32 i (v % 2 ^ 32).toNat

lemma byteAt_setByte_self {b : Bytes n} {i : ℕ} {v : UInt8} (h : i < n) :
    (b.setByte i v).byteAt i = v := by
  simp [byteAt, setByte, h]

lemma byteAt_setByte_of_ne {b : Bytes n} {i j : ℕ} {v : UInt8} (h : j ≠ i) :
    (b.setByte i v).byteAt j = b.byteAt j := by
  simp [byteAt, setByte, h]

lemma byteAt_set32_of_disj {b : Bytes n} {i j v : ℕ} (h : j < i ∨ i + 4 ≤ j) :
    (b.set32 i v).byteAt j = b.byteAt j := by
  unfold set32
  rw [byteAt_setByte_of_ne (by omega), byteAt_setByte_of_ne (by omega),
    byteAt_setByte_of_ne (by omega), byteAt_setByte_of_ne (by omega)]

lemma get32_set32_of_disj {b : Bytes n} {i j v : ℕ} (h : j + 4 ≤ i ∨ i + 4 ≤ j) :
    (b.set32 i v).get32 j = b.get32 j := by
  unfold get32
  rw [byteAt_set32_of_disj (by omega), byteAt_set32_of_disj (by omega),
    byteAt_set32_of_disj (by omega), byteAt_set32_of_disj (by omega)]

lemma get32_set32_self {b : Bytes n} {i v : ℕ} (h : i + 4 ≤ n) :
    (b.set32 i v).get32 i = v % 2 ^ 32 := by
  have h0 : (b.set32 i v).byteAt i = UInt8.ofNat v := by
    unfold set32
    rw [byteAt_setByte_of_ne (by omega), byteAt_setByte_of_ne (by omega),
      byteAt_setByte_of_ne (by omega), byteAt_setByte_self (by omega)]
  have h1 : (b.set32 i v).byteAt (i + 1) = UInt8.ofNat (v / 2 ^ 8) := by
    unfold set32
    rw [byteAt_setByte_of_ne (by omega), byteAt_setByte_of_ne (by omega),
      byteAt_setByte_self (by omega)]
  have h2 : (b.set32 i v).byteAt (i + 2) = UInt8.ofNat (v / 2 ^ 16) := by
    unfold set32
    rw [byteAt_setByte_of_ne (by omega), byteAt_setByte_self (by omega)]
  have h3 : (b.set32 i v).byteAt (i + 3) = UInt8.ofNat (v / 2 ^ 24) := by
    unfold set32
    rw [byteAt_setByte_self (by omega)]
  unfold get32
  rw [h0, h1, h2, h3]
  simp only [UInt8.toNat_ofNat']
  omega

lemma get32_zero (i : ℕ) : get32 (fun _ : Fin n => 0) i = 0 := by
  have hbyte : ∀ j, byteAt (fun _ : Fin n => 0) j = 0 := by
    intro j
    rw [byteAt]
    split <;> rfl
  simp [get32, hbyte]

lemma get32_lt (b : Bytes n) (i : ℕ) : b.get32 i < 2 ^ 32 := by
  have h0 := (b.byteAt i).toNat_lt
  have h1 := (b.byteAt (i + 1)).toNat_lt
  have h2 := (b.byteAt (i + 2)).toNat_lt
  have h3 := (b.byteAt (i + 3)).toNat_lt
  unfold get32
  omega

lemma getInt_setInt_self {b : Bytes n} {i : ℕ} {v : ℤ} (h : i + 4 ≤ n)
    (hlo : -2 ^ 31 ≤ v) (hhi : v < 2 ^ 31) : (b.setInt i v).getInt i = v := by
  unfold getInt setInt
  rw [get32_set32_self h]
  rw [Int.bmod_def]
  split <;> omega

lemma getInt_set32_of_disj {b : Bytes n} {i j v : ℕ} (h : j + 4 ≤ i ∨ i + 4 ≤ j) :
    (b.set32 i v).getInt j = b.getInt j := by
  unfold getInt
  rw [get32_set32_of_disj h]

/-! ## Copying parts of a region -/

/-- Load a little-endian 16-bit word. -/
def get16 (b : Bytes n) (i : ℕ) : ℕ := (b.byteAt i).toNat + 2 ^ 8 * (b.byteAt (i + 1)).toNat

/-- Copy the `m` bytes `f 0, f 1, …` to offset `o`. -/
def blit (b : Bytes n) (o m : ℕ) (f : ℕ → UInt8) : Bytes n :=
  fun j => if o ≤ j.val ∧ j.val < o + m then f (j.val - o) else b j

/-- The `m` bytes from offset `o` on. -/
def slice (b : Bytes n) (o m : ℕ) : List UInt8 := (List.range m).map fun j => b.byteAt (o + j)

lemma byteAt_blit {b : Bytes n} {o m j : ℕ} {f : ℕ → UInt8} (h : o + m ≤ n) :
    (b.blit o m f).byteAt j = if o ≤ j ∧ j < o + m then f (j - o) else b.byteAt j := by
  by_cases hj : j < n
  · simp [byteAt, blit, hj]
  · have hout : ¬ (o ≤ j ∧ j < o + m) := by omega
    simp [byteAt, hj, hout]

lemma byteAt_blit_of_disj {b : Bytes n} {o m j : ℕ} {f : ℕ → UInt8} (h : j < o ∨ o + m ≤ j) :
    (b.blit o m f).byteAt j = b.byteAt j := by
  have hout : ¬ (o ≤ j ∧ j < o + m) := by omega
  simp [byteAt, blit, hout]

lemma get16_blit_of_disj {b : Bytes n} {o m j : ℕ} {f : ℕ → UInt8} (h : j + 2 ≤ o ∨ o + m ≤ j) :
    (b.blit o m f).get16 j = b.get16 j := by
  rw [get16, get16, byteAt_blit_of_disj (by omega), byteAt_blit_of_disj (by omega)]

lemma get32_blit_of_disj {b : Bytes n} {o m j : ℕ} {f : ℕ → UInt8} (h : j + 4 ≤ o ∨ o + m ≤ j) :
    (b.blit o m f).get32 j = b.get32 j := by
  rw [get32, get32, byteAt_blit_of_disj (by omega), byteAt_blit_of_disj (by omega),
    byteAt_blit_of_disj (by omega), byteAt_blit_of_disj (by omega)]

/-- A 16-bit word copied to `j` as its two bytes. -/
lemma get16_blit {b : Bytes n} {o m j v : ℕ} {f : ℕ → UInt8} (h : o + m ≤ n) (hlo : o ≤ j)
    (hhi : j + 2 ≤ o + m) (h0 : f (j - o) = UInt8.ofNat v)
    (h1 : f (j + 1 - o) = UInt8.ofNat (v / 2 ^ 8)) :
    (b.blit o m f).get16 j = v % 2 ^ 16 := by
  rw [get16, byteAt_blit h, byteAt_blit h, if_pos (by omega), if_pos (by omega), h0, h1]
  simp only [UInt8.toNat_ofNat']
  omega

/-- A 32-bit word copied to `j` as its four bytes. -/
lemma get32_blit {b : Bytes n} {o m j v : ℕ} {f : ℕ → UInt8} (h : o + m ≤ n) (hlo : o ≤ j)
    (hhi : j + 4 ≤ o + m) (hf : ∀ k < 4, f (j + k - o) = UInt8.ofNat (v / 2 ^ (8 * k))) :
    (b.blit o m f).get32 j = v % 2 ^ 32 := by
  rw [get32, byteAt_blit h, byteAt_blit h, byteAt_blit h, byteAt_blit h, if_pos (by omega),
    if_pos (by omega), if_pos (by omega), if_pos (by omega), hf 1 (by omega), hf 2 (by omega),
    hf 3 (by omega)]
  have h0 := hf 0 (by omega)
  simp only [Nat.add_zero, Nat.mul_zero, Nat.pow_zero, Nat.div_one] at h0
  rw [h0]
  simp only [UInt8.toNat_ofNat']
  omega

lemma length_slice {b : Bytes n} {o m : ℕ} : (b.slice o m).length = m := by
  simp [slice]

/-- What has been copied into a region is read back. -/
lemma slice_blit {b : Bytes n} {o m : ℕ} {f : ℕ → UInt8} (h : o + m ≤ n) :
    (b.blit o m f).slice o m = (List.range m).map f := by
  refine List.map_congr_left fun j hj => ?_
  have hj' := List.mem_range.1 hj
  rw [byteAt_blit h, if_pos (by omega), Nat.add_sub_cancel_left]

/-- The first `n` bytes of a list that is continued with zeros. -/
lemma map_range_getD (t : List UInt8) (n : ℕ) :
    ((List.range n).map fun j => t.getD j 0) = t.take n ++ List.replicate (n - t.length) 0 := by
  refine List.ext_getElem (by simp; omega) fun j hj hj' => ?_
  rw [List.getElem_map, List.getElem_range]
  by_cases hlt : j < t.length
  · rw [List.getD_eq_getElem _ _ hlt, List.getElem_append_left (by simp at hj ⊢; omega),
      List.getElem_take]
  · rw [List.getD_eq_default _ _ (by omega), List.getElem_append_right (by simp; omega),
      List.getElem_replicate]

lemma takeWhile_append_replicate {l : List UInt8} (n : ℕ) (h : ∀ a ∈ l, a ≠ 0) :
    (l ++ List.replicate n 0).takeWhile (· ≠ 0) = l := by
  rw [List.takeWhile_append_of_pos (by simpa using h)]
  cases n <;> simp [List.replicate_succ]

/-! ## Bits of a region -/

/-- `1 << i` as a byte. -/
def mask (i : ℕ) : UInt8 := (1 : UInt8) <<< UInt8.ofNat i

/-- Is bit `i` of the region set? -/
def bitAt (b : Bytes n) (i : ℕ) : Bool := (b.byteAt (i / 8) &&& mask (i % 8)) != 0

/-- Set bit `i` of the region. -/
def setBit (b : Bytes n) (i : ℕ) : Bytes n :=
  b.setByte (i / 8) (b.byteAt (i / 8) ||| mask (i % 8))

/-- Clear bit `i` of the region. -/
def clearBit (b : Bytes n) (i : ℕ) : Bytes n :=
  b.setByte (i / 8) (b.byteAt (i / 8) &&& ~~~ mask (i % 8))

lemma mask_toBitVec {i : ℕ} (h : i < 8) : (mask i).toBitVec = BitVec.twoPow 8 i := by
  interval_cases i <;> rfl

lemma bitAt_eq_getLsbD {b : Bytes n} {i : ℕ} :
    b.bitAt i = (b.byteAt (i / 8)).toBitVec.getLsbD (i % 8) := by
  have hi : i % 8 < 8 := Nat.mod_lt _ (by omega)
  have hne : BitVec.twoPow 8 (i % 8) ≠ 0#8 := by
    generalize i % 8 = j at hi
    interval_cases j <;> decide
  rw [bitAt, Bool.eq_iff_iff, bne_iff_ne, ← UInt8.toBitVec_inj.ne, UInt8.toBitVec_and,
    mask_toBitVec hi, BitVec.and_twoPow]
  cases hx : (b.byteAt (i / 8)).toBitVec.getLsbD (i % 8) <;> simp [hne]

lemma bitAt_setBit {b : Bytes n} {i j : ℕ} (h : i / 8 < n) :
    (b.setBit i).bitAt j = (b.bitAt j || decide (i = j)) := by
  rw [bitAt_eq_getLsbD, bitAt_eq_getLsbD, setBit]
  by_cases hij : j / 8 = i / 8
  · have heq : i % 8 = j % 8 ↔ i = j := by omega
    rw [hij, byteAt_setByte_self h, UInt8.toBitVec_or, BitVec.getLsbD_or,
      mask_toBitVec (Nat.mod_lt _ (by omega)), BitVec.getLsbD_twoPow]
    simp [Nat.mod_lt, heq]
  · have hne : i ≠ j := by
      rintro rfl
      exact hij rfl
    rw [byteAt_setByte_of_ne hij]
    simp [hne]

lemma bitAt_clearBit {b : Bytes n} {i j : ℕ} (h : i / 8 < n) :
    (b.clearBit i).bitAt j = (b.bitAt j && !decide (i = j)) := by
  rw [bitAt_eq_getLsbD, bitAt_eq_getLsbD, clearBit]
  by_cases hij : j / 8 = i / 8
  · have heq : i % 8 = j % 8 ↔ i = j := by omega
    have hj : j % 8 < 8 := Nat.mod_lt _ (by omega)
    rw [hij, byteAt_setByte_self h, UInt8.toBitVec_and, UInt8.toBitVec_not, BitVec.getLsbD_and,
      BitVec.getLsbD_not, mask_toBitVec (Nat.mod_lt _ (by omega)), BitVec.getLsbD_twoPow]
    simp [Nat.mod_lt, heq, hj]
  · have hne : i ≠ j := by
      rintro rfl
      exact hij rfl
    rw [byteAt_setByte_of_ne hij]
    simp [hne]

/-- Clearing a bit that was clear before it was set gives the region back. -/
lemma clearBit_setBit {b : Bytes n} {i : ℕ} (h : i / 8 < n) (hbit : b.bitAt i = false) :
    (b.setBit i).clearBit i = b := by
  have hmask : (b.byteAt (i / 8) ||| mask (i % 8)) &&& ~~~ mask (i % 8) = b.byteAt (i / 8) := by
    have hand : b.byteAt (i / 8) &&& mask (i % 8) = 0 := by simpa [bitAt] using hbit
    rw [← UInt8.toBitVec_inj] at hand ⊢
    ext j hj
    have hj' := congrArg (fun v : BitVec 8 => v.getLsbD j) hand
    simp at hj' ⊢
    grind
  funext j
  rw [clearBit, setBit, byteAt_setByte_self h, hmask, setByte, setByte]
  split
  · rename_i hj
    rw [byteAt, dif_pos h]
    exact congrArg b (Fin.ext hj.symm)
  · rfl

end Bytes

/-! ## Lists of bytes -/

section Overwrite

variable {α : Type}

/-- Replace the part of a list from `off` on by `bytes`; the list grows if they go beyond its
end. -/
def overwrite (l : List α) (off : ℕ) (bytes : List α) : List α :=
  l.take off ++ bytes ++ l.drop (off + bytes.length)

lemma overwrite_map_range {f src : ℕ → α} {n off m : ℕ} (h : m ≠ 0 → off ≤ n) :
    overwrite ((List.range n).map f) off ((List.range m).map src) =
      (List.range (if m = 0 then n else max n (off + m))).map fun o =>
        if off ≤ o ∧ o < off + m then src (o - off) else f o := by
  by_cases hm : m = 0
  · subst hm
    simp [overwrite]
  · have hoff := h hm
    rw [overwrite, if_neg hm]
    apply List.ext_getElem
    · simp only [List.length_append, List.length_take, List.length_map, List.length_range,
        List.length_drop]
      omega
    · intro i h₁ h₂
      simp only [List.getElem_append, List.getElem_map, List.getElem_range, List.getElem_take,
        List.getElem_drop, List.length_append, List.length_take, List.length_map, List.length_range,
        min_eq_left hoff]
      split
      · split
        · rw [if_neg (by omega)]
        · rw [if_pos (by omega)]
      · rw [if_neg (by omega)]
        congr 1
        omega

lemma length_overwrite {l bytes : List α} {off : ℕ} (h : off ≤ l.length) :
    (overwrite l off bytes).length = max l.length (off + bytes.length) := by
  simp only [overwrite, List.length_append, List.length_take, List.length_drop]
  omega

lemma length_le_length_overwrite (l bytes : List α) (off : ℕ) :
    l.length ≤ (overwrite l off bytes).length := by
  simp only [overwrite, List.length_append, List.length_take, List.length_drop]
  omega

/-- What is read before the place of writing. -/
lemma take_drop_overwrite_before {l bytes : List α} {off o n : ℕ} (h : off ≤ l.length)
    (ho : o + n ≤ off) :
    ((overwrite l off bytes).drop o).take n = (l.drop o).take n := by
  rw [overwrite, List.append_assoc, List.drop_append_of_le_length (by rw [List.length_take]; omega),
    List.take_append_of_le_length (by rw [List.length_drop, List.length_take]; omega),
    List.drop_take,
    List.take_take, min_eq_left (by omega)]

/-- What is read at the place of writing. -/
lemma take_drop_overwrite_self {l bytes : List α} {off : ℕ} (h : off ≤ l.length) :
    ((overwrite l off bytes).drop off).take bytes.length = bytes := by
  rw [overwrite, List.append_assoc, List.drop_append_of_le_length (by rw [List.length_take]; omega),
    List.drop_eq_nil_of_le (by rw [List.length_take]; omega), List.nil_append, List.take_left]

/-- What is read behind the place of writing. -/
lemma drop_overwrite_after {l bytes : List α} {off o : ℕ} (h : off ≤ l.length)
    (ho : off + bytes.length ≤ o) :
    (overwrite l off bytes).drop o = l.drop o := by
  have hlen : (l.take off ++ bytes).length = off + bytes.length := by
    rw [List.length_append, List.length_take, min_eq_left h]
  rw [overwrite, List.drop_append, List.drop_eq_nil_of_le (by rw [hlen]; exact ho),
    List.nil_append, hlen,
    List.drop_drop]
  congr 1
  omega

/-- Bytes that are put behind those that were put there before. -/
lemma overwrite_overwrite {l bytes bytes' : List α} {off : ℕ} (h : off ≤ l.length) :
    overwrite (overwrite l off bytes) (off + bytes.length) bytes' =
      overwrite l off (bytes ++ bytes') := by
  have hlen : off + bytes.length = (l.take off ++ bytes).length := by
    rw [List.length_append, List.length_take, min_eq_left h]
  have hrest : (overwrite l off bytes).drop (off + bytes.length + bytes'.length) =
      l.drop (off + (bytes ++ bytes').length) := by
    rw [overwrite, hlen, List.drop_length_add_append, List.drop_drop, ← hlen, List.length_append,
      Nat.add_assoc]
  rw [overwrite, hrest, overwrite, overwrite, hlen, List.take_left]
  simp only [List.append_assoc]

end Overwrite

end Xv6.Lib
