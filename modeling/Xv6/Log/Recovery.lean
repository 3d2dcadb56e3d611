import Xv6.Log
import Mathlib.Tactic.Linarith

/-!
# What a disk recovers to

A disk on which the header names `n` logged blocks stands for the contents that recovery
will give it: the home location of a logged block has the contents of the log, every other
block outside of the log area its own.  `Recovers g V d n` says that this is `V`.  The
lemmas below are the effects that the sector writes of `log.c` have on it.
-/

namespace Xv6

open Lib

/-- Where the log is: `initlog` puts its header at `start`, its blocks behind it, and the
log area ends with the file system. -/
structure Geometry where
  start : ℕ
  size : ℕ
  disksize : ℕ
  size_pos : 0 < size
  le_disksize : start + size ≤ disksize
  disksize_le : disksize ≤ 2 ^ 31

namespace Geometry

/-- A sector outside of the log area. -/
def Home (g : Geometry) (s : ℕ) : Prop := s < g.start ∨ g.start + g.size ≤ s

instance (g : Geometry) (s : ℕ) : Decidable (g.Home s) :=
  inferInstanceAs (Decidable (s < g.start ∨ g.start + g.size ≤ s))

end Geometry

/-! ## The header block -/

section Header

variable {lh : LogHeader} {d : Block} {n : ℕ}

/-- The number of logged blocks that a header block claims. -/
def headCount (d : Block) : ℤ := d.getInt 0

/-- The sector number at a position of a header block. -/
def headSector (d : Block) (i : ℕ) : ℕ := d.get32 (4 + 4 * i)

lemma getInt_encode_fold (l : List ℕ) (f : ℕ → ℕ) (d : Block) :
    (l.foldl (fun d i => d.set32 (4 + 4 * i) (f i)) d).getInt 0 = d.getInt 0 := by
  induction l generalizing d with
  | nil => rfl
  | cons i l ih =>
      rw [List.foldl_cons, ih]
      exact Bytes.getInt_set32_of_disj (by omega)

lemma get32_encode_fold (f : ℕ → ℕ) (d : Block) (hn : n ≤ LOGSIZE) {j : ℕ} (hj : j < n) :
    ((List.range n).foldl (fun d i => d.set32 (4 + 4 * i) (f i)) d).get32 (4 + 4 * j) =
      f j % 2 ^ 32 := by
  induction n with
  | zero => omega
  | succ n ih =>
      rw [List.range_succ, List.foldl_append, List.foldl_cons, List.foldl_nil]
      by_cases hjn : j = n
      · subst hjn
        exact Bytes.get32_set32_self (by simp only [BSIZE, LOGSIZE] at *; omega)
      · rw [Bytes.get32_set32_of_disj (by omega)]
        exact ih (by omega) (by omega)

lemma headCount_encode (h : lh.n = n) (hn : n ≤ LOGSIZE) : headCount (lh.encode d) = n := by
  unfold headCount LogHeader.encode
  rw [getInt_encode_fold, h]
  exact Bytes.getInt_setInt_self (by simp [BSIZE]) (by omega)
    (by simp only [LOGSIZE] at hn; omega)

lemma headSector_encode (h : lh.n = n) (hn : n ≤ LOGSIZE) {i : ℕ} (hi : i < n)
    (hs : lh.sector i < 2 ^ 32) : headSector (lh.encode d) i = lh.sector i := by
  unfold headSector LogHeader.encode
  rw [h, Int.toNat_natCast, get32_encode_fold lh.sector _ hn hi]
  exact Nat.mod_eq_of_lt hs

end Header

/-! ## Recoverable disks -/

/-- Recovery of the disk `d`, whose header names `n` blocks, gives the contents `V`. -/
structure Recovers (g : Geometry) (V d : ℕ → Block) (n : ℕ) : Prop where
  count : headCount (d g.start) = n
  le_logsize : n ≤ LOGSIZE
  lt_size : n < g.size
  home : ∀ i < n, g.Home (headSector (d g.start) i)
  lt_disksize : ∀ i < n, headSector (d g.start) i < g.disksize
  inj : ∀ i < n, ∀ j < n, headSector (d g.start) i = headSector (d g.start) j → i = j
  logged : ∀ i < n, d (g.start + i + 1) = V (headSector (d g.start) i)
  rest : ∀ s, g.Home s → (∀ i < n, headSector (d g.start) i ≠ s) → d s = V s

namespace Recovers

variable {g : Geometry} {V d : ℕ → Block} {n : ℕ}

lemma home_ne_start {s : ℕ} (hs : g.Home s) : g.start ≠ s := by
  have := g.size_pos
  rcases hs with hs | hs <;> omega

lemma home_ne_block {s i : ℕ} (hs : g.Home s) (hi : i + 1 < g.size) : g.start + i + 1 ≠ s := by
  rcases hs with hs | hs <;> omega

/-- An empty header: the disk itself holds the contents. -/
lemma of_empty (hc : headCount (d g.start) = 0) (hV : ∀ s, g.Home s → d s = V s) :
    Recovers g V d 0 :=
  ⟨by simpa using hc, by simp, g.size_pos, by simp, by simp, by simp, by simp,
    fun s hs _ => hV s hs⟩

/-- Writing a log block while the header is empty changes nothing. -/
lemma write_block (h : Recovers g V d 0) {s : ℕ} {b : Block} (hlo : g.start < s)
    (hhi : s < g.start + g.size) : Recovers g V (Function.update d s b) 0 := by
  have hstart : Function.update d s b g.start = d g.start := Function.update_of_ne (by omega) _ _
  refine of_empty (by rw [hstart]; simpa using h.count) ?_
  intro t ht
  have hts : t ≠ s := by rcases ht with ht | ht <;> omega
  rw [Function.update_of_ne hts]
  exact h.rest t ht (by simp)

/-- Installing a logged block changes nothing. -/
lemma write_install (h : Recovers g V d n) {i : ℕ} (hi : i < n) :
    Recovers g V (Function.update d (headSector (d g.start) i) (d (g.start + i + 1))) n := by
  have hstart : Function.update d (headSector (d g.start) i) (d (g.start + i + 1)) g.start =
      d g.start := Function.update_of_ne (home_ne_start (h.home i hi)) _ _
  refine ⟨by rw [hstart]; exact h.count, h.le_logsize, h.lt_size, by rw [hstart]; exact h.home,
    by rw [hstart]; exact h.lt_disksize, by rw [hstart]; exact h.inj, ?_, ?_⟩
  · intro j hj
    rw [hstart, Function.update_of_ne
      (home_ne_block (h.home i hi) (by have := h.lt_size; omega))]
    exact h.logged j hj
  · intro s hs hne
    rw [hstart] at hne
    rw [Function.update_of_ne (hne i hi).symm]
    exact h.rest s hs hne

/-- Erasing the header once every block is installed changes nothing. -/
lemma write_erase (h : Recovers g V d n)
    (hinst : ∀ i < n, d (headSector (d g.start) i) = V (headSector (d g.start) i))
    {b : Block} (hb : headCount b = 0) : Recovers g V (Function.update d g.start b) 0 := by
  refine of_empty (by simpa using hb) ?_
  intro s hs
  rw [Function.update_of_ne (home_ne_start hs).symm]
  by_cases hex : ∃ i < n, headSector (d g.start) i = s
  · obtain ⟨i, hi, rfl⟩ := hex
    exact hinst i hi
  · exact h.rest s hs (fun i hi hs' => hex ⟨i, hi, hs'⟩)

end Recovers

/-- Some number of blocks is logged on the disk, and it recovers to `V`. -/
def RecoversTo (g : Geometry) (V d : ℕ → Block) : Prop := ∃ n, Recovers g V d n

end Xv6
