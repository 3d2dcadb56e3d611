import Xv6.Fs
import Xv6.Lib.Owner

/-!
# Who owns which block

An image of the disk is a function from block numbers to blocks.  An inode owns the blocks of
its `addrs` and, through its indirect block, those of the entries there: `slotOf` numbers these
places.  `Good` is the invariant of an image with the inodes `ino`: owned blocks and set bits
of the bitmap correspond, no file has a hole below its size, and the entries of directories
name inodes of the file system.
-/

namespace Xv6

open Lib

/-! ## The areas of an image -/

namespace Superblock

variable (sb : Superblock)

/-- The first data block: after the inode blocks and the bitmap blocks. -/
def dataStart : ℕ := sb.ninodes / IPB + 3 + (sb.size / BPB + 1)

/-- The first block of the log, which has the last `nlog` blocks. -/
def logStart : ℕ := sb.size - sb.nlog

lemma iblock_lt {x : ℕ} (hx : x < sb.ninodes) : IBLOCK x < sb.ninodes / IPB + 3 := by
  simp only [IBLOCK, IPB]
  omega

lemma iblock_lt_dataStart {x : ℕ} (hx : x < sb.ninodes) : IBLOCK x < sb.dataStart := by
  simp only [IBLOCK, dataStart, IPB, BPB]
  omega

lemma le_bblock (b : ℕ) : sb.ninodes / IPB + 3 ≤ BBLOCK b sb.ninodes := by
  simp only [BBLOCK, IPB, BPB]
  omega

lemma three_le_bblock (b : ℕ) : 3 ≤ BBLOCK b sb.ninodes :=
  (Nat.le_add_left 3 _).trans (sb.le_bblock b)

lemma bblock_lt_dataStart {b : ℕ} (hb : b < sb.size) : BBLOCK b sb.ninodes < sb.dataStart := by
  simp only [BBLOCK, dataStart, IPB, BPB]
  omega

lemma three_le_dataStart : 3 ≤ sb.dataStart := by
  simp only [dataStart, IPB, BPB]
  omega

end Superblock

/-! ## Slots -/

/-- The inode that an image has for number `x`. -/
def dinodeAt (h : ℕ → Block) (x : ℕ) : DInode := DInode.decode (h (IBLOCK x)) (Fs.inodeOffset x)

/-- The bit of the bitmap for block `b`. -/
def bitOf (sb : Superblock) (h : ℕ → Block) (b : ℕ) : Bool :=
  (h (BBLOCK b sb.ninodes)).bitAt (b % BPB)

/-- The block in the `k`-th place of an inode: first the places of `addrs`, the last of which
has the indirect block, and then the entries of the indirect block. -/
def slotOf (h : ℕ → Block) (v : DInode) (k : ℕ) : ℕ :=
  if k ≤ NDIRECT then v.addr k
  else if v.addr NDIRECT = 0 then 0
  else (h (v.addr NDIRECT)).get32 (4 * (k - NDIRECT - 1))

/-- The place of the `bn`-th block of a file. -/
def fileSlot (bn : ℕ) : ℕ := if bn < NDIRECT then bn else bn + 1

/-- Number of places of an inode. -/
def NSLOT : ℕ := NDIRECT + 1 + NINDIRECT

lemma NSLOT_eq : NSLOT = 141 := rfl

/-- The block that place `l.2` of inode `l.1` holds, if the inode is allocated. -/
def own (sb : Superblock) (h : ℕ → Block) (ino : ℕ → DInode) (l : ℕ × ℕ) : Option ℕ :=
  if l.1 < sb.ninodes ∧ (ino l.1).type ≠ 0 ∧ slotOf h (ino l.1) l.2 ≠ 0 then
    some (slotOf h (ino l.1) l.2)
  else none

/-- Every block of the file below `lim` has an address. -/
def Filled (h : ℕ → Block) (v : DInode) (lim : ℕ) : Prop :=
  ∀ bn, bn * BSIZE < lim → slotOf h v (fileSlot bn) ≠ 0

/-- Every directory entry below `lim` names an inode number of the file system, or none. -/
def Entries (sb : Superblock) (h : ℕ → Block) (v : DInode) (lim : ℕ) : Prop :=
  ∀ off, off % Dirent.SIZE = 0 → off < lim →
    (h (slotOf h v (fileSlot (off / BSIZE)))).get16 (off % BSIZE) < sb.ninodes

/-- The invariant of an image with the inodes `ino`, when the blocks `pend` have been
allocated and not yet been given to an inode.  What directories contain matters for the inodes in
`D` only. -/
structure Good (sb : Superblock) (h : ℕ → Block) (ino : ℕ → DInode) (pend : List ℕ)
    (D : ℕ → Prop := fun _ => True) : Prop where
  owns : Owns (own sb h ino) (fun b => bitOf sb h b = true)
    (fun b => sb.dataStart ≤ b ∧ b < sb.size) pend
  home : ∀ l b, own sb h ino l = some b → b < sb.logStart
  pendHome : ∀ b ∈ pend, b < sb.logStart
  reserved : ∀ b < sb.dataStart, bitOf sb h b = true
  filled : ∀ x < sb.ninodes, (ino x).type ≠ 0 → (ino x).type ≠ T_DEV →
    Filled h (ino x) (ino x).size.toNat
  entries : ∀ x < sb.ninodes, D x → (ino x).type = T_DIR → Entries sb h (ino x) (ino x).size.toNat

variable {sb : Superblock} {h h' : ℕ → Block} {ino ino' : ℕ → DInode} {pend : List ℕ}
  {x k b : ℕ} {v : DInode} {D : ℕ → Prop}

lemma own_eq_some {l : ℕ × ℕ} : own sb h ino l = some b ↔
    l.1 < sb.ninodes ∧ (ino l.1).type ≠ 0 ∧ slotOf h (ino l.1) l.2 = b ∧ b ≠ 0 := by
  unfold own
  split
  · rename_i hl
    constructor
    · intro heq
      obtain rfl := Option.some.inj heq
      exact ⟨hl.1, hl.2.1, rfl, hl.2.2⟩
    · rintro ⟨-, -, rfl, -⟩
      rfl
  · rename_i hl
    constructor
    · intro heq
      exact absurd heq (by simp)
    · rintro ⟨h1, h2, rfl, h3⟩
      exact absurd ⟨h1, h2, h3⟩ hl

lemma own_slotOf (hx : x < sb.ninodes) (ht : (ino x).type ≠ 0)
    (hk : slotOf h (ino x) k ≠ 0) : own sb h ino (x, k) = some (slotOf h (ino x) k) :=
  own_eq_some.2 ⟨hx, ht, rfl, hk⟩

/-- Beyond the indirect block there is nothing. -/
lemma slotOf_of_ge (hk : NSLOT ≤ k) : slotOf h v k = 0 := by
  have hD := NDIRECT_eq
  have hB := BSIZE_eq
  have hk' : 141 ≤ k := hk
  have hout : ∀ i, BSIZE ≤ i → (h (v.addr NDIRECT)).byteAt i = 0 := by
    intro i hi
    simp [Bytes.byteAt, Nat.not_lt.2 hi]
  rw [slotOf, if_neg (by omega)]
  split
  · rfl
  · rw [Bytes.get32, hout _ (by omega), hout _ (by omega), hout _ (by omega), hout _ (by omega)]
    rfl

lemma fileSlot_ne : fileSlot k ≠ NDIRECT := by
  rw [fileSlot]
  split <;> omega

/-- The places of an inode depend on its addresses and on its indirect block. -/
lemma slotOf_congr (hv : ∀ k, k ≤ NDIRECT → v.addr k = (ino x).addr k)
    (hh : v.addr NDIRECT ≠ 0 → h' (v.addr NDIRECT) = h (v.addr NDIRECT)) (k : ℕ) :
    slotOf h' v k = slotOf h (ino x) k := by
  simp only [slotOf]
  split
  · exact hv k ‹_›
  · by_cases hz : v.addr NDIRECT = 0
    · rw [if_pos hz, if_pos (by rw [← hv NDIRECT le_rfl, hz])]
    · rw [if_neg hz, if_neg (by rwa [← hv NDIRECT le_rfl]), hh hz, ← hv NDIRECT le_rfl]

namespace Good

lemma range (g : Good sb h ino pend D) (hx : x < sb.ninodes) (ht : (ino x).type ≠ 0)
    (hk : slotOf h (ino x) k ≠ 0) :
    sb.dataStart ≤ slotOf h (ino x) k ∧ slotOf h (ino x) k < sb.size ∧
      slotOf h (ino x) k < sb.logStart ∧ bitOf sb h (slotOf h (ino x) k) = true := by
  have hown := own_slotOf hx ht hk
  obtain ⟨⟨h1, h2⟩, h3⟩ := g.owns.held _ _ hown
  exact ⟨h1, h2, g.home _ _ hown, h3⟩

/-- Two places hold different blocks. -/
lemma slot_ne (g : Good sb h ino pend D) {y j : ℕ} (hx : x < sb.ninodes) (ht : (ino x).type ≠ 0)
    (hy : y < sb.ninodes) (hyt : (ino y).type ≠ 0) (hne : (x, k) ≠ (y, j))
    (hk : slotOf h (ino x) k ≠ 0) : slotOf h (ino y) j ≠ slotOf h (ino x) k := by
  intro heq
  have hj : slotOf h (ino y) j ≠ 0 := by rwa [heq]
  refine hne (g.owns.inj _ _ _ (own_slotOf hx ht hk) ?_)
  rw [own_slotOf hy hyt hj, heq]

end Good

/-- A place holds the same block in an image that agrees on the owned blocks. -/
lemma slotOf_of_owned (hblk : ∀ l b, own sb h ino l = some b → h' b = h b) (hx : x < sb.ninodes)
    (ht : (ino x).type ≠ 0) (k : ℕ) : slotOf h' (ino x) k = slotOf h (ino x) k := by
  refine slotOf_congr (fun _ _ => rfl) (fun hz => ?_) k
  refine hblk (x, NDIRECT) _ (own_eq_some.2 ⟨hx, ht, ?_, hz⟩)
  simp [slotOf]

lemma own_of_owned (hblk : ∀ l b, own sb h ino l = some b → h' b = h b) (l : ℕ × ℕ) :
    own sb h' ino l = own sb h ino l := by
  unfold own
  by_cases hl : l.1 < sb.ninodes ∧ (ino l.1).type ≠ 0
  · rw [slotOf_of_owned hblk hl.1 hl.2]
  · rw [if_neg fun hc => hl ⟨hc.1, hc.2.1⟩, if_neg fun hc => hl ⟨hc.1, hc.2.1⟩]

lemma T_DIR_ne_zero : T_DIR ≠ 0 := by decide

lemma T_DIR_ne_T_DEV : T_DIR ≠ T_DEV := by decide

namespace Good

/-- The block of a directory entry is owned. -/
lemma entry_slot_ne (g : Good sb h ino pend D) (hx : x < sb.ninodes) (ht : (ino x).type = T_DIR)
    {off : ℕ} (hlt : off < (ino x).size.toNat) :
    slotOf h (ino x) (fileSlot (off / BSIZE)) ≠ 0 :=
  g.filled x hx (by rw [ht]; exact T_DIR_ne_zero) (by rw [ht]; exact T_DIR_ne_T_DEV) (off / BSIZE)
    (lt_of_le_of_lt (Nat.div_mul_le_self off BSIZE) hlt)

/-- An image that agrees on the owned blocks is good if its bitmap is right. -/
lemma of_owned (g : Good sb h ino pend D) {pend' : List ℕ}
    (hblk : ∀ l b, own sb h ino l = some b → h' b = h b)
    (howns : Owns (own sb h ino) (fun b => bitOf sb h' b = true)
      (fun b => sb.dataStart ≤ b ∧ b < sb.size) pend')
    (hpend : ∀ b ∈ pend', b < sb.logStart) (hres : ∀ b < sb.dataStart, bitOf sb h' b = true) :
    Good sb h' ino pend' D := by
  have hown := own_of_owned hblk
  refine ⟨howns.congr hown fun _ _ => Iff.rfl, fun l b hl => g.home l b (by rwa [← hown]), hpend,
    hres, fun x hx ht hd bn hbn => ?_, fun x hx hD ht off ho hlt => ?_⟩
  · rw [slotOf_of_owned hblk hx ht]
    exact g.filled x hx ht hd bn hbn
  · have ht0 : (ino x).type ≠ 0 := by rw [ht]; exact T_DIR_ne_zero
    have hne := g.entry_slot_ne hx ht hlt
    rw [slotOf_of_owned hblk hx ht0, hblk _ _ (own_slotOf hx ht0 hne)]
    exact g.entries x hx hD ht off ho hlt

/-- An image that agrees on the owned blocks and has the same bits is as good. -/
lemma congr (g : Good sb h ino pend D) (hblk : ∀ l b, own sb h ino l = some b → h' b = h b)
    (hbit : ∀ b < sb.size, bitOf sb h' b = bitOf sb h b) (hsize : sb.dataStart ≤ sb.size) :
    Good sb h' ino pend D := by
  refine g.of_owned hblk (g.owns.congr (fun _ => rfl) fun b hb => by rw [hbit b hb.2]) g.pendHome
    fun b hb => ?_
  rw [hbit b (by omega)]
  exact g.reserved b hb

end Good

/-! ## Changes of the bitmap -/

/-- What a superblock must say of an image: there is room for data before the log, and a root
inode. -/
structure Superblock.Sound (sb : Superblock) : Prop where
  small : sb.size < 2 ^ 31
  room : sb.dataStart ≤ sb.logStart
  root : ROOTINO < sb.ninodes

lemma Superblock.Sound.dataStart_le_size (hs : sb.Sound) : sb.dataStart ≤ sb.size :=
  hs.room.trans (Nat.sub_le _ _)

lemma bitOf_update_of_ne {c : ℕ} {d : Block} (hc : BBLOCK b sb.ninodes ≠ c) :
    bitOf sb (Function.update h c d) b = bitOf sb h b := by
  rw [bitOf, bitOf, Function.update_of_ne hc]

/-- The bits after the bit of `b` is set or cleared in its bitmap block. -/
lemma bitOf_setBit (c : ℕ) :
    bitOf sb (Function.update h (BBLOCK b sb.ninodes)
      ((h (BBLOCK b sb.ninodes)).setBit (b % BPB))) c = (bitOf sb h c || decide (b = c)) := by
  have hlt : b % BPB / 8 < BSIZE := by
    simp only [BPB, BSIZE]
    omega
  by_cases hc : BBLOCK c sb.ninodes = BBLOCK b sb.ninodes
  · have heq : b % BPB = c % BPB ↔ b = c := by
      simp only [BBLOCK, BPB] at hc ⊢
      omega
    rw [bitOf, hc, Function.update_self, Bytes.bitAt_setBit hlt, bitOf, hc]
    simp [heq]
  · have hne : b ≠ c := by
      rintro rfl
      exact hc rfl
    rw [bitOf_update_of_ne hc]
    simp [hne]

lemma bitOf_clearBit (c : ℕ) :
    bitOf sb (Function.update h (BBLOCK b sb.ninodes)
      ((h (BBLOCK b sb.ninodes)).clearBit (b % BPB))) c = (bitOf sb h c && !decide (b = c)) := by
  have hlt : b % BPB / 8 < BSIZE := by
    simp only [BPB, BSIZE]
    omega
  by_cases hc : BBLOCK c sb.ninodes = BBLOCK b sb.ninodes
  · have heq : b % BPB = c % BPB ↔ b = c := by
      simp only [BBLOCK, BPB] at hc ⊢
      omega
    rw [bitOf, hc, Function.update_self, Bytes.bitAt_clearBit hlt, bitOf, hc]
    simp [heq]
  · have hne : b ≠ c := by
      rintro rfl
      exact hc rfl
    rw [bitOf_update_of_ne hc]
    simp [hne]

namespace Good

/-- `balloc` of block `b`: its bit is set, and it is zeroed. -/
lemma balloc (g : Good sb h ino pend D) (hs : sb.Sound) (hb : b < sb.logStart)
    (hfree : bitOf sb h b = false) :
    Good sb (Function.update (Function.update h (BBLOCK b sb.ninodes)
      ((h (BBLOCK b sb.ninodes)).setBit (b % BPB))) b fun _ => 0) ino (b :: pend) D := by
  have hsize : b < sb.size := hb.trans_le (Nat.sub_le _ _)
  have hdata : sb.dataStart ≤ b := by
    by_contra hlt
    rw [g.reserved b (by omega)] at hfree
    exact absurd hfree (by simp)
  have hbit : ∀ c, c < sb.size → bitOf sb (Function.update (Function.update h
      (BBLOCK b sb.ninodes) ((h (BBLOCK b sb.ninodes)).setBit (b % BPB))) b fun _ => 0) c =
      (bitOf sb h c || decide (b = c)) := by
    intro c hc
    have := sb.bblock_lt_dataStart hc
    rw [bitOf_update_of_ne (by omega), bitOf_setBit]
  refine g.of_owned (fun l c hl => ?_) ?_ ?_ fun c hc => ?_
  · -- an owned block is neither `b`, which is free, nor a bitmap block
    obtain ⟨⟨hlo, -⟩, hset⟩ := g.owns.held l c hl
    have hcb : c ≠ b := by
      rintro rfl
      rw [hfree] at hset
      exact absurd hset (by simp)
    have := sb.bblock_lt_dataStart hsize
    rw [Function.update_of_ne hcb, Function.update_of_ne (by omega)]
  · refine g.owns.take ⟨hdata, hsize⟩ (by simp [hfree]) fun c hc => ?_
    rw [hbit c hc.2, Bool.or_eq_true, decide_eq_true_eq, eq_comm (a := b)]
  · intro c hc
    rcases List.mem_cons.1 hc with rfl | hc
    · exact hb
    · exact g.pendHome c hc
  · rw [hbit c (hc.trans_le hs.dataStart_le_size), g.reserved c hc]
    rfl

end Good

/-! ## Changes of inodes and their blocks -/

namespace DInode

lemma addr_setAddr {v : DInode} {k b j : ℕ} (hk : k ≤ NDIRECT) (hb : b < 2 ^ 32) :
    (v.setAddr k b).addr j = if j = k then b else v.addr j := by
  by_cases hj : j < NDIRECT + 1
  · rw [addr, dif_pos hj]
    by_cases hjk : j = k
    · rw [if_pos hjk]
      simpa [setAddr, hjk] using hb
    · rw [if_neg hjk, addr, dif_pos hj]
      simp [setAddr, hjk]
  · rw [addr, dif_neg hj, if_neg (by omega), addr, dif_neg hj]

end DInode

/-- A new address changes one place: a new indirect block has no entries. -/
lemma slotOf_setAddr (hk : k ≤ NDIRECT) (hb0 : b ≠ 0) (hb : b < 2 ^ 32) (hzero : v.addr k = 0)
    (hblank : k = NDIRECT → h b = fun _ => 0) (j : ℕ) :
    slotOf h (v.setAddr k b) j = if j = k then b else slotOf h v j := by
  simp only [slotOf, DInode.addr_setAddr hk hb]
  by_cases hj : j ≤ NDIRECT
  · rw [if_pos hj, if_pos hj]
  · rw [if_neg hj, if_neg hj, if_neg (show ¬ j = k by omega)]
    by_cases hkd : k = NDIRECT
    · rw [← hkd, if_pos rfl, if_neg hb0, hblank hkd, hzero, if_pos rfl]
      simp [Bytes.get32, Bytes.byteAt]
    · simp only [if_neg (Ne.symm hkd)]

/-- A new entry of the indirect block changes one place. -/
lemma slotOf_setEntry {c j : ℕ} (hind : v.addr NDIRECT = c) (hc0 : c ≠ 0) (hj : j < NINDIRECT)
    (hb : b < 2 ^ 32) (k : ℕ) : slotOf (Function.update h c ((h c).set32 (4 * j) b)) v k =
      if k = NDIRECT + 1 + j then b else slotOf h v k := by
  have hjN : 4 * j + 4 ≤ BSIZE := by
    have : NINDIRECT = 128 := rfl
    have : BSIZE = 512 := rfl
    omega
  simp only [slotOf, hind, if_neg hc0, Function.update_self]
  by_cases hk : k ≤ NDIRECT
  · rw [if_pos hk, if_pos hk, if_neg (by omega)]
  · rw [if_neg hk, if_neg hk]
    by_cases hkj : k = NDIRECT + 1 + j
    · rw [if_pos hkj, show k - NDIRECT - 1 = j by omega, Bytes.get32_set32_self hjN,
        Nat.mod_eq_of_lt hb]
    · rw [if_neg hkj, Bytes.get32_set32_of_disj (by omega)]

namespace Good

/-- Replacing inode `x` by one that owns the same blocks. -/
lemma setIno (g : Good sb h ino pend D)
    (hown : ∀ k, own sb h (Function.update ino x v) (x, k) = own sb h ino (x, k))
    (hfilled : v.type ≠ 0 → v.type ≠ T_DEV → Filled h v v.size.toNat)
    (hentries : D x → v.type = T_DIR → Entries sb h v v.size.toNat) :
    Good sb h (Function.update ino x v) pend D := by
  have hown' : ∀ l, own sb h (Function.update ino x v) l = own sb h ino l := by
    rintro ⟨y, k⟩
    by_cases hy : y = x
    · subst hy
      exact hown k
    · simp only [own, Function.update_of_ne hy]
  refine ⟨g.owns.congr hown' fun _ _ => Iff.rfl, fun l b hl => g.home l b (by rwa [← hown']),
    g.pendHome, g.reserved, fun y hy ht hd => ?_, fun y hy hD ht => ?_⟩
  · by_cases hyx : y = x
    · subst hyx
      rw [Function.update_self] at ht hd ⊢
      exact hfilled ht hd
    · rw [Function.update_of_ne hyx] at ht hd ⊢
      exact g.filled y hy ht hd
  · by_cases hyx : y = x
    · subst hyx
      rw [Function.update_self] at ht ⊢
      exact hentries hD ht
    · rw [Function.update_of_ne hyx] at ht ⊢
      exact g.entries y hy hD ht

/-- A pending block becomes address `k` of inode `x`. -/
lemma putAddr (g : Good sb h ino (b :: pend) D) (hs : sb.Sound) (hx : x < sb.ninodes)
    (ht : (ino x).type ≠ 0) (hk : k ≤ NDIRECT) (hzero : (ino x).addr k = 0)
    (hblank : k = NDIRECT → h b = fun _ => 0) :
    Good sb h (Function.update ino x ((ino x).setAddr k b)) pend D := by
  have hpend := g.owns.pending b (by simp)
  have hb0 : b ≠ 0 := by
    have := sb.three_le_dataStart
    omega
  have hb32 : b < 2 ^ 32 := by
    have := hs.small
    omega
  have hslot := slotOf_setAddr hk hb0 hb32 hzero hblank
  have hother : ∀ j, slotOf h (ino x) j ≠ 0 →
      slotOf h ((ino x).setAddr k b) j = slotOf h (ino x) j := by
    intro j hj
    rw [hslot, if_neg]
    rintro rfl
    rw [slotOf, if_pos hk] at hj
    exact hj hzero
  have hfill : ∀ lim, Filled h (ino x) lim → Filled h ((ino x).setAddr k b) lim := by
    intro lim hf bn hbn
    rw [hother _ (hf bn hbn)]
    exact hf bn hbn
  refine ⟨g.owns.put (i := (x, k)) ?_ ?_ ?_, fun l c hl => ?_,
    fun c hc => g.pendHome c (List.mem_cons_of_mem b hc), g.reserved, fun y hy hyt hyd => ?_,
    fun y hy hD hyt off ho hlt => ?_⟩
  · simp [own, slotOf, hk, hzero]
  · refine own_eq_some.2 ⟨hx, ?_, ?_, hb0⟩
    · rw [Function.update_self]
      exact ht
    · rw [Function.update_self, hslot, if_pos rfl]
  · rintro ⟨y, j⟩ hyj
    by_cases hy : y = x
    · subst hy
      have hjk : j ≠ k := fun hc => hyj (by rw [hc])
      simp only [own, Function.update_self, hslot, if_neg hjk]
      rfl
    · simp only [own, Function.update_of_ne hy]
  · obtain ⟨y, j⟩ := l
    obtain ⟨hy, hyt, hyj, hc⟩ := own_eq_some.1 hl
    by_cases hyx : y = x
    · subst hyx
      simp only [Function.update_self, hslot] at hyj
      split at hyj
      · rw [← hyj]
        exact g.pendHome b (by simp)
      · exact g.home (y, j) c (own_eq_some.2 ⟨hx, ht, hyj, hc⟩)
    · simp only [Function.update_of_ne hyx] at hyt hyj
      exact g.home (y, j) c (own_eq_some.2 ⟨hy, hyt, hyj, hc⟩)
  · by_cases hyx : y = x
    · subst hyx
      rw [Function.update_self] at hyd ⊢
      exact hfill _ (g.filled y hx ht hyd)
    · rw [Function.update_of_ne hyx] at hyt hyd ⊢
      exact g.filled y hy hyt hyd
  · by_cases hyx : y = x
    · subst hyx
      rw [Function.update_self] at hyt hlt ⊢
      rw [hother _ (g.entry_slot_ne hx hyt hlt)]
      exact g.entries y hx hD hyt off ho hlt
    · rw [Function.update_of_ne hyx] at hyt hlt ⊢
      exact g.entries y hy hD hyt off ho hlt

/-- Writing one owned block leaves the places of inodes whose indirect block it is not. -/
lemma slotOf_update {c : ℕ} {d : Block} {y : ℕ} (hc : (ino y).addr NDIRECT ≠ c) (j : ℕ) :
    slotOf (Function.update h c d) (ino y) j = slotOf h (ino y) j :=
  slotOf_congr (fun _ _ => rfl) (fun _ => Function.update_of_ne hc _ _) j

lemma addr_indirect_ne (g : Good sb h ino pend D) {y : ℕ} (hx : x < sb.ninodes)
    (ht : (ino x).type ≠ 0) (hy : y < sb.ninodes) (hyt : (ino y).type ≠ 0)
    (hne : (x, k) ≠ (y, NDIRECT)) (hk : slotOf h (ino x) k ≠ 0) :
    (ino y).addr NDIRECT ≠ slotOf h (ino x) k := by
  have := g.slot_ne hx ht hy hyt hne hk
  rwa [slotOf, if_pos le_rfl] at this

/-- Writing a block of the data area leaves the bitmap. -/
lemma bitOf_update_data {c : ℕ} {d : Block} (hc : sb.dataStart ≤ c) (hb : b < sb.size) :
    bitOf sb (Function.update h c d) b = bitOf sb h b := by
  have := sb.bblock_lt_dataStart hb
  exact bitOf_update_of_ne (by omega)

/-- A pending block becomes entry `j` of the indirect block of inode `x`. -/
lemma putEntry (g : Good sb h ino (b :: pend) D) (hs : sb.Sound) (hx : x < sb.ninodes)
    (ht : (ino x).type ≠ 0) {c j : ℕ} (hind : (ino x).addr NDIRECT = c) (hc0 : c ≠ 0)
    (hj : j < NINDIRECT) (hzero : (h c).get32 (4 * j) = 0) :
    Good sb (Function.update h c ((h c).set32 (4 * j) b)) ino pend D := by
  have hD := NDIRECT_eq
  have hpend := g.owns.pending b (by simp)
  have hb0 : b ≠ 0 := by
    have := sb.three_le_dataStart
    omega
  have hcx : slotOf h (ino x) NDIRECT = c := by rw [slotOf, if_pos le_rfl, hind]
  have hrange := g.range hx ht (k := NDIRECT) (by rwa [hcx])
  rw [hcx] at hrange
  have h32 : b < 2 ^ 32 := by
    have := hs.small
    omega
  have hslotx := slotOf_setEntry (h := h) hind hc0 hj h32
  have hsloty : ∀ y < sb.ninodes, (ino y).type ≠ 0 → y ≠ x → ∀ k,
      slotOf (Function.update h c ((h c).set32 (4 * j) b)) (ino y) k = slotOf h (ino y) k := by
    intro y hy hyt hyx k
    refine slotOf_update ?_ k
    rw [← hcx]
    exact g.addr_indirect_ne hx ht hy hyt (fun hc => hyx (Prod.mk.inj hc).1.symm) (by rwa [hcx])
  have hplace : slotOf h (ino x) (NDIRECT + 1 + j) = 0 := by
    rw [slotOf, if_neg (by omega), hind, if_neg hc0, show NDIRECT + 1 + j - NDIRECT -
      1 = j by omega]
    exact hzero
  have hkeep : ∀ y < sb.ninodes, (ino y).type ≠ 0 → ∀ k, slotOf h (ino y) k ≠ 0 →
      slotOf (Function.update h c ((h c).set32 (4 * j) b)) (ino y) k = slotOf h (ino y) k := by
    intro y hy hyt k hk
    by_cases hyx : y = x
    · subst hyx
      rw [hslotx, if_neg]
      rintro rfl
      exact hk hplace
    · exact hsloty y hy hyt hyx k
  have hown : ∀ l, l ≠ (x, NDIRECT + 1 + j) →
      own sb (Function.update h c ((h c).set32 (4 * j) b)) ino l = own sb h ino l := by
    rintro ⟨y, k⟩ hne
    simp only [own]
    by_cases hl : y < sb.ninodes ∧ (ino y).type ≠ 0
    · by_cases hyx : y = x
      · subst hyx
        have hkj : k ≠ NDIRECT + 1 + j := fun hc => hne (by rw [hc])
        simp only [hslotx, if_neg hkj]
      · rw [hsloty y hl.1 hl.2 hyx]
    · rw [if_neg fun hc => hl ⟨hc.1, hc.2.1⟩, if_neg fun hc => hl ⟨hc.1, hc.2.1⟩]
  have hnew : own sb (Function.update h c ((h c).set32 (4 * j) b)) ino (x, NDIRECT + 1 + j) =
      some b := own_eq_some.2 ⟨hx, ht, by rw [hslotx, if_pos rfl], hb0⟩
  have hput := g.owns.put (i := (x, NDIRECT + 1 + j)) (by simp [own, hplace]) hnew hown
  refine ⟨hput.congr (fun _ => rfl) fun d hd => by rw [bitOf_update_data hrange.1 hd.2],
    fun l d hl => ?_, fun d hd => g.pendHome d (List.mem_cons_of_mem b hd), fun d hd => ?_,
    fun y hy hyt hyd bn hbn => ?_, fun y hy hD hyt off ho hlt => ?_⟩
  · by_cases hlx : l = (x, NDIRECT + 1 + j)
    · rw [hlx, hnew] at hl
      rw [← Option.some.inj hl]
      exact g.pendHome b (by simp)
    · rw [hown l hlx] at hl
      exact g.home l d hl
  · rw [bitOf_update_data hrange.1 (hd.trans_le hs.dataStart_le_size)]
    exact g.reserved d hd
  · rw [hkeep y hy hyt _ (g.filled y hy hyt hyd bn hbn)]
    exact g.filled y hy hyt hyd bn hbn
  · have hyt0 : (ino y).type ≠ 0 := by rw [hyt]; exact T_DIR_ne_zero
    have hne := g.entry_slot_ne hy hyt hlt
    have hblk : slotOf h (ino y) (fileSlot (off / BSIZE)) ≠ c := by
      rw [← hcx]
      refine g.slot_ne hx ht hy hyt0 (fun hc => ?_) (by rwa [hcx])
      exact fileSlot_ne (Prod.mk.inj hc).2.symm
    rw [hkeep y hy hyt0 _ hne, Function.update_of_ne hblk]
    exact g.entries y hy hD hyt off ho hlt

/-- Writing the block in a place other than that of the indirect block. -/
lemma writeData (g : Good sb h ino pend D) (hs : sb.Sound) (hx : x < sb.ninodes)
    (ht : (ino x).type ≠ 0) (hk : k ≠ NDIRECT) {c : ℕ} {d : Block}
    (hc : slotOf h (ino x) k = c) (hc0 : c ≠ 0)
    (hentries : D x → (ino x).type = T_DIR →
      Entries sb (Function.update h c d) (ino x) (ino x).size.toNat) :
    Good sb (Function.update h c d) ino pend D := by
  subst hc
  have hrange := g.range hx ht hc0
  have hslot : ∀ y < sb.ninodes, (ino y).type ≠ 0 → ∀ j,
      slotOf (Function.update h (slotOf h (ino x) k) d) (ino y) j = slotOf h (ino y) j := by
    intro y hy hyt j
    exact slotOf_update
      (g.addr_indirect_ne hx ht hy hyt (fun hc => hk (Prod.mk.inj hc).2) hc0) j
  have hown : ∀ l, own sb (Function.update h (slotOf h (ino x) k) d) ino l = own sb h ino l := by
    rintro ⟨y, j⟩
    simp only [own]
    by_cases hl : y < sb.ninodes ∧ (ino y).type ≠ 0
    · rw [hslot y hl.1 hl.2]
    · rw [if_neg fun hc => hl ⟨hc.1, hc.2.1⟩, if_neg fun hc => hl ⟨hc.1, hc.2.1⟩]
  refine ⟨g.owns.congr hown fun c hc => by rw [bitOf_update_data hrange.1 hc.2],
    fun l c hl => g.home l c (by rwa [← hown]), g.pendHome, fun c hc => ?_,
    fun y hy hyt hyd bn hbn => ?_, fun y hy hD hyt off ho hlt => ?_⟩
  · rw [bitOf_update_data hrange.1 (hc.trans_le hs.dataStart_le_size)]
    exact g.reserved c hc
  · rw [hslot y hy hyt]
    exact g.filled y hy hyt hyd bn hbn
  · by_cases hyx : y = x
    · subst hyx
      exact hentries hD hyt off ho hlt
    · have hyt0 : (ino y).type ≠ 0 := by rw [hyt]; exact T_DIR_ne_zero
      have hblk : slotOf h (ino y) (fileSlot (off / BSIZE)) ≠ slotOf h (ino x) k :=
        g.slot_ne hx ht hy hyt0 (fun hc => hyx (Prod.mk.inj hc).1.symm) hc0
      rw [hslot y hy hyt0, Function.update_of_ne hblk]
      exact g.entries y hy hD hyt off ho hlt

/-- Freeing all blocks of inode `x` and clearing its addresses. -/
lemma truncate (g : Good sb h ino pend D) (hs : sb.Sound)
    (hblk : ∀ c, sb.dataStart ≤ c → c < sb.logStart → h' c = h c)
    (hbit : ∀ c < sb.size, bitOf sb h' c = true ↔
      bitOf sb h c = true ∧ ∀ k, own sb h ino (x, k) ≠ some c)
    (haddr : ∀ k, v.addr k = 0) (hsize : v.size = 0) :
    Good sb h' (Function.update ino x v) pend D := by
  have hblk' : ∀ l c, own sb h ino l = some c → h' c = h c :=
    fun l c hl => hblk c (g.owns.held l c hl).1.1 (g.home l c hl)
  have hown := own_of_owned hblk'
  have hx : ∀ k, own sb h' (Function.update ino x v) (x, k) = none := by
    intro k
    simp [own, slotOf, haddr]
  have hother : ∀ l : ℕ × ℕ, l.1 ≠ x →
      own sb h' (Function.update ino x v) l = own sb h ino l := by
    intro l hl
    rw [← hown l]
    simp only [own, Function.update_of_ne hl]
  refine ⟨g.owns.release (fun l => l.1 = x) ?_ hother fun c hc => ?_, fun l c hl => ?_,
    g.pendHome, fun c hc => ?_, fun y hy hyt hyd bn hbn => ?_, fun y hy hD hyt off ho hlt => ?_⟩
  · rintro ⟨y, k⟩ rfl
    exact hx k
  · rw [hbit c hc.2]
    refine and_congr_right fun _ => ⟨?_, fun hno k => hno (x, k) rfl⟩
    rintro hno ⟨y, k⟩ rfl
    exact hno k
  · by_cases hl' : l.1 = x
    · obtain ⟨y, k⟩ := l
      subst hl'
      rw [hx k] at hl
      exact absurd hl (by simp)
    · exact g.home l c (by rwa [← hother l hl'])
  · refine (hbit c (hc.trans_le hs.dataStart_le_size)).2 ⟨g.reserved c hc, fun k hk => ?_⟩
    have := (g.owns.held (x, k) c hk).1.1
    omega
  · by_cases hyx : y = x
    · subst hyx
      rw [Function.update_self, hsize] at hbn
      exact absurd hbn (by simp)
    · rw [Function.update_of_ne hyx] at hyt hyd hbn ⊢
      rw [slotOf_of_owned hblk' hy hyt]
      exact g.filled y hy hyt hyd bn hbn
  · by_cases hyx : y = x
    · subst hyx
      rw [Function.update_self, hsize] at hlt
      exact absurd hlt (by simp)
    · rw [Function.update_of_ne hyx] at hyt hlt ⊢
      have hyt0 : (ino y).type ≠ 0 := by rw [hyt]; exact T_DIR_ne_zero
      rw [slotOf_of_owned hblk' hy hyt0,
        hblk' _ _ (own_slotOf hy hyt0 (g.entry_slot_ne hy hyt hlt))]
      exact g.entries y hy hD hyt off ho hlt

end Good

end Xv6
