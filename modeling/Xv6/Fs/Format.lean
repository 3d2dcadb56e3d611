import Xv6.Bio
import Mathlib.Data.Fintype.Basic

/-!
# The on-disk format (`fs.h`)

A disk image has the superblock in block 1, then the inode blocks, the bitmap blocks, the data
blocks and the log.  This file has the layouts of the superblock, of an inode and of a
directory entry, and the functions on names and paths that look at bytes only.
-/

namespace Xv6

open Lib

/-! ## File types -/

/-- Directory. -/
def T_DIR : Int16 := 1

/-- Regular file. -/
def T_FILE : Int16 := 2

/-- Device. -/
def T_DEV : Int16 := 3

/-! ## The superblock and the places of inodes and bits -/

/-- `struct superblock`. -/
structure Superblock where
  size : ℕ
  nblocks : ℕ
  ninodes : ℕ
  nlog : ℕ
deriving DecidableEq, Repr

/-- The superblock that the bytes of a block hold. -/
def Superblock.decode (d : Block) : Superblock :=
  ⟨d.get32 0, d.get32 4, d.get32 8, d.get32 12⟩

/-- Block containing inode `i`. -/
def IBLOCK (i : ℕ) : ℕ := i / IPB + 2

/-- Block containing the bit for block `b`. -/
def BBLOCK (b ninodes : ℕ) : ℕ := b / BPB + ninodes / IPB + 3

/-! ## Inodes -/

/-- `struct dinode`, and the part of `struct inode` that is a copy of it. -/
@[ext] structure DInode where
  type : Int16
  major : Int16
  minor : Int16
  nlink : Int16
  size : UInt32
  addrs : Fin (NDIRECT + 1) → UInt32
deriving DecidableEq

namespace DInode

/-- All bytes zero: a free inode. -/
def zero : DInode := ⟨0, 0, 0, 0, 0, fun _ => 0⟩

/-- The `k`-th entry of `addrs` as a block number. -/
def addr (v : DInode) (k : ℕ) : ℕ :=
  if h : k < NDIRECT + 1 then (v.addrs ⟨k, h⟩).toNat else 0

/-- `addrs[k] = b`. -/
def setAddr (v : DInode) (k : ℕ) (b : ℕ) : DInode :=
  { v with addrs := fun i => if i.val = k then UInt32.ofNat b else v.addrs i }

/-- The four `short` fields. -/
def short (v : DInode) (k : ℕ) : Int16 :=
  if k = 0 then v.type else if k = 1 then v.major else if k = 2 then v.minor else v.nlink

/-- Byte `j` of an inode on disk. -/
def byte (v : DInode) (j : ℕ) : UInt8 :=
  if j < 8 then UInt8.ofNat ((v.short (j / 2)).toUInt16.toNat / 2 ^ (8 * (j % 2)))
  else if j < 12 then UInt8.ofNat (v.size.toNat / 2 ^ (8 * (j - 8)))
  else UInt8.ofNat (v.addr ((j - 12) / 4) / 2 ^ (8 * ((j - 12) % 4)))

/-- The inode in the 64 bytes of a block from offset `o` on. -/
def decode (d : Block) (o : ℕ) : DInode where
  type := (UInt16.ofNat (d.get16 o)).toInt16
  major := (UInt16.ofNat (d.get16 (o + 2))).toInt16
  minor := (UInt16.ofNat (d.get16 (o + 4))).toInt16
  nlink := (UInt16.ofNat (d.get16 (o + 6))).toInt16
  size := UInt32.ofNat (d.get32 (o + 8))
  addrs i := UInt32.ofNat (d.get32 (o + 12 + 4 * i.val))

/-- Store an inode in the 64 bytes of a block from offset `o` on. -/
def encode (v : DInode) (d : Block) (o : ℕ) : Block := d.blit o 64 v.byte

lemma get16_encode {v : DInode} {d : Block} {o k : ℕ} (ho : o + 64 ≤ BSIZE) (hk : k < 4) :
    (UInt16.ofNat ((v.encode d o).get16 (o + 2 * k))).toInt16 = v.short k := by
  have hget : (v.encode d o).get16 (o + 2 * k) = (v.short k).toUInt16.toNat % 2 ^ 16 := by
    refine Bytes.get16_blit ho (by omega) (by omega) ?_ ?_
    · have h0 : o + 2 * k - o = 2 * k := by omega
      have h1 : 2 * k / 2 = k := by omega
      have h2 : 2 * k % 2 = 0 := by omega
      simp [byte, h0, h1, h2, show 2 * k < 8 by omega]
    · have h0 : o + 2 * k + 1 - o = 2 * k + 1 := by omega
      have h1 : (2 * k + 1) / 2 = k := by omega
      have h2 : (2 * k + 1) % 2 = 1 := by omega
      simp [byte, h0, h1, h2, show 2 * k + 1 < 8 by omega]
  rw [hget, Nat.mod_eq_of_lt (UInt16.toNat_lt _), UInt16.ofNat_toNat]
  simp

lemma size_encode {v : DInode} {d : Block} {o : ℕ} (ho : o + 64 ≤ BSIZE) :
    UInt32.ofNat ((v.encode d o).get32 (o + 8)) = v.size := by
  have hget : (v.encode d o).get32 (o + 8) = v.size.toNat % 2 ^ 32 := by
    refine Bytes.get32_blit ho (by omega) (by omega) fun k hk => ?_
    have h0 : o + 8 + k - o = 8 + k := by omega
    simp [byte, h0, show ¬ 8 + k < 8 by omega, show 8 + k < 12 by omega]
  rw [hget, Nat.mod_eq_of_lt v.size.toNat_lt, UInt32.ofNat_toNat]

lemma addrs_encode {v : DInode} {d : Block} {o : ℕ} (ho : o + 64 ≤ BSIZE)
    (i : Fin (NDIRECT + 1)) :
    UInt32.ofNat ((v.encode d o).get32 (o + 12 + 4 * i.val)) = v.addrs i := by
  have hi : i.val < 13 := i.isLt
  have hget : (v.encode d o).get32 (o + 12 + 4 * i.val) = (v.addrs i).toNat % 2 ^ 32 := by
    refine Bytes.get32_blit ho (by omega) (by omega) fun k hk => ?_
    have h0 : o + 12 + 4 * i.val + k - o = 12 + 4 * i.val + k := by omega
    have h1 : (12 + 4 * i.val + k - 12) / 4 = i.val := by omega
    have h2 : (12 + 4 * i.val + k - 12) % 4 = k := by omega
    rw [h0, byte, if_neg (by omega), if_neg (by omega), h1, h2, addr, dif_pos i.isLt]
  rw [hget, Nat.mod_eq_of_lt (v.addrs i).toNat_lt, UInt32.ofNat_toNat]

/-- An inode stored in a block reads back as it was. -/
lemma decode_encode {v : DInode} {d : Block} {o : ℕ} (ho : o + 64 ≤ BSIZE) :
    decode (v.encode d o) o = v := by
  ext1
  · exact get16_encode (k := 0) ho (by omega)
  · exact get16_encode (k := 1) ho (by omega)
  · exact get16_encode (k := 2) ho (by omega)
  · exact get16_encode (k := 3) ho (by omega)
  · exact size_encode ho
  · exact funext (addrs_encode ho)

/-- The other inodes of the block stay. -/
lemma decode_encode_of_disj {v : DInode} {d : Block} {o o' : ℕ} (h : o' + 64 ≤ o ∨ o + 64 ≤ o') :
    decode (v.encode d o) o' = decode d o' := by
  have h16 : ∀ j, o' ≤ j → j + 2 ≤ o' + 64 → (v.encode d o).get16 j = d.get16 j :=
    fun j _ _ => Bytes.get16_blit_of_disj (by omega)
  have h32 : ∀ j, o' ≤ j → j + 4 ≤ o' + 64 → (v.encode d o).get32 j = d.get32 j :=
    fun j _ _ => Bytes.get32_blit_of_disj (by omega)
  ext1
  · simp [decode, h16]
  · simp [decode, h16]
  · simp [decode, h16]
  · simp [decode, h16]
  · simp [decode, h32]
  · funext i
    have hi : i.val < 13 := i.isLt
    simp [decode, h32 (o' + 12 + 4 * i.val) (by omega) (by omega)]

end DInode

/-! ## Names, directory entries and paths -/

/-- The bytes of a string up to its terminating NUL, or of a `char` array. -/
abbrev Name : Type := List UInt8

/-- `strncmp`; beyond the end of a list is its NUL. -/
def strncmp : ℕ → Name → Name → ℤ
  | 0, _, _ => 0
  | n + 1, p, q =>
      if p.headD 0 ≠ 0 ∧ p.headD 0 = q.headD 0 then strncmp n p.tail q.tail
      else (p.headD 0).toNat - (q.headD 0).toNat

/-- Compare two names as far as a directory entry keeps them. -/
def namecmp (s t : Name) : ℤ := strncmp DIRSIZ s t

/-- The bytes that `strncpy` stores: those of the string, and then zeros. -/
def strncpy (t : Name) (j : ℕ) : UInt8 := (t.takeWhile (· ≠ 0)).getD j 0

/-- The part of a name that a directory entry keeps, up to its NUL. -/
def canon (t : Name) : Name := (t.take DIRSIZ).takeWhile (· ≠ 0)

lemma strncmp_eq_zero (n : ℕ) (p q : Name) :
    strncmp n p q = 0 ↔ (p.take n).takeWhile (· ≠ 0) = (q.take n).takeWhile (· ≠ 0) := by
  induction n generalizing p q with
  | zero => simp [strncmp]
  | succ n ih =>
      have hsub : ∀ a b : UInt8, (a.toNat : ℤ) - b.toNat = 0 ↔ a = b := fun a b => by
        rw [sub_eq_zero, Nat.cast_inj, UInt8.toNat_inj]
      have hhead : ∀ l : Name, (l.take (n + 1)).takeWhile (· ≠ 0) =
          if l.headD 0 = 0 then [] else l.headD 0 :: (l.tail.take n).takeWhile (· ≠ 0) :=
          fun l => by
        cases l with
        | nil => rfl
        | cons a l => by_cases ha : a = 0 <;> simp [ha]
      rw [hhead p, hhead q, strncmp]
      generalize p.headD 0 = a
      generalize q.headD 0 = b
      by_cases hab : a = b
      · subst hab
        by_cases ha : a = 0
        · simp [ha]
        · simp [ha, ih]
      · have hne : a ≠ 0 ∨ b ≠ 0 := by
          by_contra hno
          rw [not_or, not_not, not_not] at hno
          exact hab (hno.1.trans hno.2.symm)
        rw [if_neg fun h => hab h.2, hsub]
        by_cases ha : a = 0
        · have hb := hne.resolve_left (not_not.2 ha)
          simp [ha, hb, Ne.symm hb]
        · by_cases hb : b = 0
          · simp [hb, ha]
          · simp [ha, hb, hab]

/-- Names are compared as far as an entry keeps them. -/
lemma namecmp_eq_zero {s t : Name} : namecmp s t = 0 ↔ canon s = canon t :=
  strncmp_eq_zero DIRSIZ s t

/-- The name that an entry is given is the one that it has. -/
lemma canon_strncpy (t : Name) : canon ((List.range DIRSIZ).map (strncpy t)) = canon t := by
  have hmap : (List.range DIRSIZ).map (strncpy t) = (t.takeWhile (· ≠ 0)).take DIRSIZ ++
      List.replicate (DIRSIZ - (t.takeWhile (· ≠ 0)).length) 0 := Bytes.map_range_getD _ _
  have hne : ∀ a ∈ (t.takeWhile (· ≠ 0)).take DIRSIZ, a ≠ 0 := fun a ha => by
    simpa using List.mem_takeWhile_imp (List.mem_of_mem_take ha)
  rw [canon, List.take_of_length_le (by simp), hmap, Bytes.takeWhile_append_replicate _ hne, canon]
  exact List.take_takeWhile

/-- `struct dirent`. -/
structure Dirent where
  inum : ℕ
  name : Name
deriving DecidableEq, Repr

namespace Dirent

/-- `sizeof(struct dirent)`. -/
def SIZE : ℕ := 16

lemma SIZE_eq : SIZE = 16 := rfl

/-- The entry that 16 bytes hold. -/
def decode (l : List UInt8) : Dirent :=
  ⟨(l.getD 0 0).toNat + 2 ^ 8 * (l.getD 1 0).toNat, l.drop 2⟩

/-- Byte `j` of the entry that `dirlink` writes; `inum` is cut to a `ushort`. -/
def byte (inum : ℕ) (name : Name) (j : ℕ) : UInt8 :=
  if j < 2 then UInt8.ofNat (inum / 2 ^ (8 * j)) else strncpy name (j - 2)

end Dirent

/-- The byte `/`. -/
def slash : UInt8 := 47

/-- Copy the next path element into a name and return the rest of the path, which has no
leading slashes; `none` if there is no element. -/
def skipelem (path : Name) : Option (Name × Name) :=
  let path := path.dropWhile (· = slash)
  if path = [] then none
  else some ((path.dropWhile (· ≠ slash)).dropWhile (· = slash),
    (path.takeWhile (· ≠ slash)).take DIRSIZ)

end Xv6
