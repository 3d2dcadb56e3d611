import Xv6.Mkfs.Agree
import Mathlib.Data.Set.Lattice
import Mathlib.Order.CompletePartialOrder
import Mathlib.Order.Interval.Set.Basic

/-!
# The image of `mkfs` is well formed

What `mkfs` writes has to fit together: the areas of the image, which blocks the inodes use, which
bits of the bitmap are set and which sizes the inodes have are computed in different places.  The
size of the root directory is rounded up by a whole block if its entries fill a block exactly, and
nothing stops the files from reaching into the log.
-/

namespace Xv6

namespace Mkfs

open Lib

/-! ## Areas -/

/-- The areas of an image with the given superblock: the superblock, the inodes, the bitmap, the
data blocks and the log. -/
def areas (sb : Superblock) : List (Set ℕ) :=
  [{1}, {b | ∃ x < sb.ninodes, b = IBLOCK x}, {b | ∃ c < sb.size, b = BBLOCK c sb.ninodes},
    Set.Ico sb.dataStart (sb.dataStart + sb.nblocks), Set.Ico sb.logStart sb.size]

/-- The places that hold a block: a number of an inode in use and a place in it. -/
def Refers (s : Image) (l : ℕ × ℕ) (b : ℕ) : Prop := own sb s.disk (dinodeAt s.disk) l = some b

/-- What a file system that the kernel can use has to look like. -/
structure WellFormed (s : Image) : Prop where
  /-- The image says how it is laid out. -/
  super : Superblock.decode (s.disk 1) = sb
  /-- The areas do not overlap. -/
  apart : (areas sb).Pairwise Disjoint
  /-- Every block of an inode is a data block. -/
  data : ∀ l b, Refers s l b → b ∈ Set.Ico sb.dataStart (sb.dataStart + sb.nblocks)
  /-- A bit is set for a block that is reserved, or that is at exactly one place. -/
  bitmap : ∀ b < sb.size, bitOf sb s.disk b = true ↔ b < sb.dataStart ∨ ∃! l, Refers s l b
  /-- Every block of a file up to its size has an address. -/
  filled : ∀ x < sb.ninodes, Filled s.disk (dinodeAt s.disk x) (dinodeAt s.disk x).size.toNat

lemma areas_pairwise : (areas sb).Pairwise Disjoint := by
  have hD := sb_dataStart
  have hL : sb.logStart = 1014 := rfl
  have hsize : sb.size = 1024 := rfl
  have hblocks : sb.nblocks = 985 := rfl
  have hI : ∀ x < sb.ninodes, 2 ≤ IBLOCK x ∧ IBLOCK x < 28 := by
    intro x hx
    have hN : sb.ninodes = 200 := rfl
    rw [hN] at hx
    rw [IBLOCK, IPB]
    omega
  have hB : ∀ c < sb.size, BBLOCK c sb.ninodes = 28 := by
    intro c hc
    rw [BBLOCK, Nat.div_eq_of_lt (hc.trans (by decide))]
    rfl
  simp only [areas, List.pairwise_cons, List.mem_cons, List.not_mem_nil, or_false,
    Set.disjoint_left]
  refine ⟨?_, ?_, ?_, ?_, by simp, List.Pairwise.nil⟩
  · rintro a (rfl | rfl | rfl | rfl) b hb
    · rintro ⟨x, hx, hbx⟩
      have := hI x hx
      rw [Set.mem_singleton_iff] at hb
      omega
    · rintro ⟨c, hc, hbc⟩
      rw [hB c hc] at hbc
      rw [Set.mem_singleton_iff] at hb
      omega
    · rw [Set.mem_singleton_iff] at hb
      rw [Set.mem_Ico]
      omega
    · rw [Set.mem_singleton_iff] at hb
      rw [Set.mem_Ico]
      omega
  · rintro a (rfl | rfl | rfl) b ⟨x, hx, rfl⟩
    · rintro ⟨c, hc, hbc⟩
      have := hI x hx
      rw [hB c hc] at hbc
      omega
    · have := hI x hx
      rw [Set.mem_Ico]
      omega
    · have := hI x hx
      rw [Set.mem_Ico]
      omega
  · rintro a (rfl | rfl) b ⟨c, hc, rfl⟩
    · rw [hB c hc, Set.mem_Ico]
      omega
    · rw [hB c hc, Set.mem_Ico]
      omega
  · rintro a rfl b hb
    rw [Set.mem_Ico] at hb ⊢
    omega

/-! ## The bitmap -/

lemma bitAt_zeroBlock (b : ℕ) : Bytes.bitAt Fs.zeroBlock b = false := by
  have hbyte : Bytes.byteAt Fs.zeroBlock (b / 8) = 0 := by
    rw [Bytes.byteAt]
    split <;> rfl
  rw [Bytes.bitAt_eq_getLsbD, hbyte]
  simp

/-- The bitmap that `balloc` writes. -/
lemma bitAt_foldl_setBit {n : ℕ} (hn : n ≤ 512 * 8) (b : ℕ) :
    ((List.range n).foldl Bytes.setBit Fs.zeroBlock).bitAt b = decide (b < n) := by
  induction n with
  | zero => simpa using bitAt_zeroBlock b
  | succ n ih =>
      have hB := BSIZE_eq
      rw [List.range_succ, List.foldl_append, List.foldl_cons, List.foldl_nil,
        Bytes.bitAt_setBit (by omega), ih (by omega), Bool.eq_iff_iff]
      simp only [Bool.or_eq_true, decide_eq_true_eq]
      omega

section

variable {args : List Arg} {s s₁ s' : Image} {b n r : ℕ}

lemma fixSize_used (h : fixSize r s = some s') : s'.usedblocks = s.usedblocks := by
  obtain ⟨din, -, h⟩ := Option.bind_eq_some_iff.1 h
  obtain ⟨buf, -, h⟩ := Option.bind_eq_some_iff.1 h
  obtain rfl := Option.some.inj h
  rfl

lemma balloc_disk (h : balloc n s = some s') :
    n < 512 * 8 ∧ s'.disk (ninodes / IPB + 3) = (List.range n).foldl Bytes.setBit Fs.zeroBlock := by
  rw [balloc] at h
  split at h
  · rename_i hn
    obtain rfl := Option.some.inj h
    exact ⟨hn, Function.update_self (ninodes / IPB + 3) _ s.disk⟩
  · exact absurd h (by simp)

/-- What is known when `main` has made an image. -/
lemma main_inv (hfile : ∀ a ∈ args, a.file.isSome = true) (hcount : args.length + 2 ≤ ninodes)
    (hmain : main args = some s) :
    Finished s args ∧ (∀ a ∈ args, a.bytes.length ≤ MAXFILE * BSIZE) ∧
      s.disk (ninodes / IPB + 3) = (List.range (usedFor args)).foldl Bytes.setBit Fs.zeroBlock := by
  have hslash : ∀ a ∈ args, slash ∉ a.path := by
    intro a ha hsl
    rw [main_slash ⟨a, ha, hsl⟩] at hmain
    exact absurd hmain (by simp)
  obtain ⟨s₀, b, heq⟩ := main_eq args
  have hcount' : ([] : List Arg).length + args.length + 2 ≤ ninodes := by simpa using hcount
  obtain ⟨s₃, hfold, hrest⟩ := Option.bind_eq_some_iff.1 (heq.symm.trans hmain)
  obtain ⟨hsize, hroom⟩ := b.addFiles_fits args hslash hfile hcount' (by decide) hfold
  obtain ⟨s₃', hfold', b₃⟩ := b.addFiles args hslash hfile hsize hcount' hroom
  obtain rfl := Option.some.inj (hfold.symm.trans hfold')
  obtain ⟨s₄, hfix, hballoc⟩ := Option.bind_eq_some_iff.1 hrest
  obtain ⟨s', hmain', hfin⟩ := main_finished hslash hfile hsize hcount hroom
  obtain rfl := Option.some.inj (hmain.symm.trans hmain')
  have hused : s₄.usedblocks = usedFor args := by
    rw [fixSize_used hfix, b₃.rest.laid.owned.used, b₃.freeblock, List.nil_append]
  have hdisk := (balloc_disk hballoc).2
  rw [hused] at hdisk
  exact ⟨hfin, hsize, hdisk⟩

/-- The blocks of the finished image are those below `usedFor args`, each at one place. -/
lemma Finished.refers (f : Finished s args) (b : ℕ) :
    ((∃ l, Refers s l b) ↔ sb.dataStart ≤ b ∧ b < usedFor args) ∧
      ∀ l l', Refers s l b → Refers s l' b → l = l' := by
  obtain ⟨s₀, hb, -, hdisk, hat⟩ := f
  have o := hb.rest.laid.owned
  have htype : ∀ x < ninodes, (dinodeAt s.disk x).type = (dinodeAt s₀.disk x).type := by
    intro x hx
    rw [hat x hx]
    split <;> rfl
  have haddrs : ∀ x < ninodes, (dinodeAt s.disk x).addrs = (dinodeAt s₀.disk x).addrs := by
    intro x hx
    rw [hat x hx]
    split <;> rfl
  have hrefers : ∀ l, Refers s l b ↔ own sb s₀.disk (dinodeAt s₀.disk) l = some b := by
    intro l
    rw [Refers, own_eq_some, own_eq_some]
    refine and_congr_right fun hx => ?_
    rw [htype l.1 hx]
    refine and_congr_right fun ht => ?_
    rw [slotOf_finished o hx ht hdisk (haddrs l.1 hx)]
  constructor
  · constructor
    · rintro ⟨l, hl⟩
      have hheld := o.owns.held l b ((hrefers l).1 hl)
      rwa [hb.freeblock] at hheld
    · rintro ⟨hlo, hhi⟩
      rw [← hb.freeblock] at hhi
      rcases o.owns.exact b hlo hhi with hpend | ⟨l, hl⟩
      · exact absurd hpend List.not_mem_nil
      · exact ⟨l, (hrefers l).2 hl⟩
  · intro l l' hl hl'
    exact o.owns.inj l l' b ((hrefers l).1 hl) ((hrefers l').1 hl')

/-- The rounded size of the root directory covers no more blocks than it has, unless its entries
fill their last block. -/
lemma root_blocks {bn : ℕ} (hroot : (n + 2) % (BSIZE / Dirent.SIZE) ≠ 0)
    (h : bn * BSIZE < (Dirent.SIZE * (n + 2) / BSIZE + 1) * BSIZE) :
    bn * BSIZE < Dirent.SIZE * (n + 2) := by
  have hB := BSIZE_eq
  have hS := Dirent.SIZE_eq
  rw [hB, hS] at hroot h ⊢
  omega

/-- Inodes that no argument has got are empty. -/
lemma Finished.size_free {x : ℕ} (f : Finished s args) (hx : x < ninodes)
    (hfree : x = 0 ∨ args.length + 2 ≤ x) : (dinodeAt s.disk x).size.toNat = 0 := by
  have hR := ROOTINO_eq
  obtain ⟨s₀, hb, -, -, hat⟩ := f
  rw [hat x hx, if_neg (by omega), hb.rest.free x hx (by rwa [hb.freeinode])]
  rfl

/-- Every block of every inode up to its size has an address. -/
lemma Finished.filled {x : ℕ} (f : Finished s args)
    (hsize : ∀ a ∈ args, a.bytes.length ≤ MAXFILE * BSIZE) (hcount : args.length + 2 ≤ ninodes)
    (hroom : usedFor args ≤ sb.logStart) (hroot : (args.length + 2) % (BSIZE / Dirent.SIZE) ≠ 0)
    (hx : x < ninodes) :
    Filled s.disk (dinodeAt s.disk x) (dinodeAt s.disk x).size.toNat := by
  have hR := ROOTINO_eq
  intro bn hbn
  by_cases hfree : x = 0 ∨ args.length + 2 ≤ x
  · rw [f.size_free hx hfree] at hbn
    exact absurd hbn (Nat.not_lt_zero _)
  · refine (f.holds hroom (by omega) (by omega)).slot bn ?_
    by_cases hxr : x = ROOTINO
    · subst hxr
      rw [Built.length_root]
      refine root_blocks hroot ?_
      have hB := BSIZE_eq
      have hS := Dirent.SIZE_eq
      have hN := ninodes_eq
      obtain ⟨s₀, -, -, -, hat⟩ := f
      rwa [hat ROOTINO hx, if_pos rfl, UInt32.toNat_ofNat_of_lt'
        (by rw [UInt32.size, hS, hB]; omega)] at hbn
    · have hlt : x - 2 < args.length := by omega
      have hdata : dataOf args x = args[x - 2].bytes := by
        have := dataOf_file hlt
        rwa [show x - 2 + 2 = x by omega] at this
      rwa [f.size (by omega) (by omega)
        (by rw [hdata]; exact hsize _ (List.getElem_mem hlt))] at hbn

/-- If the entries of the root directory fill their last block, its size covers a block that has no
address. -/
lemma Finished.unfilled (f : Finished s args) (hcount : args.length + 2 ≤ ninodes)
    (hfull : (args.length + 2) % (BSIZE / Dirent.SIZE) = 0) :
    ∃ bn, bn * BSIZE < (dinodeAt s.disk ROOTINO).size.toNat ∧
      slotOf s.disk (dinodeAt s.disk ROOTINO) (fileSlot bn) = 0 := by
  have hB := BSIZE_eq
  have hS := Dirent.SIZE_eq
  have hN := ninodes_eq
  have hR := ROOTINO_eq
  obtain ⟨s₀, hb, -, hdisk, hat⟩ := f
  have hat := hat ROOTINO (by decide)
  rw [if_pos rfl] at hat
  have ht := hb.rest.type_ne (x := ROOTINO) (by decide) (by rw [hb.freeinode]; omega)
  refine ⟨Dirent.SIZE * (args.length + 2) / BSIZE, ?_, ?_⟩
  · rw [hat, UInt32.toNat_ofNat_of_lt' (by rw [UInt32.size, hS, hB]; omega), hB]
    omega
  · rw [slotOf_finished hb.rest.laid.owned (by decide) ht hdisk (by rw [hat])]
    by_contra hne
    have htakes := (hb.rest.laid.place ROOTINO (by decide) ht _).1 hne
    rw [takes_fileSlot, Built.length_root, hB, hS] at htakes
    rw [hB, hS] at hfull
    omega

end

/-- An empty file. -/
def empty : Arg := ⟨[97], by decide, some ⟨[], by simp⟩⟩

end Mkfs

open Mkfs in
/-- The image that `mkfs` makes of readable files is well formed exactly if the entries of its root
directory do not fill their last block and the files do not reach the log. -/
theorem mkfs_well_formed {args : List Arg} {s : Image} (hfile : ∀ a ∈ args, a.file.isSome = true)
    (hcount : args.length ≤ ninodes - 2) (hmain : main args = some s) :
    Mkfs.WellFormed s ↔
      (args.length + 2) % (BSIZE / Dirent.SIZE) ≠ 0 ∧ usedFor args ≤ sb.logStart := by
  have hN := ninodes_eq
  have hcount' : args.length + 2 ≤ ninodes := by omega
  obtain ⟨f, hsize, hbits⟩ := main_inv hfile hcount' hmain
  constructor
  · intro w
    refine ⟨fun hfull => ?_, not_lt.1 fun hlog => ?_⟩
    · obtain ⟨bn, hbn, hzero⟩ := f.unfilled hcount' hfull
      exact w.filled ROOTINO (by decide) bn hbn hzero
    · -- the first block of the log belongs to a file
      obtain ⟨l, hl⟩ := (f.refers sb.logStart).1.2 ⟨by decide, hlog⟩
      exact absurd (w.data l _ hl).2 (by decide)
  rintro ⟨hroot, hroom⟩
  refine ⟨f.super, areas_pairwise, ?_, ?_, ?_⟩
  · intro l b hl
    obtain ⟨hlo, hhi⟩ := (f.refers b).1.1 ⟨l, hl⟩
    exact ⟨hlo, hhi.trans_le hroom⟩
  · intro b hb
    have hlt : b < BPB := hb.trans (by decide)
    have hblock : BBLOCK b sb.ninodes = ninodes / IPB + 3 := by
      rw [BBLOCK, Nat.div_eq_of_lt hlt, Nat.zero_add]
      rfl
    have hL : sb.logStart ≤ 512 * 8 := by decide
    have hbit : bitOf sb s.disk b = true ↔ b < usedFor args := by
      rw [bitOf, hblock, hbits, Nat.mod_eq_of_lt hlt, bitAt_foldl_setBit (hroom.trans hL),
        decide_eq_true_eq]
    have hlo : sb.dataStart ≤ usedFor args := by
      rw [usedFor]
      omega
    obtain ⟨hiff, huniq⟩ := f.refers b
    rw [hbit]
    constructor
    · intro hused
      by_cases hres : b < sb.dataStart
      · exact Or.inl hres
      · obtain ⟨l, hl⟩ := hiff.2 ⟨not_lt.1 hres, hused⟩
        exact Or.inr ⟨l, hl, fun l' hl' => huniq l' l hl' hl⟩
    · rintro (hres | ⟨l, hl, -⟩)
      · omega
      · exact (hiff.1 ⟨l, hl⟩).2
  · intro x hx
    exact f.filled hsize hcount' hroom hroot hx

open Mkfs in
theorem mkfs_well_formed_hi : ∃ s, main [hi] = some s ∧ Mkfs.WellFormed s := by
  obtain ⟨s, hmain, -⟩ : ∃ s, main [hi] = some s ∧ Finished s [hi] :=
    main_finished (by decide) (by decide) (by decide) (by decide) (by decide)
  exact ⟨s, hmain, (mkfs_well_formed (by decide) (by decide) hmain).2 ⟨by decide, by decide⟩⟩

open Mkfs in
/-- With 30 files the root directory has 32 entries, which fill one block; its size is rounded to
two blocks, and the second has no address. -/
theorem mkfs_root_unfilled : (∀ a ∈ List.replicate 30 empty, a.file.isSome = true) ∧
    (List.replicate 30 empty).length ≤ ninodes - 2 ∧
    ∃ s, main (List.replicate 30 empty) = some s ∧ ∃ bn, bn * BSIZE <
      (dinodeAt s.disk ROOTINO).size.toNat ∧
      slotOf s.disk (dinodeAt s.disk ROOTINO) (fileSlot bn) = 0 := by
  have hfile : ∀ a ∈ List.replicate 30 empty, a.file.isSome = true := by decide
  obtain ⟨s, hmain, hfin⟩ : ∃ s, main (List.replicate 30 empty) = some s ∧
      Finished s (List.replicate 30 empty) :=
    main_finished (by decide) hfile (by decide) (by decide) (by decide)
  exact ⟨hfile, by decide, s, hmain, hfin.unfilled (by decide) (by decide)⟩

end Xv6
