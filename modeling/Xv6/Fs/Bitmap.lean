import Xv6.Fs.Reading
import Xv6.Fs.Machine
import Mathlib.Order.Bounds.Defs

/-!
# The bitmap as a set of blocks

`balloc` and `bfree` for a file system of any size, that is with any number of bitmap blocks:
`balloc` finds the first clear bit by steps of `BPB`, `bfree` finds the bit of a block by division.
`balloc` may find a block of the log.
-/

namespace Xv6

open Lib FsState

variable {sb : Superblock} {s s' : FsState} {α β : Type} {b c k : ℕ} {d : Block}

/-- A block of the bitmap. -/
def Superblock.IsBitmap (sb : Superblock) (g : ℕ) : Prop := ∃ b < sb.size, g = BBLOCK b sb.ninodes

/-- A transaction in which `k` more blocks can be logged, and no buffer is busy. -/
structure InTrans (sb : Superblock) (k : ℕ) (s : FsState) : Prop where
  superblock : Superblock.decode (s.blk 1) = sb
  start : s.log.start = sb.logStart
  size : s.log.size = sb.nlog
  disk : sb.size ≤ s.disksize
  busy : s.log.busy = true
  held : s.held = []
  logsize : s.log.sectors.length + k ≤ LOGSIZE
  nlog : s.log.sectors.length + k < sb.nlog
  buffers : s.log.sectors.length + k < NBUF

lemma FsState.blk_logged : (s.logged b d).blk =
    Function.update (Function.update s.blk b d) (s.log.start + s.log.sectors.idxOf b + 1) d := rfl

/-- Where the log keeps the copy of block `b`. -/
def FsState.copyPlace (s : FsState) (b : ℕ) : ℕ := s.log.start + s.log.sectors.idxOf b + 1

lemma FsState.sectors_logged : (s.logged b d).log.sectors =
    if b ∈ s.log.sectors then s.log.sectors else s.log.sectors ++ [b] := rfl

namespace InTrans

lemma spare (t : InTrans sb k s) : s.Spare b := by
  have := t.buffers
  right
  rw [t.held, List.nil_union]
  omega

lemma lt_disksize (t : InTrans sb k s) (hb : b < sb.size) : b < s.disksize := hb.trans_le t.disk

lemma setSeen (t : InTrans sb k s) (o : Observed) : InTrans sb k (s.setSeen o) :=
  ⟨t.superblock, t.start, t.size, t.disk, t.busy, t.held, t.logsize, t.nlog, t.buffers⟩

/-- Logging a block takes one place of the log, or none if the block is there already. -/
lemma logged (t : InTrans sb (k + 1) s) (hb : b ≠ 1) (h1 : 1 < sb.logStart) :
    InTrans sb k (s.logged b d) := by
  have hlen : (s.logged b d).log.sectors.length ≤ s.log.sectors.length + 1 := by
    rw [sectors_logged]
    split
    · omega
    · rw [List.length_append]
      rfl
  have hblk : (s.logged b d).blk 1 = s.blk 1 := by
    have := t.start
    rw [FsState.blk_logged, Function.update_of_ne (by omega), Function.update_of_ne hb.symm]
  have := t.logsize
  have := t.nlog
  have := t.buffers
  exact ⟨by rw [hblk]; exact t.superblock, t.start, t.size, t.disk, rfl,
    t.held, by omega, by omega, by omega⟩

/-- Before the log only the block itself changes. -/
lemma blk_logged (t : InTrans sb k s) {g : ℕ} (hg : g < sb.logStart) :
    (s.logged b d).blk g = Function.update s.blk b d g := by
  have := t.start
  rw [FsState.blk_logged, Function.update_of_ne (by omega)]

/-- The block itself, also where it is in the log, as long as its copy is elsewhere. -/
lemma blk_logged_self (hb : b ≠ s.copyPlace b) : (s.logged b d).blk b = d := by
  rw [copyPlace] at hb
  rw [FsState.blk_logged, Function.update_of_ne hb, Function.update_self]

/-- The copy of a block before the log is elsewhere. -/
lemma ne_copyPlace (t : InTrans sb k s) (hb : b < sb.logStart) : b ≠ s.copyPlace b := by
  have := t.start
  rw [copyPlace]
  omega

end InTrans

namespace Yields

lemma setData : Yields (Fs.setData b d) s () (s.setBlk b d) := act rfl

/-- `log_write` of a block that has been changed: it waits for ever if the copy goes to the block
itself, whose buffer the caller holds. -/
lemma exec_logWrite (t : InTrans sb (k + 1) s) (h1 : 1 < sb.logStart) :
    Act.exec (.logWrite b) ((s.setHeld [b]).setBlk b d) =
      if b = s.copyPlace b then .error .sleep ((s.setHeld [b]).setBlk b d)
      else .ok () ((s.logged b d).setHeld [b]) := by
  have hstart := t.start
  have hsize := t.size
  have hnlog := t.nlog
  have hlogsize := t.logsize
  have hbuffers := t.buffers
  have hidx : s.log.sectors.idxOf b ≤ s.log.sectors.length := List.idxOf_le_length
  have hbig : ¬ (LOGSIZE ≤ s.log.sectors.length ∨ s.log.size ≤ s.log.sectors.length + 1) := by omega
  have hbusy : ¬ NBUF ≤ ([b] ∪ s.log.sectors).length := by
    rw [List.cons_union, List.nil_union, List.insert]
    split
    · omega
    · rw [List.length_cons]
      omega
  have hstop : ((s.setHeld [b]).setBlk b d).breadStop (s.copyPlace b) =
      if b = s.copyPlace b then some .sleep else none := by
    have hdisk : ¬ s.disksize ≤ s.copyPlace b := by
      have hlog : sb.logStart = sb.size - sb.nlog := rfl
      have := t.disk
      rw [copyPlace]
      omega
    rw [breadStop]
    by_cases hself : b = s.copyPlace b
    · rw [if_pos hself]
      exact if_pos (List.mem_singleton.2 hself.symm)
    · rw [if_neg hself]
      exact (if_neg fun hin => hself (List.mem_singleton.1 hin).symm).trans
        ((if_neg fun hno => hbusy hno.2).trans (if_neg hdisk))
  by_cases hself : b = s.copyPlace b
  · rw [if_pos hself] at hstop ⊢
    rw [copyPlace] at hstop
    simp [Act.exec, setHeld, setBlk, hbig, t.busy] at hstop ⊢
    rw [hstop]
  · rw [if_neg hself] at hstop ⊢
    rw [copyPlace] at hstop
    simp [Act.exec, setHeld, setBlk, hbig, t.busy] at hstop ⊢
    rw [hstop]
    simp [FsState.logged]
    rfl

lemma logWrite (t : InTrans sb (k + 1) s) (h1 : 1 < sb.logStart) (hb : b ≠ s.copyPlace b) :
    Yields (Fs.logWrite b) ((s.setHeld [b]).setBlk b d) () ((s.logged b d).setHeld [b]) :=
  act ((exec_logWrite t h1).trans (if_neg hb))

lemma readsb (t : InTrans sb k s) (h1 : 1 < sb.size) : Yields (Fs.readsb ROOTDEV) s sb s := by
  refine seq (bread t.held t.spare (t.lt_disksize h1)) (seq data (seq (brelse t.held) ?_))
  rw [setHeld_blk, t.superblock]
  exact pure

lemma bzero (t : InTrans sb (k + 1) s) (h1 : 1 < sb.logStart) (hb : b < sb.size)
    (hself : b ≠ s.copyPlace b) : Yields (Fs.bzero ROOTDEV b) s () (s.logged b fun _ => 0) :=
  (bread t.held t.spare (t.lt_disksize hb)).seq
    (setData.seq ((logWrite t h1 hself).seq (brelse t.held)))

/-- `bzero` of a block whose copy goes to the block itself. -/
lemma bzero_sleeps (t : InTrans sb (k + 1) s) (h1 : 1 < sb.logStart) (hb : b < sb.size)
    (hself : b = s.copyPlace b) :
    (Fs.bzero ROOTDEV b).run Act.exec s = .error .sleep ((s.setHeld [b]).setBlk b fun _ => 0) := by
  rw [Fs.bzero, (bread t.held t.spare (t.lt_disksize hb)).run_bind, setData.run_bind]
  exact Prog.run_act_error ((exec_logWrite t h1).trans (if_pos hself))

end Yields

/-! ## Finding a clear bit -/

/-- The blocks below `sb.size` with a clear bit. -/
def Superblock.unused (sb : Superblock) (blk : ℕ → Block) :
    Set ℕ := {b | b < sb.size ∧ bitOf sb blk b = false}

lemma isLeast_unused {blk : ℕ → Block} (hc : c < sb.size) (hbit : bitOf sb blk c = false)
    (hset : ∀ b < c, bitOf sb blk b = true) : IsLeast (sb.unused blk) c := by
  refine ⟨⟨hc, hbit⟩, fun b hb => ?_⟩
  by_contra hlt
  have hclear := hb.2
  rw [hset b (not_le.1 hlt)] at hclear
  exact absurd hclear (by simp)

/-- A bitmap block without a clear bit does not have the bit of `c`. -/
lemma not_group_of_none {g : ℕ} (hc : c ∈ sb.unused s.blk)
    (hfind : Fs.firstFree (s.blk (BBLOCK (g * BPB) sb.ninodes)) (g * BPB) sb.size = none) :
    c / BPB ≠ g := by
  intro hg
  obtain ⟨j, hj, rfl⟩ := eq_group_add hg
  have hset := firstFree_none hfind hj hc.1
  rw [← bitOf_group hj, hc.2] at hset
  exact absurd hset (by simp)

/-- The first clear bit of the first bitmap block that has one is the first clear bit of all. -/
lemma eq_of_firstFree {g bi : ℕ} (hc : IsLeast (sb.unused s.blk) c) (hle : g ≤ c / BPB)
    (hfind : Fs.firstFree (s.blk (BBLOCK (g * BPB) sb.ninodes)) (g * BPB) sb.size = some bi) :
    g * BPB + bi = c := by
  obtain ⟨hbi, hsize, hbit⟩ := firstFree_spec hfind
  have hcle : c ≤ g * BPB + bi := hc.2 ⟨hsize, (bitOf_group hbi).trans hbit⟩
  have hgroup : c / BPB = g := by
    simp only [BPB] at hle hcle hbi ⊢
    omega
  obtain ⟨j, hj, rfl⟩ := eq_group_add hgroup
  have hle := firstFree_le hfind hc.1.1 ((bitOf_group hj).symm.trans hc.1.2)
  omega

/-- The log lies behind the bitmap. -/
def Superblock.Apart (sb : Superblock) : Prop := ∀ g, sb.IsBitmap g → g < sb.logStart

lemma Superblock.Apart.one_lt (h : sb.Apart) (hb : b < sb.size) : 1 < sb.logStart := by
  have := h _ ⟨b, hb, rfl⟩
  have := sb.three_le_bblock b
  omega

/-- What the allocator needs to know of block `c`: it is the first one with a clear bit, and lies
behind the bitmap. -/
structure Next (sb : Superblock) (s : FsState) (c : ℕ) : Prop where
  apart : sb.Apart
  least : IsLeast (sb.unused s.blk) c
  bitmap : ∀ g, sb.IsBitmap g → g < c

namespace Next

lemma bblock_lt (n : Next sb s c) (hb : b < sb.size) : BBLOCK b sb.ninodes < sb.logStart :=
  n.apart _ ⟨b, hb, rfl⟩

lemma one_lt (n : Next sb s c) : 1 < sb.logStart := n.apart.one_lt n.least.1.1

lemma ne_one (n : Next sb s c) : c ≠ 1 := by
  have := n.bitmap _ ⟨c, n.least.1.1, rfl⟩
  have := sb.three_le_bblock c
  omega

end Next

/-- After `balloc` has set and logged the bit of block `c`. -/
def FsState.marked (s : FsState) (sb : Superblock) (c : ℕ) : FsState :=
  s.logged (BBLOCK c sb.ninodes) ((s.blk (BBLOCK c sb.ninodes)).setBit (c % BPB))

lemma InTrans.marked (t : InTrans sb (k + 1) s) (n : Next sb s c) :
    InTrans sb k (s.marked sb c) := by
  have := sb.three_le_bblock c
  exact t.logged (by omega) n.one_lt

namespace Yields

/-- The loop of `balloc` finds the block, if its bit is in one of the bitmap blocks that are
searched. -/
lemma run_ballocLoop (t : InTrans sb (k + 1) s) (n : Next sb s c) {gs : List ℕ}
    (hmem : c / BPB ∈ gs) (hgs : ∀ g ∈ gs, g * BPB < sb.size) (hsorted : gs.Pairwise (· < ·)) :
    (Fs.ballocLoop ROOTDEV sb gs).run Act.exec s =
      (Fs.bzero ROOTDEV c >>= fun _ => Sys.act (.ballocDone c) >>=
        fun _ => Pure.pure c).run Act.exec
        (s.marked sb c) := by
  induction gs with
  | nil => exact absurd hmem List.not_mem_nil
  | cons g gs ih =>
      have hg := hgs g List.mem_cons_self
      have hbm := n.bblock_lt hg
      have hread : Yields (Fs.bread ROOTDEV (BBLOCK (g * BPB) sb.ninodes)) s
        (BBLOCK (g * BPB) sb.ninodes)
          (s.setHeld [BBLOCK (g * BPB) sb.ninodes]) :=
        bread t.held t.spare (t.lt_disksize (hbm.trans_le (Nat.sub_le _ _)))
      rw [Fs.ballocLoop]
      refine hread.run_bind.trans (data.run_bind.trans ?_)
      rw [setHeld_blk]
      cases hfind : Fs.firstFree (s.blk (BBLOCK (g * BPB) sb.ninodes)) (g * BPB) sb.size with
      | none =>
          have hrest : c / BPB ∈ gs := (List.mem_cons.1 hmem).resolve_left
            (not_group_of_none n.least.1 hfind)
          exact (brelse t.held).run_bind.trans
            (ih hrest (fun x hx => hgs x (List.mem_cons_of_mem g hx)) hsorted.of_cons)
      | some bi =>
          have hle : g ≤ c / BPB := by
            rcases List.mem_cons.1 hmem with h | h
            · exact h.ge
            · exact ((List.pairwise_cons.1 hsorted).1 _ h).le
          have hc := eq_of_firstFree n.least hle hfind
          obtain ⟨hbi, -, -⟩ := firstFree_spec hfind
          have hblock : BBLOCK c sb.ninodes = BBLOCK (g * BPB) sb.ninodes := by
            rw [← hc]
            simp only [BBLOCK, BPB] at hbi ⊢
            omega
          have hmod : c % BPB = bi := by
            rw [← hc]
            simp only [BPB] at hbi ⊢
            omega
          have t₁ := t.marked n
          rw [FsState.marked, hblock, hmod] at t₁ ⊢
          refine setData.run_bind.trans ((logWrite t n.one_lt (t.ne_copyPlace hbm)).run_bind.trans
            ((brelse t₁.held).run_bind.trans ?_))
          rw [hc]
          rfl

/-- `balloc` up to `bzero`. -/
lemma run_balloc (t : InTrans sb (k + 1) s) (n : Next sb s c) : ∃ o,
    (Fs.balloc ROOTDEV).run Act.exec s =
      (Fs.bzero ROOTDEV c >>= fun _ => Sys.act (.ballocDone c) >>=
        fun _ => Pure.pure c).run Act.exec
        ((s.marked sb c).setSeen o) := by
  have hmem : c / BPB ∈ List.range ((sb.size + BPB - 1) / BPB) := by
    have := n.least.1.1
    simp only [List.mem_range, BPB]
    omega
  let s₁ := s.setSeen { s.seen with readAlloc := s.seen.readAlloc || s.seen.reading }
  have n₁ : Next sb s₁ c := ⟨n.apart, n.least, n.bitmap⟩
  exact ⟨s₁.seen, (act (x := .ballocEnter) rfl).run_bind.trans
    ((readsb (t.setSeen _) (n.one_lt.trans_le (Nat.sub_le _ _))).run_bind.trans
      (run_ballocLoop (s := s₁) (t.setSeen _) n₁ hmem (fun _ => group_lt_size)
      List.pairwise_lt_range))⟩

/-- `balloc` takes the first block with a clear bit, if the log does not keep its copy in that
block. -/
lemma balloc (t : InTrans sb (k + 2) s) (n : Next sb s c)
    (hself : c ≠ (s.marked sb c).copyPlace c) :
    ∃ s', Yields (Fs.balloc ROOTDEV) s c s' ∧ InTrans sb k s' ∧ (s'.blk c = fun _ => 0) ∧
      ∀ g < sb.logStart, s'.blk g = allocHome sb s.blk c g := by
  obtain ⟨o, hrun⟩ := run_balloc t n
  have t₁ := (t.marked n).setSeen o
  have t₂ := t₁.logged (d := fun _ => 0) n.ne_one n.one_lt
  refine ⟨_, hrun.trans ((bzero t₁ n.one_lt n.least.1.1 hself).seq
    ((act (x := .ballocDone c) rfl).seq pure)), t₂.setSeen _, InTrans.blk_logged_self hself,
    fun x hx => ?_⟩
  change (FsState.logged _ c _).blk x = _
  rw [t₁.blk_logged hx, allocHome]
  by_cases hxc : x = c
  · rw [hxc, Function.update_self, Function.update_self]
  · rw [Function.update_of_ne hxc, Function.update_of_ne hxc]
    exact t.blk_logged hx

/-- Otherwise `balloc` waits for a buffer that it holds. -/
lemma balloc_sleeps (t : InTrans sb (k + 2) s) (n : Next sb s c)
    (hself : c = (s.marked sb c).copyPlace c) :
    ∃ s', (Fs.balloc ROOTDEV).run Act.exec s = .error .sleep s' := by
  obtain ⟨o, hrun⟩ := run_balloc t n
  have hstop := bzero_sleeps ((t.marked n).setSeen o) n.one_lt n.least.1.1 hself
  rw [hrun, Prog.run_bind]
  change ∃ s', EStateM.bind ((Fs.bzero ROOTDEV c).run Act.exec) _ _ = _
  rw [EStateM.bind, hstop]
  exact ⟨_, rfl⟩

/-- `bfree` of a block whose bit is set. -/
lemma bfree (t : InTrans sb (k + 1) s) (h : sb.Apart) (hb : b < sb.size)
    (hbit : bitOf sb s.blk b = true) :
    ∃ s', Yields (Fs.bfree ROOTDEV b) s () s' ∧ ∀ g < sb.logStart, s'.blk g =
      Function.update s.blk (BBLOCK b sb.ninodes)
      ((s.blk (BBLOCK b sb.ninodes)).clearBit (b % BPB)) g := by
  have h1 := h.one_lt hb
  have hlt := h _ ⟨b, hb, rfl⟩
  have hlog : sb.logStart ≤ sb.size := Nat.sub_le _ _
  refine ⟨s.logged (BBLOCK b sb.ninodes) ((s.blk (BBLOCK b sb.ninodes)).clearBit (b % BPB)), ?_,
    fun g hg => t.blk_logged hg⟩
  refine (readsb t (h1.trans_le hlog)).seq
    ((bread t.held t.spare (t.lt_disksize (hlt.trans_le hlog))).seq (data.seq ?_))
  rw [bitOf] at hbit
  rw [setHeld_blk, if_neg (by simp [hbit])]
  exact setData.seq ((logWrite t h1 (t.ne_copyPlace hlt)).seq (brelse t.held))

/-- `bfree` of a block whose bit is clear. -/
lemma bfree_panic (t : InTrans sb k s) (h : sb.Apart) (hb : b < sb.size)
    (hbit : bitOf sb s.blk b = false) :
    ∃ s', (Fs.bfree ROOTDEV b).run Act.exec s = .error (.panic "freeing free block") s' := by
  have hlog : sb.logStart ≤ sb.size := Nat.sub_le _ _
  refine ⟨s.setHeld [BBLOCK b sb.ninodes], (readsb t ((h.one_lt hb).trans_le hlog)).run_bind.trans
    ((bread t.held t.spare (t.lt_disksize ((h _ ⟨b, hb, rfl⟩).trans_le hlog))).run_bind.trans
      (data.run_bind.trans ?_))⟩
  rw [bitOf] at hbit
  rw [setHeld_blk, if_pos hbit]
  rfl

end Yields

/-! ## The set of blocks in use -/

/-- The superblock, the inode blocks and the bitmap blocks are different blocks. -/
lemma Superblock.layout (sb : Superblock) {inum : ℕ} (hinum : inum < sb.ninodes) (b : ℕ) :
    IBLOCK inum ≠ BBLOCK b sb.ninodes ∧ IBLOCK inum ≠ 1 ∧ BBLOCK b sb.ninodes ≠ 1 := by
  have hlt := sb.iblock_lt hinum
  have hle := sb.le_bblock b
  have hthree := sb.three_le_bblock b
  refine ⟨by omega, ?_, by omega⟩
  simp only [IBLOCK, IPB]
  omega

/-- The bits of a bitmap block that is the same. -/
lemma bitOf_congr {blk blk' : ℕ → Block} {x : ℕ}
    (h : blk' (BBLOCK x sb.ninodes) = blk (BBLOCK x sb.ninodes)) :
    bitOf sb blk' x = bitOf sb blk x := by
  rw [bitOf, h, bitOf]

namespace Next

/-- The bits after `balloc`. -/
lemma bitOf_alloc (n : Next sb s c) (hblk : ∀ g < sb.logStart, s'.blk g = allocHome sb s.blk c g)
    {x : ℕ} (hx : sb.IsBitmap (BBLOCK x sb.ninodes)) :
    bitOf sb s'.blk x = (bitOf sb s.blk x || decide (c = x)) := by
  rw [bitOf_congr (hblk _ (n.apart _ hx)), allocHome, bitOf_update_of_ne (n.bitmap _ hx).ne,
    bitOf_setBit]

/-- Clearing the bit that `balloc` has set. -/
lemma clear_alloc (n : Next sb s c) (hblk : ∀ g < sb.logStart, s'.blk g = allocHome sb s.blk c g)
    {g : ℕ} (hg : sb.IsBitmap g) : Function.update s'.blk (BBLOCK c sb.ninodes)
      ((s'.blk (BBLOCK c sb.ninodes)).clearBit (c % BPB)) g = s.blk g := by
  have hlt := n.bitmap g hg
  by_cases hgc : g = BBLOCK c sb.ninodes
  · have hplace : c % BPB / 8 < BSIZE := by
      simp only [BPB, BSIZE]
      omega
    subst hgc
    rw [Function.update_self, hblk _ (n.apart _ hg), allocHome, Function.update_of_ne hlt.ne,
      Function.update_self]
    exact Bytes.clearBit_setBit hplace n.least.1.2
  · rw [Function.update_of_ne hgc, hblk g (n.apart g hg), allocHome, Function.update_of_ne hlt.ne,
      Function.update_of_ne hgc]

end Next

/-- If the blocks up to the bitmap are in use, `balloc` takes the first block `c` with a clear bit,
sets its bit and no other and zeroes it, and `bfree` gives the bitmap back; this is so unless `c` is
the block of the log where `log_write` puts the copy of `c`.  `bfree` of any block clears its bit
and no other, or panics if it is clear. -/
theorem bitmap_set (t : InTrans sb 3 s) (h : sb.Apart) :
    ((∀ b g, sb.IsBitmap g → b ≤ g → bitOf sb s.blk b = true) → ∀ c, IsLeast (sb.unused s.blk) c →
      ((∃ s₁, Yields (Fs.balloc ROOTDEV) s c s₁ ∧ (s₁.blk c = fun _ => 0) ∧
        (∀ x, sb.IsBitmap (BBLOCK x sb.ninodes) →
          bitOf sb s₁.blk x = (bitOf sb s.blk x || decide (c = x))) ∧
        ∃ s₂, Yields (Fs.bfree ROOTDEV c) s₁ () s₂ ∧ ∀ g, sb.IsBitmap g → s₂.blk g = s.blk g) ↔
        c ≠ (s.marked sb c).copyPlace c)) ∧
    (∀ b < sb.size, bitOf sb s.blk b = true →
      ∃ s', Yields (Fs.bfree ROOTDEV b) s () s' ∧
        ∀ x, sb.IsBitmap (BBLOCK x sb.ninodes) → bitOf sb s'.blk x =
          (bitOf sb s.blk x && !decide (b = x))) ∧
    (∀ b < sb.size, bitOf sb s.blk b = false →
      ∃ s', (Fs.bfree ROOTDEV b).run Act.exec s = .error (.panic "freeing free block") s') ∧
    ∀ inum < sb.ninodes, ∀ b < sb.size,
      IBLOCK inum ≠ BBLOCK b sb.ninodes ∧ IBLOCK inum ≠ 1 ∧ BBLOCK b sb.ninodes ≠ 1 := by
  refine ⟨fun hused c hc => ?_, fun b hb hbit => ?_, fun b hb hbit =>
    Yields.bfree_panic t h hb hbit,
    fun inum hinum b _ => sb.layout hinum b⟩
  · have n : Next sb s c := by
      refine ⟨h, hc, fun g hg => ?_⟩
      by_contra hle
      have hset := hused c g hg (not_lt.1 hle)
      rw [hc.1.2] at hset
      exact absurd hset (by simp)
    constructor
    · rintro ⟨s₁, hy, -⟩ hself
      obtain ⟨s', hstop⟩ := Yields.balloc_sleeps t n hself
      rw [Yields, hstop] at hy
      exact absurd hy (by simp)
    · intro hself
      obtain ⟨s₁, hy₁, t₁, hzero, hblk₁⟩ := Yields.balloc t n hself
      have hbitmap : sb.IsBitmap (BBLOCK c sb.ninodes) := ⟨c, hc.1.1, rfl⟩
      have hset : bitOf sb s₁.blk c = true := by simp [n.bitOf_alloc hblk₁ hbitmap]
      obtain ⟨s₂, hy₂, hblk₂⟩ := Yields.bfree t₁ h hc.1.1 hset
      refine ⟨s₁, hy₁, hzero, fun x hx => n.bitOf_alloc hblk₁ hx, s₂, hy₂, fun g hg => ?_⟩
      rw [hblk₂ g (h g hg), n.clear_alloc hblk₁ hg]
  · obtain ⟨s', hy, hblk⟩ := Yields.bfree t h hb hbit
    exact ⟨s', hy, fun x hx => (bitOf_congr (hblk _ (h _ hx))).trans (bitOf_clearBit x)⟩

/-- The machine on a small image, in a transaction, with the first byte of the bitmap given. -/
def Fs.smallTrans (n : ℕ) (byte : UInt8) : FsState :=
  { Fs.small n with
    blk := Function.update (Fs.smallBlk n) 4 (Fs.zeroBlock.setByte 0 byte)
    log := { (Fs.small n).log with busy := true } }

lemma smallTrans_used {n : ℕ} {byte : UInt8} (hn : n < 100)
    (hused : ∀ b ≤ 4, bitOf (Fs.smallSb n) (Fs.smallTrans n byte).blk b = true) {b g : ℕ}
    (hg : (Fs.smallSb n).IsBitmap g) (hb : b ≤ g) : bitOf (Fs.smallSb n)
    (Fs.smallTrans n byte).blk b = true := by
  obtain ⟨x, hx, rfl⟩ := hg
  have hx : x < 16 + n := hx
  have hblock : BBLOCK x (Fs.smallSb n).ninodes = x / 4096 + 8 / 8 + 3 := by
    simp only [BBLOCK, Fs.smallSb, BPB, IPB]
  exact hused b (by omega)

lemma smallSb_apart {n : ℕ} (hn : n < 100) : (Fs.smallSb n).Apart := by
  rintro g ⟨x, hx, rfl⟩
  have hx : x < 16 + n := hx
  have hblock : BBLOCK x (Fs.smallSb n).ninodes = x / 4096 + 8 / 8 + 3 := by
    simp only [BBLOCK, Fs.smallSb, BPB, IPB]
  have hlog : (Fs.smallSb n).logStart = 16 + n - 10 := rfl
  omega

/-- The first block behind a bitmap whose other blocks are in use is taken and given back; so is the
first block of the log. -/
theorem bitmap_set_small :
    (∃ s₁, Yields (Fs.balloc ROOTDEV) (Fs.smallTrans 1 0x3f) 6 s₁ ∧ (s₁.blk 6 = fun _ => 0) ∧
      ∃ s₂, Yields (Fs.bfree ROOTDEV 6) s₁ () s₂ ∧ s₂.blk 4 = (Fs.smallTrans 1 0x3f).blk 4) ∧
    (∃ s₁, Yields (Fs.balloc ROOTDEV) (Fs.smallTrans 1 0x7f) 7 s₁) ∧
    (∃ s', Yields (Fs.bfree ROOTDEV 5) (Fs.smallTrans 1 0x3f) () s') ∧
    ∃ s', (Fs.bfree ROOTDEV 6).run Act.exec (Fs.smallTrans 1 0x3f) =
      .error (.panic "freeing free block") s' := by
  have t : InTrans (Fs.smallSb 1) 3 (Fs.smallTrans 1 0x3f) :=
    ⟨by decide +kernel, rfl, rfl, by decide, rfl, rfl, by decide, by decide, by decide⟩
  have t' : InTrans (Fs.smallSb 1) 3 (Fs.smallTrans 1 0x7f) :=
    ⟨by decide +kernel, rfl, rfl, by decide, rfl, rfl, by decide, by decide, by decide⟩
  have hleast : IsLeast ((Fs.smallSb 1).unused (Fs.smallTrans 1 0x3f).blk) 6 :=
    isLeast_unused (by decide) (by decide +kernel) (by decide +kernel)
  have hleast' : IsLeast ((Fs.smallSb 1).unused (Fs.smallTrans 1 0x7f).blk) 7 :=
    isLeast_unused (by decide) (by decide +kernel) (by decide +kernel)
  obtain ⟨halloc, hfree, hpanic, -⟩ := bitmap_set t (smallSb_apart (by decide))
  obtain ⟨s₁, hy, hzero, -, s₂, hy₂, hsame⟩ :=
    (halloc (fun b g => smallTrans_used (by decide) (by decide +kernel)) 6 hleast).2 (by decide)
  obtain ⟨s', hy', -⟩ := hfree 5 (by decide) (by decide +kernel)
  obtain ⟨s₃, hy₃, -⟩ := ((bitmap_set t' (smallSb_apart (by decide))).1
    (fun b g => smallTrans_used (by decide) (by decide +kernel)) 7 hleast').2 (by decide)
  exact ⟨⟨s₁, hy, hzero, s₂, hy₂, hsame 4 ⟨0, by decide, rfl⟩⟩, ⟨s₃, hy₃⟩, ⟨s', hy'⟩,
    hpanic 6 (by decide) (by decide +kernel)⟩

/-- The first block with a clear bit is in the log, and it is the one where the log would keep the
copy of that very block: `balloc` waits for a buffer that it holds. -/
theorem balloc_waits_for_itself :
    InTrans (Fs.smallSb 0) 3 (Fs.smallTrans 0 0xff) ∧
    (∀ b g, (Fs.smallSb 0).IsBitmap g → b ≤ g → bitOf (Fs.smallSb 0)
      (Fs.smallTrans 0 0xff).blk b = true) ∧
    IsLeast ((Fs.smallSb 0).unused (Fs.smallTrans 0 0xff).blk) 8 ∧
    ∃ s', (Fs.balloc ROOTDEV).run Act.exec (Fs.smallTrans 0 0xff) = .error .sleep s' ∧
    s'.held = [8] := by
  have hw : Wp ((Fs.balloc ROOTDEV).run Act.exec) (fun _ _ => False)
    (fun r s' => r = .sleep ∧ s'.held = [8])
      (Fs.smallTrans 0 0xff) := by decide +kernel
  obtain ⟨_, s', hstop, rfl, hheld⟩ := hw.stops
  exact ⟨⟨by decide +kernel, rfl, rfl, by decide, rfl, rfl, by decide, by decide, by decide⟩,
    fun b g => smallTrans_used (by decide) (by decide +kernel),
    isLeast_unused (by decide) (by decide +kernel) (by decide +kernel), s', hstop, hheld⟩

end Xv6
