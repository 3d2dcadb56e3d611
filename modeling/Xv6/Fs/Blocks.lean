import Xv6.Fs.Safe

/-!
# The block allocator and inode updates

Rules for the functions of `fs.c` that read the superblock, set and clear bits of the bitmap,
and write an inode back.  Each says which home blocks it writes.
-/

namespace Xv6

open Lib FsState

variable {mode : Mode} {sb : Superblock} {s s' : FsState} {h : ℕ → Block} {b : ℕ}

/-- What these functions find: a log with room before it for the superblock, the inodes and the
bitmap. -/
structure Mounted (sb : Superblock) (s : FsState) : Prop where
  sound : sb.Sound
  superblock : Superblock.decode (s.home 1) = sb
  start : s.log.start = sb.logStart
  journal : Journaled s.blk s.log
  readAlloc : s.seen.readAlloc = false

namespace Mounted

lemma lt_start (m : Mounted sb s) (hb : b < sb.dataStart) : b < s.log.start := by
  have := m.sound.room
  have := m.start
  omega

lemma home_eq (m : Mounted sb s) (hb : b < sb.dataStart) : s.blk b = s.home b :=
  (if_pos (m.lt_start hb)).symm

lemma setHeld (m : Mounted sb s) (l : List ℕ) : Mounted sb (s.setHeld l) :=
  ⟨m.sound, m.superblock, m.start, m.journal, m.readAlloc⟩

lemma setInode (m : Mounted sb s) (e : InodeId) (v : Inode) : Mounted sb (s.setInode e v) :=
  ⟨m.sound, m.superblock, m.start, m.journal, m.readAlloc⟩

/-- A free block before the log is free in the home blocks. -/
lemma hasRoom (m : Mounted sb s) (h : HasRoom sb s) :
    ∃ c < sb.logStart, bitOf sb s.home c = false := by
  obtain ⟨c, hc, hfree⟩ := h
  have hlog : sb.logStart ≤ sb.size := Nat.sub_le _ _
  rw [bitOf, m.home_eq (sb.bblock_lt_dataStart (by omega))] at hfree
  exact ⟨c, hc, hfree⟩

/-- Writing keeps the file system mounted as long as the superblock stays. -/
lemma wrote (m : Mounted sb s) (w : Wrote s h s') (h1 : h 1 = s.home 1) : Mounted sb s' :=
  ⟨m.sound, by rw [w.home, h1]; exact m.superblock, w.start.trans m.start, w.journal,
    w.readAlloc.trans m.readAlloc⟩

end Mounted

/-- Releasing the buffer that was taken before the writes. -/
lemma Wrote.release (w : Wrote (s.setHeld (b :: s.held)) h s') :
    Wrote s h (s'.setHeld (s'.held.erase b)) := by
  refine ⟨w.home, w.journal, w.start, w.inode, w.file, w.proc, ?_, w.reading, w.readAlloc⟩
  simp [w.held]

lemma Wrote.mem_held (w : Wrote (s.setHeld (b :: s.held)) h s') : b ∈ s'.held := by
  simp [w.held]

lemma firstFree_spec {d : Block} {size bi : ℕ} (hfind : Fs.firstFree d b size = some bi) :
    bi < BPB ∧ b + bi < size ∧ d.bitAt bi = false := by
  unfold Fs.firstFree at hfind
  generalize BPB = n at hfind ⊢
  obtain ⟨hp, hmem, -⟩ := List.find?_range_eq_some.1 hfind
  exact ⟨List.mem_range.1 hmem, by simpa using hp⟩

/-- The bit that is found is the first one. -/
lemma firstFree_le {d : Block} {size bi j : ℕ} (hfind : Fs.firstFree d b size = some bi)
    (hsize : b + j < size) (hbit : d.bitAt j = false) : bi ≤ j := by
  unfold Fs.firstFree at hfind
  obtain ⟨-, -, hfirst⟩ := List.find?_range_eq_some.1 hfind
  by_contra hlt
  simpa [hsize, hbit] using hfirst j (by omega)

lemma firstFree_none {d : Block} {size j : ℕ} (hfind : Fs.firstFree d b size = none) (hj : j < BPB)
    (hsize : b + j < size) : d.bitAt j = true := by
  unfold Fs.firstFree at hfind
  generalize BPB = n at hfind hj
  simpa [hsize] using List.find?_eq_none.1 hfind j (List.mem_range.2 hj)

/-- The bits of the blocks with the numbers from `g * BPB` on are in one bitmap block. -/
lemma bitOf_group {g j : ℕ} (hj : j < BPB) :
    bitOf sb h (g * BPB + j) = (h (BBLOCK (g * BPB) sb.ninodes)).bitAt j := by
  have hblock : BBLOCK (g * BPB + j) sb.ninodes = BBLOCK (g * BPB) sb.ninodes := by
    simp only [BBLOCK, BPB] at hj ⊢
    omega
  have hmod : (g * BPB + j) % BPB = j := by
    simp only [BPB] at hj ⊢
    omega
  rw [bitOf, hblock, hmod]

lemma eq_group_add {c g : ℕ} (hc : c / BPB = g) : ∃ j < BPB, c = g * BPB + j := by
  subst hc
  exact ⟨c % BPB, Nat.mod_lt _ (by decide), (Nat.div_add_mod' c BPB).symm⟩

/-- One of the bitmap blocks with the numbers `gs` has a clear bit of a block before the log. -/
def RoomIn (sb : Superblock) (h : ℕ → Block) (gs : List ℕ) : Prop :=
  ∃ c < sb.logStart, bitOf sb h c = false ∧ c / BPB ∈ gs

namespace RoomIn

variable {g bi : ℕ} {gs : List ℕ}

/-- The first of them has none. -/
lemma tail (hr : RoomIn sb h (g :: gs))
    (hfind : Fs.firstFree (h (BBLOCK (g * BPB) sb.ninodes)) (g * BPB) sb.size = none) :
    RoomIn sb h gs := by
  have hlog : sb.logStart ≤ sb.size := Nat.sub_le _ _
  obtain ⟨c, hc, hfree, hmem⟩ := hr
  refine ⟨c, hc, hfree, (List.mem_cons.1 hmem).resolve_left fun hg => ?_⟩
  obtain ⟨j, hj, rfl⟩ := eq_group_add hg
  rw [bitOf_group hj, firstFree_none hfind hj (by omega)] at hfree
  exact absurd hfree (by simp)

/-- The first of them has one, and then the block found is before the log. -/
lemma head (hr : RoomIn sb h (g :: gs)) (hsorted : (g :: gs).Pairwise (· < ·))
    (hfind : Fs.firstFree (h (BBLOCK (g * BPB) sb.ninodes)) (g * BPB) sb.size = some bi) :
    g * BPB + bi < sb.logStart := by
  have hlog : sb.logStart ≤ sb.size := Nat.sub_le _ _
  obtain ⟨hbi, -, -⟩ := firstFree_spec hfind
  obtain ⟨c, hc, hfree, hmem⟩ := hr
  rcases List.mem_cons.1 hmem with hg | hg
  · obtain ⟨j, hj, rfl⟩ := eq_group_add hg
    rw [bitOf_group hj] at hfree
    have := firstFree_le hfind (by omega) hfree
    omega
  · have hlt : g < c / BPB := (List.pairwise_cons.1 hsorted).1 _ hg
    have hle : (g + 1) * BPB ≤ c := (Nat.mul_le_mul_right BPB hlt).trans (Nat.div_mul_le_self c BPB)
    rw [Nat.add_mul] at hle
    omega

/-- All of the bitmap is searched. -/
lemma of_hasRoom (m : Mounted sb s) (hr : HasRoom sb s) :
    RoomIn sb s.home (List.range ((sb.size + BPB - 1) / BPB)) := by
  have hlog : sb.logStart ≤ sb.size := Nat.sub_le _ _
  obtain ⟨c, hc, hfree⟩ := m.hasRoom hr
  refine ⟨c, hc, hfree, List.mem_range.2 ?_⟩
  simp only [BPB]
  omega

end RoomIn

/-- The bitmap blocks that are searched are blocks of the file system. -/
lemma group_lt_size {g : ℕ} (hg : g ∈ List.range ((sb.size + BPB - 1) / BPB)) :
    g * BPB < sb.size := by
  have hlt := List.mem_range.1 hg
  simp only [BPB] at hlt ⊢
  omega

/-- The home blocks after `balloc` has taken block `b`: its bit is set, and it is zeroed. -/
def allocHome (sb : Superblock) (h : ℕ → Block) (b : ℕ) : ℕ → Block :=
  Function.update (Function.update h (BBLOCK b sb.ninodes)
    ((h (BBLOCK b sb.ninodes)).setBit (b % BPB))) b fun _ => 0

namespace Safe

lemma readsb {Q : Superblock → FsState → Prop} (m : Mounted sb s) (h : Q sb s) :
    Safe sb mode (Fs.readsb ROOTDEV) Q s := by
  have h1 : s.blk 1 = s.home 1 := m.home_eq (by have := sb.three_le_dataStart; omega)
  refine seq (bread m.readAlloc fun _ => seq (data (seq (brelse (by simp) (pure ?_)))))
  simpa [h1, m.superblock] using h

lemma bzero {Q : Unit → FsState → Prop} (m : Mounted sb s) (hb : b < s.log.start)
    (h : ∀ s', Wrote s (Function.update s.home b fun _ => 0) s' → Q () s') :
    Safe sb mode (Fs.bzero ROOTDEV b) Q s := by
  refine seq (bread m.readAlloc fun _ => seq (setData (seq ?_)))
  refine logWrite (m.setHeld _).journal m.readAlloc hb fun s' w => ?_
  exact brelse w.mem_held (h _ w.release)

/-- The end of `balloc`: it returns the block if that is not in the log area. -/
lemma ballocDone {Q : ℕ → FsState → Prop} (hr : s.seen.readAlloc = false)
    (hstart : s.log.start = sb.logStart) (hin : mode = .roomy → InData sb b)
    (hw : b < s.log.start → Watched (.ballocDone b) s)
    (h : b < s.log.start → ∀ s', Wrote s s.home s' → Q b s') (hj : b < s.log.start →
      Journaled s.blk s.log) :
    Safe sb mode (do Sys.act (.ballocDone b); Pure.pure b) Q s := by
  refine seq ?_
  by_cases hb : b < s.log.start
  · have hexec : guarded sb mode (.ballocDone b) s = .ok ()
        { s with seen := { s.seen with ballocs := s.seen.ballocs ++ [b] } } := by
      rw [guarded, if_pos ⟨hb, hin⟩, if_pos (hw hb)]
      rfl
    exact act hexec (pure (h hb _ ⟨rfl, hj hb, rfl, rfl, rfl, rfl, rfl, rfl, rfl⟩))
  · have hmode : mode ≠ .roomy := fun hm => hb (hstart ▸ (hin hm).2)
    have hexec : guarded sb mode (.ballocDone b) s = .error .sleep s := by
      rw [guarded, if_neg fun h => hb h.1, if_neg hmode]
    exact act_sleep hexec hr

lemma ballocLoop {Q : ℕ → FsState → Prop} {gs : List ℕ} (m : Mounted sb s)
    (hlow : ∀ b < sb.dataStart, bitOf sb s.home b = true)
    (hroom : mode = .roomy → RoomIn sb s.home gs)
    (hw : ∀ b s', b < sb.logStart → bitOf sb s.home b = false →
      Wrote s (allocHome sb s.home b) s' →
      Watched (.ballocDone b) s')
    (h : ∀ b s', b < sb.logStart → bitOf sb s.home b = false →
      Wrote s (allocHome sb s.home b) s' → Q b s')
    (hgs : ∀ g ∈ gs, g * BPB < sb.size) (hsorted : gs.Pairwise (· < ·)) :
    Safe sb mode (Fs.ballocLoop ROOTDEV sb gs) Q s := by
  induction gs with
  | nil =>
      rw [Fs.ballocLoop]
      exact panic m.readAlloc (by decide)
  | cons g gs ih =>
      have hbm : BBLOCK (g * BPB) sb.ninodes < sb.dataStart :=
        sb.bblock_lt_dataStart (hgs g (by simp))
      rw [Fs.ballocLoop]
      refine seq (bread m.readAlloc fun _ => seq (data ?_))
      rw [setHeld_blk, m.home_eq hbm]
      cases hfind : Fs.firstFree (s.home (BBLOCK (g * BPB) sb.ninodes)) (g * BPB) sb.size with
      | none =>
          refine seq (brelse (by simp) ?_)
          refine (setHeld_self (s := s)) ▸ ?_
          simp only [setHeld_held, List.erase_cons_head, setHeld_setHeld]
          exact ih (fun hm => (hroom hm).tail hfind) (fun g hg => hgs g (by simp [hg]))
            hsorted.of_cons
      | some bi =>
          obtain ⟨hbi, -, hfree⟩ := firstFree_spec hfind
          have hbit : bitOf sb s.home (g * BPB + bi) = false := (bitOf_group hbi).trans hfree
          have hfirst : mode = .roomy → g * BPB + bi < sb.logStart :=
            fun hm => (hroom hm).head hsorted hfind
          have hdata : sb.dataStart ≤ g * BPB + bi := by
            by_contra hlt
            rw [hlow _ (not_le.1 hlt)] at hbit
            exact absurd hbit (by simp)
          refine seq (setData (seq ?_))
          refine logWrite (m.setHeld _).journal m.readAlloc (m.lt_start hbm) fun s₁ w₁ => ?_
          refine seq (brelse w₁.mem_held ?_)
          have w₁ := w₁.release
          generalize s₁.setHeld (s₁.held.erase _) = s₂ at w₁ ⊢
          by_cases hstart : g * BPB + bi < s.log.start
          · have hne : BBLOCK (g * BPB) sb.ninodes ≠ 1 := by
              have := sb.three_le_bblock (g * BPB)
              omega
            have hblock : BBLOCK (g * BPB + bi) sb.ninodes = BBLOCK (g * BPB) sb.ninodes := by
              simp only [BBLOCK, BPB] at hbi ⊢
              omega
            have hmod : (g * BPB + bi) % BPB = bi := by
              simp only [BPB] at hbi ⊢
              omega
            have m₂ : Mounted sb s₂ := m.wrote w₁ (Function.update_of_ne hne.symm _ _)
            refine seq (bzero m₂ (by rwa [w₁.start]) fun s₃ w₃ => ?_)
            have w₃' := w₁.trans w₃
            have hwrote : ∀ s₄, Wrote s₃ s₃.home s₄ → Wrote s
                (allocHome sb s.home (g * BPB + bi)) s₄ := by
              intro s₄ w₄
              rw [allocHome, hblock, hmod]
              rw [w₃'.home, w₁.home] at w₄
              exact w₃'.trans w₄
            have hlogStart : g * BPB + bi < sb.logStart := by rwa [← m.start]
            exact ballocDone (w₃'.readAlloc.trans m.readAlloc) (w₃'.start.trans m.start)
              (fun _ => ⟨hdata, hlogStart⟩)
              (fun _ => hw _ _ hlogStart hbit (hwrote s₃ (.refl w₃'.journal)))
              (fun _ s₄ w₄ => h _ _ hlogStart hbit (hwrote s₄ w₄)) fun _ => w₃'.journal
          · -- a block of the log area: the run is cut off when `balloc` returns it
            have hmode : mode ≠ .roomy := fun hm => hstart (m.start ▸ hfirst hm)
            have hr₂ := w₁.readAlloc.trans m.readAlloc
            refine seq (seq (bread hr₂ fun _ => seq (setData (seq ?_))))
            refine logWrite_of hr₂ (brelse (by simp [FsState.logged, setBlk]) ?_)
            have hnot : ∀ {P : Prop}, g * BPB + bi < s₂.log.start → P :=
              fun hlt => absurd (w₁.start ▸ hlt) hstart
            exact ballocDone hr₂ (w₁.start.trans m.start) (fun hm => absurd hm hmode)
              (fun hlt => hnot hlt) (fun hlt => hnot hlt) fun hlt => hnot hlt

/-- `balloc` outside of `readi` takes a free block that is not in the log area. -/
lemma balloc {Q : ℕ → FsState → Prop} (m : Mounted sb s)
    (hlow : ∀ b < sb.dataStart, bitOf sb s.home b = true) (hread : s.seen.reading = false)
    (hw : ∀ b s', b < sb.logStart → bitOf sb s.home b = false →
      Wrote s (allocHome sb s.home b) s' →
      Watched (.ballocDone b) s')
    (h : ∀ b s', b < sb.logStart → bitOf sb s.home b = false →
      Wrote s (allocHome sb s.home b) s' → Q b s') :
    Safe sb mode (Fs.balloc ROOTDEV) Q s := by
  by_cases hcut : mode = .roomy ∧ ¬ HasRoom sb s
  · have hexec : guarded sb mode .ballocEnter s = .error .sleep s := by rw [guarded, if_pos hcut]
    exact seq (act_sleep hexec m.readAlloc)
  · have hexec : guarded sb mode .ballocEnter s = .ok () s := by
      have hsame : (s.seen.readAlloc || s.seen.reading) = s.seen.readAlloc := by simp [hread]
      rw [guarded, if_neg hcut]
      simp only [Act.exec, hsame]
    have hroom : mode = .roomy → RoomIn sb s.home (List.range ((sb.size + BPB - 1) / BPB)) :=
      fun hm => .of_hasRoom m (not_not.1 fun hno => hcut ⟨hm, hno⟩)
    exact seq (act hexec (seq (readsb m (ballocLoop m hlow hroom hw h (fun _ => group_lt_size)
      List.pairwise_lt_range))))

/-- `bfree` of a block whose bit is set. -/
lemma bfree {Q : Unit → FsState → Prop} (m : Mounted sb s) (hb : b < sb.size)
    (hbit : bitOf sb s.home b = true)
    (h : ∀ s', Wrote s (Function.update s.home (BBLOCK b sb.ninodes)
      ((s.home (BBLOCK b sb.ninodes)).clearBit (b % BPB))) s' → Q () s') :
    Safe sb mode (Fs.bfree ROOTDEV b) Q s := by
  have hbm := sb.bblock_lt_dataStart hb
  refine seq (readsb m (seq (bread m.readAlloc fun _ => seq (data ?_))))
  rw [bitOf] at hbit
  rw [setHeld_blk, m.home_eq hbm, if_neg (by simp [hbit])]
  refine seq (setData (seq ?_))
  refine logWrite (m.setHeld _).journal m.readAlloc (m.lt_start hbm) fun s' w => ?_
  exact brelse w.mem_held (h _ w.release)

/-- `iupdate` writes the inode back. -/
lemma iupdate {Q : Unit → FsState → Prop} {e : InodeId} {x : ℕ} (m : Mounted sb s)
    (hdev : (s.inode e).dev = ROOTDEV) (hinum : (s.inode e).inum = x) (hx : x < sb.ninodes)
    (h : ∀ s', Wrote s (Function.update s.home (IBLOCK x)
      ((s.inode e).toDInode.encode (s.home (IBLOCK x)) (Fs.inodeOffset x))) s' → Q () s') :
    Safe sb mode (Fs.iupdate e) Q s := by
  subst hinum
  have hblk := sb.iblock_lt_dataStart hx
  refine seq (getInode ?_)
  rw [hdev]
  refine seq (bread m.readAlloc fun _ => seq (data ?_))
  rw [setHeld_blk, m.home_eq hblk]
  refine seq (setData (seq ?_))
  refine logWrite (m.setHeld _).journal m.readAlloc (m.lt_start hblk) fun s' w => ?_
  exact brelse w.mem_held (h _ w.release)

end Safe

/-! ## The inodes on disk after a write -/

variable {x y : ℕ} {v : DInode} {d : Block} {c : ℕ}

lemma inodeOffset_add_le (x : ℕ) : Fs.inodeOffset x + 64 ≤ BSIZE := by
  simp only [Fs.inodeOffset, IPB, BSIZE]
  omega

/-- The inodes after one of them has been stored. -/
lemma dinodeAt_encode : dinodeAt (Function.update h (IBLOCK x)
    (v.encode (h (IBLOCK x)) (Fs.inodeOffset x))) y = if y = x then v else dinodeAt h y := by
  by_cases hyx : y = x
  · subst hyx
    rw [if_pos rfl, dinodeAt, Function.update_self]
    exact DInode.decode_encode (inodeOffset_add_le y)
  · rw [if_neg hyx, dinodeAt]
    by_cases hblk : IBLOCK y = IBLOCK x
    · have hdisj : Fs.inodeOffset y + 64 ≤ Fs.inodeOffset x ∨
          Fs.inodeOffset x + 64 ≤ Fs.inodeOffset y := by
        simp only [IBLOCK, Fs.inodeOffset, IPB] at hblk ⊢
        omega
      rw [hblk, Function.update_self, DInode.decode_encode_of_disj hdisj, dinodeAt, hblk]
    · rw [Function.update_of_ne hblk, dinodeAt]

lemma dinodeAt_update_of_ne (hc : IBLOCK y ≠ c) :
    dinodeAt (Function.update h c d) y = dinodeAt h y := by
  rw [dinodeAt, Function.update_of_ne hc, dinodeAt]

/-- Blocks outside of the inode area do not matter for the inodes on disk. -/
lemma dinodeAt_update (hy : y < sb.ninodes) (hc : sb.ninodes / IPB + 3 ≤ c) :
    dinodeAt (Function.update h c d) y = dinodeAt h y := by
  have := sb.iblock_lt hy
  exact dinodeAt_update_of_ne (by omega)

end Xv6
