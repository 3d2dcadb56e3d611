import Xv6.Fs.Effect

/-!
# Block ownership in every reachable state

From a well-formed image, and as long as `balloc` returns no block of the log area, the
invariant holds whenever no call is running.  The rules of `Safe` speak about runs with a
monitor; `guarded_run` carries what they say over to the kernel's runs.
-/

namespace Xv6

open Lib FsState

variable {sb : Superblock} {s s' : FsState} {blk : ℕ → Block} {disksize : ℕ} {o : Outside}

/-- A well-formed image: there is room before the log, the bits of the bitmap are those of the
reserved blocks and of the blocks that inodes refer to, each from one place, files have no
holes, entries of directories name inodes, and the root is a directory. -/
structure WellFormed (sb : Superblock) (blk : ℕ → Block) : Prop where
  sound : sb.Sound
  superblock : Superblock.decode (blk 1) = sb
  good : Good sb blk (dinodeAt blk) []
  root : (dinodeAt blk ROOTINO).type = T_DIR

/-- `balloc` has returned no block of the log area. -/
def Apart (s : FsState) : Prop := ∀ b ∈ s.seen.ballocs, b < s.log.start

/-! ## From monitored runs to runs -/

/-- No action moves the log or forgets a block that `balloc` has returned. -/
lemma ballocs_exec (a : Act) (s : FsState) :
    (endState a.exec s).log.start = s.log.start ∧
      s.seen.ballocs ⊆ (endState a.exec s).seen.ballocs := by
  refine Wp.endState (P := fun t : FsState => t.log.start = s.log.start ∧ s.seen.ballocs ⊆
    t.seen.ballocs) ?_
  rw [Wp]
  generalize hx : a.exec s = x
  cases a with
  | ballocDone b =>
      subst hx
      exact ⟨rfl, List.subset_append_left _ _⟩
  | pipeclose page writable =>
      subst hx
      simp only [Act.exec, FsState.pipeclose]
      split <;> exact ⟨rfl, List.Subset.refl _⟩
  | _ =>
      simp only [Act.exec] at hx
      repeat' split at hx
      all_goals subst hx; exact ⟨rfl, List.Subset.refl _⟩

lemma not_apart_exec {a : Act} {s : FsState} (h : ¬ Apart s) : ¬ Apart (endState a.exec s) := by
  obtain ⟨hstart, hsub⟩ := ballocs_exec a s
  exact fun hap => h fun b hb => hstart ▸ hap b (hsub hb)

lemma Apart.of_run {α : Type} {p : Sys α} {s : FsState} (h : Apart (endState (p.run Act.exec) s)) :
    Apart s := by
  by_contra hno
  exact Prog.endState_run_of_bad (B := fun s => ¬ Apart s) (fun _ _ => not_apart_exec) p hno h

/-- The monitor stops a run, or `balloc` returns a block of the log, or the monitor has no
objection and nothing is different. -/
lemma guarded_cases (a : Act) (s : FsState) :
    (Watched a s ∧ guarded sb .lax a s = a.exec s) ∨
      (∃ s', guarded sb .lax a s = .error (.panic "monitor") s') ∨ ¬ Apart (endState a.exec s) := by
  cases a with
  | ballocEnter => exact .inl ⟨trivial, by rw [guarded, if_neg fun h => absurd h.1 (by decide)]⟩
  | ballocDone b =>
      by_cases hb : b < s.log.start
      · have hif : b < s.log.start ∧ (Mode.lax = .roomy → InData sb b) := ⟨hb, fun h => absurd h (by decide)⟩
        by_cases hw : Watched (.ballocDone b) s
        · exact .inl ⟨hw, by rw [guarded, if_pos hif, if_pos hw]⟩
        · exact .inr (.inl ⟨s, by rw [guarded, if_pos hif, if_neg hw]⟩)
      · refine .inr (.inr fun hap => hb (hap b ?_))
        exact List.mem_append_right _ (by simp)
  | iallocDone x =>
      by_cases hw : Watched (.iallocDone x) s
      · exact .inl ⟨hw, by simp [guarded, hw]⟩
      · exact .inr (.inl ⟨s, by simp [guarded, hw]⟩)
  | commitTrans =>
      by_cases hw : Watched .commitTrans s
      · exact .inl ⟨hw, by simp [guarded, hw]⟩
      · exact .inr (.inl ⟨s, by simp [guarded, hw]⟩)
  | iputStart e =>
      by_cases hw : Watched (.iputStart e) s
      · exact .inl ⟨hw, by simp [guarded, hw]⟩
      · exact .inr (.inl ⟨s, by simp [guarded, hw]⟩)
  | _ => exact .inl ⟨trivial, rfl⟩

/-- The monitor does not stop a run that a rule is about. -/
lemma Safe.ne_monitor {α : Type} {mode : Mode} {p : Sys α} {Q : α → FsState → Prop} {s s' : FsState}
    (h : Safe sb mode p Q s) : p.run (guarded sb mode) s ≠ .error (.panic "monitor") s' := by
  intro hx
  exact (h.error hx).1 "monitor" (by decide) rfl

/-- What a rule says of a program holds of its runs, and the monitor never objects. -/
lemma Safe.of_apart {α : Type} {p : Sys α} {Q : α → FsState → Prop} {s : FsState}
    (h : Safe sb .lax p Q s) (hap : Apart (endState (p.run Act.exec) s)) :
    Wp (p.run Act.exec) Q Fine s ∧ p.Meets Act.exec Watched s := by
  obtain ⟨hrun, hmeets⟩ := Prog.run_eq_of_guarded (B := fun s => ¬ Apart s) guarded_cases
    (fun _ _ => not_apart_exec) (not_not.2 hap) fun s' => h.ne_monitor
  refine ⟨?_, hmeets⟩
  rw [Wp, ← hrun]
  exact h

/-! ## The start -/

/-- A well-formed image is good as far as the log, which nothing refers to. -/
lemma WellFormed.good_home (wf : WellFormed sb blk) :
    Good sb (homeOf sb.logStart blk) (dinodeAt blk) [] := by
  refine wf.good.congr (fun l b hl => if_pos (wf.good.home l b hl)) (fun b hb => ?_)
    wf.sound.dataStart_le_size
  rw [bitOf, bitOf, homeOf, if_pos ((sb.bblock_lt_dataStart hb).trans_le wf.sound.room)]

lemma dinodeAt_homeOf {start x : ℕ} (hx : x < sb.ninodes) (hroom : sb.dataStart ≤ start) :
    dinodeAt (homeOf start blk) x = dinodeAt blk x := by
  rw [dinodeAt, dinodeAt, homeOf, if_pos ((sb.iblock_lt_dataStart hx).trans_le hroom)]

lemma boot_ref_pos {e : InodeId} (h : 0 < ((Fs.boot sb blk disksize o).inode e).ref) :
    e = Fs.rootEntry := by
  by_contra hne
  simp [Fs.boot, hne] at h

lemma boot_consistent (wf : WellFormed sb blk) :
    Consistent sb (Fs.boot sb blk disksize o) (dinodeAt blk) [] := by
  have hone : 1 < sb.logStart := by
    have := sb.three_le_dataStart
    have := wf.sound.room
    omega
  refine ⟨⟨wf.sound, ?_, rfl, ⟨by simp [Fs.boot], by simp [Fs.boot], List.nodup_nil, fun _ => rfl⟩,
    rfl⟩,
    ⟨fun e he => ?_, fun e he => ?_, fun e e' he he' _ => ?_, fun e _ hv => ?_,
      fun x hx _ => dinodeAt_homeOf hx wf.sound.room, by simp⟩, wf.good_home⟩
  · rw [home_of_lt hone]
    exact wf.superblock
  · obtain rfl := boot_ref_pos he
    rfl
  · obtain rfl := boot_ref_pos he
    exact wf.sound.root
  · rw [boot_ref_pos he, boot_ref_pos he']
  · exact absurd hv (by simp [Fs.boot])

/-- The invariant holds at the start. -/
lemma boot_inv (wf : WellFormed sb blk) : Inv sb [] (Fs.boot sb blk disksize o) := by
  have hlinks : ∀ e, refs (Fs.boot sb blk disksize o).links e = 0 := fun e =>
    refs_eq_zero fun f => by simp [links, File.link, Fs.boot]
  refine ⟨⟨_, boot_consistent wf⟩, rfl, fun e => ?_, fun f e hf => ?_, fun _ _ => rfl⟩
  · rw [hlinks, List.count_nil]
    by_cases he : e = Fs.rootEntry
    · simp [refs, cwds, Fs.boot, he, Finset.filter_eq']
    · simp [refs, cwds, Fs.boot, he, Ne.symm he]
  · exact absurd hf (by simp [File.link, Fs.boot])

lemma boot_dirs (wf : WellFormed sb blk) : Dirs (Fs.boot sb blk disksize o) := by
  intro p e hp
  have he : e = Fs.rootEntry := by
    by_cases h : p = Fs.initproc
    · simpa [Fs.boot, h, eq_comm] using hp
    · simp [Fs.boot, h] at hp
  subst he
  exact (congrArg DInode.type (dinodeAt_homeOf wf.sound.root wf.sound.room)).trans wf.root

/-! ## Runs -/

/-- The invariant of whole runs. -/
structure Sound (sb : Superblock) (s : FsState) : Prop where
  inv : Inv sb [] s
  dirs : Dirs s

/-- What a call does from a state of the run. -/
lemma Sound.call {p : ProcId} {c : Fs.Call} (h : Sound sb s) (hc : c.Enabled s p)
    (hap : Apart (endState ((c.prog p).run Act.exec) s)) :
    Wp ((c.prog p).run Act.exec) (fun _ s' => Done sb p c s s') Fine s ∧
      (c.prog p).Meets Act.exec Watched s :=
  (Safe.done h.inv h.dirs hc).of_apart hap

lemma Sound.step {l : Fs.Event} {r : Option Fs.Record} (h : Sound sb s) (hl : l.Enabled s)
    (hs : Fs.step s l = some (s', r)) (hap : Apart s') : Sound sb s' := by
  cases l with
  | call p c =>
      obtain ⟨v, hx, -⟩ := Fs.step_call hs
      have hend : endState ((c.prog p).run Act.exec) s = s' := by rw [endState, hx]
      have hd := (h.call hl (hend ▸ hap)).1.ok hx
      exact ⟨hd.effect.inv, hd.effect.dirs⟩
  | outside o =>
      obtain ⟨rfl, -⟩ : s.setOutside o = s' ∧ none = r := by
        simpa [Fs.step, setOutside] using hs
      exact ⟨h.inv.setOutside o, h.dirs⟩

lemma Apart.of_step {l : Fs.Event} {r : Option Fs.Record} (hs : Fs.step s l = some (s', r))
    (hap : Apart s') : Apart s := by
  cases l with
  | call p c =>
      obtain ⟨v, hx, -⟩ := Fs.step_call hs
      exact .of_run (p := c.prog p) (by rwa [endState, hx])
  | outside o =>
      obtain ⟨rfl, -⟩ : s.setOutside o = s' ∧ none = r := by simpa [Fs.step, setOutside] using hs
      exact hap

/-- The invariant holds in every state that is reached without a block of the log area. -/
lemma Sound.of_reached {es : List Fs.Record} (wf : WellFormed sb blk)
    (h : Fs.Reached (Fs.boot sb blk disksize o) es s) (hap : Apart s) : Sound sb s := by
  refine h.invariant (I := fun _ s => Apart s → Sound sb s) (fun _ => ⟨boot_inv wf, boot_dirs wf⟩)
    (fun hI hl hs hap => ?_) hap
  exact (hI (hap.of_step hs)).step hl hs hap

/-! ## Ownership -/

/-- The places that refer to block `b`: inodes that are allocated, with entries of `addrs` and
of their indirect blocks. -/
def holders (sb : Superblock) (blk : ℕ → Block) (b : ℕ) : Finset (ℕ × ℕ) :=
  (Finset.range sb.ninodes ×ˢ Finset.range NSLOT).filter fun l =>
    own sb blk (dinodeAt blk) l = some b

/-- Only the inodes of the file system count. -/
lemma Good.congr_ino {h : ℕ → Block} {ino ino' : ℕ → DInode} {pend : List ℕ}
    (g : Good sb h ino pend) (hino : ∀ x < sb.ninodes, ino' x = ino x) : Good sb h ino' pend := by
  have hown : own sb h ino' = own sb h ino := by
    funext l
    rw [own, own]
    by_cases hl : l.1 < sb.ninodes
    · rw [hino _ hl]
    · rw [if_neg fun hc => hl hc.1, if_neg fun hc => hl hc.1]
  refine ⟨hown ▸ g.owns, hown ▸ g.home, g.pendHome, g.reserved, fun x hx => ?_, fun x hx => ?_⟩
  · rw [hino x hx]
    exact g.filled x hx
  · rw [hino x hx]
    exact g.entries x hx

/-- The image on disk and in the log's blocks is good. -/
lemma Sound.good (h : Sound sb s) : Good sb s.blk (dinodeAt s.blk) [] := by
  obtain ⟨ino, c⟩ := h.inv.content
  have hroom : sb.dataStart ≤ s.log.start := c.mounted.start ▸ c.mounted.sound.room
  have g : Good sb s.home (dinodeAt s.blk) [] := c.good.congr_ino fun x hx => by
    rw [← c.node_eq hx]
    exact (dinodeAt_homeOf hx hroom).symm
  refine g.congr (fun l b hl => (home_of_lt (c.mounted.start ▸ g.home l b hl)).symm)
    (fun b hb => ?_) c.mounted.sound.dataStart_le_size
  rw [bitOf, bitOf, home_of_lt ((sb.bblock_lt_dataStart hb).trans_le hroom)]

lemma own_mem_places {h : ℕ → Block} {ino : ℕ → DInode} {l : ℕ × ℕ} {b : ℕ}
    (hl : own sb h ino l = some b) : l ∈ Finset.range sb.ninodes ×ˢ Finset.range NSLOT := by
  obtain ⟨hx, -, hk, hb⟩ := own_eq_some.1 hl
  rw [Finset.mem_product, Finset.mem_range, Finset.mem_range]
  refine ⟨hx, ?_⟩
  by_contra hge
  exact hb (hk.symm.trans (slotOf_of_ge (not_lt.1 hge)))

/-- Every block at or above the first data block is marked iff it occurs exactly once among the
addresses of the allocated inodes, and unmarked iff it occurs nowhere; no file has a hole; no
call frees a free block, and `readi` never reaches `balloc`. -/
theorem block_ownership {es : List Fs.Record} (wf : WellFormed sb blk)
    (h : Fs.Reached (Fs.boot sb blk disksize o) es s) (hap : Apart s) :
    (∀ b, sb.dataStart ≤ b → b < sb.size →
      (bitOf sb s.blk b = true ↔ (holders sb s.blk b).card = 1) ∧
      (bitOf sb s.blk b = false ↔ (holders sb s.blk b).card = 0)) ∧
    (∀ x < sb.ninodes, (dinodeAt s.blk x).type ≠ 0 → (dinodeAt s.blk x).type ≠ T_DEV →
      ∀ bn, bn * BSIZE < (dinodeAt s.blk x).size.toNat →
        slotOf s.blk (dinodeAt s.blk x) (fileSlot bn) ≠ 0) ∧
    (∀ (p : ProcId) (c : Fs.Call), c.Enabled s p → Apart (endState ((c.prog p).run Act.exec) s) →
      (∀ t, (c.prog p).run Act.exec s ≠ .error (.panic "freeing free block") t) ∧
      (endState ((c.prog p).run Act.exec) s).seen.readAlloc = false) := by
  have hs := Sound.of_reached wf h hap
  have g := hs.good
  refine ⟨fun b hb hlt => ?_, fun x hx ht hd bn hbn => g.filled x hx ht hd bn hbn,
    fun p c hc hap' => ?_⟩
  · have hcard := g.owns.card_holders ⟨hb, hlt⟩ _ fun l hl => own_mem_places hl
    exact ⟨hcard.1, by rw [← Bool.not_eq_true]; exact hcard.2⟩
  · have hw := (hs.call hc hap').1
    refine ⟨fun t hx => (hw.error hx).1 "freeing free block" (by decide) rfl, ?_⟩
    exact Wp.endState (P := fun s' : FsState => s'.seen.readAlloc = false)
      (hw.mono (fun _ _ hd => hd.effect.inv.readAlloc) fun _ _ hf => hf.2)

/-! ## The small image -/

namespace Fs

lemma small_root {n : ℕ} : dinodeAt (smallBlk n) 1 = smallRoot := DInode.decode_encode (by decide)

lemma small_free {n x : ℕ} (hx : x < 8) (hne : x ≠ 1) : (dinodeAt (smallBlk n) x).type = 0 := by
  have hblk : smallBlk n (IBLOCK x) = smallRoot.encode zeroBlock 64 := by
    rw [show IBLOCK x = 2 by simp only [IBLOCK, IPB]; omega]
    rfl
  rw [dinodeAt, hblk]
  clear hblk
  revert x
  decide

lemma small_slot {n k : ℕ} : slotOf (smallBlk n) smallRoot k = if k = 0 then 5 else 0 := by
  rw [slotOf]
  split
  · rename_i hk
    rw [DInode.addr, dif_pos (by omega)]
    simp only [smallRoot]
    split <;> rfl
  · rw [if_pos (by rfl), if_neg (by omega)]

/-- The small image has one inode, the root, with one block. -/
lemma small_own {n x k b : ℕ} :
    own (smallSb n) (smallBlk n) (dinodeAt (smallBlk n)) (x, k) = some b ↔
      x = 1 ∧ k = 0 ∧ b = 5 := by
  rw [own_eq_some]
  constructor
  · rintro ⟨hx, ht, hk, hb⟩
    obtain rfl : x = 1 := by
      by_contra hne
      exact ht (small_free hx hne)
    simp only [small_root, small_slot] at hk
    split at hk
    · rename_i hzero
      exact ⟨rfl, hzero, hk.symm⟩
    · exact absurd hk.symm hb
  · rintro ⟨rfl, rfl, rfl⟩
    simp only [small_root, small_slot]
    exact ⟨show 1 < 8 by decide, by decide, rfl, by decide⟩

lemma small_bit {n b : ℕ} (hb : b < 4096) :
    bitOf (smallSb n) (smallBlk n) b = decide (b < 6) := by
  have hblk : smallBlk n (BBLOCK b 8) = zeroBlock.setByte 0 0x3f := by
    rw [show BBLOCK b 8 = 4 by simp only [BBLOCK, IPB, BPB]; omega]
    rfl
  rw [bitOf, show (smallSb n).ninodes = 8 from rfl, hblk, show b % BPB =
    b by simp only [BPB]; omega,
    Bytes.bitAt]
  by_cases hlow : b < 8
  · clear hblk hb
    revert b
    decide
  · have hzero : (zeroBlock.setByte 0 0x3f).byteAt (b / 8) = 0 := by
      rw [Bytes.byteAt_setByte_of_ne (by omega), Bytes.byteAt]
      split <;> rfl
    rw [hzero, decide_eq_false (by omega)]
    simp

lemma small_superblock {n : ℕ} (hn : n < 4080) : Superblock.decode (smallBlk n 1) = smallSb n := by
  have hroom : ∀ {i}, i + 4 ≤ 16 → i + 4 ≤ BSIZE := fun h => h.trans (by decide)
  simp only [Superblock.decode, smallBlk, smallSb, Superblock.mk.injEq]
  refine ⟨?_, ?_, ?_, ?_⟩
  · rw [Bytes.get32_set32_of_disj (by omega), Bytes.get32_set32_of_disj (by omega),
      Bytes.get32_set32_of_disj (by omega), Bytes.get32_set32_self (hroom (by omega))]
    omega
  · rw [Bytes.get32_set32_of_disj (by omega), Bytes.get32_set32_of_disj (by omega),
      Bytes.get32_set32_self (hroom (by omega))]
    omega
  · rw [Bytes.get32_set32_of_disj (by omega), Bytes.get32_set32_self (hroom (by omega))]
    omega
  · rw [Bytes.get32_set32_self (hroom (by omega))]
    omega

lemma small_entry {n off : ℕ} (hoff : off < 512) (hmod : off % 16 = 0) :
    (smallBlk n 5).get16 off < 8 := by
  have hall : ∀ j < 32, (smallBlk 0 5).get16 (16 * j) < 8 := by decide +kernel
  have hj := hall (off / 16) (by omega)
  rwa [show 16 * (off / 16) = off by omega] at hj

end Fs

/-- The small image is well formed. -/
lemma small_wellFormed {n : ℕ} (hn : n < 4080) : WellFormed (Fs.smallSb n) (Fs.smallBlk n) := by
  have hsize : (Fs.smallSb n).size = 16 + n := rfl
  have hstart : (Fs.smallSb n).dataStart = 5 := by
    simp only [Superblock.dataStart, IPB, BPB, Fs.smallSb]
    omega
  have hlog : (Fs.smallSb n).logStart = 6 + n := by
    simp only [Superblock.logStart, Fs.smallSb]
    omega
  have hown := @Fs.small_own n
  refine ⟨⟨by omega, by omega, show ROOTINO < 8 by decide⟩, ?_,
    ⟨⟨?_, ?_, ?_, by simp, List.nodup_nil⟩, ?_, by simp,
    ?_, ?_, ?_⟩, by rw [ROOTINO, Fs.small_root]; rfl⟩
  · exact Fs.small_superblock hn
  · rintro ⟨x, k⟩ ⟨y, j⟩ b hl hl'
    obtain ⟨rfl, rfl, -⟩ := hown.1 hl
    obtain ⟨rfl, rfl, -⟩ := hown.1 hl'
    rfl
  · rintro ⟨x, k⟩ b hl
    obtain ⟨-, -, rfl⟩ := hown.1 hl
    exact ⟨⟨by omega, by omega⟩, by rw [Fs.small_bit (by omega)]; rfl⟩
  · rintro b ⟨hb, hlt⟩ hbit
    rw [Fs.small_bit (by omega), decide_eq_true_eq] at hbit
    exact .inr ⟨(1, 0), hown.2 ⟨rfl, rfl, by omega⟩⟩
  · rintro ⟨x, k⟩ b hl
    obtain ⟨-, -, rfl⟩ := hown.1 hl
    omega
  · intro b hb
    rw [Fs.small_bit (by omega), decide_eq_true_eq]
    omega
  · intro x hx ht _ bn hbn
    obtain rfl : x = 1 := by
      by_contra hne
      exact ht (Fs.small_free hx hne)
    rw [Fs.small_root] at hbn ⊢
    obtain rfl : bn = 0 := by
      have hlt : bn * BSIZE < 512 := hbn
      simp only [BSIZE] at hlt
      omega
    rw [show fileSlot 0 = 0 from rfl, Fs.small_slot]
    decide
  · intro x hx _ ht off hoff hlt
    obtain rfl : x = 1 := by
      by_contra hne
      rw [Fs.small_free hx hne] at ht
      exact absurd ht (by decide)
    rw [Fs.small_root] at hlt ⊢
    have hlt' : off < 512 := hlt
    rw [show off / BSIZE = 0 by simp only [BSIZE]; omega, show off % BSIZE =
      off by simp only [BSIZE]; omega,
      show fileSlot 0 = 0 from rfl, Fs.small_slot, if_pos rfl]
    exact Fs.small_entry hlt' hoff

/-- Two directories are made and one of them is removed. -/
theorem block_ownership_small : ∃ es s, Fs.Reached (Fs.small 20) es s ∧ Apart s ∧
    s.seen.ballocs = [6, 7] ∧ ∀ b, 5 ≤ b → b < 36 →
      (bitOf (Fs.smallSb 20) s.blk b = true ↔ (holders (Fs.smallSb 20) s.blk b).card = 1) := by
  obtain ⟨es, s, h, hballocs, hstart⟩ := Fs.exists_reached (Fs.small 20)
    [.call Fs.initproc (.mkdir (some [97])), .call Fs.initproc (.mkdir (some [98])),
      .call Fs.initproc (.unlink (some [97]))]
    (fun s => s.seen.ballocs = [6, 7] ∧ s.log.start = 26) (by decide +kernel)
  have hap : Apart s := by
    rw [Apart, hballocs, hstart]
    decide
  exact ⟨es, s, h, hap, hballocs, fun b hlo hhi =>
    ((block_ownership (small_wellFormed (by decide)) h hap).1 b hlo hhi).1⟩

end Xv6
