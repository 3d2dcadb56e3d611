import Xv6.Fs.Returns
import Xv6.Fs.Survival

/-!
# Writes as a whole

`filewrite` writes in pieces of at most `filewriteMax` bytes, and each piece is checked against the
largest size of a file on its own.  A write that goes past that size in a later piece fails, but
its first pieces have been written.  All other writes are done as a whole or not at all.
-/

namespace Xv6

open Lib FsState

variable {sb : Superblock} {s s' s₁ s₂ : FsState} {e : InodeId} {f : FileId} {x m n : ℕ}
  {src : ℕ → UInt8}

/-- Nothing keeps a call from writing through entry `e`: no buffer is busy, no transaction is
active, and the inode is not locked. -/
structure FsState.Unlocked (s : FsState) (e : InodeId) : Prop where
  held : s.held = []
  log : s.log.busy = false
  inode : (s.inode e).busy = false

/-- The disk has all blocks of the file system and of the log. -/
structure OnDisk (sb : Superblock) (s : FsState) : Prop where
  disk : sb.size ≤ s.disksize
  log : s.log.start + s.log.size ≤ s.disksize
  pos : 0 < s.log.size

instance (s : FsState) (e : InodeId) : Decidable (s.Unlocked e) :=
  decidable_of_iff (s.held = [] ∧ s.log.busy = false ∧ (s.inode e).busy = false)
    ⟨fun h => ⟨h.1, h.2.1, h.2.2⟩, fun h => ⟨h.held, h.log, h.inode⟩⟩

instance (sb : Superblock) (s : FsState) : Decidable (OnDisk sb s) :=
  decidable_of_iff (sb.size ≤ s.disksize ∧ s.log.start + s.log.size ≤ s.disksize ∧ 0 < s.log.size)
    ⟨fun h => ⟨h.1, h.2.1, h.2.2⟩, fun h => ⟨h.disk, h.log, h.pos⟩⟩

/-- What one turn of `filewrite` leaves: `writei` has refused the piece and nothing has changed, or
the piece is written. -/
inductive TurnDone (sb : Superblock) (s : FsState) (f : FileId) (e : InodeId) (x m : ℕ)
    (src : ℕ → UInt8) (r : ℤ) (s' : FsState) : Prop
  | refused (hr : Safe.Refused (s.node x) (s.file f).off.toNat m r) (i : Inv sb [] s')
      (hh : s'.home = s.home) (hoff : r < 0 → (s'.file f).off = (s.file f).off)
  | written (hr : r = m) (i : Inv sb [] s') (g : Grew (some e) s s') (hf : SameFiles s s')
      (ht : (s'.node x).type = (s.node x).type) (w : FileWritten sb s s' f x m src)

lemma Edited.busy (ed : Edited s e s') : (s'.inode e).busy = (s.inode e).busy := by
  obtain ⟨v, -, hi⟩ := ed.inode
  rw [hi, Function.update_self]

namespace Yields

/-- The end of a turn. -/
lemma commitTrans (hs : s.held = []) (rd : Ready sb s) (ha : Ample sb .commitTrans s) :
    ∃ s', Yields Fs.commitTrans s () s' ∧ s'.held = [] ∧ s'.log.busy = false ∧ s'.inode = s.inode ∧
      OnDisk sb s' := by
  have hstop : s.breadStop s.log.start = none := by
    have := rd.log
    have := rd.pos
    have hbuf : (s.held ∪ s.log.sectors).length < NBUF := ha
    rw [breadStop, if_neg (by simp [hs]), if_neg fun hno => absurd hno.2 (not_le.2 hbuf),
      if_neg (by omega)]
  by_cases hnil : s.log.sectors = []
  · exact ⟨{ s with log := { s.log with busy := false } }, act (x := .commitTrans)
      (by simp [Act.exec, hnil]), hs,
      rfl, rfl, rd.disk, rd.log, rd.pos⟩
  · refine ⟨{ s with blk := s.commitBlk, log := { s.log with sectors := [], busy := false } },
      act (x := .commitTrans) ?_, hs, rfl, rfl, rd.disk, rd.log, rd.pos⟩
    simp [Act.exec, hnil, hs, hstop]

/-- The rest of a turn after `writei` has returned `r`. -/
lemma turnEnd {r : ℤ} {v : OpenFile} (hs : s.held = []) (rd : Ready sb s)
    (hbusy : (s.inode e).busy = true) (href : 0 < (s.inode e).ref)
    (hm : Prog.Meets Act.exec (Ample sb) (do
      if 0 < r then Fs.setFile f v
      Fs.iunlock e
      Fs.commitTrans
      Pure.pure r) s) :
    ∃ s', Yields (do
      if 0 < r then Fs.setFile f v
      Fs.iunlock e
      Fs.commitTrans
      Pure.pure r) s r s' ∧ s'.Unlocked e ∧ OnDisk sb s' := by
  have hend : ∀ s₁, s₁.held = [] → Ready sb s₁ → s₁.inode = s.inode →
      Prog.Meets Act.exec (Ample sb) (do Fs.iunlock e; Fs.commitTrans; Pure.pure r : Sys ℤ) s₁ →
      ∃ s', Yields (do Fs.iunlock e; Fs.commitTrans; Pure.pure r : Sys ℤ) s₁ r s' ∧ s'.Unlocked e ∧
      OnDisk sb s' := by
    intro s₁ hs₁ rd₁ hi₁ hm₁
    have hunlock : (Act.iunlock e).exec s₁ =
      .ok () (s₁.setInode e { s₁.inode e with busy := false }) := by
      simp [Act.exec, hi₁, hbusy, show ¬ (s.inode e).ref < 1 by omega]
    have hy₁ : Yields (Fs.iunlock e) s₁ () _ := act hunlock
    have hm₂ := hm₁.right hy₁
    have rd₂ : Ready sb (s₁.setInode e { s₁.inode e with busy := false }) :=
      ⟨rd₁.busy, rd₁.disk, rd₁.log, rd₁.pos⟩
    obtain ⟨s', hy₂, hs', hlog', hi', d'⟩ := commitTrans (s := s₁.setInode e _) hs₁ rd₂ hm₂.1
    exact ⟨s', hy₁.seq (hy₂.seq pure), ⟨hs', hlog', by rw [hi', setInode_inode_self]⟩, d'⟩
  by_cases hr : 0 < r
  · rw [if_pos hr] at hm ⊢
    have hy : Yields (Fs.setFile f v) s () (s.setFile f { s.file f with toOpenFile := v }) :=
      act rfl
    obtain ⟨s', hy', hu', d'⟩ := hend (s.setFile f { s.file f with toOpenFile := v }) hs
      ⟨rd.busy, rd.disk, rd.log, rd.pos⟩ rfl (hm.right hy)
    exact ⟨s', hy.seq hy', hu', d'⟩
  · rw [if_neg hr] at hm ⊢
    exact hend s hs rd rfl hm

/-- One turn of `filewrite` returns. -/
lemma filewriteTurn (i : Inv sb [] s) (hlink : (s.file f).link = some e)
    (hw : (s.file f).writable = true) (l : Live s e x) (ht : (s.node x).type ≠ T_DEV)
    (u : s.Unlocked e) (d : OnDisk sb s) (hm0 : m ≠ 0)
    (hm : (Fs.filewriteTurn f e src m).Meets Act.exec (Ample sb) s) :
    ∃ r s', Yields (Fs.filewriteTurn f e src m) s r s' ∧ s'.Unlocked e ∧ OnDisk sb s' ∧
      TurnDone sb s f e x m src r s' := by
  have hrun : ∃ r s', Yields (Fs.filewriteTurn f e src m) s r s' ∧ s'.Unlocked e ∧
    OnDisk sb s' := by
    have hy₁ : Yields Fs.beginTrans s () { s with log := { s.log with busy := true } } :=
      act (x := .beginTrans) (by simp [Act.exec, u.log])
    have hm₁ := hm.right hy₁
    obtain ⟨i₁, w₁⟩ := hy₁.post (Safe.beginTrans_inv (Q := fun _ s₁ => Inv sb [] s₁ ∧
      Wrote s s.home s₁) i fun s₁ i₁ w₁ => ⟨i₁, w₁⟩) hm.left
    generalize hs₁ : ({ s with log := { s.log with busy := true } } : FsState) = s₁ at hy₁ hm₁ i₁ w₁
    have rd₁ : Ready sb s₁ := by
      rw [← hs₁]
      exact ⟨rfl, d.disk, d.log, d.pos⟩
    have hlock : (Act.ilock e).exec s₁ =
      .ok () (s₁.setInode e { s₁.inode e with busy := true }) := by
      have href := l.ref
      simp [Act.exec, w₁.inode, u.inode, show ¬ (s.inode e).ref < 1 by omega]
    have hy₂ : Yields (Fs.ilock e) s₁ () (s₁.setInode e { s₁.inode e with busy := true }) := by
      refine seq (act hlock) (seq getInode ?_)
      rw [setInode_inode_self, if_neg (by simp [w₁.inode, l.valid])]
      exact pure
    have hm₂ := hm₁.right hy₂
    obtain ⟨i₂, hh₂, l₂⟩ :=
      hy₂.post (Safe.ilock (Q := fun _ s₂ => Inv sb [] s₂ ∧ s₂.home = s₁.home ∧ Live s₂ e x) i₁
        fun s₂ i₂ _ hh₂ l₂ _ => ⟨i₂, hh₂, by rwa [w₁.inode, l.inum] at l₂⟩) hm₁.left
    have rd₂ : Ready sb (s₁.setInode e { s₁.inode e with busy := true }) :=
      ⟨rd₁.busy, rd₁.disk, rd₁.log, rd₁.pos⟩
    have hbusy₂ : ((s₁.setInode e { s₁.inode e with busy := true }).inode e).busy = true := by
      rw [setInode_inode_self]
    have hheld₂ : (s₁.setInode e { s₁.inode e with busy := true }).held = [] := w₁.held.trans u.held
    have hfile₂ : (s₁.setInode e { s₁.inode e with busy := true }).file = s.file := w₁.file
    generalize s₁.setInode e { s₁.inode e with busy := true } = s₂ at *
    have hy₃ : Yields (Fs.getFile f) s₂ (s₂.file f) s₂ := act rfl
    have hm₃ := hm₂.right hy₃
    obtain ⟨ino, c₂⟩ := i₂.content
    have hnode₂ : ino x = s.node x := by
      rw [← c₂.node_eq (c₂.cached.lt_of_live l₂), node_congr (hh₂.trans w₁.home)]
    have hdir : (s.node x).type ≠ T_DIR := by
      rw [i.node_of_live l]
      exact (i.opened f e hlink).2 hw
    obtain ⟨r, s₃, hy₄, hs₃, hbusy₃, href₃⟩ :=
      (Completes.writei c₂ l₂ i₂.pinned rd₂ hheld₂ i₂.reading (by rwa [hnode₂])
        fun hd => absurd (hnode₂ ▸ hd.2) hdir).yields
      (Q := fun _ s₃ => s₃.held = [] ∧ (s₃.inode e).busy = true ∧ 0 < (s₃.inode e).ref)
      (Safe.writei c₂ l₂ i₂.pinned i₂.reading (fun hd => absurd (hnode₂ ▸ hd.2) hdir)
        (fun _ _ => ⟨hheld₂, hbusy₂, l₂.ref⟩) fun s₃ ino₃ _ _ ed hs₃ _ _ _ _ _ =>
          ⟨hs₃.trans hheld₂, ed.busy.trans hbusy₂, (ed.live l₂).ref⟩) hm₃.left
    obtain ⟨s', hy₅, hu', d'⟩ := turnEnd hs₃ (rd₂.yields Fs.writei_plain hy₄) hbusy₃ href₃
      (hm₃.right hy₄)
    exact ⟨r, s', hy₁.seq (hy₂.seq (hy₃.seq (hy₄.seq hy₅))), hu', d'⟩
  obtain ⟨r, s', hy, hu', d'⟩ := hrun
  refine ⟨r, s', hy, hu', d', hy.post (Safe.filewriteTurn i hlink hw l hm0
    (fun r s' hr i' _ _ hh hoff => .refused hr i' hh hoff) fun s' i' g hf ht' _ w => .written rfl i'
    g hf ht' w) hm⟩

/-- A write that fits into the file is done as a whole. -/
lemma filewriteLoop {fuel : ℕ} (i : Inv sb [] s) (hlink : (s.file f).link = some e)
    (hw : (s.file f).writable = true) (l : Live s e x) (ht : (s.node x).type ≠ T_DEV)
    (u : s.Unlocked e) (d : OnDisk sb s) (hoff : (s.file f).off.toNat ≤ (s.node x).size.toNat)
    (hmax : (s.file f).off.toNat + n ≤ MAXFILE * BSIZE) (hfuel : n ≤ fuel)
    (hm : (Fs.filewriteLoop f e fuel src n).Meets Act.exec (Ample sb) s) :
    ∃ s', Yields (Fs.filewriteLoop f e fuel src n) s true s' ∧ FileWritten sb s s' f x n src := by
  induction fuel generalizing s src n with
  | zero =>
      obtain rfl : n = 0 := by omega
      exact ⟨s, pure, .zero rfl rfl⟩
  | succ fuel ih =>
      by_cases hn : n = 0
      · subst hn
        rw [Fs.filewriteLoop, if_pos rfl]
        exact ⟨s, pure, .zero rfl rfl⟩
      · rw [Fs.filewriteLoop_succ hn] at hm ⊢
        have hpos : 0 < Fs.filewriteMax := by decide
        generalize hk : min n Fs.filewriteMax = k at hm ⊢
        obtain ⟨r, s₁, hy₁, u₁, d₁, done⟩ := filewriteTurn i hlink hw l ht u d (by omega) hm.left
        cases done with
        | refused hr => exact absurd ((hr.resolve_right ht).2) (by omega)
        | written hr i₁ g₁ hf₁ ht₁ w₁ =>
            subst hr
            have hm₁ := hm.right hy₁
            rw [Fs.filewriteRest, if_neg (by omega), if_neg (not_not.2 rfl)] at hm₁
            have l₁ := i₁.live_of_open (g₁.opened ⟨f, hlink⟩)
            rw [(g₁.shown e (.inr (.inl ⟨f, hlink⟩))).inum, l.inum] at l₁
            have hsize := w₁.size
            rw [if_neg (by omega)] at hsize
            obtain ⟨s', hy', w'⟩ := ih i₁ ((hf₁ f).1.trans hlink) ((hf₁ f).2.trans hw) l₁
              (by rwa [ht₁]) u₁ d₁ (by rw [w₁.off, hsize]; omega)
              (by rw [w₁.off]; omega) (by omega) hm₁
            refine ⟨s', hy₁.seq ?_, ?_⟩
            · rw [Fs.filewriteRest, if_neg (by omega), if_neg (not_not.2 rfl)]
              exact hy'
            · have w := w₁.trans w' (by omega)
              rwa [Nat.add_sub_cancel' (by omega)] at w

end Yields

/-- No file is larger than the largest size. -/
lemma Filled.le_max {h : ℕ → Block} {v : DInode} {lim : ℕ} (hf : Filled h v lim) :
    lim ≤ MAXFILE * BSIZE := by
  by_contra hlt
  exact absurd (lt_maxfile_of_slot (hf MAXFILE (not_le.1 hlt))) (lt_irrefl _)

lemma Inv.size_le (i : Inv sb [] s) (hx : x < sb.ninodes) (ht0 : (s.node x).type ≠ 0)
    (ht : (s.node x).type ≠ T_DEV) : (s.node x).size.toNat ≤ MAXFILE * BSIZE := by
  obtain ⟨ino, c⟩ := i.content
  rw [c.node_eq hx] at ht0 ht ⊢
  exact (c.good.filled x hx ht0 ht).le_max

lemma Inv.lt_of_live (i : Inv sb [] s) (l : Live s e x) : x < sb.ninodes := by
  obtain ⟨ino, c⟩ := i.content
  exact c.cached.lt_of_live l

/-- The write goes past the largest size of a file, but its first piece does not. -/
def PastEnd (off size n : ℕ) : Prop :=
  off ≤ size ∧ off + min n Fs.filewriteMax ≤ MAXFILE * BSIZE ∧ MAXFILE * BSIZE < off + n

instance (off size n : ℕ) : Decidable (PastEnd off size n) := by
  unfold PastEnd
  infer_instance

/-- Such a write returns -1, and the offset has been moved. -/
lemma Yields.filewriteLoop_past {all : Bool} (i : Inv sb [] s) (hlink : (s.file f).link = some e)
    (hw : (s.file f).writable = true) (l : Live s e x) (ht0 : (s.node x).type ≠ 0)
    (ht : (s.node x).type ≠ T_DEV) (u : s.Unlocked e) (d : OnDisk sb s)
    (hend : PastEnd (s.file f).off.toNat (s.node x).size.toNat n)
    (hm : (Fs.filewriteLoop f e n src n).Meets Act.exec (Ample sb) s)
    (hy : Yields (Fs.filewriteLoop f e n src n) s all s') :
    all = false ∧ (s'.file f).off ≠ (s.file f).off := by
  obtain ⟨hoff, hfirst, hlast⟩ := hend
  have hpos : 0 < Fs.filewriteMax := by decide
  have p := hy.post (Safe.filewriteLoop (Q := Progress sb s f e x n src) i hlink hw l
    fun _ _ p => p) hm
  refine ⟨Bool.eq_false_iff.2 fun hall => ?_, fun hsame => ?_⟩
  · -- all bytes would be in the file
    obtain ⟨m, -, w, hn⟩ := p.file ht
    obtain rfl := hn hall
    have hsize := w.size
    have htype : (s'.node x).type = (s.node x).type := by rw [← w.fields]
    have hle := p.inv.size_le (i.lt_of_live l) (by rwa [htype]) (by rwa [htype])
    rw [if_neg (by omega)] at hsize
    omega
  · obtain ⟨fuel, rfl⟩ : ∃ fuel, n = fuel + 1 := ⟨n - 1, by omega⟩
    rw [Fs.filewriteLoop_succ (by omega)] at hm hy
    generalize hk : min (fuel + 1) Fs.filewriteMax = k at hm hy hfirst
    obtain ⟨r, s₁, hy₁, -, -, done⟩ := Yields.filewriteTurn i hlink hw l ht u d (by omega) hm.left
    cases done with
    | refused hr => exact absurd ((hr.resolve_right ht).2) (by omega)
    | written hr i₁ g₁ hf₁ ht₁ w₁ =>
        subst hr
        have hm₁ := hm.right hy₁
        have hy₂ : Yields _ s₁ all s' := hy₁.run_bind.symm.trans hy
        rw [Fs.filewriteRest, if_neg (by omega), if_neg (not_not.2 rfl)] at hm₁ hy₂
        have l₁ := i₁.live_of_open (g₁.opened ⟨f, hlink⟩)
        rw [(g₁.shown e (.inr (.inl ⟨f, hlink⟩))).inum, l.inum] at l₁
        have p₁ := hy₂.post (Safe.filewriteLoop (Q := Progress sb s₁ f e x _ _) i₁
          ((hf₁ f).1.trans hlink) ((hf₁ f).2.trans hw) l₁ fun _ _ p => p) hm₁
        obtain ⟨m, -, w, -⟩ := p₁.file (by rwa [ht₁])
        have hmoved := w.off
        rw [w₁.off, hsame] at hmoved
        omega

/-- What a write as a whole leaves of file `f`, which has the inode `x`. -/
inductive WroteAll (s : FsState) (f : FileId) (x : ℕ) (src : ℕ → UInt8) (n r : ℤ) (s' : FsState) :
    Prop
  | all (hr : r = n) (hbytes : s'.contents x =
        overwrite (s.contents x) (s.file f).off.toNat ((List.range n.toNat).map src))
      (hoff : (s'.file f).off.toNat = (s.file f).off.toNat + n.toNat)
  | none (hr : r = -1) (hbytes : s'.contents x = s.contents x)
    (hoff : (s'.file f).off = (s.file f).off)

/-- `filewrite` to an open regular file returns `n` and has replaced the `n` bytes at the offset,
which it has moved by `n`; or it returns -1 and has changed nothing.  This is so, if the kernel has
what it asks for, unless the file is writable and only a later piece of the write goes past the
largest size. -/
theorem filewrite_all_or_nothing {n : ℤ} (i : Inv sb [] s) (hlink : (s.file f).link = some e)
    (ht : (s.inode e).type = T_FILE) (hn : 0 ≤ n) (u : s.Unlocked e) (d : OnDisk sb s)
    (hm : (Fs.filewrite f src n).Meets Act.exec (Ample sb) s) :
    (∃ r s', (Fs.filewrite f src n).run Act.exec s = .ok r s' ∧
      WroteAll s f (s.inode e).inum src n r s') ↔
    ((s.file f).writable = true →
      ¬ PastEnd (s.file f).off.toNat (s.inode e).size.toNat n.toNat) := by
  obtain ⟨hinode, hip⟩ : (s.file f).type = .inode ∧ (s.file f).ip = some e := by
    rw [File.link] at hlink
    split at hlink
    · exact ⟨‹_›, hlink⟩
    · exact absurd hlink (by simp)
  have l := i.live_of_open ⟨f, hlink⟩
  have hnode := i.node_of_live l
  have hy₀ : Yields (Fs.getFile f) s (s.file f) s := .act rfl
  have hm₀ := hm.right hy₀
  by_cases hw : (s.file f).writable = false
  · refine ⟨fun _ hyes => absurd hyes (by simp [hw]), fun _ =>
      ⟨-1, s, hy₀.seq ?_, .none rfl rfl rfl⟩⟩
    rw [if_pos hw]
    exact .pure
  rw [if_neg hw, hinode, hip] at hm₀
  rw [Bool.not_eq_false] at hw
  have hrun : ∀ all s', Yields (Fs.filewriteLoop f e n.toNat src n.toNat) s all s' →
      (Fs.filewrite f src n).run Act.exec s = .ok (if all = true ∧ 0 ≤ n then n else -1) s' := by
    intro all s' hy
    refine hy₀.seq ?_
    rw [if_neg (by simp [hw]), hinode, hip]
    exact hy.seq .pure
  have hdev : (s.node (s.inode e).inum).type ≠ T_DEV := by
    rw [hnode, ht]
    decide
  constructor
  · rintro ⟨r, s', hx, hall⟩ - hend
    -- the loop is what `filewrite` does, and it returns -1
    rw [Fs.filewrite, hy₀.run_bind, if_neg (by simp [hw]), hinode, hip] at hx
    obtain ⟨all, hy, rfl⟩ : ∃ all, Yields (Fs.filewriteLoop f e n.toNat src n.toNat) s all s' ∧
        (if all = true ∧ 0 ≤ n then n else -1) = r := Yields.of_bind_pure hx
    obtain ⟨rfl, hoff⟩ := Yields.filewriteLoop_past i hlink hw l (by rw [hnode, ht]; decide) hdev u
      d (by rwa [hnode]) hm₀.left hy
    cases hall with
    | all hr => exact absurd hr (by simp; omega)
    | none _ _ hsame => exact hoff hsame
  intro hend
  replace hend := hend hw
  by_cases hfit : (s.file f).off.toNat ≤ (s.inode e).size.toNat ∧
      (s.file f).off.toNat + n.toNat ≤ MAXFILE * BSIZE
  · obtain ⟨s', hy, w⟩ := Yields.filewriteLoop i hlink hw l hdev u d (by rw [hnode]; exact hfit.1)
      hfit.2 le_rfl hm₀.left
    have hx := hrun _ _ hy
    rw [if_pos ⟨rfl, hn⟩] at hx
    exact ⟨n, s', hx, .all rfl w.contents w.off⟩
  · by_cases hn0 : n.toNat = 0
    · have hx := hrun true s (by rw [hn0]; exact .pure)
      rw [if_pos ⟨rfl, hn⟩] at hx
      exact ⟨n, s, hx, .all rfl (by rw [hn0]; simp [overwrite]) (by omega)⟩
    -- the first piece does not fit either, and `writei` refuses it
    obtain ⟨fuel, hfuel⟩ : ∃ fuel, n.toNat = fuel + 1 := ⟨n.toNat - 1, by omega⟩
    have hpos : 0 < Fs.filewriteMax := by decide
    have hm₁ := hm₀.left
    rw [hfuel, Fs.filewriteLoop_succ (by omega), ← hfuel] at hm₁
    generalize hk : min n.toNat Fs.filewriteMax = k at hm₁
    obtain ⟨r, s₁, hy₁, -, -, done⟩ := Yields.filewriteTurn i hlink hw l hdev u d
      (by omega) hm₁.left
    cases done with
    | written _ i₁ g₁ _ ht₁ w₁ =>
        have hsize := w₁.size
        rw [if_neg (by omega)] at hsize
        have hle := i₁.size_le (i.lt_of_live l) (by rw [ht₁, hnode, ht]; decide) (by rwa [ht₁])
        have hwithin := w₁.within (by omega)
        rw [hnode] at hwithin hsize
        exact absurd ⟨hwithin, by rw [hk]; omega, by omega⟩ hend
    | refused hr i₁ hh hoff =>
        obtain ⟨rfl, -⟩ := hr.resolve_right hdev
        have hx := hrun false s₁ (by
          rw [hfuel, Fs.filewriteLoop_succ (by omega), ← hfuel, hk]
          exact hy₁.seq (by rw [Fs.filewriteRest, if_pos (by decide)]; exact .pure))
        refine ⟨-1, s₁, hx, .none rfl ?_ (hoff (by decide))⟩
        rw [FsState.contents, FsState.contents, hh, node_congr hh]

/-- Two bytes are written to a new file. -/
theorem filewrite_all_or_nothing_small : ∃ es s, Fs.RoomyRun (Fs.smallSb 20) (Fs.small 20) es s ∧
    ∃ r s', (Fs.filewrite firstFile (fun _ => 120) 2).run Act.exec s = .ok r s' ∧
      WroteAll s firstFile (s.inode secondEntry).inum (fun _ => 120) 2 r s' := by
  obtain ⟨es, s, h, hlink, ht, u, d, hend, hm⟩ : ∃ es s, Fs.RoomyRun (Fs.smallSb 20)
    (Fs.small 20) es s ∧
      (s.file firstFile).link = some secondEntry ∧ (s.inode secondEntry).type = T_FILE ∧
      s.Unlocked secondEntry ∧ OnDisk (Fs.smallSb 20) s ∧
      ¬ PastEnd (s.file firstFile).off.toNat (s.inode secondEntry).size.toNat 2 ∧
      (Fs.filewrite firstFile (fun _ => 120) 2).Meets Act.exec (Ample (Fs.smallSb 20)) s :=
    Run.exists_of_exec (fun _ (s : FsState) => (s.file firstFile).link = some secondEntry ∧
      (s.inode secondEntry).type = T_FILE ∧ s.Unlocked secondEntry ∧ OnDisk (Fs.smallSb 20) s ∧
      ¬ PastEnd (s.file firstFile).off.toNat (s.inode secondEntry).size.toNat 2 ∧
      (Fs.filewrite firstFile (fun _ => 120) 2).Meets Act.exec (Ample (Fs.smallSb 20)) s)
      [Fs.Event.call Fs.initproc (.open (some [97]) 0x202)] (by decide +kernel)
  exact ⟨es, s, h,
    (filewrite_all_or_nothing (Roomy.of_run (small_wellFormed (by decide)) h).sound.inv hlink ht
    (by decide) u d hm).2 fun _ => hend⟩

/-! ## A file of the largest size -/

namespace Fs

/-- A file system without free data blocks, in which one file has the largest size. -/
def fullSb : Superblock where
  size := 157
  nblocks := 142
  ninodes := 8
  nlog := 10

/-- The inode of that file, whose blocks follow that of the root directory. -/
def fullFile : DInode where
  type := T_FILE
  major := 0
  minor := 0
  nlink := 1
  size := 71680
  addrs i := UInt32.ofNat (6 + i.val)

/-- The blocks of the image: the file is `a` in the root directory. -/
def fullBlk : ℕ → Block
  | 1 => (((zeroBlock.set32 0 157).set32 4 142).set32 8 8).set32 12 10
  | 2 => fullFile.encode (smallRoot.encode zeroBlock 64) 128
  | 4 => fun i => if i.val < 18 then 0xff else if i.val = 18 then 0x07 else 0
  | 5 => ((zeroBlock.blit 0 16 (Dirent.byte 1 [46])).blit 16 16 (Dirent.byte 1 [46, 46])).blit 32 16
      (Dirent.byte 2 [97])
  | 18 => fun i => if i.val % 4 = 0 then UInt8.ofNat (19 + i.val / 4) else 0
  | _ => zeroBlock

/-- The machine on this image. -/
def full : FsState := boot fullSb fullBlk 157 ⟨[], [], []⟩

lemma full_root : dinodeAt fullBlk 1 = smallRoot := by
  rw [dinodeAt, show fullBlk (IBLOCK 1) = fullFile.encode (smallRoot.encode zeroBlock 64) 128
    from rfl,
    DInode.decode_encode_of_disj (by decide)]
  exact DInode.decode_encode (by decide)

lemma full_file : dinodeAt fullBlk 2 = fullFile := DInode.decode_encode (by decide)

lemma full_free {x : ℕ} (hx : x < 8) (h1 : x ≠ 1) (h2 : x ≠ 2) : (dinodeAt fullBlk x).type = 0 := by
  have hblk : fullBlk (IBLOCK x) = fullFile.encode (smallRoot.encode zeroBlock 64) 128 := by
    rw [show IBLOCK x = 2 by simp only [IBLOCK, IPB]; omega]
    rfl
  rw [dinodeAt, hblk]
  clear hblk
  revert x
  decide +kernel

/-- The place `k` of the file has block `6 + k`. -/
lemma full_slot {k : ℕ} : slotOf fullBlk fullFile k = if k ≤ 140 then 6 + k else 0 := by
  by_cases hk : k ≤ 140
  · rw [if_pos hk]
    revert k
    decide +kernel
  · rw [if_neg hk, slotOf_of_ge (by rw [NSLOT_eq]; omega)]

lemma full_rootSlot {k : ℕ} : slotOf fullBlk smallRoot k = if k = 0 then 5 else 0 := by
  rw [slotOf]
  split
  · rename_i hk
    rw [DInode.addr, dif_pos (by omega)]
    simp only [smallRoot]
    split <;> rfl
  · rw [if_pos (by rfl), if_neg (by omega)]

lemma full_own {x k b : ℕ} : own fullSb fullBlk (dinodeAt fullBlk) (x, k) = some b ↔
    (x = 1 ∧ k = 0 ∧ b = 5) ∨ (x = 2 ∧ k ≤ 140 ∧ b = 6 + k) := by
  rw [own_eq_some]
  constructor
  · rintro ⟨hx, ht, hk, hb⟩
    by_cases h1 : x = 1
    · subst h1
      simp only [full_root, full_rootSlot] at hk
      split at hk
      · exact .inl ⟨rfl, ‹_›, hk.symm⟩
      · exact absurd hk.symm hb
    · obtain rfl : x = 2 := by
        by_contra h2
        exact ht (full_free hx h1 h2)
      simp only [full_file, full_slot] at hk
      split at hk
      · exact .inr ⟨rfl, ‹_›, hk.symm⟩
      · exact absurd hk.symm hb
  · rintro (⟨rfl, rfl, rfl⟩ | ⟨rfl, hk, rfl⟩)
    · simp only [full_root, full_rootSlot]
      exact ⟨show 1 < 8 by decide, by decide, rfl, by decide⟩
    · rw [full_file, full_slot, if_pos hk]
      exact ⟨show 2 < 8 by decide, by decide, rfl, by omega⟩

lemma full_bit {b : ℕ} (hb : b < 157) : bitOf fullSb fullBlk b = decide (b < 147) := by
  revert b
  decide +kernel

lemma full_entry {off : ℕ} (hoff : off < 512) (hmod : off % 16 = 0) :
    (fullBlk 5).get16 off < 8 := by
  have hall : ∀ j < 32, (fullBlk 5).get16 (16 * j) < 8 := by decide +kernel
  have hj := hall (off / 16) (by omega)
  rwa [show 16 * (off / 16) = off by omega] at hj

end Fs

/-- The image is well formed. -/
lemma full_wellFormed : WellFormed Fs.fullSb Fs.fullBlk := by
  have hsize : Fs.fullSb.size = 157 := rfl
  have hstart : Fs.fullSb.dataStart = 5 := rfl
  have hlog : Fs.fullSb.logStart = 147 := rfl
  have hown := @Fs.full_own
  refine ⟨⟨by omega, by omega, show ROOTINO < 8 by decide⟩, by decide +kernel,
    ⟨⟨?_, ?_, ?_, by simp, List.nodup_nil⟩,
    ?_, by simp, ?_, ?_, ?_⟩, by rw [ROOTINO, Fs.full_root]; rfl⟩
  · rintro ⟨x, k⟩ ⟨y, j⟩ b hl hl'
    rcases hown.1 hl with ⟨rfl, rfl, rfl⟩ | ⟨rfl, hk, rfl⟩ <;>
      rcases hown.1 hl' with ⟨rfl, rfl, hb⟩ | ⟨rfl, hj, hb⟩
    · rfl
    · omega
    · omega
    · rw [show k = j by omega]
  · rintro ⟨x, k⟩ b hl
    have hb : 5 ≤ b ∧ b < 147 := by rcases hown.1 hl with ⟨-, -, rfl⟩ | ⟨-, hk, rfl⟩ <;> omega
    exact ⟨⟨by omega, by omega⟩, by rw [Fs.full_bit (by omega), decide_eq_true hb.2]⟩
  · rintro b ⟨hb, hlt⟩ hbit
    rw [Fs.full_bit (by omega), decide_eq_true_eq] at hbit
    by_cases h5 : b = 5
    · exact .inr ⟨(1, 0), hown.2 (.inl ⟨rfl, rfl, h5⟩)⟩
    · exact .inr ⟨(2, b - 6), hown.2 (.inr ⟨rfl, by omega, by omega⟩)⟩
  · rintro ⟨x, k⟩ b hl
    rcases hown.1 hl with ⟨-, -, rfl⟩ | ⟨-, hk, rfl⟩ <;> omega
  · intro b hb
    rw [Fs.full_bit (by omega), decide_eq_true_eq]
    omega
  · intro x hx ht _ bn hbn
    by_cases h1 : x = 1
    · subst h1
      rw [Fs.full_root] at hbn ⊢
      obtain rfl : bn = 0 := by
        have hlt : bn * BSIZE < 512 := hbn
        simp only [BSIZE] at hlt
        omega
      rw [show fileSlot 0 = 0 from rfl, Fs.full_rootSlot]
      decide
    · obtain rfl : x = 2 := by
        by_contra h2
        exact ht (Fs.full_free hx h1 h2)
      rw [Fs.full_file] at hbn ⊢
      have hlt : bn * BSIZE < 71680 := hbn
      have hslot : fileSlot bn ≤ 140 := by
        have hD := NDIRECT_eq
        have hB := BSIZE_eq
        rw [hB] at hlt
        rw [fileSlot]
        split <;> omega
      rw [Fs.full_slot, if_pos hslot]
      omega
  · intro x hx _ ht off hoff hlt
    obtain rfl : x = 1 := by
      by_contra h1
      by_cases h2 : x = 2
      · rw [h2, Fs.full_file] at ht
        exact absurd ht (by decide)
      · rw [Fs.full_free hx h1 h2] at ht
        exact absurd ht (by decide)
    rw [Fs.full_root] at hlt ⊢
    have hlt' : off < 512 := hlt
    rw [show off / BSIZE = 0 by simp only [BSIZE]; omega, show off % BSIZE =
      off by simp only [BSIZE]; omega,
      show fileSlot 0 = 0 from rfl, Fs.full_rootSlot, if_pos rfl]
    exact Fs.full_entry hlt' hoff

lemma fileByte_of_contents {o : ℕ} (h : s'.contents x = s.contents x)
    (ho : o < (s.node x).size.toNat) :
    fileByte s'.home (s'.node x) o = fileByte s.home (s.node x) o := by
  have hget := congrArg (fun l : List UInt8 => l[o]?) h
  have hlen := congrArg List.length h
  rw [length_contents, length_contents] at hlen
  simpa [FsState.contents, fileBytes, ho, hlen] using hget

/-- The file of the largest size is opened and read up to 1536 bytes before its end.  A write of
1537 bytes fails, but the last 1536 bytes of the file are replaced and the offset is at the end. -/
theorem filewrite_past_end : WellFormed Fs.fullSb Fs.fullBlk ∧ ∃ es s, Fs.Reached Fs.full es s ∧
    (s.file firstFile).link = some secondEntry ∧ (s.inode secondEntry).type = T_FILE ∧
    ∃ s', (Fs.filewrite firstFile (fun _ => 120) 1537).run Act.exec s = .ok (-1) s' ∧
      s'.contents (s.inode secondEntry).inum ≠ s.contents (s.inode secondEntry).inum ∧
      (s.file firstFile).off = 70144 ∧ (s'.file firstFile).off = 71680 := by
  refine ⟨full_wellFormed, ?_⟩
  obtain ⟨es, s, h, hlink, ht, hoff, hsize, hw⟩ := Fs.exists_reached Fs.full
    [.call Fs.initproc (.open (some [97]) 2), .call Fs.initproc (.read 0 70144)]
    (fun s => (s.file firstFile).link = some secondEntry ∧ (s.inode secondEntry).type = T_FILE ∧
      (s.file firstFile).off = 70144 ∧ 70144 < (s.node (s.inode secondEntry).inum).size.toNat ∧
      Wp ((Fs.filewrite firstFile (fun _ => 120) 1537).run Act.exec) (fun r s' => r = -1 ∧
        fileByte s'.home (s'.node (s.inode secondEntry).inum) 70144 ≠
          fileByte s.home (s.node (s.inode secondEntry).inum) 70144 ∧
        (s'.file firstFile).off = 71680) (fun _ _ => False) s) (by decide +kernel)
  obtain ⟨r, s', hrun, rfl, hbyte, hoff'⟩ := hw.returns
  exact ⟨es, s, h, hlink, ht, s', hrun, fun hsame => hbyte (fileByte_of_contents hsame hsize), hoff,
    hoff'⟩

end Xv6
