import Xv6.Fs.ReadWrite

/-!
# Runs of the functions that read

When no buffer is busy and nothing is logged, the functions that only read return, and leave the
state as it is but for the inode cache.  They need nothing of the image but the blocks that they ask
for: neither its bitmap nor its other files.
-/

namespace Xv6

open Lib FsState

variable {α β : Type} {p : Sys α} {f : α → Sys β} {a : α} {c : β} {s s' s₁ s₂ : FsState}
    {e : InodeId} {v : DInode}
  {b bn off n : ℕ}

/-- Running `p` from `s` returns `a` and ends in `s'`. -/
def Yields (p : Sys α) (s : FsState) (a : α) (s' : FsState) : Prop := p.run Act.exec s = .ok a s'

/-- No buffer is busy and nothing is logged. -/
structure FsState.Idle (s : FsState) : Prop where
  held : s.held = []
  sectors : s.log.sectors = []

/-- There is a buffer for block `b`: one that is dirty with it, or one that is neither busy nor
dirty. -/
def FsState.Spare (s : FsState) (b : ℕ) :
    Prop := b ∈ s.log.sectors ∨ (s.held ∪ s.log.sectors).length < NBUF

lemma FsState.Idle.spare (hs : s.Idle) : s.Spare b := by
  right
  simp [hs.held, hs.sectors, NBUF]

namespace Yields

lemma pure : Yields (Pure.pure a) s a s := rfl

lemma act {x : Act} {r : x.Result} (h : x.exec s = .ok r s') :
    Yields (Sys.act x) s r s' := Prog.run_act_ok h

/-- What comes after a program that has returned. -/
lemma run_bind (h : Yields p s a s₁) : (p >>= f).run Act.exec s = (f a).run Act.exec s₁ := by
  rw [Prog.run_bind]
  change EStateM.bind (p.run Act.exec) _ s = _
  rw [EStateM.bind, h]

/-- Programs in sequence. -/
lemma seq (h : Yields p s a s₁) (hf : Yields (f a) s₁ c s₂) :
    Yields (p >>= f) s c s₂ := h.run_bind.trans hf

/-- A program whose result is only changed has returned. -/
lemma of_bind_pure {g : α → β} (h : (p >>= fun a => Pure.pure (g a)).run Act.exec s = .ok c s') :
    ∃ a, Yields p s a s' ∧ g a = c := by
  rw [Prog.run_bind] at h
  change EStateM.bind (p.run Act.exec) _ s = _ at h
  rw [EStateM.bind] at h
  cases hrun : p.run Act.exec s with
  | ok a s₁ =>
      rw [hrun] at h
      change EStateM.Result.ok (g a) s₁ = .ok c s' at h
      obtain ⟨hc, rfl⟩ := EStateM.Result.ok.inj h
      exact ⟨a, hrun, hc⟩
  | error e s₁ =>
      rw [hrun] at h
      exact absurd h (by simp)

/-! ## Buffers -/

lemma bread (hs : s.held = []) (hspare : s.Spare b) (hb : b < s.disksize) :
    Yields (Fs.bread ROOTDEV b) s b (s.setHeld [b]) := by
  have hstop : s.breadStop b = none := by
    rw [breadStop, if_neg (by simp [hs]), if_neg fun hno => hspare.elim hno.1 (not_lt.2 hno.2),
      if_neg (not_le.2 hb)]
  have hexec : (Act.bread b).exec s = .ok () (s.setHeld [b]) := by
    simp [Act.exec, hstop, hs, setHeld]
  rw [Fs.bread, if_neg (by simp)]
  exact seq (act hexec) pure

lemma data : Yields (Fs.data b) s (s.blk b) s := act rfl

lemma brelse (hs : s.held = []) : Yields (Fs.brelse b) (s.setHeld [b]) () s := by
  refine act (x := .brelse b) ?_
  obtain ⟨blk, disksize, held, log, inode, file, proc, pipe, outside, seen⟩ := s
  obtain rfl : held = [] := hs
  simp [Act.exec, setHeld]

lemma getInode : Yields (Fs.getInode e) s (s.inode e) s := act rfl

/-! ## Inodes -/

/-- `ilock` of an inode that is read from disk. -/
lemma run_ilock {x : ℕ} (hs : s.held = []) (hspare : s.Spare (IBLOCK x))
    (href : 0 < (s.inode e).ref) (hfree : (s.inode e).busy = false)
    (hvalid : (s.inode e).valid = false) (hdev : (s.inode e).dev = ROOTDEV)
    (hx : (s.inode e).inum = x) (hblk : IBLOCK x < s.disksize) :
    (Fs.ilock e).run Act.exec s =
      if (dinodeAt s.blk x).type = 0 then .error (.panic "ilock: no type") (s.setInode e
        { s.inode e with toDInode := dinodeAt s.blk x, busy := true, valid := true })
      else .ok () (s.setInode e
        { s.inode e with toDInode := dinodeAt s.blk x, busy := true, valid := true }) := by
  have hlock : (Act.ilock e).exec s = .ok () (s.setInode e { s.inode e with busy := true }) := by
    simp [Act.exec, hfree, show ¬ (s.inode e).ref < 1 by omega]
  have hread : ∀ {t : FsState} {w : DInode}, t.held = [] → Yields (Fs.brelse (IBLOCK x))
      ((t.setHeld [IBLOCK x]).setInode e { t.inode e with toDInode := w }) ()
      (t.setInode e { t.inode e with toDInode := w }) := fun {t w} ht =>
    brelse (s := t.setInode e { t.inode e with toDInode := w }) ht
  have hs₁ : (s.setInode e { s.inode e with busy := true }).held = [] := hs
  have hspare₁ : (s.setInode e { s.inode e with busy := true }).Spare (IBLOCK x) := hspare
  refine (act hlock).run_bind.trans (getInode.run_bind.trans ?_)
  rw [setInode_inode_self, if_pos hvalid]
  simp only [hdev, hx]
  simp only [hdev, hx] at hs₁ hspare₁
  refine (bread hs₁ hspare₁ hblk).run_bind.trans (data.run_bind.trans
    ((act (x := .setInode e _) rfl).run_bind.trans ((hread hs₁).run_bind.trans
      ((act (x := .setValid e) rfl).run_bind.trans ?_))))
  split
  · rename_i hz
    rw [if_pos (show (dinodeAt s.blk x).type = 0 from hz)]
    change EStateM.Result.error _ _ = _
    simp [FsState.setInode, dinodeAt]
  · rename_i hz
    rw [if_neg (show ¬ (dinodeAt s.blk x).type = 0 from hz)]
    change EStateM.Result.ok _ _ = _
    simp [FsState.setInode, dinodeAt]

lemma ilock {x : ℕ} (hs : s.held = []) (hspare : s.Spare (IBLOCK x)) (href : 0 < (s.inode e).ref)
    (hfree : (s.inode e).busy = false) (hvalid : (s.inode e).valid = false)
    (hdev : (s.inode e).dev = ROOTDEV) (hx : (s.inode e).inum = x) (hblk : IBLOCK x < s.disksize)
    (ht : (dinodeAt s.blk x).type ≠ 0) :
    Yields (Fs.ilock e) s () (s.setInode e
      { s.inode e with toDInode := dinodeAt s.blk x, busy := true, valid := true }) :=
  (run_ilock hs hspare href hfree hvalid hdev hx hblk).trans (if_neg ht)

/-- `iunlockput` of an inode to which there are other references. -/
lemma iunlockput (hbusy : (s.inode e).busy = true) (href : 1 < (s.inode e).ref) :
    Yields (Fs.iunlockput e) s ()
    (s.setInode e { s.inode e with busy := false, ref := (s.inode e).ref - 1 }) := by
  have hunlock : (Act.iunlock e).exec s =
    .ok () (s.setInode e { s.inode e with busy := false }) := by
    simp [Act.exec, hbusy, show ¬ (s.inode e).ref < 1 by omega]
  have hput : (Act.iputStart e).exec (s.setInode e { s.inode e with busy := false }) =
      .ok false (s.setInode e { s.inode e with busy := false, ref := (s.inode e).ref - 1 }) := by
    simp [Act.exec, FsState.setInode, show (s.inode e).ref ≠ 1 by omega]
  exact seq (act hunlock) (seq (act hput) pure)

/-! ## Contents -/

/-- `bmap` of a block that the inode has. -/
lemma bmap (hs : s.Idle) (hv : (s.inode e).toDInode = v) (hdev : (s.inode e).dev = ROOTDEV)
    (hslot : slotOf s.blk v (fileSlot bn) ≠ 0) (hind : v.addr NDIRECT < s.disksize) :
    Yields (Fs.bmap e bn) s (slotOf s.blk v (fileSlot bn)) s := by
  have hD := NDIRECT_eq
  have hI := NINDIRECT_eq
  have hM := MAXFILE_eq
  have hbn := lt_maxfile_of_slot hslot
  refine seq getInode ?_
  rw [hdev]
  by_cases hdir : bn < NDIRECT
  · rw [slotOf_fileSlot_of_lt hdir] at hslot ⊢
    rw [if_pos hdir, Fs.bmapAddr, hv, if_neg hslot]
    exact pure
  · have hind0 : v.addr NDIRECT ≠ 0 := by
      intro hz
      rw [fileSlot, if_neg hdir, slotOf, if_neg (by omega), if_pos hz] at hslot
      exact hslot rfl
    rw [slotOf_fileSlot_of_ge (by omega) hind0] at hslot ⊢
    rw [if_neg hdir, if_pos (by omega), Fs.bmapAddr, hv, if_neg hind0]
    refine seq pure (seq (bread hs.held hs.spare hind) (seq data ?_))
    rw [setHeld_blk, if_neg hslot]
    exact seq (brelse hs.held) pure

/-- The loop of `readi` over blocks that the inode has. -/
lemma readiLoop {fuel : ℕ} (hs : s.Idle) (hv : (s.inode e).toDInode = v)
    (hdev : (s.inode e).dev = ROOTDEV) (hind : v.addr NDIRECT < s.disksize) (hfuel : n ≤ fuel)
    (hslot : ∀ i < n, slotOf s.blk v (fileSlot ((off + i) / BSIZE)) ≠ 0 ∧
      slotOf s.blk v (fileSlot ((off + i) / BSIZE)) < s.disksize) :
    Yields (Fs.readiLoop e ROOTDEV fuel off n) s (fileBytes s.blk v off n) s := by
  induction fuel generalizing off n with
  | zero =>
      obtain rfl : n = 0 := by omega
      exact pure
  | succ fuel ih =>
      rw [Fs.readiLoop]
      by_cases hn : n = 0
      · subst hn
        rw [if_pos rfl]
        exact pure
      · rw [if_neg hn]
        have hm := mod_bsize_lt off
        obtain ⟨m, hmin⟩ : ∃ m, min n (BSIZE - off % BSIZE) = m := ⟨_, rfl⟩
        obtain ⟨hne, hlt⟩ := hslot 0 (by omega)
        have hrest : ∀ i < n - m, slotOf s.blk v (fileSlot ((off + m + i) / BSIZE)) ≠ 0 ∧
            slotOf s.blk v (fileSlot ((off + m + i) / BSIZE)) < s.disksize := fun i hi => by
          rw [Nat.add_assoc]
          exact hslot (m + i) (by omega)
        have hbytes : fileBytes s.blk v off n =
          (s.blk (slotOf s.blk v (fileSlot (off / BSIZE)))).slice
            (off % BSIZE) m ++ fileBytes s.blk v (off + m) (n - m) := by
          rw [← fileBytes_eq_slice (by omega), ← fileBytes_add, Nat.add_sub_cancel' (by omega)]
        rw [Nat.add_zero] at hne hlt
        rw [hbytes, hmin]
        refine seq (bmap hs hv hdev hne hind) (seq (bread hs.held hs.spare hlt)
          (seq data (seq (brelse hs.held) ?_)))
        exact seq (ih (by omega) hrest) pure

/-- `readi` of a part of a file. -/
lemma readi (hs : s.Idle) (hread : s.seen.reading = false) (hv : (s.inode e).toDInode = v)
    (hdev : (s.inode e).dev = ROOTDEV) (hind : v.addr NDIRECT < s.disksize) (ht : v.type ≠ T_DEV)
    (hslot : ∀ i < n, off + i < v.size.toNat → slotOf s.blk v (fileSlot ((off + i) / BSIZE)) ≠ 0 ∧
      slotOf s.blk v (fileSlot ((off + i) / BSIZE)) < s.disksize) :
    Yields (Fs.readi e off n) s (readResult s.blk v off n) s := by
  obtain ⟨t, ht₁⟩ : ∃ t, s.setSeen { s.seen with reading := true } = t := ⟨_, rfl⟩
  have hbody : Yields (Fs.readiBody e off n) t (readResult s.blk v off n) t := by
    subst ht₁
    have hs₁ : (s.setSeen { s.seen with reading := true }).Idle := ⟨hs.held, hs.sectors⟩
    refine seq getInode ?_
    have hv₁ : ((s.setSeen { s.seen with reading := true }).inode e).toDInode = v := hv
    have hdev₁ : ((s.setSeen { s.seen with reading := true }).inode e).dev = ROOTDEV := hdev
    rw [hv₁, hdev₁, if_neg ht, readResult]
    split
    · exact pure
    · rename_i hcond
      refine seq (readiLoop (s := s.setSeen _) hs₁ hv₁ hdev₁ hind le_rfl fun i hi => hslot i ?_ ?_)
        pure
      · split at hi <;> omega
      · split at hi <;> omega
  have hleave : Act.readiLeave.exec t = .ok () s := by
    have hback : ({ s.seen with reading := false } : Observed) = s.seen := by rw [← hread]
    rw [← ht₁]
    simp only [Act.exec, FsState.setSeen, hback]
  exact seq (act (x := .readiEnter) (congrArg (EStateM.Result.ok ()) ht₁))
    (seq hbody (seq (act hleave) pure))

/-! ## Directories -/

/-- The first `m` entries of a directory can be read. -/
structure Directory (h : ℕ → Block) (disksize : ℕ) (v : DInode) (m : ℕ) : Prop where
  type : v.type = T_DIR
  indirect : v.addr NDIRECT < disksize
  size : Dirent.SIZE * m ≤ v.size.toNat
  slot : ∀ j < m, slotOf h v (fileSlot (Dirent.SIZE * j / BSIZE)) ≠ 0 ∧
    slotOf h v (fileSlot (Dirent.SIZE * j / BSIZE)) < disksize

lemma Directory.mono {h : ℕ → Block} {disksize m m' : ℕ} (d : Directory h disksize v m)
    (hle : m' ≤ m) :
    Directory h disksize v m' :=
  ⟨d.type, d.indirect, (Nat.mul_le_mul_left _ hle).trans d.size,
    fun j hj => d.slot j (hj.trans_le hle)⟩

/-- Entry `e` of the inode cache is such a directory, and nothing keeps `readi` from reading it. -/
structure Scans (s : FsState) (e : InodeId) (v : DInode) (m : ℕ) : Prop extends
    Directory s.blk s.disksize v m where
  idle : s.Idle
  reading : s.seen.reading = false
  inode : (s.inode e).toDInode = v
  dev : (s.inode e).dev = ROOTDEV

/-- The `j`-th entry of a directory. -/
def entryAt (h : ℕ → Block) (v : DInode) (j : ℕ) : Dirent :=
  Dirent.decode (fileBytes h v (Dirent.SIZE * j) Dirent.SIZE)

/-- `readi` of one entry. -/
lemma readi_entry {m j : ℕ} (d : Scans s e v m) (hj : j < m) :
    Yields (Fs.readi e (Dirent.SIZE * j) Dirent.SIZE) s
      (Dirent.SIZE, fileBytes s.blk v (Dirent.SIZE * j) Dirent.SIZE) s := by
  have hS := Dirent.SIZE_eq
  have hB := BSIZE_eq
  have hsize := d.size
  have hlt := v.size.toNat_lt
  have hresult : readResult s.blk v (Dirent.SIZE * j) Dirent.SIZE =
      ((Dirent.SIZE : ℤ), fileBytes s.blk v (Dirent.SIZE * j) Dirent.SIZE) := by
    rw [hS] at hsize ⊢
    rw [readResult, if_neg (by omega), if_neg (by omega)]
  rw [← hresult]
  refine readi d.idle d.reading d.inode d.dev d.indirect (by rw [d.type]; decide) fun i hi _ => ?_
  have hdiv : (Dirent.SIZE * j + i) / BSIZE = Dirent.SIZE * j / BSIZE := by
    rw [hS] at hi ⊢
    rw [hB]
    omega
  rw [hdiv]
  exact d.slot j hj

/-- The loop of `dirlookup` passes the entries that do not match. -/
lemma dirlookupLoop_skip {name : Name} {m : ℕ} {r : Option (InodeId × ℕ)} {js offs : List ℕ}
    (d : Scans s e v m)
    (hskip : ∀ j ∈ js, j < m ∧ ((entryAt s.blk v j).inum = 0 ∨
      namecmp name (entryAt s.blk v j).name ≠ 0))
        (h : Yields (Fs.dirlookupLoop e ROOTDEV name offs) s r s') :
    Yields (Fs.dirlookupLoop e ROOTDEV name (js.map (Dirent.SIZE * ·) ++ offs)) s r s' := by
  induction js with
  | nil => exact h
  | cons j js ih =>
      obtain ⟨hj, hno⟩ := hskip j List.mem_cons_self
      have hdec : Dirent.decode (fileBytes s.blk v (Dirent.SIZE * j) Dirent.SIZE) =
        entryAt s.blk v j := rfl
      refine seq (readi_entry d hj) ?_
      dsimp only
      rw [if_neg (by simp), hdec]
      have hrest := ih fun i hi => hskip i (List.mem_cons_of_mem j hi)
      split
      · exact hrest
      · rename_i hz
        rw [if_neg (hno.resolve_left hz)]
        exact hrest

/-- `dirlookup` stops at the first entry that matches. -/
lemma dirlookup {name : Name} {x k : ℕ} {e' : InodeId} (d : Scans s e v (k + 1))
    (hskip : ∀ j < k, (entryAt s.blk v j).inum = 0 ∨ namecmp name (entryAt s.blk v j).name ≠ 0)
    (hinum : (entryAt s.blk v k).inum = x) (hx : x ≠ 0)
    (hname : namecmp name (entryAt s.blk v k).name = 0)
    (higet : (Act.iget ROOTDEV x).exec s = .ok e' s') :
    Yields (Fs.dirlookup e name) s (some (e', Dirent.SIZE * k)) s' := by
  have hS := Dirent.SIZE_eq
  have hsize := d.size
  have hlt : k < (v.size.toNat + Dirent.SIZE - 1) / Dirent.SIZE := by
    rw [hS] at hsize ⊢
    omega
  have hoffs : Fs.direntOffsets v.size.toNat = (List.range k).map (Dirent.SIZE * ·) ++
    Dirent.SIZE * k ::
      ((List.range ((v.size.toNat + Dirent.SIZE - 1) / Dirent.SIZE)).drop (k + 1)).map
      (Dirent.SIZE * ·) := by
    rw [Fs.direntOffsets, ← List.map_cons, ← List.map_append]
    congr 1
    have hsplit :=
      (List.take_append_drop k (List.range ((v.size.toNat + Dirent.SIZE - 1) / Dirent.SIZE))).symm
    rwa [List.take_range, min_eq_left hlt.le, List.drop_eq_getElem_cons (by simpa using hlt),
      List.getElem_range] at hsplit
  refine seq getInode ?_
  rw [d.inode, d.dev, if_neg (by simp [d.type]), hoffs]
  refine dirlookupLoop_skip d (fun j hj => ?_) (seq (readi_entry d (Nat.lt_succ_self k)) ?_)
  · have hjk := List.mem_range.1 hj
    exact ⟨hjk.trans (Nat.lt_succ_self k), hskip j hjk⟩
  · have hdec : Dirent.decode (fileBytes s.blk v (Dirent.SIZE * k) Dirent.SIZE) =
      entryAt s.blk v k := rfl
    dsimp only
    rw [if_neg (by simp), hdec, hinum, if_neg hx, if_pos hname]
    exact seq (act higet) pure

end Yields

end Xv6
