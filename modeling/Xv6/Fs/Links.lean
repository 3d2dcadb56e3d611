import Xv6.Fs.Files

/-!
# Changing the directory tree

Rules for `create`, `link` and `unlink`.  Whatever they do to directories, they keep the invariant
and all inodes that files and processes refer to.
-/

namespace Xv6

open Lib FsState

variable {mode : Mode} {sb : Superblock} {s : FsState} {L : List InodeId} {e dp ip : InodeId}
  {p : ProcId} {d x : ℕ} {name path : Name}

namespace Safe

/-! ## Creating -/

lemma createDots {Q : Unit → FsState → Prop} (i : Inv sb L s) (ld : Live s dp d) (lx : Live s ip x)
    (h : ∀ s', Inv sb L s' → Keeps L s s' → Live s' dp d → Live s' ip x → Q () s') :
    Safe sb mode (Fs.createDots dp ip) Q s := by
  refine seq (getInode (seq (setInode (seq ?_))))
  refine iupdate_edit i ld rfl rfl rfl fun s₁ i₁ ed₁ k₁ => ?_
  have ld₁ := ed₁.live ld
  have lx₁ := ed₁.live lx
  refine seq (getInode (seq ?_))
  rw [lx₁.inum]
  refine dirlink i₁ lx₁ (i₁.inum_lt lx₁) (fun s₂ i₂ _ => ?_) fun s₂ i₂ ed₂ k₂ => ?_
  · rw [if_pos (by decide)]
    exact panic i₂.readAlloc (by decide)
  have ld₂ := ed₂.live ld₁
  have lx₂ := ed₂.live lx₁
  rw [if_neg (by decide)]
  refine seq (getInode (seq ?_))
  rw [ld₂.inum]
  refine dirlink i₂ lx₂ (i₂.inum_lt ld₂) (fun s₃ i₃ _ => ?_) fun s₃ i₃ ed₃ k₃ => ?_
  · rw [if_pos (by decide)]
    exact panic i₃.readAlloc (by decide)
  rw [if_neg (by decide)]
  exact pure (h s₃ i₃ ((k₁.trans k₂).trans k₃) (ed₃.live ld₂) (ed₃.live lx₂))

/-- The part of `create` that makes a new inode. -/
lemma createNew {Q : Option InodeId → FsState → Prop} {type major minor : Int16}
    (i : Inv sb (dp :: L) s) (ld : Live s dp d)
    (h : ∀ ip x s', Inv sb (ip :: L) s' → Keeps L s s' → Live s' ip x →
      (s'.inode ip).type = type → Q (some ip) s') :
    Safe sb mode (do
      let d ← Fs.getInode dp
      let ip ← Fs.ialloc d.dev type
      Fs.ilock ip
      let v ← Fs.getInode ip
      Fs.setInode ip { v.toDInode with major := major, minor := minor, nlink := 1 }
      Fs.iupdate ip
      if type = T_DIR then Fs.createDots dp ip
      let v ← Fs.getInode ip
      let r ← Fs.dirlink dp name v.inum
      if r < 0 then Sys.panic "create: dirlink"
      else
        Fs.iunlockput dp
        Pure.pure (some ip)) Q s := by
  obtain ⟨ino, c⟩ := i.content
  refine seq (getInode ?_)
  rw [c.cached.dev_of_live ld]
  refine seq (ialloc i fun ip s₀ i₀ k₀ hv₀ ht₀ => ?_)
  refine seq (ilock i₀ fun s₁ i₁ k₁ hh₁ lx₁ hdisk => ?_)
  have k₁' : Keeps (dp :: L) s s₁ := k₀.trans (k₁.mono (by simp))
  have ld₁ : Live s₁ dp d := ld.keeps k₁' i₁ (.inl (by simp)) (by simp)
  refine seq (getInode (seq (setInode (seq ?_))))
  refine iupdate_edit i₁ lx₁ rfl rfl rfl fun s₂ i₂ ed₂ k₂ => ?_
  have k₂' : Keeps (dp :: L) s s₂ := k₁'.trans (k₂.mono (by simp))
  have lx₂ := ed₂.live lx₁
  have htype₂ : (s₂.inode ip).type = type := by
    rw [((ed₂.shown ip).valid lx₁.valid).2, hdisk hv₀, ht₀]
  -- the entries of a new directory, then the entry for it
  have hlink : ∀ s₃, Inv sb (ip :: dp :: L) s₃ → Keeps (ip :: dp :: L) s₂ s₃ → Live s₃ dp d →
      Live s₃ ip (s₀.inode ip).inum → Safe sb mode (do
        let v ← Fs.getInode ip
        let r ← Fs.dirlink dp name v.inum
        if r < 0 then Sys.panic "create: dirlink"
        else
          Fs.iunlockput dp
          Pure.pure (some ip)) Q s₃ := by
    intro s₃ i₃ k₃ ld₃ lx₃
    refine seq (getInode ?_)
    rw [lx₃.inum]
    refine seq (dirlink i₃ ld₃ (i₃.inum_lt lx₃) (fun s₄ i₄ _ => ?_) fun s₄ i₄ ed₄ k₄ => ?_)
    · rw [if_pos (by decide)]
      exact panic i₄.readAlloc (by decide)
    rw [if_neg (by decide)]
    refine seq (iunlockput (i₄.perm (List.Perm.swap dp ip L)) fun s₅ i₅ k₅ =>
      pure (h ip _ s₅ i₅ ?_ ((ed₄.live lx₃).keeps k₅ i₅ (.inl (by simp)) (by simp)) ?_))
    · exact (k₂'.mono (by simp)).trans (((k₃.trans k₄).mono (by simp)).trans (k₅.mono (by simp)))
    · have ht₄ := ((k₃.trans k₄).kept ip (.inl (by simp))).valid lx₂.valid
      rw [((k₅.kept ip (.inl (by simp))).valid ht₄.1).2, ht₄.2, htype₂]
  split
  · exact seq (createDots i₂ (ed₂.live ld₁) lx₂ hlink)
  · exact hlink s₂ i₂ (.refl _ _) (ed₂.live ld₁) lx₂

/-- `create` returns a locked inode: one that it has made, or a file that it has found. -/
lemma create {Q : Option InodeId → FsState → Prop} {type major minor : Int16} (i : Inv sb L s)
    (hnone : ∀ s', Inv sb L s' → Keeps L s s' → Q none s')
    (hsome : ∀ ip x s', Inv sb (ip :: L) s' → Keeps L s s' → Live s' ip x →
      (s'.inode ip).type = type → Q (some ip) s') :
    Safe sb mode (Fs.create p path type major minor) Q s := by
  refine seq (nameiparent i (fun s' i' k' => pure (hnone s' i' k')) fun dp name s₀ r => ?_)
  refine seq (ilock r.inv fun s₁ i₁ k₁ _ ld _ => ?_)
  have k : Keeps L s s₁ := r.keeps.trans (k₁.mono (by simp))
  refine seq (dirlookup i₁ ld (fun _ => ?_) fun ip off s₂ _ f => ?_)
  · exact createNew i₁ ld fun ip x s' i' k' => hsome ip x s' i' (k.trans k')
  · refine seq (iunlockput (f.inv.perm (List.Perm.swap dp ip L)) fun s₃ i₃ k₃ => ?_)
    refine seq (ilock i₃ fun s₄ i₄ k₄ _ l₄ _ => seq (getInode ?_))
    have k₄' : Keeps L s s₄ := k.trans ((f.keeps.mono (by simp)).trans
      ((k₃.mono (by simp)).trans (k₄.mono (by simp))))
    split
    · rename_i htype
      exact pure (hsome ip _ s₄ i₄ k₄' l₄ (htype.2.trans htype.1.symm))
    · exact seq (iunlockput i₄ fun s₅ i₅ k₅ => pure (hnone s₅ i₅ (k₄'.trans k₅)))

/-! ## Unlinking -/

lemma isdiremptyLoop {Q : Bool → FsState → Prop} {offs : List ℕ} (i : Inv sb L s) (l : Live s e x)
    (ht : (s.node x).type = T_DIR) (h : ∀ b, Q b s) :
    Safe sb mode (Fs.isdiremptyLoop e offs) Q s := by
  induction offs with
  | nil => exact pure (h true)
  | cons off offs ih =>
      rw [Fs.isdiremptyLoop]
      refine seq (readi_entry i l ht fun ⟨r, bytes⟩ _ => ?_)
      dsimp only
      split
      · exact panic i.readAlloc (by decide)
      split
      · exact pure (h false)
      · exact ih

lemma sysUnlinkBad {Q : ℤ → FsState → Prop} (i : Inv sb [dp] s)
    (h : ∀ r s', Inv sb [] s' → Keeps [] s s' → Q r s') :
    Safe sb mode (Fs.sysUnlinkBad dp) Q s :=
  seq (iunlockput i fun _ i₁ k₁ => seq (commitTrans_inv i₁ fun s₂ i₂ w₂ =>
    pure (h _ s₂ i₂ (k₁.trans w₂.keeps))))

/-- The end of `unlink`: the inode loses a link, and perhaps its last reference. -/
lemma unlinkChild {Q : ℤ → FsState → Prop} (i : Inv sb [ip] s) (l : Live s ip x)
    (h : ∀ r s', Inv sb [] s' → Keeps [] s s' → Q r s') :
    Safe sb mode (do
      let v ← Fs.getInode ip
      Fs.setInode ip { v.toDInode with nlink := v.nlink - 1 }
      Fs.iupdate ip
      Fs.iunlockput ip
      Fs.commitTrans
      Pure.pure 0) Q s := by
  refine seq (getInode (seq (setInode (seq ?_))))
  refine iupdate_edit i l rfl rfl rfl fun s₁ i₁ _ k₁ => ?_
  exact seq (iunlockput i₁ fun _ i₂ k₂ => seq (commitTrans_inv i₂ fun s₃ i₃ w₃ =>
    pure (h _ s₃ i₃ ((k₁.mono (by simp)).trans (k₂.trans w₃.keeps)))))

/-- The part of `unlink` that removes the entry. -/
lemma unlinkEntry {Q : ℤ → FsState → Prop} {off : ℕ} (i : Inv sb [ip, dp] s) (ld : Live s dp d)
    (l : Live s ip x) (ht : (s.node d).type = T_DIR) (ho : off % Dirent.SIZE = 0)
    (h : ∀ r s', Inv sb [] s' → Keeps [] s s' → Q r s') :
    Safe sb mode (do
      let r ← Fs.writei dp (fun _ => 0) off Dirent.SIZE
      if r ≠ Dirent.SIZE then Sys.panic "unlink: writei"
      else
        if (s.inode ip).type = T_DIR then
          let d ← Fs.getInode dp
          Fs.setInode dp { d.toDInode with nlink := d.nlink - 1 }
          Fs.iupdate dp
        Fs.iunlockput dp
        let v ← Fs.getInode ip
        Fs.setInode ip { v.toDInode with nlink := v.nlink - 1 }
        Fs.iupdate ip
        Fs.iunlockput ip
        Fs.commitTrans
        Pure.pure 0) Q s := by
  obtain ⟨ino, c⟩ := i.content
  refine seq (writei_inv i ld (fun _ => entryWrite_zero c.mounted.sound ho) (fun r hr => ?_)
    fun s₁ i₁ ed₁ w₁ => ?_)
  · obtain ⟨rfl, -⟩ := hr.resolve_right fun hdev => T_DIR_ne_T_DEV (ht.symm.trans hdev)
    rw [if_pos (by decide)]
    exact panic i.readAlloc (by decide)
  rw [if_neg (not_not.2 rfl)]
  have k₁ := w₁.keeps ed₁ i i₁ ld ht
  -- the parent is given back, then the child
  have hend : ∀ s₂, Inv sb [ip, dp] s₂ → Keeps [ip, dp] s₁ s₂ → Safe sb mode (do
      Fs.iunlockput dp
      let v ← Fs.getInode ip
      Fs.setInode ip { v.toDInode with nlink := v.nlink - 1 }
      Fs.iupdate ip
      Fs.iunlockput ip
      Fs.commitTrans
      Pure.pure 0) Q s₂ := by
    intro s₂ i₂ k₂
    have k := k₁.trans k₂
    have l₂ := l.keeps k i₂ (.inl (by simp)) (by simp)
    refine seq (iunlockput (i₂.perm (List.Perm.swap dp ip [])) fun s₃ i₃ k₃ => ?_)
    exact unlinkChild i₃ (l₂.keeps k₃ i₃ (.inl (by simp)) (by simp)) fun r s' i' k' =>
      h r s' i' ((k.mono (by simp)).trans ((k₃.mono (by simp)).trans k'))
  split
  · refine seq (getInode (seq (setInode (seq ?_))))
    exact iupdate_edit i₁ (ed₁.live ld) rfl rfl rfl fun s₂ i₂ _ k₂ => hend s₂ i₂ k₂
  · exact hend s₁ i₁ (.refl _ _)

/-- `unlink` once it has locked the inode: it must be an empty directory, or no directory. -/
lemma unlinkFound {Q : ℤ → FsState → Prop} {off : ℕ} (i : Inv sb [ip, dp] s) (ld : Live s dp d)
    (l : Live s ip x) (hdir : (s.node d).type = T_DIR) (ho : off % Dirent.SIZE = 0)
    (h : ∀ r s', Inv sb [] s' → Keeps [] s s' → Q r s') :
    Safe sb mode (do
      let v ← Fs.getInode ip
      if v.nlink < 1 then Sys.panic "unlink: nlink < 1"
      else
        let empty ← if v.type = T_DIR then Fs.isdirempty ip else Pure.pure true
        if empty = false then
          Fs.iunlockput ip
          Fs.sysUnlinkBad dp
        else
          let r ← Fs.writei dp (fun _ => 0) off Dirent.SIZE
          if r ≠ Dirent.SIZE then Sys.panic "unlink: writei"
          else
            if v.type = T_DIR then
              let d ← Fs.getInode dp
              Fs.setInode dp { d.toDInode with nlink := d.nlink - 1 }
              Fs.iupdate dp
            Fs.iunlockput dp
            let v ← Fs.getInode ip
            Fs.setInode ip { v.toDInode with nlink := v.nlink - 1 }
            Fs.iupdate ip
            Fs.iunlockput ip
            Fs.commitTrans
            Pure.pure 0) Q s := by
  refine seq (getInode ?_)
  split
  · exact panic i.readAlloc (by decide)
  have hfull : Safe sb mode (do Fs.iunlockput ip; Fs.sysUnlinkBad dp) Q s :=
    seq (iunlockput i fun s₁ i₁ k₁ => sysUnlinkBad i₁ fun r s₂ i₂ k₂ =>
      h r s₂ i₂ ((k₁.mono (by simp)).trans k₂))
  have hremove : Safe sb mode _ Q s := unlinkEntry i ld l hdir ho h
  by_cases ht : (s.inode ip).type = T_DIR
  · rw [if_pos ht]
    refine seq (seq (getInode (isdiremptyLoop i l (by rw [i.node_of_live l]; exact ht) ?_)))
    rintro (_ | _)
    · exact hfull
    · exact hremove
  · rw [if_neg ht]
    exact seq (pure hremove)

lemma sysUnlink {Q : ℤ → FsState → Prop} {path : Option Name} (i : Inv sb [] s)
    (h : ∀ r s', Inv sb [] s' → Keeps [] s s' → Q r s') :
    Safe sb mode (Fs.sysUnlink p path) Q s := by
  cases path with
  | none => exact pure (h _ s i (.refl _ _))
  | some path =>
      refine seq (nameiparent i (fun s' i' k' => pure (h _ s' i' k'))
        fun dp name s₀ r => seq (beginTrans_inv r.inv fun s₁ i₁ w₁ => ?_))
      refine seq (ilock i₁ fun s₂ i₂ k₂ _ ld _ => ?_)
      have k : Keeps [] s s₂ := r.keeps.trans (w₁.keeps.trans (k₂.mono (by simp)))
      have hback : Safe sb mode (Fs.sysUnlinkBad dp) Q s₂ :=
        sysUnlinkBad i₂ fun r s' i' k' => h r s' i' (k.trans k')
      split
      · exact hback
      refine seq (dirlookup i₂ ld (fun _ => hback) fun ip off s₃ hdir f => ?_)
      refine seq (ilock f.inv fun s₄ i₄ k₄ hh₄ l _ => ?_)
      have ld₄ := (ld.keeps f.keeps f.inv (.inl (by simp)) (by simp)).keeps k₄ i₄ (.inl (by simp))
        (by simp)
      refine unlinkFound i₄ ld₄ l ?_ (mem_direntOffsets.1 f.mem).1 fun r s' i' k' => h r s' i'
        (k.trans ((f.keeps.mono (by simp)).trans ((k₄.mono (by simp)).trans k')))
      rw [node_congr (hh₄.trans f.home), hdir]

/-! ## Linking -/

/-- The end of `link` that undoes the new link count. -/
lemma sysLinkBad {Q : ℤ → FsState → Prop} (i : Inv sb [ip] s)
    (h : ∀ r s', Inv sb [] s' → Keeps [] s s' → Q r s') :
    Safe sb mode (Fs.sysLinkBad ip) Q s := by
  refine seq (ilock i fun s₀ i₀ k₀ _ l₀ _ => ?_)
  refine seq (getInode (seq (setInode (seq ?_))))
  refine iupdate_edit i₀ l₀ rfl rfl rfl fun s₁ i₁ _ k₁ => ?_
  exact seq (iunlockput i₁ fun _ i₂ k₂ => seq (commitTrans_inv i₂ fun s₃ i₃ w₃ =>
    pure (h _ s₃ i₃ (((k₀.trans k₁).mono (by simp)).trans (k₂.trans w₃.keeps)))))

lemma sysLink {Q : ℤ → FsState → Prop} {old new : Option Name} (i : Inv sb [] s)
    (h : ∀ r s', Inv sb [] s' → Keeps [] s s' → Q r s') :
    Safe sb mode (Fs.sysLink p old new) Q s := by
  cases old with
  | none => exact pure (h _ s i (.refl _ _))
  | some old =>
  cases new with
  | none => exact pure (h _ s i (.refl _ _))
  | some new =>
      refine seq (namei i (fun s' i' k' => pure (h _ s' i' k')) fun ip s₀ r => ?_)
      refine seq (beginTrans_inv r.inv fun s₁ i₁ w₁ => ?_)
      refine seq (ilock i₁ fun s₂ i₂ k₂ _ l₂ _ => seq (getInode ?_))
      have k : Keeps [] s s₂ := r.keeps.trans (w₁.keeps.trans (k₂.mono (by simp)))
      split
      · exact seq (iunlockput i₂ fun s₃ i₃ k₃ => seq (commitTrans_inv i₃ fun s₄ i₄ w₄ =>
          pure (h _ s₄ i₄ (k.trans (k₃.trans w₄.keeps)))))
      refine seq (setInode (seq ?_))
      refine iupdate_edit i₂ l₂ rfl rfl rfl fun s₃ i₃ _ k₃ => ?_
      refine seq (iunlock_inv i₃ fun s₄ i₄ hs₄ => ?_)
      have k₄ : Keeps [ip] s₂ s₄ := k₃.trans (by rw [hs₄]; exact .setBusy)
      have k₄' : Keeps [] s s₄ := k.trans (k₄.mono (by simp))
      -- whenever the entry cannot be made, the link is taken back
      have hback : ∀ s₅, Inv sb [ip] s₅ → Keeps [ip] s₄ s₅ →
          Safe sb mode (Fs.sysLinkBad ip) Q s₅ := fun s₅ i₅ k₅ =>
        sysLinkBad i₅ fun r s' i' k' => h r s' i' (k₄'.trans ((k₅.mono (by simp)).trans k'))
      refine seq (nameiparent i₄ hback fun dp name s₅ r₅ => ?_)
      refine seq (ilock r₅.inv fun s₆ i₆ k₆ _ ld₆ _ => seq (getInode (seq (getInode ?_))))
      have k₆' : Keeps [ip] s₄ s₆ := r₅.keeps.trans (k₆.mono (by simp))
      have l₆ := (l₂.keeps k₄ i₄ (.inl (by simp)) (by simp)).keeps k₆' i₆ (.inl (by simp)) (by simp)
      obtain ⟨ino, c₆⟩ := i₆.content
      rw [c₆.cached.dev_of_live ld₆, c₆.cached.dev_of_live l₆, if_neg (not_not.2 rfl), l₆.inum]
      refine seq (dirlink i₆ ld₆ (i₆.inum_lt l₆) (fun s₇ i₇ k₇ => ?_) fun s₇ i₇ _ k₇ => ?_)
      · rw [if_pos (by decide)]
        exact seq (iunlockput i₇ fun s₈ i₈ k₈ =>
          hback s₈ i₈ (k₆'.trans ((k₇.mono (by simp)).trans k₈)))
      · rw [if_neg (by decide)]
        refine seq (iunlockput i₇ fun s₈ i₈ k₈ => seq (iput i₈ fun s₉ i₉ k₉ => ?_))
        exact seq (commitTrans_inv i₉ fun s' i' w' => pure (h _ s' i' (k₄'.trans
          ((k₆'.mono (by simp)).trans ((k₇.mono (by simp)).trans ((k₈.mono (by simp)).trans
            (k₉.trans w'.keeps)))))))

end Safe

end Xv6
