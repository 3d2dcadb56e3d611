import Xv6.Fs.Refs

/-!
# Directories and paths

Rules for `dirlookup`, `dirlink`, `ialloc` and `namex`, over the invariant of `Xv6.Fs.Refs`.  They
say which entry was found or written, and what happens to the disk.
-/

namespace Xv6

open Lib FsState

variable {mode : Mode} {sb : Superblock} {s s' s₁ : FsState} {ino ino' : ℕ → DInode}
  {L : List InodeId} {e : InodeId} {h : ℕ → Block} {x y off n : ℕ} {v : DInode}

/-! ## Files under the invariant -/

namespace Inv

lemma live (i : Inv sb L s) (he : Held L s e) (hv : (s.inode e).valid = true) :
    Live s e (s.inode e).inum := ⟨i.ref_pos he, hv, rfl⟩

lemma inum_lt (i : Inv sb L s) (l : Live s e x) : x < sb.ninodes := by
  obtain ⟨ino, c⟩ := i.content
  exact c.cached.lt_of_live l

/-- What the disk has for an inode that is cached. -/
lemma node_of_live (i : Inv sb L s) (l : Live s e x) : s.node x = (s.inode e).toDInode := by
  obtain ⟨ino, c⟩ := i.content
  exact c.node_of_live l

lemma node_type (i : Inv sb L s) (l : Live s e x) : (s.node x).type ≠ 0 := by
  obtain ⟨ino, c⟩ := i.content
  rw [c.node_eq (c.cached.lt_of_live l)]
  exact c.cached.type_of_live l

lemma setOutside (i : Inv sb L s) (o : Outside) : Inv sb L (s.setOutside o) := by
  obtain ⟨ino, c⟩ := i.content
  exact ⟨⟨ino, c.setOutside o⟩, i.reading, i.counts, i.opened, i.closed⟩

/-- Blocks have been written. -/
lemma wrote (i : Inv sb L s) (w : Wrote s h s') (hc : ∃ ino, Consistent sb s' ino []) :
    Inv sb L s' :=
  i.change hc w.file w.proc w.reading (fun e => by rw [w.inode]) fun _ e _ =>
    .of_eq (by rw [w.inode])

end Inv

lemma Inv.setSeen (i : Inv sb L s) {o : Observed} (hread : o.reading = s.seen.reading)
    (halloc : o.readAlloc = s.seen.readAlloc) : Inv sb L (s.setSeen o) := by
  obtain ⟨ino, c⟩ := i.content
  exact ⟨⟨ino, c.setSeen halloc⟩, hread.trans i.reading, i.counts, i.opened, i.closed⟩

lemma Live.kept (l : Live s e x) (k : Kept s s' e) (href : 0 < (s'.inode e).ref) : Live s' e x :=
  ⟨href, (k.valid l.valid).1, k.inum.trans l.inum⟩

lemma Live.keeps {L' : List InodeId} (l : Live s e x) (k : Keeps L s s') (i : Inv sb L' s')
    (he : Held L s e) (hL : L ⊆ L') : Live s' e x :=
  l.kept (k.kept e he) (i.ref_pos ((k.held he).mono hL))

lemma Keeps.setOutside (o : Outside) : Keeps L s (s.setOutside o) :=
  .of_home rfl rfl rfl fun _ _ => .of_eq rfl

/-- Starting or committing a transaction keeps the contents of all blocks. -/
lemma Consistent.wrote_home (c : Consistent sb s ino []) (w : Wrote s s.home s') :
    Consistent sb s' ino [] :=
  ⟨c.mounted.wrote w rfl, c.cached.wrote w fun _ _ _ => rfl, by rw [w.home]; exact c.good⟩

namespace Safe

/-- `begin_trans` changes nothing but the log. -/
lemma beginTrans_inv {Q : Unit → FsState → Prop} (i : Inv sb L s)
    (h : ∀ s', Inv sb L s' → Wrote s s.home s' → Q () s') : Safe sb mode Fs.beginTrans Q s := by
  obtain ⟨ino, c⟩ := i.content
  exact beginTrans c.mounted.journal i.readAlloc fun s' w =>
    h s' (i.wrote w ⟨ino, c.wrote_home w⟩) w

/-- `commit_trans` changes nothing but the log. -/
lemma commitTrans_inv {Q : Unit → FsState → Prop} (i : Inv sb L s)
    (h : ∀ s', Inv sb L s' → Wrote s s.home s' → Q () s') : Safe sb mode Fs.commitTrans Q s := by
  obtain ⟨ino, c⟩ := i.content
  have hj := c.mounted.journal
  exact commitTrans hj i.readAlloc
    ⟨c.coherent, fun s' hx => (c.wrote_home (wrote_of_commitTrans hj hx)).coherent⟩ fun s' w =>
      h s' (i.wrote w ⟨ino, c.wrote_home w⟩) w

end Safe

lemma Wrote.keeps (w : Wrote s s.home s') : Keeps L s s' :=
  .of_home w.home w.file w.proc fun _ _ => .of_eq (by rw [w.inode])

lemma Wrote.live (w : Wrote s h s') (l : Live s e x) : Live s' e x := by
  refine ⟨?_, ?_, ?_⟩ <;> rw [w.inode]
  · exact l.ref
  · exact l.valid
  · exact l.inum

/-! ## One inode on disk changes -/

/-- Only inode `x` may have changed on disk. -/
def Rest (sb : Superblock) (s s' : FsState) (x : ℕ) : Prop :=
  ∀ y < sb.ninodes, y ≠ x → SameNode s s' y

/-- Of file `x` the `n` bytes from offset `off` on have been written. -/
structure Written (sb : Superblock) (s s' : FsState) (x off n : ℕ) (src : ℕ → UInt8) : Prop where
  nodev : (s.node x).type ≠ T_DEV
  rest : Rest sb s s' x
  fields : { s'.node x with addrs := (s.node x).addrs, size := (s.node x).size } = s.node x
  size : (s'.node x).size.toNat = max (s.node x).size.toNat (off + n)
  within : off ≤ (s.node x).size.toNat
  bytes : Overwritten s s.node x s' s'.node (s.node x).size.toNat off n src

/-- If inode `x` has been edited, the entries that are held of other inodes are kept. -/
lemma Edited.kept (ed : Edited s e s') (i : Inv sb L s) (l : Live s e x) (r : Rest sb s s' x)
    (e' : InodeId) (he' : Held L s e') (hne : e' ≠ e) : Kept s s' e' := by
  obtain ⟨ino, c⟩ := i.content
  have hpos := i.ref_pos he'
  exact (ed.shown e').kept_of_same (r _ (c.cached.inum e' hpos) (c.cached.inum_ne l hne hpos))

/-- If a file has been edited and has the same contents, everything is kept. -/
lemma Edited.keeps (ed : Edited s e s') (i : Inv sb L s) (i' : Inv sb L s') (l : Live s e x)
    (r : Rest sb s s' x) (hfile : (s.node x).type = T_FILE → SameFile s s' x) : Keeps L s s' := by
  refine ⟨ed.file, ed.proc, fun e' he' => ?_⟩
  by_cases hne : e' = e
  · subst hne
    refine ⟨ed.shown e', fun _ => ?_, fun _ ht => ?_⟩
    · rw [l.inum, i.node_of_live l, i'.node_of_live (ed.live l)]
      exact ((ed.shown e').valid l.valid).2
    · rw [l.inum]
      exact hfile (by rw [i.node_of_live l, ht])
  · exact ed.kept i l r e' he' hne

lemma Written.keeps {src : ℕ → UInt8} (w : Written sb s s' x off n src) (ed : Edited s e s')
    (i : Inv sb L s) (i' : Inv sb L s') (l : Live s e x) (ht : (s.node x).type = T_DIR) :
    Keeps L s s' :=
  ed.keeps i i' l w.rest fun htype => absurd (ht.symm.trans htype) (by decide)

namespace Safe

/-- Reading a file: the state stays, unless it is a device that answers. -/
lemma readi_inv {Q : ℤ × List UInt8 → FsState → Prop} (i : Inv sb L s) (l : Live s e x)
    (h : ∀ r o, ((s.node x).type ≠ T_DEV → r = readResult s.home (s.node x) off n ∧
      o = s.outside) → Q r (s.setOutside o)) : Safe sb mode (Fs.readi e off n) Q s := by
  obtain ⟨ino, c⟩ := i.content
  rw [c.node_eq (c.cached.lt_of_live l)] at h
  exact readi c l i.reading h

lemma writei_inv {Q : ℤ → FsState → Prop} {src : ℕ → UInt8} (i : Inv sb L s) (l : Live s e x)
    (hd : (s.node x).type = T_DIR → EntryWrite sb src off n)
    (hstay : ∀ r, Refused (s.node x) off n r → Q r s)
    (h : ∀ s', Inv sb L s' → Edited s e s' → Written sb s s' x off n src → Q n s') :
    Safe sb mode (Fs.writei e src off n) Q s := by
  obtain ⟨ino, c⟩ := i.content
  have hx := c.cached.lt_of_live l
  have hnode := c.node_eq hx
  refine writei c l i.pinned i.reading (fun hdir => hd (by rw [hnode, hdir.2])) (by rwa [← hnode])
    fun s' ino' hdev c' ed _ o hfields hsize hoff hbytes => h s' (i.edited ed c') ed ?_
  have hnode' := c'.node_eq hx
  refine ⟨by rwa [hnode], fun y hy hne => o.same c c' hy hne, ?_, ?_, ?_,
    ⟨fun k => ?_, fun o => ?_⟩⟩
  · rw [hnode, hnode', hfields]
  · rw [hnode, hnode', hsize]
  · rw [hnode]
    exact hoff
  · rw [hnode, hnode']
    exact hbytes.slot k
  · rw [hnode, hnode']
    exact hbytes.byte o

/-- `iupdate` after a change of fields other than the type, the size and the addresses. -/
lemma iupdate_edit {Q : Unit → FsState → Prop} (i : Inv sb L s) (l : Live s e x)
    (haddrs : v.addrs = (s.inode e).addrs) (htype : v.type = (s.inode e).type)
    (hsize : v.size = (s.inode e).size)
    (h : ∀ s', Inv sb L s' → Edited s e s' → Keeps L s s' → Q () s') :
    Safe sb mode (Fs.iupdate e) Q (s.setInode e { s.inode e with toDInode := v }) := by
  obtain ⟨ino, c⟩ := i.content
  have hv := c.cached.eq_of_live l
  have hx := c.cached.lt_of_live l
  have hnode := c.node_eq hx
  have ed : Edited s e (s.setInode e { s.inode e with toDInode := v }) := .setInode htype
  rw [hv] at haddrs htype hsize
  have c₁ := c.setFields (v := v) l haddrs htype
    (fun hdev => by
      rw [hsize]
      exact c.good.filled x hx (c.cached.type_of_live l) (by rwa [← htype]))
    fun _ hdir => by
      rw [hsize]
      exact c.good.entries x hx trivial (by rw [← htype, hdir])
  refine iupdate_save c₁ (ed.live l) (by simp) fun s' c' w' hdata _ => ?_
  have hnode' : s'.node x = v := by rw [c'.node_eq hx, Function.update_self]
  have ed' : Edited s e s' := ed.trans (.of_wrote w')
  -- every block that an inode has is a data block
  have hblock : ∀ y < sb.ninodes, (ino y).type ≠ 0 → ∀ k, slotOf s.home (ino y) k ≠ 0 →
      s'.home (slotOf s.home (ino y) k) = s.home (slotOf s.home (ino y) k) := fun y hy ht k hk =>
    hdata _ (c.good.owns.held _ _ (own_slotOf hy ht hk)).1.1
  have i' := i.edited ed' c'
  refine h s' i' ed' (ed'.keeps i i' l (fun y hy hne => ⟨?_, fun ht k hk => ?_⟩) fun _ =>
    ⟨?_, ?_, ?_, fun ht k hk => ?_⟩)
  · rw [c'.node_eq hy, c.node_eq hy, Function.update_of_ne hne]
  · rw [c.node_eq hy] at ht hk ⊢
    exact hblock y hy ht k hk
  · rw [hnode', hnode, htype]
  · rw [hnode', hnode, hsize]
  · rw [hnode', hnode, haddrs]
  · rw [hnode] at ht hk ⊢
    exact hblock x hx ht k hk

end Safe

/-! ## Entries of directories -/

namespace FsState

/-- The entry at offset `off` of directory `d`. -/
def dirent (s : FsState) (d off : ℕ) : Dirent :=
  Dirent.decode (fileBytes s.home (s.node d) off Dirent.SIZE)

/-- The offsets of the entries of directory `d`. -/
def offsets (s : FsState) (d : ℕ) : List ℕ := Fs.direntOffsets (s.node d).size.toNat

end FsState

lemma mem_direntOffsets {size : ℕ} :
    off ∈ Fs.direntOffsets size ↔ off % Dirent.SIZE = 0 ∧ off < size := by
  simp only [Fs.direntOffsets, List.mem_map, List.mem_range]
  constructor
  · rintro ⟨k, hk, rfl⟩
    simp only [Dirent.SIZE] at hk ⊢
    omega
  · rintro ⟨hmod, hlt⟩
    refine ⟨off / Dirent.SIZE, ?_, ?_⟩
    · simp only [Dirent.SIZE] at hmod ⊢
      omega
    · exact Nat.mul_div_cancel' (Nat.dvd_of_mod_eq_zero hmod)

/-- The numbers in a directory are those of inodes of the file system. -/
lemma Inv.dirent_lt (i : Inv sb L s) (hx : x < sb.ninodes) (ht : (s.node x).type = T_DIR)
    (ho : off ∈ s.offsets x) : (s.dirent x off).inum < sb.ninodes := by
  obtain ⟨ino, c⟩ := i.content
  obtain ⟨hmod, hlt⟩ := mem_direntOffsets.1 ho
  rw [dirent, decode_fileBytes_inum hmod, c.node_eq hx]
  rw [c.node_eq hx] at ht hlt
  exact c.good.entries x hx trivial ht off hmod hlt

namespace Safe

/-- Reading an entry of a directory. -/
lemma readi_entry {Q : ℤ × List UInt8 → FsState → Prop} (i : Inv sb L s) (l : Live s e x)
    (ht : (s.node x).type = T_DIR)
    (h : ∀ r : ℤ × List UInt8, (r.1 = Dirent.SIZE →
      off + Dirent.SIZE ≤ (s.node x).size.toNat ∧ Dirent.decode r.2 = s.dirent x off) → Q r s) :
    Safe sb mode (Fs.readi e off Dirent.SIZE) Q s := by
  refine readi_inv i l fun r o hr => ?_
  obtain ⟨rfl, rfl⟩ := hr (by rw [ht]; exact T_DIR_ne_T_DEV)
  refine h _ fun hsize => ?_
  obtain ⟨hle, heq⟩ := readResult_of_fst hsize
  exact ⟨hle, by rw [heq, dirent]⟩

end Safe

/-! ## Looking up an entry -/

/-- The reference to `ip` is new, and an entry at offset `off` of directory `d` names it. -/
structure Found (sb : Superblock) (L : List InodeId) (s : FsState) (d : ℕ) (ip : InodeId) (off : ℕ)
    (s' : FsState) : Prop where
  mem : off ∈ s.offsets d
  inv : Inv sb (ip :: L) s'
  keeps : Keeps L s s'
  home : s'.home = s.home

namespace Safe

lemma dirlookupLoop {Q : Option (InodeId × ℕ) → FsState → Prop} {name : Name} {offs : List ℕ}
    (i : Inv sb L s) (l : Live s e x) (ht : (s.node x).type = T_DIR)
    (hoffs : ∀ off ∈ offs, off ∈ s.offsets x)
    (hnone : Q none s)
    (hsome : ∀ ip off s', Found sb L s x ip off s' → Q (some (ip, off)) s') :
    Safe sb mode (Fs.dirlookupLoop e ROOTDEV name offs) Q s := by
  induction offs with
  | nil => exact pure hnone
  | cons off offs ih =>
      have ho := hoffs off (by simp)
      rw [Fs.dirlookupLoop]
      refine seq (readi_entry i l ht fun r hr => ?_)
      obtain ⟨r, bytes⟩ := r
      dsimp only at hr ⊢
      by_cases hsize : r = Dirent.SIZE
      · rw [if_neg (not_not.2 hsize), (hr hsize).2]
        have hrest := ih fun off' hoff' => hoffs off' (by simp [hoff'])
        split
        · exact hrest
        split
        · refine seq (iget i (i.dirent_lt (i.inum_lt l) ht ho) fun ip s' i' k' hh _ _ => ?_)
          exact pure (hsome ip off s' ⟨ho, i', k', hh⟩)
        · exact hrest
      · rw [if_pos hsize]
        exact panic i.readAlloc (by decide)

/-- `dirlookup` may return a reference to the inode that it has found. -/
lemma dirlookup {Q : Option (InodeId × ℕ) → FsState → Prop} {name : Name} (i : Inv sb L s)
    (l : Live s e x) (hnone : (s.node x).type = T_DIR → Q none s)
    (hsome : ∀ ip off s', (s.node x).type = T_DIR → Found sb L s x ip off s' →
      Q (some (ip, off)) s') :
    Safe sb mode (Fs.dirlookup e name) Q s := by
  obtain ⟨ino, c⟩ := i.content
  have hnode := i.node_of_live l
  refine seq (getInode ?_)
  rw [c.cached.dev_of_live l, ← hnode]
  by_cases ht : (s.node x).type = T_DIR
  · rw [if_neg (not_not.2 ht)]
    exact dirlookupLoop i l ht (fun _ ho => ho) (hnone ht) fun ip off s' => hsome ip off s' ht
  · rw [if_pos ht]
    exact panic i.readAlloc (by decide)

/-! ## Adding an entry -/

/-- `emptyDirent` finds an entry without an inode, or the end of the directory. -/
lemma emptyDirent {Q : ℕ → FsState → Prop} {last : ℕ} {offs : List ℕ} (i : Inv sb L s)
    (l : Live s e x) (ht : (s.node x).type = T_DIR)
    (hlast : Q last s) (h : ∀ off ∈ offs, Q off s) :
    Safe sb mode (Fs.emptyDirent e last offs) Q s := by
  induction offs with
  | nil => exact pure hlast
  | cons off offs ih =>
      rw [Fs.emptyDirent]
      refine seq (readi_entry i l ht fun r hr => ?_)
      obtain ⟨r, bytes⟩ := r
      dsimp only at hr ⊢
      by_cases hsize : r = Dirent.SIZE
      · rw [if_neg (not_not.2 hsize), (hr hsize).2]
        split
        · exact pure (h off (by simp))
        · exact ih fun off' hoff' => h off' (by simp [hoff'])
      · rw [if_pos hsize]
        exact panic i.readAlloc (by decide)

end Safe

/-- The entry that `dirlink` writes. -/
lemma entryWrite_byte {inum : ℕ} {name : Name} (hinum : inum < sb.ninodes)
    (ho : off % Dirent.SIZE = 0) : EntryWrite sb (Dirent.byte inum name) off Dirent.SIZE := by
  refine ⟨ho, rfl, lt_of_le_of_lt ?_ hinum⟩
  simp only [Dirent.byte, Nat.zero_lt_succ, Nat.one_lt_two, if_true, UInt8.toNat_ofNat']
  omega

/-- The entry that `unlink` writes. -/
lemma entryWrite_zero (hs : sb.Sound) (ho : off % Dirent.SIZE = 0) :
    EntryWrite sb (fun _ => 0) off Dirent.SIZE :=
  ⟨ho, rfl, lt_of_le_of_lt (Nat.zero_le _) hs.root⟩

namespace Safe

/-- `dirlink` adds an entry, or finds that there is one of this name. -/
lemma dirlink {Q : ℤ → FsState → Prop} {name : Name} {inum : ℕ} (i : Inv sb L s) (l : Live s e x)
    (hinum : inum < sb.ninodes)
    (hbad : ∀ s', Inv sb L s' → Keeps L s s' → Q (-1) s')
    (h : ∀ s', Inv sb L s' → Edited s e s' → Keeps L s s' → Q 0 s') :
    Safe sb mode (Fs.dirlink e name inum) Q s := by
  refine seq (dirlookup i l (fun ht => ?_) fun ip off s₁ ht f => ?_)
  · refine seq (getInode ?_)
    rw [← i.node_of_live l]
    -- the entry is written to a free place
    have hput : ∀ off, off % Dirent.SIZE = 0 → Safe sb mode (do
          let r ← Fs.writei e (Dirent.byte inum name) off Dirent.SIZE
          if r ≠ Dirent.SIZE then Sys.panic "dirlink" else Pure.pure 0) Q s := by
      intro off ho
      refine seq (writei_inv i l (fun _ => entryWrite_byte hinum ho) (fun r hr => ?_)
        fun s' i' ed w => ?_)
      · obtain ⟨rfl, -⟩ := hr.resolve_right fun hdev => T_DIR_ne_T_DEV (ht.symm.trans hdev)
        rw [if_pos (by decide)]
        exact panic i.readAlloc (by decide)
      · rw [if_neg (not_not.2 rfl)]
        exact pure (h s' i' ed (w.keeps ed i i' l ht))
    exact seq (emptyDirent i l ht (hput _ (Nat.mul_mod_right _ _)) fun off ho =>
      hput off (mem_direntOffsets.1 ho).1)
  · exact seq (iput f.inv fun s₂ i₂ k₂ => pure (hbad s₂ i₂ (f.keeps.trans k₂)))

end Safe

/-! ## Allocating an inode -/

/-- An inode that is free on disk is given a type; no entry of the cache shows it. -/
lemma Consistent.ialloc {type : Int16} (c : Consistent sb s ino []) (hx : x < sb.ninodes)
    (hfree : (s.node x).type = 0)
    (w : Wrote s (Function.update s.home (IBLOCK x)
      ({ DInode.zero with type := type }.encode (s.home (IBLOCK x)) (Fs.inodeOffset x))) s') :
    Consistent sb s' (Function.update ino x { DInode.zero with type := type }) [] ∧
      s'.node x = { DInode.zero with type := type } ∧ Rest sb s s' x ∧
      ∀ e, 0 < (s'.inode e).ref → (s'.inode e).valid = true → (s'.inode e).inum ≠ x := by
  have hltd := sb.iblock_lt_dataStart hx
  rw [c.node_eq hx] at hfree
  have hvalid : ∀ e, 0 < (s.inode e).ref → (s.inode e).valid = true → (s.inode e).inum ≠ x := by
    intro e href hval heq
    have := (c.cached.valid e href hval).2
    rw [heq, hfree] at this
    exact this rfl
  have hzero : ∀ k, ({ DInode.zero with type := type } : DInode).addr k = 0 := by
    intro k
    simp [DInode.addr, DInode.zero]
  have hnode : ∀ y, s'.node y =
      if y = x then { DInode.zero with type := type } else s.node y := by
    intro y
    rw [FsState.node, w.home, dinodeAt_encode, FsState.node]
  refine ⟨⟨c.mounted.wrote w (Function.update_of_ne (iblock_ne_one x).symm _ _),
    ⟨?_, ?_, ?_, fun e href hval => ?_, fun y hy _ => ?_, by simp⟩, ?_⟩, ?_,
    fun y hy hne => ⟨?_, fun ht k hk => ?_⟩, ?_⟩
  · rw [w.inode]
    exact c.cached.dev
  · rw [w.inode]
    exact c.cached.inum
  · rw [w.inode]
    exact c.cached.uniq
  · rw [w.inode] at href hval ⊢
    rw [Function.update_of_ne (hvalid e href hval)]
    exact c.cached.valid e href hval
  · rw [← FsState.node, hnode y]
    by_cases hyx : y = x
    · rw [if_pos hyx, hyx, Function.update_self]
    · rw [if_neg hyx, Function.update_of_ne hyx, c.node_eq hy]
  · rw [w.home]
    refine Good.inodeBlock (c.good.setIno (fun k => ?_) (fun _ _ bn hbn => ?_)
      fun _ _ o _ hlt => ?_) c.mounted.sound hx
    · simp [own, slotOf, hzero, hfree]
    · exact absurd hbn (by simp [DInode.zero])
    · exact absurd hlt (by simp [DInode.zero])
  · rw [hnode, if_pos rfl]
  · rw [hnode, if_neg hne]
  · rw [c.node_eq hy] at ht hk ⊢
    have := (c.good.owns.held _ _ (own_slotOf hy ht hk)).1.1
    rw [w.home, Function.update_of_ne (by omega)]
  · rw [w.inode]
    exact hvalid

namespace Safe

/-- The monitor does not object to an inode that no entry shows. -/
lemma iallocDone {Q : Unit → FsState → Prop} (hw : Watched (.iallocDone x) s)
    (h : ∀ o : Observed, o.reading = s.seen.reading → o.readAlloc = s.seen.readAlloc →
      Q () (s.setSeen o)) : Safe sb mode (Sys.act (.iallocDone x)) Q s := by
  have hexec : guarded sb mode (.iallocDone x) s =
      .ok () (s.setSeen { s.seen with iallocs := s.seen.iallocs ++ [x] }) := if_pos hw
  exact act hexec (h _ rfl rfl)

lemma iallocLoop {Q : InodeId → FsState → Prop} {type : Int16} {xs : List ℕ} (i : Inv sb L s)
    (hxs : ∀ x ∈ xs, x < sb.ninodes)
    (h : ∀ ip s', Inv sb (ip :: L) s' → Keeps L s s' → (s'.inode ip).valid = false →
      (s'.node (s'.inode ip).inum).type = type → Q ip s') :
    Safe sb mode (Fs.iallocLoop ROOTDEV type xs) Q s := by
  obtain ⟨ino, c⟩ := i.content
  induction xs with
  | nil => exact panic i.readAlloc (by decide)
  | cons x xs ih =>
      have hx := hxs x (by simp)
      have hblk := sb.iblock_lt_dataStart hx
      rw [Fs.iallocLoop]
      refine seq (bread i.readAlloc fun _ => seq (data ?_))
      rw [setHeld_blk, c.mounted.home_eq hblk]
      by_cases hfree : (s.node x).type = 0
      · rw [FsState.node, dinodeAt] at hfree
        rw [if_pos hfree]
        refine seq (setData (seq ?_))
        refine logWrite (c.mounted.setHeld _).journal i.readAlloc (c.mounted.lt_start hblk)
          fun s₁ w => ?_
        refine seq (brelse w.mem_held ?_)
        have w := w.release
        generalize s₁.setHeld (s₁.held.erase (IBLOCK x)) = s₂ at w ⊢
        obtain ⟨c₂, hnode, hrest, hinvalid⟩ := c.ialloc hx hfree w
        refine seq (iallocDone ⟨i.pinned.wrote w, hinvalid⟩ fun o hread halloc => ?_)
        have i₂ := (i.wrote w ⟨_, c₂⟩).setSeen hread halloc
        have hh₂ : (s₂.setSeen o).home = s₂.home := rfl
        have k₂ : Keeps L s (s₂.setSeen o) := by
          refine ⟨w.file, w.proc, fun e he => ?_⟩
          have hlt := c.cached.inum e (i.ref_pos he)
          have hshown : Shown s (s₂.setSeen o) e := .of_eq (congrFun w.inode e)
          by_cases hne : (s.inode e).inum = x
          · refine ⟨hshown, fun ht => absurd (hne ▸ hfree) ht, fun hv _ => ?_⟩
            have hno := hinvalid e
            rw [w.inode] at hno
            exact absurd hne (hno (i.ref_pos he) hv)
          · exact hshown.kept_of_same ((hrest _ hlt hne).of_home_eq hh₂)
        refine iget i₂ hx fun ip s₃ i₃ k₃ hhome hinum hval => ?_
        refine h ip s₃ i₃ (k₂.trans k₃) (hval fun e' href heq => ?_) ?_
        · exact Bool.eq_false_iff.2 fun hv => hinvalid e' href hv heq
        · rw [hinum, FsState.node, hhome]
          exact congrArg DInode.type hnode
      · rw [FsState.node, dinodeAt] at hfree
        rw [if_neg hfree]
        refine seq (brelse (by simp) ?_)
        simpa using ih fun x hx => hxs x (by simp [hx])

/-- `ialloc` returns a reference to an inode that has been given its type on disk. -/
lemma ialloc {Q : InodeId → FsState → Prop} {type : Int16} (i : Inv sb L s)
    (h : ∀ ip s', Inv sb (ip :: L) s' → Keeps L s s' → (s'.inode ip).valid = false →
      (s'.node (s'.inode ip).inum).type = type → Q ip s') :
    Safe sb mode (Fs.ialloc ROOTDEV type) Q s := by
  obtain ⟨ino, c⟩ := i.content
  refine seq (readsb c.mounted (iallocLoop i (fun x hx => ?_) h))
  obtain ⟨k, hk, rfl⟩ := List.mem_iff_getElem.1 hx
  simp only [List.length_drop, List.length_range] at hk
  simp only [List.getElem_drop, List.getElem_range]
  omega

end Safe

/-! ## Paths -/

lemma FsState.node_congr (hh : s'.home = s.home) (x : ℕ) : s'.node x = s.node x := by
  rw [FsState.node, hh, FsState.node]

/-- The result of a lookup: a reference to `ip`, to a directory if it is the parent that was
asked for. -/
structure Reached (sb : Superblock) (L : List InodeId) (parent : Bool) (s : FsState)
    (ip : InodeId) (s' : FsState) : Prop where
  inv : Inv sb (ip :: L) s'
  keeps : Keeps L s s'
  dir : parent = true → (s'.inode ip).valid = true ∧ (s'.inode ip).type = T_DIR

namespace Safe

variable {Q : Option (InodeId × Name) → FsState → Prop} {parent : Bool} {p : ProcId}
  {path name : Name}

lemma namexEnd (i : Inv sb (e :: L) s) (hnone : ∀ s', Inv sb L s' → Keeps L s s' → Q none s')
    (hsome : ∀ ip name s', Reached sb L parent s ip s' → Q (some (ip, name)) s') :
    Safe sb mode (Fs.namexEnd parent e name) Q s := by
  rw [Fs.namexEnd]
  split
  · exact seq (iput i fun s' i' k' => pure (hnone s' i' k'))
  · rename_i hparent
    exact pure (hsome e name s ⟨i, .refl L s, fun h => absurd h hparent⟩)

lemma namexLoop {fuel : ℕ} (i : Inv sb (e :: L) s)
    (hnone : ∀ s', Inv sb L s' → Keeps L s s' → Q none s')
    (hsome : ∀ ip name s', Reached sb L parent s ip s' → Q (some (ip, name)) s') :
    Safe sb mode (Fs.namexLoop parent fuel e path name) Q s := by
  induction fuel generalizing e s path name with
  | zero => exact namexEnd i hnone hsome
  | succ fuel ih =>
      rw [Fs.namexLoop]
      split
      · exact namexEnd i hnone hsome
      · rename_i rest elem _
        refine seq (ilock i fun s₁ i₁ k₁ _ l₁ _ => seq (getInode ?_))
        have k₁L : Keeps L s s₁ := k₁.mono (by simp)
        have hback : Safe sb mode (do Fs.iunlockput e; Pure.pure none) Q s₁ :=
          seq (iunlockput i₁ fun s₂ i₂ k₂ => pure (hnone s₂ i₂ (k₁L.trans k₂)))
        split
        · exact hback
        rename_i hdir
        split
        · refine seq (iunlock_inv i₁ fun s₂ i₂ hs₂ => pure (hsome e elem s₂ ⟨i₂, ?_, fun _ => ?_⟩))
          · rw [hs₂]
            exact k₁L.trans .setBusy
          · rw [hs₂, setInode_inode_self]
            exact ⟨l₁.valid, not_not.1 hdir⟩
        · refine seq (dirlookup i₁ l₁ (fun _ => hback) fun next off s₂ _ f => ?_)
          refine seq (iunlockput (f.inv.perm (List.Perm.swap e next L)) fun s₃ i₃ k₃ => ?_)
          have k : Keeps L s s₃ := (k₁L.trans (f.keeps.mono (by simp))).trans (k₃.mono (by simp))
          exact ih i₃ (fun s' i' k' => hnone s' i' (k.trans k')) fun ip name s' r =>
            hsome ip name s' ⟨r.inv, k.trans r.keeps, r.dir⟩

/-- `namex` may return a reference to the inode that it has found. -/
lemma namex (i : Inv sb L s) (hnone : ∀ s', Inv sb L s' → Keeps L s s' → Q none s')
    (hsome : ∀ ip name s', Reached sb L parent s ip s' → Q (some (ip, name)) s') :
    Safe sb mode (Fs.namex p path parent) Q s := by
  obtain ⟨ino, c⟩ := i.content
  -- in both cases the lookup starts with a new reference
  have hstart : ∀ e s₁, Inv sb (e :: L) s₁ → Keeps L s s₁ →
      Safe sb mode (Fs.namexLoop parent path.length e path []) Q s₁ := fun e s₁ i₁ k₁ =>
    namexLoop i₁ (fun s' i' k' => hnone s' i' (k₁.trans k')) fun ip name s' r =>
      hsome ip name s' ⟨r.inv, k₁.trans r.keeps, r.dir⟩
  rw [Fs.namex]
  split
  · exact seq (iget i c.mounted.sound.root fun e s₁ i₁ k₁ _ _ _ => hstart e s₁ i₁ k₁)
  · refine seq (act (a := .getCwd p) rfl ?_)
    cases hcwd : (s.proc p).cwd with
    | none => exact panic i.readAlloc (by decide)
    | some e =>
        exact seq (idup i (.inr (.inr ⟨p, hcwd⟩)) (hstart e))

lemma namei {Q : Option InodeId → FsState → Prop} (i : Inv sb L s)
    (hnone : ∀ s', Inv sb L s' → Keeps L s s' → Q none s')
    (hsome : ∀ ip s', Reached sb L false s ip s' → Q (some ip) s') :
    Safe sb mode (Fs.namei p path) Q s :=
  seq (namex i (fun s' i' k' => pure (hnone s' i' k')) fun ip _ s' r => pure (hsome ip s' r))

lemma nameiparent (i : Inv sb L s) (hnone : ∀ s', Inv sb L s' → Keeps L s s' → Q none s')
    (hsome : ∀ ip name s', Reached sb L true s ip s' → Q (some (ip, name)) s') :
    Safe sb mode (Fs.nameiparent p path) Q s := namex i hnone hsome

end Safe

end Xv6
