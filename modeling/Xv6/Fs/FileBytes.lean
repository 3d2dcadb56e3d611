import Xv6.Fs.WholeWrite

/-!
# Files as arrays of bytes

What `writei` and `readi` do to an inode that is not a device, as operations on the list of its
bytes.  They need nothing but that blocks have one owner each: what a directory contains does not
matter to them, and they do not check what they write to it.  `writei` logs all blocks that it
writes in one transaction, and so it panics when a long write meets the end of the log.
-/

namespace Xv6

open Lib FsState

variable {sb : Superblock} {s s' : FsState} {e : InodeId} {x y off n : ℕ} {src : ℕ → UInt8}

/-- Every block has one owner, whatever directories contain; the inode cache shows the inodes on
disk, and the entries that files refer to are valid; and no `readi` is going on. -/
structure BlocksOwned (sb : Superblock) (s : FsState) : Prop where
  content : ∃ ino, Consistent sb s ino [] fun _ => False
  pinned : Pinned s
  reading : s.seen.reading = false

/-- `writei` does not refuse to write. -/
def WriteFits (off size n : ℕ) : Prop := off ≤ size ∧ off + n < 2 ^ 32 ∧ off + n ≤ MAXFILE * BSIZE

instance (off size n : ℕ) : Decidable (WriteFits off size n) := by
  unfold WriteFits
  infer_instance

/-- Inode `y` has stayed what it was, with its bytes. -/
structure SameBytes (s s' : FsState) (y : ℕ) : Prop where
  node : s'.node y = s.node y
  contents : (s.node y).type ≠ 0 → (s.node y).type ≠ T_DEV → s'.contents y = s.contents y

/-- From `s` to `s'` the bytes `src 0, src 1, …` have been written to inode `x`, which is entry `e`
of the inode cache, at offset `off`. -/
structure BytesWritten (sb : Superblock) (s s' : FsState) (e : InodeId) (x off n : ℕ)
    (src : ℕ → UInt8) :
    Prop where
  owned : BlocksOwned sb s'
  edited : Edited s e s'
  held : s'.held = s.held
  contents : s'.contents x = overwrite (s.contents x) off ((List.range n).map src)
  size : (s'.node x).size.toNat = max (s.node x).size.toNat (off + n)
  fields : { s'.node x with addrs := (s.node x).addrs, size := (s.node x).size } = s.node x
  others : ∀ y < sb.ninodes, y ≠ x → SameBytes s s' y

/-- The bytes after a write. -/
lemma contents_of_overwritten (hsize : (s'.node x).size.toNat = max (s.node x).size.toNat (off + n))
    (hoff : off ≤ (s.node x).size.toNat)
    (ow : Overwritten s s.node x s' s'.node (s.node x).size.toNat off n src) :
    s'.contents x = overwrite (s.contents x) off ((List.range n).map src) := by
  rw [FsState.contents, FsState.contents, fileBytes, fileBytes, overwrite_map_range fun _ => hoff,
    hsize]
  have hlen : (if n = 0 then (s.node x).size.toNat else max (s.node x).size.toNat (off + n)) =
      max (s.node x).size.toNat (off + n) := by
    split <;> omega
  rw [hlen]
  refine List.map_congr_left fun i hi => ?_
  rw [List.mem_range] at hi
  rw [Nat.zero_add]
  refine ow.byte i ?_
  omega

/-- In a transaction and with no busy buffers: if the kernel has what `writei` asks for, it writes
bytes that fit. -/
lemma writei_bytes (hown : BlocksOwned sb s) (l : Live s e x) (rd : Ready sb s) (hs : s.held = [])
    (ht : (s.inode e).type ≠ T_DEV) (hfit : WriteFits off (s.node x).size.toNat n)
    (hm : (Fs.writei e src off n).Meets Act.exec (Ample sb) s) :
    ∃ s', (Fs.writei e src off n).run Act.exec s = .ok n s' ∧
    BytesWritten sb s s' e x off n src := by
  obtain ⟨ino, c⟩ := hown.content
  have hx := c.cached.lt_of_live l
  have hnode : s.node x = ino x := c.node_eq hx
  have hdev : (ino x).type ≠ T_DEV := by rwa [← c.cached.eq_of_live l]
  have hsafe : Safe sb .roomy (Fs.writei e src off n)
    (fun r s' => r = n ∧ BytesWritten sb s s' e x off n src) s := by
    refine Safe.writei c l hown.pinned hown.reading (fun hd => hd.1.elim) (fun r hr => ?_)
      fun s' ino' _ c' ed hheld o hfields hsize hoff ow => ?_
    · have hbad := (hr.resolve_right hdev).2
      rw [WriteFits, hnode] at hfit
      omega
    · have hnode' := c'.node_eq hx
      refine ⟨rfl, ⟨⟨ino', c'⟩, ed.pinned hown.pinned, ed.reading.trans hown.reading⟩, ed, hheld,
        contents_of_overwritten ?_ ?_ ⟨fun k hk => ?_, fun i hi => ?_⟩, ?_, ?_, fun y hy hne => ?_⟩
      · rw [hnode, hnode', hsize]
      · rwa [hnode]
      · rw [hnode] at hk ⊢
        rw [hnode']
        exact ow.slot k hk
      · rw [hnode] at hi ⊢
        rw [hnode']
        exact ow.byte i hi
      · rw [hnode, hnode', hsize]
      · rw [hnode, hnode', hfields]
      · have hsame := o.same c c' hy hne
        refine ⟨hsame.node, fun ht0 htd => hsame.file.contents ht0 ?_⟩
        rw [c.node_eq hy] at ht0 htd ⊢
        exact c.good.filled y hy ht0 htd
  obtain ⟨r, s', hy, rfl, w⟩ :=
    (Completes.writei c l hown.pinned rd hs hown.reading hdev fun hd => hd.1.elim).yields hsafe hm
  exact ⟨s', hy, w⟩

/-- `writei` refuses to write bytes that do not fit. -/
lemma writei_refuses (hown : BlocksOwned sb s) (l : Live s e x) (ht : (s.inode e).type ≠ T_DEV)
    (hfit : ¬ WriteFits off (s.node x).size.toNat n) :
    (Fs.writei e src off n).run Act.exec s = .ok (-1) s := by
  obtain ⟨ino, c⟩ := hown.content
  have hM := MAXFILE_mul_BSIZE
  rw [c.node_of_live l, WriteFits] at hfit
  refine Yields.seq .getInode ?_
  rw [if_neg ht]
  split
  · exact .pure
  · rw [if_pos (by omega)]
    exact .pure

/-- `readi` returns the bytes that the file has in the range, and changes nothing. -/
lemma readi_bytes (hown : BlocksOwned sb s) (l : Live s e x) (hdisk : sb.size ≤ s.disksize)
    (hs : s.held = []) (ht : (s.inode e).type ≠ T_DEV)
    (hm : (Fs.readi e off n).Meets Act.exec (Ample sb) s) :
    (Fs.readi e off n).run Act.exec s = .ok (readBytes (s.contents x) off n) s := by
  obtain ⟨ino, c⟩ := hown.content
  have hnode : s.node x = ino x := c.node_eq (c.cached.lt_of_live l)
  have hdev : (ino x).type ≠ T_DEV := by rwa [← c.cached.eq_of_live l]
  have hsafe : Safe sb .roomy (Fs.readi e off n) (fun r s' => r = readBytes (s.contents x) off n ∧
    s' = s) s := by
    refine Safe.readi c l hown.reading fun r o hr => ?_
    obtain ⟨rfl, rfl⟩ := hr hdev
    exact ⟨by rw [← readResult_eq_readBytes, hnode], rfl⟩
  obtain ⟨r, s', hy, rfl, rfl⟩ := (Completes.readi c l hdisk hs hdev).yields hsafe hm
  exact hy

/-- For an inode that is not a device, when every block has one owner and no buffer is busy, for all
offsets and lengths: if the range is not in order, `writei` returns -1 and changes nothing.
Otherwise, in a transaction, it returns `n`, the bytes in the range are replaced, the size is what
it was or the end of the range, and nothing else changes in this inode or in another.  `readi` of a
range that starts in the file returns the bytes that the file has there and changes nothing.  The
last two hold if the kernel has what is asked of it. -/
theorem writei_readi_bytes (hown : BlocksOwned sb s) (l : Live s e x) (hs : s.held = [])
    (ht : (s.inode e).type ≠ T_DEV) :
    (∀ src (off n : UInt32), ¬ WriteFits off.toNat (s.node x).size.toNat n.toNat →
      (Fs.writei e src off.toNat n.toNat).run Act.exec s = .ok (-1) s) ∧
    (∀ src (off n : UInt32), WriteFits off.toNat (s.node x).size.toNat n.toNat → Ready sb s →
      (Fs.writei e src off.toNat n.toNat).Meets Act.exec (Ample sb) s →
      ∃ s', (Fs.writei e src off.toNat n.toNat).run Act.exec s = .ok n.toNat s' ∧
        BytesWritten sb s s' e x off.toNat n.toNat src) ∧
    ∀ off n : UInt32, off.toNat ≤ (s.node x).size.toNat → off.toNat + n.toNat < 2 ^ 32 →
      sb.size ≤ s.disksize → (Fs.readi e off.toNat n.toNat).Meets Act.exec (Ample sb) s →
      ∃ bytes, (Fs.readi e off.toNat n.toNat).run Act.exec s = .ok (bytes.length, bytes) s ∧
        bytes = ((s.contents x).drop off.toNat).take n.toNat := by
  refine ⟨fun src off n hfit => writei_refuses hown l ht hfit,
    fun src off n hfit rd hm => writei_bytes hown l rd hs ht hfit hm,
    fun off n hoff hwrap hdisk hm => ⟨_, ?_, rfl⟩⟩
  rw [readi_bytes hown l hdisk hs ht hm, readBytes, if_neg]
  rw [length_contents]
  omega

lemma Inv.blocksOwned {L : List InodeId} (i : Inv sb L s) : BlocksOwned sb s := by
  obtain ⟨ino, c⟩ := i.content
  exact ⟨⟨ino, c.mounted, c.cached, c.good.owns, c.good.home, c.good.pendHome,
    c.good.reserved, c.good.filled,
    fun _ _ hD => hD.elim⟩, i.pinned, i.reading⟩

/-- The state when a transaction has begun. -/
def FsState.begun (s : FsState) : FsState := { s with log := { s.log with busy := true } }

/-- `begin_trans` when no transaction is active. -/
lemma Yields.beginTrans {L : List InodeId} (i : Inv sb L s) (hlog : s.log.busy = false)
    (d : OnDisk sb s) :
    Yields Fs.beginTrans s () s.begun ∧ BlocksOwned sb s.begun ∧ Ready sb s.begun := by
  have hy : Yields Fs.beginTrans s () s.begun :=
    act (x := .beginTrans) (by simp [Act.exec, hlog, FsState.begun])
  have hi : Inv sb L _ := hy.post (Safe.beginTrans_inv (Q := fun _ s₁ => Inv sb L s₁) i
    fun _ i₁ _ => i₁) ⟨trivial, fun _ _ _ => trivial⟩
  exact ⟨hy, hi.blocksOwned, rfl, d.disk, d.log, d.pos⟩

/-- A new file is opened, two bytes are written to it, and the file is read at its end. -/
theorem writei_readi_bytes_small : ∃ es s s₁, Fs.RoomyRun (Fs.smallSb 20) (Fs.small 20) es s ∧
    Fs.beginTrans.run Act.exec s = .ok () s₁ ∧
    (∃ s', (Fs.writei secondEntry (fun _ => 120) 0 2).run Act.exec s₁ = .ok 2 s' ∧
      BytesWritten (Fs.smallSb 20) s₁ s' secondEntry 2 0 2 fun _ => 120) ∧
    ∃ bytes, (Fs.readi secondEntry 0 7).run Act.exec s₁ = .ok (bytes.length, bytes) s₁ ∧
      bytes = ((s₁.contents 2).drop 0).take 7 := by
  obtain ⟨es, s, h, u, d, hval, hinum, href, ht, hsize, hw, hr⟩ : ∃ es s,
      Fs.RoomyRun (Fs.smallSb 20) (Fs.small 20) es s ∧ s.Unlocked secondEntry ∧
      OnDisk (Fs.smallSb 20) s ∧
      (s.inode secondEntry).valid = true ∧ (s.inode secondEntry).inum = 2 ∧ 0 <
      (s.inode secondEntry).ref ∧
      (s.inode secondEntry).type ≠ T_DEV ∧ (s.node 2).size = 0 ∧
      (Fs.writei secondEntry (fun _ => 120) 0 2).Meets Act.exec (Ample (Fs.smallSb 20)) s.begun ∧
      (Fs.readi secondEntry 0 7).Meets Act.exec (Ample (Fs.smallSb 20)) s.begun :=
    Run.exists_of_exec _ [Fs.Event.call Fs.initproc (.open (some [97]) 0x202)] (by decide +kernel)
  obtain ⟨hy, hown, rd⟩ := Yields.beginTrans (Roomy.of_run (small_wellFormed (by decide))
    h).sound.inv u.log d
  have hnode : s.begun.node 2 = s.node 2 := rfl
  have hall := writei_readi_bytes hown (e := secondEntry) (x := 2) ⟨href, hval, hinum⟩ u.held ht
  exact ⟨es, s, _, h, hy, hall.2.1 (fun _ => 120) 0 2 (by rw [hnode, hsize]; decide) rd hw,
    hall.2.2 0 7 (by simp) (by decide) rd.disk hr⟩

/-- A write of 10 blocks to a file that has all its blocks does not fit into the transaction. -/
theorem writei_too_big : WellFormed Fs.fullSb Fs.fullBlk ∧ ∃ es s s₁,
    Fs.RoomyRun Fs.fullSb Fs.full es s ∧
    Fs.beginTrans.run Act.exec s = .ok () s₁ ∧ BlocksOwned Fs.fullSb s₁ ∧ Ready Fs.fullSb s₁ ∧
    Live s₁ secondEntry 2 ∧ s₁.held = [] ∧ (s₁.inode secondEntry).type = T_FILE ∧
    WriteFits 0 (s₁.node 2).size.toNat 5120 ∧
    (Fs.writei secondEntry (fun _ => 120) 0 5120).Meets Act.exec (RoomAt Fs.fullSb) s₁ ∧
    ∃ t, (Fs.writei secondEntry (fun _ => 120) 0 5120).run Act.exec s₁ =
      .error (.panic "too big a transaction") t := by
  obtain ⟨es, s, h, u, d, hval, hinum, href, ht, hsize, hroom, hw⟩ : ∃ es s,
    Fs.RoomyRun Fs.fullSb Fs.full es s ∧
      s.Unlocked secondEntry ∧ OnDisk Fs.fullSb s ∧ (s.inode secondEntry).valid = true ∧
      (s.inode secondEntry).inum = 2 ∧ 0 < (s.inode secondEntry).ref ∧
      (s.inode secondEntry).type = T_FILE ∧
      (s.node 2).size = 71680 ∧
      (Fs.writei secondEntry (fun _ => 120) 0 5120).Meets Act.exec (RoomAt Fs.fullSb) s.begun ∧
      Wp ((Fs.writei secondEntry (fun _ => 120) 0 5120).run Act.exec) (fun _ _ => False)
        (fun r _ => r = .panic "too big a transaction") s.begun :=
    Run.exists_of_exec _ [Fs.Event.call Fs.initproc (.open (some [97]) 2)] (by decide +kernel)
  obtain ⟨hy, hown, rd⟩ := Yields.beginTrans (Roomy.of_run full_wellFormed h).sound.inv u.log d
  have hnode : s.begun.node 2 = s.node 2 := rfl
  obtain ⟨_, t, hstop, rfl⟩ := hw.stops
  exact ⟨full_wellFormed, es, s, _, h, hy, hown, rd, ⟨href, hval, hinum⟩, u.held, ht,
    by rw [hnode, hsize]; decide, hroom, t, hstop⟩

end Xv6
