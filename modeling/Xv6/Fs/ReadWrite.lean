import Xv6.Fs.Content

/-!
# Reading and writing inodes

Rules for `readi` and `writei`.  Reading changes nothing but the input of the console that is
left: a file has no holes, so `bmap` finds every block that `readi` asks for.  Writing goes on
from a file filled up to some limit to one filled up to the end of what is written.
-/

namespace Xv6

open Lib FsState

variable {mode : Mode} {sb : Superblock} {s s' : FsState} {ino ino' : ℕ → DInode} {unsaved : List ℕ}
  {h : ℕ → Block} {e : InodeId} {x off n lim : ℕ} {v : DInode} {D : ℕ → Prop}

/-! ## Bytes of a file -/

lemma mod_bsize_lt (o : ℕ) : o % BSIZE < BSIZE := Nat.mod_lt o (by decide)

/-- Offsets in the same block. -/
lemma add_div_bsize {i : ℕ} (hi : off % BSIZE + i < BSIZE) :
    (off + i) / BSIZE = off / BSIZE ∧ (off + i) % BSIZE = off % BSIZE + i := by
  simp only [BSIZE] at hi ⊢
  omega

/-- An entry of a directory does not cross the end of a block. -/
lemma dirent_mod_bsize (ho : off % Dirent.SIZE = 0) : off % BSIZE + Dirent.SIZE ≤ BSIZE := by
  simp only [Dirent.SIZE, BSIZE] at ho ⊢
  omega

/-- Byte `o` of the file with inode `v`. -/
def fileByte (h : ℕ → Block) (v : DInode) (o : ℕ) : UInt8 :=
  (h (slotOf h v (fileSlot (o / BSIZE)))).byteAt (o % BSIZE)

/-- The `n` bytes from offset `off` on. -/
def fileBytes (h : ℕ → Block) (v : DInode) (off n : ℕ) : List UInt8 :=
  (List.range n).map fun i => fileByte h v (off + i)

lemma fileBytes_add (m : ℕ) :
    fileBytes h v off (m + n) = fileBytes h v off m ++ fileBytes h v (off + m) n := by
  simp [fileBytes, List.range_add, Function.comp_def, Nat.add_assoc]

/-- Bytes within one block. -/
lemma fileBytes_eq_slice (hn : off % BSIZE + n ≤ BSIZE) :
    fileBytes h v off n = (h (slotOf h v (fileSlot (off / BSIZE)))).slice (off % BSIZE) n := by
  refine List.map_congr_left fun i hi => ?_
  have hi' : off % BSIZE + i < BSIZE := by
    have := List.mem_range.1 hi
    omega
  obtain ⟨hdiv, hmod⟩ := add_div_bsize hi'
  rw [fileByte, hdiv, hmod]

/-- The number in an entry of a directory. -/
lemma decode_fileBytes_inum (ho : off % Dirent.SIZE = 0) :
    (Dirent.decode (fileBytes h v off Dirent.SIZE)).inum =
      (h (slotOf h v (fileSlot (off / BSIZE)))).get16 (off % BSIZE) := by
  rw [fileBytes_eq_slice (dirent_mod_bsize ho)]
  rfl

/-- A block that a file has is one of the first `MAXFILE`. -/
lemma lt_maxfile_of_slot {bn : ℕ} (hk : slotOf h v (fileSlot bn) ≠ 0) : bn < MAXFILE := by
  by_contra hge
  refine hk (slotOf_of_ge ?_)
  have hN := NSLOT_eq
  have hD := NDIRECT_eq
  have hM := MAXFILE_eq
  rw [fileSlot, if_neg (by omega)]
  omega

/-- What `readi` returns for a file that is not a device. -/
def readResult (h : ℕ → Block) (v : DInode) (off n : ℕ) : ℤ × List UInt8 :=
  if v.size.toNat < off ∨ (off + n) % 2 ^ 32 < off then (-1, [])
  else
    let n := if v.size.toNat < off + n then v.size.toNat - off else n
    (n, fileBytes h v off n)

/-- If it is as much as was asked for, that is what the file has. -/
lemma readResult_of_fst (hr : (readResult h v off n).1 = n) :
    off + n ≤ v.size.toNat ∧ readResult h v off n = ((n : ℤ), fileBytes h v off n) := by
  rw [readResult] at hr ⊢
  by_cases hoff : v.size.toNat < off ∨ (off + n) % 2 ^ 32 < off
  · rw [if_pos hoff] at hr
    exact absurd hr (by omega)
  · rw [if_neg hoff] at hr ⊢
    have hle : ¬ v.size.toNat < off + n := by
      intro hlt
      rw [not_or, Nat.not_lt] at hoff
      simp only [if_pos hlt] at hr
      omega
    exact ⟨not_lt.1 hle, by rw [if_neg hle]⟩

/-! ## Reading -/

/-- Replace what the rest of the machine will answer. -/
def FsState.setOutside (s : FsState) (o : Outside) : FsState := { s with outside := o }

/-- Replace what the observer has noted. -/
def FsState.setSeen (s : FsState) (o : Observed) : FsState := { s with seen := o }

lemma Consistent.setOutside (c : Consistent sb s ino unsaved D) (o : Outside) :
    Consistent sb (s.setOutside o) ino unsaved D :=
  ⟨⟨c.mounted.sound, c.mounted.superblock, c.mounted.start, c.mounted.journal,
    c.mounted.readAlloc⟩, ⟨c.cached.dev, c.cached.inum, c.cached.uniq, c.cached.valid,
    c.cached.disk, c.cached.cached⟩, c.good⟩

lemma Consistent.setSeen (c : Consistent sb s ino unsaved D) {o : Observed}
    (ho : o.readAlloc = s.seen.readAlloc) : Consistent sb (s.setSeen o) ino unsaved D :=
  ⟨⟨c.mounted.sound, c.mounted.superblock, c.mounted.start, c.mounted.journal,
    ho.trans c.mounted.readAlloc⟩, ⟨c.cached.dev, c.cached.inum, c.cached.uniq, c.cached.valid,
    c.cached.disk, c.cached.cached⟩, c.good⟩

namespace Safe

/-- The loop of `readi` below the limit up to which a file is filled. -/
lemma readiLoop {Q : List UInt8 → FsState → Prop} (c : Consistent sb s ino unsaved D)
    (l : Live s e x) (hf : Filled s.home (ino x) lim) {fuel : ℕ} (hfuel : n ≤ fuel)
    (hlim : off + n ≤ lim) (h : Q (fileBytes s.home (ino x) off n) s) :
    Safe sb mode (Fs.readiLoop e ROOTDEV fuel off n) Q s := by
  induction fuel generalizing off n Q with
  | zero =>
      obtain rfl : n = 0 := by omega
      exact pure h
  | succ fuel ih =>
      rw [Fs.readiLoop]
      by_cases hn : n = 0
      · subst hn
        rw [if_pos rfl]
        exact pure h
      · rw [if_neg hn]
        have hslot : slotOf s.home (ino x) (fileSlot (off / BSIZE)) ≠ 0 :=
          hf _ ((Nat.div_mul_le_self off BSIZE).trans_lt (by omega))
        have hblk := (c.blk_slot l hslot).2
        refine seq (bmap_hit c l (lt_maxfile_of_slot hslot) hslot ?_)
        refine seq (bread c.mounted.readAlloc fun _ => seq (data (seq (brelse (by simp) ?_))))
        rw [setHeld_blk, hblk, setHeld_held, List.erase_cons_head, setHeld_setHeld, setHeld_self]
        have hmod := mod_bsize_lt off
        generalize hm : min n (BSIZE - off % BSIZE) = m
        refine seq (ih (by omega) (by omega) (pure ?_))
        rwa [← fileBytes_eq_slice (by omega), ← fileBytes_add, Nat.add_sub_cancel' (by omega)]

/-- `iunlock` lets go of an inode that is busy. -/
lemma iunlock {Q : Unit → FsState → Prop} (hr : s.seen.readAlloc = false)
    (h : (s.inode e).busy = true → Q () (s.setInode e { s.inode e with busy := false })) :
    Safe sb mode (Fs.iunlock e) Q s := by
  by_cases hbad : (s.inode e).busy = false ∨ (s.inode e).ref < 1
  · exact act_panic (a := .iunlock e) "iunlock" (by simp [guarded, Act.exec, hbad]) hr (by decide)
  · have hexec : guarded sb mode (.iunlock e) s =
        .ok () (s.setInode e { s.inode e with busy := false }) := by
      simp [guarded, Act.exec, hbad]
    exact act hexec (h (by simpa using fun hb => hbad (Or.inl hb)))

/-- `ilock` of an inode that is valid makes it busy. -/
lemma ilock_valid {Q : Unit → FsState → Prop} (hr : s.seen.readAlloc = false)
    (hv : (s.inode e).valid = true)
    (h : (s.inode e).busy = false → Q () (s.setInode e { s.inode e with busy := true })) :
    Safe sb mode (Fs.ilock e) Q s := by
  refine seq ?_
  by_cases href : (s.inode e).ref < 1
  · exact act_panic (a := .ilock e) "ilock" (by simp [guarded, Act.exec, href]) hr (by decide)
  by_cases hbusy : (s.inode e).busy = true
  · exact act_sleep (a := .ilock e) (by simp [guarded, Act.exec, href, hbusy]) hr
  · have hexec : guarded sb mode (.ilock e) s =
      .ok () (s.setInode e { s.inode e with busy := true }) := by
      simp [guarded, Act.exec, href, hbusy]
    refine act hexec (seq (getInode ?_))
    rw [setInode_inode_self, if_neg (by simp [hv])]
    exact pure (h (by simpa using hbusy))

/-- `consoleread` gives up the lock and takes it again. -/
lemma consoleread {Q : ℤ × List UInt8 → FsState → Prop} (hr : s.seen.readAlloc = false)
    (hv : (s.inode e).valid = true) (h : ∀ r bytes o, Q (r, bytes) (s.setOutside o)) :
    Safe sb mode (Fs.consoleread e n) Q s := by
  refine seq (iunlock hr fun hbusy => seq (act (a := .console) rfl (seq (ilock_valid hr ?_ ?_))))
  · simpa using hv
  · intro _
    have hback : ∀ o : Outside,
        ((s.setInode e { s.inode e with busy := false }).setOutside o).setInode e
          { ((s.setInode e { s.inode e with busy := false }).setOutside o).inode e with
            busy := true } = s.setOutside o := by
      intro o
      have hsame : ({ s.inode e with busy := true } : Inode) = s.inode e := by rw [← hbusy]
      simp [FsState.setInode, FsState.setOutside, hsame]
    refine (hback _).symm ▸ ?_
    split
    · exact pure (h _ _ _)
    · exact pure (h _ _ _)

/-- The body of `readi`: it reads what the file has. -/
lemma readiBody {Q : ℤ × List UInt8 → FsState → Prop} (c : Consistent sb s ino unsaved D)
    (l : Live s e x)
    (h : ∀ r o, ((ino x).type ≠ T_DEV → r = readResult s.home (ino x) off n ∧ o = s.outside) →
      Q r (s.setOutside o)) : Safe sb mode (Fs.readiBody e off n) Q s := by
  have hx := c.cached.lt_of_live l
  refine seq (getInode ?_)
  rw [c.cached.eq_of_live l, c.cached.dev_of_live l]
  by_cases hdev : (ino x).type = T_DEV
  · rw [if_pos hdev]
    split
    · exact consoleread c.mounted.readAlloc l.valid fun r bytes o => h (r, bytes) o fun ht =>
        absurd hdev ht
    · exact pure (h (-1, []) s.outside fun ht => absurd hdev ht)
  · have hres : Q (readResult s.home (ino x) off n) s := h _ s.outside fun _ => ⟨rfl, rfl⟩
    rw [if_neg hdev]
    by_cases hoff : (ino x).size.toNat < off ∨ (off + n) % 2 ^ 32 < off
    · rw [if_pos hoff]
      rw [readResult, if_pos hoff] at hres
      exact pure hres
    · rw [if_neg hoff]
      rw [readResult, if_neg hoff] at hres
      rw [not_or, Nat.not_lt] at hoff
      have hf := c.good.filled x hx (c.cached.type_of_live l) hdev
      refine seq (readiLoop c l hf le_rfl ?_ (pure hres))
      split <;> omega

/-- `readi` never reaches `balloc`, and leaves the file system as it is. -/
lemma readi {Q : ℤ × List UInt8 → FsState → Prop} (c : Consistent sb s ino unsaved D)
    (l : Live s e x) (hread : s.seen.reading = false)
    (h : ∀ r o, ((ino x).type ≠ T_DEV → r = readResult s.home (ino x) off n ∧ o = s.outside) →
      Q r (s.setOutside o)) : Safe sb mode (Fs.readi e off n) Q s := by
  have henter : guarded sb mode .readiEnter s =
    .ok () (s.setSeen { s.seen with reading := true }) := rfl
  have c' := c.setSeen (o := { s.seen with reading := true }) rfl
  have l' : Live (s.setSeen { s.seen with reading := true }) e x := ⟨l.ref, l.valid, l.inum⟩
  refine seq (act henter (seq (readiBody c' l' fun r o hr => ?_)))
  have hleave : guarded sb mode .readiLeave ((s.setSeen { s.seen with reading := true }).setOutside
    o) =
      .ok () (s.setOutside o) := by
    have hback : ({ s.seen with reading := false } : Observed) = s.seen := by rw [← hread]
    simp only [guarded, Act.exec, FsState.setOutside, FsState.setSeen, hback]
  exact seq (act hleave (pure (h r o hr)))

end Safe

/-! ## Changing one inode -/

/-- From `s` to `s'` the only entry of the inode cache that has changed is `e`, and of that
only the copy of the inode on disk, which has kept its type. -/
structure Edited (s : FsState) (e : InodeId) (s' : FsState) : Prop where
  inode : ∃ v : DInode, v.type = (s.inode e).type ∧
    s'.inode = Function.update s.inode e { s.inode e with toDInode := v }
  file : s'.file = s.file
  proc : s'.proc = s.proc
  reading : s'.seen.reading = s.seen.reading

namespace Edited

lemma pinned (ed : Edited s e s') (hp : Pinned s) : Pinned s' := by
  intro f e' hf
  rw [ed.file] at hf
  have hpin := hp f e' hf
  obtain ⟨v, -, hinode⟩ := ed.inode
  rw [hinode]
  by_cases he : e' = e
  · subst he
    rw [Function.update_self]
    exact hpin
  · rwa [Function.update_of_ne he]

lemma of_wrote (w : Wrote s h s') : Edited s e s' :=
  ⟨⟨(s.inode e).toDInode, rfl, by rw [w.inode]; exact (Function.update_eq_self e s.inode).symm⟩,
    w.file, w.proc, w.reading⟩

lemma setInode (hv : v.type = (s.inode e).type) :
    Edited s e (s.setInode e { s.inode e with toDInode := v }) :=
  ⟨⟨v, hv, rfl⟩, rfl, rfl, rfl⟩

lemma trans {s₁ s₂ : FsState} (h₁ : Edited s e s₁) (h₂ : Edited s₁ e s₂) : Edited s e s₂ := by
  obtain ⟨v₁, hv₁, hi₁⟩ := h₁.inode
  obtain ⟨v₂, hv₂, hi₂⟩ := h₂.inode
  refine ⟨⟨v₂, ?_, ?_⟩, h₂.file.trans h₁.file, h₂.proc.trans h₁.proc, h₂.reading.trans h₁.reading⟩
  · rw [hv₂, hi₁, Function.update_self]
    exact hv₁
  · rw [hi₂, hi₁]
    simp

lemma live (h : Edited s e s') {e' : InodeId} {y : ℕ} (l : Live s e' y) : Live s' e' y := by
  obtain ⟨v, -, hi⟩ := h.inode
  by_cases he : e' = e
  · subst he
    have hself : s'.inode e' = { s.inode e' with toDInode := v } := by rw [hi, Function.update_self]
    exact ⟨by rw [hself]; exact l.ref, by rw [hself]; exact l.valid, by rw [hself]; exact l.inum⟩
  · have hne : s'.inode e' = s.inode e' := by rw [hi, Function.update_of_ne he]
    exact ⟨by rw [hne]; exact l.ref, by rw [hne]; exact l.valid, by rw [hne]; exact l.inum⟩

end Edited

lemma Grown.edited (g : Grown sb s ino e x s' ino') (c : Cached sb s ino unsaved) (l : Live s e x) :
    Edited s e s' :=
  ⟨⟨ino' x, by rw [g.type, ← c.eq_of_live l], g.inode⟩, g.file, g.proc, g.reading⟩

/-- Changing fields of a cached inode other than its type and its addresses. -/
lemma Consistent.setFields (c : Consistent sb s ino unsaved D) (l : Live s e x)
    (haddrs : v.addrs = (ino x).addrs) (htype : v.type = (ino x).type)
    (hfill : v.type ≠ T_DEV → Filled s.home (ino x) v.size.toNat)
    (hent : D x → v.type = T_DIR → Entries sb s.home (ino x) v.size.toNat) :
    Consistent sb (s.setInode e { s.inode e with toDInode := v }) (Function.update ino x v)
      (x :: unsaved) D := by
  have ht : v.type ≠ 0 := by
    rw [htype]
    exact c.cached.type_of_live l
  have hslot : ∀ k, slotOf s.home v k = slotOf s.home (ino x) k :=
    slotOf_congr (fun k _ => by rw [DInode.addr, haddrs, DInode.addr]) fun _ => rfl
  refine ⟨c.mounted.setInode _ _, c.cached.setInode l ht, c.good.setIno (fun k => ?_)
    (fun _ hdev bn hbn => ?_) fun hD hdir o ho hlt => ?_⟩
  · simp only [own, Function.update_self, hslot, htype]
  · rw [hslot]
    exact hfill hdev bn hbn
  · rw [hslot]
    exact hent hD hdir o ho hlt

/-- Inode blocks do not matter for who owns which block. -/
lemma Good.inodeBlock {pend : List ℕ} {d : Block} (g : Good sb h ino pend D) (hs : sb.Sound)
    (hx : x < sb.ninodes) : Good sb (Function.update h (IBLOCK x) d) ino pend D := by
  have hlt := sb.iblock_lt hx
  have hltd := sb.iblock_lt_dataStart hx
  refine g.congr (fun i b hi => ?_) (fun b _ => ?_) hs.dataStart_le_size
  · have := (g.owns.held i b hi).1.1
    exact Function.update_of_ne (by omega) _ _
  · have := sb.le_bblock b
    exact bitOf_update_of_ne (by omega)

lemma iblock_ne_one (x : ℕ) : IBLOCK x ≠ 1 := by
  simp only [IBLOCK, IPB]
  omega

/-- The inode is written back: no other was unsaved. -/
lemma Consistent.saved (c : Consistent sb s ino unsaved D) (l : Live s e x)
    (hU : ∀ y ∈ unsaved, y = x) (w : Wrote s (Function.update s.home (IBLOCK x)
      ((s.inode e).toDInode.encode (s.home (IBLOCK x)) (Fs.inodeOffset x))) s') :
    Consistent sb s' ino [] D := by
  have hx := c.cached.lt_of_live l
  have ca := c.cached
  refine ⟨c.mounted.wrote w (Function.update_of_ne (iblock_ne_one x).symm _ _), ⟨?_, ?_, ?_, ?_,
    fun y hy _ => ?_, by simp⟩, ?_⟩
  · rw [w.inode]
    exact ca.dev
  · rw [w.inode]
    exact ca.inum
  · rw [w.inode]
    exact ca.uniq
  · rw [w.inode]
    exact ca.valid
  · rw [w.home, dinodeAt_encode]
    split
    · rename_i hyx
      rw [hyx]
      exact ca.eq_of_live l
    · rename_i hyx
      exact ca.disk y hy fun hmem => hyx (hU y hmem)
  · rw [w.home]
    exact c.good.inodeBlock c.mounted.sound hx

/-- `iupdate` of the only inode that is unsaved. -/
lemma Safe.iupdate_save {Q : Unit → FsState → Prop} (c : Consistent sb s ino unsaved D)
    (l : Live s e x) (hU : ∀ y ∈ unsaved, y = x)
    (h : ∀ s', Consistent sb s' ino [] D → Wrote s s'.home s' →
      (∀ i, sb.dataStart ≤ i → s'.home i = s.home i) →
      (∀ b, bitOf sb s'.home b = bitOf sb s.home b) → Q () s') :
    Safe sb mode (Fs.iupdate e) Q s := by
  refine iupdate c.mounted (c.cached.dev_of_live l) l.inum (c.cached.lt_of_live l) fun s' w => ?_
  have hlt := sb.iblock_lt (c.cached.lt_of_live l)
  have hltd := sb.iblock_lt_dataStart (c.cached.lt_of_live l)
  refine h s' (c.saved l hU w) (by rw [w.home]; exact w) (fun i hi => ?_) fun b => ?_
  · rw [w.home, Function.update_of_ne (by omega)]
  · have := sb.le_bblock b
    rw [w.home, bitOf_update_of_ne (by omega)]

/-- The places of an inode with the same addresses, when the data blocks are the same. -/
lemma Consistent.slot_of_data (c : Consistent sb s ino unsaved D) (l : Live s e x)
    (hdata : ∀ i, sb.dataStart ≤ i → s'.home i = s.home i) (haddrs : v.addrs = (ino x).addrs)
    (k : ℕ) : slotOf s'.home v k = slotOf s.home (ino x) k := by
  have haddr : ∀ j, v.addr j = (ino x).addr j := fun j => by rw [DInode.addr, haddrs, DInode.addr]
  refine slotOf_congr (fun j _ => haddr j) (fun hz => hdata _ ?_) k
  rw [haddr] at hz ⊢
  have hind : slotOf s.home (ino x) NDIRECT = (ino x).addr NDIRECT := by rw [slotOf, if_pos le_rfl]
  have := (c.good.range (c.cached.lt_of_live l) (c.cached.type_of_live l) (hind.symm ▸ hz)).1
  rwa [hind] at this

/-- So are its bytes. -/
lemma Consistent.byte_of_data (c : Consistent sb s ino unsaved D) (l : Live s e x)
    (hdata : ∀ i, sb.dataStart ≤ i → s'.home i = s.home i) (haddrs : v.addrs = (ino x).addrs)
    (hne : slotOf s.home (ino x) (fileSlot (off / BSIZE)) ≠ 0) :
    fileByte s'.home v off = fileByte s.home (ino x) off := by
  rw [fileByte, c.slot_of_data l hdata haddrs, hdata, fileByte]
  exact (c.good.range (c.cached.lt_of_live l) (c.cached.type_of_live l) hne).1

/-! ## Writing -/

/-- What is written to a directory: one entry with the number of an inode. -/
structure EntryWrite (sb : Superblock) (src : ℕ → UInt8) (off n : ℕ) : Prop where
  aligned : off % Dirent.SIZE = 0
  size : n = Dirent.SIZE
  inum : (src 0).toNat + 2 ^ 8 * (src 1).toNat < sb.ninodes

/-- Writing a part of a block of the file, which starts before the limit `lim` up to which the
file is filled. -/
lemma Consistent.writeData {b m : ℕ} {src : ℕ → UInt8} (c : Consistent sb s ino unsaved D)
    (l : Live s e x) (hb : slotOf s.home (ino x) (fileSlot (off / BSIZE)) = b) (hb0 : b ≠ 0)
    (hm : off % BSIZE + m ≤ BSIZE) (hf : Filled s.home (ino x) lim)
    (hsize : (ino x).size.toNat ≤ lim) (hoff : off ≤ lim)
    (hd : D x ∧ (ino x).type = T_DIR → Entries sb s.home (ino x) lim ∧ EntryWrite sb src off m)
    (w : Wrote s (Function.update s.home b ((s.home b).blit (off % BSIZE) m src)) s') :
    Consistent sb s' ino unsaved D ∧ Filled s'.home (ino x) (max lim (off + m)) ∧
      (D x ∧ (ino x).type = T_DIR → Entries sb s'.home (ino x) (max lim (off + m))) ∧
      Others sb s ino x s' ino ∧ (∀ k, slotOf s'.home (ino x) k = slotOf s.home (ino x) k) ∧
      ∀ o, fileByte s'.home (ino x) o =
        if off ≤ o ∧ o < off + m then src (o - off) else fileByte s.home (ino x) o := by
  have hx := c.cached.lt_of_live l
  have ht := c.cached.type_of_live l
  have hrange := c.good.range hx ht (hb.symm ▸ hb0)
  rw [hb] at hrange
  have hds := sb.three_le_dataStart
  have hslot : ∀ k, slotOf s'.home (ino x) k = slotOf s.home (ino x) k := by
    intro k
    rw [w.home, ← hb]
    exact Good.slotOf_update (c.good.addr_indirect_ne hx ht hx ht
      (fun heq => fileSlot_ne (Prod.mk.inj heq).2) (hb.symm ▸ hb0)) k
  -- a block of the file in another place is another block
  have hplace : ∀ o, slotOf s.home (ino x) (fileSlot (o / BSIZE)) = b → o / BSIZE =
    off / BSIZE := by
    intro o hblk
    by_contra hne
    refine c.good.slot_ne hx ht hx ht (fun heq => hne ?_) (hb.symm ▸ hb0) (hblk.trans hb.symm)
    have hfs := (Prod.mk.inj heq).2
    simp only [fileSlot] at hfs
    split_ifs at hfs <;> omega
  have hbyte : ∀ o, fileByte s'.home (ino x) o =
      if off ≤ o ∧ o < off + m then src (o - off) else fileByte s.home (ino x) o := by
    intro o
    have hmod := mod_bsize_lt o
    rw [fileByte, fileByte, hslot, w.home]
    by_cases hblk : slotOf s.home (ino x) (fileSlot (o / BSIZE)) = b
    · have hsame := hplace o hblk
      rw [hblk, Function.update_self, Bytes.byteAt_blit hm]
      have hiff : (off % BSIZE ≤ o % BSIZE ∧ o % BSIZE < off % BSIZE + m) ↔
          (off ≤ o ∧ o < off + m) := by
        simp only [BSIZE] at hsame ⊢
        omega
      have hsub : o % BSIZE - off % BSIZE = o - off := by
        simp only [BSIZE] at hsame ⊢
        omega
      simp only [hiff, hsub]
    · have hout : ¬ (off ≤ o ∧ o < off + m) := by
        rintro ⟨hlo, hhi⟩
        refine hblk ?_
        have hsame : o / BSIZE = off / BSIZE := by
          simp only [BSIZE] at hm ⊢
          omega
        rw [hsame, hb]
      rw [Function.update_of_ne hblk, if_neg hout]
  have hfill : Filled s'.home (ino x) (max lim (off + m)) := by
    intro bn hbn
    rw [hslot]
    by_cases hlt : bn * BSIZE < lim
    · exact hf bn hlt
    · -- the block behind the limit is the one written
      have hbnEq : bn = off / BSIZE := by
        simp only [BSIZE] at hbn hlt hm ⊢
        omega
      rw [hbnEq, hb]
      exact hb0
  have hent : D x ∧ (ino x).type = T_DIR → Entries sb s'.home (ino x) (max lim (off + m)) := by
    intro hdir o ho hlt
    obtain ⟨hentries, hal, rfl, hnum⟩ := hd hdir
    by_cases hoo : o = off
    · subst hoo
      rw [hslot, hb, w.home, Function.update_self, Bytes.get16, Bytes.byteAt_blit hm,
        Bytes.byteAt_blit hm, if_pos (by simp [Dirent.SIZE]), if_pos (by simp [Dirent.SIZE]),
        Nat.sub_self, Nat.add_sub_cancel_left]
      exact hnum
    · have hold : o < lim := by
        simp only [Dirent.SIZE] at ho hal hlt
        omega
      have hentry := hentries o ho hold
      rw [hslot, w.home]
      by_cases hblk : slotOf s.home (ino x) (fileSlot (o / BSIZE)) = b
      · rw [hblk] at hentry ⊢
        have hsame := hplace o hblk
        rw [Function.update_self, Bytes.get16_blit_of_disj]
        · exact hentry
        · simp only [BSIZE, Dirent.SIZE] at hsame ho hal ⊢
          omega
      · rwa [Function.update_of_ne hblk]
  refine ⟨⟨c.mounted.wrote w (Function.update_of_ne (by omega) _ _),
    c.cached.wrote w fun y hy _ => ?_, ?_⟩, hfill, hent, ⟨fun _ _ => rfl, fun y k i hy hown => ?_⟩,
    hslot, hbyte⟩
  · have := sb.iblock_lt_dataStart hy
    exact dinodeAt_update_of_ne (by omega)
  · rw [w.home] at hent ⊢
    exact c.good.writeData c.mounted.sound hx ht fileSlot_ne hb hb0 fun hD hdir o ho hlt =>
      hent ⟨hD, hdir⟩ o ho (by omega)
  · have hne : i ≠ b := by
      rintro rfl
      have hbx := own_slotOf hx ht (hb.symm ▸ hb0)
      rw [hb] at hbx
      exact hy (Prod.mk.inj (c.good.owns.inj _ _ _ hown hbx)).1
    rw [w.home, Function.update_of_ne hne]

/-- The contents of file `x` after the `n` bytes `src 0, src 1, …` have been written at offset
`off`: blocks stay in their places, and the other bytes below `lim` are as before. -/
structure Overwritten (s : FsState) (ino : ℕ → DInode) (x : ℕ) (s' : FsState) (ino' : ℕ → DInode)
    (lim off n : ℕ) (src : ℕ → UInt8) : Prop where
  slot : ∀ k, slotOf s.home (ino x) k ≠ 0 → slotOf s'.home (ino' x) k = slotOf s.home (ino x) k
  byte : ∀ o, o < lim ∨ (off ≤ o ∧ o < off + n) → fileByte s'.home (ino' x) o =
    if off ≤ o ∧ o < off + n then src (o - off) else fileByte s.home (ino x) o

lemma Overwritten.refl {src : ℕ → UInt8} : Overwritten s ino x s ino lim off 0 src :=
  ⟨fun _ _ => rfl, fun o _ => by rw [if_neg (by omega)]⟩

lemma Overwritten.trans {s₁ s₂ : FsState} {ino₁ ino₂ : ℕ → DInode} {lim₁ m : ℕ} {src : ℕ → UInt8}
    (h₁ : Overwritten s ino x s₁ ino₁ lim off m src)
    (h₂ : Overwritten s₁ ino₁ x s₂ ino₂ lim₁ (off + m) n fun j => src (m + j)) (hlim : lim ≤ lim₁)
    (hm : off + m ≤ lim₁) : Overwritten s ino x s₂ ino₂ lim off (m + n) src := by
  refine ⟨fun k hk => ?_, fun o ho => ?_⟩
  · have hk₁ := h₁.slot k hk
    rw [h₂.slot k (by rwa [hk₁]), hk₁]
  · rw [h₂.byte o (by omega)]
    by_cases hlate : off + m ≤ o ∧ o < off + m + n
    · rw [if_pos hlate, if_pos (by omega), show m + (o - (off + m)) = o - off by omega]
    · rw [if_neg hlate, h₁.byte o (by omega)]
      by_cases hin : off ≤ o ∧ o < off + m
      · rw [if_pos hin, if_pos (by omega)]
      · rw [if_neg hin, if_neg (by omega)]

/-- Bytes are written to a block after the file has perhaps been given it. -/
lemma Grown.overwritten {s₁ : FsState} {ino₁ : ℕ → DInode} {m : ℕ} {src : ℕ → UInt8}
    (g : Grown sb s ino e x s₁ ino₁) (hf : Filled s.home (ino x) lim)
    (hslot : ∀ k, slotOf s'.home (ino₁ x) k = slotOf s₁.home (ino₁ x) k)
    (hbyte : ∀ o, fileByte s'.home (ino₁ x) o =
      if off ≤ o ∧ o < off + m then src (o - off) else fileByte s₁.home (ino₁ x) o) :
    Overwritten s ino x s' ino₁ lim off m src := by
  refine ⟨fun k hk => (hslot k).trans (g.slot k hk), fun o ho => ?_⟩
  rw [hbyte o]
  by_cases hin : off ≤ o ∧ o < off + m
  · rw [if_pos hin, if_pos hin]
  · have hne := hf (o / BSIZE) ((Nat.div_mul_le_self o BSIZE).trans_lt (ho.resolve_right hin))
    rw [if_neg hin, if_neg hin, fileByte, fileByte, g.slot _ hne, g.data _ fileSlot_ne hne]

/-- One turn of the loop of `writei`: `m` bytes are written to the block of offset `off`. -/
def Fs.writeiTurn (ip : InodeId) (dev : ℕ) (src : ℕ → UInt8) (off m : ℕ) : Sys Unit := do
  let b ← Fs.bmap ip (off / BSIZE)
  let bp ← Fs.bread dev b
  let d ← Fs.data bp
  Fs.setData bp (d.blit (off % BSIZE) m src)
  Fs.logWrite bp
  Fs.brelse bp

/-- The loop of `writei` is made of turns. -/
lemma Fs.writeiLoop_succ {dev fuel : ℕ} {src : ℕ → UInt8} (hn : n ≠ 0) :
    Fs.writeiLoop e dev (fuel + 1) src off n =
      Fs.writeiTurn e dev src off (min n (BSIZE - off % BSIZE)) >>= fun _ =>
        Fs.writeiLoop e dev fuel (fun j => src (min n (BSIZE - off % BSIZE) + j))
          (off + min n (BSIZE - off % BSIZE)) (n - min n (BSIZE - off % BSIZE)) := by
  rw [Fs.writeiLoop, if_neg hn, Fs.writeiTurn]
  simp only [bind_assoc]

/-- What turns of the loop leave that write `m` bytes at offset `off`, when the file was filled up
to `lim` before.  If `bmap` allocated a block, the end of the file moves. -/
structure Turned (sb : Superblock) (s : FsState) (ino : ℕ → DInode) (e : InodeId) (x lim off m : ℕ)
    (src : ℕ → UInt8) (s' : FsState) (ino' : ℕ → DInode) (unsaved unsaved' : List ℕ)
    (D : ℕ → Prop) :
    Prop where
  consistent : Consistent sb s' ino' unsaved' D
  subset : ∀ y ∈ unsaved', y = x ∨ y ∈ unsaved
  unsaved : unsaved' = unsaved ∨ lim < off + m
  edited : Edited s e s'
  held : s'.held = s.held
  others : Others sb s ino x s' ino'
  fields : { ino' x with addrs := (ino x).addrs } = ino x
  filled : Filled s'.home (ino' x) (max lim (off + m))
  entries : D x ∧ (ino x).type = T_DIR → Entries sb s'.home (ino' x) (max lim (off + m))
  bytes : Overwritten s ino x s' ino' lim off m src

namespace Turned

variable {m : ℕ} {src : ℕ → UInt8} {s₁ s₂ : FsState} {ino₁ ino₂ : ℕ → DInode}
    {unsaved₁ unsaved₂ : List ℕ}

lemma refl (c : Consistent sb s ino unsaved D) (hoff : off ≤ lim) (hf : Filled s.home (ino x) lim)
    (hent : D x ∧ (ino x).type = T_DIR → Entries sb s.home (ino x) lim) :
    Turned sb s ino e x lim off 0 src s ino unsaved unsaved D := by
  refine ⟨c, fun y hy => .inr hy, .inl rfl, .of_wrote (.refl c.mounted.journal), rfl,
    .refl sb s ino x, rfl,
    ?_, ?_, .refl⟩ <;> rwa [Nat.add_zero, max_eq_left hoff]

lemma size (t : Turned sb s ino e x lim off m src s₁ ino₁ unsaved unsaved₁ D) :
    (ino₁ x).size = (ino x).size := by rw [← t.fields]

lemma type (t : Turned sb s ino e x lim off m src s₁ ino₁ unsaved unsaved₁ D) :
    (ino₁ x).type = (ino x).type := by rw [← t.fields]

lemma trans (t₁ : Turned sb s ino e x lim off m src s₁ ino₁ unsaved unsaved₁ D)
    (t₂ : Turned sb s₁ ino₁ e x (max lim (off + m)) (off + m) n (fun j => src (m + j)) s₂ ino₂
      unsaved₁ unsaved₂ D) : Turned sb s ino e x lim off (m + n) src s₂ ino₂ unsaved
        unsaved₂ D := by
  have hlim : max (max lim (off + m)) (off + m + n) = max lim (off + (m + n)) := by omega
  have hf := t₂.filled
  have hent := t₂.entries
  rw [hlim] at hf hent
  refine ⟨t₂.consistent, fun y hy => ?_, ?_, t₁.edited.trans t₂.edited, t₂.held.trans t₁.held,
    t₁.others.trans t₂.others, by rw [← t₁.fields, ← t₂.fields], hf,
    fun hdir => hent ⟨hdir.1, t₁.type.trans hdir.2⟩, t₁.bytes.trans t₂.bytes (by omega) (by omega)⟩
  · rcases t₂.subset y hy with hyx | hy
    · exact .inl hyx
    · exact t₁.subset y hy
  · rcases t₂.unsaved with heq | hlt
    · exact t₁.unsaved.imp heq.trans fun hlt => by omega
    · exact .inr (by omega)

end Turned

namespace Safe

/-- One turn, on a file that is filled up to where it starts. -/
lemma writeiTurn {Q : Unit → FsState → Prop} {src : ℕ → UInt8} {m : ℕ}
    (c : Consistent sb s ino unsaved D) (l : Live s e x) (hp : Pinned s)
    (hread : s.seen.reading = false) (hf : Filled s.home (ino x) lim)
    (hlim : (ino x).size.toNat ≤ lim) (hoff : off ≤ lim) (hmax : off < MAXFILE * BSIZE)
    (hm0 : 0 < m) (hm : off % BSIZE + m ≤ BSIZE)
    (hd : D x ∧ (ino x).type = T_DIR → Entries sb s.home (ino x) lim ∧ EntryWrite sb src off m)
    (h : ∀ s' ino' unsaved', Turned sb s ino e x lim off m src s' ino' unsaved unsaved' D →
      Q () s') :
    Safe sb mode (Fs.writeiTurn e ROOTDEV src off m) Q s := by
  have hbn : off / BSIZE < MAXFILE := Nat.div_lt_of_lt_mul (by rw [Nat.mul_comm]; exact hmax)
  -- after `bmap` the file has the block
  refine call (Q := fun b s₁ => ∃ ino₁ unsaved₁, Consistent sb s₁ ino₁ unsaved₁ D ∧
    (∀ y ∈ unsaved₁, y = x ∨ y ∈ unsaved) ∧ (unsaved₁ = unsaved ∨ lim < off + m) ∧
    Grown sb s ino e x s₁ ino₁ ∧ slotOf s₁.home (ino₁ x) (fileSlot (off / BSIZE)) = b ∧ b ≠ 0) ?_ ?_
  · by_cases hslot : slotOf s.home (ino x) (fileSlot (off / BSIZE)) = 0
    · have hlong : lim < off + m := by
        by_contra hlt
        have := Nat.div_mul_le_self off BSIZE
        exact hf (off / BSIZE) (by omega) hslot
      exact bmap_alloc c l hp hbn hslot hread fun s₁ ino₁ c₁ g₁ hb0 =>
        ⟨ino₁, x :: unsaved, c₁, fun y => List.mem_cons.1, .inr hlong, g₁, rfl, hb0⟩
    · exact bmap_hit c l hbn hslot
        ⟨ino, unsaved, c, fun y => .inr, .inl rfl, .refl c.cached l, rfl, hslot⟩
  · rintro b s₁ ⟨ino₁, unsaved₁, c₁, hsub₁, hU₁, g₁, hb, hb0⟩
    have l₁ := g₁.live l
    have hlog := c₁.blk_slot l₁ (hb.symm ▸ hb0)
    rw [hb] at hlog
    refine seq (bread c₁.mounted.readAlloc fun _ => seq (data (seq (setData (seq ?_)))))
    rw [setHeld_blk, hlog.2]
    refine logWrite (c₁.mounted.setHeld _).journal c₁.mounted.readAlloc hlog.1 fun s₂ w => ?_
    refine brelse w.mem_held ?_
    have w := w.release
    generalize s₂.setHeld (s₂.held.erase b) = s₃ at w ⊢
    have hf₁ := g₁.filled hf
    obtain ⟨c₃, hf₃, hent₃, ho₃, hslot₃, hbyte₃⟩ := c₁.writeData l₁ hb hb0 hm hf₁
      (by rw [g₁.size]; exact hlim) hoff (fun hdir => ⟨g₁.entries hf (hd (g₁.type ▸ hdir)).1,
        (hd (g₁.type ▸ hdir)).2⟩) w
    exact h s₃ ino₁ unsaved₁ ⟨c₃, hsub₁, hU₁, (g₁.edited c.cached l).trans (.of_wrote w),
      w.held.trans g₁.held, g₁.others.trans ho₃,
      g₁.fields, hf₃, fun hdir => hent₃ ⟨hdir.1, by rw [g₁.type, hdir.2]⟩,
      g₁.overwritten hf hslot₃ hbyte₃⟩

/-- The loop of `writei`, on a file that is filled up to where the loop goes on. -/
lemma writeiLoop {Q : Unit → FsState → Prop} {src : ℕ → UInt8} {fuel : ℕ}
    (c : Consistent sb s ino unsaved D) (l : Live s e x) (hp : Pinned s)
    (hread : s.seen.reading = false) (hf : Filled s.home (ino x) lim)
    (hlim : (ino x).size.toNat ≤ lim) (hoff : off ≤ lim)
    (hd : D x ∧ (ino x).type = T_DIR → Entries sb s.home (ino x) lim ∧
      (n = 0 ∨ EntryWrite sb src off n)) (hmax : off + n ≤ MAXFILE * BSIZE) (hfuel : n ≤ fuel)
    (h : ∀ s' ino' unsaved', Turned sb s ino e x lim off n src s' ino' unsaved unsaved' D →
      Q () s') :
    Safe sb mode (Fs.writeiLoop e ROOTDEV fuel src off n) Q s := by
  induction fuel generalizing off n lim src s ino unsaved with
  | zero =>
      obtain rfl : n = 0 := by omega
      exact pure (h s ino unsaved (.refl c hoff hf fun hdir => (hd hdir).1))
  | succ fuel ih =>
      by_cases hn : n = 0
      · subst hn
        rw [Fs.writeiLoop, if_pos rfl]
        exact pure (h s ino unsaved (.refl c hoff hf fun hdir => (hd hdir).1))
      · rw [Fs.writeiLoop_succ hn]
        have hmod := mod_bsize_lt off
        generalize hm : min n (BSIZE - off % BSIZE) = m
        -- an entry of a directory is written at once
        have hone : D x ∧ (ino x).type = T_DIR → EntryWrite sb src off m ∧ m = n := by
          intro hdir
          have hw := (hd hdir).2.resolve_left hn
          have hmn : m = n := by
            have := dirent_mod_bsize hw.aligned
            have := hw.size
            omega
          exact ⟨hmn ▸ hw, hmn⟩
        refine seq (writeiTurn c l hp hread hf hlim hoff (by omega) (by omega) (by omega)
          (fun hdir => ⟨(hd hdir).1, (hone hdir).1⟩) fun s₁ ino₁ unsaved₁ t => ?_)
        have hlim₁ : (ino₁ x).size.toNat ≤ max lim (off + m) := by
          rw [t.size]
          omega
        refine ih t.consistent (t.edited.live l) (t.edited.pinned hp)
          (t.edited.reading.trans hread) t.filled hlim₁ (by omega) (fun hdir => ?_) (by omega)
          (by omega) fun s' ino' unsaved' t' => ?_
        · have hdir' : D x ∧ (ino x).type = T_DIR := ⟨hdir.1, t.type.symm.trans hdir.2⟩
          exact ⟨t.entries hdir', .inl (by rw [(hone hdir').2, Nat.sub_self])⟩
        · have ht := t.trans t'
          rw [Nat.add_sub_cancel' (by omega : m ≤ n)] at ht
          exact h s' ino' unsaved' ht

/-- `consolewrite` gives up the lock and takes it again. -/
lemma consolewrite {Q : ℤ → FsState → Prop} (hr : s.seen.readAlloc = false)
    (hv : (s.inode e).valid = true) (h : Q n s) : Safe sb mode (Fs.consolewrite e n) Q s := by
  refine seq (iunlock hr fun hbusy => seq (ilock_valid hr (by simpa using hv) fun _ => pure ?_))
  have hback : (s.setInode e { s.inode e with busy := false }).setInode e
      { (s.setInode e { s.inode e with busy := false }).inode e with busy := true } = s := by
    have hsame : ({ s.inode e with busy := true } : Inode) = s.inode e := by rw [← hbusy]
    simp [FsState.setInode, hsame]
  rwa [hback]

/-- `writei` returns `r` and writes nothing: it refuses, or the inode is a device. -/
def Refused (v : DInode) (off n : ℕ) (r : ℤ) : Prop :=
  (r = -1 ∧ (v.size.toNat < off ∨ MAXFILE * BSIZE < off + n)) ∨ v.type = T_DEV

/-- `writei` keeps the file system consistent; only one entry at a time may be written to a
directory.  Either nothing happens, or the file has the new bytes. -/
lemma writei {Q : ℤ → FsState → Prop} {src : ℕ → UInt8} (c : Consistent sb s ino [] D)
    (l : Live s e x) (hp : Pinned s) (hread : s.seen.reading = false)
    (hd : D x ∧ (ino x).type = T_DIR → EntryWrite sb src off n)
    (hstay : ∀ r, Refused (ino x) off n r → Q r s)
    (h : ∀ s' ino', (ino x).type ≠ T_DEV → Consistent sb s' ino' [] D → Edited s e s' →
      s'.held = s.held →
      Others sb s ino x s' ino' → { ino' x with addrs := (ino x).addrs, size := (ino x).size } =
        ino x →
      (ino' x).size.toNat = max (ino x).size.toNat (off + n) → off ≤ (ino x).size.toNat →
      Overwritten s ino x s' ino' (ino x).size.toNat off n src → Q n s') :
    Safe sb mode (Fs.writei e src off n) Q s := by
  have hx := c.cached.lt_of_live l
  have ht := c.cached.type_of_live l
  refine seq (getInode ?_)
  rw [c.cached.eq_of_live l, c.cached.dev_of_live l]
  by_cases hdev : (ino x).type = T_DEV
  · rw [if_pos hdev]
    split
    · exact consolewrite c.mounted.readAlloc l.valid (hstay _ (Or.inr hdev))
    · exact pure (hstay _ (Or.inr hdev))
  rw [if_neg hdev]
  have hM := MAXFILE_mul_BSIZE
  split
  · rename_i hoff
    exact pure (hstay _ (Or.inl ⟨rfl, by omega⟩))
  rename_i hoff
  rw [not_or, Nat.not_lt] at hoff
  split
  · rename_i hmax
    exact pure (hstay _ (Or.inl ⟨rfl, Or.inr hmax⟩))
  rename_i hmax
  rw [Nat.not_lt] at hmax
  refine seq (writeiLoop c l hp hread (c.good.filled x hx ht hdev) le_rfl hoff.1
    (fun hdir => ⟨c.good.entries x hx hdir.1 hdir.2, .inr (hd hdir)⟩) hmax le_rfl
    fun s₁ ino₁ unsaved₁ t => ?_)
  obtain ⟨c₁, hU₁, hsave₁, ed₁, hheld₁, ho₁, hfields, hf₁, hent₁, ow⟩ := t
  have ht₁ : (ino₁ x).type = (ino x).type := by rw [← hfields]
  have hs₁ : (ino₁ x).size = (ino x).size := by rw [← hfields]
  have l₁ := ed₁.live l
  have hv₁ := c₁.cached.eq_of_live l₁
  refine seq (getInode ?_)
  by_cases hgrow : 0 < n ∧ (ino x).size.toNat < off + n
  · rw [hv₁, hs₁, if_pos hgrow]
    have hsmall : (UInt32.ofNat (off + n)).toNat = off + n := by
      have hM := MAXFILE_mul_BSIZE
      exact UInt32.toNat_ofNat_of_lt' (by simp only [UInt32.size]; omega)
    rw [show max (ino x).size.toNat (off + n) = off + n by omega] at hf₁ hent₁
    have c₂ := c₁.setFields (v := { ino₁ x with size := UInt32.ofNat (off + n) }) l₁ rfl rfl
      (fun _ => by rw [hsmall]; exact hf₁) fun hD hdir => by
      rw [hsmall]; exact hent₁ ⟨hD, ht₁ ▸ hdir⟩
    have ed₂ := Edited.setInode (s := s₁) (e := e)
      (v := { ino₁ x with size := UInt32.ofNat (off + n) }) (by rw [hv₁])
    refine seq (setInode (seq (iupdate_save c₂ (ed₂.live l₁) (fun y hy => ?_)
      fun s₃ c₃ w₃ ho₃ _ => pure (h s₃ _ hdev c₃ (ed₁.trans (ed₂.trans (.of_wrote w₃)))
        (w₃.held.trans hheld₁) (ho₁.trans ⟨fun y hy => Function.update_of_ne hy _ _,
        fun y k b hy hown => ?_⟩) ?_ ?_ hoff.1 ⟨fun k hk => ?_, fun o ho => ?_⟩))))
    · rcases List.mem_cons.1 hy with rfl | hy
      · rfl
      · exact (hU₁ y hy).resolve_right List.not_mem_nil
    · exact ho₃ b (c₁.good.owns.held _ _ hown).1.1
    · rw [Function.update_self, ← hfields]
    · rw [Function.update_self, hsmall]
      omega
    · rw [Function.update_self]
      exact (c₁.slot_of_data l₁ ho₃ rfl k).trans (ow.slot k hk)
    · have hne := hf₁ (o / BSIZE) ((Nat.div_mul_le_self o BSIZE).trans_lt (by omega))
      rw [Function.update_self]
      exact (c₁.byte_of_data l₁ ho₃ rfl hne).trans (ow.byte o ho)
  · -- the end of the file stays, and so nothing has been allocated
    rw [hv₁, hs₁, if_neg hgrow]
    obtain rfl : unsaved₁ = [] := hsave₁.resolve_right fun hlt => hgrow ⟨by omega, hlt⟩
    exact pure (h s₁ ino₁ hdev c₁ ed₁ hheld₁ ho₁ (by rw [← hfields]) (by rw [hs₁]; omega) hoff.1 ow)

end Safe

end Xv6
