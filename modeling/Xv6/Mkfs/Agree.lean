import Xv6.Mkfs.Build
import Xv6.Fs.Reading

/-!
# The kernel reads what `mkfs` writes

The kernel boots on the image of some arguments.  `namei` finds each of the files by its name,
`ilock` reads the inode that `winode` has written, and `readi` returns the bytes that `read`
returned on the host (`mkfs_agrees`).
-/

namespace Xv6

open Lib FsState

/-! ## Paths with one element -/

section Root

variable {sb : Superblock} {blk : ℕ → Block} {disksize : ℕ} {o : Outside} {p : ProcId}
    {t : Name} {x k : ℕ}

lemma skipelem_slash (hslash : slash ∉ t) (hne : t ≠ []) :
    skipelem (slash :: t) = some ([], t.take DIRSIZ) := by
  have hall : ∀ a ∈ t, a ≠ slash := fun a ha heq => hslash (heq ▸ ha)
  have hdrop : (slash :: t).dropWhile (· = slash) = t := by
    rw [List.dropWhile_cons_of_pos (by simp)]
    cases t with
    | nil => rfl
    | cons a t => exact List.dropWhile_cons_of_neg (by simpa using hall a List.mem_cons_self)
  have hrest : t.dropWhile (· ≠ slash) = [] := List.dropWhile_eq_nil_iff.2 (by simpa using hall)
  have helem : t.takeWhile (· ≠ slash) = t := List.takeWhile_eq_self_iff.2 (by simpa using hall)
  simp only [skipelem, hdrop, if_neg hne, hrest, helem, List.dropWhile_nil]

lemma find_rootEntry {f : InodeId → Bool} (h : f Fs.rootEntry = true) :
    (List.finRange NINODE).find? f = some Fs.rootEntry := by
  rw [show List.finRange NINODE = Fs.rootEntry :: (List.finRange 49).map Fin.succ
    from List.finRange_succ]
  exact List.find?_cons_of_pos h

lemma find_secondEntry {f : InodeId → Bool} (h : f Fs.rootEntry = false)
    (h' : f secondEntry = true) :
    (List.finRange NINODE).find? f = some secondEntry := by
  have hrange : List.finRange NINODE =
      Fs.rootEntry :: secondEntry :: ((List.finRange 48).map Fin.succ).map Fin.succ := by
    rw [show List.finRange NINODE = Fs.rootEntry :: (List.finRange 49).map Fin.succ
      from List.finRange_succ,
      List.finRange_succ]
    rfl
  rw [hrange, List.find?_cons_of_neg (by simp [h])]
  exact List.find?_cons_of_pos h'

/-- The kernel runs on `blk`, and the inode cache has the root directory only. -/
structure OnlyRoot (blk : ℕ → Block) (disksize : ℕ) (s : FsState) (w : Inode) : Prop where
  idle : s.Idle
  reading : s.seen.reading = false
  blk : s.blk = blk
  disksize : s.disksize = disksize
  root : s.inode Fs.rootEntry = w
  other : ∀ e, e ≠ Fs.rootEntry → (s.inode e).ref = 0

namespace OnlyRoot

variable {s : FsState} {w : Inode}

lemma boot : OnlyRoot blk disksize (Fs.boot sb blk disksize o)
    ⟨DInode.zero, ROOTDEV, ROOTINO, 1, false, false⟩ :=
  ⟨⟨rfl, rfl⟩, rfl, rfl, rfl, rfl, fun e he => by simp [Fs.boot, he]⟩

lemma set (h : OnlyRoot blk disksize s w) (w' : Inode) :
    OnlyRoot blk disksize (s.setInode Fs.rootEntry w') w' :=
  ⟨⟨h.idle.held, h.idle.sectors⟩, h.reading, h.blk, h.disksize, setInode_inode_self,
    fun e he => by rw [setInode_inode_of_ne he, h.other e he]⟩

lemma iget_root (h : OnlyRoot blk disksize s w) (href : 0 < w.ref) (hdev : w.dev = ROOTDEV)
    (hinum : w.inum = ROOTINO) : (Act.iget ROOTDEV ROOTINO).exec s =
      .ok Fs.rootEntry (s.setInode Fs.rootEntry { w with ref := w.ref + 1 }) := by
  simp only [Act.exec]
  rw [find_rootEntry (by simp [h.root, href, hdev, hinum])]
  dsimp only
  rw [h.root]

/-- Another inode gets the next entry. -/
lemma iget (h : OnlyRoot blk disksize s w) (href : w.ref ≠ 0) (hinum : w.inum = ROOTINO)
    (hx : x ≠ ROOTINO) :
    (Act.iget ROOTDEV x).exec s = .ok secondEntry (s.setInode secondEntry { s.inode secondEntry with
      dev := ROOTDEV, inum := x, ref := 1, busy := false, valid := false }) := by
  have hnone : (List.finRange NINODE).find? (fun e =>
      decide (0 < (s.inode e).ref ∧ (s.inode e).dev = ROOTDEV ∧ (s.inode e).inum = x)) = none := by
    refine List.find?_eq_none.2 fun e _ => ?_
    by_cases he : e = Fs.rootEntry
    · simp [he, h.root, hinum, Ne.symm hx]
    · simp [h.other e he]
  simp only [Act.exec]
  rw [hnone, find_secondEntry (by simp [h.root, href]) (by simp [h.other secondEntry (by decide)])]

end OnlyRoot

/-- An inode that has been found and not yet been read. -/
structure Fresh (blk : ℕ → Block) (disksize : ℕ) (s : FsState) (e : InodeId) (x : ℕ) : Prop where
  idle : s.Idle
  reading : s.seen.reading = false
  blk : s.blk = blk
  disksize : s.disksize = disksize
  dev : (s.inode e).dev = ROOTDEV
  inum : (s.inode e).inum = x
  ref : 0 < (s.inode e).ref
  busy : (s.inode e).busy = false
  valid : (s.inode e).valid = false

/-- `namei` of a name in the root directory, after the kernel has booted. -/
lemma namei_root {v : DInode} (hslash : slash ∉ t) (hne : t ≠ []) (hblk : IBLOCK ROOTINO < disksize)
    (hv : dinodeAt blk ROOTINO = v) (hdir : Yields.Directory blk disksize v (k + 1))
    (hskip : ∀ j < k, (Yields.entryAt blk v j).inum = 0 ∨
      namecmp (t.take DIRSIZ) (Yields.entryAt blk v j).name ≠ 0)
    (hinum : (Yields.entryAt blk v k).inum = x) (hx : x ≠ 0) (hxr : x ≠ ROOTINO)
    (hname : namecmp (t.take DIRSIZ) (Yields.entryAt blk v k).name = 0) :
    ∃ s', Yields (Fs.namei p (slash :: t)) (Fs.boot sb blk disksize o) (some secondEntry) s' ∧
      Fresh blk disksize s' secondEntry x := by
  have hsecond : secondEntry ≠ Fs.rootEntry := by decide
  -- the root directory is found, locked and read
  have r₀ : OnlyRoot blk disksize (Fs.boot sb blk disksize o) _ := .boot
  have h₁ : (Act.iget ROOTDEV ROOTINO).exec (Fs.boot sb blk disksize o) = .ok Fs.rootEntry
      ((Fs.boot sb blk disksize o).setInode Fs.rootEntry ⟨DInode.zero, ROOTDEV, ROOTINO, 2,
      false, false⟩) :=
    r₀.iget_root (by decide) rfl rfl
  have r₁ := r₀.set ⟨DInode.zero, ROOTDEV, ROOTINO, 2, false, false⟩
  generalize (Fs.boot sb blk disksize o).setInode Fs.rootEntry ⟨DInode.zero, ROOTDEV, ROOTINO, 2,
    false, false⟩ = s₁ at h₁ r₁
  have h₂ : Yields (Fs.ilock Fs.rootEntry) s₁ ()
    (s₁.setInode Fs.rootEntry ⟨v, ROOTDEV, ROOTINO, 2, true, true⟩) := by
    have := Yields.ilock (x := ROOTINO) r₁.idle.held r₁.idle.spare (by rw [r₁.root]; decide)
      (by rw [r₁.root]) (by rw [r₁.root]) (by rw [r₁.root]) (by rw [r₁.root]) (by rwa [r₁.disksize])
      (by rw [r₁.blk, hv, hdir.type]; decide)
    rwa [r₁.blk, hv, r₁.root] at this
  have r₂ := r₁.set ⟨v, ROOTDEV, ROOTINO, 2, true, true⟩
  generalize s₁.setInode Fs.rootEntry ⟨v, ROOTDEV, ROOTINO, 2, true, true⟩ = s₂ at h₂ r₂
  -- the entry is found, and the root directory is given back
  have h₃ := r₂.iget (by simp) rfl hxr
  have hscan : Yields.Scans s₂ Fs.rootEntry v (k + 1) :=
    ⟨by rwa [r₂.blk, r₂.disksize], r₂.idle, r₂.reading, by rw [r₂.root], by rw [r₂.root]⟩
  have h₄ : Yields (Fs.dirlookup Fs.rootEntry (t.take DIRSIZ)) s₂ _ _ :=
    Yields.dirlookup hscan (by rwa [r₂.blk]) (by rwa [r₂.blk]) hx (by rwa [r₂.blk]) h₃
  obtain ⟨s₃, hs₃⟩ : ∃ s₃, s₂.setInode secondEntry { s₂.inode secondEntry with
    dev := ROOTDEV, inum := x, ref := 1, busy := false, valid := false } = s₃ := ⟨_, rfl⟩
  rw [hs₃] at h₄
  have hroot₃ : s₃.inode Fs.rootEntry = ⟨v, ROOTDEV, ROOTINO, 2, true, true⟩ := by
    rw [← hs₃, setInode_inode_of_ne (Ne.symm hsecond), r₂.root]
  have h₅ := Yields.iunlockput (s := s₃) (e := Fs.rootEntry) (by rw [hroot₃]) (by rw [hroot₃]; simp)
  rw [hroot₃] at h₅
  refine ⟨s₃.setInode Fs.rootEntry ⟨v, ROOTDEV, ROOTINO, 2 - 1, false, true⟩,
    Yields.seq (a := some (secondEntry, t.take DIRSIZ)) ?_ Yields.pure, ?_⟩
  · rw [Fs.namex, if_pos (List.head?_cons ..)]
    refine Yields.seq (Yields.act h₁) ?_
    rw [List.length_cons, Fs.namexLoop, skipelem_slash hslash hne]
    refine Yields.seq h₂ (Yields.seq Yields.getInode ?_)
    rw [r₂.root, if_neg (by simp [hdir.type]), if_neg (by simp)]
    refine Yields.seq h₄ (Yields.seq h₅ ?_)
    cases t with
    | nil => exact absurd rfl hne
    | cons a t => exact Yields.pure
  · have hentry : (s₃.setInode Fs.rootEntry ⟨v, ROOTDEV, ROOTINO, 2 - 1, false, true⟩).inode
      secondEntry =
        { s₂.inode secondEntry with
          dev := ROOTDEV, inum := x, ref := 1, busy := false, valid := false } := by
      rw [setInode_inode_of_ne hsecond, ← hs₃, setInode_inode_self]
    refine ⟨?_, ?_, ?_, ?_, by rw [hentry], by rw [hentry], by rw [hentry]; exact Int.one_pos,
      by rw [hentry], by rw [hentry]⟩
    · rw [← hs₃]
      exact ⟨r₂.idle.held, r₂.idle.sectors⟩
    · rw [← hs₃]
      exact r₂.reading
    · rw [← hs₃]
      exact r₂.blk
    · rw [← hs₃]
      exact r₂.disksize

end Root

namespace Mkfs

/-! ## Entries of the root directory -/

/-- A part of the bytes of a file. -/
lemma fileBytes_eq_take {h : ℕ → Block} {v : DInode} {d : List UInt8} {off n : ℕ}
    (hd : fileBytes h v 0 d.length = d) (hle : off + n ≤ d.length) :
    fileBytes h v off n = (d.drop off).take n := by
  refine List.ext_getElem ?_ fun i hi hi' => ?_
  · simp [fileBytes]
    omega
  · have hin : i < n := by simpa [fileBytes] using hi
    have hget : d[off + i] = fileByte h v (0 + (off + i)) := by
      conv_lhs => rw [List.getElem_of_eq hd.symm]
      simp only [fileBytes, List.getElem_map, List.getElem_range]
    rw [List.getElem_take, List.getElem_drop, hget, Nat.zero_add]
    simp only [fileBytes, List.getElem_map, List.getElem_range]

lemma drop_flatMap_entry (es : List (ℕ × Name)) {j : ℕ} (hj : j < es.length) :
    ((es.flatMap fun e => entry e.1 e.2).drop (Dirent.SIZE * j)).take Dirent.SIZE =
      entry es[j].1 es[j].2 := by
  have hlen : ∀ e : ℕ × Name, (entry e.1 e.2).length = Dirent.SIZE := fun e => by simp [entry]
  induction es generalizing j with
  | nil => exact absurd hj (by simp)
  | cons e es ih =>
      cases j with
      | zero =>
          rw [List.flatMap_cons, Nat.mul_zero, List.drop_zero, List.take_left' (hlen e)]
          rfl
      | succ j =>
          rw [List.flatMap_cons, Nat.mul_succ, Nat.add_comm, ← List.drop_drop,
            List.drop_left' (hlen e)]
          exact ih (by simpa using hj)

/-- The entry that its bytes hold. -/
lemma decode_entry {inum : ℕ} {name : Name} (h : inum < 2 ^ 16) :
    Dirent.decode (entry inum name) = ⟨inum, (List.range DIRSIZ).map (strncpy name)⟩ := by
  rw [Dirent.decode]
  congr 1
  simp [entry, Dirent.byte, Dirent.SIZE, List.range_succ]
  omega

/-! ## The image -/

/-- An inode of the image, with what it shows. -/
structure Holds (s : Image) (x : ℕ) (d : List UInt8) : Prop where
  type : (dinodeAt s.disk x).type = kind x
  slot : ∀ bn, bn * BSIZE < d.length → slotOf s.disk (dinodeAt s.disk x) (fileSlot bn) ≠ 0
  below : ∀ k, slotOf s.disk (dinodeAt s.disk x) k < s.sectors
  bytes : fileBytes s.disk (dinodeAt s.disk x) 0 d.length = d

variable {s : Image} {args : List Arg} {x : ℕ}

/-- What `fixSize` and `balloc` write does not concern the blocks of the inodes. -/
lemma slotOf_finished {s₀ : Image} (o : Owned s₀ (dinodeAt s₀.disk)) (hx : x < ninodes)
    (ht : (dinodeAt s₀.disk x).type ≠ 0)
    (hdisk : ∀ c, c = 1 ∨ sb.dataStart ≤ c → s.disk c = s₀.disk c)
    (haddrs : (dinodeAt s.disk x).addrs = (dinodeAt s₀.disk x).addrs) (k : ℕ) :
    slotOf s.disk (dinodeAt s.disk x) k = slotOf s₀.disk (dinodeAt s₀.disk x) k := by
  rw [slotOf_addrs haddrs]
  refine slotOf_congr (fun _ _ => rfl) (fun hz => hdisk _ (.inr ?_)) k
  have hrange := o.range hx ht (k := NDIRECT)
  rw [slotOf, if_pos le_rfl] at hrange
  exact (hrange hz).1

/-- The inodes of the finished image. -/
lemma Finished.holds (f : Finished s args) (hroom : usedFor args ≤ sb.logStart) (hx0 : 0 < x)
    (hx : x < args.length + 2) : Holds s x (dataOf args x) := by
  obtain ⟨s₀, b, hsect, hdisk, hat⟩ := f
  have hx' : x < s₀.freeinode := by rwa [b.freeinode]
  have hxn := hx'.trans_le b.rest.bound
  have ht := b.rest.type_ne hx0 hx'
  have l := b.rest.laid
  have hrange := fun k => l.owned.range hxn ht (k := k)
  have haddrs : (dinodeAt s.disk x).addrs = (dinodeAt s₀.disk x).addrs := by
    rw [hat x hxn]
    split <;> rfl
  have hslot := slotOf_finished l.owned hxn ht hdisk haddrs
  refine ⟨?_, fun bn hbn => ?_, fun k => ?_, ?_⟩
  · rw [← (b.rest.inode x hx0 hx').1, hat x hxn]
    split <;> rfl
  · rw [hslot, l.place x hxn ht]
    exact takes_fileSlot.2 hbn
  · rw [hslot, hsect]
    by_cases hz : slotOf s₀.disk (dinodeAt s₀.disk x) k = 0
    · rw [hz]
      decide
    · have hlt := (hrange k hz).2
      rw [b.freeblock] at hlt
      exact hlt.trans_le (hroom.trans (Nat.sub_le _ _))
  · refine Eq.trans (List.map_congr_left fun i hi => ?_) (l.bytes x hxn ht)
    have hi' := List.mem_range.1 hi
    have hne : slotOf s₀.disk (dinodeAt s₀.disk x) (fileSlot ((0 + i) / BSIZE)) ≠ 0 := by
      have hB := BSIZE_eq
      rw [l.place x hxn ht, takes_fileSlot, hB]
      omega
    rw [fileByte, fileByte, hslot, hdisk _ (.inr (hrange _ hne).1)]

/-- The size of a file. -/
lemma Finished.size (f : Finished s args) (hx : 2 ≤ x) (hx' : x < args.length + 2)
    (hmax : (dataOf args x).length ≤ MAXFILE * BSIZE) :
    (dinodeAt s.disk x).size.toNat = (dataOf args x).length := by
  obtain ⟨s₀, b, -, -, hat⟩ := f
  have hR := ROOTINO_eq
  have hM := MAXFILE_mul_BSIZE
  have hlt : x < s₀.freeinode := by rwa [b.freeinode]
  rw [hat x (hlt.trans_le b.rest.bound), if_neg (by omega), (b.rest.inode x (by omega) hlt).2.2,
    UInt32.toNat_ofNat_of_lt' (by rw [UInt32.size]; omega)]

/-- The size of the root directory. -/
lemma Finished.size_root (f : Finished s args) (hcount : args.length + 2 ≤ ninodes) :
    Dirent.SIZE * (args.length + 2) ≤ (dinodeAt s.disk ROOTINO).size.toNat := by
  obtain ⟨s₀, b, -, -, hat⟩ := f
  have hS := Dirent.SIZE_eq
  have hB := BSIZE_eq
  have hN := ninodes_eq
  rw [hat ROOTINO (by decide), if_pos rfl, hS, hB, UInt32.toNat_ofNat_of_lt'
    (by rw [UInt32.size]; omega)]
  omega

/-- The inode numbers of the root's entries. -/
lemma inum_of_rootEntries {e : ℕ × List UInt8} (he : e ∈ rootEntries args) :
    0 < e.1 ∧ e.1 < args.length + 2 := by
  simp only [rootEntries, ROOTINO, List.mem_cons, List.mem_mapIdx] at he
  rcases he with rfl | rfl | ⟨i, hi, rfl⟩
  · exact ⟨Nat.one_pos, by omega⟩
  · exact ⟨Nat.one_pos, by omega⟩
  · exact ⟨Nat.succ_pos _, by omega⟩

/-- The entries of the root directory can be read, and are those of the arguments. -/
lemma Finished.root (f : Finished s args) (hroom : usedFor args ≤ sb.logStart)
    (hcount : args.length + 2 ≤ ninodes) :
    Yields.Directory s.disk s.sectors (dinodeAt s.disk ROOTINO) (args.length + 2) ∧
      ∀ j (hj : j < (rootEntries args).length), Yields.entryAt s.disk (dinodeAt s.disk ROOTINO) j =
        ⟨(rootEntries args)[j].1, (List.range DIRSIZ).map (strncpy (rootEntries args)[j].2)⟩ := by
  have hN := ninodes_eq
  have hS := Dirent.SIZE_eq
  have h := f.holds hroom (x := ROOTINO) (by decide) (by simp [ROOTINO])
  have hlen := Built.length_root args
  refine ⟨⟨h.type, ?_, f.size_root hcount, fun j hj => ⟨h.slot _ ?_, h.below _⟩⟩, fun j hj => ?_⟩
  · have := h.below NDIRECT
    rwa [slotOf, if_pos le_rfl] at this
  · rw [hlen]
    exact (Nat.div_mul_le_self _ _).trans_lt (Nat.mul_lt_mul_of_pos_left hj (by decide))
  · have hj' := hj
    rw [length_rootEntries] at hj'
    have hinum := inum_of_rootEntries (List.getElem_mem hj)
    rw [Yields.entryAt, fileBytes_eq_take h.bytes (by rw [hlen, hS]; omega), dataOf, if_pos rfl,
      drop_flatMap_entry _ hj, decode_entry (by omega)]

/-! ## The arguments -/

/-- Arguments that `mkfs` can make an image of, but for slashes: their names are distinct and are
not those of the first two entries, and there is room for the files before the log. -/
structure Acceptable (args : List Arg) : Prop where
  readable : ∀ a ∈ args, a.file.isSome = true
  proper : ∀ a ∈ args, a.name ≠ [] ∧ a.name.take DIRSIZ ≠ Fs.dot ∧ a.name.take DIRSIZ ≠ Fs.dotdot
  distinct : (args.map fun a => a.name.take DIRSIZ).Nodup
  length : ∀ a ∈ args, a.bytes.length ≤ MAXFILE * BSIZE
  count : args.length ≤ ninodes - 2
  room : usedFor args ≤ size - nlog

lemma canon_of_text {t : Name} (h : 0 ∉ t) : canon t = t.take DIRSIZ := by
  refine List.takeWhile_eq_self_iff.2 fun b hb => ?_
  have hne : b ≠ 0 := fun hz => h (hz ▸ List.mem_of_mem_take hb)
  simpa using hne

lemma Arg.canon_name (a : Arg) : canon a.name = a.name.take DIRSIZ := by
  refine canon_of_text fun h => a.text ?_
  rw [Arg.name] at h
  split at h
  · exact List.mem_of_mem_tail h
  · exact h

/-- No two entries of the root have the same name. -/
lemma Acceptable.nodup (h : Acceptable args) :
    ((rootEntries args).map fun e => canon e.2).Nodup := by
  have hmap : (rootEntries args).map (fun e => canon e.2) =
      Fs.dot :: Fs.dotdot :: args.map fun a => a.name.take DIRSIZ := by
    have hargs : (args.mapIdx fun i a => (i + 2, a.name)).map (fun e => canon e.2) =
        args.map fun a => a.name.take DIRSIZ :=
      List.ext_getElem (by simp) fun i _ _ => by simp [Arg.canon_name]
    rw [rootEntries, List.map_cons, List.map_cons, hargs]
    rfl
  rw [hmap]
  have hne : ∀ a ∈ args, ¬ (a.name.take DIRSIZ = Fs.dot) ∧ ¬ (a.name.take DIRSIZ = Fs.dotdot) :=
    fun a ha =>
    (h.proper a ha).2
  refine List.nodup_cons.2 ⟨?_, List.nodup_cons.2 ⟨?_, h.distinct⟩⟩
  · simp only [List.mem_cons, List.mem_map, not_or, not_exists, not_and]
    exact ⟨by decide, fun a ha => (hne a ha).1⟩
  · simp only [List.mem_map, not_exists, not_and]
    exact fun a ha => (hne a ha).2

/-- A slash in an argument ends the program. -/
lemma foldlM_addFile_slash {rootino : ℕ} (h : ∃ a ∈ args, slash ∈ a.path) (s : Image) :
    args.foldlM (addFile rootino) s = none := by
  induction args generalizing s with
  | nil => simp at h
  | cons b args ih =>
      rw [List.foldlM_cons]
      by_cases hb : slash ∈ b.path
      · rw [addFile, if_pos hb]
        rfl
      · have htail : ∃ a ∈ args, slash ∈ a.path := by simpa [hb] using h
        cases addFile rootino s b with
        | none => rfl
        | some s' => exact ih htail s'

lemma main_slash (h : ∃ a ∈ args, slash ∈ a.path) : main args = none := by
  obtain ⟨s₀, s₁, s₂, halloc, happ₁, happ₂, -⟩ := built_nil
  have husedblocks : ninodes / IPB + 3 + bitblocks = sb.dataStart := rfl
  rw [main, if_neg (by rw [husedblocks]; decide), husedblocks, halloc]
  simp only [Option.bind_eq_bind, Option.bind_some, ne_eq, not_true_eq_false,
    if_false, happ₁, happ₂,
    foldlM_addFile_slash h, Option.bind_none]

/-- `namei` finds the file of an argument. -/
lemma Finished.namei (f : Finished s args) (h : Acceptable args) {i : ℕ}
    (hi : i < args.length) {t : Name} (hslash : slash ∉ t) (htext : 0 ∉ t)
    (ht : t.take DIRSIZ = args[i].name.take DIRSIZ) (o : Outside) (p : ProcId) :
    ∃ s', Yields (Fs.namei p (slash :: t)) (Fs.boot sb s.disk s.sectors o) (some secondEntry) s' ∧
      Fresh s.disk s.sectors s' secondEntry (i + 2) := by
  have hN := ninodes_eq
  have hcount := h.count
  obtain ⟨hdir, hentry⟩ := f.root h.room (by omega)
  have hlen := length_rootEntries args
  have hk : i + 2 < (rootEntries args).length := by omega
  have hget : (rootEntries args)[i + 2] = (i + 2, args[i].name) := by simp [rootEntries]
  have hcanon : canon (t.take DIRSIZ) = canon (rootEntries args)[i + 2].2 := by
    have htake : 0 ∉ t.take DIRSIZ := fun hz => htext (List.mem_of_mem_take hz)
    rw [hget, Arg.canon_name, canon_of_text htake, List.take_take, min_self, ht]
  have hne : t ≠ [] := by
    rintro rfl
    have hnil : args[i].name.take DIRSIZ = [] := by rw [← ht, List.take_nil]
    exact (h.proper _ (List.getElem_mem hi)).1 (by simpa [DIRSIZ] using hnil)
  obtain ⟨s₀, -, hsect, -⟩ := f
  refine namei_root (k := i + 2) hslash hne (by rw [hsect]; decide) rfl (hdir.mono (by omega))
    (fun j hj => .inr ?_) (by rw [hentry _ hk, hget]) (Nat.succ_ne_zero _) (by simp [ROOTINO]) ?_
  · -- the names before it are other names
    have hj' : j < (rootEntries args).length := hj.trans hk
    rw [hentry j hj', Ne, namecmp_eq_zero, canon_strncpy, hcanon]
    intro heq
    have hinj := List.nodup_iff_injective_get.1 h.nodup
    have hij := @hinj ⟨i + 2, by simpa using hk⟩ ⟨j, by simpa using hj'⟩ (by simpa using heq)
    exact hj.ne (Fin.ext_iff.1 hij).symm
  · rw [hentry _ hk, namecmp_eq_zero, canon_strncpy, hcanon]

/-- What the image shows of the file of an argument. -/
lemma dataOf_file {i : ℕ} (hi : i < args.length) : dataOf args (i + 2) = args[i].bytes := by
  rw [dataOf, if_neg (by simp [ROOTINO]), if_pos (Nat.le_add_left 2 i), Nat.add_sub_cancel,
    List.getElem?_eq_getElem hi]
  rfl

/-- What `readi` returns when all bytes of a file are known. -/
lemma readResult_of_bytes {h : ℕ → Block} {v : DInode} {d : List UInt8} {off n : ℕ}
    (hd : fileBytes h v 0 d.length = d) (hsize : v.size.toNat = d.length) (hoff : off ≤ d.length)
    (hn : off + n < 2 ^ 32) :
    readResult h v off n = (((min n (d.length - off) : ℕ) : ℤ), (d.drop off).take n) := by
  rw [readResult, if_neg (by rw [hsize, Nat.mod_eq_of_lt hn]; omega), hsize]
  dsimp only
  split
  · rw [fileBytes_eq_take hd (by omega), min_eq_right (by omega), List.take_of_length_le (by simp),
      List.take_of_length_le (by rw [List.length_drop]; omega)]
  · rw [fileBytes_eq_take hd (by omega), min_eq_left (by omega)]

/-- `ilock` and `readi` of the file of an argument. -/
lemma Finished.read (f : Finished s args) (h : Acceptable args) {i : ℕ}
    (hi : i < args.length) {s₁ : FsState} (r : Fresh s.disk s.sectors s₁ secondEntry (i + 2)) :
    ∃ s₂, Yields (Fs.ilock secondEntry) s₁ () s₂ ∧ (s₂.inode secondEntry).type = T_FILE ∧
      (s₂.inode secondEntry).size.toNat = args[i].bytes.length ∧
      ∀ off n, off ≤ args[i].bytes.length → off + n < 2 ^ 32 →
      Yields (Fs.readi secondEntry off n) s₂
        ((min n (args[i].bytes.length - off) : ℕ), (args[i].bytes.drop off).take n) s₂ := by
  have hx : i + 2 < args.length + 2 := by omega
  have hlength := h.length _ (List.getElem_mem hi)
  have hd := f.holds h.room (Nat.succ_pos _) hx
  have hsize := f.size (Nat.le_add_left 2 i) hx (by rwa [dataOf_file hi])
  have hsect : s.sectors = Mkfs.size := f.choose_spec.2.1
  rw [dataOf_file hi] at hd hsize
  have hkind : kind (i + 2) = T_FILE := by simp [kind, ROOTINO]
  have hcount := h.count
  have hblk : IBLOCK (i + 2) < s₁.disksize := by
    have hlt := (iblock_lt (x := i + 2) (by omega)).2
    rw [r.disksize, hsect]
    exact hlt.trans (by decide)
  obtain ⟨v, hv⟩ : ∃ v, dinodeAt s.disk (i + 2) = v := ⟨_, rfl⟩
  have hlock := Yields.ilock r.idle.held r.idle.spare r.ref r.busy r.valid r.dev r.inum hblk
    (by rw [r.blk, hd.type, hkind]; decide)
  rw [r.blk, hv] at hlock
  rw [hv] at hsize
  refine ⟨_, hlock, ?_, ?_, fun off n hoff hn => ?_⟩
  · rw [setInode_inode_self, ← hkind, ← hd.type, hv]
  · rw [setInode_inode_self, hsize]
  · have hbytes := hd.bytes
    rw [hv] at hbytes
    rw [← readResult_of_bytes hbytes hsize hoff hn, ← r.blk]
    refine Yields.readi ⟨r.idle.held, r.idle.sectors⟩ r.reading ?_ ?_ ?_ ?_ fun k hk hlt => ?_
    · rw [setInode_inode_self]
    · rw [setInode_inode_self]
      exact r.dev
    · have hbelow := hd.below NDIRECT
      rw [slotOf, if_pos le_rfl, hv, ← r.disksize] at hbelow
      exact hbelow
    · rw [← hv, hd.type, hkind]
      decide
    · have hslot : slotOf s.disk (dinodeAt s.disk (i + 2)) (fileSlot ((off + k) / BSIZE)) ≠ 0 :=
        hd.slot _ ((Nat.div_mul_le_self _ _).trans_lt (by rwa [← hsize]))
      have hbelow := hd.below (fileSlot ((off + k) / BSIZE))
      rw [hv, ← r.blk] at hslot hbelow
      rw [← r.disksize] at hbelow
      exact ⟨hslot, hbelow⟩

lemma Finished.super (f : Finished s args) : Superblock.decode (s.disk 1) = sb := by
  obtain ⟨s₀, b, -, hdisk, -⟩ := f
  rw [hdisk 1 (.inl rfl), b.rest.super]
  decide

/-- Nothing has been written into the log. -/
lemma Finished.log (f : Finished s args) (hroom : usedFor args ≤ sb.logStart) {c : ℕ}
    (hc : sb.logStart ≤ c) :
    s.disk c = Fs.zeroBlock := by
  obtain ⟨s₀, b, -, hdisk, -⟩ := f
  rw [hdisk c (.inr (le_trans (by decide) hc))]
  exact b.rest.laid.owned.fresh c (by rw [b.freeblock]; omega)

end Mkfs

open Mkfs in
/-- `mkfs` makes an image of arguments without slashes.  When the kernel has booted on it, `namei`
finds the file of every argument, and `readi` returns its bytes. -/
theorem mkfs_agrees {args : List Arg} (h : Acceptable args) :
    (main args = none ↔ ∃ a ∈ args, slash ∈ a.path) ∧
      ∀ s, main args = some s → Superblock.decode (s.disk 1) = sb ∧
        (∀ c, sb.logStart ≤ c → s.disk c = Fs.zeroBlock) ∧
        ∀ a ∈ args, ∀ t, slash ∉ t → 0 ∉ t → t.take DIRSIZ = a.name.take DIRSIZ →
          ∀ o p, ∃ ip s₁ s₂,
            Yields (Fs.namei p (slash :: t))
            (Fs.boot (Superblock.decode (s.disk 1)) s.disk s.sectors o)
              (some ip) s₁ ∧
            Yields (Fs.ilock ip) s₁ () s₂ ∧ (s₂.inode ip).type = T_FILE ∧
            (s₂.inode ip).size.toNat = a.bytes.length ∧
            ∀ off n, off ≤ a.bytes.length → off + n < 2 ^ 32 → Yields (Fs.readi ip off n) s₂
              ((min n (a.bytes.length - off) : ℕ), (a.bytes.drop off).take n) s₂ := by
  have hN := ninodes_eq
  have hcount := h.count
  by_cases hslash : ∃ a ∈ args, slash ∈ a.path
  · rw [main_slash hslash]
    exact ⟨iff_of_true rfl hslash, fun s hs => absurd hs (by simp)⟩
  · obtain ⟨s, hmain, f⟩ := main_finished (fun a ha hsa => hslash ⟨a, ha, hsa⟩) h.readable
      h.length (by omega) (h.room.trans (Nat.sub_le _ _))
    rw [hmain]
    refine ⟨iff_of_false (by simp) hslash, fun s' hs' => ?_⟩
    obtain rfl := Option.some.inj hs'
    have hsuper := f.super
    refine ⟨hsuper, fun c hc => f.log h.room hc, fun a ha t ht htext htake o p => ?_⟩
    obtain ⟨i, hi, rfl⟩ := List.getElem_of_mem ha
    rw [hsuper]
    obtain ⟨s₁, hnamei, r⟩ := f.namei h hi ht htext htake o p
    obtain ⟨s₂, hread⟩ := f.read h hi r
    exact ⟨secondEntry, s₁, s₂, hnamei, hread⟩

namespace Mkfs

/-- The file `_hi` of three bytes, which `read` returns in two parts. -/
def hi : Arg := ⟨[95, 104, 105], by decide, some ⟨[[104, 105], [10]], by decide⟩⟩

/-- The file `big` of 14 blocks, which is two more than the inode has addresses for. -/
def big : Arg :=
  ⟨[98, 105, 103], by decide, some ⟨List.replicate 14 (List.replicate BSIZE 7), fun c hc => by
    rw [List.eq_of_mem_replicate hc, List.length_replicate]
    decide⟩⟩

lemma bytes_big : big.bytes = List.replicate (14 * BSIZE) 7 :=
  List.flatten_replicate_replicate

lemma acceptable_two : Acceptable [hi, big] where
  readable := by decide
  proper := by decide
  distinct := by decide
  length := by decide +kernel
  count := by decide
  room := by decide +kernel

end Mkfs

open Mkfs in
theorem mkfs_agrees_two : Acceptable [hi, big] ∧ ∃ s, main [hi, big] = some s ∧ ∀ o p,
    (∃ ip s₁ s₂, Yields (Fs.namei p [47, 104, 105])
        (Fs.boot (Superblock.decode (s.disk 1)) s.disk s.sectors o) (some ip) s₁ ∧
      Yields (Fs.ilock ip) s₁ () s₂ ∧ Yields (Fs.readi ip 0 512) s₂ (3, [104, 105, 10]) s₂) ∧
    ∃ ip s₁ s₂, Yields (Fs.namei p [47, 98, 105, 103])
        (Fs.boot (Superblock.decode (s.disk 1)) s.disk s.sectors o) (some ip) s₁ ∧
      Yields (Fs.ilock ip) s₁ () s₂ ∧
      Yields (Fs.readi ip (13 * BSIZE) 1000) s₂ (512, List.replicate 512 7) s₂ := by
  obtain ⟨hnone, hsome⟩ := mkfs_agrees acceptable_two
  obtain ⟨s, hs⟩ := Option.ne_none_iff_exists'.1 (fun h => absurd (hnone.1 h) (by decide))
  refine ⟨acceptable_two, s, hs, fun o p => ⟨?_, ?_⟩⟩
  · obtain ⟨ip, s₁, s₂, h₁, h₂, -, -, hread⟩ :=
      (hsome s hs).2.2 hi (by simp) [104, 105] (by decide) (by decide) (by decide) o p
    exact ⟨ip, s₁, s₂, h₁, h₂, hread 0 512 (by decide) (by decide)⟩
  · obtain ⟨ip, s₁, s₂, h₁, h₂, -, -, hread⟩ :=
      (hsome s hs).2.2 big (by simp) [98, 105, 103] (by decide) (by decide) (by decide) o p
    have hB := BSIZE_eq
    have hy := hread (13 * BSIZE) 1000 (by rw [bytes_big, List.length_replicate]; omega) (by decide)
    rw [bytes_big, List.length_replicate, List.drop_replicate, List.take_replicate] at hy
    exact ⟨ip, s₁, s₂, h₁, h₂, hy⟩

end Xv6
