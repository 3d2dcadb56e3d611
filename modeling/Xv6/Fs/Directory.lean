import Xv6.Lib.Slots
import Xv6.Fs.FileBytes

/-!
# Directories as finite maps

The bytes of a directory are a table of entries of 16 bytes, of which those with inode number 0 are
free.  If no name occurs twice, the table is a finite map from names to inode numbers, where a name
counts up to its first NUL or its first `DIRSIZ` bytes.  `dirlookup` is its value at a name,
`dirlink` adds a binding in the first free entry or at the end, and writing zeros over an entry, as
`sys_unlink` does, removes one.
-/

namespace Xv6

open Lib FsState

variable {sb : Superblock} {s s' : FsState} {e e' : InodeId} {x y k inum : ℕ} {name : Name}
    {l : List UInt8}

/-! ## Bytes of a directory -/

/-- What an entry binds; nothing if it is free. -/
def Dirent.slot (d : Dirent) : Option (Name × ℕ) :=
  if d.inum = 0 then none else some (canon d.name, d.inum)

/-- Entry `k` of a directory with these bytes. -/
def direntAt (l : List UInt8) (k : ℕ) : Dirent :=
  Dirent.decode ((l.drop (Dirent.SIZE * k)).take Dirent.SIZE)

/-- The table of a directory with these bytes. -/
def dirSlots (l : List UInt8) : List (Option (Name × ℕ)) :=
  (List.range (l.length / Dirent.SIZE)).map fun k => (direntAt l k).slot

/-- The size is a multiple of that of an entry, and no name occurs twice. -/
structure IsDirectory (l : List UInt8) : Prop where
  whole : l.length % Dirent.SIZE = 0
  distinct : Slots.Distinct (dirSlots l)

instance (l : List UInt8) : Decidable (IsDirectory l) :=
  decidable_of_iff (l.length % Dirent.SIZE = 0 ∧ Slots.Distinct (dirSlots l))
    ⟨fun h => ⟨h.1, h.2⟩, fun h => ⟨h.1, h.2⟩⟩

lemma length_dirSlots : (dirSlots l).length = l.length / Dirent.SIZE := by
  simp [dirSlots]

lemma mul_le_of_le_dirSlots (hk : k ≤ (dirSlots l).length) : Dirent.SIZE * k ≤ l.length := by
  have hS := Dirent.SIZE_eq
  rw [length_dirSlots, hS] at hk
  rw [hS]
  omega

lemma getElem?_dirSlots : (dirSlots l)[k]? =
    if k < l.length / Dirent.SIZE then some (direntAt l k).slot else none := by
  rw [dirSlots, List.getElem?_map]
  split
  · rename_i hk
    rw [List.getElem?_range hk]
    rfl
  · rename_i hk
    rw [List.getElem?_eq_none (by rw [List.length_range]; omega)]
    rfl

/-- An entry matches a name iff its binding is one of this name. -/
lemma Dirent.slot_eq_some {d : Dirent} :
    d.slot = some (canon name, inum) ↔ d.inum ≠ 0 ∧ namecmp name d.name = 0 ∧ d.inum = inum := by
  rw [slot, namecmp_eq_zero]
  split
  · simp_all
  · rename_i hz
    simp [hz, eq_comm]

/-- The entry that `dirlink` writes binds the name. -/
lemma slot_byte (h0 : 0 < inum) (hlt : inum < 65536) :
    (Dirent.decode ((List.range Dirent.SIZE).map (Dirent.byte inum name))).slot =
      some (canon name, inum) := by
  have hrange : List.range Dirent.SIZE = 0 :: 1 :: (List.range DIRSIZ).map (· + 2) := rfl
  have hinum : (Dirent.decode ((List.range Dirent.SIZE).map (Dirent.byte inum name))).inum =
    inum := by
    simp only [Dirent.decode, hrange, List.map_cons, List.getD_cons_zero,
      List.getD_cons_succ, Dirent.byte]
    norm_num
    omega
  have hname : (Dirent.decode ((List.range Dirent.SIZE).map (Dirent.byte inum name))).name =
      (List.range DIRSIZ).map (strncpy name) := by
    simp only [Dirent.decode, hrange, List.map_cons, List.map_map, List.drop_succ_cons,
      List.drop_zero]
    refine List.map_congr_left fun j _ => ?_
    simp [Dirent.byte]
  rw [Dirent.slot, hinum, hname, canon_strncpy, if_neg (by omega)]

/-- An entry of zeros is free. -/
lemma slot_zeros : (Dirent.decode ((List.range Dirent.SIZE).map fun _ => 0)).slot = none := by
  decide

/-- Writing an entry fills a slot of the table. -/
lemma dirSlots_overwrite {bytes : List UInt8} (hw : l.length % Dirent.SIZE = 0)
    (hk : Dirent.SIZE * k ≤ l.length) (hb : bytes.length = Dirent.SIZE) :
    dirSlots (overwrite l (Dirent.SIZE * k) bytes) =
      Slots.put (dirSlots l) k (Dirent.decode bytes).slot := by
  have hS := Dirent.SIZE_eq
  have hlen : (overwrite l (Dirent.SIZE * k) bytes).length = _ := length_overwrite hk
  rw [hS] at hw hk hb hlen ⊢
  apply List.ext_getElem?
  intro j
  rw [Slots.getElem?_put (by rw [length_dirSlots, hS]; omega), getElem?_dirSlots,
    getElem?_dirSlots, hlen, hS]
  by_cases hjk : j = k
  · subst hjk
    rw [if_pos (by omega), if_pos rfl, direntAt, hS, ← hb, take_drop_overwrite_self (hb ▸ hk)]
  · rw [if_neg hjk]
    have hiff : j < max l.length (16 * k + bytes.length) / 16 ↔ j < l.length / 16 := by omega
    have hat : direntAt (overwrite l (16 * k) bytes) j = direntAt l j := by
      rw [direntAt, direntAt, hS]
      rcases Nat.lt_or_gt_of_ne hjk with hlt | hgt
      · rw [take_drop_overwrite_before hk (by omega)]
      · rw [drop_overwrite_after hk (by omega)]
    simp only [hiff, hat]

/-! ## References -/

/-- From `s` to `s'`, `iget` has taken a reference to inode `inum`, which is entry `e` of the inode
cache. -/
structure Referenced (s s' : FsState) (e : InodeId) (inum : ℕ) : Prop where
  only : s' = s.setInode e (s'.inode e)
  dev : (s'.inode e).dev = ROOTDEV
  inum : (s'.inode e).inum = inum
  ref : (s'.inode e).ref = (s.inode e).ref + 1
  nonneg : 0 ≤ (s.inode e).ref
  kept : 0 < (s.inode e).ref → s'.inode e = { s.inode e with ref := (s.inode e).ref + 1 }
  fresh : (s.inode e).ref = 0 → (s'.inode e).valid = false
  busy : (s'.inode e).busy = true → (s.inode e).busy = true

/-- From `s` to `s'` nothing has changed but an entry of the inode cache that is not in use. -/
def Untouched (s s' : FsState) : Prop :=
  ∃ e v, s' = s.setInode e v ∧ (v = s.inode e ∨ (s.inode e).ref = 0 ∧ v.ref = 0)

/-- `iget` returns if the inode is in the cache or there is an entry that is not in use. -/
lemma iget_referenced (h : Ample sb (.iget ROOTDEV inum) s) :
    ∃ e s', (Act.iget ROOTDEV inum).exec s = .ok e s' ∧ Referenced s s' e inum := by
  simp only [Act.exec]
  split
  · rename_i e he
    have hp := List.find?_some he
    simp only [decide_eq_true_eq] at hp
    exact ⟨e, _, rfl, by simp, by simp [hp], by simp [hp], by simp, by omega, fun _ => by simp,
      fun hz => by omega,
      by simp⟩
  · rename_i hnone
    split
    · rename_i e he
      have hp := List.find?_some he
      simp only [decide_eq_true_eq] at hp
      exact ⟨e, _, rfl, by simp, by simp, by simp, by simp [hp], by omega, fun hz => by omega,
        fun _ => by simp,
        by simp⟩
    · rename_i hused
      simp only [List.find?_eq_none, List.mem_finRange, true_imp_iff,
        decide_eq_true_eq] at hnone hused
      obtain ⟨e, he | he⟩ := h
      · exact absurd he (hused e)
      · exact absurd he (hnone e)

/-- Giving back a reference that has just been taken frees no inode. -/
lemma Referenced.iput (g : Referenced s s' e inum) : ∃ s₂, Yields (Fs.iput e) s' () s₂ ∧
    Untouched s s₂ := by
  have hno : ¬ ((s'.inode e).ref = 1 ∧ (s'.inode e).valid = true ∧ (s'.inode e).nlink = 0) := by
    rintro ⟨h1, hv, -⟩
    rw [g.ref] at h1
    rw [g.fresh (by omega)] at hv
    exact absurd hv (by decide)
  obtain ⟨v, hv⟩ : ∃ v, { s'.inode e with ref := (s'.inode e).ref - 1 } = v := ⟨_, rfl⟩
  have hput : (Act.iputStart e).exec s' = .ok false (s.setInode e v) := by
    have hset : s'.setInode e v = s.setInode e v := by
      rw [g.only]
      simp [FsState.setInode]
    simp only [Act.exec, if_neg hno, hv, hset]
  refine ⟨_, Yields.seq (.act hput) .pure, e, v, rfl, ?_⟩
  subst hv
  by_cases href : 0 < (s.inode e).ref
  · left
    simp [g.kept href]
  · right
    have hz : (s.inode e).ref = 0 := by
      have := g.nonneg
      omega
    exact ⟨hz, by simp [g.ref, hz]⟩

/-! ## The functions -/

/-- Inode `x`, which is entry `e` of the inode cache, is a directory; every block has one owner, and
no buffer is busy. -/
structure OpenDir (sb : Superblock) (s : FsState) (e : InodeId) (x : ℕ) : Prop where
  owned : BlocksOwned sb s
  live : Live s e x
  held : s.held = []
  type : (s.inode e).type = T_DIR

/-- Besides, the directory is a table of whole entries. -/
structure WholeDir (sb : Superblock) (s : FsState) (e : InodeId) (x : ℕ) : Prop
    extends OpenDir sb s e x where
  whole : (s.contents x).length % Dirent.SIZE = 0

/-- Besides, no name occurs twice in the directory. -/
structure DirAt (sb : Superblock) (s : FsState) (e : InodeId) (x : ℕ) : Prop
    extends WholeDir sb s e x where
  distinct : Slots.Distinct (dirSlots (s.contents x))

/-- The inode number that a directory binds a name to. -/
def FsState.binding (s : FsState) (x : ℕ) (name : Name) : Option ℕ :=
  Slots.lookup (dirSlots (s.contents x)) (canon name)

/-- The entries `js` of directory `x`. -/
def FsState.slotsAt (s : FsState) (x : ℕ) (js : List ℕ) : List (Option (Name × ℕ)) :=
  js.map fun j => (direntAt (s.contents x) j).slot

/-- What a lookup among the entries `js` returns: nothing, if none of them has the name, or a
reference to the inode of the first that has it, with its offset. -/
inductive Looked (s : FsState) (x : ℕ) (name : Name) (js : List ℕ) :
    Option (InodeId × ℕ) → FsState → Prop
  | absent (h : Slots.lookup (s.slotsAt x js) (canon name) = none) : Looked s x name js none s
  | found {k inum : ℕ} {e : InodeId} {s' : FsState} (hk : k ∈ js)
      (hslot : (direntAt (s.contents x) k).slot = some (canon name, inum))
      (h : Slots.lookup (s.slotsAt x js) (canon name) = some inum) (g : Referenced s s' e inum) :
      Looked s x name js (some (e, Dirent.SIZE * k)) s'

lemma Looked.cons {j : ℕ} {js : List ℕ} {r : Option (InodeId × ℕ)} (h : Looked s x name js r s')
    (hj : ∀ inum, (direntAt (s.contents x) j).slot ≠ some (canon name, inum)) :
    Looked s x name (j :: js) r s' := by
  have hcons : Slots.lookup (s.slotsAt x (j :: js)) (canon name) = Slots.lookup (s.slotsAt x js)
    (canon name) :=
    Slots.lookup_cons_of_ne hj
  cases h with
  | absent h => exact .absent (hcons.trans h)
  | found hk hslot h g => exact .found (List.mem_cons_of_mem j hk) hslot (hcons.trans h) g

/-- From `s` to `s'` entry `k` of directory `x` has been written, and that has changed the binding
of one name to `o`; nothing else has changed in this inode or in another. -/
structure Rebound (sb : Superblock) (s s' : FsState) (e : InodeId) (x k : ℕ) (name : Name)
    (o : Option ℕ) :
    Prop where
  dirAt : DirAt sb s' e x
  slots : dirSlots (s'.contents x) = Slots.put (dirSlots (s.contents x)) k (o.map (canon name, ·))
  binding : ∀ name', s'.binding x name' = if canon name' = canon name then o else s.binding x name'
  fields : { s'.node x with addrs := (s.node x).addrs, size := (s.node x).size } = s.node x
  others : ∀ y < sb.ninodes, y ≠ x → SameBytes s s' y

namespace OpenDir

lemma dev (d : OpenDir sb s e x) : (s.inode e).dev = ROOTDEV := by
  obtain ⟨ino, c⟩ := d.owned.content
  exact c.cached.dev_of_live d.live

lemma size_eq (d : OpenDir sb s e x) : (s.inode e).size.toNat = (s.contents x).length := by
  obtain ⟨ino, c⟩ := d.owned.content
  rw [length_contents, c.node_of_live d.live, c.cached.eq_of_live d.live]

/-- The offsets that `dirlookup` and `dirlink` go through: those of the entries, and that of what is
left behind them. -/
lemma offsets (d : OpenDir sb s e x) : Fs.direntOffsets (s.inode e).size.toNat =
    (List.range (dirSlots (s.contents x)).length).map (Dirent.SIZE * ·) ++
      if (s.contents x).length % Dirent.SIZE = 0 then []
      else [Dirent.SIZE * (dirSlots (s.contents x)).length] := by
  have hS := Dirent.SIZE_eq
  rw [Fs.direntOffsets, d.size_eq, length_dirSlots, hS]
  split
  · rw [show ((s.contents x).length + 16 - 1) / 16 = (s.contents x).length / 16 by omega,
      List.append_nil]
  · rw [show ((s.contents x).length + 16 - 1) / 16 = (s.contents x).length / 16 + 1 by omega,
      List.range_succ,
      List.map_append]
    rfl

/-- `readi` where an entry would be. -/
lemma readi_at (d : OpenDir sb s e x) (hdisk : sb.size ≤ s.disksize)
    (hk : Dirent.SIZE * k ≤ (s.contents x).length)
    (hm : (Fs.readi e (Dirent.SIZE * k) Dirent.SIZE).Meets Act.exec (Ample sb) s) :
    Yields (Fs.readi e (Dirent.SIZE * k) Dirent.SIZE) s
      ((((s.contents x).drop (Dirent.SIZE * k)).take Dirent.SIZE).length,
        ((s.contents x).drop (Dirent.SIZE * k)).take Dirent.SIZE) s := by
  have hread := readi_bytes d.owned d.live hdisk d.held (by rw [d.type]; decide) hm
  obtain ⟨ino, c⟩ := d.owned.content
  have hx := c.cached.lt_of_live d.live
  have hmax := (c.good.filled x hx (c.cached.type_of_live d.live) (by
    rw [← c.cached.eq_of_live d.live, d.type]
    decide)).le_max
  have hS := Dirent.SIZE_eq
  have hM := MAXFILE_mul_BSIZE
  rw [← c.node_eq hx, ← length_contents] at hmax
  rwa [readBytes, if_neg (by rw [hS] at hk ⊢; omega)] at hread

/-- `readi` of one entry. -/
lemma readi (d : OpenDir sb s e x) (hdisk : sb.size ≤ s.disksize)
    (hk : k < (dirSlots (s.contents x)).length)
    (hm : (Fs.readi e (Dirent.SIZE * k) Dirent.SIZE).Meets Act.exec (Ample sb) s) :
    Yields (Fs.readi e (Dirent.SIZE * k) Dirent.SIZE) s
      (Dirent.SIZE, ((s.contents x).drop (Dirent.SIZE * k)).take Dirent.SIZE) s := by
  have hS := Dirent.SIZE_eq
  rw [length_dirSlots, hS] at hk
  have hread := d.readi_at hdisk (by rw [hS]; omega) hm
  have hlen : (((s.contents x).drop (Dirent.SIZE * k)).take Dirent.SIZE).length = Dirent.SIZE := by
    rw [List.length_take, List.length_drop, hS]
    omega
  rwa [hlen] at hread

/-- The loop of `dirlookup` returns what some of the entries bind the name to, or it goes on behind
them. -/
lemma dirlookupLoop {js offs : List ℕ} (d : OpenDir sb s e x) (hdisk : sb.size ≤ s.disksize)
    (hjs : ∀ j ∈ js, j < (dirSlots (s.contents x)).length)
    (hm : (Fs.dirlookupLoop e ROOTDEV name (js.map (Dirent.SIZE * ·) ++ offs)).Meets Act.exec
      (Ample sb) s) :
    (∃ r s', Yields (Fs.dirlookupLoop e ROOTDEV name (js.map (Dirent.SIZE * ·) ++ offs))
      s (some r) s' ∧
      Looked s x name js (some r) s') ∨
    (Looked s x name js none s ∧ (Fs.dirlookupLoop e ROOTDEV name offs).Meets
      Act.exec (Ample sb) s ∧
      (Fs.dirlookupLoop e ROOTDEV name (js.map (Dirent.SIZE * ·) ++ offs)).run Act.exec s =
        (Fs.dirlookupLoop e ROOTDEV name offs).run Act.exec s) := by
  induction js with
  | nil => exact .inr ⟨.absent rfl, hm, rfl⟩
  | cons j js ih =>
      have hread := d.readi hdisk (hjs j List.mem_cons_self) hm.left
      have hrest := hm.right hread
      have hdec : Dirent.decode (((s.contents x).drop (Dirent.SIZE * j)).take Dirent.SIZE) =
        direntAt (s.contents x) j := rfl
      have hih := ih fun i hi => hjs i (List.mem_cons_of_mem j hi)
      rw [List.map_cons, List.cons_append, Fs.dirlookupLoop]
      dsimp only at hrest
      rw [if_neg (by simp), hdec] at hrest
      -- an entry without the name is passed over
      have hpass : (∀ inum, (direntAt (s.contents x) j).slot ≠ some (canon name, inum)) →
          (Fs.dirlookupLoop e ROOTDEV name (js.map (Dirent.SIZE * ·) ++ offs)).Meets
          Act.exec (Ample sb) s →
          ∀ k : ℤ × List UInt8 → Sys (Option (InodeId × ℕ)),
          k (Dirent.SIZE, ((s.contents x).drop (Dirent.SIZE * j)).take Dirent.SIZE) =
            Fs.dirlookupLoop e ROOTDEV name (js.map (Dirent.SIZE * ·) ++ offs) →
          (∃ r s', Yields (Fs.readi e (Dirent.SIZE * j) Dirent.SIZE >>= k) s (some r) s' ∧
            Looked s x name (j :: js) (some r) s') ∨
          (Looked s x name (j :: js) none s ∧
            (Fs.dirlookupLoop e ROOTDEV name offs).Meets Act.exec (Ample sb) s ∧
            (Fs.readi e (Dirent.SIZE * j) Dirent.SIZE >>= k).run Act.exec s =
              (Fs.dirlookupLoop e ROOTDEV name offs).run Act.exec s) := by
        intro hslot hm₁ k hk
        rcases hih hm₁ with ⟨r, s', hy, hl⟩ | ⟨hl, hm', hrun⟩
        · exact .inl ⟨r, s', hread.seq (by rw [hk]; exact hy), hl.cons hslot⟩
        · exact .inr ⟨hl.cons hslot, hm', by rw [hread.run_bind, hk, hrun]⟩
      by_cases hz : (direntAt (s.contents x) j).inum = 0
      · rw [if_pos hz] at hrest
        refine hpass (fun inum hslot => (Dirent.slot_eq_some.1 hslot).1 hz) hrest _ ?_
        dsimp only
        rw [if_neg (by simp), hdec, if_pos hz]
      rw [if_neg hz] at hrest
      by_cases hname : namecmp name (direntAt (s.contents x) j).name = 0
      · rw [if_pos hname] at hrest
        obtain ⟨e', s', hget, g⟩ := iget_referenced hrest.left.1
        have hslot := Dirent.slot_eq_some.2 ⟨hz, hname, rfl⟩
        refine .inl ⟨_, s', hread.seq ?_, .found List.mem_cons_self hslot ?_ g⟩
        swap
        · rw [slotsAt, List.map_cons, hslot, Slots.lookup_cons_self]
        dsimp only
        rw [if_neg (by simp), hdec, if_neg hz, if_pos hname]
        exact Yields.seq (.act hget) .pure
      · rw [if_neg hname] at hrest
        refine hpass (fun inum hslot => hname (Dirent.slot_eq_some.1 hslot).2.1) hrest _ ?_
        dsimp only
        rw [if_neg (by simp), hdec, if_neg hz, if_neg hname]

/-- `dirlookup` returns what the directory binds the name to; if the name is not bound and the
directory does not end with a whole entry, it panics. -/
lemma dirlookup (d : OpenDir sb s e x) (hdisk : sb.size ≤ s.disksize)
    (hm : (Fs.dirlookup e name).Meets Act.exec (Ample sb) s) :
    (∃ r s', Yields (Fs.dirlookup e name) s r s' ∧
      Looked s x name (List.range (dirSlots (s.contents x)).length) r s' ∧
      (r = none → (s.contents x).length % Dirent.SIZE = 0)) ∨
    (Looked s x name (List.range (dirSlots (s.contents x)).length) none s ∧
      (s.contents x).length % Dirent.SIZE ≠ 0 ∧
      ∃ s', (Fs.dirlookup e name).run Act.exec s = .error (.panic "dirlink read") s') := by
  have hrest := hm.right Yields.getInode
  rw [if_neg (not_not.2 d.type), d.dev, d.offsets] at hrest
  have hrun : (Fs.dirlookup e name).run Act.exec s = _ := Yields.getInode.run_bind
  rw [if_neg (not_not.2 d.type), d.dev, d.offsets] at hrun
  rcases d.dirlookupLoop hdisk (fun j => List.mem_range.1) hrest
    with ⟨r, s', hy, hl⟩ | ⟨hl, hm', hloop⟩
  · exact .inl ⟨some r, s', hrun.trans hy, hl, fun h => absurd h (by simp)⟩
  rw [hloop] at hrun
  by_cases hwhole : (s.contents x).length % Dirent.SIZE = 0
  · rw [if_pos hwhole] at hrun
    exact .inl ⟨none, s, hrun, hl, fun _ => hwhole⟩
  · rw [if_neg hwhole] at hm' hrun
    have hS := Dirent.SIZE_eq
    have hle : Dirent.SIZE * (dirSlots (s.contents x)).length ≤ (s.contents x).length := by
      rw [length_dirSlots, hS]
      omega
    have hread := d.readi_at hdisk hle hm'.left
    have hshort : ((((s.contents x).drop (Dirent.SIZE * (dirSlots (s.contents x)).length)).take
        Dirent.SIZE).length : ℤ) ≠ Dirent.SIZE := by
      rw [List.length_take, List.length_drop, length_dirSlots, hS]
      rw [hS] at hwhole
      omega
    refine .inr ⟨hl, hwhole, s, hrun.trans ?_⟩
    rw [Fs.dirlookupLoop, hread.run_bind]
    dsimp only
    rw [if_pos hshort]
    rfl

end OpenDir

namespace WholeDir

lemma offsets (d : WholeDir sb s e x) : Fs.direntOffsets (s.inode e).size.toNat =
    (List.range (dirSlots (s.contents x)).length).map (Dirent.SIZE * ·) := by
  rw [d.toOpenDir.offsets, if_pos d.whole, List.append_nil]

/-- `dirlookup` returns what the directory binds the name to. -/
lemma dirlookup (d : WholeDir sb s e x) (hdisk : sb.size ≤ s.disksize)
    (hm : (Fs.dirlookup e name).Meets Act.exec (Ample sb) s) :
    ∃ r s', Yields (Fs.dirlookup e name) s r s' ∧
      Looked s x name (List.range (dirSlots (s.contents x)).length) r s' := by
  rcases d.toOpenDir.dirlookup hdisk hm with ⟨r, s', hy, hl, -⟩ | ⟨-, hno, -⟩
  · exact ⟨r, s', hy, hl⟩
  · exact absurd d.whole hno

/-- The loop of `dirlink` stops at the first free entry. -/
lemma emptyDirent {n : ℕ} (d : WholeDir sb s e x) (hdisk : sb.size ≤ s.disksize)
    (hn : k + n = (dirSlots (s.contents x)).length)
    (hm : (Fs.emptyDirent e (Dirent.SIZE * (dirSlots (s.contents x)).length)
      ((List.range' k n).map (Dirent.SIZE * ·))).Meets Act.exec (Ample sb) s) :
    Yields (Fs.emptyDirent e (Dirent.SIZE * (dirSlots (s.contents x)).length)
      ((List.range' k n).map (Dirent.SIZE * ·))) s
      (Dirent.SIZE * (k + ((dirSlots (s.contents x)).drop k).findIdx Option.isNone)) s := by
  induction n generalizing k with
  | zero =>
      rw [List.drop_eq_nil_of_le (by omega), ← hn]
      exact .pure
  | succ n ih =>
      have hk : k < (dirSlots (s.contents x)).length := by omega
      have hread := d.readi hdisk hk hm.left
      have hrest := hm.right hread
      have hdec : Dirent.decode (((s.contents x).drop (Dirent.SIZE * k)).take Dirent.SIZE) =
        direntAt (s.contents x) k := rfl
      have hslot : (dirSlots (s.contents x))[k] = (direntAt (s.contents x) k).slot := by
        simp [dirSlots]
      rw [List.drop_eq_getElem_cons hk, hslot, List.findIdx_cons]
      rw [List.range'_succ, List.map_cons, Fs.emptyDirent]
      dsimp only at hrest
      rw [if_neg (by simp), hdec] at hrest
      refine hread.seq ?_
      dsimp only
      rw [if_neg (by simp), hdec]
      by_cases hz : (direntAt (s.contents x) k).inum = 0
      · rw [if_pos hz, Dirent.slot, if_pos hz]
        exact .pure
      · rw [if_neg hz] at hrest ⊢
        have := ih (by omega) hrest
        rw [Dirent.slot, if_neg hz]
        simpa [Nat.add_assoc, Nat.add_comm 1] using this

end WholeDir

/-- `dirlookup` finds nothing, or it returns the inode that the name is bound to and the offset of
its entry. -/
lemma binding_of_looked {r : Option (InodeId × ℕ)}
    (h : Looked s x name (List.range (dirSlots (s.contents x)).length) r s') :
    (s.binding x name = none ∧ r = none ∧ s' = s) ∨
    ∃ inum e' k, s.binding x name = some inum ∧ r = some (e', Dirent.SIZE * k) ∧
      (dirSlots (s.contents x))[k]? = some (some (canon name, inum)) ∧ Referenced s s' e' inum := by
  have hslots : s.slotsAt x (List.range (dirSlots (s.contents x)).length) =
    dirSlots (s.contents x) := by
    rw [length_dirSlots]
    rfl
  cases h with
  | absent h => exact .inl ⟨by rw [binding, ← hslots, h], rfl, rfl⟩
  | @found k inum e' _ hk hslot h g =>
      refine .inr ⟨inum, e', k, by rw [binding, ← hslots, h], rfl, ?_, g⟩
      rw [getElem?_dirSlots, if_pos (by rw [← length_dirSlots]; exact List.mem_range.1 hk), hslot]

namespace DirAt

/-- Writing an entry, by what it does to the table. -/
lemma written {src : ℕ → UInt8} {o : Option ℕ} (d : DirAt sb s e x)
    (w : BytesWritten sb s s' e x (Dirent.SIZE * k) Dirent.SIZE src)
    (hk : k ≤ (dirSlots (s.contents x)).length)
    (hslot : (Dirent.decode ((List.range Dirent.SIZE).map src)).slot = o.map (canon name, ·))
    (hdist : Slots.Distinct (Slots.put (dirSlots (s.contents x)) k (o.map (canon name, ·))))
    (hbind : ∀ key, Slots.lookup (Slots.put (dirSlots (s.contents x)) k (o.map (canon name, ·)))
      key =
      if key = canon name then o else Slots.lookup (dirSlots (s.contents x)) key) :
    Rebound sb s s' e x k name o := by
  have hoff := mul_le_of_le_dirSlots hk
  have hslots : dirSlots (s'.contents x) =
      Slots.put (dirSlots (s.contents x)) k (o.map (canon name, ·)) := by
    rw [w.contents, dirSlots_overwrite d.whole hoff (by simp), hslot]
  have htype : (s'.inode e).type = T_DIR := by
    obtain ⟨v, hv, hinode⟩ := w.edited.inode
    rw [hinode, Function.update_self, ← d.type]
    exact hv
  have hwhole : (s'.contents x).length % Dirent.SIZE = 0 := by
    have hw := d.whole
    have hS := Dirent.SIZE_eq
    rw [w.contents, length_overwrite hoff, List.length_map, List.length_range]
    rw [hS] at hw ⊢
    omega
  exact ⟨⟨⟨⟨w.owned, w.edited.live d.live, w.held.trans d.held, htype⟩, hwhole⟩, hslots ▸ hdist⟩,
    hslots,
    fun name' => by rw [binding, hslots, hbind, binding], w.fields, w.others⟩

/-- `dirlink` of a name that is bound. -/
lemma dirlink_bound (d : DirAt sb s e x) (hdisk : sb.size ≤ s.disksize)
    (hb : s.binding x name ≠ none) (hm : (Fs.dirlink e name inum).Meets Act.exec (Ample sb) s) :
    ∃ s', Yields (Fs.dirlink e name inum) s (-1) s' ∧ Untouched s s' := by
  obtain ⟨r, s₁, hy, hl⟩ := d.toWholeDir.dirlookup hdisk hm.left
  obtain ⟨hnone, -, -⟩ | ⟨_, e', k, -, rfl, -, g⟩ := binding_of_looked hl
  · exact absurd hnone hb
  · obtain ⟨s₂, hput, hsame⟩ := g.iput
    exact ⟨s₂, hy.seq (hput.seq .pure), hsame⟩

/-- `dirlink` of a name that is not bound. -/
lemma dirlink_new (d : DirAt sb s e x) (rd : Ready sb s) (h0 : 0 < inum) (hlt : inum < 65536)
    (hb : s.binding x name = none) (hmax : (s.node x).size.toNat < MAXFILE * BSIZE)
    (hm : (Fs.dirlink e name inum).Meets Act.exec (Ample sb) s) :
    ∃ s', Yields (Fs.dirlink e name inum) s 0 s' ∧
      Rebound sb s s' e x ((dirSlots (s.contents x)).findIdx Option.isNone) name (some inum) := by
  obtain ⟨r, s₁, hy, hl⟩ := d.toWholeDir.dirlookup rd.disk hm.left
  have hrest := hm.right hy
  obtain ⟨-, rfl, rfl⟩ | ⟨_, e', k, hsome, -, -, -⟩ := binding_of_looked hl
  case inr => exact absurd (hb.symm.trans hsome) (by simp)
  dsimp only at hrest
  have hrest₁ := hrest.right Yields.getInode
  rw [d.toWholeDir.offsets, List.length_map, List.length_range, List.range_eq_range'] at hrest₁
  have hempty := d.toWholeDir.emptyDirent rd.disk (Nat.zero_add _) hrest₁.left
  rw [List.drop_zero, Nat.zero_add] at hempty
  have hwrite := hrest₁.right hempty
  obtain ⟨k, hk⟩ : ∃ k, (dirSlots (s₁.contents x)).findIdx Option.isNone = k := ⟨_, rfl⟩
  have hle : k ≤ (dirSlots (s₁.contents x)).length := hk ▸ List.findIdx_le_length
  have hoff := mul_le_of_le_dirSlots hle
  rw [hk] at hempty hwrite ⊢
  have hfit : WriteFits (Dirent.SIZE * k) (s₁.node x).size.toNat Dirent.SIZE := by
    have hM := MAXFILE_mul_BSIZE
    have hS := Dirent.SIZE_eq
    rw [length_contents, hS] at hoff
    rw [WriteFits, hS]
    omega
  obtain ⟨s', hw, w⟩ := writei_bytes d.owned d.live rd d.held (by rw [d.type]; decide)
    hfit hwrite.left
  have hfree : ∀ p, (dirSlots (s₁.contents x))[k]? ≠ some (some p) := fun p hp => by
    obtain ⟨hlt, hget⟩ := List.getElem?_eq_some_iff.1 hp
    have hnone := @List.findIdx_getElem _ Option.isNone (dirSlots (s₁.contents x)) (by omega)
    simp only [hk, hget] at hnone
    exact absurd hnone (by simp)
  refine ⟨s', hy.seq (Yields.getInode.seq ?_), d.written w hle (slot_byte h0 hlt)
    (d.distinct.put_new hle hb) fun key => d.distinct.lookup_put hle hfree hb⟩
  dsimp only
  rw [d.toWholeDir.offsets, List.length_map, List.length_range, List.range_eq_range']
  refine hempty.seq (Yields.seq hw ?_)
  rw [if_neg (by simp)]
  exact .pure

/-- Writing zeros over an entry. -/
lemma clear (d : DirAt sb s e x) (rd : Ready sb s)
    (hk : (dirSlots (s.contents x))[k]? = some (some (canon name, inum)))
    (hm : (Fs.writei e (fun _ => 0) (Dirent.SIZE * k) Dirent.SIZE).Meets Act.exec (Ample sb) s) :
    ∃ s', Yields (Fs.writei e (fun _ => 0) (Dirent.SIZE * k) Dirent.SIZE) s Dirent.SIZE s' ∧
      Rebound sb s s' e x k name none := by
  have hlt := (List.getElem?_eq_some_iff.1 hk).1
  have hfit : WriteFits (Dirent.SIZE * k) (s.node x).size.toNat Dirent.SIZE := by
    have hM := MAXFILE_mul_BSIZE
    have hS := Dirent.SIZE_eq
    obtain ⟨ino, c⟩ := d.owned.content
    have hx := c.cached.lt_of_live d.live
    have hmax := (c.good.filled x hx (c.cached.type_of_live d.live) (by
      rw [← c.cached.eq_of_live d.live, d.type]
      decide)).le_max
    rw [← c.node_eq hx] at hmax
    rw [length_dirSlots, length_contents, hS] at hlt
    rw [WriteFits, hS]
    omega
  obtain ⟨s', hw, w⟩ := writei_bytes d.owned d.live rd d.held (by rw [d.type]; decide) hfit hm
  exact ⟨s', hw, d.written w hlt.le slot_zeros (d.distinct.clear hlt.le)
    fun key => d.distinct.lookup_clear hk⟩

end DirAt

/-- A directory is a finite map from names, as far as an entry keeps them, to inode numbers.  If the
kernel has what is asked of it, `dirlookup` returns the inode that a name is bound to and the offset
of its entry, or nothing if the name is not bound; `dirlink` returns -1 and leaves everything as it
is if the name is bound, and otherwise it binds the name in the first free entry or at the end;
writing zeros over an entry removes its binding.  The directory stays one, and nothing changes in
other inodes. -/
theorem directory_finite_map (d : DirAt sb s e x) :
    (∀ name, sb.size ≤ s.disksize → (Fs.dirlookup e name).Meets Act.exec (Ample sb) s →
      (s.binding x name = none → (Fs.dirlookup e name).run Act.exec s = .ok none s) ∧
      ∀ inum, s.binding x name = some inum → ∃ e' k s',
        (Fs.dirlookup e name).run Act.exec s = .ok (some (e', Dirent.SIZE * k)) s' ∧
        (dirSlots (s.contents x))[k]? = some (some (canon name, inum)) ∧ Referenced s s' e' inum) ∧
    (∀ name inum, 0 < inum → inum < 65536 → Ready sb s →
      (Fs.dirlink e name inum).Meets Act.exec (Ample sb) s →
      (s.binding x name ≠ none →
        ∃ s', (Fs.dirlink e name inum).run Act.exec s = .ok (-1) s' ∧ Untouched s s') ∧
      (s.binding x name = none → (s.node x).size.toNat < MAXFILE * BSIZE →
        ∃ s', (Fs.dirlink e name inum).run Act.exec s = .ok 0 s' ∧
          Rebound sb s s' e x ((dirSlots (s.contents x)).findIdx Option.isNone) name (some inum))) ∧
    ∀ (k : ℕ) name inum, (dirSlots (s.contents x))[k]? = some (some (canon name, inum)) →
    Ready sb s →
      (Fs.writei e (fun _ => 0) (Dirent.SIZE * k) Dirent.SIZE).Meets Act.exec (Ample sb) s →
      ∃ s', (Fs.writei e (fun _ => 0) (Dirent.SIZE * k) Dirent.SIZE).run Act.exec s =
        .ok Dirent.SIZE s' ∧
        Rebound sb s s' e x k name none := by
  refine ⟨fun name hdisk hm => ?_, fun name inum h0 hlt rd hm =>
    ⟨fun hb => d.dirlink_bound rd.disk hb hm,
    fun hb hmax => d.dirlink_new rd h0 hlt hb hmax hm⟩, fun k name inum hk rd hm =>
    d.clear rd hk hm⟩
  obtain ⟨r, s', hy, hl⟩ := d.toWholeDir.dirlookup hdisk hm
  obtain ⟨hnone, rfl, rfl⟩ | ⟨inum, e', k, hsome, rfl, hk, g⟩ := binding_of_looked hl
  · exact ⟨fun _ => hy, fun inum hsome => absurd (hnone.symm.trans hsome) (by simp)⟩
  · refine ⟨fun hnone => absurd (hnone.symm.trans hsome) (by simp), fun inum' hsome' => ?_⟩
    obtain rfl : inum = inum' := Option.some_inj.1 (hsome.symm.trans hsome')
    exact ⟨e', k, s', hy, hk, g⟩

instance (s : FsState) (e : InodeId) (x : ℕ) : Decidable (Live s e x) :=
  decidable_of_iff (0 < (s.inode e).ref ∧ (s.inode e).valid = true ∧ (s.inode e).inum = x)
    ⟨fun h => ⟨h.1, h.2.1, h.2.2⟩, fun h => ⟨h.1, h.2, h.3⟩⟩

set_option synthInstance.maxSize 256 in
/-- In the root directory, after a file has been created: the file is found, its name cannot be
linked again, another name can, and the file's entry can be removed. -/
theorem directory_finite_map_small : ∃ es s s₁, Fs.RoomyRun (Fs.smallSb 20) (Fs.small 20) es s ∧
    Fs.beginTrans.run Act.exec s = .ok () s₁ ∧ DirAt (Fs.smallSb 20) s₁ Fs.rootEntry ROOTINO ∧
    (∃ e' k s', (Fs.dirlookup Fs.rootEntry [97]).run Act.exec s₁ =
      .ok (some (e', Dirent.SIZE * k)) s' ∧
      (dirSlots (s₁.contents ROOTINO))[k]? = some (some (canon [97], 2)) ∧ Referenced s₁ s' e' 2) ∧
    (∃ s', (Fs.dirlink Fs.rootEntry [97] 2).run Act.exec s₁ = .ok (-1) s' ∧ Untouched s₁ s') ∧
    (∃ s', (Fs.dirlink Fs.rootEntry [98] 2).run Act.exec s₁ = .ok 0 s' ∧
      Rebound (Fs.smallSb 20) s₁ s' Fs.rootEntry ROOTINO
        ((dirSlots (s₁.contents ROOTINO)).findIdx Option.isNone) [98] (some 2)) ∧
    ∃ s', (Fs.writei Fs.rootEntry (fun _ => 0) (Dirent.SIZE * 2) Dirent.SIZE).run Act.exec s₁ =
      .ok Dirent.SIZE s' ∧
      Rebound (Fs.smallSb 20) s₁ s' Fs.rootEntry ROOTINO 2 [97] none := by
  obtain ⟨es, s, h, u, d, hlive, ht, hdir, hsize, ha, hb, hslot, hla, hda, hdb, hz⟩ : ∃ es s,
      Fs.RoomyRun (Fs.smallSb 20) (Fs.small 20) es s ∧ s.Unlocked Fs.rootEntry ∧
      OnDisk (Fs.smallSb 20) s ∧
      Live s Fs.rootEntry ROOTINO ∧ (s.inode Fs.rootEntry).type = T_DIR ∧
      IsDirectory (s.contents ROOTINO) ∧
      (s.node ROOTINO).size.toNat < MAXFILE * BSIZE ∧ s.binding ROOTINO [97] = some 2 ∧
      s.binding ROOTINO [98] = none ∧ (dirSlots (s.contents ROOTINO))[2]? =
      some (some (canon [97], 2)) ∧
      (Fs.dirlookup Fs.rootEntry [97]).Meets Act.exec (Ample (Fs.smallSb 20)) s.begun ∧
      (Fs.dirlink Fs.rootEntry [97] 2).Meets Act.exec (Ample (Fs.smallSb 20)) s.begun ∧
      (Fs.dirlink Fs.rootEntry [98] 2).Meets Act.exec (Ample (Fs.smallSb 20)) s.begun ∧
      (Fs.writei Fs.rootEntry (fun _ => 0) (Dirent.SIZE * 2) Dirent.SIZE).Meets Act.exec
      (Ample (Fs.smallSb 20)) s.begun :=
    Run.exists_of_exec _ [Fs.Event.call Fs.initproc (.open (some [97]) 0x202)] (by decide +kernel)
  obtain ⟨hy, hown, rd⟩ := Yields.beginTrans (Roomy.of_run (small_wellFormed (by decide))
    h).sound.inv u.log d
  have hd : DirAt (Fs.smallSb 20) s.begun Fs.rootEntry ROOTINO :=
    ⟨⟨⟨hown, ⟨hlive.ref, hlive.valid, hlive.inum⟩, u.held, ht⟩, hdir.whole⟩, hdir.distinct⟩
  obtain ⟨hlookup, hlink, hclear⟩ := directory_finite_map hd
  have hlinked : s.begun.binding ROOTINO [97] ≠ none := by
    rw [show s.begun.binding ROOTINO [97] = some 2 from ha]
    simp
  exact ⟨es, s, _, h, hy, hd, (hlookup [97] rd.disk hla).2 2 ha,
    (hlink [97] 2 (by decide) (by decide) rd hda).1 hlinked,
    (hlink [98] 2 (by decide) (by decide) rd hdb).2 hb hsize, hclear 2 [97] 2 hslot rd hz⟩

lemma BlocksOwned.setHeld (h : BlocksOwned sb s) (l : List ℕ) : BlocksOwned sb (s.setHeld l) := by
  obtain ⟨ino, c⟩ := h.content
  exact ⟨⟨ino, c.setHeld l⟩, h.pinned, h.reading⟩

/-- While ten other processes each wait for the disk with a buffer, the file that has just been
created is not found. -/
theorem dirlookup_no_buffer : ∃ es s, Fs.RoomyRun (Fs.smallSb 20) (Fs.small 20) es s ∧
    BlocksOwned (Fs.smallSb 20) (s.setHeld (List.range' 6 10)) ∧
    Live (s.setHeld (List.range' 6 10)) Fs.rootEntry ROOTINO ∧
    ((s.setHeld (List.range' 6 10)).inode Fs.rootEntry).type = T_DIR ∧
    IsDirectory ((s.setHeld (List.range' 6 10)).contents ROOTINO) ∧
    (s.setHeld (List.range' 6 10)).binding ROOTINO [97] = some 2 ∧
    ∃ t, (Fs.dirlookup Fs.rootEntry [97]).run Act.exec (s.setHeld (List.range' 6 10)) =
      .error (.panic "bget: no buffers") t := by
  obtain ⟨es, s, h, hlive, ht, hdir, hbind, hw⟩ : ∃ es s,
      Fs.RoomyRun (Fs.smallSb 20) (Fs.small 20) es s ∧
      Live s Fs.rootEntry ROOTINO ∧ (s.inode Fs.rootEntry).type = T_DIR ∧
      IsDirectory (s.contents ROOTINO) ∧ s.binding ROOTINO [97] = some 2 ∧
      Wp ((Fs.dirlookup Fs.rootEntry [97]).run Act.exec) (fun _ _ => False)
        (fun r _ => r = .panic "bget: no buffers") (s.setHeld (List.range' 6 10)) :=
    Run.exists_of_exec _ [Fs.Event.call Fs.initproc (.open (some [97]) 0x202)] (by decide +kernel)
  obtain ⟨_, t, hstop, rfl⟩ := hw.stops
  have hown := (Roomy.of_run (small_wellFormed (by decide)) h).sound.inv.blocksOwned
  exact ⟨es, s, h, hown.setHeld _, hlive.setHeld _, ht, hdir, hbind, t, hstop⟩

end Xv6
