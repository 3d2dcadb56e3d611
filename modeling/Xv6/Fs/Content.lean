import Xv6.Fs.Blocks

/-!
# The content of inodes

Rules for `bmap`, `itrunc`, `readi` and `writei`.  `Consistent sb s ino unsaved` is what holds
between the steps of these functions: the inode cache and the disk show the inodes `ino`, of
which those in `unsaved` have been changed in the cache and not yet been written back.
-/

namespace Xv6

open Lib FsState

/-! ## The inode cache and the disk -/

/-- The entries in use of the inode cache are of different inodes, and show them. -/
structure Cached (sb : Superblock) (s : FsState) (ino : ℕ → DInode) (unsaved : List ℕ) :
    Prop where
  dev : ∀ e, 0 < (s.inode e).ref → (s.inode e).dev = ROOTDEV
  inum : ∀ e, 0 < (s.inode e).ref → (s.inode e).inum < sb.ninodes
  uniq : ∀ e e', 0 < (s.inode e).ref → 0 < (s.inode e').ref →
    (s.inode e).inum = (s.inode e').inum → e = e'
  valid : ∀ e, 0 < (s.inode e).ref → (s.inode e).valid = true →
    (s.inode e).toDInode = ino (s.inode e).inum ∧ (ino (s.inode e).inum).type ≠ 0
  disk : ∀ x < sb.ninodes, x ∉ unsaved → dinodeAt s.home x = ino x
  cached : ∀ x ∈ unsaved, ∃ e, 0 < (s.inode e).ref ∧ (s.inode e).valid = true ∧
    (s.inode e).inum = x

/-- The file system is mounted, its inodes are `ino`, and blocks have one owner each. -/
structure Consistent (sb : Superblock) (s : FsState) (ino : ℕ → DInode) (unsaved : List ℕ)
    (D : ℕ → Prop := fun _ => True) : Prop where
  mounted : Mounted sb s
  cached : Cached sb s ino unsaved
  good : Good sb s.home ino [] D

/-- Entry `e` of the inode cache is in use, valid and of inode `x`. -/
structure Live (s : FsState) (e : InodeId) (x : ℕ) : Prop where
  ref : 0 < (s.inode e).ref
  valid : (s.inode e).valid = true
  inum : (s.inode e).inum = x

variable {mode : Mode} {sb : Superblock} {s s₁ s₂ s' : FsState} {ino ino₁ ino₂ : ℕ → DInode}
    {unsaved : List ℕ}
  {h : ℕ → Block} {e e' : InodeId} {x y b bn : ℕ} {v : DInode} {D : ℕ → Prop}

lemma Cached.dev_of_live (c : Cached sb s ino unsaved) (l : Live s e x) :
    (s.inode e).dev = ROOTDEV := c.dev e l.ref

lemma Cached.lt_of_live (c : Cached sb s ino unsaved) (l : Live s e x) : x < sb.ninodes :=
  l.inum ▸ c.inum e l.ref

lemma Cached.eq_of_live (c : Cached sb s ino unsaved) (l : Live s e x) :
    (s.inode e).toDInode = ino x := by
  rw [(c.valid e l.ref l.valid).1, l.inum]

lemma Cached.type_of_live (c : Cached sb s ino unsaved) (l : Live s e x) : (ino x).type ≠ 0 := by
  have := (c.valid e l.ref l.valid).2
  rwa [l.inum] at this

/-- Writes to blocks that hold no saved inode. -/
lemma Cached.wrote (c : Cached sb s ino unsaved) (w : Wrote s h s')
    (hdisk : ∀ y < sb.ninodes, y ∉ unsaved → dinodeAt h y = dinodeAt s.home y) :
    Cached sb s' ino unsaved := by
  refine ⟨?_, ?_, ?_, ?_, fun y hy hyu => ?_, ?_⟩
  · rw [w.inode]
    exact c.dev
  · rw [w.inode]
    exact c.inum
  · rw [w.inode]
    exact c.uniq
  · rw [w.inode]
    exact c.valid
  · rw [w.home, hdisk y hy hyu]
    exact c.disk y hy hyu
  · rw [w.inode]
    exact c.cached

/-- The number of an entry in use tells it apart. -/
lemma Cached.inum_ne (c : Cached sb s ino unsaved) (l : Live s e x) (hne : e' ≠ e)
    (href : 0 < (s.inode e').ref) : (s.inode e').inum ≠ x :=
  fun heq => hne (c.uniq e' e href l.ref (heq.trans l.inum.symm))

/-- Changing a valid entry changes what the cache shows of its inode. -/
lemma Cached.setInode (c : Cached sb s ino unsaved) (l : Live s e x) (hv : v.type ≠ 0) :
    Cached sb (s.setInode e { s.inode e with toDInode := v }) (Function.update ino x v)
      (x :: unsaved) := by
  have hfields : ∀ e', (((s.setInode e { s.inode e with toDInode := v }).inode e').dev =
      (s.inode e').dev ∧ ((s.setInode e { s.inode e with toDInode := v }).inode e').inum =
      (s.inode e').inum ∧ ((s.setInode e { s.inode e with toDInode := v }).inode e').ref =
      (s.inode e').ref ∧ ((s.setInode e { s.inode e with toDInode := v }).inode e').valid =
      (s.inode e').valid) := by
    intro e'
    by_cases he : e' = e
    · subst he
      simp
    · simp [setInode_inode_of_ne he]
  refine ⟨fun e' => ?_, fun e' => ?_, fun e' e'' => ?_, fun e' => ?_, fun y hy hyu => ?_,
    fun y hy => ?_⟩
  · rw [(hfields e').1, (hfields e').2.2.1]
    exact c.dev e'
  · rw [(hfields e').2.1, (hfields e').2.2.1]
    exact c.inum e'
  · rw [(hfields e').2.1, (hfields e').2.2.1, (hfields e'').2.1, (hfields e'').2.2.1]
    exact c.uniq e' e''
  · rw [(hfields e').2.1, (hfields e').2.2.1, (hfields e').2.2.2]
    intro href hvalid
    by_cases he : e' = e
    · subst he
      rw [setInode_inode_self, l.inum, Function.update_self]
      exact ⟨rfl, hv⟩
    · rw [setInode_inode_of_ne he, Function.update_of_ne (c.inum_ne l he href)]
      exact c.valid e' href hvalid
  · rw [List.mem_cons, not_or] at hyu
    rw [Function.update_of_ne hyu.1]
    exact c.disk y hy hyu.2
  · rcases List.mem_cons.1 hy with rfl | hy
    · exact ⟨e, by rw [(hfields e).2.2.1]; exact l.ref, by rw [(hfields e).2.2.2]; exact l.valid,
        by rw [(hfields e).2.1]; exact l.inum⟩
    · obtain ⟨e', h1, h2, h3⟩ := c.cached y hy
      exact ⟨e', by rw [(hfields e').2.2.1]; exact h1, by rw [(hfields e').2.2.2]; exact h2,
        by rw [(hfields e').2.1]; exact h3⟩

/-! ## The other inodes -/

/-- From `s` to `s'` every inode other than `x` stays as it is, with its blocks. -/
structure Others (sb : Superblock) (s : FsState) (ino : ℕ → DInode) (x : ℕ) (s' : FsState)
    (ino' : ℕ → DInode) : Prop where
  node : ∀ y, y ≠ x → ino' y = ino y
  data : ∀ y k b, y ≠ x → own sb s.home ino (y, k) = some b → s'.home b = s.home b

namespace Others

lemma refl (sb : Superblock) (s : FsState) (ino : ℕ → DInode) (x : ℕ) : Others sb s ino x s ino :=
  ⟨fun _ _ => rfl, fun _ _ _ _ _ => rfl⟩

lemma slot (o : Others sb s ino x s' ino₁) (hyx : y ≠ x) (hy : y < sb.ninodes)
    (ht : (ino y).type ≠ 0) (k : ℕ) : slotOf s'.home (ino y) k = slotOf s.home (ino y) k := by
  refine slotOf_congr (fun _ _ => rfl) (fun hz => ?_) k
  refine o.data y NDIRECT _ hyx (own_eq_some.2 ⟨hy, ht, ?_, hz⟩)
  rw [slotOf, if_pos le_rfl]

lemma own (o : Others sb s ino x s' ino₁) (hyx : y ≠ x) (k : ℕ) :
    own sb s'.home ino₁ (y, k) = own sb s.home ino (y, k) := by
  by_cases hl : y < sb.ninodes ∧ (ino y).type ≠ 0
  · rw [Xv6.own, Xv6.own, o.node y hyx, o.slot hyx hl.1 hl.2]
  · rw [Xv6.own, Xv6.own, o.node y hyx, if_neg fun hc => hl ⟨hc.1, hc.2.1⟩,
      if_neg fun hc => hl ⟨hc.1, hc.2.1⟩]

lemma trans (o₁ : Others sb s ino x s₁ ino₁) (o₂ : Others sb s₁ ino₁ x s₂ ino₂) :
    Others sb s ino x s₂ ino₂ := by
  refine ⟨fun y hy => (o₂.node y hy).trans (o₁.node y hy), fun y k b hy hown => ?_⟩
  rw [o₂.data y k b hy ((o₁.own hy k).trans hown), o₁.data y k b hy hown]

end Others

/-! ## Mapping blocks -/

/-- From `s` to `s'` inode `x`, cached as `e`, has perhaps been given more blocks.  The blocks
that it had stay in their places, and the data in them too. -/
structure Grown (sb : Superblock) (s : FsState) (ino : ℕ → DInode) (e : InodeId) (x : ℕ)
    (s' : FsState) (ino' : ℕ → DInode) : Prop where
  others : Others sb s ino x s' ino'
  fields : { ino' x with addrs := (ino x).addrs } = ino x
  slot : ∀ k, slotOf s.home (ino x) k ≠ 0 → slotOf s'.home (ino' x) k = slotOf s.home (ino x) k
  data : ∀ k, k ≠ NDIRECT → slotOf s.home (ino x) k ≠ 0 →
    s'.home (slotOf s.home (ino x) k) = s.home (slotOf s.home (ino x) k)
  inode : s'.inode = Function.update s.inode e { s.inode e with toDInode := ino' x }
  file : s'.file = s.file
  proc : s'.proc = s.proc
  held : s'.held = s.held
  start : s'.log.start = s.log.start
  reading : s'.seen.reading = s.seen.reading

namespace Grown

lemma pinned (g : Grown sb s ino e x s' ino₁) (hp : Pinned s) : Pinned s' := by
  intro f e' hf
  rw [g.file] at hf
  have hpin := hp f e' hf
  rw [g.inode]
  by_cases he : e' = e
  · subst he
    rw [Function.update_self]
    exact hpin
  · rwa [Function.update_of_ne he]

lemma refl (c : Cached sb s ino unsaved) (l : Live s e x) : Grown sb s ino e x s ino := by
  refine ⟨.refl sb s ino x, rfl, fun _ _ => rfl, fun _ _ _ => rfl, ?_, rfl, rfl, rfl, rfl, rfl⟩
  rw [← c.eq_of_live l]
  exact (Function.update_eq_self e s.inode).symm

lemma trans (g₁ : Grown sb s ino e x s₁ ino₁) (g₂ : Grown sb s₁ ino₁ e x s₂ ino₂) :
    Grown sb s ino e x s₂ ino₂ := by
  refine ⟨g₁.others.trans g₂.others, ?_, fun k hk => ?_, fun k hk hne => ?_,
    ?_, g₂.file.trans g₁.file, g₂.proc.trans g₁.proc, g₂.held.trans g₁.held,
    g₂.start.trans g₁.start, g₂.reading.trans g₁.reading⟩
  · rw [← g₁.fields, ← g₂.fields]
  · have hk₁ := g₁.slot k hk
    rw [g₂.slot k (by rwa [hk₁]), hk₁]
  · have hk₁ := g₁.slot k hne
    have hdata := g₂.data k hk (by rwa [hk₁])
    rw [hk₁] at hdata
    rw [hdata, g₁.data k hk hne]
  · rw [g₂.inode, g₁.inode]
    simp

lemma type (g : Grown sb s ino e x s' ino₁) : (ino₁ x).type = (ino x).type := by
  rw [← g.fields]

lemma size (g : Grown sb s ino e x s' ino₁) : (ino₁ x).size = (ino x).size := by
  rw [← g.fields]

/-- The entry stays live. -/
lemma live (g : Grown sb s ino e x s' ino₁) (l : Live s e x) : Live s' e x := by
  have he : s'.inode e = { s.inode e with toDInode := ino₁ x } := by
    rw [g.inode, Function.update_self]
  exact ⟨by rw [he]; exact l.ref, by rw [he]; exact l.valid, by rw [he]; exact l.inum⟩

lemma filled (g : Grown sb s ino e x s' ino₁) {lim : ℕ} (hf : Filled s.home (ino x) lim) :
    Filled s'.home (ino₁ x) lim := by
  intro bn hbn
  rw [g.slot _ (hf bn hbn)]
  exact hf bn hbn

lemma entries (g : Grown sb s ino e x s' ino₁) {lim : ℕ} (hf : Filled s.home (ino x) lim)
    (he : Entries sb s.home (ino x) lim) : Entries sb s'.home (ino₁ x) lim := by
  intro off ho hlt
  have hne := hf (off / BSIZE) (lt_of_le_of_lt (Nat.div_mul_le_self off BSIZE) hlt)
  rw [g.slot _ hne, g.data _ fileSlot_ne hne]
  exact he off ho hlt

/-- Releasing a buffer that was taken before. -/
lemma release (g : Grown sb (s.setHeld (b :: s.held)) ino e x s' ino₁) :
    Grown sb s ino e x (s'.setHeld (s'.held.erase b)) ino₁ :=
  ⟨⟨g.others.node, g.others.data⟩, g.fields, g.slot, g.data, g.inode, g.file,
    g.proc, by simp [g.held], g.start, g.reading⟩

end Grown

lemma Consistent.setHeld (c : Consistent sb s ino unsaved D) (l : List ℕ) :
    Consistent sb (s.setHeld l) ino unsaved D :=
  ⟨c.mounted.setHeld l, ⟨c.cached.dev, c.cached.inum, c.cached.uniq, c.cached.valid, c.cached.disk,
    c.cached.cached⟩, c.good⟩

lemma Live.setHeld (l : Live s e x) (bs : List ℕ) : Live (s.setHeld bs) e x :=
  ⟨l.ref, l.valid, l.inum⟩

/-- An inode that is cached may be listed as unsaved. -/
lemma Consistent.cons (c : Consistent sb s ino unsaved D) (l : Live s e x) :
    Consistent sb s ino (x :: unsaved) D := by
  refine ⟨c.mounted, ⟨c.cached.dev, c.cached.inum, c.cached.uniq, c.cached.valid,
    fun y hy hyu => c.cached.disk y hy fun hmem => hyu (List.mem_cons_of_mem x hmem),
    fun y hy => ?_⟩, c.good⟩
  rcases List.mem_cons.1 hy with rfl | hy
  · exact ⟨e, l.ref, l.valid, l.inum⟩
  · exact c.cached.cached y hy

/-- The blocks of an inode are not in the log area. -/
lemma Consistent.blk_slot (c : Consistent sb s ino unsaved D) (l : Live s e x) {k : ℕ}
    (hk : slotOf s.home (ino x) k ≠ 0) :
    slotOf s.home (ino x) k < s.log.start ∧
      s.blk (slotOf s.home (ino x) k) = s.home (slotOf s.home (ino x) k) := by
  have hrange := c.good.range (c.cached.lt_of_live l) (c.cached.type_of_live l) hk
  have hlt : slotOf s.home (ino x) k < s.log.start := by
    rw [c.mounted.start]
    exact hrange.2.2.1
  exact ⟨hlt, (home_of_lt hlt).symm⟩

/-- A block that is free is taken: it is in no place of an inode, and nothing that is owned
changes. -/
lemma Consistent.alloc_data (c : Consistent sb s ino unsaved D) (hb : b < sb.logStart)
    (hfree : bitOf sb s.home b = false) (w : Wrote s (allocHome sb s.home b) s') {l : ℕ × ℕ}
    {i : ℕ} (hown : own sb s.home ino l = some i) : i ≠ b ∧ s'.home i = s.home i := by
  obtain ⟨⟨hlo, -⟩, hset⟩ := c.good.owns.held l i hown
  have hbsize : b < sb.size := hb.trans_le (Nat.sub_le _ _)
  have hbmd := sb.bblock_lt_dataStart hbsize
  have hne : i ≠ b := by
    rintro rfl
    rw [hfree] at hset
    exact absurd hset (by simp)
  refine ⟨hne, ?_⟩
  rw [w.home, allocHome, Function.update_of_ne hne, Function.update_of_ne (by omega)]

/-- A block is allocated for inode `x`: it is pending, and everything else stays. -/
lemma Consistent.balloc (c : Consistent sb s ino unsaved D) (l : Live s e x) (hb : b < sb.logStart)
    (hfree : bitOf sb s.home b = false) (w : Wrote s (allocHome sb s.home b) s') :
    Mounted sb s' ∧ Cached sb s' ino unsaved ∧ Good sb s'.home ino [b] D ∧
      Grown sb s ino e x s' ino ∧
      (∀ k, slotOf s.home (ino x) k ≠ 0 →
        s'.home (slotOf s.home (ino x) k) = s.home (slotOf s.home (ino x) k)) ∧
      s'.home b = fun _ => 0 := by
  have g : Good sb (allocHome sb s.home b) ino [b] D := c.good.balloc c.mounted.sound hb hfree
  have hx := c.cached.lt_of_live l
  have ht := c.cached.type_of_live l
  have hdata : sb.dataStart ≤ b := (g.owns.pending b (by simp)).1.1
  have hbm := sb.three_le_bblock b
  have hds := sb.three_le_dataStart
  have hslot : ∀ k, slotOf s.home (ino x) k ≠ 0 →
      s'.home (slotOf s.home (ino x) k) = s.home (slotOf s.home (ino x) k) :=
    fun k hk => (c.alloc_data hb hfree w (own_slotOf hx ht hk)).2
  refine ⟨c.mounted.wrote w ?_, c.cached.wrote w fun y hy _ => ?_, ?_,
    ⟨⟨fun _ _ => rfl, fun y k i _ hown => (c.alloc_data hb hfree w hown).2⟩, rfl,
    fun k _ => ?_, fun k _ hk => hslot k hk, ?_, w.file, w.proc, w.held, w.start, w.reading⟩,
    hslot, ?_⟩
  · rw [allocHome, Function.update_of_ne (by omega), Function.update_of_ne (by omega)]
  · have hlt := sb.iblock_lt_dataStart hy
    rw [allocHome, dinodeAt_update_of_ne (by omega), dinodeAt_update hy (sb.le_bblock b)]
  · rw [w.home]
    exact g
  · refine slotOf_congr (fun _ _ => rfl) (fun hz => ?_) k
    have hind := hslot NDIRECT
    rw [slotOf, if_pos le_rfl] at hind
    exact hind hz
  · rw [w.inode, ← c.cached.eq_of_live l]
    exact (Function.update_eq_self e s.inode).symm
  · rw [w.home, allocHome, Function.update_self]

/-- The monitor does not object to the block that `balloc` returns. -/
lemma Consistent.watched (c : Consistent sb s ino unsaved D) (hp : Pinned s) (hb : b < sb.logStart)
    (hfree : bitOf sb s.home b = false) (w : Wrote s (allocHome sb s.home b) s') :
    Watched (.ballocDone b) s' := by
  refine ⟨hp.wrote w, fun e href hval k heq => ?_⟩
  rw [w.inode] at href hval heq
  obtain ⟨hv, ht⟩ := c.cached.valid e href hval
  have hx := c.cached.inum e href
  have hown : ∀ j i, slotOf s.home (ino (s.inode e).inum) j = i → i ≠ 0 →
      i ≠ b ∧ s'.blk i = s.home i := by
    intro j i hi hi0
    have hi' : own sb s.home ino ((s.inode e).inum, j) = some i :=
      own_eq_some.2 ⟨hx, ht, hi, hi0⟩
    obtain ⟨hne, hsame⟩ := c.alloc_data hb hfree w hi'
    have hlt : i < s'.log.start := by
      rw [w.start, c.mounted.start]
      exact c.good.home _ _ hi'
    exact ⟨hne, (home_of_lt hlt).symm.trans hsame⟩
  have hslot : slotOf s'.blk (ino (s.inode e).inum) k = slotOf s.home (ino (s.inode e).inum) k := by
    refine slotOf_congr (fun _ _ => rfl) (fun hz => ?_) k
    exact (hown NDIRECT _ (by rw [slotOf, if_pos le_rfl]) hz).2
  rw [hv, hslot] at heq
  have hb0 : b ≠ 0 := by
    rintro rfl
    rw [c.good.reserved 0 (by have := sb.three_le_dataStart; omega)] at hfree
    exact absurd hfree (by simp)
  exact (hown k b heq hb0).1 rfl

/-- A pending block becomes an address of the inode. -/
lemma Consistent.putAddr {k : ℕ} (m : Mounted sb s) (c : Cached sb s ino unsaved)
    (g : Good sb s.home ino [b] D) (l : Live s e x) (hk : k ≤ NDIRECT) (hzero : (ino x).addr k = 0)
    (hblank : k = NDIRECT → s.home b = fun _ => 0) :
    Consistent sb (s.setInode e { s.inode e with toDInode := (ino x).setAddr k b })
      (Function.update ino x ((ino x).setAddr k b)) (x :: unsaved) D ∧
    Grown sb s ino e x (s.setInode e { s.inode e with toDInode := (ino x).setAddr k b })
      (Function.update ino x ((ino x).setAddr k b)) ∧ ((ino x).setAddr k b).addr k = b := by
  have hx := c.lt_of_live l
  have ht := c.type_of_live l
  have hb32 : b < 2 ^ 32 := by
    have := (g.owns.pending b (by simp)).1.2
    have := m.sound.small
    omega
  have haddr := fun j => DInode.addr_setAddr (v := ino x) (j := j) hk hb32
  have hslot : ∀ j, slotOf s.home (ino x) j ≠ 0 →
      slotOf s.home ((ino x).setAddr k b) j = slotOf s.home (ino x) j := by
    intro j hj
    by_cases hjd : j ≤ NDIRECT
    · rw [slotOf, if_pos hjd] at hj ⊢
      rw [slotOf, if_pos hjd, haddr, if_neg]
      rintro rfl
      exact hj hzero
    · have hind : (ino x).addr NDIRECT ≠ 0 := by
        intro hz
        rw [slotOf, if_neg hjd, if_pos hz] at hj
        exact hj rfl
      have hkd : NDIRECT ≠ k := by
        rintro rfl
        exact hind hzero
      rw [slotOf, if_neg hjd, haddr, if_neg hkd, slotOf, if_neg hjd]
  refine ⟨⟨m.setInode _ _, c.setInode l ht, g.putAddr m.sound hx ht hk hzero hblank⟩,
    ⟨⟨fun y hy => Function.update_of_ne hy _ _, fun _ _ _ _ _ => rfl⟩, ?_, fun j hj => ?_,
      fun _ _ _ => rfl, ?_, rfl, rfl, rfl, rfl, rfl⟩, by rw [haddr, if_pos rfl]⟩
  · rw [Function.update_self]
    rfl
  · rw [Function.update_self]
    exact hslot j hj
  · rw [Function.update_self]
    rfl

/-- A pending block becomes an entry of the indirect block of the inode. -/
lemma Consistent.putEntry {c j : ℕ} (m : Mounted sb s) (ca : Cached sb s ino unsaved)
    (g : Good sb s.home ino [b] D) (l : Live s e x) (hind : (ino x).addr NDIRECT = c) (hc0 : c ≠ 0)
    (hj : j < NINDIRECT) (hzero : (s.home c).get32 (4 * j) = 0)
    (w : Wrote s (Function.update s.home c ((s.home c).set32 (4 * j) b)) s') :
    Consistent sb s' ino unsaved D ∧ Grown sb s ino e x s' ino ∧
      slotOf s'.home (ino x) (NDIRECT + 1 + j) = b := by
  have hD := NDIRECT_eq
  have hx := ca.lt_of_live l
  have ht := ca.type_of_live l
  have hcx : slotOf s.home (ino x) NDIRECT = c := by rw [slotOf, if_pos le_rfl, hind]
  have hrange := g.range hx ht (k := NDIRECT) (by rwa [hcx])
  rw [hcx] at hrange
  have hds := sb.three_le_dataStart
  have hjN : 4 * j + 4 ≤ BSIZE := by
    have : NINDIRECT = 128 := rfl
    have : BSIZE = 512 := rfl
    omega
  have hb32 : b < 2 ^ 32 := by
    have := (g.owns.pending b (by simp)).1.2
    have := m.sound.small
    omega
  have hslot : ∀ k, slotOf s'.home (ino x) k =
      if k = NDIRECT + 1 + j then b else slotOf s.home (ino x) k := by
    intro k
    rw [w.home]
    simp only [slotOf, hind, if_neg hc0, Function.update_self]
    by_cases hk : k ≤ NDIRECT
    · rw [if_pos hk, if_pos hk, if_neg (by omega)]
    · rw [if_neg hk, if_neg hk]
      by_cases hkj : k = NDIRECT + 1 + j
      · rw [if_pos hkj, show k - NDIRECT - 1 = j by omega, Bytes.get32_set32_self hjN,
          Nat.mod_eq_of_lt hb32]
      · rw [if_neg hkj, Bytes.get32_set32_of_disj (by omega)]
  have hplace : slotOf s.home (ino x) (NDIRECT + 1 + j) = 0 := by
    rw [slotOf, if_neg (by omega), hind, if_neg hc0, show NDIRECT + 1 + j - NDIRECT -
      1 = j by omega]
    exact hzero
  refine ⟨⟨m.wrote w (Function.update_of_ne (by omega) _ _), ca.wrote w fun y hy _ => ?_, ?_⟩,
    ⟨⟨fun _ _ => rfl, fun y k i hy hown => ?_⟩, rfl, fun k hk => ?_, fun k hk hne => ?_, ?_, w.file,
      w.proc, w.held, w.start, w.reading⟩, by rw [hslot, if_pos rfl]⟩
  · have := sb.iblock_lt_dataStart hy
    exact dinodeAt_update_of_ne (by omega)
  · rw [w.home]
    exact g.putEntry m.sound hx ht hind hc0 hj hzero
  · have hne : i ≠ c := by
      rintro rfl
      have hcx' := own_slotOf (k := NDIRECT) hx ht (hcx.symm ▸ hc0)
      rw [hcx] at hcx'
      exact hy (Prod.mk.inj (g.owns.inj _ _ _ hown hcx')).1
    rw [w.home, Function.update_of_ne hne]
  · rw [hslot, if_neg]
    rintro rfl
    exact hk hplace
  · have hne' := g.slot_ne hx ht hx ht (k := NDIRECT) (j := k)
      (fun heq => hk (Prod.mk.inj heq).2.symm) (by rwa [hcx])
    rw [hcx] at hne'
    rw [w.home, Function.update_of_ne hne']
  · rw [w.inode, ← ca.eq_of_live l]
    exact (Function.update_eq_self e s.inode).symm

lemma slotOf_fileSlot_of_lt (hbn : bn < NDIRECT) : slotOf h v (fileSlot bn) = v.addr bn := by
  rw [fileSlot, if_pos hbn, slotOf, if_pos (by omega)]

/-- The place of a block that the indirect block has. -/
lemma slotOf_fileSlot_of_ge (hbn : NDIRECT ≤ bn) (hind : v.addr NDIRECT ≠ 0) :
    slotOf h v (fileSlot bn) = (h (v.addr NDIRECT)).get32 (4 * (bn - NDIRECT)) := by
  rw [fileSlot, if_neg (by omega), slotOf, if_neg (by omega), if_neg hind,
    show bn + 1 - NDIRECT - 1 = bn - NDIRECT by omega]

namespace Safe

/-- `bmap` of a block that the inode has changes nothing. -/
lemma bmap_hit {Q : ℕ → FsState → Prop} (c : Consistent sb s ino unsaved D) (l : Live s e x)
    (hbn : bn < MAXFILE) (hslot : slotOf s.home (ino x) (fileSlot bn) ≠ 0)
    (h : Q (slotOf s.home (ino x) (fileSlot bn)) s) : Safe sb mode (Fs.bmap e bn) Q s := by
  have hD := NDIRECT_eq
  have hM := MAXFILE_eq
  have hI := NINDIRECT_eq
  have hv := c.cached.eq_of_live l
  refine seq (getInode ?_)
  rw [c.cached.dev_of_live l]
  by_cases hdir : bn < NDIRECT
  · rw [slotOf_fileSlot_of_lt hdir] at h hslot
    rw [if_pos hdir, Fs.bmapAddr, hv, if_neg hslot]
    exact pure h
  · have hind : (ino x).addr NDIRECT ≠ 0 := by
      intro hz
      rw [fileSlot, if_neg hdir, slotOf, if_neg (by omega), if_pos hz] at hslot
      exact hslot rfl
    have hindSlot : slotOf s.home (ino x) NDIRECT = (ino x).addr NDIRECT := by
      rw [slotOf, if_pos le_rfl]
    have hblk := (c.blk_slot l (k := NDIRECT) (by rwa [hindSlot])).2
    rw [hindSlot] at hblk
    rw [slotOf_fileSlot_of_ge (by omega) hind] at h hslot
    rw [if_neg hdir, if_pos (by omega), Fs.bmapAddr, hv, if_neg hind]
    refine seq (pure (seq (bread c.mounted.readAlloc fun _ => seq (data ?_))))
    rw [setHeld_blk, hblk, if_neg hslot]
    refine seq (brelse (by simp) (pure ?_))
    simpa using h

/-- The step of `bmap` that allocates a missing address of `addrs`. -/
lemma bmapAddr {Q : ℕ → FsState → Prop} {k : ℕ} (c : Consistent sb s ino unsaved D) (l : Live s e x)
    (hp : Pinned s) (hread : s.seen.reading = false) (hk : k ≤ NDIRECT) (hzero : (ino x).addr k = 0)
    (h : ∀ b s' ino', Consistent sb s' ino' (x :: unsaved) D → Grown sb s ino e x s' ino' →
      (ino' x).addr k = b → b ≠ 0 → (s'.home b = fun _ => 0) → Q b s') :
    Safe sb mode (Fs.bmapAddr e (s.inode e) k) Q s := by
  rw [Fs.bmapAddr, c.cached.eq_of_live l, if_pos hzero, c.cached.dev_of_live l]
  refine seq (balloc c.mounted c.good.reserved hread (fun b s₁ => c.watched hp)
    fun b s₁ hb hfree w => ?_)
  obtain ⟨m₁, ca₁, g₁, gr₁, -, hblank⟩ := c.balloc l hb hfree w
  have hb0 : b ≠ 0 := by
    have := sb.three_le_dataStart
    have := (g₁.owns.pending b (by simp)).1.1
    omega
  refine seq (setInode (pure ?_))
  obtain ⟨c₂, gr₂, haddr⟩ :=
    Consistent.putAddr m₁ ca₁ g₁ (gr₁.live l) hk hzero fun _ => hblank
  exact h b _ _ c₂ (gr₁.trans gr₂) (by rw [Function.update_self]; exact haddr) hb0 hblank

/-- `bmap` of a block that the inode does not have allocates it, and the indirect block before
if that is missing. -/
lemma bmap_alloc {Q : ℕ → FsState → Prop} (c : Consistent sb s ino unsaved D) (l : Live s e x)
    (hp : Pinned s) (hbn : bn < MAXFILE) (hslot : slotOf s.home (ino x) (fileSlot bn) = 0)
    (hread : s.seen.reading = false)
    (h : ∀ s' ino', Consistent sb s' ino' (x :: unsaved) D → Grown sb s ino e x s' ino' →
      slotOf s'.home (ino' x) (fileSlot bn) ≠ 0 →
      Q (slotOf s'.home (ino' x) (fileSlot bn)) s') : Safe sb mode (Fs.bmap e bn) Q s := by
  have hD := NDIRECT_eq
  have hM := MAXFILE_eq
  have hI := NINDIRECT_eq
  refine seq (getInode ?_)
  rw [c.cached.dev_of_live l]
  by_cases hdir : bn < NDIRECT
  · rw [slotOf_fileSlot_of_lt hdir] at hslot
    rw [if_pos hdir]
    refine bmapAddr c l hp hread hdir.le hslot fun b s' ino' c' g' haddr hb0 _ => ?_
    have hb := h s' ino' c' g'
    rw [slotOf_fileSlot_of_lt hdir, haddr] at hb
    exact hb hb0
  · rw [if_neg hdir, if_pos (by omega)]
    -- either way there is an indirect block, without an entry at this place
    refine call (Q := fun ind s₁ => ∃ ino₁, Consistent sb s₁ ino₁ (x :: unsaved) D ∧
      Grown sb s ino e x s₁ ino₁ ∧ (ino₁ x).addr NDIRECT = ind ∧ ind ≠ 0 ∧
      (s₁.home ind).get32 (4 * (bn - NDIRECT)) = 0) ?_ ?_
    · by_cases hind : (ino x).addr NDIRECT = 0
      · refine bmapAddr c l hp hread le_rfl hind fun b s₁ ino₁ c₁ g₁ haddr hb0 hblank =>
          ⟨ino₁, c₁, g₁, haddr, hb0, ?_⟩
        rw [hblank]
        exact Bytes.get32_zero _
      · rw [Fs.bmapAddr, c.cached.eq_of_live l, if_neg hind]
        rw [slotOf_fileSlot_of_ge (by omega) hind] at hslot
        exact pure ⟨ino, c.cons l, .refl c.cached l, rfl, hind, hslot⟩
    · rintro ind s₁ ⟨ino₁, c₁, g₁, hind, hind0, hentry⟩
      have l₁ := g₁.live l
      have hindSlot : slotOf s₁.home (ino₁ x) NDIRECT = ind := by rw [slotOf, if_pos le_rfl, hind]
      have hlog := c₁.blk_slot l₁ (k := NDIRECT) (by rwa [hindSlot])
      rw [hindSlot] at hlog
      refine seq (bread c₁.mounted.readAlloc fun _ => seq (data ?_))
      rw [setHeld_blk, hlog.2, if_pos hentry]
      have c₁' := c₁.setHeld (ind :: s₁.held)
      have l₁' := l₁.setHeld (ind :: s₁.held)
      refine seq (balloc c₁'.mounted c₁'.good.reserved (g₁.reading.trans hread)
        (fun b s₂ => c₁'.watched (g₁.pinned hp)) fun b s₂ hb hfree w => ?_)
      obtain ⟨m₂, ca₂, g₂, gr₂, hsame, -⟩ := c₁'.balloc l₁' hb hfree w
      have hb0 : b ≠ 0 := by
        have := sb.three_le_dataStart
        have := (g₂.owns.pending b (by simp)).1.1
        omega
      have hkeep := hsame NDIRECT (by rw [setHeld_home, hindSlot]; exact hind0)
      rw [setHeld_home, hindSlot] at hkeep
      refine seq (setData (seq ?_))
      rw [← hkeep]
      refine logWrite m₂.journal m₂.readAlloc (by rw [gr₂.start]; exact hlog.1) fun s₃ w₃ => ?_
      obtain ⟨c₃, gr₃, hplace⟩ := Consistent.putEntry m₂ ca₂ g₂ (gr₂.live l₁') hind hind0
        (j := bn - NDIRECT) (by omega) (by rw [hkeep]; exact hentry) w₃
      have gr := gr₂.trans gr₃
      refine seq (brelse (by rw [gr.held]; simp) (pure ?_))
      have hb' := h _ _ (c₃.setHeld (s₃.held.erase ind)) (g₁.trans gr.release)
      have hfs : fileSlot bn = NDIRECT + 1 + (bn - NDIRECT) := by
        rw [fileSlot, if_neg hdir]
        omega
      rw [setHeld_home, hfs, hplace] at hb'
      exact hb' hb0

end Safe

end Xv6
