import Xv6.Fs.Room
import Xv6.Fs.Reading
import Xv6.Fs.Neutral

/-!
# Functions of the file system that return

The rules of `Safe` say what holds if a function returns.  `Completes sb p s` says that it does, on
condition that the kernel has what it asks for whenever it asks (`Ample`): a free block for
`balloc`, a buffer that is neither busy nor dirty, a place in the log, an entry of the inode cache.
Everything else that a function could stop for is ruled out here: that it waits for a buffer it
holds itself, that it reads behind the end of the disk, that it writes outside of a transaction.
-/

namespace Xv6

open Lib FsState

/-- The kernel has what the action asks for. -/
def Ample (sb : Superblock) : Act → FsState → Prop
  | .ballocEnter, s => HasRoom sb s
  | .bread b, s => b ∈ s.log.sectors ∨ (s.held ∪ s.log.sectors).length < NBUF
  | .logWrite _, s => s.log.sectors.length < LOGSIZE ∧ s.log.sectors.length + 1 < s.log.size ∧
      (s.held ∪ s.log.sectors).length < NBUF
  | .commitTrans, s => (s.held ∪ s.log.sectors).length < NBUF
  | .iget dev inum, s => ∃ e, (s.inode e).ref = 0 ∨
      (0 < (s.inode e).ref ∧ (s.inode e).dev = dev ∧ (s.inode e).inum = inum)
  | _, _ => True

instance (sb : Superblock) (a : Act) (s : FsState) : Decidable (Ample sb a s) := by
  apply Act.casesOn (motive := fun a => Decidable (Ample sb a s)) a <;> intros <;>
    unfold Ample <;> infer_instance

/-- Running `p` from `s` returns, if the kernel always has what it asks for. -/
def Completes (sb : Superblock) {α : Type} (p : Sys α) (s : FsState) : Prop :=
  p.Meets Act.exec (Ample sb) s → ∃ a s', Yields p s a s'

/-- A transaction is active, and the disk has all blocks of the file system and of the log. -/
structure Ready (sb : Superblock) (s : FsState) : Prop where
  busy : s.log.busy = true
  disk : sb.size ≤ s.disksize
  log : s.log.start + s.log.size ≤ s.disksize
  pos : 0 < s.log.size

variable {sb : Superblock} {α β : Type} {p : Sys α} {f : α → Sys β} {Q : α → FsState → Prop}
  {s s' : FsState} {e : InodeId} {x b bn off n : ℕ} {d : Block} {h : ℕ → Block}

lemma Ample.roomAt {a : Act} (h : Ample sb a s) : RoomAt sb a s := by
  cases a with
  | ballocEnter => exact h
  | _ => trivial

lemma Ready.setHeld (rd : Ready sb s) (l : List ℕ) : Ready sb (s.setHeld l) :=
  ⟨rd.busy, rd.disk, rd.log, rd.pos⟩

/-- From `s` to `s'` the log and the disk stay what they are, but for what they hold. -/
structure SameLog (s s' : FsState) : Prop where
  busy : s'.log.busy = s.log.busy
  disksize : s'.disksize = s.disksize
  start : s'.log.start = s.log.start
  size : s'.log.size = s.log.size

lemma Ready.of_sameLog (rd : Ready sb s) (hl : SameLog s s') : Ready sb s' :=
  ⟨hl.busy.trans rd.busy, hl.disksize ▸
    rd.disk, by rw [hl.disksize, hl.start, hl.size]; exact rd.log,
    hl.size ▸ rd.pos⟩

lemma sameLog_exec (a : Act) (s : FsState) (h : Plain a) : SameLog s (endState a.exec s) := by
  refine Wp.endState (P := fun t : FsState => SameLog s t) ?_
  rw [Wp]
  generalize hx : a.exec s = x
  cases a <;> first
    | exact h.elim
    | (simp only [Act.exec] at hx
       repeat' split at hx
       all_goals (subst hx; exact ⟨rfl, rfl, rfl, rfl⟩))

lemma Ready.yields {a : α} (rd : Ready sb s) (hp : IsPlain p) (hy : Yields p s a s') :
    Ready sb s' := by
  have hsame : SameLog s (endState (p.run Act.exec) s) := hp.run (fun _ => ⟨rfl, rfl, rfl, rfl⟩)
    (fun _ _ _ h₁ h₂ => ⟨h₂.busy.trans h₁.busy, h₂.disksize.trans h₁.disksize,
    h₂.start.trans h₁.start,
      h₂.size.trans h₁.size⟩) sameLog_exec
  rw [endState, hy] at hsame
  exact rd.of_sameLog hsame

/-- What a specification says holds after a run that returns. -/
lemma Yields.post {a : α} (hy : Yields p s a s') (hs : Safe sb .roomy p Q s)
    (hm : p.Meets Act.exec (Ample sb) s) : Q a s' := by
  have hq := (hs.of_roomy (hm.mono fun _ _ => Ample.roomAt)).1
  rwa [Wp, show p.run Act.exec s = .ok a s' from hy] at hq

lemma Fs.writeiTurn_plain {dev m : ℕ} {src : ℕ → UInt8} : IsPlain (Fs.writeiTurn e dev src off m) :=
  .bind bmap_plain fun _ => .bind bread_plain fun _ => .bind (.perform trivial) fun _ =>
    .bind (.perform trivial) fun _ => .bind (.perform trivial) fun _ => .perform trivial

namespace Completes

/-! ## Rules -/

lemma pure {a : α} : Completes sb (Pure.pure a : Sys α) s := fun _ => ⟨a, s, rfl⟩

/-- One action, and what follows it. -/
lemma act {a : Act} {f : a.Result → Sys β} {r : a.Result} {t : FsState}
    (hx : Ample sb a s → a.exec s = .ok r t) (hf : Ample sb a s → Completes sb (f r) t) :
    Completes sb (Sys.act a >>= f) s := by
  intro hm
  have ha : Ample sb a s := hm.1
  obtain ⟨c, s₂, hy⟩ := hf ha (hm.2 r t (hx ha))
  exact ⟨c, s₂, Yields.seq (.act (hx ha)) hy⟩

/-- What holds after a program that returns, by its specification. -/
lemma yields (hr : Completes sb p s) (hs : Safe sb .roomy p Q s)
    (hm : p.Meets Act.exec (Ample sb) s) :
    ∃ a s', Yields p s a s' ∧ Q a s' := by
  obtain ⟨a, s', hy⟩ := hr hm
  exact ⟨a, s', hy, hy.post hs hm⟩

/-- Programs in sequence. -/
lemma bind (hr : Completes sb p s) (hf : ∀ a s', p.Meets Act.exec (Ample sb) s → Yields p s a s' →
    Completes sb (f a) s') :
    Completes sb (p >>= f) s := by
  intro hm
  obtain ⟨a, s', hy⟩ := hr hm.left
  obtain ⟨c, s₂, hy₂⟩ := hf a s' hm.left hy (hm.right hy)
  exact ⟨c, s₂, hy.seq hy₂⟩

/-- Where the second program starts is known from the specification of the first. -/
lemma of_spec (hr : Completes sb p s) (hs : Safe sb .roomy p Q s)
    (hf : ∀ a s', Q a s' → Completes sb (f a) s') :
    Completes sb (p >>= f) s :=
  hr.bind fun a s' hm hy => hf a s' (hy.post hs hm)

/-- Besides, the log and the disk stay what they are. -/
lemma call (hr : Completes sb p s) (hp : IsPlain p) (rd : Ready sb s) (hs : Safe sb .roomy p Q s)
    (hf : ∀ a s', Q a s' → Ready sb s' → Completes sb (f a) s') : Completes sb (p >>= f) s :=
  hr.bind fun a s' hm hy => hf a s' (hy.post hs hm) (rd.yields hp hy)

/-- It does not matter what the first program leaves. -/
lemma seq (hr : Completes sb p s) (hf : ∀ a s', Completes sb (f a) s') : Completes sb (p >>= f) s :=
  hr.bind fun a s' _ _ => hf a s'

/-- The last program of a sequence. -/
lemma of_bind_pure (h : Completes sb (p >>= Pure.pure) s) : Completes sb p s := by
  rwa [bind_pure] at h

/-! ## Buffers -/

lemma bread {f : ℕ → Sys β} (hb : b ∉ s.held) (hlt : b < s.disksize)
    (hf : Completes sb (f b) (s.setHeld (b :: s.held))) :
    Completes sb (Fs.bread ROOTDEV b >>= f) s := by
  rw [Fs.bread, if_neg (by simp)]
  refine act (a := .bread b) (f := fun _ => f b) (r := ()) (t := s.setHeld (b :: s.held))
    (fun ha => ?_) fun _ => hf
  have hstop : s.breadStop b = none := by
    rw [breadStop, if_neg hb, if_neg fun hno => ha.elim hno.1 (not_lt.2 hno.2),
      if_neg (not_le.2 hlt)]
  simp [Act.exec, hstop, setHeld]

lemma data {f : Block → Sys β} (hf : Completes sb (f (s.blk b)) s) :
    Completes sb (Fs.data b >>= f) s :=
  act (a := .data b) (fun _ => rfl) fun _ => hf

lemma setData {f : Unit → Sys β} (hf : Completes sb (f ()) (s.setBlk b d)) :
    Completes sb (Fs.setData b d >>= f) s :=
  act (a := .setData b d) (fun _ => rfl) fun _ => hf

lemma brelse {f : Unit → Sys β} (hb : b ∈ s.held)
    (hf : Completes sb (f ()) (s.setHeld (s.held.erase b))) :
    Completes sb (Fs.brelse b >>= f) s := by
  refine act (a := .brelse b) (t := s.setHeld (s.held.erase b)) (fun _ => ?_) fun _ => hf
  simp [Act.exec, hb, setHeld]

lemma getInode {f : Inode → Sys β} (hf : Completes sb (f (s.inode e)) s) :
    Completes sb (Fs.getInode e >>= f) s :=
  act (a := .getInode e) (fun _ => rfl) fun _ => hf

lemma setInode {f : Unit → Sys β} {v : DInode}
    (hf : Completes sb (f ()) (s.setInode e { s.inode e with toDInode := v })) :
    Completes sb (Fs.setInode e v >>= f) s :=
  act (a := .setInode e v) (fun _ => rfl) fun _ => hf

/-- A block is changed and logged; the busy buffers are of blocks before the log. -/
lemma logWrite {f : Unit → Sys β} (m : Mounted sb s) (rd : Ready sb s) (hb : b < s.log.start)
    (hheld : ∀ c ∈ s.held, c < s.log.start)
    (hf : ∀ s', Wrote s (Function.update s.home b d) s' → Ready sb s' → Completes sb (f ()) s') :
    Completes sb (Fs.logWrite b >>= f) (s.setBlk b d) := by
  refine act (a := .logWrite b) (r := ()) (t := s.logged b d) (fun ha => ?_) fun _ => hf _
    (.logged m.journal hb) ⟨rfl, rd.disk, rd.log, rd.pos⟩
  obtain ⟨hlen, hsize, hbuf⟩ : s.log.sectors.length < LOGSIZE ∧ s.log.sectors.length +
    1 < s.log.size ∧
    (s.held ∪ s.log.sectors).length < NBUF := ha
  have hstop : s.breadStop (s.log.start + s.log.sectors.idxOf b + 1) = none := by
    have hlog := rd.log
    have hidx : s.log.sectors.idxOf b ≤ s.log.sectors.length := List.idxOf_le_length
    have hfree : s.log.start + s.log.sectors.idxOf b + 1 ∉ s.held := fun hmem => by
      have := hheld _ hmem
      omega
    rw [breadStop, if_neg hfree, if_neg fun hno => absurd hno.2 (not_le.2 hbuf), if_neg (by omega)]
  have hstop' : (s.setBlk b d).breadStop (s.log.start + s.log.sectors.idxOf b + 1) = none := hstop
  have hbig : ¬ (LOGSIZE ≤ s.log.sectors.length ∨ s.log.size ≤ s.log.sectors.length + 1) := by omega
  simp [Act.exec, setBlk, hbig, rd.busy] at hstop' ⊢
  rw [hstop']
  simp [FsState.logged]
  rfl

/-- The last step of a function is to release a buffer. -/
lemma brelse_last (hb : b ∈ s.held) : Completes sb (Fs.brelse b) s := of_bind_pure (brelse hb pure)

end Completes

/-! ## Blocks -/

/-- The busy buffers are of data blocks that are in use. -/
def HeldInUse (sb : Superblock) (s : FsState) : Prop :=
  ∀ c ∈ s.held, InData sb c ∧ bitOf sb s.home c = true

lemma HeldInUse.of_nil (hs : s.held = []) : HeldInUse sb s := by
  rw [HeldInUse, hs]
  exact fun c hc => absurd hc List.not_mem_nil

namespace HeldInUse

lemma not_mem (hh : HeldInUse sb s) (hb : b < sb.dataStart) : b ∉ s.held := fun hmem =>
  absurd (hh b hmem).1.1 (not_le.2 hb)

lemma lt_start (hh : HeldInUse sb s) (m : Mounted sb s) : ∀ c ∈ s.held, c < s.log.start :=
  fun c hc =>
  m.start ▸ (hh c hc).1.2

end HeldInUse

lemma Ready.lt_disksize (rd : Ready sb s) (hb : b < sb.logStart) : b < s.disksize := by
  have hlog : sb.logStart ≤ sb.size := Nat.sub_le _ _
  have := rd.disk
  omega

lemma Mounted.lt_logStart (m : Mounted sb s) (hb : b < sb.dataStart) : b < sb.logStart :=
  m.start ▸ m.lt_start hb

namespace Completes

/-- The last steps of a function that has read a block are to change it, to log it and to release
the buffer. -/
lemma store (m : Mounted sb s) (rd : Ready sb s) (hb : b < sb.logStart)
    (hheld : ∀ c ∈ s.held, c < s.log.start) :
    Completes sb (do
      Fs.setData b d
      Fs.logWrite b
      Fs.brelse b) (s.setHeld (b :: s.held)) := by
  have hlt : b < s.log.start := m.start ▸ hb
  refine setData (logWrite (m.setHeld _) (rd.setHeld _) hlt (fun c hc => ?_) fun s' w _ =>
    brelse_last w.mem_held)
  rcases List.mem_cons.1 hc with rfl | hc
  · exact hlt
  · exact hheld c hc

lemma readsb (m : Mounted sb s) (rd : Ready sb s) (hh : HeldInUse sb s) :
    Completes sb (Fs.readsb ROOTDEV) s := by
  have h1 : 1 < sb.dataStart := by
    have := sb.three_le_dataStart
    omega
  exact bread (hh.not_mem h1) (rd.lt_disksize (m.lt_logStart h1)) (data (brelse (by simp) pure))

lemma bzero (m : Mounted sb s) (rd : Ready sb s) (hb : b < sb.logStart) (hfree : b ∉ s.held)
    (hheld : ∀ c ∈ s.held, c < s.log.start) : Completes sb (Fs.bzero ROOTDEV b) s :=
  bread hfree (rd.lt_disksize hb) (store m rd hb hheld)

lemma ballocLoop {gs : List ℕ} (m : Mounted sb s) (rd : Ready sb s) (hh : HeldInUse sb s)
    (hroom : RoomIn sb s.home gs) (hgs : ∀ g ∈ gs, g * BPB < sb.size)
    (hsorted : gs.Pairwise (· < ·)) :
    Completes sb (Fs.ballocLoop ROOTDEV sb gs) s := by
  induction gs with
  | nil =>
      obtain ⟨c, -, -, hmem⟩ := hroom
      exact absurd hmem List.not_mem_nil
  | cons g gs ih =>
      have hbm : BBLOCK (g * BPB) sb.ninodes < sb.dataStart := sb.bblock_lt_dataStart
        (hgs g (by simp))
      have hlt := m.lt_logStart hbm
      rw [Fs.ballocLoop]
      refine bread (hh.not_mem hbm) (rd.lt_disksize hlt) (data ?_)
      rw [setHeld_blk, m.home_eq hbm]
      cases hfind : Fs.firstFree (s.home (BBLOCK (g * BPB) sb.ninodes)) (g * BPB) sb.size with
      | none =>
          refine brelse (by simp) ?_
          simp only [setHeld_held, List.erase_cons_head, setHeld_setHeld, setHeld_self]
          exact ih (hroom.tail hfind) (fun g hg => hgs g (by simp [hg])) hsorted.of_cons
      | some bi =>
          obtain ⟨hbi, -, hfree⟩ := firstFree_spec hfind
          have hbit : bitOf sb s.home (g * BPB + bi) = false := (bitOf_group hbi).trans hfree
          have hstart := hroom.head hsorted hfind
          refine setData (logWrite (m.setHeld _) (rd.setHeld _) (m.lt_start hbm) (fun c hc => ?_)
            fun s₁ w₁ rd₁ => brelse w₁.mem_held ?_)
          · rcases List.mem_cons.1 hc with rfl | hc
            · exact m.lt_start hbm
            · exact hh.lt_start m c hc
          have w₁ := w₁.release
          have rd₁ := rd₁.setHeld (s₁.held.erase (BBLOCK (g * BPB) sb.ninodes))
          generalize s₁.setHeld (s₁.held.erase _) = s₂ at w₁ rd₁ ⊢
          have hne : BBLOCK (g * BPB) sb.ninodes ≠ 1 := by
            have := sb.three_le_bblock (g * BPB)
            omega
          have m₂ : Mounted sb s₂ := m.wrote w₁ (Function.update_of_ne hne.symm _ _)
          -- no busy buffer is of the block that was free
          have hfree₂ : g * BPB + bi ∉ s₂.held := by
            rw [w₁.held]
            intro hmem
            rw [(hh _ hmem).2] at hbit
            exact absurd hbit (by simp)
          have hheld₂ : ∀ c ∈ s₂.held, c < s₂.log.start := by
            rw [w₁.held, w₁.start]
            exact hh.lt_start m
          exact seq (bzero m₂ rd₁ hstart hfree₂ hheld₂) fun _ _ =>
            act (a := .ballocDone _) (fun _ => rfl) fun _ => pure

/-- `balloc` outside of `readi`. -/
lemma balloc (m : Mounted sb s) (rd : Ready sb s) (hh : HeldInUse sb s)
    (hread : s.seen.reading = false) :
    Completes sb (Fs.balloc ROOTDEV) s := by
  have hexec : Act.ballocEnter.exec s = .ok () s := by
    have hsame : (s.seen.readAlloc || s.seen.reading) = s.seen.readAlloc := by simp [hread]
    simp only [Act.exec, hsame]
  refine act (a := .ballocEnter) (fun _ => hexec) fun hroom => ?_
  refine call (Q := fun sb' s' => sb' = sb ∧ s' = s) (readsb m rd hh) Fs.readsb_plain rd
    (Safe.readsb m ⟨rfl, rfl⟩) ?_
  rintro _ _ ⟨rfl, rfl⟩ _
  exact ballocLoop m rd hh (.of_hasRoom m hroom) (fun _ => group_lt_size) List.pairwise_lt_range

lemma iupdate (m : Mounted sb s) (rd : Ready sb s) (hh : HeldInUse sb s)
    (hdev : (s.inode e).dev = ROOTDEV) (hx : (s.inode e).inum < sb.ninodes) :
    Completes sb (Fs.iupdate e) s := by
  have hblk := sb.iblock_lt_dataStart hx
  refine getInode ?_
  rw [hdev]
  have hlt := m.lt_logStart hblk
  exact bread (hh.not_mem hblk) (rd.lt_disksize hlt) (data (store m rd hlt (hh.lt_start m)))

/-! ## Contents -/

variable {ino : ℕ → DInode} {unsaved : List ℕ} {D : ℕ → Prop} {lim : ℕ} {src : ℕ → UInt8}

lemma bmapAddr {k : ℕ} (c : Consistent sb s ino unsaved D) (l : Live s e x) (rd : Ready sb s)
    (hs : s.held = []) (hread : s.seen.reading = false) :
    Completes sb (Fs.bmapAddr e (s.inode e) k) s := by
  rw [Fs.bmapAddr]
  split
  · rw [c.cached.dev_of_live l]
    exact seq (balloc c.mounted rd (.of_nil hs) hread) fun _ _ => setInode pure
  · exact pure

/-- `bmap` of a block of a file. -/
lemma bmap (c : Consistent sb s ino unsaved D) (l : Live s e x) (hp : Pinned s) (rd : Ready sb s)
    (hs : s.held = []) (hread : s.seen.reading = false) (hbn : bn < MAXFILE) :
    Completes sb (Fs.bmap e bn) s := by
  have hD := NDIRECT_eq
  have hM := MAXFILE_eq
  have hI := NINDIRECT_eq
  refine getInode ?_
  rw [c.cached.dev_of_live l]
  by_cases hdir : bn < NDIRECT
  · rw [if_pos hdir]
    exact bmapAddr c l rd hs hread
  · rw [if_neg hdir, if_pos (by omega)]
    -- the indirect block is a block of the inode
    refine call (Q := fun ind s₁ => ∃ ino₁, Consistent sb s₁ ino₁ (x :: unsaved) D ∧
      Grown sb s ino e x s₁ ino₁ ∧ (ino₁ x).addr NDIRECT = ind ∧ ind ≠ 0)
      (bmapAddr c l rd hs hread) Fs.bmapAddr_plain rd ?_ ?_
    · by_cases hind : (ino x).addr NDIRECT = 0
      · exact Safe.bmapAddr c l hp hread le_rfl hind fun b s₁ ino₁ c₁ g₁ haddr hb0 _ =>
          ⟨ino₁, c₁, g₁, haddr, hb0⟩
      · rw [Fs.bmapAddr, c.cached.eq_of_live l, if_neg hind]
        exact Safe.pure ⟨ino, c.cons l, .refl c.cached l, rfl, hind⟩
    · rintro ind s₁ ⟨ino₁, c₁, g₁, rfl, hind0⟩ rd₁
      have l₁ := g₁.live l
      have hs₁ : s₁.held = [] := g₁.held.trans hs
      have hslot : slotOf s₁.home (ino₁ x) NDIRECT = (ino₁ x).addr NDIRECT := by
        rw [slotOf, if_pos le_rfl]
      have hrange := c₁.good.range (c₁.cached.lt_of_live l₁) (c₁.cached.type_of_live l₁)
        (k := NDIRECT) (by rwa [hslot])
      rw [hslot] at hrange
      refine bread (by simp [hs₁]) (rd₁.lt_disksize hrange.2.2.1) (data ?_)
      split
      · have c₁' := c₁.setHeld ((ino₁ x).addr NDIRECT :: s₁.held)
        have l₁' := l₁.setHeld ((ino₁ x).addr NDIRECT :: s₁.held)
        have rd₁' := rd₁.setHeld ((ino₁ x).addr NDIRECT :: s₁.held)
        have hheld : HeldInUse sb (s₁.setHeld ((ino₁ x).addr NDIRECT :: s₁.held)) := by
          intro c hc
          rw [setHeld_held, hs₁, List.mem_singleton] at hc
          rw [hc, setHeld_home]
          exact ⟨⟨hrange.1, hrange.2.2.1⟩, hrange.2.2.2⟩
        refine call (balloc c₁'.mounted rd₁' hheld (g₁.reading.trans hread)) Fs.balloc_plain rd₁'
          (Q := fun b s₂ => Mounted sb s₂ ∧ s₂.held = (ino₁ x).addr NDIRECT :: s₁.held) ?_ ?_
        · exact Safe.balloc c₁'.mounted c₁'.good.reserved (g₁.reading.trans hread)
            (fun b s₂ => c₁'.watched (g₁.pinned hp)) fun b s₂ hb hfree w =>
              ⟨(c₁'.balloc l₁' hb hfree w).1, w.held⟩
        · rintro b s₂ ⟨m₂, hs₂⟩ rd₂
          have hlt : (ino₁ x).addr NDIRECT < s₂.log.start := m₂.start ▸ hrange.2.2.1
          refine setData (logWrite m₂ rd₂ hlt (fun c hc => ?_) fun s₃ w₃ _ =>
            brelse (by simp [w₃.held, hs₂]) pure)
          rw [hs₂, hs₁, List.mem_singleton] at hc
          rwa [hc]
      · exact brelse (by simp) pure

/-- `bmap` of a block that the inode has. -/
lemma bmap_hit (c : Consistent sb s ino unsaved D) (l : Live s e x) (hdisk : sb.size ≤ s.disksize)
    (hs : s.held = []) (hslot : slotOf s.home (ino x) (fileSlot bn) ≠ 0) :
    Completes sb (Fs.bmap e bn) s := by
  have hD := NDIRECT_eq
  have hM := MAXFILE_eq
  have hI := NINDIRECT_eq
  have hlog : sb.logStart ≤ sb.size := Nat.sub_le _ _
  have hbn := lt_maxfile_of_slot hslot
  refine getInode ?_
  rw [c.cached.dev_of_live l]
  by_cases hdir : bn < NDIRECT
  · rw [slotOf_fileSlot_of_lt hdir] at hslot
    rw [if_pos hdir, Fs.bmapAddr, c.cached.eq_of_live l, if_neg hslot]
    exact pure
  · have hind : (ino x).addr NDIRECT ≠ 0 := by
      intro hz
      rw [fileSlot, if_neg hdir, slotOf, if_neg (by omega), if_pos hz] at hslot
      exact hslot rfl
    have hindSlot : slotOf s.home (ino x) NDIRECT = (ino x).addr NDIRECT := by
      rw [slotOf, if_pos le_rfl]
    have hblk := c.blk_slot l (k := NDIRECT) (by rwa [hindSlot])
    rw [hindSlot, c.mounted.start] at hblk
    rw [slotOf_fileSlot_of_ge (by omega) hind] at hslot
    rw [if_neg hdir, if_pos (by omega), Fs.bmapAddr, c.cached.eq_of_live l, if_neg hind, pure_bind]
    refine bread (by simp [hs]) (by omega) (data ?_)
    rw [setHeld_blk, hblk.2, if_neg hslot]
    exact brelse (by simp) pure

/-- The loop of `readi` below the limit up to which a file is filled. -/
lemma readiLoop {fuel : ℕ} (c : Consistent sb s ino unsaved D) (l : Live s e x)
    (hdisk : sb.size ≤ s.disksize) (hs : s.held = []) (hf : Filled s.home (ino x) lim)
    (hlim : off + n ≤ lim) : Completes sb (Fs.readiLoop e ROOTDEV fuel off n) s := by
  induction fuel generalizing off n with
  | zero => exact pure
  | succ fuel ih =>
      rw [Fs.readiLoop]
      by_cases hn : n = 0
      · rw [if_pos hn]
        exact pure
      · rw [if_neg hn]
        have hlog : sb.logStart ≤ sb.size := Nat.sub_le _ _
        have hmod := mod_bsize_lt off
        have hslot : slotOf s.home (ino x) (fileSlot (off / BSIZE)) ≠ 0 :=
          hf _ ((Nat.div_mul_le_self off BSIZE).trans_lt (by omega))
        have hblk := (c.blk_slot l hslot).1
        rw [c.mounted.start] at hblk
        refine of_spec (bmap_hit c l hdisk hs hslot) (Q := fun b s' => b < sb.logStart ∧ s' = s)
          (Safe.bmap_hit c l (lt_maxfile_of_slot hslot) hslot ⟨hblk, rfl⟩) ?_
        rintro b _ ⟨hb, rfl⟩
        refine bread (by simp [hs]) (by omega) (data (brelse (by simp) ?_))
        rw [setHeld_held, List.erase_cons_head, setHeld_setHeld, setHeld_self]
        exact seq (ih (by omega)) fun _ _ => pure

/-- `readi` of an inode that is not a device. -/
lemma readi (c : Consistent sb s ino unsaved D) (l : Live s e x) (hdisk : sb.size ≤ s.disksize)
    (hs : s.held = []) (ht : (ino x).type ≠ T_DEV) : Completes sb (Fs.readi e off n) s := by
  refine act (a := .readiEnter) (t := s.setSeen { s.seen with reading := true })
    (fun _ => rfl) fun _ => ?_
  have c' := c.setSeen (o := { s.seen with reading := true }) rfl
  have l' : Live (s.setSeen { s.seen with reading := true }) e x := ⟨l.ref, l.valid, l.inum⟩
  refine seq (getInode ?_) fun _ _ => act (a := .readiLeave) (fun _ => rfl) fun _ => pure
  rw [c'.cached.eq_of_live l', c'.cached.dev_of_live l', if_neg ht]
  split
  · exact pure
  · rename_i hoff
    rw [not_or, Nat.not_lt] at hoff
    have hf := c'.good.filled x (c'.cached.lt_of_live l') (c'.cached.type_of_live l') ht
    refine seq (readiLoop c' l' hdisk hs hf ?_) fun _ _ => pure
    split <;> omega

/-- One turn of the loop of `writei`. -/
lemma writeiTurn {m : ℕ} (c : Consistent sb s ino unsaved D) (l : Live s e x) (hp : Pinned s)
    (rd : Ready sb s) (hs : s.held = []) (hread : s.seen.reading = false)
    (hmax : off < MAXFILE * BSIZE) :
    Completes sb (Fs.writeiTurn e ROOTDEV src off m) s := by
  have hbn : off / BSIZE < MAXFILE := Nat.div_lt_of_lt_mul (by rw [Nat.mul_comm]; exact hmax)
  refine call (Q := fun b s₁ => Mounted sb s₁ ∧ b < sb.logStart ∧ s₁.held = [])
    (bmap c l hp rd hs hread hbn) Fs.bmap_plain rd ?_ ?_
  · have hin : ∀ s₁ ino₁ unsaved₁, Consistent sb s₁ ino₁ unsaved₁ D → Grown sb s ino e x s₁ ino₁ →
        slotOf s₁.home (ino₁ x) (fileSlot (off / BSIZE)) ≠ 0 → Mounted sb s₁ ∧
        slotOf s₁.home (ino₁ x) (fileSlot (off / BSIZE)) < sb.logStart ∧ s₁.held = [] := by
      intro s₁ ino₁ unsaved₁ c₁ g₁ hne
      have hlt := (c₁.blk_slot (g₁.live l) hne).1
      rw [c₁.mounted.start] at hlt
      exact ⟨c₁.mounted, hlt, g₁.held.trans hs⟩
    by_cases hslot : slotOf s.home (ino x) (fileSlot (off / BSIZE)) = 0
    · exact Safe.bmap_alloc c l hp hbn hslot hread fun s₁ ino₁ c₁ g₁ hne => hin s₁ ino₁ _ c₁ g₁ hne
    · exact Safe.bmap_hit c l hbn hslot (hin s ino unsaved c (.refl c.cached l) hslot)
  · rintro b s₁ ⟨m₁, hb, hs₁⟩ rd₁
    exact bread (by simp [hs₁]) (rd₁.lt_disksize hb) (data (store m₁ rd₁ hb (by simp [hs₁])))

lemma writeiLoop {fuel : ℕ} (c : Consistent sb s ino unsaved D) (l : Live s e x) (hp : Pinned s)
    (rd : Ready sb s) (hs : s.held = []) (hread : s.seen.reading = false)
    (hf : Filled s.home (ino x) lim) (hlim : (ino x).size.toNat ≤ lim) (hoff : off ≤ lim)
    (hd : D x ∧ (ino x).type = T_DIR → Entries sb s.home (ino x) lim ∧
      (n = 0 ∨ EntryWrite sb src off n)) (hmax : off + n ≤ MAXFILE * BSIZE) :
        Completes sb (Fs.writeiLoop e ROOTDEV fuel src off n) s := by
  induction fuel generalizing off n lim src s ino unsaved with
  | zero => exact pure
  | succ fuel ih =>
      by_cases hn : n = 0
      · rw [Fs.writeiLoop, if_pos hn]
        exact pure
      · rw [Fs.writeiLoop_succ hn]
        have hmod := mod_bsize_lt off
        generalize hm : min n (BSIZE - off % BSIZE) = m
        have hone : D x ∧ (ino x).type = T_DIR → EntryWrite sb src off m ∧ m = n := by
          intro hdir
          have hw := (hd hdir).2.resolve_left hn
          have hmn : m = n := by
            have := dirent_mod_bsize hw.aligned
            have := hw.size
            omega
          exact ⟨hmn ▸ hw, hmn⟩
        refine call (Q := fun _ s₁ => ∃ ino₁ unsaved₁, Turned sb s ino e x lim off m src s₁ ino₁
          unsaved unsaved₁ D) (writeiTurn c l hp rd hs hread (by omega)) Fs.writeiTurn_plain rd
          (Safe.writeiTurn c l hp hread hf hlim hoff (by omega) (by omega) (by omega)
            (fun hdir => ⟨(hd hdir).1, (hone hdir).1⟩) fun s₁ ino₁ unsaved₁ t =>
            ⟨ino₁, unsaved₁, t⟩) ?_
        rintro _ s₁ ⟨ino₁, unsaved₁, t⟩ rd₁
        have hlim₁ : (ino₁ x).size.toNat ≤ max lim (off + m) := by
          rw [t.size]
          omega
        refine ih t.consistent (t.edited.live l) (t.edited.pinned hp) rd₁ (t.held.trans hs)
          (t.edited.reading.trans hread) t.filled hlim₁ (by omega) (fun hdir => ?_) (by omega)
        have hdir' : D x ∧ (ino x).type = T_DIR := ⟨hdir.1, t.type.symm.trans hdir.2⟩
        exact ⟨t.entries hdir', .inl (by rw [(hone hdir').2, Nat.sub_self])⟩

/-- `writei` to an inode that is not a device. -/
lemma writei (c : Consistent sb s ino [] D) (l : Live s e x) (hp : Pinned s) (rd : Ready sb s)
    (hs : s.held = []) (hread : s.seen.reading = false) (ht : (ino x).type ≠ T_DEV)
    (hd : D x ∧ (ino x).type = T_DIR → EntryWrite sb src off n) :
    Completes sb (Fs.writei e src off n) s := by
  have hx := c.cached.lt_of_live l
  have ht0 := c.cached.type_of_live l
  refine getInode ?_
  rw [c.cached.eq_of_live l, c.cached.dev_of_live l, if_neg ht]
  split
  · exact pure
  rename_i hoff
  rw [not_or, Nat.not_lt] at hoff
  split
  · exact pure
  rename_i hmax
  have hf := c.good.filled x hx ht0 ht
  have hdir : D x ∧ (ino x).type = T_DIR → Entries sb s.home (ino x) (ino x).size.toNat ∧
      (n = 0 ∨ EntryWrite sb src off n) := fun hdir => ⟨c.good.entries x hx hdir.1 hdir.2,
      .inr (hd hdir)⟩
  refine call (Q := fun _ s₁ => ∃ ino₁ unsaved₁, Turned sb s ino e x (ino x).size.toNat off n src s₁
    ino₁ [] unsaved₁ D) (writeiLoop c l hp rd hs hread hf le_rfl hoff.1 hdir (not_lt.1 hmax))
    Fs.writeiLoop_plain rd (Safe.writeiLoop c l hp hread hf le_rfl hoff.1 hdir
    (not_lt.1 hmax) le_rfl
      fun s₁ ino₁ unsaved₁ t => ⟨ino₁, unsaved₁, t⟩) ?_
  rintro _ s₁ ⟨ino₁, unsaved₁, t⟩ rd₁
  have l₁ := t.edited.live l
  refine getInode ?_
  split
  · refine setInode
      (seq (iupdate (t.consistent.mounted.setInode _ _) ⟨rd₁.busy, rd₁.disk, rd₁.log, rd₁.pos⟩
      (.of_nil (t.held.trans hs)) ?_ ?_) fun _ _ => pure)
    · rw [setInode_inode_self]
      exact t.consistent.cached.dev_of_live l₁
    · rw [setInode_inode_self]
      exact t.consistent.cached.inum e l₁.ref
  · exact pure

end Completes

end Xv6
