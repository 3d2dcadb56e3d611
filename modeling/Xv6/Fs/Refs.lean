import Xv6.Fs.Truncate
import Xv6.Lib.Count

/-!
# References to cached inodes

An entry of the inode cache stays as long as something refers to it: an open file, the current
directory of a process, or a function that runs.  `Inv sb L s` is the invariant in which the
functions that run hold the references `L`; between system calls that list is empty.  The rules
of this file say how `iget`, `ilock`, `iput` and others change it.
-/

namespace Xv6

open Lib FsState

namespace FsState

/-- The references of the open files. -/
def links (s : FsState) (f : FileId) : Option InodeId := (s.file f).link

/-- The references of the processes. -/
def cwds (s : FsState) (p : ProcId) : Option InodeId := (s.proc p).cwd

end FsState

/-- Something refers to entry `e`, a function that runs not counted unless it is in `L`. -/
def Held (L : List InodeId) (s : FsState) (e : InodeId) : Prop :=
  e ∈ L ∨ (∃ f, (s.file f).link = some e) ∨ ∃ p, (s.proc p).cwd = some e

/-- The invariant when the functions that run hold the references `L`. -/
structure Inv (sb : Superblock) (L : List InodeId) (s : FsState) : Prop where
  content : ∃ ino, Consistent sb s ino []
  reading : s.seen.reading = false
  counts : ∀ e, (s.inode e).ref = ((L.count e + refs s.links e + refs s.cwds e : ℕ) : ℤ)
  opened : ∀ f e, (s.file f).link = some e → (s.inode e).valid = true ∧
    ((s.file f).writable = true → (s.inode e).type ≠ T_DIR)
  closed : ∀ f, (s.file f).ref = 0 → (s.file f).type = .none

variable {mode : Mode} {sb : Superblock} {s s' s₁ s₂ : FsState} {ino ino' : ℕ → DInode}
    {L L' : List InodeId}
  {e e' : InodeId} {h : ℕ → Block} {x y : ℕ} {v : Inode}

/-! ## What stays on disk -/

/-- The inode that the disk has for number `x`. -/
def FsState.node (s : FsState) (x : ℕ) : DInode := dinodeAt s.home x

/-- From `s` to `s'` inode `x` stays as it is, with its blocks. -/
structure SameNode (s s' : FsState) (x : ℕ) : Prop where
  node : s'.node x = s.node x
  data : (s.node x).type ≠ 0 → ∀ k, slotOf s.home (s.node x) k ≠ 0 →
    s'.home (slotOf s.home (s.node x) k) = s.home (slotOf s.home (s.node x) k)

/-- From `s` to `s'` file `x` has the same contents in the same blocks. -/
structure SameFile (s s' : FsState) (x : ℕ) : Prop where
  type : (s'.node x).type = (s.node x).type
  size : (s'.node x).size = (s.node x).size
  addrs : (s'.node x).addrs = (s.node x).addrs
  data : (s.node x).type ≠ 0 → ∀ k, slotOf s.home (s.node x) k ≠ 0 →
    s'.home (slotOf s.home (s.node x) k) = s.home (slotOf s.home (s.node x) k)

lemma SameNode.file (n : SameNode s s' x) : SameFile s s' x :=
  ⟨by rw [n.node], by rw [n.node], by rw [n.node], n.data⟩

lemma SameNode.of_home (hh : s'.home = s.home) (x : ℕ) : SameNode s s' x :=
  ⟨by rw [FsState.node, FsState.node, hh], fun _ _ _ => by rw [hh]⟩

namespace SameFile

lemma slot (f : SameFile s s' x) (ht : (s.node x).type ≠ 0) (k : ℕ) :
    slotOf s'.home (s'.node x) k = slotOf s.home (s.node x) k := by
  have haddr : ∀ j, (s'.node x).addr j = (s.node x).addr j := by
    intro j
    rw [DInode.addr, f.addrs, DInode.addr]
  refine slotOf_congr (fun j _ => haddr j) (fun hz => ?_) k
  rw [haddr] at hz ⊢
  have hdata := f.data ht NDIRECT
  rw [slotOf, if_pos le_rfl] at hdata
  exact hdata hz

lemma trans (f₁ : SameFile s s₁ x) (f₂ : SameFile s₁ s₂ x) : SameFile s s₂ x := by
  refine ⟨f₂.type.trans f₁.type, f₂.size.trans f₁.size, f₂.addrs.trans f₁.addrs, fun ht k hk => ?_⟩
  have hslot := f₁.slot ht k
  have h₂ := f₂.data (by rwa [f₁.type]) k (by rwa [hslot])
  rw [hslot] at h₂
  rw [h₂, f₁.data ht k hk]

lemma byte (f : SameFile s s' x) (ht : (s.node x).type ≠ 0) {o : ℕ}
    (hne : slotOf s.home (s.node x) (fileSlot (o / BSIZE)) ≠ 0) :
    fileByte s'.home (s'.node x) o = fileByte s.home (s.node x) o := by
  rw [fileByte, f.slot ht, f.data ht _ hne, fileByte]

end SameFile

lemma SameNode.trans (n₁ : SameNode s s₁ x) (n₂ : SameNode s₁ s₂ x) : SameNode s s₂ x :=
  ⟨n₂.node.trans n₁.node, (n₁.file.trans n₂.file).data⟩

/-- What follows leaves the disk as it is. -/
lemma SameNode.of_home_eq (n : SameNode s s₁ x) (hh : s₂.home = s₁.home) : SameNode s s₂ x :=
  n.trans (.of_home hh x)

/-- Between system calls the inodes are those on disk. -/
lemma Consistent.node_eq {D : ℕ → Prop} (c : Consistent sb s ino [] D) (hx : x < sb.ninodes) :
    s.node x = ino x :=
  c.cached.disk x hx (by simp)

lemma Consistent.node_of_live {D : ℕ → Prop} (c : Consistent sb s ino [] D) (l : Live s e x) :
    s.node x = (s.inode e).toDInode := by
  rw [c.node_eq (c.cached.lt_of_live l), c.cached.eq_of_live l]

/-- Everything but inode `x` stays. -/
lemma Others.same {D : ℕ → Prop} (o : Others sb s ino x s' ino') (c : Consistent sb s ino [] D)
    (c' : Consistent sb s' ino' [] D) (hy : y < sb.ninodes) (hyx : y ≠ x) : SameNode s s' y := by
  have hnode := c.node_eq hy
  refine ⟨by rw [hnode, c'.node_eq hy, o.node y hyx], fun ht k hk => ?_⟩
  rw [hnode] at ht hk ⊢
  exact o.data y k _ hyx (own_slotOf hy ht hk)

/-! ## What is kept -/

/-- Entry `e` is of the same inode, and if it was valid it is so and has the same type. -/
structure Shown (s s' : FsState) (e : InodeId) : Prop where
  inum : (s'.inode e).inum = (s.inode e).inum
  valid : (s.inode e).valid = true → (s'.inode e).valid = true ∧
    (s'.inode e).type = (s.inode e).type

/-- Besides, on disk the inode has the same type unless it was free, and a file has the same
contents. -/
structure Kept (s s' : FsState) (e : InodeId) : Prop extends Shown s s' e where
  type : (s.node (s.inode e).inum).type ≠ 0 →
    (s'.node (s.inode e).inum).type = (s.node (s.inode e).inum).type
  file : (s.inode e).valid = true → (s.inode e).type = T_FILE → SameFile s s' (s.inode e).inum

/-- What the callers of a function may rely on for the references `L` that they hold. -/
structure Keeps (L : List InodeId) (s s' : FsState) : Prop where
  file : s'.file = s.file
  proc : s'.proc = s.proc
  kept : ∀ e, Held L s e → Kept s s' e

lemma Shown.of_eq (heq : s'.inode e = s.inode e) : Shown s s' e := by
  refine ⟨by rw [heq], fun hv => ?_⟩
  rw [heq]
  exact ⟨hv, rfl⟩

/-- Changing an entry to one that shows the same inode. -/
lemma Shown.setInode (hinum : v.inum = (s.inode e).inum)
    (hvalid : (s.inode e).valid = true → v.valid = true ∧ v.type = (s.inode e).type)
    (e' : InodeId) : Shown s (s.setInode e v) e' := by
  by_cases he : e' = e
  · subst he
    exact ⟨by rw [setInode_inode_self]; exact hinum, by rw [setInode_inode_self]; exact hvalid⟩
  · exact .of_eq (setInode_inode_of_ne he)

lemma Edited.shown (ed : Edited s e s') (e' : InodeId) : Shown s s' e' := by
  obtain ⟨v, hv, hi⟩ := ed.inode
  by_cases he : e' = e
  · subst he
    have hself : s'.inode e' = { s.inode e' with toDInode := v } := by rw [hi, Function.update_self]
    exact ⟨by rw [hself], fun hval => by rw [hself]; exact ⟨hval, hv⟩⟩
  · exact .of_eq (by rw [hi, Function.update_of_ne he])

/-- If the disk has not changed, no file has. -/
lemma Shown.kept (w : Shown s s' e) (hh : s'.home = s.home) : Kept s s' e :=
  ⟨w, fun _ => (SameNode.of_home hh _).file.type, fun _ _ => (SameNode.of_home hh _).file⟩

/-- If the inode has not changed on disk, it is kept. -/
lemma Shown.kept_of_same (w : Shown s s' e) (n : SameNode s s' (s.inode e).inum) : Kept s s' e :=
  ⟨w, fun _ => n.file.type, fun _ _ => n.file⟩

lemma Shown.trans (h₁ : Shown s s₁ e) (h₂ : Shown s₁ s₂ e) : Shown s s₂ e := by
  refine ⟨h₂.inum.trans h₁.inum, fun hv => ?_⟩
  obtain ⟨hv₁, ht₁⟩ := h₁.valid hv
  obtain ⟨hv₂, ht₂⟩ := h₂.valid hv₁
  exact ⟨hv₂, ht₂.trans ht₁⟩

lemma Kept.trans (h₁ : Kept s s₁ e) (h₂ : Kept s₁ s₂ e) : Kept s s₂ e := by
  refine ⟨h₁.toShown.trans h₂.toShown, fun ht => ?_, fun hv ht => ?_⟩
  · have ht₁ := h₁.type ht
    have ht₂ := h₂.type
    rw [h₁.inum] at ht₂
    exact (ht₂ (ht₁ ▸ ht)).trans ht₁
  · obtain ⟨hv₁, ht₁⟩ := h₁.valid hv
    have hf₂ := h₂.file hv₁ (ht₁.trans ht)
    rw [h₁.inum] at hf₂
    exact (h₁.file hv ht).trans hf₂

/-- A reference that is held is counted. -/
lemma Held.count_pos (he : Held L s e) : 0 < L.count e + refs s.links e + refs s.cwds e := by
  rcases he with he | ⟨f, hf⟩ | ⟨p, hp⟩
  · have := List.count_pos_iff.2 he
    omega
  · have : 0 < refs s.links e := refs_pos hf
    omega
  · have : 0 < refs s.cwds e := refs_pos hp
    omega

lemma Held.mono (hL : L' ⊆ L) (he : Held L' s e) : Held L s e := he.imp_left fun hmem => hL hmem

namespace Keeps

lemma refl (L : List InodeId) (s : FsState) : Keeps L s s :=
  ⟨rfl, rfl, fun _ _ => (Shown.of_eq rfl).kept rfl⟩

/-- If the disk has not changed, the entries must show the same inodes. -/
lemma of_home (hh : s'.home = s.home) (hfile : s'.file = s.file) (hproc : s'.proc = s.proc)
    (hshown : ∀ e, Held L s e → Shown s s' e) : Keeps L s s' :=
  ⟨hfile, hproc, fun e he => (hshown e he).kept hh⟩

lemma held (k : Keeps L s s') (he : Held L s e) : Held L s' e := by
  rcases he with he | ⟨f, hf⟩ | ⟨p, hp⟩
  · exact .inl he
  · exact .inr (.inl ⟨f, by rw [k.file]; exact hf⟩)
  · exact .inr (.inr ⟨p, by rw [k.proc]; exact hp⟩)

lemma trans (k₁ : Keeps L s s₁) (k₂ : Keeps L s₁ s₂) : Keeps L s s₂ :=
  ⟨k₂.file.trans k₁.file, k₂.proc.trans k₁.proc,
    fun e he => (k₁.kept e he).trans (k₂.kept e (k₁.held he))⟩

lemma mono (k : Keeps L s s') (hL : L' ⊆ L) : Keeps L' s s' :=
  ⟨k.file, k.proc, fun e he => k.kept e (he.mono hL)⟩

end Keeps

/-! ## Entries of the cache -/

/-- Replacing an entry by one that shows an inode that no other entry is of. -/
lemma Consistent.setEntry (c : Consistent sb s ino [])
    (hv : 0 < v.ref → v.dev = ROOTDEV ∧ v.inum < sb.ninodes ∧
      (∀ e' ≠ e, 0 < (s.inode e').ref → (s.inode e').inum ≠ v.inum) ∧
      (v.valid = true → v.toDInode = ino v.inum ∧ (ino v.inum).type ≠ 0)) :
    Consistent sb (s.setInode e v) ino [] := by
  refine ⟨c.mounted.setInode _ _, ⟨fun e' => ?_, fun e' => ?_, fun e₁ e₂ => ?_, fun e' => ?_,
    c.cached.disk, by simp⟩, c.good⟩
  · by_cases he : e' = e
    · subst he
      rw [setInode_inode_self]
      exact fun href => (hv href).1
    · rw [setInode_inode_of_ne he]
      exact c.cached.dev e'
  · by_cases he : e' = e
    · subst he
      rw [setInode_inode_self]
      exact fun href => (hv href).2.1
    · rw [setInode_inode_of_ne he]
      exact c.cached.inum e'
  · by_cases he₁ : e₁ = e
    · by_cases he₂ : e₂ = e
      · exact fun _ _ _ => he₁.trans he₂.symm
      · subst he₁
        rw [setInode_inode_self, setInode_inode_of_ne he₂]
        exact fun href href₂ heq => absurd heq.symm ((hv href).2.2.1 e₂ he₂ href₂)
    · by_cases he₂ : e₂ = e
      · subst he₂
        rw [setInode_inode_self, setInode_inode_of_ne he₁]
        exact fun href₁ href heq => absurd heq ((hv href).2.2.1 e₁ he₁ href₁)
      · rw [setInode_inode_of_ne he₁, setInode_inode_of_ne he₂]
        exact c.cached.uniq e₁ e₂
  · by_cases he : e' = e
    · subst he
      rw [setInode_inode_self]
      exact fun href => (hv href).2.2.2
    · rw [setInode_inode_of_ne he]
      exact c.cached.valid e'

/-- Changing the reference count or the lock of an entry in use. -/
lemma Consistent.setMeta (c : Consistent sb s ino []) (href : 0 < (s.inode e).ref)
    (hv : v = { s.inode e with ref := v.ref, busy := v.busy }) :
    Consistent sb (s.setInode e v) ino [] := by
  rw [hv]
  exact c.setEntry fun _ => ⟨c.cached.dev e href, c.cached.inum e href,
    fun e' he href' heq => he (c.cached.uniq e' e href' href heq), c.cached.valid e href⟩

namespace Inv

lemma ref_pos (i : Inv sb L s) (he : Held L s e) : 0 < (s.inode e).ref := by
  have := i.counts e
  have := he.count_pos
  omega

lemma pinned (i : Inv sb L s) : Pinned s := fun f e hf =>
  ⟨i.ref_pos (.inr (.inl ⟨f, hf⟩)), (i.opened f e hf).1⟩

lemma readAlloc (i : Inv sb L s) : s.seen.readAlloc = false := by
  obtain ⟨ino, c⟩ := i.content
  exact c.mounted.readAlloc

lemma perm (i : Inv sb L s) (hp : L.Perm L') : Inv sb L' s :=
  ⟨i.content, i.reading, fun e => by rw [i.counts e, hp.count_eq], i.opened, i.closed⟩

/-- The cache has changed, and the number of references held with it. -/
lemma change (i : Inv sb L s) (hc : ∃ ino, Consistent sb s' ino []) (hfile : s'.file = s.file)
    (hproc : s'.proc = s.proc) (hreading : s'.seen.reading = s.seen.reading)
    (href : ∀ e, (s'.inode e).ref + L.count e = (s.inode e).ref + L'.count e)
    (hshown : ∀ f e, (s.file f).link = some e → Shown s s' e) : Inv sb L' s' := by
  have hlinks : s'.links = s.links := by
    funext f
    rw [links, hfile, links]
  have hcwds : s'.cwds = s.cwds := by
    funext p
    rw [cwds, hproc, cwds]
  refine ⟨hc, hreading.trans i.reading, fun e => ?_, fun f e hf => ?_, ?_⟩
  · have := href e
    have := i.counts e
    rw [hlinks, hcwds]
    omega
  · rw [hfile] at hf ⊢
    obtain ⟨hval, hw⟩ := i.opened f e hf
    obtain ⟨hval', ht⟩ := (hshown f e hf).valid hval
    exact ⟨hval', fun hwr => ht ▸ hw hwr⟩
  · rw [hfile]
    exact i.closed

/-- Only entry `e` has changed, to one that shows the same inode. -/
lemma setInode (i : Inv sb L s) (hc : ∃ ino, Consistent sb (s.setInode e v) ino [])
    (href : v.ref + L.count e = (s.inode e).ref + L'.count e)
    (hother : ∀ e' ≠ e, L'.count e' = L.count e')
    (hshown : ∀ f, (s.file f).link = some e → Shown s (s.setInode e v) e) :
    Inv sb L' (s.setInode e v) := by
  refine i.change hc rfl rfl rfl (fun e' => ?_) fun f e' hf => ?_
  · by_cases he : e' = e
    · subst he
      rw [setInode_inode_self]
      exact href
    · rw [setInode_inode_of_ne he, hother e' he]
  · by_cases he : e' = e
    · subst he
      exact hshown f hf
    · exact .of_eq (setInode_inode_of_ne he)

/-- One inode has been edited. -/
lemma edited (i : Inv sb L s) (ed : Edited s e s') (c : Consistent sb s' ino []) : Inv sb L s' := by
  refine i.change ⟨ino, c⟩ ed.file ed.proc ed.reading (fun e' => ?_) fun _ e' _ => ed.shown e'
  obtain ⟨v, -, hi⟩ := ed.inode
  rw [hi]
  by_cases he : e' = e
  · subst he
    rw [Function.update_self]
  · rw [Function.update_of_ne he]

end Inv

/-! ## Taking references -/

/-- Entry `e` has a reference more. -/
lemma Inv.take (i : Inv sb L s) (hc : ∃ ino, Consistent sb (s.setInode e v) ino [])
    (href : v.ref = (s.inode e).ref + 1)
    (hshown : ∀ f, (s.file f).link = some e → Shown s (s.setInode e v) e) :
    Inv sb (e :: L) (s.setInode e v) := by
  refine i.setInode hc ?_ (fun e' he => List.count_cons_of_ne (Ne.symm he)) hshown
  rw [href, List.count_cons_self]
  omega

namespace Safe

lemma iget {Q : InodeId → FsState → Prop} (i : Inv sb L s) (hx : x < sb.ninodes)
    (h : ∀ e s', Inv sb (e :: L) s' → Keeps L s s' → s'.home = s.home → (s'.inode e).inum = x →
      ((∀ e', 0 < (s.inode e').ref → (s.inode e').inum = x → (s.inode e').valid = false) →
        (s'.inode e).valid = false) → Q e s') : Safe sb mode (Fs.iget ROOTDEV x) Q s := by
  obtain ⟨ino, c⟩ := i.content
  cases hfind : (List.finRange NINODE).find? fun e =>
      decide (0 < (s.inode e).ref ∧ (s.inode e).dev = ROOTDEV ∧ (s.inode e).inum = x) with
  | some e =>
      have hfound := List.find?_some hfind
      obtain ⟨href, -, hinum⟩ := of_decide_eq_true hfound
      have hexec : guarded sb mode (.iget ROOTDEV x) s =
          .ok e (s.setInode e { s.inode e with ref := (s.inode e).ref + 1 }) := by
        simp only [guarded, Act.exec, hfind]
      have hshown := Shown.setInode (s := s) (e := e)
        (v := { s.inode e with ref := (s.inode e).ref + 1 }) rfl fun hv => ⟨hv, rfl⟩
      refine act hexec (h e _ (i.take ⟨ino, c.setMeta href rfl⟩ rfl fun _ _ => hshown e)
        (.of_home rfl rfl rfl fun e' _ => hshown e') rfl ?_ fun hv => ?_)
      · rw [setInode_inode_self]
        exact hinum
      · rw [setInode_inode_self]
        exact hv e href hinum
  | none =>
      have hnone : ∀ e', 0 < (s.inode e').ref → (s.inode e').inum ≠ x := by
        intro e' href hinum
        have := List.find?_eq_none.1 hfind e' (List.mem_finRange e')
        exact this (decide_eq_true ⟨href, c.cached.dev e' href, hinum⟩)
      cases hfree : (List.finRange NINODE).find? fun e => decide ((s.inode e).ref = 0) with
      | none =>
          refine act_panic (a := .iget ROOTDEV x) "iget: no inodes" ?_
            c.mounted.readAlloc (by decide)
          simp only [guarded, Act.exec, hfind, hfree]
      | some e =>
          have hfound := List.find?_some hfree
          have hzero : (s.inode e).ref = 0 := of_decide_eq_true hfound
          have hexec : guarded sb mode (.iget ROOTDEV x) s = .ok e (s.setInode e { s.inode e with
              dev := ROOTDEV, inum := x, ref := 1, busy := false, valid := false }) := by
            simp only [guarded, Act.exec, hfind, hfree]
          -- nothing refers to the entry that is recycled
          have hunused : ∀ e', Held L s e' → e' ≠ e := by
            rintro e' he' rfl
            have := i.ref_pos he'
            omega
          refine act hexec (h e _ (i.take ⟨ino, c.setEntry fun _ => ⟨rfl, hx, fun e' _ => hnone e',
            fun hv => absurd hv (by simp)⟩⟩ ?_ fun f hf => ?_)
            (.of_home rfl rfl rfl fun e' he' => ?_) rfl ?_ fun _ => ?_)
          · rw [hzero]
            rfl
          · exact absurd rfl (hunused e (.inr (.inl ⟨f, hf⟩)))
          · exact .of_eq (setInode_inode_of_ne (hunused e' he'))
          · rw [setInode_inode_self]
          · rw [setInode_inode_self]

lemma idup {Q : Unit → FsState → Prop} (i : Inv sb L s) (he : Held L s e)
    (h : ∀ s', Inv sb (e :: L) s' → Keeps L s s' → Q () s') :
    Safe sb mode (Fs.idup e) Q s := by
  obtain ⟨ino, c⟩ := i.content
  have hshown := Shown.setInode (s := s) (e := e)
    (v := { s.inode e with ref := (s.inode e).ref + 1 }) rfl fun hv => ⟨hv, rfl⟩
  exact act (a := .idup e) rfl (h _ (i.take ⟨ino, c.setMeta (i.ref_pos he) rfl⟩ rfl
    fun _ _ => hshown e) (.of_home rfl rfl rfl fun e' _ => hshown e'))

/-! ## Locking -/

end Safe

/-- Changing the lock of an entry keeps everything. -/
lemma Keeps.setBusy {b : Bool} : Keeps L s (s.setInode e { s.inode e with busy := b }) :=
  .of_home rfl rfl rfl fun e' _ =>
    Shown.setInode (v := { s.inode e with busy := b }) rfl (fun hv => ⟨hv, rfl⟩) e'

namespace Safe

/-- `iunlock` changes the lock only. -/
lemma iunlock_inv {Q : Unit → FsState → Prop} (i : Inv sb L s)
    (h : ∀ s', Inv sb L s' → s' = s.setInode e { s.inode e with busy := false } → Q () s') :
    Safe sb mode (Fs.iunlock e) Q s := by
  obtain ⟨ino, c⟩ := i.content
  by_cases hbad : (s.inode e).busy = false ∨ (s.inode e).ref < 1
  · exact act_panic (a := .iunlock e) "iunlock" (by simp [guarded, Act.exec, hbad]) i.readAlloc
      (by decide)
  · have hexec : guarded sb mode (.iunlock e) s =
        .ok () (s.setInode e { s.inode e with busy := false }) := by
      simp [guarded, Act.exec, hbad]
    rw [not_or] at hbad
    have hshown := Shown.setInode (s := s) (e := e) (v := { s.inode e with busy := false }) rfl
      fun hv => ⟨hv, rfl⟩
    exact act hexec (h _ (i.setInode ⟨ino, c.setMeta (by omega) rfl⟩ rfl (fun _ _ => rfl)
      fun _ _ => hshown e) rfl)

/-- `ilock` makes the entry valid; the inode is read from disk if it was not. -/
lemma ilock {Q : Unit → FsState → Prop} (i : Inv sb L s)
    (h : ∀ s', Inv sb L s' → Keeps L s s' → s'.home = s.home → Live s' e (s.inode e).inum →
      ((s.inode e).valid = false → (s'.inode e).toDInode = s.node (s.inode e).inum) →
      Q () s') : Safe sb mode (Fs.ilock e) Q s := by
  obtain ⟨ino, c⟩ := i.content
  refine seq ?_
  by_cases href : (s.inode e).ref < 1
  · exact act_panic (a := .ilock e) "ilock" (by simp [guarded, Act.exec, href]) i.readAlloc
      (by decide)
  by_cases hbusy : (s.inode e).busy = true
  · exact act_sleep (a := .ilock e) (by simp [guarded, Act.exec, href, hbusy]) i.readAlloc
  have hpos : 0 < (s.inode e).ref := by omega
  have hexec : guarded sb mode (.ilock e) s =
    .ok () (s.setInode e { s.inode e with busy := true }) := by
    simp [guarded, Act.exec, href, hbusy]
  refine act hexec (seq (getInode ?_))
  rw [setInode_inode_self]
  by_cases hval : (s.inode e).valid = false
  · rw [if_pos hval]
    have hx := c.cached.inum e hpos
    have hblk := sb.iblock_lt_dataStart hx
    rw [c.cached.dev e hpos]
    refine seq (bread i.readAlloc fun _ => seq (data ?_))
    rw [setHeld_blk, setInode_blk, c.mounted.home_eq hblk]
    -- in the end the buffer is released, and the entry has the inode as it is on disk
    have hend : ∀ S : FsState, S = s.setInode e { s.inode e with
        toDInode := s.node (s.inode e).inum, busy := true, valid := true } →
        Safe sb mode (if (s.node (s.inode e).inum).type = 0 then Sys.panic "ilock: no type"
          else Pure.pure ()) Q S := by
      rintro S rfl
      split
      · exact panic i.readAlloc (by decide)
      · rename_i htype
        have hdisk := c.node_eq hx
        have hshown := Shown.setInode (s := s) (e := e) (v := { s.inode e with
          toDInode := s.node (s.inode e).inum, busy := true, valid := true }) rfl
          fun hv => absurd hv (by simp [hval])
        refine pure (h _ (i.setInode ⟨ino, c.setEntry fun _ => ⟨c.cached.dev e hpos, hx,
          fun e' he href' heq => he (c.cached.uniq e' e href' hpos heq), fun _ => ⟨hdisk, ?_⟩⟩⟩ rfl
          (fun _ _ => rfl) fun _ _ => hshown e) (.of_home rfl rfl rfl fun e' _ => hshown e') rfl
          ⟨?_, ?_, ?_⟩ fun _ => ?_)
        · rwa [← hdisk]
        · rw [setInode_inode_self]
          exact hpos
        · rw [setInode_inode_self]
        · rw [setInode_inode_self]
        · rw [setInode_inode_self]
    refine seq (setInode (seq (brelse (by simp) (seq (act (a := .setValid e) rfl (hend _ ?_))))))
    simp [FsState.setInode, FsState.setHeld, FsState.node, dinodeAt]
  · rw [if_neg hval]
    have hshown := Shown.setInode (s := s) (e := e) (v := { s.inode e with busy := true }) rfl
      fun hv => ⟨hv, rfl⟩
    refine pure (h _ (i.setInode ⟨ino, c.setMeta hpos rfl⟩ rfl (fun _ _ => rfl) fun _ _ => hshown e)
      (.of_home rfl rfl rfl fun e' _ => hshown e') rfl ⟨?_, ?_, ?_⟩ fun hv => absurd hv hval)
    · rw [setInode_inode_self]
      exact hpos
    · rw [setInode_inode_self]
      simpa using hval
    · rw [setInode_inode_self]

end Safe

/-! ## Dropping references -/

/-- Inode `x`, which had no links, has been freed with its blocks. -/
structure Freed (sb : Superblock) (s s' : FsState) (x : ℕ) : Prop where
  nlink : (s.node x).nlink = 0
  used : (s.node x).type ≠ 0
  type : (s'.node x).type = 0
  others : ∀ y < sb.ninodes, y ≠ x → SameNode s s' y
  bits : ∀ k, slotOf s.home (s.node x) k ≠ 0 →
    bitOf sb s'.home (slotOf s.home (s.node x) k) = false
  cleared : ∀ b < sb.size, bitOf sb s'.home b = true → bitOf sb s.home b = true

/-- A reference to entry `e` has been dropped.  If it was the last one to an inode without links,
the inode has been freed. -/
structure Dropped (sb : Superblock) (s : FsState) (e : InodeId) (s' : FsState) : Prop where
  content : ∃ ino, Consistent sb s' ino []
  file : s'.file = s.file
  proc : s'.proc = s.proc
  reading : s'.seen.reading = s.seen.reading
  ref : ∀ e', (s'.inode e').ref = (s.inode e').ref - if e' = e then 1 else 0
  kept : ∀ e', 0 < (s'.inode e').ref → Kept s s' e'
  volume : if (s.inode e).ref = 1 ∧ (s.inode e).valid = true ∧ (s.inode e).nlink = 0
    then Freed sb s s' (s.inode e).inum else s'.home = s.home

/-- The cache shows what is on disk. -/
lemma Consistent.coherent (c : Consistent sb s ino []) : s.Coherent := by
  intro e href hv
  have hx := c.cached.inum e href
  rw [(c.cached.valid e href hv).1, ← c.cached.disk _ hx (by simp), dinodeAt, dinodeAt,
    c.mounted.home_eq (sb.iblock_lt_dataStart hx)]

/-- The inode is marked free on disk, and its entry is given up. -/
lemma Consistent.freed (c : Consistent sb s ino []) (l : Live s e x)
    (haddr : ∀ k, (ino x).addr k = 0) (m : Mounted sb s')
    (hhome : s'.home = Function.update s.home (IBLOCK x)
      ({ ino x with type := 0 }.encode (s.home (IBLOCK x)) (Fs.inodeOffset x)))
    (hself : (s'.inode e).ref = 0) (hinode : ∀ e' ≠ e, s'.inode e' = s.inode e') :
    ∃ ino', Consistent sb s' ino' [] ∧ Others sb s ino x s' ino' ∧ (ino' x).type = 0 ∧
      ∀ b, bitOf sb s'.home b = bitOf sb s.home b := by
  have hx := c.cached.lt_of_live l
  have hlt := sb.iblock_lt hx
  have hltd := sb.iblock_lt_dataStart hx
  -- the entries in use are the others, and they are of other inodes
  have hother : ∀ e', 0 < (s'.inode e').ref → s'.inode e' = s.inode e' ∧ (s.inode e').inum ≠ x := by
    intro e' href
    have he : e' ≠ e := by
      rintro rfl
      omega
    have heq := hinode e' he
    rw [heq] at href
    exact ⟨heq, c.cached.inum_ne l he href⟩
  refine ⟨Function.update ino x { ino x with type := 0 }, ⟨m, ⟨fun e' href => ?_, fun e' href => ?_,
    fun e₁ e₂ href₁ href₂ => ?_, fun e' href => ?_, fun y hy _ => ?_, by simp⟩, ?_⟩,
    ⟨fun y hy => Function.update_of_ne hy _ _, fun y k b _ hown => ?_⟩,
    by rw [Function.update_self], fun b => ?_⟩
  · have heq := (hother e' href).1
    rw [heq] at href ⊢
    exact c.cached.dev e' href
  · have heq := (hother e' href).1
    rw [heq] at href ⊢
    exact c.cached.inum e' href
  · have heq₁ := (hother e₁ href₁).1
    have heq₂ := (hother e₂ href₂).1
    rw [heq₁] at href₁ ⊢
    rw [heq₂] at href₂ ⊢
    exact c.cached.uniq e₁ e₂ href₁ href₂
  · obtain ⟨heq, hne⟩ := hother e' href
    rw [heq] at href ⊢
    rw [Function.update_of_ne hne]
    exact c.cached.valid e' href
  · rw [hhome, dinodeAt_encode]
    by_cases hyx : y = x
    · rw [if_pos hyx, hyx, Function.update_self]
    · rw [if_neg hyx, Function.update_of_ne hyx]
      exact c.cached.disk y hy (by simp)
  · rw [hhome]
    refine Good.inodeBlock (c.good.setIno (fun k => ?_) (fun ht => absurd rfl ht)
      fun _ ht => absurd ht T_DIR_ne_zero.symm) c.mounted.sound hx
    simp [own, slotOf, haddr]
  · have := (c.good.owns.held _ _ hown).1.1
    rw [hhome, Function.update_of_ne (by omega)]
  · have := sb.le_bblock b
    rw [hhome, bitOf_update_of_ne (by omega)]

/-- What it takes for inode `x` to have been freed. -/
lemma Freed.of_others (c : Consistent sb s ino []) (c' : Consistent sb s' ino' []) (l : Live s e x)
    (hnlink : (s.inode e).nlink = 0) (o : Others sb s ino x s' ino') (htype : (ino' x).type = 0)
    (hbits : ∀ k b, own sb s.home ino (x, k) = some b → bitOf sb s'.home b = false)
    (hcleared : ∀ b < sb.size, bitOf sb s'.home b = true → bitOf sb s.home b = true) :
    Freed sb s s' x := by
  have hx := c.cached.lt_of_live l
  have ht := c.cached.type_of_live l
  have hnode := c.node_eq hx
  refine ⟨by rw [c.node_of_live l, hnlink], by rwa [hnode], by rw [c'.node_eq hx, htype],
    fun y hy hyx => o.same c c' hy hyx, fun k hk => ?_, hcleared⟩
  rw [hnode] at hk ⊢
  exact hbits k _ (own_slotOf hx ht hk)

/-- The only reference to entry `e` is gone, and its inode is freed. -/
lemma Freed.dropped (f : Freed sb s s' x) (c : Consistent sb s ino []) (l : Live s e x)
    (href : (s.inode e).ref = 1) (hc : ∃ ino, Consistent sb s' ino []) (hfile : s'.file = s.file)
    (hproc : s'.proc = s.proc) (hreading : s'.seen.reading = s.seen.reading)
    (hself : (s'.inode e).ref = 0) (hinode : ∀ e' ≠ e, s'.inode e' = s.inode e') :
    Dropped sb s e s' := by
  have hlast : (s.inode e).ref = 1 ∧ (s.inode e).valid = true ∧ (s.inode e).nlink = 0 :=
    ⟨href, l.valid, by rw [← c.node_of_live l, f.nlink]⟩
  refine ⟨hc, hfile, hproc, hreading, fun e' => ?_, fun e' hpos => ?_,
    by rw [if_pos hlast, l.inum]; exact f⟩
  · by_cases hne : e' = e
    · rw [hne, hself, if_pos rfl, href, sub_self]
    · rw [hinode e' hne, if_neg hne, sub_zero]
  · have hne : e' ≠ e := by
      rintro rfl
      omega
    rw [hinode e' hne] at hpos
    exact (Shown.of_eq (hinode e' hne)).kept_of_same
      (f.others _ (c.cached.inum e' hpos) (c.cached.inum_ne l hne hpos))

namespace Safe

/-- The part of `iput` that frees the inode. -/
lemma iput_free {Q : Unit → FsState → Prop} (c : Consistent sb s ino []) (l : Live s e x)
    (href : (s.inode e).ref = 1) (hnlink : (s.inode e).nlink = 0)
    (h : ∀ s', Dropped sb s e s' → Q () s') :
    Safe sb mode (do
      Fs.itrunc e
      let v ← Fs.getInode e
      Fs.setInode e { v.toDInode with type := 0 }
      Fs.iupdate e
      Fs.iputEnd e) Q (s.setInode e { s.inode e with busy := true }) := by
  have c₁ : Consistent sb (s.setInode e { s.inode e with busy := true }) ino [] :=
    c.setMeta l.ref rfl
  have l₁ : Live (s.setInode e { s.inode e with busy := true }) e x := by
    refine ⟨?_, ?_, ?_⟩ <;> rw [setInode_inode_self]
    · exact l.ref
    · exact l.valid
    · exact l.inum
  have hx := c.cached.lt_of_live l
  refine seq (itrunc c₁ l₁ fun s₂ ino₂ c₂ ed o _ haddr hbits hcleared => ?_)
  have l₂ := ed.live l₁
  obtain ⟨v, -, hi⟩ := ed.inode
  refine seq (getInode (seq (setInode (seq ?_))))
  refine iupdate (x := x) (c₂.mounted.setInode _ _) ?_ ?_ hx fun s₃ w₃ => ?_
  · rw [setInode_inode_self]
    exact c₂.cached.dev_of_live l₂
  · rw [setInode_inode_self]
    exact l₂.inum
  rw [setInode_inode_self, c₂.cached.eq_of_live l₂, setInode_home] at w₃
  refine act (a := .iputEnd e) rfl ?_
  have hend : ∀ S : FsState, S = s₃.setInode e { s₃.inode e with
      busy := false, valid := false, ref := (s₃.inode e).ref - 1 } → Q () S := by
    intro S hS
    have hother : ∀ e' ≠ e, S.inode e' = s₂.inode e' := by
      intro e' hne
      rw [hS, setInode_inode_of_ne hne, w₃.inode, setInode_inode_of_ne hne]
    have hself : (S.inode e).ref = 0 := by
      rw [hS, setInode_inode_self, w₃.inode, setInode_inode_self, hi, Function.update_self,
        setInode_inode_self]
      exact sub_eq_zero_of_eq href
    have hm : Mounted sb S := by
      rw [hS]
      exact ((c₂.mounted.setInode _ _).wrote w₃
        (Function.update_of_ne (iblock_ne_one x).symm _ _)).setInode _ _
    obtain ⟨ino₄, c₄, o₄, htype, hbit⟩ := c₂.freed l₂ haddr hm
      (by rw [hS, setInode_home, w₃.home]) hself hother
    have o₁ : Others sb s ino x s₂ ino₂ := ⟨o.node, o.data⟩
    have f : Freed sb s S x := .of_others c c₄ l hnlink (o₁.trans o₄) htype
      (fun k b hown => (hbit b).trans (hbits k b hown)) fun b hb => by
        rw [hbit]
        exact hcleared b hb
    refine h S (f.dropped c l href ⟨_, c₄⟩ ?_ ?_ ?_ hself fun e' hne => ?_)
    · rw [hS, setInode_file, w₃.file, setInode_file, ed.file, setInode_file]
    · rw [hS, setInode_proc, w₃.proc, setInode_proc, ed.proc, setInode_proc]
    · rw [hS, setInode_seen, w₃.reading, setInode_seen, ed.reading, setInode_seen]
    · rw [hother e' hne, hi, Function.update_of_ne hne, setInode_inode_of_ne hne]
  exact hend _ rfl

/-- `iput` of a reference that something holds. -/
lemma iput_dropped {Q : Unit → FsState → Prop} (i : Inv sb L s) (he : Held L s e)
    (h : ∀ s', Dropped sb s e s' → Q () s') : Safe sb mode (Fs.iput e) Q s := by
  obtain ⟨ino, c⟩ := i.content
  have hpos := i.ref_pos he
  have hw : Watched (.iputStart e) s := c.coherent
  refine seq ?_
  by_cases hlast : (s.inode e).ref = 1 ∧ (s.inode e).valid = true ∧ (s.inode e).nlink = 0
  · by_cases hbusy : (s.inode e).busy = true
    · exact act_panic (a := .iputStart e) "iput busy"
        (by simp [guarded, hw, Act.exec, hlast, hbusy]) i.readAlloc (by decide)
    have hexec : guarded sb mode (.iputStart e) s =
        .ok true (s.setInode e { s.inode e with busy := true }) := by
      simp [guarded, hw, Act.exec, hlast, hbusy]
    refine act hexec ?_
    rw [if_pos rfl]
    exact iput_free c ⟨hpos, hlast.2.1, rfl⟩ hlast.1 hlast.2.2 h
  · have hexec : guarded sb mode (.iputStart e) s =
        .ok false (s.setInode e { s.inode e with ref := (s.inode e).ref - 1 }) := by
      simp [guarded, hw, Act.exec, hlast]
    refine act hexec ?_
    rw [if_neg (by simp)]
    have hshown := Shown.setInode (s := s) (e := e)
      (v := { s.inode e with ref := (s.inode e).ref - 1 }) rfl fun hv => ⟨hv, rfl⟩
    refine pure (h _ ⟨⟨ino, c.setMeta hpos rfl⟩, rfl, rfl, rfl, fun e' => ?_,
      fun e' _ => (hshown e').kept rfl, by rw [if_neg hlast]; rfl⟩)
    by_cases hne : e' = e
    · subst hne
      rw [setInode_inode_self, if_pos rfl]
    · rw [setInode_inode_of_ne hne, if_neg hne, sub_zero]

end Safe

/-- The references that stay when the caller drops the one to `e` that it holds. -/
lemma Inv.dropped (i : Inv sb (e :: L) s) (d : Dropped sb s e s') : Inv sb L s' ∧ Keeps L s s' := by
  have hpos : ∀ e', Held L s e' → 0 < (s'.inode e').ref := by
    intro e' he'
    have hheld := he'.count_pos
    have hcount := i.counts e'
    rw [List.count_cons] at hcount
    rw [d.ref e', hcount]
    by_cases hne : e' = e
    · simp only [hne, beq_self_eq_true, if_true] at hheld ⊢
      omega
    · simp only [if_neg hne, beq_iff_eq, if_neg (Ne.symm hne)]
      omega
  refine ⟨i.change d.content d.file d.proc d.reading (fun e' => ?_) fun f e' hf => ?_,
    d.file, d.proc, fun e' he' => d.kept e' (hpos e' he')⟩
  · rw [d.ref e', List.count_cons]
    by_cases hne : e' = e
    · simp only [hne, beq_self_eq_true, if_true]
      omega
    · simp only [if_neg hne, beq_iff_eq, if_neg (Ne.symm hne)]
      omega
  · exact (d.kept e' (hpos e' (.inr (.inl ⟨f, hf⟩)))).toShown

/-- Inode `x` has links, or an open file or a process refers to it. -/
def Anchored (s : FsState) (x : ℕ) : Prop :=
  (s.node x).nlink ≠ 0 ∨ ∃ e, Held [] s e ∧ (s.inode e).inum = x

/-- So does every allocated inode. -/
def Rooted (sb : Superblock) (s : FsState) : Prop :=
  ∀ x < sb.ninodes, (s.node x).type ≠ 0 → Anchored s x

namespace Safe

lemma iput {Q : Unit → FsState → Prop} (i : Inv sb (e :: L) s)
    (h : ∀ s', Inv sb L s' → Keeps L s s' → Q () s') : Safe sb mode (Fs.iput e) Q s := by
  refine iput_dropped i (.inl (by simp)) fun s' d => ?_
  obtain ⟨i', k⟩ := i.dropped d
  exact h s' i' k

lemma iunlockput {Q : Unit → FsState → Prop} (i : Inv sb (e :: L) s)
    (h : ∀ s', Inv sb L s' → Keeps L s s' → Q () s') : Safe sb mode (Fs.iunlockput e) Q s := by
  refine seq (iunlock_inv i fun s₁ i₁ hs₁ => iput i₁ fun s₂ i₂ k₂ => h s₂ i₂ ?_)
  rw [hs₁] at k₂
  exact Keeps.setBusy.trans k₂

end Safe

end Xv6
