import Xv6.Fs.Calls

/-!
# Dropping references

`close`, `chdir` and `exit` make a file or a process give up its reference to an inode and drop
it with `iput`.  The rules of this file describe them as one or more such steps, and `Closes` says
what the steps do to the files that are open.
-/

namespace Xv6

open Lib FsState

variable {mode : Mode} {sb : Superblock} {s s' s₁ s₂ t : FsState} {L : List InodeId}
  {e ip : InodeId} {f : FileId} {p : ProcId} {x : ℕ}

/-! ## Giving up a reference -/

/-- From `s` to `t` a file or a process has given up its reference to entry `e`.  The process may
have been given a directory instead. -/
structure Release (sb : Superblock) (s : FsState) (e : InodeId) (t : FsState) : Prop where
  inv : Inv sb [e] t
  home : t.home = s.home
  inode : t.inode = s.inode
  links : ∀ f e', (t.file f).link = some e' → (s.file f).link = some e'
  links' : ∀ f e', (s.file f).link = some e' → (t.file f).link = some e' ∨ e' = e
  cwds : ∀ p e', (t.proc p).cwd = some e' →
    (∃ q, (s.proc q).cwd = some e') ∨ (t.node (t.inode e').inum).type = T_DIR

/-- A reference has been given up and dropped. -/
inductive Released (sb : Superblock) (s s' : FsState) : Prop
  | intro (t : FsState) (e : InodeId) (release : Release sb s e t) (dropped : Dropped sb t e s')
      (inv : Inv sb [] s')

lemma Dropped.setProc {v : ProcFiles} (d : Dropped sb s e s') :
    Dropped sb (s.setProc p v) e (s'.setProc p v) := by
  obtain ⟨ino, c⟩ := d.content
  have hleft : ∀ e', Shown (s.setProc p v) s e' := fun e' => .of_eq rfl
  have hright : ∀ e', Shown s' (s'.setProc p v) e' := fun e' => .of_eq rfl
  refine ⟨⟨ino, c.setProc v⟩, d.file, ?_, d.reading, d.ref, fun e' href =>
    (((hleft e').kept rfl).trans (d.kept e' href)).trans ((hright e').kept rfl), ?_⟩
  · funext q
    by_cases hq : q = p
    · rw [hq, setProc_proc_self, setProc_proc_self]
    · rw [setProc_proc_of_ne hq, setProc_proc_of_ne hq, d.proc]
  · have hv := d.volume
    rw [setProc_inode]
    split at hv
    · rename_i hlast
      rw [if_pos hlast]
      exact ⟨hv.nlink, hv.used, hv.type, fun y hy hne =>
        ⟨(hv.others y hy hne).node, (hv.others y hy hne).data⟩, hv.bits, hv.cleared⟩
    · rename_i hlast
      rw [if_neg hlast]
      exact hv

/-- A process changes its current directory, or has none any more. -/
lemma Release.of_cwd {o : Option InodeId} (i : Inv sb o.toList s) (hp : (s.proc p).cwd = some e)
    (hdir : ∀ e', o = some e' → (s.inode e').valid = true ∧ (s.inode e').type = T_DIR) :
    Release sb s e (s.setProc p { s.proc p with cwd := o }) := by
  have hcwds : ∀ q e', ((s.setProc p { s.proc p with cwd := o }).proc q).cwd = some e' →
      (s.proc q).cwd = some e' ∨ o = some e' := by
    intro q e' hq
    by_cases hqp : q = p
    · rw [hqp, setProc_proc_self] at hq
      exact .inr hq
    · rw [setProc_proc_of_ne hqp] at hq
      exact .inl hq
  refine ⟨i.setProc fun e' => ?_, rfl, rfl, fun _ _ hf => hf, fun _ _ hf => .inl hf,
    fun q e' hq => ?_⟩
  · rw [hp, count_cons_eq_add_isRef]
    cases o with
    | none => rfl
    | some e₀ =>
        rw [Option.toList_some, count_cons_eq_add_isRef]
        simp only [List.count_nil]
        omega
  · rcases hcwds q e' hq with h | h
    · exact .inl ⟨q, h⟩
    · obtain ⟨hv, ht⟩ := hdir e' h
      refine .inr ?_
      have l : Live s e' (s.inode e').inum := i.live (.inl (by simp [h])) hv
      exact (congrArg DInode.type (i.node_of_live l)).trans ht

/-- A file is closed. -/
lemma Release.of_file {v : File} (hlink : (s.file f).link = some e) (hv : v.link = none)
    (i : Inv sb [e] (s.setFile f v)) : Release sb s e (s.setFile f v) := by
  have hlinks : ∀ f' e', ((s.setFile f v).file f').link = some e' → (s.file f').link = some e' := by
    intro f' e' hf'
    by_cases hne : f' = f
    · rw [hne, setFile_file_self, hv] at hf'
      exact absurd hf' (by simp)
    · rwa [setFile_file_of_ne hne] at hf'
  have hlinks' : ∀ f' e', (s.file f').link = some e' →
      ((s.setFile f v).file f').link = some e' ∨ e' = e := by
    intro f' e' hf'
    by_cases hne : f' = f
    · rw [hne, hlink] at hf'
      exact .inr (Option.some.inj hf').symm
    · exact .inl (by rw [setFile_file_of_ne hne]; exact hf')
  exact ⟨i, rfl, rfl, hlinks, hlinks', fun q e' hq => .inl ⟨q, hq⟩⟩

/-! ## The files that are open -/

/-- From `s` to `s'` inodes without links may have been freed, and the others stay. -/
structure Shrunk (sb : Superblock) (s s' : FsState) : Prop where
  node : ∀ x < sb.ninodes, SameNode s s' x ∨
    ((s.node x).nlink = 0 ∧ (s.node x).type ≠ 0 ∧ (s'.node x).type = 0)
  cleared : ∀ b < sb.size, bitOf sb s'.home b = true → bitOf sb s.home b = true

/-- Inode `x` is free, and so are the blocks that it had in `s`. -/
def Gone (sb : Superblock) (s s' : FsState) (x : ℕ) : Prop :=
  (s'.node x).type = 0 ∧ ∀ k, slotOf s.home (s.node x) k ≠ 0 →
    bitOf sb s'.home (slotOf s.home (s.node x) k) = false

/-- What becomes of the file of entry `e`, which is open in `s`: it is kept as long as it is
open, and when it is not any more it is freed if it has no links. -/
structure Survives (sb : Superblock) (s s' : FsState) (e : InodeId) : Prop where
  kept : Open s' e → Kept s s' e
  closed : ¬ Open s' e → (s.inode e).type = T_FILE →
    if (s.inode e).nlink = 0 then Gone sb s s' (s.inode e).inum
    else SameNode s s' (s.inode e).inum

/-- From `s` to `s'` files have been closed. -/
structure Closes (sb : Superblock) (s s' : FsState) : Prop where
  links : ∀ f e, (s'.file f).link = some e → (s.file f).link = some e
  shrunk : Shrunk sb s s'
  survives : ∀ e, Open s e → Survives sb s s' e

namespace Shrunk

lemma of_home (hh : s'.home = s.home) : Shrunk sb s s' :=
  ⟨fun x _ => .inl (.of_home hh x), fun b _ hb => by rwa [hh] at hb⟩

lemma of_freed (fr : Freed sb s s' x) : Shrunk sb s s' := by
  refine ⟨fun y hy => ?_, fr.cleared⟩
  by_cases hyx : y = x
  · exact .inr (hyx ▸ ⟨fr.nlink, fr.used, fr.type⟩)
  · exact .inl (fr.others y hy hyx)

lemma trans (h₁ : Shrunk sb s s₁) (h₂ : Shrunk sb s₁ s₂) : Shrunk sb s s₂ := by
  refine ⟨fun x hx => ?_, fun b hb hbit => h₁.cleared b hb (h₂.cleared b hb hbit)⟩
  rcases h₁.node x hx with n₁ | ⟨hn, hu, ht⟩
  · rcases h₂.node x hx with n₂ | hfree
    · exact .inl (n₁.trans n₂)
    · rw [n₁.node] at hfree
      exact .inr hfree
  · rcases h₂.node x hx with n₂ | ⟨-, hu₂, -⟩
    · exact .inr ⟨hn, hu, by rw [n₂.node, ht]⟩
    · exact absurd ht hu₂

end Shrunk

namespace Closes

/-- Nothing that matters for inodes has changed. -/
lemma of_home (hh : s'.home = s.home) (hinode : s'.inode = s.inode)
    (hlinks : ∀ f, (s'.file f).link = (s.file f).link) : Closes sb s s' := by
  refine ⟨fun f e hf => (hlinks f).symm.trans hf, .of_home hh, fun e hopen => ⟨fun _ => ?_, ?_⟩⟩
  · exact (Shown.of_eq (congrFun hinode e)).kept hh
  · obtain ⟨f, hf⟩ := hopen
    exact fun hno => absurd ⟨f, (hlinks f).trans hf⟩ hno

/-- First some files are closed, then others. -/
lemma trans (i : Inv sb [] s) (i₁ : Inv sb [] s₁) (h₁ : Closes sb s s₁) (h₂ : Closes sb s₁ s₂) :
    Closes sb s s₂ := by
  refine ⟨fun f e hf => h₁.links f e (h₂.links f e hf), h₁.shrunk.trans h₂.shrunk, fun e he => ?_⟩
  have l := i.live_of_open he
  have hx := i.inum_lt l
  have hv₁ := h₁.survives e he
  refine ⟨fun ⟨f, hf⟩ => ?_, fun hno ht => ?_⟩
  · have hopen₁ : Open s₁ e := ⟨f, h₂.links f e hf⟩
    exact (hv₁.kept hopen₁).trans ((h₂.survives e hopen₁).kept ⟨f, hf⟩)
  have hnode := i.node_of_live l
  by_cases hopen₁ : Open s₁ e
  · -- the file stays open at first, so its inode is not freed then
    have hk := hv₁.kept hopen₁
    have hused : (s₁.node (s.inode e).inum).type ≠ 0 := by
      rw [hk.type (i.node_type l)]
      exact i.node_type l
    have n₁ : SameNode s s₁ (s.inode e).inum :=
      (h₁.shrunk.node _ hx).resolve_right fun hfree => hused hfree.2.2
    have hsame : (s₁.inode e).toDInode = (s.inode e).toDInode := by
      rw [← hnode, ← n₁.node, ← hk.inum, ← i₁.node_of_live (i₁.live_of_open hopen₁)]
    have hclosed := (h₂.survives e hopen₁).closed hno (by rw [hsame]; exact ht)
    rw [hsame, hk.inum] at hclosed
    split at hclosed
    · rename_i hzero
      rw [if_pos hzero]
      refine ⟨hclosed.1, fun k hk => ?_⟩
      have hslot := n₁.file.slot (i.node_type l) k
      rw [← hslot] at hk ⊢
      exact hclosed.2 k hk
    · rename_i hlinks
      rw [if_neg hlinks]
      exact n₁.trans hclosed
  · have hclosed := hv₁.closed hopen₁ ht
    split at hclosed
    · rename_i hzero
      rw [if_pos hzero]
      have n₂ : SameNode s₁ s₂ (s.inode e).inum :=
        (h₂.shrunk.node _ hx).resolve_right fun hfree => hfree.2.1 hclosed.1
      refine ⟨by rw [n₂.node, hclosed.1], fun k hk => ?_⟩
      have hlt := i.slot_lt_size hx (i.node_type l) hk
      rw [Bool.eq_false_iff]
      exact fun hb => Bool.eq_false_iff.1 (hclosed.2 k hk) (h₂.shrunk.cleared _ hlt hb)
    · rename_i hlinks
      rw [if_neg hlinks]
      refine hclosed.trans ((h₂.shrunk.node _ hx).resolve_right fun hfree => hlinks ?_)
      rw [← hnode, ← hclosed.node]
      exact hfree.1

end Closes

/-- What is still open is kept. -/
lemma Released.kept (r : Released sb s s') (hopen : Open s' e) : Kept s s' e := by
  obtain ⟨t, e', r, d, i'⟩ := r
  exact ((Shown.of_eq (congrFun r.inode e)).kept r.home).trans
    (d.kept e (i'.ref_pos (.inr (.inl hopen))))

/-- What a step does to the files that are open. -/
lemma Released.closes (i : Inv sb [] s) (hdirs : Dirs s) (r : Released sb s s') :
    Closes sb s s' := by
  have hkept : ∀ e', Open s' e' → Kept s s' e' := fun e' => r.kept
  obtain ⟨t, e, r, d, i'⟩ := r
  have hlinks : ∀ f' e', (s'.file f').link = some e' → (s.file f').link = some e' := by
    intro f' e' hf'
    rw [d.file] at hf'
    exact r.links f' e' hf'
  have hshrunk : Shrunk sb t s' := by
    have hvol := d.volume
    split at hvol
    · exact .of_freed hvol
    · exact .of_home hvol
  refine ⟨hlinks, (Shrunk.of_home r.home).trans hshrunk, fun e' he' => ⟨hkept e', fun hno ht => ?_⟩⟩
  -- it is the entry whose reference was given up
  obtain ⟨f', hf'⟩ := id he'
  obtain rfl : e' = e := (r.links' f' e' hf').resolve_left fun h =>
    hno ⟨f', by rw [d.file]; exact h⟩
  have l := i.live_of_open he'
  have hnode := i.node_of_live l
  have hcwds : refs t.cwds e' = 0 := refs_eq_zero fun p hp => by
    have hdir : (t.node (t.inode e').inum).type = T_DIR := by
      rcases r.cwds p e' hp with ⟨q, hq⟩ | hdir
      · rw [node_congr r.home, r.inode]
        exact hdirs q e' hq
      · exact hdir
    rw [node_congr r.home, r.inode, hnode, ht] at hdir
    exact absurd hdir (by decide)
  have hzero : refs t.links e' = 0 := refs_eq_zero fun g hg =>
    hno ⟨g, by rw [d.file]; exact hg⟩
  have href : (t.inode e').ref = 1 := by
    have := r.inv.counts e'
    rw [hcwds, hzero, List.count_singleton_self] at this
    exact this
  have hvol := d.volume
  rw [r.inode] at href hvol
  by_cases hnlink : (s.inode e').nlink = 0
  · rw [if_pos ⟨href, l.valid, hnlink⟩] at hvol
    rw [if_pos hnlink]
    refine ⟨hvol.type, fun k hk => ?_⟩
    have hbits := hvol.bits k
    rw [node_congr r.home, r.home] at hbits
    exact hbits hk
  · rw [if_neg fun hall => hnlink hall.2.2] at hvol
    rw [if_neg hnlink]
    exact .of_home (hvol.trans r.home) _

/-- The current directories stay directories. -/
lemma Released.dirs (hdirs : Dirs s) (r : Released sb s s') : Dirs s' := by
  obtain ⟨t, e, r, d, i'⟩ := r
  intro p e' hp
  have hk := d.kept e' (i'.ref_pos (.inr (.inr ⟨p, hp⟩)))
  rw [d.proc] at hp
  have hdir : (t.node (t.inode e').inum).type = T_DIR := by
    rcases r.cwds p e' hp with ⟨q, hq⟩ | hdir
    · rw [node_congr r.home, r.inode]
      exact hdirs q e' hq
    · exact hdir
  rw [hk.inum, hk.type (by rw [hdir]; exact T_DIR_ne_zero), hdir]

/-! ## The calls -/

namespace Safe

/-- `fileclose` gives up the reference of the file, or leaves it. -/
lemma fileclose_release {Q : Unit → FsState → Prop} (i : Inv sb [] s)
    (hsame : ∀ s', Inv sb [] s' → Calm s s' → Q () s')
    (hdrop : ∀ s', Released sb s s' → Q () s') : Safe sb mode (Fs.fileclose f) Q s := by
  refine fileclose i (fun s' i' hh hi hp hl => hsame s' i' ⟨hh, hi, hl, fun p => by rw [hp]⟩)
    fun e s₁ s' hlink hs₁ i₁ i' d => hdrop s' ⟨s₁, e, ?_, d, i'⟩
  rw [hs₁] at i₁ ⊢
  exact .of_file hlink rfl i₁

lemma sysClose {Q : ℤ → FsState → Prop} {fd : ℤ} (i : Inv sb [] s)
    (hsame : ∀ r s', Inv sb [] s' → Calm s s' → Q r s')
    (hdrop : ∀ s₁ s', Inv sb [] s₁ → Calm s s₁ → Released sb s₁ s' → Q 0 s') :
    Safe sb mode (Fs.sysClose p fd) Q s := by
  refine seq (argfd (pure (hsame _ s i (.refl s))) fun fd' f _ _ => seq (setOfile (seq ?_)))
  have c := Calm.setOfile (s := s) p fd' none
  exact fileclose_release (i.setOfile fd' none)
    (fun s' i' c' => pure (hsame _ s' i' (c.trans c')))
    fun s' r => pure (hdrop _ s' (i.setOfile fd' none) c r)

/-- The loop of `exit`: what every step keeps holds in the end. -/
lemma exitFiles {Q : Unit → FsState → Prop} {I : FsState → Prop} {fds : List Fd}
    (hcalm : ∀ s s', I s → Inv sb [] s' → Calm s s' → I s')
    (hdrop : ∀ s s', I s → Inv sb [] s → Released sb s s' → I s')
    (i : Inv sb [] s) (hI : I s) (h : ∀ s', Inv sb [] s' → I s' → Q () s') :
    Safe sb mode (Fs.exitFiles p fds) Q s := by
  induction fds generalizing s with
  | nil => exact pure (h s i hI)
  | cons fd fds ih =>
      rw [Fs.exitFiles]
      refine seq (act (a := .getOfile p fd) rfl ?_)
      cases (s.proc p).ofile fd with
      | none => exact ih i hI
      | some f =>
          have hrest : ∀ s₁, Inv sb [] s₁ → I s₁ → Safe sb mode (do
              Fs.setOfile p fd none
              Fs.exitFiles p fds) Q s₁ := fun s₁ i₁ hI₁ =>
            seq (setOfile (ih (i₁.setOfile fd none)
              (hcalm s₁ _ hI₁ (i₁.setOfile fd none) (.setOfile p fd none))))
          refine seq (fileclose_release i (fun s₁ i₁ c₁ => ?_) fun s₁ r => ?_)
          · exact hrest s₁ i₁ (hcalm s s₁ hI i₁ c₁)
          · have hI₁ := hdrop s s₁ hI i r
            obtain ⟨-, -, -, -, i₁⟩ := r
            exact hrest s₁ i₁ hI₁

lemma exit {Q : ℤ → FsState → Prop} {I : FsState → Prop}
    (hcalm : ∀ s s', I s → Inv sb [] s' → Calm s s' → I s')
    (hdrop : ∀ s s', I s → Inv sb [] s → Released sb s s' → I s')
    (i : Inv sb [] s) (hI : I s) (h : ∀ r s', Inv sb [] s' → I s' → Q r s') :
    Safe sb mode (Fs.exit p) Q s := by
  rw [Fs.exit]
  split
  · exact panic i.readAlloc (by decide)
  refine seq (exitFiles hcalm hdrop i hI fun s₁ i₁ hI₁ => seq (act (a := .getCwd p) rfl ?_))
  cases hcwd : (s₁.proc p).cwd with
  | none => exact panic i₁.readAlloc (by decide)
  | some e =>
      refine seq (iput_dropped i₁ (.inr (.inr ⟨p, hcwd⟩)) fun s₂ d => seq (setCwd (pure ?_)))
      have r : Release sb s₁ e (s₁.setProc p { s₁.proc p with cwd := none }) :=
        .of_cwd (o := none) i₁ hcwd fun _ h => absurd h (by simp)
      have d' := d.setProc (p := p) (v := { s₁.proc p with cwd := none })
      have i' := (r.inv.dropped d').1
      rw [d.proc]
      exact h _ _ i' (hdrop s₁ _ hI₁ i₁ ⟨_, e, r, d', i'⟩)

/-- `chdir` gives up the reference to the old directory for one to the new. -/
lemma sysChdir {Q : ℤ → FsState → Prop} {path : Option Name} (i : Inv sb [] s)
    (hsame : ∀ r s', Inv sb [] s' → Keeps [] s s' → Q r s')
    (hdrop : ∀ s₁ s', Keeps [] s s₁ → Released sb s₁ s' → s'.file = s₁.file → Q 0 s') :
    Safe sb mode (Fs.sysChdir p path) Q s := by
  cases path with
  | none => exact pure (hsame _ s i (.refl _ _))
  | some path =>
      refine seq (namei i (fun s' i' k' => pure (hsame _ s' i' k')) fun ip s₁ r => ?_)
      refine seq (ilock r.inv fun s₂ i₂ k₂ _ l₂ _ => seq (getInode ?_))
      have k : Keeps [] s s₂ := r.keeps.trans (k₂.mono (by simp))
      split
      · exact seq (iunlockput i₂ fun s₃ i₃ k₃ => pure (hsame _ s₃ i₃ (k.trans k₃)))
      rename_i hdir
      refine seq (iunlock_inv i₂ fun s₃ i₃ hs₃ => seq (act (a := .getCwd p) rfl ?_))
      have k₃ : Keeps [ip] s₂ s₃ := by
        rw [hs₃]
        exact .setBusy
      cases hcwd : (s₃.proc p).cwd with
      | none => exact panic i₃.readAlloc (by decide)
      | some e =>
          refine seq (iput_dropped i₃ (.inr (.inr ⟨p, hcwd⟩)) fun s₄ d => seq (setCwd (pure ?_)))
          have hv := (k₃.kept ip (.inl (by simp))).valid l₂.valid
          have rel : Release sb s₃ e (s₃.setProc p { s₃.proc p with cwd := some ip }) := by
            refine .of_cwd (o := some ip) i₃ hcwd fun e' he' => ?_
            obtain rfl := Option.some.inj he'
            exact ⟨hv.1, hv.2.trans (not_not.1 hdir)⟩
          have d' := d.setProc (p := p) (v := { s₃.proc p with cwd := some ip })
          have i' := (rel.inv.dropped d').1
          rw [d.proc]
          exact hdrop s₃ _ (k.trans (k₃.mono (by simp))) ⟨_, e, rel, d', i'⟩ d.file

end Safe

end Xv6
