import Xv6.Fs.Neutral
import Xv6.Fs.Machine
import Xv6.Fs.Files

/-!
# References to inodes and to files

Whatever the disk holds, references balance: an inode of the cache has as many as files and
processes refer to it, and a file as many as descriptors.  `Balanced c L F t s` is the invariant
when the functions that run hold the references `L` to inodes and `F` to files, and `t` is what
the processes are to be counted with.  The latter is `s.proc` between calls; `exit` and `chdir`
drop a reference before they store the new value.

A pipe has a file for each end that is open, and its page is freed when the second one goes.
-/

namespace Xv6

open Lib FsState

/-! ## The invariant -/

/-- The page of a file that is an end of a pipe. -/
def File.page (f : File) : Option ℕ := if f.type = .pipe then some f.pipe else none

/-- Is this end of the pipe open? -/
def PipeEnds.isOpen (ends : PipeEnds) (writable : Bool) : Bool :=
  if writable then ends.writeopen else ends.readopen

/-- The descriptors. -/
def ofiles (t : ProcId → ProcFiles) (i : ProcId × Fd) : Option FileId := (t i.1).ofile i.2

/-- The current directories. -/
def dirs (t : ProcId → ProcFiles) (p : ProcId) : Option InodeId := (t p).cwd

/-- Is there a file for an end of the pipe in this page? -/
def PipeLive (s : FsState) (page : ℕ) : Prop := ∃ f, (s.file f).page = some page

instance (s : FsState) (page : ℕ) : Decidable (PipeLive s page) :=
  inferInstanceAs (Decidable (∃ _, _))

/-- The pipes: an end is open iff a file stands for it, and one file only; the pages of pipes are
not free; and every page has been freed as often as it became a pipe, but for the pipe that it
is now. -/
structure Pipes (s : FsState) : Prop where
  isOpen : ∀ f page, (s.file f).page = some page → (s.pipe page).isOpen (s.file f).writable = true
  file : ∀ f page w, (s.file f).page = some page → (s.pipe page).isOpen w = true →
    ∃ g, (s.file g).page = some page ∧ (s.file g).writable = w
  uniq : ∀ f g page, (s.file f).page = some page → (s.file g).page = some page →
    (s.file f).writable = (s.file g).writable → f = g
  nodup : s.outside.freelist.Nodup
  used : ∀ f page, (s.file f).page = some page → page ∉ s.outside.freelist
  once : ∀ page, s.seen.pipes.count page =
    s.seen.kfrees.count page + if PipeLive s page then 1 else 0

/-- The invariant; that of the pipes if `c`. -/
structure Balanced (c : Prop) (L : List InodeId) (F : List FileId) (t : ProcId → ProcFiles)
    (s : FsState) :
    Prop where
  inodes : ∀ e, (s.inode e).ref = ((L.count e + refs s.links e + refs (dirs t) e : ℕ) : ℤ)
  uniq : ∀ e e', 0 < (s.inode e).ref → 0 < (s.inode e').ref → (s.inode e).dev = (s.inode e').dev →
    (s.inode e).inum = (s.inode e').inum → e = e'
  files : ∀ f, (s.file f).ref = ((F.count f + refs (ofiles t) f : ℕ) : ℤ)
  closed : ∀ f, (s.file f).ref = 0 → (s.file f).type = .none
  pipes : c → Pipes s

variable {c : Prop} {L : List InodeId} {F F' : List FileId} {t t' : ProcId → ProcFiles}
    {s s' s₁ : FsState}
  {e : InodeId} {f g : FileId} {α β : Type}

lemma Pipes.congr (h : Pipes s) (hfile : ∀ g, (s'.file g).page = (s.file g).page ∧
      ((s.file g).page ≠ none → (s'.file g).writable = (s.file g).writable))
    (hpipe : s'.pipe = s.pipe) (hfree : s'.outside.freelist = s.outside.freelist)
    (hpipes : s'.seen.pipes = s.seen.pipes) (hkfrees : s'.seen.kfrees = s.seen.kfrees) :
    Pipes s' := by
  have hpage : ∀ g, (s'.file g).page = (s.file g).page := fun g => (hfile g).1
  have hw : ∀ g page, (s.file g).page = some page → (s'.file g).writable = (s.file g).writable :=
    fun g page hg => (hfile g).2 (by simp [hg])
  refine ⟨fun f page hf => ?_, fun f page w hf hw' => ?_, fun f g page hf hg => ?_, ?_,
    fun f page hf => ?_, fun page => ?_⟩
  · rw [hpage] at hf
    rw [hpipe, hw f page hf]
    exact h.isOpen f page hf
  · rw [hpage] at hf
    rw [hpipe] at hw'
    obtain ⟨g, hg, hgw⟩ := h.file f page w hf hw'
    exact ⟨g, (hpage g).trans hg, (hw g page hg).trans hgw⟩
  · rw [hpage] at hf hg
    rw [hw f page hf, hw g page hg]
    exact h.uniq f g page hf hg
  · rw [hfree]
    exact h.nodup
  · rw [hpage] at hf
    rw [hfree]
    exact h.used f page hf
  · simp only [PipeLive, hpage, hpipes, hkfrees]
    exact h.once page

namespace Balanced

/-- What neutral programs leave is enough. -/
lemma still (b : Balanced c L F t s) (h : Still s s') : Balanced c L F t s' := by
  refine ⟨fun e => ?_, fun e e' => ?_, fun f => ?_, fun f => ?_,
    fun hc => (b.pipes hc).congr (fun g => ⟨by rw [h.file], fun _ => by rw [h.file]⟩)
    h.pipe h.freelist
      h.pipes h.kfrees⟩
  · have hlinks : s'.links = s.links := funext fun f => by rw [links, links, h.file]
    rw [h.ref, hlinks]
    exact b.inodes e
  · rw [h.ref, h.ref, h.dev, h.dev, h.inum, h.inum]
    exact b.uniq e e'
  · rw [h.file]
    exact b.files f
  · rw [h.file]
    exact b.closed f

/-- The order of the references does not matter. -/
lemma perm {L' : List InodeId} (b : Balanced c L F t s) (h : L.Perm L') : Balanced c L' F t s :=
  ⟨fun e => by rw [b.inodes e, h.count_eq], b.uniq, b.files, b.closed, b.pipes⟩

lemma permFiles (b : Balanced c L F t s) (h : F.Perm F') : Balanced c L F' t s :=
  ⟨b.inodes, b.uniq, fun f => by rw [b.files f, h.count_eq], b.closed, b.pipes⟩

/-- Count the processes in another way. -/
lemma count (b : Balanced c L F t s) (hfiles : ∀ f, F.count f + refs (ofiles t) f =
      F'.count f + refs (ofiles t') f) {L' : List InodeId}
    (hinodes : ∀ e, L.count e + refs (dirs t) e = L'.count e + refs (dirs t') e) :
    Balanced c L' F' t' s := by
  refine ⟨fun e => ?_, b.uniq, fun f => ?_, b.closed, b.pipes⟩
  · rw [b.inodes e]
    have := hinodes e
    omega
  · rw [b.files f, hfiles f]

end Balanced

/-! ## Rules -/

/-- If the run of `p` from `s` returns, it does so in `Q`. -/
def Ret (p : Sys α) (Q : α → FsState → Prop) (s : FsState) : Prop :=
  Wp (p.run Act.exec) Q (fun _ _ => True) s

namespace Ret

variable {p : Sys α} {k : α → Sys β} {Q Q' : α → FsState → Prop} {P : β → FsState → Prop}

lemma pure {a : α} (h : Q a s) : Ret (Pure.pure a) Q s := h

lemma seq (h : Ret p (fun a s' => Ret (k a) P s') s) : Ret (p >>= k) P s := Wp.of_seq h

lemma mono (h : Ret p Q s) (hQ : ∀ a s', Q a s' → Q' a s') : Ret p Q' s :=
  Wp.mono h hQ fun _ _ _ => trivial

lemma stop {msg : String} : Ret (Sys.panic msg : Sys α) Q s := trivial

lemma act {a : Act} {Q : a.Result → FsState → Prop}
    (h : ∀ r s', a.exec s = .ok r s' → Q r s') : Ret (Sys.act a) Q s := by
  refine Wp.of_perform ?_
  cases hx : a.exec s with
  | ok r s' => exact .of_ok hx (h r s' hx)
  | error r s' => exact .of_error hx trivial

/-- An action that always returns. -/
lemma act_eq {a : Act} {Q : a.Result → FsState → Prop} {r : a.Result} (hx : a.exec s = .ok r s')
    (h : Q r s') : Ret (Sys.act a) Q s :=
  act fun r₁ s₁ hx₁ => by
    obtain ⟨rfl, rfl⟩ := EStateM.Result.ok.inj (hx.symm.trans hx₁)
    exact h

lemma of_run (h : ∀ a, Q a (endState (p.run Act.exec) s)) : Ret p Q s := by
  rw [Ret, Wp]
  cases hx : p.run Act.exec s with
  | ok a s' =>
      have ha := h a
      rwa [endState, hx] at ha
  | error r s' => trivial

/-- A neutral program. -/
lemma neutral (hp : IsNeutral p) (h : ∀ a s', Still s s' → Q a s') : Ret p Q s :=
  of_run fun a => h a _ (hp.run .refl (fun _ _ _ => .trans) still_exec)

/-- A program that leaves files and processes alone. -/
lemma inner (hp : IsInner p) (h : Ret p (fun a s' => SameTables s s' → Q a s') s) : Ret p Q s := by
  have htables : SameTables s (endState (p.run Act.exec) s) :=
    hp.run .refl (fun _ _ _ => .trans) sameTables_exec
  rw [Ret, Wp] at h ⊢
  cases hx : p.run Act.exec s with
  | ok a s' =>
      rw [hx] at h
      rw [endState, hx] at htables
      exact h htables
  | error r s' => trivial

end Ret

/-! ## References to inodes -/

/-- Another reference count, and no other inode. -/
lemma Balanced.setEntry {L' : List InodeId} {v : Inode} (b : Balanced c L F t s)
    (hL : ∀ e', e' ≠ e → L'.count e' = L.count e')
    (href : v.ref = ((L'.count e + refs s.links e + refs (dirs t) e : ℕ) : ℤ))
    (huniq : ∀ e', e' ≠ e → 0 < v.ref → 0 < (s.inode e').ref → v.dev = (s.inode e').dev →
      v.inum ≠ (s.inode e').inum) : Balanced c L' F t (s.setInode e v) := by
  refine ⟨fun e' => ?_, fun e₁ e₂ => ?_, b.files, b.closed,
    fun hc => (b.pipes hc).congr (fun _ => ⟨rfl, fun _ => rfl⟩) rfl rfl rfl rfl⟩
  · by_cases he : e' = e
    · subst he
      rw [setInode_inode_self]
      exact href
    · rw [setInode_inode_of_ne he, hL e' he]
      exact b.inodes e'
  · by_cases h₁ : e₁ = e <;> by_cases h₂ : e₂ = e
    · exact fun _ _ _ _ => h₁.trans h₂.symm
    · subst h₁
      rw [setInode_inode_self, setInode_inode_of_ne h₂]
      exact fun hr hr' hd hi => absurd hi (huniq e₂ h₂ hr hr' hd)
    · subst h₂
      rw [setInode_inode_self, setInode_inode_of_ne h₁]
      exact fun hr hr' hd hi => absurd hi.symm (huniq e₁ h₁ hr' hr hd.symm)
    · rw [setInode_inode_of_ne h₁, setInode_inode_of_ne h₂]
      exact b.uniq e₁ e₂

lemma Balanced.setRef {L' : List InodeId} {v : Inode} (b : Balanced c L F t s)
    (hL : ∀ e', e' ≠ e → L'.count e' = L.count e')
    (href : v.ref + L.count e = (s.inode e).ref + L'.count e)
    (hpos : 0 < v.ref → 0 < (s.inode e).ref) (hdev : v.dev = (s.inode e).dev)
    (hinum : v.inum = (s.inode e).inum) :
    Balanced c L' F t (s.setInode e v) := by
  have hcount := b.inodes e
  refine b.setEntry hL (by push_cast at hcount ⊢; omega) fun e' hne hr hr' hd hi => hne ?_
  rw [hdev] at hd
  rw [hinum] at hi
  exact (b.uniq e e' (hpos hr) hr' hd hi).symm

/-- A reference that is held. -/
lemma Balanced.ref_pos (b : Balanced c L F t s) (he : e ∈ L) : 0 < (s.inode e).ref := by
  have := b.inodes e
  have := List.count_pos_iff.2 he
  omega

lemma Balanced.ref_pos_of_cwd {q : ProcId} (b : Balanced c L F t s) (hq : (t q).cwd = some e) :
    0 < (s.inode e).ref := by
  have := b.inodes e
  have : 0 < refs (dirs t) e := refs_pos hq
  omega

namespace Ret

lemma idup {Q : Unit → FsState → Prop} (b : Balanced c L F t s) (hpos : 0 < (s.inode e).ref)
    (h : ∀ s', Balanced c (e :: L) F t s' → Q () s') : Ret (Fs.idup e) Q s := by
  refine act_eq rfl (h _ (b.setRef (fun e' hne => List.count_cons_of_ne hne.symm) ?_ (fun _ => hpos)
    rfl rfl))
  rw [List.count_cons_self]
  push_cast
  omega

lemma iget {Q : InodeId → FsState → Prop} {dev inum : ℕ} (b : Balanced c L F t s)
    (h : ∀ e s', Balanced c (e :: L) F t s' → Q e s') : Ret (Fs.iget dev inum) Q s := by
  refine act fun e s' hx => h e s' ?_
  simp only [Act.exec] at hx
  split at hx
  · rename_i e' hfind
    obtain ⟨rfl, rfl⟩ := EStateM.Result.ok.inj hx
    have hfound := List.find?_some hfind
    have hpos := (of_decide_eq_true hfound).1
    refine b.setRef (fun e' hne => List.count_cons_of_ne hne.symm) ?_ (fun _ => hpos) rfl rfl
    rw [List.count_cons_self]
    push_cast
    omega
  · rename_i hnone
    split at hx
    · -- a free entry is recycled, and no other one in use has this inode
      rename_i e' hfind
      obtain ⟨rfl, rfl⟩ := EStateM.Result.ok.inj hx
      have hfound := List.find?_some hfind
      have hzero := of_decide_eq_true hfound
      have hcount := b.inodes e'
      refine b.setEntry (fun e' hne => List.count_cons_of_ne hne.symm) ?_ fun e₁ _ _ hr hd hi => ?_
      · rw [List.count_cons_self]
        push_cast at hcount ⊢
        omega
      · have hno := List.find?_eq_none.1 hnone e₁ (List.mem_finRange e₁)
        exact hno (decide_eq_true ⟨hr, hd.symm, hi.symm⟩)
    · exact absurd hx (by simp)

lemma iput {Q : Unit → FsState → Prop} (b : Balanced c (e :: L) F t s)
    (h : ∀ s', Balanced c L F t s' → Q () s') : Ret (Fs.iput e) Q s := by
  have hcons := List.count_cons_self (a := e) (l := L)
  have hdrop : ∀ s', Balanced c (e :: L) F t s' → ∀ v : Inode, v.ref = (s'.inode e).ref - 1 →
      v.dev = (s'.inode e).dev → v.inum = (s'.inode e).inum →
      Balanced c L F t (s'.setInode e v) := by
    intro s' b' v hv hdev hinum
    have hpos := b'.ref_pos (e := e) (by simp)
    exact b'.setRef (fun e' hne => (List.count_cons_of_ne hne.symm).symm) (by omega)
      (fun _ => hpos) hdev hinum
  refine seq (act fun free s₁ hx => ?_)
  simp only [Act.exec] at hx
  split at hx
  · split at hx
    · exact absurd hx (by simp)
    obtain ⟨rfl, rfl⟩ := EStateM.Result.ok.inj hx
    have b₁ := b.still (.setInode (e := e) (v := { s.inode e with busy := true }) rfl rfl rfl)
    rw [if_pos rfl]
    refine seq (neutral Fs.itrunc_plain.neutral fun _ s₂ h₂ =>
      seq (act_eq (a := .getInode e) rfl ?_))
    refine seq (act_eq (a := .setInode e _) rfl (seq ?_))
    have b₃ := (b₁.still h₂).still (.setInode (e := e)
      (v := { s₂.inode e with toDInode := { (s₂.inode e).toDInode with type := 0 } }) rfl rfl rfl)
    refine neutral Fs.iupdate_plain.neutral fun _ s₄ h₄ => act_eq (a := .iputEnd e) rfl (h _ ?_)
    exact hdrop s₄ (b₃.still h₄) _ rfl rfl rfl
  · obtain ⟨rfl, rfl⟩ := EStateM.Result.ok.inj hx
    rw [if_neg (by simp)]
    exact pure (h _ (hdrop s b _ rfl rfl rfl))

lemma iunlockput {Q : Unit → FsState → Prop} (b : Balanced c (e :: L) F t s)
    (h : ∀ s', Balanced c L F t s' → Q () s') : Ret (Fs.iunlockput e) Q s :=
  seq (neutral (.perform trivial) fun _ _ h₁ => iput (b.still h₁) h)

lemma ialloc {Q : InodeId → FsState → Prop} {dev : ℕ} {type : Int16} (b : Balanced c L F t s)
    (h : ∀ e s', Balanced c (e :: L) F t s' → Q e s') : Ret (Fs.ialloc dev type) Q s := by
  refine seq (neutral Fs.readsb_plain.neutral fun sb s₁ h₁ => ?_)
  generalize (List.range sb.ninodes).drop 1 = xs
  have b₁ := b.still h₁
  induction xs generalizing s₁ with
  | nil => exact stop
  | cons x xs ih =>
      refine seq (neutral Fs.bread_plain.neutral fun bp s₂ h₂ =>
        seq (neutral (.perform trivial) fun d s₃ h₃ => ?_))
      have b₃ := (b₁.still h₂).still h₃
      split
      · refine seq (neutral (.perform trivial) fun _ s₄ h₄ =>
          seq (neutral (.perform trivial) fun _ s₅ h₅ =>
          seq (neutral (.perform trivial) fun _ s₆ h₆ =>
            seq (neutral (.perform trivial) fun _ s₇ h₇ => ?_))))
        exact iget ((((b₃.still h₄).still h₅).still h₆).still h₇) h
      · refine seq (neutral (.perform trivial) fun _ s₄ h₄ => ?_)
        exact ih s₄ (((h₁.trans h₂).trans h₃).trans h₄) (b₃.still h₄)

lemma dirlookup {Q : Option (InodeId × ℕ) → FsState → Prop} {dp : InodeId} {name : Name}
    (b : Balanced c L F t s) (hnone : ∀ s', Balanced c L F t s' → Q none s')
    (hsome : ∀ e off s', Balanced c (e :: L) F t s' → Q (some (e, off)) s') :
    Ret (Fs.dirlookup dp name) Q s := by
  refine seq (neutral (.perform trivial) fun v s₁ h₁ => ?_)
  split
  · exact stop
  generalize Fs.direntOffsets _ = offs
  have b₁ := b.still h₁
  clear h₁ b
  induction offs generalizing s₁ with
  | nil => exact pure (hnone s₁ b₁)
  | cons off offs ih =>
      refine seq (neutral Fs.readi_plain.neutral fun r s₂ h₂ => ?_)
      have b₂ := b₁.still h₂
      split
      split
      · exact stop
      split
      · exact ih s₂ b₂
      split
      · exact seq (iget b₂ fun e s₃ b₃ => pure (hsome e off s₃ b₃))
      · exact ih s₂ b₂

lemma dirlink {Q : ℤ → FsState → Prop} {dp : InodeId} {name : Name} {inum : ℕ}
    (b : Balanced c L F t s) (h : ∀ r s', Balanced c L F t s' → Q r s') :
    Ret (Fs.dirlink dp name inum) Q s := by
  refine seq (dirlookup b (fun s₁ b₁ => ?_) fun e off s₁ b₁ => ?_)
  · refine seq (neutral (.perform trivial) fun v s₂ h₂ => seq (neutral Fs.emptyDirent_plain.neutral
      fun off s₃ h₃ =>
      seq (neutral Fs.writei_plain.neutral fun r s₄ h₄ => ?_)))
    split
    · exact stop
    · exact pure (h _ s₄ (((b₁.still h₂).still h₃).still h₄))
  · exact seq (iput b₁ fun s₂ b₂ => pure (h _ s₂ b₂))

lemma namexLoop {Q : Option (InodeId × Name) → FsState → Prop} {parent : Bool} {fuel : ℕ}
    {path name : Name} (b : Balanced c (e :: L) F t s)
    (hnone : ∀ s', Balanced c L F t s' → Q none s')
    (hsome : ∀ e name s', Balanced c (e :: L) F t s' → Q (some (e, name)) s') :
    Ret (Fs.namexLoop parent fuel e path name) Q s := by
  have hend : ∀ e name s, Balanced c (e :: L) F t s → Ret (Fs.namexEnd parent e name) Q s := by
    intro e name s b
    rw [Fs.namexEnd]
    split
    · exact seq (iput b fun s' b' => pure (hnone s' b'))
    · exact pure (hsome e name s b)
  induction fuel generalizing e path name s with
  | zero => exact hend e name s b
  | succ fuel ih =>
      rw [Fs.namexLoop]
      split
      · exact hend e name s b
      refine seq (neutral Fs.ilock_plain.neutral fun _ s₁ h₁ =>
        seq (neutral (.perform trivial) fun v s₂ h₂ => ?_))
      have b₂ := (b.still h₁).still h₂
      split
      · exact seq (iunlockput b₂ fun s' b' => pure (hnone s' b'))
      split
      · exact seq (neutral (.perform trivial) fun _ s₃ h₃ => pure (hsome e _ s₃ (b₂.still h₃)))
      refine seq (dirlookup b₂ (fun s₃ b₃ => seq (iunlockput b₃ fun s' b' => pure (hnone s' b')))
        fun next off s₃ b₃ => ?_)
      exact seq (iunlockput (b₃.perm (.swap _ _ _)) fun s₄ b₄ => ih b₄)

lemma namex {Q : Option (InodeId × Name) → FsState → Prop} {p : ProcId} {path : Name}
    {parent : Bool} (b : Balanced c L F s.proc s)
    (hnone : ∀ s', Balanced c L F s.proc s' → Q none s')
    (hsome : ∀ e name s', Balanced c (e :: L) F s.proc s' → Q (some (e, name)) s') :
    Ret (Fs.namex p path parent) Q s := by
  rw [Fs.namex]
  split
  · exact seq (iget b fun e s₁ b₁ => namexLoop b₁ hnone hsome)
  · refine seq (act_eq (a := .getCwd p) rfl ?_)
    split
    · exact stop
    · rename_i e hcwd
      exact seq (idup b (b.ref_pos_of_cwd hcwd) fun s₁ b₁ => namexLoop b₁ hnone hsome)

lemma namei {Q : Option InodeId → FsState → Prop} {p : ProcId} {path : Name}
    (b : Balanced c L F s.proc s) (hnone : ∀ s', Balanced c L F s.proc s' → Q none s')
    (hsome : ∀ e s', Balanced c (e :: L) F s.proc s' → Q (some e) s') : Ret (Fs.namei p path) Q s :=
  seq (namex b (fun s' b' => pure (hnone s' b')) fun e _ s' b' => pure (hsome e s' b'))

lemma createDots {Q : Unit → FsState → Prop} {dp ip : InodeId} (b : Balanced c L F t s)
    (h : ∀ s', Balanced c L F t s' → Q () s') : Ret (Fs.createDots dp ip) Q s := by
  refine seq (neutral (.perform trivial) fun _ s₁ h₁ =>
    seq (neutral (.perform trivial) fun _ s₂ h₂ =>
    seq (neutral Fs.iupdate_plain.neutral fun _ s₃ h₃ =>
      seq (neutral (.perform trivial) fun _ s₄ h₄ => ?_))))
  refine seq (dirlink ((((b.still h₁).still h₂).still h₃).still h₄) fun r s₅ b₅ => ?_)
  split
  · exact stop
  refine seq (neutral (.perform trivial) fun _ s₆ h₆ =>
    seq (dirlink (b₅.still h₆) fun r s₇ b₇ => ?_))
  split
  · exact stop
  · exact pure (h s₇ b₇)

lemma create {Q : Option InodeId → FsState → Prop} {p : ProcId} {path : Name}
    {type major minor : Int16} (b : Balanced c L F s.proc s)
    (hnone : ∀ s', Balanced c L F s.proc s' → Q none s')
    (hsome : ∀ e s', Balanced c (e :: L) F s.proc s' → Q (some e) s') :
    Ret (Fs.create p path type major minor) Q s := by
  refine seq (namex b (fun s₁ b₁ => pure (hnone s₁ b₁)) fun dp name s₁ b₁ => ?_)
  refine seq (neutral Fs.ilock_plain.neutral fun _ s₂ h₂ => ?_)
  refine seq (dirlookup (b₁.still h₂) (fun s₃ b₃ => ?_) fun ip off s₃ b₃ => ?_)
  · refine seq (neutral (.perform trivial) fun d s₄ h₄ =>
      seq (ialloc (b₃.still h₄) fun ip s₅ b₅ => ?_))
    refine seq (neutral Fs.ilock_plain.neutral fun _ s₆ h₆ =>
      seq (neutral (.perform trivial) fun _ s₇ h₇ =>
      seq (neutral (.perform trivial) fun _ s₈ h₈ =>
        seq (neutral Fs.iupdate_plain.neutral fun _ s₉ h₉ => ?_))))
    have b₉ := (((b₅.still h₆).still h₇).still h₈).still h₉
    have hend : ∀ s', Balanced c (ip :: dp :: L) F s.proc s' → Ret (do
        let v ← Fs.getInode ip
        let r ← Fs.dirlink dp name v.inum
        if r < 0 then Sys.panic "create: dirlink"
        else
          Fs.iunlockput dp
          Pure.pure (some ip)) Q s' := by
      intro s' b'
      refine seq (neutral (.perform trivial) fun v s₁ h₁ =>
        seq (dirlink (b'.still h₁) fun r s₂ b₂ => ?_))
      split
      · exact stop
      · exact seq (iunlockput (b₂.perm (.swap _ _ _)) fun s₃ b₃ => pure (hsome ip s₃ b₃))
    split
    · exact seq (createDots b₉ fun s' b' => hend s' b')
    · exact hend s₉ b₉
  · refine seq (iunlockput (b₃.perm (.swap _ _ _)) fun s₄ b₄ =>
      seq (neutral Fs.ilock_plain.neutral fun _ s₅ h₅ =>
      seq (neutral (.perform trivial) fun v s₆ h₆ => ?_)))
    have b₆ := (b₄.still h₅).still h₆
    split
    · exact pure (hsome ip s₆ b₆)
    · exact seq (iunlockput b₆ fun s₇ b₇ => pure (hnone s₇ b₇))

lemma sysLinkBad {Q : ℤ → FsState → Prop} (b : Balanced c (e :: L) F t s)
    (h : ∀ r s', Balanced c L F t s' → Q r s') : Ret (Fs.sysLinkBad e) Q s := by
  refine seq (neutral Fs.ilock_plain.neutral fun _ s₁ h₁ =>
    seq (neutral (.perform trivial) fun _ s₂ h₂ =>
    seq (neutral (.perform trivial) fun _ s₃ h₃ =>
      seq (neutral Fs.iupdate_plain.neutral fun _ s₄ h₄ => ?_))))
  refine seq (iunlockput ((((b.still h₁).still h₂).still h₃).still h₄) fun s₅ b₅ => ?_)
  exact seq (neutral (.perform trivial) fun _ s₆ h₆ => pure (h _ s₆ (b₅.still h₆)))

lemma sysLink {Q : ℤ → FsState → Prop} {p : ProcId} {old new : Option Name}
    (b : Balanced c L F s.proc s) (h : ∀ r s', Balanced c L F s.proc s' → Q r s') :
    Ret (Fs.sysLink p old new) Q s := by
  rcases old with - | old
  · exact pure (h _ s b)
  rcases new with - | new
  · exact pure (h _ s b)
  · refine seq (inner Fs.namei_inner (namei b (fun s₁ b₁ _ => pure (h _ s₁ b₁))
      fun ip s₁ b₁ h₁ => ?_))
    refine seq (neutral (.perform trivial) fun _ s₂ h₂ =>
      seq (neutral Fs.ilock_plain.neutral fun _ s₃ h₃ =>
      seq (neutral (.perform trivial) fun v s₄ h₄ => ?_)))
    have b₄ := ((b₁.still h₂).still h₃).still h₄
    split
    · exact seq (iunlockput b₄ fun s₅ b₅ => seq (neutral (.perform trivial) fun _ s₆ h₆ =>
        pure (h _ s₆ (b₅.still h₆))))
    refine seq (neutral (.perform trivial) fun _ s₅ h₅ =>
      seq (neutral Fs.iupdate_plain.neutral fun _ s₆ h₆ =>
      seq (neutral (.perform trivial) fun _ s₇ h₇ => ?_)))
    have b₇ := ((b₄.still h₅).still h₆).still h₇
    have hproc : s₇.proc = s.proc := by
      rw [h₇.proc, h₆.proc, h₅.proc, h₄.proc, h₃.proc, h₂.proc, h₁.proc]
    rw [← hproc] at b₇
    refine seq (namex b₇ (fun s₈ b₈ => ?_) fun dp name s₈ b₈ => ?_)
    · rw [hproc] at b₈
      exact sysLinkBad b₈ h
    rw [hproc] at b₈
    refine seq (neutral Fs.ilock_plain.neutral fun _ s₉ h₉ =>
      seq (neutral (.perform trivial) fun d s₁₀ h₁₀ =>
      seq (neutral (.perform trivial) fun v s₁₁ h₁₁ => ?_)))
    have b₁₁ := ((b₈.still h₉).still h₁₀).still h₁₁
    split
    · exact seq (iunlockput b₁₁ fun s' b' => sysLinkBad b' h)
    refine seq (dirlink b₁₁ fun r s₁₂ b₁₂ => ?_)
    split
    · exact seq (iunlockput b₁₂ fun s' b' => sysLinkBad b' h)
    · exact seq (iunlockput b₁₂ fun s' b' => seq (iput b' fun s'' b'' =>
        seq (neutral (.perform trivial) fun _ s₃ h₃ => pure (h _ s₃ (b''.still h₃)))))

lemma sysUnlinkBad {Q : ℤ → FsState → Prop} (b : Balanced c (e :: L) F t s)
    (h : ∀ r s', Balanced c L F t s' → Q r s') : Ret (Fs.sysUnlinkBad e) Q s :=
  seq (iunlockput b fun _ b₁ => seq (neutral (.perform trivial) fun _ s₂ h₂ =>
    pure (h _ s₂ (b₁.still h₂))))

/-- The end of `unlink`, once the entry is erased. -/
lemma sysUnlinkEnd {Q : ℤ → FsState → Prop} {dp : InodeId} (b : Balanced c (e :: dp :: L) F t s)
    (h : ∀ r s', Balanced c L F t s' → Q r s') :
    Ret (do
      Fs.iunlockput dp
      let v ← Fs.getInode e
      Fs.setInode e { v.toDInode with nlink := v.nlink - 1 }
      Fs.iupdate e
      Fs.iunlockput e
      Fs.commitTrans
      Pure.pure 0) Q s := by
  refine seq (iunlockput (b.perm (.swap _ _ _)) fun s₁ b₁ =>
    seq (neutral (.perform trivial) fun v s₂ h₂ =>
    seq (neutral (.perform trivial) fun _ s₃ h₃ =>
      seq (neutral Fs.iupdate_plain.neutral fun _ s₄ h₄ => ?_))))
  refine seq (iunlockput (((b₁.still h₂).still h₃).still h₄) fun s₅ b₅ => ?_)
  exact seq (neutral (.perform trivial) fun _ s₆ h₆ => pure (h _ s₆ (b₅.still h₆)))

lemma sysUnlink {Q : ℤ → FsState → Prop} {p : ProcId} {path : Option Name}
    (b : Balanced c L F s.proc s) (h : ∀ r s', Balanced c L F s.proc s' → Q r s') :
    Ret (Fs.sysUnlink p path) Q s := by
  rcases path with - | path
  · exact pure (h _ s b)
  refine seq (namex b (fun s₁ b₁ => pure (h _ s₁ b₁)) fun dp name s₁ b₁ => ?_)
  refine seq (neutral (.perform trivial) fun _ s₂ h₂ =>
    seq (neutral Fs.ilock_plain.neutral fun _ s₃ h₃ => ?_))
  have b₃ := (b₁.still h₂).still h₃
  split
  · exact sysUnlinkBad b₃ h
  refine seq (dirlookup b₃ (fun s₄ b₄ => sysUnlinkBad b₄ h) fun ip off s₄ b₄ => ?_)
  refine seq (neutral Fs.ilock_plain.neutral fun _ s₅ h₅ =>
    seq (neutral (.perform trivial) fun v s₆ h₆ => ?_))
  have b₆ := (b₄.still h₅).still h₆
  split
  · exact stop
  split
  · refine seq (neutral Fs.isdirempty_plain.neutral fun empty s₇ h₇ => ?_)
    have b₇ := b₆.still h₇
    beta_reduce
    split
    · exact seq (iunlockput b₇ fun s₈ b₈ => sysUnlinkBad b₈ h)
    refine seq (neutral Fs.writei_plain.neutral fun r s₈ h₈ => ?_)
    split
    · exact stop
    refine seq (neutral (.perform trivial) fun d s₉ h₉ =>
      seq (neutral (.perform trivial) fun _ s₁₀ h₁₀ =>
      seq (neutral Fs.iupdate_plain.neutral fun _ s₁₁ h₁₁ => ?_)))
    exact sysUnlinkEnd ((((b₇.still h₈).still h₉).still h₁₀).still h₁₁) h
  · refine seq (pure (seq (neutral Fs.writei_plain.neutral fun r s₇ h₇ => ?_)))
    split
    · exact stop
    · exact sysUnlinkEnd (b₆.still h₇) h

lemma createCall {Q : ℤ → FsState → Prop} {p : ProcId} {path : Option Name}
    {type major minor : Int16} (b : Balanced c L F s.proc s)
    (h : ∀ r s', Balanced c L F s.proc s' → Q r s') :
    Ret (Fs.createCall p path type major minor) Q s := by
  have hend : ∀ r s', Balanced c L F s.proc s' → Ret (do
      Fs.commitTrans
      Pure.pure r) Q s' := fun r s' b' =>
    seq (neutral (.perform trivial) fun _ s₁ h₁ => pure (h r s₁ (b'.still h₁)))
  refine seq (neutral (.perform trivial) fun _ s₁ h₁ => ?_)
  have b₁ := b.still h₁
  rcases path with - | path
  · exact hend (-1) s₁ b₁
  rw [← h₁.proc] at b₁ hend
  exact seq (create b₁ (fun s₂ b₂ => hend _ s₂ b₂) fun ip s₂ b₂ =>
    seq (iunlockput b₂ fun s₃ b₃ => hend _ s₃ b₃))

lemma openInode {Q : Option InodeId → FsState → Prop} {p : ProcId} {path : Name} {omode : UInt32}
    (b : Balanced c L F s.proc s) (hnone : ∀ s', Balanced c L F s.proc s' →
      s'.proc = s.proc → Q none s') (hsome : ∀ e s', Balanced c (e :: L) F s.proc s' → s'.proc =
        s.proc → Q (some e) s') :
    Ret (Fs.openInode p path omode) Q s := by
  rw [Fs.openInode]
  split
  · refine seq (neutral (.perform trivial) fun _ s₁ h₁ => ?_)
    have b₁ := b.still h₁
    rw [← h₁.proc] at b₁ hnone hsome
    refine seq (inner Fs.create_inner (create b₁ (fun s₂ b₂ h₂ => ?_) fun ip s₂ b₂ h₂ => ?_))
    · exact seq (neutral (.perform trivial) fun _ s₃ h₃ =>
        pure (hnone s₃ (b₂.still h₃) (h₃.proc.trans h₂.proc)))
    · exact seq (neutral (.perform trivial) fun _ s₃ h₃ =>
        pure (hsome ip s₃ (b₂.still h₃) (h₃.proc.trans h₂.proc)))
  · refine seq (inner Fs.namei_inner (namei b (fun s₁ b₁ h₁ => pure (hnone s₁ b₁ h₁.proc))
      fun ip s₁ b₁ h₁ => ?_))
    refine seq (neutral Fs.ilock_plain.neutral fun _ s₂ h₂ =>
      seq (neutral (.perform trivial) fun v s₃ h₃ => ?_))
    have b₃ := (b₁.still h₂).still h₃
    have hproc : s₃.proc = s.proc := h₃.proc.trans (h₂.proc.trans h₁.proc)
    split
    · exact seq (inner Fs.iunlockput_inner (iunlockput b₃ fun s₄ b₄ h₄ => pure
        (hnone s₄ b₄ (h₄.proc.trans hproc))))
    · exact pure (hsome ip s₃ b₃ hproc)

lemma exec {Q : ℤ → FsState → Prop} {p : ProcId} {path : Option Name} {reads : List (ℕ × ℕ)}
    (b : Balanced c L F s.proc s) (h : ∀ r s', Balanced c L F s.proc s' → Q r s') :
    Ret (Fs.exec p path reads) Q s := by
  rcases path with - | path
  · exact pure (h _ s b)
  refine seq (namei b (fun s₁ b₁ => pure (h _ s₁ b₁)) fun ip s₁ b₁ => ?_)
  refine seq (neutral Fs.ilock_plain.neutral fun _ s₂ h₂ => seq (neutral Fs.execReads_plain.neutral
    fun _ s₃ h₃ => ?_))
  exact seq (iunlockput ((b₁.still h₂).still h₃) fun s₄ b₄ => pure (h _ s₄ b₄))

end Ret

end Xv6
