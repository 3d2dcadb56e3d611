import Xv6.Fs.Links

/-!
# System calls

Rules for the system calls of `sysfile.c` other than `link` and `unlink`, and for what `fork`,
`exec` and `exit` do to files.  Calls that only take references are described by `Grew`; calls
that drop references of files and processes are described step by step, so that what is shown
about one step carries over to the call.
-/

namespace Xv6

open Lib FsState

variable {mode : Mode} {sb : Superblock} {s s' s₁ s₂ : FsState} {L : List InodeId}
  {e ip : InodeId} {f : FileId} {p : ProcId} {x : ℕ}

/-! ## Descriptors -/

namespace Safe

lemma argfd {Q : Option (Fd × FileId) → FsState → Prop} {fd : ℤ} (hnone : Q none s)
    (hsome : ∀ fd' f, (s.proc p).ofile fd' = some f → (fd'.val : ℤ) = fd → Q (some (fd', f)) s) :
    Safe sb mode (Fs.argfd p fd) Q s := by
  rw [Fs.argfd]
  split
  · rename_i hfd
    refine seq (act (a := .getOfile p _) rfl (pure ?_))
    cases ho : (s.proc p).ofile ⟨fd.toNat, by omega⟩ with
    | none => exact hnone
    | some f => exact hsome _ f ho (by simp only; omega)
  · exact pure hnone

lemma fdallocLoop {Q : Option Fd → FsState → Prop} {fds : List Fd} (hnone : Q none s)
    (hsome : ∀ fd, (s.proc p).ofile fd = none → Q (some fd)
      (s.setProc p { s.proc p with ofile := Function.update (s.proc p).ofile fd (some f) })) :
    Safe sb mode (Fs.fdallocLoop p f fds) Q s := by
  induction fds with
  | nil => exact pure hnone
  | cons fd fds ih =>
      rw [Fs.fdallocLoop]
      refine seq (act (a := .getOfile p fd) rfl ?_)
      split
      · rename_i ho
        exact seq (act (a := .setOfile p fd (some f)) rfl (pure (hsome fd ho)))
      · exact ih

lemma fdalloc {Q : Option Fd → FsState → Prop} (hnone : Q none s)
    (hsome : ∀ fd, (s.proc p).ofile fd = none → Q (some fd)
      (s.setProc p { s.proc p with ofile := Function.update (s.proc p).ofile fd (some f) })) :
    Safe sb mode (Fs.fdalloc p f) Q s := fdallocLoop hnone hsome

/-- `filealloc` returns a file that is not in use. -/
lemma filealloc {Q : Option FileId → FsState → Prop} (i : Inv sb L s) (hnone : Q none s)
    (hsome : ∀ f, (s.file f).ref = 0 → Inv sb L (s.setFile f { s.file f with ref := 1 }) →
      Q (some f) (s.setFile f { s.file f with ref := 1 })) :
    Safe sb mode Fs.filealloc Q s := by
  cases hfind : (List.finRange NFILE).find? fun f => decide ((s.file f).ref = 0) with
  | none =>
      have hexec : guarded sb mode .filealloc s = .ok none s := by
        simp only [guarded, Act.exec, hfind]
      exact act hexec hnone
  | some f =>
      have hfound := List.find?_some hfind
      have hexec : guarded sb mode .filealloc s = .ok (some f)
        (s.setFile f { s.file f with ref := 1 }) := by
        simp only [guarded, Act.exec, hfind]
      exact act hexec (hsome f (of_decide_eq_true hfound)
        (i.setFile_same rfl rfl fun hz => absurd hz (by simp)))

lemma filedup {Q : Unit → FsState → Prop} (i : Inv sb L s)
    (h : Inv sb L (s.setFile f { s.file f with ref := (s.file f).ref + 1 }) →
      Q () (s.setFile f { s.file f with ref := (s.file f).ref + 1 })) :
    Safe sb mode (Fs.filedup f) Q s := by
  by_cases hbad : (s.file f).ref < 1
  · exact act_panic (a := .filedup f) "filedup" (by simp [guarded, Act.exec, hbad]) i.readAlloc
      (by decide)
  · have hexec : guarded sb mode (.filedup f) s =
        .ok () (s.setFile f { s.file f with ref := (s.file f).ref + 1 }) := by
      simp [guarded, Act.exec, hbad]
    exact act hexec (h (i.setFile_same rfl rfl fun hz => absurd hz (by dsimp only; omega)))

lemma getFile {Q : File → FsState → Prop} (h : Q (s.file f) s) : Safe sb mode (Fs.getFile f) Q s :=
  act (a := .getFile f) rfl h

lemma setFile {Q : Unit → FsState → Prop} {v : OpenFile}
    (h : Q () (s.setFile f { s.file f with toOpenFile := v })) :
    Safe sb mode (Fs.setFile f v) Q s :=
  act (a := .setFile f v) rfl h

lemma setOfile {Q : Unit → FsState → Prop} {fd : Fd} {o : Option FileId}
    (h : Q () (s.setProc p { s.proc p with ofile := Function.update (s.proc p).ofile fd o })) :
    Safe sb mode (Fs.setOfile p fd o) Q s :=
  act (a := .setOfile p fd o) rfl h

lemma setCwd {Q : Unit → FsState → Prop} {o : Option InodeId}
    (h : Q () (s.setProc p { s.proc p with cwd := o })) : Safe sb mode (Fs.setCwd p o) Q s :=
  act (a := .setCwd p o) rfl h

end Safe

/-! ## Calls that take references -/

/-- From `s` to `s'` references may have been taken, and none have been dropped.  Entries that
were held are kept, those of `w` as far as they do not show its contents. -/
structure Grew (w : Option InodeId) (s s' : FsState) : Prop where
  links : ∀ f e, (s.file f).link = some e → (s'.file f).link = some e
  held : ∀ e, Held [] s e → Held [] s' e
  shown : ∀ e, Held [] s e → Shown s s' e
  type : ∀ e, Held [] s e → (s.node (s.inode e).inum).type ≠ 0 →
    (s'.node (s.inode e).inum).type = (s.node (s.inode e).inum).type
  kept : ∀ e, Held [] s e → some e ≠ w → Kept s s' e
  cwd : ∀ p e, (s'.proc p).cwd = some e →
    (∃ q, (s.proc q).cwd = some e) ∨ (s'.node (s'.inode e).inum).type = T_DIR

/-- From `s` to `s'` inodes and the disk stay, and so does what files and processes refer to. -/
structure Calm (s s' : FsState) : Prop where
  home : s'.home = s.home
  inode : s'.inode = s.inode
  links : ∀ f, (s'.file f).link = (s.file f).link
  cwds : ∀ p, (s'.proc p).cwd = (s.proc p).cwd

namespace Calm

lemma refl (s : FsState) : Calm s s := ⟨rfl, rfl, fun _ => rfl, fun _ => rfl⟩

lemma trans (h₁ : Calm s s₁) (h₂ : Calm s₁ s₂) : Calm s s₂ :=
  ⟨h₂.home.trans h₁.home, h₂.inode.trans h₁.inode, fun f => (h₂.links f).trans (h₁.links f),
    fun p => (h₂.cwds p).trans (h₁.cwds p)⟩

lemma setOutside (o : Outside) : Calm s (s.setOutside o) := ⟨rfl, rfl, fun _ => rfl, fun _ => rfl⟩

lemma openPipe (page : ℕ) : Calm s (s.openPipe page) := ⟨rfl, rfl, fun _ => rfl, fun _ => rfl⟩

lemma setFile {v : File} (hv : v.link = (s.file f).link) : Calm s (s.setFile f v) := by
  refine ⟨rfl, rfl, fun f' => ?_, fun _ => rfl⟩
  by_cases hf : f' = f
  · rw [hf, setFile_file_self, hv]
  · rw [setFile_file_of_ne hf]

lemma setRef (f : FileId) (n : ℤ) : Calm s (s.setFile f { s.file f with ref := n }) :=
  .setFile (v := { s.file f with ref := n }) rfl

lemma setOff (f : FileId) (off : UInt32) : Calm s (s.setFile f { s.file f with off := off }) :=
  .setFile (v := { s.file f with off := off }) rfl

lemma setProc {v : ProcFiles} (hv : v.cwd = (s.proc p).cwd) : Calm s (s.setProc p v) := by
  refine ⟨rfl, rfl, fun _ => rfl, fun q => ?_⟩
  by_cases hq : q = p
  · rw [hq, setProc_proc_self, hv]
  · rw [setProc_proc_of_ne hq]

lemma setOfile (p : ProcId) (fd : Fd) (o : Option FileId) :
    Calm s (s.setProc p { s.proc p with ofile := Function.update (s.proc p).ofile fd o }) :=
  .setProc (v := { s.proc p with ofile := Function.update (s.proc p).ofile fd o }) rfl

end Calm

namespace Grew

lemma opened {w : Option InodeId} (g : Grew w s s') (he : Open s e) : Open s' e := by
  obtain ⟨f, hf⟩ := he
  exact ⟨f, g.links f e hf⟩

/-- Everything is kept. -/
lemma of_keeps (k : Keeps [] s s') : Grew none s s' :=
  ⟨fun f e hf => by rw [k.file]; exact hf, fun e he => k.held he,
    fun e he => (k.kept e he).toShown, fun e he => (k.kept e he).type, fun e he _ => k.kept e he,
    fun p e hp => .inl ⟨p, by rw [← k.proc]; exact hp⟩⟩

/-- References are added. -/
lemma of_more (hh : s'.home = s.home) (hinode : s'.inode = s.inode)
    (hlinks : ∀ f e, (s.file f).link = some e → (s'.file f).link = some e)
    (hcwds : ∀ p e, (s.proc p).cwd = some e → (s'.proc p).cwd = some e)
    (hcwd : ∀ p e, (s'.proc p).cwd = some e →
      (∃ q, (s.proc q).cwd = some e) ∨ (s'.node (s'.inode e).inum).type = T_DIR) :
    Grew none s s' := by
  have hkept : ∀ e, Kept s s' e := fun e => (Shown.of_eq (congrFun hinode e)).kept hh
  refine ⟨hlinks, ?_, fun e _ => (hkept e).toShown,
    fun e _ => (hkept e).type, fun e _ _ => hkept e, hcwd⟩
  rintro e (he | ⟨f, hf⟩ | ⟨p, hp⟩)
  · exact .inl he
  · exact .inr (.inl ⟨f, hlinks f e hf⟩)
  · exact .inr (.inr ⟨p, hcwds p e hp⟩)

lemma of_calm (c : Calm s s') : Grew none s s' :=
  of_more c.home c.inode (fun f _ hf => (c.links f).trans hf) (fun p _ hp => (c.cwds p).trans hp)
    fun p _ hp => .inl ⟨p, (c.cwds p).symm.trans hp⟩

lemma trans {w : Option InodeId} (h₁ : Grew w s s₁) (h₂ : Grew w s₁ s₂) : Grew w s s₂ := by
  have hinum : ∀ e, Held [] s e → (s₁.inode e).inum = (s.inode e).inum :=
    fun e he => (h₁.shown e he).inum
  refine ⟨fun f e hf => h₂.links f e (h₁.links f e hf), fun e he => h₂.held e (h₁.held e he),
    fun e he => (h₁.shown e he).trans (h₂.shown e (h₁.held e he)), fun e he ht => ?_,
    fun e he hw => (h₁.kept e he hw).trans (h₂.kept e (h₁.held e he) hw), fun p e hp => ?_⟩
  · have ht₁ := h₁.type e he ht
    have ht₂ := h₂.type e (h₁.held e he)
    rw [hinum e he, ht₁] at ht₂
    exact ht₂ ht
  · rcases h₂.cwd p e hp with ⟨q, hq⟩ | ht
    · rcases h₁.cwd q e hq with h | ht
      · exact .inl h
      · have he₁ : Held [] s₁ e := .inr (.inr ⟨q, hq⟩)
        refine .inr ?_
        rw [(h₂.shown e he₁).inum, h₂.type e he₁ (by rw [ht]; exact T_DIR_ne_zero), ht]
    · exact .inr ht

end Grew

namespace Safe

lemma sysDup {Q : ℤ → FsState → Prop} {fd : ℤ} (i : Inv sb [] s)
    (h : ∀ r s', Inv sb [] s' → Grew none s s' → Q r s') :
    Safe sb mode (Fs.sysDup p fd) Q s := by
  have hbad : Q (-1) s := h _ s i (.of_keeps (.refl _ _))
  refine seq (argfd (pure hbad) fun _ f _ _ => seq (fdalloc (pure hbad) fun fd' _ => ?_))
  refine seq (filedup (i.setOfile fd' (some f)) fun i' => pure (h _ _ i' (.of_calm ?_)))
  exact (Calm.setOfile p fd' (some f)).trans (.setRef f _)

lemma filestat {Q : ℤ × Option Fs.Stat → FsState → Prop} (i : Inv sb [] s)
    (h : ∀ r s', Inv sb [] s' → Grew none s s' → Q r s') :
    Safe sb mode (Fs.filestat f) Q s := by
  refine seq (getFile ?_)
  split
  · refine seq (ilock i fun s₁ i₁ k₁ _ _ _ => seq (getInode (seq ?_)))
    refine iunlock_inv i₁ fun s₂ i₂ hs₂ => pure (h _ s₂ i₂ (.of_keeps (k₁.trans ?_)))
    rw [hs₂]
    exact .setBusy
  · exact panic i.readAlloc (by decide)
  · exact pure (h _ s i (.of_keeps (.refl _ _)))

lemma sysFstat {Q : ℤ → FsState → Prop} {fd : ℤ} (i : Inv sb [] s)
    (h : ∀ r s', Inv sb [] s' → Grew none s s' → Q r s') :
    Safe sb mode (Fs.sysFstat p fd) Q s :=
  seq (argfd (pure (h _ s i (.of_keeps (.refl _ _)))) fun _ _ _ _ =>
    seq (filestat i fun _ s' i' g => pure (h _ s' i' g)))

end Safe

/-- Answers of the rest of the machine and offsets of files change nothing that matters. -/
lemma Inv.setOff {o : Outside} {off : UInt32} (i : Inv sb L s) :
    Inv sb L ((s.setOutside o).setFile f { s.file f with off := off }) :=
  (i.setOutside o).setFile_same rfl rfl (i.closed f)

/-- What is read ends before the end of the file. -/
lemma readResult_fst_le {h : ℕ → Block} {v : DInode} (off n : ℕ)
    (hpos : 0 < (readResult h v off n).1) :
    off + (readResult h v off n).1.toNat ≤ v.size.toNat := by
  rw [readResult] at hpos ⊢
  split
  · rename_i hbad
    rw [if_pos hbad] at hpos
    exact absurd hpos (by simp)
  · dsimp only
    split <;> omega

/-- From `s` to `s'` file `f` keeps its inode, and does not move beyond the end of it. -/
structure MovedWithin (s s' : FsState) (f : FileId) : Prop where
  link : (s'.file f).link = (s.file f).link
  off : ∀ e, (s.file f).link = some e → (s.inode e).type = T_FILE →
    (s.file f).off.toNat ≤ (s.node (s.inode e).inum).size.toNat →
    (s'.file f).off.toNat ≤ (s'.node (s.inode e).inum).size.toNat

lemma MovedWithin.of_eq (hf : s'.file = s.file) (hh : s'.home = s.home) : MovedWithin s s' f :=
  ⟨by rw [hf], fun e _ _ hoff => by rwa [hf, node_congr hh]⟩

namespace Safe

/-- `fileread` returns what the file has from its offset on. -/
lemma fileread {Q : ℤ × List UInt8 → FsState → Prop} {n : ℤ} (i : Inv sb [] s)
    (h : ∀ r s', Inv sb [] s' → Grew none s s' → MovedWithin s s' f →
      (∀ e, (s.file f).readable = true → (s.file f).link = some e → (s.inode e).type ≠ T_DEV →
        r = readResult s.home (s.node (s.inode e).inum) (s.file f).off.toNat (n % 2 ^ 32).toNat) →
      Q r s') : Safe sb mode (Fs.fileread f n) Q s := by
  refine seq (getFile ?_)
  split
  · rename_i hread
    exact pure (h _ s i (.of_keeps (.refl _ _)) (.of_eq rfl rfl) fun e hr => absurd hr
      (by simp [hread]))
  split
  · rename_i htype
    have hnone : (s.file f).link = none := by rw [File.link, if_neg (by rw [htype]; decide)]
    exact seq (act (a := .pipeio) rfl (pure (h _ _ (i.setOutside _) (.of_calm (.setOutside _))
      (.of_eq rfl rfl) fun e _ he => absurd he (by simp [hnone]))))
  · rename_i e htype hip
    have hlink : (s.file f).link = some e := by rw [File.link, if_pos htype, hip]
    refine seq (ilock i fun s₁ i₁ k₁ hh₁ l₁ _ => seq (readi_inv i₁ l₁ fun r o hr => ?_))
    have hres : ∀ e', (s.file f).link = some e' →
        (s.inode e').type ≠ T_DEV → r = readResult s.home (s.node (s.inode e').inum)
          (s.file f).off.toNat (n % 2 ^ 32).toNat := by
      intro e' he' ht
      obtain rfl : e = e' := Option.some.inj (hlink.symm.trans he')
      have hnode := i.node_of_live (i.live_of_open ⟨f, hlink⟩)
      rw [node_congr hh₁, hnode] at hr
      rw [(hr ht).1, hh₁, hnode]
    have hend : ∀ s₂, Inv sb [] s₂ → Calm s₁ s₂ → MovedWithin s s₂ f →
        Safe sb mode (do Fs.iunlock e; Pure.pure (r.1, r.2)) Q s₂ := by
      intro s₂ i₂ c₂ m₂
      refine seq (iunlock_inv i₂ fun s₃ i₃ hs₃ => pure (h _ s₃ i₃ ?_ ?_ fun e' _ => hres e'))
      · refine Grew.trans (.of_keeps k₁) (Grew.trans (.of_calm c₂) (.of_keeps ?_))
        rw [hs₃]
        exact .setBusy
      · rw [hs₃]
        exact ⟨m₂.link, m₂.off⟩
    dsimp only
    rw [← k₁.file]
    split
    · rename_i hpos
      refine seq (setFile (hend _ i₁.setOff ((Calm.setOutside o).trans (.setOff f _))
        ⟨?_, fun e' he' ht _ => ?_⟩))
      · rw [setFile_file_self, ← k₁.file]
        rfl
      · have hr := hres e' he' (by rw [ht]; decide)
        have hle := readResult_fst_le _ _ (hr ▸ hpos)
        rw [← hr] at hle
        have hadd : ((s.file f).off + UInt32.ofNat r.1.toNat).toNat ≤
            (s.file f).off.toNat + r.1.toNat := by
          rw [UInt32.toNat_add, UInt32.toNat_ofNat']
          omega
        rw [setFile_file_self, k₁.file]
        refine hadd.trans (hle.trans_eq ?_)
        rw [node_congr (s := s₁.setOutside o) setFile_home]
        exact congrArg (fun v : DInode => v.size.toNat) (node_congr hh₁ _).symm
    · exact hend _ (i₁.setOutside o) (.setOutside o) (.of_eq k₁.file hh₁)
  · exact panic i.readAlloc (by decide)
  · exact panic i.readAlloc (by decide)

lemma sysRead {Q : ℤ → FsState → Prop} {fd n : ℤ} (i : Inv sb [] s)
    (h : ∀ r s', Inv sb [] s' → Grew none s s' → Q r s') :
    Safe sb mode (Fs.sysRead p fd n) Q s :=
  seq (argfd (pure (h _ s i (.of_keeps (.refl _ _)))) fun _ _ _ _ =>
    seq (fileread i fun _ s' i' g _ _ => pure (h _ s' i' g)))

/-! ## `exec` -/

lemma execReads {Q : Unit → FsState → Prop} {reads : List (ℕ × ℕ)} (i : Inv sb L s) (l : Live s e x)
    (h : ∀ o, Q () (s.setOutside o)) : Safe sb mode (Fs.execReads e reads) Q s := by
  induction reads generalizing s with
  | nil => exact pure (h s.outside)
  | cons r reads ih =>
      rw [Fs.execReads]
      refine seq (readi_inv i l fun _ o _ => ?_)
      exact ih (i.setOutside o) ⟨l.ref, l.valid, l.inum⟩ fun o' => h o'

lemma exec {Q : ℤ → FsState → Prop} {path : Option Name} {reads : List (ℕ × ℕ)} (i : Inv sb [] s)
    (h : ∀ r s', Inv sb [] s' → Keeps [] s s' → Q r s') :
    Safe sb mode (Fs.exec p path reads) Q s := by
  cases path with
  | none => exact pure (h _ s i (.refl _ _))
  | some path =>
      refine seq (namei i (fun s' i' k' => pure (h _ s' i' k')) fun ip s₁ r => ?_)
      refine seq (ilock r.inv fun s₂ i₂ k₂ _ l₂ _ => ?_)
      refine seq (execReads i₂ l₂ fun o => seq (iunlockput (i₂.setOutside o) fun s₃ i₃ k₃ => ?_))
      have k : Keeps [] s s₂ := r.keeps.trans (k₂.mono (by simp))
      exact pure (h _ s₃ i₃ ((k.trans (.setOutside o)).trans k₃))

/-! ## `pipe` -/

/-- Closing a file that refers to no inode. -/
lemma fileclose_plain {Q : Unit → FsState → Prop} (i : Inv sb L s) (hlink : (s.file f).link = none)
    (h : ∀ s', Inv sb L s' → Calm s s' → Q () s') : Safe sb mode (Fs.fileclose f) Q s := by
  refine fileclose i (fun s' i' hh hi hp hl => h s' i' ⟨hh, hi, hl, fun p => by rw [hp]⟩)
    fun e _ _ he => absurd (he.symm.trans hlink) (by simp)

/-- The file that `filealloc` has returned refers to nothing. -/
lemma link_of_ref (i : Inv sb L s) (hf : (s.file f).ref = 0) : (s.file f).link = none := by
  rw [File.link, if_neg (by rw [i.closed f hf]; decide)]

/-- A file that is in use is made one end of a pipe. -/
lemma pipeEnd {Q : Unit → FsState → Prop} {v : OpenFile} (i : Inv sb L s)
    (hlink : (s.file f).link = none) (href : (s.file f).ref ≠ 0) (hv : v.type = .pipe)
    (h : Inv sb L (s.setFile f { s.file f with toOpenFile := v }) →
      Calm s (s.setFile f { s.file f with toOpenFile := v }) →
      Q () (s.setFile f { s.file f with toOpenFile := v })) : Safe sb mode
      (Fs.setFile f v) Q s := by
  have hnone : ({ s.file f with toOpenFile := v } : File).link = none := by
    rw [File.link, if_neg (by rw [hv]; decide)]
  refine setFile (h (i.setFile (fun e => by rw [hnone, hlink]) (fun e he => ?_)
    fun hz => absurd hz href) (.setFile (hnone.trans hlink.symm)))
  exact absurd (hnone.symm.trans he) (by simp)

/-- `pipealloc` returns two files that refer to no inode. -/
lemma pipealloc {Q : Option (FileId × FileId) → FsState → Prop} (i : Inv sb L s)
    (hnone : ∀ s', Inv sb L s' → Calm s s' → Q none s')
    (hsome : ∀ rf wf s', Inv sb L s' → Calm s s' → (s'.file rf).link = none →
      (s'.file wf).link = none → Q (some (rf, wf)) s') : Safe sb mode Fs.pipealloc Q s := by
  refine seq (filealloc i (pure (hnone s i (.refl s))) fun f0 hf0 i₁ => ?_)
  have c₁ : Calm s (s.setFile f0 { s.file f0 with ref := 1 }) := .setRef f0 1
  have hl0 := (c₁.links f0).trans (link_of_ref i hf0)
  have hr0 : ((s.setFile f0 { s.file f0 with ref := 1 }).file f0).ref = 1 := by
    rw [setFile_file_self]
  generalize s.setFile f0 { s.file f0 with ref := 1 } = s₁ at i₁ c₁ hl0 hr0 ⊢
  refine seq (filealloc i₁ (seq (fileclose_plain i₁ hl0 fun s' i' c' =>
    pure (hnone s' i' (c₁.trans c')))) fun f1 hf1 i₂ => ?_)
  have hne : f0 ≠ f1 := by
    rintro rfl
    exact absurd (hr0.symm.trans hf1) (by decide)
  have c₂ : Calm s₁ (s₁.setFile f1 { s₁.file f1 with ref := 1 }) := .setRef f1 1
  have hl1 := (c₂.links f1).trans (link_of_ref i₁ hf1)
  have hl0' := (c₂.links f0).trans hl0
  have hr0' : ((s₁.setFile f1 { s₁.file f1 with ref := 1 }).file f0).ref = 1 := by
    rw [setFile_file_of_ne hne, hr0]
  have hr1 : ((s₁.setFile f1 { s₁.file f1 with ref := 1 }).file f1).ref = 1 := by
    rw [setFile_file_self]
  have hc := c₁.trans c₂
  generalize s₁.setFile f1 { s₁.file f1 with ref := 1 } = s₂ at i₂ hc hl1 hl0' hr0' hr1 ⊢
  have hexec : guarded sb mode .kalloc s₂ = .ok s₂.outside.freelist.head?
      (s₂.setOutside { s₂.outside with freelist := s₂.outside.freelist.tail }) := rfl
  refine seq (act hexec ?_)
  have i₃ := i₂.setOutside { s₂.outside with freelist := s₂.outside.freelist.tail }
  have c₃ := hc.trans (.setOutside { s₂.outside with freelist := s₂.outside.freelist.tail })
  cases s₂.outside.freelist.head? with
  | none =>
      refine seq (fileclose_plain i₃ hl0' fun s₄ i₄ c₄ => ?_)
      refine seq (fileclose_plain i₄ ((c₄.links f1).trans hl1) fun s₅ i₅ c₅ => ?_)
      exact pure (hnone s₅ i₅ ((c₃.trans c₄).trans c₅))
  | some page =>
      refine seq (act (a := .pipeOpen page) rfl ?_)
      have i₄ := i₃.openPipe page
      have c₄ := c₃.trans (.openPipe page)
      refine seq (getFile (seq (pipeEnd i₄ hl0' (fun hz => absurd (hr0'.symm.trans hz) (by decide))
        rfl fun i₅ c₅ => ?_)))
      refine seq (getFile (seq (pipeEnd i₅ ((c₅.links f1).trans hl1) ?_ rfl fun i₆ c₆ => ?_)))
      · rw [setFile_file_of_ne hne.symm]
        exact fun hz => absurd (hr1.symm.trans hz) (by decide)
      · refine pure (hsome f0 f1 _ i₆ ((c₄.trans c₅).trans c₆) ?_ ?_)
        · rw [c₆.links, c₅.links]
          exact hl0'
        · rw [c₆.links, c₅.links]
          exact hl1

lemma sysPipe {Q : ℤ → FsState → Prop} (i : Inv sb [] s)
    (h : ∀ r s', Inv sb [] s' → Grew none s s' → Q r s') :
    Safe sb mode (Fs.sysPipe p) Q s := by
  have hend : ∀ r s', Inv sb [] s' → Calm s s' → Q r s' := fun r s' i' c' =>
    h r s' i' (.of_calm c')
  refine seq (pipealloc i (fun s' i' c' => pure (hend _ s' i' c')) fun rf wf s₁ i₁ c₁ hr hw => ?_)
  refine seq (fdalloc ?_ fun fd0 _ => ?_)
  · refine seq (fileclose_plain i₁ hr fun s₂ i₂ c₂ => ?_)
    refine seq (fileclose_plain i₂ ((c₂.links wf).trans hw) fun s₃ i₃ c₃ => ?_)
    exact pure (hend _ s₃ i₃ ((c₁.trans c₂).trans c₃))
  · have i₂ := i₁.setOfile (p := p) fd0 (some rf)
    have c₂ := c₁.trans (.setOfile p fd0 (some rf))
    refine seq (fdalloc ?_ fun fd1 _ => ?_)
    · refine seq (setOfile (seq ?_))
      refine fileclose_plain (i₂.setOfile fd0 none) hr fun s₃ i₃ c₃ => ?_
      refine seq (fileclose_plain i₃ ((c₃.links wf).trans hw) fun s₄ i₄ c₄ => ?_)
      exact pure (hend _ s₄ i₄ (((c₂.trans (.setOfile p fd0 none)).trans c₃).trans c₄))
    · exact pure (hend _ _ (i₂.setOfile fd1 (some wf)) (c₂.trans (.setOfile p fd1 (some wf))))

/-! ## `fork` -/

lemma forkFiles {Q : Unit → FsState → Prop} {np : ProcId} {fds : List Fd} (i : Inv sb L s)
    (h : ∀ s', Inv sb L s' → Calm s s' → Q () s') : Safe sb mode (Fs.forkFiles p np fds) Q s := by
  induction fds generalizing s with
  | nil => exact pure (h s i (.refl s))
  | cons fd fds ih =>
      rw [Fs.forkFiles]
      refine seq (act (a := .getOfile p fd) rfl ?_)
      cases (s.proc p).ofile fd with
      | none => exact ih i h
      | some f =>
          refine seq (filedup i fun i₁ => seq (setOfile ?_))
          have c₁ := (Calm.setRef (s := s) f ((s.file f).ref + 1)).trans (.setOfile np fd (some f))
          exact ih (i₁.setOfile fd (some f)) fun s' i' c' => h s' i' (c₁.trans c')

/-- `fork` gives the child the current directory of its parent. -/
lemma fork {Q : ℤ → FsState → Prop} {np : ProcId} (i : Inv sb [] s) (hnp : (s.proc np).cwd = none)
    (h : ∀ r s', Inv sb [] s' → Grew none s s' → Q r s') :
    Safe sb mode (Fs.fork p np) Q s := by
  refine seq (forkFiles i fun s₁ i₁ c₁ => seq (act (a := .getCwd p) rfl ?_))
  cases hcwd : (s₁.proc p).cwd with
  | none => exact panic i₁.readAlloc (by decide)
  | some e =>
      have he : Held [] s₁ e := .inr (.inr ⟨p, hcwd⟩)
      refine seq (idup i₁ he fun s₂ i₂ k₂ => seq (setCwd (pure ?_)))
      have hnp₂ : (s₂.proc np).cwd = none := by rw [k₂.proc, c₁.cwds, hnp]
      have hne : p ≠ np := by
        rintro rfl
        rw [c₁.cwds, hnp] at hcwd
        exact absurd hcwd (by simp)
      have i₃ : Inv sb [] (s₂.setProc np { s₂.proc np with cwd := some e }) := by
        refine i₂.setProc fun e' => ?_
        rw [hnp₂, isRef_none, count_cons_eq_add_isRef, add_zero]
      have hcwd' : ∀ q e', ((s₂.setProc np { s₂.proc np with cwd := some e }).proc q).cwd = some
        e' →
          ∃ q', (s₂.proc q').cwd = some e' := by
        intro q e' hq
        by_cases hqn : q = np
        · rw [hqn, setProc_proc_self] at hq
          exact ⟨p, by rw [k₂.proc, hcwd]; exact hq⟩
        · rw [setProc_proc_of_ne hqn] at hq
          exact ⟨q, hq⟩
      have g₃ : Grew none s₂ (s₂.setProc np { s₂.proc np with cwd := some e }) := by
        refine .of_more rfl rfl (fun _ _ hf => hf) (fun q e' hq => ?_) fun q e' hq =>
          .inl (hcwd' q e' hq)
        rw [setProc_proc_of_ne fun heq => by rw [heq, hnp₂] at hq; exact absurd hq (by simp)]
        exact hq
      exact h _ _ i₃ (Grew.trans (.of_calm c₁) (Grew.trans (.of_keeps k₂) g₃))

end Safe

/-! ## `open` -/

lemma Calm.live (c : Calm s s') (l : Live s e x) : Live s' e x := by
  refine ⟨?_, ?_, ?_⟩ <;> rw [c.inode]
  · exact l.ref
  · exact l.valid
  · exact l.inum

namespace Safe

lemma openInode {Q : Option InodeId → FsState → Prop} {path : Name} {omode : UInt32}
    (i : Inv sb [] s) (hnone : ∀ s', Inv sb [] s' → Keeps [] s s' → Q none s')
    (hsome : ∀ ip x s', Inv sb [ip] s' → Keeps [] s s' → Live s' ip x →
      ((s'.inode ip).type = T_DIR → omode = 0) → Q (some ip) s') :
    Safe sb mode (Fs.openInode p path omode) Q s := by
  rw [Fs.openInode]
  split
  · refine seq (beginTrans_inv i fun s₁ i₁ w₁ => ?_)
    have k₁ : Keeps [] s s₁ := w₁.keeps
    refine seq (create i₁ (fun s₂ i₂ k₂ => ?_) fun ip x s₂ i₂ k₂ l₂ ht => ?_)
    · exact seq (commitTrans_inv i₂ fun s₃ i₃ w₃ =>
        pure (hnone s₃ i₃ (k₁.trans (k₂.trans w₃.keeps))))
    · refine seq (commitTrans_inv i₂ fun s₃ i₃ w₃ => pure (hsome ip x s₃ i₃
        (k₁.trans (k₂.trans w₃.keeps)) (w₃.live l₂) fun hdir => ?_))
      rw [w₃.inode, ht] at hdir
      exact absurd hdir (by decide)
  · refine seq (namei i (fun s' i' k' => pure (hnone s' i' k')) fun ip s₁ r => ?_)
    refine seq (ilock r.inv fun s₂ i₂ k₂ _ l₂ _ => seq (getInode ?_))
    have k : Keeps [] s s₂ := r.keeps.trans (k₂.mono (by simp))
    split
    · exact seq (iunlockput i₂ fun s₃ i₃ k₃ => pure (hnone s₃ i₃ (k.trans k₃)))
    · rename_i hdir
      refine pure (hsome ip _ s₂ i₂ k l₂ fun ht => ?_)
      by_contra homode
      exact hdir ⟨ht, homode⟩

/-- The part of `open` that makes a descriptor for the inode. -/
lemma openFile {Q : ℤ → FsState → Prop} {omode : UInt32} (i : Inv sb [ip] s) (l : Live s ip x)
    (hdir : (s.inode ip).type = T_DIR → omode = 0)
    (h : ∀ r s', Inv sb [] s' → Grew none s s' → Q r s') :
    Safe sb mode ((do
      match ← Fs.filealloc with
      | none => do
          Fs.iunlockput ip
          Pure.pure (-1)
      | some f =>
          match ← Fs.fdalloc p f with
          | none => do
              Fs.fileclose f
              Fs.iunlockput ip
              Pure.pure (-1)
          | some fd => do
              Fs.iunlock ip
              let ff ← Fs.getFile f
              Fs.setFile f { ff.toOpenFile with
                type := .inode
                ip := some ip
                off := 0
                readable := decide (omode &&& Fs.O_WRONLY = 0)
                writable := decide (omode &&& Fs.O_WRONLY ≠ 0 ∨ omode &&& Fs.O_RDWR ≠ 0) }
              Pure.pure fd.val) : Sys ℤ) Q s := by
  -- when there is no room, the inode is given back
  have hback : ∀ s₁, Inv sb [ip] s₁ → Calm s s₁ →
      Safe sb mode (do Fs.iunlockput ip; Pure.pure (-1)) Q s₁ := by
    intro s₁ i₁ c₁
    exact seq (iunlockput i₁ fun s₂ i₂ k₂ => pure (h _ s₂ i₂
      (Grew.trans (.of_calm c₁) (.of_keeps k₂))))
  refine seq (filealloc i (hback s i (.refl s)) fun f hf i₁ => ?_)
  have c₁ : Calm s (s.setFile f { s.file f with ref := 1 }) := .setRef f 1
  have hl₁ := (c₁.links f).trans (link_of_ref i hf)
  have hr₁ : ((s.setFile f { s.file f with ref := 1 }).file f).ref = 1 := by
    rw [setFile_file_self]
  generalize s.setFile f { s.file f with ref := 1 } = s₁ at i₁ c₁ hl₁ hr₁ ⊢
  refine seq (fdalloc (seq (fileclose_plain i₁ hl₁ fun s₂ i₂ c₂ => hback s₂ i₂ (c₁.trans c₂)))
    fun fd _ => ?_)
  have i₂ := i₁.setOfile (p := p) fd (some f)
  have c₂ := c₁.trans (.setOfile p fd (some f))
  refine seq (iunlock_inv i₂ fun s₃ i₃ hs₃ => seq (getFile (seq (setFile (pure ?_)))))
  have k₃ : Keeps [ip] (s₁.setProc p { s₁.proc p with
      ofile := Function.update (s₁.proc p).ofile fd (some f) }) s₃ := by
    rw [hs₃]
    exact .setBusy
  have l₃ := (c₂.live l).keeps k₃ i₃ (.inl (by simp)) (by simp)
  have hf₃ : s₃.file f = s₁.file f := by rw [k₃.file, setProc_file]
  have htype : (s₃.inode ip).type = (s.inode ip).type := by
    rw [((k₃.kept ip (.inl (by simp))).valid (c₂.live l).valid).2, c₂.inode]
  refine h _ _ ?_ ?_
  · refine i₃.setFile (fun e => ?_) (fun e he => ?_) fun hz => ?_
    · rw [hf₃, hl₁, count_cons_eq_add_isRef]
      rfl
    · obtain rfl : ip = e := Option.some.inj he
      refine ⟨l₃.valid, fun hw hd => ?_⟩
      rw [hdir (htype ▸ hd)] at hw
      have hno : ¬ ((0 : UInt32) &&& Fs.O_WRONLY ≠ 0 ∨ (0 : UInt32) &&& Fs.O_RDWR ≠ 0) := by decide
      exact hno (of_decide_eq_true hw)
    · rw [hf₃, hr₁] at hz
      exact absurd hz (by decide)
  · refine Grew.trans (.of_calm c₂) (Grew.trans (.of_keeps (k₃.mono (by simp))) ?_)
    refine .of_more rfl rfl (fun f' e hf' => ?_) (fun _ _ hp => hp) fun q e hq => .inl ⟨q, hq⟩
    rw [setFile_file_of_ne fun heq => by
      rw [heq, hf₃, hl₁] at hf'
      exact absurd hf' (by simp)]
    exact hf'

/-- `open` takes a reference to an inode, which it may have made. -/
lemma sysOpen {Q : ℤ → FsState → Prop} {path : Option Name} {omode : UInt32} (i : Inv sb [] s)
    (h : ∀ r s', Inv sb [] s' → Grew none s s' → Q r s') :
    Safe sb mode (Fs.sysOpen p path omode) Q s := by
  cases path with
  | none => exact pure (h _ s i (.of_keeps (.refl _ _)))
  | some path =>
      refine seq (openInode i (fun s' i' k' => pure (h _ s' i' (.of_keeps k')))
        fun ip x s₁ i₁ k₁ l₁ hdir => ?_)
      exact openFile i₁ l₁ hdir fun r s' i' g => h r s' i' (Grew.trans (.of_keeps k₁) g)

/-! ## `mkdir` and `mknod` -/

lemma createCall {Q : ℤ → FsState → Prop} {path : Option Name} {type major minor : Int16}
    (i : Inv sb [] s) (h : ∀ r s', Inv sb [] s' → Keeps [] s s' → Q r s') :
    Safe sb mode (Fs.createCall p path type major minor) Q s := by
  refine seq (beginTrans_inv i fun s₁ i₁ w₁ => ?_)
  have hend : ∀ r s₂, Inv sb [] s₂ → Keeps [] s₁ s₂ →
      Safe sb mode (do Fs.commitTrans; Pure.pure r) Q s₂ := fun r s₂ i₂ k₂ =>
    seq (commitTrans_inv i₂ fun s₃ i₃ w₃ => pure (h r s₃ i₃ (w₁.keeps.trans (k₂.trans w₃.keeps))))
  cases path with
  | none => exact hend _ s₁ i₁ (.refl _ _)
  | some path =>
      exact seq (create i₁ (hend _) fun ip x s₂ i₂ k₂ _ _ =>
        seq (iunlockput i₂ fun s₃ i₃ k₃ => hend _ s₃ i₃ (k₂.trans k₃)))

end Safe

end Xv6
