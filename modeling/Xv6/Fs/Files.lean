import Xv6.Fs.Names
import Xv6.SysFile

/-!
# Open files

Rules for the functions of `file.c` and for the tables of descriptors, over the invariant of
`Xv6.Fs.Refs`, and what the closing of files does to the inodes of other open files.
-/

namespace Xv6

open Lib FsState

variable {mode : Mode} {sb : Superblock} {s s' s₁ s₂ : FsState} {L L' : List InodeId}
  {e : InodeId} {f : FileId} {p : ProcId} {x : ℕ}

namespace FsState

@[simp] lemma setFile_home {v : File} : (s.setFile f v).home = s.home := rfl
@[simp] lemma setFile_inode {v : File} : (s.setFile f v).inode = s.inode := rfl
@[simp] lemma setFile_proc {v : File} : (s.setFile f v).proc = s.proc := rfl
@[simp] lemma setFile_seen {v : File} : (s.setFile f v).seen = s.seen := rfl

@[simp] lemma setFile_file_self {v : File} : (s.setFile f v).file f = v := by
  simp [setFile]

lemma setFile_file_of_ne {v : File} {f' : FileId} (h : f' ≠ f) :
    (s.setFile f v).file f' = s.file f' := by
  simp [setFile, h]

@[simp] lemma setProc_home {v : ProcFiles} : (s.setProc p v).home = s.home := rfl
@[simp] lemma setProc_inode {v : ProcFiles} : (s.setProc p v).inode = s.inode := rfl
@[simp] lemma setProc_file {v : ProcFiles} : (s.setProc p v).file = s.file := rfl
@[simp] lemma setProc_seen {v : ProcFiles} : (s.setProc p v).seen = s.seen := rfl

@[simp] lemma setProc_proc_self {v : ProcFiles} : (s.setProc p v).proc p = v := by
  simp [setProc]

lemma setProc_proc_of_ne {v : ProcFiles} {q : ProcId} (h : q ≠ p) :
    (s.setProc p v).proc q = s.proc q := by
  simp [setProc, h]

@[simp] lemma pipeclose_home {page : ℕ} {w : Bool} : (s.pipeclose page w).home = s.home := by
  unfold pipeclose
  split <;> rfl

@[simp] lemma pipeclose_inode {page : ℕ} {w : Bool} : (s.pipeclose page w).inode = s.inode := by
  unfold pipeclose
  split <;> rfl

@[simp] lemma pipeclose_file {page : ℕ} {w : Bool} : (s.pipeclose page w).file = s.file := by
  unfold pipeclose
  split <;> rfl

@[simp] lemma pipeclose_proc {page : ℕ} {w : Bool} : (s.pipeclose page w).proc = s.proc := by
  unfold pipeclose
  split <;> rfl

lemma links_setFile (s : FsState) (f : FileId) (v : File) :
    (s.setFile f v).links = Function.update s.links f v.link := by
  funext f'
  by_cases hf : f' = f
  · rw [hf, Function.update_self, links, setFile_file_self]
  · rw [Function.update_of_ne hf, links, setFile_file_of_ne hf, links]

lemma cwds_setProc (s : FsState) (p : ProcId) (v : ProcFiles) :
    (s.setProc p v).cwds = Function.update s.cwds p v.cwd := by
  funext q
  by_cases hq : q = p
  · rw [hq, Function.update_self, cwds, setProc_proc_self]
  · rw [Function.update_of_ne hq, cwds, setProc_proc_of_ne hq, cwds]

end FsState

lemma Consistent.setFile {ino : ℕ → DInode} (c : Consistent sb s ino []) (v : File) :
    Consistent sb (s.setFile f v) ino [] :=
  ⟨⟨c.mounted.sound, c.mounted.superblock, c.mounted.start, c.mounted.journal, c.mounted.readAlloc⟩,
    ⟨c.cached.dev, c.cached.inum, c.cached.uniq, c.cached.valid, c.cached.disk, c.cached.cached⟩,
    c.good⟩

lemma Consistent.setProc {ino : ℕ → DInode} (c : Consistent sb s ino []) (v : ProcFiles) :
    Consistent sb (s.setProc p v) ino [] :=
  ⟨⟨c.mounted.sound, c.mounted.superblock, c.mounted.start, c.mounted.journal, c.mounted.readAlloc⟩,
    ⟨c.cached.dev, c.cached.inum, c.cached.uniq, c.cached.valid, c.cached.disk, c.cached.cached⟩,
    c.good⟩

namespace Inv

/-- A file is changed, and its reference comes from those held or goes to them. -/
lemma setFile {v : File} (i : Inv sb L s)
    (hlink : ∀ e, L'.count e + isRef v.link e = L.count e + isRef (s.file f).link e)
    (hopened : ∀ e, v.link = some e → (s.inode e).valid = true ∧
      (v.writable = true → (s.inode e).type ≠ T_DIR))
    (hclosed : v.ref = 0 → v.type = .none) : Inv sb L' (s.setFile f v) := by
  obtain ⟨ino, c⟩ := i.content
  refine ⟨⟨ino, c.setFile v⟩, i.reading, fun e => ?_, fun f' e hf' => ?_, fun f' hf' => ?_⟩
  · have hupd := refs_update s.links f v.link e
    have hcount := i.counts e
    have := hlink e
    rw [links_setFile, setFile_inode, hcount]
    change _ = ((_ + _ + refs s.cwds e : ℕ) : ℤ)
    rw [links] at hupd
    omega
  · by_cases hne : f' = f
    · subst hne
      rw [setFile_file_self] at hf' ⊢
      exact hopened e hf'
    · rw [setFile_file_of_ne hne] at hf' ⊢
      exact i.opened f' e hf'
  · by_cases hne : f' = f
    · subst hne
      rw [setFile_file_self] at hf' ⊢
      exact hclosed hf'
    · rw [setFile_file_of_ne hne] at hf' ⊢
      exact i.closed f' hf'

/-- The same, when the file's reference stays as it is. -/
lemma setFile_same {v : File} (i : Inv sb L s) (hlink : v.link = (s.file f).link)
    (hwritable : v.writable = (s.file f).writable) (hclosed : v.ref = 0 → v.type = .none) :
    Inv sb L (s.setFile f v) := by
  refine i.setFile (fun e => by rw [hlink]) (fun e he => ?_) hclosed
  rw [hwritable]
  exact i.opened f e (hlink ▸ he)

/-- The current directory of a process is changed. -/
lemma setProc {v : ProcFiles} (i : Inv sb L s)
    (hcwd : ∀ e, L'.count e + isRef v.cwd e = L.count e + isRef (s.proc p).cwd e) :
    Inv sb L' (s.setProc p v) := by
  obtain ⟨ino, c⟩ := i.content
  refine ⟨⟨ino, c.setProc v⟩, i.reading, fun e => ?_, i.opened, i.closed⟩
  have hupd := refs_update s.cwds p v.cwd e
  have hcount := i.counts e
  have := hcwd e
  rw [cwds_setProc, setProc_inode, hcount]
  change _ = ((_ + refs s.links e + _ : ℕ) : ℤ)
  rw [cwds] at hupd
  omega

lemma setOfile (i : Inv sb L s) (fd : Fd) (o : Option FileId) :
    Inv sb L (s.setProc p { s.proc p with ofile := Function.update (s.proc p).ofile fd o }) :=
  i.setProc fun _ => rfl

end Inv

/-- Pipes do not matter for inodes. -/
lemma Inv.setPipe (i : Inv sb L s) (page : ℕ) (ends : PipeEnds) :
    Inv sb L (s.setPipe page ends) := by
  obtain ⟨ino, c⟩ := i.content
  exact ⟨⟨ino, ⟨⟨c.mounted.sound, c.mounted.superblock, c.mounted.start, c.mounted.journal,
    c.mounted.readAlloc⟩, ⟨c.cached.dev, c.cached.inum, c.cached.uniq, c.cached.valid,
    c.cached.disk, c.cached.cached⟩, c.good⟩⟩, i.reading, i.counts, i.opened, i.closed⟩

lemma Inv.openPipe (i : Inv sb L s) (page : ℕ) : Inv sb L (s.openPipe page) :=
  (i.setPipe page ⟨true, true⟩).setSeen rfl rfl

lemma Inv.pipeclose (i : Inv sb L s) (page : ℕ) (writable : Bool) :
    Inv sb L (s.pipeclose page writable) := by
  have i₁ := i.setPipe page ((s.pipe page).close writable)
  unfold FsState.pipeclose
  split
  · exact (i₁.setOutside { s.outside with freelist := page :: s.outside.freelist }).setSeen
      (o := { s.seen with kfrees := s.seen.kfrees ++ [page] }) rfl rfl
  · exact i₁

/-! ## Closing files -/

/-- A file refers to entry `e`. -/
def Open (s : FsState) (e : InodeId) : Prop := ∃ f, (s.file f).link = some e

instance : Decidable (Open s e) := inferInstanceAs (Decidable (∃ f, (s.file f).link = some e))

/-- The current directories of the processes are directories. -/
def Dirs (s : FsState) : Prop :=
  ∀ p e, (s.proc p).cwd = some e → (s.node (s.inode e).inum).type = T_DIR

lemma Dirs.keeps (d : Dirs s) (k : Keeps L s s') : Dirs s' := by
  intro p e hp
  rw [k.proc] at hp
  have hk := k.kept e (.inr (.inr ⟨p, hp⟩))
  have ht := d p e hp
  rw [hk.inum, hk.type (by rw [ht]; exact T_DIR_ne_zero), ht]

namespace Inv

lemma live_of_open (i : Inv sb L s) (he : Open s e) : Live s e (s.inode e).inum := by
  obtain ⟨f, hf⟩ := he
  exact i.live (.inr (.inl ⟨f, hf⟩)) (i.opened f e hf).1

/-- The blocks of an inode are blocks of the file system. -/
lemma slot_lt_size (i : Inv sb L s) {k : ℕ} (hx : x < sb.ninodes) (ht : (s.node x).type ≠ 0)
    (hk : slotOf s.home (s.node x) k ≠ 0) : slotOf s.home (s.node x) k < sb.size := by
  obtain ⟨ino, c⟩ := i.content
  rw [c.node_eq hx] at ht hk ⊢
  exact (c.good.owns.held _ _ (own_slotOf hx ht hk)).1.2

end Inv

/-- Transactions around it do not matter for what `iput` does. -/
lemma Dropped.of_wrote {s₃ : FsState} (w : Wrote s s.home s₁) (d : Dropped sb s₁ e s₂)
    (i : Inv sb L s₃) (w' : Wrote s₂ s₂.home s₃) : Dropped sb s e s₃ := by
  have hinode : s₁.inode = s.inode := w.inode
  refine ⟨i.content, ?_, ?_, ?_, fun e' => ?_, fun e' href => ?_, ?_⟩
  · rw [w'.file, d.file, w.file]
  · rw [w'.proc, d.proc, w.proc]
  · rw [w'.reading, d.reading, w.reading]
  · rw [w'.inode, d.ref e', hinode]
  · rw [w'.inode] at href
    exact (((Shown.of_eq (congrFun hinode e')).kept w.home).trans (d.kept e' href)).trans
      ((Shown.of_eq (congrFun w'.inode e')).kept w'.home)
  · have hv := d.volume
    rw [hinode] at hv
    split at hv
    · rename_i hlast
      rw [if_pos hlast]
      have hnode := FsState.node_congr w.home
      have hnode' := FsState.node_congr w'.home
      refine ⟨by rw [← hnode]; exact hv.nlink, by rw [← hnode]; exact hv.used,
        by rw [hnode']; exact hv.type, fun y hy hne => ?_, fun k hk => ?_, fun b hb hbit => ?_⟩
      · exact ((SameNode.of_home w.home y).trans (hv.others y hy hne)).of_home_eq w'.home
      · have hbits := hv.bits k
        rw [w.home, hnode] at hbits
        rw [w'.home]
        exact hbits hk
      · rw [w'.home] at hbit
        have := hv.cleared b hb hbit
        rwa [w.home] at this
    · rename_i hlast
      rw [if_neg hlast, w'.home, hv, w.home]

namespace Safe

/-- Drop the last reference to a file, or another one. -/
lemma fileDrop {Q : Option OpenFile → FsState → Prop} (hr : s.seen.readAlloc = false)
    (hmore : 1 < (s.file f).ref →
      Q none (s.setFile f { s.file f with ref := (s.file f).ref - 1 }))
    (hlast : (s.file f).ref = 1 →
      Q (some (s.file f).toOpenFile) (s.setFile f { s.file f with ref := 0, type := .none })) :
    Safe sb mode (Fs.fileDrop f) Q s := by
  by_cases hbad : (s.file f).ref < 1
  · exact act_panic (a := .fileclose f) "fileclose" (by simp [guarded, Act.exec, hbad]) hr
      (by decide)
  by_cases hpos : 0 < (s.file f).ref - 1
  · have hexec : guarded sb mode (.fileclose f) s =
        .ok none (s.setFile f { s.file f with ref := (s.file f).ref - 1 }) := by
      simp only [guarded, Act.exec, if_neg hbad, if_pos hpos]
    exact act hexec (hmore (by omega))
  · have hexec : guarded sb mode (.fileclose f) s = .ok (some (s.file f).toOpenFile)
        (s.setFile f { s.file f with ref := 0, type := .none }) := by
      simp only [guarded, Act.exec, if_neg hbad, if_neg hpos]
    exact act hexec (hlast (by omega))

/-- `fileclose` drops the inode of the file if it was the last reference to the file. -/
lemma fileclose {Q : Unit → FsState → Prop} (i : Inv sb L s)
    (hsame : ∀ s', Inv sb L s' → s'.home = s.home → s'.inode = s.inode → s'.proc = s.proc →
      (∀ f', (s'.file f').link = (s.file f').link) → Q () s')
    (hdrop : ∀ e s₁ s', (s.file f).link = some e →
      s₁ = s.setFile f { s.file f with ref := 0, type := .none } → Inv sb (e :: L) s₁ →
      Inv sb L s' → Dropped sb s₁ e s' → Q () s') : Safe sb mode (Fs.fileclose f) Q s := by
  have hlinks : ∀ v : File, v.link = (s.file f).link →
      ∀ f', ((s.setFile f v).file f').link = (s.file f').link := by
    intro v hv f'
    by_cases hne : f' = f
    · rw [hne, setFile_file_self, hv]
    · rw [setFile_file_of_ne hne]
  refine seq (fileDrop i.readAlloc (fun hmore => ?_) fun hlast => ?_)
  · refine pure (hsame _ (i.setFile_same rfl rfl fun hz => ?_) rfl rfl rfl (hlinks _ rfl))
    exact absurd hz (by dsimp only; omega)
  · dsimp only
    split
    · rename_i htype
      have hnone : (s.file f).link = none := by rw [File.link, if_neg (by rw [htype]; decide)]
      have i₁ : Inv sb L (s.setFile f { s.file f with ref := 0, type := .none }) :=
        i.setFile_same hnone.symm rfl fun _ => rfl
      refine act (a := .pipeclose _ _) rfl (hsame _ (i₁.pipeclose _ _) ?_ ?_ ?_ fun f' => ?_)
      · rw [pipeclose_home, setFile_home]
      · rw [pipeclose_inode, setFile_inode]
      · rw [pipeclose_proc, setFile_proc]
      · rw [pipeclose_file]
        exact hlinks { s.file f with ref := 0, type := .none } hnone.symm f'
    · rename_i e htype hip
      have hlink : (s.file f).link = some e := by rw [File.link, if_pos htype, hip]
      have i₁ : Inv sb (e :: L) (s.setFile f { s.file f with ref := 0, type := .none }) := by
        refine i.setFile (fun e' => ?_) (fun e' he' => absurd he' (by simp [File.link]))
          fun _ => rfl
        rw [hlink, count_cons_eq_add_isRef]
        rfl
      refine seq (beginTrans_inv i₁ fun s₂ i₂ w₂ => seq (iput_dropped i₂ (.inl (by simp))
        fun s₃ d => ?_))
      exact commitTrans_inv (i₂.dropped d).1 fun s₄ i₄ w₄ =>
        hdrop e _ s₄ hlink rfl i₁ i₄ (.of_wrote w₂ d i₄ w₄)
    · exact panic i.readAlloc (by decide)
    · rename_i htype
      have hnone : (s.file f).link = none := by rw [File.link, if_neg (by rw [htype]; decide)]
      exact pure (hsame _ (i.setFile_same hnone.symm rfl fun _ => rfl) rfl rfl rfl
        (hlinks _ hnone.symm))

end Safe

end Xv6
