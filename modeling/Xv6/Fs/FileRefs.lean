import Xv6.Fs.Balance

/-!
# References to files, and pipes

The functions of `file.c`, the tables of descriptors and the pipes, over the invariant of
`Xv6.Fs.Balance`; and that every system call keeps it.
-/

namespace Xv6

open Lib FsState

variable {c : Prop} {L L' : List InodeId} {F F' : List FileId} {t : ProcId → ProcFiles}
  {s s' s₁ : FsState} {e : InodeId} {f g : FileId} {page : ℕ}

/-! ## Pipes -/

lemma PipeEnds.isOpen_close (ends : PipeEnds) (w w' : Bool) :
    (ends.close w).isOpen w' = (ends.isOpen w' && w' != w) := by
  cases w <;> cases w' <;> simp [close, isOpen]

lemma PipeEnds.closed_iff (ends : PipeEnds) :
    ends.readopen = false ∧ ends.writeopen = false ↔ ∀ w, ends.isOpen w = false := by
  constructor
  · rintro ⟨hr, hw⟩ w
    cases w
    · exact hr
    · exact hw
  · exact fun h => ⟨h false, h true⟩

namespace Pipes

lemma once_live (h : Pipes s) (hlive : PipeLive s page) :
    s.seen.pipes.count page = s.seen.kfrees.count page + 1 := by
  rw [h.once page, if_pos hlive]

lemma once_not_live (h : Pipes s) (hlive : ¬ PipeLive s page) :
    s.seen.pipes.count page = s.seen.kfrees.count page := by
  rw [h.once page, if_neg hlive, add_zero]

/-- A page is taken from the free list. -/
lemma kalloc (h : Pipes s) {rest : List ℕ} (hfree : s.outside.freelist = page :: rest) :
    Pipes { s with outside := { s.outside with freelist := rest } } ∧ page ∉ rest ∧
      ¬ PipeLive s page := by
  have hnodup := h.nodup
  rw [hfree, List.nodup_cons] at hnodup
  have hused := h.used
  rw [hfree] at hused
  refine ⟨⟨h.isOpen, h.file, h.uniq, hnodup.2, fun f q hf hq => ?_, h.once⟩, hnodup.1, ?_⟩
  · exact hused f q hf (List.mem_cons_of_mem page hq)
  · rintro ⟨f, hf⟩
    exact hused f page hf List.mem_cons_self

/-- Two files become the ends of a new pipe. -/
lemma openPipe {v w : File} (h : Pipes s) (hfree : page ∉ s.outside.freelist)
    (hnew : ¬ PipeLive s page) (hne : f ≠ g) (hf : (s.file f).page = none)
    (hg : (s.file g).page = none) (hv : v.page = some page) (hvw : v.writable = false)
    (hw : w.page = some page) (hww : w.writable = true) :
    Pipes (((s.openPipe page).setFile f v).setFile g w) := by
  have hf' : (((s.openPipe page).setFile f v).setFile g w).file f = v := by
    rw [setFile_file_of_ne hne, setFile_file_self]
  have hg' : (((s.openPipe page).setFile f v).setFile g w).file g = w := setFile_file_self
  have hold : ∀ i, i ≠ f → i ≠ g → (((s.openPipe page).setFile f v).setFile g w).file
    i = s.file i := by
    intro i hif hig
    rw [setFile_file_of_ne hig, setFile_file_of_ne hif]
    rfl
  generalize hs' : ((s.openPipe page).setFile f v).setFile g w = s' at hf' hg' hold
  have hpipe : s'.pipe page = ⟨true, true⟩ := by
    rw [← hs']
    simp [FsState.openPipe, setPipe, FsState.setFile]
  have hpipe' : ∀ q, q ≠ page → s'.pipe q = s.pipe q := by
    intro q hq
    rw [← hs']
    simp [FsState.openPipe, setPipe, FsState.setFile, hq]
  -- a file of `s'` is one of the two, or a file of another pipe as before
  have hcases : ∀ i q, (s'.file i).page = some q → (i = f ∨ i = g) ∧ q = page ∨
      (i ≠ f ∧ i ≠ g) ∧ q ≠ page ∧ (s.file i).page = some q := by
    intro i q hi
    by_cases hif : i = f
    · rw [hif, hf', hv] at hi
      exact .inl ⟨.inl hif, (Option.some.inj hi).symm⟩
    by_cases hig : i = g
    · rw [hig, hg', hw] at hi
      exact .inl ⟨.inr hig, (Option.some.inj hi).symm⟩
    rw [hold i hif hig] at hi
    exact .inr ⟨⟨hif, hig⟩, fun hq => hnew ⟨i, hq ▸ hi⟩, hi⟩
  have hkeep : ∀ i q, (s.file i).page = some q → s'.file i = s.file i := by
    intro i q hi
    refine hold i (fun hif => ?_) fun hig => ?_
    · rw [hif, hf] at hi
      exact absurd hi (by simp)
    · rw [hig, hg] at hi
      exact absurd hi (by simp)
  refine ⟨fun i q hi => ?_, fun i q b hi hb => ?_, fun i j q hi hj hb => ?_, ?_, fun i q hi => ?_,
    fun q => ?_⟩
  · obtain ⟨-, rfl⟩ | ⟨⟨hif, hig⟩, hq, hi⟩ := hcases i q hi
    · rw [hpipe]
      cases (s'.file i).writable <;> rfl
    · rw [hpipe' q hq, hold i hif hig]
      exact h.isOpen i q hi
  · obtain ⟨-, rfl⟩ | ⟨-, hq, hi⟩ := hcases i q hi
    · cases b
      · exact ⟨f, by rw [hf', hv], by rw [hf', hvw]⟩
      · exact ⟨g, by rw [hg', hw], by rw [hg', hww]⟩
    · rw [hpipe' q hq] at hb
      obtain ⟨j, hj, hjw⟩ := h.file i q b hi hb
      exact ⟨j, by rw [hkeep j q hj, hj], by rw [hkeep j q hj, hjw]⟩
  · obtain ⟨hi, rfl⟩ | ⟨⟨hif, hig⟩, hq, hi⟩ := hcases i q hi <;>
      obtain ⟨hj, hq'⟩ | ⟨⟨hjf, hjg⟩, hq', hj⟩ := hcases j _ hj
    · rcases hi with rfl | rfl <;> rcases hj with rfl | rfl <;> simp_all
    · exact absurd rfl hq'
    · exact absurd hq' hq
    · rw [hold i hif hig, hold j hjf hjg] at hb
      exact h.uniq i j q hi hj hb
  · rw [← hs']
    exact h.nodup
  · have hlist : s'.outside.freelist = s.outside.freelist := by rw [← hs']; rfl
    rw [hlist]
    obtain ⟨-, rfl⟩ | ⟨-, -, hi⟩ := hcases i q hi
    · exact hfree
    · exact h.used i q hi
  · have hpipes : s'.seen.pipes = s.seen.pipes ++ [page] := by rw [← hs']; rfl
    have hkfrees : s'.seen.kfrees = s.seen.kfrees := by rw [← hs']; rfl
    rw [hpipes, hkfrees, List.count_append, List.count_singleton]
    by_cases hq : q = page
    · have hlive : PipeLive s' page := ⟨f, by rw [hf', hv]⟩
      rw [hq, if_pos hlive, h.once_not_live hnew]
      simp
    · have hiff : PipeLive s' q ↔ PipeLive s q := by
        constructor
        · rintro ⟨i, hi⟩
          obtain ⟨-, hq'⟩ | ⟨-, -, hi⟩ := hcases i q hi
          · exact absurd hq' hq
          · exact ⟨i, hi⟩
        · rintro ⟨i, hi⟩
          exact ⟨i, by rw [hkeep i q hi, hi]⟩
      simp only [hiff, h.once q]
      simp [Ne.symm hq]

/-- The other end of a pipe is open iff another file stands for it. -/
lemma isOpen_not (h : Pipes s) (hf : (s.file f).page = some page) :
    (s.pipe page).isOpen (!(s.file f).writable) = true ↔ ∃ g, g ≠ f ∧ (s.file g).page =
      some page := by
  constructor
  · intro ho
    obtain ⟨g, hg, hgw⟩ := h.file f page _ hf ho
    refine ⟨g, fun hgf => ?_, hg⟩
    rw [hgf] at hgw
    exact absurd hgw (by simp)
  · rintro ⟨g, hgf, hg⟩
    have hne : (s.file g).writable ≠ (s.file f).writable := fun hw => hgf (h.uniq g f page hg hf hw)
    rw [← Bool.eq_not.2 hne]
    exact h.isOpen g page hg

/-- What remains when an end of a pipe is closed. -/
lemma of_close {v : File} (h : Pipes s) (hf : (s.file f).page = some page) (hv : v.page = none)
    (hfile : s'.file = (s.setFile f v).file)
    (hpipe : s'.pipe = Function.update s.pipe page ((s.pipe page).close (s.file f).writable))
    (hnodup : s'.outside.freelist.Nodup)
    (hused : ∀ g q, g ≠ f → (s.file g).page = some q → q ∉ s'.outside.freelist)
    (honce : ∀ q, s'.seen.pipes.count q = s'.seen.kfrees.count q +
      if ∃ g, g ≠ f ∧ (s.file g).page = some q then 1 else 0) : Pipes s' := by
  have hcases : ∀ i q, (s'.file i).page = some q → i ≠ f ∧ s'.file i = s.file i := by
    intro i q hi
    rw [hfile] at hi ⊢
    by_cases hif : i = f
    · rw [hif, setFile_file_self, hv] at hi
      exact absurd hi (by simp)
    · exact ⟨hif, setFile_file_of_ne hif⟩
  have hw : ∀ i, i ≠ f → (s.file i).page = some page → (s.file i).writable ≠ (s.file f).writable :=
    fun i hif hi hwi => hif (h.uniq i f page hi hf hwi)
  refine ⟨fun i q hi => ?_, fun i q b hi hb => ?_, fun i j q hi hj hb => ?_, hnodup,
    fun i q hi => ?_, fun q => ?_⟩
  · obtain ⟨hif, hi'⟩ := hcases i q hi
    rw [hi'] at hi ⊢
    have ho := h.isOpen i q hi
    rw [hpipe]
    by_cases hq : q = page
    · subst hq
      rw [Function.update_self, PipeEnds.isOpen_close, ho]
      simpa using hw i hif hi
    · rwa [Function.update_of_ne hq]
  · obtain ⟨hif, hi'⟩ := hcases i q hi
    rw [hi'] at hi
    have hend : (s.pipe q).isOpen b = true ∧ (q = page → b ≠ (s.file f).writable) := by
      rw [hpipe] at hb
      by_cases hq : q = page
      · subst hq
        rw [Function.update_self, PipeEnds.isOpen_close] at hb
        simpa using hb
      · rw [Function.update_of_ne hq] at hb
        exact ⟨hb, fun hq' => absurd hq' hq⟩
    obtain ⟨j, hj, hjw⟩ := h.file i q b hi hend.1
    have hjf : j ≠ f := by
      rintro rfl
      exact hend.2 (Option.some.inj (hj.symm.trans hf)) hjw.symm
    have hj' : s'.file j = s.file j := by rw [hfile, setFile_file_of_ne hjf]
    exact ⟨j, by rw [hj', hj], by rw [hj', hjw]⟩
  · obtain ⟨-, hi'⟩ := hcases i q hi
    obtain ⟨-, hj'⟩ := hcases j q hj
    rw [hi'] at hi hb
    rw [hj'] at hj hb
    exact h.uniq i j q hi hj hb
  · obtain ⟨hif, hi'⟩ := hcases i q hi
    rw [hi'] at hi
    exact hused i q hif hi
  · rw [honce q]
    refine congrArg _ (if_congr ⟨fun ⟨g, hgf, hg⟩ => ⟨g, ?_⟩, fun ⟨g, hg⟩ => ?_⟩ rfl rfl)
    · rw [hfile, setFile_file_of_ne hgf, hg]
    · obtain ⟨hgf, hg'⟩ := hcases g q hg
      exact ⟨g, hgf, hg' ▸ hg⟩

/-- The page that the close of a file frees: that of a pipe with no other file. -/
def freed (s : FsState) (f : FileId) : List ℕ :=
  match (s.file f).page with
  | some page => if ∃ g, g ≠ f ∧ (s.file g).page = some page then [] else [page]
  | none => []

/-- The last file for an end of a pipe is closed. -/
lemma pipeclose {v : File} (h : Pipes s) (hf : (s.file f).page = some page) (hv : v.page = none) :
    Pipes ((s.setFile f v).pipeclose page (s.file f).writable) ∧
      ((s.setFile f v).pipeclose page (s.file f).writable).seen.kfrees = s.seen.kfrees ++
        freed s f := by
  have hother := h.isOpen_not hf
  -- the other pipes keep their files
  have hrest : ∀ q, q ≠ page → (PipeLive s q ↔ ∃ g, g ≠ f ∧ (s.file g).page = some q) := by
    intro q hq
    refine ⟨fun ⟨g, hg⟩ => ⟨g, ?_, hg⟩, fun ⟨g, _, hg⟩ => ⟨g, hg⟩⟩
    rintro rfl
    exact hq (Option.some.inj (hg.symm.trans hf))
  have hcond : (((s.setFile f v).pipe page).close (s.file f).writable).readopen = false ∧
      (((s.setFile f v).pipe page).close (s.file f).writable).writeopen = false ↔
      ¬ ∃ g, g ≠ f ∧ (s.file g).page = some page := by
    rw [PipeEnds.closed_iff, ← hother]
    simp only [PipeEnds.isOpen_close]
    constructor
    · intro hall ho
      have := hall (!(s.file f).writable)
      rw [show (s.setFile f v).pipe page = s.pipe page from rfl, ho] at this
      simp at this
    · intro hno w
      by_cases hw : w = (s.file f).writable
      · simp [hw]
      · rw [Bool.eq_not.2 hw, show (s.setFile f v).pipe page = s.pipe page from rfl]
        simpa using hno
  rw [FsState.pipeclose, freed, hf]
  split
  · rename_i hclosed
    have hno := hcond.1 hclosed
    refine ⟨h.of_close hf hv rfl rfl ?_ (fun g q hgf hg => ?_) fun q =>
      ?_, by simp [hno, kfree, setPipe]⟩
    · exact List.nodup_cons.2 ⟨h.used f page hf, h.nodup⟩
    · intro hq
      rcases List.mem_cons.1 hq with rfl | hq
      · exact hno ⟨g, hgf, hg⟩
      · exact h.used g q hg hq
    · change s.seen.pipes.count q = (s.seen.kfrees ++ [page]).count q + _
      rw [List.count_append]
      by_cases hq : q = page
      · subst hq
        rw [if_neg hno, h.once_live ⟨f, hf⟩]
        simp
      · rw [h.once q, if_congr (hrest q hq) rfl rfl]
        simp [Ne.symm hq]
  · rename_i hopen
    have hyes := not_not.1 (mt hcond.2 hopen)
    refine ⟨h.of_close hf hv rfl rfl h.nodup (fun g q _ hg => h.used g q hg) fun q => ?_,
      by simp [hyes, setPipe]⟩
    change s.seen.pipes.count q = s.seen.kfrees.count q + _
    by_cases hq : q = page
    · subst hq
      rw [if_pos hyes, h.once_live ⟨f, hf⟩]
    · rw [h.once q, if_congr (hrest q hq) rfl rfl]

end Pipes

/-! ## Descriptors -/

/-- Store into a descriptor of process `p`. -/
def withOfile (t : ProcId → ProcFiles) (p : ProcId) (fd : Fd) (o : Option FileId) :
    ProcId → ProcFiles :=
  Function.update t p { t p with ofile := Function.update (t p).ofile fd o }

/-- Store the current directory of process `p`. -/
def withCwd (t : ProcId → ProcFiles) (p : ProcId) (o : Option InodeId) : ProcId → ProcFiles :=
  Function.update t p { t p with cwd := o }

section

variable {p : ProcId} {fd : Fd}

lemma ofiles_withOfile (o : Option FileId) :
    ofiles (withOfile t p fd o) = Function.update (ofiles t) (p, fd) o := by
  funext ⟨q, i⟩
  rw [ofiles, withOfile]
  by_cases hq : q = p
  · subst hq
    by_cases hi : i = fd
    · simp [hi]
    · simp [hi, ofiles]
  · rw [Function.update_of_ne hq, Function.update_of_ne (by simp [hq]), ofiles]

@[simp] lemma dirs_withOfile (o : Option FileId) : dirs (withOfile t p fd o) = dirs t := by
  funext q
  rw [dirs, withOfile]
  by_cases hq : q = p
  · subst hq
    rw [Function.update_self, dirs]
  · rw [Function.update_of_ne hq, dirs]

@[simp] lemma ofiles_withCwd (o : Option InodeId) : ofiles (withCwd t p o) = ofiles t := by
  funext ⟨q, i⟩
  rw [ofiles, withCwd]
  by_cases hq : q = p
  · subst hq
    rw [Function.update_self, ofiles]
  · rw [Function.update_of_ne hq, ofiles]

lemma dirs_withCwd (o : Option InodeId) : dirs (withCwd t p o) = Function.update (dirs t) p o := by
  funext q
  rw [dirs, withCwd]
  by_cases hq : q = p
  · rw [hq, Function.update_self, Function.update_self]
  · rw [Function.update_of_ne hq, Function.update_of_ne hq, dirs]

end

namespace Balanced

variable {p : ProcId} {fd : Fd}

/-- The processes are counted with `t`. -/
lemma setProc (b : Balanced c L F t s) (v : ProcFiles) : Balanced c L F t (s.setProc p v) :=
  ⟨b.inodes, b.uniq, b.files, b.closed,
    fun hc => (b.pipes hc).congr (fun _ => ⟨rfl, fun _ => rfl⟩) rfl rfl rfl rfl⟩

/-- A reference to a file is stored into a free descriptor. -/
lemma store (b : Balanced c L (f :: F) t s) (hfd : (t p).ofile fd = none) :
    Balanced c L F (withOfile t p fd (some f)) s := by
  refine b.count (fun g => ?_) fun e => by rw [dirs_withOfile]
  have hupd := refs_update (ofiles t) (p, fd) (some f) g
  rw [show ofiles t (p, fd) = none from hfd, isRef_none] at hupd
  rw [ofiles_withOfile, count_cons_eq_add_isRef]
  omega

/-- A reference to a file is taken from a descriptor. -/
lemma fetch (b : Balanced c L F t s) (hfd : (t p).ofile fd = some f) :
    Balanced c L (f :: F) (withOfile t p fd none) s := by
  refine b.count (fun g => ?_) fun e => by rw [dirs_withOfile]
  have hupd := refs_update (ofiles t) (p, fd) none g
  rw [show ofiles t (p, fd) = some f from hfd, isRef_none] at hupd
  rw [ofiles_withOfile, count_cons_eq_add_isRef]
  omega

/-- A reference to a directory is stored as the current one, and that of before is taken. -/
lemma enter (b : Balanced c (e :: L) F t s) {old : InodeId} (hold : (t p).cwd = some old) :
    Balanced c (old :: L) F (withCwd t p (some e)) s := by
  refine b.count (fun g => by rw [ofiles_withCwd]) fun e' => ?_
  have hupd := refs_update (dirs t) p (some e) e'
  rw [show dirs t p = some old from hold] at hupd
  rw [dirs_withCwd, count_cons_eq_add_isRef, count_cons_eq_add_isRef]
  omega

/-- The first current directory of a process is stored. -/
lemma enterFirst (b : Balanced c (e :: L) F t s) (hold : (t p).cwd = none) :
    Balanced c L F (withCwd t p (some e)) s := by
  refine b.count (fun g => by rw [ofiles_withCwd]) fun e' => ?_
  have hupd := refs_update (dirs t) p (some e) e'
  rw [show dirs t p = none from hold, isRef_none] at hupd
  rw [dirs_withCwd, count_cons_eq_add_isRef]
  omega

/-- The current directory of a process that exits is taken. -/
lemma leave (b : Balanced c L F t s) (hold : (t p).cwd = some e) :
    Balanced c (e :: L) F (withCwd t p none) s := by
  refine b.count (fun g => by rw [ofiles_withCwd]) fun e' => ?_
  have hupd := refs_update (dirs t) p none e'
  rw [show dirs t p = some e from hold, isRef_none] at hupd
  rw [dirs_withCwd, count_cons_eq_add_isRef]
  omega

/-! ## Files -/

/-- The pipes change, but no inode and no file. -/
lemma of_pipes {c' : Prop} (b : Balanced c' L F t s) (hinode : s'.inode = s.inode)
    (hfile : s'.file = s.file) (hpipes : c → Pipes s') : Balanced c L F t s' := by
  have hlinks : s'.links = s.links := funext fun f => by rw [links, links, hfile]
  refine ⟨fun e => ?_, fun e e' => ?_, fun f => ?_, fun f => ?_, hpipes⟩
  · rw [hinode, hlinks]
    exact b.inodes e
  · rw [hinode]
    exact b.uniq e e'
  · rw [hfile]
    exact b.files f
  · rw [hfile]
    exact b.closed f

/-- A file is changed. -/
lemma setFile {v : File} (b : Balanced c L F t s)
    (hlink : ∀ e, L'.count e + isRef v.link e = L.count e + isRef (s.file f).link e)
    (hF : ∀ g, g ≠ f → F'.count g = F.count g)
    (href : v.ref + F.count f = (s.file f).ref + F'.count f) (hclosed : v.ref = 0 → v.type = .none)
    (hpipes : c → Pipes (s.setFile f v)) :
    Balanced c L' F' t (s.setFile f v) := by
  refine ⟨fun e => ?_, b.uniq, fun g => ?_, fun g => ?_, hpipes⟩
  · have hupd := refs_update s.links f v.link e
    have hcount := b.inodes e
    have := hlink e
    rw [links_setFile, setFile_inode, hcount]
    rw [links] at hupd
    omega
  · by_cases hg : g = f
    · subst hg
      have := b.files g
      rw [setFile_file_self]
      push_cast at this ⊢
      omega
    · rw [setFile_file_of_ne hg, hF g hg]
      exact b.files g
  · by_cases hg : g = f
    · rw [hg, setFile_file_self]
      exact hclosed
    · rw [setFile_file_of_ne hg]
      exact b.closed g

/-- What the pipes need of a file that stays what it is. -/
lemma pipes_setFile {v : File} (b : Balanced c L F t s) (hpage : v.page = (s.file f).page)
    (hw : (s.file f).page ≠ none → v.writable = (s.file f).writable) (hc : c) :
    Pipes (s.setFile f v) := by
  refine (b.pipes hc).congr (fun g => ?_) rfl rfl rfl rfl
  by_cases hg : g = f
  · subst hg
    rw [setFile_file_self]
    exact ⟨hpage, hw⟩
  · rw [setFile_file_of_ne hg]
    exact ⟨rfl, fun _ => rfl⟩

/-- The number of references changes, as that of those held. -/
lemma setFileRef {r : ℤ} (b : Balanced c L F t s) (hF : ∀ g, g ≠ f → F'.count g = F.count g)
    (href : r + F.count f = (s.file f).ref + F'.count f) (hr : 0 < r) :
    Balanced c L F' t (s.setFile f { s.file f with ref := r }) :=
  b.setFile (fun _ => rfl) hF href (fun h => absurd h hr.ne') (b.pipes_setFile rfl fun _ => rfl)

/-- The offset moves. -/
lemma setOff {n : UInt32} (b : Balanced c L F t s) :
    Balanced c L F t (s.setFile f { s.file f with off := n }) :=
  b.setFile (fun _ => rfl) (fun _ _ => rfl) rfl (b.closed f) (b.pipes_setFile rfl fun _ => rfl)

end Balanced

namespace Ret

variable {p : ProcId} {n : ℤ}

lemma filealloc {Q : Option FileId → FsState → Prop} (b : Balanced c L F t s) (hnone : Q none s)
    (hsome : ∀ f, (s.file f).ref = 0 → (s.file f).type = .none →
      Balanced c L (f :: F) t (s.setFile f { s.file f with ref := 1 }) →
      Q (some f) (s.setFile f { s.file f with ref := 1 })) : Ret Fs.filealloc Q s := by
  refine act fun r s' hx => ?_
  simp only [Act.exec] at hx
  split at hx
  · rename_i f hfind
    obtain ⟨rfl, rfl⟩ := EStateM.Result.ok.inj hx
    have hfound := List.find?_some hfind
    have hzero : (s.file f).ref = 0 := of_decide_eq_true hfound
    refine hsome f hzero (b.closed f hzero)
      (b.setFileRef (fun g hg => List.count_cons_of_ne hg.symm) ?_ one_pos)
    rw [hzero, List.count_cons_self]
    push_cast
    omega
  · obtain ⟨rfl, rfl⟩ := EStateM.Result.ok.inj hx
    exact hnone

lemma filedup {Q : Unit → FsState → Prop} (b : Balanced c L F t s)
    (h : Balanced c L (f :: F) t (s.setFile f { s.file f with ref := (s.file f).ref + 1 }) →
      Q () (s.setFile f { s.file f with ref := (s.file f).ref + 1 })) : Ret (Fs.filedup f) Q s := by
  refine act fun r s' hx => ?_
  simp only [Act.exec] at hx
  split at hx
  · exact absurd hx (by simp)
  · obtain ⟨rfl, rfl⟩ := EStateM.Result.ok.inj hx
    refine h (b.setFileRef (fun g hg => List.count_cons_of_ne hg.symm) ?_ (by omega))
    rw [List.count_cons_self]
    push_cast
    omega

/-- What `fileclose` frees. -/
lemma fileclose {Q : Unit → FsState → Prop} (b : Balanced c L (f :: F) t s)
    (h : ∀ s', Balanced c L F t s' → s'.proc = s.proc → (c → s'.seen.kfrees = s.seen.kfrees ++
      if (s.file f).ref = 1 then Pipes.freed s f else []) → Q () s') :
        Ret (Fs.fileclose f) Q s := by
  have hcount : ∀ g, g ≠ f → F.count g = (f :: F).count g := fun g hg =>
    (List.count_cons_of_ne hg.symm).symm
  have hself := List.count_cons_self (a := f) (l := F)
  refine seq (act fun r s₁ hx => ?_)
  simp only [Act.exec] at hx
  split at hx
  · exact absurd hx (by simp)
  split at hx
  · -- other references remain
    obtain ⟨rfl, rfl⟩ := EStateM.Result.ok.inj hx
    refine pure (h _ (b.setFileRef hcount (by omega) (by assumption)) rfl fun _ => ?_)
    rw [if_neg (by omega), List.append_nil]
    rfl
  · obtain ⟨rfl, rfl⟩ := EStateM.Result.ok.inj hx
    have href : (s.file f).ref = 1 := by omega
    rw [if_pos href] at h
    -- the reference to the inode, if it has one, is now held
    have hclose : ∀ {L'}, (∀ e, L'.count e = L.count e + isRef (s.file f).link e) →
        Balanced False L' F t (s.setFile f { s.file f with ref := 0, type := .none }) := fun hL =>
      (b.of_pipes rfl rfl False.elim).setFile (fun e => hL e) hcount
        (by push_cast at hself ⊢; omega) (fun _ => rfl) False.elim
    have hplain : (s.file f).page = none → Pipes.freed s f = [] ∧
        (c → Pipes (s.setFile f { s.file f with ref := 0, type := .none })) := fun hpage =>
      ⟨by rw [Pipes.freed, hpage], b.pipes_setFile (by rw [hpage]; rfl) fun hne => absurd hpage hne⟩
    dsimp only
    split
    · -- an end of a pipe
      rename_i htype
      have hpage : (s.file f).page = some (s.file f).pipe := by rw [File.page, if_pos htype]
      have hlink : (s.file f).link = none := by rw [File.link, if_neg (by simp [htype])]
      refine act_eq (a := .pipeclose _ _) rfl (h _ ?_ pipeclose_proc fun hc =>
        ((b.pipes hc).pipeclose hpage rfl).2)
      exact (hclose fun e => by rw [hlink, isRef_none, add_zero]).of_pipes
        pipeclose_inode pipeclose_file fun hc => ((b.pipes hc).pipeclose hpage rfl).1
    · -- an inode
      rename_i ip htype hip
      have hlink : (s.file f).link = some ip := by rw [File.link, if_pos htype, hip]
      obtain ⟨hfreed, hpipes⟩ := hplain (by rw [File.page, if_neg (by simp [htype])])
      have b₁ : Balanced c (ip :: L) F t (s.setFile f { s.file f with ref := 0, type := .none }) :=
        (hclose fun e => by rw [hlink, count_cons_eq_add_isRef]).of_pipes rfl rfl hpipes
      refine seq (neutral (.perform trivial) fun _ s₂ h₂ => seq (inner Fs.iput_inner
        (iput (b₁.still h₂) fun s₃ b₃ h₃ => neutral (.perform trivial) fun _ s₄ h₄ => ?_)))
      refine h s₄ (b₃.still h₄) (h₄.proc.trans (h₃.proc.trans h₂.proc)) fun _ => ?_
      rw [hfreed, List.append_nil, h₄.kfrees, h₃.kfrees, h₂.kfrees]
      rfl
    · exact stop
    · -- a file that has not been given a type
      rename_i htype
      have hlink : (s.file f).link = none := by rw [File.link, if_neg (by simp [htype])]
      obtain ⟨hfreed, hpipes⟩ := hplain (by rw [File.page, if_neg (by simp [htype])])
      refine pure (h _ ((hclose fun e => by rw [hlink, isRef_none, add_zero]).of_pipes rfl
        rfl hpipes) rfl fun _ => ?_)
      rw [hfreed, List.append_nil]
      rfl

/-! ## Calls on descriptors -/

lemma argfd {Q : Option (Fd × FileId) → FsState → Prop} {n : ℤ}
    (hnone : Fs.descriptor s p n = none → Q none s) (hsome : ∀ fd f, (s.proc p).ofile fd = some f →
      Fs.descriptor s p n = some f → Q (some (fd, f)) s) :
    Ret (Fs.argfd p n) Q s := by
  rw [Fs.descriptor] at hnone hsome
  rw [Fs.argfd]
  split
  · rename_i hn
    rw [dif_pos hn] at hnone hsome
    refine seq (act_eq (a := .getOfile p _) rfl ?_)
    cases hf : (s.proc p).ofile ⟨n.toNat, by omega⟩ with
    | none => exact pure (hnone hf)
    | some f => exact pure (hsome _ f hf hf)
  · rename_i hn
    exact pure (hnone (dif_neg hn))

lemma fdalloc {Q : Option Fd → FsState → Prop} (hnone : Q none s)
    (hsome : ∀ fd, (s.proc p).ofile fd = none → ∀ s', s' = s.setProc p
      { s.proc p with ofile := Function.update (s.proc p).ofile fd (some f) } → Q (some fd) s') :
    Ret (Fs.fdalloc p f) Q s := by
  rw [Fs.fdalloc]
  generalize List.finRange NOFILE = fds
  induction fds with
  | nil => exact pure hnone
  | cons fd fds ih =>
      refine seq (act_eq (a := .getOfile p fd) rfl ?_)
      split
      · rename_i hfd
        exact seq (act_eq (a := .setOfile p fd (some f)) rfl (pure (hsome fd hfd _ rfl)))
      · exact ih

variable {Q : ℤ → FsState → Prop}

lemma sysDup {fd : ℤ} (b : Balanced c L F s.proc s)
    (h : ∀ r s', Balanced c L F s'.proc s' → Q r s') :
    Ret (Fs.sysDup p fd) Q s := by
  refine seq (argfd (fun _ => pure (h _ s b)) fun fd f hf _ =>
    seq (fdalloc (pure (h _ s b)) fun fd' hfd' s₁ hs₁ => ?_))
  subst hs₁
  exact seq (filedup (b.setProc _) fun b₂ => pure (h _ _ (b₂.store hfd')))

lemma sysClose {fd : ℤ} (b : Balanced c L F s.proc s)
    (h : ∀ r s', Balanced c L F s'.proc s' → (c → s'.seen.kfrees = s.seen.kfrees ++
      match Fs.descriptor s p fd with
      | some f => if (s.file f).ref = 1 then Pipes.freed s f else []
      | none => []) → Q r s') : Ret (Fs.sysClose p fd) Q s := by
  refine seq (argfd (fun hn => pure (h _ s b fun _ => by rw [hn, List.append_nil]))
    fun fd f hfd hn => ?_)
  rw [hn] at h
  have b₁ : Balanced c L (f :: F) (withOfile s.proc p fd none)
      (s.setProc p { s.proc p with ofile := Function.update (s.proc p).ofile fd none }) :=
    (b.fetch hfd).setProc _
  refine seq (act_eq (a := .setOfile p fd none) rfl (seq (fileclose b₁ fun s₂ b₂ h₂ hfree => ?_)))
  refine pure (h _ s₂ ?_ hfree)
  rw [h₂]
  exact b₂

/-- The offset of a file may move. -/
lemma moveOff {n : UInt32} {α : Type} {k : Sys α} {P : α → FsState → Prop} {r : ℤ} {ff : File}
    (b : Balanced c L F t s) (hff : s.file f = ff)
    (h : ∀ s', Balanced c L F t s' → s'.proc = s.proc → Ret k P s') :
    Ret (if 0 < r then Fs.setFile f { ff.toOpenFile with off := n } >>= fun _ => k else k) P s := by
  split
  · subst hff
    exact seq (act_eq (a := .setFile f _) rfl (h _ b.setOff rfl))
  · exact h s b rfl

lemma fileread {Q : ℤ × List UInt8 → FsState → Prop} (b : Balanced c L F t s)
    (h : ∀ r s', Balanced c L F t s' → s'.proc = s.proc → Q r s') : Ret (Fs.fileread f n) Q s := by
  refine seq (act_eq (a := .getFile f) rfl ?_)
  split
  · exact pure (h _ s b rfl)
  split
  · exact seq (neutral (.perform trivial) fun r s₁ h₁ => pure (h _ s₁ (b.still h₁) h₁.proc))
  · refine seq (neutral Fs.ilock_plain.neutral fun _ s₁ h₁ =>
      seq (neutral Fs.readi_plain.neutral fun (r, l) s₂ h₂ => ?_))
    refine moveOff ((b.still h₁).still h₂) (by rw [h₂.file, h₁.file]) fun s₃ b₃ h₃ => ?_
    refine seq (neutral (.perform trivial) fun _ s₄ h₄ => pure (h _ s₄ (b₃.still h₄) ?_))
    rw [h₄.proc, h₃, h₂.proc, h₁.proc]
  · exact stop
  · exact stop

lemma filewriteLoop {Q : Bool → FsState → Prop} {fuel n : ℕ} {src : ℕ → UInt8}
    (b : Balanced c L F t s) (h : ∀ r s', Balanced c L F t s' → s'.proc = s.proc → Q r s') :
    Ret (Fs.filewriteLoop f e fuel src n) Q s := by
  induction fuel generalizing src n s with
  | zero => exact pure (h _ s b rfl)
  | succ fuel ih =>
      rw [Fs.filewriteLoop]
      split
      · exact pure (h _ s b rfl)
      refine seq (neutral (.perform trivial) fun _ s₁ h₁ =>
        seq (neutral Fs.ilock_plain.neutral fun _ s₂ h₂ =>
        seq (act_eq (a := .getFile f) rfl
          (seq (neutral Fs.writei_plain.neutral fun r s₃ h₃ => ?_)))))
      refine moveOff (((b.still h₁).still h₂).still h₃) (by rw [h₃.file]) fun s₄ b₄ h₄ => ?_
      refine seq (neutral (.perform trivial) fun _ s₅ h₅ =>
        seq (neutral (.perform trivial) fun _ s₆ h₆ => ?_))
      have b₆ := (b₄.still h₅).still h₆
      have hproc : s₆.proc = s.proc := by rw [h₆.proc, h₅.proc, h₄, h₃.proc, h₂.proc, h₁.proc]
      split
      · exact pure (h _ s₆ b₆ hproc)
      split
      · exact stop
      · exact ih b₆ fun r s' b' h' => h r s' b' (h'.trans hproc)

lemma sysRead {fd : ℤ} (b : Balanced c L F s.proc s)
    (h : ∀ r s', Balanced c L F s'.proc s' → Q r s') :
    Ret (Fs.sysRead p fd n) Q s := by
  refine seq (argfd (fun _ => pure (h _ s b)) fun fd f hf _ =>
    seq (fileread b fun r s₁ b₁ h₁ => pure (h _ s₁ ?_)))
  rwa [h₁]

lemma sysWrite {fd : ℤ} {src : ℕ → UInt8} (b : Balanced c L F s.proc s)
    (h : ∀ r s', Balanced c L F s'.proc s' → Q r s') : Ret (Fs.sysWrite p fd src n) Q s := by
  refine seq (argfd (fun _ => pure (h _ s b)) fun fd f hf _ =>
    seq (act_eq (a := .getFile f) rfl ?_))
  split
  · exact pure (h _ s b)
  split
  · refine neutral (.perform trivial) fun r s₁ h₁ => h _ s₁ ?_
    rw [h₁.proc]
    exact b.still h₁
  · refine seq (filewriteLoop b fun r s₁ b₁ h₁ => pure (h _ s₁ ?_))
    rwa [h₁]
  · exact stop
  · exact stop

lemma sysFstat {fd : ℤ} (b : Balanced c L F s.proc s)
    (h : ∀ r s', Balanced c L F s'.proc s' → Q r s') :
    Ret (Fs.sysFstat p fd) Q s := by
  have hneutral : ∀ f, IsNeutral (Fs.filestat f) := fun f => by
    refine .bind (.perform trivial) fun ff => ?_
    split
    · exact .bind Fs.ilock_plain.neutral fun _ => .bind (.perform trivial) fun _ =>
        .bind (.perform trivial) fun _ => .pure _
    · trivial
    · trivial
  refine seq (argfd (fun _ => pure (h _ s b)) fun fd f hf _ =>
    seq (neutral (hneutral f) fun r s₁ h₁ => pure (h _ s₁ ?_)))
  rw [h₁.proc]
  exact b.still h₁

/-! ## Calls that open files and change directories -/

lemma sysOpen {path : Option Name} {omode : UInt32} (b : Balanced c L F s.proc s)
    (h : ∀ r s', Balanced c L F s'.proc s' → Q r s') : Ret (Fs.sysOpen p path omode) Q s := by
  have hput : ∀ e s' (r : ℤ), Balanced c (e :: L) F s'.proc s' → Ret (do
      Fs.iunlockput e
      Pure.pure r) Q s' := fun e s' r b' =>
    seq (inner Fs.iunlockput_inner (iunlockput b' fun s₁ b₁ h₁ => pure (h _ s₁ (by rwa [h₁.proc]))))
  rcases path with - | path
  · exact pure (h _ s b)
  refine seq (openInode b (fun s₁ b₁ h₁ => pure (h _ s₁ (by rwa [h₁]))) fun e s₁ b₁ h₁ => ?_)
  rw [← h₁] at b₁
  refine seq (filealloc b₁ (hput e s₁ _ b₁) fun f href htype b₂ => ?_)
  generalize hs₂ : s₁.setFile f { s₁.file f with ref := 1 } = s₂ at b₂
  have hproc₂ : s₂.proc = s₁.proc := by rw [← hs₂]; rfl
  rw [← hproc₂] at b₂
  refine seq (fdalloc ?_ fun fd hfd s₃ hs₃ => ?_)
  · refine seq (fileclose b₂ fun s₃ b₃ h₃ _ => hput e s₃ _ ?_)
    rwa [h₃]
  have b₃ : Balanced c (e :: L) F s₃.proc s₃ := by
    subst hs₃
    exact (b₂.store hfd).setProc _
  have htype₃ : (s₃.file f).type = .none := by
    rw [hs₃, setProc_file, ← hs₂, setFile_file_self]
    exact htype
  have href₃ : (s₃.file f).ref = 1 := by
    rw [hs₃, setProc_file, ← hs₂, setFile_file_self]
  refine seq (neutral (.perform trivial) fun _ s₄ h₄ => seq (act_eq (a := .getFile f) rfl
    (seq (act_eq (a := .setFile f _) rfl (pure (h _ _ ?_))))))
  rw [← h₄.file] at htype₃ href₃
  have b₄ := b₃.still h₄
  rw [← h₄.proc] at b₄
  -- the reference to the inode goes to the file
  refine b₄.setFile (fun e' => ?_) (fun _ _ => rfl) rfl (fun h0 => ?_)
    (b₄.pipes_setFile ?_ fun hne => ?_)
  · rw [count_cons_eq_add_isRef]
    simp [File.link, htype₃]
  · exact absurd (href₃.symm.trans h0) (by decide)
  · simp [File.page, htype₃]
  · exact absurd (by simp [File.page, htype₃]) hne

lemma sysChdir {path : Option Name} (b : Balanced c L F s.proc s)
    (h : ∀ r s', Balanced c L F s'.proc s' → Q r s') : Ret (Fs.sysChdir p path) Q s := by
  rcases path with - | path
  · exact pure (h _ s b)
  refine seq (inner Fs.namei_inner (namei b (fun s₁ b₁ h₁ => pure (h _ s₁ (by rwa [h₁.proc])))
    fun e s₁ b₁ h₁ => ?_))
  refine seq (neutral Fs.ilock_plain.neutral fun _ s₂ h₂ =>
    seq (neutral (.perform trivial) fun v s₃ h₃ => ?_))
  have b₃ := (b₁.still h₂).still h₃
  rw [← h₁.proc, ← h₂.proc, ← h₃.proc] at b₃
  split
  · exact seq (inner Fs.iunlockput_inner (iunlockput b₃ fun s₄ b₄ h₄ =>
      pure (h _ s₄ (by rwa [h₄.proc]))))
  refine seq (neutral (.perform trivial) fun _ s₄ h₄ => seq (act_eq (a := .getCwd p) rfl ?_))
  have b₄ := b₃.still h₄
  rw [← h₄.proc] at b₄
  split
  · exact stop
  rename_i old hold
  refine seq (inner Fs.iput_inner (iput (b₄.enter hold) fun s₅ b₅ h₅ =>
    seq (act_eq (a := .setCwd p _) rfl (pure (h _ _ ?_)))))
  rw [← h₅.proc] at b₅
  exact b₅.setProc _

/-! ## Pipes -/

lemma kalloc {Q : Option ℕ → FsState → Prop} (b : Balanced c L F t s)
    (hnone : ∀ s', Balanced c L F t s' → s'.proc = s.proc → s'.file = s.file → Q none s')
    (hsome : ∀ page s', Balanced c L F t s' → s'.proc = s.proc → s'.file = s.file →
      (c → page ∉ s'.outside.freelist ∧ ¬ PipeLive s' page) → Q (some page) s') :
        Ret Fs.kalloc Q s := by
  refine act_eq (a := .kalloc) rfl ?_
  cases hfree : s.outside.freelist with
  | nil =>
      refine hnone _ (b.of_pipes rfl rfl fun hc => ?_) rfl rfl
      exact (b.pipes hc).congr (fun _ => ⟨rfl, fun _ => rfl⟩) rfl hfree.symm rfl rfl
  | cons page rest =>
      exact hsome page _ (b.of_pipes rfl rfl fun hc => ((b.pipes hc).kalloc hfree).1) rfl rfl
        fun hc => ((b.pipes hc).kalloc hfree).2

/-- Two new files become the ends of a pipe. -/
lemma pipeEnds {Q : Option (FileId × FileId) → FsState → Prop}
    (b : Balanced c L F t s) (hne : f ≠ g) (htf : (s.file f).type = .none)
    (hrf : (s.file f).ref = 1) (htg : (s.file g).type = .none) (hrg : (s.file g).ref = 1)
    (hfree : c → page ∉ s.outside.freelist ∧ ¬ PipeLive s page)
    (h : ∀ s', Balanced c L F t s' → s'.proc = s.proc → Q (some (f, g)) s') :
    Ret (do
      Fs.pipeOpen page
      let v0 ← Fs.getFile f
      Fs.setFile f
        { v0.toOpenFile with type := .pipe, readable := true, writable := false, pipe := page }
      let v1 ← Fs.getFile g
      Fs.setFile g
        { v1.toOpenFile with type := .pipe, readable := false, writable := true, pipe := page }
      Pure.pure (some (f, g))) Q s := by
  refine seq (act_eq (a := .pipeOpen page) rfl (seq (act_eq (a := .getFile f) rfl
    (seq (act_eq (a := .setFile f _) rfl (seq (act_eq (a := .getFile g) rfl
      (seq (act_eq (a := .setFile g _) rfl (pure (h _ ?_ rfl)))))))))))
  -- no inode and no count changes, so that only the pipes are left
  have hlink : ∀ v : File, v.type ≠ .inode → v.link = none := fun v hv => by
    rw [File.link, if_neg hv]
  have hstep : ∀ {s' : FsState} {i : FileId} {v : File}, Balanced False L F t s' →
      (s'.file i).type = .none → (s'.file i).ref = 1 → v.type = .pipe → v.ref = 1 →
      Balanced False L F t (s'.setFile i v) := fun b' ht hr hvt hvr =>
    b'.setFile (fun e => by rw [hlink _ (by simp [hvt]), hlink _ (by simp [ht])]) (fun _ _ => rfl)
      (by rw [hvr, hr]) (fun h0 => absurd (hvr.symm.trans h0) (by decide)) False.elim
  have hpage : ∀ v : File, v.type = .none → v.page = none := fun v hv => by
    rw [File.page, if_neg (by simp [hv])]
  have b₁ : Balanced False L F t (s.openPipe page) := b.of_pipes rfl rfl False.elim
  have b₂ :=
    hstep (v := { s.file f with type := .pipe, readable := true, writable := false, pipe := page })
    b₁ htf hrf rfl hrf
  refine (hstep b₂ ?_ ?_ rfl ?_).of_pipes rfl rfl fun hc =>
    (b.pipes hc).openPipe (hfree hc).1 (hfree hc).2 hne (hpage _ htf) (hpage _ htg) rfl rfl rfl rfl
  all_goals
    first
      | exact (congrArg (·.type) (setFile_file_of_ne hne.symm)).trans htg
      | exact (congrArg (·.ref) (setFile_file_of_ne hne.symm)).trans hrg

lemma pipealloc {Q : Option (FileId × FileId) → FsState → Prop} (b : Balanced c L F t s)
    (hnone : ∀ s', Balanced c L F t s' → s'.proc = s.proc → Q none s')
    (hsome : ∀ f g s', Balanced c L (f :: g :: F) t s' → s'.proc = s.proc → Q (some (f, g)) s') :
    Ret Fs.pipealloc Q s := by
  refine seq (filealloc b (pure (hnone s b rfl)) fun f hrf htf b₁ => ?_)
  generalize hs₁ : s.setFile f { s.file f with ref := 1 } = s₁ at b₁
  have hproc₁ : s₁.proc = s.proc := by rw [← hs₁]; rfl
  have hf₁ : (s₁.file f).type = .none ∧ (s₁.file f).ref = 1 := by
    rw [← hs₁, setFile_file_self]
    exact ⟨htf, rfl⟩
  refine seq
    (filealloc b₁ (seq (fileclose b₁ fun s₂ b₂ h₂ _ => pure (hnone s₂ b₂ (h₂.trans hproc₁))))
    fun g hrg htg b₂ => ?_)
  have hne : f ≠ g := by
    rintro rfl
    exact absurd (hf₁.2.symm.trans hrg) (by decide)
  generalize hs₂ : s₁.setFile g { s₁.file g with ref := 1 } = s₂ at b₂
  have hproc₂ : s₂.proc = s.proc := by rw [← hs₂, ← hproc₁]; rfl
  have hf₂ : s₂.file f = s₁.file f := by rw [← hs₂, setFile_file_of_ne hne]
  have hg₂ : (s₂.file g).type = .none ∧ (s₂.file g).ref = 1 := by
    rw [← hs₂, setFile_file_self]
    exact ⟨htg, rfl⟩
  rw [← hf₂] at hf₁
  refine seq (kalloc b₂ (fun s₃ b₃ hp₃ hf₃ => ?_) fun page s₃ b₃ hp₃ hf₃ hfree => ?_)
  · refine seq (fileclose (F := g :: F) ?_ fun s₄ b₄ h₄ _ => seq (fileclose b₄ fun s₅ b₅ h₅ _ =>
      pure (hnone s₅ b₅ (by rw [h₅, h₄, hp₃, hproc₂]))))
    exact b₃.permFiles (.swap _ _ _)
  · rw [← hf₃] at hf₁ hg₂
    refine pipeEnds b₃ hne hf₁.1 hf₁.2 hg₂.1 hg₂.2 hfree fun s₄ b₄ h₄ => hsome f g s₄ ?_ (by
      rw [h₄, hp₃, hproc₂])
    exact b₄.permFiles (.swap _ _ _)

lemma sysPipe (b : Balanced c L F s.proc s) (h : ∀ r s', Balanced c L F s'.proc s' → Q r s') :
    Ret (Fs.sysPipe p) Q s := by
  refine seq (pipealloc b (fun s₁ b₁ h₁ => pure (h _ s₁ (by rwa [h₁]))) fun rf wf s₁ b₁ h₁ => ?_)
  rw [← h₁] at b₁
  have hclose : ∀ s', Balanced c L (rf :: wf :: F) s'.proc s' → Ret (do
      Fs.fileclose rf
      Fs.fileclose wf
      Pure.pure (-1)) Q s' := fun s' b' =>
    seq (fileclose b' fun s₂ b₂ h₂ _ => seq (fileclose b₂ fun s₃ b₃ h₃ _ => pure (h _ s₃ (by
      rwa [h₃, h₂]))))
  refine seq (fdalloc (hclose s₁ b₁) fun fd0 hfd0 s₂ hs₂ => ?_)
  have b₂ : Balanced c L (wf :: F) s₂.proc s₂ := by
    subst hs₂
    exact (b₁.store hfd0).setProc _
  refine seq (fdalloc ?_ fun fd1 hfd1 s₃ hs₃ => ?_)
  · refine seq (act_eq (a := .setOfile p fd0 none) rfl (hclose _ ?_))
    have hfd : (s₂.proc p).ofile fd0 = some rf := by
      rw [hs₂, setProc_proc_self]
      simp
    exact (b₂.fetch hfd).setProc _
  · subst hs₃
    exact pure (h _ _ ((b₂.store hfd1).setProc _))

/-! ## Processes -/

lemma forkFiles {Q : Unit → FsState → Prop} {np : ProcId} {fds : List Fd}
    (b : Balanced c L F s.proc s) (hnodup : fds.Nodup)
    (hfds : ∀ fd ∈ fds, (s.proc np).ofile fd = none)
    (h : ∀ s', Balanced c L F s'.proc s' → (∀ q, (s'.proc q).cwd = (s.proc q).cwd) → Q () s') :
    Ret (Fs.forkFiles p np fds) Q s := by
  induction fds generalizing s with
  | nil => exact pure (h s b fun _ => rfl)
  | cons fd fds ih =>
      rw [List.nodup_cons] at hnodup
      refine seq (act_eq (a := .getOfile p fd) rfl ?_)
      split
      · exact seq (pure (ih b hnodup.2 (fun i hi => hfds i (List.mem_cons_of_mem fd hi)) h))
      rename_i f hf
      refine seq (filedup b fun b₁ => seq (act_eq (a := .setOfile np fd (some f)) rfl ?_))
      have b₂ : Balanced c L F (withOfile _ np fd (some f)) _ :=
        b₁.store (hfds fd List.mem_cons_self)
      refine ih (b₂.setProc _) hnodup.2 (fun i hi => ?_) fun s' b' hcwd => h s' b' fun q => ?_
      · rw [setProc_proc_self, setFile_proc]
        have hne : i ≠ fd := by
          rintro rfl
          exact hnodup.1 hi
        simp only [Function.update_of_ne hne]
        exact hfds i (List.mem_cons_of_mem fd hi)
      · rw [hcwd q]
        by_cases hq : q = np
        · rw [hq, setProc_proc_self]
          rfl
        · rw [setProc_proc_of_ne hq]
          rfl

lemma fork {np : ProcId} (b : Balanced c L F s.proc s) (hcwd : (s.proc np).cwd = none)
    (hfds : ∀ fd, (s.proc np).ofile fd = none) (h : ∀ r s', Balanced c L F s'.proc s' → Q r s') :
    Ret (Fs.fork p np) Q s := by
  refine seq (forkFiles b (List.nodup_finRange NOFILE) (fun fd _ => hfds fd) fun s₁ b₁ hcwds => ?_)
  refine seq (act_eq (a := .getCwd p) rfl ?_)
  split
  · exact stop
  rename_i e he
  refine seq (inner (.perform trivial) (idup b₁ (b₁.ref_pos_of_cwd he) fun s₂ b₂ h₂ =>
    seq (act_eq (a := .setCwd np (some e)) rfl (pure (h _ _ ?_)))))
  rw [← h₂.proc] at b₂
  refine (b₂.enterFirst (p := np) ?_).setProc _
  rw [h₂.proc, hcwds, hcwd]

lemma exitFiles {Q : Unit → FsState → Prop} {fds : List Fd} (b : Balanced c L F s.proc s)
    (h : ∀ s', Balanced c L F s'.proc s' → Q () s') : Ret (Fs.exitFiles p fds) Q s := by
  induction fds generalizing s with
  | nil => exact pure (h s b)
  | cons fd fds ih =>
      refine seq (act_eq (a := .getOfile p fd) rfl ?_)
      split
      · exact seq (pure (ih b))
      rename_i f hf
      -- the file is closed while its descriptor still refers to it
      refine seq (fileclose (b.fetch hf) fun s₁ b₁ h₁ _ =>
        seq (act_eq (a := .setOfile p fd none) rfl ?_))
      rw [← h₁] at b₁
      exact ih (b₁.setProc _)

lemma exit (b : Balanced c L F s.proc s) (h : ∀ r s', Balanced c L F s'.proc s' → Q r s') :
    Ret (Fs.exit p) Q s := by
  rw [Fs.exit]
  split
  · exact stop
  refine seq (exitFiles b fun s₁ b₁ => seq (act_eq (a := .getCwd p) rfl ?_))
  split
  · exact stop
  rename_i e he
  refine seq (inner Fs.iput_inner (iput (b₁.leave he) fun s₂ b₂ h₂ =>
    seq (act_eq (a := .setCwd p none) rfl (pure (h _ _ ?_)))))
  rw [← h₂.proc] at b₂
  exact b₂.setProc _

/-- Every system call keeps the balance. -/
lemma call {k : Fs.Call} (b : Balanced c [] [] s.proc s) (hk : k.Enabled s p) :
    Ret (k.prog p) (fun _ s' => Balanced c [] [] s'.proc s') s := by
  have hinner : ∀ {α : Type} {q : Sys α}, IsInner q →
      Ret q (fun _ s' => Balanced c [] [] s.proc s') s →
      Ret q (fun _ s' => Balanced c [] [] s'.proc s') s :=
    fun hq h => inner hq (h.mono fun _ s' b' h' => by rwa [h'.proc])
  cases k with
  | dup fd => exact sysDup b fun _ _ b' => b'
  | read fd n => exact sysRead b fun _ _ b' => b'
  | write fd src n => exact sysWrite b fun _ _ b' => b'
  | close fd => exact sysClose b fun _ _ b' _ => b'
  | fstat fd => exact sysFstat b fun _ _ b' => b'
  | link old new => exact hinner Fs.sysLink_inner (sysLink b fun _ _ b' => b')
  | unlink path => exact hinner Fs.sysUnlink_inner (sysUnlink b fun _ _ b' => b')
  | «open» path omode => exact sysOpen b fun _ _ b' => b'
  | mkdir path => exact hinner Fs.createCall_inner (createCall b fun _ _ b' => b')
  | mknod path major minor => exact hinner Fs.createCall_inner (createCall b fun _ _ b' => b')
  | chdir path => exact sysChdir b fun _ _ b' => b'
  | exec path reads => exact hinner Fs.exec_inner (exec b fun _ _ b' => b')
  | pipe => exact sysPipe b fun _ _ b' => b'
  | fork np => exact fork b hk.2.1 hk.2.2 fun _ _ b' => b'
  | exit => exact exit b fun _ _ b' => b'

end Ret

/-! ## Runs -/

/-- What the rest of the kernel may do to the free pages: a page is free once, and not while a
pipe is in it. -/
def Fs.Event.Lends (s : FsState) : Fs.Event → Prop
  | call _ _ => True
  | outside o => o.freelist.Nodup ∧ ∀ page ∈ o.freelist, ¬ PipeLive s page

instance (s : FsState) (l : Fs.Event) : Decidable (l.Lends s) :=
  match l with
  | .call _ _ => instDecidableTrue
  | .outside o =>
      inferInstanceAs (Decidable (o.freelist.Nodup ∧ ∀ page ∈ o.freelist, ¬ PipeLive s page))

section

variable {sb : Superblock} {blk : ℕ → Block} {disksize : ℕ} {o : Outside} {es : List Fs.Record}

lemma boot_balanced (hnodup : c → o.freelist.Nodup) :
    Balanced c [] [] (Fs.boot sb blk disksize o).proc (Fs.boot sb blk disksize o) := by
  have hlinks : ∀ e, refs (Fs.boot sb blk disksize o).links e = 0 := fun e =>
    refs_eq_zero fun f => by simp [links, File.link, Fs.boot]
  have hroot : ∀ e, 0 < ((Fs.boot sb blk disksize o).inode e).ref → e = Fs.rootEntry := by
    intro e he
    by_contra hne
    simp [Fs.boot, hne] at he
  have hfile : ∀ f page, ((Fs.boot sb blk disksize o).file f).page ≠ some page := fun f page => by
    simp [File.page, Fs.boot]
  refine ⟨fun e => ?_, fun e e' he he' _ _ => (hroot e he).trans (hroot e' he').symm, fun f => ?_,
    fun _ _ => rfl, fun hc => ⟨?_, ?_, ?_, hnodup hc, ?_, fun page => ?_⟩⟩
  · rw [hlinks, List.count_nil]
    by_cases he : e = Fs.rootEntry
    · simp [refs, dirs, Fs.boot, he, Finset.filter_eq']
    · simp [refs, dirs, Fs.boot, he, Ne.symm he]
  · have hnone : refs (ofiles (Fs.boot sb blk disksize o).proc) f = 0 := refs_eq_zero fun i => by
      simp [ofiles, Fs.boot]
    rw [hnone]
    rfl
  · exact fun f page hf => absurd hf (hfile f page)
  · exact fun f page _ hf => absurd hf (hfile f page)
  · exact fun f g page hf => absurd hf (hfile f page)
  · exact fun f page hf => absurd hf (hfile f page)
  · have hno : ¬ PipeLive (Fs.boot sb blk disksize o) page := by
      rintro ⟨f, hf⟩
      exact hfile f page hf
    rw [if_neg hno]
    rfl

/-- One step of the machine. -/
lemma Balanced.step {l : Fs.Event} {r : Option Fs.Record} (b : Balanced c [] [] s.proc s)
    (hl : l.Enabled s) (hlends : c → l.Lends s) (hs : Fs.step s l = some (s', r)) :
    Balanced c [] [] s'.proc s' := by
  cases l with
  | call p k =>
      obtain ⟨v, hx, -⟩ := Fs.step_call hs
      have hret := Ret.call b hl
      rwa [Ret, Wp, hx] at hret
  | outside o =>
      obtain ⟨rfl, -⟩ : { s with outside := o } = s' ∧ none = r := by simpa [Fs.step] using hs
      refine b.of_pipes rfl rfl fun hc => ?_
      have h := b.pipes hc
      obtain ⟨hnodup, hfree⟩ := hlends hc
      exact ⟨h.isOpen, h.file, h.uniq, hnodup, fun f page hf hmem => hfree page hmem ⟨f, hf⟩,
        h.once⟩

/-- Between two calls every entry of the inode cache has as many references as there are open
files and current directories that refer to it, and an inode has one entry. -/
theorem inode_references (h : Fs.Reached (Fs.boot sb blk disksize o) es s) :
    (∀ e, (s.inode e).ref =
      (((Finset.univ.filter fun f => 0 < (s.file f).ref ∧ (s.file f).type = .inode ∧
          (s.file f).ip = some e).card +
        (Finset.univ.filter fun p => (s.proc p).cwd = some e).card : ℕ) : ℤ)) ∧
    ∀ e e', 0 < (s.inode e).ref → 0 < (s.inode e').ref → (s.inode e).dev = (s.inode e').dev →
      (s.inode e).inum = (s.inode e').inum → e = e' := by
  have b : Balanced False [] [] s.proc s :=
    h.invariant (I := fun _ s => Balanced False [] [] s.proc s) (boot_balanced False.elim)
      fun b hl hs => b.step hl False.elim hs
  refine ⟨fun e => ?_, b.uniq⟩
  have hlinks : refs s.links e = (Finset.univ.filter fun f => 0 < (s.file f).ref ∧
      (s.file f).type = .inode ∧ (s.file f).ip = some e).card := by
    refine congrArg Finset.card (Finset.filter_congr fun f _ => ?_)
    rw [links, File.link]
    constructor
    · intro hf
      have htype : (s.file f).type = .inode := by
        by_contra hne
        rw [if_neg hne] at hf
        exact absurd hf (by simp)
      rw [if_pos htype] at hf
      refine ⟨?_, htype, hf⟩
      -- a file without references has no type
      have href := b.files f
      by_contra hpos
      have := b.closed f (by omega)
      rw [htype] at this
      exact absurd this (by simp)
    · rintro ⟨-, htype, hip⟩
      rw [if_pos htype, hip]
  have hcount := b.inodes e
  rw [hlinks, List.count_nil, zero_add] at hcount
  exact hcount

/-- A file is opened twice, and the child of a `fork` is in the root directory too. -/
theorem inode_references_fork : ∃ es s, Fs.Reached (Fs.small 20) es s ∧
    (s.inode Fs.rootEntry).ref = 2 ∧ (s.inode secondEntry).ref = 2 ∧
    (2 : ℤ) = (((Finset.univ.filter fun f => 0 < (s.file f).ref ∧ (s.file f).type = .inode ∧
        (s.file f).ip = some secondEntry).card +
      (Finset.univ.filter fun p => (s.proc p).cwd = some secondEntry).card : ℕ) : ℤ) := by
  obtain ⟨es, s, h, hroot, hsecond⟩ := Fs.exists_reached (Fs.small 20)
    [.call Fs.initproc (.open (some [102]) 0x202), .call Fs.initproc (.open (some [102]) 0),
      .call Fs.initproc (.dup 0), .call Fs.initproc (.fork secondProc)]
    (fun s => (s.inode Fs.rootEntry).ref = 2 ∧ (s.inode secondEntry).ref = 2) (by decide +kernel)
  exact ⟨es, s, h, hroot, hsecond, hsecond.symm.trans ((inode_references h).1 secondEntry)⟩

/-- Between two calls every file has as many references as descriptors refer to it, and a file
without one has no type.  A page has been freed as often as it became a pipe, but for a pipe that
some file still stands for; and `close` frees the page of a pipe iff it drops the last reference
to the last of its files. -/
theorem file_references (hnodup : o.freelist.Nodup)
    (h : Run Fs.step (fun s l => l.Enabled s ∧ l.Lends s) (Fs.boot sb blk disksize o) [] es s) :
    (∀ f, (s.file f).ref =
      ((Finset.univ.filter fun i : ProcId × Fd => (s.proc i.1).ofile i.2 = some f).card : ℤ)) ∧
    (∀ f, (s.file f).ref = 0 → (s.file f).type = .none) ∧
    (∀ page, s.seen.pipes.count page =
      s.seen.kfrees.count page + if PipeLive s page then 1 else 0) ∧
    ∀ p fd r s', (Fs.sysClose p fd).run Act.exec s = .ok r s' → s'.seen.kfrees = s.seen.kfrees ++
      match Fs.descriptor s p fd with
      | some f => if (s.file f).ref = 1 then Pipes.freed s f else []
      | none => [] := by
  have b : Balanced True [] [] s.proc s :=
    h.invariant (I := fun _ s => Balanced True [] [] s.proc s) (boot_balanced fun _ => hnodup)
      fun b hl hs => b.step hl.1 (fun _ => hl.2) hs
  refine ⟨fun f => ?_, b.closed, (b.pipes trivial).once, fun p fd r s' hx => ?_⟩
  · rw [b.files f, List.count_nil, zero_add]
    rfl
  · have hret : Ret (Fs.sysClose p fd) (fun _ s' => s'.seen.kfrees = s.seen.kfrees ++ _) s :=
      Ret.sysClose b fun _ _ _ hfree => hfree trivial
    rwa [Ret, Wp, hx] at hret

end

/-- A pipe is made and duplicated; its page is free again after both ends are closed. -/
theorem file_references_pipe : ∃ es s,
    Run Fs.step (fun s l => l.Enabled s ∧ l.Lends s) (Fs.small 20) [] es s ∧
    s.seen.pipes = [7, 7] ∧ s.seen.kfrees = [7] ∧
    [7, 7].count 7 = [7].count 7 + (if PipeLive s 7 then 1 else 0) := by
  obtain ⟨es, s, h, hpipes, hkfrees⟩ : ∃ es s,
      Run Fs.step (fun s l => l.Enabled s ∧ l.Lends s) (Fs.small 20) [] es s ∧
      s.seen.pipes = [7, 7] ∧ s.seen.kfrees = [7] :=
    Run.exists_of_exec (fun _ (s : FsState) => s.seen.pipes = [7, 7] ∧ s.seen.kfrees = [7])
      [.outside ⟨[], [], [7]⟩, .call Fs.initproc .pipe, .call Fs.initproc (.dup 1),
        .call Fs.initproc (.close 0), .call Fs.initproc (.close 1), .call Fs.initproc (.close 2),
        .call Fs.initproc .pipe] (by decide +kernel)
  have honce := (file_references List.nodup_nil h).2.2.1 7
  rw [hpipes, hkfrees] at honce
  exact ⟨es, s, h, hpipes, hkfrees, honce⟩

end Xv6
