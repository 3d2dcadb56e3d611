import Xv6.SysFile

/-!
# What the functions of `fs.c` leave alone

References are counted in three tables: the inode cache, the file table and the processes.  Most
functions of `fs.c` work on blocks and on the contents of inodes only (`Neutral`, and `Plain` since
transactions are made by their callers), and none of them touches files and processes (`Inner`).
These are statements about the actions that occur in
their programs.
-/

namespace Xv6

open Lib

/-- Actions that leave the files, the processes and the pipes alone. -/
def Inner : Act → Prop
  | .filealloc | .filedup _ | .fileclose _ | .setFile _ _ | .setCwd _ _ | .setOfile _ _ _
  | .pipeOpen _ | .pipeclose _ _ | .kalloc => False
  | _ => True

/-- Actions that besides take and drop no reference to an inode. -/
def Neutral : Act → Prop
  | .iget _ _ | .idup _ | .iputStart _ | .iputEnd _ => False
  | a => Inner a

lemma Neutral.inner {a : Act} (h : Neutral a) : Inner a := by
  cases a <;> trivial

/-- Neutral actions at which no transaction begins or ends. -/
def Plain : Act → Prop
  | .beginTrans | .commitTrans => False
  | a => Neutral a

lemma Plain.neutral {a : Act} (h : Plain a) : Neutral a := by
  cases a <;> trivial

/-- From `s` to `s'` files, processes and pipes stay. -/
structure SameTables (s s' : FsState) : Prop where
  file : s'.file = s.file
  proc : s'.proc = s.proc
  pipe : s'.pipe = s.pipe
  freelist : s'.outside.freelist = s.outside.freelist
  pipes : s'.seen.pipes = s.seen.pipes
  kfrees : s'.seen.kfrees = s.seen.kfrees

/-- Besides, the entries of the inode cache are for the same inodes with as many references. -/
structure Still (s s' : FsState) : Prop extends SameTables s s' where
  ref : ∀ e, (s'.inode e).ref = (s.inode e).ref
  dev : ∀ e, (s'.inode e).dev = (s.inode e).dev
  inum : ∀ e, (s'.inode e).inum = (s.inode e).inum

namespace SameTables

variable {s s₁ s₂ : FsState}

lemma refl (s : FsState) : SameTables s s := ⟨rfl, rfl, rfl, rfl, rfl, rfl⟩

lemma trans (h₁ : SameTables s s₁) (h₂ : SameTables s₁ s₂) : SameTables s s₂ :=
  ⟨h₂.file.trans h₁.file, h₂.proc.trans h₁.proc, h₂.pipe.trans h₁.pipe,
    h₂.freelist.trans h₁.freelist, h₂.pipes.trans h₁.pipes, h₂.kfrees.trans h₁.kfrees⟩

end SameTables

namespace Still

variable {s s₁ s₂ : FsState}

lemma refl (s : FsState) : Still s s := ⟨.refl s, fun _ => rfl, fun _ => rfl, fun _ => rfl⟩

lemma trans (h₁ : Still s s₁) (h₂ : Still s₁ s₂) : Still s s₂ :=
  ⟨h₁.toSameTables.trans h₂.toSameTables, fun e => (h₂.ref e).trans (h₁.ref e),
    fun e => (h₂.dev e).trans (h₁.dev e), fun e => (h₂.inum e).trans (h₁.inum e)⟩

lemma setInode {e : InodeId} {v : Inode} (href : v.ref = (s.inode e).ref)
    (hdev : v.dev = (s.inode e).dev) (hinum : v.inum = (s.inode e).inum) :
    Still s (s.setInode e v) := by
  have hentry : ∀ e', (s.setInode e v).inode e' = if e' = e then v else s.inode e' := by
    intro e'
    simp [FsState.setInode, Function.update_apply]
  refine ⟨⟨rfl, rfl, rfl, rfl, rfl, rfl⟩, fun e' => ?_, fun e' => ?_, fun e' => ?_⟩ <;>
    rw [hentry] <;> split <;> simp_all

end Still

lemma sameTables_exec (a : Act) (s : FsState) (h : Inner a) : SameTables s (endState a.exec s) := by
  refine Wp.endState (P := fun t : FsState => SameTables s t) ?_
  rw [Wp]
  generalize hx : a.exec s = x
  cases a <;> first
    | exact h.elim
    | (simp only [Act.exec] at hx
       repeat' split at hx
       all_goals (subst hx; exact ⟨rfl, rfl, rfl, rfl, rfl, rfl⟩))

lemma still_exec (a : Act) (s : FsState) (h : Neutral a) : Still s (endState a.exec s) := by
  refine Wp.endState (P := fun t : FsState => Still s t) ?_
  rw [Wp]
  generalize hx : a.exec s = x
  cases a <;> first
    | exact h.elim
    | (simp only [Act.exec] at hx
       repeat' split at hx
       all_goals
         subst hx
         first
         | exact .setInode rfl rfl rfl
         | exact ⟨⟨rfl, rfl, rfl, rfl, rfl, rfl⟩, fun _ => rfl, fun _ => rfl, fun _ => rfl⟩)

/-! ## The programs -/

/-- The program has neutral actions only. -/
abbrev IsNeutral {α : Type} (p : Sys α) : Prop := p.Only Neutral

/-- The program leaves files, processes and pipes alone. -/
abbrev IsInner {α : Type} (p : Sys α) : Prop := p.Only Inner

/-- The program has plain actions only. -/
abbrev IsPlain {α : Type} (p : Sys α) : Prop := p.Only Plain

namespace IsPlain

variable {α : Type} {p : Sys α}

lemma neutral (h : IsPlain p) : IsNeutral p := h.mono fun _ => Plain.neutral

lemma inner (h : IsPlain p) : IsInner p := h.mono fun _ ha => ha.neutral.inner

end IsPlain

namespace Fs

variable {dev b : ℕ} {ip dp : InodeId}

lemma bread_plain : IsPlain (bread dev b) := by
  rw [bread]
  split
  · trivial
  · exact .bind (.perform trivial) fun _ => .pure _

lemma readsb_plain : IsPlain (readsb dev) :=
  .bind bread_plain fun _ => .bind (.perform trivial) fun _ => .bind (.perform trivial)
    fun _ => .pure _

lemma bzero_plain : IsPlain (bzero dev b) :=
  .bind bread_plain fun _ => .bind (.perform trivial) fun _ => .bind (.perform trivial) fun _ =>
    .perform trivial

lemma ballocLoop_plain {sb : Superblock} {gs : List ℕ} : IsPlain (ballocLoop dev sb gs) := by
  induction gs with
  | nil => trivial
  | cons g gs ih =>
      refine .bind bread_plain fun bp => .bind (.perform trivial) fun d => ?_
      split
      · exact .bind (.perform trivial) fun _ => .bind (.perform trivial) fun _ =>
          .bind (.perform trivial) fun _ => .bind bzero_plain fun _ =>
            .bind (.perform trivial) fun _ => .pure _
      · exact .bind (.perform trivial) fun _ => ih

lemma balloc_plain : IsPlain (balloc dev) :=
  .bind (.perform trivial) fun _ => .bind readsb_plain fun _ => ballocLoop_plain

lemma bfree_plain : IsPlain (bfree dev b) := by
  refine .bind readsb_plain fun _ => .bind bread_plain fun _ => .bind (.perform trivial) fun d => ?_
  split
  · trivial
  · exact .bind (.perform trivial) fun _ => .bind (.perform trivial) fun _ => .perform trivial

lemma iupdate_plain : IsPlain (iupdate ip) :=
  .bind (.perform trivial) fun _ => .bind bread_plain fun _ => .bind (.perform trivial) fun _ =>
    .bind (.perform trivial) fun _ => .bind (.perform trivial) fun _ => .perform trivial

lemma ilock_plain : IsPlain (ilock ip) := by
  refine .bind (.perform trivial) fun _ => .bind (.perform trivial) fun v => ?_
  split
  · refine .bind bread_plain fun _ => .bind (.perform trivial) fun d =>
      .bind (.perform trivial) fun _ =>
      .bind (.perform trivial) fun _ => .bind (.perform trivial) fun _ => ?_
    split <;> trivial
  · trivial

lemma bmapAddr_plain {v : Inode} {k : ℕ} : IsPlain (bmapAddr ip v k) := by
  rw [bmapAddr]
  split
  · exact .bind balloc_plain fun _ => .bind (.perform trivial) fun _ => .pure _
  · trivial

lemma bmap_plain {bn : ℕ} : IsPlain (bmap ip bn) := by
  refine .bind (.perform trivial) fun v => ?_
  split
  · exact bmapAddr_plain
  split
  · refine .bind bmapAddr_plain fun _ => .bind bread_plain fun _ =>
      .bind (.perform trivial) fun d => ?_
    split
    · exact .bind balloc_plain fun _ => .bind (.perform trivial) fun _ =>
        .bind (.perform trivial) fun _ => .bind (.perform trivial) fun _ => .pure _
    · exact .bind (.perform trivial) fun _ => .pure _
  · trivial

lemma itruncDirect_plain {is : List ℕ} : IsPlain (itruncDirect ip is) := by
  induction is with
  | nil => trivial
  | cons i is ih =>
      refine .bind (.perform trivial) fun v => ?_
      split
      · exact .bind bfree_plain fun _ => .bind (.perform trivial) fun _ => ih
      · exact ih

lemma itruncIndirect_plain {d : Block} {js : List ℕ} : IsPlain (itruncIndirect dev d js) := by
  induction js with
  | nil => trivial
  | cons j js ih =>
      rw [itruncIndirect]
      split
      · exact .bind bfree_plain fun _ => ih
      · exact ih

lemma itrunc_plain : IsPlain (itrunc ip) := by
  have hend : IsPlain (do
      let v ← getInode ip
      setInode ip { v.toDInode with size := 0 }
      iupdate ip) :=
    .bind (.perform trivial) fun _ => .bind (.perform trivial) fun _ => iupdate_plain
  refine .bind itruncDirect_plain fun _ => .bind (.perform trivial) fun v => ?_
  split
  · exact .bind bread_plain fun _ => .bind (.perform trivial) fun _ =>
      .bind itruncIndirect_plain fun _ => .bind (.perform trivial) fun _ =>
        .bind bfree_plain fun _ => .bind (.perform trivial) fun _ => hend
  · exact hend

lemma consoleread_plain {n : ℕ} : IsPlain (consoleread ip n) := by
  refine .bind (.perform trivial) fun _ => .bind (.perform trivial) fun line =>
    .bind ilock_plain fun _ => ?_
  cases line <;> trivial

lemma consolewrite_plain {n : ℕ} : IsPlain (consolewrite ip n) :=
  .bind (.perform trivial) fun _ => .bind ilock_plain fun _ => .pure _

lemma readiLoop_plain {fuel off n : ℕ} : IsPlain (readiLoop ip dev fuel off n) := by
  induction fuel generalizing off n with
  | zero => trivial
  | succ fuel ih =>
      rw [readiLoop]
      split
      · trivial
      · exact .bind bmap_plain fun _ => .bind bread_plain fun _ => .bind (.perform trivial) fun _ =>
          .bind (.perform trivial) fun _ => .bind ih fun _ => .pure _

lemma readi_plain {off n : ℕ} : IsPlain (readi ip off n) := by
  refine .bind (.perform trivial) fun _ => .bind (.bind (.perform trivial) fun v => ?_) fun _ =>
    .bind (.perform trivial) fun _ => .pure _
  split
  · split
    · exact consoleread_plain
    · trivial
  split
  · trivial
  · exact .bind readiLoop_plain fun _ => .pure _

lemma writeiLoop_plain {src : ℕ → UInt8} {fuel off n : ℕ} :
    IsPlain (writeiLoop ip dev fuel src off n) := by
  induction fuel generalizing src off n with
  | zero => trivial
  | succ fuel ih =>
      rw [writeiLoop]
      split
      · trivial
      · exact .bind bmap_plain fun _ => .bind bread_plain fun _ => .bind (.perform trivial) fun _ =>
          .bind (.perform trivial) fun _ => .bind (.perform trivial) fun _ =>
            .bind (.perform trivial) fun _ => ih

lemma writei_plain {src : ℕ → UInt8} {off n : ℕ} : IsPlain (writei ip src off n) := by
  refine .bind (.perform trivial) fun v => ?_
  split
  · split
    · exact consolewrite_plain
    · trivial
  split
  · trivial
  split
  · trivial
  refine .bind writeiLoop_plain fun _ => .bind (.perform trivial) fun v => ?_
  split
  · exact .bind (.perform trivial) fun _ => .bind iupdate_plain fun _ => .pure _
  · trivial

lemma emptyDirent_plain {last : ℕ} {offs : List ℕ} : IsPlain (emptyDirent dp last offs) := by
  induction offs with
  | nil => trivial
  | cons off offs ih =>
      refine .bind readi_plain fun r => ?_
      split
      split
      · trivial
      split
      · trivial
      · exact ih

lemma isdirempty_plain : IsPlain (isdirempty dp) := by
  have hloop : ∀ offs, IsPlain (isdiremptyLoop dp offs) := by
    intro offs
    induction offs with
    | nil => trivial
    | cons off offs ih =>
        refine .bind readi_plain fun r => ?_
        split
        split
        · trivial
        split
        · trivial
        · exact ih
  exact .bind (.perform trivial) fun _ => hloop _

lemma execReads_plain {reads : List (ℕ × ℕ)} : IsPlain (execReads ip reads) := by
  induction reads with
  | nil => trivial
  | cons r reads ih => exact .bind readi_plain fun _ => ih

/-! ## Functions that take and drop references to inodes -/

lemma iput_inner : IsInner (iput ip) := by
  refine .bind (.perform trivial) fun free => ?_
  split
  · exact .bind itrunc_plain.inner fun _ => .bind (.perform trivial) fun _ =>
      .bind (.perform trivial) fun _ => .bind iupdate_plain.inner fun _ => .perform trivial
  · trivial

lemma iunlockput_inner : IsInner (iunlockput ip) := .bind (.perform trivial) fun _ => iput_inner

lemma ialloc_inner {type : Int16} : IsInner (ialloc dev type) := by
  have hloop : ∀ xs, IsInner (iallocLoop dev type xs) := by
    intro xs
    induction xs with
    | nil => trivial
    | cons x xs ih =>
        refine .bind bread_plain.inner fun _ => .bind (.perform trivial) fun d => ?_
        split
        · exact .bind (.perform trivial) fun _ => .bind (.perform trivial) fun _ =>
            .bind (.perform trivial) fun _ => .bind (.perform trivial) fun _ => .perform trivial
        · exact .bind (.perform trivial) fun _ => ih
  exact .bind readsb_plain.inner fun _ => hloop _

lemma dirlookup_inner {name : Name} : IsInner (dirlookup dp name) := by
  have hloop : ∀ dev offs, IsInner (dirlookupLoop dp dev name offs) := by
    intro dev offs
    induction offs with
    | nil => trivial
    | cons off offs ih =>
        refine .bind readi_plain.inner fun r => ?_
        split
        split
        · trivial
        split
        · exact ih
        split
        · exact .bind (.perform trivial) fun _ => .pure _
        · exact ih
  refine .bind (.perform trivial) fun v => ?_
  split
  · trivial
  · exact hloop _ _

lemma dirlink_inner {name : Name} {inum : ℕ} : IsInner (dirlink dp name inum) := by
  refine .bind dirlookup_inner fun r => ?_
  split
  · exact .bind iput_inner fun _ => .pure _
  · refine .bind (.perform trivial) fun v => .bind emptyDirent_plain.inner fun off =>
      .bind writei_plain.inner fun r => ?_
    split <;> trivial

lemma namexLoop_inner {parent : Bool} {fuel : ℕ} {path name : Name} :
    IsInner (namexLoop parent fuel ip path name) := by
  have hend : ∀ ip name, IsInner (namexEnd parent ip name) := by
    intro ip name
    rw [namexEnd]
    split
    · exact .bind iput_inner fun _ => .pure _
    · trivial
  induction fuel generalizing ip path name with
  | zero => exact hend ip name
  | succ fuel ih =>
      rw [namexLoop]
      split
      · exact hend ip name
      refine .bind ilock_plain.inner fun _ => .bind (.perform trivial) fun v => ?_
      split
      · exact .bind iunlockput_inner fun _ => .pure _
      split
      · exact .bind (.perform trivial) fun _ => .pure _
      refine .bind dirlookup_inner fun r => ?_
      split
      · exact .bind iunlockput_inner fun _ => .pure _
      · exact .bind iunlockput_inner fun _ => ih

lemma namex_inner {p : ProcId} {path : Name} {parent : Bool} : IsInner (namex p path parent) := by
  rw [namex]
  split
  · exact .bind (.perform trivial) fun _ => namexLoop_inner
  · refine .bind (.perform trivial) fun cwd => ?_
    split
    · trivial
    · exact .bind (.perform trivial) fun _ => namexLoop_inner

lemma namei_inner {p : ProcId} {path : Name} : IsInner (namei p path) :=
  .bind namex_inner fun _ => .pure _

lemma nameiparent_inner {p : ProcId} {path : Name} : IsInner (nameiparent p path) := namex_inner

lemma createDots_inner : IsInner (createDots dp ip) := by
  refine .bind (.perform trivial) fun _ => .bind (.perform trivial) fun _ =>
    .bind iupdate_plain.inner fun _ => .bind (.perform trivial) fun _ =>
      .bind dirlink_inner fun r => ?_
  split
  · trivial
  refine .bind (.perform trivial) fun _ => .bind dirlink_inner fun r => ?_
  split <;> trivial

lemma create_inner {p : ProcId} {path : Name} {type major minor : Int16} :
    IsInner (create p path type major minor) := by
  have hend : ∀ dp ip name, IsInner (do
      let v ← getInode ip
      let r ← dirlink dp name v.inum
      if r < 0 then Sys.panic "create: dirlink"
      else
        iunlockput dp
        pure (some ip)) := by
    intro dp ip name
    refine .bind (.perform trivial) fun v => .bind dirlink_inner fun r => ?_
    split
    · trivial
    · exact .bind iunlockput_inner fun _ => .pure _
  refine .bind nameiparent_inner fun r => ?_
  split
  · trivial
  refine .bind ilock_plain.inner fun _ => .bind dirlookup_inner fun r => ?_
  split
  · refine .bind iunlockput_inner fun _ => .bind ilock_plain.inner fun _ =>
      .bind (.perform trivial) fun v => ?_
    split
    · trivial
    · exact .bind iunlockput_inner fun _ => .pure _
  · refine .bind (.perform trivial) fun d => .bind ialloc_inner fun ip =>
      .bind ilock_plain.inner fun _ =>
      .bind (.perform trivial) fun v => .bind (.perform trivial) fun _ =>
        .bind iupdate_plain.inner fun _ => ?_
    split
    · exact .bind createDots_inner fun _ => hend _ _ _
    · exact hend _ _ _

lemma sysLinkBad_inner : IsInner (sysLinkBad ip) :=
  .bind ilock_plain.inner fun _ => .bind (.perform trivial) fun _ =>
    .bind (.perform trivial) fun _ =>
    .bind iupdate_plain.inner fun _ => .bind iunlockput_inner fun _ => .bind (.perform trivial)
      fun _ => .pure _

lemma sysLink_inner {p : ProcId} {old new : Option Name} : IsInner (sysLink p old new) := by
  rcases old with - | old
  · trivial
  rcases new with - | new
  · trivial
  refine .bind namei_inner fun r => ?_
  split
  · trivial
  refine .bind (.perform trivial) fun _ => .bind ilock_plain.inner fun _ =>
    .bind (.perform trivial) fun v => ?_
  split
  · exact .bind iunlockput_inner fun _ => .bind (.perform trivial) fun _ => .pure _
  refine .bind (.perform trivial) fun _ => .bind iupdate_plain.inner fun _ =>
    .bind (.perform trivial) fun _ =>
    .bind nameiparent_inner fun r => ?_
  split
  · exact sysLinkBad_inner
  refine .bind ilock_plain.inner fun _ => .bind (.perform trivial) fun _ =>
    .bind (.perform trivial) fun _ => ?_
  split
  · exact .bind iunlockput_inner fun _ => sysLinkBad_inner
  refine .bind dirlink_inner fun r => ?_
  split
  · exact .bind iunlockput_inner fun _ => sysLinkBad_inner
  · exact .bind iunlockput_inner fun _ => .bind iput_inner fun _ => .bind (.perform trivial)
      fun _ => .pure _

lemma sysUnlinkBad_inner : IsInner (sysUnlinkBad dp) :=
  .bind iunlockput_inner fun _ => .bind (.perform trivial) fun _ => .pure _

lemma sysUnlink_inner {p : ProcId} {path : Option Name} : IsInner (sysUnlink p path) := by
  have hend : ∀ dp ip, IsInner (do
      iunlockput dp
      let v ← getInode ip
      setInode ip { v.toDInode with nlink := v.nlink - 1 }
      iupdate ip
      iunlockput ip
      commitTrans
      pure (0 : ℤ)) := fun dp ip =>
    .bind iunlockput_inner fun _ => .bind (.perform trivial) fun _ =>
      .bind (.perform trivial) fun _ =>
      .bind iupdate_plain.inner fun _ => .bind iunlockput_inner fun _ => .bind (.perform trivial)
        fun _ => .pure _
  rcases path with - | path
  · trivial
  refine .bind nameiparent_inner fun r => ?_
  split
  · trivial
  refine .bind (.perform trivial) fun _ => .bind ilock_plain.inner fun _ => ?_
  split
  · exact sysUnlinkBad_inner
  refine .bind dirlookup_inner fun r => ?_
  split
  · exact sysUnlinkBad_inner
  refine .bind ilock_plain.inner fun _ => .bind (.perform trivial) fun v => ?_
  split
  · trivial
  split
  · refine .bind isdirempty_plain.inner fun empty => ?_
    beta_reduce
    split
    · exact .bind iunlockput_inner fun _ => sysUnlinkBad_inner
    refine .bind writei_plain.inner fun r => ?_
    split
    · trivial
    · exact .bind (.perform trivial) fun _ => .bind (.perform trivial) fun _ =>
        .bind iupdate_plain.inner fun _ => hend _ _
  · refine .bind (.pure _) fun _ => ?_
    beta_reduce
    split
    · exact .bind iunlockput_inner fun _ => sysUnlinkBad_inner
    refine .bind writei_plain.inner fun r => ?_
    split
    · trivial
    · exact hend _ _

lemma createCall_inner {p : ProcId} {path : Option Name} {type major minor : Int16} :
    IsInner (createCall p path type major minor) := by
  refine .bind (.perform trivial) fun _ => ?_
  rcases path with - | path
  · exact .bind (.perform trivial) fun _ => .pure _
  refine .bind create_inner fun r => ?_
  split
  · exact .bind (.perform trivial) fun _ => .pure _
  · exact .bind iunlockput_inner fun _ => .bind (.perform trivial) fun _ => .pure _

lemma exec_inner {p : ProcId} {path : Option Name} {reads : List (ℕ × ℕ)} :
    IsInner (exec p path reads) := by
  rcases path with - | path
  · trivial
  refine .bind namei_inner fun r => ?_
  split
  · trivial
  · exact .bind ilock_plain.inner fun _ => .bind execReads_plain.inner fun _ =>
      .bind iunlockput_inner fun _ => .pure _

end Fs

end Xv6
