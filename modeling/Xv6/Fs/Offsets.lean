import Xv6.Fs.FileRefs
import Xv6.Fs.Room
import Xv6.Fs.Survival

/-!
# The offsets of open files

No offset is beyond the end of its file.  Offsets are moved by `read` and `write` only, and by
these only the one of the file that the descriptor stands for; for all other calls that can be seen
from the actions in their programs (`Aimed`).
-/

namespace Xv6

open Lib FsState

variable {sb : Superblock} {blk : ℕ → Block} {disksize : ℕ} {o : Outside} {s s' s₁ s₂ : FsState}
  {f : FileId} {g? : Option FileId} {p : ProcId} {c : Fs.Call}

/-- An action that sets the offset of no file but `g?`, unless the file is opened or becomes a
pipe. -/
def Aimed (g? : Option FileId) : Act → Prop
  | .setFile g v => some g = g? ∨ v.off = 0 ∨ v.type ≠ .inode
  | _ => True

/-- From `s` to `s'` each file but `g?` stays where it is, or is at its beginning, or has no
inode. -/
def SameOffs (g? : Option FileId) (s s' : FsState) : Prop := ∀ g, some g ≠ g? →
  ((s'.file g).link = (s.file g).link ∧ (s'.file g).off = (s.file g).off) ∨
    (s'.file g).off = 0 ∨ (s'.file g).link = none

namespace SameOffs

lemma of_eq (h : s'.file = s.file) :
    SameOffs g? s s' := fun g _ => .inl (by rw [h]; exact ⟨rfl, rfl⟩)

lemma trans (h₁ : SameOffs g? s s₁) (h₂ : SameOffs g? s₁ s₂) : SameOffs g? s s₂ := by
  intro g hg
  rcases h₂ g hg with ⟨hlink, hoff⟩ | h
  · rw [hlink, hoff]
    exact h₁ g hg
  · exact .inr h

/-- One file changes. -/
lemma setFile {v : File} (h : some f = g? ∨ (v.link = (s.file f).link ∧ v.off = (s.file f).off) ∨
    v.off = 0 ∨ v.link = none) : SameOffs g? s (s.setFile f v) := by
  intro g hg
  by_cases hgf : g = f
  · subst hgf
    rw [setFile_file_self]
    exact h.resolve_left hg
  · rw [setFile_file_of_ne hgf]
    exact .inl ⟨rfl, rfl⟩

end SameOffs

lemma sameOffs_exec (a : Act) (s : FsState) (h : Aimed g? a) :
    SameOffs g? s (endState a.exec s) := by
  by_cases hinner : Inner a
  · exact .of_eq (sameTables_exec a s hinner).file
  refine Wp.endState (P := fun t : FsState => SameOffs g? s t) ?_
  rw [Wp]
  generalize hx : a.exec s = x
  cases a with
  | setFile g v =>
      subst hx
      refine .setFile (h.imp_right fun h => .inr (h.imp_right fun ht => ?_))
      rw [File.link, if_neg ht]
  | fileclose g =>
      simp only [Act.exec] at hx
      split at hx
      · subst hx
        exact .of_eq rfl
      split at hx
      · subst hx
        exact .setFile (.inr (.inl ⟨rfl, rfl⟩))
      · subst hx
        exact .setFile (.inr (.inr (.inr rfl)))
  | pipeclose page writable =>
      subst hx
      simp only [Act.exec, FsState.pipeclose]
      split <;> exact .of_eq rfl
  | _ =>
      simp only [Act.exec] at hx
      repeat' split at hx
      all_goals
        subst hx
        first
          | exact absurd trivial hinner
          | exact .of_eq rfl
          | exact .setFile (.inr (.inl ⟨rfl, rfl⟩))

/-! ## The programs -/

lemma IsInner.aimed {α : Type} {q : Sys α} (h : IsInner q) : q.Only (Aimed g?) :=
  h.mono fun a ha => by cases a <;> first | exact ha.elim | trivial

namespace Fs

lemma argfd_aimed {fd : ℤ} : (argfd p fd).Only (Aimed g?) := by
  rw [argfd]
  split
  · exact .bind (.perform trivial) fun _ => .pure _
  · exact .pure _

lemma fdalloc_aimed : (fdalloc p f).Only (Aimed g?) := by
  rw [fdalloc]
  induction List.finRange NOFILE with
  | nil => exact .pure _
  | cons fd fds ih =>
      refine .bind (.perform trivial) fun old => ?_
      split
      · exact .bind (.perform trivial) fun _ => .pure _
      · exact ih

lemma fileclose_aimed : (fileclose f).Only (Aimed g?) := by
  refine .bind (.perform trivial) fun ff => ?_
  split
  · exact .pure _
  split
  · exact .perform trivial
  · exact .bind (.perform trivial) fun _ => .bind (IsInner.aimed iput_inner)
      fun _ => .perform trivial
  · trivial
  · exact .pure _

lemma filestat_aimed : (filestat f).Only (Aimed g?) := by
  refine .bind (.perform trivial) fun ff => ?_
  split
  · exact .bind (IsInner.aimed ilock_plain.inner) fun _ => .bind (.perform trivial) fun _ =>
      .bind (.perform trivial) fun _ => .pure _
  · trivial
  · exact .pure _

lemma fileread_aimed {n : ℤ} : (fileread f n).Only (Aimed (some f)) := by
  refine .bind (.perform trivial) fun ff => ?_
  split
  · exact .pure _
  split
  · exact .bind (.perform trivial) fun _ => .pure _
  · refine .bind (IsInner.aimed ilock_plain.inner) fun _ => .bind (IsInner.aimed readi_plain.inner)
      fun ⟨r, l⟩ => ?_
    dsimp only
    split
    · exact .bind (.perform (Or.inl rfl)) fun _ => .bind (.perform trivial) fun _ => .pure _
    · exact .bind (.perform trivial) fun _ => .pure _
  · trivial
  · trivial

lemma filewriteTurn_aimed {e : InodeId} {m : ℕ} {src : ℕ → UInt8} :
    (filewriteTurn f e src m).Only (Aimed (some f)) := by
  refine .bind (.perform trivial) fun _ => .bind (IsInner.aimed ilock_plain.inner) fun _ =>
    .bind (.perform trivial) fun ff => .bind (IsInner.aimed writei_plain.inner) fun r => ?_
  have hend : (do iunlock e; commitTrans; pure r : Sys ℤ).Only (Aimed (some f)) :=
    .bind (.perform trivial) fun _ => .bind (.perform trivial) fun _ => .pure _
  split
  · exact .bind (.perform (Or.inl rfl)) fun _ => hend
  · exact hend

lemma filewriteLoop_aimed {e : InodeId} {fuel n : ℕ} {src : ℕ → UInt8} :
    (filewriteLoop f e fuel src n).Only (Aimed (some f)) := by
  induction fuel generalizing n src with
  | zero => exact .pure _
  | succ fuel ih =>
      by_cases hn : n = 0
      · rw [filewriteLoop, if_pos hn]
        exact .pure _
      · rw [filewriteLoop_succ hn]
        refine .bind filewriteTurn_aimed fun r => ?_
        rw [filewriteRest]
        split
        · exact .pure _
        split
        · trivial
        · exact ih

lemma filewrite_aimed {n : ℤ} {src : ℕ → UInt8} : (filewrite f src n).Only (Aimed (some f)) := by
  refine .bind (.perform trivial) fun ff => ?_
  split
  · exact .pure _
  split
  · exact .perform trivial
  · exact .bind filewriteLoop_aimed fun _ => .pure _
  · trivial
  · trivial

lemma pipealloc_aimed : pipealloc.Only (Aimed g?) := by
  have hpipe : ∀ {v : OpenFile} {g : FileId}, v.type = .pipe → Aimed g? (.setFile g v) := fun hv =>
    .inr (.inr (by rw [hv]; decide))
  refine .bind (.perform trivial) fun f₀ => ?_
  split
  · exact .pure _
  refine .bind (.perform trivial) fun f₁ => ?_
  split
  · exact .bind fileclose_aimed fun _ => .pure _
  refine .bind (.perform trivial) fun page => ?_
  split
  · exact .bind fileclose_aimed fun _ => .bind fileclose_aimed fun _ => .pure _
  · exact .bind (.perform trivial) fun _ => .bind (.perform trivial) fun _ =>
      .bind (.perform (hpipe rfl)) fun _ =>
      .bind (.perform trivial) fun _ => .bind (.perform (hpipe rfl)) fun _ => .pure _

lemma sysPipe_aimed : (sysPipe p).Only (Aimed g?) := by
  refine .bind pipealloc_aimed fun ends => ?_
  split
  · exact .pure _
  refine .bind fdalloc_aimed fun fd₀ => ?_
  split
  · exact .bind fileclose_aimed fun _ => .bind fileclose_aimed fun _ => .pure _
  refine .bind fdalloc_aimed fun fd₁ => ?_
  split
  · exact .bind (.perform trivial) fun _ => .bind fileclose_aimed fun _ => .bind fileclose_aimed
      fun _ => .pure _
  · exact .pure _

lemma sysOpen_aimed {path : Option Name} {omode : UInt32} :
    (sysOpen p path omode).Only (Aimed g?) := by
  have hinode : ∀ path, IsInner (openInode p path omode) := by
    intro path
    rw [openInode]
    split
    · exact .bind (.perform trivial) fun _ => .bind create_inner fun _ => .bind (.perform trivial)
        fun _ => .pure _
    refine .bind namei_inner fun ip => ?_
    split
    · exact .pure _
    refine .bind ilock_plain.inner fun _ => .bind (.perform trivial) fun v => ?_
    split
    · exact .bind iunlockput_inner fun _ => .pure _
    · exact .pure _
  obtain _ | path := path
  · exact .pure _
  refine .bind (IsInner.aimed (hinode _)) fun ip => ?_
  split
  · exact .pure _
  refine .bind (.perform trivial) fun f => ?_
  split
  · exact .bind (IsInner.aimed iunlockput_inner) fun _ => .pure _
  refine .bind fdalloc_aimed fun fd => ?_
  split
  · exact .bind fileclose_aimed fun _ => .bind (IsInner.aimed iunlockput_inner) fun _ => .pure _
  · exact .bind (.perform trivial) fun _ => .bind (.perform trivial) fun _ =>
      .bind (.perform (Or.inr (Or.inl rfl))) fun _ => .pure _

lemma sysChdir_aimed {path : Option Name} : (sysChdir p path).Only (Aimed g?) := by
  obtain _ | path := path
  · exact .pure _
  refine .bind (IsInner.aimed namei_inner) fun ip => ?_
  split
  · exact .pure _
  refine .bind (IsInner.aimed ilock_plain.inner) fun _ => .bind (.perform trivial) fun v => ?_
  split
  · exact .bind (IsInner.aimed iunlockput_inner) fun _ => .pure _
  refine .bind (.perform trivial) fun _ => .bind (.perform trivial) fun old => ?_
  split
  · trivial
  · exact .bind (IsInner.aimed iput_inner) fun _ => .bind (.perform trivial) fun _ => .pure _

lemma fork_aimed {np : ProcId} : (fork p np).Only (Aimed g?) := by
  have hfiles : ∀ fds, (forkFiles p np fds).Only (Aimed g?) := by
    intro fds
    induction fds with
    | nil => exact .pure _
    | cons fd fds ih =>
        refine .bind (.perform trivial) fun f => ?_
        split
        · exact ih
        · exact .bind (.perform trivial) fun _ => .bind (.perform trivial) fun _ => ih
  refine .bind (hfiles _) fun _ => .bind (.perform trivial) fun cwd => ?_
  split
  · trivial
  · exact .bind (.perform trivial) fun _ => .bind (.perform trivial) fun _ => .pure _

lemma exit_aimed : (exit p).Only (Aimed g?) := by
  have hfiles : ∀ fds, (exitFiles p fds).Only (Aimed g?) := by
    intro fds
    induction fds with
    | nil => exact .pure _
    | cons fd fds ih =>
        refine .bind (.perform trivial) fun f => ?_
        split
        · exact ih
        · exact .bind fileclose_aimed fun _ => .bind (.perform trivial) fun _ => ih
  rw [exit]
  split
  · trivial
  refine .bind (hfiles _) fun _ => .bind (.perform trivial) fun cwd => ?_
  split
  · trivial
  · exact .bind (IsInner.aimed iput_inner) fun _ => .bind (.perform trivial) fun _ => .pure _

/-- A call other than `read` and `write` moves no offset. -/
lemma Call.aimed (hr : ∀ fd n, c ≠ .read fd n) (hw : ∀ fd src n, c ≠ .write fd src n) :
    (c.prog p).Only (Aimed none) := by
  cases c with
  | read fd n => exact absurd rfl (hr fd n)
  | write fd src n => exact absurd rfl (hw fd src n)
  | dup fd =>
      refine .bind argfd_aimed fun r => ?_
      split
      · exact .pure _
      refine .bind fdalloc_aimed fun fd' => ?_
      split
      · exact .pure _
      · exact .bind (.perform trivial) fun _ => .pure _
  | close fd =>
      refine .bind argfd_aimed fun r => ?_
      split
      · exact .pure _
      · exact .bind (.perform trivial) fun _ => .bind fileclose_aimed fun _ => .pure _
  | fstat fd =>
      refine .bind argfd_aimed fun r => ?_
      split
      · exact .pure _
      · exact .bind filestat_aimed fun _ => .pure _
  | link old new => exact IsInner.aimed sysLink_inner
  | unlink path => exact IsInner.aimed sysUnlink_inner
  | «open» path omode => exact sysOpen_aimed
  | mkdir path => exact IsInner.aimed createCall_inner
  | mknod path major minor => exact IsInner.aimed createCall_inner
  | chdir path => exact sysChdir_aimed
  | exec path reads => exact IsInner.aimed exec_inner
  | pipe => exact sysPipe_aimed
  | fork np => exact fork_aimed
  | exit => exact exit_aimed

end Fs

/-! ## Runs -/

/-- The file that `read` or `write` is called for. -/
def Fs.Call.moved (s : FsState) (p : ProcId) : Fs.Call → Option FileId
  | .read fd _ => Fs.descriptor s p fd
  | .write fd _ _ => Fs.descriptor s p fd
  | _ => none

namespace Ret

variable {α : Type} {k : Sys α} {fd : ℤ}

lemma aimed (hk : k.Only (Aimed g?)) : Ret k (fun _ s' => SameOffs g? s s') s :=
  of_run fun _ => hk.run (fun _ => .of_eq rfl) (fun _ _ _ => .trans) sameOffs_exec

/-- Every call moves at most the offset of its file. -/
lemma sameOffs : Ret (c.prog p) (fun _ s' => SameOffs (c.moved s p) s s') s := by
  cases c with
  | read fd n =>
      refine seq (argfd (fun _ => pure (.of_eq rfl)) fun fd' f _ hf => ?_)
      rw [Fs.Call.moved, hf]
      exact aimed (.bind Fs.fileread_aimed fun _ => .pure _)
  | write fd src n =>
      refine seq (argfd (fun _ => pure (.of_eq rfl)) fun fd' f _ hf => ?_)
      rw [Fs.Call.moved, hf]
      exact aimed Fs.filewrite_aimed
  | _ => exact aimed (Fs.Call.aimed (by simp) (by simp))

end Ret

namespace Safe

variable {mode : Mode} {fd n : ℤ} {src : ℕ → UInt8}

lemma readWithin (i : Inv sb [] s) : Safe sb mode (Fs.sysRead p fd n)
    (fun _ s' => ∀ f, Fs.descriptor s p fd = some f → MovedWithin s s' f) s := by
  refine seq (argfd (pure fun f _ => .of_eq rfl rfl) fun fd' f hf hfd => ?_)
  refine seq (fileread i fun r s' i' g hm _ => pure fun f' hf' => ?_)
  obtain rfl : f = f' := by
    rw [← hfd, Fs.descriptor_eq, hf] at hf'
    exact Option.some.inj hf'
  exact hm

lemma writeWithin (i : Inv sb [] s) : Safe sb mode (Fs.sysWrite p fd src n)
    (fun _ s' => ∀ f, Fs.descriptor s p fd = some f → MovedWithin s s' f) s := by
  refine sysWrite i (fun r s' i' hc hfile f _ => ⟨by rw [hfile], fun e _ _ hoff => ?_⟩)
    fun fd' f e all s' hfd hf hlink hw hp f' hf' => ?_
  · rwa [hfile, node_congr hc.home]
  · obtain rfl : f = f' := by
      rw [← hfd, Fs.descriptor_eq, hf] at hf'
      exact Option.some.inj hf'
    refine ⟨(hp.files f).1, fun e' hlink' ht hoff => ?_⟩
    obtain rfl : e = e' := Option.some.inj (hlink.symm.trans hlink')
    have hnode := i.node_of_live (i.live_of_open ⟨f, hlink⟩)
    obtain ⟨m, -, hw, -⟩ := hp.file (by rw [hnode, ht]; decide)
    rw [hw.off, hw.size]
    split
    · omega
    · exact le_max_right _ _

end Safe

/-- What stays open shows the same inode. -/
lemma Done.shown {e : InodeId} (d : Done sb p c s s') (he : Open s e) (he' : Open s' e) :
    Shown s s' e := by
  by_cases hw : c.entry s p = some e
  · obtain ⟨f, hf, hlink⟩ := Option.bind_eq_some_iff.1 hw
    cases c with
    | write fd src n => exact (d.written fd src n f e rfl hf hlink).1
    | _ => exact absurd hf (by simp [Fs.Call.target])
  · exact ((d.effect.survives e he fun h => hw h.symm).kept he').toShown

/-- No file is open beyond the end of its inode. -/
def OffsWithin (s : FsState) : Prop := ∀ f e, (s.file f).link = some e → (s.inode e).type = T_FILE →
  (s.file f).off.toNat ≤ (s.node (s.inode e).inum).size.toNat

namespace OffsWithin

/-- A call keeps all offsets within their files. -/
lemma call {v : ℤ} (h : OffsWithin s) (hr : Roomy sb s) (hc : c.Enabled s p)
    (hroom : (c.prog p).Meets Act.exec (RoomAt sb) s)
    (hrun : (c.prog p).run Act.exec s = .ok v s') :
    OffsWithin s' := by
  have hdone : Done sb p c s s' := (hr.call hc hroom).1.ok hrun
  have hoffs : SameOffs (c.moved s p) s s' := Ret.sameOffs.ok hrun
  have hahead : ∀ f, c.moved s p = some f → MovedWithin s s' f := by
    cases c with
    | read fd n => exact ((Safe.readWithin hr.sound.inv).of_roomy hroom).1.ok hrun
    | write fd src n => exact ((Safe.writeWithin hr.sound.inv).of_roomy hroom).1.ok hrun
    | _ => exact fun f hf => absurd hf (by simp [Fs.Call.moved])
  intro g e hlink' ht'
  have hold : (s.file g).link = some e → (s.inode e).type = T_FILE ∧
      (s.file g).off.toNat ≤ (s.node (s.inode e).inum).size.toNat ∧ (s'.inode e).inum =
      (s.inode e).inum := by
    intro hlink
    have hshown := hdone.shown ⟨g, hlink⟩ ⟨g, hlink'⟩
    have ht : (s.inode e).type = T_FILE :=
      (hshown.valid (hr.sound.inv.live_of_open ⟨g, hlink⟩).valid).2.symm.trans ht'
    exact ⟨ht, h g e hlink ht, hshown.inum⟩
  by_cases hg : c.moved s p = some g
  · obtain ⟨hsame, hoff⟩ := hahead g hg
    have hlink := hsame.symm.trans hlink'
    obtain ⟨ht, hle, hinum⟩ := hold hlink
    rw [hinum]
    exact hoff e hlink ht hle
  · rcases hoffs g fun heq => hg heq.symm with ⟨hsame, hoff⟩ | hzero | hnone
    · have hlink := hsame.symm.trans hlink'
      obtain ⟨ht, hle, hinum⟩ := hold hlink
      have halive := (hdone.alive hr.sound ⟨g, hlink⟩ ht ⟨g, hlink'⟩).bytes
      rw [hoff]
      refine hle.trans ?_
      rw [← length_contents, ← length_contents, halive]
      cases c.record p s s' with
      | none => rfl
      | some r =>
          rw [Option.toList_some, List.foldl_cons, List.foldl_nil, Fs.Record.apply]
          split
          · exact length_le_length_overwrite _ _ _
          · rfl
    · rw [hzero]
      exact Nat.zero_le _
    · rw [hnone] at hlink'
      exact absurd hlink' (by simp)

lemma of_run {es : List Fs.Record} (wf : WellFormed sb blk)
    (h : Fs.RoomyRun sb (Fs.boot sb blk disksize o) es s) : OffsWithin s := by
  refine (h.invariant (I := fun _ s => Roomy sb s ∧ OffsWithin s) ⟨.of_run wf .start,
    fun f e hf => ?_⟩ fun {_ s s' l r} hI hl hs => ⟨hI.1.step hl.1 hl.2 hs, ?_⟩).2
  · exact absurd hf (by simp [Fs.boot, File.link])
  · cases l with
    | call p c =>
        obtain ⟨v, hx, -⟩ := Fs.step_call hs
        exact hI.2.call hI.1 hl.1 hl.2 hx
    | outside o =>
        obtain ⟨rfl, -⟩ : s.setOutside o = s' ∧ none = r := by
          simpa [Fs.step, setOutside] using hs
        exact hI.2

end OffsWithin

end Xv6
