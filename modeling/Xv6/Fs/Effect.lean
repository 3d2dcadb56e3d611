import Xv6.Fs.Write
import Xv6.Fs.Machine

/-!
# What a system call does to the files that are open

`Effect` puts together what the calls do: each keeps the invariant, and each leaves the files
that are open alone until the last of them on an inode is closed, except that `write` writes to
its own file.
-/

namespace Xv6

open Lib FsState

variable {mode : Mode} {sb : Superblock} {s s' s₁ s₂ : FsState} {e : InodeId} {f : FileId}
  {p : ProcId} {x m n off : ℕ} {src : ℕ → UInt8} {w : Option InodeId}

/-- What a call leaves, if it may have written to the inode of entry `w`. -/
structure Effect (sb : Superblock) (w : Option InodeId) (s s' : FsState) : Prop where
  inv : Inv sb [] s'
  dirs : Dirs s'
  survives : ∀ e, Open s e → some e ≠ w → Survives sb s s' e

/-- The current directories stay directories. -/
lemma Grew.dirs (g : Grew w s s') (hdirs : Dirs s) : Dirs s' := by
  intro p e hp
  rcases g.cwd p e hp with ⟨q, hq⟩ | hdir
  · have he : Held [] s e := .inr (.inr ⟨q, hq⟩)
    have ht := hdirs q e hq
    rw [(g.shown e he).inum, g.type e he (by rw [ht]; exact T_DIR_ne_zero), ht]
  · exact hdir

namespace Effect

lemma of_grew (i' : Inv sb [] s') (hdirs : Dirs s) (g : Grew w s s') : Effect sb w s s' :=
  ⟨i', g.dirs hdirs, fun e he hne => ⟨fun _ => g.kept e (.inr (.inl he)) hne,
    fun hno => absurd (g.opened he) hno⟩⟩

end Effect

lemma Calm.closes (c : Calm s s') : Closes sb s s' := .of_home c.home c.inode c.links

lemma Calm.dirs (c : Calm s s') (hdirs : Dirs s) : Dirs s' := Grew.dirs (w := none)
    (.of_calm c) hdirs

namespace Fs

namespace Call

/-- The calls that can close files. -/
def Closing : Call → Prop
  | close _ => True
  | exit => True
  | _ => False

/-- The file that a call writes to. -/
def target (s : FsState) (p : ProcId) : Call → Option FileId
  | write fd _ _ => descriptor s p fd
  | _ => none

end Call

end Fs

/-- The entry that a call may write to. -/
def Fs.Call.entry (s : FsState) (p : ProcId) (c : Fs.Call) : Option InodeId :=
  (c.target s p).bind fun f => (s.file f).link

/-- What a call of process `p` leaves: among the files that are open only the one that it
writes to has changed, and it has the bytes written. -/
structure Done (sb : Superblock) (p : ProcId) (c : Fs.Call) (s s' : FsState) : Prop where
  effect : Effect sb (c.entry s p) s s'
  links : ∀ f e, (s.file f).link = some e → (s'.file f).link = some e ∨
    (c.Closing ∧ (s'.file f).link = none)
  written : ∀ fd src n f e, c = .write fd src n → Fs.descriptor s p fd = some f →
    (s.file f).link = some e → Shown s s' e ∧
    ((s.inode e).type = T_FILE → ∃ m ≤ n.toNat, FileWritten sb s s' f (s.inode e).inum m src)

namespace Done

lemma of_effect {c : Fs.Call} (h : Effect sb none s s')
    (hl : ∀ f e, (s.file f).link = some e → (s'.file f).link = some e ∨
      (c.Closing ∧ (s'.file f).link = none)) (hw : ∀ fd src n, c ≠ .write fd src n) :
    Done sb p c s s' :=
  ⟨⟨h.inv, h.dirs, fun e he _ => h.survives e he (by simp)⟩, hl,
    fun fd src n _ _ hc => absurd hc (hw fd src n)⟩

lemma of_grew {c : Fs.Call} (i' : Inv sb [] s') (hdirs : Dirs s) (g : Grew none s s')
    (hw : ∀ fd src n, c ≠ .write fd src n) : Done sb p c s s' :=
  of_effect (.of_grew i' hdirs g) (fun f e hf => .inl (g.links f e hf)) hw

lemma of_closes {c : Fs.Call} (hc : c.Closing) (i' : Inv sb [] s') (hdirs : Dirs s')
    (cl : Closes sb s s') (hw : ∀ fd src n, c ≠ .write fd src n) : Done sb p c s s' := by
  refine of_effect ⟨i', hdirs, fun e he _ => cl.survives e he⟩ (fun f e hf => ?_) hw
  cases hf' : (s'.file f).link with
  | none => exact .inr ⟨hc, rfl⟩
  | some e' => exact .inl ((cl.links f e' hf').symm.trans hf)

lemma of_keeps {c : Fs.Call} (i' : Inv sb [] s') (hdirs : Dirs s) (k : Keeps [] s s')
    (hw : ∀ fd src n, c ≠ .write fd src n) : Done sb p c s s' :=
  of_grew i' hdirs (.of_keeps k) hw

end Done

namespace Safe

lemma closeCall {fd : ℤ} (i : Inv sb [] s) (hdirs : Dirs s) :
    Safe sb mode (Fs.sysClose p fd) (fun _ s' => Done sb p (.close fd) s s') s := by
  have hw : ∀ fd' src n, Fs.Call.close fd ≠ .write fd' src n := by simp
  refine sysClose i (fun r s' i' c => .of_closes trivial i' (c.dirs hdirs) c.closes hw)
    fun s₁ s' i₁ c r => ?_
  have hdirs₁ := c.dirs hdirs
  obtain ⟨-, -, -, -, i'⟩ := id r
  exact .of_closes trivial i' (r.dirs hdirs₁) (.trans i i₁ c.closes (r.closes i₁ hdirs₁)) hw

lemma exitCall (i : Inv sb [] s) (hdirs : Dirs s) :
    Safe sb mode (Fs.exit p) (fun _ s' => Done sb p .exit s s') s := by
  refine exit (I := fun s₁ => Inv sb [] s₁ ∧ Dirs s₁ ∧ Closes sb s s₁) ?_ ?_ i
    ⟨i, hdirs, .of_home rfl rfl fun _ => rfl⟩ fun _ s' i' hI =>
      .of_closes trivial i' hI.2.1 hI.2.2 (by simp)
  · rintro s₁ s₂ ⟨i₁, hdirs₁, c₁⟩ i₂ c
    exact ⟨i₂, c.dirs hdirs₁, .trans i i₁ c₁ c.closes⟩
  · rintro s₁ s₂ ⟨i₁, hdirs₁, c₁⟩ - r
    obtain ⟨-, -, -, -, i₂⟩ := id r
    exact ⟨i₂, r.dirs hdirs₁, .trans i i₁ c₁ (r.closes i₁ hdirs₁)⟩

lemma chdirCall {path : Option Name} (i : Inv sb [] s) (hdirs : Dirs s) :
    Safe sb mode (Fs.sysChdir p path) (fun _ s' => Done sb p (.chdir path) s s') s := by
  have hw : ∀ fd src n, Fs.Call.chdir path ≠ .write fd src n := by simp
  refine sysChdir i (fun _ s' i' k => .of_keeps i' hdirs k hw) fun s₁ s' k₁ r hf => ?_
  have hlinks : ∀ f e, (s.file f).link = some e → (s'.file f).link = some e := fun f e he => by
    rw [hf, k₁.file]
    exact he
  obtain ⟨-, -, -, -, i'⟩ := id r
  refine .of_effect ⟨i', r.dirs (hdirs.keeps k₁), fun e he _ => ?_⟩
    (fun f e he => .inl (hlinks f e he)) hw
  refine ⟨fun ho => (k₁.kept e (.inr (.inl he))).trans (r.kept ho), fun hno => ?_⟩
  obtain ⟨f, hf⟩ := he
  exact absurd ⟨f, hlinks f e hf⟩ hno

lemma writeCall {fd n : ℤ} (i : Inv sb [] s) (hdirs : Dirs s) :
    Safe sb mode (Fs.sysWrite p fd src n) (fun _ s' => Done sb p (.write fd src n) s s') s := by
  refine sysWrite i (fun _ s' i' c hfile => ?_) fun fd' f e all s' hfd hf hlink hw hp => ?_
  · have g : Grew none s s' := .of_calm c
    refine ⟨.of_grew i' hdirs g.mono, fun f e hf => .inl (g.links f e hf), ?_⟩
    rintro _ _ _ f e ⟨⟩ hf hlink
    refine ⟨g.shown e (.inr (.inl ⟨f, hlink⟩)), fun _ => ⟨0, Nat.zero_le _, .zero c.home ?_⟩⟩
    rw [hfile]
  · have hentry : (Fs.Call.write fd src n).entry s p = some e := by
      rw [Fs.Call.entry, Fs.Call.target, ← hfd, Fs.descriptor_eq, hf, Option.bind_some, hlink]
    refine ⟨hentry ▸ .of_grew hp.inv hdirs hp.grew, fun f e hf => .inl (hp.grew.links f e hf), ?_⟩
    rintro _ _ _ f' e' ⟨⟩ hf' hlink'
    obtain rfl : f = f' := by
      rw [← hfd, Fs.descriptor_eq, hf] at hf'
      exact Option.some.inj hf'
    obtain rfl : e = e' := Option.some.inj (hlink.symm.trans hlink')
    refine ⟨hp.grew.shown e (.inr (.inl ⟨f, hlink⟩)), fun ht => ?_⟩
    have hnode := i.node_of_live (i.live_of_open ⟨f, hlink⟩)
    obtain ⟨m, hm, hfw, -⟩ := hp.file (by rw [hnode, ht]; decide)
    exact ⟨m, hm, hfw⟩

/-- Every call keeps the invariant and the files that are open. -/
lemma done {c : Fs.Call} (i : Inv sb [] s) (hdirs : Dirs s) (hc : c.Enabled s p) :
    Safe sb mode (c.prog p) (fun _ s' => Done sb p c s s') s := by
  cases c with
  | dup fd => exact sysDup i fun _ s' i' g => .of_grew i' hdirs g (by simp)
  | read fd n => exact sysRead i fun _ s' i' g => .of_grew i' hdirs g (by simp)
  | write fd src n => exact writeCall i hdirs
  | close fd => exact closeCall i hdirs
  | fstat fd => exact sysFstat i fun _ s' i' g => .of_grew i' hdirs g (by simp)
  | link old new => exact sysLink i fun _ s' i' k => .of_keeps i' hdirs k (by simp)
  | unlink path => exact sysUnlink i fun _ s' i' k => .of_keeps i' hdirs k (by simp)
  | «open» path omode => exact sysOpen i fun _ s' i' g => .of_grew i' hdirs g (by simp)
  | mkdir path => exact createCall i fun _ s' i' k => .of_keeps i' hdirs k (by simp)
  | mknod path major minor => exact createCall i fun _ s' i' k => .of_keeps i' hdirs k (by simp)
  | chdir path => exact chdirCall i hdirs
  | exec path reads => exact exec i fun _ s' i' k => .of_keeps i' hdirs k (by simp)
  | pipe => exact sysPipe i fun _ s' i' g => .of_grew i' hdirs g (by simp)
  | fork np => exact fork i hc.2.1 fun _ s' i' g => .of_grew i' hdirs g (by simp)
  | exit => exact exitCall i hdirs

end Safe

end Xv6
