import Xv6.Fs.Ownership

/-!
# The inode cache and the files that are open

Two consequences of the invariant for whole runs.  Every entry of the inode cache that is in use
shows what is on disk whenever a transaction ends, and what is not in use any more has been on disk
when the last reference was dropped.  And an open file survives its own removal:
only `write` changes it, and its inode and its blocks are freed by the call that closes it last.

Both need that `balloc` returns no block of the log area.  The bitmap that `mkfs` writes has these
blocks as free, and when no other block is left they become blocks of files, which the next
transactions overwrite; worse, a commit then installs bytes of the file as another block.
-/

namespace Xv6

open Lib FsState

variable {sb : Superblock} {s s' s₁ s₂ : FsState} {blk : ℕ → Block} {disksize : ℕ} {o : Outside}
  {e : InodeId} {x : ℕ} {ino : ℕ → DInode}

/-! ## The inode cache -/

/-- If nothing refers to entry `e` any more and it is still valid, the disk has its fields. -/
def FsState.Saved (s : FsState) (e : InodeId) : Prop :=
  (s.inode e).ref = 0 → (s.inode e).valid = true →
    (s.inode e).toDInode = dinodeAt s.blk (s.inode e).inum

/-- `iput` of the last reference leaves an entry that the disk has. -/
lemma FsState.Coherent.saved {r : Bool} (h : s.Coherent)
    (hx : (Act.iputStart e).exec s = .ok r s') :
    s'.Saved e := by
  intro href hv
  simp only [Act.exec] at hx
  split_ifs at hx with hlast
  · obtain ⟨-, rfl⟩ := EStateM.Result.ok.inj hx
    rw [setInode_inode_self] at href
    exact absurd hlast.1 (by rw [href]; decide)
  · obtain ⟨-, rfl⟩ := EStateM.Result.ok.inj hx
    rw [setInode_inode_self] at href hv ⊢
    have href : (s.inode e).ref - 1 = 0 := href
    exact h e (by omega) hv

/-- `iput` of the last reference to a file without links leaves an entry that is not valid. -/
lemma FsState.saved_iputEnd (hx : (Act.iputEnd e).exec s = .ok () s') : s'.Saved e := by
  obtain ⟨-, rfl⟩ := EStateM.Result.ok.inj hx
  intro _ hv
  rw [setInode_inode_self] at hv
  exact absurd hv (by simp)

/-- Between calls, and before and after every commit, each valid entry in use has the fields of
the inode on disk; and so has an entry when `iput` drops the last reference to it. -/
theorem cache_transparent {es : List Fs.Record} (wf : WellFormed sb blk)
    (h : Fs.Reached (Fs.boot sb blk disksize o) es s) (hap : Apart s) :
    s.Coherent ∧ ∀ (p : ProcId) (c : Fs.Call), c.Enabled s p →
      Apart (endState ((c.prog p).run Act.exec) s) →
      (c.prog p).Meets Act.exec (fun a t =>
        (a = .commitTrans → t.Coherent ∧ ∀ t', Act.commitTrans.exec t = .ok () t' → t'.Coherent) ∧
        ∀ e, (a = .iputStart e → ∀ r t', (Act.iputStart e).exec t = .ok r t' → t'.Saved e) ∧
          (a = .iputEnd e → ∀ t', (Act.iputEnd e).exec t = .ok () t' → t'.Saved e)) s := by
  have hs := Sound.of_reached wf h hap
  obtain ⟨ino, c⟩ := hs.inv.content
  refine ⟨c.coherent, fun p c hc hap' => (hs.call hc hap').2.mono fun a t hw => ⟨?_,
    fun e => ⟨?_, ?_⟩⟩⟩
  · rintro rfl
    exact hw
  · rintro rfl r t' hx
    exact FsState.Coherent.saved hw hx
  · rintro - t' hx
    exact FsState.saved_iputEnd hx

/-- A file is made and written to. -/
theorem cache_transparent_write : ∃ es s, Fs.Reached (Fs.small 20) es s ∧
    0 < (s.inode secondEntry).ref ∧ (s.inode secondEntry).valid = true ∧
    (s.inode secondEntry).size = 2 ∧ s.Coherent := by
  obtain ⟨es, s, h, hs⟩ := Fs.exists_reached (Fs.small 20)
    [.call Fs.initproc (.open (some [102]) 0x202), .call Fs.initproc (.write 0 (fun _ => 1) 2)]
    (fun s => 0 < (s.inode secondEntry).ref ∧ (s.inode secondEntry).valid = true ∧
      (s.inode secondEntry).size = 2 ∧ ∀ b ∈ s.seen.ballocs, b < s.log.start) (by decide +kernel)
  obtain ⟨href, hvalid, hsize, hap⟩ := hs
  exact ⟨es, s, h, href, hvalid, hsize, (cache_transparent (small_wellFormed (by decide)) h hap).1⟩

/-- Two files are opened and closed, and the second one is opened again: it gets the entry of the
first one, and its old entry stays valid with the size that the file had before it is written to.
And a file is made and written to on a disk without a free data block, so that its blocks are
blocks of the log: the last transaction installs bytes of the file as the block of its inode. -/
theorem cache_incoherent :
    (WellFormed (Fs.smallSb 20) (Fs.smallBlk 20) ∧ ∃ es s, Fs.Reached (Fs.small 20) es s ∧ Apart s ∧
      ∃ e, (s.inode e).ref = 0 ∧ (s.inode e).valid = true ∧
        (s.inode e).size ≠ (dinodeAt s.blk (s.inode e).inum).size) ∧
    WellFormed (Fs.smallSb 0) (Fs.smallBlk 0) ∧
    ∃ es s, Fs.Reached (Fs.small 0) es s ∧ ∃ e, 0 < (s.inode e).ref ∧ (s.inode e).valid = true ∧
      (s.inode e).type ≠ (dinodeAt s.blk (s.inode e).inum).type := by
  refine ⟨⟨small_wellFormed (by decide), ?_⟩, small_wellFormed (by decide), ?_⟩
  · obtain ⟨es, s, h, hap, hs⟩ := Fs.exists_reached (Fs.small 20)
      [.call Fs.initproc (.open (some [102]) 0x202), .call Fs.initproc (.open (some [103]) 0x202),
        .call Fs.initproc (.close 0), .call Fs.initproc (.close 1),
        .call Fs.initproc (.open (some [103]) 2), .call Fs.initproc (.write 0 (fun _ => 1) 2)]
      (fun s => (∀ b ∈ s.seen.ballocs, b < s.log.start) ∧ ∃ e, (s.inode e).ref = 0 ∧
        (s.inode e).valid = true ∧ (s.inode e).size ≠ (dinodeAt s.blk (s.inode e).inum).size)
      (by decide +kernel)
    exact ⟨es, s, h, hap, hs⟩
  · obtain ⟨es, s, h, hs⟩ := Fs.exists_reached (Fs.small 0)
      [.call Fs.initproc (.open (some [102]) 0x202), .call Fs.initproc (.write 0 (fun _ => 1) 1536),
        .call Fs.initproc (.write 0 (fun _ => 1) 1)]
      (fun s => ∃ e, 0 < (s.inode e).ref ∧ (s.inode e).valid = true ∧
        (s.inode e).type ≠ (dinodeAt s.blk (s.inode e).inum).type) (by decide +kernel)
    exact ⟨es, s, h, hs⟩

/-! ## Open files -/

/-- The bytes of file `x`. -/
def FsState.contents (s : FsState) (x : ℕ) : List UInt8 :=
  fileBytes s.home (s.node x) 0 (s.node x).size.toNat

/-- What a record of a write does to the bytes of file `x`. -/
def Fs.Record.apply (x : ℕ) (l : List UInt8) (r : Fs.Record) : List UInt8 :=
  if r.inum = x then overwrite l r.off r.bytes else l

/-- What reading `n` bytes from offset `off` gives for a file with the bytes `l`. -/
def readBytes (l : List UInt8) (off n : ℕ) : ℤ × List UInt8 :=
  if l.length < off ∨ (off + n) % 2 ^ 32 < off then (-1, [])
  else (((l.drop off).take n).length, (l.drop off).take n)

lemma length_contents : (s.contents x).length = (s.node x).size.toNat := by
  simp [contents, fileBytes]

lemma take_drop_contents {off n : ℕ} : ((s.contents x).drop off).take n =
    fileBytes s.home (s.node x) off (min n ((s.node x).size.toNat - off)) := by
  apply List.ext_getElem
  · simp [contents, fileBytes]
  · intro i _ _
    simp [contents, fileBytes]

lemma readResult_eq_readBytes {off n : ℕ} :
    readResult s.home (s.node x) off n = readBytes (s.contents x) off n := by
  rw [readResult, readBytes, length_contents, take_drop_contents]
  split
  · rfl
  rename_i hoff
  have hmin : (if (s.node x).size.toNat < off + n then (s.node x).size.toNat - off else n) =
      min n ((s.node x).size.toNat - off) := by
    split <;> omega
  simp [hmin, fileBytes]

/-- A file that is kept has the same bytes. -/
lemma SameFile.contents (f : SameFile s s' x) (ht : (s.node x).type ≠ 0)
    (hfilled : Filled s.home (s.node x) (s.node x).size.toNat) : s'.contents x = s.contents x := by
  rw [FsState.contents, FsState.contents, f.size, fileBytes, fileBytes]
  refine List.map_congr_left fun i hi => f.byte ht (hfilled _ ?_)
  rw [List.mem_range] at hi
  exact (Nat.div_mul_le_self _ _).trans_lt (by omega)

/-- A file that has been written to has the bytes written. -/
lemma FileWritten.contents {f : FileId} {m : ℕ} {src : ℕ → UInt8}
    (w : FileWritten sb s s' f x m src) :
    s'.contents x = overwrite (s.contents x) (s.file f).off.toNat ((List.range m).map src) := by
  rw [FsState.contents, FsState.contents, fileBytes, fileBytes, overwrite_map_range w.within,
    w.size]
  refine List.map_congr_left fun i hi => ?_
  rw [List.mem_range] at hi
  rw [Nat.zero_add]
  refine w.bytes.byte i ?_
  split at hi
  · exact .inl hi
  · rcases lt_max_iff.1 hi with hlt | hlt
    · exact .inl hlt
    · by_cases hoff : (s.file f).off.toNat ≤ i
      · exact .inr ⟨hoff, hlt⟩
      · have := w.within ‹_›
        exact .inl (by omega)

lemma Sound.filled (h : Sound sb s) (hx : x < sb.ninodes) (ht : (s.node x).type = T_FILE) :
    Filled s.home (s.node x) (s.node x).size.toNat := by
  obtain ⟨ino, c⟩ := h.inv.content
  rw [c.node_eq hx] at ht ⊢
  exact c.good.filled x hx (by rw [ht]; decide) (by rw [ht]; decide)

/-- The file of entry `e`, which is open all the time, has stayed what it was in `s₀`, except for
the writes that have been recorded. -/
structure Alive (s₀ s : FsState) (e : InodeId) (ws : List Fs.Record) : Prop where
  inum : (s.inode e).inum = (s₀.inode e).inum
  type : (s.inode e).type = T_FILE
  slot : ∀ k, slotOf s₀.home (s₀.node (s₀.inode e).inum) k ≠ 0 →
    slotOf s.home (s.node (s.inode e).inum) k = slotOf s₀.home (s₀.node (s₀.inode e).inum) k
  bytes : s.contents (s.inode e).inum =
    ws.foldl (Fs.Record.apply (s₀.inode e).inum) (s₀.contents (s₀.inode e).inum)

namespace Alive

variable {s₀ : FsState} {ws ws' : List Fs.Record}

lemma refl (ht : (s₀.inode e).type = T_FILE) : Alive s₀ s₀ e [] := ⟨rfl, ht, fun _ _ => rfl, rfl⟩

lemma trans (h₁ : Alive s₀ s e ws) (h₂ : Alive s s' e ws') : Alive s₀ s' e (ws ++ ws') := by
  refine ⟨h₂.inum.trans h₁.inum, h₂.type, fun k hk => ?_, ?_⟩
  · have hk₁ := h₁.slot k hk
    rw [h₂.slot k (hk₁.symm ▸ hk), hk₁]
  · rw [h₂.bytes, h₁.bytes, h₁.inum, List.foldl_append]

end Alive

/-- What a call records, in terms of the entry that the file refers to. -/
lemma Fs.Call.record_write {p : ProcId} {fd n : ℤ} {src : ℕ → UInt8} :
    Call.record p s s' (.write fd src n) = (descriptor s p fd).bind fun f =>
      (s.file f).link.map fun e => {
        inum := (s.inode e).inum
        off := (s.file f).off.toNat
        bytes := (List.range ((s'.file f).off.toNat - (s.file f).off.toNat)).map src } := by
  rw [record]
  cases descriptor s p fd with
  | none => rfl
  | some f =>
      simp only [Option.bind_some, File.link]
      cases (s.file f).type <;> cases (s.file f).ip <;> rfl

/-- A call that does not close the file keeps it, apart from what it writes. -/
lemma Done.alive {p : ProcId} {c : Fs.Call} (d : Done sb p c s s') (hs : Sound sb s) (he : Open s e)
    (ht : (s.inode e).type = T_FILE) (he' : Open s' e) :
    Alive s s' e (c.record p s s').toList := by
  have l := hs.inv.live_of_open he
  have hx := hs.inv.inum_lt l
  have hnode := hs.inv.node_of_live l
  have ht' : (s.node (s.inode e).inum).type = T_FILE := by rw [hnode, ht]
  by_cases hw : c.entry s p = some e
  · -- the call writes to this file
    obtain ⟨f, hf, hlink⟩ := Option.bind_eq_some_iff.1 hw
    obtain ⟨fd, src, n, rfl⟩ : ∃ fd src n, c = .write fd src n := by
      cases c with
      | write fd src n => exact ⟨fd, src, n, rfl⟩
      | _ => exact absurd hf (by simp [Fs.Call.target])
    obtain ⟨hshown, hwritten⟩ := d.written fd src n f e rfl hf hlink
    obtain ⟨m, -, w⟩ := hwritten ht
    refine ⟨hshown.inum, (hshown.valid l.valid).2.trans ht, fun k hk => ?_, ?_⟩
    · rw [hshown.inum]
      exact w.bytes.slot k hk
    · have hm : (s'.file f).off.toNat - (s.file f).off.toNat = m := by
        rw [w.off]
        omega
      rw [hshown.inum, w.contents, Fs.Call.record_write, show Fs.descriptor s p fd = some f from hf,
        Option.bind_some, hlink, Option.map_some, hm]
      simp [Fs.Record.apply]
  · have k := (d.effect.survives e he fun h => hw h.symm).kept he'
    have hsame := k.file l.valid ht
    refine ⟨k.inum, (k.valid l.valid).2.trans ht, fun j _ => ?_, ?_⟩
    · rw [k.inum]
      exact hsame.slot (by rw [ht']; decide) j
    · rw [k.inum, hsame.contents (by rw [ht']; decide) (hs.filled hx ht')]
      -- what the call writes goes to another inode
      cases hr : c.record p s s' with
      | none => rfl
      | some r =>
          obtain ⟨fd, src, n, rfl⟩ : ∃ fd src n, c = .write fd src n := by
            cases c with
            | write fd src n => exact ⟨fd, src, n, rfl⟩
            | _ => exact absurd hr (by simp [Fs.Call.record])
          rw [Fs.Call.record_write] at hr
          obtain ⟨f, hf, hr⟩ := Option.bind_eq_some_iff.1 hr
          obtain ⟨e', hlink, rfl⟩ := Option.map_eq_some_iff.1 hr
          have hne : e' ≠ e := by
            rintro rfl
            exact hw (Option.bind_eq_some_iff.2 ⟨f, hf, hlink⟩)
          obtain ⟨ino, c⟩ := hs.inv.content
          have hinum : (s.inode e').inum ≠ (s.inode e).inum := fun heq => hne
            (c.cached.uniq e' e (hs.inv.live_of_open ⟨f, hlink⟩).ref l.ref heq)
          simp [Fs.Record.apply, hinum]

/-- What is known in `s` of the file of entry `e`, which is open and has been since `s₀`, when `ws`
has been written in the meantime. -/
structure Survivor (sb : Superblock) (s₀ s : FsState) (e : InodeId) (ws : List Fs.Record) :
    Prop where
  /-- It is the same inode with the same blocks, and it has the bytes written. -/
  alive : Alive s₀ s e ws
  /-- Neither the inode nor one of its blocks is marked free. -/
  used : (s.node (s.inode e).inum).type = T_FILE ∧ ∀ k,
    slotOf s.home (s.node (s.inode e).inum) k ≠ 0 →
    bitOf sb s.home (slotOf s.home (s.node (s.inode e).inum) k) = true
  /-- Reading returns its bytes. -/
  reads : ∀ f n r s', (s.file f).link = some e → (s.file f).readable = true → Apart s' →
    (Fs.fileread f n).run Act.exec s = .ok r s' →
    r = readBytes (s.contents (s.inode e).inum) (s.file f).off.toNat (n % 2 ^ 32).toNat
  /-- During a call neither `balloc` nor `ialloc` returns what an open file has. -/
  apart : ∀ (p : ProcId) (c : Fs.Call), c.Enabled s p →
    Apart (endState ((c.prog p).run Act.exec) s) →
    (c.prog p).Meets Act.exec (fun a t => ∀ e, Open t e →
      (∀ b, a = .ballocDone b → ∀ k, slotOf t.blk (t.inode e).toDInode k ≠ b) ∧
      ∀ x, a = .iallocDone x → (t.inode e).inum ≠ x) s
  /-- The files that refer to it do so until they are closed. -/
  links : ∀ l s' r f, l.Enabled s → Fs.step s l = some (s', r) → Apart s' →
    (s.file f).link = some e → (s'.file f).link = some e ∨
      ((∃ p c, l = .call p c ∧ c.Closing) ∧ (s'.file f).link = none)
  /-- It is freed by the call that closes the last of them if it has no links, and otherwise not. -/
  closed : ∀ l s' r, l.Enabled s → Fs.step s l = some (s', r) → Apart s' → ¬ Open s' e →
    (∃ p c, l = .call p c ∧ c.Closing) ∧
      if (s.inode e).nlink = 0 then Gone sb s s' (s.inode e).inum
      else SameNode s s' (s.inode e).inum

/-- What a step of a call does. -/
lemma Sound.done {p : ProcId} {c : Fs.Call} {r : Option Fs.Record} (hs : Sound sb s)
    (hc : c.Enabled s p) (hstep : Fs.step s (.call p c) = some (s', r)) (hap : Apart s') :
    Done sb p c s s' ∧ r = c.record p s s' := by
  obtain ⟨v, hx, hr⟩ := Fs.step_call hstep
  have hend : endState ((c.prog p).run Act.exec) s = s' := by rw [endState, hx]
  exact ⟨(hs.call hc (hend ▸ hap)).1.ok hx, hr⟩

/-- A step keeps the file as long as it stays open. -/
lemma Alive.step {s₀ : FsState} {ws : List Fs.Record} {l : Fs.Event} {r : Option Fs.Record}
    (h : Alive s₀ s e ws) (hs : Sound sb s) (hl : l.Enabled s) (hopen : Open s e)
    (hstep : Fs.step s l = some (s', r)) (hap : Apart s') (hopen' : Open s' e) :
    Alive s₀ s' e (ws ++ r.toList) := by
  cases l with
  | call p c =>
      obtain ⟨d, rfl⟩ := hs.done hl hstep hap
      exact h.trans (d.alive hs hopen h.type hopen')
  | outside o =>
      obtain ⟨rfl, rfl⟩ : s.setOutside o = s' ∧ none = r := by
        simpa [Fs.step, setOutside] using hstep
      exact h.trans ⟨rfl, h.type, fun _ _ => rfl, rfl⟩

lemma Survivor.of_alive {s₀ : FsState} {ws : List Fs.Record} (hs : Sound sb s) (hopen : Open s e)
    (h : Alive s₀ s e ws) : Survivor sb s₀ s e ws := by
  have l := hs.inv.live_of_open hopen
  have hx := hs.inv.inum_lt l
  have hnode := hs.inv.node_of_live l
  have ht : (s.node (s.inode e).inum).type = T_FILE := by rw [hnode, h.type]
  have hclosing : ∀ l s' r f, l.Enabled s → Fs.step s l = some (s', r) → Apart s' →
      (s.file f).link = some e → (s'.file f).link = some e ∨
        ((∃ p c, l = .call p c ∧ c.Closing) ∧ (s'.file f).link = none) := by
    intro l s' r f hl hstep hap hf
    cases l with
    | call p c =>
        obtain ⟨d, -⟩ := hs.done hl hstep hap
        exact (d.links f e hf).imp_right fun h => ⟨⟨p, c, rfl, h.1⟩, h.2⟩
    | outside o =>
        obtain ⟨rfl, -⟩ : s.setOutside o = s' ∧ none = r := by
          simpa [Fs.step, setOutside] using hstep
        exact .inl hf
  refine ⟨h, ⟨ht, fun k hk => ?_⟩, fun f n r s' hf hread hap hrun => ?_, fun p c hc hap => ?_,
    hclosing, fun l s' r hl hstep hap hno => ?_⟩
  · obtain ⟨ino, c⟩ := hs.inv.content
    rw [c.node_eq hx] at ht hk ⊢
    exact (c.good.owns.held _ _ (own_slotOf hx (by rw [ht]; decide) hk)).2
  · have hsafe : Safe sb .lax (Fs.fileread f n)
      (fun r _ => r = readBytes (s.contents (s.inode e).inum)
        (s.file f).off.toNat (n % 2 ^ 32).toNat) s :=
      Safe.fileread hs.inv fun r s' _ _ _ hr => by
        rw [← readResult_eq_readBytes]
        exact hr e hread hf (by rw [h.type]; decide)
    exact (hsafe.of_apart (by rwa [endState, hrun])).1.ok hrun
  · refine (hs.call hc hap).2.mono fun a t hw e' he' => ⟨fun b ha k => ?_, fun x ha => ?_⟩
    · subst ha
      obtain ⟨f, hf⟩ := he'
      obtain ⟨href, hval⟩ := hw.1 f e' hf
      exact hw.2 e' href hval k
    · subst ha
      obtain ⟨f, hf⟩ := he'
      obtain ⟨href, hval⟩ := hw.1 f e' hf
      exact hw.2 e' href hval
  · obtain ⟨f, hf⟩ := hopen
    have hcl := (hclosing l s' r f hl hstep hap hf).resolve_left fun h => hno ⟨f, h⟩
    refine ⟨hcl.1, ?_⟩
    obtain ⟨p, c, rfl, hc⟩ := hcl.1
    obtain ⟨d, -⟩ := hs.done hl hstep hap
    refine (d.effect.survives e ⟨f, hf⟩ fun hw => ?_).closed hno h.type
    cases c with
    | write fd src n => exact hc
    | _ => exact absurd hw (by simp [Fs.Call.entry, Fs.Call.target])

/-- An open file survives everything but the end of the last call that closes it. -/
theorem open_file_survives {s₀ : FsState} {es ws : List Fs.Record} (wf : WellFormed sb blk)
    (h₀ : Fs.Reached (Fs.boot sb blk disksize o) es s₀) (ht : (s₀.inode e).type = T_FILE)
    (h : Run Fs.step (fun s l => l.Enabled s ∧ Open s e) s₀ [] ws s) (hopen : Open s e)
    (hap : Apart s) : Survivor sb s₀ s e ws := by
  have hinv : Sound sb s ∧ (Open s e → Alive s₀ s e ws) := by
    refine h.invariant (I := fun ws s => Apart s → Sound sb s ∧ (Open s e → Alive s₀ s e ws))
      (fun hap => ⟨Sound.of_reached wf h₀ hap, fun _ => .refl ht⟩) (fun hI hl hstep hap => ?_) hap
    obtain ⟨hs, halive⟩ := hI (hap.of_step hstep)
    exact ⟨hs.step hl.1 hstep hap, (halive hl.2).step hs hl.1 hl.2 hstep hap⟩
  exact .of_alive hinv.1 hopen (hinv.2 hopen)

/-- Follow events, and then others during which entry `e` is open. -/
lemma exists_reached_open (s₀ : FsState) (ls ls' : List Fs.Event) (e : InodeId)
    (P : FsState → List Fs.Record → FsState → Prop) [∀ s ws s', Decidable (P s ws s')]
    (h : ((Fs.follow s₀ ls).any fun r => decide (((exec (restrict Fs.step fun s l =>
      l.Enabled s ∧ Open s e) ls' [] r.2).any fun r' => decide (P r.2 r'.1 r'.2)) = true)) = true) :
    ∃ es s ws s', Fs.Reached s₀ es s ∧
      Run Fs.step (fun s l => l.Enabled s ∧ Open s e) s [] ws s' ∧ P s ws s' := by
  obtain ⟨es, s, hs, h'⟩ := Fs.exists_reached s₀ ls (fun s => ((exec (restrict Fs.step fun s l =>
    l.Enabled s ∧ Open s e) ls' [] s).any fun r' => decide (P s r'.1 r'.2)) = true) h
  obtain ⟨ws, s', hs', hP⟩ := Run.exists_of_exec (fun ws s' => P s ws s') ls' h'
  exact ⟨es, s, ws, s', hs, hs', hP⟩

/-- A file is removed while it is open, written to, and another one is made. -/
theorem open_file_survives_unlink : ∃ es s₀ s ws e, Fs.Reached (Fs.small 20) es s₀ ∧
    (s₀.inode e).type = T_FILE ∧ (s.inode e).nlink = 0 ∧
    s.contents (s.inode e).inum = [120, 121] ∧ Survivor (Fs.smallSb 20) s₀ s e ws := by
  obtain ⟨es, s₀, ws, s, h₀, h, hs⟩ := exists_reached_open (Fs.small 20)
    [.call Fs.initproc (.open (some [102]) 0x202)]
    [.call Fs.initproc (.unlink (some [102])),
      .call Fs.initproc (.write 0 (fun i => 120 + UInt8.ofNat i) 2),
      .call Fs.initproc (.open (some [102]) 0x202), .call Fs.initproc (.write 1 (fun _ => 1) 1)]
    secondEntry
    (fun s₀ _ s => (s₀.inode secondEntry).type = T_FILE ∧ (s.inode secondEntry).nlink = 0 ∧
      s.contents (s.inode secondEntry).inum = [120, 121] ∧ Open s secondEntry ∧
      ∀ b ∈ s.seen.ballocs, b < s.log.start) (by decide +kernel)
  obtain ⟨ht, hnlink, hbytes, hopen, hap⟩ := hs
  exact ⟨es, s₀, s, ws, _, h₀, ht, hnlink, hbytes,
    open_file_survives (small_wellFormed (by decide)) h₀ ht h hopen hap⟩

/-- On a disk without a free data block a file is made and a byte is written to it.  Its block is
the first one of the log, where the commit then writes the header: reading returns another byte. -/
theorem open_file_corrupted : WellFormed (Fs.smallSb 0) (Fs.smallBlk 0) ∧
    ∃ es s₀ s ws e f r s', Fs.Reached (Fs.small 0) es s₀ ∧ (s₀.inode e).type = T_FILE ∧
      s₀.contents (s₀.inode e).inum = [] ∧
      Run Fs.step (fun s l => l.Enabled s ∧ Open s e) s₀ [] ws s ∧
      ws = [⟨(s₀.inode e).inum, 0, [120]⟩] ∧ (s.file f).link = some e ∧ (s.file f).off = 0 ∧
      (Fs.fileread f 1).run Act.exec s = .ok r s' ∧ r.2 = [0] := by
  refine ⟨small_wellFormed (by decide), ?_⟩
  obtain ⟨es, s₀, ws, s, h₀, h, hs⟩ := exists_reached_open (Fs.small 0)
    [.call Fs.initproc (.open (some [102]) 0x202)]
    [.call Fs.initproc (.write 0 (fun _ => 120) 1), .call Fs.initproc (.open (some [102]) 0)]
    secondEntry
    (fun s₀ ws s => (s₀.inode secondEntry).type = T_FILE ∧
      s₀.contents (s₀.inode secondEntry).inum = [] ∧
      ws = [⟨(s₀.inode secondEntry).inum, 0, [120]⟩] ∧
      (s.file secondFile).link = some secondEntry ∧ (s.file secondFile).off = 0 ∧
      (match (Fs.fileread secondFile 1).run Act.exec s with
        | .ok r _ => decide (r.2 = [0])
        | .error _ _ => false) = true) (by decide +kernel)
  obtain ⟨ht, hempty, hws, hlink, hoff, hread⟩ := hs
  cases hrun : (Fs.fileread secondFile 1).run Act.exec s with
  | ok r s' =>
      rw [hrun] at hread
      exact ⟨es, s₀, s, ws, _, _, r, s', h₀, ht, hempty, h, hws, hlink, hoff, hrun,
        of_decide_eq_true hread⟩
  | error r s' =>
      rw [hrun] at hread
      exact absurd hread (by simp)

end Xv6
