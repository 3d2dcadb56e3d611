import Xv6.Fs.Image
import Mathlib.Data.List.GetD

/-!
# Rules for programs of the file system

`Safe sb mode p Q s` says that running `p` from `s` ends with `Q`, or stops for a reason that is
`Fine`: not because a free block was freed, and without a call of `balloc` from within `readi`.
Runs in which `balloc` returns a block of the log area are cut off there (`guarded`).  At some
actions a monitor looks at the state (`Watched`), and a run that it objects to is not fine either.

What the log area holds changes with every `log_write`; the blocks before it are the `home`
blocks, and the rules speak about these.
-/

namespace Xv6

open Lib

/-- Every valid entry in use of the inode cache has what the disk has for its inode. -/
def FsState.Coherent (s : FsState) : Prop :=
  ∀ e, 0 < (s.inode e).ref → (s.inode e).valid = true →
    (s.inode e).toDInode = dinodeAt s.blk (s.inode e).inum

/-- The inode that a file refers to. -/
def File.link (f : File) : Option InodeId := if f.type = .inode then f.ip else none

/-- The entries that files refer to are in use and valid. -/
def Pinned (s : FsState) : Prop :=
  ∀ f e, (s.file f).link = some e → 0 < (s.inode e).ref ∧ (s.inode e).valid = true

/-- What must hold when an action is performed: a transaction ends with a coherent cache, before and
after its commit, `iput` starts with a coherent cache, `balloc` returns no block of an inode that is
in use, and `ialloc` takes no such inode. -/
def Watched : Act → FsState → Prop
  | .commitTrans, s => s.Coherent ∧ ∀ s', Act.commitTrans.exec s = .ok () s' → s'.Coherent
  | .iputStart _, s => s.Coherent
  | .ballocDone b, s => Pinned s ∧ ∀ e, 0 < (s.inode e).ref → (s.inode e).valid = true →
      ∀ k, slotOf s.blk (s.inode e).toDInode k ≠ b
  | .iallocDone x, s => Pinned s ∧ ∀ e, 0 < (s.inode e).ref → (s.inode e).valid = true →
      (s.inode e).inum ≠ x
  | _, _ => True

/-- How a run is watched: not more than that, or on condition that `balloc` always finds a free
block before the log (`roomy`). -/
inductive Mode
  | lax
  | roomy
deriving DecidableEq

/-- There is a free block before the log. -/
def HasRoom (sb : Superblock) (s : FsState) : Prop := ∃ b < sb.logStart, bitOf sb s.blk b = false

/-- The block is a data block before the log. -/
def InData (sb : Superblock) (b : ℕ) : Prop := sb.dataStart ≤ b ∧ b < sb.logStart

open Classical in
/-- The actions, except that `balloc` may not return a block of the log, and that the monitor
stops the run if it objects.  In a roomy run `balloc` is not called without room, and the monitor
objects if it does not return a data block. -/
noncomputable def guarded (sb : Superblock) (mode : Mode) :
    (a : Act) → EStateM Stop FsState a.Result
  | .ballocEnter, s =>
      if mode = .roomy ∧ ¬ HasRoom sb s then .error .sleep s else Act.ballocEnter.exec s
  | .ballocDone b, s =>
      if b < s.log.start ∧ (mode = .roomy → InData sb b) then
        if Watched (.ballocDone b) s then (Act.ballocDone b).exec s
        else .error (.panic "monitor") s
      else if mode = .roomy then .error (.panic "monitor") s
      else .error .sleep s
  | .iallocDone x, s =>
      if Watched (.iallocDone x) s then (Act.iallocDone x).exec s else .error (.panic "monitor") s
  | .commitTrans, s =>
      if Watched .commitTrans s then Act.commitTrans.exec s else .error (.panic "monitor") s
  | .iputStart e, s =>
      if Watched (.iputStart e) s then (Act.iputStart e).exec s else .error (.panic "monitor") s
  | a, s => a.exec s

/-- The panics that are not allowed. -/
def badPanics : List String := ["freeing free block", "monitor"]

/-- The stops that are allowed. -/
def Fine (e : Stop) (s : FsState) : Prop :=
  (∀ msg ∈ badPanics, e ≠ .panic msg) ∧ s.seen.readAlloc = false

variable {sb : Superblock} {mode : Mode}

lemma fine_panic {msg : String} {s : FsState} (hmsg : msg ∉ badPanics)
    (hr : s.seen.readAlloc = false) : Fine (.panic msg) s := by
  refine ⟨fun msg' hmem heq => ?_, hr⟩
  obtain rfl := Stop.panic.inj heq
  exact hmsg hmem

lemma fine_sleep {s : FsState} (hr : s.seen.readAlloc = false) : Fine .sleep s :=
  ⟨fun _ _ => by simp, hr⟩

/-- Running `p` from `s` ends in `Q` or stops for a fine reason. -/
def Safe (sb : Superblock) (mode : Mode) {α : Type} (p : Sys α) (Q : α → FsState → Prop)
    (s : FsState) : Prop :=
  Wp (p.run (guarded sb mode)) Q Fine s

/-- The blocks before `start`, with nothing behind. -/
def homeOf (start : ℕ) (blk : ℕ → Block) (c : ℕ) : Block := if c < start then blk c else fun _ => 0

lemma homeOf_update {start b : ℕ} {blk : ℕ → Block} {d : Block} (hb : b < start) :
    homeOf start (Function.update blk b d) = Function.update (homeOf start blk) b d := by
  funext c
  by_cases hc : c = b
  · subst hc
    rw [homeOf, if_pos hb, Function.update_self, Function.update_self]
  · rw [homeOf, Function.update_of_ne hc, Function.update_of_ne hc, homeOf]

lemma homeOf_update_of_le {start b : ℕ} {blk : ℕ → Block} {d : Block} (hb : start ≤ b) :
    homeOf start (Function.update blk b d) = homeOf start blk := by
  funext c
  rw [homeOf, homeOf]
  split
  · rw [Function.update_of_ne (by omega)]
  · rfl

namespace FsState

/-- The contents of the blocks before the log area. -/
def home (s : FsState) : ℕ → Block := homeOf s.log.start s.blk

/-- Replace the list of busy buffers. -/
def setHeld (s : FsState) (l : List ℕ) : FsState := { s with held := l }

/-- Replace the contents of a block. -/
def setBlk (s : FsState) (b : ℕ) (d : Block) : FsState :=
  { s with blk := Function.update s.blk b d }

variable {s : FsState} {l l' : List ℕ} {b c : ℕ} {d : Block} {e e' : InodeId} {v : Inode}

@[simp] lemma setHeld_home : (s.setHeld l).home = s.home := rfl
@[simp] lemma setHeld_blk : (s.setHeld l).blk = s.blk := rfl
@[simp] lemma setHeld_held : (s.setHeld l).held = l := rfl
@[simp] lemma setHeld_log : (s.setHeld l).log = s.log := rfl
@[simp] lemma setHeld_inode : (s.setHeld l).inode = s.inode := rfl
@[simp] lemma setHeld_file : (s.setHeld l).file = s.file := rfl
@[simp] lemma setHeld_proc : (s.setHeld l).proc = s.proc := rfl
@[simp] lemma setHeld_seen : (s.setHeld l).seen = s.seen := rfl
@[simp] lemma setHeld_setHeld : (s.setHeld l).setHeld l' = s.setHeld l' := rfl
@[simp] lemma setHeld_self : s.setHeld s.held = s := rfl

@[simp] lemma setInode_home : (s.setInode e v).home = s.home := rfl
@[simp] lemma setInode_blk : (s.setInode e v).blk = s.blk := rfl
@[simp] lemma setInode_held : (s.setInode e v).held = s.held := rfl
@[simp] lemma setInode_log : (s.setInode e v).log = s.log := rfl
@[simp] lemma setInode_file : (s.setInode e v).file = s.file := rfl
@[simp] lemma setInode_proc : (s.setInode e v).proc = s.proc := rfl
@[simp] lemma setInode_seen : (s.setInode e v).seen = s.seen := rfl

@[simp] lemma setInode_inode_self : (s.setInode e v).inode e = v := by
  simp [setInode]

lemma setInode_inode_of_ne (h : e' ≠ e) : (s.setInode e v).inode e' = s.inode e' := by
  simp [setInode, h]

lemma home_of_lt (h : c < s.log.start) : s.home c = s.blk c := if_pos h

end FsState

/-- Between log writes every logged block has its contents in the log, and its home is not in
the log area. -/
structure Journaled (blk : ℕ → Block) (log : Journal) : Prop where
  sync : ∀ i < log.sectors.length, blk (log.start + i + 1) = blk (log.sectors.getD i 0)
  home : ∀ c ∈ log.sectors, c < log.start
  nodup : log.sectors.Nodup
  idle : log.busy = false → log.sectors = []

/-- From `s` to `s'` only blocks have been written; the home blocks are now `h`. -/
structure Wrote (s : FsState) (h : ℕ → Block) (s' : FsState) : Prop where
  home : s'.home = h
  journal : Journaled s'.blk s'.log
  start : s'.log.start = s.log.start
  inode : s'.inode = s.inode
  file : s'.file = s.file
  proc : s'.proc = s.proc
  held : s'.held = s.held
  reading : s'.seen.reading = s.seen.reading
  readAlloc : s'.seen.readAlloc = s.seen.readAlloc

lemma Pinned.wrote {s s' : FsState} {h : ℕ → Block} (hp : Pinned s) (w : Wrote s h s') :
    Pinned s' := by
  rw [Pinned, w.file, w.inode]
  exact hp

namespace Wrote

variable {s s₁ s₂ : FsState} {h h₁ h₂ : ℕ → Block}

lemma refl (hj : Journaled s.blk s.log) :
    Wrote s s.home s := ⟨rfl, hj, rfl, rfl, rfl, rfl, rfl, rfl, rfl⟩

lemma trans (w₁ : Wrote s h₁ s₁) (w₂ : Wrote s₁ h₂ s₂) : Wrote s h₂ s₂ :=
  ⟨w₂.home, w₂.journal, w₂.start.trans w₁.start, w₂.inode.trans w₁.inode, w₂.file.trans w₁.file,
    w₂.proc.trans w₁.proc, w₂.held.trans w₁.held, w₂.reading.trans w₁.reading,
    w₂.readAlloc.trans w₁.readAlloc⟩

end Wrote

/-! ## Rules -/

namespace Safe

open FsState

variable {α β : Type} {p : Sys α} {f : α → Sys β} {Q Q' : α → FsState → Prop}
  {P : β → FsState → Prop} {s s' : FsState} {b : ℕ} {d : Block} {e : InodeId}

lemma pure {a : α} (h : Q a s) : Safe sb mode (Pure.pure a) Q s := h

lemma seq (h : Safe sb mode p (fun a s' => Safe sb mode (f a) P s') s) :
    Safe sb mode (p >>= f) P s := Wp.of_seq h

lemma mono (h : Safe sb mode p Q s) (hQ : ∀ a s', Q a s' → Q' a s') : Safe sb mode p Q' s :=
  Wp.mono h hQ fun _ _ he => he

/-- Use the specification of the first program. -/
lemma call (h : Safe sb mode p Q s) (hf : ∀ a s', Q a s' → Safe sb mode (f a) P s') :
    Safe sb mode (p >>= f) P s :=
  seq (h.mono hf)

lemma panic {msg : String} (hr : s.seen.readAlloc = false) (hmsg : msg ∉ badPanics) :
    Safe sb mode (Sys.panic msg : Sys α) Q s := fine_panic hmsg hr

/-- An action that returns. -/
lemma act {a : Act} {r : a.Result} {Q : a.Result → FsState → Prop}
    (hx : guarded sb mode a s = .ok r s') (h : Q r s') : Safe sb mode (Sys.act a) Q s :=
  Wp.of_perform (Wp.of_ok hx h)

lemma act_stop {a : Act} {Q : a.Result → FsState → Prop} {r : Stop}
    (hx : guarded sb mode a s = .error r s') (h : Fine r s') : Safe sb mode (Sys.act a) Q s :=
  Wp.of_perform (Wp.of_error hx h)

lemma act_panic {a : Act} {Q : a.Result → FsState → Prop} (msg : String)
    (hx : guarded sb mode a s = .error (.panic msg) s) (hr : s.seen.readAlloc = false)
    (hmsg : msg ∉ badPanics) : Safe sb mode (Sys.act a) Q s :=
  act_stop hx (fine_panic hmsg hr)

lemma act_sleep {a : Act} {Q : a.Result → FsState → Prop}
    (hx : guarded sb mode a s = .error .sleep s) (hr : s.seen.readAlloc = false) :
    Safe sb mode (Sys.act a) Q s :=
  act_stop hx (fine_sleep hr)

/-- `bread` never stops for a bad reason. -/
lemma breadStop_fine {r : Stop} (hr : s.seen.readAlloc = false) (h : s.breadStop b = some r) :
    Fine r s := by
  unfold breadStop at h
  split_ifs at h
  · obtain rfl := Option.some.inj h
    exact fine_sleep hr
  · obtain rfl := Option.some.inj h
    exact fine_panic (by decide) hr
  · obtain rfl := Option.some.inj h
    exact fine_panic (by decide) hr

lemma bread {Q : ℕ → FsState → Prop} (hr : s.seen.readAlloc = false)
    (h : b ∉ s.held → Q b (s.setHeld (b :: s.held))) : Safe sb mode (Fs.bread ROOTDEV b) Q s := by
  rw [Fs.bread, if_neg (by simp)]
  apply seq
  cases hx : s.breadStop b with
  | some r =>
      exact act_stop (a := .bread b) (by simp [guarded, Act.exec, hx]) (breadStop_fine hr hx)
  | none =>
      have hexec : guarded sb mode (.bread b) s = .ok () (s.setHeld (b :: s.held)) := by
        simp [guarded, Act.exec, hx, setHeld]
      refine act hexec (h fun hmem => ?_)
      simp [breadStop, hmem] at hx

lemma data {Q : Block → FsState → Prop} (h : Q (s.blk b) s) : Safe sb mode (Fs.data b) Q s :=
  act (a := .data b) rfl h

lemma setData {Q : Unit → FsState → Prop} (h : Q () (s.setBlk b d)) :
    Safe sb mode (Fs.setData b d) Q s :=
  act (a := .setData b d) rfl h

lemma brelse {Q : Unit → FsState → Prop} (hb : b ∈ s.held)
    (h : Q () (s.setHeld (s.held.erase b))) : Safe sb mode (Fs.brelse b) Q s := by
  have hexec : guarded sb mode (.brelse b) s = .ok () (s.setHeld (s.held.erase b)) := by
    simp [guarded, Act.exec, hb, setHeld]
  exact act hexec h

/-- `brelse` of a buffer that may not be busy. -/
lemma brelse_any {Q : Unit → FsState → Prop} (hr : s.seen.readAlloc = false)
    (h : Q () (s.setHeld (s.held.erase b))) : Safe sb mode (Fs.brelse b) Q s := by
  by_cases hb : b ∈ s.held
  · exact brelse hb h
  · exact act_panic "brelse" (by simp [guarded, Act.exec, hb]) hr (by decide)

lemma getInode {Q : Inode → FsState → Prop} (h : Q (s.inode e) s) :
    Safe sb mode (Fs.getInode e) Q s :=
  act (a := .getInode e) rfl h

lemma setInode {Q : Unit → FsState → Prop} {v : DInode}
    (h : Q () (s.setInode e { s.inode e with toDInode := v })) :
    Safe sb mode (Fs.setInode e v) Q s :=
  act (a := .setInode e v) rfl h

end Safe

/-! ## Transactions -/

open FsState

variable {s s' : FsState} {blk : ℕ → Block} {log : Journal} {b : ℕ} {d : Block}

/-- A block is logged at the position of its number, or after all others. -/
lemma Journaled.logged (hj : Journaled blk log) (hb : b < log.start) :
    Journaled (Function.update (Function.update blk b d) (log.start + log.sectors.idxOf b + 1) d)
      { log with
        busy := true
        sectors := if b ∈ log.sectors then log.sectors else log.sectors ++ [b] } := by
  -- the other positions: their copy and their home are as before
  have hother : ∀ i < log.sectors.length, i ≠ log.sectors.idxOf b →
      Function.update (Function.update blk b d) (log.start + log.sectors.idxOf b + 1) d
        (log.start + i + 1) =
      Function.update (Function.update blk b d) (log.start + log.sectors.idxOf b + 1) d
        (log.sectors.getD i 0) := by
    intro i hi hne
    have hget := List.getD_eq_getElem log.sectors 0 hi
    have hhome : log.sectors.getD i 0 < log.start :=
      hj.home _ (by rw [hget]; exact List.getElem_mem hi)
    have hnb : log.sectors.getD i 0 ≠ b := by
      rintro rfl
      rw [hget] at hne
      exact hne (hj.nodup.idxOf_getElem i hi).symm
    rw [Function.update_of_ne (by omega), Function.update_of_ne (by omega),
      Function.update_of_ne (by omega), Function.update_of_ne hnb]
    exact hj.sync i hi
  have hself : Function.update (Function.update blk b d)
      (log.start + log.sectors.idxOf b + 1) d b = d := by
    rw [Function.update_of_ne (by omega), Function.update_self]
  by_cases hmem : b ∈ log.sectors
  · simp only [if_pos hmem]
    refine ⟨fun i hi => ?_, hj.home, hj.nodup, by simp⟩
    dsimp only at hi ⊢
    by_cases hne : i = log.sectors.idxOf b
    · have hget : log.sectors.getD i 0 = b := by
        rw [List.getD_eq_getElem _ _ hi]
        simp only [hne, List.getElem_idxOf]
      rw [hget, hself, hne, Function.update_self]
    · exact hother i hi hne
  · simp only [if_neg hmem]
    have hidx : log.sectors.idxOf b = log.sectors.length := List.idxOf_eq_length hmem
    refine ⟨fun i hi => ?_, fun c hc => ?_, ?_, by simp⟩
    · simp only [List.length_append, List.length_cons, List.length_nil] at hi ⊢
      by_cases hne : i = log.sectors.length
      · have hget : (log.sectors ++ [b]).getD i 0 = b := by simp [hne]
        rw [hget, hself, hne, hidx, Function.update_self]
      · have hlt : i < log.sectors.length := by omega
        have hget : (log.sectors ++ [b]).getD i 0 = log.sectors.getD i 0 := by
          simp [List.getD_eq_getElem?_getD, List.getElem?_append_left hlt]
        rw [hget]
        exact hother i hlt (by omega)
    · rcases List.mem_append.1 hc with hc | hc
      · exact hj.home c hc
      · rw [List.mem_singleton.1 hc]
        exact hb
    · rw [List.nodup_append]
      refine ⟨hj.nodup, by simp, ?_⟩
      rintro c hc _ hb' rfl
      rw [List.mem_singleton.1 hb'] at hc
      exact hmem hc

/-- The state after block `b` has been given the contents `d` and logged. -/
def FsState.logged (s : FsState) (b : ℕ) (d : Block) : FsState :=
  { s with
    blk := Function.update (Function.update s.blk b d)
      (s.log.start + s.log.sectors.idxOf b + 1) d
    log := { s.log with
      busy := true
      sectors := if b ∈ s.log.sectors then s.log.sectors else s.log.sectors ++ [b] } }

lemma Wrote.logged (hj : Journaled s.blk s.log) (hb : b < s.log.start) :
    Wrote s (Function.update s.home b d) (s.logged b d) := by
  refine ⟨?_, hj.logged hb, rfl, rfl, rfl, rfl, rfl, rfl, rfl⟩
  change homeOf s.log.start (Function.update (Function.update s.blk b d) _ d) = _
  rw [homeOf_update_of_le (by omega), homeOf_update hb]
  rfl

/-- Installing blocks whose logged copies agree with them changes nothing. -/
lemma install_eq_self {start : ℕ} {sectors : List ℕ}
    (h : ∀ i < sectors.length, blk (start + i + 1) = blk (sectors.getD i 0)) :
    install start sectors blk = blk := by
  suffices hl : ∀ l : List ℕ, (∀ i ∈ l, i < sectors.length) →
      l.foldl (fun blk i => Function.update blk (sectors.getD i 0) (blk (start + i + 1))) blk =
        blk from hl _ fun i hi => List.mem_range.1 hi
  intro l
  induction l with
  | nil => exact fun _ => rfl
  | cons i l ih =>
      intro hl
      rw [List.foldl_cons, h i (hl i (by simp)), Function.update_eq_self]
      exact ih fun j hj => hl j (List.mem_cons_of_mem i hj)

/-- A commit leaves the home blocks as they are. -/
lemma Wrote.committed (hj : Journaled s.blk s.log) :
    Wrote s s.home { s with
      blk := s.commitBlk, log := { s.log with sectors := [], busy := false } } := by
  refine ⟨?_, ⟨by simp, by simp, by simp, fun _ => rfl⟩, rfl, rfl, rfl, rfl, rfl, rfl, rfl⟩
  change homeOf s.log.start s.commitBlk = _
  -- neither the copies nor the homes are in the header block
  have hsync : ∀ i < s.log.sectors.length,
      Function.update s.blk s.log.start (s.header.encode (s.blk s.log.start))
        (s.log.start + i + 1) =
      Function.update s.blk s.log.start (s.header.encode (s.blk s.log.start))
        (s.log.sectors.getD i 0) := by
    intro i hi
    have hhome : s.log.sectors.getD i 0 < s.log.start := by
      refine hj.home _ ?_
      rw [List.getD_eq_getElem _ _ hi]
      exact List.getElem_mem hi
    rw [Function.update_of_ne (by omega), Function.update_of_ne (by omega)]
    exact hj.sync i hi
  rw [commitBlk, install_eq_self hsync, homeOf_update_of_le le_rfl, homeOf_update_of_le le_rfl]
  rfl

namespace Safe

/-- A log write that returns has logged the block as it is. -/
lemma logWrite_of {Q : Unit → FsState → Prop} (hr : s.seen.readAlloc = false)
    (h : Q () (s.logged b (s.blk b))) : Safe sb mode (Fs.logWrite b) Q s := by
  by_cases hbig : LOGSIZE ≤ s.log.sectors.length ∨ s.log.size ≤ s.log.sectors.length + 1
  · exact act_panic "too big a transaction" (by simp [guarded, Act.exec, hbig]) hr (by decide)
  by_cases hbusy : s.log.busy = false
  · exact act_panic "write outside of trans" (by simp [guarded, Act.exec, hbig, hbusy]) hr
      (by decide)
  cases hx : s.breadStop (s.log.start + s.log.sectors.idxOf b + 1) with
  | some r =>
      exact act_stop (a := .logWrite b) (by simp [guarded, Act.exec, hbig, hbusy, hx])
        (breadStop_fine hr hx)
  | none =>
      have hexec : guarded sb mode (.logWrite b) s = .ok () (s.logged b (s.blk b)) := by
        have hbusy' : s.log.busy = true := by simpa using hbusy
        simp [guarded, Act.exec, hbig, hbusy', hx, FsState.logged]
      exact act hexec h

/-- A block is changed and logged. -/
lemma logWrite {Q : Unit → FsState → Prop} (hj : Journaled s.blk s.log)
    (hr : s.seen.readAlloc = false) (hb : b < s.log.start)
    (h : ∀ s', Wrote s (Function.update s.home b d) s' → Q () s') :
    Safe sb mode (Fs.logWrite b) Q (s.setBlk b d) := by
  refine logWrite_of hr ?_
  have heq : (s.setBlk b d).logged b ((s.setBlk b d).blk b) = s.logged b d := by
    simp [FsState.logged, setBlk]
    rfl
  rw [heq]
  exact h _ (.logged hj hb)

lemma beginTrans {Q : Unit → FsState → Prop} (hj : Journaled s.blk s.log)
    (hr : s.seen.readAlloc = false) (h : ∀ s', Wrote s s.home s' → Q () s') :
    Safe sb mode Fs.beginTrans Q s := by
  by_cases hbusy : s.log.busy = true
  · have hexec : guarded sb mode .beginTrans s = .error .sleep s := by
      simp [guarded, Act.exec, hbusy]
    exact act_sleep hexec hr
  · have hexec : guarded sb mode .beginTrans s =
      .ok () { s with log := { s.log with busy := true } } := by
      simp [guarded, Act.exec, hbusy]
    exact act hexec (h _ ⟨rfl, ⟨hj.sync, hj.home, hj.nodup, by simp⟩, rfl, rfl, rfl, rfl, rfl, rfl,
      rfl⟩)

/-- A commit writes to the log area only. -/
lemma wrote_of_commitTrans (hj : Journaled s.blk s.log)
    (hx : Act.commitTrans.exec s = .ok () s') : Wrote s s.home s' := by
  simp only [Act.exec] at hx
  split at hx
  · rename_i hnil
    obtain rfl := (EStateM.Result.ok.inj hx).2
    exact ⟨rfl, ⟨hj.sync, hj.home, hj.nodup, fun _ => hnil⟩, rfl, rfl, rfl, rfl, rfl, rfl, rfl⟩
  · split at hx
    · exact absurd hx (by simp)
    · split at hx
      · exact absurd hx (by simp)
      · obtain rfl := (EStateM.Result.ok.inj hx).2
        exact .committed hj

lemma commitTrans {Q : Unit → FsState → Prop} (hj : Journaled s.blk s.log)
    (hr : s.seen.readAlloc = false) (hw : Watched .commitTrans s)
    (h : ∀ s', Wrote s s.home s' → Q () s') : Safe sb mode Fs.commitTrans Q s := by
  have hwatch : guarded sb mode .commitTrans s = Act.commitTrans.exec s := if_pos hw
  cases hx : Act.commitTrans.exec s with
  | ok r s' => exact act (hwatch.trans hx) (h s' (wrote_of_commitTrans hj hx))
  | error r s' =>
      refine act_stop (a := .commitTrans) (hwatch.trans hx) ?_
      simp only [Act.exec] at hx
      split at hx
      · exact absurd hx (by simp)
      split at hx
      · obtain ⟨rfl, rfl⟩ := EStateM.Result.error.inj hx
        exact fine_sleep hr
      · split at hx
        · rename_i hstop
          obtain ⟨rfl, rfl⟩ := EStateM.Result.error.inj hx
          exact breadStop_fine hr hstop
        · exact absurd hx (by simp)

end Safe

end Xv6
