import Xv6.Fs.Release

/-!
# Writing to files

`filewrite` writes in pieces, each in a transaction of its own.  `FileWritten` says what the
contents of the file are after some of the pieces.
-/

namespace Xv6

open Lib FsState

variable {mode : Mode} {sb : Superblock} {s s' s₁ s₂ : FsState} {e : InodeId} {f : FileId}
  {p : ProcId} {x m n off : ℕ} {src : ℕ → UInt8}

namespace Grew

lemma mono {w : Option InodeId} (g : Grew none s s') : Grew w s s' :=
  ⟨g.links, g.held, g.shown, g.type, fun e he _ => g.kept e he (by simp), g.cwd⟩

/-- The inode of entry `e` has been written to. -/
lemma of_written (i : Inv sb [] s) (i' : Inv sb [] s') (l : Live s e x) (ed : Edited s e s')
    (r : Rest sb s s' x) : Grew (some e) s s' := by
  have hkept : ∀ e', Held [] s e' → some e' ≠ some e → Kept s s' e' := fun e' he' hne =>
    ed.kept i l r e' he' fun heq => hne (congrArg some heq)
  refine ⟨fun f e' hf => by rw [ed.file]; exact hf, fun e' he' => ?_,
    fun e' _ => ed.shown e', fun e' he' ht => ?_, hkept,
    fun q e' hq => .inl ⟨q, by rw [← ed.proc]; exact hq⟩⟩
  · rwa [Held, ed.file, ed.proc]
  by_cases hne : e' = e
  · rw [hne, l.inum, i'.node_of_live (ed.live l), i.node_of_live l]
    exact ((ed.shown e).valid l.valid).2
  · exact (hkept e' he' fun heq => hne (Option.some.inj heq)).type ht

end Grew

/-- The first `m` of the bytes `src` have been written to inode `x` through file `f`. -/
structure FileWritten (sb : Superblock) (s s' : FsState) (f : FileId) (x m : ℕ) (src : ℕ → UInt8) :
    Prop where
  rest : Rest sb s s' x
  fields : { s'.node x with addrs := (s.node x).addrs, size := (s.node x).size } = s.node x
  size : (s'.node x).size.toNat =
    if m = 0 then (s.node x).size.toNat else max (s.node x).size.toNat ((s.file f).off.toNat + m)
  within : m ≠ 0 → (s.file f).off.toNat ≤ (s.node x).size.toNat
  bytes : Overwritten s s.node x s' s'.node (s.node x).size.toNat (s.file f).off.toNat m src
  off : (s'.file f).off.toNat = (s.file f).off.toNat + m

namespace FileWritten

/-- Nothing has been written. -/
lemma zero (hh : s'.home = s.home) (hoff : (s'.file f).off = (s.file f).off) :
    FileWritten sb s s' f x 0 src := by
  have hnode := node_congr hh
  refine ⟨fun y _ _ => .of_home hh y, by rw [hnode], by rw [hnode, if_pos rfl],
    fun hm => absurd rfl hm, ⟨fun k _ => by rw [hh, hnode], fun o _ => ?_⟩, by
    rw [hoff, Nat.add_zero]⟩
  rw [if_neg (by omega), hh, hnode]

/-- First `m` bytes are written, then `n` more. -/
lemma trans (h₁ : FileWritten sb s s₁ f x m src)
    (h₂ : FileWritten sb s₁ s₂ f x n fun j => src (m + j)) (hm : 0 < m) :
    FileWritten sb s s₂ f x (m + n) src := by
  have hsize₁ := h₁.size
  rw [if_neg (by omega)] at hsize₁
  have hbytes := h₂.bytes
  rw [h₁.off] at hbytes
  refine ⟨fun y hy hne => (h₁.rest y hy hne).trans (h₂.rest y hy hne), ?_, ?_,
    fun _ => h₁.within (by omega), h₁.bytes.trans hbytes (hsize₁ ▸ le_max_left _ _)
    (hsize₁ ▸ le_max_right _ _), by rw [h₂.off, h₁.off, Nat.add_assoc]⟩
  · have hf := h₂.fields
    rw [← h₁.fields, ← hf]
  · have hpos : m + n ≠ 0 := by omega
    rw [h₂.size, h₁.off, hsize₁, if_neg hpos]
    split
    · rename_i hn
      rw [hn, Nat.add_zero]
    · rw [max_assoc, Nat.add_assoc, max_eq_right (by omega : (s.file f).off.toNat + m ≤ _)]

end FileWritten

lemma Written.of_home_left (w : Written sb s₁ s' x off n src) (hh : s₁.home = s.home) :
    Written sb s s' x off n src := by
  have hnode := node_congr hh
  refine ⟨hnode x ▸ w.nodev, fun y hy hne => (SameNode.of_home hh y).trans (w.rest y hy hne),
    hnode x ▸ w.fields, hnode x ▸ w.size, hnode x ▸ w.within, ⟨fun k hk => ?_, fun o ho => ?_⟩⟩
  · rw [← hh, ← hnode] at hk ⊢
    exact w.bytes.slot k hk
  · rw [← hh, ← hnode]
    exact w.bytes.byte o (by rwa [hnode])

/-- One piece, as `writei` writes it; then the offset is moved. -/
lemma FileWritten.of_written (w : Written sb s s₁ x (s.file f).off.toNat m src) (hm : m ≠ 0)
    (hh : s'.home = s₁.home) (hoff : (s'.file f).off = (s.file f).off + UInt32.ofNat m) :
    FileWritten sb s s' f x m src := by
  have hnode := node_congr hh
  have hsize := w.size
  have hlt := (s₁.node x).size.toNat_lt
  have hroom : (s.file f).off.toNat + m < 2 ^ 32 := by
    have := le_max_right (s.node x).size.toNat ((s.file f).off.toNat + m)
    omega
  refine ⟨fun y hy hne => (w.rest y hy hne).of_home_eq hh, by rw [hnode, w.fields],
    by rw [hnode, if_neg hm, hsize], fun _ => w.within, ⟨fun k hk => ?_, fun o ho => ?_⟩, ?_⟩
  · rw [hh, hnode, w.bytes.slot k hk]
  · rw [hh, hnode, w.bytes.byte o ho]
  · rw [hoff, UInt32.toNat_add, UInt32.toNat_ofNat']
    omega

/-- One turn of the loop of `filewrite`: a piece of `m` bytes is written in a transaction. -/
def Fs.filewriteTurn (f : FileId) (ip : InodeId) (src : ℕ → UInt8) (m : ℕ) : Sys ℤ := do
  Fs.beginTrans
  Fs.ilock ip
  let ff ← Fs.getFile f
  let r ← Fs.writei ip src ff.off.toNat m
  if 0 < r then Fs.setFile f { ff.toOpenFile with off := ff.off + UInt32.ofNat r.toNat }
  Fs.iunlock ip
  Fs.commitTrans
  pure r

/-- What follows a turn that has returned `r`. -/
def Fs.filewriteRest (f : FileId) (ip : InodeId) (fuel : ℕ) (src : ℕ → UInt8) (n m : ℕ) (r : ℤ) :
    Sys Bool :=
  if r < 0 then pure false
  else if r ≠ m then Sys.panic "short filewrite"
  else Fs.filewriteLoop f ip fuel (fun j => src (m + j)) (n - m)

/-- The loop of `filewrite` is made of turns. -/
lemma Fs.filewriteLoop_succ {fuel : ℕ} (hn : n ≠ 0) : Fs.filewriteLoop f e (fuel + 1) src n =
    Fs.filewriteTurn f e src (min n Fs.filewriteMax) >>=
      Fs.filewriteRest f e fuel src n (min n Fs.filewriteMax) := by
  rw [Fs.filewriteLoop, if_neg hn, Fs.filewriteTurn]
  simp only [bind_assoc]
  refine bind_congr fun _ => bind_congr fun _ => bind_congr fun ff => bind_congr fun r => ?_
  split <;> simp only [bind_assoc, pure_bind] <;> rfl

/-- From `s` to `s'` no file has been given another inode or other rights. -/
def SameFiles (s s' : FsState) : Prop :=
  ∀ g, (s'.file g).link = (s.file g).link ∧ (s'.file g).writable = (s.file g).writable

lemma SameFiles.trans (h₁ : SameFiles s s₁) (h₂ : SameFiles s₁ s₂) : SameFiles s s₂ := fun g =>
  ⟨(h₂ g).1.trans (h₁ g).1, (h₂ g).2.trans (h₁ g).2⟩

lemma SameFiles.of_eq (h : s'.file = s.file) :
    SameFiles s s' := fun g => by rw [h]; exact ⟨rfl, rfl⟩

/-- What the loop of `filewrite` leaves: some of the bytes are written, all if it says so. -/
structure Progress (sb : Superblock) (s : FsState) (f : FileId) (e : InodeId) (x n : ℕ)
    (src : ℕ → UInt8) (all : Bool) (s' : FsState) : Prop where
  inv : Inv sb [] s'
  grew : Grew (some e) s s'
  files : SameFiles s s'
  file : (s.node x).type ≠ T_DEV → ∃ m ≤ n, FileWritten sb s s' f x m src ∧ (all = true → m = n)
  device : (s.node x).type = T_DEV → s'.home = s.home

namespace Progress

/-- Nothing is written yet. -/
lemma of_home {all : Bool} (i' : Inv sb [] s') (g : Grew none s s') (hf : SameFiles s s')
    (hh : s'.home = s.home) (hoff : (s'.file f).off = (s.file f).off) (hall : all = true → n = 0) :
    Progress sb s f e x n src all s' :=
  ⟨i', g.mono, hf, fun _ => ⟨0, Nat.zero_le n, .zero hh hoff, fun ha => (hall ha).symm⟩,
    fun _ => hh⟩

/-- One iteration before the others. -/
lemma step {all : Bool} (g : Grew (some e) s s₁) (hf : SameFiles s s₁)
    (ht : (s₁.node x).type = (s.node x).type)
    (hfile : (s.node x).type ≠ T_DEV → FileWritten sb s s₁ f x m src)
    (hdev : (s.node x).type = T_DEV → s₁.home = s.home) (hm : 0 < m) (hn : m ≤ n)
    (h : Progress sb s₁ f e x (n - m) (fun j => src (m + j)) all s') :
    Progress sb s f e x n src all s' := by
  refine ⟨h.inv, g.trans h.grew, hf.trans h.files, fun hne => ?_, fun hd => ?_⟩
  · obtain ⟨k, hk, hw, hall⟩ := h.file (by rwa [ht])
    exact ⟨m + k, by omega, (hfile hne).trans hw hm, fun ha => by rw [hall ha]; omega⟩
  · exact (h.device (ht.trans hd)).trans (hdev hd)

end Progress

namespace Safe

/-- The end of one turn of `filewrite`: the offset is moved by what was written. -/
lemma filewriteNext {Q : ℤ → FsState → Prop} {r : ℤ} (i : Inv sb [] s)
    (h : ∀ s', Inv sb [] s' → Grew none s s' → s'.home = s.home → SameFiles s s' →
      (s'.file f).off =
        (if 0 < r then (s.file f).off + UInt32.ofNat r.toNat else (s.file f).off) → Q r s') :
    Safe sb mode (do
      if 0 < r then
        Fs.setFile f { (s.file f).toOpenFile with off := (s.file f).off + UInt32.ofNat r.toNat }
      Fs.iunlock e
      Fs.commitTrans
      Pure.pure r) Q s := by
  have hend : ∀ s₁, Inv sb [] s₁ → Calm s s₁ → SameFiles s s₁ → (s₁.file f).off =
      (if 0 < r then (s.file f).off + UInt32.ofNat r.toNat else (s.file f).off) →
      Safe sb mode (do Fs.iunlock e; Fs.commitTrans; Pure.pure r) Q s₁ := by
    intro s₁ i₁ c₁ hf₁ hoff₁
    refine seq (iunlock_inv i₁ fun s₂ i₂ hs₂ => seq (commitTrans_inv i₂ fun s₃ i₃ w₃ => ?_))
    have k₂ : Keeps [] s₁ s₂ := by
      rw [hs₂]
      exact .setBusy
    have k₃ : Keeps [] s₁ s₃ := k₂.trans w₃.keeps
    refine pure (h s₃ i₃ (Grew.trans (.of_calm c₁) (.of_keeps k₃)) ?_ (hf₁.trans (.of_eq k₃.file))
      ?_)
    · rw [w₃.home, hs₂, setInode_home, c₁.home]
    · rw [k₃.file, hoff₁]
  by_cases hr : 0 < r
  · rw [if_pos hr]
    refine seq (setFile (hend _ (i.setFile_same rfl rfl (i.closed f)) (.setOff f _)
      (fun g => ?_) ?_))
    · by_cases hg : g = f
      · rw [hg, setFile_file_self]
        exact ⟨rfl, rfl⟩
      · rw [setFile_file_of_ne hg]
        exact ⟨rfl, rfl⟩
    · rw [setFile_file_self, if_pos hr]
  · rw [if_neg hr]
    exact hend s i (.refl s) (.of_eq rfl) (by rw [if_neg hr])

/-- One turn writes its bytes, or `writei` has refused to. -/
lemma filewriteTurn {Q : ℤ → FsState → Prop} (i : Inv sb [] s) (hlink : (s.file f).link = some e)
    (hw : (s.file f).writable = true) (l : Live s e x) (hm : m ≠ 0)
    (hstay : ∀ r s', Refused (s.node x) (s.file f).off.toNat m r → Inv sb [] s' → Grew none s s' →
      SameFiles s s' → s'.home = s.home → (r < 0 → (s'.file f).off = (s.file f).off) → Q r s')
    (h : ∀ s', Inv sb [] s' → Grew (some e) s s' → SameFiles s s' →
      (s'.node x).type = (s.node x).type → (s.node x).type ≠ T_DEV →
      FileWritten sb s s' f x m src → Q m s') :
    Safe sb mode (Fs.filewriteTurn f e src m) Q s := by
  rw [Fs.filewriteTurn]
  refine seq (beginTrans_inv i fun s₁ i₁ w₁ => ?_)
  refine seq (ilock i₁ fun s₂ i₂ k₂ hh₂ l₂ _ => seq (getFile ?_))
  have k : Keeps [] s s₂ := Keeps.trans w₁.keeps k₂
  have hh : s₂.home = s.home := hh₂.trans w₁.home
  rw [w₁.inode, l.inum] at l₂
  have hf₂ : s₂.file = s.file := k.file
  have hnode₂ := node_congr hh
  have hg₂ : Grew none s s₂ := .of_keeps k
  have hdir : (s₂.node x).type ≠ T_DIR := by
    rw [hnode₂, i.node_of_live l]
    exact (i.opened f e hlink).2 hw
  refine seq (writei_inv i₂ l₂ (fun hd => absurd hd hdir) (fun r hr => ?_) fun s₃ i₃ ed₃ w₃ => ?_)
  · refine filewriteNext i₂ fun s₄ i₄ g₄ hh₄ hf₄ hoff₄ => ?_
    rw [hf₂, hnode₂] at hr
    refine hstay r s₄ hr i₄ (.trans hg₂ g₄) (.trans (.of_eq hf₂) hf₄) (hh₄.trans hh) fun hneg => ?_
    rw [hoff₄, if_neg (by omega), hf₂]
  · have hpos : 0 < (m : ℤ) := by omega
    rw [← ed₃.file]
    refine filewriteNext i₃ fun s₄ i₄ g₄ hh₄ hf₄ hoff₄ => ?_
    rw [if_pos hpos, ed₃.file, hf₂, Int.toNat_natCast] at hoff₄
    have hg : Grew (some e) s s₄ :=
      (hg₂.mono.trans (.of_written i₂ i₃ l₂ ed₃ w₃.rest)).trans g₄.mono
    have w : Written sb s s₃ x (s.file f).off.toNat m src := by
      rw [← hf₂]
      exact w₃.of_home_left hh
    refine h s₄ i₄ hg (.trans (.of_eq (ed₃.file.trans hf₂)) hf₄) ?_ w.nodev
      (.of_written w hm hh₄ hoff₄)
    rw [node_congr hh₄, ← w.fields]

lemma filewriteLoop {Q : Bool → FsState → Prop} {fuel : ℕ} (i : Inv sb [] s)
    (hlink : (s.file f).link = some e) (hw : (s.file f).writable = true) (l : Live s e x)
    (h : ∀ all s', Progress sb s f e x n src all s' → Q all s') :
    Safe sb mode (Fs.filewriteLoop f e fuel src n) Q s := by
  induction fuel generalizing s src n with
  | zero => exact pure (h _ s (.of_home i (.of_keeps (.refl _ _)) (.of_eq rfl) rfl rfl (by simp)))
  | succ fuel ih =>
      by_cases hn : n = 0
      · rw [Fs.filewriteLoop, if_pos hn]
        exact pure (h _ s (.of_home i (.of_keeps (.refl _ _)) (.of_eq rfl) rfl rfl fun _ => hn))
      rw [Fs.filewriteLoop_succ hn]
      have hmax : 0 < Fs.filewriteMax := by decide
      have hpos : min n Fs.filewriteMax ≠ 0 := by omega
      have hrest : ∀ s₄, Inv sb [] s₄ → Grew (some e) s s₄ → SameFiles s s₄ →
          (s₄.node x).type = (s.node x).type →
          ((s.node x).type ≠ T_DEV → FileWritten sb s s₄ f x (min n Fs.filewriteMax) src) →
          ((s.node x).type = T_DEV → s₄.home = s.home) →
          Safe sb mode (Fs.filewriteLoop f e fuel (fun j => src (min n Fs.filewriteMax + j))
            (n - min n Fs.filewriteMax)) Q s₄ := by
        intro s₄ i₄ g₄ hf₄ ht₄ hfile₄ hdev₄
        have l₄ := i₄.live_of_open (g₄.opened ⟨f, hlink⟩)
        rw [(g₄.shown e (.inr (.inl ⟨f, hlink⟩))).inum, l.inum] at l₄
        exact ih i₄ ((hf₄ f).1.trans hlink) ((hf₄ f).2.trans hw) l₄ fun all s' hp =>
          h all s' (.step g₄ hf₄ ht₄ hfile₄ hdev₄ (by omega) (by omega) hp)
      refine seq (filewriteTurn i hlink hw l hpos (fun r s₄ hr i₄ hg hfiles hh₀ hoff₄ => ?_)
        fun s₄ i₄ hg hfiles ht hnodev hwritten => ?_)
      · rw [Fs.filewriteRest]
        split
        · rename_i hneg
          exact pure (h _ s₄ (.of_home i₄ hg hfiles hh₀ (hoff₄ hneg) (by simp)))
        · rename_i hneg
          have hdev : (s.node x).type = T_DEV := hr.resolve_left fun hno => hneg
            (by rw [hno.1]; decide)
          split
          · exact panic i₄.readAlloc (by decide)
          · exact hrest s₄ i₄ hg.mono hfiles (by rw [node_congr hh₀]) (fun hne => absurd hdev hne)
              fun _ => hh₀
      · rw [Fs.filewriteRest, if_neg (by omega), if_neg (not_not.2 rfl)]
        exact hrest s₄ i₄ hg hfiles ht (fun _ => hwritten) fun hdev => absurd hdev hnodev

lemma filewrite {Q : ℤ → FsState → Prop} {n : ℤ} (i : Inv sb [] s)
    (hcalm : ∀ r s', Inv sb [] s' → Calm s s' → s'.file = s.file → Q r s')
    (h : ∀ e all s', (s.file f).link = some e → (s.file f).writable = true →
      Progress sb s f e (s.inode e).inum n.toNat src all s' →
      Q (if all = true ∧ 0 ≤ n then n else -1) s') :
    Safe sb mode (Fs.filewrite f src n) Q s := by
  refine seq (getFile ?_)
  split
  · exact pure (hcalm _ s i (.refl s) rfl)
  rename_i hw
  rw [Bool.not_eq_false] at hw
  split
  · exact act (a := .pipeio) rfl (hcalm _ _ (i.setOutside _) (.setOutside _) rfl)
  · rename_i e htype hip
    have hlink : (s.file f).link = some e := by rw [File.link, if_pos htype, hip]
    exact seq (filewriteLoop i hlink hw (i.live_of_open ⟨f, hlink⟩) fun all s' hp =>
      pure (h e all s' hlink hw hp))
  · exact panic i.readAlloc (by decide)
  · exact panic i.readAlloc (by decide)

lemma sysWrite {Q : ℤ → FsState → Prop} {fd n : ℤ} (i : Inv sb [] s)
    (hcalm : ∀ r s', Inv sb [] s' → Calm s s' → s'.file = s.file → Q r s')
    (h : ∀ fd' f e all s', (fd'.val : ℤ) = fd → (s.proc p).ofile fd' = some f →
      (s.file f).link = some e → (s.file f).writable = true →
      Progress sb s f e (s.inode e).inum n.toNat src all s' →
      Q (if all = true ∧ 0 ≤ n then n else -1) s') :
    Safe sb mode (Fs.sysWrite p fd src n) Q s :=
  seq (argfd (pure (hcalm _ s i (.refl s) rfl)) fun fd' f hf hfd => filewrite i hcalm
    fun e all s' => h fd' f e all s' hfd hf)

end Safe

end Xv6
