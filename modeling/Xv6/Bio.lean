import Xv6.Param
import Xv6.Lib.Bytes
import Xv6.Lib.Wp
import Xv6.Lib.Writes

/-!
# The buffer cache (`bio.c`) over an in-memory disk (`memide.c`)

The disk is a function from sector numbers to blocks.  Every sector write goes through
`iderw`, which performs it at once; `writes` records them in order, so that a crash after
some of them is a prefix of that list.  The buffers are the array `bcache.buf`, and the
linked list through `prev` and `next` is the list `lru` of their indices, most recently
released first.
-/

namespace Xv6

open Lib

/-- The contents of a sector. -/
abbrev Block : Type := Bytes BSIZE

/-- How a kernel function ends when it does not return: `panic` freezes the machine, and a
`sleep` lasts for ever when no other process runs. -/
inductive Stop
  | panic (msg : String)
  | sleep
deriving DecidableEq, Repr

/-- A buffer of the cache: the flags `B_BUSY`, `B_VALID` and `B_DIRTY`, and the fields. -/
structure Buf where
  busy : Bool
  valid : Bool
  dirty : Bool
  dev : ℕ
  sector : ℕ
  data : Block

/-- The index of a buffer in `bcache.buf`. -/
abbrev BufId : Type := Fin NBUF

/-- `struct logheader`. -/
structure LogHeader where
  n : ℤ
  sector : ℕ → ℕ

/-- `struct log`, without its spin lock. -/
structure Log where
  start : ℕ
  size : ℕ
  busy : Bool
  dev : ℕ
  lh : LogHeader

/-- The disk, the sector writes that have reached it, the buffer cache and the log. -/
structure BlockState where
  disk : ℕ → Block
  disksize : ℕ
  writes : List (ℕ × Block)
  buf : BufId → Buf
  lru : List BufId
  log : Log

/-- Code that runs on the block layer. -/
abbrev Blk (α : Type) : Type := EStateM Stop BlockState α

/-- Stop the machine with a message. -/
def panic {α : Type} (msg : String) : Blk α := fun k => .error (.panic msg) k

namespace BlockState

/-- Replace buffer `i`. -/
def setBuf (k : BlockState) (i : BufId) (b : Buf) : BlockState :=
  { k with buf := Function.update k.buf i b }

/-- Write a block to a sector of the disk. -/
def diskWrite (k : BlockState) (s : ℕ) (d : Block) : BlockState :=
  { k with disk := Function.update k.disk s d, writes := k.writes ++ [(s, d)] }

end BlockState

/-! ## The disk driver -/

/-- Sync a buffer with the disk.  If it is dirty, write it, clear the flag and set valid.
Else if it is not valid, read it and set valid. -/
def iderw (i : BufId) : Blk Unit := fun k =>
  let b := k.buf i
  if b.busy = false then panic "iderw: buf not busy" k
  else if b.valid = true ∧ b.dirty = false then panic "iderw: nothing to do" k
  else if b.dev ≠ 1 then panic "iderw: request not for disk 1" k
  else if k.disksize ≤ b.sector then panic "iderw: sector out of range" k
  else if b.dirty = true then
    .ok () ((k.setBuf i { b with dirty := false, valid := true }).diskWrite b.sector b.data)
  else
    .ok () (k.setBuf i { b with data := k.disk b.sector, valid := true })

/-! ## The buffer cache -/

/-- Buffers and list as `binit` leaves them: every buffer unused (`dev` is `-1`), and each
one inserted in front of those before it. -/
def binitBuf (blank : Block) : Buf :=
  { busy := false, valid := false, dirty := false, dev := 2 ^ 32 - 1, sector := 0, data := blank }

/-- The list that `binit` builds. -/
def binitLru : List BufId := (List.finRange NBUF).reverse

/-- Is this the buffer of the sector? -/
def Buf.holds (b : Buf) (dev sector : ℕ) : Bool := b.dev == dev && b.sector == sector

/-- Look through the buffer cache for the sector; if it is not there, recycle the least
recently used buffer that is neither busy nor dirty.  The buffer returned is busy. -/
def bget (dev sector : ℕ) : Blk BufId := fun k =>
  match k.lru.find? (fun i => (k.buf i).holds dev sector) with
  | some i =>
      if (k.buf i).busy = true then .error .sleep k
      else .ok i (k.setBuf i { k.buf i with busy := true })
  | none =>
      match k.lru.reverse.find? (fun i => !(k.buf i).busy && !(k.buf i).dirty) with
      | some i =>
          .ok i (k.setBuf i { k.buf i with
            dev := dev, sector := sector, busy := true, valid := false, dirty := false })
      | none => panic "bget: no buffers" k

/-- Return a busy buffer with the contents of the sector. -/
def bread (dev sector : ℕ) : Blk BufId := do
  let i ← bget dev sector
  let k ← get
  if (k.buf i).valid = false then iderw i
  pure i

/-- Write a buffer's contents to disk.  It must be busy. -/
def bwrite (i : BufId) : Blk Unit := fun k =>
  if (k.buf i).busy = false then panic "bwrite" k
  else iderw i (k.setBuf i { k.buf i with dirty := true })

/-- Release a busy buffer and move it to the head of the list. -/
def brelse (i : BufId) : Blk Unit := fun k =>
  if (k.buf i).busy = false then panic "brelse" k
  else .ok () { k.setBuf i { k.buf i with busy := false } with lru := i :: k.lru.erase i }

/-- Change the data of a buffer that the caller holds. -/
def setData (i : BufId) (d : Block) : Blk Unit := fun k =>
  .ok () (k.setBuf i { k.buf i with data := d })

/-! ## Coherence of the cache -/

section Coherence

variable {k k' : BlockState} {i j : BufId} {b : Buf} {s : ℕ} {d : Block}

lemma Buf.holds_iff {dev sector : ℕ} :
    b.holds dev sector = true ↔ b.dev = dev ∧ b.sector = sector := by
  simp [Buf.holds]

namespace BlockState

@[simp] lemma setBuf_buf_self : (k.setBuf i b).buf i = b := by
  simp [setBuf]

lemma setBuf_buf_of_ne (h : j ≠ i) : (k.setBuf i b).buf j = k.buf j := by
  simp [setBuf, h]

@[simp] lemma setBuf_disk : (k.setBuf i b).disk = k.disk := rfl
@[simp] lemma setBuf_disksize : (k.setBuf i b).disksize = k.disksize := rfl
@[simp] lemma setBuf_writes : (k.setBuf i b).writes = k.writes := rfl
@[simp] lemma setBuf_log : (k.setBuf i b).log = k.log := rfl

@[simp] lemma diskWrite_disk : (k.diskWrite s d).disk = Function.update k.disk s d := rfl
@[simp] lemma diskWrite_buf : (k.diskWrite s d).buf = k.buf := rfl

end BlockState

open BlockState

/-- What `bio.c` keeps true of the cache between its calls: every buffer is on the list, a
buffer in use is valid and the only one of its sector, and unless it is dirty or somebody
holds it, it agrees with the disk. -/
structure Coherent (k : BlockState) : Prop where
  mem_lru : ∀ i, i ∈ k.lru
  inUse : ∀ i, (k.buf i).dev = 1 → (k.buf i).valid = true ∧ (k.buf i).sector < k.disksize
  unused : ∀ i, (k.buf i).dev ≠ 1 → (k.buf i).dirty = false ∧ (k.buf i).busy = false
  uniq : ∀ i j, (k.buf i).dev = 1 → (k.buf j).dev = 1 → (k.buf i).sector = (k.buf j).sector →
    i = j
  clean : ∀ i, (k.buf i).dev = 1 → (k.buf i).dirty = false → (k.buf i).busy = false →
    (k.buf i).data = k.disk (k.buf i).sector

/-- Replacing one buffer keeps the cache coherent if the new buffer is in order and no other
buffer is of its sector. -/
lemma Coherent.setBuf (h : Coherent k) (hdev : b.dev = 1) (hvalid : b.valid = true)
    (hsec : b.sector < k.disksize)
    (huniq : ∀ j, j ≠ i → (k.buf j).dev = 1 → (k.buf j).sector ≠ b.sector)
    (hclean : b.dirty = false → b.busy = false → b.data = k.disk b.sector) :
    Coherent (k.setBuf i b) := by
  refine ⟨h.mem_lru, ?_, ?_, ?_, ?_⟩
  · intro j hj
    by_cases hji : j = i
    · subst hji
      simpa using ⟨hvalid, hsec⟩
    · rw [setBuf_buf_of_ne hji] at hj ⊢
      exact h.inUse j hj
  · intro j hj
    by_cases hji : j = i
    · subst hji
      exact absurd hdev (by simpa using hj)
    · rw [setBuf_buf_of_ne hji] at hj ⊢
      exact h.unused j hj
  · intro j l hj hl hjl
    by_cases hji : j = i
    · by_cases hli : l = i
      · rw [hji, hli]
      · subst hji
        rw [setBuf_buf_of_ne hli] at hl hjl
        exact absurd hjl.symm (by simpa using huniq l hli hl)
    · rw [setBuf_buf_of_ne hji] at hj hjl
      by_cases hli : l = i
      · subst hli
        exact absurd hjl (by simpa using huniq j hji hj)
      · rw [setBuf_buf_of_ne hli] at hl hjl
        exact h.uniq j l hj hl hjl
  · intro j hj hjd hjb
    by_cases hji : j = i
    · subst hji
      rw [setBuf_buf_self] at hjd hjb ⊢
      exact hclean hjd hjb
    · rw [setBuf_buf_of_ne hji] at hj hjd hjb ⊢
      exact h.clean j hj hjd hjb

/-- No other buffer has the sector of a buffer in use. -/
lemma Coherent.sector_ne (h : Coherent k) (hi : (k.buf i).dev = 1) (hji : j ≠ i)
    (hj : (k.buf j).dev = 1) : (k.buf j).sector ≠ (k.buf i).sector :=
  fun hs => hji (h.uniq j i hj hi hs)

/-- `bread` of sector `s` has turned `k` into `k'` and returned buffer `i`. -/
structure Bread (k : BlockState) (s : ℕ) (i : BufId) (k' : BlockState) : Prop where
  coh : Coherent k'
  frame : k' = k.setBuf i (k'.buf i)
  idle : (k.buf i).busy = false
  busy : (k'.buf i).busy = true
  dev : (k'.buf i).dev = 1
  sector : (k'.buf i).sector = s
  dirty : (k'.buf i).dirty = (k.buf i).dirty
  hit : (k.buf i).dirty = true → (k.buf i).dev = 1 ∧ (k.buf i).sector = s ∧
    (k'.buf i).data = (k.buf i).data
  clean : (k'.buf i).dirty = false → (k'.buf i).data = k.disk s

/-- Why a `bread` can fail to return. -/
def BreadStuck (k : BlockState) (s : ℕ) : Prop :=
  (∀ j, (k.buf j).busy = true ∨ (k.buf j).dirty = true) ∨
    (∃ j, (k.buf j).dev = 1 ∧ (k.buf j).sector = s ∧ (k.buf j).busy = true) ∨ k.disksize ≤ s

lemma bread_of_hit (h : Coherent k) (hd : (k.buf i).dev = 1) (hs : (k.buf i).sector = s)
    (hb : (k.buf i).busy = false) : Bread k s i (k.setBuf i { k.buf i with busy := true }) := by
  refine ⟨h.setBuf hd (h.inUse i hd).1 (h.inUse i hd).2 (fun j hji => h.sector_ne hd hji) ?_,
    by simp, hb, by simp, by simpa using hd, by simpa using hs, by simp, ?_, ?_⟩
  · intro _ hbusy
    exact absurd hbusy (by simp)
  · intro _
    exact ⟨hd, hs, by simp⟩
  · intro hdirty
    have hdirty' : (k.buf i).dirty = false := by simpa using hdirty
    simpa [hs] using h.clean i hd hdirty' hb

lemma bread_of_miss (h : Coherent k) (hs : s < k.disksize)
    (hmiss : ∀ j, (k.buf j).dev = 1 → (k.buf j).sector ≠ s) (hb : (k.buf i).busy = false)
    (hdirty : (k.buf i).dirty = false) :
    Bread k s i (k.setBuf i ⟨true, true, false, 1, s, k.disk s⟩) := by
  refine ⟨h.setBuf rfl rfl hs (fun j _ hj => hmiss j hj) (fun _ hbusy => absurd hbusy (by simp)),
    by simp, hb, by simp, by simp, by simp, by simp [hdirty], ?_, by simp⟩
  intro hd
  rw [hdirty] at hd
  exact absurd hd (by simp)

/-- `bread` of a coherent cache returns the sector's buffer, or gets stuck and leaves the disk
as it is. -/
lemma bread_spec (h : Coherent k) (s : ℕ) :
    Wp (bread 1 s) (Bread k s)
      (fun _ k' => k'.disk = k.disk ∧ k'.writes = k.writes ∧ BreadStuck k s) k := by
  unfold bread
  apply Wp.of_bind
  cases hfind : k.lru.find? (fun i => (k.buf i).holds 1 s) with
  | some i =>
      have hi := List.find?_some hfind
      obtain ⟨hd, hs⟩ := Buf.holds_iff.1 hi
      by_cases hb : (k.buf i).busy = true
      · have hget : bget 1 s k = .error .sleep k := by simp [bget, hfind, hb]
        exact Wp.of_error hget ⟨rfl, rfl, Or.inr (Or.inl ⟨i, hd, hs, hb⟩)⟩
      · have hb' : (k.buf i).busy = false := by simpa using hb
        have hget : bget 1 s k = .ok i (k.setBuf i { k.buf i with busy := true }) := by
          simp [bget, hfind, hb']
        refine Wp.of_ok hget (Wp.of_bind (Wp.of_ok rfl ?_))
        have hvalid := (h.inUse i hd).1
        rw [if_neg (by simp [hvalid])]
        exact Wp.of_pure (bread_of_hit h hd hs hb')
  | none =>
      have hmiss : ∀ j, (k.buf j).dev = 1 → (k.buf j).sector ≠ s := by
        intro j hj hjs
        have := List.find?_eq_none.1 hfind j (h.mem_lru j)
        exact this (Buf.holds_iff.2 ⟨hj, hjs⟩)
      cases hfree : k.lru.reverse.find? (fun i => !(k.buf i).busy && !(k.buf i).dirty) with
      | none =>
          have hget : bget 1 s k = .error (.panic "bget: no buffers") k := by
            simp [bget, hfind, hfree, panic]
          refine Wp.of_error hget ⟨rfl, rfl, Or.inl fun j => ?_⟩
          have := List.find?_eq_none.1 hfree j (List.mem_reverse.2 (h.mem_lru j))
          by_contra hne
          simp_all
      | some i =>
          have hi := List.find?_some hfree
          simp only [Bool.and_eq_true, Bool.not_eq_true'] at hi
          have hget : bget 1 s k = .ok i (k.setBuf i { k.buf i with
              dev := 1, sector := s, busy := true, valid := false, dirty := false }) := by
            simp [bget, hfind, hfree]
          refine Wp.of_ok hget (Wp.of_bind (Wp.of_ok rfl ?_))
          simp only [setBuf_buf_self, if_true]
          apply Wp.of_bind
          by_cases hs : k.disksize ≤ s
          · have hrw : iderw i (k.setBuf i ⟨true, false, false, 1, s, (k.buf i).data⟩) =
                .error (.panic "iderw: sector out of range")
                  (k.setBuf i ⟨true, false, false, 1, s, (k.buf i).data⟩) := by
              simp [iderw, hs, panic]
            exact Wp.of_error hrw ⟨rfl, rfl, Or.inr (Or.inr hs)⟩
          · have hrw : iderw i (k.setBuf i ⟨true, false, false, 1, s, (k.buf i).data⟩) =
                .ok () (k.setBuf i ⟨true, true, false, 1, s, k.disk s⟩) := by
              simp [iderw, hs, setBuf]
            exact Wp.of_ok hrw (Wp.of_pure (bread_of_miss h (by omega) hmiss hi.1 hi.2))

/-- `k'` differs from `k` in buffer `i`, and perhaps in the disk and the order of the list. -/
structure SameBut (k : BlockState) (i : BufId) (k' : BlockState) : Prop where
  log : k'.log = k.log
  disksize : k'.disksize = k.disksize
  buf : ∀ j, j ≠ i → k'.buf j = k.buf j

lemma Bread.sameBut (h : Bread k s i k') : SameBut k i k' := by
  rw [h.frame]
  exact ⟨rfl, rfl, fun j hj => setBuf_buf_of_ne hj⟩

lemma Bread.disk (h : Bread k s i k') : k'.disk = k.disk := by rw [h.frame]; rfl

lemma Bread.writes (h : Bread k s i k') : k'.writes = k.writes := by rw [h.frame]; rfl

/-- `bwrite` of a buffer that the caller holds. -/
lemma bwrite_spec (h : Coherent k) (hbusy : (k.buf i).busy = true) (hdev : (k.buf i).dev = 1)
    (hs : (k.buf i).sector = s) (hd : (k.buf i).data = d) :
    ∃ k', bwrite i k = .ok () k' ∧ Coherent k' ∧ SameBut k i k' ∧
      k'.disk = Function.update k.disk s d ∧ k'.writes = k.writes ++ [(s, d)] ∧
      k'.buf i = ⟨true, true, false, 1, s, d⟩ := by
  have hsec := (h.inUse i hdev).2
  have hnsec : ¬ k.disksize ≤ s := by omega
  have hcoh : Coherent (k.setBuf i ⟨true, true, false, 1, s, d⟩) :=
    h.setBuf rfl rfl (show s < k.disksize by omega)
      (fun j hji hj => hs ▸ h.sector_ne hdev hji hj) (fun _ hb => absurd hb (by simp))
  refine ⟨(k.setBuf i ⟨true, true, false, 1, s, d⟩).diskWrite s d, ?_,
    ⟨hcoh.mem_lru, hcoh.inUse, hcoh.unused, hcoh.uniq, ?_⟩,
    ⟨rfl, rfl, fun j hj => setBuf_buf_of_ne hj⟩, rfl, rfl, by simp⟩
  · simp [bwrite, iderw, hbusy, hdev, hs, hd, hnsec, setBuf, diskWrite]
  · intro j hj hjd hjb
    rw [diskWrite_buf] at hj hjd hjb ⊢
    by_cases hji : j = i
    · subst hji
      simp at hjb
    · have hne : ((k.setBuf i ⟨true, true, false, 1, s, d⟩).buf j).sector ≠ s := by
        simpa using hcoh.sector_ne (i := i) (by simp) hji hj
      rw [hcoh.clean j hj hjd hjb, diskWrite_disk, Function.update_of_ne hne]

/-- `brelse` of a buffer that the caller holds; a clean one must agree with the disk. -/
lemma brelse_spec (h : Coherent k) (hbusy : (k.buf i).busy = true) (hdev : (k.buf i).dev = 1)
    (hclean : (k.buf i).dirty = false → (k.buf i).data = k.disk (k.buf i).sector) :
    ∃ k', brelse i k = .ok () k' ∧ Coherent k' ∧ SameBut k i k' ∧ k'.disk = k.disk ∧
      k'.writes = k.writes ∧ k'.buf i = { k.buf i with busy := false } := by
  have hcoh : Coherent (k.setBuf i { k.buf i with busy := false }) :=
    h.setBuf hdev (h.inUse i hdev).1 (h.inUse i hdev).2
      (fun j hji hj => h.sector_ne hdev hji hj) (fun hd _ => hclean hd)
  refine ⟨{ k.setBuf i { k.buf i with busy := false } with lru := i :: k.lru.erase i }, ?_,
    ⟨?_, hcoh.inUse, hcoh.unused, hcoh.uniq, hcoh.clean⟩,
    ⟨rfl, rfl, fun j hj => setBuf_buf_of_ne hj⟩, rfl, rfl, by simp⟩
  · simp [brelse, hbusy]
  · intro j
    by_cases hji : j = i
    · simp [hji]
    · exact List.mem_cons_of_mem _ ((List.mem_erase_of_ne hji).2 (h.mem_lru j))

/-- Changing the data of a buffer that the caller holds. -/
lemma Coherent.setData (h : Coherent k) (hbusy : (k.buf i).busy = true)
    (hdev : (k.buf i).dev = 1) (d : Block) :
    Coherent (k.setBuf i { k.buf i with data := d }) :=
  h.setBuf hdev (h.inUse i hdev).1 (h.inUse i hdev).2 (fun j hji hj => h.sector_ne hdev hji hj)
    (fun _ hb => absurd (hb.symm.trans hbusy) (by simp))

/-- The in-memory log is not part of the cache. -/
lemma Coherent.modifyLog (h : Coherent k) (log : Log) : Coherent { k with log := log } :=
  ⟨h.mem_lru, h.inUse, h.unused, h.uniq, h.clean⟩

end Coherence

end Xv6
