import Xv6.SysFile
import Xv6.Fs.Image
import Xv6.Lib.Run

/-!
# The file system as a machine

The kernel boots on an image, and then processes make system calls, one at a time.  Between two
calls the rest of the machine may do anything to what lies outside of the file system.
-/

namespace Xv6

open Lib

namespace Fs

/-- The entry of the inode cache that the first `iget` takes. -/
def rootEntry : InodeId := ⟨0, by decide⟩

/-- The state after `main` has started the file system: the log is empty, nothing is open, and
the first process is in the root directory, as `userinit` leaves it. -/
def boot (sb : Superblock) (blk : ℕ → Block) (disksize : ℕ) (o : Outside) : FsState where
  blk := blk
  disksize := disksize
  held := []
  log := { start := sb.logStart, size := sb.nlog, busy := false, sectors := [] }
  inode e := { DInode.zero with
    dev := if e = rootEntry then ROOTDEV else 0
    inum := if e = rootEntry then ROOTINO else 0
    ref := if e = rootEntry then 1 else 0
    busy := false
    valid := false }
  file _ :=
    { type := .none, readable := false, writable := false, pipe := 0, ip := none, off := 0,
      ref := 0 }
  proc p := { ofile := fun _ => none, cwd := if p = initproc then some rootEntry else none }
  pipe _ := { readopen := false, writeopen := false }
  outside := o
  seen :=
    { reading := false, readAlloc := false, ballocs := [], iallocs := [], pipes := [],
      kfrees := [] }

/-- The file of a descriptor. -/
def descriptor (s : FsState) (p : ProcId) (fd : ℤ) : Option FileId :=
  if h : 0 ≤ fd ∧ fd < NOFILE then (s.proc p).ofile ⟨fd.toNat, toNat_lt_NOFILE h⟩ else none

lemma descriptor_eq {s : FsState} {p : ProcId} {fd : Fd} :
    descriptor s p fd.val = (s.proc p).ofile fd := by
  have hlt := fd.isLt
  rw [descriptor, dif_pos ⟨by omega, by omega⟩]
  rfl

/-- What happens to the file system: a system call, or something outside of it. -/
inductive Event
  | call (p : ProcId) (c : Call)
  | outside (o : Outside)

/-- Can this happen now? -/
def Event.Enabled (s : FsState) : Event → Prop
  | call p c => c.Enabled s p
  | outside _ => True

instance (s : FsState) (l : Event) : Decidable (l.Enabled s) := by
  cases l <;> unfold Event.Enabled <;> infer_instance

/-- Bytes that have been written to a file. -/
structure Record where
  inum : ℕ
  off : ℕ
  bytes : List UInt8
deriving DecidableEq, Repr

/-- What a call has written, as far as the offset of its file has moved. -/
def Call.record (p : ProcId) (s s' : FsState) : Call → Option Record
  | write fd src _ =>
      match descriptor s p fd with
      | none => none
      | some f =>
          match (s.file f).type, (s.file f).ip with
          | .inode, some e => some {
              inum := (s.inode e).inum
              off := (s.file f).off.toNat
              bytes := (List.range ((s'.file f).off.toNat - (s.file f).off.toNat)).map src }
          | _, _ => none
  | _ => none

/-- One step: a call that returns, or a change outside of the file system. -/
def step (s : FsState) : Event → Option (FsState × Option Record)
  | .call p c =>
      match (c.prog p).run Act.exec s with
      | .ok _ s' => some (s', c.record p s s')
      | .error _ _ => none
  | .outside o => some ({ s with outside := o }, none)

/-- What a call of the machine is. -/
lemma step_call {s s' : FsState} {p : ProcId} {c : Call} {r : Option Record}
    (h : step s (.call p c) = some (s', r)) :
    ∃ v, (c.prog p).run Act.exec s = .ok v s' ∧ r = c.record p s s' := by
  rw [step] at h
  split at h
  · rename_i v t hx
    obtain ⟨rfl, rfl⟩ : t = s' ∧ c.record p s t = r := by simpa using h
    exact ⟨v, hx, rfl⟩
  · exact absurd h (by simp)

/-- The states that are reached from `s₀`, with what has been written on the way. -/
abbrev Reached (s₀ : FsState) : List Record → FsState → Prop :=
  Run step (fun s l => l.Enabled s) s₀ []

/-- Follow a list of events. -/
def follow (s₀ : FsState) (ls : List Event) : Option (List Record × FsState) :=
  Lib.exec (restrict step fun s l => l.Enabled s) ls [] s₀

lemma exists_reached (s₀ : FsState) (ls : List Event) (P : FsState → Prop) [DecidablePred P]
    (h : ((follow s₀ ls).any fun r => decide (P r.2)) = true) : ∃ es s, Reached s₀ es s ∧ P s :=
  Run.exists_of_exec (fun _ s => P s) ls h

/-! ## A small image -/

/-- A file system with `n` free data blocks and 8 inodes. -/
def smallSb (n : ℕ) : Superblock where
  size := 16 + n
  nblocks := 1 + n
  ninodes := 8
  nlog := 10

/-- The inode of the root directory, which has block 5. -/
def smallRoot : DInode where
  type := T_DIR
  major := 0
  minor := 0
  nlink := 1
  size := 512
  addrs i := if i.val = 0 then 5 else 0

/-- A block of zeros. -/
def zeroBlock : Block := fun _ => 0

/-- The blocks of an image with an empty root directory, as `mkfs` lays them out. -/
def smallBlk (n : ℕ) : ℕ → Block
  | 1 => (((zeroBlock.set32 0 (16 + n)).set32 4 (1 + n)).set32 8 8).set32 12 10
  | 2 => smallRoot.encode zeroBlock 64
  | 4 => zeroBlock.setByte 0 0x3f
  | 5 => (zeroBlock.blit 0 16 (Dirent.byte 1 [46])).blit 16 16 (Dirent.byte 1 [46, 46])
  | _ => zeroBlock

/-- The machine on this image. -/
def small (n : ℕ) : FsState := boot (smallSb n) (smallBlk n) (16 + n) ⟨[], [], []⟩

end Fs

/-- The entry that the first file after the start gets. -/
def secondEntry : InodeId := ⟨1, by decide⟩

/-- The file that is opened first. -/
def firstFile : FileId := ⟨0, by decide⟩

/-- The file that is opened second. -/
def secondFile : FileId := ⟨1, by decide⟩

/-- A process other than the first one. -/
def secondProc : ProcId := ⟨1, by decide⟩

end Xv6
