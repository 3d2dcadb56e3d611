import Xv6.Fs.Format
import Xv6.Log
import Xv6.Lib.Prog
import Mathlib.Data.List.FinRange

/-!
# Kernel state and atomic actions of the file system

The system calls of `sysfile.c` and the functions of `fs.c` and `file.c` below them are
programs over the actions of this file.  An action is what the kernel does while it holds a
spin lock, or an access to a buffer or inode that the caller has locked.

The buffer cache and the log appear here as the code above them sees them: `blk` gives each
block its current contents, `held` lists the blocks whose buffers are busy, and the buffers of
the logged blocks stay in the cache until the commit.  A buffer is named by its block number,
since no two buffers hold the same block.
-/

namespace Xv6

open Lib

/-- The index of an entry of `icache.inode`. -/
abbrev InodeId : Type := Fin NINODE

/-- The index of an entry of `ftable.file`. -/
abbrev FileId : Type := Fin NFILE

/-- A file descriptor. -/
abbrev Fd : Type := Fin NOFILE

lemma toNat_lt_NOFILE {fd : ℤ} (h : 0 ≤ fd ∧ fd < NOFILE) : fd.toNat < NOFILE := by omega

/-- The index of a process in `ptable.proc`. -/
abbrev ProcId : Type := Fin NPROC

/-- `struct inode`: the copy of the inode on disk, and the fields of the cache entry with the
flags `I_BUSY` and `I_VALID`. -/
structure Inode extends DInode where
  dev : ℕ
  inum : ℕ
  ref : ℤ
  busy : Bool
  valid : Bool

/-- The kinds of open files. -/
inductive FileType
  | none
  | pipe
  | inode
deriving DecidableEq, Repr

/-- `struct file` without its reference count. -/
structure OpenFile where
  type : FileType
  readable : Bool
  writable : Bool
  pipe : ℕ
  ip : Option InodeId
  off : UInt32
deriving DecidableEq

/-- `struct file`. -/
structure File extends OpenFile where
  ref : ℤ
deriving DecidableEq

/-- The fields of `struct proc` that `sysfile.c` uses. -/
structure ProcFiles where
  ofile : Fd → Option FileId
  cwd : Option InodeId

/-- The two ends of a `struct pipe`. -/
structure PipeEnds where
  readopen : Bool
  writeopen : Bool
deriving DecidableEq, Repr

/-- Close the write end or the read end. -/
def PipeEnds.close (ends : PipeEnds) (writable : Bool) : PipeEnds :=
  if writable then { ends with writeopen := false } else { ends with readopen := false }

/-- The log, as its users see it: where it is, whether a transaction is active and which
blocks it has logged. -/
structure Journal where
  start : ℕ
  size : ℕ
  busy : Bool
  sectors : List ℕ
deriving DecidableEq, Repr

/-- What lies outside of the file system: the input lines that the console will have (`none` if
the reader is killed), the results of the reads and writes of pipes to come, and the free pages
of memory. -/
structure Outside where
  console : List (Option (List UInt8))
  pipes : List ℤ
  freelist : List ℕ

/-- What an observer notes of the allocators: whether `readi` is running, whether `balloc` was
called in the meantime, the blocks that `balloc` returned, the inodes that `ialloc` took, the
pages that became pipes and the pages of pipes that were freed. -/
structure Observed where
  reading : Bool
  readAlloc : Bool
  ballocs : List ℕ
  iallocs : List ℕ
  pipes : List ℕ
  kfrees : List ℕ
deriving DecidableEq, Repr

/-- The state of the file system in memory and on disk. -/
structure FsState where
  blk : ℕ → Block
  disksize : ℕ
  held : List ℕ
  log : Journal
  inode : InodeId → Inode
  file : FileId → File
  proc : ProcId → ProcFiles
  pipe : ℕ → PipeEnds
  outside : Outside
  seen : Observed

/-! ## Actions -/

/-- The actions of the file system. -/
inductive Act
  | bread (b : ℕ)
  | data (b : ℕ)
  | setData (b : ℕ) (d : Block)
  | brelse (b : ℕ)
  | beginTrans
  | logWrite (b : ℕ)
  | commitTrans
  | iget (dev inum : ℕ)
  | idup (ip : InodeId)
  | ilock (ip : InodeId)
  | getInode (ip : InodeId)
  | setInode (ip : InodeId) (v : DInode)
  | setValid (ip : InodeId)
  | iunlock (ip : InodeId)
  | iputStart (ip : InodeId)
  | iputEnd (ip : InodeId)
  | filealloc
  | filedup (f : FileId)
  | fileclose (f : FileId)
  | getFile (f : FileId)
  | setFile (f : FileId) (v : OpenFile)
  | getCwd (p : ProcId)
  | setCwd (p : ProcId) (ip : Option InodeId)
  | getOfile (p : ProcId) (fd : Fd)
  | setOfile (p : ProcId) (fd : Fd) (f : Option FileId)
  | pipeOpen (page : ℕ)
  | pipeclose (page : ℕ) (writable : Bool)
  | console
  | pipeio
  | kalloc
  | readiEnter
  | readiLeave
  | ballocEnter
  | ballocDone (b : ℕ)
  | iallocDone (inum : ℕ)

/-- What an action returns. -/
def Act.Result : Act → Type
  | data _ => Block
  | iget _ _ => InodeId
  | getInode _ => Inode
  | iputStart _ => Bool
  | filealloc => Option FileId
  | fileclose _ => Option OpenFile
  | getFile _ => File
  | getCwd _ => Option InodeId
  | getOfile _ _ => Option FileId
  | console => Option (List UInt8)
  | pipeio => ℤ
  | kalloc => Option ℕ
  | _ => Unit

/-- A program of the file system. -/
abbrev Sys (α : Type) : Type := Prog Act Act.Result Stop α

/-- `panic`. -/
def Sys.panic {α : Type} (msg : String) : Sys α := .stop (.panic msg)

/-- Perform an action. -/
abbrev Sys.act (a : Act) : Sys a.Result := Prog.perform a

namespace FsState

/-- Replace an inode of the cache. -/
def setInode (s : FsState) (e : InodeId) (v : Inode) : FsState :=
  { s with inode := Function.update s.inode e v }

/-- Replace a file. -/
def setFile (s : FsState) (f : FileId) (v : File) : FsState :=
  { s with file := Function.update s.file f v }

/-- Replace a process's files. -/
def setProc (s : FsState) (p : ProcId) (v : ProcFiles) : FsState :=
  { s with proc := Function.update s.proc p v }

/-- Why `bread` of a block does not return: its buffer is busy, or it is not in the cache and
every buffer is busy or dirty, or the disk has no such block. -/
def breadStop (s : FsState) (b : ℕ) : Option Stop :=
  if b ∈ s.held then some .sleep
  else if b ∉ s.log.sectors ∧ NBUF ≤ (s.held ∪ s.log.sectors).length then
    some (.panic "bget: no buffers")
  else if s.disksize ≤ b then some (.panic "iderw: sector out of range")
  else none

/-- The header of the log that a commit writes. -/
def header (s : FsState) : LogHeader where
  n := s.log.sectors.length
  sector i := s.log.sectors.getD i 0

/-- Copy the logged blocks to their homes, those at the given positions. -/
def install (start : ℕ) (sectors : List ℕ) (blk : ℕ → Block) : ℕ → Block :=
  (List.range sectors.length).foldl
    (fun blk i => Function.update blk (sectors.getD i 0) (blk (start + i + 1))) blk

/-- The blocks after a commit: the header is written, the logged blocks are installed, and the
header is erased. -/
def commitBlk (s : FsState) : ℕ → Block :=
  let blk := Function.update s.blk s.log.start (s.header.encode (s.blk s.log.start))
  let blk := install s.log.start s.log.sectors blk
  Function.update blk s.log.start ({ s.header with n := 0 }.encode (blk s.log.start))

/-- The blocks that a commit goes through the cache for. -/
def commitReads (s : FsState) : List ℕ :=
  s.log.start :: (s.log.sectors ++ (List.range s.log.sectors.length).map (s.log.start + · + 1))

/-- Replace the ends of the pipe in a page. -/
def setPipe (s : FsState) (page : ℕ) (ends : PipeEnds) : FsState :=
  { s with pipe := Function.update s.pipe page ends }

/-- Make a pipe in a page, with both ends open. -/
def openPipe (s : FsState) (page : ℕ) : FsState :=
  { s.setPipe page ⟨true, true⟩ with seen := { s.seen with pipes := s.seen.pipes ++ [page] } }

/-- Free a page. -/
def kfree (s : FsState) (page : ℕ) : FsState :=
  { s with
    outside := { s.outside with freelist := page :: s.outside.freelist }
    seen := { s.seen with kfrees := s.seen.kfrees ++ [page] } }

/-- Close one end of the pipe in a page, and free the page when both are closed. -/
def pipeclose (s : FsState) (page : ℕ) (writable : Bool) : FsState :=
  if ((s.pipe page).close writable).readopen = false ∧
      ((s.pipe page).close writable).writeopen = false then
    (s.setPipe page ((s.pipe page).close writable)).kfree page
  else s.setPipe page ((s.pipe page).close writable)

end FsState

open FsState in
/-- What each action does. -/
def Act.exec : (a : Act) → EStateM Stop FsState a.Result
  | .bread b, s =>
      match s.breadStop b with
      | some e => .error e s
      | none => .ok () { s with held := b :: s.held }
  | .data b, s => .ok (s.blk b) s
  | .setData b d, s => .ok () { s with blk := Function.update s.blk b d }
  | .brelse b, s =>
      if b ∈ s.held then .ok () { s with held := s.held.erase b }
      else .error (.panic "brelse") s
  | .beginTrans, s =>
      if s.log.busy = true then .error .sleep s
      else .ok () { s with log := { s.log with busy := true } }
  | .logWrite b, s =>
      if LOGSIZE ≤ s.log.sectors.length ∨ s.log.size ≤ s.log.sectors.length + 1 then
        .error (.panic "too big a transaction") s
      else if s.log.busy = false then .error (.panic "write outside of trans") s
      else
        match s.breadStop (s.log.start + s.log.sectors.idxOf b + 1) with
        | some e => .error e s
        | none => .ok () { s with
            blk := Function.update s.blk (s.log.start + s.log.sectors.idxOf b + 1) (s.blk b)
            log := { s.log with sectors := if b ∈ s.log.sectors then s.log.sectors
              else s.log.sectors ++ [b] } }
  | .commitTrans, s =>
      if s.log.sectors = [] then .ok () { s with log := { s.log with busy := false } }
      else if ∃ b ∈ s.commitReads, b ∈ s.held then .error .sleep s
      else
        match s.breadStop s.log.start with
        | some e => .error e s
        | none => .ok () { s with
            blk := s.commitBlk, log := { s.log with sectors := [], busy := false } }
  | .iget dev inum, s =>
      match (List.finRange NINODE).find? fun e =>
          decide (0 < (s.inode e).ref ∧ (s.inode e).dev = dev ∧ (s.inode e).inum = inum) with
      | some e => .ok e (s.setInode e { s.inode e with ref := (s.inode e).ref + 1 })
      | none =>
          match (List.finRange NINODE).find? fun e => decide ((s.inode e).ref = 0) with
          | some e => .ok e (s.setInode e { s.inode e with
              dev := dev, inum := inum, ref := 1, busy := false, valid := false })
          | none => .error (.panic "iget: no inodes") s
  | .idup e, s => .ok () (s.setInode e { s.inode e with ref := (s.inode e).ref + 1 })
  | .ilock e, s =>
      if (s.inode e).ref < 1 then .error (.panic "ilock") s
      else if (s.inode e).busy = true then .error .sleep s
      else .ok () (s.setInode e { s.inode e with busy := true })
  | .getInode e, s => .ok (s.inode e) s
  | .setInode e v, s => .ok () (s.setInode e { s.inode e with toDInode := v })
  | .setValid e, s => .ok () (s.setInode e { s.inode e with valid := true })
  | .iunlock e, s =>
      if (s.inode e).busy = false ∨ (s.inode e).ref < 1 then .error (.panic "iunlock") s
      else .ok () (s.setInode e { s.inode e with busy := false })
  | .iputStart e, s =>
      if (s.inode e).ref = 1 ∧ (s.inode e).valid = true ∧ (s.inode e).nlink = 0 then
        if (s.inode e).busy = true then .error (.panic "iput busy") s
        else .ok true (s.setInode e { s.inode e with busy := true })
      else .ok false (s.setInode e { s.inode e with ref := (s.inode e).ref - 1 })
  | .iputEnd e, s =>
      .ok () (s.setInode e { s.inode e with
        busy := false, valid := false, ref := (s.inode e).ref - 1 })
  | .filealloc, s =>
      match (List.finRange NFILE).find? fun f => decide ((s.file f).ref = 0) with
      | some f => .ok (some f) (s.setFile f { s.file f with ref := 1 })
      | none => .ok none s
  | .filedup f, s =>
      if (s.file f).ref < 1 then .error (.panic "filedup") s
      else .ok () (s.setFile f { s.file f with ref := (s.file f).ref + 1 })
  | .fileclose f, s =>
      if (s.file f).ref < 1 then .error (.panic "fileclose") s
      else if 0 < (s.file f).ref - 1 then
        .ok none (s.setFile f { s.file f with ref := (s.file f).ref - 1 })
      else .ok (some (s.file f).toOpenFile) (s.setFile f { s.file f with ref := 0, type := .none })
  | .getFile f, s => .ok (s.file f) s
  | .setFile f v, s => .ok () (s.setFile f { s.file f with toOpenFile := v })
  | .getCwd p, s => .ok (s.proc p).cwd s
  | .setCwd p ip, s => .ok () (s.setProc p { s.proc p with cwd := ip })
  | .getOfile p fd, s => .ok ((s.proc p).ofile fd) s
  | .setOfile p fd f, s =>
      .ok () (s.setProc p { s.proc p with ofile := Function.update (s.proc p).ofile fd f })
  | .pipeOpen page, s => .ok () (s.openPipe page)
  | .pipeclose page writable, s => .ok () (s.pipeclose page writable)
  | .console, s =>
      .ok (s.outside.console.headD none)
        { s with outside := { s.outside with console := s.outside.console.tail } }
  | .pipeio, s =>
      .ok (s.outside.pipes.headD (-1))
        { s with outside := { s.outside with pipes := s.outside.pipes.tail } }
  | .kalloc, s =>
      .ok s.outside.freelist.head?
        { s with outside := { s.outside with freelist := s.outside.freelist.tail } }
  | .readiEnter, s => .ok () { s with seen := { s.seen with reading := true } }
  | .readiLeave, s => .ok () { s with seen := { s.seen with reading := false } }
  | .ballocEnter, s =>
      .ok () { s with seen := { s.seen with readAlloc := s.seen.readAlloc || s.seen.reading } }
  | .ballocDone b, s => .ok () { s with seen := { s.seen with ballocs := s.seen.ballocs ++ [b] } }
  | .iallocDone x, s => .ok () { s with seen := { s.seen with iallocs := s.seen.iallocs ++ [x] } }

end Xv6
