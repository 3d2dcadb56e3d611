import Xv6.Fs

/-!
# Open files and the system calls of the file system (`file.c`, `sysfile.c`)

Each system call is a program of the process `p` that makes it.  Arguments appear as the call
has fetched them: a path is the bytes of the string, or `none` if `argstr` fails.  Of `fork`,
`exec` and `exit` this file has what they do to files and inodes.
-/

namespace Xv6.Fs

open Lib

/-! ## Actions on files and processes -/

/-- The open file of a descriptor. -/
def getOfile (p : ProcId) (fd : Fd) : Sys (Option FileId) := Sys.act (.getOfile p fd)

/-- Set the open file of a descriptor. -/
def setOfile (p : ProcId) (fd : Fd) (f : Option FileId) : Sys Unit := Sys.act (.setOfile p fd f)

/-- Set the current directory of a process. -/
def setCwd (p : ProcId) (ip : Option InodeId) : Sys Unit := Sys.act (.setCwd p ip)

/-- Read from or write to a pipe: how many bytes, or `-1`. -/
def pipeio : Sys ℤ := Sys.act .pipeio

/-- Close one end of a pipe. -/
def pipeclose (page : ℕ) (writable : Bool) : Sys Unit := Sys.act (.pipeclose page writable)

/-- Drop a reference to a file; if it was the last one, the file as it was is returned. -/
def fileDrop (f : FileId) : Sys (Option OpenFile) := Sys.act (.fileclose f)

/-- Allocate a page. -/
def kalloc : Sys (Option ℕ) := Sys.act .kalloc

/-- Make a pipe in a page, with both ends open. -/
def pipeOpen (page : ℕ) : Sys Unit := Sys.act (.pipeOpen page)

/-! ## Open files (`file.c`) -/

/-- Allocate a file structure. -/
def filealloc : Sys (Option FileId) := Sys.act .filealloc

/-- Increment the reference count of a file. -/
def filedup (f : FileId) : Sys Unit := Sys.act (.filedup f)

/-- The fields of `*f`. -/
def getFile (f : FileId) : Sys File := Sys.act (.getFile f)

/-- Store into the fields of `*f` other than its reference count. -/
def setFile (f : FileId) (v : OpenFile) : Sys Unit := Sys.act (.setFile f v)

/-- Close a file: decrement its reference count, and close it when that reaches 0. -/
def fileclose (f : FileId) : Sys Unit := do
  match ← fileDrop f with
  | none => pure ()
  | some ff =>
      match ff.type, ff.ip with
      | .pipe, _ => pipeclose ff.pipe ff.writable
      | .inode, some ip => do
          beginTrans
          iput ip
          commitTrans
      | .inode, none => Sys.panic "trap"
      | .none, _ => pure ()

/-- `struct stat`. -/
structure Stat where
  dev : ℕ
  ino : ℕ
  type : Int16
  nlink : Int16
  size : UInt32
deriving DecidableEq

/-- Copy stat information from an inode. -/
def stati (v : Inode) : Stat := ⟨v.dev, v.inum, v.type, v.nlink, v.size⟩

/-- Get metadata about a file. -/
def filestat (f : FileId) : Sys (ℤ × Option Stat) := do
  let ff ← getFile f
  match ff.type, ff.ip with
  | .inode, some ip => do
      ilock ip
      let v ← getInode ip
      iunlock ip
      pure (0, some (stati v))
  | .inode, none => Sys.panic "trap"
  | _, _ => pure (-1, none)

/-- Read from a file. -/
def fileread (f : FileId) (n : ℤ) : Sys (ℤ × List UInt8) := do
  let ff ← getFile f
  if ff.readable = false then pure (-1, [])
  else
    match ff.type, ff.ip with
    | .pipe, _ => do
        let r ← pipeio
        pure (r, [])
    | .inode, some ip => do
        ilock ip
        let (r, l) ← readi ip ff.off.toNat (n % 2 ^ 32).toNat
        if 0 < r then setFile f { ff.toOpenFile with off := ff.off + UInt32.ofNat r.toNat }
        iunlock ip
        pure (r, l)
    | .inode, none => Sys.panic "trap"
    | .none, _ => Sys.panic "fileread"

/-- How much `filewrite` writes in one transaction. -/
def filewriteMax : ℕ := (LOGSIZE - 1 - 1 - 2) / 2 * 512

/-- The loop of `filewrite`, with `n` bytes left to write: are all written in the end?  The
first argument bounds its iterations. -/
def filewriteLoop (f : FileId) (ip : InodeId) : ℕ → (ℕ → UInt8) → ℕ → Sys Bool
  | 0, _, n => pure (n == 0)
  | fuel + 1, src, n =>
      if n = 0 then pure true
      else do
        let n1 := min n filewriteMax
        beginTrans
        ilock ip
        let ff ← getFile f
        let r ← writei ip src ff.off.toNat n1
        if 0 < r then setFile f { ff.toOpenFile with off := ff.off + UInt32.ofNat r.toNat }
        iunlock ip
        commitTrans
        if r < 0 then pure false
        else if r ≠ n1 then Sys.panic "short filewrite"
        else filewriteLoop f ip fuel (fun j => src (n1 + j)) (n - n1)

/-- Write to a file. -/
def filewrite (f : FileId) (src : ℕ → UInt8) (n : ℤ) : Sys ℤ := do
  let ff ← getFile f
  if ff.writable = false then pure (-1)
  else
    match ff.type, ff.ip with
    | .pipe, _ => pipeio
    | .inode, some ip => do
        let all ← filewriteLoop f ip n.toNat src n.toNat
        pure (if all = true ∧ 0 ≤ n then n else -1)
    | .inode, none => Sys.panic "trap"
    | .none, _ => Sys.panic "filewrite"

/-! ## Descriptors -/

/-- The open file of a descriptor, if there is one. -/
def argfd (p : ProcId) (fd : ℤ) : Sys (Option (Fd × FileId)) :=
  if h : 0 ≤ fd ∧ fd < NOFILE then do
    let fd' : Fd := ⟨fd.toNat, by omega⟩
    let f ← getOfile p fd'
    pure (f.map fun f => (fd', f))
  else pure none

/-- The loop of `fdalloc` over the given descriptors. -/
def fdallocLoop (p : ProcId) (f : FileId) : List Fd → Sys (Option Fd)
  | [] => pure none
  | fd :: rest => do
      let old ← getOfile p fd
      if old = none then
        setOfile p fd (some f)
        pure (some fd)
      else fdallocLoop p f rest

/-- Allocate a file descriptor for the given file. -/
def fdalloc (p : ProcId) (f : FileId) : Sys (Option Fd) := fdallocLoop p f (List.finRange NOFILE)

/-- `dup`. -/
def sysDup (p : ProcId) (fd : ℤ) : Sys ℤ := do
  match ← argfd p fd with
  | none => pure (-1)
  | some (_, f) =>
      match ← fdalloc p f with
      | none => pure (-1)
      | some fd' => do
          filedup f
          pure fd'.val

/-- `read`, for a buffer that passes `argptr`. -/
def sysRead (p : ProcId) (fd : ℤ) (n : ℤ) : Sys ℤ := do
  match ← argfd p fd with
  | none => pure (-1)
  | some (_, f) => do
      let (r, _) ← fileread f n
      pure r

/-- `write`, for a buffer that passes `argptr`. -/
def sysWrite (p : ProcId) (fd : ℤ) (src : ℕ → UInt8) (n : ℤ) : Sys ℤ := do
  match ← argfd p fd with
  | none => pure (-1)
  | some (_, f) => filewrite f src n

/-- `close`. -/
def sysClose (p : ProcId) (fd : ℤ) : Sys ℤ := do
  match ← argfd p fd with
  | none => pure (-1)
  | some (fd', f) => do
      setOfile p fd' none
      fileclose f
      pure 0

/-- `fstat`, for a buffer that passes `argptr`. -/
def sysFstat (p : ProcId) (fd : ℤ) : Sys ℤ := do
  match ← argfd p fd with
  | none => pure (-1)
  | some (_, f) => do
      let (r, _) ← filestat f
      pure r

/-! ## Links and directories -/

/-- The end of `link` that undoes the new link count. -/
def sysLinkBad (ip : InodeId) : Sys ℤ := do
  ilock ip
  let v ← getInode ip
  setInode ip { v.toDInode with nlink := v.nlink - 1 }
  iupdate ip
  iunlockput ip
  commitTrans
  pure (-1)

/-- `link`: create the path `new` as a link to the same inode as `old`. -/
def sysLink (p : ProcId) (old new : Option Name) : Sys ℤ := do
  match old, new with
  | some old, some new =>
      match ← namei p old with
      | none => pure (-1)
      | some ip => do
          beginTrans
          ilock ip
          let v ← getInode ip
          if v.type = T_DIR then
            iunlockput ip
            commitTrans
            pure (-1)
          else
            setInode ip { v.toDInode with nlink := v.nlink + 1 }
            iupdate ip
            iunlock ip
            match ← nameiparent p new with
            | none => sysLinkBad ip
            | some (dp, name) => do
                ilock dp
                let d ← getInode dp
                let v ← getInode ip
                if d.dev ≠ v.dev then
                  iunlockput dp
                  sysLinkBad ip
                else
                  let r ← dirlink dp name v.inum
                  if r < 0 then
                    iunlockput dp
                    sysLinkBad ip
                  else
                    iunlockput dp
                    iput ip
                    commitTrans
                    pure 0
  | _, _ => pure (-1)

/-- The loop of `isdirempty` over the given offsets. -/
def isdiremptyLoop (dp : InodeId) : List ℕ → Sys Bool
  | [] => pure true
  | off :: rest => do
      let (r, l) ← readi dp off Dirent.SIZE
      if r ≠ Dirent.SIZE then Sys.panic "isdirempty: readi"
      else if (Dirent.decode l).inum ≠ 0 then pure false
      else isdiremptyLoop dp rest

/-- Is the directory empty except for `.` and `..`? -/
def isdirempty (dp : InodeId) : Sys Bool := do
  let v ← getInode dp
  isdiremptyLoop dp ((direntOffsets v.size.toNat).drop 2)

/-- The name `.`. -/
def dot : Name := [46]

/-- The name `..`. -/
def dotdot : Name := [46, 46]

/-- The end of `unlink` for a path that it does not remove. -/
def sysUnlinkBad (dp : InodeId) : Sys ℤ := do
  iunlockput dp
  commitTrans
  pure (-1)

/-- `unlink`. -/
def sysUnlink (p : ProcId) (path : Option Name) : Sys ℤ := do
  match path with
  | none => pure (-1)
  | some path =>
      match ← nameiparent p path with
      | none => pure (-1)
      | some (dp, name) => do
          beginTrans
          ilock dp
          if namecmp name dot = 0 ∨ namecmp name dotdot = 0 then sysUnlinkBad dp
          else
            match ← dirlookup dp name with
            | none => sysUnlinkBad dp
            | some (ip, off) => do
                ilock ip
                let v ← getInode ip
                if v.nlink < 1 then Sys.panic "unlink: nlink < 1"
                else
                  let empty ← if v.type = T_DIR then isdirempty ip else pure true
                  if empty = false then
                    iunlockput ip
                    sysUnlinkBad dp
                  else
                    let r ← writei dp (fun _ => 0) off Dirent.SIZE
                    if r ≠ Dirent.SIZE then Sys.panic "unlink: writei"
                    else
                      if v.type = T_DIR then
                        let d ← getInode dp
                        setInode dp { d.toDInode with nlink := d.nlink - 1 }
                        iupdate dp
                      iunlockput dp
                      let v ← getInode ip
                      setInode ip { v.toDInode with nlink := v.nlink - 1 }
                      iupdate ip
                      iunlockput ip
                      commitTrans
                      pure 0

/-- The part of `create` that makes the entries `.` and `..` of a new directory. -/
def createDots (dp ip : InodeId) : Sys Unit := do
  let d ← getInode dp
  setInode dp { d.toDInode with nlink := d.nlink + 1 }
  iupdate dp
  let v ← getInode ip
  let r ← dirlink ip dot v.inum
  if r < 0 then Sys.panic "create dots"
  else
    let d ← getInode dp
    let r ← dirlink ip dotdot d.inum
    if r < 0 then Sys.panic "create dots"

/-- Create a file, directory or device at a path.  The inode returned is locked. -/
def create (p : ProcId) (path : Name) (type major minor : Int16) : Sys (Option InodeId) := do
  match ← nameiparent p path with
  | none => pure none
  | some (dp, name) => do
      ilock dp
      match ← dirlookup dp name with
      | some (ip, _) => do
          iunlockput dp
          ilock ip
          let v ← getInode ip
          if type = T_FILE ∧ v.type = T_FILE then pure (some ip)
          else
            iunlockput ip
            pure none
      | none => do
          let d ← getInode dp
          let ip ← ialloc d.dev type
          ilock ip
          let v ← getInode ip
          setInode ip { v.toDInode with major := major, minor := minor, nlink := 1 }
          iupdate ip
          if type = T_DIR then createDots dp ip
          let v ← getInode ip
          let r ← dirlink dp name v.inum
          if r < 0 then Sys.panic "create: dirlink"
          else
            iunlockput dp
            pure (some ip)

/-! ## Opening -/

/-- `O_WRONLY`, `O_RDWR` and `O_CREATE` as masks of `omode`. -/
def O_WRONLY : UInt32 := 0x001

@[inherit_doc O_WRONLY] def O_RDWR : UInt32 := 0x002

@[inherit_doc O_WRONLY] def O_CREATE : UInt32 := 0x200

/-- The part of `open` that finds or makes the inode, which it returns locked. -/
def openInode (p : ProcId) (path : Name) (omode : UInt32) : Sys (Option InodeId) :=
  if omode &&& O_CREATE ≠ 0 then do
    beginTrans
    let ip ← create p path T_FILE 0 0
    commitTrans
    pure ip
  else do
    match ← namei p path with
    | none => pure none
    | some ip => do
        ilock ip
        let v ← getInode ip
        if v.type = T_DIR ∧ omode ≠ 0 then
          iunlockput ip
          pure none
        else pure (some ip)

/-- `open`. -/
def sysOpen (p : ProcId) (path : Option Name) (omode : UInt32) : Sys ℤ := do
  match path with
  | none => pure (-1)
  | some path =>
      match ← openInode p path omode with
      | none => pure (-1)
      | some ip =>
          match ← filealloc with
          | none => do
              iunlockput ip
              pure (-1)
          | some f =>
              match ← fdalloc p f with
              | none => do
                  fileclose f
                  iunlockput ip
                  pure (-1)
              | some fd => do
                  iunlock ip
                  let ff ← getFile f
                  setFile f { ff.toOpenFile with
                    type := .inode
                    ip := some ip
                    off := 0
                    readable := decide (omode &&& O_WRONLY = 0)
                    writable := decide (omode &&& O_WRONLY ≠ 0 ∨ omode &&& O_RDWR ≠ 0) }
                  pure fd.val

/-- What `mkdir` and `mknod` do once their arguments are fetched. -/
def createCall (p : ProcId) (path : Option Name) (type major minor : Int16) : Sys ℤ := do
  beginTrans
  match path with
  | none => do
      commitTrans
      pure (-1)
  | some path =>
      match ← create p path type major minor with
      | none => do
          commitTrans
          pure (-1)
      | some ip => do
          iunlockput ip
          commitTrans
          pure 0

/-- `mkdir`. -/
def sysMkdir (p : ProcId) (path : Option Name) : Sys ℤ := createCall p path T_DIR 0 0

/-- `mknod`; the numbers are cut to a `short`. -/
def sysMknod (p : ProcId) (path : Option Name) (major minor : ℤ) : Sys ℤ :=
  createCall p path T_DEV (Int16.ofInt major) (Int16.ofInt minor)

/-- `chdir`. -/
def sysChdir (p : ProcId) (path : Option Name) : Sys ℤ := do
  match path with
  | none => pure (-1)
  | some path =>
      match ← namei p path with
      | none => pure (-1)
      | some ip => do
          ilock ip
          let v ← getInode ip
          if v.type ≠ T_DIR then
            iunlockput ip
            pure (-1)
          else
            iunlock ip
            match ← getCwd p with
            | none => Sys.panic "trap"
            | some old => do
                iput old
                setCwd p (some ip)
                pure 0

/-! ## Pipes -/

/-- Allocate a pipe and a file for each of its ends. -/
def pipealloc : Sys (Option (FileId × FileId)) := do
  match ← filealloc with
  | none => pure none
  | some f0 =>
      match ← filealloc with
      | none => do
          fileclose f0
          pure none
      | some f1 => do
          match ← kalloc with
          | none => do
              fileclose f0
              fileclose f1
              pure none
          | some page => do
              pipeOpen page
              let v0 ← getFile f0
              setFile f0 { v0.toOpenFile with
                type := .pipe, readable := true, writable := false, pipe := page }
              let v1 ← getFile f1
              setFile f1 { v1.toOpenFile with
                type := .pipe, readable := false, writable := true, pipe := page }
              pure (some (f0, f1))

/-- `pipe`, for a buffer that passes `argptr`. -/
def sysPipe (p : ProcId) : Sys ℤ := do
  match ← pipealloc with
  | none => pure (-1)
  | some (rf, wf) =>
      match ← fdalloc p rf with
      | none => do
          fileclose rf
          fileclose wf
          pure (-1)
      | some fd0 =>
          match ← fdalloc p wf with
          | none => do
              setOfile p fd0 none
              fileclose rf
              fileclose wf
              pure (-1)
          | some _ => pure 0

/-! ## Processes -/

/-- The reads of `exec`, at the offsets and lengths that the headers ask for. -/
def execReads (ip : InodeId) : List (ℕ × ℕ) → Sys Unit
  | [] => pure ()
  | (off, n) :: rest => do
      let _ ← readi ip off n
      execReads ip rest

/-- What `exec` does to the file system: it reads parts of the file, which the file's headers
and the memory left decide. -/
def exec (p : ProcId) (path : Option Name) (reads : List (ℕ × ℕ)) : Sys ℤ := do
  match path with
  | none => pure (-1)
  | some path =>
      match ← namei p path with
      | none => pure (-1)
      | some ip => do
          ilock ip
          execReads ip reads
          iunlockput ip
          pure 0

/-- The loop of `fork` that duplicates the parent's files into the child `np`. -/
def forkFiles (p np : ProcId) : List Fd → Sys Unit
  | [] => pure ()
  | fd :: rest => do
      match ← getOfile p fd with
      | none => pure ()
      | some f => do
          filedup f
          setOfile np fd (some f)
      forkFiles p np rest

/-- What `fork` does to the file system when it makes the child `np`. -/
def fork (p np : ProcId) : Sys ℤ := do
  forkFiles p np (List.finRange NOFILE)
  match ← getCwd p with
  | none => Sys.panic "trap"
  | some ip => do
      idup ip
      setCwd np (some ip)
      pure 0

/-- The loop of `exit` that closes the open files. -/
def exitFiles (p : ProcId) : List Fd → Sys Unit
  | [] => pure ()
  | fd :: rest => do
      match ← getOfile p fd with
      | none => pure ()
      | some f => do
          fileclose f
          setOfile p fd none
      exitFiles p rest

/-- The first process. -/
def initproc : ProcId := ⟨0, by decide⟩

/-- What `exit` does to the file system. -/
def exit (p : ProcId) : Sys ℤ :=
  if p = initproc then Sys.panic "init exiting"
  else do
    exitFiles p (List.finRange NOFILE)
    match ← getCwd p with
    | none => Sys.panic "trap"
    | some ip => do
        iput ip
        setCwd p none
        pure 0

/-! ## System calls -/

/-- A system call with its arguments. -/
inductive Call
  | dup (fd : ℤ)
  | read (fd n : ℤ)
  | write (fd : ℤ) (src : ℕ → UInt8) (n : ℤ)
  | close (fd : ℤ)
  | fstat (fd : ℤ)
  | link (old new : Option Name)
  | unlink (path : Option Name)
  | open (path : Option Name) (omode : UInt32)
  | mkdir (path : Option Name)
  | mknod (path : Option Name) (major minor : ℤ)
  | chdir (path : Option Name)
  | exec (path : Option Name) (reads : List (ℕ × ℕ))
  | pipe
  | fork (np : ProcId)
  | exit

/-- The program of a system call of process `p`. -/
def Call.prog (p : ProcId) : Call → Sys ℤ
  | dup fd => sysDup p fd
  | read fd n => sysRead p fd n
  | write fd src n => sysWrite p fd src n
  | close fd => sysClose p fd
  | fstat fd => sysFstat p fd
  | link old new => sysLink p old new
  | unlink path => sysUnlink p path
  | Call.open path omode => sysOpen p path omode
  | mkdir path => sysMkdir p path
  | mknod path major minor => sysMknod p path major minor
  | chdir path => sysChdir p path
  | exec path reads => Fs.exec p path reads
  | pipe => sysPipe p
  | fork np => Fs.fork p np
  | exit => Fs.exit p

/-- Can process `p` make this call?  It must be alive, and `fork` must find a process
structure without files, as `exit` leaves it. -/
def Call.Enabled (s : FsState) (p : ProcId) : Call → Prop
  | fork np => (s.proc p).cwd.isSome = true ∧ (s.proc np).cwd = Option.none ∧
      ∀ fd, (s.proc np).ofile fd = Option.none
  | _ => (s.proc p).cwd.isSome = true

instance (s : FsState) (p : ProcId) (c : Call) : Decidable (c.Enabled s p) := by
  cases c <;> unfold Call.Enabled <;> infer_instance

end Xv6.Fs
