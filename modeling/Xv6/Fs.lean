import Xv6.Fs.State

/-!
# The file system (`fs.c`)

Blocks, inodes, directories and paths, as programs over the actions of `Xv6.Fs.State`.  Loops
run over the list of values of their counter, or count down a bound on their iterations.
-/

namespace Xv6.Fs

open Lib

/-! ## Actions by the names of the source -/

/-- Return a busy buffer with the contents of the block. -/
def bread (dev b : ℕ) : Sys ℕ :=
  if dev ≠ ROOTDEV then Sys.panic "iderw: request not for disk 1"
  else do
    Sys.act (.bread b)
    pure b

/-- `bp->data`. -/
def data (bp : ℕ) : Sys Block := Sys.act (.data bp)

/-- Store into `bp->data`. -/
def setData (bp : ℕ) (d : Block) : Sys Unit := Sys.act (.setData bp d)

/-- Release a busy buffer. -/
def brelse (bp : ℕ) : Sys Unit := Sys.act (.brelse bp)

/-- Append a modified block to the log. -/
def logWrite (bp : ℕ) : Sys Unit := Sys.act (.logWrite bp)

/-- Start a transaction. -/
def beginTrans : Sys Unit := Sys.act .beginTrans

/-- Commit the transaction. -/
def commitTrans : Sys Unit := Sys.act .commitTrans

/-- Find the inode with number `inum` on device `dev` and return the in-memory copy. -/
def iget (dev inum : ℕ) : Sys InodeId := Sys.act (.iget dev inum)

/-- Increment the reference count of an inode. -/
def idup (ip : InodeId) : Sys Unit := Sys.act (.idup ip)

/-- The fields of `*ip`. -/
def getInode (ip : InodeId) : Sys Inode := Sys.act (.getInode ip)

/-- Store into the fields of `*ip` that are copies of the inode on disk. -/
def setInode (ip : InodeId) (v : DInode) : Sys Unit := Sys.act (.setInode ip v)

/-- Unlock an inode. -/
def iunlock (ip : InodeId) : Sys Unit := Sys.act (.iunlock ip)

/-- Set the flag `I_VALID` of an inode. -/
def setValid (ip : InodeId) : Sys Unit := Sys.act (.setValid ip)

/-- The first part of `iput`: is this the last reference to an inode without links?  If so the
inode is busy now, and otherwise the reference is dropped. -/
def iputStart (ip : InodeId) : Sys Bool := Sys.act (.iputStart ip)

/-- The end of `iput` after freeing an inode. -/
def iputEnd (ip : InodeId) : Sys Unit := Sys.act (.iputEnd ip)

/-- The current directory of a process. -/
def getCwd (p : ProcId) : Sys (Option InodeId) := Sys.act (.getCwd p)

/-! ## Blocks -/

/-- Read the super block. -/
def readsb (dev : ℕ) : Sys Superblock := do
  let bp ← bread dev 1
  let d ← data bp
  brelse bp
  pure (Superblock.decode d)

/-- Zero a block. -/
def bzero (dev bno : ℕ) : Sys Unit := do
  let bp ← bread dev bno
  setData bp fun _ => 0
  logWrite bp
  brelse bp

/-- The inner loop of `balloc`: the first clear bit of a bitmap block whose first bit belongs
to block `b`. -/
@[irreducible] def firstFree (d : Block) (b size : ℕ) : Option ℕ :=
  (List.range BPB).find? fun bi => decide (b + bi < size) && !d.bitAt bi

/-- The loop of `balloc` over the bitmap blocks with the given numbers. -/
def ballocLoop (dev : ℕ) (sb : Superblock) : List ℕ → Sys ℕ
  | [] => Sys.panic "balloc: out of blocks"
  | g :: gs => do
      let b := g * BPB
      let bp ← bread dev (BBLOCK b sb.ninodes)
      let d ← data bp
      match firstFree d b sb.size with
      | some bi =>
          setData bp (d.setBit bi)
          logWrite bp
          brelse bp
          bzero dev (b + bi)
          Sys.act (.ballocDone (b + bi))
          pure (b + bi)
      | none =>
          brelse bp
          ballocLoop dev sb gs

/-- Allocate a zeroed disk block. -/
def balloc (dev : ℕ) : Sys ℕ := do
  Sys.act .ballocEnter
  let sb ← readsb dev
  ballocLoop dev sb (List.range ((sb.size + BPB - 1) / BPB))

/-- Free a disk block. -/
def bfree (dev b : ℕ) : Sys Unit := do
  let sb ← readsb dev
  let bp ← bread dev (BBLOCK b sb.ninodes)
  let d ← data bp
  if d.bitAt (b % BPB) = false then Sys.panic "freeing free block"
  else
    setData bp (d.clearBit (b % BPB))
    logWrite bp
    brelse bp

/-! ## Inodes -/

/-- The offset of inode `inum` in its block. -/
def inodeOffset (inum : ℕ) : ℕ := inum % IPB * 64

/-- The loop of `ialloc` over the given inode numbers. -/
def iallocLoop (dev : ℕ) (type : Int16) : List ℕ → Sys InodeId
  | [] => Sys.panic "ialloc: no inodes"
  | inum :: rest => do
      let bp ← bread dev (IBLOCK inum)
      let d ← data bp
      if (DInode.decode d (inodeOffset inum)).type = 0 then
        setData bp ({ DInode.zero with type := type }.encode d (inodeOffset inum))
        logWrite bp
        brelse bp
        Sys.act (.iallocDone inum)
        iget dev inum
      else
        brelse bp
        iallocLoop dev type rest

/-- Allocate a new inode with the given type on device `dev`. -/
def ialloc (dev : ℕ) (type : Int16) : Sys InodeId := do
  let sb ← readsb dev
  iallocLoop dev type ((List.range sb.ninodes).drop 1)

/-- Copy a modified in-memory inode to disk. -/
def iupdate (ip : InodeId) : Sys Unit := do
  let v ← getInode ip
  let bp ← bread v.dev (IBLOCK v.inum)
  let d ← data bp
  setData bp (v.toDInode.encode d (inodeOffset v.inum))
  logWrite bp
  brelse bp

/-- Lock the given inode, and read it from disk if necessary. -/
def ilock (ip : InodeId) : Sys Unit := do
  Sys.act (.ilock ip)
  let v ← getInode ip
  if v.valid = false then
    let bp ← bread v.dev (IBLOCK v.inum)
    let d ← data bp
    setInode ip (DInode.decode d (inodeOffset v.inum))
    brelse bp
    setValid ip
    if (DInode.decode d (inodeOffset v.inum)).type = 0 then Sys.panic "ilock: no type"

/-! ## Inode content -/

/-- The step of `bmap` that reads place `k` of `ip->addrs`, and allocates a block for it if
there is none. -/
def bmapAddr (ip : InodeId) (v : Inode) (k : ℕ) : Sys ℕ :=
  if v.addr k = 0 then do
    let addr ← balloc v.dev
    setInode ip (v.setAddr k addr)
    pure addr
  else
    pure (v.addr k)

/-- Return the disk block address of the `bn`-th block in inode `ip`.  If there is no such
block, allocate one. -/
def bmap (ip : InodeId) (bn : ℕ) : Sys ℕ := do
  let v ← getInode ip
  if bn < NDIRECT then bmapAddr ip v bn
  else if bn - NDIRECT < NINDIRECT then
    -- load the indirect block, allocating if necessary
    let ind ← bmapAddr ip v NDIRECT
    let bp ← bread v.dev ind
    let d ← data bp
    if d.get32 (4 * (bn - NDIRECT)) = 0 then
      let addr ← balloc v.dev
      setData bp (d.set32 (4 * (bn - NDIRECT)) addr)
      logWrite bp
      brelse bp
      pure addr
    else
      brelse bp
      pure (d.get32 (4 * (bn - NDIRECT)))
  else
    Sys.panic "bmap: out of range"

/-- The loop of `itrunc` over the direct blocks. -/
def itruncDirect (ip : InodeId) : List ℕ → Sys Unit
  | [] => pure ()
  | i :: rest => do
      let v ← getInode ip
      if v.addr i ≠ 0 then
        bfree v.dev (v.addr i)
        setInode ip (v.setAddr i 0)
      itruncDirect ip rest

/-- The loop of `itrunc` over the entries of the indirect block, whose data are `d`: the
buffer is busy, so they stay the same. -/
def itruncIndirect (dev : ℕ) (d : Block) : List ℕ → Sys Unit
  | [] => pure ()
  | j :: rest => do
      if d.get32 (4 * j) ≠ 0 then
        bfree dev (d.get32 (4 * j))
      itruncIndirect dev d rest

/-- Truncate an inode (discard its contents). -/
def itrunc (ip : InodeId) : Sys Unit := do
  itruncDirect ip (List.range NDIRECT)
  let v ← getInode ip
  if v.addr NDIRECT ≠ 0 then
    let bp ← bread v.dev (v.addr NDIRECT)
    let d ← data bp
    itruncIndirect v.dev d (List.range NINDIRECT)
    brelse bp
    bfree v.dev (v.addr NDIRECT)
    setInode ip (v.setAddr NDIRECT 0)
  let v ← getInode ip
  setInode ip { v.toDInode with size := 0 }
  iupdate ip

/-- Drop a reference to an in-memory inode.  If that was the last reference and the inode has
no links to it, free the inode and its content on disk. -/
def iput (ip : InodeId) : Sys Unit := do
  let free ← iputStart ip
  if free = true then
    itrunc ip
    let v ← getInode ip
    setInode ip { v.toDInode with type := 0 }
    iupdate ip
    iputEnd ip

/-- Unlock, then put. -/
def iunlockput (ip : InodeId) : Sys Unit := do
  iunlock ip
  iput ip

/-- Does the device of this major number have a driver?  Only the console has. -/
def hasDriver (major : Int16) : Prop := 0 ≤ major.toInt ∧ major.toInt < NDEV ∧ major = 1

instance (major : Int16) : Decidable (hasDriver major) := by
  unfold hasDriver
  infer_instance

/-- `consoleread`: the lock is given up while the reader waits for input.  The length is an
`int` again. -/
def consoleread (ip : InodeId) (n : ℕ) : Sys (ℤ × List UInt8) := do
  iunlock ip
  let line : Option (List UInt8) ← Sys.act .console
  ilock ip
  let n := (Int.bmod n (2 ^ 32)).toNat
  match line with
  | none => pure (-1, [])
  | some l => pure ((l.take n).length, l.take n)

/-- `consolewrite`. -/
def consolewrite (ip : InodeId) (n : ℕ) : Sys ℤ := do
  iunlock ip
  ilock ip
  pure n

/-- The loop of `readi`; the first argument bounds its iterations. -/
def readiLoop (ip : InodeId) (dev : ℕ) : ℕ → ℕ → ℕ → Sys (List UInt8)
  | 0, _, _ => pure []
  | fuel + 1, off, n =>
      if n = 0 then pure []
      else do
        let b ← bmap ip (off / BSIZE)
        let bp ← bread dev b
        let m := min n (BSIZE - off % BSIZE)
        let d ← data bp
        brelse bp
        let rest ← readiLoop ip dev fuel (off + m) (n - m)
        pure (d.slice (off % BSIZE) m ++ rest)

/-- The body of `readi`. -/
def readiBody (ip : InodeId) (off n : ℕ) : Sys (ℤ × List UInt8) := do
  let v ← getInode ip
  if v.type = T_DEV then
    if hasDriver v.major then consoleread ip n else pure (-1, [])
  else if v.size.toNat < off ∨ (off + n) % 2 ^ 32 < off then pure (-1, [])
  else
    let n := if v.size.toNat < off + n then v.size.toNat - off else n
    let l ← readiLoop ip v.dev n off n
    pure (n, l)

/-- Read data from an inode: the value returned and the bytes stored. -/
def readi (ip : InodeId) (off n : ℕ) : Sys (ℤ × List UInt8) := do
  Sys.act .readiEnter
  let r ← readiBody ip off n
  Sys.act .readiLeave
  pure r

/-- The loop of `writei`; the first argument bounds its iterations. -/
def writeiLoop (ip : InodeId) (dev : ℕ) : ℕ → (ℕ → UInt8) → ℕ → ℕ → Sys Unit
  | 0, _, _, _ => pure ()
  | fuel + 1, src, off, n =>
      if n = 0 then pure ()
      else do
        let b ← bmap ip (off / BSIZE)
        let bp ← bread dev b
        let m := min n (BSIZE - off % BSIZE)
        let d ← data bp
        setData bp (d.blit (off % BSIZE) m src)
        logWrite bp
        brelse bp
        writeiLoop ip dev fuel (fun j => src (m + j)) (off + m) (n - m)

/-- Write the bytes `src 0, src 1, …` to an inode. -/
def writei (ip : InodeId) (src : ℕ → UInt8) (off n : ℕ) : Sys ℤ := do
  let v ← getInode ip
  if v.type = T_DEV then
    if hasDriver v.major then consolewrite ip n else pure (-1)
  else if v.size.toNat < off ∨ (off + n) % 2 ^ 32 < off then pure (-1)
  else if MAXFILE * BSIZE < off + n then pure (-1)
  else
    writeiLoop ip v.dev n src off n
    let v ← getInode ip
    if 0 < n ∧ v.size.toNat < off + n then
      setInode ip { v.toDInode with size := UInt32.ofNat (off + n) }
      iupdate ip
    pure n

/-! ## Directories -/

/-- The offsets of the entries of a directory of the given size. -/
def direntOffsets (size : ℕ) : List ℕ :=
  (List.range ((size + Dirent.SIZE - 1) / Dirent.SIZE)).map (Dirent.SIZE * ·)

/-- The loop of `dirlookup` over the given offsets. -/
def dirlookupLoop (dp : InodeId) (dev : ℕ) (name : Name) :
    List ℕ → Sys (Option (InodeId × ℕ))
  | [] => pure none
  | off :: rest => do
      let (r, l) ← readi dp off Dirent.SIZE
      if r ≠ Dirent.SIZE then Sys.panic "dirlink read"
      else if (Dirent.decode l).inum = 0 then dirlookupLoop dp dev name rest
      else if namecmp name (Dirent.decode l).name = 0 then
        let ip ← iget dev (Dirent.decode l).inum
        pure (some (ip, off))
      else dirlookupLoop dp dev name rest

/-- Look for a directory entry in a directory; the result has its byte offset. -/
def dirlookup (dp : InodeId) (name : Name) : Sys (Option (InodeId × ℕ)) := do
  let v ← getInode dp
  if v.type ≠ T_DIR then Sys.panic "dirlookup not DIR"
  else dirlookupLoop dp v.dev name (direntOffsets v.size.toNat)

/-- The loop of `dirlink` that looks for an empty entry; `last` is the offset after all. -/
def emptyDirent (dp : InodeId) (last : ℕ) : List ℕ → Sys ℕ
  | [] => pure last
  | off :: rest => do
      let (r, l) ← readi dp off Dirent.SIZE
      if r ≠ Dirent.SIZE then Sys.panic "dirlink read"
      else if (Dirent.decode l).inum = 0 then pure off
      else emptyDirent dp last rest

/-- Write a new directory entry `(name, inum)` into the directory `dp`. -/
def dirlink (dp : InodeId) (name : Name) (inum : ℕ) : Sys ℤ := do
  match ← dirlookup dp name with
  | some (ip, _) =>
      iput ip
      pure (-1)
  | none =>
      let v ← getInode dp
      let offs := direntOffsets v.size.toNat
      let off ← emptyDirent dp (Dirent.SIZE * offs.length) offs
      let r ← writei dp (Dirent.byte inum name) off Dirent.SIZE
      if r ≠ Dirent.SIZE then Sys.panic "dirlink"
      else pure 0

/-! ## Paths -/

/-- The end of `namex`, when no path element is left. -/
def namexEnd (parent : Bool) (ip : InodeId) (name : Name) : Sys (Option (InodeId × Name)) :=
  if parent = true then do
    iput ip
    pure none
  else
    pure (some (ip, name))

/-- The loop of `namex`; the first argument bounds its iterations. -/
def namexLoop (parent : Bool) :
    ℕ → InodeId → Name → Name → Sys (Option (InodeId × Name))
  | 0, ip, _, name => namexEnd parent ip name
  | fuel + 1, ip, path, name =>
      match skipelem path with
      | none => namexEnd parent ip name
      | some (rest, name) => do
          ilock ip
          let v ← getInode ip
          if v.type ≠ T_DIR then
            iunlockput ip
            pure none
          else if parent = true ∧ rest = [] then
            -- stop one level early
            iunlock ip
            pure (some (ip, name))
          else
            match ← dirlookup ip name with
            | none =>
                iunlockput ip
                pure none
            | some (next, _) =>
                iunlockput ip
                namexLoop parent fuel next rest name

/-- Look up and return the inode for a path name, or that of the parent and the final path
element. -/
def namex (p : ProcId) (path : Name) (parent : Bool) : Sys (Option (InodeId × Name)) :=
  if path.head? = some slash then do
    let ip ← iget ROOTDEV ROOTINO
    namexLoop parent path.length ip path []
  else do
    match ← getCwd p with
    | none => Sys.panic "trap"
    | some ip =>
        idup ip
        namexLoop parent path.length ip path []

/-- The inode for a path name. -/
def namei (p : ProcId) (path : Name) : Sys (Option InodeId) := do
  let r ← namex p path false
  pure (r.map Prod.fst)

/-- The inode of the parent directory and the final path element. -/
def nameiparent (p : ProcId) (path : Name) : Sys (Option (InodeId × Name)) :=
  namex p path true

end Xv6.Fs
