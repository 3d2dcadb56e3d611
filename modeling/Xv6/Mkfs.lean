import Xv6.Fs.Machine

/-!
# Making a file system (`mkfs.c`)

`mkfs` runs on the host: it writes an image with a root directory and one file for each of its
arguments.  The image file is a function from sectors to their bytes and its length; reading
a sector behind its end fails.  A failed assertion, or `exit(1)`, is `none`.

The host's `read` returns the bytes of a file in chunks of its own choice.
-/

namespace Xv6.Mkfs

open Lib

/-! ## Globals -/

/-- Number of data blocks. -/
def nblocks : ℕ := 985

/-- Number of log blocks. -/
def nlog : ℕ := LOGSIZE

/-- Number of inodes. -/
def ninodes : ℕ := 200

/-- Size of the image in blocks. -/
def size : ℕ := 1024

/-- The superblock that is written. -/
def sb : Superblock := ⟨size, nblocks, ninodes, nlog⟩

lemma ninodes_eq : ninodes = 200 := rfl

lemma size_eq : size = 1024 := rfl

/-- Number of bitmap blocks. -/
def bitblocks : ℕ := size / (512 * 8) + 1

/-- The image file, with its length in sectors, and the variables. -/
structure Image where
  disk : ℕ → Block
  sectors : ℕ
  freeblock : ℕ
  usedblocks : ℕ
  freeinode : ℕ

namespace Image

/-- Write a sector. -/
def wsect (s : Image) (sec : ℕ) (buf : Block) : Image :=
  { s with disk := Function.update s.disk sec buf, sectors := max s.sectors (sec + 1) }

/-- Read a sector. -/
def rsect (s : Image) (sec : ℕ) : Option Block := if sec < s.sectors then
    some (s.disk sec) else none

/-- `freeblock++` and `usedblocks++`. -/
def take (s : Image) :
    Image := { s with freeblock := s.freeblock + 1, usedblocks := s.usedblocks + 1 }

end Image

/-! ## Inodes -/

/-- The block of an inode. -/
def i2b (inum : ℕ) : ℕ := inum / IPB + 2

/-- Write an inode. -/
def winode (inum : ℕ) (ip : DInode) (s : Image) : Option Image := do
  let buf ← s.rsect (i2b inum)
  pure (s.wsect (i2b inum) (ip.encode buf (inum % IPB * 64)))

/-- Read an inode. -/
def rinode (inum : ℕ) (s : Image) : Option DInode := do
  let buf ← s.rsect (i2b inum)
  pure (DInode.decode buf (inum % IPB * 64))

/-- Take the next inode. -/
def ialloc (type : Int16) (s : Image) : Option (ℕ × Image) := do
  let inum := s.freeinode
  let s' ← winode inum { DInode.zero with type := type, nlink := 1 }
    { s with freeinode := inum + 1 }
  pure (inum, s')

/-- Write the bitmap: the first `used` blocks are in use. -/
def balloc (used : ℕ) (s : Image) : Option Image :=
  if used < 512 * 8 then
    some (s.wsect (ninodes / IPB + 3) ((List.range used).foldl Bytes.setBit Fs.zeroBlock))
  else none

/-! ## Appending -/

/-- The part of the loop of `iappend` that finds the block of `fbn`, and takes a new one if there is
none. -/
def fileBlock (din : DInode) (fbn : ℕ) (s : Image) : Option (ℕ × DInode × Image) :=
  if fbn < NDIRECT then
    let (din, s) := if din.addr fbn = 0 then (din.setAddr fbn s.freeblock, s.take) else (din, s)
    some (din.addr fbn, din, s)
  else do
    let (din, s) := if din.addr NDIRECT = 0 then (din.setAddr NDIRECT s.freeblock, s.take)
      else (din, s)
    let indirect ← s.rsect (din.addr NDIRECT)
    if indirect.get32 (4 * (fbn - NDIRECT)) = 0 then
      let indirect := indirect.set32 (4 * (fbn - NDIRECT)) s.freeblock
      let s := s.take.wsect (din.addr NDIRECT) indirect
      some (indirect.get32 (4 * (fbn - NDIRECT)), din, s)
    else
      some (indirect.get32 (4 * (fbn - NDIRECT)), din, s)

/-- The loop of `iappend`; the first argument bounds its iterations. -/
def iappendLoop : ℕ → DInode → ℕ → List UInt8 → Image → Option (DInode × ℕ × Image)
  | 0, din, off, _, s => some (din, off, s)
  | n + 1, din, off, p, s =>
      if p = [] then some (din, off, s)
      else if MAXFILE ≤ off / 512 then none
      else do
        let (x, din, s) ← fileBlock din (off / 512) s
        let n1 := min p.length ((off / 512 + 1) * 512 - off)
        let buf ← s.rsect x
        let s := s.wsect x (buf.blit (off - off / 512 * 512) n1 fun j => p.getD j 0)
        iappendLoop n din (off + n1) (p.drop n1) s

/-- Append bytes to an inode. -/
def iappend (inum : ℕ) (p : List UInt8) (s : Image) : Option Image := do
  let din ← rinode inum s
  let (din, off, s) ← iappendLoop p.length din din.size.toNat p s
  winode inum { din with size := UInt32.ofNat off } s

/-! ## Arguments -/

/-- What the calls of `read` return for a file until one returns no more: each at most as much as
the buffer has room for. -/
structure Source where
  chunks : List (List UInt8)
  sized : ∀ c ∈ chunks, 0 < c.length ∧ c.length ≤ 512

/-- The bytes of the file. -/
def Source.bytes (f : Source) : List UInt8 := f.chunks.flatten

/-- An argument: a string, and the file that `open` finds there. -/
structure Arg where
  path : Name
  text : 0 ∉ path
  file : Option Source

/-- The byte `_`. -/
def underscore : UInt8 := 95

/-- The name that is written: without a leading `_`. -/
def Arg.name (a : Arg) : Name := if a.path.head? = some underscore then a.path.tail else a.path

/-- The bytes of a directory entry. -/
def entry (inum : ℕ) (name : Name) :
    List UInt8 := (List.range Dirent.SIZE).map (Dirent.byte inum name)

/-! ## The program -/

/-- Append all that `read` returns. -/
def iappendAll (inum : ℕ) (chunks : List (List UInt8)) (s : Image) : Option Image :=
  chunks.foldlM (fun s c => iappend inum c s) s

/-- The body of the loop over the arguments. -/
def addFile (rootino : ℕ) (s : Image) (a : Arg) : Option Image :=
  if slash ∈ a.path then none
  else do
    let f ← a.file
    let (inum, s) ← ialloc T_FILE s
    let s ← iappend rootino (entry inum a.name) s
    iappendAll inum f.chunks s

/-- Fix the size of the root directory. -/
def fixSize (rootino : ℕ) (s : Image) : Option Image := do
  let din ← rinode rootino s
  winode rootino { din with size := UInt32.ofNat ((din.size.toNat / BSIZE + 1) * BSIZE) } s

/-- The sector of the superblock. -/
def superblock : Block :=
  (((Fs.zeroBlock.set32 0 size).set32 4 nblocks).set32 8 ninodes).set32 12 nlog

/-- The image file after it has been zeroed and the superblock has been written. -/
def blank (usedblocks : ℕ) : Image :=
  let s : Image := ⟨fun _ => Fs.zeroBlock, 0, usedblocks, usedblocks, 1⟩
  let s := (List.range (nblocks + usedblocks + nlog)).foldl (fun s i => s.wsect i Fs.zeroBlock) s
  s.wsect 1 superblock

/-- `main`: the image that is made of the arguments. -/
def main (args : List Arg) : Option Image :=
  let usedblocks := ninodes / IPB + 3 + bitblocks
  if nblocks + usedblocks + nlog ≠ size then none
  else do
    let (rootino, s) ← ialloc T_DIR (blank usedblocks)
    if rootino ≠ ROOTINO then none
    else
      let s ← iappend rootino (entry rootino [46]) s
      let s ← iappend rootino (entry rootino [46, 46]) s
      let s ← args.foldlM (addFile rootino) s
      let s ← fixSize rootino s
      balloc s.usedblocks s

end Xv6.Mkfs
