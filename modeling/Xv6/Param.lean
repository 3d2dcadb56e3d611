import Mathlib.Data.Nat.Notation
import Mathlib.Tactic.Lemma

/-!
# Constants of the kernel

The constants of `param.h`, `fs.h` and `buf.h` that the modelled code uses.
-/

namespace Xv6

/-- Maximum number of processes. -/
def NPROC : ℕ := 64

/-- Size of the disk block cache. -/
def NBUF : ℕ := 10

/-- Device number of the file system's root disk. -/
def ROOTDEV : ℕ := 1

/-- Maximum number of data sectors in the on-disk log. -/
def LOGSIZE : ℕ := 10

/-- Block size. -/
def BSIZE : ℕ := 512

/-- Open files per process. -/
def NOFILE : ℕ := 16

/-- Open files per system. -/
def NFILE : ℕ := 100

/-- Maximum number of active inodes. -/
def NINODE : ℕ := 50

/-- Maximum major device number. -/
def NDEV : ℕ := 10

/-- Root inode number. -/
def ROOTINO : ℕ := 1

/-- Block addresses in an inode itself. -/
def NDIRECT : ℕ := 12

/-- Block addresses in the indirect block. -/
def NINDIRECT : ℕ := 128

/-- Maximum number of blocks of a file. -/
def MAXFILE : ℕ := NDIRECT + NINDIRECT

/-- Inodes per block. -/
def IPB : ℕ := 8

/-- Bitmap bits per block. -/
def BPB : ℕ := 4096

/-- Bytes of a name in a directory entry. -/
def DIRSIZ : ℕ := 14

/-! ## Their values -/

lemma NPROC_eq : NPROC = 64 := rfl

lemma BSIZE_eq : BSIZE = 512 := rfl

lemma ROOTINO_eq : ROOTINO = 1 := rfl

lemma NDIRECT_eq : NDIRECT = 12 := rfl

lemma NINDIRECT_eq : NINDIRECT = 128 := rfl

lemma MAXFILE_eq : MAXFILE = 140 := rfl

lemma MAXFILE_mul_BSIZE : MAXFILE * BSIZE = 71680 := rfl

end Xv6
