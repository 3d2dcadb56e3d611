import Xv6.SysFile
import Xv6.Syscall

/-!
# The user bytes of `read` and `write`

`sys_read` and `sys_write` check their buffer once, with `argptr`; after that every byte goes
through a pointer into the memory of the process.  The functions of this module follow these
pointers and list the addresses that are read or written, in order.  How far a transfer comes
also depends on what other processes and devices do meanwhile; that is a `World`, which is
arbitrary.
-/

namespace Xv6.Transfer

open Lib

/-- The address `i` bytes after `addr`. -/
def ptr (addr i : ℕ) : ℕ := (addr + i) % 2 ^ 32

/-- An inode as `readi` and `writei` find it, and the offset they are given. -/
structure Node where
  type : Int16
  major : Int16
  size : UInt32
  off : UInt32

/-- What a transfer finds outside of its process: the file, the bytes that a pipe holds when it
is read, whether there is room in it for the `i`th byte in the end, what the console delivers as
its `i`th byte unless the process is killed, and the inode when it is locked for the `i`th
time. -/
structure World where
  type : FileType
  readable : Bool
  writable : Bool
  avail : ℕ
  room : ℕ → Bool
  input : ℕ → Option UInt8
  node : ℕ → Node

/-- `for(i = 0; i < n; i++)` over the bytes of a buffer, as long as `more i`; the first argument
is what is left of `n`. -/
def copyLoop (more : ℕ → Bool) (addr : ℕ) : ℕ → ℕ → List ℕ
  | 0, _ => []
  | k + 1, i => if more i = true then ptr addr i :: copyLoop more addr k (i + 1) else []

/-- `piperead` stops when the pipe is empty. -/
def piperead (w : World) (addr : ℕ) (n : ℤ) : List ℕ :=
  copyLoop (fun i => decide (i < w.avail)) addr n.toNat 0

/-- `pipewrite` stops when it cannot wait for room. -/
def pipewrite (w : World) (addr : ℕ) (n : ℤ) : List ℕ := copyLoop w.room addr n.toNat 0

/-- `consolewrite` puts out all bytes. -/
def consolewrite (buf : ℕ) (n : ℤ) : List ℕ := copyLoop (fun _ => true) buf n.toNat 0

/-- The loop of `consoleread`: `^D` ends it before a byte is stored, the end of a line after. -/
def consolereadLoop (w : World) (dst : ℕ) : ℕ → ℕ → List ℕ
  | 0, _ => []
  | k + 1, i =>
      match w.input i with
      | none => []
      | some c =>
          if c = 4 then []
          else if c = 10 then [ptr dst i]
          else ptr dst i :: consolereadLoop w dst k (i + 1)

/-- `consoleread`. -/
def consoleread (w : World) (dst : ℕ) (n : ℤ) : List ℕ := consolereadLoop w dst n.toNat 0

/-- `memmove` to or from user memory. -/
def memmove (addr m : ℕ) : List ℕ := (List.range m).map (ptr addr)

/-- The loops of `readi` and `writei`, block by block; the first argument bounds the
iterations. -/
def blockLoop : ℕ → ℕ → ℕ → ℕ → List ℕ
  | 0, _, _, _ => []
  | fuel + 1, addr, off, n =>
      if n = 0 then []
      else
        let m := min n (BSIZE - off % BSIZE)
        memmove addr m ++ blockLoop fuel (ptr addr m) (off + m) (n - m)

/-- `readi`: the length `n` is unsigned here, and `consoleread` takes it as an `int` again. -/
def readi (w : World) (d : Node) (dst n : ℕ) : List ℕ :=
  if d.type = T_DEV then
    if Fs.hasDriver d.major then consoleread w dst (Int.bmod n (2 ^ 32)) else []
  else if d.size < d.off ∨ (d.off.toNat + n) % 2 ^ 32 < d.off.toNat then []
  else
    let n := if d.size.toNat < (d.off.toNat + n) % 2 ^ 32 then d.size.toNat - d.off.toNat else n
    blockLoop n dst d.off.toNat n

/-- `writei`: the addresses, and whether it succeeds. -/
def writei (d : Node) (src n : ℕ) : List ℕ × Bool :=
  if d.type = T_DEV then
    if Fs.hasDriver d.major then (consolewrite src (Int.bmod n (2 ^ 32)), true) else ([], false)
  else if d.size < d.off ∨ (d.off.toNat + n) % 2 ^ 32 < d.off.toNat then ([], false)
  else if MAXFILE * BSIZE < (d.off.toNat + n) % 2 ^ 32 then ([], false)
  else (blockLoop n src d.off.toNat n, true)

/-- `fileread`. -/
def fileread (w : World) (addr : ℕ) (n : ℤ) : List ℕ :=
  if w.readable = false then []
  else
    match w.type with
    | .pipe => piperead w addr n
    | .inode => readi w (w.node 0) addr (n % 2 ^ 32).toNat
    | .none => []

/-- The loop of `filewrite`, with `n` bytes left to write in the `k`th transaction; the first
argument bounds the iterations. -/
def filewriteLoop (w : World) : ℕ → ℕ → ℕ → ℕ → List ℕ
  | 0, _, _, _ => []
  | fuel + 1, k, addr, n =>
      if n = 0 then []
      else
        let n1 := min n Fs.filewriteMax
        let r := writei (w.node k) addr n1
        if r.2 = false then r.1
        else r.1 ++ filewriteLoop w fuel (k + 1) (ptr addr n1) (n - n1)

/-- `filewrite`. -/
def filewrite (w : World) (addr : ℕ) (n : ℤ) : List ℕ :=
  if w.writable = false then []
  else
    match w.type with
    | .pipe => pipewrite w addr n
    | .inode => filewriteLoop w n.toNat 0 addr n.toNat
    | .none => []

/-- `argfd`: the open file of the descriptor in the `n`th argument. -/
def argfd (u : User) (ofile : Fd → Option World) (n : ℕ) : Option World :=
  match argint u n with
  | none => none
  | some fd => if h : 0 ≤ fd ∧ fd < NOFILE then ofile ⟨fd.toNat, toNat_lt_NOFILE h⟩ else none

/-- A system call with a descriptor, a buffer and a length: nothing if an argument does not pass
its check, and otherwise the addresses that `transfer` reads or writes. -/
def sysTransfer (transfer : World → ℕ → ℤ → List ℕ) (u : User) (ofile : Fd → Option World) :
    Option (List ℕ) :=
  match argfd u ofile 0, argint u 2 with
  | some w, some n => (argptr u 1 n).map fun p => transfer w p n
  | _, _ => none

/-- `sys_read`. -/
def sysRead : User → (Fd → Option World) → Option (List ℕ) := sysTransfer fileread

/-- `sys_write`. -/
def sysWrite : User → (Fd → Option World) → Option (List ℕ) := sysTransfer filewrite

/-! ## How far the loops reach -/

section Within

variable {w : World} {d : Node} {addr k m n : ℕ} {l l' : List ℕ}

/-- All addresses are among the `n` bytes from `addr` on. -/
def Within (addr n : ℕ) (l : List ℕ) : Prop := ∀ a ∈ l, ∃ i < n, a = ptr addr i

lemma within_nil : Within addr n [] := fun _ ha => absurd ha List.not_mem_nil

lemma Within.mono (h : Within addr m l) (hmn : m ≤ n) : Within addr n l := by
  intro a ha
  obtain ⟨i, hi, rfl⟩ := h a ha
  exact ⟨i, by omega, rfl⟩

lemma ptr_ptr (addr i j : ℕ) : ptr (ptr addr i) j = ptr addr (i + j) := by
  unfold ptr
  omega

/-- A transfer that goes on where another has ended. -/
lemma Within.append (h : Within addr m l) (h' : Within (ptr addr m) k l') :
    Within addr (m + k) (l ++ l') := by
  intro a ha
  rcases List.mem_append.1 ha with ha | ha
  · exact h.mono (Nat.le_add_right m k) a ha
  · obtain ⟨i, hi, rfl⟩ := h' a ha
    exact ⟨m + i, by omega, ptr_ptr addr m i⟩

lemma Within.cons {i : ℕ} (hi : i < n) (h : Within addr n l) : Within addr n (ptr addr i :: l) := by
  intro a ha
  rcases List.mem_cons.1 ha with rfl | ha
  · exact ⟨i, hi, rfl⟩
  · exact h a ha

lemma copyLoop_within {more : ℕ → Bool} {i : ℕ} (h : i + k ≤ n) :
    Within addr n (copyLoop more addr k i) := by
  induction k generalizing i with
  | zero => exact within_nil
  | succ k ih =>
      rw [copyLoop]
      split
      · exact (ih (by omega)).cons (by omega)
      · exact within_nil

lemma consolereadLoop_within {i : ℕ} (h : i + k ≤ n) :
    Within addr n (consolereadLoop w addr k i) := by
  induction k generalizing i with
  | zero => exact within_nil
  | succ k ih =>
      rw [consolereadLoop]
      split
      · exact within_nil
      · split_ifs
        · exact within_nil
        · exact within_nil.cons (by omega)
        · exact (ih (by omega)).cons (by omega)

lemma memmove_within : Within addr m (memmove addr m) := by
  intro a ha
  obtain ⟨i, hi, rfl⟩ := List.mem_map.1 ha
  exact ⟨i, List.mem_range.1 hi, rfl⟩

lemma blockLoop_within (fuel : ℕ) {off : ℕ} : Within addr n (blockLoop fuel addr off n) := by
  induction fuel generalizing addr off n with
  | zero => exact within_nil
  | succ fuel ih =>
      rw [blockLoop]
      split
      · exact within_nil
      · exact (memmove_within.append ih).mono (by omega)

/-- An `int` that was passed as a `uint` is the same `int` again. -/
lemma bmod_toNat {n : ℤ} (hlo : -2 ^ 31 ≤ n) (hhi : n < 2 ^ 31) :
    Int.bmod ((n % 2 ^ 32).toNat : ℤ) (2 ^ 32) = n := by
  have hcast : ((n % 2 ^ 32).toNat : ℤ) = n % 2 ^ 32 := by omega
  rw [hcast, Int.bmod_def]
  split <;> omega

lemma writei_within (hn : n < 2 ^ 31) : Within addr n (writei d addr n).1 := by
  unfold writei
  split_ifs
  · have hint : ((n : ℤ) % 2 ^ 32).toNat = n := by omega
    have hback := bmod_toNat (n := n) (by omega) (by omega)
    rw [hint] at hback
    rw [hback]
    exact copyLoop_within (by omega)
  · exact within_nil
  · exact within_nil
  · exact within_nil
  · exact blockLoop_within n

lemma filewriteLoop_within (fuel : ℕ) : Within addr n (filewriteLoop w fuel k addr n) := by
  induction fuel generalizing k addr n with
  | zero => exact within_nil
  | succ fuel ih =>
      rw [filewriteLoop]
      have hmax : Fs.filewriteMax = 1536 := rfl
      have hwrite : Within addr (min n Fs.filewriteMax)
          (writei (w.node k) addr (min n Fs.filewriteMax)).1 := writei_within (by omega)
      split
      · exact within_nil
      · dsimp only
        split
        · exact hwrite.mono (by omega)
        · exact (hwrite.append ih).mono (by omega)

lemma filewrite_within {n : ℤ} : Within addr n.toNat (filewrite w addr n) := by
  unfold filewrite
  split
  · exact within_nil
  · split
    · exact copyLoop_within (by omega)
    · exact filewriteLoop_within n.toNat
    · exact within_nil

/-- The transfer reads an inode that is not a device. -/
def World.ReadsData (w : World) : Prop := w.type = .inode ∧ (w.node 0).type ≠ T_DEV

/-- The clipped length of `readi` is no more than the length that was asked for. -/
lemma readi_within (hdev : d.type ≠ T_DEV) (hn : n < 2 ^ 32) :
    Within addr n (readi w d addr n) := by
  have hoff := d.off.toNat_lt
  unfold readi
  rw [if_neg hdev]
  split
  · exact within_nil
  · dsimp only
    exact (blockLoop_within _).mono (by split <;> omega)

/-- Something is copied, unless there is nothing to copy. -/
lemma blockLoop_eq_nil_iff {off : ℕ} : blockLoop n addr off n = [] ↔ n = 0 := by
  cases n with
  | zero => simp [blockLoop]
  | succ n =>
      have hpos : off % BSIZE < BSIZE := Nat.mod_lt _ (by decide)
      rw [blockLoop, if_neg (by omega)]
      simp only [List.append_eq_nil_iff, memmove, List.map_eq_nil_iff, List.range_eq_nil]
      omega

/-- For a length that is negative as an `int`, `readi` copies nothing only if it is at the end of
the file or the sum of offset and length wraps around. -/
lemma readi_eq_nil_iff (hdev : d.type ≠ T_DEV) (hlo : 2 ^ 31 ≤ n) (hn : n < 2 ^ 32) :
    readi w d addr n = [] ↔ ¬ (d.off < d.size ∧ d.off.toNat + n < 2 ^ 32) := by
  have hoff := d.off.toNat_lt
  have hsize := d.size.toNat_lt
  unfold readi
  rw [if_neg hdev]
  split
  · rename_i hstop
    rw [UInt32.lt_iff_toNat_lt] at hstop ⊢
    simp only [true_iff]
    omega
  · rename_i hgo
    dsimp only
    rw [UInt32.lt_iff_toNat_lt] at hgo ⊢
    rw [blockLoop_eq_nil_iff]
    split <;> omega

lemma fileread_within {n : ℤ} (hlo : -2 ^ 31 ≤ n) (hhi : n < 2 ^ 31)
    (h : w.ReadsData → 0 ≤ n) : Within addr n.toNat (fileread w addr n) := by
  unfold fileread
  split
  · exact within_nil
  · split
    · exact copyLoop_within (by omega)
    · rename_i hinode
      by_cases hdev : (w.node 0).type = T_DEV
      · unfold readi
        rw [if_pos hdev]
        split
        · rw [bmod_toNat hlo hhi]
          exact consolereadLoop_within (by omega)
        · exact within_nil
      · have hn : 0 ≤ n := h ⟨hinode, hdev⟩
        exact (readi_within hdev (by omega)).mono (by omega)
    · exact within_nil

end Within

/-! ## The checks -/

/-- All addresses lie in the buffer and in the process; a negative length has none. -/
def Buffered (u : User) (l : List ℕ) : Prop :=
  (∀ a ∈ l, u.arg 1 ≤ a ∧ (a : ℤ) < u.arg 1 + u.argSigned 2 ∧ a < u.sz) ∧
    (u.argSigned 2 < 0 → l = [])

section

variable {u : User} {ofile : Fd → Option World} {l : List ℕ}

lemma argSigned_bounds (u : User) (n : ℕ) : -2 ^ 31 ≤ u.argSigned n ∧ u.argSigned n < 2 ^ 31 := by
  have hlo := Int.le_bmod (x := (u.arg n : ℤ)) (m := 2 ^ 32) (by norm_num)
  have hhi := Int.bmod_lt (x := (u.arg n : ℤ)) (m := 2 ^ 32) (by norm_num)
  rw [User.argSigned_eq]
  omega

/-- A transfer that stays within the length it is given stays within a buffer that has passed
the checks. -/
lemma sysTransfer_buffered {transfer : World → ℕ → ℤ → List ℕ}
    (hwithin : ∀ w addr, argfd u ofile 0 = some w → u.HasArg 2 →
      argptr u 1 (u.argSigned 2) = some addr →
      Within addr (u.argSigned 2).toNat (transfer w addr (u.argSigned 2)))
    (h : sysTransfer transfer u ofile = some l) : Buffered u l := by
  unfold sysTransfer at h
  split at h
  · rename_i w n hw hn
    obtain ⟨p, hp, rfl⟩ := Option.map_eq_some_iff.1 h
    obtain ⟨harg, rfl⟩ : u.HasArg 2 ∧ u.argSigned 2 = n := by simpa [argint_eq] using hn
    have hall := hwithin w p hw harg hp
    obtain ⟨rfl, hin, hend⟩ := argptr_inside hp (argSigned_bounds u 2).2
    have hlow := u.low
    rw [KERNBASE] at hlow
    constructor
    · intro a ha
      obtain ⟨i, hi, rfl⟩ := hall a ha
      have hlen : 0 ≤ u.argSigned 2 := by omega
      have := hend hlen
      unfold ptr
      omega
    · intro hneg
      refine List.eq_nil_iff_forall_not_mem.2 fun a ha => ?_
      obtain ⟨i, hi, -⟩ := hall a ha
      omega
  · exact absurd h (by simp)

end

/-- A `read` with a negative length that finds bytes: the arguments pass their checks, the
descriptor is that of a file or directory that may be read, which is not at its end, and the sum of
the offset and the length as a `uint` does not wrap around. -/
structure ReadsBackward (u : User) (ofile : Fd → Option World) (w : World) : Prop where
  file : argfd u ofile 0 = some w
  length : u.HasArg 2
  pointer : (argptr u 1 (u.argSigned 2)).isSome = true
  negative : u.argSigned 2 < 0
  readable : w.readable = true
  data : w.ReadsData
  bytes : (w.node 0).off < (w.node 0).size
  sum : (w.node 0).off.toNat + (u.argSigned 2 % 2 ^ 32).toNat < 2 ^ 32

/-- Past its checks, `write` touches only bytes of the buffer, all inside of the process; a `read`
does so too, unless its length is negative and it finds bytes. -/
theorem user_buffers_checked (u : User) (ofile : Fd → Option World) :
    (∀ l, sysWrite u ofile = some l → Buffered u l) ∧
      ((∀ l, sysRead u ofile = some l → Buffered u l) ↔ ∀ w, ¬ ReadsBackward u ofile w) := by
  obtain ⟨hlo, hhi⟩ := argSigned_bounds u 2
  refine ⟨fun l hl => sysTransfer_buffered (fun w addr _ _ _ => filewrite_within) hl, ?_, ?_⟩
  · intro hall w b
    obtain ⟨p, hp⟩ := Option.isSome_iff_exists.1 b.pointer
    have hint : argint u 2 = some (u.argSigned 2) := by rw [argint_eq, if_pos b.length]
    have hread : sysRead u ofile = some (fileread w p (u.argSigned 2)) := by
      rw [sysRead, sysTransfer, b.file, hint]
      exact congrArg (Option.map _) hp
    have hnil := (hall _ hread).2 b.negative
    rw [fileread, if_neg (by simp [b.readable]), b.data.1] at hnil
    have hneg := b.negative
    exact (readi_eq_nil_iff b.data.2 (by omega) (by omega)).1 hnil ⟨b.bytes, b.sum⟩
  · intro hno l hl
    refine sysTransfer_buffered (fun w addr hw harg hp => ?_) hl
    by_cases hdata : w.ReadsData ∧ u.argSigned 2 < 0
    · -- nothing is copied
      obtain ⟨hdata, hneg⟩ := hdata
      have hnil : fileread w addr (u.argSigned 2) = [] := by
        by_cases hr : w.readable = true
        · rw [fileread, if_neg (by simp [hr]), hdata.1]
          exact (readi_eq_nil_iff hdata.2 (by omega) (by omega)).2 fun hsome =>
            hno w ⟨hw, harg, by rw [hp]; rfl, hneg, hr, hdata, hsome.1, hsome.2⟩
        · rw [fileread, if_pos (by simpa using hr)]
      rw [hnil]
      exact within_nil
    · exact fileread_within hlo hhi fun h => not_lt.1 fun hneg => hdata ⟨h, hneg⟩

/-- Descriptor 3 is a file of 20 bytes at offset 0; nothing else is open. -/
def shortFile : Fd → Option World := fun fd =>
  if fd.val = 3 then some ⟨.inode, true, true, 0, fun _ => true, fun _ => none,
    fun _ => ⟨2, 0, 20, 0⟩⟩
  else none

/-- A `read` of 16 bytes. -/
theorem user_buffers_checked_read : (∀ w, ¬ ReadsBackward (User.calling 3 0x2000 16) shortFile w) ∧
    ∃ l, sysRead (User.calling 3 0x2000 16) shortFile = some l ∧ l.length = 16 ∧
      Buffered (User.calling 3 0x2000 16) l := by
  have hno : ∀ w, ¬ ReadsBackward (User.calling 3 0x2000 16) shortFile w := fun w b =>
    absurd b.negative (by decide +kernel)
  have hread : sysRead (User.calling 3 0x2000 16) shortFile = some (List.range' 0x2000 16) := by
    decide +kernel
  exact ⟨hno, _, hread, by simp, (user_buffers_checked _ _).2.2 hno _ hread⟩

/-- `argptr` lets a negative length pass when the pointer is large enough, and `readi` takes it
for a large unsigned one and clips it to the size of the file: a `read` of -4096 bytes to the
last four bytes of the process stores 20 bytes there, 16 of them outside. -/
theorem user_buffers_negative :
    (User.calling 3 0x3ffc 0xfffff000).argSigned 2 = -4096 ∧
      sysRead (User.calling 3 0x3ffc 0xfffff000) shortFile = some (List.range' 0x3ffc 20) ∧
      0x4000 ∈ List.range' 0x3ffc 20 ∧ (User.calling 3 0x3ffc 0xfffff000).sz = 0x4000 := by
  decide +kernel

end Xv6.Transfer
