import Xv6.Vm
import Xv6.Lib.Words

/-!
# `malloc` and `free` (`umalloc.c`)

The allocator of the user library keeps its free blocks in a circular list, ordered by address, that
goes through the static header `base`.  Memory is a function from addresses to bytes, and headers
are read from it and stored in it.  Pointers and sizes are 32-bit words.  Loops count down a bound
on their iterations; the result is `none` if they have not ended then.
-/

namespace Xv6.Umalloc

open Lib

/-- A call of `sbrk` that has returned memory: the argument, the number of units that `morecore` has
put on the free list for it, and the address that was returned. -/
structure Call where
  amount : ℕ
  units : ℕ
  addr : ℕ
deriving DecidableEq

/-- The memory of a process and its size, the variable `freep`, and the calls of `sbrk` so far. -/
structure Heap where
  mem : ℕ → UInt8
  brk : ℕ
  freep : ℕ
  calls : List Call

/-- What the system call `sbrk` does with its argument, a 32-bit word, and the size of the process:
the word that it returns and the new size. -/
abbrev Sbrk : Type := ℕ → ℕ → ℕ × ℕ

/-- `(char*)-1`. -/
def failure : ℕ := 2 ^ 32 - 1

namespace Heap

variable (h : Heap)

/-- `p->s.ptr`. -/
def ptr (p : ℕ) : ℕ := load32 h.mem p

/-- `p->s.size`. -/
def size (p : ℕ) : ℕ := load32 h.mem (p + 4)

/-- `p->s.ptr = v`. -/
def setPtr (p v : ℕ) : Heap := { h with mem := store32 h.mem p v }

/-- `p->s.size = v`. -/
def setSize (p v : ℕ) : Heap := { h with mem := store32 h.mem (p + 4) v }

end Heap

/-- `p + n` for a pointer `p` to headers of 8 bytes. -/
def plus (p n : ℕ) : ℕ := (p + 8 * n) % 2 ^ 32

/-- `(Header*)ap - 1`. -/
def header (ap : ℕ) : ℕ := (ap + 2 ^ 32 - 8) % 2 ^ 32

/-- The loop of `free`, which looks for the place of block `bp` from `p` on. -/
def freeLoop (h : Heap) (bp : ℕ) : ℕ → ℕ → Option ℕ
  | 0, _ => none
  | n + 1, p =>
      if p < bp ∧ bp < h.ptr p then some p
      else if h.ptr p ≤ p ∧ (p < bp ∨ bp < h.ptr p) then some p
      else freeLoop h bp n (h.ptr p)

/-- The end of `free`: put block `bp` behind `p`, joined with its neighbours. -/
def insert (h : Heap) (bp p : ℕ) : Heap :=
  let h :=
    if plus bp (h.size bp) = h.ptr p then
      let h := h.setSize bp ((h.size bp + h.size (h.ptr p)) % 2 ^ 32)
      h.setPtr bp (h.ptr (h.ptr p))
    else h.setPtr bp (h.ptr p)
  let h :=
    if plus p (h.size p) = bp then
      let h := h.setSize p ((h.size p + h.size bp) % 2 ^ 32)
      h.setPtr p (h.ptr bp)
    else h.setPtr p bp
  { h with freep := p }

/-- `free`. -/
def free (n ap : ℕ) (h : Heap) : Option Heap :=
  (freeLoop h (header ap) n h.freep).map fun p => insert h (header ap) p

/-- The number of units that `morecore` asks for. -/
def grain (nu : ℕ) : ℕ := if nu < 4096 then 4096 else nu

/-- `morecore`: the result is the null pointer or `freep`. -/
def morecore (sbrk : Sbrk) (n nu : ℕ) (h : Heap) : Option (ℕ × Heap) :=
  let nu := grain nu
  let amount := nu * 8 % 2 ^ 32
  let (p, brk) := sbrk amount h.brk
  let h := { h with brk := brk }
  if p = failure then some (0, h)
  else
    let h := { h.setSize p nu with calls := h.calls ++ [⟨amount, nu, p⟩] }
    (free n (plus p 1) h).map fun h => (h.freep, h)

/-- Take `nunits` units of the block at `p`, which comes behind `prevp`: all of it, or the end of
it. -/
def take (nunits prevp p : ℕ) (h : Heap) : ℕ × Heap :=
  if h.size p = nunits then (plus p 1, { h.setPtr prevp (h.ptr p) with freep := prevp })
  else
    let h := h.setSize p (h.size p - nunits)
    let p := plus p (h.size p)
    let h := h.setSize p nunits
    (plus p 1, { h with freep := prevp })

/-- The loop of `malloc`. -/
def mallocLoop (sbrk : Sbrk) (nunits : ℕ) : ℕ → ℕ → ℕ → Heap → Option (ℕ × Heap)
  | 0, _, _, _ => none
  | n + 1, prevp, p, h =>
      if nunits ≤ h.size p then some (take nunits prevp p h)
      else if p = h.freep then
        match morecore sbrk n nunits h with
        | none => none
        | some (p, h) => if p = 0 then some (0, h) else mallocLoop sbrk nunits n p (h.ptr p) h
      else mallocLoop sbrk nunits n p (h.ptr p) h

/-- The number of units for `nbytes` bytes and a header. -/
def nunits (nbytes : ℕ) : ℕ := (nbytes + 8 - 1) % 2 ^ 32 / 8 + 1

/-- The first lines of `malloc`: the list has `base` only. -/
def start (base : ℕ) (h : Heap) : Heap :=
  if h.freep = 0 then ({ h with freep := base }.setPtr base base).setSize base 0 else h

/-- `malloc`, with the header `base`. -/
def malloc (base : ℕ) (sbrk : Sbrk) (n nbytes : ℕ) (h : Heap) : Option (ℕ × Heap) :=
  mallocLoop sbrk (nunits nbytes) n (start base h).freep ((start base h).ptr (start base h).freep)
    (start base h)

/-- What `allocuvm` returns; `enough` says whether it finds the pages that it needs. -/
def allocuvm (enough : Bool) (oldsz newsz : ℕ) : ℕ :=
  if KERNBASE ≤ newsz then 0
  else if newsz < oldsz then oldsz
  else if enough then newsz
  else 0

/-- What `deallocuvm` returns. -/
def deallocuvm (oldsz newsz : ℕ) : ℕ := if oldsz ≤ newsz then oldsz else newsz

/-- `growproc` for a process of size `sz`: the new size, or `none` for a failure. -/
def growproc (enough : Bool) (sz : ℕ) (n : ℤ) : Option ℕ :=
  let newsz := ((sz + n) % 2 ^ 32).toNat
  if 0 < n then if allocuvm enough sz newsz = 0 then none else some (allocuvm enough sz newsz)
  else if n < 0 then if deallocuvm sz newsz = 0 then none else some (deallocuvm sz newsz)
  else some sz

/-- `sys_sbrk`, whose argument is an `int`. -/
def sysSbrk (enough : Bool) : Sbrk := fun amount sz =>
  (growproc enough sz (Int.bmod amount (2 ^ 32))).elim (failure, sz) fun newsz => (sz, newsz)

end Xv6.Umalloc
