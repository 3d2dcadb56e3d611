import Xv6.Bio

/-!
# Page frames and page tables

The code of `kalloc.c` and `vm.c`.  Physical memory is an array of frames of `PGSIZE` bytes, and
page directories and page tables are frames like all others: what the code reads of them are the
words that the bytes of the frame make up.  A frame is named by its number, that is, by its physical
address divided by `PGSIZE`.

The kernel reaches frame `f` at the address `p2v(f * PGSIZE)`, through the mapping that `setupkvm`
makes.  A load or store that this mapping does not allow is a page fault, which ends in
`panic("trap")`.
-/

namespace Xv6

open Lib

/-! ## Layout of memory -/

/-- Bytes mapped by a page. -/
def PGSIZE : ℕ := 4096

/-- Entries of a page directory. -/
def NPDENTRIES : ℕ := 1024

/-- Entries of a page table. -/
def NPTENTRIES : ℕ := 1024

/-- Present. -/
def PTE_P : ℕ := 1

/-- Writeable. -/
def PTE_W : ℕ := 2

/-- User. -/
def PTE_U : ℕ := 4

/-- Start of extended memory. -/
def EXTMEM : ℕ := 0x100000

/-- Top physical memory. -/
def PHYSTOP : ℕ := 0xE000000

/-- Other devices are at high addresses. -/
def DEVSPACE : ℕ := 0xFE000000

/-- First kernel virtual address. -/
def KERNBASE : ℕ := 0x80000000

/-- Address where the kernel is linked. -/
def KERNLINK : ℕ := KERNBASE + EXTMEM

lemma PGSIZE_eq : PGSIZE = 4096 := rfl

lemma NPDENTRIES_eq : NPDENTRIES = 1024 := rfl

lemma NPTENTRIES_eq : NPTENTRIES = 1024 := rfl

lemma EXTMEM_eq : EXTMEM = 0x100000 := rfl

lemma PHYSTOP_eq : PHYSTOP = 0xE000000 := rfl

lemma DEVSPACE_eq : DEVSPACE = 0xFE000000 := rfl

lemma KERNBASE_eq : KERNBASE = 0x80000000 := rfl

lemma KERNLINK_eq : KERNLINK = 0x80100000 := rfl

/-- Page directory index. -/
def PDX (va : ℕ) : ℕ := va / 2 ^ 22 % NPDENTRIES

/-- Page table index. -/
def PTX (va : ℕ) : ℕ := va / 2 ^ 12 % NPTENTRIES

def PGROUNDUP (sz : ℕ) : ℕ := (sz + PGSIZE - 1) % 2 ^ 32 / PGSIZE * PGSIZE

def PGROUNDDOWN (a : ℕ) : ℕ := a / PGSIZE * PGSIZE

/-- The number of the frame in an entry. -/
def PTE_ADDR (pte : ℕ) : ℕ := pte / PGSIZE

/-- The flags of an entry. -/
def PTE_FLAGS (pte : ℕ) : ℕ := pte % PGSIZE

/-- What the linker decides: the addresses of the symbols `data` and `end`.  The kernel has some
text, and fits into the memory that `entrypgdir` maps. -/
structure Kernel where
  data : ℕ
  fin : ℕ
  aligned : data % PGSIZE = 0
  text : KERNLINK < data
  order : data ≤ fin
  low : fin ≤ KERNBASE + 4 * 1024 * 1024

/-- The contents of a frame. -/
abbrev Page : Type := Bytes PGSIZE

/-- Physical memory and the list of free frames.  The fields `fails` and `input` say what happens
from now on: which of the next calls of `kalloc` fail even if a frame is free, and what the next
reads from a device return. -/
structure Mem where
  page : ℕ → Page
  freelist : List ℕ
  fails : List Bool
  input : List (Option (List UInt8))

namespace Mem

/-- Word `i` of a frame. -/
def word (s : Mem) (f i : ℕ) : ℕ := (s.page f).get32 (4 * i)

/-- Replace a frame. -/
def setPage (s : Mem) (f : ℕ) (p : Page) : Mem := { s with page := Function.update s.page f p }

/-- Replace word `i` of a frame. -/
def setWord (s : Mem) (f i w : ℕ) : Mem := s.setPage f ((s.page f).set32 (4 * i) w)

end Mem

/-- Code that runs on memory. -/
abbrev Vm (α : Type) : Type := EStateM Stop Mem α

namespace Vm

variable (K : Kernel)

/-- Stop the machine with a message. -/
def panic {α : Type} (msg : String) : Vm α := fun s => .error (.panic msg) s

/-- A loop has not ended within its bound. -/
def endless {α : Type} : Vm α := fun s => .error .sleep s

/-- Load a word through `p2v`. -/
def load (f i : ℕ) : Vm ℕ := fun s => if f * PGSIZE < PHYSTOP then .ok (s.word f i) s
    else panic "trap" s

/-- Can the kernel write to the frame?  Its text is mapped read-only. -/
def Writable (f : ℕ) : Prop :=
  f * PGSIZE < PHYSTOP ∧ ¬ (EXTMEM ≤ f * PGSIZE ∧ f * PGSIZE < K.data - KERNBASE)

instance (f : ℕ) : Decidable (Writable K f) := inferInstanceAs (Decidable (_ ∧ _))

/-- Store a word through `p2v`. -/
def store (f i w : ℕ) : Vm Unit := fun s => if Writable K f then .ok () (s.setWord f i w)
    else panic "trap" s

/-- `memset` of a whole frame. -/
def memset (f : ℕ) (c : UInt8) : Vm Unit := fun s =>
  if Writable K f then .ok () (s.setPage f fun _ => c) else panic "trap" s

/-- `memmove` of some bytes to an offset in a frame. -/
def memmove (f o : ℕ) (bs : List UInt8) : Vm Unit := fun s =>
  if bs = [] then .ok () s
  else if Writable K f then .ok () (s.setPage f ((s.page f).blit o bs.length fun j => bs.getD j 0))
  else panic "trap" s

/-- The bytes of a frame, as `memmove` reads them. -/
def loadPage (f : ℕ) : Vm (List UInt8) := fun s =>
  if f * PGSIZE < PHYSTOP then .ok ((s.page f).slice 0 PGSIZE) s else panic "trap" s

/-! ## `kalloc.c` -/

/-- Allocate a frame. -/
def kalloc : Vm (Option ℕ) := fun s =>
  match s.fails, s.freelist with
  | true :: fails, _ => .ok none { s with fails := fails }
  | _, [] => .ok none { s with fails := s.fails.tail }
  | _, f :: fs => .ok (some f) { s with freelist := fs, fails := s.fails.tail }

/-- Free a frame. -/
def kfree (f : ℕ) : Vm Unit := fun s =>
  if KERNBASE + f * PGSIZE < K.fin ∨ PHYSTOP ≤ f * PGSIZE then panic "kfree" s
  else .ok () { s.setPage f (fun _ => 1) with freelist := f :: s.freelist }

/-! ## Page tables -/

/-- The place of the entry for `va`: the frame of the page table and the index. -/
def walkpgdir (pgdir va : ℕ) (alloc : Bool) : Vm (Option (ℕ × ℕ)) := do
  let pde ← load pgdir (PDX va)
  if pde &&& PTE_P ≠ 0 then pure (some (PTE_ADDR pde, PTX va))
  else if alloc = false then pure none
  else
    match ← kalloc with
    | none => pure none
    | some pgtab =>
        memset K pgtab 0
        store K pgdir (PDX va) (pgtab * PGSIZE ||| PTE_P ||| PTE_W ||| PTE_U)
        pure (some (pgtab, PTX va))

/-- The body of the loop of `mappages`: make one entry. -/
def mappage (pgdir a pte : ℕ) : Vm Bool := do
  match ← walkpgdir K pgdir a true with
  | none => pure false
  | some (pgtab, i) =>
      let old ← load pgtab i
      if old &&& PTE_P ≠ 0 then panic "remap"
      else
        store K pgtab i pte
        pure true

/-- The loop of `mappages`; the first argument bounds its iterations. -/
def mappagesLoop : ℕ → ℕ → ℕ → ℕ → ℕ → ℕ → Vm Bool
  | 0, _, _, _, _, _ => endless
  | n + 1, pgdir, a, last, pa, perm => do
      if ← mappage K pgdir a (pa ||| perm ||| PTE_P) then
        if a = last then pure true
        else mappagesLoop n pgdir ((a + PGSIZE) % 2 ^ 32) last ((pa + PGSIZE) % 2 ^ 32) perm
      else pure false

/-- Make entries for the pages of `size` bytes from `va` on; `false` stands for `-1`. -/
def mappages (pgdir va size pa perm : ℕ) : Vm Bool :=
  mappagesLoop K (2 ^ 20) pgdir (PGROUNDDOWN va) (PGROUNDDOWN ((va + size + 2 ^ 32 - 1) % 2 ^ 32))
    pa perm

end Vm

/-- `struct kmap`. -/
structure Kmap where
  virt : ℕ
  phys_start : ℕ
  phys_end : ℕ
  perm : ℕ

/-- The size of the mapping; `phys_end` is 0 for the one that ends with the address space. -/
def Kmap.size (k : Kmap) : ℕ := (k.phys_end + 2 ^ 32 - k.phys_start) % 2 ^ 32

/-- The kernel's mappings. -/
def Kernel.kmap (K : Kernel) : List Kmap :=
  [⟨KERNBASE, 0, EXTMEM, PTE_W⟩,
    ⟨KERNLINK, KERNLINK - KERNBASE, K.data - KERNBASE, 0⟩,
    ⟨K.data, K.data - KERNBASE, PHYSTOP, PTE_W⟩,
    ⟨DEVSPACE, DEVSPACE, 0, PTE_W⟩]

namespace Vm

variable (K : Kernel)

/-- The loop of `setupkvm`. -/
def mapKernel (pgdir : ℕ) : List Kmap → Vm Bool
  | [] => pure true
  | k :: ks => do
      if ← mappages K pgdir k.virt k.size k.phys_start k.perm then
        mapKernel pgdir ks
      else pure false

/-- Set up the kernel part of a page table. -/
def setupkvm : Vm (Option ℕ) := do
  match ← kalloc with
  | none => pure none
  | some pgdir =>
      memset K pgdir 0
      if DEVSPACE < KERNBASE + PHYSTOP then panic "PHYSTOP too high"
      else if ← mapKernel K pgdir K.kmap then pure (some pgdir)
      else pure none

/-- Clear a frame and make it the page at `a`. -/
def addPage (pgdir a mem : ℕ) : Vm Bool := do
  memset K mem 0
  mappages K pgdir a PGSIZE (mem * PGSIZE) (PTE_W ||| PTE_U)

/-- Free the page of an entry, if there is one, and clear the entry. -/
def freePage (pgtab i : ℕ) : Vm Unit := do
  let pte ← load pgtab i
  if pte &&& PTE_P ≠ 0 then
    if PTE_ADDR pte = 0 then panic "kfree"
    else
      kfree K (PTE_ADDR pte)
      store K pgtab i 0
  else pure ()

/-- The loop of `deallocuvm`; the first argument bounds its iterations. -/
def deallocuvmLoop : ℕ → ℕ → ℕ → ℕ → Vm Unit
  | 0, _, _, _ => endless
  | n + 1, pgdir, oldsz, a =>
      if a < oldsz then do
        match ← walkpgdir K pgdir a false with
        | none => deallocuvmLoop n pgdir oldsz ((a + (NPTENTRIES - 1) * PGSIZE + PGSIZE) % 2 ^ 32)
        | some (pgtab, i) =>
            freePage K pgtab i
            deallocuvmLoop n pgdir oldsz ((a + PGSIZE) % 2 ^ 32)
      else pure ()

/-- Deallocate user pages to bring the process from `oldsz` to `newsz`. -/
def deallocuvm (pgdir oldsz newsz : ℕ) : Vm ℕ :=
  if oldsz ≤ newsz then pure oldsz
  else do
    deallocuvmLoop K (2 ^ 20) pgdir oldsz (PGROUNDUP newsz)
    pure newsz

/-- The loop of `allocuvm`; the first argument bounds its iterations.  The result of `mappages` is
not looked at. -/
def allocuvmLoop : ℕ → ℕ → ℕ → ℕ → ℕ → Vm ℕ
  | 0, _, _, _, _ => endless
  | n + 1, pgdir, oldsz, newsz, a =>
      if a < newsz then do
        match ← kalloc with
        | none =>
            let _ ← deallocuvm K pgdir newsz oldsz
            pure 0
        | some mem =>
            let _ ← addPage K pgdir a mem
            allocuvmLoop n pgdir oldsz newsz ((a + PGSIZE) % 2 ^ 32)
      else pure newsz

/-- Allocate page tables and memory to grow a process from `oldsz` to `newsz`; 0 on error. -/
def allocuvm (pgdir oldsz newsz : ℕ) : Vm ℕ :=
  if KERNBASE ≤ newsz then pure 0
  else if newsz < oldsz then pure oldsz
  else allocuvmLoop K (2 ^ 20) pgdir oldsz newsz (PGROUNDUP oldsz)

/-- The loop of `freevm` over the entries of the directory from `i` on. -/
def freeTables : ℕ → ℕ → ℕ → Vm Unit
  | 0, _, _ => pure ()
  | n + 1, pgdir, i => do
      let pde ← load pgdir i
      if pde &&& PTE_P ≠ 0 then kfree K (PTE_ADDR pde)
      freeTables n pgdir (i + 1)

/-- Free a page table and the memory of the user part. -/
def freevm : Option ℕ → Vm Unit
  | none => panic "freevm: no pgdir"
  | some pgdir => do
      let _ ← deallocuvm K pgdir KERNBASE 0
      freeTables K NPDENTRIES pgdir 0
      kfree K pgdir

/-- The loop of `copyuvm`; the first argument bounds its iterations. -/
def copyuvmLoop : ℕ → ℕ → ℕ → ℕ → ℕ → Vm Bool
  | 0, _, _, _, _ => endless
  | n + 1, d, pgdir, sz, i =>
      if i < sz then do
        match ← walkpgdir K pgdir i false with
        | none => panic "copyuvm: pte should exist"
        | some (pgtab, j) =>
            let pte ← load pgtab j
            if pte &&& PTE_P = 0 then panic "copyuvm: page not present"
            else
              match ← kalloc with
              | none => pure false
              | some mem =>
                  memmove K mem 0 (← loadPage (PTE_ADDR pte))
                  if ← mappages K d i PGSIZE (mem * PGSIZE) (PTE_FLAGS pte) then
                    copyuvmLoop n d pgdir sz ((i + PGSIZE) % 2 ^ 32)
                  else pure false
      else pure true

/-- Create a copy of a page table for a child. -/
def copyuvm (pgdir sz : ℕ) : Vm (Option ℕ) := do
  match ← setupkvm K with
  | none => pure none
  | some d =>
      if ← copyuvmLoop K (2 ^ 20) d pgdir sz 0 then pure (some d)
      else
        freevm K (some d)
        pure none

end Vm

end Xv6
