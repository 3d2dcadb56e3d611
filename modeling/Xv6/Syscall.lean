import Xv6.Vm
import Xv6.Lib.Bytes

/-!
# The arguments of a system call (`syscall.c`)

The arguments of a system call are words on the user stack.  `fetchint`, `argint` and `argptr`
fetch them with checks against the size of the process; sums of addresses wrap around at
`2 ^ 32`, as sums of a `uint` and an `int` do.
-/

namespace Xv6

open Lib

/-- What a process shows the system-call layer: its size, the stack pointer in its trap frame
and its memory.  The size stays below the kernel's part of the address space. -/
structure User where
  sz : ℕ
  esp : ℕ
  mem : Bytes (2 ^ 32)
  low : sz ≤ KERNBASE

namespace User

variable (u : User) (n : ℕ)

/-- Where the `n`th argument of a system call lies on the stack. -/
def argAddr : ℕ := (u.esp + 4 + 4 * n) % 2 ^ 32

/-- The `n`th argument, as the caller has put it on the stack. -/
def arg : ℕ := u.mem.get32 (u.argAddr n)

/-- The `n`th argument, as a signed `int`. -/
def argSigned : ℤ := u.mem.getInt (u.argAddr n)

/-- The `n`th argument lies inside of the process. -/
def HasArg : Prop := u.argAddr n + 4 ≤ u.sz

instance : Decidable (u.HasArg n) := inferInstanceAs (Decidable (_ ≤ _))

end User

/-- Fetch the `int` at an address. -/
def fetchint (u : User) (addr : ℕ) : Option ℤ :=
  if u.sz ≤ addr ∨ u.sz < (addr + 4) % 2 ^ 32 then none else some (u.mem.getInt addr)

/-- Fetch the `n`th argument as an `int`. -/
def argint (u : User) (n : ℕ) : Option ℤ := fetchint u (u.argAddr n)

/-- Fetch the `n`th argument as a pointer to a block of `size` bytes. -/
def argptr (u : User) (n : ℕ) (size : ℤ) : Option ℕ :=
  match argint u n with
  | none => none
  | some i =>
      let p := (i % 2 ^ 32).toNat
      if u.sz ≤ p ∨ (u.sz : ℤ) < (p + size) % 2 ^ 32 then none else some p

/-- A process of four pages that makes a call with three words on its stack at `0x1000`. -/
def User.calling (word₀ word₁ word₂ : ℕ) : User where
  sz := 0x4000
  esp := 0x1000
  mem := ((Bytes.set32 (fun _ => 0) 0x1004 word₀).set32 0x1008 word₁).set32 0x100c word₂
  low := by decide

section

variable {u : User} {n p : ℕ} {size : ℤ}

lemma User.argSigned_eq : u.argSigned n = Int.bmod (u.arg n) (2 ^ 32) := rfl

lemma User.argSigned_emod : (u.argSigned n % 2 ^ 32).toNat = u.arg n := by
  have hlt : u.arg n < 2 ^ 32 := u.mem.get32_lt (u.argAddr n)
  rw [argSigned_eq]
  generalize u.arg n = w at hlt
  rw [Int.bmod_def]
  split <;> omega

/-- `argint` delivers the argument exactly if it lies inside of the process. -/
lemma argint_eq : argint u n = if u.HasArg n then some (u.argSigned n) else none := by
  have hlow := u.low
  rw [KERNBASE] at hlow
  have haddr : u.argAddr n < 2 ^ 32 := Nat.mod_lt _ (by norm_num)
  unfold argint fetchint
  by_cases h : u.HasArg n
  · rw [if_pos h, if_neg, User.argSigned]
    unfold User.HasArg at h
    omega
  · rw [if_neg h, if_pos]
    unfold User.HasArg at h
    omega

/-- A block inside of the process passes `argptr`. -/
lemma argptr_of_inside (h : u.HasArg n) (hpos : 0 < size) (hin : u.arg n + size ≤ u.sz) :
    argptr u n size = some (u.arg n) := by
  have hlow := u.low
  rw [KERNBASE] at hlow
  unfold argptr
  rw [argint_eq, if_pos h]
  dsimp only
  rw [User.argSigned_emod, if_neg (by omega)]

lemma argptr_hasArg (h : argptr u n size = some p) : u.HasArg n := by
  by_contra hno
  rw [argptr, argint_eq, if_neg hno] at h
  exact absurd h (by simp)

/-- What passes `argptr` is the argument and starts inside of the process; a block whose size is
not negative also ends there. -/
lemma argptr_inside (h : argptr u n size = some p) (hmax : size < 2 ^ 31) :
    p = u.arg n ∧ p < u.sz ∧ (0 ≤ size → p + size ≤ u.sz) := by
  have hlow := u.low
  rw [KERNBASE] at hlow
  unfold argptr at h
  rw [argint_eq] at h
  split at h
  · exact absurd h (by simp)
  · rename_i i hi
    obtain ⟨-, rfl⟩ : u.HasArg n ∧ u.argSigned n = i := by simpa using hi
    dsimp only at h
    rw [User.argSigned_emod] at h
    split at h
    · exact absurd h (by simp)
    · obtain rfl := Option.some.inj h
      refine ⟨rfl, by omega, ?_⟩
      intro hsize
      omega

end

end Xv6
