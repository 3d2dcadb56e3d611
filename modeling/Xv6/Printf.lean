import Mathlib.Algebra.Group.Nat.Defs
import Mathlib.Data.Nat.Notation
import Mathlib.Tactic.Common

/-!
# Printing and reading numbers (`printf.c`, `console.c`, `ulib.c`)

The user library and the kernel print an integer in the same way: the digits are stored in a buffer,
the lowest first, and printed from the end of it.  They differ in the table of the digits.  `atoi`
reads a number.
-/

namespace Xv6.Printf

/-- `'0'`, `'9'` and `'-'`. -/
def zero : UInt8 := 48

@[inherit_doc zero] def nine : UInt8 := 57

@[inherit_doc zero] def minus : UInt8 := 45

/-- The size of `buf`. -/
def BUFSIZE : ℕ := 16

/-- The loop that fills `buf`, as long as there is room in it: the room that is left and what has
been stored, the last byte first.  It fails at the end of the buffer and of the table. -/
def fill (digits : List UInt8) (base : ℕ) : ℕ → ℕ → List UInt8 → Option (ℕ × List UInt8)
  | 0, _, _ => none
  | room + 1, x, buf =>
      digits[x % base]?.bind fun c =>
        if x / base = 0 then some (room, c :: buf) else fill digits base room (x / base) (c :: buf)

/-- What is printed for `xx`. -/
def format (digits : List UInt8) (xx : BitVec 32) (base : ℕ) (sgn : Bool) : Option (List UInt8) :=
  let neg := sgn && xx.msb
  let x := if neg then -xx else xx
  (fill digits base BUFSIZE x.toNat []).bind fun r =>
    if neg then if r.1 = 0 then none else some (minus :: r.2)
    else some r.2

/-- The bytes of `"0123456789ABCDEF"`. -/
def digits : List UInt8 := [48, 49, 50, 51, 52, 53, 54, 55, 56, 57, 65, 66, 67, 68, 69, 70]

/-- The bytes of `"0123456789abcdef"`, in the kernel. -/
def Kernel.digits :
    List UInt8 := [48, 49, 50, 51, 52, 53, 54, 55, 56, 57, 97, 98, 99, 100, 101, 102]

/-- `printint` of the user library. -/
def printint : BitVec 32 → ℕ → Bool → Option (List UInt8) := format digits

/-- `printint` of the kernel. -/
def Kernel.printint : BitVec 32 → ℕ → Bool → Option (List UInt8) := format Kernel.digits

/-- The loop of `atoi`. -/
def atoiLoop (n : BitVec 32) : List UInt8 → BitVec 32
  | [] => n
  | c :: s => if zero ≤ c ∧ c ≤ nine then atoiLoop (n * 10 + BitVec.ofNat 32 c.toNat -
    BitVec.ofNat 32 zero.toNat) s else n

def atoi : List UInt8 → BitVec 32 := atoiLoop 0

variable {table : List UInt8} {base room e x : ℕ}

/-- A table for numbers up to base 16 that begins with the decimal digits. -/
def Decimal (table : List UInt8) : Prop := table.length = 16 ∧ ∀ d < 10, table[d]? =
    some (UInt8.ofNat (48 + d))

/-- One more digit. -/
lemma atoiLoop_digit {n : BitVec 32} {d : ℕ} {s : List UInt8} (hd : d < 10) :
    atoiLoop n (UInt8.ofNat (48 + d) :: s) = atoiLoop (n * 10 + BitVec.ofNat 32 d) s := by
  have hdigit : zero ≤ UInt8.ofNat (48 + d) ∧ UInt8.ofNat (48 + d) ≤ nine := by
    revert d
    decide
  have hc : (UInt8.ofNat (48 + d)).toNat = 48 + d := by simp; omega
  rw [atoiLoop, if_pos hdigit, hc]
  congr 1
  simp [BitVec.ofNat_add, zero]
  bv_omega

/-- A number of `e` digits takes `e` bytes, and `atoi` goes back from them to the number. -/
lemma fill_eq (ht : Decimal table) (hbase : 1 < base) (hle : base ≤ 16) (hpos : 0 < e)
    (hroom : e ≤ room) (hx : x < base ^ e) (buf : List UInt8) : ∃ r ds, fill table base room x buf =
      some (r, ds ++ buf) ∧ room ≤ r + e ∧
      (base = 10 → ∀ s, atoiLoop 0 (ds ++ s) = atoiLoop (BitVec.ofNat 32 x) s) := by
  induction room generalizing e x buf with
  | zero => omega
  | succ room ih =>
      have hmod : x % base < base := Nat.mod_lt _ (by omega)
      have hlt : x % base < table.length := by rw [ht.1]; omega
      have hdigit : base = 10 → table[x % base] = UInt8.ofNat (48 + x % base) := by
        intro hten
        exact Option.some.inj ((List.getElem?_eq_getElem hlt).symm.trans (ht.2 _ (by omega)))
      rw [fill, List.getElem?_eq_getElem hlt, Option.bind_some]
      by_cases hlast : x / base = 0
      · refine ⟨room, [table[x % base]], by simp [hlast], by omega, fun hten s => ?_⟩
        have hsmall : x % base = x :=
          Nat.mod_eq_of_lt ((Nat.div_eq_zero_iff.1 hlast).resolve_left (by omega))
        rw [hdigit hten, List.singleton_append, atoiLoop_digit (by omega), hsmall]
        simp
      · obtain ⟨f, rfl⟩ : ∃ f, e = f + 1 := ⟨e - 1, by omega⟩
        have hquot : x / base < base ^ f :=
          Nat.div_lt_of_lt_mul (by rwa [Nat.pow_succ, Nat.mul_comm] at hx)
        have hf : 0 < f := Nat.pos_of_ne_zero fun hf => hlast (by simpa [hf] using hquot)
        obtain ⟨r, ds, hfill, hr, hback⟩ := ih hf (by omega) hquot (table[x % base] :: buf)
        refine ⟨r, ds ++ [table[x % base]], by simpa [hlast] using hfill, by omega,
          fun hten s => ?_⟩
        rw [List.append_assoc, List.singleton_append, hback hten, hdigit hten,
          atoiLoop_digit (by omega)]
        congr 1
        rw [hten]
        exact BitVec.eq_of_toNat_eq (by simp; omega)

/-- In base 16 and, with a sign, in base 10, `p` stays in its buffer.  What it prints in base 10,
`atoi` reads back after the sign. -/
def RoundTrip (p : BitVec 32 → ℕ → Bool → Option (List UInt8)) : Prop :=
  ∀ xx, (∃ out, p xx 16 false = some out) ∧ ∃ out, p xx 10 true =
    some (if xx.msb then minus :: out else out) ∧
    atoi out = if xx.msb then -xx else xx

lemma Decimal.roundTrip (ht : Decimal table) : RoundTrip (format table) := by
  refine fun xx => ⟨?_, ?_⟩
  · obtain ⟨r, ds, hfill, -⟩ := fill_eq ht (x := xx.toNat) (by decide : 1 < 16) (by decide)
      (by decide : 0 < 8) (by decide : 8 ≤ BUFSIZE) (by omega) []
    exact ⟨ds, by simp [format, hfill]⟩
  · obtain ⟨r, ds, hfill, hr, hback⟩ := fill_eq ht (x := (if xx.msb then -xx else xx).toNat)
      (by decide : 1 < 10) (by decide) (by decide : 0 < 10) (by decide : 10 ≤ BUFSIZE) (by omega) []
    -- there is room for the sign
    have hsign : r ≠ 0 := by rw [BUFSIZE] at hr; omega
    have hatoi : atoi ds = BitVec.ofNat 32 (if xx.msb then -xx else xx).toNat := by
      simpa [atoi, atoiLoop] using hback rfl []
    refine ⟨ds, ?_, by simpa using hatoi⟩
    simp only [format, Bool.true_and, hfill, Option.bind_some, hsign, if_false, List.append_nil]
    split <;> rfl

theorem atoi_printint : RoundTrip printint ∧ RoundTrip Kernel.printint :=
  ⟨Decimal.roundTrip ⟨rfl, by decide⟩, Decimal.roundTrip ⟨rfl, by decide⟩⟩

end Xv6.Printf
