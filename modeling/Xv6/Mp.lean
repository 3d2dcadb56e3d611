import Xv6.Vm

/-!
# The table of the processors (`mp.c`)

The kernel looks for a floating pointer structure that the BIOS has left in memory, follows it to
the MP configuration table and reads the entries of the table.  Memory is what the kernel's virtual
addresses read as.  Pointers are 32-bit words.  Messages on the console are left out.
-/

namespace Xv6.Mp

/-- Maximum number of CPUs. -/
def NCPU : ℕ := 8

/-- `MPBOOT`: this processor is the bootstrap processor. -/
def MPBOOT : UInt8 := 0x02

/-- The bytes of memory. -/
abbrev Mem : Type := ℕ → UInt8

variable (mem : Mem)

/-- `p + n` for a pointer `p` to bytes. -/
def advance (p n : ℕ) : ℕ := (p + n) % 2 ^ 32

/-- The kernel address of a physical address. -/
def p2v (a : ℕ) : ℕ := advance a KERNBASE

/-- The `n` bytes from `p` on. -/
def bytes (p n : ℕ) : List UInt8 := (List.range n).map fun i => mem (advance p i)

/-- A `ushort`. -/
def ushort (p : ℕ) : ℕ := (mem p).toNat + 2 ^ 8 * (mem (advance p 1)).toNat

/-- A `uint`, or a pointer. -/
def uint (p : ℕ) : ℕ := ushort mem p + 2 ^ 16 * ushort mem (advance p 2)

/-- The sum of the `len` bytes at `addr`. -/
def sum (addr len : ℕ) : UInt8 := (bytes mem addr len).foldl (· + ·) 0

/-! ## Finding the table -/

/-- Look for an MP structure, of 16 bytes, in the `len` bytes at `a`. -/
def mpsearch1 (a len : ℕ) : Option ℕ :=
  ((List.range (len / 16)).map fun i => advance (p2v a) (16 * i)).find? fun p =>
    bytes mem p 4 = [0x5f, 0x4d, 0x50, 0x5f] ∧ sum mem p 16 = 0

/-- Look for the MP floating pointer structure in the three places where it can be. -/
def mpsearch : Option ℕ :=
  let ebda := ushort mem (p2v 0x40e) * 2 ^ 4
  if ebda ≠ 0 then (mpsearch1 mem ebda 1024).or (mpsearch1 mem 0xf0000 0x10000)
  else (mpsearch1 mem ((ushort mem (p2v 0x413) * 1024 + 2 ^ 32 - 1024) % 2 ^ 32) 1024).or
    (mpsearch1 mem 0xf0000 0x10000)

/-- `conf->length`. -/
def length (conf : ℕ) : ℕ := ushort mem (advance conf 4)

/-- The tests of `mpconfig`: the signature `PCMP`, the version and the checksum. -/
def Passes (conf : ℕ) : Prop :=
  bytes mem conf 4 = [0x50, 0x43, 0x4d, 0x50] ∧
    (mem (advance conf 6) = 1 ∨ mem (advance conf 6) = 4) ∧
    sum mem conf (length mem conf) = 0

instance (conf : ℕ) : Decidable (Passes mem conf) := by
  unfold Passes
  infer_instance

/-- The configuration table and the structure that points to it. -/
def mpconfig : Option (ℕ × ℕ) :=
  match mpsearch mem with
  | none => none
  | some mp =>
      let conf := p2v (uint mem (advance mp 4))
      if uint mem (advance mp 4) = 0 then none
      else if Passes mem conf then some (conf, mp)
      else none

/-! ## Reading the table -/

/-- The types of entries. -/
inductive Entry
  | proc
  | bus
  | ioapic
  | iointr
  | lintr
deriving DecidableEq

/-- The type of an entry by its first byte. -/
def Entry.ofByte (b : UInt8) : Option Entry :=
  if b = 0 then some proc
  else if b = 1 then some bus
  else if b = 2 then some ioapic
  else if b = 3 then some iointr
  else if b = 4 then some lintr
  else none

/-- The number of bytes of an entry. -/
def Entry.size : Entry → ℕ
  | proc => 20
  | _ => 8

/-- The globals of `mp.c`: `bcpu` is an index, and `id i` what has been stored in `cpus[i].id`. -/
structure Globals where
  ncpu : ℕ
  ismp : Bool
  bcpu : ℕ
  ioapicid : UInt8
  lapic : ℕ
  id : ℕ → Option UInt8
  /-- What has been written to I/O ports. -/
  outb : List (ℕ × UInt8)

/-- The globals at the start. -/
def Globals.initial : Globals := ⟨0, false, 0, 0, 0, fun _ => none, []⟩

/-- What `mpinit` does with the entry at `p`, depending on its type. -/
def Globals.entry (g : Globals) (p : ℕ) : Entry → Globals
  | .proc => { g with
      ismp := g.ismp && decide (g.ncpu = (mem (advance p 1)).toNat)
      bcpu := if mem (advance p 3) &&& MPBOOT ≠ 0 then g.ncpu else g.bcpu
      id := Function.update g.id g.ncpu (some (UInt8.ofNat g.ncpu))
      ncpu := g.ncpu + 1 }
  | .ioapic => { g with ioapicid := mem (advance p 1) }
  | _ => g

/-- The loop of `mpinit` from `p` on; `none` if it has not ended after some iterations.  An entry of
unknown type does not move the pointer. -/
def mpinitLoop (e : ℕ) : ℕ → ℕ → Globals → Option Globals
  | 0, _, _ => none
  | n + 1, p, g =>
      if p < e then
        match Entry.ofByte (mem p) with
        | some t => mpinitLoop e n (advance p t.size) (g.entry mem p t)
        | none => mpinitLoop e n p { g with ismp := false }
      else some g

/-- What follows the loop: the fallback to one processor, or the IMCR, whose data port reads as
`imcr`. -/
def Globals.finish (g : Globals) (mp : ℕ) (imcr : UInt8) : Globals :=
  if g.ismp = false then { g with ncpu := 1, lapic := 0, ioapicid := 0 }
  else if mem (advance mp 12) ≠ 0 then
    { g with outb := g.outb ++ [(0x22, 0x70), (0x23, imcr ||| 1)] }
  else g

/-- `mpinit` with at most `n` iterations. -/
def mpinit (n : ℕ) (imcr : UInt8) : Option Globals :=
  match mpconfig mem with
  | none => some .initial
  | some (conf, mp) =>
      (mpinitLoop mem (advance conf (length mem conf)) n (advance conf 44)
        { Globals.initial with ismp := true, lapic := uint mem (advance conf 36) }).map
        fun g => g.finish mem mp imcr

/-! ## The entries of a table -/

/-- The entries from `p` to `e` are of the types `l`; the last one may reach over the end. -/
inductive Entries (e : ℕ) : ℕ → List Entry → Prop
  | nil {p : ℕ} (hp : e ≤ p) : Entries e p []
  | cons {p : ℕ} {t : Entry} {l : List Entry} (hp : p < e) (ht : Entry.ofByte (mem p) = some t)
      (hl : Entries e (advance p t.size) l) : Entries e p (t :: l)

/-- What entries of the types `l` do to the globals. -/
structure Reads (g : Globals) (l : List Entry) (g' : Globals) : Prop where
  ncpu : g'.ncpu = g.ncpu + l.count .proc
  id : ∀ i, g'.id i ≠ none ↔ g.id i ≠ none ∨ g.ncpu ≤ i ∧ i < g'.ncpu
  ismp : l.count .proc = 0 → g'.ismp = g.ismp

variable {mem} {e p n conf mp : ℕ} {g g' : Globals} {l : List Entry} {imcr : UInt8}

/-- No entry. -/
lemma Reads.nil : Reads g [] g := ⟨rfl, fun i => by rw [or_iff_left (by omega)], fun _ => rfl⟩

/-- One more entry in front. -/
lemma Reads.cons {t : Entry} (r : Reads (g.entry mem p t) l g') : Reads g (t :: l) g' := by
  cases t with
  | proc =>
      have hncpu : g'.ncpu = g.ncpu + 1 + l.count .proc := r.ncpu
      refine ⟨?_, fun i => ?_, fun h => ?_⟩
      · rw [hncpu, List.count_cons_self]
        omega
      · have hid : Function.update g.id g.ncpu (some (UInt8.ofNat g.ncpu)) i ≠ none ↔ g.id i ≠
          none ∨ i = g.ncpu := by
          by_cases hi : i = g.ncpu
          · simp [hi]
          · rw [Function.update_of_ne hi, or_iff_left hi]
        refine (r.id i).trans ((or_congr hid Iff.rfl).trans ?_)
        rw [or_assoc]
        refine or_congr Iff.rfl ?_
        change i = g.ncpu ∨ g.ncpu + 1 ≤ i ∧ i < g'.ncpu ↔ _
        omega
      · rw [List.count_cons_self] at h
        omega
  | _ => exact ⟨r.ncpu, r.id, r.ismp⟩

/-- The loop ends if all entries are of known types. -/
lemma Entries.mpinitLoop (h : Entries mem e p l) (g : Globals) :
    ∃ g', mpinitLoop mem e (l.length + 1) p g = some g' ∧ Reads g l g' := by
  induction h generalizing g with
  | nil hp => exact ⟨g, if_neg (not_lt.2 hp), .nil⟩
  | @cons q t l hp ht hl ih =>
      obtain ⟨g', hrun, r⟩ := ih (g.entry mem q t)
      refine ⟨g', ?_, r.cons⟩
      rw [Mp.mpinitLoop, if_pos hp, ht]
      exact hrun

/-- If the loop ends then all entries are of known types: it stays at the first one that is not. -/
lemma entries_of_mpinitLoop (h : mpinitLoop mem e n p g = some g') :
    ∃ l, Entries mem e p l ∧ Reads g l g' := by
  induction n generalizing p g with
  | zero => exact absurd h (by simp [mpinitLoop])
  | succ n ih =>
      rw [mpinitLoop] at h
      by_cases hp : p < e
      · rw [if_pos hp] at h
        cases ht : Entry.ofByte (mem p) with
        | some t =>
            rw [ht] at h
            obtain ⟨l, hl, r⟩ := ih h
            exact ⟨t :: l, .cons hp ht hl, r.cons⟩
        | none =>
            rw [ht] at h
            obtain ⟨l, hl, -⟩ := ih h
            cases hl with
            | nil hle => exact absurd hp (not_lt.2 hle)
            | cons _ ht' _ => exact absurd (ht.symm.trans ht') (by simp)
      · rw [if_neg hp] at h
        obtain rfl := Option.some_inj.1 h
        exact ⟨[], .nil (not_lt.1 hp), .nil⟩

/-! ## A safe end -/

/-- `mpinit` ends, has stored only into elements of `cpus`, and has found between 1 and `NCPU`
processors or fallen back to one. -/
def EndsSafely (mem : Mem) (imcr : UInt8) : Prop :=
  ∃ n g, mpinit mem n imcr = some g ∧ (∀ i, g.id i ≠ none → i < NCPU) ∧
    (1 ≤ g.ncpu ∧ g.ncpu ≤ NCPU ∨ g.ismp = false ∧ g.ncpu = 1)

lemma Globals.id_finish : (g.finish mem mp imcr).id = g.id := by
  rw [finish]
  split
  · rfl
  · split <;> rfl

lemma Globals.ncpu_finish : (g.finish mem mp imcr).ncpu = if g.ismp = false then 1 else g.ncpu := by
  rw [finish]
  split
  · rfl
  · split <;> rfl

lemma Globals.ismp_finish : (g.finish mem mp imcr).ismp = g.ismp := by
  rw [finish]
  split
  · rfl
  · split <;> rfl

/-- With a table that passes the tests, `mpinit` ends safely just if all its entries are of known
types and between 1 and `NCPU` of them are of processors. -/
theorem mpinit_endsSafely_iff (h : mpconfig mem = some (conf, mp)) (imcr : UInt8) :
    EndsSafely mem imcr ↔ ∃ l, Entries mem (advance conf (length mem conf)) (advance conf 44) l ∧
      1 ≤ l.count .proc ∧ l.count .proc ≤ NCPU := by
  have hinit : ∀ n, mpinit mem n imcr = (mpinitLoop mem (advance conf (length mem conf)) n
    (advance conf 44)
      { Globals.initial with ismp := true, lapic := uint mem (advance conf 36) }).map
      fun g => g.finish mem mp imcr := by
    intro n
    rw [mpinit, h]
  constructor
  · rintro ⟨n, g, hrun, hid, hncpu⟩
    rw [hinit n] at hrun
    obtain ⟨g₀, hloop, rfl⟩ := Option.map_eq_some_iff.1 hrun
    obtain ⟨l, hl, r⟩ := entries_of_mpinitLoop hloop
    have hcount : g₀.ncpu = l.count .proc := r.ncpu.trans (Nat.zero_add _)
    refine ⟨l, hl, ?_, ?_⟩
    · by_contra hzero
      have hnone : l.count .proc = 0 := by omega
      have hismp : g₀.ismp = true := r.ismp hnone
      rw [Globals.ncpu_finish, Globals.ismp_finish, hismp, if_neg (by simp), hcount, hnone] at hncpu
      omega
    · -- otherwise the element behind the last one has been stored to
      by_contra hmany
      have hstored : g₀.id NCPU ≠ none := (r.id NCPU).2 (.inr ⟨Nat.zero_le _, by omega⟩)
      rw [Globals.id_finish] at hid
      exact absurd (hid NCPU hstored) (lt_irrefl _)
  · rintro ⟨l, hl, hpos, hle⟩
    obtain ⟨g, hloop, r⟩ := hl.mpinitLoop
      { Globals.initial with ismp := true, lapic := uint mem (advance conf 36) }
    have hcount : g.ncpu = l.count .proc := r.ncpu.trans (Nat.zero_add _)
    refine ⟨l.length + 1, g.finish mem mp imcr, by rw [hinit, hloop]; rfl, fun i hi => ?_, ?_⟩
    · rw [Globals.id_finish] at hi
      rcases (r.id i).1 hi with hno | ⟨-, hlt⟩
      · exact absurd rfl hno
      · omega
    · rw [Globals.ncpu_finish, Globals.ismp_finish]
      split
      · rename_i hismp
        exact .inr ⟨hismp, rfl⟩
      · exact .inl ⟨by omega, by omega⟩

/-! ## Two tables -/

/-- A table with the given entries, whose checksum is right. -/
def table (entries : List UInt8) : List UInt8 :=
  [0x50, 0x43, 0x4d, 0x50, UInt8.ofNat (44 + entries.length), 0, 1,
    0 - (0x31 + UInt8.ofNat (44 + entries.length) + entries.foldl (· + ·) 0)] ++ List.replicate
    36 0 ++ entries

/-- A floating pointer structure that points to address `0x1000`. -/
def floating : List UInt8 := [0x5f, 0x4d, 0x50, 0x5f, 0, 0x10, 0, 0, 1, 4, 0x90, 0, 0, 0, 0, 0]

/-- Memory with a table at `0x1000` and the structure that points to it in the BIOS ROM. -/
def withTable (entries : List UInt8) : Mem := fun a =>
  if p2v 0x1000 ≤ a ∧ a < p2v 0x2000 then (table entries).getD (a - p2v 0x1000) 0
  else if p2v 0xf0000 ≤ a then floating.getD (a - p2v 0xf0000) 0
  else 0

/-- The entry of the bootstrap processor. -/
def bootProcessor : List UInt8 := [0, 0, 0, 3] ++ List.replicate 16 0

/-- A table with the entry of one processor. -/
theorem mpinit_endsSafely_one : mpconfig (withTable bootProcessor) =
    some (p2v 0x1000, p2v 0xf0000) ∧
    EndsSafely (withTable bootProcessor) 0 := by
  have hconf : mpconfig (withTable bootProcessor) = some (p2v 0x1000, p2v 0xf0000) := by
    decide +kernel
  have hl : Entries (withTable bootProcessor)
    (advance (p2v 0x1000) (length (withTable bootProcessor) (p2v 0x1000)))
      (advance (p2v 0x1000) 44) [.proc] :=
    .cons (by decide +kernel) (by decide +kernel) (.nil (by decide +kernel))
  exact ⟨hconf, (mpinit_endsSafely_iff hconf 0).2 ⟨[.proc], hl, by decide, by decide⟩⟩

/-- With an entry of type 5 the loop does not end. -/
theorem mpinit_unknown_entry : mpconfig (withTable [5]) = some (p2v 0x1000, p2v 0xf0000) ∧
    (∀ n imcr, mpinit (withTable [5]) n imcr = none) ∧ ∀ imcr,
    ¬ EndsSafely (withTable [5]) imcr := by
  have hconf : mpconfig (withTable [5]) = some (p2v 0x1000, p2v 0xf0000) := by decide +kernel
  have hnone : ∀ n imcr, mpinit (withTable [5]) n imcr = none := by
    intro n imcr
    rw [mpinit, hconf]
    refine Option.map_eq_none_iff.2 (Option.eq_none_iff_forall_ne_some.2 fun g hg => ?_)
    obtain ⟨l, hl, -⟩ := entries_of_mpinitLoop hg
    cases hl with
    | nil hle => exact absurd hle (by decide +kernel)
    | cons _ ht _ =>
        have hno : Entry.ofByte (withTable [5] (advance (p2v 0x1000) 44)) = none := by
          decide +kernel
        exact absurd (hno.symm.trans ht) (by simp)
  exact ⟨hconf, hnone, fun imcr ⟨n, g, hg, _⟩ => absurd ((hnone n imcr).symm.trans hg) (by simp)⟩

end Xv6.Mp
