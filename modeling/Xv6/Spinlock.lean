import Xv6.Lib.Run
import Mathlib.Data.Fintype.Card
import Mathlib.Data.Int.Notation
import Mathlib.Algebra.Group.Nat.Defs
import Mathlib.Algebra.Group.Int.Defs

/-!
# Spin locks (`spinlock.c`)

Any number of processors `C` acquire and release the locks of `L`.  Each write to a lock is a step
of its own, and so is what `holding` reads; the steps of the processors are interleaved in every
way.  A processor can also turn its interrupts off, as at the begin of a handler, and on again while
`ncli` is 0.  The names of the locks and the program counters that are recorded for debugging are
left out.
-/

namespace Xv6.Spinlock

open Lib

/-- `struct spinlock`. -/
structure Lock (C : Type) where
  locked : Bool
  cpu : Option C

/-- Where a processor is: in `acquire` before and after its `xchg`, in `release` after the check,
after `lk->cpu = 0` and after its `xchg`, in `panic`, or elsewhere. -/
inductive Place (L : Type)
  | out
  | spinning (l : L)
  | taken (l : L)
  | leaving (l : L)
  | unmarked (l : L)
  | unlocked
  | panicked
deriving DecidableEq

/-- A processor: its interrupt flag, the fields of `struct cpu` that are used here, and where it is.
The last two are for the statements: how many calls of `pushcli` outside of `acquire` have no
`popcli` yet, and whether interrupts were on when `ncli` was last 0. -/
structure Cpu (L : Type) where
  interruptible : Bool
  ncli : ℤ
  intena : Bool
  place : Place L
  pushed : ℕ
  wanted : Bool

structure Machine (C L : Type) where
  lock : L → Lock C
  cpu : C → Cpu L

section

variable {L : Type}

/-- `ncli` is an `int`. -/
def pushcli (u : Cpu L) : Cpu L :=
  { u with
    interruptible := false
    ncli := (u.ncli + 1).bmod (2 ^ 32)
    intena := if u.ncli = 0 then u.interruptible else u.intena }

def popcli (u : Cpu L) : Except String (Cpu L) :=
  let ncli := (u.ncli - 1).bmod (2 ^ 32)
  if u.interruptible then .error "popcli - interruptible"
  else if ncli < 0 then .error "popcli"
  else .ok { u with ncli := ncli, interruptible := decide (ncli = 0) && u.intena }

/-- `ncli` can be increased. -/
def Cpu.Shallow (u : Cpu L) : Prop := u.ncli < 2 ^ 31 - 1

instance (u : Cpu L) : Decidable u.Shallow := inferInstanceAs (Decidable (_ < _))

lemma pushcli_eq {u : Cpu L} (hpos : 0 ≤ u.ncli) (h : u.Shallow) : pushcli u =
    { u with
      interruptible := false
      ncli := u.ncli + 1
      intena := if u.ncli = 0 then u.interruptible else u.intena } := by
  have hbound : u.ncli < 2 ^ 31 - 1 := h
  rw [pushcli, Int.bmod_eq_of_le (by omega) (by omega)]

lemma popcli_eq {u : Cpu L} (hoff : u.interruptible = false) (hpos : 0 < u.ncli)
    (h : u.ncli < 2 ^ 31) : popcli u =
    .ok { u with ncli := u.ncli - 1, interruptible := decide (u.ncli - 1 = 0) && u.intena } := by
  rw [popcli, Int.bmod_eq_of_le (by omega) (by omega)]
  rw [if_neg (by simp [hoff]), if_neg (by omega)]

end

namespace Machine

section

variable {C L : Type}

/-- `holding`, on processor `c`. -/
def holding [DecidableEq C] (s : Machine C L) (c : C) (l : L) : Bool :=
  (s.lock l).locked && decide ((s.lock l).cpu = some c)

def setCpu [DecidableEq C] (s : Machine C L) (c : C) (u : Cpu L) : Machine C L :=
  { s with cpu := Function.update s.cpu c u }

def setLock [DecidableEq L] (s : Machine C L) (l : L) (k : Lock C) : Machine C L :=
  { s with lock := Function.update s.lock l k }

@[grind =] lemma setCpu_cpu [DecidableEq C] {s : Machine C L} {c d : C} {u : Cpu L} :
    (s.setCpu c u).cpu d = if d = c then u else s.cpu d := Function.update_apply ..

@[grind =] lemma setCpu_lock [DecidableEq C] {s : Machine C L} {c : C} {u : Cpu L} :
    (s.setCpu c u).lock = s.lock := rfl

@[grind =] lemma setLock_lock [DecidableEq L] {s : Machine C L} {l k : L} {x : Lock C} :
    (s.setLock l x).lock k = if k = l then x else s.lock k := Function.update_apply ..

@[grind =] lemma setLock_cpu [DecidableEq L] {s : Machine C L} {l : L} {x : Lock C} :
    (s.setLock l x).cpu = s.cpu := rfl

end

end Machine

variable {C L : Type} [DecidableEq C] [DecidableEq L]

/-- What a processor does: a call, or the next step inside of one. -/
inductive Move (C L : Type)
  | acquire (c : C) (l : L)
  | release (c : C) (l : L)
  | pushcli (c : C)
  | popcli (c : C)
  | cli (c : C)
  | sti (c : C)
  | go (c : C)

/-- After `popcli`, or in `panic` with its message. -/
def afterPopcli (s : Machine C L) (c : C) (f : Cpu L → Cpu L) : Machine C L × Option String :=
  match popcli (s.cpu c) with
  | .ok u => (s.setCpu c (f u), none)
  | .error msg => (s.setCpu c { s.cpu c with place := .panicked }, some msg)

/-- One step; it shows what `panic` prints. -/
def step (s : Machine C L) : Move C L → Option (Machine C L × Option String)
  | .acquire c l =>
      let u := pushcli (s.cpu c)
      if u.place = .out then
        if s.holding c l then some (s.setCpu c { u with place := .panicked }, some "acquire")
        else some (s.setCpu c { u with place := .spinning l }, none)
      else none
  | .release c l =>
      if (s.cpu c).place = .out then
        if s.holding c l then some (s.setCpu c { s.cpu c with place := .leaving l }, none)
        else some (s.setCpu c { s.cpu c with place := .panicked }, some "release")
      else none
  | .pushcli c =>
      if (s.cpu c).place = .out then
        some (s.setCpu c { pushcli (s.cpu c) with pushed := (s.cpu c).pushed + 1 }, none)
      else none
  | .popcli c =>
      if (s.cpu c).place = .out then
        some (afterPopcli s c fun u => { u with pushed := u.pushed - 1 })
      else none
  | .cli c =>
      let wanted := (s.cpu c).wanted && decide ((s.cpu c).ncli ≠ 0)
      some (s.setCpu c { s.cpu c with interruptible := false, wanted := wanted }, none)
  | .sti c => some (s.setCpu c { s.cpu c with interruptible := true, wanted := true }, none)
  | .go c =>
      match (s.cpu c).place with
      | .spinning l =>
          -- `xchg(&lk->locked, 1)`, until it returns 0
          if (s.lock l).locked then some (s, none)
          else some ((s.setLock l { s.lock l with locked := true }).setCpu c
            { s.cpu c with place := .taken l }, none)
      | .taken l => some ((s.setLock l { s.lock l with cpu := some c }).setCpu c
          { s.cpu c with place := .out }, none)
      | .leaving l => some ((s.setLock l { s.lock l with cpu := none }).setCpu c
          { s.cpu c with place := .unmarked l }, none)
      | .unmarked l => some ((s.setLock l { s.lock l with locked := false }).setCpu c
          { s.cpu c with place := .unlocked }, none)
      | .unlocked => some (afterPopcli s c fun u => { u with place := .out })
      | _ => none

/-- No lock is taken, and no call is under way. -/
def start : Machine C L := ⟨fun _ => ⟨false, none⟩, fun _ => ⟨false, 0, false, .out, 0, false⟩⟩

/-- Processor `c` has the lock: its `xchg` in `acquire` has returned 0, and that in `release` is
still to come. -/
def Machine.Owns (s : Machine C L) (c : C) (l : L) : Prop :=
  (s.lock l).cpu = some c ∨ (s.cpu c).place = .taken l ∨ (s.cpu c).place = .unmarked l

instance (s : Machine C L) (c : C) (l : L) : Decidable (s.Owns c l) :=
  inferInstanceAs (Decidable (_ ∨ _ ∨ _))

/-- What the rest of the kernel takes care of: nobody acquires a lock twice or releases one that it
does not have, `popcli` comes after `pushcli`, interrupts are turned on only where `ncli` is 0, and
`ncli` does not overflow. -/
def Lawful (s : Machine C L) : Move C L → Prop
  | .acquire c l => ¬ s.Owns c l ∧ (s.cpu c).Shallow
  | .release c l => s.Owns c l
  | .pushcli c => (s.cpu c).Shallow
  | .popcli c => 0 < (s.cpu c).pushed
  | .sti c => (s.cpu c).ncli = 0
  | _ => True

instance (s : Machine C L) (m : Move C L) : Decidable (Lawful s m) :=
  match m with
  | .acquire c l => inferInstanceAs (Decidable (¬ s.Owns c l ∧ (s.cpu c).Shallow))
  | .release c l => inferInstanceAs (Decidable (s.Owns c l))
  | .pushcli c => inferInstanceAs (Decidable (s.cpu c).Shallow)
  | .popcli c => inferInstanceAs (Decidable (0 < (s.cpu c).pushed))
  | .sti c => inferInstanceAs (Decidable ((s.cpu c).ncli = 0))
  | .cli _ | .go _ => instDecidableTrue

/-! ## The invariant -/

/-- The calls of `pushcli` that go with no lock that the processor has. -/
def Cpu.pending (u : Cpu L) : ℕ :=
  u.pushed + match u.place with
    | .spinning _ => 1
    | .unlocked => 1
    | _ => 0

variable [Fintype L] {s s' : Machine C L} {c : C} {l : L} {m : Move C L} {e : Option String}

/-- The locks that a processor has. -/
def Machine.owned (s : Machine C L) (c : C) : Finset L := Finset.univ.filter (s.Owns c)

structure Inv (s : Machine C L) : Prop where
  locked : ∀ l, (s.lock l).locked = true ↔ ∃ c, s.Owns c l
  unique : ∀ c d l, s.Owns c l → s.Owns d l → c = d
  unnamed : ∀ c l, (s.cpu c).place = .taken l ∨ (s.cpu c).place = .unmarked l →
    (s.lock l).cpu = none
  leaving : ∀ c l, (s.cpu c).place = .leaving l → (s.lock l).cpu = some c
  spinning : ∀ c l, (s.cpu c).place = .spinning l → ¬ s.Owns c l
  count : ∀ c, (s.cpu c).ncli = (s.owned c).card + (s.cpu c).pending
  small : ∀ c, (s.cpu c).ncli < 2 ^ 31
  off : ∀ c, (s.cpu c).interruptible = true → (s.cpu c).ncli = 0
  wanted : ∀ c, (s.cpu c).wanted =
    if (s.cpu c).ncli = 0 then (s.cpu c).interruptible else (s.cpu c).intena

lemma card_owned (h : ∀ l, s'.Owns c l ↔ s.Owns c l) : (s'.owned c).card = (s.owned c).card :=
  congrArg Finset.card (Finset.filter_congr fun l _ => h l)

/-- The number of locks, if only `l` may have changed hands. -/
lemma card_owned_erase (h : ∀ k, k ≠ l → (s'.Owns c k ↔ s.Owns c k)) :
    (s'.owned c).card + (if s.Owns c l then 1 else 0) =
      (s.owned c).card + if s'.Owns c l then 1 else 0 := by
  have hcard : ∀ s : Machine C L,
      (s.owned c).card = ((s.owned c).erase l).card + if s.Owns c l then 1 else 0 := by
    intro s
    split
    · exact (Finset.card_erase_add_one (by simpa [Machine.owned])).symm
    · rw [Finset.erase_eq_of_notMem (by simpa [Machine.owned]), Nat.add_zero]
  have herase : (s'.owned c).erase l = (s.owned c).erase l := by
    ext k
    simp only [Machine.owned, Finset.mem_erase, Finset.mem_filter, Finset.mem_univ, true_and]
    exact and_congr_right fun hk => h k hk
  rw [hcard s, hcard s', herase]
  omega

/-- Processor `c` becomes `u` and leaves the locks alone; its counter changes along with what is to
be counted. -/
structure Follows (s : Machine C L) (c : C) (u : Cpu L) : Prop where
  owns : ∀ l, u.place = .taken l ∨ u.place = .unmarked l ↔
    (s.cpu c).place = .taken l ∨ (s.cpu c).place = .unmarked l
  leaving : ∀ l, u.place = .leaving l → (s.lock l).cpu = some c
  spinning : ∀ l, u.place = .spinning l → ¬ s.Owns c l
  count : u.ncli + (s.cpu c).pending = (s.cpu c).ncli + u.pending
  small : u.ncli < 2 ^ 31
  off : u.interruptible = true → u.ncli = 0
  wanted : u.wanted = if u.ncli = 0 then u.interruptible else u.intena

/-- Processor `c` goes on to `p`, and lock `l`, which nobody else has, becomes `x`. -/
structure Passes (s : Machine C L) (c : C) (l : L) (x : Lock C) (p : Place L) : Prop where
  other : ∀ d, s.Owns d l → d = c
  cpu : x.cpu = none ∨ x.cpu = some c
  old : ∀ k, k ≠ l → (s.cpu c).place ≠ .taken k ∧ (s.cpu c).place ≠ .unmarked k
  new : p = .taken l ∨ p = .out ∨ p = .unmarked l ∨ p = .unlocked
  unnamed : p = .taken l ∨ p = .unmarked l → x.cpu = none
  locked : x.locked = true ↔ x.cpu = some c ∨ p = .taken l ∨ p = .unmarked l
  count : (if s.Owns c l then 1 else 0) + (s.cpu c).pending =
    (if x.locked then 1 else 0) + Cpu.pending { s.cpu c with place := p }

namespace Inv

lemma holding_iff (i : Inv s) (hout : (s.cpu c).place = .out) :
    s.holding c l = true ↔ s.Owns c l := by
  have howns : s.Owns c l ↔ (s.lock l).cpu = some c := by simp [Machine.Owns, hout]
  rw [Machine.holding, Bool.and_eq_true, decide_eq_true_eq, i.locked, howns]
  exact ⟨fun h => h.2, fun h => ⟨⟨c, .inl h⟩, h⟩⟩

lemma ncli_nonneg (i : Inv s) (c : C) : 0 ≤ (s.cpu c).ncli := by
  rw [i.count c]
  omega

lemma setCpu {u : Cpu L} (i : Inv s) (f : Follows s c u) : Inv (s.setCpu c u) := by
  have hiff : ∀ d l, (s.setCpu c u).Owns d l ↔ s.Owns d l := by grind [Machine.Owns, f.owns]
  have hcpu : ∀ d, d = c ∧ (s.setCpu c u).cpu d = u ∨ (s.setCpu c u).cpu d = s.cpu d := by
    grind
  constructor
  case locked => exact fun l => (i.locked l).trans (exists_congr fun d => (hiff d l).symm)
  case unique => exact fun d e l hd he => i.unique d e l ((hiff d l).1 hd) ((hiff e l).1 he)
  case unnamed =>
    intro d l
    rcases hcpu d with ⟨rfl, hu⟩ | hu <;> rw [hu]
    · exact fun hplace => i.unnamed d l ((f.owns l).1 hplace)
    · exact i.unnamed d l
  case leaving =>
    intro d l
    rcases hcpu d with ⟨rfl, hu⟩ | hu <;> rw [hu]
    · exact f.leaving l
    · exact i.leaving d l
  case spinning =>
    intro d l
    rw [hiff]
    rcases hcpu d with ⟨rfl, hu⟩ | hu <;> rw [hu]
    · exact f.spinning l
    · exact i.spinning d l
  case count =>
    intro d
    have hcount := i.count d
    rw [card_owned (hiff d)]
    rcases hcpu d with ⟨rfl, hu⟩ | hu <;> rw [hu]
    · have := f.count
      omega
    · exact hcount
  case small =>
    intro d
    rcases hcpu d with ⟨rfl, hu⟩ | hu <;> rw [hu]
    · exact f.small
    · exact i.small d
  case off =>
    intro d
    rcases hcpu d with ⟨rfl, hu⟩ | hu <;> rw [hu]
    · exact f.off
    · exact i.off d
  case wanted =>
    intro d
    rcases hcpu d with ⟨rfl, hu⟩ | hu <;> rw [hu]
    · exact f.wanted
    · exact i.wanted d

/-- `popcli` of a processor whose `pushcli` is to be counted. -/
lemma afterPopcli (i : Inv s) (hpos : 0 < (s.cpu c).pending) (f : Cpu L → Cpu L) :
    afterPopcli s c f = (s.setCpu c (f { s.cpu c with
      ncli := (s.cpu c).ncli - 1
      interruptible := decide ((s.cpu c).ncli - 1 = 0) && (s.cpu c).intena }), none) := by
  have hncli : 0 < (s.cpu c).ncli := by
    rw [i.count c]
    omega
  have hoff : (s.cpu c).interruptible = false := by
    by_contra hon
    have := i.off c (by simpa using hon)
    omega
  rw [Spinlock.afterPopcli, popcli_eq hoff hncli (i.small c)]

lemma setLock {x : Lock C} {p : Place L} (i : Inv s) (h : Passes s c l x p) :
    Inv ((s.setLock l x).setCpu c { s.cpu c with place := p }) := by
  generalize hs' : (s.setLock l x).setCpu c { s.cpu c with place := p } = s'
  have hlock : ∀ k, s'.lock k = if k = l then x else s.lock k := by
    simp [← hs', Machine.setCpu_lock, Machine.setLock_lock]
  have hcpu : ∀ d, s'.cpu d = if d = c then { s.cpu c with place := p } else s.cpu d := by
    simp [← hs', Machine.setCpu_cpu, Machine.setLock_cpu]
  obtain ⟨hother, hx, hold, hnew, hunnamed, hlocked, hcount⟩ := h
  obtain ⟨ilocked, iunique, iunnamed, ileaving, ispinning, icount, ismall, ioff, iwanted⟩ := i
  -- who has lock `l` now, and that the other locks are with whom they were
  have hl : ∀ d, s'.Owns d l ↔ d = c ∧ x.locked = true := by grind [Machine.Owns]
  have hk : ∀ d k, k ≠ l → (s'.Owns d k ↔ s.Owns d k) := by grind [Machine.Owns]
  have hcard := fun d => card_owned_erase (hk d)
  constructor
  case locked =>
    intro k
    by_cases hkl : k = l
    · simp [hkl, hl, hlock]
    · simp [hk _ k hkl, hlock, hkl, ilocked]
  case unique =>
    intro d e k hd he
    by_cases hkl : k = l
    · subst hkl
      rw [((hl d).1 hd).1, ((hl e).1 he).1]
    · exact iunique d e k ((hk d k hkl).1 hd) ((hk e k hkl).1 he)
  case unnamed => grind [Machine.Owns]
  case leaving => grind [Machine.Owns]
  case spinning => grind [Machine.Owns]
  case count => grind [Cpu.pending]
  case small => grind
  case off => grind
  case wanted => grind

/-- A processor that has the lock at which it is goes on. -/
lemma passes_owner {x : Lock C} {p : Place L} (i : Inv s) (howns : s.Owns c l)
    (hcpu : x.cpu = none ∨ x.cpu = some c)
    (hold : ∀ k, k ≠ l → (s.cpu c).place ≠ .taken k ∧ (s.cpu c).place ≠ .unmarked k)
    (hnew : p = .out ∧ x.cpu = some c ∧ x.locked = true ∨
      p = .unmarked l ∧ x.cpu = none ∧ x.locked = true ∨
      p = .unlocked ∧ x.cpu = none ∧ x.locked = false)
    (hcount : 1 + (s.cpu c).pending =
      (if x.locked then 1 else 0) + Cpu.pending { s.cpu c with place := p }) :
    Passes s c l x p where
  other d hd := i.unique d c l hd howns
  cpu := hcpu
  old := hold
  new := by rcases hnew with ⟨h, -⟩ | ⟨h, -⟩ | ⟨h, -⟩ <;> simp [h]
  unnamed := by rcases hnew with ⟨rfl, -⟩ | ⟨-, h, -⟩ | ⟨rfl, -⟩ <;> simp [*]
  locked := by rcases hnew with ⟨rfl, hx, hl⟩ | ⟨rfl, hx, hl⟩ | ⟨rfl, hx, hl⟩ <;> simp [hx, hl]
  count := by rw [if_pos howns, hcount]

/-- The steps inside of `acquire` and `release`. -/
lemma go (i : Inv s) (hs : Spinlock.step s (.go c) = some (s', e)) : Inv s' ∧ e = none := by
  have hpop := i.afterPopcli (c := c)
  cases hplace : (s.cpu c).place with
  | spinning l =>
      rw [Spinlock.step, hplace] at hs
      dsimp only at hs
      split at hs
      · obtain ⟨rfl, rfl⟩ := Prod.mk.inj (Option.some.inj hs)
        exact ⟨i, rfl⟩
      · rename_i hfree
        obtain ⟨rfl, rfl⟩ := Prod.mk.inj (Option.some.inj hs)
        have hno : ∀ d, ¬ s.Owns d l := fun d hd => hfree ((i.locked l).2 ⟨d, hd⟩)
        have hnone : (s.lock l).cpu = none :=
          Option.eq_none_iff_forall_ne_some.2 fun d hd => hno d (.inl hd)
        refine ⟨i.setLock ?_, rfl⟩
        exact {
          other := fun d hd => absurd hd (hno d)
          cpu := .inl hnone
          old := by simp [hplace]
          new := .inl rfl
          unnamed := fun _ => hnone
          locked := by simp
          count := by simp [hno c, Cpu.pending, hplace, Nat.add_comm] }
  | taken l =>
      have howns : s.Owns c l := .inr (.inl hplace)
      rw [Spinlock.step, hplace] at hs
      obtain ⟨rfl, rfl⟩ := Prod.mk.inj (Option.some.inj hs)
      have hlocked : (s.lock l).locked = true := (i.locked l).2 ⟨c, howns⟩
      exact ⟨i.setLock (i.passes_owner howns (.inr rfl) (by simp [hplace]; grind)
        (.inl ⟨rfl, rfl, hlocked⟩) (by simp [hlocked, Cpu.pending, hplace])), rfl⟩
  | leaving l =>
      have howns : s.Owns c l := .inl (i.leaving c l hplace)
      rw [Spinlock.step, hplace] at hs
      obtain ⟨rfl, rfl⟩ := Prod.mk.inj (Option.some.inj hs)
      have hlocked : (s.lock l).locked = true := (i.locked l).2 ⟨c, howns⟩
      exact ⟨i.setLock (i.passes_owner howns (.inl rfl) (by simp [hplace])
        (.inr (.inl ⟨rfl, rfl, hlocked⟩)) (by simp [hlocked, Cpu.pending, hplace])), rfl⟩
  | unmarked l =>
      have howns : s.Owns c l := .inr (.inr hplace)
      have hnone := i.unnamed c l (.inr hplace)
      rw [Spinlock.step, hplace] at hs
      obtain ⟨rfl, rfl⟩ := Prod.mk.inj (Option.some.inj hs)
      exact ⟨i.setLock (i.passes_owner howns (.inl hnone) (by simp [hplace]; grind)
        (.inr (.inr ⟨rfl, hnone, rfl⟩)) (by simp [Cpu.pending, hplace, Nat.add_comm])), rfl⟩
  | unlocked =>
      have hpos : 0 < (s.cpu c).pending := by simp [Cpu.pending, hplace]
      have hcount := i.count c
      have hsmall := i.small c
      rw [Spinlock.step, hplace] at hs
      dsimp only at hs
      rw [hpop hpos] at hs
      obtain ⟨rfl, rfl⟩ := Prod.mk.inj (Option.some.inj hs)
      refine ⟨i.setCpu ?_, rfl⟩
      exact {
        owns := by simp [hplace]
        leaving := by simp
        spinning := by simp
        count := by simp only [Cpu.pending, hplace]; omega
        small := by dsimp only; omega
        off := by grind
        wanted := by grind [i.wanted c] }
  | out => simp [Spinlock.step, hplace] at hs
  | panicked => simp [Spinlock.step, hplace] at hs

lemma step (i : Inv s) (hl : Lawful s m) (hs : Spinlock.step s m = some (s', e)) :
    Inv s' ∧ e = none := by
  cases m with
  | acquire c l =>
      obtain ⟨hnot, hshallow⟩ : ¬ s.Owns c l ∧ (s.cpu c).Shallow := hl
      have hbound : (s.cpu c).ncli < 2 ^ 31 - 1 := hshallow
      have hnonneg := i.ncli_nonneg c
      by_cases hout : (s.cpu c).place = .out
      · rw [Spinlock.step, if_pos (by exact hout), if_neg (by rw [i.holding_iff hout]; exact hnot),
          pushcli_eq hnonneg hshallow] at hs
        obtain ⟨rfl, rfl⟩ := Prod.mk.inj (Option.some.inj hs)
        refine ⟨i.setCpu ?_, rfl⟩
        exact {
          owns := by simp [hout]
          leaving := by simp
          spinning := by rintro k ⟨⟩; exact hnot
          count := by simp [Cpu.pending, hout]; omega
          small := by dsimp only; omega
          off := by simp
          wanted := by grind [i.wanted c] }
      · exact absurd hs (by simp [Spinlock.step, pushcli, hout])
  | release c l =>
      have howns : s.Owns c l := hl
      by_cases hout : (s.cpu c).place = .out
      · have hcpu : (s.lock l).cpu = some c := by simpa [Machine.Owns, hout] using howns
        rw [Spinlock.step, if_pos hout, if_pos ((i.holding_iff hout).2 howns)] at hs
        obtain ⟨rfl, rfl⟩ := Prod.mk.inj (Option.some.inj hs)
        refine ⟨i.setCpu ?_, rfl⟩
        exact {
          owns := by simp [hout]
          leaving := by rintro k ⟨⟩; exact hcpu
          spinning := by simp
          count := by simp [Cpu.pending, hout]
          small := i.small c
          off := i.off c
          wanted := i.wanted c }
      · exact absurd hs (by simp [Spinlock.step, hout])
  | pushcli c =>
      have hshallow : (s.cpu c).Shallow := hl
      have hbound : (s.cpu c).ncli < 2 ^ 31 - 1 := hshallow
      have hnonneg := i.ncli_nonneg c
      by_cases hout : (s.cpu c).place = .out
      · rw [Spinlock.step, if_pos hout, pushcli_eq hnonneg hshallow] at hs
        obtain ⟨rfl, rfl⟩ := Prod.mk.inj (Option.some.inj hs)
        refine ⟨i.setCpu ?_, rfl⟩
        exact {
          owns := fun _ => Iff.rfl
          leaving := i.leaving c
          spinning := i.spinning c
          count := by simp [Cpu.pending, hout]; omega
          small := by dsimp only; omega
          off := by simp
          wanted := by grind [i.wanted c] }
      · exact absurd hs (by simp [Spinlock.step, hout])
  | popcli c =>
      have hpushed : 0 < (s.cpu c).pushed := hl
      have hsmall := i.small c
      have hcount := i.count c
      by_cases hout : (s.cpu c).place = .out
      · have hpending : (s.cpu c).pending = (s.cpu c).pushed := by simp [Cpu.pending, hout]
        rw [Spinlock.step, if_pos hout, i.afterPopcli (by omega)] at hs
        obtain ⟨rfl, rfl⟩ := Prod.mk.inj (Option.some.inj hs)
        refine ⟨i.setCpu ?_, rfl⟩
        exact {
          owns := fun _ => Iff.rfl
          leaving := i.leaving c
          spinning := i.spinning c
          count := by simp [Cpu.pending, hout]; omega
          small := by dsimp only; omega
          off := by grind
          wanted := by grind [i.wanted c] }
      · exact absurd hs (by simp [Spinlock.step, hout])
  | cli c =>
      obtain ⟨rfl, rfl⟩ := Prod.mk.inj (Option.some.inj hs)
      refine ⟨i.setCpu ?_, rfl⟩
      exact {
        owns := fun _ => Iff.rfl
        leaving := i.leaving c
        spinning := i.spinning c
        count := rfl
        small := i.small c
        off := by simp
        wanted := by grind [i.wanted c] }
  | sti c =>
      have hzero : (s.cpu c).ncli = 0 := hl
      obtain ⟨rfl, rfl⟩ := Prod.mk.inj (Option.some.inj hs)
      refine ⟨i.setCpu ?_, rfl⟩
      exact {
        owns := fun _ => Iff.rfl
        leaving := i.leaving c
        spinning := i.spinning c
        count := rfl
        small := i.small c
        off := fun _ => hzero
        wanted := by rw [if_pos hzero] }
  | go c => exact i.go hs

end Inv

/-- However the processors take turns: nothing panics, a lock is taken exactly while one processor
has it, and never more than one; `holding` is right about the processor that calls it; interrupts
are off on a processor that has a lock, and when `ncli` is 0 again they are as they were when it was
0 last. -/
theorem spinlocks_exclude {es : List String}
    (h : Run step Lawful (start : Machine C L) [] es s) : es = [] ∧
    (∀ l, (s.lock l).locked = true ↔ ∃ c, s.Owns c l) ∧
    (∀ c d l, s.Owns c l → s.Owns d l → c = d) ∧
    (∀ c l, (s.cpu c).place = .out → (s.holding c l = true ↔ s.Owns c l)) ∧
    (∀ c l, s.Owns c l → (s.cpu c).interruptible = false) ∧
    ∀ c, (s.cpu c).ncli = 0 → (s.cpu c).interruptible = (s.cpu c).wanted := by
  have hinv : es = [] ∧ Inv s := by
    refine h.invariant (I := fun es s => es = [] ∧ Inv s) ⟨rfl, ?_⟩ fun hI hl hs => ?_
    · have howns : ∀ c l, ¬ (start : Machine C L).Owns c l := by simp [start, Machine.Owns]
      have hcard : ∀ c, ((start : Machine C L).owned c).card = 0 := by simp [Machine.owned, howns]
      constructor
      case locked =>
        exact fun l => iff_of_false Bool.false_ne_true (not_exists.2 fun c => howns c l)
      case unique => exact fun c d l hc => absurd hc (howns c l)
      case count =>
        intro c
        rw [hcard]
        rfl
      all_goals simp [start]
    · obtain ⟨i, rfl⟩ := hI.2.step hl hs
      exact ⟨by simp [hI.1], i⟩
  obtain ⟨hnone, i⟩ := hinv
  refine ⟨hnone, i.locked, i.unique, fun c l hout => i.holding_iff hout, fun c l hown => ?_,
    fun c hzero => ?_⟩
  · -- a lock counts, and so `ncli` is not 0
    have hpos : 0 < (s.owned c).card := Finset.card_pos.2 ⟨l, by simpa [Machine.owned] using hown⟩
    have hcount := i.count c
    by_contra hon
    have := i.off c (by simpa using hon)
    omega
  · rw [i.wanted c, if_pos hzero]

/-- Two processors want the same lock. -/
theorem spinlocks_exclude_two : ∃ es s, Run step Lawful (start : Machine Bool Unit) [] es s ∧
    s.Owns true () ∧ (s.cpu false).place = .spinning () ∧ (s.cpu true).interruptible = false := by
  obtain ⟨es, s, hrun, howns, hplace⟩ : ∃ es s,
      Run step Lawful (start : Machine Bool Unit) [] es s ∧ s.Owns true () ∧
        (s.cpu false).place = .spinning () :=
    Run.exists_of_exec _ [.sti true, .acquire true (), .acquire false (), .go true,
      .go false, .go true] (by decide +kernel)
  exact ⟨es, s, hrun, howns, hplace, (spinlocks_exclude hrun).2.2.2.2.1 true () howns⟩

end Xv6.Spinlock
