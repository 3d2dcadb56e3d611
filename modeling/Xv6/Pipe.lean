import Xv6.Lib.Ring
import Xv6.Lib.Run
import Mathlib.Data.Int.Notation
import Mathlib.Order.Nat

/-!
# Pipes (`pipe.c`)

Any number of processes call `pipewrite` and `piperead` on one pipe.  A step is what a process
does while it holds `p->lock`: from the call, or from the return of `sleep`, to the next `sleep` or
the return.  Ends of the pipe are closed and processes are killed in between.

A pipe is a ring buffer; what is read is what was written (`pipe_lossless`).  A process that
sleeps on `&p->nread` or `&p->nwrite` has a reason to do so as long as no `pipewrite` gives up after
it has stored bytes that a sleeping reader has not been told of (`pipe_sleepers_have_reason`).
-/

namespace Xv6

open Lib

/-- The number of bytes that a pipe holds. -/
def PIPESIZE : UInt32 := 512

/-- `struct pipe`. -/
structure Pipe where
  data : ℕ → UInt8
  nread : UInt32
  nwrite : UInt32
  readopen : Bool
  writeopen : Bool

namespace Pipe

/-- What the loop of `pipewrite` comes to. -/
inductive Fate
  | done
  | failed
  | blocked
deriving DecidableEq, Repr

/-- `p->data[p->nwrite++ % PIPESIZE] = b`. -/
def put (p : Pipe) (b : UInt8) : Pipe :=
  { p with
    data := Function.update p.data (p.nwrite.toNat % PIPESIZE.toNat) b
    nwrite := p.nwrite + 1 }

/-- The loop of `pipewrite` from byte `i` on, with `k` bytes to go, up to `sleep` or the end. -/
def writeLoop (killed : Bool) (addr : ℕ → UInt8) : ℕ → ℕ → Pipe → Fate × ℕ × Pipe
  | 0, i, p => (.done, i, p)
  | k + 1, i, p =>
      if p.nwrite = p.nread + PIPESIZE then
        if p.readopen = false ∨ killed = true then (.failed, i, p) else (.blocked, i, p)
      else writeLoop killed addr k (i + 1) (p.put (addr i))

/-- The loop of `piperead` that copies at most `k` bytes. -/
def readLoop : ℕ → Pipe → List UInt8 × Pipe
  | 0, p => ([], p)
  | k + 1, p =>
      if p.nread = p.nwrite then ([], p)
      else
        let r := readLoop k { p with nread := p.nread + 1 }
        (p.data (p.nread.toNat % PIPESIZE.toNat) :: r.1, r.2)

/-- `pipeclose` has closed both ends and has freed the page. -/
def Freed (p : Pipe) : Prop := p.readopen = false ∧ p.writeopen = false

instance (p : Pipe) : Decidable p.Freed := inferInstanceAs (Decidable (_ ∧ _))

end Pipe

/-! ## Processes -/

/-- A call with its arguments, and for `pipewrite` the byte that is next. -/
inductive PipeCall
  | write (addr : ℕ → UInt8) (n : ℤ) (i : ℕ)
  | read (n : ℤ)

/-- A process: the call that it is inside of, whether it is `SLEEPING` there, and whether it has
been killed. -/
structure PipeProc where
  call : Option PipeCall
  asleep : Bool
  killed : Bool

/-- A pipe and the processes that use it. -/
structure PipeState (P : Type) where
  pipe : Pipe
  proc : P → PipeProc

/-- What is seen of a stretch under `p->lock`: whose it is, in which call, whether it is the
first one of the call, the bytes stored and taken, and the value if the call returns. -/
structure PipeEvent (P : Type) where
  proc : P
  call : PipeCall
  first : Bool
  stored : List UInt8
  taken : List UInt8
  ret : Option ℤ

/-- What may happen next.  A process that is killed between the test of `proc->killed` and
`sleep` is not `SLEEPING` yet, and then `kill` sets the flag only. -/
inductive PipeLabel (P : Type)
  | write (p : P) (addr : ℕ → UInt8) (n : ℤ)
  | read (p : P) (n : ℤ)
  | resume (p : P)
  | close (writable : Bool)
  | kill (p : P) (wake : Bool)

namespace PipeState

variable {P : Type} [DecidableEq P]

/-- The pipe as `pipealloc` makes it; nobody uses it yet. -/
def start : PipeState P where
  pipe := ⟨fun _ => 0, 0, 0, true, true⟩
  proc _ := ⟨none, false, false⟩

/-- Change one process. -/
def setProc (s : PipeState P) (p : P) (v : PipeProc) : PipeState P :=
  { s with proc := Function.update s.proc p v }

/-- `wakeup(&p->nread)`. -/
def wakeReaders (s : PipeState P) : PipeState P :=
  { s with proc := fun p => match (s.proc p).call with
      | some (.read _) => { s.proc p with asleep := false }
      | _ => s.proc p }

/-- `wakeup(&p->nwrite)`. -/
def wakeWriters (s : PipeState P) : PipeState P :=
  { s with proc := fun p => match (s.proc p).call with
      | some (.write _ _ _) => { s.proc p with asleep := false }
      | _ => s.proc p }

/-- `pipewrite` from byte `i` on. -/
def pipewrite (s : PipeState P) (p : P) (addr : ℕ → UInt8) (n : ℤ) (i : ℕ) (first : Bool) :
    PipeState P × PipeEvent P :=
  let r := s.pipe.writeLoop (s.proc p).killed addr (n.toNat - i) i
  let seen : PipeEvent P :=
    { proc := p, call := .write addr n i, first := first, taken := [],
      stored := (List.range' i (r.2.1 - i)).map addr, ret := none }
  let s := { s with pipe := r.2.2 }
  match r.1 with
  | .done => (s.wakeReaders.setProc p { s.proc p with call := none }, { seen with ret := some n })
  | .failed => (s.setProc p { s.proc p with call := none }, { seen with ret := some (-1) })
  | .blocked =>
      (s.wakeReaders.setProc p { s.proc p with call := some (.write addr n r.2.1), asleep := true },
        seen)

/-- `piperead`. -/
def piperead (s : PipeState P) (p : P) (n : ℤ) (first : Bool) : PipeState P × PipeEvent P :=
  let seen : PipeEvent P :=
    { proc := p, call := .read n, first := first, stored := [], taken := [], ret := none }
  if s.pipe.nread = s.pipe.nwrite ∧ s.pipe.writeopen = true then
    if (s.proc p).killed = true then
      (s.setProc p { s.proc p with call := none }, { seen with ret := some (-1) })
    else (s.setProc p { s.proc p with call := some (.read n), asleep := true }, seen)
  else
    let r := s.pipe.readLoop n.toNat
    let s := { s with pipe := r.2 }
    (s.wakeWriters.setProc p { s.proc p with call := none },
      { seen with taken := r.1, ret := some r.1.length })

/-- `pipeclose`. -/
def pipeclose (s : PipeState P) (writable : Bool) : PipeState P :=
  if writable then { s with pipe := { s.pipe with writeopen := false } }.wakeReaders
  else { s with pipe := { s.pipe with readopen := false } }.wakeWriters

/-- One step, if it is possible; nothing happens to a pipe that has been freed. -/
def step (s : PipeState P) : PipeLabel P → Option (PipeState P × Option (PipeEvent P))
  | .write p addr n =>
      if ¬ s.pipe.Freed ∧ (s.proc p).call.isNone then
        let r := s.pipewrite p addr n 0 true
        some (r.1, some r.2)
      else none
  | .read p n =>
      if ¬ s.pipe.Freed ∧ (s.proc p).call.isNone then
        let r := s.piperead p n true
        some (r.1, some r.2)
      else none
  | .resume p =>
      if ¬ s.pipe.Freed ∧ (s.proc p).asleep = false then
        match (s.proc p).call with
        | some (.write addr n i) =>
            let r := s.pipewrite p addr n i false
            some (r.1, some r.2)
        | some (.read n) =>
            let r := s.piperead p n false
            some (r.1, some r.2)
        | none => none
      else none
  | .close writable =>
      if (if writable then s.pipe.writeopen else s.pipe.readopen) = true then
        some (s.pipeclose writable, none)
      else none
  | .kill p wake =>
      some (s.setProc p { s.proc p with
        killed := true, asleep := (s.proc p).asleep && !wake }, none)

end PipeState

/-! ## The loops -/

namespace Pipe

variable {p : Pipe} {killed : Bool} {addr : ℕ → UInt8} {k i : ℕ}

/-- The bytes in the pipe, the oldest first. -/
def content (p : Pipe) : List UInt8 := Ring.content p.data PIPESIZE.toNat p.nread p.nwrite

/-- How many there are. -/
def count (p : Pipe) : ℕ := Ring.count p.nread p.nwrite

lemma pipesize_dvd : PIPESIZE.toNat ∣ 2 ^ 32 := by decide

lemma length_content (p : Pipe) : p.content.length = p.count := Ring.length_content

lemma full_iff : p.nwrite = p.nread + PIPESIZE ↔ p.count = PIPESIZE.toNat := Ring.count_eq_iff.symm

lemma empty_iff : p.nread = p.nwrite ↔ p.content = [] := Ring.content_eq_nil.symm

/-- Storing a byte in a pipe that is not full. -/
lemma put_spec (hle : p.count ≤ PIPESIZE.toNat) (hne : p.nwrite ≠ p.nread + PIPESIZE) (b : UInt8) :
    (p.put b).content = p.content ++ [b] ∧ (p.put b).count ≤ PIPESIZE.toNat := by
  have hlt : p.count < PIPESIZE.toNat := lt_of_le_of_ne hle fun h => hne (full_iff.2 h)
  have hsize : PIPESIZE.toNat < 2 ^ 32 - 1 := by decide
  have hcount : (p.put b).count = p.count + 1 :=
    Ring.count_put (r := p.nread) (w := p.nwrite) (by rw [count] at hlt; omega)
  exact ⟨Ring.content_put pipesize_dvd (by omega) hlt, by omega⟩

/-- What the loop of `pipewrite` leaves. -/
structure Wrote (killed : Bool) (addr : ℕ → UInt8) (k i : ℕ) (p : Pipe) (r : Fate × ℕ × Pipe) :
    Prop where
  le : i ≤ r.2.1
  content : r.2.2.content = p.content ++ (List.range' i (r.2.1 - i)).map addr
  count : r.2.2.count ≤ PIPESIZE.toNat
  readopen : r.2.2.readopen = p.readopen
  writeopen : r.2.2.writeopen = p.writeopen
  done : r.1 = .done → r.2.1 = i + k
  blocked : r.1 = .blocked → r.2.1 < i + k ∧ r.2.2.count = PIPESIZE.toNat ∧ p.readopen = true
  failed : r.1 = .failed →
    r.2.1 < i + k ∧ r.2.2.count = PIPESIZE.toNat ∧ (p.readopen = false ∨ killed = true)

lemma writeLoop_spec (hle : p.count ≤ PIPESIZE.toNat) :
    Wrote killed addr k i p (p.writeLoop killed addr k i) := by
  induction k generalizing i p with
  | zero =>
      exact ⟨le_rfl, by simp [writeLoop], hle, rfl, rfl, fun _ => rfl,
        fun h => absurd h (by simp [writeLoop]), fun h => absurd h (by simp [writeLoop])⟩
  | succ k ih =>
      rw [writeLoop]
      split
      · rename_i hfull
        split
        · rename_i hgone
          exact ⟨le_rfl, by simp, hle, rfl, rfl, fun h => absurd h (by simp),
            fun h => absurd h (by simp),
            fun _ => ⟨Nat.lt_add_of_pos_right k.succ_pos, full_iff.1 hfull, hgone⟩⟩
        · rename_i hopen
          refine ⟨le_rfl, by simp, hle, rfl, rfl, fun h => absurd h (by simp),
            fun _ => ⟨Nat.lt_add_of_pos_right k.succ_pos, full_iff.1 hfull, ?_⟩,
            fun h => absurd h (by simp)⟩
          simpa using fun h => hopen (.inl h)
      · rename_i hne
        obtain ⟨hcontent, hcount⟩ := put_spec hle hne (addr i)
        have h := ih (i := i + 1) hcount
        refine ⟨by have := h.le; omega, ?_, h.count, h.readopen, h.writeopen,
          fun hd => by rw [h.done hd]; omega, fun hb => ?_, fun hf => ?_⟩
        · have hlen := h.le
          rw [h.content, hcontent, List.append_assoc, List.singleton_append, ← List.map_cons,
            ← List.range'_succ]
          congr 3
          omega
        · obtain ⟨hbound, hfull, hopen⟩ := h.blocked hb
          exact ⟨by omega, hfull, hopen⟩
        · obtain ⟨hbound, hfull, hgone⟩ := h.failed hf
          exact ⟨by omega, hfull, hgone⟩

/-- What the loop of `piperead` leaves. -/
structure Read (k : ℕ) (p : Pipe) (r : List UInt8 × Pipe) : Prop where
  content : p.content = r.1 ++ r.2.content
  count : r.2.count ≤ p.count
  readopen : r.2.readopen = p.readopen
  writeopen : r.2.writeopen = p.writeopen
  none : r.1 = [] → r.2 = p ∧ (0 < k → p.nread = p.nwrite)

lemma readLoop_spec : Read k p (p.readLoop k) := by
  induction k generalizing p with
  | zero => exact ⟨rfl, le_rfl, rfl, rfl, fun _ => ⟨rfl, fun h => absurd h (by simp)⟩⟩
  | succ k ih =>
      rw [readLoop]
      split
      · rename_i hempty
        exact ⟨rfl, le_rfl, rfl, rfl, fun _ => ⟨rfl, fun _ => hempty⟩⟩
      · rename_i hne
        have h := ih (p := { p with nread := p.nread + 1 })
        refine ⟨?_, ?_, h.readopen, h.writeopen, fun hnil => absurd hnil (by simp)⟩
        · rw [Pipe.content, Ring.content_take pipesize_dvd hne, List.cons_append]
          exact congrArg _ h.content
        · refine h.count.trans ?_
          have htake := Ring.count_take hne
          show Ring.count (p.nread + 1) p.nwrite ≤ Ring.count p.nread p.nwrite
          omega

end Pipe

/-! ## What is written and read -/

variable {P : Type} [DecidableEq P] {es : List (PipeEvent P)} {s s' : PipeState P} {p q : P}
  {addr : ℕ → UInt8} {n : ℤ} {i : ℕ} {first : Bool} {e : PipeEvent P}

/-- The bytes that writers have stored, in this order. -/
def stored (es : List (PipeEvent P)) : List UInt8 := es.flatMap PipeEvent.stored

/-- The bytes that have been returned to readers, in the order they were taken. -/
def taken (es : List (PipeEvent P)) : List UInt8 := es.flatMap PipeEvent.taken

/-- The bytes that process `p` has stored in the call that it is in, or in its last one. -/
def storedInCall (p : P) (es : List (PipeEvent P)) : List UInt8 :=
  es.foldl (fun l e => if e.proc = p then (if e.first then [] else l) ++ e.stored else l) []

lemma storedInCall_snoc : storedInCall p (es ++ [e]) =
    if e.proc = p then (if e.first then [] else storedInCall p es) ++ e.stored
    else storedInCall p es := by
  simp [storedInCall]

/-- Process `q` sleeps on `&p->nread`. -/
def PipeState.SleepsToRead (s : PipeState P) (q : P) : Prop :=
  (s.proc q).asleep = true ∧ ∃ n, (s.proc q).call = some (.read n)

/-- Process `q` sleeps on `&p->nwrite`. -/
def PipeState.SleepsToWrite (s : PipeState P) (q : P) : Prop :=
  (s.proc q).asleep = true ∧ ∃ addr n i, (s.proc q).call = some (.write addr n i)

/-- What a stretch of process `p` does to the others: they stay in their calls, and none falls
asleep. -/
structure PipeOthers (s : PipeState P) (p : P) (s' : PipeState P) : Prop where
  call : ∀ q, q ≠ p → (s'.proc q).call = (s.proc q).call
  asleep : ∀ q, q ≠ p → (s'.proc q).asleep = true → (s.proc q).asleep = true
  readopen : s'.pipe.readopen = s.pipe.readopen
  writeopen : s'.pipe.writeopen = s.pipe.writeopen

/-- What a stretch of `pipewrite` does. -/
structure Writes (s : PipeState P) (p : P) (addr : ℕ → UInt8) (n : ℤ) (i : ℕ) (first : Bool)
    (s' : PipeState P) (e : PipeEvent P) : Prop extends PipeOthers s p s' where
  event : e.proc = p ∧ e.call = .write addr n i ∧ e.first = first ∧ e.taken = []
  content : s'.pipe.content = s.pipe.content ++ e.stored
  count : s'.pipe.count ≤ PIPESIZE.toNat
  ret : e.ret = some n → e.stored = (List.range' i (n.toNat - i)).map addr
  next : ∀ c, (s'.proc p).call = some c → (∃ j, c = .write addr n j ∧ i ≤ j ∧ j ≤ n.toNat ∧
    e.stored = (List.range' i (j - i)).map addr) ∧ s'.pipe.count = PIPESIZE.toNat ∧
    s'.pipe.readopen = true
  told : (0 < n ∧ e.ret = some (-1)) ∨ ∀ q, q ≠ p → ¬ s'.SleepsToRead q

/-- What a stretch of `piperead` does. -/
structure Reads (s : PipeState P) (p : P) (n : ℤ) (first : Bool) (s' : PipeState P)
    (e : PipeEvent P) : Prop extends PipeOthers s p s' where
  event : e.proc = p ∧ e.call = .read n ∧ e.first = first ∧ e.stored = []
  content : s.pipe.content = e.taken ++ s'.pipe.content
  count : s'.pipe.count ≤ s.pipe.count
  next : ∀ c, (s'.proc p).call = some c → c = .read n ∧ s'.pipe.nread = s'.pipe.nwrite ∧
    s'.pipe.writeopen = true
  ret : e.taken ≠ [] → e.ret = some e.taken.length
  zero : 0 < n → e.ret = some 0 → s'.pipe.nread = s'.pipe.nwrite ∧ s'.pipe.writeopen = false
  told : s'.pipe = s.pipe ∨ ∀ q, q ≠ p → ¬ s'.SleepsToWrite q

namespace PipeState

@[simp] lemma setProc_self (v : PipeProc) : (s.setProc p v).proc p = v := Function.update_self ..

lemma setProc_of_ne (v : PipeProc) (h : q ≠ p) : (s.setProc p v).proc q = s.proc q :=
  Function.update_of_ne h ..

omit [DecidableEq P] in
/-- Waking the readers, in one process. -/
lemma wakeReaders_spec (s : PipeState P) (q : P) :
    (s.wakeReaders.proc q).call = (s.proc q).call ∧
    ((s.wakeReaders.proc q).asleep = true → (s.proc q).asleep = true) ∧
    ¬ s.wakeReaders.SleepsToRead q := by
  simp only [wakeReaders, SleepsToRead]
  cases hc : (s.proc q).call with
  | none => simp [hc]
  | some c => cases c <;> simp [hc]

omit [DecidableEq P] in
lemma wakeWriters_spec (s : PipeState P) (q : P) :
    (s.wakeWriters.proc q).call = (s.proc q).call ∧
    ((s.wakeWriters.proc q).asleep = true → (s.proc q).asleep = true) ∧
    ¬ s.wakeWriters.SleepsToWrite q := by
  simp only [wakeWriters, SleepsToWrite]
  cases hc : (s.proc q).call with
  | none => simp [hc]
  | some c => cases c <;> simp [hc]

end PipeState

lemma sleepsToRead_setProc {v : PipeProc} (h : q ≠ p) :
    (s.setProc p v).SleepsToRead q ↔ s.SleepsToRead q := by
  rw [PipeState.SleepsToRead, PipeState.setProc_of_ne v h, PipeState.SleepsToRead]

lemma sleepsToWrite_setProc {v : PipeProc} (h : q ≠ p) :
    (s.setProc p v).SleepsToWrite q ↔ s.SleepsToWrite q := by
  rw [PipeState.SleepsToWrite, PipeState.setProc_of_ne v h, PipeState.SleepsToWrite]

lemma pipewrite_writes (hcount : s.pipe.count ≤ PIPESIZE.toNat) :
    Writes s p addr n i first (s.pipewrite p addr n i first).1
      (s.pipewrite p addr n i first).2 := by
  have hw : Pipe.Wrote (s.proc p).killed addr (n.toNat - i) i s.pipe _ := Pipe.writeLoop_spec hcount
  have hfail : (s.pipe.writeLoop (s.proc p).killed addr (n.toNat - i) i).1 = .failed → 0 < n := by
    intro hf
    by_contra hn
    rw [show n.toNat - i = 0 by omega] at hf
    exact absurd hf (by simp [Pipe.writeLoop])
  rw [PipeState.pipewrite]
  generalize s.pipe.writeLoop (s.proc p).killed addr (n.toNat - i) i = r at hw hfail ⊢
  obtain ⟨fate, j, t⟩ := r
  obtain ⟨hle, hcontent, hfull, hread, hwrite, hdone, hblocked, -⟩ := hw
  dsimp only at hle hcontent hfull hread hwrite hdone hblocked hfail ⊢
  -- the readers are told unless the call fails
  have hothers : ∀ v, PipeOthers s p (({ s with pipe := t } : PipeState P).wakeReaders.setProc
    p v) := fun v =>
    ⟨fun q hq => by rw [PipeState.setProc_of_ne v hq, (PipeState.wakeReaders_spec _ q).1],
      fun q hq h => (PipeState.wakeReaders_spec _ q).2.1
      (by rwa [PipeState.setProc_of_ne v hq] at h),
      hread, hwrite⟩
  have htold : ∀ v q, q ≠ p →
      ¬ (({ s with pipe := t } : PipeState P).wakeReaders.setProc p v).SleepsToRead q :=
      fun v q hq => by
    rw [sleepsToRead_setProc hq]
    exact (PipeState.wakeReaders_spec _ q).2.2
  cases fate with
  | done =>
      refine ⟨hothers _, ⟨rfl, rfl, rfl, rfl⟩, hcontent, hfull, fun _ => ?_, fun c hc => ?_,
        .inr (htold _)⟩
      · rw [hdone rfl, Nat.add_sub_cancel_left]
      · rw [PipeState.setProc_self] at hc
        exact absurd hc (by simp)
  | failed =>
      refine ⟨⟨fun q hq => by rw [PipeState.setProc_of_ne _ hq],
        fun q hq h => by rwa [PipeState.setProc_of_ne _ hq] at h, hread, hwrite⟩,
        ⟨rfl, rfl, rfl, rfl⟩,
        hcontent, hfull, fun hret => ?_, fun c hc => ?_, .inl ⟨hfail rfl, rfl⟩⟩
      · have hn := Option.some.inj hret
        have := hfail rfl
        omega
      · rw [PipeState.setProc_self] at hc
        exact absurd hc (by simp)
  | blocked =>
      obtain ⟨hbound, hsize, hopen⟩ := hblocked rfl
      refine ⟨hothers _, ⟨rfl, rfl, rfl, rfl⟩, hcontent, hfull, fun hret => absurd hret (by simp),
        fun c hc => ?_, .inr (htold _)⟩
      rw [PipeState.setProc_self] at hc
      obtain rfl := Option.some.inj hc
      exact ⟨⟨j, rfl, hle, by omega, rfl⟩, hsize, hread.trans hopen⟩

lemma piperead_reads (s : PipeState P) (p : P) (n : ℤ) (first : Bool) :
    Reads s p n first (s.piperead p n first).1 (s.piperead p n first).2 := by
  rw [PipeState.piperead]
  -- as long as the pipe is empty nothing happens to it
  have hothers : ∀ v, PipeOthers s p (s.setProc p v) := fun v =>
    ⟨fun q hq => by rw [PipeState.setProc_of_ne v hq],
      fun q hq h => by rwa [PipeState.setProc_of_ne v hq] at h, rfl, rfl⟩
  split
  · rename_i hempty
    split
    · refine ⟨hothers _, ⟨rfl, rfl, rfl, rfl⟩, rfl, le_rfl, fun c hc => ?_, fun h => absurd rfl h,
        fun _ h => absurd h (by simp), .inl rfl⟩
      rw [PipeState.setProc_self] at hc
      exact absurd hc (by simp)
    · refine ⟨hothers _, ⟨rfl, rfl, rfl, rfl⟩, rfl, le_rfl, fun c hc => ?_, fun h => absurd rfl h,
        fun _ h => absurd h (by simp), .inl rfl⟩
      rw [PipeState.setProc_self] at hc
      exact ⟨(Option.some.inj hc).symm, hempty⟩
  · rename_i hempty
    obtain ⟨hcontent, hcount, hread, hwrite, hnone⟩ :=
      Pipe.readLoop_spec (k := n.toNat) (p := s.pipe)
    generalize s.pipe.readLoop n.toNat = r at hcontent hcount hread hwrite hnone ⊢
    obtain ⟨bytes, t⟩ := r
    dsimp only at hcontent hcount hread hwrite hnone ⊢
    refine ⟨⟨fun q hq => ?_, fun q hq h => ?_, hread, hwrite⟩, ⟨rfl, rfl, rfl, rfl⟩,
      hcontent, hcount,
      fun c hc => ?_, fun _ => rfl, fun hn hret => ?_, .inr fun q hq => ?_⟩
    · rw [PipeState.setProc_of_ne _ hq, (PipeState.wakeWriters_spec _ q).1]
    · rw [PipeState.setProc_of_ne _ hq] at h
      exact (PipeState.wakeWriters_spec _ q).2.1 h
    · rw [PipeState.setProc_self] at hc
      exact absurd hc (by simp)
    · have hlen : bytes.length = 0 := by simpa using hret
      obtain ⟨rfl, heq⟩ := hnone (List.length_eq_zero_iff.1 hlen)
      have hsame := heq (by omega)
      refine ⟨hsame, ?_⟩
      rw [← Bool.not_eq_true]
      exact fun hopen => hempty ⟨hsame, hopen⟩
    · rw [sleepsToWrite_setProc hq]
      exact (PipeState.wakeWriters_spec _ q).2.2

/-- Closing an end or killing a process: the bytes stay, and so do the calls. -/
structure Aside (s s' : PipeState P) : Prop where
  content : s'.pipe.content = s.pipe.content
  count : s'.pipe.count = s.pipe.count
  call : ∀ q, (s'.proc q).call = (s.proc q).call
  asleep : ∀ q, (s'.proc q).asleep = true → (s.proc q).asleep = true
  readopen : s'.pipe.readopen = s.pipe.readopen ∨ ∀ q, ¬ s'.SleepsToWrite q
  writeopen : s'.pipe.writeopen = s.pipe.writeopen ∨ ∀ q, ¬ s'.SleepsToRead q

/-- What a step can be. -/
inductive PipeStepped (s : PipeState P) : PipeState P → Option (PipeEvent P) → Prop
  | write (p : P) (addr : ℕ → UInt8) (n : ℤ) (i : ℕ) (first : Bool) {s' : PipeState P}
    {e : PipeEvent P}
      (h : Writes s p addr n i first s' e)
      (hfrom : if first then i = 0 else (s.proc p).call = some (.write addr n i)) :
      PipeStepped s s' (some e)
  | read (p : P) (n : ℤ) (first : Bool) {s' : PipeState P} {e : PipeEvent P}
      (h : Reads s p n first s' e) : PipeStepped s s' (some e)
  | aside {s' : PipeState P} (h : Aside s s') : PipeStepped s s' none

omit [DecidableEq P] in
lemma pipeclose_aside (s : PipeState P) (writable : Bool) : Aside s (s.pipeclose writable) := by
  cases writable with
  | true =>
      exact ⟨rfl, rfl, fun q => (PipeState.wakeReaders_spec _ q).1,
        fun q => (PipeState.wakeReaders_spec _ q).2.1, .inl rfl,
        .inr fun q => (PipeState.wakeReaders_spec _ q).2.2⟩
  | false =>
      exact ⟨rfl, rfl, fun q => (PipeState.wakeWriters_spec _ q).1,
        fun q => (PipeState.wakeWriters_spec _ q).2.1,
        .inr fun q => (PipeState.wakeWriters_spec _ q).2.2, .inl rfl⟩

lemma pipe_stepped {l : PipeLabel P} {o : Option (PipeEvent P)}
    (hcount : s.pipe.count ≤ PIPESIZE.toNat) (h : s.step l = some (s', o)) :
    PipeStepped s s' o := by
  cases l with
  | write p addr n =>
      rw [PipeState.step] at h
      split at h
      · obtain ⟨rfl, rfl⟩ : (s.pipewrite p addr n 0 true).1 = s' ∧
          some (s.pipewrite p addr n 0 true).2 = o := by simpa using h
        exact .write p addr n 0 true (pipewrite_writes hcount) rfl
      · exact absurd h (by simp)
  | read p n =>
      rw [PipeState.step] at h
      split at h
      · obtain ⟨rfl, rfl⟩ : (s.piperead p n true).1 = s' ∧ some (s.piperead p n true).2 = o := by
          simpa using h
        exact .read p n true (piperead_reads s p n true)
      · exact absurd h (by simp)
  | resume p =>
      rw [PipeState.step] at h
      split at h
      · split at h
        · rename_i addr n i hcall
          obtain ⟨rfl, rfl⟩ : (s.pipewrite p addr n i false).1 = s' ∧
            some (s.pipewrite p addr n i false).2 = o := by simpa using h
          exact .write p addr n i false (pipewrite_writes hcount) hcall
        · rename_i n hcall
          obtain ⟨rfl, rfl⟩ : (s.piperead p n false).1 = s' ∧
            some (s.piperead p n false).2 = o := by
            simpa using h
          exact .read p n false (piperead_reads s p n false)
        · exact absurd h (by simp)
      · exact absurd h (by simp)
  | close writable =>
      obtain ⟨-, heq⟩ := Option.ite_none_right_eq_some.1 h
      obtain ⟨rfl, rfl⟩ := Prod.mk.inj (Option.some.inj heq)
      exact .aside (pipeclose_aside s writable)
  | kill p wake =>
      simp only [PipeState.step] at h
      obtain ⟨rfl, rfl⟩ := Prod.mk.inj (Option.some.inj h)
      refine .aside ⟨rfl, rfl, fun q => ?_, fun q hq => ?_, .inl rfl, .inl rfl⟩
      · by_cases hqp : q = p
        · rw [hqp, PipeState.setProc_self]
        · rw [PipeState.setProc_of_ne _ hqp]
      · by_cases hqp : q = p
        · rw [hqp, PipeState.setProc_self] at hq
          rw [hqp]
          exact (Bool.and_eq_true_iff.1 hq).1
        · rwa [PipeState.setProc_of_ne _ hqp] at hq

/-! ## Lossless streams -/

/-- A `pipewrite` that returns `n` has stored its `n` bytes in order. -/
def WritesAll (es : List (PipeEvent P)) : Prop :=
  ∀ es₁ e es₂ addr n i, es = es₁ ++ e :: es₂ → e.call = .write addr n i → e.ret = some n →
    storedInCall e.proc (es₁ ++ [e]) = (List.range n.toNat).map addr

/-- The invariant of all runs: what has been stored and not taken is in the pipe, and a call in
progress has stored its first bytes. -/
structure Lossless (es : List (PipeEvent P)) (s : PipeState P) : Prop where
  stream : stored es = taken es ++ s.pipe.content
  count : s.pipe.count ≤ PIPESIZE.toNat
  call : ∀ p addr n i, (s.proc p).call = some (.write addr n i) → i ≤ n.toNat ∧
    storedInCall p es = (List.range i).map addr
  all : WritesAll es
  ret : ∀ e ∈ es, e.taken ≠ [] → e.ret = some e.taken.length

lemma WritesAll.snoc (h : WritesAll es)
    (he : ∀ addr n i, e.call = .write addr n i → e.ret = some n →
      storedInCall e.proc (es ++ [e]) = (List.range n.toNat).map addr) : WritesAll (es ++ [e]) := by
  intro es₁ e' es₂ addr n i hsplit hcall hret
  rcases List.eq_nil_or_concat' es₂ with rfl | ⟨es₂, e'', rfl⟩
  · obtain ⟨rfl, hee⟩ := List.append_inj' hsplit rfl
    obtain rfl : e = e' := by simpa using hee
    exact he addr n i hcall hret
  · rw [← List.cons_append, ← List.append_assoc] at hsplit
    exact h es₁ e' es₂ addr n i (List.append_inj' hsplit rfl).1 hcall hret

lemma range_append_range' {i j : ℕ} (h : i ≤ j) :
    (List.range i).map addr ++ (List.range' i (j - i)).map addr = (List.range j).map addr := by
  rw [← List.map_append, List.range_eq_range', List.range_eq_range',
    show List.range' i (j - i) = List.range' (0 + i) (j - i) by rw [Nat.zero_add],
    List.range'_append_1, Nat.add_sub_cancel' h]

namespace Lossless

lemma start : Lossless [] (PipeState.start : PipeState P) := by
  have hcontent : (PipeState.start : PipeState P).pipe.content = [] := Ring.content_eq_nil.2 rfl
  have hcount : (PipeState.start : PipeState P).pipe.count = 0 := Ring.count_eq_zero.2 rfl
  refine ⟨by rw [hcontent]; rfl, by rw [hcount]; exact Nat.zero_le _,
    fun p addr n i hp => absurd hp (by simp [PipeState.start]), ?_, by simp⟩
  intro es₁ e es₂ _ _ _ hsplit
  exact absurd hsplit (by simp)

/-- The bytes of the call after a stretch of it. -/
lemma storedInCall_writes (h : Lossless es s) (hw : Writes s p addr n i first s' e)
    (hfrom : if first then i = 0 else (s.proc p).call = some (.write addr n i))
    {j : ℕ} (hij : i ≤ j) (hstored : e.stored = (List.range' i (j - i)).map addr) :
    storedInCall p (es ++ [e]) = (List.range j).map addr := by
  obtain ⟨hproc, -, hfirst, -⟩ := hw.event
  rw [storedInCall_snoc, if_pos hproc, hfirst, hstored]
  cases first with
  | true =>
      obtain rfl : i = 0 := hfrom
      exact range_append_range' (Nat.zero_le j)
  | false =>
      rw [if_neg (by decide), (h.call p addr n i hfrom).2]
      exact range_append_range' hij

lemma write (h : Lossless es s) (hw : Writes s p addr n i first s' e)
    (hfrom : if first then i = 0 else (s.proc p).call = some (.write addr n i)) :
    Lossless (es ++ [e]) s' := by
  obtain ⟨hproc, hcall, -, htaken⟩ := hw.event
  refine ⟨?_, hw.count, fun q addr' n' i' hq => ?_, h.all.snoc fun addr' n' i' hcall' hret => ?_,
    fun e' he' hne => ?_⟩
  · simp [stored, taken, htaken, hw.content, ← List.append_assoc]
    exact h.stream
  · by_cases hqp : q = p
    · subst hqp
      obtain ⟨⟨j, hc, hij, hjn, hstored⟩, -⟩ := hw.next _ hq
      obtain ⟨rfl, rfl, rfl⟩ : addr' = addr ∧ n' = n ∧ i' = j := by simpa using hc
      exact ⟨hjn, h.storedInCall_writes hw hfrom hij hstored⟩
    · rw [hw.call q hqp] at hq
      rw [storedInCall_snoc, if_neg (by rw [hproc]; exact fun heq => hqp heq.symm)]
      exact h.call q addr' n' i' hq
  · obtain ⟨rfl, rfl, rfl⟩ : addr = addr' ∧ n = n' ∧ i = i' := by
      simpa using hcall.symm.trans hcall'
    have hin : i ≤ n.toNat := by
      cases first with
      | true =>
          obtain rfl : i = 0 := hfrom
          exact Nat.zero_le _
      | false => exact (h.call p addr n i hfrom).1
    rw [hproc]
    exact h.storedInCall_writes hw hfrom hin (hw.ret hret)
  · rcases List.mem_append.1 he' with he' | he'
    · exact h.ret e' he' hne
    · obtain rfl : e' = e := by simpa using he'
      exact absurd htaken hne

lemma read (h : Lossless es s) (hr : Reads s p n first s' e) : Lossless (es ++ [e]) s' := by
  obtain ⟨hproc, hcall, -, hstored⟩ := hr.event
  refine ⟨?_, hr.count.trans h.count, fun q addr' n' i' hq => ?_,
    h.all.snoc fun addr' n' i' hcall' _ => absurd (hcall.symm.trans hcall') (by simp),
    fun e' he' hne => ?_⟩
  · have hstream := h.stream
    rw [hr.content] at hstream
    simpa [stored, taken, hstored] using hstream
  · by_cases hqp : q = p
    · rw [hqp] at hq
      exact absurd (hr.next _ hq).1 (by simp)
    · rw [hr.call q hqp] at hq
      rw [storedInCall_snoc, if_neg (by rw [hproc]; exact fun heq => hqp heq.symm)]
      exact h.call q addr' n' i' hq
  · rcases List.mem_append.1 he' with he' | he'
    · exact h.ret e' he' hne
    · obtain rfl : e' = e := by simpa using he'
      exact hr.ret hne

lemma step {o : Option (PipeEvent P)} (h : Lossless es s) (hs : PipeStepped s s' o) :
    Lossless (es ++ o.toList) s' := by
  cases hs with
  | write p addr n i first hw hfrom => exact h.write hw hfrom
  | read p n first hr => exact h.read hr
  | aside ha =>
      rw [Option.toList_none, List.append_nil]
      exact ⟨by rw [ha.content]; exact h.stream, by rw [ha.count]; exact h.count,
        fun p addr n i hp => h.call p addr n i (by rw [← ha.call]; exact hp), h.all, h.ret⟩

end Lossless

/-- The runs of a pipe, all of whose steps satisfy `ok`. -/
abbrev PipeRun (ok : PipeState P → PipeLabel P → Prop) : List (PipeEvent P) → PipeState P → Prop :=
  Run PipeState.step ok .start []

lemma PipeRun.lossless {ok : PipeState P → PipeLabel P → Prop} (h : PipeRun ok es s) :
    Lossless es s :=
  h.invariant .start fun hI _ hs => hI.step (pipe_stepped hI.count hs)

/-- What readers get is the first part of what writers have stored, in order; the pipe never holds
more than `PIPESIZE` bytes; `piperead` returns how many bytes it took, and nothing only at the end
of the stream; and a `pipewrite` that returns `n` has stored its `n` bytes. -/
theorem pipe_lossless (h : PipeRun (fun _ _ => True) es s) :
    taken es <+: stored es ∧ (s.pipe.nwrite - s.pipe.nread).toNat ≤ PIPESIZE.toNat ∧
    (∀ e ∈ es, e.taken ≠ [] → e.ret = some e.taken.length) ∧ WritesAll es ∧
    ∀ l s' e n, s.step l = some (s', some e) → e.call = .read n → 0 < n → e.ret = some 0 →
      s'.pipe.nread = s'.pipe.nwrite ∧ s'.pipe.writeopen = false := by
  have hI := h.lossless
  refine ⟨⟨_, hI.stream.symm⟩, hI.count, hI.ret, hI.all, fun l s' e n hs hcall hn hret => ?_⟩
  cases pipe_stepped hI.count hs with
  | write p addr n' i first hw hfrom => exact absurd (hw.event.2.1.symm.trans hcall) (by simp)
  | read p n' first hr =>
      obtain rfl : n' = n := by simpa using hr.event.2.1.symm.trans hcall
      exact hr.zero hn hret

theorem pipe_lossless_one_byte : ∃ es s, PipeRun (P := Bool) (fun _ _ => True) es s ∧
    taken es = [7] ∧ taken es <+: stored es := by
  have hrun : PipeRun (P := Bool) (fun _ _ => True) _ _ :=
    .step (l := .read false 4) (.step (l := .write true (fun _ => 7) 1) .start trivial rfl) trivial
      rfl
  exact ⟨_, _, hrun, rfl, (pipe_lossless hrun).1⟩

/-! ## Sleepers -/

/-- Whoever sleeps has a reason to. -/
structure Reasons (s : PipeState P) : Prop where
  read : ∀ p, s.SleepsToRead p → s.pipe.nread = s.pipe.nwrite ∧ s.pipe.writeopen = true
  write : ∀ p, s.SleepsToWrite p →
    s.pipe.nwrite = s.pipe.nread + PIPESIZE ∧ s.pipe.readopen = true

/-- A `pipewrite` of process `p` that has the bytes from `i` to `n` to store will give up after some
of them: the process has been killed or nobody can read, and there is room in the pipe, but not for
all. -/
def PipeState.GivesUp (s : PipeState P) (p : P) (n : ℤ) (i : ℕ) : Prop :=
  (s.pipe.readopen = false ∨ (s.proc p).killed = true) ∧ s.pipe.count < PIPESIZE.toNat ∧
    PIPESIZE.toNat - s.pipe.count < n.toNat - i

/-- No `pipewrite` that will give up after it has stored some bytes is called or goes on while a
process sleeps on `&p->nread`. -/
def Tells (s : PipeState P) : PipeLabel P → Prop
  | .write p _ n => s.GivesUp p n 0 → ∀ q, ¬ s.SleepsToRead q
  | .resume p => ∀ addr n i, (s.proc p).call = some (.write addr n i) → s.GivesUp p n i →
      ∀ q, ¬ s.SleepsToRead q
  | _ => True

/-- A `pipewrite` that returns -1 and has stored bytes is one that was going to give up. -/
lemma pipewrite_givesUp (hcount : s.pipe.count ≤ PIPESIZE.toNat)
    (hret : (s.pipewrite p addr n i first).2.ret = some (-1))
    (hstored : (s.pipewrite p addr n i first).2.stored ≠ []) : s.GivesUp p n i := by
  have hw : Pipe.Wrote (s.proc p).killed addr (n.toNat - i) i s.pipe _ := Pipe.writeLoop_spec hcount
  rw [PipeState.pipewrite] at hret hstored
  generalize s.pipe.writeLoop (s.proc p).killed addr (n.toNat - i) i = r at hw hret hstored
  obtain ⟨fate, j, t⟩ := r
  have hlen := congrArg List.length hw.content
  rw [List.length_append, Pipe.length_content, Pipe.length_content, List.length_map,
    List.length_range'] at hlen
  cases fate with
  | done =>
      -- only a call with `n = -1` returns that, and it stores nothing
      obtain rfl : n = -1 := by simpa using hret
      have hj : j = i + ((-1 : ℤ).toNat - i) := hw.done rfl
      exact absurd (by simp [hj]) hstored
  | blocked => exact absurd hret (by simp)
  | failed =>
      obtain ⟨hlt, hfull, hgone⟩ := hw.failed rfl
      have hpos : j - i ≠ 0 := fun hzero => hstored (by simp [hzero])
      dsimp only at hlen hlt hfull
      exact ⟨hgone, by omega, by omega⟩

lemma Tells.told {l : PipeLabel P} (h : Tells s l) (hcount : s.pipe.count ≤ PIPESIZE.toNat)
    (hs : s.step l = some (s', some e)) (hret : e.ret = some (-1)) (hstored : e.stored ≠ []) :
    ∀ q, ¬ s.SleepsToRead q := by
  cases l with
  | write p addr n =>
      rw [PipeState.step] at hs
      split at hs
      · obtain ⟨-, rfl⟩ : (s.pipewrite p addr n 0 true).1 = s' ∧
          (s.pipewrite p addr n 0 true).2 = e := by simpa using hs
        exact h (pipewrite_givesUp hcount hret hstored)
      · exact absurd hs (by simp)
  | read p n =>
      rw [PipeState.step] at hs
      split at hs
      · obtain ⟨-, rfl⟩ : (s.piperead p n true).1 = s' ∧ (s.piperead p n true).2 = e := by
          simpa using hs
        exact absurd (piperead_reads s p n true).event.2.2.2 hstored
      · exact absurd hs (by simp)
  | resume p =>
      rw [PipeState.step] at hs
      split at hs
      · split at hs
        · rename_i addr n i hcall
          obtain ⟨-, rfl⟩ : (s.pipewrite p addr n i false).1 = s' ∧
            (s.pipewrite p addr n i false).2 = e := by simpa using hs
          exact h addr n i hcall (pipewrite_givesUp hcount hret hstored)
        · rename_i n hcall
          obtain ⟨-, rfl⟩ : (s.piperead p n false).1 = s' ∧ (s.piperead p n false).2 = e := by
            simpa using hs
          exact absurd (piperead_reads s p n false).event.2.2.2 hstored
        · exact absurd hs (by simp)
      · exact absurd hs (by simp)
  | close writable =>
      rw [PipeState.step] at hs
      split at hs <;> simp at hs
  | kill p wake => simp [PipeState.step] at hs

omit [DecidableEq P] in
lemma PipeOthers.sleepsToRead (o : PipeOthers s p s') (hq : q ≠ p) (h : s'.SleepsToRead q) :
    s.SleepsToRead q := by
  obtain ⟨hasleep, n, hcall⟩ := h
  exact ⟨o.asleep q hq hasleep, n, by rw [← o.call q hq]; exact hcall⟩

omit [DecidableEq P] in
lemma PipeOthers.sleepsToWrite (o : PipeOthers s p s') (hq : q ≠ p) (h : s'.SleepsToWrite q) :
    s.SleepsToWrite q := by
  obtain ⟨hasleep, addr, n, i, hcall⟩ := h
  exact ⟨o.asleep q hq hasleep, addr, n, i, by rw [← o.call q hq]; exact hcall⟩

namespace Reasons

omit [DecidableEq P] in
lemma start : Reasons (PipeState.start : PipeState P) :=
  ⟨fun p hp => absurd hp.1 (by simp [PipeState.start]),
    fun p hp => absurd hp.1 (by simp [PipeState.start])⟩

lemma write_step (h : Reasons s) (hw : Writes s p addr n i first s' e)
    (htold : e.ret = some (-1) → e.stored ≠ [] → ∀ q, ¬ s.SleepsToRead q) : Reasons s' := by
  refine ⟨fun q hq => ?_, fun q hq => ?_⟩
  · by_cases hqp : q = p
    · obtain ⟨-, m, hcall⟩ := hq
      rw [hqp] at hcall
      obtain ⟨⟨j, hc, -⟩, -⟩ := hw.next _ hcall
      exact absurd hc (by simp)
    · -- a reader still sleeps, so the call has failed, and it has stored nothing
      have hold := hw.sleepsToRead hqp hq
      have hret := hw.told.resolve_right fun hno => hno q hqp hq
      have hstored : e.stored = [] := by
        by_contra hne
        exact htold hret.2 hne q hold
      obtain ⟨hempty, hopen⟩ := h.read q hold
      refine ⟨?_, hw.writeopen.trans hopen⟩
      rw [Pipe.empty_iff, hw.content, hstored, List.append_nil]
      exact Pipe.empty_iff.1 hempty
  · by_cases hqp : q = p
    · obtain ⟨-, addr', n', i', hcall⟩ := hq
      rw [hqp] at hcall
      obtain ⟨-, hfull, hopen⟩ := hw.next _ hcall
      exact ⟨Pipe.full_iff.2 hfull, hopen⟩
    · obtain ⟨hfull, hopen⟩ := h.write q (hw.sleepsToWrite hqp hq)
      refine ⟨Pipe.full_iff.2 (le_antisymm hw.count ?_), hw.readopen.trans hopen⟩
      have hlen := congrArg List.length hw.content
      rw [List.length_append, Pipe.length_content, Pipe.length_content,
        Pipe.full_iff.1 hfull] at hlen
      omega

lemma read_step (h : Reasons s) (hr : Reads s p n first s' e) : Reasons s' := by
  refine ⟨fun q hq => ?_, fun q hq => ?_⟩
  · by_cases hqp : q = p
    · obtain ⟨-, m, hcall⟩ := hq
      rw [hqp] at hcall
      exact (hr.next _ hcall).2
    · obtain ⟨hempty, hopen⟩ := h.read q (hr.sleepsToRead hqp hq)
      refine ⟨?_, hr.writeopen.trans hopen⟩
      have hcontent := hr.content
      rw [Pipe.empty_iff.1 hempty] at hcontent
      exact Pipe.empty_iff.2 (List.append_eq_nil_iff.1 hcontent.symm).2
  · by_cases hqp : q = p
    · obtain ⟨-, addr', n', i', hcall⟩ := hq
      rw [hqp] at hcall
      exact absurd (hr.next _ hcall).1 (by simp)
    · have hsame := hr.told.resolve_right fun hno => hno q hqp hq
      rw [hsame]
      exact h.write q (hr.sleepsToWrite hqp hq)

omit [DecidableEq P] in
lemma aside (h : Reasons s) (ha : Aside s s') : Reasons s' := by
  refine ⟨fun q hq => ?_, fun q hq => ?_⟩
  · obtain ⟨hasleep, n, hcall⟩ := id hq
    obtain ⟨hempty, hopen⟩ := h.read q ⟨ha.asleep q hasleep, n, by rw [← ha.call]; exact hcall⟩
    refine ⟨?_, (ha.writeopen.resolve_right fun hno => hno q hq).trans hopen⟩
    rw [Pipe.empty_iff, ha.content]
    exact Pipe.empty_iff.1 hempty
  · obtain ⟨hasleep, addr, n, i, hcall⟩ := id hq
    obtain ⟨hfull, hopen⟩ := h.write q ⟨ha.asleep q hasleep, addr, n,
      i, by rw [← ha.call]; exact hcall⟩
    refine ⟨?_, (ha.readopen.resolve_right fun hno => hno q hq).trans hopen⟩
    rw [Pipe.full_iff, ha.count]
    exact Pipe.full_iff.1 hfull

lemma step {o : Option (PipeEvent P)} (h : Reasons s) (hs : PipeStepped s s' o)
    (htold : ∀ e, o = some e → e.ret = some (-1) → e.stored ≠ [] → ∀ q, ¬ s.SleepsToRead q) :
    Reasons s' := by
  cases hs with
  | write p addr n i first hw hfrom => exact h.write_step hw (htold _ rfl)
  | read p n first hr => exact h.read_step hr
  | aside ha => exact h.aside ha

end Reasons

/-- No sleeper of a pipe is forgotten as long as no `pipewrite` gives up after it has stored
something while a reader sleeps. -/
theorem pipe_sleepers_have_reason (h : PipeRun Tells es s) :
    (∀ p, s.SleepsToRead p → s.pipe.nread = s.pipe.nwrite ∧ s.pipe.writeopen = true) ∧
    ∀ p, s.SleepsToWrite p → s.pipe.nwrite = s.pipe.nread + PIPESIZE ∧ s.pipe.readopen = true := by
  have hI : Lossless es s ∧ Reasons s :=
    h.invariant (I := fun es s => Lossless es s ∧ Reasons s)
      ⟨Lossless.start, Reasons.start⟩ fun hI hl hs =>
        ⟨hI.1.step (pipe_stepped hI.1.count hs), hI.2.step (pipe_stepped hI.1.count hs)
          fun e he => hl.told hI.1.count (he ▸ hs)⟩
  exact ⟨hI.2.read, hI.2.write⟩

/-- A reader sleeps on an empty pipe with a writer. -/
theorem pipe_sleepers_have_reason_read : ∃ es s, PipeRun (P := Bool) Tells es s ∧
    s.SleepsToRead false ∧ s.pipe.nread = s.pipe.nwrite := by
  obtain ⟨es, s, hrun, hsleeps⟩ : ∃ es s, PipeRun (P := Bool) Tells es s ∧
    s.SleepsToRead false := by
    have htells : Tells (P := Bool) .start (.read false 1) := trivial
    exact ⟨_, _, .step .start htells rfl, rfl, 1, rfl⟩
  exact ⟨es, s, hrun, hsleeps, ((pipe_sleepers_have_reason hrun).1 false hsleeps).1⟩

/-- A reader sleeps; a writer that has been killed fills the pipe, finds it full and returns. -/
theorem pipewrite_forgets_reader : ∃ es s, PipeRun (P := Bool) (fun _ _ => True) es s ∧
    s.SleepsToRead false ∧ s.pipe.nread ≠ s.pipe.nwrite := by
  have hread : PipeRun (P := Bool) (fun _ _ => True) _ _ :=
    .step (l := .kill true true) (.step (l := .read false 1) .start trivial rfl) trivial rfl
  have hw : Writes _ true (fun _ => 7) 513 0 true _ _ := pipewrite_writes hread.lossless.count
  exact ⟨_, _, .step (l := .write true (fun _ => 7) 513) hread trivial rfl,
    ⟨by decide +kernel, 1, hw.call false (by decide)⟩, by decide +kernel⟩

end Xv6
