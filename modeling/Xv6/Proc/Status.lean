import Xv6.Proc.Step
import Xv6.Syscall

/-!
# The status pointers of `wait` and `waitpid` (`sysproc.c`)

`sys_wait` and `sys_waitpid` fetch the arguments of the calls and ignore whether that
succeeds, so that a variable keeps what its stack slot held before.  The machine joins the
process table with the memory of the processes and of the kernel: a return of `wait` or
`waitpid` stores through the pointer that the call was made with, possibly long before.
-/

namespace Xv6

open Lib ProcState

/-- The pointer that `sys_wait` passes to `wait`; its variable holds `st₀` at first. -/
def sysWait (u : User) (st₀ : ℕ) : ℕ := (argptr u 0 8).getD st₀

/-- The arguments that `sys_waitpid` passes to `waitpid`; its variables hold `pid₀`, `st₀` and
`op₀` at first. -/
def sysWaitpid (u : User) (pid₀ : ℤ) (st₀ : ℕ) (op₀ : ℤ) : ℤ × ℕ × ℤ :=
  ((argint u 0).getD pid₀, (argptr u 0 8).getD st₀, (argint u 0).getD op₀)

/-! ## The machine -/

/-- The process table, what every process shows the system-call layer, and the memory of the
kernel. -/
structure Machine where
  table : PTable
  user : Slot → User
  kernel : Bytes (2 ^ 32)

/-- The steps of the machine: a process runs outside of the kernel, calls `wait` or `waitpid`
with what the variables of the system call happen to hold, or any other step of the table. -/
inductive MStep
  | user (i : Slot) (u : User)
  | wait (i : Slot) (st₀ : ℕ)
  | waitpid (i : Slot) (pid₀ : ℤ) (st₀ : ℕ) (op₀ : ℤ)
  | other (l : Step)

/-- Store an `int` in the memory of a process. -/
def User.put (u : User) (st : ℕ) (v : ℤ) : User := { u with mem := u.mem.setInt st v }

/-- A return of `wait` or `waitpid`: the caller, the pointer and what is stored through it. -/
def Event.delivery : Event → Option (Slot × ℕ × Option ℤ)
  | .waitReturned i st _ stored => some (i, st, stored)
  | .waitpidReturned i _ st _ stored => some (i, st, stored)
  | _ => none

namespace Machine

/-- `*st = v` in the address space of a process: its own pages below the kernel's part, and the
kernel's memory above; elsewhere the kernel traps. -/
def put (m : Machine) (i : Slot) (st : ℕ) (v : ℤ) : Option Machine :=
  if st + 4 ≤ PGROUNDUP (m.user i).sz then
    some { m with user := Function.update m.user i ((m.user i).put st v) }
  else if KERNBASE ≤ st then some { m with kernel := m.kernel.setInt st v }
  else none

/-- What a step of the table stores in memory. -/
def deliver (m : Machine) (e : Option Event) : Option Machine :=
  match e.bind Event.delivery with
  | some (i, st, some v) => m.put i st v
  | _ => some m

/-- A step of the table, with what it stores. -/
def tableStep (m : Machine) (l : Step) : Option (Machine × Option Event) :=
  match Xv6.step m.table l with
  | none => none
  | some (t, e) => (m.deliver e).map fun m' => ({ m' with table := t }, e)

/-- One step of the machine. -/
def step (m : Machine) : MStep → Option (Machine × Option Event)
  | .user i u =>
      if m.table.Free i then some ({ m with user := Function.update m.user i u }, none) else none
  | .wait i st₀ => m.tableStep (.wait i (sysWait (m.user i) st₀))
  | .waitpid i pid₀ st₀ op₀ =>
      let a := sysWaitpid (m.user i) pid₀ st₀ op₀
      m.tableStep (.waitpid i a.1 a.2.1 a.2.2)
  | .other l =>
      match l with
      | .wait _ _ => none
      | .waitpid _ _ _ _ => none
      | _ => m.tableStep l

/-- The machine after boot, with any memory. -/
def boot (user : Slot → User) (kernel : Bytes (2 ^ 32)) : Machine := ⟨userinit, user, kernel⟩

/-- The runs of the machine, all of whose steps satisfy `ok`. -/
abbrev Runs (user : Slot → User) (kernel : Bytes (2 ^ 32)) (ok : Machine → MStep → Prop) :
    List Event → Machine → Prop :=
  Run Machine.step ok (boot user kernel) [.allocated initproc 1]

/-- The call is one for which the system-call layer finds the arguments: the eight bytes at the
pointer lie inside of the process, and the three arguments of `waitpid` are one and the same
word. -/
def Proper (m : Machine) : MStep → Prop
  | .wait i _ => (m.user i).HasArg 0 ∧ (m.user i).arg 0 + 8 ≤ (m.user i).sz
  | .waitpid i _ _ _ =>
      ((m.user i).HasArg 0 ∧ (m.user i).arg 0 + 8 ≤ (m.user i).sz) ∧
        (m.user i).arg 1 = (m.user i).arg 0 ∧ (m.user i).arg 2 = (m.user i).arg 0
  | _ => True

instance (m : Machine) (l : MStep) : Decidable (m.Proper l) := by
  cases l <;> unfold Proper <;> infer_instance

end Machine

/-! ## The words that are passed on -/

section

variable {u : User}

lemma sysWait_eq (h : u.HasArg 0) (hin : u.arg 0 + 8 ≤ u.sz) (st₀ : ℕ) :
    sysWait u st₀ = u.arg 0 := by
  rw [sysWait, argptr_of_inside h (by norm_num) (by omega), Option.getD_some]

/-- A pointer that is the argument whatever the variable held before has passed `argptr`. -/
lemma inside_of_sysWait (h : ∀ st₀, sysWait u st₀ = u.arg 0) :
    u.HasArg 0 ∧ u.arg 0 + 8 ≤ u.sz := by
  cases hp : argptr u 0 8 with
  | none =>
      have hsucc := h (u.arg 0 + 1)
      rw [sysWait, hp, Option.getD_none] at hsucc
      omega
  | some p =>
      obtain ⟨rfl, -, hin⟩ := argptr_inside hp (by norm_num)
      have := hin (by norm_num)
      exact ⟨argptr_hasArg hp, by omega⟩

lemma sysWaitpid_eq (h : u.HasArg 0) (hin : u.arg 0 + 8 ≤ u.sz) (h1 : u.arg 1 = u.arg 0)
    (h2 : u.arg 2 = u.arg 0) (pid₀ : ℤ) (st₀ : ℕ) (op₀ : ℤ) :
    sysWaitpid u pid₀ st₀ op₀ = (u.argSigned 0, u.arg 1, u.argSigned 2) := by
  have hop : u.argSigned 2 = u.argSigned 0 := by
    rw [User.argSigned_eq, User.argSigned_eq, h2]
  rw [sysWaitpid, argptr_of_inside h (by norm_num) (by omega), argint_eq, if_pos h, h1, hop,
    Option.getD_some, Option.getD_some, Option.getD_some]

/-- All three are fetched from position 0. -/
lemma same_of_sysWaitpid (h : ∀ pid₀ st₀ op₀,
      sysWaitpid u pid₀ st₀ op₀ = (u.argSigned 0, u.arg 1, u.argSigned 2)) :
    (u.HasArg 0 ∧ u.arg 0 + 8 ≤ u.sz) ∧ u.arg 1 = u.arg 0 ∧ u.arg 2 = u.arg 0 := by
  have hst : ∀ st₀, sysWait u st₀ = u.arg 1 :=
    fun st₀ => (Prod.mk.inj (Prod.mk.inj (h 0 st₀ 0)).2).1
  have hsome : argptr u 0 8 ≠ none := fun hnone => by
    have hsucc := hst (u.arg 1 + 1)
    rw [sysWait, hnone, Option.getD_none] at hsucc
    omega
  obtain ⟨p, hp⟩ := Option.ne_none_iff_exists'.1 hsome
  have h1 : u.arg 1 = u.arg 0 := by
    rw [← hst 0, sysWait, hp, Option.getD_some, (argptr_inside hp (by norm_num)).1]
  have hin := inside_of_sysWait fun st₀ => (hst st₀).trans h1
  refine ⟨hin, h1, ?_⟩
  have hop : u.argSigned 0 = u.argSigned 2 := by
    have hop₀ := (Prod.mk.inj (Prod.mk.inj (h 0 0 0)).2).2
    rwa [argint_eq, if_pos hin.1, Option.getD_some] at hop₀
  rw [← User.argSigned_emod (n := 2), ← hop, User.argSigned_emod]

/-- A process that is in `wait` or `waitpid` has called it with these arguments, and eight bytes
at the pointer are its own. -/
def User.Made (u : User) : Call → Prop
  | .wait st => st = u.arg 0 ∧ st + 8 ≤ u.sz
  | .waitpid pid st _ => (pid = u.argSigned 0 ∧ st = u.arg 1) ∧ st + 8 ≤ u.sz
  | _ => True

/-- The arguments that a return shows are those that the caller has on its stack. -/
def Event.Passed (u : Slot → User) : Event → Prop
  | .waitReturned i st _ _ => st = (u i).arg 0
  | .waitpidReturned i pid st _ _ => pid = (u i).argSigned 0 ∧ st = (u i).arg 1
  | _ => True

end

/-! ## Returns of the table -/

section Returns

variable {s t t' : PTable} {l : Step} {e : Option Event} {ev : Event} {i : Slot} {st : ℕ}
  {pid : ℤ} {stored : Option ℤ} {u : Slot → User}

lemma Waited.call (h : Waited s i st t' e) (j : Slot) :
    t'.call j = s.call j ∨ j = i ∧ t'.call j = .wait st := by
  cases h with
  | reap p h => exact Or.inl rfl
  | fail => exact Or.inl rfl
  | sleep h =>
      by_cases hj : j = i
      · exact Or.inr ⟨hj, by simp [sleepOn, hj]⟩
      · exact Or.inl (by simp [sleepOn, hj])

lemma Waitpided.call (h : Waitpided s i pid st t' e) (j : Slot) :
    t'.call j = s.call j ∨ j = i ∧ ∃ p, t'.call j = .waitpid pid st p := by
  cases h with
  | reap p hpid h => exact Or.inl rfl
  | stale p hpid h => exact Or.inl rfl
  | fail => exact Or.inl rfl
  | sleep p hpid hz hu =>
      by_cases hj : j = i
      · exact Or.inr ⟨hj, p, by simp [sleepOn, hj]⟩
      · exact Or.inl (by simp [sleepOn, hj])

/-- What a return of `wait` or `waitpid` has stored: nothing through a null pointer, and the exit
status of the process that it has reaped, if any. -/
structure Returned (t t' : PTable) (i : Slot) (st : ℕ) (stored : Option ℤ) : Prop where
  idle : t'.call i = .none
  null : st = 0 → stored = none
  reaped : ∀ p, (t.proc p).state = ZOMBIE → (t'.proc p).state = UNUSED →
    stored = store st (t.proc p).est

lemma store_zero {v : ℤ} (h : st = 0) : store st v = none := if_pos h

lemma reap_reaped {p q : Slot} (hz : (s.proc q).state = ZOMBIE)
    (hu : ((reap p s).proc q).state = UNUSED) : q = p := by
  by_contra hne
  simp [reap, hne, hz] at hu

lemma Waited.returned (h : Waited s i st t' (some ev)) (hidle : s.call i = .none) :
    (∃ ret stored, ev = .waitReturned i st ret stored) ∧
      ∀ stored, ev.delivery = some (i, st, stored) → Returned s t' i st stored := by
  cases h with
  | reap p h =>
      refine ⟨⟨_, _, rfl⟩, ?_⟩
      rintro stored ⟨⟩
      refine ⟨hidle, store_zero, ?_⟩
      intro q hz hu
      rw [reap_reaped hz hu]
  | fail =>
      refine ⟨⟨_, _, rfl⟩, ?_⟩
      rintro stored ⟨⟩
      refine ⟨hidle, store_zero, ?_⟩
      intro q hz hu
      exact absurd (hz.symm.trans hu) (by decide)

lemma Waitpided.returned (h : Waitpided s i pid st t' (some ev)) (hidle : s.call i = .none) :
    (∃ ret stored, ev = .waitpidReturned i pid st ret stored) ∧
      ∀ stored, ev.delivery = some (i, st, stored) → Returned s t' i st stored := by
  cases h with
  | reap p hpid h =>
      refine ⟨⟨_, _, rfl⟩, ?_⟩
      rintro stored ⟨⟩
      refine ⟨hidle, store_zero, ?_⟩
      intro q hz hu
      rw [reap_reaped hz hu]
  | stale p hpid h =>
      refine ⟨⟨_, _, rfl⟩, ?_⟩
      rintro stored ⟨⟩
      refine ⟨hidle, store_zero, ?_⟩
      intro q hz hu
      exact absurd (hz.symm.trans hu) (by decide)
  | fail =>
      refine ⟨⟨_, _, rfl⟩, ?_⟩
      rintro stored ⟨⟩
      refine ⟨hidle, store_zero, ?_⟩
      intro q hz hu
      exact absurd (hz.symm.trans hu) (by decide)

lemma Returned.of_wakeFrom (hs : (t.proc i).state = RUNNABLE)
    (h : Returned (wakeFrom i t) t' i st stored) : Returned t t' i st stored := by
  refine ⟨h.idle, h.null, ?_⟩
  intro p hz hu
  have hne : p ≠ i := by
    rintro rfl
    exact absurd (hs.symm.trans hz) (by decide)
  have hp : (wakeFrom i t).proc p = t.proc p := by rw [wakeFrom_proc, if_neg hne]
  rw [← hp] at hz ⊢
  exact h.reaped p hz hu

lemma made_ite {j k : Slot} {c c' : Call} (hc : (u j).Made c) (hc' : (u j).Made c') :
    (u j).Made (if j = k then c else c') := by
  split
  · exact hc
  · exact hc'

lemma made_wakeFrom (hmade : ∀ j, (u j).Made (t.call j)) (j : Slot) :
    (u j).Made ((wakeFrom i t).call j) := by
  rw [wakeFrom_call]
  exact made_ite trivial (hmade j)

lemma Waited.made (h : Waited s i st t' e) (hw : (u i).Made (.wait st))
    (hmade : ∀ j, (u j).Made (s.call j)) (j : Slot) : (u j).Made (t'.call j) := by
  rcases h.call j with hj | ⟨rfl, hj⟩
  · rw [hj]
    exact hmade j
  · rw [hj]
    exact hw

lemma Waitpided.made (h : Waitpided s i pid st t' e) (p : Slot)
    (hw : (u i).Made (.waitpid pid st p)) (hmade : ∀ j, (u j).Made (s.call j)) (j : Slot) :
    (u j).Made (t'.call j) := by
  rcases h.call j with hj | ⟨rfl, q, hj⟩
  · rw [hj]
    exact hmade j
  · rw [hj]
    exact hw

/-- The arguments of a call that begins are as they were made. -/
def User.Begins (u : Slot → User) : Step → Prop
  | .wait i st => (u i).Made (.wait st)
  | .waitpid i pid st _ => (u i).Made (.waitpid pid st i)
  | _ => True

/-- A process stays in the call that it has made. -/
lemma step_made (h : Xv6.step t l = some (t', e)) (hl : User.Begins u l)
    (hmade : ∀ j, (u j).Made (t.call j)) (j : Slot) : (u j).Made (t'.call j) := by
  cases step_stepped h with
  | run i hs hc => exact hmade j
  | resume i hs hc => exact made_wakeFrom hmade j
  | resumeWait i st hs hc h =>
      have hi := hmade i
      rw [hc] at hi
      exact h.made hi (made_wakeFrom hmade) j
  | resumeWaitpid i pid st p hs hc h =>
      have hi := hmade i
      rw [hc] at hi
      exact h.made p hi (made_wakeFrom hmade) j
  | yield i hs hc => exact hmade j
  | sleep i chan hi =>
      simp only [sleepOn, PTable.setCall_call]
      exact made_ite trivial (hmade j)
  | wakeup chan => exact hmade j
  | alloc i np hi hnp =>
      rw [PTable.setCall_call]
      exact made_ite trivial (hmade j)
  | allocFail i hi => exact hmade j
  | forkFail i np hs hc =>
      rw [PTable.setCall_call]
      exact made_ite trivial (hmade j)
  | forkLink i np hs hc =>
      rw [PTable.setCall_call]
      exact made_ite trivial (hmade j)
  | forkDone i np hs hc =>
      simp only [PTable.setCall_call]
      exact made_ite trivial (made_ite trivial (hmade j))
  | exit i st hi hne hx =>
      rw [hx.call]
      exact made_ite trivial (hmade j)
  | wait i st hi h => exact h.made hl hmade j
  | waitpid i pid st op hi h => exact h.made i hl hmade j
  | kill i pid p hi hp => exact hmade j
  | killFail i pid hi => exact hmade j
  | setprio i prio hi => exact hmade j
  | trap i hi => exact hmade j

/-- A return shows the arguments that the call was made with. -/
lemma step_returned (h : Xv6.step t l = some (t', some ev)) (hl : User.Begins u l)
    (hmade : ∀ j, (u j).Made (t.call j)) (hd : ev.delivery = some (i, st, stored)) :
    ev.Passed u ∧ st + 8 ≤ (u i).sz ∧ Returned t t' i st stored := by
  cases step_stepped h with
  | resumeWait k st' hs hc h =>
      obtain ⟨⟨ret, stored', rfl⟩, hret⟩ := h.returned (by simp)
      obtain ⟨rfl, rfl, rfl⟩ : k = i ∧ st' = st ∧ stored' = stored := by
        simpa [Event.delivery] using hd
      have hk := hmade k
      rw [hc] at hk
      exact ⟨hk.1, hk.2, (hret _ rfl).of_wakeFrom hs⟩
  | resumeWaitpid k pid st' p hs hc h =>
      obtain ⟨⟨ret, stored', rfl⟩, hret⟩ := h.returned (by simp)
      obtain ⟨rfl, rfl, rfl⟩ : k = i ∧ st' = st ∧ stored' = stored := by
        simpa [Event.delivery] using hd
      have hk := hmade k
      rw [hc] at hk
      exact ⟨hk.1, hk.2, (hret _ rfl).of_wakeFrom hs⟩
  | wait k st' hi h =>
      obtain ⟨⟨ret, stored', rfl⟩, hret⟩ := h.returned hi.2
      obtain ⟨rfl, rfl, rfl⟩ : k = i ∧ st' = st ∧ stored' = stored := by
        simpa [Event.delivery] using hd
      exact ⟨hl.1, hl.2, hret _ rfl⟩
  | waitpid k pid st' op hi h =>
      obtain ⟨⟨ret, stored', rfl⟩, hret⟩ := h.returned hi.2
      obtain ⟨rfl, rfl, rfl⟩ : k = i ∧ st' = st ∧ stored' = stored := by
        simpa [Event.delivery] using hd
      exact ⟨hl.1, hl.2, hret _ rfl⟩
  | _ => exact absurd hd (by simp [Event.delivery])

end Returns

/-! ## Stores of the machine -/

namespace Machine

variable {m m' : Machine} {i : Slot} {st : ℕ} {v : ℤ} {l : Step} {e : Option Event}

/-- What a step may store on behalf of `wait` and `waitpid`. -/
structure Stores (m m' : Machine) (e : Option Event) : Prop where
  /-- A return shows the words that its caller has put on the stack. -/
  passed : ∀ ev, e = some ev → ev.Passed m.user
  /-- The pointer is null, or the four bytes at it are the caller's. -/
  inside : ∀ ev i st stored, e = some ev → ev.delivery = some (i, st, stored) →
    st = 0 ∨ st + 4 ≤ (m.user i).sz
  /-- The status of a process that is reaped is in the four bytes at the pointer. -/
  status : ∀ ev i st stored p, e = some ev → ev.delivery = some (i, st, stored) →
    (m.table.proc p).state = ZOMBIE → (m'.table.proc p).state = UNUSED → st ≠ 0 →
    (m'.user i).mem.get32 st = ((m.table.proc p).est % 2 ^ 32).toNat
  /-- No other byte of any process changes. -/
  bytes : ∀ j a, (m'.user j).mem.byteAt a ≠ (m.user j).mem.byteAt a →
    ∃ ev st stored, e = some ev ∧ ev.delivery = some (j, st, stored) ∧ st ≠ 0 ∧
      st ≤ a ∧ a < st + 4
  /-- No byte of the kernel changes. -/
  kernel : m'.kernel = m.kernel

lemma sz_le_PGROUNDUP (u : User) : u.sz ≤ PGROUNDUP u.sz := by
  have hlow := u.low
  have hP := PGSIZE_eq
  rw [KERNBASE] at hlow
  rw [PGROUNDUP, hP]
  omega

/-- A store inside of the process changes its memory alone. -/
lemma put_inside (h : st + 4 ≤ (m.user i).sz) :
    m.put i st v = some { m with user := Function.update m.user i ((m.user i).put st v) } :=
  if_pos (h.trans (sz_le_PGROUNDUP _))

/-- All calls of `wait` and `waitpid` are as they were made. -/
def Made (m : Machine) : Prop := ∀ j, (m.user j).Made (m.table.call j)

/-- A step that delivers nothing leaves all memory alone. -/
lemma deliver_none (h : ∀ i st v, e.bind Event.delivery ≠ some (i, st, some v)) :
    m.deliver e = some m := by
  unfold deliver
  split
  · rename_i i st v he
    exact absurd he (h i st v)
  · rfl

lemma deliver_some (h : e.bind Event.delivery = some (i, st, some v)) :
    m.deliver e = m.put i st v := by
  unfold deliver
  rw [h]

lemma tableStep_inv (h : m.tableStep l = some (m', e)) :
    ∃ t m₁, Xv6.step m.table l = some (t, e) ∧ m.deliver e = some m₁ ∧
      m' = { m₁ with table := t } := by
  unfold tableStep at h
  split at h
  · exact absurd h (by simp)
  · rename_i t e' ht
    obtain ⟨m₁, hm₁, heq⟩ := Option.map_eq_some_iff.1 h
    obtain ⟨rfl, rfl⟩ := Prod.mk.inj heq
    exact ⟨t, m₁, ht, hm₁, rfl⟩

lemma passed_of_delivery_none {ev : Event} {u : Slot → User} (h : ev.delivery = none) :
    ev.Passed u := by
  cases ev with
  | waitReturned => exact absurd h (by simp [Event.delivery])
  | waitpidReturned => exact absurd h (by simp [Event.delivery])
  | _ => trivial

lemma eq_of_store {w : ℤ} (h : some v = store st w) : v = w := by
  unfold store at h
  split at h
  · exact absurd h (by simp)
  · exact Option.some.inj h

/-- A step of the table with the arguments that the caller has on its stack stores the status
and nothing else, and leaves all calls as they were made. -/
lemma tableStep_stores (hm : m.Made) (hl : User.Begins m.user l)
    (h : m.tableStep l = some (m', e)) : m.Stores m' e ∧ m'.Made := by
  obtain ⟨t, m₁, ht, hm₁, rfl⟩ := tableStep_inv h
  have hmade := step_made ht hl hm
  have hpassed : ∀ ev, e = some ev → ev.Passed m.user := by
    rintro ev rfl
    cases hd : ev.delivery with
    | none => exact passed_of_delivery_none hd
    | some r => exact (step_returned ht hl hm hd).1
  have hinside : ∀ ev i st stored, e = some ev → ev.delivery = some (i, st, stored) →
      st = 0 ∨ st + 4 ≤ (m.user i).sz := by
    rintro ev i st stored rfl hd
    have := (step_returned ht hl hm hd).2.1
    exact Or.inr (by omega)
  by_cases hv : ∃ i st v, e.bind Event.delivery = some (i, st, some v)
  · obtain ⟨i, st, v, hv⟩ := hv
    obtain ⟨ev, rfl, hd⟩ := Option.bind_eq_some_iff.1 hv
    obtain ⟨-, hsz, hret⟩ := step_returned ht hl hm hd
    have hst : st ≠ 0 := fun h0 => absurd (hret.null h0) (by simp)
    obtain rfl := Option.some.inj ((deliver_some hv).symm.trans hm₁ |>.symm.trans
      (put_inside (by omega)))
    refine ⟨⟨hpassed, hinside, ?_, ?_, rfl⟩, ?_⟩
    · rintro ev' i' st' stored p ⟨⟩ hd' hz hu -
      obtain ⟨rfl, rfl, rfl⟩ : i = i' ∧ st = st' ∧ some v = stored := by
        simpa [hd] using hd'
      obtain rfl := eq_of_store (hret.reaped p hz hu)
      have hlow := (m.user i).low
      rw [KERNBASE] at hlow
      simp only [Function.update_self, User.put, Bytes.setInt]
      rw [Bytes.get32_set32_self (by omega)]
      omega
    · intro j a hne
      by_cases hj : j = i
      · subst hj
        refine ⟨ev, st, some v, rfl, hd, hst, ?_⟩
        by_contra hout
        apply hne
        simp only [Function.update_self, User.put, Bytes.setInt]
        exact Bytes.byteAt_set32_of_disj (by omega)
      · exact absurd (by simp [Function.update_of_ne hj]) hne
    · intro j
      by_cases hj : j = i
      · subst hj
        change ((Function.update m.user j _) j).Made (t.call j)
        rw [hret.idle]
        trivial
      · change ((Function.update m.user i _) j).Made (t.call j)
        rw [Function.update_of_ne hj]
        exact hmade j
  · have hnone : ∀ i st v, e.bind Event.delivery ≠ some (i, st, some v) := by
      simpa using hv
    obtain rfl := Option.some.inj ((deliver_none hnone).symm.trans hm₁)
    refine ⟨⟨hpassed, hinside, ?_, fun j a hne => absurd rfl hne, rfl⟩, hmade⟩
    rintro ev i st stored p rfl hd hz hu hst
    have hret := (step_returned ht hl hm hd).2.2.reaped p hz hu
    rw [store, if_neg hst] at hret
    exact absurd (hret ▸ hd) (hnone i st _)

/-- The kernel function that a step calls gets the words that the process has put on its stack,
whatever the variables of the system call held before. -/
def Passes (m : Machine) : MStep → Prop
  | .wait i _ => ∀ st₀, sysWait (m.user i) st₀ = (m.user i).arg 0
  | .waitpid i _ _ _ => ∀ pid₀ st₀ op₀, sysWaitpid (m.user i) pid₀ st₀ op₀ =
      ((m.user i).argSigned 0, (m.user i).arg 1, (m.user i).argSigned 2)
  | _ => True

lemma passes_iff {l : MStep} : m.Passes l ↔ m.Proper l := by
  cases l with
  | wait i st₀ => exact ⟨inside_of_sysWait, fun h => sysWait_eq h.1 h.2⟩
  | waitpid i pid₀ st₀ op₀ =>
      exact ⟨same_of_sysWaitpid, fun h => sysWaitpid_eq h.1.1 h.1.2 h.2.1 h.2.2⟩
  | user i u => exact Iff.rfl
  | other l => exact Iff.rfl

/-- A step of the machine in which no process runs on its own is a step of the table with the
arguments that the caller has on its stack. -/
lemma step_tableStep {l : MStep} (hl : m.Proper l) (hs : m.step l = some (m', e)) :
    (∃ i u, l = .user i u) ∨ ∃ l', User.Begins m.user l' ∧ m.tableStep l' = some (m', e) := by
  cases l with
  | user i u => exact Or.inl ⟨i, u, rfl⟩
  | wait i st₀ =>
      simp only [step] at hs
      rw [sysWait_eq hl.1 hl.2] at hs
      refine Or.inr ⟨_, ?_, hs⟩
      exact ⟨rfl, hl.2⟩
  | waitpid i pid₀ st₀ op₀ =>
      simp only [step] at hs
      rw [sysWaitpid_eq hl.1.1 hl.1.2 hl.2.1 hl.2.2] at hs
      dsimp only at hs
      refine Or.inr ⟨_, ?_, hs⟩
      exact ⟨⟨rfl, rfl⟩, by rw [hl.2.1]; exact hl.1.2⟩
  | other l' =>
      refine Or.inr ⟨l', ?_, ?_⟩
      · cases l' with
        | wait => exact absurd hs (by simp [step])
        | waitpid => exact absurd hs (by simp [step])
        | _ => trivial
      · cases l' with
        | wait => exact absurd hs (by simp [step])
        | waitpid => exact absurd hs (by simp [step])
        | _ => exact hs

/-- A process that is in none of the calls may run on its own. -/
lemma Made.user {u : User} (hm : m.Made) (hi : m.table.Free i) :
    Made { m with user := Function.update m.user i u } := by
  intro j
  by_cases hj : j = i
  · subst hj
    change ((Function.update m.user j u) j).Made (m.table.call j)
    rw [hi.2]
    trivial
  · change ((Function.update m.user i u) j).Made (m.table.call j)
    rw [Function.update_of_ne hj]
    exact hm j

lemma step_machine_made {l : MStep} (hm : m.Made) (hl : m.Proper l)
    (hs : m.step l = some (m', e)) : m'.Made := by
  rcases step_tableStep hl hs with ⟨i, u, rfl⟩ | ⟨l', hl', hs'⟩
  · simp only [step] at hs
    split at hs
    · rename_i hi
      obtain ⟨rfl, -⟩ : _ = m' ∧ _ = e := by simpa using hs
      exact hm.user hi
    · exact absurd hs (by simp)
  · exact (tableStep_stores hm hl' hs').2

section

variable {user : Slot → User} {kernel : Bytes (2 ^ 32)} {es : List Event}

lemma made_boot (user : Slot → User) (kernel : Bytes (2 ^ 32)) : (boot user kernel).Made := by
  intro j
  have hcall : ∀ j, userinit.call j = .none := by decide +kernel
  change (user j).Made (userinit.call j)
  rw [hcall j]
  trivial

lemma Runs.made (h : Runs user kernel Proper es m) : m.Made :=
  h.invariant (I := fun _ m => m.Made) (made_boot user kernel) fun hm hl hs =>
    step_machine_made hm hl hs

end

end Machine

/-- The first process, with the given arguments on its stack, has forked a child that has exited
with the status 7, and runs again. -/
def childExits (word₀ word₁ : ℕ) : List MStep :=
  [.other (.dispatch 0), .user 0 (User.calling word₀ word₁ 0), .other (.forkAlloc 0),
    .other (.forkLink 0), .other (.forkDone 0), .other (.yield 0), .other (.dispatch 1),
    .other (.exit 1 7), .other (.dispatch 0)]

/-- The kernel gets exactly the words of a call if the layer finds them, and only then; and in every
run of such calls a return of `wait` or `waitpid` stores the status of the process it has reaped in
the four bytes at the pointer, which are the caller's own, and nothing else anywhere. -/
theorem status_pointers {user : Slot → User} {kernel : Bytes (2 ^ 32)} {es : List Event}
    {m : Machine} (h : Machine.Runs user kernel Machine.Proper es m) :
    (∀ l, m.Passes l ↔ m.Proper l) ∧
    ∀ l m' e, m.Proper l → m.step l = some (m', e) → (∀ i u, l ≠ .user i u) → m.Stores m' e := by
  refine ⟨fun _ => Machine.passes_iff, fun l m' e hl hs hl' => ?_⟩
  rcases Machine.step_tableStep hl hs with ⟨i, u, rfl⟩ | ⟨l', hbegin, hs'⟩
  · exact absurd rfl (hl' i u)
  · exact (Machine.tableStep_stores h.made hbegin hs').1

/-- `wait(0x2000)` brings the status of the child to `0x2000`. -/
theorem status_pointers_wait : ∃ es m m' e,
    Machine.Runs (fun _ => User.calling 0 0 0) (fun _ => 0) Machine.Proper es m ∧
    m.step (.wait 0 0) = some (m', e) ∧ (m'.user 0).mem.get32 0x2000 = 7 := by
  have hrun : ∃ es m, Machine.Runs (fun _ => User.calling 0 0 0) (fun _ => 0) Machine.Proper es m ∧
      m.Proper (.wait 0 0) ∧ (m.table.proc 1).state = ZOMBIE ∧ (m.table.proc 1).est = 7 ∧
      (m.step (.wait 0 0)).any (fun r =>
        decide (r.2 = some (.waitReturned 0 0x2000 2 (some 7)) ∧
          (r.1.table.proc 1).state = UNUSED)) = true :=
    Run.exists_of_exec _ (childExits 0x2000 0) (by decide +kernel)
  obtain ⟨es, m, h, hl, hz, hest, hs⟩ := hrun
  cases hstep : m.step (.wait 0 0) with
  | none => simp [hstep] at hs
  | some r =>
      obtain ⟨m', e⟩ := r
      obtain ⟨rfl, hu⟩ : e = _ ∧ (m'.table.proc 1).state = UNUSED := by simpa [hstep] using hs
      have hstores := (status_pointers h).2 _ _ _ hl hstep (by simp)
      have hstatus := hstores.status _ 0 0x2000 _ 1 rfl rfl hz hu (by norm_num)
      refine ⟨es, m, m', _, h, hstep, ?_⟩
      rw [hstatus, hest]
      rfl

/-- `sys_waitpid` fetches all three arguments from position 0: in `waitpid(2, 0x2000, 0)` the pid
also serves as the pointer, and the status 7 of the child is stored at address 2. -/
theorem status_pointers_first_word : ∃ es m m' e,
    Machine.Runs (fun _ => User.calling 0 0 0) (fun _ => 0) (fun _ _ => True) es m ∧
    m.step (.waitpid 0 0 0 0) = some (m', e) ∧
    ((m.user 0).arg 0 = 2 ∧ (m.user 0).arg 1 = 0x2000 ∧ (m.user 0).arg 2 = 0) ∧
    ((m.table.proc 1).state = ZOMBIE ∧ (m.table.proc 1).est = 7 ∧
      (m'.table.proc 1).state = UNUSED) ∧
    (m'.user 0).mem.get32 0x2000 = 0 ∧ (m'.user 0).mem.get32 2 = 7 := by
  have hrun : ∃ es m, Machine.Runs (fun _ => User.calling 0 0 0) (fun _ => 0)
    (fun _ _ => True) es m ∧
      ((m.user 0).arg 0 = 2 ∧ (m.user 0).arg 1 = 0x2000 ∧ (m.user 0).arg 2 = 0) ∧
      ((m.table.proc 1).state = ZOMBIE ∧ (m.table.proc 1).est = 7) ∧
      (m.step (.waitpid 0 0 0 0)).any (fun r =>
        decide ((r.1.table.proc 1).state = UNUSED ∧ (r.1.user 0).mem.get32 0x2000 = 0 ∧
          (r.1.user 0).mem.get32 2 = 7)) = true :=
    Run.exists_of_exec _ (childExits 2 0x2000) (by decide +kernel)
  obtain ⟨es, m, h, harg, hz, hs⟩ := hrun
  cases hstep : m.step (.waitpid 0 0 0 0) with
  | none => simp [hstep] at hs
  | some r =>
      rw [hstep] at hs
      obtain ⟨hu, h1, h2⟩ := of_decide_eq_true hs
      exact ⟨es, m, r.1, r.2, h, hstep, harg, ⟨hz.1, hz.2, hu⟩, h1, h2⟩

end Xv6
