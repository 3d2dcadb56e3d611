import Xv6.Param
import Xv6.Lib.Run
import Mathlib.Algebra.GroupWithZero.Nat
import Mathlib.Data.Fintype.Card
import Mathlib.Data.List.FinRange
import Mathlib.Logic.Function.Basic

/-!
# The process table (`proc.c`)

A step of the machine is one critical section of `ptable.lock`, or one of the assignments
that `fork` makes to its new slot without holding the lock.  Besides the fields of
`struct proc` the state keeps, for every slot, the call whose frame is on its kernel stack
(`Call`): a process that sleeps in `wait` or `waitpid` goes on inside that call when the
scheduler switches to it, still holding the lock, so that `dispatch` runs the rest of the
critical section.
-/

namespace Xv6

/-- `enum procstate`. -/
inductive ProcState
  | UNUSED
  | EMBRYO
  | SLEEPING
  | RUNNABLE
  | RUNNING
  | ZOMBIE
deriving DecidableEq, Repr

/-- The index of a process in `ptable.proc`. -/
abbrev Slot : Type := Fin NPROC

/-- A sleep channel: the address of a process slot, or any other address. -/
inductive Chan
  | proc (p : Slot)
  | addr (a : ℕ)
deriving DecidableEq, Repr

/-- `struct proc`, as far as the functions of this file read and write it. -/
@[ext]
structure Proc where
  state : ProcState
  pid : ℤ
  parent : Option Slot
  chan : Option Chan
  killed : Bool
  est : ℤ
  curIndex : ℤ
  prio : ℤ
deriving DecidableEq, Repr

/-- The call that a process is in: none of those below, `fork` after its `allocproc` (with the
new slot, and whether its parent is set), asleep in `wait` or at a slot of the scan of
`waitpid`, asleep elsewhere, or `exit`, from which it does not return. -/
inductive Call
  | none
  | fork (np : Slot) (linked : Bool)
  | wait (st : ℕ)
  | waitpid (pid : ℤ) (st : ℕ) (p : Slot)
  | sleep
  | exit
deriving DecidableEq, Repr

/-- The process table, the calls its processes are in, and the next pid. -/
structure PTable where
  proc : Slot → Proc
  call : Slot → Call
  nextpid : ℤ

/-- What is seen of a step.  A return of `wait` or `waitpid` shows the argument `st`, the value
and what was stored through `st`, if anything. -/
inductive Event
  | allocated (p : Slot) (pid : ℤ)
  | forked (i : Slot) (pid : ℤ)
  | exited (pid st : ℤ)
  | waitReturned (i : Slot) (st : ℕ) (ret : ℤ) (stored : Option ℤ)
  | waitpidReturned (i : Slot) (pid : ℤ) (st : ℕ) (ret : ℤ) (stored : Option ℤ)
  | killReturned (pid ret : ℤ)
  | trapped (pid : ℤ)
deriving DecidableEq, Repr

/-- `x++` and `x--` on a 32-bit `int`. -/
def incInt (x : ℤ) : ℤ := Int.bmod (x + 1) (2 ^ 32)

@[inherit_doc incInt]
def decInt (x : ℤ) : ℤ := Int.bmod (x - 1) (2 ^ 32)

/-- The slots in the order of the scans `p = ptable.proc; p < &ptable.proc[NPROC]; p++`. -/
def slots : List Slot := List.finRange NPROC

instance : NeZero NPROC := ⟨Nat.succ_ne_zero _⟩

/-- The first process; `userinit` takes the first slot. -/
def initproc : Slot := 0

namespace PTable

/-- Change the fields of one process. -/
def modifyProc (s : PTable) (i : Slot) (f : Proc → Proc) : PTable :=
  { s with proc := Function.update s.proc i (f (s.proc i)) }

/-- Change the call that a process is in. -/
def setCall (s : PTable) (i : Slot) (c : Call) : PTable :=
  { s with call := Function.update s.call i c }

end PTable

/-! ## Sleeping and waking -/

/-- A process is woken if it sleeps on the channel. -/
def Proc.wake (chan : Option Chan) (q : Proc) : Proc :=
  if q.state = .SLEEPING ∧ q.chan = chan then { q with state := .RUNNABLE } else q

/-- Wake up all processes sleeping on `chan`. -/
def wakeup1 (chan : Option Chan) (s : PTable) : PTable :=
  { s with proc := fun p => (s.proc p).wake chan }

/-- One turn of the loop of `wakeuppid`. -/
def wakeuppidAt (c : Slot) (s : PTable) (p : Slot) : PTable :=
  if (s.proc p).state = .SLEEPING ∧ (s.proc p).chan = some (.proc c) then
    (s.modifyProc p fun q => { q with state := .RUNNABLE }).modifyProc c fun q =>
      { q with curIndex := decInt q.curIndex }
  else s

/-- Wake up all processes sleeping on the slot `c`, and count them off its `curIndex`. -/
def wakeuppid (c : Slot) (s : PTable) : PTable := slots.foldl (wakeuppidAt c) s

/-- `while(proc->cur_index > 0) wakeuppid(proc)`, for at most the given number of tests of the
condition. -/
def wakeuppidLoop : ℕ → Slot → PTable → Option PTable
  | 0, _, _ => none
  | n + 1, i, s =>
      if 0 < (s.proc i).curIndex then wakeuppidLoop n i (wakeuppid i s) else some s

/-- `sleep(chan, lk)` up to its `sched`, inside the call `c`. -/
def sleepOn (i : Slot) (chan : Chan) (c : Call) (s : PTable) : PTable :=
  (s.modifyProc i fun p => { p with chan := some chan, state := .SLEEPING }).setCall i c

/-- The rest of `sleep` after its `sched`: the process runs and tidies up. -/
def wakeFrom (i : Slot) (s : PTable) : PTable :=
  (s.modifyProc i fun p => { p with state := .RUNNING, chan := none }).setCall i .none

/-! ## `allocproc` -/

/-- What `allocproc` does with the slot that it has found. -/
def takeSlot (p : Slot) (s : PTable) : PTable :=
  { s.modifyProc p (fun q => { q with
      prio := 1, curIndex := 0, state := .EMBRYO, pid := s.nextpid }) with
    nextpid := incInt s.nextpid }

/-- Take the first `UNUSED` slot, if there is one. -/
def allocproc (s : PTable) : Option (Slot × PTable) :=
  (slots.find? fun p => (s.proc p).state == .UNUSED).map fun p => (p, takeSlot p s)

/-! ## `exit` -/

/-- `exit` up to the loop over `cur_index`. -/
def exitStart (i : Slot) (st : ℤ) (s : PTable) : PTable :=
  (wakeup1 ((s.proc i).parent.map .proc) s).modifyProc i fun q => { q with est := st }

/-- One turn of the loop that passes abandoned children to init. -/
def reparentAt (i : Slot) (s : PTable) (p : Slot) : PTable :=
  if (s.proc p).parent = some i then
    let s := s.modifyProc p fun q => { q with parent := some initproc }
    if (s.proc p).state = .ZOMBIE then wakeup1 (some (.proc initproc)) s else s
  else s

/-- `exit` from the loop over the children to its `sched`. -/
def exitEnd (i : Slot) (s : PTable) : PTable :=
  ((slots.foldl (reparentAt i) s).modifyProc i fun q => { q with state := .ZOMBIE }).setCall i
    .exit

/-- The critical section of `exit`, if its loop over `cur_index` ends within `n` tests. -/
def exitSection (n : ℕ) (i : Slot) (st : ℤ) (s : PTable) : Option PTable :=
  (wakeuppidLoop n i (exitStart i st s)).map (exitEnd i)

/-! ## `wait` and `waitpid` -/

/-- Free the slot of a zombie. -/
def reap (p : Slot) (s : PTable) : PTable :=
  s.modifyProc p fun q => { q with state := .UNUSED, pid := 0, parent := none, killed := false }

/-- What a scan of `wait` or `waitpid` comes to. -/
inductive Outcome
  | reap (p : Slot)
  | stale (p : Slot)
  | fail
  | sleep (p : Slot)
deriving DecidableEq, Repr

/-- The scan of `wait`: reap a zombie child, give up without children or when killed, or sleep
on the own slot. -/
def waitScan (i : Slot) (s : PTable) : Outcome :=
  match slots.find? fun p =>
      decide ((s.proc p).parent = some i ∧ (s.proc p).state = .ZOMBIE) with
  | some p => .reap p
  | none =>
      let havekids := slots.any fun p => decide ((s.proc p).parent = some i)
      if havekids = false ∨ (s.proc i).killed = true then .fail else .sleep i

/-- The scan of `waitpid` over the given slots stops at the first one with the pid. -/
def waitpidScan (pid : ℤ) (s : PTable) (ps : List Slot) : Option Outcome :=
  (ps.find? fun p => (s.proc p).pid == pid).map fun p =>
    match (s.proc p).state with
    | .ZOMBIE => .reap p
    | .UNUSED => .stale p
    | _ => .sleep p

/-- The loop of `waitpid` from a point of its scan on.  A round in which a slot has the pid
ends in that slot, so a second round that finds none has `found = 0` and is the last. -/
def waitpidRest (i : Slot) (pid : ℤ) (s : PTable) (ps : List Slot) (found : Bool) : Outcome :=
  match waitpidScan pid s ps with
  | some o => o
  | none =>
      if found = false ∨ (s.proc i).killed = true then .fail
      else (waitpidScan pid s slots).getD .fail

/-- `if(st) *st = v`. -/
def store (st : ℕ) (v : ℤ) : Option ℤ := if st = 0 then none else some v

/-- The critical section of `wait` from the scan on, up to its return or `sleep`. -/
def waitSection (i : Slot) (st : ℕ) (s : PTable) : PTable × Option Event :=
  match waitScan i s with
  | .reap p =>
      (reap p s, some (.waitReturned i st (s.proc p).pid (store st (s.proc p).est)))
  | .sleep p => (sleepOn i (.proc p) (.wait st) s, none)
  | _ => (s, some (.waitReturned i st (-1) (store st (-1))))

/-- The critical section of `waitpid` that goes on with the given outcome of its scan. -/
def waitpidSection (i : Slot) (pid : ℤ) (st : ℕ) (o : Outcome) (s : PTable) :
    PTable × Option Event :=
  match o with
  | .reap p =>
      (reap p s, some (.waitpidReturned i pid st (s.proc p).pid (store st (s.proc p).est)))
  | .stale p => (s, some (.waitpidReturned i pid st pid (store st (s.proc p).est)))
  | .fail => (s, some (.waitpidReturned i pid st (-1) (store st (-1))))
  | .sleep p =>
      (sleepOn i (.proc p) (.waitpid pid st p)
        (s.modifyProc p fun q => { q with curIndex := incInt q.curIndex }), none)

/-! ## The machine -/

/-- The steps: what the process in a slot does next. -/
inductive Step
  | dispatch (i : Slot)
  | yield (i : Slot)
  | sleep (i : Slot) (chan : ℕ)
  | wakeup (chan : ℕ)
  | forkAlloc (i : Slot)
  | forkFail (i : Slot)
  | forkLink (i : Slot)
  | forkDone (i : Slot)
  | exit (i : Slot) (st : ℤ)
  | wait (i : Slot) (st : ℕ)
  | waitpid (i : Slot) (pid : ℤ) (st : ℕ) (op : ℤ)
  | kill (i : Slot) (pid : ℤ)
  | setprio (i : Slot) (prio : ℤ)
  | trap (i : Slot)
deriving DecidableEq, Repr

/-- The process runs and is in none of the calls of `Call`. -/
def PTable.Free (s : PTable) (i : Slot) : Prop := (s.proc i).state = .RUNNING ∧ s.call i = .none

instance (s : PTable) (i : Slot) : Decidable (s.Free i) :=
  inferInstanceAs (Decidable (_ ∧ _))

/-- The scheduler switches to a process that is `RUNNABLE`, and it goes on where it was. -/
def dispatch (i : Slot) (s : PTable) : Option (PTable × Option Event) :=
  if (s.proc i).state = .RUNNABLE then
    match s.call i with
    | .none | .fork _ _ => some (s.modifyProc i fun p => { p with state := .RUNNING }, none)
    | .sleep => some (wakeFrom i s, none)
    | .wait st => some (waitSection i st (wakeFrom i s))
    | .waitpid pid st p =>
        let s := wakeFrom i s
        some (waitpidSection i pid st (waitpidRest i pid s (slots.drop (p.val + 1)) true) s)
    | .exit => none
  else none

/-- `kill`: mark the first process with the pid, and wake it. -/
def kill (pid : ℤ) (s : PTable) : PTable × ℤ :=
  match slots.find? fun p => (s.proc p).pid == pid with
  | some p =>
      (s.modifyProc p fun q => { q with
        killed := true
        state := if q.state = .SLEEPING then .RUNNABLE else q.state }, 0)
  | none => (s, -1)

/-- The priority that `setprio` stores. -/
def cutPrio (prio : ℤ) : ℤ := if 0 ≤ prio ∧ prio ≤ 63 then prio else if prio < 0 then 0 else 63

/-- `setprio` up to its `sched`: the first process with the caller's pid gets the priority,
cut to the range from 0 to 63, and becomes `RUNNABLE`; `sched` panics if the caller is still
running. -/
def setprio (i : Slot) (prio : ℤ) (s : PTable) : Option PTable :=
  let s := match slots.find? fun p => (s.proc p).pid == (s.proc i).pid with
    | some p =>
        s.modifyProc p fun q => { q with prio := cutPrio prio, state := .RUNNABLE }
    | none => s
  if (s.proc i).state = .RUNNING then none else some s

/-- One step of the machine; there is none when the process is not in a position to take it,
when the kernel panics, and when the loop of `exit` over `cur_index` does not end. -/
def step (s : PTable) : Step → Option (PTable × Option Event)
  | .dispatch i => dispatch i s
  | .yield i =>
      match s.call i with
      | .none | .fork _ _ =>
          if (s.proc i).state = .RUNNING then
            some (s.modifyProc i fun p => { p with state := .RUNNABLE }, none)
          else none
      | _ => none
  | .sleep i chan => if s.Free i then some (sleepOn i (.addr chan) .sleep s, none) else none
  | .wakeup chan => some (wakeup1 (some (.addr chan)) s, none)
  | .forkAlloc i =>
      if s.Free i then
        match allocproc s with
        | some (np, s') => some (s'.setCall i (.fork np false), some (.allocated np s.nextpid))
        | none => some (s, none)
      else none
  | .forkFail i =>
      -- `kalloc` fails in `allocproc`, or `copyuvm` in `fork`
      match s.call i with
      | .fork np false =>
          if (s.proc i).state = .RUNNING then
            some ((s.modifyProc np fun p => { p with state := .UNUSED }).setCall i .none, none)
          else none
      | _ => none
  | .forkLink i =>
      match s.call i with
      | .fork np false =>
          if (s.proc i).state = .RUNNING then
            some ((s.modifyProc np fun p => { p with parent := some i }).setCall i
              (.fork np true), none)
          else none
      | _ => none
  | .forkDone i =>
      match s.call i with
      | .fork np true =>
          if (s.proc i).state = .RUNNING then
            some (((s.modifyProc np fun p => { p with state := .RUNNABLE }).setCall i .none).setCall
              np .none, some (.forked i (s.proc np).pid))
          else none
      | _ => none
  | .exit i st =>
      if s.Free i ∧ i ≠ initproc then
        (exitSection 2 i st s).map fun s' => (s', some (.exited (s.proc i).pid st))
      else none
  | .wait i st => if s.Free i then some (waitSection i st s) else none
  | .waitpid i pid st _ =>
      if s.Free i then some (waitpidSection i pid st (waitpidRest i pid s slots false) s)
      else none
  | .kill i pid =>
      if s.Free i then
        let r := kill pid s
        some (r.1, some (.killReturned pid r.2))
      else none
  | .setprio i prio => if s.Free i then (setprio i prio s).map fun s => (s, none) else none
  | .trap i =>
      if s.Free i then
        some (s.modifyProc i fun p => { p with killed := true }, some (.trapped (s.proc i).pid))
      else none

/-- The table in the zeroed memory of the kernel. -/
def zeroTable : PTable where
  proc := fun _ => ⟨.UNUSED, 0, none, none, false, 0, 0, 0⟩
  call := fun _ => .none
  nextpid := 1

/-- The table after `userinit`: the first process is ready to run. -/
def userinit : PTable :=
  match allocproc zeroTable with
  | some (p, s) => s.modifyProc p fun q => { q with state := .RUNNABLE }
  | none => zeroTable

/-- The runs of the process table, all of whose steps satisfy `ok`. -/
abbrev PRun (ok : PTable → Step → Prop) : List Event → PTable → Prop :=
  Lib.Run step ok userinit [.allocated initproc 1]

/-- Steps that can be taken one after the other give a run. -/
lemma PRun.of_steps (ok : PTable → Step → Prop) [∀ s l, Decidable (ok s l)]
    (P : List Event → PTable → Prop) [∀ es s, Decidable (P es s)] (ls : List Step)
    (h : ((Lib.exec (Lib.restrict step ok) ls [.allocated initproc 1] userinit).any fun r =>
      decide (P r.1 r.2)) = true) : ∃ es s, PRun ok es s ∧ P es s :=
  Lib.Run.exists_of_exec P ls h

end Xv6
