import Xv6.Proc.Invariant
import Mathlib.Data.Finset.Card

/-!
# Counting the processes that sleep in `waitpid`

`waitpid` adds one to the `cur_index` of the slot it goes to sleep on, and `exit` wakes its
sleepers in a loop that runs until `cur_index` has been counted down.  The loop ends if
`cur_index` is at most the number of sleepers (`CountedBelow`), and nobody is left asleep if
it is at least that number (`CountedAbove`).  The first fails when a sleeper is woken by
somebody else, the second when the slot is given up by a failing `fork`; both hold in runs
without such steps.
-/

namespace Xv6

open Lib ProcState

/-- The slot at which a call of `waitpid` sleeps. -/
def Call.target : Call → Option Slot
  | .waitpid _ _ p => some p
  | _ => Option.none

/-- The process in slot `q` sleeps inside `waitpid` on slot `p`. -/
def PTable.WaitsFor (s : PTable) (p q : Slot) : Prop :=
  (s.proc q).state = SLEEPING ∧ (s.call q).target = some p

instance (s : PTable) (p q : Slot) : Decidable (s.WaitsFor p q) :=
  inferInstanceAs (Decidable (_ ∧ _))

/-- The processes that sleep inside `waitpid` on slot `p`. -/
def PTable.waiters (s : PTable) (p : Slot) : Finset Slot := Finset.univ.filter (s.WaitsFor p)

section Counting

variable {s s' : PTable} {i p q : Slot} {st : ℕ} {pid : ℤ} {e : Option Event} {l : Step}

lemma mem_waiters : q ∈ s.waiters p ↔ s.WaitsFor p q := by simp [PTable.waiters]

lemma Call.target_eq_some {c : Call} : c.target = some p ↔ ∃ pid st, c = .waitpid pid st p := by
  cases c <;> simp [Call.target]

lemma PTable.WaitsFor.chan (h : s.WaitsFor p q) (ha : Asleep s) :
    (s.proc q).chan = some (.proc p) := by
  obtain ⟨pid, st, hc⟩ := Call.target_eq_some.1 h.2
  exact ha.waitpid q pid st p h.1 hc

lemma waiters_le_sleepers (ha : Asleep s) (p : Slot) : (s.waiters p).card ≤ s.sleepers p := by
  refine Finset.card_le_card fun q hq => ?_
  have hq' := mem_waiters.1 hq
  exact Finset.mem_filter.2 ⟨Finset.mem_univ q, hq'.1, hq'.chan ha⟩

/-- The table after process `i` has gone to sleep in `waitpid` on slot `q`. -/
def waitpidSleep (i : Slot) (pid : ℤ) (st : ℕ) (q : Slot) (s : PTable) : PTable :=
  sleepOn i (.proc q) (.waitpid pid st q)
    (s.modifyProc q fun q => { q with curIndex := incInt q.curIndex })

lemma waitpidSleep_curIndex : ((waitpidSleep i pid st q s).proc p).curIndex =
    if p = q then incInt (s.proc p).curIndex else (s.proc p).curIndex := by
  grind [waitpidSleep]

lemma waitpidSleep_waitsFor {r : Slot} (hi : s.Free i) :
    (waitpidSleep i pid st q s).WaitsFor p r ↔ s.WaitsFor p r ∨ (r = i ∧ p = q) := by
  obtain ⟨hrun, -⟩ := hi
  simp only [PTable.WaitsFor, waitpidSleep, sleepOn_proc, sleepOn_call, PTable.modifyProc_proc,
    PTable.modifyProc_call]
  by_cases hr : r = i
  · subst hr
    simp [hrun, Call.target, eq_comm]
  · by_cases hrq : r = q
    · subst hrq
      simp [hr]
    · simp [hr, hrq]

lemma waitpidSleep_card (hi : s.Free i) :
    ((waitpidSleep i pid st q s).waiters p).card =
      (s.waiters p).card + if p = q then 1 else 0 := by
  have hnot : i ∉ s.waiters p := fun hmem => by
    have := (mem_waiters.1 hmem).1
    simp [hi.1] at this
  by_cases hp : p = q
  · have heq : (waitpidSleep i pid st q s).waiters p = insert i (s.waiters p) := by
      ext r
      rw [mem_waiters, waitpidSleep_waitsFor hi, Finset.mem_insert, mem_waiters]
      simp [hp, or_comm]
    rw [heq, Finset.card_insert_of_notMem hnot, if_pos hp]
  · have heq : (waitpidSleep i pid st q s).waiters p = s.waiters p := by
      ext r
      rw [mem_waiters, waitpidSleep_waitsFor hi, mem_waiters]
      simp [hp]
    rw [heq, if_neg hp, add_zero]

/-! ## `cur_index` is at most the number of sleepers -/

/-- No `cur_index` is greater than the number of processes asleep in `waitpid` on its slot. -/
structure CountedBelow (s : PTable) : Prop where
  range : ∀ p, -2 ^ 31 ≤ (s.proc p).curIndex
  le : ∀ p, (s.proc p).curIndex ≤ (s.waiters p).card

namespace CountedBelow

/-- It is enough that a positive `cur_index` is not changed and its sleepers go on sleeping. -/
lemma congr (h : CountedBelow s) (hcur : ∀ p,
    (-2 ^ 31 ≤ (s'.proc p).curIndex ∧ (s'.proc p).curIndex ≤ 0) ∨
      ((s'.proc p).curIndex = (s.proc p).curIndex ∧ ∀ q, s.WaitsFor p q → s'.WaitsFor p q)) :
    CountedBelow s' := by
  refine ⟨fun p => ?_, fun p => ?_⟩
  · rcases hcur p with ⟨hlow, -⟩ | ⟨heq, -⟩
    · exact hlow
    · rw [heq]
      exact h.range p
  · rcases hcur p with ⟨-, hle⟩ | ⟨heq, hq⟩
    · omega
    · have hsub : (s.waiters p).card ≤ (s'.waiters p).card :=
        Finset.card_le_card fun q hmem => mem_waiters.2 (hq q (mem_waiters.1 hmem))
      have := h.le p
      omega

lemma wakeFrom (h : CountedBelow s) (hs : (s.proc i).state = RUNNABLE) :
    CountedBelow (wakeFrom i s) :=
  h.congr fun p => Or.inr ⟨by grind, by grind [PTable.WaitsFor]⟩

lemma reap (h : CountedBelow s) (hz : (s.proc q).state = ZOMBIE) : CountedBelow (reap q s) :=
  h.congr fun p => Or.inr ⟨by grind, by grind [PTable.WaitsFor]⟩

lemma sleepOn {chan : Chan} {c : Call} (h : CountedBelow s) (hi : s.Free i) :
    CountedBelow (sleepOn i chan c s) :=
  h.congr fun p => Or.inr ⟨by grind, by grind [PTable.WaitsFor, PTable.Free]⟩

lemma waited (h : CountedBelow s) (hi : s.Free i) (hw : Waited s i st s' e) :
    CountedBelow s' := by
  cases hw with
  | reap q hq => exact h.reap hq.2
  | fail => exact h
  | sleep hz => exact h.sleepOn hi

/-- `waitpid` adds one to `cur_index` and one to the sleepers. -/
lemma waitpidSleep (h : CountedBelow s) (hi : s.Free i) :
    CountedBelow (waitpidSleep i pid st q s) := by
  have hcard : ∀ p, (s.waiters p).card ≤ NPROC := fun p => by
    simpa using Finset.card_le_univ (s.waiters p)
  have hn := NPROC_eq
  refine ⟨fun p => ?_, fun p => ?_⟩
  · rw [waitpidSleep_curIndex]
    split_ifs
    · exact le_incInt _
    · exact h.range p
  · rw [waitpidSleep_curIndex, waitpidSleep_card hi]
    have := hcard p
    have := h.le p
    split_ifs
    · rw [incInt_eq (h.range p) (by omega)]
      push_cast
      omega
    · simpa using h.le p

lemma waitpided (h : CountedBelow s) (hi : s.Free i) (hw : Waitpided s i pid st s' e) :
    CountedBelow s' := by
  cases hw with
  | reap q _ hq => exact h.reap hq
  | stale q => exact h
  | fail => exact h
  | sleep q => exact h.waitpidSleep hi

end CountedBelow

/-- The step wakes nobody who sleeps in `waitpid`, except that `exit` wakes those who wait for
the process that exits: `kill` does not hit such a sleeper, and `exit`, which also wakes its
parent and init, finds nobody who sleeps in `waitpid` on those slots. -/
def KeepsWaiters (s : PTable) : Step → Prop
  | .kill _ pid => ∀ q, slots.find? (fun p => (s.proc p).pid == pid) = some q →
      ∀ p, ¬ s.WaitsFor p q
  | .exit i _ => ∀ p q, s.WaitsFor p q →
      (s.proc i).parent ≠ some p ∧ (s.LeavesZombie i → p ≠ initproc)
  | _ => True

instance (s : PTable) (l : Step) : Decidable (KeepsWaiters s l) :=
  match l with
  | .kill _ pid => inferInstanceAs (Decidable (∀ q, slots.find? (fun p => (s.proc p).pid == pid) =
      some q → ∀ p, ¬ s.WaitsFor p q))
  | .exit i _ => inferInstanceAs (Decidable (∀ p q, s.WaitsFor p q →
      (s.proc i).parent ≠ some p ∧ (s.LeavesZombie i → p ≠ initproc)))
  | .dispatch _ | .yield _ | .sleep _ _ | .wakeup _ | .forkAlloc _ | .forkFail _ | .forkLink _
  | .forkDone _ | .wait _ _ | .waitpid _ _ _ _ | .setprio _ _ | .trap _ =>
      inferInstanceAs (Decidable True)

lemma CountedBelow.exit {st : ℤ} (h : CountedBelow s) (ha : Asleep s) (hi : s.Free i)
    (hk : KeepsWaiters s (.exit i st)) (hx : Exited s i st s') : CountedBelow s' := by
  obtain ⟨hcall, -, x, hx, hlow, hproc⟩ := hx
  refine h.congr fun p => ?_
  by_cases hp : p = i
  · left
    have := hlow (h.range i)
    grind
  · right
    refine ⟨by grind, fun q hq => ?_⟩
    -- the channel of the sleeper is none of those that `exit` wakes
    have hchan := hq.chan ha
    have hk := hk p q hq
    have hqi : q ≠ i := by grind [PTable.WaitsFor, PTable.Free]
    have hwake : ¬ s.ExitWakes i (s.proc q).chan := by
      rw [hchan]
      rintro (hc | ⟨-, hc⟩ | ⟨hz, hc⟩)
      · cases hpar : (s.proc i).parent with
        | none => simp [hpar] at hc
        | some r =>
            simp only [hpar, Option.map_some, Option.some.injEq, Chan.proc.injEq] at hc
            exact hk.1 (by rw [hpar, hc])
      · simp [hp] at hc
      · exact hk.2 hz (by simpa using hc)
    refine ⟨?_, by rw [hcall, if_neg hqi]; exact hq.2⟩
    rw [hproc]
    simp [hqi, hwake, hq.1]

lemma CountedBelow.step (h : CountedBelow s) (ha : Asleep s) (hf : Family s)
    (hk : KeepsWaiters s l) (hs : Stepped s l s' e) : CountedBelow s' := by
  cases hs with
  | resume i hs hc => exact h.wakeFrom hs
  | resumeWait i st hs hc hw => exact (h.wakeFrom hs).waited (by simp [PTable.Free]) hw
  | resumeWaitpid i pid st q hs hc hw => exact (h.wakeFrom hs).waitpided (by simp [PTable.Free]) hw
  | sleep i chan hi => exact h.sleepOn hi
  | wait i st hi hw => exact h.waited hi hw
  | waitpid i pid st op hi hw => exact h.waitpided hi hw
  | exit i st hi hne hx => exact h.exit ha hi hk hx
  | kill i pid r hi hr =>
      have hnot := hk r hr
      exact h.congr fun p => Or.inr ⟨by grind, by grind [PTable.WaitsFor]⟩
  | wakeup chan =>
      refine h.congr fun p => Or.inr ⟨by grind, fun q hq => ?_⟩
      have hchan := hq.chan ha
      grind [PTable.WaitsFor]
  | alloc i np hi hnp =>
      refine h.congr fun p => ?_
      by_cases hp : p = np
      · exact Or.inl (by simp [hp])
      · exact Or.inr ⟨by grind, by grind [PTable.WaitsFor, PTable.Free]⟩
  | forkDone i np hs hc =>
      have hnp := (hf.fork i np true hc).1
      exact h.congr fun p => Or.inr ⟨by grind, by grind [PTable.WaitsFor]⟩
  | forkFail i np hs hc =>
      have hnp := (hf.fork i np false hc).1
      exact h.congr fun p => Or.inr ⟨by grind, by grind [PTable.WaitsFor]⟩
  | _ => exact h.congr fun p => Or.inr ⟨by grind, by grind [PTable.WaitsFor, PTable.Free]⟩

lemma PRun.countedBelow {es : List Event} (h : PRun KeepsWaiters es s) : CountedBelow s := by
  induction h with
  | start => exact ⟨by grind [userinit_proc], by grind [userinit_proc]⟩
  | step hr hk hs ih => exact ih.step (PRun.asleep hr) (PRun.family hr) hk (step_stepped hs)

/-- The wakeup of the parent at the start of `exit` leaves the sleepers on the own slot alone. -/
lemma exitStart_sleepers {st : ℤ} (hf : Family s) (hi : s.Free i) :
    (exitStart i st s).sleepers i = s.sleepers i := by
  have hself := hf.neSelf i
  unfold PTable.sleepers
  congr 1
  ext q
  simp only [Finset.mem_filter, Finset.mem_univ, true_and, PTable.SleepsOn,
    exitStart_proc st hi.1]
  by_cases hc : (s.proc q).chan = (s.proc i).parent.map .proc
  · have hne : (s.proc q).chan ≠ some (.proc i) := by
      rw [hc]
      cases hp : (s.proc i).parent <;> grind
    simp [hne]
  · simp [hc]

/-- **The loop of `exit` over `cur_index` ends.**  In every run in which sleepers in `waitpid`
are woken by the exit of the process they wait for only, no `cur_index` exceeds the number
of processes sleeping on the slot, and whenever a process executes `exit` the loop ends. -/
theorem exit_loop_ends {es : List Event} (h : PRun KeepsWaiters es s) :
    (∀ p, (s.proc p).curIndex ≤ s.sleepers p) ∧
      ∀ i st, s.Free i → ∃ n s', wakeuppidLoop n i (exitStart i st s) = some s' := by
  have hle : ∀ p, (s.proc p).curIndex ≤ s.sleepers p := by
    intro p
    have := (PRun.countedBelow h).le p
    have := waiters_le_sleepers (PRun.asleep h) p
    omega
  refine ⟨hle, fun i st hi => wakeuppidLoop_ends ?_⟩
  rw [exitStart_sleepers (PRun.family h) hi, exitStart_proc st hi.1]
  exact hle i

/-- Init forks the processes 2 and 3 in slots 1 and 2, which both run, and process 2 calls
`waitpid` for process 3. -/
def waitForSibling : List Step :=
  [.dispatch 0, .forkAlloc 0, .forkLink 0, .forkDone 0, .forkAlloc 0, .forkLink 0, .forkDone 0,
    .dispatch 1, .dispatch 2, .waitpid 1 3 0 0]

/-- With one sleeper in `waitpid` on slot 2, `cur_index` there is 1 and `exit` ends. -/
theorem exit_loop_ends_sibling : ∃ es s, PRun KeepsWaiters es s ∧ (s.proc 2).curIndex = 1 ∧
    (∀ p, (s.proc p).curIndex ≤ s.sleepers p) ∧
      ∃ n s', wakeuppidLoop n 2 (exitStart 2 5 s) = some s' := by
  obtain ⟨es, s, h, hcur, hfree⟩ := PRun.of_steps KeepsWaiters
    (fun _ s => (s.proc 2).curIndex = 1 ∧ s.Free 2) waitForSibling (by decide +kernel)
  exact ⟨es, s, h, hcur, (exit_loop_ends h).1, (exit_loop_ends h).2 2 5 hfree⟩

/-- When init then kills the sleeper, it stops sleeping and `cur_index` stays 1: the loop in
the `exit` of process 3 does not end. -/
theorem exit_loop_hangs : ∃ es s, PRun (fun _ _ => True) es s ∧ s.Free 2 ∧
    s.sleepers 2 < (s.proc 2).curIndex ∧
    ∀ n s', wakeuppidLoop n 2 (exitStart 2 5 s) ≠ some s' := by
  obtain ⟨es, s, h, hfree, hcur, hloop⟩ := PRun.of_steps (fun _ _ => True)
    (fun _ s => s.Free 2 ∧ (s.sleepers 2 : ℤ) < (s.proc 2).curIndex ∧
      (wakeuppidLoop 2 2 (exitStart 2 5 s)).isSome = false)
    (waitForSibling ++ [.kill 0 2]) (by decide +kernel)
  refine ⟨es, s, h, hfree, hcur, fun n s' hn => ?_⟩
  rw [wakeuppidLoop_two hn] at hloop
  exact absurd hloop (by simp)

/-! ## `cur_index` is at least the number of sleepers -/

/-- A slot whose process can still exit. -/
def ProcState.Alive (st : ProcState) : Prop := st ≠ UNUSED ∧ st ≠ ZOMBIE

/-- Nobody sleeps in `waitpid` on a slot that is free or whose process has exited, and the
`cur_index` of the other slots is at least the number of their sleepers. -/
structure CountedAbove (s : PTable) : Prop where
  le : ∀ p, (s.proc p).state.Alive → (s.waiters p).card ≤ (s.proc p).curIndex
  alive : ∀ p q, s.WaitsFor p q → (s.proc p).state.Alive

namespace CountedAbove

/-- Steps that put nobody to sleep in `waitpid`: it is enough that a slot has no sleepers any
more, or keeps its `cur_index`. -/
lemma congr (h : CountedAbove s) (hsub : ∀ p q, s'.WaitsFor p q → s.WaitsFor p q) (hp : ∀ p,
    ((∀ q, ¬ s'.WaitsFor p q) ∧ ((s'.proc p).state.Alive → 0 ≤ (s'.proc p).curIndex)) ∨
      ((s'.proc p).curIndex = (s.proc p).curIndex ∧
        ((s.proc p).state.Alive ↔ (s'.proc p).state.Alive))) : CountedAbove s' := by
  refine ⟨fun p ha => ?_, fun p q hq => ?_⟩
  · rcases hp p with ⟨hno, hcur⟩ | ⟨hcur, halive⟩
    · have hempty : s'.waiters p = ∅ :=
        Finset.eq_empty_of_forall_notMem fun q hq => hno q (mem_waiters.1 hq)
      rw [hempty]
      simpa using hcur ha
    · have hcard : (s'.waiters p).card ≤ (s.waiters p).card :=
        Finset.card_le_card fun q hmem => mem_waiters.2 (hsub p q (mem_waiters.1 hmem))
      have := h.le p (halive.2 ha)
      omega
  · rcases hp p with ⟨hno, -⟩ | ⟨-, halive⟩
    · exact absurd hq (hno q)
    · exact halive.1 (h.alive p q (hsub p q hq))

lemma wakeFrom (h : CountedAbove s) (hs : (s.proc i).state = RUNNABLE) :
    CountedAbove (wakeFrom i s) :=
  h.congr (by grind [PTable.WaitsFor]) fun p => Or.inr ⟨by grind, by grind [Alive]⟩

lemma reap (h : CountedAbove s) (hz : (s.proc q).state = ZOMBIE) : CountedAbove (reap q s) :=
  h.congr (by grind [PTable.WaitsFor]) fun p => Or.inr ⟨by grind, by grind [Alive]⟩

lemma sleepOn {chan : Chan} {c : Call} (h : CountedAbove s) (hi : s.Free i)
    (hc : c.target = none) : CountedAbove (sleepOn i chan c s) :=
  h.congr (by grind [PTable.WaitsFor]) fun p => Or.inr ⟨by grind, by grind [Alive, PTable.Free]⟩

lemma waited (h : CountedAbove s) (hi : s.Free i) (hw : Waited s i st s' e) :
    CountedAbove s' := by
  cases hw with
  | reap q hq => exact h.reap hq.2
  | fail => exact h
  | sleep hz => exact h.sleepOn hi rfl

lemma waitpidSleep (h : CountedAbove s) (hi : s.Free i) (hq : (s.proc q).state.Alive)
    (hmax : (s.proc q).curIndex < 2 ^ 31 - 1) : CountedAbove (waitpidSleep i pid st q s) := by
  have halive : ∀ p, ((Xv6.waitpidSleep i pid st q s).proc p).state.Alive ↔
      (s.proc p).state.Alive := by
    intro p
    grind [Xv6.waitpidSleep, Alive, PTable.Free]
  refine ⟨fun p ha => ?_, fun p r hr => ?_⟩
  · have hle := h.le p ((halive p).1 ha)
    rw [waitpidSleep_curIndex, waitpidSleep_card hi]
    split_ifs with hp
    · subst hp
      rw [incInt_eq (by omega) hmax]
      push_cast
      omega
    · simpa using hle
  · rw [halive]
    rcases (waitpidSleep_waitsFor hi).1 hr with hr | ⟨-, rfl⟩
    · exact h.alive p r hr
    · exact hq

lemma waitpided (h : CountedAbove s) (hi : s.Free i)
    (hmax : ∀ p, (s.proc p).pid = pid → (s.proc p).curIndex < 2 ^ 31 - 1)
    (hw : Waitpided s i pid st s' e) : CountedAbove s' := by
  cases hw with
  | reap q _ hq => exact h.reap hq
  | stale q => exact h
  | fail => exact h
  | sleep q hpid hz hu => exact h.waitpidSleep hi ⟨hu, hz⟩ (hmax q hpid)

/-- `exit` wakes all who sleep in `waitpid` on its slot: `cur_index` is positive if there are
any. -/
lemma exit {st : ℤ} (h : CountedAbove s) (ha : Asleep s) (hi : s.Free i)
    (hx : Exited s i st s') : CountedAbove s' := by
  obtain ⟨hcall, -, x, -, -, hproc⟩ := hx
  have hsub : ∀ p q, s'.WaitsFor p q → s.WaitsFor p q := by
    intro p q hq
    grind [PTable.WaitsFor]
  refine h.congr hsub fun p => ?_
  by_cases hp : p = i
  · subst hp
    refine Or.inl ⟨fun q hq => ?_, by grind [Alive]⟩
    have hq' := hsub p q hq
    have hpos : 0 < (s.waiters p).card := Finset.card_pos.2 ⟨q, mem_waiters.2 hq'⟩
    have hle := h.le p (by simp [hi.1, Alive])
    have hwake : s.ExitWakes p (s.proc q).chan := Or.inr (Or.inl ⟨by omega, hq'.chan ha⟩)
    grind [PTable.WaitsFor]
  · exact Or.inr ⟨by grind, by grind [Alive]⟩

end CountedAbove

/-- The pid that a call of `waitpid` waits for. -/
def Call.waitedPid : Call → Option ℤ
  | .waitpid pid _ _ => some pid
  | _ => Option.none

/-- The step does not fail a `fork` while somebody sleeps in `waitpid` on its new slot, and
`waitpid` does not overflow the `cur_index` of the slot it goes to sleep on. -/
def KeepsEmbryo (s : PTable) : Step → Prop
  | .forkFail i => ∀ np, (s.call i).embryo = some np → ∀ q, ¬ s.WaitsFor np q
  | .waitpid _ pid _ _ => ∀ p, (s.proc p).pid = pid → (s.proc p).curIndex < 2 ^ 31 - 1
  | .dispatch i => ∀ p, (s.call i).waitedPid = some (s.proc p).pid →
      (s.proc p).curIndex < 2 ^ 31 - 1
  | _ => True

instance (s : PTable) (l : Step) : Decidable (KeepsEmbryo s l) :=
  match l with
  | .forkFail i => inferInstanceAs (Decidable (∀ np, (s.call i).embryo = some np →
      ∀ q, ¬ s.WaitsFor np q))
  | .waitpid _ pid _ _ => inferInstanceAs (Decidable (∀ p, (s.proc p).pid = pid →
      (s.proc p).curIndex < 2 ^ 31 - 1))
  | .dispatch i => inferInstanceAs (Decidable (∀ p, (s.call i).waitedPid = some (s.proc p).pid →
      (s.proc p).curIndex < 2 ^ 31 - 1))
  | .yield _ | .sleep _ _ | .wakeup _ | .forkAlloc _ | .forkLink _ | .forkDone _ | .exit _ _
  | .wait _ _ | .kill _ _ | .setprio _ _ | .trap _ => inferInstanceAs (Decidable True)

lemma CountedAbove.step (h : CountedAbove s) (ha : Asleep s) (hf : Family s)
    (hk : KeepsEmbryo s l) (hs : Stepped s l s' e) : CountedAbove s' := by
  cases hs with
  | resume i hs hc => exact h.wakeFrom hs
  | resumeWait i st hs hc hw => exact (h.wakeFrom hs).waited (by simp [PTable.Free]) hw
  | resumeWaitpid i pid st q hs hc hw =>
      have hmax : ∀ p, (s.proc p).pid = pid → (s.proc p).curIndex < 2 ^ 31 - 1 :=
        fun p hp => hk p (by rw [hc, hp]; rfl)
      exact (h.wakeFrom hs).waitpided (by simp [PTable.Free]) (by grind) hw
  | sleep i chan hi => exact h.sleepOn hi rfl
  | wait i st hi hw => exact h.waited hi hw
  | waitpid i pid st op hi hw => exact h.waitpided hi hk hw
  | exit i st hi hne hx => exact h.exit ha hi hx
  | alloc i np hi hnp =>
      have hsub : ∀ p q, ((takeSlot np s).setCall i (.fork np false)).WaitsFor p q →
          s.WaitsFor p q := by
        grind [PTable.WaitsFor, Call.target]
      refine h.congr hsub fun p => ?_
      by_cases hp : p = np
      · subst hp
        exact Or.inl ⟨fun q hq => (h.alive p q (hsub p q hq)).1 hnp, by simp⟩
      · exact Or.inr ⟨by grind, by grind⟩
  | forkFail i np hs hc =>
      have hsub : ∀ p q, ((s.modifyProc np fun p => { p with state := UNUSED }).setCall i
          .none).WaitsFor p q → s.WaitsFor p q := by
        grind [PTable.WaitsFor, Call.target]
      have hno : ∀ q, ¬ s.WaitsFor np q := hk np (by rw [hc]; rfl)
      refine h.congr hsub fun p => ?_
      by_cases hp : p = np
      · subst hp
        exact Or.inl ⟨fun q hq => hno q (hsub p q hq), by simp [Alive]⟩
      · exact Or.inr ⟨by grind, by grind⟩
  | forkLink i np hs hc =>
      exact h.congr (by grind [PTable.WaitsFor, Call.target]) fun p => Or.inr
        ⟨by grind, by grind⟩
  | forkDone i np hs hc =>
      have hnp := (hf.fork i np true hc).1
      exact h.congr (by grind [PTable.WaitsFor, Call.target]) fun p => Or.inr
        ⟨by grind, by grind [Alive]⟩
  | _ =>
      exact h.congr (by grind [PTable.WaitsFor]) fun p => Or.inr
        ⟨by grind, by grind [Alive, PTable.Free]⟩

lemma PRun.countedAbove {es : List Event} (h : PRun KeepsEmbryo es s) : CountedAbove s := by
  induction h with
  | start =>
      have hno : ∀ p q, ¬ userinit.WaitsFor p q := by
        simp [PTable.WaitsFor, userinit_call, Call.target]
      refine ⟨fun p _ => ?_, fun p q hq => absurd hq (hno p q)⟩
      have hempty : userinit.waiters p = ∅ :=
        Finset.eq_empty_of_forall_notMem fun q hq => hno p q (mem_waiters.1 hq)
      rw [hempty, userinit_proc]
      split_ifs <;> simp
  | step hr hk hs ih => exact ih.step (PRun.asleep hr) (PRun.family hr) hk (step_stepped hs)

/-! ## Nobody sleeps in `wait` while a child is a zombie -/

/-- No process asleep in `wait` has a child that has exited. -/
def NoLostChild (s : PTable) : Prop :=
  ∀ q st, (s.proc q).state = SLEEPING → s.call q = .wait st → ∀ z, ¬ s.ZombieChild q z

namespace NoLostChild

/-- It is enough that nobody has gone to sleep in `wait` and there is no new zombie child. -/
lemma congr (h : NoLostChild s) (hsleep : ∀ q st, (s'.proc q).state = SLEEPING →
      s'.call q = .wait st → (s.proc q).state = SLEEPING ∧ s.call q = .wait st)
    (hz : ∀ q z, s'.ZombieChild q z → s.ZombieChild q z) : NoLostChild s' := by
  intro q st hq hc z hzq
  obtain ⟨hq', hc'⟩ := hsleep q st hq hc
  exact h q st hq' hc' z (hz q z hzq)

lemma wakeFrom (h : NoLostChild s) : NoLostChild (wakeFrom i s) :=
  h.congr (by grind) (by grind [PTable.ZombieChild])

lemma reap (h : NoLostChild s) : NoLostChild (reap p s) :=
  h.congr (by grind) (by grind [PTable.ZombieChild])

lemma waited (h : NoLostChild s) (hi : s.Free i) (hw : Waited s i st s' e) :
    NoLostChild s' := by
  cases hw with
  | reap q hq => exact h.reap
  | fail => exact h
  | sleep hz =>
      intro q st' hq hc z hzq
      by_cases hqi : q = i
      · subst hqi
        exact hz z (by grind [PTable.ZombieChild, PTable.Free])
      · exact h q st' (by grind) (by grind) z (by grind [PTable.ZombieChild])

lemma waitpided (h : NoLostChild s) (hw : Waitpided s i pid st s' e) : NoLostChild s' := by
  cases hw with
  | reap q _ hq => exact h.reap
  | stale q => exact h
  | fail => exact h
  | sleep q => exact h.congr (by grind) (by grind [PTable.ZombieChild])

/-- A process that exits wakes its parent, and for the zombies it leaves behind it wakes
init. -/
lemma exit {st : ℤ} (h : NoLostChild s) (ha : Asleep s) (hf : Family s) (hi : s.Free i)
    (hx : Exited s i st s') : NoLostChild s' := by
  obtain ⟨hcall, -, x, -, -, hproc⟩ := hx
  intro q st' hq hc z hz
  have hqi : q ≠ i := by grind
  have hq₀ : (s.proc q).state = SLEEPING := by grind
  have hc₀ : s.call q = .wait st' := by grind
  have hchan := ha.wait q st' hq₀ hc₀
  have hnot : ¬ s.ExitWakes i (s.proc q).chan := by grind
  have hparent := hf.neSelf i
  by_cases hzi : z = i
  · -- the process that exits is a child of `q`
    subst hzi
    refine hnot (Or.inl ?_)
    have : (s.proc z).parent = some q := by grind [PTable.ZombieChild]
    rw [hchan, this, Option.map_some]
  · by_cases hpar : (s.proc z).parent = some i
    · -- a zombie passed on to init
      have hzi' : s.ZombieChild i z := by grind [PTable.ZombieChild]
      refine hnot (Or.inr (Or.inr ⟨⟨z, hzi'⟩, ?_⟩))
      have : q = initproc := by grind [PTable.ZombieChild]
      rw [hchan, this]
    · exact h q st' hq₀ hc₀ z (by grind [PTable.ZombieChild])

lemma step (h : NoLostChild s) (ha : Asleep s) (hf : Family s) (hs : Stepped s l s' e) :
    NoLostChild s' := by
  cases hs with
  | resume i hs hc => exact h.wakeFrom
  | resumeWait i st hs hc hw => exact h.wakeFrom.waited (by simp [PTable.Free]) hw
  | resumeWaitpid i pid st q hs hc hw => exact h.wakeFrom.waitpided hw
  | wait i st hi hw => exact h.waited hi hw
  | waitpid i pid st op hi hw => exact h.waitpided hw
  | exit i st hi hne hx => exact h.exit ha hf hi hx
  | forkLink i np hs hc =>
      have hnp := (hf.fork i np false hc).1
      exact h.congr (by grind) (by grind [PTable.ZombieChild])
  | _ => exact h.congr (by grind) (by grind [PTable.ZombieChild])

end NoLostChild

lemma PRun.noLostChild {ok : PTable → Step → Prop} {es : List Event} (h : PRun ok es s) :
    NoLostChild s := by
  induction h with
  | start => simp [NoLostChild, userinit_call]
  | step hr hk hs ih => exact ih.step (PRun.asleep hr) (PRun.family hr) (step_stepped hs)

/-- **No stuck zombie and no lost wakeup.**  In every run whose forks do not fail while
somebody waits for the new process, every process whose parent is set has a parent that is
init or has not exited, nobody sleeps in `wait` with a child that has exited, and nobody
sleeps in `waitpid` on a slot that is free or whose process has exited. -/
theorem no_lost_wakeup {es : List Event} (h : PRun KeepsEmbryo es s) :
    (∀ p, (s.proc p).state ≠ UNUSED → p ≠ initproc →
      ((s.proc p).state = EMBRYO → ∃ i, s.call i = .fork p true) →
      ∃ q, (s.proc p).parent = some q ∧
        (q = initproc ∨ (s.proc q).state ≠ UNUSED ∧ (s.proc q).state ≠ ZOMBIE)) ∧
    (∀ q st, (s.proc q).state = SLEEPING → s.call q = .wait st →
      ∀ z, (s.proc z).parent = some q → (s.proc z).state ≠ ZOMBIE) ∧
    (∀ q pid st p, (s.proc q).state = SLEEPING → s.call q = .waitpid pid st p →
      (s.proc p).state ≠ ZOMBIE ∧ (s.proc p).state ≠ UNUSED) := by
  have hf := PRun.family h
  refine ⟨fun p hu hne hlinked => ?_, fun q st hq hc z hpar hz => ?_, fun q pid st p hq hc => ?_⟩
  · obtain ⟨q, hq⟩ : ∃ q, (s.proc p).parent = some q := by
      by_cases hemb : (s.proc p).state = EMBRYO
      · obtain ⟨i, hi⟩ := hlinked hemb
        exact ⟨i, hf.linked i p hi⟩
      · exact Option.ne_none_iff_exists'.1 (hf.hasParent p hu hemb hne)
    refine ⟨q, hq, Or.inr ?_⟩
    rcases hf.live p q hq with hl | hl | hl <;> simp [hl]
  · exact PRun.noLostChild h q st hq hc z ⟨hpar, hz⟩
  · exact ((PRun.countedAbove h).alive p q ⟨hq, by rw [hc]; rfl⟩).symm

/-- Process 2 sleeps in `waitpid` on slot 2, and that slot is in use. -/
theorem no_lost_wakeup_sibling : ∃ es s, PRun KeepsEmbryo es s ∧
    (s.proc 1).state = SLEEPING ∧ s.call 1 = .waitpid 3 0 2 ∧
    (s.proc 2).state ≠ ZOMBIE ∧ (s.proc 2).state ≠ UNUSED := by
  obtain ⟨es, s, h, hstate, hcall⟩ := PRun.of_steps KeepsEmbryo
    (fun _ s => (s.proc 1).state = SLEEPING ∧ s.call 1 = .waitpid 3 0 2) waitForSibling
    (by decide +kernel)
  exact ⟨es, s, h, hstate, hcall, (no_lost_wakeup h).2.2 1 3 0 2 hstate hcall⟩

/-- Init forks process 2, which runs, and begins a second `fork`.  Process 2 calls `waitpid`
for the pid 3 that the new slot has got already, and then the `fork` fails for want of
memory: process 2 sleeps on a slot that is free. -/
theorem waitpid_sleeps_on_unused : ∃ es s, PRun (fun _ _ => True) es s ∧
    (s.proc 1).state = SLEEPING ∧ s.call 1 = .waitpid 3 0 2 ∧ (s.proc 2).state = UNUSED := by
  exact PRun.of_steps (fun _ _ => True)
    (fun _ s => (s.proc 1).state = SLEEPING ∧ s.call 1 = .waitpid 3 0 2 ∧
      (s.proc 2).state = UNUSED)
    [.dispatch 0, .forkAlloc 0, .forkLink 0, .forkDone 0, .dispatch 1, .forkAlloc 0,
      .waitpid 1 3 0 0, .forkFail 0] (by decide +kernel)

end Counting

end Xv6
