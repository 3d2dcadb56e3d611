import Xv6.Proc
import Mathlib.Data.Fintype.Basic
import Mathlib.Tactic.SplitIfs
import Mathlib.Tactic.Ring

/-!
# What a step of the process table does

The loops of `exit` are brought into closed form, and `step_stepped` says once what every
step changes: the invariants of the later modules are case analyses over `Stepped`.
-/

namespace Xv6

open Lib ProcState

/-! ## Updates -/

section Updates

variable {s : PTable} {i j p : Slot} {f : Proc → Proc} {c : Call} {chan : Option Chan}

namespace PTable

@[simp, grind =] lemma modifyProc_proc :
    (s.modifyProc i f).proc j = if j = i then f (s.proc j) else s.proc j := by
  by_cases h : j = i
  · subst h
    simp [modifyProc]
  · simp [modifyProc, h]

@[simp, grind =] lemma modifyProc_call : (s.modifyProc i f).call j = s.call j := rfl
@[simp, grind =] lemma modifyProc_nextpid : (s.modifyProc i f).nextpid = s.nextpid := rfl
@[simp, grind =] lemma setCall_proc : (s.setCall i c).proc j = s.proc j := rfl
@[simp, grind =] lemma setCall_nextpid : (s.setCall i c).nextpid = s.nextpid := rfl

@[simp, grind =] lemma setCall_call :
    (s.setCall i c).call j = if j = i then c else s.call j := by
  simp [setCall, Function.update_apply]

end PTable

@[simp, grind =] lemma wakeup1_proc : (wakeup1 chan s).proc p = (s.proc p).wake chan := rfl
@[simp, grind =] lemma wakeup1_call : (wakeup1 chan s).call p = s.call p := rfl

/-- A woken process differs in its state only. -/
@[grind =] lemma Proc.wake_eq (q : Proc) : q.wake chan = { q with
    state := if q.state = SLEEPING ∧ q.chan = chan then RUNNABLE else q.state } := by
  unfold Proc.wake
  split_ifs <;> rfl

@[simp, grind =] lemma wakeFrom_proc : (wakeFrom i s).proc j =
    if j = i then { s.proc j with state := RUNNING, chan := none } else s.proc j := by
  simp [wakeFrom]

@[simp, grind =] lemma wakeFrom_call :
    (wakeFrom i s).call j = if j = i then .none else s.call j := by
  simp [wakeFrom]

@[simp, grind =] lemma sleepOn_proc {ch : Chan} : (sleepOn i ch c s).proc j =
    if j = i then { s.proc j with chan := some ch, state := SLEEPING } else s.proc j := by
  simp [sleepOn]

@[simp, grind =] lemma sleepOn_call {ch : Chan} :
    (sleepOn i ch c s).call j = if j = i then c else s.call j := by
  simp [sleepOn]

@[simp, grind =] lemma reap_proc : (reap p s).proc j =
    if j = p then { s.proc j with state := UNUSED, pid := 0, parent := none, killed := false }
    else s.proc j := by
  simp [reap]

@[simp, grind =] lemma takeSlot_proc : (takeSlot p s).proc j =
    if j = p then { s.proc j with prio := 1, curIndex := 0, state := EMBRYO, pid := s.nextpid }
    else s.proc j := by
  simp only [takeSlot, PTable.modifyProc_proc]

@[simp, grind =] lemma takeSlot_call : (takeSlot p s).call j = s.call j := rfl
@[simp, grind =] lemma takeSlot_nextpid : (takeSlot p s).nextpid = incInt s.nextpid := rfl
@[simp, grind =] lemma reap_call : (reap p s).call j = s.call j := rfl

end Updates

/-! ## Counters -/

section Counters

variable {x : ℤ} {n : ℕ}

lemma incInt_eq (hlow : -2 ^ 31 ≤ x) (hhigh : x < 2 ^ 31 - 1) : incInt x = x + 1 := by
  rw [incInt, Int.bmod_def]
  split <;> omega

lemma le_incInt (x : ℤ) : -2 ^ 31 ≤ incInt x := by
  rw [incInt, Int.bmod_def]
  split <;> omega

lemma decInt_eq (hlow : -2 ^ 31 < x) (hhigh : x < 2 ^ 31) : decInt x = x - 1 := by
  rw [decInt, Int.bmod_def]
  split <;> omega

lemma le_decInt (x : ℤ) : -2 ^ 31 ≤ decInt x := by
  rw [decInt, Int.bmod_def]
  split <;> omega

lemma le_decInt_iterate (h : -2 ^ 31 ≤ x) (n : ℕ) : -2 ^ 31 ≤ decInt^[n] x := by
  cases n with
  | zero => exact h
  | succ n =>
      rw [Function.iterate_succ_apply']
      exact le_decInt _

lemma decInt_iterate_eq (hlow : -2 ^ 31 ≤ x - n) (hhigh : x < 2 ^ 31) : decInt^[n] x = x - n := by
  induction n with
  | zero => simp
  | succ n ih =>
      rw [Function.iterate_succ_apply', ih (by push_cast at hlow; omega),
        decInt_eq (by push_cast at hlow; omega) (by omega)]
      push_cast
      ring

end Counters

/-! ## The loops of `exit` -/

section Exit

variable {s s' : PTable} {i c p : Slot} {st : ℤ}

/-- The process in slot `p` sleeps on the slot `c`. -/
def PTable.SleepsOn (s : PTable) (c p : Slot) : Prop :=
  (s.proc p).state = SLEEPING ∧ (s.proc p).chan = some (.proc c)

instance (s : PTable) (c p : Slot) : Decidable (s.SleepsOn c p) :=
  inferInstanceAs (Decidable (_ ∧ _))

lemma wakeuppidAt_of_not (h : ¬ s.SleepsOn c p) : wakeuppidAt c s p = s := if_neg h

lemma wakeuppidAt_call : (wakeuppidAt c s p).call = s.call := by
  unfold wakeuppidAt
  split_ifs <;> rfl

lemma wakeuppidAt_nextpid : (wakeuppidAt c s p).nextpid = s.nextpid := by
  unfold wakeuppidAt
  split_ifs <;> rfl

/-- One turn of the loop of `wakeuppid` that finds a sleeper. -/
lemma wakeuppidAt_proc (h : s.SleepsOn c p) (q : Slot) :
    (wakeuppidAt c s p).proc q = { s.proc q with
      state := if q = p then RUNNABLE else (s.proc q).state
      curIndex := if q = c then decInt (s.proc q).curIndex else (s.proc q).curIndex } := by
  have heq : wakeuppidAt c s p = (s.modifyProc p fun q => { q with state := RUNNABLE }).modifyProc c
      fun q => { q with curIndex := decInt q.curIndex } := if_pos h
  rw [heq, PTable.modifyProc_proc, PTable.modifyProc_proc]
  split_ifs <;> rfl

/-- The slots that are still to come sleep on `c` as before. -/
lemma wakeuppidAt_sleepsOn {q : Slot} (h : s.SleepsOn c p) (hq : q ≠ p) :
    (wakeuppidAt c s p).SleepsOn c q ↔ s.SleepsOn c q := by
  simp only [PTable.SleepsOn, wakeuppidAt_proc h, if_neg hq]

/-- The loop of `wakeuppid` over some of the slots wakes the sleepers among them and counts
them off. -/
lemma foldl_wakeuppidAt_proc (l : List Slot) (hl : l.Nodup) (s : PTable) (p : Slot) :
    (l.foldl (wakeuppidAt c) s).proc p = { s.proc p with
      state := if p ∈ l ∧ s.SleepsOn c p then RUNNABLE else (s.proc p).state
      curIndex := if p = c then decInt^[l.countP fun q => s.SleepsOn c q] (s.proc p).curIndex
        else (s.proc p).curIndex } := by
  induction l generalizing s with
  | nil => simp
  | cons a l ih =>
      obtain ⟨ha, hl⟩ := List.nodup_cons.1 hl
      rw [List.foldl_cons]
      by_cases hs : s.SleepsOn c a
      · have hcount : (l.countP fun q => (wakeuppidAt c s a).SleepsOn c q) =
            l.countP fun q => s.SleepsOn c q :=
          List.countP_congr fun q hq => by
            simpa using wakeuppidAt_sleepsOn hs (fun h => ha (h ▸ hq))
        rw [ih hl, hcount, List.countP_cons_of_pos (by simpa using hs), wakeuppidAt_proc hs,
          Function.iterate_succ_apply]
        by_cases hpa : p = a
        · subst hpa
          by_cases hpc : p = c
          · subst hpc
            simp [hs, ha]
          · simp [hs, ha, hpc]
        · have hsame := wakeuppidAt_sleepsOn hs hpa
          by_cases hpc : p = c
          · subst hpc
            simp [hpa, hsame]
          · simp [hpa, hpc, hsame]
      · rw [wakeuppidAt_of_not hs, ih hl, List.countP_cons_of_neg (by simpa using hs)]
        by_cases hpa : p = a
        · subst hpa
          simp [hs]
        · simp [hpa]

lemma foldl_wakeuppidAt_frame (l : List Slot) (s : PTable) :
    (l.foldl (wakeuppidAt c) s).call = s.call ∧
      (l.foldl (wakeuppidAt c) s).nextpid = s.nextpid := by
  induction l generalizing s with
  | nil => exact ⟨rfl, rfl⟩
  | cons a l ih =>
      obtain ⟨hcall, hnext⟩ := ih (wakeuppidAt c s a)
      exact ⟨hcall.trans wakeuppidAt_call, hnext.trans wakeuppidAt_nextpid⟩

/-- The number of processes that sleep on a slot. -/
def PTable.sleepers (s : PTable) (c : Slot) : ℕ := (Finset.univ.filter (s.SleepsOn c)).card

lemma countP_slots (P : Slot → Prop) [DecidablePred P] :
    slots.countP (fun p => P p) = (Finset.univ.filter P).card := by
  rw [List.countP_eq_length_filter]
  rfl

lemma mem_slots (p : Slot) : p ∈ slots := List.mem_finRange p

lemma nodup_slots : slots.Nodup := List.nodup_finRange NPROC

/-- `wakeuppid` wakes all that sleep on the slot and takes their number off `curIndex`. -/
lemma wakeuppid_proc (c : Slot) (s : PTable) (p : Slot) :
    (wakeuppid c s).proc p = { s.proc p with
      state := if s.SleepsOn c p then RUNNABLE else (s.proc p).state
      curIndex := if p = c then decInt^[s.sleepers c] (s.proc p).curIndex
        else (s.proc p).curIndex } := by
  have h := foldl_wakeuppidAt_proc (c := c) slots nodup_slots s p
  simpa [mem_slots, countP_slots, PTable.sleepers, wakeuppid] using h

@[simp] lemma wakeuppid_call : (wakeuppid c s).call = s.call :=
  (foldl_wakeuppidAt_frame slots s).1

@[simp] lemma wakeuppid_nextpid : (wakeuppid c s).nextpid = s.nextpid :=
  (foldl_wakeuppidAt_frame slots s).2

/-- Nobody sleeps on the slot after `wakeuppid`. -/
lemma not_sleepsOn_wakeuppid : ¬ (wakeuppid c s).SleepsOn c p := by
  rintro ⟨hstate, hchan⟩
  rw [wakeuppid_proc] at hstate hchan
  by_cases hs : s.SleepsOn c p
  · exact absurd hstate (by simp [hs])
  · exact hs ⟨by simpa [hs] using hstate, hchan⟩

/-- Without sleepers `wakeuppid` does nothing. -/
lemma wakeuppid_of_none (h : ∀ p, ¬ s.SleepsOn c p) : wakeuppid c s = s := by
  unfold wakeuppid
  induction slots with
  | nil => rfl
  | cons a l ih => rw [List.foldl_cons, wakeuppidAt_of_not (h a), ih]

/-- The loop over `cur_index` never ends when `cur_index` is positive and nobody sleeps. -/
lemma wakeuppidLoop_eq_none (h : ∀ p, ¬ s.SleepsOn i p) (hpos : 0 < (s.proc i).curIndex)
    (n : ℕ) : wakeuppidLoop n i s = none := by
  induction n with
  | zero => rfl
  | succ n ih => rw [wakeuppidLoop, if_pos hpos, wakeuppid_of_none h, ih]

/-- If the loop over `cur_index` ends, it ends at the second test. -/
lemma wakeuppidLoop_two {n : ℕ} (h : wakeuppidLoop n i s = some s') :
    wakeuppidLoop 2 i s = some s' := by
  cases n with
  | zero => exact absurd h (by simp [wakeuppidLoop])
  | succ n =>
      rw [wakeuppidLoop] at h ⊢
      split_ifs at h ⊢ with hpos
      · have hnot : ¬ 0 < ((wakeuppid i s).proc i).curIndex := by
          intro hpos'
          rw [wakeuppidLoop_eq_none (fun p => not_sleepsOn_wakeuppid) hpos'] at h
          exact absurd h (by simp)
        rw [wakeuppidLoop, if_neg hnot]
        cases n with
        | zero => exact absurd h (by simp [wakeuppidLoop])
        | succ n => rwa [wakeuppidLoop, if_neg hnot] at h
      · exact h

/-- The loop over `cur_index` ends if it counts no more than the sleepers. -/
lemma wakeuppidLoop_ends (h : (s.proc i).curIndex ≤ s.sleepers i) :
    ∃ n s', wakeuppidLoop n i s = some s' := by
  have hcard : s.sleepers i ≤ NPROC := by
    simpa [PTable.sleepers] using Finset.card_le_univ (Finset.univ.filter (s.SleepsOn i))
  have hn := NPROC_eq
  by_cases hpos : 0 < (s.proc i).curIndex
  · have hend : ((wakeuppid i s).proc i).curIndex ≤ 0 := by
      rw [wakeuppid_proc]
      simp only [if_true]
      rw [decInt_iterate_eq (by omega) (by omega)]
      omega
    refine ⟨2, wakeuppid i s, ?_⟩
    rw [wakeuppidLoop, if_pos hpos, wakeuppidLoop, if_neg (by omega)]
  · exact ⟨1, s, by rw [wakeuppidLoop, if_neg hpos]⟩

/-- After the loop over `cur_index` the processes that slept on the slot are awake, if there
was anything to count down. -/
lemma wakeuppidLoop_spec (h : wakeuppidLoop 2 i s = some s') :
    s'.call = s.call ∧ s'.nextpid = s.nextpid ∧ ∃ x, x ≤ 0 ∧
      (-2 ^ 31 ≤ (s.proc i).curIndex → -2 ^ 31 ≤ x) ∧ ∀ p, s'.proc p = { s.proc p with
        state := if 0 < (s.proc i).curIndex ∧ s.SleepsOn i p then RUNNABLE else (s.proc p).state
        curIndex := if p = i then x else (s.proc p).curIndex } := by
  rw [wakeuppidLoop] at h
  split_ifs at h with hpos
  · rw [wakeuppidLoop] at h
    split_ifs at h with hpos'
    · exact absurd h (by simp [wakeuppidLoop])
    · obtain rfl : wakeuppid i s = s' := by simpa using h
      refine ⟨wakeuppid_call, wakeuppid_nextpid, _, not_lt.1 hpos', fun hlow => ?_, fun p => ?_⟩
      · rw [wakeuppid_proc, if_pos rfl]
        exact le_decInt_iterate hlow _
      rw [wakeuppid_proc]
      by_cases hp : p = i
      · subst hp
        simp [hpos, wakeuppid_proc]
      · simp [hpos, hp]
  · obtain rfl : s = s' := by simpa using h
    refine ⟨rfl, rfl, _, not_lt.1 hpos, id, fun p => ?_⟩
    by_cases hp : p = i
    · subst hp
      simp [hpos]
    · simp [hpos, hp]

/-- A child that has exited. -/
def PTable.ZombieChild (s : PTable) (i z : Slot) : Prop :=
  (s.proc z).parent = some i ∧ (s.proc z).state = ZOMBIE

instance (s : PTable) (i z : Slot) : Decidable (s.ZombieChild i z) :=
  inferInstanceAs (Decidable (_ ∧ _))

/-- Some child has exited. -/
def PTable.LeavesZombie (s : PTable) (i : Slot) : Prop := ∃ z, s.ZombieChild i z

instance (s : PTable) (i : Slot) : Decidable (s.LeavesZombie i) :=
  inferInstanceAs (Decidable (∃ z, s.ZombieChild i z))

lemma reparentAt_of_not (h : (s.proc p).parent ≠ some i) : reparentAt i s p = s := if_neg h

/-- One turn of the loop over the children that finds a child. -/
lemma reparentAt_proc (h : (s.proc p).parent = some i) (q : Slot) :
    (reparentAt i s p).proc q = { s.proc q with
      parent := if q = p then some initproc else (s.proc q).parent
      state := if s.ZombieChild i p ∧ s.SleepsOn initproc q then RUNNABLE
        else (s.proc q).state } := by
  have hz : s.ZombieChild i p ↔ (s.proc p).state = ZOMBIE := and_iff_right h
  unfold reparentAt
  rw [if_pos h]
  by_cases hzp : (s.proc p).state = ZOMBIE
  · by_cases hq : q = p
    · subst hq
      simp [hz, hzp, Proc.wake_eq, PTable.SleepsOn]
    · simp [hz, hzp, hq, Proc.wake_eq, PTable.SleepsOn]
  · by_cases hq : q = p
    · subst hq
      simp [hz, hzp]
    · simp [hz, hzp, hq]

lemma reparentAt_frame :
    (reparentAt i s p).call = s.call ∧ (reparentAt i s p).nextpid = s.nextpid := by
  simp only [reparentAt]
  split_ifs <;> exact ⟨rfl, rfl⟩

/-- The children that are still to come are what they were. -/
lemma reparentAt_zombieChild {z : Slot} (h : (s.proc p).parent = some i) (hz : z ≠ p) :
    (reparentAt i s p).ZombieChild i z ↔ s.ZombieChild i z := by
  have hproc := reparentAt_proc h z
  grind [PTable.ZombieChild, PTable.SleepsOn]

lemma reparentAt_sleepsOn {q : Slot} (h : (s.proc p).parent = some i) :
    (reparentAt i s p).SleepsOn initproc q ↔ s.SleepsOn initproc q ∧ ¬ s.ZombieChild i p := by
  have hproc := reparentAt_proc h q
  grind [PTable.SleepsOn]

/-- The loop over some of the slots passes the children among them to init, and wakes init if
one of them has exited. -/
lemma foldl_reparentAt_proc (l : List Slot) (hl : l.Nodup) (s : PTable) (q : Slot) :
    (l.foldl (reparentAt i) s).proc q = { s.proc q with
      parent := if q ∈ l ∧ (s.proc q).parent = some i then some initproc else (s.proc q).parent
      state := if (∃ z ∈ l, s.ZombieChild i z) ∧ s.SleepsOn initproc q then RUNNABLE
        else (s.proc q).state } := by
  induction l generalizing s with
  | nil => simp
  | cons a l ih =>
      obtain ⟨ha, hl⟩ := List.nodup_cons.1 hl
      rw [List.foldl_cons]
      by_cases hp : (s.proc a).parent = some i
      · have hex : (∃ z ∈ l, (reparentAt i s a).ZombieChild i z) ↔ ∃ z ∈ l, s.ZombieChild i z := by
          refine exists_congr fun z => and_congr_right fun hz => ?_
          exact reparentAt_zombieChild hp (fun h => ha (h ▸ hz))
        have hsl := reparentAt_sleepsOn (q := q) hp
        rw [ih hl]
        simp only [hex, hsl, reparentAt_proc hp, List.mem_cons, exists_eq_or_imp]
        by_cases hqa : q = a
        · subst hqa
          by_cases hz : s.ZombieChild i q <;> by_cases hs : s.SleepsOn initproc q <;>
            simp [ha, hp, hz, hs]
        · by_cases hz : s.ZombieChild i a <;> by_cases hs : s.SleepsOn initproc q <;>
            simp [hqa, hz, hs]
      · have hz : ¬ s.ZombieChild i a := fun h => hp h.1
        rw [reparentAt_of_not hp, ih hl]
        simp only [List.mem_cons, exists_eq_or_imp, hz, false_or]
        by_cases hqa : q = a
        · subst hqa
          simp [hp]
        · simp [hqa]

lemma reparent_proc (i : Slot) (s : PTable) (q : Slot) :
    (slots.foldl (reparentAt i) s).proc q = { s.proc q with
      parent := if (s.proc q).parent = some i then some initproc else (s.proc q).parent
      state := if s.LeavesZombie i ∧ s.SleepsOn initproc q then RUNNABLE
        else (s.proc q).state } := by
  have hz : (∃ z ∈ slots, s.ZombieChild i z) ↔ s.LeavesZombie i := by
    simp [mem_slots, PTable.LeavesZombie]
  rw [foldl_reparentAt_proc slots nodup_slots]
  simp only [hz]
  simp only [mem_slots, true_and]

lemma foldl_reparentAt_frame (l : List Slot) (s : PTable) :
    (l.foldl (reparentAt i) s).call = s.call ∧
      (l.foldl (reparentAt i) s).nextpid = s.nextpid := by
  induction l generalizing s with
  | nil => exact ⟨rfl, rfl⟩
  | cons a l ih =>
      obtain ⟨hcall, hnext⟩ := ih (reparentAt i s a)
      exact ⟨hcall.trans reparentAt_frame.1, hnext.trans reparentAt_frame.2⟩

/-- The channels that `exit` wakes: the parent's slot, the own one if `cur_index` says that
somebody waits there, and init's if a child that has exited is passed to it. -/
def PTable.ExitWakes (s : PTable) (i : Slot) (chan : Option Chan) : Prop :=
  chan = (s.proc i).parent.map .proc ∨ (0 < (s.proc i).curIndex ∧ chan = some (.proc i)) ∨
    (s.LeavesZombie i ∧ chan = some (.proc initproc))

instance (s : PTable) (i : Slot) (chan : Option Chan) : Decidable (s.ExitWakes i chan) :=
  inferInstanceAs (Decidable (_ ∨ _ ∨ _))

/-- What the critical section of `exit` has done. -/
structure Exited (s : PTable) (i : Slot) (st : ℤ) (s' : PTable) : Prop where
  call : ∀ p, s'.call p = if p = i then .exit else s.call p
  nextpid : s'.nextpid = s.nextpid
  proc : ∃ x, x ≤ 0 ∧ (-2 ^ 31 ≤ (s.proc i).curIndex → -2 ^ 31 ≤ x) ∧
    ∀ p, s'.proc p = { s.proc p with
      state := if p = i then ZOMBIE
        else if (s.proc p).state = SLEEPING ∧ s.ExitWakes i (s.proc p).chan then RUNNABLE
        else (s.proc p).state
      parent := if (s.proc p).parent = some i then some initproc else (s.proc p).parent
      est := if p = i then st else (s.proc p).est
      curIndex := if p = i then x else (s.proc p).curIndex }

lemma exitStart_proc (st : ℤ) (hi : (s.proc i).state = RUNNING) (p : Slot) :
    (exitStart i st s).proc p = { s.proc p with
      state := if (s.proc p).state = SLEEPING ∧ (s.proc p).chan = (s.proc i).parent.map .proc
        then RUNNABLE else (s.proc p).state
      est := if p = i then st else (s.proc p).est } := by
  unfold exitStart
  by_cases hp : p = i
  · subst hp
    simp [Proc.wake_eq, hi]
  · simp [Proc.wake_eq, hp]

lemma exitSection_spec (hi : (s.proc i).state = RUNNING) (h : exitSection 2 i st s = some s') :
    Exited s i st s' := by
  obtain ⟨s₂, hloop, rfl⟩ := Option.map_eq_some_iff.1 h
  obtain ⟨hcall₂, hnext₂, x, hx, hlow, hproc₂⟩ := wakeuppidLoop_spec hloop
  have hfold := foldl_reparentAt_frame (i := i) slots s₂
  have hproc₁ := exitStart_proc st hi
  refine ⟨fun p => ?_, ?_, x, hx, by simpa [hproc₁ i] using hlow, fun p => ?_⟩
  · rw [exitEnd, PTable.setCall_call, PTable.modifyProc_call, hfold.1, hcall₂]
    rfl
  · rw [exitEnd, PTable.setCall_nextpid, PTable.modifyProc_nextpid, hfold.2, hnext₂]
    rfl
  · have hproc₃ := reparent_proc i s₂ p
    -- the loops before have changed neither the parents nor which processes have exited
    have hz : s₂.LeavesZombie i ↔ s.LeavesZombie i := by
      refine exists_congr fun z => ?_
      grind [PTable.ZombieChild, PTable.SleepsOn]
    rw [exitEnd, PTable.setCall_proc, PTable.modifyProc_proc]
    grind [PTable.SleepsOn, PTable.ExitWakes]

end Exit

/-! ## The scans of `wait` and `waitpid` -/

section Scans

variable {s : PTable} {i p : Slot} {pid : ℤ} {o : Outcome} {ps : List Slot} {found : Bool}

/-- What the outcomes of the scan of `wait` say about the table. -/
def WaitOutcome (s : PTable) (i : Slot) : Outcome → Prop
  | .reap p => s.ZombieChild i p
  | .stale _ => False
  | .fail => True
  | .sleep p => p = i ∧ ∀ z, ¬ s.ZombieChild i z

lemma waitScan_spec (i : Slot) (s : PTable) : WaitOutcome s i (waitScan i s) := by
  unfold waitScan
  cases h : slots.find? fun p =>
      decide ((s.proc p).parent = some i ∧ (s.proc p).state = ZOMBIE) with
  | some p =>
      have := List.find?_some h
      simpa [WaitOutcome, PTable.ZombieChild] using this
  | none =>
      have hnone : ∀ z, ¬ s.ZombieChild i z := fun z hz =>
        List.find?_eq_none.1 h z (mem_slots z) (by simpa [PTable.ZombieChild] using hz)
      dsimp only
      split_ifs
      · trivial
      · exact ⟨rfl, hnone⟩

/-- What the outcomes of the scan of `waitpid` say about the table. -/
def WaitpidOutcome (s : PTable) (pid : ℤ) : Outcome → Prop
  | .reap p => (s.proc p).pid = pid ∧ (s.proc p).state = ZOMBIE
  | .stale p => (s.proc p).pid = pid ∧ (s.proc p).state = UNUSED
  | .fail => True
  | .sleep p => (s.proc p).pid = pid ∧ (s.proc p).state ≠ ZOMBIE ∧ (s.proc p).state ≠ UNUSED

lemma waitpidScan_spec (h : waitpidScan pid s ps = some o) : WaitpidOutcome s pid o := by
  obtain ⟨p, hp, rfl⟩ := Option.map_eq_some_iff.1 h
  have hpid : (s.proc p).pid = pid := by simpa using List.find?_some hp
  cases hs : (s.proc p).state <;> simp [WaitpidOutcome, hpid, hs]

lemma waitpidRest_spec (i : Slot) (pid : ℤ) (s : PTable) (ps : List Slot) (found : Bool) :
    WaitpidOutcome s pid (waitpidRest i pid s ps found) := by
  unfold waitpidRest
  cases h : waitpidScan pid s ps with
  | some o => exact waitpidScan_spec h
  | none =>
      dsimp only
      split_ifs
      · trivial
      · cases h' : waitpidScan pid s slots with
        | some o => exact waitpidScan_spec h'
        | none => trivial

end Scans

/-! ## Inversion of a step -/

/-- What the critical section of `wait` has done. -/
inductive Waited (s : PTable) (i : Slot) (st : ℕ) : PTable → Option Event → Prop
  | reap (p : Slot) (h : s.ZombieChild i p) :
      Waited s i st (reap p s)
        (some (.waitReturned i st (s.proc p).pid (store st (s.proc p).est)))
  | fail : Waited s i st s (some (.waitReturned i st (-1) (store st (-1))))
  | sleep (h : ∀ z, ¬ s.ZombieChild i z) :
      Waited s i st (sleepOn i (.proc i) (.wait st) s) none

/-- What the critical section of `waitpid` has done. -/
inductive Waitpided (s : PTable) (i : Slot) (pid : ℤ) (st : ℕ) : PTable → Option Event → Prop
  | reap (p : Slot) (hpid : (s.proc p).pid = pid) (h : (s.proc p).state = ZOMBIE) :
      Waitpided s i pid st (reap p s)
        (some (.waitpidReturned i pid st (s.proc p).pid (store st (s.proc p).est)))
  | stale (p : Slot) (hpid : (s.proc p).pid = pid) (h : (s.proc p).state = UNUSED) :
      Waitpided s i pid st s (some (.waitpidReturned i pid st pid (store st (s.proc p).est)))
  | fail : Waitpided s i pid st s (some (.waitpidReturned i pid st (-1) (store st (-1))))
  | sleep (p : Slot) (hpid : (s.proc p).pid = pid) (hz : (s.proc p).state ≠ ZOMBIE)
      (hu : (s.proc p).state ≠ UNUSED) :
      Waitpided s i pid st (sleepOn i (.proc p) (.waitpid pid st p)
        (s.modifyProc p fun q => { q with curIndex := incInt q.curIndex })) none

lemma waitSection_waited (i : Slot) (st : ℕ) (s : PTable) :
    Waited s i st (waitSection i st s).1 (waitSection i st s).2 := by
  have h := waitScan_spec i s
  unfold waitSection
  cases ho : waitScan i s with
  | reap p =>
      rw [ho] at h
      exact .reap p h
  | stale p =>
      rw [ho] at h
      exact h.elim
  | fail => exact .fail
  | sleep p =>
      rw [ho] at h
      obtain ⟨rfl, hz⟩ := h
      exact .sleep hz

lemma waitpidSection_waitpided (i : Slot) (st : ℕ) {pid : ℤ} {o : Outcome} {s : PTable}
    (h : WaitpidOutcome s pid o) :
    Waitpided s i pid st (waitpidSection i pid st o s).1 (waitpidSection i pid st o s).2 := by
  cases o with
  | reap p => exact .reap p h.1 h.2
  | stale p => exact .stale p h.1 h.2
  | fail => exact .fail
  | sleep p => exact .sleep p h.1 h.2.1 h.2.2

/-- What a step has done. -/
inductive Stepped (s : PTable) : Step → PTable → Option Event → Prop
  | run (i : Slot) (hs : (s.proc i).state = RUNNABLE)
      (hc : s.call i = .none ∨ ∃ np linked, s.call i = .fork np linked) :
      Stepped s (.dispatch i) (s.modifyProc i fun p => { p with state := RUNNING }) none
  | resume (i : Slot) (hs : (s.proc i).state = RUNNABLE) (hc : s.call i = .sleep) :
      Stepped s (.dispatch i) (wakeFrom i s) none
  | resumeWait (i : Slot) (st : ℕ) (hs : (s.proc i).state = RUNNABLE) (hc : s.call i = .wait st)
      {s' : PTable} {e : Option Event} (h : Waited (wakeFrom i s) i st s' e) :
      Stepped s (.dispatch i) s' e
  | resumeWaitpid (i : Slot) (pid : ℤ) (st : ℕ) (p : Slot) (hs : (s.proc i).state = RUNNABLE)
      (hc : s.call i = .waitpid pid st p) {s' : PTable} {e : Option Event}
      (h : Waitpided (wakeFrom i s) i pid st s' e) : Stepped s (.dispatch i) s' e
  | yield (i : Slot) (hs : (s.proc i).state = RUNNING)
      (hc : s.call i = .none ∨ ∃ np linked, s.call i = .fork np linked) :
      Stepped s (.yield i) (s.modifyProc i fun p => { p with state := RUNNABLE }) none
  | sleep (i : Slot) (chan : ℕ) (hi : s.Free i) :
      Stepped s (.sleep i chan) (sleepOn i (.addr chan) .sleep s) none
  | wakeup (chan : ℕ) : Stepped s (.wakeup chan) (wakeup1 (some (.addr chan)) s) none
  | alloc (i np : Slot) (hi : s.Free i) (hnp : (s.proc np).state = UNUSED) :
      Stepped s (.forkAlloc i) ((takeSlot np s).setCall i (.fork np false))
        (some (.allocated np s.nextpid))
  | allocFail (i : Slot) (hi : s.Free i) : Stepped s (.forkAlloc i) s none
  | forkFail (i np : Slot) (hs : (s.proc i).state = RUNNING) (hc : s.call i = .fork np false) :
      Stepped s (.forkFail i)
        ((s.modifyProc np fun p => { p with state := UNUSED }).setCall i .none) none
  | forkLink (i np : Slot) (hs : (s.proc i).state = RUNNING) (hc : s.call i = .fork np false) :
      Stepped s (.forkLink i)
        ((s.modifyProc np fun p => { p with parent := some i }).setCall i (.fork np true)) none
  | forkDone (i np : Slot) (hs : (s.proc i).state = RUNNING) (hc : s.call i = .fork np true) :
      Stepped s (.forkDone i)
        (((s.modifyProc np fun p => { p with state := RUNNABLE }).setCall i .none).setCall np .none)
        (some (.forked i (s.proc np).pid))
  | exit (i : Slot) (st : ℤ) (hi : s.Free i) (hne : i ≠ initproc) {s' : PTable}
      (h : Exited s i st s') : Stepped s (.exit i st) s' (some (.exited (s.proc i).pid st))
  | wait (i : Slot) (st : ℕ) (hi : s.Free i) {s' : PTable} {e : Option Event}
      (h : Waited s i st s' e) : Stepped s (.wait i st) s' e
  | waitpid (i : Slot) (pid : ℤ) (st : ℕ) (op : ℤ) (hi : s.Free i) {s' : PTable}
      {e : Option Event} (h : Waitpided s i pid st s' e) : Stepped s (.waitpid i pid st op) s' e
  | kill (i : Slot) (pid : ℤ) (p : Slot) (hi : s.Free i)
      (hp : slots.find? (fun p => (s.proc p).pid == pid) = some p) :
      Stepped s (.kill i pid) (s.modifyProc p fun q => { q with
        killed := true
        state := if q.state = SLEEPING then RUNNABLE else q.state })
        (some (.killReturned pid 0))
  | killFail (i : Slot) (pid : ℤ) (hi : s.Free i) :
      Stepped s (.kill i pid) s (some (.killReturned pid (-1)))
  | setprio (i : Slot) (prio : ℤ) (hi : s.Free i) :
      Stepped s (.setprio i prio) (s.modifyProc i fun q => { q with
        prio := cutPrio prio, state := RUNNABLE }) none
  | trap (i : Slot) (hi : s.Free i) :
      Stepped s (.trap i) (s.modifyProc i fun p => { p with killed := true })
        (some (.trapped (s.proc i).pid))

section Inversion

variable {s s' : PTable} {l : Step} {e : Option Event} {i : Slot}

lemma dispatch_stepped (h : dispatch i s = some (s', e)) : Stepped s (.dispatch i) s' e := by
  unfold dispatch at h
  split_ifs at h with hs
  cases hc : s.call i with
  | none =>
      simp only [hc, Option.some.injEq, Prod.mk.injEq] at h
      obtain ⟨rfl, rfl⟩ := h
      exact .run i hs (Or.inl hc)
  | fork np linked =>
      simp only [hc, Option.some.injEq, Prod.mk.injEq] at h
      obtain ⟨rfl, rfl⟩ := h
      exact .run i hs (Or.inr ⟨np, linked, hc⟩)
  | wait st =>
      simp only [hc, Option.some.injEq] at h
      have hw := waitSection_waited i st (wakeFrom i s)
      rw [h] at hw
      exact .resumeWait i st hs hc hw
  | waitpid pid st p =>
      simp only [hc, Option.some.injEq] at h
      have hw := waitpidSection_waitpided i st
        (waitpidRest_spec i pid (wakeFrom i s) (slots.drop (p.val + 1)) true)
      rw [h] at hw
      exact .resumeWaitpid i pid st p hs hc hw
  | sleep =>
      simp only [hc, Option.some.injEq, Prod.mk.injEq] at h
      obtain ⟨rfl, rfl⟩ := h
      exact .resume i hs hc
  | exit => simp [hc] at h

lemma kill_stepped {pid : ℤ} (hi : s.Free i) :
    Stepped s (.kill i pid) (kill pid s).1 (some (.killReturned pid (kill pid s).2)) := by
  unfold kill
  cases hp : slots.find? fun p => (s.proc p).pid == pid with
  | some p => exact .kill i pid p hi hp
  | none => exact .killFail i pid hi

/-- `sched` panics in `setprio` unless the caller itself became `RUNNABLE`. -/
lemma setprio_stepped {prio : ℤ} (hi : s.Free i) (h : setprio i prio s = some s') :
    Stepped s (.setprio i prio) s' none := by
  unfold setprio at h
  cases hp : slots.find? fun p => (s.proc p).pid == (s.proc i).pid with
  | none => simp [hp, hi.1] at h
  | some p =>
      simp only [hp] at h
      split_ifs at h with hrun
      by_cases hpi : i = p
      · subst hpi
        obtain rfl := Option.some.inj h
        exact .setprio i prio hi
      · exact absurd (by simp [hpi, hi.1]) hrun

lemma forkAlloc_stepped (h : step s (.forkAlloc i) = some (s', e)) :
    Stepped s (.forkAlloc i) s' e := by
  simp only [step] at h
  split_ifs at h with hi
  unfold allocproc at h
  cases hp : slots.find? fun p => (s.proc p).state == UNUSED with
  | none =>
      simp only [hp, Option.map_none, Option.some.injEq, Prod.mk.injEq] at h
      obtain ⟨rfl, rfl⟩ := h
      exact .allocFail i hi
  | some np =>
      simp only [hp, Option.map_some, Option.some.injEq, Prod.mk.injEq] at h
      obtain ⟨rfl, rfl⟩ := h
      exact .alloc i np hi (by simpa using List.find?_some hp)

/-- A step that works on the slot that a `fork` is setting up. -/
lemma fork_stepped (h : step s l = some (s', e))
    (hl : l = .forkFail i ∨ l = .forkLink i ∨ l = .forkDone i) : Stepped s l s' e := by
  rcases hl with rfl | rfl | rfl
  all_goals
    simp only [step] at h
    split at h
    · rename_i np hc
      split_ifs at h with hs
      obtain ⟨rfl, rfl⟩ : _ = s' ∧ _ = e := by simpa using h
      first
        | exact .forkFail i np hs hc
        | exact .forkLink i np hs hc
        | exact .forkDone i np hs hc
    · exact absurd h (by simp)

/-- Every step does what `Stepped` says. -/
theorem step_stepped (h : step s l = some (s', e)) : Stepped s l s' e := by
  cases l with
  | dispatch i => exact dispatch_stepped h
  | yield i =>
      simp only [step] at h
      split at h
      · rename_i hc
        split_ifs at h with hs
        obtain ⟨rfl, rfl⟩ : _ = s' ∧ _ = e := by simpa using h
        exact .yield i hs (Or.inl hc)
      · rename_i np linked hc
        split_ifs at h with hs
        obtain ⟨rfl, rfl⟩ : _ = s' ∧ _ = e := by simpa using h
        exact .yield i hs (Or.inr ⟨np, linked, hc⟩)
      · exact absurd h (by simp)
  | sleep i chan =>
      simp only [step] at h
      split_ifs at h with hi
      obtain ⟨rfl, rfl⟩ : _ = s' ∧ _ = e := by simpa using h
      exact .sleep i chan hi
  | wakeup chan =>
      obtain ⟨rfl, rfl⟩ : _ = s' ∧ _ = e := by simpa [step] using h
      exact .wakeup chan
  | forkAlloc i => exact forkAlloc_stepped h
  | forkFail i => exact fork_stepped h (Or.inl rfl)
  | forkLink i => exact fork_stepped h (Or.inr (Or.inl rfl))
  | forkDone i => exact fork_stepped h (Or.inr (Or.inr rfl))
  | exit i st =>
      simp only [step] at h
      split_ifs at h with hi
      obtain ⟨s₁, hs₁, heq⟩ := Option.map_eq_some_iff.1 h
      obtain ⟨rfl, rfl⟩ : s₁ = s' ∧ _ = e := by simpa using heq
      exact .exit i st hi.1 hi.2 (exitSection_spec hi.1.1 hs₁)
  | wait i st =>
      simp only [step] at h
      split_ifs at h with hi
      have hw := waitSection_waited i st s
      rw [Option.some.inj h] at hw
      exact .wait i st hi hw
  | waitpid i pid st op =>
      simp only [step] at h
      split_ifs at h with hi
      have hw := waitpidSection_waitpided i st
        (waitpidRest_spec i pid s slots false)
      rw [Option.some.inj h] at hw
      exact .waitpid i pid st op hi hw
  | kill i pid =>
      simp only [step] at h
      split_ifs at h with hi
      obtain ⟨rfl, rfl⟩ : _ = s' ∧ _ = e := by simpa using h
      exact kill_stepped hi
  | setprio i prio =>
      simp only [step] at h
      split_ifs at h with hi
      obtain ⟨s₁, hs₁, heq⟩ := Option.map_eq_some_iff.1 h
      obtain ⟨rfl, rfl⟩ : s₁ = s' ∧ none = e := by simpa using heq
      exact setprio_stepped hi hs₁
  | trap i =>
      simp only [step] at h
      split_ifs at h with hi
      obtain ⟨rfl, rfl⟩ : _ = s' ∧ _ = e := by simpa using h
      exact .trap i hi

end Inversion

end Xv6
