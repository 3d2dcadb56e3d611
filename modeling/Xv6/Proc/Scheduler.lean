import Xv6.Proc.Invariant
import Mathlib.Data.Fintype.Pigeonhole

/-!
# The scheduler (`scheduler`)

The scheduler scans the process table.  At a slot that is `RUNNABLE` it searches the whole table
for the highest priority, switches to the process that it has found, and goes on with the slot
after *that* process.  While the process runs the table changes in any way.

The first half of the file says what is true of every choice.  The second half is about the order
in which processes of the highest priority are chosen while nothing changes.
-/

namespace Xv6

open Lib

/-! ## The loops -/

/-- The inner loop: a process replaces the one found so far if its priority is higher. -/
def higher (t : Slot → Proc) (hp pp : Slot) : Slot :=
  if (t pp).state ≠ .RUNNABLE then hp
  else if (t hp).prio < (t pp).prio then pp else hp

@[inherit_doc higher]
def searchHighest (t : Slot → Proc) (p : Slot) : Slot := slots.foldl (higher t) p

/-- The outer loop over the given slots, up to its `swtch`. -/
def scan (t : Slot → Proc) : List Slot → Option Slot
  | [] => none
  | p :: ps => if (t p).state ≠ .RUNNABLE then scan t ps else some (searchHighest t p)

/-- A scheduler inside its loop over the table: the table, and the slot that is next. -/
structure Scheduler where
  table : Slot → Proc
  pos : ℕ

/-- What a scheduler does: it switches to a process, or it comes to the end of the table and
releases the lock. -/
inductive Scheduled
  | switched (t : Slot → Proc) (p : Slot)
  | ended

/-- The scheduler up to the next time that it gives up the lock; `t` is the table when it has
the lock again. -/
def Scheduler.step (s : Scheduler) (t : Slot → Proc) : Option (Scheduler × Option Scheduled) :=
  match scan s.table (slots.drop s.pos) with
  | some p => some (⟨t, p.val + 1⟩, some (.switched s.table p))
  | none => some (⟨t, 0⟩, some .ended)

/-! ## Every choice -/

variable {t : Slot → Proc} {p q : Slot} {ps : List Slot}

/-- Process `p` is `RUNNABLE` and no other such process has a higher priority. -/
def Top (t : Slot → Proc) (p : Slot) : Prop :=
  (t p).state = .RUNNABLE ∧ ∀ q, (t q).state = .RUNNABLE → (t q).prio ≤ (t p).prio

instance (t : Slot → Proc) (p : Slot) : Decidable (Top t p) := inferInstanceAs (Decidable (_ ∧ _))

lemma higher_runnable (hp : (t p).state = .RUNNABLE) (q : Slot) :
    (t (higher t p q)).state = .RUNNABLE := by
  rw [higher]
  split
  · exact hp
  · split
    · rename_i hq _
      exact not_not.1 hq
    · exact hp

lemma prio_le_higher (p q : Slot) : (t p).prio ≤ (t (higher t p q)).prio := by
  rw [higher]
  split
  · exact le_rfl
  · split
    · rename_i hlt
      exact hlt.le
    · exact le_rfl

lemma le_prio_higher (hq : (t q).state = .RUNNABLE) : (t q).prio ≤ (t (higher t p q)).prio := by
  rw [higher, if_neg (not_not.2 hq)]
  split
  · exact le_rfl
  · rename_i hle
    exact not_lt.1 hle

/-- What the search has found after some slots is at least as good as all of them. -/
lemma foldl_higher (hp : (t p).state = .RUNNABLE) (ps : List Slot) :
    (t (ps.foldl (higher t) p)).state = .RUNNABLE ∧
      (t p).prio ≤ (t (ps.foldl (higher t) p)).prio ∧
      ∀ q ∈ ps, (t q).state = .RUNNABLE → (t q).prio ≤ (t (ps.foldl (higher t) p)).prio := by
  induction ps generalizing p with
  | nil => exact ⟨hp, le_rfl, by simp⟩
  | cons a ps ih =>
      obtain ⟨hrun, hle, hall⟩ := ih (higher_runnable hp a)
      refine ⟨hrun, (prio_le_higher p a).trans hle, fun q hq hstate => ?_⟩
      rcases List.mem_cons.1 hq with rfl | hq
      · exact (le_prio_higher hstate).trans hle
      · exact hall q hq hstate

lemma searchHighest_top (hp : (t p).state = .RUNNABLE) : Top t (searchHighest t p) := by
  obtain ⟨hrun, -, hall⟩ := foldl_higher hp slots
  exact ⟨hrun, fun q hq => hall q (mem_slots q) hq⟩

lemma scan_eq_find (t : Slot → Proc) (ps : List Slot) :
    scan t ps = (ps.find? fun p => decide ((t p).state = .RUNNABLE)).map (searchHighest t) := by
  induction ps with
  | nil => rfl
  | cons p ps ih =>
      rw [scan]
      by_cases hp : (t p).state = .RUNNABLE
      · rw [if_neg (not_not.2 hp), List.find?_cons_of_pos (by simpa using hp), Option.map_some]
      · rw [if_pos hp, List.find?_cons_of_neg (by simpa using hp), ih]

lemma scan_top (h : scan t ps = some p) : Top t p := by
  rw [scan_eq_find, Option.map_eq_some_iff] at h
  obtain ⟨q, hq, rfl⟩ := h
  have hrun := List.find?_some hq
  exact searchHighest_top (of_decide_eq_true hrun)

lemma scan_isSome (hp : p ∈ ps) (hrun : (t p).state = .RUNNABLE) : (scan t ps).isSome := by
  rw [scan_eq_find, Option.isSome_map, List.find?_isSome]
  exact ⟨p, hp, by simpa using hrun⟩

/-- Every run from any table and any position, and whatever the tables are that come back. -/
abbrev ScheduleRun (t : Slot → Proc) (pos : ℕ) : List Scheduled → Scheduler → Prop :=
  Run Scheduler.step (fun _ _ => True) ⟨t, pos⟩ []

lemma switched_top {pos : ℕ} {es : List Scheduled} {s : Scheduler} {t₀ : Slot → Proc}
    (h : ScheduleRun t₀ pos es s) (hmem : .switched t p ∈ es) : Top t p := by
  refine h.invariant (I := fun es _ => .switched t p ∈ es → Top t p) (by simp)
    (fun {es s s' l e} hI _ hs hmem => ?_) hmem
  rcases List.mem_append.1 hmem with hmem | hmem
  · exact hI hmem
  · rw [Scheduler.step] at hs
    split at hs
    · rename_i q hscan
      obtain ⟨-, rfl⟩ : _ ∧ some (Scheduled.switched s.table q) = e := by simpa using hs
      obtain ⟨rfl, rfl⟩ : t = s.table ∧ p = q := by simpa using hmem
      exact scan_top hscan
    · obtain ⟨-, rfl⟩ : _ ∧ some Scheduled.ended = e := by simpa using hs
      exact absurd hmem (by simp)

lemma cutPrio_range (prio : ℤ) : 0 ≤ cutPrio prio ∧ cutPrio prio ≤ 63 := by
  rw [cutPrio]
  split
  · assumption
  · split <;> decide

/-- A step leaves the priority of a process as it is, or sets it to 1 or to what `setprio` cuts
its argument to. -/
lemma Stepped.prio {s s' : PTable} {l : Step} {e : Option Event} (h : Stepped s l s' e) (q : Slot) :
    (s'.proc q).prio = (s.proc q).prio ∨ (s'.proc q).prio = 1 ∨
      ∃ prio, (s'.proc q).prio = cutPrio prio := by
  have hwait : ∀ {s s' : PTable} {i : Slot} {st : ℕ} {e : Option Event}, Waited s i st s' e →
      (s'.proc q).prio = (s.proc q).prio := by
    intro s s' i st e hw
    cases hw <;> simp only [reap_proc, sleepOn_proc] <;> split <;> rfl
  have hwaitpid : ∀ {s s' : PTable} {i : Slot} {pid : ℤ} {st : ℕ} {e : Option Event},
      Waitpided s i pid st s' e → (s'.proc q).prio = (s.proc q).prio := by
    intro s s' i pid st e hw
    cases hw with
    | sleep p hpid hz hu =>
        simp only [sleepOn_proc, PTable.modifyProc_proc]
        split <;> split <;> rfl
    | _ => simp only [reap_proc] <;> split <;> rfl
  have hwake : ∀ i, ((wakeFrom i s).proc q).prio = (s.proc q).prio := by
    intro i
    rw [wakeFrom_proc]
    split <;> rfl
  cases h with
  | resume i hs hc => exact .inl (hwake i)
  | resumeWait i st hs hc hw => exact .inl ((hwait hw).trans (hwake i))
  | resumeWaitpid i pid st p hs hc hw => exact .inl ((hwaitpid hw).trans (hwake i))
  | wait i st hi hw => exact .inl (hwait hw)
  | waitpid i pid st op hi hw => exact .inl (hwaitpid hw)
  | exit i st hi hne hx =>
      obtain ⟨-, -, x, -, -, hproc⟩ := hx
      exact .inl (by rw [hproc])
  | alloc i np hi hnp =>
      rw [PTable.setCall_proc, takeSlot_proc]
      split
      · exact .inr (.inl rfl)
      · exact .inl rfl
  | setprio i prio hi =>
      rw [PTable.modifyProc_proc]
      split
      · exact .inr (.inr ⟨prio, rfl⟩)
      · exact .inl rfl
  | wakeup chan =>
      rw [wakeup1_proc, Proc.wake_eq]
      exact .inl rfl
  | sleep i chan hi =>
      rw [sleepOn_proc]
      split <;> exact .inl rfl
  | allocFail i hi => exact .inl rfl
  | killFail i pid hi => exact .inl rfl
  | _ =>
      simp only [PTable.setCall_proc, PTable.modifyProc_proc]
      split <;> exact .inl rfl

lemma PRun.prio_range {ok : PTable → Step → Prop} {es : List Event} {s : PTable} (h : PRun ok es s)
    (q : Slot) : 0 ≤ (s.proc q).prio ∧ (s.proc q).prio ≤ 63 := by
  refine h.invariant (I := fun _ s => 0 ≤ (s.proc q).prio ∧ (s.proc q).prio ≤ 63) ?_
    fun {es s s' l e} hI _ hs => ?_
  · rw [userinit_proc]
    split <;> decide
  · rcases (step_stepped hs).prio q with heq | heq | ⟨prio, heq⟩ <;> rw [heq]
    · exact hI
    · decide
    · exact cutPrio_range prio

/-- `allocproc` and `setprio` store no other priorities, whatever the table is. -/
def StoresInRange (s s' : PTable) : Prop :=
  ∀ q, (s'.proc q).prio = (s.proc q).prio ∨ 0 ≤ (s'.proc q).prio ∧ (s'.proc q).prio ≤ 63

lemma allocproc_storesInRange {s s' : PTable} (h : allocproc s = some (p, s')) :
    StoresInRange s s' := by
  obtain ⟨p', -, heq⟩ := Option.map_eq_some_iff.1 h
  obtain ⟨rfl, rfl⟩ : p' = p ∧ takeSlot p' s = s' := by simpa using heq
  intro q
  rw [takeSlot_proc]
  split
  · exact .inr ⟨zero_le_one, by simp⟩
  · exact .inl rfl

lemma setprio_storesInRange {s s' : PTable} {prio : ℤ} (h : setprio p prio s = some s') :
    StoresInRange s s' := by
  rw [setprio] at h
  intro q
  split at h <;> split_ifs at h <;> obtain rfl := Option.some.inj h
  · rw [PTable.modifyProc_proc]
    split
    · exact .inr (cutPrio_range prio)
    · exact .inl rfl
  · exact .inl rfl

/-- The scheduler honours priorities: it switches only to processes that are `RUNNABLE` and of
the highest priority, a pass over the table that starts with one such process switches to one,
and priorities stay in their range. -/
theorem scheduler_honours_priorities :
    (∀ (t₀ : Slot → Proc) (pos : ℕ) (es : List Scheduled) (s : Scheduler), ScheduleRun t₀ pos es s →
      (∀ t p, .switched t p ∈ es → (t p).state = .RUNNABLE ∧
        ∀ q, (t q).state = .RUNNABLE → (t q).prio ≤ (t p).prio) ∧
      (s.pos = 0 → ∀ q, (s.table q).state = .RUNNABLE → ∀ t,
        ∃ p, s.step t = some (⟨t, p.val + 1⟩, some (.switched s.table p)))) ∧
    (∀ s p s', allocproc s = some (p, s') → StoresInRange s s') ∧
    (∀ s i prio s', setprio i prio s = some s' → StoresInRange s s') ∧
    ∀ es s, PRun (fun _ _ => True) es s → ∀ q, 0 ≤ (s.proc q).prio ∧ (s.proc q).prio ≤ 63 := by
  refine ⟨fun t₀ pos es s h => ⟨fun t p hmem => switched_top h hmem, fun hpos q hq t => ?_⟩,
    fun _ _ _ => allocproc_storesInRange, fun _ _ _ _ => setprio_storesInRange,
    fun es s h q => h.prio_range q⟩
  obtain ⟨p, hp⟩ := Option.isSome_iff_exists.1 (scan_isSome (mem_slots q) hq)
  refine ⟨p, ?_⟩
  rw [Scheduler.step, hpos, List.drop_zero, hp]

/-! ## Taking turns -/

/-- The next process that is switched to while the table stays as it is: if the pass finds none
from slot `pos` on, the next pass does. -/
def nextPick (t : Slot → Proc) (pos : ℕ) : Option Slot :=
  (scan t (slots.drop pos)).or (scan t slots)

/-- The processes that are switched to, one after the other. -/
def picks (t : Slot → Proc) (pos : ℕ) : ℕ → Option Slot
  | 0 => nextPick t pos
  | n + 1 => (picks t pos n).bind fun p => nextPick t (p.val + 1)

/-- The processes of the highest priority, in the order of their slots. -/
def tops (t : Slot → Proc) : List Slot := slots.filter fun p => decide (Top t p)

/-- No `RUNNABLE` process of lower priority has a slot between two of the highest. -/
def Grouped (t : Slot → Proc) : Prop :=
  ∀ a l b, a < l → l < b → Top t a → Top t b → (t l).state = .RUNNABLE → Top t l

lemma mem_slots_drop {k : ℕ} : p ∈ slots.drop k ↔ k ≤ p.val := by
  rw [List.mem_drop_iff_getElem]
  constructor
  · rintro ⟨j, hj, rfl⟩
    simp [slots]
  · intro hk
    refine ⟨p.val - k, ?_, ?_⟩
    · have := p.isLt
      simp only [slots, List.length_finRange]
      omega
    · simp only [slots, List.getElem_finRange]
      exact Fin.ext (Nat.add_sub_cancel' hk)

lemma sorted_slots_drop (k : ℕ) : (slots.drop k).Pairwise (· < ·) :=
  (List.pairwise_lt_finRange NPROC).sublist (List.drop_sublist k slots)

/-- What is found first from slot `k` on. -/
lemma find_slots_drop {k : ℕ} {P : Slot → Prop} [DecidablePred P]
    (h : ((slots.drop k).find? fun p => decide (P p)) = some p) :
    k ≤ p.val ∧ P p ∧ ∀ q, k ≤ q.val → q < p → ¬ P q := by
  obtain ⟨hp, as, bs, hsplit, has⟩ := List.find?_eq_some_iff_append.1 h
  refine ⟨mem_slots_drop.1 (by simp [hsplit]), of_decide_eq_true hp, fun q hk hlt hq => ?_⟩
  have hsorted := sorted_slots_drop k
  rw [hsplit, List.pairwise_append, List.pairwise_cons] at hsorted
  have hmem := mem_slots_drop.2 hk
  rw [hsplit, List.mem_append, List.mem_cons] at hmem
  rcases hmem with hmem | rfl | hmem
  · exact absurd (decide_eq_true hq) (by simpa using has q hmem)
  · exact lt_irrefl _ hlt
  · exact lt_asymm hlt (hsorted.2.1.1 q hmem)

lemma find_slots_drop_none {k : ℕ} {P : Slot → Prop} [DecidablePred P]
    (h : ((slots.drop k).find? fun p => decide (P p)) = none) (hk : k ≤ p.val) : ¬ P p := by
  simpa using List.find?_eq_none.1 h p (mem_slots_drop.2 hk)

lemma mem_tops : p ∈ tops t ↔ Top t p := by simp [tops, mem_slots]

lemma nodup_tops : (tops t).Nodup := nodup_slots.filter _

/-- A process of the highest priority is not replaced. -/
lemma foldl_higher_of_top (hp : Top t p) (ps : List Slot) : ps.foldl (higher t) p = p := by
  induction ps with
  | nil => rfl
  | cons q ps ih =>
      have hkeep : higher t p q = p := by
        rw [higher]
        split
        · rfl
        · rename_i hq
          rw [if_neg (not_lt.2 (hp.2 q (not_not.1 hq)))]
      rw [List.foldl_cons, hkeep, ih]

/-- Any other process is replaced by the first one of the highest priority. -/
lemma foldl_higher_of_not_top (hp : (t p).state = .RUNNABLE) (hno : ¬ Top t p)
    (h : (ps.find? fun q => decide (Top t q)) = some q) : ps.foldl (higher t) p = q := by
  induction ps generalizing p with
  | nil => exact absurd h (by simp)
  | cons a ps ih =>
      rw [List.foldl_cons]
      by_cases ha : Top t a
      · obtain rfl : a = q := by
          rw [List.find?_cons_of_pos (by simpa using ha)] at h
          exact Option.some.inj h
        have htake : higher t p a = a := by
          rw [higher, if_neg (not_not.2 ha.1), if_pos]
          refine lt_of_not_ge fun hle => hno ⟨hp, fun r hr => (ha.2 r hr).trans hle⟩
        rw [htake, foldl_higher_of_top ha]
      · rw [List.find?_cons_of_neg (by simpa using ha)] at h
        refine ih (higher_runnable hp a) (fun htop => ?_) h
        rw [higher] at htop
        split at htop
        · exact hno htop
        · split at htop
          · exact ha htop
          · exact hno htop

/-- The next slot of the highest priority is found before any other that is `RUNNABLE`. -/
lemma nextPick_of_next (hg : Grouped t) (hp : Top t p) (hq : Top t q) (hlt : p < q)
    (hno : ∀ r, p < r → r < q → ¬ Top t r) : nextPick t (p.val + 1) = some q := by
  rw [nextPick, scan_eq_find]
  cases hfind : (slots.drop (p.val + 1)).find? fun r => decide ((t r).state = .RUNNABLE) with
  | none => exact absurd hq.1 (find_slots_drop_none hfind hlt)
  | some r =>
      obtain ⟨hpr, hr, hmin⟩ := find_slots_drop hfind
      have hle : ¬ q < r := fun hqr => hmin q hlt hqr hq.1
      rcases lt_or_eq_of_le (not_lt.1 hle) with hrq | rfl
      · exact absurd (hg p r q hpr hrq hp hq hr) (hno r hpr hrq)
      · rw [Option.map_some, Option.some_or, searchHighest, foldl_higher_of_top hq]

/-- Slot `q` is the first one of the highest priority. -/
def FirstTop (t : Slot → Proc) (q : Slot) : Prop := Top t q ∧ ∀ r < q, ¬ Top t r

lemma Top.exists_first (h : Top t p) : ∃ q, FirstTop t q := by
  cases hfind : slots.find? fun r => decide (Top t r) with
  | none => exact absurd h (find_slots_drop_none (k := 0) hfind (Nat.zero_le _))
  | some q =>
      obtain ⟨-, hq, hmin⟩ := find_slots_drop (k := 0) hfind
      exact ⟨q, hq, fun r => hmin r (Nat.zero_le _)⟩

lemma FirstTop.find (h : FirstTop t q) : (slots.find? fun r => decide (Top t r)) = some q := by
  cases hfind : slots.find? fun r => decide (Top t r) with
  | none => exact absurd h.1 (find_slots_drop_none (k := 0) hfind (Nat.zero_le _))
  | some r =>
      obtain ⟨-, hr, hmin⟩ := find_slots_drop (k := 0) hfind
      rcases lt_trichotomy r q with hlt | rfl | hlt
      · exact absurd hr (h.2 r hlt)
      · rfl
      · exact absurd h.1 (hmin q (Nat.zero_le _) hlt)

/-- The search from a slot finds that slot, if it is of the highest priority, or the first one that
is. -/
lemma FirstTop.searchHighest (h : FirstTop t q) (hp : (t p).state = .RUNNABLE) :
    searchHighest t p = if Top t p then p else q := by
  split
  · rename_i htop
    exact foldl_higher_of_top htop slots
  · rename_i hno
    exact foldl_higher_of_not_top hp hno h.find

/-- What is switched to next is the first slot of the highest priority, or the next slot that is
`RUNNABLE`. -/
lemma FirstTop.nextPick (h : FirstTop t q) {k : ℕ} (hp : nextPick t k = some p) :
    p = q ∨ k ≤ p.val ∧ ∀ r : Slot, k ≤ r.val → r < p → (t r).state ≠ .RUNNABLE := by
  rw [Xv6.nextPick, scan_eq_find, scan_eq_find] at hp
  cases hfind : (slots.drop k).find? fun r => decide ((t r).state = .RUNNABLE) with
  | some r =>
      obtain ⟨hkr, hr, hmin⟩ := find_slots_drop hfind
      rw [hfind, Option.map_some, Option.some_or, h.searchHighest hr] at hp
      split at hp
      · obtain rfl := Option.some.inj hp
        exact .inr ⟨hkr, hmin⟩
      · exact .inl (Option.some.inj hp).symm
  | none =>
      rw [hfind, Option.map_none, Option.none_or] at hp
      cases hfirst : slots.find? fun r => decide ((t r).state = .RUNNABLE) with
      | none => exact absurd h.1.1 (find_slots_drop_none (k := 0) hfirst (Nat.zero_le _))
      | some r =>
          obtain ⟨-, hr, hmin⟩ := find_slots_drop (k := 0) hfirst
          rw [hfirst, Option.map_some, h.searchHighest hr] at hp
          split at hp
          · rename_i htop
            obtain rfl := Option.some.inj hp
            rcases lt_trichotomy r q with hlt | rfl | hlt
            · exact absurd htop (h.2 r hlt)
            · exact .inl rfl
            · exact absurd h.1.1 (hmin q (Nat.zero_le _) hlt)
          · exact .inl (Option.some.inj hp).symm

lemma nextPick_top {pos : ℕ} (h : nextPick t pos = some p) : Top t p := by
  rw [nextPick, Option.or_eq_some_iff] at h
  rcases h with h | ⟨-, h⟩ <;> exact scan_top h

lemma nextPick_isSome (hq : (t q).state = .RUNNABLE) (pos : ℕ) : (nextPick t pos).isSome := by
  rw [nextPick, Option.isSome_or, scan_isSome (mem_slots q) hq, Bool.or_true]

/-- After the last slot of the highest priority the first one is found. -/
lemma nextPick_of_last (hq : FirstTop t q) (k : ℕ)
    (hlast : ∀ r : Slot, k ≤ r.val → ¬ Top t r) : nextPick t k = some q := by
  obtain ⟨p, hp⟩ := Option.isSome_iff_exists.1 (nextPick_isSome hq.1.1 k)
  rcases hq.nextPick hp with rfl | ⟨hk, -⟩
  · exact hp
  · exact absurd (nextPick_top hp) (hlast p hk)

lemma sorted_tops : (tops t).Pairwise (· < ·) := (List.pairwise_lt_finRange NPROC).filter _

lemma top_of_getElem {i : ℕ} (hi : i < (tops t).length) : Top t (tops t)[i] :=
  mem_tops.1 (List.getElem_mem hi)

/-- Slots of the highest priority are met in their order, and then from the first one again. -/
lemma nextPick_tops (hg : Grouped t) {i : ℕ} (hi : i < (tops t).length) :
    nextPick t ((tops t)[i].val + 1) = (tops t)[(i + 1) % (tops t).length]? := by
  have hmono : ∀ {a b : ℕ} (ha : a < (tops t).length) (hb : b < (tops t).length),
      a < b → (tops t)[a] < (tops t)[b] := fun ha hb => List.pairwise_iff_getElem.1
      sorted_tops _ _ ha hb
  by_cases hlast : i + 1 < (tops t).length
  · rw [Nat.mod_eq_of_lt hlast, List.getElem?_eq_getElem hlast]
    refine nextPick_of_next hg (top_of_getElem hi) (top_of_getElem hlast)
      (hmono hi hlast (by omega)) fun r hlow hhigh hr => ?_
    obtain ⟨j, hj, rfl⟩ := List.mem_iff_getElem.1 (mem_tops.2 hr)
    rcases Nat.lt_or_ge i j with hij | hij
    · rcases Nat.lt_or_eq_of_le hij with hji | rfl
      · exact lt_asymm hhigh (hmono hlast hj hji)
      · exact lt_irrefl _ hhigh
    · rcases Nat.lt_or_eq_of_le hij with hji | rfl
      · exact lt_asymm hlow (hmono hj hi hji)
      · exact lt_irrefl _ hlow
  · have hzero : 0 < (tops t).length := by omega
    rw [show i + 1 = (tops t).length by omega, Nat.mod_self, List.getElem?_eq_getElem hzero]
    refine nextPick_of_last ⟨top_of_getElem hzero, fun r hlt hr => ?_⟩ _ fun r hle hr => ?_
    · obtain ⟨j, hj, rfl⟩ := List.mem_iff_getElem.1 (mem_tops.2 hr)
      rcases Nat.eq_zero_or_pos j with rfl | hpos
      · exact lt_irrefl _ hlt
      · exact lt_asymm hlt (hmono hzero hj hpos)
    · obtain ⟨j, hj, rfl⟩ := List.mem_iff_getElem.1 (mem_tops.2 hr)
      rcases Nat.lt_or_eq_of_le (show j ≤ i by omega) with hji | rfl
      · have : (tops t)[j].val < (tops t)[i].val := hmono hj hi hji
        omega
      · omega

/-- The whole sequence goes round the slots of the highest priority. -/
lemma picks_eq (hg : Grouped t) (hq : (t q).state = .RUNNABLE) (pos : ℕ) :
    ∃ a, 0 < (tops t).length ∧ ∀ n, picks t pos n = (tops t)[(a + n) % (tops t).length]? := by
  obtain ⟨p, hp⟩ := Option.isSome_iff_exists.1 (nextPick_isSome hq pos)
  obtain ⟨a, ha, rfl⟩ := List.mem_iff_getElem.1 (mem_tops.2 (nextPick_top hp))
  have hpos : 0 < (tops t).length := by omega
  refine ⟨a, hpos, fun n => ?_⟩
  induction n with
  | zero => rw [picks, hp, Nat.add_zero, Nat.mod_eq_of_lt ha, List.getElem?_eq_getElem ha]
  | succ n ih =>
      have hlt := Nat.mod_lt (a + n) hpos
      rw [picks, ih, List.getElem?_eq_getElem hlt, Option.bind_some, nextPick_tops hg hlt,
        Nat.mod_add_mod, Nat.add_assoc]

/-- In a sequence that goes round a list, between an element and its next occurrence every other
element of the list occurs exactly once. -/
lemma existsUnique_between {β : Type} {l : List β} {f : ℕ → Option β} {a i j : ℕ} {x y : β}
    (hl : l.Nodup) (hpos : 0 < l.length) (hf : ∀ n, f n = l[(a + n) % l.length]?) (hij : i < j)
    (hi : f i = some x) (hj : f j = some x) (hno : ∀ k, i < k → k < j → f k ≠ some x)
    (hy : y ∈ l) (hne : y ≠ x) : ∃! k, (i < k ∧ k < j) ∧ f k = some y := by
  have hinj : ∀ {m n}, f m = f n → (a + m) % l.length = (a + n) % l.length := fun {m n} h => by
    rw [hf, hf] at h
    exact (List.getElem?_inj (Nat.mod_lt _ hpos) hl).1 h
  -- the element comes again after one round and not earlier
  have hround : j = i + l.length := by
    have hmod := hinj (hi.trans hj.symm)
    have hdvd : l.length ∣ j - i := by
      have h := Nat.dvd_of_mod_eq_zero (Nat.sub_mod_eq_zero_of_mod_eq hmod.symm)
      rwa [Nat.add_sub_add_left] at h
    have hge := Nat.le_of_dvd (by omega) hdvd
    have hagain : f (i + l.length) = some x := by
      rw [← hi, hf, hf, ← Nat.add_assoc, Nat.add_mod_right]
    by_contra hlt
    exact hno (i + l.length) (by omega) (by omega) hagain
  obtain ⟨b, hb, rfl⟩ := List.mem_iff_getElem.1 hy
  have hfb : ∀ k, f k = some l[b] ↔ (a + k) % l.length = b := fun k => by
    rw [hf, ← List.getElem?_eq_getElem hb]
    exact List.getElem?_inj (Nat.mod_lt _ hpos) hl
  have hlt := Nat.mod_lt (a + i) hpos
  have hb' : (a + i) % l.length ≠ b := fun h => hne (Option.some.inj ((hfb i).2 h ▸ hi).symm).symm
  have hstep : ∀ d < l.length, (a + (i + d)) % l.length =
      if (a + i) % l.length + d < l.length then (a + i) % l.length + d
      else (a + i) % l.length + d - l.length := by
    intro d hd
    rw [← Nat.add_assoc, Nat.add_mod, Nat.mod_eq_of_lt hd]
    split
    · exact Nat.mod_eq_of_lt ‹_›
    · rw [Nat.mod_eq_sub_mod (by omega), Nat.mod_eq_of_lt (by omega)]
  generalize (a + i) % l.length = c at hlt hb' hstep
  refine ⟨if c < b then i + (b - c) else i + (b + l.length - c), ⟨?_, ?_⟩, fun k hk => ?_⟩
  · split <;> omega
  · rw [hfb]
    split
    · rw [hstep _ (by omega), if_pos (by omega)]
      omega
    · rw [hstep _ (by omega), if_neg (by omega)]
      omega
  · obtain ⟨⟨hik, hkj⟩, hk⟩ := hk
    have hd := hstep (k - i) (by omega)
    rw [hfb] at hk
    rw [show i + (k - i) = k by omega, hk] at hd
    split at hd <;> split <;> omega

/-- The processes that a scheduler has switched to. -/
def switches (es : List Scheduled) : List Slot :=
  es.filterMap fun e => match e with
    | .switched _ p => some p
    | .ended => none

/-- While the table stays as it is, a scheduler switches to the processes of `picks`. -/
lemma switches_eq_picks {pos : ℕ} {es : List Scheduled} {s : Scheduler}
    (h : Run Scheduler.step (fun _ t' => t' = t) ⟨t, pos⟩ [] es s) :
    ∀ n < (switches es).length, (switches es)[n]? = picks t pos n := by
  refine (h.invariant (I := fun es s => (s.table = t ∧ nextPick t s.pos = picks t pos
    (switches es).length) ∧
    ∀ n < (switches es).length, (switches es)[n]? = picks t pos n) ⟨⟨rfl, rfl⟩, by
    simp [switches]⟩ ?_).2
  rintro es s s' l e ⟨⟨rfl, hnext⟩, hI⟩ rfl hs
  rw [Scheduler.step] at hs
  split at hs
  · rename_i p hscan
    obtain ⟨rfl, rfl⟩ : (⟨s.table, p.val + 1⟩ : Scheduler) = s' ∧
      some (Scheduled.switched s.table p) = e := by simpa using hs
    have hswitches : switches (es ++ (some (Scheduled.switched s.table p)).toList) =
        switches es ++ [p] := by simp [switches]
    rw [nextPick, hscan, Option.some_or] at hnext
    rw [hswitches]
    refine ⟨⟨rfl, ?_⟩, fun n hn => ?_⟩
    · rw [List.length_append, List.length_singleton, picks, ← hnext, Option.bind_some]
    · rcases Nat.lt_or_ge n (switches es).length with hlt | hge
      · rw [List.getElem?_append_left hlt, hI n hlt]
      · obtain rfl : n = (switches es).length := by
          rw [List.length_append, List.length_singleton] at hn
          omega
        rw [List.getElem?_concat_length, hnext]
  · rename_i hscan
    obtain ⟨rfl, rfl⟩ : (⟨s.table, 0⟩ : Scheduler) = s' ∧ some Scheduled.ended = e := by
      simpa using hs
    have hswitches : switches (es ++ (some Scheduled.ended).toList) = switches es := by
      simp [switches]
    rw [nextPick, hscan, Option.none_or] at hnext
    rw [hswitches]
    refine ⟨⟨rfl, ?_⟩, hI⟩
    rw [nextPick, List.drop_zero, Option.or_self, hnext]

/-- There is always a next process to switch to, and between two consecutive switches to one process
every other one of its priority is switched to exactly once. -/
def TakeTurns (t : Slot → Proc) (pos : ℕ) : Prop :=
  (∀ n, ∃ p, picks t pos n = some p ∧ Top t p) ∧
    ∀ i j h, i < j → picks t pos i = some h → picks t pos j = some h →
      (∀ k, i < k → k < j → picks t pos k ≠ some h) →
      ∀ q, q ≠ h → (t q).state = .RUNNABLE → (t q).prio = (t h).prio →
        ∃! k, (i < k ∧ k < j) ∧ picks t pos k = some q

lemma Grouped.takeTurns (hg : Grouped t) (hq : (t q).state = .RUNNABLE) (pos : ℕ) :
    TakeTurns t pos := by
  obtain ⟨a, hpos, hpicks⟩ := picks_eq hg hq pos
  have htop : ∀ n p, picks t pos n = some p → Top t p := fun n p hp => by
    rw [hpicks] at hp
    exact mem_tops.1 (List.mem_of_getElem? hp)
  refine ⟨fun n => ?_, fun i j h hij hi hj hno q hne hrun hprio => ?_⟩
  · have hlt := Nat.mod_lt (a + n) hpos
    exact ⟨_, (hpicks n).trans (List.getElem?_eq_getElem hlt), top_of_getElem hlt⟩
  · have hq : Top t q := ⟨hrun, fun r hr => hprio ▸ (htop i h hi).2 r hr⟩
    exact existsUnique_between nodup_tops hpos hpicks hij hi hj hno (mem_tops.2 hq) hne

/-! ### A process in between -/

/-- Before a slot `l` of lower priority the sequence stays before it: from `l` on the search goes
back to the first slot of the highest priority. -/
lemma picks_before {l : Slot} {pos n : ℕ} {f : ℕ → Slot} (hq : FirstTop t q) (hql : q < l)
    (hl : (t l).state = .RUNNABLE) (hno : ¬ Top t l) (hf : ∀ n, picks t pos n = some (f n))
    (hn : f n < l) (m : ℕ) : f (n + m) < l := by
  induction m with
  | zero => exact hn
  | succ m ih =>
      have hnext : nextPick t ((f (n + m)).val + 1) = some (f (n + m + 1)) := by
        rw [← hf (n + m + 1), picks, hf, Option.bind_some]
      rcases hq.nextPick hnext with heq | ⟨-, hmin⟩
      · rw [← Nat.add_assoc, heq]
        exact hql
      · rcases lt_trichotomy (f (n + m + 1)) l with hlt | heq | hlt
        · exact hlt
        · exact absurd (nextPick_top hnext) (heq ▸ hno)
        · exact absurd hl (hmin l ih hlt)

/-- Sooner or later the sequence comes to the slots before `l`, as it goes up until it is back at
the first one. -/
lemma exists_picks_before {l : Slot} {pos : ℕ} {f : ℕ → Slot} (hq : FirstTop t q) (hql : q < l)
    (hf : ∀ n, picks t pos n = some (f n)) : ∃ n, f n < l := by
  by_contra hnone
  have hge : ∀ n, l ≤ f n := fun n => not_lt.1 fun hlt => hnone ⟨n, hlt⟩
  have hup : ∀ n, n ≤ (f n).val := by
    intro n
    induction n with
    | zero => exact Nat.zero_le _
    | succ n ih =>
        have hnext : nextPick t ((f n).val + 1) = some (f (n + 1)) := by
          rw [← hf (n + 1), picks, hf, Option.bind_some]
        rcases hq.nextPick hnext with heq | ⟨hle, -⟩
        · exact absurd (heq ▸ hge (n + 1)) (not_le.2 hql)
        · omega
  have := hup NPROC
  have := (f NPROC).isLt
  omega

/-- If they take turns, there is no process of lower priority in between: slots behind it would not
be switched to any more. -/
lemma TakeTurns.grouped {pos : ℕ} (h : TakeTurns t pos) : Grouped t := by
  intro a l b hal hlb ha hb hl
  by_contra hno
  obtain ⟨q, hfirst⟩ := ha.exists_first
  have hql : q < l := lt_of_le_of_lt (not_lt.1 fun hlt => hfirst.2 a hlt ha) hal
  choose f hf using h.1
  obtain ⟨n, hn⟩ := exists_picks_before hfirst hql fun n => (hf n).1
  have hbefore := picks_before hfirst hql hl hno (fun n => (hf n).1) hn
  -- a slot before `l` is switched to twice, and in between only slots before `l`
  obtain ⟨i, j, hij, hsame⟩ : ∃ i j, i < j ∧ f (n + i) = f (n + j) := by
    obtain ⟨i, j, hne, heq⟩ := Finite.exists_ne_map_eq_of_infinite fun m => f (n + m)
    rcases lt_or_gt_of_ne hne with hlt | hlt
    · exact ⟨i, j, hlt, heq⟩
    · exact ⟨j, i, hlt, heq.symm⟩
  have hagain : ∃ j, i < j ∧ f (n + j) = f (n + i) := ⟨j, hij, hsame.symm⟩
  obtain ⟨hij', hsame'⟩ := Nat.find_spec hagain
  have hbne : b ≠ f (n + i) := (lt_trans (hbefore i) hlb).ne'
  have hprio : (t b).prio = (t (f (n + i))).prio :=
    le_antisymm ((hf _).2.2 b hb.1) (hb.2 _ (hf _).2.1)
  have hfirst' : ∀ k, n + i < k → k < n + Nat.find hagain → picks t pos k ≠ some (f (n + i)) := by
    intro k hk hk' hpick
    refine Nat.find_min hagain (m := k - n) (by omega) ⟨by omega, ?_⟩
    rw [show n + (k - n) = k by omega]
    exact Option.some.inj ((hf k).1.symm.trans hpick)
  obtain ⟨k, ⟨⟨hk, hk'⟩, hpick⟩, -⟩ := h.2 (n + i) (n + Nat.find hagain) (f (n + i)) (by omega)
    (hf _).1 (by rw [(hf _).1, hsame']) hfirst' b hbne hb.1 hprio
  have hkb : f k = b := Option.some.inj ((hf k).1.symm.trans hpick)
  have hbl := hbefore (k - n)
  rw [show n + (k - n) = k by omega, hkb] at hbl
  exact lt_asymm hbl hlb

/-- Processes of the highest priority take turns exactly if no other `RUNNABLE` process has a slot
between theirs. -/
theorem equal_priorities_take_turns (t : Slot → Proc) (q₀ : Slot)
    (hq₀ : (t q₀).state = .RUNNABLE) (pos : ℕ) :
    (∀ es s, Run Scheduler.step (fun _ t' => t' = t) ⟨t, pos⟩ [] es s →
      ∀ n < (switches es).length, (switches es)[n]? = picks t pos n) ∧
    (TakeTurns t pos ↔ Grouped t) :=
  ⟨fun _ _ h => switches_eq_picks h, TakeTurns.grouped, fun hg => hg.takeTurns hq₀ pos⟩

/-- With equal priorities, as before the change of the scheduler, the condition holds. -/
lemma grouped_of_equal (h : ∀ p q, (t p).state = .RUNNABLE → (t q).state = .RUNNABLE →
    (t p).prio = (t q).prio) : Grouped t :=
  fun _ l _ _ _ _ _ hl => ⟨hl, fun q hq => (h q l hq hl).le⟩

/-- A table in which the slots below the length of the list are `RUNNABLE`, with these
priorities. -/
def tableOf (prios : List ℤ) (p : Slot) : Proc :=
  match prios[p.val]? with
  | some prio => ⟨.RUNNABLE, p.val + 1, none, none, false, 0, 0, prio⟩
  | none => ⟨.UNUSED, 0, none, none, false, 0, 0, 0⟩

theorem equal_priorities_take_turns_pair :
    ∃! k, (0 < k ∧ k < 2) ∧ picks (tableOf [1, 1]) 0 k = some 1 := by
  have hg : Grouped (tableOf [1, 1]) := grouped_of_equal (by decide)
  refine ((equal_priorities_take_turns (tableOf [1, 1]) 0 rfl 0).2.2 hg).2 0 2 0 (by decide)
    (by decide) (by decide) (fun k h0 h2 => ?_) 1 (by decide) rfl rfl
  obtain rfl : k = 1 := by omega
  decide

/-- A process of lower priority in a slot between two of the highest: the second one never runs,
although the first one runs again and again. -/
theorem equal_priority_starves :
    (tableOf [2, 1, 2] 2).state = .RUNNABLE ∧ (tableOf [2, 1, 2] 2).prio =
      (tableOf [2, 1, 2] 0).prio ∧
      ∀ n, picks (tableOf [2, 1, 2]) 0 n = some 0 := by
  refine ⟨rfl, rfl, fun n => ?_⟩
  induction n with
  | zero => decide
  | succ n ih =>
      rw [picks, ih, Option.bind_some]
      decide

end Xv6
