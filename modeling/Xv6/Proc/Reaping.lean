import Xv6.Proc.Invariant
import Mathlib.Algebra.Order.Ring.Int

/-!
# Pids, exit statuses and who reaps whom

As long as fewer than `2 ^ 31` pids have been handed out, the pids in the table are distinct
and every new one is larger than all before (`Pids`).  So the events of a run tell the
processes apart by their pids, and `History` relates them to the table: a zombie carries the
status of its `exit`, and a pid that `wait` or `waitpid` has returned is in no slot that is
in use.
-/

namespace Xv6

open Lib ProcState

/-- How many pids `allocproc` has handed out. -/
def handedOut (es : List Event) : ℕ :=
  es.countP fun e => match e with
    | .allocated _ _ => true
    | _ => false

/-- The value that a call of `wait` or `waitpid` has returned. -/
def Event.returned : Event → Option ℤ
  | .waitReturned _ _ ret _ => some ret
  | .waitpidReturned _ _ _ ret _ => some ret
  | _ => none

/-- The argument `st` of a call of `wait` or `waitpid`, and what was stored through it. -/
def Event.status : Event → Option (ℕ × Option ℤ)
  | .waitReturned _ st _ stored => some (st, stored)
  | .waitpidReturned _ _ st _ stored => some (st, stored)
  | _ => none

/-- How many calls of `wait` and `waitpid` have returned the pid. -/
def returns (pid : ℤ) (es : List Event) : ℕ := es.countP fun e => e.returned == some pid

section Pids

variable {s s' : PTable} {i p np : Slot} {st : ℕ} {pid : ℤ} {e : Option Event} {l : Step} {n : ℕ}

/-- The pids in the table when `n` pids have been handed out. -/
structure Pids (n : ℕ) (s : PTable) : Prop where
  next : n + 1 < 2 ^ 31 → s.nextpid = n + 1
  range : ∀ p, 0 ≤ (s.proc p).pid ∧ (s.proc p).pid ≤ n
  used : ∀ p, (s.proc p).state ≠ UNUSED → 0 < (s.proc p).pid
  uniq : ∀ p q, (s.proc p).pid = (s.proc q).pid → 0 < (s.proc p).pid → p = q
  waited : ∀ i pid st p, s.call i = .waitpid pid st p → 0 < pid ∧ pid ≤ n ∧
    ∀ q, (s.proc q).pid = pid → q = p

namespace Pids

/-- Steps that hand out no pid and free no slot. -/
lemma congr (h : Pids n s) (hnext : s'.nextpid = s.nextpid)
    (hpid : ∀ p, (s'.proc p).pid = (s.proc p).pid)
    (hused : ∀ p, (s.proc p).state = UNUSED → (s'.proc p).state = UNUSED)
    (hcall : ∀ i pid st p, s'.call i = .waitpid pid st p → s.call i = .waitpid pid st p ∨
      (0 < pid ∧ (s.proc p).pid = pid)) : Pids n s' := by
  refine ⟨fun hn => by rw [hnext, h.next hn], fun p => by rw [hpid]; exact h.range p, ?_, ?_, ?_⟩
  · intro p hp
    rw [hpid]
    exact h.used p fun hu => hp (hused p hu)
  · intro p q hpq hpos
    rw [hpid, hpid] at hpq
    exact h.uniq p q hpq (by rwa [hpid] at hpos)
  · intro i pid st p hc
    rcases hcall i pid st p hc with hc | ⟨hpos, hp⟩
    · obtain ⟨hpos, hle, huniq⟩ := h.waited i pid st p hc
      exact ⟨hpos, hle, fun q hq => huniq q (by rwa [← hpid])⟩
    · refine ⟨hpos, hp ▸ (h.range p).2, fun q hq => ?_⟩
      rw [hpid] at hq
      exact h.uniq q p (by rw [hq, hp]) (by rw [hq]; exact hpos)

lemma wakeFrom (h : Pids n s) (hs : (s.proc i).state = RUNNABLE) : Pids n (wakeFrom i s) :=
  h.congr rfl (by grind) (by grind) (by grind)

/-- A slot that is freed loses its pid. -/
lemma reap (h : Pids n s) : Pids n (reap p s) := by
  obtain ⟨hnext, hrange, hused, huniq, hwaited⟩ := h
  refine ⟨hnext, fun q => ?_, ?_, ?_, ?_⟩
  · have := hrange q
    grind
  · grind
  · grind
  · grind

lemma wait (h : Pids n s) (hi : s.Free i) (hw : Waited s i st s' e) : Pids n s' := by
  cases hw with
  | reap q hq => exact h.reap
  | fail => exact h
  | sleep hz => exact h.congr rfl (by grind) (by grind [PTable.Free]) (by grind)

lemma waitpid (h : Pids n s) (hi : s.Free i) (hw : Waitpided s i pid st s' e) : Pids n s' := by
  cases hw with
  | reap q _ hq => exact h.reap
  | stale q => exact h
  | fail => exact h
  | sleep q hpid hz hu =>
      have hpos := h.used q hu
      exact h.congr rfl (by grind) (by grind [PTable.Free]) (by grind)

/-- The pid of a new process is larger than all that are in the table. -/
lemma alloc (h : Pids n s) (hn : n + 1 < 2 ^ 31) :
    Pids (n + 1) ((takeSlot np s).setCall i (.fork np false)) := by
  have hnext := h.next hn
  refine ⟨fun hn' => ?_, fun q => ?_, fun q hq => ?_, fun q r hqr hpos => ?_, ?_⟩
  · rw [PTable.setCall_nextpid, takeSlot_nextpid, hnext, incInt_eq (by omega) (by omega)]
    push_cast
    rfl
  · have := h.range q
    grind
  · have := h.used q
    grind
  · have hq := h.range q
    have hr := h.range r
    have := h.uniq q r
    grind
  · intro j pid st q hc
    obtain ⟨hpos, hle, huniq⟩ := h.waited j pid st q (by grind)
    refine ⟨hpos, by push_cast; omega, fun r hr => huniq r ?_⟩
    have := h.range r
    grind

end Pids

lemma handedOut_append (es : List Event) (e : Option Event) :
    handedOut (es ++ e.toList) = handedOut es + handedOut e.toList := by
  simp [handedOut, List.countP_append]

lemma Pids.step {es : List Event} (h : Pids (handedOut es) s) (hf : Family s)
    (hn : handedOut (es ++ e.toList) < 2 ^ 31) (hs : Stepped s l s' e) :
    Pids (handedOut (es ++ e.toList)) s' := by
  rw [handedOut_append] at hn ⊢
  have hplain : handedOut e.toList = 0 → Pids (handedOut es) s' →
      Pids (handedOut es + handedOut e.toList) s' := fun h0 hp => by rwa [h0, add_zero]
  cases hs with
  | alloc i np hi hnp => exact h.alloc hn
  | resume i hs hc => exact h.wakeFrom hs
  | resumeWait i st hs hc hw =>
      exact hplain (by cases hw <;> rfl) ((h.wakeFrom hs).wait (by simp [PTable.Free]) hw)
  | resumeWaitpid i pid st q hs hc hw =>
      exact hplain (by cases hw <;> rfl) ((h.wakeFrom hs).waitpid (by simp [PTable.Free]) hw)
  | wait i st hi hw => exact hplain (by cases hw <;> rfl) (h.wait hi hw)
  | waitpid i pid st op hi hw => exact hplain (by cases hw <;> rfl) (h.waitpid hi hw)
  | exit i st hi hne hx =>
      obtain ⟨hcall, hnext, x, -, -, hproc⟩ := hx
      exact hplain rfl (h.congr hnext (by grind) (by grind [PTable.Free]) (by grind))
  | forkDone i np hs hc =>
      have hnp := (hf.fork i np true hc).1
      exact hplain rfl (h.congr rfl (by grind) (by grind) (by grind))
  | _ => exact hplain rfl (h.congr rfl (by grind) (by grind [PTable.Free]) (by grind))

lemma PRun.pids {ok : PTable → Step → Prop} {es : List Event} (h : PRun ok es s)
    (hn : handedOut es < 2 ^ 31) : Pids (handedOut es) s := by
  induction h with
  | start =>
      refine ⟨fun _ => userinit_nextpid, ?_, ?_, ?_, by simp [userinit_call]⟩
      · intro p
        rw [userinit_proc]
        split_ifs <;> simp [handedOut]
      · grind [userinit_proc]
      · grind [userinit_proc]
  | step hr hk hs ih =>
      rw [handedOut_append] at hn
      exact (ih (by omega)).step (PRun.family hr) (by rwa [handedOut_append]) (step_stepped hs)

end Pids

/-! ## What the events say about the table -/

section History

variable {s s' : PTable} {i p np : Slot} {st : ℕ} {pid q : ℤ} {e : Option Event} {l : Step}
  {es : List Event} {x : Event}

lemma returns_append (q : ℤ) (es : List Event) (x : Event) :
    returns q (es ++ [x]) = returns q es + if x.returned = some q then 1 else 0 := by
  simp [returns, List.countP_append, List.countP_singleton]

/-- The events so far, against the table. -/
structure History (es : List Event) (s : PTable) : Prop where
  zombie : ∀ p, (s.proc p).state = ZOMBIE → .exited (s.proc p).pid (s.proc p).est ∈ es
  exited : ∀ (q st : ℤ), .exited q st ∈ es → 0 < q ∧ q ≤ handedOut es ∧
    ∀ p, (s.proc p).pid = q → (s.proc p).state = ZOMBIE ∧ (s.proc p).est = st
  returned : ∀ x ∈ es, ∀ q : ℤ, x.returned = some q → q ≠ -1 → q ≤ handedOut es ∧
    ∀ p, (s.proc p).pid = q → (s.proc p).state = UNUSED
  once : ∀ q st, .exited q st ∈ es → returns q es ≤ 1
  status : ∀ q st, .exited q st ∈ es → ∀ x ∈ es, x.returned = some q →
    ∀ a v, x.status = some (a, v) → v = store a st

namespace History

/-- A pid that is in a slot in use has not been returned yet. -/
lemma returns_eq_zero (h : History es s) (hp : (s.proc p).pid = q) (hq : q ≠ -1)
    (hu : (s.proc p).state ≠ UNUSED) : returns q es = 0 := by
  refine List.countP_eq_zero.2 fun x hx hret => hu ?_
  exact (h.returned x hx q (by simpa using hret) hq).2 p hp

/-- Steps that free no slot, make no zombie and return from neither `wait` nor `waitpid`. -/
lemma congr (h : History es s) (he : ∀ x ∈ e.toList, x.returned = none ∧ ∀ q st, x ≠ .exited q st)
    (hpid : ∀ p, (s'.proc p).pid = (s.proc p).pid) (hest : ∀ p, (s'.proc p).est = (s.proc p).est)
    (hz : ∀ p, (s'.proc p).state = ZOMBIE ↔ (s.proc p).state = ZOMBIE)
    (hu : ∀ p, (s.proc p).state = UNUSED → (s'.proc p).state = UNUSED) :
    History (es ++ e.toList) s' := by
  have hmem : ∀ q st, .exited q st ∈ es ++ e.toList → .exited q st ∈ es := by
    intro q st hx
    rcases List.mem_append.1 hx with hx | hx
    · exact hx
    · exact absurd rfl ((he _ hx).2 q st)
  have hmem' : ∀ x ∈ es ++ e.toList, ∀ q, x.returned = some q → x ∈ es := by
    intro x hx q hq
    rcases List.mem_append.1 hx with hx | hx
    · exact hx
    · simp [(he _ hx).1] at hq
  have hle : handedOut es ≤ handedOut (es ++ e.toList) := by
    rw [handedOut_append]
    omega
  refine ⟨?_, ?_, ?_, ?_, ?_⟩
  · intro p hp
    rw [hpid, hest]
    exact List.mem_append_left _ (h.zombie p ((hz p).1 hp))
  · intro q st hx
    obtain ⟨hpos, hq, hslot⟩ := h.exited q st (hmem q st hx)
    refine ⟨hpos, by omega, fun p hp => ?_⟩
    rw [hpid] at hp
    rw [hz, hest]
    exact hslot p hp
  · intro x hx q hq hne
    obtain ⟨hq', hslot⟩ := h.returned x (hmem' x hx q hq) q hq hne
    refine ⟨by omega, fun p hp => hu p (hslot p ?_)⟩
    rwa [hpid] at hp
  · intro q st hx
    have hzero : returns q e.toList = 0 := by
      refine List.countP_eq_zero.2 fun y hy => ?_
      simp [(he y hy).1]
    have := h.once q st (hmem q st hx)
    simp only [returns, List.countP_append] at this hzero ⊢
    omega
  · intro q st hx x hx' hq
    exact h.status q st (hmem q st hx) x (hmem' x hx' q hq) hq

lemma mem_exited_append {v st : ℤ} (hx : x.returned = some v) :
    Event.exited q st ∈ es ++ [x] ↔ .exited q st ∈ es := by
  rw [List.mem_append, List.mem_singleton]
  refine or_iff_left ?_
  rintro rfl
  simp [Event.returned] at hx

lemma handedOut_append_return {v : ℤ} (hx : x.returned = some v) :
    handedOut (es ++ [x]) = handedOut es := by
  cases x <;> simp_all [handedOut, Event.returned]

/-- A call that returns `-1`, or a pid of no process that has exited. -/
lemma addReturn {v : ℤ} (h : History es s) (hx : x.returned = some v)
    (hslot : v ≠ -1 → v ≤ handedOut es ∧ ∀ p, (s.proc p).pid = v → (s.proc p).state = UNUSED)
    (hnot : ∀ st, .exited v st ∉ es) : History (es ++ [x]) s := by
  refine ⟨?_, ?_, ?_, ?_, ?_⟩
  · intro p hp
    exact List.mem_append_left _ (h.zombie p hp)
  · intro q st hq
    rw [handedOut_append_return hx]
    exact h.exited q st ((mem_exited_append hx).1 hq)
  · intro y hy q hq hne
    rw [handedOut_append_return hx]
    rcases List.mem_append.1 hy with hy | hy
    · exact h.returned y hy q hq hne
    · obtain rfl := List.mem_singleton.1 hy
      obtain rfl : v = q := by simpa [hx] using hq
      exact hslot hne
  · intro q st hq
    rw [mem_exited_append hx] at hq
    have hne : x.returned ≠ some q := by
      rw [hx]
      rintro heq
      obtain rfl := Option.some.inj heq
      exact hnot st hq
    rw [returns_append, if_neg hne, add_zero]
    exact h.once q st hq
  · intro q st hq y hy hret
    rw [mem_exited_append hx] at hq
    rcases List.mem_append.1 hy with hy | hy
    · exact h.status q st hq y hy hret
    · obtain rfl := List.mem_singleton.1 hy
      obtain rfl : v = q := by simpa [hx] using hret
      exact absurd hq (hnot st)

lemma fail (h : History es s) (hx : x.returned = some (-1)) : History (es ++ [x]) s :=
  h.addReturn hx (by simp) fun st hmem => absurd (h.exited _ st hmem).1 (by omega)

/-- `waitpid` returns from a slot that is not in use: no process that has exited had its pid. -/
lemma stale (h : History es s) (hp : Pids (handedOut es) s) (hu : (s.proc p).state = UNUSED)
    (hx : x.returned = some (s.proc p).pid) : History (es ++ [x]) s := by
  refine h.addReturn hx (fun _ => ⟨(hp.range p).2, fun r hr => ?_⟩) fun st hmem => ?_
  · by_contra hne
    have hpos := hp.used r hne
    rw [hp.uniq r p hr hpos] at hne
    exact hne hu
  · have := ((h.exited _ st hmem).2.2 p rfl).1
    simp [hu] at this

/-- A zombie is reaped: its pid is returned for the first time, with its status. -/
lemma reap (h : History es s) (hp : Pids (handedOut es) s) (hz : (s.proc p).state = ZOMBIE)
    (hx : x.returned = some (s.proc p).pid)
    (hstatus : ∀ a v, x.status = some (a, v) → v = store a (s.proc p).est) :
    History (es ++ [x]) (reap p s) := by
  have hpos : 0 < (s.proc p).pid := hp.used p (by simp [hz])
  have hother : ∀ r, ((Xv6.reap p s).proc r).pid ≠ 0 → r ≠ p := by
    rintro r hr rfl
    simp at hr
  have hsame : ∀ r, r ≠ p → (Xv6.reap p s).proc r = s.proc r := fun r hr => by simp [hr]
  refine ⟨?_, ?_, ?_, ?_, ?_⟩
  · intro r hr
    have hrp : r ≠ p := by
      rintro rfl
      simp at hr
    rw [hsame r hrp] at hr ⊢
    exact List.mem_append_left _ (h.zombie r hr)
  · intro q st hq
    rw [handedOut_append_return hx]
    obtain ⟨hq0, hqn, hslot⟩ := h.exited q st ((mem_exited_append hx).1 hq)
    refine ⟨hq0, hqn, fun r hr => ?_⟩
    have hrp := hother r (by omega)
    rw [hsame r hrp] at hr ⊢
    exact hslot r hr
  · intro y hy q hq hne
    rw [handedOut_append_return hx]
    rcases List.mem_append.1 hy with hy | hy
    · obtain ⟨hqn, hslot⟩ := h.returned y hy q hq hne
      refine ⟨hqn, fun r hr => ?_⟩
      by_cases hrp : r = p
      · simp [hrp]
      · rw [hsame r hrp] at hr ⊢
        exact hslot r hr
    · obtain rfl := List.mem_singleton.1 hy
      obtain rfl : (s.proc p).pid = q := by simpa [hx] using hq
      refine ⟨(hp.range p).2, fun r hr => ?_⟩
      have hrp := hother r (by omega)
      rw [hsame r hrp] at hr
      exact absurd (hp.uniq r p hr (by omega)) hrp
  · intro q st hq
    rw [mem_exited_append hx] at hq
    rw [returns_append]
    by_cases hqp : (s.proc p).pid = q
    · rw [h.returns_eq_zero hqp (by omega) (by simp [hz])]
      split_ifs <;> omega
    · rw [if_neg (by simpa [hx] using hqp), add_zero]
      exact h.once q st hq
  · intro q st hq y hy hret a v hv
    rw [mem_exited_append hx] at hq
    rcases List.mem_append.1 hy with hy | hy
    · exact h.status q st hq y hy hret a v hv
    · obtain rfl := List.mem_singleton.1 hy
      obtain rfl : (s.proc p).pid = q := by simpa [hx] using hret
      rw [hstatus a v hv, ((h.exited _ st hq).2.2 p rfl).2]

/-- A process exits: nobody has returned its pid yet. -/
lemma exit {st : ℤ} (h : History es s) (hp : Pids (handedOut es) s) (hi : s.Free i)
    (hx : Exited s i st s') : History (es ++ [.exited (s.proc i).pid st]) s' := by
  obtain ⟨-, -, x, -, -, hproc⟩ := hx
  have hpos : 0 < (s.proc i).pid := hp.used i (by simp [hi.1])
  have hnot : ∀ st', .exited (s.proc i).pid st' ∉ es := by
    intro st' hmem
    have := ((h.exited _ st' hmem).2.2 i rfl).1
    simp [hi.1] at this
  have hmem : ∀ q st', Event.exited q st' ∈ es ++ [.exited (s.proc i).pid st] →
      .exited q st' ∈ es ∨ (q = (s.proc i).pid ∧ st' = st) := by
    intro q st' hq
    simpa using hq
  have hle : handedOut (es ++ [.exited (s.proc i).pid st]) = handedOut es := by
    simp [handedOut]
  have hret : ∀ y ∈ es ++ [.exited (s.proc i).pid st], ∀ q, y.returned = some q → y ∈ es := by
    intro y hy q hq
    rcases List.mem_append.1 hy with hy | hy
    · exact hy
    · obtain rfl := List.mem_singleton.1 hy
      simp [Event.returned] at hq
  have hpid : ∀ r, (s'.proc r).pid = (s.proc r).pid := by grind
  have hrun := hi.1
  rw [← hle] at hp
  refine ⟨?_, ?_, ?_, ?_, ?_⟩
  · intro r hr
    by_cases hri : r = i
    · subst hri
      simp [hproc]
    · have hz : (s.proc r).state = ZOMBIE := by grind
      have hmem := h.zombie r hz
      have hest : (s'.proc r).est = (s.proc r).est := by grind
      rw [hpid, hest]
      exact List.mem_append_left _ hmem
  · intro q st' hq
    rw [hle]
    rcases hmem q st' hq with hq | ⟨rfl, rfl⟩
    · obtain ⟨hq0, hqn, hslot⟩ := h.exited q st' hq
      refine ⟨hq0, hqn, fun r hr => ?_⟩
      rw [hpid] at hr
      have := hslot r hr
      grind
    · refine ⟨hpos, hle ▸ (hp.range i).2, fun r hr => ?_⟩
      rw [hpid] at hr
      have := hp.uniq r i hr (by omega)
      grind
  · intro y hy q hq hne
    rw [hle]
    obtain ⟨hqn, hslot⟩ := h.returned y (hret y hy q hq) q hq hne
    refine ⟨hqn, fun r hr => ?_⟩
    rw [hpid] at hr
    have := hslot r hr
    grind
  · intro q st' hq
    rw [returns_append, if_neg (by simp [Event.returned]), add_zero]
    rcases hmem q st' hq with hq | ⟨rfl, -⟩
    · exact h.once q st' hq
    · rw [h.returns_eq_zero rfl (by omega) (by simp [hi.1])]
      omega
  · intro q st' hq y hy hyq a v hv
    have hy' := hret y hy q hyq
    rcases hmem q st' hq with hq | ⟨rfl, -⟩
    · exact h.status q st' hq y hy' hyq a v hv
    · have := (h.returned y hy' _ hyq (by omega)).2 i rfl
      simp [hi.1] at this

/-- A new process has a pid that no event speaks about. -/
lemma alloc (h : History es s) (hp : Pids (handedOut es) s) (hn : handedOut es + 1 < 2 ^ 31) :
    History (es ++ [.allocated np s.nextpid]) ((takeSlot np s).setCall i (.fork np false)) := by
  have hnext := hp.next hn
  have hle : handedOut (es ++ [.allocated np s.nextpid]) = handedOut es + 1 := by
    simp [handedOut]
  have hmem : ∀ q st, Event.exited q st ∈ es ++ [.allocated np s.nextpid] → .exited q st ∈ es := by
    intro q st hq
    simpa using hq
  have hret : ∀ y ∈ es ++ [.allocated np s.nextpid], ∀ q, y.returned = some q → y ∈ es := by
    intro y hy q hq
    rcases List.mem_append.1 hy with hy | hy
    · exact hy
    · obtain rfl := List.mem_singleton.1 hy
      simp [Event.returned] at hq
  refine ⟨?_, ?_, ?_, ?_, ?_⟩
  · intro r hr
    have hz : (s.proc r).state = ZOMBIE ∧ r ≠ np := by grind
    have := h.zombie r hz.1
    exact List.mem_append_left _ (by grind)
  · intro q st hq
    obtain ⟨hq0, hqn, hslot⟩ := h.exited q st (hmem q st hq)
    refine ⟨hq0, by rw [hle]; push_cast; omega, fun r hr => ?_⟩
    have := hslot r
    grind
  · intro y hy q hq hne
    obtain ⟨hqn, hslot⟩ := h.returned y (hret y hy q hq) q hq hne
    refine ⟨by rw [hle]; push_cast; omega, fun r hr => ?_⟩
    have := hslot r
    grind
  · intro q st hq
    rw [returns_append, if_neg (by simp [Event.returned]), add_zero]
    exact h.once q st (hmem q st hq)
  · intro q st hq y hy hyq
    exact h.status q st (hmem q st hq) y (hret y hy q hyq) hyq

lemma waited (h : History es s) (hp : Pids (handedOut es) s) (hi : s.Free i)
    (hw : Waited s i st s' e) : History (es ++ e.toList) s' := by
  cases hw with
  | reap r hr => exact h.reap hp hr.2 rfl (by simp [Event.status])
  | fail => exact h.fail rfl
  | sleep hz =>
      have hrun := hi.1
      exact h.congr (by simp) (by grind) (by grind) (by grind) (by grind)

lemma waitpided (h : History es s) (hp : Pids (handedOut es) s) (hi : s.Free i)
    (hw : Waitpided s i pid st s' e) : History (es ++ e.toList) s' := by
  cases hw with
  | reap r _ hr => exact h.reap hp hr rfl (by simp [Event.status])
  | stale r hpid hr => exact h.stale hp hr (by rw [hpid]; rfl)
  | fail => exact h.fail rfl
  | sleep r =>
      have hrun := hi.1
      exact h.congr (by simp) (by grind) (by grind) (by grind) (by grind)

lemma wakeFrom (h : History es s) (hs : (s.proc i).state = RUNNABLE) :
    History es (wakeFrom i s) := by
  have hsame : History (es ++ (none : Option Event).toList) (Xv6.wakeFrom i s) :=
    h.congr (by simp) (by grind) (by grind) (by grind) (by grind)
  simpa using hsame

lemma step (h : History es s) (hp : Pids (handedOut es) s) (hf : Family s)
    (hn : handedOut (es ++ e.toList) < 2 ^ 31) (hs : Stepped s l s' e) :
    History (es ++ e.toList) s' := by
  have hfree : ∀ i, (Xv6.wakeFrom i s).Free i := fun i => by simp [PTable.Free]
  cases hs with
  | resume i hs hc => simpa using h.wakeFrom hs
  | resumeWait i st hs hc hw => exact (h.wakeFrom hs).waited (hp.wakeFrom hs) (hfree i) hw
  | resumeWaitpid i pid st r hs hc hw =>
      exact (h.wakeFrom hs).waitpided (hp.wakeFrom hs) (hfree i) hw
  | wait i st hi hw => exact h.waited hp hi hw
  | waitpid i pid st op hi hw => exact h.waitpided hp hi hw
  | exit i st hi hne hx => exact h.exit hp hi hx
  | alloc i np hi hnp =>
      rw [handedOut_append] at hn
      exact h.alloc hp hn
  | forkFail i np hs hc =>
      have hnp := (hf.fork i np false hc).1
      exact h.congr (by simp) (by grind) (by grind) (by grind) (by grind)
  | forkDone i np hs hc =>
      have hnp := (hf.fork i np true hc).1
      exact h.congr (by simp [Event.returned]) (by grind) (by grind) (by grind) (by grind)
  | _ =>
      exact h.congr (by simp [Event.returned]) (by grind) (by grind) (by grind [PTable.Free])
        (by grind [PTable.Free])

end History

lemma PRun.history {ok : PTable → Step → Prop} (h : PRun ok es s)
    (hn : handedOut es < 2 ^ 31) : History es s := by
  induction h with
  | start =>
      refine ⟨?_, by simp, by simp [Event.returned], by simp, by simp⟩
      grind [userinit_proc]
  | step hr hk hs ih =>
      have hn' := hn
      rw [handedOut_append] at hn'
      exact (ih (by omega)).step (PRun.pids hr (by omega)) (PRun.family hr) hn (step_stepped hs)

/-- What a step that returns from `wait` has done. -/
lemma waitReturned_cases {a : ℕ} {ret : ℤ} {stored : Option ℤ}
    (hs : Stepped s l s' (some (.waitReturned i a ret stored))) (hret : ret ≠ -1) :
    ∃ p, s.ZombieChild i p ∧ (s.proc p).pid = ret ∧ (s'.proc p).state = UNUSED := by
  have key : ∀ {s₀ s' : PTable} {j : Slot} {st : ℕ} {e : Option Event},
      Waited s₀ j st s' e → e = some (.waitReturned i a ret stored) →
      j = i ∧ ∃ p, s₀.ZombieChild i p ∧ (s₀.proc p).pid = ret ∧ (s'.proc p).state = UNUSED := by
    intro s₀ s' j st e hw he
    cases hw with
    | reap p hz =>
        obtain ⟨rfl, -, rfl, -⟩ : j = i ∧ st = a ∧ (s₀.proc p).pid = ret ∧ _ := by
          simpa using he
        exact ⟨rfl, p, hz, rfl, by simp⟩
    | fail =>
        obtain ⟨-, -, rfl, -⟩ : j = i ∧ st = a ∧ -1 = ret ∧ _ := by simpa using he
        exact absurd rfl hret
    | sleep hz => exact absurd he (by simp)
  generalize he : some (Event.waitReturned i a ret stored) = e at hs
  cases hs with
  | wait j st hj hw => exact (key hw he.symm).2
  | resumeWait j st hj hc hw =>
      obtain ⟨rfl, p, hz, hp, hu⟩ := key hw he.symm
      have hpj : p ≠ j := by
        rintro rfl
        have := hz.2
        simp at this
      refine ⟨p, ?_, ?_, hu⟩
      · simpa [PTable.ZombieChild, hpj] using hz
      · simpa [hpj] using hp
  | resumeWaitpid j pid st q hj hc hw =>
      cases hw <;> simp at he
  | waitpid j pid st op hj hw => cases hw <;> simp at he
  | _ => simp at he

/-- **Exactly-once reaping with the right status.**  In every run that has handed out fewer
than `2 ^ 31` pids: the pid of a process that executed `exit(st)` is returned by at most one
call of `wait` or `waitpid`, the call that returns it stores `st` if its argument is not
null, and a call of `wait` that returns a pid has reaped a process that had exited and whose
parent is the caller. -/
theorem reaped_at_most_once (h : PRun (fun _ _ => True) es s) (hn : handedOut es < 2 ^ 31) :
    (∀ q st, .exited q st ∈ es → returns q es ≤ 1 ∧
      ∀ x ∈ es, x.returned = some q → ∀ a v, x.status = some (a, v) →
        v = if a = 0 then none else some st) ∧
    ∀ l s' i a q stored, step s l = some (s', some (.waitReturned i a q stored)) → q ≠ -1 →
      ∃ p st, (s.proc p).state = ZOMBIE ∧ (s.proc p).pid = q ∧ (s.proc p).parent = some i ∧
        .exited q st ∈ es ∧ (s'.proc p).state = UNUSED := by
  have hist := PRun.history h hn
  refine ⟨fun q st hq => ⟨hist.once q st hq, hist.status q st hq⟩, ?_⟩
  intro l s' i a q stored hs hq
  obtain ⟨p, ⟨hpar, hz⟩, rfl, hu⟩ := waitReturned_cases (step_stepped hs) hq
  exact ⟨p, (s.proc p).est, hz, rfl, hpar, hist.zombie p hz, hu⟩

/-- Init forks process 2, which exits with status 7 and is reaped by a `wait` of init. -/
theorem reaped_at_most_once_child : ∃ es s, PRun (fun _ _ => True) es s ∧
    .exited 2 7 ∈ es ∧ .waitReturned 0 4 2 (some 7) ∈ es ∧ returns 2 es ≤ 1 ∧
    ∀ x ∈ es, x.returned = some 2 → ∀ a v, x.status = some (a, v) →
      v = if a = 0 then none else some 7 := by
  obtain ⟨es, s, h, hn, hex, hret⟩ := PRun.of_steps (fun _ _ => True)
    (fun es _ => handedOut es < 2 ^ 31 ∧ .exited 2 7 ∈ es ∧ .waitReturned 0 4 2 (some 7) ∈ es)
    [.dispatch 0, .forkAlloc 0, .forkLink 0, .forkDone 0, .dispatch 1, .exit 1 7, .wait 0 4]
    (by decide +kernel)
  exact ⟨es, s, h, hex, hret, (reaped_at_most_once h hn).1 2 7 hex⟩

/-! ## Whether `waitpid` tells the truth -/

/-- No process has the pid.  A slot that is `EMBRYO` is not a process yet; the `fork` that has taken
it may still fail. -/
def PTable.Unnamed (s : PTable) (pid : ℤ) : Prop :=
  ∀ p, (s.proc p).pid = pid → (s.proc p).state = UNUSED ∨ (s.proc p).state = EMBRYO

instance (s : PTable) (pid : ℤ) : Decidable (s.Unnamed pid) :=
  inferInstanceAs
    (Decidable (∀ p, (s.proc p).pid = pid → (s.proc p).state = UNUSED ∨ (s.proc p).state = EMBRYO))

/-- The pid of every process but the first has been returned by a `fork`. -/
def Born (es : List Event) (s : PTable) : Prop :=
  ∀ p, (s.proc p).state ≠ UNUSED → (s.proc p).state ≠ EMBRYO →
    (s.proc p).pid = 1 ∨ ∃ i, .forked i (s.proc p).pid ∈ es

/-- Steps after which only slots are processes that were so before, with the same pid. -/
lemma Born.congr (h : Born es s) (hslot : ∀ p, (s'.proc p).state ≠ UNUSED →
    (s'.proc p).state ≠ EMBRYO →
    (s.proc p).state ≠ UNUSED ∧ (s.proc p).state ≠ EMBRYO ∧ (s'.proc p).pid = (s.proc p).pid) :
    Born (es ++ e.toList) s' := by
  intro p hu he
  obtain ⟨hu', he', hpid⟩ := hslot p hu he
  rw [hpid]
  refine (h p hu' he').imp_right ?_
  rintro ⟨i, hi⟩
  exact ⟨i, List.mem_append_left _ hi⟩

lemma Born.step (h : Born es s) (hs : Stepped s l s' e) : Born (es ++ e.toList) s' := by
  cases hs with
  | alloc i np hi hnp => exact h.congr (by grind)
  | resumeWait i st hs hc hw => cases hw <;> exact h.congr (by grind)
  | resumeWaitpid i pid st q hs hc hw => cases hw <;> exact h.congr (by grind)
  | wait i st hi hw => cases hw <;> exact h.congr (by grind [PTable.Free])
  | waitpid i pid st op hi hw => cases hw <;> exact h.congr (by grind [PTable.Free])
  | exit i st hi hne hx =>
      obtain ⟨hcall, hnext, x, -, -, hproc⟩ := hx
      exact h.congr (by grind [PTable.Free])
  | forkDone i np hs hc =>
      intro p hu he
      by_cases hp : p = np
      · exact .inr ⟨i, by simp [hp]⟩
      · refine (h p (by grind) (by grind)).imp (by grind) ?_
        rintro ⟨j, hj⟩
        exact ⟨j, List.mem_append_left _ (by grind)⟩
  | _ => exact h.congr (by grind [PTable.Free])

lemma PRun.born {ok : PTable → Step → Prop} (h : PRun ok es s) : Born es s := by
  refine h.invariant (I := Born) ?_ fun hI _ hs => hI.step (step_stepped hs)
  intro p hu _
  refine .inl ?_
  grind [userinit_proc]

/-- The pids that are not positive, have not been handed out yet, or not by a `fork` that was
successful, or have been returned by `wait` or `waitpid` before name no process. -/
lemma unnamed_of (hp : Pids (handedOut es) s) (h : History es s) (hb : Born es s)
    (hpid : pid ≤ 0 ∨ handedOut es < pid ∨ (pid ≠ 1 ∧ ∀ i, .forked i pid ∉ es) ∨
      ∃ x ∈ es, x.returned = some pid) : s.Unnamed pid := by
  intro p hpp
  by_contra hno
  obtain ⟨hu, he⟩ := not_or.1 hno
  have hpos := hp.used p hu
  have hle := (hp.range p).2
  rcases hpid with hneg | hnew | ⟨hne, hfork⟩ | ⟨x, hx, hret⟩
  · omega
  · omega
  · rcases hb p hu he with hone | ⟨i, hi⟩
    · exact hne (hpp.symm.trans hone)
    · exact hfork i (hpp ▸ hi)
  · exact hu ((h.returned x hx pid hret (by omega)).2 p hpp)

/-- The step is a critical section of a call `waitpid(pid, st, op)` of process `i`: the first
one, or the one after a sleep in that call. -/
def InWaitpid (s : PTable) (l : Step) (i : Slot) (pid : ℤ) (st : ℕ) : Prop :=
  (∃ op, l = .waitpid i pid st op) ∨ l = .dispatch i ∧ ∃ p, s.call i = .waitpid pid st p

/-- What `waitpid` says is true: if it returns anything but `-1`, it has just freed the slot
of a process with that pid that had exited, and stores the status of that exit; and for a
pid that names no process it returns `-1` and stores `-1`. -/
def Truthful (es : List Event) (s s' : PTable) (i : Slot) (pid : ℤ) (st : ℕ)
    (e : Option Event) : Prop :=
  (∀ ret stored, e = some (.waitpidReturned i pid st ret stored) → ret ≠ -1 →
    ∃ p v, .exited pid v ∈ es ∧ (s.proc p).pid = pid ∧ (s.proc p).state = ZOMBIE ∧
      (s'.proc p).state = UNUSED ∧ ret = pid ∧ stored = store st v) ∧
  (s.Unnamed pid → e = some (.waitpidReturned i pid st (-1) (store st (-1))))

/-- A scan of the whole table for the pid of a slot that is not in use ends in such a slot. -/
lemma waitpidScan_stale {n : ℕ} (hp : Pids n s) (hpid : (s.proc p).pid = pid)
    (hu : (s.proc p).state = UNUSED) :
    ∃ r, waitpidScan pid s slots = some (.stale r) := by
  cases hf : slots.find? fun p => (s.proc p).pid == pid with
  | none =>
      have := List.find?_eq_none.1 hf p (mem_slots p)
      simp [hpid] at this
  | some r =>
      have hr : (s.proc r).pid = pid := by simpa using List.find?_some hf
      have hur : (s.proc r).state = UNUSED := by
        by_contra hne
        have := hp.uniq r p (by rw [hr, hpid]) (hp.used r hne)
        exact hne (this ▸ hu)
      exact ⟨r, by simp [waitpidScan, hf, hur]⟩

/-- A scan for the pid of a slot that `fork` is filling ends in that slot. -/
lemma waitpidScan_embryo {n : ℕ} (hp : Pids n s) (hpid : (s.proc p).pid = pid)
    (he : (s.proc p).state = EMBRYO) :
    ∃ r, waitpidScan pid s slots = some (.sleep r) ∧ (s.proc r).state = EMBRYO := by
  cases hf : slots.find? fun p => (s.proc p).pid == pid with
  | none =>
      have := List.find?_eq_none.1 hf p (mem_slots p)
      simp [hpid] at this
  | some r =>
      have hr : (s.proc r).pid = pid := by simpa using List.find?_some hf
      have hpos := hp.used p (by simp [he])
      obtain rfl := hp.uniq p r (by rw [hr, hpid]) hpos
      exact ⟨p, by simp [waitpidScan, hf, he], he⟩

/-- The slots after the one that `waitpid` slept at do not have the pid. -/
lemma waitpidScan_rest (huniq : ∀ q, (s.proc q).pid = pid → q = p) :
    waitpidScan pid s (slots.drop (p.val + 1)) = none := by
  have hnone : (slots.drop (p.val + 1)).find? (fun p => (s.proc p).pid == pid) = none := by
    refine List.find?_eq_none.2 fun q hq hpid => ?_
    obtain rfl := huniq q (by simpa using hpid)
    obtain ⟨k, hk, hget⟩ := List.mem_iff_getElem.1 hq
    rw [List.getElem_drop] at hget
    have hval := congrArg Fin.val hget
    simp only [slots, List.getElem_finRange, Fin.val_cast] at hval
    omega
  simp [waitpidScan, hnone]

/-- `waitpid` tells the truth unless its scan stops at a slot that is no process. -/
lemma truthful_section_iff (i : Slot) (st : ℕ) {n : ℕ} {s₁ : PTable} {o : Outcome} (hp : Pids n s)
    (hist : History es s) (hpid : ∀ p, (s₁.proc p).pid = (s.proc p).pid)
    (hest : ∀ p, (s₁.proc p).est = (s.proc p).est)
    (hz : ∀ p, (s₁.proc p).state = ZOMBIE ↔ (s.proc p).state = ZOMBIE)
    (hu : ∀ p, (s₁.proc p).state = UNUSED ↔ (s.proc p).state = UNUSED)
    (ho : WaitpidOutcome s₁ pid o) :
    Truthful es s (waitpidSection i pid st o s₁).1 i pid st (waitpidSection i pid st o s₁).2 ↔
      (∀ p, o ≠ .stale p) ∧ ∀ p, o = .sleep p → (s.proc p).state ≠ EMBRYO := by
  cases o with
  | reap p =>
      obtain ⟨hpp, hzp⟩ := ho
      rw [hpid] at hpp
      rw [hz] at hzp
      refine iff_of_true ⟨?_, fun hno => ?_⟩ ⟨by simp, by simp⟩
      · intro ret stored he _
        obtain ⟨rfl, rfl⟩ : (s₁.proc p).pid = ret ∧ store st (s₁.proc p).est = stored := by
          simpa [waitpidSection] using he
        refine ⟨p, (s.proc p).est, hpp ▸ hist.zombie p hzp, hpp, hzp, ?_, ?_, ?_⟩
        · simp [waitpidSection]
        · rw [hpid, hpp]
        · rw [hest]
      · have := hno p hpp
        simp [hzp] at this
  | stale p =>
      obtain ⟨hpp, hup⟩ := ho
      rw [hpid] at hpp
      rw [hu] at hup
      refine iff_of_false (fun ht => ?_) (by simp)
      -- the slot with that pid that `waitpid` should have freed is another one
      have hrange := (hp.range p).1
      obtain ⟨r, v, -, hr, hzr, -⟩ := ht.1 pid _ rfl (by omega)
      have hpos := hp.used r (by simp [hzr])
      rw [hp.uniq r p (by rw [hr, hpp]) hpos, hup] at hzr
      simp at hzr
  | fail =>
      refine iff_of_true ⟨?_, fun _ => rfl⟩ ⟨by simp, by simp⟩
      intro ret stored he hret
      obtain ⟨rfl, -⟩ : -1 = ret ∧ store st (-1) = stored := by simpa [waitpidSection] using he
      exact absurd rfl hret
  | sleep p =>
      obtain ⟨hpp, -, hup⟩ := ho
      rw [hpid] at hpp
      rw [Ne, hu] at hup
      -- the call does not return, which is right only if the pid is that of a process
      have hnone : (waitpidSection i pid st (.sleep p) s₁).2 = none := rfl
      rw [Truthful, hnone]
      constructor
      · rintro ⟨-, hunnamed⟩
        refine ⟨by simp, fun r hr hembryo => ?_⟩
        obtain rfl : p = r := by simpa using hr
        refine absurd (hunnamed fun q hq => .inr ?_) (by simp)
        rw [hp.uniq q p (by rw [hq, hpp]) (by rw [hq, ← hpp]; exact hp.used p hup), hembryo]
      · rintro ⟨-, hembryo⟩
        refine ⟨by simp, fun hno => ?_⟩
        exact absurd (hno p hpp) (not_or.2 ⟨hup, hembryo p rfl⟩)

/-- Without a sleep in between, the outcome of `waitpid` is that of one scan. -/
lemma waitpidRest_first (i : Slot) (pid : ℤ) (s : PTable) :
    waitpidRest i pid s slots false = (waitpidScan pid s slots).getD .fail := by
  unfold waitpidRest
  cases waitpidScan pid s slots <;> simp

/-- After a sleep `waitpid` gives up if it has been killed, and scans again otherwise. -/
lemma waitpidRest_resumed (huniq : ∀ q, (s.proc q).pid = pid → q = p) :
    waitpidRest i pid s (slots.drop (p.val + 1)) true =
      if (s.proc i).killed = true then .fail else (waitpidScan pid s slots).getD .fail := by
  unfold waitpidRest
  rw [waitpidScan_rest huniq]
  simp

/-- A scan stops at a slot that is no process exactly if one has the pid. -/
lemma scan_process_iff {n : ℕ} (hp : Pids n s) :
    ((∀ r, (waitpidScan pid s slots).getD .fail ≠ .stale r) ∧
        ∀ r, (waitpidScan pid s slots).getD .fail = .sleep r → (s.proc r).state ≠ EMBRYO) ↔
      ∀ p, (s.proc p).state = UNUSED ∨ (s.proc p).state = EMBRYO → (s.proc p).pid ≠ pid := by
  constructor
  · rintro ⟨hstale, hsleep⟩ p (hu | he) hpid
    · obtain ⟨r, hr⟩ := waitpidScan_stale hp hpid hu
      exact hstale r (by rw [hr]; rfl)
    · obtain ⟨r, hr, hembryo⟩ := waitpidScan_embryo hp hpid he
      exact hsleep r (by rw [hr]; rfl) hembryo
  · intro h
    cases ho : waitpidScan pid s slots with
    | none => simp
    | some o =>
        have hspec := waitpidScan_spec ho
        refine ⟨?_, ?_⟩
        · rintro r rfl
          exact h r (.inl hspec.2) hspec.1
        · rintro r rfl he
          exact h r (.inr he) hspec.1

/-- **When `waitpid` tells the truth.**  In every state of a run that has handed out fewer
than `2 ^ 31` pids, a critical section of `waitpid(pid, st, op)` tells the truth exactly if
no slot that is not in use or still `EMBRYO` carries the pid, or the process has been killed in
its sleep.  Pids that are not positive, not handed out yet, never returned by a `fork`, or already
returned by `wait` or `waitpid` name no process. -/
theorem waitpid_truthful_iff (h : PRun (fun _ _ => True) es s) (hn : handedOut es < 2 ^ 31)
    (hl : InWaitpid s l i pid st) (hs : Xv6.step s l = some (s', e)) :
    (Truthful es s s' i pid st e ↔
      (l = .dispatch i ∧ (s.proc i).killed = true) ∨
        ∀ p, (s.proc p).state = UNUSED ∨ (s.proc p).state = EMBRYO → (s.proc p).pid ≠ pid) ∧
    (pid ≤ 0 ∨ handedOut es < pid ∨ (pid ≠ 1 ∧ ∀ i, .forked i pid ∉ es) ∨
      (∃ x ∈ es, x.returned = some pid) → s.Unnamed pid) := by
  have hp := PRun.pids h hn
  have hist := PRun.history h hn
  refine ⟨?_, unnamed_of hp hist (PRun.born h)⟩
  rcases hl with ⟨op, rfl⟩ | ⟨rfl, p, hc⟩
  · -- the first section of the call
    simp only [Xv6.step] at hs
    split_ifs at hs with hi
    have heq := Option.some.inj hs
    have hiff := truthful_section_iff i st hp hist (fun _ => rfl) (fun _ => rfl)
      (fun _ => Iff.rfl) (fun _ => Iff.rfl) (waitpidRest_spec i pid s slots false)
    rw [heq, waitpidRest_first, scan_process_iff hp] at hiff
    simpa using hiff
  · -- a section after a sleep
    simp only [Xv6.step, dispatch] at hs
    split_ifs at hs with hrun
    simp only [hc] at hs
    have heq := Option.some.inj hs
    have huniq : ∀ q, ((wakeFrom i s).proc q).pid = pid → q = p := by
      intro q hq
      exact (hp.waited i pid st p hc).2.2 q (by grind)
    have hiff := truthful_section_iff i st hp hist
      (by grind) (by grind) (by grind) (by grind)
      (waitpidRest_spec i pid (wakeFrom i s) (slots.drop (p.val + 1)) true)
    rw [heq, waitpidRest_resumed huniq] at hiff
    rw [hiff]
    have hkilled : ((wakeFrom i s).proc i).killed = (s.proc i).killed := by simp
    have hembryo : ∀ q, (s.proc q).state = EMBRYO ↔ ((wakeFrom i s).proc q).state = EMBRYO := by
      grind
    have hslots : (∀ q, ((wakeFrom i s).proc q).state = UNUSED ∨
        ((wakeFrom i s).proc q).state = EMBRYO → ((wakeFrom i s).proc q).pid ≠ pid) ↔
        ∀ q, (s.proc q).state = UNUSED ∨ (s.proc q).state = EMBRYO → (s.proc q).pid ≠ pid := by
      refine forall_congr' fun q => ?_
      grind
    rw [hkilled]
    by_cases hk : (s.proc i).killed = true
    · simp [hk]
    · simp only [hembryo, Ne] at *
      rw [if_neg hk, scan_process_iff (hp.wakeFrom hrun), hslots]
      simp [hk]

/-- Init runs alone and calls `waitpid` for pid 3: no slot carries that pid, and the call tells
the truth. -/
theorem waitpid_truthful_unknown : ∃ es s s' e, PRun (fun _ _ => True) es s ∧
    Xv6.step s (.waitpid 0 3 4 0) = some (s', e) ∧ Truthful es s s' 0 3 4 e := by
  obtain ⟨es, s, h, hn, hsome, hno⟩ := PRun.of_steps (fun _ _ => True)
    (fun es s => handedOut es < 2 ^ 31 ∧ (Xv6.step s (.waitpid 0 3 4 0)).isSome = true ∧
      ∀ p, (s.proc p).state = UNUSED ∨ (s.proc p).state = EMBRYO → (s.proc p).pid ≠ 3)
    [.dispatch 0] (by decide +kernel)
  obtain ⟨⟨s', e⟩, hs⟩ := Option.isSome_iff_exists.1 hsome
  exact ⟨es, s, s', e, h, hs,
    (waitpid_truthful_iff h hn (Or.inl ⟨0, rfl⟩) hs).1.2 (Or.inr hno)⟩

/-- Init runs alone and calls `waitpid` for pid 0, which names no process: the call finds a
slot that was never used and returns 0, storing the 0 that is in its `est`. -/
theorem waitpid_zero_untruthful : ∃ es s s' e, PRun (fun _ _ => True) es s ∧
    Xv6.step s (.waitpid 0 0 4 0) = some (s', e) ∧
    e = some (.waitpidReturned 0 0 4 0 (some 0)) ∧ ¬ Truthful es s s' 0 0 4 e := by
  obtain ⟨es, s, h, hret, hun⟩ := PRun.of_steps (fun _ _ => True)
    (fun _ s => (Xv6.step s (.waitpid 0 0 4 0)).map Prod.snd =
      some (some (.waitpidReturned 0 0 4 0 (some 0))) ∧ s.Unnamed 0)
    [.dispatch 0] (by decide +kernel)
  obtain ⟨⟨s', e⟩, hs, rfl⟩ := Option.map_eq_some_iff.1 hret
  exact ⟨es, s, s', _, h, hs, rfl, fun ht => absurd (ht.2 hun) (by simp)⟩

end History

end Xv6
