import Xv6.Proc.Invariant

/-!
# Whom `kill` hits

`kill` marks the first slot that carries the pid, whatever its state, and the mark is taken
off only when a zombie is reaped.  So an unused slot that is marked hands the mark on to the
next process in it.  In runs in which `kill` is not called for the pid of an unused slot and no
`fork` fails after its new slot has been marked, a mark has its reason in the life of the
process that carries it.
-/

namespace Xv6

open Lib ProcState

variable {s s' : PTable} {i p np : Slot} {st : ℕ} {pid : ℤ} {e : Option Event} {l : Step}
  {es : List Event}

/-- Since the process in slot `p` got its pid `q`, somebody has called `kill(q)` or it has
taken a fatal trap. -/
def KilledSince (es : List Event) (p : Slot) (q : ℤ) : Prop :=
  ∃ before since, es = before ++ .allocated p q :: since ∧ (∀ q', .allocated p q' ∉ since) ∧
    ((∃ ret, .killReturned q ret ∈ since) ∨ .trapped q ∈ since)

/-- The pid `q` is the last one that slot `p` got, at the given place among the events. -/
def AllocatedLast (es : List Event) (p : Slot) (q : ℤ) : Prop :=
  ∃ before since, es = before ++ .allocated p q :: since ∧ ∀ q', .allocated p q' ∉ since

/-- A mark has a reason. -/
structure Marks (es : List Event) (s : PTable) : Prop where
  unused : ∀ p, (s.proc p).state = UNUSED → (s.proc p).killed = false
  allocated : ∀ p, (s.proc p).state ≠ UNUSED → AllocatedLast es p (s.proc p).pid
  killed : ∀ p, (s.proc p).state ≠ UNUSED → (s.proc p).killed = true →
    KilledSince es p (s.proc p).pid

lemma AllocatedLast.append {q : ℤ} (h : AllocatedLast es p q) {ys : List Event}
    (hy : ∀ q', .allocated p q' ∉ ys) : AllocatedLast (es ++ ys) p q := by
  obtain ⟨before, since, rfl, hno⟩ := h
  exact ⟨before, since ++ ys, by simp, fun q' => by simp [hno q', hy q']⟩

lemma KilledSince.append {q : ℤ} (h : KilledSince es p q) {ys : List Event}
    (hy : ∀ q', .allocated p q' ∉ ys) : KilledSince (es ++ ys) p q := by
  obtain ⟨before, since, rfl, hno, hwhy⟩ := h
  refine ⟨before, since ++ ys, by simp, fun q' => by simp [hno q', hy q'], ?_⟩
  rcases hwhy with ⟨ret, hret⟩ | htrap
  · exact Or.inl ⟨ret, List.mem_append_left _ hret⟩
  · exact Or.inr (List.mem_append_left _ htrap)

/-- An event that explains the mark of a process. -/
lemma AllocatedLast.killed {q : ℤ} (h : AllocatedLast es p q) {x : Event}
    (hx : (∃ ret, x = .killReturned q ret) ∨ x = .trapped q) : KilledSince (es ++ [x]) p q := by
  obtain ⟨before, since, rfl, hno⟩ := h
  refine ⟨before, since ++ [x], by simp, fun q' => ?_, ?_⟩
  · rcases hx with ⟨ret, rfl⟩ | rfl <;> simp [hno q']
  · rcases hx with ⟨ret, rfl⟩ | rfl
    · exact Or.inl ⟨ret, by simp⟩
    · exact Or.inr (by simp)

namespace Marks

/-- Steps that hand out no slot: it is enough that the slots in use keep their pids, and that
a mark was there before or is explained by the step. -/
lemma congr (h : Marks es s) (he : ∀ p q, .allocated p q ∉ e.toList)
    (hunused : ∀ p, (s'.proc p).state = UNUSED → (s'.proc p).killed = false)
    (hused : ∀ p, (s'.proc p).state ≠ UNUSED → (s.proc p).state ≠ UNUSED ∧
      (s'.proc p).pid = (s.proc p).pid ∧
      ((s'.proc p).killed = true → (s.proc p).killed = true ∨
        ∃ x, e = some x ∧ ((∃ ret, x = .killReturned (s.proc p).pid ret) ∨
          x = .trapped (s.proc p).pid))) : Marks (es ++ e.toList) s' := by
  refine ⟨hunused, fun p hp => ?_, fun p hp hk => ?_⟩
  · obtain ⟨hu, hpid, -⟩ := hused p hp
    rw [hpid]
    exact (h.allocated p hu).append (he p)
  · obtain ⟨hu, hpid, hwhy⟩ := hused p hp
    rw [hpid]
    rcases hwhy hk with hk | ⟨x, rfl, hx⟩
    · exact (h.killed p hu hk).append (he p)
    · exact (h.allocated p hu).killed hx

end Marks

/-- `kill` does not hit an unused slot, and `fork` does not give up a slot that has been
marked. -/
def KillsNamed (s : PTable) : Step → Prop
  | .kill _ pid => ∀ p, slots.find? (fun p => (s.proc p).pid == pid) = some p →
      (s.proc p).state ≠ UNUSED
  | .forkFail i => ∀ np, (s.call i).embryo = some np → (s.proc np).killed = false
  | _ => True

instance (s : PTable) (l : Step) : Decidable (KillsNamed s l) :=
  match l with
  | .kill _ pid => inferInstanceAs (Decidable (∀ p,
      slots.find? (fun p => (s.proc p).pid == pid) = some p → (s.proc p).state ≠ UNUSED))
  | .forkFail i => inferInstanceAs (Decidable (∀ np, (s.call i).embryo = some np →
      (s.proc np).killed = false))
  | .dispatch _ | .yield _ | .sleep _ _ | .wakeup _ | .forkAlloc _ | .forkLink _ | .forkDone _
  | .exit _ _ | .wait _ _ | .waitpid _ _ _ _ | .setprio _ _ | .trap _ =>
      inferInstanceAs (Decidable True)

namespace Marks

lemma wakeFrom (h : Marks es s) (hs : (s.proc i).state = RUNNABLE) : Marks es (wakeFrom i s) := by
  obtain ⟨hunused, halloc, hkilled⟩ := h
  constructor <;> grind

lemma reap (h : Marks es s) (he : ∀ p q, .allocated p q ∉ e.toList) :
    Marks (es ++ e.toList) (reap p s) := by
  have hunused := h.unused
  exact h.congr he (by grind) (by grind)

lemma waited (h : Marks es s) (hi : s.Free i) (hw : Waited s i st s' e) :
    Marks (es ++ e.toList) s' := by
  have hunused := h.unused
  have hrun := hi.1
  cases hw with
  | reap r hr => exact h.reap (by simp)
  | fail => exact h.congr (by simp) (by grind) (by grind)
  | sleep hz => exact h.congr (by simp) (by grind) (by grind)

lemma waitpided (h : Marks es s) (hi : s.Free i) (hw : Waitpided s i pid st s' e) :
    Marks (es ++ e.toList) s' := by
  have hunused := h.unused
  have hrun := hi.1
  cases hw with
  | reap r _ hr => exact h.reap (by simp)
  | stale r => exact h.congr (by simp) (by grind) (by grind)
  | fail => exact h.congr (by simp) (by grind) (by grind)
  | sleep r => exact h.congr (by simp) (by grind) (by grind)

/-- A new process is not marked, and its life begins here. -/
lemma alloc (h : Marks es s) (hu : (s.proc np).state = UNUSED) :
    Marks (es ++ [.allocated np s.nextpid]) ((takeSlot np s).setCall i (.fork np false)) := by
  have hnew := h.unused np hu
  have hother : ∀ p, p ≠ np → ∀ q', Event.allocated p q' ∉ [Event.allocated np s.nextpid] := by
    simp
  refine ⟨?_, fun p hp => ?_, fun p hp hk => ?_⟩
  · have := h.unused
    grind
  · by_cases hpn : p = np
    · exact ⟨es, [], by simp [hpn], by simp⟩
    · have := (h.allocated p (by grind)).append (hother p hpn)
      grind
  · have hpn : p ≠ np := by grind
    have := (h.killed p (by grind) (by grind)).append (hother p hpn)
    grind

lemma step (h : Marks es s) (hf : Family s) (hk : KillsNamed s l) (hs : Stepped s l s' e) :
    Marks (es ++ e.toList) s' := by
  have hunused := h.unused
  have hfree : ∀ i, (Xv6.wakeFrom i s).Free i := fun i => by simp [PTable.Free]
  cases hs with
  | resume i hs hc => simpa using h.wakeFrom hs
  | resumeWait i st hs hc hw => exact (h.wakeFrom hs).waited (hfree i) hw
  | resumeWaitpid i pid st r hs hc hw => exact (h.wakeFrom hs).waitpided (hfree i) hw
  | wait i st hi hw => exact h.waited hi hw
  | waitpid i pid st op hi hw => exact h.waitpided hi hw
  | alloc i np hi hnp => exact h.alloc hnp
  | exit i st hi hne hx =>
      obtain ⟨-, -, x, -, -, hproc⟩ := hx
      have hrun := hi.1
      exact h.congr (by simp) (by grind) (by grind)
  | forkFail i np hs hc =>
      have hnp := hk np (by rw [hc]; rfl)
      exact h.congr (by simp) (by grind) (by grind)
  | forkDone i np hs hc =>
      have hnp := (hf.fork i np true hc).1
      exact h.congr (by simp) (by grind) (by grind)
  | kill i pid r hi hr =>
      have hused := hk r hr
      have hpid : (s.proc r).pid = pid := by simpa using List.find?_some hr
      refine h.congr (by simp) (by grind) fun p hp => ?_
      by_cases hpr : p = r
      · subst hpr
        exact ⟨hused, by simp, fun _ => Or.inr ⟨_, rfl, Or.inl ⟨0, by rw [hpid]⟩⟩⟩
      · exact ⟨by grind, by grind, by grind⟩
  | trap i hi =>
      refine h.congr (by simp) (by grind [PTable.Free]) fun p hp => ?_
      by_cases hpi : p = i
      · subst hpi
        exact ⟨by simp [hi.1], by simp, fun _ => Or.inr ⟨_, rfl, Or.inr rfl⟩⟩
      · exact ⟨by grind, by grind, by grind⟩
  | _ => exact h.congr (by simp) (by grind [PTable.Free]) (by grind [PTable.Free])

end Marks

lemma PRun.marks (h : PRun KillsNamed es s) : Marks es s := by
  induction h with
  | start =>
      refine ⟨by grind [userinit_proc], fun p hp => ?_, by grind [userinit_proc]⟩
      have hp' : p = initproc := by grind [userinit_proc]
      exact ⟨[], [], by simp [hp', userinit_proc], by simp⟩
  | step hr hk hs ih => exact ih.step (PRun.family hr) hk (step_stepped hs)

/-- **A kill hits only the process it names.**  In every run in which `kill` does not hit
unused slots and `fork` gives up no slot that has been marked: a process that is marked as
killed has been named in a `kill` or has taken a fatal trap since it was allocated; a
process that `allocproc` returns is not marked; and `kill(pid)` returns 0 only if a process
has the pid. -/
theorem kill_hits_named (h : PRun KillsNamed es s) :
    (∀ p, (s.proc p).state ≠ UNUSED → (s.proc p).killed = true →
      KilledSince es p (s.proc p).pid) ∧
    (∀ i s' p q, Xv6.step s (.forkAlloc i) = some (s', some (.allocated p q)) →
      (s'.proc p).killed = false) ∧
    (∀ i pid s', KillsNamed s (.kill i pid) →
      Xv6.step s (.kill i pid) = some (s', some (.killReturned pid 0)) →
      ∃ p, (s.proc p).state ≠ UNUSED ∧ (s.proc p).pid = pid) := by
  have hm := PRun.marks h
  refine ⟨hm.killed, fun i s' p q hs => ?_, fun i pid s' hk hs => ?_⟩
  · cases step_stepped hs with
    | alloc _ _ hi hnp => simpa using hm.unused p hnp
  · cases step_stepped hs with
    | kill _ _ r hi hr => exact ⟨r, hk r hr, by simpa using List.find?_some hr⟩

/-- Init kills process 2, which it has forked. -/
theorem kill_hits_named_child : ∃ es s, PRun KillsNamed es s ∧ (s.proc 1).killed = true ∧
    KilledSince es 1 (s.proc 1).pid := by
  obtain ⟨es, s, h, hstate, hk⟩ := PRun.of_steps KillsNamed
    (fun _ s => (s.proc 1).state ≠ UNUSED ∧ (s.proc 1).killed = true)
    [.dispatch 0, .forkAlloc 0, .forkLink 0, .forkDone 0, .kill 0 2] (by decide +kernel)
  exact ⟨es, s, h, hk, (kill_hits_named h).1 1 hstate hk⟩

/-- Init calls `kill(0)`: it returns 0 although no process has that pid, and marks slot 1,
which was never used.  The process that init then forks into that slot is marked, and nobody
has killed it. -/
theorem kill_zero_hits_next_process : ∃ es s, PRun (fun _ _ => True) es s ∧
    .killReturned 0 0 ∈ es ∧ (s.proc 1).state = RUNNABLE ∧ (s.proc 1).pid = 2 ∧
    (s.proc 1).killed = true ∧ ¬ KilledSince es 1 2 := by
  obtain ⟨es, s, h, rfl, hstate, hpid, hk⟩ := PRun.of_steps (fun _ _ => True)
    (fun es s => es = [.allocated 0 1, .killReturned 0 0, .allocated 1 2, .forked 0 2] ∧
      (s.proc 1).state = RUNNABLE ∧ (s.proc 1).pid = 2 ∧ (s.proc 1).killed = true)
    [.dispatch 0, .kill 0 0, .forkAlloc 0, .forkLink 0, .forkDone 0] (by decide +kernel)
  refine ⟨_, s, h, by simp, hstate, hpid, hk, ?_⟩
  rintro ⟨before, since, heq, -, hwhy⟩
  have hmem : ∀ x ∈ since, x ∈ [Event.allocated 0 1, .killReturned 0 0, .allocated 1 2,
      .forked 0 2] := by
    intro x hx
    rw [heq]
    simp [hx]
  rcases hwhy with ⟨ret, hret⟩ | htrap
  · simpa using hmem _ hret
  · simpa using hmem _ htrap

end Xv6
