import Xv6.Proc.Step

/-!
# Invariants of every run of the process table

`Asleep` ties the channel of a process that sleeps in `wait` or `waitpid` to the slot its
call waits for.  `Family` is about slots that are being forked and about parents: a parent
is always a process that still runs, because `fork` links a child to a running process and
`exit` passes the children on.
-/

namespace Xv6

open Lib ProcState

variable {s s' : PTable} {i p : Slot} {st : ℕ} {pid : ℤ} {e : Option Event} {l : Step}

/-! ## Sleep channels -/

/-- A process asleep in `wait` or `waitpid` sleeps on the slot that the call waits for. -/
structure Asleep (s : PTable) : Prop where
  wait : ∀ p st, (s.proc p).state = SLEEPING → s.call p = .wait st →
    (s.proc p).chan = some (.proc p)
  waitpid : ∀ p pid st q, (s.proc p).state = SLEEPING → s.call p = .waitpid pid st q →
    (s.proc p).chan = some (.proc q)

namespace Asleep

lemma wakeFrom (h : Asleep s) : Asleep (wakeFrom i s) := by
  obtain ⟨hwait, hwaitpid⟩ := h
  constructor <;> grind

lemma waited (h : Asleep s) (hw : Waited s i st s' e) : Asleep s' := by
  obtain ⟨hwait, hwaitpid⟩ := h
  cases hw with
  | reap q hq => constructor <;> grind
  | fail => exact ⟨hwait, hwaitpid⟩
  | sleep hz => constructor <;> grind

lemma waitpided (h : Asleep s) (hw : Waitpided s i pid st s' e) : Asleep s' := by
  obtain ⟨hwait, hwaitpid⟩ := h
  cases hw with
  | reap q _ hq => constructor <;> grind
  | stale q => exact ⟨hwait, hwaitpid⟩
  | fail => exact ⟨hwait, hwaitpid⟩
  | sleep q => constructor <;> grind

lemma step (h : Asleep s) (hs : Stepped s l s' e) : Asleep s' := by
  cases hs with
  | resume i _ _ => exact h.wakeFrom
  | resumeWait i st _ _ hw => exact h.wakeFrom.waited hw
  | resumeWaitpid i pid st q _ _ hw => exact h.wakeFrom.waitpided hw
  | wait i st _ hw => exact h.waited hw
  | waitpid i pid st op _ hw => exact h.waitpided hw
  | exit i st _ _ hx =>
      obtain ⟨hwait, hwaitpid⟩ := h
      obtain ⟨hcall, -, x, -, -, hproc⟩ := hx
      constructor <;> grind
  | _ =>
      -- the process that changes its call or its channel does not sleep
      obtain ⟨hwait, hwaitpid⟩ := h
      constructor <;> grind [PTable.Free]

end Asleep

/-! ## Parents and forks -/

/-- A process that neither has exited nor is still being made. -/
def ProcState.Live (st : ProcState) : Prop := st = SLEEPING ∨ st = RUNNABLE ∨ st = RUNNING

/-- The slot that a call of `fork` sets up. -/
def Call.embryo : Call → Option Slot
  | .fork np _ => some np
  | _ => Option.none

/-- The slots that `fork` is setting up. -/
structure Forks (s : PTable) : Prop where
  fork : ∀ i np linked, s.call i = .fork np linked → (s.proc np).state = EMBRYO ∧
    ((s.proc i).state = RUNNING ∨ (s.proc i).state = RUNNABLE)
  linked : ∀ i np, s.call i = .fork np true → (s.proc np).parent = some i
  unlinked : ∀ i np, s.call i = .fork np false → (s.proc np).parent = none
  forker : ∀ i j np l l', s.call i = .fork np l → s.call j = .fork np l' → i = j

namespace Forks

variable {np : Slot}

/-- Steps that keep the slots that are being forked, and those who fork them, as they are. -/
lemma congr (h : Forks s) (hcall : ∀ p np l, s'.call p = .fork np l ↔ s.call p = .fork np l)
    (hparent : ∀ p, (s.proc p).state = EMBRYO → (s'.proc p).parent = (s.proc p).parent)
    (hembryo : ∀ p, (s.proc p).state = EMBRYO → (s'.proc p).state = EMBRYO)
    (hrun : ∀ p np l, s.call p = .fork np l → (s.proc p).state = RUNNING ∨
      (s.proc p).state = RUNNABLE → (s'.proc p).state = RUNNING ∨ (s'.proc p).state = RUNNABLE) :
    Forks s' := by
  refine ⟨?_, ?_, ?_, ?_⟩
  · intro i np l hc
    rw [hcall] at hc
    obtain ⟨hnp, hi⟩ := h.fork i np l hc
    exact ⟨hembryo np hnp, hrun i np l hc hi⟩
  · intro i np hc
    rw [hcall] at hc
    rw [hparent np (h.fork i np true hc).1, h.linked i np hc]
  · intro i np hc
    rw [hcall] at hc
    rw [hparent np (h.fork i np false hc).1, h.unlinked i np hc]
  · intro i j np l l' hi hj
    exact h.forker i j np l l' ((hcall _ _ _).1 hi) ((hcall _ _ _).1 hj)

lemma alloc (h : Forks s) (hi : s.Free i) (hnp : (s.proc np).state = UNUSED)
    (hparent : (s.proc np).parent = none) :
    Forks ((takeSlot np s).setCall i (.fork np false)) := by
  obtain ⟨hfork, hlinked, hunlinked, hforker⟩ := h
  obtain ⟨hrun, hnone⟩ := hi
  have hfree : ∀ j l, s.call j ≠ .fork np l := by grind
  constructor <;> grind

lemma forkFail (h : Forks s) (hc : s.call i = .fork np false) :
    Forks ((s.modifyProc np fun p => { p with state := UNUSED }).setCall i .none) := by
  obtain ⟨hfork, hlinked, hunlinked, hforker⟩ := h
  have hother : ∀ j l, s.call j = .fork np l → j = i := fun j l hj => hforker j i np l false hj hc
  have hnp := hfork i np false hc
  constructor <;> grind

lemma forkLink (h : Forks s) (hc : s.call i = .fork np false) :
    Forks ((s.modifyProc np fun p => { p with parent := some i }).setCall i (.fork np true)) := by
  obtain ⟨hfork, hlinked, hunlinked, hforker⟩ := h
  have hother : ∀ j l, s.call j = .fork np l → j = i := fun j l hj => hforker j i np l false hj hc
  have hnp := hfork i np false hc
  constructor <;> grind

lemma forkDone (h : Forks s) (hc : s.call i = .fork np true) :
    Forks (((s.modifyProc np fun p => { p with state := RUNNABLE }).setCall i .none).setCall np
      .none) := by
  obtain ⟨hfork, hlinked, hunlinked, hforker⟩ := h
  have hother : ∀ j l, s.call j = .fork np l → j = i := fun j l hj => hforker j i np l true hj hc
  have hnp := hfork i np true hc
  constructor <;> grind

end Forks

/-- The parents: `UNUSED` slots have none, every process but init has one from the end of its
`fork` on, and a parent is live. -/
structure Family (s : PTable) : Prop extends Forks s where
  unused : ∀ p, (s.proc p).state = UNUSED → (s.proc p).parent = none
  init : (s.proc initproc).state.Live
  initParent : (s.proc initproc).parent = none
  live : ∀ p q, (s.proc p).parent = some q → (s.proc q).state.Live
  neSelf : ∀ p, (s.proc p).parent ≠ some p
  hasParent : ∀ p, (s.proc p).state ≠ UNUSED → (s.proc p).state ≠ EMBRYO → p ≠ initproc →
    (s.proc p).parent ≠ none

namespace Family

variable {np : Slot}

/-- Steps that move live processes only between the states of live processes, and touch
neither parents nor forks. -/
lemma congr (h : Family s) (hcall : ∀ p np l, s'.call p = .fork np l ↔ s.call p = .fork np l)
    (hparent : ∀ p, (s'.proc p).parent = (s.proc p).parent)
    (hstate : ∀ p, (s'.proc p).state = (s.proc p).state ∨
      ((s.proc p).state.Live ∧ (s'.proc p).state.Live ∧
        ∀ np l, s.call p = .fork np l →
          (s'.proc p).state = RUNNING ∨ (s'.proc p).state = RUNNABLE)) : Family s' := by
  have hforks : Forks s' := by
    refine h.toForks.congr hcall (fun p _ => hparent p) ?_ ?_
    · intro p hp
      rcases hstate p with heq | ⟨hlive, -⟩
      · rw [heq, hp]
      · simp [hp, ProcState.Live] at hlive
    · intro p np l hc hp
      rcases hstate p with heq | ⟨-, -, hrun⟩
      · rwa [heq]
      · exact hrun np l hc
  obtain ⟨-, hun, hinit, hip, hlive, hself, hpar⟩ := h
  refine ⟨hforks, ?_, ?_, ?_, ?_, ?_, ?_⟩ <;> grind [ProcState.Live]

lemma wakeFrom (h : Family s) (hs : (s.proc i).state = RUNNABLE)
    (hc : ∀ np l, s.call i ≠ .fork np l) : Family (wakeFrom i s) :=
  h.congr (by grind) (by grind) (by grind [ProcState.Live])

lemma sleepOn {chan : Chan} {c : Call} (h : Family s) (hi : s.Free i)
    (hc : ∀ np l, c ≠ .fork np l) : Family (sleepOn i chan c s) := by
  obtain ⟨hrun, hcall⟩ := hi
  exact h.congr (by grind) (by grind) (by grind [ProcState.Live])

/-- A zombie is nobody's parent, so that its slot can be freed. -/
lemma reap (h : Family s) (hz : (s.proc p).state = ZOMBIE) : Family (reap p s) := by
  have hforks : Forks (Xv6.reap p s) :=
    h.toForks.congr (by grind) (by grind) (by grind) (by grind)
  obtain ⟨-, hun, hinit, hip, hlive, hself, hpar⟩ := h
  refine ⟨hforks, ?_, ?_, ?_, ?_, ?_, ?_⟩ <;> grind [ProcState.Live]

lemma waited (h : Family s) (hi : s.Free i) (hw : Waited s i st s' e) : Family s' := by
  cases hw with
  | reap q hq => exact h.reap hq.2
  | fail => exact h
  | sleep hz => exact h.sleepOn hi (by simp)

lemma waitpided (h : Family s) (hi : s.Free i) (hw : Waitpided s i pid st s' e) : Family s' := by
  cases hw with
  | reap q _ hq => exact h.reap hq
  | stale q => exact h
  | fail => exact h
  | sleep q =>
      have hcount : Family (s.modifyProc q fun q => { q with curIndex := incInt q.curIndex }) :=
        h.congr (by grind) (by grind) (by grind)
      exact hcount.sleepOn (by grind [PTable.Free]) (by simp)

/-- `exit` leaves no child behind: what was its child is now one of init. -/
lemma exit {st : ℤ} (h : Family s) (hi : s.Free i) (hne : i ≠ initproc) (hx : Exited s i st s') :
    Family s' := by
  obtain ⟨hrun, hnone⟩ := hi
  obtain ⟨hcall, -, x, -, -, hproc⟩ := hx
  have hforks : Forks s' := by
    obtain ⟨hfork, hlinked, hunlinked, hforker⟩ := h.toForks
    constructor <;> grind
  obtain ⟨-, hun, hinit, hip, hlive, hself, hpar⟩ := h
  refine ⟨hforks, ?_, ?_, ?_, ?_, ?_, ?_⟩ <;> grind [ProcState.Live]

lemma alloc (h : Family s) (hi : s.Free i) (hnp : (s.proc np).state = UNUSED) :
    Family ((takeSlot np s).setCall i (.fork np false)) := by
  have hforks := h.toForks.alloc hi hnp (h.unused np hnp)
  obtain ⟨-, hun, hinit, hip, hlive, hself, hpar⟩ := h
  refine ⟨hforks, ?_, ?_, ?_, ?_, ?_, ?_⟩ <;> grind [ProcState.Live]

lemma forkFail (h : Family s) (hc : s.call i = .fork np false) :
    Family ((s.modifyProc np fun p => { p with state := UNUSED }).setCall i .none) := by
  have hforks := h.toForks.forkFail hc
  have hnp := h.fork i np false hc
  have hparent := h.unlinked i np hc
  obtain ⟨-, hun, hinit, hip, hlive, hself, hpar⟩ := h
  refine ⟨hforks, ?_, ?_, ?_, ?_, ?_, ?_⟩ <;> grind [ProcState.Live]

lemma forkLink (h : Family s) (hc : s.call i = .fork np false) :
    Family ((s.modifyProc np fun p => { p with parent := some i }).setCall i (.fork np true)) := by
  have hforks := h.toForks.forkLink hc
  have hnp := h.fork i np false hc
  obtain ⟨-, hun, hinit, hip, hlive, hself, hpar⟩ := h
  refine ⟨hforks, ?_, ?_, ?_, ?_, ?_, ?_⟩ <;> grind [ProcState.Live]

lemma forkDone (h : Family s) (hc : s.call i = .fork np true) :
    Family (((s.modifyProc np fun p => { p with state := RUNNABLE }).setCall i .none).setCall np
      .none) := by
  have hforks := h.toForks.forkDone hc
  have hnp := h.fork i np true hc
  have hparent := h.linked i np hc
  obtain ⟨-, hun, hinit, hip, hlive, hself, hpar⟩ := h
  refine ⟨hforks, ?_, ?_, ?_, ?_, ?_, ?_⟩ <;> grind [ProcState.Live]

lemma step (h : Family s) (hs : Stepped s l s' e) : Family s' := by
  cases hs with
  | run i hs hc => exact h.congr (by grind) (by grind) (by grind [ProcState.Live])
  | resume i hs hc => exact h.wakeFrom hs (by simp [hc])
  | resumeWait i st hs hc hw =>
      exact (h.wakeFrom hs (by simp [hc])).waited (by simp [PTable.Free]) hw
  | resumeWaitpid i pid st q hs hc hw =>
      exact (h.wakeFrom hs (by simp [hc])).waitpided (by simp [PTable.Free]) hw
  | yield i hs hc => exact h.congr (by grind) (by grind) (by grind [ProcState.Live])
  | sleep i chan hi => exact h.sleepOn hi (by simp)
  | wakeup chan => exact h.congr (by grind) (by grind) (by grind [ProcState.Live])
  | alloc i np hi hnp => exact h.alloc hi hnp
  | allocFail i hi => exact h
  | forkFail i np hs hc => exact h.forkFail hc
  | forkLink i np hs hc => exact h.forkLink hc
  | forkDone i np hs hc => exact h.forkDone hc
  | exit i st hi hne hx => exact h.exit hi hne hx
  | wait i st hi hw => exact h.waited hi hw
  | waitpid i pid st op hi hw => exact h.waitpided hi hw
  | kill i pid p hi hp => exact h.congr (by grind) (by grind) (by grind [ProcState.Live])
  | killFail i pid hi => exact h
  | setprio i prio hi =>
      exact h.congr (by grind) (by grind) (by grind [ProcState.Live, PTable.Free])
  | trap i hi => exact h.congr (by grind) (by grind) (by grind)

end Family

/-! ## The initial table -/

lemma userinit_eq : userinit = (takeSlot initproc zeroTable).modifyProc initproc fun q =>
    { q with state := RUNNABLE } := by
  have h : slots.find? (fun p => (zeroTable.proc p).state == UNUSED) = some initproc := rfl
  simp [userinit, allocproc, h]

lemma userinit_proc (p : Slot) : userinit.proc p =
    if p = initproc then ⟨RUNNABLE, 1, none, none, false, 0, 0, 1⟩
    else ⟨UNUSED, 0, none, none, false, 0, 0, 0⟩ := by
  rw [userinit_eq]
  by_cases hp : p = initproc <;> simp [hp, zeroTable]

lemma userinit_call (p : Slot) : userinit.call p = .none := by
  rw [userinit_eq]
  rfl

lemma userinit_nextpid : userinit.nextpid = 2 := by
  rw [userinit_eq]
  rfl

variable {ok : PTable → Step → Prop} {es : List Event}

lemma PRun.asleep (h : PRun ok es s) : Asleep s :=
  h.invariant (I := fun _ s => Asleep s) ⟨by simp [userinit_call], by simp [userinit_call]⟩
    fun hI _ hs => hI.step (step_stepped hs)

lemma PRun.family (h : PRun ok es s) : Family s := by
  refine h.invariant (I := fun _ s => Family s) ?_ fun hI _ hs => hI.step (step_stepped hs)
  refine ⟨⟨by simp [userinit_call], by simp [userinit_call], by simp [userinit_call],
    by simp [userinit_call]⟩, ?_, ?_, ?_, ?_, ?_, ?_⟩ <;>
    grind [userinit_proc, ProcState.Live]

end Xv6
