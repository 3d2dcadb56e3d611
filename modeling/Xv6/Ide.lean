import Xv6.Bio
import Xv6.Lib.Chain
import Xv6.Lib.Run
import Mathlib.Data.Fintype.Card

/-!
# The queued disk driver (`ide.c`)

Any number of processes call `iderw` on buffers of their own.  A step is what a process or the
interrupt handler does while it holds `idelock`: from the call, or from the return of `sleep`, to
the next `sleep` or the return.  In between the disk executes the command that has been started and
raises an interrupt, processes are woken without a reason, and buffers that are in no
call change in any way.

The queue is the linked list through `qnext`, and its first buffer is the one whose command the disk
has.  Every call of `iderw` does what the one of `memide.c` does at one moment
(`ide_is_synchronous`).
-/

namespace Xv6

open Lib

/-- The sectors of the two disks. -/
abbrev Disks : Type := ℕ × ℕ → Block

/-- The disk and the sector that `idestart` sends for a buffer: one bit of `dev`, 28 of `sector`. -/
def Buf.address (b : Buf) : ℕ × ℕ := (b.dev % 2, b.sector % 2 ^ 28)

/-- A command, with the data of a write. -/
structure Command where
  address : ℕ × ℕ
  write : Option Block

/-- What the disk does. -/
inductive Controller
  | idle
  | started (cmd : Command)
  | done

/-- What is seen of a step: a call and the buffer as it is then, the command that the disk executes,
a request that the handler completes, a return and the buffer as it is then; and the request that is
started, if any. -/
inductive IdeEvent (B P : Type)
  | called (p : P) (b : B) (u : Buf) (started : Option B)
  | executed (before : Disks) (cmd : Command) (after : Disks)
  | completed (b : B) (started : Option B)
  | returned (p : P) (b : B) (v : Buf)

/-- The driver: `idequeue` and the fields `qnext`, the buffers, the disks, the controller with its
data register, the calls in progress, and which processes are asleep. -/
structure Ide (B P : Type) where
  queue : Chain B
  buf : B → Buf
  disks : Disks
  controller : Controller
  data : Block
  havedisk1 : Bool
  call : P → Option B
  asleep : P → Bool

/-- What may happen next. -/
inductive IdeLabel (B P : Type)
  | call (p : P) (b : B)
  | resume (p : P)
  | execute
  | interrupt
  | wake (p : P)
  | change (b : B) (v : Buf)

namespace Ide

variable {B P : Type} [DecidableEq B] [DecidableEq P] [Fintype B]

/-- Change a buffer. -/
def setBuf (s : Ide B P) (b : B) (v : Buf) : Ide B P := { s with buf := Function.update s.buf b v }

/-- The command for a buffer. -/
def command (v : Buf) : Command := ⟨v.address, if v.dirty = true then some v.data else none⟩

/-- Start the request for `b`. -/
def idestart (s : Ide B P) (b : B) :
    Ide B P := { s with controller := .started (command (s.buf b)) }

/-- The disk executes a command. -/
def execute (s : Ide B P) (cmd : Command) : Ide B P :=
  match cmd.write with
  | some d => { s with disks := Function.update s.disks cmd.address d, controller := .done }
  | none => { s with data := s.disks cmd.address, controller := .done }

/-- The request is done: `B_VALID` and not `B_DIRTY`. -/
def finished (v : Buf) : Bool := v.valid && !v.dirty

/-- `iderw` up to its first `sleep`; the panics are no steps. -/
def iderw (s : Ide B P) (p : P) (b : B) : Option (Ide B P × Option B) :=
  let v := s.buf b
  if v.busy = false ∨ finished v = true ∨ (v.dev ≠ 0 ∧ s.havedisk1 = false) then none
  else
    (s.queue.append (Fintype.card B + 1) b).map fun q =>
      let s := { s with
        queue := q
        call := Function.update s.call p (some b)
        asleep := Function.update s.asleep p true }
      if q.head = some b then (s.idestart b, some b) else (s, none)

/-- The test of the loop of `iderw` after `sleep`. -/
def resume (s : Ide B P) (p : P) (b : B) : Ide B P × Option (IdeEvent B P) :=
  if finished (s.buf b) = true then
    ({ s with call := Function.update s.call p none }, some (.returned p b (s.buf b)))
  else ({ s with asleep := Function.update s.asleep p true }, none)

/-- `wakeup(b)`. -/
def wakeup (s : Ide B P) (b : B) : Ide B P :=
  { s with asleep := fun p => if s.call p = some b then false else s.asleep p }

/-- The interrupt handler takes the first buffer. -/
def ideintr (s : Ide B P) : Ide B P × Option (IdeEvent B P) :=
  match s.queue.head with
  | none => (s, none)
  | some b =>
      let v := s.buf b
      let v := if v.dirty = true then v else { v with data := s.data }
      let s := { s with queue := s.queue.drop b }
      let s := (s.setBuf b { v with valid := true, dirty := false }).wakeup b
      match s.queue.head with
      | none => (s, some (.completed b none))
      | some b' => (s.idestart b', some (.completed b (some b')))

/-- One step, if it is possible. -/
def step (s : Ide B P) : IdeLabel B P → Option (Ide B P × Option (IdeEvent B P))
  | .call p b =>
      if s.call p = none then
        (s.iderw p b).map fun r => (r.1, some (.called p b (s.buf b) r.2))
      else none
  | .resume p =>
      if s.asleep p = false then (s.call p).map fun b => s.resume p b else none
  | .execute =>
      match s.controller with
      | .started cmd =>
          let s' := s.execute cmd
          some (s', some (.executed s.disks cmd s'.disks))
      | _ => none
  | .interrupt =>
      match s.controller with
      | .done => some { s with controller := .idle }.ideintr
      | _ => none
  | .wake p => some ({ s with asleep := Function.update s.asleep p false }, none)
  | .change b v => some (s.setBuf b v, none)

/-- A call is about a buffer that no other call is about, and such a buffer does not change
otherwise. -/
def Distinct (s : Ide B P) : IdeLabel B P → Prop
  | .call _ b | .change b _ => ∀ q, s.call q ≠ some b
  | _ => True

instance [Fintype P] (s : Ide B P) (l : IdeLabel B P) : Decidable (s.Distinct l) :=
  match l with
  | .call _ b | .change b _ => inferInstanceAs (Decidable (∀ q, s.call q ≠ some b))
  | .resume _ | .execute | .interrupt | .wake _ => inferInstanceAs (Decidable True)

/-- Nothing has been requested. -/
structure Quiet (s : Ide B P) : Prop where
  queue : s.queue.head = none
  controller : s.controller = .idle
  call : ∀ p, s.call p = none

end Ide

/-- The runs of the driver from a state. -/
abbrev IdeRun {B P : Type} [DecidableEq B] [DecidableEq P] [Fintype B] (s₀ : Ide B P) :
    List (IdeEvent B P) → Ide B P → Prop :=
  Run Ide.step Ide.Distinct s₀ []

/-! ## What is seen -/

section Events

variable {B P : Type}

/-- The buffers of the calls. -/
def calls (es : List (IdeEvent B P)) : List B := es.flatMap fun
  | .called _ b _ _ => [b]
  | _ => []

/-- The buffers of the requests that have been started. -/
def starts (es : List (IdeEvent B P)) : List B := es.flatMap fun
  | .called _ _ _ o | .completed _ o => o.toList
  | _ => []

/-- The buffers of the requests that have been completed. -/
def completions (es : List (IdeEvent B P)) : List B := es.flatMap fun
  | .completed b _ => [b]
  | _ => []

variable {es es' : List (IdeEvent B P)}

@[simp] lemma calls_append : calls (es ++ es') = calls es ++ calls es' := List.flatMap_append

@[simp] lemma starts_append : starts (es ++ es') = starts es ++ starts es' := List.flatMap_append

@[simp] lemma completions_append : completions (es ++ es') = completions es ++ completions es' :=
  List.flatMap_append

/-- The process that is seen. -/
def IdeEvent.proc : IdeEvent B P → Option P
  | .called p _ _ _ | .returned p _ _ => some p
  | _ => none

/-- The disk writes a sector. -/
def IdeEvent.Writes (a : ℕ × ℕ) : IdeEvent B P → Prop
  | .executed _ cmd _ => cmd.address = a ∧ cmd.write.isSome
  | _ => False

end Events

/-- `iderw` of `memide.c` as a function of the buffer and the disks. -/
def memide (u : Buf) (d : Disks) : Buf × Disks :=
  if u.dirty = true then ({ u with dirty := false, valid := true }, Function.update d
    u.address u.data)
  else ({ u with data := d u.address, valid := true }, d)

/-- It is what `iderw` does on disk 1, where it does not panic. -/
lemma iderw_eq_memide {k : BlockState} {i : BufId} {d : Disks} (hbusy : (k.buf i).busy = true)
    (hdo : ¬ ((k.buf i).valid = true ∧ (k.buf i).dirty = false)) (hdev : (k.buf i).dev = 1)
    (hsector : (k.buf i).sector < k.disksize) (hsize : k.disksize ≤ 2 ^ 28)
    (hdisk : k.disk = fun n => d (1, n)) :
    ∃ k', iderw i k = .ok () k' ∧ k'.buf i = (memide (k.buf i) d).1 ∧
      k'.disk = fun n => (memide (k.buf i) d).2 (1, n) := by
  have haddr : (k.buf i).address = (1, (k.buf i).sector) := by
    rw [Buf.address, hdev, Nat.mod_eq_of_lt (lt_of_lt_of_le hsector hsize)]
  have hrun : iderw i k = if (k.buf i).dirty = true then
      .ok () ((k.setBuf i { k.buf i with dirty := false, valid := true }).diskWrite (k.buf i).sector
        (k.buf i).data)
      else .ok () (k.setBuf i { k.buf i with data := k.disk (k.buf i).sector, valid := true }) := by
    rw [iderw, if_neg (by simp [hbusy]), if_neg hdo, if_neg (by simp [hdev]),
      if_neg (not_le.2 hsector)]
  rw [hrun, memide, haddr]
  split
  · refine ⟨_, rfl, Function.update_self .., ?_⟩
    funext n
    by_cases hn : n = (k.buf i).sector
    · simp [BlockState.setBuf, BlockState.diskWrite, hn]
    · simp [BlockState.setBuf, BlockState.diskWrite, hn, hdisk]
  · refine ⟨_, rfl, ?_, hdisk⟩
    simp [BlockState.setBuf, hdisk]

/-! ## The invariant -/

section Invariant

variable {B P : Type} [DecidableEq B] {s s' : Ide B P}
  {es es' : List (IdeEvent B P)} {b : B} {p : P} {u : Buf} {l : List B} {before : Disks}

/-- The disk has executed the command for `u` when the disks were `before`, and since then nobody
else has written the sector unless this is seen. -/
def Executed (u : Buf) (es : List (IdeEvent B P)) (s : Ide B P) (before : Disks) : Prop :=
  ∃ x y, es = x ++ .executed before (Ide.command u) (memide u before).2 :: y ∧
    (u.dirty = true → (∀ e ∈ y, ¬ e.Writes u.address) → s.disks u.address = u.data)

omit [DecidableEq B] in
lemma Executed.mono (h : Executed u es s before) (o : Option (IdeEvent B P))
    (hdisk : (∀ e ∈ o, ¬ e.Writes u.address) → s'.disks u.address = s.disks u.address) :
    Executed u (es ++ o.toList) s' before := by
  obtain ⟨x, y, rfl, hy⟩ := h
  refine ⟨x, y ++ o.toList, by simp, fun hd hno => ?_⟩
  rw [hdisk fun e he => hno e (List.mem_append_right _ (Option.mem_toList.2 he))]
  exact hy hd fun e he => hno e (List.mem_append_left _ he)

/-- How far the call of `iderw` that began with the buffer `u` has come: the request waits or has
been started, the disk has executed it, the handler has completed it. -/
inductive Phase (b : B) (u : Buf) (es : List (IdeEvent B P)) (s : Ide B P) (l : List B) : Prop
  | waiting : b ∈ l → s.buf b = u → b ∉ completions es →
      (l.head? = some b → s.controller ≠ .done) → Phase b u es s l
  | executed (before : Disks) : l.head? = some b → s.controller = .done → s.buf b = u →
      b ∉ completions es → Executed u es s before → (u.dirty = false → s.data = before u.address) →
      Phase b u es s l
  | finished (before : Disks) : b ∉ l → (completions es).count b = 1 → Executed u es s before →
      s.buf b = (memide u before).1 → Phase b u es s l

/-- What others do to a call: they may change the controller and the data register when the buffer
is not the first one. -/
lemma Phase.mono {l' : List B} (h : Phase b u es s l) (o : Option (IdeEvent B P))
    (hcompl : ∀ e ∈ o, b ∉ completions [e]) (hbuf : s'.buf b = s.buf b) (hmem : b ∈ l' ↔ b ∈ l)
    (hhead : l.head? = some b → l'.head? = some b ∧ s'.controller = s.controller ∧ s'.data = s.data)
    (hnew : l'.head? = some b → l.head? = some b ∨ s'.controller ≠ .done)
    (hdisk : (∀ e ∈ o, ¬ e.Writes u.address) → s'.disks u.address = s.disks u.address) :
    Phase b u (es ++ o.toList) s' l' := by
  have hcount : (completions (es ++ o.toList)).count b = (completions es).count b := by
    rw [completions_append, List.count_append, Nat.add_eq_left, List.count_eq_zero]
    cases o with
    | none => simp [completions]
    | some e => exact hcompl e rfl
  have hno : b ∉ completions es → b ∉ completions (es ++ o.toList) := fun hb => by
    rw [← List.count_eq_zero, hcount, List.count_eq_zero]
    exact hb
  cases h with
  | waiting hm hu hb hw =>
      refine .waiting (hmem.2 hm) (hbuf.trans hu) (hno hb) fun hh => ?_
      by_cases hl : l.head? = some b
      · rw [(hhead hl).2.1]
        exact hw hl
      · exact (hnew hh).resolve_left hl
  | executed before hl hdone hu hb hex hdata =>
      obtain ⟨hl', hc, hd⟩ := hhead hl
      exact .executed before hl' (hc.trans hdone) (hbuf.trans hu) (hno hb) (hex.mono o hdisk)
        fun hclean => hd.trans (hdata hclean)
  | finished before hm hc hex hu =>
      exact .finished before (fun hb => hm (hmem.1 hb)) (hcount.trans hc) (hex.mono o hdisk)
        (hbuf.trans hu)

/-- A step that the call has nothing to do with. -/
lemma Phase.same (h : Phase b u es s l) (hbuf : s'.buf b = s.buf b)
    (hc : s'.controller = s.controller) (hdata : s'.data = s.data) (hdisks : s'.disks = s.disks) :
    Phase b u es s' l := by
  have hmono : Phase b u (es ++ (none : Option (IdeEvent B P)).toList) s' l :=
    h.mono none (by simp) hbuf Iff.rfl (fun hhead => ⟨hhead, hc, hdata⟩) .inl fun _ => by
      rw [hdisks]
  rwa [Option.toList_none, List.append_nil] at hmono

/-- The invariant: the queue has the calls that are not completed, in order, and the first one has
been started. -/
structure Serving (es : List (IdeEvent B P)) (s : Ide B P) (l : List B) : Prop where
  holds : s.queue.Holds l
  calls : calls es = completions es ++ l
  starts : starts es = completions es ++ l.take 1
  idle : s.controller = .idle ↔ l = []
  started : ∀ b, l.head? = some b → s.controller = .done ∨
    s.controller = .started (Ide.command (s.buf b))
  owner : ∀ b ∈ l, ∃ p, s.call p = some b
  distinct : ∀ p q b, s.call p = some b → s.call q = some b → p = q
  phase : ∀ p b, s.call p = some b → ∃ es₁ u o es₂, es = es₁ ++ .called p b u o :: es₂ ∧
    (∀ e ∈ es₂, e.proc ≠ some p) ∧ (u.busy = true ∧ Ide.finished u = false) ∧ Phase b u es₂ s l
  awake : ∀ p b, s.call p = some b → Ide.finished (s.buf b) = true → s.asleep p = false

namespace Serving

lemma of_quiet (h : s.Quiet) : Serving [] s [] where
  holds := ⟨List.nodup_nil, h.queue⟩
  calls := rfl
  starts := rfl
  idle := by simp [h.controller]
  started b hb := absurd hb (by simp)
  owner b hb := absurd hb (by simp)
  distinct p q b hp := absurd hp (by simp [h.call])
  phase p b hp := absurd hp (by simp [h.call])
  awake p b hp := absurd hp (by simp [h.call])

/-- A process that goes on in its call goes on in what is seen of it. -/
lemma phase_append (h : Serving es s l) {q : P} {o : Option (IdeEvent B P)} {l' : List B}
    (hq : s.call q = some b) (ho : ∀ e ∈ o, e.proc ≠ some q)
    (hphase : ∀ u es₂, Phase b u es₂ s l → Phase b u (es₂ ++ o.toList) s' l') :
    ∃ es₁ u st es₂, es ++ o.toList = es₁ ++ .called q b u st :: es₂ ∧ (∀ e ∈ es₂, e.proc ≠ some q) ∧
      (u.busy = true ∧ Ide.finished u = false) ∧ Phase b u es₂ s' l' := by
  obtain ⟨es₁, u, st, es₂, rfl, hno, hu, hp⟩ := h.phase q b hq
  refine ⟨es₁, u, st, es₂ ++ o.toList, by simp, fun e he => ?_, hu, hphase u es₂ hp⟩
  rcases List.mem_append.1 he with he | he
  · exact hno e he
  · exact ho e (Option.mem_toList.1 he)

/-- A call with a buffer of its own finds the end of the queue. -/
lemma exists_iderw [DecidableEq P] [Fintype B] (h : Serving es s l) (hd : ∀ q, s.call q ≠ some b)
    (hbusy : (s.buf b).busy = true) (hf : Ide.finished (s.buf b) = false)
    (hdev : (s.buf b).dev = 0 ∨ s.havedisk1 = true) :
    ∃ r, s.iderw p b = some r := by
  have hb : b ∉ l := fun hmem => by
    obtain ⟨q, hq⟩ := h.owner b hmem
    exact hd q hq
  obtain ⟨q, hq, -⟩ := h.holds.append hb (Nat.lt_succ_of_le h.holds.1.length_le_card)
  have hok : ¬ ((s.buf b).busy = false ∨ Ide.finished (s.buf b) = true ∨
      ((s.buf b).dev ≠ 0 ∧ s.havedisk1 = false)) := by
    rintro (hno | hno | ⟨hdev', hno⟩)
    · exact absurd hbusy (by simp [hno])
    · exact absurd hf (by simp [hno])
    · exact hdev.elim hdev' fun hhave => absurd hhave (by simp [hno])
  rw [Ide.iderw, if_neg hok, hq, Option.map_some]
  exact ⟨_, rfl⟩

/-- A call appends its buffer, and starts the request if there is no other. -/
lemma iderw_spec [DecidableEq P] [Fintype B] {r : Ide B P × Option B}
    (h : Serving es s l) (hb : b ∉ l) (hr : s.iderw p b = some r) :
    ((s.buf b).busy = true ∧ Ide.finished (s.buf b) = false) ∧ ∃ q, q.Holds (l ++ [b]) ∧
      r = ({ s with
        queue := q
        call := Function.update s.call p (some b)
        asleep := Function.update s.asleep p true
        controller :=
          if l = [] then .started (Ide.command (s.buf b)) else s.controller },
        if l = [] then some b else none) := by
  rw [Ide.iderw] at hr
  split at hr
  · exact absurd hr (by simp)
  · rename_i hcond
    obtain ⟨q, hq, hholds⟩ := h.holds.append hb (Nat.lt_succ_of_le h.holds.1.length_le_card)
    rw [hq, Option.map_some, Option.some.injEq] at hr
    refine ⟨⟨by simpa using fun hf => hcond (.inl hf),
      by simpa using fun hf => hcond (.inr (.inl hf))⟩, q, hholds, hr.symm.trans ?_⟩
    rw [hholds.head_eq]
    cases l with
    | nil => simp [Ide.idestart]
    | cons x l =>
        have hx : x ≠ b := fun heq => hb (heq ▸ List.mem_cons_self)
        simp [hx]

lemma call [DecidableEq P] [Fintype B] {r : Ide B P × Option B} (h : Serving es s l)
    (hp : s.call p = none) (hd : ∀ q, s.call q ≠ some b) (hr : s.iderw p b = some r) :
    Serving (es ++ [.called p b (s.buf b) r.2]) r.1 (l ++ [b]) := by
  have hb : b ∉ l := fun hmem => by
    obtain ⟨q, hq⟩ := h.owner b hmem
    exact hd q hq
  obtain ⟨hu, q, hq, rfl⟩ := h.iderw_spec hb hr
  have hne : ∀ {q x}, q ≠ p → Function.update s.call p (some b) q = some x → s.call q = some x :=
    fun hqp hx => by rwa [Function.update_of_ne hqp] at hx
  refine ⟨hq, ?_, ?_, ?_, fun x hx => ?_, fun x hx => ?_, fun q₁ q₂ x h₁ h₂ => ?_,
    fun q' x hx => ?_,
    fun q' x hx hf => ?_⟩
  · rw [calls_append, completions_append, h.calls]
    simp [Xv6.calls, completions]
  · rw [starts_append, completions_append, h.starts]
    cases l with
    | nil => simp [Xv6.starts, completions]
    | cons y l => simp [Xv6.starts, completions]
  · cases l with
    | nil => simp
    | cons y l => simpa using h.idle
  · cases l with
    | nil =>
        obtain rfl : b = x := by simpa using hx
        exact .inr rfl
    | cons y l => exact h.started x (by simpa using hx)
  · rcases List.mem_append.1 hx with hx | hx
    · obtain ⟨q', hq'⟩ := h.owner x hx
      refine ⟨q', ?_⟩
      show Function.update s.call p (some b) q' = some x
      rw [Function.update_of_ne fun heq => by rw [heq, hp] at hq'; exact absurd hq' (by simp)]
      exact hq'
    · exact ⟨p, by simpa [eq_comm] using hx⟩
  · by_cases h₁p : q₁ = p
    · by_cases h₂p : q₂ = p
      · rw [h₁p, h₂p]
      · obtain rfl : b = x := by simpa [h₁p] using h₁
        exact absurd (hne h₂p h₂) (hd q₂)
    · by_cases h₂p : q₂ = p
      · obtain rfl : b = x := by simpa [h₂p] using h₂
        exact absurd (hne h₁p h₁) (hd q₁)
      · exact h.distinct q₁ q₂ x (hne h₁p h₁) (hne h₂p h₂)
  · by_cases hqp : q' = p
    · subst hqp
      obtain rfl : b = x := by simpa using hx
      refine ⟨es, _, _, [], rfl, by simp, hu, .waiting (by simp) rfl (by simp [completions])
        fun hhead => ?_⟩
      cases l with
      | nil => simp
      | cons y l =>
          exact absurd (by simpa using hhead.symm) fun heq : b = y => hb (heq ▸ List.mem_cons_self)
    · have hx' := hne hqp hx
      have hxb : x ≠ b := fun heq => hd q' (heq ▸ hx')
      refine h.phase_append (o := some (.called p b (s.buf b) _)) hx'
        (fun e he => by obtain rfl := Option.mem_some.1 he; simpa [IdeEvent.proc] using Ne.symm hqp)
        fun u es₂ hphase => ?_
      refine hphase.mono _ (fun e he => by obtain rfl := Option.mem_some.1 he; simp [completions])
        rfl (by simp [hxb]) (fun hhead => ?_) (fun hhead => ?_) fun _ => rfl
      · obtain ⟨y, l, rfl⟩ := List.exists_cons_of_ne_nil (l := l) fun hnil => by
          simp [hnil] at hhead
        exact ⟨by simpa using hhead, rfl, rfl⟩
      · cases l with
        | nil => exact absurd (by simpa using hhead.symm) hxb
        | cons y l => exact .inl (by simpa using hhead)
  · by_cases hqp : q' = p
    · obtain rfl : b = x := by simpa [hqp] using hx
      exact absurd hf (by simp [hu.2])
    · exact (Function.update_of_ne hqp _ _).trans (h.awake q' x (hne hqp hx) hf)

/-- A request that is in the queue is not finished. -/
lemma not_mem_of_finished (h : Serving es s l) (hp : s.call p = some b)
    (hf : Ide.finished (s.buf b) = true) : b ∉ l := by
  obtain ⟨es₁, u, o, es₂, -, -, hu, hphase⟩ := h.phase p b hp
  cases hphase with
  | waiting _ hbuf _ _ => exact absurd (hbuf ▸ hf) (by simp [hu.2])
  | executed before _ _ hbuf _ _ _ => exact absurd (hbuf ▸ hf) (by simp [hu.2])
  | finished before hno _ _ _ => exact hno

lemma resume [DecidableEq P] (h : Serving es s l) (hp : s.call p = some b) :
    Serving (es ++ (s.resume p b).2.toList) (s.resume p b).1 l := by
  rw [Ide.resume]
  split
  · rename_i hf
    have hb := h.not_mem_of_finished hp hf
    have hne : ∀ {q x}, Function.update s.call p none q = some x → q ≠ p ∧ s.call q = some x :=
      fun {q x} hx => by
        by_cases hqp : q = p
        · simp [hqp] at hx
        · exact ⟨hqp, by rwa [Function.update_of_ne hqp] at hx⟩
    refine ⟨h.holds, ?_, ?_, h.idle, h.started, fun x hx => ?_, fun q₁ q₂ x h₁ h₂ =>
      h.distinct q₁ q₂ x (hne h₁).2 (hne h₂).2, fun q x hx => ?_,
        fun q x hx => h.awake q x (hne hx).2⟩
    · rw [calls_append, completions_append, h.calls]
      simp [Xv6.calls, completions]
    · rw [starts_append, completions_append, h.starts]
      simp [Xv6.starts, completions]
    · obtain ⟨q, hq⟩ := h.owner x hx
      refine ⟨q, (Function.update_of_ne (fun hqp => hb ?_) _ _).trans hq⟩
      rw [hqp, hp] at hq
      exact Option.some.inj hq ▸ hx
    · obtain ⟨hqp, hx'⟩ := hne hx
      refine h.phase_append (o := some (.returned p b (s.buf b))) hx'
        (fun e he => by obtain rfl := Option.mem_some.1 he; simpa [IdeEvent.proc] using Ne.symm hqp)
        fun u es₂ hphase => hphase.mono _
          (fun e he => by obtain rfl := Option.mem_some.1 he; simp [completions]) rfl Iff.rfl
          (fun hhead => ⟨hhead, rfl, rfl⟩) .inl fun _ => rfl
  · rename_i hf
    refine ⟨h.holds, ?_, ?_, h.idle, h.started, h.owner, h.distinct, fun q x hx => ?_,
      fun q x hx hfx => ?_⟩
    · simpa using h.calls
    · simpa using h.starts
    · obtain ⟨es₁, u, o, es₂, hes, hno, hu, hphase⟩ := h.phase q x hx
      exact ⟨es₁, u, o, es₂, by simpa using hes, hno, hu, hphase.same rfl rfl rfl rfl⟩
    · have hqp : q ≠ p := fun hqp => by
        rw [hqp, hp] at hx
        exact hf (Option.some.inj hx ▸ hfx)
      exact (Function.update_of_ne hqp _ _).trans (h.awake q x hx hfx)

lemma wake [DecidableEq P] (h : Serving es s l) (p : P) :
    Serving es { s with asleep := Function.update s.asleep p false } l := by
  refine ⟨h.holds, h.calls, h.starts, h.idle, h.started, h.owner, h.distinct, fun q x hx => ?_,
    fun q x hx hf => ?_⟩
  · obtain ⟨es₁, u, o, es₂, hes, hno, hu, hphase⟩ := h.phase q x hx
    exact ⟨es₁, u, o, es₂, hes, hno, hu, hphase.same rfl rfl rfl rfl⟩
  · by_cases hqp : q = p
    · simp [hqp]
    · exact (Function.update_of_ne hqp _ _).trans (h.awake q x hx hf)

lemma change (h : Serving es s l) (v : Buf) (hd : ∀ q, s.call q ≠ some b) :
    Serving es (s.setBuf b v) l := by
  have hne : ∀ {q x}, s.call q = some x → (s.setBuf b v).buf x = s.buf x := fun {q x} hx =>
    Function.update_of_ne (fun heq : x = b => hd q (heq ▸ hx)) _ _
  refine ⟨h.holds, h.calls, h.starts, h.idle, fun x hx => ?_, h.owner, h.distinct, fun q x hx => ?_,
    fun q x hx hf => h.awake q x hx (hne hx ▸ hf)⟩
  · obtain ⟨q, hq⟩ := h.owner x (List.mem_of_mem_head? hx)
    rw [hne hq]
    exact h.started x hx
  · obtain ⟨es₁, u, o, es₂, hes, hno, hu, hphase⟩ := h.phase q x hx
    exact ⟨es₁, u, o, es₂, hes, hno, hu, hphase.same (hne hx) rfl rfl rfl⟩

/-- While a command is on its way the first buffer of the queue is the one it is for. -/
lemma exists_head (h : Serving es s l) (hc : s.controller ≠ .idle) : ∃ x l', l = x :: l' :=
  List.exists_cons_of_ne_nil fun hnil => hc (h.idle.2 hnil)

omit [DecidableEq B] in
lemma execute_disks (u : Buf) : (s.execute (Ide.command u)).disks = (memide u s.disks).2 := by
  by_cases hd : u.dirty = true
  · simp [Ide.execute, Ide.command, memide, hd]
  · simp [Ide.execute, Ide.command, memide, hd]

lemma execute {cmd : Command} (h : Serving es s l) (hc : s.controller = .started cmd) :
    Serving (es ++ [.executed s.disks cmd (s.execute cmd).disks]) (s.execute cmd) l := by
  obtain ⟨x, l, rfl⟩ := h.exists_head (by simp [hc])
  obtain rfl : cmd = Ide.command (s.buf x) := by
    rcases h.started x rfl with hdone | hst
    · exact absurd (hc.symm.trans hdone) (by simp)
    · simpa using hc.symm.trans hst
  have hsame : (s.execute (Ide.command (s.buf x))).queue = s.queue ∧
      (s.execute (Ide.command (s.buf x))).buf = s.buf ∧
      (s.execute (Ide.command (s.buf x))).call = s.call ∧
      (s.execute (Ide.command (s.buf x))).asleep = s.asleep ∧
      (s.execute (Ide.command (s.buf x))).controller = .done := by
    rw [Ide.execute]
    split <;> exact ⟨rfl, rfl, rfl, rfl, rfl⟩
  obtain ⟨hqueue, hbuf, hcall, hasleep, hdone⟩ := hsame
  refine ⟨by rw [hqueue]; exact h.holds, ?_, ?_, by simp [hdone], fun _ _ => .inl hdone,
    by rw [hcall]; exact h.owner, by rw [hcall]; exact h.distinct, fun q b hq => ?_,
    by rw [hcall, hbuf, hasleep]; exact h.awake⟩
  · rw [calls_append, completions_append, h.calls]
    simp [Xv6.calls, completions]
  · rw [starts_append, completions_append, h.starts]
    simp [Xv6.starts, completions]
  · rw [hcall] at hq
    refine h.phase_append (o := some (.executed s.disks _ _)) hq
      (fun e he => by obtain rfl := Option.mem_some.1 he; simp [IdeEvent.proc])
      fun u es₂ hphase => ?_
    by_cases hb : b = x
    · -- the command is the one for this call
      subst hb
      cases hphase with
      | waiting hm hu hno _ =>
          subst hu
          refine .executed s.disks rfl hdone (by rw [hbuf]) (by simpa [completions] using hno)
            ⟨es₂, [], by rw [execute_disks]; rfl, fun hd _ => ?_⟩ fun hclean => ?_
          · rw [execute_disks, memide, if_pos hd]
            exact Function.update_self ..
          · simp [Ide.execute, Ide.command, hclean]
      | executed before _ hd _ _ _ _ => exact absurd (hc.symm.trans hd) (by simp)
      | finished before hno _ _ _ => exact absurd List.mem_cons_self hno
    · refine hphase.mono _ (fun e he => by obtain rfl := Option.mem_some.1 he; simp [completions])
        (by rw [hbuf]) Iff.rfl (fun hhead => absurd (by simpa using hhead.symm) hb)
        (fun hhead => absurd (by simpa using hhead.symm) hb) fun hno => ?_
      have hno' := hno _ rfl
      rw [execute_disks, memide]
      split
      · rename_i hd
        refine Function.update_of_ne (fun heq => hno' ⟨heq.symm, ?_⟩) _ _
        simp [Ide.command, hd]
      · rfl

/-- What the handler leaves in the first buffer. -/
def served (s : Ide B P) (b : B) : Buf :=
  { (if (s.buf b).dirty = true then s.buf b else { s.buf b with data := s.data }) with
    valid := true, dirty := false }

omit [DecidableEq B] in
lemma served_eq (hdata : (s.buf b).dirty = false → s.data = before (s.buf b).address) :
    served s b = (memide (s.buf b) before).1 := by
  by_cases hd : (s.buf b).dirty = true
  · simp [served, memide, hd]
  · simp [served, memide, hd, hdata (by simpa using hd)]

/-- The handler completes the first request and starts the next one. -/
lemma ideintr_spec (h : Serving es s (b :: l)) :
    { s with controller := .idle }.ideintr = ({ s with
      queue := s.queue.drop b
      buf := Function.update s.buf b (served s b)
      asleep := fun p => if s.call p = some b then false else s.asleep p
      controller := match l.head? with
        | none => .idle
        | some b' => .started (Ide.command (s.buf b')) }, some (.completed b l.head?)) := by
  have hhead := h.holds.drop.head_eq
  have hb : s.queue.head = some b := h.holds.head_eq
  simp only [Ide.ideintr, hb, Ide.wakeup, Ide.setBuf, hhead]
  cases l with
  | nil => rfl
  | cons x l =>
      have hx : x ≠ b := fun heq => (List.nodup_cons.1 h.holds.1).1 (heq ▸ List.mem_cons_self)
      simp [Ide.idestart, Function.update_of_ne hx, served]

lemma interrupt (h : Serving es s l) (hc : s.controller = .done) : ∃ l',
    Serving (es ++ ({ s with controller := .idle }.ideintr).2.toList)
    ({ s with controller := .idle }.ideintr).1
      l' := by
  obtain ⟨b, l, rfl⟩ := h.exists_head (by simp [hc])
  obtain ⟨hb, hl⟩ := List.nodup_cons.1 h.holds.1
  rw [ideintr_spec h]
  refine ⟨l, h.holds.drop, ?_, ?_, ?_, fun x hx => ?_, fun x hx =>
    h.owner x (List.mem_cons_of_mem _ hx),
    h.distinct, fun q x hq => ?_, fun q x hq hf => ?_⟩
  · rw [Option.toList_some, calls_append, completions_append, h.calls]
    simp [Xv6.calls, completions]
  · rw [Option.toList_some, starts_append, completions_append, h.starts]
    cases l with
    | nil => simp [Xv6.starts, completions]
    | cons x l => simp [Xv6.starts, completions]
  · cases l with
    | nil => simp
    | cons x l => simp
  · have hne : x ≠ b := fun heq => hb (heq ▸ List.mem_of_mem_head? hx)
    rw [hx]
    exact .inr (by simp [Function.update_of_ne hne])
  · refine h.phase_append (o := some (.completed b l.head?)) hq
      (fun e he => by obtain rfl := Option.mem_some.1 he; simp [IdeEvent.proc])
      fun u es₂ hphase => ?_
    by_cases hxb : x = b
    · subst hxb
      cases hphase with
      | waiting _ _ _ hw => exact absurd hc (hw rfl)
      | executed before _ _ hu hno hex hdata =>
          subst hu
          refine .finished before hb ?_ (hex.mono _ fun _ => rfl) ?_
          · rw [Option.toList_some, completions_append, List.count_append, List.count_eq_zero.2 hno]
            simp [completions]
          · exact (Function.update_self ..).trans (served_eq hdata)
      | finished before hno _ _ _ => exact absurd List.mem_cons_self hno
    · refine hphase.mono _
        (fun e he => by obtain rfl := Option.mem_some.1 he; simpa [completions] using hxb)
        (Function.update_of_ne hxb _ _) (by simp [hxb])
        (fun hhead => absurd (by simpa using hhead.symm) hxb) (fun hhead => .inr ?_) fun _ => rfl
      rw [hhead]
      simp
  · by_cases hqb : s.call q = some b
    · exact if_pos hqb
    · have hxb : x ≠ b := fun heq => hqb (heq ▸ hq)
      exact (if_neg hqb).trans (h.awake q x hq (by simpa [Function.update_of_ne hxb] using hf))

lemma step [DecidableEq P] [Fintype B] {lbl : IdeLabel B P} {o : Option (IdeEvent B P)}
    (h : Serving es s l) (hok : s.Distinct lbl) (hs : s.step lbl = some (s', o)) :
    ∃ l', Serving (es ++ o.toList) s' l' := by
  cases lbl with
  | call p b =>
      simp only [Ide.step] at hs
      split at hs
      · rename_i hp
        obtain ⟨r, hr, heq⟩ := Option.map_eq_some_iff.1 hs
        obtain ⟨rfl, rfl⟩ := Prod.mk.inj heq
        exact ⟨_, h.call hp hok hr⟩
      · exact absurd hs (by simp)
  | resume p =>
      simp only [Ide.step] at hs
      split at hs
      · obtain ⟨b, hb, heq⟩ := Option.map_eq_some_iff.1 hs
        have hres := h.resume hb
        rw [heq] at hres
        exact ⟨l, hres⟩
      · exact absurd hs (by simp)
  | execute =>
      simp only [Ide.step] at hs
      split at hs
      · rename_i cmd hc
        obtain ⟨rfl, rfl⟩ := Prod.mk.inj (Option.some.inj hs)
        exact ⟨l, h.execute hc⟩
      · exact absurd hs (by simp)
  | interrupt =>
      simp only [Ide.step] at hs
      split at hs
      · rename_i hc
        have hint := h.interrupt hc
        rw [Option.some.inj hs] at hint
        exact hint
      · exact absurd hs (by simp)
  | wake p =>
      obtain ⟨rfl, rfl⟩ := Prod.mk.inj (Option.some.inj hs)
      exact ⟨l, by simpa using h.wake p⟩
  | change b v =>
      obtain ⟨rfl, rfl⟩ := Prod.mk.inj (Option.some.inj hs)
      exact ⟨l, by simpa using h.change v hok⟩

lemma of_run [DecidableEq P] [Fintype B] {s₀ : Ide B P} (h₀ : s₀.Quiet) (h : IdeRun s₀ es s) :
    ∃ l, Serving es s l :=
  h.invariant (I := fun es s => ∃ l, Serving es s l) ⟨[], of_quiet h₀⟩
    fun ⟨_, hI⟩ hok hs => hI.step hok hs

end Serving

end Invariant

/-! ## Calls of `iderw` -/

section Calls

variable {B P : Type} [DecidableEq B] [DecidableEq P] [Fintype B] {s s' : Ide B P}
  {es : List (IdeEvent B P)}

/-- A return of `iderw` is seen when the process finds its request finished. -/
lemma returned_of_step {lbl : IdeLabel B P} {p : P} {b : B} {v : Buf}
    (hs : s.step lbl = some (s', some (.returned p b v))) :
    s.call p = some b ∧ v = s.buf b ∧ Ide.finished v = true ∧ s'.disks = s.disks := by
  cases lbl with
  | call q x =>
      simp only [Ide.step] at hs
      split at hs
      · obtain ⟨r, -, heq⟩ := Option.map_eq_some_iff.1 hs
        exact absurd (Prod.mk.inj heq).2 (by simp)
      · exact absurd hs (by simp)
  | resume q =>
      simp only [Ide.step] at hs
      split at hs
      · obtain ⟨x, hx, heq⟩ := Option.map_eq_some_iff.1 hs
        rw [Ide.resume] at heq
        split at heq
        · rename_i hf
          obtain ⟨rfl, hret⟩ := Prod.mk.inj heq
          obtain ⟨rfl, rfl, rfl⟩ : q = p ∧ x = b ∧ s.buf x = v := by simpa using hret
          exact ⟨hx, rfl, hf, rfl⟩
        · exact absurd (Prod.mk.inj heq).2 (by simp)
      · exact absurd hs (by simp)
  | execute =>
      simp only [Ide.step] at hs
      split at hs
      · exact absurd (Prod.mk.inj (Option.some.inj hs)).2 (by simp)
      · exact absurd hs (by simp)
  | interrupt =>
      simp only [Ide.step] at hs
      split at hs
      · have heq := congrArg Prod.snd (Option.some.inj hs)
        simp only [Ide.ideintr] at heq
        split at heq
        · exact absurd heq (by simp)
        · split at heq
          · exact absurd heq (by simp)
          · exact absurd heq (by simp)
      · exact absurd hs (by simp)
  | wake q => exact absurd (Prod.mk.inj (Option.some.inj hs)).2 (by simp)
  | change x w => exact absurd (Prod.mk.inj (Option.some.inj hs)).2 (by simp)

/-- The queue has the requests that are not completed, each once and in the order of the calls, the
first one has been started and no other, and the disk has its command.  Every call with a busy
buffer of its own that is not in order enters the queue, and a process whose request is finished is
awake.

When `iderw` returns, its request has been completed once; at one moment of the call the disk did
with the buffer what `iderw` of `memide.c` does; `B_VALID` is set and `B_DIRTY` is not; and the
sector still has the data that was written, unless another command has written the same sector
since. -/
theorem ide_is_synchronous {s₀ : Ide B P} (h₀ : s₀.Quiet) (h : IdeRun s₀ es s) :
    (∃ l, s.queue.Holds l ∧ calls es = completions es ++ l ∧ starts es =
      completions es ++ l.take 1 ∧
      (s.controller = .idle ↔ l = [])) ∧
    (∀ p b, s.call p = none → (∀ q, s.call q ≠ some b) → (s.buf b).busy = true →
      Ide.finished (s.buf b) = false → ((s.buf b).dev = 0 ∨ s.havedisk1 = true) →
      ∃ r, s.step (.call p b) = some r) ∧
    (∀ p b, s.call p = some b → Ide.finished (s.buf b) = true → s.asleep p = false) ∧
    ∀ lbl s' p b v, s.step lbl = some (s', some (.returned p b v)) →
      v.valid = true ∧ v.dirty = false ∧
      ∃ es₁ u o es₂ x before y, es = es₁ ++ .called p b u o :: es₂ ∧ (∀ e ∈ es₂, e.proc ≠ some p) ∧
        (completions es₂).count b = 1 ∧
        es₂ = x ++ .executed before (Ide.command u) (memide u before).2 :: y ∧
        v = (memide u before).1 ∧
        (∀ (k : BlockState) (i : BufId), k.buf i = u → u.dev = 1 → u.sector < k.disksize →
          k.disksize ≤ 2 ^ 28 → k.disk = (fun n => before (1, n)) →
          ∃ k', iderw i k = .ok () k' ∧ k'.buf i = v ∧ k'.disk =
            fun n => (memide u before).2 (1, n)) ∧
        if u.dirty = true then
          v.data = u.data ∧ ((∀ e ∈ y, ¬ e.Writes u.address) → s'.disks u.address = v.data)
        else v.data = before u.address := by
  obtain ⟨l, hI⟩ := Serving.of_run h₀ h
  refine ⟨⟨l, hI.holds, hI.calls, hI.starts, hI.idle⟩, fun p b hp hd hbusy hf hdev => ?_, hI.awake,
    fun lbl s' p b v hs => ?_⟩
  · obtain ⟨r, hr⟩ := hI.exists_iderw (p := p) hd hbusy hf hdev
    simp only [Ide.step, if_pos hp, hr, Option.map_some]
    exact ⟨_, rfl⟩
  obtain ⟨hcall, rfl, hf, hdisks⟩ := returned_of_step hs
  obtain ⟨es₁, u, o, es₂, hes, hno, hu, hphase⟩ := hI.phase p b hcall
  cases hphase with
  | waiting _ hbuf _ _ => exact absurd (hbuf ▸ hf) (by simp [hu.2])
  | executed before _ _ hbuf _ _ _ => exact absurd (hbuf ▸ hf) (by simp [hu.2])
  | finished before _ hcount hex hbuf =>
      obtain ⟨x, y, hx, hy⟩ := hex
      obtain ⟨hvalid, hdirty⟩ : (s.buf b).valid = true ∧ (s.buf b).dirty = false := by
        simpa [Ide.finished] using hf
      refine ⟨hvalid, hdirty, es₁, u, o, es₂, x, before, y, hes, hno, hcount, hx, hbuf, ?_, ?_⟩
      · intro k i hk hdev hsector hsize hdisk
        subst hk
        obtain ⟨k', hrun, hb, hd⟩ :=
          iderw_eq_memide hu.1 (by simpa [Ide.finished] using hu.2) hdev hsector hsize hdisk
        exact ⟨k', hrun, hb.trans hbuf.symm, hd⟩
      · rw [hbuf, memide, hdisks]
        split
        · rename_i hd
          exact ⟨rfl, hy hd⟩
        · rfl

/-- Two buffers for one sector of disk 1, both dirty, and one process for each. -/
def twin : Ide Bool Bool where
  queue := ⟨none, fun _ => none⟩
  buf b := ⟨true, false, true, 1, 7, fun _ => if b then 1 else 2⟩
  disks _ := fun _ => 0
  controller := .idle
  data := fun _ => 0
  havedisk1 := true
  call _ := none
  asleep _ := false

lemma twin_quiet : twin.Quiet := ⟨rfl, rfl, fun _ => rfl⟩

theorem ide_is_synchronous_twin : twin.Quiet ∧ ∃ s es, IdeRun twin es s ∧ calls es = [true] ∧
    ∃ s' v, s.step (.resume true) = some (s', some (.returned true true v)) ∧ v.valid = true ∧
      v.dirty = false := by
  have hexec : exec (restrict Ide.step Ide.Distinct) [.call true true, .execute, .interrupt]
    [] twin = some (_, _) := rfl
  have hrun : IdeRun twin _ _ := .of_exec .start hexec
  have hret := (ide_is_synchronous twin_quiet hrun).2.2.2 (.resume true) _ _ _ _ rfl
  exact ⟨twin_quiet, _, _, hrun, rfl, _, _, rfl, hret.1, hret.2.1⟩

/-- Two dirty buffers that are distinct and busy may be for the same sector: when `iderw` returns
for the first, the sector has the data of the second. -/
theorem sector_of_twin : ∃ es s s' u o v, IdeRun twin es s ∧ .called true true u o ∈ es ∧
    u.dirty = true ∧
    s.step (.resume true) = some (s', some (.returned true true v)) ∧
    s'.disks u.address ≠ v.data := by
  have hexec : exec (restrict Ide.step Ide.Distinct)
    [.call true true, .call false false, .execute, .interrupt, .execute] [] twin = some (_, _) :=
    rfl
  have hrun : IdeRun twin _ _ := .of_exec .start hexec
  refine ⟨_, _, _, _, _, _, hrun, List.mem_cons_self, rfl, rfl, fun heq => ?_⟩
  exact absurd (congrFun heq ⟨0, by decide⟩) (by decide)

end Calls

end Xv6
