import Xv6.Lib.Ring
import Xv6.Lib.Run
import Mathlib.Data.Int.Notation
import Mathlib.Order.Nat

/-!
# Console input (`console.c`)

Characters are typed, and any number of processes call `consoleread`.  The handler of the keyboard
interrupt, `consoleintr`, holds `input.lock` while it deals with a character.  A reader holds it
from the call, or from the return of `sleep`, to the next `sleep` or to the end of its loop; a step
is one turn of that loop.

What is typed, and what is taken out, drives a line editor (`Editor`) that has no buffer and no
indices.  Readers get the characters that it has committed, in this order, and none beyond the end
of a line (`console_faithful`).
-/

namespace Xv6

open Lib

/-- The number of characters that are kept for readers and for editing. -/
def INPUT_BUF : UInt32 := 128

/-- The macro `C(x)`: the character that control and `x` send. -/
def C (x : Char) : UInt8 := x.toUInt8 - '@'.toUInt8

/-- `'\n'`. -/
def newline : UInt8 := '\n'.toUInt8

/-- `input`, without its lock. -/
structure Input where
  buf : ℕ → UInt8
  r : UInt32
  w : UInt32
  e : UInt32

namespace Input

/-- The loop of `C('U')`, which takes back at most `k` characters. -/
def killLine : ℕ → Input → Input
  | 0, i => i
  | k + 1, i =>
      if i.e ≠ i.w ∧ i.buf ((i.e - 1).toNat % INPUT_BUF.toNat) ≠ newline then
        killLine k { i with e := i.e - 1 } else i

/-- A character is stored and the line is committed if that ends it; the result tells whether
`wakeup` is called. -/
def accept (i : Input) (c : UInt8) : Input × Bool :=
  let i := { i with buf := Function.update i.buf (i.e.toNat % INPUT_BUF.toNat) c, e := i.e + 1 }
  if c = newline ∨ c = C 'D' ∨ i.e = i.r + INPUT_BUF then ({ i with w := i.e }, true)
    else (i, false)

/-- `consoleintr` with the character `c`. -/
def consoleintr (i : Input) (c : UInt8) : Input × Bool :=
  if c = C 'P' then (i, false)
  else if c = C 'U' then (i.killLine (i.e - i.w).toNat, false)
  else if c = C 'H' ∨ c = 0x7f then (if i.e ≠ i.w then { i with e := i.e - 1 } else i, false)
  else if c ≠ 0 ∧ i.e - i.r < INPUT_BUF then i.accept (if c = '\r'.toUInt8 then newline else c)
  else (i, false)

end Input

/-! ## Processes -/

/-- The variables of `consoleread`, and whether it has left its loop with `break`. -/
structure Reader where
  target : ℤ
  n : ℤ
  left : Bool

/-- A process: its call of `consoleread`, if it is inside one, whether it is `SLEEPING` there, and
whether it has been killed. -/
structure ConsoleProc where
  call : Option Reader
  asleep : Bool
  killed : Bool

/-- The input, the reader that holds `input.lock`, and the processes. -/
structure Console (P : Type) where
  input : Input
  lock : Option P
  proc : P → ConsoleProc

/-- What is seen of a step: a character is typed; a process calls `consoleread`, copies a character
to its buffer, takes a `^D`, finds one that it leaves, or returns. -/
inductive ConsoleEvent (P : Type)
  | typed (c : UInt8)
  | began (p : P)
  | copied (p : P) (c : UInt8)
  | passed (p : P)
  | found (p : P)
  | returned (p : P) (v : ℤ)

/-- What may happen next.  A process that is killed between the test of `proc->killed` and `sleep`
is not `SLEEPING` yet, and then `kill` sets the flag only. -/
inductive ConsoleLabel (P : Type)
  | type (c : UInt8)
  | read (p : P) (n : ℤ)
  | resume (p : P)
  | go (p : P)
  | kill (p : P) (wake : Bool)

namespace Console

variable {P : Type} [DecidableEq P]

/-- Nothing has been typed, and nobody reads. -/
def start : Console P where
  input := ⟨fun _ => 0, 0, 0, 0⟩
  lock := none
  proc _ := ⟨none, false, false⟩

/-- Change one process. -/
def setProc (s : Console P) (p : P) (v : ConsoleProc) :
    Console P := { s with proc := Function.update s.proc p v }

lemma call_setProc {s : Console P} {p : P} (v : ConsoleProc) (q : P) :
    ((s.setProc p v).proc q).call = if q = p then v.call else (s.proc q).call := by
  show (Function.update s.proc p v q).call = _
  rw [Function.update_apply]
  split <;> rfl

/-- `wakeup(&input.r)`. -/
def wakeup (s : Console P) :
    Console P := { s with proc := fun p => { s.proc p with asleep := false } }

/-- One turn of the loop of `consoleread`, or what follows the loop. -/
def consoleread (s : Console P) (p : P) (rd : Reader) : Console P × Option (ConsoleEvent P) :=
  let i := s.input
  if rd.left = false ∧ 0 < rd.n then
    if i.r = i.w then
      if (s.proc p).killed = true then
        ({ s with lock := none }.setProc p { s.proc p with call := none }, some (.returned p (-1)))
      else ({ s with lock := none }.setProc p { s.proc p with asleep := true }, none)
    else
      let c := i.buf (i.r.toNat % INPUT_BUF.toNat)
      if c = C 'D' then
        if rd.n < rd.target then
          (s.setProc p { s.proc p with call := some { rd with left := true } }, some (.found p))
        else
          ({ s with input := { i with r := i.r + 1 } }.setProc p
            { s.proc p with call := some { rd with left := true } },
            some (.passed p))
      else
        ({ s with input := { i with r := i.r + 1 } }.setProc p
          { s.proc p with call := some { rd with n := rd.n - 1, left := c = newline } },
          some (.copied p c))
  else
    ({ s with lock := none }.setProc p { s.proc p with call := none },
      some (.returned p (rd.target - rd.n)))

/-- One step, if it is possible. -/
def step (s : Console P) : ConsoleLabel P → Option (Console P × Option (ConsoleEvent P))
  | .type c =>
      if s.lock = none then
        let r := s.input.consoleintr c
        let s := { s with input := r.1 }
        some (if r.2 then s.wakeup else s, some (.typed c))
      else none
  | .read p n =>
      if s.lock = none ∧ (s.proc p).call.isNone then
        some ({ s with lock := some p }.setProc p { s.proc p with call := some ⟨n, n, false⟩ },
          some (.began p))
      else none
  | .resume p =>
      if s.lock = none ∧ (s.proc p).call.isSome ∧ (s.proc p).asleep = false then
        some ({ s with lock := some p }, none)
      else none
  | .go p =>
      match (s.proc p).call with
      | some rd => if s.lock = some p then some (s.consoleread p rd) else none
      | none => none
  | .kill p wake =>
      some (s.setProc p { s.proc p with killed := true, asleep := (s.proc p).asleep && !wake },
        none)

end Console

/-! ## The line editor -/

/-- A line editor: the characters of the lines that have been committed, the line that is being
edited, and how many of the committed characters have been taken out. -/
structure Editor where
  committed : List UInt8
  line : List UInt8
  taken : ℕ

namespace Editor

/-- How many characters it holds. -/
def size (d : Editor) : ℕ := d.committed.length - d.taken + d.line.length

/-- A character is added to the line; the end of a line, `^D`, and the last character there is room
for commit it. -/
def accept (d : Editor) (c : UInt8) : Editor :=
  if c = newline ∨ c = C 'D' ∨ d.size + 1 = INPUT_BUF.toNat then
    { d with committed := d.committed ++ (d.line ++ [c]), line := [] }
  else { d with line := d.line ++ [c] }

/-- A character is typed. -/
def type (d : Editor) (c : UInt8) : Editor :=
  if c = C 'P' then d
  else if c = C 'U' then { d with line := [] }
  else if c = C 'H' ∨ c = 0x7f then { d with line := d.line.dropLast }
  else if c ≠ 0 ∧ d.size < INPUT_BUF.toNat then d.accept (if c = '\r'.toUInt8 then newline else c)
  else d

end Editor

section

variable {P : Type} [DecidableEq P] {i : Input} {d : Editor} {c : UInt8}

/-! ## The buffer -/

lemma input_buf_dvd : INPUT_BUF.toNat ∣ 2 ^ 32 := by decide

namespace Input

/-- What is in the buffer up to index `x`. -/
def upTo (i : Input) (x : UInt32) : List UInt8 := Ring.content i.buf INPUT_BUF.toNat i.r x

lemma length_upTo (x : UInt32) : (i.upTo x).length = Ring.count i.r x := Ring.length_content

/-- The buffer holds what the editor holds. -/
structure Matches (i : Input) (d : Editor) : Prop where
  room : Ring.count i.r i.e ≤ INPUT_BUF.toNat
  taken : d.taken ≤ d.committed.length
  unread : i.upTo i.w = d.committed.drop d.taken
  line : i.upTo i.e = i.upTo i.w ++ d.line
  plain : newline ∉ d.line

namespace Matches

lemma count_w (h : i.Matches d) : Ring.count i.r i.w = d.committed.length - d.taken := by
  rw [← length_upTo, h.unread, List.length_drop]

lemma count_e (h : i.Matches d) : Ring.count i.r i.e = d.size := by
  rw [← length_upTo, h.line, List.length_append, length_upTo, h.count_w]
  rfl

/-- The line is empty as long as nothing has been typed since one was committed. -/
lemma edited_iff (h : i.Matches d) : i.e ≠ i.w ↔ d.line ≠ [] := by
  have hlen := h.count_e
  rw [Editor.size, ← h.count_w] at hlen
  rw [not_iff_not, ← List.length_eq_zero_iff, ← Ring.count_inj (r := i.r)]
  omega

/-- The last character of the line is taken back. -/
lemma back (h : i.Matches d) (hne : i.e ≠ i.w) :
    d.line = d.line.dropLast ++ [i.buf ((i.e - 1).toNat % INPUT_BUF.toNat)] ∧
      Matches { i with e := i.e - 1 } { d with line := d.line.dropLast } := by
  have hline := h.edited_iff.1 hne
  have hpos : i.r ≠ i.e := fun heq => by
    have hlen := h.count_e
    rw [Ring.count_eq_zero.2 heq, Editor.size] at hlen
    exact hline (List.length_eq_zero_iff.1 (by omega))
  have hlast : i.upTo i.e = i.upTo (i.e - 1) ++ [i.buf ((i.e - 1).toNat % INPUT_BUF.toNat)] :=
    Ring.content_back input_buf_dvd hpos
  obtain ⟨hinit, heq⟩ : i.upTo i.w ++ d.line.dropLast = i.upTo (i.e - 1) ∧
      [d.line.getLast hline] = [i.buf ((i.e - 1).toNat % INPUT_BUF.toNat)] := by
    refine List.append_inj' ?_ rfl
    rw [← hlast, h.line, List.append_assoc, List.dropLast_append_getLast]
  have hcount := Ring.count_back hpos
  have hroom := h.room
  refine ⟨by rw [← heq, List.dropLast_append_getLast], ?_, h.taken, h.unread, hinit.symm,
    fun hmem => h.plain (List.dropLast_subset _ hmem)⟩
  show Ring.count i.r (i.e - 1) ≤ _
  omega

/-- `C('U')` takes back the whole line: the character `'\n'` is not in it. -/
lemma killLine (h : i.Matches d) {k : ℕ} (hk : d.line.length ≤ k) :
    Matches (i.killLine k) { d with line := [] } := by
  induction k generalizing i d with
  | zero =>
      have hnil : d.line = [] := List.length_eq_zero_iff.1 (by omega)
      rw [← hnil]
      exact h
  | succ k ih =>
      rw [Input.killLine]
      by_cases hne : i.e = i.w
      · have hnil : d.line = [] := not_not.1 fun hl => h.edited_iff.2 hl hne
        rw [if_neg (by simp [hne]), ← hnil]
        exact h
      · obtain ⟨hline, hback⟩ := h.back hne
        have hplain := h.plain
        rw [hline, List.mem_append, List.mem_singleton, not_or] at hplain
        rw [if_pos ⟨hne, Ne.symm hplain.2⟩]
        have hlen : d.line.dropLast.length ≤ k := by
          rw [List.length_dropLast]
          omega
        exact ih (d := { d with line := d.line.dropLast }) hback hlen

/-- A character is put in. -/
lemma accept (h : i.Matches d) (hroom : d.size < INPUT_BUF.toNat) (c : UInt8) :
    Matches (i.accept c).1 (d.accept c) := by
  set i' : Input :=
    { i with buf := Function.update i.buf (i.e.toNat % INPUT_BUF.toNat) c, e := i.e + 1 } with hi'
  have hlt : Ring.count i.r i.e < INPUT_BUF.toNat := by rwa [h.count_e]
  have hsize : INPUT_BUF.toNat < 2 ^ 32 - 1 := by decide
  have hle : Ring.count i.r i.w ≤ Ring.count i.r i.e := by
    rw [h.count_e, h.count_w]
    exact Nat.le_add_right _ _
  have hcount : Ring.count i.r (i.e + 1) = d.size + 1 := by
    rw [Ring.count_put (by omega), h.count_e]
  have hw : i'.upTo i.w = d.committed.drop d.taken :=
    (Ring.content_update input_buf_dvd hle hlt).trans h.unread
  have he : i'.upTo (i.e + 1) = d.committed.drop d.taken ++ (d.line ++ [c]) := by
    rw [← List.append_assoc, ← h.unread, ← h.line]
    exact Ring.content_put input_buf_dvd (by omega) hlt
  have hfull : i.e + 1 = i.r + INPUT_BUF ↔ d.size + 1 = INPUT_BUF.toNat := by
    rw [← Ring.count_eq_iff, ← hcount]
  have hroom' : Ring.count i.r (i.e + 1) ≤ INPUT_BUF.toNat := by omega
  rw [Editor.accept, Input.accept, ← hi']
  by_cases hend : c = newline ∨ c = C 'D' ∨ d.size + 1 = INPUT_BUF.toNat
  · rw [if_pos hend, if_pos (by rwa [hfull])]
    refine ⟨hroom', ?_, ?_, (List.append_nil _).symm, List.not_mem_nil⟩
    · show d.taken ≤ (d.committed ++ _).length
      rw [List.length_append]
      exact h.taken.trans (Nat.le_add_right _ _)
    · exact he.trans (List.drop_append_of_le_length h.taken).symm
  · rw [if_neg hend, if_neg (by rwa [hfull])]
    refine ⟨hroom', h.taken, hw, he.trans (congrArg (· ++ (d.line ++ [c])) hw.symm), ?_⟩
    show newline ∉ d.line ++ [c]
    rw [List.mem_append, List.mem_singleton, not_or]
    exact ⟨h.plain, fun heq => hend (.inl heq.symm)⟩

lemma consoleintr (h : i.Matches d) (c : UInt8) : Matches (i.consoleintr c).1 (d.type c) := by
  rw [Input.consoleintr, Editor.type]
  split
  · exact h
  split
  · refine h.killLine ?_
    have hadd := Ring.count_add (r := i.r) (w := i.w) (e := i.e)
      (by rw [h.count_e, h.count_w]; exact Nat.le_add_right _ _)
    rw [h.count_e, h.count_w, Editor.size] at hadd
    exact (Nat.add_left_cancel hadd).ge
  split
  · by_cases hne : i.e = i.w
    · have hnil : d.line = [] := not_not.1 fun hl => h.edited_iff.2 hl hne
      rw [if_neg (by simp [hne]), hnil, List.dropLast_nil, ← hnil]
      exact h
    · rw [if_pos hne]
      exact (h.back hne).2
  have hroom : i.e - i.r < INPUT_BUF ↔ d.size < INPUT_BUF.toNat := by
    rw [UInt32.lt_iff_toNat_lt, ← h.count_e, Ring.count]
  by_cases hacc : c ≠ 0 ∧ d.size < INPUT_BUF.toNat
  · rw [if_pos hacc, if_pos (by rwa [hroom])]
    exact h.accept hacc.2 _
  · rw [if_neg hacc, if_neg (by rwa [hroom])]
    exact h

/-- The oldest character is taken out. -/
lemma take (h : i.Matches d) (hne : i.r ≠ i.w) :
    d.committed.drop d.taken = i.buf (i.r.toNat % INPUT_BUF.toNat) ::
      d.committed.drop (d.taken + 1) ∧
      Matches { i with r := i.r + 1 } { d with taken := d.taken + 1 } := by
  have hpos : Ring.count i.r i.w ≠ 0 := fun hz => hne (Ring.count_eq_zero.1 hz)
  have hlen := h.count_w
  have hne' : i.r ≠ i.e := fun heq => by
    have hsize := h.count_e
    rw [Ring.count_eq_zero.2 heq, Editor.size] at hsize
    omega
  have hw : i.upTo i.w = _ :: _ := Ring.content_take input_buf_dvd hne
  have he : i.upTo i.e = _ :: _ := Ring.content_take input_buf_dvd hne'
  have hcount := Ring.count_take hne'
  have hroom := h.room
  have htail : Ring.content i.buf INPUT_BUF.toNat (i.r + 1) i.w =
    d.committed.drop (d.taken + 1) := by
    rw [← List.tail_drop, ← h.unread, hw, List.tail_cons]
  refine ⟨by rw [← h.unread, hw, htail], ?_, ?_, htail, ?_, h.plain⟩
  · show Ring.count (i.r + 1) i.e ≤ _
    omega
  · show d.taken + 1 ≤ d.committed.length
    omega
  · have hline := h.line
    rw [hw, he, List.cons_append] at hline
    exact (List.cons.inj hline).2

end Matches

lemma killLine_buf (k : ℕ) : (i.killLine k).buf = i.buf := by
  induction k generalizing i with
  | zero => rfl
  | succ k ih =>
      rw [killLine]
      split
      · exact ih
      · rfl

/-- Nothing that is in the buffer is overwritten. -/
lemma consoleintr_buf {k : ℕ} (hk : k < Ring.count i.r i.e) :
    (i.consoleintr c).1.buf ((i.r.toNat + k) % INPUT_BUF.toNat) =
      i.buf ((i.r.toNat + k) % INPUT_BUF.toNat) := by
  rw [consoleintr]
  split
  · rfl
  split
  · exact congrFun (killLine_buf _) _
  split
  · split <;> rfl
  split
  · rename_i hacc
    have hne := Ring.place_ne input_buf_dvd hk (UInt32.lt_iff_toNat_lt.1 hacc.2)
    generalize (if c = '\r'.toUInt8 then newline else c) = b
    rw [accept]
    split <;> exact Function.update_of_ne hne _ _
  · rfl

end Input

/-! ## Runs -/

variable {es : List (ConsoleEvent P)} {e : ConsoleEvent P} {s s' : Console P} {p q : P}

/-- What an event is to the editor. -/
def Editor.see (d : Editor) : ConsoleEvent P → Editor
  | .typed c => d.type c
  | .copied _ _ | .passed _ => { d with taken := d.taken + 1 }
  | _ => d

/-- The editor after what has happened. -/
def editor (es : List (ConsoleEvent P)) : Editor := es.foldl Editor.see ⟨[], [], 0⟩

/-- The character that is taken out of the buffer. -/
def ConsoleEvent.taken : ConsoleEvent P → List UInt8
  | .copied _ c => [c]
  | .passed _ => [C 'D']
  | _ => []

/-- The characters that have been taken out. -/
def takenOut (es : List (ConsoleEvent P)) : List UInt8 := es.flatMap ConsoleEvent.taken

/-- The character that is copied to a reader. -/
def ConsoleEvent.copy : ConsoleEvent P → List UInt8
  | .copied _ c => [c]
  | _ => []

/-- The characters that have been copied to readers. -/
def copiedOut (es : List (ConsoleEvent P)) : List UInt8 := es.flatMap ConsoleEvent.copy

/-- Whose event it is. -/
def ConsoleEvent.proc : ConsoleEvent P → Option P
  | .typed _ => none
  | .began p | .copied p _ | .passed p | .found p | .returned p _ => some p

/-- A call of `consoleread`: how many characters it has copied, whether it has met the end of a line
or a `^D`, how many it has copied since then, how many `^D` it has taken, and the result once there
is one. -/
structure Reading where
  count : ℕ
  stop : Bool
  beyond : ℕ
  passes : ℕ
  result : Option ℤ

/-- What an event of the process is to its call. -/
def Reading.see (c : Reading) : ConsoleEvent P → Reading
  | .typed _ => c
  | .began _ => ⟨0, false, 0, 0, none⟩
  | .copied _ b =>
      { c with
        count := c.count + 1
        beyond := if c.stop then c.beyond + 1 else c.beyond
        stop := c.stop || b = newline }
  | .passed _ => { c with stop := true, passes := c.passes + 1 }
  | .found _ => { c with stop := true }
  | .returned _ v => { c with result := some v }

/-- The call that process `p` is in, or its last one. -/
def reading (p : P) (es : List (ConsoleEvent P)) : Reading :=
  es.foldl (fun c e => if e.proc = some p then c.see e else c) ⟨0, false, 0, 0, some 0⟩

omit [DecidableEq P] in
lemma editor_snoc : editor (es ++ [e]) = (editor es).see e := by simp [editor]

omit [DecidableEq P] in
lemma takenOut_snoc : takenOut (es ++ [e]) = takenOut es ++ e.taken := by simp [takenOut]

omit [DecidableEq P] in
lemma copiedOut_snoc : copiedOut (es ++ [e]) = copiedOut es ++ e.copy := by simp [copiedOut]

lemma reading_snoc : reading p (es ++ [e]) = if e.proc = some p then (reading p es).see e
    else reading p es := by
  simp [reading]

/-- Typing changes no character that has been committed. -/
lemma Editor.type_committed (d : Editor) (c : UInt8) :
    d.committed <+: (d.type c).committed ∧ (d.type c).taken = d.taken := by
  rw [Editor.type]
  split
  · exact ⟨List.prefix_refl _, rfl⟩
  split
  · exact ⟨List.prefix_refl _, rfl⟩
  split
  · exact ⟨List.prefix_refl _, rfl⟩
  split
  · generalize (if c = '\r'.toUInt8 then newline else c) = b
    rw [Editor.accept]
    split
    · exact ⟨List.prefix_append _ _, rfl⟩
    · exact ⟨List.prefix_refl _, rfl⟩
  · exact ⟨List.prefix_refl _, rfl⟩

/-- A call is where its variables say. -/
def Reading.Fits (c : Reading) : Option Reader → Prop
  | none => c.beyond = 0 ∧ (c.passes = 0 ∨ c.passes = 1 ∧ c.result = some 0)
  | some rd => c.result = none ∧ c.beyond = 0 ∧ c.stop = rd.left ∧ rd.target = rd.n + c.count ∧
      (c.passes = 0 ∨ c.passes = 1 ∧ c.count = 0 ∧ rd.left = true)

/-- What holds after every step. -/
structure Faithful (es : List (ConsoleEvent P)) (s : Console P) : Prop where
  buffer : s.input.Matches (editor es)
  out : takenOut es = (editor es).committed.take (editor es).taken
  copies : copiedOut es = (takenOut es).filter (· ≠ C 'D')
  call : ∀ p, (reading p es).Fits (s.proc p).call
  lock : ∀ p rd, (s.proc p).call = some rd → rd.left = true → s.lock = some p

namespace Faithful

/-- A step of process `p`, which has the lock or takes it, in its call. -/
lemma own {call : Option Reader} (h : Faithful es s) (he : e.proc = some p)
    (hfree : ∀ q ≠ p, s.lock ≠ some q) (hcall : ∀ q, (s'.proc q).call = if q = p then call
      else (s.proc q).call) (hbuffer : s'.input.Matches ((editor es).see e))
    (hout : takenOut es ++ e.taken = ((editor es).see e).committed.take ((editor es).see e).taken)
    (hcopy : e.copy = e.taken.filter (· ≠ C 'D')) (hfits : ((reading p es).see e).Fits call)
    (hlock : ∀ rd, call = some rd → rd.left = true → s'.lock = some p) :
    Faithful (es ++ [e]) s' := by
  refine ⟨by rwa [editor_snoc], by rwa [takenOut_snoc, editor_snoc], ?_, fun q => ?_,
    fun q rd hq hleft => ?_⟩
  · rw [copiedOut_snoc, takenOut_snoc, List.filter_append, h.copies, hcopy]
  · rw [reading_snoc, hcall]
    by_cases hqp : q = p
    · rw [hqp, if_pos rfl, if_pos he]
      exact hfits
    · rw [if_neg hqp, if_neg (by rw [he]; simpa using Ne.symm hqp)]
      exact h.call q
  · rw [hcall] at hq
    by_cases hqp : q = p
    · rw [if_pos hqp] at hq
      rw [hqp]
      exact hlock rd hq hleft
    · rw [if_neg hqp] at hq
      exact absurd (h.lock q rd hq hleft) (hfree q hqp)

/-- A step that nothing is seen of. -/
lemma silent (h : Faithful es s) (hinput : s'.input = s.input)
    (hcall : ∀ q, (s'.proc q).call = (s.proc q).call) (hlock : ∀ q rd, (s.proc q).call = some rd →
      rd.left = true → s'.lock = s.lock) : Faithful es s' := by
  refine ⟨by rw [hinput]; exact h.buffer, h.out, h.copies, fun q => by rw [hcall]; exact h.call q,
    fun q rd hq hleft => ?_⟩
  rw [hcall] at hq
  rw [hlock q rd hq hleft]
  exact h.lock q rd hq hleft

lemma typed (h : Faithful es s) (hlock : s.lock = none)
    (hinput : s'.input = (s.input.consoleintr c).1)
    (hcall : ∀ q, (s'.proc q).call = (s.proc q).call) : Faithful (es ++ [.typed c]) s' := by
  obtain ⟨hpre, htaken⟩ := (editor es).type_committed c
  refine ⟨?_, ?_, ?_, fun q => ?_, fun q rd hq hleft => ?_⟩
  · rw [editor_snoc, hinput]
    exact h.buffer.consoleintr c
  · rw [takenOut_snoc, editor_snoc, h.out]
    show _ ++ [] = List.take ((editor es).type c).taken ((editor es).type c).committed
    rw [List.append_nil]
    obtain ⟨l, hl⟩ := hpre
    rw [htaken, ← hl, List.take_append_of_le_length h.buffer.taken]
  · rw [copiedOut_snoc, takenOut_snoc, List.filter_append, h.copies]
    rfl
  · rw [reading_snoc, hcall, if_neg (by simp [ConsoleEvent.proc])]
    exact h.call q
  · rw [hcall] at hq
    rw [h.lock q rd hq hleft] at hlock
    exact absurd hlock (by simp)

/-- The oldest character is taken out. -/
lemma next (h : Faithful es s) (hne : s.input.r ≠ s.input.w)
    (hc : s.input.buf (s.input.r.toNat % INPUT_BUF.toNat) = c) :
    Input.Matches { s.input with r := s.input.r + 1 }
    { editor es with taken := (editor es).taken + 1 } ∧
      takenOut es ++ [c] = (editor es).committed.take ((editor es).taken + 1) := by
  obtain ⟨hdrop, hmatches⟩ := h.buffer.take hne
  refine ⟨hmatches, ?_⟩
  rw [List.take_add_one, ← List.head?_drop, hdrop, h.out, hc]
  rfl

lemma consoleread {rd : Reader} (h : Faithful es s) (hlock : s.lock = some p)
    (hcall : (s.proc p).call = some rd) :
    Faithful (es ++ (s.consoleread p rd).2.toList) (s.consoleread p rd).1 := by
  have hfree : ∀ q ≠ p, s.lock ≠ some q := by
    intro q hq hq'
    exact hq (Option.some.inj (hq'.symm.trans hlock))
  have hout : takenOut es ++ [] = _ := (List.append_nil _).trans h.out
  obtain ⟨hresult, hbeyond, hstop, hcount, hpasses⟩ : (reading p es).Fits (some rd) :=
    hcall ▸ h.call p
  rw [Console.consoleread]
  dsimp only
  split
  · rename_i hloop
    have hzero : (reading p es).passes = 0 := hpasses.resolve_right fun hp => by
      rw [hloop.1] at hp
      exact absurd hp.2.2 (by simp)
    split
    · split
      · exact h.own rfl hfree (Console.call_setProc _) h.buffer hout rfl ⟨hbeyond, .inl hzero⟩
          (by simp)
      · rw [Option.toList_none, List.append_nil]
        refine h.silent rfl (fun q => ?_) fun q rd' hq hleft => ?_
        · rw [Console.call_setProc]
          split
          · rename_i hq
            rw [hq]
          · rfl
        · -- only the reader that has the lock can have left its loop
          have hqp := h.lock q rd' hq hleft
          obtain rfl : q = p := not_not.1 fun hne => hfree q hne hqp
          rw [hcall] at hq
          rw [← Option.some.inj hq, hloop.1] at hleft
          exact absurd hleft (by simp)
    · rename_i hne
      by_cases hc : s.input.buf (s.input.r.toNat % INPUT_BUF.toNat) = C 'D'
      · obtain ⟨hnext, htake⟩ := h.next hne hc
        rw [if_pos hc]
        split
        · exact h.own rfl hfree (Console.call_setProc _) h.buffer hout rfl
            ⟨hresult, hbeyond, rfl, hcount, .inl hzero⟩ fun _ _ _ => hlock
        · rename_i hfirst
          have hnone : (reading p es).count = 0 := by omega
          exact h.own rfl hfree (Console.call_setProc _) hnext htake rfl
            ⟨hresult, hbeyond, rfl, hcount, .inr ⟨by rw [Reading.see, hzero], hnone, rfl⟩⟩
            fun _ _ _ => hlock
      · obtain ⟨hnext, htake⟩ := h.next hne rfl
        rw [if_neg hc]
        refine h.own rfl hfree (Console.call_setProc _) hnext htake ?_ ⟨hresult, ?_, ?_, ?_,
          .inl hzero⟩ fun _ _ _ => hlock
        · rw [ConsoleEvent.taken, List.filter_cons_of_pos (by simpa using hc)]
          rfl
        · rw [Reading.see, hstop, hloop.1]
          exact hbeyond
        · rw [Reading.see, hstop, hloop.1]
          rfl
        · show rd.target = rd.n - 1 + ((reading p es).count + 1 : ℕ)
          omega
  · refine h.own rfl hfree (Console.call_setProc _) h.buffer hout rfl ⟨hbeyond, ?_⟩ (by simp)
    refine hpasses.imp_right fun ⟨hone, hnone, _⟩ => ⟨hone, ?_⟩
    show some (rd.target - rd.n) = some 0
    rw [show rd.target - rd.n = 0 by omega]

lemma step {l : ConsoleLabel P} {o : Option (ConsoleEvent P)} (h : Faithful es s)
    (hs : s.step l = some (s', o)) :
    Faithful (es ++ o.toList) s' := by
  cases l with
  | type c =>
      rw [Console.step] at hs
      split at hs
      · rename_i hlock
        obtain ⟨rfl, rfl⟩ := Prod.mk.inj (Option.some.inj hs)
        refine h.typed hlock ?_ fun q => ?_
        · split <;> rfl
        · split <;> rfl
      · exact absurd hs (by simp)
  | read p n =>
      rw [Console.step] at hs
      split at hs
      · rename_i hfree
        obtain ⟨rfl, rfl⟩ := Prod.mk.inj (Option.some.inj hs)
        exact h.own rfl (by simp [hfree.1]) (Console.call_setProc _) h.buffer
          ((List.append_nil _).trans h.out) rfl ⟨rfl, rfl, rfl, by simp [Reading.see], .inl rfl⟩
          (by simp)
      · exact absurd hs (by simp)
  | resume p =>
      rw [Console.step] at hs
      split at hs
      · rename_i hfree
        obtain ⟨rfl, rfl⟩ := Prod.mk.inj (Option.some.inj hs)
        rw [Option.toList_none, List.append_nil]
        refine h.silent rfl (fun _ => rfl) fun q rd hq hleft => ?_
        rw [h.lock q rd hq hleft] at hfree
        exact absurd hfree.1 (by simp)
      · exact absurd hs (by simp)
  | go p =>
      rw [Console.step] at hs
      cases hcall : (s.proc p).call with
      | none =>
          rw [hcall] at hs
          exact absurd hs (by simp)
      | some rd =>
          rw [hcall] at hs
          simp only at hs
          split at hs
          · rename_i hlock
            have hread := h.consoleread hlock hcall
            rwa [Option.some.inj hs] at hread
          · exact absurd hs (by simp)
  | kill p wake =>
      obtain ⟨rfl, rfl⟩ := Prod.mk.inj (Option.some.inj hs)
      rw [Option.toList_none, List.append_nil]
      refine h.silent rfl (fun q => ?_) fun _ _ _ _ => rfl
      rw [Console.call_setProc]
      split
      · rename_i hq
        rw [hq]
      · rfl

/-- What has been committed has been taken out or is in the buffer. -/
lemma committed (h : Faithful es s) :
    (editor es).committed = takenOut es ++ s.input.upTo s.input.w := by
  rw [h.out, h.buffer.unread, List.take_append_drop]

end Faithful

lemma faithful_of_run (h : Run Console.step (fun _ _ => True) Console.start [] es s) :
    Faithful es s := by
  refine h.invariant ⟨⟨?_, le_rfl, Ring.content_eq_nil.2 rfl, (List.append_nil _).symm,
    List.not_mem_nil⟩, rfl, rfl, fun p => ⟨rfl, .inl rfl⟩, fun p rd hrd => ?_⟩
    fun hf _ hs => hf.step hs
  · exact (Ring.count_eq_zero.2 rfl).le.trans (Nat.zero_le _)
  · exact absurd hrd (by simp [Console.start])

lemma Console.consoleread_buf (rd : Reader) : (s.consoleread p rd).1.input.buf = s.input.buf := by
  rw [consoleread]
  dsimp only
  split
  · split
    · split <;> rfl
    · by_cases hc : s.input.buf (s.input.r.toNat % INPUT_BUF.toNat) = C 'D'
      · rw [if_pos hc]
        split <;> rfl
      · rw [if_neg hc]
        rfl
  · rfl

/-- No step overwrites anything that is in the buffer. -/
lemma Console.step_buf {l : ConsoleLabel P} {o : Option (ConsoleEvent P)} {k : ℕ}
    (hs : s.step l = some (s', o)) (hk : k < (s.input.e - s.input.r).toNat) :
    s'.input.buf ((s.input.r.toNat + k) % INPUT_BUF.toNat) =
      s.input.buf ((s.input.r.toNat + k) % INPUT_BUF.toNat) := by
  cases l with
  | type c =>
      rw [step] at hs
      split at hs
      · obtain ⟨rfl, -⟩ := Prod.mk.inj (Option.some.inj hs)
        have hbuf := Input.consoleintr_buf (i := s.input) (c := c) hk
        split
        · exact hbuf
        · exact hbuf
      · exact absurd hs (by simp)
  | read p n =>
      rw [step] at hs
      split at hs
      · obtain ⟨rfl, -⟩ := Prod.mk.inj (Option.some.inj hs)
        rfl
      · exact absurd hs (by simp)
  | resume p =>
      rw [step] at hs
      split at hs
      · obtain ⟨rfl, -⟩ := Prod.mk.inj (Option.some.inj hs)
        rfl
      · exact absurd hs (by simp)
  | go p =>
      rw [step] at hs
      split at hs
      · rename_i rd _
        split at hs
        · have hbuf := consoleread_buf (s := s) (p := p) rd
          rw [Option.some.inj hs] at hbuf
          exact congrFun hbuf _
        · exact absurd hs (by simp)
      · exact absurd hs (by simp)
  | kill p wake =>
      obtain ⟨rfl, -⟩ := Prod.mk.inj (Option.some.inj hs)
      rfl

/-- Console input is a line discipline, whatever is typed and whoever reads: the indices are in
order, nothing that is in the buffer is overwritten, what has been committed is what has been taken
out and then what is in the buffer up to index `w`, and of that readers get all but each `^D`.  A
call copies nothing after the end of a line or a `^D`, and one that takes a `^D` returns 0. -/
theorem console_faithful (h : Run Console.step (fun _ _ => True) Console.start [] es s) :
    (s.input.w - s.input.r ≤ s.input.e - s.input.r ∧ s.input.e - s.input.r ≤ INPUT_BUF) ∧
      (∀ l s' o, s.step l = some (s', o) → ∀ k < (s.input.e - s.input.r).toNat,
        s'.input.buf ((s.input.r.toNat + k) % INPUT_BUF.toNat) =
          s.input.buf ((s.input.r.toNat + k) % INPUT_BUF.toNat)) ∧
      (editor es).committed = takenOut es ++ s.input.upTo s.input.w ∧
      copiedOut es <+: (editor es).committed.filter (· ≠ C 'D') ∧
      ∀ p, (reading p es).beyond = 0 ∧ ((reading p es).passes = 0 ∨ (reading p es).passes = 1 ∧
        ((reading p es).result = some 0 ∨ (reading p es).result = none ∧
          ∃ s', s.step (.go p) = some (s', some (.returned p 0)))) := by
  have hf := faithful_of_run h
  refine ⟨⟨?_, ?_⟩, fun l s' o hs k hk => Console.step_buf hs hk, hf.committed, ?_, fun p => ?_⟩
  · rw [UInt32.le_iff_toNat_le, ← Ring.count, ← Ring.count, hf.buffer.count_e, hf.buffer.count_w]
    exact Nat.le_add_right _ _
  · exact UInt32.le_iff_toNat_le.2 hf.buffer.room
  · rw [hf.committed, List.filter_append]
    exact ⟨_, congrArg (· ++ _) hf.copies⟩
  · have hcall := hf.call p
    cases hrd : (s.proc p).call with
    | none =>
        rw [hrd] at hcall
        exact ⟨hcall.1, hcall.2.imp_right (And.imp_right .inl)⟩
    | some rd =>
        rw [hrd] at hcall
        obtain ⟨hresult, hbeyond, hstop, hcount, hpasses⟩ := hcall
        refine ⟨hbeyond, hpasses.imp_right fun hlast => ⟨hlast.1, .inr ⟨hresult, ?_⟩⟩⟩
        obtain ⟨-, hnone, hleft⟩ := hlast
        rw [Console.step, hrd]
        simp only
        rw [if_pos (hf.lock p rd hrd hleft), Console.consoleread, if_neg (by simp [hleft]),
          show rd.target - rd.n = 0 by omega]
        exact ⟨_, rfl⟩

/-- The letter `a` is typed and taken back, and then `b` and `^D`; the first reader gets `b` and the
second one 0. -/
theorem console_faithful_two : ∃ es s, Run Console.step (fun _ _ => True)
    (Console.start (P := Bool)) [] es s ∧
    copiedOut es = [98] ∧ (editor es).committed = [98, C 'D'] ∧ (reading true es).passes = 1 ∧
    (reading true es).result = some 0 ∧ (reading false es).beyond = 0 := by
  obtain ⟨es, s, hrun, hcopied, hcommitted, hpasses, hresult⟩ : ∃ es s,
      Run Console.step (fun _ _ => True) (Console.start (P := Bool)) [] es s ∧ copiedOut es = [98] ∧
        (editor es).committed = [98, C 'D'] ∧ (reading true es).passes = 1 ∧
        (reading true es).result = some 0 :=
    Run.exists_of_exec _ [.type 97, .type (C 'H'), .type 98, .type (C 'D'), .read false 8,
      .go false, .go false,
      .go false, .read true 8, .go true, .go true] (by decide +kernel)
  exact ⟨es, s, hrun, hcopied, hcommitted, hpasses, hresult,
    ((console_faithful hrun).2.2.2.2 false).1⟩

end

end Xv6
