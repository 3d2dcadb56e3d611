import Mathlib.Data.List.DropRight
import Mathlib.Tactic.Ring
import Xv6.Lib.Bytes

/-!
# Printing the lines that match (`grep.c`)

`grep` reads its input in pieces into a buffer, prints the lines in it that match, and moves what is
left of the last line to the start of the buffer.  It looks for newlines with `strchr`, which stops
at a NUL and not at the end of what has been read.  Nothing stores a NUL there: it is right only if
there is one already.  Otherwise bytes of earlier lines count as input, and `m` may become negative.
If there is no newline in the buffer, `grep` forgets what it has read of the line.

The memory is a list of bytes that begins with the buffer.  `read` returns as many bytes as it
likes, up to what it is asked for.
-/

namespace Xv6.Grep

open Lib

/-- The size of the buffer. -/
def BUFSIZE : ℕ := 1024

/-- The newline, and the characters that have a meaning in a pattern. -/
def newline : UInt8 := 10

@[inherit_doc newline] def caret : UInt8 := 94

@[inherit_doc newline] def dollar : UInt8 := 36

@[inherit_doc newline] def dot : UInt8 := 46

@[inherit_doc newline] def star : UInt8 := 42

/-! ## Patterns -/

/-- `matchstar`, where `here` matches what comes after the star. -/
def matchstar (c : UInt8) (here : List UInt8 → Bool) : List UInt8 → Bool
  | [] => here []
  | b :: text => here (b :: text) || ((b == c || c == dot) && matchstar c here text)

/-- `matchhere`. -/
def matchhere : List UInt8 → List UInt8 → Bool
  | [], _ => true
  | [c], text =>
      if c = dollar then text.isEmpty
      else
        match text with
        | [] => false
        | b :: _ => c == dot || c == b
  | c :: d :: re, text =>
      if d = star then matchstar c (matchhere re) text
      else
        match text with
        | [] => false
        | b :: text => (c == dot || c == b) && matchhere (d :: re) text

/-- The loop of `match`. -/
def matchany (re : List UInt8) : List UInt8 → Bool
  | [] => matchhere re []
  | b :: text => matchhere re (b :: text) || matchany re text

/-- `match`. -/
def matchText (re text : List UInt8) : Bool :=
  if re.head? = some caret then matchhere re.tail text else matchany re text

/-! ## Lines -/

/-- Why a run ends early: `strchr` leaves the memory, `read` is given a part of the memory outside
of the buffer, or the model has run out of fuel. -/
inductive Fault
  | strchr
  | read (m : ℤ)
  | fuel
deriving DecidableEq, Repr

/-- `strchr`: whether it has found the byte, and where it stands then. -/
def strchr (c : UInt8) : List UInt8 → Option (Bool × ℕ)
  | [] => none
  | b :: s =>
      if b = 0 then some (false, 0)
      else if b = c then some (true, 0)
      else (strchr c s).map fun r => (r.1, r.2 + 1)

/-- What the loop over the lines changes: the memory, `p`, the bytes written to the output, and how
many bytes of the buffer have been looked at. -/
structure Scan where
  mem : List UInt8
  p : ℕ
  out : List UInt8
  far : ℕ
deriving DecidableEq, Repr

/-- The loop over the lines. -/
def lines (pattern : List UInt8) : ℕ → Scan → Except Fault Scan
  | 0, _ => .error .fuel
  | fuel + 1, s =>
      match strchr newline (s.mem.drop s.p) with
      | none => .error .strchr
      | some (false, k) => .ok { s with far := max s.far (s.p + k) }
      | some (true, k) =>
          let q := s.p + k
          let mem := s.mem.set q 0
          if matchText pattern ((mem.drop s.p).takeWhile (· ≠ 0)) = true then
            let mem := mem.set q newline
            lines pattern fuel ⟨mem, q + 1, s.out ++ (mem.drop s.p).take (q + 1 - s.p),
              max s.far (q + 1)⟩
          else lines pattern fuel ⟨mem, q + 1, s.out, max s.far (q + 1)⟩

/-! ## Reads -/

/-- What happened in one turn of the main loop: `m` at the read and after it, and how many bytes of
the buffer have been looked at. -/
structure Turn where
  m : ℤ
  filled : ℤ
  far : ℕ
deriving DecidableEq, Repr

/-- The memory, `m`, the output, and the turns so far. -/
structure State where
  mem : List UInt8
  m : ℤ
  out : List UInt8
  turns : List Turn
deriving DecidableEq, Repr

/-- The state when `grep` is called. -/
def start (mem : List UInt8) : State := ⟨mem, 0, [], []⟩

/-- The memory when `read` has stored `bytes`. -/
def State.filled (s : State) (bytes : List UInt8) : List UInt8 := overwrite s.mem s.m.toNat bytes

/-- The end of a turn of the main loop in which `read` has returned `n` bytes: what is left of the
last line is moved to the start of the buffer. -/
def State.next (s : State) (n : ℕ) (r : Scan) : State :=
  let turns := s.turns ++ [⟨s.m, s.m + n, r.far⟩]
  let m : ℤ := if r.p = 0 then 0 else s.m + n
  if 0 < m then
    -- `memmove` does nothing if its last argument is negative
    ⟨overwrite r.mem 0 ((r.mem.drop r.p).take (m - r.p).toNat), m - r.p, r.out, turns⟩
  else ⟨r.mem, m, r.out, turns⟩

/-- One turn of the main loop, in which `read` returns `bytes`. -/
def turn (pattern bytes : List UInt8) (s : State) : Except Fault State :=
  (lines pattern (s.mem.length + 1) ⟨s.filled bytes, 0, s.out, 0⟩).map (s.next bytes.length)

/-- How many bytes `read` returns behind the first `m` bytes of the buffer, if it would like to
return `size` bytes. -/
def reads (m size : ℕ) (input : List UInt8) : ℕ := min (max 1 size) (min (BUFSIZE - m) input.length)

/-- `grep`, where `size i` is what the `i`-th read would like to return. -/
def grep (pattern : List UInt8) (size : ℕ → ℕ) : ℕ → ℕ → List UInt8 → State → Except Fault State
  | 0, _, _, _ => .error .fuel
  | fuel + 1, i, input, s =>
      if s.m < 0 ∨ (BUFSIZE : ℤ) < s.m then .error (.read s.m)
      else
        let n := reads s.m.toNat (size i) input
        if n = 0 then .ok s
        else do
          let s ← turn pattern (input.take n) s
          grep pattern size fuel (i + 1) (input.drop n) s

/-! ## What is to be printed -/

/-- The lines of a text that end with a newline, without it. -/
def fullLines (text : List UInt8) : List (List UInt8) := (text.splitOn newline).dropLast

/-- What follows the last newline of a text. -/
def lastPart (text : List UInt8) : List UInt8 := (text.splitOn newline).getLast?.getD []

/-- Those of the lines that match, with their newlines. -/
def output (pattern : List UInt8) (ls : List (List UInt8)) : List UInt8 :=
  (ls.filter (matchText pattern)).flatMap (· ++ [newline])

/-- The lines of the input that match, with their newlines. -/
def printed (pattern input : List UInt8) : List UInt8 := output pattern (fullLines input)

/-! ## What the buffer keeps -/

/-- The lines of a text when `grep` has looked at them: the newlines of those that do not match have
become 0. -/
def marked (pattern text : List UInt8) : List UInt8 :=
  (fullLines text).flatMap fun l => l ++ [if matchText pattern l = true then newline else 0]

/-- What the next turn has in front of what it reads: the part of a line behind the last newline, or
nothing if `read` has returned `bytes` without a newline. -/
def carried (carry bytes : List UInt8) : List UInt8 :=
  if newline ∈ bytes then lastPart (carry ++ bytes) else []

/-- The memory after a turn that has read `bytes` behind `carry`. -/
def leftover (pattern carry bytes mem : List UInt8) : List UInt8 :=
  let text := carry ++ bytes
  if newline ∈ bytes then
    lastPart text ++ (marked pattern text ++ (lastPart text ++ mem.drop text.length)).drop
      (lastPart text).length
  else text ++ mem.drop text.length

/-- At every read, the byte of the memory behind what `read` is going to store is 0. -/
def Settled (pattern : List UInt8) (size : ℕ → ℕ) : ℕ → ℕ → List UInt8 → List UInt8 →
    List UInt8 → Prop
  | 0, _, _, _, _ => True
  | fuel + 1, i, input, carry, mem =>
      let n := reads carry.length (size i) input
      n = 0 ∨ mem[carry.length + n]? = some 0 ∧ Settled pattern size fuel (i + 1) (input.drop n)
        (carried carry (input.take n)) (leftover pattern carry (input.take n) mem)

instance decidableSettled (pattern : List UInt8) (size : ℕ → ℕ) :
    ∀ fuel i input carry mem, Decidable (Settled pattern size fuel i input carry mem)
  | 0, _, _, _, _ => .isTrue trivial
  | fuel + 1, i, input, carry, mem => by
      have := decidableSettled pattern size fuel
      unfold Settled
      infer_instance

/-- The lines that `grep` gets to see: those of the input, without the parts that it has forgotten
because `read` has returned no newline. -/
def seen (size : ℕ → ℕ) : ℕ → ℕ → List UInt8 → List UInt8 → List (List UInt8)
  | 0, _, _, _ => []
  | fuel + 1, i, input, carry =>
      let n := reads carry.length (size i) input
      if n = 0 then []
      else fullLines (carry ++ input.take n) ++
        seen size fuel (i + 1) (input.drop n) (carried carry (input.take n))

variable {pattern input text bytes carry l : List UInt8} {s s' : State} {fuel i : ℕ}
    {size : ℕ → ℕ} {c : UInt8}

/-! ## Texts and their lines -/

/-- A text has no newline, or a first line. -/
@[elab_as_elim]
lemma text_induction {P : List UInt8 → Prop} (last : ∀ text, newline ∉ text → P text)
    (line : ∀ l text, newline ∉ l → P text → P (l ++ newline :: text)) (text : List UInt8) :
    P text := by
  induction hn : text.length using Nat.strong_induction_on generalizing text with
  | _ n ih =>
      by_cases hin : newline ∈ text
      · obtain ⟨l, text', rfl, hl⟩ := List.eq_append_cons_of_mem hin
        rw [List.length_append, List.length_cons] at hn
        exact line l text' hl (ih _ (by omega) text' rfl)
      · exact last text hin

lemma splitOn_of_not_mem (h : newline ∉ text) : text.splitOn newline = [text] := by
  have hno : ∀ b ∈ text, (b == newline) = false := fun b hb => by
    simpa using fun heq : b = newline => h (heq ▸ hb)
  rw [List.splitOn, List.splitOnP_eq_singleton hno]

lemma splitOn_append_cons (h : newline ∉ l) :
    (l ++ newline :: text).splitOn newline = l :: text.splitOn newline := by
  have hno : ∀ b ∈ l, (b == newline) = false := fun b hb => by
    simpa using fun heq : b = newline => h (heq ▸ hb)
  rw [List.splitOn, List.splitOnP_append_cons_of_forall_mem hno newline (by simp), ← List.splitOn]

lemma fullLines_of_not_mem (h : newline ∉ text) : fullLines text = [] := by
  rw [fullLines, splitOn_of_not_mem h]
  rfl

lemma fullLines_append_cons (h : newline ∉ l) : fullLines (l ++ newline :: text) =
    l :: fullLines text := by
  rw [fullLines, splitOn_append_cons h, List.dropLast_cons_of_ne_nil (List.splitOn_ne_nil _ _),
    fullLines]

lemma lastPart_of_not_mem (h : newline ∉ text) : lastPart text = text := by
  rw [lastPart, splitOn_of_not_mem h]
  rfl

lemma lastPart_append_cons (h : newline ∉ l) : lastPart (l ++ newline :: text) = lastPart text := by
  obtain ⟨a, t, ht⟩ := List.exists_cons_of_ne_nil (List.splitOn_ne_nil newline text)
  rw [lastPart, splitOn_append_cons h, lastPart, ht, List.getLast?_cons_cons]

lemma output_append (ls ls' : List (List UInt8)) :
    output pattern (ls ++ ls') = output pattern ls ++ output pattern ls' := by
  rw [output, List.filter_append, List.flatMap_append, output, output]

lemma printed_append_cons (h : newline ∉ l) : printed pattern (l ++ newline :: text) =
    (if matchText pattern l = true then l ++ [newline] else []) ++ printed pattern text := by
  rw [printed, fullLines_append_cons h, output, List.filter_cons, printed, output]
  split <;> rfl

lemma marked_append_cons (h : newline ∉ l) : marked pattern (l ++ newline :: text) =
    l ++ (if matchText pattern l = true then newline else 0) :: marked pattern text := by
  rw [marked, fullLines_append_cons h, List.flatMap_cons, List.append_assoc,
    List.singleton_append, marked]

/-- The parts of a marked text are as long as those of the text. -/
lemma length_marked (pattern text : List UInt8) :
    (marked pattern text).length + (lastPart text).length = text.length := by
  induction text using text_induction with
  | last text h =>
      rw [marked, fullLines_of_not_mem h, lastPart_of_not_mem h, List.flatMap_nil,
        List.length_nil, Nat.zero_add]
  | line l text h ih =>
      rw [marked_append_cons h, lastPart_append_cons h, List.length_append, List.length_append,
        List.length_cons,
        List.length_cons]
      omega

lemma not_mem_lastPart (text : List UInt8) : newline ∉ lastPart text := by
  induction text using text_induction with
  | last text h => rwa [lastPart_of_not_mem h]
  | line l text h ih => rwa [lastPart_append_cons h]

lemma lastPart_suffix (text : List UInt8) : lastPart text <:+ text := by
  induction text using text_induction with
  | last text h => exact ⟨[], by rw [lastPart_of_not_mem h, List.nil_append]⟩
  | line l text h ih =>
      rw [lastPart_append_cons h]
      exact ih.trans ((List.suffix_cons _ _).trans (List.suffix_append _ _))

lemma length_lastPart_lt (h : newline ∈ text) : (lastPart text).length < text.length := by
  obtain ⟨l, text', rfl, hl⟩ := List.eq_append_cons_of_mem h
  have := (lastPart_suffix text').length_le
  rw [lastPart_append_cons hl, List.length_append, List.length_cons]
  omega

/-! ## One turn -/

/-- `strchr` passes the bytes that it does not look for. -/
lemma strchr_append (h : ∀ b ∈ l, b ≠ 0 ∧ b ≠ c) :
    strchr c (l ++ text) = (strchr c text).map fun r => (r.1, l.length + r.2) := by
  induction l with
  | nil => simp
  | cons b l ih =>
      obtain ⟨hb, hc⟩ := h b List.mem_cons_self
      rw [List.cons_append, strchr, if_neg hb, if_neg hc, ih fun a ha =>
        h a (List.mem_cons_of_mem b ha),
        Option.map_map]
      congr 1
      funext r
      simp only [Function.comp_apply, List.length_cons, Prod.mk.injEq, true_and]
      omega

/-- Storing a byte behind a line. -/
lemma set_line {before after : List UInt8} {a b : UInt8} :
    (before ++ (l ++ a :: after)).set (before.length + l.length) b =
      before ++ (l ++ b :: after) := by
  rw [List.set_append_right _ _ (by omega), Nat.add_sub_cancel_left, List.set_append_right _ _
    le_rfl, Nat.sub_self,
    List.set_cons_zero]

/-- The loop over the lines prints those of a text that is followed by a NUL. -/
lemma lines_eq (pattern : List UInt8) (hnul : 0 ∉ text) (hfuel : text.length < fuel)
    (before after out : List UInt8) (far : ℕ) :
    lines pattern fuel ⟨before ++ (text ++ 0 :: after), before.length, out, far⟩ =
      .ok ⟨before ++ (marked pattern text ++ (lastPart text ++ 0 :: after)),
        before.length + (marked pattern text).length, out ++ printed pattern text,
        max far (before.length + text.length)⟩ := by
  induction text using text_induction generalizing fuel before out far with
  | last text h =>
      have hplain : ∀ b ∈ text, b ≠ 0 ∧ b ≠ newline := fun b hb => ⟨fun h0 => hnul (h0 ▸ hb),
        fun hc => h (hc ▸ hb)⟩
      obtain ⟨fuel, rfl⟩ : ∃ j, fuel = j + 1 := ⟨fuel - 1, by omega⟩
      rw [lines]
      dsimp only
      rw [List.drop_left, strchr_append hplain, marked, printed, fullLines_of_not_mem h,
        lastPart_of_not_mem h]
      simp [strchr, output]
  | line l text hl ih =>
      obtain ⟨fuel, rfl⟩ : ∃ j, fuel = j + 1 := ⟨fuel - 1, by omega⟩
      have hnull : 0 ∉ l := fun h => hnul (List.mem_append_left _ h)
      have hnul' : 0 ∉ text := fun h => hnul (List.mem_append_right _ (List.mem_cons_of_mem _ h))
      have hplain : ∀ b ∈ l, b ≠ 0 ∧ b ≠ newline := fun b hb => ⟨fun h => hnull (h ▸ hb),
        fun h => hl (h ▸ hb)⟩
      rw [List.length_append, List.length_cons] at hfuel
      rw [lines]
      dsimp only
      rw [List.drop_left, List.append_assoc, List.cons_append, strchr_append hplain]
      simp only [strchr, if_neg (show newline ≠ 0 by decide), if_true, Option.map_some,
        Nat.add_zero, set_line,
        List.drop_left]
      -- the line is looked at as a string
      have htext : (l ++ 0 :: (text ++ 0 :: after)).takeWhile (· ≠ 0) = l := by
        rw [List.takeWhile_append_of_pos (by simpa using fun b hb => (hplain b hb).1),
          List.takeWhile_cons_of_neg (by simp), List.append_nil]
      have htake : (l ++ newline :: (text ++ 0 :: after)).take (before.length + l.length + 1 -
        before.length) =
          l ++ [newline] := by
        rw [show before.length + l.length + 1 - before.length = l.length + 1 by omega,
          List.take_append,
          List.take_of_length_le (by omega), Nat.add_sub_cancel_left]
        rfl
      -- in both cases the loop goes on behind the newline
      have hnext : ∀ b out' far, lines pattern fuel
          ⟨before ++ (l ++ b :: (text ++ 0 :: after)), before.length + l.length + 1, out', far⟩ =
            .ok ⟨before ++ (l ++ b :: (marked pattern text ++ (lastPart text ++ 0 :: after))),
              before.length + l.length + 1 + (marked pattern text).length,
              out' ++ printed pattern text,
              max far (before.length + l.length + 1 + text.length)⟩ := fun b out' far => by
        have hrun := ih hnul' (show text.length < fuel by omega) (before ++ (l ++ [b])) out' far
        simp only [List.append_assoc, List.singleton_append, List.length_append,
          List.length_singleton,
          ← Nat.add_assoc] at hrun
        exact hrun
      have hfar : max (max far (before.length + l.length + 1))
        (before.length + l.length + 1 + text.length) =
          max far (before.length + (l ++ newline :: text).length) := by
        rw [List.length_append, List.length_cons]
        omega
      have hp : ∀ b, before.length + (l ++ b :: marked pattern text).length =
          before.length + l.length + 1 + (marked pattern text).length := fun b => by
        rw [List.length_append, List.length_cons]
        omega
      rw [htext, htake, marked_append_cons hl, printed_append_cons hl, lastPart_append_cons hl, hp]
      split
      · rw [hnext, hfar, List.append_assoc l, List.cons_append, List.append_assoc out]
      · rw [hnext, hfar, List.append_assoc l, List.cons_append, List.nil_append]

/-- Where `strchr` stops. -/
lemma getElem?_of_strchr {found : Bool} {k : ℕ} (h : strchr c text = some (found, k)) :
    text[k]? = some (if found = true then c else 0) := by
  induction text generalizing k with
  | nil => exact absurd h (by simp [strchr])
  | cons b text ih =>
      rw [strchr] at h
      split_ifs at h with h0 hc
      · obtain ⟨rfl, rfl⟩ := Prod.mk.inj (Option.some.inj h)
        simp [h0]
      · obtain ⟨rfl, rfl⟩ := Prod.mk.inj (Option.some.inj h)
        simp [hc]
      · obtain ⟨⟨f, j⟩, hj, heq⟩ := Option.map_eq_some_iff.1 h
        obtain ⟨rfl, rfl⟩ := Prod.mk.inj heq
        simpa using ih hj

/-- The loop over the lines looks at all bytes up to the first NUL. -/
lemma lines_far {sc r : Scan} {k : ℕ} (hrun : lines pattern fuel sc = .ok r)
    (h : (∀ j, sc.p ≤ j → j ≤ k → sc.mem[j]? ≠ some 0) ∧ sc.p ≤ k ∨ k < sc.far) : k < r.far := by
  induction fuel generalizing sc with
  | zero => exact absurd hrun (by simp [lines])
  | succ fuel ih =>
      rw [lines] at hrun
      cases hfind : strchr newline (sc.mem.drop sc.p) with
      | none =>
          rw [hfind] at hrun
          exact absurd hrun (by simp)
      | some res =>
          obtain ⟨found, q⟩ := res
          rw [hfind] at hrun
          have hq := getElem?_of_strchr hfind
          rw [List.getElem?_drop] at hq
          cases found with
          | false =>
              obtain rfl := Except.ok.inj hrun
              rcases h with ⟨hall, -⟩ | h
              · have hlt : k < sc.p + q := not_le.1 fun hle => hall _ (Nat.le_add_right _ _) hle hq
                exact hlt.trans_le (le_max_right _ _)
              · exact h.trans_le (le_max_left _ _)
          | true =>
              -- behind the newline nothing is changed
              have hnext : ∀ mem : List UInt8, (∀ j, sc.p + q < j → mem[j]? = sc.mem[j]?) →
                  (∀ j, sc.p + q + 1 ≤ j → j ≤ k → mem[j]? ≠ some 0) ∧ sc.p + q + 1 ≤ k ∨
                    k < max sc.far (sc.p + q + 1) := by
                intro mem hmem
                rcases h with ⟨hall, -⟩ | h
                · by_cases hle : sc.p + q + 1 ≤ k
                  · refine .inl ⟨fun j hj hjk => ?_, hle⟩
                    rw [hmem j (by omega)]
                    exact hall j (by omega) hjk
                  · exact .inr (by omega)
                · exact .inr (by omega)
              dsimp only at hrun
              split at hrun
              · exact ih hrun (hnext _ fun j hj => by
                  rw [List.getElem?_set_ne (by omega), List.getElem?_set_ne (by omega)])
              · exact ih hrun (hnext _ fun j hj => List.getElem?_set_ne (by omega))

lemma turns_next (s : State) (n : ℕ) (r : Scan) :
    (s.next n r).turns = s.turns ++ [⟨s.m, s.m + n, r.far⟩] := by
  rw [State.next]
  split_ifs <;> rfl

/-- A turn that went well. -/
def Turn.Fine (t : Turn) : Prop := 0 ≤ t.m ∧ t.m ≤ BUFSIZE ∧ (t.far : ℤ) ≤ t.filled

/-- At a read, the buffer begins with the part of a line that has been read. -/
structure Carries (s : State) (carry : List UInt8) : Prop where
  mem : carry <+: s.mem
  m : s.m = carry.length
  plain : newline ∉ carry
  nul : 0 ∉ carry
  lt : carry.length < BUFSIZE
  size : BUFSIZE ≤ s.mem.length

namespace Carries

/-- The memory when `read` has returned. -/
lemma filled_eq (h : Carries s carry) (bytes : List UInt8) :
    s.filled bytes = carry ++ bytes ++ s.mem.drop (carry ++ bytes).length := by
  obtain ⟨stale, hmem⟩ := h.mem
  rw [State.filled, h.m, Int.toNat_natCast, overwrite, ← hmem, List.take_left, List.length_append]

/-- One turn, when the byte behind what has been read is 0. -/
lemma turn_eq (h : Carries s carry) (pattern : List UInt8) (hnul : 0 ∉ bytes)
    (hzero : s.mem[carry.length + bytes.length]? = some 0) :
    turn pattern bytes s = .ok ⟨leftover pattern carry bytes s.mem, (carried carry bytes).length,
      s.out ++ printed pattern (carry ++ bytes),
      s.turns ++ [⟨s.m, s.m + bytes.length, (carry ++ bytes).length⟩]⟩ := by
  have hm := h.m
  have hnul' : 0 ∉ carry ++ bytes := fun hin => (List.mem_append.1 hin).elim h.nul hnul
  have hlen : (carry ++ bytes).length = carry.length + bytes.length := List.length_append
  -- what has been read, and the 0 behind it
  obtain ⟨after, hafter⟩ : ∃ after, s.mem.drop (carry ++ bytes).length = 0 :: after := by
    obtain ⟨hlt, hget⟩ := List.getElem?_eq_some_iff.1 hzero
    rw [hlen, List.drop_eq_getElem_cons hlt, hget]
    exact ⟨_, rfl⟩
  have hshort : (carry ++ bytes).length < s.mem.length + 1 := by
    have := congrArg List.length hafter
    rw [List.length_drop, List.length_cons] at this
    omega
  have hrun := lines_eq pattern hnul' hshort [] after s.out 0
  simp only [List.nil_append, List.length_nil, Nat.zero_add, Nat.zero_max] at hrun
  have hturn : turn pattern bytes s = .ok (s.next bytes.length ⟨marked pattern (carry ++ bytes) ++
      (lastPart (carry ++ bytes) ++ 0 :: after), (marked pattern (carry ++ bytes)).length,
      s.out ++ printed pattern (carry ++ bytes), (carry ++ bytes).length⟩) := by
    rw [turn, h.filled_eq, hafter]
    exact congrArg (Except.map _) hrun
  have hsum := length_marked pattern (carry ++ bytes)
  rw [hturn, State.next, leftover, carried, hafter]
  dsimp only
  by_cases hin : newline ∈ bytes
  · have hlast := length_lastPart_lt (List.mem_append_right carry hin)
    have hm' : s.m + bytes.length - (marked pattern (carry ++ bytes)).length =
        (lastPart (carry ++ bytes)).length := by omega
    rw [if_pos hin, if_pos hin, if_neg (show (marked pattern (carry ++ bytes)).length ≠ 0 by omega),
      if_pos (show 0 < s.m + bytes.length by omega), hm', Int.toNat_natCast, List.drop_left,
      List.take_left,
      overwrite, List.take_zero, List.nil_append, Nat.zero_add]
  · have hno : newline ∉ carry ++ bytes := fun h' => (List.mem_append.1 h').elim h.plain hin
    rw [lastPart_of_not_mem hno] at hsum ⊢
    have hnone : marked pattern (carry ++ bytes) = [] := List.length_eq_zero_iff.1 (by omega)
    rw [if_neg hin, if_neg hin, hnone, if_pos (show ([] : List UInt8).length = 0 from rfl),
      if_neg (lt_irrefl _)]
    rfl

/-- What the next turn starts with. -/
lemma next (h : Carries s carry) (hnul : 0 ∉ bytes) (hfit : (carry ++ bytes).length ≤ BUFSIZE)
    (out : List UInt8) (turns : List Turn) :
    Carries ⟨leftover pattern carry bytes s.mem, (carried carry bytes).length, out, turns⟩
      (carried carry bytes) := by
  have hsize := h.size
  have hnul' : 0 ∉ carry ++ bytes := fun hin => (List.mem_append.1 hin).elim h.nul hnul
  rw [carried, leftover]
  by_cases hin : newline ∈ bytes
  · have hlast := length_lastPart_lt (List.mem_append_right carry hin)
    have hsum := length_marked pattern (carry ++ bytes)
    rw [if_pos hin, if_pos hin]
    refine ⟨List.prefix_append _ _, rfl, not_mem_lastPart _,
      fun hz => hnul' ((lastPart_suffix _).subset hz), by omega, ?_⟩
    simp only [List.length_append, List.length_drop] at hsum hlast hfit ⊢
    omega
  · rw [if_neg hin, if_neg hin]
    refine ⟨List.nil_prefix, rfl, List.not_mem_nil, List.not_mem_nil, by decide, ?_⟩
    simp only [List.length_append, List.length_drop] at hfit ⊢
    omega

/-- One turn, when the byte behind what has been read is not 0: `strchr` looks at it. -/
lemma turn_far (h : Carries s carry) (hnul : 0 ∉ bytes)
    (hzero : s.mem[carry.length + bytes.length]? ≠ some 0) (hturn : turn pattern bytes s = .ok s') :
    ∃ t ∈ s'.turns, ¬ t.Fine := by
  have hm := h.m
  have hnul' : 0 ∉ carry ++ bytes := fun hin => (List.mem_append.1 hin).elim h.nul hnul
  rw [turn, h.filled_eq] at hturn
  cases hrun : lines pattern (s.mem.length + 1)
      ⟨carry ++ bytes ++ s.mem.drop (carry ++ bytes).length, 0, s.out, 0⟩ with
  | error e =>
      rw [hrun] at hturn
      exact absurd hturn (by simp [Except.map])
  | ok r =>
      rw [hrun] at hturn
      obtain rfl := Except.ok.inj hturn
      have hfar : carry.length + bytes.length < r.far := by
        refine lines_far hrun (.inl ⟨fun j _ hj => ?_, Nat.zero_le _⟩)
        rcases Nat.lt_or_ge j (carry ++ bytes).length with hlt | hge
        · rw [List.getElem?_append_left hlt]
          exact fun h0 => hnul' (List.mem_of_getElem? h0)
        · rw [List.length_append] at hge
          obtain rfl : j = carry.length + bytes.length := by omega
          rwa [List.getElem?_append_right (by simp), List.length_append, Nat.sub_self,
            List.getElem?_drop,
            Nat.add_zero]
      refine ⟨⟨s.m, s.m + bytes.length, r.far⟩, ?_, fun hf => ?_⟩
      · rw [turns_next]
        exact List.mem_append_right _ List.mem_cons_self
      · have : (r.far : ℤ) ≤ s.m + bytes.length := hf.2.2
        omega

end Carries

/-! ## The main loop -/

/-- The turns that have been are not forgotten. -/
lemma turns_subset_grep (hrun : grep pattern size fuel i input s = .ok s') :
    s.turns ⊆ s'.turns := by
  induction fuel generalizing i input s with
  | zero => exact absurd hrun (by simp [grep])
  | succ fuel ih =>
      rw [grep] at hrun
      split at hrun
      · exact absurd hrun (by simp)
      dsimp only at hrun
      split at hrun
      · obtain rfl := Except.ok.inj hrun
        exact List.Subset.refl _
      · cases hturn : turn pattern (input.take (reads s.m.toNat (size i) input)) s with
        | error e =>
            rw [hturn] at hrun
            exact absurd hrun (by simp [bind, Except.bind])
        | ok s₁ =>
            rw [hturn] at hrun
            refine List.Subset.trans ?_ (ih hrun)
            rw [turn] at hturn
            cases hlines : lines pattern (s.mem.length + 1)
                ⟨s.filled (input.take (reads s.m.toNat (size i) input)), 0, s.out, 0⟩ with
            | error e =>
                rw [hlines] at hturn
                exact absurd hturn (by simp [Except.map])
            | ok r =>
                rw [hlines] at hturn
                obtain rfl := Except.ok.inj hturn
                rw [turns_next]
                exact List.subset_append_left _ _

namespace Carries

/-- The main loop, if the byte behind what has been read is 0 at every read. -/
lemma grep (h : Carries s carry) (hfine : ∀ t ∈ s.turns, t.Fine) (hnul : 0 ∉ input)
    (hfuel : input.length < fuel) (hset : Settled pattern size fuel i input carry s.mem) :
    ∃ s', grep pattern size fuel i input s = .ok s' ∧
      s'.out = s.out ++ output pattern (seen size fuel i input carry) ∧ ∀ t ∈ s'.turns, t.Fine := by
  induction fuel generalizing s carry i input with
  | zero => omega
  | succ fuel ih =>
      have hm := h.m
      have hlt := h.lt
      rw [Grep.grep, if_neg (by omega), seen]
      rw [Settled] at hset
      dsimp only at hset ⊢
      rw [hm, Int.toNat_natCast]
      generalize hreads : reads carry.length (size i) input = n at hset ⊢
      by_cases hn : n = 0
      · rw [if_pos hn, if_pos hn]
        exact ⟨s, rfl, by rw [output, List.filter_nil, List.flatMap_nil, List.append_nil], hfine⟩
      rw [if_neg hn, if_neg hn]
      obtain ⟨hzero, hrest⟩ := hset.resolve_left hn
      have hnul' : 0 ∉ input.take n := fun h0 => hnul (List.mem_of_mem_take h0)
      have htake : (input.take n).length = n ∧ carry.length + n ≤ BUFSIZE := by
        rw [reads] at hreads
        rw [List.length_take]
        omega
      have hle : n ≤ input.length := htake.1 ▸ List.length_take_le' n input
      have hturn := h.turn_eq pattern hnul' (by rwa [htake.1])
      rw [hturn]
      have hfit : (carry ++ input.take n).length ≤ BUFSIZE := by
        rw [List.length_append, htake.1]
        exact htake.2
      have hfine' :
        ∀ t ∈ s.turns ++ [⟨s.m, s.m + (input.take n).length, (carry ++ input.take n).length⟩],
          t.Fine := fun t ht => by
        rcases List.mem_append.1 ht with ht | ht
        · exact hfine t ht
        · rw [List.mem_singleton.1 ht]
          refine ⟨by dsimp only; omega, by dsimp only; omega, ?_⟩
          dsimp only
          rw [List.length_append]
          omega
      obtain ⟨s', hrun, hout, hturns⟩ := ih (h.next hnul' hfit _ _) hfine'
        (fun h0 => hnul (List.mem_of_mem_drop h0)) (by rw [List.length_drop]; omega) hrest
      refine ⟨s', hrun, ?_, hturns⟩
      rw [hout, output_append, printed, List.append_assoc]

/-- A run that looks only at what has been read finds a 0 behind it at every read. -/
lemma settled (h : Carries s carry) (hnul : 0 ∉ input)
    (hrun : Grep.grep pattern size fuel i input s = .ok s') (hfine : ∀ t ∈ s'.turns, t.Fine) :
    Settled pattern size fuel i input carry s.mem := by
  induction fuel generalizing s carry i input with
  | zero => exact trivial
  | succ fuel ih =>
      have hm := h.m
      have hlt := h.lt
      rw [Grep.grep, if_neg (by omega)] at hrun
      rw [Settled]
      dsimp only at hrun ⊢
      rw [hm, Int.toNat_natCast] at hrun
      generalize hreads : reads carry.length (size i) input = n at hrun ⊢
      by_cases hn : n = 0
      · exact .inl hn
      rw [if_neg hn] at hrun
      have hnul' : 0 ∉ input.take n := fun h0 => hnul (List.mem_of_mem_take h0)
      have htake : (input.take n).length = n ∧ carry.length + n ≤ BUFSIZE := by
        rw [reads] at hreads
        rw [List.length_take]
        omega
      by_cases hzero : s.mem[carry.length + (input.take n).length]? = some 0
      · rw [h.turn_eq pattern hnul' hzero] at hrun
        rw [htake.1] at hzero
        refine .inr ⟨hzero, ih (h.next hnul' ?_ _ _)
          (fun h0 => hnul (List.mem_of_mem_drop h0)) hrun⟩
        rw [List.length_append, htake.1]
        exact htake.2
      · -- the turn is not fine, and it is not forgotten
        cases hturn : turn pattern (input.take n) s with
        | error e =>
            rw [hturn] at hrun
            exact absurd hrun (by simp [bind, Except.bind])
        | ok s₁ =>
            rw [hturn] at hrun
            obtain ⟨t, ht, hbad⟩ := h.turn_far hnul' hzero hturn
            exact absurd (hfine t (turns_subset_grep hrun ht)) hbad

end Carries

end Xv6.Grep
