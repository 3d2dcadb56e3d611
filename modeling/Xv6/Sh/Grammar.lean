import Mathlib.Logic.Function.Iterate
import Mathlib.Order.Nat
import Xv6.Lib.Wp
import Xv6.Sh

/-!
# The grammar of command lines

A line is a sequence of tokens.  The grammar says which sequences are command lines and which
command each of them is:

* `line := pipe '&'* [';' line]`
* `pipe := exec ['|' pipe]`
* `exec := '(' line ')' redir* | redir* (word redir*)*`, with at most `MAXARGS - 1` words
* `redir := ('<' | '>' | '>>') word`

The parser accepts these lines and no others, and returns their commands (`parsecmd_iff`).
-/

namespace Xv6.Sh

open Lib

/-! ## Tokens -/

inductive Tok
  | lt
  | gt
  | app
  | bar
  | amp
  | semi
  | lpar
  | rpar
  | word (w : List Char)
deriving DecidableEq, Repr

/-- The token that a symbol stands for by itself. -/
def Tok.ofChar : Char → Option Tok
  | '<' => some .lt
  | '>' => some .gt
  | '|' => some .bar
  | '&' => some .amp
  | ';' => some .semi
  | '(' => some .lpar
  | ')' => some .rpar
  | _ => none

/-- The tokens of a line: the symbols, and the longest words between them and white space. -/
def tokenise : List Char → List Tok
  | [] => []
  | c :: s =>
      if whitespace.contains c then tokenise s
      else if c = '>' ∧ s.head? = some '>' then .app :: tokenise s.tail
      else match Tok.ofChar c with
        | some t => t :: tokenise s
        | none => .word (c :: s.takeWhile wordChar) :: tokenise (s.dropWhile wordChar)
termination_by s => s.length
decreasing_by
  · exact Nat.lt_succ_self _
  · rw [List.length_tail, List.length_cons]
    omega
  · exact Nat.lt_succ_self _
  · exact Nat.lt_succ_of_le (List.dropWhile_suffix _).length_le

/-! ## Derivations -/

/-- A command, with its words spelt out. -/
abbrev Command : Type := Cmd (List Char)

/-- A redirection. -/
structure Redirect where
  file : List Char
  mode : ℕ
  fd : ℕ

/-- What a redirection symbol asks for. -/
def Tok.redirects : Tok → Option (ℕ × ℕ)
  | .lt => some (O_RDONLY, 0)
  | .gt | .app => some (O_WRONLY_CREATE, 1)
  | _ => none

/-- `redir*`. -/
inductive Redirs : List Tok → List Redirect → Prop
  | nil : Redirs [] []
  | cons {op : Tok} {file : List Char} {mode fd : ℕ} {ts : List Tok} {rs : List Redirect} :
      op.redirects = some (mode, fd) → Redirs ts rs → Redirs (op :: .word file :: ts)
      (⟨file, mode, fd⟩ :: rs)

/-- `(word redir*)*`: the words, and the redirections between them. -/
inductive Words : List Tok → List (List Char) → List Redirect → Prop
  | nil : Words [] [] []
  | cons {w : List Char} {ts us : List Tok} {ws : List (List Char)} {rs rs' : List Redirect} :
      Redirs ts rs → Words us ws rs' → Words (.word w :: (ts ++ us)) (w :: ws) (rs ++ rs')

/-- The symbols of the grammar that stand for commands. -/
inductive Symbol
  | line
  | pipe
  | exec

/-- Redirections stand around a command, the last one outside. -/
def redirected (cmd : Command) (rs : List Redirect) : Command :=
  rs.foldl (fun cmd r => .redir cmd r.file r.mode r.fd) cmd

/-- A sequence of tokens has a derivation, and it stands for a command. -/
inductive Derives : Symbol → List Tok → Command → Prop
  | line {ts : List Tok} {c : Command} (k : ℕ) :
      Derives .pipe ts c → Derives .line (ts ++ List.replicate k .amp) (Cmd.back^[k] c)
  | seq {ts us : List Tok} {c d : Command} (k : ℕ) : Derives .pipe ts c → Derives .line us d →
      Derives .line (ts ++ (List.replicate k .amp ++ .semi :: us)) (.list (Cmd.back^[k] c) d)
  | exec {ts : List Tok} {c : Command} : Derives .exec ts c → Derives .pipe ts c
  | pipe {ts us : List Tok} {c d : Command} : Derives .exec ts c → Derives .pipe us d →
      Derives .pipe (ts ++ .bar :: us) (.pipe c d)
  | block {ts us : List Tok} {c : Command} {rs : List Redirect} :
    Derives .line ts c → Redirs us rs →
      Derives .exec (.lpar :: (ts ++ .rpar :: us)) (redirected c rs)
  | simple {ts us : List Tok} {ws : List (List Char)} {rs rs' : List Redirect} :
    Redirs ts rs → Words us ws rs' →
      ws.length ≤ MAXARGS - 1 → Derives .exec (ts ++ us) (redirected (.exec ws) (rs ++ rs'))

/-! ## The tokens that the parser sees -/

/-- The first character of a token; that of a word is not a symbol. -/
def Tok.char : Tok → Char
  | .lt => '<'
  | .gt | .app => '>'
  | .bar => '|'
  | .amp => '&'
  | .semi => ';'
  | .lpar => '('
  | .rpar => ')'
  | .word _ => 'a'

/-- What `gettoken` returns for a token. -/
def Tok.code : Tok → Char
  | .app => '+'
  | t => t.char

/-- The characters of a word. -/
def Word.text (w : Word) : List Char := w.q.take (w.q.length - w.eq.length)

/-- Two pointers into a line delimit a word of it. -/
structure Word.In (line : List Char) (w : Word) : Prop where
  split : w.q = w.text ++ w.eq
  plain : ∀ c ∈ w.text, wordChar c = true
  ends : ∀ c ∈ w.eq.head?, wordChar c = false
  suffix : w.q <:+ line

section

variable {s s' line : List Char} {c : Char} {t : Tok} {ts us : List Tok} {toks : List Char} {n : ℕ}

lemma tokenise_nil : tokenise [] = [] := by rw [tokenise]

/-- White space is between tokens. -/
lemma tokenise_skip (s : List Char) : tokenise (skip s) = tokenise s := by
  induction s with
  | nil => rfl
  | cons c s ih =>
      by_cases hc : whitespace.contains c = true
      · rw [skip, List.dropWhile_cons_of_pos hc, tokenise, if_pos hc]
        exact ih
      · rw [skip, List.dropWhile_cons_of_neg hc]

lemma length_tokenise_le (s : List Char) : (tokenise s).length ≤ s.length := by
  induction s using tokenise.induct with
  | case1 =>
      rw [tokenise_nil]
      exact le_rfl
  | case2 c s hc ih =>
      rw [tokenise, if_pos hc, List.length_cons]
      omega
  | case3 c s hc happ ih =>
      rw [tokenise, if_neg hc, if_pos happ, List.length_cons, List.length_cons]
      rw [List.length_tail] at ih
      omega
  | case4 c s hc happ t ht ih =>
      rw [tokenise, if_neg hc, if_neg happ, ht]
      exact Nat.succ_le_succ ih
  | case5 c s hc happ ht ih =>
      rw [tokenise, if_neg hc, if_neg happ, ht]
      exact Nat.succ_le_succ (ih.trans (List.dropWhile_suffix _).length_le)

lemma skip_suffix (s : List Char) : skip s <:+ s := List.dropWhile_suffix _

/-- What follows white space is not white space. -/
lemma not_whitespace_of_skip {r : List Char} (h : skip s = c :: r) :
    whitespace.contains c = false := by
  have hhead := List.head?_dropWhile_not whitespace.contains s
  rw [← skip, h] at hhead
  exact hhead

lemma ofChar_eq_some (h : Tok.ofChar c = some t) :
    t.char = c ∧ t ≠ .app ∧ (∀ w, t ≠ .word w) ∧
      (['|', '(', ')', ';', '&', '<'].contains c = true ∨ c = '>') := by
  unfold Tok.ofChar at h
  split at h <;> first
    | (obtain rfl := Option.some.inj h; simp [Tok.char])
    | exact absurd h (by simp)

lemma ofChar_eq_none (h : Tok.ofChar c = none) : symbols.contains c = false := by
  unfold Tok.ofChar at h
  split at h <;> simp_all [symbols]

lemma Word.text_eq {w : Word} {x : List Char} (h : w.q = x ++ w.eq) : w.text = x := by
  rw [Word.text, h, List.length_append, Nat.add_sub_cancel, List.take_left]

/-- What `gettoken` finds behind white space is the first token. -/
structure Scanned (s : List Char) (t : Tok) (ts : List Tok) (r : Char × Word × List Char) :
    Prop where
  code : r.1 = t.code
  rest : tokenise r.2.2 = ts
  suffix : r.2.2 <:+ s
  word : ∀ x, t = .word x → r.2.1.text = x ∧ r.2.1.In s

/-- It is a word if its first character is not a symbol. -/
lemma scan_word {r : List Char} (hc : wordChar c = true) :
    Scanned (c :: r) (.word (c :: r.takeWhile wordChar)) (tokenise (r.dropWhile wordChar))
    (scan (c :: r)) := by
  have hsym : symbols.contains c = false := by
    rw [wordChar, Bool.and_eq_true, Bool.not_eq_true', Bool.not_eq_true'] at hc
    exact hc.2
  have hscan : scan (c :: r) = ('a', ⟨c :: r, r.dropWhile wordChar⟩, r.dropWhile wordChar) := by
    rw [scan, if_neg, if_neg, List.dropWhile_cons_of_pos hc]
    · rintro rfl
      exact absurd hsym (by decide)
    · simp_all [symbols]
  have hsplit : c :: r = c :: r.takeWhile wordChar ++ r.dropWhile wordChar := by
    rw [List.cons_append, List.takeWhile_append_dropWhile]
  have htext : Word.text ⟨c :: r, r.dropWhile wordChar⟩ = c :: r.takeWhile wordChar :=
    Word.text_eq hsplit
  rw [hscan]
  refine ⟨rfl, rfl, (List.dropWhile_suffix _).trans (List.suffix_cons _ _), ?_⟩
  rintro x ⟨⟩
  refine ⟨htext, ?_, ?_, ?_, List.suffix_refl _⟩
  · rw [htext]
    exact hsplit
  · rw [htext]
    rintro x (_ | ⟨_, hx⟩)
    · exact hc
    · exact List.all_eq_true.1 List.all_takeWhile x hx
  · intro x hx
    have hhead := List.head?_dropWhile_not wordChar r
    rw [Option.mem_def.1 hx] at hhead
    exact hhead

lemma scan_cons {r : List Char} (hc : whitespace.contains c = false) :
    ∃ t ts, tokenise (c :: r) = t :: ts ∧ (t.char = c ∨ t.char = 'a' ∧ symbols.contains c = false) ∧
      Scanned (c :: r) t ts (scan (c :: r)) := by
  rw [tokenise, if_neg (by rw [hc]; simp)]
  by_cases happ : c = '>' ∧ r.head? = some '>'
  · rw [if_pos happ]
    obtain ⟨rfl, hr⟩ := happ
    have hscan : scan ('>' :: r) = ('+', ⟨'>' :: r, r.tail⟩, r.tail) := by
      rw [scan, if_neg (by decide), if_pos rfl, if_pos hr]
    rw [hscan]
    exact ⟨_, _, rfl, .inl rfl, rfl, rfl, (List.tail_suffix _).trans
      (List.suffix_cons _ _), by simp⟩
  · rw [if_neg happ]
    cases ht : Tok.ofChar c with
    | none =>
        have hsym := ofChar_eq_none ht
        have hword : wordChar c = true := by rw [wordChar, hc, hsym]; rfl
        exact ⟨_, _, rfl, .inr ⟨rfl, hsym⟩, scan_word hword⟩
    | some t =>
        obtain ⟨hchar, hne, hw, hsym⟩ := ofChar_eq_some ht
        have hcode : t.code = c := by
          rw [← hchar]
          cases t <;> first | rfl | exact absurd rfl hne
        have hscan : scan (c :: r) = (c, ⟨c :: r, r⟩, r) := by
          rcases hsym with hsym | rfl
          · rw [scan, if_pos hsym]
          · rw [scan, if_neg (by decide), if_pos rfl, if_neg fun hr => happ ⟨rfl, hr⟩]
        rw [hscan]
        exact ⟨_, _, rfl, .inl hchar, hcode.symm, rfl, List.suffix_cons _ _,
          fun x hx => absurd hx (hw x)⟩

lemma skip_eq_nil (h : tokenise s = []) : skip s = [] := by
  cases hs : skip s with
  | nil => rfl
  | cons c r =>
      obtain ⟨t, ts, htok, -⟩ := scan_cons (r := r) (not_whitespace_of_skip hs)
      rw [← hs, tokenise_skip, h] at htok
      exact absurd htok (by simp)

lemma gettoken_nil (h : tokenise s = []) : gettoken s = .ok ('\x00', ⟨[], []⟩) [] := by
  rw [gettoken, skip_eq_nil h]
  rfl

/-- `gettoken` returns the first token. -/
lemma gettoken_cons (h : tokenise s = t :: ts) : ∃ w s', gettoken s = .ok (t.code, w) s' ∧
    tokenise s' = ts ∧ s' <:+ s ∧
    ∀ x, t = .word x → w.text = x ∧ w.In s := by
  cases hs : skip s with
  | nil =>
      rw [← tokenise_skip, hs, tokenise_nil] at h
      exact absurd h (by simp)
  | cons c r =>
      obtain ⟨t', ts', htok, -, hscan⟩ := scan_cons (r := r) (not_whitespace_of_skip hs)
      rw [← hs, tokenise_skip, h] at htok
      obtain ⟨rfl, rfl⟩ := List.cons.inj htok
      rw [← hs] at hscan
      refine ⟨(scan (skip s)).2.1, skip (scan (skip s)).2.2, ?_, ?_, ?_, fun x hx => ?_⟩
      · rw [← hscan.code]
        rfl
      · rw [tokenise_skip, hscan.rest]
      · exact (skip_suffix _).trans (hscan.suffix.trans (skip_suffix s))
      · obtain ⟨htext, hin⟩ := hscan.word x hx
        exact ⟨htext, hin.split, hin.plain, hin.ends, hin.suffix.trans (skip_suffix s)⟩

/-- Is the first token one of these? -/
def starts (toks : List Char) (ts : List Tok) : Bool := ts.head?.any fun t => toks.contains t.char

/-- `peek` tells whether the first token is one of those, which are symbols. -/
lemma peek_eq (toks s : List Char) (htoks : ∀ x ∈ toks, symbols.contains x = true) :
    ∃ s', peek toks s = .ok (starts toks (tokenise s)) s' ∧ tokenise s' =
      tokenise s ∧ s' <:+ s := by
  refine ⟨skip s, ?_, tokenise_skip s, skip_suffix s⟩
  rw [peek, ← tokenise_skip]
  cases hs : skip s with
  | nil =>
      rw [tokenise_nil]
      rfl
  | cons c r =>
      obtain ⟨t, ts, htok, hchar, -⟩ := scan_cons (r := r) (not_whitespace_of_skip hs)
      rw [htok]
      show EStateM.Result.ok (toks.contains c) _ = .ok (toks.contains t.char) _
      rcases hchar with rfl | ⟨hword, hc⟩
      · rfl
      · have hnot : ∀ x, symbols.contains x = false → toks.contains x = false := fun x hx => by
          rw [← Bool.not_eq_true, List.contains_iff_mem]
          intro hmem
          rw [htoks x hmem] at hx
          exact absurd hx (by simp)
        rw [hword, hnot c hc, hnot 'a' (by decide)]

end

end Xv6.Sh
