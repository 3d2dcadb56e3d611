import Mathlib.Data.List.FinRange
import Xv6.Sh.Parser

/-!
# The strings that `nulterminate` leaves

A command has its words as pairs of pointers into the line, those of `struct execcmd` in two arrays
of `MAXARGS` places that end at the first null pointer.  `nulterminate` goes through the arrays and
stores a 0 behind each word.  No word begins or ends inside of another one, and so each pointer is
then the start of a string with the characters of its word.
-/

namespace Xv6.Sh

open Lib

/-- `struct execcmd`: pointers into the line, or null pointers. -/
@[ext] structure ExecCmd where
  argv : Fin MAXARGS → Option (List Char)
  eargv : Fin MAXARGS → Option (List Char)

/-- `struct cmd` with these arrays. -/
inductive Node
  | exec (cmd : ExecCmd)
  | redir (cmd : Node) (file efile : List Char) (mode fd : ℕ)
  | pipe (left right : Node)
  | list (left right : Node)
  | back (cmd : Node)

/-- `execcmd`: a node of zeros. -/
def execcmd : ExecCmd := ⟨fun _ => none, fun _ => none⟩

namespace ExecCmd

/-- `cmd->argv[argc] = q; cmd->eargv[argc] = eq`. -/
def store (cmd : ExecCmd) (argc : ℕ) (q eq : Option (List Char)) : ExecCmd where
  argv i := if i.val = argc then q else cmd.argv i
  eargv i := if i.val = argc then eq else cmd.eargv i

/-- Place `i` of the two arrays. -/
def place (cmd : ExecCmd) (i : Fin MAXARGS) : Option (List Char) × Option (List Char) :=
  (cmd.argv i, cmd.eargv i)

lemma place_store (cmd : ExecCmd) (argc : ℕ) (q eq : Option (List Char)) (i : Fin MAXARGS) :
    (cmd.store argc q eq).place i = if i.val = argc then (q, eq) else cmd.place i := by
  rw [place, store]
  split
  · simp_all
  · simp_all [place]

/-- The stores of `parseexec` when the words that it meets are these. -/
def fill : List Word → ℕ → ExecCmd → ExecCmd
  | [], argc, cmd => cmd.store argc none none
  | w :: ws, argc, cmd => fill ws (argc + 1) (cmd.store argc (some w.q) (some w.eq))

/-- The loop of `nulterminate` over the arrays from place `i` on; it fails if it leaves the arrays
or meets a null pointer in `eargv`. -/
def nulterminate (len : ℕ) (cmd : ExecCmd) : ℕ → ℕ → List Char → Option (List Char)
  | 0, _, _ => none
  | fuel + 1, i, buf =>
      if h : i < MAXARGS then
        match cmd.argv ⟨i, h⟩ with
        | none => some buf
        | some _ => (cmd.eargv ⟨i, h⟩).bind fun eq =>
            cmd.nulterminate len fuel (i + 1) (buf.set (len - eq.length) '\x00')
      else none

/-- The pairs of pointers in the two arrays. -/
def words (cmd : ExecCmd) : List Word :=
  (List.finRange MAXARGS).filterMap fun i => (cmd.argv i).bind fun q => (cmd.eargv i).map
    fun eq => ⟨q, eq⟩

/-- The arrays are paired, and end with null pointers behind the first `argc` places. -/
def Ended (cmd : ExecCmd) (argc : ℕ) : Prop :=
  argc < MAXARGS ∧ ∀ i, ((cmd.argv i).isSome ↔ i.val < argc) ∧ ((cmd.eargv i).isSome ↔ i.val < argc)

end ExecCmd

namespace Node

/-- `nulterminate`. -/
def nulterminate (len : ℕ) : Node → List Char → Option (List Char)
  | .exec cmd, buf => cmd.nulterminate len (MAXARGS + 1) 0 buf
  | .redir cmd _ efile _ _, buf => (cmd.nulterminate len buf).map fun buf =>
    buf.set (len - efile.length) '\x00'
  | .pipe left right, buf => (left.nulterminate len buf).bind (right.nulterminate len)
  | .list left right, buf => (left.nulterminate len buf).bind (right.nulterminate len)
  | .back cmd, buf => cmd.nulterminate len buf

/-- The `EXEC` nodes of a command. -/
def execs : Node → List ExecCmd
  | .exec cmd => [cmd]
  | .redir cmd _ _ _ _ => cmd.execs
  | .pipe left right => left.execs ++ right.execs
  | .list left right => left.execs ++ right.execs
  | .back cmd => cmd.execs

/-- The words of a command: its arguments and the files of its redirections. -/
def words : Node → List Word
  | .exec cmd => cmd.words
  | .redir cmd file efile _ _ => cmd.words ++ [⟨file, efile⟩]
  | .pipe left right => left.words ++ right.words
  | .list left right => left.words ++ right.words
  | .back cmd => cmd.words

end Node

/-- The command that the parser makes, with the arrays as it fills them. -/
def Cmd.node : Cmd Word → Node
  | .exec argv => .exec (ExecCmd.fill argv 0 execcmd)
  | .redir cmd file mode fd => .redir cmd.node file.q file.eq mode fd
  | .pipe left right => .pipe left.node right.node
  | .list left right => .list left.node right.node
  | .back cmd => .back cmd.node

/-- The arguments of the simple commands in a command. -/
def Cmd.argvs {W : Type} : Cmd W → List (List W)
  | .exec argv => [argv]
  | .redir cmd _ _ _ => cmd.argvs
  | .pipe left right => left.argvs ++ right.argvs
  | .list left right => left.argvs ++ right.argvs
  | .back cmd => cmd.argvs

variable {line buf : List Char} {cmd : Cmd Word} {c : Command} {ws : List Word} {argc n len : ℕ}
    {ts : List Tok}
  {N : Symbol} {rs : List Redirect}

/-! ## The arrays -/

/-- What the arrays hold when they have been filled from place `argc` on. -/
lemma ExecCmd.place_fill (ws : List Word) (argc : ℕ) (e : ExecCmd) (i : Fin MAXARGS) :
    (ExecCmd.fill ws argc e).place i =
      if i.val < argc ∨ argc + ws.length < i.val then e.place i
      else (ws[i.val - argc]?.map Word.q, ws[i.val - argc]?.map Word.eq) := by
  induction ws generalizing argc e with
  | nil =>
      rw [fill, place_store]
      by_cases hi : i.val = argc
      · simp [hi]
      · rw [if_neg hi, if_pos (by simp; omega)]
  | cons w ws ih =>
      rw [fill, ih, place_store, List.length_cons]
      by_cases hi : i.val = argc
      · simp [hi]
      rw [if_neg hi]
      by_cases hlt : i.val < argc
      · rw [if_pos (by omega), if_pos (by omega)]
      · have hsub : i.val - argc = i.val - (argc + 1) + 1 := by omega
        simp only [hsub, List.getElem?_cons_succ,
          show i.val < argc + 1 ∨ argc + 1 + ws.length < i.val ↔ i.val < argc ∨
          argc + (ws.length + 1) < i.val by omega]

/-- The arrays that `parseexec` leaves. -/
lemma ExecCmd.place_filled (ws : List Word) (i : Fin MAXARGS) :
    (ExecCmd.fill ws 0 execcmd).place i = (ws[i.val]?.map Word.q, ws[i.val]?.map Word.eq) := by
  rw [place_fill]
  split
  · rw [List.getElem?_eq_none (by omega)]
    rfl
  · rfl

lemma ExecCmd.argv_filled (ws : List Word) (i : Fin MAXARGS) :
    (ExecCmd.fill ws 0 execcmd).argv i = ws[i.val]?.map Word.q :=
      congrArg Prod.fst (place_filled ws i)

lemma ExecCmd.eargv_filled (ws : List Word) (i : Fin MAXARGS) :
    (ExecCmd.fill ws 0 execcmd).eargv i = ws[i.val]?.map Word.eq :=
      congrArg Prod.snd (place_filled ws i)

/-- They are paired and end with null pointers. -/
lemma ExecCmd.ended_filled (hws : ws.length < MAXARGS) :
    (ExecCmd.fill ws 0 execcmd).Ended ws.length := by
  refine ⟨hws, fun i => ?_⟩
  simp [argv_filled, eargv_filled]

lemma filterMap_range_getElem? {α : Type} (l : List α) (n : ℕ) :
    (List.range n).filterMap (l[·]?) = l.take n := by
  induction n with
  | zero => rfl
  | succ n ih =>
      rw [List.range_succ, List.filterMap_append, ih, List.take_add_one]
      cases h : l[n]? <;> simp [h]

/-- They have the words. -/
lemma ExecCmd.words_filled (hws : ws.length < MAXARGS) :
    (ExecCmd.fill ws 0 execcmd).words = ws := by
  have hword : ∀ i : Fin MAXARGS, (((ExecCmd.fill ws 0 execcmd).argv i).bind fun q =>
      ((ExecCmd.fill ws 0 execcmd).eargv i).map fun eq => (⟨q, eq⟩ : Word)) = ws[i.val]? :=
        fun i => by
    rw [argv_filled, eargv_filled]
    cases ws[i.val]? <;> rfl
  rw [words]
  simp only [hword]
  have hrange : (List.finRange MAXARGS).filterMap (fun i => ws[i.val]?) =
      ((List.finRange MAXARGS).map Fin.val).filterMap (ws[·]?) := by
    rw [List.filterMap_map]
    rfl
  rw [hrange, List.map_coe_finRange_eq_range, filterMap_range_getElem?,
    List.take_of_length_le hws.le]

/-- The loop of `nulterminate` stores a 0 behind each word. -/
lemma ExecCmd.nulterminate_filled {fuel i : ℕ} (hws : ws.length < MAXARGS) (hi : i ≤ ws.length)
    (hfuel : ws.length - i < fuel) (buf : List Char) :
    (ExecCmd.fill ws 0 execcmd).nulterminate len fuel i buf =
      some ((ws.drop i).foldl (Word.terminate len) buf) := by
  induction fuel generalizing i buf with
  | zero => omega
  | succ fuel ih =>
      rw [nulterminate, dif_pos (by omega), argv_filled, eargv_filled]
      by_cases hlt : i < ws.length
      · rw [List.getElem?_eq_getElem hlt, List.drop_eq_getElem_cons hlt, List.foldl_cons]
        exact ih hlt (by omega) _
      · have hnone : ws[i]? = none := List.getElem?_eq_none (by omega)
        simp only [hnone]
        rw [List.drop_eq_nil_of_le (by omega)]
        rfl

/-! ## Commands -/

lemma argvs_redirected (c : Command) (rs : List Redirect) : (redirected c rs).argvs = c.argvs := by
  induction rs generalizing c with
  | nil => rfl
  | cons r rs ih => exact ih _

lemma argvs_backs (c : Command) (k : ℕ) : (Cmd.back^[k] c).argvs = c.argvs := by
  induction k generalizing c with
  | zero => rfl
  | succ k ih => exact ih _

/-- The arguments of a derived command fit into the arrays. -/
lemma Derives.length_argvs (h : Derives N ts c) : ∀ argv ∈ c.argvs, argv.length < MAXARGS := by
  induction h with
  | line k _ ih => rwa [argvs_backs]
  | seq k _ _ ih ih' =>
      intro argv hargv
      rw [Cmd.argvs, argvs_backs] at hargv
      exact (List.mem_append.1 hargv).elim (ih argv) (ih' argv)
  | exec _ ih => exact ih
  | pipe _ _ ih ih' => exact fun argv hargv => (List.mem_append.1 hargv).elim (ih argv) (ih' argv)
  | block _ hrs ih => rwa [argvs_redirected]
  | simple hrs hws hmax =>
      intro argv hargv
      rw [argvs_redirected, Cmd.argvs, List.mem_singleton] at hargv
      subst hargv
      have hM := MAXARGS_eq
      omega

lemma argvs_map {V W : Type} (f : W → V) (cmd : Cmd W) :
    (cmd.map f).argvs = cmd.argvs.map (List.map f) := by
  induction cmd with
  | exec argv => rfl
  | redir cmd file mode fd ih => exact ih
  | pipe left right ihl ihr | list left right ihl ihr =>
      simp only [Cmd.map, Cmd.argvs, ihl, ihr, List.map_append]
  | back cmd ih => exact ih

/-- The arrays of a command end with null pointers. -/
lemma Cmd.ended_node (h : ∀ argv ∈ cmd.argvs, argv.length < MAXARGS) :
    ∀ e ∈ cmd.node.execs, ∃ argc, e.Ended argc := by
  induction cmd with
  | exec argv =>
      intro e he
      rw [Cmd.node, Node.execs, List.mem_singleton] at he
      exact ⟨argv.length, he ▸ ExecCmd.ended_filled (h argv List.mem_cons_self)⟩
  | redir cmd file mode fd ih => exact ih h
  | pipe left right ihl ihr | list left right ihl ihr =>
      intro e he
      exact (List.mem_append.1 he).elim (ihl (fun a ha => h a (List.mem_append_left _ ha)) e)
        (ihr (fun a ha => h a (List.mem_append_right _ ha)) e)
  | back cmd ih => exact ih h

lemma Cmd.words_node (h : ∀ argv ∈ cmd.argvs, argv.length < MAXARGS) :
    cmd.node.words = cmd.words := by
  induction cmd with
  | exec argv => exact ExecCmd.words_filled (h argv List.mem_cons_self)
  | redir cmd file mode fd ih => rw [Cmd.node, Node.words, ih h, Cmd.words]
  | pipe left right ihl ihr | list left right ihl ihr =>
      rw [Cmd.node, Node.words, ihl fun a ha => h a (List.mem_append_left _ ha),
        ihr fun a ha => h a (List.mem_append_right _ ha), Cmd.words]
  | back cmd ih => exact ih h

/-- On the arrays, `nulterminate` does what it does on the lists of words. -/
lemma Cmd.nulterminate_node (h : ∀ argv ∈ cmd.argvs, argv.length < MAXARGS) (buf : List Char) :
    cmd.node.nulterminate len buf = some (nulterminate len cmd buf) := by
  induction cmd generalizing buf with
  | exec argv =>
      have hargv := h argv List.mem_cons_self
      exact ExecCmd.nulterminate_filled hargv (Nat.zero_le _) (by omega) buf
  | redir cmd file mode fd ih =>
      rw [Cmd.node, Node.nulterminate, ih h]
      rfl
  | pipe left right ihl ihr | list left right ihl ihr =>
      rw [Cmd.node, Node.nulterminate, ihl (fun a ha => h a (List.mem_append_left _ ha)),
        Option.bind_some,
        ihr fun a ha => h a (List.mem_append_right _ ha), nulterminate]
  | back cmd ih => exact ih h buf

/-! ## The line -/

/-- Characters of words stay. -/
lemma Cmd.In.getElem?_nulterminate {i : ℕ} {ch : Char} (hcmd : cmd.In line)
    (hi : (line)[i]? = some ch) :
    (nulterminate line.length cmd line)[i]? = some ch ∨
      (nulterminate line.length cmd line)[i]? = some '\x00' ∧ wordChar ch = false := by
  rw [nulterminate_eq]
  by_cases hw : ∃ w ∈ cmd.words, line.length - w.eq.length = i
  · right
    have hlt := (List.getElem?_eq_some_iff.1 hi).1
    refine ⟨getElem?_terminate_of_mem hw hlt, ?_⟩
    obtain ⟨w, hw, rfl⟩ := hw
    have hin := hcmd w hw
    have heq : w.eq <:+ line := by
      refine List.IsSuffix.trans ?_ hin.suffix
      rw [hin.split]
      exact List.suffix_append _ _
    refine hin.ends ch ?_
    rw [List.suffix_iff_eq_drop.1 heq, List.head?_drop, hi]
    rfl
  · left
    rw [getElem?_terminate fun w hmem hwi => hw ⟨w, hmem, hwi⟩, hi]

/-- If the parser accepts a line, then `nulterminate` gets through the arrays of the command, all of
which end with null pointers in both places.  The strings that the pointers to words then have are
these words, and a character of the line has been overwritten with 0 only if it is white space or a
symbol. -/
theorem nulterminate_words (hnul : '\x00' ∉ line) (hn : 4 * line.length + 4 ≤ n)
    (h : parsecmd n line = .ok (cmd, buf)) :
    cmd.node.nulterminate line.length line = some buf ∧
      (∀ e ∈ cmd.node.execs, ∃ argc, e.Ended argc) ∧
      (∀ w ∈ cmd.node.words, w.In line ∧ Word.read line.length buf w = w.text) ∧
      ∀ (i : ℕ) ch, (line)[i]? = some ch →
        buf[i]? = some ch ∨ buf[i]? = some '\x00' ∧ (whitespace.contains ch = true ∨
          symbols.contains ch = true) := by
  obtain ⟨cmd', hrun, hin, hder⟩ | ⟨msg, hrun⟩ := parsecmd_spec hn
  case inr => exact absurd (h.symm.trans hrun) (by simp)
  obtain ⟨rfl, rfl⟩ := Prod.mk.inj (Except.ok.inj (h.symm.trans hrun))
  have hargvs : ∀ argv ∈ cmd.argvs, argv.length < MAXARGS := fun argv hargv => by
    have := hder.length_argvs (argv.map Word.text) (by
      rw [Cmd.text, argvs_map]
      exact List.mem_map_of_mem hargv)
    rwa [List.length_map] at this
  refine ⟨Cmd.nulterminate_node hargvs line, Cmd.ended_node hargvs, fun w hw => ?_,
    fun i ch hi => ?_⟩
  · rw [Cmd.words_node hargvs] at hw
    rw [nulterminate_eq]
    exact ⟨hin w hw, read_eq hnul hin hw⟩
  · refine (hin.getElem?_nulterminate hi).imp_right (And.imp_right fun hch => ?_)
    rw [wordChar] at hch
    revert hch
    cases whitespace.contains ch <;> cases symbols.contains ch <;> simp

/-- Two words that touch the operators between them. -/
theorem nulterminate_words_touching : ∃ cmd buf, parsecmd 48 "a>b|c d".toList = .ok (cmd, buf) ∧
    (∀ w ∈ cmd.node.words, w.In "a>b|c d".toList ∧ Word.read 7 buf w = w.text) ∧
    buf = ['a', '\x00', 'b', '\x00', 'c', '\x00', 'd'] := by
  obtain ⟨cmd, buf, hrun, hbuf⟩ : ∃ cmd buf, parsecmd 48 "a>b|c d".toList = .ok (cmd, buf) ∧
      buf = ['a', '\x00', 'b', '\x00', 'c', '\x00', 'd'] := by
    exact ⟨_, _, rfl, by decide +kernel⟩
  exact ⟨cmd, buf, hrun, (nulterminate_words (by decide) (by decide) hrun).2.2.1, hbuf⟩

end Xv6.Sh
