import Mathlib.Data.Nat.Notation
import Mathlib.Tactic.Lemma

/-!
# The parser of the shell (`sh.c`)

The functions from `gettoken` to `nulterminate`.  A pointer into the line is what is left of the
line from there, so `s < es` says that it is not empty and `*s` is its first character, or 0.  The
parser's own pointer `*ps` is the state, and `panic` ends the run.  Loops and recursive calls have
fuel.  `malloc` is taken to succeed: the constructors of `sh.c` do not look at what it returns, and
the null pointer would be written to.
-/

namespace Xv6.Sh

/-- The number of places for arguments in a command; the last one is for the null pointer. -/
def MAXARGS : ℕ := 10

lemma MAXARGS_eq : MAXARGS = 10 := rfl

/-- The modes of `open` that redirections use: `O_RDONLY`, and `O_WRONLY|O_CREATE`. -/
def O_RDONLY : ℕ := 0x000

@[inherit_doc O_RDONLY] def O_WRONLY_CREATE : ℕ := 0x001 ||| 0x200

def whitespace : List Char := [' ', '\t', '\r', '\n', '\x0b']

def symbols : List Char := ['<', '|', '>', '&', ';', '(', ')']

/-- The characters that words are made of. -/
def wordChar (c : Char) : Bool := !whitespace.contains c && !symbols.contains c

/-- Two pointers into the line, to the first character of a word and behind the last one. -/
structure Word where
  q : List Char
  eq : List Char
deriving DecidableEq, Repr

/-- `struct cmd`; `W` is what stands for a word. -/
inductive Cmd (W : Type)
  | exec (argv : List W)
  | redir (cmd : Cmd W) (file : W) (mode fd : ℕ)
  | pipe (left right : Cmd W)
  | list (left right : Cmd W)
  | back (cmd : Cmd W)
deriving DecidableEq, Repr

/-- Why a run ends early. -/
inductive Fault
  | panic (msg : String)
  | fuel
deriving DecidableEq, Repr

/-- A part of the parser. -/
abbrev Parser (α : Type) : Type := EStateM Fault (List Char) α

/-- `panic`. -/
def panic {α : Type} (msg : String) : Parser α := throw (.panic msg)

/-- The loop that passes over white space. -/
def skip (s : List Char) : List Char := s.dropWhile whitespace.contains

/-- What `gettoken` returns, the token's first and last character, and where it stands then. -/
def scan (s : List Char) : Char × Word × List Char :=
  match s with
  | [] => ('\x00', ⟨s, s⟩, s)
  | c :: r =>
      if ['|', '(', ')', ';', '&', '<'].contains c then (c, ⟨s, r⟩, r)
      else if c = '>' then
        if r.head? = some '>' then ('+', ⟨s, r.tail⟩, r.tail) else (c, ⟨s, r⟩, r)
      else
        let e := s.dropWhile wordChar
        ('a', ⟨s, e⟩, e)

/-- `gettoken`. -/
def gettoken : Parser (Char × Word) := fun s =>
  let r := scan (skip s)
  .ok (r.1, r.2.1) (skip r.2.2)

/-- `peek`. -/
def peek (toks : List Char) : Parser Bool := fun s =>
  let s := skip s
  .ok (s.head?.any toks.contains) s

/-- Store an argument in the `EXEC` node that `parseexec` has made; redirections stand around it by
then. -/
def Cmd.push {W : Type} : Cmd W → W → Cmd W
  | .exec argv, w => .exec (argv ++ [w])
  | .redir cmd file mode fd, w => .redir (cmd.push w) file mode fd
  | cmd, _ => cmd

/-- `parseredirs`. -/
def parseredirs : ℕ → Cmd Word → Parser (Cmd Word)
  | 0, _ => throw .fuel
  | n + 1, cmd => do
      if ← peek ['<', '>'] then
        let (tok, _) ← gettoken
        let (a, w) ← gettoken
        if a ≠ 'a' then panic "missing file for redirection"
        else if tok = '<' then parseredirs n (.redir cmd w O_RDONLY 0)
        else if tok = '>' then parseredirs n (.redir cmd w O_WRONLY_CREATE 1)
        else if tok = '+' then parseredirs n (.redir cmd w O_WRONLY_CREATE 1)
        else parseredirs n cmd
      else pure cmd

/-- The loop of `parseexec`. -/
def parseargs : ℕ → Cmd Word → ℕ → Parser (Cmd Word)
  | 0, _, _ => throw .fuel
  | n + 1, ret, argc => do
      if ← peek ['|', ')', '&', ';'] then pure ret
      else
        let (tok, w) ← gettoken
        if tok = '\x00' then pure ret
        else if tok ≠ 'a' then panic "syntax"
        else if MAXARGS ≤ argc + 1 then panic "too many args"
        else
          let ret ← parseredirs n (ret.push w)
          parseargs n ret (argc + 1)

/-- The loop of `parseline`. -/
def parsebacks : ℕ → Cmd Word → Parser (Cmd Word)
  | 0, _ => throw .fuel
  | n + 1, cmd => do
      if ← peek ['&'] then
        let _ ← gettoken
        parsebacks n (.back cmd)
      else pure cmd

mutual

/-- `parseline`. -/
def parseline : ℕ → Parser (Cmd Word)
  | 0 => throw .fuel
  | n + 1 => do
      let cmd ← parsepipe n
      let cmd ← parsebacks n cmd
      if ← peek [';'] then
        let _ ← gettoken
        let right ← parseline n
        pure (.list cmd right)
      else pure cmd

/-- `parsepipe`. -/
def parsepipe : ℕ → Parser (Cmd Word)
  | 0 => throw .fuel
  | n + 1 => do
      let cmd ← parseexec n
      if ← peek ['|'] then
        let _ ← gettoken
        let right ← parsepipe n
        pure (.pipe cmd right)
      else pure cmd

/-- `parseexec`. -/
def parseexec : ℕ → Parser (Cmd Word)
  | 0 => throw .fuel
  | n + 1 => do
      if ← peek ['('] then parseblock n
      else
        let ret ← parseredirs n (.exec [])
        parseargs n ret 0

/-- `parseblock`. -/
def parseblock : ℕ → Parser (Cmd Word)
  | 0 => throw .fuel
  | n + 1 => do
      if ← peek ['('] then
        let _ ← gettoken
        let cmd ← parseline n
        if ← peek [')'] then
          let _ ← gettoken
          parseredirs n cmd
        else panic "syntax - missing )"
      else panic "parseblock"

end

/-- Store a 0 behind a word of a line of `len` characters. -/
def Word.terminate (len : ℕ) (buf : List Char) (w : Word) :
    List Char := buf.set (len - w.eq.length) '\x00'

/-- `nulterminate`. -/
def nulterminate (len : ℕ) : Cmd Word → List Char → List Char
  | .exec argv, buf => argv.foldl (Word.terminate len) buf
  | .redir cmd file _ _, buf => Word.terminate len (nulterminate len cmd buf) file
  | .pipe left right, buf => nulterminate len right (nulterminate len left buf)
  | .list left right, buf => nulterminate len right (nulterminate len left buf)
  | .back cmd, buf => nulterminate len cmd buf

/-- `parsecmd`: the command, and the line as `nulterminate` leaves it. -/
def parsecmd (n : ℕ) (line : List Char) : Except Fault (Cmd Word × List Char) :=
  let parse : Parser (Cmd Word) := do
    let cmd ← parseline n
    let _ ← peek []
    if (← get) ≠ [] then panic "syntax" else pure cmd
  match parse line with
  | .ok cmd _ => .ok (cmd, nulterminate line.length cmd line)
  | .error e _ => .error e

end Xv6.Sh
