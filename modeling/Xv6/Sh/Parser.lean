import Mathlib.Data.List.Induction
import Xv6.Sh.Grammar

/-!
# The parser accepts the grammar

`Parsed` is what every part of the parser does: it takes the tokens of a derivation off the line and
returns its command.  Conversely a line that begins with the tokens of a derivation is not refused,
as long as what comes next can follow it there.
-/

namespace Xv6.Sh

open Lib

/-- Replace the words of a command. -/
def Cmd.map {V W : Type} (f : W → V) : Cmd W → Cmd V
  | .exec argv => .exec (argv.map f)
  | .redir cmd file mode fd => .redir (cmd.map f) (f file) mode fd
  | .pipe left right => .pipe (left.map f) (right.map f)
  | .list left right => .list (left.map f) (right.map f)
  | .back cmd => .back (cmd.map f)

/-- The command with its words spelt out. -/
def Cmd.text (cmd : Cmd Word) : Command := cmd.map Word.text

/-- The words of a command. -/
def Cmd.words {W : Type} : Cmd W → List W
  | .exec argv => argv
  | .redir cmd file _ _ => cmd.words ++ [file]
  | .pipe left right => left.words ++ right.words
  | .list left right => left.words ++ right.words
  | .back cmd => cmd.words

/-- All its words are words of a line. -/
def Cmd.In (line : List Char) (cmd : Cmd Word) : Prop := ∀ w ∈ cmd.words, w.In line

section

variable {s s' line : List Char} {t : Tok} {ts us : List Tok} {n argc : ℕ}
    {cmd ret : Cmd Word} {c : Command}
  {rs rs' : List Redirect} {ws ws' : List (List Char)} {N : Symbol}

lemma Word.In.mono {w : Word} (h : w.In s) (hs : s <:+ line) : w.In line :=
  ⟨h.split, h.plain, h.ends, h.suffix.trans hs⟩

/-! ## One turn of each loop -/

lemma starts_cons (toks : List Char) : starts toks (t :: ts) = toks.contains t.char := rfl

lemma starts_word (toks x : List Char) : starts toks (.word x :: ts) = toks.contains 'a' := rfl

lemma code_word (x : List Char) : (Tok.word x).code = 'a' := rfl

/-- Only words are returned as `'a'`. -/
lemma code_eq (h : t.code = 'a') : ∃ x, t = .word x := by
  cases t with
  | word x => exact ⟨x, rfl⟩
  | _ => exact absurd h (by decide)

/-- A redirection symbol, and what it asks for. -/
lemma redirects_iff : starts ['<', '>'] (t :: ts) = true ↔ ∃ mode fd, t.redirects =
    some (mode, fd) := by
  cases t with
  | word x => simp [starts_cons, Tok.char, Tok.redirects]
  | _ => simp [starts_cons, Tok.char, Tok.redirects]

lemma symbol_of_ofChar {c : Char} (h : Tok.ofChar c = some t) :
    ∀ x ∈ [c], symbols.contains x = true := by
  unfold Tok.ofChar at h
  split at h <;> simp_all [symbols]

lemma symbol_amp : Tok.ofChar '&' = some .amp ∧ '&' ≠ '>' := ⟨rfl, by decide⟩

lemma symbol_semi : Tok.ofChar ';' = some .semi ∧ ';' ≠ '>' := ⟨rfl, by decide⟩

lemma symbol_bar : Tok.ofChar '|' = some .bar ∧ '|' ≠ '>' := ⟨rfl, by decide⟩

lemma symbol_lpar : Tok.ofChar '(' = some .lpar ∧ '(' ≠ '>' := ⟨rfl, by decide⟩

lemma symbol_rpar : Tok.ofChar ')' = some .rpar ∧ ')' ≠ '>' := ⟨rfl, by decide⟩

/-- The first token is the symbol that is asked for. -/
lemma starts_iff {c : Char} (hc : Tok.ofChar c = some t ∧ c ≠ '>') :
    starts [c] ts = true ↔ ∃ us, ts = t :: us := by
  cases ts with
  | nil => simp [starts]
  | cons t' us =>
      have hchar : t'.char = c ↔ t' = t := by
        refine ⟨fun h => ?_, fun h => h ▸ (ofChar_eq_some hc.1).1⟩
        obtain ⟨rfl, hne⟩ : c = t'.char ∧ c ≠ '>' := ⟨h.symm, hc.2⟩
        cases t' with
        | gt | app => exact absurd rfl hne
        | word x => exact absurd hc.1 (by simp [Tok.char, Tok.ofChar])
        | _ => exact Option.some.inj hc.1
      rw [starts_cons, List.contains_iff_mem, List.mem_singleton, hchar]
      simp

section

variable {α : Type} {c : Char} (x y : Parser α)

/-- A symbol is looked for and taken off the line. -/
lemma take_symbol (hc : Tok.ofChar c = some t ∧ c ≠ '>') (h : tokenise s = t :: ts) :
    ∃ s', (do if ← peek [c] then let _ ← gettoken; x else y : Parser α) s = x s' ∧ tokenise s' =
      ts ∧ s' <:+ s := by
  have hsym := symbol_of_ofChar hc.1
  obtain ⟨s₁, hpeek, htok₁, hsuf₁⟩ := peek_eq [c] s hsym
  obtain ⟨w, s₂, htake, htok₂, hsuf₂, -⟩ := gettoken_cons (htok₁.trans h)
  refine ⟨s₂, ?_, htok₂, hsuf₂.trans hsuf₁⟩
  rw [bind_of_ok hpeek, if_pos ((starts_iff hc).2 ⟨ts, h⟩), bind_of_ok htake]

/-- It is not there. -/
lemma skip_symbol (hc : Tok.ofChar c = some t ∧ c ≠ '>') (h : ∀ us, tokenise s ≠ t :: us) :
    ∃ s', (do if ← peek [c] then let _ ← gettoken; x else y : Parser α) s = y s' ∧
    tokenise s' = tokenise s ∧
      s' <:+ s := by
  have hsym := symbol_of_ofChar hc.1
  obtain ⟨s₁, hpeek, htok₁, hsuf₁⟩ := peek_eq [c] s hsym
  refine ⟨s₁, ?_, htok₁, hsuf₁⟩
  rw [bind_of_ok hpeek, if_neg fun hstarts => ?_]
  obtain ⟨us, hus⟩ := (starts_iff hc).1 hstarts
  exact h us hus

end

lemma parseredirs_stop (n : ℕ) (cmd : Cmd Word) (h : starts ['<', '>'] (tokenise s) = false) :
    ∃ s', parseredirs (n + 1) cmd s = .ok cmd s' ∧ tokenise s' = tokenise s ∧ s' <:+ s := by
  obtain ⟨s₁, hpeek, htok, hsuf⟩ := peek_eq ['<', '>'] s (by simp [symbols])
  refine ⟨s₁, ?_, htok, hsuf⟩
  rw [parseredirs, bind_of_ok hpeek, h]
  rfl

lemma parseredirs_step (n : ℕ) (cmd : Cmd Word) {mode fd : ℕ} {file : List Char}
    (h : tokenise s = t :: .word file :: ts) (ht : t.redirects = some (mode, fd)) :
    ∃ w s', parseredirs (n + 1) cmd s = parseredirs n (.redir cmd w mode fd) s' ∧ tokenise s' =
      ts ∧ s' <:+ s ∧
      w.text = file ∧ w.In s := by
  obtain ⟨s₁, hpeek, htok₁, hsuf₁⟩ := peek_eq ['<', '>'] s (by simp [symbols])
  obtain ⟨w, s₂, hop, htok₂, hsuf₂, -⟩ := gettoken_cons (htok₁.trans h)
  obtain ⟨w', s₃, hfile, htok₃, hsuf₃, hword⟩ := gettoken_cons htok₂
  obtain ⟨htext, hin⟩ := hword file rfl
  refine ⟨w', s₃, ?_, htok₃, hsuf₃.trans (hsuf₂.trans hsuf₁), htext, hin.mono (hsuf₂.trans hsuf₁)⟩
  rw [parseredirs, bind_of_ok hpeek, h, redirects_iff.2 ⟨mode, fd, ht⟩, if_pos rfl, bind_of_ok hop]
  dsimp only
  rw [bind_of_ok hfile]
  cases t with
  | lt | gt | app => obtain ⟨rfl, rfl⟩ := Prod.mk.inj (Option.some.inj ht); rfl
  | _ => exact absurd ht (by simp [Tok.redirects])

lemma parseredirs_refuse (n : ℕ) (cmd : Cmd Word) (h : tokenise s = t :: ts)
    (ht : starts ['<', '>'] (t :: ts) = true) (hword : ∀ x us, ts ≠ .word x :: us) :
    ∃ msg s', parseredirs (n + 1) cmd s = .error (.panic msg) s' := by
  obtain ⟨s₁, hpeek, htok₁, -⟩ := peek_eq ['<', '>'] s (by simp [symbols])
  obtain ⟨w, s₂, hop, htok₂, -⟩ := gettoken_cons (htok₁.trans h)
  obtain ⟨a, w', s₃, hfile, hne⟩ : ∃ a w' s₃, gettoken s₂ = .ok (a, w') s₃ ∧ a ≠ 'a' := by
    cases ts with
    | nil => exact ⟨_, _, _, gettoken_nil htok₂, by decide⟩
    | cons t' us =>
        obtain ⟨w', s₃, hfile, -⟩ := gettoken_cons htok₂
        refine ⟨_, _, _, hfile, fun hcode => ?_⟩
        obtain ⟨x, rfl⟩ := code_eq hcode
        exact hword x us rfl
  refine ⟨"missing file for redirection", s₃, ?_⟩
  rw [parseredirs, bind_of_ok hpeek, h, ht, if_pos rfl, bind_of_ok hop]
  dsimp only
  rw [bind_of_ok hfile]
  dsimp only
  rw [if_pos hne]
  rfl

lemma parseargs_stop (n : ℕ) (ret : Cmd Word) (argc : ℕ)
    (h : tokenise s = [] ∨ starts ['|', ')', '&', ';'] (tokenise s) = true) :
    ∃ s', parseargs (n + 1) ret argc s = .ok ret s' ∧ tokenise s' = tokenise s ∧ s' <:+ s := by
  obtain ⟨s₁, hpeek, htok, hsuf⟩ := peek_eq ['|', ')', '&', ';'] s (by simp [symbols])
  rcases h with hnil | hstarts
  · refine ⟨[], ?_, by rw [hnil, tokenise_nil], List.nil_suffix⟩
    rw [parseargs, bind_of_ok hpeek, hnil, if_neg (by decide),
      bind_of_ok (gettoken_nil (htok.trans hnil))]
    rfl
  · refine ⟨s₁, ?_, htok, hsuf⟩
    rw [parseargs, bind_of_ok hpeek, hstarts]
    rfl

lemma parseargs_step (n : ℕ) (ret : Cmd Word) {x : List Char} (h : tokenise s = .word x :: ts)
    (hargc : argc + 1 < MAXARGS) :
    ∃ w s', parseargs (n + 1) ret argc s =
        (parseredirs n (ret.push w) >>= fun ret => parseargs n ret (argc + 1)) s' ∧
      tokenise s' = ts ∧ s' <:+ s ∧ w.text = x ∧ w.In s := by
  obtain ⟨s₁, hpeek, htok₁, hsuf₁⟩ := peek_eq ['|', ')', '&', ';'] s (by simp [symbols])
  obtain ⟨w, s₂, hword, htok₂, hsuf₂, htext⟩ := gettoken_cons (htok₁.trans h)
  obtain ⟨htext, hin⟩ := htext x rfl
  refine ⟨w, s₂, ?_, htok₂, hsuf₂.trans hsuf₁, htext, hin.mono hsuf₁⟩
  rw [parseargs, bind_of_ok hpeek, h, starts_word, if_neg (by decide), bind_of_ok hword]
  dsimp only
  rw [code_word, if_neg (by decide), if_neg (by decide), if_neg (by omega)]

lemma parseargs_refuse (n : ℕ) (ret : Cmd Word) (argc : ℕ) (h : tokenise s = t :: ts)
    (hstarts : starts ['|', ')', '&', ';'] (t :: ts) = false) (ht :
    (∀ x, t ≠ .word x) ∨ MAXARGS ≤ argc + 1) : ∃ msg s', parseargs (n + 1) ret argc s =
      .error (.panic msg) s' := by
  obtain ⟨s₁, hpeek, htok₁, -⟩ := peek_eq ['|', ')', '&', ';'] s (by simp [symbols])
  obtain ⟨w, s₂, hword, -⟩ := gettoken_cons (htok₁.trans h)
  have hzero : t.code ≠ '\x00' := by
    cases t with
    | word x => exact (by decide : 'a' ≠ '\x00')
    | _ => decide
  by_cases hcode : t.code = 'a'
  · obtain ⟨x, rfl⟩ := code_eq hcode
    refine ⟨"too many args", s₂, ?_⟩
    rw [parseargs, bind_of_ok hpeek, h, hstarts, if_neg (by decide), bind_of_ok hword]
    dsimp only
    rw [if_neg hzero, if_neg (not_not.2 hcode), if_pos (ht.resolve_left fun hx => hx x rfl)]
    rfl
  · refine ⟨"syntax", s₂, ?_⟩
    rw [parseargs, bind_of_ok hpeek, h, hstarts, if_neg (by decide), bind_of_ok hword]
    dsimp only
    rw [if_neg hzero, if_pos hcode]
    rfl

/-! ## The loops -/

/-- A run that fails does so with a message. -/
def Refused (e : Fault) (_ : List Char) : Prop := ∃ msg, e = .panic msg

/-- `redir*`. -/
lemma parseredirs_spec (hs : s <:+ line) (hcmd : cmd.In line) (hn : (tokenise s).length < n) :
    Wp (parseredirs n cmd)
      (fun c s' => s' <:+ s ∧ c.In line ∧
        ∃ ts rs, tokenise s = ts ++ tokenise s' ∧ Redirs ts rs ∧ c.text = redirected cmd.text rs)
      Refused s := by
  induction n generalizing s cmd with
  | zero => omega
  | succ n ih =>
      cases hstarts : starts ['<', '>'] (tokenise s) with
      | false =>
          obtain ⟨s', hrun, htok, hsuf⟩ := parseredirs_stop n cmd hstarts
          exact .of_ok hrun ⟨hsuf, hcmd, [], [], htok.symm, .nil, rfl⟩
      | true =>
          cases htok : tokenise s with
          | nil =>
              rw [htok] at hstarts
              exact absurd hstarts (by decide)
          | cons t ts =>
              rw [htok] at hstarts
              by_cases hword : ∃ x us, ts = .word x :: us
              · obtain ⟨x, ts, rfl⟩ := hword
                obtain ⟨mode, fd, ht⟩ := redirects_iff.1 hstarts
                obtain ⟨w, s₁, hrun, rfl, hsuf₁, rfl, hin⟩ := parseredirs_step n cmd htok ht
                rw [htok, List.length_cons, List.length_cons] at hn
                have hcmd₁ : (Cmd.redir cmd w mode fd).In line := fun x hx => by
                  rw [Cmd.words, List.mem_append, List.mem_singleton] at hx
                  rcases hx with hx | rfl
                  · exact hcmd x hx
                  · exact hin.mono hs
                refine .of_eq hrun (.mono (ih (hsuf₁.trans hs) hcmd₁ (by omega)) ?_ fun _ _ => id)
                rintro c s' ⟨hsuf, hc, us, rs, hus, hrs, htext⟩
                exact ⟨hsuf.trans hsuf₁, hc, _, _, congrArg (t :: .word w.text :: ·) hus,
                  .cons ht hrs, htext⟩
              · obtain ⟨msg, s', hrun⟩ := parseredirs_refuse n cmd htok hstarts
                  fun x us heq => hword ⟨x, us, heq⟩
                exact .of_error hrun ⟨msg, rfl⟩

/-- `redir*` is not refused. -/
lemma parseredirs_complete (cmd : Cmd Word) (h : Redirs ts rs) (hs : tokenise s = ts ++ us)
    (hus : starts ['<', '>'] us = false) (hn : ts.length < n) :
    ∃ c s', parseredirs n cmd s = .ok c s' ∧ tokenise s' = us ∧ c.text =
      redirected cmd.text rs := by
  induction h generalizing n s cmd with
  | nil =>
      obtain ⟨n, rfl⟩ : ∃ m, n = m + 1 := ⟨n - 1, by omega⟩
      obtain ⟨s', hrun, htok, -⟩ := parseredirs_stop n cmd (s := s) (by rw [hs]; exact hus)
      exact ⟨cmd, s', hrun, htok.trans hs, rfl⟩
  | @cons op file mode fd ts rs hop _ ih =>
      obtain ⟨n, rfl⟩ : ∃ m, n = m + 1 := ⟨n - 1, by omega⟩
      rw [List.length_cons, List.length_cons] at hn
      obtain ⟨w, s₁, hrun, htok, -, rfl, -⟩ := parseredirs_step n cmd hs hop
      obtain ⟨c, s', hrun', htok', htext⟩ := ih (n := n) (.redir cmd w mode fd) htok (by omega)
      exact ⟨c, s', hrun.trans hrun', htok', htext⟩

/-- A command that is filled in after redirections have been put around it. -/
lemma text_push {w : Word} (h : ret.text = redirected (.exec ws) rs) :
    (ret.push w).text = redirected (.exec (ws ++ [w.text])) rs ∧ ∀ x ∈ (ret.push w).words, x ∈
      ret.words ∨ x = w := by
  induction rs using List.reverseRecOn generalizing ret with
  | nil =>
      cases ret with
      | exec argv =>
          obtain rfl : argv.map Word.text = ws := Cmd.exec.inj h
          refine ⟨?_, fun x hx => by simpa [Cmd.push, Cmd.words] using hx⟩
          simp [Cmd.push, Cmd.text, Cmd.map, redirected]
      | _ => exact absurd h (by simp [Cmd.text, Cmd.map, redirected])
  | append_singleton rs r ih =>
      rw [redirected, List.foldl_append, List.foldl_cons, List.foldl_nil] at h
      cases ret with
      | redir cmd file mode fd =>
          obtain ⟨hcmd, hfile, hmode, hfd⟩ := Cmd.redir.inj h
          obtain ⟨htext, hwords⟩ := ih hcmd
          refine ⟨?_, fun x hx => ?_⟩
          · rw [redirected, List.foldl_append, List.foldl_cons, List.foldl_nil]
            exact congr (congr (congr (congrArg _ htext) hfile) hmode) hfd
          · rw [Cmd.push, Cmd.words, List.mem_append] at hx
            rw [Cmd.words, List.mem_append]
            rcases hx with hx | hx
            · exact (hwords x hx).imp_left .inl
            · exact .inl (.inr hx)
      | _ => exact absurd h (by simp [Cmd.text, Cmd.map])

lemma redirected_append (c : Command) (rs rs' : List Redirect) :
    redirected (redirected c rs) rs' = redirected c (rs ++ rs') := by
      rw [redirected, redirected, redirected, List.foldl_append]

/-- `(word redir*)*`. -/
lemma parseargs_spec (hs : s <:+ line) (hret : ret.In line)
    (htext : ret.text = redirected (.exec ws) rs) (hargc : ws.length = argc) (hlt : argc < MAXARGS)
    (hn : (tokenise s).length < n) :
    Wp (parseargs n ret argc)
      (fun c s' => s' <:+ s ∧ c.In line ∧ ∃ ts ws' rs', tokenise s = ts ++ tokenise s' ∧
        Words ts ws' rs' ∧
        ws.length + ws'.length < MAXARGS ∧ c.text = redirected (.exec (ws ++ ws')) (rs ++ rs'))
      Refused s := by
  induction n generalizing s ret ws rs argc with
  | zero => omega
  | succ n ih =>
      by_cases hstop : tokenise s = [] ∨ starts ['|', ')', '&', ';'] (tokenise s) = true
      · obtain ⟨s', hrun, htok, hsuf⟩ := parseargs_stop n ret argc hstop
        refine .of_ok hrun ⟨hsuf, hret, [], [], [], htok.symm, .nil, by rw [hargc]; exact hlt, ?_⟩
        rw [List.append_nil, List.append_nil, htext]
      · rw [not_or, Bool.not_eq_true] at hstop
        cases htok : tokenise s with
        | nil => exact absurd htok hstop.1
        | cons t ts =>
            rw [htok] at hstop hn
            by_cases hword : (∃ x, t = .word x) ∧ argc + 1 < MAXARGS
            · obtain ⟨⟨x, rfl⟩, hargc'⟩ := hword
              obtain ⟨w, s₁, hrun, rfl, hsuf₁, rfl, hin⟩ := parseargs_step n ret htok hargc'
              obtain ⟨hpush, hwords⟩ := text_push (w := w) htext
              have hret₁ : (ret.push w).In line := fun x hx => by
                rcases hwords x hx with hx | rfl
                · exact hret x hx
                · exact hin.mono hs
              rw [List.length_cons] at hn
              refine .of_eq hrun
                (.of_bind (.mono (parseredirs_spec (hsuf₁.trans hs) hret₁ (by omega)) ?_
                fun _ _ => id))
              rintro c₂ s₂ ⟨hsuf₂, hc₂, ts₂, rs₂, htok₂, hrs₂, htext₂⟩
              have hlen := congrArg List.length htok₂
              rw [List.length_append] at hlen
              rw [hpush, redirected_append] at htext₂
              refine .mono (ih (hsuf₂.trans (hsuf₁.trans hs)) hc₂ htext₂ (by simp [hargc])
                hargc' (by omega)) ?_ fun _ _ => id
              rintro c s' ⟨hsuf, hc, us, ws', rs', hus, hws', hmax, htext'⟩
              refine ⟨hsuf.trans (hsuf₂.trans hsuf₁), hc, _, _, _, ?_, .cons (w := w.text)
                hrs₂ hws', ?_, ?_⟩
              · rw [htok₂, hus, List.cons_append, List.append_assoc]
              · rw [List.length_append, List.length_singleton] at hmax
                rw [List.length_cons]
                omega
              · rw [htext']
                simp only [List.append_assoc, List.singleton_append]
            · obtain ⟨msg, s', hrun⟩ := parseargs_refuse n ret argc htok hstop.2 (by
                by_cases hargc' : MAXARGS ≤ argc + 1
                · exact .inr hargc'
                · exact .inl fun x hx => hword ⟨⟨x, hx⟩, by omega⟩)
              exact .of_error hrun ⟨msg, rfl⟩

/-- `(word redir*)*` does not begin with a redirection. -/
lemma Words.not_redirects (h : Words ts ws rs) (hus : starts ['<', '>'] us = false) :
    starts ['<', '>'] (ts ++ us) = false := by
  cases h with
  | nil => exact hus
  | cons _ _ => rfl

/-- `(word redir*)*` is not refused. -/
lemma parseargs_complete (h : Words ts ws' rs') (hs : tokenise s = ts ++ us)
    (hus : us = [] ∨ starts ['|', ')', '&', ';'] us = true) (hredir : starts ['<', '>'] us = false)
    (htext : ret.text = redirected (.exec ws) rs) (hargc : ws.length = argc)
    (hlt : argc + ws'.length < MAXARGS) (hn : ts.length < n) :
    ∃ c s', parseargs n ret argc s = .ok c s' ∧ tokenise s' = us ∧ c.text =
      redirected (.exec (ws ++ ws')) (rs ++ rs') := by
  induction h generalizing n s ret ws rs argc with
  | nil =>
      obtain ⟨n, rfl⟩ : ∃ m, n = m + 1 := ⟨n - 1, by omega⟩
      obtain ⟨s', hrun, htok, -⟩ := parseargs_stop n ret argc (s := s) (by rw [hs]; exact hus)
      exact ⟨ret, s', hrun, htok.trans hs, by rw [List.append_nil, List.append_nil, htext]⟩
  | @cons x ts₁ ts₂ ws' rs₁ rs₂ hredirs hwords ih =>
      obtain ⟨n, rfl⟩ : ∃ m, n = m + 1 := ⟨n - 1, by omega⟩
      rw [List.length_cons, List.length_append] at hn
      rw [List.length_cons] at hlt
      rw [List.cons_append, List.append_assoc] at hs
      obtain ⟨w, s₁, hrun, htok₁, -, rfl, -⟩ := parseargs_step n ret hs
        (show argc + 1 < MAXARGS by omega)
      obtain ⟨c₂, s₂, hrun₂, htok₂, htext₂⟩ := parseredirs_complete (n := n)
        (ret.push w) hredirs htok₁ (hwords.not_redirects hredir) (by omega)
      rw [(text_push (w := w) htext).1, redirected_append] at htext₂
      have hargc₂ : (ws ++ [w.text]).length = argc + 1 := by
        rw [List.length_append, hargc, List.length_singleton]
      obtain ⟨c, s', hrun', htok, htext'⟩ := ih (n := n) htok₂ htext₂ hargc₂ (by omega) (by omega)
      refine ⟨c, s', ?_, htok, ?_⟩
      · rw [hrun, bind_of_ok hrun₂, hrun']
      · rw [htext']
        simp only [List.append_assoc, List.singleton_append]

/-- `'&'*`. -/
lemma parsebacks_spec (hcmd : cmd.In line) (hn : (tokenise s).length < n) :
    Wp (parsebacks n cmd)
      (fun c s' => s' <:+ s ∧ c.In line ∧
        ∃ k, tokenise s = List.replicate k .amp ++ tokenise s' ∧ c.text = Cmd.back^[k] cmd.text)
      Refused s := by
  induction n generalizing s cmd with
  | zero => omega
  | succ n ih =>
      rw [parsebacks]
      by_cases hamp : ∃ ts, tokenise s = .amp :: ts
      · obtain ⟨ts, htok⟩ := hamp
        obtain ⟨s₁, hrun, rfl, hsuf₁⟩ := take_symbol (parsebacks n (.back cmd))
          (pure cmd) symbol_amp htok
        rw [htok, List.length_cons] at hn
        have hback : (Cmd.back cmd).In line := hcmd
        refine .of_eq hrun (.mono (ih hback (by omega)) ?_ fun _ _ => id)
        rintro c s' ⟨hsuf, hc, k, htok', htext⟩
        refine ⟨hsuf.trans hsuf₁, hc, k + 1, ?_, ?_⟩
        · rw [htok, htok']
          rfl
        · rw [htext, Function.iterate_succ_apply]
          rfl
      · obtain ⟨s', hrun, htok, hsuf⟩ := skip_symbol (parsebacks n (.back cmd))
          (pure cmd) symbol_amp fun ts hts => hamp ⟨ts, hts⟩
        exact .of_eq hrun (.of_pure ⟨hsuf, hcmd, 0, htok.symm, rfl⟩)

lemma parsebacks_complete {k : ℕ} (cmd : Cmd Word) (hs : tokenise s = List.replicate k .amp ++ us)
    (hus : ∀ vs, us ≠ .amp :: vs) (hn : k < n) : ∃ c s', parsebacks n cmd s = .ok c s' ∧
    tokenise s' = us ∧ c.text = Cmd.back^[k] cmd.text := by
  induction k generalizing n s cmd with
  | zero =>
      obtain ⟨n, rfl⟩ : ∃ m, n = m + 1 := ⟨n - 1, by omega⟩
      obtain ⟨s', hrun, htok, -⟩ := skip_symbol (parsebacks n (.back cmd)) (pure cmd)
        (s := s) symbol_amp (by rw [hs]; exact hus)
      exact ⟨cmd, s', hrun, htok.trans hs, rfl⟩
  | succ k ih =>
      obtain ⟨n, rfl⟩ : ∃ m, n = m + 1 := ⟨n - 1, by omega⟩
      obtain ⟨s₁, hrun, htok, -⟩ := take_symbol (parsebacks n (.back cmd)) (pure cmd) symbol_amp hs
      obtain ⟨c, s', hrun', htok', htext⟩ := ih (n := n) (.back cmd) htok (by omega)
      exact ⟨c, s', hrun.trans hrun', htok', htext⟩

/-! ## The recursive functions -/

/-- The function for a symbol of the grammar. -/
def Symbol.parse : Symbol → ℕ → Parser (Cmd Word)
  | .line => parseline
  | .pipe => parsepipe
  | .exec => parseexec

/-- Fuel for a line of `m` tokens. -/
def Symbol.fuel : Symbol → ℕ → ℕ
  | .line, m => 4 * m + 4
  | .pipe, m => 4 * m + 3
  | .exec, m => 4 * m + 2

/-- The tokens of a derivation have been taken off the line. -/
structure Parsed (line s : List Char) (N : Symbol) (c : Cmd Word) (s' : List Char) : Prop where
  suffix : s' <:+ s
  words : c.In line
  derives : ∃ ts, tokenise s = ts ++ tokenise s' ∧ Derives N ts c.text

/-- `pipe '&'* [';' line]`. -/
lemma parseline_spec (hs : s <:+ line) (hn : Symbol.line.fuel (tokenise s).length ≤ n + 1)
    (ihline : ∀ s', s' <:+ line → Symbol.line.fuel (tokenise s').length ≤ n → Wp (parseline n)
      (Parsed line s' .line) Refused s') (ihpipe :
      Wp (parsepipe n) (Parsed line s .pipe) Refused s) :
    Wp (parseline (n + 1)) (Parsed line s .line) Refused s := by
  rw [Symbol.fuel] at hn
  rw [parseline]
  refine .of_bind (.mono ihpipe ?_ fun _ _ => id)
  rintro c₁ s₁ ⟨hsuf₁, hc₁, ts, htok₁, hpipe⟩
  have hlen₁ := congrArg List.length htok₁
  rw [List.length_append] at hlen₁
  refine .of_bind (.mono (parsebacks_spec hc₁ (by omega)) ?_ fun _ _ => id)
  rintro c₂ s₂ ⟨hsuf₂, hc₂, k, htok₂, htext₂⟩
  have hlen₂ := congrArg List.length htok₂
  rw [List.length_append] at hlen₂
  by_cases hsemi : ∃ us, tokenise s₂ = .semi :: us
  · obtain ⟨us, hus⟩ := hsemi
    obtain ⟨s₃, hrun, rfl, hsuf₃⟩ := take_symbol (parseline n >>= fun right =>
      pure (.list c₂ right)) (pure c₂) symbol_semi hus
    rw [hus, List.length_cons] at hlen₂
    refine .of_eq hrun (.of_bind (.mono (ihline s₃ ?_ ?_) ?_ fun _ _ => id))
    · exact hsuf₃.trans (hsuf₂.trans (hsuf₁.trans hs))
    · rw [Symbol.fuel]
      omega
    rintro c₄ s₄ ⟨hsuf₄, hc₄, vs, htok₄, hline⟩
    refine .of_pure ⟨hsuf₄.trans (hsuf₃.trans (hsuf₂.trans hsuf₁)),
      List.forall_mem_append.2 ⟨hc₂, hc₄⟩,
      ts ++ (List.replicate k .amp ++ .semi :: vs), ?_, ?_⟩
    · rw [htok₁, htok₂, hus, htok₄]
      simp only [List.append_assoc, List.cons_append]
    · have hseq := hpipe.seq k hline
      rwa [← htext₂] at hseq
  · obtain ⟨s₃, hrun, htok₃, hsuf₃⟩ := skip_symbol (parseline n >>= fun right =>
      pure (.list c₂ right)) (pure c₂) symbol_semi fun us hus => hsemi ⟨us, hus⟩
    refine .of_eq hrun (.of_pure ⟨hsuf₃.trans (hsuf₂.trans hsuf₁), hc₂, ts ++ List.replicate k .amp,
      ?_, ?_⟩)
    · rw [htok₁, htok₂, htok₃, List.append_assoc]
    · rw [htext₂]
      exact .line k hpipe

/-- `exec ['|' pipe]`. -/
lemma parsepipe_spec (hs : s <:+ line) (hn : Symbol.pipe.fuel (tokenise s).length ≤ n + 1)
    (ihpipe : ∀ s', s' <:+ line → Symbol.pipe.fuel (tokenise s').length ≤ n → Wp (parsepipe n)
      (Parsed line s' .pipe) Refused s') (ihexec :
      Wp (parseexec n) (Parsed line s .exec) Refused s) :
    Wp (parsepipe (n + 1)) (Parsed line s .pipe) Refused s := by
  rw [Symbol.fuel] at hn
  rw [parsepipe]
  refine .of_bind (.mono ihexec ?_ fun _ _ => id)
  rintro c₁ s₁ ⟨hsuf₁, hc₁, ts, htok₁, hexec⟩
  have hlen₁ := congrArg List.length htok₁
  rw [List.length_append] at hlen₁
  by_cases hbar : ∃ us, tokenise s₁ = .bar :: us
  · obtain ⟨us, hus⟩ := hbar
    obtain ⟨s₂, hrun, rfl, hsuf₂⟩ := take_symbol (parsepipe n >>= fun right =>
      pure (.pipe c₁ right)) (pure c₁) symbol_bar hus
    rw [hus, List.length_cons] at hlen₁
    refine .of_eq hrun (.of_bind (.mono (ihpipe s₂ ?_ ?_) ?_ fun _ _ => id))
    · exact hsuf₂.trans (hsuf₁.trans hs)
    · rw [Symbol.fuel]
      omega
    rintro c₃ s₃ ⟨hsuf₃, hc₃, vs, htok₃, hpipe⟩
    refine .of_pure ⟨hsuf₃.trans (hsuf₂.trans hsuf₁), List.forall_mem_append.2 ⟨hc₁, hc₃⟩,
      ts ++ .bar :: vs, ?_,
      .pipe hexec hpipe⟩
    rw [htok₁, hus, htok₃, List.append_assoc, List.cons_append]
  · obtain ⟨s₂, hrun, htok₂, hsuf₂⟩ := skip_symbol (parsepipe n >>= fun right =>
      pure (.pipe c₁ right)) (pure c₁) symbol_bar fun us hus => hbar ⟨us, hus⟩
    exact .of_eq hrun (.of_pure ⟨hsuf₂.trans hsuf₁, hc₁, ts, by rw [htok₁, htok₂], .exec hexec⟩)

/-- `'(' line ')' redir*`. -/
lemma parseblock_spec (hs : s <:+ line) (htok : tokenise s = .lpar :: ts)
    (hn : 4 * ts.length + 4 ≤ n)
    (ihline : ∀ s', s' <:+ line → Symbol.line.fuel (tokenise s').length ≤ n → Wp (parseline n)
      (Parsed line s' .line) Refused s') :
    Wp (parseblock (n + 1)) (Parsed line s .exec) Refused s := by
  rw [parseblock]
  obtain ⟨s₁, hrun, rfl, hsuf₁⟩ := take_symbol (parseline n >>= fun cmd => do
    if ← peek [')'] then let _ ← gettoken; parseredirs n cmd else panic "syntax - missing )")
      (panic "parseblock")
    symbol_lpar htok
  refine .of_eq hrun (.of_bind (.mono (ihline s₁ (hsuf₁.trans hs) hn) ?_ fun _ _ => id))
  rintro c₂ s₂ ⟨hsuf₂, hc₂, us, htok₂, hline⟩
  have hlen₂ := congrArg List.length htok₂
  rw [List.length_append] at hlen₂
  by_cases hrpar : ∃ vs, tokenise s₂ = .rpar :: vs
  · obtain ⟨vs, hvs⟩ := hrpar
    obtain ⟨s₃, hrun₃, rfl, hsuf₃⟩ := take_symbol (parseredirs n c₂) (panic "syntax - missing )")
      symbol_rpar hvs
    rw [hvs, List.length_cons] at hlen₂
    have hsuf₃' := hsuf₃.trans (hsuf₂.trans hsuf₁)
    refine .of_eq hrun₃ (.mono (parseredirs_spec (hsuf₃'.trans hs) hc₂ (by omega)) ?_ fun _ _ => id)
    rintro c s' ⟨hsuf, hc, us', rs, htok', hrs, htext⟩
    refine ⟨hsuf.trans hsuf₃', hc, .lpar :: (us ++ .rpar :: us'), ?_, ?_⟩
    · rw [htok, htok₂, hvs, htok']
      simp only [List.append_assoc, List.cons_append]
    · rw [htext]
      exact .block hline hrs
  · obtain ⟨s₃, hrun₃, -⟩ := skip_symbol (parseredirs n c₂) (panic "syntax - missing )") symbol_rpar
      fun vs hvs => hrpar ⟨vs, hvs⟩
    exact .of_eq hrun₃ ⟨_, rfl⟩

/-- `exec`. -/
lemma parseexec_spec (hs : s <:+ line) (hn : Symbol.exec.fuel (tokenise s).length ≤ n + 1)
    (ihblock : ∀ s' ts, s' <:+ line → tokenise s' = .lpar :: ts → 4 * ts.length + 5 ≤ n →
      Wp (parseblock n) (Parsed line s' .exec) Refused s') :
    Wp (parseexec (n + 1)) (Parsed line s .exec) Refused s := by
  rw [Symbol.fuel] at hn
  rw [parseexec]
  obtain ⟨s₁, hpeek, htok₁, hsuf₁⟩ := peek_eq ['('] s (symbol_of_ofChar symbol_lpar.1)
  refine .of_bind (.of_ok hpeek ?_)
  by_cases hlpar : ∃ ts, tokenise s = .lpar :: ts
  · obtain ⟨ts, hts⟩ := hlpar
    rw [if_pos ((starts_iff symbol_lpar).2 ⟨ts, hts⟩)]
    rw [hts, List.length_cons] at hn
    refine .mono (ihblock s₁ ts (hsuf₁.trans hs) (htok₁.trans hts) (by omega)) ?_ fun _ _ => id
    rintro c s' ⟨hsuf, hc, us, hus, hder⟩
    exact ⟨hsuf.trans hsuf₁, hc, us, htok₁.symm.trans hus, hder⟩
  · rw [if_neg fun hstarts => hlpar ((starts_iff symbol_lpar).1 hstarts)]
    have hn₁ : (tokenise s₁).length < n := by
      rw [htok₁]
      omega
    have hempty : (Cmd.exec []).In line := fun w hw => absurd hw List.not_mem_nil
    refine .of_bind (.mono (parseredirs_spec (hsuf₁.trans hs) hempty hn₁) ?_ fun _ _ => id)
    rintro c₂ s₂ ⟨hsuf₂, hc₂, ts, rs, htok₂, hrs, htext₂⟩
    have hlen₂ := congrArg List.length htok₂
    rw [List.length_append] at hlen₂
    refine .mono (parseargs_spec (hsuf₂.trans (hsuf₁.trans hs)) hc₂ htext₂ rfl (by decide)
      (by omega)) ?_ fun _ _ => id
    rintro c s' ⟨hsuf, hc, us, ws, rs', htok', hwords, hmax, htext⟩
    refine ⟨hsuf.trans (hsuf₂.trans hsuf₁), hc, ts ++ us, ?_, ?_⟩
    · rw [← htok₁, htok₂, htok', List.append_assoc]
    · rw [htext]
      refine .simple hrs hwords ?_
      rw [List.length_append]
      omega

/-- With enough fuel each function takes the tokens of a derivation off the line, or refuses it. -/
lemma parse_spec (n : ℕ) :
    (∀ N s, s <:+ line → Symbol.fuel N (tokenise s).length ≤ n → Wp (N.parse n)
      (Parsed line s N) Refused s) ∧
      ∀ s ts, s <:+ line → tokenise s = .lpar :: ts → 4 * ts.length + 5 ≤ n →
        Wp (parseblock n) (Parsed line s .exec) Refused s := by
  induction n with
  | zero =>
      refine ⟨fun N s _ hn => ?_, fun s ts _ _ hn => by omega⟩
      cases N with
      | line | pipe | exec => exact absurd hn (by rw [Symbol.fuel]; omega)
  | succ n ih =>
      obtain ⟨ih, ihblock⟩ := ih
      refine ⟨fun N s hs hn => ?_, fun s ts hs htok hn => parseblock_spec hs htok
        (by omega) (ih .line)⟩
      cases N with
      | line =>
          exact parseline_spec hs hn (ih .line)
            (ih .pipe s hs (by simp only [Symbol.fuel] at hn ⊢; omega))
      | pipe =>
          exact parsepipe_spec hs hn (ih .pipe)
            (ih .exec s hs (by simp only [Symbol.fuel] at hn ⊢; omega))
      | exec => exact parseexec_spec hs hn ihblock

/-! ## What is not refused -/

/-- What can come after a symbol of the grammar. -/
def Symbol.follow : Symbol → List Tok
  | .line => [.rpar]
  | .pipe => [.amp, .semi, .rpar]
  | .exec => [.bar, .amp, .semi, .rpar]

/-- The next token can come after it, or there is none. -/
def Symbol.Follows (N : Symbol) (us : List Tok) : Prop := ∀ t ∈ us.head?, t ∈ N.follow

/-- The function for a symbol does not refuse what the symbol derives. -/
def Accepts (N : Symbol) (ts : List Tok) (c : Command) : Prop :=
  ∀ {n : ℕ} {s : List Char} {us : List Tok}, tokenise s = ts ++ us → N.Follows us →
    N.fuel (tokenise s).length ≤ n → ∃ cmd s', N.parse n s = .ok cmd s' ∧ tokenise s' =
    us ∧ cmd.text = c

lemma Symbol.Follows.ne (h : N.Follows us) (ht : t ∉ N.follow) (vs : List Tok) : us ≠ t :: vs := by
  rintro rfl
  exact ht (h t rfl)

/-- What can come after a pipe can come after a command. -/
lemma Symbol.Follows.mono {M : Symbol} (h : N.Follows us) (hsub : N.follow ⊆ M.follow) :
    M.Follows us :=
  fun t ht => hsub (h t ht)

lemma follows_amps {k : ℕ} (h : Symbol.pipe.Follows us) :
    Symbol.pipe.Follows (List.replicate k .amp ++ us) := by
  cases k with
  | zero => exact h
  | succ k =>
      rintro t ht
      obtain rfl := Option.some.inj ht
      decide

lemma accepts_line {k : ℕ} (h : Accepts .pipe ts c) : Accepts .line (ts ++ List.replicate k .amp)
    (Cmd.back^[k] c) := by
  intro n s vs htok hfollow hn
  obtain ⟨n, rfl⟩ : ∃ m, n = m + 1 := ⟨n - 1, by rw [Symbol.fuel] at hn; omega⟩
  simp only [Symbol.fuel] at hn
  rw [List.append_assoc] at htok
  have hlen := congrArg List.length htok
  simp only [List.length_append, List.length_replicate] at hlen
  obtain ⟨c₁, s₁, hrun₁, htok₁, rfl⟩ := h (n := n) htok (follows_amps (hfollow.mono (by decide)))
    (by simp only [Symbol.fuel]; omega)
  obtain ⟨c₂, s₂, hrun₂, htok₂, htext₂⟩ := parsebacks_complete c₁ htok₁ (hfollow.ne (by decide))
    (show k < n by omega)
  obtain ⟨s₃, hrun₃, htok₃, -⟩ := skip_symbol (parseline n >>= fun right => pure (.list c₂ right))
    (pure c₂) symbol_semi (by rw [htok₂]; exact hfollow.ne (by decide))
  refine ⟨c₂, s₃, ?_, htok₃.trans htok₂, htext₂⟩
  simp only [Symbol.parse] at hrun₁ ⊢
  rw [parseline, bind_of_ok hrun₁, bind_of_ok hrun₂, hrun₃]
  rfl

lemma accepts_seq {k : ℕ} {d : Command} (h : Accepts .pipe ts c) (h' : Accepts .line us d) :
    Accepts .line (ts ++ (List.replicate k .amp ++ .semi :: us)) (.list (Cmd.back^[k] c) d) := by
  intro n s vs htok hfollow hn
  obtain ⟨n, rfl⟩ : ∃ m, n = m + 1 := ⟨n - 1, by rw [Symbol.fuel] at hn; omega⟩
  simp only [Symbol.fuel] at hn
  rw [List.append_assoc, List.append_assoc, List.cons_append] at htok
  have hlen := congrArg List.length htok
  simp only [List.length_append, List.length_replicate, List.length_cons] at hlen
  obtain ⟨c₁, s₁, hrun₁, htok₁, rfl⟩ := h (n := n) htok
    (follows_amps fun t ht => by obtain rfl := Option.some.inj ht; decide)
    (by simp only [Symbol.fuel]; omega)
  obtain ⟨c₂, s₂, hrun₂, htok₂, htext₂⟩ := parsebacks_complete c₁ htok₁ (by simp)
    (show k < n by omega)
  obtain ⟨s₃, hrun₃, htok₃, -⟩ := take_symbol (parseline n >>= fun right => pure (.list c₂ right))
    (pure c₂) symbol_semi htok₂
  obtain ⟨c₄, s₄, hrun₄, htok₄, rfl⟩ := h' (n := n) htok₃ hfollow
    (by simp only [Symbol.fuel, htok₃, List.length_append]; omega)
  refine ⟨.list c₂ c₄, s₄, ?_, htok₄, by rw [← htext₂]; rfl⟩
  simp only [Symbol.parse] at hrun₁ hrun₄ ⊢
  rw [parseline, bind_of_ok hrun₁, bind_of_ok hrun₂, hrun₃, bind_of_ok hrun₄]
  rfl

lemma accepts_exec (h : Accepts .exec ts c) : Accepts .pipe ts c := by
  intro n s vs htok hfollow hn
  obtain ⟨n, rfl⟩ : ∃ m, n = m + 1 := ⟨n - 1, by rw [Symbol.fuel] at hn; omega⟩
  simp only [Symbol.fuel] at hn
  obtain ⟨c₁, s₁, hrun₁, htok₁, rfl⟩ := h (n := n) htok (hfollow.mono (by decide))
    (by simp only [Symbol.fuel]; omega)
  obtain ⟨s₂, hrun₂, htok₂, -⟩ := skip_symbol (parsepipe n >>= fun right => pure (.pipe c₁ right))
    (pure c₁) symbol_bar (by rw [htok₁]; exact hfollow.ne (by decide))
  refine ⟨c₁, s₂, ?_, htok₂.trans htok₁, rfl⟩
  simp only [Symbol.parse] at hrun₁ ⊢
  rw [parsepipe, bind_of_ok hrun₁, hrun₂]
  rfl

lemma accepts_pipe {d : Command} (h : Accepts .exec ts c) (h' : Accepts .pipe us d) :
    Accepts .pipe (ts ++ .bar :: us) (.pipe c d) := by
  intro n s vs htok hfollow hn
  obtain ⟨n, rfl⟩ : ∃ m, n = m + 1 := ⟨n - 1, by rw [Symbol.fuel] at hn; omega⟩
  simp only [Symbol.fuel] at hn
  rw [List.append_assoc, List.cons_append] at htok
  have hlen := congrArg List.length htok
  simp only [List.length_append, List.length_cons] at hlen
  obtain ⟨c₁, s₁, hrun₁, htok₁, rfl⟩ :=
    h (n := n) htok (fun t ht => by obtain rfl := Option.some.inj ht; decide)
    (by simp only [Symbol.fuel]; omega)
  obtain ⟨s₂, hrun₂, htok₂, -⟩ := take_symbol (parsepipe n >>= fun right => pure (.pipe c₁ right))
    (pure c₁) symbol_bar htok₁
  obtain ⟨c₃, s₃, hrun₃, htok₃, rfl⟩ := h' (n := n) htok₂ hfollow
    (by simp only [Symbol.fuel, htok₂, List.length_append]; omega)
  refine ⟨.pipe c₁ c₃, s₃, ?_, htok₃, rfl⟩
  simp only [Symbol.parse] at hrun₁ hrun₃ ⊢
  rw [parsepipe, bind_of_ok hrun₁, hrun₂, bind_of_ok hrun₃]
  rfl

/-- No redirection comes after a command. -/
lemma follows_exec_redirects (h : Symbol.exec.Follows us) : starts ['<', '>'] us = false := by
  cases us with
  | nil => rfl
  | cons t us =>
      have hnot : ∀ t ∈ Symbol.exec.follow, ['<', '>'].contains t.char = false := by decide
      exact hnot t (h t rfl)

lemma accepts_block (h : Accepts .line ts c) (hrs : Redirs us rs) :
    Accepts .exec (.lpar :: (ts ++ .rpar :: us)) (redirected c rs) := by
  intro n s vs htok hfollow hn
  rw [List.cons_append, List.append_assoc, List.cons_append] at htok
  have hlen := congrArg List.length htok
  simp only [List.length_append, List.length_cons] at hlen
  obtain ⟨n, rfl⟩ : ∃ m, n = m + 2 := ⟨n - 2, by simp only [Symbol.fuel] at hn; omega⟩
  simp only [Symbol.fuel] at hn
  obtain ⟨s₁, hpeek, htok₁, -⟩ := peek_eq ['('] s (symbol_of_ofChar symbol_lpar.1)
  obtain ⟨s₂, hrun₂, htok₂, -⟩ := take_symbol (parseline n >>= fun cmd => do
    if ← peek [')'] then let _ ← gettoken; parseredirs n cmd else panic "syntax - missing )")
      (panic "parseblock")
    symbol_lpar (htok₁.trans htok)
  obtain ⟨c₃, s₃, hrun₃, htok₃, rfl⟩ :=
    h (n := n) htok₂ (fun t ht => by obtain rfl := Option.some.inj ht; decide)
    (by simp only [Symbol.fuel, htok₂, List.length_append, List.length_cons]; omega)
  obtain ⟨s₄, hrun₄, htok₄, -⟩ := take_symbol (parseredirs n c₃) (panic "syntax - missing )")
    symbol_rpar htok₃
  obtain ⟨c₅, s₅, hrun₅, htok₅, htext⟩ := parseredirs_complete (n := n) (c₃) hrs htok₄
    (follows_exec_redirects hfollow) (by omega)
  refine ⟨c₅, s₅, ?_, htok₅, htext⟩
  simp only [Symbol.parse] at hrun₃ ⊢
  rw [parseexec, bind_of_ok hpeek, if_pos ((starts_iff symbol_lpar).2 ⟨_, htok⟩), parseblock, hrun₂,
    bind_of_ok hrun₃, hrun₄,
    hrun₅]

lemma Redirs.ne_lpar (h : Redirs ts rs) (hus : ∀ vs, us ≠ .lpar :: vs) :
    ∀ vs, ts ++ us ≠ .lpar :: vs := by
  cases h with
  | nil => exact hus
  | cons hop _ =>
      rintro vs heq
      rw [(List.cons.inj heq).1] at hop
      exact absurd hop (by simp [Tok.redirects])

lemma Words.ne_lpar (h : Words ts ws rs) (hus : ∀ vs, us ≠ .lpar :: vs) :
    ∀ vs, ts ++ us ≠ .lpar :: vs := by
  cases h with
  | nil => exact hus
  | cons _ _ => exact fun vs heq => absurd (List.cons.inj heq).1 (by simp)

lemma accepts_simple (hrs : Redirs ts rs) (hws : Words us ws rs') (hmax : ws.length ≤ MAXARGS - 1) :
    Accepts .exec (ts ++ us) (redirected (.exec ws) (rs ++ rs')) := by
  intro n s vs htok hfollow hn
  have hM := MAXARGS_eq
  rw [List.append_assoc] at htok
  have hlen := congrArg List.length htok
  simp only [List.length_append] at hlen
  obtain ⟨n, rfl⟩ : ∃ m, n = m + 1 := ⟨n - 1, by simp only [Symbol.fuel] at hn; omega⟩
  simp only [Symbol.fuel] at hn
  have hredir := follows_exec_redirects hfollow
  have hend : vs = [] ∨ starts ['|', ')', '&', ';'] vs = true := by
    cases vs with
    | nil => exact .inl rfl
    | cons t vs =>
        have hstops : ∀ t ∈ Symbol.exec.follow, ['|', ')', '&', ';'].contains t.char = true := by
          decide
        exact .inr (hstops t (hfollow t rfl))
  have hlpar := hrs.ne_lpar (hws.ne_lpar (hfollow.ne (by decide)))
  obtain ⟨s₁, hpeek, htok₁, -⟩ := peek_eq ['('] s (symbol_of_ofChar symbol_lpar.1)
  obtain ⟨c₂, s₂, hrun₂, htok₂, htext₂⟩ := parseredirs_complete (n := n) (.exec []) hrs
    (htok₁.trans htok) (hws.not_redirects hredir) (by omega)
  obtain ⟨c₃, s₃, hrun₃, htok₃, htext₃⟩ := parseargs_complete (n := n) hws htok₂ hend hredir htext₂
    (show [].length = 0 from rfl) (by omega) (by omega)
  refine ⟨c₃, s₃, ?_, htok₃, htext₃⟩
  simp only [Symbol.parse]
  rw [parseexec, bind_of_ok hpeek, if_neg, bind_of_ok hrun₂, hrun₃]
  intro hstarts
  obtain ⟨xs, hxs⟩ := (starts_iff symbol_lpar).1 hstarts
  exact hlpar xs (htok.symm.trans hxs)

lemma accepts_of_derives (h : Derives N ts c) : Accepts N ts c := by
  induction h with
  | line k _ ih => exact accepts_line ih
  | seq k _ _ ih ih' => exact accepts_seq ih ih'
  | exec _ ih => exact accepts_exec ih
  | pipe _ _ ih ih' => exact accepts_pipe ih ih'
  | block _ hrs ih => exact accepts_block ih hrs
  | simple hrs hws hmax => exact accepts_simple hrs hws hmax

/-! ## The strings that `nulterminate` leaves -/

/-- The string at the first of the pointers, in the line as it is now. -/
def Word.read (len : ℕ) (buf : List Char) (w : Word) : List Char :=
  (buf.drop (len - w.q.length)).takeWhile (· ≠ '\x00')

variable {buf : List Char} {w : Word} {xs : List Word} {len : ℕ}

lemma nulterminate_eq (cmd : Cmd Word) (buf : List Char) :
    nulterminate len cmd buf = cmd.words.foldl (Word.terminate len) buf := by
  induction cmd generalizing buf with
  | exec argv => rfl
  | redir cmd file mode fd ih =>
      rw [nulterminate, Cmd.words, List.foldl_append, ih, List.foldl_cons, List.foldl_nil]
  | pipe left right ihl ihr => rw [nulterminate, Cmd.words, List.foldl_append, ihl, ihr]
  | list left right ihl ihr => rw [nulterminate, Cmd.words, List.foldl_append, ihl, ihr]
  | back cmd ih => rw [nulterminate, Cmd.words, ih]

lemma length_terminate (len : ℕ) (xs : List Word) (buf : List Char) :
    (xs.foldl (Word.terminate len) buf).length = buf.length := by
  induction xs generalizing buf with
  | nil => rfl
  | cons x xs ih => rw [List.foldl_cons, ih, Word.terminate, List.length_set]

/-- What is not behind a word stays. -/
lemma getElem?_terminate {i : ℕ} (h : ∀ w ∈ xs, len - w.eq.length ≠ i) :
    (xs.foldl (Word.terminate len) buf)[i]? = buf[i]? := by
  induction xs generalizing buf with
  | nil => rfl
  | cons x xs ih =>
      rw [List.foldl_cons, ih fun w hw => h w (.tail _ hw), Word.terminate, List.getElem?_set_ne
        (h x (.head _))]

/-- Behind a word there is a 0. -/
lemma getElem?_terminate_of_mem {i : ℕ} (h : ∃ w ∈ xs, len - w.eq.length = i)
    (hlt : i < buf.length) :
    (xs.foldl (Word.terminate len) buf)[i]? = some '\x00' := by
  induction xs generalizing buf with
  | nil =>
      obtain ⟨w, hw, -⟩ := h
      exact absurd hw List.not_mem_nil
  | cons x xs ih =>
      rw [List.foldl_cons]
      by_cases hlater : ∃ w ∈ xs, len - w.eq.length = i
      · exact ih hlater (by rwa [Word.terminate, List.length_set])
      · rw [getElem?_terminate fun w hw heq => hlater ⟨w, hw, heq⟩]
        obtain ⟨w, hw, rfl⟩ := h
        rcases List.mem_cons.1 hw with rfl | hw
        · rw [Word.terminate, List.getElem?_set_self hlt]
        · exact absurd ⟨w, hw, rfl⟩ hlater

/-- No word begins or ends inside of another one. -/
lemma Word.In.not_inside {x : Word} {j : ℕ} (h : w.In line) (hx : x.In line)
    (hj : j < w.text.length) :
    line.length - x.eq.length ≠ line.length - w.q.length + j := by
  intro heq
  have heq' : x.eq <:+ line := by
    refine List.IsSuffix.trans ?_ hx.suffix
    rw [hx.split]
    exact List.suffix_append _ _
  have hdrop : x.eq = w.text.drop j ++ w.eq := by
    rw [List.suffix_iff_eq_drop.1 heq', heq, ← List.drop_drop, ← List.suffix_iff_eq_drop.1 h.suffix,
      h.split,
      List.drop_append_of_le_length hj.le, Word.text_eq h.split]
  rw [List.drop_eq_getElem_cons hj, List.cons_append] at hdrop
  have hend := hx.ends (w.text.get ⟨j, hj⟩) (by rw [hdrop]; rfl)
  rw [h.plain _ (List.get_mem _ _)] at hend
  exact absurd hend (by simp)

lemma read_eq (hnul : '\x00' ∉ line) (hxs : ∀ x ∈ xs, x.In line) (hw : w ∈ xs) :
    Word.read line.length (xs.foldl (Word.terminate line.length) line) w = w.text := by
  have hin := hxs w hw
  have hq : line.drop (line.length - w.q.length) = w.text ++ w.eq := by
    rw [← List.suffix_iff_eq_drop.1 hin.suffix, ← hin.split]
  have hle := hin.suffix.length_le
  have hlen := congrArg List.length hin.split
  rw [List.length_append] at hlen
  have hbuf := length_terminate line.length xs line
  have hkeep : ∀ j < w.text.length,
      (xs.foldl (Word.terminate line.length) line)[line.length - w.q.length + j]? = w.text[j]? :=
      fun j hj => by
    rw [getElem?_terminate fun x hx => hin.not_inside (hxs x hx) hj, ← List.getElem?_drop, hq,
      List.getElem?_append_left hj]
  have hzero : w.eq ≠ [] →
      (xs.foldl (Word.terminate line.length) line)[line.length - w.q.length + w.text.length]? =
      some '\x00' := fun hne => by
    have hpos := List.length_pos_iff.2 hne
    exact getElem?_terminate_of_mem ⟨w, hw, by omega⟩ (by omega)
  rw [Word.read]
  generalize xs.foldl (Word.terminate line.length) line = buf at *
  have htake : (buf.drop (line.length - w.q.length)).take w.text.length = w.text := by
    refine List.ext_getElem? fun j => ?_
    rw [List.getElem?_take]
    split
    · rename_i hj
      rw [List.getElem?_drop, hkeep j hj]
    · rw [List.getElem?_eq_none (by omega)]
  rw [← List.take_append_drop w.text.length (buf.drop (line.length - w.q.length)), htake,
    List.takeWhile_append_of_pos, List.drop_drop]
  · by_cases hne : w.eq = []
    · rw [hne, List.length_nil] at hlen
      rw [List.drop_eq_nil_of_le (by omega), List.takeWhile_nil, List.append_nil]
    · obtain ⟨hi, hget⟩ := List.getElem?_eq_some_iff.1 (hzero hne)
      rw [List.drop_eq_getElem_cons hi, hget, List.takeWhile_cons_of_neg (by simp), List.append_nil]
  · intro c hc
    have hmem : c ∈ line := by
      refine List.mem_of_mem_drop (i := line.length - w.q.length) ?_
      rw [hq]
      exact List.mem_append_left _ hc
    simpa using fun heq : c = '\x00' => hnul (heq ▸ hmem)

lemma Cmd.map_congr {V W : Type} {f g : W → V} {c : Cmd W} (h : ∀ w ∈ c.words, f w = g w) :
    c.map f = c.map g := by
  induction c with
  | exec argv => exact congrArg Cmd.exec (List.map_congr_left h)
  | redir cmd file mode fd ih =>
      rw [Cmd.map, Cmd.map, ih fun w hw => h w (List.mem_append_left _ hw),
        h file (List.mem_append_right _ (by simp))]
  | pipe left right ihl ihr | list left right ihl ihr =>
      rw [Cmd.map, Cmd.map, ihl fun w hw => h w (List.mem_append_left _ hw), ihr fun w hw =>
        h w (List.mem_append_right _ hw)]
  | back cmd ih => rw [Cmd.map, Cmd.map, ih h]

/-- The words of a command can be read off the line after `nulterminate`. -/
lemma read_nulterminate (hnul : '\x00' ∉ line) (hcmd : cmd.In line) :
    cmd.map (Word.read line.length (nulterminate line.length cmd line)) = cmd.text := by
  rw [nulterminate_eq]
  exact Cmd.map_congr fun w hw => read_eq hnul hcmd hw

/-! ## `parsecmd` -/

lemma parsecmd_of_ok (h : parseline n line = .ok cmd s) :
    parsecmd n line = if skip s = [] then .ok (cmd, nulterminate line.length cmd line)
      else .error (.panic "syntax") := by
  have hpeek : peek [] s = .ok ((skip s).head?.any [].contains) (skip s) := rfl
  have hget : (get : Parser (List Char)) (skip s) = .ok (skip s) (skip s) := rfl
  rw [parsecmd, bind_of_ok h, bind_of_ok hpeek, bind_of_ok hget]
  by_cases hs : skip s = []
  · rw [if_pos hs, if_neg (not_not.2 hs)]
    rfl
  · rw [if_neg hs, if_pos hs]
    rfl

lemma parsecmd_of_error {e : Fault} (h : parseline n line = .error e s) :
    parsecmd n line = .error e := by
  rw [parsecmd, bind_of_error h]

/-- What `parsecmd` returns is the command of a derivation of the whole line. -/
lemma parsecmd_spec (hn : 4 * line.length + 4 ≤ n) :
    (∃ cmd : Cmd Word, parsecmd n line = .ok (cmd, nulterminate line.length cmd line) ∧
      cmd.In line ∧
        Derives .line (tokenise line) cmd.text) ∨
      ∃ msg, parsecmd n line = .error (.panic msg) := by
  have hlen := length_tokenise_le line
  have hspec := (parse_spec n).1 .line line (List.suffix_refl _) (by simp only [Symbol.fuel]; omega)
  cases hrun : parseline n line with
  | ok cmd s =>
      obtain ⟨-, hcmd, ts, htok, hder⟩ := hspec.ok hrun
      rw [parsecmd_of_ok hrun]
      split
      · rename_i hs
        rw [← tokenise_skip s, hs, tokenise_nil, List.append_nil] at htok
        exact .inl ⟨cmd, rfl, hcmd, htok ▸ hder⟩
      · exact .inr ⟨_, rfl⟩
  | error e s =>
      obtain ⟨msg, rfl⟩ := hspec.error hrun
      exact .inr ⟨msg, parsecmd_of_error hrun⟩

/-- A line that has a derivation is not refused. -/
lemma parsecmd_complete (hn : 4 * line.length + 4 ≤ n) (h : Derives .line (tokenise line) c) :
    ∃ cmd : Cmd Word, parsecmd n line = .ok (cmd, nulterminate line.length cmd line) ∧
    cmd.text = c := by
  have hlen := length_tokenise_le line
  obtain ⟨cmd, s, hrun, htok, htext⟩ := accepts_of_derives h (n := n) (List.append_nil _).symm
    (by simp [Symbol.Follows]) (by simp only [Symbol.fuel]; omega)
  exact ⟨cmd, by rw [parsecmd_of_ok hrun, if_pos (skip_eq_nil htok)], htext⟩

/-- The parser accepts exactly the lines that the grammar derives, and returns their commands; it
ends in a panic on all others.  No line has two derivations with different commands. -/
theorem parsecmd_iff (hnul : '\x00' ∉ line) (hn : 4 * line.length + 4 ≤ n) :
    (∀ c, (∃ cmd buf, parsecmd n line = .ok (cmd, buf) ∧ cmd.map (Word.read line.length buf) = c) ↔
        Derives .line (tokenise line) c) ∧
      ((∀ c, ¬ Derives .line (tokenise line) c) → ∃ msg, parsecmd n line = .error (.panic msg)) ∧
      ∀ c d, Derives .line (tokenise line) c → Derives .line (tokenise line) d → c = d := by
  refine ⟨fun c => ⟨?_, fun h => ?_⟩, fun hnone => ?_, fun c d hc hd => ?_⟩
  · rintro ⟨cmd, buf, hrun, rfl⟩
    rcases parsecmd_spec hn with ⟨cmd', hrun', hin, hder⟩ | ⟨msg, hrun'⟩
    · obtain ⟨rfl, rfl⟩ := Prod.mk.inj (Except.ok.inj (hrun.symm.trans hrun'))
      rwa [read_nulterminate hnul hin]
    · exact absurd (hrun.symm.trans hrun') (by simp)
  · obtain ⟨cmd, hrun, htext⟩ := parsecmd_complete hn h
    rcases parsecmd_spec hn with ⟨cmd', hrun', hin, -⟩ | ⟨msg, hrun'⟩
    · obtain ⟨rfl, -⟩ := Prod.mk.inj (Except.ok.inj (hrun.symm.trans hrun'))
      exact ⟨cmd, _, hrun, (read_nulterminate hnul hin).trans htext⟩
    · exact absurd (hrun.symm.trans hrun') (by simp)
  · rcases parsecmd_spec hn with ⟨cmd, -, -, hder⟩ | hpanic
    · exact absurd hder (hnone _)
    · exact hpanic
  · obtain ⟨cmd, hrun, rfl⟩ := parsecmd_complete hn hc
    obtain ⟨cmd', hrun', rfl⟩ := parsecmd_complete hn hd
    rw [(Prod.mk.inj (Except.ok.inj (hrun.symm.trans hrun'))).1]

/-- A pipe and a redirection, in the background. -/
theorem parsecmd_iff_pipe : Derives .line (tokenise "ls | wc>n &".toList)
    (.back (.pipe (.exec ["ls".toList])
      (.redir (.exec ["wc".toList]) "n".toList O_WRONLY_CREATE 1))) := by
  have hiff := (parsecmd_iff (show '\x00' ∉ "ls | wc>n &".toList by decide)
    (show 4 * "ls | wc>n &".toList.length + 4 ≤ 48 by decide)).1
  have hrun : (match parsecmd 48 "ls | wc>n &".toList with
      | .ok (cmd, buf) => some (cmd.map (Word.read "ls | wc>n &".toList.length buf))
      | .error _ => none) =
      some (.back (.pipe (.exec ["ls".toList])
      (.redir (.exec ["wc".toList]) "n".toList O_WRONLY_CREATE 1))) := by
    decide +kernel
  refine (hiff _).1 ?_
  cases hparse : parsecmd 48 "ls | wc>n &".toList with
  | ok r =>
      rw [hparse] at hrun
      exact ⟨r.1, r.2, rfl, Option.some.inj hrun⟩
  | error e =>
      rw [hparse] at hrun
      exact absurd hrun (by simp)

end

end Xv6.Sh
