import Mathlib.Algebra.Order.BigOperators.Group.Finset
import Xv6.Fs.Offsets
import Xv6.Lib.Path

/-!
# Writers that share a file

Several processes call `filewrite` on one `struct file`.  The machine below performs one action
of one of the calls at a time: between two actions of a call any others may run.  A call writes
its bytes in chunks, each in a transaction of its own, and reads and moves the offset inside the
transaction; so what the calls have written together is what they have committed, in the order
in which they committed it (`Ledger`).
-/

namespace Xv6

open Lib FsState

variable {sb : Superblock} {blk : ℕ → Block} {disksize : ℕ} {o : Outside} {s₀ s s' s₁ : FsState}
  {f : FileId} {e : InodeId} {q : ProcId} {m n fuel : ℕ} {src : ℕ → UInt8}

/-! ## The machine -/

/-- The file system, what is left of the call that each process is in, and how many bytes the
calls have been asked to write. -/
structure Writers where
  fs : FsState
  rest : ProcId → Option (Sys ℤ)
  total : ℕ

namespace Writers

inductive Label
  /-- Process `q` calls `filewrite`. -/
  | call (q : ProcId) (src : ℕ → UInt8) (n : ℤ)
  /-- Process `q` performs the next action of its call. -/
  | act (q : ProcId)
  /-- The call of process `q` returns. -/
  | ret (q : ProcId)

inductive Event
  | called (q : ProcId) (src : ℕ → UInt8) (n : ℤ)
  | committed (q : ProcId)
  | returned (q : ProcId) (r : ℤ)

/-- What an observer sees of an action. -/
def seen (q : ProcId) : Act → Option Event
  | .commitTrans => some (.committed q)
  | _ => none

/-- One step of one process; an action that has to sleep is performed later. -/
def step (f : FileId) (w : Writers) : Label → Option (Writers × Option Event)
  | .call q src n =>
      match w.rest q with
      | none => some ({ w with
          rest := Function.update w.rest q (some (Fs.filewrite f src n)), total :=
            w.total + n.toNat },
          some (.called q src n))
      | some _ => none
  | .act q =>
      match w.rest q with
      | none => none
      | some p =>
          match p.advance Act.exec w.fs with
          | some (a, p', s') =>
              some ({ w with fs := s', rest := Function.update w.rest q (some p') }, seen q a)
          | none => none
  | .ret q =>
      match w.rest q with
      | some (.ret r) =>
          some ({ w with rest := Function.update w.rest q none }, some (.returned q r))
      | _ => none

/-- The file does not grow beyond the largest size, and there is a free block whenever `balloc` is
called. -/
def Fits (sb : Superblock) (off : ℕ) (w : Writers) : Label → Prop
  | .call _ _ n => off + (w.total + n.toNat) ≤ MAXFILE * BSIZE
  | .act q => ∀ a ∈ (w.rest q).bind Prog.nextAction, RoomAt sb a w.fs
  | .ret _ => True

instance (sb : Superblock) (off : ℕ) (w : Writers) (l : Label) : Decidable (w.Fits sb off l) := by
  cases l <;> unfold Fits <;> infer_instance

end Writers

/-! ## What was asked for -/

/-- A call to write `n` bytes from `src`, `done` of which are committed. -/
structure Piece where
  src : ℕ → UInt8
  n : ℤ
  done : ℕ

namespace Piece

def left (c : Piece) : ℕ := c.n.toNat - c.done

/-- The length of the next chunk. -/
def chunk (c : Piece) : ℕ := min c.left Fs.filewriteMax

/-- The bytes that are not written yet. -/
def next (c : Piece) : ℕ → UInt8 := fun j => c.src (c.done + j)

def advance (c : Piece) : Piece := { c with done := c.done + c.chunk }

lemma chunk_le_left (c : Piece) : c.chunk ≤ c.left := min_le_left _ _

lemma chunk_ne_zero {c : Piece} (h : c.left ≠ 0) : c.chunk ≠ 0 := by
  have hmax : Fs.filewriteMax = 1536 := rfl
  rw [chunk, hmax]
  omega

lemma left_advance (c : Piece) : c.advance.left = c.left - c.chunk := by
  rw [left, left, advance, Nat.sub_sub]

end Piece

/-- A call has committed all its bytes, and `r` is what it returns. -/
def AllCommitted (c? : Option Piece) (r : ℤ) : Prop :=
  ∃ c, c? = some c ∧ c.done = c.n.toNat ∧ r = if 0 ≤ c.n then c.n else -1

/-- The calls that have not returned, and all bytes in the order in which they were committed. -/
structure Ledger where
  pending : ProcId → Option Piece
  bytes : List UInt8

namespace Ledger

/-- The next chunk of the call that `q` is in is committed. -/
def commit (l : Ledger) (q : ProcId) : Ledger :=
  match l.pending q with
  | none => l
  | some c => { pending := Function.update l.pending q (some c.advance)
                bytes := l.bytes ++ (List.range c.chunk).map c.next }

def record (l : Ledger) : Writers.Event → Ledger
  | .called q src n => { l with pending := Function.update l.pending q (some ⟨src, n, 0⟩) }
  | .committed q => l.commit q
  | .returned q _ => { l with pending := Function.update l.pending q none }

def of (es : List Writers.Event) : Ledger := es.foldl record ⟨fun _ => none, []⟩

/-- How many bytes are still to be written. -/
def left (l : Ledger) (q : ProcId) : ℕ := ((l.pending q).map Piece.left).getD 0

/-- The state of one call changes. -/
lemma sum_left_update (l : Ledger) (q : ProcId) (c? : Option Piece) (bytes : List UInt8) :
    ∑ p, (⟨Function.update l.pending q c?, bytes⟩ : Ledger).left p + l.left q =
      ∑ p, l.left p + (c?.map Piece.left).getD 0 := by
  have h := sum_change l.left (⟨Function.update l.pending q c?, bytes⟩ : Ledger).left (i := q)
    fun p hp => by simp only [left, Function.update_of_ne hp]
  simpa only [left, Function.update_self] using h

end Ledger

/-! ## A turn among the actions of others -/

/-- An action inside a transaction that gives no file another inode or other rights. -/
def Steady : Act → FsState → Prop
  | .commitTrans, _ => False
  | .setFile g v, s => v = { (s.file g).toOpenFile with off := v.off }
  | a, _ => Inner a

lemma Plain.steady (a : Act) (s : FsState) (h : Plain a) : Steady a s := by
  cases a <;> first | exact h.elim | trivial

/-- Between two steady actions of a turn, nobody else can begin a turn. -/
lemma Steady.exec {a : Act} {r : a.Result} (h : Steady a s) (hb : s.log.busy = true)
    (hx : a.exec s = .ok r s') : SameFiles s s' ∧ s'.log.busy = true := by
  have hfile : Inner a → SameFiles s s' := fun hi => .of_eq <| by
    have hsame := (sameTables_exec a s hi).file
    rwa [endState, hx] at hsame
  cases a with
  | setFile g v =>
      cases hx
      refine ⟨fun g' => ?_, hb⟩
      by_cases hg : g' = g
      · rw [hg, setFile_file_self, show v = _ from h]
        exact ⟨rfl, rfl⟩
      · rw [setFile_file_of_ne hg]
        exact ⟨rfl, rfl⟩
  | commitTrans => exact h.elim
  | _ =>
      refine ⟨hfile h, ?_⟩
      simp only [Act.exec] at hx
      repeat' split at hx
      all_goals first | exact h.elim | (cases hx <;> exact hb)

lemma Fs.filewriteTurn_leads : (Fs.filewriteTurn f e src m).Leads Act.exec (RoomAt sb) Steady
    .commitTrans (fun _ _ => True) s := by
  have hend : ∀ (r : ℤ) s, (do Fs.iunlock e; Fs.commitTrans; pure r : Sys ℤ).Leads Act.exec
      (RoomAt sb) Steady .commitTrans (fun _ _ => True) s := fun r s =>
    Prog.Only.leads (.perform trivial) Plain.steady fun _ _ _ => fun _ _ _ _ =>
      .inl ⟨rfl, r, rfl, trivial⟩
  refine fun _ _ s₁ _ => .inr ⟨trivial, ?_⟩
  refine Prog.Only.leads (p := Fs.ilock e) Fs.ilock_plain Plain.steady fun _ s₂ _ => ?_
  refine fun _ ff s₃ h₃ => .inr ⟨trivial, ?_⟩
  cases h₃
  have hplain : IsPlain (Fs.writei e src (s₂.file f).off.toNat m) := Fs.writei_plain
  refine Prog.Only.leads (p := Fs.writei e src _ m) hplain Plain.steady fun r s₄ h₄ => ?_
  split
  · refine fun _ _ s₅ _ => .inr ⟨?_, hend r s₅⟩
    have hsame := (hplain.inner.run .refl (fun _ _ _ => .trans) sameTables_exec (s := s₂)).file
    rw [endState, h₄] at hsame
    rw [Steady, hsame]
  · exact hend r s₄

/-! ## Between two turns -/

/-- The writers that started in `s₀` have written `bytes`, and no turn is under way. -/
structure Settled (sb : Superblock) (s₀ : FsState) (f : FileId) (e : InodeId) (s : FsState)
    (bytes : List UInt8) : Prop where
  inv : Inv sb [] s
  link : (s.file f).link = some e
  writable : (s.file f).writable = true
  inum : (s.inode e).inum = (s₀.inode e).inum
  type : (s.node (s₀.inode e).inum).type = T_FILE
  contents : s.contents (s₀.inode e).inum =
    overwrite (s₀.contents (s₀.inode e).inum) (s₀.file f).off.toNat bytes
  off : (s.file f).off.toNat = (s₀.file f).off.toNat + bytes.length
  within : (s.file f).off.toNat ≤ (s.node (s₀.inode e).inum).size.toNat
  start : (s₀.file f).off.toNat ≤ (s₀.node (s₀.inode e).inum).size.toNat

/-- A turn that fits and finds room writes its bytes behind what is there. -/
lemma Settled.turn {bytes : List UInt8} (h : Settled sb s₀ f e s bytes) (hm : m ≠ 0)
    (hfit : (s.file f).off.toNat + m ≤ MAXFILE * BSIZE) :
    (Fs.filewriteTurn f e src m).Leads Act.exec (RoomAt sb) Steady .commitTrans
      (fun r s' => r = (m : ℤ) ∧ Settled sb s₀ f e s' (bytes ++ (List.range m).map src)) s := by
  have hlive : Live s e (s₀.inode e).inum := h.inum ▸ h.inv.live_of_open ⟨f, h.link⟩
  have hturn : Safe sb .roomy (Fs.filewriteTurn f e src m)
      (fun r s' => r = m ∧ Settled sb s₀ f e s' (bytes ++ (List.range m).map src)) s := by
    refine Safe.filewriteTurn h.inv h.link h.writable hlive hm (fun r s₁ hr => ?_)
      fun s₁ i₁ g₁ hf₁ ht₁ _ w₁ => ⟨rfl, ?_⟩
    · rcases hr with ⟨-, hr⟩ | hr
      · have hle := h.within
        omega
      · rw [h.type] at hr
        exact absurd hr (by decide)
    · have hstart : (s₀.file f).off.toNat ≤ (s₀.contents (s₀.inode e).inum).length := by
        rw [length_contents]
        exact h.start
      have hsize := w₁.size
      rw [if_neg hm] at hsize
      refine ⟨i₁, (hf₁ f).1.trans h.link, (hf₁ f).2.trans h.writable, ?_, ht₁.trans h.type, ?_, ?_,
        ?_, h.start⟩
      · exact (g₁.shown e (.inr (.inl ⟨f, h.link⟩))).inum.trans h.inum
      · rw [w₁.contents, h.contents, h.off, overwrite_overwrite hstart]
      · rw [w₁.off, h.off, List.length_append, List.length_map, List.length_range, Nat.add_assoc]
      · rw [w₁.off, hsize]
        exact le_max_right _ _
  exact Fs.filewriteTurn_leads.ensure fun hroom _ _ hrun => (hturn.of_roomy hroom).1.ok hrun

/-- What `filewrite` returns after its loop. -/
def Fs.filewriteEnd (n : ℤ) (all : Bool) : Sys ℤ := pure (if all = true ∧ 0 ≤ n then n else -1)

/-- What is left of a call of which `c` is known to be committed, between two of its turns. -/
def Fs.filewriteFrom (f : FileId) (e : InodeId) (fuel : ℕ) (c : Piece) : Sys ℤ :=
  Fs.filewriteLoop f e fuel c.next c.left >>= Fs.filewriteEnd c.n

/-- What is left of it when its turn has returned. -/
def Fs.filewriteAfter (f : FileId) (e : InodeId) (fuel : ℕ) (c : Piece) (r : ℤ) : Sys ℤ :=
  Fs.filewriteRest f e fuel c.next c.left c.chunk r >>= Fs.filewriteEnd c.n

namespace Fs

variable {c : Piece}

lemma filewriteFrom_of_left_eq_zero (hc : c.left = 0) :
    filewriteFrom f e fuel c = .ret (if 0 ≤ c.n then c.n else -1) := by
  have hloop : filewriteLoop f e fuel c.next 0 = pure true := by
    cases fuel <;> simp [filewriteLoop]
  rw [filewriteFrom, hc, hloop, pure_bind, filewriteEnd]
  simp
  rfl

lemma filewriteFrom_succ (hc : c.left ≠ 0) : filewriteFrom f e (fuel + 1) c =
    filewriteTurn f e c.next c.chunk >>= filewriteAfter f e fuel c := by
  rw [filewriteFrom, filewriteLoop_succ hc, bind_assoc]
  rfl

/-- After a complete turn the call goes on with the next chunk. -/
lemma filewriteAfter_chunk :
    filewriteAfter f e fuel c c.chunk = filewriteFrom f e fuel c.advance := by
  have hsrc : (fun j => c.next (c.chunk + j)) = c.advance.next := by
    funext j
    rw [Piece.next, Piece.next, Piece.advance, Nat.add_assoc]
  rw [filewriteAfter, filewriteRest, if_neg (by omega), if_neg (by simp), hsrc, ← c.left_advance]
  rfl

/-- A call first looks at the file. -/
lemma filewrite_advance {n : ℤ} (hlink : (s.file f).link = some e)
    (hw : (s.file f).writable = true) : (filewrite f src n).advance Act.exec s =
      some (.getFile f, filewriteFrom f e n.toNat ⟨src, n, 0⟩, s) := by
  obtain ⟨ht, hip⟩ : (s.file f).type = .inode ∧ (s.file f).ip = some e := by
    rw [File.link] at hlink
    split at hlink
    · exact ⟨‹_›, hlink⟩
    · exact absurd hlink (by simp)
  have hnext : (⟨src, n, 0⟩ : Piece).next = src := by
    funext j
    rw [Piece.next, Nat.zero_add]
  have hfirst : Act.exec (.getFile f) s = .ok (s.file f) s := rfl
  refine (Prog.advance_act hfirst).trans ?_
  rw [filewriteFrom, hnext]
  simp only [Prog.bind, hw, ht, hip]
  rfl

/-- A turn first takes the log. -/
lemma filewriteTurn_advance {a : Act} {t : Sys ℤ}
    (h : (filewriteTurn f e src m).advance Act.exec s = some (a, t, s')) :
    a = .beginTrans ∧ s' = { s with log := { s.log with busy := true } } ∧
      s.log.busy = false := by
  obtain ⟨k, r, heq, hx, -⟩ := Prog.exists_of_advance h
  cases heq
  rw [Act.exec] at hx
  split at hx
  · exact absurd hx (by simp)
  · rename_i hb
    cases hx
    exact ⟨rfl, rfl, Bool.eq_false_iff.2 hb⟩

end Fs

/-- Where a process is between two turns, if `c?` says how far its call has come. -/
inductive Between (f : FileId) (e : InodeId) : Option (Sys ℤ) → Option Piece → Prop
  | out : Between f e none none
  | start (src : ℕ → UInt8) (n : ℤ) : Between f e (some (Fs.filewrite f src n)) (some ⟨src, n, 0⟩)
  | loop (c : Piece) (fuel : ℕ) (hfuel : c.left ≤ fuel) (hdone : c.done ≤ c.n.toNat) :
      Between f e (some (Fs.filewriteFrom f e fuel c)) (some c)

namespace Between

variable {p p' : Sys ℤ} {c? : Option Piece} {a : Act}

lemma of_none (h : Between f e none c?) : c? = none := by
  cases h
  rfl

/-- A call returns when all of its bytes are committed. -/
lemma of_ret {r : ℤ} (h : Between f e (some (.ret r)) c?) : AllCommitted c? r := by
  generalize hp : some (Prog.ret r) = p at h
  cases h with
  | out => exact absurd hp (by simp)
  | start src n => exact absurd (Option.some.inj hp) nofun
  | loop c fuel hfuel hdone =>
      by_cases hc : c.left = 0
      · rw [Fs.filewriteFrom_of_left_eq_zero hc] at hp
        exact ⟨c, rfl, le_antisymm hdone (Nat.sub_eq_zero_iff_le.1 hc),
          Prog.ret.inj (Option.some.inj hp)⟩
      · obtain ⟨k, rfl⟩ : ∃ k, fuel = k + 1 := ⟨fuel - 1, by omega⟩
        rw [Fs.filewriteFrom_succ hc] at hp
        exact absurd (Option.some.inj hp) nofun

/-- From between two turns a call looks at its file, or begins its next turn. -/
lemma advance (h : Between f e (some p) c?) (hlink : (s.file f).link = some e)
    (hw : (s.file f).writable = true) (ha : p.advance Act.exec s = some (a, p', s')) :
    (a = .getFile f ∧ s' = s ∧ Between f e (some p') c?) ∨
    ∃ c fuel t, c? = some c ∧ c.left ≠ 0 ∧ c.left ≤ fuel + 1 ∧ c.done ≤ c.n.toNat ∧
      (Fs.filewriteTurn f e c.next c.chunk).advance Act.exec s = some (a, t, s') ∧
      p' = t >>= Fs.filewriteAfter f e fuel c := by
  generalize hp : some p = p? at h
  cases h with
  | out => exact absurd hp (by simp)
  | start src n =>
      cases hp
      rw [Fs.filewrite_advance hlink hw] at ha
      cases ha
      exact .inl ⟨rfl, rfl, .loop _ _ (Nat.sub_le _ _) (Nat.zero_le _)⟩
  | loop c fuel hfuel hdone =>
      cases hp
      by_cases hc : c.left = 0
      · rw [Fs.filewriteFrom_of_left_eq_zero hc] at ha
        exact absurd ha (by simp [Prog.advance])
      · obtain ⟨k, rfl⟩ : ∃ k, fuel = k + 1 := ⟨fuel - 1, by omega⟩
        rw [Fs.filewriteFrom_succ hc] at ha
        obtain ⟨t, ht, rfl⟩ := Prog.exists_of_advance_bind
          (p := Fs.filewriteTurn f e c.next c.chunk) (fun _ hret => by cases hret) ha
        exact .inr ⟨c, k, t, rfl, hc, hfuel, hdone, ht, rfl⟩

end Between

/-! ## The invariant -/

/-- The turn of `q` is under way: of its call `c` is committed, and `t` is left of the turn. -/
structure Turning (sb : Superblock) (s₀ : FsState) (f : FileId) (e : InodeId) (w : Writers)
    (l : Ledger) (q : ProcId) (c : Piece) (t : Sys ℤ) (fuel : ℕ) : Prop where
  piece : l.pending q = some c
  rest : w.rest q = some (t >>= Fs.filewriteAfter f e fuel c)
  left : c.left ≠ 0
  enough : c.left ≤ fuel + 1
  done : c.done ≤ c.n.toNat
  busy : w.fs.log.busy = true
  leads : t.Leads Act.exec (RoomAt sb) Steady .commitTrans (fun r s' => r = (c.chunk : ℤ) ∧
    Settled sb s₀ f e s' (l.bytes ++ (List.range c.chunk).map c.next)) w.fs

/-- The invariant of the writers: no turn is under way but that of `turn`. -/
structure Writing (sb : Superblock) (s₀ : FsState) (f : FileId) (e : InodeId) (w : Writers)
    (l : Ledger) (turn : Option ProcId) : Prop where
  settled : turn = none → Settled sb s₀ f e w.fs l.bytes
  turning : ∀ q, turn = some q → ∃ c t fuel, Turning sb s₀ f e w l q c t fuel
  between : ∀ q, turn ≠ some q → Between f e (w.rest q) (l.pending q)
  link : (w.fs.file f).link = some e
  writable : (w.fs.file f).writable = true
  total : l.bytes.length + ∑ q, l.left q = w.total
  fits : w.total = 0 ∨ (s₀.file f).off.toNat + w.total ≤ MAXFILE * BSIZE

namespace Writing

variable {w : Writers} {l : Ledger} {turn : Option ProcId}

lemma turn_eq_none (h : Writing sb s₀ f e w l turn)
    (hw : w.fs.log.busy = false ∨ ∀ q, w.rest q = none) : turn = none := by
  by_contra hne
  obtain ⟨q, rfl⟩ := Option.ne_none_iff_exists'.1 hne
  obtain ⟨c, t, fuel, ht⟩ := h.turning q rfl
  rcases hw with hw | hw
  · exact absurd (ht.busy.symm.trans hw) (by simp)
  · exact absurd (ht.rest.symm.trans (hw q)) (by simp)

/-- A process moves whose turn it is not. -/
lemma move {p? : Option (Sys ℤ)} {c? : Option Piece} {total : ℕ} (h : Writing sb s₀ f e w l turn)
    (hq : turn ≠ some q) (hb : Between f e p? c?)
    (htotal : total + l.left q = w.total + (c?.map Piece.left).getD 0)
    (hfits : total = 0 ∨ (s₀.file f).off.toNat + total ≤ MAXFILE * BSIZE) :
    Writing sb s₀ f e ⟨w.fs, Function.update w.rest q p?, total⟩
      ⟨Function.update l.pending q c?, l.bytes⟩ turn := by
  refine
    { h with turning := fun q' hq' => ?_, between := fun p hp => ?_, total := ?_, fits := hfits }
  · obtain ⟨c, t, fuel, ht⟩ := h.turning q' hq'
    have hne : q' ≠ q := fun heq => hq (heq ▸ hq')
    exact ⟨c, t, fuel, { ht with piece := (Function.update_of_ne hne _ _).trans ht.piece
                                 rest := (Function.update_of_ne hne _ _).trans ht.rest }⟩
  · by_cases hpq : p = q
    · simpa only [hpq, Function.update_self] using hb
    · simpa only [Function.update_of_ne hpq] using h.between p hp
  · have hsum := l.sum_left_update q c? l.bytes
    have hold := h.total
    dsimp only
    omega

/-- A process calls `filewrite`. -/
lemma call {n : ℤ} (h : Writing sb s₀ f e w l turn) (hq : w.rest q = none)
    (hfit : (s₀.file f).off.toNat + (w.total + n.toNat) ≤ MAXFILE * BSIZE) :
    Writing sb s₀ f e { w with
      rest := Function.update w.rest q (some (Fs.filewrite f src n)), total := w.total + n.toNat }
      (l.record (.called q src n)) turn := by
  have hne : turn ≠ some q := fun heq => by
    obtain ⟨c, t, fuel, ht⟩ := h.turning q heq
    exact absurd (hq.symm.trans ht.rest) (by simp)
  have hnone := (hq ▸ h.between q hne).of_none
  refine h.move hne (.start src n) ?_ (.inr hfit)
  rw [Ledger.left, hnone]
  rfl

/-- A call returns: all its bytes are committed, and it says so. -/
lemma ret {r : ℤ} (h : Writing sb s₀ f e w l turn) (hq : w.rest q = some (.ret r)) :
    AllCommitted (l.pending q) r ∧
    Writing sb s₀ f e { w with rest := Function.update w.rest q none }
      (l.record (.returned q r)) turn := by
  have hne : turn ≠ some q := fun heq => by
    obtain ⟨c, t, fuel, ht⟩ := h.turning q heq
    exact ht.leads.bind_ne_ret r (Option.some.inj (ht.rest.symm.trans hq))
  have hall := (hq ▸ h.between q hne).of_ret
  refine ⟨hall, h.move hne .out ?_ h.fits⟩
  obtain ⟨c, hc, hdone, -⟩ := hall
  rw [Ledger.left, hc, Option.map_some, Option.getD_some, Piece.left, hdone, Nat.sub_self]
  rfl

/-- A process begins a turn. -/
lemma begin {c : Piece} {t : Sys ℤ} {a : Act} (h : Writing sb s₀ f e w l none)
    (hc : l.pending q = some c) (hleft : c.left ≠ 0) (hfuel : c.left ≤ fuel + 1)
    (hdone : c.done ≤ c.n.toNat)
    (ha : (Fs.filewriteTurn f e c.next c.chunk).advance Act.exec w.fs = some (a, t, s')) :
    Writing sb s₀ f e { w with
      fs := s', rest := Function.update w.rest q (some (t >>= Fs.filewriteAfter f e fuel c)) }
      l (some q) := by
  obtain ⟨rfl, rfl, -⟩ := Fs.filewriteTurn_advance ha
  have hle : l.left q ≤ ∑ p, l.left p :=
    Finset.single_le_sum (fun _ _ => Nat.zero_le _) (Finset.mem_univ q)
  rw [Ledger.left, hc, Option.map_some, Option.getD_some] at hle
  have hchunk := c.chunk_le_left
  have hpos := Piece.chunk_ne_zero hleft
  have hoff := (h.settled rfl).off
  have htotal := h.total
  have hfits := h.fits
  have hleads : t.Leads Act.exec _ _ _ _ _ :=
    (((h.settled rfl).turn hpos (by omega)).advance (a := Act.beginTrans) trivial ha).resolve_left
      (by simp) |>.2
  refine { h with
    settled := nofun
    turning := fun q' hq' => ?_
    between := fun p hp => ?_ }
  · cases hq'
    exact ⟨c, t, fuel, hc, Function.update_self _ _ _, hleft, hfuel, hdone, rfl, hleads⟩
  · have hne : p ≠ q := fun heq => hp (heq ▸ rfl)
    simpa only [Function.update_of_ne hne] using h.between p nofun

/-- The turn of a process ends: its chunk is committed. -/
lemma commit {c : Piece} {t : Sys ℤ} (h : Writing sb s₀ f e w l (some q))
    (ht : Turning sb s₀ f e w l q c t fuel)
    (hs : Settled sb s₀ f e s' (l.bytes ++ (List.range c.chunk).map c.next)) :
    Writing sb s₀ f e { w with
      fs := s', rest := Function.update w.rest q (some (Fs.filewriteAfter f e fuel c c.chunk)) }
      (l.commit q) none := by
  have hcommit : l.commit q = ⟨Function.update l.pending q (some c.advance),
      l.bytes ++ (List.range c.chunk).map c.next⟩ := by
    rw [Ledger.commit, ht.piece]
  rw [hcommit, Fs.filewriteAfter_chunk]
  have hadvance := c.left_advance
  have hchunk := c.chunk_le_left
  have hpos := Piece.chunk_ne_zero ht.left
  have henough := ht.enough
  refine ⟨fun _ => hs, nofun, fun p _ => ?_, hs.link, hs.writable, ?_, h.fits⟩
  · by_cases hp : p = q
    · have hdone : c.advance.done ≤ c.advance.n.toNat := by
        have hold := ht.done
        rw [Piece.left] at hchunk
        change c.done + c.chunk ≤ c.n.toNat
        omega
      simpa only [hp, Function.update_self] using .loop _ _ (by omega) hdone
    · simpa only [Function.update_of_ne hp] using
        h.between p fun heq => hp (Option.some.inj heq).symm
  · have hsum := l.sum_left_update q (some c.advance) (l.bytes ++ (List.range c.chunk).map c.next)
    have hleft : l.left q = c.left := by rw [Ledger.left, ht.piece]; rfl
    have htotal := h.total
    rw [hleft, Option.map_some, Option.getD_some, hadvance] at hsum
    rw [List.length_append, List.length_map, List.length_range]
    dsimp only
    omega

/-- A process performs an action. -/
lemma act {p p' : Sys ℤ} {a : Act} (h : Writing sb s₀ f e w l turn) (hq : w.rest q = some p)
    (ha : p.advance Act.exec w.fs = some (a, p', s')) (hroom : RoomAt sb a w.fs) :
    ∃ turn, Writing sb s₀ f e { w with fs := s', rest := Function.update w.rest q (some p') }
      ((Writers.seen q a).toList.foldl Ledger.record l) turn := by
  by_cases hturn : turn = some q
  · subst hturn
    obtain ⟨c, t, fuel, ht⟩ := h.turning q rfl
    obtain rfl : t >>= Fs.filewriteAfter f e fuel c = p := Option.some.inj (ht.rest.symm.trans hq)
    obtain ⟨t', ha', rfl⟩ := Prog.exists_of_advance_bind ht.leads.ne_ret ha
    rcases ht.leads.advance hroom ha' with ⟨rfl, r, rfl, rfl, hs⟩ | ⟨hsteady, hleads⟩
    · exact ⟨none, h.commit ht hs⟩
    · obtain ⟨-, r, -, hx, -⟩ := Prog.exists_of_advance ha'
      obtain ⟨hfile, hbusy⟩ := hsteady.exec ht.busy hx
      have hseen : Writers.seen q a = none := by
        cases a <;> first | exact hsteady.elim | rfl
      rw [hseen, Option.toList_none, List.foldl_nil]
      refine ⟨some q, { h with
        settled := nofun
        turning := fun q' hq' => ?_
        between := fun p hp => ?_
        link := (hfile f).1.trans h.link
        writable := (hfile f).2.trans h.writable }⟩
      · cases hq'
        exact ⟨c, t', fuel, { ht with
          rest := Function.update_self _ _ _, busy := hbusy, leads := hleads }⟩
      · have hne : p ≠ q := fun heq => hp (heq ▸ rfl)
        simpa only [Function.update_of_ne hne] using h.between p hp
  · rcases (hq ▸ h.between q hturn).advance h.link h.writable ha with
      ⟨rfl, rfl, hb⟩ | ⟨c, fuel, t, hc, hleft, hfuel, hdone, hbegin, rfl⟩
    · have hmove := h.move hturn hb rfl h.fits
      rw [Function.update_eq_self] at hmove
      exact ⟨turn, hmove⟩
    · obtain ⟨rfl, -, hbusy⟩ := Fs.filewriteTurn_advance hbegin
      obtain rfl := h.turn_eq_none (.inl hbusy)
      exact ⟨some q, h.begin hc hleft hfuel hdone hbegin⟩

/-- What the writers do keeps the invariant. -/
lemma step {w' : Writers} {lb : Writers.Label} {ev : Option Writers.Event}
    (h : Writing sb s₀ f e w l turn) (hfits : Writers.Fits sb (s₀.file f).off.toNat w lb)
    (hs : Writers.step f w lb = some (w', ev)) :
    (∃ turn, Writing sb s₀ f e w' (ev.toList.foldl Ledger.record l) turn) ∧
      ∀ q r, ev = some (.returned q r) → AllCommitted (l.pending q) r := by
  cases lb with
  | call q src n =>
      rw [Writers.step] at hs
      split at hs
      · rename_i hq
        cases hs
        exact ⟨⟨turn, h.call hq hfits⟩, nofun⟩
      · exact absurd hs (by simp)
  | act q =>
      rw [Writers.step] at hs
      split at hs
      · exact absurd hs (by simp)
      · rename_i p hq
        split at hs
        · rename_i a p' s' ha
          cases hs
          have hnext : a ∈ (w.rest q).bind Prog.nextAction := by
            obtain ⟨k, r, rfl, -, -⟩ := Prog.exists_of_advance ha
            rw [hq]
            rfl
          refine ⟨h.act hq ha (hfits a hnext), fun q' r hev => ?_⟩
          cases a <;> exact absurd hev nofun
        · exact absurd hs (by simp)
  | ret q =>
      rw [Writers.step] at hs
      split at hs
      · rename_i r hq
        cases hs
        obtain ⟨hall, hret⟩ := h.ret hq
        exact ⟨⟨turn, hret⟩, fun q' r' hev => by cases hev; exact hall⟩
      · exact absurd hs (by simp)

end Writing

/-! ## Runs -/

/-- The runs of writers that share `f`, from state `s₀` on. -/
abbrev Writers.Runs (sb : Superblock) (f : FileId) (s₀ : FsState) :
    List Writers.Event → Writers → Prop :=
  Run (Writers.step f) (Writers.Fits sb (s₀.file f).off.toNat) ⟨s₀, fun _ => none, 0⟩ []

/-- Every call that has returned has committed all its bytes. -/
def Delivered (es : List Writers.Event) : Prop := ∀ es₁ q r, es₁ ++ [.returned q r] <+: es →
  AllCommitted ((Ledger.of es₁).pending q) r

lemma Delivered.append {es : List Writers.Event} {ev : Option Writers.Event} (h : Delivered es)
    (hev : ∀ q r, ev = some (.returned q r) →
      AllCommitted ((Ledger.of es).pending q) r) : Delivered (es ++ ev.toList) := by
  intro es₁ q r hpre
  cases ev with
  | none => exact h es₁ q r (by simpa using hpre)
  | some ev =>
      rcases List.prefix_concat_iff.1 hpre with heq | hpre
      · obtain ⟨rfl, rfl⟩ : es₁ = es ∧ .returned q r = ev := by
          simpa using List.append_inj' heq rfl
        exact hev q r rfl
      · exact h es₁ q r hpre

end Xv6
