import Xv6.Fs.Ownership

/-!
# The allocator and the log

`balloc` searches the bitmap up to the end of the disk, and the bits of the log area are never
set: it returns a block of the log as soon as no block before the log is free.  As long as there
is one whenever it is called, everything it returns is a data block before the log.
-/

namespace Xv6

open Lib FsState

variable {sb : Superblock} {blk : ℕ → Block} {disksize : ℕ} {o : Outside} {s s' : FsState}

/-- When `balloc` is called there is a free block before the log. -/
def RoomAt (sb : Superblock) : Act → FsState → Prop
  | .ballocEnter, s => HasRoom sb s
  | _, _ => True

/-- What `balloc` returns is a data block before the log. -/
def DataAt (sb : Superblock) : Act → FsState → Prop
  | .ballocDone b, _ => InData sb b
  | _, _ => True

/-- Nothing happens here in which `balloc` is called without room. -/
def Fs.Event.Roomy (sb : Superblock) (s : FsState) : Fs.Event → Prop
  | .call p c => (c.prog p).Meets Act.exec (RoomAt sb) s
  | .outside _ => True

/-- The runs in which `balloc` is never called without room. -/
abbrev Fs.RoomyRun (sb : Superblock) (s₀ : FsState) : List Fs.Record → FsState → Prop :=
  Run Fs.step (fun s l => l.Enabled s ∧ l.Roomy sb s) s₀ []

instance (sb : Superblock) (s : FsState) : Decidable (HasRoom sb s) :=
  inferInstanceAs (Decidable (∃ b < sb.logStart, _))

instance (sb : Superblock) (a : Act) (s : FsState) : Decidable (RoomAt sb a s) := by
  cases a <;> unfold RoomAt <;> infer_instance

instance (sb : Superblock) (s : FsState) (l : Fs.Event) : Decidable (l.Roomy sb s) :=
  match l with
  | .call p c => inferInstanceAs (Decidable ((c.prog p).Meets Act.exec (RoomAt sb) s))
  | .outside _ => instDecidableTrue

/-! ## From monitored runs to runs -/

lemma guarded_roomy (a : Act) (s : FsState) (h : RoomAt sb a s) :
    (DataAt sb a s ∧ guarded sb .roomy a s = a.exec s) ∨
      ∃ s', guarded sb .roomy a s = .error (.panic "monitor") s' := by
  cases a with
  | ballocEnter => exact .inl ⟨trivial, by rw [guarded, if_neg fun hno => hno.2 h]⟩
  | ballocDone b =>
      by_cases hif : b < s.log.start ∧ (Mode.roomy = .roomy → InData sb b)
      · by_cases hw : Watched (.ballocDone b) s
        · exact .inl ⟨hif.2 rfl, by rw [guarded, if_pos hif, if_pos hw]⟩
        · exact .inr ⟨s, by rw [guarded, if_pos hif, if_neg hw]⟩
      · exact .inr ⟨s, by rw [guarded, if_neg hif, if_pos rfl]⟩
  | iallocDone x =>
      by_cases hw : Watched (.iallocDone x) s
      · exact .inl ⟨trivial, by rw [guarded, if_pos hw]⟩
      · exact .inr ⟨s, by rw [guarded, if_neg hw]⟩
  | commitTrans =>
      by_cases hw : Watched .commitTrans s
      · exact .inl ⟨trivial, by rw [guarded, if_pos hw]⟩
      · exact .inr ⟨s, by rw [guarded, if_neg hw]⟩
  | iputStart e =>
      by_cases hw : Watched (.iputStart e) s
      · exact .inl ⟨trivial, by rw [guarded, if_pos hw]⟩
      · exact .inr ⟨s, by rw [guarded, if_neg hw]⟩
  | _ => exact .inl ⟨trivial, rfl⟩

/-- What a rule says of a program holds of its runs that always find room. -/
lemma Safe.of_roomy {α : Type} {p : Sys α} {Q : α → FsState → Prop} (h : Safe sb .roomy p Q s)
    (hroom : p.Meets Act.exec (RoomAt sb) s) :
    Wp (p.run Act.exec) Q Fine s ∧ p.Meets Act.exec (DataAt sb) s := by
  obtain ⟨hrun, hmeets⟩ := Prog.run_eq_of_meets guarded_roomy hroom fun s' => h.ne_monitor
  refine ⟨?_, hmeets⟩
  rw [Wp, ← hrun]
  exact h

/-! ## Runs -/

/-- All blocks that `balloc` has returned are data blocks before the log. -/
def AllInData (sb : Superblock) (s : FsState) : Prop :=
  s.log.start = sb.logStart ∧ ∀ b ∈ s.seen.ballocs, InData sb b

lemma AllInData.apart (h : AllInData sb s) : Apart s := fun b hb => h.1 ▸ (h.2 b hb).2

lemma allInData_exec (a : Act) (s : FsState) (ha : DataAt sb a s) (h : AllInData sb s) :
    AllInData sb (endState a.exec s) := by
  refine Wp.endState (P := AllInData sb) ?_
  rw [Wp]
  generalize hx : a.exec s = x
  cases a with
  | ballocDone b =>
      subst hx
      refine ⟨h.1, fun c hc => ?_⟩
      rcases List.mem_append.1 hc with hc | hc
      · exact h.2 c hc
      · rwa [List.mem_singleton.1 hc]
  | pipeclose page writable =>
      subst hx
      simp only [Act.exec, FsState.pipeclose]
      split <;> exact h
  | _ =>
      simp only [Act.exec] at hx
      repeat' split at hx
      all_goals subst hx; exact h

/-- The invariant of runs with room. -/
structure Roomy (sb : Superblock) (s : FsState) : Prop where
  sound : Sound sb s
  ballocs : AllInData sb s

namespace Roomy

/-- What a call does that always finds room. -/
lemma call {p : ProcId} {c : Fs.Call} (h : Roomy sb s) (hc : c.Enabled s p)
    (hroom : (c.prog p).Meets Act.exec (RoomAt sb) s) :
    Wp ((c.prog p).run Act.exec) (fun _ s' => Done sb p c s s') Fine s ∧
      (c.prog p).Meets Act.exec (DataAt sb) s :=
  (Safe.done h.sound.inv h.sound.dirs hc).of_roomy hroom

lemma step {l : Fs.Event} {r : Option Fs.Record} (h : Roomy sb s) (hl : l.Enabled s)
    (hroom : l.Roomy sb s) (hs : Fs.step s l = some (s', r)) : Roomy sb s' := by
  have hdata : AllInData sb s' := by
    cases l with
    | call p c =>
        obtain ⟨v, hx, -⟩ := Fs.step_call hs
        have hend := (h.call hl hroom).2.endState allInData_exec h.ballocs
        rwa [endState, hx] at hend
    | outside o =>
        obtain ⟨rfl, -⟩ : s.setOutside o = s' ∧ none = r := by
          simpa [Fs.step, setOutside] using hs
        exact h.ballocs
  exact ⟨h.sound.step hl hs hdata.apart, hdata⟩

lemma of_run {es : List Fs.Record} (wf : WellFormed sb blk)
    (h : Fs.RoomyRun sb (Fs.boot sb blk disksize o) es s) : Roomy sb s :=
  h.invariant (I := fun _ s => Roomy sb s)
    ⟨⟨boot_inv wf, boot_dirs wf⟩, rfl, by simp [Fs.boot]⟩ fun hI hl hs => hI.step hl.1 hl.2 hs

end Roomy

/-- From every well-formed image, in every run in which `balloc` is not called without a free block
before the log: all blocks that `balloc` has returned, returns in the next call, and all blocks that
the inodes have, are data blocks before the log; and the log is where it was. -/
theorem balloc_before_log {es : List Fs.Record} (wf : WellFormed sb blk)
    (h : Fs.RoomyRun sb (Fs.boot sb blk disksize o) es s) :
    (s.log.start = sb.logStart ∧ ∀ b ∈ s.seen.ballocs, InData sb b) ∧
    (∀ l b, own sb s.blk (dinodeAt s.blk) l = some b → InData sb b) ∧
    ∀ (p : ProcId) (c : Fs.Call), c.Enabled s p → (c.prog p).Meets Act.exec (RoomAt sb) s →
      (c.prog p).Meets Act.exec (DataAt sb) s := by
  have hr := Roomy.of_run wf h
  refine ⟨hr.ballocs, fun l b hl => ?_, fun p c hc hroom => (hr.call hc hroom).2⟩
  exact ⟨(hr.sound.good.owns.held l b hl).1.1, hr.sound.good.home l b hl⟩

/-- Two directories are made on an image with room. -/
theorem balloc_before_log_small : ∃ es s, Fs.RoomyRun (Fs.smallSb 20) (Fs.small 20) es s ∧
    s.seen.ballocs = [6, 7] ∧ ∀ b ∈ s.seen.ballocs, InData (Fs.smallSb 20) b := by
  have hrun : ∃ es s, Fs.RoomyRun (Fs.smallSb 20) (Fs.small 20) es s ∧ s.seen.ballocs = [6, 7] :=
    Run.exists_of_exec (fun _ (s : FsState) => s.seen.ballocs = [6, 7])
      [Fs.Event.call Fs.initproc (.mkdir (some [97])), .call Fs.initproc (.mkdir (some [98]))]
      (by decide +kernel)
  obtain ⟨es, s, h, hballocs⟩ := hrun
  exact ⟨es, s, h, hballocs, (balloc_before_log (small_wellFormed (by decide)) h).1.2⟩

/-- Without a free data block, the block of a new directory is the first block of the log. -/
theorem balloc_takes_log : WellFormed (Fs.smallSb 0) (Fs.smallBlk 0) ∧ ∃ es s,
    Fs.Reached (Fs.small 0) es s ∧ (Fs.smallSb 0).logStart ∈ s.seen.ballocs := by
  refine ⟨small_wellFormed (by decide), ?_⟩
  exact Fs.exists_reached (Fs.small 0) [.call Fs.initproc (.mkdir (some [97]))]
    (fun s => (Fs.smallSb 0).logStart ∈ s.seen.ballocs) (by decide +kernel)

end Xv6
