import Xv6.Vm.User

/-!
# `freevm`

`freevm` frees the user pages of a directory, then its tables, then the directory itself.  While the
tables are freed the directory still has their entries, which nobody uses any more: its role is then
`dying`.
-/

namespace Xv6

open Lib

section

variable {K : Kernel} {s s' : Mem} {ρ ρ' : ℕ → Role} {d t f i : ℕ} {p : Page}

/-- A table or a user page of directory `d`. -/
def Role.Of (d : ℕ) : Role → Prop
  | .table e _ | .user e _ => e = d
  | _ => False

/-- The frames of directory `d` have been freed, and nothing has been done to the others. -/
structure Releases (K : Kernel) (d : ℕ) (s : Mem) (ρ : ℕ → Role) (s' : Mem) (ρ' : ℕ → Role) :
    Prop where
  typed : Typed K s' ρ'
  kept : ∀ f, f ≠ d → ρ f ≠ .free → ¬ (ρ f).Of d → ρ' f = ρ f ∧ ((ρ f).Data → s'.page f = s.page f)
  other : ∀ e, ρ e = .dir → e ≠ d → ∀ v < 2 ^ 20, s'.space e v = s.space e v

/-- A table of a dying directory is freed. -/
lemma Typed.freeTable (h : Typed K s ρ) (hd : ρ d = .dying) (ht : ρ t = .table d i) :
    Typed K { s.setPage t p with freelist := t :: s.freelist } (Function.update ρ t .free) := by
  have hun : Unref s ρ t := by
    refine ⟨fun e k he => ?_, fun e v he => absurd (ht.symm.trans he) (by simp), fun g k hg => ?_⟩
    · obtain ⟨rfl, -⟩ := Role.table.inj (ht.symm.trans he)
      rw [hd]
      simp
    · rcases (h.link g t k hg).2 with ⟨heq, -⟩ | heq <;> exact absurd (ht.symm.trans heq) (by simp)
  have h₁ := h.recast hun (by rw [ht]; simp) (h.not_mem (by rw [ht]; simp)) .taken
    (by simp) (by simp)
  have h₂ := h₁.give (p := p) (f := t) (by rw [Function.update_self]; trivial) (by simp) (by simp)
  rwa [Function.update_idem] at h₂

/-- A dying directory without tables is freed. -/
lemma Typed.freeDir (h : Typed K s ρ) (hd : ρ d = .dying) (hgone : ∀ t i, ρ t ≠ .table d i) :
    Typed K { s.setPage d p with freelist := d :: s.freelist } (Function.update ρ d .free) := by
  have hun : Unref s ρ d :=
    ⟨fun e k he => absurd (hd.symm.trans he) (by simp), fun e v he => absurd (hd.symm.trans he)
      (by simp), hgone⟩
  have h₁ := h.recast hun (by rw [hd]; simp) (h.not_mem (by rw [hd]; simp)) .taken
    (by simp) (by simp)
  have h₂ := h₁.give (p := p) (f := d) (by rw [Function.update_self]; trivial) (by simp) (by simp)
  rwa [Function.update_idem] at h₂

/-- The loop of `freevm` over the entries from `i` on.  The tables of the entries before are
free. -/
lemma Vm.freeTables_spec {n : ℕ} (h : Typed K s ρ) (hd : ρ d = .dying) (hn : i + n = NPDENTRIES)
    (hpde : ∀ k, i ≤ k → k < NPDENTRIES →
      s.word d k = 0 ∨ ∃ t, Refers (s.word d k) t ∧ ρ t = .table d k)
    (htab : ∀ t k, ρ t = .table d k → i ≤ k ∧ Refers (s.word d k) t) :
    Wp (freeTables K n d i)
      (fun _ s' => ∃ ρ', Typed K s' ρ' ∧ (∀ t k, ρ' t ≠ .table d k) ∧
        ∀ f, (∀ k, ρ f ≠ .table d k) → ρ' f = ρ f ∧ s'.page f = s.page f)
      (fun _ _ => False) s := by
  have hP := PGSIZE_eq
  induction n generalizing i s ρ with
  | zero =>
      refine .of_pure ⟨ρ, h, fun t k ht => ?_, fun _ _ => ⟨rfl, rfl⟩⟩
      have := (htab t k ht).1
      have := (h.link t d k ht).1
      omega
  | succ n ih =>
      refine .of_bind (.of_ok (load_eq (h.pool d (by rw [hd]; simp))) ?_)
      rcases hpde i le_rfl (by omega) with hw | ⟨t, hw, ht⟩
      · rw [hw, if_neg (by decide)]
        refine .of_bind (.of_pure (ih h hd (by omega) (fun k hk => hpde k (by omega))
          fun t k ht => ?_))
        obtain ⟨hk, hword⟩ := htab t k ht
        refine ⟨Nat.lt_of_le_of_ne hk fun hik => ?_, hword⟩
        rw [← hik] at hword
        exact hword.ne_zero hw
      · have htd : d ≠ t := by
          rintro rfl
          exact absurd (ht.symm.trans hd) (by simp)
        have h₁ := h.freeTable (p := fun _ => 1) hd ht
        have hword : ∀ k, ({ s.setPage t (fun _ => 1) with freelist := t :: s.freelist } : Mem).word
          d k = s.word d k :=
          Mem.word_of_page (Mem.setPage_page_of_ne htd)
        rw [if_pos (by rw [and_PTE_P, hw.2]; decide), hw.1]
        refine .of_bind (.of_ok (kfree_eq (h.pool t (by rw [ht]; simp))) ?_)
        refine .mono (ih h₁ (by rwa [Function.update_of_ne htd]) (by omega) (fun k hk hk' => ?_)
          fun g k hg => ?_) ?_ fun _ _ => id
        · rw [hword]
          refine (hpde k (by omega) hk').imp_right fun hlinked => ?_
          obtain ⟨g, hg, hrole⟩ := hlinked
          refine ⟨g, hg, ?_⟩
          rw [Function.update_of_ne, hrole]
          rintro rfl
          have := (Role.table.inj (ht.symm.trans hrole)).2
          omega
        · have hgt : g ≠ t := by
            rintro rfl
            exact absurd hg (by simp)
          rw [Function.update_of_ne hgt] at hg
          obtain ⟨hk, hword'⟩ := htab g k hg
          refine ⟨Nat.lt_of_le_of_ne hk fun hik => hgt ?_, by rwa [hword k]⟩
          rw [← hik] at hword'
          exact hword'.unique hw
        · rintro - s' ⟨ρ', htyped, hgone, hkept⟩
          refine ⟨ρ', htyped, hgone, fun f hf => ?_⟩
          have hft : f ≠ t := by
            rintro rfl
            exact hf i ht
          obtain ⟨hrole, hpage⟩ := hkept f (by rwa [Function.update_of_ne hft])
          rw [Function.update_of_ne hft] at hrole
          exact ⟨hrole, hpage.trans (Mem.setPage_page_of_ne hft)⟩

/-- `freevm`. -/
lemma Vm.freevm_spec (h : Typed K s ρ) (hd : ρ d = .dir) :
    Wp (freevm K (some d)) (fun _ s' => ∃ ρ', Releases K d s ρ s' ρ') (fun _ _ => False) s := by
  refine .of_bind (.mono (deallocuvm_spec h hd le_rfl) ?_ fun _ _ => id)
  rintro - s₁ ⟨-, ρ₁, fr, -⟩
  have e := fr.evolves
  have hd₁ := e.dir hd
  have hdying : Function.update ρ₁ d .dying d = .dying := Function.update_self ..
  have hne : ∀ t k, ρ₁ t = .table d k → t ≠ d := by
    rintro t k ht rfl
    exact absurd (ht.symm.trans hd₁) (by simp)
  have htable : ∀ t k, Function.update ρ₁ d .dying t = .table d k → ρ₁ t = .table d k :=
    fun t k ht => by
    by_cases htd : t = d
    · rw [htd, hdying] at ht
      exact absurd ht (by simp)
    · rwa [Function.update_of_ne htd] at ht
  have hpde : ∀ k, 0 ≤ k → k < NPDENTRIES →
      s₁.word d k = 0 ∨ ∃ t, Refers (s₁.word d k) t ∧ Function.update ρ₁ d .dying t = .table d k :=
    fun k _ hk => (e.typed.pde d k hd₁ hk).imp_right fun ⟨t, hw, ht⟩ =>
      ⟨t, hw, by rwa [Function.update_of_ne (hne t k ht)]⟩
  have hlink : ∀ t k, Function.update ρ₁ d .dying t = .table d k →
      0 ≤ k ∧ Refers (s₁.word d k) t := fun t k ht =>
    ⟨Nat.zero_le k, ((e.typed.link t d k (htable t k ht)).2.resolve_right (by rw [hd₁]; simp)).2⟩
  refine .of_bind (.mono (freeTables_spec (e.typed.die hd₁) hdying (Nat.zero_add _) hpde hlink)
    ?_ fun _ _ => id)
  rintro - s₂ ⟨ρ₂, htyped, hgone, hkept⟩
  have hd₂ : ρ₂ d = .dying := by rw [(hkept d fun k => by rw [hdying]; simp).1, hdying]
  -- the frames that are not of the directory
  have hrest : ∀ f, f ≠ d → ρ f ≠ .free → ¬ (ρ f).Of d → ρ₁ f = ρ f ∧
    ((ρ f).Data → s₁.page f = s.page f) := by
    intro f hfd hfree hof
    by_cases htaken : ρ f = .taken
    · obtain ⟨hrole, hpage⟩ := fr.taken f htaken
      exact ⟨hrole.trans htaken.symm, fun _ => hpage⟩
    · have hset : (ρ f).Settled d := by
        revert hfree hof htaken
        cases ρ f with
        | user e v => exact fun _ hof _ => hof
        | free => simp
        | taken => simp
        | _ => intros; trivial
      exact ⟨e.role f hset, e.data f hset⟩
  have hkept' : ∀ f, f ≠ d → (∀ k, ρ₁ f ≠ .table d k) →
      Function.update ρ₂ d .free f = ρ₁ f ∧
        ({ s₂.setPage d (fun _ => 1) with freelist := d :: s₂.freelist } : Mem).page f =
        s₁.page f := fun f hfd hf => by
    obtain ⟨hrole, hpage⟩ := hkept f fun k => by rw [Function.update_of_ne hfd]; exact hf k
    rw [Function.update_of_ne hfd] at hrole ⊢
    exact ⟨hrole, (Mem.setPage_page_of_ne hfd).trans hpage⟩
  refine .of_ok (kfree_eq (htyped.pool d (by rw [hd₂]; simp))) ⟨_, htyped.freeDir hd₂ hgone,
    fun f hfd hfree hof => ?_,
    fun g hg hgd v hv => ?_⟩
  · obtain ⟨hrole, hpage⟩ := hrest f hfd hfree hof
    obtain ⟨hrole', hpage'⟩ := hkept' f hfd fun k hk => by
      rw [hrole] at hk
      rw [hk] at hof
      exact hof rfl
    exact ⟨hrole'.trans hrole, fun hdata => hpage'.trans (hpage hdata)⟩
  · have hg₁ := e.dir hg
    refine (e.typed.space_congr hg₁ hv ?_ fun t k ht => ?_).trans (e.other g hg hgd v hv)
    · exact (hkept' g hgd fun k hk => absurd (hg₁.symm.trans hk) (by simp)).2
    · refine (hkept' t ?_ fun k' hk' => hgd (Role.table.inj (ht.symm.trans hk')).1).2
      rintro rfl
      exact absurd (ht.symm.trans hd₁) (by simp)

end

end Xv6
