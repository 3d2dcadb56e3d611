import Xv6.Vm.Tables

/-!
# The user part of an address space

What `deallocuvm`, `allocuvm`, `freevm` and `copyuvm` do.  `deallocuvm` steps over 4 MB when there
is no page table, wherever in the 4 MB it is; it then leaves out the first pages of the next ones.
`allocuvm` does not look at what `mappages` returns; it then leaves out a page.  The lemmas say what
has been done in any case, and under which condition it is all that should have been done.
-/

namespace Xv6

open Lib

section

variable {K : Kernel} {s s' : Mem} {ρ ρ' : ℕ → Role} {d t f v u i j : ℕ}

/-! ## `deallocuvm` -/

/-- The frame of a page, if it is mapped. -/
def Mem.held (s : Mem) (d v : ℕ) : List ℕ := if s.space d v = 0 then []
    else [PTE_ADDR (s.space d v)]

/-- The frames `l` of pages of directory `d` that satisfy `P` have been freed. -/
structure Frees (K : Kernel) (d : ℕ) (P : ℕ → Prop) (l : List ℕ) (s : Mem) (ρ : ℕ → Role) (s' : Mem)
    (ρ' : ℕ → Role) : Prop where
  evolves : Evolves K d P s ρ s' ρ'
  list : s'.freelist = l.reverse ++ s.freelist
  fails : s'.fails = s.fails
  input : s'.input = s.input
  kept : ∀ f x, ¬ P x → ρ f = .user d x → ρ' f = .user d x ∧ s'.page f = s.page f
  taken : ∀ f, ρ f = .taken → ρ' f = .taken ∧ s'.page f = s.page f
  zero : ∀ x < 2 ^ 20, s.space d x = 0 → s'.space d x = 0
  dir : s'.page d = s.page d

namespace Frees

variable {P P' : ℕ → Prop} {l l' : List ℕ} {s'' : Mem} {ρ'' : ℕ → Role}

lemma refl (h : Typed K s ρ) : Frees K d P [] s ρ s ρ :=
  ⟨.refl h, rfl, rfl, rfl, fun _ _ _ hf => ⟨hf, rfl⟩, fun _ hf => ⟨hf, rfl⟩, fun _ _ hx => hx, rfl⟩

lemma trans (h : Frees K d P l s ρ s' ρ') (h' : Frees K d P l' s' ρ' s'' ρ'') :
    Frees K d P (l ++ l') s ρ s'' ρ'' := by
  refine ⟨h.evolves.trans h'.evolves, ?_, h'.fails.trans h.fails, h'.input.trans h.input,
    fun f x hx hf => ?_,
    fun f hf => ?_, fun x hx hz => h'.zero x hx (h.zero x hx hz), h'.dir.trans h.dir⟩
  · rw [h'.list, h.list, List.reverse_append, List.append_assoc]
  · obtain ⟨hrole, hpage⟩ := h.kept f x hx hf
    obtain ⟨hrole', hpage'⟩ := h'.kept f x hx hrole
    exact ⟨hrole', hpage'.trans hpage⟩
  · obtain ⟨hrole, hpage⟩ := h.taken f hf
    obtain ⟨hrole', hpage'⟩ := h'.taken f hrole
    exact ⟨hrole', hpage'.trans hpage⟩

lemma mono (h : Frees K d P l s ρ s' ρ') (hP : ∀ x, P x → P' x) : Frees K d P' l s ρ s' ρ' :=
  ⟨h.evolves.mono hP, h.list, h.fails, h.input, fun f x hx => h.kept f x fun hPx => hx (hP x hPx),
    h.taken, h.zero,
    h.dir⟩

end Frees

/-- A frame that `kalloc` returns is not the first one. -/
lemma Kernel.Pool.pos (h : K.Pool f) : f ≠ 0 := by
  rintro rfl
  have := h.1
  have := K.order
  have := K.text
  have hL : KERNLINK = KERNBASE + EXTMEM := rfl
  have hE := EXTMEM_eq
  omega

lemma Vm.kfree_eq (h : K.Pool f) :
    kfree K f s = .ok () { s.setPage f (fun _ => 1) with freelist := f :: s.freelist } :=
  if_neg (by rintro (h' | h') <;> have := h.1 <;> have := h.2 <;> omega)

/-- The page of one entry is freed. -/
lemma Vm.freePage_spec (h : Typed K s ρ) (hd : ρ d = .dir) (ht : ρ t = .table d (v / NPTENTRIES))
    (hv : v < KERNPAGE) :
    Wp (freePage K t (v % NPTENTRIES))
      (fun _ s' => ∃ ρ', Frees K d (· = v) (s.held d v) s ρ s' ρ' ∧ s'.space d v = 0)
      (fun _ _ => False) s := by
  have hP := PGSIZE_eq
  have hKP := KERNPAGE_eq
  have hN := NPTENTRIES_eq
  have hj : v % NPTENTRIES < NPTENTRIES := Nat.mod_lt _ (by decide)
  have hvn : NPTENTRIES * (v / NPTENTRIES) + v % NPTENTRIES = v := Nat.div_add_mod v NPTENTRIES
  have hpt := h.pool t (by rw [ht]; simp)
  obtain ⟨-, hlink⟩ := (h.link t d _ ht).2.resolve_right (by rw [hd]; simp)
  have hword : s.word t (v % NPTENTRIES) = s.space d v := by rw [Typed.space_of_table hlink]
  refine .of_bind (.of_ok (load_eq hpt) ?_)
  rw [hword]
  rcases h.entry hd (show v < 2 ^ 20 by omega) with hz | ⟨-, f, hw, hf⟩ | ⟨hk, -⟩
  · rw [hz, if_neg (by simp)]
    refine .of_pure ⟨ρ, ?_, hz⟩
    rw [Mem.held, if_pos hz]
    exact .refl h
  · have hpf := h.pool f (by rw [hf]; simp)
    rw [if_pos (by rw [and_PTE_P, hw.2]; decide), hw.1, if_neg hpf.pos]
    refine .of_bind (.of_ok (kfree_eq hpf) ?_)
    have htf : t ≠ f := by
      rintro rfl
      exact absurd (ht.symm.trans hf) (by simp)
    have hdf : d ≠ f := by
      rintro rfl
      exact absurd (hd.symm.trans hf) (by simp)
    have hdt : d ≠ t := by
      rintro rfl
      exact absurd (hd.symm.trans ht) (by simp)
    -- the entry could as well have been cleared before the frame was freed
    have hcomm : ({ s.setPage f (fun _ => 1) with freelist := f :: s.freelist } : Mem).setWord t
          (v % NPTENTRIES) 0 =
        { (s.setWord t (v % NPTENTRIES) 0).setPage f (fun _ => 1) with
          freelist := f :: s.freelist } := by
      have hpage : ({ s.setPage f (fun _ => 1) with freelist := f :: s.freelist } : Mem).page
        t = s.page t :=
        Mem.setPage_page_of_ne htf
      rw [Mem.setWord, hpage, Mem.setWord, ← Mem.setPage_setPage_comm htf.symm]
      rfl
    refine .of_ok (store_eq hpt) ?_
    rw [hcomm]
    have e₁ : Evolves K d (· = v) s ρ _ _ := .unmap h hd ht hj (by rwa [hvn]) hvn
    have hf₁ : Function.update ρ f .taken f = .taken := Function.update_self ..
    have e₂ := e₁.trans (Evolves.give (p := fun _ => 1) e₁.typed hf₁)
    rw [Function.update_idem] at e₂
    have hd₁ : Function.update ρ f .taken d = .dir := by rwa [Function.update_of_ne hdf]
    have hgone : ({ (s.setWord t (v % NPTENTRIES) 0).setPage f (fun _ => 1) with
        freelist := f :: s.freelist } : Mem).space d v = 0 := by
      refine (e₁.typed.space_setPage (p := fun _ => 1) (by rw [hf₁]; trivial) hd₁ (by omega)).trans
        ?_
      rw [h.space_putPte hd ht hj (Nat.two_pow_pos 32) hd (by omega), if_pos ⟨rfl, hvn.symm⟩]
    refine ⟨_, ⟨e₂, ?_, rfl, rfl, fun g x hx hg => ⟨?_, ?_⟩, fun g hg => ⟨?_, ?_⟩,
      fun x hx hz => ?_, ?_⟩, hgone⟩
    · rw [Mem.held, if_neg hw.ne_zero, hw.1]
      rfl
    · rwa [Function.update_of_ne]
      rintro rfl
      exact hx (Role.user.inj (hg.symm.trans hf)).2
    · refine (Mem.setPage_page_of_ne ?_).trans (Mem.setWord_page_of_ne ?_)
      · rintro rfl
        exact hx (Role.user.inj (hg.symm.trans hf)).2
      · rintro rfl
        exact absurd (hg.symm.trans ht) (by simp)
    · rwa [Function.update_of_ne]
      rintro rfl
      exact absurd (hg.symm.trans hf) (by simp)
    · refine (Mem.setPage_page_of_ne ?_).trans (Mem.setWord_page_of_ne ?_)
      · rintro rfl
        exact absurd (hg.symm.trans hf) (by simp)
      · rintro rfl
        exact absurd (hg.symm.trans ht) (by simp)
    · by_cases hxv : x = v
      · rw [hxv, hgone]
      · exact (e₂.keep hd x hx hxv).trans hz
    · exact (Mem.setPage_page_of_ne hdf).trans (Mem.setWord_page_of_ne hdt)
  · exact absurd hv (by omega)

/-- A loop from page `v` on steps over page `x`: there is no table from that of `v` to that of `x`,
and in its own table `x` comes before the place that `v` has in another one. -/
def Mem.Skips (s : Mem) (d v x : ℕ) : Prop :=
  v / NPTENTRIES < x / NPTENTRIES ∧ x % NPTENTRIES < v % NPTENTRIES ∧
    ∀ i < x / NPTENTRIES, v / NPTENTRIES ≤ i → s.word d i = 0

instance (s : Mem) (d v x : ℕ) : Decidable (s.Skips d v x) :=
  inferInstanceAs (Decidable (_ ∧ _ ∧ _))

/-- With a table for its first page, the loop steps over nothing. -/
lemma Mem.not_skips (h : v % NPTENTRIES = 0 ∨ s.word d (v / NPTENTRIES) ≠ 0) (x : ℕ) :
    ¬ s.Skips d v x := by
  rintro ⟨hlt, hmod, hempty⟩
  rcases h with h | h
  · omega
  · exact h (hempty _ hlt le_rfl)

/-- Behind the first table that is missing, nothing changes. -/
lemma Mem.skips_add {x : ℕ} (h : s.word d (v / NPTENTRIES) = 0) (hx : v + NPTENTRIES ≤ x) :
    s.Skips d (v + NPTENTRIES) x ↔ s.Skips d v x := by
  rw [Mem.Skips, Mem.Skips, Nat.add_div_right v (by decide), Nat.add_mod_right]
  refine ⟨fun ⟨hlt, hmod, hempty⟩ => ⟨by omega, hmod, fun i hi hle => ?_⟩,
    fun ⟨hlt, hmod, hempty⟩ => ⟨?_, hmod, fun i hi hle => hempty i hi (by omega)⟩⟩
  · by_cases hiv : i = v / NPTENTRIES
    · rw [hiv, h]
    · exact hempty i hi (by omega)
  · rw [NPTENTRIES_eq] at *
    omega

/-- The frame of a page that the loop from page `v` on frees. -/
def Mem.freed (s : Mem) (d v x : ℕ) : List ℕ := if s.Skips d v x then [] else s.held d x

lemma Mem.freed_of_empty {x : ℕ} (h : s.word d (x / NPTENTRIES) = 0) : s.freed d v x = [] := by
  rw [Mem.freed, Mem.held, if_pos (Typed.space_of_empty h)]
  split <;> rfl

lemma flatMap_range_eq_nil {g : ℕ → List ℕ} {n : ℕ} (h : ∀ x, v ≤ x → x < v + n → g x = []) :
    (List.range' v n).flatMap g = [] := by
  rw [List.flatMap_eq_nil_iff]
  intro x hx
  rw [List.mem_range'_1] at hx
  exact h x hx.1 hx.2

/-- The loop of `deallocuvm` removes all pages but those that it steps over. -/
lemma Vm.deallocuvmLoop_spec {n oldsz : ℕ} (h : Typed K s ρ) (hd : ρ d = .dir) (hu : u ≤ KERNPAGE)
    (hsz : ∀ x, x * PGSIZE < oldsz ↔ x < u) (hn : u - v < n) :
    Wp (deallocuvmLoop K n d oldsz (v * PGSIZE))
      (fun _ s' => ∃ ρ', Frees K d (fun x => v ≤ x ∧ x < u ∧ ¬ s.Skips d v x)
          ((List.range' v (u - v)).flatMap (s.freed d v)) s ρ s' ρ' ∧
        ∀ x, v ≤ x → x < u → ¬ s.Skips d v x → s'.space d x = 0)
      (fun _ _ => False) s := by
  have hP := PGSIZE_eq
  have hKP := KERNPAGE_eq
  have hN := NPTENTRIES_eq
  induction n generalizing v s ρ with
  | zero => omega
  | succ n ih =>
      rw [deallocuvmLoop]
      by_cases hvu : v < u
      · rw [if_pos ((hsz v).2 hvu)]
        rcases walkpgdir_find h hd (v * PGSIZE) with ⟨t, hw, ht, hfind⟩ | ⟨hw, hfind⟩
        · rw [PDX_page (by omega)] at hw ht
          rw [PTX_page] at hfind
          refine .of_bind (.of_ok (hfind false) ?_)
          refine .of_bind (.mono (freePage_spec h hd ht (by omega)) ?_ fun _ _ => id)
          rintro - s₁ ⟨ρ₁, fr, hgone⟩
          rw [show (v * PGSIZE + PGSIZE) % 2 ^ 32 = (v + 1) * PGSIZE by rw [hP]; omega]
          refine .mono (ih fr.evolves.typed (fr.evolves.dir hd) (by omega)) ?_ fun _ _ => id
          rintro - s₂ ⟨ρ₂, fr', hzero⟩
          -- neither this loop nor the rest of it steps over a page
          have hno : ∀ x, ¬ s.Skips d v x := Mem.not_skips (.inr hw.ne_zero)
          have hno' : ∀ x, ¬ s₁.Skips d (v + 1) x := by
            refine Mem.not_skips ?_
            by_cases hmod : (v + 1) % NPTENTRIES = 0
            · exact .inl hmod
            · have hdiv : (v + 1) / NPTENTRIES = v / NPTENTRIES := by
                rw [hN] at hmod ⊢
                omega
              rw [hdiv, Mem.word_of_page fr.dir]
              exact .inr hw.ne_zero
          have hlist : (List.range' v (u - v)).flatMap (s.freed d v) =
              s.held d v ++ (List.range' (v + 1) (u - (v + 1))).flatMap (s₁.freed d (v + 1)) := by
            rw [show u - v = u - (v + 1) + 1 by omega, List.range'_succ, List.flatMap_cons,
              Mem.freed, if_neg (hno v)]
            congr 1
            refine List.flatMap_congr fun x hx => ?_
            rw [List.mem_range'_1] at hx
            rw [Mem.freed, Mem.freed, if_neg (hno x), if_neg (hno' x), Mem.held, Mem.held,
              fr.evolves.keep hd x (by omega) (by omega)]
          rw [hlist]
          refine ⟨ρ₂, (fr.mono fun x hx => ⟨hx.ge, by omega, hno x⟩).trans
            (fr'.mono fun x hx => ⟨by omega, hx.2.1, hno x⟩), fun x hx hx' _ => ?_⟩
          by_cases hxv : x = v
          · rw [hxv, fr'.evolves.keep (fr.evolves.dir hd) v (by omega) (by omega), hgone]
          · exact hzero x (by omega) hx' (hno' x)
        · rw [PDX_page (by omega)] at hw
          refine .of_bind (.of_ok hfind ?_)
          dsimp only
          rw [show (v * PGSIZE + (NPTENTRIES - 1) * PGSIZE + PGSIZE) % 2 ^ 32 =
            (v + NPTENTRIES) * PGSIZE by rw [hP, hN]; omega]
          refine .mono (ih h hd (by omega)) ?_ fun _ _ => id
          rintro - s₂ ⟨ρ₂, fr, hzero⟩
          -- of the pages up to there, those that the loop does not step over have no table
          have hempty : ∀ x, v ≤ x → x < v + NPTENTRIES → ¬ s.Skips d v x →
              s.word d (x / NPTENTRIES) = 0 := by
            intro x hx hx' hno
            by_cases hdiv : x / NPTENTRIES = v / NPTENTRIES
            · rw [hdiv, hw]
            · refine absurd ⟨?_, ?_, fun i hi hle => ?_⟩ hno
              · rw [hN] at *
                omega
              · rw [hN] at *
                omega
              · obtain rfl : i = v / NPTENTRIES := by
                  rw [hN] at *
                  omega
                exact hw
          have hlist : (List.range' v (u - v)).flatMap (s.freed d v) =
              (List.range' (v + NPTENTRIES) (u - (v + NPTENTRIES))).flatMap
                (s.freed d (v + NPTENTRIES)) := by
            have hnil : ∀ x, v ≤ x → x < v + NPTENTRIES → s.freed d v x = [] := by
              intro x hx hx'
              by_cases hskip : s.Skips d v x
              · exact if_pos hskip
              · exact Mem.freed_of_empty (hempty x hx hx' hskip)
            by_cases hun : u ≤ v + NPTENTRIES
            · rw [Nat.sub_eq_zero_of_le hun, List.range'_zero, List.flatMap_nil]
              exact flatMap_range_eq_nil fun x hx hx' => hnil x hx (by omega)
            · rw [show u - v = NPTENTRIES + (u - (v + NPTENTRIES)) by omega, ← List.range'_append_1,
                List.flatMap_append, flatMap_range_eq_nil hnil, List.nil_append]
              refine List.flatMap_congr fun x hx => ?_
              rw [List.mem_range'_1] at hx
              simp only [Mem.freed, Mem.skips_add hw hx.1]
          rw [hlist]
          refine ⟨ρ₂, fr.mono fun x hx => ⟨by omega, hx.2.1, ?_⟩, fun x hx hx' hno => ?_⟩
          · rw [← Mem.skips_add hw hx.1]
            exact hx.2.2
          · by_cases hxn : v + NPTENTRIES ≤ x
            · exact hzero x hxn hx' (by rwa [Mem.skips_add hw hxn])
            · exact fr.zero x (by omega) (Typed.space_of_empty (hempty x hx (by omega) hno))
      · rw [if_neg (by rw [hsz]; exact hvu), Nat.sub_eq_zero_of_le (by omega)]
        exact .of_pure ⟨ρ, .refl h, fun x hx hx' => by omega⟩

/-- The pages of some size. -/
def pages (sz : ℕ) : ℕ := (sz + PGSIZE - 1) / PGSIZE

lemma lt_pages {sz : ℕ} (x : ℕ) : x * PGSIZE < sz ↔ x < pages sz := by
  have hP := PGSIZE_eq
  rw [pages, hP]
  omega

lemma pages_le {sz : ℕ} (h : sz ≤ KERNBASE) : pages sz ≤ KERNPAGE := by
  have hP := PGSIZE_eq
  have hB := KERNBASE_eq
  have hKP := KERNPAGE_eq
  rw [pages, hP]
  omega

lemma PGROUNDUP_eq {sz : ℕ} (h : sz ≤ KERNBASE) : PGROUNDUP sz = pages sz * PGSIZE := by
  have hP := PGSIZE_eq
  have hB := KERNBASE_eq
  rw [PGROUNDUP, pages, Nat.mod_eq_of_lt (by omega)]

/-- `deallocuvm`. -/
lemma Vm.deallocuvm_spec {oldsz newsz : ℕ} (h : Typed K s ρ) (hd : ρ d = .dir)
    (hold : oldsz ≤ KERNBASE) :
    Wp (deallocuvm K d oldsz newsz)
      (fun r s' => r = min oldsz newsz ∧ ∃ ρ',
        Frees K d (fun x => pages newsz ≤ x ∧ x < pages oldsz ∧ ¬ s.Skips d (pages newsz) x)
          ((List.range' (pages newsz) (pages oldsz - pages newsz)).flatMap
            (s.freed d (pages newsz))) s ρ s' ρ' ∧
        ∀ x, pages newsz ≤ x → x < pages oldsz → ¬ s.Skips d (pages newsz) x →
          s'.space d x = 0)
      (fun _ _ => False) s := by
  have hP := PGSIZE_eq
  have hB := KERNBASE_eq
  have hKP := KERNPAGE_eq
  rw [deallocuvm]
  split
  · rename_i hle
    have hpages : pages oldsz ≤ pages newsz := Nat.div_le_div_right (by omega)
    rw [Nat.sub_eq_zero_of_le hpages]
    exact .of_pure ⟨(min_eq_left hle).symm, ρ, .refl h, fun x hx hx' => by omega⟩
  · rename_i hlt
    have hle := pages_le hold
    rw [PGROUNDUP_eq (by omega)]
    refine .of_bind (.mono (deallocuvmLoop_spec h hd hle lt_pages (by omega)) ?_ fun _ _ => id)
    intro _ s' hs'
    exact .of_pure ⟨(min_eq_right (by omega)).symm, hs'⟩

/-- The frame of a user page belongs to that page. -/
lemma Typed.role_of_space (h : Typed K s ρ) (hd : ρ d = .dir) (hv : v < KERNPAGE)
    (hne : s.space d v ≠ 0) : ρ (PTE_ADDR (s.space d v)) = .user d v := by
  have hKP := KERNPAGE_eq
  rcases h.entry hd (show v < 2 ^ 20 by omega) with hz | ⟨-, f, hf, hrole⟩ | ⟨hk, -⟩
  · exact absurd hz hne
  · rw [hf.1, hrole]
  · omega

/-! ## `allocuvm` -/

/-- Pages of directory `d` from `v` to `u` have been added, with frames from the free list. -/
structure Grows (K : Kernel) (d v u : ℕ) (s : Mem) (ρ : ℕ → Role) (s' : Mem) (ρ' : ℕ → Role) :
    Prop where
  evolves : Evolves K d (fun x => v ≤ x ∧ x < u) s ρ s' ρ'
  entry : ∀ x, v ≤ x → x < u → s'.space d x = s.space d x ∨
    ∃ f, s'.space d x = f * PGSIZE + 7 ∧ f ∈ s.freelist ∧ s'.page f = fun _ => 0
  list : ∃ n, s'.freelist = s.freelist.drop n
  kept : ∀ f x, ρ f = .user d x → ρ' f = .user d x ∧ s'.page f = s.page f
  taken : ∀ f, ρ f = .taken → ρ' f = .taken ∧ s'.page f = s.page f

namespace Grows

variable {w : ℕ} {s'' : Mem} {ρ'' : ℕ → Role}

lemma refl (h : Typed K s ρ) : Grows K d v v s ρ s ρ :=
  ⟨.refl h, fun x hx hx' => by omega, ⟨0, rfl⟩, fun _ _ hf => ⟨hf, rfl⟩, fun _ hf => ⟨hf, rfl⟩⟩

lemma trans (h : Grows K d v u s ρ s' ρ') (h' : Grows K d u w s' ρ' s'' ρ'') (hd : ρ d = .dir)
    (hvu : v ≤ u) (huw : u ≤ w) (hw : w ≤ KERNPAGE) : Grows K d v w s ρ s'' ρ'' := by
  have hKP := KERNPAGE_eq
  obtain ⟨n, hlist⟩ := h.list
  obtain ⟨n', hlist'⟩ := h'.list
  refine ⟨(h.evolves.mono fun x hx => ⟨hx.1, by omega⟩).trans
    (h'.evolves.mono fun x hx => ⟨by omega, hx.2⟩),
    fun x hx hx' => ?_, ⟨n + n', by rw [hlist', hlist, List.drop_drop]⟩, fun f x hf => ?_,
    fun f hf => ?_⟩
  · by_cases hxu : x < u
    · rw [h'.evolves.keep (h.evolves.dir hd) x (by omega) (by omega)]
      refine (h.entry x hx hxu).imp_right fun ⟨f, he, hf, hpage⟩ => ⟨f, he, hf, ?_⟩
      -- the frame is mapped, so nothing is stored into it
      have hrole := h.evolves.typed.role_of_space (h.evolves.dir hd) (v := x)
        (by omega) (by rw [he]; exact Nat.succ_ne_zero _)
      rw [he, (refers_add (by decide) rfl).1] at hrole
      rw [(h'.kept f x hrole).2, hpage]
    · rw [← h.evolves.keep hd x (by omega) (by omega)]
      refine (h'.entry x (by omega) hx').imp_right fun ⟨f, he, hf, hpage⟩ => ⟨f, he, ?_, hpage⟩
      rw [hlist] at hf
      exact List.mem_of_mem_drop hf
  · obtain ⟨hrole, hpage⟩ := h.kept f x hf
    obtain ⟨hrole', hpage'⟩ := h'.kept f x hrole
    exact ⟨hrole', hpage'.trans hpage⟩
  · obtain ⟨hrole, hpage⟩ := h.taken f hf
    obtain ⟨hrole', hpage'⟩ := h'.taken f hrole
    exact ⟨hrole', hpage'.trans hpage⟩

end Grows

/-- A frame has been taken from the free list, filled, and mapped. -/
lemma Maps.taken {mem w : ℕ} {ok : Bool} {fs : List ℕ} {fails : List Bool} {q : Page}
    (h : Typed K s ρ) (hl : s.freelist = mem :: fs)
    (m : Maps K d v mem w (({ s with freelist := fs, fails := fails } : Mem).setPage mem q)
      (Function.update ρ mem .taken) ok s' ρ') :
    Evolves K d (fun x => ok = true ∧ x = v) s ρ s' ρ' ∧ Preserves s ρ s' ρ' := by
  have hfree := h.free mem (by simp [hl])
  have hne : ∀ f, ρ f ≠ .free → f ≠ mem := by
    rintro f hf rfl
    exact hf hfree
  have hm₁ : Function.update ρ mem .taken mem = .taken := Function.update_self ..
  have e₁ : Evolves K d (fun x => ok = true ∧ x = v) s ρ { s with freelist := fs, fails := fails }
    _ := .take h hl
  have e₂ := e₁.trans (Evolves.setPage (p := q) e₁.typed (by rw [hm₁]; trivial)
    (by rw [hm₁]; exact id))
  refine ⟨e₂.trans m.evolves, fun f hf => ?_⟩
  obtain ⟨hrole, hpage⟩ := m.others f (hne f hf) (by rwa [Function.update_of_ne (hne f hf)])
  rw [Function.update_of_ne (hne f hf)] at hrole hpage
  exact ⟨hrole, fun hdata => (hpage hdata).trans (Mem.setPage_page_of_ne (hne f hf))⟩

/-- One page is added, if `ok`. -/
lemma Maps.grows {mem : ℕ} {ok : Bool} {fs : List ℕ} {fails : List Bool} (h : Typed K s ρ)
    (hd : ρ d = .dir) (hv : v < KERNPAGE) (hl : s.freelist = mem :: fs)
    (m : Maps K d v mem (mem * PGSIZE + 7)
      (({ s with freelist := fs, fails := fails } : Mem).setPage mem fun _ => 0)
      (Function.update ρ mem .taken) ok s' ρ') : Grows K d v (v + 1) s ρ s' ρ' := by
  have hKP := KERNPAGE_eq
  obtain ⟨e, pr⟩ := m.taken h hl
  refine ⟨e.mono fun x hx => ⟨hx.2.ge, by omega⟩, fun x hx hx' => ?_, ?_, fun f x hf => ?_,
    fun f hf => ?_⟩
  · obtain rfl : x = v := by omega
    cases ok with
    | false => exact .inl (e.keep hd x (by omega) (by simp))
    | true =>
        refine .inr ⟨mem, (m.entry rfl).2, by simp [hl], ?_⟩
        rw [m.page, Mem.setPage_page_self]
  · obtain ⟨n, hlist, -⟩ := m.draws.list
    exact ⟨n + 1, by rw [hlist, hl, List.drop_succ_cons]; rfl⟩
  · obtain ⟨hrole, hpage⟩ := pr f (by rw [hf]; simp)
    exact ⟨hrole.trans hf, hpage (by rw [hf]; trivial)⟩
  · obtain ⟨hrole, hpage⟩ := pr f (by rw [hf]; simp)
    exact ⟨hrole.trans hf, hpage (by rw [hf]; trivial)⟩

/-- A frame less is left; those that have become tables are not counted. -/
lemma Maps.room {mem w : ℕ} {ok : Bool} {fs : List ℕ} {fails : List Bool} {q : Page}
    (h : Typed K s ρ) (hd : ρ d = .dir) (hl : s.freelist = mem :: fs)
    (m : Maps K d v mem w (({ s with freelist := fs, fails := fails } : Mem).setPage mem q)
      (Function.update ρ mem .taken) ok s' ρ') : s.room d ≤ s'.room d + 1 := by
  have hdm : d ≠ mem := by
    rintro rfl
    exact absurd (hd.symm.trans (h.free d (by simp [hl]))) (by simp)
  have htables := Mem.tables_congr (s := s)
    (Mem.setPage_page_of_ne (s := { s with freelist := fs, fails := fails }) (p := q) hdm)
  have hroom := m.draws.room
  rw [Mem.room, htables] at hroom
  rw [Mem.room, hl, List.length_cons]
  change fs.length + _ ≤ _ at hroom
  omega

/-- A frame from the free list is cleared and mapped. -/
lemma Vm.addPage_spec {mem : ℕ} {fs : List ℕ} (h : Typed K s ρ) (hd : ρ d = .dir)
    (hv : v < KERNPAGE) (hl : s.freelist = mem :: fs) :
    Wp (addPage K d (v * PGSIZE) mem)
      (fun ok s' => ∃ ρ', Maps K d v mem (mem * PGSIZE + 7)
        (({ s with freelist := fs, fails := s.fails.tail } : Mem).setPage mem fun _ => 0)
        (Function.update ρ mem .taken) ok s' ρ')
      (fun e _ => e = .panic "remap" ∧ s.space d v ≠ 0)
      { s with freelist := fs, fails := s.fails.tail } := by
  have hKP := KERNPAGE_eq
  have hflags : PTE_W ||| PTE_U ||| PTE_P = 7 := rfl
  have hm₁ : Function.update ρ mem .taken mem = .taken := Function.update_self ..
  have h₁ : Typed K { s with freelist := fs, fails := s.fails.tail } _ := h.take hl
  have hdm : d ≠ mem := by
    rintro rfl
    exact absurd (hd.symm.trans (h.free d (by simp [hl]))) (by simp)
  have hd₁ : Function.update ρ mem .taken d = .dir := by rwa [Function.update_of_ne hdm]
  have h₂ := h₁.setPage (p := fun _ => 0)
    (show (Function.update ρ mem .taken mem).Data by rw [hm₁]; trivial)
  refine .of_bind (.of_ok (memset_eq (h₁.pool mem (by rw [hm₁]; simp))) ?_)
  refine .mono (mappages_user h₂ hd₁ hm₁ hv (by decide)) (fun _ _ hs => by rwa [hflags] at hs) ?_
  rintro e s' ⟨he, hne⟩
  rw [h₁.space_setPage (by rw [hm₁]; trivial) hd₁ (by omega)] at hne
  exact ⟨he, hne⟩

/-- The supply after a frame has been taken for page `v` and mapped. -/
lemma Maps.supply_eq {mem w : ℕ} {ok : Bool} {fs : List ℕ} {q : Page} (h : Typed K s ρ)
    (hd : ρ d = .dir) (hl : s.freelist = mem :: fs)
    (hgrant : Vm.grants s.fails s.freelist.length = true)
    (m : Maps K d v mem w (({ s with freelist := fs, fails := s.fails.tail } : Mem).setPage mem q)
      (Function.update ρ mem .taken) ok s' ρ') :
    ∃ m', (s.supply d).kalloc = (true, m') ∧ m'.table (v / NPTENTRIES) = (ok, s'.supply d) := by
  have hdm : d ≠ mem := by
    rintro rfl
    exact absurd (hd.symm.trans (h.free d (by simp [hl]))) (by simp)
  refine ⟨_, ?_, m.supply⟩
  have htables : (({ s with freelist := fs, fails := s.fails.tail } : Mem).setPage mem q).tables d =
      s.tables d := Mem.tables_congr (Mem.setPage_page_of_ne hdm)
  simp only [Supply.kalloc, Mem.supply, hgrant, if_true, htables]
  rw [hl]
  rfl

/-- Do the frames that are left suffice for the `n` pages from `v` on, one for each page and one
for each table that is missing?  When they do not suffice for a page, that ends it; when they do not
suffice for a table, the page is lost, and the next page is tried. -/
def Supply.serves : ℕ → ℕ → Bool → Supply → Bool
  | 0, _, lost, _ => !lost
  | n + 1, v, lost, m =>
      match m.kalloc with
      | (false, _) => true
      | (true, m₁) =>
          match m₁.table (v / NPTENTRIES) with
          | (ok, m₂) => serves n (v + 1) (lost || !ok) m₂

/-- What the loop of `allocuvm` has done when it ends.  Either it has tried all pages, and has added
them all if none is lost; or there was no frame for page `w`, and pages are freed again. -/
def Vm.Allocated (K : Kernel) (d v u oldsz newsz : ℕ) (lost : Bool) (s : Mem) (ρ : ℕ → Role)
    (r : ℕ) (s' : Mem) : Prop :=
  r = newsz ∧ (∃ ρ', Grows K d v u s ρ s' ρ') ∧
      ((s.supply d).serves (u - v) v lost = true ↔
        lost = false ∧ ∀ x, v ≤ x → x < u → s'.space d x ≠ 0) ∨
    r = 0 ∧ (s.supply d).serves (u - v) v lost = true ∧
      ∃ w s₁ ρ₁, v ≤ w ∧ w ≤ u ∧ Grows K d v w s ρ s₁ ρ₁ ∧ ∃ ρ' l,
        Frees K d (fun x => pages oldsz ≤ x ∧ x < pages newsz ∧ ¬ s₁.Skips d (pages oldsz) x) l
          s₁ ρ₁ s' ρ' ∧
        ∀ x, pages oldsz ≤ x → x < pages newsz → ¬ s₁.Skips d (pages oldsz) x → s'.space d x = 0

lemma Vm.Allocated.done {oldsz newsz : ℕ} {lost : Bool} (h : Typed K s ρ) :
    Allocated K d u u oldsz newsz lost s ρ newsz s := by
  refine .inl ⟨rfl, ⟨ρ, .refl h⟩, ?_⟩
  rw [Nat.sub_self, Supply.serves]
  constructor
  · intro hlost
    exact ⟨by simpa using hlost, fun x hx hx' => by omega⟩
  · rintro ⟨rfl, -⟩
    rfl

lemma Vm.Allocated.step {oldsz newsz mem : ℕ} {lost ok : Bool} {fs : List ℕ} {r : ℕ} {s₂ : Mem}
    {ρ₂ : ℕ → Role} (h : Typed K s ρ) (hd : ρ d = .dir) (hvu : v < u) (hu : u ≤ KERNPAGE)
    (hl : s.freelist = mem :: fs) (hgrant : grants s.fails s.freelist.length = true)
    (hempty : s.space d v = 0)
    (m : Maps K d v mem (mem * PGSIZE + 7)
      (({ s with freelist := fs, fails := s.fails.tail } : Mem).setPage mem fun _ => 0)
      (Function.update ρ mem .taken) ok s₂ ρ₂)
    (ha : Allocated K d (v + 1) u oldsz newsz (lost || !ok) s₂ ρ₂ r s') :
    Allocated K d v u oldsz newsz lost s ρ r s' := by
  have hKP := KERNPAGE_eq
  have g := m.grows h hd (by omega) hl
  obtain ⟨m', hkalloc, htable⟩ := m.supply_eq h hd hl hgrant
  have hserves : (s.supply d).serves (u - v) v lost =
      (s₂.supply d).serves (u - (v + 1)) (v + 1) (lost || !ok) := by
    rw [show u - v = u - (v + 1) + 1 by omega, Supply.serves, hkalloc]
    simp only [htable]
  rw [Allocated, hserves]
  rcases ha with ⟨hr, ⟨ρ', g'⟩, hiff⟩ | ⟨hr, hall, w, s₁, ρ₁, hvw, hwu, g', hend⟩
  · refine .inl ⟨hr, ⟨ρ', g.trans g' hd (Nat.le_succ v) hvu hu⟩, ?_⟩
    have hspace : s'.space d v = s₂.space d v :=
      g'.evolves.keep (g.evolves.dir hd) v (by omega) (by omega)
    rw [hiff]
    cases ok with
    | false =>
        have hzero : s'.space d v = 0 := by
          rw [hspace, (m.taken h hl).1.keep hd v (by omega) (by simp), hempty]
        have hnot : ¬ ∀ x, v ≤ x → x < u → s'.space d x ≠ 0 := fun hmapped =>
          hmapped v le_rfl hvu hzero
        simp [hnot]
    | true =>
        have hv : s'.space d v ≠ 0 := by
          rw [hspace, (m.entry rfl).2]
          exact Nat.succ_ne_zero _
        simp only [Bool.not_true, Bool.or_false]
        refine and_congr_right fun _ => ⟨fun hmapped x hx hxu => ?_, fun hmapped x hx hxu =>
          hmapped x (by omega) hxu⟩
        by_cases hxv : x = v
        · rwa [hxv]
        · exact hmapped x (by omega) hxu
  · exact .inr ⟨hr, hall, w, s₁, ρ₁, by omega, hwu,
      g.trans g' hd (Nat.le_succ v) hvw (by omega), hend⟩

lemma Vm.allocuvmLoop_spec {n oldsz newsz : ℕ} {lost : Bool} (h : Typed K s ρ) (hd : ρ d = .dir)
    (hnew : newsz < KERNBASE) (hvu : v ≤ pages newsz) (hn : pages newsz - v < n)
    (hempty : ∀ x, v ≤ x → x < pages newsz → s.space d x = 0) :
    Wp (allocuvmLoop K n d oldsz newsz (v * PGSIZE))
      (Allocated K d v (pages newsz) oldsz newsz lost s ρ) (fun _ _ => False) s := by
  have hP := PGSIZE_eq
  have hKP := KERNPAGE_eq
  have hle := pages_le hnew.le
  induction n generalizing v s ρ lost with
  | zero => omega
  | succ n ih =>
      rw [allocuvmLoop]
      by_cases hlt : v < pages newsz
      · rw [if_pos ((lt_pages v).2 hlt)]
        rcases kalloc_cases s with ⟨hk, hdenied⟩ | ⟨mem, fs, hl, hgrant, hk⟩
        · -- no frame for the page: what has been added is removed
          refine .of_bind (.of_ok hk ?_)
          have g : Grows K d v v s ρ { s with fails := s.fails.tail } ρ :=
            ⟨.skip h, fun x hx hx' => by omega, ⟨0, rfl⟩, fun _ _ hf => ⟨hf, rfl⟩,
              fun _ hf => ⟨hf, rfl⟩⟩
          refine .of_bind
            (.mono (deallocuvm_spec g.evolves.typed hd hnew.le) ?_ fun _ _ => False.elim)
          rintro - s' ⟨-, ρ', fr, hgone⟩
          refine .of_pure (.inr ⟨rfl, ?_, v, _, ρ, le_rfl, hvu, g, ρ', _, fr, hgone⟩)
          have hkalloc : (s.supply d).kalloc = (false, { s.supply d with fails := s.fails.tail }) :=
            if_neg (by simp only [Mem.supply, hdenied]; decide)
          rw [show pages newsz - v = pages newsz - (v + 1) + 1 by omega, Supply.serves, hkalloc]
        · refine .of_bind (.of_ok hk (.of_bind
            (.mono (addPage_spec h hd (v := v) (by omega) hl) ?_ ?_)))
          · rintro ok s₂ ⟨ρ₂, m⟩
            have g := m.grows h hd (by omega) hl
            have hempty₂ : ∀ x, v + 1 ≤ x → x < pages newsz → s₂.space d x = 0 := by
              intro x hx hxu
              rw [g.evolves.keep hd x (by omega) (by omega)]
              exact hempty x (by omega) hxu
            rw [show (v * PGSIZE + PGSIZE) % 2 ^ 32 = (v + 1) * PGSIZE by rw [hP]; omega]
            have hrest : Wp _ (Allocated K d (v + 1) (pages newsz) oldsz newsz (lost || !ok) s₂ ρ₂)
                _ s₂ :=
              ih g.evolves.typed (g.evolves.dir hd) (by omega) (by omega) hempty₂
            refine hrest.mono (fun r s' ha => ?_) fun _ _ => id
            exact ha.step h hd hlt hle hl hgrant (hempty v le_rfl hlt) m
          · rintro e s' ⟨-, hne⟩
            exact hne (hempty v le_rfl hlt)
      · obtain rfl : v = pages newsz := by omega
        rw [if_neg (by rw [lt_pages]; omega)]
        exact .of_pure (.done h)

/-- `allocuvm` up to a size that a process can have. -/
lemma Vm.allocuvm_spec {oldsz newsz : ℕ} (h : Typed K s ρ) (hd : ρ d = .dir) (hle : oldsz ≤ newsz)
    (hnew : newsz < KERNBASE)
    (hempty : ∀ x, pages oldsz ≤ x → x < pages newsz → s.space d x = 0) :
    Wp (allocuvm K d oldsz newsz)
      (Allocated K d (pages oldsz) (pages newsz) oldsz newsz false s ρ) (fun _ _ => False) s := by
  have hKP := KERNPAGE_eq
  have hpages := pages_le hnew.le
  have hmono : pages oldsz ≤ pages newsz := Nat.div_le_div_right (by omega)
  rw [allocuvm, if_neg (by omega), if_neg (by omega), PGROUNDUP_eq (by omega)]
  exact allocuvmLoop_spec h hd hnew hmono (by omega) hempty

end

end Xv6
