import Xv6.Vm.User

/-!
# Growing and shrinking a process

The theorems about `deallocuvm`, `allocuvm` and `growproc`.  Each of them does what it should
exactly unless one of these happens: `deallocuvm` steps over 4 MB from the middle of a page table
that is not there, and so over a page that is mapped; `mappages` finds no frame for a page table
when `allocuvm` calls it, and there are frames for all other pages; `growproc` is asked to remove
all of the memory or more than there is.
-/

namespace Xv6

open Lib

namespace Vm

/-- `growproc` of a process with directory `pgdir` and size `sz`; the result is the new size, and
`none` stands for `-1`. -/
def growproc (K : Kernel) (pgdir sz : ℕ) (n : ℤ) : Vm (Option ℕ) := do
  let newsz := (((sz : ℤ) + n) % 2 ^ 32).toNat
  if 0 < n then
    let sz ← allocuvm K pgdir sz newsz
    pure (if sz = 0 then none else some sz)
  else if n < 0 then
    let sz ← deallocuvm K pgdir sz newsz
    pure (if sz = 0 then none else some sz)
  else pure (some sz)

end Vm

section

variable {K : Kernel} {s s' : Mem} {ρ ρ' : ℕ → Role} {d t f v u : ℕ} {oldsz newsz sz : ℕ}

/-! ## A memory to begin with -/

instance (K : Kernel) (f : ℕ) : Decidable (K.Pool f) := inferInstanceAs (Decidable (_ ∧ _))

/-- Memory in which no frame is used for anything and those in `l` are free. -/
def Mem.blank (l : List ℕ) : Mem := ⟨fun _ _ => 0, l, [], []⟩

/-- Frames that are not free are as `kalloc` returns them. -/
def Kernel.blankRole (K : Kernel) (l : List ℕ) (f : ℕ) : Role :=
  if f ∈ l then .free else if K.Pool f then .taken else .kernel

lemma typed_blank {l : List ℕ} (hnodup : l.Nodup) (hl : ∀ f ∈ l, K.Pool f) : Typed K (Mem.blank l)
    (K.blankRole l) := by
  have hrole : ∀ f, K.blankRole l f = .free ∧ K.Pool f ∨ K.blankRole l f = .taken ∧ K.Pool f ∨
    K.blankRole l f = .kernel := by
    intro f
    rw [Kernel.blankRole]
    split
    · exact .inl ⟨rfl, hl f ‹_›⟩
    · split
      · exact .inr (.inl ⟨rfl, ‹_›⟩)
      · exact .inr (.inr rfl)
  refine ⟨fun f hf => if_pos hf, hnodup, fun f hf => ?_, fun e i he => ?_, fun t e i j ht => ?_,
    fun t e i ht => ?_⟩
  · rcases hrole f with ⟨-, hp⟩ | ⟨-, hp⟩ | hk
    · exact hp
    · exact hp
    · exact absurd hk hf
  · rcases hrole e with ⟨h, -⟩ | ⟨h, -⟩ | h <;> exact absurd (he.symm.trans h) (by simp)
  · rcases hrole t with ⟨h, -⟩ | ⟨h, -⟩ | h <;> exact absurd (ht.symm.trans h) (by simp)
  · rcases hrole t with ⟨h, -⟩ | ⟨h, -⟩ | h <;> exact absurd (ht.symm.trans h) (by simp)

/-- A directory without tables. -/
lemma typed_empty {l : List ℕ} (hnodup : l.Nodup) (hl : ∀ f ∈ l, K.Pool f) (hd : K.Pool d)
    (hdl : d ∉ l) :
    Typed K (Mem.blank l) (Function.update (K.blankRole l) d .dir) := by
  have h := typed_blank (K := K) hnodup hl
  have hrole : K.blankRole l d = .taken := by rw [Kernel.blankRole, if_neg hdl, if_pos hd]
  exact h.recast (h.unref_of_plain (by rw [hrole]; trivial)) (by rw [hrole]; simp) hdl _
    (fun _ => Mem.word_zero rfl) (by simp)

/-! ## `deallocuvm` -/

lemma roundup_le (h : newsz ≤ KERNBASE) : PGROUNDUP newsz ≤ v * PGSIZE ↔ pages newsz ≤ v := by
  rw [PGROUNDUP_eq h]
  exact Nat.mul_le_mul_right_iff (by decide)

/-- What `deallocuvm` should do: the pages of the range are gone, their frames have been freed, each
of them once, and nothing else has changed. -/
structure Mem.Removed (s : Mem) (ρ : ℕ → Role) (d oldsz newsz : ℕ) (s' : Mem) : Prop where
  gone : ∀ v, PGROUNDUP newsz ≤ v * PGSIZE → v * PGSIZE < oldsz → s'.space d v = 0
  list : s'.freelist = ((List.range' (pages newsz) (pages oldsz - pages newsz)).flatMap
    (s.held d)).reverse ++ s.freelist
  nodup : s'.freelist.Nodup
  keep : ∀ v < 2 ^ 20, ¬ (PGROUNDUP newsz ≤ v * PGSIZE ∧ v * PGSIZE < oldsz) →
    s'.space d v = s.space d v
  other : ∀ e, ρ e = .dir → e ≠ d → ∀ v < 2 ^ 20, s'.space e v = s.space e v

/-- `deallocuvm` does what it should unless it steps over a page that is mapped. -/
theorem deallocuvm_removes (h : Typed K s ρ) (hd : ρ d = .dir) (hlt : newsz < oldsz)
    (hold : oldsz ≤ KERNBASE) :
    ∃ s', Vm.deallocuvm K d oldsz newsz s = .ok newsz s' ∧
      (s.Removed ρ d oldsz newsz s' ↔
        ∀ v, pages newsz ≤ v → v < pages oldsz → s.Skips d (pages newsz) v → s.space d v = 0) := by
  have hKP := KERNPAGE_eq
  have hpages := pages_le hold
  have hround : ∀ v, PGROUNDUP newsz ≤ v * PGSIZE ↔ pages newsz ≤ v :=
    fun v => roundup_le (by omega)
  obtain ⟨r, s', hrun, rfl, ρ', fr, hgone⟩ := Wp.returns (Vm.deallocuvm_spec h hd hold)
  rw [min_eq_right hlt.le] at hrun
  have hkeep : ∀ v < 2 ^ 20, ¬ (pages newsz ≤ v ∧ v < pages oldsz ∧ ¬ s.Skips d (pages newsz) v) →
      s'.space d v = s.space d v := fr.evolves.keep hd
  refine ⟨s', hrun, fun hres v hv hv' hskip => ?_, fun hskip => ⟨fun v hv hv' => ?_, ?_,
    fr.evolves.typed.nodup, fun v hv hnot => ?_, fr.evolves.other⟩⟩
  · rw [← hkeep v (by omega) fun hin => hin.2.2 hskip]
    exact hres.gone v ((hround v).2 hv) ((lt_pages v).2 hv')
  · rw [hround] at hv
    rw [lt_pages] at hv'
    by_cases hs : s.Skips d (pages newsz) v
    · rw [hkeep v (by omega) fun hin => hin.2.2 hs, hskip v hv hv' hs]
    · exact hgone v hv hv' hs
  · rw [fr.list]
    congr 2
    refine List.flatMap_congr fun v hv => ?_
    rw [List.mem_range'_1] at hv
    by_cases hs : s.Skips d (pages newsz) v
    · rw [Mem.freed, if_pos hs, Mem.held, if_pos (hskip v hv.1 (by omega) hs)]
    · rw [Mem.freed, if_neg hs]
  · rw [hround, lt_pages] at hnot
    exact hkeep v hv fun hin => hnot ⟨hin.1, hin.2.1⟩

/-- A kernel of 64 KB. -/
def Kernel.small : Kernel where
  data := 0x80108000
  fin := 0x80110000
  aligned := rfl
  text := by decide
  order := by decide
  low := by decide

/-- Memory with directory 2000, which has a table as entry `i` and in it the first page, which has
been accessed and written to.  The frames in `l` are free. -/
def Mem.onePage (l : List ℕ) (i : ℕ) : Mem :=
  ((Mem.blank l).setWord 2000 i (2001 * PGSIZE + 7)).setWord 2001 0 (2002 * PGSIZE + 0x67)

/-- The roles in it. -/
def onePageRole (l : List ℕ) (i : ℕ) : ℕ → Role :=
  Function.update (Function.update (Function.update (Kernel.small.blankRole l) 2000 .dir)
    2001 (.table 2000 i)) 2002 (.user 2000 (NPTENTRIES * i))

lemma typed_onePage {l : List ℕ} {i : ℕ} (hnodup : l.Nodup)
    (hl : ∀ f ∈ l, 2002 < f ∧ Kernel.small.Pool f) (hi : NPTENTRIES * i < KERNPAGE) :
    Typed .small (.onePage l i) (onePageRole l i) ∧ ∀ v < 2 ^ 20,
      (Mem.onePage l i).space 2000 v = if v = NPTENTRIES * i then 2002 * PGSIZE + 0x67 else 0 := by
  have hN := NPTENTRIES_eq
  have hD := NPDENTRIES_eq
  have hKP := KERNPAGE_eq
  have hi' : i < NPDENTRIES := by
    rw [hN] at hi
    omega
  have hnot : ∀ f ≤ 2002, f ∉ l := fun f hf hmem => absurd (hl f hmem).1 (by omega)
  have htaken : ∀ f ≤ 2002, Kernel.small.Pool f → Kernel.small.blankRole l f = .taken :=
    fun f hf hp => by
    rw [Kernel.blankRole, if_neg (hnot f hf), if_pos hp]
  have h₁ := typed_empty (K := .small) (d := 2000) hnodup (fun f hf => (hl f hf).2) (by decide)
    (hnot 2000 (by decide))
  have e₂ : Evolves .small 2000 (fun _ => True) _ _ _ _ := .putTable (i := i) (t := 2001) h₁ rfl
    hi' (Mem.word_zero rfl _) (htaken 2001 (by decide) (by decide)) (Mem.word_zero rfl)
  have e₃ : Evolves .small 2000 (fun _ => True) _ _ _ (onePageRole l i) :=
    .own (f := 2002) (v := NPTENTRIES * i) e₂.typed (htaken 2002 (by decide) (by decide))
  have hspace : ∀ v < 2 ^ 20,
      ((Mem.blank l).setWord 2000 i (2001 * PGSIZE + 7)).space 2000 v = 0 := fun v hv => by
    rw [h₁.space_putTable (t := 2001) rfl hi' (Mem.word_zero rfl _)
      (htaken 2001 (by decide) (by decide)) (Mem.word_zero rfl) rfl hv]
    exact Typed.space_of_empty (Mem.word_zero rfl _)
  refine ⟨e₃.typed.putPte (t := 2001) (d := 2000) (i := i) (j := 0) rfl (by decide) (by decide)
    (.inr (.inl ⟨hi, 2002, refers_add (by decide) rfl, rfl⟩)), fun v hv => ?_⟩
  rw [Mem.onePage, e₃.typed.space_putPte (t := 2001) (d := 2000) (i := i) rfl rfl (by decide)
    (by decide) rfl hv, hspace v hv]
  simp

lemma typed_onePage_nil {i : ℕ} (hi : NPTENTRIES * i < KERNPAGE) :
    Typed .small (.onePage [] i) (onePageRole [] i) :=
  (typed_onePage List.nodup_nil (by simp) hi).1

/-- It does not remove page 1024 when it steps from page 1 over 4 MB. -/
theorem deallocuvm_skips : Typed .small (.onePage [] 1) (onePageRole [] 1) ∧
    onePageRole [] 1 2000 = .dir ∧
    Vm.deallocuvm .small 2000 0x401000 0x1000 (.onePage [] 1) = .ok 0x1000 (.onePage [] 1) ∧
    PGROUNDUP 0x1000 ≤ 1024 * PGSIZE ∧ 1024 * PGSIZE < 0x401000 ∧
    (Mem.onePage [] 1).space 2000 1024 ≠ 0 := by
  refine ⟨typed_onePage_nil (by decide), by decide, rfl, by decide, by decide, by decide⟩

theorem deallocuvm_removes_page : ∃ s',
    Vm.deallocuvm .small 2000 0x401000 0x400000 (.onePage [] 1) = .ok 0x400000 s' ∧
      s'.space 2000 1024 = 0 ∧ s'.freelist = [2002] := by
  obtain ⟨s', hrun, hiff⟩ := deallocuvm_removes (d := 2000) (typed_onePage_nil (i := 1) (by decide))
    rfl (show 0x400000 < 0x401000 by decide) (by decide)
  have hres := hiff.2 fun v _ _ hskip => absurd hskip (Mem.not_skips (.inl (by decide)) v)
  exact ⟨s', hrun, hres.gone 1024 (by decide) (by decide), hres.list.trans (by decide)⟩

/-! ## `allocuvm` -/

/-- The user pages of a directory are those of some size. -/
def Mem.HasPages (s : Mem) (d sz : ℕ) : Prop := ∀ v < KERNPAGE, s.space d v ≠ 0 ↔ v < pages sz

/-- A user page is mapped as it was, and its contents are what they were. -/
def Mem.Keeps (s s' : Mem) (d v : ℕ) : Prop :=
  s'.space d v = s.space d v ∧ (s.space d v ≠ 0 → s'.page (PTE_ADDR (s.space d v)) =
    s.page (PTE_ADDR (s.space d v)))

lemma Mem.HasPages.eq_zero (hhas : s.HasPages d sz) (hv : v < KERNPAGE) (hle : pages sz ≤ v) :
    s.space d v = 0 :=
  not_not.1 fun hne => absurd ((hhas v hv).1 hne) (by omega)

/-- Pages are freed again that had been added, all of them. -/
lemma Vm.undo {w : ℕ} {l : List ℕ} {s₁ : Mem} {ρ₁ : ℕ → Role} (h : Typed K s ρ) (hd : ρ d = .dir)
    (hhas : s.HasPages d oldsz) (hnew : newsz ≤ KERNBASE)
    (g : Grows K d (pages oldsz) w s ρ s₁ ρ₁) (hw : w ≤ pages newsz)
    (fr : Frees K d (fun v => pages oldsz ≤ v ∧ v < pages newsz ∧ ¬ s₁.Skips d (pages oldsz) v) l
      s₁ ρ₁ s' ρ')
    (hgone : ∀ v, pages oldsz ≤ v → v < pages newsz → ¬ s₁.Skips d (pages oldsz) v →
      s'.space d v = 0)
    (hv : v < KERNPAGE) : s.Keeps s' d v := by
  have hKP := KERNPAGE_eq
  have hN := NPTENTRIES_eq
  have hle := pages_le hnew
  by_cases hin : pages oldsz ≤ v ∧ v < pages newsz
  · have hzero := hhas.eq_zero hv hin.1
    refine ⟨?_, fun hne => absurd hzero hne⟩
    rw [hzero]
    refine hgone v hin.1 hin.2 (Mem.not_skips ?_ v)
    -- the page before the first one is mapped, so there is a table unless a new one begins
    by_cases hmod : pages oldsz % NPTENTRIES = 0
    · exact .inl hmod
    · have hdiv : (pages oldsz - 1) / NPTENTRIES = pages oldsz / NPTENTRIES := by
        rw [hN] at hmod ⊢
        omega
      have hpos : pages oldsz ≠ 0 := by
        intro h0
        rw [h0] at hmod
        exact hmod rfl
      have hmapped := (hhas (pages oldsz - 1) (by omega)).2 (by omega)
      rw [← g.evolves.keep hd (pages oldsz - 1) (by omega) (by omega)] at hmapped
      refine .inr fun hempty => hmapped (Typed.space_of_empty ?_)
      rw [hdiv, hempty]
  · have hnot : ¬ (pages oldsz ≤ v ∧ v < pages newsz ∧ ¬ s₁.Skips d (pages oldsz) v) :=
      fun hx => hin ⟨hx.1, hx.2.1⟩
    refine ⟨?_, fun hne => ?_⟩
    · rw [fr.evolves.keep (g.evolves.dir hd) v (by omega) hnot,
        g.evolves.keep hd v (by omega) (by omega)]
    · obtain ⟨hrole, hpage⟩ := g.kept _ v (h.role_of_space hd hv hne)
      rw [(fr.kept _ v hnot hrole).2, hpage]

/-- Are there frames for the pages from one size to another, and for their tables? -/
def Mem.Serves (s : Mem) (d oldsz newsz : ℕ) : Prop :=
  (s.supply d).serves (pages newsz - pages oldsz) (pages oldsz) false = true

instance (s : Mem) (d oldsz newsz : ℕ) : Decidable (s.Serves d oldsz newsz) :=
  inferInstanceAs (Decidable (_ = _))

/-- `allocuvm` when the new size is one that a process can have. -/
lemma Vm.allocuvm_cases (h : Typed K s ρ) (hd : ρ d = .dir) (hhas : s.HasPages d oldsz)
    (hle : oldsz ≤ newsz) (hnew : newsz < KERNBASE) :
    ∃ r s', allocuvm K d oldsz newsz s = .ok r s' ∧
      (∀ v < 2 ^ 20, ¬ (pages oldsz ≤ v ∧ v < pages newsz) → s'.space d v = s.space d v) ∧
      ((r = newsz ∧ (∃ ρ', Grows K d (pages oldsz) (pages newsz) s ρ s' ρ') ∧
          (s.Serves d oldsz newsz ↔
            ∀ v, pages oldsz ≤ v → v < pages newsz → s'.space d v ≠ 0)) ∨
        r = 0 ∧ s.Serves d oldsz newsz ∧ ∀ v < KERNPAGE, s.Keeps s' d v) := by
  have hKP := KERNPAGE_eq
  have hpages := pages_le hnew.le
  obtain ⟨r, s', hrun, hpost⟩ := Wp.returns (allocuvm_spec h hd hle hnew fun v hv hv' =>
    hhas.eq_zero (by omega) hv)
  rcases hpost with ⟨rfl, ⟨ρ', g⟩, hiff⟩ | ⟨rfl, hserves, w, s₁, ρ₁, hvw, hwu, g, ρ', l, fr, hgone⟩
  · refine ⟨r, s', hrun, g.evolves.keep hd, .inl ⟨rfl, ⟨ρ', g⟩, ?_⟩⟩
    rw [Mem.Serves, hiff, and_iff_right rfl]
  · refine ⟨0, s', hrun, fun v hv hnot => ?_, .inr ⟨rfl, hserves, fun v =>
      undo h hd hhas hnew.le g hwu fr hgone⟩⟩
    rw [fr.evolves.keep (g.evolves.dir hd) v hv fun hx => hnot ⟨hx.1, hx.2.1⟩,
      g.evolves.keep hd v hv (by omega)]

/-- What `allocuvm` should do: it adds the pages that are asked for, with zeroed frames of their
own, or it returns 0 and leaves the address space as it was. -/
structure Mem.Delivered (s : Mem) (d oldsz newsz r : ℕ) (s' : Mem) : Prop where
  result : r = newsz ∨ r = 0
  added : r = newsz → ∀ v, PGROUNDUP oldsz ≤ v * PGSIZE → v * PGSIZE < newsz →
    ∃ f, s'.space d v = f * PGSIZE + (PTE_P ||| PTE_W ||| PTE_U) ∧ f ∈ s.freelist ∧
      (s'.page f = fun _ => 0) ∧
      ∀ u < KERNPAGE, s'.space d u ≠ 0 → PTE_ADDR (s'.space d u) = f → u = v
  keep : r = newsz → ∀ v < 2 ^ 20, ¬ (PGROUNDUP oldsz ≤ v * PGSIZE ∧ v * PGSIZE < newsz) →
    s'.space d v = s.space d v
  same : r = 0 → ∀ v < KERNPAGE, s'.space d v = s.space d v

/-- `allocuvm` does what it should unless there is no frame for a table and there are frames for all
pages, the one for which the table should be included. -/
theorem allocuvm_delivers (h : Typed K s ρ) (hd : ρ d = .dir) (hhas : s.HasPages d oldsz)
    (hle : oldsz ≤ newsz) :
    ∃ r s', Vm.allocuvm K d oldsz newsz s = .ok r s' ∧
      (s.Delivered d oldsz newsz r s' ↔ KERNBASE ≤ newsz ∨ s.Serves d oldsz newsz) := by
  have hKP := KERNPAGE_eq
  have hB := KERNBASE_eq
  by_cases hnew : KERNBASE ≤ newsz
  · refine ⟨0, s, by rw [Vm.allocuvm, if_pos hnew]; rfl, fun _ => .inl hnew,
      fun _ => ⟨.inr rfl, ?_, ?_,
      fun _ _ _ => rfl⟩⟩ <;> exact fun hr => absurd hr (by omega)
  have hpages : pages newsz ≤ KERNPAGE := pages_le (by omega)
  have hround : ∀ v, PGROUNDUP oldsz ≤ v * PGSIZE ↔ pages oldsz ≤ v :=
    fun v => roundup_le (by omega)
  have hpages₀ : pages 0 = 0 := rfl
  obtain ⟨r, s', hrun, hkeep, ⟨rfl, ⟨ρ', g⟩, hiff⟩ | ⟨rfl, hserves, hsame⟩⟩ :=
    Vm.allocuvm_cases h hd hhas hle (by omega)
  · refine ⟨r, s', hrun, fun hres => .inr (hiff.2 fun v hv hv' => ?_), fun hserves =>
      ⟨.inl rfl, fun _ v hv hv' => ?_, fun _ v hv hnot => ?_, ?_⟩⟩
    · obtain ⟨f, he, -⟩ := hres.added rfl v ((hround v).2 hv) ((lt_pages v).2 hv')
      rw [he]
      exact Nat.succ_ne_zero _
    · rw [hround] at hv
      rw [lt_pages] at hv'
      have hmapped := hiff.1 (hserves.resolve_left hnew) v hv hv'
      obtain ⟨f, he, hf, hpage⟩ := (g.entry v hv hv').resolve_left fun heq =>
        hmapped (heq.trans (hhas.eq_zero (by omega) hv))
      refine ⟨f, he, hf, hpage, fun u hu hne haddr => ?_⟩
      have hrole := g.evolves.typed.role_of_space (g.evolves.dir hd) (by omega) hmapped
      rw [he, (refers_add (by decide) rfl).1, ← haddr,
        g.evolves.typed.role_of_space (g.evolves.dir hd) hu hne] at hrole
      exact (Role.user.inj hrole).2
    · rw [hround, lt_pages] at hnot
      exact hkeep v hv hnot
    · rintro rfl v hv
      exact hkeep v (by omega) (by omega)
  · refine ⟨0, s', hrun, fun _ => .inr hserves, fun _ => ⟨.inr rfl, ?_, ?_, fun _ v hv =>
      (hsame v hv).1⟩⟩
    · rintro rfl v hv hv'
      omega
    · intro _ v hv hnot
      rw [hround, lt_pages] at hnot
      exact hkeep v hv hnot

lemma hasPages_blank (l : List ℕ) (d : ℕ) : (Mem.blank l).HasPages d 0 := fun v _ => by
  have hpages : pages 0 = 0 := rfl
  rw [Typed.space_of_empty (Mem.word_zero rfl _), hpages]
  simp

/-- With one frame left, which becomes a user page, there is none for the page table: page 0 is not
mapped. -/
theorem allocuvm_forgets : ∃ s', Typed .small (.blank [2001])
    (Function.update (Kernel.small.blankRole [2001]) 2000 .dir) ∧
    (Mem.blank [2001]).HasPages 2000 0 ∧ Vm.allocuvm .small 2000 0 PGSIZE (.blank [2001]) =
      .ok PGSIZE s' ∧
    s'.space 2000 0 = 0 := by
  have hrun : Wp (Vm.allocuvm .small 2000 0 PGSIZE) (fun r s' => r = PGSIZE ∧ s'.space 2000 0 = 0)
    (fun _ _ => False)
      (.blank [2001]) := by
    decide +kernel
  obtain ⟨r, s', hs', rfl, hspace⟩ := hrun.returns
  exact ⟨s', typed_empty (by simp) (by decide) (by decide) (by decide),
    hasPages_blank _ _, hs', hspace⟩

theorem allocuvm_delivers_page : ∃ s' f,
    Vm.allocuvm .small 2000 0 PGSIZE (.blank [2001, 2002]) = .ok PGSIZE s' ∧
      s'.space 2000 0 = f * PGSIZE + 7 ∧ s'.page f = fun _ => 0 := by
  have htyped : Typed .small (.blank [2001, 2002])
      (Function.update (Kernel.small.blankRole [2001, 2002]) 2000 .dir) :=
    typed_empty (by simp) (by decide) (by decide) (by decide)
  obtain ⟨r, s', hrun, hiff⟩ := allocuvm_delivers htyped (Function.update_self ..)
    (hasPages_blank _ _) (Nat.zero_le PGSIZE)
  have hres := hiff.2 (.inr (by decide +kernel))
  have hpage : Wp (Vm.allocuvm .small 2000 0 PGSIZE) (fun r _ => r = PGSIZE) (fun _ _ => False)
      (.blank [2001, 2002]) := by
    decide +kernel
  obtain rfl := hpage.ok hrun
  obtain ⟨f, hspace, -, hpage, -⟩ := hres.added rfl 0 (by decide) (by decide)
  exact ⟨s', f, hrun, hspace, hpage⟩

/-! ## `growproc` -/

/-- What `growproc` should do: it changes the size by `n` and the pages with it, or nothing. -/
def Mem.Resized (s : Mem) (d sz : ℕ) (n : ℤ) (s' : Mem) : Option ℕ → Prop
  | some newsz => newsz = sz + n ∧ newsz < KERNBASE ∧ s'.HasPages d newsz ∧
    (∀ v < min (pages sz) (pages newsz), s.Keeps s' d v) ∧
      ∀ v, pages sz ≤ v → v < pages newsz → s'.page (PTE_ADDR (s'.space d v)) = fun _ => 0
  | none => ∀ v < KERNPAGE, s.Keeps s' d v

lemma Vm.allocuvm_resized (h : Typed K s ρ) (hd : ρ d = .dir) (hhas : s.HasPages d sz)
    (hlt : sz < newsz) :
    ∃ r s', allocuvm K d sz newsz s = .ok r s' ∧
      (s.Resized d sz ((newsz : ℤ) - sz) s' (if r = 0 then none else some r) ↔
        KERNBASE ≤ newsz ∨ s.Serves d sz newsz) := by
  have hKP := KERNPAGE_eq
  by_cases hnew : KERNBASE ≤ newsz
  · exact ⟨0, s, by rw [allocuvm, if_pos hnew]; rfl, fun _ => .inl hnew,
      fun _ _ _ => ⟨rfl, fun _ => rfl⟩⟩
  have hpages : pages newsz ≤ KERNPAGE := pages_le (by omega)
  have hmono : pages sz ≤ pages newsz := Nat.div_le_div_right (by omega)
  obtain ⟨r, s', hrun, hkeep, ⟨rfl, ⟨ρ', g⟩, hiff⟩ | ⟨rfl, hserves, hsame⟩⟩ :=
    allocuvm_cases h hd hhas hlt.le (by omega)
  · refine ⟨r, s', hrun, ?_⟩
    rw [if_neg (by omega)]
    refine ⟨fun hres => .inr (hiff.2 fun v hv hv' => (hres.2.2.1 v (by omega)).2 hv'),
      fun hserves => ?_⟩
    have hmapped := hiff.1 (hserves.resolve_left hnew)
    refine ⟨by omega, by omega, fun v hv => ?_, fun v hv => ⟨?_, fun hne => ?_⟩, fun v hv hv' => ?_⟩
    · by_cases hin : pages sz ≤ v ∧ v < pages r
      · exact ⟨fun _ => hin.2, fun _ => hmapped v hin.1 hin.2⟩
      · rw [hkeep v (by omega) hin, hhas v hv]
        omega
    · exact hkeep v (by omega) (by omega)
    · exact (g.kept _ v (h.role_of_space hd (by omega) hne)).2
    · obtain ⟨f, he, -, hpage⟩ := (g.entry v hv hv').resolve_left fun heq =>
        hmapped v hv hv' (heq.trans (hhas.eq_zero (by omega) hv))
      rwa [he, (refers_add (by decide) rfl).1]
  · exact ⟨0, s', hrun, fun _ => .inr hserves, fun _ => hsame⟩

lemma Vm.deallocuvm_resized (h : Typed K s ρ) (hd : ρ d = .dir) (hhas : s.HasPages d sz)
    (hlt : newsz < sz) (hsz : sz < KERNBASE) :
    ∃ s', deallocuvm K d sz newsz s = .ok newsz s' ∧
      s.Resized d sz ((newsz : ℤ) - sz) s' (some newsz) := by
  have hKP := KERNPAGE_eq
  have hP := PGSIZE_eq
  have hpages := pages_le hsz.le
  have hmono : pages newsz ≤ pages sz := Nat.div_le_div_right (by omega)
  obtain ⟨r, s', hrun, rfl, ρ', fr, hgone⟩ := Wp.returns (deallocuvm_spec h hd hsz.le)
  rw [min_eq_right hlt.le] at hrun
  have hkeep : ∀ v < 2 ^ 20, ¬ (pages newsz ≤ v ∧ v < pages sz) → s'.space d v = s.space d v :=
    fun v hv hnot => fr.evolves.keep hd v hv fun hx => hnot ⟨hx.1, hx.2.1⟩
  refine ⟨s', hrun, by omega, by omega, fun v hv => ?_, fun v hv => ⟨?_, fun hne => ?_⟩,
    fun v hv hv' => by omega⟩
  · by_cases hin : pages newsz ≤ v ∧ v < pages sz
    · -- the first page of the range is mapped, so the loop does not begin with a step over 4 MB
      have hno := Mem.not_skips (s := s) (d := d) (v := pages newsz) (.inr fun hempty =>
        (hhas (pages newsz) (by omega)).2 (by omega) (Typed.space_of_empty hempty)) v
      rw [hgone v hin.1 hin.2 hno]
      omega
    · rw [hkeep v (by omega) hin, hhas v hv]
      omega
  · exact hkeep v (by omega) (by omega)
  · exact (fr.kept _ v (by omega) (h.role_of_space hd (by omega) hne)).2

/-- With all pages removed, something has changed. -/
lemma Mem.Resized.not_none {n : ℤ} (hhas : s.HasPages d sz) (hpos : 0 < sz)
    (hgone : s'.HasPages d 0) : ¬ s.Resized d sz n s' none := by
  have hP := PGSIZE_eq
  have hKP := KERNPAGE_eq
  intro hres
  have hmapped : s.space d 0 ≠ 0 := (hhas 0 (by omega)).2 (by rw [pages, hP]; omega)
  rw [← (hres 0 (by omega)).1, hgone 0 (by omega)] at hmapped
  exact absurd hmapped (by decide)

/-- `growproc` changes the size of a process by exactly `n`, or it returns -1 and changes nothing,
unless there is no frame for a table and there are for all pages, or all of the memory or more is to
be removed. -/
theorem growproc_exact {n : ℤ} (h : Typed K s ρ) (hd : ρ d = .dir) (hhas : s.HasPages d sz)
    (hsz : sz < KERNBASE) (hn : n < 2 ^ 31) (hn' : -2 ^ 31 ≤ n) :
    ∃ r s', Vm.growproc K d sz n s = .ok r s' ∧
      (s.Resized d sz n s' r ↔
        (0 < n → KERNBASE ≤ sz + n ∨ s.Serves d sz (sz + n).toNat) ∧
        (n < 0 → sz = 0 ∨ 0 < sz + n)) := by
  have hB := KERNBASE_eq
  rw [Vm.growproc]
  by_cases hover : (sz : ℤ) + n < 0
  · -- the size wraps around, and `deallocuvm` does nothing
    have hwrap : sz ≤ (((sz : ℤ) + n) % 2 ^ 32).toNat := by omega
    simp only [if_neg (show ¬ 0 < n by omega), if_pos (show n < 0 by omega), Vm.deallocuvm,
      if_pos hwrap]
    refine ⟨_, s, rfl, ?_⟩
    by_cases hzero : sz = 0
    · rw [if_pos hzero]
      exact ⟨fun _ => ⟨fun hpos => by omega, fun _ => .inl hzero⟩,
        fun _ _ _ => ⟨rfl, fun _ => rfl⟩⟩
    · rw [if_neg hzero]
      exact ⟨fun hres => absurd hres.1 (by omega), fun hcond =>
        absurd (hcond.2 (by omega)) (by omega)⟩
  obtain ⟨newsz, hnew⟩ : ∃ newsz : ℕ, (newsz : ℤ) = sz + n := ⟨((sz : ℤ) + n).toNat, by omega⟩
  have hwrap : ((newsz : ℤ) % 2 ^ 32).toNat = newsz := by omega
  obtain rfl : n = newsz - sz := by omega
  simp only [← hnew, hwrap, Int.toNat_natCast]
  by_cases hpos : sz < newsz
  · obtain ⟨r, s', hrun, hres⟩ := Vm.allocuvm_resized h hd hhas hpos
    rw [if_pos (by omega), bind_of_ok hrun]
    refine ⟨_, s', rfl, hres.trans ⟨fun hcond => ⟨fun _ => ?_, fun hneg => by omega⟩,
      fun hcond => ?_⟩⟩
    · exact hcond.imp_left fun hge => by exact_mod_cast hge
    · exact (hcond.1 (by omega)).imp_left fun hge => by exact_mod_cast hge
  rw [if_neg (by omega)]
  by_cases hneg : newsz < sz
  · obtain ⟨s', hrun, hres⟩ := Vm.deallocuvm_resized h hd hhas hneg hsz
    rw [if_pos (by omega), bind_of_ok hrun]
    refine ⟨_, s', rfl, ?_⟩
    by_cases hzero : newsz = 0
    · subst hzero
      rw [if_pos rfl]
      exact ⟨fun hnone => absurd hnone (Mem.Resized.not_none hhas hneg hres.2.2.1),
        fun hcond => absurd (hcond.2 (by omega)) (by omega)⟩
    · rw [if_neg hzero]
      exact ⟨fun _ => ⟨fun _ => by omega, fun _ => .inr (by omega)⟩, fun _ => hres⟩
  obtain rfl : newsz = sz := by omega
  rw [if_neg (by omega)]
  refine ⟨_, s, rfl, fun _ => ⟨fun _ => by omega, fun _ => by omega⟩, fun _ => ⟨by omega, hsz, hhas,
    fun _ _ => ⟨rfl, fun _ => rfl⟩, fun v hv hv' => by omega⟩⟩

lemma hasPages_onePage {l : List ℕ} (hnodup : l.Nodup)
    (hl : ∀ f ∈ l, 2002 < f ∧ Kernel.small.Pool f) : (Mem.onePage l 0).HasPages 2000 PGSIZE :=
  fun v hv => by
    have hKP := KERNPAGE_eq
    rw [(typed_onePage hnodup hl (by decide)).2 v (by omega), show pages PGSIZE = 1 from rfl]
    split <;> simp_all

/-- All of the memory is removed, and the result is -1. -/
theorem growproc_confuses : ∃ s', Typed .small (.onePage [] 0) (onePageRole [] 0) ∧
    (Mem.onePage [] 0).HasPages 2000 PGSIZE ∧
    Vm.growproc .small 2000 PGSIZE (-PGSIZE) (.onePage [] 0) = .ok none s' ∧
    ¬ (Mem.onePage [] 0).Resized 2000 PGSIZE (-PGSIZE) s' none := by
  have hrun : Wp (Vm.growproc .small 2000 PGSIZE (-PGSIZE))
    (fun r s' => r = none ∧ s'.space 2000 0 = 0) (fun _ _ => False)
      (.onePage [] 0) := by
    decide +kernel
  obtain ⟨r, s', hs', rfl, hspace⟩ := hrun.returns
  refine ⟨s', typed_onePage_nil (by decide), hasPages_onePage (by simp) (by simp), hs',
    fun hres => ?_⟩
  have hkept := (hres 0 (by decide)).1
  rw [hspace, (typed_onePage (by simp) (by simp) (by decide)).2 0 (by decide)] at hkept
  exact absurd hkept (by decide)

theorem growproc_exact_page : ∃ s',
    Vm.growproc .small 2000 PGSIZE (-1) (.onePage [] 0) = .ok (some 4095) s' ∧
      s'.HasPages 2000 4095 := by
  obtain ⟨r, s', hrun, hiff⟩ := growproc_exact (n := -1) (typed_onePage_nil (i := 0) (by decide))
    rfl (hasPages_onePage (by simp) (by simp)) (by decide) (by decide) (by decide)
  have hres := hiff.2 ⟨fun hpos => absurd hpos (by decide), fun _ => .inr (by decide)⟩
  have hsome : Wp (Vm.growproc .small 2000 PGSIZE (-1)) (fun r _ => r = some 4095)
    (fun _ _ => False)
      (.onePage [] 0) := by
    decide +kernel
  obtain rfl := hsome.ok hrun
  exact ⟨s', hrun, hres.2.2.1⟩

end

end Xv6
