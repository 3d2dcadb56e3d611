import Mathlib.Data.Finset.Card
import Mathlib.Data.Finset.Range
import Xv6.Vm.Typing

/-!
# Page tables as address spaces

What `walkpgdir` and `mappages` do to the address spaces of all directories: `walkpgdir` can add an
empty table, which changes none of them, and `mappages` changes those entries that it has been
called for.  `setupkvm` then makes a directory with the entries of `kmap`.
-/

namespace Xv6

open Lib

section

variable {K : Kernel} {s s' : Mem} {ρ ρ' : ℕ → Role} {d t f v i j w fl : ℕ} {r : Role} {p : Page}

namespace Vm

/-! ## Single steps -/

/-- Does `kalloc` return a frame? -/
def grants (fails : List Bool) (free : ℕ) : Bool := !fails.headD false && free != 0

lemma kalloc_cases (s : Mem) :
    kalloc s = .ok none { s with fails := s.fails.tail } ∧
        grants s.fails s.freelist.length = false ∨
      ∃ f fs, s.freelist = f :: fs ∧ grants s.fails s.freelist.length = true ∧
        kalloc s = .ok (some f) { s with freelist := fs, fails := s.fails.tail } := by
  rw [kalloc]
  cases hfails : s.fails with
  | nil =>
      cases hl : s.freelist with
      | nil => exact .inl ⟨rfl, rfl⟩
      | cons f fs => exact .inr ⟨f, fs, rfl, rfl, rfl⟩
  | cons b fails =>
      cases b with
      | true => exact .inl ⟨rfl, rfl⟩
      | false =>
          cases hl : s.freelist with
          | nil => exact .inl ⟨rfl, rfl⟩
          | cons f fs => exact .inr ⟨f, fs, rfl, rfl, rfl⟩

lemma freelist_eq_nil (h : grants s.fails s.freelist.length = false) (hf : s.fails = []) :
    s.freelist = [] := by
  simpa [grants, hf] using h

lemma load_eq (h : K.Pool f) : load f i s = .ok (s.word f i) s := if_pos h.2

lemma store_eq (h : K.Pool f) : store K f i w s = .ok () (s.setWord f i w) := if_pos h.writable

lemma memset_eq {c : UInt8} (h : K.Pool f) : memset K f c s = .ok () (s.setPage f fun _ => c) :=
  if_pos h.writable

end Vm

/-! ## The address spaces after a step -/

/-- The frame keeps its role whatever is done with directory `d`. -/
def Role.Settled (d : ℕ) : Role → Prop
  | .free | .taken => False
  | .user e _ => e ≠ d
  | _ => True

/-- Something has been done with directory `d` that can have changed those entries that satisfy
`P`. -/
structure Evolves (K : Kernel) (d : ℕ) (P : ℕ → Prop) (s : Mem) (ρ : ℕ → Role) (s' : Mem)
    (ρ' : ℕ → Role) :
    Prop where
  typed : Typed K s' ρ'
  role : ∀ f, (ρ f).Settled d → ρ' f = ρ f
  other : ∀ e, ρ e = .dir → e ≠ d → ∀ v < 2 ^ 20, s'.space e v = s.space e v
  keep : ρ d = .dir → ∀ v < 2 ^ 20, ¬ P v → s'.space d v = s.space d v
  data : ∀ f, (ρ f).Settled d → (ρ f).Data → s'.page f = s.page f

namespace Evolves

variable {P P' : ℕ → Prop} {s'' : Mem} {ρ'' : ℕ → Role}

lemma refl (h : Typed K s ρ) : Evolves K d P s ρ s ρ :=
  ⟨h, fun _ _ => rfl, fun _ _ _ _ _ => rfl, fun _ _ _ _ => rfl, fun _ _ _ => rfl⟩

lemma dir (h : Evolves K d P s ρ s' ρ') {e : ℕ} (he : ρ e = .dir) : ρ' e = .dir := by
  rw [h.role e (by rw [he]; trivial), he]

lemma trans (h : Evolves K d P s ρ s' ρ') (h' : Evolves K d P s' ρ' s'' ρ'') :
    Evolves K d P s ρ s'' ρ'' := by
  refine ⟨h'.typed, fun f hf => ?_, fun e he hed v hv => ?_, fun hd v hv hP => ?_,
    fun f hf hdata => ?_⟩
  · have hrole := h.role f hf
    rw [h'.role f (by rwa [hrole]), hrole]
  · rw [h'.other e (h.dir he) hed v hv, h.other e he hed v hv]
  · rw [h'.keep (h.dir hd) v hv hP, h.keep hd v hv hP]
  · have hrole := h.role f hf
    rw [h'.data f (by rwa [hrole]) (by rwa [hrole]), h.data f hf hdata]

lemma mono (h : Evolves K d P s ρ s' ρ') (hP : ∀ v, P v → P' v) : Evolves K d P' s ρ s' ρ' :=
  ⟨h.typed, h.role, h.other, fun hd v hv hP' => h.keep hd v hv fun hPv => hP' (hP v hPv), h.data⟩

/-- `kalloc`. -/
lemma take {fs : List ℕ} {fails : List Bool} (h : Typed K s ρ) (hl : s.freelist = f :: fs) :
    Evolves K d P s ρ { s with freelist := fs, fails := fails } (Function.update ρ f .taken) := by
  refine ⟨h.take hl, fun g hg => Function.update_of_ne ?_ _ _, fun _ _ _ _ _ => rfl,
    fun _ _ _ _ => rfl,
    fun _ _ _ => rfl⟩
  rintro rfl
  rw [h.free g (by simp [hl])] at hg
  exact hg

/-- A call of `kalloc` that fails. -/
lemma skip {fails : List Bool} (h : Typed K s ρ) : Evolves K d P s ρ { s with fails := fails } ρ :=
  ⟨h.congr (fun _ _ => rfl) rfl, fun _ _ => rfl, fun _ _ _ _ _ => rfl, fun _ _ _ _ => rfl,
    fun _ _ _ => rfl⟩

/-- A store into a user page of the directory, or into a frame that is in no table yet. -/
lemma setPage (h : Typed K s ρ) (hf : (ρ f).Data) (hd : ¬ (ρ f).Settled d) :
    Evolves K d P s ρ (s.setPage f p) ρ := by
  refine ⟨h.setPage hf, fun _ _ => rfl, fun e he _ v hv => h.space_setPage hf he hv,
    fun hd v hv _ => h.space_setPage hf hd hv, fun g hg _ => Mem.setPage_page_of_ne ?_⟩
  rintro rfl
  exact hd hg

/-- A new table. -/
lemma putTable (h : Typed K s ρ) (hd : ρ d = .dir) (hi : i < NPDENTRIES) (hempty : s.word d i = 0)
    (ht : ρ t = .taken) (hzero : ∀ j, s.word t j = 0) :
    Evolves K d P s ρ (s.setWord d i (t * PGSIZE + 7)) (Function.update ρ t (.table d i)) := by
  refine ⟨h.putTable hd hi hempty ht hzero, fun g hg => Function.update_of_ne ?_ _ _,
    fun e he _ v hv => h.space_putTable hd hi hempty ht hzero he hv,
    fun _ v hv _ => h.space_putTable hd hi hempty ht hzero hd hv,
    fun g _ hg => Mem.setWord_page_of_ne ?_⟩
  · rintro rfl
    rw [ht] at hg
    exact hg
  · rintro rfl
    rw [hd] at hg
    exact hg

/-- A new entry of a table. -/
lemma putPte (h : Typed K s ρ) (hd : ρ d = .dir) (ht : ρ t = .table d i) (hj : j < NPTENTRIES)
    (hw : w < 2 ^ 32) (he : K.Entry ρ d (NPTENTRIES * i + j) w) (hP : P (NPTENTRIES * i + j)) :
    Evolves K d P s ρ (s.setWord t j w) ρ := by
  refine ⟨h.putPte ht hj hw he, fun _ _ => rfl, fun e he hed v hv => ?_, fun _ v hv hPv => ?_,
    fun g _ hg => Mem.setWord_page_of_ne ?_⟩
  · rw [h.space_putPte hd ht hj hw he hv, if_neg (by simp [hed])]
  · rw [h.space_putPte hd ht hj hw hd hv, if_neg]
    rintro ⟨-, rfl⟩
    exact hPv hP
  · rintro rfl
    rw [ht] at hg
    exact hg

/-- An entry of a user page is cleared; its frame is then in no table. -/
lemma unmap (h : Typed K s ρ) (hd : ρ d = .dir) (ht : ρ t = .table d i) (hj : j < NPTENTRIES)
    (hf : ρ f = .user d (NPTENTRIES * i + j)) (hP : P (NPTENTRIES * i + j)) :
    Evolves K d P s ρ (s.setWord t j 0) (Function.update ρ f .taken) := by
  have e : Evolves K d P s ρ (s.setWord t j 0) ρ := .putPte h hd ht hj (Nat.two_pow_pos 32)
    (.inl rfl) hP
  refine ⟨h.unmap hd ht hj hf, fun g hg => Function.update_of_ne ?_ _ _, e.other, e.keep, e.data⟩
  rintro rfl
  rw [hf] at hg
  exact hg rfl

/-- A frame in no table is freed. -/
lemma give (h : Typed K s ρ) (hf : ρ f = .taken) :
    Evolves K d P s ρ { s.setPage f p with freelist := f :: s.freelist }
    (Function.update ρ f .free) := by
  have e : Evolves K d P s ρ (s.setPage f p) ρ := .setPage h (by rw [hf]; trivial)
    (by rw [hf]; exact id)
  refine ⟨h.give (by rw [hf]; trivial) (by rw [hf]; simp) (by rw [hf]; simp), fun g hg =>
    Function.update_of_ne ?_ _ _,
    e.other, e.keep, e.data⟩
  rintro rfl
  rw [hf] at hg
  exact hg

/-- A frame in no table becomes a user page. -/
lemma own (h : Typed K s ρ) (hf : ρ f = .taken) :
    Evolves K d P s ρ s (Function.update ρ f (.user d v)) := by
  refine ⟨h.recast (h.unref_of_plain (by rw [hf]; trivial)) (by rw [hf]; simp)
    (h.not_mem (by rw [hf]; simp)) _ (by simp) (by simp), fun g hg => Function.update_of_ne ?_ _ _,
    fun _ _ _ _ _ => rfl, fun _ _ _ _ => rfl,
    fun _ _ _ => rfl⟩
  rintro rfl
  rw [hf] at hg
  exact hg

end Evolves

/-! ## `walkpgdir` -/

namespace Mem

/-- The tables of a directory, by their indices. -/
def tables (s : Mem) (d : ℕ) : Finset ℕ := (Finset.range NPDENTRIES).filter fun i => s.word d i ≠ 0

lemma mem_tables (hi : i < NPDENTRIES) : i ∈ s.tables d ↔ s.word d i ≠ 0 := by
  simp [tables, hi]

lemma tables_congr (h : s'.page d = s.page d) : s'.tables d = s.tables d := by
  simp only [tables, word_of_page h]

lemma tables_setWord (hi : i < NPDENTRIES) (hw : w < 2 ^ 32) (hw0 : w ≠ 0) :
    (s.setWord d i w).tables d = insert i (s.tables d) := by
  ext k
  simp only [tables, Finset.mem_filter, Finset.mem_range, Finset.mem_insert]
  by_cases hk : k < NPDENTRIES
  · rw [word_setWord (show i < NPTENTRIES from hi) (show k < NPTENTRIES from hk) hw]
    by_cases hki : k = i <;> simp [hki, hk, hw0, hi]
  · have hki : k ≠ i := by
      rintro rfl
      exact hk hi
    simp [hk, hki]

lemma tables_le : (s.tables d).card ≤ NPDENTRIES := by
  rw [tables]
  refine (Finset.card_filter_le _ _).trans ?_
  rw [Finset.card_range]

/-- The frames that are free or tables of the directory. -/
def room (s : Mem) (d : ℕ) : ℕ := s.freelist.length + (s.tables d).card

lemma room_le (h : s.freelist = []) : s.room d ≤ NPDENTRIES := by
  rw [room, h, List.length_nil, Nat.zero_add]
  exact tables_le

end Mem

/-- What decides whether a table or a page can be added: the indices of the tables that are there,
which of the next calls of `kalloc` fail, and how many frames are left. -/
structure Supply where
  tables : Finset ℕ
  fails : List Bool
  free : ℕ

namespace Supply

/-- `kalloc`. -/
def kalloc (m : Supply) : Bool × Supply :=
  if Vm.grants m.fails m.free then (true, { m with fails := m.fails.tail, free := m.free - 1 })
  else (false, { m with fails := m.fails.tail })

/-- `walkpgdir`, for an address with the index `i`. -/
def table (m : Supply) (i : ℕ) : Bool × Supply :=
  if i ∈ m.tables then (true, m)
  else
    match m.kalloc with
    | (true, m') => (true, { m' with tables := insert i m'.tables })
    | (false, m') => (false, m')

end Supply

/-- The supply for directory `d`. -/
def Mem.supply (s : Mem) (d : ℕ) : Supply := ⟨s.tables d, s.fails, s.freelist.length⟩

lemma Mem.supply_congr (h : s'.page d = s.page d) (hf : s'.fails = s.fails)
    (hl : s'.freelist = s.freelist) : s'.supply d = s.supply d := by
  rw [Mem.supply, Mem.supply, tables_congr h, hf, hl]

/-- Frames have been taken from the free list only for tables of directory `d`, with indices that
satisfy `I`. -/
structure Draws (d : ℕ) (I : ℕ → Prop) (s s' : Mem) : Prop where
  list : ∃ n, s'.freelist = s.freelist.drop n ∧ (s'.tables d).card = (s.tables d).card + n
  fails : s.fails = [] → s'.fails = []
  word : ∀ i < NPDENTRIES, ¬ I i → s'.word d i = s.word d i

namespace Draws

variable {s'' : Mem} {I I' : ℕ → Prop}

lemma refl (h : s'.page d = s.page d) (hlist : s'.freelist = s.freelist)
    (hfails : s.fails = [] → s'.fails = []) :
    Draws d I s s' :=
  ⟨⟨0, by rw [hlist, List.drop_zero], by rw [Mem.tables_congr h, Nat.add_zero]⟩, hfails,
    fun i _ _ => Mem.word_of_page h i⟩

lemma trans (h : Draws d I s s') (h' : Draws d I s' s'') : Draws d I s s'' := by
  obtain ⟨n, hlist, htables⟩ := h.list
  obtain ⟨n', hlist', htables'⟩ := h'.list
  exact ⟨⟨n + n', by rw [hlist', hlist, List.drop_drop], by omega⟩, fun hs => h'.fails (h.fails hs),
    fun i hi hI => (h'.word i hi hI).trans (h.word i hi hI)⟩

lemma mono (h : Draws d I s s') (hI : ∀ i, I i → I' i) : Draws d I' s s' :=
  ⟨h.list, h.fails, fun i hi hI' => h.word i hi fun hIi => hI' (hI i hIi)⟩

/-- Frames for tables do not count. -/
lemma room (h : Draws d I s s') : s.room d ≤ s'.room d := by
  obtain ⟨n, hlist, htables⟩ := h.list
  rw [Mem.room, Mem.room, hlist, htables, List.length_drop]
  omega

end Draws

/-- `walkpgdir` of an address with or without a table. -/
lemma Vm.walkpgdir_find (h : Typed K s ρ) (hd : ρ d = .dir) (va : ℕ) :
    (∃ t, Refers (s.word d (PDX va)) t ∧ ρ t = .table d (PDX va) ∧
        ∀ alloc, walkpgdir K d va alloc s = .ok (some (t, PTX va)) s) ∨
      s.word d (PDX va) = 0 ∧ walkpgdir K d va false s = .ok none s := by
  have hload : load d (PDX va) s = .ok (s.word d (PDX va)) s :=
    load_eq (h.pool d (by rw [hd]; simp))
  rcases h.pde d (PDX va) hd (Nat.mod_lt _ (by decide)) with hw | ⟨t, hw, ht⟩
  · refine .inr ⟨hw, ?_⟩
    rw [walkpgdir, bind_of_ok hload, hw]
    rfl
  · refine .inl ⟨t, hw, ht, fun alloc => ?_⟩
    rw [walkpgdir, bind_of_ok hload, if_pos (by rw [and_PTE_P, hw.2]; decide), hw.1]
    rfl

/-- Nothing but free frames gets another role, and no data is overwritten. -/
def Preserves (s : Mem) (ρ : ℕ → Role) (s' : Mem) (ρ' : ℕ → Role) : Prop :=
  ∀ f, ρ f ≠ .free → ρ' f = ρ f ∧ ((ρ f).Data → s'.page f = s.page f)

lemma Preserves.trans {s'' : Mem} {ρ'' : ℕ → Role} (h : Preserves s ρ s' ρ')
    (h' : Preserves s' ρ' s'' ρ'') :
    Preserves s ρ s'' ρ'' := fun f hf => by
  obtain ⟨hrole, hpage⟩ := h f hf
  obtain ⟨hrole', hpage'⟩ := h' f (by rwa [hrole])
  exact ⟨hrole'.trans hrole, fun hdata => (hpage' (by rwa [hrole])).trans (hpage hdata)⟩

/-- `walkpgdir` with `alloc` finds a table or adds one, if there is a frame for it. -/
lemma Vm.walkpgdir_alloc (h : Typed K s ρ) (hd : ρ d = .dir) (va : ℕ) :
    ∃ r s' ρ', walkpgdir K d va true s = .ok r s' ∧ Evolves K d (fun _ => False) s ρ s' ρ' ∧
    Preserves s ρ s' ρ' ∧
      Draws d (· = PDX va) s s' ∧ (s.supply d).table (PDX va) = (r.isSome, s'.supply d) ∧
      (r = none ∧ (s.fails = [] → s'.freelist = []) ∨
        ∃ t, r = some (t, PTX va) ∧ ρ' t = .table d (PDX va)) := by
  have hi : PDX va < NPDENTRIES := Nat.mod_lt _ (by decide)
  rcases walkpgdir_find h hd va with ⟨t, hw, ht, hfind⟩ | ⟨hw, -⟩
  · refine ⟨_, s, ρ, hfind true, .refl h, fun _ _ => ⟨rfl, fun _ => rfl⟩, .refl rfl rfl id, ?_,
      .inr ⟨t, rfl, ht⟩⟩
    exact if_pos ((Mem.mem_tables hi).2 hw.ne_zero)
  · have hpool := h.pool d (by rw [hd]; simp)
    have hload : load d (PDX va) s = .ok (s.word d (PDX va)) s := load_eq hpool
    have hnot : PDX va ∉ s.tables d := by rw [Mem.mem_tables hi, hw]; simp
    rcases kalloc_cases s with ⟨hk, hdenied⟩ | ⟨t, fs, hl, hgranted, hk⟩
    · refine ⟨none, { s with fails := s.fails.tail }, ρ, ?_, .skip h,
        fun _ _ => ⟨rfl, fun _ => rfl⟩,
        .refl rfl rfl fun hf => ?_, ?_, .inl ⟨rfl, freelist_eq_nil hdenied⟩⟩
      · rw [walkpgdir, bind_of_ok hload, hw, if_neg (by simp), if_neg (by simp), bind_of_ok hk]
        rfl
      · change s.fails.tail = []
        rw [hf]
        rfl
      · simp only [Supply.table, Supply.kalloc, Mem.supply, hnot, hdenied, if_false,
          Bool.false_eq_true]
        rfl
    · have hfree := h.free t (by simp [hl])
      have e₁ : Evolves K d (fun _ => False) s ρ { s with freelist := fs, fails := s.fails.tail }
        _ := .take h hl
      have ht₁ : Function.update ρ t .taken t = .taken := Function.update_self ..
      have hpt : K.Pool t := e₁.typed.pool t (by rw [ht₁]; simp)
      have e₂ := e₁.trans (Evolves.setPage (p := fun _ => 0) e₁.typed (by rw [ht₁]; trivial)
        (by rw [ht₁]; exact id))
      have htd : d ≠ t := by
        rintro rfl
        exact absurd (hd.symm.trans hfree) (by simp)
      have hd₂ := e₂.dir hd
      have hempty : (({ s with freelist := fs, fails := s.fails.tail } : Mem).setPage t fun _ =>
        0).word d (PDX va) = 0 := by
        rw [Mem.word_of_page (Mem.setPage_page_of_ne htd)]
        exact hw
      have hzero : ∀ j, (({ s with freelist := fs, fails := s.fails.tail } : Mem).setPage t
        fun _ => 0).word t j = 0 :=
        Mem.word_zero Mem.setPage_page_self
      have e₃ := e₂.trans (Evolves.putTable e₂.typed hd₂ hi hempty ht₁ hzero)
      have htables :
        ((({ s with freelist := fs, fails := s.fails.tail } : Mem).setPage t fun _ => 0).setWord
          d (PDX va) (t * PGSIZE + 7)).tables d = insert (PDX va) (s.tables d) := by
        rw [Mem.tables_setWord hi (hpt.entry_lt (by decide)) (Nat.succ_ne_zero _)]
        exact congrArg (insert (PDX va)) (Mem.tables_congr (Mem.setPage_page_of_ne htd))
      refine ⟨some (t, PTX va), _, _, ?_, e₃, fun f hf => ⟨?_, fun hdata => ?_⟩,
        ⟨⟨1, ?_, ?_⟩, fun hf => ?_, fun i hi' hne => ?_⟩, ?_,
        .inr ⟨t, rfl, Function.update_self ..⟩⟩
      · have hor : t * PGSIZE ||| PTE_P ||| PTE_W ||| PTE_U = t * PGSIZE + 7 := by
          rw [Nat.or_assoc, Nat.or_assoc]
          exact or_flags (by decide)
        rw [walkpgdir, bind_of_ok hload, hw, if_neg (by simp), if_neg (by simp), bind_of_ok hk]
        dsimp only
        rw [bind_of_ok (memset_eq hpt), bind_of_ok (store_eq hpool), hor]
        rfl
      · rw [Function.update_of_ne, Function.update_of_ne] <;> exact fun heq => hf (heq ▸ hfree)
      · rw [Mem.setWord_page_of_ne, Mem.setPage_page_of_ne]
        · exact fun heq => hf (heq ▸ hfree)
        · rintro rfl
          rw [hd] at hdata
          exact hdata
      · rw [hl]
        rfl
      · rw [htables, Finset.card_insert_of_notMem hnot]
      · change s.fails.tail = []
        rw [hf]
        rfl
      · rw [Mem.word_setWord hi hi' (hpt.entry_lt (by decide)), if_neg (by simp [hne]),
          Mem.word_of_page (Mem.setPage_page_of_ne htd)]
        rfl
      · simp only [Supply.table, Supply.kalloc, Mem.supply, hnot, hgranted, if_true,
          if_false, htables]
        rw [hl]
        rfl

/-! ## `mappages` -/

lemma Kernel.kpte_odd (v : ℕ) : K.kpte v = 0 ∨ K.kpte v % 2 = 1 := by
  rw [Kernel.kpte]
  split
  · refine .inr (Nat.mod_two_eq_one_iff_testBit_zero.2 ?_)
    rw [Nat.testBit_or, PTE_P, Nat.testBit_one_zero, Bool.or_true]
  · exact .inl rfl

/-- The processor does not change whether a page is there. -/
lemma Marked.mod_two {w₀ : ℕ} (h : Marked w₀ w) : w % 2 = w₀ % 2 := by
  rcases h with rfl | ⟨hodd, b, -, rfl⟩
  · rfl
  · rw [hodd, Nat.mod_two_eq_one_iff_testBit_zero, Nat.testBit_or,
      Nat.mod_two_eq_one_iff_testBit_zero.1 hodd, Bool.true_or]

/-- An entry that is not present is 0. -/
lemma Kernel.Entry.eq_zero (h : K.Entry ρ d v w) (hw : w % 2 = 0) : w = 0 := by
  rcases h with h | ⟨-, f, href, -⟩ | ⟨-, hm⟩
  · exact h
  · exact absurd href.2 (by omega)
  · have heven := hm.mod_two
    rcases hm with rfl | ⟨hodd, -⟩
    · exact (K.kpte_odd v).resolve_right (by omega)
    · omega

lemma PDX_page (hv : v < 2 ^ 20) : PDX (v * PGSIZE) = v / NPTENTRIES := by
  have hP := PGSIZE_eq
  have hN := NPTENTRIES_eq
  have hD := NPDENTRIES_eq
  rw [PDX, hP, hN, hD]
  omega

lemma PTX_page : PTX (v * PGSIZE) = v % NPTENTRIES := by
  have hP := PGSIZE_eq
  rw [PTX, hP, show v * 4096 / 2 ^ 12 = v by omega]

/-- Making one entry: a table is found or added, and then there is a store into it. -/
lemma Vm.mappage_spec (h : Typed K s ρ) (hd : ρ d = .dir) (hv : v < 2 ^ 20) (w : ℕ) :
    Wp (mappage K d (v * PGSIZE) w)
      (fun ok s' => ∃ s₁ ρ₁, Evolves K d (fun _ => False) s ρ s₁ ρ₁ ∧ Preserves s ρ s₁ ρ₁ ∧
        Draws d (· = v / NPTENTRIES) s s₁ ∧ (s.supply d).table (v / NPTENTRIES) =
          (ok, s'.supply d) ∧
        (ok = false ∧ s' = s₁ ∧ (s.fails = [] → s₁.freelist = []) ∨
          ok = true ∧ s.space d v = 0 ∧ ∃ t, ρ₁ t = .table d (v / NPTENTRIES) ∧ s' =
            s₁.setWord t (v % NPTENTRIES) w))
      (fun e _ => e = .panic "remap" ∧ s.space d v ≠ 0) s := by
  obtain ⟨r, s₁, ρ₁, hwalk, e, pr, dr, hsup, hr⟩ := walkpgdir_alloc h hd (v * PGSIZE)
  have hspace := e.keep hd v hv id
  rw [PDX_page hv] at dr hsup hr
  rw [PTX_page] at hr
  refine .of_bind (.of_ok hwalk ?_)
  rcases hr with ⟨rfl, hempty⟩ | ⟨t, rfl, ht⟩
  · exact .of_pure ⟨s₁, ρ₁, e, pr, dr, hsup, .inl ⟨rfl, rfl, hempty⟩⟩
  · have hpool := e.typed.pool t (by rw [ht]; simp)
    obtain ⟨-, hlink⟩ := (e.typed.link t d _ ht).2.resolve_right (by rw [e.dir hd]; simp)
    have hold : s₁.word t (v % NPTENTRIES) = s.space d v := by
      rw [← hspace, Typed.space_of_table hlink]
    refine .of_bind (.of_ok (load_eq hpool) ?_)
    rw [hold, and_PTE_P]
    split
    · rename_i hodd
      exact .of_error rfl ⟨rfl, fun hz => hodd (by rw [hz])⟩
    · rename_i heven
      have hz : s.space d v = 0 := (h.entry hd hv).eq_zero (by omega)
      have htd : d ≠ t := by
        rintro rfl
        exact absurd (ht.symm.trans (e.dir hd)) (by simp)
      have hsup' : (s₁.setWord t (v % NPTENTRIES) w).supply d = s₁.supply d :=
        Mem.supply_congr (Mem.setWord_page_of_ne htd) rfl rfl
      refine .of_bind (.of_ok (store_eq hpool) (.of_pure ?_))
      exact ⟨s₁, ρ₁, e, pr, dr, by rw [hsup']; exact hsup, .inr ⟨rfl, hz, t, ht, rfl⟩⟩

/-- The frame `mem` has been made page `v` of directory `d`, if `ok`. -/
structure Maps (K : Kernel) (d v mem w : ℕ) (s : Mem) (ρ : ℕ → Role) (ok : Bool) (s' : Mem)
    (ρ' : ℕ → Role) :
    Prop where
  evolves : Evolves K d (fun u => ok = true ∧ u = v) s ρ s' ρ'
  draws : Draws d (· = v / NPTENTRIES) s s'
  others : ∀ f, f ≠ mem → ρ f ≠ .free → ρ' f = ρ f ∧ ((ρ f).Data → s'.page f = s.page f)
  page : s'.page mem = s.page mem
  role : ρ' mem = if ok then .user d v else .taken
  entry : ok = true → s.space d v = 0 ∧ s'.space d v = w
  fail : ok = false → s.fails = [] → s'.freelist = []
  supply : (s.supply d).table (v / NPTENTRIES) = (ok, s'.supply d)

/-- `mappages` of one page makes one entry. -/
lemma Vm.mappages_page {pa perm : ℕ} (hv : v < 2 ^ 20) :
    mappages K d (v * PGSIZE) PGSIZE pa perm = mappage K d (v * PGSIZE)
    (pa ||| perm ||| PTE_P) := by
  have hP := PGSIZE_eq
  have hlast : PGROUNDDOWN ((v * PGSIZE + PGSIZE + 2 ^ 32 - 1) % 2 ^ 32) = v * PGSIZE := by
    rw [PGROUNDDOWN, hP]
    omega
  have hfirst : PGROUNDDOWN (v * PGSIZE) = v * PGSIZE := by
    rw [PGROUNDDOWN, hP, Nat.mul_div_cancel _ (by decide)]
  have hend : ∀ ok : Bool, (if ok = true then pure true else pure false : Vm Bool) = pure ok := by
    intro ok
    cases ok <;> rfl
  rw [mappages, hlast, hfirst, show 2 ^ 20 = 1048575 + 1 from rfl, mappagesLoop]
  simp only [if_true, hend, bind_pure]

/-- `mappages` of one page with a frame that is in no table. -/
lemma Vm.mappages_user {mem perm : ℕ} (h : Typed K s ρ) (hd : ρ d = .dir) (hm : ρ mem = .taken)
    (hv : v < KERNPAGE) (hperm : perm < PGSIZE) :
    Wp (mappages K d (v * PGSIZE) PGSIZE (mem * PGSIZE) perm)
      (fun ok s' => ∃ ρ', Maps K d v mem (mem * PGSIZE + (perm ||| PTE_P)) s ρ ok s' ρ')
      (fun e _ => e = .panic "remap" ∧ s.space d v ≠ 0) s := by
  have hP := PGSIZE_eq
  have hN := NPTENTRIES_eq
  have hK : KERNPAGE = 2 ^ 19 := rfl
  have hv' : v < 2 ^ 20 := by omega
  have hfl : perm ||| PTE_P < PGSIZE := Nat.or_lt_two_pow (n := 12) hperm (by decide)
  rw [mappages_page hv', Nat.or_assoc, or_flags hfl]
  refine .mono (mappage_spec h hd hv' _) ?_ fun _ _ => id
  rintro ok s' ⟨s₁, ρ₁, e, pr, dr, hsup, ⟨rfl, rfl, hempty⟩ | ⟨rfl, hz, t, ht, rfl⟩⟩
  · have hm₁ := (pr mem (by rw [hm]; simp)).1
    refine ⟨ρ₁, e.mono (fun _ => False.elim), dr, fun f _ hf => pr f hf, ?_, ?_, by simp,
      fun _ => hempty,
      hsup⟩
    · exact (pr mem (by rw [hm]; simp)).2 (by rw [hm]; trivial)
    · rw [hm₁, hm]
      rfl
  · have hm₁ : ρ₁ mem = .taken := by rw [(pr mem (by rw [hm]; simp)).1, hm]
    have hpool := e.typed.pool mem (by rw [hm₁]; simp)
    have hvn : NPTENTRIES * (v / NPTENTRIES) + v % NPTENTRIES = v := Nat.div_add_mod v NPTENTRIES
    have htm : t ≠ mem := by
      rintro rfl
      exact absurd (ht.symm.trans hm₁) (by simp)
    have e₁ : Evolves K d (fun u => true = true ∧ u = v) s₁ ρ₁ s₁ _ := .own (v := v) e.typed hm₁
    have ht₁ : Function.update ρ₁ mem (.user d v) t = .table d (v / NPTENTRIES) :=
      (Function.update_of_ne htm ..).trans ht
    have hj : v % NPTENTRIES < NPTENTRIES := Nat.mod_lt _ (by decide)
    have hentry : K.Entry (Function.update ρ₁ mem (.user d v)) d (NPTENTRIES * (v / NPTENTRIES) +
      v % NPTENTRIES)
        (mem * PGSIZE + (perm ||| PTE_P)) := by
      refine .inr (.inl ⟨by rwa [hvn], mem, refers_add hfl ?_, by rw [hvn, Function.update_self]⟩)
      rw [Nat.mod_two_eq_one_iff_testBit_zero, Nat.testBit_or, PTE_P,
        Nat.testBit_one_zero, Bool.or_true]
    have e₂ := Evolves.putPte (P := fun u => true = true ∧ u = v) e₁.typed
      (e₁.dir (e.dir hd)) ht₁ hj (hpool.entry_lt hfl) hentry ⟨rfl, hvn⟩
    refine ⟨_, ((e.mono (fun _ => False.elim)).trans e₁).trans e₂, ?_,
      fun f hfm hf => ⟨?_, fun hdata => ?_⟩,
      ?_, ?_, fun _ => ⟨hz, ?_⟩, by simp, hsup⟩
    · have htd : d ≠ t := by
        rintro rfl
        exact absurd (ht.symm.trans (e.dir hd)) (by simp)
      exact dr.trans (.refl (Mem.setWord_page_of_ne htd) rfl id)
    · rw [Function.update_of_ne hfm, (pr f hf).1]
    · rw [Mem.setWord_page_of_ne, (pr f hf).2 hdata]
      rintro rfl
      rw [← (pr f hf).1, ht] at hdata
      exact hdata
    · rw [Mem.setWord_page_of_ne htm.symm, (pr mem (by rw [hm]; simp)).2 (by rw [hm]; trivial)]
    · rw [Function.update_self]
      rfl
    · rw [e₁.typed.space_putPte (e₁.dir (e.dir hd)) ht₁ hj (hpool.entry_lt hfl) (e₁.dir (e.dir hd))
        hv', if_pos ⟨rfl, hvn.symm⟩]

/-- The pages from `v` to `u` of the kernel have been mapped in directory `d`, all of them if
`ok`. -/
structure MapsKernel (K : Kernel) (d v u : ℕ) (s : Mem) (ρ : ℕ → Role) (ok : Bool) (s' : Mem)
    (ρ' : ℕ → Role) :
    Prop where
  evolves : Evolves K d (fun x => v ≤ x ∧ x ≤ u) s ρ s' ρ'
  preserves : Preserves s ρ s' ρ'
  draws : Draws d (fun i => ∃ x, v ≤ x ∧ x ≤ u ∧ x / NPTENTRIES = i) s s'
  entry : ok = true → ∀ x, v ≤ x → x ≤ u → s'.space d x = K.kpte x
  fail : ok = false → s.fails = [] → s'.freelist = []

/-- The addresses of the kernel are below `KERNBASE + PHYSTOP`. -/
lemma Kernel.data_le : KERNLINK < K.data ∧ K.data ≤ KERNBASE + 4 * 1024 * 1024 :=
  ⟨K.text, K.order.trans K.low⟩

/-- The mappings consist of whole pages of the kernel's part of the address space. -/
lemma Kernel.kmap_whole {k : Kmap} (hk : k ∈ K.kmap) :
    k.virt % PGSIZE = 0 ∧ k.size % PGSIZE = 0 ∧ 0 < k.size ∧ KERNBASE ≤ k.virt ∧
    k.virt + k.size ≤ 2 ^ 32 ∧
      k.phys_start + k.size ≤ 2 ^ 32 ∧ k.perm < PGSIZE := by
  have hP := PGSIZE_eq
  have hB := KERNBASE_eq
  have hE := EXTMEM_eq
  have hT := PHYSTOP_eq
  have hD := DEVSPACE_eq
  have hL := KERNLINK_eq
  have hW : PTE_W = 2 := rfl
  have halign := K.aligned
  obtain ⟨hlo, hhi⟩ := K.data_le
  rw [hP] at halign ⊢
  simp only [Kernel.kmap, List.mem_cons, List.not_mem_nil, or_false] at hk
  rcases hk with rfl | rfl | rfl | rfl
  all_goals
    dsimp only [Kmap.size]
    omega

/-- No page belongs to two mappings. -/
lemma Kernel.kmap_unique {k k' : Kmap} (hk : k ∈ K.kmap) (hk' : k' ∈ K.kmap) (h : k.Has v)
    (h' : k'.Has v) : k = k' := by
  have hP := PGSIZE_eq
  have hB := KERNBASE_eq
  have hE := EXTMEM_eq
  have hT := PHYSTOP_eq
  have hD := DEVSPACE_eq
  have hL := KERNLINK_eq
  obtain ⟨hlo, hhi⟩ := K.data_le
  simp only [Kernel.kmap, List.mem_cons, List.not_mem_nil, or_false] at hk hk'
  rcases hk with rfl | rfl | rfl | rfl <;> rcases hk' with rfl | rfl | rfl | rfl
  all_goals
    dsimp only [Kmap.Has, Kmap.size] at h h'
    first
    | rfl
    | omega

lemma Kernel.kmap_nodup : K.kmap.Nodup := by
  have hB := KERNBASE_eq
  have hD := DEVSPACE_eq
  have hL := KERNLINK_eq
  obtain ⟨hlo, hhi⟩ := K.data_le
  refine List.Nodup.of_map Kmap.virt ?_
  simp only [Kernel.kmap, List.map_cons, List.map_nil, List.nodup_cons, List.mem_cons,
    List.not_mem_nil, or_false,
    List.nodup_nil, and_true, not_or, not_false_eq_true]
  omega

/-- The pages of a mapping. -/
lemma Kernel.has_iff {k : Kmap} (hk : k ∈ K.kmap) :
    k.Has v ↔ k.virt / PGSIZE ≤ v ∧ v ≤ (k.virt + k.size) / PGSIZE - 1 := by
  have hP := PGSIZE_eq
  obtain ⟨hvirt, hsize, hpos, -⟩ := K.kmap_whole hk
  rw [Kmap.Has, hP]
  rw [hP] at hvirt hsize
  omega

/-- The entry of a page in a mapping. -/
lemma Kernel.kpte_of_has {k : Kmap} (hk : k ∈ K.kmap) (h : k.Has v) :
    K.kpte v = k.phys_start + (v * PGSIZE - k.virt) ||| k.perm ||| PTE_P := by
  have hfind : K.kmap.find? (fun k => decide (k.Has v)) = some k := by
    cases hf : K.kmap.find? (fun k => decide (k.Has v)) with
    | none => exact absurd h (by simpa using List.find?_eq_none.1 hf k hk)
    | some k' =>
        have hhas := List.find?_some hf
        rw [decide_eq_true_iff] at hhas
        rw [K.kmap_unique (List.mem_of_find?_eq_some hf) hk hhas h]
  rw [Kernel.kpte, hfind]

lemma Kernel.kpte_eq_zero (h : ∀ k ∈ K.kmap, ¬ k.Has v) : K.kpte v = 0 := by
  rw [Kernel.kpte, List.find?_eq_none.2 (by simpa using h)]

lemma Kernel.kpte_lt (v : ℕ) : K.kpte v < 2 ^ 32 := by
  by_cases h : ∃ k ∈ K.kmap, k.Has v
  · obtain ⟨k, hk, hhas⟩ := h
    obtain ⟨-, -, -, -, -, hphys, hperm⟩ := K.kmap_whole hk
    have haddr : k.phys_start + (v * PGSIZE - k.virt) < 2 ^ 32 := by
      have := hhas.2
      omega
    rw [K.kpte_of_has hk hhas]
    exact Nat.or_lt_two_pow (Nat.or_lt_two_pow haddr (hperm.trans (by decide))) (by decide)
  · rw [K.kpte_eq_zero (by simpa using h)]
    exact Nat.two_pow_pos 32

lemma Vm.mappage_kernel (h : Typed K s ρ) (hd : ρ d = .dir) (hlo : KERNPAGE ≤ v) (hv : v < 2 ^ 20) :
    Wp (mappage K d (v * PGSIZE) (K.kpte v)) (fun ok s' => ∃ ρ', MapsKernel K d v v s ρ ok s' ρ')
      (fun e _ => e = .panic "remap" ∧ s.space d v ≠ 0) s := by
  refine .mono (mappage_spec h hd hv _) ?_ fun e s' he => he
  rintro ok s' ⟨s₁, ρ₁, e, pr, dr, -, ⟨rfl, rfl, hempty⟩ | ⟨rfl, hz, t, ht, rfl⟩⟩
  · exact ⟨ρ₁, e.mono (fun _ => False.elim), pr, dr.mono fun i hi =>
      ⟨v, le_rfl, le_rfl, hi.symm⟩, by simp, fun _ => hempty⟩
  · have hvn : NPTENTRIES * (v / NPTENTRIES) + v % NPTENTRIES = v := Nat.div_add_mod v NPTENTRIES
    have hj : v % NPTENTRIES < NPTENTRIES := Nat.mod_lt _ (by decide)
    have e₁ := Evolves.putPte (P := fun x => v ≤ x ∧ x ≤ v) e.typed (e.dir hd) ht hj (K.kpte_lt v)
      (.inr (.inr ⟨by rwa [hvn], .inl (by rw [hvn])⟩)) ⟨hvn.ge, hvn.le⟩
    refine ⟨ρ₁, (e.mono (fun _ => False.elim)).trans e₁, fun f hf => ⟨(pr f hf).1, fun hdata => ?_⟩,
      (dr.mono fun i hi => ⟨v, le_rfl, le_rfl, hi.symm⟩).trans ?_,
      fun _ x hx hx' => ?_, by simp⟩
    · rw [Mem.setWord_page_of_ne, (pr f hf).2 hdata]
      rintro rfl
      rw [← (pr f hf).1, ht] at hdata
      exact hdata
    · refine .refl (Mem.setWord_page_of_ne ?_) rfl id
      rintro rfl
      exact absurd (ht.symm.trans (e.dir hd)) (by simp)
    · obtain rfl : x = v := le_antisymm hx' hx
      rw [e.typed.space_putPte (e.dir hd) ht hj (K.kpte_lt x) (e.dir hd) hv, if_pos ⟨rfl, hvn.symm⟩]

lemma Vm.mappagesLoop_kernel {n m pa perm : ℕ} (hm : m < n) (h : Typed K s ρ) (hd : ρ d = .dir)
    (hlo : KERNPAGE ≤ v) (hhi : v + m < 2 ^ 20)
    (hentry : ∀ k ≤ m, (pa + k * PGSIZE) % 2 ^ 32 ||| perm ||| PTE_P = K.kpte (v + k))
    (hpa : pa < 2 ^ 32) :
    Wp (mappagesLoop K n d (v * PGSIZE) ((v + m) * PGSIZE) pa perm)
      (fun ok s' => ∃ ρ', MapsKernel K d v (v + m) s ρ ok s' ρ')
      (fun e _ => e = .panic "remap" ∧ ∃ x, v ≤ x ∧ x ≤ v + m ∧ s.space d x ≠ 0) s := by
  have hP := PGSIZE_eq
  -- the number of pages that are left decreases, and the bound with it
  induction m generalizing n v pa s ρ with
  | zero =>
      obtain ⟨n, rfl⟩ := Nat.exists_eq_succ_of_ne_zero hm.ne_bot
      have hw := hentry 0 le_rfl
      rw [Nat.zero_mul, Nat.add_zero, Nat.mod_eq_of_lt hpa, Nat.add_zero] at hw
      rw [mappagesLoop, hw, Nat.add_zero, if_pos rfl]
      refine .of_bind (.mono (mappage_kernel h hd hlo hhi) ?_ fun e s' ⟨he, hx⟩ => ⟨he, v,
        le_rfl, le_rfl, hx⟩)
      rintro ok s' ⟨ρ', k⟩
      cases ok with
      | true => exact .of_pure ⟨ρ', k⟩
      | false => exact .of_pure ⟨ρ', k⟩
  | succ m ih =>
      obtain ⟨n, rfl⟩ := Nat.exists_eq_succ_of_ne_zero (Nat.ne_zero_of_lt hm)
      have hw := hentry 0 (Nat.zero_le _)
      rw [Nat.zero_mul, Nat.add_zero, Nat.mod_eq_of_lt hpa, Nat.add_zero] at hw
      have hne : v * PGSIZE ≠ (v + (m + 1)) * PGSIZE := by
        rw [hP]
        omega
      have hnext : (v * PGSIZE + PGSIZE) % 2 ^ 32 = (v + 1) * PGSIZE := by
        rw [hP]
        omega
      have hsum : v + (m + 1) = v + 1 + m := by omega
      rw [mappagesLoop, hw, if_neg hne, hnext, hsum]
      refine .of_bind (.mono (mappage_kernel h hd hlo (by omega)) ?_
        fun e s' ⟨he, hx⟩ => ⟨he, v, le_rfl, by omega, hx⟩)
      rintro ok s' ⟨ρ', k⟩
      cases ok with
      | false =>
          exact .of_pure ⟨ρ', k.evolves.mono (fun x hx => ⟨hx.1, by omega⟩), k.preserves,
            k.draws.mono fun i ⟨x, hx, hx', hi⟩ => ⟨x, hx, by omega, hi⟩, by simp, k.fail⟩
      | true =>
          have hentry' : ∀ j ≤ m, ((pa + PGSIZE) % 2 ^ 32 + j * PGSIZE) % 2 ^ 32 |||
            perm ||| PTE_P =
              K.kpte (v + 1 + j) := fun j hj => by
            rw [show v + 1 + j = v + (j + 1) by omega, ← hentry (j + 1) (by omega),
              Nat.mod_add_mod, Nat.succ_mul,
              Nat.add_assoc, Nat.add_comm PGSIZE]
          refine .mono (ih (by omega) k.evolves.typed (k.evolves.dir hd) (by omega)
            (by omega) hentry' (Nat.mod_lt _ (by decide))) ?_ fun e s'' => ?_
          · rintro ok s'' ⟨ρ'', k'⟩
            have e := k.evolves
            have e' := k'.evolves
            refine ⟨ρ'', (e.mono fun x hx => ⟨hx.1, by omega⟩).trans
              (e'.mono fun x hx => ⟨by omega, hx.2⟩),
              k.preserves.trans k'.preserves,
              (k.draws.mono fun i ⟨x, hx, hx', hi⟩ => ⟨x, hx, by omega, hi⟩).trans
                (k'.draws.mono fun i ⟨x, hx, hx', hi⟩ => ⟨x, by omega, hx', hi⟩),
                fun hok x hx hx' => ?_, fun hok hf => ?_⟩
            · by_cases hxv : x = v
              · subst hxv
                rw [e'.keep (e.dir hd) x (by omega) (by omega), k.entry rfl x le_rfl le_rfl]
              · exact k'.entry hok x (by omega) hx'
            · exact k'.fail hok (k.draws.fails hf)
          · rintro ⟨he, x, hx, hx', hne⟩
            refine ⟨he, x, by omega, hx', ?_⟩
            rwa [k.evolves.keep hd x (by omega) (by omega)] at hne

/-- `mappages` as `setupkvm` calls it. -/
lemma Vm.mappages_kmap {k : Kmap} (hk : k ∈ K.kmap) (h : Typed K s ρ) (hd : ρ d = .dir)
    (hfree : ∀ x, k.Has x → s.space d x = 0) :
    Wp (mappages K d k.virt k.size k.phys_start k.perm)
      (fun ok s' => ∃ ρ', MapsKernel K d (k.virt / PGSIZE)
        ((k.virt + k.size) / PGSIZE - 1) s ρ ok s' ρ') (fun _ _ => False) s := by
  have hP := PGSIZE_eq
  have hB := KERNBASE_eq
  have hKP := KERNPAGE_eq
  obtain ⟨hvirt, hsize, hpos, hlo, hhi, hphys, -⟩ := K.kmap_whole hk
  obtain ⟨v, hv⟩ : ∃ v, k.virt = v * PGSIZE := ⟨k.virt / PGSIZE, by rw [hP] at hvirt ⊢; omega⟩
  obtain ⟨m, hm⟩ : ∃ m, k.size = (m + 1) * PGSIZE :=
    ⟨k.size / PGSIZE - 1, by rw [hP] at hsize ⊢; omega⟩
  have hfirst : PGROUNDDOWN k.virt = v * PGSIZE := by
    rw [PGROUNDDOWN, hv, Nat.mul_div_cancel _ (by decide)]
  have hlast : PGROUNDDOWN ((k.virt + k.size + 2 ^ 32 - 1) % 2 ^ 32) = (v + m) * PGSIZE := by
    rw [PGROUNDDOWN, hv, hm, hP]
    rw [hv, hm, hP] at hhi
    omega
  have hend : (k.virt + k.size) / PGSIZE - 1 = v + m := by
    rw [hv, hm, hP]
    omega
  have hstart : k.virt / PGSIZE = v := by rw [hv, Nat.mul_div_cancel _ (by decide)]
  have hhas : ∀ x, v ≤ x → x ≤ v + m → k.Has x := fun x hx hx' => by
    rw [Kmap.Has, hv, hm, hP]
    omega
  rw [hv, hm, hP] at hhi
  rw [hv, hB, hP] at hlo
  rw [hm, hP] at hphys
  have hentry : ∀ j ≤ m, (k.phys_start + j * PGSIZE) % 2 ^ 32 ||| k.perm ||| PTE_P =
    K.kpte (v + j) := fun j hj => by
    rw [K.kpte_of_has hk (hhas _ (by omega) (by omega)), hv, hP, Nat.mod_eq_of_lt (by omega),
      show (v + j) * 4096 - v * 4096 = j * 4096 by omega]
  rw [mappages, hfirst, hlast, hend, hstart]
  refine .mono (mappagesLoop_kernel (by omega) h hd (by omega) (by omega) hentry (by omega))
    (fun _ _ hs => hs) ?_
  rintro e s' ⟨-, x, hx, hx', hne⟩
  exact hne (hfree x (hhas x hx hx'))

/-! ## `setupkvm` -/

/-- The kernel's part of the address space is as `kmap` says. -/
def Kernel.Complete (K : Kernel) (s : Mem) (d : ℕ) : Prop := ∀ v, KERNPAGE ≤ v → v < 2 ^ 20 →
    s.space d v = K.kpte v

/-- The mappings in `ks` are made, after those in `done`. -/
lemma Vm.mapKernel_spec (done : List Kmap) {ks : List Kmap} (hks : K.kmap = done ++ ks)
    (h : Typed K s ρ) (hd : ρ d = .dir)
    (hdone : ∀ x < 2 ^ 20, KERNPAGE ≤ x → (∃ k ∈ done, k.Has x) → s.space d x = K.kpte x)
    (hrest : ∀ x < 2 ^ 20, KERNPAGE ≤ x → (∀ k ∈ done, ¬ k.Has x) → s.space d x = 0) :
    Wp (mapKernel K d ks)
      (fun ok s' => ∃ ρ', Evolves K d (KERNPAGE ≤ ·) s ρ s' ρ' ∧ Preserves s ρ s' ρ' ∧
        Draws d (fun i => ∃ k ∈ K.kmap, ∃ x, k.Has x ∧ x / NPTENTRIES = i) s s' ∧
        (ok = true → K.Complete s' d) ∧ (ok = false → s.fails = [] → s'.freelist = []))
      (fun _ _ => False) s := by
  have hP := PGSIZE_eq
  have hB := KERNBASE_eq
  have hKP := KERNPAGE_eq
  induction ks generalizing done s ρ with
  | nil =>
      refine .of_pure ⟨ρ, .refl h, fun _ _ => ⟨rfl, fun _ => rfl⟩, .refl rfl rfl id,
        fun _ x hlo hhi => ?_, by simp⟩
      rw [List.append_nil] at hks
      by_cases hx : ∃ k ∈ done, k.Has x
      · exact hdone x hhi hlo hx
      · have hx' : ∀ k ∈ done, ¬ k.Has x := by simpa using hx
        rw [hrest x hhi hlo hx', K.kpte_eq_zero (hks ▸ hx')]
  | cons k ks ih =>
      have hk : k ∈ K.kmap := by simp [hks]
      obtain ⟨hvirt, hsize, hpos, hlo, hhi, -, -⟩ := K.kmap_whole hk
      have hbound : ∀ x, k.Has x → KERNPAGE ≤ x ∧ x < 2 ^ 20 := fun x hx => by
        have := hx.1
        have := hx.2
        rw [hB] at hlo
        rw [hP] at *
        omega
      have hother : ∀ k' ∈ done, ∀ x, k.Has x → ¬ k'.Has x := by
        intro k' hk' x hx hx'
        have hnodup := K.kmap_nodup
        rw [hks, List.nodup_append] at hnodup
        exact hnodup.2.2 k' hk' k List.mem_cons_self (K.kmap_unique (by simp [hks, hk']) hk hx' hx)
      have hfree : ∀ x, k.Has x → s.space d x = 0 := fun x hx =>
        hrest x (hbound x hx).2 (hbound x hx).1 fun k' hk' => hother k' hk' x hx
      refine .of_bind (.mono (mappages_kmap hk h hd hfree) ?_ fun _ _ => id)
      rintro ok s' ⟨ρ', m⟩
      have e : Evolves K d (KERNPAGE ≤ ·) s ρ s' ρ' :=
        m.evolves.mono fun x hx => (hbound x ((K.has_iff hk).2 hx)).1
      have dr : Draws d (fun i => ∃ k ∈ K.kmap, ∃ x, k.Has x ∧ x / NPTENTRIES = i) s s' :=
        m.draws.mono fun i ⟨x, hx, hx', hi⟩ => ⟨k, hk, x, (K.has_iff hk).2 ⟨hx, hx'⟩, hi⟩
      cases ok with
      | false => exact .of_pure ⟨ρ', e, m.preserves, dr, by simp, m.fail⟩
      | true =>
          have hkeep : ∀ x < 2 ^ 20, ¬ k.Has x → s'.space d x = s.space d x := fun x hx hnot =>
            m.evolves.keep hd x hx fun hin => hnot ((K.has_iff hk).2 hin)
          have hentry : ∀ x, k.Has x → s'.space d x = K.kpte x := fun x hx =>
            m.entry rfl x ((K.has_iff hk).1 hx).1 ((K.has_iff hk).1 hx).2
          refine .mono (ih (done ++ [k]) (by simp [hks]) m.evolves.typed (m.evolves.dir hd)
            (fun x hx hxlo hin => ?_) fun x hx hxlo hnot => ?_) ?_ fun _ _ => id
          · by_cases hkx : k.Has x
            · exact hentry x hkx
            · rw [hkeep x hx hkx]
              exact hdone x hx hxlo (by simpa [hkx] using hin)
          · have hnot' : (∀ k' ∈ done, ¬ k'.Has x) ∧ ¬ k.Has x := by
              exact ⟨fun k' hk' => hnot k' (by simp [hk']), hnot k (by simp)⟩
            rw [hkeep x hx hnot'.2, hrest x hx hxlo hnot'.1]
          · rintro ok s'' ⟨ρ'', e', pr, dr', hok, hfail⟩
            exact ⟨ρ'', e.trans e', m.preserves.trans pr, dr.trans dr', hok,
              fun hf hs => hfail hf (dr.fails hs)⟩

/-- The state after `setupkvm`, which returns `r`. -/
structure SetUp (K : Kernel) (s : Mem) (ρ : ℕ → Role) (r : Option ℕ) (s' : Mem) (ρ' : ℕ → Role) :
    Prop where
  typed : Typed K s' ρ'
  preserves : Preserves s ρ s' ρ'
  other : ∀ e, ρ e = .dir → ∀ v < 2 ^ 20, s'.space e v = s.space e v
  list : ∃ n ≤ NPDENTRIES + 1, s'.freelist = s.freelist.drop n
  fails : s.fails = [] → s'.fails = []
  dir : ∀ d, r = some d → d ∈ s.freelist ∧ ρ' d = .dir ∧ K.Complete s' d ∧ ∀ v < KERNPAGE,
    s'.space d v = 0
  fail : r = none → s.fails = [] → s'.freelist = []

/-- `setupkvm` returns a directory with the kernel's part only, if there are frames for it. -/
lemma Vm.setupkvm_spec (h : Typed K s ρ) :
    Wp (setupkvm K) (fun r s' => ∃ ρ', SetUp K s ρ r s' ρ') (fun _ _ => False) s := by
  have hKP := KERNPAGE_eq
  rcases kalloc_cases s with ⟨hk, hdenied⟩ | ⟨d, fs, hl, -, hk⟩
  · refine .of_bind (.of_ok hk (.of_pure ⟨ρ, ?_, fun _ _ => ⟨rfl, fun _ => rfl⟩, fun _ _ _ _ => rfl,
      ⟨0, Nat.zero_le _, rfl⟩, fun hf => ?_, by simp, fun _ => freelist_eq_nil hdenied⟩))
    · exact (Evolves.skip (d := 0) (P := fun _ => False) h).typed
    · change s.fails.tail = []
      rw [hf]
      rfl
  · have hfree := h.free d (by simp [hl])
    have h₁ : Typed K { s with freelist := fs, fails := s.fails.tail } _ := h.take hl
    have hd₁ : Function.update ρ d .taken d = .taken := Function.update_self ..
    have hpool := h₁.pool d (by rw [hd₁]; simp)
    have h₂ := h₁.setPage (p := fun _ => 0)
      (show (Function.update ρ d .taken d).Data by rw [hd₁]; trivial)
    have h₃ := h₂.recast (h₂.unref_of_plain (by rw [hd₁]; trivial)) (by rw [hd₁]; simp)
      (h₂.not_mem (by rw [hd₁]; simp)) .dir (fun _ => Mem.word_zero Mem.setPage_page_self) (by simp)
    rw [Function.update_idem] at h₃
    obtain ⟨s₂, hs₂⟩ : ∃ s₂, ({ s with freelist := fs, fails := s.fails.tail } : Mem).setPage d
      (fun _ => 0) = s₂ :=
      ⟨_, rfl⟩
    have hpage₂ : s₂.page d = fun _ => 0 := by rw [← hs₂, Mem.setPage_page_self]
    have hempty : ∀ v, s₂.space d v = 0 := fun v => Typed.space_of_empty (Mem.word_zero hpage₂ _)
    rw [hs₂] at h₃
    refine .of_bind (.of_ok hk (.of_bind (.of_ok (memset_eq hpool) ?_)))
    rw [hs₂, if_neg (by decide)]
    have hdir : Function.update ρ d .dir d = .dir := Function.update_self ..
    refine .of_bind (.mono (mapKernel_spec [] rfl h₃ hdir (by simp) fun x _ _ _ => hempty x)
      ?_ fun _ _ => id)
    rintro ok s' ⟨ρ', e, pr, dr, hok, hfail⟩
    have hne : ∀ f, ρ f ≠ .free → f ≠ d := by
      rintro f hf rfl
      exact hf hfree
    have hfails : s.fails = [] → s₂.fails = [] := fun hf => by
      rw [← hs₂]
      change s.fails.tail = []
      rw [hf]
      rfl
    have hlist₂ : s₂.freelist = fs := by
      rw [← hs₂]
      rfl
    have hset : SetUp K s ρ (if ok then some d else none) s' ρ' := by
      refine ⟨e.typed, fun f hf => ?_, fun g hg v hv => ?_, ?_, fun hf => dr.fails (hfails hf),
        fun d' hd' => ?_,
        fun hr hf => ?_⟩
      · obtain ⟨hrole, hpage⟩ := pr f (by rwa [Function.update_of_ne (hne f hf)])
        rw [Function.update_of_ne (hne f hf)] at hrole hpage
        refine ⟨hrole, fun hdata => (hpage hdata).trans ?_⟩
        rw [← hs₂, Mem.setPage_page_of_ne (hne f hf)]
      · have hgd := hne g (by rw [hg]; simp)
        rw [e.other g (by rwa [Function.update_of_ne hgd]) hgd v hv, ← hs₂,
          h₁.space_setPage (by rw [hd₁]; trivial) (by rwa [Function.update_of_ne hgd]) hv]
        rfl
      · obtain ⟨n, hlist, htables⟩ := dr.list
        have hle := Mem.tables_le (s := s') (d := d)
        refine ⟨n + 1, by omega, ?_⟩
        rw [hlist, hlist₂, hl, List.drop_succ_cons]
      · cases ok with
        | false => exact absurd hd' (by simp)
        | true =>
            obtain rfl : d = d' := by simpa using hd'
            refine ⟨by simp [hl], e.dir hdir, hok rfl, fun v hv => ?_⟩
            rw [e.keep hdir v (by omega) (by omega), hempty]
      · cases ok with
        | false => exact hfail rfl (hfails hf)
        | true => exact absurd hr (by simp)
    cases ok with
    | false => exact .of_pure ⟨ρ', hset⟩
    | true => exact .of_pure ⟨ρ', hset⟩

end

end Xv6
