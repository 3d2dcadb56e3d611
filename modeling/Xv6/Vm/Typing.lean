import Mathlib.Data.Nat.Bitwise
import Xv6.Vm

/-!
# What the frames of memory are used for

Any frame can be a page directory, a page table, or hold the data of a user page.  `Typed K s ρ`
says that memory is used as the function `ρ` from frames to their roles tells: the entries of a
directory refer to its own page tables, those of a page table to the user pages of its directory or
to what `kmap` says, and the free list holds free frames only.  As a frame has one role only,
whatever refers to it agrees about it.

A store into a frame can only matter for what the frame is used for.  The lemmas of this module say
this for each kind of store that the code makes.
-/

namespace Xv6

open Lib

/-! ## Words -/

namespace Mem

variable {s : Mem} {f g i j w : ℕ} {p : Page}

lemma setPage_page_of_ne (h : g ≠ f) : (s.setPage f p).page g = s.page g :=
  Function.update_of_ne h _ _

lemma setPage_page_self : (s.setPage f p).page f = p := Function.update_self ..

lemma setWord_page_of_ne (h : g ≠ f) : (s.setWord f i w).page g = s.page g := setPage_page_of_ne h

lemma word_setWord (hi : i < NPTENTRIES) (hj : j < NPTENTRIES) (hw : w < 2 ^ 32) :
    (s.setWord f i w).word g j = if g = f ∧ j = i then w else s.word g j := by
  have hN := NPTENTRIES_eq
  have hP := PGSIZE_eq
  by_cases hg : g = f
  · subst hg
    rw [word, setWord, setPage_page_self]
    by_cases hji : j = i
    · subst hji
      rw [if_pos ⟨rfl, rfl⟩, Bytes.get32_set32_self (by omega), Nat.mod_eq_of_lt hw]
    · rw [if_neg (by simp [hji]), Bytes.get32_set32_of_disj (by omega), word]
  · rw [word, setWord_page_of_ne hg, if_neg (by simp [hg]), word]

lemma word_of_page {s' : Mem} (h : s'.page f = s.page f) (i : ℕ) : s'.word f i = s.word f i := by
  rw [word, h, word]

lemma word_zero (h : s.page f = fun _ => 0) (i : ℕ) : s.word f i = 0 := by
  rw [word, h, Bytes.get32_zero]

/-- Stores into two frames can be exchanged. -/
lemma setPage_setPage_comm {q : Page} (h : f ≠ g) :
    (s.setPage f p).setPage g q = (s.setPage g q).setPage f p := by
  have hcomm := Function.update_comm h p q s.page
  rw [setPage, setPage, setPage, setPage]
  simp only [hcomm]

end Mem

/-! ## Flags -/

lemma and_PTE_P (w : ℕ) : w &&& PTE_P = w % 2 := Nat.and_one_is_mod w

/-- A present entry with frame `t`, and any flags. -/
def Refers (w t : ℕ) : Prop := PTE_ADDR w = t ∧ w % 2 = 1

lemma Refers.ne_zero {w t : ℕ} (h : Refers w t) : w ≠ 0 := by
  have := h.2
  omega

lemma Refers.unique {w t t' : ℕ} (h : Refers w t) (h' : Refers w t') : t = t' := h.1.symm.trans h'.1

lemma refers_add {t fl : ℕ} (hfl : fl < PGSIZE) (hodd : fl % 2 = 1) :
    Refers (t * PGSIZE + fl) t := by
  rw [Refers, PTE_ADDR, PGSIZE_eq] at *
  omega

lemma or_flags {f perm : ℕ} (h : perm < PGSIZE) : f * PGSIZE ||| perm = f * PGSIZE + perm := by
  have hP : PGSIZE = 2 ^ 12 := rfl
  rw [hP] at h ⊢
  rw [Nat.mul_comm, Nat.two_pow_add_eq_or_of_lt h]

/-! ## Roles -/

/-- What a frame is used for.  `taken` is a frame that `kalloc` has returned and that is in no
table; `dying` is a directory that `freevm` is taking apart. -/
inductive Role
  | kernel
  | free
  | taken
  | dir
  | dying
  | table (d i : ℕ)
  | user (d v : ℕ)
  | stack (p : ℕ)
  | pipe
deriving DecidableEq

/-- Nothing in memory refers to such a frame, and its contents are only data. -/
def Role.Plain : Role → Prop
  | .dir | .dying | .table _ _ | .user _ _ => False
  | _ => True

/-- The contents of such a frame are only data. -/
def Role.Data : Role → Prop
  | .dir | .dying | .table _ _ => False
  | _ => True

/-- The frames that `kfree` accepts. -/
def Kernel.Pool (K : Kernel) (f : ℕ) : Prop := K.fin ≤ KERNBASE + f * PGSIZE ∧ f * PGSIZE < PHYSTOP

/-- Is page `v` one of those of the mapping? -/
def Kmap.Has (k : Kmap) (v : ℕ) : Prop := k.virt ≤ v * PGSIZE ∧ v * PGSIZE - k.virt < k.size

instance (k : Kmap) (v : ℕ) : Decidable (k.Has v) := inferInstanceAs (Decidable (_ ∧ _))

/-- The entry that `kmap` prescribes for the kernel's page `v`, and 0 if there is none. -/
def Kernel.kpte (K : Kernel) (v : ℕ) : ℕ :=
  match K.kmap.find? fun k => decide (k.Has v) with
  | some k => k.phys_start + (v * PGSIZE - k.virt) ||| k.perm ||| PTE_P
  | none => 0

/-- The number of the first page of the kernel. -/
def KERNPAGE : ℕ := KERNBASE / PGSIZE

lemma KERNPAGE_eq : KERNPAGE = 524288 := rfl

/-- The entry is `w₀`, or what it becomes when the processor sets `PTE_A` and `PTE_D` in it. -/
def Marked (w₀ w : ℕ) : Prop := w = w₀ ∨ w₀ % 2 = 1 ∧ ∃ b < 4, w = w₀ ||| 32 * b

/-- An entry for page `v` of directory `d`. -/
def Kernel.Entry (K : Kernel) (ρ : ℕ → Role) (d v w : ℕ) : Prop :=
  w = 0 ∨ v < KERNPAGE ∧ (∃ f, Refers w f ∧ ρ f = .user d v) ∨ KERNPAGE ≤ v ∧ Marked (K.kpte v) w

/-- Memory is used as `ρ` tells. -/
structure Typed (K : Kernel) (s : Mem) (ρ : ℕ → Role) : Prop where
  free : ∀ f ∈ s.freelist, ρ f = .free
  nodup : s.freelist.Nodup
  pool : ∀ f, ρ f ≠ .kernel → K.Pool f
  pde : ∀ d i, ρ d = .dir → i < NPDENTRIES →
    s.word d i = 0 ∨ ∃ t, Refers (s.word d i) t ∧ ρ t = .table d i
  pte : ∀ t d i j, ρ t = .table d i → j < NPTENTRIES → K.Entry ρ d (NPTENTRIES * i + j) (s.word t j)
  link : ∀ t d i, ρ t = .table d i →
    i < NPDENTRIES ∧ (ρ d = .dir ∧ Refers (s.word d i) t ∨ ρ d = .dying)

/-- The entry for page `v` that the processor finds in directory `d`; 0 if there is no page
table. -/
def Mem.space (s : Mem) (d v : ℕ) : ℕ :=
  let pde := s.word d (v / NPTENTRIES)
  if pde &&& PTE_P ≠ 0 then s.word (PTE_ADDR pde) (v % NPTENTRIES) else 0

/-! ## Changes of memory -/

section

variable {K : Kernel} {s s' : Mem} {ρ ρ' : ℕ → Role} {d t f v i j w fl : ℕ} {r : Role} {p : Page}

lemma Kernel.Pool.writable (h : K.Pool f) : Vm.Writable K f := by
  have := K.order
  exact ⟨h.2, by have := h.1; omega⟩

/-- The entries that refer to a frame are 32-bit words. -/
lemma Kernel.Pool.entry_lt (h : K.Pool f) (hfl : fl < PGSIZE) : f * PGSIZE + fl < 2 ^ 32 := by
  have := h.2
  have hP := PGSIZE_eq
  have hT := PHYSTOP_eq
  omega

lemma Role.Plain.data (h : r.Plain) : r.Data := by
  cases r <;> trivial

lemma Kernel.Entry.mono (h : K.Entry ρ d v w) (hr : ∀ f, ρ f = .user d v → ρ' f = .user d v) :
    K.Entry ρ' d v w :=
  h.imp_right fun h => h.imp_left fun ⟨hv, f, hw, hf⟩ => ⟨hv, f, hw, hr f hf⟩

/-- Nothing in memory refers to the frame as what it is. -/
structure Unref (s : Mem) (ρ : ℕ → Role) (f : ℕ) : Prop where
  table : ∀ d i, ρ f = .table d i → ρ d ≠ .dir
  user : ∀ d v, ρ f = .user d v → ∀ t i j, ρ t = .table d i → j < NPTENTRIES →
    NPTENTRIES * i + j = v →
    s.word t j = 0
  dir : ∀ t i, ρ t ≠ .table f i

namespace Typed

lemma not_mem (h : Typed K s ρ) (hf : ρ f ≠ .free) : f ∉ s.freelist := fun hm => hf (h.free f hm)

/-- Only directories and tables are looked at. -/
lemma congr (h : Typed K s ρ) (hpage : ∀ f, ¬ (ρ f).Data → s'.page f = s.page f)
    (hlist : s'.freelist = s.freelist) : Typed K s' ρ := by
  have hword : ∀ f i, ¬ (ρ f).Data → s'.word f i = s.word f i := fun f i hf =>
    Mem.word_of_page (hpage f hf) i
  refine ⟨fun f hf => h.free f (hlist ▸ hf), hlist ▸ h.nodup, h.pool, fun d i hd hi => ?_,
    fun t d i j ht hj => ?_,
    fun t d i ht => ?_⟩
  · rw [hword d i (by rw [hd]; exact id)]
    exact h.pde d i hd hi
  · rw [hword t j (by rw [ht]; exact id)]
    exact h.pte t d i j ht hj
  · refine ⟨(h.link t d i ht).1, (h.link t d i ht).2.imp_left fun ⟨hd, hw⟩ => ⟨hd, ?_⟩⟩
    rwa [hword d i (by rw [hd]; exact id)]

/-- A store into data. -/
lemma setPage (h : Typed K s ρ) (hf : (ρ f).Data) : Typed K (s.setPage f p) ρ :=
  h.congr (fun _ hg => Mem.setPage_page_of_ne fun heq => hg (heq ▸ hf)) rfl

lemma unref_of_plain (h : Typed K s ρ) (hf : (ρ f).Plain) : Unref s ρ f := by
  refine ⟨fun d i heq => ?_, fun d v heq => ?_, fun t i ht => ?_⟩
  · exact absurd hf (heq ▸ id)
  · exact absurd hf (heq ▸ id)
  · rcases (h.link t f i ht).2 with ⟨heq, -⟩ | heq <;> exact absurd hf (heq ▸ id)

/-- A frame that nothing refers to gets another role.  It can become a directory if it is empty. -/
lemma recast (h : Typed K s ρ) (hf : Unref s ρ f) (hk : ρ f ≠ .kernel)
    (hlist : f ∉ s.freelist) (r : Role) (hdir : r = .dir → ∀ i, s.word f i = 0)
    (htable : ∀ d i, r ≠ .table d i) :
    Typed K s (Function.update ρ f r) := by
  have hold : ∀ g d i, ρ g = .table d i → (g = f → ρ d ≠ .dir) :=
    fun g d i hg hgf => hf.table d i (hgf ▸ hg)
  have hparent : ∀ t d i, ρ t = .table d i → d ≠ f := by
    rintro t d i ht rfl
    exact hf.dir t i ht
  have hother : ∀ t d i, Function.update ρ f r t = .table d i → t ≠ f ∧ ρ t = .table d i := by
    intro t d i ht
    by_cases htf : t = f
    · rw [htf, Function.update_self] at ht
      exact absurd ht (htable d i)
    · exact ⟨htf, by rwa [Function.update_of_ne htf] at ht⟩
  refine ⟨fun g hg => ?_, h.nodup, fun g hg => ?_, fun d i hd hi => ?_, fun t d i j ht hj => ?_,
    fun t d i ht => ?_⟩
  · rw [Function.update_of_ne (ne_of_mem_of_not_mem hg hlist)]
    exact h.free g hg
  · by_cases hgf : g = f
    · exact hgf ▸ h.pool f hk
    · rw [Function.update_of_ne hgf] at hg
      exact h.pool g hg
  · by_cases hdf : d = f
    · subst hdf
      rw [Function.update_self] at hd
      exact .inl (hdir hd i)
    · rw [Function.update_of_ne hdf] at hd
      refine (h.pde d i hd hi).imp_right fun ⟨t, hw, ht⟩ => ⟨t, hw, ?_⟩
      rwa [Function.update_of_ne fun htf => hold t d i ht htf hd]
  · obtain ⟨-, ht⟩ := hother t d i ht
    rcases h.pte t d i j ht hj with hz | ⟨hv, g, hw, hg⟩ | hkern
    · exact .inl hz
    · by_cases hgf : g = f
      · exact .inl (hf.user d _ (hgf ▸ hg) t i j ht hj rfl)
      · exact .inr (.inl ⟨hv, g, hw, by rwa [Function.update_of_ne hgf]⟩)
    · exact .inr (.inr hkern)
  · obtain ⟨-, ht⟩ := hother t d i ht
    rw [Function.update_of_ne (hparent t d i ht)]
    exact h.link t d i ht

/-- `kalloc`. -/
lemma take {fs : List ℕ} {fails : List Bool} (h : Typed K s ρ) (hl : s.freelist = f :: fs) :
    Typed K { s with freelist := fs, fails := fails } (Function.update ρ f .taken) := by
  have hnodup := h.nodup
  rw [hl, List.nodup_cons] at hnodup
  have hf : ρ f = .free := h.free f (by simp [hl])
  have h' : Typed K { s with freelist := fs, fails := fails } ρ :=
    ⟨fun g hg => h.free g (by simp [hl, show g ∈ fs from hg]), hnodup.2, h.pool,
      h.pde, h.pte, h.link⟩
  exact h'.recast (h'.unref_of_plain (by rw [hf]; trivial)) (by rw [hf]; simp) hnodup.1 _
    (by simp) (by simp)

/-- `kfree`. -/
lemma give (h : Typed K s ρ) (hf : (ρ f).Plain) (hk : ρ f ≠ .kernel) (hfree : ρ f ≠ .free) :
    Typed K { s.setPage f p with freelist := f :: s.freelist } (Function.update ρ f .free) := by
  have hlist := h.not_mem hfree
  have h₁ := h.setPage (p := p) hf.data
  have h' := h₁.recast (h₁.unref_of_plain hf) hk hlist .free (by simp) (by simp)
  refine ⟨fun g hg => ?_, List.nodup_cons.2 ⟨hlist, h.nodup⟩, h'.pool, h'.pde, h'.pte, h'.link⟩
  rcases List.mem_cons.1 hg with rfl | hg
  · exact Function.update_self ..
  · exact h'.free g hg

/-- A new table is put into a directory. -/
lemma putTable (h : Typed K s ρ) (hd : ρ d = .dir) (hi : i < NPDENTRIES) (hempty : s.word d i = 0)
    (ht : ρ t = .taken) (hzero : ∀ j, s.word t j = 0) :
    Typed K (s.setWord d i (t * PGSIZE + 7)) (Function.update ρ t (.table d i)) := by
  have hne : ∀ g q, q ≠ .taken → ρ g = q → g ≠ t := by
    rintro g q hq hg rfl
    exact hq (hg.symm.trans ht)
  have hold : ∀ g q, q ≠ .taken → ρ g = q → Function.update ρ t (.table d i) g = q :=
    fun g q hq hg => by
    rwa [Function.update_of_ne (hne g q hq hg)]
  have htable : ∀ g e k, Function.update ρ t (.table d i) g = .table e k → g = t ∧ e = d ∧ k = i ∨
    ρ g = .table e k := by
    intro g e k hg
    by_cases hgt : g = t
    · rw [hgt, Function.update_self] at hg
      obtain ⟨rfl, rfl⟩ := Role.table.inj hg
      exact .inl ⟨hgt, rfl, rfl⟩
    · rw [Function.update_of_ne hgt] at hg
      exact .inr hg
  have hlt : t * PGSIZE + 7 < 2 ^ 32 := (h.pool t (by rw [ht]; simp)).entry_lt (by decide)
  have hdt : t ≠ d := (hne d _ (by simp) hd).symm
  refine ⟨fun g hg => hold g _ (by simp) (h.free g hg), h.nodup, fun g hg => ?_,
    fun e k he hk => ?_,
    fun g e k j hg hj => ?_, fun g e k hg => ?_⟩
  · by_cases hgt : g = t
    · exact hgt ▸ h.pool t (by rw [ht]; simp)
    · rw [Function.update_of_ne hgt] at hg
      exact h.pool g hg
  · have het : ρ e = .dir := by
      by_cases heq : e = t
      · rw [heq, Function.update_self] at he
        exact absurd he (by simp)
      · rwa [Function.update_of_ne heq] at he
    rw [Mem.word_setWord hi hk hlt]
    split
    · rename_i heq
      exact .inr ⟨t, refers_add (by decide) rfl, by rw [Function.update_self, heq.1, heq.2]⟩
    · exact (h.pde e k het hk).imp_right fun ⟨g, hw, hg⟩ => ⟨g, hw, hold g _ (by simp) hg⟩
  · rw [Mem.word_setWord hi hj hlt, if_neg]
    · rcases htable g e k hg with ⟨rfl, -, -⟩ | hg
      · exact .inl (hzero j)
      · exact (h.pte g e k j hg hj).mono fun f hf => hold f _ (by simp) hf
    · rintro ⟨rfl, -⟩
      rw [hold g _ (by simp) hd] at hg
      exact absurd hg (by simp)
  · rcases htable g e k hg with ⟨rfl, rfl, rfl⟩ | hg
    · refine ⟨hi, .inl ⟨hold e _ (by simp) hd, ?_⟩⟩
      rw [Mem.word_setWord hi hi hlt, if_pos ⟨rfl, rfl⟩]
      exact refers_add (by decide) rfl
    · obtain ⟨hk, hlink⟩ := h.link g e k hg
      refine ⟨hk, hlink.imp (fun ⟨he, hw⟩ => ⟨hold e _ (by simp) he, ?_⟩) fun he => hold e
        _ (by simp) he⟩
      rwa [Mem.word_setWord hi hk hlt, if_neg]
      rintro ⟨rfl, rfl⟩
      exact hw.ne_zero hempty

/-- A new entry in a table. -/
lemma putPte (h : Typed K s ρ) (ht : ρ t = .table d i) (hj : j < NPTENTRIES) (hw : w < 2 ^ 32)
    (he : K.Entry ρ d (NPTENTRIES * i + j) w) : Typed K (s.setWord t j w) ρ := by
  have hdir : ∀ e, ρ e = .dir → ∀ k, (s.setWord t j w).word e k = s.word e k := fun e he k => by
    refine Mem.word_of_page (Mem.setWord_page_of_ne ?_) k
    rintro rfl
    rw [ht] at he
    exact absurd he (by simp)
  refine ⟨h.free, h.nodup, h.pool, fun e k he hk => ?_, fun g e k m hg hm => ?_, fun g e k hg => ?_⟩
  · rw [hdir e he]
    exact h.pde e k he hk
  · rw [Mem.word_setWord hj hm hw]
    split
    · rename_i heq
      rw [heq.1, ht] at hg
      obtain ⟨rfl, rfl⟩ := Role.table.inj hg
      exact heq.2 ▸ he
    · exact h.pte g e k m hg hm
  · obtain ⟨hk, hlink⟩ := h.link g e k hg
    exact ⟨hk, hlink.imp_left fun ⟨he, hw⟩ => ⟨he, by rwa [hdir e he]⟩⟩

/-- An entry is removed. -/
lemma unmap (h : Typed K s ρ) (hd : ρ d = .dir) (ht : ρ t = .table d i) (hj : j < NPTENTRIES)
    (hf : ρ f = .user d (NPTENTRIES * i + j)) :
    Typed K (s.setWord t j 0) (Function.update ρ f .taken) := by
  have hN := NPTENTRIES_eq
  have h' := h.putPte ht hj (Nat.two_pow_pos 32) (.inl rfl)
  refine h'.recast ⟨fun e k he => ?_, fun e v he g k m hg hm hv => ?_, fun g k hg => ?_⟩
    (by rw [hf]; simp) (h'.not_mem (by rw [hf]; simp)) _ (by simp) (by simp)
  · exact absurd (hf.symm.trans he) (by simp)
  · obtain ⟨rfl, hv'⟩ := Role.user.inj (hf.symm.trans he)
    obtain ⟨rfl, rfl⟩ : k = i ∧ m = j := by
      rw [hN] at hv hv' hm hj
      omega
    -- there is only one table for the entry
    obtain rfl : g = t := by
      obtain ⟨-, hw₁⟩ := (h.link g d k hg).2.resolve_right (by rw [hd]; simp)
      obtain ⟨-, hw₂⟩ := (h.link t d k ht).2.resolve_right (by rw [hd]; simp)
      exact hw₁.unique hw₂
    rw [Mem.word_setWord hm hm (Nat.two_pow_pos 32), if_pos ⟨rfl, rfl⟩]
  · rcases (h.link g f k hg).2 with ⟨heq, -⟩ | heq <;> exact absurd (hf.symm.trans heq) (by simp)

/-- `freevm` begins with a directory. -/
lemma die (h : Typed K s ρ) (hd : ρ d = .dir) : Typed K s (Function.update ρ d .dying) := by
  have hold : ∀ g q, q ≠ .dir → ρ g = q → Function.update ρ d .dying g = q := by
    rintro g q hq hg
    rwa [Function.update_of_ne]
    rintro rfl
    exact hq (hg.symm.trans hd)
  have hback : ∀ g q, q ≠ .dying → Function.update ρ d .dying g = q → g ≠ d ∧ ρ g = q := by
    intro g q hq hg
    by_cases hgd : g = d
    · rw [hgd, Function.update_self] at hg
      exact absurd hg.symm hq
    · exact ⟨hgd, by rwa [Function.update_of_ne hgd] at hg⟩
  refine ⟨fun g hg => hold g _ (by simp) (h.free g hg), h.nodup, fun g hg => ?_,
    fun e k he hk => ?_,
    fun t e k j ht hj => ?_, fun t e k ht => ?_⟩
  · by_cases hgd : g = d
    · exact hgd ▸ h.pool d (by rw [hd]; simp)
    · rw [Function.update_of_ne hgd] at hg
      exact h.pool g hg
  · obtain ⟨-, he⟩ := hback e _ (by simp) he
    exact (h.pde e k he hk).imp_right fun ⟨t, hw, ht⟩ => ⟨t, hw, hold t _ (by simp) ht⟩
  · obtain ⟨-, ht⟩ := hback t _ (by simp) ht
    exact (h.pte t e k j ht hj).mono fun f hf => hold f _ (by simp) hf
  · obtain ⟨-, ht⟩ := hback t _ (by simp) ht
    obtain ⟨hk, hlink⟩ := h.link t e k ht
    refine ⟨hk, ?_⟩
    by_cases hed : e = d
    · exact .inr (by rw [hed, Function.update_self])
    · rwa [Function.update_of_ne hed]

/-! ## Address spaces -/

lemma space_of_table (hw : Refers (s.word d (v / NPTENTRIES)) t) :
    s.space d v = s.word t (v % NPTENTRIES) := by
  rw [Mem.space, and_PTE_P, if_pos (by rw [hw.2]; decide), hw.1]

lemma space_of_empty (hw : s.word d (v / NPTENTRIES) = 0) : s.space d v = 0 := by
  rw [Mem.space, hw]
  rfl

lemma div_lt (hv : v < 2 ^ 20) : v / NPTENTRIES < NPDENTRIES := by
  have hN := NPTENTRIES_eq
  have hD := NPDENTRIES_eq
  rw [hN]
  omega

/-- An address space depends on the directory and its tables only. -/
lemma space_congr (h : Typed K s ρ) (hd : ρ d = .dir) (hv : v < 2 ^ 20)
    (hpage : s'.page d = s.page d) (htable : ∀ t i, ρ t = .table d i → s'.page t = s.page t) :
    s'.space d v = s.space d v := by
  have hword := Mem.word_of_page hpage (v / NPTENTRIES)
  rcases h.pde d _ hd (div_lt hv) with hw | ⟨t, hw, ht⟩
  · rw [space_of_empty hw, space_of_empty (hword.trans hw)]
  · rw [space_of_table hw, space_of_table (by rwa [hword]), Mem.word_of_page (htable t _ ht)]

lemma space_setPage {e : ℕ} (h : Typed K s ρ) (hf : (ρ f).Data) (he : ρ e = .dir)
    (hv : v < 2 ^ 20) :
    (s.setPage f p).space e v = s.space e v := by
  refine h.space_congr he hv (Mem.setPage_page_of_ne ?_) fun t i ht => Mem.setPage_page_of_ne ?_
  · rintro rfl
    exact absurd hf (he ▸ id)
  · rintro rfl
    exact absurd hf (ht ▸ id)

/-- An empty table shows as little as none. -/
lemma space_putTable {e : ℕ} (h : Typed K s ρ) (hd : ρ d = .dir) (hi : i < NPDENTRIES)
    (hempty : s.word d i = 0) (ht : ρ t = .taken) (hzero : ∀ j, s.word t j = 0) (he : ρ e = .dir)
    (hv : v < 2 ^ 20) :
    (s.setWord d i (t * PGSIZE + 7)).space e v = s.space e v := by
  have hlt : t * PGSIZE + 7 < 2 ^ 32 := (h.pool t (by rw [ht]; simp)).entry_lt (by decide)
  have htd : t ≠ d := by
    rintro rfl
    exact absurd (ht.symm.trans hd) (by simp)
  by_cases hed : e = d
  · subst hed
    have hword := Mem.word_setWord (s := s) (f := e) (g := e) hi (div_lt hv) hlt
    by_cases hvi : v / NPTENTRIES = i
    · rw [if_pos ⟨rfl, hvi⟩] at hword
      have href : Refers (t * PGSIZE + 7) t := refers_add (by decide) rfl
      rw [space_of_table (by rwa [hword]), space_of_empty (by rw [hvi, hempty]),
        Mem.word_of_page (Mem.setWord_page_of_ne htd), hzero]
    · rw [if_neg (by simp [hvi])] at hword
      rcases h.pde e _ hd (div_lt hv) with hw | ⟨g, hw, hg⟩
      · rw [space_of_empty hw, space_of_empty (hword.trans hw)]
      · have hge : g ≠ e := by
          rintro rfl
          exact absurd (hg.symm.trans hd) (by simp)
        rw [space_of_table hw, space_of_table (by rwa [hword]),
          Mem.word_of_page (Mem.setWord_page_of_ne hge)]
  · refine h.space_congr he hv (Mem.setWord_page_of_ne hed) fun g k hg => Mem.setWord_page_of_ne ?_
    rintro rfl
    exact absurd (hg.symm.trans hd) (by simp)

/-- A store into a table changes one entry of one address space. -/
lemma space_putPte {e : ℕ} (h : Typed K s ρ) (hd : ρ d = .dir) (ht : ρ t = .table d i)
    (hj : j < NPTENTRIES) (hw : w < 2 ^ 32) (he : ρ e = .dir) (hv : v < 2 ^ 20) :
    (s.setWord t j w).space e v = if e = d ∧ v = NPTENTRIES * i + j then w else s.space e v := by
  have hN := NPTENTRIES_eq
  obtain ⟨-, hlink⟩ := (h.link t d i ht).2.resolve_right (by rw [hd]; simp)
  have hdir : ∀ k, (s.setWord t j w).word e k = s.word e k := fun k => by
    refine Mem.word_of_page (Mem.setWord_page_of_ne ?_) k
    rintro rfl
    exact absurd (ht.symm.trans he) (by simp)
  rcases h.pde e _ he (div_lt hv) with hword | ⟨g, hword, hg⟩
  · rw [space_of_empty hword, space_of_empty ((hdir _).trans hword), if_neg]
    rintro ⟨rfl, rfl⟩
    rw [show (NPTENTRIES * i + j) / NPTENTRIES = i by rw [hN] at hj ⊢; omega] at hword
    exact hlink.ne_zero hword
  · rw [space_of_table hword, space_of_table (by rwa [hdir]),
      Mem.word_setWord hj (Nat.mod_lt _ (by decide)) hw]
    -- the table of the page is `t` iff the directory and the index are those of `t`
    by_cases hgt : g = t
    · subst hgt
      obtain ⟨rfl, hi⟩ := Role.table.inj (ht.symm.trans hg)
      have hiff : v % NPTENTRIES = j ↔ v = NPTENTRIES * i + j := by
        rw [hN] at hi hj ⊢
        omega
      simp only [true_and, hiff]
    · rw [if_neg (by simp [hgt]), if_neg]
      rintro ⟨rfl, rfl⟩
      rw [show (NPTENTRIES * i + j) / NPTENTRIES = i by rw [hN] at hj ⊢; omega] at hword
      exact hgt (hword.unique hlink)

/-- What an address space can have. -/
lemma entry (h : Typed K s ρ) (hd : ρ d = .dir) (hv : v < 2 ^ 20) :
    K.Entry ρ d v (s.space d v) := by
  have hN := NPTENTRIES_eq
  rcases h.pde d _ hd (div_lt hv) with hw | ⟨t, hw, ht⟩
  · exact .inl (space_of_empty hw)
  · have he := h.pte t d _ (v % NPTENTRIES) ht (Nat.mod_lt _ (by decide))
    rwa [Nat.div_add_mod, ← space_of_table hw] at he

end Typed

end

end Xv6
