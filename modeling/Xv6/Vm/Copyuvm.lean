import Xv6.Vm.Freevm
import Xv6.Vm.Growproc

/-!
# `copyuvm` and the memory of two processes

`fork` gives the child a copy of its parent's memory.  The loop of `copyuvm` reads one directory and
fills another one through `mappages`, which takes frames for tables in between.  What it has done
after some pages is said by `Copies`; the frames of the copies come from the free list, so that none
of them can be a page of the parent.

Two directories have no user page in common, whatever they have been made by: what a process writes
through its own directory is then not seen through the other one.
-/

namespace Xv6

open Lib

section

variable {K : Kernel} {s s' : Mem} {ρ ρ' : ℕ → Role} {p d v u : ℕ}

/-! ## One page -/

/-- A page that has an entry is not mapped again. -/
lemma Vm.mappages_present {pa perm : ℕ} (h : Typed K s ρ) (hd : ρ d = .dir) (hv : v < 2 ^ 20)
    (hne : s.space d v ≠ 0) :
    Wp (mappages K d (v * PGSIZE) PGSIZE pa perm) (fun ok _ => ok = false) (fun _ _ => True) s := by
  rw [mappages_page hv]
  refine .mono (mappage_spec h hd hv _) ?_ fun _ _ _ => trivial
  rintro ok s' ⟨s₁, ρ₁, -, -, -, -, ⟨hok, -⟩ | ⟨-, hz, -⟩⟩
  · exact hok
  · exact absurd hz hne

/-- `memmove` of a whole page. -/
lemma Vm.memmove_page {f : ℕ} {q : Page} (h : K.Pool f) : memmove K f 0 (q.slice 0 PGSIZE) s =
    .ok () (s.setPage f q) := by
  have hlen : (q.slice 0 PGSIZE).length = PGSIZE := Bytes.length_slice
  have hne : q.slice 0 PGSIZE ≠ [] := List.ne_nil_of_length_pos (by rw [hlen]; decide)
  have hblit : ((s.page f).blit 0 (q.slice 0 PGSIZE).length fun j => (q.slice 0 PGSIZE).getD j 0) =
    q := by
    funext j
    rw [Bytes.blit, hlen, if_pos ⟨Nat.zero_le _, by omega⟩, Nat.sub_zero]
    simp [Bytes.slice, List.getD_eq_getElem?_getD, j.isLt, Bytes.byteAt]
  rw [memmove, if_neg hne, if_pos h.writable, hblit]

/-- What is read of a frame is what `memmove` then writes to another one. -/
lemma Vm.loadPage_spec {f : ℕ} : Wp (loadPage f)
    (fun bs s' => s' = s ∧ ∀ g, K.Pool g → memmove K g 0 bs s = .ok () (s.setPage g (s.page f)))
    (fun _ _ => ¬ f * PGSIZE < PHYSTOP) s := by
  by_cases hf : f * PGSIZE < PHYSTOP
  · exact .of_ok (if_pos hf) ⟨rfl, fun g hg => memmove_page hg⟩
  · exact .of_error (if_neg hf) hf

/-! ## The loop -/

/-- The pages of directory `p` from `v` to `u` have been copied to directory `d`. -/
structure Copies (K : Kernel) (p d v u : ℕ) (s : Mem) (ρ : ℕ → Role) (s' : Mem) (ρ' : ℕ → Role) :
    Prop where
  evolves : Evolves K d (fun x => v ≤ x ∧ x < u) s ρ s' ρ'
  preserves : Preserves s ρ s' ρ'
  entry : ∀ x, v ≤ x → x < u → ∃ f, s'.space d x = f * PGSIZE + PTE_FLAGS (s.space p x) ∧
    ρ' f = .user d x ∧
    s'.page f = s.page (PTE_ADDR (s.space p x))

namespace Copies

variable {s'' : Mem} {ρ'' : ℕ → Role}

lemma refl (h : Typed K s ρ) : Copies K p d v v s ρ s ρ :=
  ⟨.refl h, fun _ _ => ⟨rfl, fun _ => rfl⟩, fun x hx hx' => by omega⟩

/-- The next page is copied, and then the others. -/
lemma step (hp : ρ p = .dir) (hd : ρ d = .dir) (hpd : p ≠ d) (hvu : v < u) (hu : u ≤ KERNPAGE)
    (hmapped : ∀ x, v ≤ x → x < u → ρ (PTE_ADDR (s.space p x)) = .user p x)
    (h : Copies K p d v (v + 1) s ρ s' ρ') (h' : Copies K p d (v + 1) u s' ρ' s'' ρ'') :
    Copies K p d v u s ρ s'' ρ'' := by
  have hKP := KERNPAGE_eq
  have e : Evolves K d (fun x => v ≤ x ∧ x < u) s ρ s' ρ' := h.evolves.mono fun x hx =>
    ⟨hx.1, by omega⟩
  refine ⟨e.trans (h'.evolves.mono fun x hx => ⟨by omega, hx.2⟩), h.preserves.trans h'.preserves,
    fun x hx hxu => ?_⟩
  by_cases hxv : x = v
  · subst hxv
    obtain ⟨f, hentry, hrole, hpage⟩ := h.entry x le_rfl (Nat.lt_succ_self x)
    obtain ⟨hrole', hpage'⟩ := h'.preserves f (by rw [hrole]; simp)
    refine ⟨f, ?_, hrole'.trans hrole, (hpage' (by rw [hrole]; trivial)).trans hpage⟩
    rw [h'.evolves.keep (h.evolves.dir hd) x (by omega) (by omega), hentry]
  · -- the parent's page is what it was
    obtain ⟨f, hentry, hrole, hpage⟩ := h'.entry x (by omega) hxu
    rw [h.evolves.other p hp hpd x (by omega)] at hentry hpage
    have hmap := hmapped x hx hxu
    exact ⟨f, hentry, hrole, hpage.trans ((h.preserves _ (by rw [hmap]; simp)).2
      (by rw [hmap]; trivial))⟩

end Copies

lemma or_PTE_P {fl : ℕ} (h : fl % 2 = 1) : fl ||| PTE_P = fl := by
  refine Nat.eq_of_testBit_eq fun i => ?_
  rw [Nat.testBit_or, PTE_P]
  cases i with
  | zero => simp [h]
  | succ i => simp [Nat.testBit_add_one]

/-- One page has been copied. -/
lemma Maps.copies {mem : ℕ} {fs : List ℕ} {fails : List Bool} (h : Typed K s ρ)
    (hodd : s.space p v % 2 = 1) (hl : s.freelist = mem :: fs)
    (m : Maps K d v mem (mem * PGSIZE + (PTE_FLAGS (s.space p v) ||| PTE_P))
      (({ s with freelist := fs, fails := fails } : Mem).setPage mem
        (s.page (PTE_ADDR (s.space p v)))) (Function.update ρ mem .taken) true s' ρ') :
          Copies K p d v (v + 1) s ρ s' ρ' := by
  have hP := PGSIZE_eq
  obtain ⟨e, pr⟩ := m.taken h hl
  refine ⟨e.mono fun x hx => ⟨hx.2.ge, by omega⟩, pr, fun x hx hx' => ⟨mem, ?_, ?_, ?_⟩⟩
  all_goals obtain rfl : x = v := by omega
  · rw [(m.entry rfl).2, or_PTE_P]
    rw [PTE_FLAGS, hP]
    omega
  · exact m.role
  · rw [m.page, Mem.setPage_page_self]

/-- The loop of `copyuvm` does not get past the first page of the kernel, which is mapped
already. -/
lemma Vm.copyuvmLoop_kernel {n sz : ℕ} (h : Typed K s ρ) (hp : ρ p = .dir) (hd : ρ d = .dir)
    (hk : s.space d KERNPAGE ≠ 0) (hsz : KERNPAGE < pages sz) :
    Wp (copyuvmLoop K (n + 1) d p sz (KERNPAGE * PGSIZE)) (fun ok _ => ok = false)
    (fun _ _ => True) s := by
  have hlt : KERNPAGE < 2 ^ 20 := by
    have hKP := KERNPAGE_eq
    omega
  rw [copyuvmLoop, if_pos ((lt_pages _).2 hsz)]
  rcases walkpgdir_find h hp (KERNPAGE * PGSIZE) with ⟨t, hw, ht, hfind⟩ | ⟨-, hfind⟩
  · refine .of_bind (.of_ok (hfind false)
      (.of_bind (.of_ok (load_eq (h.pool t (by rw [ht]; simp))) ?_)))
    split
    · trivial
    rcases kalloc_cases s with ⟨hkalloc, -⟩ | ⟨mem, fs, hl, -, hkalloc⟩
    · exact .of_bind (.of_ok hkalloc (.of_pure rfl))
    refine .of_bind (.of_ok hkalloc (.of_bind ?_))
    have e : Evolves K d (fun _ => False) s ρ { s with freelist := fs, fails := s.fails.tail } _ :=
      .take h hl
    have hm : Function.update ρ mem .taken mem = .taken := Function.update_self ..
    refine .mono (loadPage_spec (K := K)) ?_ fun _ _ _ => trivial
    rintro bs s' ⟨rfl, hmove⟩
    refine .of_bind (.of_ok (hmove mem (e.typed.pool mem (by rw [hm]; simp))) (.of_bind ?_))
    have e₂ :=
      e.trans (Evolves.setPage (p := s.page (PTE_ADDR (s.word t (PTX (KERNPAGE * PGSIZE))))) e.typed
      (by rw [hm]; trivial) (by rw [hm]; exact id))
    refine .mono (mappages_present e₂.typed (e₂.dir hd) hlt ?_) ?_ fun _ _ _ => trivial
    · rwa [e₂.keep hd KERNPAGE hlt id]
    · rintro ok s' rfl
      rw [if_neg (by decide)]
      exact .of_pure rfl
  · exact .of_bind (.of_ok hfind trivial)

/-- The loop of `copyuvm`: it copies the pages from `v` on, if there are frames for it. -/
lemma Vm.copyuvmLoop_spec {n sz : ℕ} (h : Typed K s ρ) (hp : ρ p = .dir)
    (hd : ρ d = .dir) (hpd : p ≠ d) (hk : s.space d KERNPAGE ≠ 0) (hvu : v ≤ pages sz)
    (hv : v ≤ KERNPAGE) (hn : KERNPAGE < v + n)
    (hmapped : ∀ x, v ≤ x → x < pages sz → x < KERNPAGE → s.space p x ≠ 0)
    (hempty : ∀ x, v ≤ x → x < KERNPAGE → s.space d x = 0) :
    Wp (copyuvmLoop K n d p sz (v * PGSIZE))
      (fun ok s' => (ok = true → pages sz ≤ KERNPAGE ∧ ∃ ρ', Copies K p d v (pages sz) s ρ s' ρ') ∧
        (ok = false → pages sz ≤ KERNPAGE → (∃ ρ', Typed K s' ρ' ∧ ρ' d = .dir) ∧
          (s.fails = [] → s.room d ≤ pages sz - v + NPDENTRIES)))
      (fun _ _ => KERNPAGE < pages sz) s := by
  have hP := PGSIZE_eq
  have hKP := KERNPAGE_eq
  induction n generalizing v s ρ with
  | zero => omega
  | succ n ih =>
      by_cases hlt : v < pages sz
      · by_cases hkern : v = KERNPAGE
        · subst hkern
          refine .mono (copyuvmLoop_kernel h hp hd hk hlt) ?_ fun _ _ _ => hlt
          rintro ok s' rfl
          exact ⟨by simp, fun _ hle => absurd hlt (by omega)⟩
        have hne := hmapped v le_rfl hlt (by omega)
        have hrole := h.role_of_space hp (by omega) hne
        have hsrc := h.pool (PTE_ADDR (s.space p v)) (by rw [hrole]; simp)
        rw [copyuvmLoop, if_pos ((lt_pages _).2 hlt)]
        rcases walkpgdir_find h hp (v * PGSIZE) with ⟨t, hw, ht, hfind⟩ | ⟨hw, -⟩
        · rw [PDX_page (by omega)] at hw ht
          have hspace : s.word t (v % NPTENTRIES) = s.space p v := (Typed.space_of_table hw).symm
          refine .of_bind (.of_ok (hfind false)
            (.of_bind (.of_ok (load_eq (h.pool t (by rw [ht]; simp))) ?_)))
          rw [PTX_page, hspace]
          have hodd : s.space p v % 2 = 1 := by
            by_contra heven
            exact hne ((h.entry hp (by omega)).eq_zero (by omega))
          rw [if_neg (by rw [and_PTE_P, hodd]; decide)]
          rcases kalloc_cases s with ⟨hkalloc, hdenied⟩ | ⟨mem, fs, hl, -, hkalloc⟩
          · have e : Evolves K d (fun _ => False) s ρ { s with fails := s.fails.tail } ρ := .skip h
            refine .of_bind
              (.of_ok hkalloc (.of_pure ⟨by simp, fun _ _ => ⟨⟨ρ, e.typed, hd⟩, fun hfails => ?_⟩⟩))
            have := Mem.room_le (d := d) (freelist_eq_nil hdenied hfails)
            omega
          refine .of_bind (.of_ok hkalloc (.of_bind ?_))
          have e : Evolves K d (fun _ => False) s ρ { s with freelist := fs, fails := s.fails.tail }
            _ := .take h hl
          have hm : Function.update ρ mem .taken mem = .taken := Function.update_self ..
          refine .mono (loadPage_spec (K := K)) ?_ fun _ _ hout => absurd hsrc.2 hout
          rintro bs s' ⟨rfl, hmove⟩
          refine .of_bind (.of_ok (hmove mem (e.typed.pool mem (by rw [hm]; simp))) (.of_bind ?_))
          have e₂ := e.trans (Evolves.setPage (p := s.page (PTE_ADDR (s.space p v))) e.typed
            (by rw [hm]; trivial) (by rw [hm]; exact id))
          refine .mono (mappages_user e₂.typed (e₂.dir hd) hm (by omega) (Nat.mod_lt _ (by decide)))
            ?_ ?_
          · rintro ok s' ⟨ρ', m⟩
            have hroom := m.room h hd hl
            cases ok with
            | false =>
                rw [if_neg (by decide)]
                have e' := (m.taken h hl).1
                refine .of_pure ⟨by simp, fun _ _ => ⟨⟨ρ', e'.typed, e'.dir hd⟩, fun hfails => ?_⟩⟩
                have := Mem.room_le (d := d)
                  (m.fail rfl (by change s.fails.tail = []; rw [hfails]; rfl))
                omega
            | true =>
                have c := m.copies h hodd hl
                rw [if_pos rfl, show (v * PGSIZE + PGSIZE) % 2 ^ 32 = (v + 1) *
                  PGSIZE by rw [hP]; omega]
                have hkeep : ∀ x < 2 ^ 20, x ≠ v → s'.space d x = s.space d x := fun x hx hxv =>
                  c.evolves.keep hd x hx (by omega)
                have hsame : ∀ x < 2 ^ 20, s'.space p x = s.space p x := c.evolves.other p hp hpd
                refine .mono (ih c.evolves.typed (c.evolves.dir hp) (c.evolves.dir hd) ?_ (by omega)
                  (by omega) (by omega) (fun x hx hxu hxk => ?_) fun x hx hxk => ?_)
                  ?_ fun _ _ => id
                · rwa [hkeep KERNPAGE (by omega) (by omega)]
                · rw [hsame x (by omega)]
                  exact hmapped x (by omega) hxu hxk
                · rw [hkeep x (by omega) (by omega)]
                  exact hempty x (by omega) hxk
                · rintro ok s'' ⟨hok, hfail⟩
                  refine ⟨fun h' => ?_, fun h' hle => ⟨(hfail h' hle).1, fun hfails => ?_⟩⟩
                  · obtain ⟨hle, ρ'', c'⟩ := hok h'
                    refine ⟨hle, ρ'', .step hp hd hpd hlt hle (fun x hx hxu => ?_) c c'⟩
                    exact h.role_of_space hp (by omega) (hmapped x hx hxu (by omega))
                  · have :=
                      (hfail h' hle).2
                      (m.draws.fails (by change s.fails.tail = []; rw [hfails]; rfl))
                    omega
          · rintro - s' ⟨-, hne'⟩
            rw [e₂.keep hd v (by omega) id, hempty v le_rfl (by omega)] at hne'
            exact absurd rfl hne'
        · rw [PDX_page (by omega)] at hw
          exact absurd (Typed.space_of_empty hw) hne
      · obtain rfl : v = pages sz := by omega
        rw [copyuvmLoop, if_neg (by rw [lt_pages]; omega)]
        exact .of_pure ⟨fun _ => ⟨hv, ρ, .refl h⟩, by simp⟩

/-! ## Loads and stores of two processes -/

/-- What a load at a user address through directory `d` gives; `none` stands for a page fault. -/
def Mem.read (s : Mem) (d a : ℕ) : Option UInt8 :=
  if s.space d (a / PGSIZE) &&& PTE_P = 0 then none
  else some ((s.page (PTE_ADDR (s.space d (a / PGSIZE)))).byteAt (a % PGSIZE))

/-- A store of a byte to a user address.  The flags that forbid it are not looked at: the kernel
stores for a process what the process itself may not. -/
structure Store where
  dir : ℕ
  addr : ℕ
  byte : UInt8

/-- Memory after a store. -/
def Mem.write (s : Mem) (w : Store) : Mem :=
  if s.space w.dir (w.addr / PGSIZE) &&& PTE_P = 0 then s
  else s.setPage (PTE_ADDR (s.space w.dir (w.addr / PGSIZE)))
    ((s.page (PTE_ADDR (s.space w.dir (w.addr / PGSIZE)))).setByte (w.addr % PGSIZE) w.byte)

/-- Memory after some stores. -/
def Mem.writes (s : Mem) (ws : List Store) : Mem := ws.foldl Mem.write s

/-- Both memories look the same through directory `d`. -/
def Mem.Alike (s s' : Mem) (d : ℕ) : Prop := ∀ v < KERNPAGE, s.Keeps s' d v

lemma page_lt {a : ℕ} (h : a < KERNBASE) : a / PGSIZE < KERNPAGE :=
  Nat.div_lt_of_lt_mul (by rwa [show PGSIZE * KERNPAGE = KERNBASE from rfl])

namespace Mem

variable {s'' : Mem}

namespace Alike

lemma trans (h : s.Alike s' d) (h' : s'.Alike s'' d) : s.Alike s'' d := fun v hv => by
  obtain ⟨hspace, hpage⟩ := h v hv
  obtain ⟨hspace', hpage'⟩ := h' v hv
  rw [hspace] at hspace' hpage'
  exact ⟨hspace', fun hne => (hpage' hne).trans (hpage hne)⟩

/-- The same loads give the same. -/
lemma read_eq {a : ℕ} (h : s.Alike s' d) (ha : a < KERNBASE) : s'.read d a = s.read d a := by
  obtain ⟨hspace, hpage⟩ := h _ (page_lt ha)
  rw [read, read, hspace]
  split
  · rfl
  · rename_i hp
    rw [hpage fun hz => hp (by rw [hz]; rfl)]

end Alike

end Mem

/-- The frame that is stored into. -/
lemma Typed.role_of_write {w : Store} (h : Typed K s ρ) (hw : ρ w.dir = .dir)
    (ha : w.addr < KERNBASE) (hpres : ¬ s.space w.dir (w.addr / PGSIZE) &&& PTE_P = 0) :
    ρ (PTE_ADDR (s.space w.dir (w.addr / PGSIZE))) = .user w.dir (w.addr / PGSIZE) :=
  h.role_of_space hw (page_lt ha) fun hz => hpres (by rw [hz]; rfl)

/-- Memory is used as before after a store, and directories map what they have mapped. -/
lemma Typed.write {w : Store} (h : Typed K s ρ) (hw : ρ w.dir = .dir) (ha : w.addr < KERNBASE) :
    Typed K (s.write w) ρ ∧ ∀ e, ρ e = .dir → ∀ v < 2 ^ 20, (s.write w).space e v =
      s.space e v := by
  rw [Mem.write]
  split
  · exact ⟨h, fun _ _ _ _ => rfl⟩
  · rename_i hpres
    have hdata : (ρ (PTE_ADDR (s.space w.dir (w.addr / PGSIZE)))).Data := by
      rw [h.role_of_write hw ha hpres]
      trivial
    exact ⟨h.setPage hdata, fun e he v => h.space_setPage hdata he⟩

/-- A store through another directory is not seen. -/
lemma Typed.alike_write_other {w : Store} (h : Typed K s ρ) (hd : ρ d = .dir) (hw : ρ w.dir = .dir)
    (hne : w.dir ≠ d) (ha : w.addr < KERNBASE) : s.Alike (s.write w) d := fun v hv => by
  have hKP := KERNPAGE_eq
  refine ⟨(h.write hw ha).2 d hd v (by omega), fun hmapped => ?_⟩
  rw [Mem.write]
  split
  · rfl
  · rename_i hpres
    refine Mem.setPage_page_of_ne fun heq => hne ?_
    have hrole := h.role_of_write hw ha hpres
    rw [← heq, h.role_of_space hd hv hmapped] at hrole
    exact (Role.user.inj hrole).1.symm

/-- The same store has the same effect. -/
lemma Mem.Alike.write {w : Store} (hal : s.Alike s' w.dir) (h : Typed K s ρ) (h' : Typed K s' ρ)
    (hw : ρ w.dir = .dir) (ha : w.addr < KERNBASE) : (s.write w).Alike (s'.write w) w.dir :=
      fun v hv => by
  have hKP := KERNPAGE_eq
  obtain ⟨hspace, hpage⟩ := hal v hv
  obtain ⟨hspace₀, hpage₀⟩ := hal _ (page_lt ha)
  rw [Keeps, (h.write hw ha).2 _ hw v (by omega), (h'.write hw ha).2 _ hw v (by omega)]
  refine ⟨hspace, fun hmapped => ?_⟩
  rw [Mem.write, Mem.write, hspace₀]
  split
  · exact hpage hmapped
  · rename_i hpres
    rw [hpage₀ fun hz => hpres (by rw [hz]; rfl)]
    by_cases heq : PTE_ADDR (s.space w.dir v) = PTE_ADDR (s.space w.dir (w.addr / PGSIZE))
    · rw [heq, setPage_page_self, setPage_page_self]
    · rw [setPage_page_of_ne heq, setPage_page_of_ne heq]
      exact hpage hmapped

/-- Whatever is stored through other directories, what is seen through `d` depends on the stores
through `d` only. -/
lemma Mem.Alike.writes (hal : s.Alike s' d) (h : Typed K s ρ) (h' : Typed K s' ρ) (hd : ρ d = .dir)
    (ws : List Store) (hws : ∀ w ∈ ws, ρ w.dir = .dir ∧ w.addr < KERNBASE) :
    (s.writes (ws.filter fun w => w.dir = d)).Alike (s'.writes ws) d := by
  induction ws generalizing s s' with
  | nil => exact hal
  | cons w ws ih =>
      obtain ⟨hw, ha⟩ := hws w List.mem_cons_self
      have hrest := fun w' hw' => hws w' (List.mem_cons_of_mem w hw')
      by_cases hwd : w.dir = d
      · subst hwd
        rw [List.filter_cons_of_pos (by simp)]
        exact ih (hal.write h h' hw ha) (h.write hw ha).1 (h'.write hw ha).1 hrest
      · rw [List.filter_cons_of_neg (by simpa using hwd)]
        exact ih (hal.trans (h'.alike_write_other hd hw hwd ha)) h (h'.write hw ha).1 hrest

/-- After any stores, a process reads what it would read if there had been its own stores only. -/
def Mem.Private (s : Mem) (d e : ℕ) : Prop :=
  ∀ ws : List Store, (∀ w ∈ ws, (w.dir = d ∨ w.dir = e) ∧ w.addr < KERNBASE) → ∀ a < KERNBASE,
    (s.writes ws).read d a = (s.writes (ws.filter fun w => w.dir = d)).read d a

lemma Typed.isPrivate {e : ℕ} (h : Typed K s ρ) (hd : ρ d = .dir) (he : ρ e = .dir) :
    s.Private d e := by
  intro ws hws a ha
  refine Mem.Alike.read_eq (Mem.Alike.writes (fun _ _ => ⟨rfl, fun _ => rfl⟩) h h hd ws
    fun w hw => ?_) ha
  obtain ⟨hdir, haddr⟩ := hws w hw
  refine ⟨?_, haddr⟩
  rcases hdir with hdir | hdir
  · rw [hdir, hd]
  · rw [hdir, he]

/-! ## `copyuvm` -/

/-- `copyuvm` returns a directory with the copies, if there are frames for it. -/
lemma Vm.copyuvm_spec {sz : ℕ} (h : Typed K s ρ) (hp : ρ p = .dir)
    (hpresent : ∀ v, v * PGSIZE < sz → s.space p v ≠ 0) :
    Wp (copyuvm K p sz)
      (fun r s' => match r with
        | some d => d ≠ p ∧ pages sz ≤ KERNPAGE ∧ ∃ s₁ ρ₁ ρ', SetUp K s ρ (some d) s₁ ρ₁ ∧
        Copies K p d 0 (pages sz) s₁ ρ₁ s' ρ'
        | none => s.fails = [] → pages sz ≤ KERNPAGE → s.freelist.length ≤ pages sz + 2 *
          NPDENTRIES + 1)
      (fun _ _ => KERNPAGE < pages sz) s := by
  have hKP := KERNPAGE_eq
  refine .of_bind (.mono (setupkvm_spec h) ?_ fun _ _ => False.elim)
  rintro r s₁ ⟨ρ₁, up⟩
  obtain ⟨n, hn, hlist⟩ := up.list
  have hlen : s.freelist.length ≤ s₁.freelist.length + NPDENTRIES + 1 := by
    rw [hlist, List.length_drop]
    omega
  cases r with
  | none =>
      refine .of_pure fun hfails _ => ?_
      rw [up.fail rfl hfails, List.length_nil] at hlen
      omega
  | some d =>
      obtain ⟨hd, hdir, hcomplete, hempty⟩ := up.dir d rfl
      have hfree := h.free d hd
      have hpd : p ≠ d := by
        rintro rfl
        exact absurd (hp.symm.trans hfree) (by simp)
      have hp₁ : ρ₁ p = .dir := by rw [(up.preserves p (by rw [hp]; simp)).1, hp]
      have hkern : s₁.space d KERNPAGE ≠ 0 := by
        rw [hcomplete KERNPAGE le_rfl (by omega), K.kpte_of_has List.mem_cons_self (by decide)]
        decide
      refine .of_bind ?_
      rw [show copyuvmLoop K (2 ^ 20) d p sz 0 = copyuvmLoop K (2 ^ 20) d p sz
        (0 * PGSIZE) from rfl]
      refine .mono (copyuvmLoop_spec up.typed hp₁ hdir hpd hkern (Nat.zero_le _) (Nat.zero_le _)
        (by omega) ?_ ?_) ?_ fun _ _ => id
      · intro x _ hx hxk
        rw [up.other p hp x (by omega)]
        exact hpresent x ((lt_pages x).2 hx)
      · exact fun x _ => hempty x
      · rintro ok s' ⟨hok, hfail⟩
        cases ok with
        | true =>
            obtain ⟨hle, ρ', c⟩ := hok rfl
            rw [if_pos rfl]
            exact .of_pure ⟨hpd.symm, hle, s₁, ρ₁, ρ', up, c⟩
        | false =>
            rw [if_neg (by decide)]
            by_cases hle : pages sz ≤ KERNPAGE
            · obtain ⟨⟨ρ', htyped, hd'⟩, hroom⟩ := hfail rfl hle
              refine .of_bind (.mono (freevm_spec htyped hd')
                (fun _ _ _ => .of_pure fun hfails _ => ?_) fun _ _ => False.elim)
              have := hroom (up.fails hfails)
              rw [Mem.room] at this
              omega
            · exact .of_bind (.of_forall (fun _ _ => .of_pure fun _ hle' => absurd hle' hle)
                fun _ _ => by omega)

/-- If `copyuvm` returns a directory, it has the parent's pages below `sz` with the same flags and
the same contents, each of them in a frame of its own, and no other pages of the user's part.  The
parent has what it had, and neither of the two sees what is then stored through the other one's
directory. -/
theorem copyuvm_copies {sz : ℕ} (h : Typed K s ρ) (hp : ρ p = .dir)
    (hpresent : ∀ v, v * PGSIZE < sz → s.space p v ≠ 0)
    (hrun : Vm.copyuvm K p sz s = .ok (some d) s') :
    (∀ v, v * PGSIZE < sz → ∃ f, s'.space d v = f * PGSIZE + PTE_FLAGS (s.space p v) ∧
      s'.page f = s.page (PTE_ADDR (s.space p v)) ∧
      (∀ u < KERNPAGE, s'.space p u ≠ 0 → PTE_ADDR (s'.space p u) ≠ f) ∧
      ∀ u < KERNPAGE, s'.space d u ≠ 0 → PTE_ADDR (s'.space d u) = f → u = v) ∧
    (∀ v < KERNPAGE, sz ≤ v * PGSIZE → s'.space d v = 0) ∧
    (∀ v < 2 ^ 20, s'.space p v = s.space p v) ∧ s.Alike s' p ∧ s'.Private p d ∧
    s'.Private d p := by
  have hKP := KERNPAGE_eq
  obtain ⟨hdp, hle, s₁, ρ₁, ρ', up, c⟩ := (Vm.copyuvm_spec h hp hpresent).ok hrun
  obtain ⟨-, hdir, -, hempty⟩ := up.dir d rfl
  have hp₁ : ρ₁ p = .dir := by rw [(up.preserves p (by rw [hp]; simp)).1, hp]
  have hpr := up.preserves.trans c.preserves
  have hsame : ∀ v < 2 ^ 20, s'.space p v = s.space p v := fun v hv => by
    rw [c.evolves.other p hp₁ hdp.symm v hv, up.other p hp v hv]
  have hmapped : ∀ v < KERNPAGE, s.space p v ≠ 0 → ρ (PTE_ADDR (s.space p v)) = .user p v :=
    fun v hv hne =>
    h.role_of_space hp hv hne
  have htyped := c.evolves.typed
  have hp' := c.evolves.dir hp₁
  have hd' := c.evolves.dir hdir
  refine ⟨fun v hv => ?_, fun v hv hge => ?_, hsame, fun v hv =>
    ⟨hsame v (by omega), fun hne => ?_⟩,
    htyped.isPrivate hp' hd', htyped.isPrivate hd' hp'⟩
  · have hv' := (lt_pages v).1 hv
    obtain ⟨f, hentry, hrole, hpage⟩ := c.entry v (Nat.zero_le v) hv'
    have hsrc := hmapped v (by omega) (hpresent v hv)
    rw [up.other p hp v (by omega)] at hentry hpage
    rw [(up.preserves _ (by rw [hsrc]; simp)).2 (by rw [hsrc]; trivial)] at hpage
    refine ⟨f, hentry, hpage, fun u hu hne haddr => ?_, fun u hu hne haddr => ?_⟩
    · rw [← haddr, htyped.role_of_space hp' hu hne] at hrole
      exact hdp (Role.user.inj hrole).1.symm
    · rw [← haddr, htyped.role_of_space hd' hu hne] at hrole
      exact (Role.user.inj hrole).2
  · have hv' : ¬ v < pages sz := by
      rw [← lt_pages]
      omega
    rw [c.evolves.keep hdir v (by omega) (by omega), hempty v hv]
  · have hsrc := hmapped v hv hne
    exact (hpr _ (by rw [hsrc]; simp)).2 (by rw [hsrc]; trivial)

/-- The frames from 3000 on, more than `copyuvm` needs for a page. -/
lemma exists_frames : ∃ l : List ℕ, l.Nodup ∧ (∀ f ∈ l, 2002 < f ∧ Kernel.small.Pool f) ∧
    l.length = 9000 := by
  refine ⟨List.range' 3000 9000, List.nodup_range', fun f hf => ?_, List.length_range'⟩
  rw [List.mem_range'_1] at hf
  refine ⟨by omega, ?_, ?_⟩
  · change 0x80110000 ≤ 0x80000000 + f * 4096
    omega
  · change f * 4096 < 0xE000000
    omega

theorem copyuvm_copies_page : ∃ l d s',
    Vm.copyuvm .small 2000 PGSIZE (.onePage l 0) = .ok (some d) s' ∧
      s'.page (PTE_ADDR (s'.space d 0)) =
        (Mem.onePage l 0).page (PTE_ADDR ((Mem.onePage l 0).space 2000 0)) ∧
      s'.Private 2000 d := by
  have hD := NPDENTRIES_eq
  obtain ⟨l, hnodup, hl, hlen⟩ := exists_frames
  have htyped := (typed_onePage (i := 0) hnodup hl (by decide)).1
  have hhas := hasPages_onePage hnodup hl
  have hpresent : ∀ v, v * PGSIZE < PGSIZE → (Mem.onePage l 0).space 2000 v ≠ 0 := fun v hv => by
    have hv' := (lt_pages v).1 hv
    exact (hhas v (hv'.trans (by decide))).2 hv'
  obtain ⟨r, s', hcopy, hpost⟩ := Wp.returns
    ((Vm.copyuvm_spec htyped rfl hpresent).mono (fun _ _ h => h) fun _ _ hlt => absurd
    hlt (by decide))
  cases r with
  | none =>
      -- there are frames for the directory, all its tables and the page
      have hshort : l.length ≤ pages PGSIZE + 2 * NPDENTRIES + 1 := hpost rfl (by decide)
      rw [hlen, hD, show pages PGSIZE = 1 from rfl] at hshort
      omega
  | some d =>
      obtain ⟨hpage, -, -, -, hprivate, -⟩ := copyuvm_copies htyped rfl hpresent hcopy
      obtain ⟨f, hspace, hbytes, -⟩ := hpage 0 (by decide)
      refine ⟨l, d, s', hcopy, ?_, hprivate⟩
      rw [hspace, PTE_ADDR, Nat.mul_comm f, PTE_FLAGS, Nat.mul_add_div (by decide),
        Nat.div_eq_of_lt (Nat.mod_lt _ (by decide)), Nat.add_zero, hbytes]

end

end Xv6
