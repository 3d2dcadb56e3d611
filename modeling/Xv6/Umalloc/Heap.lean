import Xv6.Umalloc
import Xv6.Lib.Cycle
import Xv6.Lib.Extents

/-!
# The heap of the allocator

The free blocks are a separated list of extents, linked in a circle behind `base`.  The blocks that
the client has are apart from them and from each other.  This file says what `free` and `malloc` do
to the two lists of blocks, and which bytes of memory they leave alone.
-/

namespace Xv6.Umalloc

open Lib Lib.Extent

variable {h h' : Heap} {p q v e x : ℕ} {a b : Extent} {l l₁ l₂ : List Extent}

/-! ## Headers -/

namespace Heap

/-- The fields of a header are in its eight bytes. -/
lemma ptr_congr (hmem : ∀ x, p ≤ x → x < p + 8 → h'.mem x = h.mem x) : h'.ptr p = h.ptr p :=
  load32_congr fun x _ _ => hmem x (by omega) (by omega)

lemma size_congr (hmem : ∀ x, p ≤ x → x < p + 8 → h'.mem x = h.mem x) : h'.size p = h.size p :=
  load32_congr fun x _ _ => hmem x (by omega) (by omega)

lemma mem_setPtr (hx : x < p ∨ p + 8 ≤ x) : (h.setPtr p v).mem x = h.mem x :=
  store32_of_disj (by omega)

lemma mem_setSize (hx : x < p ∨ p + 8 ≤ x) : (h.setSize p v).mem x = h.mem x :=
  store32_of_disj (by omega)

@[simp] lemma ptr_setPtr_self (hv : v < 2 ^ 32) : (h.setPtr p v).ptr p = v := load32_store32_self hv

@[simp] lemma size_setSize_self (hv : v < 2 ^ 32) :
    (h.setSize p v).size p = v := load32_store32_self hv

@[simp] lemma size_setPtr_self : (h.setPtr p v).size p = h.size p :=
  load32_store32_of_disj (by omega)

@[simp] lemma ptr_setSize_self : (h.setSize p v).ptr p = h.ptr p :=
  load32_store32_of_disj (by omega)

lemma ptr_setSize (hq : p + 8 ≤ q ∨ q + 8 ≤ p) : (h.setSize p v).ptr q = h.ptr q :=
  ptr_congr fun x _ _ => mem_setSize (by omega)

end Heap

/-- Put `a` in front of `b`, and join the two if there is nothing between. -/
def link (h : Heap) (a b : ℕ) : Heap :=
  if plus a (h.size a) = b then
    let h := h.setSize a ((h.size a + h.size b) % 2 ^ 32)
    h.setPtr a (h.ptr b)
  else h.setPtr a b

lemma mem_link (hx : x < p ∨ p + 8 ≤ x) : (link h p q).mem x = h.mem x := by
  rw [link]
  split
  · exact (Heap.mem_setPtr hx).trans (Heap.mem_setSize hx)
  · exact Heap.mem_setPtr hx

lemma brk_link : (link h p q).brk = h.brk := by
  rw [link]
  split <;> rfl

lemma calls_link : (link h p q).calls = h.calls := by
  rw [link]
  split <;> rfl

/-- `free` links the block and its neighbours twice. -/
lemma insert_eq (hapart : q + 8 ≤ p ∨ p + 8 ≤ q) :
    insert h p q = { link (link h p (h.ptr q)) q p with freep := q } := by
  have hfirst : (if plus p (h.size p) = h.ptr q then
      let h' := h.setSize p ((h.size p + h.size (h.ptr q)) % 2 ^ 32)
      h'.setPtr p (h'.ptr (h'.ptr q)) else h.setPtr p (h.ptr q)) = link h p (h.ptr q) := by
    rw [link]
    split
    · simp only [Heap.ptr_setSize (h := h) (p := p) (q := q) (by omega)]
    · rfl
  rw [insert, hfirst]
  rfl

/-! ## Linked lists of blocks -/

/-- The address of the first block, or `e`. -/
def first (e : ℕ) (l : List Extent) : ℕ := (l.map addr).headD e

/-- The headers of the blocks are linked in this order, the last one to `e`, and have the sizes of
the blocks. -/
structure Rep (h : Heap) (e : ℕ) (l : List Extent) : Prop where
  leads : Leads h.ptr (l.map addr) e
  size : ∀ b ∈ l, h.size b.addr = b.units

lemma rep_append : Rep h e (l₁ ++ l₂) ↔ Rep h (first e l₂) l₁ ∧ Rep h e l₂ := by
  constructor
  · rintro ⟨hleads, hsize⟩
    rw [List.map_append] at hleads
    obtain ⟨h₁, h₂⟩ := leads_append.1 hleads
    exact ⟨⟨h₁, fun b hb => hsize b (List.mem_append_left _ hb)⟩, h₂, fun b hb =>
      hsize b (List.mem_append_right _ hb)⟩
  · rintro ⟨⟨h₁, hs₁⟩, h₂, hs₂⟩
    refine ⟨?_, fun b hb => (List.mem_append.1 hb).elim (hs₁ b) (hs₂ b)⟩
    rw [List.map_append]
    exact leads_append.2 ⟨h₁, h₂⟩

namespace Rep

lemma of_cons (r : Rep h e (a :: l)) :
    Rep h e l := ⟨r.leads.2, fun b hb => r.size b (List.mem_cons_of_mem a hb)⟩

/-- The pointer of a block leads to the next one. -/
lemma ptr_eq (r : Rep h e (l₁ ++ a :: l₂)) : h.ptr a.addr = first e l₂ := (rep_append.1 r).2.leads.1

lemma cons (r : Rep h e l) (hptr : h.ptr a.addr = first e l) (hsize : h.size a.addr = a.units) :
    Rep h e (a :: l) :=
  ⟨⟨hptr, r.leads⟩, List.forall_mem_cons.2 ⟨hsize, r.size⟩⟩

/-- Only the bytes of the headers count. -/
lemma congr (r : Rep h e l) (hmem : ∀ b ∈ l, ∀ x, b.addr ≤ x → x < b.addr + 8 →
    h'.mem x = h.mem x) : Rep h' e l := by
  refine ⟨r.leads.congr fun p hp => ?_, fun b hb =>
    (Heap.size_congr (hmem b hb)).trans (r.size b hb)⟩
  obtain ⟨b, hb, rfl⟩ := List.mem_map.1 hp
  exact Heap.ptr_congr (hmem b hb)

end Rep

lemma first_join : first e (join 8 a l) = a.addr := by
  obtain ⟨b, l', hl, hb⟩ := exists_join_eq_cons 8 a l
  rw [hl]
  exact hb

lemma addr_mem_join : a.addr ∈ (join 8 a l).map addr := by
  obtain ⟨b, l', hl, hb⟩ := exists_join_eq_cons 8 a l
  rw [hl, List.map_cons, hb]
  exact List.mem_cons_self

lemma mem_cover_base (base : ℕ) : x ∈ cover 8 (⟨base, 0⟩ :: l) ↔ x ∈ cover 8 l := by
  rw [mem_cover_cons, or_iff_right]
  exact fun hx => absurd hx.2 (not_lt.2 hx.1)

lemma plus_eq (hlt : p + 8 * v < 2 ^ 32) : plus p v = p + 8 * v := Nat.mod_eq_of_lt hlt

/-- Putting a block in front of a list of blocks behind it. -/
lemma Rep.link (r : Rep h e l) (hsize : h.size a.addr = a.units) (hpos : ∀ b ∈ l, 0 < b.units)
    (hlim : ∀ b ∈ l, b.lim 8 ≤ 2 ^ 32) (hbehind : ∀ b ∈ l, a.addr + 8 ≤ b.addr ∧ a.lim 8 ≤ b.addr)
    (he : e < 2 ^ 32) (hend : l = [] → plus a.addr a.units ≠ e) :
    Rep (link h a.addr (first e l)) e (join 8 a l) := by
  have hrest : ∀ {t : List Extent}, (∀ b ∈ t, b ∈ l) → Rep h e t →
    Rep (Umalloc.link h a.addr (first e l)) e t := by
    intro t hsub rt
    refine rt.congr fun b hb x hx _ => mem_link ?_
    have := (hbehind b (hsub b hb)).1
    omega
  cases l with
  | nil =>
      have hlink : Umalloc.link h a.addr e = h.setPtr a.addr e := by
        rw [Umalloc.link, if_neg (by rw [hsize]; exact hend rfl)]
      have hfirst : first e [] = e := rfl
      rw [hfirst] at hrest ⊢
      refine (hrest (fun _ hb => hb) r).cons ?_ ?_
      · rw [hlink]
        exact Heap.ptr_setPtr_self he
      · rw [hlink, Heap.size_setPtr_self, hsize]
  | cons b l =>
      obtain ⟨hb8, hble⟩ := hbehind b List.mem_cons_self
      have hblim := hlim b List.mem_cons_self
      have hbpos : b.addr + 8 ≤ b.lim 8 := addr_add_le_lim (hpos b List.mem_cons_self)
      have hplus : plus a.addr a.units = a.lim 8 := plus_eq (by rw [lim] at hble; omega)
      have hbaddr : first e (b :: l) = b.addr := rfl
      rw [hbaddr] at hrest ⊢
      rw [join]
      by_cases hab : a.lim 8 = b.addr
      · have hunits : a.units + b.units < 2 ^ 32 := by
          have : a.addr + 8 * (a.units + b.units) = b.lim 8 := lim_join hab
          omega
        have hsum : (h.size a.addr + h.size b.addr) % 2 ^ 32 = a.units + b.units := by
          rw [hsize, r.size b List.mem_cons_self, Nat.mod_eq_of_lt hunits]
        have hlink : Umalloc.link h a.addr b.addr = (h.setSize a.addr (a.units + b.units)).setPtr
          a.addr (h.ptr b.addr) := by
          rw [Umalloc.link, if_pos (by rw [hsize, hplus, hab]), hsum]
          simp only [Heap.ptr_setSize (h := h) (p := a.addr) (q := b.addr) (.inl hb8)]
        have hptr : h.ptr b.addr < 2 ^ 32 := by
          rw [r.leads.1]
          cases l with
          | nil => exact he
          | cons c l =>
              have := hlim c (by simp)
              have hc : c.addr + 8 ≤ c.lim 8 := addr_add_le_lim (hpos c (by simp))
              change c.addr < 2 ^ 32
              omega
        rw [if_pos hab]
        refine (hrest (fun _ hc => List.mem_cons_of_mem b hc) r.of_cons).cons ?_ ?_
        · rw [hlink, Heap.ptr_setPtr_self hptr]
          exact r.leads.1
        · rw [hlink, Heap.size_setPtr_self, Heap.size_setSize_self hunits]
      · have hlink : Umalloc.link h a.addr b.addr = h.setPtr a.addr b.addr := by
          rw [Umalloc.link, if_neg (by rwa [hsize, hplus])]
        rw [if_neg hab]
        refine (hrest (fun _ hc => hc) r).cons ?_ ?_
        · rw [hlink, Heap.ptr_setPtr_self (by omega)]
          rfl
        · rw [hlink, Heap.size_setPtr_self, hsize]

/-! ## The invariant -/

/-- The memory that calls of `sbrk` have returned. -/
def obtained (calls : List Call) : Set ℕ := {x | ∃ c ∈ calls, c.addr ≤ x ∧ x < c.addr + c.amount}

/-- The free blocks are `holes`, and the client has the blocks `live`. -/
structure Ok (base : ℕ) (h : Heap) (holes live : List Extent) : Prop where
  base_pos : 0 < base
  rep : Rep h base (⟨base, 0⟩ :: holes)
  separated : Separated 8 (⟨base, 0⟩ :: holes)
  pos : ∀ b ∈ holes ++ live, 0 < b.units
  within : ∀ x ∈ cover 8 (holes ++ live), base + 8 ≤ x ∧ x < h.brk
  brk : base + 8 ≤ h.brk ∧ h.brk < 2 ^ 32
  freep : h.freep ∈ base :: holes.map addr
  size : ∀ b ∈ live, h.size b.addr = b.units
  apart : live.Pairwise fun a b => ∀ x ∈ a.bytes 8, x ∉ b.bytes 8
  unused : ∀ b ∈ live, ∀ x ∈ b.bytes 8, x ∉ cover 8 holes
  whole : ∀ x, x ∈ cover 8 (holes ++ live) ↔ x ∈ obtained h.calls

/-- Only the free blocks and the header `base` may have been written to. -/
def Spares (base : ℕ) (holes : List Extent) (h h' : Heap) : Prop :=
  ∀ x, x ∉ cover 8 holes → (x < base ∨ base + 8 ≤ x) → h'.mem x = h.mem x

lemma freeLoop_eq_seek (bp n p : ℕ) : freeLoop h bp n p = seek h.ptr
    (fun p => decide (p < bp ∧ bp < h.ptr p ∨ h.ptr p ≤ p ∧ (p < bp ∨ bp < h.ptr p))) n p := by
  induction n generalizing p with
  | zero => rfl
  | succ n ih =>
      rw [freeLoop, seek, ih]
      by_cases h₁ : p < bp ∧ bp < h.ptr p
      · simp [h₁]
      · by_cases h₂ : h.ptr p ≤ p ∧ (p < bp ∨ bp < h.ptr p) <;> simp [h₁, h₂]

/-- The nodes are `base` and the free blocks. -/
lemma cases_node {base : ℕ} {holes : List Extent} (hk : ⟨base, 0⟩ :: holes = l₁ ++ a :: l₂) :
    l₁ = [] ∧ a = ⟨base, 0⟩ ∧ l₂ = holes ∨ ∃ m, l₁ = ⟨base, 0⟩ :: m ∧ holes = m ++ a :: l₂ := by
  cases l₁ with
  | nil =>
      obtain ⟨rfl, rfl⟩ := List.cons.inj hk
      exact .inl ⟨rfl, rfl, rfl⟩
  | cons b m =>
      obtain ⟨rfl, rfl⟩ := List.cons.inj hk
      exact .inr ⟨m, rfl, rfl⟩

/-- Behind a node the list is replaced. -/
lemma exists_holes {base : ℕ} {holes : List Extent} (hk : ⟨base, 0⟩ :: holes = l₁ ++ a :: l₂)
    (t : List Extent) :
    ∃ holes', l₁ ++ a :: t = ⟨base, 0⟩ :: holes' ∧ ∀ d ∈ holes', d ∈ holes ∨ d ∈ t := by
  rcases cases_node hk with ⟨rfl, rfl, -⟩ | ⟨m, rfl, rfl⟩
  · exact ⟨t, rfl, fun d hd => .inr hd⟩
  · refine ⟨m ++ a :: t, rfl, fun d hd => ?_⟩
    simp only [List.mem_append, List.mem_cons] at hd ⊢
    tauto

namespace Ok

variable {base n : ℕ} {holes live : List Extent}

/-- Where a block is. -/
lemma bounds (ok : Ok base h holes live) (hb : b ∈ holes ++ live) :
    base + 8 ≤ b.addr ∧ b.addr + 8 ≤ b.lim 8 ∧ b.lim 8 ≤ h.brk := by
  obtain ⟨hlo, hhi⟩ := bounds_of_bytes (by omega) (ok.pos b hb) fun x hx => ok.within x ⟨b, hb, hx⟩
  exact ⟨hlo, addr_add_le_lim (ok.pos b hb), hhi⟩

/-- From the pointer that the client has back to the header. -/
lemma header_add (ok : Ok base h holes live) (hb : b ∈ holes ++ live) :
    header (b.addr + 8) = b.addr := by
  obtain ⟨-, hle, hlim⟩ := ok.bounds hb
  have hbrk := ok.brk
  rw [header]
  omega

/-- A free block comes before a block of the client or behind it. -/
lemma lim_le (ok : Ok base h holes live) (ha : a ∈ holes) (hb : b ∈ live) :
    a.lim 8 ≤ b.addr ∨ b.lim 8 ≤ a.addr :=
  lim_le_or_lim_le (by omega) (ok.pos a (List.mem_append_left _ ha))
    (ok.pos b (List.mem_append_right _ hb)) fun x hxa hxb => ok.unused b hb x hxb ⟨a, ha, hxa⟩

/-- The pointer of a node leads to the next one. -/
lemma ptr_eq (ok : Ok base h holes live) (hk : ⟨base, 0⟩ :: holes = l₁ ++ a :: l₂) :
    h.ptr a.addr = first base l₂ :=
  Rep.ptr_eq (hk ▸ ok.rep)

/-- Where the loop of `free` stops: at the last node before the block. -/
lemma stops_iff (ok : Ok base h holes live) (hk : ⟨base, 0⟩ :: holes = l₁ ++ a :: l₂)
    (hp : base + 8 ≤ p) :
    (a.addr < p ∧ p < first base l₂ ∨ first base l₂ ≤ a.addr ∧ (a.addr < p ∨ p < first base l₂)) ↔
      a.addr < p ∧ ∀ d ∈ l₂, p < d.addr := by
  have hle : base ≤ a.addr := by
    have ha : a ∈ (⟨base, 0⟩ :: holes : List Extent) := by simp [hk]
    rcases List.mem_cons.1 ha with rfl | ha
    · exact le_rfl
    · exact (Nat.le_add_right base 8).trans (ok.bounds (List.mem_append_left live ha)).1
  have hsep : Separated 8 (a :: l₂) := (List.pairwise_append.1 (hk ▸ ok.separated)).2.1
  cases l₂ with
  | nil =>
      change a.addr < p ∧ p < base ∨ base ≤ a.addr ∧ (a.addr < p ∨ p < base) ↔ _
      simp only [List.not_mem_nil, false_imp_iff, implies_true, and_true]
      omega
  | cons d l₂ =>
      have had : a.addr < d.addr := hsep.addr_lt List.mem_cons_self
      have hrest : (∀ c ∈ d :: l₂, p < c.addr) ↔ p < d.addr :=
        ⟨fun h => h d List.mem_cons_self, fun h => List.forall_mem_cons.2 ⟨h, fun c hc =>
          h.trans (Separated.addr_lt hsep.of_cons hc)⟩⟩
      rw [hrest]
      change a.addr < p ∧ p < d.addr ∨ d.addr ≤ a.addr ∧ (a.addr < p ∨ p < d.addr) ↔ _
      omega

/-- `free` finds the free block, or `base`, behind which the block belongs. -/
lemma place (ok : Ok base h holes live) (hb : b ∈ live) :
    ∃ l₁ c l₂, ⟨base, 0⟩ :: holes = l₁ ++ c :: l₂ ∧ c.addr + 8 ≤ b.addr ∧ c.lim 8 ≤ b.addr ∧
      (∀ d ∈ l₂, b.lim 8 ≤ d.addr) ∧ ∀ n, holes.length + 1 ≤ n → freeLoop h b.addr n h.freep =
        some c.addr := by
  obtain ⟨hbase, hb8, -⟩ := ok.bounds (List.mem_append_right holes hb)
  -- every node ends before the block begins, or begins behind its end
  have hside : ∀ d ∈ (⟨base, 0⟩ :: holes : List Extent),
      d.addr + 8 ≤ b.addr ∧ d.lim 8 ≤ b.addr ∨ b.lim 8 ≤ d.addr := by
    intro d hd
    rcases List.mem_cons.1 hd with rfl | hd
    · exact .inl ⟨hbase, (Nat.le_add_right base 8).trans hbase⟩
    · rcases ok.lim_le hd hb with hle | hle
      · exact .inl ⟨(ok.bounds (List.mem_append_left live hd)).2.1.trans hle, hle⟩
      · exact .inr hle
  obtain ⟨l', l₂, heq, hlt, hge⟩ := exists_split (⟨base, 0⟩ :: holes) ok.separated b.addr
  have hne : l' ≠ [] := by
    rintro rfl
    rw [List.nil_append] at heq
    have : b.addr ≤ base := hge ⟨base, 0⟩ (heq ▸ List.mem_cons_self)
    omega
  obtain ⟨l₁, c, rfl⟩ := (List.eq_nil_or_concat l').resolve_left hne
  rw [List.concat_eq_append, List.append_assoc, List.singleton_append] at heq
  have hc : c ∈ (⟨base, 0⟩ :: holes : List Extent) := by simp [heq]
  have hcb : c.addr < b.addr := hlt c (by simp)
  obtain ⟨hc8, hclim⟩ := (hside c hc).resolve_right (by omega)
  have hbehind : ∀ d ∈ l₂, b.lim 8 ≤ d.addr := fun d hd =>
    (hside d (heq ▸ by simp [hd])).resolve_left fun hd' => by have := hge d hd; omega
  refine ⟨l₁, c, l₂, heq, hc8, hclim, hbehind, fun n hn => ?_⟩
  rw [freeLoop_eq_seek]
  refine ok.rep.leads.seek_circle ok.freep (List.mem_map_of_mem hc) ?_ ?_ (by rwa [List.length_map])
  · rw [decide_eq_true_eq, ok.ptr_eq heq, ok.stops_iff heq hbase]
    exact ⟨hcb, fun d hd => by have := hbehind d hd; omega⟩
  · intro p hp hstop
    change p ∈ (⟨base, 0⟩ :: holes : List Extent).map addr at hp
    obtain ⟨d, hd, rfl⟩ := List.mem_map.1 hp
    obtain ⟨k₁, k₂, hk⟩ := List.append_of_mem hd
    rw [decide_eq_true_eq, ok.ptr_eq hk, ok.stops_iff hk hbase] at hstop
    obtain ⟨hdb, hnext⟩ := hstop
    rcases lt_trichotomy d.addr c.addr with hlt | heq' | hlt
    · have := hnext c ((hk ▸ ok.separated).mem_right (hk ▸ hc) hlt)
      omega
    · exact heq'
    · have := hbehind d ((heq ▸ ok.separated).mem_right (heq ▸ hd) hlt)
      omega

/-- The header of a node ends before the next nodes begin. -/
lemma header_le (ok : Ok base h holes live) (hk : ⟨base, 0⟩ :: holes = l₁ ++ a :: l₂)
    (hd : b ∈ l₁) :
    b.addr + 8 ≤ a.addr := by
  have hlt : b.lim 8 < a.addr := (List.pairwise_append.1 (hk ▸ ok.separated)).2.2 b hd a
    List.mem_cons_self
  have hb : b ∈ (⟨base, 0⟩ :: holes : List Extent) := by simp [hk, hd]
  have ha : a ∈ (⟨base, 0⟩ :: holes : List Extent) := by simp [hk]
  rcases List.mem_cons.1 hb with rfl | hb
  · rcases List.mem_cons.1 ha with rfl | ha
    · exact absurd hlt (lt_irrefl _)
    · exact (ok.bounds (List.mem_append_left live ha)).1
  · exact (ok.bounds (List.mem_append_left live hb)).2.1.trans hlt.le

/-- What is neither in a free block nor in `base` is not in the header of a node. -/
lemma outside_header (ok : Ok base h holes live) (hk : ⟨base, 0⟩ :: holes = l₁ ++ a :: l₂)
    (hx : x ∉ cover 8 holes) (hxbase : x < base ∨ base + 8 ≤ x) : x < a.addr ∨ a.addr + 8 ≤ x := by
  rcases cases_node hk with ⟨-, rfl, -⟩ | ⟨m, -, rfl⟩
  · exact hxbase
  · by_contra hno
    have ha := (ok.bounds (b := a) (by simp)).2.1
    exact hx ⟨a, by simp, by omega, by omega⟩

/-- The blocks of the client keep their headers. -/
lemma size_of_spares (ok : Ok base h holes live) {holes' : List Extent}
    (hs : Spares base holes' h h') (hb : b ∈ live) (hno : ∀ x ∈ b.bytes 8, x ∉ cover 8 holes') :
    h'.size b.addr = b.units := by
  obtain ⟨hlo, hle, -⟩ := ok.bounds (List.mem_append_right holes hb)
  rw [← ok.size b hb]
  refine Heap.size_congr fun x hx hx8 => hs x (hno x ⟨hx, by omega⟩) (.inr (by omega))

/-- The blocks behind a node are free blocks. -/
lemma mem_holes (hk : ⟨base, 0⟩ :: holes = l₁ ++ a :: l₂) (hb : b ∈ l₂) : b ∈ holes := by
  rcases cases_node hk with ⟨-, -, rfl⟩ | ⟨m, -, rfl⟩
  · exact hb
  · simp [hb]

/-- The list after `free` has put a block behind a node. -/
lemma rep_insert (ok : Ok base h holes live) (hb : b ∈ live)
    (hk : ⟨base, 0⟩ :: holes = l₁ ++ a :: l₂) (ha8 : a.addr + 8 ≤ b.addr) (halim : a.lim 8 ≤ b.addr)
    (hbehind : ∀ d ∈ l₂, b.lim 8 ≤ d.addr) :
    Rep (insert h b.addr a.addr) base (l₁ ++ join 8 a (join 8 b l₂)) := by
  obtain ⟨hbase, hb8, hbrk⟩ := ok.bounds (List.mem_append_right holes hb)
  have hbrk' := ok.brk
  have hbpos := ok.pos b (List.mem_append_right holes hb)
  have hpos : ∀ d ∈ l₂, 0 < d.units := fun d hd =>
    ok.pos d (List.mem_append_left live (mem_holes hk hd))
  obtain ⟨r₁, r₂⟩ := rep_append.1 (hk ▸ ok.rep)
  -- the block and what is behind it
  have rb : Rep (link h b.addr (first base l₂)) base (join 8 b l₂) := by
    refine r₂.of_cons.link (ok.size b hb) hpos (fun d hd => ?_) (fun d hd => ?_)
      (by omega) fun _ => ?_
    · have := (ok.bounds (List.mem_append_left live (mem_holes hk hd))).2.2
      omega
    · have := hbehind d hd
      exact ⟨by omega, by omega⟩
    · have hplus : plus b.addr b.units = b.lim 8 := plus_eq (by rw [lim] at hbrk; omega)
      rw [hplus]
      omega
  -- the node and the block
  have ra : Rep (link (link h b.addr (first base l₂)) a.addr b.addr) base
    (join 8 a (join 8 b l₂)) := by
    have hle : ∀ d ∈ join 8 b l₂, b.addr ≤ d.addr := fun d hd =>
      addr_le_of_mem_join (fun c hc => by have := hbehind c hc; omega) hd
    have hsize : (link h b.addr (first base l₂)).size a.addr = a.units := by
      rw [← r₂.size a List.mem_cons_self]
      exact Heap.size_congr fun x _ _ => mem_link (by omega)
    have hlim : ∀ d ∈ join 8 b l₂, d.lim 8 ≤ h.brk := by
      intro d hd
      have hbytes : ∀ x ∈ d.bytes 8, base + 8 ≤ x ∧ x < h.brk := by
        intro x hx
        rcases mem_cover_join.1 (mem_cover.2 ⟨d, hd, hx⟩) with hx | ⟨c, hc, hx⟩
        · exact ok.within x ⟨b, List.mem_append_right holes hb, hx⟩
        · exact ok.within x ⟨c, List.mem_append_left live (mem_holes hk hc), hx⟩
      exact (bounds_of_bytes (by omega) (units_pos_of_mem_join hbpos hpos hd) hbytes).2
    have := rb.link hsize (fun d hd => units_pos_of_mem_join hbpos hpos hd)
      (fun d hd => by have := hlim d hd; omega)
      (fun d hd => ⟨ha8.trans (hle d hd), halim.trans (hle d hd)⟩) (by omega) fun hnil => by
        obtain ⟨c, l', hl, -⟩ := exists_join_eq_cons 8 b l₂
        exact absurd (hl.symm.trans hnil) (by simp)
    rwa [first_join] at this
  have hinsert : insert h b.addr a.addr =
    { link (link h b.addr (first base l₂)) a.addr b.addr with freep := a.addr } := by
    rw [insert_eq (.inl ha8), ok.ptr_eq hk]
  rw [hinsert, rep_append, first_join]
  refine ⟨r₁.congr fun d hd x _ hx => ?_, ra.congr fun _ _ _ _ _ => rfl⟩
  have := ok.header_le hk hd
  change (link (link h b.addr (first base l₂)) a.addr b.addr).mem x = h.mem x
  rw [mem_link (by omega), mem_link (by omega)]

lemma separated_insert (ok : Ok base h holes live) (hk : ⟨base, 0⟩ :: holes = l₁ ++ a :: l₂)
    (halim : a.lim 8 ≤ b.addr) (hbehind : ∀ d ∈ l₂, b.lim 8 ≤ d.addr) :
    Separated 8 (l₁ ++ join 8 a (join 8 b l₂)) := by
  obtain ⟨h₁, h₂, h₁₂⟩ := List.pairwise_append.1 (hk ▸ ok.separated)
  have hle : ∀ d ∈ join 8 b l₂, b.addr ≤ d.addr := fun d hd =>
    addr_le_of_mem_join (fun c hc => addr_le_lim.trans (hbehind c hc)) hd
  refine List.pairwise_append.2 ⟨h₁, (Separated.join h₂.of_cons hbehind).join fun d hd =>
    halim.trans (hle d hd), ?_⟩
  intro c hc d hd
  have hcd := h₁₂ c hc a List.mem_cons_self
  have had : a.addr ≤ d.addr := addr_le_of_mem_join
    (fun x hx => addr_le_lim.trans (halim.trans (hle x hx))) hd
  omega

/-- The new list has `base` in front, and blocks of at least one unit behind it. -/
lemma exists_holes_insert (ok : Ok base h holes live) (hb : b ∈ live)
    (hk : ⟨base, 0⟩ :: holes = l₁ ++ a :: l₂) :
    ∃ holes', l₁ ++ join 8 a (join 8 b l₂) = ⟨base, 0⟩ :: holes' ∧ ∀ d ∈ holes', 0 < d.units := by
  have hpos : ∀ d ∈ join 8 b l₂, 0 < d.units := fun d hd =>
    units_pos_of_mem_join (ok.pos b (List.mem_append_right holes hb))
      (fun c hc => ok.pos c (List.mem_append_left live (mem_holes hk hc))) hd
  rcases cases_node hk with ⟨rfl, rfl, -⟩ | ⟨m, rfl, rfl⟩
  · obtain ⟨c, l', hl, hc⟩ := exists_join_eq_cons 8 b l₂
    have hbase := (ok.bounds (List.mem_append_right holes hb)).1
    refine ⟨join 8 b l₂, ?_, hpos⟩
    rw [List.nil_append, hl, join, if_neg]
    change base + 8 * 0 ≠ c.addr
    omega
  · refine ⟨m ++ join 8 a (join 8 b l₂), rfl, fun d hd => ?_⟩
    rcases List.mem_append.1 hd with hd | hd
    · exact ok.pos d (by simp [hd])
    · exact units_pos_of_mem_join (ok.pos a (by simp)) hpos hd

/-- The blocks of the client are different blocks. -/
lemma nodup_live (ok : Ok base h holes live) : live.Nodup := by
  refine List.Pairwise.imp_of_mem ?_ ok.apart
  rintro c d hc - hno rfl
  have hle := (ok.bounds (List.mem_append_right holes hc)).2.1
  exact hno c.addr ⟨le_rfl, by omega⟩ ⟨le_rfl, by omega⟩

/-- Two blocks of the client have no byte in common. -/
lemma not_mem_of_ne (ok : Ok base h holes live) (ha : a ∈ live) (hb : b ∈ live) (hne : a ≠ b)
    (hx : x ∈ a.bytes 8) :
    x ∉ b.bytes 8 := by
  have : Std.Symm fun a b : Extent => ∀ x ∈ a.bytes 8, x ∉ b.bytes 8 :=
    ⟨fun c d hno y hyd hyc => hno y hyc hyd⟩
  exact ok.apart.forall ha hb hne x hx

/-- `free` of a block of the client. -/
lemma free (ok : Ok base h holes live) (hb : b ∈ live) :
    ∃ h' holes', (∀ n, holes.length + 1 ≤ n → Umalloc.free n (b.addr + 8) h = some h') ∧
    Ok base h' holes' (live.erase b) ∧
      (∀ x, x ∈ cover 8 holes' ↔ x ∈ cover 8 holes ∨ x ∈ b.bytes 8) ∧ Spares base holes' h h' ∧
      h'.brk = h.brk ∧ h'.calls = h.calls := by
  obtain ⟨hbase, hb8, hbrk⟩ := ok.bounds (List.mem_append_right holes hb)
  have hbrk' := ok.brk
  obtain ⟨l₁, a, l₂, hk, ha8, halim, hbehind, hloop⟩ := ok.place hb
  obtain ⟨holes', hnodes, hpos⟩ := ok.exists_holes_insert hb hk
  have hrep := ok.rep_insert hb hk ha8 halim hbehind
  have hsep := ok.separated_insert hk halim hbehind
  have hcover : ∀ x, x ∈ cover 8 holes' ↔ x ∈ cover 8 holes ∨ x ∈ b.bytes 8 := by
    intro x
    rw [← mem_cover_base base (l := holes'), ← hnodes, ← mem_cover_base base (l := holes), hk]
    simp only [mem_cover_append, mem_cover_join, mem_cover_cons]
    tauto
  have hspares : Spares base holes' h (insert h b.addr a.addr) := by
    intro x hx hxbase
    have hxb : x < b.addr ∨ b.addr + 8 ≤ x := by
      by_contra hno
      exact hx ((hcover x).2 (.inr ⟨by omega, by omega⟩))
    have hxa := ok.outside_header hk (fun hxh => hx ((hcover x).2 (.inl hxh))) hxbase
    rw [insert_eq (.inl ha8)]
    change (link (link h b.addr (h.ptr a.addr)) a.addr b.addr).mem x = h.mem x
    rw [mem_link hxa, mem_link hxb]
  have hfields : (insert h b.addr a.addr).brk = h.brk ∧
    (insert h b.addr a.addr).calls = h.calls := by
    rw [insert_eq (.inl ha8)]
    change (link (link h b.addr (h.ptr a.addr)) a.addr b.addr).brk = h.brk ∧
      (link (link h b.addr (h.ptr a.addr)) a.addr b.addr).calls = h.calls
    rw [brk_link, brk_link, calls_link, calls_link]
    exact ⟨rfl, rfl⟩
  have hno : ∀ d ∈ live.erase b, ∀ x ∈ d.bytes 8, x ∉ cover 8 holes' := by
    intro d hd x hx hxc
    rcases (hcover x).1 hxc with hxc | hxb
    · exact ok.unused d (List.mem_of_mem_erase hd) x hx hxc
    · refine ok.not_mem_of_ne (List.mem_of_mem_erase hd) hb ?_ hx hxb
      rintro rfl
      exact ok.nodup_live.not_mem_erase hd
  have hall : ∀ x, x ∈ cover 8 (holes' ++ live.erase b) ↔ x ∈ cover 8 (holes ++ live) := by
    intro x
    have hlive : x ∈ cover 8 live ↔ x ∈ b.bytes 8 ∨ x ∈ cover 8 (live.erase b) := by
      rw [← mem_cover_cons]
      exact exists_congr fun d => and_congr_left fun _ => (List.perm_cons_erase hb).mem_iff
    rw [mem_cover_append, mem_cover_append, hcover, hlive, or_assoc]
  refine ⟨insert h b.addr a.addr, holes', fun n hn => ?_, ?_, hcover, hspares, hfields⟩
  · rw [Umalloc.free, ok.header_add (List.mem_append_right holes hb), hloop n hn]
    rfl
  · refine ⟨ok.base_pos, hnodes ▸ hrep, hnodes ▸ hsep, fun d hd => ?_, fun x hx =>
      ?_, by rw [hfields.1]; exact ok.brk, ?_,
      fun d hd => ok.size_of_spares hspares (List.mem_of_mem_erase hd) (hno d hd),
      ok.apart.sublist List.erase_sublist, hno, fun x => ?_⟩
    · rcases List.mem_append.1 hd with hd | hd
      · exact hpos d hd
      · exact ok.pos d (List.mem_append_right holes (List.mem_of_mem_erase hd))
    · rw [hfields.1]
      exact ok.within x ((hall x).1 hx)
    · have hmem : a.addr ∈ (⟨base, 0⟩ :: holes' : List Extent).map addr := by
        rw [← hnodes, List.map_append]
        exact List.mem_append_right _ addr_mem_join
      exact hmem
    · rw [hall, hfields.2]
      exact ok.whole x

end Ok

end Xv6.Umalloc
