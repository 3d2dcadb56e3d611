import Xv6.Umalloc.Heap

/-!
# What `malloc` does to the heap

The loop of `malloc` goes once around the list to the first free block that is large enough.  If
there is none, `morecore` adds memory to the list, and the loop goes around once more and finds a
block.
-/

namespace Xv6.Umalloc

open Lib Lib.Extent

variable {h h' : Heap} {sbrk : Sbrk} {base nu n p q x : ℕ} {a b c : Extent}
    {l₁ l₂ holes live : List Extent}

/-! ## Taking a block -/

namespace Ok

/-- The client gets a block that is a part of the free blocks. -/
lemma give {holes' : List Extent} (ok : Ok base h holes live) (hs : Spares base holes h h')
    (hbrk : h'.brk = h.brk) (hcalls : h'.calls = h.calls) (hrep : Rep h' base (⟨base, 0⟩ :: holes'))
    (hsep : Separated 8 (⟨base, 0⟩ :: holes')) (hpos : ∀ d ∈ holes', 0 < d.units)
    (hfreep : h'.freep ∈ base :: holes'.map addr) (hbpos : 0 < b.units)
    (hsize : h'.size b.addr = b.units)
    (hcover : ∀ x, x ∈ cover 8 holes ↔ x ∈ cover 8 holes' ∨ x ∈ b.bytes 8)
    (hno : ∀ x ∈ b.bytes 8, x ∉ cover 8 holes') : Ok base h' holes' (b :: live) := by
  have hall : ∀ x, x ∈ cover 8 (holes' ++ b :: live) ↔ x ∈ cover 8 (holes ++ live) := by
    intro x
    rw [mem_cover_append, mem_cover_cons, mem_cover_append, hcover, or_assoc]
  refine ⟨ok.base_pos, hrep, hsep, fun d hd => ?_, fun x hx => ?_, by rw [hbrk]; exact ok.brk,
    hfreep,
    List.forall_mem_cons.2 ⟨hsize, fun d hd => ok.size_of_spares hs hd (ok.unused d hd)⟩,
    List.pairwise_cons.2 ⟨fun d hd x hxb hxd => ?_, ok.apart⟩,
    List.forall_mem_cons.2 ⟨hno, fun d hd x hxd hxh => ?_⟩, fun x => ?_⟩
  · rcases List.mem_append.1 hd with hd | hd
    · exact hpos d hd
    · rcases List.mem_cons.1 hd with rfl | hd
      · exact hbpos
      · exact ok.pos d (List.mem_append_right holes hd)
  · rw [hbrk]
    exact ok.within x ((hall x).1 hx)
  · exact ok.unused d hd x hxd ((hcover x).2 (.inr hxb))
  · exact ok.unused d hd x hxd ((hcover x).2 (.inl hxh))
  · rw [hall, hcalls]
    exact ok.whole x

/-- `malloc` takes a whole block. -/
lemma take_all (ok : Ok base h holes live) (hk : ⟨base, 0⟩ :: holes = l₁ ++ a :: c :: l₂) :
    ∃ holes', Ok base { h.setPtr a.addr (h.ptr c.addr) with freep := a.addr } holes' (c :: live) ∧
      Spares base holes h { h.setPtr a.addr (h.ptr c.addr) with freep := a.addr } := by
  have hk' : ⟨base, 0⟩ :: holes = (l₁ ++ [a]) ++ c :: l₂ := by simp [hk]
  have hc : c ∈ holes := mem_holes hk List.mem_cons_self
  obtain ⟨hcbase, hc8, hcbrk⟩ := ok.bounds (List.mem_append_left live hc)
  have hac : a.addr + 8 ≤ c.addr := ok.header_le hk' (by simp)
  obtain ⟨r₁, r₂⟩ := rep_append.1 (hk ▸ ok.rep)
  have hptr : h.ptr c.addr < 2 ^ 32 := by
    have hbrk := ok.brk
    rw [ok.ptr_eq hk']
    cases l₂ with
    | nil => change base < 2 ^ 32; omega
    | cons d l₂ =>
        have hd := ok.bounds (List.mem_append_left live (mem_holes (b := d) hk' List.mem_cons_self))
        change d.addr < 2 ^ 32
        omega
  generalize hh : ({ h.setPtr a.addr (h.ptr c.addr) with freep := a.addr } : Heap) = h'
  have hmem : ∀ x, (x < a.addr ∨ a.addr + 8 ≤ x) → h'.mem x = h.mem x := fun x hx => by
    rw [← hh]
    exact Heap.mem_setPtr hx
  have hbehind : ∀ d ∈ l₂, c.lim 8 < d.addr := fun d hd =>
    (List.pairwise_cons.1 (List.pairwise_append.1 (hk' ▸ ok.separated)).2.1).1 d hd
  have hspares : Spares base holes h h' := fun x hx hxbase =>
    hmem x (ok.outside_header hk hx hxbase)
  have hrep : Rep h' base (l₁ ++ a :: l₂) := by
    refine rep_append.2 ⟨r₁.congr fun d hd x _ hx => hmem x ?_,
      Rep.cons (r₂.of_cons.of_cons.congr fun d hd x hx _ =>
      hmem x ?_) ?_ ?_⟩
    · have := ok.header_le hk hd
      omega
    · have := hbehind d hd
      omega
    · rw [← hh, ← ok.ptr_eq hk']
      exact Heap.ptr_setPtr_self hptr
    · rw [← hh, ← r₂.size a List.mem_cons_self]
      exact Heap.size_setPtr_self
  obtain ⟨holes', hnodes, hsub⟩ := exists_holes hk l₂
  have hsep : Separated 8 (l₁ ++ a :: l₂) := (hk ▸ ok.separated).sublist (by simp)
  have hcover : ∀ x, x ∈ cover 8 holes ↔ x ∈ cover 8 holes' ∨ x ∈ c.bytes 8 := by
    intro x
    rw [← mem_cover_base base (l := holes'), ← hnodes, ← mem_cover_base base (l := holes), hk]
    simp only [mem_cover_append, mem_cover_cons]
    tauto
  have hno : ∀ x ∈ c.bytes 8, x ∉ cover 8 holes' := by
    intro x hx
    rw [← mem_cover_base base (l := holes'), ← hnodes]
    have := (hk' ▸ ok.separated).not_mem_cover hx
    rwa [List.append_assoc] at this
  have hholes : ∀ d ∈ holes', d ∈ holes := fun d hd => (hsub d hd).elim id fun hd =>
    mem_holes hk (List.mem_cons_of_mem c hd)
  refine ⟨holes', ok.give hspares (by rw [← hh]; rfl) (by rw [← hh]; rfl) (hnodes ▸ hrep)
    (hnodes ▸ hsep) (fun d hd => ok.pos d (List.mem_append_left live (hholes d hd))) ?_
    (ok.pos c (List.mem_append_left live hc)) ?_ hcover hno,
    hspares⟩
  · have hmem : a.addr ∈ (⟨base, 0⟩ :: holes' : List Extent).map addr := by
      rw [← hnodes]
      simp
    rw [← hh]
    exact hmem
  · rw [← r₂.size c (by simp)]
    exact Heap.size_congr fun x hx _ => hmem x (by omega)

/-- `malloc` takes the end of a block. -/
lemma take_part (ok : Ok base h holes live) (hk : ⟨base, 0⟩ :: holes = l₁ ++ a :: c :: l₂)
    (hnu : 0 < nu) (hlt : nu < c.units)
    (hh : { (h.setSize c.addr (c.units - nu)).setSize (c.back 8 nu).addr nu with freep := a.addr } =
      h') :
    ∃ holes', Ok base h' holes' (c.back 8 nu :: live) ∧ Spares base holes h h' := by
  have hk' : ⟨base, 0⟩ :: holes = (l₁ ++ [a]) ++ c :: l₂ := by simp [hk]
  have hc : c ∈ holes := mem_holes hk List.mem_cons_self
  obtain ⟨hcbase, hc8, hcbrk⟩ := ok.bounds (List.mem_append_left live hc)
  have hbrk := ok.brk
  obtain ⟨r₁, r₂⟩ := rep_append.1 (hk' ▸ ok.rep)
  -- the end of the block lies behind the header of the block
  have hback : c.addr + 8 ≤ (c.back 8 nu).addr := by
    change c.addr + 8 ≤ c.addr + 8 * (c.units - nu)
    omega
  have hend : (c.back 8 nu).addr + 8 ≤ c.lim 8 := (lim_back hlt.le).symm ▸ addr_add_le_lim hnu
  have hunits : c.units < 2 ^ 32 := by
    rw [lim] at hcbrk
    omega
  have hmem : ∀ x, (x < c.addr ∨ c.addr + 8 ≤ x) →
    (x < (c.back 8 nu).addr ∨ (c.back 8 nu).addr + 8 ≤ x) →
      h'.mem x = h.mem x := fun x hx hx' => by
    rw [← hh]
    exact (Heap.mem_setSize hx').trans (Heap.mem_setSize hx)
  have hbehind : ∀ d ∈ l₂, c.lim 8 < d.addr := fun d hd =>
    (List.pairwise_cons.1 (List.pairwise_append.1 (hk' ▸ ok.separated)).2.1).1 d hd
  have hin : ∀ x, x ∈ c.bytes 8 → x ∈ cover 8 holes := fun x hx => ⟨c, hc, hx⟩
  have hspares : Spares base holes h h' := by
    intro x hx hxbase
    refine hmem x (ok.outside_header hk' hx hxbase) ?_
    by_contra hno
    exact hx (hin x ⟨by omega, by omega⟩)
  have hrep : Rep h' base ((l₁ ++ [a]) ++ c.front nu :: l₂) := by
    refine rep_append.2 ⟨r₁.congr fun d hd x _ hx => ?_,
      Rep.cons (r₂.of_cons.congr fun d hd x hx _ => ?_) ?_ ?_⟩
    · have := ok.header_le hk' hd
      exact hmem x (by omega) (by omega)
    · have := hbehind d hd
      exact hmem x (by omega) (by omega)
    · rw [← ok.ptr_eq hk', ← hh]
      exact (Heap.ptr_setSize (.inr hback)).trans Heap.ptr_setSize_self
    · have hfront : (h.setSize c.addr (c.units - nu)).size c.addr = c.units - nu :=
        Heap.size_setSize_self (by omega)
      rw [← hh]
      refine (Heap.size_congr (h := h.setSize c.addr (c.units - nu)) fun x hx hx8 => ?_).trans
        hfront
      have hx8 : x < c.addr + 8 := hx8
      exact Heap.mem_setSize (by omega)
  obtain ⟨holes', hnodes, hsub⟩ := exists_holes hk (c.front nu :: l₂)
  have hnodes' : (l₁ ++ [a]) ++ c.front nu :: l₂ = ⟨base, 0⟩ :: holes' := by simpa using hnodes
  have hsep : Separated 8 ((l₁ ++ [a]) ++ c.front nu :: l₂) := (hk' ▸ ok.separated).front hlt.le
  have hcover : ∀ x, x ∈ cover 8 holes ↔ x ∈ cover 8 holes' ∨ x ∈ (c.back 8 nu).bytes 8 := by
    intro x
    rw [← mem_cover_base base (l := holes'), ← hnodes', ← mem_cover_base base (l := holes), hk']
    simp only [mem_cover_append, mem_cover_cons, mem_bytes_cut hlt.le]
    tauto
  have hno : ∀ x ∈ (c.back 8 nu).bytes 8, x ∉ cover 8 holes' := by
    intro x hx hxh
    have hother := (hk' ▸ ok.separated).not_mem_cover ((mem_bytes_cut hlt.le).2 (.inr hx))
    rw [← mem_cover_base base (l := holes'), ← hnodes'] at hxh
    simp only [mem_cover_append, mem_cover_cons] at hxh hother
    have hfront : x ∉ (c.front nu).bytes 8 := fun hxf => absurd hxf.2 (not_lt.2 hx.1)
    tauto
  refine ⟨holes', ok.give hspares (by rw [← hh]; rfl) (by rw [← hh]; rfl) (hnodes' ▸ hrep)
    (hnodes' ▸ hsep) (fun d hd => ?_) ?_ hnu ?_ hcover hno, hspares⟩
  · rcases hsub d hd with hd | hd
    · exact ok.pos d (List.mem_append_left live hd)
    · rcases List.mem_cons.1 hd with rfl | hd
      · exact Nat.sub_pos_of_lt hlt
      · exact ok.pos d (List.mem_append_left live (mem_holes hk (List.mem_cons_of_mem c hd)))
  · have hmem : a.addr ∈ (⟨base, 0⟩ :: holes' : List Extent).map addr := by
      rw [← hnodes']
      simp
    rw [← hh]
    exact hmem
  · rw [← hh]
    exact Heap.size_setSize_self (hlt.trans hunits)

/-- `malloc` has found a block that is large enough. -/
lemma take (ok : Ok base h holes live) (hk : ⟨base, 0⟩ :: holes = l₁ ++ a :: c :: l₂) (hnu : 0 < nu)
    (hle : nu ≤ c.units) :
    ∃ b holes' h', Umalloc.take nu a.addr c.addr h = (b.addr + 8, h') ∧ b.units = nu ∧
    Ok base h' holes' (b :: live) ∧
      Spares base holes h h' ∧ h'.calls = h.calls := by
  have hc : c ∈ holes := mem_holes hk List.mem_cons_self
  obtain ⟨-, hc8, hcbrk⟩ := ok.bounds (List.mem_append_left live hc)
  have hbrk := ok.brk
  have hsize : h.size c.addr = c.units := ok.rep.size c (List.mem_cons_of_mem _ hc)
  rw [Umalloc.take, hsize]
  by_cases heq : c.units = nu
  · obtain ⟨holes', ok', hs⟩ := ok.take_all hk
    refine ⟨c, holes', _, ?_, heq, ok', hs, rfl⟩
    rw [if_pos heq, plus_eq (by omega)]
  · have hlt : nu < c.units := lt_of_le_of_ne hle (Ne.symm heq)
    have hend : (c.back 8 nu).addr + 8 ≤ c.lim 8 := (lim_back hlt.le).symm ▸ addr_add_le_lim hnu
    obtain ⟨holes', ok', hs⟩ := ok.take_part hk hnu hlt rfl
    refine ⟨c.back 8 nu, holes', _, ?_, rfl, ok', hs, rfl⟩
    have hunits : c.units - nu < 2 ^ 32 := by
      rw [lim] at hcbrk
      omega
    have hplus : plus c.addr (c.units - nu) = (c.back 8 nu).addr :=
      plus_eq (by change (c.back 8 nu).addr < 2 ^ 32; omega)
    rw [if_neg heq]
    simp only [Heap.size_setSize_self hunits, hplus, plus_eq (show (c.back 8 nu).addr + 8 * 1 <
      2 ^ 32 by omega)]

end Ok

/-! ## Searching the list -/

/-- The loop goes over nodes whose blocks are too small. -/
lemma mallocLoop_skip {C : List ℕ} (hleads : Leads h.ptr (p :: C) q)
    (hsmall : ∀ y ∈ C, h.size y < nu ∧ y ≠ h.freep) (n : ℕ) :
    mallocLoop sbrk nu (n + C.length) p (h.ptr p) h = mallocLoop sbrk nu n (C.getLastD p) q h := by
  induction C generalizing p with
  | nil =>
      rw [hleads.1]
      rfl
  | cons y C ih =>
      obtain ⟨hy, hne⟩ := hsmall y List.mem_cons_self
      have hptr : h.ptr p = y := hleads.1
      rw [List.length_cons, ← Nat.add_assoc, hptr, mallocLoop, if_neg (not_le.2 hy), if_neg hne,
        List.getLastD_cons]
      exact ih hleads.2 fun z hz => hsmall z (List.mem_cons_of_mem y hz)

namespace Ok

/-- No two nodes have the same address. -/
lemma nodup (ok : Ok base h holes live) : (base :: holes.map addr).Nodup := by
  have hlt : ((⟨base, 0⟩ :: holes : List Extent).map addr).Pairwise (· < ·) :=
    List.pairwise_map.2 (ok.separated.imp fun h => addr_le_lim.trans_lt h)
  exact hlt.imp fun h => h.ne

/-- The loop comes to a block that is large enough, or to `freep` if there is none. -/
lemma search (ok : Ok base h holes live) (sbrk : Sbrk) (nu : ℕ) :
    ∃ p y k, k ≤ holes.length ∧ p ∈ base :: holes.map addr ∧ y ∈ base :: holes.map addr ∧
    h.ptr p = y ∧
      (nu ≤ h.size y ∨ y = h.freep ∧ ∀ z ∈ base :: holes.map addr, h.size z < nu) ∧
      ∀ n, mallocLoop sbrk nu (n + k) h.freep (h.ptr h.freep) h = mallocLoop sbrk nu n p y h := by
  obtain ⟨m₁, m₂, hm⟩ := List.append_of_mem ok.freep
  have hcircle : Leads h.ptr (h.freep :: (m₂ ++ m₁)) h.freep := by
    refine Leads.rotate (b := base) ?_
    rw [← hm]
    exact ok.rep.leads
  have hmem : ∀ z, z ∈ h.freep :: (m₂ ++ m₁) ↔ z ∈ base :: holes.map addr := by
    intro z
    rw [hm]
    simp only [List.mem_cons, List.mem_append]
    tauto
  have hne : ∀ z ∈ m₂ ++ m₁, z ≠ h.freep := by
    have hnodup := hm ▸ ok.nodup
    have hno : h.freep ∉ m₂ ++ m₁ := by
      have := (List.perm_middle.nodup_iff.1 hnodup)
      rw [List.nodup_cons] at this
      simpa [or_comm] using this.1
    exact fun z hz hzs => hno (hzs ▸ hz)
  have hlen : (m₂ ++ m₁).length = holes.length := by
    have := congrArg List.length hm
    simp only [List.length_cons, List.length_append, List.length_map] at this ⊢
    omega
  generalize m₂ ++ m₁ = C at *
  by_cases hall : ∀ y ∈ C, h.size y < nu
  · refine ⟨C.getLastD h.freep, h.freep, C.length, hlen.le, (hmem _).1 ?_, ok.freep,
      hcircle.next_getLast, ?_,
      mallocLoop_skip hcircle fun y hy => ⟨hall y hy, hne y hy⟩⟩
    · exact List.getLastD_mem_cons
    · by_cases hs : nu ≤ h.size h.freep
      · exact .inl hs
      · refine .inr ⟨rfl, fun z hz => ?_⟩
        rcases List.mem_cons.1 ((hmem z).2 hz) with rfl | hz
        · exact not_le.1 hs
        · exact hall z hz
  · push Not at hall
    obtain ⟨y₀, hy₀, hfit₀⟩ := hall
    obtain ⟨y, hfind⟩ := Option.isSome_iff_exists.1
      (List.find?_isSome.2 ⟨y₀, hy₀, decide_eq_true hfit₀⟩ : (C.find? fun y =>
      decide (nu ≤ h.size y)).isSome)
    obtain ⟨hfit, u, v, rfl, hsmall⟩ := List.find?_eq_some_iff_append.1 hfind
    have hu : ∀ z ∈ u, h.size z < nu := fun z hz => by simpa using hsmall z hz
    have hleads : Leads h.ptr (h.freep :: u) y := by
      rw [← List.cons_append] at hcircle
      exact (leads_append.1 hcircle).1
    refine ⟨u.getLastD h.freep, y, u.length, ?_, (hmem _).1 ?_, (hmem y).1 (by simp),
      hleads.next_getLast,
      .inl (of_decide_eq_true hfit), mallocLoop_skip hleads fun z hz =>
      ⟨hu z hz, hne z (by simp [hz])⟩⟩
    · rw [← hlen, List.length_append]
      omega
    · rw [← List.cons_append]
      exact List.mem_append_left _ List.getLastD_mem_cons

/-- The block that the loop has come to, and the node in front of it. -/
lemma exists_block (ok : Ok base h holes live) (hnu : 0 < nu) (hp : p ∈ base :: holes.map addr)
    (hy : q ∈ base :: holes.map addr) (hptr : h.ptr p = q) (hfit : nu ≤ h.size q) :
    ∃ l₁ a c l₂, ⟨base, 0⟩ :: holes = l₁ ++ a :: c :: l₂ ∧ a.addr = p ∧ c.addr = q ∧
    nu ≤ c.units := by
  rcases List.mem_cons.1 hy with rfl | hy
  · have hzero : h.size q = 0 := ok.rep.size ⟨q, 0⟩ List.mem_cons_self
    omega
  · obtain ⟨c, hc, rfl⟩ := List.mem_map.1 hy
    obtain ⟨m, l₂, rfl⟩ := List.append_of_mem hc
    obtain ⟨l₁, a, hm⟩ := (List.eq_nil_or_concat (⟨base, 0⟩ :: m : List Extent)).resolve_left
      (by simp)
    have hk : ⟨base, 0⟩ :: (m ++ c :: l₂) = l₁ ++ a :: c :: l₂ := by
      rw [← List.cons_append, hm]
      simp
    have ha : a.addr ∈ base :: (m ++ c :: l₂).map addr := by
      have : a.addr ∈ (⟨base, 0⟩ :: (m ++ c :: l₂) : List Extent).map addr := by
        rw [hk]
        simp
      exact this
    have hnodup := List.nodup_cons.1 ok.nodup
    refine ⟨l₁, a, c, l₂, hk, ?_, rfl, ?_⟩
    · exact ok.rep.leads.inj hnodup.2 hnodup.1 ha hp ((ok.ptr_eq hk).trans hptr.symm)
    · rwa [← ok.rep.size c (by simp)]

/-- The loop finds a block if there is one. -/
lemma mallocLoop_fit (ok : Ok base h holes live) (sbrk : Sbrk) (hnu : 0 < nu)
    (hfit : ∃ c ∈ holes, nu ≤ c.units) :
    ∃ b holes' h', (∀ n, holes.length + 1 ≤ n → mallocLoop sbrk nu n h.freep (h.ptr h.freep) h =
      some (b.addr + 8, h')) ∧
      b.units = nu ∧ Ok base h' holes' (b :: live) ∧ Spares base holes h h' ∧
      h'.calls = h.calls := by
  obtain ⟨p, y, k, hk, hp, hy, hptr, hstop, hloop⟩ := ok.search sbrk nu
  have hbig : nu ≤ h.size y := hstop.resolve_right fun ⟨_, hsmall⟩ => by
    obtain ⟨c, hc, hle⟩ := hfit
    have := hsmall c.addr (List.mem_cons_of_mem _ (List.mem_map_of_mem hc))
    rw [ok.rep.size c (List.mem_cons_of_mem _ hc)] at this
    omega
  obtain ⟨l₁, a, c, l₂, hsplit, rfl, rfl, hle⟩ := ok.exists_block hnu hp hy hptr hbig
  obtain ⟨b, holes', h', htake, hunits, ok', hs, hcalls⟩ := ok.take hsplit hnu hle
  refine ⟨b, holes', h', fun n hn => ?_, hunits, ok', hs, hcalls⟩
  obtain ⟨j, rfl⟩ : ∃ j, n = j + 1 + k := ⟨n - 1 - k, by omega⟩
  rw [hloop, mallocLoop, if_pos hbig, htake]

end Ok

/-! ## More memory -/

/-- A call of `sbrk` fails or returns memory that the process did not have. -/
def Fresh (sbrk : Sbrk) (amount brk : ℕ) : Prop :=
  brk ≤ (sbrk amount brk).2 ∧ (sbrk amount brk).2 < 2 ^ 32 ∧
    ((sbrk amount brk).1 ≠ failure → brk ≤ (sbrk amount brk).1 ∧ (sbrk amount brk).1 + amount ≤
    (sbrk amount brk).2)

lemma grain_pos : 0 < grain nu := by
  rw [grain]
  split <;> omega

lemma le_grain : nu ≤ grain nu := by
  rw [grain]
  split <;> omega

lemma mem_obtained_append {calls calls' : List Call} :
    x ∈ obtained (calls ++ calls') ↔ x ∈ obtained calls ∨ x ∈ obtained calls' := by
  change (∃ c ∈ calls ++ calls', _) ↔ (∃ c ∈ calls, _) ∨ ∃ c ∈ calls', _
  simp only [List.mem_append, or_and_right, exists_or]

namespace Ok

/-- The process grows without the allocator. -/
lemma setBrk {brk : ℕ} (ok : Ok base h holes live) (hle : h.brk ≤ brk) (hlt : brk < 2 ^ 32) :
    Ok base { h with brk := brk } holes live := by
  refine ⟨ok.base_pos, ok.rep.congr fun _ _ _ _ _ => rfl, ok.separated, ok.pos, fun x hx => ?_,
    ⟨ok.brk.1.trans hle, hlt⟩,
    ok.freep, ok.size, ok.apart, ok.unused, ok.whole⟩
  exact ⟨(ok.within x hx).1, (ok.within x hx).2.trans_le hle⟩

/-- New memory with a header, as if the client had it. -/
lemma addRegion (ok : Ok base h holes live) (hpos : 0 < a.units) (hlo : h.brk ≤ a.addr)
    (hhi : a.lim 8 ≤ q) (hq : q < 2 ^ 32) (hh : { { h with brk := q }.setSize a.addr a.units with
      calls := h.calls ++ [⟨a.units * 8, a.units, a.addr⟩] } = h') :
    Ok base h' holes (a :: live) := by
  have hmem : ∀ x < h.brk, h'.mem x = h.mem x := fun x hx => by
    rw [← hh]
    exact Heap.mem_setSize (.inl (hx.trans_le hlo))
  have hbrk : h'.brk = q := by
    rw [← hh]
    rfl
  have hcalls : h'.calls = h.calls ++ [⟨a.units * 8, a.units, a.addr⟩] := by
    rw [← hh]
  have hle : a.addr + 8 ≤ a.lim 8 := addr_add_le_lim hpos
  have hall : ∀ x, x ∈ cover 8 (holes ++ a :: live) ↔ x ∈ cover 8 (holes ++ live) ∨ x ∈
    a.bytes 8 := by
    intro x
    simp only [mem_cover_append, mem_cover_cons]
    tauto
  refine ⟨ok.base_pos, ok.rep.congr fun d hd x _ hx => hmem x ?_, ok.separated, fun d hd => ?_,
    fun x hx => ?_,
    ?_, ?_, List.forall_mem_cons.2 ⟨?_, fun d hd => ?_⟩, List.pairwise_cons.2
    ⟨fun d hd x hxa hxd => ?_, ok.apart⟩,
    List.forall_mem_cons.2 ⟨fun x hxa hxh => ?_, ok.unused⟩, fun x => ?_⟩
  · rcases List.mem_cons.1 hd with rfl | hd
    · exact hx.trans_le ok.brk.1
    · have := ok.bounds (List.mem_append_left live hd)
      omega
  · rcases List.mem_append.1 hd with hd | hd
    · exact ok.pos d (List.mem_append_left live hd)
    · rcases List.mem_cons.1 hd with rfl | hd
      · exact hpos
      · exact ok.pos d (List.mem_append_right holes hd)
  · rw [hbrk]
    rcases (hall x).1 hx with hx | hx
    · have := ok.within x hx
      omega
    · exact ⟨ok.brk.1.trans (hlo.trans hx.1), hx.2.trans_le hhi⟩
  · rw [hbrk]
    exact ⟨ok.brk.1.trans (hlo.trans (by omega)), hq⟩
  · rw [← hh]
    exact ok.freep
  · rw [← hh]
    refine Heap.size_setSize_self ?_
    rw [lim] at hhi
    omega
  · rw [← ok.size d hd]
    have := ok.bounds (List.mem_append_right holes hd)
    exact Heap.size_congr fun x _ hx => hmem x (by omega)
  · have := ok.within x ⟨d, List.mem_append_right holes hd, hxd⟩
    exact absurd (hlo.trans hxa.1) (not_le.2 this.2)
  · obtain ⟨d, hd, hxd⟩ := hxh
    have := ok.within x ⟨d, List.mem_append_left live hd, hxd⟩
    exact absurd (hlo.trans hxa.1) (not_le.2 this.2)
  · rw [hall, ok.whole, hcalls, mem_obtained_append]
    refine or_congr Iff.rfl ?_
    change _ ↔ ∃ c ∈ [_], _
    simp [bytes, lim, Nat.mul_comm]

/-- `morecore` fails, or it adds memory to the list, and then there is a block that is large
enough. -/
lemma morecore (ok : Ok base h holes live) (hamount : grain nu * 8 < 2 ^ 32)
    (hfresh : Fresh sbrk (grain nu * 8) h.brk) :
    ((sbrk (grain nu * 8) h.brk).1 = failure ∧ ∃ h', (∀ n, morecore sbrk n nu h = some (0, h')) ∧
      Ok base h' holes live ∧
      h'.mem = h.mem ∧ h'.calls = h.calls) ∨
    (sbrk (grain nu * 8) h.brk).1 ≠ failure ∧ ∃ h' holes',
      (∀ n, holes.length + 1 ≤ n → Umalloc.morecore sbrk n nu h = some (h'.freep, h')) ∧
      Ok base h' holes' live ∧ (∃ c ∈ holes', nu ≤ c.units) ∧
      h'.calls = h.calls ++ [⟨grain nu * 8, grain nu, (sbrk (grain nu * 8) h.brk).1⟩] ∧
      ∀ b ∈ live, ∀ x ∈ b.bytes 8, h'.mem x = h.mem x := by
  have hmod : grain nu * 8 % 2 ^ 32 = grain nu * 8 := Nat.mod_eq_of_lt hamount
  rw [Fresh] at hfresh
  obtain ⟨p, q, hr⟩ : ∃ p q, sbrk (grain nu * 8) h.brk = (p, q) := ⟨_, _, rfl⟩
  simp only [Umalloc.morecore, hmod, hr] at hfresh ⊢
  obtain ⟨hle, hlt, hnew⟩ := hfresh
  by_cases hfail : p = failure
  · exact .inl ⟨hfail, _, fun n => if_pos hfail, ok.setBrk hle hlt, rfl, rfl⟩
  · right
    obtain ⟨hlo, hhi⟩ := hnew hfail
    have halim : (Extent.mk p (grain nu)).lim 8 ≤ q := by
      rw [lim, Nat.mul_comm]
      exact hhi
    have ha8 : p + 8 ≤ (Extent.mk p (grain nu)).lim 8 :=
      addr_add_le_lim (a := ⟨p, grain nu⟩) grain_pos
    have hplus : plus p 1 = p + 8 := plus_eq (by omega)
    have ok₁ := ok.addRegion (a := ⟨p, grain nu⟩) grain_pos hlo halim hlt rfl
    obtain ⟨h', holes', hfree, ok', hcover, hs, -, hcalls⟩ := ok₁.free List.mem_cons_self
    rw [List.erase_cons_head] at ok'
    have hfit : ∃ c ∈ (⟨base, 0⟩ :: holes' : List Extent), grain nu ≤ c.units :=
      ok'.separated.exists_units_le (a := ⟨p, grain nu⟩) (by omega) grain_pos fun x hx =>
        (mem_cover_base base).2 ((hcover x).2 (.inr hx))
    refine ⟨hfail, h', holes', fun n hn => ?_, ok', ?_, hcalls, fun b hb x hx => ?_⟩
    · rw [if_neg hfail, hplus]
      exact congrArg (Option.map fun h => (h.freep, h)) (hfree n hn)
    · obtain ⟨c, hc, hle⟩ := hfit
      rcases List.mem_cons.1 hc with rfl | hc
      · exact absurd (grain_pos.trans_le hle) (lt_irrefl 0)
      · exact ⟨c, hc, le_grain.trans hle⟩
    · have hin := ok.within x ⟨b, List.mem_append_right holes hb, hx⟩
      rw [hs x (ok'.unused b hb x hx) (.inr hin.1)]
      exact Heap.mem_setSize (.inl (hin.2.trans_le hlo))

/-- `freep` is not the null pointer. -/
lemma freep_ne_zero (ok : Ok base h holes live) : h.freep ≠ 0 := by
  have hbase := ok.base_pos
  rcases List.mem_cons.1 ok.freep with hs | hs
  · omega
  · obtain ⟨b, hb, hbs⟩ := List.mem_map.1 hs
    have := (ok.bounds (List.mem_append_left live hb)).1
    omega

/-- Without a block that is large enough the loop comes to `freep` and calls `morecore`. -/
lemma mallocLoop_more (ok : Ok base h holes live) (sbrk : Sbrk) (hnu : 0 < nu)
    (hfit : ∀ c ∈ holes, c.units < nu) :
    ∃ k, k ≤ holes.length ∧ ∀ n, mallocLoop sbrk nu (n + 1 + k) h.freep (h.ptr h.freep) h =
      (Umalloc.morecore sbrk n nu h).bind fun r =>
        if r.1 = 0 then some (0, r.2) else mallocLoop sbrk nu n r.1 (r.2.ptr r.1) r.2 := by
  obtain ⟨p, y, k, hk, hp, hy, hptr, hstop, hloop⟩ := ok.search sbrk nu
  have hsmall : ¬ nu ≤ h.size y := fun hbig => by
    obtain ⟨l₁, a, c, l₂, hsplit, rfl, rfl, hle⟩ := ok.exists_block hnu hp hy hptr hbig
    exact absurd hle (not_le.2 (hfit c (mem_holes hsplit List.mem_cons_self)))
  obtain ⟨rfl, -⟩ := hstop.resolve_left hsmall
  refine ⟨k, hk, fun n => ?_⟩
  rw [hloop, mallocLoop, if_neg hsmall, if_pos rfl]
  cases Umalloc.morecore sbrk n nu h <;> rfl

/-- The loop of `malloc` ends with the null pointer because no block is large enough and `sbrk` has
failed, or with a block. -/
lemma mallocLoop (ok : Ok base h holes live) (hnu : 0 < nu) (hamount : grain nu * 8 < 2 ^ 32)
    (hfresh : Fresh sbrk (grain nu * 8) h.brk) :
    ((sbrk (grain nu * 8) h.brk).1 = failure ∧ (∀ c ∈ holes, c.units < nu) ∧ ∃ N h', (∀ n, N ≤ n →
        mallocLoop sbrk nu n h.freep (h.ptr h.freep) h = some (0, h')) ∧ Ok base h' holes live ∧
        h'.mem = h.mem ∧ h'.calls = h.calls) ∨
    ∃ N b h' holes' calls, (∀ n, N ≤ n → Umalloc.mallocLoop sbrk nu n h.freep (h.ptr h.freep) h =
      some (b.addr + 8, h')) ∧
      b.units = nu ∧ Ok base h' holes' (b :: live) ∧ h'.calls = h.calls ++ calls ∧
      (calls = [] ∨ (sbrk (grain nu * 8) h.brk).1 ≠ failure ∧
        calls = [⟨grain nu * 8, grain nu, (sbrk (grain nu * 8) h.brk).1⟩]) ∧
      ∀ d ∈ live, ∀ x ∈ d.bytes 8, h'.mem x = h.mem x := by
  have hspared : ∀ {g g' : Heap} {l : List Extent}, Ok base g l live → Spares base l g g' →
      ∀ d ∈ live, ∀ x ∈ d.bytes 8, g'.mem x = g.mem x := fun okg hs d hd x hx =>
    hs x (okg.unused d hd x hx) (.inr (okg.within x ⟨d, List.mem_append_right _ hd, hx⟩).1)
  by_cases hfit : ∃ c ∈ holes, nu ≤ c.units
  · obtain ⟨b, holes', h', hloop, hunits, ok', hs, hcalls⟩ := ok.mallocLoop_fit sbrk hnu hfit
    exact .inr ⟨_, b, h', holes', [], hloop, hunits, ok', by simpa using hcalls,
      .inl rfl, hspared ok hs⟩
  · have hnone : ∀ c ∈ holes, c.units < nu := fun c hc => not_le.1 fun hle => hfit ⟨c, hc, hle⟩
    obtain ⟨k, hk, hloop⟩ := ok.mallocLoop_more sbrk hnu hnone
    rcases ok.morecore hamount hfresh with ⟨hfail, h', hmore, ok', hmem, hcalls⟩ |
      ⟨hgot, h₁, holes₁, hmore, ok₁, hfit₁, hcalls₁, hmem₁⟩
    · refine .inl ⟨hfail, hnone, k + 1, h', fun n hn => ?_, ok', hmem, hcalls⟩
      obtain ⟨j, rfl⟩ : ∃ j, n = j + 1 + k := ⟨n - 1 - k, by omega⟩
      rw [hloop, hmore]
      rfl
    · obtain ⟨b, holes', h', hloop', hunits, ok', hs, hcalls⟩ := ok₁.mallocLoop_fit sbrk hnu hfit₁
      refine .inr ⟨k + holes.length + holes₁.length + 2, b, h', holes', _,
        fun n hn => ?_, hunits, ok',
        hcalls.trans hcalls₁, .inr ⟨hgot, rfl⟩,
        fun d hd x hx => (hspared ok₁ hs d hd x hx).trans (hmem₁ d hd x hx)⟩
      obtain ⟨j, rfl⟩ : ∃ j, n = j + 1 + k := ⟨n - 1 - k, by omega⟩
      rw [hloop, hmore j (by omega)]
      exact (if_neg ok₁.freep_ne_zero).trans (hloop' j (by omega))

end Ok

end Xv6.Umalloc
