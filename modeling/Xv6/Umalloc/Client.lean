import Xv6.Umalloc.Malloc
import Mathlib.Logic.Relation

/-!
# Clients of the allocator

A client calls `malloc` and frees blocks that it has, writes to its blocks and to memory that is not
the allocator's, and lets its process grow.  In every state that is reached the heap is consistent,
and the next call of `malloc` or `free` returns and leaves the blocks of the client alone.
-/

namespace Xv6.Umalloc

open Lib Lib.Extent

variable {base nu n m p nbytes : ℕ} {h h' : Heap} {sbrk : Sbrk} {b : Extent}
    {holes live : List Extent}

/-! ## Bounds on the iterations -/

lemma freeLoop_mono {bp r : ℕ} (hrun : freeLoop h bp n p = some r) (hnm : n ≤ m) :
    freeLoop h bp m p = some r := by
  induction n generalizing m p with
  | zero => exact absurd hrun (by simp [freeLoop])
  | succ n ih =>
      obtain ⟨m, rfl⟩ : ∃ j, m = j + 1 := ⟨m - 1, by omega⟩
      rw [freeLoop] at hrun ⊢
      split_ifs at hrun ⊢
      · exact hrun
      · exact hrun
      · exact ih hrun (by omega)

lemma free_mono {ap : ℕ} (hrun : free n ap h = some h') (hnm : n ≤ m) : free m ap h = some h' := by
  rw [free, Option.map_eq_some_iff] at hrun ⊢
  obtain ⟨r, hr, rfl⟩ := hrun
  exact ⟨r, freeLoop_mono hr hnm, rfl⟩

lemma morecore_mono {r : ℕ × Heap} (hrun : morecore sbrk n nu h = some r) (hnm : n ≤ m) :
    morecore sbrk m nu h = some r := by
  rw [morecore] at hrun ⊢
  generalize sbrk (grain nu * 8 % 2 ^ 32) h.brk = t at hrun ⊢
  obtain ⟨p, brk⟩ := t
  dsimp only at hrun ⊢
  split_ifs at hrun ⊢
  · exact hrun
  · rw [Option.map_eq_some_iff] at hrun ⊢
    obtain ⟨h₁, hfree, rfl⟩ := hrun
    exact ⟨h₁, free_mono hfree hnm, rfl⟩

lemma mallocLoop_mono {q : ℕ} {r : ℕ × Heap} (hrun : mallocLoop sbrk nu n p q h = some r)
    (hnm : n ≤ m) :
    mallocLoop sbrk nu m p q h = some r := by
  induction n generalizing m p q h with
  | zero => exact absurd hrun (by simp [mallocLoop])
  | succ n ih =>
      obtain ⟨m, rfl⟩ : ∃ j, m = j + 1 := ⟨m - 1, by omega⟩
      have hnm : n ≤ m := by omega
      rw [mallocLoop] at hrun ⊢
      split_ifs at hrun ⊢
      · exact hrun
      · cases hmore : morecore sbrk n nu h with
        | none =>
            rw [hmore] at hrun
            exact absurd hrun (by simp)
        | some t =>
            rw [hmore] at hrun
            rw [morecore_mono hmore hnm]
            obtain ⟨p', h₁⟩ := t
            dsimp only at hrun ⊢
            split_ifs at hrun ⊢
            · exact hrun
            · exact ih hrun hnm
      · exact ih hrun hnm

/-! ## Runs -/

/-- A client: the memory, and the blocks that it has got from `malloc` and not freed. -/
structure Client where
  heap : Heap
  live : List Extent

/-- Neither the number of units nor the argument of `sbrk` wraps around. -/
def Small (nbytes : ℕ) : Prop := nbytes + 8 - 1 < 2 ^ 32 ∧ grain (nunits nbytes) * 8 < 2 ^ 32

/-- The client may write to the byte: it is in one of its blocks behind the header, or not in the
memory of the allocator. -/
def Client.Owns (base : ℕ) (s : Client) (x : ℕ) : Prop :=
  (∃ b ∈ s.live, b.addr + 8 ≤ x ∧ x < b.lim 8) ∨ x ∉ obtained s.heap.calls ∧
    (x < base ∨ base + 8 ≤ x)

/-- What a client does. -/
inductive Step (base : ℕ) (s : Client) : Client → Prop
  | malloc {sbrk : Sbrk} {n nbytes p : ℕ} {h' : Heap} (hsmall : Small nbytes)
      (hfresh : Fresh sbrk (grain (nunits nbytes) * 8) s.heap.brk)
      (hrun : malloc base sbrk n nbytes s.heap = some (p, h')) :
      Step base s ⟨h', if p = 0 then s.live else ⟨header p, h'.size (header p)⟩ :: s.live⟩
  | free {n : ℕ} {b : Extent} {h' : Heap} (hb : b ∈ s.live)
    (hrun : free n (b.addr + 8) s.heap = some h') :
      Step base s ⟨h', s.live.erase b⟩
  | store {x : ℕ} {v : UInt8} (hx : s.Owns base x) :
      Step base s ⟨{ s.heap with mem := Function.update s.heap.mem x v }, s.live⟩
  | grow {brk : ℕ} (hle : s.heap.brk ≤ brk) (hlt : brk < 2 ^ 32) :
  Step base s ⟨{ s.heap with brk := brk }, s.live⟩

/-- A client that has not called `malloc` yet. -/
structure Client.Initial (base : ℕ) (s : Client) : Prop where
  base_pos : 0 < base
  brk : base + 8 ≤ s.heap.brk ∧ s.heap.brk < 2 ^ 32
  freep : s.heap.freep = 0
  calls : s.heap.calls = []
  live : s.live = []

/-- The states that clients reach. -/
def Reached (base : ℕ) (s : Client) : Prop := ∃ s₀ : Client, s₀.Initial base ∧
    Relation.ReflTransGen (Step base) s₀ s

/-- Before the first call of `malloc`, or with a heap in order. -/
def Client.Inv (base : ℕ) (s : Client) :
    Prop := s.Initial base ∨ ∃ holes, Ok base s.heap holes s.live

variable {s s' : Client}

/-- The first lines of `malloc` make the list if there is none. -/
lemma Client.Inv.start (i : s.Inv base) : ∃ holes, Ok base (start base s.heap) holes s.live ∧
    (start base s.heap).brk = s.heap.brk ∧ (start base s.heap).calls = s.heap.calls ∧
    ∀ b ∈ s.live, ∀ x ∈ b.bytes 8, (start base s.heap).mem x = s.heap.mem x := by
  rcases i with i | ⟨holes, ok⟩
  · have hlt : base < 2 ^ 32 := by
      have := i.brk
      omega
    have hstart : Umalloc.start base s.heap =
      ({ s.heap with freep := base }.setPtr base base).setSize base 0 :=
      if_pos i.freep
    have hptr : (Umalloc.start base s.heap).ptr base = base := by
      rw [hstart, Heap.ptr_setSize_self, Heap.ptr_setPtr_self hlt]
    have hsize : (Umalloc.start base s.heap).size base = 0 := by
      rw [hstart, Heap.size_setSize_self (by omega)]
    have hrest : (Umalloc.start base s.heap).brk = s.heap.brk ∧
      (Umalloc.start base s.heap).calls = s.heap.calls ∧
        (Umalloc.start base s.heap).freep = base := by
      rw [hstart]
      exact ⟨rfl, rfl, rfl⟩
    obtain ⟨hbrk, hcalls, hfreep⟩ := hrest
    have hnone : ∀ x, x ∉ cover 8 ([] : List Extent) := fun x ⟨b, hb, _⟩ => absurd hb
      List.not_mem_nil
    refine ⟨[], ?_, hbrk, hcalls, by simp [i.live]⟩
    rw [i.live]
    refine ⟨i.base_pos, ⟨⟨hptr, trivial⟩, by simpa using hsize⟩,
      List.pairwise_singleton _ _, by simp,
      fun x hx => absurd hx (hnone x), by rw [hbrk]; exact i.brk, by
      rw [hfreep]; exact List.mem_cons_self, by simp,
      List.Pairwise.nil, by simp, fun x => ?_⟩
    rw [hcalls, i.calls]
    exact ⟨fun hx => absurd hx (hnone x), fun ⟨c, hc, _⟩ => absurd hc List.not_mem_nil⟩
  · refine ⟨holes, ?_⟩
    rw [Umalloc.start, if_neg ok.freep_ne_zero]
    exact ⟨ok, rfl, rfl, fun _ _ _ _ => rfl⟩

lemma nunits_pos : 0 < nunits nbytes := Nat.succ_pos _

/-- A block of `nunits nbytes` units has `nbytes` bytes behind its header. -/
lemma Small.le (hs : Small nbytes) : nbytes ≤ 8 * (nunits nbytes - 1) := by
  have hmod : (nbytes + 8 - 1) % 2 ^ 32 = nbytes + 8 - 1 := Nat.mod_eq_of_lt hs.1
  rw [nunits, hmod]
  omega

/-- `malloc` in a state that is reached. -/
lemma Client.Inv.malloc (i : s.Inv base) (hamount : grain (nunits nbytes) * 8 < 2 ^ 32)
    (hfresh : Fresh sbrk (grain (nunits nbytes) * 8) s.heap.brk) :
    ((sbrk (grain (nunits nbytes) * 8) s.heap.brk).1 = failure ∧ ∃ N h' holes, (∀ n, N ≤ n →
        malloc base sbrk n nbytes s.heap = some (0, h')) ∧ Ok base h' holes s.live ∧
        (∀ c ∈ holes, c.units < nunits nbytes) ∧ h'.calls = s.heap.calls ∧
        ∀ d ∈ s.live, ∀ x ∈ d.bytes 8, h'.mem x = s.heap.mem x) ∨
    ∃ N b h' holes calls, (∀ n, N ≤ n → Umalloc.malloc base sbrk n nbytes s.heap =
      some (b.addr + 8, h')) ∧
      b.units = nunits nbytes ∧ Ok base h' holes (b :: s.live) ∧ h'.calls = s.heap.calls ++ calls ∧
      (calls = [] ∨ (sbrk (grain (nunits nbytes) * 8) s.heap.brk).1 ≠ failure ∧
        calls = [⟨grain (nunits nbytes) * 8, grain (nunits nbytes),
          (sbrk (grain (nunits nbytes) * 8) s.heap.brk).1⟩]) ∧
      ∀ d ∈ s.live, ∀ x ∈ d.bytes 8, h'.mem x = s.heap.mem x := by
  obtain ⟨holes, ok, hbrk, hcalls, hmem⟩ := i.start
  rw [← hbrk] at hfresh ⊢
  rcases ok.mallocLoop nunits_pos hamount hfresh with
    ⟨hfail, hnone, N, h', hloop, ok', hmem', hcalls'⟩ |
    ⟨N, b, h', holes', calls, hloop, hunits, ok', hcalls', hnew, hmem'⟩
  · exact .inl ⟨hfail, N, h', holes, hloop, ok', hnone, hcalls'.trans hcalls,
      fun d hd x hx => by rw [hmem', hmem d hd x hx]⟩
  · exact .inr ⟨N, b, h', holes', calls, hloop, hunits, ok', hcalls ▸ hcalls', hnew,
      fun d hd x hx => (hmem' d hd x hx).trans (hmem d hd x hx)⟩

/-- A byte that the client owns is not in a header. -/
lemma Ok.not_header {x y : ℕ} (ok : Ok base h holes live) (hx : Client.Owns base ⟨h, live⟩ x)
    (hb : b ∈ (⟨base, 0⟩ :: holes) ++ live) (hlo : b.addr ≤ y) (hhi : y < b.addr + 8) : y ≠ x := by
  rintro rfl
  have hbytes : b ∈ holes ++ live → y ∈ b.bytes 8 := fun hb => ⟨hlo, by have := ok.bounds hb; omega⟩
  rcases hx with ⟨d, hd, hdlo, hdhi⟩ | ⟨hno, hybase⟩
  · have hyd : y ∈ d.bytes 8 := ⟨by omega, hdhi⟩
    rcases List.mem_cons.1 (List.cons_append ▸ hb : b ∈ ⟨base, 0⟩ :: (holes ++ live)) with rfl | hb
    · have := (ok.within y ⟨d, List.mem_append_right holes hd, hyd⟩).1
      exact absurd hhi (not_lt.2 this)
    · rcases List.mem_append.1 hb with hbh | hbl
      · exact ok.unused d hd y hyd ⟨b, hbh, hbytes hb⟩
      · by_cases hbd : b = d
        · subst hbd
          omega
        · exact ok.not_mem_of_ne hbl hd hbd (hbytes hb) hyd
  · rcases List.mem_cons.1 (List.cons_append ▸ hb : b ∈ ⟨base, 0⟩ :: (holes ++ live)) with rfl | hb
    · have hlo : base ≤ y := hlo
      have hhi : y < base + 8 := hhi
      omega
    · exact hno ((ok.whole y).1 ⟨b, hb, hbytes hb⟩)

/-- The client writes to a byte that it owns. -/
lemma Ok.store {x : ℕ} {v : UInt8} (ok : Ok base h holes live) (hx : Client.Owns base ⟨h, live⟩ x) :
    Ok base { h with mem := Function.update h.mem x v } holes live := by
  have hmem : ∀ b ∈ (⟨base, 0⟩ :: holes) ++ live, ∀ y, b.addr ≤ y → y < b.addr + 8 →
      Function.update h.mem x v y = h.mem y := fun b hb y hlo hhi =>
    Function.update_of_ne (ok.not_header hx hb hlo hhi) _ _
  refine ⟨ok.base_pos, ok.rep.congr fun b hb => hmem b (List.mem_append_left live hb), ok.separated,
    ok.pos, ok.within, ok.brk,
    ok.freep, fun b hb => ?_, ok.apart, ok.unused, ok.whole⟩
  rw [← ok.size b hb]
  exact Heap.size_congr (hmem b (List.mem_append_right _ hb))

/-- Every step keeps the heap in order. -/
lemma Client.Inv.step (i : s.Inv base) (hs : Step base s s') : s'.Inv base := by
  cases hs with
  | @malloc sbrk n nbytes p h' hsmall hfresh hrun =>
      rcases i.malloc hsmall.2 hfresh with ⟨-, N, h₁, holes, hmalloc, ok, -⟩ |
        ⟨N, b, h₁, holes, calls, hmalloc, -, ok, -⟩
      · obtain ⟨rfl, rfl⟩ : p = 0 ∧ h' = h₁ := by
          have := (mallocLoop_mono hrun (le_max_left n N)).symm.trans (hmalloc _ (le_max_right n N))
          simpa using this
        exact .inr ⟨holes, ok⟩
      · obtain ⟨rfl, rfl⟩ : p = b.addr + 8 ∧ h' = h₁ := by
          have := (mallocLoop_mono hrun (le_max_left n N)).symm.trans (hmalloc _ (le_max_right n N))
          simpa using this
        refine .inr ⟨holes, ?_⟩
        rw [if_neg (by omega), ok.header_add (List.mem_append_right holes List.mem_cons_self),
          ok.size b List.mem_cons_self]
        exact ok
  | @free n b h' hb hrun =>
      rcases i with i | ⟨holes, ok⟩
      · rw [i.live] at hb
        exact absurd hb List.not_mem_nil
      · obtain ⟨h₁, holes', hfree, ok', -⟩ := ok.free hb
        obtain rfl : h' = h₁ := by
          have := (free_mono hrun (le_max_left n _)).symm.trans (hfree _ (le_max_right n _))
          simpa using this
        exact .inr ⟨holes', ok'⟩
  | store hx =>
      rcases i with i | ⟨holes, ok⟩
      · exact .inl ⟨i.base_pos, i.brk, i.freep, i.calls, i.live⟩
      · exact .inr ⟨holes, ok.store hx⟩
  | grow hle hlt =>
      rcases i with i | ⟨holes, ok⟩
      · exact .inl ⟨i.base_pos, ⟨i.brk.1.trans hle, hlt⟩, i.freep, i.calls, i.live⟩
      · exact .inr ⟨holes, ok.setBrk hle hlt⟩

lemma Reached.inv (hs : Reached base s) : s.Inv base := by
  obtain ⟨s₀, hinit, hrun⟩ := hs
  induction hrun with
  | refl => exact .inl hinit
  | tail _ hstep ih => exact ih.step hstep

/-! ## Consistent heaps -/

/-- The free blocks `holes` are linked in a circle through `base` in the order of their addresses,
and no two of them touch.  Together with the blocks of the client they are the memory from
`sbrk`. -/
structure Consistent (base : ℕ) (h : Heap) (holes live : List Extent) : Prop where
  circle : Leads h.ptr (base :: holes.map addr) base
  increasing : (base :: holes.map addr).Pairwise (· < ·)
  freep : h.freep ∈ base :: holes.map addr
  size : ∀ b ∈ holes ++ live, 0 < b.units ∧ h.size b.addr = b.units
  coalesced : holes.Pairwise fun a b => a.lim 8 < b.addr
  disjoint : (holes ++ live).Pairwise fun a b => ∀ x ∈ a.bytes 8, x ∉ b.bytes 8
  partition : cover 8 (holes ++ live) = obtained h.calls

lemma Ok.consistent (ok : Ok base h holes live) : Consistent base h holes live where
  circle := ok.rep.1
  increasing := by
    have hlt : (⟨base, 0⟩ :: holes : List Extent).Pairwise fun a b => a.addr < b.addr :=
      ok.separated.imp fun hab => addr_le_lim.trans_lt hab
    exact List.pairwise_map.2 hlt
  freep := ok.freep
  size b hb := by
    refine ⟨ok.pos b hb, ?_⟩
    rcases List.mem_append.1 hb with hb | hb
    · exact ok.rep.2 b (List.mem_cons_of_mem _ hb)
    · exact ok.size b hb
  coalesced := List.Pairwise.of_cons ok.separated
  disjoint := by
    refine List.pairwise_append.2 ⟨?_, ok.apart, fun a ha b hb x hxa hxb => ok.unused b hb x
      hxb ⟨a, ha, hxa⟩⟩
    refine (List.Pairwise.of_cons ok.separated).imp fun hab x hxa hxb => ?_
    have := hxa.2
    have := hxb.1
    omega
  partition := Set.ext ok.whole

/-- The free bytes. -/
lemma Ok.mem_holes_iff {x : ℕ} (ok : Ok base h holes live) :
    x ∈ cover 8 holes ↔ x ∈ obtained h.calls ∧ x ∉ cover 8 live := by
  rw [← ok.whole, mem_cover_append]
  constructor
  · rintro hx
    exact ⟨.inl hx, fun ⟨b, hb, hxb⟩ => ok.unused b hb x hxb hx⟩
  · rintro ⟨hx, hno⟩
    exact hx.resolve_right hno

/-- In every state that a client reaches the heap is consistent.  The next call of `malloc` returns,
with the null pointer only if `sbrk` fails and otherwise with a block that is large enough and was
not in use; so does the next call of `free`.  Neither of them changes a byte of another block of the
client. -/
theorem heap_consistent (hs : Reached base s) :
    (s.Initial base ∨ ∃ holes, Consistent base s.heap holes s.live) ∧
    (∀ sbrk nbytes, Small nbytes → Fresh sbrk (grain (nunits nbytes) * 8) s.heap.brk →
      ∃ N p h', (∀ n, N ≤ n → malloc base sbrk n nbytes s.heap = some (p, h')) ∧
        (p = 0 ∧ (sbrk (grain (nunits nbytes) * 8) s.heap.brk).1 = failure ∨
          ∃ b : Extent, p = b.addr + 8 ∧ h'.size b.addr = b.units ∧ p + nbytes ≤ b.lim 8 ∧
            b.bytes 8 ⊆ obtained h'.calls ∧ ∀ d ∈ s.live, ∀ x ∈ b.bytes 8, x ∉ d.bytes 8) ∧
        ∀ d ∈ s.live, ∀ x ∈ d.bytes 8, h'.mem x = s.heap.mem x) ∧
    ∀ b ∈ s.live, ∃ N h', (∀ n, N ≤ n → free n (b.addr + 8) s.heap = some h') ∧
      ∀ d ∈ s.live.erase b, ∀ x ∈ d.bytes 8, h'.mem x = s.heap.mem x := by
  have i := hs.inv
  refine ⟨i.imp_right fun ⟨holes, ok⟩ => ⟨holes, ok.consistent⟩, fun sbrk nbytes hsmall hfresh =>
    ?_, fun b hb => ?_⟩
  · rcases i.malloc hsmall.2 hfresh with ⟨hfail, N, h', holes, hmalloc, -, -, -, hmem⟩ |
      ⟨N, b, h', holes, calls, hmalloc, hunits, ok, -, -, hmem⟩
    · exact ⟨N, 0, h', hmalloc, .inl ⟨rfl, hfail⟩, hmem⟩
    · have hle := hsmall.le
      have hpos : 0 < nunits nbytes := nunits_pos
      refine ⟨N, b.addr + 8, h', hmalloc, .inr ⟨b, rfl, ok.size b List.mem_cons_self, ?_,
        fun x hx => ?_, fun d hd => ?_⟩, hmem⟩
      · rw [lim, hunits]
        omega
      · exact (ok.whole x).1 ⟨b, List.mem_append_right _ List.mem_cons_self, hx⟩
      · exact List.rel_of_pairwise_cons ok.apart hd
  · rcases i with i | ⟨holes, ok⟩
    · rw [i.live] at hb
      exact absurd hb List.not_mem_nil
    · obtain ⟨h', holes', hfree, ok', -, hspares, -⟩ := ok.free hb
      refine ⟨_, h', hfree, fun d hd x hx => ?_⟩
      have hbase := (ok'.within x ⟨d, List.mem_append_right holes' hd, hx⟩).1
      exact hspares x (ok'.unused d hd x hx) (.inr hbase)

/-- A process of 16 kilobytes that has not called `malloc`. -/
def newClient : Client := ⟨⟨fun _ => 0, 0x4000, 0, []⟩, []⟩

lemma newClient_initial : newClient.Initial 0x1000 := ⟨by decide, by decide, rfl, rfl, rfl⟩

/-- What `sbrk` does when nothing fails. -/
lemma fresh_bump {amount brk : ℕ} (h : brk + amount < 2 ^ 32) :
    Fresh (fun amount brk => (brk, brk + amount)) amount brk :=
  ⟨Nat.le_add_right _ _, h, fun _ => ⟨le_rfl, le_rfl⟩⟩

/-- The first call of `malloc` in that process: the client has a block, and the heap is
consistent. -/
theorem heap_consistent_newClient :
    ∃ s, Reached 0x1000 s ∧ s.live ≠ [] ∧ ∃ holes, Consistent 0x1000 s.heap holes s.live := by
  have hsmall : Small 1 := ⟨by decide, by decide⟩
  have hfresh : Fresh (fun amount brk => (brk, brk + amount)) (grain (nunits 1) * 8)
    newClient.heap.brk :=
    fresh_bump (by decide)
  have hinit : Reached 0x1000 newClient := ⟨newClient, newClient_initial, .refl⟩
  obtain ⟨N, p, h', hmalloc, hp, -⟩ := (heap_consistent hinit).2.1 _ 1 hsmall hfresh
  rcases hp with ⟨-, hfail⟩ | ⟨b, rfl, -⟩
  · exact absurd hfail (by decide)
  · let s : Client := ⟨h', ⟨header (b.addr + 8), h'.size (header (b.addr + 8))⟩ :: newClient.live⟩
    have hs : Reached 0x1000 s :=
      ⟨newClient, newClient_initial, .single (.malloc hsmall hfresh (hmalloc N le_rfl))⟩
    refine ⟨s, hs, List.cons_ne_nil _ _, (heap_consistent hs).1.resolve_left fun i => ?_⟩
    exact List.cons_ne_nil _ _ i.live

/-- The free list does not depend on how the client got there: where the same bytes are free, it has
the same blocks. -/
theorem free_list_unique (hs : Reached base s) (hs' : Reached base s') (hfreep : s.heap.freep ≠ 0)
    (hfreep' : s'.heap.freep ≠ 0) (hfree : ∀ x, x ∈ obtained s.heap.calls ∧ x ∉ cover 8 s.live ↔
      x ∈ obtained s'.heap.calls ∧ x ∉ cover 8 s'.live) :
    ∃ holes, Consistent base s.heap holes s.live ∧ Consistent base s'.heap holes s'.live := by
  obtain ⟨holes, ok⟩ := hs.inv.resolve_left fun i => hfreep i.freep
  obtain ⟨holes', ok'⟩ := hs'.inv.resolve_left fun i => hfreep' i.freep
  obtain rfl : holes = holes' := by
    refine Separated.eq_of_cover (by decide) ok.separated.of_cons ok'.separated.of_cons
      (fun b hb => ok.pos b (List.mem_append_left _ hb))
      (fun b hb => ok'.pos b (List.mem_append_left _ hb)) fun x => ?_
    rw [ok.mem_holes_iff, ok'.mem_holes_iff, hfree]
  exact ⟨holes, ok.consistent, ok'.consistent⟩

/-- A block, and the process grows. -/
theorem free_list_unique_grown : ∃ s s' : Client, s.heap.brk ≠ s'.heap.brk ∧ s.live ≠ [] ∧
    ∃ holes, Consistent 0x1000 s.heap holes s.live ∧ Consistent 0x1000 s'.heap holes s'.live := by
  obtain ⟨⟨p, h'⟩, hrun, hend⟩ := (Option.any_eq_true _ _).1
    (show ((malloc 0x1000 (fun amount brk => (brk, brk + amount)) 4 1 newClient.heap).any fun r =>
    decide (r.1 ≠ 0 ∧ r.2.brk = 0xc000 ∧ r.2.freep ≠ 0)) = true by decide +kernel)
  obtain ⟨hp, hbrk, hfreep⟩ : p ≠ 0 ∧ h'.brk = 0xc000 ∧ h'.freep ≠ 0 := of_decide_eq_true hend
  have hstep := Step.malloc (s := newClient) ⟨by decide, by decide⟩ (fresh_bump (by decide)) hrun
  rw [if_neg hp] at hstep
  refine ⟨_, ⟨{ h' with brk := 0xc001 }, _⟩, ?_, List.cons_ne_nil _ _,
    free_list_unique ⟨_, newClient_initial, .single hstep⟩ ⟨_, newClient_initial,
    .tail (.single hstep) (.grow ?_ (by decide))⟩ hfreep hfreep fun x => Iff.rfl⟩ <;> simp [hbrk]

/-! ## Large requests -/

lemma bmod_of_lt {amount : ℕ} (h : amount < 2 ^ 31) : Int.bmod amount (2 ^ 32) = amount :=
  Int.bmod_eq_of_le (by omega) (by omega)

/-- `malloc` returns null or a pointer to `nbytes` bytes, and what it puts on the free list is not
more than the argument of `sbrk` as an `int`. -/
def Client.Served (base : ℕ) (enough : Bool) (nbytes : ℕ) (s : Client) : Prop :=
  ∃ N p h', (∀ n, N ≤ n → malloc base (sysSbrk enough) n nbytes s.heap = some (p, h')) ∧
    (p = 0 ∨ p + nbytes ≤ header p + 8 * h'.size (header p) ∧
      ∀ x, p ≤ x → x < p + nbytes → x ∈ obtained h'.calls) ∧
    ∃ calls, h'.calls = s.heap.calls ++ calls ∧
      ∀ c ∈ calls, (8 * c.units : ℤ) ≤ Int.bmod c.amount (2 ^ 32)

/-- The request is below `2 ^ 31`, with its header and rounded up; or no call of `sbrk` succeeds for
it.  A larger one asks for a negative amount, which is refused if it is the whole process.  From
`2 ^ 32 - 7` on the number of units wraps around to 1, and `sbrk` is asked for 4096 units if the
client has all the memory that there is. -/
def Client.Safe (enough : Bool) (nbytes : ℕ) (s : Client) : Prop :=
  nbytes + 16 ≤ 2 ^ 31 ∨
  nbytes + 8 ≤ 2 ^ 32 ∧ s.heap.brk + ((nbytes + 7) / 8 + 1) * 8 = 2 ^ 32 ∨
  2 ^ 32 < nbytes + 8 ∧ obtained s.heap.calls ⊆ cover 8 s.live ∧
    (enough = false ∨ KERNBASE ≤ s.heap.brk + 4096 * 8)

section Requests

variable {enough : Bool}

/-- The number of units, where it does not wrap around. -/
lemma nunits_eq (hn : nbytes + 8 ≤ 2 ^ 32) : nunits nbytes = (nbytes + 7) / 8 + 1 := by
  have hmod : (nbytes + 8 - 1) % 2 ^ 32 = nbytes + 7 := Nat.mod_eq_of_lt (by omega)
  rw [nunits, hmod]

/-- `malloc` returns null or the block that it should, if no call of `sbrk` for a negative amount
succeeds. -/
lemma Client.Inv.served (i : s.Inv base) (hn : nbytes + 8 ≤ 2 ^ 32)
    (hamount : grain (nunits nbytes) * 8 < 2 ^ 32)
    (hfresh : Fresh (sysSbrk enough) (grain (nunits nbytes) * 8) s.heap.brk)
    (hsign : grain (nunits nbytes) * 8 < 2 ^ 31 ∨
      (sysSbrk enough (grain (nunits nbytes) * 8) s.heap.brk).1 = failure) :
    s.Served base enough nbytes := by
  rcases i.malloc hamount hfresh with ⟨-, N, h', holes, hmalloc, -, -, hcalls, -⟩ |
    ⟨N, b, h', holes, calls, hmalloc, hunits, ok, hcalls, hnew, -⟩
  · exact ⟨N, 0, h', hmalloc, .inl rfl, [], by rw [hcalls, List.append_nil], by simp⟩
  · have heq := nunits_eq hn
    have hheader : header (b.addr + 8) = b.addr :=
      ok.header_add (List.mem_append_right holes List.mem_cons_self)
    refine ⟨N, b.addr + 8, h', hmalloc, .inr ⟨?_, fun x hlo hhi => ?_⟩, calls, hcalls,
      fun c hc => ?_⟩
    · rw [hheader, ok.size b List.mem_cons_self, hunits]
      omega
    · refine (ok.whole x).1 ⟨b, List.mem_append_right _ List.mem_cons_self, by omega, ?_⟩
      rw [lim, hunits]
      omega
    · rcases hnew with rfl | ⟨hgot, rfl⟩
      · exact absurd hc List.not_mem_nil
      · obtain rfl := List.mem_singleton.1 hc
        rw [bmod_of_lt (hsign.resolve_right hgot)]
        push_cast
        omega

end Requests

end Xv6.Umalloc
