import Xv6.Fs.ReadWrite

/-!
# Truncating an inode

`itrunc` frees the blocks of an inode place by place.  In between the bitmap no longer fits the
inodes; `Truncating` relates such a state to the one before, by the places that are done.
-/

namespace Xv6

open Lib FsState

variable {mode : Mode} {sb : Superblock} {s s₁ s₂ : FsState} {ino : ℕ → DInode} {unsaved : List ℕ}
  {e : InodeId} {x b k : ℕ} {v : DInode} {done done' : ℕ → Prop}

/-- From `s` to `s₁` the blocks in the places `done` of inode `x` have been freed, and the cached
copy of the inode has become `v`. -/
structure Truncating (sb : Superblock) (s : FsState) (ino : ℕ → DInode) (e : InodeId) (x : ℕ)
    (done : ℕ → Prop) (v : DInode) (s₁ : FsState) : Prop where
  mounted : Mounted sb s₁
  home : ∀ c, c < sb.ninodes / IPB + 3 ∨ sb.dataStart ≤ c → s₁.home c = s.home c
  bit : ∀ c < sb.size, bitOf sb s₁.home c = true ↔
    bitOf sb s.home c = true ∧ ∀ k, done k → own sb s.home ino (x, k) ≠ some c
  inode : s₁.inode = Function.update s.inode e { s.inode e with toDInode := v }
  file : s₁.file = s.file
  proc : s₁.proc = s.proc
  reading : s₁.seen.reading = s.seen.reading

namespace Truncating

lemma refl (c : Consistent sb s ino unsaved) (l : Live s e x) :
    Truncating sb s ino e x (fun _ => False) (ino x) s := by
  refine ⟨c.mounted, fun _ _ => rfl, fun c _ => by simp, ?_, rfl, rfl, rfl⟩
  rw [← c.cached.eq_of_live l]
  exact (Function.update_eq_self e s.inode).symm

/-- Places that hold no block may be counted as done or not. -/
lemma congr (t : Truncating sb s ino e x done v s₁)
    (h : ∀ k c, own sb s.home ino (x, k) = some c → (done' k ↔ done k)) :
    Truncating sb s ino e x done' v s₁ := by
  refine ⟨t.mounted, t.home, fun c hc => (t.bit c hc).trans (and_congr_right fun _ => ?_), t.inode,
    t.file, t.proc, t.reading⟩
  exact ⟨fun hd k hk hown => hd k ((h k c hown).1 hk) hown,
    fun hd k hk hown => hd k ((h k c hown).2 hk) hown⟩

lemma setHeld (t : Truncating sb s ino e x done v s₁) (bs : List ℕ) :
    Truncating sb s ino e x done v (s₁.setHeld bs) :=
  ⟨t.mounted.setHeld bs, t.home, t.bit, t.inode, t.file, t.proc, t.reading⟩

lemma self (t : Truncating sb s ino e x done v s₁) :
    s₁.inode e = { s.inode e with toDInode := v } := by
  rw [t.inode, Function.update_self]

lemma setInode (t : Truncating sb s ino e x done v s₁) (w : DInode) :
    Truncating sb s ino e x done w (s₁.setInode e { s₁.inode e with toDInode := w }) := by
  refine ⟨t.mounted.setInode _ _, t.home, t.bit, ?_, t.file, t.proc, t.reading⟩
  change Function.update s₁.inode e _ = _
  rw [t.self, t.inode]
  simp

end Truncating

namespace Safe

/-- Freeing the block in one more place. -/
lemma bfree_place {Q : Unit → FsState → Prop} (c : Consistent sb s ino unsaved)
    (t : Truncating sb s ino e x done v s₁) (hk : own sb s.home ino (x, k) = some b)
    (hnot : ¬ done k)
    (h : ∀ s₂, Truncating sb s ino e x (fun j => done j ∨ j = k) v s₂ → Q () s₂) :
    Safe sb mode (Fs.bfree ROOTDEV b) Q s₁ := by
  obtain ⟨⟨hlo, hhi⟩, hset⟩ := c.good.owns.held _ _ hk
  have hbm := sb.le_bblock b
  have hbm3 := sb.three_le_bblock b
  have hbmd := sb.bblock_lt_dataStart hhi
  -- the block is in no other place, so it has not been freed
  have hbit : bitOf sb s₁.home b = true := by
    refine (t.bit b hhi).2 ⟨hset, fun j hj hown => hnot ?_⟩
    obtain rfl : j = k := (Prod.mk.inj (c.good.owns.inj _ _ _ hown hk)).2
    exact hj
  refine bfree t.mounted hhi hbit fun s₂ w => h s₂ ⟨t.mounted.wrote w ?_, fun i hi => ?_,
    fun i hi => ?_, w.inode.trans t.inode, w.file.trans t.file, w.proc.trans t.proc,
    w.reading.trans t.reading⟩
  · exact Function.update_of_ne (by omega) _ _
  · rw [w.home, Function.update_of_ne (by omega)]
    exact t.home i hi
  · rw [w.home, bitOf_clearBit, Bool.and_eq_true, t.bit i hi, and_assoc]
    refine and_congr_right fun _ => ?_
    constructor
    · rintro ⟨hd, hne⟩ j (hj | rfl) hown
      · exact hd j hj hown
      · obtain rfl : b = i := Option.some.inj (hk.symm.trans hown)
        simp at hne
    · intro hd
      refine ⟨fun j hj => hd j (Or.inl hj), ?_⟩
      have hne : b ≠ i := by
        rintro rfl
        exact hd k (Or.inr rfl) hk
      simp [hne]

/-- The loop of `itrunc` over the direct blocks. -/
lemma itruncDirect {Q : Unit → FsState → Prop} {is : List ℕ} (c : Consistent sb s ino unsaved)
    (l : Live s e x) (his : ∀ i ∈ is, i < NDIRECT ∧ ¬ done i) (hnodup : is.Nodup)
    (t : Truncating sb s ino e x done v s₁) (hfields : { v with addrs := (ino x).addrs } = ino x)
    (hv : ∀ k ≤ NDIRECT, (done k → v.addr k = 0) ∧ (¬ done k → v.addr k = (ino x).addr k))
    (h : ∀ s₂ v', Truncating sb s ino e x (fun k => done k ∨ k ∈ is) v' s₂ →
      { v' with addrs := (ino x).addrs } = ino x →
      (∀ k ≤ NDIRECT, (done k ∨ k ∈ is → v'.addr k = 0) ∧
        (¬ (done k ∨ k ∈ is) → v'.addr k = (ino x).addr k)) → Q () s₂) :
    Safe sb mode (Fs.itruncDirect e is) Q s₁ := by
  have hD := NDIRECT_eq
  induction is generalizing s₁ v done with
  | nil => exact pure (h s₁ v (t.congr (by simp)) hfields (by simpa using hv))
  | cons i is ih =>
      obtain ⟨hi, hnot⟩ := his i (by simp)
      obtain ⟨hmem, hnodup⟩ := List.nodup_cons.1 hnodup
      have haddr := (hv i hi.le).2 hnot
      have hslot : slotOf s.home (ino x) i = (ino x).addr i := by rw [slotOf, if_pos hi.le]
      have hx := c.cached.lt_of_live l
      have hxt := c.cached.type_of_live l
      -- the rest of the loop, with place `i` done
      have hrest : ∀ s₂ v₂, Truncating sb s ino e x (fun k => done k ∨ k = i) v₂ s₂ →
          { v₂ with addrs := (ino x).addrs } = ino x →
          (∀ k ≤ NDIRECT, k ≠ i → v₂.addr k = v.addr k) →
          v₂.addr i = 0 → Safe sb mode (Fs.itruncDirect e is) Q s₂ := by
        intro s₂ v₂ t₂ ht₂ hother hzero
        refine ih (fun j hj => ⟨(his j (by simp [hj])).1, ?_⟩) hnodup t₂ ht₂ (fun k hk => ⟨?_, ?_⟩)
          fun s₃ v₃ t₃ ht₃ hv₃ => h s₃ v₃ (t₃.congr fun k _ _ => ?_) ht₃ fun k hk => ?_
        · rintro (hd | rfl)
          · exact (his j (by simp [hj])).2 hd
          · exact hmem hj
        · rintro (hd | rfl)
          · rw [hother k hk fun heq => hnot (heq ▸ hd)]
            exact (hv k hk).1 hd
          · exact hzero
        · intro hd
          rw [not_or] at hd
          rw [hother k hk hd.2]
          exact (hv k hk).2 hd.1
        · simp only [List.mem_cons, or_assoc]
        · simpa only [List.mem_cons, or_assoc] using hv₃ k hk
      rw [Fs.itruncDirect]
      refine seq (getInode ?_)
      rw [t.self]
      dsimp only
      by_cases hz : (ino x).addr i = 0
      · rw [if_neg (by simp [haddr, hz])]
        refine hrest s₁ v (t.congr fun k _ hown => ⟨fun hd => hd.resolve_right ?_, Or.inl⟩) hfields
          (fun _ _ _ => rfl) (haddr.trans hz)
        rintro rfl
        obtain ⟨-, -, hb, hb0⟩ := own_eq_some.1 hown
        exact hb0 (hb.symm.trans (hslot.trans hz))
      · rw [if_pos (by rwa [haddr]), haddr, c.cached.dev_of_live l]
        have hown : own sb s.home ino (x, i) = some ((ino x).addr i) :=
          own_eq_some.2 ⟨hx, hxt, hslot, hz⟩
        refine seq (bfree_place c t hown hnot fun s₂ t₂ => ?_)
        have hset := fun k => DInode.addr_setAddr (v := v) (j := k) hi.le
          (show 0 < 2 ^ 32 by decide)
        refine seq (setInode (hrest _ _ (t₂.setInode _) hfields (fun k _ hk => ?_) ?_))
        · rw [hset, if_neg hk]
        · rw [hset, if_pos rfl]

/-- The loop of `itrunc` over the entries of the indirect block, which has the contents `d`. -/
lemma itruncIndirect {Q : Unit → FsState → Prop} {js : List ℕ} {d : Block}
    (c : Consistent sb s ino unsaved) (l : Live s e x)
    (hd : ∀ j, d.get32 (4 * j) = slotOf s.home (ino x) (NDIRECT + 1 + j))
    (hjs : ∀ j ∈ js, ¬ done (NDIRECT + 1 + j)) (hnodup : js.Nodup)
    (t : Truncating sb s ino e x done v s₁)
    (h : ∀ s₂, Truncating sb s ino e x (fun k => done k ∨ ∃ j ∈ js, k = NDIRECT + 1 + j) v s₂ →
      Q () s₂) :
    Safe sb mode (Fs.itruncIndirect ROOTDEV d js) Q s₁ := by
  induction js generalizing s₁ done with
  | nil => exact pure (h s₁ (t.congr (by simp)))
  | cons j js ih =>
      obtain ⟨hmem, hnodup⟩ := List.nodup_cons.1 hnodup
      have hnot := hjs j (by simp)
      -- the rest of the loop, with entry `j` done
      have hrest : ∀ s₂, Truncating sb s ino e x (fun k => done k ∨ k = NDIRECT + 1 + j) v s₂ →
          Safe sb mode (Fs.itruncIndirect ROOTDEV d js) Q s₂ := by
        intro s₂ t₂
        refine ih (fun i hi => ?_) hnodup t₂ fun s₃ t₃ => h s₃ (t₃.congr fun k _ _ => ?_)
        · rintro (hdone | heq)
          · exact hjs i (by simp [hi]) hdone
          · obtain rfl : i = j := by omega
            exact hmem hi
        · simp only [List.mem_cons, exists_eq_or_imp, or_assoc]
      rw [Fs.itruncIndirect, hd]
      by_cases hz : slotOf s.home (ino x) (NDIRECT + 1 + j) = 0
      · rw [if_neg (by simp [hz])]
        refine hrest s₁ (t.congr fun k _ hown => ⟨fun hk => hk.resolve_right ?_, Or.inl⟩)
        rintro rfl
        obtain ⟨-, -, hb, hb0⟩ := own_eq_some.1 hown
        exact hb0 (hb.symm.trans hz)
      · rw [if_pos hz]
        refine seq (bfree_place c t ?_ hnot hrest)
        exact own_slotOf (c.cached.lt_of_live l) (c.cached.type_of_live l) hz

/-- The end of `itrunc`, when all blocks are freed. -/
lemma itruncEnd {Q : Unit → FsState → Prop} (c : Consistent sb s ino []) (l : Live s e x)
    (t : Truncating sb s ino e x done v s₁) (hfields : { v with addrs := (ino x).addrs } = ino x)
    (hdone : ∀ k b, own sb s.home ino (x, k) = some b → done k) (haddr : ∀ k, v.addr k = 0)
    (h : ∀ s' ino', Consistent sb s' ino' [] → Edited s e s' → Others sb s ino x s' ino' →
      { ino' x with addrs := (ino x).addrs, size := (ino x).size } = ino x →
      (∀ k, (ino' x).addr k = 0) →
      (∀ k b, own sb s.home ino (x, k) = some b → bitOf sb s'.home b = false) →
      (∀ b < sb.size, bitOf sb s'.home b = true → bitOf sb s.home b = true) → Q () s') :
    Safe sb mode (do
      let v ← Fs.getInode e
      Fs.setInode e { v.toDInode with size := 0 }
      Fs.iupdate e) Q s₁ := by
  have ht := c.cached.type_of_live l
  have htype : v.type = (ino x).type := by rw [← hfields]
  refine seq (getInode ?_)
  rw [t.self]
  refine seq (setInode ?_)
  have t₂ := t.setInode { v with size := 0 }
  generalize s₁.setInode e { s₁.inode e with toDInode := { v with size := 0 } } = s₂ at t₂ ⊢
  have hcached := c.cached.setInode l (v := { v with size := 0 }) (by rwa [← htype] at ht)
  have hinode : s₂.inode =
    (s.setInode e { s.inode e with toDInode := { v with size := 0 } }).inode :=
    t₂.inode
  have ed : Edited s e s₂ := ⟨⟨{ v with size := 0 }, by rw [c.cached.eq_of_live l]; exact htype,
    t₂.inode⟩, t₂.file, t₂.proc, t₂.reading⟩
  have c₂ : Consistent sb s₂ (Function.update ino x { v with size := 0 }) [x] := by
    refine ⟨t₂.mounted, ⟨?_, ?_, ?_, ?_, fun y hy hyx => ?_, ?_⟩, c.good.truncate c.mounted.sound
      (fun i hi _ => t₂.home i (Or.inr hi)) (fun i hi => (t₂.bit i hi).trans (and_congr_right
        fun _ => ⟨fun hk k hown => hk k (hdone k i hown) hown, fun hk k _ => hk k⟩)) haddr rfl⟩
    · rw [hinode]
      exact hcached.dev
    · rw [hinode]
      exact hcached.inum
    · rw [hinode]
      exact hcached.uniq
    · rw [hinode]
      exact hcached.valid
    · rw [← hcached.disk y hy hyx, dinodeAt, dinodeAt, t₂.home _ (Or.inl (sb.iblock_lt hy))]
      rfl
    · rw [hinode]
      exact hcached.cached
  refine iupdate_save c₂ (ed.live l) (by simp) fun s₃ c₃ w₃ hdata hbit => h s₃ _ c₃
    (ed.trans (.of_wrote w₃)) ⟨fun y hy => Function.update_of_ne hy _ _, fun y k b _ hown => ?_⟩ ?_
    (fun k => ?_) (fun k b hown => ?_) fun b hb => ?_
  · have hlo := (c.good.owns.held _ _ hown).1.1
    rw [hdata b hlo, t₂.home b (Or.inr hlo)]
  · rw [Function.update_self, ← hfields]
  · rw [Function.update_self]
    exact haddr k
  · rw [hbit, Bool.eq_false_iff, ne_eq, t₂.bit b (c.good.owns.held _ _ hown).1.2]
    exact fun hb => hb.2 k (hdone k b hown) hown
  · rw [hbit, t₂.bit b hb]
    exact And.left

/-- `itrunc` frees all blocks of the inode. -/
lemma itrunc {Q : Unit → FsState → Prop} (c : Consistent sb s ino []) (l : Live s e x)
    (h : ∀ s' ino', Consistent sb s' ino' [] → Edited s e s' → Others sb s ino x s' ino' →
      { ino' x with addrs := (ino x).addrs, size := (ino x).size } = ino x →
      (∀ k, (ino' x).addr k = 0) →
      (∀ k b, own sb s.home ino (x, k) = some b → bitOf sb s'.home b = false) →
      (∀ b < sb.size, bitOf sb s'.home b = true → bitOf sb s.home b = true) → Q () s') :
    Safe sb mode (Fs.itrunc e) Q s := by
  have hD := NDIRECT_eq
  have hx := c.cached.lt_of_live l
  have ht := c.cached.type_of_live l
  rw [Fs.itrunc]
  refine seq (itruncDirect c l (fun i hi => ⟨List.mem_range.1 hi, id⟩) List.nodup_range (.refl c l)
    rfl (by simp) fun s₁ v t hfields hv => ?_)
  simp only [List.mem_range, false_or] at t hv
  have hind : v.addr NDIRECT = (ino x).addr NDIRECT := (hv NDIRECT le_rfl).2 (lt_irrefl _)
  have hindSlot : slotOf s.home (ino x) NDIRECT = (ino x).addr NDIRECT := by
    rw [slotOf, if_pos le_rfl]
  have hzero : ∀ w : DInode, (∀ k ≤ NDIRECT, w.addr k = 0) → ∀ k, w.addr k = 0 := by
    intro w hw k
    by_cases hk : k ≤ NDIRECT
    · exact hw k hk
    · rw [DInode.addr, dif_neg (by omega)]
  refine seq (getInode ?_)
  rw [t.self]
  dsimp only
  rw [hind, c.cached.dev_of_live l]
  by_cases hz : (ino x).addr NDIRECT = 0
  · rw [if_neg (by simp [hz])]
    refine itruncEnd c l t hfields (fun k b hown => ?_) (hzero v fun k hk => ?_) h
    · -- without an indirect block only direct places hold blocks
      obtain ⟨-, -, hb, hb0⟩ := own_eq_some.1 hown
      by_contra hk
      simp only [slotOf, hz, if_true] at hb
      split at hb
      · obtain rfl : k = NDIRECT := by omega
        exact hb0 (hb.symm.trans hz)
      · exact hb0 hb.symm
    · by_cases hlt : k < NDIRECT
      · exact (hv k hk).1 hlt
      · obtain rfl : k = NDIRECT := by omega
        exact hind.trans hz
  · rw [if_pos hz]
    have hown : own sb s.home ino (x, NDIRECT) = some ((ino x).addr NDIRECT) :=
      own_eq_some.2 ⟨hx, ht, hindSlot, hz⟩
    obtain ⟨hlo, -⟩ := (c.good.owns.held _ _ hown).1
    have hlog : (ino x).addr NDIRECT < s₁.log.start := by
      rw [t.mounted.start]
      exact c.good.home _ _ hown
    refine seq (bread t.mounted.readAlloc fun _ => seq (data ?_))
    rw [setHeld_blk, ← home_of_lt hlog, t.home _ (Or.inr hlo)]
    refine seq (itruncIndirect c l (fun j => ?_) (fun j _ => by omega) List.nodup_range
      (t.setHeld _) fun s₂ t₂ => ?_)
    · rw [slotOf, if_neg (by omega), if_neg hz, show NDIRECT + 1 + j - NDIRECT - 1 = j by omega]
    simp only [List.mem_range] at t₂
    refine seq (brelse_any t₂.mounted.readAlloc (seq ?_))
    refine bfree_place c (t₂.setHeld _) hown (by omega) fun s₃ t₃ => ?_
    have hset := fun k => DInode.addr_setAddr (v := v) (j := k) le_rfl (show 0 < 2 ^ 32 by decide)
    refine seq (setInode ?_)
    refine itruncEnd c l (t₃.setInode (v.setAddr NDIRECT 0)) hfields (fun k b hk => ?_)
      (hzero _ fun k hk => ?_) h
    · have hlt : k < NSLOT := by
        by_contra hge
        obtain ⟨-, -, hb, hb0⟩ := own_eq_some.1 hk
        exact hb0 (hb.symm.trans (slotOf_of_ge (by omega)))
      have hN := NSLOT_eq
      have hI := NINDIRECT_eq
      by_cases hgt : NDIRECT < k
      · exact Or.inl (Or.inr ⟨k - NDIRECT - 1, by omega, by omega⟩)
      · omega
    · rw [hset]
      split
      · rfl
      · exact (hv k hk).1 (by omega)

end Safe

end Xv6
