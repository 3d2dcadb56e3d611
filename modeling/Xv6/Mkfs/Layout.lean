import Xv6.Mkfs
import Xv6.Fs.ReadWrite

/-!
# The layout that `mkfs` writes

Blocks are taken one after another, so that the blocks of the inodes are those below `freeblock`,
each at one place (`Owned`).  A file of `n` bytes has the blocks that `n` bytes need and no others,
and shows the bytes that were appended (`Laid`).  One turn of the loop of `iappend` appends what
fits into a block, and keeps all other files.
-/

namespace Xv6.Mkfs

open Lib

variable {s s' : Image} {ino : ℕ → DInode} {data : ℕ → List UInt8} {din : DInode}
    {x y k b n off : ℕ}

/-! ## Places in use -/

lemma sb_dataStart : sb.dataStart = 29 := rfl

/-- The places that a file of `n` bytes uses; the indirect block belongs to the first block that it
has. -/
def Takes (n k : ℕ) : Prop := (if k ≤ NDIRECT then k else k - 1) * BSIZE < n

/-- The number of these places. -/
def blocksFor (n : ℕ) : ℕ := (n + BSIZE - 1) / BSIZE + if NDIRECT * BSIZE < n then 1 else 0

lemma takes_fileSlot {bn : ℕ} : Takes n (fileSlot bn) ↔ bn * BSIZE < n := by
  have hD := NDIRECT_eq
  rw [Takes, fileSlot]
  split <;> split <;> first | omega | (rw [Nat.add_sub_cancel])

lemma blocksFor_mono {m : ℕ} (h : n ≤ m) : blocksFor n ≤ blocksFor m := by
  have hD := NDIRECT_eq
  have hB := BSIZE_eq
  rw [blocksFor, blocksFor, hD, hB]
  split_ifs <;> omega

/-! ## Owners -/

/-- The blocks in use are those of the inodes, and have one place each. -/
structure Owned (s : Image) (ino : ℕ → DInode) : Prop where
  sectors : s.sectors = size
  used : s.usedblocks = s.freeblock
  lo : sb.dataStart ≤ s.freeblock
  fresh : ∀ b, s.freeblock ≤ b → s.disk b = Fs.zeroBlock
  owns : Owns (own sb s.disk ino) (· < s.freeblock) (sb.dataStart ≤ ·) []

namespace Owned

lemma range (o : Owned s ino) (hx : x < ninodes) (ht : (ino x).type ≠ 0)
    (hk : slotOf s.disk (ino x) k ≠ 0) :
    sb.dataStart ≤ slotOf s.disk (ino x) k ∧ slotOf s.disk (ino x) k < s.freeblock :=
  o.owns.held _ _ (own_slotOf hx ht hk)

/-- Two places hold different blocks. -/
lemma slot_ne (o : Owned s ino) {j : ℕ} (hx : x < ninodes) (ht : (ino x).type ≠ 0)
    (hy : y < ninodes) (hyt : (ino y).type ≠ 0) (hne : (x, k) ≠ (y, j))
    (hk : slotOf s.disk (ino x) k ≠ 0) :
    slotOf s.disk (ino y) j ≠ slotOf s.disk (ino x) k := by
  intro heq
  have hj : slotOf s.disk (ino y) j ≠ 0 := by rwa [heq]
  refine hne (o.owns.inj _ _ _ (own_slotOf hx ht hk) ?_)
  rw [own_slotOf hy hyt hj, heq]

/-- The next block goes to a place that was empty. -/
lemma put {ino' : ℕ → DInode} (o : Owned s ino) (hx : x < ninodes) (ht : (ino x).type ≠ 0)
    (hempty : slotOf s.disk (ino x) k = 0) (htype : ∀ y, (ino' y).type = (ino y).type)
    (hslot : ∀ y < ninodes, (ino y).type ≠ 0 → ∀ j, slotOf s'.disk (ino' y) j =
      if (y, j) = (x, k) then s.freeblock else slotOf s.disk (ino y) j)
    (hsectors : s'.sectors = s.sectors) (hfree : s'.freeblock = s.freeblock + 1)
    (hused : s'.usedblocks = s.usedblocks + 1)
    (hfresh : ∀ b, s.freeblock < b → s'.disk b = s.disk b) : Owned s' ino' := by
  have hb0 : s.freeblock ≠ 0 := by
    have := sb.three_le_dataStart
    have := o.lo
    omega
  have hown : ∀ l, own sb s'.disk ino' l = if l = (x, k) then some s.freeblock
    else own sb s.disk ino l := by
    rintro ⟨y, j⟩
    by_cases hy : y < sb.ninodes ∧ (ino y).type ≠ 0
    · by_cases hyj : (y, j) = (x, k)
      · rw [if_pos hyj]
        refine own_eq_some.2 ⟨hy.1, by rw [htype]; exact hy.2, ?_, hb0⟩
        rw [hslot y hy.1 hy.2, if_pos hyj]
      · rw [if_neg hyj, own, own, htype, hslot y hy.1 hy.2, if_neg hyj]
    · have hyj : (y, j) ≠ (x, k) :=
        fun heq => hy (by obtain ⟨rfl, rfl⟩ := Prod.mk.inj heq; exact ⟨hx, ht⟩)
      rw [if_neg hyj, own, own, htype, if_neg fun hc => hy ⟨hc.1, hc.2.1⟩, if_neg fun hc => hy
        ⟨hc.1, hc.2.1⟩]
  refine ⟨hsectors.trans
    o.sectors, by rw [hused, hfree, o.used], by rw [hfree]; exact Nat.le_succ_of_le o.lo,
    fun b hb => ?_, ?_⟩
  · rw [hfree] at hb
    rw [hfresh b hb]
    exact o.fresh b (by omega)
  · have htake : Owns (own sb s.disk ino) (· < s'.freeblock) (sb.dataStart ≤ ·) [s.freeblock] :=
      o.owns.take o.lo (lt_irrefl _) fun c _ => by omega
    refine htake.put (i := (x, k)) ?_ (by rw [hown, if_pos rfl]) fun l hl => by rw [hown, if_neg hl]
    simp [own, hempty]

end Owned

/-! ## Finding a block -/

/-- From `s` to `s'` inode `x` has become `din`, with new blocks at the places `ks`. -/
structure Extends (s : Image) (ino : ℕ → DInode) (x : ℕ) (ks : List ℕ) (s' : Image) (din : DInode) :
    Prop where
  owned : Owned s' (Function.update ino x din)
  fields : { din with addrs := (ino x).addrs } = ino x
  keeps : ∀ k, slotOf s.disk (ino x) k ≠ 0 → slotOf s'.disk din k = slotOf s.disk (ino x) k
  slot : ∀ k, slotOf s'.disk din k ≠ 0 ↔ slotOf s.disk (ino x) k ≠ 0 ∨ k ∈ ks
  disk : ∀ c, c = 0 ∨ c ≠ din.addr NDIRECT → s'.disk c = s.disk c
  freeblock : s'.freeblock = s.freeblock + ks.length
  freeinode : s'.freeinode = s.freeinode

namespace Extends

variable {ks ks' : List ℕ} {s₁ s₂ : Image} {din₁ din₂ : DInode}

lemma refl (o : Owned s ino) : Extends s ino x [] s (ino x) :=
  ⟨by rwa [Function.update_eq_self], rfl, fun _ _ => rfl, by simp, fun _ _ => rfl, rfl, rfl⟩

lemma type_eq (e : Extends s ino x ks s' din) : din.type = (ino x).type := by
  rw [← e.fields]

/-- A block becomes an address of the inode. -/
lemma putAddr (o : Owned s ino) (hx : x < ninodes) (ht : (ino x).type ≠ 0) (hk : k ≤ NDIRECT)
    (hzero : (ino x).addr k = 0) (hroom : s.freeblock < size) :
    Extends s ino x [k] s.take ((ino x).setAddr k s.freeblock) := by
  have hb0 : s.freeblock ≠ 0 := by
    have := sb.three_le_dataStart
    have := o.lo
    omega
  have hb32 : s.freeblock < 2 ^ 32 := hroom.trans (by decide)
  have hslot := slotOf_setAddr (h := s.disk) hk hb0 hb32 hzero fun _ => o.fresh _ le_rfl
  have hempty : slotOf s.disk (ino x) k = 0 := by rw [slotOf, if_pos hk, hzero]
  refine ⟨o.put hx ht hempty (fun y => ?_) (fun y hy hyt j => ?_) rfl rfl rfl fun _ _ => rfl, rfl,
    fun j hj => ?_, fun j => ?_, fun _ _ => rfl, rfl, rfl⟩
  · by_cases hyx : y = x
    · subst hyx
      rw [Function.update_self]
      rfl
    · rw [Function.update_of_ne hyx]
  · by_cases hyx : y = x
    · subst hyx
      rw [Function.update_self]
      exact (hslot j).trans (by simp)
    · rw [Function.update_of_ne hyx, if_neg fun heq => hyx (Prod.mk.inj heq).1]
      rfl
  · refine (hslot j).trans (if_neg fun heq => hj ?_)
    rw [heq, hempty]
  · rw [List.mem_singleton]
    change slotOf s.disk ((ino x).setAddr k s.freeblock) j ≠ 0 ↔ _
    rw [hslot j]
    by_cases hj : j = k
    · simp [hj, hb0]
    · simp [hj]

/-- A block becomes an entry of the indirect block. -/
lemma putEntry {c j : ℕ} (o : Owned s ino) (hx : x < ninodes) (ht : (ino x).type ≠ 0)
    (hind : (ino x).addr NDIRECT = c) (hc0 : c ≠ 0) (hj : j < NINDIRECT)
    (hzero : (s.disk c).get32 (4 * j) = 0) (hroom : s.freeblock < size) :
    Extends s ino x [NDIRECT + 1 + j] (s.take.wsect c ((s.disk c).set32 (4 * j) s.freeblock))
      (ino x) := by
  have hb0 : s.freeblock ≠ 0 := by
    have := sb.three_le_dataStart
    have := o.lo
    omega
  have hb32 : s.freeblock < 2 ^ 32 := hroom.trans (by decide)
  have hcx : slotOf s.disk (ino x) NDIRECT = c := by rw [slotOf, if_pos le_rfl, hind]
  have hcfree := (o.range hx ht (k := NDIRECT) (by rwa [hcx])).2
  rw [hcx] at hcfree
  have hslot := slotOf_setEntry (h := s.disk) hind hc0 hj hb32
  have hempty : slotOf s.disk (ino x) (NDIRECT + 1 + j) = 0 := by
    rw [slotOf, if_neg (by omega), hind, if_neg hc0, show NDIRECT + 1 + j - NDIRECT -
      1 = j by omega]
    exact hzero
  have hupd : Function.update ino x (ino x) = ino := Function.update_eq_self x ino
  refine ⟨?_, rfl, fun k hk => ?_, fun k => ?_, fun d hd => ?_, rfl, rfl⟩
  · rw [hupd]
    refine o.put hx ht hempty (fun _ => rfl) (fun y hy hyt k => ?_) ?_ rfl rfl fun b hb => ?_
    · by_cases hyx : y = x
      · subst hyx
        exact (hslot k).trans (by simp)
      · rw [if_neg fun heq => hyx (Prod.mk.inj heq).1]
        refine Good.slotOf_update (h := s.disk) ?_ k
        have := o.slot_ne hx ht hy hyt (k := NDIRECT) (j := NDIRECT)
          (fun heq => hyx (Prod.mk.inj heq).1.symm) (by rwa [hcx])
        rwa [hcx, slotOf, if_pos le_rfl] at this
    · have := o.sectors
      exact max_eq_left (show c + 1 ≤ s.sectors by omega)
    · exact Function.update_of_ne (by omega) _ _
  · refine (hslot k).trans (if_neg fun heq => hk ?_)
    rw [heq, hempty]
  · rw [List.mem_singleton]
    change slotOf (Function.update s.disk c _) (ino x) k ≠ 0 ↔ _
    rw [hslot k]
    by_cases hk : k = NDIRECT + 1 + j
    · simp [hk, hb0]
    · simp [hk]
  · refine Function.update_of_ne (fun heq => ?_) _ _
    rcases hd with hd | hd
    · exact hc0 (heq.symm.trans hd)
    · exact hd (heq.trans hind.symm)

lemma trans (e₁ : Extends s ino x ks s₁ din₁)
    (e₂ : Extends s₁ (Function.update ino x din₁) x ks' s₂ din₂)
    (hind : din₂.addr NDIRECT = din₁.addr NDIRECT) :
    Extends s ino x (ks ++ ks') s₂ din₂ := by
  obtain ⟨ho, hf, hk, hs, hd, hfree, hi⟩ := e₂
  rw [Function.update_idem] at ho
  rw [Function.update_self] at hf hk hs
  refine ⟨ho, ?_, fun k hne => ?_, fun k => ?_, fun c hc => ?_, ?_, hi.trans e₁.freeinode⟩
  · rw [← e₁.fields, ← hf]
  · have h₁ := e₁.keeps k hne
    rw [hk k (by rwa [h₁]), h₁]
  · rw [hs, e₁.slot, List.mem_append, or_assoc]
  · rw [hd c hc, e₁.disk c (by rwa [← hind])]
  · rw [hfree, e₁.freeblock, List.length_append, Nat.add_assoc]

end Extends

lemma wsect_disk_of_ne {c : ℕ} {d : Block} (h : c ≠ b) : (s.wsect b d).disk c = s.disk c :=
  Function.update_of_ne h _ _

lemma rsect_eq (h : b < s.sectors) : s.rsect b = some (s.disk b) := if_pos h

/-- The places that `fileBlock` fills. -/
def newPlaces (h : ℕ → Block) (v : DInode) (bn : ℕ) : List ℕ :=
  (if NDIRECT ≤ bn ∧ v.addr NDIRECT = 0 then [NDIRECT] else []) ++
    if slotOf h v (fileSlot bn) = 0 then [fileSlot bn] else []

/-- The indirect block is there, or is taken. -/
lemma exists_indirect {bn : ℕ} (o : Owned s ino) (hx : x < ninodes) (ht : (ino x).type ≠ 0)
    (hbn : NDIRECT ≤ bn)
    (hroom : s.freeblock + (if (ino x).addr NDIRECT = 0 then 1 else 0) ≤ size) :
    ∃ s₁ din₁, (if (ino x).addr NDIRECT = 0 then ((ino x).setAddr NDIRECT s.freeblock, s.take)
        else (ino x, s)) = (din₁, s₁) ∧
      Extends s ino x (if (ino x).addr NDIRECT = 0 then [NDIRECT] else []) s₁ din₁ ∧
      din₁.addr NDIRECT ≠ 0 ∧ slotOf s₁.disk din₁ (fileSlot bn) = slotOf s.disk (ino x)
      (fileSlot bn) := by
  by_cases hz : (ino x).addr NDIRECT = 0
  · rw [if_pos hz] at hroom ⊢
    rw [if_pos hz]
    have hext := Extends.putAddr o hx ht le_rfl hz (by omega)
    refine ⟨_, _, rfl, hext, ?_, ?_⟩
    · have := (hext.slot NDIRECT).2 (.inr (by simp))
      rwa [slotOf, if_pos le_rfl] at this
    · have hold : slotOf s.disk (ino x) (fileSlot bn) = 0 := by
        rw [fileSlot, if_neg (by omega), slotOf, if_neg (by omega), if_pos hz]
      rw [hold]
      by_contra hne
      rcases (hext.slot _).1 hne with hne | hmem
      · exact hne hold
      · exact fileSlot_ne (List.mem_singleton.1 hmem)
  · rw [if_neg hz, if_neg hz]
    exact ⟨s, ino x, rfl, .refl o, hz, rfl⟩

/-- `fileBlock` returns the block of `bn` after filling the places that are missing. -/
lemma fileBlock_spec {bn : ℕ} (o : Owned s ino) (hx : x < ninodes) (ht : (ino x).type ≠ 0)
    (hbn : bn < MAXFILE) (hroom : s.freeblock + (newPlaces s.disk (ino x) bn).length ≤ size) :
    ∃ s' din, fileBlock (ino x) bn s = some (slotOf s'.disk din (fileSlot bn), din, s') ∧
      Extends s ino x (newPlaces s.disk (ino x) bn) s' din := by
  have hD := NDIRECT_eq
  have hI := NINDIRECT_eq
  have hM := MAXFILE_eq
  rw [fileBlock]
  by_cases hdir : bn < NDIRECT
  · have hnew : newPlaces s.disk (ino x) bn = if (ino x).addr bn = 0 then [bn] else [] := by
      rw [newPlaces, if_neg fun hc => absurd hc.1 (not_le.2 hdir), List.nil_append,
        slotOf_fileSlot_of_lt hdir,
        fileSlot, if_pos hdir]
    rw [hnew] at hroom ⊢
    rw [if_pos hdir, fileSlot, if_pos hdir]
    by_cases hz : (ino x).addr bn = 0
    · rw [if_pos hz] at hroom ⊢
      rw [if_pos hz]
      refine ⟨_, _, ?_, .putAddr o hx ht hdir.le hz hroom⟩
      rw [slotOf, if_pos hdir.le]
    · rw [if_neg hz, if_neg hz]
      refine ⟨s, ino x, ?_, .refl o⟩
      rw [slotOf, if_pos hdir.le]
  · have hge : NDIRECT ≤ bn := not_lt.1 hdir
    have hnew : newPlaces s.disk (ino x) bn = (if (ino x).addr NDIRECT = 0 then
      [NDIRECT] else []) ++
        if slotOf s.disk (ino x) (fileSlot bn) = 0 then [fileSlot bn] else [] := by
      simp [newPlaces, hge]
    rw [hnew] at hroom ⊢
    rw [List.length_append] at hroom
    rw [if_neg hdir]
    have hroom₁ : s.freeblock + (if (ino x).addr NDIRECT = 0 then 1 else 0) ≤ size := by
      refine le_trans (Nat.add_le_add_left ?_ _)
        ((Nat.le_add_right _ _).trans ((Nat.add_assoc ..).trans_le hroom))
      split <;> rfl
    obtain ⟨s₁, din₁, hstage, e₁, hind, hsame⟩ := exists_indirect o hx ht hge hroom₁
    have ht₁ : (Function.update ino x din₁ x).type ≠ 0 := by rwa [Function.update_self, e₁.type_eq]
    have hind₁ : (Function.update ino x din₁ x).addr NDIRECT = din₁.addr NDIRECT := by
      rw [Function.update_self]
    have hplace : slotOf s₁.disk din₁ (fileSlot bn) =
        (s₁.disk (din₁.addr NDIRECT)).get32 (4 * (bn - NDIRECT)) := slotOf_fileSlot_of_ge hge hind
    have hlt : din₁.addr NDIRECT < s₁.sectors := by
      have hr :=
        (e₁.owned.range hx ht₁ (k := NDIRECT)
        (by rwa [Function.update_self, slotOf, if_pos le_rfl])).2
      rw [Function.update_self, slotOf, if_pos le_rfl, e₁.freeblock] at hr
      have := e₁.owned.sectors
      omega
    have hslot : fileSlot bn = NDIRECT + 1 + (bn - NDIRECT) := by
      rw [fileSlot, if_neg hdir]
      omega
    rw [hstage]
    simp only [rsect_eq hlt, Option.bind_eq_bind, Option.bind_some]
    rw [← hplace, hsame]
    by_cases hz : slotOf s.disk (ino x) (fileSlot bn) = 0
    · rw [if_pos hz] at hroom ⊢
      rw [if_pos hz]
      have e₂ := Extends.putEntry (j := bn - NDIRECT) e₁.owned hx ht₁ hind₁ hind (by omega)
        (by rw [← hplace, hsame, hz]) (by rw [e₁.freeblock]; exact hroom)
      rw [Function.update_self, ← hslot] at e₂
      refine ⟨_, din₁, ?_, e₁.trans e₂ rfl⟩
      simp [slotOf_fileSlot_of_ge hge hind, Image.wsect]
    · rw [if_neg hz, if_neg hz, List.append_nil]
      exact ⟨s₁, din₁, by rw [hsame], e₁⟩

lemma lt_sectors_of_rsect {d : Block} (h : s.rsect b = some d) : b < s.sectors := by
  by_contra hno
  rw [Image.rsect, if_neg hno] at h
  exact absurd h (by simp)

/-- A block behind the end of the image cannot be read, so there was room for what has been
taken. -/
lemma fileBlock_room {bn : ℕ} {r : ℕ × DInode × Image} (o : Owned s ino) (hx : x < ninodes)
    (ht : (ino x).type ≠ 0) (hbn : bn < MAXFILE) (hfree : s.freeblock ≤ size)
    (hrun : fileBlock (ino x) bn s = some r) (hr : r.1 < r.2.2.sectors) :
    s.freeblock + (newPlaces s.disk (ino x) bn).length ≤ size := by
  have hD := NDIRECT_eq
  have hI := NINDIRECT_eq
  have hM := MAXFILE_eq
  have hS : size < 2 ^ 32 := by decide
  rw [fileBlock] at hrun
  by_cases hdir : bn < NDIRECT
  · rw [if_pos hdir] at hrun
    rw [newPlaces, if_neg fun hc => absurd hc.1 (not_le.2 hdir), List.nil_append,
      slotOf_fileSlot_of_lt hdir]
    by_cases hz : (ino x).addr bn = 0
    · rw [if_pos hz] at hrun ⊢
      obtain rfl := Option.some.inj hrun
      dsimp only at hr
      rw [DInode.addr_setAddr hdir.le (by omega), if_pos rfl] at hr
      exact hr.trans_eq o.sectors
    · rwa [if_neg hz]
  · have hge : NDIRECT ≤ bn := not_lt.1 hdir
    rw [if_neg hdir] at hrun
    generalize hst : (if (ino x).addr NDIRECT = 0 then ((ino x).setAddr NDIRECT s.freeblock, s.take)
      else (ino x, s)) = st at hrun
    obtain ⟨din, s₀⟩ := st
    obtain ⟨indirect, hind, hrun⟩ := Option.bind_eq_some_iff.1 hrun
    have hlt := lt_sectors_of_rsect hind
    -- first for the indirect block
    have hroom₁ : s.freeblock + (if (ino x).addr NDIRECT = 0 then 1 else 0) ≤ size := by
      by_cases hz : (ino x).addr NDIRECT = 0
      · rw [if_pos hz] at hst ⊢
        obtain ⟨rfl, rfl⟩ := Prod.mk.inj hst
        rw [DInode.addr_setAddr le_rfl (by omega), if_pos rfl] at hlt
        exact hlt.trans_eq o.sectors
      · rwa [if_neg hz]
    obtain ⟨s₁, din₁, hstage, e₁, hne, hsame⟩ := exists_indirect o hx ht hge hroom₁
    obtain ⟨rfl, rfl⟩ := Prod.mk.inj (hst.symm.trans hstage)
    obtain rfl := Option.some.inj ((rsect_eq hlt).symm.trans hind)
    have hplace := slotOf_fileSlot_of_ge (h := s₀.disk) hge hne
    have hfree₁ := e₁.freeblock
    have hcount : (newPlaces s.disk (ino x) bn).length =
        (if (ino x).addr NDIRECT = 0 then [NDIRECT] else []).length +
          if slotOf s.disk (ino x) (fileSlot bn) = 0 then 1 else 0 := by
      rw [newPlaces, List.length_append]
      simp only [hge, true_and]
      split <;> split <;> rfl
    have hle : s₀.freeblock ≤ size := by
      rw [hfree₁]
      refine le_trans (Nat.add_le_add_left ?_ _) hroom₁
      split <;> rfl
    rw [hcount, ← Nat.add_assoc, ← hfree₁]
    by_cases hz : slotOf s.disk (ino x) (fileSlot bn) = 0
    · -- then for the block itself
      rw [if_pos (by rw [← hplace, hsame, hz])] at hrun
      obtain rfl := Option.some.inj hrun
      have hsectors := e₁.owned.sectors
      have hB := BSIZE_eq
      dsimp only at hr
      rw [Bytes.get32_set32_self (by omega), Nat.mod_eq_of_lt (by omega)] at hr
      rw [if_pos hz]
      have hmax : (s₀.take.wsect (din.addr NDIRECT) ((s₀.disk (din.addr NDIRECT)).set32
          (4 * (bn - NDIRECT)) s₀.freeblock)).sectors = s₀.sectors := max_eq_left hlt
      omega
    · rwa [if_neg hz]

/-! ## Writing into a block -/

namespace Owned

/-- Writing a block that is not an indirect block leaves all places. -/
lemma slotOf_wsect {d : Block} (o : Owned s ino) (hx : x < ninodes) (ht : (ino x).type ≠ 0)
    (hk : k ≠ NDIRECT) (hb : slotOf s.disk (ino x) k ≠ 0) (hy : y < ninodes)
    (hyt : (ino y).type ≠ 0) (j : ℕ) :
    slotOf (s.wsect (slotOf s.disk (ino x) k) d).disk (ino y) j = slotOf s.disk (ino y) j := by
  have hne := o.slot_ne hx ht hy hyt (j := NDIRECT) (fun heq => hk (Prod.mk.inj heq).2) hb
  rw [slotOf, if_pos le_rfl] at hne
  exact Good.slotOf_update (h := s.disk) hne j

lemma wsect {d : Block} (o : Owned s ino) (hx : x < ninodes) (ht : (ino x).type ≠ 0)
    (hk : k ≠ NDIRECT) (hb : slotOf s.disk (ino x) k ≠ 0) (hroom : s.freeblock ≤ size) :
    Owned (s.wsect (slotOf s.disk (ino x) k) d) ino := by
  have hlt := (o.range hx ht hb).2
  refine ⟨?_, o.used, o.lo, fun c hc => ?_, o.owns.congr (fun l => ?_) fun _ _ => Iff.rfl⟩
  · have := o.sectors
    exact (max_eq_left (show slotOf s.disk (ino x) k + 1 ≤ s.sectors by omega)).trans o.sectors
  · exact (Function.update_of_ne (ne_of_gt (hlt.trans_le hc)) _ _).trans (o.fresh c hc)
  · by_cases hl : l.1 < sb.ninodes ∧ (ino l.1).type ≠ 0
    · rw [own, own, o.slotOf_wsect hx ht hk hb hl.1 hl.2]
    · rw [own, own, if_neg fun hc => hl ⟨hc.1, hc.2.1⟩, if_neg fun hc => hl ⟨hc.1, hc.2.1⟩]

end Owned

/-- The inodes `ino` have the blocks for `data`, and show it. -/
structure Laid (s : Image) (ino : ℕ → DInode) (data : ℕ → List UInt8) : Prop where
  owned : Owned s ino
  place : ∀ x < ninodes, (ino x).type ≠ 0 → ∀ k, slotOf s.disk (ino x) k ≠ 0 ↔
    Takes (data x).length k
  bytes : ∀ x < ninodes, (ino x).type ≠ 0 → fileBytes s.disk (ino x) 0 (data x).length = data x

/-- The places that are missing for `n` more bytes in the block at the end of a file. -/
lemma newPlaces_spec {h : ℕ → Block} {v : DInode} (hplace : ∀ k, slotOf h v k ≠ 0 ↔ Takes off k)
    (hn : 0 < n) (hfit : off % BSIZE + n ≤ BSIZE) :
    (newPlaces h v (off / BSIZE)).length + blocksFor off = blocksFor (off + n) ∧
      ∀ k, Takes (off + n) k ↔ Takes off k ∨ k ∈ newPlaces h v (off / BSIZE) := by
  have hD := NDIRECT_eq
  have hB := BSIZE_eq
  have hind : v.addr NDIRECT = 0 ↔ off ≤ 6144 := by
    have hk := hplace NDIRECT
    rw [slotOf, if_pos le_rfl, Takes, if_pos le_rfl, show NDIRECT * BSIZE = 6144 from rfl] at hk
    omega
  have hslot : slotOf h v (fileSlot (off / BSIZE)) = 0 ↔ off % 512 = 0 := by
    have hk := hplace (fileSlot (off / BSIZE))
    rw [takes_fileSlot, hB] at hk
    rw [hB]
    omega
  have hnew : newPlaces h v (off / BSIZE) = (if off = 6144 then [NDIRECT] else []) ++
      if off % 512 = 0 then [fileSlot (off / BSIZE)] else [] := by
    have hiff : NDIRECT ≤ off / BSIZE ∧ v.addr NDIRECT = 0 ↔ off = 6144 := by
      rw [hind, hD, hB]
      omega
    simp only [newPlaces, hiff, hslot]
  rw [hnew]
  constructor
  · rw [hB] at hfit
    rw [blocksFor, blocksFor, hD, hB, List.length_append]
    split_ifs <;> simp only [List.length_cons, List.length_nil] <;> omega
  · intro k
    rw [hB] at hfit
    have hfile : (off < 6144 ∧ fileSlot (off / BSIZE) = off / 512) ∨
        (6144 ≤ off ∧ fileSlot (off / BSIZE) = off / 512 + 1) := by
      rw [fileSlot, hB, hD]
      split_ifs <;> omega
    rw [Takes, Takes, List.mem_append, hD, hB]
    rw [hB] at hfile
    generalize fileSlot (off / 512) = j at hfile
    split_ifs <;> simp only [List.mem_cons, List.not_mem_nil, or_false, false_or] <;> omega

namespace Extends

variable {ks : List ℕ}

lemma type_ne (e : Extends s ino x ks s' din) (ht : (ino x).type ≠ 0) :
    (Function.update ino x din x).type ≠ 0 := by
  rwa [Function.update_self, e.type_eq]

/-- The indirect block of `x` is at no place of another inode. -/
lemma indirect_ne (e : Extends s ino x ks s' din) (hx : x < ninodes) (ht : (ino x).type ≠ 0)
    (hy : y < ninodes) (hyt : (ino y).type ≠ 0) (hyx : y ≠ x) (hk : slotOf s'.disk (ino y) k ≠ 0) :
    slotOf s'.disk (ino y) k ≠ din.addr NDIRECT := by
  have hupd := Function.update_of_ne hyx din ino
  have hne := e.owned.slot_ne (k := k) (j := NDIRECT) hy (by rwa [hupd]) hx (e.type_ne ht)
    (fun heq => hyx (Prod.mk.inj heq).1) (by rwa [hupd])
  rw [Function.update_self, hupd, slotOf, if_pos le_rfl] at hne
  exact hne.symm

/-- The other inodes keep their places, -/
lemma others (e : Extends s ino x ks s' din) (hx : x < ninodes) (ht : (ino x).type ≠ 0)
    (hy : y < ninodes) (hyt : (ino y).type ≠ 0) (hyx : y ≠ x) (j : ℕ) :
    slotOf s'.disk (ino y) j = slotOf s.disk (ino y) j := by
  refine slotOf_congr (fun _ _ => rfl) (fun hz => e.disk _ (.inr ?_)) j
  have := e.indirect_ne (k := NDIRECT) hx ht hy hyt hyx (by rwa [slotOf, if_pos le_rfl])
  rwa [slotOf, if_pos le_rfl] at this

/-- and what is in them. -/
lemma others_disk (e : Extends s ino x ks s' din) (hx : x < ninodes) (ht : (ino x).type ≠ 0)
    (hy : y < ninodes) (hyt : (ino y).type ≠ 0) (hyx : y ≠ x) (hk : slotOf s.disk (ino y) k ≠ 0) :
    s'.disk (slotOf s.disk (ino y) k) = s.disk (slotOf s.disk (ino y) k) := by
  have hsame := e.others hx ht hy hyt hyx k
  rw [← hsame] at hk ⊢
  rw [e.disk _ (.inr (e.indirect_ne hx ht hy hyt hyx hk))]

/-- Nothing below the data blocks changes. -/
lemma low (e : Extends s ino x ks s' din) (hx : x < ninodes) (ht : (ino x).type ≠ 0) {c : ℕ}
    (hc : c < sb.dataStart) : s'.disk c = s.disk c := by
  refine e.disk c (or_iff_not_imp_left.2 fun hc0 heq => ?_)
  have hr := e.owned.range hx (e.type_ne ht) (k := NDIRECT)
  rw [Function.update_self, slotOf, if_pos le_rfl, ← heq] at hr
  exact absurd (hr hc0).1 (not_le.2 hc)

/-- The data blocks of the inode keep what is in them. -/
lemma disk_slot (e : Extends s ino x ks s' din) (hx : x < ninodes) (ht : (ino x).type ≠ 0)
    (hk : k ≠ NDIRECT) (hne : slotOf s'.disk din k ≠ 0) :
    s'.disk (slotOf s'.disk din k) = s.disk (slotOf s'.disk din k) := by
  refine e.disk _ (.inr fun heq => ?_)
  have := e.owned.slot_ne (k := k) (j := NDIRECT) hx (e.type_ne ht) hx (e.type_ne ht)
    (fun hc => hk (Prod.mk.inj hc).2) (by rwa [Function.update_self])
  rw [Function.update_self, slotOf, if_pos le_rfl] at this
  exact this heq.symm

end Extends

namespace Laid

variable {f : ℕ → UInt8}

/-- The block at the end of the file, after the places that are missing have been filled. -/
lemma slot_append (l : Laid s ino data) (hx : x < ninodes) (ht : (ino x).type ≠ 0)
    (hoff : (data x).length = off) (hn : 0 < n) (hfit : off % BSIZE + n ≤ BSIZE)
    (e : Extends s ino x (newPlaces s.disk (ino x) (off / BSIZE)) s' din) (k : ℕ) :
    slotOf s'.disk din k ≠ 0 ↔ Takes (off + n) k := by
  obtain ⟨-, htakes⟩ := newPlaces_spec (by rw [← hoff]; exact l.place x hx ht) hn hfit
  rw [e.slot, htakes, l.place x hx ht, hoff]

/-- What the file shows after bytes have been written into the block at its end. -/
lemma bytes_append {W : ℕ → Block} (l : Laid s ino data) (hx : x < ninodes) (ht : (ino x).type ≠ 0)
    (hoff : (data x).length = off) (hfit : off % BSIZE + n ≤ BSIZE)
    (e : Extends s ino x (newPlaces s.disk (ino x) (off / BSIZE)) s' din)
    (hb : slotOf s'.disk din (fileSlot (off / BSIZE)) = b)
    (hslot : ∀ j, slotOf W din j = slotOf s'.disk din j)
    (hW : W = Function.update s'.disk b ((s'.disk b).blit (off % BSIZE) n f)) :
    fileBytes W din 0 (off + n) = data x ++ (List.range n).map f := by
  have hB := BSIZE_eq
  rw [fileBytes_add, Nat.zero_add]
  congr 1
  · -- below the end, in the last block or before it
    have hold := l.bytes x hx ht
    rw [hoff] at hold
    refine Eq.trans (List.map_congr_left fun i hi => ?_) hold
    have hi' := List.mem_range.1 hi
    have hne : slotOf s.disk (ino x) (fileSlot (i / BSIZE)) ≠ 0 := by
      rw [l.place x hx ht, takes_fileSlot, hoff, hB]
      omega
    have hkeep := e.keeps _ hne
    have hsame := e.disk_slot hx ht fileSlot_ne (by rwa [hkeep])
    rw [hkeep] at hsame
    rw [Nat.zero_add, fileByte, fileByte, hslot, hkeep]
    by_cases hlast : slotOf s.disk (ino x) (fileSlot (i / BSIZE)) = b
    · have hdiv : i / BSIZE = off / BSIZE := by
        by_contra hdiv
        have hinj : fileSlot (off / BSIZE) ≠ fileSlot (i / BSIZE) := by
          have hD := NDIRECT_eq
          simp only [fileSlot]
          split <;> split <;> omega
        have := e.owned.slot_ne (k := fileSlot (i / BSIZE)) (j := fileSlot (off / BSIZE)) hx
          (e.type_ne ht) hx (e.type_ne ht) (fun hc => hinj (Prod.mk.inj hc).2.symm)
          (by rwa [Function.update_self, hkeep])
        rw [Function.update_self, hb, hkeep, hlast] at this
        exact this rfl
      rw [hlast] at hsame ⊢
      rw [hW, Function.update_self, Bytes.byteAt_blit_of_disj (.inl ?_), hsame]
      rw [hB] at hdiv ⊢
      omega
    · rw [hW, Function.update_of_ne hlast, hsame]
  · rw [fileBytes_eq_slice hfit, hslot, hb, hW, Function.update_self, Bytes.slice_blit hfit]

/-- A turn of the loop of `iappend`: the block at the end of the file is found, and bytes are
written into it. -/
lemma append (l : Laid s ino data) (hx : x < ninodes) (ht : (ino x).type ≠ 0)
    (hoff : (data x).length = off) (hn : 0 < n) (hfit : off % BSIZE + n ≤ BSIZE)
    (e : Extends s ino x (newPlaces s.disk (ino x) (off / BSIZE)) s' din)
    (hroom : s'.freeblock ≤ size) (hb : slotOf s'.disk din (fileSlot (off / BSIZE)) = b) :
    Laid (s'.wsect b ((s'.disk b).blit (off % BSIZE) n f))
      (Function.update ino x din) (Function.update data x (data x ++ (List.range n).map f)) := by
  have hB := BSIZE_eq
  have hslot := l.slot_append hx ht hoff hn hfit e
  have hb0 : b ≠ 0 := by
    rw [← hb, hslot, takes_fileSlot, hB]
    omega
  have hself : Function.update ino x din x = din := Function.update_self ..
  have ht' := e.type_ne ht
  have hbx : slotOf s'.disk (Function.update ino x din x) (fileSlot (off / BSIZE)) = b := by
    rw [hself, hb]
  generalize hd : ((s'.disk b).blit (off % BSIZE) n f) = d
  have hkeep : ∀ {y}, y < ninodes → (Function.update ino x din y).type ≠ 0 → ∀ j,
      slotOf (s'.wsect b d).disk (Function.update ino x din y) j =
        slotOf s'.disk (Function.update ino x din y) j := fun hy hyt j => by
    have := e.owned.slotOf_wsect (d := d) hx ht' fileSlot_ne (by rwa [hbx]) hy hyt j
    rwa [hbx] at this
  refine ⟨?_, fun y hy hyt k => ?_, fun y hy hyt => ?_⟩
  · have := e.owned.wsect (d := d) hx ht' fileSlot_ne (by rwa [hbx]) hroom
    rwa [hbx] at this
  · rw [hkeep hy hyt]
    by_cases hyx : y = x
    · subst hyx
      rw [hself, hslot, Function.update_self, List.length_append, List.length_map,
        List.length_range, hoff]
    · rw [Function.update_of_ne hyx] at hyt ⊢
      rw [Function.update_of_ne hyx, e.others hx ht hy hyt hyx]
      exact l.place y hy hyt k
  · have hslots := hkeep hy hyt
    by_cases hyx : y = x
    · subst hyx
      rw [hself] at hslots ⊢
      rw [Function.update_self, List.length_append, List.length_map, List.length_range, hoff]
      exact l.bytes_append hx ht hoff hfit e hb hslots (by rw [hd]; rfl)
    · have hupd := Function.update_of_ne hyx din ino
      rw [hupd] at hyt hslots ⊢
      rw [Function.update_of_ne hyx]
      refine Eq.trans (List.map_congr_left fun i hi => ?_) (l.bytes y hy hyt)
      have hi' := List.mem_range.1 hi
      have hne : slotOf s.disk (ino y) (fileSlot (i / BSIZE)) ≠ 0 := by
        rw [l.place y hy hyt, takes_fileSlot, hB]
        omega
      have hcb : slotOf s.disk (ino y) (fileSlot (i / BSIZE)) ≠ b := by
        have := e.owned.slot_ne (k := fileSlot (off / BSIZE)) (j := fileSlot (i / BSIZE)) hx ht' hy
          (by rwa [hupd]) (fun hc => hyx (Prod.mk.inj hc).1.symm) (by rwa [hbx])
        rwa [hupd, hbx, e.others hx ht hy hyt hyx] at this
      rw [Nat.zero_add, fileByte, fileByte, hslots, e.others hx ht hy hyt hyx, wsect_disk_of_ne hcb,
        e.others_disk hx ht hy hyt hyx hne]

end Laid

end Xv6.Mkfs
